import Mathlib.Data.List.Forall2
import HeaderRewrite.HeaderProcessor
import HeaderRewrite.Parsing.Condition
import HeaderRewrite.Parsing.Operand

/-!
# Parsing an operation

The parsers of the operations read the tokens of a line by position, with size checks spread over
them. Each is shown to be a parser of the line's shape: the operands it takes, then nothing or `if`
and a condition. No size check is missing, so each accepts or rejects every line that has two
tokens, and none of its `catch` clauses is ever reached.

## Main definitions

* `parseClause`, `Clause`: the part of a line after the operands;
* `parseKeyValue`: a key, a value and that part, which `set-header` and `set-metadata` have.

## Main results

* `SetHeaderProcessor.parseOperation_eq` and its siblings: the parsers by the shape of the line;
* `parseKeyValue_settles`, `SetPathProcessor.parseOperation_settles` and their siblings: every line
  is accepted or rejected;
* `parseKeyValue_eq_accepted_iff`, `SetPathProcessor.parseOperation_eq_accepted_iff` and their
  siblings: the accepted lines.
-/

namespace HeaderRewrite

open Cxx Utility

variable {M I : Type}

/-! ## The condition of an operation -/

/-- Parse what follows the operands of an operation: nothing, or `if` and a condition. -/
def parseClause (declared : Str → Bool) (processor : Processor) (otherwise : Str) :
    List Str → Parse Status (Option ConditionProcessor)
  | [] => .accepted none
  | keyword :: condition =>
    if keyword = ifKeyword then
      some <$> conditionProcessorSetup declared processor condition 0
    else .rejected (.invalidArgument otherwise)

/-- What follows the operands of an operation, and the condition it stands for. -/
inductive Clause (declared : Str → Bool) (processor : Processor) :
    List Str → Option ConditionProcessor → Prop
  /-- There is nothing. -/
  | unconditional : Clause declared processor [] none
  /-- There is `if` and a condition. -/
  | conditional {condition : List Str} {p : ConditionProcessor} :
      ConditionProcessor.parseOperation declared condition 0 processor = .accepted p →
      Clause declared processor (ifKeyword :: condition) (some p)

section Clause

variable {declared : Str → Bool} {processor : Processor}

/-- Only the tokens after `if` matter. -/
theorem conditionProcessorSetup_drop {tokens : List Str} {start : Nat}
    (hstart : start ≤ tokens.length) :
    conditionProcessorSetup declared processor tokens start =
      conditionProcessorSetup declared processor (tokens.drop start) 0 := by
  unfold conditionProcessorSetup
  by_cases hend : start = tokens.length
  · simp [hend]
  · have hlt : start < tokens.length := by omega
    have hne : ¬ 0 = (tokens.drop start).length := by
      rw [List.length_drop]
      omega
    rw [if_neg hend, if_neg hne, ConditionProcessor.parseOperation_drop processor hlt]

theorem conditionProcessorSetup_settles (condition : List Str) :
    (conditionProcessorSetup declared processor condition 0).Settles := by
  unfold conditionProcessorSetup
  split
  · trivial
  · next hne =>
    exact ConditionProcessor.parseOperation_settles processor (by omega)

/-- An empty condition is not accepted. -/
theorem conditionProcessorSetup_eq_accepted_iff {condition : List Str} {p : ConditionProcessor} :
    conditionProcessorSetup declared processor condition 0 = .accepted p ↔
      ConditionProcessor.parseOperation declared condition 0 processor = .accepted p := by
  cases condition with
  | nil => exact iff_of_false nofun nofun
  | cons first rest => rfl

theorem parseClause_settles (otherwise : Str) (clause : List Str) :
    (parseClause declared processor otherwise clause).Settles := by
  cases clause with
  | nil => trivial
  | cons keyword condition =>
    simp only [parseClause]
    split
    · exact (conditionProcessorSetup_settles condition).map some
    · trivial

theorem parseClause_eq_accepted_iff {otherwise : Str} {clause : List Str}
    {p : Option ConditionProcessor} :
    parseClause declared processor otherwise clause = .accepted p ↔
      Clause declared processor clause p := by
  constructor
  · intro h
    cases clause with
    | nil =>
      obtain rfl := Parse.accepted.inj h
      exact .unconditional
    | cons keyword condition =>
      simp only [parseClause] at h
      split at h
      · next hkeyword =>
        obtain ⟨q, hq, rfl⟩ := Parse.map_eq_accepted.mp h
        rw [hkeyword]
        exact .conditional (conditionProcessorSetup_eq_accepted_iff.mp hq)
      · cases h
  · rintro (_ | h)
    · rfl
    · simp only [parseClause, if_true, conditionProcessorSetup_eq_accepted_iff.mpr h,
        Parse.map_accepted]

/-- Parsing a condition after `if`, as the operations do it. -/
theorem parseClause_cons_bind {α : Type} (declared : Str → Bool) (processor : Processor)
    (f : Option ConditionProcessor → α) (otherwise : Str) {tokens : List Str} {start : Nat}
    (hstart : start ≤ tokens.length) (keyword : Str) :
    (if keyword = ifKeyword then do
        let p ← conditionProcessorSetup declared processor tokens start
        Parse.accepted (f (some p))
      else Parse.rejected (.invalidArgument otherwise)) =
      parseClause declared processor otherwise (keyword :: tokens.drop start) >>=
        fun p => Parse.accepted (f p) := by
  simp only [parseClause]
  split
  · rw [conditionProcessorSetup_drop hstart]
    cases conditionProcessorSetup declared processor (tokens.drop start) 0 <;> rfl
  · rfl

/-- A clause that is accepted stays so if more variables are declared. -/
theorem Clause.mono {declared' : Str → Bool} {clause : List Str} {p : Option ConditionProcessor}
    (h : Clause declared processor clause p)
    (hmono : ∀ name, declared name = true → declared' name = true) :
    Clause declared' processor clause p := by
  cases h with
  | unconditional => exact .unconditional
  | conditional hp =>
    have hwf := (ConditionProcessor.parseOperation_eq_accepted_iff.mp hp).2.1
    exact .conditional (ConditionProcessor.parseOperation_of_declared hp
      fun d hd => hmono d.1 (hwf.declared d hd))

end Clause

/-! ## A key and a value -/

/-- Parse a key, a value and what may follow them. -/
def parseKeyValue {α : Type} (E : Envoy M I) (declared : Str → Bool) (processor : Processor)
    (tooFew otherwise : Str)
    (make : DynamicFunctionProcessor → DynamicFunctionProcessor → Option ConditionProcessor → α) :
    List Str → Parse Status α
  | key :: value :: clause => do
    let keyProcessor ← DynamicFunctionProcessor.parseOperation E processor key
    let valueProcessor ← DynamicFunctionProcessor.parseOperation E processor value
    let conditionProcessor ← parseClause declared processor otherwise clause
    return make keyProcessor valueProcessor conditionProcessor
  | _ => .rejected (.invalidArgument tooFew)

section KeyValue

variable {α : Type} {E : Envoy M I} {declared : Str → Bool} {processor : Processor}
  {tooFew otherwise : Str}
  {make : DynamicFunctionProcessor → DynamicFunctionProcessor → Option ConditionProcessor → α}

/-- Every line is accepted or rejected. -/
theorem parseKeyValue_settles (rest : List Str) :
    (parseKeyValue E declared processor tooFew otherwise make rest).Settles := by
  match rest with
  | key :: value :: clause =>
    refine (DynamicFunctionProcessor.parseOperation_settles E processor key).bind fun _ _ => ?_
    refine (DynamicFunctionProcessor.parseOperation_settles E processor value).bind fun _ _ => ?_
    exact (parseClause_settles _ _).bind fun _ _ => Parse.settles_accepted _
  | [] => trivial
  | [_] => trivial

/-- The accepted lines have a key, a value and what may follow them. -/
theorem parseKeyValue_eq_accepted_iff {rest : List Str} {p : α} :
    parseKeyValue E declared processor tooFew otherwise make rest = .accepted p ↔
      ∃ key value clause keyProcessor valueProcessor conditionProcessor,
        rest = key :: value :: clause ∧
        DynamicFunctionProcessor.parseOperation E processor key = .accepted keyProcessor ∧
        DynamicFunctionProcessor.parseOperation E processor value = .accepted valueProcessor ∧
        Clause declared processor clause conditionProcessor ∧
        make keyProcessor valueProcessor conditionProcessor = p := by
  constructor
  · intro h
    match rest with
    | key :: value :: clause =>
      obtain ⟨keyProcessor, hkey, h⟩ := Parse.bind_eq_accepted.mp h
      obtain ⟨valueProcessor, hvalue, h⟩ := Parse.bind_eq_accepted.mp h
      obtain ⟨condition, hclause, h⟩ := Parse.bind_eq_accepted.mp h
      exact ⟨key, value, clause, _, _, _, rfl, hkey, hvalue,
        parseClause_eq_accepted_iff.mp hclause, Parse.accepted.inj h⟩
    | [] => cases h
    | [_] => cases h
  · rintro ⟨_, _, _, _, _, _, rfl, hkey, hvalue, hclause, rfl⟩
    simp only [parseKeyValue, hkey, hvalue, parseClause_eq_accepted_iff.mpr hclause,
      Parse.bind_accepted, Parse.pure_eq]

/-- Parsing a value and what may follow it, as the operations with a key do it. -/
theorem parseValue_bind (E : Envoy M I) (declared : Str → Bool) (processor : Processor)
    (otherwise : Str) (make : DynamicFunctionProcessor → Option ConditionProcessor → α)
    (side name key value : Str) (clause : List Str) {tokens : List Str}
    (htokens : tokens = side :: name :: key :: value :: clause) :
    (do
      if (← offset tokens 2 1) = tokens.length then
        Parse.threw unexpectedEnd
      let valueProcessor ← DynamicFunctionProcessor.parseOperation E processor
        (← deref tokens (← offset tokens 2 1))
      if (← offset tokens 2 2) ≠ tokens.length then
        if (← deref tokens (← offset tokens 2 2)) = ifKeyword then
          let conditionProcessor ← conditionProcessorSetup declared processor tokens
            (← offset tokens 2 3)
          return make valueProcessor (some conditionProcessor)
        else
          Parse.rejected (.invalidArgument otherwise)
      else
        return make valueProcessor none) = (do
      let valueProcessor ← DynamicFunctionProcessor.parseOperation E processor value
      let conditionProcessor ← parseClause declared processor otherwise clause
      return make valueProcessor conditionProcessor) := by
  subst htokens
  cases clause with
  | nil =>
    simp only [List.length_cons, List.length_nil, Nat.reduceAdd, Nat.reduceEqDiff, Nat.reduceLeDiff,
      Nat.le_refl, ne_eq, ite_not, if_false, if_true, offset, deref_cons_succ, deref_cons_zero,
      Parse.liftM_returned, Parse.bind_accepted, Parse.pure_eq, parseClause]
  | cons keyword condition =>
    have hstart : 5 ≤ (side :: name :: key :: value :: keyword :: condition).length := by simp
    simp only [List.length_cons, Nat.reduceEqDiff, Nat.reduceLeDiff, if_false, if_true, offset,
      deref_cons_succ, deref_cons_zero, Parse.liftM_returned, Parse.bind_accepted, Parse.pure_eq]
    refine bind_congr (m := Parse Status) fun valueProcessor => ?_
    exact parseClause_cons_bind declared processor (make valueProcessor) otherwise hstart keyword

/-- A line of `set-header` has a key and a value. -/
theorem SetHeaderProcessor.parseOperation_eq (side name : Str) (rest : List Str) :
    parseOperation E declared processor (side :: name :: rest) 2 =
      parseKeyValue E declared processor "not enough arguments for set-header"
        "third argument to set-header must be a condition" (SetHeaderProcessor.mk processor)
        rest := by
  match rest with
  | key :: value :: clause =>
    have hkey := DynamicFunctionProcessor.parseOperation_settles E processor key
    have hlength : ¬ (side :: name :: key :: value :: clause).length < 4 := by simp
    have hend : ¬ 2 = (side :: name :: key :: value :: clause).length := by simp
    have hvalue := fun headerKey => parseValue_bind E declared processor
      "third argument to set-header must be a condition" (SetHeaderProcessor.mk processor headerKey)
      side name key value clause rfl
    simp only [parseOperation, setHeaderMinNumArguments, hlength, hend, if_false, deref_cons_succ,
      deref_cons_zero, Parse.liftM_returned, Parse.bind_accepted, hkey.catchAs]
    refine bind_congr (m := Parse Status) fun headerKey => ?_
    refine (congrArg (Parse.catchAs _) (hvalue headerKey)).trans (Parse.Settles.catchAs ?_ _)
    refine (DynamicFunctionProcessor.parseOperation_settles E processor value).bind fun _ _ => ?_
    exact (parseClause_settles _ _).bind fun _ _ => Parse.settles_accepted _
  | [] => rfl
  | [_] => rfl

/-- A line of `set-metadata` has a key and a value. Both are read in one `try` block. -/
theorem SetDynamicMetadataProcessor.parseOperation_eq (side name : Str) (rest : List Str) :
    parseOperation E declared processor (side :: name :: rest) 2 =
      parseKeyValue E declared processor "not enough arguments for set-metadata"
        "third argument to set-metadata must be a condition"
        (SetDynamicMetadataProcessor.mk processor) rest := by
  match rest with
  | key :: value :: clause =>
    have hlength : ¬ (side :: name :: key :: value :: clause).length < 4 := by simp
    have hend : ¬ 2 = (side :: name :: key :: value :: clause).length := by simp
    have hvalue := fun metadataKey => parseValue_bind E declared processor
      "third argument to set-metadata must be a condition"
      (SetDynamicMetadataProcessor.mk processor metadataKey) side name key value clause rfl
    simp only [parseOperation, setDynMetadataMinNumArguments, hlength, hend, if_false,
      deref_cons_succ, deref_cons_zero, Parse.liftM_returned, Parse.bind_accepted]
    refine (congrArg (Parse.catchAs _) (bind_congr (m := Parse Status) hvalue)).trans ?_
    exact Parse.Settles.catchAs (parseKeyValue_settles (key :: value :: clause)) _
  | [] => rfl
  | [_] => rfl

end KeyValue

/-! ## `set-path` -/

namespace SetPathProcessor

variable {E : Envoy M I} {declared : Str → Bool} {processor : Processor}

/-- A line with a path is parsed operand by operand. -/
theorem parseOperation_eq (side name path : Str) (clause : List Str) :
    parseOperation E declared processor (side :: name :: path :: clause) 2 = (do
      let requestPath ← DynamicFunctionProcessor.parseOperation E processor path
      let conditionProcessor ← parseClause declared processor
        "second argument to set-path must be a condition" clause
      return ⟨processor, requestPath, conditionProcessor⟩) := by
  have hpath := DynamicFunctionProcessor.parseOperation_settles E processor path
  cases clause with
  | nil =>
    simp only [parseOperation, setPathMinNumArguments, List.length_cons, List.length_nil,
      Nat.reduceAdd, Nat.reduceEqDiff, Nat.lt_irrefl, gt_iff_lt, if_false,
      deref_cons_succ, deref_cons_zero, Parse.liftM_returned, Parse.bind_accepted, Parse.pure_eq,
      parseClause]
    exact Parse.Settles.catchAs (hpath.bind fun _ _ => Parse.settles_accepted _) _
  | cons keyword condition =>
    have hlength : ¬ condition.length + 1 + 1 + 1 + 1 < 3 := by omega
    have hlength' : 3 < condition.length + 1 + 1 + 1 + 1 := by omega
    have hstart : 4 ≤ (side :: name :: path :: keyword :: condition).length := by simp
    simp only [parseOperation, setPathMinNumArguments, List.length_cons,
      hlength, hlength', Nat.reduceAdd, Nat.reduceEqDiff, Nat.reduceLeDiff, ne_eq, ite_not,
      if_false, if_true, offset, deref_cons_succ, deref_cons_zero, Parse.liftM_returned,
      Parse.bind_accepted, Parse.bind_rejected, Parse.pure_eq]
    have hclause := fun requestPath => parseClause_cons_bind declared processor
      (SetPathProcessor.mk processor requestPath)
      "second argument to set-path must be a condition" hstart keyword
    simp only [hclause]
    refine Parse.Settles.catchAs (hpath.bind fun _ _ => ?_) _
    exact (parseClause_settles _ _).bind fun _ _ => Parse.settles_accepted _

/-- Every line with two tokens or more is accepted or rejected. -/
theorem parseOperation_settles (side name : Str) (rest : List Str) :
    (parseOperation E declared processor (side :: name :: rest) 2).Settles := by
  match rest with
  | path :: clause =>
    rw [parseOperation_eq]
    refine (DynamicFunctionProcessor.parseOperation_settles E processor path).bind fun _ _ => ?_
    exact (parseClause_settles _ _).bind fun _ _ => Parse.settles_accepted _
  | [] => trivial

/-- The accepted lines have a path and what may follow it. -/
theorem parseOperation_eq_accepted_iff {side name : Str} {rest : List Str} {p : SetPathProcessor} :
    parseOperation E declared processor (side :: name :: rest) 2 = .accepted p ↔
      ∃ path clause, rest = path :: clause ∧
        DynamicFunctionProcessor.parseOperation E processor path = .accepted p.requestPath ∧
        Clause declared processor clause p.conditionProcessor ∧ p.toProcessor = processor := by
  match rest with
  | path :: clause =>
    rw [parseOperation_eq]
    constructor
    · intro h
      obtain ⟨requestPath, hpath, h⟩ := Parse.bind_eq_accepted.mp h
      obtain ⟨condition, hclause, h⟩ := Parse.bind_eq_accepted.mp h
      obtain rfl := Parse.accepted.inj h
      exact ⟨path, clause, rfl, hpath, parseClause_eq_accepted_iff.mp hclause, rfl⟩
    · rintro ⟨_, _, hrest, hpath, hclause, rfl⟩
      obtain ⟨rfl, rfl⟩ := List.cons.inj hrest
      simp only [hpath, parseClause_eq_accepted_iff.mpr hclause, Parse.bind_accepted,
        Parse.pure_eq]
  | [] => exact iff_of_false nofun (by simp)

end SetPathProcessor

/-! ## `append-header` -/

namespace AppendHeaderProcessor

variable {E : Envoy M I} {declared : Str → Bool} {processor : Processor}

/-- The loop over the values as a recursion over the tokens that are left. -/
def parseRemaining (E : Envoy M I) (declared : Str → Bool) (processor : Processor) :
    List Str → List DynamicFunctionProcessor →
      Parse Status (List DynamicFunctionProcessor × Option ConditionProcessor)
  | [], headerVals => .accepted (headerVals, none)
  | token :: rest, headerVals =>
    if token = ifKeyword then
      if headerVals = [] then
        .rejected (.invalidArgument "missing header value argument(s) for append-header")
      else do
        let conditionProcessor ← conditionProcessorSetup declared processor rest 0
        return (headerVals, some conditionProcessor)
    else do
      let headerVal ← DynamicFunctionProcessor.parseOperation E processor token
      parseRemaining E declared processor rest (headerVals ++ [headerVal])

/-- The loop, with enough fuel, is the recursion over the tokens that are left. -/
theorem parseValues_eq {tokens : List Str} {fuel it : Nat}
    (headerVals : List DynamicFunctionProcessor) (hit : it ≤ tokens.length)
    (hfuel : tokens.length - it < fuel) :
    parseValues E declared processor tokens fuel it headerVals =
      parseRemaining E declared processor (tokens.drop it) headerVals := by
  induction fuel generalizing it headerVals with
  | zero => omega
  | succ fuel ih =>
    by_cases hend : it = tokens.length
    · simp [parseValues, parseRemaining, hend]
    obtain ⟨token, htoken, hdrop⟩ :=
      ConditionProcessor.exists_drop_eq_cons (show it < tokens.length by omega)
    have hoffset : offset tokens it 1 = .returned (it + 1) := offset_of_le (by omega)
    have hnext := fun headerVals => @ih (it + 1) headerVals (by omega) (by omega)
    rw [hdrop]
    simp only [parseValues, parseRemaining, if_neg hend, deref_of_getElem? htoken, hoffset, hnext,
      conditionProcessorSetup_drop (show it + 1 ≤ tokens.length by omega),
      Parse.liftM_returned, Parse.bind_accepted, List.length_eq_zero_iff]
    split
    · split <;> rfl
    · rfl

theorem parseRemaining_settles (tokens : List Str) (headerVals : List DynamicFunctionProcessor) :
    (parseRemaining E declared processor tokens headerVals).Settles := by
  induction tokens generalizing headerVals with
  | nil => trivial
  | cons token rest ih =>
    simp only [parseRemaining]
    split
    · split
      · trivial
      · exact (conditionProcessorSetup_settles rest).bind fun _ _ => Parse.settles_accepted _
    · exact (DynamicFunctionProcessor.parseOperation_settles E processor token).bind
        fun _ _ => ih _

/-- A line with a key and at least one more token is parsed operand by operand. -/
theorem parseOperation_eq (side name key token : Str) (rest : List Str) :
    parseOperation E declared processor (side :: name :: key :: token :: rest) 2 = (do
      let headerKey ← DynamicFunctionProcessor.parseOperation E processor key
      let (headerVals, conditionProcessor) ←
        parseRemaining E declared processor (token :: rest) []
      return ⟨processor, headerKey, headerVals, conditionProcessor⟩) := by
  have hkey := DynamicFunctionProcessor.parseOperation_settles E processor key
  have hlength : ¬ rest.length + 1 + 1 + 1 + 1 < 4 := by omega
  have hit : 2 + 1 ≤ (side :: name :: key :: token :: rest).length := by simp
  simp only [parseOperation, appendHeaderMinNumArguments, List.length_cons, hlength, if_false,
    Nat.reduceEqDiff, offset, Nat.reduceLeDiff, if_true,
    deref_cons_succ, deref_cons_zero, Parse.liftM_returned, Parse.bind_accepted, Parse.pure_eq,
    hkey.catchAs]
  refine bind_congr (m := Parse Status) fun headerKey => ?_
  rw [parseValues_eq [] hit (by simp only [List.length_cons]; omega)]
  exact Parse.Settles.catchAs
    ((parseRemaining_settles _ _).bind fun _ _ => Parse.settles_accepted _) _

/-- Every line with two tokens or more is accepted or rejected. -/
theorem parseOperation_settles (side name : Str) (rest : List Str) :
    (parseOperation E declared processor (side :: name :: rest) 2).Settles := by
  match rest with
  | key :: token :: rest =>
    rw [parseOperation_eq]
    refine (DynamicFunctionProcessor.parseOperation_settles E processor key).bind fun _ _ => ?_
    exact (parseRemaining_settles _ _).bind fun _ _ => Parse.settles_accepted _
  | [] => trivial
  | [_] => trivial

/-- The loop reads values up to an `if` or the end, and there is a value before an `if`. -/
theorem parseRemaining_eq_accepted_iff {tokens : List Str}
    {headerVals headerVals' : List DynamicFunctionProcessor}
    {condition : Option ConditionProcessor} :
    parseRemaining E declared processor tokens headerVals = .accepted (headerVals', condition) ↔
      ∃ values clause parsed, tokens = values ++ clause ∧ (∀ v ∈ values, v ≠ ifKeyword) ∧
        List.Forall₂
          (fun v f => DynamicFunctionProcessor.parseOperation E processor v = .accepted f)
          values parsed ∧
        headerVals' = headerVals ++ parsed ∧ Clause declared processor clause condition ∧
        (clause ≠ [] → headerVals' ≠ []) := by
  constructor
  · intro h
    induction tokens generalizing headerVals with
    | nil =>
      obtain ⟨rfl, rfl⟩ := Prod.mk.inj (Parse.accepted.inj h)
      exact ⟨[], [], [], rfl, by simp, .nil, by simp, .unconditional, fun hne => (hne rfl).elim⟩
    | cons token rest ih =>
      simp only [parseRemaining] at h
      split at h
      · next hkeyword =>
        split at h
        · cases h
        · next hne =>
          obtain ⟨p, hp, h⟩ := Parse.bind_eq_accepted.mp h
          obtain ⟨rfl, rfl⟩ := Prod.mk.inj (Parse.accepted.inj h)
          rw [conditionProcessorSetup_eq_accepted_iff] at hp
          exact ⟨[], token :: rest, [], rfl, by simp, .nil, by simp,
            hkeyword ▸ .conditional hp, fun _ => hne⟩
      · next hkeyword =>
        obtain ⟨headerVal, hval, h⟩ := Parse.bind_eq_accepted.mp h
        obtain ⟨values, clause, parsed, rfl, hvalues, hparsed, rfl, hclause, -⟩ := ih h
        refine ⟨token :: values, clause, headerVal :: parsed, rfl, ?_, .cons hval hparsed, by simp,
          hclause, by simp⟩
        rintro v (_ | ⟨_, hv⟩)
        · exact hkeyword
        · exact hvalues v hv
  · rintro ⟨values, clause, parsed, rfl, hvalues, hparsed, rfl, hclause, hne⟩
    induction hparsed generalizing headerVals with
    | nil =>
      cases hclause with
      | unconditional => simp [parseRemaining]
      | conditional hp =>
        have hne' : headerVals ≠ [] := by simpa using hne
        simp only [List.nil_append, List.append_nil, parseRemaining, if_true, if_neg hne',
          conditionProcessorSetup_eq_accepted_iff.mpr hp, Parse.bind_accepted, Parse.pure_eq]
    | @cons v f values parsed hval hparsed ih =>
      have hkeyword := hvalues v List.mem_cons_self
      simp only [List.cons_append, parseRemaining, if_neg hkeyword, hval, Parse.bind_accepted]
      rw [ih (fun v' hv' => hvalues v' (List.mem_cons_of_mem _ hv')) (by simp)]
      simp

/-- The accepted lines have a key, at least one value, none of which is `if`, and what may follow
them. -/
theorem parseOperation_eq_accepted_iff {side name : Str} {rest : List Str}
    {p : AppendHeaderProcessor} :
    parseOperation E declared processor (side :: name :: rest) 2 = .accepted p ↔
      ∃ key values clause, rest = key :: values ++ clause ∧ values ≠ [] ∧
        (∀ v ∈ values, v ≠ ifKeyword) ∧
        DynamicFunctionProcessor.parseOperation E processor key = .accepted p.headerKey ∧
        List.Forall₂
          (fun v f => DynamicFunctionProcessor.parseOperation E processor v = .accepted f)
          values p.headerVals ∧
        Clause declared processor clause p.conditionProcessor ∧ p.toProcessor = processor := by
  match rest with
  | key :: token :: rest =>
    rw [parseOperation_eq]
    constructor
    · intro h
      obtain ⟨headerKey, hkey, h⟩ := Parse.bind_eq_accepted.mp h
      obtain ⟨⟨headerVals, condition⟩, hvals, h⟩ := Parse.bind_eq_accepted.mp h
      obtain rfl := Parse.accepted.inj h
      obtain ⟨values, clause, parsed, htokens, hvalues, hparsed, rfl, hclause, hne⟩ :=
        parseRemaining_eq_accepted_iff.mp hvals
      refine ⟨key, values, clause, by rw [htokens]; rfl, ?_, hvalues, hkey, hparsed, hclause, rfl⟩
      rintro rfl
      obtain rfl := List.forall₂_nil_left_iff.mp hparsed
      exact hne (by rw [← List.nil_append clause, ← htokens]; simp) rfl
    · rintro ⟨_, values, clause, hrest, hne, hvalues, hkey, hparsed, hclause, rfl⟩
      obtain ⟨rfl, htokens⟩ := List.cons.inj hrest
      have hvals : parseRemaining E declared p.toProcessor (token :: rest) [] =
          .accepted (p.headerVals, p.conditionProcessor) := by
        rw [parseRemaining_eq_accepted_iff]
        refine ⟨values, clause, p.headerVals, htokens, hvalues, hparsed, rfl, hclause, ?_⟩
        rintro - hnil
        rw [hnil] at hparsed
        exact hne (List.forall₂_nil_right_iff.mp hparsed)
      simp only [hkey, hvals, Parse.bind_accepted, Parse.pure_eq]
  | [] => exact iff_of_false nofun (by simp)
  | [_] =>
    refine iff_of_false nofun ?_
    rintro ⟨_, values, clause, hrest, hne, -⟩
    obtain ⟨-, hnil⟩ := List.cons.inj hrest
    exact hne (List.append_eq_nil_iff.mp hnil.symm).1

end AppendHeaderProcessor

/-! ## `set-bool` -/

namespace SetBoolProcessor

variable {E : Envoy M I} {processor : Processor}

/-- Parse what follows `-m type`, if it is what the match type takes, after the source. -/
def parseComparison (E : Envoy M I) (processor : Processor) (source : Str) (matchType : MatchType) :
    List Str → Parse Status SetBoolProcessor
  | [] => do
    if requiresArgument matchType then
      Parse.rejected (.invalidArgument "missing argument for match type")
    let sourceProcessor ← DynamicFunctionProcessor.parseOperation E processor source
    if matchType = .invalidMatchType then
      Parse.rejected (.invalidArgument "invalid match type")
    let comparison ← DynamicFunctionProcessor.parseOperation E processor ""
    return ⟨processor, matchType, sourceProcessor, comparison⟩
  | [stringToCompare] => do
    if ¬ requiresArgument matchType then
      Parse.rejected (.invalidArgument "too many arguments for set bool")
    let sourceProcessor ← DynamicFunctionProcessor.parseOperation E processor source
    let comparison ← DynamicFunctionProcessor.parseOperation E processor stringToCompare
    return ⟨processor, matchType, sourceProcessor, comparison⟩
  | _ => Parse.rejected (.invalidArgument "too many arguments for set bool")

theorem parseComparison_settles (source : Str) (matchType : MatchType) (comparison : List Str) :
    (parseComparison E processor source matchType comparison).Settles := by
  have hoperand := DynamicFunctionProcessor.parseOperation_settles E processor
  match comparison with
  | [] =>
    simp only [parseComparison]
    split
    · trivial
    · refine (hoperand source).bind fun _ _ => ?_
      split
      · trivial
      · exact (hoperand "").bind fun _ _ => Parse.settles_accepted _
  | [stringToCompare] =>
    simp only [parseComparison]
    split
    · trivial
    · refine (hoperand source).bind fun _ _ => ?_
      exact (hoperand stringToCompare).bind fun _ _ => Parse.settles_accepted _
  | _ :: _ :: _ => trivial

/-- A line with a name, a source, and a match type is parsed by what follows these. -/
theorem parseOperation_eq (side op name source flag matchType : Str) (comparison : List Str) :
    parseOperation E processor
        (side :: op :: name :: source :: flag :: matchType :: comparison) 2 =
      if flag ≠ "-m" then .rejected (.invalidArgument "invalid match syntax")
      else parseComparison E processor source (stringToMatchType matchType) comparison := by
  have hlength : ¬ comparison.length + 1 + 1 + 1 + 1 + 1 + 1 < 6 := by omega
  simp only [parseOperation, setBoolMinNumArguments, List.length_cons, hlength, if_false,
    Nat.reduceEqDiff, Nat.reduceAdd, offset, Nat.reduceLeDiff, if_true,
    deref_cons_succ, deref_cons_zero, Parse.liftM_returned, Parse.bind_accepted, Parse.pure_eq]
  refine (congrArg (Parse.catchAs _) ?_).trans (Parse.Settles.catchAs ?_ _)
  · split
    · rfl
    · generalize stringToMatchType matchType = type
      cases comparison with
      | nil =>
        cases type <;>
          simp only [parseComparison, requiresArgument, stringToCompareSetup, List.length_nil,
            Nat.reduceAdd, Nat.lt_irrefl, gt_iff_lt, reduceCtorEq, decide_true, decide_false,
            Bool.or_true, Bool.or_false, Bool.false_eq_true, if_true, if_false,
            Parse.bind_rejected, Parse.pure_eq]
      | cons stringToCompare tooMany =>
        cases tooMany with
        | nil =>
          cases type <;>
            simp only [parseComparison, requiresArgument, stringToCompareSetup, List.length_cons,
              List.length_nil, Nat.reduceAdd, Nat.reduceLT, Nat.lt_irrefl, gt_iff_lt, reduceCtorEq,
              decide_true, decide_false, Bool.or_true, Bool.or_false, Bool.false_eq_true,
              not_true_eq_false, not_false_eq_true, if_true, if_false, deref_cons_zero,
              Parse.liftM_returned, Parse.bind_accepted, Parse.bind_rejected, Parse.pure_eq]
        | cons second rest =>
          have htoo : 7 < rest.length + 1 + 1 + 1 + 1 + 1 + 1 + 1 + 1 := by omega
          have htoo' : 6 < rest.length + 1 + 1 + 1 + 1 + 1 + 1 + 1 + 1 := by omega
          cases type <;>
            simp only [parseComparison, requiresArgument, List.length_cons, htoo, htoo',
              Nat.add_eq_zero_iff, Nat.succ_ne_self, reduceCtorEq, decide_true, decide_false,
              Bool.or_true, Bool.or_false, Bool.false_eq_true, and_false, if_true, if_false,
              Parse.bind_rejected]
  · split
    · trivial
    · exact parseComparison_settles _ _ _

/-- Every line with two tokens or more is accepted or rejected. -/
theorem parseOperation_settles (side op : Str) (rest : List Str) :
    (parseOperation E processor (side :: op :: rest) 2).Settles := by
  match rest with
  | name :: source :: flag :: matchType :: comparison =>
    rw [parseOperation_eq]
    split
    · trivial
    · exact parseComparison_settles _ _ _
  | [] => trivial
  | [_] => trivial
  | [_, _] => trivial
  | [_, _, _] => trivial

/-- What may follow the match type, and the operand it is compared with: `found` takes nothing and
the other match types take an operand. -/
inductive Comparison (E : Envoy M I) (processor : Processor) :
    MatchType → List Str → DynamicFunctionProcessor → Prop
  | found :
      Comparison E processor .found []
        { processor with functionType := .static, functionArgument := "" }
  | operand {matchType : MatchType} {stringToCompare : Str} {f : DynamicFunctionProcessor} :
      requiresArgument matchType = true →
      DynamicFunctionProcessor.parseOperation E processor stringToCompare = .accepted f →
      Comparison E processor matchType [stringToCompare] f

theorem parseComparison_eq_accepted_iff {source : Str} {matchType : MatchType}
    {comparison : List Str} {p : SetBoolProcessor} :
    parseComparison E processor source matchType comparison = .accepted p ↔
      DynamicFunctionProcessor.parseOperation E processor source = .accepted p.sourceProcessor ∧
        Comparison E processor matchType comparison p.stringToCompareFunctionProcessor ∧
        p.matchType = matchType ∧ p.toProcessor = processor := by
  have hempty : DynamicFunctionProcessor.parseOperation E processor "" =
      .accepted { processor with functionType := .static, functionArgument := "" } := rfl
  constructor
  · intro h
    match comparison with
    | [] =>
      simp only [parseComparison] at h
      split at h
      · cases h
      · next hargument =>
        obtain ⟨sourceProcessor, hsource, h⟩ := Parse.bind_eq_accepted.mp h
        split at h
        · cases h
        · next hvalid =>
          rw [hempty] at h
          obtain rfl := Parse.accepted.inj h
          obtain rfl : matchType = .found := by
            cases matchType <;> simp_all [requiresArgument]
          exact ⟨hsource, .found, rfl, rfl⟩
    | [stringToCompare] =>
      simp only [parseComparison] at h
      split at h
      · cases h
      · next hargument =>
        obtain ⟨sourceProcessor, hsource, h⟩ := Parse.bind_eq_accepted.mp h
        obtain ⟨comparison, hcomparison, h⟩ := Parse.bind_eq_accepted.mp h
        obtain rfl := Parse.accepted.inj h
        exact ⟨hsource, .operand (by simpa using hargument) hcomparison, rfl, rfl⟩
    | _ :: _ :: _ => cases h
  · obtain ⟨processor', matchType', sourceProcessor, stringToCompareProcessor⟩ := p
    rintro ⟨hsource, hcomparison, hmatch, hprocessor⟩
    dsimp only at *
    subst hmatch hprocessor
    cases hcomparison with
    | found =>
      simp only [parseComparison, requiresArgument, hsource, hempty, reduceCtorEq, decide_false,
        Bool.or_false, Bool.false_eq_true, if_false, Parse.bind_accepted, Parse.pure_eq]
    | operand hargument hcomparison =>
      simp only [parseComparison, hargument, hsource, hcomparison, not_true_eq_false, if_false,
        Parse.bind_accepted, Parse.pure_eq]

/-- The accepted lines have a name, a source, `-m` and a match type with what it takes. -/
theorem parseOperation_eq_accepted_iff {side op : Str} {rest : List Str} {p : SetBoolProcessor} :
    parseOperation E processor (side :: op :: rest) 2 = .accepted p ↔
      ∃ name source matchType comparison,
        rest = name :: source :: "-m".toList :: matchType :: comparison ∧
        DynamicFunctionProcessor.parseOperation E processor source = .accepted p.sourceProcessor ∧
        Comparison E processor (stringToMatchType matchType) comparison
          p.stringToCompareFunctionProcessor ∧
        p.matchType = stringToMatchType matchType ∧ p.toProcessor = processor := by
  match rest with
  | name :: source :: flag :: matchType :: comparison =>
    rw [parseOperation_eq]
    constructor
    · intro h
      split at h
      · cases h
      · next hflag =>
        obtain rfl := Decidable.not_not.mp hflag
        exact ⟨name, source, matchType, comparison, rfl, parseComparison_eq_accepted_iff.mp h⟩
    · rintro ⟨_, _, _, _, hrest, h⟩
      obtain ⟨rfl, rfl, rfl, rfl, rfl⟩ : _ ∧ _ ∧ _ ∧ _ ∧ _ := by
        simpa [-String.reduceToList] using hrest
      rw [if_neg (by simp)]
      exact parseComparison_eq_accepted_iff.mpr h
  | [] => exact iff_of_false nofun (by simp)
  | [_] => exact iff_of_false nofun (by simp)
  | [_, _] => exact iff_of_false nofun (by simp)
  | [_, _, _] => exact iff_of_false nofun (by simp)

end SetBoolProcessor

end HeaderRewrite
