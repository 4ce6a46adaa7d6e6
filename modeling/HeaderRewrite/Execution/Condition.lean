import Mathlib.Logic.Relation
import HeaderRewrite.Construction.Invariant
import HeaderRewrite.Cxx.Disjunction
import HeaderRewrite.Envoy.Reference
import HeaderRewrite.Execution.Operand

/-!
# Evaluating a condition

The evaluation of a condition splits its two lists at the first `or`, and computes where to split
the operands from the position of the operator. With one more operand than operators both parts
are again of this kind, so the evaluation is that of the condition's clauses.

## Main definitions

* `ConditionProcessor.clauses`: the condition as a disjunction of conjunctions;
* `ConditionProcessor.RecursiveCall`: the recursive calls of the evaluation;
* `ConditionProcessor.FollowsReference`: the result is that of the disjunction of conjunctions;
* `ConditionProcessor.ReachesUndefined`: a literal that is evaluated is undefined.

## Main results

* `ConditionProcessor.executeOperation_eq`: the evaluation is that of the clauses;
* `ConditionProcessor.balanced_of_recursiveCalls`: every recursive call has one more operand than
  operators, from a part of the lists of the condition;
* `conditions_refine`: when a condition of a configuration follows the reference.
-/

namespace HeaderRewrite

open Cxx Utility HttpHeaderRewriteFilter

variable {M I : Type}

/-! ## A boolean variable -/

namespace SetBoolProcessor

/-- The prefix matcher reads beyond the end of the source: the string to compare is longer than the
source by more than one character. -/
def OverReads (eval : Evaluator M I) (p : SetBoolProcessor)
    (headers : RequestOrResponseHeaderMap M) (streamInfo : Option I) : Prop :=
  p.matchType = .prefixOf ∧ ∃ source stringToCompare,
    eval p.sourceProcessor headers streamInfo = .returned (.ok, source) ∧
    eval p.stringToCompareFunctionProcessor headers streamInfo = .returned (.ok, stringToCompare) ∧
    source ≠ [] ∧ source.length + 1 < stringToCompare.length

/-- An operand calls `urlp` on request headers without a `:path` entry. The string to compare is
evaluated if the source has a value. -/
def NullPath (E : Envoy M I) (p : SetBoolProcessor) (headers : RequestOrResponseHeaderMap M)
    (streamInfo : Option I) : Prop :=
  p.sourceProcessor.NullPath E headers ∨
    (∃ source, DynamicFunctionProcessor.executeOperation E p.sourceProcessor headers streamInfo =
      .returned (.ok, source)) ∧ p.stringToCompareFunctionProcessor.NullPath E headers

/-- A matcher returns, or is the prefix matcher and reads too far. -/
theorem matcher_cases (matchType : MatchType) (source stringToCompare : Str) :
    ((matcher matchType source stringToCompare).Returns ∧
        ¬ (matchType = .prefixOf ∧ source ≠ [] ∧ source.length + 1 < stringToCompare.length)) ∨
      matcher matchType source stringToCompare = .undefined .readPastEnd ∧
        matchType = .prefixOf ∧ source ≠ [] ∧ source.length + 1 < stringToCompare.length := by
  cases matchType with
  | prefixOf =>
    -- only the prefix matcher compares ranges, and only of a source that is not empty
    have hsource : source.length > 0 ↔ source ≠ [] := List.length_pos_iff
    simp only [matcher, hsource]
    split
    · next hne =>
      by_cases hlength : stringToCompare.length ≤ source.length + 1
      · left
        refine ⟨⟨_, by simp only [findChars, if_pos hlength]; rfl⟩, ?_⟩
        rintro ⟨-, -, h⟩
        omega
      · exact Or.inr ⟨by simp only [findChars, if_neg hlength]; rfl, trivial, hne, by omega⟩
    · next hnil => exact Or.inl ⟨⟨_, rfl⟩, fun h => hnil h.2.1⟩
  | exact => exact Or.inl ⟨⟨_, rfl⟩, nofun⟩
  | substr => exact Or.inl ⟨⟨_, rfl⟩, nofun⟩
  | found => exact Or.inl ⟨⟨_, rfl⟩, nofun⟩
  | invalidMatchType => exact Or.inl ⟨⟨_, rfl⟩, nofun⟩

section Evaluation

variable {E : Envoy M I} {p : SetBoolProcessor} {headers : RequestOrResponseHeaderMap M}
  {streamInfo : Option I} {negate : Bool}

/-- A variable is undefined only where an operand dereferences a null `Path()` or the prefix
matcher reads too far. -/
theorem executeOperation_undefined (hwf : ∀ d ∈ p.operands, d.WellFormed E)
    {u : UndefinedBehavior}
    (h : p.executeOperation (DynamicFunctionProcessor.executeOperation E) headers streamInfo
      negate = .undefined u) :
    (u = .nullDereference ∧ p.NullPath E headers streamInfo) ∨
      u = .readPastEnd ∧
        p.OverReads (DynamicFunctionProcessor.executeOperation E) headers streamInfo := by
  rw [executeOperation] at h
  rcases Outcome.bind_eq_undefined.mp h with hsource | ⟨⟨status, source⟩, hsource, h⟩
  · obtain ⟨hu, hnull⟩ :=
      DynamicFunctionProcessor.executeOperation_undefined (hwf _ (by simp [operands])) hsource
    exact Or.inl ⟨hu, Or.inl hnull⟩
  dsimp only at h
  split at h
  · cases h
  next hstatus =>
  -- the string to compare is evaluated only after a source without an error
  obtain rfl : status = .ok := by simpa using hstatus
  rcases Outcome.bind_eq_undefined.mp h with hstring | ⟨⟨status', stringToCompare⟩, hstring, h⟩
  · obtain ⟨hu, hnull⟩ :=
      DynamicFunctionProcessor.executeOperation_undefined (hwf _ (by simp [operands])) hstring
    exact Or.inl ⟨hu, Or.inr ⟨⟨source, hsource⟩, hnull⟩⟩
  dsimp only at h
  split at h
  · cases h
  next hstatus' =>
  obtain rfl : status' = .ok := by simpa using hstatus'
  rcases Outcome.bind_eq_undefined.mp h with hmatch | ⟨_, -, h⟩
  -- both operands have a value, and what is left is the matcher
  · rcases matcher_cases p.matchType source stringToCompare with
      ⟨⟨b, hb⟩, -⟩ | ⟨hundefined, htype, hne, hlength⟩
    · cases hmatch.symm.trans hb
    · cases hmatch.symm.trans hundefined
      exact Or.inr ⟨rfl, htype, source, stringToCompare, hsource, hstring, hne, hlength⟩
  · cases h

/-- Dereferencing a null `Path()` is undefined. -/
theorem NullPath.executeOperation_eq (hwf : ∀ d ∈ p.operands, d.WellFormed E)
    (h : p.NullPath E headers streamInfo) (negate : Bool) :
    p.executeOperation (DynamicFunctionProcessor.executeOperation E) headers streamInfo negate =
      .undefined .nullDereference := by
  rcases h with hnull | ⟨⟨source, hsource⟩, hnull⟩
  · simp [executeOperation, hnull.executeOperation_eq (hwf _ (by simp [operands]))]
  · simp [executeOperation, hsource, hnull.executeOperation_eq (hwf _ (by simp [operands]))]

/-- A variable and its negation have opposite values. -/
theorem executeOperation_of_ok {eval : Evaluator M I} {value : Bool}
    (h : p.executeOperation eval headers streamInfo negate = .returned (.ok, value))
    (negate' : Bool) :
    p.executeOperation eval headers streamInfo negate' =
      .returned (.ok, if negate' = negate then value else !value) := by
  -- the negation is read at the very end, so that both evaluations go the same way up to there
  rw [executeOperation] at h ⊢
  obtain ⟨⟨status, source⟩, hsource, h⟩ := Outcome.bind_eq_returned.mp h
  rw [hsource, Outcome.bind_returned]
  dsimp only at h ⊢
  split at h
  · next hstatus => exact (hstatus (by simpa using congrArg Prod.fst (Outcome.returned.inj h))).elim
  next hstatus =>
  rw [if_neg hstatus]
  obtain ⟨⟨status', stringToCompare⟩, hstring, h⟩ := Outcome.bind_eq_returned.mp h
  rw [hstring, Outcome.bind_returned]
  dsimp only at h ⊢
  split at h
  · next hstatus => exact (hstatus (by simpa using congrArg Prod.fst (Outcome.returned.inj h))).elim
  next hstatus' =>
  rw [if_neg hstatus']
  obtain ⟨matched, hmatch, h⟩ := Outcome.bind_eq_returned.mp h
  rw [hmatch, Outcome.bind_returned, Outcome.pure_eq, ← (Outcome.pair_inj h).2]
  cases negate <;> cases negate' <;> simp

/-- A negated variable has the opposite value. -/
theorem executeOperation_of_false {eval : Evaluator M I} {value : Bool}
    (h : p.executeOperation eval headers streamInfo false = .returned (.ok, value))
    (negate : Bool) :
    p.executeOperation eval headers streamInfo negate =
      .returned (.ok, if negate then !value else value) := by
  rw [executeOperation_of_ok h negate]
  cases negate <;> rfl

/-- Reading too far is undefined. -/
theorem OverReads.executeOperation_eq {eval : Evaluator M I}
    (h : p.OverReads eval headers streamInfo) (negate : Bool) :
    p.executeOperation eval headers streamInfo negate = .undefined .readPastEnd := by
  obtain ⟨htype, source, stringToCompare, hsource, hstring, hne, hlength⟩ := h
  have hmatch : matcher p.matchType source stringToCompare = .undefined .readPastEnd := by
    rcases matcher_cases p.matchType source stringToCompare with ⟨-, hgood⟩ | ⟨hundefined, -⟩
    · exact (hgood ⟨htype, hne, hlength⟩).elim
    · exact hundefined
  simp [executeOperation, hsource, hstring, hmatch]

end Evaluation

end SetBoolProcessor

/-! ## The evaluation by clauses -/

namespace ConditionProcessor

/-- The status of a condition in which an exception was thrown. -/
def conditionFailed (e : Exception) : Status :=
  .unknown ("failed to process condition -- ".toList ++ e.what)

/-- The condition as a disjunction of conjunctions: `and` binds tighter than `or`. -/
def clauses (p : ConditionProcessor) : List (List (Str × Bool)) :=
  Cxx.clauses isOR p.operators p.operands

section Evaluation

variable {eval : Evaluator M I} {map : SetBoolProcessorMap}
  {headers : RequestOrResponseHeaderMap M} {streamInfo : Option I}

/-- The loop evaluates a conjunction, on top of the value it starts with. -/
theorem executeRest_eq {operators : List BooleanOperatorType} {operands : List (Str × Bool)}
    (hlength : operands.length = operators.length) (hand : ∀ o ∈ operators, o = .and)
    (result : Bool) :
    executeRest eval map headers streamInfo result operators operands = (do
      let (status, value) ←
        evalClause .ok (executeOperand eval map headers streamInfo) operands
      if status ≠ .ok then
        return (status, false)
      return (.ok, result && value)) := by
  induction operators generalizing operands result with
  | nil =>
    obtain rfl := List.eq_nil_of_length_eq_zero hlength
    simp [executeRest, evalClause]
  | cons o operators ih =>
    obtain ⟨d, operands, rfl⟩ := List.exists_cons_of_length_eq_add_one hlength
    obtain rfl := hand o List.mem_cons_self
    have hrest := @ih operands (by simpa using hlength)
      (fun o' ho' => hand o' (List.mem_cons_of_mem _ ho'))
    simp only [executeRest, evalClause, hrest]
    -- the loop keeps the value so far, the clause that of the rest: `and` is associative
    cases executeOperand eval map headers streamInfo d with
    | returned first =>
      by_cases hfirst : first.1 = .ok
      · cases evalClause .ok (executeOperand eval map headers streamInfo) operands with
        | returned rest =>
          by_cases hrest : rest.1 = .ok <;>
            simp [hfirst, hrest, evaluateExpression, Bool.and_assoc]
        | threw e => simp [hfirst]
        | undefined u => simp [hfirst]
      · simp [hfirst]
    | threw e => rfl
    | undefined u => rfl

/-- Without an `or` the evaluation is that of a conjunction. -/
theorem executeOperationLinearly_eq {operators : List BooleanOperatorType}
    {operands : List (Str × Bool)} (hlength : operands.length = operators.length + 1)
    (hand : ∀ o ∈ operators, o = .and) :
    executeOperationLinearly eval map headers streamInfo operators operands =
      Outcome.catchAs (fun e => (conditionFailed e, false))
        (evalClause .ok (executeOperand eval map headers streamInfo) operands) := by
  obtain ⟨d, operands, rfl⟩ := List.exists_cons_of_length_eq_add_one hlength
  have hrest := fun result => @executeRest_eq _ _ eval map headers streamInfo operators operands
    (by simpa using hlength) hand result
  unfold executeOperationLinearly
  -- both are in the same `try` block
  refine congrArg (Outcome.catchAs _) ?_
  simp only [evalClause, deref_cons_zero, Outcome.bind_returned, List.drop_one, List.tail_cons,
    hrest]
  cases executeOperand eval map headers streamInfo d with
  | returned first =>
    by_cases hfirst : first.1 = .ok
    · cases operands with
      | nil => simp [hfirst, evalClause]
      | cons d' operands => simp [hfirst]
    · simp [hfirst]
  | threw e => rfl
  | undefined u => rfl

/-- The operators before the first `or` are all `and`. -/
theorem eq_and_of_findIdx? {operators : List BooleanOperatorType}
    (hbinary : ∀ o ∈ operators, isBinaryOperator o) (h : operators.findIdx? isOR = none) :
    ∀ o ∈ operators, o = .and := by
  intro o ho
  have hor := List.findIdx?_eq_none_iff.mp h o ho
  have hbinary := hbinary o ho
  cases o <;> simp_all [Utility.isBinaryOperator, isOR]

/-- The evaluation, with enough fuel, is that of the clauses. -/
theorem executeOperationRecursively_eq {fuel : Nat} {operators : List BooleanOperatorType}
    {operands : List (Str × Bool)} (hlength : operands.length = operators.length + 1)
    (hbinary : ∀ o ∈ operators, isBinaryOperator o) (hfuel : operators.length < fuel) :
    executeOperationRecursively eval map headers streamInfo fuel operators operands =
      evalClauses .ok conditionFailed (executeOperand eval map headers streamInfo)
        (Cxx.clauses isOR operators operands) := by
  induction fuel generalizing operators operands with
  | zero => omega
  | succ fuel ih =>
    -- the first `or` is where the evaluation splits the operands, and where the first clause ends
    cases hor : operators.findIdx? isOR with
    | none =>
      rw [clauses_of_findIdx?_none hlength hor, evalClauses_singleton,
        ← executeOperationLinearly_eq hlength (eq_and_of_findIdx? hbinary hor)]
      simp only [executeOperationRecursively, hor]
    | some distance =>
      obtain ⟨hdistance, -, hbefore⟩ := List.findIdx?_eq_some_iff_getElem.mp hor
      have hsplit : offset operands 0 (distance + 1) = .returned (0 + (distance + 1)) :=
        offset_of_le (by omega)
      -- the part before the `or` has no `or`
      have hnone : (operators.take distance).findIdx? isOR = none := by
        rw [List.findIdx?_eq_none_iff]
        intro o ho
        obtain ⟨j, hj, rfl⟩ := List.mem_take_iff_getElem.mp ho
        simpa using hbefore j (by omega)
      have hleftLength : (operands.take (distance + 1)).length =
          (operators.take distance).length + 1 := by
        simp only [List.length_take]
        omega
      have hrightLength : (operands.drop (distance + 1)).length =
          (operators.drop (distance + 1)).length + 1 := by
        simp only [List.length_drop]
        omega
      have hleft := @ih (operators.take distance) (operands.take (distance + 1)) hleftLength
        (fun o ho => hbinary o (List.mem_of_mem_take ho))
        (by simp only [List.length_take]; omega)
      have hright := @ih (operators.drop (distance + 1)) (operands.drop (distance + 1))
        hrightLength (fun o ho => hbinary o (List.mem_of_mem_drop ho))
        (by simp only [List.length_drop]; omega)
      rw [clauses_of_findIdx?_none hleftLength hnone, evalClauses_singleton] at hleft
      rw [clauses_of_findIdx?_some hlength hor]
      simp only [executeOperationRecursively, hor, hsplit, Outcome.bind_returned, Nat.zero_add,
        hleft, hright, evalClauses]

/-- Nothing is thrown out of the evaluation. -/
theorem executeOperationRecursively_ne_threw (fuel : Nat) (operators : List BooleanOperatorType)
    (operands : List (Str × Bool)) (e : Exception) :
    executeOperationRecursively eval map headers streamInfo fuel operators operands ≠
      .threw e := by
  induction fuel generalizing operators operands e with
  | zero => nofun
  | succ fuel ih =>
    intro h
    rw [executeOperationRecursively] at h
    split at h
    · exact Outcome.catchAs_ne_threw _ _ _ h
    -- the iterators are moved outside of the `try` block, which can be undefined but does not
    -- throw
    rcases Outcome.bind_eq_threw.mp h with hsplit | ⟨split, -, h⟩
    · unfold offset at hsplit
      split at hsplit <;> cases hsplit
    rcases Outcome.bind_eq_threw.mp h with hleft | ⟨_, -, h⟩
    · exact ih _ _ _ hleft
    rcases Outcome.bind_eq_threw.mp h with hright | ⟨_, -, h⟩
    · exact ih _ _ _ hright
    dsimp only at h
    split at h
    · cases h
    split at h <;> cases h

/-- The evaluation of a well-formed condition is that of its clauses. -/
theorem executeOperation_eq {declared : Str → Bool} {p : ConditionProcessor}
    (hwf : p.WellFormed declared) (maps : SetBoolProcessorMaps) :
    p.executeOperation eval maps headers streamInfo =
      evalClauses .ok conditionFailed
        (executeOperand eval (maps p.boolProcessors) headers streamInfo) p.clauses :=
  executeOperationRecursively_eq hwf.length_operands hwf.isBinaryOperator (Nat.lt_succ_self _)

/-- The clauses hold the operands in their order. -/
theorem flatten_clauses {declared : Str → Bool} {p : ConditionProcessor}
    (hwf : p.WellFormed declared) : p.clauses.flatten = p.operands :=
  Cxx.flatten_clauses hwf.length_operands

/-- A literal that is evaluated is one of the condition. -/
theorem mem_of_reached {declared : Str → Bool} {p : ConditionProcessor}
    (hwf : p.WellFormed declared) {literal : Str × Bool → Outcome (Status × Bool)} {d : Str × Bool}
    (h : Reached .ok literal p.clauses d) : d ∈ p.operands := by
  rw [← flatten_clauses hwf]
  exact h.mem_flatten

/-- An operand whose variable is declared is evaluated as the variable. -/
theorem executeOperand_of_lookup {d : Str × Bool} {q : SetBoolProcessor}
    (h : map.lookup d.1 = some q) :
    executeOperand eval map headers streamInfo d =
      q.executeOperation eval headers streamInfo d.2 := by
  simp [executeOperand, SetBoolProcessorMap.at, h]

end Evaluation

/-! ## The recursive calls -/

/-- The recursive calls that the evaluation makes on two lists: those for the parts on both sides of
the first `or`. -/
inductive RecursiveCall :
    List BooleanOperatorType × List (Str × Bool) →
      List BooleanOperatorType × List (Str × Bool) → Prop
  | left {operators : List BooleanOperatorType} {operands : List (Str × Bool)} {distance : Nat} :
      operators.findIdx? isOR = some distance →
      RecursiveCall (operators, operands)
        (operators.take distance, operands.take (distance + 1))
  | right {operators : List BooleanOperatorType} {operands : List (Str × Bool)} {distance : Nat} :
      operators.findIdx? isOR = some distance →
      RecursiveCall (operators, operands)
        (operators.drop (distance + 1), operands.drop (distance + 1))

/-- Every recursive call has one more operand than operators, and both are parts of the lists. -/
theorem balanced_of_recursiveCalls {lists call : List BooleanOperatorType × List (Str × Bool)}
    (hlength : lists.2.length = lists.1.length + 1)
    (h : Relation.ReflTransGen RecursiveCall lists call) :
    call.2.length = call.1.length + 1 ∧ call.1 <:+: lists.1 ∧ call.2 <:+: lists.2 := by
  induction h with
  | refl => exact ⟨hlength, List.infix_rfl, List.infix_rfl⟩
  | tail _ hcall ih =>
    obtain ⟨ihLength, ihOperators, ihOperands⟩ := ih
    cases hcall with
    | left hor =>
      -- the operand before the `or` goes to the left, so that both parts have one operand more
      -- again
      obtain ⟨hdistance, -⟩ := List.findIdx?_eq_some_iff_getElem.mp hor
      refine ⟨?_, (List.take_prefix _ _).isInfix.trans ihOperators,
        (List.take_prefix _ _).isInfix.trans ihOperands⟩
      dsimp only at ihLength
      simp only [List.length_take]
      omega
    | right hor =>
      obtain ⟨hdistance, -⟩ := List.findIdx?_eq_some_iff_getElem.mp hor
      refine ⟨?_, (List.drop_suffix _ _).isInfix.trans ihOperators,
        (List.drop_suffix _ _).isInfix.trans ihOperands⟩
      dsimp only at ihLength
      simp only [List.length_drop]
      omega

end ConditionProcessor

/-! ## The conditions of a configuration -/

/-- The variable `name` of a side is `p`: exactly one of the lines defines it, as `p`, and this line
is one of those before the operation. -/
def Binds (E : Envoy M I) (isRequest : Bool) (lines before : List (List Str)) (name : Str)
    (p : SetBoolProcessor) : Prop :=
  ∃ tokens ∈ before, lines.filter (isDefinitionOf isRequest name) = [tokens] ∧
    DefinitionLine E isRequest tokens name p

section Configuration

variable {E : Envoy M I} {f : HttpHeaderRewriteFilter} {isRequest : Bool} {p : HeaderProcessor}
  {c : ConditionProcessor}

/-- A variable that is declared before the line of an operation is bound to its definition. -/
theorem binds_of_scope {before after : List (List Str)} {f' : HttpHeaderRewriteFilter}
    (hbefore : Constructs E init before f') (hafter : Constructs E f' after f) {name : Str}
    (hname : f'.scope isRequest name = true) :
    ∃ q, (f.sideSetBools isRequest).lookup name = some q ∧
      Binds E isRequest (before ++ after) before name q := by
  obtain ⟨q, hq⟩ := Option.isSome_iff_exists.mp hname
  have hnew : (init.sideSetBools isRequest).lookup name = none := by
    cases isRequest <;> rfl
  obtain ⟨tokens, htokens, hline⟩ := hbefore.filter_isDefinitionOf hnew hq
  -- what is declared before the line is not defined again after it
  have hnone : after.filter (isDefinitionOf isRequest name) = [] := by
    rw [List.filter_eq_nil_iff]
    intro tokens' htokens'
    simp [hafter.isDefinitionOf_eq_false hname htokens']
  refine ⟨q, hafter.lookup_mono hq, tokens, ?_, ?_, hline⟩
  · have hmem : tokens ∈ before.filter (isDefinitionOf isRequest name) := by
      rw [htokens]
      exact List.mem_singleton_self tokens
    exact List.mem_of_mem_filter hmem
  · rw [List.filter_append, htokens, hnone, List.append_nil]

/-- A literal of a condition: a variable or its negation, where `binding` holds the variables. -/
def literal (E : Envoy M I) (binding : Str → SetBoolProcessor)
    (headers : RequestOrResponseHeaderMap M) (streamInfo : Option I) (d : Str × Bool) :
    Outcome (Status × Bool) :=
  (binding d.1).executeOperation (DynamicFunctionProcessor.executeOperation E) headers streamInfo
    d.2

/-- A condition whose variables are bound is evaluated as its clauses of literals. -/
theorem executeOperation_eq_literal {declared : Str → Bool} (hwf : c.WellFormed declared)
    {maps : SetBoolProcessorMaps} {binding : Str → SetBoolProcessor}
    (hbinding : ∀ d ∈ c.operands, (maps c.boolProcessors).lookup d.1 = some (binding d.1))
    (headers : RequestOrResponseHeaderMap M) (streamInfo : Option I) :
    c.executeOperation (DynamicFunctionProcessor.executeOperation E) maps headers streamInfo =
      evalClauses .ok ConditionProcessor.conditionFailed (literal E binding headers streamInfo)
        c.clauses := by
  rw [ConditionProcessor.executeOperation_eq hwf]
  refine evalClauses_congr fun d hd => ?_
  rw [ConditionProcessor.flatten_clauses hwf] at hd
  exact ConditionProcessor.executeOperand_of_lookup (hbinding d hd)

/-- Where all variables have a value, the condition has that of the disjunction. -/
theorem executeOperation_of_values {declared : Str → Bool} (hwf : c.WellFormed declared)
    {maps : SetBoolProcessorMaps} {binding : Str → SetBoolProcessor}
    (hbinding : ∀ d ∈ c.operands, (maps c.boolProcessors).lookup d.1 = some (binding d.1))
    {headers : RequestOrResponseHeaderMap M} {streamInfo : Option I} {value : Str → Bool}
    (hvalue : ∀ d ∈ c.operands, literal E binding headers streamInfo (d.1, false) =
      .returned (.ok, value d.1)) :
    c.executeOperation (DynamicFunctionProcessor.executeOperation E) maps headers streamInfo =
      .returned (.ok, c.clauses.any (·.all fun d => if d.2 then !value d.1 else value d.1)) := by
  rw [executeOperation_eq_literal hwf hbinding]
  refine evalClauses_of_ok fun d hd => ?_
  rw [ConditionProcessor.flatten_clauses hwf] at hd
  exact SetBoolProcessor.executeOperation_of_false (hvalue d hd) d.2

theorem conditionFailed_ne_ok (e : Exception) : ConditionProcessor.conditionFailed e ≠ .ok :=
  Status.unknown_ne_ok _

/-- Undefined behavior of a condition is that of a literal: a null `Path()`, or the prefix matcher
reading too far. -/
theorem executeOperation_undefined {declared : Str → Bool} (hwf : c.WellFormed declared)
    {maps : SetBoolProcessorMaps} {binding : Str → SetBoolProcessor}
    (hbinding : ∀ d ∈ c.operands, (maps c.boolProcessors).lookup d.1 = some (binding d.1))
    (hoperand : ∀ d ∈ c.operands, ∀ o ∈ (binding d.1).operands, o.WellFormed E)
    {headers : RequestOrResponseHeaderMap M} {streamInfo : Option I} {u : UndefinedBehavior}
    (h : c.executeOperation (DynamicFunctionProcessor.executeOperation E) maps headers streamInfo =
      .undefined u) :
    (∃ d ∈ c.operands, literal E binding headers streamInfo d = .undefined u) ∧
      u ≠ .iteratorPastEnd ∧ u ≠ .noProgress := by
  rw [executeOperation_eq_literal hwf hbinding] at h
  obtain ⟨d, hreached, hu⟩ := reached_of_evalClauses h
  have hd := ConditionProcessor.mem_of_reached hwf hreached
  refine ⟨⟨d, hd, hu⟩, ?_⟩
  rcases SetBoolProcessor.executeOperation_undefined (hoperand d hd) hu with
    ⟨rfl, -⟩ | ⟨rfl, -⟩ <;> simp

/-- The result of a condition is that of its disjunction of conjunctions. If no literal fails, all
variables have values, and the result is the value of the disjunction. Otherwise it is the status of
the leftmost failing literal, also where the value is decided without it. -/
structure ConditionProcessor.FollowsReference (E : Envoy M I) (maps : SetBoolProcessorMaps)
    (binding : Str → SetBoolProcessor) (c : ConditionProcessor)
    (headers : RequestOrResponseHeaderMap M) (streamInfo : Option I) : Prop where
  /-- Without a failing literal, the value is that of the disjunction. -/
  value : (∀ d ∈ c.operands, ∀ status,
      ¬ Fails .ok conditionFailed (literal E binding headers streamInfo) d status) →
    ∃ value : Str → Bool,
      (∀ d ∈ c.operands, literal E binding headers streamInfo (d.1, false) =
        .returned (.ok, value d.1)) ∧
      c.executeOperation (DynamicFunctionProcessor.executeOperation E) maps headers streamInfo =
        .returned (.ok, c.clauses.any (·.all fun d => if d.2 then !value d.1 else value d.1))
  /-- The leftmost failing literal decides the status. -/
  status : ∀ left d right status, c.operands = left ++ d :: right →
    (∀ b ∈ left, ∀ status',
      ¬ Fails .ok conditionFailed (literal E binding headers streamInfo) b status') →
    Fails .ok conditionFailed (literal E binding headers streamInfo) d status →
    status ≠ .ok ∧
      c.executeOperation (DynamicFunctionProcessor.executeOperation E) maps headers streamInfo =
        .returned (status, false)

/-- A literal that is evaluated calls `urlp` without a `:path`, or its prefix matcher reads too
far. -/
def ConditionProcessor.ReachesUndefined (E : Envoy M I) (binding : Str → SetBoolProcessor)
    (c : ConditionProcessor) (headers : RequestOrResponseHeaderMap M) (streamInfo : Option I) :
    Prop :=
  ∃ d, Reached .ok (literal E binding headers streamInfo) c.clauses d ∧
    ((binding d.1).NullPath E headers streamInfo ∨
      (binding d.1).OverReads (DynamicFunctionProcessor.executeOperation E) headers streamInfo)

/-- The reference decides the clauses. -/
theorem followsReference_iff_decides {declared : Str → Bool} (hwf : c.WellFormed declared)
    {maps : SetBoolProcessorMaps} {binding : Str → SetBoolProcessor}
    (hbinding : ∀ d ∈ c.operands, (maps c.boolProcessors).lookup d.1 = some (binding d.1))
    (headers : RequestOrResponseHeaderMap M) (streamInfo : Option I) :
    c.FollowsReference E maps binding headers streamInfo ↔
      Decides .ok ConditionProcessor.conditionFailed (literal E binding headers streamInfo)
        c.clauses (c.executeOperation (DynamicFunctionProcessor.executeOperation E) maps headers
          streamInfo) := by
  have hflatten := ConditionProcessor.flatten_clauses hwf
  constructor
  · rintro ⟨hvalue, hstatus⟩
    constructor
    · intro hnot
      rw [hflatten] at hnot ⊢
      obtain ⟨value, hliteral, hresult⟩ := hvalue hnot
      refine ⟨fun d => if d.2 then !value d.1 else value d.1, fun d hd => ?_, hresult⟩
      exact SetBoolProcessor.executeOperation_of_false (hliteral d hd) d.2
    · intro left d right status hsplit hleft hd
      rw [hflatten] at hsplit
      exact (hstatus left d right status hsplit hleft hd).2
  · rintro ⟨hvalue, hverdict⟩
    rw [hflatten] at hvalue hverdict
    constructor
    · intro hnot
      obtain ⟨literalValue, hliteral, -⟩ := hvalue hnot
      -- the literals of a variable give it the same value
      have hvariable : ∀ name, (∃ d ∈ c.operands, d.1 = name) → ∃ value,
          literal E binding headers streamInfo (name, false) = .returned (.ok, value) := by
        rintro _ ⟨d, hd, rfl⟩
        exact ⟨_, SetBoolProcessor.executeOperation_of_ok (hliteral d hd) false⟩
      choose! value hvalue using hvariable
      have hvalues : ∀ d ∈ c.operands,
          literal E binding headers streamInfo (d.1, false) = .returned (.ok, value d.1) :=
        fun d hd => hvalue d.1 ⟨d, hd, rfl⟩
      exact ⟨value, hvalues, executeOperation_of_values hwf hbinding hvalues⟩
    · intro left d right status hsplit hleft hd
      exact ⟨hd.verdict_ne_ok conditionFailed_ne_ok,
        hverdict left d right status hsplit hleft hd⟩

section Undefined

variable {declared : Str → Bool} {maps : SetBoolProcessorMaps} {binding : Str → SetBoolProcessor}

/-- The literals that call `urlp` without a `:path` or read too far are those that are undefined. -/
theorem reachesUndefined_iff (hwf : c.WellFormed declared)
    (hoperand : ∀ d ∈ c.operands, ∀ o ∈ (binding d.1).operands, o.WellFormed E)
    (headers : RequestOrResponseHeaderMap M) (streamInfo : Option I) :
    c.ReachesUndefined E binding headers streamInfo ↔
      ∃ d u, Reached .ok (literal E binding headers streamInfo) c.clauses d ∧
        literal E binding headers streamInfo d = .undefined u := by
  constructor
  · rintro ⟨d, hreached, hundefined⟩
    have hd := ConditionProcessor.mem_of_reached hwf hreached
    rcases hundefined with hnull | hover
    · exact ⟨d, _, hreached, hnull.executeOperation_eq (hoperand d hd) d.2⟩
    · exact ⟨d, _, hreached, hover.executeOperation_eq d.2⟩
  · rintro ⟨d, u, hreached, hu⟩
    have hd := ConditionProcessor.mem_of_reached hwf hreached
    rcases SetBoolProcessor.executeOperation_undefined (hoperand d hd) hu with
      ⟨-, hnull⟩ | ⟨-, hover⟩
    · exact ⟨d, hreached, Or.inl hnull⟩
    · exact ⟨d, hreached, Or.inr hover⟩

/-- A condition follows the reference exactly if no literal that is evaluated is undefined. -/
theorem followsReference_iff (hwf : c.WellFormed declared)
    (hbinding : ∀ d ∈ c.operands, (maps c.boolProcessors).lookup d.1 = some (binding d.1))
    (hoperand : ∀ d ∈ c.operands, ∀ o ∈ (binding d.1).operands, o.WellFormed E)
    (headers : RequestOrResponseHeaderMap M) (streamInfo : Option I) :
    c.FollowsReference E maps binding headers streamInfo ↔
      ¬ c.ReachesUndefined E binding headers streamInfo := by
  rw [followsReference_iff_decides hwf hbinding, executeOperation_eq_literal hwf hbinding,
    decides_evalClauses_iff conditionFailed_ne_ok, reachesUndefined_iff hwf hoperand]
  simp only [not_exists, not_and, ne_eq]

/-- A condition is undefined where a literal that is evaluated is. -/
theorem exists_undefined_of_reachesUndefined (hwf : c.WellFormed declared)
    (hbinding : ∀ d ∈ c.operands, (maps c.boolProcessors).lookup d.1 = some (binding d.1))
    (hoperand : ∀ d ∈ c.operands, ∀ o ∈ (binding d.1).operands, o.WellFormed E)
    {headers : RequestOrResponseHeaderMap M} {streamInfo : Option I}
    (h : c.ReachesUndefined E binding headers streamInfo) :
    ∃ u, c.executeOperation (DynamicFunctionProcessor.executeOperation E) maps headers streamInfo =
      .undefined u := by
  obtain ⟨d, u, hreached, hu⟩ := (reachesUndefined_iff hwf hoperand headers streamInfo).mp h
  rw [executeOperation_eq_literal hwf hbinding]
  exact exists_undefined_of_reached hreached hu

end Undefined

/-- A condition whose variables are neither given a null `Path()` nor read too far reaches no
undefined literal. -/
theorem not_reachesUndefined {binding : Str → SetBoolProcessor}
    (hflatten : c.clauses.flatten = c.operands) {headers : RequestOrResponseHeaderMap M}
    {streamInfo : Option I}
    (h : ∀ d ∈ c.operands, ¬ ((binding d.1).NullPath E headers streamInfo ∨
      (binding d.1).OverReads (DynamicFunctionProcessor.executeOperation E) headers streamInfo)) :
    ¬ c.ReachesUndefined E binding headers streamInfo := by
  rintro ⟨d, hreached, hundefined⟩
  exact h d (hflatten ▸ hreached.mem_flatten) hundefined

/-- What a condition of an accepted configuration evaluates to. Its line spells it out, and each of
its variables is bound to the one line of the side that defines it, which comes before. It follows
the reference exactly if no literal that is evaluated is undefined, and is undefined otherwise.
Behavior that is undefined is that of a literal. -/
theorem conditions_refine {config : Str} (hconstruct : construct E config = .returned f)
    (herror : f.error = false) (hp : p ∈ f.headerProcessors isRequest)
    (hc : p.conditionProcessor = some c) :
    ∃ before line after front binding,
      configLines E config = before ++ line :: after ∧
      OperationLine E (fun name => before.any (isDefinitionOf isRequest name)) isRequest line p ∧
      line = front ++ ifKeyword :: ConditionProcessor.conditionTokens c.operators c.operands ∧
      (∀ d ∈ c.operands, Binds E isRequest (configLines E config) before d.1 (binding d.1) ∧
        (f.setBoolProcessors c.boolProcessors).at d.1 = .returned (binding d.1)) ∧
      (∀ call, Relation.ReflTransGen ConditionProcessor.RecursiveCall (c.operators, c.operands)
          call → call.2.length = call.1.length + 1 ∧ call.1 <:+: c.operators ∧
            call.2 <:+: c.operands) ∧
      c.clauses.flatten = c.operands ∧
      ∀ headers streamInfo,
        (c.FollowsReference E f.setBoolProcessors binding headers streamInfo ↔
          ¬ c.ReachesUndefined E binding headers streamInfo) ∧
        (c.ReachesUndefined E binding headers streamInfo →
          ∃ u, c.executeOperation (DynamicFunctionProcessor.executeOperation E) f.setBoolProcessors
            headers streamInfo = .undefined u) ∧
        ∀ u, c.executeOperation (DynamicFunctionProcessor.executeOperation E) f.setBoolProcessors
            headers streamInfo = .undefined u →
          (∃ d ∈ c.operands, literal E binding headers streamInfo d = .undefined u) ∧
            u ≠ .iteratorPastEnd ∧ u ≠ .noProgress := by
  have hconstructs := accepted_iff_constructs.mp ⟨hconstruct, herror⟩
  -- the line that made the operation, and what was declared before it
  obtain hinit | ⟨before, line, after, f', hlines, hbefore, hline, hafter⟩ :=
    hconstructs.exists_line hp
  -- the filter starts without operations
  · cases isRequest <;> cases hinit
  obtain ⟨hprocessor, hwf, front, hfront⟩ := hline.condition hc
  have hscope : f'.scope isRequest = fun name => before.any (isDefinitionOf isRequest name) := by
    funext name
    rw [hbefore.scope_eq, scope_init]
    rfl
  have hbinds : ∀ d ∈ c.operands, ∃ q, (f.sideSetBools isRequest).lookup d.1 = some q ∧
      Binds E isRequest (configLines E config) before d.1 q := by
    intro d hd
    rw [hlines]
    exact binds_of_scope hbefore (.operation hline hafter) (hwf.declared d hd)
  -- a condition has a literal, so that some variable is bound
  obtain ⟨d₀, _, hoperands⟩ := List.exists_cons_of_length_eq_add_one hwf.length_operands
  obtain ⟨q₀, -⟩ := hbinds d₀ (hoperands ▸ List.mem_cons_self)
  obtain ⟨binding, hbinding⟩ : ∃ binding : Str → SetBoolProcessor, ∀ d ∈ c.operands,
      (f.sideSetBools isRequest).lookup d.1 = some (binding d.1) ∧
        Binds E isRequest (configLines E config) before d.1 (binding d.1) := by
    refine ⟨fun name => ((f.sideSetBools isRequest).lookup name).getD q₀, fun d hd => ?_⟩
    obtain ⟨q, hq, hbinds⟩ := hbinds d hd
    simpa [hq] using hbinds
  -- the condition looks its variables up on the side it was parsed for
  have hpointer : c.boolProcessors = (Processor.ofSide isRequest).boolProcessors :=
    congrArg Processor.boolProcessors hprocessor
  have hlookup : ∀ d ∈ c.operands,
      (f.setBoolProcessors c.boolProcessors).lookup d.1 = some (binding d.1) := by
    intro d hd
    rw [hpointer]
    exact (hbinding d hd).1
  have hoperand : ∀ d ∈ c.operands, ∀ o ∈ (binding d.1).operands, o.WellFormed E := by
    intro d hd o ho
    obtain ⟨_, _, _, hdefinition⟩ := (hbinding d hd).2
    exact (hdefinition.operand o ho).1
  refine ⟨before, line, after, front, binding, hlines, hscope ▸ hline, hfront, fun d hd => ?_,
    fun call hcall => ?_, ConditionProcessor.flatten_clauses hwf, fun headers streamInfo => ?_⟩
  · exact ⟨(hbinding d hd).2, by rw [SetBoolProcessorMap.at, hlookup d hd]⟩
  · exact ConditionProcessor.balanced_of_recursiveCalls hwf.length_operands hcall
  · exact ⟨followsReference_iff hwf hlookup hoperand headers streamInfo,
      exists_undefined_of_reachesUndefined hwf hlookup hoperand,
      fun u hu => executeOperation_undefined hwf hlookup hoperand hu⟩

/-- The condition `not b or b` is true where `b` has a value. The condition `b or e` is not, where
the position that `e` reads is out of bounds. -/
theorem conditions_refine_b_or_e :
    ∃ f p p' c c', construct Reference.envoy ("http-request set-bool b x -m found\n" ++
          "http-request set-bool e %[hdr(y,5)] -m found\n" ++
          "http-request set-header k v if not b or b\n" ++
          "http-request set-header k v if b or e").toList = .returned f ∧
      p ∈ f.headerProcessors true ∧ p.conditionProcessor = some c ∧
      c.executeOperation (DynamicFunctionProcessor.executeOperation Reference.envoy)
        f.setBoolProcessors ⟨true, [("y".toList, "1".toList)]⟩ none = .returned (.ok, true) ∧
      p' ∈ f.headerProcessors true ∧ p'.conditionProcessor = some c' ∧
      c'.executeOperation (DynamicFunctionProcessor.executeOperation Reference.envoy)
          f.setBoolProcessors ⟨true, [("y".toList, "1".toList)]⟩ none =
        .returned (.outOfRange "invalid match syntax -- hdr position out of bounds", false) := by
  let side := Processor.ofSide true
  let c : ConditionProcessor := ⟨side, [.or], [("b".toList, true), ("b".toList, false)]⟩
  let c' : ConditionProcessor := ⟨side, [.or], [("b".toList, false), ("e".toList, false)]⟩
  let p : ConditionProcessor → HeaderProcessor := fun c =>
    .setHeader ⟨side, ⟨side, .static, "k".toList⟩, ⟨side, .static, "v".toList⟩, some c⟩
  let b : SetBoolProcessor := ⟨side, .found, ⟨side, .static, "x".toList⟩, ⟨side, .static, []⟩⟩
  let e : SetBoolProcessor := ⟨side, .found, ⟨side, .getHdr, "y,5".toList⟩, ⟨side, .static, []⟩⟩
  let headers : RequestOrResponseHeaderMap (List (Str × Str)) :=
    ⟨true, [("y".toList, "1".toList)]⟩
  obtain ⟨f, hf, htest⟩ := Outcome.exists_of_returnsWith
    (show (construct Reference.envoy ("http-request set-bool b x -m found\n" ++
        "http-request set-bool e %[hdr(y,5)] -m found\n" ++
        "http-request set-header k v if not b or b\n" ++
        "http-request set-header k v if b or e").toList).returnsWith
      (fun f => decide (f.error = false ∧ f.headerProcessors true = [p c, p c'] ∧
        (f.setBoolProcessors .requestSetBoolProcessors).at "b".toList = .returned b ∧
        (f.setBoolProcessors .requestSetBoolProcessors).at "e".toList = .returned e)) = true by
      decide +kernel)
  obtain ⟨herror, hprocessors, hatB, hatE⟩ := of_decide_eq_true htest
  have hvalue : b.executeOperation (DynamicFunctionProcessor.executeOperation Reference.envoy)
      headers none false = .returned (.ok, true) := by decide +kernel
  have hfails : e.executeOperation (DynamicFunctionProcessor.executeOperation Reference.envoy)
      headers none false =
        .returned (.outOfRange "invalid match syntax -- hdr position out of bounds", false) := by
    decide +kernel
  -- neither variable calls `urlp` or compares prefixes
  have hdefined : ∀ q ∈ [b, e], ¬ (q.NullPath Reference.envoy headers none ∨
      q.OverReads (DynamicFunctionProcessor.executeOperation Reference.envoy) headers none) := by
    intro q hq
    have htypes : q.sourceProcessor.functionType ≠ .urlp ∧
        q.stringToCompareFunctionProcessor.functionType ≠ .urlp ∧ q.matchType ≠ .prefixOf := by
      rcases List.mem_pair.mp hq with rfl | rfl <;> decide
    obtain ⟨hsource, hcompare, htype⟩ := htypes
    rintro ((hnull | ⟨-, hnull⟩) | hover)
    · exact hsource hnull.1
    · exact hcompare hnull.1
    · exact htype hover.1
  have hp : p c ∈ f.headerProcessors true := by simp [hprocessors]
  have hp' : p c' ∈ f.headerProcessors true := by simp [hprocessors]
  refine ⟨f, p c, p c', c, c', hf, hp, rfl, ?_, hp', rfl, ?_⟩
  · obtain ⟨before, line, after, front, binding, -, -, -, hbinding, -, hflatten, heval⟩ :=
      conditions_refine hf herror hp rfl
    have hb : binding "b".toList = b :=
      Outcome.returned.inj ((hbinding ("b".toList, true) (by simp [c])).2.symm.trans hatB)
    have hname : ∀ d ∈ c.operands, d.1 = "b".toList := by simp [c]
    have hfollows := (heval headers none).1.mpr (not_reachesUndefined hflatten fun d hd => by
      rw [hname d hd, hb]
      exact hdefined b List.mem_cons_self)
    obtain ⟨value, -, hresult⟩ := hfollows.value fun d hd => by
      apply not_fails_of_returned
      rw [literal, hname d hd, hb]
      exact SetBoolProcessor.executeOperation_of_false hvalue d.2
    rw [hresult]
    simp [ConditionProcessor.clauses, c, Cxx.clauses, isOR]
  · obtain ⟨before, line, after, front, binding, -, -, -, hbinding, -, hflatten, heval⟩ :=
      conditions_refine hf herror hp' rfl
    have hb : binding "b".toList = b :=
      Outcome.returned.inj ((hbinding ("b".toList, false) (by simp [c'])).2.symm.trans hatB)
    have he : binding "e".toList = e :=
      Outcome.returned.inj ((hbinding ("e".toList, false) (by simp [c'])).2.symm.trans hatE)
    have hfollows := (heval headers none).1.mpr (not_reachesUndefined hflatten fun d hd => by
      rcases List.mem_pair.mp hd with rfl | rfl
      · rw [hb]
        exact hdefined b (by simp)
      · rw [he]
        exact hdefined e (by simp))
    refine (hfollows.status [("b".toList, false)] ("e".toList, false) [] _ rfl ?_ ?_).2
    · intro d hd
      obtain rfl := List.mem_singleton.mp hd
      exact not_fails_of_returned (by rw [literal, hb, hvalue])
    · exact .returned (by rw [literal, he, hfails]) (Status.outOfRange_ne_ok _)

/-- In the condition `e or u` the position that `e` reads is out of bounds. Its status is lost on a
request without a `:path`, as `u` is evaluated all the same and calls `urlp`. -/
theorem not_conditions_refine_e_or_u :
    ∃ f p c binding, construct Reference.envoy ("http-request set-bool e %[hdr(x,5)] -m found\n" ++
          "http-request set-bool u %[urlp(q)] -m found\n" ++
          "http-request set-header k v if e or u").toList = .returned f ∧ f.error = false ∧
      p ∈ f.headerProcessors true ∧ p.conditionProcessor = some c ∧
      (∀ d ∈ c.operands,
        (f.setBoolProcessors c.boolProcessors).at d.1 = .returned (binding d.1)) ∧
      c.operands = [("e".toList, false), ("u".toList, false)] ∧
      Fails .ok ConditionProcessor.conditionFailed
        (literal Reference.envoy binding ⟨true, [("x".toList, "1".toList)]⟩ (some []))
        ("e".toList, false)
        (.outOfRange "invalid match syntax -- hdr position out of bounds") ∧
      c.executeOperation (DynamicFunctionProcessor.executeOperation Reference.envoy)
        f.setBoolProcessors ⟨true, [("x".toList, "1".toList)]⟩ (some []) =
          .undefined .nullDereference ∧
      ¬ c.FollowsReference Reference.envoy f.setBoolProcessors binding
        ⟨true, [("x".toList, "1".toList)]⟩ (some []) := by
  let side := Processor.ofSide true
  let c : ConditionProcessor := ⟨side, [.or], [("e".toList, false), ("u".toList, false)]⟩
  let p : HeaderProcessor :=
    .setHeader ⟨side, ⟨side, .static, "k".toList⟩, ⟨side, .static, "v".toList⟩, some c⟩
  let e : SetBoolProcessor := ⟨side, .found, ⟨side, .getHdr, "x,5".toList⟩, ⟨side, .static, []⟩⟩
  let u : SetBoolProcessor := ⟨side, .found, ⟨side, .urlp, "q".toList⟩, ⟨side, .static, []⟩⟩
  let binding : Str → SetBoolProcessor := fun name => if name = "e".toList then e else u
  obtain ⟨f, hf, htest⟩ := Outcome.exists_of_returnsWith
    (show (construct Reference.envoy ("http-request set-bool e %[hdr(x,5)] -m found\n" ++
        "http-request set-bool u %[urlp(q)] -m found\n" ++
        "http-request set-header k v if e or u").toList).returnsWith
      (fun f => decide (f.error = false ∧ f.headerProcessors true = [p] ∧
        (∀ d ∈ c.operands,
          (f.setBoolProcessors c.boolProcessors).at d.1 = .returned (binding d.1)) ∧
        c.executeOperation (DynamicFunctionProcessor.executeOperation Reference.envoy)
          f.setBoolProcessors ⟨true, [("x".toList, "1".toList)]⟩ (some []) =
            .undefined .nullDereference)) = true by
      decide +kernel)
  obtain ⟨herror, hprocessors, hbinding, hundefined⟩ := of_decide_eq_true htest
  have hreturned : literal Reference.envoy binding ⟨true, [("x".toList, "1".toList)]⟩ (some [])
      ("e".toList, false) =
        .returned (.outOfRange "invalid match syntax -- hdr position out of bounds", false) := by
    decide +kernel
  have hfails : Fails .ok ConditionProcessor.conditionFailed
      (literal Reference.envoy binding ⟨true, [("x".toList, "1".toList)]⟩ (some []))
      ("e".toList, false) (.outOfRange "invalid match syntax -- hdr position out of bounds") :=
    .returned hreturned (Status.outOfRange_ne_ok _)
  refine ⟨f, p, c, binding, hf, herror, by simp [hprocessors], rfl, hbinding, rfl, hfails,
    hundefined, fun hfollows => ?_⟩
  have hstatus := (hfollows.status [] ("e".toList, false) [("u".toList, false)] _ rfl
    (List.forall_mem_nil _) hfails).2
  cases hundefined.symm.trans hstatus

end Configuration

end HeaderRewrite
