import HeaderRewrite.Construction.RoundTrip
import HeaderRewrite.Cxx.NormalForm
import HeaderRewrite.Execution.Condition
import HeaderRewrite.Execution.Operation

/-!
# What conditions can express

Conditions have no parentheses, but nothing is lost by that. The disjunctive normal form of any
boolean function of variables of a side can be written as the condition of an operation. The
configuration with these conditions is accepted, and each condition has the value of its function
wherever the variables have values.

## Main definitions

* `ConditionProcessor.ofFunction`: the condition of a boolean function;
* `HttpHeaderRewriteFilter.guard`: a filter with these conditions.

## Main results

* `ConditionProcessor.words_conditionTokens`: conditions can be printed;
* `HttpHeaderRewriteFilter.construct_guard`: the filter is constructed, and its conditions are the
  functions.
-/

namespace HeaderRewrite

open Cxx Utility HttpHeaderRewriteFilter

variable {M I : Type}

/-! ## The condition of a function -/

namespace ConditionProcessor

/-- The condition of a boolean function of variables. -/
def ofFunction (processor : Processor) (names : List Str) (φ : List Bool → Bool) :
    ConditionProcessor :=
  { processor with
    operators := joinOperators .and .or (normalForm φ names)
    operands := (normalForm φ names).flatten }

section OfFunction

variable {processor : Processor} {names : List Str} {φ : List Bool → Bool}

theorem clauses_ofFunction (hne : names ≠ []) :
    (ofFunction processor names φ).clauses = normalForm φ names :=
  clauses_joinOperators rfl rfl (normalForm_ne_nil hne) fun _ h => (of_mem_normalForm h).1

/-- The operands are variables that the function is about. -/
theorem mem_of_mem_ofFunction {d : Str × Bool} (h : d ∈ (ofFunction processor names φ).operands) :
    d.1 ∈ names := by
  obtain ⟨clause, hclause, hd⟩ := List.mem_flatten.mp h
  exact (of_mem_normalForm hclause).2 d hd

theorem wellFormed_ofFunction {declared : Str → Bool} (hne : names ≠ [])
    (hdeclared : ∀ name ∈ names, declared name = true)
    (hnames : ∀ name ∈ names, isOperator (stringToBooleanOperatorType name) = false) :
    (ofFunction processor names φ).WellFormed declared where
  length_operands :=
    length_flatten_of_joinOperators (normalForm_ne_nil hne) fun _ h => (of_mem_normalForm h).1
  isBinaryOperator o ho := by
    rcases mem_joinOperators ho with rfl | rfl <;> rfl
  declared d hd := hdeclared d.1 (mem_of_mem_ofFunction hd)
  not_isOperator d hd := hnames d.1 (mem_of_mem_ofFunction hd)

/-- The condition has the value of the function where the variables have values. -/
theorem executeOperation_ofFunction {eval : Evaluator M I} {maps : SetBoolProcessorMaps}
    {declared : Str → Bool} {headers : RequestOrResponseHeaderMap M} {streamInfo : Option I}
    {value : Str → Bool} (hne : names ≠ [])
    (hwf : (ofFunction processor names φ).WellFormed declared)
    (hvalue : ∀ name ∈ names, ∃ q, (maps processor.boolProcessors).lookup name = some q ∧
      q.executeOperation eval headers streamInfo false = .returned (.ok, value name)) :
    (ofFunction processor names φ).executeOperation eval maps headers streamInfo =
      .returned (.ok, φ (names.map value)) := by
  have hliteral : ∀ d ∈ (ofFunction processor names φ).clauses.flatten,
      executeOperand eval (maps processor.boolProcessors) headers streamInfo d =
        .returned (.ok, if d.2 then !value d.1 else value d.1) := by
    intro d hd
    rw [flatten_clauses hwf] at hd
    obtain ⟨q, hq, hreturned⟩ := hvalue d.1 (mem_of_mem_ofFunction hd)
    rw [executeOperand_of_lookup hq]
    exact SetBoolProcessor.executeOperation_of_false hreturned d.2
  have hfunction := @any_normalForm _ φ names hne value
  rw [← @clauses_ofFunction processor names φ hne] at hfunction
  rw [executeOperation_eq hwf, ← hfunction]
  exact evalClauses_of_ok hliteral

end OfFunction

/-- The words of a literal are words. -/
theorem words_literalTokens {d : Str × Bool} (hword : d.1 ≠ [] ∧ ' ' ∉ d.1 ∧ '\n' ∉ d.1)
    (hlast : ∀ c ∈ d.1.getLast?, isSpace c = false) : ConfigWords (literalTokens d) := by
  rw [literalTokens]
  split
  · exact .cons (by decide) (.singleton hword hlast)
  · exact .singleton hword hlast

/-- The words of a condition are words if its variables are, and can come last on their line. -/
theorem words_conditionTokens {operators : List BooleanOperatorType}
    {operands : List (Str × Bool)} (hoperators : ∀ o ∈ operators, isBinaryOperator o)
    (hword : ∀ d ∈ operands, d.1 ≠ [] ∧ ' ' ∉ d.1 ∧ '\n' ∉ d.1)
    (hlast : ∀ d ∈ operands, ∀ c ∈ d.1.getLast?, isSpace c = false) :
    ConfigWords (conditionTokens operators operands) := by
  induction operators generalizing operands with
  | nil =>
    cases operands with
    | nil => exact ⟨by simp [conditionTokens], by simp [conditionTokens]⟩
    | cons d operands =>
      rw [List.forall_mem_cons] at hword hlast
      simpa [conditionTokens, continuationTokens] using words_literalTokens hword.1 hlast.1
  | cons o operators ih =>
    rw [List.forall_mem_cons] at hoperators
    cases operands with
    | nil => exact ⟨by simp [conditionTokens], by simp [conditionTokens]⟩
    | cons d operands =>
      cases operands with
      | nil =>
        rw [List.forall_mem_cons] at hword hlast
        simpa [conditionTokens, continuationTokens] using words_literalTokens hword.1 hlast.1
      | cons next operands =>
        rw [List.forall_mem_cons] at hword hlast
        -- an operator, and then the condition of the other operands
        have hrest := ih hoperators.2 hword.2 hlast.2
        have hsplit : conditionTokens (o :: operators) (d :: next :: operands) =
            (literalTokens d ++ [operatorToken o]) ++
              conditionTokens operators (next :: operands) := by
          simp [conditionTokens, continuationTokens]
        have hoperator : operatorToken o ≠ [] ∧ ' ' ∉ operatorToken o ∧ '\n' ∉ operatorToken o := by
          cases o <;> first | decide | cases hoperators.1
        have hne : conditionTokens operators (next :: operands) ≠ [] := by
          rw [conditionTokens, literalTokens]
          split <;> exact List.cons_ne_nil _ _
        rw [hsplit]
        refine .append (fun w hw => ?_) hrest hne
        rcases List.mem_append.mp hw with hw | hw
        · exact (words_literalTokens hword.1 hlast.1).word w hw
        · rwa [List.mem_singleton.mp hw]

end ConditionProcessor

/-! ## Filters with given conditions -/

namespace HttpHeaderRewriteFilter

/-- An operation with the condition of a function, or with its own. -/
def guardProcessor (isRequest : Bool) (names : List Str)
    (φ : HeaderProcessor → Option (List Bool → Bool)) (p : HeaderProcessor) : HeaderProcessor :=
  match φ p with
  | some ψ => p.withCondition (some (.ofFunction (.ofSide isRequest) names ψ))
  | none => p

/-- A filter in which the operations of a side are guarded by boolean functions of variables.
Operations that are equal have the same one. -/
def guard (f : HttpHeaderRewriteFilter) (isRequest : Bool) (names : List Str)
    (φ : HeaderProcessor → Option (List Bool → Bool)) : HttpHeaderRewriteFilter :=
  if isRequest then
    { f with
      requestHeaderProcessors := f.requestHeaderProcessors.map (guardProcessor true names φ) }
  else
    { f with
      responseHeaderProcessors := f.responseHeaderProcessors.map (guardProcessor false names φ) }

section Guard

variable {E : Envoy M I} {f : HttpHeaderRewriteFilter} {isRequest : Bool} {names : List Str}
  {φ : HeaderProcessor → Option (List Bool → Bool)} {config : Str}

theorem headerProcessors_guard (f : HttpHeaderRewriteFilter) (isRequest side : Bool)
    (names : List Str) (φ : HeaderProcessor → Option (List Bool → Bool)) :
    (f.guard isRequest names φ).headerProcessors side =
      if side = isRequest then (f.headerProcessors side).map (guardProcessor side names φ)
      else f.headerProcessors side := by
  cases isRequest <;> cases side <;> rfl

@[simp] theorem sideSetBools_guard (f : HttpHeaderRewriteFilter) (isRequest side : Bool)
    (names : List Str) (φ : HeaderProcessor → Option (List Bool → Bool)) :
    (f.guard isRequest names φ).sideSetBools side = f.sideSetBools side := by
  cases isRequest <;> cases side <;> rfl

/-- Variables that conditions can end with: they are declared, are no keywords and do not end in
white space. -/
structure Usable (f : HttpHeaderRewriteFilter) (isRequest : Bool) (name : Str) : Prop where
  /-- The variable is declared. -/
  isDeclared : f.scope isRequest name = true
  /-- It is not a keyword of conditions. -/
  not_isOperator : isOperator (stringToBooleanOperatorType name) = false
  /-- It does not end in white space. -/
  last : ∀ c ∈ name.getLast?, isSpace c = false

/-- The name of a declared variable is a word. -/
theorem Renderable.word_of_scope (h : Renderable E f) {name : Str}
    (hname : f.scope isRequest name = true) : name ≠ [] ∧ ' ' ∉ name ∧ '\n' ∉ name := by
  rw [scope, Option.isSome_iff_exists] at hname
  obtain ⟨q, hq⟩ := hname
  obtain ⟨-, hwords⟩ := h.definition isRequest (name, q) (mem_of_lookup hq)
  exact hwords.word name (by simp [SetBoolProcessor.lineTokens])

/-- The condition of a function of such variables is well formed. -/
theorem wellFormed_guard {ψ : List Bool → Bool} (hne : names ≠ [])
    (hnames : ∀ name ∈ names, Usable f isRequest name) :
    (ConditionProcessor.ofFunction (.ofSide isRequest) names ψ).WellFormed
      (f.scope isRequest) :=
  ConditionProcessor.wellFormed_ofFunction hne (fun name hname => (hnames name hname).isDeclared)
    fun name hname => (hnames name hname).not_isOperator

/-- The guarded filter can be printed. -/
theorem Renderable.guard (h : Renderable E f) (hne : names ≠ [])
    (hnames : ∀ name ∈ names, Usable f isRequest name) :
    Renderable E (f.guard isRequest names φ) := by
  have hscope : (f.guard isRequest names φ).scope = f.scope :=
    scope_eq_of_sideSetBools (sideSetBools_guard f isRequest · names φ)
  have herror : (f.guard isRequest names φ).error = f.error := by
    cases isRequest <;> rfl
  refine ⟨herror.trans h.error, fun side => ?_, fun side b hb => ?_, fun side q hq => ?_⟩
  · rw [sideSetBools_guard]
    exact h.nodup side
  · rw [sideSetBools_guard] at hb
    exact h.definition side b hb
  · rw [hscope]
    rw [headerProcessors_guard] at hq
    split at hq
    · next hside =>
      subst hside
      obtain ⟨p, hp, rfl⟩ := List.mem_map.mp hq
      obtain ⟨hline, hwords⟩ := h.operation side p hp
      rw [guardProcessor]
      split
      · next ψ hψ =>
        have hwf : (ConditionProcessor.ofFunction (.ofSide side) names ψ).WellFormed
            (f.scope side) := wellFormed_guard hne hnames
        refine ⟨hline.withCondition (.conditional
          (ConditionProcessor.parseOperation_eq_accepted_iff.mpr ⟨rfl, hwf, rfl⟩)),
          HeaderProcessor.words_withCondition hwords _ ?_ nofun⟩
        -- the words of the condition come after `if`
        have hcondition := ConditionProcessor.words_conditionTokens hwf.isBinaryOperator
          (fun d hd => h.word_of_scope (hwf.declared d hd))
          fun d hd => (hnames d.1 (ConditionProcessor.mem_of_mem_ofFunction hd)).last
        obtain ⟨d, operands, hoperands⟩ := List.exists_cons_of_length_eq_add_one hwf.length_operands
        have hif : ∀ w ∈ [ifKeyword], w ≠ [] ∧ ' ' ∉ w ∧ '\n' ∉ w := by decide
        refine Words.append hif hcondition ?_
        rw [hoperands]
        exact ConditionProcessor.conditionTokens_cons_ne_nil _ _ _
      · exact ⟨hline, hwords⟩
    · exact h.operation side q hq

/-- The operations of a side can be guarded by any boolean functions of its variables: the guarded
filter is constructed from its printed form, and wherever the variables have values, the condition
of an operation has the value of its function. -/
theorem construct_guard (hstrings : E.StringLaws) (hf : construct E config = .returned f)
    (herror : f.error = false) (hne : names ≠ [])
    (hnames : ∀ name ∈ names, Usable f isRequest name) :
    let g := f.guard isRequest names φ
    construct E g.render = .returned g ∧
      ∀ p ∈ f.headerProcessors isRequest, ∀ ψ, φ p = some ψ →
        p.withCondition (some (.ofFunction (.ofSide isRequest) names ψ)) ∈
          g.headerProcessors isRequest ∧
        ∀ (st : StreamState M I) (value : Str → Bool),
          (∀ name ∈ names, ∃ q, (g.sideSetBools isRequest).lookup name = some q ∧
            q.executeOperation (DynamicFunctionProcessor.executeOperation E) st.headers
              st.streamInfo false = .returned (.ok, value name)) →
          evaluateCondition (DynamicFunctionProcessor.executeOperation E) g.setBoolProcessors
              (some (.ofFunction (.ofSide isRequest) names ψ)) st =
            .returned (.ok, ψ (names.map value)) := by
  have hrenderable := renderable_of_construct hstrings hf herror
  refine ⟨(hrenderable.guard hne hnames).construct_eq hstrings, fun p hp ψ hψ => ⟨?_, ?_⟩⟩
  · have hguarded : guardProcessor isRequest names φ p =
        p.withCondition (some (.ofFunction (.ofSide isRequest) names ψ)) := by
      rw [guardProcessor, hψ]
    rw [headerProcessors_guard, if_pos rfl, ← hguarded]
    exact List.mem_map_of_mem hp
  · intro st value hvalue
    have hwf : (ConditionProcessor.ofFunction (.ofSide isRequest) names ψ).WellFormed
        (f.scope isRequest) := wellFormed_guard hne hnames
    have hcondition := ConditionProcessor.executeOperation_ofFunction hne hwf hvalue
    simp only [evaluateCondition, hcondition, Outcome.bind_returned, ne_eq, not_true_eq_false,
      if_false, Outcome.pure_eq]

/-- An operation for requests with exactly one of two headers. -/
theorem construct_guard_xor :
    ∃ g c, construct Reference.envoy ("http-request set-bool b %[hdr(y)] -m found\n" ++
          "http-request set-bool a %[hdr(x)] -m found\n" ++
          "http-request set-header k v if a and not b or not a and b").toList = .returned g ∧
      (∃ p ∈ g.headerProcessors true, p.conditionProcessor = some c) ∧
      evaluateCondition (DynamicFunctionProcessor.executeOperation Reference.envoy)
          g.setBoolProcessors (some c) ⟨⟨true, [("x".toList, "1".toList)]⟩, some []⟩ =
        .returned (.ok, true) := by
  let st : StreamState (List (Str × Str)) (List (Str × List (Str × Reference.Value))) :=
    ⟨⟨true, [("x".toList, "1".toList)]⟩, some []⟩
  let names : List Str := ["a".toList, "b".toList]
  let ψ : List Bool → Bool := fun values => values = [true, false] ∨ values = [false, true]
  let value : Str → Bool := fun name => name = "a".toList
  let φ : HeaderProcessor → Option (List Bool → Bool) := fun _ => some ψ
  obtain ⟨f, hf, htest⟩ := Outcome.exists_of_returnsWith
    (show (construct Reference.envoy ("http-request set-bool b %[hdr(y)] -m found\n" ++
        "http-request set-bool a %[hdr(x)] -m found\n" ++
        "http-request set-header k v").toList).returnsWith
      (fun f => decide (f.error = false) &&
        names.all (fun name => f.scope true name &&
          (((f.guard true names φ).sideSetBools true).lookup name).any fun q =>
            decide (q.executeOperation
              (DynamicFunctionProcessor.executeOperation Reference.envoy) st.headers st.streamInfo
              false = .returned (.ok, value name))) &&
        !(f.headerProcessors true).isEmpty &&
        decide ((f.guard true names φ).render =
          ("http-request set-bool b %[hdr(y)] -m found\n" ++
            "http-request set-bool a %[hdr(x)] -m found\n" ++
            "http-request set-header k v if a and not b or not a and b").toList)) = true by
      decide +kernel)
  simp only [Bool.and_eq_true, decide_eq_true_eq, List.all_eq_true, Bool.not_eq_true'] at htest
  obtain ⟨⟨⟨herror, hnames⟩, hsome⟩, hrender⟩ := htest
  obtain ⟨p, processors, hprocessors⟩ :=
    List.exists_cons_of_ne_nil (List.isEmpty_eq_false_iff.mp hsome)
  have hp : p ∈ f.headerProcessors true := hprocessors ▸ List.mem_cons_self
  have hcases : ∀ name ∈ names, name = "a".toList ∨ name = "b".toList := by
    simp [names]
  have husable : ∀ name ∈ names, Usable f true name := by
    intro name hname
    refine ⟨(hnames name hname).1, ?_, fun c hc => ?_⟩
    · rcases hcases name hname with rfl | rfl <;> decide
    · rcases hcases name hname with rfl | rfl <;>
        obtain rfl := Option.some.inj hc <;>
        rfl
  obtain ⟨hconstruct, hconditions⟩ := @construct_guard _ _ _ f true names φ _
    Reference.stringLaws hf herror (List.cons_ne_nil _ _) husable
  obtain ⟨hmem, hvalue⟩ := hconditions p hp ψ rfl
  rw [hrender] at hconstruct
  refine ⟨_, _, hconstruct, ⟨_, hmem, by cases p <;> rfl⟩, ?_⟩
  refine (hvalue st value fun name hname => ?_).trans rfl
  simpa [Option.any_eq_true] using (hnames name hname).2

end Guard

end HttpHeaderRewriteFilter

end HeaderRewrite
