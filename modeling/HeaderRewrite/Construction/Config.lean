import HeaderRewrite.Construction.Line
import HeaderRewrite.Envoy.Reference

/-!
# A whole configuration

The constructor goes through the lines in order and stops at the first that it does not accept.
`Constructs` relates the filters before and after lines that are all accepted; everything about
what the constructor builds follows from it by induction on the lines. `Conforms` is the grammar of
a configuration, with the names declared so far on each side.

## Main definitions

* `Scope`, `Conforms`: the grammar;
* `HttpHeaderRewriteFilter.Constructs`: what accepted lines build.

## Main results

* `HttpHeaderRewriteFilter.error_eq_false_iff_conforms`: the accepted configurations;
* `HttpHeaderRewriteFilter.construct_returns_iff`: the configurations on which the constructor
  returns;
* `HttpHeaderRewriteFilter.Constructs.lookup_eq_some_iff`: the variables of the filter;
* `HttpHeaderRewriteFilter.Constructs.exists_line`: the operations of the filter.
-/

namespace HeaderRewrite

open Cxx Utility

variable {M I : Type}

/-! ## The grammar -/

/-- The names of boolean variables that are declared, for each side. -/
abbrev Scope := Bool → Str → Bool

namespace Scope

/-- No names. -/
def empty : Scope := fun _ _ => false

/-- One more name of a side. -/
def declare (scope : Scope) (isRequest : Bool) (name : Str) : Scope :=
  fun isRequest' name' => (isRequest' = isRequest && name' = name) || scope isRequest' name'

end Scope

/-- The lines of a configuration are operations and definitions of boolean variables. A condition
refers to variables of its side that earlier lines define, and no variable is defined twice on a
side. -/
inductive Conforms (E : Envoy M I) : Scope → List (List Str) → Prop
  | nil {scope : Scope} : Conforms E scope []
  | operation {scope : Scope} {isRequest : Bool} {tokens : List Str} {lines : List (List Str)}
      {p : HeaderProcessor} :
      OperationLine E (scope isRequest) isRequest tokens p → Conforms E scope lines →
      Conforms E scope (tokens :: lines)
  | definition {scope : Scope} {isRequest : Bool} {tokens : List Str} {lines : List (List Str)}
      {name : Str} {p : SetBoolProcessor} :
      DefinitionLine E isRequest tokens name p → scope isRequest name = false →
      Conforms E (scope.declare isRequest name) lines → Conforms E scope (tokens :: lines)

namespace HttpHeaderRewriteFilter

variable {E : Envoy M I} {f f' g : HttpHeaderRewriteFilter} {lines : List (List Str)}

@[simp] theorem scope_init : init.scope = Scope.empty := by
  funext isRequest name
  cases isRequest <;> rfl

@[simp] theorem sideSetBools_pushProcessor (f : HttpHeaderRewriteFilter) (isRequest : Bool)
    (p : HeaderProcessor) (isRequest' : Bool) :
    (f.pushProcessor isRequest p).sideSetBools isRequest' = f.sideSetBools isRequest' := by
  cases isRequest <;> cases isRequest' <;> rfl

@[simp] theorem scope_pushProcessor (f : HttpHeaderRewriteFilter) (isRequest : Bool)
    (p : HeaderProcessor) : (f.pushProcessor isRequest p).scope = f.scope := by
  funext isRequest' name
  simp [scope]

@[simp] theorem error_pushProcessor (f : HttpHeaderRewriteFilter) (isRequest : Bool)
    (p : HeaderProcessor) : (f.pushProcessor isRequest p).error = f.error := by
  cases isRequest <;> rfl

theorem headerProcessors_pushProcessor (f : HttpHeaderRewriteFilter) (isRequest : Bool)
    (p : HeaderProcessor) (isRequest' : Bool) :
    (f.pushProcessor isRequest p).headerProcessors isRequest' =
      f.headerProcessors isRequest' ++ if isRequest' = isRequest then [p] else [] := by
  cases isRequest <;> cases isRequest' <;> simp [pushProcessor, headerProcessors]

theorem sideSetBools_declare (f : HttpHeaderRewriteFilter) (isRequest : Bool) (name : Str)
    (p : SetBoolProcessor) (isRequest' : Bool) :
    (f.declare isRequest name p).sideSetBools isRequest' =
      if isRequest' = isRequest then (name, p) :: f.sideSetBools isRequest'
      else f.sideSetBools isRequest' := by
  cases isRequest <;> cases isRequest' <;> rfl

@[simp] theorem scope_declare (f : HttpHeaderRewriteFilter) (isRequest : Bool) (name : Str)
    (p : SetBoolProcessor) :
    (f.declare isRequest name p).scope = Scope.declare f.scope isRequest name := by
  funext isRequest' name'
  by_cases hside : isRequest' = isRequest
  · by_cases hname : name' = name
    · simp [scope, Scope.declare, sideSetBools_declare, hside, hname]
    · simp [scope, Scope.declare, sideSetBools_declare, hside, hname, List.lookup_cons,
        beq_false_of_ne hname]
  · simp [scope, Scope.declare, sideSetBools_declare, hside]

@[simp] theorem error_declare (f : HttpHeaderRewriteFilter) (isRequest : Bool) (name : Str)
    (p : SetBoolProcessor) : (f.declare isRequest name p).error = f.error := by
  cases isRequest <;> rfl

@[simp] theorem headerProcessors_declare (f : HttpHeaderRewriteFilter) (isRequest : Bool)
    (name : Str) (p : SetBoolProcessor) (isRequest' : Bool) :
    (f.declare isRequest name p).headerProcessors isRequest' = f.headerProcessors isRequest' := by
  cases isRequest <;> cases isRequest' <;> rfl

/-! ## Accepted lines -/

/-- The filter that lines, all of them accepted, make of a filter. -/
inductive Constructs (E : Envoy M I) :
    HttpHeaderRewriteFilter → List (List Str) → HttpHeaderRewriteFilter → Prop
  | nil {f : HttpHeaderRewriteFilter} : Constructs E f [] f
  | operation {f g : HttpHeaderRewriteFilter} {isRequest : Bool} {tokens : List Str}
      {lines : List (List Str)} {p : HeaderProcessor} :
      OperationLine E (f.scope isRequest) isRequest tokens p →
      Constructs E (f.pushProcessor isRequest p) lines g → Constructs E f (tokens :: lines) g
  | definition {f g : HttpHeaderRewriteFilter} {isRequest : Bool} {tokens : List Str}
      {lines : List (List Str)} {name : Str} {p : SetBoolProcessor} :
      DefinitionLine E isRequest tokens name p → f.scope isRequest name = false →
      Constructs E (f.declare isRequest name p) lines g → Constructs E f (tokens :: lines) g

namespace Constructs

theorem cons_iff {tokens : List Str} :
    Constructs E f (tokens :: lines) g ↔
      ∃ f', processTokens E f tokens = .accepted f' ∧ Constructs E f' lines g := by
  constructor
  · rintro (_ | ⟨hline, hrest⟩ | ⟨hline, hname, hrest⟩)
    · exact ⟨_, processTokens_eq_accepted_iff.mpr ⟨_, Or.inl ⟨_, hline, rfl⟩⟩, hrest⟩
    · exact ⟨_, processTokens_eq_accepted_iff.mpr ⟨_, Or.inr ⟨_, _, hline, hname, rfl⟩⟩, hrest⟩
  · rintro ⟨f', hline, hrest⟩
    rcases processTokens_eq_accepted_iff.mp hline with
      ⟨isRequest, ⟨p, hoperation, rfl⟩ | ⟨name, p, hdefinition, hname, rfl⟩⟩
    · exact .operation hoperation hrest
    · exact .definition hdefinition hname hrest

theorem append (h : Constructs E f lines f') {lines' : List (List Str)}
    (h' : Constructs E f' lines' g) : Constructs E f (lines ++ lines') g := by
  induction h with
  | nil => exact h'
  | operation hline _ ih => exact .operation hline (ih h')
  | definition hline hname _ ih => exact .definition hline hname (ih h')

theorem error_eq (h : Constructs E f lines g) : g.error = f.error := by
  induction h with
  | nil => rfl
  | operation _ _ ih => rw [ih, error_pushProcessor]
  | definition _ _ _ ih => rw [ih, error_declare]

/-- Accepted lines are processed, and then the lines after them. -/
theorem processLines_append (h : Constructs E f lines g) (rest : List (List Str)) :
    processLines E f (lines ++ rest) = processLines E g rest := by
  induction lines generalizing f with
  | nil =>
    cases h
    rfl
  | cons tokens lines ih =>
    obtain ⟨f', hline, hrest⟩ := cons_iff.mp h
    rw [List.cons_append, processLines, hline]
    exact ih hrest

end Constructs

/-- Lines that conform to the grammar are those that are accepted. -/
theorem conforms_iff_constructs :
    Conforms E f.scope lines ↔ ∃ g, Constructs E f lines g := by
  constructor
  · intro h
    generalize hscope : f.scope = scope at h
    -- by induction on the derivation; each line extends the scope as it extends the filter
    induction h generalizing f with
    | nil => exact ⟨f, .nil⟩
    | operation hline _ ih =>
      subst hscope
      obtain ⟨g, hg⟩ := ih (scope_pushProcessor f _ _)
      exact ⟨g, .operation hline hg⟩
    | definition hline hname _ ih =>
      subst hscope
      obtain ⟨g, hg⟩ := ih (scope_declare f _ _ _)
      exact ⟨g, .definition hline hname hg⟩
  · rintro ⟨g, h⟩
    induction h with
    | nil => exact .nil
    | operation hline _ ih =>
      rw [scope_pushProcessor] at ih
      exact .operation hline ih
    | definition hline hname _ ih =>
      rw [scope_declare] at ih
      exact .definition hline hname ih

/-- Either all lines are accepted, or the constructor stops at a first line that is not. -/
theorem constructs_or_stops (E : Envoy M I) (f : HttpHeaderRewriteFilter)
    (lines : List (List Str)) :
    (∃ g, Constructs E f lines g) ∨
      ∃ accepted tokens rest g, lines = accepted ++ tokens :: rest ∧
        Constructs E f accepted g ∧ ∀ g', processTokens E g tokens ≠ .accepted g' := by
  induction lines generalizing f with
  | nil => exact Or.inl ⟨f, .nil⟩
  | cons tokens lines ih =>
    -- if this line is accepted, the rest decides; if not, it is the line to stop at
    by_cases hline : ∃ f', processTokens E f tokens = .accepted f'
    · obtain ⟨f', hf'⟩ := hline
      rcases ih f' with ⟨g, hg⟩ | ⟨accepted, stop, rest, g, rfl, hg, hstop⟩
      · exact Or.inl ⟨g, Constructs.cons_iff.mpr ⟨f', hf', hg⟩⟩
      · exact Or.inr ⟨tokens :: accepted, stop, rest, g, rfl,
          Constructs.cons_iff.mpr ⟨f', hf', hg⟩, hstop⟩
    · exact Or.inr ⟨[], tokens, lines, f, rfl, .nil, fun g' hg' => hline ⟨g', hg'⟩⟩

/-- Lines that are not all accepted do not conform. -/
theorem not_conforms_of_stops {accepted rest : List (List Str)} {tokens : List Str}
    (h : Constructs E f accepted g) (hstop : ∀ g', processTokens E g tokens ≠ .accepted g') :
    ¬ ∃ g', Constructs E f (accepted ++ tokens :: rest) g' := by
  induction accepted generalizing f with
  | nil =>
    cases h
    rintro ⟨g', hg'⟩
    obtain ⟨f', hf', -⟩ := Constructs.cons_iff.mp hg'
    exact hstop f' hf'
  | cons line accepted ih =>
    obtain ⟨f', hf', hrest⟩ := Constructs.cons_iff.mp h
    rintro ⟨g', hg'⟩
    obtain ⟨f'', hf'', hrest'⟩ := Constructs.cons_iff.mp hg'
    -- both derivations go through the same filter, as a line has one result
    obtain rfl := Parse.accepted.inj (hf'.symm.trans hf'')
    exact ih hrest ⟨g', hrest'⟩

/-- How the constructor ends: it accepts all lines, or stops at a line that it rejects, or throws at
a line of the two tokens `side set-bool`. -/
theorem processLines_cases (E : Envoy M I) (f : HttpHeaderRewriteFilter)
    (lines : List (List Str)) :
    (∃ g, Constructs E f lines g ∧ processLines E f lines = .returned g) ∨
      (¬ Conforms E f.scope lines ∧ ∃ accepted rest g, lines = accepted ++ rest ∧
        Constructs E f accepted g ∧
        processLines E f lines = .returned { g with error := true }) ∨
      ∃ accepted isRequest rest g,
        lines = accepted ++ [sideKeyword isRequest, operationSetBool] :: rest ∧
        Constructs E f accepted g ∧
        processLines E f lines = .threw ⟨.outOfRange, "vector::_M_range_check"⟩ := by
  rcases constructs_or_stops E f lines with
    ⟨g, hg⟩ | ⟨accepted, tokens, rest, g, rfl, hg, hstop⟩
  · refine Or.inl ⟨g, hg, ?_⟩
    have hprocess := hg.processLines_append []
    rw [List.append_nil] at hprocess
    exact hprocess
  -- what the constructor does at the line where it stops is what it returns
  · right
    rw [hg.processLines_append, processLines]
    -- the two tokens `side set-bool` are the only line that is neither accepted nor rejected
    by_cases hbare : ∃ isRequest, tokens = [sideKeyword isRequest, operationSetBool]
    · obtain ⟨isRequest, rfl⟩ := hbare
      refine Or.inr ⟨accepted, isRequest, rest, g, rfl, hg, ?_⟩
      rw [processTokens_bareSetBool]
    · have hsettles : (processTokens E g tokens).Settles :=
        processTokens_settles fun isRequest h => hbare ⟨isRequest, h⟩
      rcases hsettles.cases with ⟨g', hg'⟩ | ⟨message, hrejected⟩
      · exact (hstop g' hg').elim
      · refine Or.inl ⟨?_, accepted, tokens :: rest, g, rfl, hg, ?_⟩
        · rw [conforms_iff_constructs]
          exact not_conforms_of_stops hg hstop
        · rw [hrejected]

/-! ## What accepted lines build -/

/-- The lines of a side that are not definitions. -/
def isOperationLine (isRequest : Bool) (tokens : List Str) : Bool :=
  tokens[0]? = some (sideKeyword isRequest) && tokens[1]? ≠ some operationSetBool

/-- The lines that define a variable of a side. -/
def isDefinitionOf (isRequest : Bool) (name : Str) (tokens : List Str) : Bool :=
  tokens[0]? = some (sideKeyword isRequest) && tokens[1]? = some operationSetBool &&
    tokens[2]? = some name

theorem isOperationLine_of_operationLine {declared : Str → Bool} {isRequest : Bool}
    {tokens : List Str} {p : HeaderProcessor} (h : OperationLine E declared isRequest tokens p)
    (isRequest' : Bool) : isOperationLine isRequest' tokens = decide (isRequest' = isRequest) := by
  obtain ⟨op, rest, rfl, hop⟩ := h.exists_eq
  have hne : op ≠ operationSetBool := fun heq => hop (heq ▸ stringToOperationType_setBool)
  have hside : sideKeyword isRequest = sideKeyword isRequest' ↔ isRequest' = isRequest :=
    ⟨fun heq => (sideKeyword_injective heq).symm, fun heq => by rw [heq]⟩
  simp [isOperationLine, hne, hside]

theorem isOperationLine_of_definitionLine {isRequest : Bool} {tokens : List Str} {name : Str}
    {p : SetBoolProcessor} (h : DefinitionLine E isRequest tokens name p) (isRequest' : Bool) :
    isOperationLine isRequest' tokens = false := by
  obtain ⟨rest, rfl⟩ := h.exists_eq
  simp [isOperationLine]

theorem isDefinitionOf_of_operationLine {declared : Str → Bool} {isRequest : Bool}
    {tokens : List Str} {p : HeaderProcessor} (h : OperationLine E declared isRequest tokens p)
    (isRequest' : Bool) (name : Str) : isDefinitionOf isRequest' name tokens = false := by
  obtain ⟨op, rest, rfl, hop⟩ := h.exists_eq
  have hne : op ≠ operationSetBool := fun heq => hop (heq ▸ stringToOperationType_setBool)
  simp [isDefinitionOf, hne]

theorem isDefinitionOf_of_definitionLine {isRequest : Bool} {tokens : List Str} {name : Str}
    {p : SetBoolProcessor} (h : DefinitionLine E isRequest tokens name p) (isRequest' : Bool)
    (name' : Str) : isDefinitionOf isRequest' name' tokens = true ↔
      isRequest' = isRequest ∧ name' = name := by
  obtain ⟨rest, rfl⟩ := h.exists_eq
  have hside : sideKeyword isRequest = sideKeyword isRequest' ↔ isRequest' = isRequest :=
    ⟨fun heq => (sideKeyword_injective heq).symm, fun heq => by rw [heq]⟩
  simp [isDefinitionOf, hside, @eq_comm _ name' name]

namespace Constructs

theorem scope_mono (h : Constructs E f lines g) {isRequest : Bool} {name : Str}
    (hname : f.scope isRequest name = true) : g.scope isRequest name = true := by
  induction h with
  | nil => exact hname
  | operation _ _ ih => exact ih (by rwa [scope_pushProcessor])
  | definition _ _ _ ih => exact ih (by simp [Scope.declare, hname])

/-- A declared variable keeps its definition. -/
theorem lookup_mono (h : Constructs E f lines g) {isRequest : Bool} {name : Str}
    {p : SetBoolProcessor} (hname : (f.sideSetBools isRequest).lookup name = some p) :
    (g.sideSetBools isRequest).lookup name = some p := by
  induction h with
  | nil => exact hname
  | operation _ _ ih => exact ih (by rwa [sideSetBools_pushProcessor])
  | @definition f g isRequest' tokens lines name' p' _ hnew _ ih =>
    refine ih ?_
    rw [sideSetBools_declare]
    split
    · next hside =>
      -- the new definition is in front, but its name was not declared before
      have hne : name ≠ name' := by
        rintro rfl
        rw [scope, ← hside, hname] at hnew
        cases hnew
      rw [List.lookup_cons, beq_false_of_ne hne]
      exact hname
    · exact hname

/-- The variables of the filter are those that lines define. -/
theorem lookup_eq_some_iff (h : Constructs E f lines g) {isRequest : Bool} {name : Str}
    {p : SetBoolProcessor} :
    (g.sideSetBools isRequest).lookup name = some p ↔
      (f.sideSetBools isRequest).lookup name = some p ∨
        ∃ tokens ∈ lines, DefinitionLine E isRequest tokens name p := by
  induction h with
  | nil => simp
  | operation hline _ ih =>
    rw [ih, sideSetBools_pushProcessor]
    simp [hline.not_definitionLine name p]
  | @definition f g isRequest' tokens lines name' p' hline hnew _ ih =>
    rw [ih, sideSetBools_declare]
    -- the first line adds its own definition and nothing else
    have htokens : DefinitionLine E isRequest tokens name p ↔
        isRequest = isRequest' ∧ name = name' ∧ p = p' := by
      constructor
      · intro h
        exact h.unique hline
      · rintro ⟨rfl, rfl, rfl⟩
        exact hline
    simp only [List.mem_cons, exists_eq_or_imp, htokens]
    by_cases hside : isRequest = isRequest'
    · subst hside
      by_cases hname : name = name'
      · subst hname
        -- the name was new, so that nothing that was there before is hidden
        have hnone : (f.sideSetBools isRequest).lookup name = none := by
          rwa [scope, Option.isSome_eq_false_iff, Option.isNone_iff_eq_none] at hnew
        simp [hnone, eq_comm]
      · simp [hname, List.lookup_cons, beq_false_of_ne hname]
    · simp [hside]

/-- The names declared are those declared before and those of the definitions. -/
theorem scope_eq (h : Constructs E f lines g) (isRequest : Bool) (name : Str) :
    g.scope isRequest name =
      (f.scope isRequest name || lines.any (isDefinitionOf isRequest name)) := by
  induction h with
  | nil => simp
  | operation hline _ ih =>
    rw [ih, scope_pushProcessor, List.any_cons, isDefinitionOf_of_operationLine hline,
      Bool.false_or]
  | @definition f g isRequest' tokens lines name' p hline _ _ ih =>
    have htokens := isDefinitionOf_of_definitionLine hline isRequest name
    rw [ih, scope_declare, List.any_cons, ← Bool.or_assoc]
    congr 1
    -- the declared name is the one that the line defines
    rw [Bool.or_comm, Scope.declare]
    congr 1
    rw [Bool.eq_iff_iff, htokens]
    simp

/-- Lines do not define what is declared before them. -/
theorem isDefinitionOf_eq_false (h : Constructs E f lines g) {isRequest : Bool} {name : Str}
    (hname : f.scope isRequest name = true) {tokens : List Str} (htokens : tokens ∈ lines) :
    isDefinitionOf isRequest name tokens = false := by
  induction h with
  | nil => cases htokens
  | operation hline _ ih =>
    rcases List.mem_cons.mp htokens with rfl | htokens
    · exact isDefinitionOf_of_operationLine hline isRequest name
    · exact ih (by rwa [scope_pushProcessor]) htokens
  | definition hline hnew _ ih =>
    rcases List.mem_cons.mp htokens with rfl | htokens
    · rw [Bool.eq_false_iff, ne_eq, isDefinitionOf_of_definitionLine hline]
      rintro ⟨rfl, rfl⟩
      cases hname.symm.trans hnew
    · exact ih (by simp [Scope.declare, hname]) htokens

/-- A variable is defined by one line only. -/
theorem filter_isDefinitionOf (h : Constructs E f lines g) {isRequest : Bool} {name : Str}
    {p : SetBoolProcessor} (hnew : (f.sideSetBools isRequest).lookup name = none)
    (hname : (g.sideSetBools isRequest).lookup name = some p) :
    ∃ tokens, lines.filter (isDefinitionOf isRequest name) = [tokens] ∧
      DefinitionLine E isRequest tokens name p := by
  induction h with
  | nil => cases hnew.symm.trans hname
  | operation hline _ ih =>
    rw [List.filter_cons_of_neg (by simp [isDefinitionOf_of_operationLine hline])]
    exact ih (by rwa [sideSetBools_pushProcessor]) hname
  | @definition f g isRequest' tokens lines name' p' hline hdeclared hrest ih =>
    have htokens := isDefinitionOf_of_definitionLine hline isRequest name
    -- either the first line is the definition, or it is one of the rest
    by_cases hthis : isRequest = isRequest' ∧ name = name'
    · obtain ⟨rfl, rfl⟩ := hthis
      have hp : ((f.declare isRequest name p').sideSetBools isRequest).lookup name = some p' := by
        simp [sideSetBools_declare]
      obtain rfl := Option.some.inj ((hrest.lookup_mono hp).symm.trans hname)
      have hscope : (f.declare isRequest name p').scope isRequest name = true := by
        simp [Scope.declare]
      -- the name is declared from here on, so that no later line defines it again
      have hother : lines.filter (isDefinitionOf isRequest name) = [] := by
        rw [List.filter_eq_nil_iff]
        intro tokens' htokens'
        simp [hrest.isDefinitionOf_eq_false hscope htokens']
      refine ⟨tokens, ?_, hline⟩
      rw [List.filter_cons_of_pos (htokens.mpr ⟨rfl, rfl⟩), hother]
    · rw [List.filter_cons_of_neg (fun h => hthis (htokens.mp h))]
      refine ih ?_ hname
      rw [sideSetBools_declare]
      split
      · next hside =>
        have hne : name ≠ name' := fun heq => hthis ⟨hside, heq⟩
        rw [List.lookup_cons, beq_false_of_ne hne]
        exact hnew
      · exact hnew

/-- Every operation of the filter comes from a line, and its condition was checked against the
variables declared before that line. -/
theorem exists_line (h : Constructs E f lines g) {isRequest : Bool} {p : HeaderProcessor}
    (hp : p ∈ g.headerProcessors isRequest) :
    p ∈ f.headerProcessors isRequest ∨
      ∃ before tokens after f', lines = before ++ tokens :: after ∧
        Constructs E f before f' ∧ OperationLine E (f'.scope isRequest) isRequest tokens p ∧
        Constructs E (f'.pushProcessor isRequest p) after g := by
  induction h with
  | nil => exact Or.inl hp
  | @operation f g isRequest' tokens lines p' hline hrest ih =>
    rcases ih hp with hmem | ⟨before, tokens', after, f', rfl, hbefore, hline', hafter⟩
    -- already there after the first line: from before, or made by that line
    · rw [headerProcessors_pushProcessor, List.mem_append] at hmem
      rcases hmem with hmem | hmem
      · exact Or.inl hmem
      · split at hmem
        · next hside =>
          obtain rfl := List.mem_singleton.mp hmem
          subst hside
          exact Or.inr ⟨[], tokens, lines, f, rfl, .nil, hline, hrest⟩
        · cases hmem
    · exact Or.inr ⟨tokens :: before, tokens', after, f', rfl, .operation hline hbefore, hline',
        hafter⟩
  | @definition f g isRequest' tokens lines name p' hline hname hrest ih =>
    rcases ih hp with hmem | ⟨before, tokens', after, f', rfl, hbefore, hline', hafter⟩
    · rw [headerProcessors_declare] at hmem
      exact Or.inl hmem
    · exact Or.inr ⟨tokens :: before, tokens', after, f', rfl, .definition hline hname hbefore,
        hline', hafter⟩

/-- The operations of a side are those of its lines other than definitions, in their order. -/
theorem headerProcessors_eq (h : Constructs E f lines g) (isRequest : Bool) :
    ∃ processors, g.headerProcessors isRequest = f.headerProcessors isRequest ++ processors ∧
      List.Forall₂ (OperationLine E (g.scope isRequest) isRequest)
        (lines.filter (isOperationLine isRequest)) processors := by
  induction h with
  | nil => exact ⟨[], by simp, .nil⟩
  | @operation f g isRequest' tokens lines p hline hrest ih =>
    obtain ⟨processors, hprocessors, hforall⟩ := ih
    rw [headerProcessors_pushProcessor, List.append_assoc] at hprocessors
    refine ⟨_, hprocessors, ?_⟩
    rw [List.filter_cons, isOperationLine_of_operationLine hline]
    by_cases hside : isRequest = isRequest'
    · subst hside
      simp only [decide_true, if_true, List.cons_append, List.nil_append]
      -- the condition was checked against fewer variables than are declared at the end
      refine .cons (hline.mono fun name hname => ?_) hforall
      exact hrest.scope_mono (by rwa [scope_pushProcessor])
    · simpa [hside] using hforall
  | @definition f g isRequest' tokens lines name p hline hname hrest ih =>
    obtain ⟨processors, hprocessors, hforall⟩ := ih
    rw [headerProcessors_declare] at hprocessors
    refine ⟨_, hprocessors, ?_⟩
    rwa [List.filter_cons_of_neg (by simp [isOperationLine_of_definitionLine hline])]

end Constructs

/-! ## The constructor -/

/-- The constructor finishes without an error exactly if it accepts all lines. -/
theorem accepted_iff_constructs {config : Str} :
    construct E config = .returned f ∧ f.error = false ↔
      Constructs E init (configLines E config) f := by
  constructor
  · rintro ⟨hconstruct, herror⟩
    rcases processLines_cases E init (configLines E config) with
      ⟨g, hg, hreturned⟩ | ⟨-, _, _, g, -, -, hreturned⟩ | ⟨_, _, _, g, -, -, hthrew⟩
    · obtain rfl := Outcome.returned.inj (hconstruct.symm.trans hreturned)
      exact hg
    · obtain rfl := Outcome.returned.inj (hconstruct.symm.trans hreturned)
      cases herror
    · cases hconstruct.symm.trans hthrew
  · intro h
    have hprocess := h.processLines_append []
    rw [List.append_nil] at hprocess
    exact ⟨hprocess, h.error_eq⟩

/-- The constructor finishes without an error exactly on the configurations whose lines conform to
the grammar, and a filter with an error leaves all headers and metadata as they are. -/
theorem error_eq_false_iff_conforms (hstrings : E.StringLaws) (config : Str) :
    ((∃ f, construct E config = .returned f ∧ f.error = false) ↔
      Conforms E Scope.empty
        ((splitText "\n" true config).map fun line => splitText " " false line)) ∧
      ∀ f, construct E config = .returned f → f.error = true → ∀ headers streamInfo,
        decodeHeaders E f headers streamInfo = .returned ⟨⟨true, headers⟩, some streamInfo⟩ ∧
        encodeHeaders E f headers streamInfo = .returned ⟨⟨false, headers⟩, some streamInfo⟩ := by
  constructor
  -- the tokenizer of the library splits as the specification does
  · have hlines : (splitText "\n" true config).map (fun line => splitText " " false line) =
        configLines E config := by
      simp only [configLines, hstrings.splitToken_eq]
      rfl
    rw [hlines, ← scope_init, conforms_iff_constructs]
    exact exists_congr fun f => accepted_iff_constructs
  · intro f _ herror headers streamInfo
    -- the filter with an error returns before it looks at any operation
    simp only [decodeHeaders, encodeHeaders, executeHeaders, herror, if_true, and_self]

/-- The lines of two configurations, one that conforms to the grammar and one that does not. -/
theorem error_eq_false_iff_conforms_reference :
    (∃ f, construct Reference.envoy "http-request set-path /a".toList = .returned f ∧
        f.error = false) ∧
      ¬ Conforms Reference.envoy Scope.empty
        ((splitText "\n" true "http-response set-path /a".toList).map
          fun line => splitText " " false line) := by
  refine ⟨⟨_, rfl, rfl⟩, fun h => ?_⟩
  obtain ⟨f, hf, herror⟩ := (error_eq_false_iff_conforms Reference.stringLaws
    "http-response set-path /a".toList).1.mpr h
  obtain rfl := Outcome.returned.inj hf
  cases herror

/-- The constructor returns, and with an error where the lines do not conform to the grammar,
exactly if no line of the two tokens `side set-bool` comes right after lines that do. It never runs
into undefined behavior. -/
theorem construct_returns_iff (config : Str) :
    (((∃ f, construct E config = .returned f ∧
          (¬ Conforms E Scope.empty (configLines E config) → f.error = true)) ∧
        ∀ u, construct E config ≠ .undefined u) ↔
      ¬ ∃ accepted isRequest rest,
        configLines E config = accepted ++ [sideKeyword isRequest, operationSetBool] :: rest ∧
          Conforms E Scope.empty accepted) := by
  rw [← scope_init]
  -- the other direction: after lines that are all accepted, the two tokens throw
  have hstops : (∃ accepted isRequest rest,
      configLines E config = accepted ++ [sideKeyword isRequest, operationSetBool] :: rest ∧
        Conforms E init.scope accepted) →
      construct E config = .threw ⟨.outOfRange, "vector::_M_range_check"⟩ := by
    rintro ⟨accepted, isRequest, rest, hlines, hconforms⟩
    obtain ⟨g, hg⟩ := conforms_iff_constructs.mp hconforms
    rw [construct, hlines, hg.processLines_append, processLines, processTokens_bareSetBool]
  rcases processLines_cases E init (configLines E config) with
    ⟨g, hg, hreturned⟩ | ⟨-, accepted, rest, g, hlines, hg, hreturned⟩ |
      ⟨accepted, isRequest, rest, g, hlines, hg, hthrew⟩
  · refine iff_of_true ⟨⟨g, hreturned, fun h => ?_⟩, fun u hu => ?_⟩ fun h => ?_
    · exact (h (conforms_iff_constructs.mpr ⟨g, hg⟩)).elim
    · cases hu.symm.trans hreturned
    · cases (hstops h).symm.trans hreturned
  · refine iff_of_true ⟨⟨_, hreturned, fun _ => rfl⟩, fun u hu => ?_⟩ fun h => ?_
    · cases hu.symm.trans hreturned
    · cases (hstops h).symm.trans hreturned
  · refine iff_of_false ?_ fun h => h ?_
    · rintro ⟨⟨f, hf, -⟩, -⟩
      cases hf.symm.trans hthrew
    · exact ⟨accepted, isRequest, rest, hlines, conforms_iff_constructs.mpr ⟨g, hg⟩⟩

/-- On the line of the two tokens `http-request set-bool` the name of the variable is read before
the number of tokens is checked. -/
theorem not_construct_returns_bareSetBool :
    ¬ ((∃ f, construct Reference.envoy "http-request set-bool".toList = .returned f ∧
          (¬ Conforms Reference.envoy Scope.empty
            (configLines Reference.envoy "http-request set-bool".toList) → f.error = true)) ∧
        ∀ u, construct Reference.envoy "http-request set-bool".toList ≠ .undefined u) := by
  have hthrew : construct Reference.envoy "http-request set-bool".toList =
      .threw ⟨.outOfRange, "vector::_M_range_check"⟩ := rfl
  rintro ⟨⟨f, hf, -⟩, -⟩
  cases hf.symm.trans hthrew

end HttpHeaderRewriteFilter

end HeaderRewrite
