import HeaderRewrite.Construction.Config

/-!
# The invariant of the constructor

After every line that the constructor processes, what it has built is well formed, side by side:
operands belong to the side they are executed on, conditions refer to variables of that side, and
`set-path` is on the request side.

## Main definitions

* `HttpHeaderRewriteFilter.SideWellFormed`: the invariant, for one side.

## Main results

* `HttpHeaderRewriteFilter.Constructs.sideWellFormed`: accepted lines keep it;
* `HttpHeaderRewriteFilter.sideWellFormed_of_processLines`: it holds after every line.
-/

namespace HeaderRewrite.HttpHeaderRewriteFilter

open Cxx Utility

variable {M I : Type}

/-- What the constructor guarantees about the operations and variables of a side. -/
structure SideWellFormed (E : Envoy M I) (f : HttpHeaderRewriteFilter) (isRequest : Bool) :
    Prop where
  /-- The operands of operations are well formed and belong to the side. -/
  operand : ∀ p ∈ f.headerProcessors isRequest, ∀ d ∈ p.operands,
    d.WellFormed E ∧ d.toProcessor = .ofSide isRequest
  /-- Only the request side sets the path. -/
  setPath : ∀ p ∈ f.headerProcessors isRequest, ∀ q, p = .setPath q → isRequest = true
  /-- Conditions are well formed and refer to declared variables of the side. -/
  condition : ∀ p ∈ f.headerProcessors isRequest, ∀ c, p.conditionProcessor = some c →
    c.toProcessor = .ofSide isRequest ∧ c.WellFormed (f.scope isRequest)
  /-- The operands of variables are well formed and belong to the side. -/
  variableOperand : ∀ b ∈ f.sideSetBools isRequest, ∀ d ∈ b.2.operands,
    d.WellFormed E ∧ d.toProcessor = .ofSide isRequest

variable {E : Envoy M I} {f g : HttpHeaderRewriteFilter} {isRequest : Bool}

theorem sideWellFormed_init (E : Envoy M I) (isRequest : Bool) :
    SideWellFormed E init isRequest := by
  cases isRequest <;> constructor <;> simp [init, headerProcessors, sideSetBools,
    setBoolProcessors, Processor.ofSide]

/-- The invariant does not depend on the error flag. -/
theorem SideWellFormed.withError (h : SideWellFormed E f isRequest) (error : Bool) :
    SideWellFormed E { f with error } isRequest := by
  cases isRequest
  · exact ⟨h.operand, h.setPath, h.condition, h.variableOperand⟩
  · exact ⟨h.operand, h.setPath, h.condition, h.variableOperand⟩

theorem mem_of_lookup {map : SetBoolProcessorMap} {name : Str} {q : SetBoolProcessor}
    (h : map.lookup name = some q) : (name, q) ∈ map := by
  obtain ⟨before, after, rfl, -⟩ := List.lookup_eq_some_iff.mp h
  simp

/-- Where no variable is defined twice, the map is known by what is found in it. -/
theorem mem_iff_lookup {map : SetBoolProcessorMap} (hnodup : (map.map Prod.fst).Nodup)
    {name : Str} {q : SetBoolProcessor} : (name, q) ∈ map ↔ map.lookup name = some q := by
  refine ⟨fun hmem => ?_, mem_of_lookup⟩
  obtain ⟨before, after, rfl⟩ := List.append_of_mem hmem
  refine List.lookup_eq_some_iff.mpr ⟨before, after, rfl, fun b hb => ?_⟩
  -- the name is not among those before it
  rw [List.map_append, List.map_cons, List.nodup_append] at hnodup
  have hne := hnodup.2.2 b.1 (List.mem_map_of_mem hb) name List.mem_cons_self
  simpa using hne.symm

/-- The variables of a condition are defined, and their operands belong to the side. -/
theorem SideWellFormed.exists_variable (h : SideWellFormed E f isRequest) {p : HeaderProcessor}
    (hp : p ∈ f.headerProcessors isRequest) {c : ConditionProcessor}
    (hc : p.conditionProcessor = some c) {d : Str × Bool} (hd : d ∈ c.operands) :
    ∃ q, (f.setBoolProcessors c.boolProcessors).lookup d.1 = some q ∧
      ∀ o ∈ q.operands, o.WellFormed E ∧ o.toProcessor = .ofSide isRequest := by
  obtain ⟨hprocessor, hwf⟩ := h.condition p hp c hc
  -- the condition refers to the map of its own side, which the scope speaks of
  have hpointer : c.boolProcessors = (Processor.ofSide isRequest).boolProcessors :=
    congrArg Processor.boolProcessors hprocessor
  obtain ⟨q, hq⟩ := Option.isSome_iff_exists.mp (hwf.declared d hd)
  exact ⟨q, hpointer ▸ hq, h.variableOperand _ (mem_of_lookup hq)⟩

/-- An operation keeps the invariant. -/
theorem SideWellFormed.pushProcessor (h : SideWellFormed E f isRequest) {isRequest' : Bool}
    {tokens : List Str} {p : HeaderProcessor}
    (hline : OperationLine E (f.scope isRequest') isRequest' tokens p) :
    SideWellFormed E (f.pushProcessor isRequest' p) isRequest := by
  -- only the new operation has anything to be checked
  have hmem : ∀ q ∈ (f.pushProcessor isRequest' p).headerProcessors isRequest,
      q ∈ f.headerProcessors isRequest ∨ isRequest = isRequest' ∧ q = p := by
    intro q hq
    rw [headerProcessors_pushProcessor, List.mem_append] at hq
    rcases hq with hq | hq
    · exact Or.inl hq
    · split at hq
      · next hside => exact Or.inr ⟨hside, List.mem_singleton.mp hq⟩
      · cases hq
  refine ⟨fun q hq => ?_, fun q hq => ?_, fun q hq => ?_, ?_⟩
  · rcases hmem q hq with hq | ⟨rfl, rfl⟩
    · exact h.operand q hq
    · exact hline.operand
  · rcases hmem q hq with hq | ⟨rfl, rfl⟩
    · exact h.setPath q hq
    · rintro q rfl
      -- of the four forms only `set-path` builds this operation, and it asks for the request side
      cases hline
      assumption
  · rw [scope_pushProcessor]
    rcases hmem q hq with hq | ⟨rfl, rfl⟩
    · exact h.condition q hq
    · intro c hc
      obtain ⟨hprocessor, hwf, -⟩ := hline.condition hc
      exact ⟨hprocessor, hwf⟩
  · rw [sideSetBools_pushProcessor]
    exact h.variableOperand

/-- A definition keeps the invariant. -/
theorem SideWellFormed.declare (h : SideWellFormed E f isRequest) {isRequest' : Bool}
    {tokens : List Str} {name : Str} {p : SetBoolProcessor}
    (hline : DefinitionLine E isRequest' tokens name p) :
    SideWellFormed E (f.declare isRequest' name p) isRequest := by
  refine ⟨?_, ?_, ?_, ?_⟩
  · rw [headerProcessors_declare]
    exact h.operand
  · rw [headerProcessors_declare]
    exact h.setPath
  · rw [headerProcessors_declare]
    intro q hq c hc
    obtain ⟨hprocessor, hwf⟩ := h.condition q hq c hc
    -- conditions stay well formed, as no variable is removed
    refine ⟨hprocessor, { hwf with declared := fun d hd => ?_ }⟩
    simp [Scope.declare, hwf.declared d hd]
  · rw [sideSetBools_declare]
    split
    · next hside =>
      rintro b (_ | ⟨_, hb⟩)
      · exact hside ▸ hline.operand
      · exact h.variableOperand b hb
    · exact h.variableOperand

/-- Accepted lines keep the invariant. -/
theorem Constructs.sideWellFormed {lines : List (List Str)} (h : Constructs E f lines g)
    (hf : SideWellFormed E f isRequest) : SideWellFormed E g isRequest := by
  induction h with
  | nil => exact hf
  | operation hline _ ih => exact ih (hf.pushProcessor hline)
  | definition hline _ _ ih => exact ih (hf.declare hline)

/-- The invariant holds after every line, also after one that is rejected. -/
theorem sideWellFormed_of_processLines {lines : List (List Str)}
    (h : processLines E init lines = .returned f) : SideWellFormed E f isRequest := by
  rcases processLines_cases E init lines with
    ⟨g, hg, hreturned⟩ | ⟨-, _, _, g, -, hg, hreturned⟩ | ⟨_, _, _, g, -, -, hthrew⟩
  · obtain rfl := Outcome.returned.inj (h.symm.trans hreturned)
    exact hg.sideWellFormed (sideWellFormed_init E isRequest)
  · obtain rfl := Outcome.returned.inj (h.symm.trans hreturned)
    exact (hg.sideWellFormed (sideWellFormed_init E isRequest)).withError true
  -- the constructor that throws makes no filter
  · cases h.symm.trans hthrew

end HeaderRewrite.HttpHeaderRewriteFilter
