import HeaderRewrite.Execution.Cells

/-!
# The footprints of operations

An operation changes the entries of one header name, or one field of the filter's metadata. Where
the name is a literal it is known before any request is seen. `set-header` and `set-metadata`
overwrite the content of their cell and `set-path` replaces the part of it before the query string,
so that doing it again makes no difference; `append-header` may change it in any way.

## Main definitions

* `Target`, `HeaderProcessor.target`: the cells that an operation may change;
* `rewrites`: the changes that overwrite a cell;
* `HeaderProcessor.footprint`: what an operation reads, and how it changes its target.

## Main results

* `mul_self_of_mem_rewrites`: what overwrites a cell can be done again;
* `HeaderProcessor.hasFootprint`: an operation has its footprint.
-/

namespace HeaderRewrite

open Cxx Utility

variable {M I : Type}

/-! ## Targets -/

/-- The cells that an operation may change: those of one name, or of any name. -/
inductive Target
  | header (name : Str)
  | anyHeader
  | field (key : Str)
  | anyField
deriving DecidableEq, Repr

namespace Target

/-- Whether a cell belongs to a target. The fields of other filters belong to none. -/
def covers : Target → Cell → Bool
  | .header name, .header name' => name' = name
  | .anyHeader, .header _ => true
  | .field key, .field filter key' => filter = headerRewriteFilterName && key' = key
  | .anyField, .field filter _ => filter = headerRewriteFilterName
  | _, _ => false

/-- Whether two targets have a cell in common. -/
def overlaps : Target → Target → Bool
  | .header name, .header name' => name = name'
  | .header _, .anyHeader => true
  | .anyHeader, .header _ => true
  | .anyHeader, .anyHeader => true
  | .field key, .field key' => key = key'
  | .field _, .anyField => true
  | .anyField, .field _ => true
  | .anyField, .anyField => true
  | _, _ => false

@[simp] theorem not_covers_stream (target : Target) : target.covers .stream = false := by
  cases target <;> rfl

/-- The fields of other filters belong to no target. -/
theorem not_covers_field (target : Target) {filter : Str} (h : filter ≠ headerRewriteFilterName)
    (key : Str) : target.covers (.field filter key) = false := by
  cases target <;> simp [covers, h]

/-- Targets that do not overlap have no cell in common. -/
theorem not_covers_of_not_overlaps {first second : Target} (h : first.overlaps second = false)
    {c : Cell} (hc : first.covers c = true) : second.covers c = false := by
  cases first <;> cases second <;> cases c <;> simp_all [overlaps, covers]

end Target

/-- The target of a header key. -/
def DynamicFunctionProcessor.headerTarget (E : Envoy M I) (d : DynamicFunctionProcessor) : Target :=
  if d.functionType = .static then .header (E.lowerCaseString d.functionArgument) else .anyHeader

/-- The target of a metadata key. -/
def DynamicFunctionProcessor.fieldTarget (d : DynamicFunctionProcessor) : Target :=
  if d.functionType = .static then .field d.functionArgument else .anyField

/-- The cells that an operation may change. -/
def HeaderProcessor.target (E : Envoy M I) : HeaderProcessor → Target
  | .setHeader p => p.headerKey.headerTarget E
  | .appendHeader p => p.headerKey.headerTarget E
  | .setPath _ => .header ":path"
  | .setDynamicMetadata p => p.metadataKey.fieldTarget

namespace DynamicFunctionProcessor

variable {E : Envoy M I} {d : DynamicFunctionProcessor} {st : StreamState M I} {key : Str}

/-- The header of a key belongs to the key's target. -/
theorem covers_headerTarget
    (h : executeOperation E d st.headers st.streamInfo = .returned (.ok, key)) :
    (d.headerTarget E).covers (.header (E.lowerCaseString key)) = true := by
  unfold headerTarget
  split
  · next htype =>
    rw [executeOperation_static htype] at h
    obtain ⟨-, rfl⟩ := Outcome.pair_inj h
    simp [Target.covers]
  · rfl

/-- The field of a key belongs to the key's target. -/
theorem covers_fieldTarget
    (h : executeOperation E d st.headers st.streamInfo = .returned (.ok, key)) :
    d.fieldTarget.covers (.field headerRewriteFilterName key) = true := by
  unfold fieldTarget
  split
  · next htype =>
    rw [executeOperation_static htype] at h
    obtain ⟨-, rfl⟩ := Outcome.pair_inj h
    simp [Target.covers]
  · simp [Target.covers]

end DynamicFunctionProcessor

/-! ## Changes -/

/-- Append a value to the first entry of a header. -/
def appendValue {E : Envoy M I} (key value : Str) : Content E → Content E
  | .header values =>
    .header (Envoy.appendToEntries (Envoy.delimiterByHeader key) value values)
  | content => content

/-- Replace the text before the query string of a header's first entry, and drop the others. -/
def replacePath {E : Envoy M I} (newPath : Str) : Content E → Content E
  | .header values => .header [newPath ++ SetPathProcessor.queryString (values.headD [])]
  | content => content

theorem replacePath_replacePath {E : Envoy M I} (newPath : Str) {old : Str} (h : '?' ∉ old)
    (content : Content E) :
    replacePath newPath (replacePath old content) = replacePath newPath content := by
  cases content with
  | header values =>
    simp only [replacePath, List.headD_cons, SetPathProcessor.queryString_append h]
  | stream isRequestHeaderMap hasStreamInfo => rfl
  | field value => rfl

/-- The changes that replace a content, or the path in it, by something that does not depend on what
is replaced. They are closed under composition. -/
def rewrites (E : Envoy M I) : Submonoid (Function.End (Content E)) where
  carrier := {u | u = 1 ∨ (∃ content, ∀ x, u x = content) ∨
    ∃ newPath, '?' ∉ newPath ∧ ∀ x, u x = replacePath newPath x}
  one_mem' := Or.inl rfl
  mul_mem' := by
    rintro u v (rfl | ⟨content, hu⟩ | ⟨newPath, hnew, hu⟩) hv
    · rwa [one_mul]
    · exact Or.inr (Or.inl ⟨content, fun x => hu (v x)⟩)
    · rcases hv with rfl | ⟨content, hv⟩ | ⟨oldPath, hold, hv⟩
      · exact Or.inr (Or.inr ⟨newPath, hnew, fun x => hu x⟩)
      · refine Or.inr (Or.inl ⟨replacePath newPath content, fun x => (hu (v x)).trans ?_⟩)
        rw [hv]
      · refine Or.inr (Or.inr ⟨newPath, hnew, fun x => (hu (v x)).trans ?_⟩)
        rw [hv, replacePath_replacePath newPath hold]

/-- A rewrite made twice is the rewrite. -/
theorem mul_self_of_mem_rewrites {E : Envoy M I} {u : Function.End (Content E)}
    (h : u ∈ rewrites E) : u * u = u := by
  funext x
  rcases h with rfl | ⟨content, hu⟩ | ⟨newPath, hnew, hu⟩
  · rfl
  · exact (hu (u x)).trans (hu x).symm
  · calc (u * u) x = replacePath newPath (replacePath newPath x) := (hu (u x)).trans (by rw [hu])
      _ = u x := by rw [replacePath_replacePath newPath hnew, hu]

/-- Whether an operation overwrites its target. A path that contains a question mark adds to the
query string, each time it is set. -/
def HeaderProcessor.overwrites : HeaderProcessor → Bool
  | .setHeader _ => true
  | .appendHeader _ => false
  | .setPath p =>
    p.requestPath.functionType = .static && !p.requestPath.functionArgument.contains '?'
  | .setDynamicMetadata _ => true

/-- The changes that an operation makes to a cell: none outside its target. -/
def HeaderProcessor.changes (E : Envoy M I) (p : HeaderProcessor) (c : Cell) :
    Submonoid (Function.End (Content E)) :=
  if (p.target E).covers c then if p.overwrites then rewrites E else ⊤ else ⊥

/-- What an operation reads and how it changes its target. -/
def HeaderProcessor.footprint (E : Envoy M I) (maps : SetBoolProcessorMaps) (p : HeaderProcessor) :
    Footprint Cell (Content E) :=
  ⟨{c | c ∈ p.reads E maps}, p.changes E⟩

namespace HeaderProcessor

theorem changes_eq_bot {E : Envoy M I} {p : HeaderProcessor} {c : Cell}
    (h : (p.target E).covers c = false) : p.changes E c = ⊥ := by
  simp [changes, h]

theorem mem_changes {E : Envoy M I} {p : HeaderProcessor} {c : Cell}
    {u : Function.End (Content E)} (hc : (p.target E).covers c = true)
    (hu : p.overwrites = true → u ∈ rewrites E) : u ∈ p.changes E c := by
  unfold changes
  rw [if_pos hc]
  split
  · next h => exact hu h
  · exact Submonoid.mem_top u

end HeaderProcessor

/-! ## Operations have their footprints -/

section Operations

variable {E : Envoy M I} {maps : SetBoolProcessorMaps} {st st' : StreamState M I}

/-- Two operations end with the same status and make the changes of an operation. -/
abbrev EndSame (E : Envoy M I) (p : HeaderProcessor) (st st' : StreamState M I) :
    Outcome (Status × StreamState M I) → Outcome (Status × StreamState M I) → Prop :=
  Outcome.Rel fun out out' => out.1 = out'.1 ∧
    SameChange E.observe (p.changes E) st st' out.2 out'.2

/-- Both operations return the same status and leave their states as they are. -/
theorem endSame_unchanged (p : HeaderProcessor) (status : Status) :
    EndSame E p st st' (.returned (status, st)) (.returned (status, st')) :=
  .returned ⟨rfl, .refl E.observe (p.changes E) st st'⟩

/-- Appending a value changes one cell. -/
theorem observe_appendValue (hlaws : E.HeaderLaws) (st : StreamState M I) (key value : Str)
    (c : Cell) :
    E.observe (st.withMap (E.appendCopy st.headers.map key value)) c =
      if c = .header key then (appendValue key value : Function.End (Content E)) (E.observe st c)
      else E.observe st c := by
  rw [Envoy.observe_appendCopy hlaws]
  split
  · next hc =>
    subst hc
    rfl
  · rfl

/-- Setting the path behind the old query string changes one cell. -/
theorem observe_replacePath (hlaws : E.HeaderLaws) (st : StreamState M I) (newPath : Str)
    (c : Cell) :
    E.observe (st.withMap (E.setPath st.headers.map
        (newPath ++ SetPathProcessor.queryString (E.path st.headers.map)))) c =
      if c = .header ":path" then (replacePath newPath : Function.End (Content E)) (E.observe st c)
      else E.observe st c := by
  have hpath : E.path st.headers.map = (E.get st.headers.map ":path").headD [] := by
    rw [hlaws.path_eq, hlaws.pathEntry_eq]
    cases E.get st.headers.map ":path" <;> rfl
  rw [Envoy.observe_setPath hlaws, hpath]
  split
  · next hc =>
    subst hc
    rfl
  · rfl

/-- Two states after an operation has put the same content into a cell of its target. -/
theorem sameChange_of_content {p : HeaderProcessor} {t t' : StreamState M I} {cell : Cell}
    {content : Content E} (hcell : (p.target E).covers cell = true)
    (h : ∀ c, E.observe t c = if c = cell then content else E.observe st c)
    (h' : ∀ c, E.observe t' c = if c = cell then content else E.observe st' c) :
    SameChange E.observe (p.changes E) st st' t t' := by
  have hrewrite : (fun _ => content : Function.End (Content E)) ∈ rewrites E :=
    Or.inr (Or.inl ⟨content, fun _ => rfl⟩)
  exact .of_cell (HeaderProcessor.mem_changes hcell fun _ => hrewrite) h h'

/-- The values appended to a header are the same, and so are the changes. -/
theorem AppendHeaderProcessor.appendValues_endSame (hheaders : E.HeaderLaws)
    (hmetadata : E.MetadataLaws) {p : HeaderProcessor} (hp : p.overwrites = false) {key : Str}
    (hkey : (p.target E).covers (.header (E.lowerCaseString key)) = true)
    {headerVals : List DynamicFunctionProcessor}
    (h : ∀ d ∈ headerVals, ∀ c ∈ d.reads E, E.observe st c = E.observe st' c) :
    EndSame E p st st' (appendValues E (DynamicFunctionProcessor.executeOperation E) key headerVals
      st) (appendValues E (DynamicFunctionProcessor.executeOperation E) key headerVals st') := by
  induction headerVals generalizing st st' with
  | nil => exact endSame_unchanged p .ok
  | cons d headerVals ih =>
    rw [appendValues, appendValues, DynamicFunctionProcessor.executeOperation_eqOn hheaders
      hmetadata (h d List.mem_cons_self)]
    refine Outcome.Rel.bind_same _ ?_
    rintro ⟨status, value⟩ -
    dsimp only
    split
    · exact endSame_unchanged p status
    -- the value is appended to both, and then the rest is
    · have hchange : SameChange E.observe (p.changes E) st st'
          (st.withMap (E.appendCopy st.headers.map (E.lowerCaseString key) value))
          (st'.withMap (E.appendCopy st'.headers.map (E.lowerCaseString key) value)) :=
        .of_cell (HeaderProcessor.mem_changes hkey fun hover => by cases hp.symm.trans hover)
          (observe_appendValue hheaders st _ value) (observe_appendValue hheaders st' _ value)
      refine (ih fun d' hd' c hc => ?_).mono fun _ _ hsame =>
        ⟨hsame.1, hchange.trans hsame.2⟩
      exact hchange.eq_of_eq (h d' (List.mem_cons_of_mem _ hd') c hc)

/-- Two states in which a condition holds and some operands have the same values. -/
structure SameOperands (E : Envoy M I) (maps : SetBoolProcessorMaps) (p : HeaderProcessor)
    (st st' : StreamState M I) : Prop where
  /-- The condition is true in the first. -/
  condition : evaluateCondition (DynamicFunctionProcessor.executeOperation E) maps
    p.conditionProcessor st = .returned (.ok, true)
  /-- The condition is true in the second. -/
  condition' : evaluateCondition (DynamicFunctionProcessor.executeOperation E) maps
    p.conditionProcessor st' = .returned (.ok, true)
  /-- The states agree on their class. -/
  stream : E.observe st .stream = E.observe st' .stream
  /-- The states agree on what the operands read. -/
  reads : ∀ d ∈ p.operands, ∀ c ∈ d.reads E, E.observe st c = E.observe st' c

theorem SameOperands.eq {p : HeaderProcessor} (h : SameOperands E maps p st st')
    (hheaders : E.HeaderLaws) (hmetadata : E.MetadataLaws) {d : DynamicFunctionProcessor}
    (hd : d ∈ p.operands) :
    DynamicFunctionProcessor.executeOperation E d st.headers st.streamInfo =
      DynamicFunctionProcessor.executeOperation E d st'.headers st'.streamInfo :=
  DynamicFunctionProcessor.executeOperation_eqOn hheaders hmetadata (h.reads d hd)

section True

variable (hheaders : E.HeaderLaws) (hmetadata : E.MetadataLaws)
include hheaders hmetadata

theorem SetHeaderProcessor.endSame {p : SetHeaderProcessor}
    (h : SameOperands E maps (.setHeader p) st st') :
    EndSame E (.setHeader p) st st'
      (p.executeOperation E (DynamicFunctionProcessor.executeOperation E) maps st)
      (p.executeOperation E (DynamicFunctionProcessor.executeOperation E) maps st') := by
  have hkey := h.eq hheaders hmetadata (d := p.headerKey) (by simp [HeaderProcessor.operands])
  have hval := h.eq hheaders hmetadata (d := p.headerVal) (by simp [HeaderProcessor.operands])
  rw [HeaderProcessor.setHeader_of_true h.condition, HeaderProcessor.setHeader_of_true h.condition',
    ← hkey, ← hval]
  refine Outcome.Rel.bind_same _ ?_
  rintro ⟨keyStatus, key⟩ hkeyValue
  refine Outcome.Rel.bind_same _ ?_
  rintro ⟨valueStatus, value⟩ -
  dsimp only
  split
  · exact endSame_unchanged _ _
  · next hkeyStatus =>
    obtain rfl : keyStatus = .ok := Decidable.not_not.mp hkeyStatus
    split
    · exact endSame_unchanged _ _
    · exact .returned ⟨rfl, sameChange_of_content
        (DynamicFunctionProcessor.covers_headerTarget hkeyValue)
        (Envoy.observe_setCopy hheaders st _ value) (Envoy.observe_setCopy hheaders st' _ value)⟩

theorem AppendHeaderProcessor.endSame {p : AppendHeaderProcessor}
    (h : SameOperands E maps (.appendHeader p) st st') :
    EndSame E (.appendHeader p) st st'
      (p.executeOperation E (DynamicFunctionProcessor.executeOperation E) maps st)
      (p.executeOperation E (DynamicFunctionProcessor.executeOperation E) maps st') := by
  have hkey := h.eq hheaders hmetadata (d := p.headerKey) (by simp [HeaderProcessor.operands])
  rw [HeaderProcessor.appendHeader_of_true h.condition,
    HeaderProcessor.appendHeader_of_true h.condition', ← hkey]
  refine Outcome.Rel.bind_same _ ?_
  rintro ⟨keyStatus, key⟩ hkeyValue
  dsimp only
  split
  · exact endSame_unchanged _ _
  · next hkeyStatus =>
    obtain rfl : keyStatus = .ok := Decidable.not_not.mp hkeyStatus
    exact appendValues_endSame hheaders hmetadata (p := .appendHeader p) rfl
      (DynamicFunctionProcessor.covers_headerTarget hkeyValue)
      fun d hd => h.reads d (by simp [HeaderProcessor.operands, hd])

theorem SetPathProcessor.endSame {p : SetPathProcessor}
    (h : SameOperands E maps (.setPath p) st st') :
    EndSame E (.setPath p) st st'
      (p.executeOperation E (DynamicFunctionProcessor.executeOperation E) maps st)
      (p.executeOperation E (DynamicFunctionProcessor.executeOperation E) maps st') := by
  have hpath := h.eq hheaders hmetadata (d := p.requestPath) (by simp [HeaderProcessor.operands])
  rw [HeaderProcessor.setPath_of_true h.condition, HeaderProcessor.setPath_of_true h.condition',
    ← hpath, ← E.isRequestHeaderMap_of_observe h.stream]
  refine Outcome.Rel.bind_same _ ?_
  rintro ⟨status, newPath⟩ hvalue
  dsimp only
  split
  · refine .returned ⟨rfl, .of_cell (HeaderProcessor.mem_changes (by simp [
      HeaderProcessor.target, Target.covers]) fun hover => ?_) (observe_replacePath hheaders st _)
      (observe_replacePath hheaders st' _)⟩
    -- the path that is set is the literal
    simp only [HeaderProcessor.overwrites, Bool.and_eq_true, decide_eq_true_eq] at hover
    rw [DynamicFunctionProcessor.executeOperation_static hover.1] at hvalue
    obtain ⟨-, rfl⟩ := Outcome.pair_inj hvalue
    exact Or.inr (Or.inr ⟨_, by simpa using hover.2, fun _ => rfl⟩)
  · exact .undefined

theorem SetDynamicMetadataProcessor.endSame (hnamespaces : E.NamespaceLaws)
    {p : SetDynamicMetadataProcessor} (h : SameOperands E maps (.setDynamicMetadata p) st st') :
    EndSame E (.setDynamicMetadata p) st st'
      (p.executeOperation E (DynamicFunctionProcessor.executeOperation E) maps st)
      (p.executeOperation E (DynamicFunctionProcessor.executeOperation E) maps st') := by
  have hkey := h.eq hheaders hmetadata (d := p.metadataKey) (by simp [HeaderProcessor.operands])
  have hval := h.eq hheaders hmetadata (d := p.metadataValue) (by simp [HeaderProcessor.operands])
  rw [HeaderProcessor.setDynamicMetadata_of_true h.condition,
    HeaderProcessor.setDynamicMetadata_of_true h.condition', ← hkey, ← hval]
  refine Outcome.Rel.catchAs ?_ fun e => ⟨rfl, .refl E.observe _ st st'⟩
  refine Outcome.Rel.bind_same _ ?_
  rintro ⟨keyStatus, key⟩ hkeyValue
  dsimp only
  split
  · exact endSame_unchanged _ _
  next hkeyStatus =>
  obtain rfl : keyStatus = .ok := Decidable.not_not.mp hkeyStatus
  split
  · exact endSame_unchanged _ _
  refine Outcome.Rel.bind_same _ ?_
  rintro ⟨valueStatus, value⟩ -
  dsimp only
  split
  · exact endSame_unchanged _ _
  split
  · exact endSame_unchanged _ _
  -- both states have a stream info, or neither has
  have hsome := E.isSome_of_observe h.stream
  cases hinfo : st.streamInfo with
  | none =>
    rw [hinfo] at hsome
    rw [Option.isNone_iff_eq_none.mp (Option.isSome_eq_false_iff.mp hsome.symm)]
    exact endSame_unchanged _ _
  | some info =>
    rw [hinfo] at hsome
    obtain ⟨info', hinfo'⟩ := Option.isSome_iff_exists.mp hsome.symm
    rw [hinfo']
    exact .returned ⟨rfl, sameChange_of_content
      (DynamicFunctionProcessor.covers_fieldTarget hkeyValue)
      (Envoy.observe_storeMetadata hmetadata hnamespaces hinfo key value)
      (Envoy.observe_storeMetadata hmetadata hnamespaces hinfo' key value)⟩

end True

/-- An operation has its footprint: its status and its effect are determined by the cells that it
reads. -/
theorem HeaderProcessor.hasFootprint (hheaders : E.HeaderLaws) (hmetadata : E.MetadataLaws)
    (hnamespaces : E.NamespaceLaws) {p : HeaderProcessor}
    (hwf : ∀ c, p.conditionProcessor = some c → ∃ declared, c.WellFormed declared) :
    HasFootprint E.observe (p.footprint E maps)
      (p.executeOperation E (DynamicFunctionProcessor.executeOperation E) maps) := by
  intro st st' heq
  change EndSame E p st st' _ _
  have hreads : ∀ c ∈ p.reads E maps, E.observe st c = E.observe st' c := fun c hc => heq hc
  have hstream : E.observe st .stream = E.observe st' .stream := hreads _ (by simp [reads])
  have hcondition : evaluateCondition (DynamicFunctionProcessor.executeOperation E) maps
        p.conditionProcessor st =
      evaluateCondition (DynamicFunctionProcessor.executeOperation E) maps p.conditionProcessor
        st' :=
    evaluateCondition_eqOn hheaders hmetadata hwf fun c hc => hreads c (by
      simp only [reads, List.mem_cons, List.mem_append, hc, true_or, or_true])
  have hcell : ∀ d ∈ p.operands, ∀ c ∈ d.reads E, E.observe st c = E.observe st' c :=
    fun d hd c hc => hreads c (by
      simp only [reads, List.mem_cons, List.mem_append]
      exact Or.inr (Or.inr (List.mem_flatMap.mpr ⟨d, hd, hc⟩)))
  have hoperand : ∀ d ∈ p.operands,
      DynamicFunctionProcessor.executeOperation E d st.headers st.streamInfo =
        DynamicFunctionProcessor.executeOperation E d st'.headers st'.streamInfo := fun d hd =>
    DynamicFunctionProcessor.executeOperation_eqOn hheaders hmetadata (hcell d hd)
  -- the condition is evaluated to the same, and decides the same in both states
  rcases evaluateCondition_cases (DynamicFunctionProcessor.executeOperation E) maps
    p.conditionProcessor st with
    ⟨status, value, hstatus, hst⟩ | hst | hst | ⟨u, hst⟩
  · rw [executeOperation_of_ne_ok hst hstatus,
      executeOperation_of_ne_ok (hcondition.symm.trans hst) hstatus]
    exact endSame_unchanged p status
  · rw [executeOperation_of_false hst, executeOperation_of_false (hcondition.symm.trans hst)]
    cases p with
    | setPath q =>
      dsimp only
      rw [hoperand q.requestPath (by simp [operands])]
      exact Outcome.Rel.bind_same _ fun _ _ => endSame_unchanged _ .ok
    | setHeader q => exact endSame_unchanged _ .ok
    | appendHeader q => exact endSame_unchanged _ .ok
    | setDynamicMetadata q => exact endSame_unchanged _ .ok
  · have hsame : SameOperands E maps p st st' :=
      ⟨hst, hcondition.symm.trans hst, hstream, hcell⟩
    cases p with
    | setHeader q => exact SetHeaderProcessor.endSame hheaders hmetadata hsame
    | appendHeader q => exact AppendHeaderProcessor.endSame hheaders hmetadata hsame
    | setPath q => exact SetPathProcessor.endSame hheaders hmetadata hsame
    | setDynamicMetadata q =>
      exact SetDynamicMetadataProcessor.endSame hheaders hmetadata hnamespaces hsame
  · rw [executeOperation_of_undefined hst,
      executeOperation_of_undefined (hcondition.symm.trans hst)]
    exact .undefined

end Operations

end HeaderRewrite
