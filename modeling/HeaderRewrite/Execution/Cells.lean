import HeaderRewrite.Cxx.Footprint
import HeaderRewrite.Execution.Metadata
import HeaderRewrite.Execution.Path

/-!
# The cells that operations read

The state of a stream is observed through cells: the entries of each header name, the fields of each
metadata namespace, and the class of the header map. Which cells an operation reads can be told from
its operands and from the variables of its condition, without a request.

## Main definitions

* `Cell`, `Envoy.observe`: the cells and their contents;
* `HeaderProcessor.reads`: the cells that an operation reads.

## Main results

* `Envoy.observe_setCopy` and its companions: the cell that each function of Envoy changes;
* `DynamicFunctionProcessor.executeOperation_eqOn`: an operand depends on the cells it reads;
* `evaluateCondition_eqOn`: so does a condition.
-/

namespace HeaderRewrite

open Cxx Utility

variable {M I : Type}

/-! ## Cells -/

/-- A part of the state that is read and changed by itself. -/
inductive Cell
  /-- The class of the header map, and whether there is a stream info. -/
  | stream
  /-- The entries of a header name. -/
  | header (name : Str)
  /-- A field of the metadata of a filter. -/
  | field (filter key : Str)
deriving DecidableEq, Repr

/-- The content of a cell. -/
inductive Content (E : Envoy M I)
  | stream (isRequestHeaderMap hasStreamInfo : Bool)
  | header (values : List Str)
  | field (value : Option E.Value)

namespace Envoy

/-- The content of each cell of a state. -/
def observe (E : Envoy M I) (st : StreamState M I) : Cell → Content E
  | .stream => .stream st.headers.isRequestHeaderMap st.streamInfo.isSome
  | .header name => .header (E.get st.headers.map name)
  | .field filter key => .field (st.streamInfo.bind fun info =>
      (E.filterMetadata info filter).bind (E.structFields · key))

section Observe

variable {E : Envoy M I} {st st' : StreamState M I}

theorem isRequestHeaderMap_of_observe (h : E.observe st .stream = E.observe st' .stream) :
    st.headers.isRequestHeaderMap = st'.headers.isRequestHeaderMap := by
  simp only [observe, Content.stream.injEq] at h
  exact h.1

theorem isSome_of_observe (h : E.observe st .stream = E.observe st' .stream) :
    st.streamInfo.isSome = st'.streamInfo.isSome := by
  simp only [observe, Content.stream.injEq] at h
  exact h.2

theorem get_of_observe {name : Str}
    (h : E.observe st (.header name) = E.observe st' (.header name)) :
    E.get st.headers.map name = E.get st'.headers.map name := by
  simpa only [observe, Content.header.injEq] using h

theorem metadataField_of_observe {key : Str} {info info' : I}
    (h : E.observe st (.field headerRewriteFilterName key) =
      E.observe st' (.field headerRewriteFilterName key))
    (hinfo : st.streamInfo = some info) (hinfo' : st'.streamInfo = some info') :
    E.metadataField info key = E.metadataField info' key := by
  simpa only [observe, hinfo, hinfo', Option.bind_some, Content.field.injEq, metadataField] using h

/-- Setting a header changes the entries of its name. -/
theorem observe_setCopy (hlaws : E.HeaderLaws) (st : StreamState M I) (key value : Str) (c : Cell) :
    E.observe (st.withMap (E.setCopy st.headers.map key value)) c =
      if c = .header key then .header [value] else E.observe st c := by
  cases c with
  | stream => rfl
  | header name =>
    simp only [observe, StreamState.withMap, hlaws.get_setCopy, Cell.header.injEq]
    split <;> rfl
  | field filter key => rfl

/-- Appending to a header changes the entries of its name. -/
theorem observe_appendCopy (hlaws : E.HeaderLaws) (st : StreamState M I) (key value : Str)
    (c : Cell) :
    E.observe (st.withMap (E.appendCopy st.headers.map key value)) c =
      if c = .header key then
        .header (appendToEntries (delimiterByHeader key) value (E.get st.headers.map key))
      else E.observe st c := by
  cases c with
  | stream => rfl
  | header name =>
    simp only [observe, StreamState.withMap, hlaws.get_appendCopy, Cell.header.injEq]
    split <;> rfl
  | field filter key => rfl

/-- Setting the path changes the entries of `:path`. -/
theorem observe_setPath (hlaws : E.HeaderLaws) (st : StreamState M I) (value : Str) (c : Cell) :
    E.observe (st.withMap (E.setPath st.headers.map value)) c =
      if c = .header ":path" then .header [value] else E.observe st c := by
  cases c with
  | stream => rfl
  | header name =>
    simp only [observe, StreamState.withMap, hlaws.get_setPath, Cell.header.injEq]
    split <;> rfl
  | field filter key => rfl

/-- Storing metadata changes one field of the filter's own namespace. -/
theorem observe_storeMetadata (hlaws : E.MetadataLaws) (hnamespaces : E.NamespaceLaws)
    {st : StreamState M I} {info : I} (hinfo : st.streamInfo = some info) (key value : Str)
    (c : Cell) :
    E.observe { st with
        streamInfo := some (SetDynamicMetadataProcessor.storeMetadata E info key value) } c =
      if c = .field headerRewriteFilterName key then
        .field (some (E.ofStruct (E.keyValueStruct key value)))
      else E.observe st c := by
  cases c with
  | stream => simp [observe, hinfo]
  | header name => rfl
  | field filter other =>
    by_cases hfilter : filter = headerRewriteFilterName
    · subst hfilter
      have hstored := E.metadataField_storeMetadata hlaws info key value other
      simp only [metadataField] at hstored
      simp only [observe, hinfo, Option.bind_some, hstored, Cell.field.injEq, true_and]
      split <;> rfl
    -- neither making the filter's struct nor setting it touches another namespace
    · have hinserted := hlaws.filterMetadata_mutableFilterMetadata info headerRewriteFilterName
        filter
      rw [if_neg hfilter] at hinserted
      simp only [observe, hinfo, Option.bind_some, SetDynamicMetadataProcessor.storeMetadata,
        hnamespaces.filterMetadata_setDynamicMetadata _ _ _ _ hfilter, hinserted,
        Cell.field.injEq, hfilter, false_and, if_false]

end Observe

end Envoy

/-! ## What is read -/

/-- The cells that an operand reads. -/
def DynamicFunctionProcessor.reads (E : Envoy M I) (d : DynamicFunctionProcessor) : List Cell :=
  match d.functionType with
  | .getHdr => (d.arguments E)[0]?.toList.map fun key => .header (E.lowerCaseString key)
  | .urlp => [.stream, .header ":path"]
  | .getMetadata => [.stream, .field headerRewriteFilterName d.functionArgument]
  | .static => []
  | .invalidFunctionType => []

/-- The cells that a boolean variable reads. -/
def SetBoolProcessor.reads (E : Envoy M I) (q : SetBoolProcessor) : List Cell :=
  q.operands.flatMap (·.reads E)

/-- The cells that a condition reads through its variables. -/
def ConditionProcessor.reads (E : Envoy M I) (maps : SetBoolProcessorMaps)
    (c : ConditionProcessor) : List Cell :=
  c.operands.flatMap fun d =>
    ((maps c.boolProcessors).lookup d.1).toList.flatMap (SetBoolProcessor.reads E)

/-- The cells that an operation reads, in its condition and in its operands. -/
def HeaderProcessor.reads (E : Envoy M I) (maps : SetBoolProcessorMaps) (p : HeaderProcessor) :
    List Cell :=
  .stream :: (p.conditionProcessor.toList.flatMap (ConditionProcessor.reads E maps) ++
    p.operands.flatMap (DynamicFunctionProcessor.reads E))

section Reads

variable {E : Envoy M I} {st st' : StreamState M I}

namespace DynamicFunctionProcessor

/-- A header is read through the entries of its name. -/
theorem getHeaderValue_eqOn (hlaws : E.HeaderLaws) {key : Str}
    (h : E.observe st (.header (E.lowerCaseString key)) =
      E.observe st' (.header (E.lowerCaseString key))) (position : ℤ) :
    getHeaderValue E st.headers key position = getHeaderValue E st'.headers key position := by
  simp only [getHeaderValue, hlaws.getAllOfHeaderAsString_eq, E.get_of_observe h]

/-- A query parameter is read through the entries of `:path`. -/
theorem getUrlp_eqOn (hlaws : E.HeaderLaws) (hstream : E.observe st .stream = E.observe st' .stream)
    (hpath : E.observe st (.header ":path") = E.observe st' (.header ":path")) (param : Str) :
    getUrlp E st.headers param = getUrlp E st'.headers param := by
  simp only [getUrlp, E.isRequestHeaderMap_of_observe hstream, hlaws.pathEntry_eq,
    E.get_of_observe hpath]

/-- Metadata is read through the field of its key. -/
theorem getDynamicMetadata_eqOn (hlaws : E.MetadataLaws) {key : Str}
    (hstream : E.observe st .stream = E.observe st' .stream)
    (hfield : E.observe st (.field headerRewriteFilterName key) =
      E.observe st' (.field headerRewriteFilterName key)) :
    getDynamicMetadata E st.streamInfo key = getDynamicMetadata E st'.streamInfo key := by
  have hsome := E.isSome_of_observe hstream
  cases hinfo : st.streamInfo with
  | none =>
    rw [hinfo] at hsome
    rw [Option.isNone_iff_eq_none.mp (Option.isSome_eq_false_iff.mp hsome.symm)]
  | some info =>
    rw [hinfo] at hsome
    obtain ⟨info', hinfo'⟩ := Option.isSome_iff_exists.mp hsome.symm
    have hvalue : E.metadataStore info key = E.metadataStore info' key := by
      rw [Envoy.metadataStore, Envoy.metadataStore, E.metadataField_of_observe hfield hinfo hinfo']
    simp only [getDynamicMetadata, hinfo', E.stringValue_metadataValue_twice hlaws, hvalue]

/-- An operand has the same value in states that agree on the cells it reads. -/
theorem executeOperation_eqOn (hheaders : E.HeaderLaws) (hmetadata : E.MetadataLaws)
    {d : DynamicFunctionProcessor} (h : ∀ c ∈ d.reads E, E.observe st c = E.observe st' c) :
    executeOperation E d st.headers st.streamInfo =
      executeOperation E d st'.headers st'.streamInfo := by
  unfold reads at h
  unfold executeOperation
  cases htype : d.functionType with
  | getHdr =>
    simp only [htype, arguments] at h
    dsimp only
    generalize E.splitToken d.functionArgument "," false true = arguments at h ⊢
    cases arguments with
    | nil => rfl
    | cons key rest =>
      have hvalue : ∀ position, getHeaderValue E st.headers key position =
          getHeaderValue E st'.headers key position :=
        getHeaderValue_eqOn hheaders (h _ (by simp))
      simp only [vectorAt_cons_zero, Outcome.bind_returned, hvalue]
  | urlp =>
    simp only [htype] at h
    refine bind_congr (m := Outcome) fun param => ?_
    exact getUrlp_eqOn hheaders (h _ (by simp)) (h _ (by simp)) param
  | getMetadata =>
    simp only [htype] at h
    exact getDynamicMetadata_eqOn hmetadata (h _ (by simp)) (h _ (by simp))
  | static => rfl
  | invalidFunctionType => rfl

end DynamicFunctionProcessor

/-- A variable has the same value in states that agree on the cells it reads. -/
theorem SetBoolProcessor.executeOperation_eqOn (hheaders : E.HeaderLaws)
    (hmetadata : E.MetadataLaws) {q : SetBoolProcessor}
    (h : ∀ c ∈ q.reads E, E.observe st c = E.observe st' c) (negate : Bool) :
    q.executeOperation (DynamicFunctionProcessor.executeOperation E) st.headers st.streamInfo
        negate =
      q.executeOperation (DynamicFunctionProcessor.executeOperation E) st'.headers st'.streamInfo
        negate := by
  have hoperand : ∀ d ∈ q.operands,
      DynamicFunctionProcessor.executeOperation E d st.headers st.streamInfo =
        DynamicFunctionProcessor.executeOperation E d st'.headers st'.streamInfo := fun d hd =>
    DynamicFunctionProcessor.executeOperation_eqOn hheaders hmetadata fun c hc =>
      h c (List.mem_flatMap.mpr ⟨d, hd, hc⟩)
  have hsource := hoperand q.sourceProcessor (by simp [operands])
  have hstring := hoperand q.stringToCompareFunctionProcessor (by simp [operands])
  simp only [executeOperation, hsource, hstring]

/-- A condition has the same value in states that agree on the cells it reads. -/
theorem ConditionProcessor.executeOperation_eqOn (hheaders : E.HeaderLaws)
    (hmetadata : E.MetadataLaws) {maps : SetBoolProcessorMaps} {declared : Str → Bool}
    {c : ConditionProcessor} (hwf : c.WellFormed declared)
    (h : ∀ cell ∈ c.reads E maps, E.observe st cell = E.observe st' cell) :
    c.executeOperation (DynamicFunctionProcessor.executeOperation E) maps st.headers
        st.streamInfo =
      c.executeOperation (DynamicFunctionProcessor.executeOperation E) maps st'.headers
        st'.streamInfo := by
  rw [executeOperation_eq hwf, executeOperation_eq hwf]
  apply evalClauses_congr
  intro d hd
  rw [flatten_clauses hwf] at hd
  simp only [executeOperand, SetBoolProcessorMap.at]
  cases hlookup : (maps c.boolProcessors).lookup d.1 with
  | none => rfl
  | some q =>
    refine SetBoolProcessor.executeOperation_eqOn hheaders hmetadata (fun cell hcell => ?_) d.2
    exact h cell (List.mem_flatMap.mpr ⟨d, hd, by simpa [hlookup] using hcell⟩)

theorem evaluateCondition_eqOn (hheaders : E.HeaderLaws) (hmetadata : E.MetadataLaws)
    {maps : SetBoolProcessorMaps} {conditionProcessor : Option ConditionProcessor}
    (hwf : ∀ c, conditionProcessor = some c → ∃ declared, c.WellFormed declared)
    (h : ∀ cell ∈ conditionProcessor.toList.flatMap (ConditionProcessor.reads E maps),
      E.observe st cell = E.observe st' cell) :
    (evaluateCondition (DynamicFunctionProcessor.executeOperation E) maps conditionProcessor st) =
      evaluateCondition (DynamicFunctionProcessor.executeOperation E) maps conditionProcessor
        st' := by
  cases conditionProcessor with
  | none => rfl
  | some c =>
    obtain ⟨declared, hdeclared⟩ := hwf c rfl
    simp only [evaluateCondition, ConditionProcessor.executeOperation_eqOn hheaders hmetadata
      hdeclared (by simpa using h)]

end Reads

end HeaderRewrite
