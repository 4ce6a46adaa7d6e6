import Mathlib.Logic.Function.Basic
import HeaderRewrite.Envoy.Reference
import HeaderRewrite.Execution.Safety

/-!
# Dynamic metadata as a store

The filter's dynamic metadata is read as a store of strings by key. `set-metadata` overwrites the
string of its key, no other operation writes to the store, and `metadata` reads it. Over a run on a
request and on its response a key reads as what was last written under it.

## Main definitions

* `Envoy.metadataStore`: the store of a stream info;
* `HeaderProcessor.written`: what a step of a run writes under a key;
* `HttpHeaderRewriteFilter.RunPoint`: the points of a run between two operations.

## Main results

* `Envoy.metadataStore_storeMetadata`: storing is a single update;
* `HeaderProcessor.metadata_of_executeOperation`: what one operation does to a key;
* `HttpHeaderRewriteFilter.metadata_lastWritten`: what `metadata` reads at every point of a run.
-/

namespace HeaderRewrite

open Cxx Utility

variable {M I : Type}

/-! ## The store of a stream info -/

namespace Envoy

/-- The field of the filter's namespace under a key. -/
def metadataField (E : Envoy M I) (info : I) (key : Str) : Option E.Value :=
  (E.filterMetadata info headerRewriteFilterName).bind (E.structFields · key)

/-- The filter's metadata as a store: the string that the struct under a key has under the same
key, empty if there is none. -/
def metadataStore (E : Envoy M I) (info : I) : Str → Str := fun key =>
  ((((E.metadataField info key).bind E.structValue?).bind (E.structFields · key)).map
    E.stringValue).getD []

section Store

variable {E : Envoy M I}

/-- The path of a key twice leads to what the store holds. -/
theorem stringValue_metadataValue_twice (hlaws : E.MetadataLaws) (info : I) (key : Str) :
    E.stringValue (E.metadataValue info headerRewriteFilterName [key, key]) =
      E.metadataStore info key := by
  rw [hlaws.stringValue_metadataValue, metadataStore, metadataField]
  cases E.filterMetadata info headerRewriteFilterName <;> rfl

/-- Storing replaces the field of the key and leaves the others. -/
theorem metadataField_storeMetadata (hlaws : E.MetadataLaws) (info : I) (key value other : Str) :
    E.metadataField (SetDynamicMetadataProcessor.storeMetadata E info key value) other =
      if other = key then some (E.ofStruct (E.keyValueStruct key value))
      else E.metadataField info other := by
  -- making the struct of the filter leaves the fields that it had
  have hstruct := hlaws.structFields_mutableFilterMetadata info headerRewriteFilterName other
  -- and that struct is the one read afterwards
  have hinserted := hlaws.filterMetadata_mutableFilterMetadata info headerRewriteFilterName
    headerRewriteFilterName
  rw [metadataField, SetDynamicMetadataProcessor.storeMetadata,
    hlaws.structFields_setDynamicMetadata, hlaws.structFields_setField]
  split
  · rw [Option.some_or]
  · rw [hinserted, if_pos rfl, Option.bind_some, hstruct, Option.or_self, metadataField]

/-- Storing a string updates the store at its key. -/
theorem metadataStore_storeMetadata (hlaws : E.MetadataLaws) (info : I) (key value : Str) :
    E.metadataStore (SetDynamicMetadataProcessor.storeMetadata E info key value) =
      Function.update (E.metadataStore info) key value := by
  funext other
  rw [metadataStore, metadataField_storeMetadata hlaws]
  by_cases hother : other = key
  · subst hother
    rw [if_pos rfl, Function.update_self, Option.bind_some, hlaws.structValue?_ofStruct,
      Option.bind_some, hlaws.structFields_keyValueStruct, if_pos rfl, Option.getD_some]
  · rw [if_neg hother, Function.update_of_ne hother, metadataStore]

end Store

end Envoy

/-- What the metadata of a state holds under a key, nothing if the stream info is null. -/
def StreamState.metadata (E : Envoy M I) (st : StreamState M I) (key : Str) : Str :=
  (st.streamInfo.map (E.metadataStore · key)).getD []

namespace DynamicFunctionProcessor

/-- With a stream info, `metadata` reads the store. -/
theorem getDynamicMetadata_eq {E : Envoy M I} (hlaws : E.MetadataLaws) {st : StreamState M I}
    (hinfo : st.streamInfo ≠ none) (key : Str) :
    getDynamicMetadata E st.streamInfo key = .returned (.ok, st.metadata E key) := by
  obtain ⟨info, hinfo⟩ := Option.ne_none_iff_exists'.mp hinfo
  rw [StreamState.metadata, hinfo, Option.map_some, Option.getD_some,
    ← E.stringValue_metadataValue_twice hlaws]
  rfl

/-- The token `%[metadata(key)]`. -/
def metadataToken (key : Str) : Str := "%[metadata(".toList ++ key ++ ")]".toList

/-- Where the token is accepted, it is parsed as a call of `metadata` with the key as it stands. -/
theorem eq_of_parseOperation_metadataToken {E : Envoy M I} {processor : Processor} {key : Str}
    {p : DynamicFunctionProcessor}
    (h : parseOperation E processor (metadataToken key) = .accepted p) :
    p.functionType = .getMetadata ∧ p.functionArgument = key := by
  have hname : stringToFunctionType dynamicValueMetadata = .getMetadata := rfl
  have hopening : "%[metadata(".toList = "%[".toList ++ (dynamicValueMetadata ++ ['(']) := by decide
  have hclosing : ")]".toList = [')'] ++ [']'] := by decide
  have hassoc : ∀ opening name : Str, opening ++ (name ++ ['(']) ++ key ++ ([')'] ++ [']']) =
      opening ++ (name ++ '(' :: key ++ [')']) ++ [']'] := by simp
  -- the token is a call of `metadata` between the delimiters
  have htoken : metadataToken key =
      "%[".toList ++ (dynamicValueMetadata ++ '(' :: key ++ [')']) ++ [']'] :=
    (congrArg₂ (· ++ key ++ ·) hopening hclosing).trans (hassoc _ _)
  rw [htoken, parseOperation_call E processor (by decide) key, hname] at h
  obtain ⟨_, -, h⟩ := Parse.bind_eq_accepted.mp h
  obtain rfl := Parse.accepted.inj h
  exact ⟨rfl, rfl⟩

end DynamicFunctionProcessor

/-! ## One operation -/

namespace HeaderProcessor

/-- What a step writes under a key: the value of a `set-metadata` that returned OK with a true
condition, and whose key evaluated to it. -/
def written (E : Envoy M I) (maps : SetBoolProcessorMaps) (key : Str)
    (j : Completed HeaderProcessor (StreamState M I) Status) : Option Str :=
  match j.item with
  | .setDynamicMetadata q =>
    if j.verdict = .ok ∧
        evaluateCondition (DynamicFunctionProcessor.executeOperation E) maps q.conditionProcessor
          j.before = .returned (.ok, true) ∧
        DynamicFunctionProcessor.executeOperation E q.metadataKey j.before.headers
          j.before.streamInfo = .returned (.ok, key) then
      match DynamicFunctionProcessor.executeOperation E q.metadataValue j.before.headers
        j.before.streamInfo with
      | .returned (.ok, value) => some value
      | _ => none
    else none
  | _ => none

section Step

variable {E : Envoy M I} {maps : SetBoolProcessorMaps} {p : HeaderProcessor}
  {st st' : StreamState M I} {status : Status}

/-- A `set-metadata` that returned OK with a true condition writes its value under its key. -/
theorem written_eq_some {q : SetDynamicMetadataProcessor} {key value : Str}
    (hcondition : evaluateCondition (DynamicFunctionProcessor.executeOperation E) maps
      q.conditionProcessor st = .returned (.ok, true))
    (hkey : DynamicFunctionProcessor.executeOperation E q.metadataKey st.headers st.streamInfo =
      .returned (.ok, key))
    (hvalue : DynamicFunctionProcessor.executeOperation E q.metadataValue st.headers
      st.streamInfo = .returned (.ok, value)) :
    written E maps key ⟨.setDynamicMetadata q, st, .ok, st'⟩ = some value := by
  simp only [written, hcondition, hkey, hvalue, and_self, if_true]

/-- Nothing is written by other operations, nor by a `set-metadata` that fails, that has a false
condition, or whose key is another. -/
theorem written_eq_none {key : Str} {j : Completed HeaderProcessor (StreamState M I) Status}
    (h : ∀ q, j.item = .setDynamicMetadata q → j.verdict ≠ .ok ∨
      evaluateCondition (DynamicFunctionProcessor.executeOperation E) maps q.conditionProcessor
        j.before ≠ .returned (.ok, true) ∨
      DynamicFunctionProcessor.executeOperation E q.metadataKey j.before.headers
        j.before.streamInfo ≠ .returned (.ok, key)) :
    written E maps key j = none := by
  unfold written
  split
  · next q hq =>
    refine if_neg fun ⟨hok, hcondition, hkey⟩ => ?_
    rcases h q hq with hne | hne | hne
    · exact hne hok
    · exact hne hcondition
    · exact hne hkey
  · rfl

/-- A step changes what its state holds under a key exactly as it writes under it. -/
theorem metadata_of_executeOperation (hlaws : E.MetadataLaws)
    (h : p.executeOperation E (DynamicFunctionProcessor.executeOperation E) maps st =
      .returned (status, st')) (key : Str) :
    st'.metadata E key = (written E maps key ⟨p, st, status, st'⟩).getD (st.metadata E key) := by
  -- one kind of step stores to the metadata, and it stores one key
  by_cases hstores : ∃ q, p = .setDynamicMetadata q ∧ status = .ok ∧
      evaluateCondition (DynamicFunctionProcessor.executeOperation E) maps q.conditionProcessor st =
        .returned (.ok, true)
  · obtain ⟨q, rfl, rfl, hcondition⟩ := hstores
    cases effect_of_ok hcondition h with
    | @setDynamicMetadata _ stored value info hkey _ hvalue _ hinfo =>
      have hold : st.metadata E key = E.metadataStore info key := by
        rw [StreamState.metadata, hinfo, Option.map_some, Option.getD_some]
      rw [StreamState.metadata, Option.map_some, Option.getD_some,
        E.metadataStore_storeMetadata hlaws, hold]
      by_cases hsame : key = stored
      -- the key that is read is the one stored
      · subst hsame
        rw [Function.update_self, written_eq_some hcondition hkey hvalue, Option.getD_some]
      -- another key was stored, so that nothing is written under this one
      · have hother : DynamicFunctionProcessor.executeOperation E q.metadataKey st.headers
            st.streamInfo ≠ .returned (.ok, key) := fun heq => by
          obtain ⟨-, rfl⟩ := Outcome.pair_inj (hkey.symm.trans heq)
          exact hsame rfl
        rw [Function.update_of_ne hsame, written_eq_none, Option.getD_none]
        rintro q' ⟨⟩
        exact Or.inr (Or.inr hother)
  · rcases streamInfo_cases h with heq | ⟨q, _, _, _, hq, hok, hcondition, -⟩
    -- any other step leaves the stream info as it is
    · have hsame : st'.metadata E key = st.metadata E key := by
        rw [StreamState.metadata, StreamState.metadata, heq]
      rw [hsame, written_eq_none, Option.getD_none]
      intro q hq
      by_cases hok : status = .ok
      · exact Or.inr (Or.inl fun hcondition => hstores ⟨q, hq, hok, hcondition⟩)
      · exact Or.inl hok
    · exact (hstores ⟨q, hq, hok, hcondition⟩).elim

/-- An operation keeps a stream info that is not null. -/
theorem streamInfo_ne_none_iff {eval : Evaluator M I}
    (h : p.executeOperation E eval maps st = .returned (status, st')) :
    st'.streamInfo ≠ none ↔ st.streamInfo ≠ none := by
  rcases streamInfo_cases h with heq | ⟨_, _, _, _, -, -, -, -, -, -, hinfo, heq⟩
  · rw [heq]
  · simp [heq, hinfo]

/-- Everything that an operation evaluates sees the stream info that it is started with. -/
theorem EvaluatesCall.streamInfo_eq {d : DynamicFunctionProcessor}
    {headers : RequestOrResponseHeaderMap M} {streamInfo : Option I}
    (h : p.EvaluatesCall E maps st d headers streamInfo) : streamInfo = st.streamInfo := by
  cases h with
  | operand hd =>
    obtain ⟨_, _, _, hin⟩ := hd.exists_inTurn
    exact hin.streamInfo_eq
  | source _ => rfl
  | stringToCompare _ _ => rfl

end Step

end HeaderProcessor

/-! ## Runs -/

/-- The state in which a run on headers starts. -/
abbrev StreamState.start (isRequest : Bool) (headers : M) (streamInfo : I) : StreamState M I :=
  ⟨⟨isRequest, headers⟩, some streamInfo⟩

/-- The states of a run of a side: its class of headers, and a stream info. -/
structure OnSide (isRequest : Bool) (st : StreamState M I) : Prop where
  /-- The headers belong to the side. -/
  side : st.headers.isRequestHeaderMap = isRequest
  /-- The stream info is not null. -/
  info : st.streamInfo ≠ none

theorem OnSide.start (isRequest : Bool) (headers : M) (streamInfo : I) :
    OnSide isRequest (.start isRequest headers streamInfo) := ⟨rfl, Option.some_ne_none _⟩

theorem OnSide.withMap {isRequest : Bool} {st : StreamState M I} (h : OnSide isRequest st)
    (map : M) : OnSide isRequest (st.withMap map) := ⟨h.side, h.info⟩

/-- An operation leaves a state of its side. -/
theorem OnSide.executeOperation {E : Envoy M I} {eval : Evaluator M I}
    {maps : SetBoolProcessorMaps} {isRequest : Bool} {p : HeaderProcessor}
    {st st' : StreamState M I} {status : Status} (h : OnSide isRequest st)
    (hstep : p.executeOperation E eval maps st = .returned (status, st')) : OnSide isRequest st' :=
  ⟨(HeaderProcessor.isRequestHeaderMap_eq_of_executeOperation hstep).trans h.side,
    (HeaderProcessor.streamInfo_ne_none_iff hstep).mpr h.info⟩

/-- A state of a side is one that a run could start in. -/
theorem OnSide.exists_eq_start {isRequest : Bool} {st : StreamState M I} (h : OnSide isRequest st) :
    ∃ map info, st = .start isRequest map info := by
  obtain ⟨⟨side, map⟩, info⟩ := st
  obtain ⟨hside, hinfo⟩ := h
  obtain ⟨info, rfl⟩ := Option.ne_none_iff_exists'.mp hinfo
  obtain rfl : side = isRequest := hside
  exact ⟨map, info, rfl⟩

namespace HttpHeaderRewriteFilter

/-- A run ends in a state of its side. -/
theorem onSide_of_executeHeaders {E : Envoy M I} {f : HttpHeaderRewriteFilter} {isRequest : Bool}
    {headers : M} {streamInfo : I} {st : StreamState M I}
    (hrun : executeHeaders E (DynamicFunctionProcessor.executeOperation E) f isRequest headers
      streamInfo = .returned st) : OnSide isRequest st := by
  have hstart := OnSide.start isRequest headers streamInfo
  cases herror : f.error with
  | true =>
    obtain rfl : .start isRequest headers streamInfo = st := by
      simpa only [executeHeaders, herror, if_true, Outcome.returned.injEq] using hrun
    exact hstart
  | false =>
    rw [executeHeaders_of_accepted herror] at hrun
    exact run_invariant hstart (fun p _ st status st' hst hstep => hst.executeOperation hstep) hrun

/-- The operations that the run of a side completes, with their states and verdicts: none if the
configuration is invalid. -/
def completedSteps (E : Envoy M I) (f : HttpHeaderRewriteFilter) (isRequest : Bool) (headers : M)
    (streamInfo : I) : List (Completed HeaderProcessor (StreamState M I) Status) :=
  if f.error then []
  else journal (fun p => p.executeOperation E (DynamicFunctionProcessor.executeOperation E)
    f.setBoolProcessors) (· = Status.ok) (f.headerProcessors isRequest)
    ⟨⟨isRequest, headers⟩, some streamInfo⟩

/-- The points between two operations in a run of `decodeHeaders` and `encodeHeaders` that share a
stream info, each with the operations completed before it and the state there. -/
inductive RunPoint (E : Envoy M I) (f : HttpHeaderRewriteFilter)
    (requestHeaders responseHeaders : M) (streamInfo : I) :
    List (Completed HeaderProcessor (StreamState M I) Status) → StreamState M I → Prop
  | request (n : ℕ) :
      RunPoint E f requestHeaders responseHeaders streamInfo
        ((completedSteps E f true requestHeaders streamInfo).take n)
        (stateAfter ⟨⟨true, requestHeaders⟩, some streamInfo⟩
          ((completedSteps E f true requestHeaders streamInfo).take n))
  | response {st : StreamState M I} {info : I} (n : ℕ) :
      decodeHeaders E f requestHeaders streamInfo = .returned st → st.streamInfo = some info →
      RunPoint E f requestHeaders responseHeaders streamInfo
        (completedSteps E f true requestHeaders streamInfo ++
          (completedSteps E f false responseHeaders info).take n)
        (stateAfter ⟨⟨false, responseHeaders⟩, some info⟩
          ((completedSteps E f false responseHeaders info).take n))

section Runs

variable {E : Envoy M I} {f : HttpHeaderRewriteFilter} {isRequest : Bool} {headers : M}
  {streamInfo : I}

theorem completedSteps_of_accepted (herror : f.error = false) :
    completedSteps E f isRequest headers streamInfo =
      journal (fun p => p.executeOperation E (DynamicFunctionProcessor.executeOperation E)
        f.setBoolProcessors) (· = Status.ok) (f.headerProcessors isRequest)
        ⟨⟨isRequest, headers⟩, some streamInfo⟩ :=
  if_neg (by simp [herror])

/-- A side leaves the state after all operations that it completes. -/
theorem stateAfter_completedSteps {st : StreamState M I}
    (h : executeHeaders E (DynamicFunctionProcessor.executeOperation E) f isRequest headers
      streamInfo = .returned st) :
    stateAfter ⟨⟨isRequest, headers⟩, some streamInfo⟩
      (completedSteps E f isRequest headers streamInfo) = st := by
  unfold completedSteps
  cases herror : f.error with
  | true => simpa [executeHeaders, herror] using h
  | false =>
    rw [executeHeaders_of_accepted herror] at h
    simpa using run_eq_stateAfter h

/-- Every operation completed is one that was executed. -/
theorem executeOperation_of_mem_completedSteps
    {j : Completed HeaderProcessor (StreamState M I) Status}
    (hj : j ∈ completedSteps E f isRequest headers streamInfo) :
    j.item.executeOperation E (DynamicFunctionProcessor.executeOperation E) f.setBoolProcessors
      j.before = .returned (j.verdict, j.after) := by
  unfold completedSteps at hj
  split at hj
  · cases hj
  · exact (step_of_mem_journal hj).2

/-- In the run of a side, a key reads as what was last written under it, or else as at the
start. -/
theorem metadata_stateAfter (hlaws : E.MetadataLaws) (key : Str) (n : ℕ) :
    let history := (completedSteps E f isRequest headers streamInfo).take n
    (stateAfter ⟨⟨isRequest, headers⟩, some streamInfo⟩ history).metadata E key =
      ((history.filterMap (HeaderProcessor.written E f.setBoolProcessors key)).getLast?).getD
        (E.metadataStore streamInfo key) := by
  intro history
  have hstart : (⟨⟨isRequest, headers⟩, some streamInfo⟩ : StreamState M I).metadata E key =
      E.metadataStore streamInfo key := rfl
  cases herror : f.error with
  -- a filter with an error completes no operation
  | true => simp [history, completedSteps, herror, hstart]
  | false =>
    simp only [history, completedSteps_of_accepted herror, ← hstart]
    exact view_lastWritten (StreamState.metadata E · key) _
      (fun j _ hj => HeaderProcessor.metadata_of_executeOperation hlaws hj key) _ n

/-- Every operation that a run starts is started at one of its points. -/
theorem exists_runPoint (herror : f.error = false) (requestHeaders responseHeaders : M) :
    (∀ a ∈ attemptedSteps E f true requestHeaders streamInfo, ∃ history,
      RunPoint E f requestHeaders responseHeaders streamInfo history a.2) ∧
    ∀ st info, decodeHeaders E f requestHeaders streamInfo = .returned st →
      st.streamInfo = some info →
      ∀ a ∈ attemptedSteps E f false responseHeaders info, ∃ history,
        RunPoint E f requestHeaders responseHeaders streamInfo history a.2 := by
  constructor
  · intro a ha
    obtain ⟨n, hn⟩ := exists_stateAfter_of_mem_attempts ha
    rw [← completedSteps_of_accepted herror] at hn
    rw [hn]
    exact ⟨_, .request n⟩
  · intro st info hdecode hinfo a ha
    obtain ⟨n, hn⟩ := exists_stateAfter_of_mem_attempts ha
    rw [← completedSteps_of_accepted herror] at hn
    rw [hn]
    exact ⟨_, .response n hdecode hinfo⟩

/-- In the run of a side the stream info is never null. -/
theorem streamInfo_stateAfter (n : ℕ) :
    (stateAfter ⟨⟨isRequest, headers⟩, some streamInfo⟩
      ((completedSteps E f isRequest headers streamInfo).take n)).streamInfo ≠ none := by
  unfold completedSteps
  split
  · simp
  -- no step makes a stream info null
  · exact stateAfter_invariant (P := fun st : StreamState M I => st.streamInfo ≠ none) (by simp)
      (fun p _ st status st' hst hstep =>
        (HeaderProcessor.streamInfo_ne_none_iff hstep).mpr hst) n

/-- At every point of a run a key reads as what was last written under it, or else as at the
start. -/
theorem RunPoint.metadata_eq (hlaws : E.MetadataLaws) {requestHeaders responseHeaders : M}
    {history : List (Completed HeaderProcessor (StreamState M I) Status)} {st : StreamState M I}
    (h : RunPoint E f requestHeaders responseHeaders streamInfo history st) (key : Str) :
    st.streamInfo ≠ none ∧ st.metadata E key =
      ((history.filterMap (HeaderProcessor.written E f.setBoolProcessors key)).getLast?).getD
        (E.metadataStore streamInfo key) := by
  cases h with
  | request n => exact ⟨streamInfo_stateAfter n, metadata_stateAfter hlaws key n⟩
  | @response st info n hdecode hinfo =>
    refine ⟨streamInfo_stateAfter n, ?_⟩
    -- the response starts with the metadata that the request left
    have hrequest := @metadata_stateAfter _ _ E f true requestHeaders streamInfo hlaws key
      (completedSteps E f true requestHeaders streamInfo).length
    have hleft : st.metadata E key = E.metadataStore info key := by
      rw [StreamState.metadata, hinfo, Option.map_some, Option.getD_some]
    simp only [List.take_length, stateAfter_completedSteps hdecode, hleft] at hrequest
    rw [metadata_stateAfter hlaws, List.filterMap_append, List.getLast?_append, Option.getD_or,
      hrequest]

/-- Every operation of a history is one that was executed. -/
theorem RunPoint.executeOperation_of_mem {requestHeaders responseHeaders : M}
    {history : List (Completed HeaderProcessor (StreamState M I) Status)} {st : StreamState M I}
    (h : RunPoint E f requestHeaders responseHeaders streamInfo history st)
    {j : Completed HeaderProcessor (StreamState M I) Status} (hj : j ∈ history) :
    j.item.executeOperation E (DynamicFunctionProcessor.executeOperation E) f.setBoolProcessors
      j.before = .returned (j.verdict, j.after) := by
  cases h with
  | request n => exact executeOperation_of_mem_completedSteps (List.mem_of_mem_take hj)
  | response n _ _ =>
    rcases List.mem_append.mp hj with hj | hj
    · exact executeOperation_of_mem_completedSteps hj
    · exact executeOperation_of_mem_completedSteps (List.mem_of_mem_take hj)

end Runs

/-- At every point of a run on a request and on its response, between two operations as well as
inside one, `%[metadata(key)]` reads what the last `set-metadata` before it wrote that returned OK
with a true condition and whose key evaluated to `key`, or else what the key held at the start. Any
other `set-metadata` does not change what it reads. -/
theorem metadata_lastWritten {E : Envoy M I} (hlaws : E.MetadataLaws) (f : HttpHeaderRewriteFilter)
    {processor : Processor} {key : Str} {p : DynamicFunctionProcessor}
    (hp : DynamicFunctionProcessor.parseOperation E processor
      (DynamicFunctionProcessor.metadataToken key) = .accepted p)
    {requestHeaders responseHeaders : M} {streamInfo : I}
    {history : List (Completed HeaderProcessor (StreamState M I) Status)} {st : StreamState M I}
    (hpoint : RunPoint E f requestHeaders responseHeaders streamInfo history st) :
    let lastWritten :=
      ((history.filterMap (HeaderProcessor.written E f.setBoolProcessors key)).getLast?).getD
        (E.metadataStore streamInfo key)
    (∀ headers, DynamicFunctionProcessor.executeOperation E p headers st.streamInfo =
      .returned (.ok, lastWritten)) ∧
    (∀ (q : HeaderProcessor) headers streamInfo',
      q.EvaluatesCall E f.setBoolProcessors st p headers streamInfo' →
      DynamicFunctionProcessor.executeOperation E p headers streamInfo' =
        .returned (.ok, lastWritten)) ∧
    ∀ j ∈ history, ∀ q, j.item = .setDynamicMetadata q →
      (j.verdict ≠ .ok ∨
        evaluateCondition (DynamicFunctionProcessor.executeOperation E) f.setBoolProcessors
          q.conditionProcessor j.before ≠ .returned (.ok, true) ∨
        DynamicFunctionProcessor.executeOperation E q.metadataKey j.before.headers
          j.before.streamInfo ≠ .returned (.ok, key)) →
      ∀ headers, DynamicFunctionProcessor.executeOperation E p headers j.after.streamInfo =
        DynamicFunctionProcessor.executeOperation E p headers j.before.streamInfo := by
  obtain ⟨htype, hargument⟩ := DynamicFunctionProcessor.eq_of_parseOperation_metadataToken hp
  obtain ⟨hinfo, hmetadata⟩ := hpoint.metadata_eq hlaws key
  -- the operand reads the store of whatever stream info it is given
  have hreads : ∀ {st : StreamState M I}, st.streamInfo ≠ none → ∀ headers,
      DynamicFunctionProcessor.executeOperation E p headers st.streamInfo =
        .returned (.ok, st.metadata E key) := fun hinfo headers => by
    rw [DynamicFunctionProcessor.executeOperation_getMetadata htype, hargument,
      DynamicFunctionProcessor.getDynamicMetadata_eq hlaws hinfo]
  intro lastWritten
  refine ⟨fun headers => ?_, fun q headers streamInfo' hcall => ?_,
    fun j hj q hq hnot headers => ?_⟩
  · rw [hreads hinfo, hmetadata]
  · rw [hcall.streamInfo_eq, hreads hinfo, hmetadata]
  · have hstep := hpoint.executeOperation_of_mem hj
    -- such a step writes nothing under the key
    have hnone : HeaderProcessor.written E f.setBoolProcessors key j = none :=
      HeaderProcessor.written_eq_none fun q' hq' => by
        obtain rfl : q = q' := by
          rw [hq] at hq'
          exact HeaderProcessor.setDynamicMetadata.inj hq'
        exact hnot
    have hsame : j.after.metadata E key = j.before.metadata E key := by
      rw [HeaderProcessor.metadata_of_executeOperation hlaws hstep key, hnone, Option.getD_none]
    have hkept := HeaderProcessor.streamInfo_ne_none_iff hstep
    -- a step keeps a null stream info as well, where both reads return the same
    by_cases hbefore : j.before.streamInfo = none
    · rw [hbefore, not_ne_iff.mp fun hne => hkept.mp hne hbefore]
    · rw [hreads (hkept.mpr hbefore), hreads hbefore, hsame]

/-- After `set-metadata k, v` on the request, `%[metadata(k,)]` reads `v` on the response. -/
theorem metadata_lastWritten_response :
    ∃ f st info, construct Reference.envoy "http-request set-metadata k, v".toList =
        .returned f ∧
      decodeHeaders Reference.envoy f [] [] = .returned st ∧ st.streamInfo = some info ∧
      DynamicFunctionProcessor.executeOperation Reference.envoy
        ⟨.ofSide false, .getMetadata, "k,".toList⟩ ⟨false, []⟩ (some info) =
          .returned (.ok, "v".toList) := by
  obtain ⟨f, hf, htest⟩ := Outcome.exists_of_returnsWith
    (show (construct Reference.envoy "http-request set-metadata k, v".toList).returnsWith
      (fun f => (decodeHeaders Reference.envoy f [] []).returnsWith (·.streamInfo.isSome) &&
        decide (((completedSteps Reference.envoy f true [] []).filterMap
          (HeaderProcessor.written Reference.envoy f.setBoolProcessors "k,")).getLast? =
            some "v".toList)) = true by decide +kernel)
  obtain ⟨hrun, hlast⟩ := Bool.and_eq_true_iff.mp htest
  obtain ⟨st, hst, hsome⟩ := Outcome.exists_of_returnsWith hrun
  obtain ⟨info, hinfo⟩ := Option.isSome_iff_exists.mp hsome
  refine ⟨f, st, info, hf, hst, hinfo, ?_⟩
  have hp : DynamicFunctionProcessor.parseOperation Reference.envoy (.ofSide false)
      (DynamicFunctionProcessor.metadataToken "k,") =
      .accepted ⟨.ofSide false, .getMetadata, "k,".toList⟩ := by decide +kernel
  have hpoint : RunPoint Reference.envoy f [] [] [] _ _ := .response 0 hst hinfo
  have hread := (metadata_lastWritten Reference.metadataLaws f hp hpoint).1 ⟨false, []⟩
  rw [List.take_zero, List.append_nil, of_decide_eq_true hlast] at hread
  exact hread

end HttpHeaderRewriteFilter

end HeaderRewrite
