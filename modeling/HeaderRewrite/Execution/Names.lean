import HeaderRewrite.Execution.Metadata

/-!
# The names that the filter writes

A run adds to the names of a header map those that its operations write, and removes none. A name
that is computed can come out empty: `set-metadata` rejects an empty key, while `set-header` and
`append-header` write an entry without a name.

## Main definitions

* `Envoy.HasName`: the names of a header map;
* `HeaderProcessor.WritesName`: the names that an operation writes;
* `HeaderProcessor.WritesEmptyName`: an operation on headers has an empty key.

## Main results

* `HeaderProcessor.hasName_executeOperation_iff`: the names after one operation;
* `HttpHeaderRewriteFilter.executeHeaders_hasName_iff`: the names after a run;
* `HttpHeaderRewriteFilter.nameless_iff`: when a run writes no nameless entry.
-/

namespace HeaderRewrite

open Cxx Utility HttpHeaderRewriteFilter

variable {M I : Type}

/-- A header map has an entry of a name. -/
def Envoy.HasName (E : Envoy M I) (map : M) (name : Str) : Prop := E.get map name ≠ []

/-! ## The names that are written -/

namespace Envoy

section Names

variable {E : Envoy M I}

theorem hasName_setCopy_iff (hheaders : E.HeaderLaws) (map : M) (key value name : Str) :
    E.HasName (E.setCopy map key value) name ↔ E.HasName map name ∨ name = key := by
  rw [HasName, hheaders.get_setCopy, HasName]
  by_cases hname : name = key <;> simp [hname]

theorem hasName_appendCopy_iff (hheaders : E.HeaderLaws) (map : M) (key value name : Str) :
    E.HasName (E.appendCopy map key value) name ↔ E.HasName map name ∨ name = key := by
  rw [HasName, hheaders.get_appendCopy, HasName]
  by_cases hname : name = key
  · cases E.get map key <;> simp [hname, appendToEntries]
  · simp [hname]

theorem hasName_setPath_iff (hheaders : E.HeaderLaws) (map : M) (value name : Str) :
    E.HasName (E.setPath map value) name ↔ E.HasName map name ∨ name = ":path".toList := by
  rw [HasName, hheaders.get_setPath, HasName]
  by_cases hname : name = ":path".toList
  · simp [hname, -String.reduceToList]
  · rw [if_neg hname, or_iff_left hname]

end Names

end Envoy

/-- Values appended in turn add the name, if there are any. -/
theorem AppendHeaderProcessor.InTurn.hasName_iff {E : Envoy M I} (hheaders : E.HeaderLaws)
    {eval : Evaluator M I} {key : Str} {headerVals : List DynamicFunctionProcessor}
    {st st' : StreamState M I} {values : List Str}
    (h : InTurn E eval key headerVals st values st') (name : Str) :
    E.HasName st'.headers.map name ↔
      E.HasName st.headers.map name ∨ headerVals ≠ [] ∧ name = E.lowerCaseString key := by
  induction h with
  | nil => simp
  | cons _ _ ih =>
    -- the first value adds the name, and the others find it there
    refine ih.trans ?_
    have happend := Envoy.hasName_appendCopy_iff hheaders
    simp only [StreamState.withMap, happend]
    tauto

namespace HeaderProcessor

/-- The names that an operation writes to the headers. An `append-header` writes its name as soon
as its first value is evaluated. -/
def WritesName (E : Envoy M I) (eval : Evaluator M I) (maps : SetBoolProcessorMaps)
    (p : HeaderProcessor) (st : StreamState M I) (name : Str) : Prop :=
  evaluateCondition eval maps p.conditionProcessor st = .returned (.ok, true) ∧
  match p with
  | setHeader q => ∃ key value,
      eval q.headerKey st.headers st.streamInfo = .returned (.ok, key) ∧
      eval q.headerVal st.headers st.streamInfo = .returned (.ok, value) ∧
      name = E.lowerCaseString key
  | appendHeader q => ∃ key d rest value,
      eval q.headerKey st.headers st.streamInfo = .returned (.ok, key) ∧
      q.headerVals = d :: rest ∧
      eval d st.headers st.streamInfo = .returned (.ok, value) ∧
      name = E.lowerCaseString key
  | setPath q => (eval q.requestPath st.headers st.streamInfo).Returns ∧ name = ":path".toList
  | setDynamicMetadata _ => False

section Step

variable {E : Envoy M I} {eval : Evaluator M I} {maps : SetBoolProcessorMaps}
  {p : HeaderProcessor} {st st' : StreamState M I} {status : Status}

/-- How an `append-header` with a true condition returns: its key does not succeed, or the values
before the first that does not succeed are appended. -/
theorem appendHeader_cases {q : AppendHeaderProcessor}
    (hcondition : evaluateCondition eval maps q.conditionProcessor st = .returned (.ok, true))
    (h : (appendHeader q).executeOperation E eval maps st = .returned (status, st')) :
    (st' = st ∧ ∀ key, eval q.headerKey st.headers st.streamInfo ≠ .returned (.ok, key)) ∨
      ∃ key before after values,
        eval q.headerKey st.headers st.streamInfo = .returned (.ok, key) ∧
        q.headerVals = before ++ after ∧
        AppendHeaderProcessor.InTurn E eval key before st values st' ∧
        ∀ d rest value, after = d :: rest →
          eval d st'.headers st'.streamInfo ≠ .returned (.ok, value) := by
  rw [executeOperation, appendHeader_of_true hcondition] at h
  obtain ⟨⟨keyStatus, key⟩, hkey, h⟩ := Outcome.bind_eq_returned.mp h
  by_cases hks : keyStatus = .ok
  · subst hks
    right
    simp only [ne_eq, not_true_eq_false, if_false] at h
    -- the loop over the values ends after the last or before one that fails
    rcases AppendHeaderProcessor.appendValues_cases E eval key q.headerVals st with
      ⟨values, st₁, hin⟩ | ⟨before, d, after, values, st₁, hvals, hin, hfails⟩
    · have hall := hin.appendValues_append []
      rw [List.append_nil, h] at hall
      obtain ⟨-, rfl⟩ := Outcome.pair_inj hall
      exact ⟨key, q.headerVals, [], values, hkey, (List.append_nil _).symm, hin,
        fun d rest value h => by cases h⟩
    · rw [hvals, hin.appendValues_stops after hfails] at h
      obtain ⟨⟨status', value⟩, -, h⟩ := Outcome.bind_eq_returned.mp h
      obtain ⟨-, rfl⟩ := Outcome.pair_inj h
      refine ⟨key, before, d :: after, values, hkey, hvals, hin, ?_⟩
      rintro _ _ value ⟨⟩
      exact hfails value
  · left
    dsimp only at h
    rw [if_pos hks] at h
    refine ⟨(Outcome.pair_inj h).2.symm, fun key' hkey' => hks ?_⟩
    exact (Outcome.pair_inj (hkey.symm.trans hkey')).1

/-- The names after an operation are those before it and those that it writes. -/
theorem hasName_executeOperation_iff (hheaders : E.HeaderLaws)
    (h : p.executeOperation E eval maps st = .returned (status, st')) (name : Str) :
    E.HasName st'.headers.map name ↔
      E.HasName st.headers.map name ∨ WritesName E eval maps p st name := by
  by_cases hcondition : evaluateCondition eval maps p.conditionProcessor st = .returned (.ok, true)
  · unfold WritesName
    rw [and_iff_right hcondition]
    cases p with
    | setHeader q =>
      -- `set-header` writes once both operands have succeeded, and returns `ok` then
      by_cases hstatus : status = .ok
      · subst hstatus
        cases effect_of_ok hcondition h with
        | setHeader hkey hvalue =>
          refine (E.hasName_setCopy_iff hheaders _ _ _ _).trans (or_congr_right ?_)
          simp [hkey, hvalue]
      · rcases failed_cases hcondition hstatus h with rfl | ⟨_, _, _, _, _, _, _, hq, -⟩
        · refine (or_iff_left ?_).symm
          rintro ⟨key, value, hkey, hvalue, -⟩
          -- had both operands succeeded, so had the operation
          have heffect := executeOperation_of_effect (E := E) hcondition (.setHeader hkey hvalue)
          exact hstatus (Outcome.pair_inj (h.symm.trans heffect)).1
        · cases hq
    | appendHeader q =>
      rcases appendHeader_cases hcondition h with
        ⟨rfl, hfails⟩ | ⟨key, before, after, values, hkey, hvals, hin, hstops⟩
      · refine (or_iff_left ?_).symm
        rintro ⟨key, _, _, _, hkey, -⟩
        exact hfails key hkey
      · refine (hin.hasName_iff hheaders name).trans (or_congr_right ?_)
        -- one value that is appended is enough to write the name
        cases hin with
        | nil =>
          refine iff_of_false (fun h => h.1 rfl) ?_
          rintro ⟨_, d, rest, value, -, hvals', hvalue, -⟩
          exact hstops d rest value (hvals.symm.trans hvals') hvalue
        | @cons d rest value _ _ _ hvalue _ =>
          refine ⟨fun h => ⟨key, d, rest ++ after, value, hkey, hvals, hvalue, h.2⟩, ?_⟩
          rintro ⟨key', _, _, _, hkey', -, -, hname⟩
          obtain ⟨-, rfl⟩ := Outcome.pair_inj (hkey.symm.trans hkey')
          exact ⟨List.cons_ne_nil _ _, hname⟩
    | setPath q =>
      rw [executeOperation, setPath_of_true hcondition] at h
      obtain ⟨⟨pathStatus, newPath⟩, hpath, h⟩ := Outcome.bind_eq_returned.mp h
      dsimp only at h
      split at h
      -- `set-path` does not look at the status of its operand
      · obtain ⟨-, rfl⟩ := Outcome.pair_inj h
        refine (E.hasName_setPath_iff hheaders _ _ _).trans (or_congr_right ?_)
        exact (and_iff_right ⟨_, hpath⟩).symm
      · cases h
    | setDynamicMetadata q =>
      -- `set-metadata` changes the stream info only
      rcases state_cases h with rfl | ⟨-, -, heffect⟩ | ⟨_, _, _, _, _, _, hq, -⟩
      · exact (or_iff_left fun h => h).symm
      · cases heffect
        exact (or_iff_left fun h => h).symm
      · cases hq
  -- without a true condition nothing is written
  · rw [eq_of_condition_ne hcondition h]
    exact (or_iff_left fun hwrites => hcondition hwrites.1).symm

end Step

/-- An operation on headers has a true condition and an empty key, and a value to write under it. -/
def WritesEmptyName (eval : Evaluator M I) (maps : SetBoolProcessorMaps)
    (p : HeaderProcessor) (st : StreamState M I) : Prop :=
  evaluateCondition eval maps p.conditionProcessor st = .returned (.ok, true) ∧
  match p with
  | setHeader q =>
    eval q.headerKey st.headers st.streamInfo = .returned (.ok, []) ∧
      ∃ value, eval q.headerVal st.headers st.streamInfo = .returned (.ok, value)
  | appendHeader q =>
    eval q.headerKey st.headers st.streamInfo = .returned (.ok, []) ∧
      ∃ d rest value, q.headerVals = d :: rest ∧
        eval d st.headers st.streamInfo = .returned (.ok, value)
  | _ => False

/-- The empty name is written exactly under an empty key. -/
theorem writesName_nil_iff {E : Envoy M I} (hstring : E.StringLaws) {eval : Evaluator M I}
    {maps : SetBoolProcessorMaps} {p : HeaderProcessor} {st : StreamState M I} :
    WritesName E eval maps p st [] ↔ WritesEmptyName eval maps p st := by
  -- letter case does not make a name empty
  have hlower : ∀ key, [] = E.lowerCaseString key ↔ key = [] := fun key => by
    rw [hstring.lowerCaseString_eq, eq_comm, List.map_eq_nil_iff]
  refine and_congr_right fun _ => ?_
  cases p with
  | setHeader q =>
    constructor
    · rintro ⟨key, value, hkey, hvalue, hname⟩
      obtain rfl := (hlower key).mp hname
      exact ⟨hkey, value, hvalue⟩
    · rintro ⟨hkey, value, hvalue⟩
      exact ⟨[], value, hkey, hvalue, (hlower []).mpr rfl⟩
  | appendHeader q =>
    constructor
    · rintro ⟨key, d, rest, value, hkey, hvals, hvalue, hname⟩
      obtain rfl := (hlower key).mp hname
      exact ⟨hkey, d, rest, value, hvals, hvalue⟩
    · rintro ⟨hkey, d, rest, value, hvals, hvalue⟩
      exact ⟨[], d, rest, value, hkey, hvals, hvalue, (hlower []).mpr rfl⟩
  | setPath q => exact iff_of_false (fun h => by cases h.2) fun h => h
  | setDynamicMetadata q => exact Iff.rfl

/-- No operation writes to the metadata under an empty key. -/
theorem key_ne_nil_of_written {E : Envoy M I} {maps : SetBoolProcessorMaps}
    {j : Completed HeaderProcessor (StreamState M I) Status} {key value : Str}
    (hj : j.item.executeOperation E (DynamicFunctionProcessor.executeOperation E) maps j.before =
      .returned (j.verdict, j.after)) (hwritten : written E maps key j = some value) :
    key ≠ [] := by
  obtain ⟨item, before, verdict, after⟩ := j
  unfold written at hwritten
  split at hwritten
  · next q hq =>
    split at hwritten
    · next hwrites =>
      obtain ⟨rfl, hcondition, hkey⟩ := hwrites
      obtain rfl : item = _ := hq
      dsimp only at hj hkey hcondition
      -- `set-metadata` rejects an empty key before it stores anything
      cases effect_of_ok hcondition hj with
      | setDynamicMetadata hkey' hne _ _ _ =>
        obtain ⟨-, rfl⟩ := Outcome.pair_inj (hkey.symm.trans hkey')
        exact hne
    · cases hwritten
  · cases hwritten

/-- No operation changes the field under the empty key. -/
theorem metadataField_nil_of_executeOperation {E : Envoy M I} (hlaws : E.MetadataLaws)
    {eval : Evaluator M I} {maps : SetBoolProcessorMaps} {p : HeaderProcessor}
    {st st' : StreamState M I} {status : Status}
    (h : p.executeOperation E eval maps st = .returned (status, st')) :
    st'.streamInfo.map (E.metadataField · []) = st.streamInfo.map (E.metadataField · []) := by
  rcases streamInfo_cases h with
    heq | ⟨_, key, value, info, -, -, -, -, hne, -, hinfo, heq⟩
  · rw [heq]
  · rw [heq, hinfo, Option.map_some, Option.map_some, E.metadataField_storeMetadata hlaws,
      if_neg hne.symm]

end HeaderProcessor

/-! ## Runs -/

namespace HttpHeaderRewriteFilter

section Runs

variable {E : Envoy M I} {f : HttpHeaderRewriteFilter} {isRequest : Bool} {headers : M}
  {streamInfo : I} {st : StreamState M I}

/-- The names after a run are those before it and those that a step of it writes. -/
theorem executeHeaders_hasName_iff (hheaders : E.HeaderLaws) (herror : f.error = false)
    (h : executeHeaders E (DynamicFunctionProcessor.executeOperation E) f isRequest headers
      streamInfo = .returned st) (name : Str) :
    E.HasName st.headers.map name ↔ E.HasName headers name ∨
      ∃ a ∈ attemptedSteps E f isRequest headers streamInfo,
        a.1.WritesName E (DynamicFunctionProcessor.executeOperation E) f.setBoolProcessors a.2
          name := by
  rw [executeHeaders_of_accepted herror] at h
  exact run_grows_iff (P := fun st => E.HasName st.headers.map name)
    (fun p _ st status st' hstep =>
      HeaderProcessor.hasName_executeOperation_iff hheaders hstep name) h

/-- A run does not change the field under the empty key. -/
theorem executeHeaders_metadataField_nil (hlaws : E.MetadataLaws) (herror : f.error = false)
    (h : executeHeaders E (DynamicFunctionProcessor.executeOperation E) f isRequest headers
      streamInfo = .returned st) :
    st.streamInfo.map (E.metadataField · []) = some (E.metadataField streamInfo []) := by
  rw [executeHeaders_of_accepted herror] at h
  exact run_invariant (P := fun st => st.streamInfo.map (E.metadataField · []) =
    some (E.metadataField streamInfo [])) rfl
    (fun p _ st status st' hst hstep =>
      (HeaderProcessor.metadataField_nil_of_executeOperation hlaws hstep).trans hst) h

end Runs

/-- `decodeHeaders` and `encodeHeaders` leave headers without a nameless entry, where there was
none, exactly if no `set-header` and no `append-header` that is started has a true condition, an
empty key and a value. They never write to the metadata under an empty key. -/
theorem nameless_iff {E : Envoy M I} (hstring : E.StringLaws) (hheaders : E.HeaderLaws)
    (hmetadata : E.MetadataLaws) {f : HttpHeaderRewriteFilter} (herror : f.error = false)
    (isRequest : Bool) {headers : M} {streamInfo : I} {st : StreamState M I}
    (hnames : ∀ name, E.HasName headers name → name ≠ [])
    (h : executeHeaders E (DynamicFunctionProcessor.executeOperation E) f isRequest headers
      streamInfo = .returned st) :
    ((∀ name, E.HasName st.headers.map name → name ≠ []) ↔
      ∀ a ∈ attemptedSteps E f isRequest headers streamInfo,
        ¬ a.1.WritesEmptyName (DynamicFunctionProcessor.executeOperation E) f.setBoolProcessors
          a.2) ∧
    (∀ j ∈ completedSteps E f isRequest headers streamInfo, ∀ key value,
      HeaderProcessor.written E f.setBoolProcessors key j = some value → key ≠ []) ∧
    ∀ info, st.streamInfo = some info →
      E.metadataField info [] = E.metadataField streamInfo [] := by
  refine ⟨?_, fun j hj key value hwritten => ?_, fun info hinfo => ?_⟩
  -- the empty name is there at the end exactly if some step wrote it
  · have hfinal := executeHeaders_hasName_iff hheaders herror h []
    rw [or_iff_right fun hname => hnames [] hname rfl] at hfinal
    simp only [HeaderProcessor.writesName_nil_iff hstring] at hfinal
    constructor
    · intro hall a ha hwrites
      exact hall [] (hfinal.mpr ⟨a, ha, hwrites⟩) rfl
    · rintro hnone _ hname rfl
      obtain ⟨a, ha, hwrites⟩ := hfinal.mp hname
      exact hnone a ha hwrites
  · exact HeaderProcessor.key_ne_nil_of_written (executeOperation_of_mem_completedSteps hj) hwritten
  · have hfield := executeHeaders_metadataField_nil hmetadata herror h
    rw [hinfo, Option.map_some] at hfield
    exact Option.some.inj hfield

/-- With a named key, `set-header` writes no nameless entry. -/
theorem nameless_set_named :
    ∃ f st, construct Reference.envoy "http-request set-header %[hdr(x)] v".toList =
        .returned f ∧
      decodeHeaders Reference.envoy f [("x".toList, "k".toList)] [] = .returned st ∧
      ∀ a ∈ attemptedSteps Reference.envoy f true [("x".toList, "k".toList)] [],
        ¬ a.1.WritesEmptyName (DynamicFunctionProcessor.executeOperation Reference.envoy)
          f.setBoolProcessors a.2 := by
  obtain ⟨f, hf, htest⟩ := Outcome.exists_of_returnsWith
    (show (construct Reference.envoy "http-request set-header %[hdr(x)] v".toList).returnsWith
      (fun f => !f.error && (decodeHeaders Reference.envoy f [("x".toList, "k".toList)]
        []).returnsWith fun st => decide (st.headers.map =
          [("x".toList, "k".toList), ("k".toList, "v".toList)])) = true by decide +kernel)
  obtain ⟨herror, hrun⟩ := Bool.and_eq_true_iff.mp htest
  obtain ⟨st, hst, hmap⟩ := Outcome.exists_of_returnsWith hrun
  have hnames : ∀ name, Reference.envoy.HasName [("x".toList, "k".toList)] name → name ≠ [] := by
    rintro _ hname rfl
    exact hname (by decide +kernel)
  refine ⟨f, st, hf, hst, (nameless_iff Reference.stringLaws Reference.headerLaws
    Reference.metadataLaws (by simpa using herror) true hnames hst).1.mp ?_⟩
  rintro _ hname rfl
  rw [of_decide_eq_true hmap] at hname
  exact hname (by decide +kernel)

/-- On a request without `x`, `set-header %[hdr(x)] v` writes a nameless entry. -/
theorem not_nameless_missing :
    ∃ f st, construct Reference.envoy "http-request set-header %[hdr(x)] v".toList =
        .returned f ∧ f.error = false ∧
      (∀ name, Reference.envoy.HasName [(":path".toList, "/".toList)] name → name ≠ []) ∧
      decodeHeaders Reference.envoy f [(":path".toList, "/".toList)] [] = .returned st ∧
      ¬ ∀ name, Reference.envoy.HasName st.headers.map name → name ≠ [] := by
  obtain ⟨f, hf, htest⟩ := Outcome.exists_of_returnsWith
    (show (construct Reference.envoy "http-request set-header %[hdr(x)] v".toList).returnsWith
      (fun f => !f.error && (decodeHeaders Reference.envoy f [(":path".toList, "/".toList)]
        []).returnsWith fun st => decide (st.headers.map =
          [(":path".toList, "/".toList), ([], "v".toList)])) = true by decide +kernel)
  obtain ⟨herror, hrun⟩ := Bool.and_eq_true_iff.mp htest
  obtain ⟨st, hst, hmap⟩ := Outcome.exists_of_returnsWith hrun
  refine ⟨f, st, hf, by simpa using herror, ?_, hst, fun hall => hall [] ?_ rfl⟩
  · rintro _ hname rfl
    exact hname (by decide +kernel)
  · rw [of_decide_eq_true hmap]
    simp only [Envoy.HasName]
    decide +kernel

end HttpHeaderRewriteFilter

end HeaderRewrite
