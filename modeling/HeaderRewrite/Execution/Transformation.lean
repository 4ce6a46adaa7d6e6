import HeaderRewrite.Execution.Diagnostics
import HeaderRewrite.Execution.Store

/-!
# A run does to the contents what the filter says

Evaluating an operand, a variable or a condition in a state agrees with its value in the contents of
the state. An operation that returns leaves the contents that it makes of those it found, and the
run goes on after it exactly if it says so. By the rule for runs, so does a run.

## Main results

* `DynamicFunctionProcessor.agrees_executeOperation`, `SetBoolProcessor.agrees_executeOperation`,
  `agrees_evaluateCondition`: evaluation and values;
* `HeaderProcessor.simulates`: one operation;
* `HttpHeaderRewriteFilter.store_of_executeHeaders`: a run;
* `HttpHeaderRewriteFilter.exchange_store`: a request and its response.
-/

namespace HeaderRewrite

open Cxx Utility Envoy HttpHeaderRewriteFilter

variable {M I : Type}

/-! ## Operands -/

namespace DynamicFunctionProcessor

section Operands

variable {E : Envoy M I} {isRequest : Bool} {st : StreamState M I}

/-- A header is read as in the contents. -/
theorem agrees_getHeaderValue (hstrings : E.StringLaws) (hheaders : E.HeaderLaws) (key : Str)
    (position : ℤ) : (getHeaderValue E st.headers key position).Agrees .ok
      ((st.store E).header key position) := by
  have hentries : (st.store E).entries (key.map Char.toLower) =
      E.get st.headers.map (E.lowerCaseString key) := by
    rw [hstrings.lowerCaseString_eq]
    rfl
  rw [Store.header, hentries]
  cases hjoin : joinEntries (E.get st.headers.map (E.lowerCaseString key)) with
  | none =>
    have hstore : E.headerStore st.headers.map (E.lowerCaseString key) = none := by
      rw [headerStore, hjoin]
      rfl
    rw [getHeaderValue_of_none hheaders hstore]
    exact .some
  | some text =>
    have hstore : E.headerStore st.headers.map (E.lowerCaseString key) =
        some (pieces ',' text) := by
      rw [headerStore, hjoin]
      rfl
    rw [getHeaderValue_of_some hstrings hheaders hstore]
    dsimp only [elementAt]
    generalize (if position < 0 then _ else position) = index
    split
    · exact .none (by simp [positionOutOfBounds, -String.reduceToList])
    · exact .some

/-- Evaluating an operand agrees with its value. -/
theorem agrees_executeOperation (hstrings : E.StringLaws) (hheaders : E.HeaderLaws)
    (hmetadata : E.MetadataLaws) {d : DynamicFunctionProcessor} (hwf : d.WellFormed E)
    (hside : d.toProcessor = .ofSide isRequest) (hst : OnSide isRequest st) :
    (executeOperation E d st.headers st.streamInfo).Agrees .ok
      (d.value E.parseQueryString (st.store E)) := by
  have harguments : d.arguments E = pieces ',' d.functionArgument := hstrings.splitToken_eq _ _ true
  have hlength : (E.splitToken d.functionArgument "," false true).length =
      (pieces ',' d.functionArgument).length := congrArg List.length harguments
  cases htype : d.functionType with
  | getHdr =>
    simp only [WellFormed, htype, hlength] at hwf
    rcases hwf with hone | htwo
    · obtain ⟨key, hkey⟩ := List.length_eq_one_iff.mp hone
      rw [executeOperation_hdr htype (harguments.trans hkey), value, htype, hkey]
      exact agrees_getHeaderValue hstrings hheaders key (-1)
    · obtain ⟨key, position, hkey⟩ := List.length_eq_two.mp htwo
      rw [executeOperation_hdr_position htype (harguments.trans hkey), value, htype, hkey]
      dsimp only
      cases stoi position with
      | returned n => exact agrees_getHeaderValue hstrings hheaders key n
      | threw e => exact .threw
      | undefined u => exact .undefined
  | urlp =>
    simp only [WellFormed, htype, hlength] at hwf
    obtain ⟨param, hparam⟩ := List.length_eq_one_iff.mp hwf.1
    -- the operand was accepted, so that the headers are those of a request
    have hrequest : st.headers.isRequestHeaderMap = true := by
      rw [hst.side, ← Processor.isRequest_ofSide isRequest, ← hside]
      exact hwf.2
    rw [executeOperation_urlp htype (harguments.trans hparam), value, htype, hparam]
    simp only [getUrlp, hrequest, hheaders.pathEntry_eq, StreamState.store]
    cases (E.get st.headers.map ":path").head? with
    | none => exact .undefined
    | some path =>
      cases hlookup : (E.parseQueryString path).lookup param with
      | none =>
        simp only [Option.map_some, hlookup]
        exact .some
      | some value =>
        simp only [Option.map_some, hlookup]
        exact .some
  | getMetadata =>
    rw [executeOperation_getMetadata htype, getDynamicMetadata_eq hmetadata hst.info, value, htype]
    exact .some
  | static =>
    rw [executeOperation_static htype, value, htype]
    exact .some
  | invalidFunctionType =>
    simp only [WellFormed, htype] at hwf

end Operands

end DynamicFunctionProcessor

/-! ## Variables and conditions -/

/-- What a matcher returns is whether the source matches. -/
theorem matchesText_of_matcher {matchType : MatchType} {source text : Str} {matched : Bool}
    (h : SetBoolProcessor.matcher matchType source text = .returned matched) :
    matchesText matchType source text = matched := by
  have hpositive : source.length > 0 ↔ source ≠ [] := List.length_pos_iff
  cases matchType with
  | exact =>
    obtain rfl := Outcome.returned.inj h
    simp only [matchesText, hpositive]
  | prefixOf =>
    simp only [SetBoolProcessor.matcher, hpositive] at h
    split at h
    · next hne =>
      obtain ⟨position, hposition, h⟩ := Outcome.bind_eq_returned.mp h
      obtain rfl := Outcome.returned.inj h
      -- what is read is the source with its terminating NUL, and no more of it
      have hlength : text.length ≤ source.length + 1 := by
        by_contra hlong
        rw [findChars, if_neg hlong] at hposition
        cases hposition
      obtain ⟨position', hposition', hzero⟩ := findChars_of_le hlength
      obtain rfl := Outcome.returned.inj (hposition'.symm.trans hposition)
      simp only [matchesText, hne, ne_eq, not_false_eq_true, decide_true, Bool.true_and,
        List.prefix_concat_iff, hzero, or_comm]
    · next hnil =>
      obtain rfl := Outcome.returned.inj h
      simp [matchesText, hnil]
  | substr =>
    obtain rfl := Outcome.returned.inj h
    have hfound : decide (text <:+: source) = (find source text 0).isSome := by
      rw [Bool.eq_iff_iff, decide_eq_true_iff, isSome_find_iff]
    simp only [matchesText, hpositive, hfound]
  | found =>
    obtain rfl := Outcome.returned.inj h
    simp only [matchesText, hpositive, Bool.and_true]
  | invalidMatchType =>
    obtain rfl := Outcome.returned.inj h
    simp only [matchesText, Bool.and_false]

/-- Reading a variable agrees with its value. -/
theorem SetBoolProcessor.agrees_executeOperation {E : Envoy M I} {isRequest : Bool}
    {st : StreamState M I} (hstrings : E.StringLaws) (hheaders : E.HeaderLaws)
    (hmetadata : E.MetadataLaws) {q : SetBoolProcessor}
    (hq : ∀ d ∈ q.operands, d.WellFormed E ∧ d.toProcessor = .ofSide isRequest)
    (hst : OnSide isRequest st) (negate : Bool) :
    (q.executeOperation (DynamicFunctionProcessor.executeOperation E) st.headers st.streamInfo
        negate).Agrees .ok
      ((q.value E.parseQueryString (st.store E)).map fun value =>
        if negate then !value else value) := by
  obtain ⟨hsource, hsourceSide⟩ := hq q.sourceProcessor (by simp [operands])
  obtain ⟨htext, htextSide⟩ := hq q.stringToCompareFunctionProcessor (by simp [operands])
  have hmatch : ∀ source text, Outcome.Agrees Status.ok (do
        let boolResult ← matcher q.matchType source text
        return (.ok, if negate then !boolResult else boolResult))
      (some (if negate then !matchesText q.matchType source text
        else matchesText q.matchType source text)) := by
    intro source text
    rcases matcher_cases q.matchType source text with ⟨⟨matched, hmatched⟩, -⟩ | ⟨hundefined, -⟩
    · rw [hmatched, matchesText_of_matcher hmatched]
      exact .some
    · rw [hundefined]
      exact .undefined
  have hfirst := DynamicFunctionProcessor.agrees_executeOperation hstrings hheaders hmetadata
    hsource hsourceSide hst
  have hsecond := DynamicFunctionProcessor.agrees_executeOperation hstrings hheaders hmetadata
    htext htextSide hst
  have hboth := hfirst.bind false fun source => hsecond.bind false fun text => hmatch source text
  have hvalue : (q.value E.parseQueryString (st.store E)).map (fun value =>
      if negate then !value else value) =
      (q.sourceProcessor.value E.parseQueryString (st.store E)).bind fun source =>
        (q.stringToCompareFunctionProcessor.value E.parseQueryString (st.store E)).bind fun text =>
          some (if negate then !matchesText q.matchType source text
            else matchesText q.matchType source text) := by
    rw [value]
    cases q.sourceProcessor.value E.parseQueryString (st.store E) with
    | none => rfl
    | some source =>
      cases q.stringToCompareFunctionProcessor.value E.parseQueryString (st.store E) <;> rfl
  rw [hvalue]
  exact hboth

/-- Evaluating the condition of an operation agrees with its value. -/
theorem agrees_evaluateCondition {E : Envoy M I} {f : HttpHeaderRewriteFilter} {isRequest : Bool}
    {st : StreamState M I} (hstrings : E.StringLaws) (hheaders : E.HeaderLaws)
    (hmetadata : E.MetadataLaws) (hwf : SideWellFormed E f isRequest) {p : HeaderProcessor}
    (hp : p ∈ f.headerProcessors isRequest) (hst : OnSide isRequest st) :
    (evaluateCondition (DynamicFunctionProcessor.executeOperation E) f.setBoolProcessors
        p.conditionProcessor st).Agrees .ok
      (p.condition E.parseQueryString f.setBoolProcessors (st.store E)) := by
  rw [HeaderProcessor.condition]
  cases hc : p.conditionProcessor with
  | none => exact .some
  | some c =>
    obtain ⟨-, hcwf⟩ := hwf.condition p hp c hc
    have hvalue : (c.executeOperation (DynamicFunctionProcessor.executeOperation E)
        f.setBoolProcessors st.headers st.streamInfo).Agrees .ok
        (c.value E.parseQueryString f.setBoolProcessors (st.store E)) := by
      rw [ConditionProcessor.executeOperation_eq hcwf, ConditionProcessor.value]
      refine agrees_evalClauses (by simp [ConditionProcessor.conditionFailed, -String.reduceToList])
        fun d hd => ?_
      rw [ConditionProcessor.flatten_clauses hcwf] at hd
      obtain ⟨q, hq, hoperands⟩ := hwf.exists_variable hp hc hd
      rw [ConditionProcessor.executeOperand_of_lookup hq, hq]
      exact SetBoolProcessor.agrees_executeOperation hstrings hheaders hmetadata hoperands hst d.2
    have hreturn : ∀ value : Bool,
        Outcome.Agrees Status.ok (.returned (.ok, value)) (some value) := fun _ => .some
    have hpass := hvalue.bind false hreturn
    rw [Option.bind_fun_some] at hpass
    exact hpass

/-! ## Operations -/

section Writing

variable {E : Envoy M I}

/-- Headers of which one name has other entries are the contents with these set. -/
theorem store_withMap {st : StreamState M I} {map : M} {name : Str} {values : List Str}
    (h : ∀ other, E.get map other = if other = name then values else E.get st.headers.map other) :
    (st.withMap map).store E = (st.store E).setEntries name values := by
  have hentries : E.get map = Function.update (E.get st.headers.map) name values := by
    ext other : 1
    rw [h, Function.update_apply]
  exact congrArg (Store.mk · _) hentries

/-- Setting a header changes the entries of its name. -/
theorem store_setCopy (hheaders : E.HeaderLaws) (st : StreamState M I) (name value : Str) :
    (st.withMap (E.setCopy st.headers.map name value)).store E =
      (st.store E).setEntries name [value] := by
  apply store_withMap
  intro other
  rw [hheaders.get_setCopy]

/-- Appending to a header changes the entries of its name. -/
theorem store_appendCopy (hheaders : E.HeaderLaws) (st : StreamState M I) (name value : Str) :
    (st.withMap (E.appendCopy st.headers.map name value)).store E =
      (st.store E).setEntries name
        (appendToEntries (delimiterByHeader name) value ((st.store E).entries name)) := by
  apply store_withMap
  intro other
  rw [hheaders.get_appendCopy]
  rfl

/-- Setting the path changes the entries of `:path`. -/
theorem store_setPath (hheaders : E.HeaderLaws) (st : StreamState M I) (value : Str) :
    (st.withMap (E.setPath st.headers.map value)).store E =
      (st.store E).setEntries ":path" [value] := by
  apply store_withMap
  intro other
  rw [hheaders.get_setPath]

/-- Storing metadata changes the text under its key. -/
theorem store_storeMetadata (hmetadata : E.MetadataLaws) {st : StreamState M I} {info : I}
    (hinfo : st.streamInfo = some info) (key value : Str) :
    StreamState.store E { st with
        streamInfo := some (SetDynamicMetadataProcessor.storeMetadata E info key value) } =
      (st.store E).setMetadata key value := by
  have hbefore : st.metadata E = E.metadataStore info := by
    ext other : 1
    rw [StreamState.metadata, hinfo]
    rfl
  have htexts : StreamState.metadata E { st with
        streamInfo := some (SetDynamicMetadataProcessor.storeMetadata E info key value) } =
      Function.update (st.metadata E) key value := by
    rw [hbefore, ← E.metadataStore_storeMetadata hmetadata]
    rfl
  exact congrArg (Store.mk _) htexts

end Writing

section Performing

variable {E : Envoy M I} {f : HttpHeaderRewriteFilter} {isRequest : Bool} {p : HeaderProcessor}
  {st st' : StreamState M I} {status : Status} (hstrings : E.StringLaws) (hheaders : E.HeaderLaws)
  (hmetadata : E.MetadataLaws)

include hstrings hheaders hmetadata

/-- An operand of an operation agrees with its value. -/
theorem agrees_operand (hwf : SideWellFormed E f isRequest) (hp : p ∈ f.headerProcessors isRequest)
    (hst : OnSide isRequest st) {d : DynamicFunctionProcessor} (hd : d ∈ p.operands) :
    (DynamicFunctionProcessor.executeOperation E d st.headers st.streamInfo).Agrees .ok
      (d.value E.parseQueryString (st.store E)) :=
  DynamicFunctionProcessor.agrees_executeOperation hstrings hheaders hmetadata
    (hwf.operand p hp d hd).1 (hwf.operand p hp d hd).2 hst

/-- An operand that succeeds has a value. -/
theorem value_of_ok (hwf : SideWellFormed E f isRequest) (hp : p ∈ f.headerProcessors isRequest)
    (hst : OnSide isRequest st) {d : DynamicFunctionProcessor} (hd : d ∈ p.operands) {text : Str}
    (h : DynamicFunctionProcessor.executeOperation E d st.headers st.streamInfo =
      .returned (.ok, text)) : d.value E.parseQueryString (st.store E) = some text := by
  have hagrees := agrees_operand hstrings hheaders hmetadata hwf hp hst hd
  rw [h] at hagrees
  rw [hagrees.eq_of_returned, if_pos rfl]

/-- An operand that fails has none. -/
theorem value_of_ne_ok (hwf : SideWellFormed E f isRequest) (hp : p ∈ f.headerProcessors isRequest)
    (hst : OnSide isRequest st) {d : DynamicFunctionProcessor} (hd : d ∈ p.operands) {text : Str}
    (h : DynamicFunctionProcessor.executeOperation E d st.headers st.streamInfo =
      .returned (status, text)) (hne : status ≠ .ok) :
    d.value E.parseQueryString (st.store E) = none := by
  have hagrees := agrees_operand hstrings hheaders hmetadata hwf hp hst hd
  rw [h] at hagrees
  rw [hagrees.eq_of_returned, if_neg hne]

/-- Values that are appended in turn are so in the contents, whatever values come after them. -/
theorem appendAll_of_inTurn {key : Str} {headerVals : List DynamicFunctionProcessor}
    {values : List Str} (hwf : SideWellFormed E f isRequest)
    (hp : p ∈ f.headerProcessors isRequest) (hvals : ∀ d ∈ headerVals, d ∈ p.operands)
    (hst : OnSide isRequest st)
    (h : AppendHeaderProcessor.InTurn E (DynamicFunctionProcessor.executeOperation E) key headerVals
      st values st') (rest : List DynamicFunctionProcessor) :
    appendAll E.parseQueryString (key.map Char.toLower) (headerVals ++ rest) (st.store E) =
      appendAll E.parseQueryString (key.map Char.toLower) rest (st'.store E) := by
  induction h with
  | nil => rfl
  | cons hvalue _ ih =>
    obtain ⟨hd, hrest⟩ := List.forall_mem_cons.mp hvals
    have happended := ih hrest (hst.withMap _)
    rw [← hstrings.lowerCaseString_eq, store_appendCopy hheaders] at happended
    rw [List.cons_append, appendAll,
      value_of_ok hstrings hheaders hmetadata hwf hp hst hd hvalue, ← hstrings.lowerCaseString_eq]
    exact happended

/-- What an operation does where it succeeds, it does to the contents. -/
theorem perform_of_effect (hwf : SideWellFormed E f isRequest)
    (hp : p ∈ f.headerProcessors isRequest) (hst : OnSide isRequest st)
    (h : p.Effect E (DynamicFunctionProcessor.executeOperation E) st st') :
    p.perform E.parseQueryString (st.store E) = (true, st'.store E) := by
  have hvalue : ∀ d ∈ p.operands, ∀ text,
      DynamicFunctionProcessor.executeOperation E d st.headers st.streamInfo =
        .returned (.ok, text) → d.value E.parseQueryString (st.store E) = some text :=
    fun d hd text => value_of_ok hstrings hheaders hmetadata hwf hp hst hd
  cases h with
  | setHeader hkey hval =>
    rw [HeaderProcessor.perform, hvalue _ (by simp [HeaderProcessor.operands]) _ hkey,
      hvalue _ (by simp [HeaderProcessor.operands]) _ hval, store_setCopy hheaders,
      hstrings.lowerCaseString_eq]
  | appendHeader hkey hvals =>
    have hall := appendAll_of_inTurn hstrings hheaders hmetadata hwf hp
      (fun d hd => List.mem_cons_of_mem _ hd) hst hvals []
    rw [List.append_nil] at hall
    rw [HeaderProcessor.perform, hvalue _ (by simp [HeaderProcessor.operands]) _ hkey]
    exact hall
  | @setPath p status newPath hpath _ =>
    have hnew : (p.requestPath.value E.parseQueryString (st.store E)).getD [] = newPath := by
      by_cases hok : status = .ok
      · subst hok
        rw [hvalue _ (by simp [HeaderProcessor.operands]) _ hpath]
        rfl
      -- an operand that fails leaves an empty path
      · have hmem : p.requestPath ∈ (HeaderProcessor.setPath p).operands := by
          simp [HeaderProcessor.operands]
        obtain ⟨hd, hside⟩ := hwf.operand _ hp p.requestPath hmem
        rw [value_of_ne_ok hstrings hheaders hmetadata hwf hp hst hmem hpath hok]
        exact (DynamicFunctionProcessor.eq_positionOutOfBounds hstrings hheaders hmetadata hd hside
          hst hpath hok).2.symm
    have hold : ((st.store E).entries ":path").headD [] = E.path st.headers.map := by
      rw [hheaders.path_eq, hheaders.pathEntry_eq]
      exact List.headD_eq_head?_getD
    rw [HeaderProcessor.perform, hnew, hold, store_setPath hheaders]
  | setDynamicMetadata hkey hne hval hne' hinfo =>
    rw [HeaderProcessor.perform, hvalue _ (by simp [HeaderProcessor.operands]) _ hkey,
      hvalue _ (by simp [HeaderProcessor.operands]) _ hval]
    dsimp only
    rw [if_neg (not_or.mpr ⟨hne, hne'⟩), store_storeMetadata hmetadata hinfo]

/-- Where an operation fails, the contents are left as it leaves them, and the operations after it
are not executed. -/
theorem perform_of_failure (hwf : SideWellFormed E f isRequest)
    (hp : p ∈ f.headerProcessors isRequest) (hst : OnSide isRequest st)
    (h : p.Failure E (DynamicFunctionProcessor.executeOperation E) st status st') :
    p.perform E.parseQueryString (st.store E) = (false, st'.store E) := by
  have hvalue : ∀ d ∈ p.operands, ∀ text,
      DynamicFunctionProcessor.executeOperation E d st.headers st.streamInfo =
        .returned (.ok, text) → d.value E.parseQueryString (st.store E) = some text :=
    fun d hd text => value_of_ok hstrings hheaders hmetadata hwf hp hst hd
  have hnone : ∀ d ∈ p.operands, ∀ status text,
      DynamicFunctionProcessor.executeOperation E d st.headers st.streamInfo =
        .returned (status, text) → status ≠ .ok → d.value E.parseQueryString (st.store E) = none :=
    fun d hd status text => value_of_ne_ok hstrings hheaders hmetadata hwf hp hst hd
  cases h with
  | headerKey hkey hbad =>
    rw [HeaderProcessor.perform, hnone _ (by simp [HeaderProcessor.operands]) _ _ hkey hbad]
  | @headerVal p status value hval hbad =>
    rw [HeaderProcessor.perform, hnone _ (by simp [HeaderProcessor.operands]) _ _ hval hbad]
    cases p.headerKey.value E.parseQueryString (st.store E) <;> rfl
  | appendKey hkey hbad =>
    rw [HeaderProcessor.perform, hnone _ (by simp [HeaderProcessor.operands]) _ _ hkey hbad]
  -- the values before the one that fails are appended
  | @appendVal p key value before after d values st' status hkey hvals hin hval hbad =>
    have hmem : ∀ d' ∈ before, d' ∈ (HeaderProcessor.appendHeader p).operands := fun d' hd' => by
      simp [HeaderProcessor.operands, hvals, hd']
    have hd : d ∈ (HeaderProcessor.appendHeader p).operands := by
      simp [HeaderProcessor.operands, hvals]
    have hlast := value_of_ne_ok hstrings hheaders hmetadata hwf hp (hst.inTurn hin) hd hval hbad
    rw [HeaderProcessor.perform, hvalue _ (by simp [HeaderProcessor.operands]) _ hkey, hvals]
    dsimp only
    rw [appendAll_of_inTurn hstrings hheaders hmetadata hwf hp hmem hst hin, appendAll, hlast]
  | metadataKey hkey hbad =>
    rw [HeaderProcessor.perform, hnone _ (by simp [HeaderProcessor.operands]) _ _ hkey hbad]
  | @metadataValue p status value hval hbad =>
    rw [HeaderProcessor.perform, hnone _ (by simp [HeaderProcessor.operands]) _ _ hval hbad]
    cases p.metadataKey.value E.parseQueryString (st.store E) <;> rfl
  | @noKey p hkey =>
    rw [HeaderProcessor.perform, hvalue _ (by simp [HeaderProcessor.operands]) _ hkey]
    cases p.metadataValue.value E.parseQueryString (st.store E) <;> simp
  | @noValue p hval =>
    rw [HeaderProcessor.perform, hvalue _ (by simp [HeaderProcessor.operands]) _ hval]
    cases p.metadataKey.value E.parseQueryString (st.store E) <;> simp
  | noStreamInfo hinfo => exact (hst.info hinfo).elim
  | @threw p d e hd hthrew =>
    have hmem : d ∈ (HeaderProcessor.setDynamicMetadata p).operands := by
      rcases hd with rfl | rfl <;> simp [HeaderProcessor.operands]
    have hagrees := agrees_operand hstrings hheaders hmetadata hwf hp hst hmem
    rw [hthrew] at hagrees
    rw [HeaderProcessor.perform]
    rcases hd with rfl | rfl
    · rw [hagrees.eq_none]
    · rw [hagrees.eq_none]
      cases p.metadataKey.value E.parseQueryString (st.store E) <;> rfl

/-- An operation does to the contents what its transformation says. -/
theorem HeaderProcessor.simulates (hwf : SideWellFormed E f isRequest)
    (hp : p ∈ f.headerProcessors isRequest) :
    Simulates (fun p => p.executeOperation E (DynamicFunctionProcessor.executeOperation E)
        f.setBoolProcessors) (fun status => decide (status = .ok)) (OnSide isRequest)
      (StreamState.store E) (transform E.parseQueryString f.setBoolProcessors) p := by
  intro st status st' hst hstep
  refine ⟨?_, hst.executeOperation hstep⟩
  have hagrees := agrees_evaluateCondition hstrings hheaders hmetadata hwf hp hst
  rw [transform]
  cases hcondition : evaluateCondition (DynamicFunctionProcessor.executeOperation E)
      f.setBoolProcessors p.conditionProcessor st with
  | threw e => exact (evaluateCondition_ne_threw _ _ _ _ e hcondition).elim
  | undefined u => cases (executeOperation_of_undefined hcondition).symm.trans hstep
  | returned result =>
    obtain ⟨conditionStatus, holds⟩ := result
    rw [hcondition] at hagrees
    rw [hagrees.eq_of_returned]
    by_cases hok : conditionStatus = .ok
    · subst hok
      rw [if_pos rfl]
      cases holds with
      -- nothing is done, also where `set-path` has evaluated its operand
      | false =>
        obtain ⟨rfl, rfl⟩ := eq_of_condition_false hcondition hstep
        rfl
      | true =>
        by_cases hstatus : status = .ok
        · subst hstatus
          have heffect := effect_of_ok hcondition hstep
          exact perform_of_effect hstrings hheaders hmetadata hwf hp hst heffect
        · have hfailure := failure_of_ne_ok hcondition hstep hstatus
          simp only [decide_eq_false hstatus]
          exact perform_of_failure hstrings hheaders hmetadata hwf hp hst hfailure
    · have hfailed := (executeOperation_of_ne_ok hcondition hok).symm.trans hstep
      obtain ⟨rfl, rfl⟩ := Outcome.pair_inj hfailed
      rw [if_neg hok]
      exact Prod.ext (decide_eq_false hok).symm rfl

end Performing

/-! ## Runs -/

namespace HttpHeaderRewriteFilter

section Runs

variable {E : Envoy M I} {f : HttpHeaderRewriteFilter} {config : Str}
  {headers responseHeaders map : M} {streamInfo info : I} {st : StreamState M I}

/-- A run does to the contents what the operations of its side say. -/
theorem store_of_executeHeaders (hstrings : E.StringLaws) (hheaders : E.HeaderLaws)
    (hmetadata : E.MetadataLaws) {isRequest : Bool} (hwf : SideWellFormed E f isRequest)
    (hrun : executeHeaders E (DynamicFunctionProcessor.executeOperation E) f isRequest headers
      streamInfo = .returned st) :
    st.store E = f.transform E.parseQueryString isRequest
      (StreamState.store E (.start isRequest headers streamInfo)) := by
  rw [transform]
  cases herror : f.error with
  | true =>
    obtain rfl : .start isRequest headers streamInfo = st := by
      simpa only [executeHeaders, herror, if_true, Outcome.returned.injEq] using hrun
    rfl
  | false =>
    rw [executeHeaders_of_accepted herror] at hrun
    exact run_simulates (fun p hp => HeaderProcessor.simulates hstrings hheaders hmetadata hwf hp)
      (.start isRequest headers streamInfo) hrun

/-- A request and its response are handled as two functions of the contents: the request side
transforms the entries of the request's headers and the texts in the metadata, and the response side
the entries of the response's headers and the texts that the request side has left. -/
theorem exchange_store (hstrings : E.StringLaws) (hheaders : E.HeaderLaws)
    (hmetadata : E.MetadataLaws) (hf : construct E config = .returned f)
    (hdecode : decodeHeaders E f headers streamInfo = .returned ⟨⟨true, map⟩, some info⟩)
    (hencode : encodeHeaders E f responseHeaders info = .returned st) :
    let S := f.transform E.parseQueryString true ⟨E.get headers, E.metadataStore streamInfo⟩
    E.get map = S.entries ∧ E.metadataStore info = S.metadata ∧
      st.store E = f.transform E.parseQueryString false ⟨E.get responseHeaders, S.metadata⟩ := by
  have hrequest := store_of_executeHeaders hstrings hheaders hmetadata
    (sideWellFormed_of_processLines hf) hdecode
  have hresponse := store_of_executeHeaders hstrings hheaders hmetadata
    (sideWellFormed_of_processLines hf) hencode
  have hmetadataStore := congrArg Store.metadata hrequest
  refine ⟨congrArg Store.entries hrequest, hmetadataStore, hresponse.trans ?_⟩
  exact congrArg (fun texts => f.transform _ false ⟨_, texts⟩) hmetadataStore

end Runs

/-- A header of the request is stored in the metadata, and copied from there to the response. -/
theorem exchange_store_metadata :
    ∃ f map info st, construct Reference.envoy ("http-request set-metadata a %[hdr(x)]\n" ++
          "http-response append-header k v %[metadata(a)]").toList = .returned f ∧
      decodeHeaders Reference.envoy f [("x".toList, "1".toList)] [] =
        .returned ⟨⟨true, map⟩, some info⟩ ∧
      encodeHeaders Reference.envoy f [] info = .returned st ∧
      (st.store Reference.envoy).entries "k" = ["v,1".toList] := by
  obtain ⟨f, hf, htest⟩ := Outcome.exists_of_returnsWith
    (show (construct Reference.envoy ("http-request set-metadata a %[hdr(x)]\n" ++
        "http-response append-header k v %[metadata(a)]").toList).returnsWith
      (fun f =>
        (decodeHeaders Reference.envoy f [("x".toList, "1".toList)] []).returnsWith (fun st =>
          st.streamInfo.any fun info =>
            (encodeHeaders Reference.envoy f [] info).returnsWith fun _ => true) &&
        decide ((f.transform Reference.envoy.parseQueryString false ⟨Reference.envoy.get [],
          (f.transform Reference.envoy.parseQueryString true
            ⟨Reference.envoy.get [("x".toList, "1".toList)],
              Reference.envoy.metadataStore []⟩).metadata⟩).entries "k" = ["v,1".toList])) = true by
      decide +kernel)
  obtain ⟨hruns, hentries⟩ := Bool.and_eq_true_iff.mp htest
  obtain ⟨st, hdecode, hresponse⟩ := Outcome.exists_of_returnsWith hruns
  obtain ⟨map, info, rfl⟩ := (onSide_of_executeHeaders hdecode).exists_eq_start
  obtain ⟨st', hencode, -⟩ := Outcome.exists_of_returnsWith hresponse
  refine ⟨f, map, info, st', hf, hdecode, hencode, ?_⟩
  rw [(exchange_store Reference.stringLaws Reference.headerLaws Reference.metadataLaws hf hdecode
    hencode).2.2]
  exact of_decide_eq_true hentries

end HttpHeaderRewriteFilter

end HeaderRewrite
