import HeaderRewrite.Execution.Dependence
import HeaderRewrite.Execution.Headers

/-!
# What a run can fail with

An operand of an accepted filter fails in one way only: the position of an `hdr` lies outside of the
header. From this and from the texts that `stoi` throws follow all statuses with which an operation
can end a run, and all texts that `decodeHeaders` and `encodeHeaders` can log.

## Main definitions

* `HeaderProcessor.Failure`: how an operation can fail after a true condition;
* `conditionFailures`, `HeaderProcessor.failures`: the statuses with which a condition and an
  operation can end a run;
* `HttpHeaderRewriteFilter.executionText`: the text that is logged, if there is one.

## Main results

* `DynamicFunctionProcessor.eq_positionOutOfBounds`, `what_of_threw`: how an operand fails;
* `HeaderProcessor.failure_of_ne_ok`: an operation that does not succeed fails in one of these ways;
* `mem_conditionFailures`, `HeaderProcessor.mem_failures`: how a condition and an operation fail;
* `HttpHeaderRewriteFilter.executionText_iff`: which texts are logged, and when none is.
-/

namespace HeaderRewrite

open Cxx Utility HttpHeaderRewriteFilter

variable {M I : Type}

/-! ## Operands -/

namespace DynamicFunctionProcessor

section Operands

variable {E : Envoy M I} {d : DynamicFunctionProcessor} {isRequest : Bool} {st : StreamState M I}
  {status : Status} {value : Str}

/-- A header that cannot be read is one without an element at the position. -/
theorem getHeaderValue_failure (hstrings : E.StringLaws) (hheaders : E.HeaderLaws)
    {headers : RequestOrResponseHeaderMap M} {key : Str} {position : ℤ}
    (h : getHeaderValue E headers key position = .returned (status, value)) (hne : status ≠ .ok) :
    status = positionOutOfBounds ∧ value = [] := by
  cases hstore : E.headerStore headers.map (E.lowerCaseString key) with
  | none =>
    rw [getHeaderValue_of_none hheaders hstore] at h
    exact (hne (Outcome.pair_inj h).1.symm).elim
  | some values =>
    rw [getHeaderValue_of_some hstrings hheaders hstore] at h
    generalize (if position < 0 then _ else position) = index at h
    split at h
    · obtain ⟨rfl, rfl⟩ := Outcome.pair_inj h
      exact ⟨rfl, rfl⟩
    · exact (hne (Outcome.pair_inj h).1.symm).elim

/-- An operand that fails is an `hdr` whose position lies outside of the header. -/
theorem eq_positionOutOfBounds (hstrings : E.StringLaws) (hheaders : E.HeaderLaws)
    (hmetadata : E.MetadataLaws) (hwf : d.WellFormed E) (hside : d.toProcessor = .ofSide isRequest)
    (hst : OnSide isRequest st)
    (h : executeOperation E d st.headers st.streamInfo = .returned (status, value))
    (hne : status ≠ .ok) : status = positionOutOfBounds ∧ value = [] := by
  cases htype : d.functionType with
  | getHdr =>
    simp only [executeOperation, htype] at h
    split at h
    · obtain ⟨position, -, h⟩ := Outcome.bind_eq_returned.mp h
      obtain ⟨key, -, h⟩ := Outcome.bind_eq_returned.mp h
      exact getHeaderValue_failure hstrings hheaders h hne
    · obtain ⟨text, -, h⟩ := Outcome.bind_eq_returned.mp h
      obtain ⟨position, -, h⟩ := Outcome.bind_eq_returned.mp h
      obtain ⟨key, -, h⟩ := Outcome.bind_eq_returned.mp h
      exact getHeaderValue_failure hstrings hheaders h hne
  | urlp =>
    simp only [WellFormed, htype] at hwf
    obtain ⟨param, hparam⟩ := List.length_eq_one_iff.mp hwf.1
    -- the operand was accepted, so that the headers are those of a request
    have hrequest : st.headers.isRequestHeaderMap = true := by
      rw [hst.side, ← Processor.isRequest_ofSide isRequest, ← hside]
      exact hwf.2
    rw [executeOperation_urlp htype hparam] at h
    simp only [getUrlp, hrequest, hheaders.pathEntry_eq] at h
    cases hpath : (E.get st.headers.map ":path").head? with
    | none =>
      simp only [hpath] at h
      cases h
    | some path =>
      cases hlookup : (E.parseQueryString path).lookup param with
      | none =>
        simp only [hpath, hlookup] at h
        exact (hne (Outcome.pair_inj h).1.symm).elim
      | some text =>
        simp only [hpath, hlookup] at h
        exact (hne (Outcome.pair_inj h).1.symm).elim
  | getMetadata =>
    rw [executeOperation_getMetadata htype, getDynamicMetadata_eq hmetadata hst.info] at h
    exact (hne (Outcome.pair_inj h).1.symm).elim
  | static =>
    rw [executeOperation_static htype] at h
    exact (hne (Outcome.pair_inj h).1.symm).elim
  | invalidFunctionType => simp only [WellFormed, htype] at hwf

/-- The exception of an operand is the one that `stoi` throws. -/
theorem what_of_threw (hwf : d.WellFormed E) {headers : RequestOrResponseHeaderMap M}
    {streamInfo : Option I} {e : Exception}
    (h : executeOperation E d headers streamInfo = .threw e) : e.what = "stoi".toList := by
  obtain ⟨htype, key, position, e', harguments, hstoi⟩ := badPosition_of_threw hwf h
  rw [executeOperation_hdr_position htype harguments, hstoi] at h
  obtain rfl := Outcome.threw.inj h
  unfold stoi at hstoi
  split at hstoi
  · rw [← Outcome.threw.inj hstoi]
  · split at hstoi
    · cases hstoi
    · rw [← Outcome.threw.inj hstoi]

end Operands

end DynamicFunctionProcessor

/-! ## Conditions -/

/-- The statuses with which a condition can end a run. -/
def conditionFailures : List Status :=
  [DynamicFunctionProcessor.positionOutOfBounds, .unknown "failed to process condition -- stoi"]

section Conditions

variable {E : Envoy M I} {f : HttpHeaderRewriteFilter} {isRequest : Bool} {p : HeaderProcessor}
  {st : StreamState M I} {status : Status}

/-- A variable that fails has an operand that fails. -/
theorem SetBoolProcessor.eq_positionOutOfBounds (hstrings : E.StringLaws)
    (hheaders : E.HeaderLaws) (hmetadata : E.MetadataLaws) {q : SetBoolProcessor}
    (hq : ∀ d ∈ q.operands, d.WellFormed E ∧ d.toProcessor = .ofSide isRequest)
    (hst : OnSide isRequest st) {negate value : Bool}
    (h : q.executeOperation (DynamicFunctionProcessor.executeOperation E) st.headers st.streamInfo
      negate = .returned (status, value)) (hne : status ≠ .ok) :
    status = DynamicFunctionProcessor.positionOutOfBounds := by
  obtain ⟨hsource, hsourceSide⟩ := hq q.sourceProcessor (by simp [operands])
  obtain ⟨htext, htextSide⟩ := hq q.stringToCompareFunctionProcessor (by simp [operands])
  obtain ⟨⟨sourceStatus, source⟩, hfirst, h⟩ := Outcome.bind_eq_returned.mp h
  dsimp only at h
  split at h
  · next hbad =>
    obtain ⟨rfl, -⟩ := Outcome.pair_inj h
    exact (DynamicFunctionProcessor.eq_positionOutOfBounds hstrings hheaders hmetadata hsource
      hsourceSide hst hfirst hbad).1
  obtain ⟨⟨textStatus, text⟩, hsecond, h⟩ := Outcome.bind_eq_returned.mp h
  dsimp only at h
  split at h
  · next hbad =>
    obtain ⟨rfl, -⟩ := Outcome.pair_inj h
    exact (DynamicFunctionProcessor.eq_positionOutOfBounds hstrings hheaders hmetadata htext
      htextSide hst hsecond hbad).1
  obtain ⟨matched, -, h⟩ := Outcome.bind_eq_returned.mp h
  exact (hne (Outcome.pair_inj h).1.symm).elim

/-- The exception of a variable is that of an operand. -/
theorem SetBoolProcessor.what_of_threw {q : SetBoolProcessor}
    (hq : ∀ d ∈ q.operands, d.WellFormed E) {headers : RequestOrResponseHeaderMap M}
    {streamInfo : Option I} {negate : Bool} {e : Exception}
    (h : q.executeOperation (DynamicFunctionProcessor.executeOperation E) headers streamInfo
      negate = .threw e) : e.what = "stoi".toList := by
  rcases Outcome.bind_eq_threw.mp h with hsource | ⟨⟨sourceStatus, source⟩, -, h⟩
  · exact DynamicFunctionProcessor.what_of_threw (hq _ (by simp [operands])) hsource
  dsimp only at h
  split at h
  · cases h
  rcases Outcome.bind_eq_threw.mp h with htext | ⟨⟨textStatus, text⟩, -, h⟩
  · exact DynamicFunctionProcessor.what_of_threw (hq _ (by simp [operands])) htext
  dsimp only at h
  split at h
  · cases h
  -- no matcher throws
  rcases Outcome.bind_eq_threw.mp h with hmatch | ⟨matched, -, h⟩
  · rcases matcher_cases q.matchType source text with ⟨⟨matched, hmatched⟩, -⟩ | ⟨hundefined, -⟩
    · cases hmatched.symm.trans hmatch
    · cases hundefined.symm.trans hmatch
  · cases h

/-- A condition that fails has a variable that fails, or one that throws. -/
theorem mem_conditionFailures (hstrings : E.StringLaws) (hheaders : E.HeaderLaws)
    (hmetadata : E.MetadataLaws) (hwf : SideWellFormed E f isRequest)
    (hp : p ∈ f.headerProcessors isRequest) (hst : OnSide isRequest st) {value : Bool}
    (h : evaluateCondition (DynamicFunctionProcessor.executeOperation E) f.setBoolProcessors
      p.conditionProcessor st = .returned (status, value)) (hne : status ≠ .ok) :
    status ∈ conditionFailures := by
  cases hc : p.conditionProcessor with
  | none =>
    rw [hc] at h
    exact (hne (Outcome.pair_inj h).1.symm).elim
  | some c =>
    obtain ⟨-, hcwf⟩ := hwf.condition p hp c hc
    rw [hc, evaluateCondition] at h
    obtain ⟨⟨status', value'⟩, hexecute, h⟩ := Outcome.bind_eq_returned.mp h
    dsimp only at h
    split at h
    · obtain ⟨rfl, -⟩ := Outcome.pair_inj h
      rw [ConditionProcessor.executeOperation_eq hcwf] at hexecute
      -- the status is that of a literal that is reached
      obtain ⟨d, hreached, hd⟩ := exists_fails_of_evalClauses hexecute hne
      have hmem := ConditionProcessor.mem_of_reached hcwf hreached
      obtain ⟨q, hq, hoperands⟩ := hwf.exists_variable hp hc hmem
      cases hd with
      | returned hd hbad =>
        rw [ConditionProcessor.executeOperand_of_lookup hq] at hd
        rw [SetBoolProcessor.eq_positionOutOfBounds hstrings hheaders hmetadata hoperands hst hd
          hbad]
        exact List.mem_cons_self
      | threw hd =>
        rw [ConditionProcessor.executeOperand_of_lookup hq] at hd
        rw [ConditionProcessor.conditionFailed,
          SetBoolProcessor.what_of_threw (fun o ho => (hoperands o ho).1) hd]
        exact List.mem_cons_of_mem _ List.mem_cons_self
    · exact (hne (Outcome.pair_inj h).1.symm).elim

end Conditions

/-! ## Operations -/

/-- The statuses with which a `set-header` can end a run. -/
def setHeaderFailures : List Status :=
  [.unknown ("Failed to get dynamic value for set header -- ".toList ++
    DynamicFunctionProcessor.positionOutOfBounds.message)]

/-- The statuses with which a `set-metadata` can end a run. -/
def setDynamicMetadataFailures : List Status :=
  [.unknown ("failed to get dynamic value to set metadata -- ".toList ++
      DynamicFunctionProcessor.positionOutOfBounds.message),
    .unknown "failed to get dynamic value to set metadata -- no value",
    .notFound "failed to get dynamic value to set metadata -- no value",
    .unknown "failed to set metadata -- stoi"]

/-- The statuses with which an operation can end a run after a true condition. There is none for
`set-path`, which takes a path that has no value for an empty one. -/
def HeaderProcessor.failures : HeaderProcessor → List Status
  | setHeader _ => setHeaderFailures
  | appendHeader _ => [DynamicFunctionProcessor.positionOutOfBounds]
  | setPath _ => []
  | setDynamicMetadata _ => setDynamicMetadataFailures

section Failures

variable {E : Envoy M I} {isRequest : Bool} {maps : SetBoolProcessorMaps}
  {st st' : StreamState M I} {status : Status}

/-- Values that are appended do not change the side. -/
theorem OnSide.inTurn {eval : Evaluator M I} {key : Str}
    {headerVals : List DynamicFunctionProcessor} {values : List Str} (hst : OnSide isRequest st)
    (h : AppendHeaderProcessor.InTurn E eval key headerVals st values st') :
    OnSide isRequest st' := by
  induction h with
  | nil => exact hst
  | cons _ _ ih => exact ih (hst.withMap _)

namespace HeaderProcessor

/-- How an operation can fail after a true condition: the status that it returns, and the state in
which it leaves the stream. -/
inductive Failure (E : Envoy M I) (eval : Evaluator M I) (st : StreamState M I) :
    HeaderProcessor → Status → StreamState M I → Prop
  | headerKey {p : SetHeaderProcessor} {status : Status} {key : Str} :
      eval p.headerKey st.headers st.streamInfo = .returned (status, key) → status ≠ .ok →
      Failure E eval st (.setHeader p)
        (.unknown ("Failed to get dynamic value for set header -- ".toList ++ status.message)) st
  | headerVal {p : SetHeaderProcessor} {status : Status} {value : Str} :
      eval p.headerVal st.headers st.streamInfo = .returned (status, value) → status ≠ .ok →
      Failure E eval st (.setHeader p)
        (.unknown ("Failed to get dynamic value for set header -- ".toList ++ status.message)) st
  | appendKey {p : AppendHeaderProcessor} {status : Status} {key : Str} :
      eval p.headerKey st.headers st.streamInfo = .returned (status, key) → status ≠ .ok →
      Failure E eval st (.appendHeader p) status st
  | appendVal {p : AppendHeaderProcessor} {key value : Str}
      {before after : List DynamicFunctionProcessor} {d : DynamicFunctionProcessor}
      {values : List Str} {st' : StreamState M I} {status : Status} :
      eval p.headerKey st.headers st.streamInfo = .returned (.ok, key) →
      p.headerVals = before ++ d :: after →
      AppendHeaderProcessor.InTurn E eval key before st values st' →
      eval d st'.headers st'.streamInfo = .returned (status, value) → status ≠ .ok →
      Failure E eval st (.appendHeader p) status st'
  | metadataKey {p : SetDynamicMetadataProcessor} {status : Status} {key : Str} :
      eval p.metadataKey st.headers st.streamInfo = .returned (status, key) → status ≠ .ok →
      Failure E eval st (.setDynamicMetadata p)
        (.unknown ("failed to get dynamic value to set metadata -- ".toList ++ status.message)) st
  | metadataValue {p : SetDynamicMetadataProcessor} {status : Status} {value : Str} :
      eval p.metadataValue st.headers st.streamInfo = .returned (status, value) → status ≠ .ok →
      Failure E eval st (.setDynamicMetadata p)
        (.unknown ("failed to get dynamic value to set metadata -- ".toList ++ status.message)) st
  | noKey {p : SetDynamicMetadataProcessor} :
      eval p.metadataKey st.headers st.streamInfo = .returned (.ok, []) →
      Failure E eval st (.setDynamicMetadata p)
        (.unknown "failed to get dynamic value to set metadata -- no value") st
  | noValue {p : SetDynamicMetadataProcessor} :
      eval p.metadataValue st.headers st.streamInfo = .returned (.ok, []) →
      Failure E eval st (.setDynamicMetadata p)
        (.notFound "failed to get dynamic value to set metadata -- no value") st
  | noStreamInfo {p : SetDynamicMetadataProcessor} :
      st.streamInfo = none →
      Failure E eval st (.setDynamicMetadata p) (.notFound "streamInfo is null") st
  | threw {p : SetDynamicMetadataProcessor} {d : DynamicFunctionProcessor} {e : Exception} :
      d = p.metadataKey ∨ d = p.metadataValue →
      eval d st.headers st.streamInfo = .threw e →
      Failure E eval st (.setDynamicMetadata p)
        (.unknown ("failed to set metadata -- ".toList ++ e.what)) st

/-- A `set-metadata` that returns a bad status has failed. -/
theorem failure_setDynamicMetadata {eval : Evaluator M I} {p : SetDynamicMetadataProcessor}
    (hcondition : evaluateCondition eval maps p.conditionProcessor st = .returned (.ok, true))
    (h : p.executeOperation E eval maps st = .returned (status, st')) (hne : status ≠ .ok) :
    Failure E eval st (.setDynamicMetadata p) status st' := by
  rw [setDynamicMetadata_of_true hcondition] at h
  rcases Outcome.catchAs_eq_returned.mp h with h | ⟨e, hthrew, heq⟩
  · obtain ⟨⟨keyStatus, key⟩, hkey, h⟩ := Outcome.bind_eq_returned.mp h
    dsimp only at h
    split at h
    · next hbad =>
      obtain ⟨rfl, rfl⟩ := Outcome.pair_inj h
      exact .metadataKey hkey hbad
    next hok =>
    split at h
    · next hnil =>
      obtain ⟨rfl, rfl⟩ := Outcome.pair_inj h
      obtain rfl := List.length_eq_zero_iff.mp hnil
      exact .noKey (Decidable.not_not.mp hok ▸ hkey)
    obtain ⟨⟨valueStatus, value⟩, hvalue, h⟩ := Outcome.bind_eq_returned.mp h
    dsimp only at h
    split at h
    · next hbad =>
      obtain ⟨rfl, rfl⟩ := Outcome.pair_inj h
      exact .metadataValue hvalue hbad
    next hok =>
    split at h
    · next hnil =>
      obtain ⟨rfl, rfl⟩ := Outcome.pair_inj h
      obtain rfl := List.length_eq_zero_iff.mp hnil
      exact .noValue (Decidable.not_not.mp hok ▸ hvalue)
    cases hinfo : st.streamInfo with
    | none =>
      rw [hinfo] at h
      obtain ⟨rfl, rfl⟩ := Outcome.pair_inj h
      exact .noStreamInfo hinfo
    | some info =>
      rw [hinfo] at h
      exact (hne (Outcome.pair_inj h).1.symm).elim
  · obtain ⟨rfl, rfl⟩ := Prod.mk.inj heq
    rcases Outcome.bind_eq_threw.mp hthrew with hkey | ⟨⟨keyStatus, key⟩, -, hthrew⟩
    · exact .threw (Or.inl rfl) hkey
    dsimp only at hthrew
    split at hthrew
    · cases hthrew
    split at hthrew
    · cases hthrew
    rcases Outcome.bind_eq_threw.mp hthrew with hvalue | ⟨⟨valueStatus, value⟩, -, hthrew⟩
    · exact .threw (Or.inr rfl) hvalue
    -- nothing else in the block throws
    dsimp only at hthrew
    split at hthrew
    · cases hthrew
    split at hthrew
    · cases hthrew
    · split at hthrew <;> cases hthrew

/-- An operation that returns a bad status after a true condition has failed. -/
theorem failure_of_ne_ok {eval : Evaluator M I} {p : HeaderProcessor}
    (hcondition : evaluateCondition eval maps p.conditionProcessor st = .returned (.ok, true))
    (h : p.executeOperation E eval maps st = .returned (status, st')) (hne : status ≠ .ok) :
    Failure E eval st p status st' := by
  cases p with
  | setHeader p =>
    rw [executeOperation, setHeader_of_true hcondition] at h
    obtain ⟨⟨keyStatus, key⟩, hkey, h⟩ := Outcome.bind_eq_returned.mp h
    obtain ⟨⟨valueStatus, value⟩, hvalue, h⟩ := Outcome.bind_eq_returned.mp h
    dsimp only at h
    split at h
    · next hbad =>
      obtain ⟨rfl, rfl⟩ := Outcome.pair_inj h
      exact .headerKey hkey hbad
    split at h
    · next hbad =>
      obtain ⟨rfl, rfl⟩ := Outcome.pair_inj h
      exact .headerVal hvalue hbad
    · exact (hne (Outcome.pair_inj h).1.symm).elim
  | appendHeader p =>
    rw [executeOperation, appendHeader_of_true hcondition] at h
    obtain ⟨⟨keyStatus, key⟩, hkey, h⟩ := Outcome.bind_eq_returned.mp h
    dsimp only at h
    split at h
    · next hbad =>
      obtain ⟨rfl, rfl⟩ := Outcome.pair_inj h
      exact .appendKey hkey hbad
    next hok =>
    obtain rfl : keyStatus = .ok := Decidable.not_not.mp hok
    have hstops : ¬ ∃ st₁, AppendHeaderProcessor.appendValues E eval key p.headerVals st =
        .returned (.ok, st₁) := by
      rintro ⟨st₁, hok⟩
      exact hne (Outcome.pair_inj (h.symm.trans hok)).1
    obtain ⟨before, d, after, values, st₁, hvals, hin, heq⟩ :=
      AppendHeaderProcessor.exists_of_appendValues hstops
    rw [h] at heq
    obtain ⟨⟨status', value⟩, hd, heq⟩ := Outcome.bind_eq_returned.mp heq.symm
    obtain ⟨rfl, rfl⟩ := Outcome.pair_inj heq
    exact .appendVal hkey hvals hin hd hne
  | setPath p =>
    rw [executeOperation, setPath_of_true hcondition] at h
    obtain ⟨⟨pathStatus, newPath⟩, -, h⟩ := Outcome.bind_eq_returned.mp h
    dsimp only at h
    split at h
    · exact (hne (Outcome.pair_inj h).1.symm).elim
    · cases h
  | setDynamicMetadata p => exact failure_setDynamicMetadata hcondition h hne

/-- The statuses of the failures. -/
theorem mem_failures_of_failure {f : HttpHeaderRewriteFilter} {p : HeaderProcessor}
    (hstrings : E.StringLaws) (hheaders : E.HeaderLaws) (hmetadata : E.MetadataLaws)
    (hwf : SideWellFormed E f isRequest) (hp : p ∈ f.headerProcessors isRequest)
    (hst : OnSide isRequest st)
    (h : Failure E (DynamicFunctionProcessor.executeOperation E) st p status st') :
    status ∈ p.failures := by
  have hoperand : ∀ d ∈ p.operands, ∀ st, OnSide isRequest st → ∀ status value,
      DynamicFunctionProcessor.executeOperation E d st.headers st.streamInfo =
        .returned (status, value) → status ≠ .ok →
      status = DynamicFunctionProcessor.positionOutOfBounds :=
    fun d hd _ hst _ _ hvalue hbad =>
      (DynamicFunctionProcessor.eq_positionOutOfBounds hstrings hheaders hmetadata
        (hwf.operand p hp d hd).1 (hwf.operand p hp d hd).2 hst hvalue hbad).1
  cases h with
  | headerKey hkey hbad =>
    rw [hoperand _ (by simp [operands]) st hst _ _ hkey hbad]
    exact List.mem_cons_self
  | headerVal hvalue hbad =>
    rw [hoperand _ (by simp [operands]) st hst _ _ hvalue hbad]
    exact List.mem_cons_self
  | appendKey hkey hbad =>
    rw [hoperand _ (by simp [operands]) st hst _ _ hkey hbad]
    exact List.mem_cons_self
  | appendVal hkey hvals hin hvalue hbad =>
    rw [hoperand _ (by simp [operands, hvals]) _ (hst.inTurn hin) _ _ hvalue hbad]
    exact List.mem_cons_self
  | metadataKey hkey hbad =>
    rw [hoperand _ (by simp [operands]) st hst _ _ hkey hbad]
    exact List.mem_cons_self
  | metadataValue hvalue hbad =>
    rw [hoperand _ (by simp [operands]) st hst _ _ hvalue hbad]
    exact List.mem_cons_self
  | noKey _ => exact List.mem_cons_of_mem _ List.mem_cons_self
  | noValue _ => exact List.mem_cons_of_mem _ (List.mem_cons_of_mem _ List.mem_cons_self)
  | noStreamInfo hnone => exact (hst.info hnone).elim
  | @threw p d e hd hthrew =>
    have hmem : d ∈ (setDynamicMetadata p).operands := by
      rcases hd with rfl | rfl <;> simp [operands]
    rw [DynamicFunctionProcessor.what_of_threw (hwf.operand _ hp d hmem).1 hthrew]
    exact List.mem_of_getElem? (i := 3) rfl

/-- An operation that ends a run fails with its condition, or as operations of its class fail. -/
theorem mem_failures {f : HttpHeaderRewriteFilter} {p : HeaderProcessor} (hstrings : E.StringLaws)
    (hheaders : E.HeaderLaws) (hmetadata : E.MetadataLaws) (hwf : SideWellFormed E f isRequest)
    (hp : p ∈ f.headerProcessors isRequest) (hst : OnSide isRequest st)
    (h : p.executeOperation E (DynamicFunctionProcessor.executeOperation E) f.setBoolProcessors st =
      .returned (status, st')) (hne : status ≠ .ok) :
    status ∈ conditionFailures ∨ status ∈ p.failures := by
  rcases evaluateCondition_cases (DynamicFunctionProcessor.executeOperation E) f.setBoolProcessors
      p.conditionProcessor st with
    ⟨status', value, hbad, hcondition⟩ | hcondition | hcondition | ⟨u, hcondition⟩
  · obtain ⟨rfl, -⟩ := Outcome.pair_inj ((executeOperation_of_ne_ok hcondition hbad).symm.trans h)
    exact Or.inl (mem_conditionFailures hstrings hheaders hmetadata hwf hp hst hcondition hbad)
  · exact (hne (eq_of_condition_false hcondition h).1).elim
  · right
    apply mem_failures_of_failure hstrings hheaders hmetadata hwf hp hst
    exact failure_of_ne_ok hcondition h hne
  · cases h.symm.trans (executeOperation_of_undefined hcondition)

end HeaderProcessor

end Failures

/-! ## Runs -/

namespace HttpHeaderRewriteFilter

/-- The word for a side in the texts that are logged. -/
def sideName (isRequest : Bool) : Str := if isRequest then "request" else "response"

/-- The text that is logged for an invalid configuration. -/
def invalidConfigText (isRequest : Bool) : Str :=
  "invalid config, skipping filter (".toList ++ sideName isRequest ++ " side)".toList

/-- The text that is logged for an operation that fails. -/
def failedOperationText (isRequest : Bool) (status : Status) : Str :=
  "error executing an operation on ".toList ++ sideName isRequest ++
    " side, skipping filter -- ".toList ++ status.message

/-- The text that `decodeHeaders` or `encodeHeaders` logs, if it does. -/
def executionText (E : Envoy M I) (f : HttpHeaderRewriteFilter) (isRequest : Bool) (headers : M)
    (streamInfo : I) : Option Str :=
  if f.error then some (invalidConfigText isRequest)
  else
    (badVerdict (fun p => HeaderProcessor.executeOperation E
        (DynamicFunctionProcessor.executeOperation E) f.setBoolProcessors p)
      (fun status => decide (status = .ok)) (f.headerProcessors isRequest)
      (.start isRequest headers streamInfo)).map (failedOperationText isRequest)

/-- The texts that `decodeHeaders` or `encodeHeaders` can log. -/
def executionTexts (isRequest : Bool) : List Str :=
  invalidConfigText isRequest ::
    (conditionFailures ++ setHeaderFailures ++ setDynamicMetadataFailures).map
      (failedOperationText isRequest)

section Texts

variable {E : Envoy M I} {f : HttpHeaderRewriteFilter} {config : Str} {isRequest : Bool}
  {headers : M} {streamInfo : I}

/-- Every text that is logged is one of the texts. -/
theorem mem_executionTexts (hstrings : E.StringLaws) (hheaders : E.HeaderLaws)
    (hmetadata : E.MetadataLaws) (hf : construct E config = .returned f) {text : Str}
    (h : executionText E f isRequest headers streamInfo = some text) :
    text ∈ executionTexts isRequest := by
  have hwf : SideWellFormed E f isRequest := sideWellFormed_of_processLines hf
  rw [executionText] at h
  split at h
  · obtain rfl := Option.some.inj h
    exact List.mem_cons_self
  · obtain ⟨status, hstatus, rfl⟩ := Option.map_eq_some_iff.mp h
    refine List.mem_cons_of_mem _ (List.mem_map_of_mem ?_)
    obtain ⟨hbad, a, ha, st', hstep⟩ := exists_of_badVerdict hstatus
    have hp := mem_of_mem_attempts ha
    have hst : OnSide isRequest a.2 := attempts_invariant (.start isRequest headers streamInfo)
      (fun _ _ _ _ _ hst hstep => hst.executeOperation hstep) a ha
    rw [List.append_assoc, List.mem_append]
    rcases HeaderProcessor.mem_failures hstrings hheaders hmetadata hwf hp hst hstep
      (of_decide_eq_false hbad) with hcondition | hfails
    · exact Or.inl hcondition
    · cases hkind : a.1 with
      | setHeader p =>
        rw [hkind] at hfails
        exact Or.inr (List.mem_append_left _ hfails)
      | appendHeader p =>
        rw [hkind] at hfails
        rw [List.mem_singleton.mp hfails]
        exact Or.inl List.mem_cons_self
      | setPath p =>
        rw [hkind] at hfails
        cases hfails
      | setDynamicMetadata p =>
        rw [hkind] at hfails
        exact Or.inr (List.mem_append_right _ hfails)

/-- A run that returns has logged nothing exactly if it went through all operations of its side. -/
theorem executionText_eq_none_iff {st : StreamState M I}
    (h : executeHeaders E (DynamicFunctionProcessor.executeOperation E) f isRequest headers
      streamInfo = .returned st) :
    executionText E f isRequest headers streamInfo = none ↔
      f.error = false ∧ RunsThrough E f isRequest headers streamInfo st := by
  cases herror : f.error with
  | true => simp [executionText, herror]
  | false =>
    rw [executeHeaders_of_accepted herror] at h
    simp only [executionText, herror, Bool.false_eq_true, if_false, Option.map_eq_none_iff,
      true_and]
    exact badVerdict_eq_none_iff h

end Texts

/-- Configurations that make each of the texts be logged, for headers with one entry `a: 1`. -/
def failingConfigs (isRequest : Bool) : List Str :=
  ["x".toList,
    sideKeyword isRequest ++ " append-header k %[hdr(a,5)]".toList,
    sideKeyword isRequest ++ " set-bool b %[hdr(a,z)] -m found\n".toList ++
      sideKeyword isRequest ++ " set-header k v if b".toList,
    sideKeyword isRequest ++ " set-header k %[hdr(a,5)]".toList,
    sideKeyword isRequest ++ " set-metadata k %[hdr(a,5)]".toList,
    sideKeyword isRequest ++ " set-metadata k %[hdr(b)]".toList,
    sideKeyword isRequest ++ " set-metadata k %[hdr(a,z)]".toList]

/-- Each of the texts is logged for some configuration. -/
theorem exists_executionText {isRequest : Bool} {text : Str} (h : text ∈ executionTexts isRequest) :
    ∃ config f, construct Reference.envoy config = .returned f ∧
      executionText Reference.envoy f isRequest [("a".toList, "1".toList)] [] = some text := by
  have htexts : ((executionTexts isRequest).all fun text =>
      (failingConfigs isRequest).any fun config =>
        (construct Reference.envoy config).returnsWith fun f =>
          decide (executionText Reference.envoy f isRequest [("a".toList, "1".toList)] [] =
            some text)) = true := by
    cases isRequest <;> decide +kernel
  obtain ⟨config, -, hconfig⟩ := List.any_eq_true.mp (List.all_eq_true.mp htexts text h)
  obtain ⟨f, hf, htext⟩ := Outcome.exists_of_returnsWith hconfig
  exact ⟨config, f, hf, of_decide_eq_true htext⟩

/-- The texts that `decodeHeaders` and `encodeHeaders` log, over all filters that are constructed
and all requests and responses, are those about an invalid configuration and about the statuses with
which operations fail. A run that returns logs none exactly if the filter was accepted and the run
went through all operations. -/
theorem executionText_iff (isRequest : Bool) :
    (∀ text, (∃ (M I : Type) (E : Envoy M I) (config : Str) (f : HttpHeaderRewriteFilter)
        (headers : M) (streamInfo : I), E.StringLaws ∧ E.HeaderLaws ∧ E.MetadataLaws ∧
        construct E config = .returned f ∧
        executionText E f isRequest headers streamInfo = some text) ↔
      text ∈ executionTexts isRequest) ∧
    ∀ (M I : Type) (E : Envoy M I) (f : HttpHeaderRewriteFilter) (headers : M) (streamInfo : I)
      (st : StreamState M I),
      executeHeaders E (DynamicFunctionProcessor.executeOperation E) f isRequest headers
        streamInfo = .returned st →
      (executionText E f isRequest headers streamInfo = none ↔
        f.error = false ∧ RunsThrough E f isRequest headers streamInfo st) := by
  refine ⟨fun text => ⟨?_, fun h => ?_⟩, fun M I E f headers streamInfo st h =>
    executionText_eq_none_iff h⟩
  · rintro ⟨M, I, E, config, f, headers, streamInfo, hstrings, hheaders, hmetadata, hf, h⟩
    exact mem_executionTexts hstrings hheaders hmetadata hf h
  · obtain ⟨config, f, hf, htext⟩ := exists_executionText h
    exact ⟨_, _, Reference.envoy, config, f, _, _, Reference.stringLaws, Reference.headerLaws,
      Reference.metadataLaws, hf, htext⟩

end HttpHeaderRewriteFilter

end HeaderRewrite
