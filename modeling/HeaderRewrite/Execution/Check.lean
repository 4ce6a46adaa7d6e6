import HeaderRewrite.Execution.Safety
import HeaderRewrite.Execution.Transformation

/-!
# A check that rules out crashes

Whether a filter can let an exception escape or read beyond the end of a string can be bounded
without looking at a request. The check asks that the positions of `hdr` are numbers, except in
conditions and in `set-metadata`, where the exception is caught, and that the texts that prefixes
are compared with are literals of at most two characters, as the prefix matcher may read no more of
a source than one character beyond its end. A filter that passes handles every request with a path,
and its response, as the transformation of the contents says.

## Main definitions

* `HttpHeaderRewriteFilter.passesCheck`: the check.

## Main results

* `HeaderProcessor.returns_of_passesCheck`: an operation that passes returns;
* `HttpHeaderRewriteFilter.exchange_returns`: a request and its response.
-/

namespace HeaderRewrite

open Cxx Utility HttpHeaderRewriteFilter

variable {M I : Type}

/-- Whether an operand throws because of its position. -/
def DynamicFunctionProcessor.throws (E : Envoy M I) (d : DynamicFunctionProcessor) : Bool :=
  match d.functionType, d.arguments E with
  | .getHdr, [_, position] => !(stoi position).returnsWith fun _ => true
  | _, _ => false

/-- Whether a variable never reads beyond the end of its source. -/
def SetBoolProcessor.staysInSource (q : SetBoolProcessor) : Bool :=
  q.matchType ≠ .prefixOf ||
    q.stringToCompareFunctionProcessor.functionType = .static &&
      q.stringToCompareFunctionProcessor.functionArgument.length ≤ 2

/-- Whether the operands of an operation do not throw, unless it catches the exception. -/
def HeaderProcessor.catches (E : Envoy M I) : HeaderProcessor → Bool
  | setDynamicMetadata _ => true
  | p => p.operands.all fun d => !d.throws E

/-- Whether an operation and the variables of its condition pass the check. -/
def HeaderProcessor.passesCheck (E : Envoy M I) (maps : SetBoolProcessorMaps)
    (p : HeaderProcessor) : Bool :=
  p.catches E && p.conditionProcessor.toList.all fun c =>
    c.operands.all fun d =>
      ((maps c.boolProcessors).lookup d.1).toList.all SetBoolProcessor.staysInSource

/-- Whether all operations of a filter pass the check. -/
def HttpHeaderRewriteFilter.passesCheck (E : Envoy M I) (f : HttpHeaderRewriteFilter) : Bool :=
  (f.requestHeaderProcessors ++ f.responseHeaderProcessors).all
    (HeaderProcessor.passesCheck E f.setBoolProcessors)

section Operations

variable {E : Envoy M I} {f : HttpHeaderRewriteFilter} {isRequest : Bool} {p : HeaderProcessor}
  {st : StreamState M I}

theorem DynamicFunctionProcessor.BadPosition.throws_eq {d : DynamicFunctionProcessor}
    (h : d.BadPosition E) : d.throws E = true := by
  obtain ⟨htype, key, position, e, harguments, hstoi⟩ := h
  simp [throws, htype, harguments, hstoi, Outcome.returnsWith]

/-- A source that is not empty is at least as long as the text, up to one character. -/
theorem SetBoolProcessor.not_overReads {q : SetBoolProcessor} (h : q.staysInSource = true)
    (headers : RequestOrResponseHeaderMap M) (streamInfo : Option I) :
    ¬ q.OverReads (DynamicFunctionProcessor.executeOperation E) headers streamInfo := by
  rintro ⟨htype, source, text, -, htext, hne, hlong⟩
  rw [staysInSource, htype] at h
  simp only [ne_eq, not_true_eq_false, decide_false, Bool.false_or, Bool.and_eq_true,
    decide_eq_true_eq] at h
  obtain ⟨hstatic, hshort⟩ := h
  rw [DynamicFunctionProcessor.executeOperation_static hstatic] at htext
  obtain ⟨-, rfl⟩ := Outcome.pair_inj htext
  have hpos : 0 < source.length := List.length_pos_iff.mpr hne
  omega

/-- An operation that passes the check returns wherever `Path()` is not null. -/
theorem HeaderProcessor.returns_of_passesCheck (hheaders : E.HeaderLaws)
    (hwf : SideWellFormed E f isRequest) (hp : p ∈ f.headerProcessors isRequest)
    (hcheck : p.passesCheck E f.setBoolProcessors = true) (hpath : HasPath E isRequest st) :
    (p.executeOperation E (DynamicFunctionProcessor.executeOperation E) f.setBoolProcessors
      st).Returns := by
  obtain ⟨hcatches, hconditions⟩ := Bool.and_eq_true_iff.mp hcheck
  rw [executeOperation_returns_iff hheaders hwf hp hpath]
  rintro (⟨hne, d, st', hd, hbad⟩ | ⟨d, q, ⟨c, hc, hreached, hq⟩, hover⟩)
  · have hthrows : p.operands.all (fun d => !d.throws E) = true := by
      cases p with
      | setHeader p => exact hcatches
      | appendHeader p => exact hcatches
      | setPath p => exact hcatches
      | setDynamicMetadata p => exact (hne p rfl).elim
    have hgood := List.all_eq_true.mp hthrows d hd.mem
    rw [hbad.throws_eq] at hgood
    cases hgood
  · have hmem := ConditionProcessor.mem_of_reached (hwf.condition p hp c hc).2 hreached
    rw [hc, Option.toList_some, List.all_cons, List.all_nil, Bool.and_true] at hconditions
    have hvariable := List.all_eq_true.mp hconditions d hmem
    rw [hq, Option.toList_some, List.all_cons, List.all_nil, Bool.and_true] at hvariable
    exact SetBoolProcessor.not_overReads hvariable _ _ hover

end Operations

namespace HttpHeaderRewriteFilter

section Runs

variable {E : Envoy M I} {f : HttpHeaderRewriteFilter} {config : Str} {isRequest : Bool}
  {headers : M} {streamInfo : I}

/-- A run of a side that passes the check returns. -/
theorem executeHeaders_returns_of_passesCheck (hheaders : E.HeaderLaws)
    (hwf : SideWellFormed E f isRequest) (hcheck : f.passesCheck E = true)
    (hpath : isRequest = true → E.pathEntry headers ≠ none) :
    (executeHeaders E (DynamicFunctionProcessor.executeOperation E) f isRequest headers
      streamInfo).Returns := by
  cases herror : f.error with
  | true => exact ⟨_, by rw [executeHeaders, herror]; rfl⟩
  | false =>
    rw [executeHeaders_of_accepted herror, returns_run_iff]
    intro a ha
    have hp : a.1 ∈ f.headerProcessors isRequest := mem_attemptedSteps ha
    refine HeaderProcessor.returns_of_passesCheck hheaders hwf hp ?_
      (hasPath_of_mem_attemptedSteps hheaders hpath ha)
    refine List.all_eq_true.mp hcheck a.1 (List.mem_append.mpr ?_)
    cases isRequest with
    | true => exact Or.inl hp
    | false => exact Or.inr hp

/-- A filter that passes the check handles every request with a path and every response to it
without an exception or undefined behavior, and leaves the contents that its two sides make of
those it found. -/
theorem exchange_returns (hstrings : E.StringLaws) (hheaders : E.HeaderLaws)
    (hmetadata : E.MetadataLaws) (hf : construct E config = .returned f)
    (hcheck : f.passesCheck E = true) (hpath : E.pathEntry headers ≠ none) (streamInfo : I)
    (responseHeaders : M) :
    let S := f.transform E.parseQueryString true ⟨E.get headers, E.metadataStore streamInfo⟩
    ∃ map info st, decodeHeaders E f headers streamInfo = .returned ⟨⟨true, map⟩, some info⟩ ∧
      encodeHeaders E f responseHeaders info = .returned st ∧
      E.get map = S.entries ∧ E.metadataStore info = S.metadata ∧
      st.store E = f.transform E.parseQueryString false ⟨E.get responseHeaders, S.metadata⟩ := by
  have hrequest : SideWellFormed E f true := sideWellFormed_of_processLines hf
  have hresponse : SideWellFormed E f false := sideWellFormed_of_processLines hf
  obtain ⟨st, hdecode⟩ : (decodeHeaders E f headers streamInfo).Returns :=
    executeHeaders_returns_of_passesCheck hheaders hrequest hcheck fun _ => hpath
  obtain ⟨map, info, rfl⟩ := (onSide_of_executeHeaders hdecode).exists_eq_start
  obtain ⟨st', hencode⟩ : (encodeHeaders E f responseHeaders info).Returns :=
    executeHeaders_returns_of_passesCheck hheaders hresponse hcheck nofun
  have hstore := store_of_executeHeaders hstrings hheaders hmetadata hrequest hdecode
  have hmetadataStore := congrArg Store.metadata hstore
  refine ⟨map, info, st', hdecode, hencode, congrArg Store.entries hstore, hmetadataStore, ?_⟩
  refine (store_of_executeHeaders hstrings hheaders hmetadata hresponse hencode).trans ?_
  exact congrArg (fun texts => f.transform _ false ⟨_, texts⟩) hmetadataStore

end Runs

/-- A prefix of two characters is looked for, and the last value of a header copied to the
response. -/
theorem exchange_returns_prefix :
    ∃ f map info st, construct Reference.envoy ("http-request set-bool b %[hdr(x,0)] -m beg ab\n" ++
          "http-request set-metadata m %[hdr(x,-1)] if b\n" ++
          "http-response set-header k %[metadata(m)]").toList = .returned f ∧
      decodeHeaders Reference.envoy f [(":path".toList, "/".toList), ("x".toList, "abc,d".toList)]
        [] = .returned ⟨⟨true, map⟩, some info⟩ ∧
      encodeHeaders Reference.envoy f [] info = .returned st ∧
      (st.store Reference.envoy).entries "k" = ["d".toList] := by
  obtain ⟨f, hf, htest⟩ := Outcome.exists_of_returnsWith
    (show (construct Reference.envoy ("http-request set-bool b %[hdr(x,0)] -m beg ab\n" ++
        "http-request set-metadata m %[hdr(x,-1)] if b\n" ++
        "http-response set-header k %[metadata(m)]").toList).returnsWith
      (fun f => f.passesCheck Reference.envoy &&
        decide ((f.transform Reference.envoy.parseQueryString false ⟨Reference.envoy.get [],
          (f.transform Reference.envoy.parseQueryString true
            ⟨Reference.envoy.get [(":path".toList, "/".toList), ("x".toList, "abc,d".toList)],
              Reference.envoy.metadataStore []⟩).metadata⟩).entries "k" = ["d".toList])) = true by
      decide +kernel)
  obtain ⟨hcheck, hentries⟩ := Bool.and_eq_true_iff.mp htest
  have hpath : Reference.envoy.pathEntry [(":path".toList, "/".toList),
      ("x".toList, "abc,d".toList)] ≠ none := by
    decide +kernel
  obtain ⟨map, info, st, hdecode, hencode, -, -, hstore⟩ := exchange_returns Reference.stringLaws
    Reference.headerLaws Reference.metadataLaws hf hcheck hpath [] []
  refine ⟨f, map, info, st, hf, hdecode, hencode, ?_⟩
  rw [hstore]
  exact of_decide_eq_true hentries

end HttpHeaderRewriteFilter

end HeaderRewrite
