import HeaderRewrite.Envoy.Reference
import HeaderRewrite.Execution.Operation

/-!
# How runs end

`decodeHeaders` and `encodeHeaders` return unless one of three things happens in an operation that
they start: an operand throws where no `try` block is around it, the prefix matcher reads too far,
or a null `Path()` is dereferenced. Each is a condition on the operation and on the state it is
started in.

## Main definitions

* `HeaderProcessor.LetsThrow`, `HeaderProcessor.OverReads`, `HeaderProcessor.DereferencesNull`: the
  three conditions;
* `HttpHeaderRewriteFilter.attemptedSteps`: the operations that a run starts, with their states.

## Main results

* `HttpHeaderRewriteFilter.headers_return_iff`: when a run returns, and when an exception leaves it;
* `HttpHeaderRewriteFilter.nullPath_iff`: when a run does without a `:path`.
-/

namespace HeaderRewrite

open Cxx Utility HttpHeaderRewriteFilter

variable {M I : Type}

/-! ## States in which `Path()` is not null -/

/-- The state belongs to a side, and if that is the request side there is a `:path` entry. -/
structure HasPath (E : Envoy M I) (isRequest : Bool) (st : StreamState M I) : Prop where
  /-- The header map is one of the side. -/
  side : st.headers.isRequestHeaderMap = isRequest
  /-- Request headers have a `:path` entry. -/
  path : isRequest = true → E.pathEntry st.headers.map ≠ none

section Path

variable {E : Envoy M I} {isRequest : Bool} {st st' : StreamState M I}

theorem HasPath.not_nullPath (h : HasPath E isRequest st) (d : DynamicFunctionProcessor) :
    ¬ d.NullPath E st.headers := by
  rintro ⟨-, hside, hpath⟩
  exact h.path (h.side.symm.trans hside) hpath

theorem HasPath.withMap (h : HasPath E isRequest st) {map : M}
    (hmap : E.pathEntry st.headers.map ≠ none → E.pathEntry map ≠ none) :
    HasPath E isRequest (st.withMap map) :=
  ⟨h.side, fun hrequest => hmap (h.path hrequest)⟩

theorem pathEntry_setCopy (hlaws : E.HeaderLaws) {map : M} (key value : Str)
    (h : E.pathEntry map ≠ none) : E.pathEntry (E.setCopy map key value) ≠ none := by
  rw [hlaws.pathEntry_eq] at h ⊢
  rw [hlaws.get_setCopy]
  split
  · simp
  · exact h

theorem pathEntry_appendCopy (hlaws : E.HeaderLaws) {map : M} (key value : Str)
    (h : E.pathEntry map ≠ none) : E.pathEntry (E.appendCopy map key value) ≠ none := by
  rw [hlaws.pathEntry_eq] at h ⊢
  rw [hlaws.get_appendCopy]
  split
  · cases E.get map key <;> simp [Envoy.appendToEntries]
  · exact h

theorem HasPath.inTurn (hlaws : E.HeaderLaws) {eval : Evaluator M I} {key : Str}
    {headerVals : List DynamicFunctionProcessor} {values : List Str}
    (h : AppendHeaderProcessor.InTurn E eval key headerVals st values st')
    (hpath : HasPath E isRequest st) : HasPath E isRequest st' := by
  induction h with
  | nil => exact hpath
  | cons _ _ ih => exact ih (hpath.withMap (pathEntry_appendCopy hlaws _ _))

/-- The operands of an operation are evaluated in states in which `Path()` is not null. -/
theorem HasPath.evaluatesOperand (hlaws : E.HeaderLaws) {eval : Evaluator M I}
    {maps : SetBoolProcessorMaps} {p : HeaderProcessor} {d : DynamicFunctionProcessor}
    (h : HeaderProcessor.EvaluatesOperand E eval maps st p d st')
    (hpath : HasPath E isRequest st) : HasPath E isRequest st' := by
  obtain ⟨_, _, _, hin⟩ := h.exists_inTurn
  exact hpath.inTurn hlaws hin

/-- No operation removes the `:path` entry. -/
theorem HasPath.executeOperation (hlaws : E.HeaderLaws) {eval : Evaluator M I}
    {maps : SetBoolProcessorMaps} {p : HeaderProcessor} {status : Status}
    (h : p.executeOperation E eval maps st = .returned (status, st'))
    (hpath : HasPath E isRequest st) : HasPath E isRequest st' := by
  rcases HeaderProcessor.state_cases h with
    rfl | ⟨-, -, heffect⟩ | ⟨_, _, _, _, _, _, -, -, -, hin⟩
  · exact hpath
  · cases heffect with
    | setHeader _ _ => exact hpath.withMap (pathEntry_setCopy hlaws _ _)
    | appendHeader _ hin => exact hpath.inTurn hlaws hin
    | setPath _ _ =>
      exact hpath.withMap fun _ => by simp [SetPathProcessor.pathEntry_setPath hlaws]
    | setDynamicMetadata _ _ _ _ _ => exact ⟨hpath.side, hpath.path⟩
  · exact hpath.inTurn hlaws hin

end Path

/-! ## How an operation ends -/

namespace HeaderProcessor

/-- An operand throws where no `try` block is around it, which is in every operation but
`set-metadata`. -/
def LetsThrow (E : Envoy M I) (maps : SetBoolProcessorMaps) (p : HeaderProcessor)
    (st : StreamState M I) : Prop :=
  (∀ q, p ≠ .setDynamicMetadata q) ∧ ∃ d st',
    EvaluatesOperand E (DynamicFunctionProcessor.executeOperation E) maps st p d st' ∧
      d.BadPosition E

/-- The prefix matcher of a variable that the condition evaluates reads too far. -/
def OverReads (E : Envoy M I) (maps : SetBoolProcessorMaps) (p : HeaderProcessor)
    (st : StreamState M I) : Prop :=
  ∃ d q, ReachesVariable (DynamicFunctionProcessor.executeOperation E) maps p.conditionProcessor st
      d q ∧
    q.OverReads (DynamicFunctionProcessor.executeOperation E) st.headers st.streamInfo

/-- The calls that an operation evaluates, each with the headers and the stream info it is evaluated
on: its own operands, and those of the variables that its condition evaluates. The string to compare
is evaluated if the source has a value. -/
inductive EvaluatesCall (E : Envoy M I) (maps : SetBoolProcessorMaps) (p : HeaderProcessor)
    (st : StreamState M I) :
    DynamicFunctionProcessor → RequestOrResponseHeaderMap M → Option I → Prop
  | operand {d : DynamicFunctionProcessor} {st' : StreamState M I} :
      EvaluatesOperand E (DynamicFunctionProcessor.executeOperation E) maps st p d st' →
      EvaluatesCall E maps p st d st'.headers st'.streamInfo
  | source {literal : Str × Bool} {q : SetBoolProcessor} :
      ReachesVariable (DynamicFunctionProcessor.executeOperation E) maps p.conditionProcessor st
        literal q →
      EvaluatesCall E maps p st q.sourceProcessor st.headers st.streamInfo
  | stringToCompare {literal : Str × Bool} {q : SetBoolProcessor} {source : Str} :
      ReachesVariable (DynamicFunctionProcessor.executeOperation E) maps p.conditionProcessor st
        literal q →
      DynamicFunctionProcessor.executeOperation E q.sourceProcessor st.headers st.streamInfo =
        .returned (.ok, source) →
      EvaluatesCall E maps p st q.stringToCompareFunctionProcessor st.headers st.streamInfo

/-- A `urlp` is evaluated on request headers without a `:path` entry. -/
def DereferencesNull (E : Envoy M I) (maps : SetBoolProcessorMaps) (p : HeaderProcessor)
    (st : StreamState M I) : Prop :=
  ∃ d headers streamInfo, EvaluatesCall E maps p st d headers streamInfo ∧ d.NullPath E headers

section Ends

variable {E : Envoy M I} {f : HttpHeaderRewriteFilter} {isRequest : Bool} {p : HeaderProcessor}
  {st : StreamState M I}

/-- An operation whose condition reads too far is undefined. -/
theorem OverReads.executeOperation_eq (hwf : SideWellFormed E f isRequest)
    (hp : p ∈ f.headerProcessors isRequest) (h : p.OverReads E f.setBoolProcessors st) :
    ∃ u, p.executeOperation E (DynamicFunctionProcessor.executeOperation E) f.setBoolProcessors
      st = .undefined u := by
  obtain ⟨d, q, hreaches, hover⟩ := h
  obtain ⟨u, hu⟩ :=
    exists_undefined_of_reachesVariable hwf hp hreaches (hover.executeOperation_eq d.2)
  exact ⟨u, executeOperation_of_undefined hu⟩

/-- The calls that an operation of the filter evaluates are well formed. -/
theorem EvaluatesCall.wellFormed (hwf : SideWellFormed E f isRequest)
    (hp : p ∈ f.headerProcessors isRequest) {d : DynamicFunctionProcessor}
    {headers : RequestOrResponseHeaderMap M} {streamInfo : Option I}
    (h : p.EvaluatesCall E f.setBoolProcessors st d headers streamInfo) : d.WellFormed E := by
  cases h with
  | operand hd => exact (hwf.operand p hp d hd.mem).1
  | source hreaches =>
    exact (operand_of_reachesVariable hwf hp hreaches _ (by simp [SetBoolProcessor.operands])).1
  | stringToCompare hreaches _ =>
    exact (operand_of_reachesVariable hwf hp hreaches _ (by simp [SetBoolProcessor.operands])).1

/-- The calls are evaluated on headers of the class that the operation is started on. -/
theorem EvaluatesCall.isRequestHeaderMap_eq {maps : SetBoolProcessorMaps}
    {d : DynamicFunctionProcessor} {headers : RequestOrResponseHeaderMap M} {streamInfo : Option I}
    (h : p.EvaluatesCall E maps st d headers streamInfo) :
    headers.isRequestHeaderMap = st.headers.isRequestHeaderMap := by
  cases h with
  | operand hd => exact hd.isRequestHeaderMap_eq
  | source _ => rfl
  | stringToCompare _ _ => rfl

/-- An operation that lets an operand throw throws. -/
theorem LetsThrow.executeOperation_eq {maps : SetBoolProcessorMaps} (h : p.LetsThrow E maps st) :
    ∃ e, p.executeOperation E (DynamicFunctionProcessor.executeOperation E) maps st =
      .threw e := by
  obtain ⟨hp, d, st', hd, hbad⟩ := h
  obtain ⟨e, he⟩ := hbad.exists_threw st'.headers st'.streamInfo
  exact ⟨e, hd.threw hp he⟩

/-- An operation of the filter that throws lets an operand throw. -/
theorem letsThrow_of_threw (hwf : SideWellFormed E f isRequest)
    (hp : p ∈ f.headerProcessors isRequest) {e : Exception}
    (h : p.executeOperation E (DynamicFunctionProcessor.executeOperation E) f.setBoolProcessors st =
      .threw e) : p.LetsThrow E f.setBoolProcessors st := by
  obtain ⟨hne, d, st', hd, hthrew⟩ := threw_cases h
  exact ⟨hne, d, st', hd,
    DynamicFunctionProcessor.badPosition_of_threw (hwf.operand p hp d hd.mem).1 hthrew⟩

/-- An operation of the filter that is undefined reads too far or dereferences a null `Path()`. -/
theorem undefined_cases_of_mem (hwf : SideWellFormed E f isRequest)
    (hp : p ∈ f.headerProcessors isRequest) (hside : st.headers.isRequestHeaderMap = isRequest)
    {u : UndefinedBehavior}
    (h : p.executeOperation E (DynamicFunctionProcessor.executeOperation E) f.setBoolProcessors st =
      .undefined u) :
    u = .readPastEnd ∧ p.OverReads E f.setBoolProcessors st ∨
      u = .nullDereference ∧ p.DereferencesNull E f.setBoolProcessors st := by
  rcases undefined_cases h with hcondition | ⟨d, st', hd, hu⟩ | ⟨-, hresponse, q, hq⟩
  · obtain ⟨d, q, hreaches, hoperand, hu⟩ := reachesVariable_of_undefined hwf hp hcondition
    rcases SetBoolProcessor.executeOperation_undefined (fun o ho => (hoperand o ho).1) hu with
      ⟨rfl, hnull⟩ | ⟨rfl, hover⟩
    · rcases hnull with hnull | ⟨⟨source, hsource⟩, hnull⟩
      · exact Or.inr ⟨rfl, _, _, _, .source hreaches, hnull⟩
      · exact Or.inr ⟨rfl, _, _, _, .stringToCompare hreaches hsource, hnull⟩
    · exact Or.inl ⟨rfl, d, q, hreaches, hover⟩
  · obtain ⟨rfl, hnull⟩ :=
      DynamicFunctionProcessor.executeOperation_undefined (hwf.operand p hp d hd.mem).1 hu
    exact Or.inr ⟨rfl, d, _, _, .operand hd, hnull⟩
  · rw [hwf.setPath p hp q hq] at hside
    cases hside.symm.trans hresponse

/-- Where `Path()` is not null, it is not dereferenced as null. -/
theorem not_dereferencesNull (hlaws : E.HeaderLaws) (hpath : HasPath E isRequest st) :
    ¬ p.DereferencesNull E f.setBoolProcessors st := by
  rintro ⟨d, headers, streamInfo, hcall, hnull⟩
  cases hcall with
  | operand hd => exact (hpath.evaluatesOperand hlaws hd).not_nullPath d hnull
  | source _ => exact hpath.not_nullPath _ hnull
  | stringToCompare _ _ => exact hpath.not_nullPath _ hnull

/-- Where `Path()` is not null, an operation of the filter returns exactly unless it lets an operand
throw or reads too far. -/
theorem executeOperation_returns_iff (hlaws : E.HeaderLaws) (hwf : SideWellFormed E f isRequest)
    (hp : p ∈ f.headerProcessors isRequest) (hpath : HasPath E isRequest st) :
    (p.executeOperation E (DynamicFunctionProcessor.executeOperation E) f.setBoolProcessors
        st).Returns ↔
      ¬ (p.LetsThrow E f.setBoolProcessors st ∨ p.OverReads E f.setBoolProcessors st) := by
  constructor
  · rintro hreturns (hthrows | hover)
    · obtain ⟨e, he⟩ := hthrows.executeOperation_eq
      simp [he] at hreturns
    · obtain ⟨u, hu⟩ := hover.executeOperation_eq hwf hp
      simp [hu] at hreturns
  · intro hgood
    cases hresult : p.executeOperation E (DynamicFunctionProcessor.executeOperation E)
        f.setBoolProcessors st with
    | returned result => exact ⟨result, rfl⟩
    | threw e => exact (hgood (Or.inl (letsThrow_of_threw hwf hp hresult))).elim
    | undefined u =>
      rcases undefined_cases_of_mem hwf hp hpath.side hresult with ⟨-, hover⟩ | ⟨-, hnull⟩
      · exact (hgood (Or.inr hover)).elim
      · exact (not_dereferencesNull hlaws hpath hnull).elim

end Ends

end HeaderProcessor

/-! ## Runs -/

namespace HttpHeaderRewriteFilter

/-- The operations that the run of a side starts, each with the state it is started in. -/
def attemptedSteps (E : Envoy M I) (f : HttpHeaderRewriteFilter) (isRequest : Bool) (headers : M)
    (streamInfo : I) : List (HeaderProcessor × StreamState M I) :=
  attempts (fun p => p.executeOperation E (DynamicFunctionProcessor.executeOperation E)
    f.setBoolProcessors) (· = Status.ok) (f.headerProcessors isRequest)
    ⟨⟨isRequest, headers⟩, some streamInfo⟩

section Runs

variable {E : Envoy M I} {f : HttpHeaderRewriteFilter} {isRequest : Bool} {headers : M}
  {streamInfo : I}

theorem executeHeaders_of_accepted (herror : f.error = false) :
    executeHeaders E (DynamicFunctionProcessor.executeOperation E) f isRequest headers streamInfo =
      run (fun p => p.executeOperation E (DynamicFunctionProcessor.executeOperation E)
        f.setBoolProcessors) (· = Status.ok) (f.headerProcessors isRequest)
        ⟨⟨isRequest, headers⟩, some streamInfo⟩ := by
  simp only [executeHeaders, herror, Bool.false_eq_true, if_false, executeProcessors]

/-- Every step of a run is one of the side's operations, and is started on the side's headers. -/
theorem mem_attemptedSteps {a : HeaderProcessor × StreamState M I}
    (ha : a ∈ attemptedSteps E f isRequest headers streamInfo) :
    a.1 ∈ f.headerProcessors isRequest := mem_of_mem_attempts ha

/-- Where there is a `:path` at the start of a run, there is one in every state of the run. -/
theorem hasPath_of_mem_attemptedSteps (hlaws : E.HeaderLaws)
    (hpath : isRequest = true → E.pathEntry headers ≠ none)
    {a : HeaderProcessor × StreamState M I}
    (ha : a ∈ attemptedSteps E f isRequest headers streamInfo) : HasPath E isRequest a.2 :=
  attempts_invariant ⟨rfl, hpath⟩
    (fun _ _ _ _ _ hst hstep => HasPath.executeOperation hlaws hstep hst) a ha

/-- Every step of a run is started on headers of the side's class. -/
theorem isRequestHeaderMap_of_mem_attemptedSteps {a : HeaderProcessor × StreamState M I}
    (ha : a ∈ attemptedSteps E f isRequest headers streamInfo) :
    a.2.headers.isRequestHeaderMap = isRequest :=
  @attempts_invariant _ _ _ _ _ (fun st => st.headers.isRequestHeaderMap = isRequest) _ _ rfl
    (fun _ _ _ _ _ hst hstep =>
      (HeaderProcessor.isRequestHeaderMap_eq_of_executeOperation hstep).trans hst) a ha

/-- A run that starts with a `:path` returns exactly if no step lets an operand throw or reads too
far, and an exception leaves it exactly if some step lets an operand throw. -/
theorem executeHeaders_returns_iff (hlaws : E.HeaderLaws) (hwf : SideWellFormed E f isRequest)
    (herror : f.error = false) (hpath : isRequest = true → E.pathEntry headers ≠ none) :
    ((executeHeaders E (DynamicFunctionProcessor.executeOperation E) f isRequest headers
        streamInfo).Returns ↔
      ∀ a ∈ attemptedSteps E f isRequest headers streamInfo,
        ¬ (a.1.LetsThrow E f.setBoolProcessors a.2 ∨ a.1.OverReads E f.setBoolProcessors a.2)) ∧
    ((∃ e, executeHeaders E (DynamicFunctionProcessor.executeOperation E) f isRequest headers
        streamInfo = .threw e) ↔
      ∃ a ∈ attemptedSteps E f isRequest headers streamInfo,
        a.1.LetsThrow E f.setBoolProcessors a.2) := by
  rw [executeHeaders_of_accepted herror]
  constructor
  · rw [returns_run_iff]
    refine forall_congr' fun a => forall_congr' fun ha => ?_
    exact HeaderProcessor.executeOperation_returns_iff hlaws hwf (mem_attemptedSteps ha)
      (hasPath_of_mem_attemptedSteps hlaws hpath ha)
  · constructor
    · rintro ⟨e, he⟩
      obtain ⟨a, ha, hthrew⟩ := (run_eq_threw_iff _ _ e).mp he
      exact ⟨a, ha, HeaderProcessor.letsThrow_of_threw hwf (mem_attemptedSteps ha) hthrew⟩
    · rintro ⟨a, ha, hthrows⟩
      obtain ⟨e, he⟩ := hthrows.executeOperation_eq
      exact ⟨e, (run_eq_threw_iff _ _ e).mpr ⟨a, ha, he⟩⟩

end Runs

/-- Requests with a `:path` and responses are handled without an exception or undefined behavior
exactly if no operation that is started lets an operand throw or evaluates a variable that reads too
far; an exception leaves the filter exactly if an operation lets an operand throw. -/
theorem headers_return_iff {E : Envoy M I} (hlaws : E.HeaderLaws) {config : Str}
    {f : HttpHeaderRewriteFilter} (hf : construct E config = .returned f)
    (herror : f.error = false) :
    (∀ headers streamInfo, E.pathEntry headers ≠ none →
      ((decodeHeaders E f headers streamInfo).Returns ↔
        ∀ a ∈ attemptedSteps E f true headers streamInfo,
          ¬ (a.1.LetsThrow E f.setBoolProcessors a.2 ∨ a.1.OverReads E f.setBoolProcessors a.2)) ∧
      ((∃ e, decodeHeaders E f headers streamInfo = .threw e) ↔
        ∃ a ∈ attemptedSteps E f true headers streamInfo,
          a.1.LetsThrow E f.setBoolProcessors a.2)) ∧
    ∀ headers streamInfo,
      ((encodeHeaders E f headers streamInfo).Returns ↔
        ∀ a ∈ attemptedSteps E f false headers streamInfo,
          ¬ (a.1.LetsThrow E f.setBoolProcessors a.2 ∨ a.1.OverReads E f.setBoolProcessors a.2)) ∧
      ((∃ e, encodeHeaders E f headers streamInfo = .threw e) ↔
        ∃ a ∈ attemptedSteps E f false headers streamInfo,
          a.1.LetsThrow E f.setBoolProcessors a.2) := by
  constructor
  · intro headers streamInfo hpath
    exact executeHeaders_returns_iff hlaws (sideWellFormed_of_processLines hf) herror fun _ => hpath
  · intro headers streamInfo
    exact executeHeaders_returns_iff hlaws (sideWellFormed_of_processLines hf) herror nofun

/-- A request with a `:path` is handled normally by `set-metadata k %[hdr(b,x)]`, which catches the
exception. -/
theorem headers_return_setMetadata :
    ∃ f, construct Reference.envoy "http-request set-metadata k %[hdr(b,x)]".toList =
        .returned f ∧ f.error = false ∧
      (decodeHeaders Reference.envoy f [(":path".toList, "/".toList)] []).Returns := by
  let side := Processor.ofSide true
  let q : SetDynamicMetadataProcessor :=
    ⟨side, ⟨side, .static, "k".toList⟩, ⟨side, .getHdr, "b,x".toList⟩, none⟩
  obtain ⟨f, hf, htest⟩ := Outcome.exists_of_returnsWith
    (show (construct Reference.envoy
        "http-request set-metadata k %[hdr(b,x)]".toList).returnsWith
      (fun f => decide (f.error = false ∧ f.headerProcessors true = [.setDynamicMetadata q])) =
        true by decide +kernel)
  obtain ⟨herror, hprocessors⟩ := of_decide_eq_true htest
  refine ⟨f, hf, herror, (((headers_return_iff Reference.headerLaws hf herror).1 _ []
    (by decide +kernel)).1).mpr fun a ha => ?_⟩
  have hq : a.1 = .setDynamicMetadata q := by
    have hmem := mem_attemptedSteps ha
    rwa [hprocessors, List.mem_singleton] at hmem
  rintro (⟨hne, -⟩ | ⟨d, v, ⟨c, hc, -⟩, -⟩)
  · exact hne q hq
  · rw [hq] at hc
    cases hc

/-- An exception leaves `decodeHeaders` on every request if a value is `%[hdr(b,x)]`. -/
theorem not_headers_return_setHeader :
    ∃ f, construct Reference.envoy "http-request set-header a %[hdr(b,x)]".toList =
        .returned f ∧ f.error = false ∧
      Reference.envoy.pathEntry [(":path".toList, "/".toList)] ≠ none ∧
      ¬ (decodeHeaders Reference.envoy f [(":path".toList, "/".toList)] []).Returns := by
  obtain ⟨f, hf, htest⟩ := Outcome.exists_of_returnsWith
    (show (construct Reference.envoy "http-request set-header a %[hdr(b,x)]".toList).returnsWith
      (fun f => !f.error && !(decodeHeaders Reference.envoy f
        [(":path".toList, "/".toList)] []).returnsWith fun _ => true) = true by decide +kernel)
  obtain ⟨herror, hstops⟩ : f.error = false ∧ (decodeHeaders Reference.envoy f
      [(":path".toList, "/".toList)] []).returnsWith (fun _ => true) = false := by
    simpa using htest
  refine ⟨f, hf, herror, by decide +kernel, ?_⟩
  rintro ⟨st, hst⟩
  rw [hst] at hstops
  cases hstops

/-- A run on requests dereferences no null `Path()`, and every `urlp` that it evaluates without a
`:path` has the empty string as its value, exactly if it evaluates no `urlp` without a `:path`. A
`set-path` takes a missing `:path` for one without a query string. -/
theorem nullPath_iff {E : Envoy M I} (hlaws : E.HeaderLaws) {config : Str}
    {f : HttpHeaderRewriteFilter} (hf : construct E config = .returned f)
    (herror : f.error = false) (headers : M) (streamInfo : I) :
    ((decodeHeaders E f headers streamInfo ≠ .undefined .nullDereference ∧
        ∀ a ∈ attemptedSteps E f true headers streamInfo, ∀ d headers' streamInfo',
          a.1.EvaluatesCall E f.setBoolProcessors a.2 d headers' streamInfo' →
          d.functionType = .urlp → E.pathEntry headers'.map = none →
          DynamicFunctionProcessor.executeOperation E d headers' streamInfo' =
            .returned (.ok, [])) ↔
      ∀ a ∈ attemptedSteps E f true headers streamInfo,
        ¬ a.1.DereferencesNull E f.setBoolProcessors a.2) ∧
    ∀ a ∈ attemptedSteps E f true headers streamInfo, ∀ q status newPath, a.1 = .setPath q →
      evaluateCondition (DynamicFunctionProcessor.executeOperation E) f.setBoolProcessors
        q.conditionProcessor a.2 = .returned (.ok, true) →
      DynamicFunctionProcessor.executeOperation E q.requestPath a.2.headers a.2.streamInfo =
        .returned (status, newPath) →
      E.pathEntry a.2.headers.map = none →
      a.1.executeOperation E (DynamicFunctionProcessor.executeOperation E) f.setBoolProcessors
        a.2 = .returned (.ok, a.2.withMap (E.setPath a.2.headers.map newPath)) := by
  have hwf : SideWellFormed E f true := sideWellFormed_of_processLines hf
  refine ⟨⟨?_, ?_⟩, ?_⟩
  · rintro ⟨-, hempty⟩ a ha ⟨d, headers', streamInfo', hcall, hnull⟩
    have hvalue := hempty a ha d headers' streamInfo' hcall hnull.1 hnull.2.2
    rw [hnull.executeOperation_eq (hcall.wellFormed hwf (mem_attemptedSteps ha))] at hvalue
    cases hvalue
  · intro hgood
    constructor
    · intro hnull
      rw [decodeHeaders, executeHeaders_of_accepted herror] at hnull
      obtain ⟨a, ha, hu⟩ := (run_eq_undefined_iff _ _ _).mp hnull
      rcases HeaderProcessor.undefined_cases_of_mem hwf (mem_attemptedSteps ha)
        (isRequestHeaderMap_of_mem_attemptedSteps ha) hu with ⟨hu, -⟩ | ⟨-, hdereferences⟩
      · cases hu
      · exact hgood a ha hdereferences
    · intro a ha d headers' streamInfo' hcall htype hnone
      refine (hgood a ha ⟨d, headers', streamInfo', hcall, htype, ?_, hnone⟩).elim
      exact hcall.isRequestHeaderMap_eq.trans (isRequestHeaderMap_of_mem_attemptedSteps ha)
  · intro a ha q status newPath hq hcondition hpath hnone
    rw [hq, HeaderProcessor.executeOperation,
      SetPathProcessor.executeOperation_of_returned hcondition hpath,
      if_pos (isRequestHeaderMap_of_mem_attemptedSteps ha), hlaws.path_eq, hnone]
    simp [SetPathProcessor.queryString, findFirstOf]

/-- A request with a `:path` is handled by `set-header a %[urlp(x)]`. -/
theorem nullPath_urlp_with_path :
    ∃ f, construct Reference.envoy "http-request set-header a %[urlp(x)]".toList = .returned f ∧
      decodeHeaders Reference.envoy f [(":path".toList, "/?x=1".toList)] [] ≠
        .undefined .nullDereference := by
  obtain ⟨f, hf, htest⟩ := Outcome.exists_of_returnsWith
    (show (construct Reference.envoy "http-request set-header a %[urlp(x)]".toList).returnsWith
      (fun f => !f.error) = true by decide +kernel)
  have herror : f.error = false := by simpa using htest
  refine ⟨f, hf, ((nullPath_iff Reference.headerLaws hf herror _ []).1.mpr fun a ha => ?_).1⟩
  exact HeaderProcessor.not_dereferencesNull Reference.headerLaws
    (hasPath_of_mem_attemptedSteps Reference.headerLaws (fun _ => by decide +kernel) ha)

/-- On a request without a `:path`, `set-header a %[urlp(x)]` dereferences null. -/
theorem not_nullPath_urlp :
    ∃ f, construct Reference.envoy "http-request set-header a %[urlp(x)]".toList = .returned f ∧
      f.error = false ∧
      ¬ (decodeHeaders Reference.envoy f [] [] ≠ .undefined .nullDereference ∧
        ∀ a ∈ attemptedSteps Reference.envoy f true [] [], ∀ d headers' streamInfo',
          a.1.EvaluatesCall Reference.envoy f.setBoolProcessors a.2 d headers' streamInfo' →
          d.functionType = .urlp → Reference.envoy.pathEntry headers'.map = none →
          DynamicFunctionProcessor.executeOperation Reference.envoy d headers' streamInfo' =
            .returned (.ok, [])) := by
  obtain ⟨f, hf, htest⟩ := Outcome.exists_of_returnsWith
    (show (construct Reference.envoy "http-request set-header a %[urlp(x)]".toList).returnsWith
      (fun f => !f.error && match decodeHeaders Reference.envoy f [] [] with
        | .undefined u => decide (u = .nullDereference)
        | _ => false) = true by decide +kernel)
  obtain ⟨herror, hnull⟩ := Bool.and_eq_true_iff.mp htest
  refine ⟨f, hf, by simpa using herror, fun hgood => hgood.1 ?_⟩
  split at hnull
  · next u hu => rw [hu, of_decide_eq_true hnull]
  · cases hnull

end HttpHeaderRewriteFilter

end HeaderRewrite
