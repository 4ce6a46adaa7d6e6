import HeaderRewrite.Construction.RoundTrip
import HeaderRewrite.Execution.Dependence

/-!
# Deciding conditions before a run

A condition that reads no cell that the operations of its side can change has one value throughout
a run. Where the cells that such conditions read are known, the filter can be specialized to them:
operations with a true condition lose it, and operations with a false one are left out. On every
request with these cells, the specialized filter does what the filter does.

Two kinds of operations stay as they are. The white space at the end of a line is not read, so that
an operation whose last operand ends in white space cannot lose its condition. A `set-path` whose
operand is not a literal evaluates it even after a false condition, and cannot be left out.

## Main definitions

* `HeaderProcessor.unconditional`: an operation without its condition;
* `HttpHeaderRewriteFilter.settledCells`: the cells that decide conditions before a run;
* `HttpHeaderRewriteFilter.Settled`: the operations whose conditions they decide;
* `HttpHeaderRewriteFilter.specialize`: the filter specialized to the cells of a state.

## Main results

* `HeaderProcessor.specialize_expands`: an operation does what is left of it;
* `HttpHeaderRewriteFilter.Renderable.specialize`: the specialized filter can be printed;
* `HttpHeaderRewriteFilter.executeHeaders_specialize`: it does what the filter does.
-/

namespace HeaderRewrite

open Cxx Utility HttpHeaderRewriteFilter

variable {M I : Type}

/-! ## Operations without their conditions -/

namespace HeaderProcessor

/-- An operation without its condition. -/
def unconditional (p : HeaderProcessor) : HeaderProcessor := p.withCondition none

/-- Whether the operands of an operation can come last on their line, where white space at the end
is not read. -/
def endsInWord (p : HeaderProcessor) : Bool :=
  p.operands.getLast?.all fun d => d.token.getLast?.all fun c => !isSpace c

/-- Whether an operation does nothing at all after a false condition. A `set-path` still evaluates
its operand, and only a literal has no way to fail. -/
def isSkipped : HeaderProcessor → Bool
  | setPath p => p.requestPath.functionType = .static
  | _ => true

/-- The cells that the condition of an operation reads. -/
def conditionReads (E : Envoy M I) (maps : SetBoolProcessorMaps) (p : HeaderProcessor) :
    List Cell :=
  p.conditionProcessor.toList.flatMap (ConditionProcessor.reads E maps)

/-- What is left of an operation whose condition has the value that it has in a state. An operation
whose condition fails is kept, as it ends the run. -/
def specialize (E : Envoy M I) (maps : SetBoolProcessorMaps) (st : StreamState M I)
    (p : HeaderProcessor) : List HeaderProcessor :=
  match evaluateCondition (DynamicFunctionProcessor.executeOperation E) maps p.conditionProcessor
      st with
  | .returned (.ok, true) => if p.endsInWord then [p.unconditional] else [p]
  | .returned (.ok, false) => if p.isSkipped then [] else [p]
  | _ => [p]

section Execution

variable {E : Envoy M I} {maps : SetBoolProcessorMaps} {p : HeaderProcessor}
  {known st : StreamState M I}

/-- After a true condition an operation does what it does without one. -/
theorem executeOperation_unconditional
    (h : evaluateCondition (DynamicFunctionProcessor.executeOperation E) maps
      p.conditionProcessor st = .returned (.ok, true)) :
    p.unconditional.executeOperation E (DynamicFunctionProcessor.executeOperation E) maps st =
      p.executeOperation E (DynamicFunctionProcessor.executeOperation E) maps st := by
  cases p with
  | setHeader p =>
    exact (setHeader_of_true (p := { p with conditionProcessor := none }) rfl).trans
      (setHeader_of_true h).symm
  | appendHeader p =>
    exact (appendHeader_of_true (p := { p with conditionProcessor := none }) rfl).trans
      (appendHeader_of_true h).symm
  | setPath p =>
    exact (setPath_of_true (p := { p with conditionProcessor := none }) rfl).trans
      (setPath_of_true h).symm
  | setDynamicMetadata p =>
    exact (setDynamicMetadata_of_true (p := { p with conditionProcessor := none }) rfl).trans
      (setDynamicMetadata_of_true h).symm

/-- After a false condition an operation that is skipped does nothing. -/
theorem executeOperation_of_isSkipped
    (h : evaluateCondition (DynamicFunctionProcessor.executeOperation E) maps
      p.conditionProcessor st = .returned (.ok, false)) (hskipped : p.isSkipped = true) :
    p.executeOperation E (DynamicFunctionProcessor.executeOperation E) maps st =
      .returned (.ok, st) := by
  rw [executeOperation_of_false h]
  cases p with
  | setHeader p => rfl
  | appendHeader p => rfl
  | setPath p =>
    have hstatic : p.requestPath.functionType = .static := of_decide_eq_true hskipped
    simp only [DynamicFunctionProcessor.executeOperation_static hstatic, Outcome.bind_returned,
      Outcome.pure_eq]
  | setDynamicMetadata p => rfl

/-- What is left of an operation can be executed in its place, wherever the condition has the value
that it was specialized to. -/
theorem specialize_expands :
    Expands (fun p => executeOperation E (DynamicFunctionProcessor.executeOperation E) maps p)
      (fun status => decide (status = .ok))
      (fun st => evaluateCondition (DynamicFunctionProcessor.executeOperation E) maps
          p.conditionProcessor st =
        evaluateCondition (DynamicFunctionProcessor.executeOperation E) maps
          p.conditionProcessor known)
      p (p.specialize E maps known) := by
  rw [specialize]
  split
  · next htrue =>
    split
    · exact .of_step_eq fun st hst => executeOperation_unconditional (hst.trans htrue)
    · exact .refl _ _ _ _
  · next hfalse =>
    split
    · next hskipped =>
      exact .nil fun st hst =>
        ⟨.ok, executeOperation_of_isSkipped (hst.trans hfalse) hskipped, rfl⟩
    · exact .refl _ _ _ _
  · exact .refl _ _ _ _

end Execution

end HeaderProcessor

/-! ## The specialized filter -/

namespace HttpHeaderRewriteFilter

/-- The cells that the conditions of a side read and no operation of the side can change. -/
def settledCells (E : Envoy M I) (f : HttpHeaderRewriteFilter) (isRequest : Bool) : List Cell :=
  ((f.headerProcessors isRequest).flatMap (HeaderProcessor.conditionReads E
    f.setBoolProcessors)).filter fun c => !f.mayChange E isRequest c

/-- No operation of the side can change what the condition of an operation reads. -/
def Settled (E : Envoy M I) (f : HttpHeaderRewriteFilter) (isRequest : Bool) (p : HeaderProcessor) :
    Prop :=
  ∀ c ∈ p.conditionReads E f.setBoolProcessors, f.mayChange E isRequest c = false

/-- What is left of an operation of a side. A condition is decided if no operation of the side can
change what it reads. -/
def specializeProcessor (E : Envoy M I) (f : HttpHeaderRewriteFilter) (isRequest : Bool)
    (known : StreamState M I) (p : HeaderProcessor) : List HeaderProcessor :=
  if (p.conditionReads E f.setBoolProcessors).all fun c => !f.mayChange E isRequest c then
    p.specialize E f.setBoolProcessors known
  else [p]

/-- The filter with the conditions of a side decided as in a state. -/
def specialize (E : Envoy M I) (f : HttpHeaderRewriteFilter) (isRequest : Bool)
    (known : StreamState M I) : HttpHeaderRewriteFilter :=
  if isRequest then
    { f with
      requestHeaderProcessors :=
        f.requestHeaderProcessors.flatMap (f.specializeProcessor E true known) }
  else
    { f with
      responseHeaderProcessors :=
        f.responseHeaderProcessors.flatMap (f.specializeProcessor E false known) }

section Specialize

variable {E : Envoy M I} {f : HttpHeaderRewriteFilter} {isRequest : Bool}
  {known : StreamState M I} {config : Str}

theorem headerProcessors_specialize (E : Envoy M I) (f : HttpHeaderRewriteFilter)
    (isRequest side : Bool) (known : StreamState M I) :
    (f.specialize E isRequest known).headerProcessors side =
      if side = isRequest then
        (f.headerProcessors side).flatMap (f.specializeProcessor E side known)
      else f.headerProcessors side := by
  cases isRequest <;> cases side <;> rfl

@[simp] theorem sideSetBools_specialize (E : Envoy M I) (f : HttpHeaderRewriteFilter)
    (isRequest side : Bool) (known : StreamState M I) :
    (f.specialize E isRequest known).sideSetBools side = f.sideSetBools side := by
  cases isRequest <;> cases side <;> rfl

theorem setBoolProcessors_specialize (E : Envoy M I) (f : HttpHeaderRewriteFilter)
    (isRequest : Bool) (known : StreamState M I) :
    (f.specialize E isRequest known).setBoolProcessors = f.setBoolProcessors := by
  cases isRequest <;> rfl

section Operations

variable {p : HeaderProcessor}

theorem specializeProcessor_of_settled (h : f.Settled E isRequest p) :
    f.specializeProcessor E isRequest known p = p.specialize E f.setBoolProcessors known := by
  rw [specializeProcessor, if_pos]
  simpa [Settled] using h

/-- A condition that holds is removed, unless the last operand ends in white space. -/
theorem specializeProcessor_of_true (h : f.Settled E isRequest p)
    (htrue : evaluateCondition (DynamicFunctionProcessor.executeOperation E) f.setBoolProcessors
      p.conditionProcessor known = .returned (.ok, true)) :
    f.specializeProcessor E isRequest known p =
      if p.endsInWord then [p.unconditional] else [p] := by
  rw [specializeProcessor_of_settled h, HeaderProcessor.specialize, htrue]

/-- An operation with a false condition is left out, unless it is a `set-path` with an operand that
is not a literal. -/
theorem specializeProcessor_of_false (h : f.Settled E isRequest p)
    (hfalse : evaluateCondition (DynamicFunctionProcessor.executeOperation E) f.setBoolProcessors
      p.conditionProcessor known = .returned (.ok, false)) :
    f.specializeProcessor E isRequest known p = if p.isSkipped then [] else [p] := by
  rw [specializeProcessor_of_settled h, HeaderProcessor.specialize, hfalse]

/-- An operation stays as it is if its condition is not decided or has no value. -/
theorem specializeProcessor_of_not_value
    (h : f.Settled E isRequest p → ∀ value,
      evaluateCondition (DynamicFunctionProcessor.executeOperation E) f.setBoolProcessors
        p.conditionProcessor known ≠ .returned (.ok, value)) :
    f.specializeProcessor E isRequest known p = [p] := by
  by_cases hsettled : f.Settled E isRequest p
  · rw [specializeProcessor_of_settled hsettled, HeaderProcessor.specialize]
    split
    · next htrue => exact (h hsettled _ htrue).elim
    · next hfalse => exact (h hsettled _ hfalse).elim
    · rfl
  · rw [specializeProcessor, if_neg]
    simpa [Settled] using hsettled

end Operations

/-- What is left of an operation is the operation, or the operation without its condition. -/
theorem mem_specializeProcessor {p q : HeaderProcessor}
    (h : q ∈ f.specializeProcessor E isRequest known p) :
    q = p ∨ p.endsInWord = true ∧ q = p.unconditional := by
  unfold specializeProcessor HeaderProcessor.specialize at h
  split at h
  · split at h
    · split at h
      · next hends => exact Or.inr ⟨hends, List.mem_singleton.mp h⟩
      · exact Or.inl (List.mem_singleton.mp h)
    · split at h
      · cases h
      · exact Or.inl (List.mem_singleton.mp h)
    · exact Or.inl (List.mem_singleton.mp h)
  · exact Or.inl (List.mem_singleton.mp h)

/-- The specialized filter can be printed. -/
theorem Renderable.specialize (h : Renderable E f) (isRequest : Bool) (known : StreamState M I) :
    Renderable E (f.specialize E isRequest known) := by
  have hscope : (f.specialize E isRequest known).scope = f.scope :=
    scope_eq_of_sideSetBools (sideSetBools_specialize E f isRequest · known)
  have herror : (f.specialize E isRequest known).error = f.error := by
    cases isRequest <;> rfl
  refine ⟨herror.trans h.error, fun side => ?_, fun side b hb => ?_, fun side q hq => ?_⟩
  · rw [sideSetBools_specialize]
    exact h.nodup side
  · rw [sideSetBools_specialize] at hb
    exact h.definition side b hb
  · rw [hscope]
    rw [headerProcessors_specialize] at hq
    split at hq
    · obtain ⟨p, hp, hq⟩ := List.mem_flatMap.mp hq
      obtain ⟨hline, hwords⟩ := h.operation side p hp
      rcases mem_specializeProcessor hq with rfl | ⟨hends, rfl⟩
      · exact ⟨hline, hwords⟩
      · refine ⟨hline.withCondition .unconditional,
          HeaderProcessor.words_withCondition hwords none ⟨by simp [clauseTokens], by
            simp [clauseTokens]⟩ fun _ d hd => ?_⟩
        rw [HeaderProcessor.endsInWord, hd] at hends
        simpa [Option.all_eq_true] using hends
    · exact h.operation side q hq

/-- The settled cells of an operation whose condition is decided. -/
theorem mem_settledCells {p : HeaderProcessor} (hp : p ∈ f.headerProcessors isRequest)
    (hsettled : f.Settled E isRequest p) {c : Cell}
    (hc : c ∈ p.conditionReads E f.setBoolProcessors) :
    c ∈ f.settledCells E isRequest :=
  List.mem_filter.mpr ⟨List.mem_flatMap.mpr ⟨p, hp, hc⟩, by rw [hsettled c hc]; rfl⟩

/-- A run keeps the settled cells. -/
theorem SideWellFormed.settled_of_executeOperation (hwf : SideWellFormed E f isRequest)
    (hheaders : E.HeaderLaws) (hmetadata : E.MetadataLaws) (hnamespaces : E.NamespaceLaws)
    {p : HeaderProcessor} (hp : p ∈ f.headerProcessors isRequest) {st st' : StreamState M I}
    {status : Status}
    (h : p.executeOperation E (DynamicFunctionProcessor.executeOperation E) f.setBoolProcessors
      st = .returned (status, st')) {c : Cell} (hc : c ∈ f.settledCells E isRequest) :
    E.observe st' c = E.observe st c := by
  have hmay : f.mayChange E isRequest c = false := by
    simpa using (List.mem_filter.mp hc).2
  have hstep := hwf.hasFootprint hheaders hmetadata hnamespaces p hp st st (Set.eqOn_refl _ _)
  rw [h] at hstep
  obtain ⟨_, -, -, hchange⟩ := hstep.exists_of_returned
  exact hchange.frame (by simp [changes, hmay])

/-- A filter that is specialized to the settled cells of a request or response differs from the
filter in the operations of the side only. It is constructed from its printed form, and does what
the filter does to every request or response with these cells. -/
theorem executeHeaders_specialize (hstrings : E.StringLaws) (hheaders : E.HeaderLaws)
    (hmetadata : E.MetadataLaws) (hnamespaces : E.NamespaceLaws)
    (hf : construct E config = .returned f) (herror : f.error = false) (isRequest : Bool)
    (known : StreamState M I) :
    let g := f.specialize E isRequest known
    let value := fun p : HeaderProcessor => evaluateCondition
      (DynamicFunctionProcessor.executeOperation E) f.setBoolProcessors p.conditionProcessor known
    ((∀ side, g.sideSetBools side = f.sideSetBools side) ∧
      g.headerProcessors (!isRequest) = f.headerProcessors (!isRequest) ∧
      g.headerProcessors isRequest =
        (f.headerProcessors isRequest).flatMap (f.specializeProcessor E isRequest known) ∧
      ∀ p, (f.Settled E isRequest p → value p = .returned (.ok, true) →
          f.specializeProcessor E isRequest known p =
            if p.endsInWord then [p.unconditional] else [p]) ∧
        (f.Settled E isRequest p → value p = .returned (.ok, false) →
          f.specializeProcessor E isRequest known p = if p.isSkipped then [] else [p]) ∧
        ((f.Settled E isRequest p → ∀ b, value p ≠ .returned (.ok, b)) →
          f.specializeProcessor E isRequest known p = [p])) ∧
    construct E g.render = .returned g ∧
    ∀ headers streamInfo,
      (∀ c ∈ f.settledCells E isRequest,
        E.observe (.start isRequest headers streamInfo) c = E.observe known c) →
      executeHeaders E (DynamicFunctionProcessor.executeOperation E) g isRequest headers
          streamInfo =
        executeHeaders E (DynamicFunctionProcessor.executeOperation E) f isRequest headers
          streamInfo := by
  have hrenderable := (renderable_of_construct hstrings hf herror).specialize isRequest known
  refine ⟨⟨(sideSetBools_specialize E f isRequest · known), ?_, ?_, fun p => ⟨?_, ?_, ?_⟩⟩,
    hrenderable.construct_eq hstrings, fun headers streamInfo hagree => ?_⟩
  · rw [headerProcessors_specialize, if_neg (by simp)]
  · rw [headerProcessors_specialize, if_pos rfl]
  · exact specializeProcessor_of_true
  · exact specializeProcessor_of_false
  · exact specializeProcessor_of_not_value
  have hwf : SideWellFormed E f isRequest := sideWellFormed_of_processLines hf
  rw [executeHeaders_of_accepted herror, executeHeaders_of_accepted hrenderable.error,
    headerProcessors_specialize, if_pos rfl, setBoolProcessors_specialize]
  -- the settled cells stay what they are in the known state
  refine run_flatMap (P := fun st => ∀ c ∈ f.settledCells E isRequest,
    E.observe st c = E.observe known c) hagree (fun p hp st status st' hst hstep c hc => ?_)
    fun p hp => ?_
  · rw [hwf.settled_of_executeOperation hheaders hmetadata hnamespaces hp hstep hc, hst c hc]
  · by_cases hsettled : f.Settled E isRequest p
    · rw [specializeProcessor_of_settled hsettled]
      intro rest st hst
      refine HeaderProcessor.specialize_expands rest st ?_
      exact evaluateCondition_eqOn hheaders hmetadata (hwf.exists_scope hp) fun c hc =>
        hst c (mem_settledCells hp hsettled hc)
    · rw [specializeProcessor_of_not_value fun h => (hsettled h).elim]
      exact .refl _ _ _ _

/-- A request of which the header is known that decides between two operations. A third operation
sets the path to the value of a header, and is kept though its condition is false. -/
theorem executeHeaders_specialize_role :
    ∃ f g, construct Reference.envoy ("http-request set-bool admin %[hdr(role)] -m str root\n" ++
          "http-request set-header a %[hdr(x)] if admin\n" ++
          "http-request set-header b 2 if not admin\n" ++
          "http-request set-path %[hdr(p)] if not admin").toList = .returned f ∧
      construct Reference.envoy ("http-request set-bool admin %[hdr(role)] -m str root\n" ++
          "http-request set-header a %[hdr(x)]\n" ++
          "http-request set-path %[hdr(p)] if not admin").toList = .returned g ∧
      executeHeaders Reference.envoy (DynamicFunctionProcessor.executeOperation Reference.envoy)
          g true [("x".toList, "1".toList), ("role".toList, "root".toList)] [] =
        executeHeaders Reference.envoy (DynamicFunctionProcessor.executeOperation Reference.envoy)
          f true [("x".toList, "1".toList), ("role".toList, "root".toList)] [] := by
  let known : StreamState (List (Str × Str)) (List (Str × List (Str × Reference.Value))) :=
    .start true [("role".toList, "root".toList)] []
  obtain ⟨f, hf, htest⟩ := Outcome.exists_of_returnsWith
    (show (construct Reference.envoy ("http-request set-bool admin %[hdr(role)] -m str root\n" ++
        "http-request set-header a %[hdr(x)] if admin\n" ++
        "http-request set-header b 2 if not admin\n" ++
        "http-request set-path %[hdr(p)] if not admin").toList).returnsWith
      (fun f => decide (f.error = false ∧
        (∀ c ∈ f.settledCells Reference.envoy true, c = .header "role".toList) ∧
        (f.specialize Reference.envoy true known).render =
          ("http-request set-bool admin %[hdr(role)] -m str root\n" ++
            "http-request set-header a %[hdr(x)]\n" ++
            "http-request set-path %[hdr(p)] if not admin").toList)) = true by
      decide +kernel)
  obtain ⟨herror, hcells, hrender⟩ := of_decide_eq_true htest
  obtain ⟨-, hconstruct, hexecute⟩ := executeHeaders_specialize Reference.stringLaws
    Reference.headerLaws Reference.metadataLaws Reference.namespaceLaws hf herror true known
  rw [hrender] at hconstruct
  refine ⟨f, _, hf, hconstruct, hexecute _ [] fun c hc => ?_⟩
  rw [hcells c hc]
  exact congrArg Content.header (by decide +kernel)

end Specialize

end HttpHeaderRewriteFilter

end HeaderRewrite
