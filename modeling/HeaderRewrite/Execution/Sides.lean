import HeaderRewrite.Execution.Operation

/-!
# The two sides of a filter

Requests and responses are handled by separate operations and separate boolean variables. What an
operation does is determined by the evaluation of its operands and of the variables its condition
refers to, so what a side does depends on the lines of that side only, and on the definitions of the
variables that these refer to.

## Main definitions

* `HttpHeaderRewriteFilter.RequestOnly`: `set-path` and `urlp` do not occur on the response side.

## Main results

* `HeaderProcessor.executeOperation_congr`: what an operation depends on;
* `HttpHeaderRewriteFilter.response_requestOnly`: responses do not use request-only features;
* `HttpHeaderRewriteFilter.executeHeaders_determined`: a side depends on its lines only.
-/

namespace HeaderRewrite

open Cxx Utility

variable {M I : Type}

/-! ## What an operation depends on -/

section Congruence

variable {E : Envoy M I} {eval eval' : Evaluator M I} {maps maps' : SetBoolProcessorMaps}

/-- A variable depends on the evaluation of its operands. -/
theorem SetBoolProcessor.executeOperation_congr {p : SetBoolProcessor}
    {headers : RequestOrResponseHeaderMap M} {streamInfo : Option I}
    (h : ∀ d ∈ p.operands, eval d headers streamInfo = eval' d headers streamInfo)
    (negate : Bool) :
    p.executeOperation eval headers streamInfo negate =
      p.executeOperation eval' headers streamInfo negate := by
  have hsource := h p.sourceProcessor (by simp [operands])
  have hstring := h p.stringToCompareFunctionProcessor (by simp [operands])
  simp only [executeOperation, hsource, hstring]

/-- A condition depends on the variables it refers to. -/
theorem ConditionProcessor.executeOperation_congr {declared : Str → Bool}
    {c : ConditionProcessor} (hwf : c.WellFormed declared)
    {headers : RequestOrResponseHeaderMap M} {streamInfo : Option I}
    (h : ∀ d ∈ c.operands,
      executeOperand eval (maps c.boolProcessors) headers streamInfo d =
        executeOperand eval' (maps' c.boolProcessors) headers streamInfo d) :
    c.executeOperation eval maps headers streamInfo =
      c.executeOperation eval' maps' headers streamInfo := by
  rw [executeOperation_eq hwf, executeOperation_eq hwf]
  refine evalClauses_congr fun d hd => h d ?_
  rwa [flatten_clauses hwf] at hd

theorem evaluateCondition_congr {conditionProcessor : Option ConditionProcessor}
    {st : StreamState M I}
    (h : ∀ c, conditionProcessor = some c →
      c.executeOperation eval maps st.headers st.streamInfo =
        c.executeOperation eval' maps' st.headers st.streamInfo) :
    evaluateCondition eval maps conditionProcessor st =
      evaluateCondition eval' maps' conditionProcessor st := by
  cases conditionProcessor with
  | none => rfl
  | some c => simp only [evaluateCondition, h c rfl]

/-- The values appended depend on the evaluation of their operands. -/
theorem AppendHeaderProcessor.appendValues_congr {headerVals : List DynamicFunctionProcessor}
    (h : ∀ d ∈ headerVals, ∀ headers streamInfo,
      eval d headers streamInfo = eval' d headers streamInfo)
    (key : Str) (st : StreamState M I) :
    appendValues E eval key headerVals st = appendValues E eval' key headerVals st := by
  induction headerVals generalizing st with
  | nil => rfl
  | cons d headerVals ih =>
    have hrest := ih fun d' hd' => h d' (List.mem_cons_of_mem _ hd')
    simp only [appendValues, h d List.mem_cons_self, hrest]

/-- An operation depends on the evaluation of its operands and of its condition. -/
theorem HeaderProcessor.executeOperation_congr {p : HeaderProcessor}
    (hoperand : ∀ d ∈ p.operands, ∀ headers streamInfo,
      eval d headers streamInfo = eval' d headers streamInfo)
    (hcondition : ∀ c, p.conditionProcessor = some c → ∀ headers streamInfo,
      c.executeOperation eval maps headers streamInfo =
        c.executeOperation eval' maps' headers streamInfo)
    (st : StreamState M I) :
    p.executeOperation E eval maps st = p.executeOperation E eval' maps' st := by
  -- the condition is evaluated in the same state by both
  have hguard : evaluateCondition eval maps p.conditionProcessor st =
      evaluateCondition eval' maps' p.conditionProcessor st :=
    evaluateCondition_congr fun c hc => hcondition c hc st.headers st.streamInfo
  cases p with
  | setHeader p =>
    have hkey := hoperand p.headerKey (by simp [operands])
    have hval := hoperand p.headerVal (by simp [operands])
    simp only [conditionProcessor] at hguard
    simp only [executeOperation, SetHeaderProcessor.executeOperation, hguard, hkey, hval]
  | appendHeader p =>
    have hkey := hoperand p.headerKey (by simp [operands])
    -- later values are evaluated in states that the earlier ones leave, so all states are needed
    have hvals : ∀ key st, AppendHeaderProcessor.appendValues E eval key p.headerVals st =
        AppendHeaderProcessor.appendValues E eval' key p.headerVals st :=
      AppendHeaderProcessor.appendValues_congr fun d hd => hoperand d (by simp [operands, hd])
    simp only [conditionProcessor] at hguard
    simp only [executeOperation, AppendHeaderProcessor.executeOperation, hguard, hkey, hvals]
  | setPath p =>
    have hpath := hoperand p.requestPath (by simp [operands])
    simp only [conditionProcessor] at hguard
    simp only [executeOperation, SetPathProcessor.executeOperation, hguard, hpath]
  | setDynamicMetadata p =>
    have hkey := hoperand p.metadataKey (by simp [operands])
    have hvalue := hoperand p.metadataValue (by simp [operands])
    simp only [conditionProcessor] at hguard
    simp only [executeOperation, SetDynamicMetadataProcessor.executeOperation, hguard, hkey,
      hvalue]

end Congruence

namespace HttpHeaderRewriteFilter

variable {E : Envoy M I} {f : HttpHeaderRewriteFilter}

/-! ## Request-only features -/

/-- Request-only features do not occur on the response side: no `set-path`, and no `urlp` in an
operation, in a variable, or in a variable that a condition looks up. -/
structure RequestOnly (f : HttpHeaderRewriteFilter) : Prop where
  /-- No operation on responses sets the path. -/
  setPath : ∀ p ∈ f.responseHeaderProcessors, ∀ q, p ≠ .setPath q
  /-- No operand of an operation on responses calls `urlp`. -/
  operand : ∀ p ∈ f.responseHeaderProcessors, ∀ d ∈ p.operands, d.functionType ≠ .urlp
  /-- No variable of the response side calls `urlp`. -/
  variableOperand : ∀ b ∈ f.responseSetBoolProcessors, ∀ d ∈ b.2.operands, d.functionType ≠ .urlp
  /-- No variable that a condition on the response side looks up calls `urlp`. -/
  condition : ∀ p ∈ f.responseHeaderProcessors, ∀ c, p.conditionProcessor = some c →
    ∀ d ∈ c.operands, ∀ q, (f.setBoolProcessors c.boolProcessors).at d.1 = .returned q →
      ∀ o ∈ q.operands, o.functionType ≠ .urlp

/-- Operands of the response side do not call `urlp`. -/
theorem functionType_ne_urlp {d : DynamicFunctionProcessor}
    (h : d.WellFormed E ∧ d.toProcessor = .ofSide false) : d.functionType ≠ .urlp := by
  obtain ⟨hwf, hside⟩ := h
  intro htype
  simp only [DynamicFunctionProcessor.WellFormed, htype] at hwf
  have hrequest : d.isRequest = false := congrArg Processor.isRequest hside
  rw [hrequest] at hwf
  -- the parser accepts `urlp` on the request side only
  cases hwf.2

/-- A response side that is well formed has no request-only features. -/
theorem SideWellFormed.requestOnly (h : SideWellFormed E f false) : RequestOnly f := by
  refine ⟨fun p hp q hq => ?_, fun p hp d hd => functionType_ne_urlp (h.operand p hp d hd),
    fun b hb d hd => functionType_ne_urlp (h.variableOperand b hb d hd),
    fun p hp c hc d hd q hq o ho => ?_⟩
  · cases h.setPath p hp q hq
  · obtain ⟨q', hq', hoperand⟩ := h.exists_variable hp hc hd
    rw [SetBoolProcessorMap.at, hq'] at hq
    obtain rfl := Outcome.returned.inj hq
    exact functionType_ne_urlp (hoperand o ho)

/-- Executing a side depends on the evaluation of its operands and conditions. -/
theorem executeHeaders_congr {g : HttpHeaderRewriteFilter} {eval eval' : Evaluator M I}
    {isRequest : Bool} (herror : f.error = g.error)
    (hprocessors : f.headerProcessors isRequest = g.headerProcessors isRequest)
    (hoperand : ∀ p ∈ f.headerProcessors isRequest, ∀ d ∈ p.operands, ∀ headers streamInfo,
      eval d headers streamInfo = eval' d headers streamInfo)
    (hcondition : ∀ p ∈ f.headerProcessors isRequest, ∀ c, p.conditionProcessor = some c →
      ∀ headers streamInfo, c.executeOperation eval f.setBoolProcessors headers streamInfo =
        c.executeOperation eval' g.setBoolProcessors headers streamInfo)
    (headers : M) (streamInfo : I) :
    executeHeaders E eval f isRequest headers streamInfo =
      executeHeaders E eval' g isRequest headers streamInfo := by
  -- each operation of the side depends on no more than that
  have hrun : ∀ st, executeProcessors E eval f isRequest st =
      executeProcessors E eval' g isRequest st := by
    intro st
    rw [executeProcessors, executeProcessors, ← hprocessors]
    exact run_congr (fun p hp st =>
      HeaderProcessor.executeOperation_congr (hoperand p hp) (hcondition p hp) st) st
  simp only [executeHeaders, herror, hrun]

/-- After every line that the constructor processes, request-only features do not occur on the
response side. So the response headers are never cast to request headers, and what is done to a
response does not depend on what `urlp` evaluates to. -/
theorem response_requestOnly (E : Envoy M I) (config : Str) :
    (∀ before after f, configLines E config = before ++ after →
      processLines E init before = .returned f → RequestOnly f) ∧
    ∀ f, construct E config = .returned f → ∀ headers streamInfo,
      encodeHeaders E f headers streamInfo ≠ .undefined .badCast ∧
      ∀ eval : Evaluator M I, (∀ d headers streamInfo, d.functionType ≠ .urlp →
          eval d headers streamInfo =
            DynamicFunctionProcessor.executeOperation E d headers streamInfo) →
        executeHeaders E eval f false headers streamInfo =
          encodeHeaders E f headers streamInfo := by
  refine ⟨fun before after f _ hf => (sideWellFormed_of_processLines hf).requestOnly, ?_⟩
  intro f hf headers streamInfo
  have hwf : SideWellFormed E f false := sideWellFormed_of_processLines hf
  refine ⟨?_, fun eval heval => ?_⟩
  -- a bad cast would come from a step of the run, and there from its condition, an operand or
  -- `set-path`
  · intro hcast
    simp only [encodeHeaders, executeHeaders] at hcast
    split at hcast
    · cases hcast
    obtain ⟨⟨p, st⟩, hattempt, hcast⟩ := (run_eq_undefined_iff _ _ _).mp hcast
    have hp : p ∈ f.headerProcessors false := mem_of_mem_attempts hattempt
    rcases HeaderProcessor.undefined_cases hcast with
      hcondition | ⟨d, st', hd, hu⟩ | ⟨-, -, q, hq⟩
    · obtain ⟨d, q, -, hoperand, hu⟩ := reachesVariable_of_undefined hwf hp hcondition
      -- a variable can only dereference a null `Path()` or read too far
      rcases SetBoolProcessor.executeOperation_undefined (fun o ho => (hoperand o ho).1) hu with
        ⟨hu, -⟩ | ⟨hu, -⟩ <;> cases hu
    · cases (DynamicFunctionProcessor.executeOperation_undefined (hwf.operand p hp d hd.mem).1 hu).1
    · cases hwf.setPath p hp q hq
  · refine executeHeaders_congr rfl rfl (fun p hp d hd headers streamInfo =>
      heval d headers streamInfo (functionType_ne_urlp (hwf.operand p hp d hd))) ?_ headers
      streamInfo
    -- the variables that the condition looks up are of the response side as well
    intro p hp c hc headers streamInfo
    refine ConditionProcessor.executeOperation_congr (hwf.condition p hp c hc).2 fun d hd => ?_
    obtain ⟨q, hq, hoperand⟩ := hwf.exists_variable hp hc hd
    rw [ConditionProcessor.executeOperand_of_lookup hq,
      ConditionProcessor.executeOperand_of_lookup hq]
    exact SetBoolProcessor.executeOperation_congr (fun o ho =>
      heval o headers streamInfo (functionType_ne_urlp (hoperand o ho))) d.2

/-! ## Lines and definitions -/

/-- Lines of a side that are the same stand for the same operations. -/
theorem headerProcessors_unique {declared declared' : Str → Bool} {isRequest : Bool}
    {lines : List (List Str)} {processors processors' : List HeaderProcessor}
    (h : List.Forall₂ (OperationLine E declared isRequest) lines processors)
    (h' : List.Forall₂ (OperationLine E declared' isRequest) lines processors') :
    processors = processors' := by
  induction h generalizing processors' with
  | nil =>
    cases h'
    rfl
  | cons hline _ ih =>
    obtain _ | ⟨hline', hrest'⟩ := h'
    rw [hline.unique hline', ih hrest']

/-- A variable is the one that its only definition stands for. -/
theorem lookup_eq_of_filter {g : HttpHeaderRewriteFilter} {lines lines' : List (List Str)}
    {isRequest : Bool} {name : Str} (hf : Constructs E init lines f)
    (hg : Constructs E init lines' g)
    (hdefinition : lines.filter (isDefinitionOf isRequest name) =
      lines'.filter (isDefinitionOf isRequest name)) {q q' : SetBoolProcessor}
    (hq : (f.sideSetBools isRequest).lookup name = some q)
    (hq' : (g.sideSetBools isRequest).lookup name = some q') : q = q' := by
  -- the filter starts without variables, so that each has a line
  have hnew : (init.sideSetBools isRequest).lookup name = none := by
    cases isRequest <;> rfl
  obtain ⟨tokens, htokens, hline⟩ := hf.filter_isDefinitionOf hnew hq
  obtain ⟨tokens', htokens', hline'⟩ := hg.filter_isDefinitionOf hnew hq'
  rw [htokens, htokens'] at hdefinition
  obtain rfl := List.singleton_inj.mp hdefinition
  exact (hline.unique hline').2.2

/-- What a side does is determined by its lines other than definitions, and by the definitions of
the variables that their conditions refer to: not by where these stand, nor by other definitions,
nor by the lines of the other side. -/
theorem executeHeaders_determined {config config' : Str} {f f' : HttpHeaderRewriteFilter}
    {isRequest : Bool} (hf : construct E config = .returned f) (herror : f.error = false)
    (hf' : construct E config' = .returned f') (herror' : f'.error = false)
    (hlines : (configLines E config).filter (isOperationLine isRequest) =
      (configLines E config').filter (isOperationLine isRequest))
    (hdefinitions : ∀ p ∈ f.headerProcessors isRequest, ∀ c, p.conditionProcessor = some c →
      ∀ d ∈ c.operands,
        (configLines E config).filter (isDefinitionOf isRequest d.1) =
          (configLines E config').filter (isDefinitionOf isRequest d.1)) :
    (isRequest = true → ∀ headers streamInfo,
      decodeHeaders E f headers streamInfo = decodeHeaders E f' headers streamInfo) ∧
    (isRequest = false → ∀ headers streamInfo,
      encodeHeaders E f headers streamInfo = encodeHeaders E f' headers streamInfo) := by
  have hconstructs := accepted_iff_constructs.mp ⟨hf, herror⟩
  have hconstructs' := accepted_iff_constructs.mp ⟨hf', herror'⟩
  have hwf : SideWellFormed E f isRequest := sideWellFormed_of_processLines hf
  have hwf' : SideWellFormed E f' isRequest := sideWellFormed_of_processLines hf'
  have hinit : init.headerProcessors isRequest = [] := by
    cases isRequest <;> rfl
  -- the operations are those of the same lines in the same order
  have hprocessors : f.headerProcessors isRequest = f'.headerProcessors isRequest := by
    obtain ⟨processors, heq, hforall⟩ := hconstructs.headerProcessors_eq isRequest
    obtain ⟨processors', heq', hforall'⟩ := hconstructs'.headerProcessors_eq isRequest
    rw [hlines] at hforall
    rw [heq, heq', hinit, headerProcessors_unique hforall hforall']
  -- the conditions refer to variables with the same definitions
  have hcondition : ∀ p ∈ f.headerProcessors isRequest, ∀ c, p.conditionProcessor = some c →
      ∀ headers streamInfo,
        c.executeOperation (DynamicFunctionProcessor.executeOperation E) f.setBoolProcessors
            headers streamInfo =
          c.executeOperation (DynamicFunctionProcessor.executeOperation E) f'.setBoolProcessors
            headers streamInfo := by
    intro p hp c hc headers streamInfo
    obtain ⟨hprocessor, hcwf⟩ := hwf.condition p hp c hc
    refine ConditionProcessor.executeOperation_congr hcwf fun d hd => ?_
    obtain ⟨q, hq, -⟩ := hwf.exists_variable hp hc hd
    obtain ⟨q', hq', -⟩ := hwf'.exists_variable (hprocessors ▸ hp) hc hd
    rw [ConditionProcessor.executeOperand_of_lookup hq,
      ConditionProcessor.executeOperand_of_lookup hq']
    have hpointer : c.boolProcessors = (Processor.ofSide isRequest).boolProcessors :=
      congrArg Processor.boolProcessors hprocessor
    rw [hpointer] at hq hq'
    rw [lookup_eq_of_filter hconstructs hconstructs' (hdefinitions p hp c hc d hd) hq hq']
  have hexecute := executeHeaders_congr (E := E) (herror.trans herror'.symm) hprocessors
    (fun _ _ _ _ _ _ => rfl) hcondition
  constructor
  · rintro rfl headers streamInfo
    exact hexecute headers streamInfo
  · rintro rfl headers streamInfo
    exact hexecute headers streamInfo

/-- Two configurations with the same request line and the same definition of its variable, among
other lines. -/
theorem executeHeaders_determined_interleaved :
    ∃ f f', construct Reference.envoy ("http-request set-bool b x -m found\n" ++
          "http-request set-header k v if b").toList = .returned f ∧
      construct Reference.envoy ("http-response set-bool b y -m found\n" ++
          "http-request set-bool a z -m found\nhttp-request set-bool b x -m found\n" ++
          "http-response set-header r s if b\nhttp-request set-header k v if b").toList =
        .returned f' ∧
      ∀ headers streamInfo, decodeHeaders Reference.envoy f headers streamInfo =
        decodeHeaders Reference.envoy f' headers streamInfo := by
  let side := Processor.ofSide true
  let c : ConditionProcessor := ⟨side, [], [("b".toList, false)]⟩
  let p : HeaderProcessor :=
    .setHeader ⟨side, ⟨side, .static, "k".toList⟩, ⟨side, .static, "v".toList⟩, some c⟩
  obtain ⟨f, hf, htest⟩ := Outcome.exists_of_returnsWith
    (show (construct Reference.envoy ("http-request set-bool b x -m found\n" ++
        "http-request set-header k v if b").toList).returnsWith
      (fun f => decide (f.error = false ∧ f.headerProcessors true = [p])) = true by
      decide +kernel)
  obtain ⟨herror, hprocessors⟩ := of_decide_eq_true htest
  obtain ⟨f', hf', htest'⟩ := Outcome.exists_of_returnsWith
    (show (construct Reference.envoy ("http-response set-bool b y -m found\n" ++
        "http-request set-bool a z -m found\nhttp-request set-bool b x -m found\n" ++
        "http-response set-header r s if b\nhttp-request set-header k v if b").toList).returnsWith
      (fun f' => decide (f'.error = false)) = true by
      decide +kernel)
  have herror' := of_decide_eq_true htest'
  refine ⟨f, f', hf, hf', (executeHeaders_determined hf herror hf' herror' (by decide +kernel)
    fun p' hp' c' hc' d hd => ?_).1 rfl⟩
  rw [hprocessors, List.mem_singleton] at hp'
  subst hp'
  obtain rfl : c = c' := Option.some.inj hc'
  obtain rfl : d = ("b".toList, false) := List.mem_singleton.mp hd
  decide +kernel

end HttpHeaderRewriteFilter

end HeaderRewrite
