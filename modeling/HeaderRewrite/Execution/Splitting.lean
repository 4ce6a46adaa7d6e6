import HeaderRewrite.Construction.RoundTrip
import HeaderRewrite.Execution.Dependence

/-!
# Splitting `append-header`

An `append-header` of several values does what an `append-header` of each of them does, one after
the other, as long as its key is a literal and its condition does not read the header that is
appended to. Splitting all of them makes another filter, which is constructed from its printed form
and does the same.

## Main definitions

* `HeaderProcessor.split`: one operation for each value;
* `HttpHeaderRewriteFilter.splitAppends`: the filter with all of them split.

## Main results

* `HeaderProcessor.split_expands`: the operations can be executed in the place of the one;
* `HttpHeaderRewriteFilter.construct_splitAppends`: the split filter.
-/

namespace HeaderRewrite

open Cxx Utility

variable {M I : Type}

namespace AppendHeaderProcessor

/-- The operation with other values. -/
def withVals (p : AppendHeaderProcessor) (headerVals : List DynamicFunctionProcessor) :
    AppendHeaderProcessor :=
  { p with headerVals }

/-- Whether the values can be appended one by one: the key is a literal, the condition does not read
the header, and no value that would come to the end of its line ends in white space. -/
def splittable (E : Envoy M I) (maps : SetBoolProcessorMaps) (p : AppendHeaderProcessor) : Bool :=
  p.headerKey.functionType = .static &&
    (p.conditionProcessor.toList.flatMap (ConditionProcessor.reads E maps)).all
      (fun c => c ≠ .header (E.lowerCaseString p.headerKey.functionArgument)) &&
    p.headerVals.all fun d => d.token.getLast?.all fun c => !isSpace c

end AppendHeaderProcessor

/-- One operation for each value of an `append-header` that can be split. -/
def HeaderProcessor.split (E : Envoy M I) (maps : SetBoolProcessorMaps) :
    HeaderProcessor → List HeaderProcessor
  | .appendHeader p =>
    if p.splittable E maps then p.headerVals.map fun d => .appendHeader (p.withVals [d])
    else [.appendHeader p]
  | p => [p]

/-! ## Execution -/

section Execution

variable {E : Envoy M I} {maps : SetBoolProcessorMaps} {p : AppendHeaderProcessor}
  {st : StreamState M I}

/-- The condition of an operation has the same value after a header was appended to that it does not
read. -/
theorem evaluateCondition_of_appendCopy (hheaders : E.HeaderLaws) (hmetadata : E.MetadataLaws)
    {conditionProcessor : Option ConditionProcessor}
    (hwf : ∀ c, conditionProcessor = some c → ∃ declared, c.WellFormed declared) {key value : Str}
    (hreads : ∀ c ∈ conditionProcessor.toList.flatMap (ConditionProcessor.reads E maps),
      c ≠ .header key) :
    evaluateCondition (DynamicFunctionProcessor.executeOperation E) maps conditionProcessor
        (st.withMap (E.appendCopy st.headers.map key value)) =
      evaluateCondition (DynamicFunctionProcessor.executeOperation E) maps conditionProcessor
        st := by
  refine evaluateCondition_eqOn hheaders hmetadata hwf fun c hc => ?_
  rw [Envoy.observe_appendCopy hheaders, if_neg (hreads c hc)]

/-- After a true condition the values are appended under the literal key. -/
theorem AppendHeaderProcessor.executeOperation_of_static (hkey : p.headerKey.functionType = .static)
    (h : evaluateCondition (DynamicFunctionProcessor.executeOperation E) maps
      p.conditionProcessor st = .returned (.ok, true)) :
    p.executeOperation E (DynamicFunctionProcessor.executeOperation E) maps st =
      appendValues E (DynamicFunctionProcessor.executeOperation E) p.headerKey.functionArgument
        p.headerVals st := by
  rw [HeaderProcessor.appendHeader_of_true h, DynamicFunctionProcessor.executeOperation_static hkey]
  rfl

/-- Where the condition is true, one operation for each value does what the one operation does. -/
theorem run_appendValues (hheaders : E.HeaderLaws) (hmetadata : E.MetadataLaws)
    (hwf : ∀ c, p.conditionProcessor = some c → ∃ declared, c.WellFormed declared)
    (hkey : p.headerKey.functionType = .static)
    (hreads : ∀ c ∈ p.conditionProcessor.toList.flatMap (ConditionProcessor.reads E maps),
      c ≠ .header (E.lowerCaseString p.headerKey.functionArgument))
    (hcondition : evaluateCondition (DynamicFunctionProcessor.executeOperation E) maps
      p.conditionProcessor st = .returned (.ok, true))
    (headerVals : List DynamicFunctionProcessor) (rest : List HeaderProcessor) :
    run (fun p => HeaderProcessor.executeOperation E (DynamicFunctionProcessor.executeOperation E)
        maps p) (fun status => decide (status = .ok))
        (headerVals.map (fun d => .appendHeader (p.withVals [d])) ++ rest) st =
      run (fun p => HeaderProcessor.executeOperation E (DynamicFunctionProcessor.executeOperation E)
        maps p) (fun status => decide (status = .ok))
        (.appendHeader (p.withVals headerVals) :: rest) st := by
  have hvals : ∀ {st}, evaluateCondition (DynamicFunctionProcessor.executeOperation E) maps
      p.conditionProcessor st = .returned (.ok, true) → ∀ headerVals,
      HeaderProcessor.executeOperation E (DynamicFunctionProcessor.executeOperation E) maps
          (.appendHeader (p.withVals headerVals)) st =
        AppendHeaderProcessor.appendValues E (DynamicFunctionProcessor.executeOperation E)
          p.headerKey.functionArgument headerVals st := fun h headerVals =>
    AppendHeaderProcessor.executeOperation_of_static (p := p.withVals headerVals) hkey h
  induction headerVals generalizing st with
  | nil =>
    rw [run, hvals hcondition]
    rfl
  | cons d headerVals ih =>
    rw [List.map_cons, List.cons_append, run, run, hvals hcondition, hvals hcondition,
      AppendHeaderProcessor.appendValues, AppendHeaderProcessor.appendValues]
    -- the first value decides whether there is anything more to do
    cases DynamicFunctionProcessor.executeOperation E d st.headers st.streamInfo with
    | returned result =>
      obtain ⟨status, value⟩ := result
      by_cases hstatus : status = .ok
      · have hnext : evaluateCondition (DynamicFunctionProcessor.executeOperation E) maps
            p.conditionProcessor (st.withMap (E.appendCopy st.headers.map
              (E.lowerCaseString p.headerKey.functionArgument) value)) = .returned (.ok, true) := by
          rw [evaluateCondition_of_appendCopy hheaders hmetadata hwf hreads, hcondition]
        simp only [Outcome.bind_returned, hstatus, ne_eq, not_true_eq_false, if_false,
          AppendHeaderProcessor.appendValues, Outcome.pure_eq, decide_true, if_true, ih hnext]
        rw [run, hvals hnext]
      · simp only [Outcome.bind_returned, hstatus, ne_eq, not_false_eq_true, if_true,
          Outcome.pure_eq, decide_false, Bool.false_eq_true, if_false]
    | threw e => rfl
    | undefined u => rfl

/-- The operations for the values can be executed in the place of the one for all of them. -/
theorem HeaderProcessor.split_expands (hheaders : E.HeaderLaws) (hmetadata : E.MetadataLaws)
    {p : HeaderProcessor}
    (hwf : ∀ c, p.conditionProcessor = some c → ∃ declared, c.WellFormed declared)
    (hvals : ∀ q, p = .appendHeader q → q.headerVals ≠ []) :
    Expands (fun p => executeOperation E (DynamicFunctionProcessor.executeOperation E) maps p)
      (fun status => decide (status = .ok)) (fun _ => True) p (p.split E maps) := by
  cases p with
  | setHeader p => exact .refl _ _ _ _
  | setPath p => exact .refl _ _ _ _
  | setDynamicMetadata p => exact .refl _ _ _ _
  | appendHeader p =>
    by_cases hsplit : p.splittable E maps = true
    · rw [HeaderProcessor.split, if_pos hsplit]
      simp only [AppendHeaderProcessor.splittable, Bool.and_eq_true, decide_eq_true_eq,
        List.all_eq_true] at hsplit
      obtain ⟨⟨hkey, hreads⟩, -⟩ := hsplit
      obtain ⟨d, headerVals, hcons⟩ := List.exists_cons_of_ne_nil (hvals p rfl)
      intro rest st _
      -- the condition decides, and is the same for the operation of each value
      have hcondition : ∀ d, (HeaderProcessor.appendHeader (p.withVals [d])).conditionProcessor =
          (HeaderProcessor.appendHeader p).conditionProcessor := fun _ => rfl
      rcases evaluateCondition_cases (DynamicFunctionProcessor.executeOperation E) maps
        (HeaderProcessor.appendHeader p).conditionProcessor st with
        ⟨status, value, hstatus, hst⟩ | hst | hst | ⟨u, hst⟩
      · have hfirst := hst
        rw [← hcondition d] at hfirst
        rw [hcons, List.map_cons, List.cons_append]
        simp only [run, executeOperation_of_ne_ok hst hstatus,
          executeOperation_of_ne_ok hfirst hstatus, hstatus, decide_false, Bool.false_eq_true,
          if_false]
      · have hskip : Completes (fun p => executeOperation E
            (DynamicFunctionProcessor.executeOperation E) maps p)
            (fun status => decide (status = .ok))
            (p.headerVals.map fun d => appendHeader (p.withVals [d])) st st := .skip fun q hq => by
          obtain ⟨d, -, rfl⟩ := List.mem_map.mp hq
          rw [← hcondition d] at hst
          exact ⟨.ok, executeOperation_of_false hst, rfl⟩
        rw [hskip.run_append]
        simp only [run, executeOperation_of_false hst, decide_true, if_true]
      · exact run_appendValues hheaders hmetadata hwf hkey hreads hst p.headerVals rest
      · have hfirst := hst
        rw [← hcondition d] at hfirst
        rw [hcons, List.map_cons, List.cons_append]
        simp only [run, executeOperation_of_undefined hst, executeOperation_of_undefined hfirst]
    · rw [HeaderProcessor.split, if_neg hsplit]
      exact .refl _ _ _ _

end Execution

/-! ## The split filter -/

namespace HttpHeaderRewriteFilter

/-- The filter in which every `append-header` that can be split is. -/
def splitAppends (E : Envoy M I) (f : HttpHeaderRewriteFilter) : HttpHeaderRewriteFilter :=
  { f with
    requestHeaderProcessors :=
      f.requestHeaderProcessors.flatMap (HeaderProcessor.split E f.setBoolProcessors)
    responseHeaderProcessors :=
      f.responseHeaderProcessors.flatMap (HeaderProcessor.split E f.setBoolProcessors) }

section SplitAppends

variable {E : Envoy M I} {f : HttpHeaderRewriteFilter} {isRequest : Bool}

theorem headerProcessors_splitAppends (E : Envoy M I) (f : HttpHeaderRewriteFilter)
    (isRequest : Bool) :
    (f.splitAppends E).headerProcessors isRequest =
      (f.headerProcessors isRequest).flatMap (HeaderProcessor.split E f.setBoolProcessors) := by
  cases isRequest <;> rfl

@[simp] theorem sideSetBools_splitAppends (E : Envoy M I) (f : HttpHeaderRewriteFilter)
    (isRequest : Bool) :
    (f.splitAppends E).sideSetBools isRequest = f.sideSetBools isRequest := by
  cases isRequest <;> rfl

/-- An `append-header` that was read has a value, and can be read with one of its values. -/
theorem operationLine_withVals {p : AppendHeaderProcessor} {declared : Str → Bool}
    {tokens : List Str} (h : OperationLine E declared isRequest tokens (.appendHeader p)) :
    p.headerVals ≠ [] ∧ ∀ d ∈ p.headerVals,
      OperationLine E declared isRequest
        (HeaderProcessor.lineTokens isRequest (.appendHeader (p.withVals [d])))
        (.appendHeader (p.withVals [d])) := by
  cases h with
  | appendHeader hkey hne hif hvalues hclause =>
    have hoperands := forall₂_token hvalues
    rw [List.forall₂_map_left_iff, List.forall₂_same] at hoperands
    have hnotIf := map_token_ne_if hvalues hif
    rw [List.forall_mem_map] at hnotIf
    refine ⟨fun hnil => ?_, fun d hd => ?_⟩
    · exact map_token_ne_nil hvalues hne (List.map_eq_nil_iff.mpr hnil)
    · refine .appendHeader (DynamicFunctionProcessor.parseOperation_token hkey)
        (List.cons_ne_nil d.token []) (fun value hvalue => ?_) (.cons (hoperands d hd) .nil)
        hclause.read
      obtain rfl := List.mem_singleton.mp hvalue
      exact hnotIf d hd

/-- The words of an `append-header` are words with one of its values, as long as it does not bring
white space to the end of the line. -/
theorem configWords_withVals {p : AppendHeaderProcessor}
    (h : ConfigWords (HeaderProcessor.lineTokens isRequest (.appendHeader p)))
    {d : DynamicFunctionProcessor} (hd : d ∈ p.headerVals)
    (hlast : ∀ c ∈ d.token.getLast?, isSpace c = false) :
    ConfigWords (HeaderProcessor.lineTokens isRequest (.appendHeader (p.withVals [d]))) := by
  refine ⟨fun w hw => h.word w ?_, fun w hw => ?_⟩
  · simp only [HeaderProcessor.lineTokens, AppendHeaderProcessor.withVals, List.map_cons,
      List.map_nil, List.cons_append, List.nil_append, List.mem_cons, List.mem_append,
      List.mem_map] at hw ⊢
    rcases hw with hw | hw | hw | rfl | hw
    · exact Or.inl hw
    · exact Or.inr (Or.inl hw)
    · exact Or.inr (Or.inr (Or.inl hw))
    · exact Or.inr (Or.inr (Or.inr (Or.inl ⟨d, hd, rfl⟩)))
    · exact Or.inr (Or.inr (Or.inr (Or.inr hw)))
  -- the line ends with the condition, or with the value
  · have hsplit : HeaderProcessor.lineTokens isRequest (.appendHeader (p.withVals [d])) =
        [sideKeyword isRequest, operationAppendHeader, p.headerKey.token, d.token] ++
          clauseTokens p.conditionProcessor := rfl
    have hsplit' : HeaderProcessor.lineTokens isRequest (.appendHeader p) =
        (sideKeyword isRequest :: operationAppendHeader :: p.headerKey.token ::
          p.headerVals.map DynamicFunctionProcessor.token) ++
          clauseTokens p.conditionProcessor := rfl
    rw [hsplit, List.getLast?_append] at hw
    cases hclause : (clauseTokens p.conditionProcessor).getLast? with
    | none =>
      rw [hclause] at hw
      obtain rfl : d.token = w := by simpa using hw
      exact hlast
    | some last =>
      rw [hclause, Option.some_or] at hw
      refine h.last w ?_
      rw [hsplit', List.getLast?_append, hclause, Option.some_or]
      exact hw

/-- The split filter can be printed. -/
theorem Renderable.splitAppends (h : Renderable E f) : Renderable E (f.splitAppends E) := by
  have hscope : (f.splitAppends E).scope = f.scope :=
    scope_eq_of_sideSetBools (sideSetBools_splitAppends E f)
  refine ⟨h.error, fun side => ?_, fun side b hb => ?_, fun side q hq => ?_⟩
  · rw [sideSetBools_splitAppends]
    exact h.nodup side
  · rw [sideSetBools_splitAppends] at hb
    exact h.definition side b hb
  · rw [hscope]
    rw [headerProcessors_splitAppends, List.mem_flatMap] at hq
    obtain ⟨p, hp, hq⟩ := hq
    have hline := h.operation side p hp
    cases p with
    | appendHeader p =>
      by_cases hsplit : p.splittable E f.setBoolProcessors = true
      · rw [HeaderProcessor.split, if_pos hsplit] at hq
        obtain ⟨d, hd, rfl⟩ := List.mem_map.mp hq
        simp only [AppendHeaderProcessor.splittable, Bool.and_eq_true, List.all_eq_true] at hsplit
        have hlast := hsplit.2 d hd
        refine ⟨(operationLine_withVals hline.1).2 d hd, configWords_withVals hline.2 hd ?_⟩
        simpa [Option.all_eq_true] using hlast
      · rw [HeaderProcessor.split, if_neg hsplit, List.mem_singleton] at hq
        rwa [hq]
    | setHeader p =>
      obtain rfl := List.mem_singleton.mp hq
      exact hline
    | setPath p =>
      obtain rfl := List.mem_singleton.mp hq
      exact hline
    | setDynamicMetadata p =>
      obtain rfl := List.mem_singleton.mp hq
      exact hline

/-- The filter in which every `append-header` that can be split is, is constructed from its printed
form, and does to every request and response what the filter does. -/
theorem construct_splitAppends (hstrings : E.StringLaws) (hheaders : E.HeaderLaws)
    (hmetadata : E.MetadataLaws) {config : Str}
    (hf : construct E config = .returned f) (herror : f.error = false) :
    construct E (f.splitAppends E).render = .returned (f.splitAppends E) ∧
      ∀ isRequest headers streamInfo,
        executeHeaders E (DynamicFunctionProcessor.executeOperation E) (f.splitAppends E) isRequest
            headers streamInfo =
          executeHeaders E (DynamicFunctionProcessor.executeOperation E) f isRequest headers
            streamInfo := by
  have hrenderable := renderable_of_construct hstrings hf herror
  refine ⟨hrenderable.splitAppends.construct_eq hstrings, fun isRequest headers streamInfo => ?_⟩
  have hwf : SideWellFormed E f isRequest := sideWellFormed_of_processLines hf
  rw [executeHeaders_of_accepted herror, executeHeaders_of_accepted
    hrenderable.splitAppends.error, headerProcessors_splitAppends]
  refine run_flatMap trivial (fun _ _ _ _ _ _ _ => trivial) fun p hp => ?_
  refine HeaderProcessor.split_expands hheaders hmetadata (hwf.exists_scope hp) ?_
  rintro q rfl
  exact (operationLine_withVals (hrenderable.operation isRequest _ hp).1).1

/-- Two values, the second of which is the header that the first was appended to. -/
theorem construct_splitAppends_two :
    ∃ f g, construct Reference.envoy
          "http-request append-header k v %[hdr(k)]".toList = .returned f ∧
      construct Reference.envoy ("http-request append-header k v\n" ++
          "http-request append-header k %[hdr(k)]").toList = .returned g ∧
      executeHeaders Reference.envoy (DynamicFunctionProcessor.executeOperation Reference.envoy)
          g true [("k".toList, "1".toList)] [] =
        executeHeaders Reference.envoy (DynamicFunctionProcessor.executeOperation Reference.envoy)
          f true [("k".toList, "1".toList)] [] := by
  obtain ⟨f, hf, htest⟩ := Outcome.exists_of_returnsWith
    (show (construct Reference.envoy "http-request append-header k v %[hdr(k)]".toList).returnsWith
      (fun f => decide (f.error = false ∧ (f.splitAppends Reference.envoy).render =
        ("http-request append-header k v\n" ++
          "http-request append-header k %[hdr(k)]").toList)) = true by
      decide +kernel)
  obtain ⟨herror, hrender⟩ := of_decide_eq_true htest
  obtain ⟨hconstruct, hexecute⟩ := construct_splitAppends Reference.stringLaws
    Reference.headerLaws Reference.metadataLaws hf herror
  rw [hrender] at hconstruct
  exact ⟨f, _, hf, hconstruct, hexecute true [("k".toList, "1".toList)] []⟩

end SplitAppends

end HttpHeaderRewriteFilter

end HeaderRewrite
