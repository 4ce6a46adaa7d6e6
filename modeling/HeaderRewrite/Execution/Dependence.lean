import HeaderRewrite.Execution.Footprint
import HeaderRewrite.Execution.Names
import HeaderRewrite.Execution.Sides

/-!
# What a side of the filter depends on and changes

The footprints of its operations make that of a side of the filter. From them follows, for whole
runs on any request or response, what cannot make a difference to the run, what the run leaves
alone, which operations may change places, and when a second run would change nothing.

## Main definitions

* `HttpHeaderRewriteFilter.reads`, `HttpHeaderRewriteFilter.changes`: the footprint of a side;
* `HeaderProcessor.independent`: two operations whose order does not matter;
* `HttpHeaderRewriteFilter.repeatable`: a side that can be run again.

## Main results

* `HttpHeaderRewriteFilter.executeHeaders_noninterference`: cells that are not read;
* `HttpHeaderRewriteFilter.executeHeaders_frame`: cells that are not changed;
* `HttpHeaderRewriteFilter.executeHeaders_reorder`: independent operations change places;
* `HttpHeaderRewriteFilter.executeHeaders_repeat`: a second run.
-/

namespace HeaderRewrite

open Cxx Utility

variable {M I : Type}

namespace HttpHeaderRewriteFilter

/-! ## The footprint of a side -/

/-- The cells that the operations of a side read. -/
def reads (E : Envoy M I) (f : HttpHeaderRewriteFilter) (isRequest : Bool) : List Cell :=
  (f.headerProcessors isRequest).flatMap (HeaderProcessor.reads E f.setBoolProcessors)

/-- Whether an operation of a side may change a cell. -/
def mayChange (E : Envoy M I) (f : HttpHeaderRewriteFilter) (isRequest : Bool) (c : Cell) : Bool :=
  (f.headerProcessors isRequest).any fun p => (p.target E).covers c

/-- The changes that the operations of a side make to a cell. -/
def changes (E : Envoy M I) (f : HttpHeaderRewriteFilter) (isRequest : Bool) (c : Cell) :
    Submonoid (Function.End (Content E)) :=
  if f.mayChange E isRequest c then
    if (f.headerProcessors isRequest).all HeaderProcessor.overwrites then rewrites E else ⊤
  else ⊥

section Runs

variable {E : Envoy M I} {f g : HttpHeaderRewriteFilter} {isRequest : Bool}
  {config config' : Str} {headers headers' : M} {streamInfo streamInfo' : I}
  {st : StreamState M I}

/-- A well-formed condition, of whatever scope. -/
theorem SideWellFormed.exists_scope (h : SideWellFormed E f isRequest) {p : HeaderProcessor}
    (hp : p ∈ f.headerProcessors isRequest) (c : ConditionProcessor)
    (hc : p.conditionProcessor = some c) : ∃ declared, c.WellFormed declared :=
  ⟨_, (h.condition p hp c hc).2⟩

theorem changes_le {p : HeaderProcessor} (hp : p ∈ f.headerProcessors isRequest) (c : Cell) :
    p.changes E c ≤ f.changes E isRequest c := by
  intro u hu
  unfold HeaderProcessor.changes at hu
  unfold changes
  split at hu
  · next hcovers =>
    have hmay : f.mayChange E isRequest c = true := List.any_eq_true.mpr ⟨p, hp, hcovers⟩
    rw [if_pos hmay]
    split
    · next hall =>
      rw [if_pos (List.all_eq_true.mp hall p hp)] at hu
      exact hu
    · exact Submonoid.mem_top u
  · rw [Submonoid.mem_bot.mp hu]
    exact Submonoid.one_mem _

/-- The operations of a side have the footprint of the side. -/
theorem SideWellFormed.hasFootprint (h : SideWellFormed E f isRequest) (hheaders : E.HeaderLaws)
    (hmetadata : E.MetadataLaws) (hnamespaces : E.NamespaceLaws) :
    ∀ p ∈ f.headerProcessors isRequest,
      HasFootprint E.observe ⟨{c | c ∈ f.reads E isRequest}, f.changes E isRequest⟩
        (p.executeOperation E (DynamicFunctionProcessor.executeOperation E) f.setBoolProcessors) :=
  fun p hp => (HeaderProcessor.hasFootprint hheaders hmetadata hnamespaces (h.exists_scope hp)).mono
    (fun _ hc => List.mem_flatMap.mpr ⟨p, hp, hc⟩) (changes_le hp)

/-- Runs from two states that agree on the cells that the side reads make the same changes. -/
theorem SideWellFormed.executeHeaders_sameChange (hwf : SideWellFormed E f isRequest)
    (hheaders : E.HeaderLaws) (hmetadata : E.MetadataLaws) (hnamespaces : E.NamespaceLaws)
    (hagree : ∀ c ∈ f.reads E isRequest,
      E.observe (.start isRequest headers streamInfo) c =
        E.observe (.start isRequest headers' streamInfo') c) :
    Outcome.Rel (SameChange E.observe (f.changes E isRequest) (.start isRequest headers streamInfo)
        (.start isRequest headers' streamInfo'))
      (executeHeaders E (DynamicFunctionProcessor.executeOperation E) f isRequest headers
        streamInfo)
      (executeHeaders E (DynamicFunctionProcessor.executeOperation E) f isRequest headers'
        streamInfo') := by
  unfold executeHeaders
  dsimp only
  split
  · exact .returned (.refl E.observe _ _ _)
  · exact run_footprint (hwf.hasFootprint hheaders hmetadata hnamespaces) hagree

/-- A run leaves the cells alone that no operation of the side has as its target. -/
theorem SideWellFormed.observe_eq_of_not_mayChange (hwf : SideWellFormed E f isRequest)
    (hheaders : E.HeaderLaws) (hmetadata : E.MetadataLaws) (hnamespaces : E.NamespaceLaws)
    (hrun : executeHeaders E (DynamicFunctionProcessor.executeOperation E) f isRequest headers
      streamInfo = .returned st) {c : Cell} (hc : f.mayChange E isRequest c = false) :
    E.observe st c = E.observe (.start isRequest headers streamInfo) c := by
  have hrel := hwf.executeHeaders_sameChange hheaders hmetadata hnamespaces
    fun c _ => Eq.refl (E.observe (.start isRequest headers streamInfo) c)
  rw [hrun] at hrel
  obtain ⟨_, -, hchange⟩ := hrel.exists_of_returned
  exact hchange.frame (by simp [changes, hc])

/-- Runs on two requests, or on two responses, that agree on the cells that the side reads end in
the same way. Whatever else they agree on, they agree on it in the end. -/
theorem executeHeaders_noninterference (hheaders : E.HeaderLaws) (hmetadata : E.MetadataLaws)
    (hnamespaces : E.NamespaceLaws) (hf : construct E config = .returned f)
    (hagree : ∀ c ∈ f.reads E isRequest,
      E.observe (.start isRequest headers streamInfo) c =
        E.observe (.start isRequest headers' streamInfo') c) :
    Outcome.Rel (fun st st' => ∀ c,
        E.observe (.start isRequest headers streamInfo) c =
          E.observe (.start isRequest headers' streamInfo') c →
        E.observe st c = E.observe st' c)
      (executeHeaders E (DynamicFunctionProcessor.executeOperation E) f isRequest headers
        streamInfo)
      (executeHeaders E (DynamicFunctionProcessor.executeOperation E) f isRequest headers'
        streamInfo') := by
  have hwf : SideWellFormed E f isRequest := sideWellFormed_of_processLines hf
  exact (hwf.executeHeaders_sameChange hheaders hmetadata hnamespaces hagree).mono
    fun st st' hchange c hc => hchange.eq_of_eq hc

/-- Two requests that differ in a header that the operation and its variable do not read. -/
theorem executeHeaders_noninterference_other :
    ∃ f, construct Reference.envoy ("http-request set-bool b %[hdr(x)] -m found\n" ++
          "http-request set-header k %[hdr(v)] if b").toList = .returned f ∧
      Outcome.Rel (fun st st' => ∀ c,
          Reference.envoy.observe (.start true [("x".toList, "1".toList)] []) c =
            Reference.envoy.observe
              (.start true [("x".toList, "1".toList), ("o".toList, "2".toList)] []) c →
          Reference.envoy.observe st c = Reference.envoy.observe st' c)
        (executeHeaders Reference.envoy (DynamicFunctionProcessor.executeOperation Reference.envoy)
          f true [("x".toList, "1".toList)] [])
        (executeHeaders Reference.envoy (DynamicFunctionProcessor.executeOperation Reference.envoy)
          f true [("x".toList, "1".toList), ("o".toList, "2".toList)] []) := by
  obtain ⟨f, hf, htest⟩ := Outcome.exists_of_returnsWith
    (show (construct Reference.envoy ("http-request set-bool b %[hdr(x)] -m found\n" ++
        "http-request set-header k %[hdr(v)] if b").toList).returnsWith
      (fun f => decide (f.reads Reference.envoy true =
        [.stream, .header "x".toList, .header "v".toList])) = true by
      decide +kernel)
  refine ⟨f, hf, executeHeaders_noninterference Reference.headerLaws Reference.metadataLaws
    Reference.namespaceLaws hf fun c hc => ?_⟩
  rw [of_decide_eq_true htest] at hc
  rcases List.mem_cons.mp hc with rfl | hc
  · rfl
  rcases List.mem_cons.mp hc with rfl | hc
  · exact congrArg Content.header (by decide +kernel)
  obtain rfl := List.mem_singleton.mp hc
  exact congrArg Content.header (by decide +kernel)

/-- A run leaves all cells alone that no operation of the side has as its target. The metadata of
other filters is never changed, and no header name is ever removed. -/
theorem executeHeaders_frame (hheaders : E.HeaderLaws) (hmetadata : E.MetadataLaws)
    (hnamespaces : E.NamespaceLaws) (hf : construct E config = .returned f)
    (hrun : executeHeaders E (DynamicFunctionProcessor.executeOperation E) f isRequest headers
      streamInfo = .returned st) :
    (∀ c, f.mayChange E isRequest c = false →
      E.observe st c = E.observe (.start isRequest headers streamInfo) c) ∧
    (∀ filter key, filter ≠ headerRewriteFilterName →
      E.observe st (.field filter key) =
        E.observe (.start isRequest headers streamInfo) (.field filter key)) ∧
    ∀ name, E.get headers name ≠ [] → E.get st.headers.map name ≠ [] := by
  have hwf : SideWellFormed E f isRequest := sideWellFormed_of_processLines hf
  have hframe : ∀ c, f.mayChange E isRequest c = false →
      E.observe st c = E.observe (.start isRequest headers streamInfo) c := fun c hc =>
    hwf.observe_eq_of_not_mayChange hheaders hmetadata hnamespaces hrun hc
  refine ⟨hframe, fun filter key hfilter => hframe _ ?_, fun name hname => ?_⟩
  · rw [mayChange, List.any_eq_false]
    intro p _
    rw [Target.not_covers_field _ hfilter]
    exact Bool.false_ne_true
  · cases herror : f.error with
    | true =>
      obtain rfl : .start isRequest headers streamInfo = st := by
        simpa only [executeHeaders, herror, if_true, Outcome.returned.injEq] using hrun
      exact hname
    | false => exact (executeHeaders_hasName_iff hheaders herror hrun name).mpr (Or.inl hname)

/-- A header that no operation has as its target. -/
theorem executeHeaders_frame_other :
    ∃ f st, construct Reference.envoy "http-request set-header k v".toList = .returned f ∧
      executeHeaders Reference.envoy (DynamicFunctionProcessor.executeOperation Reference.envoy)
        f true [("o".toList, "2".toList)] [] = .returned st ∧
      Reference.envoy.observe st (.header "o".toList) =
        Reference.envoy.observe (.start true [("o".toList, "2".toList)] [])
          (.header "o".toList) := by
  obtain ⟨f, hf, htest⟩ := Outcome.exists_of_returnsWith
    (show (construct Reference.envoy "http-request set-header k v".toList).returnsWith
      (fun f => decide (f.mayChange Reference.envoy true (.header "o".toList) = false) &&
        (executeHeaders Reference.envoy
          (DynamicFunctionProcessor.executeOperation Reference.envoy) f true
          [("o".toList, "2".toList)] []).returnsWith fun _ => true) = true by
      decide +kernel)
  simp only [Bool.and_eq_true, decide_eq_true_eq] at htest
  obtain ⟨st, hst, -⟩ := Outcome.exists_of_returnsWith htest.2
  exact ⟨f, st, hf, hst, (executeHeaders_frame Reference.headerLaws Reference.metadataLaws
    Reference.namespaceLaws hf hst).1 _ htest.1⟩

end Runs

end HttpHeaderRewriteFilter

/-! ## Operations that change places -/

/-- Neither operation changes what the other reads or changes. -/
def HeaderProcessor.independent (E : Envoy M I) (maps : SetBoolProcessorMaps)
    (p q : HeaderProcessor) : Bool :=
  (q.reads E maps).all (fun c => !(p.target E).covers c) &&
    (p.reads E maps).all (fun c => !(q.target E).covers c) &&
      !(p.target E).overlaps (q.target E)

theorem HeaderProcessor.independent_footprint {E : Envoy M I} {maps : SetBoolProcessorMaps}
    {p q : HeaderProcessor} (h : p.independent E maps q = true) :
    Independent (p.footprint E maps) (q.footprint E maps) := by
  simp only [independent, Bool.and_eq_true, List.all_eq_true, Bool.not_eq_true'] at h
  obtain ⟨⟨hleft, hright⟩, htargets⟩ := h
  refine ⟨fun c hc => changes_eq_bot (hleft c hc), fun c hc => changes_eq_bot (hright c hc),
    fun c u hu v hv => ?_⟩
  -- a cell belongs to one of the targets at most, so that one of the changes is none
  by_cases hcovers : (p.target E).covers c = true
  · have hnone := changes_eq_bot (Target.not_covers_of_not_overlaps htargets hcovers)
    have hone : v ∈ (⊥ : Submonoid (Function.End (Content E))) := hnone ▸ hv
    rw [Submonoid.mem_bot.mp hone]
    exact Commute.one_right u
  · have hnone := changes_eq_bot (Bool.eq_false_iff.mpr hcovers)
    have hone : u ∈ (⊥ : Submonoid (Function.End (Content E))) := hnone ▸ hu
    rw [Submonoid.mem_bot.mp hone]
    exact Commute.one_left v

namespace HttpHeaderRewriteFilter

/-- The run on a side goes through all operations, each of them returning OK. -/
def RunsThrough (E : Envoy M I) (f : HttpHeaderRewriteFilter) (isRequest : Bool) (headers : M)
    (streamInfo : I) (st : StreamState M I) : Prop :=
  Completes (fun p => HeaderProcessor.executeOperation E
      (DynamicFunctionProcessor.executeOperation E) f.setBoolProcessors p)
    (fun status => decide (status = .ok)) (f.headerProcessors isRequest)
    (.start isRequest headers streamInfo) st

section Order

variable {E : Envoy M I} {f g : HttpHeaderRewriteFilter} {isRequest : Bool}
  {config config' : Str} {headers : M} {streamInfo : I} {st : StreamState M I}

/-- Such a run ends where it goes through. -/
theorem RunsThrough.executeHeaders_eq (h : RunsThrough E f isRequest headers streamInfo st)
    (herror : f.error = false) :
    executeHeaders E (DynamicFunctionProcessor.executeOperation E) f isRequest headers streamInfo =
      .returned st := by
  rw [executeHeaders_of_accepted herror]
  exact h.run_eq

/-- A run goes through exactly if every operation that it starts returns OK. -/
theorem runsThrough_iff : (∃ st, RunsThrough E f isRequest headers streamInfo st) ↔
    ∀ a ∈ attemptedSteps E f isRequest headers streamInfo, ∃ st',
      a.1.executeOperation E (DynamicFunctionProcessor.executeOperation E) f.setBoolProcessors
        a.2 = .returned (.ok, st') := by
  refine exists_completes_iff.trans (forall_congr' fun a => forall_congr' fun _ => ?_)
  constructor
  · rintro ⟨status, st', hstep, hgood⟩
    exact ⟨st', of_decide_eq_true hgood ▸ hstep⟩
  · rintro ⟨st', hstep⟩
    exact ⟨.ok, st', hstep, decide_eq_true rfl⟩

/-- The lines of two operations that are independent. -/
def LinesIndependent (E : Envoy M I) (f : HttpHeaderRewriteFilter) (isRequest : Bool)
    (tokens tokens' : List Str) : Prop :=
  ∀ declared p q, OperationLine E declared isRequest tokens p →
    OperationLine E declared isRequest tokens' q → p.independent E f.setBoolProcessors q = true

/-- Lines that have changed places stand for operations that have. -/
theorem exists_reorders {declared : Str → Bool} {lines lines' : List (List Str)}
    {processors : List HeaderProcessor}
    (hreorders : Reorders (LinesIndependent E f isRequest) lines lines')
    (h : List.Forall₂ (OperationLine E declared isRequest) lines processors) :
    ∃ processors', Reorders (fun p q => p.independent E f.setBoolProcessors q = true) processors
        processors' ∧
      List.Forall₂ (OperationLine E declared isRequest) lines' processors' := by
  induction hreorders generalizing processors with
  | nil =>
    cases h
    exact ⟨[], .nil, .nil⟩
  | cons _ ih =>
    obtain _ | ⟨hline, hrest⟩ := h
    obtain ⟨processors', hprocessors, hforall⟩ := ih hrest
    exact ⟨_, .cons hprocessors, .cons hline hforall⟩
  | swap hindependent =>
    obtain _ | ⟨hline, _ | ⟨hline', hrest⟩⟩ := h
    exact ⟨_, .swap (hindependent declared _ _ hline hline'), .cons hline' (.cons hline hrest)⟩
  | trans _ _ ih ih' =>
    obtain ⟨processors', hprocessors, hforall⟩ := ih h
    obtain ⟨processors'', hprocessors', hforall'⟩ := ih' hforall
    exact ⟨processors'', hprocessors.trans hprocessors', hforall'⟩

/-- An operation does the same in two filters that define the variables of its condition in the
same way. -/
theorem executeOperation_eq_of_lookup {p : HeaderProcessor} (hwf : SideWellFormed E f isRequest)
    (hp : p ∈ f.headerProcessors isRequest)
    (hlookup : ∀ c, p.conditionProcessor = some c → ∀ d ∈ c.operands, ∀ q,
      (f.sideSetBools isRequest).lookup d.1 = some q →
        (g.sideSetBools isRequest).lookup d.1 = some q)
    (st : StreamState M I) :
    p.executeOperation E (DynamicFunctionProcessor.executeOperation E) f.setBoolProcessors st =
      p.executeOperation E (DynamicFunctionProcessor.executeOperation E) g.setBoolProcessors
        st := by
  refine HeaderProcessor.executeOperation_congr (fun _ _ _ _ => rfl)
    (fun c hc headers streamInfo => ?_) st
  obtain ⟨hprocessor, hcwf⟩ := hwf.condition p hp c hc
  have hpointer : c.boolProcessors = (Processor.ofSide isRequest).boolProcessors :=
    congrArg Processor.boolProcessors hprocessor
  refine ConditionProcessor.executeOperation_congr hcwf fun d hd => ?_
  obtain ⟨q, hq, -⟩ := hwf.exists_variable hp hc hd
  have hq' : (g.setBoolProcessors c.boolProcessors).lookup d.1 = some q := by
    rw [hpointer] at hq ⊢
    exact hlookup c hc d hd q hq
  rw [ConditionProcessor.executeOperand_of_lookup hq,
    ConditionProcessor.executeOperand_of_lookup hq']

/-- Where a run goes through all operations of a side, so does the run of a configuration in which
lines of independent operations have changed places, with the same headers and metadata in the
end. -/
theorem executeHeaders_reorder (hheaders : E.HeaderLaws) (hmetadata : E.MetadataLaws)
    (hnamespaces : E.NamespaceLaws)
    (hf : construct E config = .returned f) (herror : f.error = false)
    (hg : construct E config' = .returned g) (herror' : g.error = false)
    (hlines : Reorders (LinesIndependent E f isRequest)
      ((configLines E config).filter (isOperationLine isRequest))
      ((configLines E config').filter (isOperationLine isRequest)))
    (hdefinitions : ∀ p ∈ f.headerProcessors isRequest, ∀ c, p.conditionProcessor = some c →
      ∀ d ∈ c.operands,
        (configLines E config).filter (isDefinitionOf isRequest d.1) =
          (configLines E config').filter (isDefinitionOf isRequest d.1))
    (hruns : RunsThrough E f isRequest headers streamInfo st) :
    ∃ st', RunsThrough E g isRequest headers streamInfo st' ∧
      executeHeaders E (DynamicFunctionProcessor.executeOperation E) g isRequest headers
        streamInfo = .returned st' ∧
      E.observe st' = E.observe st := by
  have hconstructs := accepted_iff_constructs.mp ⟨hf, herror⟩
  have hconstructs' := accepted_iff_constructs.mp ⟨hg, herror'⟩
  have hwf : SideWellFormed E f isRequest := sideWellFormed_of_processLines hf
  have hwf' : SideWellFormed E g isRequest := sideWellFormed_of_processLines hg
  have hinit : init.headerProcessors isRequest = [] := by
    cases isRequest <;> rfl
  -- the operations of the second filter are those of the first in another order
  have hreorders : Reorders (fun p q => p.independent E f.setBoolProcessors q = true)
      (f.headerProcessors isRequest) (g.headerProcessors isRequest) := by
    obtain ⟨processors, heq, hforall⟩ := hconstructs.headerProcessors_eq isRequest
    obtain ⟨processors', heq', hforall'⟩ := hconstructs'.headerProcessors_eq isRequest
    obtain ⟨processors'', hprocessors, hforall''⟩ := exists_reorders hlines hforall
    rw [heq, heq', hinit, headerProcessors_unique hforall' hforall'']
    exact hprocessors
  have hfootprints : ∀ p ∈ f.headerProcessors isRequest,
      HasFootprint E.observe (p.footprint E f.setBoolProcessors)
        (p.executeOperation E (DynamicFunctionProcessor.executeOperation E)
          f.setBoolProcessors) := fun p hp =>
    HeaderProcessor.hasFootprint hheaders hmetadata hnamespaces (hwf.exists_scope hp)
  obtain ⟨st', hst', heq⟩ := hruns.reorder
    (hreorders.imp fun p q hpq => HeaderProcessor.independent_footprint hpq) hfootprints
  have hsteps : RunsThrough E g isRequest headers streamInfo st' :=
    hst'.congr fun p hp st => by
      have hpf : p ∈ f.headerProcessors isRequest := hreorders.perm.mem_iff.mpr hp
      refine executeOperation_eq_of_lookup hwf hpf (fun c hc d hd q hq => ?_) st
      -- the second filter has the variable as well, and both come from the same line
      obtain ⟨q', hq'⟩ := Option.isSome_iff_exists.mp ((hwf'.condition p hp c hc).2.declared d hd)
      rw [lookup_eq_of_filter hconstructs hconstructs' (hdefinitions p hpf c hc d hd) hq hq']
      exact hq'
  exact ⟨st', hsteps, hsteps.executeHeaders_eq herror', heq⟩

/-- Two lines that set different headers. -/
theorem executeHeaders_reorder_two :
    ∃ f g st st', construct Reference.envoy
          "http-request set-header a 1\nhttp-request set-header b 2".toList = .returned f ∧
      construct Reference.envoy
          "http-request set-header b 2\nhttp-request set-header a 1".toList = .returned g ∧
      RunsThrough Reference.envoy f true [] [] st ∧
      executeHeaders Reference.envoy (DynamicFunctionProcessor.executeOperation Reference.envoy)
        g true [] [] = .returned st' ∧
      Reference.envoy.observe st' = Reference.envoy.observe st := by
  let side := Processor.ofSide true
  let first : HeaderProcessor :=
    .setHeader ⟨side, ⟨side, .static, "a".toList⟩, ⟨side, .static, "1".toList⟩, none⟩
  let second : HeaderProcessor :=
    .setHeader ⟨side, ⟨side, .static, "b".toList⟩, ⟨side, .static, "2".toList⟩, none⟩
  obtain ⟨f, hf, htest⟩ := Outcome.exists_of_returnsWith
    (show (construct Reference.envoy
        "http-request set-header a 1\nhttp-request set-header b 2".toList).returnsWith
      (fun f => decide (f = ⟨false, [first, second], [], [], []⟩)) = true by decide +kernel)
  obtain ⟨g, hg, htest'⟩ := Outcome.exists_of_returnsWith
    (show (construct Reference.envoy
        "http-request set-header b 2\nhttp-request set-header a 1".toList).returnsWith
      (fun g => decide (g.error = false)) = true by decide +kernel)
  obtain rfl := of_decide_eq_true htest
  have herror' := of_decide_eq_true htest'
  -- a line of either form stands for one of the two operations
  have hlines : Reorders (LinesIndependent Reference.envoy
      ⟨false, [first, second], [], [], []⟩ true)
      [["http-request".toList, "set-header".toList, "a".toList, "1".toList],
        ["http-request".toList, "set-header".toList, "b".toList, "2".toList]]
      [["http-request".toList, "set-header".toList, "b".toList, "2".toList],
        ["http-request".toList, "set-header".toList, "a".toList, "1".toList]] := by
    refine .swap fun declared p q hp hq => ?_
    have hfirst : OperationLine Reference.envoy declared true
        ["http-request".toList, "set-header".toList, "a".toList, "1".toList] first :=
      .setHeader rfl rfl .unconditional
    have hsecond : OperationLine Reference.envoy declared true
        ["http-request".toList, "set-header".toList, "b".toList, "2".toList] second :=
      .setHeader rfl rfl .unconditional
    obtain rfl : p = first := hp.unique hfirst
    obtain rfl : q = second := hq.unique hsecond
    decide +kernel
  have hruns : RunsThrough Reference.envoy ⟨false, [first, second], [], [], []⟩ true [] []
      ⟨⟨true, [("a".toList, "1".toList), ("b".toList, "2".toList)]⟩, some []⟩ :=
    .cons (r := .ok) rfl rfl (.cons (r := .ok) rfl rfl .nil)
  obtain ⟨st', -, hst', heq⟩ := executeHeaders_reorder Reference.headerLaws Reference.metadataLaws
    Reference.namespaceLaws hf rfl hg herror' hlines (fun p hp c hc => by
      rcases List.mem_cons.mp hp with rfl | hp
      · cases hc
      · obtain rfl := List.mem_singleton.mp hp
        cases hc) hruns
  exact ⟨_, g, _, st', hf, hg, hruns, hst', heq⟩

end Order

/-! ## Running a side again -/

/-- Every operation of the side overwrites what it changes, and none changes what one reads. -/
def repeatable (E : Envoy M I) (f : HttpHeaderRewriteFilter) (isRequest : Bool) : Bool :=
  (f.headerProcessors isRequest).all HeaderProcessor.overwrites &&
    (f.reads E isRequest).all fun c => !f.mayChange E isRequest c

/-- Where every operation overwrites what it changes and none changes what one reads, running the
side again on what it left changes nothing, whether the run went through or stopped at an error. -/
theorem executeHeaders_repeat {E : Envoy M I} {f : HttpHeaderRewriteFilter} {isRequest : Bool}
    {config : Str} {headers : M} {streamInfo : I} {st : StreamState M I}
    (hheaders : E.HeaderLaws) (hmetadata : E.MetadataLaws)
    (hnamespaces : E.NamespaceLaws) (hf : construct E config = .returned f)
    (hrepeatable : f.repeatable E isRequest = true)
    (hrun : executeHeaders E (DynamicFunctionProcessor.executeOperation E) f isRequest headers
      streamInfo = .returned st) :
    ∃ streamInfo' st', st.streamInfo = some streamInfo' ∧
      executeHeaders E (DynamicFunctionProcessor.executeOperation E) f isRequest st.headers.map
        streamInfo' = .returned st' ∧
      E.observe st' = E.observe st := by
  have hwf : SideWellFormed E f isRequest := sideWellFormed_of_processLines hf
  -- the second run starts where the first ended
  obtain ⟨map, streamInfo', rfl⟩ := (onSide_of_executeHeaders hrun).exists_eq_start
  refine ⟨streamInfo', ?_⟩
  cases herror : f.error with
  | true => exact ⟨_, rfl, by simp only [executeHeaders, herror, if_true], rfl⟩
  | false =>
    simp only [repeatable, Bool.and_eq_true, List.all_eq_true, Bool.not_eq_true'] at hrepeatable
    obtain ⟨hover, hreads⟩ := hrepeatable
    rw [executeHeaders_of_accepted herror] at hrun
    have hall : (f.headerProcessors isRequest).all HeaderProcessor.overwrites = true :=
      List.all_eq_true.mpr hover
    have hidempotent : ∀ c, ∀ u ∈ f.changes E isRequest c, u * u = u := by
      intro c u hu
      simp only [changes, hall, if_true] at hu
      split at hu
      · exact mul_self_of_mem_rewrites hu
      · rw [Submonoid.mem_bot.mp hu, one_mul]
    obtain ⟨st', hst', heq⟩ := run_idempotent (hwf.hasFootprint hheaders hmetadata hnamespaces)
      (fun c hc => by simp [changes, hreads c hc]) hidempotent hrun
    refine ⟨st', rfl, ?_, heq⟩
    rw [executeHeaders_of_accepted herror]
    exact hst'

/-- Setting the path and copying a header, twice. -/
theorem executeHeaders_repeat_setPath :
    ∃ f st streamInfo' st', construct Reference.envoy
          "http-request set-path /b\nhttp-request set-header k %[hdr(v)]".toList = .returned f ∧
      executeHeaders Reference.envoy (DynamicFunctionProcessor.executeOperation Reference.envoy)
        f true [(":path".toList, "/a?q".toList)] [] = .returned st ∧
      executeHeaders Reference.envoy (DynamicFunctionProcessor.executeOperation Reference.envoy)
        f true st.headers.map streamInfo' = .returned st' ∧
      Reference.envoy.observe st' = Reference.envoy.observe st := by
  obtain ⟨f, hf, htest⟩ := Outcome.exists_of_returnsWith
    (show (construct Reference.envoy
        "http-request set-path /b\nhttp-request set-header k %[hdr(v)]".toList).returnsWith
      (fun f => f.repeatable Reference.envoy true &&
        (executeHeaders Reference.envoy
          (DynamicFunctionProcessor.executeOperation Reference.envoy) f true
          [(":path".toList, "/a?q".toList)] []).returnsWith fun _ => true) = true by
      decide +kernel)
  simp only [Bool.and_eq_true] at htest
  obtain ⟨st, hst, -⟩ := Outcome.exists_of_returnsWith htest.2
  obtain ⟨streamInfo', st', -, hst', heq⟩ := executeHeaders_repeat Reference.headerLaws
    Reference.metadataLaws Reference.namespaceLaws hf htest.1 hst
  exact ⟨f, st, streamInfo', st', hf, hst, hst', heq⟩

end HttpHeaderRewriteFilter

end HeaderRewrite
