import HeaderRewrite.Execution.Dependence

/-!
# Concatenated configurations

Two configurations joined by a line break are one after the other, so that a filter with both does
what two filters in a row do, unless the first stops at an error. They can be joined as long as no
variable is defined by both on the same side.

## Main definitions

* `HttpHeaderRewriteFilter.followedBy`: the operations and variables of two filters.

## Main results

* `HttpHeaderRewriteFilter.configLines_append`: the lines of two configurations;
* `HttpHeaderRewriteFilter.Constructs.followedBy`: accepted lines after those of another filter;
* `HttpHeaderRewriteFilter.construct_append`: when two configurations can be joined, and what the
  filter that is constructed does.
-/

namespace HeaderRewrite.HttpHeaderRewriteFilter

open Cxx Utility

variable {M I : Type}

/-- The lines of two configurations joined by a line break are those of the first, then those of the
second. -/
theorem configLines_append {E : Envoy M I} (hstrings : E.StringLaws) (config config' : Str) :
    configLines E (config ++ '\n' :: config') = configLines E config ++ configLines E config' := by
  have hpieces : ∀ config, E.splitToken config ['\n'] false true = pieces '\n' config :=
    fun config => hstrings.splitToken_eq config ['\n'] true
  rw [configLines, configLines, configLines, hpieces, hpieces, hpieces, pieces_append_cons,
    List.map_append]

/-- The operations of a filter and then those of another, and the variables of both. -/
def followedBy (f g : HttpHeaderRewriteFilter) : HttpHeaderRewriteFilter where
  error := f.error || g.error
  requestHeaderProcessors := f.requestHeaderProcessors ++ g.requestHeaderProcessors
  responseHeaderProcessors := f.responseHeaderProcessors ++ g.responseHeaderProcessors
  requestSetBoolProcessors := g.requestSetBoolProcessors ++ f.requestSetBoolProcessors
  responseSetBoolProcessors := g.responseSetBoolProcessors ++ f.responseSetBoolProcessors

section FollowedBy

variable {f g : HttpHeaderRewriteFilter}

theorem followedBy_init (herror : f.error = false) : f.followedBy init = f := by
  obtain ⟨error, request, response, requestBools, responseBools⟩ := f
  obtain rfl : error = false := herror
  simp [followedBy, init]

theorem headerProcessors_followedBy (f g : HttpHeaderRewriteFilter) (isRequest : Bool) :
    (f.followedBy g).headerProcessors isRequest =
      f.headerProcessors isRequest ++ g.headerProcessors isRequest := by
  cases isRequest <;> rfl

theorem sideSetBools_followedBy (f g : HttpHeaderRewriteFilter) (isRequest : Bool) :
    (f.followedBy g).sideSetBools isRequest =
      g.sideSetBools isRequest ++ f.sideSetBools isRequest := by
  cases isRequest <;> rfl

theorem lookup_followedBy (f g : HttpHeaderRewriteFilter) (isRequest : Bool) (name : Str) :
    ((f.followedBy g).sideSetBools isRequest).lookup name =
      ((g.sideSetBools isRequest).lookup name).or ((f.sideSetBools isRequest).lookup name) := by
  rw [sideSetBools_followedBy, List.lookup_append]

theorem scope_followedBy (f g : HttpHeaderRewriteFilter) (isRequest : Bool) (name : Str) :
    (f.followedBy g).scope isRequest name = (g.scope isRequest name || f.scope isRequest name) := by
  rw [scope, lookup_followedBy, Option.isSome_or]
  rfl

theorem followedBy_pushProcessor (f g : HttpHeaderRewriteFilter) (isRequest : Bool)
    (p : HeaderProcessor) :
    f.followedBy (g.pushProcessor isRequest p) = (f.followedBy g).pushProcessor isRequest p := by
  cases isRequest <;> simp [followedBy, pushProcessor]

theorem followedBy_declare (f g : HttpHeaderRewriteFilter) (isRequest : Bool) (name : Str)
    (p : SetBoolProcessor) :
    f.followedBy (g.declare isRequest name p) = (f.followedBy g).declare isRequest name p := by
  cases isRequest <;> simp [followedBy, declare]

end FollowedBy

section Concatenation

variable {E : Envoy M I} {f g g' : HttpHeaderRewriteFilter} {lines lines' : List (List Str)}

/-- No variable of a side is defined in both filters. -/
def DisjointScopes (f g : HttpHeaderRewriteFilter) : Prop :=
  ∀ isRequest name, f.scope isRequest name = true → g.scope isRequest name = false

/-- Lines that are accepted by themselves are accepted after those of a filter whose variables they
do not define. -/
theorem Constructs.followedBy (h : Constructs E g lines g') (hdisjoint : DisjointScopes f g') :
    Constructs E (f.followedBy g) lines (f.followedBy g') := by
  induction h with
  | nil => exact .nil
  | @operation g g' isRequest tokens lines p hline _ ih =>
    refine .operation (hline.mono fun name hname => ?_) ?_
    · rw [scope_followedBy, hname, Bool.true_or]
    · rw [← followedBy_pushProcessor]
      exact ih hdisjoint
  | @definition g g' isRequest tokens lines name p hline hnew hrest ih =>
    -- the name is defined in the end, so that the first filter does not define it
    have hdefined : g'.scope isRequest name = true :=
      hrest.scope_mono (by simp [Scope.declare])
    have hf : f.scope isRequest name = false := by
      cases hname : f.scope isRequest name with
      | false => rfl
      | true => cases (hdisjoint _ _ hname).symm.trans hdefined
    refine .definition hline ?_ ?_
    · rw [scope_followedBy, hnew, hf, Bool.false_or]
    · rw [← followedBy_declare]
      exact ih hdisjoint

/-- Accepted lines are accepted part by part. -/
theorem Constructs.exists_of_append (h : Constructs E f (lines ++ lines') g) :
    ∃ f', Constructs E f lines f' ∧ Constructs E f' lines' g := by
  induction lines generalizing f with
  | nil => exact ⟨f, .nil, h⟩
  | cons tokens lines ih =>
    obtain ⟨f₁, hline, hrest⟩ := Constructs.cons_iff.mp h
    obtain ⟨f', hlines, hlines'⟩ := ih hrest
    exact ⟨f', Constructs.cons_iff.mpr ⟨f₁, hline, hlines⟩, hlines'⟩

/-- Accepted lines make one filter. -/
theorem Constructs.unique (h : Constructs E f lines g) (h' : Constructs E f lines g') :
    g = g' := by
  have hprocess := (h.processLines_append []).symm.trans (h'.processLines_append [])
  exact Outcome.returned.inj hprocess

/-- Lines can be accepted after those of another filter exactly if no variable is defined by
both. -/
theorem exists_constructs_append_iff (hf : Constructs E init lines f)
    (hg : Constructs E init lines' g) :
    (∃ h, Constructs E init (lines ++ lines') h) ↔ DisjointScopes f g := by
  constructor
  · rintro ⟨h, hh⟩ isRequest name hname
    obtain ⟨f', hf', hrest⟩ := hh.exists_of_append
    obtain rfl := hf.unique hf'
    -- what is declared after the first lines is not defined by the others
    have hnone : lines'.any (isDefinitionOf isRequest name) = false := by
      rw [List.any_eq_false]
      intro tokens htokens
      rw [hrest.isDefinitionOf_eq_false hname htokens]
      exact Bool.false_ne_true
    rw [hg.scope_eq, hnone, Bool.or_false, scope_init]
    rfl
  · intro hdisjoint
    refine ⟨f.followedBy g, hf.append ?_⟩
    have hrest := hg.followedBy hdisjoint
    rwa [followedBy_init hf.error_eq] at hrest

/-! ## Two filters in a row -/

variable {isRequest : Bool} {config config' : Str}

/-- The operations of the first filter see the same variables in both together. -/
theorem lookup_followedBy_left (hdisjoint : DisjointScopes f g) {name : Str}
    {q : SetBoolProcessor} (hq : (f.sideSetBools isRequest).lookup name = some q) :
    ((f.followedBy g).sideSetBools isRequest).lookup name = some q := by
  have hscope : f.scope isRequest name = true := by rw [scope, hq, Option.isSome_some]
  have hnone := hdisjoint _ _ hscope
  rw [scope, Option.isSome_eq_false_iff, Option.isNone_iff_eq_none] at hnone
  rw [lookup_followedBy, hnone, Option.none_or, hq]

/-- So do the operations of the second. -/
theorem lookup_followedBy_right {name : Str} {q : SetBoolProcessor}
    (hq : (g.sideSetBools isRequest).lookup name = some q) :
    ((f.followedBy g).sideSetBools isRequest).lookup name = some q := by
  rw [lookup_followedBy, hq, Option.some_or]

/-- Two accepted configurations can be joined by a line break exactly if no variable of a side is
defined by both. The filter that is constructed then does to a request or a response what the two
filters do one after the other, or what the first does alone if it stops at an error. -/
theorem construct_append (hstrings : E.StringLaws)
    (hf : construct E config = .returned f) (herror : f.error = false)
    (hg : construct E config' = .returned g) (herror' : g.error = false) :
    ((∃ h, construct E (config ++ '\n' :: config') = .returned h ∧ h.error = false) ↔
      ∀ isRequest name, f.scope isRequest name = true → g.scope isRequest name = false) ∧
    ∀ h, construct E (config ++ '\n' :: config') = .returned h → h.error = false →
      ∀ isRequest headers streamInfo,
        (∃ st streamInfo', RunsThrough E f isRequest headers streamInfo st ∧
          st.streamInfo = some streamInfo' ∧
          executeHeaders E (DynamicFunctionProcessor.executeOperation E) h isRequest headers
              streamInfo =
            executeHeaders E (DynamicFunctionProcessor.executeOperation E) g isRequest
              st.headers.map streamInfo') ∨
        (∀ st, ¬ RunsThrough E f isRequest headers streamInfo st) ∧
          executeHeaders E (DynamicFunctionProcessor.executeOperation E) h isRequest headers
              streamInfo =
            executeHeaders E (DynamicFunctionProcessor.executeOperation E) f isRequest headers
              streamInfo := by
  have hconstructs := accepted_iff_constructs.mp ⟨hf, herror⟩
  have hconstructs' := accepted_iff_constructs.mp ⟨hg, herror'⟩
  have hiff := exists_constructs_append_iff hconstructs hconstructs'
  constructor
  · rw [← configLines_append hstrings] at hiff
    exact (exists_congr fun h => accepted_iff_constructs).trans hiff
  intro h hh herror'' isRequest headers streamInfo
  have hjoined := accepted_iff_constructs.mp ⟨hh, herror''⟩
  rw [configLines_append hstrings] at hjoined
  have hdisjoint : DisjointScopes f g := hiff.mp ⟨h, hjoined⟩
  -- the filter is the one with the operations and variables of both
  obtain rfl : f.followedBy g = h := by
    have hrest := hconstructs'.followedBy hdisjoint
    rw [followedBy_init herror] at hrest
    exact (hconstructs.append hrest).unique hjoined
  have hwf : SideWellFormed E f isRequest := sideWellFormed_of_processLines hf
  have hwf' : SideWellFormed E g isRequest := sideWellFormed_of_processLines hg
  have hfirst : ∀ p ∈ f.headerProcessors isRequest, ∀ st,
      p.executeOperation E (DynamicFunctionProcessor.executeOperation E) f.setBoolProcessors st =
        p.executeOperation E (DynamicFunctionProcessor.executeOperation E)
          (f.followedBy g).setBoolProcessors st := fun p hp st =>
    executeOperation_eq_of_lookup hwf hp
      (fun _ _ _ _ _ hq => lookup_followedBy_left hdisjoint hq) st
  have hsecond : ∀ p ∈ g.headerProcessors isRequest, ∀ st,
      p.executeOperation E (DynamicFunctionProcessor.executeOperation E) g.setBoolProcessors st =
        p.executeOperation E (DynamicFunctionProcessor.executeOperation E)
          (f.followedBy g).setBoolProcessors st := fun p hp st =>
    executeOperation_eq_of_lookup hwf' hp (fun _ _ _ _ _ hq => lookup_followedBy_right hq) st
  rw [executeHeaders_of_accepted herror'', headerProcessors_followedBy,
    executeHeaders_of_accepted herror]
  rcases run_append_cases
    (fun p => HeaderProcessor.executeOperation E (DynamicFunctionProcessor.executeOperation E)
      (f.followedBy g).setBoolProcessors p) (fun status => decide (status = .ok))
    (f.headerProcessors isRequest) (g.headerProcessors isRequest)
    (.start isRequest headers streamInfo) with ⟨st, hst, hrun⟩ | ⟨hnot, hrun⟩
  · have hruns : RunsThrough E f isRequest headers streamInfo st :=
      hst.congr fun p hp st => (hfirst p hp st).symm
    obtain ⟨map, streamInfo', rfl⟩ :=
      (onSide_of_executeHeaders (hruns.executeHeaders_eq herror)).exists_eq_start
    refine Or.inl ⟨_, streamInfo', hruns, rfl, ?_⟩
    rw [executeHeaders_of_accepted herror']
    exact hrun.trans (run_congr (fun p hp st => (hsecond p hp st).symm) _)
  · refine Or.inr ⟨fun st hst => hnot st (hst.congr hfirst), ?_⟩
    exact hrun.trans (run_congr (fun p hp st => (hfirst p hp st).symm) _)

/-- Two configurations that define a variable of the same name, but on different sides. -/
theorem construct_append_sides :
    ∃ f g h, construct Reference.envoy ("http-request set-bool b x -m found\n" ++
          "http-request set-header k v if b").toList = .returned f ∧
      construct Reference.envoy "http-response set-bool b y -m found".toList = .returned g ∧
      construct Reference.envoy (("http-request set-bool b x -m found\n" ++
          "http-request set-header k v if b").toList ++
        '\n' :: "http-response set-bool b y -m found".toList) = .returned h ∧
      h.error = false := by
  obtain ⟨f, hf, htest⟩ := Outcome.exists_of_returnsWith
    (show (construct Reference.envoy ("http-request set-bool b x -m found\n" ++
        "http-request set-header k v if b").toList).returnsWith
      (fun f => decide (f.error = false ∧ f.sideSetBools false = [])) = true by
      decide +kernel)
  obtain ⟨herror, hresponse⟩ := of_decide_eq_true htest
  obtain ⟨g, hg, htest'⟩ := Outcome.exists_of_returnsWith
    (show (construct Reference.envoy "http-response set-bool b y -m found".toList).returnsWith
      (fun g => decide (g.error = false ∧ g.sideSetBools true = [])) = true by
      decide +kernel)
  obtain ⟨herror', hrequest⟩ := of_decide_eq_true htest'
  obtain ⟨h, hh, herror''⟩ := (construct_append Reference.stringLaws hf herror hg herror').1.mpr
    fun isRequest name hname => by
      cases isRequest with
      | true => rw [scope, hrequest, List.lookup_nil, Option.isSome_none]
      | false =>
        rw [scope, hresponse, List.lookup_nil, Option.isSome_none] at hname
        cases hname
  exact ⟨f, g, h, hf, hg, hh, herror''⟩

end Concatenation

end HeaderRewrite.HttpHeaderRewriteFilter
