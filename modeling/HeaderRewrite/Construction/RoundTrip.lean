import Mathlib.Data.List.Nodup
import HeaderRewrite.Construction.Render

/-!
# Printing a filter

A filter is printed as a configuration: the definitions of its variables, and then its operations.
The printed configuration is accepted and makes the same filter again, whatever the layout and the
spelling of the operands were that the filter was made from.

The variables of a side are in an unordered map. Two filters have the same members if they find the
same under every name, and they are printed alike if they have the same definitions in any order.

## Main definitions

* `HttpHeaderRewriteFilter.render`: the configuration of a filter;
* `HttpHeaderRewriteFilter.Renderable`: the filters that can be printed;
* `HttpHeaderRewriteFilter.SameMembers`: the same operations and the same variables;
* `HttpHeaderRewriteFilter.PrintedAlike`: the same lines, the definitions in any order.

## Main results

* `HttpHeaderRewriteFilter.Constructs.renderable`: what is constructed can be printed;
* `HttpHeaderRewriteFilter.Renderable.construct_eq`: what can be printed is constructed from it;
* `HttpHeaderRewriteFilter.Renderable.printedAlike_iff`: what is printed alike has the same members;
* `HttpHeaderRewriteFilter.construct_render`: a filter is constructed from its printed form.
-/

namespace HeaderRewrite

open Cxx Utility

variable {M I : Type}

/-- The lines of a configuration that reading can yield. -/
abbrev ConfigWords : List Str → Prop := Words ' ' '\n'

namespace HttpHeaderRewriteFilter

/-- The definitions of variables, the first of them last in the map. -/
def definitionLines (isRequest : Bool) (setBools : SetBoolProcessorMap) : List (List Str) :=
  setBools.reverse.map fun b => b.2.lineTokens isRequest b.1

/-- The operations of a side, in order. -/
def operationLines (isRequest : Bool) (processors : List HeaderProcessor) : List (List Str) :=
  processors.map (HeaderProcessor.lineTokens isRequest)

/-- The lines of a filter: the definitions of both sides, then the operations of both. -/
def renderLines (f : HttpHeaderRewriteFilter) : List (List Str) :=
  definitionLines true (f.sideSetBools true) ++ definitionLines false (f.sideSetBools false) ++
    operationLines true (f.headerProcessors true) ++
      operationLines false (f.headerProcessors false)

/-- The configuration of a filter. -/
def render (f : HttpHeaderRewriteFilter) : Str := printLines ' ' '\n' f.renderLines

/-- A filter all of whose operations and variables can be printed and read again. -/
structure Renderable (E : Envoy M I) (f : HttpHeaderRewriteFilter) : Prop where
  /-- There is no error. -/
  error : f.error = false
  /-- No variable of a side is defined twice. -/
  nodup : ∀ isRequest, ((f.sideSetBools isRequest).map Prod.fst).Nodup
  /-- The definitions are read as they were. -/
  definition : ∀ isRequest, ∀ b ∈ f.sideSetBools isRequest,
    DefinitionLine E isRequest (b.2.lineTokens isRequest b.1) b.1 b.2 ∧
      ConfigWords (b.2.lineTokens isRequest b.1)
  /-- So are the operations. -/
  operation : ∀ isRequest, ∀ p ∈ f.headerProcessors isRequest,
    OperationLine E (f.scope isRequest) isRequest (p.lineTokens isRequest) p ∧
      ConfigWords (p.lineTokens isRequest)

variable {E : Envoy M I} {f g : HttpHeaderRewriteFilter} {isRequest : Bool}
  {tokens : List Str} {lines : List (List Str)}

/-! ## What is constructed can be printed -/

theorem renderable_init (E : Envoy M I) : Renderable E init where
  error := rfl
  nodup isRequest := by cases isRequest <;> exact List.nodup_nil
  definition isRequest b hb := by cases isRequest <;> cases hb
  operation isRequest p hp := by cases isRequest <;> cases hp

/-- An operation can be printed if its line could be read. -/
theorem Renderable.pushProcessor (h : Renderable E f) (hstrings : E.StringLaws)
    {p : HeaderProcessor} (hline : OperationLine E (f.scope isRequest) isRequest tokens p)
    (hwords : ConfigWords tokens) : Renderable E (f.pushProcessor isRequest p) := by
  obtain ⟨hprinted, hrespells⟩ := hline.lineTokens hstrings (.refl _)
  rw [HeaderProcessor.rename_id] at hprinted hrespells
  refine ⟨by rw [error_pushProcessor, h.error], fun side => ?_, fun side b hb => ?_,
    fun side q hq => ?_⟩
  · rw [sideSetBools_pushProcessor]
    exact h.nodup side
  · rw [sideSetBools_pushProcessor] at hb
    exact h.definition side b hb
  · rw [scope_pushProcessor]
    rw [headerProcessors_pushProcessor, List.mem_append] at hq
    rcases hq with hq | hq
    · exact h.operation side q hq
    · split at hq
      · next hside =>
        obtain rfl := List.mem_singleton.mp hq
        subst hside
        exact ⟨hprinted, words_of_respells hrespells hwords⟩
      · cases hq

/-- A variable can be printed if its line could be read and its name is new. -/
theorem Renderable.declare (h : Renderable E f) (hstrings : E.StringLaws) {name : Str}
    {p : SetBoolProcessor} (hline : DefinitionLine E isRequest tokens name p)
    (hnew : f.scope isRequest name = false) (hwords : ConfigWords tokens) :
    Renderable E (f.declare isRequest name p) := by
  obtain ⟨hprinted, hrespells⟩ := hline.lineTokens hstrings (.refl name)
  refine ⟨by rw [error_declare, h.error], fun side => ?_, fun side b hb => ?_,
    fun side q hq => ?_⟩
  · rw [sideSetBools_declare]
    split
    · next hside =>
      subst hside
      rw [List.map_cons, List.nodup_cons]
      refine ⟨fun hmem => ?_, h.nodup side⟩
      -- the name was not in the map
      rw [scope, Option.isSome_eq_false_iff, Option.isNone_iff_eq_none,
        List.lookup_eq_none_iff] at hnew
      obtain ⟨b, hb, hname⟩ := List.mem_map.mp hmem
      simpa [hname] using hnew b hb
    · exact h.nodup side
  · rw [sideSetBools_declare] at hb
    split at hb
    · next hside =>
      subst hside
      rcases List.mem_cons.mp hb with rfl | hb
      · exact ⟨hprinted, words_of_respells hrespells hwords⟩
      · exact h.definition side b hb
    · exact h.definition side b hb
  · rw [headerProcessors_declare] at hq
    obtain ⟨hoperation, hprintedWords⟩ := h.operation side q hq
    refine ⟨hoperation.mono fun name' hname' => ?_, hprintedWords⟩
    simp [Scope.declare, hname']

/-- Accepted lines of words make a filter that can be printed. -/
theorem Constructs.renderable (h : Constructs E f lines g) (hstrings : E.StringLaws)
    (hf : Renderable E f) (hwords : ∀ tokens ∈ lines, ConfigWords tokens) : Renderable E g := by
  induction h with
  | nil => exact hf
  | operation hline _ ih =>
    rw [List.forall_mem_cons] at hwords
    exact ih (hf.pushProcessor hstrings hline hwords.1) hwords.2
  | definition hline hnew _ ih =>
    rw [List.forall_mem_cons] at hwords
    exact ih (hf.declare hstrings hline hnew hwords.1) hwords.2

/-- The lines of a configuration are the ones that are read from it. -/
theorem configLines_eq_readLines (hstrings : E.StringLaws) (config : Str) :
    configLines E config = readLines ' ' '\n' config := by
  have hwords : ∀ operation, E.splitToken operation " " false false =
      splitText [' '] false operation := fun operation => hstrings.splitToken_eq operation " " false
  have hlines : E.splitToken config ['\n'] false true = pieces '\n' config :=
    hstrings.splitToken_eq config ['\n'] true
  rw [configLines, hlines, readLines]
  exact List.map_congr_left fun operation _ => hwords operation

/-! ## What can be printed is constructed from it -/

/-- The filter with more variables of a side. -/
def declareAll (f : HttpHeaderRewriteFilter) (isRequest : Bool) (setBools : SetBoolProcessorMap) :
    HttpHeaderRewriteFilter :=
  setBools.foldr (fun b f => f.declare isRequest b.1 b.2) f

/-- The filter with more operations of a side. -/
def pushAll (f : HttpHeaderRewriteFilter) (isRequest : Bool) (processors : List HeaderProcessor) :
    HttpHeaderRewriteFilter :=
  processors.foldl (·.pushProcessor isRequest) f

theorem sideSetBools_declareAll (f : HttpHeaderRewriteFilter) (isRequest : Bool)
    (setBools : SetBoolProcessorMap) (side : Bool) :
    (f.declareAll isRequest setBools).sideSetBools side =
      (if side = isRequest then setBools else []) ++ f.sideSetBools side := by
  induction setBools with
  | nil => simp [declareAll]
  | cons b setBools ih =>
    rw [declareAll, List.foldr_cons, sideSetBools_declare, ← declareAll, ih]
    split <;> rfl

@[simp] theorem headerProcessors_declareAll (f : HttpHeaderRewriteFilter) (isRequest : Bool)
    (setBools : SetBoolProcessorMap) (side : Bool) :
    (f.declareAll isRequest setBools).headerProcessors side = f.headerProcessors side := by
  induction setBools with
  | nil => rfl
  | cons b setBools ih =>
    rw [declareAll, List.foldr_cons, headerProcessors_declare, ← declareAll, ih]

@[simp] theorem error_declareAll (f : HttpHeaderRewriteFilter) (isRequest : Bool)
    (setBools : SetBoolProcessorMap) : (f.declareAll isRequest setBools).error = f.error := by
  induction setBools with
  | nil => rfl
  | cons b setBools ih => rw [declareAll, List.foldr_cons, error_declare, ← declareAll, ih]

@[simp] theorem sideSetBools_pushAll (f : HttpHeaderRewriteFilter) (isRequest : Bool)
    (processors : List HeaderProcessor) (side : Bool) :
    (f.pushAll isRequest processors).sideSetBools side = f.sideSetBools side := by
  induction processors generalizing f with
  | nil => rfl
  | cons p processors ih => rw [pushAll, List.foldl_cons, ← pushAll, ih, sideSetBools_pushProcessor]

theorem headerProcessors_pushAll (f : HttpHeaderRewriteFilter) (isRequest : Bool)
    (processors : List HeaderProcessor) (side : Bool) :
    (f.pushAll isRequest processors).headerProcessors side =
      f.headerProcessors side ++ if side = isRequest then processors else [] := by
  induction processors generalizing f with
  | nil => simp [pushAll]
  | cons p processors ih =>
    rw [pushAll, List.foldl_cons, ← pushAll, ih, headerProcessors_pushProcessor, List.append_assoc]
    split <;> rfl

@[simp] theorem error_pushAll (f : HttpHeaderRewriteFilter) (isRequest : Bool)
    (processors : List HeaderProcessor) : (f.pushAll isRequest processors).error = f.error := by
  induction processors generalizing f with
  | nil => rfl
  | cons p processors ih => rw [pushAll, List.foldl_cons, ← pushAll, ih, error_pushProcessor]

/-- A filter is made of its error flag and of its two sides. -/
theorem eq_of_sides (herror : f.error = g.error)
    (hsetBools : ∀ isRequest, f.sideSetBools isRequest = g.sideSetBools isRequest)
    (hprocessors : ∀ isRequest, f.headerProcessors isRequest = g.headerProcessors isRequest) :
    f = g := by
  obtain ⟨error, request, response, requestBools, responseBools⟩ := f
  obtain rfl : error = g.error := herror
  obtain rfl : requestBools = g.requestSetBoolProcessors := hsetBools true
  obtain rfl : responseBools = g.responseSetBoolProcessors := hsetBools false
  obtain rfl : request = g.requestHeaderProcessors := hprocessors true
  obtain rfl : response = g.responseHeaderProcessors := hprocessors false
  rfl

/-- Definitions that can be read are accepted after each other if their names are new. -/
theorem constructs_definitionLines {setBools : SetBoolProcessorMap}
    (hnodup : (setBools.map Prod.fst).Nodup)
    (hnew : ∀ b ∈ setBools, f.scope isRequest b.1 = false)
    (hlines : ∀ b ∈ setBools, DefinitionLine E isRequest (b.2.lineTokens isRequest b.1) b.1 b.2) :
    Constructs E f (definitionLines isRequest setBools) (f.declareAll isRequest setBools) := by
  induction setBools with
  | nil => exact .nil
  | cons b setBools ih =>
    rw [List.map_cons, List.nodup_cons] at hnodup
    rw [List.forall_mem_cons] at hnew hlines
    rw [definitionLines, List.reverse_cons, List.map_append]
    refine (ih hnodup.2 hnew.2 hlines.2).append (.definition hlines.1 ?_ .nil)
    -- neither the filter nor another definition has the name
    have hother : setBools.lookup b.1 = none := List.lookup_eq_none_iff.mpr fun b' hb' => by
      have hne : b'.1 ≠ b.1 := fun heq => hnodup.1 (heq ▸ List.mem_map_of_mem hb')
      simpa using hne.symm
    have hscope := hnew.1
    rw [scope, Option.isSome_eq_false_iff, Option.isNone_iff_eq_none] at hscope
    rw [scope, sideSetBools_declareAll, if_pos rfl, List.lookup_append, hother, hscope]
    rfl

/-- Operations that can be read are accepted after each other if their variables are declared. -/
theorem constructs_operationLines {processors : List HeaderProcessor}
    (hlines : ∀ p ∈ processors,
      OperationLine E (f.scope isRequest) isRequest (p.lineTokens isRequest) p) :
    Constructs E f (operationLines isRequest processors) (f.pushAll isRequest processors) := by
  induction processors generalizing f with
  | nil => exact .nil
  | cons p processors ih =>
    rw [List.forall_mem_cons] at hlines
    refine .operation hlines.1 (ih fun q hq => ?_)
    rw [scope_pushProcessor]
    exact hlines.2 q hq

/-- The names that are declared are those of the variables. -/
theorem scope_eq_of_sideSetBools
    (h : ∀ isRequest, f.sideSetBools isRequest = g.sideSetBools isRequest) : f.scope = g.scope := by
  ext isRequest name : 2
  rw [scope, scope, h]

namespace Renderable

/-- The lines of a filter make the filter. -/
theorem constructs (h : Renderable E f) : Constructs E init f.renderLines f := by
  -- first the variables of both sides
  have hrequest : Constructs E init (definitionLines true (f.sideSetBools true))
      (init.declareAll true (f.sideSetBools true)) :=
    constructs_definitionLines (h.nodup true) (fun _ _ => by simp [Scope.empty])
      fun b hb => (h.definition true b hb).1
  have hresponse : Constructs E (init.declareAll true (f.sideSetBools true))
      (definitionLines false (f.sideSetBools false))
      ((init.declareAll true (f.sideSetBools true)).declareAll false (f.sideSetBools false)) :=
    constructs_definitionLines (h.nodup false) (fun _ _ => by
      rw [scope, sideSetBools_declareAll, if_neg Bool.false_ne_true]
      rfl) fun b hb => (h.definition false b hb).1
  -- all variables are declared then
  generalize hdeclared : (init.declareAll true (f.sideSetBools true)).declareAll false
    (f.sideSetBools false) = declared at hresponse
  have hsetBools : ∀ side, declared.sideSetBools side = f.sideSetBools side := by
    intro side
    rw [← hdeclared, sideSetBools_declareAll, sideSetBools_declareAll]
    cases side <;> simp [init, sideSetBools, setBoolProcessors, Processor.ofSide]
  have hoperations : Constructs E declared (operationLines true (f.headerProcessors true))
      (declared.pushAll true (f.headerProcessors true)) :=
    constructs_operationLines fun p hp => by
      rw [scope_eq_of_sideSetBools hsetBools]
      exact (h.operation true p hp).1
  have hoperations' : Constructs E (declared.pushAll true (f.headerProcessors true))
      (operationLines false (f.headerProcessors false))
      ((declared.pushAll true (f.headerProcessors true)).pushAll false
        (f.headerProcessors false)) :=
    constructs_operationLines fun p hp => by
      rw [scope_eq_of_sideSetBools fun side => (sideSetBools_pushAll ..).trans (hsetBools side)]
      exact (h.operation false p hp).1
  have hfilter : (declared.pushAll true (f.headerProcessors true)).pushAll false
      (f.headerProcessors false) = f := by
    refine eq_of_sides ?_ (fun side => ?_) fun side => ?_
    · rw [error_pushAll, error_pushAll, ← hdeclared, error_declareAll, error_declareAll, h.error]
      rfl
    · rw [sideSetBools_pushAll, sideSetBools_pushAll, hsetBools]
    · rw [headerProcessors_pushAll, headerProcessors_pushAll, ← hdeclared,
        headerProcessors_declareAll, headerProcessors_declareAll]
      cases side <;> simp [init, headerProcessors]
  rw [hfilter] at hoperations'
  exact ((hrequest.append hresponse).append hoperations).append hoperations'

/-- The lines of a filter are read as they were printed. -/
theorem configLines_render (h : Renderable E f) (hstrings : E.StringLaws) :
    configLines E f.render = f.renderLines := by
  rw [configLines_eq_readLines hstrings]
  refine readLines_printLines (by decide) fun words hwords => ?_
  -- every line begins with the keyword of its side
  have hkeyword : ∀ side, ∃ c first, sideKeyword side = c :: first ∧ isSpace c = false := by
    intro side
    cases side <;> exact ⟨_, _, rfl, by decide⟩
  have hdefinition : ∀ side, words ∈ definitionLines side (f.sideSetBools side) →
      ConfigWords words ∧ ∃ rest, words = sideKeyword side :: rest := by
    intro side hmem
    obtain ⟨b, hb, rfl⟩ := List.mem_map.mp hmem
    exact ⟨(h.definition side b (List.mem_reverse.mp hb)).2, _, rfl⟩
  have hoperation : ∀ side, words ∈ operationLines side (f.headerProcessors side) →
      ConfigWords words ∧ ∃ rest, words = sideKeyword side :: rest := by
    intro side hmem
    obtain ⟨p, hp, rfl⟩ := List.mem_map.mp hmem
    refine ⟨(h.operation side p hp).2, ?_⟩
    cases p <;> exact ⟨_, rfl⟩
  obtain ⟨side, hwords, rest, rfl⟩ : ∃ side, ConfigWords words ∧
      ∃ rest, words = sideKeyword side :: rest := by
    simp only [renderLines, List.mem_append] at hwords
    rcases hwords with ((hmem | hmem) | hmem) | hmem
    · exact ⟨true, hdefinition true hmem⟩
    · exact ⟨false, hdefinition false hmem⟩
    · exact ⟨true, hoperation true hmem⟩
    · exact ⟨false, hoperation false hmem⟩
  obtain ⟨c, first, hfirst, hspace⟩ := hkeyword side
  exact ⟨hwords, c, first, rest, by rw [hfirst], hspace⟩

/-- A filter that can be printed is constructed from its printed form. -/
theorem construct_eq (h : Renderable E f) (hstrings : E.StringLaws) :
    construct E f.render = .returned f := by
  have hconstructs := h.constructs
  rw [← h.configLines_render hstrings, ← accepted_iff_constructs] at hconstructs
  exact hconstructs.1

end Renderable

/-- What is constructed from an accepted configuration can be printed. -/
theorem renderable_of_construct (hstrings : E.StringLaws) {config : Str}
    (hf : construct E config = .returned f) (herror : f.error = false) : Renderable E f := by
  refine (accepted_iff_constructs.mp ⟨hf, herror⟩).renderable hstrings (renderable_init E)
    fun tokens htokens => ?_
  rw [configLines_eq_readLines hstrings] at htokens
  exact words_of_mem_readLines (by decide) htokens

/-! ## The same members -/

/-- Two filters have the same members: the same operations in the same order on each side, and under
every name the same variable. -/
structure SameMembers (f g : HttpHeaderRewriteFilter) : Prop where
  /-- The error flags agree. -/
  error : f.error = g.error
  /-- The operations do. -/
  headerProcessors : ∀ isRequest, f.headerProcessors isRequest = g.headerProcessors isRequest
  /-- So do the variables. -/
  lookup : ∀ isRequest name,
    (f.sideSetBools isRequest).lookup name = (g.sideSetBools isRequest).lookup name

/-- Two filters are printed alike: with the same lines for the operations of each side, and the same
lines for its variables in any order. -/
structure PrintedAlike (f g : HttpHeaderRewriteFilter) : Prop where
  /-- The operations are printed in the same order. -/
  operationLines : ∀ isRequest, operationLines isRequest (f.headerProcessors isRequest) =
    operationLines isRequest (g.headerProcessors isRequest)
  /-- The variables are printed in some order. -/
  definitionLines : ∀ isRequest, (definitionLines isRequest (f.sideSetBools isRequest)).Perm
    (definitionLines isRequest (g.sideSetBools isRequest))

namespace Renderable

/-- Operations that are printed in the same way are the same. -/
theorem eq_of_operationLines {processors processors' : List HeaderProcessor}
    (h : ∀ p ∈ processors, ∃ declared,
      OperationLine E declared isRequest (p.lineTokens isRequest) p)
    (h' : ∀ p ∈ processors', ∃ declared,
      OperationLine E declared isRequest (p.lineTokens isRequest) p)
    (heq : operationLines isRequest processors = operationLines isRequest processors') :
    processors = processors' := by
  induction processors generalizing processors' with
  | nil => exact (List.map_eq_nil_iff.mp heq.symm).symm
  | cons p processors ih =>
    obtain ⟨p', rest, rfl, hp, hrest⟩ := List.map_eq_cons_iff.mp heq.symm
    rw [List.forall_mem_cons] at h h'
    obtain ⟨_, hline⟩ := h.1
    obtain ⟨_, hline'⟩ := h'.1
    rw [hp] at hline'
    rw [hline.unique hline', ih h.2 h'.2 hrest.symm]

/-- A variable whose definition is printed for both filters is one of both. -/
theorem mem_of_definitionLines (hf : Renderable E f) (hg : Renderable E g)
    (h : ∀ tokens ∈ definitionLines isRequest (f.sideSetBools isRequest),
      tokens ∈ definitionLines isRequest (g.sideSetBools isRequest))
    {b : Str × SetBoolProcessor} (hb : b ∈ f.sideSetBools isRequest) :
    b ∈ g.sideSetBools isRequest := by
  obtain ⟨b', hb', htokens⟩ := List.mem_map.mp
    (h _ (List.mem_map_of_mem (List.mem_reverse.mpr hb)))
  rw [List.mem_reverse] at hb'
  have hline := (hf.definition isRequest b hb).1
  have hline' := (hg.definition isRequest b' hb').1
  rw [htokens] at hline'
  obtain ⟨-, hname, hvariable⟩ := hline.unique hline'
  rwa [Prod.ext hname hvariable]

/-- Filters are printed alike exactly if they have the same members. -/
theorem printedAlike_iff (hf : Renderable E f) (hg : Renderable E g) :
    PrintedAlike f g ↔ SameMembers f g := by
  constructor
  · intro h
    refine ⟨hf.error.trans hg.error.symm, fun side => ?_, fun side name => ?_⟩
    · exact eq_of_operationLines (fun p hp => ⟨_, (hf.operation side p hp).1⟩)
        (fun p hp => ⟨_, (hg.operation side p hp).1⟩) (h.operationLines side)
    · have hperm := h.definitionLines side
      ext q
      rw [← mem_iff_lookup (hf.nodup side), ← mem_iff_lookup (hg.nodup side)]
      constructor
      · exact hf.mem_of_definitionLines hg fun _ => hperm.mem_iff.mp
      · exact hg.mem_of_definitionLines hf fun _ => hperm.mem_iff.mpr
  · intro h
    refine ⟨fun side => by rw [h.headerProcessors], fun side => ?_⟩
    have hperm : (f.sideSetBools side).Perm (g.sideSetBools side) := by
      apply (List.perm_ext_iff_of_nodup (List.Nodup.of_map _ (hf.nodup side))
        (List.Nodup.of_map _ (hg.nodup side))).mpr
      rintro ⟨name, q⟩
      rw [mem_iff_lookup (hf.nodup side), mem_iff_lookup (hg.nodup side), h.lookup]
    have hreverse := (List.reverse_perm _).trans (hperm.trans (List.reverse_perm _).symm)
    exact hreverse.map _

end Renderable

/-- The filter of an accepted configuration is constructed again from its printed form. Two accepted
configurations make the same operations and variables exactly if what they make is printed with the
same lines, those of the variables in any order. -/
theorem construct_render (hstrings : E.StringLaws) {config : Str}
    (hf : construct E config = .returned f) (herror : f.error = false) :
    construct E f.render = .returned f ∧
      ∀ config' g, construct E config' = .returned g → g.error = false →
        (PrintedAlike g f ↔ SameMembers g f) := by
  have hprinted := renderable_of_construct hstrings hf herror
  refine ⟨hprinted.construct_eq hstrings, fun config' g hg herror' => ?_⟩
  exact (renderable_of_construct hstrings hg herror').printedAlike_iff hprinted

/-- A configuration with a blank line, with two spaces in a row and with a definition between the
operations, and one with its definitions in the other order. -/
theorem construct_render_layout :
    ∃ f g, construct Reference.envoy ("http-response set-header  k v\n\n" ++
          "  http-request set-bool b %[hdr(x)] -m found\n" ++
          "http-request append-header k %[urlp(q)] w if not b\n" ++
          "http-request set-bool c %[hdr(y)] -m found").toList = .returned f ∧
      f.render = ("http-request set-bool b %[hdr(x)] -m found\n" ++
          "http-request set-bool c %[hdr(y)] -m found\n" ++
          "http-request append-header k %[urlp(q)] w if not b\n" ++
          "http-response set-header k v").toList ∧
      construct Reference.envoy f.render = .returned f ∧
      construct Reference.envoy ("http-request set-bool c %[hdr(y)] -m found\n" ++
          "http-request set-bool b %[hdr(x)] -m found\n" ++
          "http-request append-header k %[urlp(q)] w if not b\n" ++
          "http-response set-header k v").toList = .returned g ∧
      g ≠ f ∧ SameMembers g f := by
  let request := Processor.ofSide true
  let response := Processor.ofSide false
  let readX : SetBoolProcessor :=
    ⟨request, .found, ⟨request, .getHdr, "x".toList⟩, ⟨request, .static, []⟩⟩
  let readY : SetBoolProcessor :=
    ⟨request, .found, ⟨request, .getHdr, "y".toList⟩, ⟨request, .static, []⟩⟩
  let p : HeaderProcessor := .appendHeader ⟨request, ⟨request, .static, "k".toList⟩,
    [⟨request, .urlp, "q".toList⟩, ⟨request, .static, "w".toList⟩],
    some ⟨request, [], [("b".toList, true)]⟩⟩
  let q : HeaderProcessor :=
    .setHeader ⟨response, ⟨response, .static, "k".toList⟩, ⟨response, .static, "v".toList⟩, none⟩
  obtain ⟨f, hf, htest⟩ := Outcome.exists_of_returnsWith
    (show (construct Reference.envoy ("http-response set-header  k v\n\n" ++
        "  http-request set-bool b %[hdr(x)] -m found\n" ++
        "http-request append-header k %[urlp(q)] w if not b\n" ++
        "http-request set-bool c %[hdr(y)] -m found").toList).returnsWith
      (fun f => decide (f = ⟨false, [p], [q], [("c".toList, readY), ("b".toList, readX)], []⟩)) =
        true by decide +kernel)
  obtain ⟨g, hg, htest'⟩ := Outcome.exists_of_returnsWith
    (show (construct Reference.envoy ("http-request set-bool c %[hdr(y)] -m found\n" ++
        "http-request set-bool b %[hdr(x)] -m found\n" ++
        "http-request append-header k %[urlp(q)] w if not b\n" ++
        "http-response set-header k v").toList).returnsWith
      (fun g => decide (g = ⟨false, [p], [q], [("b".toList, readX), ("c".toList, readY)], []⟩)) =
        true by decide +kernel)
  obtain rfl := of_decide_eq_true htest
  obtain rfl := of_decide_eq_true htest'
  obtain ⟨hconstruct, hsame⟩ := construct_render Reference.stringLaws hf rfl
  refine ⟨_, _, hf, by decide +kernel, hconstruct, hg, by decide +kernel,
    (hsame _ _ hg rfl).mp ⟨fun _ => rfl, fun side => ?_⟩⟩
  cases side with
  | true => exact List.Perm.swap ..
  | false => exact .refl _

end HttpHeaderRewriteFilter

end HeaderRewrite
