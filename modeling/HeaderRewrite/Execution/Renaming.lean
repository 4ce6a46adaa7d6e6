import Mathlib.Data.List.Nodup
import HeaderRewrite.Construction.RoundTrip
import HeaderRewrite.Cxx.Completion
import HeaderRewrite.Execution.Safety
import HeaderRewrite.Execution.Sides

/-!
# Renaming variables

The names of boolean variables have no meaning of their own. Each side of an accepted filter can be
given other names: the filter with these names is constructed from its printed form, and does to
every request and response what it did before.

## Main definitions

* `HttpHeaderRewriteFilter.rename`: the filter with other names;
* `HttpHeaderRewriteFilter.Renaming`: the names that it can be given.

## Main results

* `HttpHeaderRewriteFilter.Renderable.rename`: the filter can be printed with the new names;
* `HeaderProcessor.executeOperation_rename`: its operations do what they did;
* `HttpHeaderRewriteFilter.construct_rename`: so does the filter that is constructed.
-/

namespace HeaderRewrite

open Cxx Utility

variable {M I : Type}

/-- A map of variables with other names. -/
def SetBoolProcessorMap.rename (ρ : Str → Str) (map : SetBoolProcessorMap) : SetBoolProcessorMap :=
  List.map (fun b => (ρ b.1, b.2)) map

/-- A variable is found under its new name if no other variable has that name. -/
theorem SetBoolProcessorMap.lookup_rename {ρ : Str → Str} {map : SetBoolProcessorMap} {name : Str}
    (h : ∀ b ∈ map, ρ b.1 = ρ name → b.1 = name) :
    (map.rename ρ).lookup (ρ name) = map.lookup name := by
  induction map with
  | nil => rfl
  | cons b map ih =>
    rw [List.forall_mem_cons] at h
    obtain ⟨hb, hrest⟩ := h
    rw [rename, List.map_cons, List.lookup_cons, List.lookup_cons, ← rename, ih hrest]
    by_cases hname : b.1 = name
    · simp [hname]
    · have hne : ρ name ≠ ρ b.1 := fun heq => hname (hb heq.symm)
      simp [beq_false_of_ne hne, beq_false_of_ne (Ne.symm hname)]

namespace ConditionProcessor

variable {eval : Evaluator M I} {maps maps' : SetBoolProcessorMaps} {ρ : Str → Str}

/-- A condition that looks up its variables under other names finds the same variables. -/
theorem executeOperation_rename {declared declared' : Str → Bool} {c : ConditionProcessor}
    (hwf : c.WellFormed declared) (hwf' : (c.rename ρ).WellFormed declared')
    (hlookup : ∀ d ∈ c.operands, (maps' c.boolProcessors).lookup (ρ d.1) =
      (maps c.boolProcessors).lookup d.1)
    (headers : RequestOrResponseHeaderMap M) (streamInfo : Option I) :
    (c.rename ρ).executeOperation eval maps' headers streamInfo =
      c.executeOperation eval maps headers streamInfo := by
  have hclauses : (c.rename ρ).clauses = c.clauses.map (·.map fun d => (ρ d.1, d.2)) :=
    clauses_map _ c.operators c.operands
  rw [executeOperation_eq hwf', executeOperation_eq hwf, hclauses, evalClauses_map]
  apply evalClauses_congr
  intro d hd
  rw [flatten_clauses hwf] at hd
  have hfound : (maps' (c.rename ρ).boolProcessors).lookup (ρ d.1) =
      (maps c.boolProcessors).lookup d.1 := hlookup d hd
  simp only [executeOperand, SetBoolProcessorMap.at, hfound]

end ConditionProcessor

namespace HeaderProcessor

variable {E : Envoy M I} {eval : Evaluator M I} {maps maps' : SetBoolProcessorMaps} {ρ : Str → Str}

@[simp] theorem conditionProcessor_rename (ρ : Str → Str) (p : HeaderProcessor) :
    (p.rename ρ).conditionProcessor = p.conditionProcessor.map (.rename ρ) := by
  cases p <;> rfl

@[simp] theorem operands_rename (ρ : Str → Str) (p : HeaderProcessor) :
    (p.rename ρ).operands = p.operands := by
  cases p <;> rfl

/-- An operation does what it did if the condition with the new names does. -/
theorem executeOperation_rename {p : HeaderProcessor}
    (hcondition : ∀ c, p.conditionProcessor = some c → ∀ headers streamInfo,
      (c.rename ρ).executeOperation eval maps' headers streamInfo =
        c.executeOperation eval maps headers streamInfo)
    (st : StreamState M I) :
    (p.rename ρ).executeOperation E eval maps' st = p.executeOperation E eval maps st := by
  have hguard : evaluateCondition eval maps' (p.conditionProcessor.map (.rename ρ)) st =
      evaluateCondition eval maps p.conditionProcessor st := by
    cases hc : p.conditionProcessor with
    | none => rfl
    | some c => simp only [Option.map_some, evaluateCondition, hcondition c hc]
  cases p with
  | setHeader p =>
    simp only [conditionProcessor] at hguard
    simp only [rename, executeOperation, SetHeaderProcessor.executeOperation, hguard]
  | appendHeader p =>
    simp only [conditionProcessor] at hguard
    simp only [rename, executeOperation, AppendHeaderProcessor.executeOperation, hguard]
  | setPath p =>
    simp only [conditionProcessor] at hguard
    simp only [rename, executeOperation, SetPathProcessor.executeOperation, hguard]
  | setDynamicMetadata p =>
    simp only [conditionProcessor] at hguard
    simp only [rename, executeOperation, SetDynamicMetadataProcessor.executeOperation, hguard]

end HeaderProcessor

namespace HttpHeaderRewriteFilter

/-- The filter with other names for the variables of each side. -/
def rename (ρ : Bool → Str → Str) (f : HttpHeaderRewriteFilter) : HttpHeaderRewriteFilter where
  error := f.error
  requestHeaderProcessors := f.requestHeaderProcessors.map (.rename (ρ true))
  responseHeaderProcessors := f.responseHeaderProcessors.map (.rename (ρ false))
  requestSetBoolProcessors := f.requestSetBoolProcessors.rename (ρ true)
  responseSetBoolProcessors := f.responseSetBoolProcessors.rename (ρ false)

/-- Names that the variables of a filter can be given. -/
structure Renaming (f : HttpHeaderRewriteFilter) (ρ : Bool → Str → Str) : Prop where
  /-- Different variables of a side have different names. -/
  injective : ∀ isRequest name name', f.scope isRequest name = true →
    f.scope isRequest name' = true → ρ isRequest name = ρ isRequest name' → name = name'
  /-- The names are words. -/
  word : ∀ isRequest name, f.scope isRequest name = true →
    ρ isRequest name ≠ [] ∧ ' ' ∉ ρ isRequest name ∧ '\n' ∉ ρ isRequest name ∧
      ∀ c ∈ (ρ isRequest name).getLast?, isSpace c = false
  /-- They are not keywords of conditions. -/
  not_isOperator : ∀ isRequest name, f.scope isRequest name = true →
    isOperator (stringToBooleanOperatorType (ρ isRequest name)) = false

section Rename

variable {E : Envoy M I} {f : HttpHeaderRewriteFilter} {ρ : Bool → Str → Str} {isRequest : Bool}

theorem headerProcessors_rename (ρ : Bool → Str → Str) (f : HttpHeaderRewriteFilter)
    (isRequest : Bool) :
    (f.rename ρ).headerProcessors isRequest =
      (f.headerProcessors isRequest).map (.rename (ρ isRequest)) := by
  cases isRequest <;> rfl

theorem sideSetBools_rename (ρ : Bool → Str → Str) (f : HttpHeaderRewriteFilter)
    (isRequest : Bool) :
    (f.rename ρ).sideSetBools isRequest = (f.sideSetBools isRequest).rename (ρ isRequest) := by
  cases isRequest <;> rfl

/-- The names of the map of a side are those that are declared. -/
theorem scope_of_mem {b : Str × SetBoolProcessor} (hb : b ∈ f.sideSetBools isRequest) :
    f.scope isRequest b.1 = true := by
  rw [scope, Option.isSome_iff_ne_none, ne_eq, List.lookup_eq_none_iff]
  intro hnone
  simpa using hnone b hb

namespace Renaming

/-- A variable is found under its new name. -/
theorem lookup_eq (h : Renaming f ρ) {name : Str} (hname : f.scope isRequest name = true) :
    ((f.rename ρ).sideSetBools isRequest).lookup (ρ isRequest name) =
      (f.sideSetBools isRequest).lookup name := by
  rw [sideSetBools_rename]
  exact SetBoolProcessorMap.lookup_rename fun b hb =>
    h.injective isRequest b.1 name (scope_of_mem hb) hname

theorem respells (h : Renaming f ρ) {name : Str} (hname : f.scope isRequest name = true) :
    Respells name (ρ isRequest name) := by
  obtain ⟨hne, hspace, hbreak, hlast⟩ := h.word isRequest name hname
  refine ⟨fun _ => hne, fun c hc heq => ?_, fun _ => hlast⟩
  rcases heq with rfl | rfl
  · exact (hspace hc).elim
  · exact (hbreak hc).elim

/-- The new names can be given to the declared variables. -/
theorem renames (h : Renaming f ρ) (isRequest : Bool) :
    Renames (f.scope isRequest) ((f.rename ρ).scope isRequest) (ρ isRequest) :=
  ⟨fun _ hname => by rwa [scope, h.lookup_eq hname], fun _ hname => h.respells hname,
    fun name hname _ => h.not_isOperator isRequest name hname⟩

end Renaming

/-- A filter that can be printed can be printed with the new names. -/
theorem Renderable.rename (hf : Renderable E f) (hstrings : E.StringLaws) (hρ : Renaming f ρ) :
    Renderable E (f.rename ρ) := by
  refine ⟨hf.error, fun side => ?_, fun side b hb => ?_, fun side p hp => ?_⟩
  · rw [sideSetBools_rename, SetBoolProcessorMap.rename, List.map_map]
    -- the names are those of the map, and these are different
    have hnames : (f.sideSetBools side).map (Prod.fst ∘ fun b => (ρ side b.1, b.2)) =
        ((f.sideSetBools side).map Prod.fst).map (ρ side) := by
      rw [List.map_map]
      rfl
    rw [hnames]
    refine List.Nodup.map_on (fun name hname name' hname' heq => ?_) (hf.nodup side)
    obtain ⟨b, hb, rfl⟩ := List.mem_map.mp hname
    obtain ⟨b', hb', rfl⟩ := List.mem_map.mp hname'
    exact hρ.injective side _ _ (scope_of_mem hb) (scope_of_mem hb') heq
  · rw [sideSetBools_rename] at hb
    obtain ⟨b', hb', rfl⟩ := List.mem_map.mp hb
    obtain ⟨hline, hwords⟩ := hf.definition side b' hb'
    obtain ⟨hline', hrespells⟩ := hline.lineTokens hstrings (hρ.respells (scope_of_mem hb'))
    exact ⟨hline', words_of_respells hrespells hwords⟩
  · rw [headerProcessors_rename] at hp
    obtain ⟨p', hp', rfl⟩ := List.mem_map.mp hp
    obtain ⟨hline, hwords⟩ := hf.operation side p' hp'
    obtain ⟨hline', hrespells⟩ := hline.lineTokens hstrings (hρ.renames side)
    exact ⟨hline', words_of_respells hrespells hwords⟩

/-- An accepted filter whose variables are given other names is constructed from its printed form,
and does to every request and response what the filter with the old names does. -/
theorem construct_rename (hstrings : E.StringLaws) {config : Str}
    (hf : construct E config = .returned f) (herror : f.error = false) (hρ : Renaming f ρ) :
    construct E (f.rename ρ).render = .returned (f.rename ρ) ∧
      ∀ isRequest headers streamInfo,
        executeHeaders E (DynamicFunctionProcessor.executeOperation E) (f.rename ρ) isRequest
            headers streamInfo =
          executeHeaders E (DynamicFunctionProcessor.executeOperation E) f isRequest headers
            streamInfo := by
  have hrenderable := (renderable_of_construct hstrings hf herror).rename hstrings hρ
  have hconstruct := hrenderable.construct_eq hstrings
  refine ⟨hconstruct, fun isRequest headers streamInfo => ?_⟩
  have hwf : SideWellFormed E f isRequest := sideWellFormed_of_processLines hf
  have hwf' : SideWellFormed E (f.rename ρ) isRequest := sideWellFormed_of_processLines hconstruct
  rw [executeHeaders_of_accepted hrenderable.error, executeHeaders_of_accepted herror,
    headerProcessors_rename, run_map]
  refine run_congr (fun p hp st => ?_) _
  refine HeaderProcessor.executeOperation_rename (fun c hc headers streamInfo => ?_) st
  obtain ⟨hprocessor, hcwf⟩ := hwf.condition p hp c hc
  have hpointer : c.boolProcessors = (Processor.ofSide isRequest).boolProcessors :=
    congrArg Processor.boolProcessors hprocessor
  have hp' : p.rename (ρ isRequest) ∈ (f.rename ρ).headerProcessors isRequest := by
    rw [headerProcessors_rename]
    exact List.mem_map_of_mem hp
  have hcwf' := (hwf'.condition _ hp' (c.rename (ρ isRequest)) (by simp [hc])).2
  refine ConditionProcessor.executeOperation_rename hcwf hcwf' (fun d hd => ?_) headers streamInfo
  rw [hpointer]
  exact hρ.lookup_eq (hcwf.declared d hd)

/-- Two variables that exchange their names. -/
theorem construct_rename_exchange :
    ∃ f g, construct Reference.envoy ("http-request set-bool a %[hdr(x)] -m found\n" ++
          "http-request set-bool b %[hdr(y)] -m found\n" ++
          "http-request set-header k v if a and not b").toList = .returned f ∧
      construct Reference.envoy ("http-request set-bool b %[hdr(x)] -m found\n" ++
          "http-request set-bool a %[hdr(y)] -m found\n" ++
          "http-request set-header k v if b and not a").toList = .returned g ∧
      executeHeaders Reference.envoy (DynamicFunctionProcessor.executeOperation Reference.envoy)
          g true [("x".toList, "1".toList)] [] =
        executeHeaders Reference.envoy (DynamicFunctionProcessor.executeOperation Reference.envoy)
          f true [("x".toList, "1".toList)] [] := by
  let exchange : Bool → Str → Str := fun _ name =>
    if name = "a".toList then "b".toList else if name = "b".toList then "a".toList else name
  obtain ⟨f, hf, htest⟩ := Outcome.exists_of_returnsWith
    (show (construct Reference.envoy ("http-request set-bool a %[hdr(x)] -m found\n" ++
        "http-request set-bool b %[hdr(y)] -m found\n" ++
        "http-request set-header k v if a and not b").toList).returnsWith
      (fun f => decide (f.error = false ∧
        (f.sideSetBools true).map Prod.fst = ["b".toList, "a".toList] ∧
        f.sideSetBools false = [] ∧
        (f.rename exchange).render = ("http-request set-bool b %[hdr(x)] -m found\n" ++
          "http-request set-bool a %[hdr(y)] -m found\n" ++
          "http-request set-header k v if b and not a").toList)) = true by
      decide +kernel)
  obtain ⟨herror, hrequest, hresponse, hrender⟩ := of_decide_eq_true htest
  have hnames : ∀ isRequest name, f.scope isRequest name = true →
      name = "a".toList ∨ name = "b".toList := by
    intro isRequest name hname
    rw [scope, Option.isSome_iff_exists] at hname
    obtain ⟨q, hq⟩ := hname
    have hmem := List.mem_map_of_mem (f := Prod.fst) (mem_of_lookup hq)
    cases isRequest with
    | true =>
      rw [hrequest] at hmem
      simpa [or_comm] using hmem
    | false =>
      rw [hresponse] at hmem
      cases hmem
  have hrenaming : Renaming f exchange := by
    refine ⟨fun side name name' hname hname' => ?_, fun side name hname => ?_,
      fun side name hname => ?_⟩
    · rcases hnames side name hname with rfl | rfl <;>
        rcases hnames side name' hname' with rfl | rfl <;> decide
    · rcases hnames side name hname with rfl | rfl <;>
        refine ⟨by decide, by decide, by decide, fun c hc => ?_⟩ <;>
        obtain rfl := Option.some.inj hc <;>
        rfl
    · rcases hnames side name hname with rfl | rfl <;> decide
  obtain ⟨hconstruct, hexecute⟩ := construct_rename Reference.stringLaws hf herror hrenaming
  rw [hrender] at hconstruct
  exact ⟨f, f.rename exchange, hf, hconstruct, hexecute true [("x".toList, "1".toList)] []⟩

end Rename

end HttpHeaderRewriteFilter

end HeaderRewrite
