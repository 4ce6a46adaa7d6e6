import Mathlib.Data.List.DropRight
import HeaderRewrite.Envoy.Reference
import HeaderRewrite.Execution.Operation

/-!
# The path after `set-path`

`set-path` puts the value of its operand before the query string of the old path. It keeps the query
string exactly if the value has no question mark.

## Main definitions

* `SetPathProcessor.pathPart`: the part of a path before its query string.

## Main results

* `SetPathProcessor.executeOperation_preserves_iff`: when the query string is kept.
-/

namespace HeaderRewrite.SetPathProcessor

open Cxx Utility

variable {M I : Type}

/-- The part of a path before the first question mark. -/
def pathPart (path : Str) : Str := path.takeWhile (· ≠ '?')

theorem queryString_eq_dropWhile (path : Str) :
    queryString path = path.dropWhile (· ≠ '?') := by
  unfold queryString findFirstOf
  induction path with
  | nil => rfl
  | cons c rest ih =>
    by_cases hc : c = '?'
    · simp [List.findIdx?_cons, hc]
    · rw [List.dropWhile_cons_of_pos (by simpa using hc), ← ih, List.findIdx?_cons,
        if_neg (by simpa using hc)]
      cases rest.findIdx? (· = '?') <;> rfl

/-- Text without a question mark does not belong to the query string. -/
theorem queryString_append {newPath : Str} (h : '?' ∉ newPath) (path : Str) :
    queryString (newPath ++ queryString path) = queryString path := by
  have hall : ∀ c ∈ newPath, decide (c ≠ '?') = true := fun c hc =>
    decide_eq_true fun heq => h (heq ▸ hc)
  simp only [queryString_eq_dropWhile]
  rw [List.dropWhile_append_of_pos hall, List.dropWhile_idempotent]

theorem pathPart_append {newPath : Str} (h : '?' ∉ newPath) (path : Str) :
    pathPart (newPath ++ queryString path) = newPath := by
  have hall : ∀ c ∈ newPath, decide (c ≠ '?') = true := fun c hc =>
    decide_eq_true fun heq => h (heq ▸ hc)
  rw [pathPart, List.takeWhile_append_of_pos hall, queryString_eq_dropWhile]
  have hnil : (path.dropWhile (· ≠ '?')).takeWhile (· ≠ '?') = [] := by
    induction path with
    | nil => rfl
    | cons c rest ih => by_cases hc : c = '?' <;> simp_all
  rw [hnil, List.append_nil]

/-- A path with a question mark in it ends earlier. -/
theorem pathPart_ne {newPath : Str} (h : '?' ∈ newPath) (path : Str) :
    pathPart (newPath ++ queryString path) ≠ newPath := by
  intro heq
  have hnot : '?' ∉ pathPart (newPath ++ queryString path) := fun hmem => by
    simpa using List.mem_takeWhile_imp hmem
  exact hnot (heq.symm ▸ h)

section Execution

variable {E : Envoy M I} {maps : SetBoolProcessorMaps} {p : SetPathProcessor}
  {st : StreamState M I}

/-- With a true condition and a value, the path is set to the value and the old query string. -/
theorem exists_executeOperation (hlaws : E.HeaderLaws)
    (hcondition : evaluateCondition (DynamicFunctionProcessor.executeOperation E) maps
      p.conditionProcessor st = .returned (.ok, true))
    (hside : st.headers.isRequestHeaderMap = true) {oldPath newPath : Str} {status : Status}
    (hold : E.pathEntry st.headers.map = some oldPath)
    (hvalue : DynamicFunctionProcessor.executeOperation E p.requestPath st.headers st.streamInfo =
      .returned (status, newPath)) :
    ∃ st', p.executeOperation E (DynamicFunctionProcessor.executeOperation E) maps st =
        .returned (.ok, st') ∧ st'.headers.isRequestHeaderMap = true ∧
      E.pathEntry st'.headers.map = some (newPath ++ queryString oldPath) := by
  have hpath : E.path st.headers.map = oldPath := by rw [hlaws.path_eq, hold]; rfl
  refine ⟨_, (executeOperation_of_returned hcondition hvalue).trans (if_pos hside), hside, ?_⟩
  rw [StreamState.withMap, pathEntry_setPath hlaws, hpath]

/-- Where the condition is true and the operand has a value, `set-path` makes this value the path
and keeps the query string exactly if the value has no question mark. Then query parameters are read
as before, and a second execution of a literal does not change the path, whatever its condition is
by then. -/
theorem executeOperation_preserves_iff (hlaws : E.HeaderLaws)
    (hquery : ∀ url url', queryString url = queryString url' →
      E.parseQueryString url = E.parseQueryString url')
    (hcondition : evaluateCondition (DynamicFunctionProcessor.executeOperation E) maps
      p.conditionProcessor st = .returned (.ok, true))
    (hside : st.headers.isRequestHeaderMap = true) {oldPath newPath : Str}
    (hold : E.pathEntry st.headers.map = some oldPath)
    (hvalue : DynamicFunctionProcessor.executeOperation E p.requestPath st.headers st.streamInfo =
      .returned (.ok, newPath)) :
    (∃ st' path, p.executeOperation E (DynamicFunctionProcessor.executeOperation E) maps st =
        .returned (.ok, st') ∧
      E.pathEntry st'.headers.map = some path ∧
      queryString path = queryString oldPath ∧ pathPart path = newPath ∧
      (∀ param, DynamicFunctionProcessor.getUrlp E st'.headers param =
        DynamicFunctionProcessor.getUrlp E st.headers param) ∧
      (p.requestPath.functionType = .static →
        (evaluateCondition (DynamicFunctionProcessor.executeOperation E) maps p.conditionProcessor
            st' = .returned (.ok, true) →
          ∃ st'', p.executeOperation E (DynamicFunctionProcessor.executeOperation E) maps st' =
            .returned (.ok, st'') ∧ E.pathEntry st''.headers.map = some path) ∧
        ∀ status st'', p.executeOperation E (DynamicFunctionProcessor.executeOperation E) maps st' =
          .returned (status, st'') → E.pathEntry st''.headers.map = some path)) ↔
      '?' ∉ newPath := by
  obtain ⟨st₁, hexecute, hside₁, hpath₁⟩ :=
    exists_executeOperation hlaws hcondition hside hold hvalue
  constructor
  · rintro ⟨st', path, hreturned, hpath, -, hpart, -⟩ hmem
    obtain ⟨-, rfl⟩ := Outcome.pair_inj (hexecute.symm.trans hreturned)
    obtain rfl := Option.some.inj (hpath₁.symm.trans hpath)
    exact pathPart_ne hmem oldPath hpart
  · intro hnot
    refine ⟨st₁, _, hexecute, hpath₁, queryString_append hnot oldPath, pathPart_append hnot oldPath,
      fun param => ?_, fun hstatic => ?_⟩
    · have hparameters : E.parseQueryString (newPath ++ queryString oldPath) =
          E.parseQueryString oldPath := hquery _ _ (queryString_append hnot oldPath)
      simp only [DynamicFunctionProcessor.getUrlp, hside, hside₁, hold, hpath₁, hparameters]
    · -- a literal has the same value again
      have hvalue₁ : DynamicFunctionProcessor.executeOperation E p.requestPath st₁.headers
          st₁.streamInfo = .returned (.ok, newPath) := by
        rw [DynamicFunctionProcessor.executeOperation_static hstatic] at hvalue ⊢
        exact hvalue
      have hagain : evaluateCondition (DynamicFunctionProcessor.executeOperation E) maps
            p.conditionProcessor st₁ = .returned (.ok, true) →
          ∃ st'', p.executeOperation E (DynamicFunctionProcessor.executeOperation E) maps st₁ =
            .returned (.ok, st'') ∧
              E.pathEntry st''.headers.map = some (newPath ++ queryString oldPath) := by
        intro hcondition₁
        obtain ⟨st₂, hexecute₂, -, hpath₂⟩ :=
          exists_executeOperation hlaws hcondition₁ hside₁ hpath₁ hvalue₁
        exact ⟨st₂, hexecute₂, by rw [hpath₂, queryString_append hnot]⟩
      refine ⟨hagain, fun status st₂ hexecute₂ => ?_⟩
      by_cases hcondition₁ : evaluateCondition (DynamicFunctionProcessor.executeOperation E) maps
        p.conditionProcessor st₁ = .returned (.ok, true)
      · obtain ⟨st₃, hexecute₃, hpath₃⟩ := hagain hcondition₁
        obtain ⟨-, rfl⟩ := Outcome.pair_inj (hexecute₃.symm.trans hexecute₂)
        exact hpath₃
      -- under a condition that is false or fails nothing is done
      · have hkept := HeaderProcessor.eq_of_condition_ne (p := .setPath p) hcondition₁ hexecute₂
        rw [hkept, hpath₁]

end Execution

/-- `set-path /new` on `/old?a=1`, once and a second time. -/
theorem executeOperation_preserves_reference :
    let side := Processor.ofSide true
    let p : SetPathProcessor := ⟨side, ⟨side, .static, "/new".toList⟩, none⟩
    let st : StreamState (List (Str × Str)) _ :=
      ⟨⟨true, [(":path".toList, "/old?a=1".toList)]⟩, none⟩
    ∃ st' st'' path, p.executeOperation Reference.envoy
        (DynamicFunctionProcessor.executeOperation Reference.envoy) (fun _ => []) st =
        .returned (.ok, st') ∧
      Reference.envoy.pathEntry st'.headers.map = some path ∧
      queryString path = "?a=1".toList ∧ pathPart path = "/new".toList ∧
      p.executeOperation Reference.envoy
        (DynamicFunctionProcessor.executeOperation Reference.envoy) (fun _ => []) st' =
        .returned (.ok, st'') ∧
      Reference.envoy.pathEntry st''.headers.map = some path := by
  intro side p st
  have hquery : ∀ url url', queryString url = queryString url' →
      Reference.envoy.parseQueryString url = Reference.envoy.parseQueryString url' := by
    intro url url' h
    rw [queryString_eq_dropWhile, queryString_eq_dropWhile] at h
    simp only [Reference.envoy, Reference.queryParameters, h]
  obtain ⟨st', path, hexecute, hpath, hkept, hpart, -, hsecond⟩ :=
    (@executeOperation_preserves_iff _ _ Reference.envoy (fun _ => []) p st Reference.headerLaws
      hquery rfl rfl "/old?a=1".toList "/new".toList rfl rfl).mpr (by decide)
  obtain ⟨st'', hexecute', hpath'⟩ := (hsecond rfl).1 rfl
  exact ⟨st', st'', path, hexecute, hpath, hkept, hpart, hexecute', hpath'⟩

/-- `set-path /new?b` on `/old?a=1`: the query string becomes `?b?a=1`. -/
theorem not_executeOperation_preserves_question_mark :
    let side := Processor.ofSide true
    let p : SetPathProcessor := ⟨side, ⟨side, .static, "/new?b".toList⟩, none⟩
    let st : StreamState (List (Str × Str)) _ :=
      ⟨⟨true, [(":path".toList, "/old?a=1".toList)]⟩, none⟩
    HttpHeaderRewriteFilter.Parsed Reference.envoy true (.setPath p) ∧
    ¬ ∃ st' path, p.executeOperation Reference.envoy
        (DynamicFunctionProcessor.executeOperation Reference.envoy) (fun _ => []) st =
        .returned (.ok, st') ∧
      Reference.envoy.pathEntry st'.headers.map = some path ∧
      queryString path = queryString "/old?a=1".toList ∧ pathPart path = "/new?b".toList := by
  intro side p st
  refine ⟨⟨fun _ => false, "set-path", ["/new?b"], by decide +kernel⟩, ?_⟩
  rintro ⟨st', path, hreturned, hpath, hkept, -⟩
  obtain ⟨st₁, hexecute, -, hpath₁⟩ := @exists_executeOperation _ _ Reference.envoy (fun _ => [])
    p st Reference.headerLaws rfl rfl "/old?a=1".toList "/new?b".toList .ok rfl rfl
  obtain ⟨-, rfl⟩ := Outcome.pair_inj (hexecute.symm.trans hreturned)
  obtain rfl := Option.some.inj (hpath₁.symm.trans hpath)
  exact absurd hkept (by decide +kernel)

end HeaderRewrite.SetPathProcessor
