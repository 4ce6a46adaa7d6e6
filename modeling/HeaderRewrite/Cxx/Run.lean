import Mathlib.Data.Nat.Notation
import HeaderRewrite.Cxx.Outcome

/-!
# Runs that stop at the first failure

A list of items is executed in order on a state. Each step ends in an `Outcome` of a verdict and
the next state, and the run goes on only after a good verdict: it stops at the first bad one and
keeps the state reached there. An exception or undefined behavior of a step is that of the run.

## Main definitions

* `run`: the run itself;
* `attempts`: the items the run starts, each with the state it is started in;
* `Completed`, `journal`: the steps that returned, with their states and verdicts;
* `stateAfter`: the state after the first `n` completed steps.

## Main results

* `returns_run_iff`: a run returns exactly when every attempted step does;
* `attempts_invariant`, `stateAfter_invariant`: what every step preserves holds in every state of
  the run;
* `run_congr`: a run depends on its steps only;
* `run_grows_iff`: what steps bring about and never undo;
* `view_stateAfter`: a view of the state follows a run if it follows its steps;
* `view_lastWritten`: a cell that steps overwrite holds what was written last.
-/

namespace Cxx

variable {ι σ ρ : Type}

/-- Execute the items in order. Stop after the first verdict that is not good, in the state that
step left. -/
def run (step : ι → σ → Outcome (ρ × σ)) (good : ρ → Bool) : List ι → σ → Outcome σ
  | [], s => .returned s
  | i :: is, s =>
    match step i s with
    | .returned (r, s') => if good r then run step good is s' else .returned s'
    | .threw e => .threw e
    | .undefined u => .undefined u

/-- The items that the run starts, each with the state it is started in. -/
def attempts (step : ι → σ → Outcome (ρ × σ)) (good : ρ → Bool) : List ι → σ → List (ι × σ)
  | [], _ => []
  | i :: is, s =>
    (i, s) ::
      match step i s with
      | .returned (r, s') => if good r then attempts step good is s' else []
      | _ => []

/-- A step that returned: its item, the states around it and its verdict. -/
structure Completed (ι σ ρ : Type) where
  /-- The item executed. -/
  item : ι
  /-- The state it was started in. -/
  before : σ
  /-- The verdict it returned. -/
  verdict : ρ
  /-- The state it left. -/
  after : σ

/-- The steps of the run that returned, in order. -/
def journal (step : ι → σ → Outcome (ρ × σ)) (good : ρ → Bool) :
    List ι → σ → List (Completed ι σ ρ)
  | [], _ => []
  | i :: is, s =>
    match step i s with
    | .returned (r, s') => ⟨i, s, r, s'⟩ :: if good r then journal step good is s' else []
    | _ => []

/-- The state after the completed steps `js` of a run started in `s`. -/
def stateAfter (s : σ) (js : List (Completed ι σ ρ)) : σ := (js.getLast?.map (·.after)).getD s

@[simp] theorem stateAfter_nil (s : σ) : stateAfter s ([] : List (Completed ι σ ρ)) = s := rfl

@[simp] theorem stateAfter_cons (s : σ) (j : Completed ι σ ρ) (js : List (Completed ι σ ρ)) :
    stateAfter s (j :: js) = stateAfter j.after js := by
  cases js with
  | nil => rfl
  | cons k ks => simp [stateAfter, List.getLast?_cons]

section Rules

variable {step step' : ι → σ → Outcome (ρ × σ)} {good : ρ → Bool}

@[simp] theorem run_nil (s : σ) : run step good [] s = .returned s := rfl

/-- A step that returns a bad verdict ends the run. -/
theorem run_cons_of_bad {i : ι} {is : List ι} {s s' : σ} {r : ρ}
    (hstep : step i s = .returned (r, s')) (hbad : good r = false) :
    run step good (i :: is) s = .returned s' := by
  simp [run, hstep, hbad]

/-- A run returns exactly when every step it attempts does. -/
theorem returns_run_iff (items : List ι) (s : σ) :
    (run step good items s).Returns ↔
      ∀ a ∈ attempts step good items s, (step a.1 a.2).Returns := by
  induction items generalizing s with
  | nil => simp [run, attempts, Outcome.Returns]
  | cons i is ih =>
    simp only [run, attempts, List.mem_cons, forall_eq_or_imp]
    cases hstep : step i s with
    | returned out =>
      by_cases hgood : good out.1 = true
      · simpa [hgood, Outcome.Returns] using ih out.2
      · simp [hgood, Outcome.Returns]
    | threw e => simp [Outcome.Returns]
    | undefined u => simp [Outcome.Returns]

/-- An exception leaves a run exactly when it leaves a step the run attempts. -/
theorem run_eq_threw_iff (items : List ι) (s : σ) (e : Exception) :
    run step good items s = .threw e ↔
      ∃ a ∈ attempts step good items s, step a.1 a.2 = .threw e := by
  induction items generalizing s with
  | nil => simp [run, attempts]
  | cons i is ih =>
    simp only [run, attempts, List.mem_cons, exists_eq_or_imp]
    cases hstep : step i s with
    | returned out =>
      by_cases hgood : good out.1 = true
      · simpa [hgood] using ih out.2
      · simp [hgood]
    | threw e' => simp
    | undefined u => simp

/-- A run is undefined exactly where a step it attempts is. -/
theorem run_eq_undefined_iff (items : List ι) (s : σ) (u : UndefinedBehavior) :
    run step good items s = .undefined u ↔
      ∃ a ∈ attempts step good items s, step a.1 a.2 = .undefined u := by
  induction items generalizing s with
  | nil => simp [run, attempts]
  | cons i is ih =>
    simp only [run, attempts, List.mem_cons, exists_eq_or_imp]
    cases hstep : step i s with
    | returned out =>
      by_cases hgood : good out.1 = true
      · simpa [hgood] using ih out.2
      · simp [hgood]
    | threw e => simp
    | undefined u' => simp

/-- The only item of a run is attempted in the initial state. -/
theorem attempts_singleton (i : ι) (s : σ) : attempts step good [i] s = [(i, s)] := by
  rw [attempts]
  cases step i s with
  | returned out => simp [attempts]
  | threw e => rfl
  | undefined u => rfl

/-- A run only attempts items it was given. -/
theorem mem_of_mem_attempts {items : List ι} {s : σ} {a : ι × σ}
    (ha : a ∈ attempts step good items s) : a.1 ∈ items := by
  induction items generalizing s with
  | nil => simp [attempts] at ha
  | cons i is ih =>
    simp only [attempts, List.mem_cons] at ha
    rcases ha with rfl | ha
    · exact List.mem_cons_self
    · cases hstep : step i s with
      | returned out =>
        by_cases hgood : good out.1 = true
        · simp only [hstep, hgood, if_true] at ha
          exact List.mem_cons_of_mem _ (ih ha)
        · simp [hstep, hgood] at ha
      | threw e => simp [hstep] at ha
      | undefined u => simp [hstep] at ha

/-- What every step preserves holds in every state in which the run starts a step. -/
theorem attempts_invariant {P : σ → Prop} {items : List ι} {s : σ} (hs : P s)
    (hstep : ∀ i ∈ items, ∀ s r s', P s → step i s = .returned (r, s') → P s') :
    ∀ a ∈ attempts step good items s, P a.2 := by
  induction items generalizing s with
  | nil => simp [attempts]
  | cons i is ih =>
    intro a ha
    simp only [attempts, List.mem_cons] at ha
    rcases ha with rfl | ha
    -- the first item is started in the initial state
    · exact hs
    · cases hi : step i s with
      | returned out =>
        -- the others in a run from the state the first step leaves
        have hout : P out.2 := hstep i List.mem_cons_self s out.1 out.2 hs hi
        by_cases hgood : good out.1 = true
        · simp only [hi, hgood, if_true] at ha
          exact ih hout (fun j hj => hstep j (List.mem_cons_of_mem _ hj)) a ha
        · simp [hi, hgood] at ha
      | threw e => simp [hi] at ha
      | undefined u => simp [hi] at ha

/-- Two runs whose steps agree on every item agree. -/
theorem run_congr {items : List ι} (h : ∀ i ∈ items, ∀ s, step i s = step' i s) (s : σ) :
    run step good items s = run step' good items s := by
  induction items generalizing s with
  | nil => rfl
  | cons i is ih =>
    have hrest := ih fun j hj => h j (List.mem_cons_of_mem _ hj)
    simp only [run, h i List.mem_cons_self s, hrest]

/-- A run that returns leaves the state after all its completed steps. -/
theorem run_eq_stateAfter {items : List ι} {s s' : σ} (h : run step good items s = .returned s') :
    stateAfter s (journal step good items s) = s' := by
  induction items generalizing s with
  | nil => simpa [run, journal] using h
  | cons i is ih =>
    cases hi : step i s with
    | returned out =>
      by_cases hgood : good out.1 = true
      · simp only [run, hi, hgood, if_true] at h
        simpa [journal, hi, hgood] using ih h
      · simpa [run, journal, hi, hgood] using h
    | threw e => simp [run, hi] at h
    | undefined u => simp [run, hi] at h

/-- Every journal entry is a step of the run. -/
theorem step_of_mem_journal {items : List ι} {s : σ} {j : Completed ι σ ρ}
    (hj : j ∈ journal step good items s) :
    j.item ∈ items ∧ step j.item j.before = .returned (j.verdict, j.after) := by
  induction items generalizing s with
  | nil => simp [journal] at hj
  | cons i is ih =>
    cases hi : step i s with
    | returned out =>
      simp only [journal, hi, List.mem_cons] at hj
      rcases hj with rfl | hj
      · exact ⟨List.mem_cons_self, hi⟩
      · by_cases hgood : good out.1 = true
        · simp only [hgood, if_true] at hj
          exact ⟨List.mem_cons_of_mem _ (ih hj).1, (ih hj).2⟩
        · simp [hgood] at hj
    | threw e => simp [journal, hi] at hj
    | undefined u => simp [journal, hi] at hj

/-- What every step preserves holds after any number of completed steps. -/
theorem stateAfter_invariant {P : σ → Prop} {items : List ι} {s : σ} (hs : P s)
    (hstep : ∀ i ∈ items, ∀ s r s', P s → step i s = .returned (r, s') → P s') (n : ℕ) :
    P (stateAfter s ((journal step good items s).take n)) := by
  induction items generalizing s n with
  | nil => simpa [journal] using hs
  | cons i is ih =>
    cases n with
    | zero => simpa using hs
    | succ n =>
      cases hi : step i s with
      | returned out =>
        -- the first step is completed whatever its verdict; only then does the verdict end the
        -- run
        have hout : P out.2 := hstep i List.mem_cons_self s out.1 out.2 hs hi
        simp only [journal, hi, List.take_succ_cons, stateAfter_cons]
        by_cases hgood : good out.1 = true
        · simpa [hgood] using ih hout (fun j hj => hstep j (List.mem_cons_of_mem _ hj)) n
        · simpa [hgood] using hout
      | threw e => simpa [journal, hi] using hs
      | undefined u => simpa [journal, hi] using hs

/-- What every step preserves holds at the end of a run. -/
theorem run_invariant {P : σ → Prop} {items : List ι} {s s' : σ} (hs : P s)
    (hstep : ∀ i ∈ items, ∀ s r s', P s → step i s = .returned (r, s') → P s')
    (h : run step good items s = .returned s') : P s' := by
  have hend := @stateAfter_invariant _ _ _ step good _ _ _ hs hstep
    (journal step good items s).length
  rwa [List.take_length, run_eq_stateAfter h] at hend

/-- Every attempted step is started in the state after some number of completed steps. -/
theorem exists_stateAfter_of_mem_attempts {items : List ι} {s : σ} {a : ι × σ}
    (ha : a ∈ attempts step good items s) :
    ∃ n, a.2 = stateAfter s ((journal step good items s).take n) := by
  induction items generalizing s with
  | nil => simp [attempts] at ha
  | cons i is ih =>
    simp only [attempts, List.mem_cons] at ha
    rcases ha with rfl | ha
    · exact ⟨0, by simp⟩
    · cases hi : step i s with
      | returned out =>
        by_cases hgood : good out.1 = true
        · simp only [hi, hgood, if_true] at ha
          obtain ⟨n, hn⟩ := ih ha
          exact ⟨n + 1, by simpa [journal, hi, hgood] using hn⟩
        · simp [hi, hgood] at ha
      | threw e => simp [hi] at ha
      | undefined u => simp [hi] at ha

/-- If after each step a property holds exactly where it held before or where the step brings it
about, at the end of a run it holds exactly if it held at the start or an attempted step brought it
about. -/
theorem run_grows_iff {P : σ → Prop} {brings : ι → σ → Prop} {items : List ι} {s s' : σ}
    (hstep : ∀ i ∈ items, ∀ s r s', step i s = .returned (r, s') → (P s' ↔ P s ∨ brings i s))
    (h : run step good items s = .returned s') :
    P s' ↔ P s ∨ ∃ a ∈ attempts step good items s, brings a.1 a.2 := by
  induction items generalizing s with
  | nil =>
    obtain rfl : s = s' := by simpa using h
    simp [attempts]
  | cons i is ih =>
    cases hi : step i s with
    | returned out =>
      have hfirst := hstep i List.mem_cons_self s out.1 out.2 hi
      simp only [attempts, hi, List.mem_cons, exists_eq_or_imp]
      by_cases hgood : good out.1 = true
      · simp only [run, hi, hgood, if_true] at h
        rw [ih (fun j hj => hstep j (List.mem_cons_of_mem _ hj)) h, hfirst, or_assoc, if_pos hgood]
      -- a bad verdict: the first attempt is the only one
      · obtain rfl : out.2 = s' := by simpa [run, hi, hgood] using h
        simp [hfirst, hgood]
    | threw e => simp [run, hi] at h
    | undefined u => simp [run, hi] at h

/-- If the view of the state after each step is an update of the view before it, the view at any
point of the run is the fold of the updates up to there. -/
theorem view_stateAfter {ν : Type} (view : σ → ν) (update : ν → Completed ι σ ρ → ν)
    {items : List ι}
    (hview : ∀ j : Completed ι σ ρ, j.item ∈ items →
      step j.item j.before = .returned (j.verdict, j.after) →
      view j.after = update (view j.before) j)
    (s : σ) (n : ℕ) :
    view (stateAfter s ((journal step good items s).take n)) =
      ((journal step good items s).take n).foldl update (view s) := by
  induction items generalizing s n with
  | nil => simp [journal]
  | cons i is ih =>
    cases n with
    | zero => simp
    | succ n =>
      cases hi : step i s with
      | returned out =>
        -- the first update gives the view that the rest of the fold starts from
        have hfirst := hview ⟨i, s, out.1, out.2⟩ List.mem_cons_self hi
        simp only [journal, hi, List.take_succ_cons, stateAfter_cons, List.foldl_cons, ← hfirst]
        by_cases hgood : good out.1 = true
        · simpa [hgood] using
            ih (fun j hj => hview j (List.mem_cons_of_mem _ hj)) out.2 n
        · simp [hgood]
      | threw e => simp [journal, hi]
      | undefined u => simp [journal, hi]

/-- The last of the values that the elements of a list write into a cell. -/
theorem foldl_getD_eq {α ν : Type} (written : α → Option ν) (as : List α) (x : ν) :
    as.foldl (fun x a => (written a).getD x) x = ((as.filterMap written).getLast?).getD x := by
  induction as generalizing x with
  | nil => rfl
  | cons a as ih =>
    rw [List.foldl_cons, ih]
    cases hwritten : written a with
    | none => rw [List.filterMap_cons_none hwritten, Option.getD_none]
    | some v => simp [List.filterMap_cons_some hwritten, List.getLast?_cons]

/-- If each step leaves a cell as it is or overwrites it, the cell holds at any point of the run
what was written last, or else what it held at the start. -/
theorem view_lastWritten {ν : Type} (view : σ → ν) (written : Completed ι σ ρ → Option ν)
    {items : List ι}
    (hview : ∀ j : Completed ι σ ρ, j.item ∈ items →
      step j.item j.before = .returned (j.verdict, j.after) →
      view j.after = (written j).getD (view j.before))
    (s : σ) (n : ℕ) :
    let completed := (journal step good items s).take n
    view (stateAfter s completed) = ((completed.filterMap written).getLast?).getD (view s) :=
  (view_stateAfter view (fun x j => (written j).getD x) hview s n).trans (foldl_getD_eq ..)

end Rules

end Cxx
