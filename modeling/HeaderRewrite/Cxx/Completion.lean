import HeaderRewrite.Cxx.Run

/-!
# Runs that are not cut short

`run` ends after the first bad verdict. A run completes if every one of its steps returns a good
verdict, so that it goes through all its items. Completed runs compose: the run on two lists of
items, one after the other, is a run on the second from where the run on the first completes, and
otherwise the run on the first alone.

Where only some steps commute, the order of a list of items is known up to swaps of neighbors that
do. `Reorders` is the relation between two such orders.

## Main definitions

* `Completes`: the run goes through all its items;
* `badVerdict`: the verdict that ends the run otherwise;
* `Expands`: items that stand for one item;
* `Reorders`: the same items in another order.

## Main results

* `Completes.run_append`, `run_append_of_not_completes`: the run on two lists of items;
* `run_append_cases`: the two of them as one case distinction;
* `exists_completes_iff`: a run completes exactly if every attempted step has a good verdict;
* `badVerdict_eq_none_iff`, `exists_of_badVerdict`: which verdicts end a run;
* `completes_append_iff`: completing both parts;
* `run_flatMap`: a run with items expanded.
-/

namespace Cxx

variable {ι σ ρ : Type}

/-- Every item is executed with a good verdict, from the first state to the last. -/
inductive Completes (step : ι → σ → Outcome (ρ × σ)) (good : ρ → Bool) : List ι → σ → σ → Prop
  | nil {s : σ} : Completes step good [] s s
  | cons {i : ι} {is : List ι} {s s' t : σ} {r : ρ} :
      step i s = .returned (r, s') → good r = true → Completes step good is s' t →
      Completes step good (i :: is) s t

/-- The bad verdict that ends the run, if there is one. -/
def badVerdict (step : ι → σ → Outcome (ρ × σ)) (good : ρ → Bool) : List ι → σ → Option ρ
  | [], _ => none
  | i :: is, s =>
    match step i s with
    | .returned (r, s') => if good r then badVerdict step good is s' else some r
    | _ => none

section Rules

variable {step : ι → σ → Outcome (ρ × σ)} {good : ρ → Bool} {items items' : List ι} {s t : σ}

/-- A run that completes returns the last state. -/
theorem Completes.run_eq (h : Completes step good items s t) :
    run step good items s = .returned t := by
  induction h with
  | nil => rfl
  | cons hstep hgood _ ih => simp only [run, hstep, hgood, if_true, ih]

/-- A run that completes does so with any steps that agree on its items. -/
theorem Completes.congr {step' : ι → σ → Outcome (ρ × σ)} (h : Completes step good items s t)
    (hstep : ∀ i ∈ items, ∀ s, step i s = step' i s) : Completes step' good items s t := by
  induction h with
  | nil => exact .nil
  | cons hfirst hgood _ ih =>
    rw [hstep _ List.mem_cons_self] at hfirst
    exact .cons hfirst hgood (ih fun j hj => hstep j (List.mem_cons_of_mem _ hj))

/-- A run completes where it started if every item does nothing there. -/
theorem Completes.skip (h : ∀ i ∈ items, ∃ r, step i s = .returned (r, s) ∧ good r = true) :
    Completes step good items s s := by
  induction items with
  | nil => exact .nil
  | cons i items ih =>
    rw [List.forall_mem_cons] at h
    obtain ⟨⟨r, hstep, hgood⟩, hrest⟩ := h
    exact .cons hstep hgood (ih hrest)

/-- The items after a completed run are executed from where it ended. -/
theorem Completes.run_append (h : Completes step good items s t) (rest : List ι) :
    run step good (items ++ rest) s = run step good rest t := by
  induction h with
  | nil => rfl
  | cons hstep hgood _ ih => simp only [List.cons_append, run, hstep, hgood, if_true, ih]

/-- The items after a run that does not complete are not executed. -/
theorem run_append_of_not_completes (h : ∀ t, ¬ Completes step good items s t) (rest : List ι) :
    run step good (items ++ rest) s = run step good items s := by
  induction items generalizing s with
  | nil => exact (h s .nil).elim
  | cons i items ih =>
    simp only [List.cons_append, run]
    cases hstep : step i s with
    | returned out =>
      by_cases hgood : good out.1 = true
      · simp only [hgood, if_true]
        exact ih fun t ht => h t (.cons hstep hgood ht)
      · simp only [hgood]
        rfl
    | threw e => rfl
    | undefined u => rfl

/-- The run on two lists is the run on the second from where the first completes, or the run on
the first if it does not complete. -/
theorem run_append_cases (step : ι → σ → Outcome (ρ × σ)) (good : ρ → Bool)
    (items rest : List ι) (s : σ) :
    (∃ t, Completes step good items s t ∧
        run step good (items ++ rest) s = run step good rest t) ∨
      (∀ t, ¬ Completes step good items s t) ∧
        run step good (items ++ rest) s = run step good items s := by
  by_cases h : ∃ t, Completes step good items s t
  · obtain ⟨t, ht⟩ := h
    exact Or.inl ⟨t, ht, ht.run_append rest⟩
  · have hnot : ∀ t, ¬ Completes step good items s t := fun t ht => h ⟨t, ht⟩
    exact Or.inr ⟨hnot, run_append_of_not_completes hnot rest⟩

/-- A run on items that are mapped is one through the map. -/
theorem run_map {κ : Type} (g : κ → ι) (items : List κ) (s : σ) :
    run step good (items.map g) s = run (fun k => step (g k)) good items s := by
  induction items generalizing s with
  | nil => rfl
  | cons k items ih => simp only [List.map_cons, run, ih]

theorem Completes.append {u : σ} (h : Completes step good items s t)
    (h' : Completes step good items' t u) : Completes step good (items ++ items') s u := by
  induction h with
  | nil => exact h'
  | cons hstep hgood _ ih => exact .cons hstep hgood (ih h')

/-- Two lists complete one after the other exactly if the first does and then the second. -/
theorem completes_append_iff {u : σ} :
    Completes step good (items ++ items') s u ↔
      ∃ t, Completes step good items s t ∧ Completes step good items' t u := by
  constructor
  · intro h
    induction items generalizing s with
    | nil => exact ⟨s, .nil, h⟩
    | cons i items ih =>
      obtain _ | ⟨hstep, hgood, hrest⟩ := h
      obtain ⟨t, ht, hu⟩ := ih hrest
      exact ⟨t, .cons hstep hgood ht, hu⟩
  · rintro ⟨t, ht, hu⟩
    exact ht.append hu

/-- A run completes exactly if every step it attempts returns a good verdict. -/
theorem exists_completes_iff : (∃ t, Completes step good items s t) ↔
    ∀ a ∈ attempts step good items s, ∃ r s', step a.1 a.2 = .returned (r, s') ∧ good r = true := by
  induction items generalizing s with
  | nil => exact iff_of_true ⟨s, .nil⟩ fun a ha => (List.not_mem_nil ha).elim
  | cons i items ih =>
    rw [attempts, List.forall_mem_cons]
    constructor
    · rintro ⟨t, hcompletes⟩
      obtain _ | ⟨hstep, hgood, hrest⟩ := hcompletes
      refine ⟨⟨_, _, hstep, hgood⟩, ?_⟩
      simp only [hstep, hgood, if_true]
      exact ih.mp ⟨t, hrest⟩
    · rintro ⟨⟨r, s', hstep, hgood⟩, hrest⟩
      simp only [hstep, hgood, if_true] at hrest
      obtain ⟨t, ht⟩ := ih.mpr hrest
      exact ⟨t, .cons hstep hgood ht⟩

/-- A run that returns has completed exactly if no bad verdict has ended it. -/
theorem badVerdict_eq_none_iff (h : run step good items s = .returned t) :
    badVerdict step good items s = none ↔ Completes step good items s t := by
  induction items generalizing s with
  | nil =>
    obtain rfl : s = t := Outcome.returned.inj h
    exact ⟨fun _ => .nil, fun _ => rfl⟩
  | cons i items ih =>
    rw [run] at h
    cases hi : step i s with
    | returned out =>
      rw [hi] at h
      dsimp only at h
      rw [badVerdict, hi]
      by_cases hgood : good out.1 = true
      · rw [if_pos hgood] at h
        dsimp only
        rw [if_pos hgood, ih h]
        refine ⟨fun hrest => .cons hi hgood hrest, fun hrest => ?_⟩
        obtain _ | ⟨hi', -, hrest⟩ := hrest
        rw [hi] at hi'
        obtain rfl := Outcome.returned.inj hi'
        exact hrest
      · dsimp only
        rw [if_neg hgood]
        refine ⟨fun hnone => ?_, fun hrest => ?_⟩
        · cases hnone
        · obtain _ | ⟨hi', hgood', -⟩ := hrest
          rw [hi] at hi'
          obtain rfl := Outcome.returned.inj hi'
          exact (hgood hgood').elim
    | threw e =>
      rw [hi] at h
      cases h
    | undefined u =>
      rw [hi] at h
      cases h

/-- A bad verdict that ends a run is that of a step of the run. -/
theorem exists_of_badVerdict {r : ρ} (h : badVerdict step good items s = some r) :
    good r = false ∧ ∃ a ∈ attempts step good items s, ∃ s', step a.1 a.2 = .returned (r, s') := by
  induction items generalizing s with
  | nil => cases h
  | cons i items ih =>
    rw [badVerdict] at h
    cases hi : step i s with
    | returned out =>
      rw [hi] at h
      dsimp only at h
      split at h
      · next hgood =>
        obtain ⟨hbad, a, ha, hstep⟩ := ih h
        refine ⟨hbad, a, ?_, hstep⟩
        simp only [attempts, hi, hgood, if_true]
        exact List.mem_cons_of_mem _ ha
      · next hbad =>
        obtain rfl := Option.some.inj h
        exact ⟨Bool.eq_false_iff.mpr hbad, (i, s), List.mem_cons_self, out.2, hi⟩
    | threw e =>
      rw [hi] at h
      cases h
    | undefined u =>
      rw [hi] at h
      cases h

/-- Items that can be executed in the place of one item wherever `P` holds, whatever comes after
it. -/
def Expands (step : ι → σ → Outcome (ρ × σ)) (good : ρ → Bool) (P : σ → Prop) (i : ι)
    (is : List ι) : Prop :=
  ∀ rest s, P s → run step good (is ++ rest) s = run step good (i :: rest) s

theorem Expands.refl (step : ι → σ → Outcome (ρ × σ)) (good : ρ → Bool) (P : σ → Prop) (i : ι) :
    Expands step good P i [i] := fun _ _ _ => rfl

/-- An item can be executed in the place of another that does the same. -/
theorem Expands.of_step_eq {P : σ → Prop} {i j : ι} (h : ∀ s, P s → step j s = step i s) :
    Expands step good P i [j] := by
  intro rest s hs
  simp only [List.singleton_append, run, h s hs]

/-- An item that does nothing can be left out. -/
theorem Expands.nil {P : σ → Prop} {i : ι}
    (h : ∀ s, P s → ∃ r, step i s = .returned (r, s) ∧ good r = true) :
    Expands step good P i [] := by
  intro rest s hs
  obtain ⟨r, hstep, hgood⟩ := h s hs
  simp only [List.nil_append, run, hstep, hgood, if_true]

/-- A run in which every item is replaced by items that can be executed in its place is the same
run, as long as the items keep the states where they can. -/
theorem run_flatMap {P : σ → Prop} {expand : ι → List ι} (hs : P s)
    (hstep : ∀ i ∈ items, ∀ s r s', P s → step i s = .returned (r, s') → P s')
    (h : ∀ i ∈ items, Expands step good P i (expand i)) :
    run step good (items.flatMap expand) s = run step good items s := by
  induction items generalizing s with
  | nil => rfl
  | cons i items ih =>
    rw [List.forall_mem_cons] at hstep h
    rw [List.flatMap_cons, h.1 _ s hs, run, run]
    -- the other items are executed from where the first leads, if it does
    cases hi : step i s with
    | returned out =>
      simp only [ih (hstep.1 s out.1 out.2 hs hi) hstep.2 h.2]
    | threw e => rfl
    | undefined u => rfl

end Rules

/-! ## Other orders -/

/-- The same items in an order that swaps of neighboring related items lead to. -/
inductive Reorders (related : ι → ι → Prop) : List ι → List ι → Prop
  | nil : Reorders related [] []
  | cons {i : ι} {items items' : List ι} :
      Reorders related items items' → Reorders related (i :: items) (i :: items')
  | swap {i j : ι} {items : List ι} :
      related i j → Reorders related (i :: j :: items) (j :: i :: items)
  | trans {items items' items'' : List ι} :
      Reorders related items items' → Reorders related items' items'' →
      Reorders related items items''

/-- A reordering is a permutation. -/
theorem Reorders.perm {related : ι → ι → Prop} {items items' : List ι}
    (h : Reorders related items items') : items.Perm items' := by
  induction h with
  | nil => exact .nil
  | cons _ ih => exact ih.cons _
  | swap _ => exact List.Perm.swap ..
  | trans _ _ ih ih' => exact ih.trans ih'

theorem Reorders.imp {related related' : ι → ι → Prop} {items items' : List ι}
    (h : Reorders related items items') (himp : ∀ i j, related i j → related' i j) :
    Reorders related' items items' := by
  induction h with
  | nil => exact .nil
  | cons _ ih => exact .cons ih
  | swap hij => exact .swap (himp _ _ hij)
  | trans _ _ ih ih' => exact .trans ih ih'

end Cxx
