import Mathlib.Algebra.Group.End
import Mathlib.Algebra.Group.Submonoid.Defs
import Mathlib.Data.Set.Function
import HeaderRewrite.Cxx.Completion

/-!
# What steps read and how they change cells

A state is observed through cells, by a view that gives the content of each. A footprint has the
cells that a step reads, and for each cell a monoid of changes. A step has the footprint if from
any two states that agree on the cells read it ends the same way, with the same verdict, and the
same change is made to the content of each cell. So a step may extend the content of a cell it does
not read, as appending does, and a cell is left alone exactly if its monoid of changes is trivial.

## Main definitions

* `Outcome.Rel`: two calls end the same way, with related values;
* `Footprint`, `HasFootprint`: what a step reads and changes;
* `Independent`: neither step changes what the other reads, and their changes commute.

## Main results

* `run_footprint`: the steps of a run have a footprint if they have it one by one;
* `SameChange.eq_of_eq`, `SameChange.frame`: agreement and untouched cells;
* `run_idempotent`: when a second run changes nothing;
* `Completes.reorder`: independent steps may be reordered.
-/

namespace Cxx

/-! ## Related outcomes -/

namespace Outcome

variable {α β α' β' : Type}

/-- Two calls end in the same way: they return related values, throw the same exception or have
the same undefined behavior. -/
inductive Rel (R : α → β → Prop) : Outcome α → Outcome β → Prop
  | returned {a : α} {b : β} : R a b → Rel R (.returned a) (.returned b)
  | threw {e : Exception} : Rel R (.threw e) (.threw e)
  | undefined {u : UndefinedBehavior} : Rel R (.undefined u) (.undefined u)

variable {R : α → β → Prop} {x : Outcome α} {y : Outcome β}

theorem Rel.mono {S : α → β → Prop} (h : Rel R x y) (hmono : ∀ a b, R a b → S a b) :
    Rel S x y := by
  cases h with
  | returned hab => exact .returned (hmono _ _ hab)
  | threw => exact .threw
  | undefined => exact .undefined

/-- The call related to one that returns returns a related value. -/
theorem Rel.exists_of_returned {a : α} (h : Rel R (.returned a) y) :
    ∃ b, y = .returned b ∧ R a b := by
  cases h with
  | returned hab => exact ⟨_, rfl, hab⟩

/-- Two sequences that begin with the same call are related if what they do with its value is. -/
theorem Rel.bind_same {S : α' → β' → Prop} {f : α → Outcome α'} {g : α → Outcome β'}
    (z : Outcome α) (hrest : ∀ a, z = .returned a → Rel S (f a) (g a)) :
    Rel S (z >>= f) (z >>= g) := by
  cases z with
  | returned a => exact hrest a rfl
  | threw e => exact .threw
  | undefined u => exact .undefined

/-- A `try` block keeps calls related if its handlers do. -/
theorem Rel.catchAs {handler : Exception → α} {handler' : Exception → β} (h : Rel R x y)
    (hhandler : ∀ e, R (handler e) (handler' e)) :
    Rel R (Outcome.catchAs handler x) (Outcome.catchAs handler' y) := by
  cases h with
  | returned hab => exact .returned hab
  | threw => exact .returned (hhandler _)
  | undefined => exact .undefined

end Outcome

variable {σ κ ν ι ρ : Type}

/-! ## Footprints -/

/-- The cells that are read, and for each cell the changes that may be made to its content. -/
structure Footprint (κ ν : Type) where
  /-- The cells that are read. -/
  reads : Set κ
  /-- The changes that may be made to a cell. -/
  changes : κ → Submonoid (Function.End ν)

/-- From `s` to `t` and from `s'` to `t'` the same change is made to each cell. -/
def SameChange (view : σ → κ → ν) (changes : κ → Submonoid (Function.End ν)) (s s' t t' : σ) :
    Prop :=
  ∃ change : κ → Function.End ν, (∀ c, change c ∈ changes c) ∧
    (∀ c, view t c = change c (view s c)) ∧ ∀ c, view t' c = change c (view s' c)

/-- The step ends the same way and makes the same change in all states that agree on what it
reads. -/
def HasFootprint (view : σ → κ → ν) (F : Footprint κ ν) (f : σ → Outcome (ρ × σ)) : Prop :=
  ∀ s s', Set.EqOn (view s) (view s') F.reads →
    Outcome.Rel (fun out out' => out.1 = out'.1 ∧
      SameChange view F.changes s s' out.2 out'.2) (f s) (f s')

section Change

variable {view : σ → κ → ν} {changes changes' : κ → Submonoid (Function.End ν)}
  {s s' t t' w w' : σ}

/-- Nothing is changed. -/
theorem SameChange.refl (view : σ → κ → ν) (changes : κ → Submonoid (Function.End ν)) (s s' : σ) :
    SameChange view changes s s' s s' :=
  ⟨fun _ => 1, fun c => (changes c).one_mem, fun _ => rfl, fun _ => rfl⟩

/-- Two changes after each other are a change. -/
theorem SameChange.trans (h : SameChange view changes s s' t t')
    (h' : SameChange view changes t t' w w') : SameChange view changes s s' w w' := by
  obtain ⟨u, hu, hs, hs'⟩ := h
  obtain ⟨v, hv, ht, ht'⟩ := h'
  refine ⟨fun c => v c * u c, fun c => (changes c).mul_mem (hv c) (hu c), fun c => ?_, fun c => ?_⟩
  · rw [ht, hs]
    rfl
  · rw [ht', hs']
    rfl

/-- The same change to one cell, and none to the others. -/
theorem SameChange.of_cell [DecidableEq κ] {cell : κ} {u : Function.End ν}
    (hu : u ∈ changes cell)
    (h : ∀ c, view t c = if c = cell then u (view s c) else view s c)
    (h' : ∀ c, view t' c = if c = cell then u (view s' c) else view s' c) :
    SameChange view changes s s' t t' := by
  refine ⟨fun c => if c = cell then u else 1, fun c => ?_, fun c => ?_, fun c => ?_⟩
  · by_cases hc : c = cell
    · simpa only [hc, if_true] using hu
    · simpa only [hc, if_false] using (changes c).one_mem
  · rw [h]
    by_cases hc : c = cell
    · simp only [hc, if_true]
    · simp only [hc, if_false]
      rfl
  · rw [h']
    by_cases hc : c = cell
    · simp only [hc, if_true]
    · simp only [hc, if_false]
      rfl

theorem SameChange.mono (h : SameChange view changes s s' t t')
    (hmono : ∀ c, changes c ≤ changes' c) : SameChange view changes' s s' t t' := by
  obtain ⟨u, hu, hs, hs'⟩ := h
  exact ⟨u, fun c => hmono c (hu c), hs, hs'⟩

/-- A cell on which two states agree is one on which they agree after the change. -/
theorem SameChange.eq_of_eq (h : SameChange view changes s s' t t') {c : κ}
    (hc : view s c = view s' c) : view t c = view t' c := by
  obtain ⟨u, -, hs, hs'⟩ := h
  rw [hs, hs', hc]

theorem SameChange.eqOn (h : SameChange view changes s s' t t') {cells : Set κ}
    (hcells : Set.EqOn (view s) (view s') cells) : Set.EqOn (view t) (view t') cells :=
  fun _ hc => h.eq_of_eq (hcells hc)

/-- A cell without changes is left as it is. -/
theorem SameChange.frame (h : SameChange view changes s s' t t') {c : κ}
    (hc : changes c = ⊥) : view t c = view s c := by
  obtain ⟨u, hu, hs, -⟩ := h
  have hone : u c = 1 := Submonoid.mem_bot.mp (hc ▸ hu c)
  rw [hs, hone]
  rfl

end Change

section Steps

variable {view : σ → κ → ν} {F G : Footprint κ ν} {step : ι → σ → Outcome (ρ × σ)}
  {good : ρ → Bool} {items items' : List ι} {s s' t : σ}

theorem HasFootprint.mono {f : σ → Outcome (ρ × σ)} (h : HasFootprint view F f)
    (hreads : F.reads ⊆ G.reads) (hchanges : ∀ c, F.changes c ≤ G.changes c) :
    HasFootprint view G f := fun s s' heq =>
  (h s s' (heq.mono hreads)).mono fun _ _ ⟨hverdict, hchange⟩ =>
    ⟨hverdict, hchange.mono hchanges⟩

/-- Runs on the same items from states that agree on what the items read end the same way, and make
the same change. -/
theorem run_footprint (h : ∀ i ∈ items, HasFootprint view F (step i))
    (heq : Set.EqOn (view s) (view s') F.reads) :
    Outcome.Rel (SameChange view F.changes s s') (run step good items s)
      (run step good items s') := by
  induction items generalizing s s' with
  | nil => exact .returned (.refl view F.changes s s')
  | cons i items ih =>
    have hi := h i List.mem_cons_self s s' heq
    simp only [run]
    generalize step i s = x at hi ⊢
    generalize step i s' = y at hi ⊢
    cases hi with
    | @returned out out' hout =>
      obtain ⟨r, t⟩ := out
      obtain ⟨r', t'⟩ := out'
      obtain ⟨rfl : r = r', hchange⟩ := hout
      by_cases hgood : good r = true
      -- the states still agree on what the other items read
      · simp only [hgood, if_true]
        exact (ih (fun j hj => h j (List.mem_cons_of_mem _ hj)) (hchange.eqOn heq)).mono
          fun _ _ hrest => hchange.trans hrest
      · simp only [hgood]
        exact .returned hchange
    | threw => exact .threw
    | undefined => exact .undefined

/-- A run leaves the cells alone that its items do not change. -/
theorem run_frame (h : ∀ i ∈ items, HasFootprint view F (step i)) {c : κ}
    (hc : F.changes c = ⊥) (hrun : run step good items s = .returned t) : view t c = view s c := by
  have hrel : Outcome.Rel (SameChange view F.changes s s) (run step good items s)
      (run step good items s) := run_footprint h (Set.eqOn_refl (view s) F.reads)
  rw [hrun] at hrel
  obtain ⟨t', ht', hchange⟩ := hrel.exists_of_returned
  exact hchange.frame hc

/-- A run that changes nothing it reads, and changes each cell in an idempotent way, can be
repeated without any further effect. -/
theorem run_idempotent (h : ∀ i ∈ items, HasFootprint view F (step i))
    (hreads : ∀ c ∈ F.reads, F.changes c = ⊥)
    (hidempotent : ∀ c, ∀ u ∈ F.changes c, u * u = u)
    (hrun : run step good items s = .returned t) :
    ∃ t', run step good items t = .returned t' ∧ view t' = view t := by
  have hframe : Set.EqOn (view s) (view t) F.reads := fun c hc =>
    (run_frame h (hreads c hc) hrun).symm
  have hrel : Outcome.Rel (SameChange view F.changes s t) (run step good items s)
      (run step good items t) := run_footprint h hframe
  rw [hrun] at hrel
  obtain ⟨t', ht', u, hu, hs, ht⟩ := hrel.exists_of_returned
  refine ⟨t', ht', funext fun c => ?_⟩
  -- the second run makes the change of the first once more
  calc view t' c = u c (u c (view s c)) := by rw [ht, hs]
    _ = (u c * u c) (view s c) := rfl
    _ = view t c := by rw [hidempotent c (u c) (hu c), hs]

/-- A run that completes does so from every state that agrees on what its items read. -/
theorem Completes.footprint (hcompletes : Completes step good items s t)
    (h : ∀ i ∈ items, HasFootprint view F (step i))
    (heq : Set.EqOn (view s) (view s') F.reads) :
    ∃ t', Completes step good items s' t' ∧ SameChange view F.changes s s' t t' := by
  induction hcompletes generalizing s' with
  | @nil s => exact ⟨s', .nil, .refl view F.changes s s'⟩
  | @cons i items s s₁ t r hstep hgood _ ih =>
    have hi := h i List.mem_cons_self s s' heq
    rw [hstep] at hi
    obtain ⟨⟨r', s₁'⟩, hstep', rfl : r = r', hchange⟩ := hi.exists_of_returned
    obtain ⟨t', ht', hrest⟩ := ih (fun j hj => h j (List.mem_cons_of_mem _ hj)) (hchange.eqOn heq)
    exact ⟨t', .cons hstep' hgood ht', hchange.trans hrest⟩

end Steps

/-! ## Independent steps -/

/-- Neither footprint changes what the other reads, and changes of the two to one cell commute. -/
structure Independent (F G : Footprint κ ν) : Prop where
  /-- The first changes nothing that the second reads. -/
  left : ∀ c ∈ G.reads, F.changes c = ⊥
  /-- The second changes nothing that the first reads. -/
  right : ∀ c ∈ F.reads, G.changes c = ⊥
  /-- The changes to one cell commute. -/
  commute : ∀ c, ∀ u ∈ F.changes c, ∀ v ∈ G.changes c, Commute u v

section Order

variable {view : σ → κ → ν} {footprint : ι → Footprint κ ν} {step : ι → σ → Outcome (ρ × σ)}
  {good : ρ → Bool} {items items' : List ι} {s s' t : σ}

/-- Two independent steps can be taken in either order, with the same content of all cells. -/
theorem Completes.swap {i j : ι} (hi : HasFootprint view (footprint i) (step i))
    (hj : HasFootprint view (footprint j) (step j))
    (hindependent : Independent (footprint i) (footprint j))
    (h : Completes step good [i, j] s t) :
    ∃ t', Completes step good [j, i] s t' ∧ view t' = view t := by
  obtain _ | ⟨hstep, hgood, hrest⟩ := h
  obtain _ | ⟨hstep', hgood', ⟨⟩⟩ := hrest
  rename_i s₁ r r'
  -- the first step makes its change from `s`, and the second has the same change from `s`
  have hfirst := hi s s (Set.eqOn_refl _ _)
  rw [hstep] at hfirst
  obtain ⟨_, -, -, hframe⟩ := hfirst.exists_of_returned
  have hagree : Set.EqOn (view s₁) (view s) (footprint j).reads := fun c hc =>
    hframe.frame (hindependent.left c hc)
  have hsecond := hj s₁ s hagree
  rw [hstep'] at hsecond
  obtain ⟨⟨_, s₂⟩, hstep₂, rfl, v, hv, ht, hs₂⟩ := hsecond.exists_of_returned
  -- so the first step has the same change from the state that the second leaves
  have hagree' : Set.EqOn (view s) (view s₂) (footprint i).reads := fun c hc => by
    have hone : v c = 1 := Submonoid.mem_bot.mp (hindependent.right c hc ▸ hv c)
    rw [hs₂, hone]
    rfl
  have hthird := hi s s₂ hagree'
  rw [hstep] at hthird
  obtain ⟨⟨_, t'⟩, hstep₃, rfl, u, hu, hs₁, ht'⟩ := hthird.exists_of_returned
  refine ⟨t', .cons hstep₂ hgood' (.cons hstep₃ hgood .nil), funext fun c => ?_⟩
  calc view t' c = (u c * v c) (view s c) := by rw [ht', hs₂]; rfl
    _ = (v c * u c) (view s c) := by rw [(hindependent.commute c _ (hu c) _ (hv c)).eq]
    _ = view t c := by rw [ht, hs₁]; rfl

/-- Items that are executed to the end can be executed in any order that swaps of independent
neighbors lead to, with the same content of all cells. -/
theorem Completes.reorder
    (hreorders : Reorders (fun i j => Independent (footprint i) (footprint j)) items items')
    (h : ∀ i ∈ items, HasFootprint view (footprint i) (step i))
    (hcompletes : Completes step good items s t) :
    ∃ t', Completes step good items' s t' ∧ view t' = view t := by
  -- completing depends on what is observed only
  have hview : ∀ {is : List ι} {s s' t : σ},
      (∀ i ∈ is, HasFootprint view (footprint i) (step i)) → view s = view s' →
      Completes step good is s t → ∃ t', Completes step good is s' t' ∧ view t' = view t := by
    intro is s s' t his heq ht
    obtain ⟨t', ht', hchange⟩ := ht.footprint (F := ⟨Set.univ, fun _ => ⊤⟩)
      (fun i hi => (his i hi).mono (Set.subset_univ _) fun _ u _ => Submonoid.mem_top u)
      (fun c _ => congrFun heq c)
    exact ⟨t', ht', funext fun c => (hchange.eq_of_eq (congrFun heq c)).symm⟩
  induction hreorders generalizing s t with
  | nil => exact ⟨t, hcompletes, rfl⟩
  | cons _ ih =>
    obtain _ | ⟨hstep, hgood, hrest⟩ := hcompletes
    obtain ⟨t', ht', heq⟩ := ih (fun j hj => h j (List.mem_cons_of_mem _ hj)) hrest
    exact ⟨t', .cons hstep hgood ht', heq⟩
  | @swap i j items hindependent =>
    have hsplit : Completes step good ([i, j] ++ items) s t := hcompletes
    obtain ⟨s₂, hpair, hrest⟩ := completes_append_iff.mp hsplit
    obtain ⟨s₂', hpair', heq⟩ := hpair.swap (h i (by simp)) (h j (by simp)) hindependent
    obtain ⟨t', ht', htt'⟩ := hview (fun k hk => h k (by simp [hk])) heq.symm hrest
    exact ⟨t', hpair'.append ht', htt'⟩
  | @trans items items' _ hfirst _ ih ih' =>
    obtain ⟨t₁, ht₁, heq₁⟩ := ih h hcompletes
    obtain ⟨t₂, ht₂, heq₂⟩ := ih' (fun i hi => h i (hfirst.perm.mem_iff.mpr hi)) ht₁
    exact ⟨t₂, ht₂, heq₂.trans heq₁⟩

end Order

end Cxx
