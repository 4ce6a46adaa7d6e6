import HeaderRewrite.Cxx.Disjunction

/-!
# Boolean functions as disjunctions

Every boolean function of some atoms is a disjunction of conjunctions of the atoms and their
negations. Written as operands with operators between them, the conjunctions and the disjunction
need no parentheses.

## Main definitions

* `normalForm`: the clauses of a boolean function of atoms;
* `joinOperators`: the operators between the operands of clauses.

## Main results

* `any_normalForm`: the clauses have the value of the function;
* `clauses_joinOperators`: the clauses of the operands with these operators.
-/

namespace Cxx

variable {α ο : Type}

/-! ## Clauses -/

/-- One conjunction for each way in which the atoms make the function true. A literal is an atom and
whether it is negated. -/
def minterms (φ : List Bool → Bool) : List α → List (List (α × Bool))
  | [] => if φ [] then [[]] else []
  | a :: atoms =>
    (minterms (fun values => φ (true :: values)) atoms).map ((a, false) :: ·) ++
      (minterms (fun values => φ (false :: values)) atoms).map ((a, true) :: ·)

/-- The clauses of a boolean function. A function that is never true is a contradiction. -/
def normalForm (φ : List Bool → Bool) : List α → List (List (α × Bool))
  | [] => []
  | a :: atoms =>
    if minterms φ (a :: atoms) = [] then [[(a, false), (a, true)]] else minterms φ (a :: atoms)

section Clauses

variable {φ : List Bool → Bool} {atoms : List α}

/-- The disjunction has the value of the function. -/
theorem any_minterms (value : α → Bool) :
    (minterms φ atoms).any (·.all fun d => if d.2 then !value d.1 else value d.1) =
      φ (atoms.map value) := by
  induction atoms generalizing φ with
  | nil =>
    rw [minterms]
    split
    · next hφ => exact hφ.symm
    · next hφ => exact (Bool.eq_false_iff.mpr hφ).symm
  | cons a atoms ih =>
    -- the value of the first atom decides which half of the clauses can be true
    have hnone : ∀ cs : List (List (α × Bool)), (cs.any fun _ => false) = false := fun cs =>
      List.any_eq_false.mpr fun _ _ => Bool.false_ne_true
    rw [minterms, List.any_append, List.any_map, List.any_map, List.map_cons]
    cases hvalue : value a with
    | true =>
      have hrest := @ih fun values => φ (true :: values)
      simpa [Function.comp_def, hvalue, hnone] using hrest
    | false =>
      have hrest := @ih fun values => φ (false :: values)
      simpa [Function.comp_def, hvalue, hnone] using hrest

/-- The clauses are made of the atoms, each once. -/
theorem map_fst_of_mem_minterms {clause : List (α × Bool)} (h : clause ∈ minterms φ atoms) :
    clause.map Prod.fst = atoms := by
  induction atoms generalizing φ clause with
  | nil =>
    rw [minterms] at h
    split at h
    · rw [List.mem_singleton.mp h]
      rfl
    · cases h
  | cons a atoms ih =>
    rw [minterms, List.mem_append, List.mem_map, List.mem_map] at h
    rcases h with ⟨rest, hrest, rfl⟩ | ⟨rest, hrest, rfl⟩
    · rw [List.map_cons, ih hrest]
    · rw [List.map_cons, ih hrest]

/-- The clauses have the value of the function. -/
theorem any_normalForm (hatoms : atoms ≠ []) (value : α → Bool) :
    (normalForm φ atoms).any (·.all fun d => if d.2 then !value d.1 else value d.1) =
      φ (atoms.map value) := by
  obtain ⟨a, rest, rfl⟩ := List.exists_cons_of_ne_nil hatoms
  rw [normalForm]
  split
  -- neither the contradiction nor the function is true
  · next hnone =>
    have hvalue := @any_minterms _ φ (a :: rest) value
    rw [hnone] at hvalue
    rw [← hvalue]
    cases value a <;> simp
  · exact any_minterms value

theorem normalForm_ne_nil (hatoms : atoms ≠ []) : normalForm φ atoms ≠ [] := by
  obtain ⟨a, rest, rfl⟩ := List.exists_cons_of_ne_nil hatoms
  rw [normalForm]
  split
  · exact List.cons_ne_nil _ _
  · assumption

/-- The clauses are not empty, and made of the atoms. -/
theorem of_mem_normalForm {clause : List (α × Bool)} (h : clause ∈ normalForm φ atoms) :
    clause ≠ [] ∧ ∀ d ∈ clause, d.1 ∈ atoms := by
  cases atoms with
  | nil => cases h
  | cons a atoms =>
    rw [normalForm] at h
    split at h
    · rw [List.mem_singleton.mp h]
      exact ⟨List.cons_ne_nil _ _, by simp⟩
    · have hfst := map_fst_of_mem_minterms h
      refine ⟨?_, fun d hd => ?_⟩
      · rintro rfl
        cases hfst
      · rw [← hfst]
        exact List.mem_map_of_mem hd

end Clauses

/-! ## Operators -/

/-- The operators between the operands of clauses. -/
def joinOperators (andOp orOp : ο) : List (List α) → List ο
  | [] => []
  | [clause] => List.replicate (clause.length - 1) andOp
  | clause :: rest =>
    List.replicate (clause.length - 1) andOp ++ orOp :: joinOperators andOp orOp rest

section Operators

variable {isOr : ο → Bool} {andOp orOp : ο} {cs : List (List α)}

theorem mem_joinOperators {o : ο} (h : o ∈ joinOperators andOp orOp cs) : o = andOp ∨ o = orOp := by
  induction cs with
  | nil => cases h
  | cons clause cs ih =>
    cases cs with
    | nil => exact Or.inl (List.eq_of_mem_replicate h)
    | cons next cs =>
      rcases List.mem_append.mp h with h | h
      · exact Or.inl (List.eq_of_mem_replicate h)
      · rcases List.mem_cons.mp h with h | h
        · exact Or.inr h
        · exact ih h

/-- There is one operator less than operands. -/
theorem length_flatten_of_joinOperators (hcs : cs ≠ []) (hne : ∀ clause ∈ cs, clause ≠ []) :
    cs.flatten.length = (joinOperators andOp orOp cs).length + 1 := by
  induction cs with
  | nil => exact (hcs rfl).elim
  | cons clause cs ih =>
    rw [List.forall_mem_cons] at hne
    have hpos : 0 < clause.length := List.length_pos_iff.mpr hne.1
    cases cs with
    | nil =>
      simp only [List.flatten_cons, List.flatten_nil, List.append_nil, joinOperators,
        List.length_replicate]
      omega
    | cons next cs =>
      have hrest := ih (List.cons_ne_nil _ _) hne.2
      rw [List.flatten_cons, List.length_append, hrest]
      simp only [joinOperators, List.length_append, List.length_replicate, List.length_cons]
      omega

/-- A clause ends at the first disjunction. -/
theorem clauses_append (hand : isOr andOp = false) (hor : isOr orOp = true) {clause : List α}
    (hclause : clause ≠ []) (operators : List ο) (operands : List α) :
    clauses isOr (List.replicate (clause.length - 1) andOp ++ orOp :: operators)
        (clause ++ operands) =
      clause :: clauses isOr operators operands := by
  induction clause with
  | nil => exact (hclause rfl).elim
  | cons a clause ih =>
    cases clause with
    | nil => simp [clauses, hor]
    | cons b clause =>
      have hrest := ih (List.cons_ne_nil _ _)
      simp only [List.length_cons, Nat.add_sub_cancel] at hrest
      simp only [List.length_cons, Nat.add_sub_cancel, List.replicate_succ, List.cons_append,
        clauses, hand, Bool.false_eq_true, if_false]
      rw [← List.cons_append, hrest]
      rfl

/-- The clauses of the operands are those that they come from. -/
theorem clauses_joinOperators (hand : isOr andOp = false) (hor : isOr orOp = true) (hcs : cs ≠ [])
    (hne : ∀ clause ∈ cs, clause ≠ []) :
    clauses isOr (joinOperators andOp orOp cs) cs.flatten = cs := by
  induction cs with
  | nil => exact (hcs rfl).elim
  | cons clause cs ih =>
    rw [List.forall_mem_cons] at hne
    cases cs with
    | nil =>
      have hnone : (List.replicate (clause.length - 1) andOp).findIdx? isOr = none := by
        rw [List.findIdx?_eq_none_iff]
        intro o ho
        rw [List.eq_of_mem_replicate ho, hand]
      have hlength := @length_flatten_of_joinOperators _ _ andOp orOp [clause]
        (List.cons_ne_nil _ _) (by simpa using hne.1)
      rw [List.flatten_cons, List.flatten_nil, List.append_nil] at hlength ⊢
      exact clauses_of_findIdx?_none hlength hnone
    | cons next cs =>
      rw [List.flatten_cons, joinOperators, clauses_append hand hor hne.1,
        ih (List.cons_ne_nil _ _) hne.2]
      exact List.cons_ne_nil _ _

example : normalForm (fun values => values = [true, false]) ["a", "b"] =
    [[("a", false), ("b", true)]] := by decide

end Operators

end Cxx
