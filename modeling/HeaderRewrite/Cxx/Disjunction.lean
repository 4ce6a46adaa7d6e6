import Mathlib.Data.List.Basic
import HeaderRewrite.Cxx.Outcome

/-!
# Disjunctions of conjunctions of calls

A condition is a disjunction of conjunctions of literals, and a literal is a call that returns a
verdict and a truth value, or throws. A conjunction is evaluated from left to right up to the first
literal whose verdict is not `ok`, inside a `try` block; a disjunction evaluates all its clauses
first and then returns the first verdict that is not `ok`. Truth values stop neither.

## Main definitions

* `clauses`: the clauses of operands with operators between them;
* `evalClause`, `evalClauses`: evaluation;
* `Fails`: a literal does not yield a truth value;
* `Decides`: a result is the value of the disjunction, or the verdict of its leftmost failing
  literal;
* `clausesValue`: the value of a disjunction of literals that may have none.

## Main results

* `evalClauses_of_ok`: without a failing literal the value is that of the disjunction;
* `evalClauses_of_fails`: the leftmost failing literal decides the verdict;
* `reached_of_evalClauses`, `exists_undefined_of_reached`: the evaluation is undefined exactly
  where a literal that is evaluated is;
* `exists_fails_of_evalClauses`: a verdict that is not `ok` is that of a literal that is evaluated;
* `decides_evalClauses_iff`: the evaluation decides the disjunction exactly if no literal that is
  evaluated is undefined;
* `agrees_evalClauses`: the evaluation yields the value of the disjunction.
-/

namespace Cxx

variable {α ο ρ : Type}

/-! ## The clauses of a condition -/

/-- Put an operand in front of the first clause. -/
def extendFirst (a : α) : List (List α) → List (List α)
  | [] => [[a]]
  | c :: cs => (a :: c) :: cs

/-- The operands between two disjunctions, where an operator stands between any two operands. -/
def clauses (isOr : ο → Bool) : List ο → List α → List (List α)
  | [], operands => [operands]
  | _ :: _, [] => []
  | o :: operators, a :: operands =>
    if isOr o then [a] :: clauses isOr operators operands
    else extendFirst a (clauses isOr operators operands)

section Clauses

variable {isOr : ο → Bool} {operators : List ο} {operands : List α}

theorem flatten_extendFirst (a : α) (cs : List (List α)) :
    (extendFirst a cs).flatten = a :: cs.flatten := by
  cases cs <;> simp [extendFirst]

/-- The clauses hold the operands in their order. -/
theorem flatten_clauses (hlength : operands.length = operators.length + 1) :
    (clauses isOr operators operands).flatten = operands := by
  induction operators generalizing operands with
  | nil => simp [clauses]
  | cons o operators ih =>
    obtain ⟨a, operands, rfl⟩ := List.exists_cons_of_length_eq_add_one hlength
    have hrest := ih (by simpa using hlength)
    unfold clauses
    split
    · simp [hrest]
    · rw [flatten_extendFirst, hrest]

/-- Without a disjunction there is one clause. -/
theorem clauses_of_findIdx?_none (hlength : operands.length = operators.length + 1)
    (h : operators.findIdx? isOr = none) : clauses isOr operators operands = [operands] := by
  induction operators generalizing operands with
  | nil => rfl
  | cons o operators ih =>
    obtain ⟨a, operands, rfl⟩ := List.exists_cons_of_length_eq_add_one hlength
    rw [List.findIdx?_eq_none_iff] at h
    have ho : isOr o = false := h o List.mem_cons_self
    have hrest := @ih operands (by simpa using hlength)
      (List.findIdx?_eq_none_iff.mpr fun o' ho' => h o' (List.mem_cons_of_mem _ ho'))
    simp [clauses, ho, hrest, extendFirst]

/-- The first disjunction ends the first clause. -/
theorem clauses_of_findIdx?_some (hlength : operands.length = operators.length + 1) {k : Nat}
    (h : operators.findIdx? isOr = some k) :
    clauses isOr operators operands =
      operands.take (k + 1) :: clauses isOr (operators.drop (k + 1)) (operands.drop (k + 1)) := by
  induction operators generalizing operands k with
  | nil => cases h
  | cons o operators ih =>
    obtain ⟨a, operands, rfl⟩ := List.exists_cons_of_length_eq_add_one hlength
    rw [List.findIdx?_cons] at h
    cases ho : isOr o with
    -- this operator ends the clause
    | true =>
      simp only [ho, if_true, Option.some.injEq] at h
      subst h
      simp [clauses, ho]
    -- the operand joins the first clause of the rest
    | false =>
      simp only [ho, Bool.false_eq_true, if_false, Option.map_eq_some_iff] at h
      obtain ⟨k, hk, rfl⟩ := h
      have hrest := @ih operands (by simpa using hlength) k hk
      simp [clauses, ho, hrest, extendFirst]

/-- The clauses of operands that are mapped are mapped. -/
theorem clauses_map {β : Type} (g : α → β) (operators : List ο) (operands : List α) :
    clauses isOr operators (operands.map g) = (clauses isOr operators operands).map (·.map g) := by
  have hextend : ∀ (a : α) (cs : List (List α)),
      extendFirst (g a) (cs.map (·.map g)) = (extendFirst a cs).map (·.map g) := by
    intro a cs
    cases cs <;> rfl
  induction operators generalizing operands with
  | nil => rfl
  | cons o operators ih =>
    cases operands with
    | nil => rfl
    | cons a operands =>
      rw [List.map_cons, clauses, clauses, ih, hextend]
      split <;> rfl

end Clauses

/-! ## Evaluation -/

section Evaluation

variable [DecidableEq ρ] (ok : ρ) (handler : Exception → ρ) (literal : α → Outcome (ρ × Bool))

/-- Evaluate literals from left to right, up to the first verdict that is not `ok`. -/
def evalClause : List α → Outcome (ρ × Bool)
  | [] => .returned (ok, true)
  | a :: rest => do
    let (verdict, value) ← literal a
    if verdict ≠ ok then
      return (verdict, false)
    let (restVerdict, restValue) ← evalClause rest
    if restVerdict ≠ ok then
      return (restVerdict, false)
    return (ok, value && restValue)

/-- Evaluate clauses, each in a `try` block, and combine their verdicts and values. -/
def evalClauses : List (List α) → Outcome (ρ × Bool)
  | [] => .returned (ok, false)
  | c :: rest => do
    let (verdict, value) ← Outcome.catchAs (fun e => (handler e, false)) (evalClause ok literal c)
    let (restVerdict, restValue) ← evalClauses rest
    if verdict ≠ ok then
      return (verdict, value)
    if restVerdict ≠ ok then
      return (restVerdict, restValue)
    return (ok, value || restValue)

/-- A literal fails if it returns a verdict that is not `ok`, or throws. -/
inductive Fails (a : α) : ρ → Prop
  | returned {verdict : ρ} {value : Bool} :
      literal a = .returned (verdict, value) → verdict ≠ ok → Fails a verdict
  | threw {e : Exception} : literal a = .threw e → Fails a (handler e)

/-- A literal that is evaluated: all literals before it in its clause return `ok`. -/
def Reached (cs : List (List α)) (a : α) : Prop :=
  ∃ c ∈ cs, ∃ before after, c = before ++ a :: after ∧
    ∀ b ∈ before, ∃ value, literal b = .returned (ok, value)

end Evaluation

/-- The result that a disjunction should have. If no literal fails, all of them have values and the
result is the value of the disjunction. Otherwise the leftmost failing literal decides the verdict,
also where the value is decided without it. -/
structure Decides (ok : ρ) (handler : Exception → ρ) (literal : α → Outcome (ρ × Bool))
    (cs : List (List α)) (result : Outcome (ρ × Bool)) : Prop where
  /-- Without a failing literal, the value is that of the disjunction. -/
  value : (∀ a ∈ cs.flatten, ∀ verdict, ¬ Fails ok handler literal a verdict) →
    ∃ value : α → Bool, (∀ a ∈ cs.flatten, literal a = .returned (ok, value a)) ∧
      result = .returned (ok, cs.any (·.all value))
  /-- The leftmost failing literal decides the verdict. -/
  verdict : ∀ before a after verdict, cs.flatten = before ++ a :: after →
    (∀ b ∈ before, ∀ verdict', ¬ Fails ok handler literal b verdict') →
    Fails ok handler literal a verdict → result = .returned (verdict, false)

/-! ## Values -/

/-- The value of a disjunction whose literals may have none: it has none either unless all of them
do. -/
def clausesValue (value : α → Option Bool) (cs : List (List α)) : Option Bool :=
  if cs.flatten.all fun a => (value a).isSome then
    some (cs.any (·.all fun a => (value a).getD false))
  else none

section Results

variable [DecidableEq ρ] {ok : ρ} {handler : Exception → ρ} {literal : α → Outcome (ρ × Bool)}

theorem evalClause_map {β : Type} (g : β → α) (c : List β) :
    evalClause ok literal (c.map g) = evalClause ok (fun b => literal (g b)) c := by
  induction c with
  | nil => rfl
  | cons b rest ih => simp only [List.map_cons, evalClause, ih]

/-- Clauses that are mapped are evaluated through the map. -/
theorem evalClauses_map {β : Type} (g : β → α) (cs : List (List β)) :
    evalClauses ok handler literal (cs.map (·.map g)) =
      evalClauses ok handler (fun b => literal (g b)) cs := by
  induction cs with
  | nil => rfl
  | cons c rest ih => simp only [List.map_cons, evalClauses, evalClause_map, ih]

/-- A single clause is a conjunction in a `try` block. -/
theorem evalClauses_singleton (c : List α) :
    evalClauses ok handler literal [c] =
      Outcome.catchAs (fun e => (handler e, false)) (evalClause ok literal c) := by
  rw [evalClauses]
  cases Outcome.catchAs (fun e => (handler e, false)) (evalClause ok literal c) with
  | returned result =>
    obtain ⟨verdict, value⟩ := result
    by_cases h : verdict = ok <;> simp [evalClauses, h]
  | threw e => rfl
  | undefined u => rfl

/-- A conjunction without failing literals has the value of the conjunction. -/
theorem evalClause_of_ok {value : α → Bool} {c : List α}
    (h : ∀ a ∈ c, literal a = .returned (ok, value a)) :
    evalClause ok literal c = .returned (ok, c.all value) := by
  induction c with
  | nil => rfl
  | cons a rest ih =>
    have hrest := ih fun b hb => h b (List.mem_cons_of_mem _ hb)
    simp [evalClause, h a List.mem_cons_self, hrest]

/-- A disjunction without failing literals has the value of the disjunction. -/
theorem evalClauses_of_ok {value : α → Bool} {cs : List (List α)}
    (h : ∀ a ∈ cs.flatten, literal a = .returned (ok, value a)) :
    evalClauses ok handler literal cs = .returned (ok, cs.any (·.all value)) := by
  induction cs with
  | nil => rfl
  | cons c rest ih =>
    rw [List.flatten_cons] at h
    have hc : evalClause ok literal c = .returned (ok, c.all value) :=
      evalClause_of_ok fun a ha => h a (List.mem_append_left _ ha)
    have hrest := ih fun a ha => h a (List.mem_append_right _ ha)
    simp [evalClauses, hc, hrest]

/-- A conjunction ends at its first failing literal. -/
theorem evalClause_of_fails {value : α → Bool} {before after : List α} {a : α} {verdict : ρ}
    (hbefore : ∀ b ∈ before, literal b = .returned (ok, value b))
    (ha : Fails ok handler literal a verdict) :
    Outcome.catchAs (fun e => (handler e, false)) (evalClause ok literal (before ++ a :: after)) =
      .returned (verdict, false) := by
  induction before with
  | nil =>
    cases ha with
    | returned h hne => simp [evalClause, h, hne]
    | threw h => simp [evalClause, h]
  | cons b before ih =>
    have hb := hbefore b List.mem_cons_self
    have hrest := ih fun c hc => hbefore c (List.mem_cons_of_mem _ hc)
    rw [List.cons_append, evalClause, hb]
    -- the rest of the clause ends with the verdict already, which the operands before it pass on
    cases h : evalClause ok literal (before ++ a :: after) with
    | returned result =>
      rw [h, Outcome.catchAs_returned, Outcome.returned.injEq] at hrest
      subst hrest
      by_cases hverdict : verdict = ok <;> simp [hverdict]
    | threw e =>
      rw [h] at hrest
      simpa using hrest
    | undefined u =>
      rw [h] at hrest
      cases hrest

/-- A conjunction is undefined exactly as the first literal that does not return `ok` is. -/
theorem evalClause_eq_undefined_iff {c : List α} {u : UndefinedBehavior} :
    evalClause ok literal c = .undefined u ↔
      ∃ before a after, c = before ++ a :: after ∧
        (∀ b ∈ before, ∃ value, literal b = .returned (ok, value)) ∧ literal a = .undefined u := by
  induction c with
  | nil => simp [evalClause]
  | cons a rest ih =>
    constructor
    · intro hu
      rw [evalClause] at hu
      rcases Outcome.bind_eq_undefined.mp hu with ha | ⟨⟨verdict, value⟩, ha, hu⟩
      -- the first literal itself is undefined, or it returned `ok` and the rest is
      · exact ⟨[], a, rest, rfl, by simp, ha⟩
      dsimp only at hu
      split at hu
      · cases hu
      next hverdict =>
      obtain rfl : verdict = ok := by simpa using hverdict
      rcases Outcome.bind_eq_undefined.mp hu with hrest | ⟨_, -, hu⟩
      · obtain ⟨before, b, after, rfl, hbefore, hb⟩ := ih.mp hrest
        refine ⟨a :: before, b, after, rfl, ?_, hb⟩
        rintro c (_ | ⟨_, hc⟩)
        · exact ⟨value, ha⟩
        · exact hbefore c hc
      -- both have returned, so that the conjunction returns
      · split at hu <;> cases hu
    · rintro ⟨before, b, after, hcons, hbefore, hb⟩
      cases before with
      | nil =>
        obtain ⟨rfl, -⟩ := List.cons.inj hcons
        simp [evalClause, hb]
      | cons a' before =>
        rw [List.cons_append] at hcons
        obtain ⟨rfl, rfl⟩ := List.cons.inj hcons
        obtain ⟨value, ha⟩ := hbefore a List.mem_cons_self
        have hu := ih.mpr ⟨before, b, after, rfl,
          fun c hc => hbefore c (List.mem_cons_of_mem _ hc), hb⟩
        simp [evalClause, ha, hu]

/-- The evaluation is undefined only where a literal that is evaluated is. -/
theorem reached_of_evalClauses {cs : List (List α)} {u : UndefinedBehavior}
    (h : evalClauses ok handler literal cs = .undefined u) :
    ∃ a, Reached ok literal cs a ∧ literal a = .undefined u := by
  induction cs with
  | nil => cases h
  | cons c rest ih =>
    rw [evalClauses] at h
    rcases Outcome.bind_eq_undefined.mp h with hc | ⟨⟨verdict, value⟩, -, h⟩
    -- the `try` block catches exceptions, but not undefined behavior
    · rw [Outcome.catchAs_eq_undefined] at hc
      obtain ⟨before, a, after, rfl, hbefore, ha⟩ := evalClause_eq_undefined_iff.mp hc
      exact ⟨a, ⟨_, List.mem_cons_self, before, after, rfl, hbefore⟩, ha⟩
    rcases Outcome.bind_eq_undefined.mp h with hrest | ⟨⟨restVerdict, restValue⟩, -, h⟩
    -- the later clauses are evaluated whatever the verdict of this one
    · obtain ⟨a, ⟨c', hc', hreached⟩, ha⟩ := ih hrest
      exact ⟨a, ⟨c', List.mem_cons_of_mem _ hc', hreached⟩, ha⟩
    dsimp only at h
    split at h
    · cases h
    · split at h <;> cases h

omit [DecidableEq ρ] in
/-- A literal that is evaluated is one of the condition's. -/
theorem Reached.mem_flatten {cs : List (List α)} {a : α} (h : Reached ok literal cs a) :
    a ∈ cs.flatten := by
  obtain ⟨c, hc, before, after, rfl, -⟩ := h
  exact List.mem_flatten.mpr ⟨_, hc, by simp⟩

/-- A clause whose verdict is not `ok` fails in a literal that is evaluated. -/
theorem exists_fails_of_evalClause {c : List α} {verdict : ρ} {value : Bool}
    (h : Outcome.catchAs (fun e => (handler e, false)) (evalClause ok literal c) =
      .returned (verdict, value)) (hne : verdict ≠ ok) :
    ∃ before a after, c = before ++ a :: after ∧
      (∀ b ∈ before, ∃ value, literal b = .returned (ok, value)) ∧
        Fails ok handler literal a verdict := by
  induction c generalizing value with
  | nil => exact (hne (Outcome.pair_inj h).1.symm).elim
  | cons a rest ih =>
    cases ha : literal a with
    | returned result =>
      obtain ⟨verdict', value'⟩ := result
      by_cases hok : verdict' = ok
      · subst hok
        -- the value can change on the way out, the verdict does not
        have hrest : ∃ value, Outcome.catchAs (fun e => (handler e, false))
            (evalClause verdict' literal rest) = .returned (verdict, value) := by
          simp only [evalClause, ha, Outcome.bind_returned, ne_eq, not_true_eq_false,
            if_false] at h
          cases hr : evalClause verdict' literal rest with
          | returned result =>
            simp only [hr, Outcome.bind_returned] at h
            split at h
            · obtain ⟨rfl, -⟩ := Outcome.pair_inj h
              exact ⟨_, rfl⟩
            · exact (hne (Outcome.pair_inj h).1.symm).elim
          | threw e =>
            rw [hr] at h
            exact ⟨_, h⟩
          | undefined u =>
            rw [hr] at h
            cases h
        obtain ⟨value, hrest⟩ := hrest
        obtain ⟨before, b, after, rfl, hbefore, hb⟩ := ih hrest
        refine ⟨a :: before, b, after, rfl, fun b' hb' => ?_, hb⟩
        rcases List.mem_cons.mp hb' with rfl | hb'
        · exact ⟨value', ha⟩
        · exact hbefore b' hb'
      · simp only [evalClause, ha, Outcome.bind_returned, ne_eq, hok, not_false_eq_true,
          if_true] at h
        obtain ⟨rfl, -⟩ := Outcome.pair_inj h
        exact ⟨[], a, rest, rfl, by simp, .returned ha hok⟩
    | threw e =>
      -- an exception ends the clause, and the handler makes its verdict
      simp only [evalClause, ha, Outcome.bind_threw, Outcome.catchAs_threw] at h
      obtain ⟨rfl, -⟩ := Outcome.pair_inj h
      exact ⟨[], a, rest, rfl, by simp, .threw ha⟩
    | undefined u => simp [evalClause, ha] at h

/-- A verdict that is not `ok` is that of a literal that is evaluated and fails. -/
theorem exists_fails_of_evalClauses {cs : List (List α)} {verdict : ρ} {value : Bool}
    (h : evalClauses ok handler literal cs = .returned (verdict, value)) (hne : verdict ≠ ok) :
    ∃ a, Reached ok literal cs a ∧ Fails ok handler literal a verdict := by
  induction cs generalizing value with
  | nil => exact (hne (Outcome.pair_inj h).1.symm).elim
  | cons c rest ih =>
    rw [evalClauses] at h
    obtain ⟨⟨first, firstValue⟩, hc, h⟩ := Outcome.bind_eq_returned.mp h
    obtain ⟨⟨restVerdict, restValue⟩, hrest, h⟩ := Outcome.bind_eq_returned.mp h
    dsimp only at h
    split at h
    -- the verdict of the first clause comes before that of the others
    · obtain ⟨rfl, rfl⟩ := Outcome.pair_inj h
      obtain ⟨before, a, after, rfl, hbefore, ha⟩ := exists_fails_of_evalClause hc hne
      exact ⟨a, ⟨_, List.mem_cons_self, before, after, rfl, hbefore⟩, ha⟩
    split at h
    · obtain ⟨rfl, rfl⟩ := Outcome.pair_inj h
      obtain ⟨a, ⟨c', hc', hreached⟩, ha⟩ := ih hrest
      exact ⟨a, ⟨c', List.mem_cons_of_mem _ hc', hreached⟩, ha⟩
    · exact (hne (Outcome.pair_inj h).1.symm).elim

/-- Nothing is thrown out of the evaluation. -/
theorem evalClauses_ne_threw (cs : List (List α)) (e : Exception) :
    evalClauses ok handler literal cs ≠ .threw e := by
  induction cs with
  | nil => nofun
  | cons c rest ih =>
    intro h
    rw [evalClauses] at h
    rcases Outcome.bind_eq_threw.mp h with hc | ⟨⟨verdict, value⟩, -, h⟩
    · exact Outcome.catchAs_ne_threw _ _ _ hc
    · rcases Outcome.bind_eq_threw.mp h with hrest | ⟨⟨restVerdict, restValue⟩, -, h⟩
      · exact ih hrest
      · dsimp only at h
        split at h
        · cases h
        · split at h <;> cases h

/-- The evaluation is undefined where a literal that is evaluated is: no clause is left out. -/
theorem exists_undefined_of_reached {cs : List (List α)} {a : α} {u : UndefinedBehavior}
    (h : Reached ok literal cs a) (ha : literal a = .undefined u) :
    ∃ u', evalClauses ok handler literal cs = .undefined u' := by
  obtain ⟨c, hc, before, after, hsplit, hbefore⟩ := h
  have hundefined : evalClause ok literal c = .undefined u :=
    evalClause_eq_undefined_iff.mpr ⟨before, a, after, hsplit, hbefore, ha⟩
  induction cs with
  | nil => cases hc
  | cons c' rest ih =>
    rcases List.mem_cons.mp hc with rfl | hc
    · exact ⟨u, by simp [evalClauses, hundefined]⟩
    · obtain ⟨u', hu'⟩ := ih hc
      -- the first clause cannot keep the rest from being evaluated
      cases hfirst : Outcome.catchAs (fun e => (handler e, false)) (evalClause ok literal c') with
      | returned result => exact ⟨u', by simp [evalClauses, hfirst, hu']⟩
      | threw e => exact (Outcome.catchAs_ne_threw _ _ _ hfirst).elim
      | undefined u'' => exact ⟨u'', by simp [evalClauses, Outcome.catchAs_eq_undefined.mp hfirst]⟩

/-- The leftmost failing literal decides the verdict, unless a literal after it is undefined. -/
theorem evalClauses_of_fails {value : α → Bool} {cs : List (List α)} {before after : List α}
    {a : α} {verdict : ρ} (hcs : cs.flatten = before ++ a :: after)
    (hbefore : ∀ b ∈ before, literal b = .returned (ok, value b))
    (ha : Fails ok handler literal a verdict) (hverdict : verdict ≠ ok) :
    evalClauses ok handler literal cs = .returned (verdict, false) ∨
      ∃ b ∈ after, ∃ u, literal b = .undefined u ∧
        evalClauses ok handler literal cs = .undefined u := by
  induction cs generalizing before with
  | nil => simp at hcs
  | cons c rest ih =>
    rw [List.flatten_cons] at hcs
    -- the failing literal is in a later clause, or in this one
    have hcases : (∃ before', before = c ++ before' ∧ rest.flatten = before' ++ a :: after) ∨
        ∃ c', c = before ++ a :: c' ∧ after = c' ++ rest.flatten := by
      rcases List.append_eq_append_iff.mp hcs with ⟨before', rfl, hrest⟩ | ⟨c', rfl, hafter⟩
      · exact Or.inl ⟨before', rfl, hrest⟩
      · cases c' with
        | nil => exact Or.inl ⟨[], by simp, hafter.symm⟩
        | cons b c' =>
          obtain ⟨rfl, rfl⟩ := List.cons.inj hafter
          exact Or.inr ⟨c', rfl, rfl⟩
    -- by induction a later clause decides, as this one returns `ok`; in this clause the failing
    -- literal ends it, and the rest is evaluated only for its undefined behavior
    rcases hcases with ⟨before', rfl, hrest⟩ | ⟨c', rfl, rfl⟩
    · have hc : evalClause ok literal c = .returned (ok, c.all value) :=
        evalClause_of_ok fun b hb => hbefore b (List.mem_append_left _ hb)
      rcases ih hrest fun b hb => hbefore b (List.mem_append_right _ hb) with
        hreturned | ⟨b, hb, u, hu, hundefined⟩
      · left
        simp [evalClauses, hc, hreturned, hverdict]
      · exact Or.inr ⟨b, hb, u, hu, by simp [evalClauses, hc, hundefined]⟩
    · have hc : Outcome.catchAs (fun e => (handler e, false))
          (evalClause ok literal (before ++ a :: c')) = .returned (verdict, false) :=
        evalClause_of_fails hbefore ha
      cases hrest : evalClauses ok handler literal rest with
      | returned result => simp [evalClauses, hc, hrest, hverdict]
      | threw e => exact (evalClauses_ne_threw rest e hrest).elim
      | undefined u =>
        obtain ⟨b, hb, hu⟩ := reached_of_evalClauses hrest
        exact Or.inr ⟨b, List.mem_append_right _ hb.mem_flatten, u, hu,
          by simp [evalClauses, hc, hrest]⟩

/-- The evaluation depends on its literals only. -/
theorem evalClauses_congr {literal' : α → Outcome (ρ × Bool)} {cs : List (List α)}
    (h : ∀ a ∈ cs.flatten, literal a = literal' a) :
    evalClauses ok handler literal cs = evalClauses ok handler literal' cs := by
  have hclause : ∀ c : List α, (∀ a ∈ c, literal a = literal' a) →
      evalClause ok literal c = evalClause ok literal' c := by
    intro c hc
    induction c with
    | nil => rfl
    | cons a rest ih =>
      simp only [evalClause, hc a List.mem_cons_self,
        ih fun b hb => hc b (List.mem_cons_of_mem _ hb)]
  induction cs with
  | nil => rfl
  | cons c rest ih =>
    rw [List.flatten_cons] at h
    simp only [evalClauses, hclause c fun a ha => h a (List.mem_append_left _ ha),
      ih fun a ha => h a (List.mem_append_right _ ha)]

/-- A conjunction with the verdict `ok` has literals with the verdict `ok` only. -/
theorem exists_value_of_evalClause {c : List α} {value : Bool}
    (h : evalClause ok literal c = .returned (ok, value)) :
    ∀ a ∈ c, ∃ value, literal a = .returned (ok, value) := by
  induction c generalizing value with
  | nil => simp
  | cons a rest ih =>
    rw [evalClause] at h
    obtain ⟨⟨verdict, first⟩, ha, h⟩ := Outcome.bind_eq_returned.mp h
    dsimp only at h
    split at h
    · next hne => exact (hne (Outcome.pair_inj h).1).elim
    next hok =>
    obtain ⟨⟨restVerdict, restValue⟩, hrest, h⟩ := Outcome.bind_eq_returned.mp h
    dsimp only at h
    split at h
    · next hne => exact (hne (Outcome.pair_inj h).1).elim
    next hok' =>
    obtain rfl : verdict = ok := Decidable.not_not.mp hok
    obtain rfl : restVerdict = verdict := Decidable.not_not.mp hok'
    exact List.forall_mem_cons.mpr ⟨⟨first, ha⟩, ih hrest⟩

/-- A disjunction with the verdict `ok` has literals with the verdict `ok` only. -/
theorem exists_value_of_evalClauses (hhandler : ∀ e, handler e ≠ ok) {cs : List (List α)}
    {value : Bool} (h : evalClauses ok handler literal cs = .returned (ok, value)) :
    ∀ a ∈ cs.flatten, ∃ value, literal a = .returned (ok, value) := by
  induction cs generalizing value with
  | nil => simp
  | cons c rest ih =>
    rw [evalClauses] at h
    obtain ⟨⟨verdict, first⟩, hc, h⟩ := Outcome.bind_eq_returned.mp h
    obtain ⟨⟨restVerdict, restValue⟩, hrest, h⟩ := Outcome.bind_eq_returned.mp h
    dsimp only at h
    split at h
    · next hne => exact (hne (Outcome.pair_inj h).1).elim
    next hok =>
    split at h
    · next hne => exact (hne (Outcome.pair_inj h).1).elim
    next hok' =>
    obtain rfl : verdict = ok := Decidable.not_not.mp hok
    obtain rfl : restVerdict = verdict := Decidable.not_not.mp hok'
    -- the verdict of a handler is another one
    rcases Outcome.catchAs_eq_returned.mp hc with hc | ⟨e, -, heq⟩
    · rw [List.flatten_cons]
      exact List.forall_mem_append.mpr ⟨exists_value_of_evalClause hc, ih hrest⟩
    · exact (hhandler e (Outcome.pair_inj (congrArg Outcome.returned heq)).1).elim

omit [DecidableEq ρ] in
/-- A literal is evaluated if all literals before it in the disjunction return `ok`. -/
theorem reached_of_flatten {cs : List (List α)} {before after : List α} {a : α}
    (hcs : cs.flatten = before ++ a :: after)
    (hbefore : ∀ b ∈ before, ∃ value, literal b = .returned (ok, value)) :
    Reached ok literal cs a := by
  induction cs generalizing before with
  | nil => simp at hcs
  | cons c rest ih =>
    rw [List.flatten_cons] at hcs
    -- the literal is in a later clause, or in this one
    rcases List.append_eq_append_iff.mp hcs with ⟨before', rfl, hrest⟩ | ⟨c', rfl, hafter⟩
    · obtain ⟨c', hc', hreached⟩ := ih hrest fun b hb => hbefore b (List.mem_append_right _ hb)
      exact ⟨c', List.mem_cons_of_mem _ hc', hreached⟩
    · cases c' with
      | nil =>
        obtain ⟨c', hc', hreached⟩ := @ih [] hafter.symm nofun
        exact ⟨c', List.mem_cons_of_mem _ hc', hreached⟩
      | cons b c' =>
        obtain ⟨rfl, rfl⟩ := List.cons.inj hafter
        exact ⟨_, List.mem_cons_self, before, c', rfl, hbefore⟩

/-- The first element of a list with a property. -/
theorem exists_first {P : α → Prop} {l : List α} (h : ∃ a ∈ l, P a) :
    ∃ before a after, l = before ++ a :: after ∧ (∀ b ∈ before, ¬ P b) ∧ P a := by
  induction l with
  | nil => simp at h
  | cons b l ih =>
    by_cases hb : P b
    · exact ⟨[], b, l, rfl, by simp, hb⟩
    · obtain ⟨before, a, after, rfl, hbefore, ha⟩ := ih (by simpa [hb] using h)
      exact ⟨b :: before, a, after, rfl, List.forall_mem_cons.mpr ⟨hb, hbefore⟩, ha⟩

/-- Literals that do not fail return `ok` up to the first failing one, if none that is evaluated is
undefined. -/
theorem exists_value_of_not_fails {cs : List (List α)}
    (hdefined : ∀ a u, Reached ok literal cs a → literal a ≠ .undefined u) {before after : List α}
    (hcs : cs.flatten = before ++ after)
    (hbefore : ∀ b ∈ before, ∀ verdict, ¬ Fails ok handler literal b verdict) :
    ∀ b ∈ before, ∃ value, literal b = .returned (ok, value) := by
  by_contra hnot
  push Not at hnot
  -- the first literal that does not return `ok` is evaluated
  obtain ⟨before', b, after', rfl, hbefore', hb⟩ := exists_first hnot
  have hsplit : cs.flatten = before' ++ b :: (after' ++ after) := by
    rw [hcs, List.append_assoc, List.cons_append]
  have hreached : Reached ok literal cs b := by
    apply reached_of_flatten hsplit
    intro b' hb'
    have hvalue := hbefore' b' hb'
    push Not at hvalue
    exact hvalue
  have hfails := hbefore b (by simp)
  cases hliteral : literal b with
  | returned result =>
    obtain ⟨verdict, value⟩ := result
    by_cases hok : verdict = ok
    · exact hb value (hok ▸ hliteral)
    · exact hfails verdict (.returned hliteral hok)
  | threw e => exact hfails _ (.threw hliteral)
  | undefined u => exact hdefined b u hreached hliteral

omit [DecidableEq ρ] in
/-- A failing literal has a verdict that is not `ok`. -/
theorem Fails.verdict_ne_ok (hhandler : ∀ e, handler e ≠ ok) {a : α} {verdict : ρ}
    (h : Fails ok handler literal a verdict) : verdict ≠ ok := by
  cases h with
  | returned _ hne => exact hne
  | threw _ => exact hhandler _

omit [DecidableEq ρ] in
/-- A literal that returns `ok` does not fail. -/
theorem not_fails_of_returned {a : α} {value : Bool} (h : literal a = .returned (ok, value))
    (verdict : ρ) : ¬ Fails ok handler literal a verdict := by
  rintro (⟨h', hne⟩ | h')
  · exact hne (Outcome.pair_inj (h'.symm.trans h)).1
  · cases h'.symm.trans h

/-- The evaluation decides the disjunction exactly if no literal that is evaluated is undefined. -/
theorem decides_evalClauses_iff (hhandler : ∀ e, handler e ≠ ok) {cs : List (List α)} :
    Decides ok handler literal cs (evalClauses ok handler literal cs) ↔
      ∀ a u, Reached ok literal cs a → literal a ≠ .undefined u := by
  constructor
  -- whatever the verdict, it is one
  · intro hdecides a u hreached hu
    obtain ⟨u', hu'⟩ : ∃ u', evalClauses ok handler literal cs = .undefined u' :=
      exists_undefined_of_reached hreached hu
    by_cases hfails : ∃ b ∈ cs.flatten, ∃ verdict, Fails ok handler literal b verdict
    · obtain ⟨before, b, after, hcs, hbefore, verdict, hb⟩ := exists_first hfails
      push Not at hbefore
      cases hu'.symm.trans (hdecides.verdict before b after verdict hcs hbefore hb)
    · push Not at hfails
      obtain ⟨value, -, hvalue⟩ := hdecides.value hfails
      cases hu'.symm.trans hvalue
  · intro hdefined
    constructor
    · intro hnot
      have hall := exists_value_of_not_fails hdefined (List.append_nil cs.flatten).symm hnot
      choose! value hvalue using hall
      exact ⟨value, hvalue, evalClauses_of_ok hvalue⟩
    · intro before a after verdict hcs hbefore ha
      have hall := exists_value_of_not_fails hdefined hcs hbefore
      choose! value hvalue using hall
      rcases evalClauses_of_fails hcs hvalue ha (ha.verdict_ne_ok hhandler) with
        hreturned | ⟨-, -, u, -, hu⟩
      · exact hreturned
      · obtain ⟨b, hreached, hb⟩ := reached_of_evalClauses hu
        exact (hdefined b u hreached hb).elim

/-- Where literals agree with their values, disjunctions do. -/
theorem agrees_evalClauses {value : α → Option Bool} (hhandler : ∀ e, handler e ≠ ok)
    {cs : List (List α)} (h : ∀ a ∈ cs.flatten, (literal a).Agrees ok (value a)) :
    (evalClauses ok handler literal cs).Agrees ok (clausesValue value cs) := by
  cases hresult : evalClauses ok handler literal cs with
  | returned result =>
    obtain ⟨verdict, v⟩ := result
    by_cases hverdict : verdict = ok
    -- all literals have a value, and the clauses are evaluated to that of the disjunction
    · subst hverdict
      have hvalue : ∀ a ∈ cs.flatten, ∃ v, value a = some v ∧
          literal a = .returned (verdict, v) := by
        intro a ha
        obtain ⟨v, hv⟩ := exists_value_of_evalClauses hhandler hresult a ha
        have hagrees := h a ha
        rw [hv] at hagrees
        exact ⟨v, hagrees.eq_of_returned.trans (if_pos rfl), hv⟩
      have hall : cs.flatten.all (fun a => (value a).isSome) = true := by
        refine List.all_eq_true.mpr fun a ha => ?_
        obtain ⟨v, hv, -⟩ := hvalue a ha
        rw [hv, Option.isSome_some]
      have hvalues : ∀ a ∈ cs.flatten, literal a = .returned (verdict, (value a).getD false) := by
        intro a ha
        obtain ⟨v, hv, hliteral⟩ := hvalue a ha
        rw [hliteral, hv, Option.getD_some]
      rw [evalClauses_of_ok hvalues] at hresult
      rw [clausesValue, if_pos hall, (Outcome.pair_inj hresult).2]
      exact .some
    -- a literal fails, and has no value
    · obtain ⟨a, hreached, ha⟩ := exists_fails_of_evalClauses hresult hverdict
      have hagrees := h a hreached.mem_flatten
      have hnone : value a = none := by
        cases ha with
        | returned hliteral hne =>
          rw [hliteral] at hagrees
          exact hagrees.eq_of_returned.trans (if_neg hne)
        | threw hliteral =>
          rw [hliteral] at hagrees
          exact hagrees.eq_none
      have hall : ¬ cs.flatten.all (fun a => (value a).isSome) = true := fun hall => by
        have hsome := List.all_eq_true.mp hall a hreached.mem_flatten
        rw [hnone] at hsome
        cases hsome
      rw [clausesValue, if_neg hall]
      exact .none hverdict
  | threw e => exact (evalClauses_ne_threw cs e hresult).elim
  | undefined u => exact .undefined

end Results

end Cxx
