import Mathlib.Tactic.TypeStar

/-!
# Outcomes of C++ functions

A call of a C++ function ends in one of three ways: it returns, an exception leaves it, or its
behavior is undefined. `Outcome` has one constructor for each. `Parse` adds a fourth, an early
return with a rejection, for functions that leave at the first check that fails.

Both are monads. A `try` block is the block's outcome under `Outcome.catchAs` or
`Parse.catchAs`, which turn an exception into a value and leave undefined behavior undefined.

## Main definitions

* `Outcome`, `Parse`: the two types, with their monad instances;
* `Outcome.Returns`: the call returns;
* `Outcome.Agrees`: the call returns a value exactly if there is one;
* `Parse.Settles`: the parser accepts or rejects, so nothing is thrown and nothing undefined;
* `Parse.RejectsOnly`: what the parser rejects, it rejects for one of some reasons.

## Main results

* `Outcome.bind_eq_returned` and its companions: what a sequence did from what it ended in;
* `Parse.Settles.bind`, `Parse.Settles.catchAs`: settling is closed under sequencing, and a
  settled `try` block never reaches its handler.
-/

namespace Cxx

/-- The standard exception types thrown by the library functions modelled here. -/
inductive ExceptionType
  | invalidArgument
  | outOfRange
deriving DecidableEq, Repr

/-- A `std::exception`: its dynamic type and the text `what()` returns. -/
structure Exception where
  /-- The dynamic type of the exception. -/
  type : ExceptionType
  /-- The text returned by `what()`. -/
  what : List Char
deriving DecidableEq, Repr

/-- The kinds of undefined behavior the models tell apart. -/
inductive UndefinedBehavior
  /-- An iterator is moved or dereferenced outside its range. -/
  | iteratorPastEnd
  /-- Characters are read beyond the end of a buffer. -/
  | readPastEnd
  /-- A null pointer is dereferenced. -/
  | nullDereference
  /-- `static_cast` to a class that the object is not an instance of. -/
  | badCast
  /-- A loop or a recursion that never ends. -/
  | noProgress
deriving DecidableEq, Repr

/-- How a function call ends. -/
inductive Outcome (α : Type) where
  /-- The call returns a value. -/
  | returned (a : α)
  /-- An exception leaves the call. -/
  | threw (e : Exception)
  /-- The behavior of the call is undefined. -/
  | undefined (u : UndefinedBehavior)
deriving DecidableEq, Repr

namespace Outcome

variable {α β : Type}

/-- Sequencing: only a returned value is passed on. -/
protected def bind : Outcome α → (α → Outcome β) → Outcome β
  | returned a, f => f a
  | threw e, _ => threw e
  | undefined u, _ => undefined u

instance : Monad Outcome where
  pure := returned
  bind := Outcome.bind

@[simp] theorem pure_eq (a : α) : (pure a : Outcome α) = returned a := rfl

@[simp] theorem bind_returned (a : α) (f : α → Outcome β) : (returned a >>= f) = f a := rfl

@[simp] theorem bind_threw (e : Exception) (f : α → Outcome β) :
    (threw e >>= f) = threw e := rfl

@[simp] theorem bind_undefined (u : UndefinedBehavior) (f : α → Outcome β) :
    (undefined u >>= f) = undefined u := rfl

instance : LawfulMonad Outcome :=
  LawfulMonad.mk' Outcome (fun x => by cases x <;> rfl) (fun _ _ => rfl)
    (fun x _ _ => by cases x <;> rfl)

/-- The handler of a `try` block that catches `std::exception`. -/
def catchAs (handler : Exception → α) : Outcome α → Outcome α
  | returned a => returned a
  | threw e => returned (handler e)
  | undefined u => undefined u

/-- Two calls that return the same pair return the same components. -/
theorem pair_inj {β : Type} {a a' : α} {b b' : β}
    (h : returned (a, b) = returned (a', b')) : a = a' ∧ b = b' := Prod.mk.inj (returned.inj h)

@[simp] theorem catchAs_returned (handler : Exception → α) (a : α) :
    catchAs handler (returned a) = returned a := rfl

@[simp] theorem catchAs_threw (handler : Exception → α) (e : Exception) :
    catchAs handler (threw e) = returned (handler e) := rfl

@[simp] theorem catchAs_undefined (handler : Exception → α) (u : UndefinedBehavior) :
    catchAs handler (undefined u) = undefined u := rfl

/-- The call returns normally. -/
def Returns (x : Outcome α) : Prop := ∃ a, x = returned a

/-- The call returns a value that passes a test. -/
def returnsWith (test : α → Bool) : Outcome α → Bool
  | returned a => test a
  | _ => false

theorem exists_of_returnsWith {test : α → Bool} {x : Outcome α} (h : x.returnsWith test = true) :
    ∃ a, x = returned a ∧ test a = true := by
  cases x with
  | returned a => exact ⟨a, rfl, h⟩
  | threw e => cases h
  | undefined u => cases h

/-- A sequence returns exactly when both parts do. -/
theorem bind_eq_returned {x : Outcome α} {f : α → Outcome β} {b : β} :
    (x >>= f) = returned b ↔ ∃ a, x = returned a ∧ f a = returned b := by
  cases x <;> simp

/-- A sequence throws what its first or its second part throws. -/
theorem bind_eq_threw {x : Outcome α} {f : α → Outcome β} {e : Exception} :
    (x >>= f) = threw e ↔ x = threw e ∨ ∃ a, x = returned a ∧ f a = threw e := by
  cases x <;> simp

/-- A sequence is undefined where its first or its second part is. -/
theorem bind_eq_undefined {x : Outcome α} {f : α → Outcome β} {u : UndefinedBehavior} :
    (x >>= f) = undefined u ↔ x = undefined u ∨ ∃ a, x = returned a ∧ f a = undefined u := by
  cases x <;> simp

@[simp] theorem returns_returned (a : α) : (returned a).Returns := ⟨a, rfl⟩

@[simp] theorem not_returns_threw (e : Exception) : ¬ (threw e : Outcome α).Returns := nofun

@[simp] theorem not_returns_undefined (u : UndefinedBehavior) :
    ¬ (undefined u : Outcome α).Returns := nofun

/-- A `try` block whose body is defined returns. -/
theorem returns_catchAs {handler : Exception → α} {x : Outcome α} (h : ∀ u, x ≠ undefined u) :
    (catchAs handler x).Returns := by
  cases x with
  | returned a => exact ⟨a, rfl⟩
  | threw e => exact ⟨handler e, rfl⟩
  | undefined u => exact (h u rfl).elim

/-- A `try` block returns what its body returns, or what its handler makes of an exception. -/
theorem catchAs_eq_returned {handler : Exception → α} {x : Outcome α} {a : α} :
    catchAs handler x = returned a ↔ x = returned a ∨ ∃ e, x = threw e ∧ handler e = a := by
  cases x <;> simp

/-- Nothing leaves a `try` block as an exception. -/
theorem catchAs_ne_threw (handler : Exception → α) (x : Outcome α) (e : Exception) :
    catchAs handler x ≠ threw e := by
  cases x <;> simp

/-- A `try` block is undefined exactly where its body is. -/
@[simp] theorem catchAs_eq_undefined {handler : Exception → α} {x : Outcome α}
    {u : UndefinedBehavior} : catchAs handler x = undefined u ↔ x = undefined u := by
  cases x <;> simp

/-! ## Verdicts and values -/

section Agrees

variable {ρ : Type} {ok : ρ}

/-- A call that returns a verdict agrees with a value that may be missing: it returns the value with
the verdict `ok`, or else another verdict, or throws. Undefined behavior agrees with everything. -/
inductive Agrees (ok : ρ) : Outcome (ρ × α) → Option α → Prop
  | some {a : α} : Agrees ok (.returned (ok, a)) (some a)
  | none {verdict : ρ} {a : α} : verdict ≠ ok → Agrees ok (.returned (verdict, a)) none
  | threw {e : Exception} : Agrees ok (.threw e) none
  | undefined {u : UndefinedBehavior} {value : Option α} : Agrees ok (.undefined u) value

/-- What is returned tells the value. -/
theorem Agrees.eq_of_returned [DecidableEq ρ] {verdict : ρ} {a : α} {value : Option α}
    (h : Agrees ok (.returned (verdict, a)) value) :
    value = if verdict = ok then .some a else .none := by
  cases h with
  | some => rw [if_pos rfl]
  | none hne => rw [if_neg hne]

/-- A call that throws has no value. -/
theorem Agrees.eq_none {e : Exception} {value : Option α} (h : Agrees ok (.threw e) value) :
    value = .none := by
  cases h
  rfl

/-- A call that passes on any verdict but `ok` agrees with a value that is missing if the first one
is. -/
theorem Agrees.bind [DecidableEq ρ] {x : Outcome (ρ × α)} {value : Option α}
    {next : α → Outcome (ρ × β)} {nextValue : α → Option β} (h : Agrees ok x value) (default : β)
    (hnext : ∀ a, Agrees ok (next a) (nextValue a)) :
    Agrees ok (x >>= fun result =>
        if result.1 ≠ ok then pure (result.1, default) else next result.2)
      (value.bind nextValue) := by
  cases h with
  | @some a =>
    rw [bind_returned, if_neg (not_not_intro rfl)]
    exact hnext a
  | none hne =>
    rw [bind_returned, if_pos hne]
    exact .none hne
  | threw => exact .threw
  | undefined => exact .undefined

end Agrees

end Outcome

/-- How a parser ends: the three ways of `Outcome`, or an early return that rejects. -/
inductive Parse (ρ α : Type) where
  /-- The parser runs to its end and yields what it built. -/
  | accepted (a : α)
  /-- The parser leaves early with an error. -/
  | rejected (r : ρ)
  /-- An exception leaves the parser. -/
  | threw (e : Exception)
  /-- The behavior of the parser is undefined. -/
  | undefined (u : UndefinedBehavior)
deriving DecidableEq, Repr

namespace Parse

variable {ρ α β : Type}

/-- Sequencing: only an accepted value is passed on. -/
protected def bind : Parse ρ α → (α → Parse ρ β) → Parse ρ β
  | accepted a, f => f a
  | rejected r, _ => rejected r
  | threw e, _ => threw e
  | undefined u, _ => undefined u

instance : Monad (Parse ρ) where
  pure := accepted
  bind := Parse.bind

@[simp] theorem pure_eq (a : α) : (pure a : Parse ρ α) = accepted a := rfl

@[simp] theorem bind_accepted (a : α) (f : α → Parse ρ β) : (accepted a >>= f) = f a := rfl

@[simp] theorem map_accepted (f : α → β) (a : α) :
    f <$> (accepted a : Parse ρ α) = accepted (f a) := rfl

@[simp] theorem bind_rejected (r : ρ) (f : α → Parse ρ β) :
    (rejected r >>= f) = rejected r := rfl

@[simp] theorem bind_threw (e : Exception) (f : α → Parse ρ β) :
    (threw e >>= f : Parse ρ β) = threw e := rfl

@[simp] theorem bind_undefined (u : UndefinedBehavior) (f : α → Parse ρ β) :
    (undefined u >>= f : Parse ρ β) = undefined u := rfl

instance : LawfulMonad (Parse ρ) :=
  LawfulMonad.mk' (Parse ρ) (fun x => by cases x <;> rfl) (fun _ _ => rfl)
    (fun x _ _ => by cases x <;> rfl)

/-- A call made by a parser: its exceptions and its undefined behavior are the parser's. -/
def lift : Outcome α → Parse ρ α
  | .returned a => accepted a
  | .threw e => threw e
  | .undefined u => undefined u

instance : MonadLift Outcome (Parse ρ) := ⟨lift⟩

@[simp] theorem liftM_returned (a : α) :
    (liftM (Outcome.returned a) : Parse ρ α) = accepted a := rfl

@[simp] theorem liftM_threw (e : Exception) :
    (liftM (Outcome.threw e : Outcome α) : Parse ρ α) = threw e := rfl

@[simp] theorem liftM_undefined (u : UndefinedBehavior) :
    (liftM (Outcome.undefined u : Outcome α) : Parse ρ α) = undefined u := rfl

/-- The handler of a `try` block: an exception thrown in the block becomes a rejection. -/
def catchAs (handler : Exception → ρ) : Parse ρ α → Parse ρ α
  | accepted a => accepted a
  | rejected r => rejected r
  | threw e => rejected (handler e)
  | undefined u => undefined u

/-- Rewrite the reason of a rejection. -/
def mapRejection {ρ' : Type} (f : ρ → ρ') : Parse ρ α → Parse ρ' α
  | accepted a => accepted a
  | rejected r => rejected (f r)
  | threw e => threw e
  | undefined u => undefined u

@[simp] theorem mapRejection_eq_accepted {ρ' : Type} {f : ρ → ρ'} {x : Parse ρ α} {a : α} :
    mapRejection f x = accepted a ↔ x = accepted a := by
  cases x <;> simp [mapRejection]

/-- The parser accepts or rejects: no exception leaves it and its behavior is defined. -/
def Settles : Parse ρ α → Prop
  | accepted _ => True
  | rejected _ => True
  | threw _ => False
  | undefined _ => False

@[simp] theorem settles_accepted (a : α) : Settles (accepted a : Parse ρ α) := trivial

@[simp] theorem settles_rejected (r : ρ) : Settles (rejected r : Parse ρ α) := trivial

@[simp] theorem not_settles_threw (e : Exception) : ¬ Settles (threw e : Parse ρ α) := id

@[simp] theorem not_settles_undefined (u : UndefinedBehavior) :
    ¬ Settles (undefined u : Parse ρ α) := id

/-- A sequence of parsers settles if the first does and the second does on what the first
built. -/
theorem Settles.bind {x : Parse ρ α} {f : α → Parse ρ β} (hx : Settles x)
    (hf : ∀ a, x = accepted a → Settles (f a)) : Settles (x >>= f) := by
  cases x with
  | accepted a => exact hf a rfl
  | rejected r => trivial
  | threw e => exact hx.elim
  | undefined u => exact hx.elim

theorem Settles.map {x : Parse ρ α} (hx : Settles x) (f : α → β) : Settles (f <$> x) := by
  cases x with
  | accepted a => trivial
  | rejected r => trivial
  | threw e => exact hx.elim
  | undefined u => exact hx.elim

theorem Settles.mapRejection {ρ' : Type} {x : Parse ρ α} (hx : Settles x) (f : ρ → ρ') :
    Settles (mapRejection f x) := by
  cases x with
  | accepted a => trivial
  | rejected r => trivial
  | threw e => exact hx.elim
  | undefined u => exact hx.elim

/-- A `try` block settles unless its body is undefined. -/
theorem settles_catchAs {x : Parse ρ α} (hx : ∀ u, x ≠ undefined u) (handler : Exception → ρ) :
    (catchAs handler x).Settles := by
  cases x with
  | accepted a => trivial
  | rejected r => trivial
  | threw e => trivial
  | undefined u => exact (hx u rfl).elim

/-- A settled `try` block never reaches its handler. -/
theorem Settles.catchAs {x : Parse ρ α} (hx : Settles x) (handler : Exception → ρ) :
    catchAs handler x = x := by
  cases x with
  | accepted a => rfl
  | rejected r => rfl
  | threw e => exact hx.elim
  | undefined u => exact hx.elim

/-- A sequence accepts exactly when both parts do. -/
theorem bind_eq_accepted {x : Parse ρ α} {f : α → Parse ρ β} {b : β} :
    (x >>= f) = accepted b ↔ ∃ a, x = accepted a ∧ f a = accepted b := by
  cases x <;> simp

theorem map_eq_accepted {x : Parse ρ α} {f : α → β} {b : β} :
    f <$> x = accepted b ↔ ∃ a, x = accepted a ∧ f a = b := by
  cases x <;> simp [Functor.map, Parse.bind]

/-- Every rejection has a property. -/
def RejectsOnly (P : ρ → Prop) : Parse ρ α → Prop
  | rejected r => P r
  | _ => True

/-- The rejections of a sequence are those of its parts. -/
theorem RejectsOnly.bind {P : ρ → Prop} {x : Parse ρ α} {f : α → Parse ρ β} (hx : RejectsOnly P x)
    (hf : ∀ a, RejectsOnly P (f a)) : RejectsOnly P (x >>= f) := by
  cases x with
  | accepted a => exact hf a
  | rejected r => exact hx
  | threw e => trivial
  | undefined u => trivial

theorem RejectsOnly.map {P : ρ → Prop} {x : Parse ρ α} (hx : RejectsOnly P x) (f : α → β) :
    RejectsOnly P (f <$> x) := by
  cases x with
  | accepted a => trivial
  | rejected r => exact hx
  | threw e => trivial
  | undefined u => trivial

theorem RejectsOnly.mapRejection {ρ' : Type} {P : ρ → Prop} {Q : ρ' → Prop} {x : Parse ρ α}
    (hx : RejectsOnly P x) {f : ρ → ρ'} (hf : ∀ r, P r → Q (f r)) :
    RejectsOnly Q (Parse.mapRejection f x) := by
  cases x with
  | accepted a => trivial
  | rejected r => exact hf r hx
  | threw e => trivial
  | undefined u => trivial

/-- A settled parser accepts or rejects. -/
theorem Settles.cases {x : Parse ρ α} (hx : Settles x) :
    (∃ a, x = accepted a) ∨ ∃ r, x = rejected r := by
  cases x with
  | accepted a => exact Or.inl ⟨a, rfl⟩
  | rejected r => exact Or.inr ⟨r, rfl⟩
  | threw e => exact hx.elim
  | undefined u => exact hx.elim

end Parse

end Cxx
