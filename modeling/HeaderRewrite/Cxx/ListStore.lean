import Mathlib.Logic.Function.Basic
import HeaderRewrite.Cxx.Text

/-!
# Stores of lists

A store holds a list under some of its keys. It is written by replacing or extending the list of a
key, and read by position, counted from the end of the list if the position is negative.

## Main definitions

* `ListStore`, `ListStore.set`, `ListStore.append`: stores and how they are written;
* `atPosition`: the element at a position.

## Main results

* `ListStore.eq_set_iff`, `ListStore.eq_append_iff`: the key written and the other keys;
* `atPosition_eq_none_iff`: which positions are out of range.
-/

namespace Cxx

/-- A store that holds a list under some of its keys. -/
abbrev ListStore (κ α : Type) := κ → Option (List α)

namespace ListStore

variable {κ α : Type} [DecidableEq κ]

/-- Replace the list of a key. -/
def set (store : ListStore κ α) (key : κ) (values : List α) : ListStore κ α :=
  Function.update store key (some values)

/-- Extend the list of a key, which is empty if there is none. -/
def append (store : ListStore κ α) (key : κ) (values : List α) : ListStore κ α :=
  store.set key ((store key).getD [] ++ values)

@[simp] theorem set_self (store : ListStore κ α) (key : κ) (values : List α) :
    store.set key values key = some values := Function.update_self ..

@[simp] theorem append_self (store : ListStore κ α) (key : κ) (values : List α) :
    store.append key values key = some ((store key).getD [] ++ values) := Function.update_self ..

/-- A store is another with a key replaced exactly if it has the list under the key and agrees on
the other keys. -/
theorem eq_set_iff {store store' : ListStore κ α} {key : κ} {values : List α} :
    store' = store.set key values ↔
      store' key = some values ∧ ∀ other, other ≠ key → store' other = store other :=
  Function.eq_update_iff

theorem eq_append_iff {store store' : ListStore κ α} {key : κ} {values : List α} :
    store' = store.append key values ↔
      store' key = some ((store key).getD [] ++ values) ∧
        ∀ other, other ≠ key → store' other = store other := eq_set_iff

end ListStore

/-! ## Positions -/

/-- The element at a position, counted from the end if the position is negative. -/
def atPosition {α : Type} (values : List α) (position : ℤ) : Option α :=
  if 0 ≤ position then values[position.toNat]?
  else if -(values.length : ℤ) ≤ position then values[(position + values.length).toNat]?
  else none

section Positions

variable {α : Type} {values : List α} {position : ℤ}

theorem atPosition_of_nonneg (h : 0 ≤ position) :
    atPosition values position = values[position.toNat]? := if_pos h

theorem atPosition_of_neg (h : position < 0) (hlow : -(values.length : ℤ) ≤ position) :
    atPosition values position = values[(position + values.length).toNat]? := by
  rw [atPosition, if_neg (by omega), if_pos hlow]

/-- There is no element at the positions before the first and after the last. -/
theorem atPosition_eq_none_iff :
    atPosition values position = none ↔
      position < -(values.length : ℤ) ∨ (values.length : ℤ) ≤ position := by
  unfold atPosition
  split
  · rw [List.getElem?_eq_none_iff]
    omega
  · split
    · rw [List.getElem?_eq_none_iff]
      omega
    · exact iff_of_true rfl (by omega)

end Positions

end Cxx
