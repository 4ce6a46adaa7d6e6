import Mathlib.Algebra.Group.Int.Defs
import Mathlib.Algebra.Group.Nat.Defs
import HeaderRewrite.Cxx.Outcome

/-!
# Strings, vectors and integers of the C++ standard library

The parts of the standard library that string-processing code is written in. A `std::string` or a
`string_view` is a list of characters, a `std::vector` a list, and an iterator its index. A
character is a C++ `char`, which is one byte, and a length is a number of bytes.

A position that a search returns is an `Option`: `none` stands for `npos`, which no string is long
enough to have as a position.

## Main definitions

* `findFirstOf`, `findLastOf`, `substr`, `find`, `findChars`: searching and cutting a string;
* `vectorAt`, `deref`, `offset`: the access to a vector that throws, and the two iterator
  operations that are undefined past the end;
* `stoi`: the conversion of text to an `int`;
* `toInt32`, `addSize`: the conversion to a 32-bit `int` and the addition of a `size_t` to one.
-/

namespace Cxx

/-- The characters of a `std::string` or of an `absl::string_view`. Each `Char` stands for one
`char`, so that `List.length` is the `size()` in bytes. -/
abbrev Str := List Char

instance : Coe String Str := ⟨String.toList⟩

/-! ## Strings -/

/-- `isspace` in the C locale: the blank and the five control characters from tab to carriage
return. -/
def isSpace (c : Char) : Bool := c.toNat == 32 || (9 ≤ c.toNat && c.toNat ≤ 13)

/-- `s.find_first_of(c)` for a single character. -/
def findFirstOf (s : Str) (c : Char) : Option Nat := s.findIdx? (· = c)

/-- `s.find_last_of(c)` for a single character. -/
def findLastOf (s : Str) (c : Char) : Option Nat :=
  (findFirstOf s.reverse c).map (s.length - 1 - ·)

/-- `s.size() - 1` as a position: it wraps to `npos` on the empty string. -/
def lastPosition (s : Str) : Option Nat := if s = [] then none else some (s.length - 1)

/-- `s.substr(pos, n)`: it throws if `pos` is beyond the end, and `n` is cut to what is left. -/
def substr (s : Str) (pos n : Nat) : Outcome Str :=
  if s.length < pos then .threw ⟨.outOfRange, "basic_string::substr"⟩
  else .returned ((s.drop pos).take n)

/-- `s.find(needle, pos)`: the first position from `pos` on at which `needle` occurs. -/
def find (s needle : Str) (pos : Nat) : Option Nat :=
  ((List.range (s.length + 1)).drop pos).find? fun i => needle.isPrefixOf (s.drop i)

/-- `s.find(buffer.c_str(), pos, n)`: the needle is the `n` characters from the start of the buffer,
which holds the characters of a string and a terminating NUL and no more. -/
def findChars (s buffer : Str) (pos n : Nat) : Outcome (Option Nat) :=
  if n ≤ buffer.length + 1 then .returned (find s ((buffer ++ [Char.ofNat 0]).take n) pos)
  else .undefined .readPastEnd

theorem substr_of_le {s : Str} {pos : Nat} (h : pos ≤ s.length) (n : Nat) :
    substr s pos n = .returned ((s.drop pos).take n) := by
  simp [substr, Nat.not_lt.mpr h]

/-! ## Vectors and iterators -/

/-- `v.at(i)`: it throws outside the vector. -/
def vectorAt {α : Type} (v : List α) (i : Nat) : Outcome α :=
  match v[i]? with
  | some a => .returned a
  | none => .threw ⟨.outOfRange, "vector::_M_range_check"⟩

/-- `*it`: undefined at the end of the vector. -/
def deref {α : Type} (v : List α) (it : Nat) : Outcome α :=
  match v[it]? with
  | some a => .returned a
  | none => .undefined .iteratorPastEnd

/-- `it + n`: undefined where it would pass the end of the vector. -/
def offset {α : Type} (v : List α) (it n : Nat) : Outcome Nat :=
  if it + n ≤ v.length then .returned (it + n) else .undefined .iteratorPastEnd

@[simp] theorem vectorAt_cons_zero {α : Type} (a : α) (v : List α) :
    vectorAt (a :: v) 0 = .returned a := rfl

@[simp] theorem vectorAt_cons_succ {α : Type} (a : α) (v : List α) (i : Nat) :
    vectorAt (a :: v) (i + 1) = vectorAt v i := by
  simp only [vectorAt, List.getElem?_cons_succ]

@[simp] theorem deref_cons_zero {α : Type} (a : α) (v : List α) :
    deref (a :: v) 0 = .returned a := rfl

@[simp] theorem deref_cons_succ {α : Type} (a : α) (v : List α) (it : Nat) :
    deref (a :: v) (it + 1) = deref v it := by
  simp only [deref, List.getElem?_cons_succ]

theorem deref_of_getElem? {α : Type} {v : List α} {it : Nat} {a : α} (h : v[it]? = some a) :
    deref v it = .returned a := by
  simp [deref, h]

theorem offset_of_le {α : Type} {v : List α} {it n : Nat} (h : it + n ≤ v.length) :
    offset v it n = .returned (it + n) := by
  simp [offset, h]

/-! ## Integers -/

/-- The conversion of an integer to a 32-bit `int`, which keeps it modulo `2 ^ 32`. -/
def toInt32 (x : ℤ) : ℤ := x.bmod (2 ^ 32)

/-- `position += size` for an `int` and a 64-bit `size_t`: the sum is taken in the unsigned type
and converted back. -/
def addSize (position : ℤ) (size : Nat) : ℤ :=
  toInt32 ((position % 2 ^ 64 + size) % 2 ^ 64)

theorem toInt32_of_bounds {x : ℤ} (hlo : -2 ^ 31 ≤ x) (hhi : x < 2 ^ 31) : toInt32 x = x := by
  rw [toInt32, Int.bmod_def]
  omega

/-- The conversion of a size is at most the size, and fits an `int`. -/
theorem toInt32_size_le (size : Nat) : toInt32 size ≤ size ∧ toInt32 size < 2 ^ 31 := by
  rw [toInt32, Int.bmod_def]
  omega

/-- Adding a size below `2 ^ 31` to a negative `int` is exact. -/
theorem addSize_of_neg {position : ℤ} {size : Nat} (hlo : -2 ^ 31 ≤ position)
    (hneg : position < 0) (hsize : size < 2 ^ 31) : addSize position size = position + size := by
  rw [addSize, toInt32, Int.bmod_def]
  omega

/-- The last position of a size: it is below the size in 32-bit arithmetic exactly if the size
converts to a positive number. -/
theorem addSize_neg_one (size : Nat) :
    (addSize (-1) size < 0 ∨ addSize (-1) size ≥ toInt32 size ↔ ¬ 0 < toInt32 size) ∧
      (0 < toInt32 size → addSize (-1) size = toInt32 size - 1) := by
  simp only [addSize, toInt32, Int.bmod_def]
  omega

/-- The decimal value of a text of digits. -/
def decimalValue (digits : Str) : Nat := digits.foldl (fun n d => 10 * n + (d.toNat - 48)) 0

/-- The sign and the digits that `strtol` reads at the start of a text: blanks are skipped, then
comes an optional sign, then as many digits as there are. -/
def scanNumber (s : Str) : Bool × Str :=
  match s.dropWhile isSpace with
  | '-' :: text => (true, text.takeWhile Char.isDigit)
  | '+' :: text => (false, text.takeWhile Char.isDigit)
  | text => (false, text.takeWhile Char.isDigit)

/-- The number with a given sign and given digits. -/
def signedValue : Bool × Str → ℤ
  | (true, digits) => -(decimalValue digits : ℤ)
  | (false, digits) => decimalValue digits

/-- `std::stoi(s)`: it throws `invalid_argument` if the text starts with no number and
`out_of_range` if the number does not fit an `int`. -/
def stoi (s : Str) : Outcome ℤ :=
  if (scanNumber s).2 = [] then .threw ⟨.invalidArgument, "stoi"⟩
  else if -2 ^ 31 ≤ signedValue (scanNumber s) ∧ signedValue (scanNumber s) < 2 ^ 31 then
    .returned (signedValue (scanNumber s))
  else .threw ⟨.outOfRange, "stoi"⟩

/-- `stoi` has no undefined behavior. -/
theorem stoi_ne_undefined (s : Str) (u : UndefinedBehavior) : stoi s ≠ .undefined u := by
  unfold stoi
  split
  · simp
  · split <;> simp

example : stoi "-12x" = .returned (-12) := by decide

example : stoi "2147483648" = .threw ⟨.outOfRange, "stoi"⟩ := by decide

end Cxx
