import Mathlib.Data.List.Infix
import HeaderRewrite.Cxx.Text

/-!
# What the searches of a string find

The searches of `Cxx.Text` compute positions. Here they are related to prefixes, suffixes and
infixes of the text.

## Main results

* `isSome_find_iff`, `find_eq_zero_iff`: where a needle occurs;
* `findChars_of_le`: searching for characters of a buffer, which may include its terminating NUL;
* `findLastOf_eq_lastPosition_iff`: the character at the end of a text.
-/

namespace Cxx

/-- The character that terminates the buffer of a string. -/
def nul : Char := Char.ofNat 0

/-- A needle is found exactly if it occurs in the text. -/
theorem isSome_find_iff (s needle : Str) : (find s needle 0).isSome = true ↔ needle <:+: s := by
  rw [find, List.drop_zero, List.find?_isSome]
  constructor
  · rintro ⟨i, -, hbegin⟩
    exact (List.isPrefixOf_iff_prefix.mp hbegin).isInfix.trans (List.drop_suffix i s).isInfix
  · rintro ⟨before, after, rfl⟩
    have hlength : before.length < (before ++ needle ++ after).length + 1 := by
      rw [List.length_append, List.length_append]
      omega
    refine ⟨before.length, List.mem_range.mpr hlength, ?_⟩
    rw [List.append_assoc, List.drop_left, List.isPrefixOf_iff_prefix]
    exact List.prefix_append _ _

/-- A needle is found at the start exactly if the text starts with it. -/
theorem find_eq_zero_iff (s needle : Str) : find s needle 0 = some 0 ↔ needle <+: s := by
  rw [find, List.drop_zero, List.range_succ_eq_map, List.find?_cons, ← List.isPrefixOf_iff_prefix,
    List.drop_zero]
  cases hbegin : needle.isPrefixOf s with
  | true => simp
  | false =>
    simp only [Bool.false_eq_true, iff_false]
    intro h
    obtain ⟨i, -, hi⟩ := List.mem_map.mp (List.mem_of_find?_eq_some h)
    cases hi

/-- As many characters of a buffer as a text has are found at its start exactly if the text starts
the buffer, or is the buffer with its terminating NUL. -/
theorem findChars_of_le {s buffer : Str} (h : s.length ≤ buffer.length + 1) :
    ∃ position, findChars s buffer 0 s.length = .returned position ∧
      (position = some 0 ↔ s <+: buffer ∨ s = buffer ++ [nul]) := by
  refine ⟨find s ((buffer ++ [nul]).take s.length) 0, if_pos h, ?_⟩
  have hlength : ((buffer ++ [nul]).take s.length).length = s.length := by
    rw [List.length_take, List.length_append, List.length_singleton]
    omega
  rw [find_eq_zero_iff, or_comm, ← List.prefix_concat_iff]
  constructor
  · intro hbegin
    exact List.prefix_iff_eq_take.mpr (hbegin.eq_of_length hlength).symm
  · intro hbegin
    rw [← List.prefix_iff_eq_take.mp hbegin]

/-- The last occurrence of a character is the last position exactly in a text that ends with it, or
in the empty text. -/
theorem findLastOf_eq_lastPosition_iff (s : Str) (c : Char) :
    findLastOf s c = lastPosition s ↔ s = [] ∨ ∃ front, s = front ++ [c] := by
  rcases List.eq_nil_or_concat' s with rfl | ⟨front, last, rfl⟩
  · simp [findLastOf, findFirstOf, lastPosition]
  · have hposition : lastPosition (front ++ [last]) = some front.length := by simp [lastPosition]
    rw [hposition]
    by_cases hlast : last = c
    · subst hlast
      simp [findLastOf, findFirstOf, List.findIdx?_cons]
    · have hne : ∀ front', front ++ [last] ≠ front' ++ [c] := fun front' h =>
        hlast (by simpa using (List.append_inj' h rfl).2)
      refine iff_of_false ?_ (by simpa using hne)
      intro h
      simp only [findLastOf, findFirstOf, List.reverse_append, List.reverse_singleton,
        List.singleton_append, List.findIdx?_cons, hlast, decide_false, Bool.false_eq_true,
        if_false, Option.map_map, Option.map_eq_some_iff] at h
      obtain ⟨i, hi, hposition⟩ := h
      obtain ⟨hlt, -⟩ := List.findIdx?_eq_some_iff_getElem.mp hi
      simp only [List.length_reverse] at hlt
      simp only [Function.comp_apply, List.length_append, List.length_singleton] at hposition
      omega

end Cxx
