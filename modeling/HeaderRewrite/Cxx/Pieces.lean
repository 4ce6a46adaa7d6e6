import HeaderRewrite.Cxx.Text

/-!
# The pieces of a separated text

Splitting a text at separator characters, dropping the empty or blank pieces, and trimming what
is left. `pieces c` is the reading of a text as a list separated by `c`; it turns a separator
between two texts into the concatenation of their lists.

## Main definitions

* `trim`, `isBlank`: a text without the blanks around it, and the texts that are only blanks;
* `splitText`: the pieces of a text at any of several separators, dropping the empty ones or
  trimming and dropping the blank ones;
* `pieces`: the trimmed non-blank pieces at one separator.

## Main results

* `pieces_append_cons`: the pieces of two texts joined by the separator;
* `pieces_intercalate`: the pieces of any number of texts joined by it.
-/

namespace Cxx

/-- A text without its leading and trailing white space. -/
def trim (s : Str) : Str := ((s.dropWhile isSpace).reverse.dropWhile isSpace).reverse

/-- The text has no character that is not white space. -/
def isBlank (s : Str) : Bool := s.all isSpace

/-- The pieces of a text between separators, without the empty ones; if `trimWhitespace`, without
the blank ones and trimmed. -/
def splitText (separators : Str) (trimWhitespace : Bool) (s : Str) : List Str :=
  let parts := s.splitOnP (separators.contains ·)
  if trimWhitespace then (parts.filter (! isBlank ·)).map trim else parts.filter (· ≠ [])

/-- The trimmed non-blank pieces of a text separated by `c`. -/
def pieces (c : Char) (s : Str) : List Str := splitText [c] true s

@[simp] theorem pieces_nil (c : Char) : pieces c [] = [] := rfl

/-- The pieces of two texts joined by the separator are those of the first, then those of the
second. -/
theorem pieces_append_cons (c : Char) (a b : Str) :
    pieces c (a ++ c :: b) = pieces c a ++ pieces c b := by
  have hsplit := @List.splitOnP_append_cons _ ([c].contains ·) a b c (by simp)
  simp only [pieces, splitText, if_true, hsplit, List.filter_append, List.map_append]

/-- The pieces of texts joined by the separator are those of the texts in order. -/
theorem pieces_intercalate (c : Char) (texts : List Str) :
    pieces c ([c].intercalate texts) = texts.flatMap (pieces c) := by
  induction texts with
  | nil => rfl
  | cons a rest ih =>
    cases rest with
    | nil => simp [List.intercalate]
    | cons b rest =>
      rw [List.intercalate_cons_cons, List.append_assoc, List.singleton_append,
        pieces_append_cons, ih]
      simp

example : pieces ',' " a ,, b,".toList = ["a".toList, "b".toList] := by decide

end Cxx
