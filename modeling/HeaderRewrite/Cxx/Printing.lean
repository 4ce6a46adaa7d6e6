import Mathlib.Data.List.DropRight
import HeaderRewrite.Cxx.Pieces

/-!
# Printing what was split

A text is read by splitting it into lines at one character, dropping the blank lines and trimming
the others, and each line into words at a second character, which is white space. Printing joins
the words and the lines again. What is printed is read as the lines it was printed from, as long as
these are lines that reading can yield.

## Main definitions

* `Words`: the lists of words that reading yields;
* `readLines`, `printLines`: the two directions.

## Main results

* `words_of_mem_readLines`: what is read are words;
* `readLines_printLines`: words are read as they were printed.
-/

namespace Cxx

/-- The words of a line: none is empty or holds a separator, and the last does not end in white
space. -/
structure Words (inner outer : Char) (words : List Str) : Prop where
  /-- No word is empty or holds a separator. -/
  word : ∀ w ∈ words, w ≠ [] ∧ inner ∉ w ∧ outer ∉ w
  /-- The last word does not end in white space. -/
  last : ∀ w ∈ words.getLast?, ∀ c ∈ w.getLast?, isSpace c = false

/-- The words of each line of a text. -/
def readLines (inner outer : Char) (text : Str) : List (List Str) :=
  (pieces outer text).map (splitText [inner] false)

/-- The text with given words on its lines. -/
def printLines (inner outer : Char) (lines : List (List Str)) : Str :=
  [outer].intercalate (lines.map ([inner].intercalate ·))

section Words

variable {inner outer : Char} {w v : Str} {words : List Str}

theorem Words.tail (h : Words inner outer (w :: v :: words)) : Words inner outer (v :: words) :=
  ⟨fun u hu => h.word u (List.mem_cons_of_mem _ hu), by
    simpa only [List.getLast?_cons_cons] using h.last⟩

theorem Words.singleton (h : w ≠ [] ∧ inner ∉ w ∧ outer ∉ w)
    (hlast : ∀ c ∈ w.getLast?, isSpace c = false) : Words inner outer [w] := by
  refine ⟨fun u hu => ?_, fun u hu => ?_⟩
  · rwa [List.mem_singleton.mp hu]
  · obtain rfl : w = u := by simpa using hu
    exact hlast

theorem Words.cons (h : w ≠ [] ∧ inner ∉ w ∧ outer ∉ w) (hrest : Words inner outer (v :: words)) :
    Words inner outer (w :: v :: words) := by
  refine ⟨fun u hu => ?_, ?_⟩
  · rcases List.mem_cons.mp hu with rfl | hu
    · exact h
    · exact hrest.word u hu
  · simpa only [List.getLast?_cons_cons] using hrest.last

/-- Words in front of the words of a line make a line. -/
theorem Words.append {words' : List Str} (h : ∀ w ∈ words, w ≠ [] ∧ inner ∉ w ∧ outer ∉ w)
    (hrest : Words inner outer words') (hne : words' ≠ []) :
    Words inner outer (words ++ words') := by
  induction words with
  | nil => exact hrest
  | cons w words ih =>
    rw [List.forall_mem_cons] at h
    obtain ⟨v, tail, htail⟩ := List.exists_cons_of_ne_nil
      (List.append_ne_nil_of_right_ne_nil words hne)
    have hwords := ih h.2
    rw [htail] at hwords
    rw [List.cons_append, htail]
    exact .cons h.1 hwords

end Words

/-! ## Reading -/

section Reading

variable {inner outer : Char} {text : Str}

/-- A piece holds no separator. -/
theorem not_mem_of_mem_splitOnP {p : Char → Bool} {s t : Str} (ht : t ∈ s.splitOnP p) {c : Char}
    (hc : c ∈ t) : p c = false ∧ c ∈ s := by
  induction s generalizing t with
  | nil =>
    rw [List.splitOnP_nil, List.mem_singleton] at ht
    subst ht
    cases hc
  | cons x s ih =>
    rw [List.splitOnP_cons_eq_if_modifyHead] at ht
    split at ht
    · rcases List.mem_cons.mp ht with rfl | ht
      · cases hc
      · exact (ih ht hc).imp_right (List.mem_cons_of_mem x)
    · next hx =>
      obtain ⟨first, rest, hsplit⟩ := List.exists_cons_of_ne_nil (List.splitOnP_ne_nil p s)
      rw [hsplit, List.modifyHead_cons] at ht
      -- the first character goes to the first piece
      rcases List.mem_cons.mp ht with rfl | ht
      · rcases List.mem_cons.mp hc with rfl | hc
        · exact ⟨by simpa using hx, List.mem_cons_self⟩
        · exact (ih (hsplit ▸ List.mem_cons_self) hc).imp_right (List.mem_cons_of_mem x)
      · exact (ih (hsplit ▸ List.mem_cons_of_mem _ ht) hc).imp_right (List.mem_cons_of_mem x)

/-- A word is not empty, holds no separator and consists of characters of its line. -/
theorem of_mem_splitText {line w : Str} (hw : w ∈ splitText [inner] false line) :
    w ≠ [] ∧ inner ∉ w ∧ ∀ c ∈ w, c ∈ line := by
  simp only [splitText, Bool.false_eq_true, if_false, List.mem_filter, decide_eq_true_eq] at hw
  refine ⟨hw.2, fun hmem => ?_, fun c hc => (not_mem_of_mem_splitOnP hw.1 hc).2⟩
  simpa using (not_mem_of_mem_splitOnP hw.1 hmem).1

/-- A line of a text holds no line separator, is not empty and does not end in white space. -/
theorem of_mem_pieces {line : Str} (hline : line ∈ pieces outer text) :
    line ≠ [] ∧ outer ∉ line ∧ ∀ c ∈ line.getLast?, isSpace c = false := by
  simp only [pieces, splitText, if_true, List.mem_map, List.mem_filter, Bool.not_eq_true'] at hline
  obtain ⟨part, ⟨hpart, hblank⟩, rfl⟩ := hline
  have htrim : trim part = (part.dropWhile isSpace).rdropWhile isSpace := rfl
  have hkept := List.rdropWhile_prefix isSpace (part.dropWhile isSpace)
  refine ⟨fun hnil => ?_, fun hmem => ?_, fun c hc => ?_⟩
  -- a part that is all white space is blank
  · rw [htrim, List.rdropWhile_eq_nil_iff] at hnil
    have hdrop : part.dropWhile isSpace = [] := by
      cases hcases : part.dropWhile isSpace with
      | nil => rfl
      | cons c rest =>
        have hhead := List.head?_dropWhile_not isSpace part
        rw [hcases] at hhead
        have hspace := hnil c (hcases ▸ List.mem_cons_self)
        simp [hspace] at hhead
    rw [List.dropWhile_eq_nil_iff] at hdrop
    rw [isBlank, List.all_eq_false] at hblank
    obtain ⟨c, hc, hnot⟩ := hblank
    exact hnot (hdrop c hc)
  · have hpart' : outer ∈ part :=
      (List.dropWhile_sublist isSpace).subset (hkept.subset (htrim ▸ hmem))
    simpa using (not_mem_of_mem_splitOnP hpart hpart').1
  · rw [htrim] at hc
    have hne : (part.dropWhile isSpace).rdropWhile isSpace ≠ [] := by
      rintro hnil
      rw [hnil] at hc
      cases hc
    have hlast := List.rdropWhile_last_not isSpace _ hne
    rw [List.getLast?_eq_some_getLast hne, Option.mem_def, Option.some.injEq] at hc
    rw [← hc]
    simpa using hlast

/-- A text without separators is its only word. -/
theorem splitText_of_not_mem {line : Str} (hne : line ≠ []) (hmem : inner ∉ line) :
    splitText [inner] false line = [line] := by
  have hsingle : line.splitOnP ([inner].contains ·) = [line] :=
    List.splitOnP_eq_singleton fun c hc => by
      have hne : c ≠ inner := fun heq => hmem (heq ▸ hc)
      simpa using hne
  simp only [splitText, Bool.false_eq_true, if_false, hsingle, ne_eq, hne, not_false_eq_true,
    decide_true, List.filter_cons_of_pos, List.filter_nil]

/-- The words of two texts with a separator between them. -/
theorem splitText_append_cons (inner : Char) (a b : Str) :
    splitText [inner] false (a ++ inner :: b) =
      splitText [inner] false a ++ splitText [inner] false b := by
  have hsplit := @List.splitOnP_append_cons _ ([inner].contains ·) a b inner (by simp)
  simp only [splitText, Bool.false_eq_true, if_false, hsplit, List.filter_append]

/-- The last word of a line that does not end in the separator ends as the line does. -/
theorem getLast?_of_splitText {line : Str} (hne : line ≠ [])
    (hlast : ∀ c ∈ line.getLast?, c ≠ inner) {w : Str}
    (hw : w ∈ (splitText [inner] false line).getLast?) : w.getLast? = line.getLast? := by
  by_cases hmem : inner ∈ line
  -- after the last separator there is one word
  · obtain ⟨after, before, hsplit, hafter⟩ :=
      List.eq_append_cons_of_mem (List.mem_reverse.mpr hmem)
    obtain rfl : line = before.reverse ++ inner :: after.reverse := by
      rw [← List.reverse_reverse line, hsplit]
      simp
    have hnot : after.reverse ≠ [] := by
      intro hnil
      exact hlast inner (by simp [hnil]) rfl
    rw [splitText_append_cons, splitText_of_not_mem hnot (by simpa using hafter),
      List.getLast?_concat, Option.mem_def, Option.some.injEq] at hw
    subst hw
    rw [List.getLast?_append, List.getLast?_cons_of_ne_nil hnot,
      List.getLast?_eq_some_getLast hnot, Option.some_or]
  · rw [splitText_of_not_mem hne hmem] at hw
    obtain rfl : line = w := by simpa using hw
    rfl

/-- What is read are words. -/
theorem words_of_mem_readLines (hspace : isSpace inner = true) {words : List Str}
    (h : words ∈ readLines inner outer text) : Words inner outer words := by
  obtain ⟨line, hline, rfl⟩ := List.mem_map.mp h
  obtain ⟨hne, houter, hlast⟩ := of_mem_pieces hline
  refine ⟨fun w hw => ?_, fun w hw c hc => ?_⟩
  · obtain ⟨hword, hinner, hsubset⟩ := of_mem_splitText hw
    exact ⟨hword, hinner, fun hmem => houter (hsubset _ hmem)⟩
  · rw [getLast?_of_splitText hne _ hw] at hc
    · exact hlast c hc
    · rintro c hc rfl
      cases (hlast c hc).symm.trans hspace

end Reading

/-! ## Printing -/

section Printing

variable {inner outer : Char} {words : List Str}

/-- The words of a printed line. -/
theorem splitText_intercalate (h : ∀ w ∈ words, w ≠ [] ∧ inner ∉ w) :
    splitText [inner] false ([inner].intercalate words) = words := by
  induction words with
  | nil => rfl
  | cons w words ih =>
    obtain ⟨hne, hinner⟩ := h w List.mem_cons_self
    cases words with
    | nil => rw [List.intercalate_singleton, splitText_of_not_mem hne hinner]
    | cons next words =>
      rw [List.intercalate_cons_cons, List.append_assoc, List.singleton_append,
        splitText_append_cons, splitText_of_not_mem hne hinner,
        ih fun v hv => h v (List.mem_cons_of_mem _ hv), List.singleton_append]

/-- A text that begins and ends with a character that is not white space is not trimmed. -/
theorem trim_eq_self {s : Str} (hfirst : ∀ c ∈ s.head?, isSpace c = false)
    (hlast : ∀ c ∈ s.getLast?, isSpace c = false) : trim s = s := by
  have hdrop : s.dropWhile isSpace = s := by
    cases s with
    | nil => rfl
    | cons c rest => rw [List.dropWhile_cons_of_neg (by simp [hfirst c rfl])]
  have hrdrop : s.rdropWhile isSpace = s := List.rdropWhile_eq_self_iff.mpr fun hne => by
    have hspace := hlast _ (List.getLast?_eq_some_getLast hne)
    simp [hspace]
  rw [trim, hdrop]
  exact hrdrop

/-- A line that begins and ends with a character that is not white space is its only piece. -/
theorem pieces_of_not_mem {line : Str} (hne : line ≠ []) (houter : outer ∉ line)
    (hfirst : ∀ c ∈ line.head?, isSpace c = false)
    (hlast : ∀ c ∈ line.getLast?, isSpace c = false) : pieces outer line = [line] := by
  have hsingle : line.splitOnP ([outer].contains ·) = [line] :=
    List.splitOnP_eq_singleton fun c hc => by
      have hne : c ≠ outer := fun heq => houter (heq ▸ hc)
      simpa using hne
  have hblank : isBlank line = false := by
    cases line with
    | nil => exact (hne rfl).elim
    | cons c rest => rw [isBlank, List.all_cons, hfirst c rfl, Bool.false_and]
  simp only [pieces, splitText, if_true, hsingle, hblank, Bool.not_false, List.filter_cons_of_pos,
    List.filter_nil, List.map_cons, List.map_nil, trim_eq_self hfirst hlast]

/-- The characters of a printed line are separators or belong to its words. -/
theorem mem_of_mem_intercalate {c : Char} (h : c ∈ [inner].intercalate words) :
    c = inner ∨ ∃ w ∈ words, c ∈ w := by
  induction words with
  | nil => cases h
  | cons w words ih =>
    cases words with
    | nil => exact Or.inr ⟨w, List.mem_cons_self, by simpa using h⟩
    | cons next words =>
      rw [List.intercalate_cons_cons, List.mem_append, List.mem_append, List.mem_singleton] at h
      rcases h with (h | h) | h
      · exact Or.inr ⟨w, List.mem_cons_self, h⟩
      · exact Or.inl h
      · exact (ih h).imp_right fun ⟨v, hv, hc⟩ => ⟨v, List.mem_cons_of_mem _ hv, hc⟩

/-- The end of a printed line is the end of its last word. -/
theorem getLast?_intercalate (h : ∀ w ∈ words, w ≠ []) :
    ([inner].intercalate words).getLast? = words.getLast?.bind (·.getLast?) := by
  induction words with
  | nil => rfl
  | cons w words ih =>
    cases words with
    | nil => simp
    | cons next words =>
      have hrest := ih fun v hv => h v (List.mem_cons_of_mem _ hv)
      have hne : [inner].intercalate (next :: words) ≠ [] := by
        cases words with
        | nil => simpa using h next (by simp)
        | cons _ _ => simp [List.intercalate_cons_cons]
      rw [List.intercalate_cons_cons, List.getLast?_append,
        List.getLast?_eq_some_getLast hne, Option.some_or, ← List.getLast?_eq_some_getLast hne,
        hrest, List.getLast?_cons_cons]

/-- Words are read as they were printed if every line begins with a word that does not begin with
white space. -/
theorem readLines_printLines (hchars : outer ≠ inner) {lines : List (List Str)}
    (h : ∀ words ∈ lines, Words inner outer words ∧ ∃ c first rest,
      words = (c :: first) :: rest ∧ isSpace c = false) :
    readLines inner outer (printLines inner outer lines) = lines := by
  have hline : ∀ words ∈ lines, pieces outer ([inner].intercalate words) =
      [[inner].intercalate words] := by
    intro words hwords
    obtain ⟨hvalid, c, first, rest, rfl, hspace⟩ := h words hwords
    have hhead : ∃ text, [inner].intercalate ((c :: first) :: rest) = c :: text := by
      cases rest with
      | nil => exact ⟨first, by simp⟩
      | cons _ _ => exact ⟨_, by rw [List.intercalate_cons_cons, List.append_assoc]; rfl⟩
    obtain ⟨text, htext⟩ := hhead
    refine pieces_of_not_mem (by simp [htext]) ?_ ?_ ?_
    -- the words have no line separator, and the word separator is another character
    · intro hmem
      rcases mem_of_mem_intercalate hmem with heq | ⟨w, hw, hmem⟩
      · exact hchars heq
      · exact (hvalid.word w hw).2.2 hmem
    · rw [htext]
      intro c' hc'
      obtain rfl : c = c' := by simpa using hc'
      exact hspace
    · rw [getLast?_intercalate fun w hw => (hvalid.word w hw).1]
      intro c' hc'
      obtain ⟨w, hw, hc'⟩ := Option.bind_eq_some_iff.mp hc'
      exact hvalid.last w hw c' hc'
  rw [readLines, printLines, pieces_intercalate]
  clear hchars
  induction lines with
  | nil => rfl
  | cons words lines ih =>
    have hwords : ∀ w ∈ words, w ≠ [] ∧ inner ∉ w := fun w hw =>
      have hword := (h words List.mem_cons_self).1.word w hw
      ⟨hword.1, hword.2.1⟩
    rw [List.map_cons, List.flatMap_cons, hline words List.mem_cons_self, List.singleton_append,
      List.map_cons, splitText_intercalate hwords,
      ih (fun words hw => h words (List.mem_cons_of_mem _ hw))
        fun words hw => hline words (List.mem_cons_of_mem _ hw)]

end Printing

end Cxx
