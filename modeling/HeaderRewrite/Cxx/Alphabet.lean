import Mathlib.Data.Set.Basic
import HeaderRewrite.Cxx.Printing

/-!
# Texts over a set of characters

Splitting, joining and extending texts brings in no characters but those of the texts and of the
separators. A set that holds these holds the characters of every text that is made in this way.

## Main definitions

* `Over`: the texts over a set of characters.

## Main results

* `Over.append`, `Over.intercalate`: joining texts;
* `Over.piece`, `over_of_mem_readLines`: the parts of a text.
-/

namespace Cxx

/-- All characters of a text are in a set. -/
def Over (C : Set Char) (text : Str) : Prop := ∀ c ∈ text, c ∈ C

variable {C : Set Char} {s t : Str}

theorem Over.nil : Over C [] := nofun

/-- The texts without a character. -/
theorem over_ne_iff {c : Char} : Over {x | x ≠ c} t ↔ c ∉ t := by
  constructor
  · intro h hmem
    exact h c hmem rfl
  · rintro h x hx rfl
    exact h hx

theorem Over.subset (h : Over C t) (hsubset : s ⊆ t) : Over C s := fun c hc => h c (hsubset hc)

theorem Over.append (hs : Over C s) (ht : Over C t) : Over C (s ++ t) := by
  intro c hc
  rcases List.mem_append.mp hc with hc | hc
  · exact hs c hc
  · exact ht c hc

theorem Over.map {f : Char → Char} (hf : ∀ c ∈ C, f c ∈ C) (h : Over C t) : Over C (t.map f) :=
  List.forall_mem_map.mpr fun c hc => hf c (h c hc)

/-- Texts that are joined by a separator. -/
theorem Over.intercalate {separator : Char} (hseparator : separator ∈ C) {texts : List Str}
    (h : ∀ t ∈ texts, Over C t) : Over C ([separator].intercalate texts) := by
  intro c hc
  rcases mem_of_mem_intercalate hc with rfl | ⟨t, ht, hc⟩
  · exact hseparator
  · exact h t ht c hc

/-- A piece is made of characters of its text. -/
theorem subset_of_mem_pieces {separator : Char} (ht : t ∈ pieces separator s) : t ⊆ s := by
  simp only [pieces, splitText, if_true, List.mem_map, List.mem_filter] at ht
  obtain ⟨part, ⟨hpart, -⟩, rfl⟩ := ht
  intro c hc
  have htrim : trim part = (part.dropWhile isSpace).rdropWhile isSpace := rfl
  rw [htrim] at hc
  have hdropped := (List.rdropWhile_prefix isSpace (part.dropWhile isSpace)).subset hc
  exact (not_mem_of_mem_splitOnP hpart ((List.dropWhile_sublist isSpace).subset hdropped)).2

theorem Over.piece {separator : Char} (h : Over C s) (ht : t ∈ pieces separator s) : Over C t :=
  h.subset (subset_of_mem_pieces ht)

/-- The words of a text are made of its characters other than line separators. -/
theorem over_of_mem_readLines {inner outer : Char} {text : Str}
    (htext : ∀ c ∈ text, c = outer ∨ c ∈ C) {words : List Str}
    (hwords : words ∈ readLines inner outer text) : ∀ w ∈ words, Over C w := by
  obtain ⟨line, hline, rfl⟩ := List.mem_map.mp hwords
  intro w hw c hc
  have hmem := (of_mem_splitText hw).2.2 c hc
  rcases htext c (subset_of_mem_pieces hline hmem) with rfl | hC
  · exact absurd hmem (of_mem_pieces hline).2.1
  · exact hC

end Cxx
