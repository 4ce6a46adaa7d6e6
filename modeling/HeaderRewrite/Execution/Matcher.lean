import HeaderRewrite.Cxx.Search
import HeaderRewrite.Execution.Condition

/-!
# The matchers of boolean variables

Each match type stands for a relation of the source and the string to compare. The matchers of
`str`, `sub` and `found` decide it. That of `beg` searches the string to compare for characters of
the source, as many as the string to compare has: it reads beyond the terminating NUL of a source
that is shorter, and takes the NUL for a character of the source.

## Main definitions

* `SetBoolProcessor.Matches`: the relation that a match type stands for;
* `SetBoolProcessor.PrefixMisread`: where the matcher of `beg` does not decide it.

## Main results

* `SetBoolProcessor.executeOperation_matches_iff`: when a variable has the value of the relation.
-/

namespace HeaderRewrite.SetBoolProcessor

open Cxx Utility

variable {M I : Type}

/-- The relation that the keyword of a match type stands for. It holds of no empty source. -/
def Matches (keyword source stringToCompare : Str) : Prop :=
  source ≠ [] ∧
    ((keyword = matchTypeExact ∧ source = stringToCompare) ∨
      (keyword = matchTypePrefix ∧ stringToCompare <+: source) ∨
      (keyword = matchTypeSubstr ∧ stringToCompare <:+: source) ∨
      keyword = matchTypeFound)

/-- The prefix matcher reads beyond the end of the source, or takes its terminating NUL for a
character. -/
def PrefixMisread (keyword source stringToCompare : Str) : Prop :=
  keyword = matchTypePrefix ∧ source ≠ [] ∧
    (source.length + 1 < stringToCompare.length ∨ stringToCompare = source ++ [nul])

/-- The keywords of the match types. -/
theorem keyword_cases {keyword : Str} (h : stringToMatchType keyword ≠ .invalidMatchType) :
    keyword = matchTypeExact ∨ keyword = matchTypePrefix ∨ keyword = matchTypeSubstr ∨
      keyword = matchTypeFound := by
  -- the keywords in the order in which the source compares them
  unfold stringToMatchType at h
  by_cases hexact : keyword = matchTypeExact
  · exact Or.inl hexact
  by_cases hbegin : keyword = matchTypePrefix
  · exact Or.inr (Or.inl hbegin)
  by_cases hsubstr : keyword = matchTypeSubstr
  · exact Or.inr (Or.inr (Or.inl hsubstr))
  by_cases hfound : keyword = matchTypeFound
  · exact Or.inr (Or.inr (Or.inr hfound))
  · simp [hexact, hbegin, hsubstr, hfound] at h

section Keywords

variable {source stringToCompare : Str}

theorem matches_exact :
    Matches matchTypeExact source stringToCompare ↔ source ≠ [] ∧ source = stringToCompare := by
  simp [Matches, show matchTypeExact ≠ matchTypePrefix by decide,
    show matchTypeExact ≠ matchTypeSubstr by decide, show matchTypeExact ≠ matchTypeFound by decide]

theorem matches_beg :
    Matches matchTypePrefix source stringToCompare ↔ source ≠ [] ∧ stringToCompare <+: source := by
  simp [Matches, show matchTypePrefix ≠ matchTypeExact by decide,
    show matchTypePrefix ≠ matchTypeSubstr by decide,
    show matchTypePrefix ≠ matchTypeFound by decide]

theorem matches_substr :
    Matches matchTypeSubstr source stringToCompare ↔ source ≠ [] ∧ stringToCompare <:+: source := by
  simp [Matches, show matchTypeSubstr ≠ matchTypeExact by decide,
    show matchTypeSubstr ≠ matchTypePrefix by decide,
    show matchTypeSubstr ≠ matchTypeFound by decide]

theorem matches_found : Matches matchTypeFound source stringToCompare ↔ source ≠ [] := by
  simp [Matches]

end Keywords

/-- The prefix matcher returns the value of the relation exactly where it does not misread the
source. -/
theorem matcher_prefix_iff (source stringToCompare : Str) :
    (∃ value, matcher .prefixOf source stringToCompare = .returned value ∧
        (value = true ↔ Matches matchTypePrefix source stringToCompare)) ↔
      ¬ PrefixMisread matchTypePrefix source stringToCompare := by
  rw [matches_beg]
  -- an empty source is false without being read
  by_cases hempty : source = []
  · subst hempty
    exact iff_of_true ⟨false, rfl, by simp⟩ fun h => h.2.1 rfl
  have hpositive : source.length > 0 := List.length_pos_iff.mpr hempty
  simp only [matcher, if_pos hpositive]
  -- the comparison reads one character more than the source at most, its terminating NUL
  by_cases hlength : stringToCompare.length ≤ source.length + 1
  · obtain ⟨position, hposition, hzero⟩ := findChars_of_le hlength
    rw [hposition, Outcome.bind_returned, Outcome.pure_eq]
    constructor
    · rintro ⟨value, hvalue, hmatches⟩ ⟨-, -, hlong | hnul⟩
      · omega
      · -- the string to compare is longer than the source, so it is no prefix
        obtain rfl := Outcome.returned.inj hvalue
        have hbegin := (hmatches.mp (decide_eq_true (hzero.mpr (Or.inr hnul)))).2.length_le
        rw [hnul, List.length_append, List.length_singleton] at hbegin
        omega
    · intro hgood
      refine ⟨_, rfl, ?_⟩
      rw [decide_eq_true_iff, hzero]
      constructor
      · rintro (hbegin | hnul)
        · exact ⟨hempty, hbegin⟩
        · exact (hgood ⟨rfl, hempty, Or.inr hnul⟩).elim
      · exact fun h => Or.inl h.2
  -- a longer string to compare is read up to its length in the source as well
  · have hlong : source.length + 1 < stringToCompare.length := Nat.lt_of_not_le hlength
    refine iff_of_false ?_ (not_not_intro ⟨rfl, hempty, Or.inl hlong⟩)
    rintro ⟨value, hvalue, -⟩
    simp [findChars, hlength] at hvalue

/-- A matcher returns the value of the relation exactly where the prefix matcher does not misread
the source. -/
theorem matcher_matches_iff {keyword : Str}
    (hkeyword : stringToMatchType keyword ≠ .invalidMatchType) (source stringToCompare : Str) :
    (∃ value, matcher (stringToMatchType keyword) source stringToCompare = .returned value ∧
        (value = true ↔ Matches keyword source stringToCompare)) ↔
      ¬ PrefixMisread keyword source stringToCompare := by
  have hpositive : source.length > 0 ↔ source ≠ [] := List.length_pos_iff
  have hgood : keyword ≠ matchTypePrefix → ¬ PrefixMisread keyword source stringToCompare :=
    fun hne h => hne h.1
  rcases keyword_cases hkeyword with rfl | rfl | rfl | rfl
  · refine iff_of_true ⟨_, rfl, ?_⟩ (hgood (by decide))
    simp [matches_exact, hpositive]
  · exact matcher_prefix_iff source stringToCompare
  · refine iff_of_true ⟨_, rfl, ?_⟩ (hgood (by decide))
    simp [matches_substr, hpositive, isSome_find_iff]
  · refine iff_of_true ⟨_, rfl, ?_⟩ (hgood (by decide))
    simp [matches_found, hpositive]

/-- A variable whose operands have values is evaluated by its matcher. -/
theorem executeOperation_of_operands {eval : Evaluator M I} {p : SetBoolProcessor}
    {headers : RequestOrResponseHeaderMap M} {streamInfo : Option I} {source stringToCompare : Str}
    (hsource : eval p.sourceProcessor headers streamInfo = .returned (.ok, source))
    (hcompare : eval p.stringToCompareFunctionProcessor headers streamInfo =
      .returned (.ok, stringToCompare)) (negate : Bool) :
    p.executeOperation eval headers streamInfo negate = (do
      let boolResult ← matcher p.matchType source stringToCompare
      return (.ok, if negate then !boolResult else boolResult)) := by
  simp [executeOperation, hsource, hcompare]

/-- A parsed variable has a name, a source, and the match type and comparison that its line names.
Where both operands have values, it has the value of the relation of its match type, or the opposite
one if it is negated, exactly if the prefix matcher does not misread the source. -/
theorem executeOperation_matches_iff {E : Envoy M I} {processor : Processor} {side op : Str}
    {rest : List Str} {p : SetBoolProcessor}
    (hp : parseOperation E processor (side :: op :: rest) 2 = .accepted p) :
    ∃ name source keyword comparison,
      rest = name :: source :: "-m".toList :: keyword :: comparison ∧
      DynamicFunctionProcessor.parseOperation E processor source = .accepted p.sourceProcessor ∧
      Comparison E processor (stringToMatchType keyword) comparison
        p.stringToCompareFunctionProcessor ∧
      ∀ headers streamInfo s c,
        DynamicFunctionProcessor.executeOperation E p.sourceProcessor headers streamInfo =
          .returned (.ok, s) →
        DynamicFunctionProcessor.executeOperation E p.stringToCompareFunctionProcessor headers
          streamInfo = .returned (.ok, c) →
        ((∃ value, (value = true ↔ Matches keyword s c) ∧
          ∀ negate, p.executeOperation (DynamicFunctionProcessor.executeOperation E) headers
            streamInfo negate = .returned (.ok, if negate then !value else value)) ↔
          ¬ PrefixMisread keyword s c) := by
  obtain ⟨name, source, keyword, comparison, hrest, hsource, hcomparison, htype, -⟩ :=
    parseOperation_eq_accepted_iff.mp hp
  refine ⟨name, source, keyword, comparison, hrest, hsource, hcomparison,
    fun headers streamInfo s c hs hc => ?_⟩
  -- a match type that is not known takes no comparison, so that the line is not accepted
  have hkeyword : stringToMatchType keyword ≠ .invalidMatchType := by
    intro hinvalid
    rw [hinvalid] at hcomparison
    cases hcomparison with
    | operand hargument _ => cases hargument
  have hexecute := fun negate => executeOperation_of_operands hs hc negate
  rw [htype] at hexecute
  rw [← matcher_matches_iff hkeyword]
  constructor
  · rintro ⟨value, hmatches, hvalue⟩
    -- without a negation the value is what the matcher returned
    have hplain := (hexecute false).symm.trans (hvalue false)
    obtain ⟨result, hresult, hok⟩ := Outcome.bind_eq_returned.mp hplain
    obtain rfl : result = value := by simpa using hok
    exact ⟨result, hresult, hmatches⟩
  · rintro ⟨value, hvalue, hmatches⟩
    refine ⟨value, hmatches, fun negate => ?_⟩
    rw [hexecute, hvalue, Outcome.bind_returned, Outcome.pure_eq]

/-- The variable of `set-bool b abc -m beg ab` is true, and its negation false. -/
theorem executeOperation_matches_prefix :
    ∃ p, parseOperation Reference.envoy (.ofSide true)
        ["http-request", "set-bool", "b", "abc", "-m", "beg", "ab"] 2 = .accepted p ∧
      ∀ headers streamInfo negate, p.executeOperation
        (DynamicFunctionProcessor.executeOperation Reference.envoy) headers streamInfo negate =
          .returned (.ok, !negate) := by
  have hp : parseOperation Reference.envoy (.ofSide true)
      ["http-request", "set-bool", "b", "abc", "-m", "beg", "ab"] 2 =
        .accepted ⟨.ofSide true, .prefixOf, ⟨.ofSide true, .static, "abc"⟩,
          ⟨.ofSide true, .static, "ab"⟩⟩ := by decide +kernel
  refine ⟨_, hp, fun headers streamInfo negate => ?_⟩
  obtain ⟨name, source, keyword, comparison, hrest, -, -, hvalue⟩ := executeOperation_matches_iff hp
  simp only [List.cons.injEq] at hrest
  obtain ⟨rfl, rfl, -, rfl, rfl⟩ := hrest
  -- the comparison is shorter than the source
  have hread : ¬ PrefixMisread "beg" "abc" "ab" := by
    rintro ⟨-, -, hlength | hnul⟩
    · exact absurd hlength (by decide)
    · exact absurd hnul (by decide)
  obtain ⟨value, hmatches, hexecute⟩ := (hvalue headers streamInfo "abc" "ab" rfl rfl).mpr hread
  have hprefix : Matches "beg" "abc" "ab" := by
    rw [← matchTypePrefix, matches_beg]
    decide
  obtain rfl : value = true := hmatches.mpr hprefix
  rw [hexecute negate]
  cases negate <;> rfl

/-- The variable of `set-bool b a -m beg abc` reads beyond the end of its source. -/
theorem not_executeOperation_matches_short_source :
    ∃ p, parseOperation Reference.envoy (.ofSide true)
        ["http-request", "set-bool", "b", "a", "-m", "beg", "abc"] 2 = .accepted p ∧
      DynamicFunctionProcessor.executeOperation Reference.envoy p.sourceProcessor ⟨true, []⟩ none =
        .returned (.ok, "a".toList) ∧
      DynamicFunctionProcessor.executeOperation Reference.envoy p.stringToCompareFunctionProcessor
        ⟨true, []⟩ none = .returned (.ok, "abc".toList) ∧
      ¬ ∃ value, (value = true ↔ Matches matchTypePrefix "a".toList "abc".toList) ∧
        ∀ negate, p.executeOperation (DynamicFunctionProcessor.executeOperation Reference.envoy)
          ⟨true, []⟩ none negate = .returned (.ok, if negate then !value else value) := by
  refine ⟨⟨.ofSide true, .prefixOf, ⟨.ofSide true, .static, "a"⟩, ⟨.ofSide true, .static, "abc"⟩⟩,
    by decide +kernel, rfl, rfl, ?_⟩
  rintro ⟨value, -, hexecute⟩
  cases hexecute false

end HeaderRewrite.SetBoolProcessor
