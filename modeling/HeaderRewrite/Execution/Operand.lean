import Mathlib.Data.List.Basic
import HeaderRewrite.Parsing.Operand

/-!
# Evaluating an operand

What `DynamicFunctionProcessor.executeOperation` does with a well-formed operand. It returns a
status and a string, except in two places: `hdr` with a position that `stoi` rejects throws, and
`urlp` dereferences null where the request has no `:path`.

## Main definitions

* `DynamicFunctionProcessor.arguments`: the arguments of a call;
* `DynamicFunctionProcessor.BadPosition`: the operand is `hdr` with a position `stoi` rejects;
* `DynamicFunctionProcessor.NullPath`: the operand is `urlp`, and there is no `:path`.

## Main results

* `DynamicFunctionProcessor.executeOperation_hdr` and its siblings: evaluation by function;
* `DynamicFunctionProcessor.executeOperation_cases`: how evaluation ends.
-/

namespace HeaderRewrite.DynamicFunctionProcessor

open Cxx Utility

variable {M I : Type}

/-- The arguments of a call. -/
def arguments (E : Envoy M I) (p : DynamicFunctionProcessor) : List Str :=
  E.splitToken p.functionArgument "," false true

/-- The operand is a call of `hdr` with a position that is not a number or does not fit an
`int`. -/
def BadPosition (E : Envoy M I) (p : DynamicFunctionProcessor) : Prop :=
  p.functionType = .getHdr ∧ ∃ key position e, p.arguments E = [key, position] ∧
    stoi position = .threw e

/-- The operand is a call of `urlp` on request headers without a `:path` entry. -/
def NullPath (E : Envoy M I) (p : DynamicFunctionProcessor)
    (headers : RequestOrResponseHeaderMap M) : Prop :=
  p.functionType = .urlp ∧ headers.isRequestHeaderMap = true ∧ E.pathEntry headers.map = none

section Evaluation

variable {E : Envoy M I} {p : DynamicFunctionProcessor} {headers : RequestOrResponseHeaderMap M}
  {streamInfo : Option I}

theorem vectorAt_ne_undefined {α : Type} (v : List α) (i : Nat) (u : UndefinedBehavior) :
    vectorAt v i ≠ .undefined u := by
  unfold vectorAt
  split <;> simp

/-- Reading a header always returns. -/
theorem getHeaderValue_returns (E : Envoy M I) (headers : RequestOrResponseHeaderMap M) (key : Str)
    (position : ℤ) : (getHeaderValue E headers key position).Returns := by
  unfold getHeaderValue
  -- what is thrown is caught, and the access to the vector is not undefined
  refine Outcome.returns_catchAs fun u hu => ?_
  dsimp only at hu
  split at hu
  · cases hu
  · generalize (if position < 0 then _ else position) = index at hu
    split at hu
    · cases hu
    · rcases Outcome.bind_eq_undefined.mp hu with hu | ⟨_, -, hu⟩
      · exact vectorAt_ne_undefined _ _ u hu
      · cases hu

/-- Reading the metadata always returns. -/
theorem getDynamicMetadata_returns (E : Envoy M I) (streamInfo : Option I) (key : Str) :
    (getDynamicMetadata E streamInfo key).Returns := by
  cases streamInfo <;> exact ⟨_, rfl⟩

/-- Reading a query parameter returns unless `Path()` is null. -/
theorem getUrlp_cases (E : Envoy M I) (headers : RequestOrResponseHeaderMap M) (param : Str) :
    (getUrlp E headers param).Returns ∨
      getUrlp E headers param = .undefined .nullDereference ∧ headers.isRequestHeaderMap = true ∧
        E.pathEntry headers.map = none := by
  unfold getUrlp
  cases hside : headers.isRequestHeaderMap with
  | false => exact Or.inl ⟨_, rfl⟩
  | true =>
    cases hpath : E.pathEntry headers.map with
    | none => exact Or.inr ⟨rfl, rfl, rfl⟩
    | some path =>
      cases hparam : (E.parseQueryString path).lookup param with
      | none => exact Or.inl ⟨_, by simp [hparam]; rfl⟩
      | some value => exact Or.inl ⟨_, by simp [hparam]; rfl⟩

/-! ## By function -/

theorem executeOperation_static (h : p.functionType = .static) :
    executeOperation E p headers streamInfo = .returned (.ok, p.functionArgument) := by
  simp [executeOperation, h]

theorem executeOperation_getMetadata (h : p.functionType = .getMetadata) :
    executeOperation E p headers streamInfo =
      getDynamicMetadata E streamInfo p.functionArgument := by
  simp [executeOperation, h]

theorem executeOperation_urlp (h : p.functionType = .urlp) {param : Str}
    (harguments : p.arguments E = [param]) :
    executeOperation E p headers streamInfo = getUrlp E headers param := by
  rw [arguments] at harguments
  simp [executeOperation, h, harguments, -String.reduceToList]

/-- `hdr` with one argument reads the last value. -/
theorem executeOperation_hdr (h : p.functionType = .getHdr) {key : Str}
    (harguments : p.arguments E = [key]) :
    executeOperation E p headers streamInfo = getHeaderValue E headers key (-1) := by
  rw [arguments] at harguments
  simp [executeOperation, h, harguments, -String.reduceToList]

/-- `hdr` with two arguments converts the second, outside any `try` block. -/
theorem executeOperation_hdr_position (h : p.functionType = .getHdr) {key position : Str}
    (harguments : p.arguments E = [key, position]) :
    executeOperation E p headers streamInfo = (do
      let position ← stoi position
      getHeaderValue E headers key position) := by
  rw [arguments] at harguments
  simp [executeOperation, h, harguments, -String.reduceToList]

/-! ## How evaluation ends -/

/-- A well-formed operand returns, or throws because of its position, or dereferences the null
`Path()`. -/
theorem executeOperation_cases (hwf : p.WellFormed E)
    (headers : RequestOrResponseHeaderMap M) (streamInfo : Option I) :
    ((executeOperation E p headers streamInfo).Returns ∧ ¬ p.BadPosition E) ∨
      ((∃ e, executeOperation E p headers streamInfo = .threw e) ∧ p.BadPosition E) ∨
      executeOperation E p headers streamInfo = .undefined .nullDereference ∧
        p.functionType = .urlp ∧ headers.isRequestHeaderMap = true ∧
        E.pathEntry headers.map = none := by
  -- the number of arguments was checked by the parser, on the same split
  have hlength : (p.arguments E).length = (E.splitToken p.functionArgument "," false true).length :=
    rfl
  cases htype : p.functionType with
  | getHdr =>
    simp only [WellFormed, htype, ← hlength] at hwf
    rcases hwf with hone | htwo
    · obtain ⟨key, harguments⟩ := List.length_eq_one_iff.mp hone
      left
      rw [executeOperation_hdr htype harguments]
      refine ⟨getHeaderValue_returns E headers key (-1), ?_⟩
      rintro ⟨-, _, _, _, hbad, -⟩
      rw [harguments] at hbad
      cases hbad
    · obtain ⟨key, position, harguments⟩ := List.length_eq_two.mp htwo
      rw [executeOperation_hdr_position htype harguments]
      -- `stoi` is the only call that can throw, and it is outside of the `try` block
      cases hstoi : stoi position with
      | returned n =>
        left
        refine ⟨getHeaderValue_returns E headers key n, ?_⟩
        rintro ⟨-, _, _, e, hbad, hthrew⟩
        rw [harguments] at hbad
        obtain ⟨rfl, rfl⟩ : key = _ ∧ position = _ := by simpa using hbad
        rw [hstoi] at hthrew
        cases hthrew
      | threw e => exact Or.inr (Or.inl ⟨⟨e, rfl⟩, htype, key, position, e, harguments, hstoi⟩)
      | undefined u => exact (stoi_ne_undefined position u hstoi).elim
  | urlp =>
    simp only [WellFormed, htype, ← hlength] at hwf
    obtain ⟨param, harguments⟩ := List.length_eq_one_iff.mp hwf.1
    rw [executeOperation_urlp htype harguments]
    have hgood : ¬ p.BadPosition E := fun hbad => by
      rw [hbad.1] at htype
      cases htype
    rcases getUrlp_cases E headers param with hreturns | ⟨hundefined, hside, hpath⟩
    · exact Or.inl ⟨hreturns, hgood⟩
    · exact Or.inr (Or.inr ⟨hundefined, rfl, hside, hpath⟩)
  | getMetadata =>
    rw [executeOperation_getMetadata htype]
    refine Or.inl ⟨getDynamicMetadata_returns E streamInfo _, fun hbad => ?_⟩
    rw [hbad.1] at htype
    cases htype
  | static =>
    rw [executeOperation_static htype]
    refine Or.inl ⟨⟨_, rfl⟩, fun hbad => ?_⟩
    rw [hbad.1] at htype
    cases htype
  | invalidFunctionType =>
    simp only [WellFormed, htype] at hwf

/-- A well-formed operand is undefined only where it dereferences a null `Path()`. -/
theorem executeOperation_undefined (hwf : p.WellFormed E) {u : UndefinedBehavior}
    (h : executeOperation E p headers streamInfo = .undefined u) :
    u = .nullDereference ∧ p.functionType = .urlp ∧ headers.isRequestHeaderMap = true ∧
      E.pathEntry headers.map = none := by
  rcases executeOperation_cases hwf headers streamInfo with
    ⟨⟨result, hreturned⟩, -⟩ | ⟨⟨e, hthrew⟩, -⟩ | ⟨hundefined, hurlp⟩
  · cases h.symm.trans hreturned
  · cases h.symm.trans hthrew
  · cases h.symm.trans hundefined
    exact ⟨rfl, hurlp⟩

/-- A well-formed operand throws only because of its position. -/
theorem badPosition_of_threw (hwf : p.WellFormed E) {e : Exception}
    (h : executeOperation E p headers streamInfo = .threw e) : p.BadPosition E := by
  rcases executeOperation_cases hwf headers streamInfo with
    ⟨⟨result, hreturned⟩, -⟩ | ⟨-, hbad⟩ | ⟨hundefined, -⟩
  · cases h.symm.trans hreturned
  · exact hbad
  · cases h.symm.trans hundefined

/-- An operand with a bad position throws in every state. -/
theorem BadPosition.exists_threw (h : p.BadPosition E)
    (headers : RequestOrResponseHeaderMap M) (streamInfo : Option I) :
    ∃ e, executeOperation E p headers streamInfo = .threw e := by
  obtain ⟨htype, key, position, e, harguments, hstoi⟩ := h
  refine ⟨e, ?_⟩
  rw [executeOperation_hdr_position htype harguments, hstoi]
  rfl

/-- A `urlp` dereferences the null `Path()` where there is no `:path`. -/
theorem NullPath.executeOperation_eq (hwf : p.WellFormed E) (h : p.NullPath E headers) :
    executeOperation E p headers streamInfo = .undefined .nullDereference := by
  obtain ⟨htype, hside, hpath⟩ := h
  simp only [WellFormed, htype] at hwf
  obtain ⟨param, harguments⟩ := List.length_eq_one_iff.mp hwf.1
  rw [executeOperation_urlp htype harguments, getUrlp]
  simp [hside, hpath]

/-- A well-formed operand returns unless its position is bad or it dereferences a null `Path()`. -/
theorem returns_iff (hwf : p.WellFormed E) :
    (executeOperation E p headers streamInfo).Returns ↔
      ¬ (p.BadPosition E ∨ p.NullPath E headers) := by
  constructor
  · rintro hreturns (hbad | hnull)
    · obtain ⟨e, he⟩ := hbad.exists_threw headers streamInfo
      simp [he] at hreturns
    · simp [hnull.executeOperation_eq hwf] at hreturns
  · intro hgood
    rcases executeOperation_cases hwf headers streamInfo with
      ⟨hreturns, -⟩ | ⟨-, hbad⟩ | ⟨-, hnull⟩
    · exact hreturns
    · exact (hgood (Or.inl hbad)).elim
    · exact (hgood (Or.inr hnull)).elim

end Evaluation

end HeaderRewrite.DynamicFunctionProcessor
