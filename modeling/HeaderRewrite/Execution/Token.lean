import HeaderRewrite.Cxx.Search
import HeaderRewrite.Envoy.Reference
import HeaderRewrite.Execution.Operand

/-!
# Operand tokens

Which tokens are literals and which are calls, and what a call of either side looks like. A token
with exactly one of the delimiters `%[` and `]` is parsed as a call, although it is not wrapped in
them.

## Main definitions

* `DynamicFunctionProcessor.IsWrapped`: the token starts with `%[` and ends with `]`;
* `DynamicFunctionProcessor.ClassifiedByDelimiters`: parsing follows the delimiters;
* `DynamicFunctionProcessor.IsCall`: the calls of a side, with their function and argument.

## Main results

* `DynamicFunctionProcessor.classifiedByDelimiters_iff`: for which tokens parsing does;
* `DynamicFunctionProcessor.parseOperation_wrapped_iff`: which wrapped tokens are accepted.
-/

namespace HeaderRewrite.DynamicFunctionProcessor

open Cxx Utility

variable {M I : Type}

/-! ## Literals and calls -/

/-- The token is wrapped in the delimiters of a call. -/
def IsWrapped (t : Str) : Prop := "%[".toList <+: t ∧ "]".toList <:+ t

/-- A token is parsed as its delimiters say: one that is wrapped is a call or rejected, and any
other is a literal. -/
def ClassifiedByDelimiters (E : Envoy M I) (processor : Processor) (t : Str) : Prop :=
  (IsWrapped t →
    (∃ status, parseOperation E processor t = .rejected status) ∨
      ∃ f, parseOperation E processor t = .accepted f ∧
        (f.functionType = .getHdr ∨ f.functionType = .urlp ∨ f.functionType = .getMetadata)) ∧
  (¬ IsWrapped t →
    ∃ f, parseOperation E processor t = .accepted f ∧ f.functionType = .static ∧
      f.functionArgument = t ∧
      ∀ headers streamInfo, executeOperation E f headers streamInfo = .returned (.ok, t))

/-- The check for a literal in terms of the delimiters. -/
theorem parseOperation_of_delimiters (E : Envoy M I) (processor : Processor) (t : Str) :
    parseOperation E processor t =
      if t.length < 3 ∨ (¬ "%[".toList <+: t ∧ ¬ "]".toList <:+ t) then
        .accepted { processor with functionType := .static, functionArgument := t }
      else parseCall E processor ((t.drop 2).take (t.length - 3)) := by
  have hopening : t.take 2 = "%[".toList ↔ "%[".toList <+: t :=
    eq_comm.trans List.prefix_iff_eq_take.symm
  have hclosing : t.drop (t.length - 1) = "]".toList ↔ "]".toList <:+ t :=
    eq_comm.trans List.suffix_iff_eq_drop.symm
  rw [parseOperation_eq]
  simp only [ne_eq, hopening, hclosing]

/-- What is accepted as a call has one of the three functions. -/
theorem functionType_of_parseCall {E : Envoy M I} {processor : Processor} {call : Str}
    {f : DynamicFunctionProcessor} (h : parseCall E processor call = .accepted f) :
    f.functionType = .getHdr ∨ f.functionType = .urlp ∨ f.functionType = .getMetadata := by
  unfold parseCall at h
  dsimp only at h
  generalize stringToFunctionType _ = functionType at h
  split at h
  · cases h
  split at h
  · cases h
  obtain ⟨argument, -, h⟩ := Parse.bind_eq_accepted.mp h
  obtain ⟨_, harguments, h⟩ := Parse.bind_eq_accepted.mp h
  obtain rfl := Parse.accepted.inj h
  cases functionType with
  | getHdr => exact Or.inl rfl
  | urlp => exact Or.inr (Or.inl rfl)
  | getMetadata => exact Or.inr (Or.inr rfl)
  | static => cases harguments
  | invalidFunctionType => contradiction

/-- A wrapped token holds three characters. -/
theorem IsWrapped.length_le {t : Str} (h : IsWrapped t) : 3 ≤ t.length := by
  obtain ⟨⟨rest, rfl⟩, hclosing⟩ := h
  cases rest with
  | nil => exact absurd hclosing (by decide)
  | cons c rest => simp

/-- Parsing follows the delimiters exactly for the tokens that are too short for a call or have
either both of them or none. -/
theorem classifiedByDelimiters_iff (E : Envoy M I) (processor : Processor) (t : Str) :
    ClassifiedByDelimiters E processor t ↔
      t.length < 3 ∨ ("%[".toList <+: t ↔ "]".toList <:+ t) := by
  rw [ClassifiedByDelimiters, parseOperation_of_delimiters]
  by_cases hliteral : t.length < 3 ∨ (¬ "%[".toList <+: t ∧ ¬ "]".toList <:+ t)
  · rw [if_pos hliteral]
    have hwrapped : ¬ IsWrapped t := by
      intro h
      rcases hliteral with hshort | ⟨hopening, -⟩
      · exact absurd h.length_le (by omega)
      · exact hopening h.1
    refine iff_of_true ⟨fun h => (hwrapped h).elim, fun _ => ⟨_, rfl, rfl, rfl, ?_⟩⟩ ?_
    · exact fun headers streamInfo => executeOperation_static rfl
    · rcases hliteral with hshort | ⟨hopening, hclosing⟩
      · exact Or.inl hshort
      · exact Or.inr (iff_of_false hopening hclosing)
  · rw [if_neg hliteral]
    have hcall := parseCall_settles E processor ((t.drop 2).take (t.length - 3))
    rw [not_or, not_and_or, not_not, not_not] at hliteral
    obtain ⟨hlength, hdelimiter⟩ := hliteral
    constructor
    · rintro ⟨-, hother⟩
      right
      by_cases hwrapped : IsWrapped t
      · exact iff_of_true hwrapped.1 hwrapped.2
      · obtain ⟨f, hf, hstatic, -⟩ := hother hwrapped
        have htype := functionType_of_parseCall hf
        simp [hstatic] at htype
    · intro hboth
      have hwrapped : IsWrapped t := by
        rcases hboth with hshort | hboth
        · exact (hlength hshort).elim
        · rcases hdelimiter with hopening | hclosing
          · exact ⟨hopening, hboth.mp hopening⟩
          · exact ⟨hboth.mpr hclosing, hclosing⟩
      refine ⟨fun _ => ?_, fun h => (h hwrapped).elim⟩
      rcases hcall.cases with ⟨f, hf⟩ | ⟨status, hstatus⟩
      · exact Or.inr ⟨f, hf, functionType_of_parseCall hf⟩
      · exact Or.inl ⟨status, hstatus⟩

/-- The token `xxhdr(a)]` is parsed as the call `hdr(a)`. -/
theorem not_classifiedByDelimiters_closing_only :
    parseOperation Reference.envoy ⟨.requestSetBoolProcessors, true⟩ "xxhdr(a)]".toList =
        .accepted ⟨⟨.requestSetBoolProcessors, true⟩, .getHdr, "a".toList⟩ ∧
      ¬ ClassifiedByDelimiters Reference.envoy ⟨.requestSetBoolProcessors, true⟩
        "xxhdr(a)]".toList := by
  have hparsed : parseOperation Reference.envoy ⟨.requestSetBoolProcessors, true⟩
      "xxhdr(a)]".toList =
        .accepted ⟨⟨.requestSetBoolProcessors, true⟩, .getHdr, "a".toList⟩ := by decide +kernel
  refine ⟨hparsed, ?_⟩
  rintro ⟨-, hliteral⟩
  obtain ⟨f, hf, hstatic, -⟩ := hliteral fun h => absurd h.1 (by decide)
  obtain rfl := Parse.accepted.inj (hparsed.symm.trans hf)
  cases hstatic

/-! ## The grammar of a call -/

/-- The calls of a side, with their function and the text between their parentheses. -/
inductive IsCall (isRequest : Bool) : Str → FunctionType → Str → Prop
  | hdr {argument : Str} :
      (pieces ',' argument).length = 1 ∨ (pieces ',' argument).length = 2 →
      IsCall isRequest (dynamicValueHdr ++ '(' :: argument ++ [')']) .getHdr argument
  | urlp {argument : Str} :
      isRequest = true → (pieces ',' argument).length = 1 →
      IsCall isRequest (dynamicValueUrlParam ++ '(' :: argument ++ [')']) .urlp argument
  | metadata {argument : Str} :
      (pieces ',' argument).length = 1 →
      IsCall isRequest (dynamicValueMetadata ++ '(' :: argument ++ [')']) .getMetadata argument

/-- The name of a function. -/
def functionName : FunctionType → Str
  | .getHdr => dynamicValueHdr
  | .urlp => dynamicValueUrlParam
  | .getMetadata => dynamicValueMetadata
  | _ => []

/-- A text read as a function is the name of the function. -/
theorem eq_functionName {name : Str} (h : stringToFunctionType name ≠ .invalidFunctionType) :
    name = functionName (stringToFunctionType name) := by
  unfold stringToFunctionType at h ⊢
  split
  · assumption
  · split
    · assumption
    · split
      · assumption
      · simp_all

/-- No name of a function holds a parenthesis. -/
theorem not_mem_functionName (functionType : FunctionType) :
    '(' ∉ functionName functionType ∧ ')' ∉ functionName functionType := by
  cases functionType <;> decide

/-- A text whose part before the first `(` names a function, and which passes the check of the last
parenthesis, is that name and an argument in parentheses. -/
theorem eq_call_of_findLastOf {inner : Str}
    (htype : stringToFunctionType (inner.takeWhile (· ≠ '(')) ≠ .invalidFunctionType)
    (hlast : findLastOf inner ')' = lastPosition inner) :
    ∃ argument, inner =
      functionName (stringToFunctionType (inner.takeWhile (· ≠ '('))) ++ '(' :: argument ++
        [')'] := by
  rcases (findLastOf_eq_lastPosition_iff inner ')').mp hlast with rfl | ⟨front, hfront⟩
  · exact (htype rfl).elim
  have hname := eq_functionName htype
  generalize stringToFunctionType (inner.takeWhile (· ≠ '(')) = functionType at *
  obtain ⟨-, hclosing⟩ := not_mem_functionName functionType
  have hsplit : inner.takeWhile (· ≠ '(') ++ inner.dropWhile (· ≠ '(') = inner :=
    List.takeWhile_append_dropWhile
  rw [hname, hfront] at hsplit
  cases hrest : (front ++ [')']).dropWhile (· ≠ '(') with
  | nil =>
    rw [hrest, List.append_nil] at hsplit
    exact (hclosing (by simp [hsplit])).elim
  | cons opening rest =>
    obtain rfl : opening = '(' := by
      have hhead := List.head?_dropWhile_not (· ≠ '(') (front ++ [')'])
      rw [hrest] at hhead
      simpa using hhead
    rw [hrest] at hsplit
    rcases List.eq_nil_or_concat' rest with rfl | ⟨argument, last, rfl⟩
    · have hends := (List.append_inj' hsplit rfl).2
      cases hends
    · have hends : functionName functionType ++ '(' :: argument ++ [last] = front ++ [')'] := by
        rw [← hsplit]
        simp
      obtain rfl : last = ')' := by simpa using (List.append_inj' hends rfl).2
      exact ⟨argument, hfront.trans hends.symm⟩

/-- A call whose last character is not a closing parenthesis is rejected. -/
theorem getFunctionArgument_eq_rejected {inner : Str}
    (h : findLastOf inner ')' ≠ lastPosition inner) :
    getFunctionArgument inner = .rejected
      (.invalidArgument "failed to get function argument -- invalid dynamic function syntax") := by
  simp only [getFunctionArgument, if_pos h, Parse.bind_rejected, Parse.catchAs]

/-- Stripping the delimiters leaves the text between them. -/
theorem substr_wrapped (inner : Str) :
    let token := "%[".toList ++ inner ++ "]".toList
    dynamicFunctionDelimiter.length ≤ token.length ∧
      substr token 2 (token.length - dynamicFunctionDelimiter.length) = .returned inner := by
  intro token
  have hlength : token.length = inner.length + 3 := by simp [token]
  have hdelimiter : dynamicFunctionDelimiter.length = 3 := rfl
  refine ⟨by omega, ?_⟩
  rw [hdelimiter, substr_of_le (by omega), hlength]
  simp [token]

/-- A wrapped token is parsed as a call. -/
theorem parseOperation_wrapped (E : Envoy M I) (processor : Processor) (inner : Str) :
    parseOperation E processor ("%[".toList ++ inner ++ "]".toList) =
      parseCall E processor inner := by
  have hopening : "%[".toList <+: "%[".toList ++ inner ++ "]".toList := by
    simp only [List.append_assoc, List.prefix_append]
  rw [parseOperation_of_delimiters, if_neg]
  · refine congrArg (parseCall E processor) ?_
    simp
  · rintro (hshort | ⟨hnot, -⟩)
    · simp at hshort
      omega
    · exact hnot hopening

/-- A call is accepted exactly as the function and argument that it spells out. -/
theorem parseCall_eq_accepted_iff {E : Envoy M I} (hlaws : E.StringLaws) (processor : Processor)
    (inner : Str) (f : DynamicFunctionProcessor) :
    parseCall E processor inner = .accepted f ↔
      ∃ functionType argument, IsCall processor.isRequest inner functionType argument ∧
        f = { processor with functionType, functionArgument := argument } := by
  have hpieces : ∀ argument, E.splitToken argument "," false true = pieces ',' argument :=
    fun argument => hlaws.splitToken_eq argument _ true
  constructor
  · intro h
    have hcall := h
    unfold parseCall at h
    dsimp only at h
    split at h
    · cases h
    next htype =>
    split at h
    · cases h
    next hside =>
    obtain ⟨argument, hargument, h⟩ := Parse.bind_eq_accepted.mp h
    obtain ⟨_, harguments, h⟩ := Parse.bind_eq_accepted.mp h
    have hlast : findLastOf inner ')' = lastPosition inner := by
      refine Classical.byContradiction fun hne => ?_
      rw [getFunctionArgument_eq_rejected hne] at hargument
      cases hargument
    obtain ⟨argument', hinner⟩ := eq_call_of_findLastOf htype hlast
    generalize stringToFunctionType (inner.takeWhile (· ≠ '(')) = functionType at *
    obtain rfl : argument' = argument := by
      rw [hinner, getFunctionArgument_call (not_mem_functionName functionType).1] at hargument
      exact Parse.accepted.inj hargument
    refine ⟨functionType, argument', ?_, (Parse.accepted.inj h).symm⟩
    rw [hinner]
    unfold validateArguments at harguments
    simp only [hpieces] at harguments
    cases functionType with
    | getHdr =>
      simp only [ite_eq_right_iff, reduceCtorEq, imp_false, not_or] at harguments
      exact .hdr (by omega)
    | urlp =>
      simp only [ite_eq_right_iff, reduceCtorEq, imp_false, Decidable.not_not] at harguments
      exact .urlp (Classical.byContradiction fun hresponse => hside ⟨rfl, hresponse⟩) harguments
    | getMetadata =>
      simp only [ite_eq_right_iff, reduceCtorEq, imp_false, Decidable.not_not] at harguments
      exact .metadata harguments
    | static => cases harguments
    | invalidFunctionType => exact (htype rfl).elim
  · rintro ⟨functionType, argument, hcall, rfl⟩
    rw [← parseOperation_wrapped]
    cases hcall with
    | hdr hcount =>
      have hname : stringToFunctionType dynamicValueHdr = .getHdr := rfl
      refine (parseOperation_call E processor (by decide) argument).trans ?_
      have hvalid : validateArguments E .getHdr argument = .accepted () := by
        simp only [validateArguments, hpieces]
        exact if_neg (by omega)
      simp [hname, hvalid]
    | urlp hrequest hcount =>
      have hname : stringToFunctionType dynamicValueUrlParam = .urlp := rfl
      refine (parseOperation_call E processor (by decide) argument).trans ?_
      have hvalid : validateArguments E .urlp argument = .accepted () := by
        simp only [validateArguments, hpieces]
        exact if_neg (by omega)
      simp [hname, hvalid, hrequest]
    | metadata hcount =>
      have hname : stringToFunctionType dynamicValueMetadata = .getMetadata := rfl
      refine (parseOperation_call E processor (by decide) argument).trans ?_
      have hvalid : validateArguments E .getMetadata argument = .accepted () := by
        simp only [validateArguments, hpieces]
        exact if_neg (by omega)
      simp [hname, hvalid]

/-- The positions that the parser of calls computes are in order and inside the text. -/
theorem positions_of_findLastOf {inner : Str}
    (htype : stringToFunctionType (inner.takeWhile (· ≠ '(')) ≠ .invalidFunctionType)
    (hlast : findLastOf inner ')' = lastPosition inner) :
    ∃ start last, findFirstOf inner '(' = some start ∧ findLastOf inner ')' = some last ∧
      start < last ∧ last < inner.length := by
  obtain ⟨argument, hinner⟩ := eq_call_of_findLastOf htype hlast
  generalize stringToFunctionType (inner.takeWhile (· ≠ '(')) = functionType at *
  have hnone : (functionName functionType).findIdx? (fun c => decide (c = '(')) = none := by
    simpa using fun c (hc : c ∈ functionName functionType) (h : c = '(') =>
      (not_mem_functionName functionType).1 (h ▸ hc)
  have hfirst : findFirstOf inner '(' = some (functionName functionType).length := by
    rw [hinner, findFirstOf, List.append_assoc, List.findIdx?_append, hnone]
    simp [List.findIdx?_cons]
  have hposition : lastPosition inner = some (inner.length - 1) := by
    rw [lastPosition, if_neg]
    rintro rfl
    simp at hinner
  refine ⟨_, _, hfirst, hlast.trans hposition, ?_, ?_⟩
  · rw [hinner]
    simp
  · rw [hinner]
    simp

/-- A wrapped token is accepted exactly if the text between its delimiters is a call of the side,
and it is stored as the function named and the argument unchanged. No position that is computed on
the way is out of range, and evaluation finds the arguments that parsing counted. -/
theorem parseOperation_wrapped_iff {E : Envoy M I} (hlaws : E.StringLaws) (processor : Processor)
    (inner : Str) :
    let token := "%[".toList ++ inner ++ "]".toList
    (∀ f, parseOperation E processor token = .accepted f ↔
      ∃ functionType argument, IsCall processor.isRequest inner functionType argument ∧
        f = { processor with functionType, functionArgument := argument }) ∧
    (parseOperation E processor token).Settles ∧
    (dynamicFunctionDelimiter.length ≤ token.length ∧
      substr token 2 (token.length - dynamicFunctionDelimiter.length) = .returned inner) ∧
    (∃ functionType, getFunctionType inner = .returned functionType ∧
      (functionType ≠ .invalidFunctionType → findLastOf inner ')' = lastPosition inner →
        ∃ start last, findFirstOf inner '(' = some start ∧ findLastOf inner ')' = some last ∧
          start < last ∧ last < inner.length)) ∧
    ∀ f, parseOperation E processor token = .accepted f →
      (f.functionType = .getHdr →
        (∃ key, pieces ',' f.functionArgument = [key] ∧ ∀ headers streamInfo,
          executeOperation E f headers streamInfo = getHeaderValue E headers key (-1)) ∨
        ∃ key position, pieces ',' f.functionArgument = [key, position] ∧
          ∀ headers streamInfo, executeOperation E f headers streamInfo = (do
            let position ← stoi position
            getHeaderValue E headers key position)) ∧
      (f.functionType = .urlp →
        ∃ param, pieces ',' f.functionArgument = [param] ∧ ∀ headers streamInfo,
          executeOperation E f headers streamInfo = getUrlp E headers param) := by
  intro token
  refine ⟨fun f => ?_, parseOperation_settles E processor token, substr_wrapped inner,
    ⟨_, getFunctionType_eq inner, positions_of_findLastOf⟩, fun f hf => ?_⟩
  · rw [parseOperation_wrapped, parseCall_eq_accepted_iff hlaws]
  · have harguments : f.arguments E = pieces ',' f.functionArgument :=
      hlaws.splitToken_eq f.functionArgument _ true
    have hwf := wellFormed_of_parseOperation hf
    constructor
    · intro htype
      simp only [WellFormed, htype] at hwf
      rcases hwf with hone | htwo
      · obtain ⟨key, hkey⟩ := List.length_eq_one_iff.mp hone
        exact Or.inl ⟨key, harguments.symm.trans hkey, fun _ _ => executeOperation_hdr htype hkey⟩
      · obtain ⟨key, position, hboth⟩ := List.length_eq_two.mp htwo
        exact Or.inr ⟨key, position, harguments.symm.trans hboth,
          fun _ _ => executeOperation_hdr_position htype hboth⟩
    · intro htype
      simp only [WellFormed, htype] at hwf
      obtain ⟨param, hparam⟩ := List.length_eq_one_iff.mp hwf.1
      exact ⟨param, harguments.symm.trans hparam, fun _ _ => executeOperation_urlp htype hparam⟩

/-- The token `%[metadata(a(b))]`, whose argument has parentheses. -/
theorem parseOperation_wrapped_metadata :
    parseOperation Reference.envoy ⟨.requestSetBoolProcessors, true⟩
        ("%[".toList ++ "metadata(a(b))".toList ++ "]".toList) =
      .accepted ⟨⟨.requestSetBoolProcessors, true⟩, .getMetadata, "a(b)".toList⟩ :=
  ((parseOperation_wrapped_iff Reference.stringLaws ⟨.requestSetBoolProcessors, true⟩
    "metadata(a(b))".toList).1 _).mpr ⟨.getMetadata, "a(b)".toList,
      @IsCall.metadata true "a(b)".toList (by decide), rfl⟩

end HeaderRewrite.DynamicFunctionProcessor
