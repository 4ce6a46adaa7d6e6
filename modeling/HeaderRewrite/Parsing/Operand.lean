import HeaderRewrite.DynamicFunction

/-!
# Parsing an operand

What `DynamicFunctionProcessor.parseOperation` does with any token. The positions it computes are
always inside the token, so it accepts or rejects, and an operand it accepts has as many arguments
as its function takes.

## Main definitions

* `DynamicFunctionProcessor.WellFormed`: what parsing guarantees about an operand.

## Main results

* `DynamicFunctionProcessor.parseOperation_settles`: every token is accepted or rejected;
* `DynamicFunctionProcessor.parseOperation_cases`: the two ways of being accepted;
* `DynamicFunctionProcessor.wellFormed_of_parseOperation`: accepted operands are well formed;
* `DynamicFunctionProcessor.parseOperation_call`: the parse of a call in its full form.
-/

namespace HeaderRewrite.DynamicFunctionProcessor

open Cxx Utility

variable {M I : Type}

/-- An operand as parsing leaves it: a literal, or a call of a function of its side with a number
of arguments that the function takes. -/
def WellFormed (E : Envoy M I) (f : DynamicFunctionProcessor) : Prop :=
  let arguments := E.splitToken f.functionArgument "," false true
  match f.functionType with
  | .getHdr => arguments.length = 1 ∨ arguments.length = 2
  | .urlp => arguments.length = 1 ∧ f.isRequest = true
  | .getMetadata => arguments.length = 1
  | .static => True
  | .invalidFunctionType => False

/-- A token is a literal if it is too short, or has neither the opening nor the closing
delimiter. -/
theorem isStringLiteral_eq (t : Str) :
    isStringLiteral t = .returned
      (decide (t.length < 3 ∨ (t.take 2 ≠ "%[".toList ∧ t.drop (t.length - 1) ≠ "]".toList))) := by
  have hdelimiter : substr dynamicFunctionDelimiter 0 2 = .returned "%[".toList := rfl
  have hdelimiter' : substr dynamicFunctionDelimiter 2 1 = .returned "]".toList := rfl
  unfold isStringLiteral dynFunctionMinLength
  generalize "%[".toList = opening at *
  generalize "]".toList = closing at *
  by_cases hshort : t.length < 3
  · simp [hshort]
  · have hopen : substr t 0 2 = .returned (t.take 2) := by
      simpa using substr_of_le (Nat.zero_le t.length) 2
    have hclose : substr t (t.length - 1) 1 = .returned (t.drop (t.length - 1)) := by
      rw [substr_of_le (Nat.sub_le _ _), List.take_of_length_le]
      simp only [List.length_drop]
      omega
    by_cases hbegin : t.take 2 = opening
    · simp [hshort, hopen, hdelimiter, hbegin]
    · simp [hshort, hopen, hclose, hdelimiter, hdelimiter', hbegin]

/-- The function type is decided by the text before the first opening parenthesis. -/
theorem getFunctionType_eq (call : Str) :
    getFunctionType call = .returned (stringToFunctionType (call.takeWhile (· ≠ '('))) := by
  have htake : call.take ((findFirstOf call '(').getD call.length) = call.takeWhile (· ≠ '(') := by
    unfold findFirstOf
    induction call with
    | nil => rfl
    | cons c rest ih =>
      by_cases hc : c = '('
      · simp [List.findIdx?_cons, hc]
      · rw [List.takeWhile_cons_of_pos (by simpa using hc), ← ih]
        cases h : rest.findIdx? (· = '(') <;> simp [List.findIdx?_cons, hc, h]
  unfold getFunctionType
  dsimp only
  rw [substr_of_le (Nat.zero_le _)]
  simp only [List.drop_zero, htake, Outcome.bind_returned, Outcome.pure_eq]

/-- The argument of a call is found or the call is rejected. -/
theorem getFunctionArgument_settles (call : Str) : (getFunctionArgument call).Settles := by
  have hsubstr : ∀ pos n u, (liftM (substr call pos n) : Parse Status Str) ≠ .undefined u := by
    intro pos n u
    unfold substr
    split <;> simp
  refine Parse.settles_catchAs (fun u => ?_) _
  dsimp only
  split
  · simp
  · split <;> exact hsubstr _ _ u

/-- Checking the number of arguments accepts or rejects. -/
theorem validateArguments_settles (E : Envoy M I) (functionType : FunctionType) (argument : Str) :
    (validateArguments E functionType argument).Settles := by
  cases functionType with
  | getHdr =>
    simp only [validateArguments]
    split <;> trivial
  | urlp =>
    simp only [validateArguments]
    split <;> trivial
  | getMetadata =>
    simp only [validateArguments]
    split <;> trivial
  | static => trivial
  | invalidFunctionType => trivial

/-- The parse of a token that is not a literal, by its function type and argument. -/
def parseCall (E : Envoy M I) (processor : Processor) (call : Str) :
    Parse Status DynamicFunctionProcessor :=
  let functionType := stringToFunctionType (call.takeWhile (· ≠ '('))
  if functionType = .invalidFunctionType then
    .rejected (.invalidArgument "invalid function type for dynamic value")
  else if functionType = .urlp ∧ ¬ processor.isRequest then
    .rejected (.invalidArgument "cannot get url path parameter on response side")
  else do
    let functionArgument ← getFunctionArgument call
    validateArguments E functionType functionArgument
    return { processor with functionType, functionArgument }

/-- A token is a literal, or the text between its delimiters is parsed as a call. -/
theorem parseOperation_eq (E : Envoy M I) (processor : Processor) (t : Str) :
    parseOperation E processor t =
      if t.length < 3 ∨ (t.take 2 ≠ "%[".toList ∧ t.drop (t.length - 1) ≠ "]".toList) then
        .accepted { processor with functionType := .static, functionArgument := t }
      else parseCall E processor ((t.drop 2).take (t.length - 3)) := by
  unfold parseOperation
  rw [isStringLiteral_eq]
  simp only [Parse.liftM_returned, Parse.bind_accepted, Parse.pure_eq, decide_eq_true_eq]
  split
  · rfl
  · next h =>
    have hlen : 2 ≤ t.length := by
      simp only [not_or] at h
      omega
    rw [substr_of_le hlen]
    simp only [Parse.liftM_returned, Parse.bind_accepted, getFunctionType_eq]
    rfl

theorem parseCall_settles (E : Envoy M I) (processor : Processor) (call : Str) :
    (parseCall E processor call).Settles := by
  unfold parseCall
  dsimp only
  split
  · trivial
  · split
    · trivial
    · refine (getFunctionArgument_settles call).bind fun argument _ => ?_
      exact (validateArguments_settles E _ argument).bind fun _ _ => trivial

/-- Every token is accepted or rejected: no exception leaves the parser and no position it
computes is outside the token. -/
theorem parseOperation_settles (E : Envoy M I) (processor : Processor) (t : Str) :
    (parseOperation E processor t).Settles := by
  rw [parseOperation_eq]
  split
  · trivial
  · exact parseCall_settles E processor _

/-- What is accepted is the token as a literal, or a call of a function of the side whose number of
arguments was checked. -/
theorem parseOperation_cases {E : Envoy M I} {processor : Processor} {t : Str}
    {f : DynamicFunctionProcessor} (h : parseOperation E processor t = .accepted f) :
    f = { processor with functionType := .static, functionArgument := t } ∨
      ∃ functionType functionArgument, functionType ≠ .invalidFunctionType ∧
        (functionType = .urlp → processor.isRequest = true) ∧
        validateArguments E functionType functionArgument = .accepted () ∧
        f = { processor with functionType, functionArgument } := by
  rw [parseOperation_eq] at h
  split at h
  · exact Or.inl (Parse.accepted.inj h).symm
  · right
    unfold parseCall at h
    dsimp only at h
    split at h
    · cases h
    · next hvalid =>
      split at h
      · cases h
      · next hside =>
        obtain ⟨argument, -, h⟩ := Parse.bind_eq_accepted.mp h
        obtain ⟨_, hargs, h⟩ := Parse.bind_eq_accepted.mp h
        refine ⟨_, argument, hvalid, ?_, hargs, (Parse.accepted.inj h).symm⟩
        intro hurlp
        exact Classical.byContradiction fun hresponse => hside ⟨hurlp, hresponse⟩

/-- A parsed operand keeps the map and the side it was made with. -/
theorem toProcessor_of_parseOperation {E : Envoy M I} {processor : Processor} {t : Str}
    {f : DynamicFunctionProcessor} (h : parseOperation E processor t = .accepted f) :
    f.toProcessor = processor := by
  rcases parseOperation_cases h with rfl | ⟨_, _, -, -, -, rfl⟩ <;> rfl

/-- Accepted operands are well formed. -/
theorem wellFormed_of_parseOperation {E : Envoy M I} {processor : Processor} {t : Str}
    {f : DynamicFunctionProcessor} (h : parseOperation E processor t = .accepted f) :
    f.WellFormed E := by
  rcases parseOperation_cases h with rfl | ⟨functionType, argument, hvalid, hside, hargs, rfl⟩
  · trivial
  · unfold validateArguments at hargs
    cases functionType with
    | getHdr =>
      simp only [ite_eq_right_iff, reduceCtorEq, imp_false, not_or] at hargs
      simp only [WellFormed]
      omega
    | urlp =>
      simp only [ite_eq_right_iff, reduceCtorEq, imp_false, Decidable.not_not] at hargs
      exact ⟨hargs, hside rfl⟩
    | getMetadata =>
      simp only [ite_eq_right_iff, reduceCtorEq, imp_false, Decidable.not_not] at hargs
      exact hargs
    | static => trivial
    | invalidFunctionType => exact hvalid rfl

/-- The argument of a call `name(argument)` is the text between the parentheses, also where it
contains parentheses itself. -/
theorem getFunctionArgument_call {name : Str} (hname : '(' ∉ name) (argument : Str) :
    getFunctionArgument (name ++ '(' :: argument ++ [')']) = .accepted argument := by
  have hfirst : findFirstOf (name ++ '(' :: argument ++ [')']) '(' = some name.length := by
    unfold findFirstOf
    rw [List.append_assoc, List.findIdx?_append]
    have hnone : name.findIdx? (fun c => decide (c = '(')) = none := by
      simpa using fun c (hc : c ∈ name) (h : c = '(') => hname (h ▸ hc)
    simp [hnone, List.findIdx?_cons]
  have hlast : findLastOf (name ++ '(' :: argument ++ [')']) ')' =
      some (name.length + 1 + argument.length) := by
    simp [findLastOf, findFirstOf, List.findIdx?_cons]
    omega
  have hposition : lastPosition (name ++ '(' :: argument ++ [')']) =
      some (name.length + 1 + argument.length) := by
    simp [lastPosition]
    omega
  have hlt : name.length < name.length + 1 + argument.length := by omega
  have hsub : name.length + 1 + argument.length - name.length - 1 = argument.length := by omega
  unfold getFunctionArgument
  simp only [hfirst, hlast, hposition, ne_eq, not_true_eq_false, if_false, hlt, if_true, hsub]
  rw [substr_of_le (by simp)]
  simp only [Parse.liftM_returned, Parse.catchAs]
  have hdrop : (name ++ '(' :: argument ++ [')']).drop (name.length + 1) = argument ++ [')'] := by
    rw [List.append_assoc, List.drop_append]
    simp
  rw [hdrop]
  simp

/-- The parse of a token `%[name(argument)]`: the stored argument is the text between the
parentheses, unchanged. -/
theorem parseOperation_call (E : Envoy M I) (processor : Processor) {name : Str}
    (hname : '(' ∉ name) (argument : Str) :
    parseOperation E processor ("%[".toList ++ (name ++ '(' :: argument ++ [')']) ++ [']']) =
      if stringToFunctionType name = .invalidFunctionType then
        .rejected (.invalidArgument "invalid function type for dynamic value")
      else if stringToFunctionType name = .urlp ∧ ¬ processor.isRequest then
        .rejected (.invalidArgument "cannot get url path parameter on response side")
      else do
        validateArguments E (stringToFunctionType name) argument
        return { processor with
          functionType := stringToFunctionType name, functionArgument := argument } := by
  have hcall : ("%[".toList ++ (name ++ '(' :: argument ++ [')']) ++ [']']).drop 2 =
      (name ++ '(' :: argument ++ [')']) ++ [']'] := by simp
  have hlength : ("%[".toList ++ (name ++ '(' :: argument ++ [')']) ++ [']']).length - 3 =
      (name ++ '(' :: argument ++ [')']).length := by simp
  have htype : (name ++ '(' :: argument ++ [')']).takeWhile (· ≠ '(') = name := by
    rw [List.append_assoc, List.takeWhile_append_of_pos]
    · simp
    · intro c hc
      simpa using fun h : c = '(' => hname (h ▸ hc)
  rw [parseOperation_eq, if_neg, hcall, hlength, List.take_left']
  · unfold parseCall
    simp only [htype, getFunctionArgument_call hname, Parse.bind_accepted]
  · rfl
  · simp
    omega

end HeaderRewrite.DynamicFunctionProcessor
