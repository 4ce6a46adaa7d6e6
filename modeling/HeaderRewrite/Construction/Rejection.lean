import HeaderRewrite.Construction.RoundTrip

/-!
# Why lines are rejected

The texts that can be logged for a line, all of them: a fixed list, the text about a variable that
does not exist, and those about the number of arguments of a function. The parsers return each of
them with the code `InvalidArgument`. The handlers of their `try` blocks, which return `Unknown` and
a text that begins with `error parsing`, are never reached, and neither are some of the checks.

## Main definitions

* `LineError`, `IsLineError`: the texts, and the statuses of the parsers;
* `HttpHeaderRewriteFilter.loggedText`: the text that the constructor logs, if it does.

## Main results

* `DynamicFunctionProcessor.parseOperation_rejectsOnly`, `parseKeyValue_rejectsOnly` and their
  companions: what each parser rejects with;
* `HttpHeaderRewriteFilter.loggedText_iff`: the texts that are logged.
-/

namespace HeaderRewrite

open Cxx Utility

variable {M I : Type}

/-- The texts without a name or a number in them, each with a line that it is logged for where `b`
is the only variable. -/
def rejections : List (String × String) :=
  [("too few arguments provided", "http-request"),
    ("first argument must be <http-response/http-request>", "http set-path /"),
    ("invalid operation type", "http-request set /"),
    ("set-path can only be on request", "http-response set-path /"),
    ("redefinition of boolean variable", "http-request set-bool b x -m found"),
    ("not enough arguments for set-header", "http-request set-header k"),
    ("third argument to set-header must be a condition", "http-request set-header k v w"),
    ("not enough arguments for append-header", "http-request append-header k"),
    ("missing header value argument(s) for append-header", "http-request append-header k if"),
    ("not enough arguments for set-path", "http-request set-path"),
    ("second argument to set-path must be a condition", "http-request set-path / x"),
    ("not enough arguments for set-metadata", "http-request set-metadata k"),
    ("third argument to set-metadata must be a condition", "http-request set-metadata k v w"),
    ("not enough arguments for set-bool", "http-request set-bool c"),
    ("invalid match syntax", "http-request set-bool c x -n str"),
    ("missing argument for match type", "http-request set-bool c x -m str"),
    ("too many arguments for set bool", "http-request set-bool c x -m str y z"),
    ("invalid match type", "http-request set-bool c x -m like"),
    ("empty condition provided", "http-request set-path / if"),
    ("invalid condition -- condition must begin with 'not' or an operand",
      "http-request set-path / if and"),
    ("invalid condition -- cannot have two binary operators in a row",
      "http-request set-path / if b and and"),
    ("invalid condition -- cannot have an operator at the end of the condition",
      "http-request set-path / if b and"),
    ("invalid condition -- can't have an operator after 'not'",
      "http-request set-path / if not not"),
    ("invalid condition", "http-request set-path / if b b"),
    ("invalid function type for dynamic value", "http-request set-path %[x]"),
    ("cannot get url path parameter on response side", "http-response set-header k %[urlp(x)]"),
    ("failed to get function argument -- invalid dynamic function syntax",
      "http-request set-path %[hdr(x]")]

/-- The texts without a name or a number in them. -/
def fixedErrors : List String := rejections.map Prod.fst

/-- The text about the number of arguments of a function. -/
def argumentError (function expected : String) (n : Nat) : Str :=
  ("wrong number of arguments to " ++ function ++ " function, expected " ++ expected ++
    " but got ").toList ++ Nat.toDigits 10 n

/-- What can be a token of a line. -/
def IsToken (token : Str) : Prop := token ≠ [] ∧ ' ' ∉ token ∧ '\n' ∉ token

/-- The texts that are logged for a line. -/
inductive LineError : Str → Prop
  | fixed {message : String} : message ∈ fixedErrors → LineError message
  /-- The name is a token, but not a keyword of conditions. -/
  | undeclared {name : Str} : IsToken name →
      isOperator (stringToBooleanOperatorType name) = false →
      LineError ("boolean variable \"".toList ++ name ++ "\" in conditional does not exist".toList)
  | hdr {n : Nat} : n ≠ 1 → n ≠ 2 → LineError (argumentError "get header" "1 or 2" n)
  | urlp {n : Nat} : n ≠ 1 → LineError (argumentError "urlp" "1" n)
  | metadata {n : Nat} : n ≠ 1 → LineError (argumentError "get metadata" "1" n)

/-- The statuses that parsers reject with. -/
def IsLineError (status : Status) : Prop := ∃ text, LineError text ∧ status = .invalidArgument text

theorem isLineError_fixed {message : String} (h : message ∈ fixedErrors) :
    IsLineError (.invalidArgument message) := ⟨message, .fixed h, rfl⟩

/-! ## Operands -/

namespace DynamicFunctionProcessor

/-- The handler of the argument is not reached, as a position that was found lies in the text. -/
theorem getFunctionArgument_rejectsOnly (call : Str) :
    (getFunctionArgument call).RejectsOnly IsLineError := by
  have hsubstr : ∀ {pos}, pos ≤ call.length → ∀ n (handler : Exception → Status),
      (Parse.catchAs handler (liftM (substr call pos n))).RejectsOnly IsLineError := by
    intro pos hpos n handler
    rw [substr_of_le hpos]
    trivial
  unfold getFunctionArgument
  dsimp only
  split
  · exact isLineError_fixed (by simp [fixedErrors, rejections])
  · split
    · next start _ hstart _ =>
      have hlt := (List.findIdx?_eq_some_iff_getElem.mp hstart).1
      exact hsubstr hlt _ _
    · next start hstart _ =>
      have hlt := (List.findIdx?_eq_some_iff_getElem.mp hstart).1
      exact hsubstr hlt _ _
    · exact hsubstr (Nat.zero_le _) _ _
    · exact hsubstr (Nat.zero_le _) _ _

theorem validateArguments_rejectsOnly (E : Envoy M I) {functionType : FunctionType}
    (hstatic : functionType ≠ .static) (hvalid : functionType ≠ .invalidFunctionType)
    (argument : Str) :
    (validateArguments E functionType argument).RejectsOnly IsLineError := by
  cases functionType with
  | getHdr =>
    simp only [validateArguments]
    split
    · next h => exact ⟨_, .hdr (by omega) (by omega), rfl⟩
    · trivial
  | urlp =>
    simp only [validateArguments]
    split
    · next h => exact ⟨_, .urlp h, rfl⟩
    · trivial
  | getMetadata =>
    simp only [validateArguments]
    split
    · next h => exact ⟨_, .metadata h, rfl⟩
    · trivial
  | static => exact (hstatic rfl).elim
  | invalidFunctionType => exact (hvalid rfl).elim

theorem stringToFunctionType_ne_static (function : Str) :
    stringToFunctionType function ≠ .static := by
  unfold stringToFunctionType
  split_ifs <;> decide

theorem parseOperation_rejectsOnly (E : Envoy M I) (processor : Processor) (t : Str) :
    (parseOperation E processor t).RejectsOnly IsLineError := by
  rw [parseOperation_eq]
  split
  · trivial
  · unfold parseCall
    dsimp only
    split
    · exact isLineError_fixed (by simp [fixedErrors, rejections])
    · next hvalid =>
      split
      · exact isLineError_fixed (by simp [fixedErrors, rejections])
      · refine (getFunctionArgument_rejectsOnly _).bind fun argument => ?_
        exact (validateArguments_rejectsOnly E (stringToFunctionType_ne_static _) hvalid
          argument).bind fun _ => trivial

end DynamicFunctionProcessor

/-! ## Conditions -/

section Conditions

variable {declared : Str → Bool} {processor : Processor}

theorem isLineError_undeclared {name : Str} (hname : IsToken name)
    (h : isOperator (stringToBooleanOperatorType name) = false) :
    IsLineError (ConditionProcessor.undeclaredVariable name) := ⟨_, .undeclared hname h, rfl⟩

theorem isOperator_eq_false {o : BooleanOperatorType} (hbinary : ¬ isBinaryOperator o = true)
    (hnot : ¬ o = .not) : isOperator o = false := by
  cases o <;> simp_all [isOperator, Utility.isBinaryOperator]

theorem ConditionProcessor.parseRemaining_rejectsOnly (afterBinary : Bool) (rest : List Str)
    (operators : List BooleanOperatorType) (operands : List (Str × Bool))
    (hrest : ∀ t ∈ rest, IsToken t) :
    (parseRemaining declared afterBinary rest operators operands).RejectsOnly IsLineError := by
  fun_induction parseRemaining declared afterBinary rest operators operands with
  | case1 => trivial
  | case2 => exact isLineError_fixed (by simp [fixedErrors, rejections])
  | case3 => exact isLineError_fixed (by simp [fixedErrors, rejections])
  | case4 _ token _ _ _ _ hoperator _ =>
    exact isLineError_undeclared (hrest token List.mem_cons_self)
      (Bool.eq_false_iff.mpr hoperator)
  | case5 => trivial
  | case6 => exact isLineError_fixed (by simp [fixedErrors, rejections])
  | case7 _ _ _ _ _ _ _ _ _ ih => exact ih fun t ht => hrest t (List.mem_cons_of_mem _ ht)
  | case8 => exact isLineError_fixed (by simp [fixedErrors, rejections])
  | case9 _ _ operand _ _ _ _ _ _ _ hoperator _ =>
    exact isLineError_undeclared (hrest operand (List.mem_cons_of_mem _ List.mem_cons_self))
      (Bool.eq_false_iff.mpr hoperator)
  | case10 _ _ _ _ _ _ _ _ _ _ _ _ ih =>
    exact ih fun t ht => hrest t (List.mem_cons_of_mem _ (List.mem_cons_of_mem _ ht))
  | case11 _ token _ _ _ _ _ _ hbinary hnot _ =>
    exact isLineError_undeclared (hrest token List.mem_cons_self)
      (isOperator_eq_false hbinary hnot)
  | case12 _ _ _ _ _ _ _ _ _ _ _ ih => exact ih fun t ht => hrest t (List.mem_cons_of_mem _ ht)

theorem ConditionProcessor.parseOperation_rejectsOnly {tokens : List Str} {start : Nat}
    (hstart : start < tokens.length) (htokens : ∀ t ∈ tokens, IsToken t) :
    (parseOperation declared tokens start processor).RejectsOnly IsLineError := by
  obtain ⟨first, -, hdrop⟩ := exists_drop_eq_cons hstart
  rw [parseOperation_eq processor hdrop]
  unfold parseCondition
  split
  · exact isLineError_fixed (by simp [fixedErrors, rejections])
  · have hrest : ∀ t ∈ first :: tokens.drop (start + 1), IsToken t := fun t ht =>
      htokens t (List.mem_of_mem_drop (hdrop ▸ ht))
    refine (parseRemaining_rejectsOnly _ _ _ _ hrest).bind fun result => ?_
    dsimp only
    split
    · trivial
    · exact isLineError_fixed (by simp [fixedErrors, rejections])

theorem conditionProcessorSetup_rejectsOnly {condition : List Str}
    (hcondition : ∀ t ∈ condition, IsToken t) :
    (conditionProcessorSetup declared processor condition 0).RejectsOnly IsLineError := by
  unfold conditionProcessorSetup
  split
  · exact isLineError_fixed (by simp [fixedErrors, rejections])
  · next hne => exact ConditionProcessor.parseOperation_rejectsOnly (by omega) hcondition

theorem parseClause_rejectsOnly {otherwise : String} (hotherwise : otherwise ∈ fixedErrors)
    {clause : List Str} (hclause : ∀ t ∈ clause, IsToken t) :
    (parseClause declared processor otherwise clause).RejectsOnly IsLineError := by
  cases clause with
  | nil => trivial
  | cons keyword condition =>
    simp only [parseClause]
    split
    · exact (conditionProcessorSetup_rejectsOnly (List.forall_mem_cons.mp hclause).2).map some
    · exact isLineError_fixed hotherwise

end Conditions

/-! ## Operations -/

section Operations

variable {E : Envoy M I} {declared : Str → Bool} {processor : Processor}

theorem parseKeyValue_rejectsOnly {α : Type} {tooFew otherwise : String}
    (htooFew : tooFew ∈ fixedErrors) (hotherwise : otherwise ∈ fixedErrors)
    {make : DynamicFunctionProcessor → DynamicFunctionProcessor → Option ConditionProcessor → α}
    {rest : List Str} (hrest : ∀ t ∈ rest, IsToken t) :
    (parseKeyValue E declared processor tooFew otherwise make rest).RejectsOnly IsLineError := by
  match rest with
  | key :: value :: clause =>
    refine (DynamicFunctionProcessor.parseOperation_rejectsOnly E processor key).bind fun _ => ?_
    refine (DynamicFunctionProcessor.parseOperation_rejectsOnly E processor value).bind fun _ => ?_
    exact (parseClause_rejectsOnly hotherwise fun t ht => hrest t (by simp [ht])).bind
      fun _ => trivial
  | [] => exact isLineError_fixed htooFew
  | [_] => exact isLineError_fixed htooFew

theorem SetPathProcessor.parseOperation_rejectsOnly (side name : Str) {rest : List Str}
    (hrest : ∀ t ∈ rest, IsToken t) :
    (parseOperation E declared processor (side :: name :: rest) 2).RejectsOnly IsLineError := by
  match rest with
  | path :: clause =>
    rw [parseOperation_eq]
    refine (DynamicFunctionProcessor.parseOperation_rejectsOnly E processor path).bind fun _ => ?_
    exact (parseClause_rejectsOnly (by simp [fixedErrors, rejections]) fun t ht =>
      hrest t (by simp [ht])).bind fun _ => trivial
  | [] => exact isLineError_fixed (by simp [fixedErrors, rejections])

theorem AppendHeaderProcessor.parseRemaining_rejectsOnly {tokens : List Str}
    (htokens : ∀ t ∈ tokens, IsToken t) (headerVals : List DynamicFunctionProcessor) :
    (parseRemaining E declared processor tokens headerVals).RejectsOnly IsLineError := by
  induction tokens generalizing headerVals with
  | nil => trivial
  | cons token rest ih =>
    simp only [parseRemaining]
    split
    · split
      · exact isLineError_fixed (by simp [fixedErrors, rejections])
      · exact (conditionProcessorSetup_rejectsOnly (List.forall_mem_cons.mp htokens).2).bind
          fun _ => trivial
    · exact (DynamicFunctionProcessor.parseOperation_rejectsOnly E processor token).bind
        fun _ => ih (List.forall_mem_cons.mp htokens).2 _

theorem AppendHeaderProcessor.parseOperation_rejectsOnly (side name : Str) {rest : List Str}
    (hrest : ∀ t ∈ rest, IsToken t) :
    (parseOperation E declared processor (side :: name :: rest) 2).RejectsOnly IsLineError := by
  match rest with
  | key :: token :: rest =>
    rw [parseOperation_eq]
    refine (DynamicFunctionProcessor.parseOperation_rejectsOnly E processor key).bind fun _ => ?_
    exact (parseRemaining_rejectsOnly (List.forall_mem_cons.mp hrest).2 _).bind fun _ => trivial
  | [] => exact isLineError_fixed (by simp [fixedErrors, rejections])
  | [_] => exact isLineError_fixed (by simp [fixedErrors, rejections])

theorem SetBoolProcessor.parseComparison_rejectsOnly (source : Str) (matchType : MatchType)
    (comparison : List Str) :
    (parseComparison E processor source matchType comparison).RejectsOnly IsLineError := by
  have hoperand := DynamicFunctionProcessor.parseOperation_rejectsOnly E processor
  match comparison with
  | [] =>
    simp only [parseComparison]
    split
    · exact isLineError_fixed (by simp [fixedErrors, rejections])
    · refine (hoperand source).bind fun _ => ?_
      split
      · exact isLineError_fixed (by simp [fixedErrors, rejections])
      · exact (hoperand "").bind fun _ => trivial
  | [stringToCompare] =>
    simp only [parseComparison]
    split
    · exact isLineError_fixed (by simp [fixedErrors, rejections])
    · exact (hoperand source).bind fun _ => (hoperand stringToCompare).bind fun _ => trivial
  | _ :: _ :: _ => exact isLineError_fixed (by simp [fixedErrors, rejections])

theorem SetBoolProcessor.parseOperation_rejectsOnly (side op : Str) (rest : List Str) :
    (parseOperation E processor (side :: op :: rest) 2).RejectsOnly IsLineError := by
  match rest with
  | name :: source :: flag :: matchType :: comparison =>
    rw [parseOperation_eq]
    split
    · exact isLineError_fixed (by simp [fixedErrors, rejections])
    · exact parseComparison_rejectsOnly _ _ _
  | [] => exact isLineError_fixed (by simp [fixedErrors, rejections])
  | [_] => exact isLineError_fixed (by simp [fixedErrors, rejections])
  | [_, _] => exact isLineError_fixed (by simp [fixedErrors, rejections])
  | [_, _, _] => exact isLineError_fixed (by simp [fixedErrors, rejections])

end Operations

/-! ## Lines -/

namespace HttpHeaderRewriteFilter

variable {E : Envoy M I} {f : HttpHeaderRewriteFilter} {isRequest : Bool}

/-- The message of a status that a parser rejects with. -/
theorem lineError_of_isLineError {status : Status} (h : IsLineError status) :
    LineError status.message := by
  obtain ⟨text, htext, rfl⟩ := h
  exact htext

theorem parseProcessor_rejectsOnly (declared : Str → Bool) (type : OperationType) (op : Str)
    {rest : List Str} (hrest : ∀ t ∈ rest, IsToken t) :
    (parseProcessor E declared (.ofSide isRequest) type
      (sideKeyword isRequest :: op :: rest)).RejectsOnly LineError := by
  simp only [parseProcessor, offset_line, Parse.liftM_returned, Parse.bind_accepted]
  cases type with
  | setHeader =>
    rw [SetHeaderProcessor.parseOperation_eq]
    exact ((parseKeyValue_rejectsOnly (by simp [fixedErrors, rejections])
      (by simp [fixedErrors, rejections]) hrest).mapRejection
        fun _ => lineError_of_isLineError).map _
  | appendHeader =>
    exact ((AppendHeaderProcessor.parseOperation_rejectsOnly _ _ hrest).mapRejection
      fun _ => lineError_of_isLineError).map _
  | setPath =>
    dsimp only
    split
    · exact .fixed (by simp [fixedErrors, rejections])
    · exact ((SetPathProcessor.parseOperation_rejectsOnly _ _ hrest).mapRejection
        fun _ => lineError_of_isLineError).map _
  | setDynMetadata =>
    rw [SetDynamicMetadataProcessor.parseOperation_eq]
    exact ((parseKeyValue_rejectsOnly (by simp [fixedErrors, rejections])
      (by simp [fixedErrors, rejections]) hrest).mapRejection
        fun _ => lineError_of_isLineError).map _
  | setBool => exact .fixed (by simp [fixedErrors, rejections])
  | invalidOperation => exact .fixed (by simp [fixedErrors, rejections])

/-- A line whose first token is neither keyword is rejected for that. -/
theorem processTokens_of_ne {side op : Str} {rest : List Str} (hrequest : side ≠ httpRequest)
    (hresponse : side ≠ httpResponse) :
    processTokens E f (side :: op :: rest) =
      .rejected "first argument must be <http-response/http-request>" := by
  have hlength : ¬ rest.length + 1 + 1 < 2 := by omega
  unfold processTokens
  simp only [minNumArguments, List.length_cons, hlength, if_false, vectorAt_cons_zero,
    Parse.liftM_returned, Parse.bind_accepted, ne_eq, hrequest, hresponse, not_false_eq_true,
    and_self, if_true, Parse.bind_rejected]

theorem processTokens_rejectsOnly {tokens : List Str} (htokens : ∀ t ∈ tokens, IsToken t) :
    (processTokens E f tokens).RejectsOnly LineError := by
  match tokens with
  | [] => exact .fixed (by simp [fixedErrors, rejections])
  | [_] => exact .fixed (by simp [fixedErrors, rejections])
  | side :: op :: rest =>
    by_cases hside : ∃ isRequest, side = sideKeyword isRequest
    · obtain ⟨isRequest, rfl⟩ := hside
      rw [processTokens_eq]
      split
      · match rest with
        -- reading the name of the variable throws
        | [] => trivial
        | name :: rest =>
          rw [processSetBool_eq]
          refine ((SetBoolProcessor.parseOperation_rejectsOnly _ _ _).mapRejection
            fun _ => lineError_of_isLineError).bind fun p => ?_
          split
          · trivial
          · exact .fixed (by simp [fixedErrors, rejections])
      · exact (parseProcessor_rejectsOnly _ _ _ fun t ht => htokens t (by simp [ht])).map _
    · rw [processTokens_of_ne (fun h => hside ⟨true, h⟩) fun h => hside ⟨false, h⟩]
      exact .fixed (by simp [fixedErrors, rejections])

/-! ## The text that is logged -/

/-- The text that the loop of the constructor calls `fail` with, if it does. -/
def failText (E : Envoy M I) (f : HttpHeaderRewriteFilter) : List (List Str) → Option Str
  | [] => none
  | tokens :: lines =>
    match processTokens E f tokens with
    | .accepted f' => failText E f' lines
    | .rejected text => some text
    | .threw _ => none
    | .undefined _ => none

/-- The text that is logged for a configuration, if one is. -/
def loggedText (E : Envoy M I) (config : Str) : Option Str := failText E init (configLines E config)

/-- The error is set exactly if a text is logged. -/
theorem error_eq_true_iff {lines : List (List Str)} {g : HttpHeaderRewriteFilter}
    (hf : f.error = false) (h : processLines E f lines = .returned g) :
    g.error = true ↔ (failText E f lines).isSome = true := by
  induction lines generalizing f with
  | nil =>
    obtain rfl := Outcome.returned.inj h
    simp [failText, hf]
  | cons tokens lines ih =>
    rw [processLines] at h
    rw [failText]
    cases hline : processTokens E f tokens with
    | accepted f' =>
      rw [hline] at h
      have haccepted : Constructs E f [tokens] f' := Constructs.cons_iff.mpr ⟨f', hline, .nil⟩
      exact ih (haccepted.error_eq.trans hf) h
    | rejected text =>
      rw [hline] at h
      obtain rfl := Outcome.returned.inj h
      simp
    | threw e =>
      rw [hline] at h
      cases h
    | undefined u =>
      rw [hline] at h
      cases h

/-- What is logged for a line of words is the text of an error. -/
theorem lineError_of_failText {lines : List (List Str)} (hlines : ∀ line ∈ lines, ConfigWords line)
    {text : Str} (h : failText E f lines = some text) : LineError text := by
  induction lines generalizing f with
  | nil => cases h
  | cons tokens lines ih =>
    rw [failText] at h
    cases hline : processTokens E f tokens with
    | accepted f' =>
      rw [hline] at h
      exact ih (fun line hmem => hlines line (List.mem_cons_of_mem _ hmem)) h
    | rejected message =>
      rw [hline] at h
      obtain rfl := Option.some.inj h
      have hrejects := processTokens_rejectsOnly (E := E) (f := f)
        (hlines tokens List.mem_cons_self).word
      rwa [hline] at hrejects
    | threw e =>
      rw [hline] at h
      cases h
    | undefined u =>
      rw [hline] at h
      cases h

/-! ## Every text is logged for some configuration -/

/-- The line that defines the variable `b`. -/
def variableLine : Str := "http-request set-bool b x -m found".toList

/-- The filter after this line. -/
def withVariable : HttpHeaderRewriteFilter :=
  init.declare true "b" ⟨.ofSide true, .found, ⟨.ofSide true, .static, "x"⟩,
    ⟨.ofSide true, .static, []⟩⟩

/-- After the line, the lines that follow it are read. -/
theorem failText_variableLine (E : Envoy M I) (text : Str) :
    failText E init (readLines ' ' '\n' (variableLine ++ '\n' :: text)) =
      failText E withVariable (readLines ' ' '\n' text) := by
  have hlines : readLines ' ' '\n' variableLine = [splitText " " false variableLine] := rfl
  have htokens : processTokens E init (splitText " " false variableLine) =
      .accepted withVariable := rfl
  have happend : readLines ' ' '\n' (variableLine ++ '\n' :: text) =
      splitText " " false variableLine :: readLines ' ' '\n' text := by
    rw [readLines, pieces_append_cons, List.map_append]
    exact congrArg (· ++ _) hlines
  rw [happend, failText, htokens]

/-- The fixed texts are all logged. -/
theorem failText_rejections (E : Envoy M I) : ∀ entry ∈ rejections,
    failText E withVariable (readLines ' ' '\n' entry.2.toList) = some entry.1.toList := by
  simp only [rejections, List.forall_mem_cons, List.not_mem_nil, false_imp_iff, implies_true,
    and_true]
  repeat' apply And.intro
  all_goals rfl

/-- What is logged for a line of words is logged for the configuration that has only this line. -/
theorem exists_loggedText (hstrings : E.StringLaws) (tokens : List Str) {text : Str}
    (hwords : ConfigWords (httpRequest :: tokens))
    (h : processTokens E init (httpRequest :: tokens) = .rejected text) :
    ∃ config, loggedText E config = some text := by
  refine ⟨printLines ' ' '\n' [httpRequest :: tokens], ?_⟩
  have hlines : ∀ words ∈ [httpRequest :: tokens], ConfigWords words ∧ ∃ c first rest,
      words = (c :: first) :: rest ∧ isSpace c = false := by
    intro words hmem
    obtain rfl := List.mem_singleton.mp hmem
    exact ⟨hwords, _, _, tokens, rfl, by decide⟩
  rw [loggedText, configLines_eq_readLines hstrings, readLines_printLines (by decide) hlines,
    failText, h]

/-- A path that is rejected is logged as such. -/
theorem processTokens_setPath {path : Str} {rest : List Str} {message : Str}
    (h : SetPathProcessor.parseOperation E (f.scope true) (.ofSide true)
      (sideKeyword true :: operationSetPath :: path :: rest) 2 =
        .rejected (.invalidArgument message)) :
    processTokens E f (sideKeyword true :: operationSetPath :: path :: rest) =
      .rejected message := by
  have htype : stringToOperationType operationSetPath = .setPath := by decide
  rw [processTokens_eq, htype, if_neg (by decide)]
  simp only [parseProcessor, offset_line, Parse.liftM_returned, Parse.bind_accepted,
    Processor.isRequest_ofSide, not_true_eq_false, if_false, h]
  rfl

/-- The text about a variable is logged for any token that is not a keyword. -/
theorem exists_undeclared (hstrings : E.StringLaws) {name : Str} (hname : IsToken name)
    (h : isOperator (stringToBooleanOperatorType name) = false) :
    ∃ config, loggedText E config = some ("boolean variable \"".toList ++ name ++
      "\" in conditional does not exist".toList) := by
  have hbinary := ConditionProcessor.isBinaryOperator_of_not_isOperator h
  have hnot : ¬ stringToBooleanOperatorType name = .not := fun heq => by
    rw [heq] at h
    cases h
  have hscope : init.scope true name = false := rfl
  -- a token after the name, as the name may end in white space
  have hcondition : ConditionProcessor.parseOperation (init.scope true) [name, "x".toList] 0
      (.ofSide true) = .rejected (ConditionProcessor.undeclaredVariable name) := by
    rw [ConditionProcessor.parseOperation_eq _ List.drop_zero]
    simp only [ConditionProcessor.parseCondition, ConditionProcessor.parseRemaining, hbinary, hnot,
      hscope, Bool.false_eq_true, false_and, if_false, not_false_eq_true, if_true,
      Parse.bind_rejected]
  have hpath : DynamicFunctionProcessor.parseOperation E (.ofSide true) "/" =
      .accepted ⟨.ofSide true, .static, "/"⟩ := rfl
  have hclause : parseClause (init.scope true) (.ofSide true)
      "second argument to set-path must be a condition" [ifKeyword, name, "x".toList] =
        .rejected (ConditionProcessor.undeclaredVariable name) := by
    have hcons : ¬ 0 = [name, "x".toList].length := by simp
    rw [parseClause, if_pos rfl, conditionProcessorSetup, if_neg hcons, hcondition]
    rfl
  refine exists_loggedText hstrings [operationSetPath, "/".toList, ifKeyword, name, "x".toList] ?_
    (processTokens_setPath ?_)
  · exact .cons (by decide) (.cons (by decide) (.cons (by decide) (.cons (by decide)
      (.cons hname (.singleton (by decide) (fun c hc => by
        obtain rfl := Option.some.inj hc
        rfl))))))
  · rw [SetPathProcessor.parseOperation_eq, hpath, Parse.bind_accepted, hclause]
    rfl

/-- A call can have any number of arguments. -/
theorem exists_argument (hstrings : E.StringLaws) (n : Nat) :
    ∃ argument, (E.splitToken argument "," false true).length = n ∧
      ' ' ∉ argument ∧ '\n' ∉ argument := by
  have hmem : ∀ c ∈ [','].intercalate (List.replicate n "a".toList), c = ',' ∨ c = 'a' := by
    intro c hc
    rcases mem_of_mem_intercalate hc with rfl | ⟨w, hw, hc⟩
    · exact Or.inl rfl
    · rw [List.eq_of_mem_replicate hw] at hc
      exact Or.inr (List.mem_singleton.mp hc)
  refine ⟨[','].intercalate (List.replicate n "a".toList), ?_,
    fun h => (hmem _ h).elim (by decide) (by decide),
    fun h => (hmem _ h).elim (by decide) (by decide)⟩
  have hpieces := pieces_intercalate ',' (List.replicate n "a".toList)
  rw [pieces] at hpieces
  rw [hstrings.splitToken_eq]
  have hone : pieces ',' "a".toList = ["a".toList] := by decide
  calc _ = ((List.replicate n "a".toList).flatMap (pieces ',')).length := congrArg _ hpieces
    _ = n := by
      rw [List.length_flatMap, List.map_replicate, hone]
      simp

/-- The text about the number of arguments of a function is logged for a number that is wrong. -/
theorem exists_argumentError (hstrings : E.StringLaws) {functionType : FunctionType}
    (name : Str) (hname : '(' ∉ name ∧ ' ' ∉ name ∧ '\n' ∉ name) {n : Nat} {message : Str}
    (htype : stringToFunctionType name = functionType)
    (hvalid : functionType ≠ .invalidFunctionType)
    (h : ∀ argument, (E.splitToken argument "," false true).length = n →
      DynamicFunctionProcessor.validateArguments E functionType argument =
        .rejected (.invalidArgument message)) :
    ∃ config, loggedText E config = some message := by
  obtain ⟨argument, hargument, hspace, hnewline⟩ := exists_argument hstrings n
  subst htype
  have hpath : DynamicFunctionProcessor.parseOperation E (.ofSide true)
      ("%[".toList ++ (name ++ '(' :: argument ++ [')']) ++ [']']) =
        .rejected (.invalidArgument message) := by
    rw [DynamicFunctionProcessor.parseOperation_call E _ hname.1, if_neg hvalid,
      if_neg (by simp), h argument hargument]
    rfl
  refine exists_loggedText hstrings [operationSetPath,
    "%[".toList ++ (name ++ '(' :: argument ++ [')']) ++ [']']] ?_ (processTokens_setPath ?_)
  · refine .cons (by decide) (.cons (by decide) (.singleton ?_ fun c hc => ?_))
    · simp [hname, hspace, hnewline]
    · rw [List.getLast?_concat] at hc
      obtain rfl := Option.some.inj hc
      rfl
  · rw [SetPathProcessor.parseOperation_eq, hpath]
    rfl

/-- A text is logged for a configuration exactly if the error of the filter is set. The texts are
the fixed ones, the one about a variable that does not exist, for every token that is not a keyword,
and those about the number of arguments of a function, for every number that it does not take. -/
theorem loggedText_iff (hstrings : E.StringLaws) :
    (∀ config f, construct E config = .returned f →
      (f.error = true ↔ (loggedText E config).isSome = true)) ∧
    ∀ text, (∃ config, loggedText E config = some text) ↔ LineError text := by
  refine ⟨fun config f hf => error_eq_true_iff rfl hf, fun text => ⟨?_, fun h => ?_⟩⟩
  · rintro ⟨config, htext⟩
    refine lineError_of_failText (fun line hline => ?_) htext
    rw [configLines_eq_readLines hstrings] at hline
    exact words_of_mem_readLines (by decide) hline
  cases h with
  | fixed hfixed =>
    obtain ⟨entry, hentry, rfl⟩ := List.mem_map.mp hfixed
    refine ⟨variableLine ++ '\n' :: entry.2.toList, ?_⟩
    rw [loggedText, configLines_eq_readLines hstrings, failText_variableLine]
    exact failText_rejections E entry hentry
  | undeclared hname hkeyword => exact exists_undeclared hstrings hname hkeyword
  | @hdr n hone htwo =>
    refine exists_argumentError hstrings dynamicValueHdr (by decide) rfl (by decide)
      fun argument (hargument : _ = n) => ?_
    have hcount : n < 1 ∨ n > 2 := by omega
    exact (if_pos (hargument ▸ hcount)).trans (by rw [hargument]; rfl)
  | @urlp n hone =>
    refine exists_argumentError hstrings dynamicValueUrlParam (by decide) rfl (by decide)
      fun argument (hargument : _ = n) => ?_
    exact (if_pos (hargument ▸ hone)).trans (by rw [hargument]; rfl)
  | @metadata n hone =>
    refine exists_argumentError hstrings dynamicValueMetadata (by decide) rfl (by decide)
      fun argument (hargument : _ = n) => ?_
    exact (if_pos (hargument ▸ hone)).trans (by rw [hargument]; rfl)

/-- A text that is logged, and the text of a handler, which is not. -/
theorem loggedText_iff_handler :
    (∃ config, loggedText Reference.envoy config =
        some "redefinition of boolean variable".toList) ∧
      ¬ ∃ config, loggedText Reference.envoy config =
        some "failed to get function argument".toList := by
  refine ⟨((loggedText_iff Reference.stringLaws).2 _).mpr
    (.fixed (by simp [fixedErrors, rejections])), fun h => ?_⟩
  have herror := ((loggedText_iff Reference.stringLaws).2 _).mp h
  generalize htext : "failed to get function argument".toList = text at herror
  cases herror with
  | fixed hfixed =>
    obtain rfl := String.toList_injective htext
    simp [fixedErrors, rejections] at hfixed
  | undeclared _ => cases htext
  | hdr _ _ => cases htext
  | urlp _ => cases htext
  | metadata _ => cases htext

end HttpHeaderRewriteFilter

end HeaderRewrite
