import HeaderRewrite.Filter
import HeaderRewrite.Parsing.Operation

/-!
# One line of a configuration

What the constructor does with the tokens of one line. A line is an operation or the definition of
a boolean variable; `OperationLine` and `DefinitionLine` relate the forms of these lines to what is
built from them. A line that has neither form is rejected, except for the one of exactly the two
tokens `side set-bool`, on which the constructor throws.

## Main definitions

* `Processor.ofSide`, `sideKeyword`: the two sides;
* `OperationLine`, `DefinitionLine`: the lines, and what they stand for;
* `HttpHeaderRewriteFilter.declare`: the effect of a definition.

## Main results

* `HttpHeaderRewriteFilter.processTokens_eq_accepted_iff`: the accepted lines and their effect;
* `HttpHeaderRewriteFilter.processTokens_settles`: which lines are accepted or rejected;
* `HttpHeaderRewriteFilter.processTokens_bareSetBool`: the line that is neither.
-/

namespace HeaderRewrite

open Cxx Utility

variable {M I : Type}

/-- The members of the processors of a side. -/
def Processor.ofSide (isRequest : Bool) : Processor :=
  ⟨if isRequest then .requestSetBoolProcessors else .responseSetBoolProcessors, isRequest⟩

@[simp] theorem Processor.isRequest_ofSide (isRequest : Bool) :
    (Processor.ofSide isRequest).isRequest = isRequest := rfl

/-- The first token of the lines of a side. -/
def sideKeyword (isRequest : Bool) : Str := if isRequest then httpRequest else httpResponse

theorem sideKeyword_injective {isRequest isRequest' : Bool}
    (h : sideKeyword isRequest = sideKeyword isRequest') : isRequest = isRequest' := by
  revert h
  cases isRequest <;> cases isRequest' <;> decide

/-- The second token of the lines of an operation. -/
def operationKeyword : OperationType → Str
  | .setHeader => operationSetHeader
  | .appendHeader => operationAppendHeader
  | .setPath => operationSetPath
  | .setBool => operationSetBool
  | .setDynMetadata => operationSetDynMetadata
  | .invalidOperation => []

theorem stringToOperationType_setBool :
    stringToOperationType operationSetBool = .setBool := by decide

/-- The operands that a boolean variable evaluates. -/
def SetBoolProcessor.operands (p : SetBoolProcessor) : List DynamicFunctionProcessor :=
  [p.sourceProcessor, p.stringToCompareFunctionProcessor]

/-- The operands that an operation evaluates itself, its condition apart. -/
def HeaderProcessor.operands : HeaderProcessor → List DynamicFunctionProcessor
  | .setHeader p => [p.headerKey, p.headerVal]
  | .appendHeader p => p.headerKey :: p.headerVals
  | .setPath p => [p.requestPath]
  | .setDynamicMetadata p => [p.metadataKey, p.metadataValue]

/-! ## The forms of a line -/

/-- A token that is accepted as an operand of a side. -/
abbrev Operand (E : Envoy M I) (isRequest : Bool) (token : Str) (f : DynamicFunctionProcessor) :
    Prop :=
  DynamicFunctionProcessor.parseOperation E (Processor.ofSide isRequest) token = .accepted f

/-- The lines of a side that are operations, where the variables of the side that are declared so
far are `declared`, and the operations they stand for. -/
inductive OperationLine (E : Envoy M I) (declared : Str → Bool) (isRequest : Bool) :
    List Str → HeaderProcessor → Prop
  /-- The line `side set-header key value [if condition]`. -/
  | setHeader {key value : Str} {clause : List Str} {headerKey headerVal : DynamicFunctionProcessor}
      {condition : Option ConditionProcessor} :
      Operand E isRequest key headerKey → Operand E isRequest value headerVal →
      Clause declared (.ofSide isRequest) clause condition →
      OperationLine E declared isRequest
        (sideKeyword isRequest :: operationSetHeader :: key :: value :: clause)
        (.setHeader ⟨.ofSide isRequest, headerKey, headerVal, condition⟩)
  /-- The line `side append-header key value ... value [if condition]`. -/
  | appendHeader {key : Str} {values clause : List Str} {headerKey : DynamicFunctionProcessor}
      {headerVals : List DynamicFunctionProcessor} {condition : Option ConditionProcessor} :
      Operand E isRequest key headerKey → values ≠ [] → (∀ value ∈ values, value ≠ ifKeyword) →
      List.Forall₂ (Operand E isRequest) values headerVals →
      Clause declared (.ofSide isRequest) clause condition →
      OperationLine E declared isRequest
        (sideKeyword isRequest :: operationAppendHeader :: key :: values ++ clause)
        (.appendHeader ⟨.ofSide isRequest, headerKey, headerVals, condition⟩)
  /-- The line `http-request set-path path [if condition]`. -/
  | setPath {path : Str} {clause : List Str} {requestPath : DynamicFunctionProcessor}
      {condition : Option ConditionProcessor} :
      isRequest = true → Operand E isRequest path requestPath →
      Clause declared (.ofSide isRequest) clause condition →
      OperationLine E declared isRequest
        (sideKeyword isRequest :: operationSetPath :: path :: clause)
        (.setPath ⟨.ofSide isRequest, requestPath, condition⟩)
  /-- The line `side set-metadata key value [if condition]`. -/
  | setMetadata {key value : Str} {clause : List Str}
      {metadataKey metadataValue : DynamicFunctionProcessor}
      {condition : Option ConditionProcessor} :
      Operand E isRequest key metadataKey → Operand E isRequest value metadataValue →
      Clause declared (.ofSide isRequest) clause condition →
      OperationLine E declared isRequest
        (sideKeyword isRequest :: operationSetDynMetadata :: key :: value :: clause)
        (.setDynamicMetadata ⟨.ofSide isRequest, metadataKey, metadataValue, condition⟩)

/-- The lines `side set-bool name source -m type [comparison]` that define a boolean variable of a
side, with the name and the definition. -/
inductive DefinitionLine (E : Envoy M I) (isRequest : Bool) :
    List Str → Str → SetBoolProcessor → Prop
  | setBool {name source matchType : Str} {comparison : List Str}
      {sourceProcessor stringToCompare : DynamicFunctionProcessor} :
      Operand E isRequest source sourceProcessor →
      SetBoolProcessor.Comparison E (.ofSide isRequest) (stringToMatchType matchType) comparison
        stringToCompare →
      DefinitionLine E isRequest
        (sideKeyword isRequest :: operationSetBool :: name :: source :: "-m".toList :: matchType ::
          comparison)
        name ⟨.ofSide isRequest, stringToMatchType matchType, sourceProcessor, stringToCompare⟩

/-- The line of an operation begins with its side and with a keyword other than `set-bool`. -/
theorem OperationLine.exists_eq {E : Envoy M I} {declared : Str → Bool} {isRequest : Bool}
    {tokens : List Str} {p : HeaderProcessor} (h : OperationLine E declared isRequest tokens p) :
    ∃ op rest, tokens = sideKeyword isRequest :: op :: rest ∧
      stringToOperationType op ≠ .setBool := by
  cases h <;> exact ⟨_, _, rfl, by decide⟩

/-- An operation stays one if more variables are declared. -/
theorem OperationLine.mono {E : Envoy M I} {declared declared' : Str → Bool} {isRequest : Bool}
    {tokens : List Str} {p : HeaderProcessor} (h : OperationLine E declared isRequest tokens p)
    (hmono : ∀ name, declared name = true → declared' name = true) :
    OperationLine E declared' isRequest tokens p := by
  cases h with
  | setHeader hkey hvalue hclause => exact .setHeader hkey hvalue (hclause.mono hmono)
  | appendHeader hkey hne hvalues hparsed hclause =>
    exact .appendHeader hkey hne hvalues hparsed (hclause.mono hmono)
  | setPath hrequest hpath hclause => exact .setPath hrequest hpath (hclause.mono hmono)
  | setMetadata hkey hvalue hclause => exact .setMetadata hkey hvalue (hclause.mono hmono)

/-- Accepted operands are well formed and belong to their side. -/
theorem Operand.wellFormed {E : Envoy M I} {isRequest : Bool} {token : Str}
    {f : DynamicFunctionProcessor} (h : Operand E isRequest token f) :
    f.WellFormed E ∧ f.toProcessor = .ofSide isRequest :=
  ⟨DynamicFunctionProcessor.wellFormed_of_parseOperation h,
    DynamicFunctionProcessor.toProcessor_of_parseOperation h⟩

/-- The operands of an operation are well formed and belong to its side. -/
theorem OperationLine.operand {E : Envoy M I} {declared : Str → Bool} {isRequest : Bool}
    {tokens : List Str} {p : HeaderProcessor} (h : OperationLine E declared isRequest tokens p) :
    ∀ d ∈ p.operands, d.WellFormed E ∧ d.toProcessor = .ofSide isRequest := by
  cases h with
  | setHeader hkey hvalue hclause =>
    simpa [HeaderProcessor.operands] using ⟨hkey.wellFormed, hvalue.wellFormed⟩
  | appendHeader hkey hne hvalues hparsed hclause =>
    simp only [HeaderProcessor.operands, List.mem_cons, forall_eq_or_imp]
    refine ⟨hkey.wellFormed, ?_⟩
    clear hne hvalues
    induction hparsed with
    | nil => simp
    | cons hval _ ih => simpa using ⟨Operand.wellFormed hval, ih⟩
  | setPath hrequest hpath hclause => simpa [HeaderProcessor.operands] using hpath.wellFormed
  | setMetadata hkey hvalue hclause =>
    simpa [HeaderProcessor.operands] using ⟨hkey.wellFormed, hvalue.wellFormed⟩

/-- The condition of an operation is well formed, belongs to the operation's side and is spelled out
at the end of the line. -/
theorem OperationLine.condition {E : Envoy M I} {declared : Str → Bool} {isRequest : Bool}
    {tokens : List Str} {p : HeaderProcessor} (h : OperationLine E declared isRequest tokens p)
    {c : ConditionProcessor} (hc : p.conditionProcessor = some c) :
    c.toProcessor = .ofSide isRequest ∧ c.WellFormed declared ∧ ∃ front,
      tokens = front ++ ifKeyword :: ConditionProcessor.conditionTokens c.operators c.operands := by
  -- the four kinds of operation end in the same clause
  have hclause : ∀ {clause : List Str} {condition : Option ConditionProcessor},
      Clause declared (.ofSide isRequest) clause condition → condition = some c →
      c.toProcessor = .ofSide isRequest ∧ c.WellFormed declared ∧
        clause = ifKeyword :: ConditionProcessor.conditionTokens c.operators c.operands := by
    rintro _ _ (_ | hp) hcondition
    · cases hcondition
    · obtain rfl := Option.some.inj hcondition
      obtain ⟨hprocessor, hwf, rfl⟩ := ConditionProcessor.parseOperation_eq_accepted_iff.mp hp
      exact ⟨hprocessor, hwf, rfl⟩
  cases h with
  | setHeader _ _ h =>
    obtain ⟨hprocessor, hwf, rfl⟩ := hclause h hc
    exact ⟨hprocessor, hwf, [_, _, _, _], rfl⟩
  | appendHeader _ _ _ _ h =>
    obtain ⟨hprocessor, hwf, rfl⟩ := hclause h hc
    exact ⟨hprocessor, hwf, _, rfl⟩
  | setPath _ _ h =>
    obtain ⟨hprocessor, hwf, rfl⟩ := hclause h hc
    exact ⟨hprocessor, hwf, [_, _, _], rfl⟩
  | setMetadata _ _ h =>
    obtain ⟨hprocessor, hwf, rfl⟩ := hclause h hc
    exact ⟨hprocessor, hwf, [_, _, _, _], rfl⟩

/-- The operands of a variable are well formed and belong to its side. -/
theorem DefinitionLine.operand {E : Envoy M I} {isRequest : Bool} {tokens : List Str} {name : Str}
    {p : SetBoolProcessor} (h : DefinitionLine E isRequest tokens name p) :
    ∀ d ∈ p.operands, d.WellFormed E ∧ d.toProcessor = .ofSide isRequest := by
  obtain ⟨hsource, hcomparison⟩ := h
  have hstring : ∀ {matchType comparison f},
      SetBoolProcessor.Comparison E (.ofSide isRequest) matchType comparison f →
      f.WellFormed E ∧ f.toProcessor = .ofSide isRequest := by
    rintro _ _ _ (_ | ⟨_, h⟩)
    · exact ⟨trivial, rfl⟩
    · exact Operand.wellFormed h
  simpa [SetBoolProcessor.operands] using ⟨hsource.wellFormed, hstring hcomparison⟩

/-- A definition begins with its side, `set-bool` and the name. -/
theorem DefinitionLine.exists_eq {E : Envoy M I} {isRequest : Bool} {tokens : List Str}
    {name : Str} {p : SetBoolProcessor} (h : DefinitionLine E isRequest tokens name p) :
    ∃ rest, tokens = sideKeyword isRequest :: operationSetBool :: name :: rest := by
  cases h
  exact ⟨_, rfl⟩

theorem DefinitionLine.parseOperation_eq {E : Envoy M I} {isRequest : Bool} {tokens : List Str}
    {name : Str} {p : SetBoolProcessor} (h : DefinitionLine E isRequest tokens name p) :
    SetBoolProcessor.parseOperation E (.ofSide isRequest) tokens 2 = .accepted p := by
  obtain ⟨hsource, hcomparison⟩ := h
  exact SetBoolProcessor.parseOperation_eq_accepted_iff.mpr
    ⟨_, _, _, _, rfl, hsource, hcomparison, rfl, rfl⟩

namespace HttpHeaderRewriteFilter

/-- The filter with another boolean variable. -/
def declare (f : HttpHeaderRewriteFilter) (isRequest : Bool) (name : Str) (p : SetBoolProcessor) :
    HttpHeaderRewriteFilter :=
  if isRequest then
    { f with requestSetBoolProcessors := (name, p) :: f.requestSetBoolProcessors }
  else
    { f with responseSetBoolProcessors := (name, p) :: f.responseSetBoolProcessors }

/-- The boolean variables of a side. -/
def sideSetBools (f : HttpHeaderRewriteFilter) (isRequest : Bool) : SetBoolProcessorMap :=
  f.setBoolProcessors (Processor.ofSide isRequest).boolProcessors

/-- The names declared on each side. -/
def scope (f : HttpHeaderRewriteFilter) (isRequest : Bool) (name : Str) : Bool :=
  ((f.sideSetBools isRequest).lookup name).isSome

section Tokens

variable {E : Envoy M I} {f : HttpHeaderRewriteFilter} {isRequest : Bool}

theorem processSetBool_eq (op name : Str) (rest : List Str) :
    processSetBool E f (.ofSide isRequest) (sideKeyword isRequest :: op :: name :: rest) = (do
      let p ← Parse.mapRejection Status.message (SetBoolProcessor.parseOperation E
        (.ofSide isRequest) (sideKeyword isRequest :: op :: name :: rest) 2)
      if (f.sideSetBools isRequest).lookup name = none then
        return f.declare isRequest name p
      else
        Parse.rejected "redefinition of boolean variable") := by
  have hoffset : offset (sideKeyword isRequest :: op :: name :: rest) 0 2 = .returned 2 :=
    offset_of_le (by simp)
  unfold processSetBool
  simp only [vectorAt_cons_succ, vectorAt_cons_zero, hoffset, Parse.liftM_returned,
    Parse.bind_accepted]
  refine bind_congr (m := Parse Str) fun p => ?_
  -- the two sides differ only in the map that they look up and extend
  cases isRequest with
  | true =>
    by_cases hname : f.requestSetBoolProcessors.lookup name = none <;>
      simp [Processor.ofSide, sideSetBools, setBoolProcessors, declare, hname,
        -String.reduceToList]
  | false =>
    by_cases hname : f.responseSetBoolProcessors.lookup name = none <;>
      simp [Processor.ofSide, sideSetBools, setBoolProcessors, declare, hname,
        -String.reduceToList]

/-- A line of a side with a second token. -/
theorem processTokens_eq (op : Str) (rest : List Str) :
    processTokens E f (sideKeyword isRequest :: op :: rest) =
      if stringToOperationType op = .setBool then
        processSetBool E f (.ofSide isRequest) (sideKeyword isRequest :: op :: rest)
      else
        f.pushProcessor isRequest <$> parseProcessor E (f.scope isRequest) (.ofSide isRequest)
          (stringToOperationType op) (sideKeyword isRequest :: op :: rest) := by
  have hlength : ¬ rest.length + 1 + 1 < 2 := by omega
  have hrequest : decide (sideKeyword isRequest = httpRequest) = isRequest := by
    cases isRequest <;> decide
  have hside : ¬ (sideKeyword isRequest ≠ httpRequest ∧ sideKeyword isRequest ≠ httpResponse) := by
    cases isRequest <;> decide
  unfold processTokens
  simp only [minNumArguments, List.length_cons, hlength, if_false, vectorAt_cons_succ,
    vectorAt_cons_zero, Parse.liftM_returned, Parse.bind_accepted, if_neg hside, hrequest]
  rfl

/-- A line of neither side, or without a second token, is rejected. -/
theorem processTokens_cases (tokens : List Str) :
    (∃ isRequest op rest, tokens = sideKeyword isRequest :: op :: rest) ∨
      ∃ message, processTokens E f tokens = .rejected message := by
  match tokens with
  | [] => exact Or.inr ⟨_, rfl⟩
  | [_] => exact Or.inr ⟨_, rfl⟩
  | side :: op :: rest =>
    by_cases hrequest : side = httpRequest
    · exact Or.inl ⟨true, op, rest, by rw [hrequest]; rfl⟩
    by_cases hresponse : side = httpResponse
    · exact Or.inl ⟨false, op, rest, by rw [hresponse]; rfl⟩
    -- the third check of the constructor: the first token is neither keyword
    have hlength : ¬ rest.length + 1 + 1 < 2 := by omega
    refine Or.inr ⟨"first argument must be <http-response/http-request>", ?_⟩
    unfold processTokens
    simp only [minNumArguments, List.length_cons, hlength, if_false, vectorAt_cons_zero,
      Parse.liftM_returned, Parse.bind_accepted, ne_eq, hrequest, hresponse, not_false_eq_true,
      and_self, if_true, Parse.bind_rejected]

/-- A second token read as an operation is the keyword of that operation. -/
theorem eq_operationKeyword {op : Str} {type : OperationType}
    (h : stringToOperationType op = type) (hvalid : type ≠ .invalidOperation) :
    op = operationKeyword type := by
  unfold stringToOperationType at h
  split_ifs at h with h₁ h₂ h₃ h₄ h₅
  · rw [h₁, ← h, operationKeyword]
  · rw [h₂, ← h, operationKeyword]
  · rw [h₃, ← h, operationKeyword]
  · rw [h₄, ← h, operationKeyword]
  · rw [h₅, ← h, operationKeyword]
  · exact (hvalid h.symm).elim

theorem offset_line (side op : Str) (rest : List Str) :
    offset (side :: op :: rest) 0 2 = .returned 2 :=
  offset_of_le (by simp)

/-- A line is parsed as an operation exactly if it has the form of one. -/
theorem parseProcessor_eq_accepted_iff {declared : Str → Bool} {op : Str} {rest : List Str}
    {p : HeaderProcessor} :
    parseProcessor E declared (.ofSide isRequest) (stringToOperationType op)
        (sideKeyword isRequest :: op :: rest) = .accepted p ↔
      OperationLine E declared isRequest (sideKeyword isRequest :: op :: rest) p := by
  constructor
  · intro h
    simp only [parseProcessor, offset_line, Parse.liftM_returned, Parse.bind_accepted] at h
    -- the keyword is what the type was read from, in each of the cases
    have hop := @eq_operationKeyword op
    generalize stringToOperationType op = type at h hop
    cases type with
    | setHeader =>
      obtain rfl := hop rfl nofun
      rw [SetHeaderProcessor.parseOperation_eq] at h
      obtain ⟨q, hq, rfl⟩ := Parse.map_eq_accepted.mp h
      obtain ⟨key, value, clause, _, _, _, rfl, hkey, hvalue, hclause, rfl⟩ :=
        parseKeyValue_eq_accepted_iff.mp (Parse.mapRejection_eq_accepted.mp hq)
      exact .setHeader hkey hvalue hclause
    | appendHeader =>
      obtain rfl := hop rfl nofun
      obtain ⟨⟨_, headerKey, headerVals, condition⟩, hq, rfl⟩ := Parse.map_eq_accepted.mp h
      obtain ⟨key, values, clause, rfl, hne, hvalues, hkey, hparsed, hclause, rfl⟩ :=
        AppendHeaderProcessor.parseOperation_eq_accepted_iff.mp
          (Parse.mapRejection_eq_accepted.mp hq)
      exact .appendHeader hkey hne hvalues hparsed hclause
    | setPath =>
      obtain rfl := hop rfl nofun
      dsimp only at h
      split at h
      -- on the response side the parser rejects `set-path` before it reads any argument
      · cases h
      · next hrequest =>
        obtain ⟨⟨_, requestPath, condition⟩, hq, rfl⟩ := Parse.map_eq_accepted.mp h
        obtain ⟨path, clause, rfl, hpath, hclause, rfl⟩ :=
          SetPathProcessor.parseOperation_eq_accepted_iff.mp
            (Parse.mapRejection_eq_accepted.mp hq)
        exact .setPath (by simpa using hrequest) hpath hclause
    | setDynMetadata =>
      obtain rfl := hop rfl nofun
      rw [SetDynamicMetadataProcessor.parseOperation_eq] at h
      obtain ⟨q, hq, rfl⟩ := Parse.map_eq_accepted.mp h
      obtain ⟨key, value, clause, _, _, _, rfl, hkey, hvalue, hclause, rfl⟩ :=
        parseKeyValue_eq_accepted_iff.mp (Parse.mapRejection_eq_accepted.mp hq)
      exact .setMetadata hkey hvalue hclause
    | setBool => cases h
    | invalidOperation => cases h
  · intro h
    -- an operation that is accepted goes through the wrappers of the parser unchanged
    have hparse : ∀ {α : Type} {x : Parse Status α} {q : α} {g : α → HeaderProcessor},
        x = .accepted q → g <$> Parse.mapRejection Status.message x = .accepted (g q) := by
      rintro α x q g rfl
      rfl
    simp only [parseProcessor, offset_line, Parse.liftM_returned, Parse.bind_accepted]
    cases h with
    | setHeader hkey hvalue hclause =>
      rw [SetHeaderProcessor.parseOperation_eq]
      exact hparse (parseKeyValue_eq_accepted_iff.mpr
        ⟨_, _, _, _, _, _, rfl, hkey, hvalue, hclause, rfl⟩)
    | appendHeader hkey hne hvalues hparsed hclause =>
      exact hparse (AppendHeaderProcessor.parseOperation_eq_accepted_iff.mpr
        ⟨_, _, _, rfl, hne, hvalues, hkey, hparsed, hclause, rfl⟩)
    | setPath hrequest hpath hclause =>
      subst hrequest
      exact hparse (SetPathProcessor.parseOperation_eq_accepted_iff.mpr
        ⟨_, _, rfl, hpath, hclause, rfl⟩)
    | setMetadata hkey hvalue hclause =>
      rw [SetDynamicMetadataProcessor.parseOperation_eq]
      exact hparse (parseKeyValue_eq_accepted_iff.mpr
        ⟨_, _, _, _, _, _, rfl, hkey, hvalue, hclause, rfl⟩)

/-- A line of a side other than `set-bool` is accepted or rejected. -/
theorem parseProcessor_settles (declared : Str → Bool) (type : OperationType) (op : Str)
    (rest : List Str) :
    (parseProcessor E declared (.ofSide isRequest) type
      (sideKeyword isRequest :: op :: rest)).Settles := by
  simp only [parseProcessor, offset_line, Parse.liftM_returned, Parse.bind_accepted]
  cases type with
  | setHeader =>
    rw [SetHeaderProcessor.parseOperation_eq]
    exact ((parseKeyValue_settles _).mapRejection _).map _
  | appendHeader =>
    exact ((AppendHeaderProcessor.parseOperation_settles _ _ _).mapRejection _).map _
  | setPath =>
    dsimp only
    split
    · trivial
    · exact ((SetPathProcessor.parseOperation_settles _ _ _).mapRejection _).map _
  | setDynMetadata =>
    rw [SetDynamicMetadataProcessor.parseOperation_eq]
    exact ((parseKeyValue_settles _).mapRejection _).map _
  | setBool => trivial
  | invalidOperation => trivial

/-- A line is accepted as a definition exactly if it has the form of one and the name is new. -/
theorem processSetBool_eq_accepted_iff {rest : List Str} {f' : HttpHeaderRewriteFilter} :
    processSetBool E f (.ofSide isRequest) (sideKeyword isRequest :: operationSetBool :: rest) =
        .accepted f' ↔
      ∃ name p, DefinitionLine E isRequest (sideKeyword isRequest :: operationSetBool :: rest)
        name p ∧ f.scope isRequest name = false ∧ f' = f.declare isRequest name p := by
  match rest with
  | [] =>
    refine iff_of_false nofun ?_
    rintro ⟨_, _, hdefinition, -⟩
    cases hdefinition
  | name :: rest =>
    have hscope : f.scope isRequest name = false ↔
        (f.sideSetBools isRequest).lookup name = none := by
      rw [scope, Option.isSome_eq_false_iff, Option.isNone_iff_eq_none]
    rw [processSetBool_eq]
    constructor
    · intro h
      obtain ⟨⟨_, matchType, source, stringToCompare⟩, hp, hdeclare⟩ := Parse.bind_eq_accepted.mp h
      split at hdeclare
      · next hname =>
        obtain rfl := Parse.accepted.inj hdeclare
        obtain ⟨_, _, _, _, hrest, hsource, hcomparison, rfl, rfl⟩ :=
          SetBoolProcessor.parseOperation_eq_accepted_iff.mp (Parse.mapRejection_eq_accepted.mp hp)
        -- the name read at position 2 is the one the parser skipped
        obtain ⟨rfl, rfl⟩ := List.cons.inj hrest
        exact ⟨name, _, .setBool hsource hcomparison, hscope.mpr hname, rfl⟩
      · cases hdeclare
    · rintro ⟨_, p, hdefinition, hname, rfl⟩
      obtain ⟨_, htokens⟩ := hdefinition.exists_eq
      obtain rfl := (List.cons.inj (List.cons.inj (List.cons.inj htokens).2).2).1
      rw [hdefinition.parseOperation_eq]
      simp only [Parse.mapRejection, Parse.bind_accepted, if_pos (hscope.mp hname), Parse.pure_eq]

/-- The constructor accepts a line exactly if it is an operation, or the definition of a new
variable. -/
theorem processTokens_eq_accepted_iff {tokens : List Str} {f' : HttpHeaderRewriteFilter} :
    processTokens E f tokens = .accepted f' ↔
      ∃ isRequest,
        (∃ p, OperationLine E (f.scope isRequest) isRequest tokens p ∧
          f' = f.pushProcessor isRequest p) ∨
        ∃ name p, DefinitionLine E isRequest tokens name p ∧ f.scope isRequest name = false ∧
          f' = f.declare isRequest name p := by
  constructor
  · intro h
    rcases processTokens_cases tokens with ⟨isRequest, op, rest, rfl⟩ | ⟨message, hrejected⟩
    · rw [processTokens_eq] at h
      refine ⟨isRequest, ?_⟩
      split at h
      · next hop =>
        obtain rfl := eq_operationKeyword hop nofun
        exact Or.inr (processSetBool_eq_accepted_iff.mp h)
      · obtain ⟨p, hp, rfl⟩ := Parse.map_eq_accepted.mp h
        exact Or.inl ⟨p, parseProcessor_eq_accepted_iff.mp hp, rfl⟩
    · rw [hrejected] at h
      cases h
  · rintro ⟨isRequest, ⟨p, hp, rfl⟩ | hdefinition⟩
    · obtain ⟨op, rest, rfl, hop⟩ := hp.exists_eq
      rw [processTokens_eq, if_neg hop, parseProcessor_eq_accepted_iff.mpr hp, Parse.map_accepted]
    · obtain ⟨name, p, ⟨hsource, hcomparison⟩, hname, rfl⟩ := hdefinition
      rw [processTokens_eq, if_pos stringToOperationType_setBool]
      exact processSetBool_eq_accepted_iff.mpr
        ⟨name, _, .setBool hsource hcomparison, hname, rfl⟩

/-- The operation was parsed from the tokens of a line of a side. -/
def Parsed (E : Envoy M I) (isRequest : Bool) (p : HeaderProcessor) : Prop :=
  ∃ declared op rest, parseProcessor E declared (.ofSide isRequest) (stringToOperationType op)
    (sideKeyword isRequest :: op :: rest) = .accepted p

/-- The operands of a parsed operation are well formed. -/
theorem Parsed.wellFormed {p : HeaderProcessor} (h : Parsed E isRequest p) :
    ∀ d ∈ p.operands, d.WellFormed E := by
  obtain ⟨declared, op, rest, h⟩ := h
  exact fun d hd => ((parseProcessor_eq_accepted_iff.mp h).operand d hd).1

/-- On the two tokens `side set-bool` the constructor throws, reading a name that is not there. -/
theorem processTokens_bareSetBool :
    processTokens E f [sideKeyword isRequest, operationSetBool] =
      .threw ⟨.outOfRange, "vector::_M_range_check"⟩ := by
  rw [processTokens_eq, if_pos stringToOperationType_setBool]
  rfl

/-- Every other line is accepted or rejected. -/
theorem processTokens_settles {tokens : List Str}
    (h : ∀ isRequest, tokens ≠ [sideKeyword isRequest, operationSetBool]) :
    (processTokens E f tokens).Settles := by
  rcases processTokens_cases tokens with ⟨isRequest, op, rest, rfl⟩ | ⟨message, hrejected⟩
  · rw [processTokens_eq]
    split
    · next hop =>
      obtain rfl := eq_operationKeyword hop nofun
      match rest with
      -- the bare `side set-bool`, where reading the name throws, is excluded
      | [] => exact (h isRequest rfl).elim
      | name :: rest =>
        rw [processSetBool_eq]
        refine ((SetBoolProcessor.parseOperation_settles _ _ _).mapRejection _).bind fun _ _ => ?_
        split <;> trivial
    · exact (parseProcessor_settles _ _ _ _).map _
  · rw [hrejected]
    trivial

end Tokens

end HttpHeaderRewriteFilter

/-! ## A line stands for one thing -/

section Unique

variable {E : Envoy M I} {isRequest isRequest' : Bool} {tokens : List Str}

/-- A line stands for one operation, whatever variables are declared. -/
theorem OperationLine.unique {declared declared' : Str → Bool} {p p' : HeaderProcessor}
    (h : OperationLine E declared isRequest tokens p)
    (h' : OperationLine E declared' isRequest tokens p') : p = p' := by
  obtain ⟨op, rest, rfl, -⟩ := h.exists_eq
  -- with every variable declared both readings are results of the same parse
  have hall : OperationLine E (fun _ => true) isRequest _ p := h.mono fun _ _ => rfl
  have hall' : OperationLine E (fun _ => true) isRequest _ p' := h'.mono fun _ _ => rfl
  rw [← HttpHeaderRewriteFilter.parseProcessor_eq_accepted_iff] at hall hall'
  exact Parse.accepted.inj (hall.symm.trans hall')

/-- A line defines one variable of one side. -/
theorem DefinitionLine.unique {name name' : Str} {p p' : SetBoolProcessor}
    (h : DefinitionLine E isRequest tokens name p)
    (h' : DefinitionLine E isRequest' tokens name' p') :
    isRequest = isRequest' ∧ name = name' ∧ p = p' := by
  obtain ⟨rest, htokens⟩ := h.exists_eq
  obtain ⟨rest', htokens'⟩ := h'.exists_eq
  obtain ⟨hside, hname⟩ : sideKeyword isRequest = sideKeyword isRequest' ∧ name = name' := by
    have hcons := htokens.symm.trans htokens'
    simp only [List.cons.injEq] at hcons
    exact ⟨hcons.1, hcons.2.2.1⟩
  obtain rfl := sideKeyword_injective hside
  exact ⟨rfl, hname, Parse.accepted.inj (h.parseOperation_eq.symm.trans h'.parseOperation_eq)⟩

/-- No line is both an operation and a definition. -/
theorem OperationLine.not_definitionLine {declared : Str → Bool} {p : HeaderProcessor}
    (h : OperationLine E declared isRequest tokens p) (name : Str) (q : SetBoolProcessor) :
    ¬ DefinitionLine E isRequest' tokens name q := by
  intro h'
  obtain ⟨op, rest, rfl, hop⟩ := h.exists_eq
  obtain ⟨rest', htokens⟩ := h'.exists_eq
  obtain ⟨-, htokens⟩ := List.cons.inj htokens
  obtain ⟨rfl, -⟩ := List.cons.inj htokens
  exact hop stringToOperationType_setBool

end Unique

end HeaderRewrite
