import HeaderRewrite.Envoy
import HeaderRewrite.Utility

/-!
# `DynamicFunctionProcessor`

An operand of an operation is a token: a string literal, or a call `%[f(a)]` of one of the
functions `hdr`, `urlp` and `metadata`. Parsing classifies the token and checks the number of the
call's arguments; executing reads the headers or the dynamic metadata.

## Main definitions

* `Processor`, `DynamicFunctionProcessor`: the base class and the operand;
* `DynamicFunctionProcessor.parseOperation`: parsing a token;
* `DynamicFunctionProcessor.executeOperation`: the value of an operand.
-/

namespace HeaderRewrite

open Cxx Utility

/-- A `shared_ptr` to one of the two maps of set-bool processors that the constructor makes. -/
inductive SetBoolProcessorMapSharedPtr
  | requestSetBoolProcessors
  | responseSetBoolProcessors
deriving DecidableEq, Repr

/-- The members that every processor has. -/
structure Processor where
  /-- The map of the boolean variables of the processor's side. -/
  boolProcessors : SetBoolProcessorMapSharedPtr
  /-- Whether the processor belongs to an `http-request` operation. -/
  isRequest : Bool
deriving DecidableEq, Repr

/-- A `RequestOrResponseHeaderMap&`: a header map, and which of the two classes it belongs to. -/
structure RequestOrResponseHeaderMap (M : Type) where
  /-- Whether the object is a `RequestHeaderMap`. -/
  isRequestHeaderMap : Bool
  /-- The header map itself. -/
  map : M
deriving DecidableEq, Repr

/-- A parsed operand. -/
structure DynamicFunctionProcessor extends Processor where
  /-- The function that is called, or `static` for a literal. -/
  functionType : FunctionType
  /-- The literal, or the text between the parentheses of the call. -/
  functionArgument : Str
deriving DecidableEq, Repr

namespace DynamicFunctionProcessor

/-! ## Parsing -/

/-- The text between the first `(` and the last `)`, which must be the last character. The two
positions go through unsigned arithmetic: `start + 1` is `0` where `start` is `npos`, and
`end - start - 1` wraps to more than any string holds where `end` comes before `start`. -/
def getFunctionArgument (functionExpression : Str) : Parse Status Str :=
  Parse.catchAs (fun _ => .unknown "failed to get function argument") do
    let start := findFirstOf functionExpression '('
    let last := findLastOf functionExpression ')'
    if last ≠ lastPosition functionExpression then
      Parse.rejected
        (.invalidArgument "failed to get function argument -- invalid dynamic function syntax")
    match start, last with
    | some start, some last =>
      substr functionExpression (start + 1)
        (if start < last then last - start - 1 else functionExpression.length)
    | some start, none => substr functionExpression (start + 1) functionExpression.length
    | none, some last => substr functionExpression 0 last
    | none, none => substr functionExpression 0 functionExpression.length

/-- The function named by the text before the first `(`. -/
def getFunctionType (functionExpression : Str) : Outcome FunctionType := do
  let last := findFirstOf functionExpression '('
  let dynamicFunction ← substr functionExpression 0 (last.getD functionExpression.length)
  return stringToFunctionType dynamicFunction

/-- The condition under which a token is taken for a string literal. -/
def isStringLiteral (functionExpression : Str) : Outcome Bool := do
  if functionExpression.length < dynFunctionMinLength then
    return true
  if (← substr functionExpression 0 2) ≠ (← substr dynamicFunctionDelimiter 0 2) then
    return (← substr functionExpression (functionExpression.length - 1) 1) ≠
      (← substr dynamicFunctionDelimiter 2 1)
  return false

/-- The check of the number of arguments of a call. -/
def validateArguments {M I : Type} (E : Envoy M I) (functionType : FunctionType)
    (functionArgument : Str) : Parse Status PUnit :=
  let arguments := E.splitToken functionArgument "," false true
  match functionType with
  | .getHdr =>
    if arguments.length < 1 ∨ arguments.length > 2 then
      .rejected (.invalidArgument
        ("wrong number of arguments to get header function, expected 1 or 2 but got ".toList ++
          Nat.toDigits 10 arguments.length))
    else .accepted ()
  | .urlp =>
    if arguments.length ≠ 1 then
      .rejected (.invalidArgument
        ("wrong number of arguments to urlp function, expected 1 but got ".toList ++
          Nat.toDigits 10 arguments.length))
    else .accepted ()
  | .getMetadata =>
    if arguments.length ≠ 1 then
      .rejected (.invalidArgument
        ("wrong number of arguments to get metadata function, expected 1 but got ".toList ++
          Nat.toDigits 10 arguments.length))
    else .accepted ()
  | _ => .rejected (.invalidArgument "invalid function type for dynamic value function")

/-- Parse a token into an operand. -/
def parseOperation {M I : Type} (E : Envoy M I) (processor : Processor)
    (functionExpression : Str) : Parse Status DynamicFunctionProcessor := do
  -- if FunctionType is static (string literal)
  if (← isStringLiteral functionExpression) then
    return { processor with functionType := .static, functionArgument := functionExpression }
  let call ← substr functionExpression 2
    (functionExpression.length - dynamicFunctionDelimiter.length)
  let functionType ← getFunctionType call
  if functionType = .invalidFunctionType then
    Parse.rejected (.invalidArgument "invalid function type for dynamic value")
  if functionType = .urlp ∧ ¬ processor.isRequest then
    Parse.rejected (.invalidArgument "cannot get url path parameter on response side")
  let functionArgument ← getFunctionArgument call
  validateArguments E functionType functionArgument
  return { processor with functionType, functionArgument }

/-! ## Execution -/

section Execution

variable {M I : Type} (E : Envoy M I)

/-- The value at a position among the comma-separated values of a header. -/
def getHeaderValue (headers : RequestOrResponseHeaderMap M) (key : Str) (position : ℤ) :
    Outcome (Status × Str) :=
  Outcome.catchAs
    (fun e => (.unknown ("failed to perform boolean match -- ".toList ++ e.what), [])) do
    let headerKey := E.lowerCaseString key
    match E.getAllOfHeaderAsString headers.map headerKey with
    | none => return (.ok, []) -- header does not exist
    | some values =>
      let headerVals := E.splitToken values "," false true
      let numHeaderVals := headerVals.length
      let position := if position < 0 then addSize position numHeaderVals else position
      -- validate position
      if position < 0 ∨ position ≥ toInt32 numHeaderVals then
        return (.outOfRange "invalid match syntax -- hdr position out of bounds", [])
      let headerVal ← vectorAt headerVals position.toNat
      return (.ok, headerVal)

/-- The string stored under a key in the filter's dynamic metadata. -/
def getDynamicMetadata (streamInfo : Option I) (key : Str) : Outcome (Status × Str) :=
  Outcome.catchAs (fun e => (.unknown ("failed to fetch metadata -- ".toList ++ e.what), [])) do
    match streamInfo with
    | none => return (.notFound "Stream info is null", [])
    | some info =>
      let value := E.stringValue (E.metadataValue info headerRewriteFilterName [key, key])
      return (.ok, value)

/-- The value of a query parameter of the request path. `Path()` is null where there is no
`:path` entry, and is dereferenced all the same. -/
def getUrlp (headers : RequestOrResponseHeaderMap M) (param : Str) : Outcome (Status × Str) :=
  Outcome.catchAs
    (fun e => (.unknown ("failed to perform boolean match".toList ++ e.what), [])) do
    if ¬ headers.isRequestHeaderMap then
      return (.invalidArgument "cannot call urlp function on response side", [])
    match E.pathEntry headers.map with
    | none => .undefined .nullDereference
    | some path =>
      match (E.parseQueryString path).lookup param with
      | none => return (.ok, []) -- query param doesn't exist
      | some value => return (.ok, value)

/-- The value of an operand in the current headers and metadata, with a status. -/
def executeOperation (p : DynamicFunctionProcessor) (headers : RequestOrResponseHeaderMap M)
    (streamInfo : Option I) : Outcome (Status × Str) :=
  let arguments := E.splitToken p.functionArgument "," false true
  match p.functionType with
  | .getHdr => do
    -- get last value if position not specified
    let position ← if arguments.length = 1 then pure (-1) else do stoi (← vectorAt arguments 1)
    let headerKey ← vectorAt arguments 0
    getHeaderValue E headers headerKey position
  | .urlp => do
    getUrlp E headers (← vectorAt arguments 0)
  | .getMetadata => getDynamicMetadata E streamInfo p.functionArgument
  | .static => return (.ok, p.functionArgument)
  | .invalidFunctionType =>
    return (.unknown "failed to execute dynamic function -- invalid function type", [])

end Execution

end DynamicFunctionProcessor

end HeaderRewrite
