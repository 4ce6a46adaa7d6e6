import HeaderRewrite.DynamicFunction

/-!
# `SetBoolProcessor`

A boolean variable compares the values of two operands. It is evaluated each time a condition
refers to it.

Executing an operand is a parameter of everything that executes operands: an `Evaluator`. The
filter instantiates it with `DynamicFunctionProcessor.executeOperation`.

## Main definitions

* `Evaluator`: what executes operands;
* `SetBoolProcessor`, `SetBoolProcessor.parseOperation`, `SetBoolProcessor.executeOperation`.
-/

namespace HeaderRewrite

open Cxx Utility

/-- What executes an operand on a header map and a stream info. -/
abbrev Evaluator (M I : Type) :=
  DynamicFunctionProcessor → RequestOrResponseHeaderMap M → Option I → Outcome (Status × Str)

/-- The exception thrown where an expression ends too early. -/
def unexpectedEnd : Exception := ⟨.outOfRange, "unexpected end of expression"⟩

/-- A parsed boolean variable. The `matcher_` of the source is one of four functions, which the
match type tells apart. -/
structure SetBoolProcessor extends Processor where
  /-- The match type that selects the matcher. -/
  matchType : MatchType
  /-- The left-hand side of the comparison. -/
  sourceProcessor : DynamicFunctionProcessor
  /-- The right-hand side of the comparison. -/
  stringToCompareFunctionProcessor : DynamicFunctionProcessor
deriving DecidableEq, Repr

namespace SetBoolProcessor

/-- The matcher of a match type. The prefix matcher searches the string to compare for as many
characters of the source as the string to compare has. -/
def matcher (matchType : MatchType) (source stringToCompare : Str) : Outcome Bool :=
  match matchType with
  | .exact => return source.length > 0 && source = stringToCompare
  | .prefixOf =>
    if source.length > 0 then do
      let position ← findChars stringToCompare source 0 stringToCompare.length
      return position = some 0
    else return false
  | .substr => return source.length > 0 && (find source stringToCompare 0).isSome
  | .found => return source.length > 0
  | .invalidMatchType => return false

/-- Parse the operand that the source is compared with. -/
def stringToCompareSetup {M I : Type} (E : Envoy M I) (processor : Processor)
    (stringToCompare : Str) : Parse Status DynamicFunctionProcessor :=
  DynamicFunctionProcessor.parseOperation E processor stringToCompare

/-- Parse `name source -m type [comparison]`, with `start` at the name. -/
def parseOperation {M I : Type} (E : Envoy M I) (processor : Processor)
    (operationExpression : List Str) (start : Nat) : Parse Status SetBoolProcessor :=
  Parse.catchAs
    (fun e => .unknown ("error parsing boolean expression -- ".toList ++ e.what)) do
    if operationExpression.length < setBoolMinNumArguments then
      Parse.rejected (.invalidArgument "not enough arguments for set-bool")
    if (← offset operationExpression start 2) = operationExpression.length then
      Parse.threw unexpectedEnd
    if (← deref operationExpression (← offset operationExpression start 2)) ≠ "-m" then
      Parse.rejected (.invalidArgument "invalid match syntax")
    let matchType := stringToMatchType
      (← deref operationExpression (← offset operationExpression start 3))
    if (← offset operationExpression start 3) = operationExpression.length then
      Parse.threw unexpectedEnd
    -- validate number of arguments
    if requiresArgument matchType then
      if operationExpression.length = setBoolMinNumArguments then
        Parse.rejected (.invalidArgument "missing argument for match type")
      if operationExpression.length > setBoolMinNumArguments + 1 then
        Parse.rejected (.invalidArgument "too many arguments for set bool")
    else if operationExpression.length > setBoolMinNumArguments then
      Parse.rejected (.invalidArgument "too many arguments for set bool")
    -- parse dynamic function
    if (← offset operationExpression start 1) = operationExpression.length then
      Parse.threw unexpectedEnd
    let sourceFunctionExpression ←
      deref operationExpression (← offset operationExpression start 1)
    let sourceProcessor ←
      DynamicFunctionProcessor.parseOperation E processor sourceFunctionExpression
    match matchType with
    | .exact | .prefixOf | .substr =>
      if (← offset operationExpression start 4) = operationExpression.length then
        Parse.threw unexpectedEnd
      let stringToCompare ← deref operationExpression (← offset operationExpression start 4)
      let comparison ← stringToCompareSetup E processor stringToCompare
      return ⟨processor, matchType, sourceProcessor, comparison⟩
    | .found =>
      -- empty string since this match case doesn't take another argument
      let comparison ← stringToCompareSetup E processor ""
      return ⟨processor, matchType, sourceProcessor, comparison⟩
    | .invalidMatchType => Parse.rejected (.invalidArgument "invalid match type")

/-- The value of a boolean variable, or of its negation, with a status. -/
def executeOperation {M I : Type} (eval : Evaluator M I) (p : SetBoolProcessor)
    (headers : RequestOrResponseHeaderMap M) (streamInfo : Option I) (negate : Bool) :
    Outcome (Status × Bool) := do
  let (sourceStatus, source) ← eval p.sourceProcessor headers streamInfo
  if sourceStatus ≠ .ok then
    return (sourceStatus, false)
  let (stringToCompareStatus, stringToCompare) ←
    eval p.stringToCompareFunctionProcessor headers streamInfo
  if stringToCompareStatus ≠ .ok then
    return (stringToCompareStatus, false)
  let boolResult ← matcher p.matchType source stringToCompare
  return (.ok, if negate then !boolResult else boolResult)

end SetBoolProcessor

end HeaderRewrite
