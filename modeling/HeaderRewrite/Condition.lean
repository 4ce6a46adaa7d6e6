import HeaderRewrite.SetBool

/-!
# `ConditionProcessor`

A condition is stored as the list of its binary operators and the list of its operands, each a
variable name with a negation flag. It is evaluated by splitting both lists at the first `or`,
and from left to right where only `and` is left.

A pair of iterators is the list of the elements between them. Moving an iterator out of its own
pair's range is undefined here even where it would stay inside the vector.

## Main definitions

* `ConditionProcessor`, `ConditionProcessor.parseOperation`;
* `ConditionProcessor.executeOperation`, with its recursive part
  `ConditionProcessor.executeOperationRecursively` and its linear part
  `ConditionProcessor.executeOperationLinearly`.
-/

namespace HeaderRewrite

open Cxx Utility

/-- A map from the names of boolean variables to their processors. -/
abbrev SetBoolProcessorMap := List (Str × SetBoolProcessor)

/-- What the pointers to the two maps point to. -/
abbrev SetBoolProcessorMaps := SetBoolProcessorMapSharedPtr → SetBoolProcessorMap

/-- `map.at(name)`: it throws if there is no such variable. -/
def SetBoolProcessorMap.at (map : SetBoolProcessorMap) (name : Str) : Outcome SetBoolProcessor :=
  match map.lookup name with
  | some p => .returned p
  | none => .threw ⟨.outOfRange, "unordered_map::at"⟩

/-- A parsed condition. -/
structure ConditionProcessor extends Processor where
  /-- The binary operators, in order. -/
  operators : List BooleanOperatorType
  /-- The operands, in order, and whether each is negated. -/
  operands : List (Str × Bool)
deriving DecidableEq, Repr

namespace ConditionProcessor

/-! ## Parsing -/

section Parsing

variable (declared : Str → Bool) (operationExpression : List Str) (start : Nat)

/-- The rejection of a condition that refers to an unknown variable. -/
def undeclaredVariable (operand : Str) : Status :=
  .invalidArgument
    ("boolean variable \"".toList ++ operand ++ "\" in conditional does not exist".toList)

/-- The loop over the tokens of the condition, at `it`. The fuel bounds the number of tokens that
are left. -/
def parseTokens : Nat → Nat → List BooleanOperatorType → List (Str × Bool) →
    Parse Status (List BooleanOperatorType × List (Str × Bool))
  | 0, _, _, _ => .undefined .noProgress
  | fuel + 1, it, operators, operands => do
    if it = operationExpression.length then
      return (operators, operands)
    let operatorType := stringToBooleanOperatorType (← deref operationExpression it)
    -- condition can't have two binary operators in a row
    if it ≠ start then
      let prevOperatorType :=
        stringToBooleanOperatorType (← deref operationExpression (it - 1))
      if isBinaryOperator operatorType ∧ isBinaryOperator prevOperatorType then
        Parse.rejected (.invalidArgument
          "invalid condition -- cannot have two binary operators in a row")
    -- condition can't end with an operator
    if (← offset operationExpression it 1) = operationExpression.length ∧
        isOperator operatorType then
      Parse.rejected (.invalidArgument
        "invalid condition -- cannot have an operator at the end of the condition")
    -- parse operation type
    if isBinaryOperator operatorType then
      parseTokens fuel (← offset operationExpression it 1) (operators ++ [operatorType]) operands
    else if operatorType = .not then
      if (← offset operationExpression it 1) = operationExpression.length then
        Parse.rejected (.invalidArgument "invalid condition -- must have operand after 'not'")
      else if isOperator (stringToBooleanOperatorType
          (← deref operationExpression (← offset operationExpression it 1))) then
        Parse.rejected (.invalidArgument
          "invalid condition -- can't have an operator after 'not'")
      -- make sure that all the boolean variables being referenced exist in the map
      let operand ← deref operationExpression (← offset operationExpression it 1)
      if ¬ declared operand then
        Parse.rejected (undeclaredVariable operand)
      parseTokens fuel (← offset operationExpression it 2) operators (operands ++ [(operand, true)])
    else
      let operand ← deref operationExpression it
      if ¬ declared operand then
        Parse.rejected (undeclaredVariable operand)
      parseTokens fuel (← offset operationExpression it 1) operators
        (operands ++ [(operand, false)])

/-- `operators_.size() == operands_.size() - 1`, where the difference wraps if there are no
operands. -/
def sizesMatch (operators : List BooleanOperatorType) (operands : List (Str × Bool)) : Prop :=
  operands ≠ [] ∧ operators.length = operands.length - 1

instance (operators : List BooleanOperatorType) (operands : List (Str × Bool)) :
    Decidable (sizesMatch operators operands) := by
  unfold sizesMatch
  infer_instance

/-- Parse the tokens from `start` on. `declared` tells which variables are in the map. -/
def parseOperation (processor : Processor) : Parse Status ConditionProcessor := do
  if start = operationExpression.length then
    Parse.threw unexpectedEnd
  let startType := stringToBooleanOperatorType (← deref operationExpression start)
  if operationExpression.length < 1 then
    Parse.rejected (.invalidArgument "empty condition provided to condition processor")
  -- conditional can't start with a binary operator
  if isBinaryOperator startType then
    Parse.rejected (.invalidArgument
      "invalid condition -- condition must begin with 'not' or an operand")
  let (operators, operands) ← parseTokens declared operationExpression start
    (operationExpression.length - start + 1) start [] []
  -- validate number of operands and operators
  if sizesMatch operators operands then
    return { processor with operators, operands }
  else
    Parse.rejected (.invalidArgument "invalid condition")

end Parsing

/-! ## Execution -/

section Execution

variable {M I : Type} (eval : Evaluator M I) (map : SetBoolProcessorMap)
  (headers : RequestOrResponseHeaderMap M) (streamInfo : Option I)

/-- Look up the variable of an operand and evaluate it. -/
def executeOperand (operand : Str × Bool) : Outcome (Status × Bool) := do
  let boolProcessor ← map.at operand.1
  boolProcessor.executeOperation eval headers streamInfo operand.2

/-- The loop of the linear evaluation, which goes on while operators and operands are left. -/
def executeRest (result : Bool) :
    List BooleanOperatorType → List (Str × Bool) → Outcome (Status × Bool)
  | operator :: operators, operand :: operands => do
    let (status, boolVar) ← executeOperand eval map headers streamInfo operand
    if status ≠ .ok then
      return (status, false)
    executeRest (evaluateExpression result operator boolVar) operators operands
  | _, _ => return (.ok, result)

/-- Evaluate the operands from left to right. -/
def executeOperationLinearly (operators : List BooleanOperatorType)
    (operands : List (Str × Bool)) : Outcome (Status × Bool) :=
  Outcome.catchAs
    (fun e => (.unknown ("failed to process condition -- ".toList ++ e.what), false)) do
    let (status, boolVar) ← executeOperand eval map headers streamInfo (← deref operands 0)
    if status ≠ .ok then
      return (status, false)
    if operands.length = 1 then
      return (.ok, boolVar)
    executeRest eval map headers streamInfo boolVar operators (operands.drop 1)

/-- Evaluate both sides of the first `or`, or all of a condition without one. The fuel bounds the
number of operators. -/
def executeOperationRecursively :
    Nat → List BooleanOperatorType → List (Str × Bool) → Outcome (Status × Bool)
  | 0, _, _ => .undefined .noProgress
  | fuel + 1, operators, operands =>
    match operators.findIdx? isOR with
    | none => executeOperationLinearly eval map headers streamInfo operators operands
    | some distance => do
      let split ← offset operands 0 (distance + 1)
      let (leftStatus, leftBooleanValue) ← executeOperationRecursively fuel
        (operators.take distance) (operands.take split)
      let (rightStatus, rightBooleanValue) ← executeOperationRecursively fuel
        (operators.drop (distance + 1)) (operands.drop split)
      if leftStatus ≠ .ok then
        return (leftStatus, leftBooleanValue)
      if rightStatus ≠ .ok then
        return (rightStatus, rightBooleanValue)
      return (.ok, leftBooleanValue || rightBooleanValue)

end Execution

/-- Evaluate a condition. -/
def executeOperation {M I : Type} (eval : Evaluator M I) (maps : SetBoolProcessorMaps)
    (p : ConditionProcessor) (headers : RequestOrResponseHeaderMap M) (streamInfo : Option I) :
    Outcome (Status × Bool) :=
  executeOperationRecursively eval (maps p.boolProcessors) headers streamInfo
    (p.operators.length + 1) p.operators p.operands

end ConditionProcessor

end HeaderRewrite
