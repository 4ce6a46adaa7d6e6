import HeaderRewrite.Cxx.Text

/-!
# Keywords, enumerations and statuses

The constants, enumerations and conversions of `utility.h` and `utility.cc`, and `absl::Status`.
Each `StringTo` function compares a token with the keywords in the order of the source.
-/

namespace HeaderRewrite

open Cxx

/-! ## `absl::Status` -/

/-- The error codes that the filter uses. -/
inductive StatusCode
  | invalidArgument
  | notFound
  | outOfRange
  | unknown
deriving DecidableEq, Repr

/-- `absl::Status`: success, or an error code with a message. -/
inductive Status
  | ok
  | error (code : StatusCode) (message : Str)
deriving DecidableEq, Repr

namespace Status

/-- `absl::InvalidArgumentError(message)`. -/
def invalidArgument (message : Str) : Status := error .invalidArgument message

/-- `absl::NotFoundError(message)`. -/
def notFound (message : Str) : Status := error .notFound message

/-- `absl::OutOfRangeError(message)`. -/
def outOfRange (message : Str) : Status := error .outOfRange message

/-- `absl::UnknownError(message)`. -/
def unknown (message : Str) : Status := error .unknown message

/-- The message of a status, empty on success. -/
def message : Status → Str
  | ok => []
  | error _ text => text

@[simp] theorem invalidArgument_ne_ok (message : Str) : invalidArgument message ≠ ok := nofun

@[simp] theorem notFound_ne_ok (message : Str) : notFound message ≠ ok := nofun

@[simp] theorem outOfRange_ne_ok (message : Str) : outOfRange message ≠ ok := nofun

@[simp] theorem unknown_ne_ok (message : Str) : unknown message ≠ ok := nofun

end Status

namespace Utility

def headerRewriteFilterName : Str := "envoy.extensions.filters.http.HeaderRewrite"

def minNumArguments : Nat := 2
def setHeaderMinNumArguments : Nat := 4
def appendHeaderMinNumArguments : Nat := 4
def setDynMetadataMinNumArguments : Nat := 4
def setPathMinNumArguments : Nat := 3
def setBoolMinNumArguments : Nat := 6
def dynFunctionMinLength : Nat := 3

def dynamicFunctionDelimiter : Str := "%[]"

def operationSetHeader : Str := "set-header"
def operationAppendHeader : Str := "append-header"
def operationSetPath : Str := "set-path"
def operationSetBool : Str := "set-bool"
def operationSetDynMetadata : Str := "set-metadata"

def ifKeyword : Str := "if"

def httpRequest : Str := "http-request"
def httpResponse : Str := "http-response"

def matchTypeExact : Str := "str"
def matchTypePrefix : Str := "beg"
def matchTypeSubstr : Str := "sub"
def matchTypeFound : Str := "found"

def booleanAnd : Str := "and"
def booleanOr : Str := "or"
def booleanNot : Str := "not"

def dynamicValueHdr : Str := "hdr"
def dynamicValueUrlParam : Str := "urlp"
def dynamicValueMetadata : Str := "metadata"

inductive OperationType
  | setHeader
  | appendHeader
  | setPath
  | setBool
  | setDynMetadata
  | invalidOperation
deriving DecidableEq, Repr

inductive MatchType
  | exact
  | prefixOf
  | substr
  | found
  | invalidMatchType
deriving DecidableEq, Repr

inductive BooleanOperatorType
  | and
  | or
  | not
  | none
deriving DecidableEq, Repr

inductive FunctionType
  | getHdr
  | urlp
  | getMetadata
  | static
  | invalidFunctionType
deriving DecidableEq, Repr

def stringToOperationType (operation : Str) : OperationType :=
  if operation = operationSetHeader then .setHeader
  else if operation = operationAppendHeader then .appendHeader
  else if operation = operationSetPath then .setPath
  else if operation = operationSetBool then .setBool
  else if operation = operationSetDynMetadata then .setDynMetadata
  else .invalidOperation

def stringToMatchType (text : Str) : MatchType :=
  if text = matchTypeExact then .exact
  else if text = matchTypePrefix then .prefixOf
  else if text = matchTypeSubstr then .substr
  else if text = matchTypeFound then .found
  else .invalidMatchType

def stringToBooleanOperatorType (boolOperator : Str) : BooleanOperatorType :=
  if boolOperator = booleanAnd then .and
  else if boolOperator = booleanOr then .or
  else if boolOperator = booleanNot then .not
  else .none

def stringToFunctionType (function : Str) : FunctionType :=
  if function = dynamicValueHdr then .getHdr
  else if function = dynamicValueUrlParam then .urlp
  else if function = dynamicValueMetadata then .getMetadata
  else .invalidFunctionType

def isOperator (operatorType : BooleanOperatorType) : Bool :=
  operatorType = .and || operatorType = .or || operatorType = .not

def isOR (operatorType : BooleanOperatorType) : Bool := operatorType = .or

def isBinaryOperator (operatorType : BooleanOperatorType) : Bool :=
  operatorType = .and || operatorType = .or

def evaluateExpression (operand1 : Bool) (operatorVal : BooleanOperatorType) (operand2 : Bool) :
    Bool :=
  if operatorVal = .and then operand1 && operand2 else operand1 || operand2

def requiresArgument (matchType : MatchType) : Bool :=
  matchType = .exact || matchType = .substr || matchType = .prefixOf

end Utility

end HeaderRewrite
