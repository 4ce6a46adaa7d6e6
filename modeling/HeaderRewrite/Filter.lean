import HeaderRewrite.Cxx.Run
import HeaderRewrite.HeaderProcessor

/-!
# `HttpHeaderRewriteFilter`

The constructor parses the configuration line by line into two lists of operations and two maps of
boolean variables, one of each for requests and for responses. `decodeHeaders` and `encodeHeaders`
execute the operations of their side in order and stop at the first that returns an error.

## Main definitions

* `HttpHeaderRewriteFilter`: the members the constructor fills;
* `HttpHeaderRewriteFilter.construct`: the constructor, by `processTokens` on each line;
* `HttpHeaderRewriteFilter.decodeHeaders` and `HttpHeaderRewriteFilter.encodeHeaders`.
-/

namespace HeaderRewrite

open Cxx Utility

/-- The members of the filter. -/
structure HttpHeaderRewriteFilter where
  /-- Whether the configuration was found to be invalid. -/
  error : Bool
  /-- The operations on requests, in order. -/
  requestHeaderProcessors : List HeaderProcessor
  /-- The operations on responses, in order. -/
  responseHeaderProcessors : List HeaderProcessor
  /-- The boolean variables of the request side. -/
  requestSetBoolProcessors : SetBoolProcessorMap
  /-- The boolean variables of the response side. -/
  responseSetBoolProcessors : SetBoolProcessorMap
deriving DecidableEq, Repr

namespace HttpHeaderRewriteFilter

/-- The members before the first line is read. -/
def init : HttpHeaderRewriteFilter := ⟨false, [], [], [], []⟩

/-- What the pointers of the processors point to. -/
def setBoolProcessors (f : HttpHeaderRewriteFilter) : SetBoolProcessorMaps
  | .requestSetBoolProcessors => f.requestSetBoolProcessors
  | .responseSetBoolProcessors => f.responseSetBoolProcessors

/-- The operations of a side. -/
def headerProcessors (f : HttpHeaderRewriteFilter) (isRequest : Bool) : List HeaderProcessor :=
  if isRequest then f.requestHeaderProcessors else f.responseHeaderProcessors

/-- Keep track of an operation to be executed. -/
def pushProcessor (f : HttpHeaderRewriteFilter) (isRequest : Bool) (p : HeaderProcessor) :
    HttpHeaderRewriteFilter :=
  if isRequest then
    { f with requestHeaderProcessors := f.requestHeaderProcessors ++ [p] }
  else
    { f with responseHeaderProcessors := f.responseHeaderProcessors ++ [p] }

/-- Whether a variable is in the map behind a pointer. -/
def declared (f : HttpHeaderRewriteFilter) (boolProcessors : SetBoolProcessorMapSharedPtr)
    (name : Str) : Bool :=
  ((f.setBoolProcessors boolProcessors).lookup name).isSome

variable {M I : Type}

/-! ## The constructor -/

/-- The `SetBool` case of the constructor. The name is read before the number of tokens is
checked. -/
def processSetBool (E : Envoy M I) (f : HttpHeaderRewriteFilter) (processor : Processor)
    (tokens : List Str) : Parse Str HttpHeaderRewriteFilter := do
  let boolName ← vectorAt tokens 2
  let setBool ← Parse.mapRejection Status.message
    (SetBoolProcessor.parseOperation E processor tokens (← offset tokens 0 2))
  -- make sure this boolean variable doesn't already exist in the map
  if processor.isRequest ∧ f.requestSetBoolProcessors.lookup boolName = none then
    return { f with requestSetBoolProcessors := (boolName, setBool) :: f.requestSetBoolProcessors }
  else if ¬ processor.isRequest ∧ f.responseSetBoolProcessors.lookup boolName = none then
    return { f with
      responseSetBoolProcessors := (boolName, setBool) :: f.responseSetBoolProcessors }
  else
    Parse.rejected "redefinition of boolean variable"

/-- Make a processor for an operation other than `set-bool` and parse it. -/
def parseProcessor (E : Envoy M I) (declared : Str → Bool) (processor : Processor)
    (operationType : OperationType) (tokens : List Str) : Parse Str HeaderProcessor := do
  match operationType with
  | .setHeader =>
    HeaderProcessor.setHeader <$> Parse.mapRejection Status.message
      (SetHeaderProcessor.parseOperation E declared processor tokens (← offset tokens 0 2))
  | .appendHeader =>
    HeaderProcessor.appendHeader <$> Parse.mapRejection Status.message
      (AppendHeaderProcessor.parseOperation E declared processor tokens (← offset tokens 0 2))
  | .setDynMetadata =>
    HeaderProcessor.setDynamicMetadata <$> Parse.mapRejection Status.message
      (SetDynamicMetadataProcessor.parseOperation E declared processor tokens
        (← offset tokens 0 2))
  | .setPath =>
    if ¬ processor.isRequest then
      Parse.rejected "set-path can only be on request"
    HeaderProcessor.setPath <$> Parse.mapRejection Status.message
      (SetPathProcessor.parseOperation E declared processor tokens (← offset tokens 0 2))
  | _ => Parse.rejected "invalid operation type"

/-- Process the tokens of one line. A rejection carries the text that is logged. -/
def processTokens (E : Envoy M I) (f : HttpHeaderRewriteFilter) (tokens : List Str) :
    Parse Str HttpHeaderRewriteFilter := do
  if tokens.length < minNumArguments then
    Parse.rejected "too few arguments provided"
  -- determine if it's request/response
  if (← vectorAt tokens 0) ≠ httpRequest ∧ (← vectorAt tokens 0) ≠ httpResponse then
    Parse.rejected "first argument must be <http-response/http-request>"
  let isRequest := decide ((← vectorAt tokens 0) = httpRequest)
  let operationType := stringToOperationType (← vectorAt tokens 1)
  let processor : Processor :=
    ⟨if isRequest then .requestSetBoolProcessors else .responseSetBoolProcessors, isRequest⟩
  if operationType = .setBool then
    processSetBool E f processor tokens
  else do
    let p ← parseProcessor E (f.declared processor.boolProcessors) processor operationType tokens
    -- keep track of request/response operations to be executed
    return f.pushProcessor isRequest p

/-- The loop of the constructor. A line that is rejected is logged, the error is set and the
constructor returns. -/
def processLines (E : Envoy M I) (f : HttpHeaderRewriteFilter) :
    List (List Str) → Outcome HttpHeaderRewriteFilter
  | [] => .returned f
  | tokens :: lines =>
    match processTokens E f tokens with
    | .accepted f' => processLines E f' lines
    | .rejected _ => .returned { f with error := true }
    | .threw e => .threw e
    | .undefined u => .undefined u

/-- The lines of a configuration, each split into its tokens. -/
def configLines (E : Envoy M I) (config : Str) : List (List Str) :=
  (E.splitToken config ['\n'] false true).map fun operation =>
    E.splitToken operation " " false false

/-- The constructor. -/
def construct (E : Envoy M I) (config : Str) : Outcome HttpHeaderRewriteFilter :=
  processLines E init (configLines E config)

/-! ## `decodeHeaders` and `encodeHeaders` -/

/-- The loop over the operations of a side. -/
def executeProcessors (E : Envoy M I) (eval : Evaluator M I) (f : HttpHeaderRewriteFilter)
    (isRequest : Bool) (st : StreamState M I) : Outcome (StreamState M I) :=
  run (fun p => p.executeOperation E eval f.setBoolProcessors) (· = Status.ok)
    (f.headerProcessors isRequest) st

/-- Execute the operations of a side unless the configuration is invalid. -/
def executeHeaders (E : Envoy M I) (eval : Evaluator M I) (f : HttpHeaderRewriteFilter)
    (isRequest : Bool) (headers : M) (streamInfo : I) : Outcome (StreamState M I) :=
  let st : StreamState M I := ⟨⟨isRequest, headers⟩, some streamInfo⟩
  if f.error then .returned st else executeProcessors E eval f isRequest st

/-- `decodeHeaders`: the state in which it leaves the request headers and the stream info. -/
def decodeHeaders (E : Envoy M I) (f : HttpHeaderRewriteFilter) (headers : M) (streamInfo : I) :
    Outcome (StreamState M I) :=
  executeHeaders E (DynamicFunctionProcessor.executeOperation E) f true headers streamInfo

/-- `encodeHeaders`: the state in which it leaves the response headers and the stream info. -/
def encodeHeaders (E : Envoy M I) (f : HttpHeaderRewriteFilter) (headers : M) (streamInfo : I) :
    Outcome (StreamState M I) :=
  executeHeaders E (DynamicFunctionProcessor.executeOperation E) f false headers streamInfo

end HttpHeaderRewriteFilter

end HeaderRewrite
