import HeaderRewrite.Condition

/-!
# The four operations

`SetHeaderProcessor`, `AppendHeaderProcessor`, `SetPathProcessor` and
`SetDynamicMetadataProcessor`: parsing from the tokens of a line, with `start` at the token after
the operation's name, and executing on the headers and the dynamic metadata of a stream.

## Main definitions

* `StreamState`: what an operation reads and writes;
* `SetHeaderProcessor` and its siblings, each with `parseOperation` and `executeOperation`;
* `HeaderProcessor`: the four as one type, for the virtual calls of the filter.
-/

namespace HeaderRewrite

open Cxx Utility

/-- The headers and the stream info that an operation is executed on. -/
structure StreamState (M I : Type) where
  /-- The header map. -/
  headers : RequestOrResponseHeaderMap M
  /-- The stream info, or null. -/
  streamInfo : Option I
deriving DecidableEq, Repr

/-- The state with another header map. -/
def StreamState.withMap {M I : Type} (st : StreamState M I) (map : M) : StreamState M I :=
  { st with headers := { st.headers with map } }

variable {M I : Type}

/-- Parse the condition after `if`, which must not be empty. -/
def conditionProcessorSetup (declared : Str → Bool) (processor : Processor)
    (conditionExpression : List Str) (start : Nat) : Parse Status ConditionProcessor := do
  if start = conditionExpression.length then
    Parse.rejected (.invalidArgument "empty condition provided")
  -- pass everything after the "if"
  ConditionProcessor.parseOperation declared conditionExpression start processor

/-- The value of an operation's condition, true if it has none, with a status. -/
def evaluateCondition (eval : Evaluator M I) (maps : SetBoolProcessorMaps)
    (conditionProcessor : Option ConditionProcessor) (st : StreamState M I) :
    Outcome (Status × Bool) :=
  match conditionProcessor with
  | some conditionProcessor => do
    let (status, condition) ←
      conditionProcessor.executeOperation eval maps st.headers st.streamInfo
    if status ≠ .ok then
      return (status, false)
    return (.ok, condition)
  | none => return (.ok, true) -- no condition present

/-! ## `SetHeaderProcessor` -/

/-- A parsed `set-header`. -/
structure SetHeaderProcessor extends Processor where
  /-- Header key to set. -/
  headerKey : DynamicFunctionProcessor
  /-- Header value to set. -/
  headerVal : DynamicFunctionProcessor
  /-- The condition, if there is one. -/
  conditionProcessor : Option ConditionProcessor
deriving DecidableEq, Repr

namespace SetHeaderProcessor

def parseOperation (E : Envoy M I) (declared : Str → Bool) (processor : Processor)
    (operationExpression : List Str) (start : Nat) : Parse Status SetHeaderProcessor := do
  if operationExpression.length < setHeaderMinNumArguments then
    Parse.rejected (.invalidArgument "not enough arguments for set-header")
  -- parse key
  let headerKey ← Parse.catchAs
      (fun e => .unknown ("error parsing header key -- ".toList ++ e.what)) do
    if start = operationExpression.length then
      Parse.threw unexpectedEnd
    DynamicFunctionProcessor.parseOperation E processor (← deref operationExpression start)
  -- parse values
  Parse.catchAs (fun e => .unknown ("error parsing header values -- ".toList ++ e.what)) do
    if (← offset operationExpression start 1) = operationExpression.length then
      Parse.threw unexpectedEnd
    let headerVal ← DynamicFunctionProcessor.parseOperation E processor
      (← deref operationExpression (← offset operationExpression start 1))
    if (← offset operationExpression start 2) ≠ operationExpression.length then
      if (← deref operationExpression (← offset operationExpression start 2)) = ifKeyword then
        -- condition found
        let conditionProcessor ← conditionProcessorSetup declared processor operationExpression
          (← offset operationExpression start 3)
        return ⟨processor, headerKey, headerVal, some conditionProcessor⟩
      else
        Parse.rejected (.invalidArgument "third argument to set-header must be a condition")
    else
      return ⟨processor, headerKey, headerVal, none⟩

def executeOperation (E : Envoy M I) (eval : Evaluator M I) (maps : SetBoolProcessorMaps)
    (p : SetHeaderProcessor) (st : StreamState M I) : Outcome (Status × StreamState M I) := do
  let (status, condition) ← evaluateCondition eval maps p.conditionProcessor st
  if status ≠ .ok then
    return (status, st)
  if !condition then
    return (.ok, st) -- do nothing because condition is false
  -- fetch dynamic values for header key and value
  let (keyStatus, key) ← eval p.headerKey st.headers st.streamInfo
  let (valueStatus, value) ← eval p.headerVal st.headers st.streamInfo
  if keyStatus ≠ .ok then
    return (.unknown
      ("Failed to get dynamic value for set header -- ".toList ++ keyStatus.message), st)
  if valueStatus ≠ .ok then
    return (.unknown
      ("Failed to get dynamic value for set header -- ".toList ++ valueStatus.message), st)
  -- set header
  return (.ok, st.withMap (E.setCopy st.headers.map (E.lowerCaseString key) value))

end SetHeaderProcessor

/-! ## `AppendHeaderProcessor` -/

/-- A parsed `append-header`. -/
structure AppendHeaderProcessor extends Processor where
  /-- Header key to append to. -/
  headerKey : DynamicFunctionProcessor
  /-- Header values to append. -/
  headerVals : List DynamicFunctionProcessor
  /-- The condition, if there is one. -/
  conditionProcessor : Option ConditionProcessor
deriving DecidableEq, Repr

namespace AppendHeaderProcessor

/-- The loop over the values, at `it`, up to the end or to a condition. The fuel bounds the number
of tokens that are left. -/
def parseValues (E : Envoy M I) (declared : Str → Bool) (processor : Processor)
    (operationExpression : List Str) :
    Nat → Nat → List DynamicFunctionProcessor →
      Parse Status (List DynamicFunctionProcessor × Option ConditionProcessor)
  | 0, _, _ => .undefined .noProgress
  | fuel + 1, it, headerVals => do
    if it = operationExpression.length then
      return (headerVals, none)
    if (← deref operationExpression it) = ifKeyword then
      -- condition found
      if headerVals.length = 0 then
        -- missing header value to append
        Parse.rejected (.invalidArgument "missing header value argument(s) for append-header")
      let conditionProcessor ← conditionProcessorSetup declared processor operationExpression
        (← offset operationExpression it 1)
      return (headerVals, some conditionProcessor)
    let headerVal ← DynamicFunctionProcessor.parseOperation E processor
      (← deref operationExpression it)
    parseValues E declared processor operationExpression fuel
      (← offset operationExpression it 1) (headerVals ++ [headerVal])

def parseOperation (E : Envoy M I) (declared : Str → Bool) (processor : Processor)
    (operationExpression : List Str) (start : Nat) : Parse Status AppendHeaderProcessor := do
  if operationExpression.length < appendHeaderMinNumArguments then
    Parse.rejected (.invalidArgument "not enough arguments for append-header")
  -- parse key and call setKey
  let headerKey ← Parse.catchAs
      (fun e => .unknown ("error parsing header key -- ".toList ++ e.what)) do
    if start = operationExpression.length then
      Parse.threw unexpectedEnd
    DynamicFunctionProcessor.parseOperation E processor (← deref operationExpression start)
  -- parse values and call setVals
  Parse.catchAs (fun e => .unknown ("error parsing header values -- ".toList ++ e.what)) do
    let (headerVals, conditionProcessor) ← parseValues E declared processor operationExpression
      (operationExpression.length - start + 1) (← offset operationExpression start 1) []
    return ⟨processor, headerKey, headerVals, conditionProcessor⟩

/-- The loop over the values: each is evaluated in the state that appending the ones before it
left. -/
def appendValues (E : Envoy M I) (eval : Evaluator M I) (key : Str) :
    List DynamicFunctionProcessor → StreamState M I → Outcome (Status × StreamState M I)
  | [], st => return (.ok, st)
  | headerVal :: headerVals, st => do
    let (valueStatus, value) ← eval headerVal st.headers st.streamInfo
    if valueStatus ≠ .ok then
      return (valueStatus, st)
    appendValues E eval key headerVals
      (st.withMap (E.appendCopy st.headers.map (E.lowerCaseString key) value))

def executeOperation (E : Envoy M I) (eval : Evaluator M I) (maps : SetBoolProcessorMaps)
    (p : AppendHeaderProcessor) (st : StreamState M I) : Outcome (Status × StreamState M I) := do
  let (status, condition) ← evaluateCondition eval maps p.conditionProcessor st
  if status ≠ .ok then
    return (status, st)
  if !condition then
    return (.ok, st) -- do nothing because condition is false
  let (keyStatus, key) ← eval p.headerKey st.headers st.streamInfo
  if keyStatus ≠ .ok then
    return (keyStatus, st)
  -- append header
  appendValues E eval key p.headerVals st

end AppendHeaderProcessor

/-! ## `SetPathProcessor` -/

/-- A parsed `set-path`. -/
structure SetPathProcessor extends Processor where
  /-- Path to set. -/
  requestPath : DynamicFunctionProcessor
  /-- The condition, if there is one. -/
  conditionProcessor : Option ConditionProcessor
deriving DecidableEq, Repr

namespace SetPathProcessor

def parseOperation (E : Envoy M I) (declared : Str → Bool) (processor : Processor)
    (operationExpression : List Str) (start : Nat) : Parse Status SetPathProcessor := do
  if operationExpression.length < setPathMinNumArguments then
    Parse.rejected (.invalidArgument "not enough arguments for set-path")
  -- parse path and call setPath
  Parse.catchAs
      (fun e => .unknown ("error parsing request path argument -- ".toList ++ e.what)) do
    if start = operationExpression.length then
      Parse.threw unexpectedEnd
    let requestPath ← DynamicFunctionProcessor.parseOperation E processor
      (← deref operationExpression start)
    if operationExpression.length > 3 then
      let it ← offset operationExpression start 1
      if it = operationExpression.length then
        Parse.threw unexpectedEnd
      if (← deref operationExpression it) ≠ ifKeyword then
        Parse.rejected (.invalidArgument "second argument to set-path must be a condition")
      let conditionProcessor ← conditionProcessorSetup declared processor operationExpression
        (← offset operationExpression it 1)
      return ⟨processor, requestPath, some conditionProcessor⟩
    else
      return ⟨processor, requestPath, none⟩

/-- The path of the request is set, and its query string kept. The status of the new path's
evaluation is not read. -/
def executeOperation (E : Envoy M I) (eval : Evaluator M I) (maps : SetBoolProcessorMaps)
    (p : SetPathProcessor) (st : StreamState M I) : Outcome (Status × StreamState M I) := do
  let (status, condition) ← evaluateCondition eval maps p.conditionProcessor st
  if status ≠ .ok then
    return (status, st)
  let (_, newPath) ← eval p.requestPath st.headers st.streamInfo
  if !condition then
    return (.ok, st) -- do nothing because condition is false
  -- cast to RequestHeaderMap because setPath is only on request side
  if ¬ st.headers.isRequestHeaderMap then
    .undefined .badCast
  -- get path (includes query string)
  let path := E.path st.headers.map
  match findFirstOf path '?' with
  | none => return (.ok, st.withMap (E.setPath st.headers.map newPath)) -- no query string present
  | some offset =>
    let queryString ← substr path offset (path.length - offset)
    -- set path, preserves query string
    return (.ok, st.withMap (E.setPath st.headers.map (newPath ++ queryString)))

end SetPathProcessor

/-! ## `SetDynamicMetadataProcessor` -/

/-- A parsed `set-metadata`. -/
structure SetDynamicMetadataProcessor extends Processor where
  /-- Metadata key to set. -/
  metadataKey : DynamicFunctionProcessor
  /-- Metadata value to set. -/
  metadataValue : DynamicFunctionProcessor
  /-- The condition, if there is one. -/
  conditionProcessor : Option ConditionProcessor
deriving DecidableEq, Repr

namespace SetDynamicMetadataProcessor

def parseOperation (E : Envoy M I) (declared : Str → Bool) (processor : Processor)
    (operationExpression : List Str) (start : Nat) :
    Parse Status SetDynamicMetadataProcessor := do
  if operationExpression.length < setDynMetadataMinNumArguments then
    Parse.rejected (.invalidArgument "not enough arguments for set-metadata")
  Parse.catchAs
      (fun e => .unknown ("error parsing set metadata operation -- ".toList ++ e.what)) do
    if start = operationExpression.length then
      Parse.threw unexpectedEnd
    let metadataKey ← DynamicFunctionProcessor.parseOperation E processor
      (← deref operationExpression start)
    if (← offset operationExpression start 1) = operationExpression.length then
      Parse.threw unexpectedEnd
    let metadataValue ← DynamicFunctionProcessor.parseOperation E processor
      (← deref operationExpression (← offset operationExpression start 1))
    if (← offset operationExpression start 2) ≠ operationExpression.length then
      if (← deref operationExpression (← offset operationExpression start 2)) = ifKeyword then
        -- condition found
        let conditionProcessor ← conditionProcessorSetup declared processor operationExpression
          (← offset operationExpression start 3)
        return ⟨processor, metadataKey, metadataValue, some conditionProcessor⟩
      else
        Parse.rejected (.invalidArgument "third argument to set-metadata must be a condition")
    else
      return ⟨processor, metadataKey, metadataValue, none⟩

/-- The metadata of the filter's namespace with a string stored under `key` twice: the struct under
`key` has the one field `key`. -/
def storeMetadata (E : Envoy M I) (info : I) (key value : Str) : I :=
  let (filterStruct, info) := E.mutableFilterMetadata info headerRewriteFilterName
  let obj := E.keyValueStruct key value
  let val := E.ofStruct obj
  E.setDynamicMetadata info headerRewriteFilterName (E.setField filterStruct key val)

/-- The `try` block is around the whole body. Its last step stores the metadata and cannot throw,
so the handler finds the state unchanged. -/
def executeOperation (E : Envoy M I) (eval : Evaluator M I) (maps : SetBoolProcessorMaps)
    (p : SetDynamicMetadataProcessor) (st : StreamState M I) :
    Outcome (Status × StreamState M I) :=
  Outcome.catchAs
      (fun e => (.unknown ("failed to set metadata -- ".toList ++ e.what), st)) do
    let (conditionStatus, condition) ← evaluateCondition eval maps p.conditionProcessor st
    if conditionStatus ≠ .ok then
      return (conditionStatus, st)
    if !condition then
      return (.ok, st) -- do nothing because condition is false
    -- get key and value to set
    let (metadataKeyStatus, key) ← eval p.metadataKey st.headers st.streamInfo
    if metadataKeyStatus ≠ .ok then
      return (.unknown ("failed to get dynamic value to set metadata -- ".toList ++
        metadataKeyStatus.message), st)
    if key.length = 0 then
      return (.unknown "failed to get dynamic value to set metadata -- no value", st)
    let (metadataValueStatus, value) ← eval p.metadataValue st.headers st.streamInfo
    if metadataValueStatus ≠ .ok then
      return (.unknown ("failed to get dynamic value to set metadata -- ".toList ++
        metadataValueStatus.message), st)
    if value.length = 0 then
      return (.notFound "failed to get dynamic value to set metadata -- no value", st)
    -- make sure metadata is not null
    match st.streamInfo with
    | none => return (.notFound "streamInfo is null", st)
    | some info => return (.ok, { st with streamInfo := some (storeMetadata E info key value) })

end SetDynamicMetadataProcessor

/-! ## `HeaderProcessor` -/

/-- A `HeaderProcessorUniquePtr`: an operation of any of the four classes. -/
inductive HeaderProcessor
  | setHeader (p : SetHeaderProcessor)
  | appendHeader (p : AppendHeaderProcessor)
  | setPath (p : SetPathProcessor)
  | setDynamicMetadata (p : SetDynamicMetadataProcessor)
deriving DecidableEq, Repr

namespace HeaderProcessor

/-- The condition of an operation, if there is one. -/
def conditionProcessor : HeaderProcessor → Option ConditionProcessor
  | setHeader p => p.conditionProcessor
  | appendHeader p => p.conditionProcessor
  | setPath p => p.conditionProcessor
  | setDynamicMetadata p => p.conditionProcessor

/-- The virtual call of `executeOperation`. -/
def executeOperation (E : Envoy M I) (eval : Evaluator M I) (maps : SetBoolProcessorMaps) :
    HeaderProcessor → StreamState M I → Outcome (Status × StreamState M I)
  | setHeader p => p.executeOperation E eval maps
  | appendHeader p => p.executeOperation E eval maps
  | setPath p => p.executeOperation E eval maps
  | setDynamicMetadata p => p.executeOperation E eval maps

end HeaderProcessor

end HeaderRewrite
