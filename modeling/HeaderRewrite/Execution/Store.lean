import HeaderRewrite.Cxx.Simulation
import HeaderRewrite.Execution.Headers
import HeaderRewrite.Execution.Matcher
import HeaderRewrite.Execution.Metadata

/-!
# What a filter does, without Envoy

The header map and the stream info matter to a filter through their contents: the entries of each
header name, and the texts that the filter has stored in its metadata. Here a filter is a function
of these contents. Operands, variables and conditions have values, or none where evaluating them
fails; an operation changes the contents and tells whether the operations after it are executed.
There are no statuses, exceptions, iterators or representations of maps.

The functions follow what the code does where that is peculiar: `append-header` extends the first
entry of a name, `set-path` takes a path without a value for an empty one, the prefix matcher knows
the terminating NUL, and positions are 32-bit integers.

## Main definitions

* `Store`: the contents;
* `DynamicFunctionProcessor.value`, `SetBoolProcessor.value`, `ConditionProcessor.value`;
* `HeaderProcessor.transform`, `HttpHeaderRewriteFilter.transform`: what is done to the contents.
-/

namespace HeaderRewrite

open Cxx Utility Envoy

/-! ## Contents -/

/-- The contents of a header map and of the filter's metadata. -/
structure Store where
  /-- The entries of a header name, in order. -/
  entries : Str → List Str
  /-- The text stored under a key, empty if there is none. -/
  metadata : Str → Str

/-- The element of a list at a position, counted from the end if it is negative. Positions and the
size are `int`s. -/
def elementAt (values : List Str) (position : ℤ) : Option Str :=
  let index := if position < 0 then addSize position values.length else position
  if index < 0 ∨ index ≥ toInt32 values.length then none else some (values.getD index.toNat [])

namespace Store

/-- The contents with other entries of a name. -/
def setEntries (S : Store) (name : Str) (values : List Str) : Store :=
  { S with entries := Function.update S.entries name values }

/-- The contents with another text under a key. -/
def setMetadata (S : Store) (key value : Str) : Store :=
  { S with metadata := Function.update S.metadata key value }

/-- An element of the comma-separated list of a header, in any case of letters. A header without
entries has an empty one at every position. -/
def header (S : Store) (key : Str) (position : ℤ) : Option Str :=
  match joinEntries (S.entries (key.map Char.toLower)) with
  | none => some []
  | some text => elementAt (pieces ',' text) position

end Store

/-! ## Values -/

/-- The value of an operand. Query strings are read by a function that is given. -/
def DynamicFunctionProcessor.value (query : Str → List (Str × Str)) (S : Store)
    (d : DynamicFunctionProcessor) : Option Str :=
  match d.functionType, pieces ',' d.functionArgument with
  | .getHdr, [key] => S.header key (-1)
  | .getHdr, [key, position] =>
    match stoi position with
    | .returned n => S.header key n
    | _ => none
  | .urlp, [param] =>
    (S.entries ":path").head?.map fun path => ((query path).lookup param).getD []
  | .getMetadata, _ => some (S.metadata d.functionArgument)
  | .static, _ => some d.functionArgument
  | _, _ => none

/-- Whether a source matches a text. An empty source matches none. -/
def matchesText (matchType : MatchType) (source text : Str) : Bool :=
  decide (source ≠ []) &&
    match matchType with
    | .exact => decide (source = text)
    | .prefixOf => decide (text <+: source ++ [nul])
    | .substr => decide (text <:+: source)
    | .found => true
    | .invalidMatchType => false

/-- The value of a boolean variable. -/
def SetBoolProcessor.value (query : Str → List (Str × Str)) (S : Store) (q : SetBoolProcessor) :
    Option Bool := do
  let source ← q.sourceProcessor.value query S
  let text ← q.stringToCompareFunctionProcessor.value query S
  return matchesText q.matchType source text

/-- The value of a condition: that of its disjunction of conjunctions of literals. -/
def ConditionProcessor.value (query : Str → List (Str × Str)) (maps : SetBoolProcessorMaps)
    (S : Store) (c : ConditionProcessor) : Option Bool :=
  clausesValue (fun d => ((maps c.boolProcessors).lookup d.1).bind fun q =>
    (q.value query S).map fun value => if d.2 then !value else value) c.clauses

/-! ## Operations -/

/-- Append values to a header in turn, up to one that has none. The entries that values are appended
to can be read by the ones after them. -/
def appendAll (query : Str → List (Str × Str)) (name : Str) :
    List DynamicFunctionProcessor → Store → Bool × Store
  | [], S => (true, S)
  | d :: headerVals, S =>
    match d.value query S with
    | none => (false, S)
    | some value => appendAll query name headerVals
        (S.setEntries name (appendToEntries (delimiterByHeader name) value (S.entries name)))

namespace HeaderProcessor

/-- What an operation does where its condition holds. -/
def perform (query : Str → List (Str × Str)) (S : Store) : HeaderProcessor → Bool × Store
  | setHeader p =>
    match p.headerKey.value query S, p.headerVal.value query S with
    | some key, some value => (true, S.setEntries (key.map Char.toLower) [value])
    | _, _ => (false, S)
  | appendHeader p =>
    match p.headerKey.value query S with
    | some key => appendAll query (key.map Char.toLower) p.headerVals S
    | none => (false, S)
  | setPath p =>
    let path := (S.entries ":path").headD []
    (true, S.setEntries ":path"
      [(p.requestPath.value query S).getD [] ++ SetPathProcessor.queryString path])
  | setDynamicMetadata p =>
    match p.metadataKey.value query S, p.metadataValue.value query S with
    | some key, some value => if key = [] ∨ value = [] then (false, S)
      else (true, S.setMetadata key value)
    | _, _ => (false, S)

/-- The value of the condition of an operation. Without one the operation is always performed. -/
def condition (query : Str → List (Str × Str)) (maps : SetBoolProcessorMaps) (S : Store)
    (p : HeaderProcessor) : Option Bool :=
  match p.conditionProcessor with
  | none => some true
  | some c => c.value query maps S

/-- What an operation does to the contents, and whether the operations after it are executed. -/
def transform (query : Str → List (Str × Str)) (maps : SetBoolProcessorMaps) (p : HeaderProcessor)
    (S : Store) : Bool × Store :=
  match p.condition query maps S with
  | none => (false, S)
  | some false => (true, S)
  | some true => p.perform query S

end HeaderProcessor

/-- What the operations of a side do to the contents. -/
def HttpHeaderRewriteFilter.transform (query : Str → List (Str × Str)) (f : HttpHeaderRewriteFilter)
    (isRequest : Bool) (S : Store) : Store :=
  if f.error then S
  else transformAll (·.transform query f.setBoolProcessors) (f.headerProcessors isRequest) S

/-- The contents of a stream. -/
def StreamState.store {M I : Type} (E : Envoy M I) (st : StreamState M I) : Store :=
  ⟨E.get st.headers.map, st.metadata E⟩

end HeaderRewrite
