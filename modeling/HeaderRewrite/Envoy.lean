import HeaderRewrite.Cxx.Pieces

/-!
# The parts of Envoy that the filter calls

Envoy is not part of the repository. `Envoy M I` collects the functions of it that the filter
calls, over a type `M` of header maps and a type `I` of stream infos, so that every definition of
the filter is stated for any implementation of them. What the filter relies on is stated
separately, in groups of laws that results assume only where they need them.

`get`, `filterMetadata`, `structFields` and `structValue?` are getters of the same Envoy and
protobuf classes. The filter does not call them; the laws describe the other functions by them.

## Main definitions

* `Envoy`: the functions;
* `Envoy.StringLaws`: splitting and lower-casing;
* `Envoy.HeaderLaws`: header maps;
* `Envoy.MetadataLaws`, `Envoy.NamespaceLaws`: dynamic metadata.
-/

namespace HeaderRewrite

open Cxx

/-- The functions of Envoy and of protobuf that the filter is written against. -/
structure Envoy (M I : Type) where
  /-- `google::protobuf::Struct`. -/
  Struct : Type
  /-- `google::protobuf::Value`. -/
  Value : Type
  /-- `StringUtil::splitToken(source, delimiters, keep_empty_string, trim_whitespace)`. -/
  splitToken : Str → Str → Bool → Bool → List Str
  /-- The string that `Http::LowerCaseString` holds. -/
  lowerCaseString : Str → Str
  /-- `HeaderMap::get(key)`: the values of the entries of a name, in order. -/
  get : M → Str → List Str
  /-- `HeaderUtility::getAllOfHeaderAsString(headers, key).result()`. -/
  getAllOfHeaderAsString : M → Str → Option Str
  /-- `HeaderMap::setCopy(key, value)`. -/
  setCopy : M → Str → Str → M
  /-- `HeaderMap::appendCopy(key, value)`. -/
  appendCopy : M → Str → Str → M
  /-- `RequestHeaderMap::Path()`: the value of the `:path` entry, or null. -/
  pathEntry : M → Option Str
  /-- `RequestHeaderMap::path()`. -/
  path : M → Str
  /-- `RequestHeaderMap::setPath(value)`. -/
  setPath : M → Str → M
  /-- `Http::Utility::parseQueryString(url)`. -/
  parseQueryString : Str → List (Str × Str)
  /-- `dynamicMetadata().filter_metadata().find(name)`. -/
  filterMetadata : I → Str → Option Struct
  /-- `(*dynamicMetadata().mutable_filter_metadata())[name]`: the struct of a name, which is
  inserted if there is none. -/
  mutableFilterMetadata : I → Str → Struct × I
  /-- `StreamInfo::setDynamicMetadata(name, value)`. -/
  setDynamicMetadata : I → Str → Struct → I
  /-- `Config::Metadata::metadataValue(&dynamicMetadata(), filter, path)`. -/
  metadataValue : I → Str → List Str → Value
  /-- `MessageUtil::keyValueStruct(key, value)`. -/
  keyValueStruct : Str → Str → Struct
  /-- `Struct::fields().find(key)`. -/
  structFields : Struct → Str → Option Value
  /-- `(*Struct::mutable_fields())[key] = value`. -/
  setField : Struct → Str → Value → Struct
  /-- The value whose `mutable_struct_value()` has been set. -/
  ofStruct : Struct → Value
  /-- `Value::struct_value()` where `has_struct_value()`. -/
  structValue? : Value → Option Struct
  /-- `Value::string_value()`. -/
  stringValue : Value → Str

namespace Envoy

variable {M I : Type}

/-- The entries of a name as one string: nothing if there is no entry, and otherwise their values
joined by commas. -/
def joinEntries : List Str → Option Str
  | [] => none
  | values => some ([','].intercalate values)

/-- The text that `appendCopy` puts between the old and the new value. -/
def delimiterByHeader (key : Str) : Str := if key = "cookie" then "; " else ","

/-- An entry's value with data appended: empty data and an empty value add no delimiter. -/
def appendToHeader (delimiter data value : Str) : Str :=
  if data = [] then value else if value = [] then data else value ++ delimiter ++ data

/-- The entries of a name after data was appended to them: only the first entry is modified, and
one is created if there is none. -/
def appendToEntries (delimiter data : Str) : List Str → List Str
  | [] => [data]
  | value :: rest => appendToHeader delimiter data value :: rest

/-- The value at the end of a path of struct fields. -/
def walk (E : Envoy M I) : E.Struct → List Str → Option E.Value
  | _, [] => none
  | s, [key] => E.structFields s key
  | s, key :: rest => ((E.structFields s key).bind E.structValue?).bind (E.walk · rest)

/-- A step of `walk` that is not the last goes through a struct value. -/
theorem walk_cons (E : Envoy M I) (s : E.Struct) (key : Str) {rest : List Str}
    (hrest : rest = [] → False) :
    E.walk s (key :: rest) =
      ((E.structFields s key).bind E.structValue?).bind (E.walk · rest) := by
  cases rest with
  | nil => exact (hrest rfl).elim
  | cons next rest => rfl

/-- Splitting and lower-casing as Envoy documents them. -/
structure StringLaws (E : Envoy M I) : Prop where
  /-- `splitToken` drops the empty pieces, or trims and drops the blank ones. -/
  splitToken_eq : ∀ source delimiters trimWhitespace,
    E.splitToken source delimiters false trimWhitespace =
      splitText delimiters trimWhitespace source
  /-- `LowerCaseString` lower-cases each character. -/
  lowerCaseString_eq : ∀ s, E.lowerCaseString s = s.map Char.toLower

/-- Header maps as Envoy documents them. -/
structure HeaderLaws (E : Envoy M I) : Prop where
  /-- The entries of a name are joined by commas. -/
  getAllOfHeaderAsString_eq : ∀ h key,
    E.getAllOfHeaderAsString h key = joinEntries (E.get h key)
  /-- `setCopy` replaces all entries of the name by one. -/
  get_setCopy : ∀ h key value name,
    E.get (E.setCopy h key value) name = if name = key then [value] else E.get h name
  /-- `appendCopy` appends to the first entry of the name, or creates one. -/
  get_appendCopy : ∀ h key value name,
    E.get (E.appendCopy h key value) name =
      if name = key then appendToEntries (delimiterByHeader key) value (E.get h key)
      else E.get h name
  /-- Appending nothing to an entry leaves the map as it is. -/
  appendCopy_nil : ∀ h key, E.get h key ≠ [] → E.appendCopy h key [] = h
  /-- `Path()` is the `:path` entry. -/
  pathEntry_eq : ∀ h, E.pathEntry h = (E.get h ":path").head?
  /-- `path()` is its value, or empty. -/
  path_eq : ∀ h, E.path h = (E.pathEntry h).getD []
  /-- `setPath` sets the `:path` entry. -/
  get_setPath : ∀ h value name,
    E.get (E.setPath h value) name = if name = ":path".toList then [value] else E.get h name

/-- Dynamic metadata as Envoy and protobuf document it. -/
structure MetadataLaws (E : Envoy M I) : Prop where
  /-- `operator[]` yields the fields of the struct of the name, none if there is none. -/
  structFields_mutableFilterMetadata : ∀ i name key,
    E.structFields (E.mutableFilterMetadata i name).1 key =
      (E.filterMetadata i name).bind (E.structFields · key)
  /-- `operator[]` inserts a missing struct and changes nothing else. -/
  filterMetadata_mutableFilterMetadata : ∀ i name other,
    E.filterMetadata (E.mutableFilterMetadata i name).2 other =
      if other = name then some (E.mutableFilterMetadata i name).1 else E.filterMetadata i other
  /-- `setDynamicMetadata` merges into the namespace, replacing the fields of the same key. -/
  structFields_setDynamicMetadata : ∀ i name s key,
    (E.filterMetadata (E.setDynamicMetadata i name s) name).bind (E.structFields · key) =
      (E.structFields s key).or ((E.filterMetadata i name).bind (E.structFields · key))
  /-- `metadataValue` follows a path of struct fields; a missing step yields an empty value. -/
  stringValue_metadataValue : ∀ i name path,
    E.stringValue (E.metadataValue i name path) =
      (((E.filterMetadata i name).bind (E.walk · path)).map E.stringValue).getD []
  /-- Assigning a field replaces it and leaves the others. -/
  structFields_setField : ∀ s key value other,
    E.structFields (E.setField s key value) other =
      if other = key then some value else E.structFields s other
  /-- `keyValueStruct` is the struct of one string field. -/
  structFields_keyValueStruct : ∀ key value other,
    (E.structFields (E.keyValueStruct key value) other).map E.stringValue =
      if other = key then some value else none
  /-- A struct value holds its struct. -/
  structValue?_ofStruct : ∀ s, E.structValue? (E.ofStruct s) = some s

/-- Dynamic metadata is kept by namespace, as Envoy documents it. -/
structure NamespaceLaws (E : Envoy M I) : Prop where
  /-- `setDynamicMetadata` leaves the namespaces of other names as they are. -/
  filterMetadata_setDynamicMetadata : ∀ i name s other, other ≠ name →
    E.filterMetadata (E.setDynamicMetadata i name s) other = E.filterMetadata i other

end Envoy

end HeaderRewrite
