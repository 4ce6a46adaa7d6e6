import HeaderRewrite.Envoy

/-!
# A reference implementation of the Envoy functions

Header maps as lists of entries and metadata as nested association lists. It satisfies all the
laws, so no result that assumes them is empty, and it is computable, so that the filter can be run
on concrete configurations and requests.

## Main definitions

* `Reference.Value`: protobuf values, as far as the filter and its readers tell them apart;
* `Reference.envoy`: the implementation.

## Main results

* `Reference.stringLaws`, `Reference.headerLaws`, `Reference.metadataLaws`,
  `Reference.namespaceLaws`.
-/

namespace HeaderRewrite.Reference

open Cxx Envoy

/-- `google::protobuf::Value`: a value with no kind set, a string, or a struct. -/
inductive Value where
  | empty
  | string (s : Str)
  | struct (fields : List (Str × Value))

/-- The string of a value, empty for the other kinds. -/
def Value.stringValue : Value → Str
  | .string s => s
  | _ => []

/-- The fields of a struct value. -/
def Value.structValue? : Value → Option (List (Str × Value))
  | .struct fields => some fields
  | _ => none

/-- The entries with another name. -/
def without {α : Type} (key : Str) (map : List (Str × α)) : List (Str × α) :=
  map.filter (fun entry => !(entry.1 == key))

/-- Assign to a key of a map. -/
def assign {α : Type} (map : List (Str × α)) (key : Str) (a : α) : List (Str × α) :=
  (key, a) :: without key map

/-- Modify the first entry of a name. -/
def modifyEntry (key : Str) (f : Str → Str) : List (Str × Str) → List (Str × Str)
  | [] => []
  | (name, value) :: rest =>
    if name = key then (name, f value) :: rest else (name, value) :: modifyEntry key f rest

/-- The values of the entries of a name. -/
def entries (headers : List (Str × Str)) (name : Str) : List Str :=
  (headers.filter (·.1 = name)).map Prod.snd

/-- The parameters after the first question mark of a URL. -/
def queryParameters (url : Str) : List (Str × Str) :=
  let parameters := (url.dropWhile (· ≠ '?')).tail.splitOn '&'
  parameters.map fun p => (p.takeWhile (· ≠ '='), (p.dropWhile (· ≠ '=')).tail)

/-- The value at the end of a path of fields. -/
def follow : List (Str × Value) → List Str → Value
  | _, [] => .empty
  | fields, [key] => (fields.lookup key).getD .empty
  | fields, key :: rest =>
    match (fields.lookup key).bind Value.structValue? with
    | some inner => follow inner rest
    | none => .empty

/-- Header maps as lists of entries with lower-case names, and dynamic metadata as the structs of
the filters' namespaces. -/
def envoy : Envoy (List (Str × Str)) (List (Str × List (Str × Value))) where
  Struct := List (Str × Value)
  Value := Value
  splitToken source delimiters _ trimWhitespace := splitText delimiters trimWhitespace source
  lowerCaseString s := s.map Char.toLower
  get := entries
  getAllOfHeaderAsString h key := joinEntries (entries h key)
  setCopy h key value := without key h ++ [(key, value)]
  appendCopy h key value :=
    if entries h key = [] then h ++ [(key, value)]
    else modifyEntry key (appendToHeader (delimiterByHeader key) value) h
  pathEntry h := (entries h ":path").head?
  path h := ((entries h ":path").head?).getD []
  setPath h value := without ":path" h ++ [(":path".toList, value)]
  parseQueryString := queryParameters
  filterMetadata i name := i.lookup name
  mutableFilterMetadata i name :=
    match i.lookup name with
    | some s => (s, i)
    | none => ([], (name, []) :: i)
  setDynamicMetadata i name s := assign i name (s ++ (i.lookup name).getD [])
  metadataValue i name path :=
    match i.lookup name with
    | some s => follow s path
    | none => .empty
  keyValueStruct key value := [(key, .string value)]
  structFields s key := s.lookup key
  setField := assign
  ofStruct := .struct
  structValue? := Value.structValue?
  stringValue := Value.stringValue

/-- Reading another key of a map without one of its keys. -/
theorem lookup_without {α : Type} (map : List (Str × α)) {key other : Str} (h : other ≠ key) :
    (without key map).lookup other = map.lookup other := by
  induction map with
  | nil => rfl
  | cons entry rest ih =>
    obtain ⟨name, value⟩ := entry
    by_cases hname : name = key
    · subst hname
      simpa [without, List.lookup_cons, beq_false_of_ne h] using ih
    · cases hother : other == name <;>
        simp_all [without, List.lookup_cons]

/-- Reading a key of a map after an assignment. -/
theorem lookup_assign {α : Type} (map : List (Str × α)) (key other : Str) (a : α) :
    (assign map key a).lookup other = if other = key then some a else map.lookup other := by
  by_cases h : other = key
  · simp [assign, h]
  · simp [assign, h, List.lookup_cons, lookup_without map h, beq_false_of_ne h]

/-- A key of two maps one after the other is read in the first that has it. -/
theorem lookup_append {α : Type} (first second : List (Str × α)) (key : Str) :
    (first ++ second).lookup key = (first.lookup key).or (second.lookup key) := by
  induction first with
  | nil => simp
  | cons entry rest ih =>
    obtain ⟨name, value⟩ := entry
    cases h : key == name <;> simp [List.lookup_cons, h, ih]

/-- The entries of a name after the entries of another were removed. -/
theorem entries_without (h : List (Str × Str)) (key name : Str) :
    entries (without key h) name = if name = key then [] else entries h name := by
  induction h with
  | nil => simp [entries, without]
  | cons entry rest ih =>
    obtain ⟨name', value⟩ := entry
    simp only [entries, without] at ih ⊢
    by_cases hkey : name' = key
    · by_cases hn : name = key
      · subst hkey; subst hn; simp
      · have : ¬ key = name := fun h' => hn h'.symm
        subst hkey; simpa [hn, this] using ih
    · by_cases hn : name = key
      · subst hn; simp [hkey]
      · by_cases hname : name' = name
        · simpa [List.filter_cons, hkey, hn, hname] using ih
        · simpa [List.filter_cons, hkey, hn, hname] using ih

/-- The entries of a name in a map followed by another. -/
theorem entries_append (h h' : List (Str × Str)) (name : Str) :
    entries (h ++ h') name = entries h name ++ entries h' name := by
  simp [entries]

/-- Modifying the first entry of a name. -/
theorem entries_modifyEntry (key : Str) (f : Str → Str) (h : List (Str × Str)) (name : Str) :
    entries (modifyEntry key f h) name =
      if name = key then
        match entries h key with
        | [] => []
        | value :: rest => f value :: rest
      else entries h name := by
  induction h with
  | nil => by_cases hn : name = key <;> simp [entries, modifyEntry, hn]
  | cons entry rest ih =>
    by_cases he : entry.1 = key
    · by_cases hn : name = key
      · simp [modifyEntry, entries, he, hn]
      · have : ¬ key = name := fun h' => hn h'.symm
        simp [modifyEntry, entries, he, hn, this]
    · by_cases hn : name = key
      · subst hn
        simpa [modifyEntry, entries, he] using ih
      · by_cases hen : entry.1 = name
        · simpa [modifyEntry, entries, he, hn, hen] using ih
        · simpa [modifyEntry, entries, he, hn, hen] using ih

theorem stringLaws : envoy.StringLaws where
  splitToken_eq _ _ _ := rfl
  lowerCaseString_eq _ := rfl

theorem headerLaws : envoy.HeaderLaws where
  getAllOfHeaderAsString_eq _ _ := rfl
  get_setCopy h key value name := by
    have := entries_without h key name
    by_cases hn : name = key
    · subst hn
      simpa [envoy, entries_append, entries] using this
    · have : ¬ key = name := fun h' => hn h'.symm
      simp_all [envoy, entries]
  get_appendCopy h key value name := by
    by_cases hempty : entries h key = []
    · by_cases hn : name = key
      · subst hn
        simp [envoy, hempty, entries_append, appendToEntries]
        simp [entries]
      · have : ¬ key = name := fun h' => hn h'.symm
        simp [envoy, hempty, entries_append, hn]
        simp [entries, this]
    · simp only [envoy, hempty, if_false, entries_modifyEntry]
      obtain ⟨value', rest, hcons⟩ := List.exists_cons_of_ne_nil hempty
      by_cases hn : name = key <;> simp [hcons, hn, appendToEntries]
  appendCopy_nil h key hne := by
    have hmodify : ∀ d (l : List (Str × Str)), modifyEntry key (appendToHeader d []) l = l := by
      intro d l
      induction l with
      | nil => rfl
      | cons entry rest ih =>
        by_cases he : entry.1 = key <;> simp [modifyEntry, he, ih, appendToHeader, Prod.ext_iff]
    have hne' : entries h key ≠ [] := hne
    simp [envoy, hne', hmodify]
  pathEntry_eq _ := rfl
  path_eq _ := rfl
  get_setPath h value name := by
    have := entries_without h ":path".toList name
    by_cases hn : name = ":path".toList
    · subst hn
      simpa [envoy, entries_append, entries] using this
    · have : ¬ ":path".toList = name := fun h' => hn h'.symm
      simp_all [envoy, entries]

/-- Following a path of fields is following it through the accessors of structs and values. -/
theorem stringValue_follow (fields : List (Str × Value)) (path : List Str) :
    (follow fields path).stringValue =
      ((envoy.walk fields path).map Value.stringValue).getD [] := by
  fun_induction follow fields path with
  | case1 => rfl
  | case2 fields key => cases h : fields.lookup key <;> simp [walk, envoy, h, Value.stringValue]
  | case3 fields key rest hrest inner hinner ih =>
    have hwalk : envoy.walk fields (key :: rest) =
        ((fields.lookup key).bind Value.structValue?).bind (envoy.walk · rest) :=
      walk_cons envoy fields key hrest
    rw [hwalk, hinner, Option.bind_some]
    exact ih
  | case4 fields key rest hrest hnone =>
    have hwalk : envoy.walk fields (key :: rest) =
        ((fields.lookup key).bind Value.structValue?).bind (envoy.walk · rest) :=
      walk_cons envoy fields key hrest
    rw [hwalk, hnone]
    rfl

theorem metadataLaws : envoy.MetadataLaws where
  structFields_mutableFilterMetadata i name key := by
    cases h : i.lookup name <;> simp [envoy, h]
  filterMetadata_mutableFilterMetadata i name other := by
    cases h : i.lookup name with
    | none =>
      by_cases ho : other = name
      · simp [envoy, h, ho]
      · simp [envoy, h, ho, List.lookup_cons, beq_false_of_ne ho]
    | some s =>
      by_cases ho : other = name
      · simp [envoy, h, ho]
      · simp [envoy, h, ho]
  structFields_setDynamicMetadata i name s key := by
    have happend := lookup_append s ((i.lookup name).getD []) key
    cases h : i.lookup name with
    | none => simpa [envoy, lookup_assign, h] using happend
    | some old => simpa [envoy, lookup_assign, h] using happend
  stringValue_metadataValue i name path := by
    cases h : i.lookup name with
    | none => simp [envoy, h, Value.stringValue]
    | some s => simpa [envoy, h] using stringValue_follow s path
  structFields_setField s key value other := lookup_assign s key other value
  structFields_keyValueStruct key value other := by
    by_cases h : other = key
    · simp [envoy, h, Value.stringValue]
    · simp [envoy, h, List.lookup_cons, beq_false_of_ne h]
  structValue?_ofStruct _ := rfl

theorem namespaceLaws : envoy.NamespaceLaws where
  filterMetadata_setDynamicMetadata i name s other hother := by
    simp [envoy, lookup_assign, hother]

end HeaderRewrite.Reference
