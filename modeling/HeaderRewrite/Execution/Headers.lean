import HeaderRewrite.Cxx.ListStore
import HeaderRewrite.Envoy.Reference
import HeaderRewrite.Execution.Operation

/-!
# Headers as a store of lists

A header map is read as a store: the list of a name is that of the pieces of its entries, joined by
commas. `hdr` reads this store by position, in 32-bit arithmetic. `set-header` replaces the list of
a name and `append-header` extends it, except that the latter puts what it appends after the first
entry of the name.

## Main definitions

* `Envoy.headerStore`: the store of a header map;
* `ReadsBack`, `FollowsStore`: a state whose headers are a store, and whose lists `hdr` reads.

## Main results

* `DynamicFunctionProcessor.getHeaderValue_indexing`: what is read at every position;
* `AppendHeaderProcessor.InTurn.headerStore_iff`: when values that are appended extend a list;
* `headers_followStore_iff`: when the operations on headers follow the store.
-/

namespace HeaderRewrite

open Cxx Utility

variable {M I : Type}

/-! ## The store of a header map -/

namespace Envoy

/-- The header map as a store of lists: the pieces of the entries of a name, joined by commas. -/
def headerStore (E : Envoy M I) (map : M) : ListStore Str Str := fun name =>
  (joinEntries (E.get map name)).map (pieces ',')

section Store

variable {E : Envoy M I} {map : M} {name : Str}

theorem headerStore_of_nil (h : E.get map name = []) : E.headerStore map name = none := by
  simp [headerStore, h, joinEntries]

/-- The list of a name is the concatenation of those of its entries. -/
theorem headerStore_of_ne_nil (h : E.get map name ≠ []) :
    E.headerStore map name = some ((E.get map name).flatMap (pieces ',')) := by
  obtain ⟨value, rest, hcons⟩ := List.exists_cons_of_ne_nil h
  rw [headerStore, hcons, ← pieces_intercalate]
  rfl

/-- The list of a name, empty if there is no entry. -/
theorem getD_headerStore (E : Envoy M I) (map : M) (name : Str) :
    (E.headerStore map name).getD [] = (E.get map name).flatMap (pieces ',') := by
  by_cases h : E.get map name = []
  · rw [headerStore_of_nil h, h]
    rfl
  · rw [headerStore_of_ne_nil h, Option.getD_some]

end Store

end Envoy

/-! ## Reading by position -/

namespace DynamicFunctionProcessor

/-- The rejection of a position out of range. -/
def positionOutOfBounds : Status := .outOfRange "invalid match syntax -- hdr position out of bounds"

section Reading

variable {E : Envoy M I} {headers : RequestOrResponseHeaderMap M} {key : Str} {position : ℤ}
  {values : List Str}

/-- An absent header has the empty string as its value. -/
theorem getHeaderValue_of_none (hheaders : E.HeaderLaws)
    (hstore : E.headerStore headers.map (E.lowerCaseString key) = none) (position : ℤ) :
    getHeaderValue E headers key position = .returned (.ok, []) := by
  have hnone : E.getAllOfHeaderAsString headers.map (E.lowerCaseString key) = none := by
    rw [hheaders.getAllOfHeaderAsString_eq]
    exact Option.map_eq_none_iff.mp hstore
  simp [getHeaderValue, hnone]

/-- A header that is present is indexed with the position, to which the number of elements is added
if it is negative. The access to the vector is always in range. -/
theorem getHeaderValue_of_some (hstring : E.StringLaws) (hheaders : E.HeaderLaws)
    (hstore : E.headerStore headers.map (E.lowerCaseString key) = some values) (position : ℤ) :
    let index := if position < 0 then addSize position values.length else position
    getHeaderValue E headers key position =
      .returned (if index < 0 ∨ index ≥ toInt32 values.length then (positionOutOfBounds, [])
        else (.ok, values.getD index.toNat [])) := by
  intro index
  obtain ⟨text, htext, rfl⟩ := Option.map_eq_some_iff.mp hstore
  have hsome : E.getAllOfHeaderAsString headers.map (E.lowerCaseString key) = some text := by
    rw [hheaders.getAllOfHeaderAsString_eq, htext]
  have hpieces : E.splitToken text "," false true = pieces ',' text :=
    hstring.splitToken_eq text _ true
  unfold getHeaderValue
  simp only [hsome, hpieces]
  change Outcome.catchAs _ (if index < 0 ∨ index ≥ toInt32 (pieces ',' text).length then _ else _) =
    _
  split
  · rfl
  · next hrange =>
    -- the check against the size as an `int` is enough for the vector
    have hlt : index.toNat < (pieces ',' text).length := by
      have := (toInt32_size_le (pieces ',' text).length).1
      omega
    have hvector : vectorAt (pieces ',' text) index.toNat =
        .returned ((pieces ',' text).getD index.toNat []) := by
      rw [vectorAt, List.getD_eq_getElem?_getD, List.getElem?_eq_getElem hlt, Option.getD_some]
    rw [hvector]
    rfl

/-- Below `2 ^ 31` elements the indexing is exact. -/
theorem getHeaderValue_of_length (hstring : E.StringLaws) (hheaders : E.HeaderLaws)
    (hstore : E.headerStore headers.map (E.lowerCaseString key) = some values)
    (hlength : values.length < 2 ^ 31) (hlow : -2 ^ 31 ≤ position) :
    getHeaderValue E headers key position =
      .returned (match atPosition values position with
        | some value => (.ok, value)
        | none => (positionOutOfBounds, [])) := by
  -- the size is below `2 ^ 31`, where neither the cast nor the sum wraps
  have hsize : toInt32 values.length = values.length := toInt32_of_bounds (by omega) (by omega)
  have hindex : (if position < 0 then addSize position values.length else position) =
      if position < 0 then position + values.length else position := by
    split
    · next hneg => exact addSize_of_neg hlow hneg hlength
    · rfl
  rw [getHeaderValue_of_some hstring hheaders hstore, hindex, hsize]
  -- the two checks of the index say that the position is one of the list
  cases helement : atPosition values position with
  | none =>
    rw [atPosition_eq_none_iff] at helement
    rw [if_pos]
    split <;> omega
  | some value =>
    have hrange : ¬ (position < -(values.length : ℤ) ∨ (values.length : ℤ) ≤ position) := by
      rw [← atPosition_eq_none_iff, helement]
      simp
    by_cases hneg : position < 0
    · rw [atPosition_of_neg hneg (by omega)] at helement
      rw [if_pos hneg, if_neg (by omega), List.getD_eq_getElem?_getD, helement, Option.getD_some]
    · rw [atPosition_of_nonneg (by omega)] at helement
      rw [if_neg hneg, if_neg (by omega), List.getD_eq_getElem?_getD, helement, Option.getD_some]

/-- A header with `n < 2 ^ 31` elements is read at every 32-bit position: as element `p` for
`0 ≤ p < n`, as element `n + p` for `-n ≤ p < 0`, and with an error everywhere else. The sum of a
negative position and the size is exact. -/
theorem getHeaderValue_indexing (hstring : E.StringLaws) (hheaders : E.HeaderLaws)
    (hstore : E.headerStore headers.map (E.lowerCaseString key) = some values)
    (hlength : values.length < 2 ^ 31) (hlow : -2 ^ 31 ≤ position) (hhigh : position < 2 ^ 31) :
    (∀ h : 0 ≤ position ∧ position < values.length,
      getHeaderValue E headers key position =
        .returned (.ok, values.get ⟨position.toNat, by omega⟩)) ∧
    (∀ h : -(values.length : ℤ) ≤ position ∧ position < 0,
      getHeaderValue E headers key position =
        .returned (.ok, values.get ⟨(values.length + position).toNat, by omega⟩)) ∧
    (position < -(values.length : ℤ) ∨ (values.length : ℤ) ≤ position →
      getHeaderValue E headers key position = .returned (positionOutOfBounds, [])) ∧
    (position < 0 → addSize position values.length = position + values.length) := by
  have hread := getHeaderValue_of_length hstring hheaders hstore hlength hlow
  refine ⟨fun h => ?_, fun h => ?_, fun h => ?_, fun hneg => addSize_of_neg hlow hneg hlength⟩
  · rw [hread, atPosition_of_nonneg h.1, List.getElem?_eq_getElem (by omega)]
    rfl
  · rw [hread, atPosition_of_neg h.2 h.1, List.getElem?_eq_getElem (by omega)]
    simp only [Int.add_comm]
    rfl
  · rw [hread, atPosition_eq_none_iff.mpr h]

end Reading

/-- The first of three elements, read from the end of the header `x: a, b,,c`. -/
theorem getHeaderValue_indexing_reference :
    let headers : RequestOrResponseHeaderMap (List (Str × Str)) :=
      ⟨true, [("x".toList, "a, b,,c".toList)]⟩
    getHeaderValue Reference.envoy headers "X" (-3) = .returned (.ok, "a".toList) := by
  intro headers
  have hstore : Reference.envoy.headerStore headers.map (Reference.envoy.lowerCaseString "X") =
      some ["a".toList, "b".toList, "c".toList] := by decide +kernel
  exact (@getHeaderValue_indexing _ _ Reference.envoy headers "X" (-3) _ Reference.stringLaws
    Reference.headerLaws hstore (by decide) (by decide) (by decide)).2.1 (by decide)

end DynamicFunctionProcessor

/-! ## Writing -/

namespace Envoy

section Writing

variable {E : Envoy M I}

/-- `setCopy` replaces the list of the name. -/
theorem headerStore_setCopy (hheaders : E.HeaderLaws) (map : M) (key value : Str) :
    E.headerStore (E.setCopy map key value) =
      (E.headerStore map).set key (pieces ',' value) := by
  rw [ListStore.eq_set_iff]
  constructor
  · have hget : E.get (E.setCopy map key value) key = [value] := by
      rw [hheaders.get_setCopy, if_pos rfl]
    rw [headerStore_of_ne_nil (by simp [hget]), hget]
    simp
  · intro other hother
    rw [headerStore, headerStore, hheaders.get_setCopy, if_neg hother]

/-- The pieces of an entry after data was appended to it. -/
theorem pieces_appendToHeader (data value : Str) :
    pieces ',' (appendToHeader ",".toList data value) = pieces ',' value ++ pieces ',' data := by
  unfold appendToHeader
  split
  · next hdata => simp [hdata]
  · split
    · next hvalue => simp [hvalue]
    · have hcomma : value ++ ",".toList ++ data = value ++ ',' :: data := by simp
      rw [hcomma, pieces_append_cons]

/-- The pieces of the entries of a name after the first. -/
def laterPieces (E : Envoy M I) (map : M) (name : Str) : List Str :=
  (E.get map name).tail.flatMap (pieces ',')

/-- The list of a name that is present begins with the pieces of its first entry. -/
theorem headerStore_eq_head {map : M} {name : Str} (h : E.get map name ≠ []) :
    E.headerStore map name =
      some (pieces ',' ((E.get map name).headD []) ++ E.laterPieces map name) := by
  obtain ⟨value, rest, hcons⟩ := List.exists_cons_of_ne_nil h
  rw [headerStore_of_ne_nil h, laterPieces, hcons]
  rfl

/-- Appending a value to a name other than `cookie` puts its pieces after those of the first
entry. -/
theorem get_appendCopy_head (hheaders : E.HeaderLaws) (map : M) {name : Str}
    (hcookie : name ≠ "cookie".toList) (value : Str) :
    let map' := E.appendCopy map name value
    pieces ',' ((E.get map' name).headD []) =
        pieces ',' ((E.get map name).headD []) ++ pieces ',' value ∧
      (E.get map' name).tail = (E.get map name).tail ∧ E.get map' name ≠ [] := by
  intro map'
  have hget : E.get map' name = appendToEntries ",".toList value (E.get map name) := by
    rw [hheaders.get_appendCopy, if_pos rfl, delimiterByHeader, if_neg hcookie]
  rw [hget]
  cases E.get map name with
  | nil => exact ⟨rfl, rfl, by simp [appendToEntries]⟩
  | cons first rest => exact ⟨pieces_appendToHeader value first, rfl, by simp [appendToEntries]⟩

end Writing

end Envoy

namespace AppendHeaderProcessor

section InTurn

variable {E : Envoy M I} {eval : Evaluator M I} {key : Str}
  {headerVals : List DynamicFunctionProcessor} {st st' : StreamState M I} {values : List Str}

theorem InTurn.ne_nil (h : InTurn E eval key headerVals st values st') (hne : headerVals ≠ []) :
    values ≠ [] := by
  cases h with
  | nil => exact (hne rfl).elim
  | cons _ _ => simp

/-- Values appended in turn put their pieces after those of the first entry. -/
theorem InTurn.get_head (hheaders : E.HeaderLaws)
    (hcookie : E.lowerCaseString key ≠ "cookie".toList)
    (h : InTurn E eval key headerVals st values st') :
    let name := E.lowerCaseString key
    pieces ',' ((E.get st'.headers.map name).headD []) =
        pieces ',' ((E.get st.headers.map name).headD []) ++ values.flatMap (pieces ',') ∧
      (E.get st'.headers.map name).tail = (E.get st.headers.map name).tail ∧
      (values ≠ [] ∨ E.get st.headers.map name ≠ [] → E.get st'.headers.map name ≠ []) := by
  intro name
  -- by induction on the values: each goes to the end of the first entry, and the first of all
  -- makes that entry if there is none
  induction h with
  | nil => exact ⟨by simp, rfl, fun h => h.resolve_left (by simp)⟩
  | cons hvalue _ ih =>
    obtain ⟨hhead, htail, hne⟩ := E.get_appendCopy_head hheaders _ hcookie _
    obtain ⟨ihHead, ihTail, ihNe⟩ := ih
    refine ⟨?_, ihTail.trans htail, fun _ => ihNe (Or.inr hne)⟩
    rw [ihHead, List.flatMap_cons, ← List.append_assoc]
    exact congrArg (· ++ _) hhead

/-- Appending in turn does not change other names. -/
theorem InTurn.get_other (hheaders : E.HeaderLaws)
    (h : InTurn E eval key headerVals st values st') {other : Str}
    (hother : other ≠ E.lowerCaseString key) :
    E.get st'.headers.map other = E.get st.headers.map other := by
  induction h with
  | nil => rfl
  | cons _ _ ih =>
    refine ih.trans ?_
    change E.get (E.appendCopy _ _ _) other = _
    rw [hheaders.get_appendCopy, if_neg hother]

/-- Values appended in turn extend the list of the name exactly if their pieces commute with those
of the entries after the first. -/
theorem InTurn.headerStore_iff (hheaders : E.HeaderLaws)
    (hcookie : E.lowerCaseString key ≠ "cookie".toList)
    (h : InTurn E eval key headerVals st values st') (hvalues : values ≠ []) :
    let name := E.lowerCaseString key
    let appended := values.flatMap (pieces ',')
    E.headerStore st'.headers.map = (E.headerStore st.headers.map).append name appended ↔
      appended ++ E.laterPieces st.headers.map name =
        E.laterPieces st.headers.map name ++ appended := by
  intro name appended
  obtain ⟨hhead, htail, hne⟩ := h.get_head hheaders hcookie
  -- the pieces of the values end up between those of the first entry and the later ones
  have hlater : E.laterPieces st'.headers.map name = E.laterPieces st.headers.map name := by
    rw [Envoy.laterPieces, htail, ← Envoy.laterPieces]
  have hold : (E.headerStore st.headers.map name).getD [] =
      pieces ',' ((E.get st.headers.map name).headD []) ++ E.laterPieces st.headers.map name := by
    rw [Envoy.getD_headerStore, Envoy.laterPieces]
    cases E.get st.headers.map name <;> simp
  have hframe : ∀ other, other ≠ name →
      E.headerStore st'.headers.map other = E.headerStore st.headers.map other := by
    intro other hother
    rw [Envoy.headerStore, Envoy.headerStore, h.get_other hheaders hother]
  -- the pieces of the first entry are in front in both lists and cancel
  rw [ListStore.eq_append_iff, Envoy.headerStore_eq_head (hne (Or.inl hvalues)), hhead, hlater,
    hold, Option.some.injEq, List.append_assoc, List.append_assoc, List.append_cancel_left_eq]
  exact and_iff_left hframe

end InTurn

end AppendHeaderProcessor

/-! ## Writing and reading back -/

/-- In a state, every call of `hdr` with a position in the range of a list reads the element there,
in any letter case of the name. -/
def ReadsBack (E : Envoy M I) (st : StreamState M I) (name : Str) (values : List Str) : Prop :=
  ∀ key position value, E.lowerCaseString key = name → -2 ^ 31 ≤ position → position < 2 ^ 31 →
    atPosition values position = some value →
    DynamicFunctionProcessor.getHeaderValue E st.headers key position = .returned (.ok, value) ∧
    ∀ (f : DynamicFunctionProcessor) (text : Str), f.functionType = .getHdr →
      f.arguments E = [key, text] → stoi text = .returned position →
      DynamicFunctionProcessor.executeOperation E f st.headers st.streamInfo =
        .returned (.ok, value)

/-- A state holds a store, and the list of a name in it is read back. -/
structure FollowsStore (E : Envoy M I) (st : StreamState M I) (store : ListStore Str Str)
    (name : Str) : Prop where
  /-- The headers are the store. -/
  headerStore_eq : E.headerStore st.headers.map = store
  /-- `hdr` reads the list of the name. -/
  readsBack : ReadsBack E st name ((store name).getD [])

section FollowsStore

variable {E : Envoy M I} {st : StreamState M I} {name : Str} {values : List Str}

/-- The list of a name is read back exactly if its length fits an `int`. -/
theorem readsBack_iff (hstring : E.StringLaws) (hheaders : E.HeaderLaws) {key : Str}
    (hkey : E.lowerCaseString key = name)
    (hstore : E.headerStore st.headers.map name = some values) :
    ReadsBack E st name values ↔ values.length < 2 ^ 31 := by
  constructor
  · intro hreads
    by_contra hlong
    -- the greatest `int` is a position of the list, and rejected
    have hrange : atPosition values (2 ^ 31 - 1) ≠ none := by
      rw [Ne, atPosition_eq_none_iff]
      omega
    obtain ⟨value, hvalue⟩ := Option.ne_none_iff_exists'.mp hrange
    have hread := (hreads key (2 ^ 31 - 1) value hkey (by decide) (by decide) hvalue).1
    rw [DynamicFunctionProcessor.getHeaderValue_of_some hstring hheaders (hkey ▸ hstore)] at hread
    have hsize := (toInt32_size_le values.length).2
    have hpositive : ¬ (2 ^ 31 - 1 : ℤ) < 0 := by decide
    rw [if_neg hpositive, if_pos (Or.inr (by omega))] at hread
    cases hread
  · intro hlength key position value hkey hlow _ hvalue
    -- the call of `hdr` reads the position its text stands for
    have hread : DynamicFunctionProcessor.getHeaderValue E st.headers key position =
        .returned (.ok, value) := by
      rw [DynamicFunctionProcessor.getHeaderValue_of_length hstring hheaders (hkey ▸ hstore)
        hlength hlow, hvalue]
    refine ⟨hread, fun f text htype harguments hposition => ?_⟩
    rw [DynamicFunctionProcessor.executeOperation_hdr_position htype harguments, hposition]
    exact hread

/-- A state follows a store exactly if it holds it and the list of the name is short enough. -/
theorem followsStore_iff (hstring : E.StringLaws) (hheaders : E.HeaderLaws) {key : Str}
    {store : ListStore Str Str} (hstore : store (E.lowerCaseString key) = some values) :
    FollowsStore E st store (E.lowerCaseString key) ↔
      E.headerStore st.headers.map = store ∧ values.length < 2 ^ 31 := by
  have hgetD : (store (E.lowerCaseString key)).getD [] = values := by rw [hstore, Option.getD_some]
  constructor
  · intro h
    have hreads := h.readsBack
    rw [hgetD, readsBack_iff hstring hheaders rfl (h.headerStore_eq ▸ hstore)] at hreads
    exact ⟨h.headerStore_eq, hreads⟩
  · rintro ⟨heq, hlength⟩
    refine ⟨heq, ?_⟩
    rw [hgetD, readsBack_iff hstring hheaders rfl (heq ▸ hstore)]
    exact hlength

end FollowsStore

/-- The values of a parsed `append-header` are not empty. -/
theorem headerVals_ne_nil_of_parsed {E : Envoy M I} {isRequest : Bool} {p : AppendHeaderProcessor}
    (h : HttpHeaderRewriteFilter.Parsed E isRequest (.appendHeader p)) : p.headerVals ≠ [] := by
  obtain ⟨declared, op, rest, h⟩ := h
  have hline := HttpHeaderRewriteFilter.parseProcessor_eq_accepted_iff.mp h
  cases hline with
  | appendHeader _ hvalues _ hforall _ =>
    rintro (rfl : _ = [])
    cases hforall
    exact hvalues rfl

/-- With a true condition, `set-header` makes the list of its name the pieces of its value, and this
is read back if it is short enough for an `int`. An `append-header` extends the list of its name by
the pieces of its values, and this is read back, exactly if these pieces commute with those of the
entries of the name after the first and the new list is short enough. Other names keep their
lists. -/
theorem headers_followStore_iff {E : Envoy M I} (hstring : E.StringLaws) (hheaders : E.HeaderLaws)
    (maps : SetBoolProcessorMaps) (st : StreamState M I) :
    (∀ (p : SetHeaderProcessor) key value,
      evaluateCondition (DynamicFunctionProcessor.executeOperation E) maps p.conditionProcessor
        st = .returned (.ok, true) →
      DynamicFunctionProcessor.executeOperation E p.headerKey st.headers st.streamInfo =
        .returned (.ok, key) →
      DynamicFunctionProcessor.executeOperation E p.headerVal st.headers st.streamInfo =
        .returned (.ok, value) →
      ∃ st', p.executeOperation E (DynamicFunctionProcessor.executeOperation E) maps st =
          .returned (.ok, st') ∧
        (FollowsStore E st' ((E.headerStore st.headers.map).set (E.lowerCaseString key)
            (pieces ',' value)) (E.lowerCaseString key) ↔ (pieces ',' value).length < 2 ^ 31) ∧
        ∀ other, other ≠ E.lowerCaseString key →
          E.headerStore st'.headers.map other = E.headerStore st.headers.map other) ∧
    ∀ isRequest (p : AppendHeaderProcessor) key st',
      HttpHeaderRewriteFilter.Parsed E isRequest (.appendHeader p) →
      evaluateCondition (DynamicFunctionProcessor.executeOperation E) maps p.conditionProcessor
        st = .returned (.ok, true) →
      DynamicFunctionProcessor.executeOperation E p.headerKey st.headers st.streamInfo =
        .returned (.ok, key) →
      E.lowerCaseString key ≠ "cookie".toList →
      p.executeOperation E (DynamicFunctionProcessor.executeOperation E) maps st =
        .returned (.ok, st') →
      ∃ values, AppendHeaderProcessor.InTurn E (DynamicFunctionProcessor.executeOperation E) key
          p.headerVals st values st' ∧
        (FollowsStore E st' ((E.headerStore st.headers.map).append (E.lowerCaseString key)
            (values.flatMap (pieces ','))) (E.lowerCaseString key) ↔
          values.flatMap (pieces ',') ++
              E.laterPieces st.headers.map (E.lowerCaseString key) =
            E.laterPieces st.headers.map (E.lowerCaseString key) ++
              values.flatMap (pieces ',') ∧
          (((E.headerStore st.headers.map (E.lowerCaseString key)).getD [] ++
            values.flatMap (pieces ',')).length < 2 ^ 31)) ∧
        ∀ other, other ≠ E.lowerCaseString key →
          E.headerStore st'.headers.map other = E.headerStore st.headers.map other := by
  constructor
  · intro p key value hcondition hkey hvalue
    have heffect : HeaderProcessor.Effect E (DynamicFunctionProcessor.executeOperation E) st
        (.setHeader p) _ := .setHeader hkey hvalue
    -- what `set-header` writes is the list of the store in any case, so that only its length
    -- matters
    have hstore := E.headerStore_setCopy hheaders st.headers.map (E.lowerCaseString key) value
    refine ⟨_, HeaderProcessor.executeOperation_of_effect hcondition heffect, ?_,
      (ListStore.eq_set_iff.mp hstore).2⟩
    rw [followsStore_iff hstring hheaders (ListStore.set_self _ _ _)]
    exact and_iff_right hstore
  · intro isRequest p key st' hparsed hcondition hkey hcookie hexecute
    have heffect := HeaderProcessor.effect_of_ok (p := .appendHeader p) hcondition hexecute
    cases heffect with
    | appendHeader hkey' hin =>
      obtain ⟨-, rfl⟩ := Outcome.pair_inj (hkey.symm.trans hkey')
      -- a parsed `append-header` has a value, so that the name is there afterwards
      have hvalues := hin.ne_nil (headerVals_ne_nil_of_parsed hparsed)
      refine ⟨_, hin, ?_, fun other hother => ?_⟩
      · rw [followsStore_iff hstring hheaders (ListStore.append_self _ _ _)]
        exact and_congr (hin.headerStore_iff hheaders hcookie hvalues) Iff.rfl
      · rw [Envoy.headerStore, Envoy.headerStore, hin.get_other hheaders hother]

/-- `append-header k b,c` on the header `k: a` follows the store. -/
theorem headers_followStore_single :
    let side := Processor.ofSide true
    let p : AppendHeaderProcessor :=
      ⟨side, ⟨side, .static, "k".toList⟩, [⟨side, .static, "b,c".toList⟩], none⟩
    let st : StreamState (List (Str × Str)) _ := ⟨⟨true, [("k".toList, "a".toList)]⟩, none⟩
    ∃ st', p.executeOperation Reference.envoy
        (DynamicFunctionProcessor.executeOperation Reference.envoy) (fun _ => []) st =
        .returned (.ok, st') ∧
      FollowsStore Reference.envoy st' ((Reference.envoy.headerStore st.headers.map).append
        "k".toList ["b".toList, "c".toList]) "k".toList := by
  intro side p st
  have hparsed : HttpHeaderRewriteFilter.Parsed Reference.envoy true (.appendHeader p) :=
    ⟨fun _ => false, "append-header", ["k", "b,c"], by decide +kernel⟩
  obtain ⟨st', hexecute⟩ : ∃ st', p.executeOperation Reference.envoy
      (DynamicFunctionProcessor.executeOperation Reference.envoy) (fun _ => []) st =
      .returned (.ok, st') := ⟨_, rfl⟩
  obtain ⟨values, hin, hfollows, -⟩ := (headers_followStore_iff Reference.stringLaws
    Reference.headerLaws (fun _ => []) st).2 true p "k".toList _ hparsed rfl rfl (by decide)
    hexecute
  obtain rfl : values = ["b,c".toList] := by
    cases hin with
    | cons hvalue hrest =>
      obtain ⟨-, rfl⟩ := Outcome.pair_inj hvalue
      cases hrest
      rfl
  exact ⟨_, hexecute, hfollows.mpr (by decide +kernel)⟩

/-- `append-header k c` on the two headers `k: a` and `k: b` makes the list `a, c, b`. -/
theorem not_headers_followStore_duplicate :
    let side := Processor.ofSide true
    let p : AppendHeaderProcessor :=
      ⟨side, ⟨side, .static, "k".toList⟩, [⟨side, .static, "c".toList⟩], none⟩
    let st : StreamState (List (Str × Str)) _ :=
      ⟨⟨true, [("k".toList, "a".toList), ("k".toList, "b".toList)]⟩, none⟩
    HttpHeaderRewriteFilter.Parsed Reference.envoy true (.appendHeader p) ∧
    ∃ st', p.executeOperation Reference.envoy
        (DynamicFunctionProcessor.executeOperation Reference.envoy) (fun _ => []) st =
        .returned (.ok, st') ∧
      Reference.envoy.headerStore st'.headers.map "k".toList =
        some ["a".toList, "c".toList, "b".toList] ∧
      ¬ FollowsStore Reference.envoy st' ((Reference.envoy.headerStore st.headers.map).append
        "k".toList ["c".toList]) "k".toList := by
  intro side p st
  refine ⟨⟨fun _ => false, "append-header", ["k", "c"], by decide +kernel⟩, _, rfl,
    by decide +kernel, fun hfollows => ?_⟩
  have heq := congrFun hfollows.headerStore_eq "k".toList
  exact absurd heq (by decide +kernel)

end HeaderRewrite
