import HeaderRewrite.Construction.RoundTrip
import HeaderRewrite.Cxx.Alphabet
import HeaderRewrite.Execution.Transformation

/-!
# Where characters come from

What a filter writes is put together from the texts of its configuration and of the stream. Joining
the entries of a header brings in commas, appending to a header brings in the delimiters of headers,
setting the path makes an entry named `:path`, and names are turned to lower case. A set that is
closed under this and holds the characters of the configuration and of a stream holds those of
everything that is left in the stream. No line breaks are written, for instance, unless there were
some before.

## Main definitions

* `Alphabet`: the sets of characters that are closed in this sense;
* `Store.Over`: the contents over a set of characters.

## Main results

* `HeaderProcessor.over_transform`: an operation;
* `HttpHeaderRewriteFilter.exchange_over`: a request and its response.
-/

namespace HeaderRewrite

open Cxx Utility Envoy

/-- A set of characters has those that a filter adds to texts, and the lower-case letters of its
letters. -/
structure Alphabet (C : Set Char) : Prop where
  /-- The delimiters of headers, and the name of the path. -/
  added : ∀ c ∈ ",; :path".toList, c ∈ C
  /-- Names of headers are turned to lower case. -/
  toLower : ∀ c ∈ C, c.toLower ∈ C

/-- The names and the values of headers are over a set of characters. -/
def EntriesOver (C : Set Char) (entries : Str → List Str) : Prop :=
  ∀ name, ∀ value ∈ entries name, Cxx.Over C name ∧ Cxx.Over C value

/-- The keys and the texts of metadata are over a set of characters. -/
def MetadataOver (C : Set Char) (metadata : Str → Str) : Prop :=
  ∀ key, metadata key ≠ [] → Cxx.Over C key ∧ Cxx.Over C (metadata key)

/-- The contents are over a set of characters. -/
structure Store.Over (C : Set Char) (S : Store) : Prop where
  /-- The names and the values of the headers are. -/
  entries : EntriesOver C S.entries
  /-- The keys and the texts of the metadata are. -/
  metadata : MetadataOver C S.metadata

section Contents

variable {C : Set Char} {S : Store} {query : Str → List (Str × Str)}

theorem Alphabet.comma (hC : Alphabet C) : ',' ∈ C := hC.added ',' (by decide)

theorem Alphabet.path (hC : Alphabet C) : Cxx.Over C ":path" := by
  intro c hc
  have hsubset : ":path".toList ⊆ ",; :path".toList := by decide
  exact hC.added c (hsubset hc)

theorem Alphabet.delimiter (hC : Alphabet C) (name : Str) :
    Cxx.Over C (delimiterByHeader name) := by
  intro c hc
  have hsubset : delimiterByHeader name ⊆ ",; :path".toList := by
    rw [delimiterByHeader]
    split <;> decide
  exact hC.added c (hsubset hc)

/-- Contents with other entries of a name. -/
theorem Store.Over.setEntries (h : S.Over C) {name : Str} (hname : Cxx.Over C name)
    {values : List Str} (hvalues : ∀ value ∈ values, Cxx.Over C value) :
    (S.setEntries name values).Over C := by
  refine ⟨fun other value hvalue => ?_, h.metadata⟩
  simp only [Store.setEntries, Function.update_apply] at hvalue
  split at hvalue
  · next heq =>
    rw [heq]
    exact ⟨hname, hvalues value hvalue⟩
  · exact h.entries other value hvalue

/-- Contents with another text under a key. -/
theorem Store.Over.setMetadata (h : S.Over C) {key value : Str} (hkey : Cxx.Over C key)
    (hvalue : Cxx.Over C value) : (S.setMetadata key value).Over C := by
  refine ⟨h.entries, fun other hne => ?_⟩
  simp only [Store.setMetadata, Function.update_apply] at hne ⊢
  split
  · next heq =>
    rw [heq]
    exact ⟨hkey, hvalue⟩
  · next hother =>
    rw [if_neg hother] at hne
    exact h.metadata other hne

/-- An element of a header is a piece of its joined entries, or empty. -/
theorem Store.Over.header (h : S.Over C) (hC : Alphabet C) {key value : Str} {position : ℤ}
    (hvalue : S.header key position = some value) : Cxx.Over C value := by
  rw [Store.header] at hvalue
  cases hentries : S.entries (key.map Char.toLower) with
  | nil =>
    rw [hentries] at hvalue
    rw [← Option.some.inj hvalue]
    exact .nil
  | cons entry entries =>
    rw [hentries] at hvalue
    dsimp only [joinEntries] at hvalue
    have htext : Cxx.Over C ([','].intercalate (entry :: entries)) := by
      rw [← hentries]
      exact .intercalate hC.comma fun t ht => (h.entries _ t ht).2
    simp only [elementAt] at hvalue
    generalize (if position < 0 then _ else position) = index at hvalue
    split at hvalue
    · cases hvalue
    · obtain rfl := Option.some.inj hvalue
      rw [List.getD_eq_getElem?_getD]
      cases hpiece : (pieces ',' ([','].intercalate (entry :: entries)))[index.toNat]? with
      | none => exact .nil
      | some piece => exact htext.piece (List.mem_of_getElem? hpiece)

/-- The value of an operand is over the characters of its argument and of the contents. -/
theorem DynamicFunctionProcessor.over_value
    (hquery : ∀ path, ∀ parameter ∈ query path, parameter.2 ⊆ path) (hC : Alphabet C)
    (h : S.Over C) {d : DynamicFunctionProcessor} (hd : Cxx.Over C d.functionArgument) {value : Str}
    (hvalue : d.value query S = some value) : Cxx.Over C value := by
  unfold DynamicFunctionProcessor.value at hvalue
  split at hvalue
  · exact h.header hC hvalue
  · split at hvalue
    · exact h.header hC hvalue
    · cases hvalue
  · next param _ _ =>
    obtain ⟨path, hpath, rfl⟩ := Option.map_eq_some_iff.mp hvalue
    cases hlookup : (query path).lookup param with
    | none => exact .nil
    | some text =>
      obtain ⟨before, after, hsplit, -⟩ := List.lookup_eq_some_iff.mp hlookup
      have hmem : (param, text) ∈ query path := by
        simp [hsplit]
      exact (h.entries _ path (List.mem_of_mem_head? hpath)).2.subset (hquery path _ hmem)
  · obtain rfl := Option.some.inj hvalue
    by_cases hnil : S.metadata d.functionArgument = []
    · rw [hnil]
      exact .nil
    · exact (h.metadata _ hnil).2
  · obtain rfl := Option.some.inj hvalue
    exact hd
  · cases hvalue

end Contents

/-! ## Operations -/

section Operations

variable {C : Set Char} {S : Store} {query : Str → List (Str × Str)} {maps : SetBoolProcessorMaps}
  (hquery : ∀ path, ∀ parameter ∈ query path, parameter.2 ⊆ path) (hC : Alphabet C)

include hC

/-- Data that is appended to the entries of a header. -/
theorem over_appendToEntries {name data : Str} (hdata : Cxx.Over C data) {values : List Str}
    (hvalues : ∀ value ∈ values, Cxx.Over C value) :
    ∀ value ∈ appendToEntries (delimiterByHeader name) data values, Cxx.Over C value := by
  cases values with
  | nil =>
    rw [appendToEntries, List.forall_mem_singleton]
    exact hdata
  | cons first rest =>
    obtain ⟨hfirst, hrest⟩ := List.forall_mem_cons.mp hvalues
    rw [appendToEntries, List.forall_mem_cons]
    refine ⟨?_, hrest⟩
    rw [appendToHeader]
    split
    · exact hfirst
    · split
      · exact hdata
      · exact (hfirst.append (hC.delimiter name)).append hdata

include hquery

/-- Values are appended in turn, and each can be read by the ones after it. -/
theorem over_appendAll {name : Str} (hname : Cxx.Over C name)
    {headerVals : List DynamicFunctionProcessor}
    (hvals : ∀ d ∈ headerVals, Cxx.Over C d.functionArgument) (h : S.Over C) :
    (appendAll query name headerVals S).2.Over C := by
  induction headerVals generalizing S with
  | nil => exact h
  | cons d headerVals ih =>
    obtain ⟨hd, hrest⟩ := List.forall_mem_cons.mp hvals
    rw [appendAll]
    cases hvalue : d.value query S with
    | none => exact h
    | some value =>
      have hdata : Cxx.Over C value := d.over_value hquery hC h hd hvalue
      apply ih hrest
      apply h.setEntries hname
      exact over_appendToEntries hC hdata fun value hvalue => (h.entries name value hvalue).2

/-- An operation leaves contents over the characters of its operands and of those it found. -/
theorem HeaderProcessor.over_perform {p : HeaderProcessor}
    (hp : ∀ d ∈ p.operands, Cxx.Over C d.functionArgument) (h : S.Over C) :
    (p.perform query S).2.Over C := by
  have hvalue : ∀ d ∈ p.operands, ∀ value, d.value query S = some value → Cxx.Over C value :=
    fun d hd value => d.over_value hquery hC h (hp d hd)
  cases p with
  | setHeader p =>
    rw [perform]
    split
    · next key value hkey hval =>
      have hname := hvalue p.headerKey (by simp [operands]) key hkey
      apply h.setEntries (hname.map hC.toLower)
      rw [List.forall_mem_singleton]
      exact hvalue p.headerVal (by simp [operands]) value hval
    · exact h
  | appendHeader p =>
    rw [perform]
    cases hkey : p.headerKey.value query S with
    | none => exact h
    | some key =>
      have hname := hvalue p.headerKey (by simp [operands]) key hkey
      apply over_appendAll hquery hC (hname.map hC.toLower) _ h
      exact fun d hd => hp d (by simp [operands, hd])
  | setPath p =>
    rw [perform]
    apply h.setEntries hC.path
    rw [List.forall_mem_singleton]
    apply Over.append
    · cases hpath : p.requestPath.value query S with
      | none => exact .nil
      | some path => exact hvalue p.requestPath (by simp [operands]) path hpath
    -- the query string is part of the old path
    · rw [SetPathProcessor.queryString_eq_dropWhile]
      cases hentries : S.entries ":path" with
      | nil => exact .nil
      | cons path paths =>
        have hmem : path ∈ S.entries ":path" := hentries ▸ List.mem_cons_self
        exact (h.entries ":path" path hmem).2.subset (List.dropWhile_sublist _).subset
  | setDynamicMetadata p =>
    rw [perform]
    split
    · next key value hkey hval =>
      split
      · exact h
      · apply h.setMetadata
        · exact hvalue p.metadataKey (by simp [operands]) key hkey
        · exact hvalue p.metadataValue (by simp [operands]) value hval
    · exact h

theorem HeaderProcessor.over_transform {p : HeaderProcessor}
    (hp : ∀ d ∈ p.operands, Cxx.Over C d.functionArgument) (h : S.Over C) :
    (p.transform query maps S).2.Over C := by
  rw [HeaderProcessor.transform]
  split
  · exact h
  · exact h
  · exact over_perform hquery hC hp h

/-- What a side of a filter leaves is over the characters of its operands and of what it found. -/
theorem HttpHeaderRewriteFilter.over_transform {f : HttpHeaderRewriteFilter} {isRequest : Bool}
    (hf : f.error = false → ∀ p ∈ f.headerProcessors isRequest, ∀ d ∈ p.operands,
      Cxx.Over C d.functionArgument) (h : S.Over C) :
    (f.transform query isRequest S).Over C := by
  rw [HttpHeaderRewriteFilter.transform]
  split
  · exact h
  · next herror =>
    apply transformAll_invariant _ h
    intro p hp S hS
    exact HeaderProcessor.over_transform hquery hC (hf (by simpa using herror) p hp) hS

end Operations

/-! ## Configurations -/

section Configurations

variable {M I : Type} {E : Envoy M I} {C : Set Char}

/-- The operands of an operation are read from words of its line. -/
theorem OperationLine.exists_operand {declared : Str → Bool} {isRequest : Bool}
    {tokens : List Str} {p : HeaderProcessor} (h : OperationLine E declared isRequest tokens p) :
    ∀ d ∈ p.operands, ∃ token ∈ tokens, Operand E isRequest token d := by
  cases h with
  | setHeader hkey hvalue _ =>
    rw [HeaderProcessor.operands, List.forall_mem_cons, List.forall_mem_singleton]
    exact ⟨⟨_, by simp, hkey⟩, ⟨_, by simp, hvalue⟩⟩
  | @appendHeader key values clause headerKey headerVals condition hkey hne hif hvalues _ =>
    rw [HeaderProcessor.operands, List.forall_mem_cons]
    have hvals : ∀ d ∈ headerVals, ∃ token ∈ values, Operand E isRequest token d := by
      clear hkey hne hif
      induction hvalues with
      | nil => simp
      | @cons value d values headerVals hvalue _ ih =>
        rw [List.forall_mem_cons]
        refine ⟨⟨value, List.mem_cons_self, hvalue⟩, fun d hd => ?_⟩
        obtain ⟨token, htoken, hoperand⟩ := ih d hd
        exact ⟨token, List.mem_cons_of_mem _ htoken, hoperand⟩
    refine ⟨⟨key, by simp, hkey⟩, fun d hd => ?_⟩
    obtain ⟨token, htoken, hoperand⟩ := hvals d hd
    exact ⟨token, by simp [htoken], hoperand⟩
  | setPath _ hpath _ =>
    rw [HeaderProcessor.operands, List.forall_mem_singleton]
    exact ⟨_, by simp, hpath⟩
  | setMetadata hkey hvalue _ =>
    rw [HeaderProcessor.operands, List.forall_mem_cons, List.forall_mem_singleton]
    exact ⟨⟨_, by simp, hkey⟩, ⟨_, by simp, hvalue⟩⟩

namespace HttpHeaderRewriteFilter

/-- The arguments of the operands are over the characters of the configuration. -/
theorem over_functionArgument (hstrings : E.StringLaws) {config : Str}
    (hconfig : ∀ c ∈ config, c = '\n' ∨ c ∈ C) {f : HttpHeaderRewriteFilter}
    (hf : construct E config = .returned f) (herror : f.error = false) (isRequest : Bool) :
    ∀ p ∈ f.headerProcessors isRequest, ∀ d ∈ p.operands, Cxx.Over C d.functionArgument := by
  intro p hp d hd
  have hconstructs := accepted_iff_constructs.mp ⟨hf, herror⟩
  rcases hconstructs.exists_line hp with hinit | ⟨before, tokens, after, f', hlines, -, hline, -⟩
  · cases isRequest <;> cases hinit
  · obtain ⟨token, htoken, hoperand⟩ := hline.exists_operand d hd
    have hwords : tokens ∈ readLines ' ' '\n' config := by
      rw [← configLines_eq_readLines hstrings, hlines]
      simp
    apply (over_of_mem_readLines hconfig hwords token htoken).subset
    exact DynamicFunctionProcessor.functionArgument_subset hstrings hoperand

/-- All characters that a request and its response leave in headers and metadata were in the
configuration or in the headers and metadata before, are delimiters of headers or belong to the name
of the path, or are the lower-case letters of such characters. Parameters of the query string are
taken to be parts of the path. -/
theorem exchange_over (hstrings : E.StringLaws) (hheaders : E.HeaderLaws)
    (hmetadata : E.MetadataLaws)
    (hquery : ∀ path, ∀ parameter ∈ E.parseQueryString path, parameter.2 ⊆ path)
    (hC : Alphabet C) {config : Str} (hconfig : ∀ c ∈ config, c = '\n' ∨ c ∈ C)
    {f : HttpHeaderRewriteFilter} (hf : construct E config = .returned f)
    {headers responseHeaders map : M} {streamInfo info : I} {st : StreamState M I}
    (hdecode : decodeHeaders E f headers streamInfo = .returned ⟨⟨true, map⟩, some info⟩)
    (hencode : encodeHeaders E f responseHeaders info = .returned st)
    (hrequest : EntriesOver C (E.get headers)) (hinfo : MetadataOver C (E.metadataStore streamInfo))
    (hresponse : EntriesOver C (E.get responseHeaders)) :
    EntriesOver C (E.get map) ∧ MetadataOver C (E.metadataStore info) ∧ (st.store E).Over C := by
  have hoperands := fun herror => over_functionArgument hstrings hconfig hf herror
  have hfirst := store_of_executeHeaders hstrings hheaders hmetadata
    (sideWellFormed_of_processLines hf) hdecode
  have hsecond := store_of_executeHeaders hstrings hheaders hmetadata
    (sideWellFormed_of_processLines hf) hencode
  have hover : Store.Over C ⟨E.get map, E.metadataStore info⟩ := by
    change (StreamState.store E ⟨⟨true, map⟩, some info⟩).Over C
    rw [hfirst]
    exact over_transform hquery hC (fun herror => hoperands herror true) ⟨hrequest, hinfo⟩
  refine ⟨hover.entries, hover.metadata, ?_⟩
  rw [hsecond]
  exact over_transform hquery hC (fun herror => hoperands herror false) ⟨hresponse, hover.metadata⟩

end HttpHeaderRewriteFilter

end Configurations

/-- The parameters of a query string are parts of the path. -/
theorem Reference.queryParameters_subset (path : Str) :
    ∀ parameter ∈ Reference.queryParameters path, parameter.2 ⊆ path := by
  intro parameter hparameter
  obtain ⟨text, htext, rfl⟩ := List.mem_map.mp hparameter
  intro c hc
  have hmem : c ∈ text := (List.dropWhile_sublist _).subset (List.mem_of_mem_tail hc)
  have hquery := (not_mem_of_mem_splitOnP htext hmem).2
  exact (List.dropWhile_sublist _).subset (List.mem_of_mem_tail hquery)

/-- The characters other than the line feed. -/
theorem alphabet_ne_lineFeed : Alphabet {c | c ≠ '\n'} := by
  refine ⟨over_ne_iff.mpr (by decide), fun c hc => ?_⟩
  change c.toLower ≠ '\n'
  unfold Char.toLower
  split
  -- a lower-case letter is not a control character
  · next hupper =>
    intro heq
    have hval : c.val + 32 = 10 := congrArg Char.val heq
    have hrange : 65 ≤ c.val ∧ c.val ≤ 90 := hupper
    grind
  · exact hc

/-- No line feed is written by a filter that copies a parameter of the query string. -/
theorem HttpHeaderRewriteFilter.exchange_over_lineFeed :
    ∃ f map info st, construct Reference.envoy ("http-request set-header k %[urlp(q)]\n" ++
          "http-response append-header r a b").toList = .returned f ∧
      decodeHeaders Reference.envoy f [(":path".toList, "/?q=1".toList)] [] =
        .returned ⟨⟨true, map⟩, some info⟩ ∧
      encodeHeaders Reference.envoy f [] info = .returned st ∧
      ∀ name, ∀ value ∈ Reference.envoy.get map name, '\n' ∉ name ∧ '\n' ∉ value := by
  obtain ⟨f, hf, htest⟩ := Outcome.exists_of_returnsWith
    (show (construct Reference.envoy ("http-request set-header k %[urlp(q)]\n" ++
        "http-response append-header r a b").toList).returnsWith
      (fun f =>
        (decodeHeaders Reference.envoy f [(":path".toList, "/?q=1".toList)] []).returnsWith
          (fun st => st.streamInfo.any fun info =>
            (encodeHeaders Reference.envoy f [] info).returnsWith fun _ => true)) = true by
      decide +kernel)
  obtain ⟨st, hdecode, hresponse⟩ := Outcome.exists_of_returnsWith htest
  obtain ⟨map, info, rfl⟩ := (onSide_of_executeHeaders hdecode).exists_eq_start
  obtain ⟨st', hencode, -⟩ := Outcome.exists_of_returnsWith hresponse
  have hconfig : ∀ c ∈ ("http-request set-header k %[urlp(q)]\n" ++
      "http-response append-header r a b").toList, c = '\n' ∨ c ∈ {c | c ≠ '\n'} :=
    fun c _ => Decidable.em (c = '\n')
  have hrequest : EntriesOver {c | c ≠ '\n'}
      (Reference.envoy.get [(":path".toList, "/?q=1".toList)]) := by
    intro name value hvalue
    obtain ⟨entry, hentry, rfl⟩ := List.mem_map.mp hvalue
    obtain ⟨hmem, hname⟩ := List.mem_filter.mp hentry
    rw [← of_decide_eq_true hname, List.mem_singleton.mp hmem]
    exact ⟨over_ne_iff.mpr (by decide), over_ne_iff.mpr (by decide)⟩
  obtain ⟨hentries, -, -⟩ := exchange_over Reference.stringLaws Reference.headerLaws
    Reference.metadataLaws Reference.queryParameters_subset alphabet_ne_lineFeed hconfig hf hdecode
    hencode hrequest (fun _ hne => absurd rfl hne) nofun
  refine ⟨f, map, info, st', hf, hdecode, hencode, fun name value hvalue => ?_⟩
  obtain ⟨hname, htext⟩ := hentries name value hvalue
  exact ⟨over_ne_iff.mp hname, over_ne_iff.mp htext⟩

end HeaderRewrite
