import HeaderRewrite.Cxx.Printing
import HeaderRewrite.Execution.Dependence
import HeaderRewrite.Execution.Failure
import HeaderRewrite.Execution.Headers
import HeaderRewrite.Execution.Matcher
import HeaderRewrite.Execution.Safety

/-!
# `hdr` without a position

A call of `hdr` without a position reads the last element of a header. Where the header is present
but has no element, the position is out of range and the call fails, and with it the operation that
evaluates it.

## Main definitions

* `DynamicFunctionProcessor.ReadsLast`, `DynamicFunctionProcessor.HasLast`: the header is absent or
  has a last element;
* `DynamicFunctionProcessor.HasText`: the header is present;
* `HeaderProcessor.IsPositionless`: an operation uses only literals and such calls;
* `HeaderProcessor.Unhindered`: nothing keeps such an operation from succeeding.

## Main results

* `HeaderProcessor.Unhindered.exists_ok`, `HeaderProcessor.unhindered_of_ok`: when an operation
  with such calls succeeds;
* `HttpHeaderRewriteFilter.positionless_iff`: when a call without a position succeeds, and when an
  operation in a run does.
-/

namespace HeaderRewrite

open Cxx Utility HttpHeaderRewriteFilter

variable {M I : Type}

/-! ## The last element -/

namespace DynamicFunctionProcessor

/-- A header is absent, or has elements of which the last is at the position computed for `-1`. Its
number of elements is converted to an `int` on the way. -/
def ReadsLast (E : Envoy M I) (map : M) (key : Str) : Prop :=
  ∀ values, E.headerStore map (E.lowerCaseString key) = some values →
    0 < toInt32 values.length ∧
      values[(toInt32 values.length - 1).toNat]? = values.getLast?

/-- A header with at least one element, and fewer than `2 ^ 31`, is read. -/
theorem readsLast_of_length {E : Envoy M I} {map : M} {key : Str}
    (h : ∀ values, E.headerStore map (E.lowerCaseString key) = some values →
      0 < values.length ∧ values.length < 2 ^ 31) : ReadsLast E map key := by
  intro values hvalues
  obtain ⟨hpositive, hlength⟩ := h values hvalues
  have hsize : toInt32 values.length = values.length := toInt32_of_bounds (by omega) (by omega)
  rw [hsize, List.getLast?_eq_getElem?]
  refine ⟨by omega, congrArg _ ?_⟩
  omega

/-- The last element of a header, or the empty string if it has none. -/
def lastValue (E : Envoy M I) (map : M) (key : Str) : Str :=
  ((E.headerStore map (E.lowerCaseString key)).getD []).getLast?.getD []

/-- A call of `hdr` without a position returns the last element exactly if the header is absent or
its last element is at the position computed. -/
theorem executeOperation_positionless_iff {E : Envoy M I} (hstring : E.StringLaws)
    (hheaders : E.HeaderLaws) {p : DynamicFunctionProcessor} {key : Str}
    (htype : p.functionType = .getHdr) (harguments : p.arguments E = [key])
    (headers : RequestOrResponseHeaderMap M) (streamInfo : Option I) :
    executeOperation E p headers streamInfo = .returned (.ok, lastValue E headers.map key) ↔
      ReadsLast E headers.map key := by
  rw [executeOperation_hdr htype harguments]
  cases hstore : E.headerStore headers.map (E.lowerCaseString key) with
  | none =>
    rw [getHeaderValue_of_none hheaders hstore, lastValue, hstore]
    exact iff_of_true rfl fun values hvalues => by simp [hstore] at hvalues
  | some values =>
    have hreads : ReadsLast E headers.map key ↔ 0 < toInt32 values.length ∧
        values[(toInt32 values.length - 1).toNat]? = values.getLast? := by
      simp only [ReadsLast, hstore, Option.some.injEq, forall_eq']
    obtain ⟨hrange, hindex⟩ := addSize_neg_one values.length
    have hnegative : (-1 : ℤ) < 0 := by decide
    rw [getHeaderValue_of_some hstring hheaders hstore, if_pos hnegative, hreads, lastValue, hstore,
      Option.getD_some]
    by_cases hpositive : 0 < toInt32 values.length
    · rw [if_neg (fun h => hrange.mp h hpositive), hindex hpositive, List.getD_eq_getElem?_getD]
      have hsize := (toInt32_size_le values.length).1
      have hlt : (toInt32 values.length - 1).toNat < values.length := by omega
      obtain ⟨last, hlast⟩ : ∃ last, values.getLast? = some last := by
        rw [List.getLast?_eq_getElem?]
        exact ⟨_, List.getElem?_eq_getElem (by omega)⟩
      rw [hlast, List.getElem?_eq_getElem hlt]
      simp only [Option.getD_some, Outcome.returned.injEq, Prod.mk.injEq, true_and,
        Option.some.injEq, hpositive]
    · rw [if_pos (hrange.mpr hpositive)]
      refine iff_of_false (fun h => ?_) fun h => hpositive h.1
      cases h

/-- The operand is a literal, or a call of `hdr` without a position. -/
def IsPositionless (E : Envoy M I) (p : DynamicFunctionProcessor) : Prop :=
  p.functionType = .static ∨ p.functionType = .getHdr ∧ ∃ key, p.arguments E = [key]

/-- A header that the operand reads without a position is absent, or its number of elements converts
to a positive `int`. -/
def HasLast (E : Envoy M I) (p : DynamicFunctionProcessor) (map : M) : Prop :=
  ∀ key values, p.functionType = .getHdr → p.arguments E = [key] →
    E.headerStore map (E.lowerCaseString key) = some values → 0 < toInt32 values.length

/-- The operand is a literal that is not empty, or reads a header that is present. -/
def HasText (E : Envoy M I) (p : DynamicFunctionProcessor) (map : M) : Prop :=
  (p.functionType = .static → p.functionArgument ≠ []) ∧
    ∀ key, p.functionType = .getHdr → p.arguments E = [key] →
      E.headerStore map (E.lowerCaseString key) ≠ none

theorem hasLast_iff {E : Envoy M I} {p : DynamicFunctionProcessor} {key : Str}
    (htype : p.functionType = .getHdr) (harguments : p.arguments E = [key]) (map : M) :
    p.HasLast E map ↔ ∀ values, E.headerStore map (E.lowerCaseString key) = some values →
      0 < toInt32 values.length := by
  constructor
  · intro h values
    exact h key values htype harguments
  · intro h key' values _ harguments'
    obtain rfl : key = key' := List.head_eq_of_cons_eq (harguments.symm.trans harguments')
    exact h values

theorem hasText_iff {E : Envoy M I} {p : DynamicFunctionProcessor} {key : Str}
    (htype : p.functionType = .getHdr) (harguments : p.arguments E = [key]) (map : M) :
    p.HasText E map ↔ E.headerStore map (E.lowerCaseString key) ≠ none := by
  constructor
  · intro h
    exact h.2 key htype harguments
  · intro h
    refine ⟨fun hstatic => ?_, fun key' _ harguments' => ?_⟩
    · cases htype.symm.trans hstatic
    · obtain rfl : key = key' := List.head_eq_of_cons_eq (harguments.symm.trans harguments')
      exact h

/-- Such an operand has a value exactly if the header that it reads has a last element. The value is
empty only for an empty literal and a header that is absent. Otherwise the position is out of
bounds. -/
theorem IsPositionless.executeOperation_cases {E : Envoy M I} (hstring : E.StringLaws)
    (hheaders : E.HeaderLaws) {p : DynamicFunctionProcessor} (h : p.IsPositionless E)
    (headers : RequestOrResponseHeaderMap M) (streamInfo : Option I) :
    (p.HasLast E headers.map ∧
        ∃ value, executeOperation E p headers streamInfo = .returned (.ok, value) ∧
          (value ≠ [] ↔ p.HasText E headers.map)) ∨
      ¬ p.HasLast E headers.map ∧
        executeOperation E p headers streamInfo = .returned (positionOutOfBounds, []) := by
  rcases h with hstatic | ⟨htype, key, harguments⟩
  · refine Or.inl ⟨fun key values htype => ?_, _, executeOperation_static hstatic, ?_⟩
    · cases hstatic.symm.trans htype
    · refine ⟨fun hne => ⟨fun _ => hne, fun key htype => ?_⟩, fun htext => htext.1 hstatic⟩
      cases hstatic.symm.trans htype
  rw [hasLast_iff htype harguments, hasText_iff htype harguments,
    executeOperation_hdr htype harguments]
  cases hstore : E.headerStore headers.map (E.lowerCaseString key) with
  | none =>
    rw [getHeaderValue_of_none hheaders hstore]
    refine Or.inl ⟨fun values hvalues => ?_, _, rfl, by simp⟩
    cases hvalues
  | some values =>
    obtain ⟨hrange, hindex⟩ := addSize_neg_one values.length
    have hnegative : (-1 : ℤ) < 0 := by decide
    rw [getHeaderValue_of_some hstring hheaders hstore, if_pos hnegative]
    simp only [Option.some.injEq, forall_eq']
    by_cases hpositive : 0 < toInt32 values.length
    · rw [if_neg fun hout => hrange.mp hout hpositive, hindex hpositive]
      refine Or.inl ⟨hpositive, _, rfl, iff_of_true ?_ (Option.some_ne_none _)⟩
      -- the value is one of the pieces of the header
      have hlt : (toInt32 values.length - 1).toNat < values.length := by
        have hsize := (toInt32_size_le values.length).1
        omega
      obtain ⟨text, -, rfl⟩ := Option.map_eq_some_iff.mp hstore
      rw [List.getD_eq_getElem?_getD, List.getElem?_eq_getElem hlt, Option.getD_some]
      exact (of_mem_pieces (List.getElem_mem hlt)).1
    · rw [if_pos (hrange.mpr hpositive)]
      exact Or.inr ⟨hpositive, rfl⟩

theorem IsPositionless.exists_value {E : Envoy M I} (hstring : E.StringLaws)
    (hheaders : E.HeaderLaws) {p : DynamicFunctionProcessor} (h : p.IsPositionless E)
    {headers : RequestOrResponseHeaderMap M} (hlast : p.HasLast E headers.map)
    (streamInfo : Option I) :
    ∃ value, executeOperation E p headers streamInfo = .returned (.ok, value) ∧
      (value ≠ [] ↔ p.HasText E headers.map) := by
  rcases h.executeOperation_cases hstring hheaders headers streamInfo with ⟨-, hvalue⟩ | ⟨hnot, -⟩
  · exact hvalue
  · exact (hnot hlast).elim

theorem IsPositionless.hasLast_of_not_failed {E : Envoy M I} (hstring : E.StringLaws)
    (hheaders : E.HeaderLaws) {p : DynamicFunctionProcessor} (h : p.IsPositionless E)
    {headers : RequestOrResponseHeaderMap M} (streamInfo : Option I)
    (hgood : ∀ status value, status ≠ .ok →
      executeOperation E p headers streamInfo ≠ .returned (status, value)) :
    p.HasLast E headers.map := by
  rcases h.executeOperation_cases hstring hheaders headers streamInfo with ⟨hlast, -⟩ | ⟨-, hfails⟩
  · exact hlast
  · exact (hgood _ _ (Status.outOfRange_ne_ok _) hfails).elim

theorem IsPositionless.hasText_of_ne_nil {E : Envoy M I} (hstring : E.StringLaws)
    (hheaders : E.HeaderLaws) {p : DynamicFunctionProcessor} (h : p.IsPositionless E)
    {headers : RequestOrResponseHeaderMap M} {streamInfo : Option I} {value : Str}
    (hvalue : executeOperation E p headers streamInfo = .returned (.ok, value)) (hne : value ≠ []) :
    p.HasText E headers.map := by
  rcases h.executeOperation_cases hstring hheaders headers streamInfo with
    ⟨-, value', hvalue', htext⟩ | ⟨-, hfails⟩
  · obtain ⟨-, rfl⟩ := Outcome.pair_inj (hvalue.symm.trans hvalue')
    exact htext.mp hne
  · have hstatus := (Outcome.pair_inj (hvalue.symm.trans hfails)).1
    exact (Status.outOfRange_ne_ok _ hstatus.symm).elim

/-- Such an operand returns, whatever the headers are. -/
theorem IsPositionless.exists_returned {E : Envoy M I} (hstring : E.StringLaws)
    (hheaders : E.HeaderLaws) {p : DynamicFunctionProcessor} (h : p.IsPositionless E)
    (headers : RequestOrResponseHeaderMap M) (streamInfo : Option I) :
    ∃ result, executeOperation E p headers streamInfo = .returned result := by
  rcases h.executeOperation_cases hstring hheaders headers streamInfo with
    ⟨-, value, hvalue, -⟩ | ⟨-, hfails⟩
  · exact ⟨_, hvalue⟩
  · exact ⟨_, hfails⟩

/-- A call that reads a header without a position dereferences no `Path()`. -/
theorem IsPositionless.not_nullPath {E : Envoy M I} {p : DynamicFunctionProcessor}
    (h : p.IsPositionless E) (headers : RequestOrResponseHeaderMap M) :
    ¬ p.NullPath E headers := by
  rintro ⟨hurlp, -⟩
  rcases h with htype | ⟨htype, -⟩ <;> cases htype.symm.trans hurlp

end DynamicFunctionProcessor

/-! ## Operations whose calls have values -/

/-- A variable that has a value has operands with values. -/
theorem SetBoolProcessor.exists_values_of_ok {eval : Evaluator M I} {p : SetBoolProcessor}
    {headers : RequestOrResponseHeaderMap M} {streamInfo : Option I} {negate value : Bool}
    (h : p.executeOperation eval headers streamInfo negate = .returned (.ok, value)) :
    ∀ d ∈ p.operands, ∃ text, eval d headers streamInfo = .returned (.ok, text) := by
  rw [executeOperation] at h
  obtain ⟨⟨status, source⟩, hsource, h⟩ := Outcome.bind_eq_returned.mp h
  dsimp only at h
  split at h
  · next hne => exact (hne (Outcome.pair_inj h).1).elim
  next hstatus =>
  obtain ⟨⟨status', stringToCompare⟩, hcompare, h⟩ := Outcome.bind_eq_returned.mp h
  dsimp only at h
  split at h
  · next hne => exact (hne (Outcome.pair_inj h).1).elim
  next hstatus' =>
  obtain rfl : status = .ok := Decidable.not_not.mp hstatus
  obtain rfl : status' = .ok := Decidable.not_not.mp hstatus'
  rw [operands, List.forall_mem_cons, List.forall_mem_singleton]
  exact ⟨⟨source, hsource⟩, stringToCompare, hcompare⟩

/-- A variable whose operands have values does not fail. -/
theorem SetBoolProcessor.ok_of_values {eval : Evaluator M I} {p : SetBoolProcessor}
    {headers : RequestOrResponseHeaderMap M} {streamInfo : Option I} {negate : Bool}
    (hvalues : ∀ d ∈ p.operands, ∃ text, eval d headers streamInfo = .returned (.ok, text)) :
    (∃ value, p.executeOperation eval headers streamInfo negate = .returned (.ok, value)) ∨
      ∃ u, p.executeOperation eval headers streamInfo negate = .undefined u := by
  rw [operands, List.forall_mem_cons, List.forall_mem_singleton] at hvalues
  obtain ⟨⟨source, hsource⟩, stringToCompare, hcompare⟩ := hvalues
  rw [executeOperation_of_operands hsource hcompare]
  rcases matcher_cases p.matchType source stringToCompare with ⟨⟨value, hvalue⟩, -⟩ | ⟨hu, -⟩
  · exact Or.inl ⟨_, by rw [hvalue]; rfl⟩
  · exact Or.inr ⟨_, by rw [hu]; rfl⟩

namespace HeaderProcessor

/-- An operation uses only literals and calls of `hdr` without a position, in its own operands and
in those of the variables that its condition refers to. -/
structure IsPositionless (E : Envoy M I) (maps : SetBoolProcessorMaps) (p : HeaderProcessor) :
    Prop where
  /-- Its operands are such. -/
  operand : ∀ d ∈ p.operands, d.IsPositionless E
  /-- So are those of the variables. -/
  variableOperand : ∀ c, p.conditionProcessor = some c → ∀ b ∈ c.operands, ∀ q,
    (maps c.boolProcessors).lookup b.1 = some q → ∀ d ∈ q.operands, d.IsPositionless E

/-- Nothing keeps an operation with such calls from succeeding in a state. -/
structure Unhindered (E : Envoy M I) (maps : SetBoolProcessorMaps) (p : HeaderProcessor)
    (st : StreamState M I) : Prop where
  /-- The headers that its operands read have a last element. The status of the operand of
  `set-path` is not looked at. -/
  operand : (∀ q, p ≠ .setPath q) → ∀ d st',
    EvaluatesOperand E (DynamicFunctionProcessor.executeOperation E) maps st p d st' →
    d.HasLast E st'.headers.map
  /-- So have those that the variables read which its condition evaluates. -/
  variableOperand : ∀ d q,
    ReachesVariable (DynamicFunctionProcessor.executeOperation E) maps p.conditionProcessor st d q →
    ∀ o ∈ q.operands, o.HasLast E st.headers.map
  /-- The headers that the key and the value of a `set-metadata` read are present. -/
  metadata : ∀ q, p = .setDynamicMetadata q → ∀ d st',
    EvaluatesOperand E (DynamicFunctionProcessor.executeOperation E) maps st p d st' →
    d.HasText E st'.headers.map
  /-- No prefix matcher reads too far. -/
  matcher : ¬ p.OverReads E maps st

section Calls

variable {E : Envoy M I} {f : HttpHeaderRewriteFilter} {isRequest : Bool} {p : HeaderProcessor}
  {st st' : StreamState M I}

/-- The variables that the condition evaluates use such calls only. -/
theorem IsPositionless.operand_of_reachesVariable (h : p.IsPositionless E f.setBoolProcessors)
    (hwf : SideWellFormed E f isRequest) (hp : p ∈ f.headerProcessors isRequest)
    {eval : Evaluator M I} {d : Str × Bool} {q : SetBoolProcessor}
    (hreaches : ReachesVariable eval f.setBoolProcessors p.conditionProcessor st d q) :
    ∀ o ∈ q.operands, o.IsPositionless E := by
  obtain ⟨c, hc, hreached, hq⟩ := hreaches
  have hmem := ConditionProcessor.mem_of_reached (hwf.condition p hp c hc).2 hreached
  exact h.variableOperand c hc d hmem q hq

/-- A condition fails only in a variable that it evaluates and that has an operand without a
value. -/
theorem evaluateCondition_status_of_values (hwf : SideWellFormed E f isRequest)
    (hp : p ∈ f.headerProcessors isRequest) {eval : Evaluator M I}
    (hvalues : ∀ d q, ReachesVariable eval f.setBoolProcessors p.conditionProcessor st d q →
      ∀ o ∈ q.operands, ∃ text, eval o st.headers st.streamInfo = .returned (.ok, text))
    {status : Status} {value : Bool}
    (h : evaluateCondition eval f.setBoolProcessors p.conditionProcessor st =
      .returned (status, value)) : status = .ok := by
  by_contra hstatus
  obtain ⟨d, q, hreaches, hfails⟩ := reachesVariable_of_ne_ok hwf hp h hstatus
  rcases SetBoolProcessor.ok_of_values (hvalues d q hreaches) with ⟨value, hvalue⟩ | ⟨u, hu⟩
  · rcases hfails with ⟨result, hresult, hne⟩ | ⟨e, he⟩
    · obtain rfl := Outcome.returned.inj (hvalue.symm.trans hresult)
      exact hne rfl
    · cases hvalue.symm.trans he
  · rcases hfails with ⟨result, hresult, -⟩ | ⟨e, he⟩
    · cases hu.symm.trans hresult
    · cases hu.symm.trans he

/-- The variables of a condition that does not fail have values. -/
theorem exists_value_of_evaluateCondition (hwf : SideWellFormed E f isRequest)
    (hp : p ∈ f.headerProcessors isRequest) {eval : Evaluator M I} {value : Bool}
    (h : evaluateCondition eval f.setBoolProcessors p.conditionProcessor st =
      .returned (.ok, value)) {d : Str × Bool} {q : SetBoolProcessor}
    (hreaches : ReachesVariable eval f.setBoolProcessors p.conditionProcessor st d q) :
    ∃ value, q.executeOperation eval st.headers st.streamInfo d.2 = .returned (.ok, value) := by
  obtain ⟨c, hc, hreached, hq⟩ := hreaches
  rw [hc, evaluateCondition] at h
  obtain ⟨⟨status, value'⟩, hexecute, h⟩ := Outcome.bind_eq_returned.mp h
  dsimp only at h
  split at h
  · next hne => exact (hne (Outcome.pair_inj h).1).elim
  next hstatus =>
  obtain rfl : status = .ok := Decidable.not_not.mp hstatus
  rw [ConditionProcessor.executeOperation_eq (hwf.condition p hp c hc).2] at hexecute
  obtain ⟨value, hvalue⟩ :=
    exists_value_of_evalClauses conditionFailed_ne_ok hexecute d hreached.mem_flatten
  rw [ConditionProcessor.executeOperand_of_lookup hq] at hvalue
  exact ⟨value, hvalue⟩

/-- After a true condition, an operation that nothing keeps from succeeding has its effect. -/
theorem Unhindered.exists_effect (hstring : E.StringLaws) (hheaders : E.HeaderLaws)
    (hwf : SideWellFormed E f isRequest) (hp : p ∈ f.headerProcessors isRequest)
    (hpositionless : p.IsPositionless E f.setBoolProcessors)
    (hside : st.headers.isRequestHeaderMap = isRequest) (hinfo : st.streamInfo ≠ none)
    (h : p.Unhindered E f.setBoolProcessors st)
    (hcondition : evaluateCondition (DynamicFunctionProcessor.executeOperation E)
      f.setBoolProcessors p.conditionProcessor st = .returned (.ok, true)) :
    ∃ st', Effect E (DynamicFunctionProcessor.executeOperation E) st p st' := by
  have hoperand : (∀ q, p ≠ .setPath q) → ∀ {d st₁},
      Evaluates E (DynamicFunctionProcessor.executeOperation E) st p d st₁ →
      ∃ value, DynamicFunctionProcessor.executeOperation E d st₁.headers st₁.streamInfo =
        .returned (.ok, value) ∧ (value ≠ [] ↔ d.HasText E st₁.headers.map) := by
    intro hne d st₁ hd
    exact (hpositionless.operand d hd.mem).exists_value hstring hheaders
      (h.operand hne d st₁ (Or.inl ⟨hcondition, hd⟩)) st₁.streamInfo
  cases p with
  | setHeader q =>
    obtain ⟨key, hkey, -⟩ := hoperand (by simp) .headerKey
    obtain ⟨value, hvalue, -⟩ := hoperand (by simp) (.headerVal ⟨_, hkey⟩)
    exact ⟨_, .setHeader hkey hvalue⟩
  | appendHeader q =>
    obtain ⟨key, hkey, -⟩ := hoperand (by simp) .appendKey
    rcases AppendHeaderProcessor.appendValues_cases E
        (DynamicFunctionProcessor.executeOperation E) key q.headerVals st with
      ⟨values, st₁, hin⟩ | ⟨before, d, after, values, st₁, hvals, hin, hfails⟩
    · exact ⟨_, .appendHeader hkey hin⟩
    · obtain ⟨value, hvalue, -⟩ := hoperand (by simp) (.appendVal hkey hvals hin)
      exact (hfails value hvalue).elim
  | setPath q =>
    obtain ⟨⟨status, newPath⟩, hresult⟩ :=
      (hpositionless.operand q.requestPath (by simp [operands])).exists_returned hstring hheaders
        st.headers st.streamInfo
    -- `set-path` is an operation on requests only
    exact ⟨_, .setPath hresult (hside.trans (hwf.setPath _ hp q rfl))⟩
  | setDynamicMetadata q =>
    obtain ⟨key, hkey, htext⟩ := hoperand (by simp) .metadataKey
    have hne : key ≠ [] := htext.mpr (h.metadata q rfl _ st (Or.inl ⟨hcondition, .metadataKey⟩))
    obtain ⟨value, hvalue, htext'⟩ := hoperand (by simp) (.metadataValue hkey hne)
    have hne' : value ≠ [] :=
      htext'.mpr (h.metadata q rfl _ st (Or.inl ⟨hcondition, .metadataValue hkey hne⟩))
    obtain ⟨info, hinfo⟩ := Option.ne_none_iff_exists'.mp hinfo
    exact ⟨_, .setDynamicMetadata hkey hne hvalue hne' hinfo⟩

/-- Where nothing keeps it from doing so, an operation succeeds. -/
theorem Unhindered.exists_ok (hstring : E.StringLaws) (hheaders : E.HeaderLaws)
    (hwf : SideWellFormed E f isRequest) (hp : p ∈ f.headerProcessors isRequest)
    (hpositionless : p.IsPositionless E f.setBoolProcessors)
    (hside : st.headers.isRequestHeaderMap = isRequest) (hinfo : st.streamInfo ≠ none)
    (h : p.Unhindered E f.setBoolProcessors st) :
    ∃ st', p.executeOperation E (DynamicFunctionProcessor.executeOperation E) f.setBoolProcessors
      st = .returned (.ok, st') := by
  rcases evaluateCondition_cases (DynamicFunctionProcessor.executeOperation E) f.setBoolProcessors
      p.conditionProcessor st with
    ⟨status, value, hstatus, hcondition⟩ | hcondition | hcondition | ⟨u, hcondition⟩
  · refine (hstatus (evaluateCondition_status_of_values hwf hp ?_ hcondition)).elim
    intro d q hreaches o ho
    obtain ⟨text, htext, -⟩ := (hpositionless.operand_of_reachesVariable hwf hp hreaches o
      ho).exists_value hstring hheaders (h.variableOperand d q hreaches o ho) st.streamInfo
    exact ⟨text, htext⟩
  · rw [executeOperation_of_false hcondition]
    cases p with
    | setPath q =>
      obtain ⟨result, hresult⟩ :=
        (hpositionless.operand q.requestPath (by simp [operands])).exists_returned hstring hheaders
          st.headers st.streamInfo
      exact ⟨st, by simp only [hresult, Outcome.bind_returned, Outcome.pure_eq]⟩
    | setHeader q => exact ⟨st, rfl⟩
    | appendHeader q => exact ⟨st, rfl⟩
    | setDynamicMetadata q => exact ⟨st, rfl⟩
  · obtain ⟨st', heffect⟩ :=
      h.exists_effect hstring hheaders hwf hp hpositionless hside hinfo hcondition
    exact ⟨st', executeOperation_of_effect hcondition heffect⟩
  · obtain ⟨d, q, hreaches, hoperand, hu⟩ := reachesVariable_of_undefined hwf hp hcondition
    have hcalls := hpositionless.operand_of_reachesVariable hwf hp hreaches
    rcases SetBoolProcessor.executeOperation_undefined (fun o ho => (hoperand o ho).1) hu with
      ⟨-, hnull | ⟨-, hnull⟩⟩ | ⟨-, hover⟩
    · exact ((hcalls _ (by simp [SetBoolProcessor.operands])).not_nullPath _ hnull).elim
    · exact ((hcalls _ (by simp [SetBoolProcessor.operands])).not_nullPath _ hnull).elim
    · exact (h.matcher ⟨d, q, hreaches, hover⟩).elim

/-- Where an operation succeeds, nothing keeps it from doing so. -/
theorem unhindered_of_ok (hstring : E.StringLaws) (hheaders : E.HeaderLaws)
    (hwf : SideWellFormed E f isRequest) (hp : p ∈ f.headerProcessors isRequest)
    (hpositionless : p.IsPositionless E f.setBoolProcessors)
    (h : p.executeOperation E (DynamicFunctionProcessor.executeOperation E) f.setBoolProcessors st =
      .returned (.ok, st')) : p.Unhindered E f.setBoolProcessors st := by
  obtain ⟨value, hcondition⟩ : ∃ value,
      evaluateCondition (DynamicFunctionProcessor.executeOperation E) f.setBoolProcessors
        p.conditionProcessor st = .returned (.ok, value) := by
    rcases evaluateCondition_cases (DynamicFunctionProcessor.executeOperation E)
        f.setBoolProcessors p.conditionProcessor st with
      ⟨status, value, hstatus, hcondition⟩ | hcondition | hcondition | ⟨u, hcondition⟩
    · rw [executeOperation_of_ne_ok hcondition hstatus] at h
      exact (hstatus (Outcome.pair_inj h).1).elim
    · exact ⟨false, hcondition⟩
    · exact ⟨true, hcondition⟩
    · cases h.symm.trans (executeOperation_of_undefined hcondition)
  refine ⟨fun hpath d st₁ hd => ?_, fun d q hreaches o ho => ?_, ?_, fun hover => ?_⟩
  · apply (hpositionless.operand d hd.mem).hasLast_of_not_failed hstring hheaders st₁.streamInfo
    intro status value hstatus hfails
    rcases hd with ⟨htrue, hd⟩ | ⟨-, -, q, rfl, -⟩
    -- an operand that fails would make the operation fail
    · obtain ⟨status', hstatus', hfailed⟩ := failed_of_evaluates htrue hpath hd hfails hstatus (by
        rintro q rfl -
        exact (hpositionless.operand q.headerVal (by simp [operands])).exists_returned hstring
          hheaders st.headers st.streamInfo)
      exact hstatus' (Outcome.pair_inj (hfailed.symm.trans h)).1
    · exact hpath q rfl
  · have hcalls := hpositionless.operand_of_reachesVariable hwf hp hreaches
    obtain ⟨value, hvalue⟩ := exists_value_of_evaluateCondition hwf hp hcondition hreaches
    apply (hcalls o ho).hasLast_of_not_failed hstring hheaders st.streamInfo
    intro status text hstatus hfails
    obtain ⟨text', htext⟩ := SetBoolProcessor.exists_values_of_ok hvalue o ho
    exact hstatus (Outcome.pair_inj (hfails.symm.trans htext)).1
  · rintro q rfl d st₁ (⟨htrue, hd⟩ | ⟨-, -, _, hq, -⟩)
    · have hcall := hpositionless.operand d hd.mem
      cases effect_of_ok htrue h with
      | setDynamicMetadata hkey hne hvalue hne' _ =>
        cases hd with
        | metadataKey => exact hcall.hasText_of_ne_nil hstring hheaders hkey hne
        | metadataValue _ _ => exact hcall.hasText_of_ne_nil hstring hheaders hvalue hne'
    · cases hq
  · obtain ⟨u, hu⟩ := hover.executeOperation_eq hwf hp
    cases hu.symm.trans h

end Calls

end HeaderProcessor

/-! ## Runs -/

namespace HttpHeaderRewriteFilter

/-- Every step of a run has a stream info. -/
theorem streamInfo_of_mem_attemptedSteps {E : Envoy M I} {f : HttpHeaderRewriteFilter}
    {isRequest : Bool} {headers : M} {streamInfo : I} {a : HeaderProcessor × StreamState M I}
    (ha : a ∈ attemptedSteps E f isRequest headers streamInfo) : a.2.streamInfo ≠ none := by
  refine @attempts_invariant _ _ _ _ _ (fun st => st.streamInfo ≠ none) _ _ (Option.some_ne_none _)
    (fun p _ st status st' hst hstep => ?_) a ha
  rcases HeaderProcessor.streamInfo_cases hstep with heq | ⟨_, _, _, _, -, -, -, -, -, -, -, heq⟩
  · rw [heq]
    exact hst
  · rw [heq]
    simp

/-- A call of `hdr` without a position returns the last element of the header, or the empty string,
exactly if the header is absent or its last element is at the position computed. In a run, an
operation that uses only literals and such calls succeeds exactly if the headers that they read have
a last element, those that a `set-metadata` reads are present, and no prefix matcher reads too far.
A run of such operations goes through exactly if this is so at each of its steps. -/
theorem positionless_iff {E : Envoy M I} (hstring : E.StringLaws) (hheaders : E.HeaderLaws)
    {config : Str} {f : HttpHeaderRewriteFilter} (hf : construct E config = .returned f) :
    (∀ (p : DynamicFunctionProcessor) key headers streamInfo, p.functionType = .getHdr →
      p.arguments E = [key] →
      (DynamicFunctionProcessor.executeOperation E p headers streamInfo =
          .returned (.ok, DynamicFunctionProcessor.lastValue E headers.map key) ↔
        DynamicFunctionProcessor.ReadsLast E headers.map key)) ∧
    ∀ isRequest headers streamInfo,
      (∀ a ∈ attemptedSteps E f isRequest headers streamInfo,
        a.1.IsPositionless E f.setBoolProcessors →
        ((∃ st', a.1.executeOperation E (DynamicFunctionProcessor.executeOperation E)
            f.setBoolProcessors a.2 = .returned (.ok, st')) ↔
          a.1.Unhindered E f.setBoolProcessors a.2)) ∧
      ((∀ p ∈ f.headerProcessors isRequest, p.IsPositionless E f.setBoolProcessors) →
        ((∃ st, RunsThrough E f isRequest headers streamInfo st) ↔
          ∀ a ∈ attemptedSteps E f isRequest headers streamInfo,
            a.1.Unhindered E f.setBoolProcessors a.2)) := by
  have hstep : ∀ isRequest headers streamInfo,
      ∀ a ∈ attemptedSteps E f isRequest headers streamInfo,
        a.1.IsPositionless E f.setBoolProcessors →
        ((∃ st', a.1.executeOperation E (DynamicFunctionProcessor.executeOperation E)
            f.setBoolProcessors a.2 = .returned (.ok, st')) ↔
          a.1.Unhindered E f.setBoolProcessors a.2) := by
    intro isRequest headers streamInfo a ha hpositionless
    have hwf : SideWellFormed E f isRequest := sideWellFormed_of_processLines hf
    have hp := mem_attemptedSteps ha
    constructor
    · rintro ⟨st', h⟩
      exact HeaderProcessor.unhindered_of_ok hstring hheaders hwf hp hpositionless h
    · intro h
      exact h.exists_ok hstring hheaders hwf hp hpositionless
        (isRequestHeaderMap_of_mem_attemptedSteps ha) (streamInfo_of_mem_attemptedSteps ha)
  refine ⟨?_, fun isRequest headers streamInfo => ⟨hstep isRequest headers streamInfo, ?_⟩⟩
  · intro p key headers streamInfo htype harguments
    exact DynamicFunctionProcessor.executeOperation_positionless_iff hstring hheaders htype
      harguments headers streamInfo
  · intro hpositionless
    rw [runsThrough_iff]
    refine forall_congr' fun a => forall_congr' fun ha => ?_
    exact hstep isRequest headers streamInfo a ha (hpositionless a.1 (mem_attemptedSteps ha))

/-- The value of `%[hdr(x)]` on the header `x: a, b`, and a run of an operation that reads it after
a condition on `%[hdr(y)]`. -/
theorem positionless_reads_last :
    ∃ f p st, construct Reference.envoy ("http-request set-bool b %[hdr(y)] -m found\n" ++
          "http-request set-header k %[hdr(x)] if b").toList = .returned f ∧
      DynamicFunctionProcessor.parseOperation Reference.envoy (.ofSide true) "%[hdr(x)]".toList =
        .accepted p ∧
      DynamicFunctionProcessor.executeOperation Reference.envoy p
        ⟨true, [("x".toList, "a, b".toList), ("y".toList, "1".toList)]⟩ none =
          .returned (.ok, "b".toList) ∧
      RunsThrough Reference.envoy f true
        [("x".toList, "a, b".toList), ("y".toList, "1".toList)] [] st := by
  let side := Processor.ofSide true
  let headers : List (Str × Str) := [("x".toList, "a, b".toList), ("y".toList, "1".toList)]
  let readX : DynamicFunctionProcessor := ⟨side, .getHdr, "x".toList⟩
  let readY : DynamicFunctionProcessor := ⟨side, .getHdr, "y".toList⟩
  let b : SetBoolProcessor := ⟨side, .found, readY, ⟨side, .static, []⟩⟩
  let q : HeaderProcessor := .setHeader ⟨side, ⟨side, .static, "k".toList⟩, readX,
    some ⟨side, [], [("b".toList, false)]⟩⟩
  obtain ⟨f, hf, htest⟩ := Outcome.exists_of_returnsWith
    (show (construct Reference.envoy ("http-request set-bool b %[hdr(y)] -m found\n" ++
        "http-request set-header k %[hdr(x)] if b").toList).returnsWith
      (fun f => decide (f = ⟨false, [q], [], [("b".toList, b)], []⟩)) = true by decide +kernel)
  obtain rfl := of_decide_eq_true htest
  have hstore : Reference.envoy.headerStore headers (Reference.envoy.lowerCaseString "x") =
      some ["a".toList, "b".toList] := by decide +kernel
  have hstore' : Reference.envoy.headerStore headers (Reference.envoy.lowerCaseString "y") =
      some ["1".toList] := by decide +kernel
  have hx : readX.arguments Reference.envoy = ["x".toList] := by decide +kernel
  have hy : readY.arguments Reference.envoy = ["y".toList] := by decide +kernel
  have hlastX : readX.HasLast Reference.envoy headers :=
    (DynamicFunctionProcessor.hasLast_iff rfl hx headers).mpr fun values hvalues => by
      obtain rfl := Option.some.inj (hstore.symm.trans hvalues)
      decide
  have hlastY : readY.HasLast Reference.envoy headers :=
    (DynamicFunctionProcessor.hasLast_iff rfl hy headers).mpr fun values hvalues => by
      obtain rfl := Option.some.inj (hstore'.symm.trans hvalues)
      decide
  have hliteral : ∀ text, (⟨side, .static, text⟩ : DynamicFunctionProcessor).HasLast
      Reference.envoy headers := fun text key values htype => by cases htype
  have hvariable : ∀ d r, List.lookup d [("b".toList, b)] = some r → r = b := by
    intro d r hr
    have hmem := mem_of_lookup hr
    exact (Prod.mk.inj (List.mem_singleton.mp hmem)).2
  have hpositionless : ∀ p ∈ [q], HeaderProcessor.IsPositionless Reference.envoy
      (setBoolProcessors ⟨false, [q], [], [("b".toList, b)], []⟩) p := by
    intro p hp
    obtain rfl := List.mem_singleton.mp hp
    refine ⟨fun d hd => ?_, fun c hc d hd r hr o ho => ?_⟩
    · rcases List.mem_pair.mp hd with rfl | rfl
      · exact Or.inl rfl
      · exact Or.inr ⟨rfl, _, hx⟩
    · cases hc
      obtain rfl := hvariable d.1 r hr
      rcases List.mem_pair.mp ho with rfl | rfl
      · exact Or.inr ⟨rfl, _, hy⟩
      · exact Or.inl rfl
  have hreaches : ∀ d r, ReachesVariable
      (DynamicFunctionProcessor.executeOperation Reference.envoy)
      (setBoolProcessors ⟨false, [q], [], [("b".toList, b)], []⟩) q.conditionProcessor
      (.start true headers []) d r → r = b := by
    rintro d r ⟨c, hc, -, hr⟩
    cases hc
    exact hvariable d.1 r hr
  have hunhindered : q.Unhindered Reference.envoy
      (setBoolProcessors ⟨false, [q], [], [("b".toList, b)], []⟩) (.start true headers []) := by
    refine ⟨fun _ d st' hd => ?_, fun d r hr o ho => ?_, fun r hr => ?_, ?_⟩
    · dsimp only [q] at hd
      rcases hd with ⟨-, hd⟩ | ⟨-, -, r, hr, -⟩
      · cases hd with
        | headerKey => exact hliteral _
        | headerVal _ => exact hlastX
      · cases hr
    · obtain rfl := hreaches d r hr
      rcases List.mem_pair.mp ho with rfl | rfl
      · exact hlastY
      · exact hliteral _
    · dsimp only [q] at hr
      cases hr
    · rintro ⟨d, r, hr, htype, -⟩
      obtain rfl := hreaches d r hr
      cases htype
  obtain ⟨hreads, hruns⟩ := positionless_iff Reference.stringLaws Reference.headerLaws hf
  have hread := (hreads readX "x" ⟨true, headers⟩ none rfl hx).mpr
    (DynamicFunctionProcessor.readsLast_of_length fun values hvalues => by
      obtain rfl := Option.some.inj (hstore.symm.trans hvalues)
      decide)
  rw [DynamicFunctionProcessor.lastValue, hstore] at hread
  obtain ⟨st, hst⟩ := ((hruns true headers []).2 hpositionless).mpr fun a ha => by
    rw [attemptedSteps, headerProcessors, if_pos rfl, attempts_singleton] at ha
    obtain rfl := List.mem_singleton.mp ha
    exact hunhindered
  exact ⟨_, readX, st, hf, by decide +kernel, hread, hst⟩

/-- On the header `x: ,` the call `%[hdr(x)]` fails, and the operations after it are not
executed. -/
theorem not_positionless_comma :
    ∃ f p, construct Reference.envoy ("http-request set-header k %[hdr(x)]\n" ++
          "http-request set-header m v").toList = .returned f ∧ f.error = false ∧
      DynamicFunctionProcessor.parseOperation Reference.envoy (.ofSide true) "%[hdr(x)]".toList =
        .accepted p ∧
      ¬ DynamicFunctionProcessor.executeOperation Reference.envoy p
          ⟨true, [("x".toList, ",".toList)]⟩ none =
        .returned (.ok, DynamicFunctionProcessor.lastValue Reference.envoy
          [("x".toList, ",".toList)] "x") ∧
      ∃ st, decodeHeaders Reference.envoy f [("x".toList, ",".toList)] [] = .returned st ∧
        st.headers.map = [("x".toList, ",".toList)] := by
  obtain ⟨f, hf, htest⟩ := Outcome.exists_of_returnsWith
    (show (construct Reference.envoy ("http-request set-header k %[hdr(x)]\n" ++
        "http-request set-header m v").toList).returnsWith
      (fun f => !f.error && (decodeHeaders Reference.envoy f [("x".toList, ",".toList)]
        []).returnsWith fun st => decide (st.headers.map = [("x".toList, ",".toList)])) = true by
      decide +kernel)
  obtain ⟨herror, hrun⟩ := Bool.and_eq_true_iff.mp htest
  obtain ⟨st, hst, hmap⟩ := Outcome.exists_of_returnsWith hrun
  exact ⟨f, ⟨.ofSide true, .getHdr, "x".toList⟩, hf, by simpa using herror, by decide +kernel,
    by decide +kernel, st, hst, of_decide_eq_true hmap⟩

end HttpHeaderRewriteFilter

end HeaderRewrite
