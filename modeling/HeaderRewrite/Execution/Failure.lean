import HeaderRewrite.Envoy.Reference
import HeaderRewrite.Execution.Operation

/-!
# Operations that fail, and operations whose condition is false

What an operation leaves behind where it does not have its effect. Each of the three results names
the one operation that deviates: `append-header` keeps the values appended before the one that
fails, `set-path` does not look at the status of its operand, and it evaluates this operand before
it looks at its condition.

## Main definitions

* `HeaderProcessor.LeavesPart`: `append-header` fails after it has changed the headers.

## Main results

* `HeaderProcessor.failed_unchanged_iff`: when a failing operation leaves the state as it was;
* `HeaderProcessor.operandFailure_stops_iff`: when a failing operand ends the operation;
* `HeaderProcessor.falseCondition_noop_iff`: when an operation with a false condition does nothing.
-/

namespace HeaderRewrite

open Cxx Utility HttpHeaderRewriteFilter

variable {M I : Type}

/-! ## Appending -/

section Size

variable {E : Envoy M I}

/-- A size of the first entry of a name, zero if there is none. -/
def firstEntrySize (E : Envoy M I) (map : M) (name : Str) : Nat :=
  ((E.get map name).head?.map (·.length + 1)).getD 0

/-- Appending does not make the first entry smaller, and makes it larger if there was none or the
value is not empty. -/
theorem firstEntrySize_appendCopy (hlaws : E.HeaderLaws) (map : M) (name value : Str) :
    firstEntrySize E map name ≤ firstEntrySize E (E.appendCopy map name value) name ∧
      (value ≠ [] ∨ E.get map name = [] →
        firstEntrySize E map name < firstEntrySize E (E.appendCopy map name value) name) := by
  unfold firstEntrySize
  rw [hlaws.get_appendCopy, if_pos rfl]
  -- without an entry one is made; otherwise the value goes to the end of the first
  cases E.get map name with
  | nil => simp [Envoy.appendToEntries]
  | cons old rest =>
    by_cases hvalue : value = []
    · simp [Envoy.appendToEntries, Envoy.appendToHeader, hvalue]
    · have hpos : 0 < value.length := List.length_pos_iff.mpr hvalue
      by_cases hold : old = []
      · simpa [Envoy.appendToEntries, Envoy.appendToHeader, hvalue, hold] using hpos
      · simp only [Envoy.appendToEntries, Envoy.appendToHeader, hvalue, hold, if_false,
          List.head?_cons, Option.map_some, Option.getD_some, List.length_append]
        omega

open AppendHeaderProcessor

variable {eval : Evaluator M I} {key : Str} {headerVals : List DynamicFunctionProcessor}
  {st st' : StreamState M I} {values : List Str}

theorem firstEntrySize_inTurn (hlaws : E.HeaderLaws)
    (h : InTurn E eval key headerVals st values st') :
    firstEntrySize E st.headers.map (E.lowerCaseString key) ≤
      firstEntrySize E st'.headers.map (E.lowerCaseString key) := by
  induction h with
  | nil => exact Nat.le_refl _
  | cons _ _ ih => exact Nat.le_trans (firstEntrySize_appendCopy hlaws _ _ _).1 ih

/-- Values appended in turn change the state unless they are all empty and there is an entry to
append them to. -/
theorem inTurn_unchanged_iff (hlaws : E.HeaderLaws)
    (h : InTurn E eval key headerVals st values st') :
    st' = st ↔ ¬ ((∃ value ∈ values, value ≠ []) ∨
      headerVals ≠ [] ∧ E.get st.headers.map (E.lowerCaseString key) = []) := by
  induction h with
  | nil => simp
  | @cons headerVal headerVals value values st st' hvalue hrest ih =>
    by_cases hchange : value ≠ [] ∨ E.get st.headers.map (E.lowerCaseString key) = []
    · -- the entry grows here and does not shrink again
      have hlt := (firstEntrySize_appendCopy hlaws st.headers.map (E.lowerCaseString key)
        value).2 hchange
      have hle := firstEntrySize_inTurn hlaws hrest
      refine iff_of_false ?_ ?_
      · rintro rfl
        exact absurd (Nat.lt_of_lt_of_le hlt hle) (Nat.lt_irrefl _)
      · rcases hchange with hne | hnone
        · exact fun h => h (Or.inl ⟨value, List.mem_cons_self, hne⟩)
        · exact fun h => h (Or.inr ⟨by simp, hnone⟩)
    -- an empty value that finds an entry changes nothing
    · obtain ⟨hnil, hsome⟩ := not_or.mp hchange
      obtain rfl : value = [] := Decidable.not_not.mp hnil
      have hsame : st.withMap (E.appendCopy st.headers.map (E.lowerCaseString key) []) = st := by
        rw [hlaws.appendCopy_nil _ _ hsome]
        rfl
      rw [hsame] at ih
      rw [ih]
      simp [hsome]

end Size

namespace HeaderProcessor

variable {E : Envoy M I} {maps : SetBoolProcessorMaps} {p : HeaderProcessor} {st : StreamState M I}

/-! ## Failing operations -/

/-- `append-header` fails after it has changed the headers: its condition is true, its key has a
value, and some value fails after others were appended, of which one was not empty or the first
created the entry. -/
def LeavesPart (E : Envoy M I) (maps : SetBoolProcessorMaps) (p : HeaderProcessor)
    (st : StreamState M I) : Prop :=
  ∃ q key before d after values st' status value, p = .appendHeader q ∧
    evaluateCondition (DynamicFunctionProcessor.executeOperation E) maps q.conditionProcessor st =
      .returned (.ok, true) ∧
    DynamicFunctionProcessor.executeOperation E q.headerKey st.headers st.streamInfo =
      .returned (.ok, key) ∧
    q.headerVals = before ++ d :: after ∧
    AppendHeaderProcessor.InTurn E (DynamicFunctionProcessor.executeOperation E) key before st
      values st' ∧
    DynamicFunctionProcessor.executeOperation E d st'.headers st'.streamInfo =
      .returned (status, value) ∧ status ≠ .ok ∧
    ((∃ value ∈ values, value ≠ []) ∨
      before ≠ [] ∧ E.get st.headers.map (E.lowerCaseString key) = [])

/-- An operation that returns an error has left the state as it was, exactly unless it is
`append-header` and fails after it has changed the headers. -/
theorem failed_unchanged_iff (hlaws : E.HeaderLaws) (p : HeaderProcessor)
    (maps : SetBoolProcessorMaps) (st : StreamState M I) :
    (∀ status st', p.executeOperation E (DynamicFunctionProcessor.executeOperation E) maps st =
        .returned (status, st') → status ≠ .ok → st' = st) ↔
      ¬ LeavesPart E maps p st := by
  constructor
  · rintro hunchanged ⟨q, key, before, d, after, values, st', status, value, rfl, hcondition, hkey,
      hvals, hin, hd, hstatus, hchange⟩
    -- the operand has one result, which is not `ok`
    have hfails : ∀ value, DynamicFunctionProcessor.executeOperation E d st'.headers
        st'.streamInfo ≠ .returned (.ok, value) := by
      intro value' hok
      exact hstatus (Outcome.pair_inj (hd.symm.trans hok)).1
    have hreturned : (HeaderProcessor.appendHeader q).executeOperation E
        (DynamicFunctionProcessor.executeOperation E) maps st = .returned (status, st') := by
      rw [executeOperation, appendHeader_of_true hcondition, hkey, hvals]
      simp only [Outcome.bind_returned, ne_eq, not_true_eq_false, if_false]
      rw [hin.appendValues_stops after hfails, hd]
      rfl
    exact (inTurn_unchanged_iff hlaws hin).mp (hunchanged status st' hreturned hstatus) hchange
  · intro hpart status st' hreturned hstatus
    by_cases hcondition : evaluateCondition (DynamicFunctionProcessor.executeOperation E) maps
        p.conditionProcessor st = .returned (.ok, true)
    -- an operation that fails with a true condition is one of few
    · rcases failed_cases hcondition hstatus hreturned with
        hsame | ⟨q, key, before, d, after, values, value, rfl, hkey, hvals, hin, hd⟩
      · exact hsame
      · refine (inTurn_unchanged_iff hlaws hin).mpr fun hchange => hpart ?_
        exact ⟨q, key, before, d, after, values, st', status, value, rfl, hcondition, hkey, hvals,
          hin, hd, hstatus, hchange⟩
    -- with any other condition no operation gets as far as changing the state
    · exact eq_of_condition_ne hcondition hreturned

/-- `set-header k %[hdr(x,5)]` leaves a request as it is where `x` has one value only. -/
theorem failed_unchanged_setHeader :
    let st : StreamState (List (Str × Str)) _ := ⟨⟨true, [("x".toList, "1".toList)]⟩, none⟩
    ∃ p, Parsed Reference.envoy true p ∧
      ∀ status st', p.executeOperation Reference.envoy
          (DynamicFunctionProcessor.executeOperation Reference.envoy) (fun _ => []) st =
        .returned (status, st') → status ≠ .ok → st' = st := by
  let side := Processor.ofSide true
  refine ⟨.setHeader ⟨side, ⟨side, .static, "k".toList⟩, ⟨side, .getHdr, "x,5".toList⟩, none⟩,
    ⟨fun _ => false, "set-header", ["k", "%[hdr(x,5)]"], by decide +kernel⟩,
    (failed_unchanged_iff Reference.headerLaws _ _ _).mpr ?_⟩
  rintro ⟨q, _, _, _, _, _, _, _, _, hq, -⟩
  cases hq

/-- `append-header k a %[hdr(x,5)]` fails at its second value, after the first was appended. -/
theorem not_failed_unchanged_appendHeader :
    let st : StreamState (List (Str × Str)) _ := ⟨⟨true, [("x".toList, "1".toList)]⟩, none⟩
    ∃ p, Parsed Reference.envoy true p ∧
      ¬ ∀ status st', p.executeOperation Reference.envoy
          (DynamicFunctionProcessor.executeOperation Reference.envoy) (fun _ => []) st =
        .returned (status, st') → status ≠ .ok → st' = st := by
  let side := Processor.ofSide true
  let p : HeaderProcessor := .appendHeader ⟨side, ⟨side, .static, "k".toList⟩,
    [⟨side, .static, "a".toList⟩, ⟨side, .getHdr, "x,5".toList⟩], none⟩
  refine ⟨p, ⟨fun _ => false, "append-header", ["k", "a", "%[hdr(x,5)]"], by decide +kernel⟩,
    fun hunchanged => ?_⟩
  obtain ⟨⟨status, st'⟩, hreturned, htest⟩ := Outcome.exists_of_returnsWith
    (show (p.executeOperation Reference.envoy
        (DynamicFunctionProcessor.executeOperation Reference.envoy) (fun _ => [])
        ⟨⟨true, [("x".toList, "1".toList)]⟩, none⟩).returnsWith
      (fun r => decide (r.1 ≠ .ok ∧ r.2.headers.map ≠ [("x".toList, "1".toList)])) = true by
      decide +kernel)
  obtain ⟨hstatus, hmap⟩ := of_decide_eq_true htest
  exact hmap (by rw [hunchanged status st' hreturned hstatus])

/-! ## Failing operands -/

/-- An operand that fails ends every operation but `set-path`, in the state it was evaluated in; in
`set-header` the value is evaluated first if it is the key that fails. -/
theorem failed_of_evaluates {eval : Evaluator M I}
    (h : evaluateCondition eval maps p.conditionProcessor st = .returned (.ok, true))
    (hpath : ∀ q, p ≠ .setPath q) {d : DynamicFunctionProcessor} {st' : StreamState M I}
    (hd : Evaluates E eval st p d st') {status : Status} {value : Str}
    (hfails : eval d st'.headers st'.streamInfo = .returned (status, value))
    (hstatus : status ≠ .ok)
    (hvalue : ∀ q, p = .setHeader q → d = q.headerKey →
      (eval q.headerVal st.headers st.streamInfo).Returns) :
    ∃ status', status' ≠ .ok ∧ p.executeOperation E eval maps st = .returned (status', st') := by
  cases hd with
  | @headerKey p =>
    -- `set-header` evaluates both operands before it looks at their status
    obtain ⟨⟨valueStatus, value⟩, hvalue⟩ := hvalue p rfl rfl
    rw [executeOperation, setHeader_of_true h]
    exact ⟨_, Status.unknown_ne_ok _,
      by simp [hfails, hvalue, hstatus, -String.reduceToList]; rfl⟩
  | @headerVal p hkey =>
    obtain ⟨⟨keyStatus, key⟩, hkey⟩ := hkey
    rw [executeOperation, setHeader_of_true h]
    -- the status of the key is checked first, and either one makes the operation fail
    by_cases hks : keyStatus = .ok
    · exact ⟨_, Status.unknown_ne_ok _,
        by simp [hfails, hkey, hks, hstatus, -String.reduceToList]; rfl⟩
    · exact ⟨_, Status.unknown_ne_ok _,
        by simp [hfails, hkey, hks, -String.reduceToList]; rfl⟩
  | appendKey =>
    rw [executeOperation, appendHeader_of_true h]
    exact ⟨status, hstatus, by simp [hfails, hstatus]⟩
  | appendVal hkey hvals hin =>
    rw [executeOperation, appendHeader_of_true h, hkey, hvals]
    refine ⟨status, hstatus, ?_⟩
    simp only [Outcome.bind_returned, ne_eq, not_true_eq_false, if_false]
    -- the values before are appended when this one fails
    rw [hin.appendValues_stops _ (fun value' hok =>
      hstatus (Outcome.pair_inj (hfails.symm.trans hok)).1), hfails]
    rfl
  | requestPath => exact (hpath _ rfl).elim
  | metadataKey =>
    rw [executeOperation, setDynamicMetadata_of_true h]
    exact ⟨_, Status.unknown_ne_ok _, by simp [hfails, hstatus, -String.reduceToList]; rfl⟩
  | metadataValue hkey hne =>
    rw [executeOperation, setDynamicMetadata_of_true h]
    exact ⟨_, Status.unknown_ne_ok _,
      by simp [hfails, hkey, hne, hstatus, -String.reduceToList]; rfl⟩

/-- Some operand fails in such a way that the operation does not: the operand of `set-path`, or the
key of a `set-header` whose value throws or dereferences a null `Path()`. -/
def IgnoresFailure (E : Envoy M I) (p : HeaderProcessor) (st : StreamState M I) : Prop :=
  (∃ q status value, p = .setPath q ∧
    DynamicFunctionProcessor.executeOperation E q.requestPath st.headers st.streamInfo =
      .returned (status, value) ∧ status ≠ .ok) ∨
  ∃ q status value, p = .setHeader q ∧
    DynamicFunctionProcessor.executeOperation E q.headerKey st.headers st.streamInfo =
      .returned (status, value) ∧ status ≠ .ok ∧
    (q.headerVal.BadPosition E ∨ q.headerVal.NullPath E st.headers)

/-- Where the condition of a parsed operation is true, every operand that fails makes the operation
fail in the state the operand was evaluated in, so that the run stops there, exactly unless it is
the operand of `set-path` or the key of a `set-header` whose value does not return. -/
theorem operandFailure_stops_iff {isRequest : Bool} (hparsed : Parsed E isRequest p)
    (hcondition : evaluateCondition (DynamicFunctionProcessor.executeOperation E) maps
      p.conditionProcessor st = .returned (.ok, true)) :
    (∀ d st' status value,
        Evaluates E (DynamicFunctionProcessor.executeOperation E) st p d st' →
        DynamicFunctionProcessor.executeOperation E d st'.headers st'.streamInfo =
          .returned (status, value) → status ≠ .ok →
        (∃ status', status' ≠ .ok ∧
          p.executeOperation E (DynamicFunctionProcessor.executeOperation E) maps st =
            .returned (status', st')) ∧
        ∀ rest, run (fun p => p.executeOperation E (DynamicFunctionProcessor.executeOperation E)
          maps) (· = Status.ok) (p :: rest) st = .returned st') ↔
      ¬ IgnoresFailure E p st := by
  constructor
  · rintro hstops (⟨q, status, value, rfl, hpath, hstatus⟩ |
      ⟨q, status, value, rfl, hkey, hstatus, hvalue⟩)
    · obtain ⟨⟨status', hstatus', hfailed⟩, -⟩ :=
        hstops q.requestPath st status value .requestPath hpath hstatus
      -- `set-path` goes on with the empty path and returns `ok`, or does not return
      rw [executeOperation, SetPathProcessor.executeOperation_of_returned hcondition hpath]
        at hfailed
      split at hfailed
      · exact hstatus' (Outcome.pair_inj hfailed).1.symm
      · cases hfailed
    · obtain ⟨⟨status', -, hfailed⟩, -⟩ :=
        hstops q.headerKey st status value .headerKey hkey hstatus
      have hwf : q.headerVal.WellFormed E := hparsed.wellFormed _ (by simp [operands])
      rw [executeOperation, setHeader_of_true hcondition, hkey, Outcome.bind_returned] at hfailed
      obtain ⟨result, hreturned, -⟩ := Outcome.bind_eq_returned.mp hfailed
      -- the operation returned, so that the value of `set-header` did too
      exact (DynamicFunctionProcessor.returns_iff hwf).mp ⟨result, hreturned⟩ hvalue
  · intro hgood d st' status value hd hfails hstatus
    have hpath : ∀ q, p ≠ .setPath q := by
      rintro q rfl
      cases hd
      exact hgood (Or.inl ⟨q, status, value, rfl, hfails, hstatus⟩)
    -- `set-header` evaluates its operands in the state it starts in
    have hsame : ∀ q, p = .setHeader q → st' = st := by
      rintro q rfl
      cases hd <;> rfl
    have hvalue : ∀ q, p = .setHeader q → d = q.headerKey →
        (DynamicFunctionProcessor.executeOperation E q.headerVal st.headers
          st.streamInfo).Returns := by
      rintro q rfl rfl
      have hwf : q.headerVal.WellFormed E := hparsed.wellFormed _ (by simp [operands])
      obtain rfl := hsame q rfl
      exact (DynamicFunctionProcessor.returns_iff hwf).mpr fun hbad =>
        hgood (Or.inr ⟨q, status, value, rfl, hfails, hstatus, hbad⟩)
    obtain ⟨status', hstatus', hfailed⟩ :=
      failed_of_evaluates hcondition hpath hd hfails hstatus hvalue
    refine ⟨⟨status', hstatus', hfailed⟩, fun rest => ?_⟩
    exact run_cons_of_bad hfailed (by simp [hstatus'])

/-- A failing value ends `append-header k %[hdr(x,5)]` where `x` has one value only. -/
theorem operandFailure_stops_appendHeader :
    let st : StreamState (List (Str × Str)) _ := ⟨⟨true, [("x".toList, "1".toList)]⟩, none⟩
    ∃ p, Parsed Reference.envoy true p ∧
      run (fun p => p.executeOperation Reference.envoy
        (DynamicFunctionProcessor.executeOperation Reference.envoy) (fun _ => []))
        (· = Status.ok) [p] st = .returned st := by
  let side := Processor.ofSide true
  let q : AppendHeaderProcessor :=
    ⟨side, ⟨side, .static, "k".toList⟩, [⟨side, .getHdr, "x,5".toList⟩], none⟩
  have hparsed : Parsed Reference.envoy true (.appendHeader q) :=
    ⟨fun _ => false, "append-header", ["k", "%[hdr(x,5)]"], by decide +kernel⟩
  refine ⟨.appendHeader q, hparsed, ?_⟩
  have hgood : ¬ IgnoresFailure Reference.envoy (.appendHeader q)
      ⟨⟨true, [("x".toList, "1".toList)]⟩, none⟩ := by
    rintro (⟨_, _, _, hq, -⟩ | ⟨_, _, _, hq, -⟩) <;> cases hq
  exact ((operandFailure_stops_iff hparsed rfl).mpr hgood ⟨side, .getHdr, "x,5".toList⟩ _
    (.outOfRange "invalid match syntax -- hdr position out of bounds") []
    (.appendVal rfl (show q.headerVals = [] ++ _ :: [] from rfl) .nil) (by decide +kernel)
    nofun).2 []

/-- `set-path %[hdr(x,5)]` succeeds where `x` has one value only, although its operand fails. -/
theorem not_operandFailure_stops_setPath :
    let st : StreamState (List (Str × Str)) _ :=
      ⟨⟨true, [(":path".toList, "/a".toList), ("x".toList, "1".toList)]⟩, none⟩
    ∃ p, Parsed Reference.envoy true p ∧
      evaluateCondition (DynamicFunctionProcessor.executeOperation Reference.envoy) (fun _ => [])
        p.conditionProcessor st = .returned (.ok, true) ∧
      ¬ ∀ d st' status value,
        Evaluates Reference.envoy (DynamicFunctionProcessor.executeOperation Reference.envoy) st p
          d st' →
        DynamicFunctionProcessor.executeOperation Reference.envoy d st'.headers st'.streamInfo =
          .returned (status, value) → status ≠ .ok →
        (∃ status', status' ≠ .ok ∧
          p.executeOperation Reference.envoy
            (DynamicFunctionProcessor.executeOperation Reference.envoy) (fun _ => []) st =
            .returned (status', st')) ∧
        ∀ rest, run (fun p => p.executeOperation Reference.envoy
          (DynamicFunctionProcessor.executeOperation Reference.envoy) (fun _ => []))
          (· = Status.ok) (p :: rest) st = .returned st' := by
  let side := Processor.ofSide true
  let q : SetPathProcessor := ⟨side, ⟨side, .getHdr, "x,5".toList⟩, none⟩
  refine ⟨.setPath q, ⟨fun _ => false, "set-path", ["%[hdr(x,5)]"], by decide +kernel⟩, rfl,
    fun hstops => ?_⟩
  obtain ⟨⟨status', hstatus', hfailed⟩, -⟩ := hstops q.requestPath _
    (.outOfRange "invalid match syntax -- hdr position out of bounds") [] .requestPath
    (by decide +kernel) nofun
  obtain ⟨⟨status, st'⟩, hreturned, htest⟩ := Outcome.exists_of_returnsWith
    (show ((HeaderProcessor.setPath q).executeOperation Reference.envoy
        (DynamicFunctionProcessor.executeOperation Reference.envoy) (fun _ => [])
        ⟨⟨true, [(":path".toList, "/a".toList), ("x".toList, "1".toList)]⟩, none⟩).returnsWith
      (fun r => decide (r.1 = .ok)) = true by decide +kernel)
  rw [hreturned] at hfailed
  obtain ⟨rfl, -⟩ := Outcome.pair_inj hfailed
  exact hstatus' (of_decide_eq_true htest)

/-! ## False conditions -/

/-- Where the condition of a parsed operation is false, the operation does nothing, exactly unless
it is a `set-path` whose operand throws or dereferences a null `Path()`. -/
theorem falseCondition_noop_iff {isRequest : Bool} (hparsed : Parsed E isRequest p)
    (hcondition : evaluateCondition (DynamicFunctionProcessor.executeOperation E) maps
      p.conditionProcessor st = .returned (.ok, false)) :
    p.executeOperation E (DynamicFunctionProcessor.executeOperation E) maps st =
        .returned (.ok, st) ↔
      ¬ ∃ q, p = .setPath q ∧
        (q.requestPath.BadPosition E ∨ q.requestPath.NullPath E st.headers) := by
  rw [executeOperation_of_false hcondition]
  cases p with
  -- `set-path` alone evaluates its operand before its condition
  | setPath q =>
    have hwf : q.requestPath.WellFormed E := hparsed.wellFormed _ (by simp [operands])
    have hreturns := @DynamicFunctionProcessor.returns_iff _ _ E q.requestPath st.headers
      st.streamInfo hwf
    simp only [setPath.injEq, exists_eq_left', ← hreturns]
    cases DynamicFunctionProcessor.executeOperation E q.requestPath st.headers st.streamInfo <;>
      simp
  | setHeader q => simp
  | appendHeader q => simp
  | setDynamicMetadata q => simp

/-- `set-path %[hdr(b,x)]` throws, also if its condition is false. -/
theorem not_falseCondition_noop_setPath :
    let st : StreamState (List (Str × Str)) _ :=
      ⟨⟨true, [(":path".toList, "/a".toList)]⟩, some []⟩
    ∃ p maps, Parsed Reference.envoy true p ∧
      evaluateCondition (DynamicFunctionProcessor.executeOperation Reference.envoy) maps
        p.conditionProcessor st = .returned (.ok, false) ∧
      ¬ p.executeOperation Reference.envoy
          (DynamicFunctionProcessor.executeOperation Reference.envoy) maps st =
        .returned (.ok, st) := by
  let side := Processor.ofSide true
  let q : SetPathProcessor := ⟨side, ⟨side, .getHdr, "b,x".toList⟩,
    some ⟨side, [], [("v".toList, true)]⟩⟩
  let v : SetBoolProcessor := ⟨side, .found, ⟨side, .static, "s".toList⟩, ⟨side, .static, []⟩⟩
  refine ⟨.setPath q, fun _ => [("v".toList, v)], ⟨fun _ => true, "set-path",
    ["%[hdr(b,x)]", "if", "not", "v"], by decide +kernel⟩, by decide +kernel, fun hnoop => ?_⟩
  obtain ⟨result, hreturned, -⟩ := Outcome.bind_eq_returned.mp
    ((executeOperation_of_false (p := .setPath q) (by decide +kernel)).symm.trans hnoop)
  have hthrew : (DynamicFunctionProcessor.executeOperation Reference.envoy q.requestPath
      ⟨true, [(":path".toList, "/a".toList)]⟩ (some [])).returnsWith (fun _ => true) = false := by
    decide +kernel
  rw [hreturned] at hthrew
  cases hthrew

/-- `append-header k %[hdr(b,x)]` does nothing if its condition is false. -/
theorem falseCondition_noop_appendHeader :
    let st : StreamState (List (Str × Str)) _ :=
      ⟨⟨true, [(":path".toList, "/a".toList)]⟩, some []⟩
    ∃ p maps, Parsed Reference.envoy true p ∧
      p.executeOperation Reference.envoy
          (DynamicFunctionProcessor.executeOperation Reference.envoy) maps st =
        .returned (.ok, st) := by
  let side := Processor.ofSide true
  let q : AppendHeaderProcessor := ⟨side, ⟨side, .static, "k".toList⟩,
    [⟨side, .getHdr, "b,x".toList⟩], some ⟨side, [], [("v".toList, true)]⟩⟩
  let v : SetBoolProcessor := ⟨side, .found, ⟨side, .static, "s".toList⟩, ⟨side, .static, []⟩⟩
  have hparsed : Parsed Reference.envoy true (.appendHeader q) :=
    ⟨fun _ => true, "append-header", ["k", "%[hdr(b,x)]", "if", "not", "v"], by decide +kernel⟩
  refine ⟨.appendHeader q, fun _ => [("v".toList, v)], hparsed,
    (falseCondition_noop_iff hparsed (by decide +kernel)).mpr ?_⟩
  rintro ⟨_, hq, -⟩
  cases hq

end HeaderProcessor

end HeaderRewrite
