import HeaderRewrite.Execution.Condition

/-!
# Executing an operation

An operation evaluates its condition first. A bad status ends it, a false condition makes it do
nothing, and after a true one it does what it does without a condition. `set-path` differs in that
it evaluates its operand before it looks at the value of the condition.

## Main definitions

* `SetPathProcessor.queryString`: the part of a path that `set-path` keeps;
* `AppendHeaderProcessor.InTurn`: values that are evaluated and appended one after the other;
* `HeaderProcessor.Evaluates`, `HeaderProcessor.Effect`: the operands that an operation evaluates
  after a true condition, and what it does where it succeeds.

## Main results

* `HeaderProcessor.executeOperation_of_false` and its companions: the condition comes first;
* `HeaderProcessor.threw_cases`, `HeaderProcessor.undefined_cases`: where an operation fails to
  return;
* `HeaderProcessor.state_cases`: how an operation that returns can have changed the state.
-/

namespace HeaderRewrite

open Cxx Utility

variable {M I : Type}

/-! ## The condition of an operation -/

/-- Nothing is thrown out of the evaluation of a condition. -/
theorem evaluateCondition_ne_threw (eval : Evaluator M I) (maps : SetBoolProcessorMaps)
    (conditionProcessor : Option ConditionProcessor) (st : StreamState M I) (e : Exception) :
    evaluateCondition eval maps conditionProcessor st ≠ .threw e := by
  cases conditionProcessor with
  | none => nofun
  | some c =>
    intro h
    rcases Outcome.bind_eq_threw.mp h with hc | ⟨_, -, h⟩
    · exact ConditionProcessor.executeOperationRecursively_ne_threw _ _ _ e hc
    · dsimp only at h
      split at h <;> cases h

/-- The condition of an operation has a bad status, is false, is true, or is undefined. -/
theorem evaluateCondition_cases (eval : Evaluator M I) (maps : SetBoolProcessorMaps)
    (conditionProcessor : Option ConditionProcessor) (st : StreamState M I) :
    (∃ status value, status ≠ .ok ∧
        evaluateCondition eval maps conditionProcessor st = .returned (status, value)) ∨
      evaluateCondition eval maps conditionProcessor st = .returned (.ok, false) ∨
      evaluateCondition eval maps conditionProcessor st = .returned (.ok, true) ∨
      ∃ u, evaluateCondition eval maps conditionProcessor st = .undefined u := by
  cases h : evaluateCondition eval maps conditionProcessor st with
  | returned result =>
    obtain ⟨status, value⟩ := result
    by_cases hstatus : status = .ok
    · cases value <;> simp [hstatus]
    · exact Or.inl ⟨status, value, hstatus, rfl⟩
  | threw e => exact (evaluateCondition_ne_threw _ _ _ _ e h).elim
  | undefined u => exact Or.inr (Or.inr (Or.inr ⟨u, rfl⟩))

/-- The evaluation of the condition reaches the literal `d`, whose variable is `q`: the literals
before it in its clause have a value. -/
def ReachesVariable (eval : Evaluator M I) (maps : SetBoolProcessorMaps)
    (conditionProcessor : Option ConditionProcessor) (st : StreamState M I) (d : Str × Bool)
    (q : SetBoolProcessor) : Prop :=
  ∃ c, conditionProcessor = some c ∧
    Reached .ok (ConditionProcessor.executeOperand eval (maps c.boolProcessors) st.headers
    st.streamInfo) c.clauses d ∧ (maps c.boolProcessors).lookup d.1 = some q

section Side

open HttpHeaderRewriteFilter

variable {E : Envoy M I} {eval : Evaluator M I} {f : HttpHeaderRewriteFilter} {isRequest : Bool}
  {p : HeaderProcessor} {st : StreamState M I}

/-- Undefined behavior of a condition is that of a variable that is evaluated. -/
theorem reachesVariable_of_undefined (h : SideWellFormed E f isRequest)
    (hp : p ∈ f.headerProcessors isRequest) {u : UndefinedBehavior}
    (hu : evaluateCondition eval f.setBoolProcessors p.conditionProcessor st = .undefined u) :
    ∃ d q, ReachesVariable eval f.setBoolProcessors p.conditionProcessor st d q ∧
      (∀ o ∈ q.operands, o.WellFormed E ∧ o.toProcessor = .ofSide isRequest) ∧
      q.executeOperation eval st.headers st.streamInfo d.2 = .undefined u := by
  cases hc : p.conditionProcessor with
  | none =>
    rw [hc] at hu
    cases hu
  | some c =>
    obtain ⟨-, hwf⟩ := h.condition p hp c hc
    rw [hc, evaluateCondition] at hu
    rcases Outcome.bind_eq_undefined.mp hu with hu | ⟨_, -, hu⟩
    · rw [ConditionProcessor.executeOperation_eq hwf] at hu
      obtain ⟨d, hreached, hd⟩ := reached_of_evalClauses hu
      have hmem := ConditionProcessor.mem_of_reached hwf hreached
      obtain ⟨q, hq, hoperand⟩ := h.exists_variable hp hc hmem
      refine ⟨d, q, ⟨c, rfl, hreached, hq⟩, hoperand, ?_⟩
      rwa [ConditionProcessor.executeOperand_of_lookup hq] at hd
    · dsimp only at hu
      split at hu <;> cases hu

/-- A bad status of a condition is that of a variable that is evaluated, or of an exception in
one. -/
theorem reachesVariable_of_ne_ok (h : SideWellFormed E f isRequest)
    (hp : p ∈ f.headerProcessors isRequest) {status : Status} {value : Bool}
    (hcondition : evaluateCondition eval f.setBoolProcessors p.conditionProcessor st =
      .returned (status, value)) (hstatus : status ≠ .ok) :
    ∃ d q, ReachesVariable eval f.setBoolProcessors p.conditionProcessor st d q ∧
      ((∃ result, q.executeOperation eval st.headers st.streamInfo d.2 = .returned result ∧
          result.1 ≠ .ok) ∨
        ∃ e, q.executeOperation eval st.headers st.streamInfo d.2 = .threw e) := by
  cases hc : p.conditionProcessor with
  | none =>
    rw [hc] at hcondition
    exact (hstatus (Outcome.pair_inj hcondition).1.symm).elim
  | some c =>
    obtain ⟨-, hwf⟩ := h.condition p hp c hc
    rw [hc, evaluateCondition] at hcondition
    obtain ⟨⟨status', value'⟩, hexecute, hcondition⟩ := Outcome.bind_eq_returned.mp hcondition
    dsimp only at hcondition
    split at hcondition
    · obtain ⟨rfl, -⟩ := Outcome.pair_inj hcondition
      rw [ConditionProcessor.executeOperation_eq hwf] at hexecute
      obtain ⟨d, hreached, hd⟩ := exists_fails_of_evalClauses hexecute hstatus
      have hmem := ConditionProcessor.mem_of_reached hwf hreached
      obtain ⟨q, hq, -⟩ := h.exists_variable hp hc hmem
      refine ⟨d, q, ⟨c, rfl, hreached, hq⟩, ?_⟩
      rw [← ConditionProcessor.executeOperand_of_lookup hq]
      cases hd with
      | returned hd hne => exact Or.inl ⟨_, hd, hne⟩
      | threw hd => exact Or.inr ⟨_, hd⟩
    · exact (hstatus (Outcome.pair_inj hcondition).1.symm).elim

/-- The operands of a variable that is evaluated belong to the side. -/
theorem operand_of_reachesVariable (h : SideWellFormed E f isRequest)
    (hp : p ∈ f.headerProcessors isRequest) {d : Str × Bool} {q : SetBoolProcessor}
    (hreaches : ReachesVariable eval f.setBoolProcessors p.conditionProcessor st d q) :
    ∀ o ∈ q.operands, o.WellFormed E ∧ o.toProcessor = .ofSide isRequest := by
  obtain ⟨c, hc, hreached, hq⟩ := hreaches
  have hmem := ConditionProcessor.mem_of_reached (h.condition p hp c hc).2 hreached
  obtain ⟨q', hq', hoperand⟩ := h.exists_variable hp hc hmem
  obtain rfl := Option.some.inj (hq.symm.trans hq')
  exact hoperand

/-- A condition is undefined where a variable that is evaluated is. -/
theorem exists_undefined_of_reachesVariable (h : SideWellFormed E f isRequest)
    (hp : p ∈ f.headerProcessors isRequest) {d : Str × Bool} {q : SetBoolProcessor}
    (hreaches : ReachesVariable eval f.setBoolProcessors p.conditionProcessor st d q)
    {u : UndefinedBehavior}
    (hu : q.executeOperation eval st.headers st.streamInfo d.2 = .undefined u) :
    ∃ u', evaluateCondition eval f.setBoolProcessors p.conditionProcessor st = .undefined u' := by
  obtain ⟨c, hc, hreached, hq⟩ := hreaches
  obtain ⟨-, hwf⟩ := h.condition p hp c hc
  rw [← ConditionProcessor.executeOperand_of_lookup hq] at hu
  obtain ⟨u', hu'⟩ := exists_undefined_of_reached hreached hu
  rw [← ConditionProcessor.executeOperation_eq hwf] at hu'
  exact ⟨u', by simp [hc, evaluateCondition, hu']⟩

end Side

namespace HeaderProcessor

section Condition

variable {E : Envoy M I} {eval : Evaluator M I} {maps : SetBoolProcessorMaps} {p : HeaderProcessor}
  {st : StreamState M I}

/-- A bad status of the condition is that of the operation. -/
theorem executeOperation_of_ne_ok {status : Status} {value : Bool}
    (h : evaluateCondition eval maps p.conditionProcessor st = .returned (status, value))
    (hstatus : status ≠ .ok) :
    p.executeOperation E eval maps st = .returned (status, st) := by
  cases p <;>
    simp only [conditionProcessor] at h <;>
    simp [executeOperation, SetHeaderProcessor.executeOperation,
      AppendHeaderProcessor.executeOperation, SetPathProcessor.executeOperation,
      SetDynamicMetadataProcessor.executeOperation, h, hstatus, -String.reduceToList]

/-- After a false condition an operation does nothing, except that `set-path` evaluates its
operand. -/
theorem executeOperation_of_false
    (h : evaluateCondition eval maps p.conditionProcessor st = .returned (.ok, false)) :
    p.executeOperation E eval maps st =
      match p with
      | setPath q => do
        let _ ← eval q.requestPath st.headers st.streamInfo
        return (.ok, st)
      | _ => .returned (.ok, st) := by
  cases p <;>
    simp only [conditionProcessor] at h <;>
    simp [executeOperation, SetHeaderProcessor.executeOperation,
      AppendHeaderProcessor.executeOperation, SetPathProcessor.executeOperation,
      SetDynamicMetadataProcessor.executeOperation, h, -String.reduceToList]

/-- Undefined behavior of the condition is that of the operation. -/
theorem executeOperation_of_undefined {u : UndefinedBehavior}
    (h : evaluateCondition eval maps p.conditionProcessor st = .undefined u) :
    p.executeOperation E eval maps st = .undefined u := by
  cases p <;>
    simp only [conditionProcessor] at h <;>
    simp [executeOperation, SetHeaderProcessor.executeOperation,
      AppendHeaderProcessor.executeOperation, SetPathProcessor.executeOperation,
      SetDynamicMetadataProcessor.executeOperation, h, -String.reduceToList]

end Condition

end HeaderProcessor

/-! ## Values appended in turn -/

namespace AppendHeaderProcessor

/-- Values that are evaluated and appended one after the other: each has a value in the state that
appending those before it left. -/
inductive InTurn (E : Envoy M I) (eval : Evaluator M I) (key : Str) :
    List DynamicFunctionProcessor → StreamState M I → List Str → StreamState M I → Prop
  | nil {st : StreamState M I} : InTurn E eval key [] st [] st
  | cons {headerVal : DynamicFunctionProcessor} {headerVals : List DynamicFunctionProcessor}
      {value : Str} {values : List Str} {st st' : StreamState M I} :
      eval headerVal st.headers st.streamInfo = .returned (.ok, value) →
      InTurn E eval key headerVals
        (st.withMap (E.appendCopy st.headers.map (E.lowerCaseString key) value)) values st' →
      InTurn E eval key (headerVal :: headerVals) st (value :: values) st'

section InTurn

variable {E : Envoy M I} {eval : Evaluator M I} {key : Str}
  {headerVals : List DynamicFunctionProcessor} {st st' : StreamState M I} {values : List Str}

/-- Appending does not change what class the headers belong to. -/
theorem InTurn.isRequestHeaderMap_eq (h : InTurn E eval key headerVals st values st') :
    st'.headers.isRequestHeaderMap = st.headers.isRequestHeaderMap := by
  induction h with
  | nil => rfl
  | cons _ _ ih => exact ih

/-- Appending does not change the stream info. -/
theorem InTurn.streamInfo_eq (h : InTurn E eval key headerVals st values st') :
    st'.streamInfo = st.streamInfo := by
  induction h with
  | nil => rfl
  | cons _ _ ih => exact ih

/-- The loop goes on after values that are appended. -/
theorem InTurn.appendValues_append (h : InTurn E eval key headerVals st values st')
    (rest : List DynamicFunctionProcessor) :
    appendValues E eval key (headerVals ++ rest) st = appendValues E eval key rest st' := by
  induction h with
  | nil => rfl
  | cons hvalue _ ih => simp [appendValues, hvalue, ih]

/-- The loop appends all values, or ends at the first whose evaluation does not succeed. -/
theorem appendValues_cases (E : Envoy M I) (eval : Evaluator M I) (key : Str)
    (headerVals : List DynamicFunctionProcessor) (st : StreamState M I) :
    (∃ values st', InTurn E eval key headerVals st values st') ∨
      ∃ before headerVal after values st',
        headerVals = before ++ headerVal :: after ∧ InTurn E eval key before st values st' ∧
        ∀ value, eval headerVal st'.headers st'.streamInfo ≠ .returned (.ok, value) := by
  induction headerVals generalizing st with
  | nil => exact Or.inl ⟨[], st, .nil⟩
  | cons d headerVals ih =>
    by_cases hvalue : ∃ value, eval d st.headers st.streamInfo = .returned (.ok, value)
    · obtain ⟨value, hvalue⟩ := hvalue
      rcases ih (st.withMap (E.appendCopy st.headers.map (E.lowerCaseString key) value)) with
        ⟨values, st', h⟩ | ⟨before, d', after, values, st', rfl, h, hfails⟩
      · exact Or.inl ⟨value :: values, st', .cons hvalue h⟩
      · exact Or.inr ⟨d :: before, d', after, value :: values, st', rfl, .cons hvalue h, hfails⟩
    · exact Or.inr ⟨[], d, headerVals, [], st, rfl, .nil, fun value h => hvalue ⟨value, h⟩⟩

/-- The loop ends at the first value whose evaluation does not succeed. -/
theorem InTurn.appendValues_stops (h : InTurn E eval key headerVals st values st')
    {headerVal : DynamicFunctionProcessor} (after : List DynamicFunctionProcessor)
    (hfails : ∀ value, eval headerVal st'.headers st'.streamInfo ≠ .returned (.ok, value)) :
    appendValues E eval key (headerVals ++ headerVal :: after) st = (do
      let (status, _) ← eval headerVal st'.headers st'.streamInfo
      return (status, st')) := by
  rw [h.appendValues_append, appendValues]
  cases hvalue : eval headerVal st'.headers st'.streamInfo with
  | returned result =>
    have hstatus : result.1 ≠ .ok := fun hok => hfails result.2 (by rw [hvalue, ← hok])
    simp [hstatus]
  | threw e => rfl
  | undefined u => rfl

/-- The loop ends with success exactly if all values are appended. -/
theorem appendValues_eq_ok_iff :
    appendValues E eval key headerVals st = .returned (.ok, st') ↔
      ∃ values, InTurn E eval key headerVals st values st' := by
  constructor
  · intro h
    rcases appendValues_cases E eval key headerVals st with
      ⟨values, st₁, hin⟩ | ⟨before, d, after, values, st₁, rfl, hin, hfails⟩
    · have hall := hin.appendValues_append []
      rw [List.append_nil, h] at hall
      obtain ⟨-, rfl⟩ := Outcome.pair_inj hall
      exact ⟨values, hin⟩
    · rw [hin.appendValues_stops after hfails] at h
      obtain ⟨⟨status, value⟩, hd, h⟩ := Outcome.bind_eq_returned.mp h
      obtain ⟨rfl, rfl⟩ := Outcome.pair_inj h
      exact (hfails value hd).elim
  · rintro ⟨values, h⟩
    have hall := h.appendValues_append []
    rwa [List.append_nil] at hall

/-- The loop ends otherwise exactly as the evaluation of a value does that is reached and does not
succeed. -/
theorem exists_of_appendValues (h : ¬ ∃ st', appendValues E eval key headerVals st =
      .returned (.ok, st')) :
    ∃ before headerVal after values st', headerVals = before ++ headerVal :: after ∧
      InTurn E eval key before st values st' ∧
      appendValues E eval key headerVals st = (do
        let (status, _) ← eval headerVal st'.headers st'.streamInfo
        return (status, st')) := by
  rcases appendValues_cases E eval key headerVals st with
    ⟨values, st₁, hin⟩ | ⟨before, d, after, values, st₁, rfl, hin, hfails⟩
  · exact (h ⟨st₁, appendValues_eq_ok_iff.mpr ⟨values, hin⟩⟩).elim
  · exact ⟨before, d, after, values, st₁, rfl, hin, hin.appendValues_stops after hfails⟩

end InTurn

end AppendHeaderProcessor

/-! ## The path -/

namespace SetPathProcessor

/-- The part of a path that `set-path` keeps: the text from the first question mark on. -/
def queryString (path : Str) : Str :=
  match findFirstOf path '?' with
  | none => []
  | some offset => path.drop offset

theorem pathEntry_setPath {E : Envoy M I} (hlaws : E.HeaderLaws) (map : M) (value : Str) :
    E.pathEntry (E.setPath map value) = some value := by
  rw [hlaws.pathEntry_eq, hlaws.get_setPath, if_pos rfl]
  rfl

/-- Where the operand has been evaluated to any string, it becomes the path before the query
string. -/
theorem executeOperation_of_returned {E : Envoy M I} {eval : Evaluator M I}
    {maps : SetBoolProcessorMaps} {p : SetPathProcessor} {st : StreamState M I} {status : Status}
    {newPath : Str}
    (hcondition : evaluateCondition eval maps p.conditionProcessor st = .returned (.ok, true))
    (hpath : eval p.requestPath st.headers st.streamInfo = .returned (status, newPath)) :
    p.executeOperation E eval maps st =
      if st.headers.isRequestHeaderMap then
        .returned (.ok, st.withMap
          (E.setPath st.headers.map (newPath ++ queryString (E.path st.headers.map))))
      else .undefined .badCast := by
  unfold executeOperation queryString
  simp only [hcondition, hpath, Outcome.bind_returned]
  by_cases hside : st.headers.isRequestHeaderMap = true
  · cases hoffset : findFirstOf (E.path st.headers.map) '?' with
    | none => simp [hside]
    | some offset =>
      have hle : offset ≤ (E.path st.headers.map).length :=
        Nat.le_of_lt (List.findIdx?_eq_some_iff_getElem.mp hoffset).1
      have hrest : ((E.path st.headers.map).drop offset).take
          ((E.path st.headers.map).length - offset) = (E.path st.headers.map).drop offset :=
        List.take_of_length_le (by simp only [List.length_drop, Nat.le_refl])
      simp [hside, substr_of_le hle, hrest]
  · simp [hside]

end SetPathProcessor

/-! ## Operands and effect -/

namespace HeaderProcessor

/-- The operands that an operation evaluates after a true condition, each with the state it is
evaluated in. -/
inductive Evaluates (E : Envoy M I) (eval : Evaluator M I) (st : StreamState M I) :
    HeaderProcessor → DynamicFunctionProcessor → StreamState M I → Prop
  | headerKey {p : SetHeaderProcessor} : Evaluates E eval st (.setHeader p) p.headerKey st
  | headerVal {p : SetHeaderProcessor} :
      (eval p.headerKey st.headers st.streamInfo).Returns →
      Evaluates E eval st (.setHeader p) p.headerVal st
  | appendKey {p : AppendHeaderProcessor} : Evaluates E eval st (.appendHeader p) p.headerKey st
  | appendVal {p : AppendHeaderProcessor} {key : Str} {before after : List DynamicFunctionProcessor}
      {d : DynamicFunctionProcessor} {values : List Str} {st' : StreamState M I} :
      eval p.headerKey st.headers st.streamInfo = .returned (.ok, key) →
      p.headerVals = before ++ d :: after →
      AppendHeaderProcessor.InTurn E eval key before st values st' →
      Evaluates E eval st (.appendHeader p) d st'
  | requestPath {p : SetPathProcessor} : Evaluates E eval st (.setPath p) p.requestPath st
  | metadataKey {p : SetDynamicMetadataProcessor} :
      Evaluates E eval st (.setDynamicMetadata p) p.metadataKey st
  | metadataValue {p : SetDynamicMetadataProcessor} {key : Str} :
      eval p.metadataKey st.headers st.streamInfo = .returned (.ok, key) → key ≠ [] →
      Evaluates E eval st (.setDynamicMetadata p) p.metadataValue st

/-- An operand that is evaluated is one of the operation's. -/
theorem Evaluates.mem {E : Envoy M I} {eval : Evaluator M I} {st st' : StreamState M I}
    {p : HeaderProcessor} {d : DynamicFunctionProcessor} (h : Evaluates E eval st p d st') :
    d ∈ p.operands := by
  cases h with
  | headerKey => simp [operands]
  | headerVal => simp [operands]
  | appendKey => simp [operands]
  | appendVal _ hvals _ => simp [operands, hvals]
  | requestPath => simp [operands]
  | metadataKey => simp [operands]
  | metadataValue => simp [operands]

/-- An operand is evaluated in the state that appending some values left: none, except for the
values of an `append-header`. -/
theorem Evaluates.exists_inTurn {E : Envoy M I} {eval : Evaluator M I} {st st' : StreamState M I}
    {p : HeaderProcessor} {d : DynamicFunctionProcessor} (h : Evaluates E eval st p d st') :
    ∃ key before values, AppendHeaderProcessor.InTurn E eval key before st values st' := by
  cases h with
  | appendVal _ _ hin => exact ⟨_, _, _, hin⟩
  | headerKey => exact ⟨[], [], [], .nil⟩
  | headerVal => exact ⟨[], [], [], .nil⟩
  | appendKey => exact ⟨[], [], [], .nil⟩
  | requestPath => exact ⟨[], [], [], .nil⟩
  | metadataKey => exact ⟨[], [], [], .nil⟩
  | metadataValue => exact ⟨[], [], [], .nil⟩

/-- The operands that an operation evaluates, each with the state it is evaluated in: all of them
after a true condition, and that of `set-path` also after a false one. -/
def EvaluatesOperand (E : Envoy M I) (eval : Evaluator M I) (maps : SetBoolProcessorMaps)
    (st : StreamState M I) (p : HeaderProcessor) (d : DynamicFunctionProcessor)
    (st' : StreamState M I) : Prop :=
  (evaluateCondition eval maps p.conditionProcessor st = .returned (.ok, true) ∧
    Evaluates E eval st p d st') ∨
  evaluateCondition eval maps p.conditionProcessor st = .returned (.ok, false) ∧ st' = st ∧
    ∃ q, p = .setPath q ∧ d = q.requestPath

theorem EvaluatesOperand.mem {E : Envoy M I} {eval : Evaluator M I} {maps : SetBoolProcessorMaps}
    {st st' : StreamState M I} {p : HeaderProcessor} {d : DynamicFunctionProcessor}
    (h : EvaluatesOperand E eval maps st p d st') : d ∈ p.operands := by
  rcases h with ⟨-, hd⟩ | ⟨-, -, q, rfl, rfl⟩
  · exact hd.mem
  · simp [operands]

theorem EvaluatesOperand.exists_inTurn {E : Envoy M I} {eval : Evaluator M I}
    {maps : SetBoolProcessorMaps} {st st' : StreamState M I} {p : HeaderProcessor}
    {d : DynamicFunctionProcessor} (h : EvaluatesOperand E eval maps st p d st') :
    ∃ key before values, AppendHeaderProcessor.InTurn E eval key before st values st' := by
  rcases h with ⟨-, hd⟩ | ⟨-, rfl, -⟩
  · exact hd.exists_inTurn
  · exact ⟨[], [], [], .nil⟩

/-- Operands are evaluated on headers of the class that the operation is started on. -/
theorem EvaluatesOperand.isRequestHeaderMap_eq {E : Envoy M I} {eval : Evaluator M I}
    {maps : SetBoolProcessorMaps} {st st' : StreamState M I} {p : HeaderProcessor}
    {d : DynamicFunctionProcessor} (h : EvaluatesOperand E eval maps st p d st') :
    st'.headers.isRequestHeaderMap = st.headers.isRequestHeaderMap := by
  obtain ⟨_, _, _, hin⟩ := h.exists_inTurn
  exact hin.isRequestHeaderMap_eq

/-- What an operation with a true condition does where it succeeds. -/
inductive Effect (E : Envoy M I) (eval : Evaluator M I) (st : StreamState M I) :
    HeaderProcessor → StreamState M I → Prop
  | setHeader {p : SetHeaderProcessor} {key value : Str} :
      eval p.headerKey st.headers st.streamInfo = .returned (.ok, key) →
      eval p.headerVal st.headers st.streamInfo = .returned (.ok, value) →
      Effect E eval st (.setHeader p)
        (st.withMap (E.setCopy st.headers.map (E.lowerCaseString key) value))
  | appendHeader {p : AppendHeaderProcessor} {key : Str} {values : List Str}
      {st' : StreamState M I} :
      eval p.headerKey st.headers st.streamInfo = .returned (.ok, key) →
      AppendHeaderProcessor.InTurn E eval key p.headerVals st values st' →
      Effect E eval st (.appendHeader p) st'
  | setPath {p : SetPathProcessor} {status : Status} {newPath : Str} :
      eval p.requestPath st.headers st.streamInfo = .returned (status, newPath) →
      st.headers.isRequestHeaderMap = true →
      Effect E eval st (.setPath p) (st.withMap (E.setPath st.headers.map
        (newPath ++ SetPathProcessor.queryString (E.path st.headers.map))))
  | setDynamicMetadata {p : SetDynamicMetadataProcessor} {key value : Str} {info : I} :
      eval p.metadataKey st.headers st.streamInfo = .returned (.ok, key) → key ≠ [] →
      eval p.metadataValue st.headers st.streamInfo = .returned (.ok, value) → value ≠ [] →
      st.streamInfo = some info →
      Effect E eval st (.setDynamicMetadata p) { st with
        streamInfo := some (SetDynamicMetadataProcessor.storeMetadata E info key value) }

section Ends

variable {E : Envoy M I} {eval : Evaluator M I} {maps : SetBoolProcessorMaps} {p : HeaderProcessor}
  {st st' : StreamState M I}

/-- After a true condition `set-header` evaluates both operands. -/
theorem setHeader_of_true {p : SetHeaderProcessor}
    (h : evaluateCondition eval maps p.conditionProcessor st = .returned (.ok, true)) :
    p.executeOperation E eval maps st = (do
      let (keyStatus, key) ← eval p.headerKey st.headers st.streamInfo
      let (valueStatus, value) ← eval p.headerVal st.headers st.streamInfo
      if keyStatus ≠ .ok then
        return (.unknown
          ("Failed to get dynamic value for set header -- ".toList ++ keyStatus.message), st)
      if valueStatus ≠ .ok then
        return (.unknown
          ("Failed to get dynamic value for set header -- ".toList ++ valueStatus.message), st)
      return (.ok, st.withMap (E.setCopy st.headers.map (E.lowerCaseString key) value))) := by
  rw [SetHeaderProcessor.executeOperation, h]
  rfl

/-- After a true condition `append-header` evaluates its key and then its values. -/
theorem appendHeader_of_true {p : AppendHeaderProcessor}
    (h : evaluateCondition eval maps p.conditionProcessor st = .returned (.ok, true)) :
    p.executeOperation E eval maps st = (do
      let (keyStatus, key) ← eval p.headerKey st.headers st.streamInfo
      if keyStatus ≠ .ok then
        return (keyStatus, st)
      AppendHeaderProcessor.appendValues E eval key p.headerVals st) := by
  rw [AppendHeaderProcessor.executeOperation, h]
  rfl

/-- After a true condition `set-path` evaluates its operand. -/
theorem setPath_of_true {p : SetPathProcessor}
    (h : evaluateCondition eval maps p.conditionProcessor st = .returned (.ok, true)) :
    p.executeOperation E eval maps st = (do
      let (_, newPath) ← eval p.requestPath st.headers st.streamInfo
      if st.headers.isRequestHeaderMap then
        return (.ok, st.withMap (E.setPath st.headers.map
          (newPath ++ SetPathProcessor.queryString (E.path st.headers.map))))
      else .undefined .badCast) := by
  cases hpath : eval p.requestPath st.headers st.streamInfo with
  | returned result =>
    exact SetPathProcessor.executeOperation_of_returned h hpath
  | threw e => simp [SetPathProcessor.executeOperation, h, hpath]
  | undefined u => simp [SetPathProcessor.executeOperation, h, hpath]

/-- After a true condition `set-metadata` evaluates its key and, if it has one, its value. -/
theorem setDynamicMetadata_of_true {p : SetDynamicMetadataProcessor}
    (h : evaluateCondition eval maps p.conditionProcessor st = .returned (.ok, true)) :
    p.executeOperation E eval maps st = Outcome.catchAs
        (fun e => (.unknown ("failed to set metadata -- ".toList ++ e.what), st)) (do
      let (metadataKeyStatus, key) ← eval p.metadataKey st.headers st.streamInfo
      if metadataKeyStatus ≠ .ok then
        return (.unknown ("failed to get dynamic value to set metadata -- ".toList ++
          metadataKeyStatus.message), st)
      if key.length = 0 then
        return (.unknown "failed to get dynamic value to set metadata -- no value", st)
      let (metadataValueStatus, value) ← eval p.metadataValue st.headers st.streamInfo
      if metadataValueStatus ≠ .ok then
        return (.unknown ("failed to get dynamic value to set metadata -- ".toList ++
          metadataValueStatus.message), st)
      if value.length = 0 then
        return (.notFound "failed to get dynamic value to set metadata -- no value", st)
      match st.streamInfo with
      | none => return (.notFound "streamInfo is null", st)
      | some info =>
        return (.ok, { st with
          streamInfo := some (SetDynamicMetadataProcessor.storeMetadata E info key value) })) := by
  rw [SetDynamicMetadataProcessor.executeOperation, h]
  rfl

/-- After a true condition an operation that succeeds has its effect. -/
theorem effect_of_ok
    (h : evaluateCondition eval maps p.conditionProcessor st = .returned (.ok, true))
    (hok : p.executeOperation E eval maps st = .returned (.ok, st')) : Effect E eval st p st' := by
  cases p with
  | setHeader p =>
    rw [executeOperation, setHeader_of_true h] at hok
    obtain ⟨⟨keyStatus, key⟩, hkey, hok⟩ := Outcome.bind_eq_returned.mp hok
    obtain ⟨⟨valueStatus, value⟩, hvalue, hok⟩ := Outcome.bind_eq_returned.mp hok
    by_cases hks : keyStatus = .ok
    · by_cases hvs : valueStatus = .ok
      · subst hks hvs
        obtain rfl : _ = st' := by simpa using hok
        exact .setHeader hkey hvalue
      · simp [hks, hvs, -String.reduceToList] at hok
    · simp [hks, -String.reduceToList] at hok
  | appendHeader p =>
    rw [executeOperation, appendHeader_of_true h] at hok
    obtain ⟨⟨keyStatus, key⟩, hkey, hok⟩ := Outcome.bind_eq_returned.mp hok
    by_cases hks : keyStatus = .ok
    · subst hks
      obtain ⟨values, hvalues⟩ := AppendHeaderProcessor.appendValues_eq_ok_iff.mp hok
      exact .appendHeader hkey hvalues
    · simp [hks] at hok
  | setPath p =>
    rw [executeOperation, setPath_of_true h] at hok
    obtain ⟨⟨status, newPath⟩, hpath, hok⟩ := Outcome.bind_eq_returned.mp hok
    by_cases hside : st.headers.isRequestHeaderMap = true
    · obtain rfl : _ = st' := by simpa [hside] using hok
      exact .setPath hpath hside
    · simp [hside] at hok
  | setDynamicMetadata p =>
    rw [executeOperation, setDynamicMetadata_of_true h, Outcome.catchAs_eq_returned] at hok
    rcases hok with hok | ⟨e, -, hhandler⟩
    · obtain ⟨⟨keyStatus, key⟩, hkey, hok⟩ := Outcome.bind_eq_returned.mp hok
      dsimp only at hok
      split at hok
      · simp [-String.reduceToList] at hok
      next hks =>
      split at hok
      · simp [-String.reduceToList] at hok
      next hne =>
      obtain ⟨⟨valueStatus, value⟩, hvalue, hok⟩ := Outcome.bind_eq_returned.mp hok
      dsimp only at hok
      split at hok
      · simp [-String.reduceToList] at hok
      next hvs =>
      split at hok
      · simp [-String.reduceToList] at hok
      next hne' =>
      obtain rfl : keyStatus = .ok := by simpa using hks
      obtain rfl : valueStatus = .ok := by simpa using hvs
      cases hinfo : st.streamInfo with
      | none => simp [hinfo, -String.reduceToList] at hok
      | some info =>
        obtain rfl : _ = st' := by simpa [hinfo] using hok
        exact .setDynamicMetadata hkey (fun hnil => hne (by simp [hnil])) hvalue
          (fun hnil => hne' (by simp [hnil])) hinfo
    · simp [-String.reduceToList] at hhandler

/-- After a true condition an operation that can have its effect succeeds. -/
theorem executeOperation_of_effect
    (h : evaluateCondition eval maps p.conditionProcessor st = .returned (.ok, true))
    (heffect : Effect E eval st p st') :
    p.executeOperation E eval maps st = .returned (.ok, st') := by
  cases heffect with
  | setHeader hkey hvalue =>
    rw [executeOperation, setHeader_of_true h]
    simp [hkey, hvalue, -String.reduceToList]
  | appendHeader hkey hvalues =>
    rw [executeOperation, appendHeader_of_true h]
    simp only [hkey, Outcome.bind_returned, ne_eq, not_true_eq_false, if_false]
    exact AppendHeaderProcessor.appendValues_eq_ok_iff.mpr ⟨_, hvalues⟩
  | setPath hpath hside =>
    rw [executeOperation, setPath_of_true h]
    simp [hpath, hside]
  | setDynamicMetadata hkey hne hvalue hne' hinfo =>
    rw [executeOperation, setDynamicMetadata_of_true h]
    rw [hinfo] at hkey hvalue
    simp [hkey, hvalue, hinfo, hne, hne', -String.reduceToList]

/-- After a true condition an operation that fails leaves the state as it was, except for values
that `append-header` has already appended. -/
theorem failed_cases
    (h : evaluateCondition eval maps p.conditionProcessor st = .returned (.ok, true))
    {status : Status} (hstatus : status ≠ .ok)
    (hfailed : p.executeOperation E eval maps st = .returned (status, st')) :
    st' = st ∨ ∃ q key before d after values value, p = .appendHeader q ∧
      eval q.headerKey st.headers st.streamInfo = .returned (.ok, key) ∧
      q.headerVals = before ++ d :: after ∧
      AppendHeaderProcessor.InTurn E eval key before st values st' ∧
      eval d st'.headers st'.streamInfo = .returned (status, value) := by
  cases p with
  | setHeader p =>
    rw [executeOperation, setHeader_of_true h] at hfailed
    obtain ⟨⟨keyStatus, key⟩, -, hfailed⟩ := Outcome.bind_eq_returned.mp hfailed
    obtain ⟨⟨valueStatus, value⟩, -, hfailed⟩ := Outcome.bind_eq_returned.mp hfailed
    dsimp only at hfailed
    split at hfailed
    · exact Or.inl (Outcome.pair_inj hfailed).2.symm
    · split at hfailed
      · exact Or.inl (Outcome.pair_inj hfailed).2.symm
      · exact (hstatus (Outcome.pair_inj hfailed).1.symm).elim
  | appendHeader p =>
    rw [executeOperation, appendHeader_of_true h] at hfailed
    obtain ⟨⟨keyStatus, key⟩, hkey, hfailed⟩ := Outcome.bind_eq_returned.mp hfailed
    dsimp only at hfailed
    split at hfailed
    · exact Or.inl (Outcome.pair_inj hfailed).2.symm
    · next hks =>
      obtain rfl : keyStatus = .ok := by simpa using hks
      have hstops : ¬ ∃ st₁, AppendHeaderProcessor.appendValues E eval key p.headerVals st =
          .returned (.ok, st₁) := by
        rintro ⟨st₁, hok⟩
        exact hstatus (Outcome.pair_inj (hfailed.symm.trans hok)).1
      obtain ⟨before, d, after, values, st₁, hvals, hin, heq⟩ :=
        AppendHeaderProcessor.exists_of_appendValues hstops
      rw [hfailed] at heq
      obtain ⟨⟨status', value⟩, hd, heq⟩ := Outcome.bind_eq_returned.mp heq.symm
      obtain ⟨rfl, rfl⟩ := Outcome.pair_inj heq
      exact Or.inr ⟨p, key, before, d, after, values, value, rfl, hkey, hvals, hin, hd⟩
  | setPath p =>
    rw [executeOperation, setPath_of_true h] at hfailed
    obtain ⟨⟨pathStatus, newPath⟩, -, hfailed⟩ := Outcome.bind_eq_returned.mp hfailed
    dsimp only at hfailed
    split at hfailed
    · exact (hstatus (Outcome.pair_inj hfailed).1.symm).elim
    · cases hfailed
  | setDynamicMetadata p =>
    left
    rw [executeOperation, setDynamicMetadata_of_true h, Outcome.catchAs_eq_returned] at hfailed
    rcases hfailed with hfailed | ⟨e, -, hhandler⟩
    · obtain ⟨⟨keyStatus, key⟩, -, hfailed⟩ := Outcome.bind_eq_returned.mp hfailed
      dsimp only at hfailed
      split at hfailed
      · exact (Outcome.pair_inj hfailed).2.symm
      split at hfailed
      · exact (Outcome.pair_inj hfailed).2.symm
      obtain ⟨⟨valueStatus, value⟩, -, hfailed⟩ := Outcome.bind_eq_returned.mp hfailed
      dsimp only at hfailed
      split at hfailed
      · exact (Outcome.pair_inj hfailed).2.symm
      split at hfailed
      · exact (Outcome.pair_inj hfailed).2.symm
      split at hfailed
      · exact (Outcome.pair_inj hfailed).2.symm
      · exact (hstatus (Outcome.pair_inj hfailed).1.symm).elim
    · exact (Prod.mk.inj hhandler).2.symm

/-- An exception that leaves an operation after a true condition comes from one of its operands, and
the operation is not `set-metadata`. -/
theorem evaluates_of_threw
    (h : evaluateCondition eval maps p.conditionProcessor st = .returned (.ok, true))
    {e : Exception} (hthrew : p.executeOperation E eval maps st = .threw e) :
    (∀ q, p ≠ .setDynamicMetadata q) ∧
      ∃ d st', Evaluates E eval st p d st' ∧ eval d st'.headers st'.streamInfo = .threw e := by
  cases p with
  | setHeader p =>
    refine ⟨by simp, ?_⟩
    rw [executeOperation, setHeader_of_true h] at hthrew
    rcases Outcome.bind_eq_threw.mp hthrew with hkey | ⟨⟨keyStatus, key⟩, hkey, hthrew⟩
    · exact ⟨_, st, .headerKey, hkey⟩
    rcases Outcome.bind_eq_threw.mp hthrew with hvalue | ⟨⟨valueStatus, value⟩, -, hthrew⟩
    · exact ⟨_, st, .headerVal ⟨_, hkey⟩, hvalue⟩
    dsimp only at hthrew
    split at hthrew
    · cases hthrew
    · split at hthrew <;> cases hthrew
  | appendHeader p =>
    refine ⟨by simp, ?_⟩
    rw [executeOperation, appendHeader_of_true h] at hthrew
    rcases Outcome.bind_eq_threw.mp hthrew with hkey | ⟨⟨keyStatus, key⟩, hkey, hthrew⟩
    · exact ⟨_, st, .appendKey, hkey⟩
    dsimp only at hthrew
    split at hthrew
    · cases hthrew
    next hks =>
    obtain rfl : keyStatus = .ok := by simpa using hks
    have hstops : ¬ ∃ st₁, AppendHeaderProcessor.appendValues E eval key p.headerVals st =
        .returned (.ok, st₁) := by
      rintro ⟨st₁, hok⟩
      cases hthrew.symm.trans hok
    obtain ⟨before, d, after, values, st₁, hvals, hin, heq⟩ :=
      AppendHeaderProcessor.exists_of_appendValues hstops
    rw [hthrew] at heq
    rcases Outcome.bind_eq_threw.mp heq.symm with hd | ⟨_, -, heq⟩
    · exact ⟨d, st₁, .appendVal hkey hvals hin, hd⟩
    · cases heq
  | setPath p =>
    refine ⟨by simp, ?_⟩
    rw [executeOperation, setPath_of_true h] at hthrew
    rcases Outcome.bind_eq_threw.mp hthrew with hpath | ⟨_, -, hthrew⟩
    · exact ⟨_, st, .requestPath, hpath⟩
    dsimp only at hthrew
    split at hthrew <;> cases hthrew
  | setDynamicMetadata p =>
    exact (Outcome.catchAs_ne_threw _ _ _ hthrew).elim

/-- Undefined behavior of an operation after a true condition is that of one of its operands, or the
cast of `set-path`. -/
theorem evaluates_of_undefined
    (h : evaluateCondition eval maps p.conditionProcessor st = .returned (.ok, true))
    {u : UndefinedBehavior} (hundefined : p.executeOperation E eval maps st = .undefined u) :
    (∃ d st', Evaluates E eval st p d st' ∧ eval d st'.headers st'.streamInfo = .undefined u) ∨
      u = .badCast ∧ st.headers.isRequestHeaderMap = false ∧ ∃ q, p = .setPath q := by
  cases p with
  | setHeader p =>
    rw [executeOperation, setHeader_of_true h] at hundefined
    left
    rcases Outcome.bind_eq_undefined.mp hundefined with
      hkey | ⟨⟨keyStatus, key⟩, hkey, hundefined⟩
    · exact ⟨_, st, .headerKey, hkey⟩
    rcases Outcome.bind_eq_undefined.mp hundefined with
      hvalue | ⟨⟨valueStatus, value⟩, -, hundefined⟩
    · exact ⟨_, st, .headerVal ⟨_, hkey⟩, hvalue⟩
    dsimp only at hundefined
    split at hundefined
    · cases hundefined
    · split at hundefined <;> cases hundefined
  | appendHeader p =>
    rw [executeOperation, appendHeader_of_true h] at hundefined
    left
    rcases Outcome.bind_eq_undefined.mp hundefined with
      hkey | ⟨⟨keyStatus, key⟩, hkey, hundefined⟩
    · exact ⟨_, st, .appendKey, hkey⟩
    dsimp only at hundefined
    split at hundefined
    · cases hundefined
    next hks =>
    obtain rfl : keyStatus = .ok := by simpa using hks
    have hstops : ¬ ∃ st₁, AppendHeaderProcessor.appendValues E eval key p.headerVals st =
        .returned (.ok, st₁) := by
      rintro ⟨st₁, hok⟩
      cases hundefined.symm.trans hok
    obtain ⟨before, d, after, values, st₁, hvals, hin, heq⟩ :=
      AppendHeaderProcessor.exists_of_appendValues hstops
    rw [hundefined] at heq
    rcases Outcome.bind_eq_undefined.mp heq.symm with hd | ⟨_, -, heq⟩
    · exact ⟨d, st₁, .appendVal hkey hvals hin, hd⟩
    · cases heq
  | setPath p =>
    rw [executeOperation, setPath_of_true h] at hundefined
    rcases Outcome.bind_eq_undefined.mp hundefined with hpath | ⟨_, -, hundefined⟩
    · exact Or.inl ⟨_, st, .requestPath, hpath⟩
    dsimp only at hundefined
    split at hundefined
    · cases hundefined
    · next hside =>
      cases hundefined
      exact Or.inr ⟨rfl, by simpa using hside, p, rfl⟩
  | setDynamicMetadata p =>
    rw [executeOperation, setDynamicMetadata_of_true h, Outcome.catchAs_eq_undefined] at hundefined
    left
    rcases Outcome.bind_eq_undefined.mp hundefined with
      hkey | ⟨⟨keyStatus, key⟩, hkey, hundefined⟩
    · exact ⟨_, st, .metadataKey, hkey⟩
    dsimp only at hundefined
    split at hundefined
    · cases hundefined
    next hks =>
    split at hundefined
    · cases hundefined
    next hne =>
    obtain rfl : keyStatus = .ok := by simpa using hks
    rcases Outcome.bind_eq_undefined.mp hundefined with
      hvalue | ⟨⟨valueStatus, value⟩, -, hundefined⟩
    · exact ⟨_, st, .metadataValue hkey fun hnil => hne (by simp [hnil]), hvalue⟩
    dsimp only at hundefined
    split at hundefined
    · cases hundefined
    split at hundefined
    · cases hundefined
    split at hundefined <;> cases hundefined

/-- An exception of an operand leaves every operation but `set-metadata`. -/
theorem threw_of_evaluates
    (h : evaluateCondition eval maps p.conditionProcessor st = .returned (.ok, true))
    (hp : ∀ q, p ≠ .setDynamicMetadata q) {d : DynamicFunctionProcessor} {e : Exception}
    (hd : Evaluates E eval st p d st') (hthrew : eval d st'.headers st'.streamInfo = .threw e) :
    p.executeOperation E eval maps st = .threw e := by
  cases hd with
  | headerKey =>
    rw [executeOperation, setHeader_of_true h]
    simp only [hthrew, Outcome.bind_threw]
  | headerVal hkey =>
    obtain ⟨key, hkey⟩ := hkey
    rw [executeOperation, setHeader_of_true h]
    simp only [hkey, hthrew, Outcome.bind_returned, Outcome.bind_threw]
  | appendKey =>
    rw [executeOperation, appendHeader_of_true h]
    simp only [hthrew, Outcome.bind_threw]
  | appendVal hkey hvals hin =>
    rw [executeOperation, appendHeader_of_true h, hkey, hvals]
    simp only [Outcome.bind_returned, ne_eq, not_true_eq_false, if_false]
    rw [hin.appendValues_stops _ (by simp [hthrew]), hthrew]
    rfl
  | requestPath =>
    rw [executeOperation, setPath_of_true h]
    simp only [hthrew, Outcome.bind_threw]
  | metadataKey => exact (hp _ rfl).elim
  | metadataValue => exact (hp _ rfl).elim

/-- Undefined behavior of an operand is that of the operation. -/
theorem undefined_of_evaluates
    (h : evaluateCondition eval maps p.conditionProcessor st = .returned (.ok, true))
    {d : DynamicFunctionProcessor} {u : UndefinedBehavior} (hd : Evaluates E eval st p d st')
    (hundefined : eval d st'.headers st'.streamInfo = .undefined u) :
    p.executeOperation E eval maps st = .undefined u := by
  cases hd with
  | headerKey =>
    rw [executeOperation, setHeader_of_true h]
    simp only [hundefined, Outcome.bind_undefined]
  | headerVal hkey =>
    obtain ⟨key, hkey⟩ := hkey
    rw [executeOperation, setHeader_of_true h]
    simp only [hkey, hundefined, Outcome.bind_returned, Outcome.bind_undefined]
  | appendKey =>
    rw [executeOperation, appendHeader_of_true h]
    simp only [hundefined, Outcome.bind_undefined]
  | appendVal hkey hvals hin =>
    rw [executeOperation, appendHeader_of_true h, hkey, hvals]
    simp only [Outcome.bind_returned, ne_eq, not_true_eq_false, if_false]
    rw [hin.appendValues_stops _ (by simp [hundefined]), hundefined]
    rfl
  | requestPath =>
    rw [executeOperation, setPath_of_true h]
    simp only [hundefined, Outcome.bind_undefined]
  | metadataKey =>
    rw [executeOperation, setDynamicMetadata_of_true h]
    simp only [hundefined, Outcome.bind_undefined, Outcome.catchAs_undefined]
  | metadataValue hkey hne =>
    rw [executeOperation, setDynamicMetadata_of_true h]
    simp [hkey, hne, hundefined, -String.reduceToList]

/-- An exception that leaves an operation comes from one of its operands, and the operation is not
`set-metadata`. -/
theorem threw_cases {e : Exception} (h : p.executeOperation E eval maps st = .threw e) :
    (∀ q, p ≠ .setDynamicMetadata q) ∧ ∃ d st', EvaluatesOperand E eval maps st p d st' ∧
      eval d st'.headers st'.streamInfo = .threw e := by
  rcases evaluateCondition_cases eval maps p.conditionProcessor st with
    ⟨status, value, hstatus, hcondition⟩ | hcondition | hcondition | ⟨u, hcondition⟩
  · cases h.symm.trans (executeOperation_of_ne_ok hcondition hstatus)
  · have heq := h.symm.trans (executeOperation_of_false hcondition)
    cases p with
    | setPath q =>
      rcases Outcome.bind_eq_threw.mp heq.symm with hpath | ⟨_, -, heq⟩
      · exact ⟨by simp, q.requestPath, st, Or.inr ⟨hcondition, rfl, q, rfl, rfl⟩, hpath⟩
      · cases heq
    | setHeader q => cases heq
    | appendHeader q => cases heq
    | setDynamicMetadata q => cases heq
  · obtain ⟨hne, d, st', hd, hthrew⟩ := evaluates_of_threw hcondition h
    exact ⟨hne, d, st', Or.inl ⟨hcondition, hd⟩, hthrew⟩
  · cases h.symm.trans (executeOperation_of_undefined hcondition)

/-- Undefined behavior of an operation is that of its condition, of one of its operands, or of the
cast of `set-path`. -/
theorem undefined_cases {u : UndefinedBehavior}
    (h : p.executeOperation E eval maps st = .undefined u) :
    evaluateCondition eval maps p.conditionProcessor st = .undefined u ∨
      (∃ d st', EvaluatesOperand E eval maps st p d st' ∧
        eval d st'.headers st'.streamInfo = .undefined u) ∨
      u = .badCast ∧ st.headers.isRequestHeaderMap = false ∧ ∃ q, p = .setPath q := by
  rcases evaluateCondition_cases eval maps p.conditionProcessor st with
    ⟨status, value, hstatus, hcondition⟩ | hcondition | hcondition | ⟨u', hcondition⟩
  · cases h.symm.trans (executeOperation_of_ne_ok hcondition hstatus)
  · have heq := h.symm.trans (executeOperation_of_false hcondition)
    cases p with
    | setPath q =>
      rcases Outcome.bind_eq_undefined.mp heq.symm with hpath | ⟨_, -, heq⟩
      · exact Or.inr (Or.inl
          ⟨q.requestPath, st, Or.inr ⟨hcondition, rfl, q, rfl, rfl⟩, hpath⟩)
      · cases heq
    | setHeader q => cases heq
    | appendHeader q => cases heq
    | setDynamicMetadata q => cases heq
  · rcases evaluates_of_undefined hcondition h with ⟨d, st', hd, hu⟩ | hcast
    · exact Or.inr (Or.inl ⟨d, st', Or.inl ⟨hcondition, hd⟩, hu⟩)
    · exact Or.inr (Or.inr hcast)
  · cases h.symm.trans (executeOperation_of_undefined hcondition)
    exact Or.inl hcondition

/-- An exception of an operand leaves every operation but `set-metadata`. -/
theorem EvaluatesOperand.threw {d : DynamicFunctionProcessor}
    (h : EvaluatesOperand E eval maps st p d st') (hp : ∀ q, p ≠ .setDynamicMetadata q)
    {e : Exception} (hthrew : eval d st'.headers st'.streamInfo = .threw e) :
    p.executeOperation E eval maps st = .threw e := by
  rcases h with ⟨hcondition, hd⟩ | ⟨hcondition, rfl, q, rfl, rfl⟩
  · exact threw_of_evaluates hcondition hp hd hthrew
  · rw [executeOperation_of_false hcondition]
    simp [hthrew]

/-- Undefined behavior of an operand is that of the operation. -/
theorem EvaluatesOperand.undefined {d : DynamicFunctionProcessor}
    (h : EvaluatesOperand E eval maps st p d st') {u : UndefinedBehavior}
    (hundefined : eval d st'.headers st'.streamInfo = .undefined u) :
    p.executeOperation E eval maps st = .undefined u := by
  rcases h with ⟨hcondition, hd⟩ | ⟨hcondition, rfl, q, rfl, rfl⟩
  · exact undefined_of_evaluates hcondition hd hundefined
  · rw [executeOperation_of_false hcondition]
    simp [hundefined]

/-- After a false condition an operation that returns succeeds and leaves the state as it is. -/
theorem eq_of_condition_false
    (hcondition : evaluateCondition eval maps p.conditionProcessor st = .returned (.ok, false))
    (h : p.executeOperation E eval maps st = .returned (status, st')) :
    status = .ok ∧ st' = st := by
  rw [executeOperation_of_false hcondition] at h
  have hpair : ∀ {x : Status × StreamState M I}, Outcome.returned (.ok, st) = .returned x →
      x.1 = .ok ∧ x.2 = st := fun h => by cases h; exact ⟨rfl, rfl⟩
  cases p with
  | setPath q =>
    obtain ⟨_, -, h⟩ := Outcome.bind_eq_returned.mp h
    exact hpair h
  | setHeader q => exact hpair h
  | appendHeader q => exact hpair h
  | setDynamicMetadata q => exact hpair h

/-- An operation whose condition does not hold leaves the state as it is. -/
theorem eq_of_condition_ne
    (hcondition : evaluateCondition eval maps p.conditionProcessor st ≠ .returned (.ok, true))
    (h : p.executeOperation E eval maps st = .returned (status, st')) : st' = st := by
  rcases evaluateCondition_cases eval maps p.conditionProcessor st with
    ⟨status', value, hstatus, hne⟩ | hfalse | htrue | ⟨u, hu⟩
  · rw [executeOperation_of_ne_ok hne hstatus] at h
    exact (Outcome.pair_inj h).2.symm
  · exact (eq_of_condition_false hfalse h).2
  · exact (hcondition htrue).elim
  · cases h.symm.trans (executeOperation_of_undefined hu)

/-- How an operation that returns can have changed the state: not at all, by its effect, or by the
values that `append-header` appends before one that fails. -/
theorem state_cases {status : Status}
    (h : p.executeOperation E eval maps st = .returned (status, st')) :
    st' = st ∨
      (evaluateCondition eval maps p.conditionProcessor st = .returned (.ok, true) ∧
        status = .ok ∧ Effect E eval st p st') ∨
      ∃ q key before d after values, p = .appendHeader q ∧
        eval q.headerKey st.headers st.streamInfo = .returned (.ok, key) ∧
        q.headerVals = before ++ d :: after ∧
        AppendHeaderProcessor.InTurn E eval key before st values st' := by
  by_cases hcondition : evaluateCondition eval maps p.conditionProcessor st = .returned (.ok, true)
  · by_cases hstatus : status = .ok
    · subst hstatus
      exact Or.inr (Or.inl ⟨hcondition, rfl, effect_of_ok hcondition h⟩)
    · rcases failed_cases hcondition hstatus h with
        hsame | ⟨q, key, before, d, after, values, value, hq, hkey, hvals, hin, -⟩
      · exact Or.inl hsame
      · exact Or.inr (Or.inr ⟨q, key, before, d, after, values, hq, hkey, hvals, hin⟩)
  · exact Or.inl (eq_of_condition_ne hcondition h)

/-- An operation does not change what class the headers belong to. -/
theorem isRequestHeaderMap_eq_of_executeOperation {status : Status}
    (h : p.executeOperation E eval maps st = .returned (status, st')) :
    st'.headers.isRequestHeaderMap = st.headers.isRequestHeaderMap := by
  rcases state_cases h with rfl | ⟨-, -, heffect⟩ | ⟨_, _, _, _, _, _, -, -, -, hin⟩
  · rfl
  · cases heffect with
    | setHeader _ _ => rfl
    | appendHeader _ hin => exact hin.isRequestHeaderMap_eq
    | setPath _ _ => rfl
    | setDynamicMetadata _ _ _ _ _ => rfl
  · exact hin.isRequestHeaderMap_eq

/-- Only a `set-metadata` that succeeds changes the stream info. -/
theorem streamInfo_cases {status : Status}
    (h : p.executeOperation E eval maps st = .returned (status, st')) :
    st'.streamInfo = st.streamInfo ∨
      ∃ q key value info, p = .setDynamicMetadata q ∧ status = .ok ∧
        evaluateCondition eval maps q.conditionProcessor st = .returned (.ok, true) ∧
        eval q.metadataKey st.headers st.streamInfo = .returned (.ok, key) ∧ key ≠ [] ∧
        eval q.metadataValue st.headers st.streamInfo = .returned (.ok, value) ∧
        st.streamInfo = some info ∧
        st'.streamInfo = some (SetDynamicMetadataProcessor.storeMetadata E info key value) := by
  rcases state_cases h with rfl | ⟨hcondition, rfl, heffect⟩ | ⟨_, _, _, _, _, _, -, -, -, hin⟩
  · exact Or.inl rfl
  · cases heffect with
    | setHeader _ _ => exact Or.inl rfl
    | appendHeader _ hin => exact Or.inl hin.streamInfo_eq
    | setPath _ _ => exact Or.inl rfl
    | setDynamicMetadata hkey hne hvalue _ hinfo =>
      exact Or.inr ⟨_, _, _, _, rfl, rfl, hcondition, hkey, hne, hvalue, hinfo, rfl⟩
  · exact Or.inl hin.streamInfo_eq

end Ends

end HeaderProcessor

end HeaderRewrite
