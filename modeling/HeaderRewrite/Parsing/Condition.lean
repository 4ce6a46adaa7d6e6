import HeaderRewrite.Condition

/-!
# Parsing a condition

What `ConditionProcessor.parseOperation` does with the tokens from its start on. The loop goes over
the tokens by position, so it is first related to `parseRemaining`, which recurses over the tokens
that are left. A condition is accepted exactly if its tokens are literals with `and` or `or`
between them, `literal operator literal ... operator literal`, and all its variables are declared.

## Main definitions

* `ConditionProcessor.conditionTokens`: the tokens of operators and operands;
* `ConditionProcessor.WellFormed`: what parsing guarantees about a condition.

## Main results

* `ConditionProcessor.parseOperation_drop`: only the tokens from the start on matter;
* `ConditionProcessor.parseOperation_settles`: a condition with a token is accepted or rejected;
* `ConditionProcessor.parseOperation_eq_accepted_iff`: which conditions are accepted, and as what;
* `ConditionProcessor.parseOperation_grammar`: the same from any start position.
-/

namespace HeaderRewrite.ConditionProcessor

open Cxx Utility

/-! ## The tokens of a condition -/

/-- The keyword of a binary operator. -/
def operatorToken : BooleanOperatorType → Str
  | .and => booleanAnd
  | .or => booleanOr
  | .not => booleanNot
  | .none => []

/-- The tokens of an operand: the variable, after `not` where it is negated. -/
def literalTokens (operand : Str × Bool) : List Str :=
  if operand.2 then [booleanNot, operand.1] else [operand.1]

/-- The tokens after the first operand: each operator with the operand that follows it. -/
def continuationTokens (operators : List BooleanOperatorType) (operands : List (Str × Bool)) :
    List Str :=
  (operators.zip operands).flatMap fun next => operatorToken next.1 :: literalTokens next.2

/-- The tokens of a condition with given operators and operands. -/
def conditionTokens (operators : List BooleanOperatorType) : List (Str × Bool) → List Str
  | [] => []
  | operand :: operands => literalTokens operand ++ continuationTokens operators operands

/-- A condition as parsing leaves it: there is an operator between any two operands, and the
operands are declared variables. -/
structure WellFormed (declared : Str → Bool) (p : ConditionProcessor) : Prop where
  /-- There is one more operand than operators. -/
  length_operands : p.operands.length = p.operators.length + 1
  /-- The operators are `and` and `or`. -/
  isBinaryOperator : ∀ o ∈ p.operators, isBinaryOperator o
  /-- The variables are declared. -/
  declared : ∀ d ∈ p.operands, declared d.1
  /-- The variables are not keywords. -/
  not_isOperator : ∀ d ∈ p.operands, isOperator (stringToBooleanOperatorType d.1) = false

theorem stringToBooleanOperatorType_operatorToken {o : BooleanOperatorType}
    (h : isBinaryOperator o) : stringToBooleanOperatorType (operatorToken o) = o := by
  cases o with
  | and => rfl
  | or => rfl
  | not => cases h
  | none => cases h

/-- A token read as an operator is the keyword of that operator. -/
theorem eq_operatorToken {t : Str} (h : isOperator (stringToBooleanOperatorType t)) :
    t = operatorToken (stringToBooleanOperatorType t) := by
  unfold stringToBooleanOperatorType at h ⊢
  split
  · assumption
  · split
    · assumption
    · split
      · assumption
      · simp_all [isOperator]

theorem isOperator_of_isBinaryOperator {o : BooleanOperatorType} (h : isBinaryOperator o) :
    isOperator o := by
  cases o <;> simp_all [isOperator, Utility.isBinaryOperator]

theorem isBinaryOperator_of_not_isOperator {o : BooleanOperatorType} (h : isOperator o = false) :
    isBinaryOperator o = false := by
  cases o <;> simp_all [isOperator, Utility.isBinaryOperator]

/-- A condition is well formed in the words of the grammar. -/
theorem wellFormed_iff {declared : Str → Bool} {p : ConditionProcessor} :
    p.WellFormed declared ↔ p.operands.length = p.operators.length + 1 ∧
      (∀ o ∈ p.operators, o = .and ∨ o = .or) ∧
      ∀ d ∈ p.operands, declared d.1 ∧ d.1 ≠ booleanAnd ∧ d.1 ≠ booleanOr ∧ d.1 ≠ booleanNot := by
  have hbinary : ∀ o, Utility.isBinaryOperator o ↔ o = .and ∨ o = .or := by
    intro o
    cases o <;> simp [Utility.isBinaryOperator]
  have hname : ∀ t, isOperator (stringToBooleanOperatorType t) = false ↔
      t ≠ booleanAnd ∧ t ≠ booleanOr ∧ t ≠ booleanNot := by
    intro t
    unfold stringToBooleanOperatorType
    by_cases hand : t = booleanAnd
    · simp [hand, isOperator]
    by_cases hor : t = booleanOr
    · subst hor
      simp [hand, isOperator]
    by_cases hnot : t = booleanNot
    · subst hnot
      simp [hand, hor, isOperator]
    · simp [hand, hor, hnot, isOperator]
  constructor
  · intro h
    exact ⟨h.length_operands, fun o ho => (hbinary o).mp (h.isBinaryOperator o ho),
      fun d hd => ⟨h.declared d hd, (hname d.1).mp (h.not_isOperator d hd)⟩⟩
  · rintro ⟨hlength, hoperators, hoperands⟩
    exact ⟨hlength, fun o ho => (hbinary o).mpr (hoperators o ho),
      fun d hd => (hoperands d hd).1, fun d hd => (hname d.1).mpr (hoperands d hd).2⟩

/-! ## The loop as a recursion -/

/-- The loop over the tokens as a recursion over those that are left. `afterBinary` tells whether
a binary operator comes right before them. -/
def parseRemaining (declared : Str → Bool) :
    Bool → List Str → List BooleanOperatorType → List (Str × Bool) →
      Parse Status (List BooleanOperatorType × List (Str × Bool))
  | _, [], operators, operands => .accepted (operators, operands)
  | afterBinary, [token], operators, operands =>
    let operatorType := stringToBooleanOperatorType token
    if isBinaryOperator operatorType ∧ afterBinary then
      .rejected (.invalidArgument "invalid condition -- cannot have two binary operators in a row")
    else if isOperator operatorType then
      .rejected (.invalidArgument
        "invalid condition -- cannot have an operator at the end of the condition")
    else if ¬ declared token then
      .rejected (undeclaredVariable token)
    else .accepted (operators, operands ++ [(token, false)])
  | afterBinary, token :: operand :: rest, operators, operands =>
    let operatorType := stringToBooleanOperatorType token
    if isBinaryOperator operatorType ∧ afterBinary then
      .rejected (.invalidArgument "invalid condition -- cannot have two binary operators in a row")
    else if isBinaryOperator operatorType then
      parseRemaining declared true (operand :: rest) (operators ++ [operatorType]) operands
    else if operatorType = .not then
      if isOperator (stringToBooleanOperatorType operand) then
        .rejected (.invalidArgument "invalid condition -- can't have an operator after 'not'")
      else if ¬ declared operand then
        .rejected (undeclaredVariable operand)
      else parseRemaining declared false rest operators (operands ++ [(operand, true)])
    else if ¬ declared token then
      .rejected (undeclaredVariable token)
    else parseRemaining declared false (operand :: rest) operators (operands ++ [(token, false)])

section Loop

variable {declared : Str → Bool} {tokens : List Str} {start : Nat}

/-- Whether the token before a position of the loop is a binary operator. -/
def afterBinary (tokens : List Str) (start it : Nat) : Bool :=
  it ≠ start && (tokens[it - 1]?).any fun t => isBinaryOperator (stringToBooleanOperatorType t)

theorem afterBinary_succ {it : Nat} {token : Str} (hstart : start ≤ it)
    (htoken : tokens[it]? = some token) :
    afterBinary tokens start (it + 1) =
      isBinaryOperator (stringToBooleanOperatorType token) := by
  have hne : it + 1 ≠ start := by omega
  simp [afterBinary, hne, htoken]

/-- The check against the token before, at the start of the loop and after it. -/
theorem afterBinary_cases {it : Nat} (hstart : start ≤ it) (hit : it ≤ tokens.length) :
    it = start ∧ afterBinary tokens start it = false ∨
      it ≠ start ∧ ∃ previous, deref tokens (it - 1) = .returned previous ∧
        afterBinary tokens start it =
          isBinaryOperator (stringToBooleanOperatorType previous) := by
  by_cases h : it = start
  · exact Or.inl ⟨h, by simp [afterBinary, h]⟩
  · have hprevious : tokens[it - 1]? = some tokens[it - 1] := List.getElem?_eq_getElem (by omega)
    exact Or.inr ⟨h, _, deref_of_getElem? hprevious, by simp [afterBinary, h, hprevious]⟩

/-- The tokens left at a position are the token there and those left at the next. -/
theorem exists_drop_eq_cons {it : Nat} (hlt : it < tokens.length) :
    ∃ token, tokens[it]? = some token ∧ tokens.drop it = token :: tokens.drop (it + 1) :=
  ⟨tokens[it], List.getElem?_eq_getElem hlt, List.drop_eq_getElem_cons hlt⟩

/-- The loop, with enough fuel, is the recursion over the tokens that are left. -/
theorem parseTokens_eq {fuel it : Nat} (operators : List BooleanOperatorType)
    (operands : List (Str × Bool)) (hstart : start ≤ it) (hit : it ≤ tokens.length)
    (hfuel : tokens.length - it < fuel) :
    parseTokens declared tokens start fuel it operators operands =
      parseRemaining declared (afterBinary tokens start it) (tokens.drop it) operators
        operands := by
  induction fuel generalizing it operators operands with
  | zero => omega
  | succ fuel ih =>
    by_cases hend : it = tokens.length
    · simp [parseTokens, parseRemaining, hend]
    obtain ⟨token, htoken, hdrop⟩ := exists_drop_eq_cons (show it < tokens.length by omega)
    have hoffset : offset tokens it 1 = .returned (it + 1) := offset_of_le (by omega)
    have ih₁ := fun operators operands => @ih (it + 1) operators operands (by omega) (by omega)
      (by omega)
    rw [afterBinary_succ hstart htoken] at ih₁
    rw [hdrop]
    by_cases hlast : it + 1 = tokens.length
    · have hnil : tokens.drop (it + 1) = [] := by simp [hlast]
      rw [hnil] at ih₁ ⊢
      rw [hlast] at hoffset ih₁
      simp only [parseTokens, parseRemaining, if_neg hend, deref_of_getElem? htoken, hoffset,
        Parse.liftM_returned, Parse.bind_accepted]
      generalize stringToBooleanOperatorType token = operatorType at *
      rcases afterBinary_cases hstart hit with ⟨rfl, hafter⟩ | ⟨hfirst, previous, hderef, hafter⟩
      · cases operatorType <;>
          simp [hafter, ih₁, isOperator, Utility.isBinaryOperator, parseRemaining,
            -String.reduceToList]
      · cases operatorType <;>
          simp [hfirst, hderef, hafter, ih₁, isOperator, Utility.isBinaryOperator, parseRemaining,
            -String.reduceToList]
    · obtain ⟨operand, hoperand, hdrop'⟩ :=
        exists_drop_eq_cons (show it + 1 < tokens.length by omega)
      have hoffset' : offset tokens it 2 = .returned (it + 2) := offset_of_le (by omega)
      have ih₂ := fun operators operands => @ih (it + 2) operators operands (by omega) (by omega)
        (by omega)
      rw [afterBinary_succ (by omega) hoperand] at ih₂
      rw [hdrop'] at ih₁ ⊢
      simp only [parseTokens, parseRemaining, if_neg hend, deref_of_getElem? htoken, hoffset,
        deref_of_getElem? hoperand, hoffset', Parse.liftM_returned, Parse.bind_accepted]
      generalize stringToBooleanOperatorType token = operatorType at *
      generalize stringToBooleanOperatorType operand = operandType at *
      rcases afterBinary_cases hstart hit with ⟨rfl, hafter⟩ | ⟨hfirst, previous, hderef, hafter⟩
      · cases operatorType <;>
          simp [hafter, ih₁, ih₂, hlast, isOperator, Utility.isBinaryOperator,
            -String.reduceToList]
        cases operandType <;> simp
      · cases operatorType <;>
          simp [hfirst, hderef, hafter, ih₁, ih₂, hlast, isOperator, Utility.isBinaryOperator,
            -String.reduceToList]
        cases operandType <;> simp

/-- What a non-empty condition is parsed to. -/
def parseCondition (declared : Str → Bool) (processor : Processor) (first : Str)
    (rest : List Str) : Parse Status ConditionProcessor :=
  if isBinaryOperator (stringToBooleanOperatorType first) then
    .rejected (.invalidArgument
      "invalid condition -- condition must begin with 'not' or an operand")
  else do
    let (operators, operands) ← parseRemaining declared false (first :: rest) [] []
    if sizesMatch operators operands then
      return { processor with operators, operands }
    else
      Parse.rejected (.invalidArgument "invalid condition")

theorem parseOperation_eq (processor : Processor) {first : Str} {rest : List Str}
    (htokens : tokens.drop start = first :: rest) :
    parseOperation declared tokens start processor =
      parseCondition declared processor first rest := by
  have hlt : start < tokens.length := by
    rw [← Nat.not_le, ← List.drop_eq_nil_iff, htokens]
    simp
  obtain ⟨token, htoken, hdrop⟩ := exists_drop_eq_cons hlt
  obtain ⟨rfl, -⟩ := List.cons.inj (htokens.symm.trans hdrop)
  have hloop : parseTokens declared tokens start (tokens.length - start + 1) start [] [] =
      parseRemaining declared false (first :: rest) [] [] := by
    rw [parseTokens_eq [] [] (Nat.le_refl start) (by omega) (by omega), htokens]
    simp [afterBinary]
  unfold parseOperation parseCondition
  simp only [if_neg (show ¬ start = tokens.length by omega),
    if_neg (show ¬ tokens.length < 1 by omega), deref_of_getElem? htoken, hloop,
    Parse.liftM_returned, Parse.bind_accepted]
  split
  · rfl
  · rfl

/-- Only the tokens from the start on matter. -/
theorem parseOperation_drop (processor : Processor) (hstart : start < tokens.length) :
    parseOperation declared tokens start processor =
      parseOperation declared (tokens.drop start) 0 processor := by
  obtain ⟨first, -, hdrop⟩ := exists_drop_eq_cons hstart
  rw [parseOperation_eq processor hdrop, parseOperation_eq processor (List.drop_zero.trans hdrop)]

/-! ## What is rejected -/

theorem parseRemaining_settles (afterBinary : Bool) (rest : List Str)
    (operators : List BooleanOperatorType) (operands : List (Str × Bool)) :
    (parseRemaining declared afterBinary rest operators operands).Settles := by
  fun_induction parseRemaining declared afterBinary rest operators operands <;> trivial

/-- A condition with at least one token is accepted or rejected: no exception leaves the parser, no
iterator leaves the tokens and the loop ends. -/
theorem parseOperation_settles (processor : Processor) (hstart : start < tokens.length) :
    (parseOperation declared tokens start processor).Settles := by
  obtain ⟨first, -, hdrop⟩ := exists_drop_eq_cons hstart
  rw [parseOperation_eq processor hdrop]
  unfold parseCondition
  split
  · trivial
  · refine (parseRemaining_settles _ _ _ _).bind fun result _ => ?_
    dsimp only
    split <;> trivial

/-! ## What is accepted -/

/-- The operators and operands that the loop reads from some tokens. The loop checks no more than
that operators do not follow each other or stand at the end, so operands can outnumber them; only
if they are as few as the operators allow do the tokens alternate. -/
structure Reads (declared : Str → Bool) (afterBinary : Bool) (tokens : List Str)
    (operators : List BooleanOperatorType) (operands : List (Str × Bool)) : Prop where
  /-- The operators are `and` and `or`. -/
  isBinaryOperator : ∀ o ∈ operators, isBinaryOperator o
  /-- The operands are declared variables. -/
  operand : ∀ d ∈ operands, declared d.1 ∧ isOperator (stringToBooleanOperatorType d.1) = false
  /-- After an operator comes an operand. -/
  starts : afterBinary = true → tokens ≠ [] → operators.length < operands.length ∧
    (operands.length = operators.length + 1 → tokens = conditionTokens operators operands)
  /-- After an operand comes an operator or another operand. -/
  continues : afterBinary = false → operators.length ≤ operands.length ∧
    (operands.length = operators.length → tokens = continuationTokens operators operands)

theorem Reads.nil (afterBinary : Bool) : Reads declared afterBinary [] [] [] where
  isBinaryOperator := by simp
  operand := by simp
  starts _ h := (h rfl).elim
  continues _ := ⟨Nat.le_refl _, fun _ => rfl⟩

theorem Reads.literal {rest : List Str} {operators : List BooleanOperatorType}
    {operands : List (Str × Bool)} {d : Str × Bool}
    (h : Reads declared false rest operators operands) (hdeclared : declared d.1)
    (hd : isOperator (stringToBooleanOperatorType d.1) = false) (afterBinary : Bool) :
    Reads declared afterBinary (literalTokens d ++ rest) operators (d :: operands) where
  isBinaryOperator := h.isBinaryOperator
  operand := by
    intro d' hd'
    rcases List.mem_cons.mp hd' with rfl | hd'
    · exact ⟨hdeclared, hd⟩
    · exact h.operand d' hd'
  starts _ _ := by
    obtain ⟨hle, htokens⟩ := h.continues rfl
    refine ⟨Nat.lt_succ_of_le hle, fun hlength => ?_⟩
    rw [htokens (Nat.succ.inj hlength)]
    rfl
  continues _ := by
    obtain ⟨hle, -⟩ := h.continues rfl
    refine ⟨Nat.le_succ_of_le hle, fun hlength => ?_⟩
    rw [List.length_cons] at hlength
    omega

theorem Reads.operator {rest : List Str} {operators : List BooleanOperatorType}
    {operands : List (Str × Bool)} {o : BooleanOperatorType}
    (h : Reads declared true rest operators operands) (hrest : rest ≠ [])
    (ho : Utility.isBinaryOperator o) :
    Reads declared false (operatorToken o :: rest) (o :: operators) operands where
  isBinaryOperator := by
    intro o' ho'
    rcases List.mem_cons.mp ho' with rfl | ho'
    · exact ho
    · exact h.isBinaryOperator o' ho'
  operand := h.operand
  starts hb := by simp at hb
  continues _ := by
    obtain ⟨hlt, htokens⟩ := h.starts rfl hrest
    refine ⟨hlt, fun hlength => ?_⟩
    rw [htokens hlength]
    cases operands with
    | nil => simp at hlt
    | cons d operands => simp [conditionTokens, continuationTokens]

/-- What the loop adds to its lists is read from the tokens. -/
theorem reads_of_parseRemaining {afterBinary : Bool} {rest : List Str}
    {operators : List BooleanOperatorType} {operands : List (Str × Bool)}
    {result : List BooleanOperatorType × List (Str × Bool)}
    (h : parseRemaining declared afterBinary rest operators operands = .accepted result) :
    ∃ operators' operands', result = (operators ++ operators', operands ++ operands') ∧
      Reads declared afterBinary rest operators' operands' := by
  fun_induction parseRemaining declared afterBinary rest operators operands with
  | case1 afterBinary operators operands =>
    refine ⟨[], [], ?_, Reads.nil afterBinary⟩
    simpa using (Parse.accepted.inj h).symm
  | case5 afterBinary token operators operands _ _ hoperator hdeclared =>
    have hreads : Reads declared afterBinary (literalTokens (token, false) ++ []) [] _ :=
      (Reads.nil false).literal (d := (token, false)) (by simpa using hdeclared)
        (by simpa using hoperator) afterBinary
    exact ⟨[], [(token, false)], by simpa using (Parse.accepted.inj h).symm, hreads⟩
  | case7 afterBinary token operand rest operators operands operatorType hafter hbinary ih =>
    obtain ⟨operators', operands', rfl, hreads⟩ := ih h
    obtain rfl : afterBinary = false := by simpa [hbinary] using hafter
    have htoken := eq_operatorToken (isOperator_of_isBinaryOperator hbinary)
    rw [htoken]
    exact ⟨operatorType :: operators', operands', by simp, hreads.operator (by simp) hbinary⟩
  | case10 afterBinary token operand rest operators operands operatorType _ _ hnot hoperator
      hdeclared ih =>
    obtain ⟨operators', operands', rfl, hreads⟩ := ih h
    have hnot : stringToBooleanOperatorType token = .not := hnot
    have htoken : token = operatorToken .not := by
      simpa [hnot] using eq_operatorToken (t := token) (by simp [isOperator, hnot])
    rw [htoken]
    exact ⟨operators', (operand, true) :: operands', by simp,
      hreads.literal (d := (operand, true)) (by simpa using hdeclared) (by simpa using hoperator) _⟩
  | case12 afterBinary token operand rest operators operands operatorType _ hbinary hnot
      hdeclared ih =>
    obtain ⟨operators', operands', rfl, hreads⟩ := ih h
    have hoperator : isOperator operatorType = false := by
      cases hoperatorType : operatorType <;> simp_all [Utility.isBinaryOperator, isOperator]
    exact ⟨operators', (token, false) :: operands', by simp,
      hreads.literal (d := (token, false)) (by simpa using hdeclared) hoperator _⟩
  | _ => cases h

/-- The loop goes past a literal. -/
theorem parseRemaining_literal {d : Str × Bool} (hdeclared : declared d.1)
    (hd : isOperator (stringToBooleanOperatorType d.1) = false) (afterBinary : Bool)
    (rest : List Str) (operators : List BooleanOperatorType) (operands : List (Str × Bool)) :
    parseRemaining declared afterBinary (literalTokens d ++ rest) operators operands =
      parseRemaining declared false rest operators (operands ++ [d]) := by
  obtain ⟨name, negated⟩ := d
  have hbinary := isBinaryOperator_of_not_isOperator hd
  have hnot : stringToBooleanOperatorType name ≠ .not := by
    intro h
    simp [h, isOperator] at hd
  cases negated with
  | true =>
    have hkeyword : stringToBooleanOperatorType booleanNot = .not := rfl
    cases rest <;>
      simp [literalTokens, parseRemaining, hkeyword, hd, hdeclared, Utility.isBinaryOperator]
  | false =>
    cases rest <;>
      simp [literalTokens, parseRemaining, hbinary, hnot, hd, hdeclared]

/-- The loop goes past an operator that has something after it. -/
theorem parseRemaining_operator {o : BooleanOperatorType} (ho : isBinaryOperator o)
    {rest : List Str} (hrest : rest ≠ []) (operators : List BooleanOperatorType)
    (operands : List (Str × Bool)) :
    parseRemaining declared false (operatorToken o :: rest) operators operands =
      parseRemaining declared true rest (operators ++ [o]) operands := by
  obtain ⟨token, rest, rfl⟩ := List.exists_cons_of_ne_nil hrest
  simp [parseRemaining, stringToBooleanOperatorType_operatorToken ho, ho]

/-- The loop reads the tokens after an operand back. -/
theorem parseRemaining_continuationTokens {operators : List BooleanOperatorType}
    {operands : List (Str × Bool)} (hlength : operands.length = operators.length)
    (hoperators : ∀ o ∈ operators, isBinaryOperator o)
    (hoperands : ∀ d ∈ operands,
      declared d.1 ∧ isOperator (stringToBooleanOperatorType d.1) = false)
    (operators' : List BooleanOperatorType) (operands' : List (Str × Bool)) :
    parseRemaining declared false (continuationTokens operators operands) operators' operands' =
      .accepted (operators' ++ operators, operands' ++ operands) := by
  induction operators generalizing operands operators' operands' with
  | nil =>
    obtain rfl : operands = [] := List.eq_nil_of_length_eq_zero hlength
    simp [continuationTokens, parseRemaining]
  | cons o operators ih =>
    obtain ⟨d, operands, rfl⟩ := List.exists_cons_of_length_eq_add_one hlength
    have hrest : literalTokens d ++ continuationTokens operators operands ≠ [] := by
      unfold literalTokens
      split <;> simp
    obtain ⟨hdeclared, hd⟩ := hoperands d List.mem_cons_self
    have hcons : continuationTokens (o :: operators) (d :: operands) =
        operatorToken o :: (literalTokens d ++ continuationTokens operators operands) := rfl
    rw [hcons, parseRemaining_operator (hoperators o List.mem_cons_self) hrest,
      parseRemaining_literal hdeclared hd,
      ih (by simpa using hlength) (fun o' ho' => hoperators o' (List.mem_cons_of_mem _ ho'))
        (fun d' hd' => hoperands d' (List.mem_cons_of_mem _ hd'))]
    simp

/-- The first token of a condition that does not begin with an operator may be read as if after
one. -/
theorem parseRemaining_first {first : Str}
    (hfirst : isBinaryOperator (stringToBooleanOperatorType first) = false) (rest : List Str)
    (operators : List BooleanOperatorType) (operands : List (Str × Bool)) :
    parseRemaining declared true (first :: rest) operators operands =
      parseRemaining declared false (first :: rest) operators operands := by
  cases rest <;> simp only [parseRemaining, hfirst, Bool.false_eq_true, false_and]

/-- A condition does not begin with a binary operator. -/
theorem isBinaryOperator_head {d : Str × Bool}
    (hd : isOperator (stringToBooleanOperatorType d.1) = false) {first : Str} {rest tail : List Str}
    (hfirst : first :: rest = literalTokens d ++ tail) :
    isBinaryOperator (stringToBooleanOperatorType first) = false := by
  unfold literalTokens at hfirst
  split at hfirst
  · obtain ⟨rfl, -⟩ := List.cons.inj hfirst
    rfl
  · obtain ⟨rfl, -⟩ := List.cons.inj hfirst
    exact isBinaryOperator_of_not_isOperator hd

/-- A condition with an operand has a token. -/
theorem conditionTokens_cons_ne_nil (operators : List BooleanOperatorType) (d : Str × Bool)
    (operands : List (Str × Bool)) : conditionTokens operators (d :: operands) ≠ [] := by
  intro hnil
  have hliteral := (List.append_eq_nil_iff.mp hnil).1
  unfold literalTokens at hliteral
  split at hliteral <;> cases hliteral

/-- A condition is accepted exactly as the operators and operands that its tokens spell out, with
an operator between any two operands and every operand declared. -/
theorem parseOperation_eq_accepted_iff {processor : Processor} {p : ConditionProcessor} :
    parseOperation declared tokens 0 processor = .accepted p ↔
      p.toProcessor = processor ∧ p.WellFormed declared ∧
        tokens = conditionTokens p.operators p.operands := by
  constructor
  · intro h
    cases tokens with
    | nil => cases h
    | cons first rest =>
      rw [parseOperation_eq processor List.drop_zero] at h
      unfold parseCondition at h
      split at h
      · cases h
      · next hfirst =>
        obtain ⟨⟨operators, operands⟩, hloop, h⟩ := Parse.bind_eq_accepted.mp h
        rw [← parseRemaining_first (by simpa using hfirst)] at hloop
        obtain ⟨_, _, hresult, hreads⟩ := reads_of_parseRemaining hloop
        obtain ⟨rfl, rfl⟩ := Prod.mk.inj hresult
        obtain ⟨hlt, htokens⟩ := hreads.starts rfl (by simp)
        dsimp only at h
        split at h
        · next hsizes =>
          obtain rfl := Parse.accepted.inj h
          have hlength : operands.length = operators.length + 1 := by
            have := hsizes.2
            omega
          exact ⟨rfl, ⟨hlength, hreads.isBinaryOperator, fun d hd => (hreads.operand d hd).1,
            fun d hd => (hreads.operand d hd).2⟩, htokens hlength⟩
        · cases h
  · rintro ⟨rfl, hwf, rfl⟩
    obtain ⟨processor, operators, operands⟩ := p
    obtain ⟨d, operands, rfl⟩ := List.exists_cons_of_length_eq_add_one hwf.length_operands
    have hlength : operands.length = operators.length := by simpa using hwf.length_operands
    have hdeclared := hwf.declared d List.mem_cons_self
    have hd := hwf.not_isOperator d List.mem_cons_self
    have hloop : parseRemaining declared false (conditionTokens operators (d :: operands)) [] [] =
        .accepted (operators, d :: operands) := by
      rw [conditionTokens, parseRemaining_literal hdeclared hd,
        parseRemaining_continuationTokens hlength hwf.isBinaryOperator]
      · simp
      · exact fun d' hd' => ⟨hwf.declared d' (List.mem_cons_of_mem _ hd'),
          hwf.not_isOperator d' (List.mem_cons_of_mem _ hd')⟩
    obtain ⟨first, rest, htokens⟩ : ∃ first rest,
        conditionTokens operators (d :: operands) = first :: rest :=
      List.exists_cons_of_ne_nil (conditionTokens_cons_ne_nil operators d operands)
    have hfirst := isBinaryOperator_head hd (htokens ▸ rfl :
      first :: rest = literalTokens d ++ continuationTokens operators operands)
    have hsizes : sizesMatch operators (d :: operands) := ⟨by simp, by simp [hlength]⟩
    rw [htokens] at hloop ⊢
    rw [parseOperation_eq processor List.drop_zero]
    simp only [parseCondition, hfirst, hloop, hsizes, Bool.false_eq_true, if_false, if_true,
      Parse.bind_accepted, Parse.pure_eq]

/-- Accepting a condition depends on its own variables only. -/
theorem parseOperation_of_declared {declared' : Str → Bool} {processor : Processor}
    {p : ConditionProcessor} (h : parseOperation declared tokens 0 processor = .accepted p)
    (hdeclared : ∀ d ∈ p.operands, declared' d.1) :
    parseOperation declared' tokens 0 processor = .accepted p := by
  rw [parseOperation_eq_accepted_iff] at h ⊢
  obtain ⟨hprocessor, hwf, htokens⟩ := h
  exact ⟨hprocessor, { hwf with declared := hdeclared }, htokens⟩

/-- Where the size check compares the two lists there is an operand, so `operands_.size() - 1` does
not wrap. -/
theorem operands_ne_nil {first : Str} {rest : List Str} {operators : List BooleanOperatorType}
    {operands : List (Str × Bool)} (hdrop : tokens.drop start = first :: rest)
    (hfirst : isBinaryOperator (stringToBooleanOperatorType first) = false)
    (hstart : start ≤ tokens.length)
    (hloop : parseTokens declared tokens start (tokens.length - start + 1) start [] [] =
      .accepted (operators, operands)) : operands ≠ [] := by
  rw [parseTokens_eq [] [] (Nat.le_refl start) hstart (by omega), hdrop] at hloop
  have hafter : afterBinary tokens start start = false := by simp [afterBinary]
  rw [hafter, ← parseRemaining_first hfirst] at hloop
  obtain ⟨operators', operands', hresult, hreads⟩ := reads_of_parseRemaining hloop
  obtain ⟨-, rfl⟩ := Prod.mk.inj hresult
  obtain ⟨hlt, -⟩ := hreads.starts rfl (by simp)
  exact List.length_pos_iff.mp (Nat.zero_lt_of_lt hlt)

end Loop

/-- From any start position, exactly the conditions are accepted whose tokens are literals of
declared variables with `and` or `or` between them, and they are accepted as the operators and
operands that the tokens spell out. Parsing ends without leaving the tokens, with an exception only
if there are none, and the size check does not wrap. -/
theorem parseOperation_grammar (declared : Str → Bool) (tokens : List Str) (start : Nat)
    (processor : Processor) (hstart : start ≤ tokens.length) :
    (∀ p, parseOperation declared tokens start processor = .accepted p ↔
      p.toProcessor = processor ∧
        p.operands.length = p.operators.length + 1 ∧
        (∀ o ∈ p.operators, o = .and ∨ o = .or) ∧
        (∀ d ∈ p.operands, declared d.1 ∧
          d.1 ≠ booleanAnd ∧ d.1 ≠ booleanOr ∧ d.1 ≠ booleanNot) ∧
        tokens.drop start = conditionTokens p.operators p.operands) ∧
    (start < tokens.length → (parseOperation declared tokens start processor).Settles) ∧
    (start = tokens.length →
      parseOperation declared tokens start processor = .threw unexpectedEnd) ∧
    ∀ first rest operators operands, tokens.drop start = first :: rest →
      isBinaryOperator (stringToBooleanOperatorType first) = false →
      parseTokens declared tokens start (tokens.length - start + 1) start [] [] =
        .accepted (operators, operands) → operands ≠ [] := by
  have hend : start = tokens.length →
      parseOperation declared tokens start processor = .threw unexpectedEnd := fun h => by
    rw [parseOperation, if_pos h]
    rfl
  refine ⟨fun p => ?_, parseOperation_settles processor, hend, ?_⟩
  · have hgrammar : (p.operands.length = p.operators.length + 1 ∧
        (∀ o ∈ p.operators, o = .and ∨ o = .or) ∧
        (∀ d ∈ p.operands, declared d.1 ∧
          d.1 ≠ booleanAnd ∧ d.1 ≠ booleanOr ∧ d.1 ≠ booleanNot) ∧
        tokens.drop start = conditionTokens p.operators p.operands) ↔
          p.WellFormed declared ∧ tokens.drop start = conditionTokens p.operators p.operands := by
      rw [wellFormed_iff, and_assoc, and_assoc]
    rw [hgrammar]
    by_cases hlt : start < tokens.length
    · rw [parseOperation_drop processor hlt, parseOperation_eq_accepted_iff]
    · obtain rfl : start = tokens.length := by omega
      rw [hend rfl, List.drop_length]
      refine ⟨fun h => (by cases h), ?_⟩
      rintro ⟨-, hwf, htokens⟩
      obtain ⟨d, operands, hoperands⟩ := List.exists_cons_of_length_eq_add_one hwf.length_operands
      rw [hoperands] at htokens
      exact (conditionTokens_cons_ne_nil _ _ _ htokens.symm).elim
  · exact fun first rest operators operands hdrop hfirst hloop =>
      operands_ne_nil hdrop hfirst hstart hloop

/-- The condition of `... if not b or c`. -/
theorem parseOperation_grammar_not_b_or_c :
    let processor : Processor := ⟨.requestSetBoolProcessors, true⟩
    ∃ p, parseOperation (fun _ => true) ["if", "not", "b", "or", "c"] 1 processor = .accepted p ∧
      p.operators = [.or] ∧ p.operands = [("b".toList, true), ("c".toList, false)] := by
  intro processor
  refine ⟨⟨processor, [.or], [("b".toList, true), ("c".toList, false)]⟩, ?_, rfl, rfl⟩
  exact ((parseOperation_grammar (fun _ => true) ["if", "not", "b", "or", "c"] 1 processor
    (by decide)).1 _).mpr (by decide)

end HeaderRewrite.ConditionProcessor
