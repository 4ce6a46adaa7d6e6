import HeaderRewrite.Construction.Invariant
import HeaderRewrite.Cxx.Printing
import HeaderRewrite.Execution.Token

/-!
# Printing a line

The line that an operation or a definition stands for, spelled out in words. The words of an operand
are printed in their full form `%[function(argument)]`, and variables may be given other names. What
is printed is read as it was, and is made of words that reading can yield.

## Main definitions

* `Respells`: a word printed for one that was read;
* `Renames`: the names that may be given to declared variables;
* `HeaderProcessor.lineTokens`, `SetBoolProcessor.lineTokens`: the words of an operation and of a
  definition.

## Main results

* `OperationLine.lineTokens`, `DefinitionLine.lineTokens`: what is printed is read as it was.
-/

namespace HeaderRewrite

open Cxx Utility

variable {M I : Type}

/-! ## Words -/

/-- A word printed for one that was read: it has no separators that the other does not have, and
does not end in white space unless the other does. -/
structure Respells (read printed : Str) : Prop where
  /-- The word is not empty. -/
  ne_nil : read ≠ [] → printed ≠ []
  /-- The separators in it are those of the word that was read. -/
  mem : ∀ c ∈ printed, c = ' ' ∨ c = '\n' → c ∈ read
  /-- It ends in white space only if the word that was read does. -/
  last : (∀ c ∈ read.getLast?, isSpace c = false) → ∀ c ∈ printed.getLast?, isSpace c = false

theorem Respells.refl (word : Str) : Respells word word := ⟨id, fun _ hc _ => hc, id⟩

/-- What is printed for words are words. -/
theorem words_of_respells {read printed : List Str} (h : List.Forall₂ Respells read printed)
    (hread : Words ' ' '\n' read) : Words ' ' '\n' printed := by
  induction h with
  | nil => exact hread
  | @cons word word' read printed hword hrest ih =>
    obtain ⟨hne, hinner, houter⟩ := hread.word word List.mem_cons_self
    have hword' : word' ≠ [] ∧ ' ' ∉ word' ∧ '\n' ∉ word' :=
      ⟨hword.ne_nil hne, fun hmem => hinner (hword.mem _ hmem (Or.inl rfl)),
        fun hmem => houter (hword.mem _ hmem (Or.inr rfl))⟩
    cases hrest with
    | nil => exact .singleton hword' (hword.last (hread.last word rfl))
    | cons => exact .cons hword' (ih hread.tail)

namespace DynamicFunctionProcessor

/-- The word of an operand: the literal, or the call between its delimiters. -/
def token (d : DynamicFunctionProcessor) : Str :=
  if d.functionType = .static then d.functionArgument
  else "%[".toList ++ (functionName d.functionType ++ '(' :: d.functionArgument ++ [')']) ++ [']']

theorem stringToFunctionType_functionName {functionType : FunctionType}
    (hstatic : functionType ≠ .static) (hvalid : functionType ≠ .invalidFunctionType) :
    stringToFunctionType (functionName functionType) = functionType := by
  cases functionType with
  | getHdr => rfl
  | urlp => rfl
  | getMetadata => rfl
  | static => exact (hstatic rfl).elim
  | invalidFunctionType => exact (hvalid rfl).elim

/-- The word of an operand is read as the operand. -/
theorem parseOperation_token {E : Envoy M I} {processor : Processor} {t : Str}
    {d : DynamicFunctionProcessor} (h : parseOperation E processor t = .accepted d) :
    parseOperation E processor d.token = .accepted d := by
  rcases parseOperation_cases h with hd | ⟨functionType, argument, hvalid, hside, hargs, rfl⟩
  · have htoken : d.token = t := by rw [hd, token, if_pos rfl]
    rwa [htoken]
  · have hstatic : functionType ≠ .static := by
      rintro rfl
      cases hargs
    rw [token, if_neg hstatic, parseOperation_call E processor (not_mem_functionName _).1,
      stringToFunctionType_functionName hstatic hvalid, if_neg hvalid, if_neg, hargs]
    · rfl
    · rintro ⟨hurlp, hresponse⟩
      exact hresponse (hside hurlp)

/-- A call is spelled out by its function and its argument. -/
theorem IsCall.eq {isRequest : Bool} {inner argument : Str} {functionType : FunctionType}
    (h : IsCall isRequest inner functionType argument) :
    inner = functionName functionType ++ '(' :: argument ++ [')'] ∧ functionType ≠ .static := by
  cases h with
  | hdr _ => exact ⟨rfl, by decide⟩
  | urlp _ _ => exact ⟨rfl, by decide⟩
  | metadata _ => exact ⟨rfl, by decide⟩

/-- The argument of an operand is part of the word that it was read from. -/
theorem functionArgument_subset {E : Envoy M I} (hstrings : E.StringLaws) {processor : Processor}
    {t : Str} {d : DynamicFunctionProcessor} (h : parseOperation E processor t = .accepted d) :
    d.functionArgument ⊆ t := by
  rw [parseOperation_eq] at h
  split at h
  · obtain rfl := Parse.accepted.inj h
    exact List.Subset.refl t
  · obtain ⟨functionType, argument, hcall, rfl⟩ := (parseCall_eq_accepted_iff hstrings _ _ _).mp h
    intro c hc
    have hmem : c ∈ (t.drop 2).take (t.length - 3) := by
      rw [hcall.eq.1]
      simp [show c ∈ argument from hc]
    exact List.mem_of_mem_drop (List.mem_of_mem_take hmem)

/-- The word of an operand is printed for the one that it was read from. -/
theorem respells_token {E : Envoy M I} (hstrings : E.StringLaws) {processor : Processor} {t : Str}
    {d : DynamicFunctionProcessor} (h : parseOperation E processor t = .accepted d) :
    Respells t d.token := by
  have hsubset := functionArgument_subset hstrings h
  rw [parseOperation_eq] at h
  split at h
  · obtain rfl := Parse.accepted.inj h
    rw [token, if_pos rfl]
    exact .refl t
  -- a call is part of the word that it was read from
  · obtain ⟨functionType, argument, hcall, rfl⟩ := (parseCall_eq_accepted_iff hstrings _ _ _).mp h
    have hstatic := hcall.eq.2
    have hname : ' ' ∉ functionName functionType ∧ '\n' ∉ functionName functionType := by
      cases functionType <;> decide
    rw [token, if_neg hstatic]
    refine ⟨fun _ => by simp, fun c hc hspace => ?_, fun _ c hc => ?_⟩
    -- the delimiters, the name and the parentheses hold no separators
    · simp only [List.mem_append, List.mem_cons, List.not_mem_nil, or_false] at hc
      rcases hc with (hc | (hc | hc | hc) | hc) | hc
      · have hopening : ' ' ∉ "%[".toList ∧ '\n' ∉ "%[".toList := by decide
        rcases hspace with rfl | rfl
        · exact absurd hc hopening.1
        · exact absurd hc hopening.2
      · rcases hspace with rfl | rfl
        · exact absurd hc hname.1
        · exact absurd hc hname.2
      · subst hc
        simp at hspace
      · exact hsubset hc
      · subst hc
        simp at hspace
      · subst hc
        simp at hspace
    · rw [List.getLast?_concat, Option.mem_def, Option.some.injEq] at hc
      subst hc
      rfl

end DynamicFunctionProcessor

/-! ## Names -/

/-- The names `ρ` may be given to declared variables: they are declared where they are read, can be
printed in the place of the old ones, and are no keywords of conditions. -/
structure Renames (declared declared' : Str → Bool) (ρ : Str → Str) : Prop where
  /-- The new names are declared. -/
  isDeclared : ∀ name, declared name = true → declared' (ρ name) = true
  /-- They can be printed. -/
  respells : ∀ name, declared name = true → Respells name (ρ name)
  /-- They are not keywords, unless the old names are. -/
  not_isOperator : ∀ name, declared name = true →
    isOperator (stringToBooleanOperatorType name) = false →
    isOperator (stringToBooleanOperatorType (ρ name)) = false

/-- A condition with other names for its variables. -/
def ConditionProcessor.rename (ρ : Str → Str) (c : ConditionProcessor) : ConditionProcessor :=
  { c with operands := c.operands.map fun d => (ρ d.1, d.2) }

/-- An operation with other names for the variables of its condition. -/
def HeaderProcessor.rename (ρ : Str → Str) : HeaderProcessor → HeaderProcessor
  | .setHeader p =>
    .setHeader { p with conditionProcessor := p.conditionProcessor.map (.rename ρ) }
  | .appendHeader p =>
    .appendHeader { p with conditionProcessor := p.conditionProcessor.map (.rename ρ) }
  | .setPath p => .setPath { p with conditionProcessor := p.conditionProcessor.map (.rename ρ) }
  | .setDynamicMetadata p =>
    .setDynamicMetadata { p with conditionProcessor := p.conditionProcessor.map (.rename ρ) }

/-- An operation with another condition, or with none. -/
def HeaderProcessor.withCondition (condition : Option ConditionProcessor) :
    HeaderProcessor → HeaderProcessor
  | .setHeader p => .setHeader { p with conditionProcessor := condition }
  | .appendHeader p => .appendHeader { p with conditionProcessor := condition }
  | .setPath p => .setPath { p with conditionProcessor := condition }
  | .setDynamicMetadata p => .setDynamicMetadata { p with conditionProcessor := condition }

theorem Renames.refl (declared : Str → Bool) : Renames declared declared id :=
  ⟨fun _ h => h, fun name _ => .refl name, fun _ _ h => h⟩

@[simp] theorem ConditionProcessor.rename_id (c : ConditionProcessor) : c.rename id = c := by
  simp [rename]

@[simp] theorem HeaderProcessor.rename_id (p : HeaderProcessor) : p.rename id = p := by
  have hid : ConditionProcessor.rename id = id := funext ConditionProcessor.rename_id
  cases p <;> simp [rename, hid]

/-! ## Lines -/

/-- The words of the condition of an operation. -/
def clauseTokens : Option ConditionProcessor → List Str
  | some c => ifKeyword :: ConditionProcessor.conditionTokens c.operators c.operands
  | none => []

/-- The words of an operation. -/
def HeaderProcessor.lineTokens (isRequest : Bool) : HeaderProcessor → List Str
  | .setHeader p =>
    sideKeyword isRequest :: operationSetHeader :: p.headerKey.token :: p.headerVal.token ::
      clauseTokens p.conditionProcessor
  | .appendHeader p =>
    sideKeyword isRequest :: operationAppendHeader :: p.headerKey.token ::
      p.headerVals.map DynamicFunctionProcessor.token ++ clauseTokens p.conditionProcessor
  | .setPath p =>
    sideKeyword isRequest :: operationSetPath :: p.requestPath.token ::
      clauseTokens p.conditionProcessor
  | .setDynamicMetadata p =>
    sideKeyword isRequest :: operationSetDynMetadata :: p.metadataKey.token ::
      p.metadataValue.token :: clauseTokens p.conditionProcessor

/-- The word of a match type. -/
def matchTypeKeyword : MatchType → Str
  | .exact => matchTypeExact
  | .prefixOf => matchTypePrefix
  | .substr => matchTypeSubstr
  | .found => matchTypeFound
  | .invalidMatchType => []

/-- The words of the definition of a variable. -/
def SetBoolProcessor.lineTokens (isRequest : Bool) (name : Str) (p : SetBoolProcessor) : List Str :=
  sideKeyword isRequest :: operationSetBool :: name :: p.sourceProcessor.token :: "-m".toList ::
    matchTypeKeyword p.matchType ::
    if requiresArgument p.matchType then [p.stringToCompareFunctionProcessor.token] else []

section Lines

variable {E : Envoy M I} {declared declared' : Str → Bool} {ρ : Str → Str} {isRequest : Bool}
  {tokens : List Str}

/-- The words of a condition with other names. -/
theorem respells_conditionTokens {ρ : Str → Str} (operators : List BooleanOperatorType)
    {operands : List (Str × Bool)} (hrespells : ∀ d ∈ operands, Respells d.1 (ρ d.1)) :
    List.Forall₂ Respells (ConditionProcessor.conditionTokens operators operands)
      (ConditionProcessor.conditionTokens operators (operands.map fun d => (ρ d.1, d.2))) := by
  have hliteral : ∀ d : Str × Bool, Respells d.1 (ρ d.1) →
      List.Forall₂ Respells (ConditionProcessor.literalTokens d)
        (ConditionProcessor.literalTokens (ρ d.1, d.2)) := by
    rintro ⟨name, negate⟩ hname
    cases negate with
    | false => exact .cons hname .nil
    | true => exact .cons (.refl _) (.cons hname .nil)
  have hcontinuation : ∀ operands : List (Str × Bool), (∀ d ∈ operands, Respells d.1 (ρ d.1)) →
      List.Forall₂ Respells (ConditionProcessor.continuationTokens operators operands)
        (ConditionProcessor.continuationTokens operators
          (operands.map fun d => (ρ d.1, d.2))) := by
    induction operators with
    | nil => exact fun _ _ => .nil
    | cons o operators ih =>
      intro operands hrespells
      cases operands with
      | nil => exact .nil
      | cons d operands =>
        rw [List.forall_mem_cons] at hrespells
        exact .cons (.refl _) (List.rel_append (hliteral d hrespells.1) (ih operands hrespells.2))
  cases operands with
  | nil => exact .nil
  | cons d operands =>
    rw [List.forall_mem_cons] at hrespells
    exact List.rel_append (hliteral d hrespells.1) (hcontinuation operands hrespells.2)

/-- The words of a condition are read as the condition, and are printed for the words that it was
read from. -/
theorem Clause.clauseTokens (hρ : Renames declared declared' ρ) {processor : Processor}
    {clause : List Str} {condition : Option ConditionProcessor}
    (h : Clause declared processor clause condition) :
    Clause declared' processor (clauseTokens (condition.map (.rename ρ)))
        (condition.map (.rename ρ)) ∧
      List.Forall₂ Respells clause (HeaderRewrite.clauseTokens (condition.map (.rename ρ))) := by
  cases h with
  | unconditional => exact ⟨.unconditional, .nil⟩
  | @conditional _ c hparse =>
    obtain ⟨hprocessor, hwf, rfl⟩ := ConditionProcessor.parseOperation_eq_accepted_iff.mp hparse
    refine ⟨.conditional (ConditionProcessor.parseOperation_eq_accepted_iff.mpr
      ⟨hprocessor, ⟨?_, hwf.isBinaryOperator, fun d hd => ?_, fun d hd => ?_⟩, rfl⟩),
      .cons (.refl _) (respells_conditionTokens _ fun d hd =>
        hρ.respells d.1 (hwf.declared d hd))⟩
    · simpa [ConditionProcessor.rename] using hwf.length_operands
    · obtain ⟨d', hd', rfl⟩ := List.mem_map.mp hd
      exact hρ.isDeclared d'.1 (hwf.declared d' hd')
    · obtain ⟨d', hd', rfl⟩ := List.mem_map.mp hd
      exact hρ.not_isOperator d'.1 (hwf.declared d' hd') (hwf.not_isOperator d' hd')

/-- The words of a condition are read as the condition. -/
theorem Clause.read {processor : Processor} {clause : List Str}
    {condition : Option ConditionProcessor} (h : Clause declared processor clause condition) :
    Clause declared processor (HeaderRewrite.clauseTokens condition) condition := by
  have hid : ConditionProcessor.rename id = id := funext ConditionProcessor.rename_id
  simpa only [hid, Option.map_id_fun, id_eq] using (h.clauseTokens (.refl declared)).1

/-- A word that is not `if` is printed as one that is not. -/
theorem DynamicFunctionProcessor.token_ne_if {t : Str} {d : DynamicFunctionProcessor}
    (h : Operand E isRequest t d) (hne : t ≠ ifKeyword) : d.token ≠ ifKeyword := by
  rcases parseOperation_cases h with hd | ⟨functionType, argument, -, -, hargs, hd⟩
  · rwa [hd, token, if_pos rfl]
  · have hstatic : functionType ≠ .static := by
      rintro rfl
      cases hargs
    rw [hd, token, if_neg hstatic]
    intro heq
    have hhead : some '%' = some 'i' := congrArg List.head? heq
    exact absurd hhead (by decide)

/-- The values of an operation are read as they were. -/
theorem forall₂_token {values : List Str} {headerVals : List DynamicFunctionProcessor}
    (h : List.Forall₂ (Operand E isRequest) values headerVals) :
    List.Forall₂ (Operand E isRequest) (headerVals.map DynamicFunctionProcessor.token)
      headerVals := by
  induction h with
  | nil => exact .nil
  | cons hvalue _ ih => exact .cons (DynamicFunctionProcessor.parseOperation_token hvalue) ih

theorem map_token_ne_nil {values : List Str} {headerVals : List DynamicFunctionProcessor}
    (h : List.Forall₂ (Operand E isRequest) values headerVals) (hne : values ≠ []) :
    headerVals.map DynamicFunctionProcessor.token ≠ [] := by
  rw [ne_eq, List.map_eq_nil_iff]
  rintro rfl
  cases h
  exact hne rfl

theorem map_token_ne_if {values : List Str} {headerVals : List DynamicFunctionProcessor}
    (h : List.Forall₂ (Operand E isRequest) values headerVals)
    (hne : ∀ value ∈ values, value ≠ ifKeyword) :
    ∀ value ∈ headerVals.map DynamicFunctionProcessor.token, value ≠ ifKeyword := by
  induction h with
  | nil => simp
  | cons hvalue _ ih =>
    rw [List.map_cons, List.forall_mem_cons]
    exact ⟨DynamicFunctionProcessor.token_ne_if hvalue (hne _ List.mem_cons_self),
      ih fun value hmem => hne value (List.mem_cons_of_mem _ hmem)⟩

theorem respells_map_token (hstrings : E.StringLaws) {values : List Str}
    {headerVals : List DynamicFunctionProcessor}
    (h : List.Forall₂ (Operand E isRequest) values headerVals) :
    List.Forall₂ Respells values (headerVals.map DynamicFunctionProcessor.token) := by
  induction h with
  | nil => exact .nil
  | cons hvalue _ ih =>
    exact .cons (DynamicFunctionProcessor.respells_token hstrings hvalue) ih

/-- The words of an operation are read as the operation, with the new names, and are printed for the
words that it was read from. -/
theorem OperationLine.lineTokens (hstrings : E.StringLaws) (hρ : Renames declared declared' ρ)
    {p : HeaderProcessor} (h : OperationLine E declared isRequest tokens p) :
    OperationLine E declared' isRequest ((p.rename ρ).lineTokens isRequest) (p.rename ρ) ∧
      List.Forall₂ Respells tokens ((p.rename ρ).lineTokens isRequest) := by
  cases h with
  | setHeader hkey hvalue hclause =>
    obtain ⟨hclause', hrespells⟩ := hclause.clauseTokens hρ
    refine ⟨.setHeader (DynamicFunctionProcessor.parseOperation_token hkey)
      (DynamicFunctionProcessor.parseOperation_token hvalue) hclause', ?_⟩
    exact .cons (.refl _) (.cons (.refl _)
      (.cons (DynamicFunctionProcessor.respells_token hstrings hkey)
        (.cons (DynamicFunctionProcessor.respells_token hstrings hvalue) hrespells)))
  | appendHeader hkey hne hif hvalues hclause =>
    obtain ⟨hclause', hrespells⟩ := hclause.clauseTokens hρ
    refine ⟨.appendHeader (DynamicFunctionProcessor.parseOperation_token hkey)
      (map_token_ne_nil hvalues hne) (map_token_ne_if hvalues hif) (forall₂_token hvalues)
      hclause', ?_⟩
    exact .cons (.refl _) (.cons (.refl _)
      (.cons (DynamicFunctionProcessor.respells_token hstrings hkey)
        (List.rel_append (respells_map_token hstrings hvalues) hrespells)))
  | setPath hrequest hpath hclause =>
    obtain ⟨hclause', hrespells⟩ := hclause.clauseTokens hρ
    refine ⟨.setPath hrequest (DynamicFunctionProcessor.parseOperation_token hpath) hclause', ?_⟩
    exact .cons (.refl _) (.cons (.refl _)
      (.cons (DynamicFunctionProcessor.respells_token hstrings hpath) hrespells))
  | setMetadata hkey hvalue hclause =>
    obtain ⟨hclause', hrespells⟩ := hclause.clauseTokens hρ
    refine ⟨.setMetadata (DynamicFunctionProcessor.parseOperation_token hkey)
      (DynamicFunctionProcessor.parseOperation_token hvalue) hclause', ?_⟩
    exact .cons (.refl _) (.cons (.refl _)
      (.cons (DynamicFunctionProcessor.respells_token hstrings hkey)
        (.cons (DynamicFunctionProcessor.respells_token hstrings hvalue) hrespells)))

/-- An operation that was read can be read with another condition. -/
theorem OperationLine.withCondition {p : HeaderProcessor} {condition : Option ConditionProcessor}
    (h : OperationLine E declared isRequest tokens p)
    (hclause : Clause declared' (.ofSide isRequest) (clauseTokens condition) condition) :
    OperationLine E declared' isRequest ((p.withCondition condition).lineTokens isRequest)
      (p.withCondition condition) := by
  cases h with
  | setHeader hkey hvalue _ =>
    exact .setHeader (DynamicFunctionProcessor.parseOperation_token hkey)
      (DynamicFunctionProcessor.parseOperation_token hvalue) hclause
  | appendHeader hkey hne hif hvalues _ =>
    exact .appendHeader (DynamicFunctionProcessor.parseOperation_token hkey)
      (map_token_ne_nil hvalues hne) (map_token_ne_if hvalues hif) (forall₂_token hvalues) hclause
  | setPath hrequest hpath _ =>
    exact .setPath hrequest (DynamicFunctionProcessor.parseOperation_token hpath) hclause
  | setMetadata hkey hvalue _ =>
    exact .setMetadata (DynamicFunctionProcessor.parseOperation_token hkey)
      (DynamicFunctionProcessor.parseOperation_token hvalue) hclause

/-- The words of an operation are its keywords, its operands and its condition. -/
theorem HeaderProcessor.lineTokens_withCondition (p : HeaderProcessor) (isRequest : Bool) :
    ∃ keyword, ∀ condition, (p.withCondition condition).lineTokens isRequest =
      sideKeyword isRequest :: keyword :: p.operands.map DynamicFunctionProcessor.token ++
        clauseTokens condition := by
  cases p with
  | setHeader p => exact ⟨operationSetHeader, fun _ => rfl⟩
  | appendHeader p => exact ⟨operationAppendHeader, fun _ => rfl⟩
  | setPath p => exact ⟨operationSetPath, fun _ => rfl⟩
  | setDynamicMetadata p => exact ⟨operationSetDynMetadata, fun _ => rfl⟩

/-- The words of an operation are words with another condition if those of the condition are, or if
there is none and the operands can come last. -/
theorem HeaderProcessor.words_withCondition {p : HeaderProcessor}
    (h : Words ' ' '\n' (p.lineTokens isRequest)) (condition : Option ConditionProcessor)
    (hclause : Words ' ' '\n' (clauseTokens condition))
    (hlast : condition = none → ∀ d ∈ p.operands.getLast?, ∀ c ∈ d.token.getLast?,
      isSpace c = false) :
    Words ' ' '\n' ((p.withCondition condition).lineTokens isRequest) := by
  obtain ⟨keyword, hkeyword⟩ := p.lineTokens_withCondition isRequest
  have hself : p.withCondition p.conditionProcessor = p := by
    cases p <;> rfl
  have hfront : ∀ w ∈ sideKeyword isRequest :: keyword ::
      p.operands.map DynamicFunctionProcessor.token, w ≠ [] ∧ ' ' ∉ w ∧ '\n' ∉ w := by
    intro w hw
    rw [← hself, hkeyword] at h
    exact h.word w (List.mem_append_left _ hw)
  rw [hkeyword]
  cases condition with
  | some c => exact .append hfront hclause (List.cons_ne_nil _ _)
  | none =>
    rw [clauseTokens, List.append_nil]
    refine ⟨hfront, fun w hw => ?_⟩
    have hoperands : p.operands ≠ [] := by
      cases p <;> simp [operands]
    obtain ⟨d, hd⟩ := Option.isSome_iff_exists.mp (List.getLast?_isSome.mpr hoperands)
    obtain rfl : d.token = w := by
      simpa [List.getLast?_cons, List.getLast?_map, hd] using hw
    exact hlast rfl d hd

/-- A text read as a match type is the word of that type. -/
theorem eq_matchTypeKeyword {text : Str} (h : stringToMatchType text ≠ .invalidMatchType) :
    text = matchTypeKeyword (stringToMatchType text) := by
  unfold stringToMatchType at h ⊢
  split_ifs at h ⊢ with hexact hbeg hsub hfound
  · exact hexact
  · exact hbeg
  · exact hsub
  · exact hfound
  · exact (h rfl).elim

/-- What a source is compared with is read as it was. -/
theorem SetBoolProcessor.Comparison.printed (hstrings : E.StringLaws) {type : MatchType}
    {comparison : List Str} {d : DynamicFunctionProcessor}
    (h : Comparison E (.ofSide isRequest) type comparison d) :
    Comparison E (.ofSide isRequest) type (if requiresArgument type then [d.token] else []) d ∧
      List.Forall₂ Respells comparison (if requiresArgument type then [d.token] else []) := by
  cases h with
  | found => exact ⟨.found, .nil⟩
  | operand hrequires hparse =>
    rw [if_pos hrequires]
    exact ⟨.operand hrequires (DynamicFunctionProcessor.parseOperation_token hparse),
      .cons (DynamicFunctionProcessor.respells_token hstrings hparse) .nil⟩

/-- A match type that something is compared by is valid. -/
theorem SetBoolProcessor.Comparison.ne_invalid {processor : Processor} {type : MatchType}
    {comparison : List Str} {d : DynamicFunctionProcessor}
    (h : Comparison E processor type comparison d) : type ≠ .invalidMatchType := by
  rintro rfl
  cases h with
  | operand hrequires _ => cases hrequires

/-- The words of a definition are read as the definition, with the new name, and are printed for the
words that it was read from. -/
theorem DefinitionLine.lineTokens (hstrings : E.StringLaws) {name name' : Str}
    (hname : Respells name name') {p : SetBoolProcessor}
    (h : DefinitionLine E isRequest tokens name p) :
    DefinitionLine E isRequest (p.lineTokens isRequest name') name' p ∧
      List.Forall₂ Respells tokens (p.lineTokens isRequest name') := by
  obtain @⟨name, source, matchType, comparison, sourceProcessor, stringToCompare, hsource,
    hcomparison⟩ := h
  have hkeyword := eq_matchTypeKeyword hcomparison.ne_invalid
  obtain ⟨hcomparison', hrespells⟩ := hcomparison.printed hstrings
  simp only [SetBoolProcessor.lineTokens, ← hkeyword]
  refine ⟨.setBool (DynamicFunctionProcessor.parseOperation_token hsource) hcomparison', ?_⟩
  exact .cons (.refl _) (.cons (.refl _) (.cons hname
    (.cons (DynamicFunctionProcessor.respells_token hstrings hsource)
      (.cons (.refl _) (.cons (.refl _) hrespells)))))

end Lines

end HeaderRewrite
