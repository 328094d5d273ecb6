import Mathlib.Data.List.Basic
import MonkeySyntax.Proofs.Grammar

/-!
# What may come next

Whether a word of tokens can still become a statement does not depend on how tightly its operators
bind: it is enough to know which parentheses are open, and whether an operand or an operator has to
follow.  An expectation holds just that.  Every statement of the grammar meets the expectations
that its tokens raise one after another, so a word that disappoints one is the front of none.
-/

namespace MonkeySyntax

/-- A token that binds no operand on its left continues no expression. -/
theorem RuleTable.fold?_eq_none {kind : Token.Kind} (loose : monkey.power kind ≤ .lowest) :
    monkey.fold? kind = none := by
  revert loose
  cases kind <;> decide

/-- What an open parenthesis encloses. -/
inductive Bracket where
  /-- An expression. -/
  | group
  /-- The arguments of a call. -/
  | arguments
deriving DecidableEq, Repr

/-- What has to follow the front of a statement.  Open parentheses are listed from the innermost
one outwards. -/
inductive Expectation where
  /-- A statement. -/
  | statement
  /-- The name that is bound. -/
  | name
  /-- The sign between a name and its value. -/
  | assign
  /-- An operand. -/
  | operand (enclosing : List Bracket)
  /-- The first argument of a call, or the parenthesis that closes an empty argument list. -/
  | argument (enclosing : List Bracket)
  /-- A token that continues an expression or ends it. -/
  | operator (enclosing : List Bracket)
  /-- Nothing, the statement is complete. -/
  | nothing
deriving DecidableEq, Repr

namespace Expectation

/-- What follows the first token of an operand that a rule describes. -/
def afterRule (enclosing : List Bracket) (token : Token) : OperandRule → Option Expectation
  | .identifier | .boolean => some (.operator enclosing)
  | .integer => (integerValue? token.literal).map fun _ => .operator enclosing
  | .unary => some (.operand enclosing)
  | .group => some (.operand (.group :: enclosing))

/-- What follows the first token of an operand. -/
def afterFirst (enclosing : List Bracket) (token : Token) : Option Expectation :=
  (RuleTable.monkey.operand? token.kind).bind (afterRule enclosing token)

/-- What follows a token that ends an expression in some parentheses. -/
def afterExpression : List Bracket → Token → Option Expectation
  | [], token => if token.kind = .semicolon then some .nothing else none
  | .group :: enclosing, token =>
      if token.kind = .closeParen then some (.operator enclosing) else none
  | .arguments :: enclosing, token =>
      if token.kind = .closeParen then some (.operator enclosing)
      else if token.kind = .comma then some (.operand (.arguments :: enclosing))
      else none

/-- What follows a token, or `none` if the token is not one that is expected. -/
def after : Expectation → Token → Option Expectation
  | statement, token =>
      match RuleTable.monkey.statement? token.kind with
      | some .binding => some .name
      | some .result => some (.operand [])
      | none => afterFirst [] token
  | name, token => if token.kind = .identifier then some .assign else none
  | assign, token => if token.kind = .assign then some (.operand []) else none
  | operand enclosing, token => afterFirst enclosing token
  | argument enclosing, token =>
      if token.kind = .closeParen then some (.operator enclosing)
      else afterFirst (.arguments :: enclosing) token
  | operator enclosing, token =>
      match RuleTable.monkey.fold? token.kind with
      | some .binary => some (.operand enclosing)
      | some .call => some (.argument enclosing)
      | none => afterExpression enclosing token
  | nothing, _ => none

/-- What follows a word of tokens, or `none` if one of them is not expected. -/
def afterAll (expected : Expectation) : List Token → Option Expectation
  | [] => some expected
  | token :: word => (expected.after token).bind fun next => next.afterAll word

variable {expected next final : Expectation} {enclosing : List Bracket} {token : Token}
  {word first second : List Token}

@[simp]
theorem afterAll_nil : expected.afterAll [] = some expected := rfl

theorem afterAll_cons (step : expected.after token = some next) :
    expected.afterAll (token :: word) = next.afterAll word := by
  rw [afterAll, step]
  rfl

theorem afterAll_append (read : expected.afterAll first = some next) :
    expected.afterAll (first ++ second) = next.afterAll second := by
  induction first generalizing expected with
  | nil =>
      obtain rfl := Option.some.inj read
      rfl
  | cons token first ih =>
      obtain ⟨between, step, others⟩ := Option.bind_eq_some_iff.mp read
      rw [List.cons_append, afterAll_cons step, ih others]

/-- A word goes on as expected only if its front does. -/
theorem afterAll_front (read : expected.afterAll (first ++ second) = some final) :
    ∃ next, expected.afterAll first = some next := by
  induction first generalizing expected with
  | nil => exact ⟨expected, rfl⟩
  | cons token first ih =>
      obtain ⟨between, step, others⟩ := Option.bind_eq_some_iff.mp read
      rw [afterAll_cons step]
      exact ih others

/-! ### Single tokens -/

/-- A token with which an operand begins is read by its rule. -/
theorem after_operand {rule : OperandRule} (mem : token.kind ∈ rule.kinds) :
    (operand enclosing).after token = afterRule enclosing token rule := by
  rw [after, afterFirst, RuleTable.operand?_eq_some_iff.mpr mem]
  rfl

theorem after_operand_eq_none (none_eq : RuleTable.monkey.operand? token.kind = none) :
    (operand enclosing).after token = none := by
  rw [after, afterFirst, none_eq]
  rfl

/-- An argument begins like any operand. -/
theorem after_argument (ne : token.kind ≠ .closeParen) :
    (argument enclosing).after token = (operand (.arguments :: enclosing)).after token :=
  if_neg ne

/-- A statement without a keyword begins like an operand. -/
theorem after_statement (none_eq : RuleTable.monkey.statement? token.kind = none) :
    statement.after token = (operand []).after token := by
  rw [after, none_eq]
  rfl

theorem after_letWord (kind_eq : token.kind = .letWord) : statement.after token = some .name := by
  rw [after, kind_eq]
  rfl

theorem after_returnWord (kind_eq : token.kind = .returnWord) :
    statement.after token = some (.operand []) := by
  rw [after, kind_eq]
  rfl

theorem after_name (kind_eq : token.kind = .identifier) : name.after token = some .assign :=
  if_pos kind_eq

theorem after_assign (kind_eq : token.kind = .assign) : assign.after token = some (.operand []) :=
  if_pos kind_eq

theorem after_operator_binary {stratum : Stratum} (mem : token.kind ∈ stratum.operators) :
    (operator enclosing).after token = some (.operand enclosing) := by
  rw [after, (RuleTable.of_mem_operators mem).2.1]

theorem after_operator_call (opens : token.kind = .openParen) :
    (operator enclosing).after token = some (.argument enclosing) := by
  rw [after, opens]
  rfl

theorem after_operator_closeParen {bracket : Bracket} (closes : token.kind = .closeParen) :
    (operator (bracket :: enclosing)).after token = some (.operator enclosing) := by
  rw [after, closes]
  cases bracket <;> exact if_pos closes

theorem after_operator_comma (separates : token.kind = .comma) :
    (operator (.arguments :: enclosing)).after token =
      some (.operand (.arguments :: enclosing)) := by
  have ne : token.kind ≠ .closeParen := by simp [separates]
  have none_eq : RuleTable.monkey.fold? token.kind = none := by rw [separates]; rfl
  rw [after, none_eq]
  change afterExpression (.arguments :: enclosing) token = _
  rw [afterExpression, if_neg ne, if_pos separates]

/-- A token that binds no operand has to end the expression. -/
theorem after_operator_of_power (loose : RuleTable.monkey.power token.kind ≤ .lowest) :
    (operator enclosing).after token = afterExpression enclosing token := by
  rw [after, RuleTable.fold?_eq_none loose]

/-- Before its first token an argument list goes on like an operand, unless it is empty. -/
theorem afterAll_argument (ne : token.kind ≠ .closeParen) :
    (argument enclosing).afterAll (token :: word) =
      (operand (.arguments :: enclosing)).afterAll (token :: word) := by
  rw [afterAll, afterAll, after_argument ne]

theorem afterAll_statement (none_eq : RuleTable.monkey.statement? token.kind = none) :
    statement.afterAll (token :: word) = (operand []).afterAll (token :: word) := by
  rw [afterAll, afterAll, after_statement none_eq]

/-- What goes on as an operand begins as one. -/
theorem operand?_ne_none (read : (operand enclosing).afterAll (token :: word) = some next) :
    RuleTable.monkey.operand? token.kind ≠ none := by
  intro none_eq
  rw [afterAll, after_operand_eq_none none_eq] at read
  contradiction

/-! ### Words of the grammar -/

theorem afterAll_operand (rule : OperandRule) (mem : token.kind ∈ rule.kinds)
    (step : afterRule enclosing token rule = some next) :
    (operand enclosing).afterAll (token :: word) = next.afterAll word :=
  afterAll_cons (by rw [after_operand mem, step])

theorem afterAll_afterCommas {words : List (List Token)} {inside : List Token}
    (separated : AfterCommas words inside)
    (each : ∀ word ∈ words, ∀ enclosing,
      (operand enclosing).afterAll word = some (.operator enclosing)) :
    (operator (.arguments :: enclosing)).afterAll inside =
      some (.operator (.arguments :: enclosing)) := by
  induction separated with
  | nil => rfl
  | @cons comma word rest words comma_kind others ih =>
      rw [List.cons_append, afterAll_cons (after_operator_comma comma_kind),
        afterAll_append (each word List.mem_cons_self _)]
      exact ih fun other mem => each other (List.mem_cons_of_mem word mem)

theorem afterAll_arguments {words : List (List Token)} {inside : List Token} {closing : Token}
    (separated : CommaSeparated words inside) (ne_nil : ∀ word ∈ words, word ≠ [])
    (each : ∀ word ∈ words, ∀ enclosing,
      (operand enclosing).afterAll word = some (.operator enclosing))
    (closes : closing.kind = .closeParen) :
    (argument enclosing).afterAll (inside ++ [closing]) = some (.operator enclosing) := by
  cases separated with
  | nil => exact afterAll_cons (if_pos closes)
  | @cons word rest words others =>
      have read := each word List.mem_cons_self (.arguments :: enclosing)
      obtain ⟨first, tail, rfl⟩ := List.exists_cons_of_ne_nil (ne_nil word List.mem_cons_self)
      have ne : first.kind ≠ .closeParen := fun closes =>
        operand?_ne_none read (by rw [closes]; rfl)
      have others_read := @afterAll_afterCommas enclosing _ _ others fun other mem =>
        each other (List.mem_cons_of_mem _ mem)
      rw [List.append_assoc, List.cons_append, afterAll_argument ne, ← List.cons_append,
        afterAll_append read, afterAll_append others_read]
      exact afterAll_cons (after_operator_closeParen closes)

end Expectation

open Expectation

/-- The words of the grammar meet the expectation of an operand, whatever encloses them. -/
theorem Derives.afterAll {stratum : Stratum} {word : List Token} {expr : Expr}
    (derived : Derives stratum word expr) (enclosing : List Bracket) :
    (operand enclosing).afterAll word = some (.operator enclosing) := by
  induction derived generalizing enclosing with
  | identifier kind_eq =>
      exact afterAll_operand .identifier (List.mem_singleton.mpr kind_eq) rfl
  | integer kind_eq numeral small =>
      have value_eq := integerValue?_eq_some_iff.mpr ⟨numeral, small⟩
      exact afterAll_operand .integer (List.mem_singleton.mpr kind_eq)
        (by rw [afterRule, value_eq]; rfl)
  | trueWord kind_eq =>
      exact afterAll_operand .boolean (List.mem_pair.mpr (.inl kind_eq)) rfl
  | falseWord kind_eq =>
      exact afterAll_operand .boolean (List.mem_pair.mpr (.inr kind_eq)) rfl
  | group opens inside closes ih =>
      rw [List.cons_append, afterAll_operand .group (List.mem_singleton.mpr opens) rfl,
        afterAll_append (ih _)]
      exact afterAll_cons (after_operator_closeParen closes)
  | call callee opens separated each closes callee_ih each_ih =>
      rw [afterAll_append (callee_ih _), List.cons_append,
        afterAll_cons (after_operator_call opens)]
      apply afterAll_arguments separated _ _ closes
      · intro word mem
        obtain ⟨argument, argument_mem, rfl⟩ := List.mem_map.mp mem
        exact (each argument argument_mem).ne_nil
      · intro word mem
        obtain ⟨argument, argument_mem, rfl⟩ := List.mem_map.mp mem
        exact each_ih argument argument_mem
  | unary kind_eq right ih =>
      rw [afterAll_operand .unary (List.mem_pair.mpr kind_eq) rfl]
      exact ih enclosing
  | binary kind_mem first second first_ih second_ih =>
      rw [afterAll_append (first_ih _), afterAll_cons (after_operator_binary kind_mem)]
      exact second_ih enclosing
  | tighter finer ih => exact ih enclosing

/-- A statement is complete behind its last token. -/
theorem DerivesStatement.afterAll {word : List Token} {stmt : Stmt}
    (derived : DerivesStatement word stmt) : statement.afterAll word = some .nothing := by
  have value {word : List Token} {expr : Expr} {semicolon : Token}
      (derived : Derives .equality word expr) (ends : semicolon.kind = .semicolon) :
      (operand []).afterAll (word ++ [semicolon]) = some .nothing := by
    have loose : RuleTable.monkey.power semicolon.kind ≤ .lowest := by rw [ends]; decide
    rw [afterAll_append (derived.afterAll [])]
    apply afterAll_cons
    rw [after_operator_of_power loose]
    exact if_pos ends
  cases derived with
  | binding keyword_kind name_kind assign_kind bound ends =>
      rw [List.cons_append, List.cons_append, List.cons_append,
        afterAll_cons (after_letWord keyword_kind), afterAll_cons (after_name name_kind),
        afterAll_cons (after_assign assign_kind)]
      exact value bound ends
  | result keyword_kind returned ends =>
      rw [List.cons_append, afterAll_cons (after_returnWord keyword_kind)]
      exact value returned ends
  | expression derived ends =>
      have begins := operand?_ne_none (derived.afterAll [])
      rw [List.cons_append, afterAll_statement (RuleTable.statement?_eq_none begins)]
      exact value derived ends

/-! ### Fronts of words -/

/-- There are tokens of every kind. -/
theorem Token.exists_kind_eq (kind : Token.Kind) : ∃ token : Token, token.kind = kind :=
  ⟨⟨kind, "", {}⟩, rfl⟩

/-- A word with which some word of a stratum begins. -/
def Begins (stratum : Stratum) (front : List Token) : Prop :=
  ∃ rest expr, Derives stratum (front ++ rest) expr

/-- A word with which some arguments begin that each follow a comma. -/
def BeginsAfterCommas (front : List Token) : Prop :=
  ∃ rest, ∃ elements : List (List Token × Expr),
    AfterCommas (elements.map Prod.fst) (front ++ rest) ∧
      ∀ element ∈ elements, Derives .equality element.1 element.2

/-- A word with which some arguments of a call begin. -/
def BeginsArguments (front : List Token) : Prop :=
  ∃ rest, ∃ elements : List (List Token × Expr),
    CommaSeparated (elements.map Prod.fst) (front ++ rest) ∧
      ∀ element ∈ elements, Derives .equality element.1 element.2

/-- A word with which some statement begins. -/
def Completable (front : List Token) : Prop :=
  ∃ rest stmt, DerivesStatement (front ++ rest) stmt

section

variable {stratum finer : Stratum} {word front : List Token} {expr : Expr} {token : Token}

theorem Begins.of_derives (derived : Derives stratum word expr) : Begins stratum word :=
  ⟨[], expr, by rwa [List.append_nil]⟩

theorem Begins.loosen (begins : Begins finer front) (le : stratum.rank ≤ finer.rank) :
    Begins stratum front := by
  obtain ⟨rest, expr, derived⟩ := begins
  exact ⟨rest, expr, derived.loosen le⟩

/-- Every stratum has words. -/
theorem Begins.nil (stratum : Stratum) : Begins stratum [] := by
  obtain ⟨name, kind_eq⟩ := Token.exists_kind_eq .identifier
  have le : stratum.rank ≤ Stratum.primary.rank := by cases stratum <;> decide
  exact ⟨[name], _, (Derives.identifier kind_eq).loosen le⟩

theorem Begins.unary (kind_eq : token.kind = .bang ∨ token.kind = .minus)
    (begins : Begins .unary front) : Begins .unary (token :: front) := by
  obtain ⟨rest, expr, derived⟩ := begins
  exact ⟨rest, _, .unary kind_eq derived⟩

theorem Begins.group (opens : token.kind = .openParen) (begins : Begins .equality front) :
    Begins .primary (token :: front) := by
  obtain ⟨rest, expr, derived⟩ := begins
  obtain ⟨closing, closes⟩ := Token.exists_kind_eq .closeParen
  exact ⟨rest ++ [closing], expr, by simpa using Derives.group opens derived closes⟩

theorem Begins.binary (kind_mem : token.kind ∈ stratum.operators)
    (left : Derives stratum word expr) (begins : Begins stratum.tighter front) :
    Begins stratum (word ++ token :: front) := by
  obtain ⟨rest, right, derived⟩ := begins
  exact ⟨rest, _, by simpa using Derives.binary kind_mem left derived⟩

theorem Begins.call (callee : Derives .call word expr) (opens : token.kind = .openParen)
    (begins : BeginsArguments front) : Begins .call (word ++ token :: front) := by
  obtain ⟨rest, elements, separated, each⟩ := begins
  obtain ⟨closing, closes⟩ := Token.exists_kind_eq .closeParen
  have closed := Derives.call callee opens separated each closes
  exact ⟨rest ++ [closing], _, by simpa using closed⟩

theorem BeginsAfterCommas.of_afterCommas {elements : List (List Token × Expr)}
    (separated : AfterCommas (elements.map Prod.fst) word)
    (each : ∀ element ∈ elements, Derives .equality element.1 element.2) :
    BeginsAfterCommas word :=
  ⟨[], elements, by rwa [List.append_nil], each⟩

theorem BeginsAfterCommas.first (separates : token.kind = .comma)
    (begins : Begins .equality front) : BeginsAfterCommas (token :: front) := by
  obtain ⟨rest, expr, derived⟩ := begins
  refine ⟨rest, [(front ++ rest, expr)], ?_, by simpa using derived⟩
  simpa using AfterCommas.cons separates .nil

theorem BeginsAfterCommas.cons (separates : token.kind = .comma)
    (derived : Derives .equality word expr) (begins : BeginsAfterCommas front) :
    BeginsAfterCommas (token :: word ++ front) := by
  obtain ⟨rest, elements, separated, each⟩ := begins
  refine ⟨rest, (word, expr) :: elements, ?_, List.forall_mem_cons.mpr ⟨derived, each⟩⟩
  simpa using AfterCommas.cons separates separated

theorem BeginsArguments.first (begins : Begins .equality front) : BeginsArguments front := by
  obtain ⟨rest, expr, derived⟩ := begins
  refine ⟨rest, [(front ++ rest, expr)], ?_, by simpa using derived⟩
  simpa using CommaSeparated.cons .nil

theorem BeginsArguments.cons (derived : Derives .equality word expr)
    (begins : BeginsAfterCommas front) : BeginsArguments (word ++ front) := by
  obtain ⟨rest, elements, separated, each⟩ := begins
  refine ⟨rest, (word, expr) :: elements, ?_, List.forall_mem_cons.mpr ⟨derived, each⟩⟩
  simpa using CommaSeparated.cons separated

theorem Completable.of_append {rest : List Token} (completable : Completable (front ++ rest)) :
    Completable front := by
  obtain ⟨more, stmt, derived⟩ := completable
  exact ⟨rest ++ more, stmt, by rwa [← List.append_assoc]⟩

theorem Completable.binding {keyword name assign : Token} (keyword_kind : keyword.kind = .letWord)
    (name_kind : name.kind = .identifier) (assign_kind : assign.kind = .assign)
    (begins : Begins .equality front) : Completable (keyword :: name :: assign :: front) := by
  obtain ⟨rest, value, derived⟩ := begins
  obtain ⟨semicolon, ends⟩ := Token.exists_kind_eq .semicolon
  have complete := DerivesStatement.binding keyword_kind name_kind assign_kind derived ends
  exact ⟨rest ++ [semicolon], _, by simpa using complete⟩

/-- A binding can follow its keyword, and its name. -/
theorem Completable.letWord {keyword name : Token} (keyword_kind : keyword.kind = .letWord)
    (name_kind : name.kind = .identifier) : Completable [keyword, name] := by
  obtain ⟨assign, assign_kind⟩ := Token.exists_kind_eq .assign
  have whole := Completable.binding keyword_kind name_kind assign_kind (Begins.nil .equality)
  exact @of_append [keyword, name] [assign] whole

theorem Completable.result {keyword : Token} (keyword_kind : keyword.kind = .returnWord)
    (begins : Begins .equality front) : Completable (keyword :: front) := by
  obtain ⟨rest, value, derived⟩ := begins
  obtain ⟨semicolon, ends⟩ := Token.exists_kind_eq .semicolon
  have complete := DerivesStatement.result keyword_kind derived ends
  exact ⟨rest ++ [semicolon], _, by simpa using complete⟩

theorem Completable.expression (begins : Begins .equality front) : Completable front := by
  obtain ⟨rest, expr, derived⟩ := begins
  obtain ⟨first, tail, word_eq⟩ := List.exists_cons_of_ne_nil derived.ne_nil
  obtain ⟨semicolon, ends⟩ := Token.exists_kind_eq .semicolon
  have complete := DerivesStatement.expression (word_eq ▸ derived) ends
  rw [← word_eq, List.append_assoc] at complete
  exact ⟨_, _, complete⟩

/-- A word that disappoints an expectation is the front of no statement. -/
theorem not_completable (dead : statement.afterAll word = none) : ¬ Completable word := by
  rintro ⟨rest, stmt, derived⟩
  obtain ⟨next, read⟩ := Expectation.afterAll_front derived.afterAll
  rw [dead] at read
  contradiction

end

end MonkeySyntax
