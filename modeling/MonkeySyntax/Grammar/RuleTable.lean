import MonkeySyntax.Grammar.BindingPower
import MonkeySyntax.Token.Basic

/-!
# Tables of grammar rules

A rule table says, for each kind of token, which statement the token begins, which operand it
begins, how it continues an operand on its left, and how tightly it binds that operand.
-/

namespace MonkeySyntax

/-- Statements that begin with a keyword. -/
inductive StatementRule where
  /-- A name bound to a value. -/
  | binding
  /-- A value returned. -/
  | result
deriving DecidableEq, Repr

/-- Ways to begin an expression. -/
inductive OperandRule where
  /-- A name. -/
  | identifier
  /-- An integer. -/
  | integer
  /-- A truth value. -/
  | boolean
  /-- An operator in front of its operand. -/
  | unary
  /-- An expression in parentheses. -/
  | group
deriving DecidableEq, Repr

/-- Ways to continue an expression with an operand on its left. -/
inductive FoldRule where
  /-- An operator and its right operand. -/
  | binary
  /-- The arguments of a call. -/
  | call
deriving DecidableEq, Repr

/-- The rules that apply to each kind of token. -/
structure RuleTable where
  /-- The statement that a token begins, if it begins one of its own. -/
  statement? : Token.Kind → Option StatementRule := fun _ => none
  /-- The operand that a token begins. -/
  operand? : Token.Kind → Option OperandRule := fun _ => none
  /-- How a token continues the operand on its left. -/
  fold? : Token.Kind → Option FoldRule := fun _ => none
  /-- How tightly a token binds the operand on its left. -/
  power : Token.Kind → BindingPower := fun _ => .lowest

namespace RuleTable

/-- The table without rules. -/
def empty : RuleTable := {}

/-- The entries with the one for `kind` replaced. -/
def update {Entry : Type} (entries : Token.Kind → Entry) (kind : Token.Kind) (entry : Entry) :
    Token.Kind → Entry :=
  fun other => if other = kind then entry else entries other

section

variable {Entry : Type} (entries : Token.Kind → Entry) {kind other : Token.Kind} (entry : Entry)

@[simp]
theorem update_self : update entries kind entry kind = entry := by
  simp [update]

@[simp]
theorem update_of_ne (different : other ≠ kind) :
    update entries kind entry other = entries other := by
  simp [update, different]

end

/-- Sets the statement that a kind of token begins. -/
def registerStatement (table : RuleTable) (kind : Token.Kind) (rule : StatementRule) :
    RuleTable :=
  { table with statement? := update table.statement? kind (some rule) }

/-- Sets the operand that a kind of token begins. -/
def registerOperand (table : RuleTable) (kind : Token.Kind) (rule : OperandRule) : RuleTable :=
  { table with operand? := update table.operand? kind (some rule) }

/-- Sets how a kind of token continues an operand, and how tightly it binds that operand. -/
def registerFold (table : RuleTable) (kind : Token.Kind) (power : BindingPower)
    (rule : FoldRule) : RuleTable :=
  { table with
    fold? := update table.fold? kind (some rule)
    power := update table.power kind power }

/-- The rules of the Monkey language. -/
def monkey : RuleTable :=
  empty
    |>.registerFold .equal .equality .binary
    |>.registerFold .notEqual .equality .binary
    |>.registerFold .less .comparison .binary
    |>.registerFold .greater .comparison .binary
    |>.registerFold .plus .sum .binary
    |>.registerFold .minus .sum .binary
    |>.registerFold .asterisk .product .binary
    |>.registerFold .slash .product .binary
    |>.registerFold .openParen .call .call
    |>.registerOperand .identifier .identifier
    |>.registerOperand .integer .integer
    |>.registerOperand .trueWord .boolean
    |>.registerOperand .falseWord .boolean
    |>.registerOperand .bang .unary
    |>.registerOperand .minus .unary
    |>.registerOperand .openParen .group
    |>.registerStatement .letWord .binding
    |>.registerStatement .returnWord .result

end RuleTable

end MonkeySyntax
