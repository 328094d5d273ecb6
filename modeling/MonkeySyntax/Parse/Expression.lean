import MonkeySyntax.Grammar.RuleTable
import MonkeySyntax.Parse.Basic
import MonkeySyntax.Text.Decimal
import MonkeySyntax.Tree.Program

/-!
# Parsing expressions

An expression is read as an operand followed by folds.  A fold takes what has been read so far as
its left operand, and it is read for as long as the next token binds more tightly than the power
asked for.

Every nested expression and every fold adds a level.  The number of levels that are still free, the
*room*, falls with each of them, and it is what the recursion is on.
-/

namespace MonkeySyntax

/-- The most levels that an expression may have. -/
def maxDepth : Nat := 256

/-- The greatest value of an integer literal, `2 ^ 63 - 1`. -/
def maxInteger : Nat := 9223372036854775807

/-- The value of an integer literal: a run of digits that denotes at most `maxInteger`. -/
def integerValue? (literal : String) : Option Nat :=
  (decimal? literal).filter (· ≤ maxInteger)

theorem integerValue?_eq_some_iff {literal : String} {value : Nat} :
    integerValue? literal = some value ↔ decimal? literal = some value ∧ value ≤ maxInteger := by
  simp [integerValue?, Option.filter_eq_some_iff]

namespace Parse

/-- Fails because no level is free. -/
def tooDeep {α : Type} : Parse α := do
  let token ← current
  fail ⟨.tooDeep maxDepth, token.span.start⟩

/-! ### Operands

The parameter `nested` reads an expression one level further in. -/

/-- Reads the current token as a name. -/
def identifier : Parse Expr := do
  let token ← current
  pure (.identifier ⟨token, token.literal⟩)

/-- Reads the current token as an integer. -/
def integer : Parse Expr := do
  let token ← current
  match integerValue? token.literal with
  | some value => pure (.integer token value)
  | none => fail ⟨.notAnInteger token.literal, token.span.start⟩

/-- Reads the current token as a truth value. -/
def boolean : Parse Expr := do
  let token ← current
  pure (.boolean token (token.kind = .trueWord))

/-- Reads the current token as an operator, and its operand after it. -/
def unary (nested : BindingPower → Parse Expr) : Parse Expr := do
  let token ← current
  advance
  let right ← nested .unary
  pure (.unary token token.literal right)

/-- Reads the expression between the current parenthesis and the one that closes it. -/
def group (nested : BindingPower → Parse Expr) : Parse Expr := do
  advance
  let expr ← nested .lowest
  expect .closeParen
  pure expr

/-- Reads the operand that a rule describes. -/
def ofOperandRule (nested : BindingPower → Parse Expr) : OperandRule → Parse Expr
  | .identifier => identifier
  | .integer => integer
  | .boolean => boolean
  | .unary => unary nested
  | .group => group nested

/-- Reads the operand that begins with the current token. -/
def operand (nested : BindingPower → Parse Expr) : Parse Expr := do
  let token ← current
  match RuleTable.monkey.operand? token.kind with
  | some rule => ofOperandRule nested rule
  | none => fail ⟨.noOperand token.kind, token.span.start⟩

/-! ### Folds -/

/-- Reads the current token as an operator after `left`, and its right operand. -/
def binary (nested : BindingPower → Parse Expr) (left : Expr) : Parse Expr := do
  let token ← current
  advance
  let right ← nested (RuleTable.monkey.power token.kind)
  pure (.binary token token.literal left right)

/-- Reads the arguments of a call, from the parenthesis before them to the one after them. -/
def arguments (nested : BindingPower → Parse Expr) : Parse (List Expr) := do
  let next ← peek
  advance
  if next.kind = .closeParen then
    pure []
  else
    let first ← nested .lowest
    let others ← afterCommas (nested .lowest)
    expect .closeParen
    pure (first :: others)

/-- Reads the current token as the parenthesis that opens the arguments of a call to `left`. -/
def call (nested : BindingPower → Parse Expr) (left : Expr) : Parse Expr := do
  let token ← current
  let arguments ← arguments nested
  pure (.call token left arguments)

/-- Reads the fold that a rule describes. -/
def ofFoldRule (nested : BindingPower → Parse Expr) (left : Expr) : FoldRule → Parse Expr
  | .binary => binary nested left
  | .call => call nested left

/-- Yields the rule of the fold that begins with the next token, if that token binds more tightly
than `power`. -/
def foldAbove (power : BindingPower) : Parse (Option FoldRule) := do
  let next ← peek
  if next.kind ≠ .semicolon ∧ power < RuleTable.monkey.power next.kind then
    pure (RuleTable.monkey.fold? next.kind)
  else
    pure none

/-! ### Expressions -/

mutual

/-- Reads an expression in which `room` levels are free and every fold binds more tightly than
`power`. -/
def expression : (room : Nat) → (power : BindingPower) → Parse Expr
  | 0, _ => tooDeep
  | room + 1, power => do
      let left ← operand (expression room)
      folds room power left

/-- Reads the folds that continue `left`. -/
def folds : (room : Nat) → (power : BindingPower) → (left : Expr) → Parse Expr
  | 0, power, left => do
      match ← foldAbove power with
      | some _ => tooDeep
      | none => pure left
  | room + 1, power, left => do
      match ← foldAbove power with
      | some rule =>
          advance
          let longer ← ofFoldRule (expression room) left rule
          folds room power longer
      | none => pure left

end

end Parse

end MonkeySyntax
