import MonkeySyntax.Tree.Expr

/-!
# Statements and programs

A program is a list of statements, and its text is the text of the statements without anything
between them.
-/

namespace MonkeySyntax

/-- A statement. -/
inductive Stmt where
  /-- Binds a name to a value. -/
  | binding (token : Token) (name : Identifier) (value : Expr)
  /-- Returns a value. -/
  | result (token : Token) (value : Expr)
  /-- An expression on its own; the token is its first one. -/
  | expression (token : Token) (expr : Expr)
deriving DecidableEq, Repr

namespace Stmt

/-- The token that the root of a statement was built from. -/
def token : Stmt → Token
  | binding token _ _ => token
  | result token _ => token
  | expression token _ => token

/-- The text of a statement.  A keyword is written as its token spells it. -/
def render : Stmt → String
  | binding token name value =>
      token.literal ++ " " ++ name.value ++ " = " ++ value.render ++ ";"
  | result token value => token.literal ++ " " ++ value.render ++ ";"
  | expression _ expr => expr.render ++ ";"

instance : ToString Stmt where
  toString := render

end Stmt

/-- A sequence of statements. -/
structure Program where
  /-- The statements, in source order. -/
  statements : List Stmt := []
deriving DecidableEq, Repr

namespace Program

/-- Whether there is no statement. -/
def isEmpty (program : Program) : Bool :=
  program.statements.isEmpty

/-- The text of the token that the first statement was built from, or nothing without one. -/
def tokenLiteral (program : Program) : String :=
  (program.statements.head?.map (·.token.literal)).getD ""

/-- The text of a program. -/
def render (program : Program) : String :=
  String.join (program.statements.map Stmt.render)

instance : ToString Program where
  toString := render

end Program

end MonkeySyntax
