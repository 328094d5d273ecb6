import MonkeySyntax.Parse.Statement

/-!
# Parsers

A parser is a token stream together with the level of nesting that it stands at and the
diagnostics that it has collected.  Reading an expression or a statement moves the stream and
returns to the level it started from; reading a program also collects diagnostics.
-/

namespace MonkeySyntax

/-- The state of a parser. -/
structure Parser where
  /-- The tokens from the current one on. -/
  stream : TokenStream
  /-- The number of levels in use. -/
  depth : Nat := 0
  /-- What was found to be wrong, in the order in which it was found. -/
  diagnostics : List Diagnostic := []
deriving DecidableEq, Repr

namespace Parser

variable {α : Type}

/-- A parser of the tokens that a lexer has still to read. -/
def ofLexer (lexer : Lexer) : Parser where
  stream := .ofLexer lexer

/-- A parser of a source text. -/
def ofString (source : String) : Parser :=
  ofLexer (.ofString source)

/-- The current token. -/
def current (parser : Parser) : Token :=
  parser.stream.current

/-- The token after the current one. -/
def peek (parser : Parser) : Token :=
  parser.stream.peek

/-- Whether a token is left before the end of the input. -/
def hasTokens (parser : Parser) : Bool :=
  parser.stream.hasTokens

/-- The binding power of the current token. -/
def currentPower (parser : Parser) : BindingPower :=
  RuleTable.monkey.power parser.current.kind

/-- The binding power of the token after the current one. -/
def peekPower (parser : Parser) : BindingPower :=
  RuleTable.monkey.power parser.peek.kind

/-- The texts of the diagnostics. -/
def messages (parser : Parser) : List String :=
  parser.diagnostics.map Diagnostic.message

/-- The number of levels that are free. -/
def room (parser : Parser) : Nat :=
  maxDepth - parser.depth

/-- Takes one more level, or fails at the current token if none is free. -/
def enterNesting (parser : Parser) : Except Diagnostic Parser :=
  if parser.depth < maxDepth then
    .ok { parser with depth := parser.depth + 1 }
  else
    .error ⟨.tooDeep maxDepth, parser.current.span.start⟩

/-- Goes back, or on, to a given number of levels in use. -/
def resetDepth (parser : Parser) (depth : Nat) : Parser :=
  { parser with depth }

/-- Takes a parsing step. -/
def perform (parser : Parser) (step : Parse α) : Except Diagnostic α × Parser :=
  let taken := step.run parser.stream
  (taken.1, { parser with stream := taken.2 })

/-- Goes on to the next token. -/
def advance (parser : Parser) : Parser :=
  { parser with stream := parser.stream.advance }

/-- Goes on to the next token if it is of the given kind. -/
def expect (parser : Parser) (kind : Token.Kind) : Except Diagnostic Unit × Parser :=
  parser.perform (.expect kind)

/-- Reads an expression one level further in, at the level that the parser stands at. -/
def nested (parser : Parser) : BindingPower → Parse Expr :=
  Parse.expression parser.room

/-- Reads an expression whose folds bind more tightly than `power`. -/
def expression (parser : Parser) (power : BindingPower) : Except Diagnostic Expr × Parser :=
  parser.perform (parser.nested power)

/-- Reads the operand that a rule describes. -/
def operand (parser : Parser) (rule : OperandRule) : Except Diagnostic Expr × Parser :=
  parser.perform (.ofOperandRule parser.nested rule)

/-- Reads the fold that a rule describes, with the given left operand. -/
def fold (parser : Parser) (rule : FoldRule) (left : Expr) : Except Diagnostic Expr × Parser :=
  parser.perform (.ofFoldRule parser.nested left rule)

/-- Reads the statement that begins with the current token. -/
def statement (parser : Parser) : Except Diagnostic Stmt × Parser :=
  parser.perform (.statement parser.room)

/-- Reads the statement that a rule describes. -/
def statementOf (parser : Parser) (rule : StatementRule) : Except Diagnostic Stmt × Parser :=
  parser.perform (.ofStatementRule parser.room rule)

/-- Reads a statement that is an expression. -/
def expressionStatement (parser : Parser) : Except Diagnostic Stmt × Parser :=
  parser.perform (.expressionStatement parser.room)

/-- Reads statements to the end of the input.  Statements that fail are left out, and what is wrong
with them is added to the diagnostics. -/
def program (parser : Parser) : Program × Parser :=
  let read := Parse.outcomes parser.room parser.stream
  (⟨statementsOf read.1⟩,
    { parser with
      stream := read.2
      diagnostics := parser.diagnostics ++ diagnosticsOf read.1 })

end Parser

/-- The program in a source text, without the statements that fail, and the messages on those. -/
def parse (source : String) : Program × List String :=
  let read := (Parser.ofString source).program
  (read.1, read.2.messages)

end MonkeySyntax
