import MonkeySyntax.Text.Quoted
import MonkeySyntax.Token.Basic

/-!
# Diagnostics

A diagnostic says what is wrong with a source text and where.
-/

namespace MonkeySyntax

/-- What is wrong with a source text. -/
inductive SyntaxError where
  /-- A token of one kind has to stand where one of another kind stands. -/
  | unexpectedToken (expected found : Token.Kind)
  /-- A token of this kind begins no expression. -/
  | noOperand (kind : Token.Kind)
  /-- The text denotes no integer of the permitted range. -/
  | notAnInteger (literal : String)
  /-- An expression has more levels than the limit allows. -/
  | tooDeep (limit : Nat)
deriving DecidableEq, Repr

namespace SyntaxError

/-- The text of an error. -/
def message : SyntaxError → String
  | unexpectedToken expected found =>
      "expected next token to be " ++ expected.name ++ " but got " ++ found.name ++ " instead"
  | noOperand kind => "no prefix parse function for " ++ kind.name ++ " found"
  | notAnInteger literal => "could not parse " ++ quoted literal ++ " as integer"
  | tooDeep limit => "expression nested deeper than " ++ toString limit ++ " levels"

end SyntaxError

/-- An error and its place in the source text. -/
structure Diagnostic where
  /-- What is wrong. -/
  cause : SyntaxError
  /-- Where the offending token begins. -/
  position : Position
deriving DecidableEq, Repr

namespace Diagnostic

/-- The text of a diagnostic, which does not mention its place. -/
def message (diagnostic : Diagnostic) : String :=
  diagnostic.cause.message

instance : ToString Diagnostic where
  toString := message

end Diagnostic

end MonkeySyntax
