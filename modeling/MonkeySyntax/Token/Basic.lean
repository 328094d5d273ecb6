import MonkeySyntax.Position

/-!
# Tokens

A token is a lexeme of the Monkey language together with its kind and the stretch of source text
that it covers.
-/

namespace MonkeySyntax

/-- The lexical class of a token. -/
inductive Token.Kind where
  /-- A byte that begins no lexeme. -/
  | illegal
  /-- The end of the source text. -/
  | endOfInput
  /-- A word that is not a keyword. -/
  | identifier
  /-- A run of decimal digits. -/
  | integer
  /-- The sign `=`. -/
  | assign
  /-- The sign `+`. -/
  | plus
  /-- The sign `-`. -/
  | minus
  /-- The sign `!`. -/
  | bang
  /-- The sign `*`. -/
  | asterisk
  /-- The sign `/`. -/
  | slash
  /-- The sign `<`. -/
  | less
  /-- The sign `>`. -/
  | greater
  /-- The sign `==`. -/
  | equal
  /-- The sign `!=`. -/
  | notEqual
  /-- The sign `,`. -/
  | comma
  /-- The sign `;`. -/
  | semicolon
  /-- The sign `(`. -/
  | openParen
  /-- The sign `)`. -/
  | closeParen
  /-- An opening brace. -/
  | openBrace
  /-- A closing brace. -/
  | closeBrace
  /-- The keyword `fn`. -/
  | fnWord
  /-- The keyword `let`. -/
  | letWord
  /-- The keyword `return`. -/
  | returnWord
  /-- The keyword `if`. -/
  | ifWord
  /-- The keyword `else`. -/
  | elseWord
  /-- The keyword `true`. -/
  | trueWord
  /-- The keyword `false`. -/
  | falseWord
deriving DecidableEq, Repr

namespace Token.Kind

/-- The name of a kind, as messages and token listings show it. -/
def name : Kind → String
  | illegal => "Illegal"
  | endOfInput => "EOF"
  | identifier => "Identifier"
  | integer => "Integer"
  | assign => "Assign"
  | plus => "Plus"
  | minus => "Minus"
  | bang => "Bang"
  | asterisk => "Asterisk"
  | slash => "Slash"
  | less => "LessThan"
  | greater => "GreaterThan"
  | equal => "Equals"
  | notEqual => "NotEquals"
  | comma => "Comma"
  | semicolon => "Semicolon"
  | openParen => "OpenParen"
  | closeParen => "CloseParen"
  | openBrace => "OpenCurly"
  | closeBrace => "CloseCurly"
  | fnWord => "Function"
  | letWord => "Let"
  | returnWord => "Return"
  | ifWord => "If"
  | elseWord => "Else"
  | trueWord => "True"
  | falseWord => "False"

instance : ToString Kind where
  toString := name

/-- The words with a meaning of their own, in alphabetical order, and their kinds. -/
def keywords : List (String × Kind) :=
  [("else", elseWord), ("false", falseWord), ("fn", fnWord), ("if", ifWord), ("let", letWord),
    ("return", returnWord), ("true", trueWord)]

/-- The kind of a word: its own kind for a keyword, `identifier` for any other. -/
def ofWord (word : String) : Kind :=
  (keywords.lookup word).getD identifier

theorem ofWord_eq_identifier_or_mem (word : String) :
    ofWord word = identifier ∨ (word, ofWord word) ∈ keywords := by
  unfold ofWord
  cases found : keywords.lookup word with
  | none => exact .inl rfl
  | some kind =>
      obtain ⟨before, after, split, _⟩ := List.lookup_eq_some_iff.mp found
      refine .inr ?_
      rw [split]
      simp

end Token.Kind

/-- A lexeme with its kind and its place in the source text. -/
structure Token where
  /-- The lexical class. -/
  kind : Token.Kind
  /-- The text of the lexeme; empty for an illegal byte and at the end of the input. -/
  literal : String
  /-- The bytes that the lexeme covers. -/
  span : Span
deriving DecidableEq, Repr

namespace Token

/-- The token that stands at the end of a source text of the given size. -/
def endOfInput (size : Nat) : Token :=
  ⟨.endOfInput, "", .ofOffsets size size⟩

/-- A token is shown as its kind followed by its text in parentheses. -/
instance : ToString Token where
  toString token := token.kind.name ++ " (" ++ token.literal ++ ")"

end Token

end MonkeySyntax
