import MonkeySyntax.Token.Basic

/-!
# Lexer

A lexer cuts the bytes of a source text into lexemes, each as long as possible, and passes over
blanks between them.  Only ASCII characters have a meaning; every other byte is an illegal lexeme
of its own.
-/

namespace MonkeySyntax

/-- The character with the same code as a byte.  A byte outside ASCII stands for no letter, digit
or sign, so this reading is exact where it matters. -/
def charOfByte (byte : UInt8) : Char :=
  Char.ofUInt8 byte

/-- The text whose characters have the codes of the given bytes. -/
def textOfBytes (bytes : List UInt8) : String :=
  String.ofList (bytes.map charOfByte)

/-- Blanks separate lexemes: space, tab, line feed and carriage return. -/
def isBlank (byte : UInt8) : Bool :=
  charOfByte byte ∈ [' ', '\t', '\n', '\r']

/-- Words are made of ASCII letters and underscores. -/
def isLetter (byte : UInt8) : Bool :=
  (charOfByte byte).isAlpha || charOfByte byte == '_'

/-- Integers are made of decimal digits. -/
def isDigit (byte : UInt8) : Bool :=
  (charOfByte byte).isDigit

/-- A piece of source text with its lexical class. -/
structure Lexeme where
  /-- The lexical class. -/
  kind : Token.Kind
  /-- The bytes of the piece. -/
  bytes : List UInt8
deriving DecidableEq, Repr

namespace Lexeme

/-- The text of a lexeme.  An illegal byte has none. -/
def text (lexeme : Lexeme) : String :=
  if lexeme.kind = .illegal then "" else textOfBytes lexeme.bytes

/-- The kind of a sign that stands for itself, whatever follows it. -/
def signKind? : Char → Option Token.Kind
  | '(' => some .openParen
  | ')' => some .closeParen
  | '{' => some .openBrace
  | '}' => some .closeBrace
  | ',' => some .comma
  | ';' => some .semicolon
  | '+' => some .plus
  | '-' => some .minus
  | '*' => some .asterisk
  | '/' => some .slash
  | '<' => some .less
  | '>' => some .greater
  | _ => none

/-- The kinds of a sign that a following `=` extends: alone, and extended. -/
def extensibleKinds? : Char → Option (Token.Kind × Token.Kind)
  | '=' => some (.assign, .equal)
  | '!' => some (.bang, .notEqual)
  | _ => none

/-- The longest run of bytes of one class after `first`, with `first` in front. -/
def run (ofClass : UInt8 → Bool) (first : UInt8) (rest : List UInt8) : List UInt8 :=
  first :: rest.takeWhile ofClass

/-- The longest lexeme at the front of `first :: rest`, and the bytes after it. -/
def cut (first : UInt8) (rest : List UInt8) : Lexeme × List UInt8 :=
  if isLetter first then
    let word := run isLetter first rest
    (⟨.ofWord (textOfBytes word), word⟩, rest.dropWhile isLetter)
  else if isDigit first then
    (⟨.integer, run isDigit first rest⟩, rest.dropWhile isDigit)
  else
    match extensibleKinds? (charOfByte first), rest with
    | some (lone, extended), next :: after =>
        if charOfByte next = '=' then (⟨extended, [first, next]⟩, after)
        else (⟨lone, [first]⟩, rest)
    | some (lone, _), [] => (⟨lone, [first]⟩, [])
    | none, _ => (⟨(signKind? (charOfByte first)).getD .illegal, [first]⟩, rest)

/-- Cutting off a lexeme loses no byte. -/
theorem cut_append (first : UInt8) (rest : List UInt8) :
    (cut first rest).1.bytes ++ (cut first rest).2 = first :: rest := by
  unfold cut
  split
  · simp [run, List.takeWhile_append_dropWhile]
  · split
    · simp [run, List.takeWhile_append_dropWhile]
    · split
      · split <;> simp
      · rfl
      · rfl

/-- A lexeme has at least one byte. -/
theorem cut_bytes_ne_nil (first : UInt8) (rest : List UInt8) :
    (cut first rest).1.bytes ≠ [] := by
  unfold cut
  split
  · simp [run]
  · split
    · simp [run]
    · split
      · split <;> simp
      · simp
      · simp

/-- What is left after a lexeme is shorter than what it was cut from. -/
theorem length_cut_le (first : UInt8) (rest : List UInt8) :
    (cut first rest).2.length ≤ rest.length := by
  have whole := congrArg List.length (cut_append first rest)
  have some_byte := List.length_pos_iff.mpr (cut_bytes_ne_nil first rest)
  simp only [List.length_append, List.length_cons] at whole
  omega

end Lexeme

/-- A place in a source text from which lexemes are read. -/
structure Lexer where
  /-- Number of bytes already read. -/
  offset : Nat := 0
  /-- Bytes still to be read. -/
  rest : List UInt8
deriving DecidableEq, Repr

namespace Lexer

/-- The lexer at the start of a source text. -/
def ofString (source : String) : Lexer where
  rest := source.toUTF8.data.toList

/-- Whether every byte has been read, blanks included. -/
def atEnd (lexer : Lexer) : Bool :=
  lexer.rest.isEmpty

/-- The lexer with every byte read. -/
def finish (lexer : Lexer) : Lexer :=
  ⟨lexer.offset + lexer.rest.length, []⟩

/-- The next token and the lexer after it, or `none` if only blanks are left. -/
def next? (lexer : Lexer) : Option (Token × Lexer) :=
  match lexer.rest.dropWhile isBlank with
  | [] => none
  | first :: rest =>
      let found := Lexeme.cut first rest
      let start := lexer.offset + (lexer.rest.takeWhile isBlank).length
      let stop := start + found.1.bytes.length
      some (⟨found.1.kind, found.1.text, .ofOffsets start stop⟩, ⟨stop, found.2⟩)

/-- The next token and the lexer after it.  Once only blanks are left, every token is the one that
stands for the end of the input. -/
def next (lexer : Lexer) : Token × Lexer :=
  lexer.next?.getD (.endOfInput lexer.finish.offset, lexer.finish)

/-- Reading a token leaves fewer bytes. -/
theorem rest_length_lt_of_next? {lexer after : Lexer} {token : Token}
    (read : lexer.next? = some (token, after)) : after.rest.length < lexer.rest.length := by
  unfold next? at read
  split at read
  · contradiction
  · next first rest nonblank =>
      obtain ⟨-, rfl⟩ := Prod.mk.inj (Option.some.inj read)
      have whole := congrArg List.length
        (List.takeWhile_append_dropWhile (p := isBlank) (l := lexer.rest))
      have shorter := Lexeme.length_cut_le first rest
      simp only [nonblank, List.length_append, List.length_cons] at whole ⊢
      omega

/-- The tokens still to be read, without the one for the end of the input. -/
def tokens (lexer : Lexer) : List Token :=
  match _read : lexer.next? with
  | none => []
  | some (token, after) => token :: after.tokens
termination_by lexer.rest.length
decreasing_by exact rest_length_lt_of_next? _read

end Lexer

/-- The tokens of a source text, the one for the end of the input last. -/
def tokenize (source : String) : List Token :=
  (Lexer.ofString source).tokens ++ [.endOfInput source.utf8ByteSize]

/-- The lines that list the tokens of a source text, without the one for the end of the input. -/
def tokenLines (source : String) : List String :=
  (Lexer.ofString source).tokens.map toString

end MonkeySyntax
