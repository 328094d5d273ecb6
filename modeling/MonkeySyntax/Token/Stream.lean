import MonkeySyntax.Token.Lexer

/-!
# Token streams

A token stream is a source text seen through two tokens: the current one and the one after it.
The stream has no end: past the last token it stays at the end of the input.
-/

namespace MonkeySyntax

/-- The tokens of a source text from some place on. -/
structure TokenStream where
  /-- The tokens before the end of the input, the current one first. -/
  tokens : List Token
  /-- The number of bytes in the source text. -/
  size : Nat
deriving DecidableEq, Repr

namespace TokenStream

/-- The tokens that a lexer has still to read. -/
def ofLexer (lexer : Lexer) : TokenStream :=
  ⟨lexer.tokens, lexer.finish.offset⟩

/-- The tokens of a source text. -/
def ofString (source : String) : TokenStream :=
  ofLexer (.ofString source)

/-- The first token. -/
def current (stream : TokenStream) : Token :=
  stream.tokens.headD (.endOfInput stream.size)

/-- The stream without its first token. -/
def advance (stream : TokenStream) : TokenStream :=
  { stream with tokens := stream.tokens.tail }

/-- The token after the current one. -/
def peek (stream : TokenStream) : Token :=
  stream.advance.current

/-- Whether a token is left before the end of the input. -/
def hasTokens (stream : TokenStream) : Bool :=
  stream.current.kind ≠ .endOfInput

/-- The stream from the next semicolon on, or at the end of the input. -/
def synchronize (stream : TokenStream) : TokenStream :=
  { stream with tokens := stream.tokens.dropWhile (·.kind ≠ .semicolon) }

/-- A stream is a rest of another if it is the other one with some tokens passed. -/
structure IsRestOf (after before : TokenStream) : Prop where
  /-- The tokens left are the last ones of the other stream. -/
  suffix : after.tokens <:+ before.tokens
  /-- Both belong to source texts of one size. -/
  size_eq : after.size = before.size

namespace IsRestOf

theorem refl (stream : TokenStream) : stream.IsRestOf stream :=
  ⟨List.suffix_refl stream.tokens, rfl⟩

theorem trans {last middle first : TokenStream} (later : last.IsRestOf middle)
    (earlier : middle.IsRestOf first) : last.IsRestOf first :=
  ⟨later.suffix.trans earlier.suffix, later.size_eq.trans earlier.size_eq⟩

/-- A rest has no more tokens than the whole. -/
theorem length_le {after before : TokenStream} (rest : after.IsRestOf before) :
    after.tokens.length ≤ before.tokens.length :=
  rest.suffix.length_le

end IsRestOf

theorem advance_isRestOf (stream : TokenStream) : stream.advance.IsRestOf stream :=
  ⟨List.tail_suffix stream.tokens, rfl⟩

theorem synchronize_isRestOf (stream : TokenStream) : stream.synchronize.IsRestOf stream :=
  ⟨List.dropWhile_suffix _, rfl⟩

/-- Advancing takes a token off the stream while there is one. -/
theorem length_advance_lt {stream : TokenStream} (left : stream.hasTokens = true) :
    stream.advance.tokens.length < stream.tokens.length := by
  cases tokens : stream.tokens with
  | nil => simp [hasTokens, current, tokens, Token.endOfInput] at left
  | cons token rest => simp [advance, tokens]

end TokenStream

end MonkeySyntax
