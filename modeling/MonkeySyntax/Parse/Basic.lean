import MonkeySyntax.Diagnostic
import MonkeySyntax.Token.Stream

/-!
# Parsing steps

A parsing step reads tokens from a stream.  Whether it succeeds or fails, it leaves a stream from
which the next step goes on, so that a failure keeps the place that was reached.  A step can only
pass tokens of the stream; this is part of its type, and it is what makes loops over steps end.
-/

namespace MonkeySyntax

/-- A step that reads tokens and yields a value or a diagnostic. -/
structure Parse (α : Type) where
  /-- What the step yields on a stream, and the stream that it leaves. -/
  run : TokenStream → Except Diagnostic α × TokenStream
  /-- The stream left is the given one with some tokens passed. -/
  run_isRestOf : ∀ stream, (run stream).2.IsRestOf stream

namespace Parse

variable {α β : Type}

/-- The step that reads nothing and yields a value. -/
protected def pure (value : α) : Parse α where
  run stream := (.ok value, stream)
  run_isRestOf := .refl

/-- A step followed by another that depends on its value; a failure of the first is final. -/
protected def bind (first : Parse α) (second : α → Parse β) : Parse β where
  run stream :=
    match first.run stream with
    | (.ok value, after) => (second value).run after
    | (.error diagnostic, after) => (.error diagnostic, after)
  run_isRestOf stream := by
    have earlier := first.run_isRestOf stream
    split
    · next value after read =>
        rw [read] at earlier
        exact ((second value).run_isRestOf after).trans earlier
    · next diagnostic after read => rwa [read] at earlier

instance : Monad Parse where
  pure := Parse.pure
  bind := Parse.bind

/-- The step that fails with a diagnostic and reads nothing. -/
def fail (diagnostic : Diagnostic) : Parse α where
  run stream := (.error diagnostic, stream)
  run_isRestOf := .refl

/-- Yields the current token. -/
def current : Parse Token where
  run stream := (.ok stream.current, stream)
  run_isRestOf := .refl

/-- Yields the token after the current one. -/
def peek : Parse Token where
  run stream := (.ok stream.peek, stream)
  run_isRestOf := .refl

/-- Goes on to the next token. -/
def advance : Parse Unit where
  run stream := (.ok (), stream.advance)
  run_isRestOf := TokenStream.advance_isRestOf

@[simp]
theorem run_pure (value : α) (stream : TokenStream) :
    (pure value : Parse α).run stream = (.ok value, stream) := rfl

theorem run_bind (first : Parse α) (second : α → Parse β) (stream : TokenStream) :
    (first >>= second).run stream =
      match first.run stream with
      | (.ok value, after) => (second value).run after
      | (.error diagnostic, after) => (.error diagnostic, after) := rfl

@[simp]
theorem run_fail (diagnostic : Diagnostic) (stream : TokenStream) :
    (fail diagnostic : Parse α).run stream = (.error diagnostic, stream) := rfl

@[simp]
theorem run_current (stream : TokenStream) :
    current.run stream = (.ok stream.current, stream) := rfl

@[simp]
theorem run_peek (stream : TokenStream) : peek.run stream = (.ok stream.peek, stream) := rfl

@[simp]
theorem run_advance (stream : TokenStream) : advance.run stream = (.ok (), stream.advance) := rfl

/-- A comma that follows the current token can be advanced past. -/
theorem length_advance_advance_lt {stream : TokenStream} (comma : stream.peek.kind = .comma) :
    stream.advance.advance.tokens.length < stream.tokens.length := by
  have left : stream.advance.hasTokens = true := by
    simp only [TokenStream.hasTokens, show stream.advance.current.kind = .comma from comma]
    decide
  exact Nat.lt_of_lt_of_le (TokenStream.length_advance_lt left) stream.advance_isRestOf.length_le

/-- Goes on to the next token if it is of the given kind, and fails there otherwise. -/
def expect (kind : Token.Kind) : Parse Unit := do
  let next ← peek
  if next.kind = kind then
    advance
  else
    fail ⟨.unexpectedToken kind next.kind, next.span.start⟩

/-- The elements that follow, each after a comma, and the stream after the last one. -/
def listAfterCommas (element : Parse α) (stream : TokenStream) :
    Except Diagnostic (List α) × TokenStream :=
  if _comma : stream.peek.kind = .comma then
    match _read : element.run stream.advance.advance with
    | (.ok value, after) =>
        let others := listAfterCommas element after
        (others.1.map (value :: ·), others.2)
    | (.error diagnostic, after) => (.error diagnostic, after)
  else
    (.ok [], stream)
termination_by stream.tokens.length
decreasing_by
  -- The comma is passed before the element is read.
  have element_rest := element.run_isRestOf stream.advance.advance
  rw [_read] at element_rest
  exact Nat.lt_of_le_of_lt element_rest.length_le (length_advance_advance_lt _comma)

theorem listAfterCommas_isRestOf (element : Parse α) (stream : TokenStream) :
    (listAfterCommas element stream).2.IsRestOf stream := by
  have comma_rest (stream : TokenStream) : stream.advance.advance.IsRestOf stream :=
    stream.advance.advance_isRestOf.trans stream.advance_isRestOf
  fun_induction listAfterCommas element stream with
  | case1 stream _ value after read others ih =>
      have element_rest := element.run_isRestOf stream.advance.advance
      rw [read] at element_rest
      exact ih.trans (element_rest.trans (comma_rest stream))
  | case2 stream _ diagnostic after read =>
      have element_rest := element.run_isRestOf stream.advance.advance
      rw [read] at element_rest
      exact element_rest.trans (comma_rest stream)
  | case3 stream => exact .refl stream

/-- Reads an element after each comma that follows the current token. -/
def afterCommas (element : Parse α) : Parse (List α) where
  run := listAfterCommas element
  run_isRestOf := listAfterCommas_isRestOf element

end Parse

end MonkeySyntax
