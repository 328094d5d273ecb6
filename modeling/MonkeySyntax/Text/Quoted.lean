import MonkeySyntax.Text.Glyphless

/-!
# Quoted text

A quoted text shows every character of a text, those without a glyph included, between double
quotes.
-/

namespace MonkeySyntax

/-- How a character is written inside quotes: the quote and the backslash after a backslash, the
common controls by their letters, other characters without a glyph by their code in hexadecimal
digits, and the rest as they are. -/
def escaped (char : Char) : String :=
  match char with
  | '"' => "\\\""
  | '\\' => "\\\\"
  | '\n' => "\\n"
  | '\t' => "\\t"
  | '\r' => "\\r"
  | '\x00' => "\\0"
  | other =>
      if isGlyphless other then
        "\\u\x7b" ++ String.ofList (Nat.toDigits 16 other.toNat) ++ "\x7d"
      else
        other.toString

/-- A text in double quotes. -/
def quoted (text : String) : String :=
  "\"" ++ String.join (text.toList.map escaped) ++ "\""

end MonkeySyntax
