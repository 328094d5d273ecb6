import Mathlib.Logic.Function.Iterate
import MonkeySyntax.Proofs.MaximalMunch
import MonkeySyntax.Proofs.Refinement

/-!
# The lexer as a scanner of bytes

A scanner looks at one byte of a source text at a time.  It knows the place of that byte and the
place of the next one, and a byte 0 stands for the end of the text as well as for itself.  The text
of a token is a piece of the source text between two byte offsets, and there is no such piece
unless both offsets lie between characters.

The scanner reads what the lexer reads, and no piece that it takes is missing: a piece begins and
ends beside ASCII bytes, and those are characters of their own.
-/

namespace MonkeySyntax

/-! ### Pieces of a text -/

/-- A byte offset lies between two characters of a text, or at one of its ends. -/
def IsBoundary (text : String) (offset : Nat) : Prop :=
  (⟨offset⟩ : String.Pos.Raw).IsValid text

instance (text : String) (offset : Nat) : Decidable (IsBoundary text offset) :=
  inferInstanceAs (Decidable ((⟨offset⟩ : String.Pos.Raw).IsValid text))

/-- The piece of a text between two byte offsets.  There is none unless both offsets lie between
characters and the first is not behind the second. -/
def piece? (text : String) (start stop : Nat) : Option String :=
  if inside : IsBoundary text start ∧ IsBoundary text stop ∧ start ≤ stop then
    some (text.extract ⟨⟨start⟩, inside.1⟩ ⟨⟨stop⟩, inside.2.1⟩)
  else
    none

theorem isBoundary_of_append (first last : String) :
    IsBoundary (first ++ last) first.utf8ByteSize :=
  String.Pos.Raw.isValid_iff_exists_append.mpr ⟨first, last, rfl, rfl⟩

theorem IsBoundary.le_size {text : String} {offset : Nat} (boundary : IsBoundary text offset) :
    offset ≤ text.utf8ByteSize :=
  boundary.le_rawEndPos

/-- A piece that is there is cut out between characters. -/
theorem piece?_eq_some {text piece : String} {start stop : Nat}
    (found : piece? text start stop = some piece) :
    IsBoundary text start ∧ IsBoundary text stop ∧ start ≤ stop := by
  unfold piece? at found
  split at found
  · next inside => exact inside
  · contradiction

theorem bytesOf_extract {text : String} (start stop : text.Pos) :
    bytesOf (text.extract start stop) =
      ((bytesOf text).drop start.offset.byteIdx).take
        (stop.offset.byteIdx - start.offset.byteIdx) := by
  simp [bytesOf, String.toByteArray_extract, ByteArray.data_extract]

theorem piece?_append (first middle last : String) :
    piece? (first ++ middle ++ last) first.utf8ByteSize (first ++ middle).utf8ByteSize =
      some middle := by
  have start_boundary : IsBoundary (first ++ middle ++ last) first.utf8ByteSize := by
    rw [String.append_assoc]
    exact isBoundary_of_append _ _
  have stop_boundary := isBoundary_of_append (first ++ middle) last
  have size_eq : (first ++ middle).utf8ByteSize = first.utf8ByteSize + middle.utf8ByteSize :=
    String.utf8ByteSize_append
  rw [piece?, dif_pos ⟨start_boundary, stop_boundary, by omega⟩]
  refine congrArg some (bytesOf_injective ?_)
  refine (bytesOf_extract _ _).trans ?_
  change ((bytesOf (first ++ middle ++ last)).drop first.utf8ByteSize).take
    ((first ++ middle).utf8ByteSize - first.utf8ByteSize) = bytesOf middle
  rw [size_eq, Nat.add_sub_cancel_left, bytesOf_append, bytesOf_append, List.append_assoc,
    ← length_bytesOf first, ← length_bytesOf middle, List.drop_left, List.take_left]

/-- ASCII bytes of a text are a piece of it. -/
theorem exists_text_of_ascii {text : String} {front piece after : List UInt8}
    (nonempty : piece ≠ []) (ascii : ∀ byte ∈ piece, IsAscii byte)
    (split : bytesOf text = front ++ piece ++ after) :
    ∃ first last, text = first ++ textOfBytes piece ++ last ∧ bytesOf first = front := by
  induction piece generalizing text front with
  | nil => contradiction
  | cons byte piece ih =>
      obtain ⟨first, last, rfl, first_eq, last_eq⟩ :=
        exists_text_of_bytesOf (ascii byte List.mem_cons_self)
          (split.trans (List.append_assoc front (byte :: piece) after))
      have text_eq : textOfBytes (byte :: piece) = textOfBytes [byte] ++ textOfBytes piece := by
        simp [textOfBytes]
      by_cases ended : piece = []
      · exact ⟨first, last, by rw [ended], first_eq⟩
      · obtain ⟨before, rest, rfl, before_eq⟩ :=
          @ih last [] ended (fun other mem => ascii other (List.mem_cons_of_mem byte mem)) last_eq
        obtain rfl : before = "" := bytesOf_injective before_eq
        exact ⟨first, rest, by simp [text_eq, String.append_assoc], first_eq⟩

/-- The piece of a text where ASCII bytes stand is there, and it is what they stand for. -/
theorem piece?_of_ascii {text : String} {front piece after : List UInt8} (nonempty : piece ≠ [])
    (ascii : ∀ byte ∈ piece, IsAscii byte) (split : bytesOf text = front ++ piece ++ after) :
    piece? text front.length (front.length + piece.length) = some (textOfBytes piece) := by
  obtain ⟨first, last, rfl, rfl⟩ := exists_text_of_ascii nonempty ascii split
  have stop_eq : (bytesOf first).length + piece.length =
      (first ++ textOfBytes piece).utf8ByteSize := by
    conv =>
      lhs
      rw [← bytesOf_textOfBytes ascii, ← List.length_append, ← bytesOf_append]
    rfl
  rw [stop_eq]
  exact piece?_append first (textOfBytes piece) last

/-! ### Scanners -/

/-- A place in a source text from which a scanner reads. -/
structure Scanner where
  /-- The text that is read. -/
  source : String
  /-- The place of the byte that is looked at. -/
  position : Nat
  /-- The place of the byte that comes next. -/
  readPosition : Nat
  /-- The byte that is looked at. -/
  byte : UInt8
deriving DecidableEq

namespace Scanner

/-- The byte at an offset, or 0 behind the last one. -/
def byteAt (source : String) (offset : Nat) : UInt8 :=
  (bytesOf source).getD offset 0

/-- Goes on to the next byte. -/
def readByte (scanner : Scanner) : Scanner where
  source := scanner.source
  position := scanner.readPosition
  readPosition := scanner.readPosition + 1
  byte := byteAt scanner.source scanner.readPosition

/-- The scanner at the first byte of a source text. -/
def ofString (source : String) : Scanner :=
  readByte ⟨source, 0, 0, 0⟩

/-- Whether no byte is left to look at. -/
def atEnd (scanner : Scanner) : Bool :=
  scanner.source.utf8ByteSize ≤ scanner.position

/-- The byte behind the one that is looked at. -/
def peekByte (scanner : Scanner) : UInt8 :=
  byteAt scanner.source scanner.readPosition

/-- Whether the scanner looks at the end of the source text, and not at a byte 0 within it. -/
def isDone (scanner : Scanner) : Bool :=
  scanner.byte == 0 && scanner.atEnd

/-- How much is to come, the byte that is looked at included if there is one. -/
def pending (scanner : Scanner) : Nat :=
  2 * (scanner.source.utf8ByteSize - scanner.readPosition) + if scanner.isDone then 0 else 1

/-- Less is to come behind a byte, even if the scanner is not in step with its source text. -/
theorem pending_readByte_lt {scanner : Scanner} (left : scanner.isDone = false) :
    scanner.readByte.pending < scanner.pending := by
  have next_eq : scanner.readByte.readPosition = scanner.readPosition + 1 := rfl
  have source_eq : scanner.readByte.source = scanner.source := rfl
  rw [pending, pending, left, next_eq, source_eq]
  by_cases inside : scanner.readPosition < scanner.source.utf8ByteSize
  · split <;> omega
  · have past : (bytesOf scanner.source).length ≤ scanner.readPosition := Nat.le_of_not_lt inside
    have null : scanner.readByte.byte = 0 := by
      change (bytesOf scanner.source).getD scanner.readPosition 0 = 0
      rw [List.getD_eq_getElem?_getD, List.getElem?_eq_none past, Option.getD_none]
    have ended : scanner.readByte.atEnd = true := decide_eq_true past
    have done : scanner.readByte.isDone = true := by simp [isDone, null, ended]
    have past_size : scanner.source.utf8ByteSize ≤ scanner.readPosition := past
    simp only [done, if_true, Bool.false_eq_true, if_false]
    omega

theorem not_done_of_blank {scanner : Scanner} (blank : isBlank scanner.byte = true) :
    scanner.isDone = false := by
  rw [isDone, Bool.and_eq_false_iff]
  refine .inl (beq_false_of_ne fun null => ?_)
  rw [null] at blank
  revert blank
  decide

theorem not_done_of_not_atEnd {scanner : Scanner} (inside : scanner.atEnd = false) :
    scanner.isDone = false := by
  rw [isDone, inside, Bool.and_false]

/-- Passes over blanks. -/
def skipBlanks (scanner : Scanner) : Scanner :=
  if _blank : isBlank scanner.byte then scanner.readByte.skipBlanks else scanner
termination_by scanner.pending
decreasing_by exact pending_readByte_lt (not_done_of_blank _blank)

/-- Passes over bytes of a class, up to the end of the source text. -/
def passWhile (ofClass : UInt8 → Bool) (scanner : Scanner) : Scanner :=
  if _inside : scanner.atEnd = false ∧ ofClass scanner.byte = true then
    passWhile ofClass scanner.readByte
  else
    scanner
termination_by scanner.pending
decreasing_by exact pending_readByte_lt (not_done_of_not_atEnd _inside.1)

/-- The token whose text is the piece from one place of a scanner to another, if that piece is
there.  The kind may depend on the text. -/
def take? (before after : Scanner) (kindOf : String → Token.Kind) : Option (Token × Scanner) := do
  let literal ← piece? before.source before.position after.position
  return (⟨kindOf literal, literal, .ofOffsets before.position after.position⟩, after)

/-- The token of the byte that is looked at. -/
def single? (scanner : Scanner) (kind : Token.Kind) : Option (Token × Scanner) :=
  scanner.take? scanner.readByte fun _ => kind

/-- The token of the byte that is looked at and an equals sign, or of that byte alone if no equals
sign comes next. -/
def either? (scanner : Scanner) (lone longer : Token.Kind) : Option (Token × Scanner) :=
  if charOfByte scanner.peekByte = '=' then
    scanner.take? scanner.readByte.readByte fun _ => longer
  else
    scanner.single? lone

/-- The next token and the scanner behind it, or `none` if the text of the token is no piece of the
source text. -/
def next? (scanner : Scanner) : Option (Token × Scanner) :=
  let scanner := scanner.skipBlanks
  match Lexeme.signKind? (charOfByte scanner.byte),
      Lexeme.extensibleKinds? (charOfByte scanner.byte) with
  | some kind, _ => scanner.single? kind
  | none, some (lone, longer) => scanner.either? lone longer
  | none, none =>
      if scanner.isDone then
        some (.endOfInput scanner.position, scanner)
      else if isLetter scanner.byte then
        scanner.take? (scanner.passWhile isLetter) .ofWord
      else if isDigit scanner.byte then
        scanner.take? (scanner.passWhile isDigit) fun _ => .integer
      else
        let after := scanner.readByte
        some (⟨.illegal, "", .ofOffsets scanner.position after.position⟩, after)

/-- The scanner behind some tokens, or `none` if the text of one of them is no piece of the source
text. -/
def after? (scanner : Scanner) : (calls : Nat) → Option Scanner
  | 0 => some scanner
  | calls + 1 => do
      let (_, later) ← scanner.next?
      later.after? calls

end Scanner

/-! ### The scanner where a lexer stands -/

/-- A lexer reads a source text if what it is to read is what is left of that text. -/
structure Lexer.Within (lexer : Lexer) (source : String) : Prop where
  /-- The bytes to be read are those behind the offset. -/
  rest_eq : (bytesOf source).drop lexer.offset = lexer.rest
  /-- The offset is not behind the end. -/
  offset_le : lexer.offset ≤ source.utf8ByteSize

section

variable {source : String} {lexer : Lexer} {offset : Nat} {byte : UInt8} {piece rest : List UInt8}
  {lexeme : Lexeme} {kindOf : String → Token.Kind} {ofClass : UInt8 → Bool}

namespace Lexer

theorem within_ofString (source : String) : (ofString source).Within source :=
  ⟨rfl, Nat.zero_le _⟩

theorem Within.skip (within : (⟨offset, piece ++ rest⟩ : Lexer).Within source) :
    (⟨offset + piece.length, rest⟩ : Lexer).Within source := by
  obtain ⟨rest_eq, offset_le⟩ := within
  dsimp only at rest_eq offset_le
  have lengths := congrArg List.length rest_eq
  rw [List.length_drop, List.length_append, length_bytesOf] at lengths
  refine ⟨?_, ?_⟩
  · rw [← List.drop_drop, rest_eq, List.drop_left]
  · change offset + piece.length ≤ source.utf8ByteSize
    omega

theorem Within.skip_byte (within : (⟨offset, byte :: rest⟩ : Lexer).Within source) :
    (⟨offset + 1, rest⟩ : Lexer).Within source :=
  @Within.skip source offset [byte] rest within

theorem Within.next (within : lexer.Within source) : lexer.next.2.Within source := by
  obtain ⟨offset, rest⟩ := lexer
  cases read : (⟨offset, rest⟩ : Lexer).next? with
  | none =>
      rw [Lexer.next, read]
      exact Within.skip ((List.append_nil rest).symm ▸ within)
  | some found =>
      obtain ⟨token, after⟩ := found
      obtain ⟨blanks, lexeme, -, -, rest_eq, offset_eq, -⟩ := exists_lexeme_of_next? read
      obtain rfl : rest = blanks ++ lexeme.bytes ++ after.rest := rest_eq
      rw [Lexer.next, read]
      have later := within.skip
      rwa [← offset_eq] at later

/-- A blank is passed over. -/
theorem next_blank (is_blank : isBlank byte) :
    (⟨offset, byte :: rest⟩ : Lexer).next = (⟨offset + 1, rest⟩ : Lexer).next := by
  have finish_eq :
      (⟨offset, byte :: rest⟩ : Lexer).finish = (⟨offset + 1, rest⟩ : Lexer).finish := by
    simp only [finish, List.length_cons, mk.injEq, and_true]
    omega
  rw [next, next, next?_blank is_blank, finish_eq]

theorem next_lexeme (wellFormed : lexeme.WellFormed) (ends : lexeme.EndsBefore rest) :
    (⟨offset, lexeme.bytes ++ rest⟩ : Lexer).next =
      (lexeme.tokenAt offset, ⟨offset + lexeme.bytes.length, rest⟩) := by
  rw [next, next?_lexeme wellFormed ends]
  rfl

end Lexer

/-- No sign is made of letters or digits. -/
theorem Lexeme.not_sign_of_class (of_class : isLetter byte = true ∨ isDigit byte = true) :
    signKind? (charOfByte byte) = none ∧ extensibleKinds? (charOfByte byte) = none := by
  constructor
  · refine Option.eq_none_iff_forall_ne_some.mpr fun kind kind_eq => ?_
    obtain ⟨-, not_letter, not_digit, -⟩ := classes_of_sign kind_eq
    simp [not_letter, not_digit] at of_class
  · refine Option.eq_none_iff_forall_ne_some.mpr fun kinds kinds_eq => ?_
    obtain ⟨-, not_letter, not_digit⟩ := classes_of_extensible kinds_eq
    simp [not_letter, not_digit] at of_class

theorem Lexeme.not_sign_of_extensible {kinds : Token.Kind × Token.Kind}
    (kinds_eq : extensibleKinds? (charOfByte byte) = some kinds) :
    signKind? (charOfByte byte) = none := by
  refine Option.eq_none_iff_forall_ne_some.mpr fun kind kind_eq => ?_
  obtain ⟨-, -, -, not_extensible⟩ := classes_of_sign kind_eq
  rw [not_extensible] at kinds_eq
  contradiction

/-- The lexer behind some tokens. -/
def Lexer.after (lexer : Lexer) (calls : Nat) : Lexer :=
  (fun lexer : Lexer => lexer.next.2)^[calls] lexer

/-- Behind the end of the input a lexer stays where it is. -/
theorem Lexer.next_next_of_ended (ended : lexer.next.1.kind = .endOfInput) :
    lexer.next.2.next = lexer.next := by
  rcases lexer.next_cases with ⟨inside, -⟩ | ⟨next_eq, -⟩
  · exact absurd ended inside
  · rw [next_eq]
    rfl

/-- A lexer moves on with every token. -/
theorem Lexer.offset_lt_of_inside (inside : lexer.next.1.kind ≠ .endOfInput) :
    lexer.offset < lexer.next.2.offset := by
  cases read : lexer.next? with
  | none =>
      rw [Lexer.next, read] at inside
      exact absurd rfl inside
  | some found =>
      obtain ⟨token, after⟩ := found
      obtain ⟨blanks, lexeme, wellFormed, -, -, offset_eq, -⟩ := exists_lexeme_of_next? read
      have some_byte := List.length_pos_iff.mpr wellFormed.bytes_ne_nil
      rw [Lexer.next, read, Option.getD_some, offset_eq, List.length_append]
      omega

namespace Scanner

/-- The scanner of a source text that looks at the byte that a lexer reads next. -/
def ofLexer (source : String) (lexer : Lexer) : Scanner where
  source := source
  position := lexer.offset
  readPosition := lexer.offset + 1
  byte := lexer.rest.headD 0

theorem byteAt_eq (within : lexer.Within source) :
    byteAt source lexer.offset = lexer.rest.headD 0 := by
  rw [byteAt, List.getD_eq_getElem?_getD, ← List.head?_drop, within.rest_eq,
    List.headD_eq_head?_getD]

theorem ofString_eq (source : String) : ofString source = ofLexer source (.ofString source) := by
  have first_eq := byteAt_eq (Lexer.within_ofString source)
  simpa [ofString, readByte, ofLexer, Lexer.ofString] using first_eq

theorem readByte_ofLexer (within : (⟨offset, byte :: rest⟩ : Lexer).Within source) :
    (ofLexer source ⟨offset, byte :: rest⟩).readByte = ofLexer source ⟨offset + 1, rest⟩ := by
  have next_eq := byteAt_eq within.skip_byte
  simpa [readByte, ofLexer] using next_eq

theorem peekByte_ofLexer (within : (⟨offset, byte :: rest⟩ : Lexer).Within source) :
    (ofLexer source ⟨offset, byte :: rest⟩).peekByte = rest.headD 0 :=
  byteAt_eq within.skip_byte

theorem atEnd_ofLexer (within : lexer.Within source) :
    (ofLexer source lexer).atEnd = lexer.atEnd := by
  have lengths := congrArg List.length within.rest_eq
  rw [List.length_drop, length_bytesOf] at lengths
  rw [Bool.eq_iff_iff, Lexer.atEnd, List.isEmpty_iff_length_eq_zero, atEnd, decide_eq_true_iff]
  change source.utf8ByteSize ≤ lexer.offset ↔ _
  omega

theorem skipBlanks_of_not_blank {scanner : Scanner} (not_blank : isBlank scanner.byte = false) :
    scanner.skipBlanks = scanner := by
  rw [skipBlanks, dif_neg (Bool.eq_false_iff.mp not_blank)]

theorem next?_ofLexer_blank (within : (⟨offset, byte :: rest⟩ : Lexer).Within source)
    (is_blank : isBlank byte = true) :
    (ofLexer source ⟨offset, byte :: rest⟩).next? = (ofLexer source ⟨offset + 1, rest⟩).next? := by
  have skip_eq : (ofLexer source ⟨offset, byte :: rest⟩).skipBlanks =
      (ofLexer source ⟨offset + 1, rest⟩).skipBlanks := by
    have blank : isBlank (ofLexer source ⟨offset, byte :: rest⟩).byte = true := is_blank
    rw [skipBlanks, dif_pos blank, readByte_ofLexer within]
  rw [next?, next?, skip_eq]

/-- A run of one class is passed over. -/
theorem passWhile_ofLexer (within : (⟨offset, piece ++ rest⟩ : Lexer).Within source)
    (inside : ∀ byte ∈ piece, ofClass byte = true)
    (outside : ∀ next ∈ rest.head?, ofClass next = false) :
    (ofLexer source ⟨offset, piece ++ rest⟩).passWhile ofClass =
      ofLexer source ⟨offset + piece.length, rest⟩ := by
  induction piece generalizing offset with
  | nil =>
      rw [passWhile, dif_neg]
      · rfl
      rw [atEnd_ofLexer within, Lexer.atEnd, List.nil_append]
      cases rest with
      | nil => exact fun both => absurd both.1 nofun
      | cons next rest => exact fun both => absurd both.2 (Bool.eq_false_iff.mp (outside next rfl))
  | cons first piece ih =>
      have holds : ofClass (ofLexer source ⟨offset, first :: piece ++ rest⟩).byte = true :=
        inside first List.mem_cons_self
      have later := ih within.skip_byte
        fun byte mem => inside byte (List.mem_cons_of_mem first mem)
      rw [passWhile, dif_pos ⟨atEnd_ofLexer within, holds⟩]
      refine (congrArg _ (readByte_ofLexer within)).trans (later.trans ?_)
      rw [List.length_cons, Nat.add_assoc, Nat.add_comm 1]

/-- A lexeme is taken as a token, whether its kind is known or told from its text. -/
theorem take?_ofLexer (within : (⟨offset, lexeme.bytes ++ rest⟩ : Lexer).Within source)
    (wellFormed : lexeme.WellFormed) (legal : lexeme.kind ≠ .illegal)
    (kind_eq : kindOf (textOfBytes lexeme.bytes) = lexeme.kind) :
    (ofLexer source ⟨offset, lexeme.bytes ++ rest⟩).take?
        (ofLexer source ⟨offset + lexeme.bytes.length, rest⟩) kindOf =
      some (lexeme.tokenAt offset, ofLexer source ⟨offset + lexeme.bytes.length, rest⟩) := by
  have front_length : ((bytesOf source).take offset).length = offset :=
    List.length_take_of_le within.offset_le
  have split : bytesOf source = (bytesOf source).take offset ++ lexeme.bytes ++ rest := by
    rw [List.append_assoc, show lexeme.bytes ++ rest = _ from within.rest_eq.symm,
      List.take_append_drop]
  have found := piece?_of_ascii wellFormed.bytes_ne_nil (wellFormed.isAscii legal) split
  rw [front_length] at found
  rw [Lexeme.tokenAt, Lexeme.text, if_neg legal, ← kind_eq]
  exact Option.bind_eq_some_iff.mpr ⟨_, found, rfl⟩

/-- A sign of one byte is taken as a token. -/
theorem single?_ofLexer {kind : Token.Kind}
    (within : (⟨offset, byte :: rest⟩ : Lexer).Within source)
    (wellFormed : Lexeme.WellFormed ⟨kind, [byte]⟩) (legal : kind ≠ .illegal) :
    (ofLexer source ⟨offset, byte :: rest⟩).single? kind =
      some (Lexeme.tokenAt ⟨kind, [byte]⟩ offset, ofLexer source ⟨offset + 1, rest⟩) := by
  rw [single?, readByte_ofLexer within]
  exact take?_ofLexer within wellFormed legal rfl

/-- A sign is taken together with the equals sign behind it. -/
theorem either?_ofLexer_longer {lone longer : Token.Kind} {second : UInt8}
    (within : (⟨offset, byte :: second :: rest⟩ : Lexer).Within source)
    (wellFormed : Lexeme.WellFormed ⟨longer, [byte, second]⟩) (legal : longer ≠ .illegal)
    (equals : charOfByte second = '=') :
    (ofLexer source ⟨offset, byte :: second :: rest⟩).either? lone longer =
      some (Lexeme.tokenAt ⟨longer, [byte, second]⟩ offset, ofLexer source ⟨offset + 2, rest⟩) := by
  rw [either?, peekByte_ofLexer within, List.headD_cons, if_pos equals, readByte_ofLexer within,
    readByte_ofLexer within.skip_byte]
  exact take?_ofLexer within wellFormed legal rfl

/-- A sign is taken alone in front of anything but an equals sign. -/
theorem either?_ofLexer_lone {lone longer : Token.Kind}
    (within : (⟨offset, byte :: rest⟩ : Lexer).Within source)
    (wellFormed : Lexeme.WellFormed ⟨lone, [byte]⟩) (legal : lone ≠ .illegal)
    (ends : ∀ next ∈ rest.head?, charOfByte next ≠ '=') :
    (ofLexer source ⟨offset, byte :: rest⟩).either? lone longer =
      some (Lexeme.tokenAt ⟨lone, [byte]⟩ offset, ofLexer source ⟨offset + 1, rest⟩) := by
  have unequal : charOfByte (ofLexer source ⟨offset, byte :: rest⟩).peekByte ≠ '=' := by
    rw [peekByte_ofLexer within]
    cases rest with
    | nil => decide
    | cons next rest => exact ends next rfl
  rw [either?, if_neg unequal, single?_ofLexer within wellFormed legal]

/-- A scanner takes the lexeme that it looks at. -/
theorem next?_ofLexer_lexeme (within : (⟨offset, lexeme.bytes ++ rest⟩ : Lexer).Within source)
    (wellFormed : lexeme.WellFormed) (ends : lexeme.EndsBefore rest) :
    (ofLexer source ⟨offset, lexeme.bytes ++ rest⟩).next? =
      some (lexeme.tokenAt offset, ofLexer source ⟨offset + lexeme.bytes.length, rest⟩) := by
  obtain ⟨first, more, bytes_eq, not_blank, -⟩ := Lexeme.cut_of_wellFormed wellFormed ends
  have byte_eq : (ofLexer source ⟨offset, lexeme.bytes ++ rest⟩).byte = first := by
    rw [bytes_eq]
    rfl
  have not_done : (ofLexer source ⟨offset, lexeme.bytes ++ rest⟩).isDone = false := by
    refine not_done_of_not_atEnd ?_
    rw [atEnd_ofLexer within, bytes_eq]
    rfl
  rw [next?]
  dsimp only
  rw [skipBlanks_of_not_blank (by rwa [byte_eq]), byte_eq, not_done]
  cases wellFormed with
  | @word bytes nonempty letters =>
      obtain rfl : bytes = first :: more := bytes_eq
      have letter := letters first List.mem_cons_self
      obtain ⟨not_sign, not_extensible⟩ := Lexeme.not_sign_of_class (.inl letter)
      have outside := (Lexeme.endsBefore_word_iff nonempty letters).mp ends
      rw [not_sign, not_extensible]
      simp only [letter, Bool.false_eq_true, if_false, if_true]
      rw [passWhile_ofLexer within letters outside]
      exact take?_ofLexer within (.word nonempty letters) (Token.Kind.ofWord_ne (by decide) _) rfl
  | @integer bytes nonempty digits =>
      obtain rfl : bytes = first :: more := bytes_eq
      have digit := digits first List.mem_cons_self
      have not_letter := Lexeme.not_letter_of_digit digit
      obtain ⟨not_sign, not_extensible⟩ := Lexeme.not_sign_of_class (.inr digit)
      have outside := (Lexeme.endsBefore_integer_iff nonempty digits).mp ends
      rw [not_sign, not_extensible]
      simp only [not_letter, digit, Bool.false_eq_true, if_false, if_true]
      rw [passWhile_ofLexer within digits outside]
      exact take?_ofLexer within (.integer nonempty digits) nofun rfl
  | @extended sign second lone longer kinds equals =>
      obtain rfl : sign = first := (List.cons.inj bytes_eq).1
      have legal : longer ≠ .illegal := by
        rcases Lexeme.extensibleKinds?_eq_some kinds with ⟨-, -, rfl⟩ | ⟨-, -, rfl⟩ <;> decide
      rw [Lexeme.not_sign_of_extensible kinds, kinds]
      exact either?_ofLexer_longer within (.extended kinds equals) legal equals
  | @lone sign lone longer kinds =>
      obtain rfl : sign = first := (List.cons.inj bytes_eq).1
      have legal : lone ≠ .illegal := by
        rcases Lexeme.extensibleKinds?_eq_some kinds with ⟨-, rfl, -⟩ | ⟨-, rfl, -⟩ <;> decide
      rw [Lexeme.not_sign_of_extensible kinds, kinds]
      exact either?_ofLexer_lone within (.lone kinds) legal
        ((Lexeme.endsBefore_lone_iff kinds).mp ends)
  | @sign sign kind kind_eq =>
      obtain rfl : sign = first := (List.cons.inj bytes_eq).1
      have legal : ∀ sign ∈ Lexeme.signs, sign.2 ≠ .illegal := by decide
      rw [kind_eq]
      exact single?_ofLexer within (.sign kind_eq) (legal _ (Lexeme.mem_signs kind_eq))
  | @illegal sign _ not_letter not_digit not_extensible not_sign =>
      obtain rfl : sign = first := (List.cons.inj bytes_eq).1
      have later : (ofLexer source ⟨offset, sign :: rest⟩).readByte =
          ofLexer source ⟨offset + 1, rest⟩ :=
        readByte_ofLexer within
      rw [not_sign, not_extensible]
      simp only [not_letter, not_digit, Bool.false_eq_true, if_false, List.singleton_append, later]
      rfl

/-- A scanner reads what the lexer reads. -/
theorem next?_ofLexer (within : lexer.Within source) :
    (ofLexer source lexer).next? = some (lexer.next.1, ofLexer source lexer.next.2) := by
  obtain ⟨offset, rest⟩ := lexer
  induction rest using Lexeme.bytes_induction generalizing offset with
  | nil =>
      have ended : (ofLexer source ⟨offset, []⟩).isDone = true := by
        rw [isDone, atEnd_ofLexer within]
        rfl
      have not_blank : isBlank (0 : UInt8) = false := by decide
      rw [next?, skipBlanks_of_not_blank not_blank]
      exact if_pos ended
  | blank byte rest is_blank ih =>
      rw [next?_ofLexer_blank within is_blank, ih _ within.skip_byte,
        Lexer.next_blank is_blank]
  | lexeme lexeme rest wellFormed ends ih =>
      rw [next?_ofLexer_lexeme within wellFormed ends, Lexer.next_lexeme wellFormed ends]

/-! ### Every call -/

/-- A scanner is in step with its source text if the places and the byte it knows of belong
together and are not behind the end. -/
structure InStep (scanner : Scanner) : Prop where
  /-- The next byte comes right behind the one that is looked at. -/
  readPosition_eq : scanner.readPosition = scanner.position + 1
  /-- The place is in the text or at its end. -/
  position_le : scanner.position ≤ scanner.source.utf8ByteSize
  /-- The byte that is looked at stands at that place, or it is 0 at the end. -/
  byte_eq : scanner.byte = byteAt scanner.source scanner.position

theorem inStep_ofLexer (within : lexer.Within source) : (ofLexer source lexer).InStep :=
  ⟨rfl, within.offset_le, (byteAt_eq within).symm⟩

/-- The scanner that takes a token stands behind it; the text of a legal token is the piece of the
source text from the first byte that is no blank. -/
theorem piece?_of_next? {scanner later : Scanner} {token : Token}
    (read : scanner.next? = some (token, later)) (legal : token.kind ≠ .illegal)
    (inside : token.kind ≠ .endOfInput) :
    piece? scanner.skipBlanks.source scanner.skipBlanks.position later.position =
      some token.literal := by
  have of_take {after : Scanner} {kindOf : String → Token.Kind}
      (taken : scanner.skipBlanks.take? after kindOf = some (token, later)) :
      piece? scanner.skipBlanks.source scanner.skipBlanks.position later.position =
        some token.literal := by
    obtain ⟨literal, found, both⟩ := Option.bind_eq_some_iff.mp taken
    obtain ⟨rfl, rfl⟩ := Prod.mk.inj (Option.some.inj both)
    exact found
  unfold next? at read
  dsimp only at read
  split at read
  · exact of_take read
  · unfold either? at read
    split at read
    · exact of_take read
    · exact of_take read
  · split at read
    · obtain ⟨rfl, -⟩ := Prod.mk.inj (Option.some.inj read)
      exact absurd rfl inside
    split at read
    · exact of_take read
    split at read
    · exact of_take read
    obtain ⟨rfl, -⟩ := Prod.mk.inj (Option.some.inj read)
    exact absurd rfl legal

theorem skipBlanks_source (scanner : Scanner) : scanner.skipBlanks.source = scanner.source := by
  fun_induction skipBlanks scanner with
  | case1 scanner blank ih => exact ih
  | case2 scanner not_blank => rfl

/-- Some tokens on, a scanner looks at the byte that the lexer reads next. -/
theorem after?_ofLexer (within : lexer.Within source) (calls : Nat) :
    (ofLexer source lexer).after? calls = some (ofLexer source (lexer.after calls)) ∧
      (lexer.after calls).Within source := by
  induction calls generalizing lexer with
  | zero => exact ⟨rfl, within⟩
  | succ calls ih =>
      rw [after?, next?_ofLexer within]
      exact ih within.next

/-- A scanner that takes the same token and does not move goes on doing so. -/
theorem after?_of_still {scanner : Scanner} {token : Token}
    (still : scanner.next? = some (token, scanner)) (calls : Nat) :
    scanner.after? calls = some scanner := by
  induction calls with
  | zero => rfl
  | succ calls ih =>
      rw [after?, still]
      exact ih

end Scanner

/-- However many tokens have been taken from a source text, a scanner is where the lexer is and in
step with the text, and it takes the token that the lexer reads.  The text of a legal token is a
piece of the source text that is cut out between characters.  The scanner moves on with every
token, and when it meets the end of the input it stays there. -/
theorem scanner_stays_in_step (source : String) (calls : Nat) :
    ∃ scanner token later, (Scanner.ofString source).after? calls = some scanner ∧
      scanner.next? = some (token, later) ∧
      scanner.source = source ∧ scanner.InStep ∧
      scanner = .ofLexer source ((Lexer.ofString source).after calls) ∧
      token = ((Lexer.ofString source).after calls).next.1 ∧
      (token.kind ≠ .illegal → token.kind ≠ .endOfInput →
        IsBoundary source scanner.skipBlanks.position ∧ IsBoundary source later.position ∧
          scanner.skipBlanks.position ≤ later.position ∧ later.position ≤ source.utf8ByteSize ∧
          piece? source scanner.skipBlanks.position later.position = some token.literal) ∧
      (token.kind ≠ .endOfInput → scanner.position < later.position) ∧
      (token.kind = .endOfInput → ∀ more, later.after? more = some later ∧
        later.next? = some (token, later)) := by
  obtain ⟨after_eq, within⟩ := Scanner.after?_ofLexer (Lexer.within_ofString source) calls
  generalize (Lexer.ofString source).after calls = lexer at after_eq within ⊢
  have read := Scanner.next?_ofLexer within
  refine ⟨.ofLexer source lexer, lexer.next.1, .ofLexer source lexer.next.2, ?_, read, rfl,
    Scanner.inStep_ofLexer within, rfl, rfl, fun legal inside => ?_, Lexer.offset_lt_of_inside,
    fun ended more => ?_⟩
  · rw [Scanner.ofString_eq, after_eq]
  · have found := Scanner.piece?_of_next? read legal inside
    rw [Scanner.skipBlanks_source] at found
    obtain ⟨start_boundary, stop_boundary, in_order⟩ := piece?_eq_some found
    exact ⟨start_boundary, stop_boundary, in_order, stop_boundary.le_size, found⟩
  · have still := Scanner.next?_ofLexer within.next
    rw [Lexer.next_next_of_ended ended] at still
    exact ⟨Scanner.after?_of_still still more, still⟩

end

end MonkeySyntax
