import MonkeySyntax.Proofs.Concatenation
import MonkeySyntax.Proofs.Correspondence
import MonkeySyntax.Proofs.Isolation
import MonkeySyntax.Proofs.RoundTrip

/-!
# Layout

Blanks between lexemes do not matter: texts that differ in them only have the same tokens up to
places, and texts with the same tokens up to places are read alike.  A blank ends every lexeme, so
the tokens of a text with a blank in it are those in front of the blank and those behind it.
-/

namespace MonkeySyntax

/-! ### Tokens on both sides of a blank -/

section

variable {front blanks rest after : List UInt8} {text : String}

theorem Lexeme.endsBefore_of_blank {lexeme : Lexeme}
    (outside : ∀ next ∈ after.head?, isBlank next = true) : lexeme.EndsBefore after := by
  cases after with
  | nil => exact nofun
  | cons next after => exact endsBefore_blank (outside next rfl)

/-- No token reaches over a blank. -/
theorem Lexer.tokens_append (outside : ∀ next ∈ after.head?, isBlank next = true)
    (front : List UInt8) (offset : Nat) :
    (⟨offset, front ++ after⟩ : Lexer).tokens =
      (⟨offset, front⟩ : Lexer).tokens ++ (⟨offset + front.length, after⟩ : Lexer).tokens := by
  induction front using Lexeme.bytes_induction generalizing offset with
  | nil => simp
  | blank byte rest is_blank ih =>
      rw [List.cons_append, tokens_blank is_blank, tokens_blank is_blank, ih, List.length_cons,
        Nat.add_assoc, Nat.add_comm 1]
  | lexeme lexeme rest wellFormed ends ih =>
      have ends_longer : lexeme.EndsBefore (rest ++ after) := by
        cases rest with
        | nil => exact Lexeme.endsBefore_of_blank outside
        | cons next rest => exact ends
      rw [List.append_assoc, tokens_of_next?_eq_some (next?_lexeme wellFormed ends_longer),
        tokens_of_next?_eq_some (next?_lexeme wellFormed ends), ih, List.cons_append,
        List.length_append, Nat.add_assoc]

theorem Lexer.tokens_blanks (blank : ∀ byte ∈ blanks, isBlank byte = true) (offset : Nat) :
    (⟨offset, blanks ++ rest⟩ : Lexer).tokens =
      (⟨offset + blanks.length, rest⟩ : Lexer).tokens := by
  induction blanks generalizing offset with
  | nil => rfl
  | cons byte blanks ih =>
      obtain ⟨is_blank, others⟩ := List.forall_mem_cons.mp blank
      rw [List.cons_append, tokens_blank is_blank, ih others, List.length_cons, Nat.add_assoc,
        Nat.add_comm 1]

/-- The tokens that some bytes spell, without their places. -/
def spelledBy (bytes : List UInt8) : List Token :=
  (⟨0, bytes⟩ : Lexer).tokens.map Token.erase

theorem exists_spells (bytes : List UInt8) : ∃ tokens, Spells bytes tokens := by
  induction bytes using Lexeme.bytes_induction with
  | nil => exact ⟨[], .nil⟩
  | blank byte rest is_blank ih =>
      obtain ⟨tokens, others⟩ := ih
      exact ⟨tokens, .blank is_blank others⟩
  | lexeme lexeme rest wellFormed ends ih =>
      obtain ⟨tokens, others⟩ := ih
      exact ⟨lexeme.token :: tokens, .lexeme wellFormed ends others⟩

/-- The tokens that are read differ in their places only, wherever the bytes stand. -/
theorem map_erase_tokens (offset : Nat) (bytes : List UInt8) :
    (⟨offset, bytes⟩ : Lexer).tokens.map Token.erase = spelledBy bytes := by
  obtain ⟨tokens, spells⟩ := exists_spells bytes
  rw [spelledBy, Lexer.tokens_of_spells spells, Lexer.tokens_of_spells spells]

theorem spelledBy_append (outside : ∀ next ∈ after.head?, isBlank next = true) :
    spelledBy (front ++ after) = spelledBy front ++ spelledBy after := by
  rw [spelledBy, Lexer.tokens_append outside, List.map_append, map_erase_tokens,
    map_erase_tokens]

theorem spelledBy_blanks (blank : ∀ byte ∈ blanks, isBlank byte = true) :
    spelledBy (blanks ++ rest) = spelledBy rest := by
  rw [spelledBy, Lexer.tokens_blanks blank, map_erase_tokens]

/-- Which blanks stand between two runs of bytes makes no difference if there is one. -/
theorem spelledBy_between (blank : ∀ byte ∈ blanks, isBlank byte = true) (ne : blanks ≠ []) :
    spelledBy (front ++ (blanks ++ rest)) = spelledBy front ++ spelledBy rest := by
  have outside : ∀ next ∈ (blanks ++ rest).head?, isBlank next = true := by
    obtain ⟨byte, others, rfl⟩ := List.exists_cons_of_ne_nil ne
    intro next mem
    obtain rfl : byte = next := by simpa using mem
    exact blank byte List.mem_cons_self
  rw [spelledBy_append outside, spelledBy_blanks blank]

theorem map_erase_tokenize (text : String) :
    (tokenize text).map Token.erase = spelledBy (bytesOf text) ++ [(Token.endOfInput 0).erase] := by
  rw [tokenize, List.map_append]
  rfl

end

/-! ### Other blanks -/

/-- A text of spaces, tabs, line feeds and carriage returns. -/
def IsBlankText (text : String) : Prop :=
  ∀ char ∈ text.toList, char ∈ [' ', '\t', '\n', '\r']

theorem IsBlankText.isBlank {text : String} (blank : IsBlankText text) :
    ∀ byte ∈ bytesOf text, isBlank byte = true := by
  have encoded : ∀ char ∈ [' ', '\t', '\n', '\r'], ∃ byte, charOfByte byte = char ∧
      byte.toNat < 128 ∧ MonkeySyntax.isBlank byte = true := by
    simp only [List.mem_cons, List.not_mem_nil, or_false, forall_eq_or_imp, forall_eq]
    exact ⟨⟨32, rfl, by decide, rfl⟩, ⟨9, rfl, by decide, rfl⟩, ⟨10, rfl, by decide, rfl⟩,
      ⟨13, rfl, by decide, rfl⟩⟩
  intro byte mem
  rw [bytesOf_eq_flatMap] at mem
  obtain ⟨char, char_mem, byte_mem⟩ := List.mem_flatMap.mp mem
  obtain ⟨code, rfl, ascii, is_blank⟩ := encoded char (blank char char_mem)
  rw [utf8EncodeChar_charOfByte ascii, List.mem_singleton] at byte_mem
  rw [byte_mem, is_blank]

theorem bytesOf_ne_nil {text : String} (ne : text ≠ "") : bytesOf text ≠ [] := by
  intro nil
  apply ne
  rw [← String.utf8ByteSize_eq_zero_iff]
  exact congrArg List.length nil

/-- A text can be taken apart into `front` and `back` without cutting a token: behind some of its
tokens, be it none or all of them, only blanks stand before `back`. -/
def IsSeam (front back : String) : Prop :=
  ∃ tokens blanks offset, (∀ byte ∈ blanks, isBlank byte = true) ∧
    Lexer.Scans (.ofString (front ++ back)) tokens ⟨offset, blanks ++ bytesOf back⟩

/-- The second text is the first one with other layout in one place. -/
inductive Relaid : String → String → Prop where
  /-- Blanks are put between two tokens, before the first or behind the last one. -/
  | insert {front blanks back : String} (seam : IsSeam front back) (blank : IsBlankText blanks) :
      Relaid (front ++ back) (front ++ blanks ++ back)
  /-- Blanks are replaced by others; some stand there before and after. -/
  | replace {front blanks others back : String} (blank : IsBlankText blanks) (ne : blanks ≠ "")
      (others_blank : IsBlankText others) (others_ne : others ≠ "") :
      Relaid (front ++ blanks ++ back) (front ++ others ++ back)

/-- At a seam a text falls into the tokens in front of it and those behind it. -/
theorem IsSeam.tokens_eq {front back : String} (seam : IsSeam front back) :
    (Lexer.ofString (front ++ back)).tokens = (Lexer.ofString front).tokens ++
      (⟨front.utf8ByteSize, bytesOf back⟩ : Lexer).tokens := by
  obtain ⟨tokens, blanks, offset, blank, scans⟩ := seam
  obtain ⟨used, bytes_eq, offset_eq, used_scans, -⟩ := scans.exists_used
  have front_eq : bytesOf front = used ++ blanks := by
    have whole : bytesOf front ++ bytesOf back = used ++ blanks ++ bytesOf back := by
      rw [← bytesOf_append, List.append_assoc]
      exact bytes_eq
    exact List.append_cancel_right whole
  have place_eq : offset + blanks.length = front.utf8ByteSize := by
    have used_end : offset = used.length := offset_eq.trans (Nat.zero_add _)
    rw [← length_bytesOf, front_eq, List.length_append, used_end]
  have used_tokens : (⟨0, used⟩ : Lexer).tokens = tokens ++ [] :=
    used_scans.tokens_eq.trans (congrArg (tokens ++ ·) (Lexer.tokens_nil offset))
  have front_tokens : (Lexer.ofString front).tokens = tokens := by
    have outside : ∀ next ∈ blanks.head?, isBlank next = true :=
      fun next mem => blank next (List.mem_of_head? mem)
    have none_read := @Lexer.tokens_blanks blanks [] blank used.length
    rw [List.append_nil, Lexer.tokens_nil] at none_read
    rw [show Lexer.ofString front = ⟨0, bytesOf front⟩ from rfl, front_eq,
      Lexer.tokens_append outside, Nat.zero_add, none_read, used_tokens, List.append_nil,
      List.append_nil]
  rw [scans.tokens_eq, Lexer.tokens_blanks blank, place_eq, front_tokens]

theorem IsSeam.spelledBy_eq {front back : String} (seam : IsSeam front back) :
    spelledBy (bytesOf (front ++ back)) =
      spelledBy (bytesOf front) ++ spelledBy (bytesOf back) := by
  have tokens_eq := congrArg (List.map Token.erase) seam.tokens_eq
  rw [List.map_append, map_erase_tokens _ (bytesOf back)] at tokens_eq
  exact tokens_eq

/-- Where no token reaches over a place, the tokens in front of the place are read first. -/
theorem Lexer.exists_scans_to (bytes : List UInt8) {offset distance : Nat}
    (le_end : distance ≤ bytes.length) (small : offset + bytes.length ≤ maxOffset)
    (apart : ∀ token ∈ (⟨offset, bytes⟩ : Lexer).tokens,
      token.span.stop.offset ≤ offset + distance ∨ offset + distance ≤ token.span.start.offset) :
    ∃ tokens blanks after, (∀ byte ∈ blanks, isBlank byte = true) ∧
      Scans ⟨offset, bytes⟩ tokens ⟨after, blanks ++ bytes.drop distance⟩ := by
  induction bytes using Lexeme.bytes_induction generalizing offset distance with
  | nil => exact ⟨[], [], offset, nofun, by simpa using .done _⟩
  | blank byte rest is_blank ih =>
      cases distance with
      | zero => exact ⟨[], [], offset, nofun, .done _⟩
      | succ distance =>
          rw [tokens_blank is_blank, ← Nat.add_assoc, Nat.add_right_comm] at apart
          rw [List.length_cons] at le_end small
          obtain ⟨tokens, blanks, after, blank, scans⟩ := ih (by omega) (by omega) apart
          rw [List.drop_succ_cons]
          cases tokens with
          | nil =>
              obtain ⟨-, rest_eq⟩ := Lexer.mk.inj scans.eq_of_nil
              refine ⟨[], byte :: blanks, offset, List.forall_mem_cons.mpr ⟨is_blank, blank⟩, ?_⟩
              rw [List.cons_append, rest_eq]
              exact .done _
          | cons token tokens =>
              cases scans with
              | next read others =>
                  exact ⟨_, blanks, after, blank, .next ((next?_blank is_blank).trans read) others⟩
  | lexeme lexeme rest wellFormed ends ih =>
      rcases Nat.eq_zero_or_pos distance with rfl | positive
      · exact ⟨[], [], offset, nofun, .done _⟩
      · have read := @next?_lexeme offset _ _ wellFormed ends
        rw [tokens_of_next?_eq_some read] at apart
        obtain ⟨first, others⟩ := List.forall_mem_cons.mp apart
        simp only [Span.ofOffsets, Position.offset_ofOffset] at first
        rw [List.length_append] at le_end small
        -- The first token begins in front of the place, so it ends there at the latest.
        obtain ⟨more, rfl⟩ := Nat.exists_eq_add_of_le (show lexeme.bytes.length ≤ distance by omega)
        rw [← Nat.add_assoc] at others
        obtain ⟨tokens, blanks, after, blank, scans⟩ := ih (by omega) (by omega) others
        rw [List.drop_length_add_append]
        exact ⟨_, blanks, after, blank, .next read scans⟩

/-- As long as places can be recorded, a seam is a place that no token reaches over. -/
theorem isSeam_iff {front back : String}
    (small : front.utf8ByteSize + back.utf8ByteSize ≤ maxOffset) :
    IsSeam front back ↔ ∀ token ∈ (Lexer.ofString (front ++ back)).tokens,
      token.span.stop.offset ≤ front.utf8ByteSize ∨
        front.utf8ByteSize ≤ token.span.start.offset := by
  have whole_eq : bytesOf (front ++ back) = bytesOf front ++ bytesOf back := bytesOf_append _ _
  have length_eq : (bytesOf (front ++ back)).length = front.utf8ByteSize + back.utf8ByteSize := by
    rw [whole_eq, List.length_append, length_bytesOf, length_bytesOf]
  have behind_eq : (bytesOf (front ++ back)).drop front.utf8ByteSize = bytesOf back := by
    rw [whole_eq, ← length_bytesOf, List.drop_left]
  constructor
  · intro seam token mem
    rw [seam.tokens_eq, List.mem_append] at mem
    rcases mem with mem | mem
    · exact .inl ((cutsUp_ofString (by omega)).inside token mem).2.2
    · have cuts := (CutsUp.iff_eq_tokens (length_eq ▸ small) front.utf8ByteSize _).mpr rfl
      rw [behind_eq] at cuts
      exact .inr (cuts.inside token mem).1
  · intro apart
    rw [← Nat.zero_add front.utf8ByteSize] at apart
    obtain ⟨tokens, blanks, after, blank, scans⟩ := @Lexer.exists_scans_to
      (bytesOf (front ++ back)) 0 front.utf8ByteSize (by omega) (by omega) apart
    rw [behind_eq] at scans
    exact ⟨tokens, blanks, after, blank, scans⟩

/-- Layout does not change the tokens, up to their places. -/
theorem Relaid.map_erase_tokenize_eq {first second : String} (relaid : Relaid first second) :
    (tokenize first).map Token.erase = (tokenize second).map Token.erase := by
  rw [map_erase_tokenize, map_erase_tokenize]
  cases relaid with
  | @insert front blanks back seam blank =>
      by_cases empty : blanks = ""
      · rw [empty, String.append_empty]
      · rw [seam.spelledBy_eq, bytesOf_append, bytesOf_append, List.append_assoc (bytesOf front),
          spelledBy_between blank.isBlank (bytesOf_ne_nil empty)]
  | @replace front blanks others back blank ne others_blank others_ne =>
      simp only [bytesOf_append, List.append_assoc]
      rw [spelledBy_between blank.isBlank (bytesOf_ne_nil ne),
        spelledBy_between others_blank.isBlank (bytesOf_ne_nil others_ne)]

/-! ### Reading texts alike -/

/-- A program without the places of its tokens. -/
def Program.erasePlaces (program : Program) : Program :=
  ⟨program.statements.map Stmt.erasePlaces⟩

theorem Stmt.render_erasePlaces (stmt : Stmt) : stmt.erasePlaces.render = stmt.render := by
  cases stmt with
  | binding token name value => simp [erasePlaces, render, value.render_erase]
  | result token value => simp [erasePlaces, render, value.render_erase]
  | expression token expr => simp [erasePlaces, render, expr.render_erase]

theorem Program.render_erasePlaces (program : Program) :
    program.erasePlaces.render = program.render := by
  simp [erasePlaces, render, Function.comp_def, Stmt.render_erasePlaces]

/-- Two tokens stand at the same place in the order of the tokens of two texts. -/
def SameIndex (first second : String) (token other : Token) : Prop :=
  ∃ index : Nat, (tokenize first)[index]? = some token ∧ (tokenize second)[index]? = some other

/-- Two texts have the same tokens up to places, and what is read is the same up to places. -/
structure ReadAlike (first second : String) : Prop where
  /-- The tokens agree in kind and text, one by one. -/
  tokens_eq : (tokenize first).map Token.erase = (tokenize second).map Token.erase
  /-- The messages are the same ones in the same order. -/
  messages_eq : (parse first).2 = (parse second).2
  /-- The programs are equal once the places are erased. -/
  program_eq : (parse first).1.erasePlaces = (parse second).1.erasePlaces
  /-- The programs have the same text. -/
  render_eq : (parse first).1.render = (parse second).1.render
  /-- The diagnostics stand, one by one, at tokens of the same index. -/
  diagnostics : List.Forall₂ (Diagnostic.Corresponds (SameIndex first second))
    (Parser.ofString first).program.2.diagnostics (Parser.ofString second).program.2.diagnostics

theorem getElem?_tokenize {text : String} {index : Nat}
    (lt : index < (Lexer.ofString text).tokens.length) :
    (tokenize text)[index]? = some (Lexer.ofString text).tokens[index] := by
  rw [tokenize, List.getElem?_append_left lt, List.getElem?_eq_getElem lt]

/-- Texts with the same tokens up to places have corresponding streams. -/
theorem corresponds_ofString {first second : String}
    (same : (tokenize first).map Token.erase = (tokenize second).map Token.erase) :
    (TokenStream.ofString first).Corresponds (SameIndex first second) (.ofString second) := by
  have paired (index : Nat) (token other : Token) (found : (tokenize first)[index]? = some token)
      (other_found : (tokenize second)[index]? = some other) :
      token.Corresponds (SameIndex first second) other := by
    have erased := congrArg (·[index]?) same
    simp only [List.getElem?_map, found, other_found, Option.map_some, Option.some.injEq] at erased
    exact ⟨erased, index, found, other_found⟩
  have length_eq :
      (Lexer.ofString first).tokens.length = (Lexer.ofString second).tokens.length := by
    simpa [tokenize] using congrArg List.length same
  refine ⟨List.forall₂_iff_get.mpr ⟨length_eq, fun index lt other_lt => ?_⟩, ?_⟩
  · exact paired index _ _ (getElem?_tokenize lt) (getElem?_tokenize other_lt)
  · rw [size_ofString, size_ofString]
    exact paired (Lexer.ofString first).tokens.length _ _ (by simp [tokenize])
      (by simp [tokenize, length_eq])

/-- Texts with the same tokens up to places are read alike, and texts that differ in layout are
such texts. -/
theorem readAlike_of_tokens_or_layout {first second : String}
    (same : (tokenize first).map Token.erase = (tokenize second).map Token.erase ∨
      Relaid first second) : ReadAlike first second := by
  have tokens_eq := same.elim id Relaid.map_erase_tokenize_eq
  have outcomes := Parse.outcomes_correspond maxDepth (corresponds_ofString tokens_eq)
  have diagnostics := diagnosticsOf_correspond outcomes
  have program_eq : (parse first).1.erasePlaces = (parse second).1.erasePlaces :=
    congrArg Program.mk (Stmt.Corresponds.map_erasePlaces_eq (statementsOf_correspond outcomes))
  exact
    { tokens_eq
      messages_eq := Diagnostic.Corresponds.map_message_eq diagnostics
      program_eq
      render_eq := by
        rw [← Program.render_erasePlaces, program_eq, Program.render_erasePlaces]
      diagnostics }

/-- Blanks behind the sign of an inequality neither split it nor move the refusal behind it. -/
theorem readAlike_of_tokens_or_layout_notEqual :
    Relaid "a!=b(c d;" "a!=\t\r\nb(c d;" ∧ ReadAlike "a!=b(c d;" "a!=\t\r\nb(c d;" := by
  have seam : IsSeam "a!=" "b(c d;" := by
    refine ⟨[⟨.identifier, "a", .ofOffsets 0 1⟩, ⟨.notEqual, "!=", .ofOffsets 1 3⟩], [], 3, nofun,
      ?_⟩
    exact .next rfl (.next rfl (.done _))
  have blank : IsBlankText "\t\r\n" := by simp [IsBlankText]
  have relaid : Relaid "a!=b(c d;" "a!=\t\r\nb(c d;" := Relaid.insert seam blank
  exact ⟨relaid, readAlike_of_tokens_or_layout (.inr relaid)⟩

end MonkeySyntax
