import MonkeySyntax.Proofs.MaximalMunch

/-!
# Texts put one behind the other

A text that is put together from two has the tokens of the first and, further on, those of the
second, unless a token of the first goes on into the second.  Only the last token can, and it does
so exactly if it touches the second text and the first byte there belongs to its class.
-/

namespace MonkeySyntax

/-! ### Tokens that go on -/

/-- Identifiers and keywords are words. -/
def Token.Kind.IsWord (kind : Kind) : Prop :=
  kind = .identifier ∨ kind ∈ keywords.map Prod.snd

instance (kind : Token.Kind) : Decidable kind.IsWord :=
  inferInstanceAs (Decidable (_ ∨ _))

/-- A token of the kind would go on into the byte behind it. -/
def Token.Kind.GoesOn (kind : Kind) (next : UInt8) : Prop :=
  kind.IsWord ∧ isLetter next = true ∨ kind = .integer ∧ isDigit next = true ∨
    (kind = .assign ∨ kind = .bang) ∧ charOfByte next = '='

theorem Token.Kind.isWord_ofWord (word : String) : (ofWord word).IsWord := by
  rcases ofWord_eq_identifier_or_mem word with kind_eq | listed
  · exact .inl kind_eq
  · exact .inr (List.mem_map_of_mem listed)

theorem Token.Kind.IsWord.ne {kind : Kind} (word : kind.IsWord) :
    kind ≠ .integer ∧ kind ≠ .assign ∧ kind ≠ .bang := by
  revert word
  cases kind <;> decide

namespace Lexeme

variable {lexeme : Lexeme} {byte next : UInt8} {more : List UInt8}

theorem not_isWord_of_mem_signs : ∀ sign ∈ signs, ¬ sign.2.IsWord ∧ sign.2 ≠ .integer ∧
    sign.2 ≠ .assign ∧ sign.2 ≠ .bang := by
  decide

/-- The first byte of a lexeme tells words and integers from the rest. -/
theorem WellFormed.class_of_first (wellFormed : lexeme.WellFormed)
    (bytes_eq : lexeme.bytes = byte :: more) :
    (lexeme.kind.IsWord ↔ isLetter byte = true) ∧
      (lexeme.kind = .integer ↔ isDigit byte = true) := by
  cases wellFormed with
  | @word bytes _ letters =>
      have word := Token.Kind.isWord_ofWord (textOfBytes bytes)
      have letter := letters byte (by simp [show bytes = _ from bytes_eq])
      have not_digit : isDigit byte ≠ true := fun digit => by
        simp [not_letter_of_digit digit] at letter
      simp [word, word.ne.1, letter, not_digit]
  | integer _ digits =>
      have digit := digits byte (by simp_all)
      have not_word : ¬ Token.Kind.integer.IsWord := by decide
      simp [not_word, digit, not_letter_of_digit digit]
  | extended kinds _ | lone kinds =>
      obtain ⟨-, not_letter, not_digit⟩ := classes_of_extensible kinds
      obtain ⟨rfl, -⟩ := List.cons.inj bytes_eq
      simp only [not_letter, not_digit]
      rcases extensibleKinds?_eq_some kinds with ⟨-, rfl, rfl⟩ | ⟨-, rfl, rfl⟩ <;> decide
  | sign kind_eq =>
      obtain ⟨-, not_letter, not_digit, -⟩ := classes_of_sign kind_eq
      obtain ⟨not_word, ne_integer, -⟩ := not_isWord_of_mem_signs _ (mem_signs kind_eq)
      obtain ⟨rfl, -⟩ := List.cons.inj bytes_eq
      simp [not_letter, not_digit, not_word, ne_integer]
  | illegal _ not_letter not_digit _ _ =>
      obtain ⟨rfl, -⟩ := List.cons.inj bytes_eq
      simp only [not_letter, not_digit]
      decide

/-- Which bytes extend a lexeme is settled by its kind. -/
theorem WellFormed.extendedBy_iff (wellFormed : lexeme.WellFormed) :
    lexeme.extendedBy next = true ↔ lexeme.kind.GoesOn next := by
  cases wellFormed with
  | @word bytes nonempty letters =>
      obtain ⟨first, rest, rfl⟩ := List.exists_cons_of_ne_nil nonempty
      have word := Token.Kind.isWord_ofWord (textOfBytes (first :: rest))
      simp [extendedBy, letters first List.mem_cons_self, Token.Kind.GoesOn, word, word.ne]
  | @integer bytes nonempty digits =>
      obtain ⟨first, rest, rfl⟩ := List.exists_cons_of_ne_nil nonempty
      have digit := digits first List.mem_cons_self
      have not_word : ¬ Token.Kind.integer.IsWord := by decide
      simp [extendedBy, digit, not_letter_of_digit digit, Token.Kind.GoesOn, not_word]
  | extended kinds _ =>
      obtain ⟨-, not_letter, not_digit⟩ := classes_of_extensible kinds
      have kinds_ne : ∀ kind ∈ [Token.Kind.equal, .notEqual],
          ¬ kind.IsWord ∧ kind ≠ .integer ∧ kind ≠ .assign ∧ kind ≠ .bang := by
        decide
      rcases extensibleKinds?_eq_some kinds with ⟨-, -, rfl⟩ | ⟨-, -, rfl⟩ <;>
        simp [extendedBy, not_letter, not_digit, Token.Kind.GoesOn, kinds_ne]
  | lone kinds =>
      obtain ⟨-, not_letter, not_digit⟩ := classes_of_extensible kinds
      have kinds_ne : ∀ kind ∈ [Token.Kind.assign, .bang], ¬ kind.IsWord ∧ kind ≠ .integer := by
        decide
      rcases extensibleKinds?_eq_some kinds with ⟨-, rfl, -⟩ | ⟨-, rfl, -⟩ <;>
        simp [extendedBy, not_letter, not_digit, kinds, Token.Kind.GoesOn, kinds_ne]
  | sign kind_eq =>
      obtain ⟨-, not_letter, not_digit, not_extensible⟩ := classes_of_sign kind_eq
      have kinds_ne := not_isWord_of_mem_signs _ (mem_signs kind_eq)
      simp [extendedBy, not_letter, not_digit, not_extensible, Token.Kind.GoesOn, kinds_ne]
  | illegal _ not_letter not_digit not_extensible _ =>
      have not_word : ¬ Token.Kind.illegal.IsWord := by decide
      simp [extendedBy, not_letter, not_digit, not_extensible, Token.Kind.GoesOn, not_word]

end Lexeme

namespace Munches

variable {kind : Token.Kind} {bytes : List UInt8} {next : Option UInt8}

theorem wellFormed (munches : Munches kind bytes next) : Lexeme.WellFormed ⟨kind, bytes⟩ := by
  have head_eq : next.toList.head? = next := by cases next <;> rfl
  rw [← head_eq] at munches
  exact (Lexeme.wellFormed_of_munches munches).1

/-- What a token may cover at the end of a text, it may cover in front of anything into which it
does not go on. -/
theorem iff_not_goesOn (munches : Munches kind bytes none) :
    Munches kind bytes next ↔ ¬ ∃ byte ∈ next, kind.GoesOn byte := by
  have wellFormed := munches.wellFormed
  cases next with
  | none => simp [munches]
  | some byte =>
      simp only [Option.mem_some, exists_eq_left', ← wellFormed.extendedBy_iff, Bool.not_eq_true]
      constructor
      · intro stops
        have stops : Munches kind bytes [byte].head? := stops
        exact (Lexeme.wellFormed_of_munches stops).2 byte rfl
      · intro stops
        have ends : Lexeme.EndsBefore ⟨kind, bytes⟩ [byte] := by
          simpa [Lexeme.EndsBefore] using stops
        exact wellFormed.munches ends

end Munches

/-! ### Tokens further on -/

/-- The same token further on in a longer source text. -/
def Token.shift (distance : Nat) (token : Token) : Token :=
  { token with span :=
      .ofOffsets (token.span.start.offset + distance) (token.span.stop.offset + distance) }

namespace CutsUp

variable {front back : List UInt8} {tokens others : List Token} {token : Token}

/-- A token that ends with the text is the last one. -/
theorem getLast?_eq (cuts : CutsUp front 0 tokens) (mem : token ∈ tokens)
    (stop_eq : token.span.stop.offset = front.length) : tokens.getLast? = some token := by
  obtain ⟨before, after, rfl⟩ := List.append_of_mem mem
  cases after with
  | nil => simp
  | cons next after =>
      obtain ⟨-, ordered, -⟩ := List.pairwise_append.mp cuts.ordered
      have in_order : token.span.stop.offset ≤ next.span.start.offset :=
        (List.pairwise_cons.mp ordered).1 next List.mem_cons_self
      obtain ⟨-, start_lt, stop_le⟩ := cuts.inside next (by simp)
      have next_lt : next.span.start.offset < next.span.stop.offset := start_lt
      omega

theorem getElem?_append_length : (front ++ back)[front.length]? = back.head? := by
  rw [List.getElem?_append_right (Nat.le_refl _), Nat.sub_self, ← List.head?_eq_getElem?]

theorem covered_append (cuts : CutsUp front 0 tokens) (mem : token ∈ tokens) :
    token.covered (front ++ back) = token.covered front := by
  obtain ⟨-, start_lt, stop_le⟩ := cuts.inside token mem
  have lt_stop : token.span.start.offset < token.span.stop.offset := start_lt
  have width_le : token.span.stop.offset - token.span.start.offset ≤
      (front.drop token.span.start.offset).length := by
    rw [List.length_drop]
    omega
  rw [Token.covered, Token.covered, List.drop_append_of_le_length (by omega),
    List.take_append_of_le_length width_le]

theorem covered_shift (start_eq : (token.shift front.length).span.start.offset =
      token.span.start.offset + front.length)
    (stop_eq : (token.shift front.length).span.stop.offset =
      token.span.stop.offset + front.length) :
    (token.shift front.length).covered (front ++ back) = token.covered back := by
  rw [Token.covered, Token.covered, start_eq, stop_eq, Nat.add_sub_add_right, Nat.add_comm,
    List.drop_length_add_append]

theorem shift_inside (small : front.length + back.length ≤ maxOffset)
    (second : CutsUp back 0 others) (mem : token ∈ others) :
    token.span.start.offset < token.span.stop.offset ∧ token.span.stop.offset ≤ back.length ∧
      (token.shift front.length).span.start.offset = token.span.start.offset + front.length ∧
      (token.shift front.length).span.stop.offset = token.span.stop.offset + front.length := by
  obtain ⟨-, start_lt, stop_le⟩ := second.inside token mem
  have lt_stop : token.span.start.offset < token.span.stop.offset := start_lt
  exact ⟨lt_stop, stop_le, Nat.min_eq_left (by omega), Nat.min_eq_left (by omega)⟩

/-- Tokens that cut up two runs of bytes cut up the two runs one behind the other if every token
that touches the second run may cover its bytes there. -/
theorem append (small : front.length + back.length ≤ maxOffset)
    (first : CutsUp front 0 tokens) (second : CutsUp back 0 others)
    (touching : ∀ token ∈ tokens, token.span.stop.offset = front.length →
      Munches token.kind (token.covered front) back.head?) :
    CutsUp (front ++ back) 0 (tokens ++ others.map (·.shift front.length)) where
  ordered := by
    refine List.pairwise_append.mpr ⟨first.ordered, ?_, fun token mem other other_mem => ?_⟩
    · rw [List.pairwise_map]
      refine second.ordered.imp_of_mem fun {earlier later} earlier_mem later_mem in_order => ?_
      obtain ⟨-, -, -, stop_eq⟩ := second.shift_inside small earlier_mem
      obtain ⟨-, -, start_eq, -⟩ := second.shift_inside small later_mem
      change (earlier.shift front.length).span.stop.offset ≤
        (later.shift front.length).span.start.offset
      rw [stop_eq, start_eq]
      exact Nat.add_le_add_right in_order _
    · obtain ⟨other, later_mem, rfl⟩ := List.mem_map.mp other_mem
      obtain ⟨-, -, start_eq, -⟩ := second.shift_inside small later_mem
      change token.span.stop.offset ≤ (other.shift front.length).span.start.offset
      rw [start_eq]
      exact Nat.le_trans (first.inside token mem).2.2 (Nat.le_add_left _ _)
  inside := by
    rw [List.length_append]
    refine List.forall_mem_append.mpr ⟨fun token mem => ?_, List.forall_mem_map.mpr
      fun token mem => ?_⟩
    · obtain ⟨start_le, start_lt, stop_le⟩ := first.inside token mem
      exact ⟨start_le, start_lt, Nat.le_add_right_of_le stop_le⟩
    · obtain ⟨lt_stop, stop_le, start_eq, stop_eq⟩ := second.shift_inside small mem
      refine ⟨Nat.zero_le _, ?_, by omega⟩
      change (token.shift front.length).span.start.offset <
        (token.shift front.length).span.stop.offset
      omega
  between := by
    intro place byte _ found unoccupied
    rcases Nat.lt_or_ge place front.length with lt | ge
    · rw [List.getElem?_append_left lt] at found
      exact first.between place byte (Nat.zero_le _) found fun token mem =>
        unoccupied token (List.mem_append_left _ mem)
    · rw [List.getElem?_append_right ge] at found
      refine second.between _ byte (Nat.zero_le _) found fun token mem ⟨start_le, lt_stop⟩ => ?_
      obtain ⟨-, -, start_eq, stop_eq⟩ := second.shift_inside small mem
      exact unoccupied _ (List.mem_append_right _ (List.mem_map_of_mem mem))
        ⟨by omega, by omega⟩
  munched := by
    refine List.forall_mem_append.mpr ⟨fun token mem => ?_, List.forall_mem_map.mpr
      fun token mem => ?_⟩
    · rw [first.covered_append mem]
      rcases Nat.eq_or_lt_of_le (first.inside token mem).2.2 with stop_eq | stop_lt
      · rw [stop_eq, getElem?_append_length]
        exact touching token mem stop_eq
      · rw [List.getElem?_append_left stop_lt]
        exact first.munched token mem
    · obtain ⟨-, -, start_eq, stop_eq⟩ := second.shift_inside small mem
      rw [covered_shift start_eq stop_eq, stop_eq, Nat.add_comm, List.getElem?_append_right
        (Nat.le_add_right _ _), Nat.add_sub_cancel_left]
      exact second.munched token mem
  spelled := by
    refine List.forall_mem_append.mpr ⟨fun token mem => ?_, List.forall_mem_map.mpr
      fun token mem => ?_⟩
    · rw [first.covered_append mem]
      exact first.spelled token mem
    · obtain ⟨-, -, start_eq, stop_eq⟩ := second.shift_inside small mem
      rw [covered_shift start_eq stop_eq]
      exact second.spelled token mem

theorem append_iff (small : front.length + back.length ≤ maxOffset)
    (first : CutsUp front 0 tokens) (second : CutsUp back 0 others) :
    CutsUp (front ++ back) 0 (tokens ++ others.map (·.shift front.length)) ↔
      ∀ token ∈ tokens, token.span.stop.offset = front.length →
        Munches token.kind (token.covered front) back.head? := by
  refine ⟨fun cuts token mem stop_eq => ?_, first.append small second⟩
  have munched := cuts.munched token (List.mem_append_left _ mem)
  rwa [first.covered_append mem, stop_eq, getElem?_append_length] at munched

/-- A token that begins with the bytes is of the class of the first one. -/
theorem class_of_first {byte : UInt8} {rest : List UInt8}
    (cuts : CutsUp (byte :: rest) 0 (token :: others)) (start_eq : token.span.start.offset = 0) :
    (token.kind.IsWord ↔ isLetter byte = true) ∧ (token.kind = .integer ↔ isDigit byte = true) := by
  obtain ⟨-, lt_stop, -⟩ := cuts.inside token List.mem_cons_self
  have lt : token.span.start.offset < token.span.stop.offset := lt_stop
  obtain ⟨width, stop_eq⟩ := Nat.exists_eq_add_of_lt lt
  have covered_eq : token.covered (byte :: rest) = byte :: rest.take width := by
    rw [Token.covered, stop_eq, start_eq]
    simp
  exact (cuts.munched token List.mem_cons_self).wellFormed.class_of_first covered_eq

end CutsUp

section

variable {text first second : String}

theorem cutsUp_ofString (small : text.utf8ByteSize ≤ maxOffset) :
    CutsUp (bytesOf text) 0 (Lexer.ofString text).tokens :=
  (CutsUp.iff_eq_tokens small 0 _).mpr rfl

/-- The first token of a text begins with its first byte, unless that is a blank. -/
theorem exists_first_token {byte : UInt8} {rest : List UInt8}
    (small : text.utf8ByteSize ≤ maxOffset) (bytes_eq : bytesOf text = byte :: rest)
    (not_blank : isBlank byte = false) :
    ∃ next ∈ (tokenize text).head?, next.span.start.offset = 0 ∧
      (next.kind.IsWord ↔ isLetter byte = true) ∧ (next.kind = .integer ↔ isDigit byte = true) := by
  have cuts := cutsUp_ofString small
  rw [bytes_eq] at cuts
  obtain ⟨next, others, tokens_eq, start_eq⟩ := cuts.exists_head rfl not_blank
  rw [tokens_eq] at cuts
  exact ⟨next, by simp [tokenize, tokens_eq], start_eq, cuts.class_of_first start_eq⟩

/-- A word or an integer with which a text begins has the first byte of the text. -/
theorem exists_first_byte {next : Token} (small : text.utf8ByteSize ≤ maxOffset)
    (head_eq : next ∈ (tokenize text).head?) (start_eq : next.span.start.offset = 0)
    (kind_ne : next.kind ≠ .endOfInput) :
    ∃ byte ∈ (bytesOf text).head?,
      (next.kind.IsWord ↔ isLetter byte = true) ∧ (next.kind = .integer ↔ isDigit byte = true) := by
  have cuts := cutsUp_ofString small
  cases tokens_eq : (Lexer.ofString text).tokens with
  | nil =>
      obtain rfl : .endOfInput text.utf8ByteSize = next := by
        simpa [tokenize, tokens_eq] using head_eq
      contradiction
  | cons token others =>
      obtain rfl : token = next := by simpa [tokenize, tokens_eq] using head_eq
      rw [tokens_eq] at cuts
      cases bytes_eq : bytesOf text with
      | nil =>
          rw [bytes_eq, CutsUp.nil_iff (Nat.le_refl 0)] at cuts
          contradiction
      | cons byte rest =>
          rw [bytes_eq] at cuts
          exact ⟨byte, rfl, cuts.class_of_first start_eq⟩

/-- The last token of a text would be read as one with the first token of another. -/
def RunTogether (first second : String) : Prop :=
  ∃ last ∈ (tokenize first).dropLast.getLast?, ∃ next ∈ (tokenize second).head?,
    last.span.stop.offset = first.utf8ByteSize ∧ next.span.start.offset = 0 ∧
      (last.kind.IsWord ∧ next.kind.IsWord ∨ last.kind = .integer ∧ next.kind = .integer ∨
        (last.kind = .assign ∨ last.kind = .bang) ∧
          ∃ byte ∈ (bytesOf second).head?, charOfByte byte = '=')

theorem runTogether_iff (small : second.utf8ByteSize ≤ maxOffset) :
    RunTogether first second ↔
      ∃ last ∈ (Lexer.ofString first).tokens.getLast?,
        last.span.stop.offset = first.utf8ByteSize ∧
          ∃ byte ∈ (bytesOf second).head?, last.kind.GoesOn byte := by
  have last_eq : (tokenize first).dropLast.getLast? = (Lexer.ofString first).tokens.getLast? := by
    rw [tokenize, List.dropLast_concat]
  rw [RunTogether, last_eq]
  constructor
  · rintro ⟨last, last_mem, next, next_mem, stop_eq, start_eq, together⟩
    refine ⟨last, last_mem, stop_eq, ?_⟩
    rcases together with ⟨word, next_word⟩ | ⟨kind_eq, next_kind⟩ | ⟨kind_eq, byte, head_eq, equals⟩
    · have kind_ne : next.kind ≠ .endOfInput := by
        rintro ended
        rw [ended] at next_word
        exact absurd next_word (by decide)
      obtain ⟨byte, head_eq, word_iff, -⟩ := exists_first_byte small next_mem start_eq kind_ne
      exact ⟨byte, head_eq, .inl ⟨word, word_iff.mp next_word⟩⟩
    · have kind_ne : next.kind ≠ .endOfInput := by simp [next_kind]
      obtain ⟨byte, head_eq, -, digit_iff⟩ := exists_first_byte small next_mem start_eq kind_ne
      exact ⟨byte, head_eq, .inr (.inl ⟨kind_eq, digit_iff.mp next_kind⟩)⟩
    · exact ⟨byte, head_eq, .inr (.inr ⟨kind_eq, equals⟩)⟩
  · rintro ⟨last, last_mem, stop_eq, byte, head_eq, goesOn⟩
    obtain ⟨rest, bytes_eq⟩ := List.head?_eq_some_iff.mp head_eq
    have not_blank : isBlank byte = false := by
      rcases goesOn with ⟨-, letter⟩ | ⟨-, digit⟩ | ⟨-, equals⟩
      · exact Lexeme.not_blank_of_letter letter
      · exact Lexeme.not_blank_of_digit digit
      · simp [isBlank, equals]
    obtain ⟨next, next_mem, start_eq, word_iff, digit_iff⟩ :=
      exists_first_token small bytes_eq not_blank
    refine ⟨last, last_mem, next, next_mem, stop_eq, start_eq, ?_⟩
    rcases goesOn with ⟨word, letter⟩ | ⟨kind_eq, digit⟩ | ⟨kind_eq, equals⟩
    · exact .inl ⟨word, word_iff.mpr letter⟩
    · exact .inr (.inl ⟨kind_eq, digit_iff.mpr digit⟩)
    · exact .inr (.inr ⟨kind_eq, byte, head_eq, equals⟩)

theorem shift_endOfInput (distance size : Nat) :
    (Token.endOfInput size).shift distance = .endOfInput (distance + size) := by
  simp [Token.shift, Token.endOfInput, Span.ofOffsets, Position.ofOffset]
  omega

end

/-- The tokens of two texts put one behind the other are those of the first and, further on, those
of the second, except that a token of the first may run together with one of the second. -/
theorem tokenize_append_iff (first second : String)
    (small : first.utf8ByteSize + second.utf8ByteSize ≤ maxOffset) :
    tokenize (first ++ second) =
        (tokenize first).dropLast ++ (tokenize second).map (·.shift first.utf8ByteSize) ↔
      ¬ RunTogether first second := by
  have first_cuts := @cutsUp_ofString first (by omega)
  have second_cuts := @cutsUp_ofString second (by omega)
  have whole_small : (first ++ second).utf8ByteSize ≤ maxOffset := by
    rwa [String.utf8ByteSize_append]
  have whole_iff (tokens : List Token) : CutsUp (bytesOf (first ++ second)) 0 tokens ↔
      tokens = (Lexer.ofString (first ++ second)).tokens :=
    CutsUp.iff_eq_tokens whole_small 0 tokens
  have ends_eq : (tokenize first).dropLast ++ (tokenize second).map (·.shift first.utf8ByteSize) =
      ((Lexer.ofString first).tokens ++
        (Lexer.ofString second).tokens.map (·.shift first.utf8ByteSize)) ++
          [.endOfInput (first ++ second).utf8ByteSize] := by
    simp [tokenize, shift_endOfInput]
  have bytes_small : (bytesOf first).length + (bytesOf second).length ≤ maxOffset := by
    rwa [length_bytesOf, length_bytesOf]
  rw [ends_eq, tokenize, List.append_cancel_right_eq, eq_comm, ← whole_iff, bytesOf_append,
    ← length_bytesOf first, CutsUp.append_iff bytes_small first_cuts second_cuts,
    runTogether_iff (by omega), ← length_bytesOf first]
  have goes_on_iff (token : Token) (mem : token ∈ (Lexer.ofString first).tokens)
      (stop_eq : token.span.stop.offset = (bytesOf first).length) :
      Munches token.kind (token.covered (bytesOf first)) (bytesOf second).head? ↔
        ¬ ∃ byte ∈ (bytesOf second).head?, token.kind.GoesOn byte := by
    have munched := first_cuts.munched token mem
    rw [stop_eq, List.getElem?_eq_none (Nat.le_refl _)] at munched
    exact munched.iff_not_goesOn
  constructor
  · rintro touching ⟨last, last_mem, stop_eq, goesOn⟩
    have mem := List.mem_of_getLast? last_mem
    exact (goes_on_iff last mem stop_eq).mp (touching last mem stop_eq) goesOn
  · intro apart token mem stop_eq
    refine (goes_on_iff token mem stop_eq).mpr fun goesOn => apart ?_
    exact ⟨token, first_cuts.getLast?_eq mem stop_eq, stop_eq, goesOn⟩

/-- An exclamation mark takes the first of two equals signs that another text begins with. -/
theorem tokenize_append_iff_bang :
    "a!".utf8ByteSize + "==b".utf8ByteSize ≤ maxOffset ∧ RunTogether "a!" "==b" ∧
      tokenize ("a!" ++ "==b") ≠
        (tokenize "a!").dropLast ++ (tokenize "==b").map (·.shift "a!".utf8ByteSize) := by
  have small : "a!".utf8ByteSize + "==b".utf8ByteSize ≤ maxOffset := by decide
  have together : RunTogether "a!" "==b" :=
    ⟨⟨.bang, "!", .ofOffsets 1 2⟩, by decide +kernel, ⟨.equal, "==", .ofOffsets 0 2⟩,
      by decide +kernel, by decide, by decide, .inr (.inr ⟨.inr rfl, 61, by decide, rfl⟩)⟩
  exact ⟨small, together, fun equal => (tokenize_append_iff "a!" "==b" small).mp equal together⟩

end MonkeySyntax
