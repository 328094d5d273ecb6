import MonkeySyntax.Proofs.Lexing

/-!
# Maximal munch

The tokens of a source text cut its bytes up: they stand in order, nothing but blanks is left
between them, and each of them takes as many bytes as its class allows.  These properties mention
neither a lexer nor the order in which it looks for lexemes, and only one list of tokens has them.
-/

namespace MonkeySyntax

/-- Tokens of a kind may cover the given bytes in front of the byte `next`, or at the end of the
source text if there is none. -/
inductive Munches : Token.Kind → List UInt8 → Option UInt8 → Prop where
  /-- A keyword is listed as such, and no letter follows it. -/
  | keyword {word : String} {kind : Token.Kind} {next : Option UInt8}
      (listed : (word, kind) ∈ Token.Kind.keywords)
      (ends : ∀ byte ∈ next, isLetter byte = false) : Munches kind (bytesOf word) next
  /-- An identifier is a run of letters that is no keyword, and no letter follows it. -/
  | identifier {bytes : List UInt8} {next : Option UInt8} (nonempty : bytes ≠ [])
      (letters : ∀ byte ∈ bytes, isLetter byte = true)
      (unlisted : ∀ named ∈ Token.Kind.keywords, bytes ≠ bytesOf named.1)
      (ends : ∀ byte ∈ next, isLetter byte = false) : Munches .identifier bytes next
  /-- An integer is a run of digits, and no digit follows it. -/
  | integer {bytes : List UInt8} {next : Option UInt8} (nonempty : bytes ≠ [])
      (digits : ∀ byte ∈ bytes, isDigit byte = true)
      (ends : ∀ byte ∈ next, isDigit byte = false) : Munches .integer bytes next
  /-- Two equals signs are one sign. -/
  | equal {next : Option UInt8} : Munches .equal (bytesOf "==") next
  /-- An exclamation mark and an equals sign are one sign. -/
  | notEqual {next : Option UInt8} : Munches .notEqual (bytesOf "!=") next
  /-- An equals sign stands alone if no other follows it. -/
  | assign {next : Option UInt8} (ends : ∀ byte ∈ next, charOfByte byte ≠ '=') :
      Munches .assign (bytesOf "=") next
  /-- An exclamation mark stands alone if no equals sign follows it. -/
  | bang {next : Option UInt8} (ends : ∀ byte ∈ next, charOfByte byte ≠ '=') :
      Munches .bang (bytesOf "!") next
  /-- Any other sign has one byte, whatever follows it. -/
  | sign {byte : UInt8} {kind : Token.Kind} {next : Option UInt8}
      (listed : (charOfByte byte, kind) ∈ Lexeme.signs) : Munches kind [byte] next
  /-- A byte is illegal if it is no blank and belongs to none of the other classes. -/
  | illegal {byte : UInt8} {next : Option UInt8} (not_blank : isBlank byte = false)
      (not_letter : isLetter byte = false) (not_digit : isDigit byte = false)
      (not_sign : charOfByte byte ∉ '=' :: '!' :: Lexeme.signs.map Prod.fst) :
      Munches .illegal [byte] next

namespace Token

/-- The byte at an offset is one that the token covers. -/
def Occupies (token : Token) (offset : Nat) : Prop :=
  token.span.start.offset ≤ offset ∧ offset < token.span.stop.offset

/-- The bytes that a token covers in a source text. -/
def covered (token : Token) (bytes : List UInt8) : List UInt8 :=
  (bytes.drop token.span.start.offset).take (token.span.stop.offset - token.span.start.offset)

end Token

/-- The tokens cut up the bytes of a source text from an offset on. -/
structure CutsUp (bytes : List UInt8) (offset : Nat) (tokens : List Token) : Prop where
  /-- The tokens stand in order and do not overlap. -/
  ordered : tokens.Pairwise fun first second => first.span.stop ≤ second.span.start
  /-- Each token covers some bytes of the source text, and none before the offset. -/
  inside : ∀ token ∈ tokens, offset ≤ token.span.start.offset ∧
    token.span.start < token.span.stop ∧ token.span.stop.offset ≤ bytes.length
  /-- The bytes that no token covers are blanks. -/
  between : ∀ place byte, offset ≤ place → bytes[place]? = some byte →
    (∀ token ∈ tokens, ¬ token.Occupies place) → isBlank byte = true
  /-- Each token takes as many bytes as its class allows. -/
  munched : ∀ token ∈ tokens,
    Munches token.kind (token.covered bytes) bytes[token.span.stop.offset]?
  /-- The text of a token is the bytes that it covers; an illegal byte has none. -/
  spelled : ∀ token ∈ tokens,
    if token.kind = .illegal then token.literal = ""
    else bytesOf token.literal = token.covered bytes

/-! ### Lexemes are what tokens may cover -/

theorem bytesOf_injective {first second : String} (same : bytesOf first = bytesOf second) :
    first = second := by
  apply String.toByteArray_inj.mp
  apply ByteArray.ext
  exact Array.toList_inj.mp same

namespace Lexeme

variable {lexeme : Lexeme} {byte : UInt8} {bytes rest after : List UInt8} {kind : Token.Kind}
  {char : Char}

theorem signKind?_of_mem_signs : ∀ sign ∈ signs, signKind? sign.1 = some sign.2 := by
  decide

theorem not_extensible_and_not_sign_iff :
    extensibleKinds? char = none ∧ signKind? char = none ↔
      char ∉ '=' :: '!' :: signs.map Prod.fst := by
  have extensible : extensibleKinds? char = none ↔ char ≠ '=' ∧ char ≠ '!' := by
    unfold extensibleKinds?
    split <;> simp_all
  have sign : signKind? char = none ↔ char ∉ signs.map Prod.fst := by
    constructor
    · intro none_eq mem
      obtain ⟨sign, listed, rfl⟩ := List.mem_map.mp mem
      rw [signKind?_of_mem_signs sign listed] at none_eq
      contradiction
    · intro unlisted
      cases kind_eq : signKind? char with
      | none => rfl
      | some kind => exact absurd (List.mem_map_of_mem (mem_signs kind_eq)) unlisted
  rw [extensible, sign]
  simp [and_assoc]

theorem keyword_spelling : ∀ named ∈ Token.Kind.keywords, bytesOf named.1 ≠ [] ∧
    (∀ byte ∈ bytesOf named.1, isLetter byte = true) ∧
    Token.Kind.ofWord (textOfBytes (bytesOf named.1)) = named.2 ∧ named.2 ≠ .identifier := by
  decide +kernel

theorem bytesOf_textOfBytes_of_letters (letters : ∀ byte ∈ bytes, isLetter byte = true) :
    bytesOf (textOfBytes bytes) = bytes :=
  bytesOf_textOfBytes fun byte mem => isAscii_of_letter (letters byte mem)

theorem endsBefore_word_iff (nonempty : bytes ≠ [])
    (letters : ∀ byte ∈ bytes, isLetter byte = true) :
    EndsBefore ⟨kind, bytes⟩ after ↔ ∀ byte ∈ after.head?, isLetter byte = false := by
  obtain ⟨first, more, rfl⟩ := List.exists_cons_of_ne_nil nonempty
  simp [EndsBefore, extendedBy, letters first List.mem_cons_self]

theorem endsBefore_integer_iff (nonempty : bytes ≠ [])
    (digits : ∀ byte ∈ bytes, isDigit byte = true) :
    EndsBefore ⟨kind, bytes⟩ after ↔ ∀ byte ∈ after.head?, isDigit byte = false := by
  obtain ⟨first, more, rfl⟩ := List.exists_cons_of_ne_nil nonempty
  have digit := digits first List.mem_cons_self
  simp [EndsBefore, extendedBy, digit, not_letter_of_digit digit]

/-- A lone sign that an equals sign would extend ends in front of anything else. -/
theorem endsBefore_lone_iff {lone longer : Token.Kind}
    (kinds : extensibleKinds? (charOfByte byte) = some (lone, longer)) :
    EndsBefore ⟨kind, [byte]⟩ after ↔ ∀ next ∈ after.head?, charOfByte next ≠ '=' := by
  obtain ⟨-, not_letter, not_digit⟩ := classes_of_extensible kinds
  simp [EndsBefore, extendedBy, not_letter, not_digit, kinds]

/-- A byte of no class that goes on ends in front of anything. -/
theorem endsBefore_single (not_letter : isLetter byte = false) (not_digit : isDigit byte = false)
    (not_extensible : extensibleKinds? (charOfByte byte) = none) :
    EndsBefore ⟨kind, [byte]⟩ after := by
  intro next _
  simp [extendedBy, not_letter, not_digit, not_extensible]

/-- What a token may cover is a lexeme in front of bytes that do not extend it. -/
theorem wellFormed_of_munches (munches : Munches kind bytes after.head?) :
    WellFormed ⟨kind, bytes⟩ ∧ EndsBefore ⟨kind, bytes⟩ after := by
  cases munches with
  | keyword listed ends =>
      obtain ⟨nonempty, letters, kind_eq, -⟩ := keyword_spelling _ listed
      have wellFormed := WellFormed.word nonempty letters
      rw [kind_eq] at wellFormed
      exact ⟨wellFormed, (endsBefore_word_iff nonempty letters).mpr ends⟩
  | identifier nonempty letters unlisted ends =>
      have wellFormed := WellFormed.word nonempty letters
      rcases Token.Kind.ofWord_eq_identifier_or_mem (textOfBytes bytes) with kind_eq | listed
      · rw [kind_eq] at wellFormed
        exact ⟨wellFormed, (endsBefore_word_iff nonempty letters).mpr ends⟩
      · exact absurd (bytesOf_textOfBytes_of_letters letters).symm (unlisted _ listed)
  | integer nonempty digits ends =>
      exact ⟨.integer nonempty digits, (endsBefore_integer_iff nonempty digits).mpr ends⟩
  | equal => exact ⟨@WellFormed.extended 61 61 .assign .equal rfl rfl, fun _ _ => rfl⟩
  | notEqual => exact ⟨@WellFormed.extended 33 61 .bang .notEqual rfl rfl, fun _ _ => rfl⟩
  | assign ends =>
      exact ⟨@WellFormed.lone 61 .assign .equal rfl, (endsBefore_lone_iff rfl).mpr ends⟩
  | bang ends =>
      exact ⟨@WellFormed.lone 33 .bang .notEqual rfl, (endsBefore_lone_iff rfl).mpr ends⟩
  | sign listed =>
      have kind_eq := signKind?_of_mem_signs _ listed
      obtain ⟨-, not_letter, not_digit, not_extensible⟩ := classes_of_sign kind_eq
      exact ⟨.sign kind_eq, endsBefore_single not_letter not_digit not_extensible⟩
  | illegal not_blank not_letter not_digit not_sign =>
      obtain ⟨not_extensible, not_sign⟩ := not_extensible_and_not_sign_iff.mpr not_sign
      exact ⟨.illegal not_blank not_letter not_digit not_extensible not_sign,
        endsBefore_single not_letter not_digit not_extensible⟩

/-- A lexeme in front of bytes that do not extend it is what a token may cover. -/
theorem WellFormed.munches (wellFormed : lexeme.WellFormed) (ends : lexeme.EndsBefore after) :
    Munches lexeme.kind lexeme.bytes after.head? := by
  cases wellFormed with
  | @word bytes nonempty letters =>
      have stops := (endsBefore_word_iff nonempty letters).mp ends
      rcases Token.Kind.ofWord_eq_identifier_or_mem (textOfBytes bytes) with kind_eq | listed
      · rw [kind_eq]
        refine .identifier nonempty letters (fun named listed bytes_eq => ?_) stops
        obtain ⟨-, -, named_kind, proper⟩ := keyword_spelling named listed
        have same : bytes = bytesOf named.1 := bytes_eq
        rw [same, named_kind] at kind_eq
        exact proper kind_eq
      · have spelled := Munches.keyword listed stops
        rwa [bytesOf_textOfBytes_of_letters letters] at spelled
  | integer nonempty digits =>
      exact .integer nonempty digits ((endsBefore_integer_iff nonempty digits).mp ends)
  | @extended first second lone longer kinds equals =>
      have whole := WellFormed.extended kinds equals
      rcases extensibleKinds?_eq_some kinds with ⟨-, -, rfl⟩ | ⟨-, -, rfl⟩
      · rw [show [first, second] = bytesOf "==" from whole.bytes_eq rfl]
        exact .equal
      · rw [show [first, second] = bytesOf "!=" from whole.bytes_eq rfl]
        exact .notEqual
  | @lone first lone longer kinds =>
      have whole := WellFormed.lone kinds
      have stops := (endsBefore_lone_iff kinds).mp ends
      rcases extensibleKinds?_eq_some kinds with ⟨-, rfl, -⟩ | ⟨-, rfl, -⟩
      · rw [show [first] = bytesOf "=" from whole.bytes_eq rfl]
        exact .assign stops
      · rw [show [first] = bytesOf "!" from whole.bytes_eq rfl]
        exact .bang stops
  | sign kind_eq => exact .sign (mem_signs kind_eq)
  | illegal not_blank not_letter not_digit not_extensible not_sign =>
      exact .illegal not_blank not_letter not_digit
        (not_extensible_and_not_sign_iff.mp ⟨not_extensible, not_sign⟩)

/-- Bytes begin with at most one lexeme that ends where it has to. -/
theorem eq_of_append_eq {other : Lexeme} (wellFormed : lexeme.WellFormed)
    (ends : lexeme.EndsBefore after) (other_wellFormed : other.WellFormed)
    (other_ends : other.EndsBefore rest) (same : lexeme.bytes ++ after = other.bytes ++ rest) :
    lexeme = other ∧ after = rest := by
  obtain ⟨first, more, bytes_eq, -, cut_eq⟩ := cut_of_wellFormed wellFormed ends
  obtain ⟨other_first, other_more, other_eq, -, other_cut⟩ :=
    cut_of_wellFormed other_wellFormed other_ends
  rw [bytes_eq, other_eq] at same
  obtain ⟨rfl, tails⟩ := List.cons.inj same
  rw [List.append_eq, List.append_eq] at tails
  rw [tails, other_cut] at cut_eq
  obtain ⟨rfl, rfl⟩ := Prod.mk.inj cut_eq
  exact ⟨rfl, rfl⟩

end Lexeme

/-- No token covers a blank as its first byte. -/
theorem Munches.not_blank {kind : Token.Kind} {bytes : List UInt8} {next : Option UInt8}
    (munches : Munches kind bytes next) :
    ∃ first more, bytes = first :: more ∧ isBlank first = false := by
  have head_eq : next.toList.head? = next := by cases next <;> rfl
  rw [← head_eq] at munches
  obtain ⟨wellFormed, ends⟩ := Lexeme.wellFormed_of_munches munches
  obtain ⟨first, more, bytes_eq, not_blank, -⟩ := Lexeme.cut_of_wellFormed wellFormed ends
  exact ⟨first, more, bytes_eq, not_blank⟩

/-! ### Cutting up from an offset -/

/-- A span is known by the offsets of its ends. -/
theorem Span.eq_ofOffsets {span : Span} {start stop : Nat} (start_eq : span.start.offset = start)
    (stop_eq : span.stop.offset = stop) : span = .ofOffsets start stop := by
  obtain ⟨⟨first, first_le⟩, ⟨last, last_le⟩⟩ := span
  obtain rfl : first = start := start_eq
  obtain rfl : last = stop := stop_eq
  simp [ofOffsets, Position.ofOffset, Nat.min_eq_left first_le, Nat.min_eq_left last_le]

/-- The token of a lexeme that begins at an offset. -/
def Lexeme.tokenAt (lexeme : Lexeme) (offset : Nat) : Token :=
  ⟨lexeme.kind, lexeme.text, .ofOffsets offset (offset + lexeme.bytes.length)⟩

namespace CutsUp

variable {bytes rest : List UInt8} {byte : UInt8} {offset : Nat} {tokens others : List Token}
  {lexeme : Lexeme} {token : Token}

/-- At the end of the bytes there is no token left. -/
theorem nil_iff (ended : bytes.length ≤ offset) : CutsUp bytes offset tokens ↔ tokens = [] := by
  constructor
  · intro cuts
    cases tokens with
    | nil => rfl
    | cons token tokens =>
        obtain ⟨start_le, start_lt, stop_le⟩ := cuts.inside token List.mem_cons_self
        have lt : token.span.start.offset < token.span.stop.offset := start_lt
        omega
  · rintro rfl
    have none_inside {holds : Token → Prop} : ∀ token ∈ ([] : List Token), holds token := by simp
    refine ⟨.nil, none_inside, fun place byte le found => ?_, none_inside, none_inside⟩
    rw [List.getElem?_eq_none (by omega)] at found
    contradiction

/-- A blank belongs to no token. -/
theorem blank_iff (drop_eq : bytes.drop offset = byte :: rest) (is_blank : isBlank byte = true) :
    CutsUp bytes offset tokens ↔ CutsUp bytes (offset + 1) tokens := by
  constructor
  · intro cuts
    refine { cuts with
      inside := fun token mem => ?_
      between := fun place byte le => cuts.between place byte (by omega) }
    obtain ⟨start_le, start_lt, stop_le⟩ := cuts.inside token mem
    refine ⟨Nat.lt_of_le_of_ne start_le fun start_eq => ?_, start_lt, stop_le⟩
    obtain ⟨first, more, covered_eq, not_blank⟩ := (cuts.munched token mem).not_blank
    have lt : token.span.start.offset < token.span.stop.offset := start_lt
    obtain ⟨width, width_eq⟩ := Nat.exists_eq_add_of_lt lt
    rw [Token.covered, ← start_eq, drop_eq, width_eq, ← start_eq,
      show offset + width + 1 - offset = width + 1 by omega, List.take_succ_cons] at covered_eq
    rw [← (List.cons.inj covered_eq).1, is_blank] at not_blank
    contradiction
  · intro cuts
    refine { cuts with
      inside := fun token mem => ?_
      between := fun place other le found unoccupied => ?_ }
    · obtain ⟨start_le, start_lt, stop_le⟩ := cuts.inside token mem
      exact ⟨by omega, start_lt, stop_le⟩
    · rcases Nat.eq_or_lt_of_le le with rfl | lt
      · rw [← List.head?_drop, drop_eq] at found
        obtain rfl := Option.some.inj found
        exact is_blank
      · exact cuts.between place other lt found unoccupied

/-- A byte that is no blank is the first one of the next token. -/
theorem exists_head (cuts : CutsUp bytes offset tokens) (drop_eq : bytes.drop offset = byte :: rest)
    (not_blank : isBlank byte = false) :
    ∃ token others, tokens = token :: others ∧ token.span.start.offset = offset := by
  have found : bytes[offset]? = some byte := by
    rw [← List.head?_drop, drop_eq]
    rfl
  have occupied : ∃ token ∈ tokens, token.Occupies offset := by
    apply Classical.byContradiction
    intro unoccupied
    have is_blank := cuts.between offset byte (Nat.le_refl offset) found fun token mem occupies =>
      unoccupied ⟨token, mem, occupies⟩
    rw [not_blank] at is_blank
    contradiction
  obtain ⟨token, mem, start_le, lt_stop⟩ := occupied
  cases tokens with
  | nil => contradiction
  | cons head others =>
      refine ⟨head, others, rfl, ?_⟩
      obtain ⟨le_start, start_lt, -⟩ := cuts.inside head List.mem_cons_self
      rcases List.mem_cons.mp mem with rfl | mem
      · exact Nat.le_antisymm start_le le_start
      · have head_lt : head.span.start.offset < head.span.stop.offset := start_lt
        have in_order : head.span.stop.offset ≤ token.span.start.offset :=
          (List.pairwise_cons.mp cuts.ordered).1 token mem
        omega

theorem tail (cuts : CutsUp bytes offset (token :: others)) :
    CutsUp bytes token.span.stop.offset others := by
  obtain ⟨in_order, ordered⟩ := List.pairwise_cons.mp cuts.ordered
  obtain ⟨le_start, start_lt, -⟩ := cuts.inside token List.mem_cons_self
  have head_lt : token.span.start.offset < token.span.stop.offset := start_lt
  refine ⟨ordered, fun other mem => ?_, fun place byte le found unoccupied => ?_,
    fun other mem => cuts.munched other (List.mem_cons_of_mem token mem),
    fun other mem => cuts.spelled other (List.mem_cons_of_mem token mem)⟩
  · obtain ⟨-, other_lt, stop_le⟩ := cuts.inside other (List.mem_cons_of_mem token mem)
    exact ⟨in_order other mem, other_lt, stop_le⟩
  · refine cuts.between place byte (by omega) found fun other mem occupies => ?_
    rcases List.mem_cons.mp mem with rfl | mem
    · exact Nat.not_lt_of_le le occupies.2
    · exact unoccupied other mem occupies

/-- The next token is that of the lexeme with which the bytes go on. -/
theorem head_eq (cuts : CutsUp bytes offset (token :: others))
    (start_eq : token.span.start.offset = offset)
    (wellFormed : lexeme.WellFormed) (ends : lexeme.EndsBefore rest)
    (drop_eq : bytes.drop offset = lexeme.bytes ++ rest) : token = lexeme.tokenAt offset := by
  obtain ⟨-, start_lt, stop_le⟩ := cuts.inside token List.mem_cons_self
  have lt : token.span.start.offset < token.span.stop.offset := start_lt
  have split : token.covered bytes ++ bytes.drop token.span.stop.offset = bytes.drop offset := by
    rw [Token.covered, start_eq]
    have stop_eq : token.span.stop.offset = offset + (token.span.stop.offset - offset) := by omega
    rw [stop_eq, ← List.drop_drop, Nat.add_sub_cancel_left, List.take_append_drop]
  have munches := cuts.munched token List.mem_cons_self
  rw [← List.head?_drop] at munches
  obtain ⟨covered_wellFormed, covered_ends⟩ := Lexeme.wellFormed_of_munches munches
  obtain ⟨rfl, -⟩ := Lexeme.eq_of_append_eq covered_wellFormed covered_ends wellFormed ends
    (split.trans drop_eq)
  have stop_eq : token.span.stop.offset = offset + (token.covered bytes).length := by
    rw [Token.covered, List.length_take, List.length_drop, start_eq]
    omega
  have literal_eq : token.literal = Lexeme.text ⟨token.kind, token.covered bytes⟩ := by
    have spelled := cuts.spelled token List.mem_cons_self
    by_cases illegal : token.kind = .illegal
    · rw [if_pos illegal] at spelled
      rw [spelled, Lexeme.text, if_pos illegal]
    · rw [if_neg illegal] at spelled
      exact bytesOf_injective (spelled.trans (wellFormed.bytesOf_text illegal).symm)
  have span_eq := Span.eq_ofOffsets start_eq stop_eq
  obtain ⟨kind, literal, span⟩ := token
  exact (Token.mk.injEq ..).mpr ⟨rfl, literal_eq, span_eq⟩

/-- A lexeme within the bytes has a token with its own places. -/
theorem tokenAt_places (small : bytes.length ≤ maxOffset) (wellFormed : lexeme.WellFormed)
    (ends : lexeme.EndsBefore rest) (drop_eq : bytes.drop offset = lexeme.bytes ++ rest) :
    offset < offset + lexeme.bytes.length ∧ offset + lexeme.bytes.length ≤ bytes.length ∧
      (lexeme.tokenAt offset).span.start.offset = offset ∧
      (lexeme.tokenAt offset).span.stop.offset = offset + lexeme.bytes.length := by
  obtain ⟨first, more, bytes_eq, -⟩ := (wellFormed.munches ends).not_blank
  have positive : 0 < lexeme.bytes.length := by simp [bytes_eq]
  have lengths := congrArg List.length drop_eq
  rw [List.length_drop, List.length_append] at lengths
  refine ⟨by omega, by omega, Nat.min_eq_left ?_, Nat.min_eq_left ?_⟩
  · omega
  · omega

/-- The token of a lexeme may stand in front of tokens that cut up the bytes behind it. -/
theorem cons (small : bytes.length ≤ maxOffset) (wellFormed : lexeme.WellFormed)
    (ends : lexeme.EndsBefore rest) (drop_eq : bytes.drop offset = lexeme.bytes ++ rest)
    (cuts : CutsUp bytes (offset + lexeme.bytes.length) others) :
    CutsUp bytes offset (lexeme.tokenAt offset :: others) := by
  obtain ⟨lt_stop, stop_le, start_eq, stop_eq⟩ := tokenAt_places small wellFormed ends drop_eq
  have covered_eq : (lexeme.tokenAt offset).covered bytes = lexeme.bytes := by
    rw [Token.covered, stop_eq, start_eq, drop_eq, Nat.add_sub_cancel_left, List.take_left]
  have rest_eq : bytes[offset + lexeme.bytes.length]? = rest.head? := by
    rw [← List.head?_drop, ← List.drop_drop, drop_eq, List.drop_left]
  refine ⟨.cons (fun other mem => ?_) cuts.ordered, fun token mem => ?_,
    fun place byte le found unoccupied => ?_, fun token mem => ?_, fun token mem => ?_⟩
  · change (lexeme.tokenAt offset).span.stop.offset ≤ other.span.start.offset
    rw [stop_eq]
    exact (cuts.inside other mem).1
  · rcases List.mem_cons.mp mem with rfl | mem
    · refine ⟨Nat.le_of_eq start_eq.symm, ?_, stop_eq.symm ▸ stop_le⟩
      change (lexeme.tokenAt offset).span.start.offset < (lexeme.tokenAt offset).span.stop.offset
      rwa [start_eq, stop_eq]
    · obtain ⟨le_start, inside⟩ := cuts.inside token mem
      exact ⟨by omega, inside⟩
  · refine cuts.between place byte (Nat.le_of_not_lt fun lt => ?_) found fun other mem =>
      unoccupied other (List.mem_cons_of_mem _ mem)
    exact unoccupied _ List.mem_cons_self ⟨by omega, by omega⟩
  · rcases List.mem_cons.mp mem with rfl | mem
    · rw [covered_eq, stop_eq, rest_eq]
      exact wellFormed.munches ends
    · exact cuts.munched token mem
  · rcases List.mem_cons.mp mem with rfl | mem
    · rw [covered_eq]
      split
      · next illegal => exact if_pos illegal
      · next legal => exact wellFormed.bytesOf_text legal
    · exact cuts.spelled token mem

/-- From any place in a source text, the tokens that are read are the only ones to cut up the bytes
that are left. -/
theorem iff_eq_tokens (small : bytes.length ≤ maxOffset) (offset : Nat) (tokens : List Token) :
    CutsUp bytes offset tokens ↔ tokens = (⟨offset, bytes.drop offset⟩ : Lexer).tokens := by
  generalize drop_eq : bytes.drop offset = rest
  induction rest using Lexeme.bytes_induction generalizing offset tokens with
  | nil => rw [nil_iff (List.drop_eq_nil_iff.mp drop_eq), Lexer.tokens_nil]
  | blank byte rest is_blank ih =>
      have next_eq : bytes.drop (offset + 1) = rest := by
        rw [← List.drop_drop, drop_eq, List.drop_succ_cons, List.drop_zero]
      rw [blank_iff drop_eq is_blank, ih _ _ next_eq, Lexer.tokens_blank is_blank]
  | lexeme lexeme rest wellFormed ends ih =>
      have next_eq : bytes.drop (offset + lexeme.bytes.length) = rest := by
        rw [← List.drop_drop, drop_eq, List.drop_left]
      have others_iff (others : List Token) := ih (offset + lexeme.bytes.length) others next_eq
      rw [Lexer.tokens_of_next?_eq_some (Lexer.next?_lexeme wellFormed ends)]
      constructor
      · intro cuts
        obtain ⟨first, more, bytes_eq, not_blank⟩ := (wellFormed.munches ends).not_blank
        have first_eq : bytes.drop offset = first :: (more ++ rest) := by
          rw [drop_eq, bytes_eq, List.cons_append]
        obtain ⟨token, others, rfl, start_eq⟩ := cuts.exists_head first_eq not_blank
        obtain rfl := cuts.head_eq start_eq wellFormed ends drop_eq
        obtain ⟨-, -, -, stop_eq⟩ := tokenAt_places small wellFormed ends drop_eq
        have others_cut := cuts.tail
        rw [stop_eq, others_iff] at others_cut
        rw [others_cut]
        rfl
      · rintro rfl
        exact cons small wellFormed ends drop_eq ((others_iff _).mpr rfl)

end CutsUp

/-- Of two tokens of a source text, the later one begins further on. -/
theorem pairwise_start_lt_tokenize {source : String} (small : source.utf8ByteSize ≤ maxOffset) :
    (tokenize source).Pairwise fun first second => first.span.start < second.span.start := by
  have cuts : CutsUp (bytesOf source) 0 (Lexer.ofString source).tokens :=
    (CutsUp.iff_eq_tokens small 0 _).mpr rfl
  have start_lt (token : Token) (mem : token ∈ (Lexer.ofString source).tokens) :
      token.span.start.offset < token.span.stop.offset := (cuts.inside token mem).2.1
  refine List.pairwise_append.mpr
    ⟨?_, List.pairwise_singleton _ _, fun token mem last last_mem => ?_⟩
  · refine cuts.ordered.imp_of_mem fun {first second} mem _ in_order => ?_
    exact Nat.lt_of_lt_of_le (start_lt first mem) in_order
  · obtain rfl := List.mem_singleton.mp last_mem
    have last_start : (Token.endOfInput source.utf8ByteSize).span.start.offset =
        source.utf8ByteSize := Nat.min_eq_left small
    change token.span.start.offset < (Token.endOfInput source.utf8ByteSize).span.start.offset
    rw [last_start]
    exact Nat.lt_of_lt_of_le (start_lt token mem) (cuts.inside token mem).2.2

/-- The tokens of a source text are the only list that cuts its bytes up, with the end of the
input behind them. -/
theorem eq_tokenize_iff_cutsUp (source : String) (small : source.utf8ByteSize ≤ maxOffset)
    (tokens : List Token) :
    tokens = tokenize source ↔ ∃ front last, tokens = front ++ [last] ∧
      CutsUp (bytesOf source) 0 front ∧ (∀ token ∈ front, token.kind ≠ .endOfInput) ∧
      last.kind = .endOfInput ∧ last.literal = "" ∧
      last.span.start.offset = source.utf8ByteSize ∧
      last.span.stop.offset = source.utf8ByteSize := by
  have cuts_iff (front : List Token) :
      CutsUp (bytesOf source) 0 front ↔ front = (Lexer.ofString source).tokens :=
    CutsUp.iff_eq_tokens small 0 front
  constructor
  · rintro rfl
    refine ⟨_, _, rfl, (cuts_iff _).mpr rfl, fun token mem => Lexer.kind_ne_endOfInput mem, rfl,
      rfl, ?_, ?_⟩
    · exact Nat.min_eq_left small
    · exact Nat.min_eq_left small
  · rintro ⟨front, last, rfl, cuts, -, kind_eq, literal_eq, start_eq, stop_eq⟩
    obtain rfl := (cuts_iff front).mp cuts
    have span_eq := Span.eq_ofOffsets start_eq stop_eq
    obtain ⟨kind, literal, span⟩ := last
    have last_eq : Token.mk kind literal span = .endOfInput source.utf8ByteSize :=
      (Token.mk.injEq ..).mpr ⟨kind_eq, literal_eq, span_eq⟩
    rw [last_eq]
    rfl

/-- Touching signs, the two bytes of an accented letter and a null byte are told apart. -/
theorem eq_tokenize_iff_cutsUp_touching :
    "fn!==é\x00 ".utf8ByteSize ≤ maxOffset ∧
      ∃ front last, tokenize "fn!==é\x00 " = front ++ [last] ∧
        front.map (fun token => (token.kind, token.literal)) =
          [(.fnWord, "fn"), (.notEqual, "!="), (.assign, "="), (.illegal, ""), (.illegal, ""),
            (.illegal, "")] ∧
        CutsUp (bytesOf "fn!==é\x00 ") 0 front ∧ last.span = .ofOffsets 9 9 := by
  have small : "fn!==é\x00 ".utf8ByteSize ≤ maxOffset := by decide
  obtain ⟨front, last, tokens_eq, cuts, -, -, -, start_eq, stop_eq⟩ :=
    (eq_tokenize_iff_cutsUp "fn!==é\x00 " small _).mp rfl
  refine ⟨small, front, last, tokens_eq, ?_, cuts, Span.eq_ofOffsets start_eq stop_eq⟩
  have front_eq : front = (tokenize "fn!==é\x00 ").dropLast := by simp [tokens_eq]
  rw [front_eq]
  decide +kernel

end MonkeySyntax
