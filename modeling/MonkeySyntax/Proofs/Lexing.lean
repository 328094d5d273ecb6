import MonkeySyntax.Proofs.Encoding

/-!
# Lexemes and the places where they end

A lexeme belongs to one of six classes, and a lexer ends it in front of the first byte that does
not extend it.  The two facts characterise how a token is read: the bytes passed are blanks and a
lexeme, and what stands behind them matters by its first byte only.
-/

namespace MonkeySyntax

/-- A word has no kind but that of an identifier or of a keyword. -/
theorem Token.Kind.ofWord_ne {kind : Kind}
    (other : kind ≠ .identifier ∧ ∀ named ∈ keywords, named.2 ≠ kind) (word : String) :
    ofWord word ≠ kind := by
  rcases ofWord_eq_identifier_or_mem word with kind_eq | listed
  · rw [kind_eq]
    exact other.1.symm
  · exact other.2 _ listed

namespace Lexeme

/-- A lexeme belongs to the class that its kind says. -/
inductive WellFormed : Lexeme → Prop where
  | word {bytes : List UInt8} (nonempty : bytes ≠ []) (letters : ∀ byte ∈ bytes, isLetter byte) :
      WellFormed ⟨.ofWord (textOfBytes bytes), bytes⟩
  | integer {bytes : List UInt8} (nonempty : bytes ≠ []) (digits : ∀ byte ∈ bytes, isDigit byte) :
      WellFormed ⟨.integer, bytes⟩
  | extended {first second : UInt8} {lone longer : Token.Kind}
      (kinds : extensibleKinds? (charOfByte first) = some (lone, longer))
      (equals : charOfByte second = '=') : WellFormed ⟨longer, [first, second]⟩
  | lone {first : UInt8} {lone longer : Token.Kind}
      (kinds : extensibleKinds? (charOfByte first) = some (lone, longer)) :
      WellFormed ⟨lone, [first]⟩
  | sign {first : UInt8} {kind : Token.Kind} (kind_eq : signKind? (charOfByte first) = some kind) :
      WellFormed ⟨kind, [first]⟩
  | illegal {first : UInt8} (not_blank : isBlank first = false)
      (not_letter : isLetter first = false) (not_digit : isDigit first = false)
      (not_extensible : extensibleKinds? (charOfByte first) = none)
      (not_sign : signKind? (charOfByte first) = none) : WellFormed ⟨.illegal, [first]⟩

/-- The text of the lexemes of a kind, if they all have the same one. -/
def fixedText? : Token.Kind → Option String
  | .illegal | .endOfInput | .identifier | .integer => none
  | .assign => some "="
  | .plus => some "+"
  | .minus => some "-"
  | .bang => some "!"
  | .asterisk => some "*"
  | .slash => some "/"
  | .less => some "<"
  | .greater => some ">"
  | .equal => some "=="
  | .notEqual => some "!="
  | .comma => some ","
  | .semicolon => some ";"
  | .openParen => some "("
  | .closeParen => some ")"
  | .openBrace => some "\x7b"
  | .closeBrace => some "\x7d"
  | .fnWord => some "fn"
  | .letWord => some "let"
  | .returnWord => some "return"
  | .ifWord => some "if"
  | .elseWord => some "else"
  | .trueWord => some "true"
  | .falseWord => some "false"

/-- The signs that stand for themselves, whatever follows them, and their kinds. -/
def signs : List (Char × Token.Kind) :=
  [('(', .openParen), (')', .closeParen), ('{', .openBrace), ('}', .closeBrace), (',', .comma),
    (';', .semicolon), ('+', .plus), ('-', .minus), ('*', .asterisk), ('/', .slash), ('<', .less),
    ('>', .greater)]

theorem fixedText?_of_mem_signs :
    ∀ sign ∈ signs, fixedText? sign.2 = some (String.ofList [sign.1]) := by
  decide

theorem fixedText?_of_mem_keywords :
    ∀ named ∈ Token.Kind.keywords, fixedText? named.2 = some named.1 := by
  decide

/-- Whether a byte behind a lexeme would be part of it. -/
def extendedBy (lexeme : Lexeme) (next : UInt8) : Bool :=
  match lexeme.bytes with
  | [] => false
  | first :: more =>
      if isLetter first then isLetter next
      else if isDigit first then isDigit next
      else more.isEmpty && (extensibleKinds? (charOfByte first)).isSome && charOfByte next == '='

/-- The bytes behind a lexeme do not extend it. -/
def EndsBefore (lexeme : Lexeme) (after : List UInt8) : Prop :=
  ∀ next ∈ after.head?, lexeme.extendedBy next = false

section

variable {first byte : UInt8} {rest after : List UInt8} {lexeme : Lexeme}
  {kind lone longer : Token.Kind} {char : Char}

theorem extensibleKinds?_eq_some (kinds : extensibleKinds? char = some (lone, longer)) :
    char = '=' ∧ lone = .assign ∧ longer = .equal ∨
      char = '!' ∧ lone = .bang ∧ longer = .notEqual := by
  unfold extensibleKinds? at kinds
  split at kinds <;> simp_all

theorem mem_signs (kind_eq : signKind? char = some kind) : (char, kind) ∈ signs := by
  unfold signKind? at kind_eq
  split at kind_eq <;> simp_all [signs]

/-! ### The classes of first bytes exclude each other -/

theorem not_blank_of_letter (letter : isLetter first) : isBlank first = false := by
  rw [Bool.eq_false_iff]
  intro blank
  simp only [isBlank, List.mem_cons, List.not_mem_nil, or_false, decide_eq_true_eq] at blank
  rcases blank with char_eq | char_eq | char_eq | char_eq <;>
    simp [isLetter, char_eq] at letter

theorem not_blank_of_digit (digit : isDigit first) : isBlank first = false := by
  rw [Bool.eq_false_iff]
  intro blank
  simp only [isBlank, List.mem_cons, List.not_mem_nil, or_false, decide_eq_true_eq] at blank
  rcases blank with char_eq | char_eq | char_eq | char_eq <;>
    simp [isDigit, char_eq] at digit

theorem code_of_letter (letter : isLetter byte) :
    65 ≤ byte.toNat ∧ byte.toNat ≤ 90 ∨ byte.toNat = 95 ∨
      97 ≤ byte.toNat ∧ byte.toNat ≤ 122 := by
  rw [← toNat_charOfByte]
  unfold isLetter at letter
  generalize charOfByte byte = char at letter
  rcases (Bool.or_eq_true _ _).mp letter with alpha | underscore
  · have upper_or_lower : char.isUpper = true ∨ char.isLower = true :=
      (Bool.or_eq_true _ _).mp alpha
    rcases upper_or_lower with upper | lower
    · have bounds : char.val ≥ 'A'.val ∧ char.val ≤ 'Z'.val := of_decide_eq_true upper
      exact .inl ⟨UInt32.le_iff_toNat_le.mp bounds.1, UInt32.le_iff_toNat_le.mp bounds.2⟩
    · have bounds := (Bool.and_eq_true _ _).mp lower
      exact .inr (.inr ⟨UInt32.le_iff_toNat_le.mp (of_decide_eq_true bounds.1),
        UInt32.le_iff_toNat_le.mp (of_decide_eq_true bounds.2)⟩)
  · rw [eq_of_beq underscore]
    exact .inr (.inl rfl)

theorem code_of_digit (digit : isDigit byte) : 48 ≤ byte.toNat ∧ byte.toNat ≤ 57 := by
  rw [← toNat_charOfByte]
  have bounds := (Bool.and_eq_true _ _).mp digit
  exact ⟨UInt32.le_iff_toNat_le.mp (of_decide_eq_true bounds.1),
    UInt32.le_iff_toNat_le.mp (of_decide_eq_true bounds.2)⟩

theorem not_letter_of_digit (digit : isDigit byte) : isLetter byte = false := by
  rw [Bool.eq_false_iff]
  intro letter
  have letter_code := code_of_letter letter
  have digit_code := code_of_digit digit
  omega

theorem classes_of_extensible (kinds : extensibleKinds? (charOfByte first) = some (lone, longer)) :
    isBlank first = false ∧ isLetter first = false ∧ isDigit first = false := by
  rcases extensibleKinds?_eq_some kinds with ⟨char_eq, -, -⟩ | ⟨char_eq, -, -⟩ <;>
    simp only [isBlank, isLetter, isDigit, char_eq] <;> decide

theorem classes_of_sign (kind_eq : signKind? (charOfByte first) = some kind) :
    isBlank first = false ∧ isLetter first = false ∧ isDigit first = false ∧
      extensibleKinds? (charOfByte first) = none := by
  have classes : ∀ sign ∈ signs, decide (sign.1 ∈ [' ', '\t', '\n', '\r']) = false ∧
      (sign.1.isAlpha || sign.1 == '_') = false ∧ sign.1.isDigit = false ∧
      extensibleKinds? sign.1 = none := by
    decide
  exact classes _ (mem_signs kind_eq)

/-! ### Cutting -/

/-- A run of one class ends in front of the first byte of another. -/
theorem run_append {ofClass : UInt8 → Bool} {more : List UInt8}
    (inside : ∀ byte ∈ more, ofClass byte) (outside : ∀ next ∈ after.head?, ofClass next = false) :
    (more ++ after).takeWhile ofClass = more ∧ (more ++ after).dropWhile ofClass = after := by
  rw [List.takeWhile_append_of_pos inside, List.dropWhile_append_of_pos inside]
  cases after with
  | nil => simp
  | cons next after => simp [outside next rfl]

theorem run_ends (ofClass : UInt8 → Bool) (bytes : List UInt8) :
    ∀ next ∈ (bytes.dropWhile ofClass).head?, ofClass next = false := by
  intro next mem
  have outside := List.head?_dropWhile_not ofClass bytes
  rwa [Option.mem_def.mp mem] at outside

theorem run_class {ofClass : UInt8 → Bool} (holds : ofClass first) :
    ∀ byte ∈ run ofClass first rest, ofClass byte := by
  intro byte mem
  rcases List.mem_cons.mp mem with rfl | mem
  · exact holds
  · exact List.all_eq_true.mp List.all_takeWhile byte mem

/-- A lexeme that is cut off belongs to its class, and what is left does not extend it. -/
theorem wellFormed_cut (not_blank : isBlank first = false) :
    (cut first rest).1.WellFormed ∧ (cut first rest).1.EndsBefore (cut first rest).2 := by
  unfold cut
  by_cases letter : isLetter first
  · rw [if_pos letter]
    refine ⟨.word (List.cons_ne_nil _ _) (run_class letter), fun next mem => ?_⟩
    simpa [extendedBy, run, letter] using run_ends isLetter rest next mem
  by_cases digit : isDigit first
  · rw [if_neg letter, if_pos digit]
    refine ⟨.integer (List.cons_ne_nil _ _) (run_class digit), fun next mem => ?_⟩
    simpa [extendedBy, run, letter, digit] using run_ends isDigit rest next mem
  rw [if_neg letter, if_neg digit]
  split
  · next lone extended next after kinds =>
      split
      · next equals =>
          exact ⟨.extended kinds equals, fun _ _ => by simp [extendedBy, letter, digit]⟩
      · next unequal =>
          refine ⟨.lone kinds, fun other mem => ?_⟩
          obtain rfl : next = other := by simpa using mem
          simp [extendedBy, letter, digit, unequal]
  · next lone extended kinds => exact ⟨.lone kinds, fun _ mem => by simp at mem⟩
  · next kinds =>
      refine ⟨?_, fun _ _ => by simp [extendedBy, letter, digit, kinds]⟩
      cases kind_eq : signKind? (charOfByte first) with
      | some kind => exact .sign kind_eq
      | none =>
          exact .illegal not_blank (Bool.eq_false_iff.mpr letter) (Bool.eq_false_iff.mpr digit)
            kinds kind_eq

/-- A lexeme in front of bytes that do not extend it is cut off. -/
theorem cut_of_wellFormed (wellFormed : lexeme.WellFormed) (ends : lexeme.EndsBefore after) :
    ∃ first more, lexeme.bytes = first :: more ∧ isBlank first = false ∧
      cut first (more ++ after) = (lexeme, after) := by
  cases wellFormed with
  | @word bytes nonempty letters =>
      obtain ⟨first, more, rfl⟩ := List.exists_cons_of_ne_nil nonempty
      have letter := letters first List.mem_cons_self
      have outside : ∀ next ∈ after.head?, isLetter next = false := by
        simpa [EndsBefore, extendedBy, letter] using ends
      obtain ⟨taken, dropped⟩ :=
        run_append (fun byte mem => letters byte (List.mem_cons_of_mem first mem)) outside
      refine ⟨first, more, rfl, not_blank_of_letter letter, ?_⟩
      simp [cut, letter, run, taken, dropped]
  | @integer bytes nonempty digits =>
      obtain ⟨first, more, rfl⟩ := List.exists_cons_of_ne_nil nonempty
      have digit := digits first List.mem_cons_self
      have not_letter := not_letter_of_digit digit
      have outside : ∀ next ∈ after.head?, isDigit next = false := by
        simpa [EndsBefore, extendedBy, not_letter, digit] using ends
      obtain ⟨taken, dropped⟩ :=
        run_append (fun byte mem => digits byte (List.mem_cons_of_mem first mem)) outside
      refine ⟨first, more, rfl, not_blank_of_digit digit, ?_⟩
      simp [cut, not_letter, digit, run, taken, dropped]
  | @extended first second lone _ kinds equals =>
      obtain ⟨not_blank, not_letter, not_digit⟩ := classes_of_extensible kinds
      refine ⟨first, [second], rfl, not_blank, ?_⟩
      simp [cut, not_letter, not_digit, kinds, equals]
  | @lone first _ longer kinds =>
      obtain ⟨not_blank, not_letter, not_digit⟩ := classes_of_extensible kinds
      refine ⟨first, [], rfl, not_blank, ?_⟩
      cases after with
      | nil => simp [cut, not_letter, not_digit, kinds]
      | cons next after =>
          have unequal : charOfByte next ≠ '=' := by
            simpa [extendedBy, not_letter, not_digit, kinds] using ends next rfl
          simp [cut, not_letter, not_digit, kinds, unequal]
  | @sign first kind kind_eq =>
      obtain ⟨not_blank, not_letter, not_digit, not_extensible⟩ := classes_of_sign kind_eq
      refine ⟨first, [], rfl, not_blank, ?_⟩
      simp [cut, not_letter, not_digit, not_extensible, kind_eq]
  | @illegal first not_blank not_letter not_digit not_extensible not_sign =>
      refine ⟨first, [], rfl, not_blank, ?_⟩
      simp [cut, not_letter, not_digit, not_extensible, not_sign]

theorem WellFormed.isDigit_of_kind (wellFormed : lexeme.WellFormed)
    (kind_eq : lexeme.kind = .integer) :
    lexeme.bytes ≠ [] ∧ ∀ byte ∈ lexeme.bytes, isDigit byte = true := by
  cases wellFormed with
  | word _ _ => exact absurd kind_eq (Token.Kind.ofWord_ne (by decide) _)
  | integer nonempty digits => exact ⟨nonempty, digits⟩
  | extended kinds _ | lone kinds =>
      rcases extensibleKinds?_eq_some kinds with ⟨-, rfl, rfl⟩ | ⟨-, rfl, rfl⟩ <;> contradiction
  | sign sign_eq =>
      obtain rfl := kind_eq
      have listed := mem_signs sign_eq
      simp [signs] at listed
  | illegal _ _ _ _ _ => contradiction

theorem WellFormed.kind_ne_endOfInput (wellFormed : lexeme.WellFormed) :
    lexeme.kind ≠ .endOfInput := by
  cases wellFormed with
  | word _ _ => exact Token.Kind.ofWord_ne (by decide) _
  | integer _ _ | illegal _ _ _ _ _ => exact nofun
  | extended kinds _ | lone kinds =>
      rcases extensibleKinds?_eq_some kinds with ⟨-, rfl, rfl⟩ | ⟨-, rfl, rfl⟩ <;> exact nofun
  | sign kind_eq =>
      have proper : ∀ sign ∈ signs, sign.2 ≠ .endOfInput := by decide
      exact proper _ (mem_signs kind_eq)

theorem isAscii_of_char (char_eq : charOfByte byte = char) (small : char.toNat < 128) :
    IsAscii byte := by
  rwa [← char_eq, toNat_charOfByte] at small

theorem isAscii_of_letter (letter : isLetter byte) : IsAscii byte := by
  have code := code_of_letter letter
  unfold IsAscii
  omega

theorem isAscii_of_digit (digit : isDigit byte) : IsAscii byte := by
  have code := code_of_digit digit
  unfold IsAscii
  omega

theorem isAscii_of_extensible (kinds : extensibleKinds? (charOfByte byte) = some (lone, longer)) :
    IsAscii byte := by
  rcases extensibleKinds?_eq_some kinds with ⟨char_eq, -, -⟩ | ⟨char_eq, -, -⟩
  · exact isAscii_of_char char_eq (by decide)
  · exact isAscii_of_char char_eq (by decide)

theorem isAscii_of_sign (kind_eq : signKind? (charOfByte byte) = some kind) : IsAscii byte := by
  have small : ∀ sign ∈ signs, sign.1.toNat < 128 := by decide
  exact isAscii_of_char rfl (small _ (mem_signs kind_eq))

theorem WellFormed.bytes_ne_nil (wellFormed : lexeme.WellFormed) : lexeme.bytes ≠ [] := by
  cases wellFormed with
  | word nonempty _ | integer nonempty _ => exact nonempty
  | extended _ _ | lone _ | sign _ | illegal _ _ _ _ _ => exact List.cons_ne_nil _ _

theorem WellFormed.isAscii (wellFormed : lexeme.WellFormed) (legal : lexeme.kind ≠ .illegal) :
    ∀ byte ∈ lexeme.bytes, IsAscii byte := by
  cases wellFormed with
  | word _ letters => exact fun byte mem => isAscii_of_letter (letters byte mem)
  | integer _ digits => exact fun byte mem => isAscii_of_digit (digits byte mem)
  | extended kinds equals =>
      simp only [List.mem_cons, List.not_mem_nil, or_false, forall_eq_or_imp, forall_eq]
      exact ⟨isAscii_of_extensible kinds, isAscii_of_char equals (by decide)⟩
  | lone kinds => simpa using isAscii_of_extensible kinds
  | sign kind_eq => simpa using isAscii_of_sign kind_eq
  | illegal _ _ _ _ _ => exact absurd rfl legal

/-- The bytes of a lexeme can be told from its text, unless it is illegal. -/
theorem WellFormed.bytesOf_text (wellFormed : lexeme.WellFormed) (legal : lexeme.kind ≠ .illegal) :
    bytesOf lexeme.text = lexeme.bytes := by
  rw [text, if_neg legal]
  exact bytesOf_textOfBytes (wellFormed.isAscii legal)

/-- A kind with a fixed text has lexemes with no other text. -/
theorem WellFormed.text_eq {fixed : String} (wellFormed : lexeme.WellFormed)
    (fixed_eq : fixedText? lexeme.kind = some fixed) : lexeme.text = fixed := by
  have legal : lexeme.kind ≠ .illegal := by
    intro kind_eq
    rw [kind_eq] at fixed_eq
    contradiction
  rw [text, if_neg legal]
  cases wellFormed with
  | @word bytes _ _ =>
      rcases Token.Kind.ofWord_eq_identifier_or_mem (textOfBytes bytes) with kind_eq | listed
      · rw [show Token.Kind.ofWord (textOfBytes bytes) = .identifier from kind_eq] at fixed_eq
        contradiction
      · exact Option.some.inj ((fixedText?_of_mem_keywords _ listed).symm.trans fixed_eq)
  | integer _ _ | illegal _ _ _ _ _ => contradiction
  | extended kinds equals =>
      rcases extensibleKinds?_eq_some kinds with ⟨char_eq, -, rfl⟩ | ⟨char_eq, -, rfl⟩ <;>
        simpa [textOfBytes, char_eq, equals] using Option.some.inj fixed_eq
  | lone kinds =>
      rcases extensibleKinds?_eq_some kinds with ⟨char_eq, rfl, -⟩ | ⟨char_eq, rfl, -⟩ <;>
        simpa [textOfBytes, char_eq] using Option.some.inj fixed_eq
  | sign kind_eq =>
      exact Option.some.inj ((fixedText?_of_mem_signs _ (mem_signs kind_eq)).symm.trans fixed_eq)

theorem WellFormed.bytes_eq {fixed : String} (wellFormed : lexeme.WellFormed)
    (fixed_eq : fixedText? lexeme.kind = some fixed) : lexeme.bytes = bytesOf fixed := by
  have legal : lexeme.kind ≠ .illegal := by
    intro kind_eq
    rw [kind_eq] at fixed_eq
    contradiction
  rw [← wellFormed.text_eq fixed_eq, wellFormed.bytesOf_text legal]

theorem EndsBefore.of_append {more : List UInt8} (ends : lexeme.EndsBefore (rest ++ more)) :
    lexeme.EndsBefore rest := by
  intro next mem
  exact ends next (by rw [List.head?_append, Option.mem_def.mp mem]; rfl)

end

/-- Any bytes are blanks and lexemes one after another, each lexeme as long as possible. -/
theorem bytes_induction {motive : List UInt8 → Prop} (nil : motive [])
    (blank : ∀ byte rest, isBlank byte = true → motive rest → motive (byte :: rest))
    (lexeme : ∀ (lexeme : Lexeme) rest, lexeme.WellFormed → lexeme.EndsBefore rest →
      motive rest → motive (lexeme.bytes ++ rest)) (bytes : List UInt8) : motive bytes := by
  induction length : bytes.length using Nat.strongRecOn generalizing bytes with
  | ind length ih =>
      cases bytes with
      | nil => exact nil
      | cons first rest =>
          by_cases is_blank : isBlank first
          · exact blank first rest is_blank (ih rest.length (by simp at length; omega) rest rfl)
          · obtain ⟨wellFormed, ends⟩ := @wellFormed_cut first rest (Bool.eq_false_iff.mpr is_blank)
            have shorter := length_cut_le first rest
            rw [← cut_append first rest]
            exact lexeme _ _ wellFormed ends (ih _ (by simp at length; omega) _ rfl)

end Lexeme

namespace Token

/-- A token without its place. -/
def erase (token : Token) : Token :=
  { token with span := {} }

@[simp]
theorem kind_erase (token : Token) : token.erase.kind = token.kind := rfl

@[simp]
theorem literal_erase (token : Token) : token.erase.literal = token.literal := rfl

theorem kind_eq_of_erase {token other : Token} (same : token.erase = other.erase) :
    token.kind = other.kind :=
  (congrArg kind same : token.erase.kind = other.erase.kind)

theorem literal_eq_of_erase {token other : Token} (same : token.erase = other.erase) :
    token.literal = other.literal :=
  (congrArg literal same : token.erase.literal = other.erase.literal)

end Token

/-- The token of a lexeme, without a place. -/
def Lexeme.token (lexeme : Lexeme) : Token :=
  ⟨lexeme.kind, lexeme.text, {}⟩

/-- Bytes spell tokens if they are blanks and lexemes, each lexeme as long as possible. -/
inductive Spells : List UInt8 → List Token → Prop where
  | nil : Spells [] []
  | blank {byte : UInt8} {rest : List UInt8} {tokens : List Token} (is_blank : isBlank byte)
      (others : Spells rest tokens) : Spells (byte :: rest) tokens
  | lexeme {lexeme : Lexeme} {rest : List UInt8} {tokens : List Token}
      (wellFormed : lexeme.WellFormed) (ends : lexeme.EndsBefore rest)
      (others : Spells rest tokens) : Spells (lexeme.bytes ++ rest) (lexeme.token :: tokens)

/-- What is known of a token that was read: kind and text are those of a lexeme. -/
def Token.IsLexed (token : Token) : Prop :=
  ∃ lexeme : Lexeme, lexeme.WellFormed ∧ token.erase = lexeme.token

theorem Token.IsLexed.literal_eq {token : Token} {fixed : String} (lexed : token.IsLexed)
    (fixed_eq : Lexeme.fixedText? token.kind = some fixed) : token.literal = fixed := by
  obtain ⟨lexeme, wellFormed, erase_eq⟩ := lexed
  have kind_eq : token.kind = lexeme.kind := congrArg Token.kind erase_eq
  have literal_eq : token.literal = lexeme.text := congrArg Token.literal erase_eq
  rw [literal_eq]
  exact wellFormed.text_eq (kind_eq ▸ fixed_eq)

namespace Lexer

variable {lexer after : Lexer} {token : Token} {offset : Nat} {byte : UInt8} {rest : List UInt8}
  {lexeme : Lexeme} {tokens : List Token}

/-! ### The next token -/

theorem next?_blank (is_blank : isBlank byte) :
    (⟨offset, byte :: rest⟩ : Lexer).next? = (⟨offset + 1, rest⟩ : Lexer).next? := by
  have shift : offset + ((rest.takeWhile isBlank).length + 1) =
      offset + 1 + (rest.takeWhile isBlank).length := by
    omega
  simp only [next?, List.dropWhile_cons_of_pos is_blank, List.takeWhile_cons_of_pos is_blank,
    List.length_cons, shift]

theorem next?_lexeme (wellFormed : lexeme.WellFormed) (ends : lexeme.EndsBefore rest) :
    (⟨offset, lexeme.bytes ++ rest⟩ : Lexer).next? =
      some (⟨lexeme.kind, lexeme.text, .ofOffsets offset (offset + lexeme.bytes.length)⟩,
        ⟨offset + lexeme.bytes.length, rest⟩) := by
  obtain ⟨first, more, bytes_eq, not_blank, cut_eq⟩ := Lexeme.cut_of_wellFormed wellFormed ends
  simp [next?, bytes_eq, not_blank, cut_eq]

theorem tokens_of_next?_eq_none (read : lexer.next? = none) : lexer.tokens = [] := by
  rw [tokens]
  split
  · rfl
  · next found => simp [read] at found

@[simp]
theorem tokens_nil (offset : Nat) : (⟨offset, []⟩ : Lexer).tokens = [] :=
  tokens_of_next?_eq_none rfl

theorem tokens_of_next?_eq_some (read : lexer.next? = some (token, after)) :
    lexer.tokens = token :: after.tokens := by
  rw [tokens]
  split
  · next found => simp [read] at found
  · next found =>
      obtain ⟨rfl, rfl⟩ := Prod.mk.inj (Option.some.inj (read.symm.trans found))
      rfl

theorem tokens_blank (is_blank : isBlank byte) :
    (⟨offset, byte :: rest⟩ : Lexer).tokens = (⟨offset + 1, rest⟩ : Lexer).tokens := by
  have same := @next?_blank offset byte rest is_blank
  cases read : (⟨offset + 1, rest⟩ : Lexer).next? with
  | none => rw [tokens_of_next?_eq_none read, tokens_of_next?_eq_none (same.trans read)]
  | some found => rw [tokens_of_next?_eq_some read, tokens_of_next?_eq_some (same.trans read)]

/-- Bytes are read as the tokens that they spell. -/
theorem tokens_of_spells (spells : Spells rest tokens) (offset : Nat) :
    (⟨offset, rest⟩ : Lexer).tokens.map Token.erase = tokens := by
  induction spells generalizing offset with
  | nil => rw [tokens_nil, List.map_nil]
  | blank is_blank _ ih => rw [tokens_blank is_blank, ih]
  | lexeme wellFormed ends _ ih =>
      rw [tokens_of_next?_eq_some (next?_lexeme wellFormed ends), List.map_cons, ih]
      rfl

theorem isLexed_of_mem_tokens (mem : token ∈ lexer.tokens) : token.IsLexed := by
  obtain ⟨offset, rest⟩ := lexer
  induction rest using Lexeme.bytes_induction generalizing offset with
  | nil => simp at mem
  | blank byte rest is_blank ih => exact ih (offset + 1) (by rwa [tokens_blank is_blank] at mem)
  | lexeme lexeme rest wellFormed ends ih =>
      rw [tokens_of_next?_eq_some (next?_lexeme wellFormed ends), List.mem_cons] at mem
      rcases mem with rfl | mem
      · exact ⟨lexeme, wellFormed, rfl⟩
      · exact ih _ mem

theorem kind_ne_endOfInput (mem : token ∈ lexer.tokens) :
    token.kind ≠ .endOfInput := by
  obtain ⟨lexeme, wellFormed, erase_eq⟩ := isLexed_of_mem_tokens mem
  have kind_eq : token.kind = lexeme.kind := congrArg Token.kind erase_eq
  rw [kind_eq]
  exact wellFormed.kind_ne_endOfInput

/-! ### Places between tokens -/

/-- From one place in a source text to another, some tokens are read. -/
inductive Scans : Lexer → List Token → Lexer → Prop where
  | done (lexer : Lexer) : Scans lexer [] lexer
  | next {lexer between after : Lexer} {token : Token} {tokens : List Token}
      (read : lexer.next? = some (token, between)) (others : Scans between tokens after) :
      Scans lexer (token :: tokens) after

theorem Scans.tokens_eq (scans : Scans lexer tokens after) :
    lexer.tokens = tokens ++ after.tokens := by
  induction scans with
  | done lexer => rfl
  | next read _ ih => rw [tokens_of_next?_eq_some read, ih, List.cons_append]

theorem Scans.eq_of_nil (scans : Scans lexer [] after) : after = lexer := by
  cases scans
  rfl

theorem exists_scans {back : List Token} (split : lexer.tokens = tokens ++ back) :
    ∃ after, Scans lexer tokens after := by
  induction tokens generalizing lexer with
  | nil => exact ⟨lexer, .done lexer⟩
  | cons token tokens ih =>
      cases read : lexer.next? with
      | none => simp [tokens_of_next?_eq_none read] at split
      | some found =>
          obtain ⟨first, between⟩ := found
          rw [tokens_of_next?_eq_some read, List.cons_append] at split
          obtain ⟨rfl, others⟩ := List.cons.inj split
          obtain ⟨after, scans⟩ := ih others
          exact ⟨after, .next read scans⟩

/-- A token depends only on the bytes that it takes, blanks before it included. -/
theorem exists_lexeme_of_next? (read : lexer.next? = some (token, after)) :
    ∃ (blanks : List UInt8) (lexeme : Lexeme), lexeme.WellFormed ∧ token.erase = lexeme.token ∧
      lexer.rest = blanks ++ lexeme.bytes ++ after.rest ∧
      after.offset = lexer.offset + (blanks ++ lexeme.bytes).length ∧
      ∀ more less, after.rest = more ++ less →
        (⟨lexer.offset, blanks ++ lexeme.bytes ++ more⟩ : Lexer).next? =
          some (token, ⟨after.offset, more⟩) := by
  obtain ⟨offset, rest⟩ := lexer
  induction rest using Lexeme.bytes_induction generalizing offset with
  | nil => exact absurd read nofun
  | blank byte rest is_blank ih =>
      rw [next?_blank is_blank] at read
      obtain ⟨blanks, lexeme, wellFormed, token_eq, rest_eq, offset_eq, run_eq⟩ := ih _ read
      refine ⟨byte :: blanks, lexeme, wellFormed, token_eq, congrArg (byte :: ·) rest_eq, ?_,
        fun more less more_eq => ?_⟩
      · simp only [List.cons_append, List.length_cons] at offset_eq ⊢
        omega
      · rw [List.cons_append, List.cons_append, next?_blank is_blank, run_eq more less more_eq]
  | lexeme lexeme rest wellFormed ends ih =>
      rw [next?_lexeme wellFormed ends] at read
      obtain ⟨rfl, rfl⟩ := Prod.mk.inj (Option.some.inj read)
      refine ⟨[], lexeme, wellFormed, rfl, rfl, rfl, fun more less more_eq => ?_⟩
      have ends_more : lexeme.EndsBefore (more ++ less) := more_eq ▸ ends
      rw [List.nil_append, next?_lexeme wellFormed ends_more.of_append]

/-- Tokens are read from the bytes that they take, whatever comes after those; the bytes end with
the last lexeme. -/
theorem Scans.exists_used (scans : Scans lexer tokens after) :
    ∃ used, lexer.rest = used ++ after.rest ∧ after.offset = lexer.offset + used.length ∧
      Scans ⟨lexer.offset, used⟩ tokens ⟨after.offset, []⟩ ∧
      ∀ last ∈ tokens.getLast?, ∃ front, ∃ lexeme : Lexeme, lexeme.WellFormed ∧
        last.erase = lexeme.token ∧ used = front ++ lexeme.bytes := by
  induction scans with
  | done lexer => exact ⟨[], rfl, rfl, .done _, nofun⟩
  | @next lexer between after token tokens read _ ih =>
      obtain ⟨used, between_eq, offset_eq, scans, ends⟩ := ih
      obtain ⟨blanks, lexeme, wellFormed, token_eq, rest_eq, between_offset, run_eq⟩ :=
        exists_lexeme_of_next? read
      have first_read := run_eq used after.rest between_eq
      refine ⟨blanks ++ lexeme.bytes ++ used, ?_, ?_, .next first_read scans, fun last mem => ?_⟩
      · rw [rest_eq, between_eq, List.append_assoc _ used]
      · simp only [offset_eq, between_offset, List.length_append, Nat.add_assoc]
      · cases tokens with
        | nil =>
            obtain ⟨-, rfl⟩ := Lexer.mk.inj scans.eq_of_nil
            obtain rfl : token = last := by simpa using mem
            exact ⟨blanks, lexeme, wellFormed, token_eq, by simp⟩
        | cons second tokens =>
            rw [List.getLast?_cons_cons] at mem
            obtain ⟨front, final, final_wellFormed, last_eq, used_eq⟩ := ends last mem
            exact ⟨blanks ++ lexeme.bytes ++ front, final, final_wellFormed, last_eq,
              by rw [used_eq, List.append_assoc _ front]⟩

end Lexer

end MonkeySyntax
