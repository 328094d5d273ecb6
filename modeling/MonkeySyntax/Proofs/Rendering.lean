import MonkeySyntax.Proofs.Coherence

/-!
# Rendered trees are spelled right

The text of a coherent tree spells the tokens of the tree, with the parentheses, commas and signs
that the rendering puts around them.  No two tokens run together: a word is followed by a blank or
a sign, and an operator by a blank or an operand.
-/

namespace MonkeySyntax

/-- The bytes go on with neither a letter nor a digit. -/
def Outside (bytes : List UInt8) : Prop :=
  ∀ next ∈ bytes.head?, isLetter next = false ∧ isDigit next = false

namespace Lexeme

variable {lexeme : Lexeme} {next byte : UInt8} {rest : List UInt8}

theorem extendedBy_eq_true (extended : lexeme.extendedBy next = true) :
    isLetter next = true ∨ isDigit next = true ∨ charOfByte next = '=' := by
  unfold extendedBy at extended
  split at extended
  · contradiction
  · split at extended
    · exact .inl extended
    · split at extended
      · exact .inr (.inl extended)
      · simp only [Bool.and_eq_true, beq_iff_eq] at extended
        exact .inr (.inr extended.2)

theorem endsBefore_blank (is_blank : isBlank byte = true) : lexeme.EndsBefore (byte :: rest) := by
  intro next mem
  obtain rfl : byte = next := by simpa using mem
  rw [Bool.eq_false_iff]
  intro extended
  rcases extendedBy_eq_true extended with letter | digit | equals
  · rw [not_blank_of_letter letter] at is_blank
    contradiction
  · rw [not_blank_of_digit digit] at is_blank
    contradiction
  · simp [isBlank, equals] at is_blank

theorem WellFormed.endsBefore_outside (wellFormed : lexeme.WellFormed)
    (kind_eq : lexeme.kind = .identifier ∨ lexeme.kind = .integer ∨ lexeme.kind = .trueWord ∨
      lexeme.kind = .falseWord) (outside : Outside rest) : lexeme.EndsBefore rest := by
  intro next mem
  obtain ⟨not_letter, not_digit⟩ := outside next mem
  cases wellFormed with
  | @word bytes nonempty letters =>
      obtain ⟨first, more, rfl⟩ := List.exists_cons_of_ne_nil nonempty
      simp [extendedBy, letters first List.mem_cons_self, not_letter]
  | @integer bytes nonempty digits =>
      obtain ⟨first, more, rfl⟩ := List.exists_cons_of_ne_nil nonempty
      have digit := digits first List.mem_cons_self
      simp [extendedBy, not_letter_of_digit digit, digit, not_digit]
  | extended kinds _ | lone kinds =>
      rcases extensibleKinds?_eq_some kinds with ⟨-, rfl, rfl⟩ | ⟨-, rfl, rfl⟩ <;> simp at kind_eq
  | sign sign_eq =>
      have listed := mem_signs sign_eq
      rcases kind_eq with rfl | rfl | rfl | rfl <;> simp [signs] at listed
  | illegal _ _ _ _ _ => simp at kind_eq

/-- The lexemes `!` and `-` end in front of anything but `=`. -/
theorem WellFormed.endsBefore_operand (wellFormed : lexeme.WellFormed)
    (kind_eq : lexeme.kind = .bang ∨ lexeme.kind = .minus)
    (unequal : ∀ next ∈ rest.head?, charOfByte next ≠ '=') : lexeme.EndsBefore rest := by
  intro next mem
  have not_equals : (charOfByte next == '=') = false := beq_false_of_ne (unequal next mem)
  rcases kind_eq with kind_eq | kind_eq
  · have bytes_eq : lexeme.bytes = bytesOf "!" := wellFormed.bytes_eq (by rw [kind_eq]; rfl)
    rw [extendedBy, bytes_eq]
    exact not_equals
  · have bytes_eq : lexeme.bytes = bytesOf "-" := wellFormed.bytes_eq (by rw [kind_eq]; rfl)
    rw [extendedBy, bytes_eq]
    rfl

/-- Only the lexemes `=` and `==` begin with an equals sign. -/
theorem WellFormed.first_ne_equals (wellFormed : lexeme.WellFormed)
    (ne_assign : lexeme.kind ≠ .assign) (ne_equal : lexeme.kind ≠ .equal) :
    ∃ first more, lexeme.bytes = first :: more ∧ charOfByte first ≠ '=' := by
  cases wellFormed with
  | @word bytes nonempty letters =>
      obtain ⟨first, more, rfl⟩ := List.exists_cons_of_ne_nil nonempty
      refine ⟨first, more, rfl, fun equals => ?_⟩
      simpa [isLetter, equals] using letters first List.mem_cons_self
  | @integer bytes nonempty digits =>
      obtain ⟨first, more, rfl⟩ := List.exists_cons_of_ne_nil nonempty
      refine ⟨first, more, rfl, fun equals => ?_⟩
      simpa [isDigit, equals] using digits first List.mem_cons_self
  | @extended first second _ _ kinds _ =>
      refine ⟨first, [second], rfl, fun equals => ?_⟩
      rcases extensibleKinds?_eq_some kinds with ⟨-, -, rfl⟩ | ⟨bang, -, -⟩
      · contradiction
      · simp [bang] at equals
  | @lone first _ _ kinds =>
      refine ⟨first, [], rfl, fun equals => ?_⟩
      rcases extensibleKinds?_eq_some kinds with ⟨-, rfl, -⟩ | ⟨bang, -, -⟩
      · contradiction
      · simp [bang] at equals
  | @sign first kind sign_eq =>
      refine ⟨first, [], rfl, fun equals => ?_⟩
      simp [equals, signKind?] at sign_eq
  | @illegal first _ _ _ not_extensible _ =>
      refine ⟨first, [], rfl, fun equals => ?_⟩
      simp [equals, extensibleKinds?] at not_extensible

end Lexeme

/-! ### Texts of parts -/

namespace Spells

variable {byte : UInt8} {rest : List UInt8} {tokens : List Token} {kind : Token.Kind}

theorem sign (kind_eq : Lexeme.signKind? (charOfByte byte) = some kind)
    (others : Spells rest tokens) :
    Spells (byte :: rest) (⟨kind, textOfBytes [byte], {}⟩ :: tokens) := by
  obtain ⟨-, not_letter, not_digit, not_extensible⟩ := Lexeme.classes_of_sign kind_eq
  have wellFormed := Lexeme.WellFormed.sign kind_eq
  have ends : (⟨kind, [byte]⟩ : Lexeme).EndsBefore rest := by
    intro next _
    simp [Lexeme.extendedBy, not_letter, not_digit, not_extensible]
  have legal : kind ≠ .illegal := by
    rintro rfl
    simpa [Lexeme.signs] using Lexeme.mem_signs kind_eq
  have spelled := Spells.lexeme wellFormed ends others
  rwa [Lexeme.token, Lexeme.text, if_neg legal] at spelled

end Spells

namespace Token

/-- The parenthesis in front of a group or an argument list. -/
def opening : Token := ⟨.openParen, "(", {}⟩

/-- The parenthesis behind a group or an argument list. -/
def closing : Token := ⟨.closeParen, ")", {}⟩

/-- The comma between two arguments. -/
def comma : Token := ⟨.comma, ",", {}⟩

/-- The sign between a name and its value. -/
def assign : Token := ⟨.assign, "=", {}⟩

/-- The sign behind a statement. -/
def semicolon : Token := ⟨.semicolon, ";", {}⟩

end Token

/-- A text of blanks and signs spells tokens in front of anything, and no word goes on into it. -/
structure Separator (text : String) (tokens : List Token) : Prop where
  spells : ∀ {rest others}, Spells rest others → Spells (bytesOf text ++ rest) (tokens ++ others)
  outside : ∀ rest, Outside (bytesOf text ++ rest)

namespace Separator

theorem of_cons {text : String} {tokens : List Token} {first : UInt8} {more : List UInt8}
    (text_eq : bytesOf text = first :: more) (not_letter : isLetter first = false)
    (not_digit : isDigit first = false)
    (spells : ∀ {rest others}, Spells rest others →
      Spells (bytesOf text ++ rest) (tokens ++ others)) : Separator text tokens := by
  refine ⟨spells, fun rest next mem => ?_⟩
  rw [text_eq] at mem
  obtain rfl : first = next := by simpa using mem
  exact ⟨not_letter, not_digit⟩

theorem blank : Separator " " [] :=
  of_cons rfl rfl rfl (.blank rfl)

theorem opening : Separator "(" [.opening] :=
  of_cons rfl rfl rfl (.sign rfl)

theorem closing : Separator ")" [.closing] :=
  of_cons rfl rfl rfl (.sign rfl)

theorem semicolon : Separator ";" [.semicolon] :=
  of_cons rfl rfl rfl (.sign rfl)

theorem comma : Separator ", " [.comma] :=
  of_cons rfl rfl rfl fun others => .sign rfl (.blank rfl others)

theorem assign : Separator " = " [.assign] := by
  have wellFormed : (⟨.assign, [61]⟩ : Lexeme).WellFormed := .lone rfl
  exact of_cons rfl rfl rfl fun others =>
    .blank rfl (.lexeme wellFormed (Lexeme.endsBefore_blank rfl) (.blank rfl others))

end Separator

/-- Tokens of list elements with a comma between each two. -/
def commaJoined : List (List Token) → List Token
  | [] => []
  | word :: words => word ++ words.flatMap (.comma :: ·)

namespace Expr

mutual

/-- The tokens in the text of an expression. -/
def shown : Expr → List Token
  | identifier name => [name.token.erase]
  | integer token _ => [token.erase]
  | boolean token _ => [token.erase]
  | unary token _ right => .opening :: (token.erase :: shown right) ++ [.closing]
  | binary token _ left right =>
      .opening :: (shown left ++ token.erase :: shown right) ++ [.closing]
  | call token function arguments =>
      shown function ++ (token.erase :: commaJoined (shownAll arguments) ++ [.closing])

/-- The tokens in the texts of several expressions. -/
def shownAll : List Expr → List (List Token)
  | [] => []
  | expr :: rest => shown expr :: shownAll rest

end

@[simp]
theorem shownAll_eq_map (exprs : List Expr) : shownAll exprs = exprs.map shown := by
  induction exprs with
  | nil => rfl
  | cons expr rest ih => simp [shownAll, ih]

end Expr

/-- The tokens in the text of a statement. -/
def Stmt.shown : Stmt → List Token
  | binding token name value =>
      token.erase :: name.token.erase :: .assign :: value.shown ++ [.semicolon]
  | result token value => token.erase :: value.shown ++ [.semicolon]
  | expression _ expr => expr.shown ++ [.semicolon]

/-- A text that spells tokens in front of anything but letters and digits, and that begins with
something else than an equals sign. -/
structure Wording (text : String) (tokens : List Token) : Prop where
  spells : ∀ {rest others}, Outside rest → Spells rest others →
    Spells (bytesOf text ++ rest) (tokens ++ others)
  begins : ∃ first more, bytesOf text = first :: more ∧ charOfByte first ≠ '='

namespace Token.IsLexed

variable {token : Token}

/-- A token that was read is the token of the lexeme that its text spells. -/
theorem exists_lexeme (lexed : token.IsLexed) (legal : token.kind ≠ .illegal) :
    ∃ lexeme : Lexeme, lexeme.WellFormed ∧ lexeme.token = token.erase ∧
      lexeme.kind = token.kind ∧ lexeme.bytes = bytesOf token.literal := by
  obtain ⟨lexeme, wellFormed, erase_eq⟩ := lexed
  have kind_eq : token.kind = lexeme.kind := congrArg Token.kind erase_eq
  have literal_eq : token.literal = lexeme.text := congrArg Token.literal erase_eq
  refine ⟨lexeme, wellFormed, erase_eq.symm, kind_eq.symm, ?_⟩
  rw [literal_eq, wellFormed.bytesOf_text (kind_eq ▸ legal)]

/-- In front of a blank, every token is spelled by its text. -/
theorem spells_blank {rest : List UInt8} {tokens : List Token} (lexed : token.IsLexed)
    (legal : token.kind ≠ .illegal) (others : Spells rest tokens) :
    Spells (bytesOf token.literal ++ (bytesOf " " ++ rest)) (token.erase :: tokens) := by
  obtain ⟨lexeme, wellFormed, token_eq, -, bytes_eq⟩ := lexed.exists_lexeme legal
  rw [← bytes_eq, ← token_eq]
  exact .lexeme wellFormed (Lexeme.endsBefore_blank rfl) (Separator.blank.spells others)

end Token.IsLexed

namespace Wording

variable {text first second : String} {tokens firstTokens secondTokens : List Token} {token : Token}

theorem value (lexed : token.IsLexed)
    (kind_eq : token.kind = .identifier ∨ token.kind = .integer ∨ token.kind = .trueWord ∨
      token.kind = .falseWord) : Wording token.literal [token.erase] := by
  have legal : token.kind ≠ .illegal := by
    rcases kind_eq with kind_eq | kind_eq | kind_eq | kind_eq <;> rw [kind_eq] <;> exact nofun
  obtain ⟨lexeme, wellFormed, token_eq, lexeme_kind, bytes_eq⟩ := lexed.exists_lexeme legal
  rw [← lexeme_kind] at kind_eq
  constructor
  · intro rest others outside spells
    rw [← bytes_eq, ← token_eq]
    exact .lexeme wellFormed (wellFormed.endsBefore_outside kind_eq outside) spells
  · rw [← bytes_eq]
    refine wellFormed.first_ne_equals ?_ ?_
    · rcases kind_eq with kind_eq | kind_eq | kind_eq | kind_eq <;> rw [kind_eq] <;> exact nofun
    · rcases kind_eq with kind_eq | kind_eq | kind_eq | kind_eq <;> rw [kind_eq] <;> exact nofun

/-- In front of a separator, a wording spells its tokens. -/
theorem before {separator : String} {marks others : List Token} {rest : List UInt8}
    (wording : Wording text tokens) (separates : Separator separator marks)
    (spells : Spells rest others) :
    Spells (bytesOf text ++ (bytesOf separator ++ rest)) (tokens ++ (marks ++ others)) :=
  wording.spells (separates.outside rest) (separates.spells spells)

theorem begins_append (wording : Wording first firstTokens) (second : String) :
    ∃ byte more, bytesOf (first ++ second) = byte :: more ∧ charOfByte byte ≠ '=' := by
  obtain ⟨byte, more, bytes_eq, ne⟩ := wording.begins
  exact ⟨byte, more ++ bytesOf second, by rw [bytesOf_append, bytes_eq, List.cons_append], ne⟩

theorem unary (lexed : token.IsLexed) (kind_eq : token.kind = .bang ∨ token.kind = .minus)
    (right : Wording text tokens) : Wording (token.literal ++ text) (token.erase :: tokens) := by
  have legal : token.kind ≠ .illegal := by
    rcases kind_eq with kind_eq | kind_eq <;> rw [kind_eq] <;> exact nofun
  obtain ⟨lexeme, wellFormed, token_eq, lexeme_kind, bytes_eq⟩ := lexed.exists_lexeme legal
  obtain ⟨first, more, text_eq, unequal⟩ := right.begins
  rw [← lexeme_kind] at kind_eq
  constructor
  · intro rest others outside spells
    rw [bytesOf_append, List.append_assoc, ← bytes_eq, ← token_eq]
    refine .lexeme wellFormed (wellFormed.endsBefore_operand kind_eq ?_)
      (right.spells outside spells)
    simpa [text_eq] using unequal
  · obtain ⟨byte, others, lexeme_eq, ne⟩ := wellFormed.first_ne_equals
      (by rcases kind_eq with kind_eq | kind_eq <;> rw [kind_eq] <;> exact nofun)
      (by rcases kind_eq with kind_eq | kind_eq <;> rw [kind_eq] <;> exact nofun)
    exact ⟨byte, others ++ bytesOf text,
      by rw [bytesOf_append, ← bytes_eq, lexeme_eq, List.cons_append], ne⟩

theorem binary (lexed : token.IsLexed) (legal : token.kind ≠ .illegal)
    (left : Wording first firstTokens) (right : Wording second secondTokens) :
    Wording (first ++ " " ++ token.literal ++ " " ++ second)
      (firstTokens ++ token.erase :: secondTokens) := by
  constructor
  · intro rest others outside spells
    have operator := lexed.spells_blank legal (right.spells outside spells)
    have whole := left.before .blank operator
    simpa only [bytesOf_append, List.append_assoc, List.cons_append, List.nil_append] using whole
  · simpa only [String.append_assoc] using left.begins_append _

/-- Parentheses may stand around any wording. -/
theorem group (inside : Wording text tokens) :
    Wording ("(" ++ text ++ ")") (.opening :: tokens ++ [.closing]) := by
  constructor
  · intro rest others _ spells
    have whole := Separator.opening.spells (inside.before .closing spells)
    simpa only [bytesOf_append, List.append_assoc, List.cons_append, List.nil_append] using whole
  · refine ⟨40, bytesOf text ++ bytesOf ")", ?_, by decide⟩
    rw [bytesOf_append, bytesOf_append]
    rfl

/-- The arguments of a call are spelled one after another. -/
theorem spells_arguments {arguments : List Expr} {rest : List UInt8} {others : List Token}
    (each : ∀ argument ∈ arguments, Wording argument.render argument.shown)
    (outside : Outside rest) (spells : Spells rest others) :
    Spells (bytesOf (", ".intercalate (arguments.map Expr.render)) ++ rest)
      (commaJoined (arguments.map Expr.shown) ++ others) := by
  induction arguments with
  | nil => exact spells
  | cons argument arguments ih =>
      have head := each argument List.mem_cons_self
      have tail := ih fun other mem => each other (List.mem_cons_of_mem argument mem)
      cases arguments with
      | nil => simpa [commaJoined] using head.spells outside spells
      | cons next arguments =>
          have whole := head.before .comma tail
          simp only [List.map_cons, String.intercalate_cons_cons, bytesOf_append,
            List.append_assoc]
          simpa [commaJoined] using whole

theorem call {arguments : List Expr} (callee : Wording first firstTokens)
    (each : ∀ argument ∈ arguments, Wording argument.render argument.shown) :
    Wording (first ++ "(" ++ ", ".intercalate (arguments.map Expr.render) ++ ")")
      (firstTokens ++ (.opening :: commaJoined (arguments.map Expr.shown) ++ [.closing])) := by
  constructor
  · intro rest others _ spells
    have inside := spells_arguments each (Separator.closing.outside rest)
      (Separator.closing.spells spells)
    have whole := callee.before .opening inside
    simpa only [bytesOf_append, List.append_assoc, List.cons_append, List.nil_append] using whole
  · simpa only [String.append_assoc] using callee.begins_append _

end Wording

/-- The text of a coherent expression spells its tokens. -/
theorem Expr.Coherent.wording {expr : Expr} (coherent : expr.Coherent) :
    Wording expr.render expr.shown := by
  induction coherent with
  | identifier lexed kind_eq => exact .value lexed (.inl kind_eq)
  | integer lexed kind_eq _ => exact .value lexed (.inr (.inl kind_eq))
  | @boolean token lexed kind_eq =>
      have literal_eq : token.literal = toString (decide (token.kind = .trueWord)) := by
        rcases kind_eq with kind_eq | kind_eq <;>
          exact lexed.literal_eq (by rw [kind_eq]; rfl)
      rw [render, ← literal_eq]
      exact .value lexed (.inr (.inr kind_eq))
  | unary lexed kind_eq _ ih =>
      have inside := (Wording.unary lexed kind_eq ih).group
      simpa only [render, shown, String.append_assoc] using inside
  | @binary stratum token left right lexed kind_mem _ _ left_ih right_ih =>
      have legal : token.kind ≠ .illegal := by
        intro illegal
        rw [illegal] at kind_mem
        cases stratum <;> simp [Stratum.operators] at kind_mem
      have inside := (Wording.binary lexed legal left_ih right_ih).group
      simpa only [render, shown, String.append_assoc] using inside
  | @call token function arguments lexed kind_eq _ _ callee_ih each_ih =>
      have erase_eq : token.erase = .opening := by
        rw [Token.erase, lexed.literal_eq (by rw [kind_eq]; rfl), kind_eq]
        rfl
      have whole := callee_ih.call each_ih
      simpa only [render, shown, renderAll_eq_map, shownAll_eq_map, erase_eq] using whole

/-- The text of a coherent statement spells its tokens in front of anything. -/
theorem Stmt.Coherent.spells {stmt : Stmt} {rest : List UInt8} {tokens : List Token}
    (coherent : stmt.Coherent) (others : Spells rest tokens) :
    Spells (bytesOf stmt.render ++ rest) (stmt.shown ++ tokens) := by
  cases coherent with
  | binding keyword_lexed keyword_kind name_lexed name_kind bound =>
      have value := bound.wording.before .semicolon others
      have name := (Wording.value name_lexed (.inl name_kind)).before .assign value
      have whole := keyword_lexed.spells_blank (by simp [keyword_kind]) name
      simpa only [render, shown, bytesOf_append, List.append_assoc, List.cons_append,
        List.nil_append] using whole
  | result keyword_lexed keyword_kind returned =>
      have value := returned.wording.before .semicolon others
      have whole := keyword_lexed.spells_blank (by simp [keyword_kind]) value
      simpa only [render, shown, bytesOf_append, List.append_assoc, List.cons_append,
        List.nil_append] using whole
  | expression coherent =>
      have whole := coherent.wording.before .semicolon others
      simpa only [render, shown, bytesOf_append, List.append_assoc, List.cons_append,
        List.nil_append] using whole

/-- The text of a program spells the tokens of its statements one after another. -/
theorem Program.spells_render {program : Program}
    (coherent : ∀ stmt ∈ program.statements, stmt.Coherent) :
    Spells (bytesOf program.render) (program.statements.flatMap Stmt.shown) := by
  obtain ⟨statements⟩ := program
  induction statements with
  | nil => exact .nil
  | cons stmt statements ih =>
      have head := coherent stmt List.mem_cons_self
      have tail := ih fun other mem => coherent other (List.mem_cons_of_mem stmt mem)
      rw [render, List.map_cons, String.join_cons, bytesOf_append, List.flatMap_cons]
      exact head.spells tail

end MonkeySyntax
