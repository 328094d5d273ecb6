import Mathlib.Data.Nat.Digits.Defs
import MonkeySyntax.Proofs.Height
import MonkeySyntax.Proofs.MaximalMunch
import MonkeySyntax.Proofs.RoundTrip

/-!
# What nodes and their tokens say

A node keeps the token that it was read from and, beside it, a copy of what the token says: a name,
a value or an operator.  The copy is right in every node of every program that is read.  For numbers
the meaning of a token is told here without a parser, as the number that its digits denote.
-/

namespace MonkeySyntax

/-! ### Names and numerals -/

/-- A text of letters and underscores, one at least, that is no keyword. -/
structure IsName (text : String) : Prop where
  /-- There is a character. -/
  nonempty : text ≠ ""
  /-- Every character is a letter or an underscore. -/
  letters : ∀ char ∈ text.toList, char.isAlpha = true ∨ char = '_'
  /-- The text is not listed as a keyword. -/
  unlisted : ∀ named ∈ Token.Kind.keywords, text ≠ named.1

/-- A text of decimal digits, one at least, that denotes a number.  Zeros may stand in front. -/
structure IsNumeral (text : String) (value : Nat) : Prop where
  /-- There is a digit. -/
  nonempty : text ≠ ""
  /-- Every character is a digit. -/
  digits : ∀ char ∈ text.toList, char.isDigit = true
  /-- The last digit counts ones, the one before it tens, and so on. -/
  value_eq : value = Nat.ofDigits 10 (text.toList.reverse.map fun char => char.toNat - '0'.toNat)

theorem decimalValue_eq_ofDigits (digits : List Char) :
    decimalValue digits =
      Nat.ofDigits 10 (digits.reverse.map fun char => char.toNat - '0'.toNat) := by
  rw [decimalValue, List.foldl_eq_foldr_reverse, Nat.ofDigits_eq_foldr, List.foldr_map]
  congr
  funext digit value
  exact Nat.add_comm _ _

theorem decimal?_eq_some_iff {text : String} {value : Nat} :
    decimal? text = some value ↔ IsNumeral text value := by
  have nonempty_iff : text.toList ≠ [] ↔ text ≠ "" := by simp
  constructor
  · intro found
    simp only [decimal?, decimalValue_eq_ofDigits, Option.ite_none_right_eq_some,
      Option.some.injEq] at found
    obtain ⟨⟨nonempty, digits⟩, value_eq⟩ := found
    exact ⟨nonempty_iff.mp nonempty, List.all_eq_true.mp digits, value_eq.symm⟩
  · rintro ⟨nonempty, digits, value_eq⟩
    have reads : text.toList ≠ [] ∧ text.toList.all Char.isDigit = true :=
      ⟨nonempty_iff.mpr nonempty, List.all_eq_true.mpr digits⟩
    simp only [decimal?, decimalValue_eq_ofDigits, if_pos reads, value_eq]

/-- A text has a value as an integer if it is a numeral for one that is small enough. -/
theorem integerValue?_eq_some_iff_isNumeral {text : String} {value : Nat} :
    integerValue? text = some value ↔ IsNumeral text value ∧ value ≤ 2 ^ 63 - 1 := by
  rw [integerValue?_eq_some_iff, decimal?_eq_some_iff]
  rfl

/-! ### What tokens say -/

theorem Lexeme.WellFormed.isName_of_kind {lexeme : Lexeme} (wellFormed : lexeme.WellFormed)
    (kind_eq : lexeme.kind = .identifier) : IsName lexeme.text := by
  have legal : lexeme.kind ≠ .illegal := by simp [kind_eq]
  rw [text, if_neg legal]
  cases wellFormed with
  | @word bytes nonempty letters =>
      refine ⟨by simpa [textOfBytes] using nonempty, fun char mem => ?_, fun named listed => ?_⟩
      · rw [textOfBytes, String.toList_ofList] at mem
        obtain ⟨byte, byte_mem, rfl⟩ := List.mem_map.mp mem
        simpa [isLetter] using letters byte byte_mem
      · intro text_eq
        obtain ⟨-, -, named_kind, proper⟩ := keyword_spelling named listed
        have spelling : textOfBytes (bytesOf named.1) = textOfBytes bytes := by
          rw [← text_eq, bytesOf_textOfBytes_of_letters letters]
        rw [spelling] at named_kind
        exact proper (named_kind.symm.trans kind_eq)
  | integer _ _ | illegal _ _ _ _ _ => contradiction
  | extended kinds _ | lone kinds =>
      rcases extensibleKinds?_eq_some kinds with ⟨-, rfl, rfl⟩ | ⟨-, rfl, rfl⟩ <;> contradiction
  | sign sign_eq =>
      have proper : ∀ sign ∈ signs, sign.2 ≠ .identifier := by decide
      exact absurd kind_eq (proper _ (mem_signs sign_eq))

theorem Token.IsLexed.isName {token : Token} (lexed : token.IsLexed)
    (kind_eq : token.kind = .identifier) : IsName token.literal := by
  obtain ⟨lexeme, wellFormed, erase_eq⟩ := lexed
  have lexeme_kind : lexeme.kind = .identifier :=
    (congrArg Token.kind erase_eq).symm.trans kind_eq
  have literal_eq : token.literal = lexeme.text := congrArg Token.literal erase_eq
  rw [literal_eq]
  exact wellFormed.isName_of_kind lexeme_kind

/-- Only the text of an integer is a numeral. -/
theorem Lexeme.WellFormed.kind_of_isNumeral {lexeme : Lexeme} {value : Nat}
    (wellFormed : lexeme.WellFormed) (numeral : IsNumeral lexeme.text value) :
    lexeme.kind = .integer := by
  have legal : lexeme.kind ≠ .illegal := fun kind_eq =>
    numeral.nonempty (by rw [text, if_pos kind_eq])
  have digits : ∀ byte ∈ lexeme.bytes, isDigit byte = true := by
    intro byte mem
    refine numeral.digits (charOfByte byte) ?_
    rw [text, if_neg legal, textOfBytes, String.toList_ofList]
    exact List.mem_map_of_mem mem
  cases wellFormed with
  | @word bytes nonempty letters =>
      obtain ⟨first, more, rfl⟩ := List.exists_cons_of_ne_nil nonempty
      have not_letter := not_letter_of_digit (digits first List.mem_cons_self)
      rw [letters first List.mem_cons_self] at not_letter
      contradiction
  | integer _ _ => rfl
  | extended kinds _ | lone kinds =>
      have not_digit := (classes_of_extensible kinds).2.2
      rw [digits _ List.mem_cons_self] at not_digit
      contradiction
  | sign kind_eq =>
      have not_digit := (classes_of_sign kind_eq).2.2.1
      rw [digits _ List.mem_cons_self] at not_digit
      contradiction
  | illegal _ _ _ _ _ => contradiction

/-! ### What nodes say -/

/-- A name is what its token says. -/
structure Identifier.MeansToken (name : Identifier) : Prop where
  /-- The token is that of a name. -/
  kind_eq : name.token.kind = .identifier
  /-- The name is the text of the token. -/
  value_eq : name.value = name.token.literal
  /-- The name is one. -/
  isName : IsName name.value

/-- What the node at the root of an expression says is what its token says. -/
def Expr.MeansToken : Expr → Prop
  | identifier name => name.MeansToken
  | integer token value =>
      token.kind = .integer ∧ 0 ≤ value ∧ value ≤ 2 ^ 63 - 1 ∧
        ∃ number, IsNumeral token.literal number ∧ value = number
  | boolean token value =>
      (token.kind = .trueWord ∧ token.literal = "true" ∧ value = true ∨
        token.kind = .falseWord ∧ token.literal = "false" ∧ value = false) ∧
      (boolean token value).render = token.literal
  | unary token operator _ =>
      operator = token.literal ∧ (token.kind = .bang ∨ token.kind = .minus)
  | binary token operator _ _ =>
      operator = token.literal ∧ token.kind ∈
        [.equal, .notEqual, .less, .greater, .plus, .minus, .asterisk, .slash]
  | call token _ _ => token.kind = .openParen

/-- A statement begins with the keyword of its kind, and a name that it binds is what its token
says. -/
def Stmt.MeansToken : Stmt → Prop
  | binding token name _ =>
      token.kind = .letWord ∧ token.literal = "let" ∧ name.MeansToken
  | result token _ => token.kind = .returnWord ∧ token.literal = "return"
  | expression _ _ => True

namespace Expr

mutual

/-- An expression and all expressions within it. -/
def nodes : Expr → List Expr
  | identifier name => [identifier name]
  | integer token value => [integer token value]
  | boolean token value => [boolean token value]
  | unary token operator right => unary token operator right :: nodes right
  | binary token operator left right =>
      binary token operator left right :: (nodes left ++ nodes right)
  | call token function arguments =>
      call token function arguments :: (nodes function ++ nodesAll arguments)

/-- Several expressions and all expressions within them. -/
def nodesAll : List Expr → List Expr
  | [] => []
  | expr :: rest => nodes expr ++ nodesAll rest

end

theorem nodesAll_eq_flatMap (exprs : List Expr) : nodesAll exprs = exprs.flatMap nodes := by
  induction exprs with
  | nil => rfl
  | cons expr rest ih => rw [nodesAll, List.flatMap_cons, ih]

/-- In a coherent expression every node is the root of a coherent one. -/
theorem Coherent.of_mem_nodes {expr node : Expr} (coherent : expr.Coherent)
    (mem : node ∈ expr.nodes) : node.Coherent := by
  induction coherent with
  | identifier lexed kind_eq =>
      obtain rfl := List.mem_singleton.mp mem
      exact .identifier lexed kind_eq
  | integer lexed kind_eq value_eq =>
      obtain rfl := List.mem_singleton.mp mem
      exact .integer lexed kind_eq value_eq
  | boolean lexed kind_eq =>
      obtain rfl := List.mem_singleton.mp mem
      exact .boolean lexed kind_eq
  | unary lexed kind_eq operand ih =>
      rcases List.mem_cons.mp mem with rfl | mem
      · exact .unary lexed kind_eq operand
      · exact ih mem
  | binary lexed kind_mem first second first_ih second_ih =>
      rcases List.mem_cons.mp mem with rfl | mem
      · exact .binary lexed kind_mem first second
      · exact (List.mem_append.mp mem).elim first_ih second_ih
  | call lexed kind_eq callee each callee_ih each_ih =>
      rcases List.mem_cons.mp mem with rfl | mem
      · exact .call lexed kind_eq callee each
      · rcases List.mem_append.mp mem with mem | mem
        · exact callee_ih mem
        · rw [nodesAll_eq_flatMap] at mem
          obtain ⟨argument, argument_mem, mem⟩ := List.mem_flatMap.mp mem
          exact each_ih argument argument_mem mem

end Expr

theorem Token.IsLexed.identifier_meansToken {token : Token} (lexed : token.IsLexed)
    (kind_eq : token.kind = .identifier) : Identifier.MeansToken ⟨token, token.literal⟩ :=
  ⟨kind_eq, rfl, lexed.isName kind_eq⟩

theorem Expr.Coherent.meansToken {expr : Expr} (coherent : expr.Coherent) : expr.MeansToken := by
  cases coherent with
  | identifier lexed kind_eq => exact lexed.identifier_meansToken kind_eq
  | @integer token value _ kind_eq value_eq =>
      obtain ⟨numeral, small⟩ := integerValue?_eq_some_iff_isNumeral.mp value_eq
      exact ⟨kind_eq, Int.natCast_nonneg value, Int.ofNat_le.mpr small, value, numeral, rfl⟩
  | @boolean token lexed kind_eq =>
      rcases kind_eq with kind_eq | kind_eq
      · have literal_eq : token.literal = "true" := lexed.literal_eq (by rw [kind_eq]; rfl)
        refine ⟨.inl ⟨kind_eq, literal_eq, by simp [kind_eq]⟩, ?_⟩
        rw [literal_eq, kind_eq]
        rfl
      · have literal_eq : token.literal = "false" := lexed.literal_eq (by rw [kind_eq]; rfl)
        refine ⟨.inr ⟨kind_eq, literal_eq, by simp [kind_eq]⟩, ?_⟩
        rw [literal_eq, kind_eq]
        rfl
  | unary _ kind_eq _ => exact ⟨rfl, kind_eq⟩
  | @binary stratum token _ _ _ kind_mem _ _ =>
      refine ⟨rfl, ?_⟩
      revert kind_mem
      generalize token.kind = kind
      revert kind
      cases stratum <;> simp [Stratum.operators]
  | call _ kind_eq _ _ => exact kind_eq

theorem Stmt.Coherent.meansToken {stmt : Stmt} (coherent : stmt.Coherent) :
    stmt.MeansToken ∧ stmt.value.Coherent := by
  cases coherent with
  | binding keyword_lexed keyword_kind name_lexed name_kind bound =>
      have literal_eq := keyword_lexed.literal_eq (by rw [keyword_kind]; rfl)
      exact ⟨⟨keyword_kind, literal_eq, name_lexed.identifier_meansToken name_kind⟩, bound⟩
  | result keyword_lexed keyword_kind returned =>
      have literal_eq := keyword_lexed.literal_eq (by rw [keyword_kind]; rfl)
      exact ⟨⟨keyword_kind, literal_eq⟩, returned⟩
  | expression coherent => exact ⟨trivial, coherent⟩

/-! ### Reading a token as an integer -/

/-- A token of a source text has a value as an integer if it is one and not too large. -/
theorem integerValue?_of_mem_tokenize {source : String} {token : Token}
    (mem : token ∈ tokenize source) (value : Nat) :
    integerValue? token.literal = some value ↔
      token.kind = .integer ∧ IsNumeral token.literal value ∧ value ≤ 2 ^ 63 - 1 := by
  rw [integerValue?_eq_some_iff_isNumeral, iff_and_self]
  rintro ⟨numeral, -⟩
  rcases List.mem_append.mp mem with mem | mem
  · obtain ⟨lexeme, wellFormed, erase_eq⟩ := Lexer.isLexed_of_mem_tokens mem
    have kind_eq : token.kind = lexeme.kind := congrArg Token.kind erase_eq
    have literal_eq : token.literal = lexeme.text := congrArg Token.literal erase_eq
    rw [kind_eq]
    exact wellFormed.kind_of_isNumeral (literal_eq ▸ numeral)
  · obtain rfl := List.mem_singleton.mp mem
    exact absurd rfl numeral.nonempty

theorem Parser.operand_integer_eq (parser : Parser) :
    (parser.operand .integer).1 =
      match integerValue? parser.current.literal with
      | some value => .ok (.integer parser.current value)
      | none => .error ⟨.notAnInteger parser.current.literal, parser.current.span.start⟩ := by
  change ((Parse.current >>= _ : Parse Expr).run parser.stream).1 = _
  rw [Parse.run_bind, Parse.run_current]
  change (Parse.run (match integerValue? parser.current.literal with
    | some value => _
    | none => _) _).1 = _
  cases integerValue? parser.current.literal <;> rfl

/-- In every program that is read, the nodes say what their tokens say: names, numbers, truth
values, operators and keywords.  Any token of a source text can be read as an integer if it is one
of at most `2 ^ 63 - 1`, and no other can. -/
theorem nodes_mean_their_tokens (source : String) :
    (∀ stmt ∈ (parse source).1.statements,
      stmt.MeansToken ∧ ∀ node ∈ stmt.value.nodes, node.MeansToken) ∧
    ∀ token ∈ tokenize source, ∀ parser : Parser, parser.current = token →
      ((∃ expr, (parser.operand .integer).1 = .ok expr) ↔
        token.kind = .integer ∧ ∃ value ≤ 2 ^ 63 - 1, IsNumeral token.literal value) := by
  refine ⟨fun stmt mem => ?_, ?_⟩
  · obtain ⟨means, coherent⟩ := (coherent_of_mem_statements mem).meansToken
    exact ⟨means, fun node node_mem => (coherent.of_mem_nodes node_mem).meansToken⟩
  · rintro _ mem parser rfl
    have value_iff := integerValue?_of_mem_tokenize mem
    rw [Parser.operand_integer_eq]
    constructor
    · rintro ⟨expr, read⟩
      cases found : integerValue? parser.current.literal with
      | none => simp [found] at read
      | some value =>
          obtain ⟨kind_eq, numeral, small⟩ := (value_iff value).mp found
          exact ⟨kind_eq, value, small, numeral⟩
    · rintro ⟨kind_eq, value, small, numeral⟩
      rw [(value_iff value).mpr ⟨kind_eq, numeral, small⟩]
      exact ⟨_, rfl⟩

end MonkeySyntax
