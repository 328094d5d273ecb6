import MonkeySyntax.Proofs.Expectation
import MonkeySyntax.Proofs.RoundTrip

/-!
# The tokens that a tree keeps

The nodes of a tree keep tokens of the statement that it was read from: each at most once, in source
order, and with its place.  Which tokens are left out can be told from the tokens alone, without
reading the statement: the semicolon, the sign of a binding, the commas between arguments and the
parenthesis behind them, and the parentheses of groups.
-/

namespace MonkeySyntax

/-! ### Tokens of trees -/

namespace Expr

mutual

/-- The tokens of an expression, in the order of the source text. -/
def tokens : Expr → List Token
  | identifier name => [name.token]
  | integer token _ => [token]
  | boolean token _ => [token]
  | unary token _ right => token :: tokens right
  | binary token _ left right => tokens left ++ token :: tokens right
  | call token function arguments => tokens function ++ token :: tokensAll arguments

/-- The tokens of several expressions, one expression after another. -/
def tokensAll : List Expr → List Token
  | [] => []
  | expr :: rest => tokens expr ++ tokensAll rest

end

theorem tokensAll_eq_flatMap (exprs : List Expr) : tokensAll exprs = exprs.flatMap tokens := by
  induction exprs with
  | nil => rfl
  | cons expr rest ih => rw [tokensAll, List.flatMap_cons, ih]

end Expr

/-- The tokens of a statement, in the order of the source text. -/
def Stmt.tokens : Stmt → List Token
  | binding token name value => token :: name.token :: value.tokens
  | result token value => token :: value.tokens
  | expression _ expr => expr.tokens

/-! ### Tokens that are left out -/

/-- Whether an operand can end with a token of this kind.  A parenthesis right behind such a token
opens arguments, and any other one opens a group. -/
def Token.Kind.endsOperand : Kind → Bool
  | identifier | integer | trueWord | falseWord | closeParen => true
  | _ => false

/-- What is kept of the tokens of an expression and of the semicolon behind them.  The brackets are
those that are open, the innermost first, and `behind` says whether an operand has just ended. -/
def kept? : (brackets : List Bracket) → (behind : Bool) → List Token → Option (List Token)
  | _, _, [] => none
  | brackets, behind, token :: rest =>
      match token.kind, brackets with
      | .openParen, _ =>
          if behind then (kept? (.arguments :: brackets) false rest).map (token :: ·)
          else kept? (.group :: brackets) false rest
      | .closeParen, _ :: outer => kept? outer true rest
      | .comma, .arguments :: _ => kept? brackets false rest
      | .semicolon, [] => if rest.isEmpty then some [] else none
      | .closeParen, [] | .comma, _ | .semicolon, _ :: _ => none
      | kind, _ => (kept? brackets kind.endsOperand rest).map (token :: ·)

/-- What is kept of the tokens of a statement. -/
def keptOfStatement? : List Token → Option (List Token)
  | keyword :: name :: assign :: value =>
      if keyword.kind = .letWord ∧ assign.kind = .assign then
        (kept? [] false value).map ([keyword, name] ++ ·)
      else kept? [] false (keyword :: name :: assign :: value)
  | word => kept? [] false word

section

variable {brackets : List Bracket} {behind : Bool} {token : Token} {word rest kept : List Token}

theorem kept?_arguments (opens : token.kind = .openParen) :
    kept? brackets true (token :: rest) =
      (kept? (.arguments :: brackets) false rest).map (token :: ·) := by
  simp [kept?, opens]

theorem kept?_group (opens : token.kind = .openParen) :
    kept? brackets false (token :: rest) = kept? (.group :: brackets) false rest := by
  simp [kept?, opens]

theorem kept?_close {bracket : Bracket} (closes : token.kind = .closeParen) :
    kept? (bracket :: brackets) behind (token :: rest) = kept? brackets true rest := by
  simp [kept?, closes]

theorem kept?_comma (separates : token.kind = .comma) :
    kept? (.arguments :: brackets) behind (token :: rest) =
      kept? (.arguments :: brackets) false rest := by
  simp [kept?, separates]

theorem kept?_semicolon (ends : token.kind = .semicolon) : kept? [] behind [token] = some [] := by
  simp [kept?, ends]

/-- Tokens other than parentheses, commas and semicolons are kept. -/
theorem kept?_cons (other : token.kind ∉ [.openParen, .closeParen, .comma, .semicolon]) :
    kept? brackets behind (token :: rest) =
      (kept? brackets token.kind.endsOperand rest).map (token :: ·) := by
  cases kind_eq : token.kind with
  | openParen | closeParen | comma | semicolon => simp [kind_eq] at other
  | _ => simp [kept?, kind_eq]

/-- Tokens are kept once at most, and in their order. -/
theorem sublist_of_kept? (found : kept? brackets behind word = some kept) :
    kept.Sublist word := by
  fun_induction kept? brackets behind word generalizing kept with
  | case1 | case7 | case8 | case9 | case10 => contradiction
  | case2 _ token _ _ ih | case11 _ _ token _ _ _ _ _ _ _ _ ih =>
      obtain ⟨others, others_found, rfl⟩ := Option.map_eq_some_iff.mp found
      exact (ih others_found).cons_cons token
  | case3 _ _ token _ _ _ ih | case4 _ token _ _ _ _ ih | case5 _ token _ _ _ ih =>
      exact (ih found).cons token
  | case6 => exact Option.some.inj found ▸ List.nil_sublist _

end

/-! ### What is kept of an expression -/

/-- Of a word where an operand begins, these tokens are kept, whatever follows the word. -/
def Yields (word tokens : List Token) : Prop :=
  ∀ brackets rest, kept? brackets false (word ++ rest) =
    (kept? brackets true rest).map (tokens ++ ·)

section

variable {brackets : List Bracket} {behind : Bool} {token opening closing : Token}
  {word inside rest tokens first second : List Token}

theorem Yields.value (kind_mem : token.kind ∈ [.identifier, .integer, .trueWord, .falseWord]) :
    Yields [token] [token] := by
  intro brackets rest
  have ends : token.kind.endsOperand = true := by
    revert kind_mem
    cases token.kind <;> decide
  have other : token.kind ∉ [.openParen, .closeParen, .comma, .semicolon] := by
    revert kind_mem
    cases token.kind <;> decide
  rw [List.singleton_append, kept?_cons other, ends]
  rfl

theorem Yields.group (yields : Yields word tokens) (opens : opening.kind = .openParen)
    (closes : closing.kind = .closeParen) : Yields (opening :: word ++ [closing]) tokens := by
  intro brackets rest
  rw [List.cons_append, List.cons_append, List.append_assoc, kept?_group opens, yields,
    List.singleton_append, kept?_close closes]

/-- An operator is kept, and an operand is to follow. -/
theorem kept?_operator
    (kind_eq : token.kind = .bang ∨ ∃ stratum : Stratum, token.kind ∈ stratum.operators) :
    kept? brackets behind (token :: rest) = (kept? brackets false rest).map (token :: ·) := by
  have facts : token.kind.endsOperand = false ∧
      token.kind ∉ [.openParen, .closeParen, .comma, .semicolon] := by
    rcases kind_eq with kind_eq | ⟨stratum, mem⟩
    · simp [kind_eq, Token.Kind.endsOperand]
    · revert mem
      cases stratum <;> cases token.kind <;> decide
  rw [kept?_cons facts.2, facts.1]

theorem Yields.unary (yields : Yields word tokens)
    (kind_eq : token.kind = .bang ∨ token.kind = .minus) :
    Yields (token :: word) (token :: tokens) := by
  intro brackets rest
  have operator : token.kind = .bang ∨ ∃ stratum : Stratum, token.kind ∈ stratum.operators :=
    kind_eq.imp_right fun kind_eq => ⟨.sum, by simp [Stratum.operators, kind_eq]⟩
  rw [List.cons_append, kept?_operator operator, yields, Option.map_map]
  rfl

theorem Yields.binary {stratum : Stratum} {leftWord rightWord : List Token}
    (left : Yields leftWord first) (mem : token.kind ∈ stratum.operators)
    (right : Yields rightWord second) :
    Yields (leftWord ++ token :: rightWord) (first ++ token :: second) := by
  intro brackets rest
  rw [List.append_assoc, List.cons_append, left, kept?_operator (.inr ⟨stratum, mem⟩), right,
    Option.map_map, Option.map_map]
  simp [Function.comp_def]

/-- Of arguments behind others the commas are left out. -/
theorem kept?_afterCommas {elements : List (List Token × Expr)}
    (each : ∀ element ∈ elements, Yields element.1 element.2.tokens)
    (separated : AfterCommas (elements.map Prod.fst) inside) :
    kept? (.arguments :: brackets) true (inside ++ rest) =
      (kept? (.arguments :: brackets) true rest).map
        (elements.flatMap (fun element => element.2.tokens) ++ ·) := by
  induction elements generalizing inside with
  | nil =>
      cases separated
      simp
  | cons element elements ih =>
      obtain ⟨yields, others⟩ := List.forall_mem_cons.mp each
      cases separated with
      | cons separates separated =>
          rw [List.cons_append, List.cons_append, List.append_assoc, kept?_comma separates, yields,
            ih others separated, Option.map_map]
          simp [Function.comp_def]

theorem Yields.call {elements : List (List Token × Expr)} (callee : Yields word first)
    (opens : opening.kind = .openParen)
    (separated : CommaSeparated (elements.map Prod.fst) inside)
    (each : ∀ element ∈ elements, Yields element.1 element.2.tokens)
    (closes : closing.kind = .closeParen) :
    Yields (word ++ (opening :: inside ++ [closing]))
      (first ++ opening :: elements.flatMap fun element => element.2.tokens) := by
  intro brackets rest
  have arguments : kept? (.arguments :: brackets) false (inside ++ closing :: rest) =
      (kept? brackets true rest).map (elements.flatMap (fun element => element.2.tokens) ++ ·) := by
    cases elements with
    | nil =>
        cases separated
        simp [kept?_close closes]
    | cons element elements =>
        obtain ⟨yields, others⟩ := List.forall_mem_cons.mp each
        cases separated with
        | cons separated =>
            rw [List.append_assoc, yields, kept?_afterCommas others separated, kept?_close closes,
              Option.map_map]
            simp [Function.comp_def]
  have word_eq : word ++ (opening :: inside ++ [closing]) ++ rest =
      word ++ opening :: (inside ++ closing :: rest) := by
    simp
  rw [word_eq, callee, kept?_arguments opens, arguments, Option.map_map, Option.map_map]
  simp [Function.comp_def]

end

/-- Of the tokens of an expression those of its tree are kept. -/
theorem Derives.yields {stratum : Stratum} {word : List Token} {expr : Expr}
    (derived : Derives stratum word expr) : Yields word expr.tokens := by
  induction derived with
  | identifier kind_eq | integer kind_eq _ _ | trueWord kind_eq | falseWord kind_eq =>
      exact .value (by simp [kind_eq])
  | group opens _ closes ih => exact ih.group opens closes
  | @call opening closing word inside function elements _ opens separated _ closes callee_ih
      each_ih =>
      have yields := callee_ih.call opens separated each_ih closes
      rw [Expr.tokens, Expr.tokensAll_eq_flatMap, List.flatMap_map]
      exact yields
  | unary kind_eq _ ih => exact ih.unary kind_eq
  | binary mem _ _ left_ih right_ih => exact left_ih.binary mem right_ih
  | tighter _ ih => exact ih

/-! ### What is kept of a statement -/

theorem sublist_of_keptOfStatement? {word kept : List Token}
    (found : keptOfStatement? word = some kept) : kept.Sublist word := by
  unfold keptOfStatement? at found
  split at found
  · next keyword name assign value =>
      split at found
      · obtain ⟨others, others_found, rfl⟩ := Option.map_eq_some_iff.mp found
        exact .cons_cons _ (.cons_cons _ ((sublist_of_kept? others_found).cons _))
      · exact sublist_of_kept? found
  · exact sublist_of_kept? found

theorem keptOfStatement?_of_ne {word : List Token}
    (ne : ∀ keyword ∈ word.head?, keyword.kind ≠ .letWord) :
    keptOfStatement? word = kept? [] false word := by
  unfold keptOfStatement?
  split
  · next keyword name assign value =>
      rw [if_neg fun binds => ne keyword rfl binds.1]
  · rfl

/-- Of an expression and a semicolon the tokens of the expression are kept. -/
theorem Derives.kept?_eq {stratum : Stratum} {word : List Token} {expr : Expr} {semicolon : Token}
    (derived : Derives stratum word expr) (ends : semicolon.kind = .semicolon) :
    kept? [] false (word ++ [semicolon]) = some expr.tokens := by
  rw [derived.yields, kept?_semicolon ends, Option.map_some, List.append_nil]

theorem DerivesStatement.kept {word : List Token} {stmt : Stmt}
    (derived : DerivesStatement word stmt) : keptOfStatement? word = some stmt.tokens := by
  cases derived with
  | binding keyword_kind name_kind assign_kind bound ends =>
      rw [List.cons_append, List.cons_append, List.cons_append, keptOfStatement?,
        if_pos ⟨keyword_kind, assign_kind⟩, bound.kept?_eq ends]
      rfl
  | @result keyword semicolon word value keyword_kind returned ends =>
      have other : keyword.kind ∉ [.openParen, .closeParen, .comma, .semicolon] := by
        simp [keyword_kind]
      have behind : keyword.kind.endsOperand = false := by rw [keyword_kind]; rfl
      rw [keptOfStatement?_of_ne (by simp [keyword_kind]), List.cons_append, kept?_cons other,
        behind, returned.kept?_eq ends]
      rfl
  | @expression first semicolon word expr derived ends =>
      have begins := Expectation.operand?_ne_none (derived.afterAll [])
      have ne : first.kind ≠ .letWord := fun kind_eq => begins (by rw [kind_eq]; rfl)
      rw [keptOfStatement?_of_ne (by simpa using ne)]
      exact derived.kept?_eq ends

theorem DerivesStatement.head?_eq {word : List Token} {stmt : Stmt}
    (derived : DerivesStatement word stmt) : word.head? = some stmt.token := by
  cases derived <;> rfl

/-- The statements among the outcomes of some words are those of some of the words, in their
order. -/
theorem exists_sublist_of_statementsOf (words : List (List Token))
    (outcome : List Token → Except Diagnostic Stmt) :
    ∃ chosen, chosen.Sublist words ∧
      List.Forall₂ (fun stmt word => word ∈ words ∧ outcome word = .ok stmt)
        (statementsOf (words.map outcome)) chosen := by
  induction words with
  | nil => exact ⟨[], .slnil, .nil⟩
  | cons word words ih =>
      obtain ⟨chosen, sublist, each⟩ := ih
      have others : List.Forall₂
          (fun stmt other => other ∈ word :: words ∧ outcome other = .ok stmt)
          (statementsOf (words.map outcome)) chosen :=
        each.imp fun _ _ ⟨mem, read⟩ => ⟨List.mem_cons_of_mem word mem, read⟩
      cases read : outcome word with
      | ok stmt =>
          rw [List.map_cons, read, statementsOf_ok_cons]
          exact ⟨word :: chosen, sublist.cons_cons word, .cons ⟨List.mem_cons_self, read⟩ others⟩
      | error diagnostic =>
          rw [List.map_cons, read, statementsOf_error_cons]
          exact ⟨chosen, sublist.cons word, others⟩

/-- The statements of a source text are read off some of its segments, in their order.  The tree of
a statement keeps the tokens of its segment that are to be kept, and begins with the first one. -/
theorem statements_keep_tokens (source : String) :
    ∃ read : List (List Token), read.Sublist (segments (Lexer.ofString source).tokens) ∧
      List.Forall₂ (fun stmt segment =>
          keptOfStatement? segment = some stmt.tokens ∧ stmt.tokens.Sublist segment ∧
            segment.head? = some stmt.token)
        (parse source).1.statements read := by
  obtain ⟨read, sublist, each⟩ := exists_sublist_of_statementsOf
    (segments (Lexer.ofString source).tokens) fun segment =>
      ((Parse.statement maxDepth).run ⟨segment, (TokenStream.ofString source).size⟩).1
  rw [← outcomesOf_eq_map] at each
  refine ⟨read, sublist, each.imp fun stmt segment ⟨mem, run_eq⟩ => ?_⟩
  have derived := derivesStatement_of_mem_segments mem run_eq
  exact ⟨derived.kept, sublist_of_keptOfStatement? derived.kept, derived.head?_eq⟩

/-- The parenthesis of a call is kept, and the parentheses of a group are not. -/
example : ((keptOfStatement? (Lexer.ofString "let a = f((b), -(c));").tokens).map
    fun tokens => tokens.map Token.literal) = some ["let", "a", "f", "(", "b", "-", "c"] := by
  decide +kernel

end MonkeySyntax
