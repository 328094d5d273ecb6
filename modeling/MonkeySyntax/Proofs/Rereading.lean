import MonkeySyntax.Proofs.Levels
import MonkeySyntax.Proofs.Rendering
import MonkeySyntax.Proofs.Segments

/-!
# Reading rendered trees again

Tokens like those in the text of a tree are read as a tree that differs in places only, and the
levels that this takes can be told from the tree.  The parentheses around an operator take a level
of their own, so that the text may take more levels than the source text did.
-/

namespace MonkeySyntax

namespace Expr

/-- The number of calls at the outermost level of the text of an expression. -/
def outerCalls : Expr → Nat
  | call _ function _ => outerCalls function + 1
  | _ => 0

mutual

/-- The number of levels that reading the text of an expression takes. -/
def textLevels : Expr → Nat
  | identifier _ | integer _ _ | boolean _ _ => 1
  | unary _ _ right => textLevels right + 1 + 1
  | binary _ _ left right => max (textLevels left) (outerCalls left + 2 + textLevels right) + 1
  | call _ function arguments =>
      max (textLevels function) (outerCalls function + 2 + mostLevels (textLevelsAll arguments))

/-- The numbers of levels that reading the texts of several expressions takes. -/
def textLevelsAll : List Expr → List Nat
  | [] => []
  | expr :: rest => textLevels expr :: textLevelsAll rest

end

@[simp]
theorem textLevelsAll_eq_map (exprs : List Expr) : textLevelsAll exprs = exprs.map textLevels := by
  induction exprs with
  | nil => rfl
  | cons expr rest ih => simp [textLevelsAll, ih]

end Expr

/-- The number of levels that reading the text of a statement takes. -/
def Stmt.textLevels : Stmt → Nat
  | binding _ _ value => value.textLevels
  | result _ value => value.textLevels
  | expression _ expr => expr.textLevels

section

variable {word inside : List Token} {tokens : List Token} {words : List (List Token)}

/-- Tokens like those of a group are a group. -/
theorem exists_group_of_erase
    (same : word.map Token.erase = .opening :: tokens ++ [.closing]) :
    ∃ opening inside closing, word = opening :: inside ++ [closing] ∧
      opening.kind = .openParen ∧ inside.map Token.erase = tokens ∧ closing.kind = .closeParen := by
  obtain ⟨front, back, rfl, front_eq, back_eq⟩ := List.map_eq_append_iff.mp same
  obtain ⟨opening, inside, rfl, opening_eq, inside_eq⟩ := List.map_eq_cons_iff.mp front_eq
  obtain ⟨closing, rfl, closing_eq⟩ := List.map_eq_singleton_iff.mp back_eq
  exact ⟨opening, inside, closing, rfl, congrArg Token.kind opening_eq, inside_eq,
    congrArg Token.kind closing_eq⟩

theorem exists_afterCommas_of_erase (same : inside.map Token.erase = words.flatMap (.comma :: ·)) :
    ∃ parts, AfterCommas parts inside ∧ parts.map (List.map Token.erase) = words := by
  induction words generalizing inside with
  | nil =>
      obtain rfl := List.map_eq_nil_iff.mp same
      exact ⟨[], .nil, rfl⟩
  | cons word words ih =>
      rw [List.flatMap_cons] at same
      obtain ⟨front, rest, rfl, front_eq, rest_eq⟩ := List.map_eq_append_iff.mp same
      obtain ⟨comma, part, rfl, comma_eq, part_eq⟩ := List.map_eq_cons_iff.mp front_eq
      obtain ⟨parts, separated, parts_eq⟩ := ih rest_eq
      exact ⟨part :: parts, .cons (congrArg Token.kind comma_eq) separated,
        by rw [List.map_cons, part_eq, parts_eq]⟩

theorem exists_commaSeparated_of_erase (same : inside.map Token.erase = commaJoined words) :
    ∃ parts, CommaSeparated parts inside ∧ parts.map (List.map Token.erase) = words := by
  cases words with
  | nil =>
      obtain rfl := List.map_eq_nil_iff.mp same
      exact ⟨[], .nil, rfl⟩
  | cons word words =>
      obtain ⟨part, rest, rfl, part_eq, rest_eq⟩ := List.map_eq_append_iff.mp same
      obtain ⟨parts, separated, parts_eq⟩ := exists_afterCommas_of_erase rest_eq
      exact ⟨part :: parts, .cons separated, by rw [List.map_cons, part_eq, parts_eq]⟩

end

namespace Parse

/-- Every word like the text of an expression is read as an expression like it. -/
def Rereads (expr : Expr) : Prop :=
  ∀ word : List Token, word.map Token.erase = expr.shown →
    ∃ again last, again.erase = expr.erase ∧
      Reads .call word last again expr.outerCalls expr.textLevels

theorem exists_elements {arguments : List Expr} {parts : List (List Token)}
    (each : ∀ argument ∈ arguments, Rereads argument)
    (same : parts.map (List.map Token.erase) = arguments.map Expr.shown) :
    ∃ elements : List (List Token × Expr), elements.map Prod.fst = parts ∧
      (elements.map Prod.snd).map Expr.erase = arguments.map Expr.erase ∧
      ReadsEach elements (arguments.map Expr.textLevels) := by
  induction arguments generalizing parts with
  | nil =>
      obtain rfl := List.map_eq_nil_iff.mp same
      exact ⟨[], rfl, rfl, .nil⟩
  | cons argument arguments ih =>
      obtain ⟨part, rest, rfl, part_eq, rest_eq⟩ := List.map_eq_cons_iff.mp same
      obtain ⟨again, last, erase_eq, reads⟩ := each argument List.mem_cons_self part part_eq
      obtain ⟨elements, parts_eq, erased_eq, others⟩ :=
        ih (fun other mem => each other (List.mem_cons_of_mem argument mem)) rest_eq
      refine ⟨(part, again) :: elements, ?_, ?_, .cons ⟨last, _, reads.loosen (by decide)⟩ others⟩
      · rw [List.map_cons, parts_eq]
      · rw [List.map_cons, List.map_cons, List.map_cons, erased_eq, erase_eq]

/-- The text of a coherent expression is read again. -/
theorem rereads_of_coherent {expr : Expr} (coherent : expr.Coherent) : Rereads expr := by
  induction coherent with
  | @identifier token lexed kind_eq =>
      intro word same
      obtain ⟨again, rfl, erase_eq⟩ := List.map_eq_singleton_iff.mp same
      have again_kind := (Token.kind_eq_of_erase erase_eq).trans kind_eq
      refine ⟨_, _, ?_, (Reads.identifier again_kind).loosen (by decide)⟩
      rw [Expr.erase, Expr.erase, erase_eq, Token.literal_eq_of_erase erase_eq]
  | @integer token value lexed kind_eq value_eq =>
      intro word same
      obtain ⟨again, rfl, erase_eq⟩ := List.map_eq_singleton_iff.mp same
      have again_kind := (Token.kind_eq_of_erase erase_eq).trans kind_eq
      rw [← Token.literal_eq_of_erase erase_eq] at value_eq
      refine ⟨_, _, ?_, (Reads.integer again_kind value_eq).loosen (by decide)⟩
      rw [Expr.erase, Expr.erase, erase_eq]
  | @boolean token lexed kind_eq =>
      intro word same
      obtain ⟨again, rfl, erase_eq⟩ := List.map_eq_singleton_iff.mp same
      have same_kind := Token.kind_eq_of_erase erase_eq
      rw [← same_kind] at kind_eq ⊢
      refine ⟨_, _, ?_, (Reads.boolean kind_eq).loosen (by decide)⟩
      rw [Expr.erase, Expr.erase, erase_eq]
  | @unary token right lexed kind_eq _ ih =>
      intro word same
      obtain ⟨opening, inside, closing, rfl, opens, inside_eq, closes⟩ := exists_group_of_erase same
      obtain ⟨again, rest, rfl, erase_eq, rest_eq⟩ := List.map_eq_cons_iff.mp inside_eq
      obtain ⟨operand, last, operand_eq, reads⟩ := ih rest rest_eq
      rw [← Token.kind_eq_of_erase erase_eq] at kind_eq
      have reads_unary := Reads.unary kind_eq (reads.loosen (by decide))
      refine ⟨_, _, ?_, (Reads.group opens (reads_unary.loosen (by decide)) closes).loosen
        (by decide)⟩
      rw [Expr.erase, Expr.erase, erase_eq, operand_eq, Token.literal_eq_of_erase erase_eq]
  | @binary stratum token left right lexed kind_mem _ _ left_ih right_ih =>
      intro word same
      obtain ⟨opening, inside, closing, rfl, opens, inside_eq, closes⟩ := exists_group_of_erase same
      obtain ⟨front, back, rfl, front_eq, back_eq⟩ := List.map_eq_append_iff.mp inside_eq
      obtain ⟨again, rest, rfl, erase_eq, rest_eq⟩ := List.map_eq_cons_iff.mp back_eq
      obtain ⟨first, _, first_eq, first_reads⟩ := left_ih front front_eq
      obtain ⟨second, _, second_eq, second_reads⟩ := right_ih rest rest_eq
      obtain ⟨looser, tighter⟩ := Stratum.rank_of_mem_operators kind_mem
      rw [← Token.kind_eq_of_erase erase_eq] at kind_mem
      have reads_binary := Reads.binary kind_mem (first_reads.loosen looser)
        (second_reads.loosen tighter)
      refine ⟨_, _, ?_, (Reads.group opens (reads_binary.loosen (Nat.zero_le _)) closes).loosen
        (by decide)⟩
      rw [Expr.erase, Expr.erase, erase_eq, first_eq, second_eq,
        Token.literal_eq_of_erase erase_eq]
  | @call token function arguments lexed kind_eq _ _ callee_ih each_ih =>
      intro word same
      obtain ⟨front, back, rfl, front_eq, back_eq⟩ := List.map_eq_append_iff.mp same
      obtain ⟨list, last, rfl, list_eq, last_eq⟩ := List.map_eq_append_iff.mp back_eq
      obtain ⟨opening, inside, rfl, opening_eq, inside_eq⟩ := List.map_eq_cons_iff.mp list_eq
      obtain ⟨closing, rfl, closing_eq⟩ := List.map_eq_singleton_iff.mp last_eq
      rw [Expr.shownAll_eq_map] at inside_eq
      obtain ⟨parts, separated, parts_eq⟩ := exists_commaSeparated_of_erase inside_eq
      obtain ⟨elements, rfl, erased_eq, each⟩ := exists_elements each_ih parts_eq
      obtain ⟨callee, _, callee_eq, callee_reads⟩ := callee_ih front front_eq
      have opens := (Token.kind_eq_of_erase opening_eq).trans kind_eq
      have closes : closing.kind = .closeParen := congrArg Token.kind closing_eq
      have reads_call := Reads.call callee_reads opens separated each closes
      rw [← Expr.textLevelsAll_eq_map] at reads_call
      refine ⟨_, _, ?_, reads_call⟩
      rw [Expr.erase, Expr.erase, Expr.eraseAll_eq_map, Expr.eraseAll_eq_map, erased_eq, opening_eq,
        callee_eq]

/-! ### Statements -/

section

variable {word tail : List Token} {last semicolon : Token} {expr : Expr} {count levels : Nat}
  {rest : TokenStream} {value : Stmt} {after : TokenStream}

theorem needs_value (reads : Reads .equality word last expr count levels)
    (ends : semicolon.kind = .semicolon) (make : Expr → Stmt) :
    Needs (fun room => do
        let value ← expression room .lowest
        expect .semicolon
        pure (make value)) levels (rest.prepend (word ++ [semicolon])) (make expr)
      (rest.prepend [semicolon]) := by
  have stops : RuleTable.monkey.power (rest.prepend [semicolon]).current.kind = .lowest := by
    rw [TokenStream.current_prepend, List.headD_cons, ends]
    rfl
  have inside := reads.needs_lowest stops
  rw [← TokenStream.prepend_append, ← TokenStream.prepend_append] at inside
  apply inside.bind_right
  rw [run_bind, List.singleton_append, run_expect ends]
  rfl

theorem needs_statement_of_rule {first : Token} {rule : StatementRule}
    (found : RuleTable.monkey.statement? first.kind = some rule)
    (needs : Needs (fun room => ofStatementRule room rule) levels (rest.prepend (first :: tail))
      value after) :
    Needs statement levels (rest.prepend (first :: tail)) value after := by
  refine Needs.bind_left (run_current _) ?_
  simpa only [TokenStream.current_prepend, List.headD_cons, found] using needs

theorem needs_expressionStatement (reads : Reads .equality word last expr count levels)
    (ends : semicolon.kind = .semicolon) :
    ∃ first, Needs statement levels (rest.prepend (word ++ [semicolon]))
      (.expression first expr) (rest.prepend [semicolon]) := by
  obtain ⟨first, tail, rfl, begins⟩ := reads.first_begins
  have not_found := RuleTable.statement?_eq_none begins
  have needs : Needs expressionStatement levels (rest.prepend (first :: tail ++ [semicolon]))
      (.expression first expr) (rest.prepend [semicolon]) :=
    .bind_left (run_current _) (needs_value reads ends _)
  refine ⟨first, Needs.bind_left (run_current _) ?_⟩
  simpa only [List.cons_append, TokenStream.current_prepend, List.headD_cons, not_found] using needs

theorem needs_result {keyword : Token} (keyword_kind : keyword.kind = .returnWord)
    (reads : Reads .equality word last expr count levels) (ends : semicolon.kind = .semicolon) :
    Needs statement levels (rest.prepend (keyword :: word ++ [semicolon])) (.result keyword expr)
      (rest.prepend [semicolon]) := by
  have found : RuleTable.monkey.statement? keyword.kind = some .result :=
    RuleTable.statement?_eq_some_iff.mpr keyword_kind
  refine needs_statement_of_rule found ?_
  exact .bind_left (run_current _) (.bind_left (run_advance _) (needs_value reads ends _))

theorem needs_binding {keyword name assign : Token} (keyword_kind : keyword.kind = .letWord)
    (name_kind : name.kind = .identifier) (assign_kind : assign.kind = .assign)
    (reads : Reads .equality word last expr count levels) (ends : semicolon.kind = .semicolon) :
    Needs statement levels (rest.prepend (keyword :: name :: assign :: word ++ [semicolon]))
      (.binding keyword ⟨name, name.literal⟩ expr) (rest.prepend [semicolon]) := by
  have found : RuleTable.monkey.statement? keyword.kind = some .binding :=
    RuleTable.statement?_eq_some_iff.mpr keyword_kind
  refine needs_statement_of_rule found ?_
  refine .bind_left (run_current _) (.bind_left (run_expect name_kind) ?_)
  refine .bind_left (run_current _) (.bind_left (run_expect assign_kind) ?_)
  exact .bind_left (run_advance _) (needs_value reads ends _)

end

/-- The text of a coherent statement is read again. -/
theorem exists_needs_statement {stmt : Stmt} (coherent : stmt.Coherent) {segment : List Token}
    (same : segment.map Token.erase = stmt.shown) (rest : TokenStream) :
    ∃ again semicolon, again.erase = stmt.erase ∧
      Needs statement stmt.textLevels (rest.prepend segment) again (rest.prepend [semicolon]) := by
  cases coherent with
  | binding keyword_lexed keyword_kind name_lexed name_kind bound =>
      obtain ⟨front, back, rfl, front_eq, back_eq⟩ := List.map_eq_append_iff.mp same
      obtain ⟨semicolon, rfl, ends⟩ := List.map_eq_singleton_iff.mp back_eq
      obtain ⟨keyword, others, rfl, keyword_eq, others_eq⟩ := List.map_eq_cons_iff.mp front_eq
      obtain ⟨name, others, rfl, name_eq, others_eq⟩ := List.map_eq_cons_iff.mp others_eq
      obtain ⟨assign, word, rfl, assign_eq, word_eq⟩ := List.map_eq_cons_iff.mp others_eq
      obtain ⟨again, last, erase_eq, reads⟩ := rereads_of_coherent bound word word_eq
      have keyword_again := (Token.kind_eq_of_erase keyword_eq).trans keyword_kind
      have name_again := (Token.kind_eq_of_erase name_eq).trans name_kind
      refine ⟨_, semicolon, ?_, needs_binding keyword_again name_again
        (congrArg Token.kind assign_eq) (reads.loosen (by decide)) (congrArg Token.kind ends)⟩
      rw [Stmt.erase, Stmt.erase, keyword_eq, name_eq, erase_eq, Token.literal_eq_of_erase name_eq]
  | result keyword_lexed keyword_kind returned =>
      obtain ⟨front, back, rfl, front_eq, back_eq⟩ := List.map_eq_append_iff.mp same
      obtain ⟨semicolon, rfl, ends⟩ := List.map_eq_singleton_iff.mp back_eq
      obtain ⟨keyword, word, rfl, keyword_eq, word_eq⟩ := List.map_eq_cons_iff.mp front_eq
      obtain ⟨again, last, erase_eq, reads⟩ := rereads_of_coherent returned word word_eq
      have keyword_again := (Token.kind_eq_of_erase keyword_eq).trans keyword_kind
      refine ⟨_, semicolon, ?_, needs_result keyword_again (reads.loosen (by decide))
        (congrArg Token.kind ends)⟩
      rw [Stmt.erase, Stmt.erase, keyword_eq, erase_eq]
  | expression coherent =>
      obtain ⟨word, back, rfl, word_eq, back_eq⟩ := List.map_eq_append_iff.mp same
      obtain ⟨semicolon, rfl, semicolon_eq⟩ := List.map_eq_singleton_iff.mp back_eq
      have ends : semicolon.kind = .semicolon := congrArg Token.kind semicolon_eq
      obtain ⟨again, last, erase_eq, reads⟩ := rereads_of_coherent coherent word word_eq
      obtain ⟨first, needs⟩ := needs_expressionStatement (reads.loosen (by decide)) ends
      refine ⟨_, semicolon, ?_, needs⟩
      rw [Stmt.erase, Stmt.erase, erase_eq]

end Parse

end MonkeySyntax
