import MonkeySyntax.Proofs.Height
import MonkeySyntax.Proofs.RoundTrip

/-!
# Towers of calls

A group gives the levels that it has taken back to the calls behind it.  Groups in groups, each
with as many calls behind it as there are free levels, therefore make a tree that is higher than
the limit on nesting, and no tree is higher than the highest of these towers.
-/

namespace MonkeySyntax

/-- A text is read as a function of the given height with `count` calls at its outermost level, and
takes some levels. -/
def IsTower (text : String) (height count levels : Nat) : Prop :=
  ∃ tokens, Wording text tokens ∧ IsPlain tokens ∧ ∀ word, word.map Token.erase = tokens →
    ∃ last expr, Parse.Reads .call word last expr count levels ∧ expr.height = height

namespace IsTower

variable {text : String} {height count levels : Nat}

theorem name : IsTower "a" 1 0 1 := by
  let token : Token := ⟨.identifier, "a", {}⟩
  have lexed : token.IsLexed := by
    refine ⟨⟨.identifier, [97]⟩, ?_, rfl⟩
    have letters : ∀ byte ∈ [(97 : UInt8)], isLetter byte = true := by
      intro byte mem
      obtain rfl := List.mem_singleton.mp mem
      rfl
    exact Lexeme.WellFormed.word (List.cons_ne_nil _ _) letters
  refine ⟨[token.erase], .value lexed (.inl rfl), isPlain_singleton nofun, fun word same => ?_⟩
  obtain ⟨again, rfl, erase_eq⟩ := List.map_eq_singleton_iff.mp same
  have kind_eq : again.kind = .identifier := congrArg Token.kind erase_eq
  exact ⟨again, _, (Parse.Reads.identifier kind_eq).loosen (by decide), rfl⟩

/-- A group takes a level, and the calls in it do not count for the calls behind it. -/
theorem group (tower : IsTower text height count levels) :
    IsTower ("(" ++ text ++ ")") height 0 (levels + 1) := by
  obtain ⟨tokens, wording, plain, reads⟩ := tower
  have group_plain : IsPlain (.opening :: tokens ++ [.closing]) :=
    isPlain_append.mpr ⟨isPlain_cons.mpr ⟨nofun, plain⟩, isPlain_singleton nofun⟩
  refine ⟨_, wording.group, group_plain, fun word same => ?_⟩
  obtain ⟨opening, inside, closing, rfl, opens, inside_eq, closes⟩ :=
    exists_group_of_erase same
  obtain ⟨last, expr, inside_reads, height_eq⟩ := reads inside inside_eq
  have group_reads := Parse.Reads.group opens (inside_reads.loosen (by decide)) closes
  exact ⟨closing, expr, group_reads.loosen (by decide), height_eq⟩

/-- A call makes a tree higher, and takes a level on top of those for the calls before it. -/
theorem call (tower : IsTower text height count levels) :
    IsTower (text ++ "()") (height + 1) (count + 1) (max levels (count + 2)) := by
  obtain ⟨tokens, wording, plain, reads⟩ := tower
  have call_plain : IsPlain (tokens ++ [.opening, .closing]) :=
    isPlain_append.mpr ⟨plain, isPlain_cons.mpr ⟨nofun, isPlain_singleton nofun⟩⟩
  have call_wording : Wording (text ++ "()") (tokens ++ [.opening, .closing]) := by
    have none_read : ∀ argument ∈ ([] : List Expr), Wording argument.render argument.shown := nofun
    have whole := wording.call none_read
    rwa [String.append_assoc, String.append_assoc] at whole
  refine ⟨_, call_wording, call_plain, fun word same => ?_⟩
  obtain ⟨front, back, rfl, front_eq, back_eq⟩ := List.map_eq_append_iff.mp same
  obtain ⟨opening, others, rfl, opening_eq, others_eq⟩ := List.map_eq_cons_iff.mp back_eq
  obtain ⟨closing, rfl, closing_eq⟩ := List.map_eq_singleton_iff.mp others_eq
  obtain ⟨last, expr, front_reads, height_eq⟩ := reads front front_eq
  have opens : opening.kind = .openParen := congrArg Token.kind opening_eq
  have closes : closing.kind = .closeParen := congrArg Token.kind closing_eq
  let arguments : List (List Token × Expr) := []
  have separated : CommaSeparated (arguments.map Prod.fst) [] := .nil
  have each : Parse.ReadsEach arguments [] := .nil
  have call_reads := front_reads.call opens separated each closes
  refine ⟨closing, _, call_reads, ?_⟩
  rw [List.map_nil, Expr.height, Expr.greatestHeight, height_eq, Nat.max_zero, Nat.add_comm]

/-- A statement of its own is read if there are enough levels. -/
theorem parse_eq (tower : IsTower text height count levels) (enough : levels ≤ maxDepth) :
    (parse (text ++ ";")).2 = [] ∧
      ∃ stmt, (parse (text ++ ";")).1.statements = [stmt] ∧ stmt.value.height = height := by
  obtain ⟨tokens, wording, plain, reads⟩ := tower
  have spells : Spells (bytesOf (text ++ ";")) (tokens ++ [.semicolon]) := by
    have whole := wording.before .semicolon .nil
    rwa [List.append_nil, List.append_nil, ← bytesOf_append] at whole
  have same : (Lexer.ofString (text ++ ";")).tokens.map Token.erase = tokens ++ [.semicolon] :=
    Lexer.tokens_of_spells spells 0
  obtain ⟨word, back, tokens_eq, word_eq, back_eq⟩ := List.map_eq_append_iff.mp same
  obtain ⟨semicolon, rfl, semicolon_eq⟩ := List.map_eq_singleton_iff.mp back_eq
  have ends : semicolon.kind = .semicolon := congrArg Token.kind semicolon_eq
  have word_plain : IsPlain word := .of_map_erase (word_eq ▸ plain)
  obtain ⟨last, expr, word_reads, height_eq⟩ := reads word word_eq
  let size := (TokenStream.ofString (text ++ ";")).size
  obtain ⟨first, needs⟩ := @Parse.needs_expressionStatement word last semicolon expr count levels
    ⟨[], size⟩ (word_reads.loosen (by decide)) ends
  have outcomes_eq : outcomesOf (text ++ ";") = [.ok (.expression first expr)] := by
    have run_eq := needs.enough maxDepth enough
    rw [TokenStream.prepend, List.append_nil] at run_eq
    rw [outcomesOf_eq_map, tokens_eq, segments_append word_plain ends, segments, List.map_cons,
      List.map_nil, run_eq]
  rw [MonkeySyntax.parse_eq, outcomes_eq]
  exact ⟨rfl, .expression first expr, rfl, height_eq⟩

end IsTower

/-- A text with some empty argument lists behind it. -/
def withCalls (text : String) : Nat → String
  | 0 => text
  | calls + 1 => withCalls text calls ++ "()"

theorem IsTower.withCalls {text : String} {height levels : Nat}
    (tower : IsTower text height 0 levels) (some_level : 0 < levels) (calls : Nat) :
    IsTower (withCalls text calls) (height + calls) calls (max levels (calls + 1)) := by
  induction calls with
  | zero => rwa [Nat.max_eq_left some_level]
  | succ calls ih =>
      have levels_eq : max (max levels (calls + 1)) (calls + 2) = max levels (calls + 1 + 1) := by
        omega
      exact levels_eq ▸ ih.call

/-- Groups in groups, with one call behind the innermost one and one more behind each other. -/
def tower : Nat → String
  | 0 => "a"
  | groups + 1 => withCalls ("(" ++ tower groups ++ ")") (groups + 1)

/-- A tower is as high as any tree that is read with its levels. -/
theorem isTower_tower (groups : Nat) :
    IsTower (tower groups) (tallest (groups + 1)) groups (groups + 1) := by
  induction groups with
  | zero => exact .name
  | succ groups ih =>
      have whole := ih.group.withCalls (Nat.succ_pos _) (groups + 1)
      rwa [Nat.max_self, ← tallest_succ] at whole

/-- The limit holds for the nesting of every value in a program. -/
theorem nesting_le_maxDepth (source : String) :
    ∀ stmt ∈ (parse source).1.statements, stmt.value.nesting ≤ maxDepth :=
  fun _ mem => (grown_of_mem_statements mem).nesting_le

/-- Two calls in a row nest no deeper than one. -/
theorem nesting_le_maxDepth_calls :
    ∃ stmt ∈ (parse "a()();").1.statements, stmt.value.nesting = 2 ∧
      stmt.value.nesting ≤ maxDepth := by
  have read : ∃ stmt ∈ (parse "a()();").1.statements, stmt.value.nesting = 2 := by decide +kernel
  obtain ⟨stmt, mem, nesting_eq⟩ := read
  exact ⟨stmt, mem, nesting_eq, nesting_le_maxDepth "a()();" stmt mem⟩

/-- Behind a call in a group, as many calls are read as if the group were a name: the tree is one
node higher than the limit on nesting. -/
theorem height_exceeds_maxDepth :
    (parse (withCalls "(a())" 255 ++ ";")).2 = [] ∧
      ∃ stmt, (parse (withCalls "(a())" 255 ++ ";")).1.statements = [stmt] ∧
        maxDepth < stmt.value.height := by
  have tower := IsTower.name.call.group.withCalls (by decide) 255
  obtain ⟨clean, stmt, statements_eq, height_eq⟩ := tower.parse_eq (by decide)
  refine ⟨clean, stmt, statements_eq, ?_⟩
  rw [height_eq]
  decide

/-- An expression that is read is at most as high as the free levels allow, and so is every value
in a program; a tower of 255 groups reaches the bound. -/
theorem height_bound_attained :
    (∀ (parser : Parser) (power : BindingPower) (expr : Expr) (after : Parser),
      parser.expression power = (.ok expr, after) →
        expr.height ≤ 1 + (255 - parser.depth) * (256 - parser.depth) / 2) ∧
    (∀ source, ∀ stmt ∈ (parse source).1.statements, stmt.value.height ≤ 32641) ∧
    ∃ source, (parse source).2 = [] ∧
      ∃ stmt, (parse source).1.statements = [stmt] ∧ stmt.value.height = 32641 := by
  refine ⟨fun parser power expr after read => ?_, fun source stmt mem => ?_, ?_⟩
  · have run_eq : ((Parse.expression parser.room power).run parser.stream).1 = .ok expr :=
      congrArg Prod.fst read
    have le := (Parse.grown_of_run_expression (Prod.ext run_eq rfl)).height_add_growth_le
    rwa [tallest, Parser.room, Nat.sub_right_comm] at le
  · exact (grown_of_mem_statements mem).height_add_growth_le
  · exact ⟨_, (isTower_tower 255).parse_eq (by decide)⟩

/-- With two free levels an operator in front of a name makes one of the highest trees. -/
theorem height_bound_attained_two_levels :
    ∃ expr after,
      ({ Parser.ofString "-a;" with depth := 254 } : Parser).expression .lowest =
        (.ok expr, after) ∧
      expr.height = 2 ∧ expr.height ≤ 1 + (255 - 254) * (256 - 254) / 2 ∧
      ∃ stmt ∈ (parse "-a;").1.statements, stmt.value.height ≤ 32641 := by
  let parser : Parser := { Parser.ofString "-a;" with depth := 254 }
  let expr : Expr := .unary ⟨.minus, "-", .ofOffsets 0 1⟩ "-"
    (.identifier ⟨⟨.identifier, "a", .ofOffsets 1 2⟩, "a"⟩)
  have read : parser.expression .lowest = (.ok expr, (parser.expression .lowest).2) := by
    decide +kernel
  have mem : .expression ⟨.minus, "-", .ofOffsets 0 1⟩ expr ∈ (parse "-a;").1.statements := by
    decide +kernel
  obtain ⟨expression_bound, value_bound, -⟩ := height_bound_attained
  exact ⟨expr, _, read, rfl, expression_bound parser .lowest expr _ read, _, mem,
    value_bound "-a;" _ mem⟩

end MonkeySyntax
