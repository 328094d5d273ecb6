import MonkeySyntax.Proofs.Confinement
import MonkeySyntax.Proofs.Lexing
import MonkeySyntax.Proofs.Machine

/-!
# The machine reads what the parser reads

The parser works on the stream of the tokens to come, and the levels that are free are a number
that it passes inwards.  The machine works on two tokens and a lexer, and the levels in use are a
part of its state.  On a lexer from which the stream is read the two yield the same, and the
machine has its two tokens where the stream goes on, its counter where it was and its budget never
used up.
-/

namespace MonkeySyntax

/-- Reading a token moves on in the same source text. -/
theorem Lexer.finish_next (lexer : Lexer) : lexer.next.2.finish = lexer.finish := by
  unfold next next?
  split
  · rfl
  · next first rest nonblank =>
      have whole := congrArg List.length
        (List.takeWhile_append_dropWhile (p := isBlank) (l := lexer.rest))
      have cut_whole := congrArg List.length (Lexeme.cut_append first rest)
      simp only [nonblank, List.length_append, List.length_cons] at whole cut_whole
      simp only [Option.getD_some, finish, mk.injEq, and_true]
      omega

/-- A lexer yields the first of its tokens and keeps the others, or it yields the end of the
input for ever. -/
theorem Lexer.next_cases (lexer : Lexer) :
    (lexer.next.1.kind ≠ .endOfInput ∧ lexer.tokens = lexer.next.1 :: lexer.next.2.tokens) ∨
      (lexer.next = (.endOfInput lexer.finish.offset, lexer.finish) ∧ lexer.tokens = []) := by
  cases read : lexer.next? with
  | none =>
      refine .inr ⟨?_, tokens_of_next?_eq_none read⟩
      rw [next, read, Option.getD_none]
  | some found =>
      have next_eq : lexer.next = found := by rw [next, read, Option.getD_some]
      have tokens_eq : lexer.tokens = found.1 :: found.2.tokens := tokens_of_next?_eq_some read
      rw [next_eq]
      exact .inl ⟨kind_ne_endOfInput (tokens_eq ▸ List.mem_cons_self), tokens_eq⟩

theorem Lexer.length_tokens_next_lt {lexer : Lexer} (inside : lexer.next.1.kind ≠ .endOfInput) :
    lexer.next.2.tokens.length < lexer.tokens.length := by
  rcases lexer.next_cases with ⟨-, tokens_eq⟩ | ⟨next_eq, -⟩
  · rw [tokens_eq]
    exact Nat.lt_succ_self _
  · rw [next_eq] at inside
    contradiction

namespace TokenStream

/-- The stream of a lexer begins with the token that the lexer yields next. -/
theorem current_ofLexer (lexer : Lexer) : (ofLexer lexer).current = lexer.next.1 := by
  rcases lexer.next_cases with ⟨-, tokens_eq⟩ | ⟨next_eq, tokens_eq⟩
  · simp [current, ofLexer, tokens_eq]
  · simp [current, ofLexer, tokens_eq, next_eq]

/-- The stream goes on where the lexer does. -/
theorem advance_ofLexer (lexer : Lexer) : (ofLexer lexer).advance = ofLexer lexer.next.2 := by
  rw [advance, ofLexer, ofLexer, lexer.finish_next]
  rcases lexer.next_cases with ⟨-, tokens_eq⟩ | ⟨next_eq, tokens_eq⟩
  · rw [tokens_eq, List.tail_cons]
  · rw [tokens_eq, next_eq, Lexer.finish, Lexer.tokens_nil, List.tail_nil]

theorem peek_ofLexer (lexer : Lexer) : (ofLexer lexer).peek = lexer.next.2.next.1 := by
  rw [peek, advance_ofLexer, current_ofLexer]

theorem hasTokens_ofLexer (lexer : Lexer) :
    (ofLexer lexer).hasTokens = true ↔ lexer.next.1.kind ≠ .endOfInput := by
  rw [hasTokens, current_ofLexer, decide_eq_true_iff]

/-- The stream passes over tokens one by one. -/
theorem synchronize_ofLexer (lexer : Lexer) :
    (ofLexer lexer).synchronize =
      if lexer.next.1.kind = .semicolon ∨ lexer.next.1.kind = .endOfInput then ofLexer lexer
      else (ofLexer lexer.next.2).synchronize := by
  rcases lexer.next_cases with ⟨inside, tokens_eq⟩ | ⟨next_eq, tokens_eq⟩
  · by_cases kind_eq : lexer.next.1.kind = .semicolon
    · simp [synchronize, ofLexer, tokens_eq, kind_eq]
    · simp [synchronize, ofLexer, tokens_eq, kind_eq, inside, lexer.finish_next]
  · simp [synchronize, ofLexer, tokens_eq, next_eq, Token.endOfInput]

end TokenStream

namespace Parse

variable {α β γ : Type}

protected theorem bind_pure (step : Parse α) : step >>= Pure.pure = step := by
  refine eq_of_run_eq fun stream => ?_
  rw [run_bind]
  split <;> next read => exact read.symm

protected theorem bind_assoc (first : Parse α) (second : α → Parse β) (third : β → Parse γ) :
    first >>= second >>= third = first >>= fun value => second value >>= third := by
  refine eq_of_run_eq fun stream => ?_
  simp only [run_bind]
  rcases first.run stream with ⟨_ | _, after⟩ <;> rfl

instance : LawfulMonad Parse :=
  LawfulMonad.mk' Parse Parse.bind_pure (fun _ _ => rfl) Parse.bind_assoc

/-- Elements after commas join those that have been read before. -/
theorem append_afterCommas_eq (element : Parse α) (earlier : List α) :
    (do let others ← afterCommas element; pure (earlier ++ others)) = (do
      let next ← peek
      if next.kind = .comma then
        advance
        advance
        let value ← element
        let others ← afterCommas element
        pure (earlier ++ [value] ++ others)
      else
        pure earlier) := by
  conv =>
    lhs
    rw [afterCommas_eq, bind_assoc]
  refine bind_congr fun next => ?_
  split <;> simp

/-- Where no level is free, a fold that follows is one too many. -/
theorem folds_zero_eq (power : BindingPower) (left : Expr) :
    folds 0 power left = (do
      let next ← peek
      match Machine.Step.foldAbove power next.kind with
      | some _ => tooDeep
      | none => pure left) := by
  rw [folds, foldAbove, bind_assoc]
  refine bind_congr fun next => ?_
  rw [Machine.Step.foldAbove]
  split
  · cases RuleTable.monkey.fold? next.kind <;> rfl
  · rfl

/-- Where a level is free, a fold that follows takes it. -/
theorem folds_succ_eq (room : Nat) (power : BindingPower) (left : Expr) :
    folds (room + 1) power left = (do
      let next ← peek
      match Machine.Step.foldAbove power next.kind with
      | some rule =>
          advance
          let longer ← ofFoldRule (expression room) left rule
          folds room power longer
      | none => pure left) := by
  rw [folds, foldAbove, bind_assoc]
  refine bind_congr fun next => ?_
  rw [Machine.Step.foldAbove]
  split
  · cases RuleTable.monkey.fold? next.kind <;> rfl
  · rfl

end Parse

/-- The levels that are free when `depth` of them are in use are one more than when another is. -/
theorem maxDepth_sub_eq {depth : Nat} (free : depth < maxDepth) :
    maxDepth - depth = maxDepth - (depth + 1) + 1 := by
  omega

namespace Machine

/-- On a lexer the step yields what the parsing step yields on the stream of the lexer, and leaves
the machine on a lexer that the parsing step goes on from.  Before the step `depth` levels are in
use, and after it a number that is right. -/
def Follows {α : Type} (right : Nat → Prop) (step : Step α) (plain : Parse α) (depth : Nat)
    (lexer : Lexer) : Prop :=
  ∃ after reached, (plain.run (.ofLexer lexer)).2 = .ofLexer after ∧ right reached ∧
    ∀ diagnostics, step.run (.ofLexer lexer depth diagnostics) =
      (some (plain.run (.ofLexer lexer)).1, .ofLexer after reached diagnostics)

/-- The step follows the parsing step and ends at the level at which it began. -/
abbrev Mirrors {α : Type} (step : Step α) (plain : Parse α) (depth : Nat) (lexer : Lexer) : Prop :=
  Follows (depth = ·) step plain depth lexer

namespace Follows

variable {α β : Type} {right : Nat → Prop} {depth : Nat} {lexer : Lexer}

theorem pure (value : α) (holds : right depth) :
    Follows right (Pure.pure value) (Pure.pure value) depth lexer :=
  ⟨lexer, depth, rfl, holds, fun _ => rfl⟩

theorem fail (diagnostic : Diagnostic) (holds : right depth) :
    Follows right (Step.fail diagnostic : Step α) (Parse.fail diagnostic) depth lexer :=
  ⟨lexer, depth, rfl, holds, fun _ => rfl⟩

/-- Both see the same current token. -/
theorem current_bind {next : Token → Step α} {plain : Token → Parse α}
    (later : Follows right (next lexer.next.1) (plain lexer.next.1) depth lexer) :
    Follows right (Step.current >>= next) (Parse.current >>= plain) depth lexer := by
  have run_eq : (Parse.current >>= plain).run (.ofLexer lexer) =
      (plain lexer.next.1).run (.ofLexer lexer) := by
    rw [← TokenStream.current_ofLexer]
    rfl
  unfold Follows
  rw [run_eq]
  exact later

/-- Both see the same next token. -/
theorem peek_bind {next : Token → Step α} {plain : Token → Parse α}
    (later : Follows right (next lexer.next.2.next.1) (plain lexer.next.2.next.1) depth lexer) :
    Follows right (Step.peek >>= next) (Parse.peek >>= plain) depth lexer := by
  have run_eq : (Parse.peek >>= plain).run (.ofLexer lexer) =
      (plain lexer.next.2.next.1).run (.ofLexer lexer) := by
    rw [← TokenStream.peek_ofLexer]
    rfl
  unfold Follows
  rw [run_eq]
  exact later

/-- Both go on by one token. -/
theorem advance_bind {next : Unit → Step α} {plain : Unit → Parse α}
    (later : Follows right (next ()) (plain ()) depth lexer.next.2) :
    Follows right (Step.advance >>= next) (Parse.advance >>= plain) depth lexer := by
  have run_eq : (Parse.advance >>= plain).run (.ofLexer lexer) =
      (plain ()).run (.ofLexer lexer.next.2) := by
    rw [← TokenStream.advance_ofLexer]
    rfl
  unfold Follows
  rw [run_eq]
  exact later

theorem bind {first : Step β} {second : β → Step α} {plainFirst : Parse β}
    {plainSecond : β → Parse α} (mirrors : Mirrors first plainFirst depth lexer)
    (later : ∀ value after, after.tokens.length ≤ lexer.tokens.length →
      Follows right (second value) (plainSecond value) depth after)
    (holds : right depth) :
    Follows right (first >>= second) (plainFirst >>= plainSecond) depth lexer := by
  obtain ⟨between, _, left_eq, rfl, first_eq⟩ := mirrors
  have rest := plainFirst.run_isRestOf (.ofLexer lexer)
  unfold Follows
  simp only [Parse.run_bind, Step.run_bind, first_eq]
  rcases outcome : plainFirst.run (.ofLexer lexer) with ⟨diagnostic | value, stream⟩
  · rw [outcome] at left_eq
    exact ⟨between, _, left_eq, holds, fun _ => rfl⟩
  · rw [outcome] at left_eq rest
    obtain rfl : stream = .ofLexer between := left_eq
    exact later value between rest.length_le

end Follows

/-- Where a level is free, it is taken. -/
theorem Step.run_enterNesting_of_lt {depth : Nat} (free : depth < maxDepth) (lexer : Lexer)
    (diagnostics : List Diagnostic) :
    Step.enterNesting.run (.ofLexer lexer depth diagnostics) =
      (some (.ok ()), .ofLexer lexer (depth + 1) diagnostics) :=
  if_pos free

/-- Where no level is free, the machine fails at the current token. -/
theorem Step.run_enterNesting_of_le {depth : Nat} (full : maxDepth ≤ depth) (lexer : Lexer)
    (diagnostics : List Diagnostic) :
    Step.enterNesting.run (.ofLexer lexer depth diagnostics) =
      (some (.error ⟨.tooDeep maxDepth, lexer.next.1.span.start⟩),
        .ofLexer lexer depth diagnostics) :=
  if_neg (Nat.not_lt.mpr full)

namespace Follows

variable {α : Type} {right : Nat → Prop} {depth : Nat} {lexer : Lexer}

/-- Where no level is free, both fail at the current token. -/
theorem enterNesting_bind {next : Unit → Step α} {plain : Parse α}
    (enters : depth < maxDepth → Follows right (next ()) plain (depth + 1) lexer)
    (refuses : maxDepth ≤ depth → plain = Parse.tooDeep ∧ right depth) :
    Follows right (Step.enterNesting >>= next) plain depth lexer := by
  rcases Nat.lt_or_ge depth maxDepth with free | full
  · obtain ⟨after, reached, left_eq, holds, run_eq⟩ := enters free
    refine ⟨after, reached, left_eq, holds, fun diagnostics => ?_⟩
    rw [Step.run_bind, Step.run_enterNesting_of_lt free]
    exact run_eq diagnostics
  · obtain ⟨rfl, holds⟩ := refuses full
    have plain_eq : (Parse.tooDeep : Parse α).run (.ofLexer lexer) =
        (.error ⟨.tooDeep maxDepth, lexer.next.1.span.start⟩, .ofLexer lexer) := by
      rw [← TokenStream.current_ofLexer]
      rfl
    refine ⟨lexer, depth, by rw [plain_eq], holds, fun diagnostics => ?_⟩
    rw [Step.run_bind, Step.run_enterNesting_of_le full, plain_eq]

/-- Whatever has become of the levels in use, they are put back. -/
theorem keepDepth {step : Step α} {plain : Parse α}
    (follows : Follows right step plain depth lexer) :
    Mirrors (.keepDepth step) plain depth lexer := by
  obtain ⟨after, reached, left_eq, -, run_eq⟩ := follows
  refine ⟨after, depth, left_eq, rfl, fun diagnostics => ?_⟩
  simp only [Step.keepDepth, run_eq]
  rfl

end Follows

section

variable {nested : BindingPower → Step Expr} {plain : BindingPower → Parse Expr} {depth : Nat}
  {lexer : Lexer} {left : Expr}

theorem mirrors_advance : Mirrors Step.advance Parse.advance depth lexer :=
  ⟨lexer.next.2, depth, TokenStream.advance_ofLexer lexer, rfl, fun _ => rfl⟩

theorem mirrors_expect (kind : Token.Kind) :
    Mirrors (Step.expect kind) (Parse.expect kind) depth lexer := by
  apply Follows.peek_bind
  split
  · exact mirrors_advance
  · exact .fail _ rfl

/-- A token of the given kind is expected, and then a value made. -/
theorem mirrors_expect_pure {α : Type} (kind : Token.Kind) (value : α) :
    Mirrors (do Step.expect kind; pure value) (do Parse.expect kind; pure value) depth lexer := by
  refine .bind (mirrors_expect kind) (fun _ behind _ => ?_) rfl
  exact .pure value rfl

/-! ### Operands -/

theorem mirrors_operandRule
    (mirrors : ∀ power lexer, Mirrors (nested power) (plain power) depth lexer)
    (rule : OperandRule) :
    Mirrors (.ofOperandRule nested rule) (.ofOperandRule plain rule) depth lexer := by
  cases rule with
  | identifier =>
      apply Follows.current_bind
      exact .pure _ rfl
  | integer =>
      apply Follows.current_bind
      cases integerValue? lexer.next.1.literal with
      | some value => exact .pure _ rfl
      | none => exact .fail _ rfl
  | boolean =>
      apply Follows.current_bind
      exact .pure _ rfl
  | unary =>
      apply Follows.current_bind
      apply Follows.advance_bind
      refine .bind (mirrors .unary lexer.next.2) (fun right behind _ => ?_) rfl
      exact .pure _ rfl
  | group =>
      apply Follows.advance_bind
      refine .bind (mirrors .lowest lexer.next.2) (fun expr behind _ => ?_) rfl
      exact mirrors_expect_pure .closeParen expr

theorem mirrors_operand
    (mirrors : ∀ power lexer, Mirrors (nested power) (plain power) depth lexer) :
    Mirrors (.operand nested) (.operand plain) depth lexer := by
  apply Follows.current_bind
  cases RuleTable.monkey.operand? lexer.next.1.kind with
  | some rule => exact mirrors_operandRule mirrors rule
  | none => exact .fail _ rfl

/-! ### Folds -/

/-- The elements of a list, of which some have been read, are read in front of the others. -/
theorem mirrors_afterCommas {α : Type} {element : Step α} {plain : Parse α}
    (mirrors : ∀ lexer, Mirrors element plain depth lexer) (earlier : List α) :
    Mirrors (.afterCommas element earlier)
      (do let others ← Parse.afterCommas plain; pure (earlier ++ others)) depth lexer := by
  induction size_eq : lexer.tokens.length using Nat.strongRecOn generalizing lexer earlier with
  | ind size ih =>
      rw [Step.afterCommas_eq, Parse.append_afterCommas_eq]
      apply Follows.peek_bind
      by_cases comma : lexer.next.2.next.1.kind = .comma
      · simp only [comma, if_true]
        apply Follows.advance_bind
        apply Follows.advance_bind
        refine .bind (mirrors lexer.next.2.next.2) (fun value after le => ?_) rfl
        have shorter : lexer.next.2.next.2.tokens.length < lexer.tokens.length := by
          rw [← TokenStream.peek_ofLexer] at comma
          have passed := Parse.length_advance_advance_lt comma
          rwa [TokenStream.advance_ofLexer, TokenStream.advance_ofLexer] at passed
        exact ih after.tokens.length (size_eq ▸ Nat.lt_of_le_of_lt le shorter) _ rfl
      · simp only [comma, if_false]
        exact .pure earlier rfl

theorem mirrors_arguments
    (mirrors : ∀ power lexer, Mirrors (nested power) (plain power) depth lexer) :
    Mirrors (.arguments nested) (.arguments plain) depth lexer := by
  apply Follows.peek_bind
  apply Follows.advance_bind
  split
  · exact .pure _ rfl
  · refine .bind (mirrors .lowest lexer.next.2) (fun first after _ => ?_) rfl
    have plain_eq :
        (do
          let others ← Parse.afterCommas (plain .lowest)
          Parse.expect .closeParen
          pure (first :: others)) = (do
            let arguments ← (do
              let others ← Parse.afterCommas (plain .lowest)
              pure ([first] ++ others))
            Parse.expect .closeParen
            pure arguments) := by
      simp
    rw [plain_eq]
    refine .bind (mirrors_afterCommas (mirrors .lowest) [first])
      (fun arguments behind _ => ?_) rfl
    exact mirrors_expect_pure .closeParen arguments

theorem mirrors_foldRule (mirrors : ∀ power lexer, Mirrors (nested power) (plain power) depth lexer)
    (rule : FoldRule) :
    Mirrors (.ofFoldRule nested left rule) (.ofFoldRule plain left rule) depth lexer := by
  cases rule with
  | binary =>
      apply Follows.current_bind
      apply Follows.advance_bind
      refine .bind (mirrors _ lexer.next.2) (fun right behind _ => ?_) rfl
      exact .pure _ rfl
  | call =>
      apply Follows.current_bind
      refine .bind (mirrors_arguments mirrors) (fun arguments behind _ => ?_) rfl
      exact .pure _ rfl

/-- What the machine reads of an expression after its first operand.  A fold takes a level and does
not put it back. -/
theorem follows_folds (power : BindingPower)
    (mirrors : ∀ deeper, depth < deeper → deeper ≤ maxDepth → ∀ power lexer,
      Mirrors (nested power) (Parse.expression (maxDepth - deeper) power) deeper lexer) :
    Follows (fun _ => True) (.folds nested power left) (Parse.folds (maxDepth - depth) power left)
      depth lexer := by
  induction room_eq : maxDepth - depth generalizing depth left lexer with
  | zero =>
      rw [Step.folds_eq, Parse.folds_zero_eq]
      apply Follows.peek_bind
      cases Step.foldAbove power lexer.next.2.next.1.kind with
      | none => exact .pure left trivial
      | some rule =>
          refine .enterNesting_bind (fun free => ?_) (fun full => ?_)
          · exact absurd room_eq (Nat.sub_ne_zero_of_lt free)
          · exact ⟨rfl, trivial⟩
  | succ room ih =>
      rw [Step.folds_eq, Parse.folds_succ_eq]
      apply Follows.peek_bind
      cases Step.foldAbove power lexer.next.2.next.1.kind with
      | none => exact .pure left trivial
      | some rule =>
          have room_left : maxDepth - (depth + 1) = room := by omega
          refine .enterNesting_bind (fun free => ?_) (fun full => ?_)
          · have further := mirrors (depth + 1) (Nat.lt_succ_self depth) free
            rw [room_left] at further
            apply Follows.advance_bind
            refine .bind (mirrors_foldRule further rule) (fun longer after _ => ?_) trivial
            exact ih (fun deeper gt => mirrors deeper (Nat.lt_of_succ_lt gt)) room_left
          · omega

/-- With a budget for the levels that are free and one expression more, the machine reads the
expression that the parser reads, and puts back the levels in use. -/
theorem mirrors_expression {budget : Nat} (enough : maxDepth - depth < budget)
    (power : BindingPower) :
    Mirrors (.expression budget power) (Parse.expression (maxDepth - depth) power) depth lexer := by
  induction budget generalizing depth power lexer with
  | zero => contradiction
  | succ budget ih =>
      have nested (deeper : Nat) (gt : depth < deeper) (le : deeper ≤ maxDepth)
          (power : BindingPower) (lexer : Lexer) :
          Mirrors (.expression budget power) (Parse.expression (maxDepth - deeper) power)
            deeper lexer :=
        ih (by omega) power
      refine Follows.keepDepth (?_ : Follows (fun _ => True) _ _ _ _)
      refine .enterNesting_bind (fun free => ?_) (fun full => ⟨?_, trivial⟩)
      · have further := nested _ (Nat.lt_succ_self depth) free
        rw [maxDepth_sub_eq free, Parse.expression]
        refine .bind (mirrors_operand further) (fun left after _ => ?_) trivial
        apply follows_folds
        intro deeper gt
        exact nested deeper (Nat.lt_of_succ_lt gt)
      · rw [Nat.sub_eq_zero_of_le full, Parse.expression]

/-! ### Statements -/

section

variable {budget : Nat} (enough : maxDepth - depth < budget)

include enough

theorem mirrors_value (make : Expr → Stmt) :
    Mirrors
      (do
        let value ← Step.expression budget .lowest
        Step.expect .semicolon
        pure (make value))
      (do
        let value ← Parse.expression (maxDepth - depth) .lowest
        Parse.expect .semicolon
        pure (make value)) depth lexer := by
  refine .bind (mirrors_expression enough .lowest) (fun value behind _ => ?_) rfl
  exact mirrors_expect_pure .semicolon (make value)

theorem mirrors_binding :
    Mirrors (.binding budget) (Parse.binding (maxDepth - depth)) depth lexer := by
  apply Follows.current_bind
  refine .bind (mirrors_expect .identifier) (fun _ at_name _ => ?_) rfl
  apply Follows.current_bind
  refine .bind (mirrors_expect .assign) (fun _ at_assign _ => ?_) rfl
  apply Follows.advance_bind
  exact mirrors_value enough _

theorem mirrors_result :
    Mirrors (.result budget) (Parse.result (maxDepth - depth)) depth lexer := by
  apply Follows.current_bind
  apply Follows.advance_bind
  exact mirrors_value enough _

theorem mirrors_expressionStatement :
    Mirrors (.expressionStatement budget) (Parse.expressionStatement (maxDepth - depth)) depth
      lexer := by
  apply Follows.current_bind
  exact mirrors_value enough _

theorem mirrors_statementRule (rule : StatementRule) :
    Mirrors (.ofStatementRule budget rule) (.ofStatementRule (maxDepth - depth) rule) depth
      lexer := by
  cases rule with
  | binding => exact mirrors_binding enough
  | result => exact mirrors_result enough

theorem mirrors_statement :
    Mirrors (.statement budget) (Parse.statement (maxDepth - depth)) depth lexer := by
  apply Follows.current_bind
  cases RuleTable.monkey.statement? lexer.next.1.kind with
  | some rule => exact mirrors_statementRule enough rule
  | none => exact mirrors_expressionStatement enough

end

/-! ### Programs -/

/-- The machine passes over the tokens that the stream passes over. -/
theorem exists_synchronize (depth : Nat) (lexer : Lexer) :
    ∃ after, (TokenStream.ofLexer lexer).synchronize = .ofLexer after ∧
      ∀ diagnostics, Step.synchronize.run (.ofLexer lexer depth diagnostics) =
        (some (.ok ()), .ofLexer after depth diagnostics) := by
  induction size_eq : lexer.tokens.length using Nat.strongRecOn generalizing lexer with
  | ind size ih =>
      rw [TokenStream.synchronize_ofLexer]
      split
      · next stops => exact ⟨lexer, rfl, fun _ => (Step.run_synchronize _).trans (if_pos stops)⟩
      · next goes_on =>
          have shorter := Lexer.length_tokens_next_lt fun ended => goes_on (.inr ended)
          obtain ⟨after, stream_eq, run_eq⟩ := ih _ (size_eq ▸ shorter) lexer.next.2 rfl
          refine ⟨after, stream_eq, fun diagnostics => ?_⟩
          exact ((Step.run_synchronize _).trans (if_neg goes_on)).trans (run_eq diagnostics)

/-- From a lexer on the machine reads the statements among some outcomes behind those that it has
read, and adds the diagnostics among them behind those that it has found. -/
def Collects (budget depth : Nat) (lexer : Lexer)
    (outcomes : List (Except Diagnostic Stmt) × TokenStream) : Prop :=
  ∃ after, outcomes.2 = .ofLexer after ∧ ∀ earlier diagnostics,
    (Step.statements budget earlier).run (.ofLexer lexer depth diagnostics) =
      (some (.ok (earlier ++ statementsOf outcomes.1)),
        .ofLexer after depth (diagnostics ++ diagnosticsOf outcomes.1))

namespace Collects

variable {budget depth : Nat} {lexer between : Lexer} {stmt : Stmt} {diagnostic : Diagnostic}
  {others : List (Except Diagnostic Stmt) × TokenStream}

theorem nil (ended : lexer.next.1.kind = .endOfInput) :
    Collects budget depth lexer ([], .ofLexer lexer) := by
  refine ⟨lexer, rfl, fun earlier diagnostics => ?_⟩
  refine (Step.run_statements _ _ _).trans ((if_pos ended).trans ?_)
  simp [statementsOf, diagnosticsOf]

theorem ok (inside : lexer.next.1.kind ≠ .endOfInput)
    (read : ∀ diagnostics, (Step.statement budget).run (.ofLexer lexer depth diagnostics) =
      (some (.ok stmt), .ofLexer between depth diagnostics))
    (collects : Collects budget depth between.next.2 others) :
    Collects budget depth lexer (.ok stmt :: others.1, others.2) := by
  obtain ⟨after, left_eq, run_eq⟩ := collects
  refine ⟨after, left_eq, fun earlier diagnostics => ?_⟩
  refine (Step.run_statements _ _ _).trans ((if_neg inside).trans ?_)
  rw [read]
  refine (run_eq (earlier ++ [stmt]) diagnostics).trans ?_
  simp

theorem error (inside : lexer.next.1.kind ≠ .endOfInput)
    (read : ∀ diagnostics, (Step.statement budget).run (.ofLexer lexer depth diagnostics) =
      (some (.error diagnostic), .ofLexer between depth diagnostics))
    (collects : ∀ synced, (TokenStream.ofLexer between).synchronize = .ofLexer synced →
      Collects budget depth synced.next.2 others) :
    Collects budget depth lexer (.error diagnostic :: others.1, others.2) := by
  obtain ⟨synced, synced_eq, synced_run⟩ := exists_synchronize depth between
  obtain ⟨after, left_eq, run_eq⟩ := collects synced synced_eq
  refine ⟨after, left_eq, fun earlier diagnostics => ?_⟩
  refine (Step.run_statements _ _ _).trans ((if_neg inside).trans ?_)
  have recorded : (Step.record diagnostic).run (.ofLexer between depth diagnostics) =
      (some (.ok ()), .ofLexer between depth (diagnostics ++ [diagnostic])) := rfl
  simp only [read, Step.run_bind, recorded, synced_run]
  refine (run_eq earlier (diagnostics ++ [diagnostic])).trans ?_
  simp

end Collects

/-- With a budget for the levels that are free and one expression more, the machine reads the
program that the parser reads. -/
theorem collects_outcomes {budget : Nat} (enough : maxDepth - depth < budget) (lexer : Lexer) :
    Collects budget depth lexer (Parse.outcomes (maxDepth - depth) (.ofLexer lexer)) := by
  induction size_eq : lexer.tokens.length using Nat.strongRecOn generalizing lexer with
  | ind size ih =>
      rw [Parse.outcomes]
      split
      · next left =>
          have inside := (TokenStream.hasTokens_ofLexer lexer).mp left
          have shorter := Parse.length_resume_lt left (Parse.statement (maxDepth - depth))
          have mirrors : Mirrors (.statement budget) _ depth lexer := mirrors_statement enough
          obtain ⟨between, _, left_eq, rfl, read⟩ := mirrors
          rcases outcome : (Parse.statement (maxDepth - depth)).run (.ofLexer lexer) with
            ⟨diagnostic | stmt, stream⟩
          all_goals
            rw [outcome] at left_eq shorter read
            obtain rfl : stream = .ofLexer between := left_eq
          · refine .error inside read fun synced synced_eq => ?_
            rw [Parse.resume, synced_eq, TokenStream.advance_ofLexer] at shorter ⊢
            exact ih _ (size_eq ▸ shorter) _ rfl
          · refine .ok inside read ?_
            rw [Parse.resume, TokenStream.advance_ofLexer] at shorter ⊢
            exact ih _ (size_eq ▸ shorter) _ rfl
      · next ended =>
          exact .nil (Decidable.of_not_not (mt (TokenStream.hasTokens_ofLexer lexer).mpr ended))

end

end Machine

end MonkeySyntax
