import Mathlib.Data.List.Forall2
import MonkeySyntax.Parser
import MonkeySyntax.Proofs.Coherence
import MonkeySyntax.Proofs.Confinement

/-!
# Reading two streams side by side

Two streams correspond if they have tokens of the same kinds and texts, one by one.  No step looks
at a place, so steps that run on corresponding streams do the same: both yield values that are the
same up to places, or both fail for the same cause at corresponding tokens, and the streams that
they leave correspond again.  Along the way the tokens may be told apart further: `paired` is any
relation that holds of the tokens that stand for each other.
-/

namespace MonkeySyntax

/-! ### Corresponding streams -/

/-- Two tokens have the same kind and text, and they are paired. -/
structure Token.Corresponds (paired : Token → Token → Prop) (first second : Token) : Prop where
  /-- The tokens differ in their places only. -/
  erase_eq : first.erase = second.erase
  /-- The tokens stand for each other. -/
  pair : paired first second

/-- Two streams have corresponding tokens, those at their ends included. -/
structure TokenStream.Corresponds (paired : Token → Token → Prop) (first second : TokenStream) :
    Prop where
  /-- The tokens to come correspond one by one. -/
  tokens : List.Forall₂ (Token.Corresponds paired) first.tokens second.tokens
  /-- The streams end alike. -/
  ending : (Token.endOfInput first.size).Corresponds paired (.endOfInput second.size)

/-- Two diagnostics have the same cause and stand at tokens that are paired. -/
structure Diagnostic.Corresponds (paired : Token → Token → Prop) (first second : Diagnostic) :
    Prop where
  /-- The diagnostics differ in their places only. -/
  cause_eq : first.cause = second.cause
  /-- The places are those of tokens that stand for each other. -/
  places : ∃ token other, paired token other ∧ token.span.start = first.position ∧
    other.span.start = second.position

/-- Two expressions are the same up to the places of their tokens. -/
structure Expr.Corresponds (first second : Expr) : Prop where
  /-- The expressions are equal once the places are erased. -/
  erase_eq : first.erase = second.erase

/-- A statement without the places of its tokens. -/
def Stmt.erasePlaces : Stmt → Stmt
  | binding token name value => binding token.erase ⟨name.token.erase, name.value⟩ value.erase
  | result token value => result token.erase value.erase
  | expression token expr => expression token.erase expr.erase

/-- Two statements are the same up to the places of their tokens. -/
structure Stmt.Corresponds (first second : Stmt) : Prop where
  /-- The statements are equal once the places are erased. -/
  erase_eq : first.erasePlaces = second.erasePlaces

/-- What related elements have in common, related lists have in common element by element. -/
theorem map_eq_map_of_forall₂ {α β γ : Type} {related : α → β → Prop} {first : α → γ}
    {second : β → γ} (common : ∀ value other, related value other → first value = second other)
    {values : List α} {others : List β} (all : List.Forall₂ related values others) :
    values.map first = others.map second := by
  rw [← List.forall₂_eq_eq_eq, List.forall₂_map_left_iff, List.forall₂_map_right_iff]
  exact all.imp common

theorem Stmt.Corresponds.map_erasePlaces_eq {statements others : List Stmt}
    (all : List.Forall₂ Stmt.Corresponds statements others) :
    statements.map Stmt.erasePlaces = others.map Stmt.erasePlaces :=
  map_eq_map_of_forall₂ (fun _ _ same => same.erase_eq) all

section

variable {paired : Token → Token → Prop} {α β γ δ : Type}

/-- Two outcomes are values that are related, or corresponding diagnostics. -/
inductive OutcomesCorrespond (paired : Token → Token → Prop) (related : α → β → Prop) :
    Except Diagnostic α → Except Diagnostic β → Prop where
  | ok {value : α} {other : β} (holds : related value other) :
      OutcomesCorrespond paired related (.ok value) (.ok other)
  | error {first second : Diagnostic} (corresponds : first.Corresponds paired second) :
      OutcomesCorrespond paired related (.error first) (.error second)

theorem Token.Corresponds.kind_eq {first second : Token}
    (corresponds : first.Corresponds paired second) : first.kind = second.kind :=
  kind_eq_of_erase corresponds.erase_eq

theorem Token.Corresponds.literal_eq {first second : Token}
    (corresponds : first.Corresponds paired second) : first.literal = second.literal :=
  literal_eq_of_erase corresponds.erase_eq

/-- Where corresponding tokens stand, steps fail for the same cause. -/
theorem Token.Corresponds.diagnostic {first second : Token}
    (corresponds : first.Corresponds paired second) (cause : SyntaxError) :
    Diagnostic.Corresponds paired ⟨cause, first.span.start⟩ ⟨cause, second.span.start⟩ :=
  ⟨rfl, first, second, corresponds.pair, rfl, rfl⟩

theorem Token.Corresponds.dropWhile {tokens others : List Token}
    (correspond : List.Forall₂ (Token.Corresponds paired) tokens others) :
    List.Forall₂ (Token.Corresponds paired) (tokens.dropWhile (·.kind ≠ .semicolon))
      (others.dropWhile (·.kind ≠ .semicolon)) := by
  induction correspond with
  | nil => exact .nil
  | @cons token other tokens others head tail ih =>
      by_cases kind_eq : token.kind = .semicolon
      · have other_kind : other.kind = .semicolon := head.kind_eq ▸ kind_eq
        rw [List.dropWhile_cons_of_neg (by simp [kind_eq]),
          List.dropWhile_cons_of_neg (by simp [other_kind])]
        exact .cons head tail
      · have other_kind : other.kind ≠ .semicolon := head.kind_eq ▸ kind_eq
        rw [List.dropWhile_cons_of_pos (by simp [kind_eq]),
          List.dropWhile_cons_of_pos (by simp [other_kind])]
        exact ih

namespace TokenStream.Corresponds

variable {first second : TokenStream}

theorem current (corresponds : first.Corresponds paired second) :
    first.current.Corresponds paired second.current := by
  obtain ⟨tokens, size⟩ := first
  obtain ⟨others, otherSize⟩ := second
  cases corresponds.tokens with
  | nil => exact corresponds.ending
  | cons head _ => exact head

theorem advance (corresponds : first.Corresponds paired second) :
    first.advance.Corresponds paired second.advance := by
  obtain ⟨tokens, size⟩ := first
  obtain ⟨others, otherSize⟩ := second
  refine ⟨?_, corresponds.ending⟩
  cases corresponds.tokens with
  | nil => exact .nil
  | cons _ tail => exact tail

theorem peek (corresponds : first.Corresponds paired second) :
    first.peek.Corresponds paired second.peek :=
  corresponds.advance.current

theorem hasTokens_eq (corresponds : first.Corresponds paired second) :
    first.hasTokens = second.hasTokens := by
  rw [TokenStream.hasTokens, TokenStream.hasTokens, corresponds.current.kind_eq]

theorem synchronize (corresponds : first.Corresponds paired second) :
    first.synchronize.Corresponds paired second.synchronize :=
  ⟨Token.Corresponds.dropWhile corresponds.tokens, corresponds.ending⟩

end TokenStream.Corresponds

namespace Parse

/-- On these streams the steps have outcomes that correspond, and leave streams that correspond. -/
structure Agree (paired : Token → Token → Prop) (related : α → β → Prop) (step : Parse α)
    (other : Parse β) (first second : TokenStream) : Prop where
  /-- The outcomes correspond. -/
  outcomes : OutcomesCorrespond paired related (step.run first).1 (other.run second).1
  /-- Reading goes on at corresponding places. -/
  left : (step.run first).2.Corresponds paired (other.run second).2

/-- The steps agree on all streams that correspond. -/
def Parallel (paired : Token → Token → Prop) (related : α → β → Prop) (step : Parse α)
    (other : Parse β) : Prop :=
  ∀ first second : TokenStream, first.Corresponds paired second →
    Agree paired related step other first second

/-- Steps that run like others, be it elsewhere, agree as those do. -/
theorem Agree.of_run_eq {related : α → β → Prop} {step same : Parse α} {other alike : Parse β}
    {first second after otherAfter : TokenStream} (run_eq : step.run first = same.run after)
    (otherRun_eq : other.run second = alike.run otherAfter)
    (agree : Agree paired related same alike after otherAfter) :
    Agree paired related step other first second := by
  obtain ⟨outcomes, left⟩ := agree
  rw [← run_eq, ← otherRun_eq] at outcomes left
  exact ⟨outcomes, left⟩

/-- Two failures are final on both sides, and two values go on side by side. -/
theorem Agree.bind {related : α → β → Prop} {between : γ → δ → Prop} {step : Parse γ}
    {other : Parse δ} {next : γ → Parse α} {otherNext : δ → Parse β} {first second : TokenStream}
    (earlier : Agree paired between step other first second)
    (later : ∀ value otherValue after otherAfter, between value otherValue →
      after.IsRestOf first → after.Corresponds paired otherAfter →
        Agree paired related (next value) (otherNext otherValue) after otherAfter) :
    Agree paired related (step >>= next) (other >>= otherNext) first second := by
  obtain ⟨outcomes, left⟩ := earlier
  have rest := step.run_isRestOf first
  have run_eq := run_bind step next first
  have otherRun_eq := run_bind other otherNext second
  generalize step.run first = ran, other.run second = otherRan at *
  obtain ⟨outcome, after⟩ := ran
  obtain ⟨otherOutcome, otherAfter⟩ := otherRan
  cases outcomes with
  | ok holds => exact .of_run_eq run_eq otherRun_eq (later _ _ after otherAfter holds rest left)
  | @error diagnostic other failures =>
      exact @of_run_eq _ _ _ _ _ (fail diagnostic) _ (fail other) _ _ _ _ run_eq otherRun_eq
        ⟨.error failures, left⟩

namespace Parallel

variable {related : α → β → Prop} {between : γ → δ → Prop}

theorem pure {value : α} {other : β} (holds : related value other) :
    Parallel paired related (Pure.pure value) (Pure.pure other) :=
  fun _ _ corresponds => ⟨.ok holds, corresponds⟩

theorem fail {diagnostic other : Diagnostic} (corresponds : diagnostic.Corresponds paired other) :
    Parallel paired related (Parse.fail diagnostic) (Parse.fail other) :=
  fun _ _ streams => ⟨.error corresponds, streams⟩

theorem bind {step : Parse γ} {other : Parse δ} {next : γ → Parse α} {otherNext : δ → Parse β}
    (earlier : Parallel paired between step other)
    (later : ∀ value otherValue, between value otherValue →
      Parallel paired related (next value) (otherNext otherValue)) :
    Parallel paired related (step >>= next) (other >>= otherNext) := by
  intro first second corresponds
  refine (earlier first second corresponds).bind ?_
  intro value otherValue after otherAfter holds _
  exact later value otherValue holds after otherAfter

/-- Both sides see corresponding current tokens. -/
theorem current_bind {next : Token → Parse α} {otherNext : Token → Parse β}
    (later : ∀ token other, token.Corresponds paired other →
      Parallel paired related (next token) (otherNext other)) :
    Parallel paired related (current >>= next) (current >>= otherNext) :=
  .bind (fun _ _ corresponds => ⟨.ok corresponds.current, corresponds⟩) later

/-- Both sides see corresponding next tokens. -/
theorem peek_bind {next : Token → Parse α} {otherNext : Token → Parse β}
    (later : ∀ token other, token.Corresponds paired other →
      Parallel paired related (next token) (otherNext other)) :
    Parallel paired related (peek >>= next) (peek >>= otherNext) :=
  .bind (fun _ _ corresponds => ⟨.ok corresponds.peek, corresponds⟩) later

theorem advance_bind {next : Unit → Parse α} {otherNext : Unit → Parse β}
    (later : Parallel paired related (next ()) (otherNext ())) :
    Parallel paired related (advance >>= next) (advance >>= otherNext) := by
  have passed : Parallel paired (fun (_ _ : Unit) => True) advance advance :=
    fun _ _ corresponds => ⟨.ok trivial, corresponds.advance⟩
  exact passed.bind fun _ _ _ => later

theorem expect_bind (kind : Token.Kind) {next : Unit → Parse α} {otherNext : Unit → Parse β}
    (later : Parallel paired related (next ()) (otherNext ())) :
    Parallel paired related (expect kind >>= next) (expect kind >>= otherNext) := by
  have expected : Parallel paired (fun (_ _ : Unit) => True) (expect kind) (expect kind) := by
    refine .peek_bind fun token other corresponds => ?_
    rw [← corresponds.kind_eq]
    split
    · exact fun _ _ streams => ⟨.ok trivial, streams.advance⟩
    · exact .fail (corresponds.diagnostic _)
  exact expected.bind fun _ _ _ => later

theorem tooDeep : Parallel paired related (Parse.tooDeep) (Parse.tooDeep) :=
  .current_bind fun _ _ corresponds => .fail (corresponds.diagnostic _)

/-- Elements that are read side by side are as many on both sides. -/
theorem afterCommas {element : Parse α} {other : Parse β}
    (each : Parallel paired related element other) :
    Parallel paired (List.Forall₂ related) (afterCommas element) (afterCommas other) := by
  intro first second corresponds
  induction length : first.tokens.length using Nat.strongRecOn generalizing first second with
  | ind count ih =>
      have kind_eq := corresponds.peek.kind_eq
      by_cases comma : first.peek.kind = .comma
      · have shorter := length_advance_advance_lt comma
        refine .of_run_eq (run_afterCommas_of_comma comma)
          (run_afterCommas_of_comma (kind_eq ▸ comma)) ?_
        refine (each _ _ corresponds.advance.advance).bind
          fun value otherValue after otherAfter holds rest left => ?_
        have fewer : after.tokens.length < count :=
          length ▸ Nat.lt_of_le_of_lt rest.length_le shorter
        refine (ih _ fewer after otherAfter left rfl).bind
          fun others moreOthers after otherAfter all _ left => ?_
        exact ⟨.ok (.cons holds all), left⟩
      · exact .of_run_eq (run_afterCommas_of_ne comma) (run_afterCommas_of_ne (kind_eq ▸ comma))
          (Parallel.pure .nil first second corresponds)

end Parallel

/-! ### Operands and folds -/

section

variable {nested : BindingPower → Parse Expr} {left otherLeft : Expr}

theorem parallel_identifier : Parallel paired Expr.Corresponds identifier identifier :=
  .current_bind fun token other corresponds => .pure
    ⟨by simp [Expr.erase, corresponds.erase_eq, corresponds.literal_eq]⟩

theorem parallel_integer : Parallel paired Expr.Corresponds integer integer := by
  refine .current_bind fun token other corresponds => ?_
  rw [← corresponds.literal_eq]
  split
  · exact .pure ⟨by simp [Expr.erase, corresponds.erase_eq]⟩
  · exact .fail (corresponds.diagnostic _)

theorem parallel_boolean : Parallel paired Expr.Corresponds boolean boolean :=
  .current_bind fun token other corresponds => .pure
    ⟨by simp [Expr.erase, corresponds.erase_eq, corresponds.kind_eq]⟩

section

variable (each : ∀ power, Parallel paired Expr.Corresponds (nested power) (nested power))
include each

theorem parallel_unary : Parallel paired Expr.Corresponds (unary nested) (unary nested) := by
  refine .current_bind fun token other corresponds => ?_
  apply Parallel.advance_bind
  refine (each .unary).bind fun right otherRight same => ?_
  refine .pure ⟨?_⟩
  simp [Expr.erase, corresponds.erase_eq, corresponds.literal_eq, same.erase_eq]

theorem parallel_group : Parallel paired Expr.Corresponds (group nested) (group nested) := by
  apply Parallel.advance_bind
  refine (each .lowest).bind fun expr otherExpr same => ?_
  apply Parallel.expect_bind
  exact .pure same

theorem parallel_operand : Parallel paired Expr.Corresponds (operand nested) (operand nested) := by
  refine .current_bind fun token other corresponds => ?_
  rw [← corresponds.kind_eq]
  split
  · next rule found =>
      cases rule with
      | identifier => exact parallel_identifier
      | integer => exact parallel_integer
      | boolean => exact parallel_boolean
      | unary => exact parallel_unary each
      | group => exact parallel_group each
  · exact .fail (corresponds.diagnostic _)

theorem parallel_binary (same : left.Corresponds otherLeft) :
    Parallel paired Expr.Corresponds (binary nested left) (binary nested otherLeft) := by
  refine .current_bind fun token other corresponds => ?_
  apply Parallel.advance_bind
  rw [← corresponds.kind_eq]
  refine (each _).bind fun right otherRight right_same => ?_
  refine .pure ⟨?_⟩
  simp [Expr.erase, corresponds.erase_eq, corresponds.literal_eq, same.erase_eq,
    right_same.erase_eq]

theorem parallel_arguments :
    Parallel paired (List.Forall₂ Expr.Corresponds) (arguments nested) (arguments nested) := by
  refine .peek_bind fun token other corresponds => ?_
  apply Parallel.advance_bind
  rw [← corresponds.kind_eq]
  split
  · exact .pure .nil
  · refine (each .lowest).bind fun first otherFirst same => ?_
    refine (Parallel.afterCommas (each .lowest)).bind fun others moreOthers all => ?_
    apply Parallel.expect_bind
    exact .pure (.cons same all)

theorem parallel_call (same : left.Corresponds otherLeft) :
    Parallel paired Expr.Corresponds (call nested left) (call nested otherLeft) := by
  refine .current_bind fun token other corresponds => ?_
  refine (parallel_arguments each).bind fun exprs otherExprs all => ?_
  refine .pure ⟨?_⟩
  have exprs_eq := map_eq_map_of_forall₂ (fun _ _ same => same.erase_eq) all
  simp [Expr.erase, corresponds.erase_eq, same.erase_eq, exprs_eq]

theorem parallel_fold (rule : FoldRule) (same : left.Corresponds otherLeft) :
    Parallel paired Expr.Corresponds (ofFoldRule nested left rule)
      (ofFoldRule nested otherLeft rule) := by
  cases rule with
  | binary => exact parallel_binary each same
  | call => exact parallel_call each same

end

theorem parallel_foldAbove (power : BindingPower) :
    Parallel paired Eq (foldAbove power) (foldAbove power) := by
  refine .peek_bind fun token other corresponds => ?_
  rw [← corresponds.kind_eq]
  split <;> exact .pure rfl

end

/-! ### Expressions and statements -/

/-- What is read behind a left operand is the same up to places if the operand is. -/
theorem parallel_folds {room : Nat}
    (nested : ∀ inner < room, ∀ power, Parallel paired Expr.Corresponds (expression inner power)
      (expression inner power)) (power : BindingPower) {left otherLeft : Expr}
    (same : left.Corresponds otherLeft) :
    Parallel paired Expr.Corresponds (folds room power left) (folds room power otherLeft) := by
  induction room generalizing left otherLeft with
  | zero =>
      rw [folds, folds]
      refine (parallel_foldAbove power).bind fun found _ found_eq => found_eq ▸ ?_
      cases found with
      | none => exact .pure same
      | some rule => exact .tooDeep
  | succ room ih =>
      rw [folds, folds]
      refine (parallel_foldAbove power).bind fun found _ found_eq => found_eq ▸ ?_
      cases found with
      | none => exact .pure same
      | some rule =>
          have each := nested room (Nat.lt_succ_self room)
          apply Parallel.advance_bind
          refine (parallel_fold each rule same).bind fun longer otherLonger longer_same => ?_
          exact ih (fun inner lt => nested inner (Nat.lt_succ_of_lt lt)) longer_same

theorem parallel_expression (room : Nat) (power : BindingPower) :
    Parallel paired Expr.Corresponds (expression room power) (expression room power) := by
  induction room using Nat.strongRecOn generalizing power with
  | ind room ih =>
      cases room with
      | zero =>
          rw [expression]
          exact .tooDeep
      | succ room =>
          rw [expression]
          refine (parallel_operand (ih room (Nat.lt_succ_self room))).bind
            fun left otherLeft same => ?_
          exact parallel_folds (fun inner lt => ih inner (Nat.lt_succ_of_lt lt)) power same

theorem parallel_binding (room : Nat) :
    Parallel paired Stmt.Corresponds (binding room) (binding room) := by
  refine .current_bind fun keyword otherKeyword keywords => ?_
  apply Parallel.expect_bind
  refine .current_bind fun name otherName names => ?_
  apply Parallel.expect_bind
  apply Parallel.advance_bind
  refine (parallel_expression room .lowest).bind fun value otherValue same => ?_
  apply Parallel.expect_bind
  refine .pure ⟨?_⟩
  simp [Stmt.erasePlaces, keywords.erase_eq, names.erase_eq, names.literal_eq,
    same.erase_eq]

theorem parallel_result (room : Nat) :
    Parallel paired Stmt.Corresponds (result room) (result room) := by
  refine .current_bind fun keyword otherKeyword keywords => ?_
  apply Parallel.advance_bind
  refine (parallel_expression room .lowest).bind fun value otherValue same => ?_
  apply Parallel.expect_bind
  refine .pure ⟨?_⟩
  simp [Stmt.erasePlaces, keywords.erase_eq, same.erase_eq]

theorem parallel_expressionStatement (room : Nat) :
    Parallel paired Stmt.Corresponds (expressionStatement room) (expressionStatement room) := by
  refine .current_bind fun token other corresponds => ?_
  refine (parallel_expression room .lowest).bind fun expr otherExpr same => ?_
  apply Parallel.expect_bind
  refine .pure ⟨?_⟩
  simp [Stmt.erasePlaces, corresponds.erase_eq, same.erase_eq]

theorem parallel_statement (room : Nat) :
    Parallel paired Stmt.Corresponds (statement room) (statement room) := by
  refine .current_bind fun token other corresponds => ?_
  rw [← corresponds.kind_eq]
  split
  · next rule found =>
      cases rule with
      | binding => exact parallel_binding room
      | result => exact parallel_result room
  · exact parallel_expressionStatement room

/-! ### Programs -/

/-- After a success as after a failure, reading goes on at corresponding places. -/
theorem Agree.resume {step : Parse Stmt} {first second : TokenStream}
    (agree : Agree paired Stmt.Corresponds step step first second) :
    (resume (step.run first)).Corresponds paired (resume (step.run second)) := by
  obtain ⟨outcomes, left⟩ := agree
  generalize step.run first = ran, step.run second = otherRan at outcomes left ⊢
  obtain ⟨outcome, after⟩ := ran
  obtain ⟨otherOutcome, otherAfter⟩ := otherRan
  cases outcomes with
  | ok _ => exact left.advance
  | error _ => exact left.synchronize.advance

/-- Corresponding streams have as many statements, and their outcomes correspond one by one. -/
theorem outcomes_correspond (room : Nat) {first second : TokenStream}
    (corresponds : first.Corresponds paired second) :
    List.Forall₂ (OutcomesCorrespond paired Stmt.Corresponds) (outcomes room first).1
      (outcomes room second).1 := by
  induction length : first.tokens.length using Nat.strongRecOn generalizing first second with
  | ind count ih =>
      by_cases left : first.hasTokens = true
      · have other_left : second.hasTokens = true := corresponds.hasTokens_eq ▸ left
        have agree := parallel_statement room first second corresponds
        have fewer := length_resume_lt left (statement room)
        rw [outcomes, dif_pos left, outcomes.eq_def room second, dif_pos other_left]
        exact .cons agree.outcomes (ih _ (length ▸ fewer) agree.resume rfl)
      · have other_left : ¬ second.hasTokens = true := corresponds.hasTokens_eq ▸ left
        rw [outcomes, dif_neg left, outcomes.eq_def room second, dif_neg other_left]
        exact .nil

end Parse

theorem statementsOf_correspond {outcomes others : List (Except Diagnostic Stmt)}
    (correspond : List.Forall₂ (OutcomesCorrespond paired Stmt.Corresponds) outcomes others) :
    List.Forall₂ Stmt.Corresponds (statementsOf outcomes) (statementsOf others) := by
  induction correspond with
  | nil => exact .nil
  | cons head _ ih =>
      cases head with
      | ok same => exact .cons same ih
      | error _ => exact ih

theorem diagnosticsOf_correspond {outcomes others : List (Except Diagnostic Stmt)}
    (correspond : List.Forall₂ (OutcomesCorrespond paired Stmt.Corresponds) outcomes others) :
    List.Forall₂ (Diagnostic.Corresponds paired) (diagnosticsOf outcomes)
      (diagnosticsOf others) := by
  induction correspond with
  | nil => exact .nil
  | cons head _ ih =>
      cases head with
      | ok _ => exact ih
      | error same => exact .cons same ih

/-- A message does not mention a place. -/
theorem Diagnostic.Corresponds.map_message_eq {diagnostics others : List Diagnostic}
    (all : List.Forall₂ (Diagnostic.Corresponds paired) diagnostics others) :
    diagnostics.map Diagnostic.message = others.map Diagnostic.message :=
  map_eq_map_of_forall₂ (fun _ _ same => congrArg SyntaxError.message same.cause_eq) all

end

end MonkeySyntax
