import MonkeySyntax.Proofs.Window

/-!
# The counter of levels is only a guard

Two machines that differ in nothing but the levels in use are run side by side.  The one with fewer
levels in use does what the other one does, step by step, unless the other one refuses an expression
for want of levels.  So the counter decides whether such a refusal comes, and nothing else: no tree,
no other error and no place that is reached depends on it.
-/

namespace MonkeySyntax

/-- An outcome is a refusal for want of levels. -/
def IsTooDeep {α : Type} (outcome : Except Diagnostic α) : Prop :=
  ∃ position, outcome = .error ⟨.tooDeep maxDepth, position⟩

namespace Machine

/-- The second machine differs from the first at most in having more levels in use. -/
def Shallower (shallow deep : Machine) : Prop :=
  ∃ depth, shallow.depth ≤ depth ∧ deep = { shallow with depth }

namespace Step

variable {α β : Type}

/-- Whatever the step does from the deep machine, it does from the shallow one, unless the deep one
is refused for want of levels. -/
def Alike (step : Step α) (shallow deep : Machine) : Prop :=
  (∃ refusal : Except Diagnostic α, IsTooDeep refusal ∧ (step.run deep).1 = some refusal) ∨
    (step.run shallow).1 = (step.run deep).1 ∧
      (step.run shallow).2.Shallower (step.run deep).2

/-- The levels in use decide about nothing but a refusal for want of levels. -/
def Guarded (step : Step α) : Prop :=
  ∀ shallow deep : Machine, shallow.Shallower deep → step.Alike shallow deep

/-! ### Rules for steps -/

theorem Alike.bind {first : Step α} {second : α → Step β} {shallow deep : Machine}
    (earlier : first.Alike shallow deep)
    (later : ∀ value after deepAfter, first.run shallow = (some (.ok value), after) →
      after.Shallower deepAfter → (second value).Alike after deepAfter) :
    (first >>= second).Alike shallow deep := by
  unfold Alike at later ⊢
  simp only [run_bind]
  rcases earlier with ⟨_, ⟨position, rfl⟩, refused⟩ | ⟨same, shallower⟩
  · refine .inl ⟨_, ⟨position, rfl⟩, ?_⟩
    rw [← Prod.eta (first.run deep), refused]
  · generalize shallow_eq : first.run shallow = shallowRan at *
    generalize first.run deep = deepRan at *
    obtain ⟨outcome, after⟩ := shallowRan
    obtain ⟨_, deepAfter⟩ := deepRan
    obtain rfl : outcome = _ := same
    rcases outcome with _ | diagnostic | value
    · exact .inr ⟨rfl, shallower⟩
    · exact .inr ⟨rfl, shallower⟩
    · exact later value after deepAfter rfl shallower

namespace Guarded

variable {step first : Step α} {second : α → Step β}

theorem bind (earlier : first.Guarded) (later : ∀ value, (second value).Guarded) :
    (first >>= second).Guarded := by
  intro shallow deep shallower
  refine (earlier shallow deep shallower).bind ?_
  intro value after deep_after _ left
  exact later value after deep_after left

theorem pure (value : α) : (Pure.pure value : Step α).Guarded :=
  fun _ _ shallower => .inr ⟨rfl, shallower⟩

theorem fail (diagnostic : Diagnostic) : (Step.fail diagnostic : Step α).Guarded :=
  fun _ _ shallower => .inr ⟨rfl, shallower⟩

theorem giveUp : (Step.giveUp : Step α).Guarded :=
  fun _ _ shallower => .inr ⟨rfl, shallower⟩

theorem current : Step.current.Guarded := by
  rintro shallow _ ⟨depth, le, rfl⟩
  exact .inr ⟨rfl, depth, le, rfl⟩

theorem peek : Step.peek.Guarded := by
  rintro shallow _ ⟨depth, le, rfl⟩
  exact .inr ⟨rfl, depth, le, rfl⟩

theorem advance : Step.advance.Guarded := by
  rintro shallow _ ⟨depth, le, rfl⟩
  exact .inr ⟨rfl, depth, le, rfl⟩

theorem expect (kind : Token.Kind) : (Step.expect kind).Guarded := by
  refine .bind peek fun next => ?_
  split
  · exact advance
  · exact fail _

/-- A level that is free for the deep machine is free for the shallow one. -/
theorem enterNesting : Step.enterNesting.Guarded := by
  rintro shallow _ ⟨depth, le, rfl⟩
  by_cases free : depth < maxDepth
  · have shallow_free : shallow.depth < maxDepth := Nat.lt_of_le_of_lt le free
    refine .inr ?_
    simp only [Step.enterNesting, if_pos free, if_pos shallow_free, true_and]
    exact ⟨depth + 1, Nat.succ_le_succ le, rfl⟩
  · refine .inl ⟨_, ⟨shallow.current.span.start, rfl⟩, ?_⟩
    simp only [Step.enterNesting, if_neg free]

/-- The levels that are put back are as they were before, fewer in the shallow machine. -/
theorem keepDepth (guarded : step.Guarded) : (Step.keepDepth step).Guarded := by
  rintro shallow _ ⟨depth, le, rfl⟩
  refine (guarded shallow _ ⟨depth, le, rfl⟩).imp id fun ⟨same, _, _, left_eq⟩ => ⟨same, ?_⟩
  refine ⟨depth, le, ?_⟩
  simp only [Step.keepDepth, left_eq]

/-- Both machines take the same rounds of a loop. -/
theorem loop {round : α → Step (Option α)} (progresses : ∀ value, (round value).Progresses)
    (each : ∀ value, (round value).Guarded) (value : α) :
    (Step.loop round progresses value).Guarded := by
  intro shallow deep shallower
  induction left_eq : shallow.pending using Nat.strongRecOn generalizing value shallow deep with
  | ind left ih =>
      rw [loop_eq]
      refine (each value shallow deep shallower).bind fun next after deepAfter read left => ?_
      cases next with
      | none => exact pure value _ _ left
      | some next =>
          exact ih _ (left_eq ▸ progresses value shallow next after read) next _ _ left rfl

end Guarded

/-! ### Operands and folds -/

section

variable {nested : BindingPower → Step Expr} {left : Expr}

theorem guarded_integer : integer.Guarded := by
  refine .bind .current fun token => ?_
  cases integerValue? token.literal with
  | some value => exact .pure _
  | none => exact .fail _

section

variable (each : ∀ power, (nested power).Guarded)
include each

theorem guarded_operandRule (rule : OperandRule) : (ofOperandRule nested rule).Guarded := by
  cases rule with
  | identifier =>
      refine .bind .current fun token => ?_
      exact .pure _
  | integer => exact guarded_integer
  | boolean =>
      refine .bind .current fun token => ?_
      exact .pure _
  | unary =>
      refine .bind .current fun token => ?_
      refine .bind .advance fun _ => ?_
      refine .bind (each .unary) fun right => ?_
      exact .pure _
  | group =>
      refine .bind .advance fun _ => ?_
      refine .bind (each .lowest) fun expr => ?_
      refine .bind (.expect .closeParen) fun _ => ?_
      exact .pure expr

theorem guarded_operand : (operand nested).Guarded := by
  refine .bind .current fun token => ?_
  cases RuleTable.monkey.operand? token.kind with
  | some rule => exact guarded_operandRule each rule
  | none => exact .fail _

theorem guarded_elementAfterComma (earlier : List Expr) :
    (elementAfterComma (nested .lowest) earlier).Guarded := by
  refine .bind .peek fun next => ?_
  split
  · refine .bind .advance fun _ => ?_
    refine .bind .advance fun _ => ?_
    refine .bind (each .lowest) fun value => ?_
    exact .pure _
  · exact .pure _

theorem guarded_arguments : (arguments nested).Guarded := by
  refine .bind .peek fun next => ?_
  refine .bind .advance fun _ => ?_
  split
  · exact .pure _
  · refine .bind (each .lowest) fun first => ?_
    refine .bind (.loop _ (guarded_elementAfterComma each) [first]) fun arguments => ?_
    refine .bind (.expect .closeParen) fun _ => ?_
    exact .pure arguments

theorem guarded_foldRule (rule : FoldRule) : (ofFoldRule nested left rule).Guarded := by
  cases rule with
  | binary =>
      refine .bind .current fun token => ?_
      refine .bind .advance fun _ => ?_
      refine .bind (each _) fun right => ?_
      exact .pure _
  | call =>
      refine .bind .current fun token => ?_
      refine .bind (guarded_arguments each) fun arguments => ?_
      exact .pure _

theorem guarded_nextFold (power : BindingPower) (left : Expr) :
    (nextFold nested power left).Guarded := by
  refine .bind .peek fun next => ?_
  cases foldAbove power next.kind with
  | some rule =>
      refine .bind .enterNesting fun _ => ?_
      refine .bind .advance fun _ => ?_
      refine .bind (guarded_foldRule each rule) fun longer => ?_
      exact .pure _
  | none => exact .pure _

theorem guarded_folds (power : BindingPower) (left : Expr) :
    (folds nested power left).Guarded :=
  .loop _ (guarded_nextFold each power) left

end

end

/-! ### Expressions and statements -/

theorem guarded_expression (budget : Nat) (power : BindingPower) :
    (expression budget power).Guarded := by
  induction budget generalizing power with
  | zero => exact .giveUp
  | succ budget ih =>
      apply Guarded.keepDepth
      refine .bind .enterNesting fun _ => ?_
      refine .bind (guarded_operand ih) fun left => ?_
      exact guarded_folds ih power left

/-- A statement ends with an expression and a semicolon. -/
theorem guarded_value (budget : Nat) (make : Expr → Stmt) :
    (do
      let value ← expression budget .lowest
      expect .semicolon
      Pure.pure (make value) : Step Stmt).Guarded := by
  refine .bind (guarded_expression budget .lowest) fun value => ?_
  refine .bind (.expect .semicolon) fun _ => ?_
  exact .pure (make value)

theorem guarded_statementRule (budget : Nat) (rule : StatementRule) :
    (ofStatementRule budget rule).Guarded := by
  cases rule with
  | binding =>
      refine .bind .current fun keyword => ?_
      refine .bind (.expect .identifier) fun _ => ?_
      refine .bind .current fun name => ?_
      refine .bind (.expect .assign) fun _ => ?_
      refine .bind .advance fun _ => ?_
      exact guarded_value budget _
  | result =>
      refine .bind .current fun keyword => ?_
      refine .bind .advance fun _ => ?_
      exact guarded_value budget _

theorem guarded_statement (budget : Nat) : (statement budget).Guarded := by
  refine .bind .current fun token => ?_
  cases RuleTable.monkey.statement? token.kind with
  | some rule => exact guarded_statementRule budget rule
  | none =>
      refine .bind .current fun first => ?_
      exact guarded_value budget _

end Step

end Machine

/-! ### Two states of a parser -/

/-- A call that both machines answer with the same step. -/
theorem Call.alike_of_guarded {call : Call} (guarded : call.step.Guarded)
    {shallow deep : Machine} {first second : Parser} (first_shown : shallow.Shows first)
    (second_shown : deep.Shows second) (shallower : shallow.Shallower deep) :
    IsTooDeep (call.on second).1 ∨
      (call.on first).1 = (call.on second).1 ∧
        (call.step.run shallow).2.Shallower (call.step.run deep).2 := by
  have first_answer := (call.step_shows first_shown).1
  have second_answer := (call.step_shows second_shown).1
  rcases guarded shallow deep shallower with ⟨refusal, too_deep, refused⟩ | ⟨same, left⟩
  · obtain rfl := Option.some.inj (second_answer.symm.trans refused)
    exact .inl too_deep
  · exact .inr ⟨Option.some.inj (first_answer.symm.trans (same.trans second_answer)), left⟩

/-- Two states of a parser that differ at most in the levels in use, the second having more of them,
read an expression or a statement alike: the first answers with the same tree or the same error as
the second and reaches the same place, unless the second is refused for want of levels.  If the
first is refused for want of levels, then so is the second. -/
theorem depth_only_guards (source : String) (calls others : List Call)
    (shallower : ((Machine.ofString source).after calls).Shallower
      ((Machine.ofString source).after others)) (power : BindingPower) :
    ∀ call ∈ [Call.expression power, Call.statement],
      let first := call.on ((Parser.ofString source).after calls)
      let second := call.on ((Parser.ofString source).after others)
      let firstMachine := (Machine.ofString source).after (calls ++ [call])
      let secondMachine := (Machine.ofString source).after (others ++ [call])
      (¬ IsTooDeep second.1 →
        first.1 = second.1 ∧ firstMachine.current = secondMachine.current ∧
          firstMachine.peek = secondMachine.peek ∧ firstMachine.lexer = secondMachine.lexer) ∧
      (IsTooDeep first.1 → IsTooDeep second.1) := by
  intro call mem first second firstMachine secondMachine
  have guarded : call.step.Guarded := by
    simp only [List.mem_cons, List.not_mem_nil, or_false] at mem
    rcases mem with rfl | rfl
    · exact Machine.Step.guarded_expression _ power
    · exact Machine.Step.guarded_statement _
  have after_eq (calls : List Call) : (Machine.ofString source).after (calls ++ [call]) =
      (call.step.run ((Machine.ofString source).after calls)).2 := by
    simp only [Machine.after, List.foldl_append, List.foldl_cons, List.foldl_nil]
  have alike := Call.alike_of_guarded guarded ((Machine.shows_ofString source).after calls)
    ((Machine.shows_ofString source).after others) shallower
  rw [← after_eq, ← after_eq] at alike
  refine ⟨fun answers => ?_, fun too_deep => ?_⟩
  · obtain ⟨same, depth, -, machine_eq⟩ := alike.resolve_left answers
    refine ⟨same, ?_⟩
    simp only [firstMachine, secondMachine, machine_eq, and_self]
  · rcases alike with second_too_deep | ⟨same, -⟩
    · exact second_too_deep
    · rwa [← same]

/-- Two levels are just enough for a name in parentheses.  The name behind it is then refused as it
is where all levels are free. -/
theorem depth_only_guards_unexpected :
    ((Machine.ofString "(a) b;").after []).Shallower
        ((Machine.ofString "(a) b;").after [.resetDepth 254]) ∧
      ((Parser.ofString "(a) b;").resetDepth 254).statement.1 =
        .error ⟨.unexpectedToken .semicolon .identifier, .ofOffset 4⟩ ∧
      (Parser.ofString "(a) b;").statement.1 =
        .error ⟨.unexpectedToken .semicolon .identifier, .ofOffset 4⟩ := by
  have shallower : ((Machine.ofString "(a) b;").after []).Shallower
      ((Machine.ofString "(a) b;").after [.resetDepth 254]) := ⟨254, Nat.zero_le _, rfl⟩
  have refused : ((Parser.ofString "(a) b;").resetDepth 254).statement.1 =
      .error ⟨.unexpectedToken .semicolon .identifier, .ofOffset 4⟩ := by
    decide +kernel
  have answers : ¬ IsTooDeep ((Parser.ofString "(a) b;").resetDepth 254).statement.1 := by
    rintro ⟨position, too_deep⟩
    rw [refused] at too_deep
    simp at too_deep
  have same := (depth_only_guards "(a) b;" [] [.resetDepth 254] shallower .lowest .statement
    (by simp)).1 answers
  exact ⟨shallower, refused, same.1.trans refused⟩

end MonkeySyntax
