import Mathlib.Logic.Relation
import MonkeySyntax.Proofs.Window

/-!
# The expressions that are open

The machine calls itself for every expression within an expression.  Here the calls that have not
returned are frames of a stack, and what the machine does between two calls is one move: it takes
a level, reads an operand up to the expression that this needs, puts back the levels in use.

The levels in use count the open expressions, those with a level of their own.  Only the innermost
one may have none, because it has just been begun or has been refused.  So the stack is never higher
than the levels that are free allow, however long the source text is.
-/

namespace MonkeySyntax

/-- What can be asked of a parser. -/
inductive Request where
  /-- An expression whose folds bind more tightly than a power. -/
  | expression (power : BindingPower)
  /-- The statement that begins with the current token. -/
  | statement
  /-- The statements to the end of the input. -/
  | program

/-- What a request is answered with. -/
inductive Answer where
  /-- What has become of an expression. -/
  | expression (outcome : Except Diagnostic Expr)
  /-- What has become of a statement. -/
  | statement (outcome : Except Diagnostic Stmt)
  /-- What has become of a program. -/
  | program (outcome : Except Diagnostic Program)

namespace Machine

/-- What an expression is a part of. -/
inductive Use where
  /-- The operand of an operator before it. -/
  | unary (token : Token)
  /-- The expression between two parentheses. -/
  | group
  /-- The right operand of an operator. -/
  | binary (token : Token) (left : Expr)
  /-- An argument of a call, behind earlier ones. -/
  | argument (token : Token) (function : Expr) (earlier : List Expr)

/-- Who waits for an expression. -/
inductive Caller where
  /-- Who has asked for it. -/
  | request
  /-- A statement. -/
  | statement (make : Expr → Stmt)
  /-- Another expression. -/
  | expression (use : Use)

/-- An expression that is open. -/
structure Frame where
  /-- Who waits for it. -/
  caller : Caller
  /-- Its folds bind more tightly than this. -/
  power : BindingPower
  /-- The number of levels that were in use when it was begun. -/
  depth : Nat

/-- What an operand or a fold has come to. -/
inductive Turn where
  /-- It has been read. -/
  | yields (expr : Expr)
  /-- It needs an expression. -/
  | needs (power : BindingPower) (use : Use)

/-- What is to be done next. -/
inductive Task where
  /-- The innermost expression is to take a level. -/
  | enter
  /-- Its first operand is to be read. -/
  | operand
  /-- The folds that continue it are to be read. -/
  | folds (left : Expr)
  /-- A fold of it is to be read. -/
  | fold (rule : FoldRule) (left : Expr)
  /-- It is to put back the levels in use. -/
  | leave (outcome : Except Diagnostic Expr)
  /-- A caller is to go on. -/
  | goOn (caller : Caller) (outcome : Except Diagnostic Expr)
  /-- A statement is to be read. -/
  | statement
  /-- A statement has been read, or refused. -/
  | endStatement (outcome : Except Diagnostic Stmt)
  /-- The other statements of a program are to be read. -/
  | statements (earlier : List Stmt)
  /-- Nothing is to be done. -/
  | done (answer : Answer)

/-- A machine with its stack. -/
structure Config where
  /-- The machine between two calls. -/
  machine : Machine
  /-- The open expressions, the innermost one first. -/
  frames : List Frame
  /-- What is to be done next. -/
  task : Task
  /-- The statements before the one that is read, if it is one of a program. -/
  earlier : Option (List Stmt)

/-! ### What is read between two calls -/

namespace Step

/-- Reads the operand that a rule describes, up to the expression in it. -/
def beginOperandRule : OperandRule → Step Turn
  | .identifier => do pure (.yields (← identifier))
  | .integer => do pure (.yields (← integer))
  | .boolean => do pure (.yields (← boolean))
  | .unary => do
      let token ← current
      advance
      pure (.needs .unary (.unary token))
  | .group => do
      advance
      pure (.needs .lowest .group)

/-- Reads the operand that begins with the current token, up to the expression in it. -/
def beginOperand : Step Turn := do
  let token ← current
  match RuleTable.monkey.operand? token.kind with
  | some rule => beginOperandRule rule
  | none => fail ⟨.noOperand token.kind, token.span.start⟩

/-- Reads the fold that a rule describes, up to the first expression in it. -/
def beginFold (left : Expr) : FoldRule → Step Turn
  | .binary => do
      let token ← current
      advance
      pure (.needs (RuleTable.monkey.power token.kind) (.binary token left))
  | .call => do
      let token ← current
      let next ← peek
      advance
      if next.kind = .closeParen then
        pure (.yields (.call token left []))
      else
        pure (.needs .lowest (.argument token left []))

/-- Goes on behind an expression, up to the next one that is needed. -/
def resume : Use → Expr → Step Turn
  | .unary token, right => pure (.yields (.unary token token.literal right))
  | .group, expr => do
      expect .closeParen
      pure (.yields expr)
  | .binary token left, right => pure (.yields (.binary token token.literal left right))
  | .argument token function earlier, value => do
      let next ← peek
      if next.kind = .comma then
        advance
        advance
        pure (.needs .lowest (.argument token function (earlier ++ [value])))
      else
        expect .closeParen
        pure (.yields (.call token function (earlier ++ [value])))

/-- Reads the statement that a rule describes, or one that is an expression, up to the expression in
it, and yields what is made of that. -/
def beginStatementRule : Option StatementRule → Step (Expr → Stmt)
  | some .binding => do
      let token ← current
      expect .identifier
      let name ← current
      expect .assign
      advance
      pure (.binding token ⟨name, name.literal⟩)
  | some .result => do
      let token ← current
      advance
      pure (.result token)
  | none => do
      let token ← current
      pure (.expression token)

/-- Reads the statement that begins with the current token, up to the expression in it. -/
def beginStatement : Step (Expr → Stmt) := do
  let token ← current
  beginStatementRule (RuleTable.monkey.statement? token.kind)

/-- Notes what is wrong with a statement, and goes on to the next one. -/
def recover (diagnostic : Diagnostic) : Step Unit := do
  record diagnostic
  synchronize
  advance

end Step

/-! ### Moves -/

namespace Config

variable {α : Type}

/-- Takes a step.  If it fails, the task says what becomes of the failure. -/
def take (config : Config) (step : Step α) (refused : Diagnostic → Task)
    (taken : α → Config → Config) : Option Config :=
  match step.run config.machine with
  | (some (.ok value), after) => some (taken value { config with machine := after })
  | (some (.error diagnostic), after) =>
      some { config with machine := after, task := refused diagnostic }
  | (none, _) => none

section

variable {config : Config} {step : Step α} {refused : Diagnostic → Task}
  {taken : α → Config → Config} {after : Machine}

theorem take_ok {value : α} (read : step.run config.machine = (some (.ok value), after)) :
    config.take step refused taken = some (taken value { config with machine := after }) := by
  rw [take, read]

theorem take_error {diagnostic : Diagnostic}
    (read : step.run config.machine = (some (.error diagnostic), after)) :
    config.take step refused taken =
      some { config with machine := after, task := refused diagnostic } := by
  rw [take, read]

end

/-- Begins an expression. -/
def begin (config : Config) (caller : Caller) (power : BindingPower) : Config :=
  { config with
    frames := ⟨caller, power, config.machine.depth⟩ :: config.frames
    task := .enter }

/-- Goes on with an operand or a fold that has been read, or begins the expression that it needs. -/
def turn (turn : Turn) (config : Config) : Config :=
  match turn with
  | .yields expr => { config with task := .folds expr }
  | .needs power use => config.begin (.expression use) power

/-- The next move, or `none` if there is nothing to be done. -/
def next (config : Config) : Option Config :=
  match config.task, config.frames with
  | .enter, _ =>
      config.take .enterNesting (.leave ∘ .error) fun _ config =>
        { config with task := .operand }
  | .operand, _ => config.take .beginOperand (.leave ∘ .error) turn
  | .folds left, frame :: _ =>
      match Step.foldAbove frame.power config.machine.peek.kind with
      | some rule =>
          config.take .enterNesting (.leave ∘ .error) fun _ config =>
            { config with task := .fold rule left }
      | none => some { config with task := .leave (.ok left) }
  | .fold rule left, _ =>
      config.take (do Step.advance; Step.beginFold left rule) (.leave ∘ .error) turn
  | .leave outcome, frame :: outer =>
      some { config with
        machine := { config.machine with depth := frame.depth }
        frames := outer
        task := .goOn frame.caller outcome }
  | .goOn .request outcome, _ => some { config with task := .done (.expression outcome) }
  | .goOn (.statement make) (.ok value), _ =>
      config.take (.expect .semicolon) (.endStatement ∘ .error) fun _ config =>
        { config with task := .endStatement (.ok (make value)) }
  | .goOn (.statement _) (.error diagnostic), _ =>
      some { config with task := .endStatement (.error diagnostic) }
  | .goOn (.expression use) (.ok value), _ =>
      config.take (.resume use value) (.leave ∘ .error) turn
  | .goOn (.expression _) (.error diagnostic), _ =>
      some { config with task := .leave (.error diagnostic) }
  | .statement, _ =>
      config.take .beginStatement (.endStatement ∘ .error) fun make config =>
        config.begin (.statement make) .lowest
  | .endStatement outcome, _ =>
      match config.earlier, outcome with
      | none, _ => some { config with task := .done (.statement outcome) }
      | some earlier, .ok stmt =>
          some { config with
            machine := config.machine.advance
            task := .statements (earlier ++ [stmt]) }
      | some earlier, .error diagnostic =>
          some { config with
            machine := ((Step.recover diagnostic).run config.machine).2
            task := .statements earlier }
  | .statements earlier, _ =>
      if config.machine.current.kind = .endOfInput then
        some { config with task := .done (.program (.ok ⟨earlier⟩)) }
      else
        some { config with task := .statement, earlier := some earlier }
  | .folds _, [] | .leave _, [] | .done _, _ => none

/-- Some moves lead from one configuration to another. -/
def Reaches : Config → Config → Prop :=
  Relation.ReflTransGen fun config later => config.next = some later

/-- Whatever is reached on the way to a configuration without a move leads there. -/
theorem Reaches.to_final {config middle last : Config} (reaches : config.Reaches middle)
    (ends : config.Reaches last) (final : last.next = none) : middle.Reaches last := by
  have one_way : Relator.RightUnique fun config later : Config => config.next = some later :=
    fun _ _ _ first second => Option.some.inj (first.symm.trans second)
  rcases Relation.ReflTransGen.total_of_right_unique one_way reaches ends with onward | back
  · exact onward
  · rcases back.cases_head with rfl | ⟨next, goes, -⟩
    · exact .refl
    · rw [final] at goes
      contradiction

end Config

end Machine

/-- The configuration in which a machine meets a request. -/
def Request.start (request : Request) (machine : Machine) : Machine.Config :=
  match request with
  | expression power => Machine.Config.begin ⟨machine, [], .statement, none⟩ .request power
  | statement => ⟨machine, [], .statement, none⟩
  | program => ⟨machine, [], .statements [], none⟩

namespace Machine

/-! ### Levels -/

namespace Step

variable {α β : Type}

/-- The step does not change the number of levels in use. -/
def Steady (step : Step α) : Prop :=
  ∀ machine, (step.run machine).2.depth = machine.depth

namespace Steady

variable {step first : Step α} {second : α → Step β}

theorem pure (value : α) : (Pure.pure value : Step α).Steady :=
  fun _ => rfl

theorem fail (diagnostic : Diagnostic) : (Step.fail diagnostic : Step α).Steady :=
  fun _ => rfl

theorem current : Step.current.Steady :=
  fun _ => rfl

theorem peek : Step.peek.Steady :=
  fun _ => rfl

theorem advance : Step.advance.Steady :=
  fun _ => rfl

theorem record (diagnostic : Diagnostic) : (Step.record diagnostic).Steady :=
  fun _ => rfl

theorem bind (earlier : first.Steady) (later : ∀ value, (second value).Steady) :
    (first >>= second).Steady := by
  intro machine
  have same := earlier machine
  rw [run_bind]
  split
  · next value after read =>
      rw [read] at same
      exact (later value after).trans same
  · next read => rwa [read] at same
  · next read => rwa [read] at same

theorem expect (kind : Token.Kind) : (Step.expect kind).Steady := by
  refine .bind peek fun next => ?_
  split
  · exact advance
  · exact fail _

theorem loop {round : α → Step (Option α)} (progresses : ∀ value, (round value).Progresses)
    (each : ∀ value, (round value).Steady) (value : α) :
    (Step.loop round progresses value).Steady := by
  intro machine
  change (runLoop round progresses value machine).2.depth = machine.depth
  fun_induction runLoop round progresses value machine with
  | case1 value machine next after read ih =>
      have same := each value machine
      rw [read] at same
      exact ih.trans same
  | case2 value machine after read
  | case3 value machine diagnostic after read
  | case4 value machine after read =>
      have same := each value machine
      rwa [read] at same

end Steady

theorem steady_beginOperand : beginOperand.Steady := by
  refine .bind .current fun token => ?_
  cases RuleTable.monkey.operand? token.kind with
  | none => exact .fail _
  | some rule =>
      cases rule with
      | identifier =>
          refine .bind ?_ fun expr => .pure (Turn.yields expr)
          refine .bind .current fun token => ?_
          exact .pure _
      | integer =>
          refine .bind ?_ fun expr => .pure (Turn.yields expr)
          refine .bind .current fun token => ?_
          cases integerValue? token.literal with
          | some value => exact .pure _
          | none => exact .fail _
      | boolean =>
          refine .bind ?_ fun expr => .pure (Turn.yields expr)
          refine .bind .current fun token => ?_
          exact .pure _
      | unary =>
          refine .bind .current fun token => ?_
          refine .bind .advance fun _ => ?_
          exact .pure _
      | group =>
          refine .bind .advance fun _ => ?_
          exact .pure _

theorem steady_beginFold (left : Expr) (rule : FoldRule) : (beginFold left rule).Steady := by
  cases rule with
  | binary =>
      refine .bind .current fun token => ?_
      refine .bind .advance fun _ => ?_
      exact .pure _
  | call =>
      refine .bind .current fun token => ?_
      refine .bind .peek fun next => ?_
      refine .bind .advance fun _ => ?_
      split <;> exact .pure _

theorem steady_resume (use : Use) (value : Expr) : (resume use value).Steady := by
  cases use with
  | unary token | binary token left => exact .pure _
  | group =>
      refine .bind (.expect .closeParen) fun _ => ?_
      exact .pure _
  | argument token function earlier =>
      refine .bind .peek fun next => ?_
      split
      · refine .bind .advance fun _ => ?_
        refine .bind .advance fun _ => ?_
        exact .pure _
      · refine .bind (.expect .closeParen) fun _ => ?_
        exact .pure _

theorem steady_beginStatement : beginStatement.Steady := by
  refine .bind .current fun token => ?_
  cases RuleTable.monkey.statement? token.kind with
  | none =>
      refine .bind .current fun first => ?_
      exact .pure _
  | some rule =>
      cases rule with
      | binding =>
          refine .bind .current fun keyword => ?_
          refine .bind (.expect .identifier) fun _ => ?_
          refine .bind .current fun name => ?_
          refine .bind (.expect .assign) fun _ => ?_
          refine .bind .advance fun _ => ?_
          exact .pure _
      | result =>
          refine .bind .current fun keyword => ?_
          refine .bind .advance fun _ => ?_
          exact .pure _

theorem steady_recover (diagnostic : Diagnostic) : (recover diagnostic).Steady := by
  have steady_skip : skip.Steady := by
    refine .bind .current fun token => ?_
    split
    · exact .pure _
    · refine .bind .advance fun _ => ?_
      exact .pure _
  have steady_synchronize : synchronize.Steady := .loop _ (fun _ => steady_skip) ()
  refine .bind (.record diagnostic) fun _ => ?_
  refine .bind steady_synchronize fun _ => ?_
  exact .advance

/-- A level is taken only if one is free. -/
theorem run_enterNesting_cases (machine : Machine) :
    (machine.depth < maxDepth ∧
        enterNesting.run machine = (some (.ok ()), { machine with depth := machine.depth + 1 })) ∨
      (∃ diagnostic, enterNesting.run machine = (some (.error diagnostic), machine)) := by
  rcases Nat.lt_or_ge machine.depth maxDepth with free | full
  · exact .inl ⟨free, if_pos free⟩
  · exact .inr ⟨_, if_neg (Nat.not_lt.mpr full)⟩

end Step

/-! ### The height of the stack -/

/-- How many open expressions need have no level of their own: an expression that has just been
begun has none, and one that has been refused may have none. -/
def Task.slack : Task → Nat
  | .enter | .leave _ => 1
  | _ => 0

theorem Task.slack_le_one (task : Task) : task.slack ≤ 1 := by
  unfold slack
  split <;> omega

/-- Every open expression was begun when there were levels for those around it. -/
def Nested (base : Nat) : List Frame → Prop
  | [] => True
  | frame :: outer =>
      base + outer.length ≤ frame.depth ∧ frame.depth ≤ max base maxDepth ∧ Nested base outer

/-- The levels in use are enough for the open expressions, and no more than there may be. -/
structure Bounded (base : Nat) (config : Config) : Prop where
  /-- No level is taken beyond the greatest one. -/
  depth_le : config.machine.depth ≤ max base maxDepth
  /-- There are levels for the open expressions. -/
  open_le : base + config.frames.length ≤ config.machine.depth + config.task.slack
  /-- That was so when each of them was begun. -/
  nested : Nested base config.frames

namespace Bounded

variable {α : Type} {base : Nat} {config later : Config}

/-- The number of open expressions is bounded by the levels that were free. -/
theorem length_le (bounded : Bounded base config) :
    config.frames.length ≤ max base maxDepth + 1 - base := by
  have depth_le := bounded.depth_le
  have open_le := bounded.open_le
  have slack_le := config.task.slack_le_one
  omega

/-- Another task may be set if it needs no fewer levels. -/
theorem set_task (bounded : Bounded base config) {task : Task}
    (slack_le : config.task.slack ≤ task.slack) : Bounded base { config with task } := by
  obtain ⟨depth_le, open_le, nested⟩ := bounded
  exact ⟨depth_le, Nat.le_trans open_le (Nat.add_le_add_left slack_le _), nested⟩

/-- An expression may be begun when there are levels for those that are open. -/
theorem begin (bounded : Bounded base config) (settled : config.task.slack = 0) (caller : Caller)
    (power : BindingPower) : Bounded base (config.begin caller power) := by
  obtain ⟨depth_le, open_le, nested⟩ := bounded
  rw [settled] at open_le
  exact ⟨depth_le, Nat.succ_le_succ open_le, open_le, depth_le, nested⟩

theorem turn (bounded : Bounded base config) (settled : config.task.slack = 0) (turn : Turn) :
    Bounded base (config.turn turn) := by
  cases turn with
  | yields expr => exact bounded.set_task (Nat.le_of_eq settled)
  | needs power use => exact bounded.begin settled _ _

/-- A step that changes no level can be taken, if what follows is right after it. -/
theorem take {step : Step α} {refused : Diagnostic → Task} {taken : α → Config → Config}
    (bounded : Bounded base config) (settled : config.task.slack = 0) (steady : step.Steady)
    (next : ∀ value between, Bounded base between → between.task = config.task →
      Bounded base (taken value between))
    (goes : config.take step refused taken = some later) : Bounded base later := by
  have moved (after : Machine) (depth_eq : after.depth = config.machine.depth) :
      Bounded base { config with machine := after } := by
    obtain ⟨depth_le, open_le, nested⟩ := bounded
    rw [← depth_eq] at depth_le open_le
    exact ⟨depth_le, open_le, nested⟩
  have depth_eq := steady config.machine
  unfold Config.take at goes
  split at goes
  · next value after read =>
      rw [read] at depth_eq
      rw [← Option.some.inj goes]
      exact next value _ (moved after depth_eq) rfl
  · next diagnostic after read =>
      rw [read] at depth_eq
      rw [← Option.some.inj goes]
      exact (moved after depth_eq).set_task (Nat.le_trans (Nat.le_of_eq settled) (Nat.zero_le _))
  · contradiction

/-- A step that reads up to an expression that is needed can be taken. -/
theorem take_turn {step : Step Turn} {refused : Diagnostic → Task} (bounded : Bounded base config)
    (settled : config.task.slack = 0) (steady : step.Steady)
    (goes : config.take step refused Config.turn = some later) : Bounded base later := by
  refine bounded.take settled steady (fun turn between still task_eq => ?_) goes
  have still_settled : between.task.slack = 0 := task_eq ▸ settled
  exact still.turn still_settled turn

/-- A level can be taken for an expression that has none, or for a fold. -/
theorem enterNesting {task : Task} (bounded : Bounded base config) (settled : task.slack = 0)
    (goes : config.take .enterNesting (.leave ∘ .error)
      (fun _ config => { config with task }) = some later) : Bounded base later := by
  have slack_le := config.task.slack_le_one
  rcases Step.run_enterNesting_cases config.machine with ⟨free, read⟩ | ⟨diagnostic, read⟩
  · rw [Config.take_ok read] at goes
    rw [← Option.some.inj goes]
    obtain ⟨-, open_le, nested⟩ := bounded
    refine ⟨?_, ?_, nested⟩
    · change config.machine.depth + 1 ≤ max base maxDepth
      omega
    · change base + config.frames.length ≤ config.machine.depth + 1 + task.slack
      omega
  · rw [Config.take_error read] at goes
    rw [← Option.some.inj goes]
    exact bounded.set_task slack_le

/-- What is bounded remains so with every move. -/
theorem next (bounded : Bounded base config) (goes : config.next = some later) :
    Bounded base later := by
  obtain ⟨machine, frames, task, earlier⟩ := config
  cases task with
  | enter => exact bounded.enterNesting rfl goes
  | operand => exact bounded.take_turn rfl Step.steady_beginOperand goes
  | folds left =>
      cases frames with
      | nil => contradiction
      | cons frame outer =>
          dsimp only [Config.next] at goes
          split at goes
          · exact bounded.enterNesting rfl goes
          · rw [← Option.some.inj goes]
            exact bounded.set_task (Nat.zero_le _)
  | fold rule left =>
      have steady : (do Step.advance; Step.beginFold left rule).Steady :=
        .bind .advance fun _ => Step.steady_beginFold left rule
      exact bounded.take_turn rfl steady goes
  | leave outcome =>
      cases frames with
      | nil => contradiction
      | cons frame outer =>
          obtain ⟨-, -, enough, depth_le, nested⟩ := bounded
          rw [← Option.some.inj goes]
          exact ⟨depth_le, enough, nested⟩
  | goOn caller outcome =>
      match caller, outcome with
      | .request, _ | .statement _, .error _ | .expression _, .error _ =>
          rw [← Option.some.inj goes]
          exact bounded.set_task (Nat.zero_le _)
      | .statement make, .ok value =>
          have ended (_ : Unit) (between : Config) (still : Bounded base between)
              (task_eq : between.task = .goOn (.statement make) (.ok value)) :
              Bounded base { between with task := .endStatement (.ok (make value)) } :=
            still.set_task (task_eq ▸ Nat.le_refl _)
          exact bounded.take rfl (.expect .semicolon) ended goes
      | .expression use, .ok value =>
          exact bounded.take_turn rfl (Step.steady_resume use value) goes
  | statement =>
      have begun (make : Expr → Stmt) (between : Config) (still : Bounded base between)
          (task_eq : between.task = .statement) :
          Bounded base (between.begin (.statement make) .lowest) :=
        still.begin (task_eq ▸ rfl) (.statement make) .lowest
      exact bounded.take rfl Step.steady_beginStatement begun goes
  | endStatement outcome =>
      match earlier, outcome with
      | none, _ =>
          rw [← Option.some.inj goes]
          exact bounded.set_task (Nat.zero_le _)
      | some earlier, .ok stmt =>
          obtain ⟨depth_le, open_le, nested⟩ := bounded
          rw [← Option.some.inj goes]
          exact ⟨depth_le, open_le, nested⟩
      | some earlier, .error diagnostic =>
          obtain ⟨depth_le, open_le, nested⟩ := bounded
          rw [← Option.some.inj goes]
          rw [← Step.steady_recover diagnostic machine] at depth_le open_le
          exact ⟨depth_le, open_le, nested⟩
  | statements earlier =>
      dsimp only [Config.next] at goes
      split at goes
      · rw [← Option.some.inj goes]
        exact bounded.set_task (Nat.zero_le _)
      · rw [← Option.some.inj goes]
        obtain ⟨depth_le, open_le, nested⟩ := bounded
        exact ⟨depth_le, open_le, nested⟩
  | done answer => contradiction

/-- What is bounded remains so with every run. -/
theorem of_reaches (bounded : Bounded base config) (reaches : config.Reaches later) :
    Bounded base later := by
  induction reaches with
  | refl => exact bounded
  | tail _ goes ih => exact ih.next goes

end Bounded

/-- A machine that meets a request is bounded by the levels that it has in use. -/
theorem bounded_start (request : Request) (machine : Machine) :
    Bounded machine.depth (request.start machine) := by
  have depth_le : machine.depth ≤ max machine.depth maxDepth := Nat.le_max_left _ _
  cases request with
  | expression power =>
      exact ⟨depth_le, Nat.le_refl _, Nat.le_refl _, depth_le, trivial⟩
  | statement | program => exact ⟨depth_le, Nat.le_refl _, trivial⟩

end Machine

end MonkeySyntax
