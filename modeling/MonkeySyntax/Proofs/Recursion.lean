import MonkeySyntax.Proofs.OpenExpressions

/-!
# Reading with a bounded stack

The moves of the machine with its stack make up the steps of the machine that calls itself: where a
step yields something, the moves lead to it.  So the machine with its stack answers every request
as the parser does, and with no more open expressions than the levels that are free allow.  A
budget of as many nested calls is never used up.
-/

namespace MonkeySyntax

namespace Machine

/-! ### Steps cut at the expressions that they need -/

namespace Step

variable {nested : BindingPower → Step Expr}

/-- Reads what follows an expression that was needed. -/
def finish (nested : BindingPower → Step Expr) : Use → Expr → Step Expr
  | .unary token, right => pure (.unary token token.literal right)
  | .group, expr => do
      expect .closeParen
      pure expr
  | .binary token left, right => pure (.binary token token.literal left right)
  | .argument token function earlier, value => do
      let arguments ← afterCommas (nested .lowest) (earlier ++ [value])
      expect .closeParen
      pure (.call token function arguments)

/-- Reads what is left of an operand or a fold. -/
def complete (nested : BindingPower → Step Expr) : Turn → Step Expr
  | .yields expr => pure expr
  | .needs power use => do
      let value ← nested power
      finish nested use value

theorem operand_eq : operand nested = beginOperand >>= complete nested := by
  rw [operand, beginOperand, bind_assoc]
  refine bind_congr fun token => ?_
  cases RuleTable.monkey.operand? token.kind with
  | none => rfl
  | some rule =>
      cases rule <;>
        simp [ofOperandRule, beginOperandRule, unary, group, complete, finish]

theorem ofFoldRule_eq (left : Expr) (rule : FoldRule) :
    ofFoldRule nested left rule = beginFold left rule >>= complete nested := by
  cases rule with
  | binary => simp [ofFoldRule, beginFold, binary, complete, finish]
  | call =>
      simp only [ofFoldRule, beginFold, call, arguments, bind_assoc]
      refine bind_congr fun token => bind_congr fun next => bind_congr fun _ => ?_
      split <;> simp [complete, finish]

theorem finish_eq (use : Use) (value : Expr) :
    finish nested use value = resume use value >>= complete nested := by
  cases use with
  | unary token | binary token left => rfl
  | group => simp [finish, resume, complete]
  | argument token function earlier =>
      rw [finish, resume, afterCommas_eq, bind_assoc, bind_assoc]
      refine bind_congr fun next => ?_
      split <;> simp [complete, finish]

theorem statement_eq (budget : Nat) :
    statement budget = (do
      let make ← beginStatement
      let value ← expression budget .lowest
      expect .semicolon
      pure (make value)) := by
  rw [statement, beginStatement, bind_assoc]
  refine bind_congr fun token => ?_
  cases RuleTable.monkey.statement? token.kind with
  | none => simp [expressionStatement, beginStatementRule]
  | some rule =>
      cases rule <;> simp [ofStatementRule, binding, result, beginStatementRule]

theorem pending_pos_of_peek {machine : Machine} (inside : machine.peek.kind ≠ .endOfInput) :
    0 < machine.pending := by
  rw [pending, weight_eq_one inside]
  omega

/-- Between two expressions that are needed one after the other, something is read. -/
theorem pending_lt_of_needs {use further : Use} {value : Expr} {power : BindingPower}
    {machine after : Machine}
    (read : (resume use value).run machine = (some (.ok (.needs power further)), after)) :
    after.pending < machine.pending := by
  cases use with
  | unary token | binary token left => simp [resume, Pure.pure, Step.pure] at read
  | group =>
      obtain ⟨_, _, -, yielded⟩ := exists_run_of_bind read
      simp [Pure.pure, Step.pure] at yielded
  | argument token function earlier =>
      change (if machine.peek.kind = .comma then _ else _ : Step Turn).run machine = _ at read
      split at read
      · next comma =>
          obtain ⟨-, rfl⟩ := Prod.mk.inj read
          have inside : machine.peek.kind ≠ .endOfInput := by
            rw [comma]
            decide
          have some_left := pending_pos_of_peek inside
          have first_le := machine.pending_advance_le
          have second_le := machine.advance.pending_advance_le
          omega
      · obtain ⟨_, _, -, yielded⟩ := exists_run_of_bind read
        simp [Pure.pure, Step.pure] at yielded

/-- With every fold something is read. -/
theorem pending_lt_of_fold {power : BindingPower} {rule : FoldRule} {left longer : Expr}
    {machine between after : Machine} (found : foldAbove power machine.peek.kind = some rule)
    (entered : enterNesting.run machine = (some (.ok ()), between))
    (read : (do advance; ofFoldRule nested left rule).run between = (some (.ok longer), after)) :
    after.pending < machine.pending := by
  have inside : machine.peek.kind ≠ .endOfInput := by
    intro kind_eq
    rw [kind_eq, foldAbove_endOfInput] at found
    contradiction
  have some_left := pending_pos_of_peek inside
  have not_more := enterNesting.pending_le machine
  rw [entered] at not_more
  have less := advances_advance.bind _ _ _ read
  dsimp only at not_more less
  omega

theorem advances_recover (diagnostic : Diagnostic) : (recover diagnostic).Advances :=
  .after fun _ => .after fun _ => advances_advance

end Step

/-! ### Steps and moves -/

namespace Config

variable {α β : Type}

/-- The task of the innermost expression behind an operand or a fold. -/
def folding : Except Diagnostic Expr → Task
  | .ok expr => .folds expr
  | .error diagnostic => .leave (.error diagnostic)

/-- Whatever the step yields, the moves lead to it, with the given frames on the stack and the task
that the outcome sets. -/
def Leads (config : Config) (frames : List Frame) (step : Step α)
    (goal : Except Diagnostic α → Task) : Prop :=
  ∀ outcome after, step.run config.machine = (some outcome, after) →
    config.Reaches { config with machine := after, frames, task := goal outcome }

namespace Leads

variable {config : Config} {frames : List Frame} {first : Step α} {second : α → Step β}
  {goal : Except Diagnostic β → Task}

/-- What is known at once needs no move. -/
theorem pure {value : β} (frames_eq : config.frames = frames)
    (task_eq : config.task = goal (.ok value)) :
    config.Leads frames (Pure.pure value) goal := by
  intro outcome after read
  obtain ⟨outcome_eq, rfl⟩ := Prod.mk.inj read
  obtain rfl := Option.some.inj outcome_eq
  obtain ⟨machine, _, _, earlier⟩ := config
  obtain rfl := frames_eq
  obtain rfl := task_eq
  exact .refl

/-- One move comes before the others. -/
theorem head {later : Config} {step : Step β} (goes : config.next = some later)
    (same : later.machine = config.machine ∧ later.earlier = config.earlier)
    (leads : later.Leads frames step goal) : config.Leads frames step goal := by
  intro outcome after read
  have reaches := leads outcome after (same.1 ▸ read)
  rw [same.2] at reaches
  exact .head goes reaches

/-- A move that takes a step leads to its failure, or on to what follows its success. -/
theorem take {refused : Diagnostic → Task} (taken : α → Config → Config)
    (next_eq : config.next = config.take first refused taken) (frames_eq : config.frames = frames)
    (refused_eq : ∀ diagnostic, refused diagnostic = goal (.error diagnostic))
    (keeps : ∀ value between, (taken value between).machine = between.machine ∧
      (taken value between).earlier = between.earlier)
    (later : ∀ value after, first.run config.machine = (some (.ok value), after) →
      (taken value { config with machine := after }).Leads frames (second value) goal) :
    config.Leads frames (first >>= second) goal := by
  intro outcome final read
  rw [Step.run_bind] at read
  split at read
  · next value after first_read =>
      rw [Config.take_ok first_read] at next_eq
      have kept := keeps value { config with machine := after }
      have reaches := later value after first_read outcome final (kept.1 ▸ read)
      rw [kept.2] at reaches
      exact .head next_eq reaches
  · next diagnostic after first_read =>
      rw [Config.take_error first_read, refused_eq] at next_eq
      obtain ⟨outcome_eq, rfl⟩ := Prod.mk.inj read
      obtain rfl := Option.some.inj outcome_eq
      obtain rfl := frames_eq
      exact .single next_eq
  · simp at read

/-- Moves that lead to the outcome of a step go on to what follows its success; its failure is
passed on. -/
theorem bind {middle : Except Diagnostic α → Task} {between : List Frame}
    (leads : config.Leads between first middle)
    (passed : ∀ diagnostic after,
      { config with
        machine := after
        frames := between
        task := middle (.error diagnostic) }.Reaches
          { config with machine := after, frames, task := goal (.error diagnostic) })
    (later : ∀ value after, first.run config.machine = (some (.ok value), after) →
      { config with machine := after, frames := between, task := middle (.ok value) }.Leads
        frames (second value) goal) :
    config.Leads frames (first >>= second) goal := by
  intro outcome final read
  rw [Step.run_bind] at read
  split at read
  · next value after first_read =>
      exact (leads _ _ first_read).trans (later value after first_read outcome final read)
  · next diagnostic after first_read =>
      obtain ⟨outcome_eq, rfl⟩ := Prod.mk.inj read
      obtain rfl := Option.some.inj outcome_eq
      exact (leads _ _ first_read).trans (passed diagnostic after)
  · simp at read

theorem peek_bind {step : Token → Step β}
    (leads : config.Leads frames (step config.machine.peek) goal) :
    config.Leads frames (Step.peek >>= step) goal :=
  leads

end Leads

theorem turn_keeps (turn : Turn) (config : Config) :
    (config.turn turn).machine = config.machine ∧ (config.turn turn).earlier = config.earlier := by
  cases turn <;> exact ⟨rfl, rfl⟩

section

variable {nested : BindingPower → Step Expr}

/-- What every expression that is needed in an operand or in a fold leads to. -/
def LeadsNested (nested : BindingPower → Step Expr) : Prop :=
  ∀ (config : Config) caller power,
    (config.begin caller power).Leads config.frames (nested power) (.goOn caller)

theorem leads_complete (leads : LeadsNested nested) (turn : Turn) (config : Config) :
    (config.turn turn).Leads config.frames (Step.complete nested turn) folding := by
  induction left_eq : config.machine.pending using Nat.strongRecOn generalizing turn config with
  | ind left ih =>
      cases turn with
      | yields expr => exact .pure rfl rfl
      | needs power use =>
          refine (leads config (.expression use) power).bind (fun _ _ => .single rfl)
            fun value after read => ?_
          rw [Step.finish_eq]
          refine .take turn rfl rfl (fun _ => rfl) turn_keeps fun turn final resumed => ?_
          cases turn with
          | yields expr => exact .pure rfl rfl
          | needs _ further =>
              have earlier := (nested power).pending_le config.machine
              rw [show (nested power).run config.machine = _ from read] at earlier
              have less := Step.pending_lt_of_needs resumed
              exact ih _ (left_eq ▸ Nat.lt_of_lt_of_le less earlier) (.needs _ further) _ rfl

/-- The moves that read an operand lead to it. -/
theorem leads_operand (leads : LeadsNested nested) {config : Config}
    (task_eq : config.task = .operand) :
    config.Leads config.frames (Step.operand nested) folding := by
  obtain ⟨machine, frames, _, earlier⟩ := config
  obtain rfl := task_eq
  rw [Step.operand_eq]
  exact .take turn rfl rfl (fun _ => rfl) turn_keeps fun turn _ _ => leads_complete leads turn _

/-- The moves that read a fold lead to it. -/
theorem leads_fold (leads : LeadsNested nested) {config : Config} {rule : FoldRule} {left : Expr}
    (task_eq : config.task = .fold rule left) :
    config.Leads config.frames (do Step.advance; Step.ofFoldRule nested left rule) folding := by
  obtain ⟨machine, frames, _, earlier⟩ := config
  obtain rfl := task_eq
  have step_eq : (do Step.advance; Step.ofFoldRule nested left rule) =
      (do Step.advance; Step.beginFold left rule) >>= Step.complete nested := by
    rw [Step.ofFoldRule_eq, bind_assoc]
  rw [step_eq]
  exact .take turn rfl rfl (fun _ => rfl) turn_keeps fun turn _ _ => leads_complete leads turn _

/-- The moves that read the folds of an expression lead to its end. -/
theorem leads_folds (leads : LeadsNested nested) (frame : Frame) (outer : List Frame)
    (machine : Machine) (left : Expr) (earlier : Option (List Stmt)) :
    (⟨machine, frame :: outer, .folds left, earlier⟩ : Config).Leads (frame :: outer)
      (Step.folds nested frame.power left) .leave := by
  induction left_eq : machine.pending using Nat.strongRecOn generalizing machine left with
  | ind size ih =>
      rw [Step.folds_eq]
      refine .peek_bind ?_
      dsimp only
      cases found : Step.foldAbove frame.power machine.peek.kind with
      | none =>
          have goes : (⟨machine, frame :: outer, .folds left, earlier⟩ : Config).next =
              some ⟨machine, frame :: outer, .leave (.ok left), earlier⟩ := by
            simp only [next, found]
          exact .head goes ⟨rfl, rfl⟩ (.pure rfl rfl)
      | some rule =>
          have goes : (⟨machine, frame :: outer, .folds left, earlier⟩ : Config).next =
              take ⟨machine, frame :: outer, .folds left, earlier⟩ .enterNesting (.leave ∘ .error)
                fun _ config => { config with task := .fold rule left } := by
            simp only [next, found]
          refine .take _ goes rfl (fun _ => rfl) (fun _ _ => ⟨rfl, rfl⟩) fun _ between entered => ?_
          dsimp only
          rw [← bind_assoc]
          refine (leads_fold leads rfl).bind (fun _ _ => .refl) fun longer after read => ?_
          have less := Step.pending_lt_of_fold found entered read
          exact ih after.pending (left_eq ▸ less) after longer rfl

end

/-- The moves that read an expression lead to its caller. -/
theorem leads_expression (budget : Nat) : LeadsNested (Step.expression budget) := by
  induction budget with
  | zero => exact fun _ _ _ _ _ read => by simp [Step.expression, Step.giveUp] at read
  | succ budget ih =>
      intro config caller power outcome after read
      have body : (config.begin caller power).Leads (config.begin caller power).frames
          (do
            Step.enterNesting
            let left ← Step.operand (Step.expression budget)
            Step.folds (Step.expression budget) power left) .leave := by
        refine .take (fun _ config => { config with task := .operand }) rfl rfl (fun _ => rfl)
          (fun _ _ => ⟨rfl, rfl⟩) fun _ between _ => ?_
        refine (leads_operand ih rfl).bind (fun _ _ => .refl) fun left between _ => ?_
        exact leads_folds ih ⟨caller, power, config.machine.depth⟩ _ _ _ _
      obtain ⟨outcome_eq, rfl⟩ := Prod.mk.inj read
      exact (body outcome _ (Prod.ext outcome_eq rfl)).tail rfl

/-- The moves that read a statement lead to its end. -/
theorem leads_statement (budget : Nat) {config : Config} (task_eq : config.task = .statement) :
    config.Leads config.frames (Step.statement budget) .endStatement := by
  obtain ⟨machine, frames, _, earlier⟩ := config
  obtain rfl := task_eq
  rw [Step.statement_eq]
  refine .take (fun make config => config.begin (.statement make) .lowest) rfl rfl (fun _ => rfl)
    (fun _ _ => ⟨rfl, rfl⟩) fun make between _ => ?_
  refine (leads_expression budget _ _ _).bind (fun _ _ => .single rfl) fun value after _ => ?_
  refine .take (fun _ config => { config with task := .endStatement (.ok (make value)) }) rfl rfl
    (fun _ => rfl) (fun _ _ => ⟨rfl, rfl⟩) fun _ final _ => ?_
  exact .pure rfl rfl

/-- The moves that read a statement of a program lead to its end. -/
theorem reaches_endStatement {budget : Nat} {machine after : Machine} {frames : List Frame}
    {earlier : List Stmt} {context : Option (List Stmt)} {outcome : Except Diagnostic Stmt}
    (inside : machine.current.kind ≠ .endOfInput)
    (ran : (Step.statement budget).run machine = (some outcome, after)) :
    (⟨machine, frames, .statements earlier, context⟩ : Config).Reaches
      ⟨after, frames, .endStatement outcome, some earlier⟩ := by
  have begun : (⟨machine, frames, .statements earlier, context⟩ : Config).Reaches
      ⟨machine, frames, .statement, some earlier⟩ :=
    .single (if_neg inside)
  exact begun.trans (leads_statement budget rfl _ _ ran)

/-- The moves that read statements lead to the program that they make up. -/
theorem reaches_program (budget : Nat) {machine after : Machine} {frames : List Frame}
    {earlier stmts : List Stmt} {context : Option (List Stmt)}
    (read : (Step.statements budget earlier).run machine = (some (.ok stmts), after)) :
    ∃ last, (⟨machine, frames, .statements earlier, context⟩ : Config).Reaches
      ⟨after, frames, .done (.program (.ok ⟨stmts⟩)), last⟩ := by
  induction left_eq : machine.pending using Nat.strongRecOn
    generalizing machine earlier context with
  | ind size ih =>
      rw [Step.run_statements] at read
      split at read
      · next ended =>
          obtain ⟨outcome_eq, rfl⟩ := Prod.mk.inj read
          obtain rfl : earlier = stmts := by simpa using outcome_eq
          exact ⟨context, .single (if_pos ended)⟩
      · next inside =>
          have some_left : 0 < machine.pending := by
            rw [pending, weight_eq_one inside]
            omega
          have not_more := (Step.statement budget).pending_le machine
          rcases ran : (Step.statement budget).run machine with ⟨_ | diagnostic | stmt, between⟩
          all_goals rw [ran] at read not_more
          · simp at read
          · have whole : (do Step.recover diagnostic; Step.statements budget earlier).run between =
                (some (.ok stmts), after) := by
              rw [← read]
              simp only [Step.recover, bind_assoc]
            obtain ⟨_, next, recovered, others_read⟩ := Step.exists_run_of_bind whole
            have less := Step.advances_recover diagnostic _ _ _ recovered
            dsimp only at not_more
            obtain ⟨last, others⟩ := ih next.pending (by omega) others_read rfl
            obtain rfl : ((Step.recover diagnostic).run between).2 = next :=
              congrArg Prod.snd recovered
            exact ⟨last, ((reaches_endStatement inside ran).tail rfl).trans others⟩
          · have less := between.pending_advance_le
            dsimp only at not_more
            obtain ⟨last, others⟩ := ih between.advance.pending (by omega) read rfl
            exact ⟨last, ((reaches_endStatement inside ran).tail rfl).trans others⟩

end Config

end Machine

/-! ### Requests -/

namespace Request

/-- The answer of a parser to a request, and the parser after it. -/
def on : Request → Parser → Answer × Parser
  | expression power, parser =>
      (.expression (parser.expression power).1, (parser.expression power).2)
  | statement, parser => (.statement parser.statement.1, parser.statement.2)
  | program, parser => (.program (.ok parser.program.1), parser.program.2)

/-- The answer of the machine that calls itself, with a budget of expressions that are open at once,
and the machine after it.  There is no answer if the budget is used up. -/
def run (budget : Nat) : Request → Machine → Option Answer × Machine
  | expression power, machine =>
      let ran := (Machine.Step.expression budget power).run machine
      (ran.1.map .expression, ran.2)
  | statement, machine =>
      let ran := (Machine.Step.statement budget).run machine
      (ran.1.map .statement, ran.2)
  | program, machine =>
      let ran := (Machine.Step.program budget).run machine
      (ran.1.map .program, ran.2)

/-- With a budget for the levels that are free and one expression more, the machine that calls
itself answers as the parser does, and the moves of the one with a stack lead to that answer. -/
theorem exists_answer {budget : Nat} {machine : Machine} {parser : Parser}
    (shown : machine.Shows parser) (enough : maxDepth - parser.depth < budget)
    (request : Request) :
    ∃ later last, request.run budget machine = (some (request.on parser).1, later) ∧
      later.Shows (request.on parser).2 ∧ (request.start machine).Reaches last ∧
      last.machine = later ∧ last.frames = [] ∧ last.task = .done (request.on parser).1 := by
  cases request with
  | expression power =>
      obtain ⟨answer_eq, later_shown⟩ :=
        shown.perform fun _ => Machine.mirrors_expression enough power
      rcases ran : (Machine.Step.expression budget power).run machine with ⟨outcome, later⟩
      rw [ran] at answer_eq later_shown
      obtain rfl : outcome = some (parser.expression power).1 := answer_eq
      have reaches := Machine.Config.leads_expression budget ⟨machine, [], .statement, none⟩
        .request power _ _ ran
      refine ⟨later, _, ?_, later_shown, reaches.tail rfl, rfl, rfl, rfl⟩
      rw [run, ran]
      rfl
  | statement =>
      obtain ⟨answer_eq, later_shown⟩ := shown.perform fun _ => Machine.mirrors_statement enough
      rcases ran : (Machine.Step.statement budget).run machine with ⟨outcome, later⟩
      rw [ran] at answer_eq later_shown
      obtain rfl : outcome = some parser.statement.1 := answer_eq
      have reaches := Machine.Config.leads_statement budget
        (rfl : (⟨machine, [], .statement, none⟩ : Machine.Config).task = _) _ _ ran
      refine ⟨later, _, ?_, later_shown, reaches.tail rfl, rfl, rfl, rfl⟩
      rw [run, ran]
      rfl
  | program =>
      obtain ⟨answer_eq, later_shown⟩ := shown.program enough
      rcases ran : (Machine.Step.program budget).run machine with ⟨outcome, later⟩
      rw [ran] at answer_eq later_shown
      obtain rfl : outcome = some (.ok parser.program.1) := answer_eq
      obtain ⟨stmts, _, statements_ran, rest⟩ := Machine.Step.exists_run_of_bind ran
      obtain ⟨program_eq, rfl⟩ := Prod.mk.inj rest
      obtain ⟨last, reaches⟩ := Machine.Config.reaches_program budget statements_ran
      refine ⟨_, _, ?_, later_shown, reaches, rfl, rfl, ?_⟩
      · rw [run, ran]
        rfl
      · rw [on, ← Except.ok.inj (Option.some.inj program_eq)]

end Request

/-- Whatever has been called on a parser of a source text, and whatever it is then asked for: at no
moment are more expressions open than the levels that are free and one more, or one if none is free,
and no level is taken beyond the greatest one.  The answer is that of the parser.  A machine that
calls itself gives it as well, with a budget of as many expressions that are open at once. -/
theorem open_expressions_bounded (source : String) (calls : List Call) (request : Request) :
    let parser := (Parser.ofString source).after calls
    let machine := (Machine.ofString source).after calls
    let budget := if parser.depth ≤ 256 then 257 - parser.depth else 1
    ∃ later last,
      (∀ config, (request.start machine).Reaches config →
        config.frames.length ≤ budget ∧ config.machine.depth ≤ max parser.depth 256 ∧
          config.Reaches last) ∧
      last.next = none ∧ last.frames = [] ∧ last.machine = later ∧
      last.task = .done (request.on parser).1 ∧ later.Shows (request.on parser).2 ∧
      request.run budget machine = (some (request.on parser).1, later) := by
  intro parser machine budget
  have shown : machine.Shows parser := (Machine.shows_ofString source).after calls
  have enough : maxDepth - parser.depth < budget := by
    simp only [budget, maxDepth]
    split <;> omega
  obtain ⟨later, last, answered, later_shown, ends, machine_eq, frames_eq, task_eq⟩ :=
    request.exists_answer shown enough
  have final : last.next = none := by rw [Machine.Config.next, task_eq]
  refine ⟨later, last, fun config reaches => ?_, final, frames_eq, machine_eq, task_eq,
    later_shown, answered⟩
  have bounded := (Machine.bounded_start request machine).of_reaches reaches
  rw [← shown.agrees.2.2.1] at bounded
  have length_le := bounded.length_le
  refine ⟨?_, bounded.depth_le, reaches.to_final ends final⟩
  simp only [budget, maxDepth] at length_le ⊢
  split <;> omega

end MonkeySyntax
