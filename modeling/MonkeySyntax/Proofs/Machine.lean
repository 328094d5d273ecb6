import MonkeySyntax.Parser

/-!
# The parser as a machine

The machine pulls tokens from a lexer one at a time and keeps two of them.  It counts the levels of
nesting in use: a nested expression and a fold each take one, and an expression puts the counter
back, whether it was read or refused.

How many expressions may be open at once is a budget set beforehand, and a machine that runs out of
it gives up.  Its loops end because every round of one leaves less of the text to come.
-/

namespace MonkeySyntax

/-- The state of the machine. -/
structure Machine where
  /-- The lexer behind the two tokens. -/
  lexer : Lexer
  /-- The current token. -/
  current : Token
  /-- The token after the current one. -/
  peek : Token
  /-- The number of levels in use. -/
  depth : Nat := 0
  /-- What was found to be wrong, in the order in which it was found. -/
  diagnostics : List Diagnostic := []
deriving DecidableEq, Repr

namespace Machine

/-- The machine that has pulled its two tokens from a lexer. -/
def ofLexer (lexer : Lexer) (depth : Nat := 0) (diagnostics : List Diagnostic := []) :
    Machine where
  lexer := lexer.next.2.next.2
  current := lexer.next.1
  peek := lexer.next.2.next.1
  depth := depth
  diagnostics := diagnostics

/-- The machine at the start of a source text. -/
def ofString (source : String) : Machine :=
  ofLexer (.ofString source)

/-- Pulls a token, and goes on to the one after the current one. -/
def advance (machine : Machine) : Machine :=
  { machine with
    lexer := machine.lexer.next.2
    current := machine.peek
    peek := machine.lexer.next.1 }

/-- Whether a token stands for something, and not for the end of the input. -/
def weight (token : Token) : Nat :=
  if token.kind = .endOfInput then 0 else 1

theorem weight_le_one (token : Token) : weight token ≤ 1 := by
  unfold weight
  split <;> omega

theorem weight_eq_one {token : Token} (inside : token.kind ≠ .endOfInput) : weight token = 1 :=
  if_neg inside

/-- How much is to come.  A token weighs the less the nearer it has come, and never as much as the
bytes that it was read from. -/
def pending (machine : Machine) : Nat :=
  3 * machine.lexer.rest.length + 2 * weight machine.peek + weight machine.current

/-- Advancing leaves less to come, as long as anything is. -/
theorem pending_advance_le (machine : Machine) :
    machine.advance.pending ≤ machine.pending - 1 := by
  have pulled_weight := weight_le_one machine.lexer.next.1
  simp only [pending, advance]
  cases read : machine.lexer.next? with
  | none =>
      have next_eq : machine.lexer.next =
          (.endOfInput machine.lexer.finish.offset, machine.lexer.finish) := by
        rw [Lexer.next, read, Option.getD_none]
      have end_weight (size : Nat) : weight (.endOfInput size) = 0 := if_pos rfl
      simp only [next_eq, end_weight, Lexer.finish, List.length_nil]
      omega
  | some found =>
      obtain ⟨token, after⟩ := found
      have shorter := Lexer.rest_length_lt_of_next? read
      have next_eq : machine.lexer.next = (token, after) := by
        rw [Lexer.next, read, Option.getD_some]
      simp only [next_eq] at pulled_weight ⊢
      omega

/-- A step of the machine: it succeeds, fails or, with `none`, gives up. -/
@[ext]
structure Step (α : Type) where
  /-- What the step yields, and the machine after it. -/
  run : Machine → Option (Except Diagnostic α) × Machine
  /-- The step does not put back what it has read. -/
  pending_le : ∀ machine, (run machine).2.pending ≤ machine.pending

namespace Step

variable {α β : Type}

/-- The step that does nothing and yields a value. -/
protected def pure (value : α) : Step α where
  run machine := (some (.ok value), machine)
  pending_le _ := Nat.le_refl _

/-- A step followed by another that depends on its value; a failure of the first is final. -/
protected def bind (first : Step α) (second : α → Step β) : Step β where
  run machine :=
    match first.run machine with
    | (some (.ok value), after) => (second value).run after
    | (some (.error diagnostic), after) => (some (.error diagnostic), after)
    | (none, after) => (none, after)
  pending_le machine := by
    have earlier := first.pending_le machine
    split
    · next value after read =>
        rw [read] at earlier
        exact Nat.le_trans ((second value).pending_le after) earlier
    · next diagnostic after read => rwa [read] at earlier
    · next after read => rwa [read] at earlier

instance : Monad Step where
  pure := Step.pure
  bind := Step.bind

theorem run_bind (first : Step α) (second : α → Step β) (machine : Machine) :
    (first >>= second).run machine =
      match first.run machine with
      | (some (.ok value), after) => (second value).run after
      | (some (.error diagnostic), after) => (some (.error diagnostic), after)
      | (none, after) => (none, after) := rfl

/-- Two steps succeed only if both do. -/
theorem exists_run_of_bind {first : Step α} {second : α → Step β} {machine after : Machine}
    {value : β} (read : (first >>= second).run machine = (some (.ok value), after)) :
    ∃ middle between, first.run machine = (some (.ok middle), between) ∧
      (second middle).run between = (some (.ok value), after) := by
  rw [run_bind] at read
  split at read
  · next middle between first_read => exact ⟨middle, between, first_read, read⟩
  · simp at read
  · simp at read

protected theorem bind_pure (step : Step α) : step >>= Pure.pure = step := by
  refine Step.ext (funext fun machine => ?_)
  rw [run_bind]
  split <;> next read => exact read.symm

protected theorem bind_assoc {γ : Type} (first : Step α) (second : α → Step β)
    (third : β → Step γ) :
    first >>= second >>= third = first >>= fun value => second value >>= third := by
  refine Step.ext (funext fun machine => ?_)
  simp only [run_bind]
  rcases first.run machine with ⟨_ | _ | _, after⟩ <;> rfl

instance : LawfulMonad Step :=
  LawfulMonad.mk' Step Step.bind_pure (fun _ _ => rfl) Step.bind_assoc

/-- The step that fails with a diagnostic. -/
def fail (diagnostic : Diagnostic) : Step α where
  run machine := (some (.error diagnostic), machine)
  pending_le _ := Nat.le_refl _

/-- The step that gives up. -/
def giveUp : Step α where
  run machine := (none, machine)
  pending_le _ := Nat.le_refl _

/-- Yields the current token. -/
def current : Step Token where
  run machine := (some (.ok machine.current), machine)
  pending_le _ := Nat.le_refl _

/-- Yields the token after the current one. -/
def peek : Step Token where
  run machine := (some (.ok machine.peek), machine)
  pending_le _ := Nat.le_refl _

/-- Goes on to the next token. -/
def advance : Step Unit where
  run machine := (some (.ok ()), machine.advance)
  pending_le machine := Nat.le_trans machine.pending_advance_le (Nat.sub_le _ _)

/-- Goes on to the next token if it is of the given kind, and fails there otherwise. -/
def expect (kind : Token.Kind) : Step Unit := do
  let next ← peek
  if next.kind = kind then
    advance
  else
    fail ⟨.unexpectedToken kind next.kind, next.span.start⟩

/-- Sets the number of levels in use. -/
def resetDepth (depth : Nat) : Step Unit where
  run machine := (some (.ok ()), { machine with depth })
  pending_le _ := Nat.le_refl _

/-- Takes one more level, or fails at the current token if none is free. -/
def enterNesting : Step Unit where
  run machine :=
    if machine.depth < maxDepth then
      (some (.ok ()), { machine with depth := machine.depth + 1 })
    else
      (some (.error ⟨.tooDeep maxDepth, machine.current.span.start⟩), machine)
  pending_le machine := by split <;> exact Nat.le_refl _

/-- Takes a step and puts back the number of levels in use, whatever has become of the step. -/
def keepDepth (step : Step α) : Step α where
  run machine :=
    let taken := step.run machine
    (taken.1, { taken.2 with depth := machine.depth })
  pending_le := step.pending_le

/-- Takes a step and yields what has become of it. -/
def attempt (step : Step α) : Step (Except Diagnostic α) where
  run machine :=
    let taken := step.run machine
    (taken.1.map .ok, taken.2)
  pending_le := step.pending_le

/-- Adds a diagnostic to those found so far. -/
def record (diagnostic : Diagnostic) : Step Unit where
  run machine :=
    (some (.ok ()), { machine with diagnostics := machine.diagnostics ++ [diagnostic] })
  pending_le _ := Nat.le_refl _

/-! ### Loops -/

/-- When the step succeeds, it has read something, if anything was left. -/
def Advances (step : Step α) : Prop :=
  ∀ machine value after, step.run machine = (some (.ok value), after) →
    after.pending ≤ machine.pending - 1

theorem advances_advance : advance.Advances := by
  intro machine value after read
  obtain ⟨-, rfl⟩ := Prod.mk.inj read
  exact machine.pending_advance_le

/-- A step that reads something does so whatever comes after it. -/
theorem Advances.bind {first : Step α} {second : α → Step β} (advances : first.Advances) :
    (first >>= second).Advances := by
  intro machine value after read
  obtain ⟨middle, between, first_read, second_read⟩ := exists_run_of_bind read
  have later := (second middle).pending_le between
  rw [second_read] at later
  exact Nat.le_trans later (advances machine middle between first_read)

/-- A step that reads something does so whatever comes before it. -/
theorem Advances.after {first : Step α} {second : α → Step β}
    (advances : ∀ value, (second value).Advances) : (first >>= second).Advances := by
  intro machine value after read
  obtain ⟨middle, between, first_read, second_read⟩ := exists_run_of_bind read
  have earlier := first.pending_le machine
  rw [first_read] at earlier
  have later := advances middle between value after second_read
  simp only at earlier
  omega

/-- A round of a loop, which yields `none` when the loop is over, leaves less to come. -/
def Progresses (round : Step (Option α)) : Prop :=
  ∀ machine next after, round.run machine = (some (.ok (some next)), after) →
    after.pending < machine.pending

/-- A round that looks at one of the two tokens progresses if it reads something, or is the last
one, whenever that token does not end the input. -/
theorem Progresses.of_token {round : Step (Option α)} {next : Token → Step (Option α)}
    (token : Machine → Token)
    (run_eq : ∀ machine, round.run machine = (next (token machine)).run machine)
    (some_left : ∀ machine, (token machine).kind ≠ .endOfInput → 0 < machine.pending)
    (later : ∀ token, next token = Pure.pure none ∨
      token.kind ≠ .endOfInput ∧ (next token).Advances) : round.Progresses := by
  intro machine value after read
  rw [run_eq] at read
  rcases later (token machine) with finished | ⟨inside, advances⟩
  · rw [finished] at read
    exact absurd read (by simp [Pure.pure, Step.pure])
  · have less := advances machine _ after read
    have some_left := some_left machine inside
    omega

theorem Progresses.current_bind {next : Token → Step (Option α)}
    (later : ∀ token, next token = Pure.pure none ∨
      token.kind ≠ .endOfInput ∧ (next token).Advances) : (current >>= next).Progresses := by
  refine .of_token Machine.current (fun _ => rfl) (fun machine inside => ?_) later
  rw [pending, weight_eq_one inside]
  omega

theorem Progresses.peek_bind {next : Token → Step (Option α)}
    (later : ∀ token, next token = Pure.pure none ∨
      token.kind ≠ .endOfInput ∧ (next token).Advances) : (peek >>= next).Progresses := by
  refine .of_token Machine.peek (fun _ => rfl) (fun machine inside => ?_) later
  rw [pending, weight_eq_one inside]
  omega

/-- What rounds of a loop yield, and the machine after the last one. -/
def runLoop (round : α → Step (Option α)) (progresses : ∀ value, (round value).Progresses)
    (value : α) (machine : Machine) : Option (Except Diagnostic α) × Machine :=
  match _read : (round value).run machine with
  | (some (.ok (some next)), after) => runLoop round progresses next after
  | (some (.ok none), after) => (some (.ok value), after)
  | (some (.error diagnostic), after) => (some (.error diagnostic), after)
  | (none, after) => (none, after)
termination_by machine.pending
decreasing_by exact progresses value machine next after _read

theorem pending_runLoop_le {round : α → Step (Option α)}
    {progresses : ∀ value, (round value).Progresses} (value : α) (machine : Machine) :
    (runLoop round progresses value machine).2.pending ≤ machine.pending := by
  fun_induction runLoop round progresses value machine with
  | case1 value machine next after read ih =>
      exact Nat.le_trans ih (Nat.le_of_lt (progresses value machine next after read))
  | case2 value machine after read
  | case3 value machine diagnostic after read
  | case4 value machine after read =>
      have earlier := (round value).pending_le machine
      rwa [read] at earlier

/-- Takes rounds, each with the value of the one before it, until one yields `none`. -/
def loop (round : α → Step (Option α)) (progresses : ∀ value, (round value).Progresses)
    (value : α) : Step α where
  run := runLoop round progresses value
  pending_le := pending_runLoop_le value

/-- A loop is a round and, unless it was the last one, the loop again. -/
theorem loop_eq (round : α → Step (Option α)) (progresses : ∀ value, (round value).Progresses)
    (value : α) :
    loop round progresses value = (do
      match ← round value with
      | some next => loop round progresses next
      | none => pure value) := by
  have run_eq (machine : Machine) :
      runLoop round progresses value machine = Step.run (do
        match ← round value with
        | some next => loop round progresses next
        | none => pure value) machine := by
    rw [runLoop, run_bind]
    split <;> next read => rw [read] <;> rfl
  exact Step.ext (funext run_eq)

/-! ### Operands -/

/-- Reads the current token as a name. -/
def identifier : Step Expr := do
  let token ← current
  pure (.identifier ⟨token, token.literal⟩)

/-- Reads the current token as an integer. -/
def integer : Step Expr := do
  let token ← current
  match integerValue? token.literal with
  | some value => pure (.integer token value)
  | none => fail ⟨.notAnInteger token.literal, token.span.start⟩

/-- Reads the current token as a truth value. -/
def boolean : Step Expr := do
  let token ← current
  pure (.boolean token (token.kind = .trueWord))

/-- Reads the current token as an operator, and its operand after it. -/
def unary (nested : BindingPower → Step Expr) : Step Expr := do
  let token ← current
  advance
  let right ← nested .unary
  pure (.unary token token.literal right)

/-- Reads the expression between the current parenthesis and the one that closes it. -/
def group (nested : BindingPower → Step Expr) : Step Expr := do
  advance
  let expr ← nested .lowest
  expect .closeParen
  pure expr

/-- Reads the operand that a rule describes. -/
def ofOperandRule (nested : BindingPower → Step Expr) : OperandRule → Step Expr
  | .identifier => identifier
  | .integer => integer
  | .boolean => boolean
  | .unary => unary nested
  | .group => group nested

/-- Reads the operand that begins with the current token. -/
def operand (nested : BindingPower → Step Expr) : Step Expr := do
  let token ← current
  match RuleTable.monkey.operand? token.kind with
  | some rule => ofOperandRule nested rule
  | none => fail ⟨.noOperand token.kind, token.span.start⟩

/-! ### Folds -/

/-- Reads the current token as an operator after `left`, and its right operand. -/
def binary (nested : BindingPower → Step Expr) (left : Expr) : Step Expr := do
  let token ← current
  advance
  let right ← nested (RuleTable.monkey.power token.kind)
  pure (.binary token token.literal left right)

/-- Reads an element after a comma, if a comma follows the current token. -/
def elementAfterComma (element : Step α) (earlier : List α) : Step (Option (List α)) := do
  let next ← peek
  if next.kind = .comma then
    advance
    advance
    let value ← element
    pure (some (earlier ++ [value]))
  else
    pure none

theorem progresses_elementAfterComma (element : Step α) (earlier : List α) :
    (elementAfterComma element earlier).Progresses := by
  refine .peek_bind fun token => ?_
  split
  · next comma => exact .inr ⟨by rw [comma]; decide, advances_advance.bind⟩
  · exact .inl rfl

/-- Reads the elements of a list behind those that have been read. -/
def afterCommas (element : Step α) (earlier : List α) : Step (List α) :=
  loop (elementAfterComma element) (progresses_elementAfterComma element) earlier

theorem afterCommas_eq (element : Step α) (earlier : List α) :
    afterCommas element earlier = (do
      let next ← peek
      if next.kind = .comma then
        advance
        advance
        let value ← element
        afterCommas element (earlier ++ [value])
      else
        pure earlier) := by
  refine (loop_eq _ (progresses_elementAfterComma element) earlier).trans ?_
  rw [elementAfterComma, bind_assoc]
  refine bind_congr fun next => ?_
  split <;> simp [afterCommas]

/-- Reads the arguments of a call, from the parenthesis before them to the one after them. -/
def arguments (nested : BindingPower → Step Expr) : Step (List Expr) := do
  let next ← peek
  advance
  if next.kind = .closeParen then
    pure []
  else
    let first ← nested .lowest
    let arguments ← afterCommas (nested .lowest) [first]
    expect .closeParen
    pure arguments

/-- Reads the current token as the parenthesis that opens the arguments of a call to `left`. -/
def call (nested : BindingPower → Step Expr) (left : Expr) : Step Expr := do
  let token ← current
  let arguments ← arguments nested
  pure (.call token left arguments)

/-- Reads the fold that a rule describes. -/
def ofFoldRule (nested : BindingPower → Step Expr) (left : Expr) : FoldRule → Step Expr
  | .binary => binary nested left
  | .call => call nested left

/-- The rule of the fold that a kind of token begins, if it binds more tightly than `power`. -/
def foldAbove (power : BindingPower) (kind : Token.Kind) : Option FoldRule :=
  if kind ≠ .semicolon ∧ power < RuleTable.monkey.power kind then
    RuleTable.monkey.fold? kind
  else
    none

theorem foldAbove_endOfInput (power : BindingPower) : foldAbove power .endOfInput = none := by
  unfold foldAbove
  split <;> rfl

/-- Reads a fold that continues `left` one level further in, if one follows. -/
def nextFold (nested : BindingPower → Step Expr) (power : BindingPower) (left : Expr) :
    Step (Option Expr) := do
  let next ← peek
  match foldAbove power next.kind with
  | some rule =>
      enterNesting
      advance
      let longer ← ofFoldRule nested left rule
      pure (some longer)
  | none => pure none

theorem progresses_nextFold (nested : BindingPower → Step Expr) (power : BindingPower)
    (left : Expr) : (nextFold nested power left).Progresses := by
  refine .peek_bind fun token => ?_
  split
  · next rule found =>
      refine .inr ⟨fun kind_eq => ?_, .after fun _ => advances_advance.bind⟩
      rw [kind_eq, foldAbove_endOfInput] at found
      contradiction
  · exact .inl rfl

/-- Reads the folds that continue `left`. -/
def folds (nested : BindingPower → Step Expr) (power : BindingPower) (left : Expr) : Step Expr :=
  loop (nextFold nested power) (progresses_nextFold nested power) left

theorem folds_eq (nested : BindingPower → Step Expr) (power : BindingPower) (left : Expr) :
    folds nested power left = (do
      let next ← peek
      match foldAbove power next.kind with
      | some rule =>
          enterNesting
          advance
          let longer ← ofFoldRule nested left rule
          folds nested power longer
      | none => pure left) := by
  refine (loop_eq _ (progresses_nextFold nested power) left).trans ?_
  rw [nextFold, bind_assoc]
  refine bind_congr fun next => ?_
  split <;> simp [folds]

/-- Reads an expression whose folds bind more tightly than `power`, with at most `budget`
expressions open at once. -/
def expression : (budget : Nat) → (power : BindingPower) → Step Expr
  | 0, _ => giveUp
  | budget + 1, power => keepDepth do
      enterNesting
      let left ← operand (expression budget)
      folds (expression budget) power left

/-! ### Statements -/

/-- Reads the current token as the keyword of a binding, and the binding. -/
def binding (budget : Nat) : Step Stmt := do
  let token ← current
  expect .identifier
  let name ← current
  expect .assign
  advance
  let value ← expression budget .lowest
  expect .semicolon
  pure (.binding token ⟨name, name.literal⟩ value)

/-- Reads the current token as the keyword before a result, and the result. -/
def result (budget : Nat) : Step Stmt := do
  let token ← current
  advance
  let value ← expression budget .lowest
  expect .semicolon
  pure (.result token value)

/-- Reads a statement that is an expression. -/
def expressionStatement (budget : Nat) : Step Stmt := do
  let token ← current
  let expr ← expression budget .lowest
  expect .semicolon
  pure (.expression token expr)

/-- Reads the statement that a rule describes. -/
def ofStatementRule (budget : Nat) : StatementRule → Step Stmt
  | .binding => binding budget
  | .result => result budget

/-- Reads the statement that begins with the current token. -/
def statement (budget : Nat) : Step Stmt := do
  let token ← current
  match RuleTable.monkey.statement? token.kind with
  | some rule => ofStatementRule budget rule
  | none => expressionStatement budget

/-- Goes on to the next token unless the current one is a semicolon or ends the input. -/
def skip : Step (Option Unit) := do
  let token ← current
  if token.kind = .semicolon ∨ token.kind = .endOfInput then
    pure none
  else
    advance
    pure (some ())

theorem progresses_skip : skip.Progresses := by
  refine .current_bind fun token => ?_
  split
  · exact .inl rfl
  · next neither => exact .inr ⟨fun ended => neither (.inr ended), advances_advance.bind⟩

/-- Goes on to the next semicolon, or to the end of the input. -/
def synchronize : Step Unit :=
  loop (fun _ => skip) (fun _ => progresses_skip) ()

theorem synchronize_eq :
    synchronize = (do
      let token ← current
      if token.kind = .semicolon ∨ token.kind = .endOfInput then
        pure ()
      else
        advance
        synchronize) := by
  refine (loop_eq _ (fun _ => progresses_skip) ()).trans ?_
  change (current >>= _) >>= _ = _
  rw [bind_assoc]
  refine bind_congr fun token => ?_
  split
  · rfl
  · rw [bind_assoc]
    rfl

theorem run_synchronize (machine : Machine) :
    synchronize.run machine =
      if machine.current.kind = .semicolon ∨ machine.current.kind = .endOfInput then
        (some (.ok ()), machine)
      else
        synchronize.run machine.advance := by
  conv =>
    lhs
    rw [synchronize_eq]
  change (if _ then _ else _ : Step Unit).run machine = _
  split <;> rfl

/-- Reads one more statement, unless the input has ended.  A statement that fails is left out, what
is wrong with it is recorded, and its tokens are passed over. -/
def nextStatement (budget : Nat) (earlier : List Stmt) : Step (Option (List Stmt)) := do
  let token ← current
  if token.kind = .endOfInput then
    pure none
  else
    match ← attempt (statement budget) with
    | .ok stmt =>
        advance
        pure (some (earlier ++ [stmt]))
    | .error diagnostic =>
        record diagnostic
        synchronize
        advance
        pure (some earlier)

theorem progresses_nextStatement (budget : Nat) (earlier : List Stmt) :
    (nextStatement budget earlier).Progresses := by
  refine .current_bind fun token => ?_
  split
  · exact .inl rfl
  · next inside =>
      refine .inr ⟨inside, .after fun outcome => ?_⟩
      cases outcome with
      | ok stmt => exact advances_advance.bind
      | error diagnostic => exact .after fun _ => .after fun _ => advances_advance.bind

/-- Reads the statements behind those that have been read. -/
def statements (budget : Nat) (earlier : List Stmt) : Step (List Stmt) :=
  loop (nextStatement budget) (progresses_nextStatement budget) earlier

theorem statements_eq (budget : Nat) (earlier : List Stmt) :
    statements budget earlier = (do
      let token ← current
      if token.kind = .endOfInput then
        pure earlier
      else
        match ← attempt (statement budget) with
        | .ok stmt =>
            advance
            statements budget (earlier ++ [stmt])
        | .error diagnostic =>
            record diagnostic
            synchronize
            advance
            statements budget earlier) := by
  refine (loop_eq _ (progresses_nextStatement budget) earlier).trans ?_
  rw [nextStatement, bind_assoc]
  refine bind_congr fun token => ?_
  split
  · simp
  · rw [bind_assoc]
    refine bind_congr fun outcome => ?_
    cases outcome <;> simp [statements]

theorem run_statements (budget : Nat) (earlier : List Stmt) (machine : Machine) :
    (statements budget earlier).run machine =
      if machine.current.kind = .endOfInput then
        (some (.ok earlier), machine)
      else
        match (statement budget).run machine with
        | (some (.ok stmt), after) => (statements budget (earlier ++ [stmt])).run after.advance
        | (some (.error diagnostic), after) =>
            (do
              record diagnostic
              synchronize
              advance
              statements budget earlier).run after
        | (none, after) => (none, after) := by
  conv =>
    lhs
    rw [statements_eq]
  change (if _ then _ else _ : Step (List Stmt)).run machine = _
  split
  · rfl
  · rw [run_bind]
    simp only [attempt]
    rcases (statement budget).run machine with ⟨_ | _ | _, after⟩ <;> rfl

/-- Reads statements to the end of the input. -/
def program (budget : Nat) : Step Program := do
  let statements ← statements budget []
  pure ⟨statements⟩

end Step

end Machine

end MonkeySyntax
