import MonkeySyntax.Parse.Expression

/-!
# Parsing statements

A statement ends with a semicolon.  A program is read statement by statement: after a failure the
tokens up to the next semicolon are passed over, and reading goes on behind it.
-/

namespace MonkeySyntax
namespace Parse

/-- Reads the current token as the keyword of a binding, and the binding. -/
def binding (room : Nat) : Parse Stmt := do
  let token ← current
  expect .identifier
  let name ← current
  expect .assign
  advance
  let value ← expression room .lowest
  expect .semicolon
  pure (.binding token ⟨name, name.literal⟩ value)

/-- Reads the current token as the keyword before a result, and the result. -/
def result (room : Nat) : Parse Stmt := do
  let token ← current
  advance
  let value ← expression room .lowest
  expect .semicolon
  pure (.result token value)

/-- Reads a statement that is an expression. -/
def expressionStatement (room : Nat) : Parse Stmt := do
  let token ← current
  let expr ← expression room .lowest
  expect .semicolon
  pure (.expression token expr)

/-- Reads the statement that a rule describes. -/
def ofStatementRule (room : Nat) : StatementRule → Parse Stmt
  | .binding => binding room
  | .result => result room

/-- Reads the statement that begins with the current token. -/
def statement (room : Nat) : Parse Stmt := do
  let token ← current
  match RuleTable.monkey.statement? token.kind with
  | some rule => ofStatementRule room rule
  | none => expressionStatement room

/-- The stream on which the next statement is read: behind the semicolon that ends this one. -/
def resume : Except Diagnostic Stmt × TokenStream → TokenStream
  | (.ok _, after) => after.advance
  | (.error _, after) => after.synchronize.advance

/-- The next statement begins further on. -/
theorem length_resume_lt {stream : TokenStream} (left : stream.hasTokens = true)
    (step : Parse Stmt) : (resume (step.run stream)).tokens.length < stream.tokens.length := by
  have some_token : 0 < stream.tokens.length :=
    Nat.lt_of_le_of_lt (Nat.zero_le _) (TokenStream.length_advance_lt left)
  have after_rest := step.run_isRestOf stream
  unfold resume
  split
  · next statement after read =>
      rw [read] at after_rest
      have after_le : after.tokens.length ≤ stream.tokens.length := after_rest.length_le
      simp only [TokenStream.advance, List.length_tail]
      omega
  · next diagnostic after read =>
      rw [read] at after_rest
      have after_le := (after.synchronize_isRestOf.trans after_rest).length_le
      simp only [TokenStream.advance, List.length_tail]
      omega

/-- Reads statements to the end of the input, and yields what became of each. -/
def outcomes (room : Nat) (stream : TokenStream) :
    List (Except Diagnostic Stmt) × TokenStream :=
  if _left : stream.hasTokens then
    let outcome := (statement room).run stream
    let others := outcomes room (resume outcome)
    (outcome.1 :: others.1, others.2)
  else
    ([], stream)
termination_by stream.tokens.length
decreasing_by exact length_resume_lt _left (statement room)

end Parse

/-- The statements among some outcomes. -/
def statementsOf (outcomes : List (Except Diagnostic Stmt)) : List Stmt :=
  outcomes.filterMap fun
    | .ok statement => some statement
    | .error _ => none

/-- The diagnostics among some outcomes. -/
def diagnosticsOf (outcomes : List (Except Diagnostic Stmt)) : List Diagnostic :=
  outcomes.filterMap fun
    | .ok _ => none
    | .error diagnostic => some diagnostic

section

variable (stmt : Stmt) (diagnostic : Diagnostic) (outcomes : List (Except Diagnostic Stmt))

@[simp]
theorem statementsOf_ok_cons :
    statementsOf (.ok stmt :: outcomes) = stmt :: statementsOf outcomes := rfl

@[simp]
theorem statementsOf_error_cons :
    statementsOf (.error diagnostic :: outcomes) = statementsOf outcomes := rfl

@[simp]
theorem diagnosticsOf_ok_cons : diagnosticsOf (.ok stmt :: outcomes) = diagnosticsOf outcomes :=
  rfl

@[simp]
theorem diagnosticsOf_error_cons :
    diagnosticsOf (.error diagnostic :: outcomes) = diagnostic :: diagnosticsOf outcomes := rfl

theorem mem_statementsOf {stmt : Stmt} {outcomes : List (Except Diagnostic Stmt)} :
    stmt ∈ statementsOf outcomes ↔ .ok stmt ∈ outcomes := by
  induction outcomes with
  | nil => simp [statementsOf]
  | cons outcome outcomes ih => cases outcome <;> simp [ih]

/-- Every outcome is a statement or a diagnostic. -/
theorem length_statementsOf_add_length_diagnosticsOf :
    (statementsOf outcomes).length + (diagnosticsOf outcomes).length = outcomes.length := by
  induction outcomes with
  | nil => rfl
  | cons outcome outcomes ih =>
      cases outcome with
      | ok stmt => simp only [statementsOf_ok_cons, diagnosticsOf_ok_cons, List.length_cons]; omega
      | error diagnostic =>
          simp only [statementsOf_error_cons, diagnosticsOf_error_cons, List.length_cons]; omega

end

end MonkeySyntax
