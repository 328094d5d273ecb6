import MonkeySyntax.Proofs.Isolation
import MonkeySyntax.Proofs.Refinement

/-!
# What every run of calls preserves

Calls can be made on a parser in any order: a fold where no operator stands, an operand at the end
of the input, a level taken or set back by hand.  Whatever they are, the machine answers as the
parser does.  Its two tokens are neighbours in the source text, its lexer stands right behind them,
and none of the three ever goes back.  A call that reads puts back the levels in use, and only
reading a program adds diagnostics.
-/

namespace MonkeySyntax

/-- A call that can be made on a parser. -/
inductive Call where
  /-- Goes on to the next token. -/
  | advance
  /-- Goes on to the next token if it is of a kind. -/
  | expect (kind : Token.Kind)
  /-- Takes a level. -/
  | enterNesting
  /-- Sets the number of levels in use. -/
  | resetDepth (depth : Nat)
  /-- Reads an expression whose folds bind more tightly than a power. -/
  | expression (power : BindingPower)
  /-- Reads the operand that a rule describes, whatever the current token is. -/
  | operand (rule : OperandRule)
  /-- Reads the fold that a rule describes, whatever the current token and the left operand are. -/
  | fold (rule : FoldRule) (left : Expr)
  /-- Reads the statement that begins with the current token. -/
  | statement
  /-- Reads the statement that a rule describes, whatever the current token is. -/
  | statementOf (rule : StatementRule)
  /-- Reads a statement that is an expression. -/
  | expressionStatement
  /-- Reads statements to the end of the input. -/
  | program

namespace Call

/-- What a call yields when it succeeds. -/
def Result : Call → Type
  | advance | expect _ | enterNesting | resetDepth _ => Unit
  | expression _ | operand _ | fold _ _ => Expr
  | statement | statementOf _ | expressionStatement => Stmt
  | program => Program

/-- The answer of a parser to a call, and the parser after it. -/
def on : (call : Call) → Parser → Except Diagnostic call.Result × Parser
  | advance, parser => (.ok (), parser.advance)
  | expect kind, parser => parser.expect kind
  | enterNesting, parser =>
      match parser.enterNesting with
      | .ok deeper => (.ok (), deeper)
      | .error diagnostic => (.error diagnostic, parser)
  | resetDepth depth, parser => (.ok (), parser.resetDepth depth)
  | expression power, parser => parser.expression power
  | operand rule, parser => parser.operand rule
  | fold rule left, parser => parser.fold rule left
  | statement, parser => parser.statement
  | statementOf rule, parser => parser.statementOf rule
  | expressionStatement, parser => parser.expressionStatement
  | program, parser => (.ok parser.program.1, parser.program.2)

/-- A level is taken as long as one is free. -/
theorem on_enterNesting (parser : Parser) :
    enterNesting.on parser =
      if parser.depth < maxDepth then (.ok (), { parser with depth := parser.depth + 1 })
      else (.error ⟨.tooDeep maxDepth, parser.current.span.start⟩, parser) := by
  by_cases free : parser.depth < maxDepth <;> simp [on, Parser.enterNesting, free]

/-- The call as a step of the machine, with a budget for every level and one expression more. -/
def step : (call : Call) → Machine.Step call.Result
  | advance => .advance
  | expect kind => .expect kind
  | enterNesting => .enterNesting
  | resetDepth depth => .resetDepth depth
  | expression power => .expression (maxDepth + 1) power
  | operand rule => .ofOperandRule (.expression (maxDepth + 1)) rule
  | fold rule left => .ofFoldRule (.expression (maxDepth + 1)) left rule
  | statement => .statement (maxDepth + 1)
  | statementOf rule => .ofStatementRule (maxDepth + 1) rule
  | expressionStatement => .expressionStatement (maxDepth + 1)
  | program => .program (maxDepth + 1)

end Call

/-- The parser after some calls, whatever it has answered to them. -/
def Parser.after (parser : Parser) (calls : List Call) : Parser :=
  calls.foldl (fun parser call => (call.on parser).2) parser

/-- The machine after some calls, whatever it has answered to them. -/
def Machine.after (machine : Machine) (calls : List Call) : Machine :=
  calls.foldl (fun machine call => (call.step.run machine).2) machine

/-! ### The machine shows the parser -/

/-- The machine has pulled its two tokens from a lexer whose tokens are the stream of the parser,
and agrees with the parser on everything else. -/
def Machine.Shows (machine : Machine) (parser : Parser) : Prop :=
  ∃ lexer, parser.stream = .ofLexer lexer ∧
    machine = .ofLexer lexer parser.depth parser.diagnostics

section

variable {machine : Machine} {parser : Parser}

theorem Machine.shows_ofString (source : String) :
    (Machine.ofString source).Shows (Parser.ofString source) :=
  ⟨.ofString source, rfl, rfl⟩

/-- A step that mirrors a parsing step answers as the parser does, and shows it afterwards. -/
theorem Machine.Shows.perform {α : Type} {step : Step α} {plain : Parse α}
    (shown : machine.Shows parser)
    (mirrors : ∀ lexer, Mirrors step plain parser.depth lexer) :
    (step.run machine).1 = some (parser.perform plain).1 ∧
      (step.run machine).2.Shows (parser.perform plain).2 := by
  obtain ⟨lexer, stream_eq, rfl⟩ := shown
  obtain ⟨after, _, left_eq, rfl, run_eq⟩ := mirrors lexer
  rw [run_eq, Parser.perform, stream_eq]
  exact ⟨rfl, after, left_eq, rfl⟩

/-- The machine takes a level, or refuses to, as the parser does. -/
theorem Machine.Shows.enterNesting (shown : machine.Shows parser) :
    (Call.enterNesting.step.run machine).1 = some (Call.enterNesting.on parser).1 ∧
      (Call.enterNesting.step.run machine).2.Shows (Call.enterNesting.on parser).2 := by
  obtain ⟨lexer, stream_eq, rfl⟩ := shown
  have start_eq : parser.current = lexer.next.1 := by
    rw [Parser.current, stream_eq, TokenStream.current_ofLexer]
  rcases Nat.lt_or_ge parser.depth maxDepth with free | full
  · have run_eq := Step.run_enterNesting_of_lt free lexer parser.diagnostics
    rw [Call.on_enterNesting, if_pos free]
    exact ⟨congrArg Prod.fst run_eq, lexer, stream_eq, congrArg Prod.snd run_eq⟩
  · have run_eq := Step.run_enterNesting_of_le full lexer parser.diagnostics
    rw [Call.on_enterNesting, if_neg (Nat.not_lt.mpr full), start_eq]
    exact ⟨congrArg Prod.fst run_eq, lexer, stream_eq, congrArg Prod.snd run_eq⟩

/-- The machine reads the program that the parser reads. -/
theorem Machine.Shows.program {budget : Nat} (shown : machine.Shows parser)
    (enough : maxDepth - parser.depth < budget) :
    ((Step.program budget).run machine).1 = some (.ok parser.program.1) ∧
      ((Step.program budget).run machine).2.Shows parser.program.2 := by
  obtain ⟨lexer, stream_eq, rfl⟩ := shown
  obtain ⟨after, left_eq, run_eq⟩ := Machine.collects_outcomes enough lexer
  rw [← stream_eq] at left_eq run_eq
  rw [Step.program, Step.run_bind, run_eq, List.nil_append]
  exact ⟨rfl, after, left_eq, rfl⟩

/-- The machine answers to a call as the parser does, and shows it afterwards. -/
theorem Call.step_shows (shown : machine.Shows parser) (call : Call) :
    (call.step.run machine).1 = some (call.on parser).1 ∧
      (call.step.run machine).2.Shows (call.on parser).2 := by
  have enough : maxDepth - parser.depth < maxDepth + 1 := Nat.lt_succ_of_le (Nat.sub_le _ _)
  have nested (power : BindingPower) (lexer : Lexer) :
      Machine.Mirrors (.expression (maxDepth + 1) power) (parser.nested power) parser.depth lexer :=
    Machine.mirrors_expression enough power
  cases call with
  | advance =>
      obtain ⟨lexer, stream_eq, rfl⟩ := shown
      have moved := congrArg TokenStream.advance stream_eq
      exact ⟨rfl, lexer.next.2, moved.trans (TokenStream.advance_ofLexer lexer), rfl⟩
  | expect kind => exact shown.perform fun _ => Machine.mirrors_expect kind
  | enterNesting => exact shown.enterNesting
  | resetDepth depth =>
      obtain ⟨lexer, stream_eq, rfl⟩ := shown
      exact ⟨rfl, lexer, stream_eq, rfl⟩
  | expression power => exact shown.perform (nested power)
  | operand rule => exact shown.perform fun _ => Machine.mirrors_operandRule nested rule
  | fold rule left => exact shown.perform fun _ => Machine.mirrors_foldRule nested rule
  | statement => exact shown.perform fun _ => Machine.mirrors_statement enough
  | statementOf rule =>
      exact shown.perform fun _ => Machine.mirrors_statementRule enough rule
  | expressionStatement =>
      exact shown.perform fun _ => Machine.mirrors_expressionStatement enough
  | program => exact shown.program enough

/-- Whatever has been called, the machine shows the parser. -/
theorem Machine.Shows.after (shown : machine.Shows parser) (calls : List Call) :
    (machine.after calls).Shows (parser.after calls) := by
  induction calls generalizing machine parser with
  | nil => exact shown
  | cons call calls ih => exact ih (call.step_shows shown).2

end

/-! ### What a call changes -/

theorem Parse.resume_isRestOf {stream : TokenStream} (step : Parse Stmt) :
    (Parse.resume (step.run stream)).IsRestOf stream := by
  have step_rest := step.run_isRestOf stream
  unfold Parse.resume
  split
  · next read =>
      rw [read] at step_rest
      exact (TokenStream.advance_isRestOf _).trans step_rest
  · next read =>
      rw [read] at step_rest
      exact (TokenStream.advance_isRestOf _).trans
        ((TokenStream.synchronize_isRestOf _).trans step_rest)

theorem Parse.outcomes_isRestOf (room : Nat) (stream : TokenStream) :
    (Parse.outcomes room stream).2.IsRestOf stream := by
  fun_induction Parse.outcomes room stream with
  | case1 stream left outcome others ih => exact ih.trans (Parse.resume_isRestOf _)
  | case2 stream ended => exact .refl stream

namespace Call

variable (call : Call) (parser : Parser)

/-- A call does not go back in the source text. -/
theorem stream_on_isRestOf : (call.on parser).2.stream.IsRestOf parser.stream := by
  cases call with
  | advance => exact TokenStream.advance_isRestOf _
  | enterNesting =>
      rw [on_enterNesting]
      split <;> exact .refl _
  | resetDepth depth => exact .refl _
  | program => exact Parse.outcomes_isRestOf _ _
  | _ => exact Parse.run_isRestOf _ _

/-- Only taking a level and setting the number of levels in use change that number. -/
theorem depth_on :
    (call.on parser).2.depth =
      match call with
      | enterNesting => if parser.depth < maxDepth then parser.depth + 1 else parser.depth
      | resetDepth depth => depth
      | _ => parser.depth := by
  cases call with
  | enterNesting =>
      rw [on_enterNesting]
      split <;> rfl
  | _ => rfl

/-- Diagnostics are only added, and only by reading a program. -/
theorem exists_diagnostics_on :
    ∃ added, (call.on parser).2.diagnostics = parser.diagnostics ++ added ∧
      (call = program ∨ added = []) := by
  cases call with
  | enterNesting =>
      rw [on_enterNesting]
      split <;> exact ⟨[], (List.append_nil _).symm, .inr rfl⟩
  | program => exact ⟨_, rfl, .inl rfl⟩
  | _ => exact ⟨[], (List.append_nil _).symm, .inr rfl⟩

end Call

/-! ### Runs of calls -/

/-- The tokens of a source text, and then the end of the input for ever. -/
def tokenAt (source : String) (index : Nat) : Token :=
  (tokenize source).getD index (.endOfInput source.utf8ByteSize)

theorem tokenAt_eq_headD (source : String) (index : Nat) :
    tokenAt source index =
      ((Lexer.ofString source).tokens.drop index).headD (.endOfInput source.utf8ByteSize) := by
  rw [tokenAt, tokenize, List.headD_eq_head?_getD, List.head?_drop, List.getD_eq_getElem?_getD]
  rcases Nat.lt_or_ge index (Lexer.ofString source).tokens.length with inside | past
  · rw [List.getElem?_append_left inside]
  · rw [List.getElem?_append_right past, List.getElem?_eq_none past]
    cases index - (Lexer.ofString source).tokens.length <;> rfl

/-- The number of tokens that a parser of a source text has passed. -/
def Parser.passed (parser : Parser) (source : String) : Nat :=
  (Lexer.ofString source).tokens.length - parser.stream.tokens.length

section

variable {source : String} {lexer : Lexer} {index : Nat}

/-- A lexer behind some tokens of a source text yields the next one, and then stands behind it. -/
theorem next_eq_tokenAt
    (behind : TokenStream.ofLexer lexer =
      ⟨(Lexer.ofString source).tokens.drop index, source.utf8ByteSize⟩) :
    lexer.next.1 = tokenAt source index ∧
      TokenStream.ofLexer lexer.next.2 =
        ⟨(Lexer.ofString source).tokens.drop (index + 1), source.utf8ByteSize⟩ := by
  constructor
  · rw [← TokenStream.current_ofLexer, behind, tokenAt_eq_headD]
    rfl
  · rw [← TokenStream.advance_ofLexer, behind, TokenStream.advance, List.tail_drop]

/-- Whatever has been called on a parser, its stream is a rest of what it was. -/
theorem Parser.after_isRestOf (parser : Parser) (calls : List Call) :
    (parser.after calls).stream.IsRestOf parser.stream := by
  induction calls generalizing parser with
  | nil => exact .refl _
  | cons call calls ih => exact (ih _).trans (call.stream_on_isRestOf parser)

/-- Whatever has been called on a parser of a source text, it stands behind some tokens of the text.
So what holds of all parsers that stand so holds of every parser that calls can lead to. -/
theorem Parser.after_eq_behind (source : String) (calls : List Call) :
    let parser := (Parser.ofString source).after calls
    parser = .behind source (parser.passed source) parser.depth parser.diagnostics := by
  intro parser
  have rest : parser.stream.IsRestOf (.ofString source) := Parser.after_isRestOf _ calls
  have tokens_eq := List.suffix_iff_eq_drop.mp rest.suffix
  have size_eq := rest.size_eq.trans (size_ofString source)
  have stream_eq : parser.stream =
      (Parser.behind source (parser.passed source) parser.depth parser.diagnostics).stream := by
    rw [stream_behind]
    exact congrArg₂ TokenStream.mk tokens_eq size_eq
  exact congrArg (Parser.mk · parser.depth parser.diagnostics) stream_eq

/-- The window of a machine is in step with the tokens of the source text. -/
theorem Machine.Shows.window {machine : Machine} {passed depth : Nat}
    {diagnostics : List Diagnostic}
    (shown : machine.Shows (.behind source passed depth diagnostics)) :
    machine.current = tokenAt source passed ∧
      machine.peek = tokenAt source (passed + 1) ∧
      machine.lexer.next.1 = tokenAt source (passed + 2) := by
  obtain ⟨lexer, stream_eq, rfl⟩ := shown
  rw [stream_behind] at stream_eq
  obtain ⟨current_eq, behind⟩ := next_eq_tokenAt stream_eq.symm
  obtain ⟨peek_eq, behind⟩ := next_eq_tokenAt behind
  exact ⟨current_eq, peek_eq, (next_eq_tokenAt behind).1⟩

end

/-- What can be seen of a parser is seen of the machine that shows it. -/
theorem Machine.Shows.agrees {machine : Machine} {parser : Parser}
    (shown : machine.Shows parser) :
    parser.current = machine.current ∧ parser.peek = machine.peek ∧
      parser.depth = machine.depth ∧ parser.diagnostics = machine.diagnostics := by
  obtain ⟨lexer, stream_eq, rfl⟩ := shown
  refine ⟨?_, ?_, rfl, rfl⟩
  · rw [Parser.current, stream_eq, TokenStream.current_ofLexer]
    rfl
  · rw [Parser.peek, stream_eq, TokenStream.peek_ofLexer]
    rfl

/-- Whatever calls are made on a parser of a source text, the machine answers them alike.  Its
tokens are two neighbours in the text and its lexer yields the token behind them, and none of the
three goes back.  Only the calls that are made for it change the number of levels in use, whether
they succeed or fail, and only reading a program adds diagnostics, behind those found before. -/
theorem calls_keep_window (source : String) :
    ∃ index : List Call → Nat, ∀ (calls : List Call) (call : Call),
      let parser := (Parser.ofString source).after calls
      let machine := (Machine.ofString source).after calls
      let later := (Machine.ofString source).after (calls ++ [call])
      (machine.current = tokenAt source (index calls) ∧
        machine.peek = tokenAt source (index calls + 1) ∧
        machine.lexer.next.1 = tokenAt source (index calls + 2)) ∧
      (parser.current = machine.current ∧ parser.peek = machine.peek ∧
        parser.depth = machine.depth ∧ parser.diagnostics = machine.diagnostics) ∧
      (call.step.run machine).1 = some (call.on parser).1 ∧
      index calls ≤ index (calls ++ [call]) ∧
      later.depth = (match call with
        | .enterNesting => if machine.depth < 256 then machine.depth + 1 else machine.depth
        | .resetDepth depth => depth
        | _ => machine.depth) ∧
      ∃ added, later.diagnostics = machine.diagnostics ++ added ∧
        (call = .program ∨ added = []) := by
  refine ⟨fun calls => ((Parser.ofString source).after calls).passed source, fun calls call => ?_⟩
  intro parser machine later
  have shown : machine.Shows parser := (Machine.shows_ofString source).after calls
  have later_eq : later = (call.step.run machine).2 := by
    simp only [later, Machine.after, List.foldl_append]
    rfl
  have parser_eq : (Parser.ofString source).after (calls ++ [call]) = (call.on parser).2 := by
    rw [Parser.after, List.foldl_append]
    rfl
  have shown_behind : machine.Shows
      (.behind source (parser.passed source) parser.depth parser.diagnostics) := by
    rw [← Parser.after_eq_behind source calls]
    exact shown
  have further := (call.stream_on_isRestOf parser).length_le
  have agrees := shown.agrees
  obtain ⟨answers_eq, later_shown⟩ := call.step_shows shown
  obtain ⟨-, -, depth_eq, diagnostics_eq⟩ := later_shown.agrees
  obtain ⟨added, added_eq, only_program⟩ := call.exists_diagnostics_on parser
  refine ⟨shown_behind.window, agrees, answers_eq, ?_, ?_, added, ?_, only_program⟩
  · simp only [parser_eq]
    exact Nat.sub_le_sub_left further _
  · rw [later_eq, ← depth_eq, call.depth_on, ← agrees.2.2.1]
    rfl
  · rw [later_eq, ← diagnostics_eq, added_eq, agrees.2.2.2]

end MonkeySyntax
