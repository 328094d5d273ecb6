import Mathlib.Logic.Function.Iterate
import MonkeySyntax.Parser
import MonkeySyntax.Proofs.Lexing
import MonkeySyntax.Proofs.Segments

/-!
# Statements do not disturb each other

Reading a program yields one outcome for each segment of the tokens that are left.  The outcome of a
segment that ends with a semicolon is the one of a source text that is cut off right behind it.
What stands before such a segment or behind it does not matter, however wrong it is.

The last segment may have no semicolon, and then its outcome is the one of the source text itself.
This text cannot be cut off right behind the last token, because blanks that follow it move the
place at which the input ends, and a missing token is reported there.
-/

namespace MonkeySyntax

/-- Whether a list of tokens ends with a semicolon. -/
def endsClosed (tokens : List Token) : Bool :=
  tokens.getLast?.any (·.kind = .semicolon)

/-- `cut` is the text that has just the given tokens, the first ones of a source text: the source
text cut off right behind them if they end with a semicolon, and otherwise the whole source text,
with the blanks at its end. -/
structure IsCut (source : String) (tokens : List Token) (cut : String) : Prop where
  front : ∃ rest, source = cut ++ rest
  tokens_eq : (Lexer.ofString cut).tokens = tokens
  ends : if endsClosed tokens then ∃ start, cut = start ++ ";" else cut = source

namespace Parser

/-- A parser of a source text behind some number of tokens, with some number of levels in use and
some diagnostics collected. -/
def behind (source : String) (passed depth : Nat) (diagnostics : List Diagnostic) : Parser where
  stream := TokenStream.advance^[passed] (.ofString source)
  depth := depth
  diagnostics := diagnostics

/-- The segments of the tokens that a parser has still to read. -/
def segments (parser : Parser) : List (List Token) :=
  MonkeySyntax.segments parser.stream.tokens

end Parser

section

variable {source : String} {token : Token} {tokens later : List Token}

theorem TokenStream.iterate_advance (stream : TokenStream) (count : Nat) :
    TokenStream.advance^[count] stream = ⟨stream.tokens.drop count, stream.size⟩ := by
  induction count generalizing stream with
  | zero => rfl
  | succ count ih =>
      rw [Function.iterate_succ_apply, ih]
      simp [advance]

/-- A source text can be cut off behind any of its semicolons, and at its end. -/
theorem exists_isCut (split : (Lexer.ofString source).tokens = tokens ++ later)
    (closed : endsClosed tokens ∨ later = []) : ∃ cut, IsCut source tokens cut := by
  by_cases ends : endsClosed tokens
  · obtain ⟨last, last_eq, kind_eq⟩ : ∃ last, tokens.getLast? = some last ∧
        last.kind = .semicolon := by
      simpa [endsClosed, Option.any_eq_true] using ends
    obtain ⟨after, scans⟩ := Lexer.exists_scans split
    obtain ⟨used, source_eq, -, used_scans, used_ends⟩ := scans.exists_used
    obtain ⟨front, lexeme, wellFormed, erase_eq, rfl⟩ := used_ends last last_eq
    have lexeme_kind : lexeme.kind = .semicolon := (congrArg Token.kind erase_eq).symm.trans kind_eq
    -- The last token is a semicolon, a byte that is a character of its own.
    have bytes_eq : lexeme.bytes = bytesOf ";" := wellFormed.bytes_eq (by rw [lexeme_kind]; rfl)
    have ascii : IsAscii 59 := show (59 : UInt8).toNat < 128 by decide
    rw [bytes_eq] at source_eq used_scans
    have bytes_split : bytesOf source = front ++ 59 :: after.rest := by
      rw [List.append_assoc] at source_eq
      exact source_eq
    obtain ⟨start, rest, text_eq, start_eq, -⟩ := exists_text_of_bytesOf ascii bytes_split
    have cut_eq : Lexer.ofString (start ++ ";") = ⟨0, front ++ bytesOf ";"⟩ := by
      rw [← start_eq, ← bytesOf_append]
      rfl
    have cut_tokens : (Lexer.ofString (start ++ ";")).tokens = tokens := by
      have cut_tokens := used_scans.tokens_eq
      rw [Lexer.tokens_nil, List.append_nil] at cut_tokens
      rw [cut_eq]
      exact cut_tokens
    refine ⟨start ++ ";", ⟨rest, text_eq⟩, cut_tokens, ?_⟩
    rw [if_pos ends]
    exact ⟨start, rfl⟩
  · obtain rfl : later = [] := closed.resolve_left ends
    refine ⟨source, ⟨"", by simp⟩, by rw [split, List.append_nil], by rw [if_neg ends]⟩

theorem size_ofString (source : String) :
    (TokenStream.ofString source).size = source.utf8ByteSize := by
  simp [TokenStream.ofString, TokenStream.ofLexer, Lexer.finish, Lexer.ofString]

theorem stream_behind (source : String) (passed depth : Nat) (diagnostics : List Diagnostic) :
    (Parser.behind source passed depth diagnostics).stream =
      ⟨(Lexer.ofString source).tokens.drop passed, source.utf8ByteSize⟩ := by
  rw [Parser.behind, TokenStream.iterate_advance, size_ofString]
  rfl

theorem endsClosed_append {first : List Token} (ne : tokens ≠ []) :
    endsClosed (first ++ tokens) = endsClosed tokens := by
  obtain ⟨last, last_eq⟩ := Option.ne_none_iff_exists'.mp (mt List.getLast?_eq_none_iff.mp ne)
  rw [endsClosed, endsClosed, List.getLast?_append, last_eq]
  rfl

theorem endsClosed_concat (kind_eq : token.kind = .semicolon) :
    endsClosed (tokens ++ [token]) = true := by
  simp [endsClosed, kind_eq]

theorem endsClosed_of_isPlain (plain : IsPlain tokens) : endsClosed tokens = false := by
  rw [endsClosed, Option.any_eq_false]
  intro last last_eq
  exact decide_eq_false (plain last (List.mem_of_getLast? last_eq))

/-- A parser of a text that ends with a segment reads the segment alone. -/
theorem statement_behind_cut {front : List Token} {cut : String} (depth : Nat)
    (tokens_eq : (Lexer.ofString cut).tokens = front ++ tokens) :
    (Parser.behind cut front.length depth []).statement.1 =
      ((Parse.statement (maxDepth - depth)).run ⟨tokens, cut.utf8ByteSize⟩).1 := by
  have stream_eq := stream_behind cut front.length depth []
  rw [tokens_eq, List.drop_left] at stream_eq
  rw [Parser.statement, Parser.perform, stream_eq]
  rfl

/-- The outcome of a segment is found on a text that ends with it. -/
theorem exists_isCut_of_segment {passed : Nat} {before after : List (List Token)}
    {segment : List Token} (depth : Nat)
    (split : segments ((Lexer.ofString source).tokens.drop passed) = before ++ segment :: after) :
    ∃ cut, IsCut source
        ((Lexer.ofString source).tokens.take passed ++ before.flatten ++ segment) cut ∧
      ((Parse.statement (maxDepth - depth)).run ⟨segment, source.utf8ByteSize⟩).1 =
        (Parser.behind cut (passed + before.flatten.length) depth []).statement.1 := by
  let front := (Lexer.ofString source).tokens.take passed ++ before.flatten
  have tokens_split : (Lexer.ofString source).tokens = front ++ segment ++ after.flatten := by
    have whole := congrArg List.flatten split
    rw [flatten_segments] at whole
    rw [← List.take_append_drop passed (Lexer.ofString source).tokens, whole]
    simp [front]
  have ne_nil : segment ≠ [] := by
    rcases segment_cases split with ⟨word, semicolon, -, -, rfl⟩ | ⟨-, ne, -⟩
    · simp
    · exact ne
  have front_length : front.length = passed + before.flatten.length := by
    have whole := congrArg (fun parts => parts.flatten.length) split
    have some_token := List.length_pos_iff.mpr ne_nil
    simp only [flatten_segments, List.length_drop, List.flatten_append, List.flatten_cons,
      List.length_append] at whole
    simp only [front, List.length_append, List.length_take]
    omega
  rcases segment_cases split with ⟨word, semicolon, plain, kind_eq, rfl⟩ | ⟨plain, -, rfl⟩
  · have closed : endsClosed (front ++ (word ++ [semicolon])) := by
      rw [endsClosed_append ne_nil, endsClosed_concat kind_eq]
    obtain ⟨cut, is_cut⟩ := exists_isCut tokens_split (.inl closed)
    obtain ⟨outcome, run_eq⟩ := Parse.run_statement_closed (maxDepth - depth) plain kind_eq
    refine ⟨cut, is_cut, ?_⟩
    rw [← front_length, statement_behind_cut depth is_cut.tokens_eq, (run_eq [] _).1,
      (run_eq [] _).1]
  · have open_end : endsClosed (front ++ segment) = false := by
      rw [endsClosed_append ne_nil, endsClosed_of_isPlain plain]
    obtain ⟨cut, is_cut⟩ := exists_isCut tokens_split (.inr rfl)
    refine ⟨cut, is_cut, ?_⟩
    obtain rfl : cut = source := by
      have ends := is_cut.ends
      rwa [open_end, if_neg (by decide)] at ends
    rw [← front_length, statement_behind_cut depth is_cut.tokens_eq]

/-- The outcomes of reading a program are those of its segments, one each and in their order.  The
outcome of a segment that ends with a semicolon is the one of the source text cut off right behind
the segment, and it is the same wherever the segment stands and whatever follows.  A segment without
a semicolon has the outcome of the source text itself, which is a failure. -/
theorem program_isolates_statements (source : String) (passed depth : Nat)
    (collected : List Diagnostic) :
    let parser := Parser.behind source passed depth collected
    ∃ outcome : Fin parser.segments.length → Except Diagnostic Stmt,
      parser.program =
        (⟨statementsOf (List.ofFn outcome)⟩,
          { stream := ⟨[], source.utf8ByteSize⟩
            depth := depth
            diagnostics := collected ++ diagnosticsOf (List.ofFn outcome) }) ∧
      parser.program.2.current.kind = .endOfInput ∧
      parser.program.1.statements.length + parser.program.2.diagnostics.length =
        parser.segments.length + collected.length ∧
      ∀ number : Fin parser.segments.length,
        let earlier := (parser.segments.take number).flatten
        let segment := parser.segments[number]
        (∃ cut,
          IsCut source ((Lexer.ofString source).tokens.take passed ++ earlier ++ segment) cut ∧
          outcome number =
            (Parser.behind cut (passed + earlier.length) depth []).statement.1) ∧
        if endsClosed segment then
          ∀ rest size diagnostics, outcome number =
            ({ stream := ⟨segment ++ rest, size⟩, depth, diagnostics } : Parser).statement.1
        else ∃ diagnostic, outcome number = .error diagnostic := by
  intro parser
  let room := maxDepth - depth
  let size := source.utf8ByteSize
  have stream_eq : parser.stream = ⟨(Lexer.ofString source).tokens.drop passed, size⟩ :=
    stream_behind source passed depth collected
  let outcome (number : Fin parser.segments.length) : Except Diagnostic Stmt :=
    ((Parse.statement room).run ⟨parser.segments[number], size⟩).1
  have outcomes_eq : Parse.outcomes room parser.stream = (List.ofFn outcome, ⟨[], size⟩) := by
    have inside : ∀ token ∈ (Lexer.ofString source).tokens.drop passed, token.kind ≠ .endOfInput :=
      fun token mem => Lexer.kind_ne_endOfInput (List.drop_subset passed _ mem)
    have listed : List.ofFn outcome = parser.segments.map fun segment =>
        ((Parse.statement room).run ⟨segment, size⟩).1 := by
      refine List.ext_getElem (by simp) fun index _ _ => ?_
      simp [outcome]
    rw [listed, stream_eq, Parse.outcomes_eq room size inside, Parser.segments, stream_eq]
  have program_eq : parser.program = (⟨statementsOf (List.ofFn outcome)⟩,
      { stream := ⟨[], size⟩
        depth := depth
        diagnostics := collected ++ diagnosticsOf (List.ofFn outcome) }) := by
    change (_, _) = _
    rw [show parser.room = room from rfl, outcomes_eq]
    rfl
  refine ⟨outcome, program_eq, by rw [program_eq]; rfl, ?_, fun number => ?_⟩
  · have total := length_statementsOf_add_length_diagnosticsOf (List.ofFn outcome)
    rw [List.length_ofFn] at total
    simp only [program_eq, List.length_append]
    omega
  · have split : segments ((Lexer.ofString source).tokens.drop passed) =
        parser.segments.take number ++
          parser.segments[number] :: parser.segments.drop (number + 1) := by
      rw [Fin.getElem_fin, ← List.drop_eq_getElem_cons number.isLt, List.take_append_drop,
        Parser.segments, stream_eq]
    refine ⟨exists_isCut_of_segment depth split, ?_⟩
    rcases segment_cases split with ⟨word, semicolon, plain, kind_eq, closed⟩ | ⟨plain, -, -⟩
    · obtain ⟨_, run_eq⟩ := Parse.run_statement_closed room plain kind_eq
      rw [closed, endsClosed_concat kind_eq, if_pos rfl]
      intro rest size diagnostics
      simp only [outcome, closed, Parser.statement, Parser.perform, Parser.room]
      rw [(run_eq [] _).1, List.append_assoc, List.singleton_append, (run_eq rest size).1]
    · rw [endsClosed_of_isPlain plain, if_neg (by decide)]
      exact (Parse.run_statement_remainder room size plain).1

/-- A segment without a semicolon is refused at the end of the text.  A blank behind the segment moves
that end, so the outcome is not the one of the text cut off right behind the segment. -/
theorem open_segment_refused_behind_blank :
    (Parser.behind "a " 0 0 []).segments = [[⟨.identifier, "a", .ofOffsets 0 1⟩]] ∧
      (Lexer.ofString "a").tokens = [⟨.identifier, "a", .ofOffsets 0 1⟩] ∧
      (Parser.behind "a " 0 0 []).program.2.diagnostics =
        [⟨.unexpectedToken .semicolon .endOfInput, .ofOffset 2⟩] ∧
      (Parser.behind "a" 0 0 []).statement.1 =
        .error ⟨.unexpectedToken .semicolon .endOfInput, .ofOffset 1⟩ := by
  decide +kernel

end

end MonkeySyntax
