import MonkeySyntax.CommandLine
import MonkeySyntax.Proofs.Layout

/-!
# Sessions and files

A session reads its input line by line, and each line for itself; a file is read as a whole.  The
end of a line is blank, so no token reaches over it, and the tokens of a text are those of its
lines.  Where each line but the last one closes its statements, no statement reaches over the end
of a line either, and what a session answers to the lines of a text is what is read off a file with
that text.
-/

namespace MonkeySyntax

/-! ### Lines -/

/-- A text is empty, or one line without an end, or a line and its end in front of other lines. -/
theorem splitLines_cases (chars : List Char) :
    chars = [] ∨ splitLines chars = [chars] ∨
      ∃ line ending rest, ending ∈ [['\n'], ['\r', '\n']] ∧ chars = line ++ (ending ++ rest) ∧
        splitLines chars = line :: splitLines rest := by
  fun_induction splitLines chars with
  | case1 => exact .inl rfl
  | case2 rest => exact .inr (.inr ⟨[], ['\n'], rest, by simp, rfl, rfl⟩)
  | case3 rest => exact .inr (.inr ⟨[], ['\r', '\n'], rest, by simp, rfl, rfl⟩)
  | case4 char rest _ _ none_left ih =>
      rcases ih with rfl | single | ⟨line, _, others, -, -, lines_eq⟩
      · exact .inr (.inl rfl)
      · simp [none_left] at single
      · simp [none_left] at lines_eq
  | case5 char rest _ _ first lines rest_lines ih =>
      rcases ih with rfl | single | ⟨line, ending, others, ending_mem, rfl, lines_eq⟩
      · simp [splitLines] at rest_lines
      · obtain ⟨rfl, rfl⟩ := List.cons.inj (rest_lines.symm.trans single)
        exact .inr (.inl rfl)
      · obtain ⟨rfl, rfl⟩ := List.cons.inj (rest_lines.symm.trans lines_eq)
        exact .inr (.inr ⟨char :: first, ending, others, ending_mem, rfl, rfl⟩)

theorem isBlankText_ending {ending : List Char} (mem : ending ∈ [['\n'], ['\r', '\n']]) :
    IsBlankText (String.ofList ending) ∧ String.ofList ending ≠ "" := by
  rcases List.mem_pair.mp mem with rfl | rfl <;> simp [IsBlankText]

/-- The tokens of a text are those of its lines. -/
theorem spelledBy_ofList (chars : List Char) :
    spelledBy (bytesOf (String.ofList chars)) =
      (splitLines chars).flatMap fun line => spelledBy (bytesOf (String.ofList line)) := by
  induction length : chars.length using Nat.strongRecOn generalizing chars with
  | ind count ih =>
      rcases splitLines_cases chars with rfl | single | ⟨line, ending, rest, mem, rfl, lines_eq⟩
      · simp [splitLines, spelledBy, bytesOf]
      · rw [single, List.flatMap_singleton]
      · obtain ⟨blank, ne⟩ := isBlankText_ending mem
        have shorter : rest.length < count := by
          have some_char : ending ≠ [] := by
            rintro rfl
            exact ne rfl
          have positive := List.length_pos_iff.mpr some_char
          simp only [List.length_append] at length
          omega
        rw [lines_eq, List.flatMap_cons, ← ih rest.length shorter rest rfl, String.ofList_append,
          String.ofList_append, bytesOf_append, bytesOf_append,
          spelledBy_between blank.isBlank (bytesOf_ne_nil ne)]

theorem spelledBy_lines (text : String) :
    spelledBy (bytesOf text) = (linesOf text).flatMap fun line => spelledBy (bytesOf line) := by
  rw [linesOf, List.flatMap_map, ← spelledBy_ofList, String.ofList_toList]

/-- A token is shown without its place. -/
theorem tokenLines_eq (text : String) :
    tokenLines text = (spelledBy (bytesOf text)).map toString := by
  rw [spelledBy, List.map_map]
  rfl

theorem tokenLines_lines (text : String) :
    (linesOf text).flatMap tokenLines = (tokenize text).dropLast.map toString := by
  have whole : (tokenize text).dropLast.map toString = tokenLines text := by
    rw [tokenize, List.dropLast_concat]
    rfl
  rw [whole, tokenLines_eq, spelledBy_lines, List.map_flatMap]
  exact congrArg (List.flatMap · _) (funext tokenLines_eq)

/-! ### Statements line by line -/

section

variable {first second : List Token}

theorem segments_append_closed (closed : first = [] ∨ endsClosed first = true) :
    segments (first ++ second) = segments first ++ segments second := by
  induction first using segments_induction with
  | nil => rfl
  | remainder word ne plain =>
      rw [endsClosed_of_isPlain plain] at closed
      exact absurd closed (by simp [ne])
  | closed word semicolon tail plain kind_eq ih =>
      have tail_closed : tail = [] ∨ endsClosed tail = true := by
        by_cases empty : tail = []
        · exact .inl empty
        · rw [List.append_cons, endsClosed_append empty] at closed
          exact .inr (closed.resolve_left (by simp))
      rw [List.append_assoc, List.cons_append, segments_append plain kind_eq,
        segments_append plain kind_eq, ih tail_closed, List.cons_append]

/-- What becomes of the statements that tokens spell, wherever the tokens stand. -/
def readingOf (tokens : List Token) : List (Except Diagnostic Stmt) :=
  (Parse.outcomes maxDepth ⟨tokens, 0⟩).1

theorem readingOf_append (closed : first = [] ∨ endsClosed first = true)
    (inside : ∀ token ∈ first ++ second, token.kind ≠ .endOfInput) :
    readingOf (first ++ second) = readingOf first ++ readingOf second := by
  obtain ⟨inside_first, inside_second⟩ := List.forall_mem_append.mp inside
  rw [readingOf, readingOf, readingOf, Parse.outcomes_eq _ _ inside,
    Parse.outcomes_eq _ _ inside_first, Parse.outcomes_eq _ _ inside_second,
    segments_append_closed closed, List.map_append]

end

theorem kind_ne_of_mem_spelledBy {bytes : List UInt8} {token : Token}
    (mem : token ∈ spelledBy bytes) : token.kind ≠ .endOfInput := by
  obtain ⟨read, read_mem, rfl⟩ := List.mem_map.mp mem
  rw [Token.kind_erase]
  exact Lexer.kind_ne_endOfInput read_mem

/-- A text has the outcomes of the tokens that it spells, up to places. -/
theorem outcomesOf_correspond (text : String) :
    List.Forall₂ (OutcomesCorrespond (fun _ _ => True) Stmt.Corresponds) (outcomesOf text)
      (readingOf (spelledBy (bytesOf text))) := by
  have tokens : List.Forall₂ (Token.Corresponds fun _ _ => True) (Lexer.ofString text).tokens
      (spelledBy (bytesOf text)) := by
    refine List.forall₂_map_right_iff.mpr (List.forall₂_same.mpr fun token _ => ?_)
    exact ⟨rfl, trivial⟩
  exact Parse.outcomes_correspond maxDepth ⟨tokens, rfl, trivial⟩

theorem messages_eq_readingOf (text : String) :
    (parse text).2 =
      (diagnosticsOf (readingOf (spelledBy (bytesOf text)))).map Diagnostic.message :=
  Diagnostic.Corresponds.map_message_eq (diagnosticsOf_correspond (outcomesOf_correspond text))

theorem render_eq_readingOf (text : String) :
    (parse text).1.render =
      String.join ((statementsOf (readingOf (spelledBy (bytesOf text)))).map Stmt.render) := by
  have same := Stmt.Corresponds.map_erasePlaces_eq
    (statementsOf_correspond (outcomesOf_correspond text))
  have texts := congrArg (List.map Stmt.render) same
  simp only [List.map_map, Function.comp_def, Stmt.render_erasePlaces] at texts
  exact congrArg String.join texts

/-- A line without tokens, or one whose last token is a semicolon. -/
def IsClosedLine (line : String) : Prop :=
  (Lexer.ofString line).tokens = [] ∨ endsClosed (Lexer.ofString line).tokens = true

theorem endsClosed_map_erase (tokens : List Token) :
    endsClosed (tokens.map Token.erase) = endsClosed tokens := by
  rw [endsClosed, endsClosed, List.getLast?_map, Option.any_map]
  rfl

theorem IsClosedLine.spelledBy {line : String} (closed : IsClosedLine line) :
    spelledBy (bytesOf line) = [] ∨ endsClosed (spelledBy (bytesOf line)) = true := by
  refine closed.imp (fun empty => ?_) fun ends => ?_
  · exact congrArg (List.map Token.erase) empty
  · exact (endsClosed_map_erase _).trans ends

/-- Lines that close their statements are read one by one. -/
theorem readingOf_lines (lines : List String)
    (closed : ∀ line ∈ lines.dropLast, IsClosedLine line) :
    readingOf (lines.flatMap fun line => spelledBy (bytesOf line)) =
      lines.flatMap fun line => readingOf (spelledBy (bytesOf line)) := by
  induction lines with
  | nil =>
      rw [List.flatMap_nil, List.flatMap_nil, readingOf, Parse.outcomes]
      rfl
  | cons line lines ih =>
      by_cases last : lines = []
      · simp [last]
      · rw [List.dropLast_cons_of_ne_nil last] at closed
        obtain ⟨line_closed, others⟩ := List.forall_mem_cons.mp closed
        have inside : ∀ token ∈ spelledBy (bytesOf line) ++
            lines.flatMap (fun line => spelledBy (bytesOf line)), token.kind ≠ .endOfInput := by
          refine List.forall_mem_append.mpr ⟨fun _ mem => kind_ne_of_mem_spelledBy mem, ?_⟩
          intro token mem
          obtain ⟨other, -, mem⟩ := List.mem_flatMap.mp mem
          exact kind_ne_of_mem_spelledBy mem
        rw [List.flatMap_cons, List.flatMap_cons, readingOf_append line_closed.spelledBy inside,
          ih others]

/-- Statements that no line end cuts are read off a text as off its lines. -/
theorem readingOf_linesOf {text : String}
    (closed : ∀ line ∈ (linesOf text).dropLast, IsClosedLine line) :
    readingOf (spelledBy (bytesOf text)) =
      (linesOf text).flatMap fun line => readingOf (spelledBy (bytesOf line)) := by
  rw [spelledBy_lines, readingOf_lines _ closed]

theorem messages_linesOf {text : String}
    (closed : ∀ line ∈ (linesOf text).dropLast, IsClosedLine line) :
    (linesOf text).flatMap (fun line => (parse line).2) = (parse text).2 := by
  rw [messages_eq_readingOf, readingOf_linesOf closed, diagnosticsOf, List.filterMap_flatMap,
    List.map_flatMap]
  exact congrArg (List.flatMap · _) (funext messages_eq_readingOf)

theorem join_flatMap {lines : List String} {texts : String → List String} :
    String.join (lines.flatMap texts) =
      String.join (lines.map fun line => String.join (texts line)) := by
  induction lines with
  | nil => rfl
  | cons line lines ih =>
      rw [List.flatMap_cons, List.map_cons, String.join_append, String.join_cons, ih]

theorem render_linesOf {text : String}
    (closed : ∀ line ∈ (linesOf text).dropLast, IsClosedLine line) :
    String.join ((linesOf text).map fun line => (parse line).1.render) =
      (parse text).1.render := by
  rw [render_eq_readingOf, readingOf_linesOf closed, statementsOf, List.filterMap_flatMap,
    List.map_flatMap, join_flatMap]
  exact congrArg (fun render => String.join ((linesOf text).map render))
    (funext render_eq_readingOf)

/-! ### Runs -/

/-- What is written of a program: its text on a line, or nothing if it has no statement. -/
def Program.shown (program : Program) : String :=
  if program.isEmpty then "" else lineOf program.render

/-- What is written of the messages of a source text, each on a line. -/
def errorLines (messages : List String) : String :=
  String.join (messages.map fun message => lineOf ("parse error: " ++ message))

/-- A session over the lines of a text finds what a run on a file with the text finds. -/
structure FindsTheSame (text : String) (conversation file : Transcript) : Prop where
  /-- The session finds the messages of the file, in their order. -/
  messages_eq : (linesOf text).flatMap (fun line => (parse line).2) = (parse text).2
  /-- The session writes them, and nothing else, to the standard error. -/
  conversation_errors : conversation.errors = errorLines (parse text).2
  /-- So does the run on the file. -/
  file_errors : file.errors = errorLines (parse text).2
  /-- The programs of the lines have, one behind the other, the text of the program of the file. -/
  render_eq : String.join ((linesOf text).map fun line => (parse line).1.render) =
    (parse text).1.render
  /-- The session shows the program of each line. -/
  conversation_output : conversation.output =
    welcome ++ String.join ((linesOf text).map fun line => prompt ++ (parse line).1.shown) ++ prompt
  /-- The run on the file shows the program of the file. -/
  file_output : file.output = (parse text).1.shown

theorem errors_session (text : String) :
    (session true text).errors =
      errorLines ((linesOf text).flatMap fun line => (parse line).2) := by
  simp [errorLines, List.map_flatMap, join_flatMap, session, answer, report, Function.comp_def]

theorem decodeText_toUTF8 (text : String) : decodeText text.toUTF8 = .ok text := by
  have decoded : String.fromUTF8? text.toUTF8 = some text := dif_pos text.isValidUTF8
  rw [decodeText, decoded]

theorem run_file_eq_report {path text input : String}
    {read : String → Except ReadError ByteArray} (contains : read path = .ok text.toUTF8) :
    (Command.file path).run read input = report text := by
  have decoded : (read path >>= decodeText) = .ok text :=
    (congrArg (· >>= decodeText) contains).trans (decodeText_toUTF8 text)
  rw [Command.run, decoded, reportFile]

/-- A session that lists tokens lists, over all the lines of a text, the tokens of the text.  A
session that parses finds in the lines of a text what a run on a file with the text finds, if no
line but the last one leaves a statement open. -/
theorem session_agrees_with_file (text input : String)
    (read : String → Except ReadError ByteArray) :
    ((Command.session false).run read text).output =
        welcome ++ String.join ((linesOf text).map fun line =>
          prompt ++ String.join ((tokenLines line).map lineOf)) ++ prompt ∧
      (linesOf text).flatMap tokenLines = (tokenize text).dropLast.map toString ∧
      ∀ path, read path = .ok text.toUTF8 →
        (∀ line ∈ (linesOf text).dropLast, IsClosedLine line) →
          FindsTheSame text ((Command.session true).run read text)
            ((Command.file path).run read input) := by
  refine ⟨?_, tokenLines_lines text, fun path contains closed => ?_⟩
  · simp [Command.run, session, answer, echo, Function.comp_def]
  · rw [run_file_eq_report contains]
    exact
      { messages_eq := messages_linesOf closed
        conversation_errors := by
          rw [Command.run, errors_session, messages_linesOf closed]
        file_errors := rfl
        render_eq := render_linesOf closed
        conversation_output := by
          simp [Command.run, session, answer, report, Function.comp_def, Program.shown]
        file_output := rfl }

/-- A carriage return before a line feed, an empty line and a refused one change nothing. -/
theorem session_agrees_with_file_mixed :
    let text := "let a = 1;\r\n\n @;-a;\nb"
    let files := fun _ : String => (.ok text.toUTF8 : Except ReadError ByteArray)
    files "a.monkey" = .ok text.toUTF8 ∧
      (∀ line ∈ (linesOf text).dropLast, IsClosedLine line) ∧
      FindsTheSame text ((Command.session true).run files text)
        ((Command.file "a.monkey").run files "") := by
  intro text files
  have closed : ∀ line ∈ (linesOf text).dropLast, IsClosedLine line := by
    unfold IsClosedLine
    decide +kernel
  obtain ⟨-, -, finds⟩ := session_agrees_with_file text "" files
  exact ⟨rfl, closed, finds "a.monkey" rfl closed⟩

end MonkeySyntax
