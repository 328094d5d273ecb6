import MonkeySyntax.Parser
import MonkeySyntax.Proofs.Rereading

/-!
# Reading the text of a program

The text of a program that was read is read as the same program, statement by statement, except for
statements whose text takes more levels than there are.
-/

namespace MonkeySyntax

/-! ### Segments of the text -/

section

variable {word : List Token}

theorem IsPlain.of_map_erase (plain : IsPlain (word.map Token.erase)) : IsPlain word :=
  fun token mem => plain token.erase (List.mem_map_of_mem mem)

theorem isPlain_commaJoined {words : List (List Token)} (each : ∀ word ∈ words, IsPlain word) :
    IsPlain (commaJoined words) := by
  cases words with
  | nil => exact nofun
  | cons word words =>
      refine isPlain_append.mpr ⟨each word List.mem_cons_self, fun token mem => ?_⟩
      obtain ⟨other, other_mem, mem⟩ := List.mem_flatMap.mp mem
      rcases List.mem_cons.mp mem with rfl | mem
      · exact nofun
      · exact each other (List.mem_cons_of_mem word other_mem) token mem

end

/-- No semicolon stands in the text of an expression. -/
theorem Expr.Coherent.isPlain_shown {expr : Expr} (coherent : expr.Coherent) :
    IsPlain expr.shown := by
  have opening_plain : Token.opening.kind ≠ .semicolon := by decide
  have closing_plain : IsPlain [Token.closing] := isPlain_singleton (by decide)
  induction coherent with
  | identifier _ kind_eq | integer _ kind_eq _ => exact isPlain_singleton (by simp [kind_eq])
  | boolean _ kind_eq =>
      apply isPlain_singleton
      rcases kind_eq with kind_eq | kind_eq <;> simp [kind_eq]
  | @unary token _ _ kind_eq _ ih =>
      have ne : token.erase.kind ≠ .semicolon := by
        rcases kind_eq with kind_eq | kind_eq <;> simp [kind_eq]
      have inside := isPlain_cons.mpr ⟨ne, ih⟩
      exact isPlain_append.mpr ⟨isPlain_cons.mpr ⟨opening_plain, inside⟩, closing_plain⟩
  | @binary stratum token _ _ _ kind_mem _ _ left_ih right_ih =>
      have ne : token.erase.kind ≠ .semicolon := by
        intro kind_eq
        rw [← Token.kind_erase, kind_eq] at kind_mem
        cases stratum <;> simp [Stratum.operators] at kind_mem
      have inside := isPlain_append.mpr ⟨left_ih, isPlain_cons.mpr ⟨ne, right_ih⟩⟩
      exact isPlain_append.mpr ⟨isPlain_cons.mpr ⟨opening_plain, inside⟩, closing_plain⟩
  | @call token _ arguments _ kind_eq _ _ callee_ih each_ih =>
      have ne : token.erase.kind ≠ .semicolon := by simp [kind_eq]
      have inside : IsPlain (commaJoined (shownAll arguments)) := by
        refine isPlain_commaJoined fun word mem => ?_
        rw [shownAll_eq_map] at mem
        obtain ⟨argument, argument_mem, rfl⟩ := List.mem_map.mp mem
        exact each_ih argument argument_mem
      have list := isPlain_append.mpr ⟨isPlain_cons.mpr ⟨ne, inside⟩, closing_plain⟩
      exact isPlain_append.mpr ⟨callee_ih, list⟩

/-- The text of a statement ends with its only semicolon. -/
theorem Stmt.Coherent.exists_shown {stmt : Stmt} (coherent : stmt.Coherent) :
    ∃ word, stmt.shown = word ++ [.semicolon] ∧ IsPlain word := by
  cases coherent with
  | @binding keyword name _ _ keyword_kind _ name_kind bound =>
      have keyword_ne : keyword.erase.kind ≠ .semicolon := by simp [keyword_kind]
      have name_ne : name.erase.kind ≠ .semicolon := by simp [name_kind]
      have assign_ne : Token.assign.kind ≠ .semicolon := by decide
      exact ⟨_, rfl, isPlain_cons.mpr ⟨keyword_ne, isPlain_cons.mpr ⟨name_ne,
        isPlain_cons.mpr ⟨assign_ne, bound.isPlain_shown⟩⟩⟩⟩
  | @result keyword _ _ keyword_kind returned =>
      have keyword_ne : keyword.erase.kind ≠ .semicolon := by simp [keyword_kind]
      exact ⟨_, rfl, isPlain_cons.mpr ⟨keyword_ne, returned.isPlain_shown⟩⟩
  | expression coherent => exact ⟨_, rfl, coherent.isPlain_shown⟩

/-- Tokens like those in the text of some statements have one segment for each statement. -/
theorem segments_of_erase {statements : List Stmt} {tokens : List Token}
    (coherent : ∀ stmt ∈ statements, stmt.Coherent)
    (same : tokens.map Token.erase = statements.flatMap Stmt.shown) :
    List.Forall₂ (fun stmt segment => stmt.Coherent ∧ segment.map Token.erase = stmt.shown)
      statements (segments tokens) := by
  induction statements generalizing tokens with
  | nil =>
      obtain rfl := List.map_eq_nil_iff.mp same
      exact .nil
  | cons stmt statements ih =>
      have stmt_coherent := coherent stmt List.mem_cons_self
      obtain ⟨word, shown_eq, plain⟩ := stmt_coherent.exists_shown
      rw [List.flatMap_cons] at same
      obtain ⟨segment, rest, rfl, segment_eq, rest_eq⟩ := List.map_eq_append_iff.mp same
      have others := ih (fun other mem => coherent other (List.mem_cons_of_mem stmt mem)) rest_eq
      rw [shown_eq] at segment_eq
      obtain ⟨front, back, rfl, front_eq, back_eq⟩ := List.map_eq_append_iff.mp segment_eq
      obtain ⟨semicolon, rfl, semicolon_eq⟩ := List.map_eq_singleton_iff.mp back_eq
      have front_plain : IsPlain front := .of_map_erase (front_eq ▸ plain)
      have ends : semicolon.kind = .semicolon := congrArg Token.kind semicolon_eq
      rw [List.append_assoc, List.singleton_append, segments_append front_plain ends]
      exact .cons ⟨stmt_coherent, segment_eq.trans shown_eq.symm⟩ others

/-! ### Statements of a source text -/

theorem DerivesStatement.coherent {word : List Token} {stmt : Stmt}
    (derived : DerivesStatement word stmt) (lexed : ∀ token ∈ word, token.IsLexed) :
    stmt.Coherent := by
  cases derived with
  | @binding keyword name assign semicolon word value keyword_kind name_kind _ bound _ =>
      exact .binding (lexed keyword (by simp)) keyword_kind (lexed name (by simp)) name_kind
        (bound.coherent fun token mem => lexed token (by simp [mem]))
  | @result keyword semicolon word value keyword_kind returned _ =>
      exact .result (lexed keyword (by simp)) keyword_kind
        (returned.coherent fun token mem => lexed token (by simp [mem]))
  | expression derived _ =>
      exact .expression (derived.coherent fun token mem => lexed token (List.mem_append_left _ mem))

/-- What became of the statements of a source text, one after another. -/
def outcomesOf (source : String) : List (Except Diagnostic Stmt) :=
  (Parse.outcomes maxDepth (.ofString source)).1

theorem outcomesOf_eq_map (source : String) :
    outcomesOf source = (segments (Lexer.ofString source).tokens).map fun segment =>
      ((Parse.statement maxDepth).run ⟨segment, (TokenStream.ofString source).size⟩).1 := by
  have inside : ∀ token ∈ (TokenStream.ofString source).tokens, token.kind ≠ .endOfInput :=
    fun token mem => Lexer.kind_ne_endOfInput mem
  rw [outcomesOf, Parse.outcomes_eq maxDepth _ inside]
  rfl

/-- A segment that is read as a statement is derived as one. -/
theorem derivesStatement_of_mem_segments {tokens segment : List Token} {room size : Nat}
    {stmt : Stmt} (mem : segment ∈ segments tokens)
    (read : ((Parse.statement room).run ⟨segment, size⟩).1 = .ok stmt) :
    DerivesStatement segment stmt := by
  obtain ⟨before, after, split⟩ := List.append_of_mem mem
  rcases segment_cases split with ⟨word, semicolon, plain, kind_eq, rfl⟩ | ⟨plain, -, -⟩
  · exact Parse.derives_of_run_statement plain kind_eq read
  · obtain ⟨⟨diagnostic, fails⟩, -⟩ := Parse.run_statement_remainder room size plain
    rw [read] at fails
    contradiction

/-- Every statement of a source text is coherent. -/
theorem coherent_of_mem_statements {source : String} {stmt : Stmt}
    (mem : stmt ∈ (parse source).1.statements) : stmt.Coherent := by
  have outcome_mem : .ok stmt ∈ outcomesOf source := mem_statementsOf.mp mem
  rw [outcomesOf_eq_map] at outcome_mem
  obtain ⟨segment, segment_mem, run_eq⟩ := List.mem_map.mp outcome_mem
  refine (derivesStatement_of_mem_segments segment_mem run_eq).coherent fun token token_mem => ?_
  have whole : token ∈ (segments (Lexer.ofString source).tokens).flatten :=
    List.mem_flatten.mpr ⟨segment, segment_mem, token_mem⟩
  rw [flatten_segments] at whole
  exact Lexer.isLexed_of_mem_tokens whole

/-! ### Reading again -/

/-- `outcome` is what comes of reading the text of `stmt`: the same statement at other places, or a
failure for want of levels if the text takes too many. -/
def ReadsBack (stmt : Stmt) (outcome : Except Diagnostic Stmt) : Prop :=
  if stmt.textLevels ≤ maxDepth then ∃ again, outcome = .ok again ∧ again.erase = stmt.erase
  else ∃ position, outcome = .error ⟨.tooDeep maxDepth, position⟩

theorem ReadsBack.cases {stmt : Stmt} {outcome : Except Diagnostic Stmt}
    (reads : ReadsBack stmt outcome) :
    stmt.textLevels ≤ maxDepth ∧ (∃ again, outcome = .ok again ∧ again.erase = stmt.erase) ∨
      maxDepth < stmt.textLevels ∧
        ∃ position, outcome = .error ⟨.tooDeep maxDepth, position⟩ := by
  by_cases enough : stmt.textLevels ≤ maxDepth
  · rw [ReadsBack, if_pos enough] at reads
    exact .inl ⟨enough, reads⟩
  · rw [ReadsBack, if_neg enough] at reads
    exact .inr ⟨Nat.lt_of_not_le enough, reads⟩

theorem readsBack_of_erase {stmt : Stmt} (coherent : stmt.Coherent) {segment : List Token}
    (same : segment.map Token.erase = stmt.shown) (size : Nat) :
    ReadsBack stmt ((Parse.statement maxDepth).run ⟨segment, size⟩).1 := by
  obtain ⟨again, semicolon, erase_eq, needs⟩ :=
    Parse.exists_needs_statement coherent same ⟨[], size⟩
  have stream_eq : TokenStream.prepend ⟨[], size⟩ segment = ⟨segment, size⟩ := by
    simp [TokenStream.prepend]
  rw [stream_eq] at needs
  by_cases enough : stmt.textLevels ≤ maxDepth
  · rw [ReadsBack, if_pos enough, needs.enough maxDepth enough]
    exact ⟨again, rfl, erase_eq⟩
  · obtain ⟨position, after, run_eq⟩ := needs.tooFew maxDepth (Nat.lt_of_not_le enough)
    rw [ReadsBack, if_neg enough, run_eq]
    exact ⟨position, rfl⟩

/-- The outcomes of reading the text of a program are those of its statements. -/
theorem outcomesOf_render (source : String) :
    List.Forall₂ ReadsBack (parse source).1.statements
      (outcomesOf (parse source).1.render) := by
  have coherent : ∀ stmt ∈ (parse source).1.statements, stmt.Coherent :=
    fun stmt mem => coherent_of_mem_statements mem
  have same := Lexer.tokens_of_spells (Program.spells_render coherent) 0
  have parts := segments_of_erase coherent same
  rw [outcomesOf_eq_map, List.forall₂_map_right_iff]
  exact parts.imp fun stmt segment ⟨stmt_coherent, segment_eq⟩ =>
    readsBack_of_erase stmt_coherent segment_eq _

theorem parse_eq (source : String) :
    parse source =
      (⟨statementsOf (outcomesOf source)⟩,
        (diagnosticsOf (outcomesOf source)).map Diagnostic.message) := rfl

/-- The statements and the messages that outcomes of rendered statements yield. -/
theorem diagnosticsOf_readsBack {statements : List Stmt} {outcomes : List (Except Diagnostic Stmt)}
    (readsBack : List.Forall₂ ReadsBack statements outcomes) :
    (diagnosticsOf outcomes).map Diagnostic.message =
      (statements.filter fun stmt => maxDepth < stmt.textLevels).map
        fun _ => (SyntaxError.tooDeep maxDepth).message := by
  induction readsBack with
  | nil => rfl
  | @cons stmt outcome statements outcomes head _ ih =>
      rcases head.cases with ⟨enough, again, rfl, -⟩ | ⟨too_many, position, rfl⟩
      · rw [diagnosticsOf_ok_cons, List.filter_cons_of_neg (by simpa using enough), ih]
      · rw [diagnosticsOf_error_cons, List.filter_cons_of_pos (by simpa using too_many),
          List.map_cons, List.map_cons, ih]
        rfl

theorem statementsOf_readsBack {statements : List Stmt} {outcomes : List (Except Diagnostic Stmt)}
    (readsBack : List.Forall₂ ReadsBack statements outcomes)
    (clean : diagnosticsOf outcomes = []) :
    (statementsOf outcomes).map Stmt.erase = statements.map Stmt.erase := by
  induction readsBack with
  | nil => rfl
  | @cons stmt outcome statements outcomes head _ ih =>
      rcases head.cases with ⟨-, again, rfl, erase_eq⟩ | ⟨-, position, rfl⟩
      · rw [statementsOf_ok_cons, List.map_cons, List.map_cons, erase_eq, ih clean]
      · simp at clean

theorem Program.render_eq_of_erase {first second : Program}
    (same : first.statements.map Stmt.erase = second.statements.map Stmt.erase) :
    first.render = second.render := by
  have texts := congrArg (List.map Stmt.render) same
  simp only [List.map_map, Function.comp_def, Stmt.render_erase] at texts
  rw [render, render, texts]

/-- The text of a program that was read yields one outcome for each statement, in order: the same
statement at other places, or a failure because it nests too deep.  Without such a failure there is
no error, and the program and its text are the same again. -/
theorem rendering_reads_back (source : String) :
    parse (parse source).1.render =
        (⟨statementsOf (outcomesOf (parse source).1.render)⟩,
          (diagnosticsOf (outcomesOf (parse source).1.render)).map Diagnostic.message) ∧
      List.Forall₂ (fun stmt outcome =>
          (∃ again, outcome = .ok again ∧ again.erase = stmt.erase) ∨
            ∃ position, outcome = .error ⟨.tooDeep maxDepth, position⟩)
        (parse source).1.statements (outcomesOf (parse source).1.render) ∧
      ((SyntaxError.tooDeep maxDepth).message ∈ (parse (parse source).1.render).2 ∨
        (parse (parse source).1.render).2 = [] ∧
          (parse (parse source).1.render).1.statements.map Stmt.erase =
            (parse source).1.statements.map Stmt.erase ∧
          (parse (parse source).1.render).1.render = (parse source).1.render) := by
  have readsBack := outcomesOf_render source
  refine ⟨rfl, readsBack.imp fun stmt outcome reads => ?_, ?_⟩
  · rcases reads.cases with ⟨-, read⟩ | ⟨-, fails⟩
    · exact .inl read
    · exact .inr fails
  · have messages := diagnosticsOf_readsBack readsBack
    cases clean : diagnosticsOf (outcomesOf (parse source).1.render) with
    | nil =>
        have same := statementsOf_readsBack readsBack clean
        refine .inr ⟨?_, same, Program.render_eq_of_erase same⟩
        rw [parse_eq, clean]
        rfl
    | cons diagnostic others =>
        left
        have mem : diagnostic.message ∈
            (diagnosticsOf (outcomesOf (parse source).1.render)).map Diagnostic.message :=
          List.mem_map_of_mem (by rw [clean]; exact List.mem_cons_self)
        rw [parse_eq]
        rw [messages] at mem ⊢
        obtain ⟨stmt, stmt_mem, -⟩ := List.mem_map.mp mem
        exact List.mem_map.mpr ⟨stmt, stmt_mem, rfl⟩

/-- The text of a program that was read has an error for each statement whose text takes more
levels than there are, and no other error. -/
theorem messages_of_rendering (source : String) :
    (parse (parse source).1.render).2 =
        ((parse source).1.statements.filter fun stmt => maxDepth < stmt.textLevels).map
          (fun _ => (SyntaxError.tooDeep maxDepth).message) ∧
      ((parse (parse source).1.render).2 = [] ↔
        ∀ stmt ∈ (parse source).1.statements, stmt.textLevels ≤ maxDepth) := by
  have messages : (parse (parse source).1.render).2 = _ :=
    diagnosticsOf_readsBack (outcomesOf_render source)
  refine ⟨messages, ?_⟩
  rw [messages]
  simp [List.filter_eq_nil_iff]

/-- A chain of minus signs that is read with 129 levels has a text that takes 257. -/
theorem rendering_nests_deeper :
    (parse (String.ofList (List.replicate 128 '-' ++ ['a', ';']))).2 = [] ∧
      (parse (parse (String.ofList (List.replicate 128 '-' ++ ['a', ';']))).1.render).2 =
        ["expression nested deeper than 256 levels"] := by
  decide +kernel

end MonkeySyntax
