import MonkeySyntax.Proofs.Refusals

/-!
# The tokens that diagnostics blame

A diagnostic tells the truth about a token: it stands where the token begins, and what it says is
wrong is wrong with that token.  A step blames a token of the word that it reads or the one behind
it, never one further on, so the diagnostics of a program stand in the order of its segments.
-/

namespace MonkeySyntax

/-- What an error says is true of a token. -/
def SyntaxError.Describes : SyntaxError → Token → Prop
  | .unexpectedToken expected found, token =>
      found = token.kind ∧ found ≠ expected ∧
        expected ∈ [.identifier, .assign, .semicolon, .closeParen]
  | .noOperand kind, token => kind = token.kind ∧ RuleTable.monkey.operand? kind = none
  | .notAnInteger literal, token =>
      token.kind = .integer ∧ literal = token.literal ∧ integerValue? literal = none
  | .tooDeep limit, _ => limit = maxDepth

/-- A diagnostic stands where a token begins, and is true of it. -/
structure Diagnostic.Blames (diagnostic : Diagnostic) (token : Token) : Prop where
  position_eq : token.span.start = diagnostic.position
  describes : diagnostic.cause.Describes token

/-- A diagnostic blames one of several tokens. -/
def Diagnostic.BlamesIn (tokens : List Token) (diagnostic : Diagnostic) : Prop :=
  ∃ token ∈ tokens, diagnostic.Blames token

theorem Diagnostic.BlamesIn.mono {tokens more : List Token} {diagnostic : Diagnostic}
    (blames : diagnostic.BlamesIn tokens) (subset : tokens ⊆ more) :
    diagnostic.BlamesIn more := by
  obtain ⟨token, mem, blamed⟩ := blames
  exact ⟨token, subset mem, blamed⟩

theorem headD_mem_append (word : List Token) (behind : Token) :
    word.headD behind ∈ word ++ [behind] := by
  cases word <;> simp

namespace Parse

variable {α β : Type}

/-- A step on `word` blames a token of the word or the token `behind` it. -/
def Honest (step : Parse α) (word : List Token) (behind : Token) : Prop :=
  RefusesOnly step word behind (Diagnostic.BlamesIn (word ++ [behind]))

namespace Honest

variable {word tail : List Token} {token behind : Token}

theorem pure (value : α) : Honest (Pure.pure value : Parse α) word behind :=
  RefusesOnly.pure value

/-- A step may fail at the current token if what it says is true of it. -/
theorem fail {cause : SyntaxError} (describes : cause.Describes (word.headD behind)) :
    Honest (Parse.fail ⟨cause, (word.headD behind).span.start⟩ : Parse α) word behind :=
  RefusesOnly.fail ⟨_, headD_mem_append word behind, rfl, describes⟩

theorem tooDeep : Honest (Parse.tooDeep : Parse α) word behind :=
  RefusesOnly.current_bind (fail rfl)

theorem current_bind {next : Token → Parse α}
    (later : Honest (next (word.headD behind)) word behind) :
    Honest (current >>= next) word behind :=
  RefusesOnly.current_bind later

theorem peek_bind {next : Token → Parse α}
    (later : Honest (next (tail.headD behind)) (token :: tail) behind) :
    Honest (peek >>= next) (token :: tail) behind :=
  RefusesOnly.peek_bind later

theorem advance_bind {next : Unit → Parse α} (later : Honest (next ()) tail behind) :
    Honest (advance >>= next) (token :: tail) behind :=
  RefusesOnly.advance_bind (later.mono fun _ blames => blames.mono (List.subset_cons_self _ _))

/-- A step after another blames what is left, which is a part of the word. -/
theorem bind {first : Parse β} {second : β → Parse α} {between : β → List Token → Prop}
    (honest : Honest first word behind) (read : Confined first word behind between)
    (later : ∀ value left, between value left → Honest (second value) left behind) :
    Honest (first >>= second) word behind := by
  refine RefusesOnly.bind honest read fun value left suffix holds => ?_
  refine (later value left holds).mono fun diagnostic blames => blames.mono ?_
  exact List.append_subset.mpr
    ⟨List.subset_append_of_subset_left _ suffix.subset, List.subset_append_right _ _⟩

theorem bind_pure {first : Parse β} {make : β → α} (honest : Honest first word behind) :
    Honest (first >>= fun value => Pure.pure (make value)) word behind :=
  RefusesOnly.bind_pure honest

/-- Where a token of another kind stands, that token is blamed. -/
theorem expect_bind {kind : Token.Kind} {next : Unit → Parse α}
    (listed : kind ∈ [.identifier, .assign, .semicolon, .closeParen])
    (later : (tail.headD behind).kind = kind → Honest (next ()) tail behind) :
    Honest (expect kind >>= next) (token :: tail) behind := by
  have found_mem : tail.headD behind ∈ token :: tail ++ [behind] :=
    List.mem_cons_of_mem token (headD_mem_append tail behind)
  refine RefusesOnly.expect_bind (fun ne => ⟨_, found_mem, rfl, rfl, ne, listed⟩) fun kind_eq => ?_
  exact (later kind_eq).mono fun _ blames => blames.mono (List.subset_cons_self _ _)

end Honest

/-- A reader of nested expressions blames tokens of the word that it reads. -/
def HonestReader (nested : BindingPower → Parse Expr) : Prop :=
  ∀ power word behind, behind.Ends → Honest (nested power) word behind

section

variable {nested : BindingPower → Parse Expr} {token last behind : Token} {word tail : List Token}
  {left : Expr}

/-! ### Operands -/

theorem honest_integer (kind : token.kind = .integer) :
    Honest integer (token :: tail) behind := by
  apply Honest.current_bind
  simp only [List.headD_cons]
  split
  · exact .pure _
  · next none_eq => exact @Honest.fail _ (token :: tail) behind _ ⟨kind, rfl, none_eq⟩

theorem honest_unary (honest : HonestReader nested) (ends : behind.Ends) :
    Honest (unary nested) (token :: tail) behind := by
  apply Honest.current_bind
  apply Honest.advance_bind
  exact .bind_pure (honest .unary tail behind ends)

theorem honest_group (honest : HonestReader nested) (sound : Sound nested) (ends : behind.Ends) :
    Honest (group nested) (token :: tail) behind := by
  apply Honest.advance_bind
  refine .bind (honest .lowest tail behind ends) (sound .lowest tail behind ends)
    fun expr left ⟨covers, _⟩ => ?_
  obtain ⟨used, last, after, -, rfl, -⟩ := covers
  exact .expect_bind (by decide) fun _ => .pure expr

theorem honest_operand (honest : HonestReader nested) (sound : Sound nested) (ends : behind.Ends)
    (word : List Token) : Honest (operand nested) word behind := by
  apply Honest.current_bind
  split
  · next rule found =>
      cases word with
      | nil =>
          rw [List.headD_nil, ends.operand?_eq_none] at found
          contradiction
      | cons token tail =>
          rw [List.headD_cons] at found
          have kind_mem := RuleTable.operand?_eq_some_iff.mp found
          cases rule with
          | identifier => exact .current_bind (.pure _)
          | integer => exact honest_integer (List.mem_singleton.mp kind_mem)
          | boolean => exact .current_bind (.pure _)
          | unary => exact honest_unary honest ends
          | group => exact honest_group honest sound ends
  · next none_eq => exact .fail ⟨rfl, none_eq⟩

/-! ### Folds -/

theorem honest_binary (honest : HonestReader nested) (ends : behind.Ends) :
    Honest (binary nested left) (token :: tail) behind := by
  apply Honest.current_bind
  apply Honest.advance_bind
  exact .bind_pure (honest _ tail behind ends)

theorem honest_afterCommas (honest : HonestReader nested) (sound : Sound nested)
    (ends : behind.Ends) : Honest (afterCommas (nested .lowest)) (last :: tail) behind := by
  induction size_eq : tail.length using Nat.strongRecOn generalizing last tail with
  | ind size ih =>
      rw [afterCommas_eq]
      apply Honest.peek_bind
      split
      · next comma =>
          cases tail with
          | nil => exact absurd comma ends.kind_ne_comma
          | cons separator tail =>
              apply Honest.advance_bind
              apply Honest.advance_bind
              refine .bind (honest .lowest tail behind ends) (sound .lowest tail behind ends)
                fun value left ⟨covers, _⟩ => ?_
              obtain ⟨used, next, after, rfl, rfl, -⟩ := covers
              have shorter : after.length < size := by
                simp only [List.length_cons, List.length_append] at *
                omega
              exact .bind_pure (ih after.length shorter rfl)
      · exact .pure _

theorem honest_arguments (honest : HonestReader nested) (sound : Sound nested)
    (ends : behind.Ends) : Honest (arguments nested) (token :: tail) behind := by
  apply Honest.peek_bind
  apply Honest.advance_bind
  split
  · exact .pure _
  · refine .bind (honest .lowest tail behind ends) (sound .lowest tail behind ends)
      fun first left ⟨covers, _⟩ => ?_
    obtain ⟨used, last, after, -, rfl, -⟩ := covers
    refine .bind (honest_afterCommas honest sound ends) (confined_afterCommas sound ends)
      fun others left read => ?_
    obtain ⟨elements, others_used, inside, rest, final, -, rfl, -⟩ := read
    exact .expect_bind (by decide) fun _ => .pure _

theorem honest_fold {rule : FoldRule} (honest : HonestReader nested) (sound : Sound nested)
    (ends : behind.Ends) : Honest (ofFoldRule nested left rule) (token :: tail) behind := by
  cases rule with
  | binary => exact honest_binary honest ends
  | call =>
      apply Honest.current_bind
      exact .bind_pure (honest_arguments honest sound ends)

end

/-! ### Expressions -/

theorem honest_foldAbove {power : BindingPower} {last behind : Token} {tail : List Token} :
    Honest (foldAbove power) (last :: tail) behind :=
  refuses_foldAbove

theorem honest_folds {power : BindingPower} {behind last : Token} {word tail : List Token}
    {left : Expr} {stratum : Stratum} {room : Nat}
    (nested : ∀ inner < room, HonestReader (expression inner)) (ends : behind.Ends)
    (covers : Covers stratum word left (last :: tail))
    (followed : Followed stratum.power (last :: tail) behind) :
    Honest (folds room power left) (last :: tail) behind := by
  -- That a fold leaves a token to go on from is known because it is sound.
  induction room generalizing stratum left last tail with
  | zero =>
      rw [folds]
      refine .bind honest_foldAbove (confined_foldAbove ends) fun found rest spec => ?_
      obtain ⟨rfl, -⟩ := spec
      cases found with
      | none => exact .pure _
      | some rule => exact .tooDeep
  | succ room ih =>
      rw [folds]
      refine .bind honest_foldAbove (confined_foldAbove ends) fun found rest spec => ?_
      obtain ⟨rfl, spec⟩ := spec
      cases found with
      | none => exact .pure _
      | some rule =>
          obtain ⟨next, rest, rfl, above, found⟩ := spec
          have sound := sound_expression room
          apply Honest.advance_bind
          refine .bind (honest_fold (nested room (Nat.lt_succ_self room)) sound ends)
            (confined_fold sound ends covers followed found) fun longer rest longer_read => ?_
          obtain ⟨finer, -, ⟨used, last, after, word_eq, rfl, derived⟩, longer_followed⟩ :=
            longer_read
          exact ih (fun inner lt => nested inner (Nat.lt_succ_of_lt lt))
            ⟨used, last, after, word_eq, rfl, derived⟩ longer_followed

/-- Whatever room there is, reading an expression blames a token of the word. -/
theorem honest_expression (room : Nat) : HonestReader (expression room) := by
  induction room using Nat.strongRecOn with
  | ind room ih =>
      intro power word behind ends
      cases room with
      | zero =>
          rw [expression]
          exact .tooDeep
      | succ room =>
          rw [expression]
          have sound := sound_expression room
          refine .bind (honest_operand (ih room (Nat.lt_succ_self room)) sound ends word)
            (confined_operand sound ends word) fun left rest read => ?_
          obtain ⟨stratum, -, ⟨used, last, after, word_eq, rfl, derived⟩, followed⟩ := read
          exact honest_folds (fun inner lt => ih inner (Nat.lt_succ_of_lt lt)) ends
            ⟨used, last, after, word_eq, rfl, derived⟩ followed

/-! ### Statements -/

section

variable {room : Nat} {keyword behind : Token} {word tail : List Token}

theorem honest_value (ends : behind.Ends) (make : Expr → Stmt) :
    Honest (do
        let value ← expression room .lowest
        expect .semicolon
        pure (make value)) word behind := by
  refine .bind (honest_expression room .lowest word behind ends)
    (sound_expression room .lowest word behind ends) fun value left ⟨covers, _⟩ => ?_
  obtain ⟨used, last, after, -, rfl, -⟩ := covers
  exact .expect_bind (by decide) fun _ => .pure _

theorem honest_binding (ends : behind.Ends) : Honest (binding room) (keyword :: tail) behind := by
  apply Honest.current_bind
  refine .expect_bind (by decide) fun name_kind => ?_
  apply Honest.current_bind
  cases tail with
  | nil => rcases ends with kind_eq | kind_eq <;> simp [kind_eq] at name_kind
  | cons name tail =>
      refine .expect_bind (by decide) fun assign_kind => ?_
      cases tail with
      | nil => rcases ends with kind_eq | kind_eq <;> simp [kind_eq] at assign_kind
      | cons assign tail =>
          apply Honest.advance_bind
          exact honest_value ends _

/-- Whatever room there is, reading a statement blames a token of the word. -/
theorem honest_statement (room : Nat) (word : List Token) (ends : behind.Ends) :
    Honest (statement room) word behind := by
  apply Honest.current_bind
  split
  · next rule found =>
      cases word with
      | nil =>
          rw [List.headD_nil] at found
          rcases ends with kind_eq | kind_eq <;> rw [kind_eq] at found <;> contradiction
      | cons first tail =>
          cases rule with
          | binding => exact honest_binding ends
          | result =>
              apply Honest.current_bind
              apply Honest.advance_bind
              exact honest_value ends _
  · apply Honest.current_bind
    exact honest_value ends _

end

end Parse

/-! ### Programs -/

/-- A segment that is refused blames one of its tokens, the semicolon behind it or the end. -/
theorem Parse.Honest.exists_blamed {word tail : List Token} {behind : Token} {size : Nat}
    {diagnostic : Diagnostic} {step : Parse Stmt} (honest : Honest step word behind)
    (current_eq : (TokenStream.mk tail size).current = behind)
    (fails : (step.run ⟨word ++ tail, size⟩).1 = .error diagnostic) :
    ∃ token ∈ word ++ [behind], diagnostic.Blames token :=
  honest ⟨tail, size⟩ current_eq diagnostic _ (Prod.ext fails rfl)

/-- The diagnostics on the segments of some tokens blame tokens one after another. -/
theorem exists_blamed (room size : Nat) (tokens : List Token) :
    ∃ blamed, blamed.Sublist (tokens ++ [.endOfInput size]) ∧
      List.Forall₂ Diagnostic.Blames
        (diagnosticsOf ((segments tokens).map fun segment =>
          ((Parse.statement room).run ⟨segment, size⟩).1)) blamed := by
  induction tokens using segments_induction with
  | nil => exact ⟨[], List.nil_sublist _, .nil⟩
  | remainder word ne plain =>
      rw [segments_of_isPlain plain ne, List.map_singleton]
      cases outcome : ((Parse.statement room).run ⟨word, size⟩).1 with
      | ok stmt => exact ⟨[], List.nil_sublist _, .nil⟩
      | error diagnostic =>
          have honest := Parse.honest_statement room word (.inr rfl : (Token.endOfInput size).Ends)
          obtain ⟨token, mem, blamed⟩ := @honest.exists_blamed _ [] _ size diagnostic _ rfl
            (by rwa [List.append_nil])
          exact ⟨[token], List.singleton_sublist.mpr mem, .cons blamed .nil⟩
  | closed word semicolon tail plain kind_eq ih =>
      obtain ⟨others, sublist, others_blamed⟩ := ih
      have behind_segment : others.Sublist ((word ++ semicolon :: tail) ++ [.endOfInput size]) := by
        rw [List.append_assoc]
        exact (sublist.cons semicolon).trans (List.sublist_append_right word _)
      rw [segments_append plain kind_eq, List.map_cons]
      cases outcome : ((Parse.statement room).run ⟨word ++ [semicolon], size⟩).1 with
      | ok stmt => exact ⟨others, behind_segment, others_blamed⟩
      | error diagnostic =>
          have honest := Parse.honest_statement room word (.inl kind_eq)
          obtain ⟨token, mem, blamed⟩ := honest.exists_blamed rfl outcome
          refine ⟨token :: others, ?_, .cons blamed others_blamed⟩
          have whole := (List.singleton_sublist.mpr mem).append sublist
          simpa using whole

/-- The text of an integer denotes a number. -/
theorem Token.IsLexed.exists_decimal {token : Token} (lexed : token.IsLexed)
    (kind_eq : token.kind = .integer) : ∃ value, decimal? token.literal = some value := by
  obtain ⟨lexeme, wellFormed, erase_eq⟩ := lexed
  have lexeme_kind : lexeme.kind = .integer := (congrArg Token.kind erase_eq).symm.trans kind_eq
  obtain ⟨nonempty, digits⟩ := wellFormed.isDigit_of_kind lexeme_kind
  have literal_eq : token.literal = textOfBytes lexeme.bytes := by
    have legal : lexeme.kind ≠ .illegal := by simp [lexeme_kind]
    have text_eq : token.literal = lexeme.text := congrArg Token.literal erase_eq
    rw [text_eq, Lexeme.text, if_neg legal]
  have all_digits : (lexeme.bytes.map charOfByte).all Char.isDigit = true := by
    rw [List.all_map]
    exact List.all_eq_true.mpr digits
  refine ⟨decimalValue (lexeme.bytes.map charOfByte), ?_⟩
  simp [decimal?, literal_eq, textOfBytes, nonempty, all_digits]

/-- An integer of a source text that has no value is too large for one. -/
theorem exists_large_of_refused {source : String} {token : Token} (mem : token ∈ tokenize source)
    (kind_eq : token.kind = .integer) (refused : integerValue? token.literal = none) :
    ∃ value, decimal? token.literal = some value ∧ maxInteger < value := by
  have lexed : token ∈ (Lexer.ofString source).tokens := by
    refine (List.mem_append.mp mem).resolve_right fun last => ?_
    rw [List.mem_singleton.mp last] at kind_eq
    contradiction
  obtain ⟨value, value_eq⟩ := (Lexer.isLexed_of_mem_tokens lexed).exists_decimal kind_eq
  refine ⟨value, value_eq, Nat.lt_of_not_le fun small => ?_⟩
  rw [integerValue?_eq_some_iff.mpr ⟨value_eq, small⟩] at refused
  contradiction

/-- A token of a source text stands in one place of the text, and no other token begins there. -/
theorem exists_alone {source : String} {token : Token} (small : source.utf8ByteSize ≤ maxOffset)
    (mem : token ∈ tokenize source) :
    ∃ before after, tokenize source = before ++ token :: after ∧
      ∀ other ∈ before ++ after, other.span.start ≠ token.span.start := by
  obtain ⟨before, after, split_eq⟩ := List.append_of_mem mem
  have distinct : (tokenize source).Pairwise fun first second =>
      first.span.start ≠ second.span.start :=
    (pairwise_start_lt_tokenize small).imp fun lt start_eq =>
      Nat.ne_of_lt lt (congrArg Position.offset start_eq)
  rw [split_eq, List.pairwise_middle fun ne => Ne.symm ne] at distinct
  exact ⟨before, after, split_eq, fun other other_mem =>
    Ne.symm ((List.pairwise_cons.mp distinct).1 other other_mem)⟩

/-- The diagnostics of a source text are those of its segments. -/
theorem diagnostics_ofString (source : String) :
    (Parser.ofString source).program.2.diagnostics =
      diagnosticsOf ((segments (Lexer.ofString source).tokens).map fun segment =>
        ((Parse.statement maxDepth).run ⟨segment, source.utf8ByteSize⟩).1) := by
  have inside : ∀ token ∈ (Lexer.ofString source).tokens, token.kind ≠ .endOfInput :=
    fun token mem => Lexer.kind_ne_endOfInput mem
  have stream_eq : (Parser.ofString source).stream =
      ⟨(Lexer.ofString source).tokens, source.utf8ByteSize⟩ :=
    congrArg (TokenStream.mk _) (size_ofString source)
  have outcomes_eq := Parse.outcomes_eq maxDepth source.utf8ByteSize inside
  rw [← stream_eq] at outcomes_eq
  exact congrArg (fun read => diagnosticsOf read.1) outcomes_eq

/-- The diagnostics of a source text stand in source order.  Each stands where exactly one token
begins, and what it says is true of that token. -/
theorem diagnostics_blame_in_order (source : String) (small : source.utf8ByteSize ≤ maxOffset) :
    let diagnostics := (Parser.ofString source).program.2.diagnostics
    (diagnostics.Pairwise fun first second => first.position < second.position) ∧
      ∀ diagnostic ∈ diagnostics, ∃ before token after,
        tokenize source = before ++ token :: after ∧
        token.span.start = diagnostic.position ∧
        (∀ other ∈ before ++ after, other.span.start ≠ diagnostic.position) ∧
        match diagnostic.cause with
        | .unexpectedToken expected found =>
            found = token.kind ∧ found ≠ expected ∧
              expected ∈ [.identifier, .assign, .semicolon, .closeParen]
        | .noOperand kind => kind = token.kind ∧ RuleTable.monkey.operand? kind = none
        | .notAnInteger literal =>
            token.kind = .integer ∧ literal = token.literal ∧
              ∃ value, decimal? literal = some value ∧ maxInteger < value
        | .tooDeep limit => limit = 256 := by
  intro diagnostics
  obtain ⟨blamed, sublist, blames⟩ :=
    exists_blamed maxDepth source.utf8ByteSize (Lexer.ofString source).tokens
  rw [← diagnostics_ofString] at blames
  have starts_eq :
      diagnostics.map Diagnostic.position = blamed.map fun token => token.span.start := by
    rw [← List.forall₂_eq_eq_eq, List.forall₂_map_left_iff, List.forall₂_map_right_iff]
    exact blames.imp fun _ _ blame => blame.position_eq.symm
  constructor
  · rw [← List.pairwise_map (f := Diagnostic.position), starts_eq, List.pairwise_map]
    exact (pairwise_start_lt_tokenize small).sublist sublist
  · intro diagnostic mem
    obtain ⟨index, lt, rfl⟩ := List.getElem_of_mem mem
    have blame := blames.get lt (blames.length_eq ▸ lt)
    have token_mem := sublist.subset (List.get_mem blamed ⟨index, blames.length_eq ▸ lt⟩)
    obtain ⟨before, after, split_eq, alone⟩ := exists_alone small token_mem
    refine ⟨before, _, after, split_eq, blame.position_eq, ?_, ?_⟩
    · exact fun other other_mem => blame.position_eq ▸ alone other other_mem
    · have described := blame.describes
      rw [List.get_eq_getElem] at described ⊢
      cases cause_eq : diagnostics[index].cause with
      | unexpectedToken expected found => rwa [cause_eq] at described
      | noOperand kind => rwa [cause_eq] at described
      | notAnInteger literal =>
          rw [cause_eq] at described
          obtain ⟨kind_eq, rfl, refused⟩ := described
          exact ⟨kind_eq, rfl, exists_large_of_refused token_mem kind_eq refused⟩
      | tooDeep limit => rwa [cause_eq] at described

/-- A number that is one too large is blamed although a statement before it is broken. -/
theorem diagnostics_blame_in_order_large :
    "let 5; 9223372036854775808;".utf8ByteSize ≤ maxOffset ∧
      (Parser.ofString "let 5; 9223372036854775808;").program.2.diagnostics =
        [⟨.unexpectedToken .identifier .integer, .ofOffset 4⟩,
          ⟨.notAnInteger "9223372036854775808", .ofOffset 7⟩] ∧
      ∃ before token after,
        tokenize "let 5; 9223372036854775808;" = before ++ token :: after ∧
        token.span.start = .ofOffset 7 ∧
        (∀ other ∈ before ++ after, other.span.start ≠ .ofOffset 7) ∧
        token.kind = .integer ∧
        ∃ value, decimal? "9223372036854775808" = some value ∧ maxInteger < value := by
  have small : "let 5; 9223372036854775808;".utf8ByteSize ≤ maxOffset := by decide
  have reported : (Parser.ofString "let 5; 9223372036854775808;").program.2.diagnostics =
      [⟨.unexpectedToken .identifier .integer, .ofOffset 4⟩,
        ⟨.notAnInteger "9223372036854775808", .ofOffset 7⟩] := by decide +kernel
  obtain ⟨before, token, after, split, start_eq, alone, kind_eq, -, large⟩ :=
    (diagnostics_blame_in_order _ small).2 ⟨.notAnInteger "9223372036854775808", .ofOffset 7⟩
      (by simp [reported])
  exact ⟨small, reported, before, token, after, split, start_eq, alone, kind_eq, large⟩

end MonkeySyntax
