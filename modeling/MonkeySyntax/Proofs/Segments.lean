import Mathlib.Data.List.TakeWhile
import MonkeySyntax.Parse.Statement
import MonkeySyntax.Proofs.Soundness

/-!
# Segments

The tokens of a source text fall into segments, each of which ends with the next semicolon.  A
statement is read off one segment: whatever stands behind the semicolon has no part in it, and
reading goes on right there, also after a failure.
-/

namespace MonkeySyntax

/-- The segments of some tokens: each ends with the next semicolon, and what stands behind the last
semicolon is a segment too. -/
def segments : List Token → List (List Token)
  | [] => []
  | token :: rest =>
      if token.kind = .semicolon then [token] :: segments rest
      else
        match segments rest with
        | [] => [[token]]
        | segment :: others => (token :: segment) :: others

/-- A word without a semicolon. -/
def IsPlain (word : List Token) : Prop :=
  ∀ token ∈ word, token.kind ≠ .semicolon

section

variable {token semicolon : Token} {word tail tokens : List Token}

theorem IsPlain.of_suffix {left : List Token} (plain : IsPlain word) (suffix : left <:+ word) :
    IsPlain left :=
  fun token mem => plain token (suffix.subset mem)

theorem isPlain_cons : IsPlain (token :: tail) ↔ token.kind ≠ .semicolon ∧ IsPlain tail := by
  simp [IsPlain]

theorem isPlain_append {first second : List Token} :
    IsPlain (first ++ second) ↔ IsPlain first ∧ IsPlain second := by
  simp [IsPlain, or_imp, forall_and]

theorem isPlain_singleton (ne : token.kind ≠ .semicolon) : IsPlain [token] :=
  isPlain_cons.mpr ⟨ne, nofun⟩

theorem segments_append (plain : IsPlain word) (kind_eq : semicolon.kind = .semicolon) :
    segments (word ++ semicolon :: tail) = (word ++ [semicolon]) :: segments tail := by
  induction word with
  | nil => simp [segments, kind_eq]
  | cons token word ih =>
      obtain ⟨ne, plain⟩ := isPlain_cons.mp plain
      rw [List.cons_append, segments, if_neg ne, ih plain]
      rfl

theorem segments_of_isPlain (plain : IsPlain word) (ne : word ≠ []) : segments word = [word] := by
  induction word with
  | nil => contradiction
  | cons token word ih =>
      obtain ⟨kind_ne, plain⟩ := isPlain_cons.mp plain
      rw [segments, if_neg kind_ne]
      cases word with
      | nil => rfl
      | cons next word => rw [ih plain (List.cons_ne_nil _ _)]

/-- Tokens are segments one after another, and the last one may have no semicolon. -/
theorem segments_induction {motive : List Token → Prop} (nil : motive [])
    (remainder : ∀ word, word ≠ [] → IsPlain word → motive word)
    (closed : ∀ word semicolon tail, IsPlain word → semicolon.kind = .semicolon →
      motive tail → motive (word ++ semicolon :: tail)) (tokens : List Token) : motive tokens := by
  -- A segment grows token by token, so the word without a semicolon read so far goes along.
  suffices beyond : ∀ word, IsPlain word → motive (word ++ tokens) from beyond [] nofun
  induction tokens with
  | nil =>
      intro word plain
      rw [List.append_nil]
      by_cases empty : word = []
      · exact empty ▸ nil
      · exact remainder word empty plain
  | cons token tokens ih =>
      intro word plain
      by_cases kind_eq : token.kind = .semicolon
      · exact closed word token tokens plain kind_eq (ih [] nofun)
      · have longer : IsPlain (word ++ [token]) :=
          isPlain_append.mpr ⟨plain, isPlain_singleton kind_eq⟩
        have step := ih (word ++ [token]) longer
        rwa [List.append_assoc, List.singleton_append] at step

theorem flatten_segments (tokens : List Token) : (segments tokens).flatten = tokens := by
  induction tokens using segments_induction with
  | nil => rfl
  | remainder word ne plain => simp [segments_of_isPlain plain ne]
  | closed word semicolon tail plain kind_eq ih => simp [segments_append plain kind_eq, ih]

/-- A segment ends with its only semicolon; only the last one may have none. -/
theorem segment_cases {before after : List (List Token)} {segment : List Token}
    (split : segments tokens = before ++ segment :: after) :
    (∃ word semicolon, IsPlain word ∧ semicolon.kind = .semicolon ∧
      segment = word ++ [semicolon]) ∨ (IsPlain segment ∧ segment ≠ [] ∧ after = []) := by
  induction tokens using segments_induction generalizing before with
  | nil => simp [segments] at split
  | remainder word ne plain =>
      rw [segments_of_isPlain plain ne] at split
      obtain ⟨rfl, equal⟩ | ⟨_, -, equal⟩ := List.cons_eq_append_iff.mp split
      · obtain ⟨rfl, rfl⟩ := List.cons.inj equal
        exact .inr ⟨plain, ne, rfl⟩
      · simp at equal
  | closed word semicolon tail plain kind_eq ih =>
      rw [segments_append plain kind_eq] at split
      obtain ⟨rfl, equal⟩ | ⟨others, -, equal⟩ := List.cons_eq_append_iff.mp split
      · obtain ⟨rfl, -⟩ := List.cons.inj equal
        exact .inl ⟨word, semicolon, plain, kind_eq, rfl⟩
      · exact ih equal

end

namespace Parse

variable {word : List Token} {behind : Token} {room : Nat}

/-- A value behind which the statement ends. -/
theorem confined_value (ends : behind.Ends) (plain : IsPlain word) (make : Expr → Stmt) :
    Confined (do
        let value ← expression room .lowest
        expect .semicolon
        pure (make value)) word behind fun stmt left => left = [] ∧ behind.kind = .semicolon ∧
      ∃ value, stmt = make value ∧ Derives .equality word value := by
  have read := sound_expression room .lowest word behind ends
  refine read.bind fun value left suffix ⟨covers, _⟩ => ?_
  obtain ⟨used, last, after, rfl, rfl, derived⟩ := covers
  refine .expect_bind fun kind_eq => ?_
  cases after with
  | nil => exact .pure ⟨rfl, kind_eq, value, rfl, derived⟩
  | cons next after =>
      have plain_left := plain.of_suffix suffix
      exact absurd kind_eq (plain_left next (by simp))

theorem confined_binding {keyword : Token} {tail : List Token} (ends : behind.Ends)
    (plain : IsPlain (keyword :: tail)) (keyword_kind : keyword.kind = .letWord) :
    Confined (binding room) (keyword :: tail) behind fun stmt left =>
      left = [] ∧ behind.kind = .semicolon ∧
        DerivesStatement (keyword :: tail ++ [behind]) stmt := by
  apply Confined.current_bind
  refine .expect_bind fun name_kind => ?_
  apply Confined.current_bind
  cases tail with
  | nil =>
      rcases ends with kind_eq | kind_eq <;> simp [kind_eq] at name_kind
  | cons name tail =>
      refine .expect_bind fun assign_kind => ?_
      cases tail with
      | nil =>
          rcases ends with kind_eq | kind_eq <;> simp [kind_eq] at assign_kind
      | cons assign tail =>
          have plain_tail : IsPlain tail :=
            (isPlain_cons.mp (isPlain_cons.mp (isPlain_cons.mp plain).2).2).2
          apply Confined.advance_bind
          refine (confined_value ends plain_tail _).mono fun stmt left read => ?_
          obtain ⟨left_eq, ends_kind, value, rfl, derived⟩ := read
          exact ⟨left_eq, ends_kind,
            .binding keyword_kind name_kind assign_kind derived ends_kind⟩

theorem confined_result {keyword : Token} {tail : List Token} (ends : behind.Ends)
    (plain : IsPlain (keyword :: tail)) (keyword_kind : keyword.kind = .returnWord) :
    Confined (result room) (keyword :: tail) behind fun stmt left =>
      left = [] ∧ behind.kind = .semicolon ∧
        DerivesStatement (keyword :: tail ++ [behind]) stmt := by
  have plain_tail : IsPlain tail := (isPlain_cons.mp plain).2
  apply Confined.current_bind
  apply Confined.advance_bind
  refine (confined_value ends plain_tail _).mono fun stmt left read => ?_
  obtain ⟨left_eq, ends_kind, value, rfl, derived⟩ := read
  exact ⟨left_eq, ends_kind, .result keyword_kind derived ends_kind⟩

theorem confined_expressionStatement (ends : behind.Ends) (plain : IsPlain word) :
    Confined (expressionStatement room) word behind fun stmt left =>
      left = [] ∧ behind.kind = .semicolon ∧ DerivesStatement (word ++ [behind]) stmt := by
  apply Confined.current_bind
  refine (confined_value ends plain _).mono fun stmt left read => ?_
  obtain ⟨left_eq, ends_kind, value, rfl, derived⟩ := read
  cases word with
  | nil => exact absurd rfl derived.ne_nil
  | cons first tail => exact ⟨left_eq, ends_kind, .expression derived ends_kind⟩

/-- A statement that is read takes all of a word and the semicolon behind it. -/
theorem confined_statement (room : Nat) (ends : behind.Ends) (plain : IsPlain word) :
    Confined (statement room) word behind fun stmt left =>
      left = [] ∧ behind.kind = .semicolon ∧ DerivesStatement (word ++ [behind]) stmt := by
  apply Confined.current_bind
  have none_behind : RuleTable.monkey.statement? behind.kind = none := by
    rcases ends with kind_eq | kind_eq <;> rw [kind_eq] <;> rfl
  cases word with
  | nil =>
      rw [List.headD_nil, none_behind]
      exact confined_expressionStatement ends plain
  | cons first tail =>
      rw [List.headD_cons]
      split
      · next rule found =>
          have keyword_kind := RuleTable.statement?_eq_some_iff.mp found
          cases rule with
          | binding => exact confined_binding ends plain keyword_kind
          | result => exact confined_result ends plain keyword_kind
      · exact confined_expressionStatement ends plain

/-- A statement that is read off a segment is derived. -/
theorem derives_of_run_statement {semicolon : Token} {tail : List Token} {size : Nat} {stmt : Stmt}
    (plain : IsPlain word) (kind_eq : semicolon.kind = .semicolon)
    (read : ((statement room).run ⟨word ++ semicolon :: tail, size⟩).1 = .ok stmt) :
    DerivesStatement (word ++ [semicolon]) stmt := by
  obtain ⟨outcome, left, -, holds, run_eq⟩ := confined_statement room (.inl kind_eq) plain
  have run_stream : (statement room).run ⟨word ++ semicolon :: tail, size⟩ =
      (outcome, ⟨left ++ semicolon :: tail, size⟩) := run_eq ⟨semicolon :: tail, size⟩ rfl
  rw [run_stream] at read
  exact (holds stmt read).2.2

theorem synchronize_append {left tail : List Token} {semicolon : Token} {size : Nat}
    (plain : IsPlain left) (kind_eq : semicolon.kind = .semicolon) :
    TokenStream.synchronize ⟨left ++ semicolon :: tail, size⟩ = ⟨semicolon :: tail, size⟩ := by
  have passed : ∀ token ∈ left, (decide (token.kind ≠ .semicolon)) = true :=
    fun token mem => decide_eq_true (plain token mem)
  simp only [TokenStream.synchronize, List.dropWhile_append_of_pos passed]
  rw [List.dropWhile_cons_of_neg (by simp [kind_eq])]

/-- Whatever stands behind the semicolon of a segment, the outcome is the same, and reading goes on
right behind the semicolon. -/
theorem run_statement_closed (room : Nat) {semicolon : Token} (plain : IsPlain word)
    (kind_eq : semicolon.kind = .semicolon) :
    ∃ outcome, ∀ tail size,
      ((statement room).run ⟨word ++ semicolon :: tail, size⟩).1 = outcome ∧
      resume ((statement room).run ⟨word ++ semicolon :: tail, size⟩) = ⟨tail, size⟩ := by
  obtain ⟨outcome, left, suffix, holds, run_eq⟩ := confined_statement room (.inl kind_eq) plain
  refine ⟨outcome, fun tail size => ?_⟩
  have run_stream : (statement room).run ⟨word ++ semicolon :: tail, size⟩ =
      (outcome, ⟨left ++ semicolon :: tail, size⟩) := run_eq ⟨semicolon :: tail, size⟩ rfl
  rw [run_stream]
  refine ⟨rfl, ?_⟩
  cases outcome with
  | ok stmt =>
      obtain ⟨rfl, -⟩ := holds stmt rfl
      rfl
  | error diagnostic =>
      rw [resume, synchronize_append (plain.of_suffix suffix) kind_eq]
      rfl

/-- Without a semicolon behind it a statement is refused, and the input ends. -/
theorem run_statement_remainder (room size : Nat) (plain : IsPlain word) :
    (∃ diagnostic, ((statement room).run ⟨word, size⟩).1 = .error diagnostic) ∧
      resume ((statement room).run ⟨word, size⟩) = ⟨[], size⟩ := by
  have ends : (Token.endOfInput size).Ends := .inr rfl
  obtain ⟨outcome, left, suffix, holds, run_eq⟩ := confined_statement room ends plain
  have run_stream : (statement room).run ⟨word, size⟩ = (outcome, ⟨left, size⟩) := by
    simpa [TokenStream.prepend] using run_eq ⟨[], size⟩ rfl
  rw [run_stream]
  cases outcome with
  | ok stmt =>
      obtain ⟨-, kind_eq, -⟩ := holds stmt rfl
      exact absurd kind_eq (by simp [Token.endOfInput])
  | error diagnostic =>
      refine ⟨⟨diagnostic, rfl⟩, ?_⟩
      have none_left : left.dropWhile (fun token => decide (token.kind ≠ .semicolon)) = [] :=
        List.dropWhile_eq_nil_iff.mpr fun token mem =>
          decide_eq_true (plain.of_suffix suffix token mem)
      simp only [resume, TokenStream.synchronize, TokenStream.advance, none_left, List.tail_nil]

/-- One statement is read off each segment, and nothing else settles what becomes of it. -/
theorem outcomes_eq (room size : Nat) {tokens : List Token}
    (inside : ∀ token ∈ tokens, token.kind ≠ .endOfInput) :
    outcomes room ⟨tokens, size⟩ =
      ((segments tokens).map fun segment => ((statement room).run ⟨segment, size⟩).1,
        ⟨[], size⟩) := by
  have has_tokens {first : Token} {rest : List Token} (kind_ne : first.kind ≠ .endOfInput) :
      (TokenStream.mk (first :: rest) size).hasTokens = true := decide_eq_true kind_ne
  induction tokens using segments_induction with
  | nil => rw [outcomes]; rfl
  | remainder word ne plain =>
      obtain ⟨-, resume_eq⟩ := run_statement_remainder room size plain
      have left : (TokenStream.mk word size).hasTokens = true := by
        obtain ⟨first, rest, rfl⟩ := List.exists_cons_of_ne_nil ne
        exact has_tokens (inside first List.mem_cons_self)
      rw [outcomes, dif_pos left, segments_of_isPlain plain ne]
      simp only [resume_eq]
      rw [outcomes]
      rfl
  | closed word semicolon tail plain kind_eq ih =>
      obtain ⟨outcome, run_eq⟩ := run_statement_closed room plain kind_eq
      have left : (TokenStream.mk (word ++ semicolon :: tail) size).hasTokens = true := by
        cases word with
        | nil => exact has_tokens (inside semicolon (by simp))
        | cons first rest => exact has_tokens (inside first (by simp))
      have others := ih fun token mem => inside token (by simp [mem])
      rw [outcomes, dif_pos left, segments_append plain kind_eq]
      simp only [(run_eq tail size).2, others, List.map_cons]
      rw [(run_eq tail size).1, (run_eq [] size).1]

end Parse

end MonkeySyntax
