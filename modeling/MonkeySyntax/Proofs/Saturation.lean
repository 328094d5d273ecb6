import MonkeySyntax.Proofs.Meaning
import MonkeySyntax.Proofs.Yield

/-!
# Spans in texts of any size

A source text may have more bytes than a position can count, and then every place further on is
recorded as the greatest position.  Bringing offsets into range keeps their order.  So no span is
reversed, neither that of a token nor that of a node, and the tokens stay in order.  A token that
ends within range keeps both its places, and the length of its span is the number of its bytes.
-/

namespace MonkeySyntax

/-! ### Offsets brought into range -/

theorem Position.ofOffset_le_ofOffset {first second : Nat} (le : first ≤ second) :
    ofOffset first ≤ ofOffset second := by
  change min first maxOffset ≤ min second maxOffset
  omega

namespace Span

variable {start stop : Nat}

/-- The ends of a span that is not reversed are as far apart as they are once brought into range. -/
theorem length?_ofOffsets (le : start ≤ stop) :
    (ofOffsets start stop).length? = some (min stop maxOffset - min start maxOffset) :=
  if_pos (Position.ofOffset_le_ofOffset le)

/-- One end is in range, and the other is brought there. -/
example : (ofOffsets 4294967294 4294967305).length? = some 1 := by decide

theorem length?_ofOffsets_of_le (le : start ≤ stop) (small : stop ≤ maxOffset) :
    (ofOffsets start stop).length? = some (stop - start) := by
  rw [length?_ofOffsets le, Nat.min_eq_left small, Nat.min_eq_left (Nat.le_trans le small)]

theorem isEmpty_ofOffsets_of_lt (lt : start < stop) (small : stop ≤ maxOffset) :
    (ofOffsets start stop).isEmpty = false := by
  refine decide_eq_false fun same => ?_
  have offsets_eq : min start maxOffset = min stop maxOffset := congrArg Position.offset same
  omega

end Span

/-! ### Lexemes and their true places -/

/-- A lexeme and the number of bytes in front of it, however large. -/
structure PlacedLexeme where
  /-- The number of bytes in front. -/
  start : Nat
  /-- The lexeme. -/
  lexeme : Lexeme

namespace PlacedLexeme

/-- The number of bytes up to the end of the lexeme. -/
def stop (placed : PlacedLexeme) : Nat :=
  placed.start + placed.lexeme.bytes.length

/-- The token of the lexeme, whose span is brought into range. -/
def token (placed : PlacedLexeme) : Token :=
  placed.lexeme.tokenAt placed.start

end PlacedLexeme

/-- Bytes, the first of which is at an offset, are blanks and lexemes in their places, each lexeme
as long as possible. -/
inductive LaidOut : (offset : Nat) → List UInt8 → List PlacedLexeme → Prop where
  | nil {offset : Nat} : LaidOut offset [] []
  | blank {offset : Nat} {byte : UInt8} {rest : List UInt8} {others : List PlacedLexeme}
      (is_blank : isBlank byte) (laid : LaidOut (offset + 1) rest others) :
      LaidOut offset (byte :: rest) others
  | lexeme {offset : Nat} {lexeme : Lexeme} {rest : List UInt8} {others : List PlacedLexeme}
      (wellFormed : lexeme.WellFormed) (ends : lexeme.EndsBefore rest)
      (laid : LaidOut (offset + lexeme.bytes.length) rest others) :
      LaidOut offset (lexeme.bytes ++ rest) (⟨offset, lexeme⟩ :: others)

/-- Any bytes are laid out, from any offset on, as the lexemes whose tokens are read from them. -/
theorem exists_laidOut (offset : Nat) (bytes : List UInt8) :
    ∃ pieces, LaidOut offset bytes pieces ∧
      (⟨offset, bytes⟩ : Lexer).tokens = pieces.map PlacedLexeme.token := by
  induction bytes using Lexeme.bytes_induction generalizing offset with
  | nil => exact ⟨[], .nil, Lexer.tokens_nil offset⟩
  | blank byte rest is_blank ih =>
      obtain ⟨pieces, laid, tokens_eq⟩ := ih (offset + 1)
      exact ⟨pieces, .blank is_blank laid, (Lexer.tokens_blank is_blank).trans tokens_eq⟩
  | lexeme lexeme rest wellFormed ends ih =>
      obtain ⟨others, laid, tokens_eq⟩ := ih (offset + lexeme.bytes.length)
      refine ⟨_, .lexeme wellFormed ends laid, ?_⟩
      rw [Lexer.tokens_of_next?_eq_some (Lexer.next?_lexeme wellFormed ends), tokens_eq]
      rfl

namespace LaidOut

variable {offset : Nat} {bytes : List UInt8} {pieces : List PlacedLexeme} {piece : PlacedLexeme}

/-- A lexeme lies within the bytes, has a byte of its own and begins at its place. -/
theorem of_mem (laid : LaidOut offset bytes pieces) (mem : piece ∈ pieces) :
    ∃ front after, bytes = front ++ piece.lexeme.bytes ++ after ∧
      piece.start = offset + front.length ∧ piece.lexeme.WellFormed := by
  induction laid with
  | nil => contradiction
  | @blank offset byte rest others is_blank _ ih =>
      obtain ⟨front, after, rfl, start_eq, wellFormed⟩ := ih mem
      refine ⟨byte :: front, after, rfl, ?_, wellFormed⟩
      rw [start_eq, List.length_cons]
      omega
  | @lexeme offset lexeme rest others wellFormed _ _ ih =>
      rcases List.mem_cons.mp mem with rfl | mem
      · exact ⟨[], rest, rfl, rfl, wellFormed⟩
      · obtain ⟨front, after, rfl, start_eq, later_wellFormed⟩ := ih mem
        refine ⟨lexeme.bytes ++ front, after, by simp only [List.append_assoc], ?_,
          later_wellFormed⟩
        rw [start_eq, List.length_append, Nat.add_assoc]

theorem start_le (laid : LaidOut offset bytes pieces) (mem : piece ∈ pieces) :
    offset ≤ piece.start := by
  obtain ⟨front, -, -, start_eq, -⟩ := laid.of_mem mem
  omega

theorem stop_le (laid : LaidOut offset bytes pieces) (mem : piece ∈ pieces) :
    piece.stop ≤ offset + bytes.length := by
  obtain ⟨front, after, rfl, start_eq, -⟩ := laid.of_mem mem
  simp only [PlacedLexeme.stop, start_eq, List.length_append]
  omega

theorem start_lt_stop (laid : LaidOut offset bytes pieces) (mem : piece ∈ pieces) :
    piece.start < piece.stop := by
  obtain ⟨-, -, -, -, wellFormed⟩ := laid.of_mem mem
  exact Nat.lt_add_of_pos_right (List.length_pos_iff.mpr wellFormed.bytes_ne_nil)

/-- Each lexeme begins behind the one before it. -/
theorem ordered (laid : LaidOut offset bytes pieces) :
    pieces.Pairwise fun first second => first.stop ≤ second.start := by
  induction laid with
  | nil => exact .nil
  | blank _ _ ih => exact ih
  | lexeme _ _ laid ih => exact .cons (fun _ mem => laid.start_le mem) ih

end LaidOut

/-! ### Tokens of nodes -/

namespace Expr

mutual

/-- A node of an expression keeps a token of it. -/
theorem token_mem_tokens {node : Expr} : ∀ {expr : Expr}, node ∈ expr.nodes →
    node.token ∈ expr.tokens
  | identifier _, mem | integer _ _, mem | boolean _ _, mem => by
      obtain rfl := List.mem_singleton.mp mem
      exact List.mem_singleton_self _
  | unary token operator right, mem => by
      rcases List.mem_cons.mp mem with rfl | mem
      · exact List.mem_cons_self
      · exact List.mem_cons_of_mem token (token_mem_tokens mem)
  | binary token operator left right, mem => by
      rw [tokens, List.mem_append, List.mem_cons]
      rcases List.mem_cons.mp mem with rfl | mem
      · exact .inr (.inl rfl)
      · exact (List.mem_append.mp mem).imp token_mem_tokens fun mem => .inr (token_mem_tokens mem)
  | call token function arguments, mem => by
      rw [tokens, List.mem_append, List.mem_cons]
      rcases List.mem_cons.mp mem with rfl | mem
      · exact .inr (.inl rfl)
      · exact (List.mem_append.mp mem).imp token_mem_tokens fun mem =>
          .inr (token_mem_tokensAll mem)

theorem token_mem_tokensAll {node : Expr} : ∀ {exprs : List Expr}, node ∈ nodesAll exprs →
    node.token ∈ tokensAll exprs
  | _ :: _, mem =>
      List.mem_append.mpr ((List.mem_append.mp mem).imp token_mem_tokens token_mem_tokensAll)

end

theorem map_token_nodes_subset (expr : Expr) : expr.nodes.map token ⊆ expr.tokens := by
  intro token mem
  obtain ⟨node, node_mem, rfl⟩ := List.mem_map.mp mem
  exact token_mem_tokens node_mem

end Expr

/-- The tokens of the nodes of a statement: its own, that of a name that it binds, and those of its
expression and of all expressions within it. -/
def Stmt.nodeTokens : Stmt → List Token
  | binding token name value => token :: name.token :: value.nodes.map Expr.token
  | result token value => token :: value.nodes.map Expr.token
  | expression token expr => token :: expr.nodes.map Expr.token

theorem Stmt.nodeTokens_subset (stmt : Stmt) : stmt.nodeTokens ⊆ stmt.token :: stmt.tokens := by
  cases stmt with
  | binding token name value =>
      exact List.cons_subset_cons token (List.subset_cons_of_subset token
        (List.cons_subset_cons name.token value.map_token_nodes_subset))
  | result token value =>
      exact List.cons_subset_cons token
        (List.subset_cons_of_subset token value.map_token_nodes_subset)
  | expression token expr => exact List.cons_subset_cons token expr.map_token_nodes_subset

/-- The nodes of a statement keep tokens of its word. -/
theorem DerivesStatement.nodeTokens_subset {word : List Token} {stmt : Stmt}
    (derived : DerivesStatement word stmt) : stmt.nodeTokens ⊆ word := by
  refine List.Subset.trans stmt.nodeTokens_subset (List.cons_subset.mpr ⟨?_, ?_⟩)
  · exact List.mem_of_mem_head? derived.head?_eq
  · exact (sublist_of_keptOfStatement? derived.kept).subset

/-- The nodes of a program keep tokens of its source text, and none the end of the input. -/
theorem nodeTokens_subset_of_mem_statements {source : String} {stmt : Stmt}
    (mem : stmt ∈ (parse source).1.statements) :
    stmt.nodeTokens ⊆ (Lexer.ofString source).tokens := by
  have outcome_mem : .ok stmt ∈ outcomesOf source := mem_statementsOf.mp mem
  rw [outcomesOf_eq_map] at outcome_mem
  obtain ⟨segment, segment_mem, run_eq⟩ := List.mem_map.mp outcome_mem
  have derived := derivesStatement_of_mem_segments segment_mem run_eq
  rw [← flatten_segments (Lexer.ofString source).tokens]
  exact fun token token_mem =>
    List.mem_flatten_of_mem segment_mem (derived.nodeTokens_subset token_mem)

/-! ### Spans of tokens and nodes -/

/-- A span has a length if and only if it is not reversed. -/
theorem Span.isSome_length?_iff {span : Span} :
    span.length?.isSome = true ↔ span.start ≤ span.stop := by
  unfold length?
  split <;> simp [*]

namespace LaidOut

variable {bytes : List UInt8} {pieces : List PlacedLexeme} {piece : PlacedLexeme}

/-- A lexeme that ends in range has a span as long as itself. -/
theorem span_of_stop_le (laid : LaidOut 0 bytes pieces) (mem : piece ∈ pieces)
    (small : piece.stop ≤ maxOffset) :
    piece.token.span.length? = some (piece.stop - piece.start) ∧
      piece.token.span.isEmpty = false := by
  have lt_stop := laid.start_lt_stop mem
  exact ⟨Span.length?_ofOffsets_of_le (Nat.le_of_lt lt_stop) small,
    Span.isEmpty_ofOffsets_of_lt lt_stop small⟩

/-- The spans of the lexemes and of the end behind them are not reversed. -/
theorem start_le_stop (laid : LaidOut 0 bytes pieces) {size : Nat} {token : Token}
    (mem : token ∈ pieces.map PlacedLexeme.token ++ [.endOfInput size]) :
    token.span.start ≤ token.span.stop := by
  rcases List.mem_append.mp mem with mem | mem
  · obtain ⟨piece, piece_mem, rfl⟩ := List.mem_map.mp mem
    exact Position.ofOffset_le_ofOffset (Nat.le_of_lt (laid.start_lt_stop piece_mem))
  · obtain rfl := List.mem_singleton.mp mem
    exact Nat.le_refl _

/-- The bytes at the place of a lexeme are its own. -/
theorem covered_eq (laid : LaidOut 0 bytes pieces) (mem : piece ∈ pieces) :
    (bytes.drop piece.start).take (piece.stop - piece.start) = piece.lexeme.bytes := by
  obtain ⟨front, after, rfl, start_eq, -⟩ := laid.of_mem mem
  rw [PlacedLexeme.stop, Nat.add_sub_cancel_left, start_eq, Nat.zero_add, List.append_assoc,
    List.drop_left, List.take_left]

/-- Neither the starts nor the ends of the spans go back. -/
theorem pairwise_le (laid : LaidOut 0 bytes pieces) :
    (pieces.map PlacedLexeme.token ++ [Token.endOfInput bytes.length]).Pairwise fun first second =>
      first.span.start ≤ second.span.start ∧ first.span.stop ≤ second.span.stop := by
  refine List.pairwise_append.mpr ⟨List.pairwise_map.mpr ?_, List.pairwise_singleton _ _,
    List.forall_mem_map.mpr fun piece mem last last_mem => ?_⟩
  · refine laid.ordered.imp_of_mem fun {first second} first_mem second_mem in_order => ?_
    have first_lt := laid.start_lt_stop first_mem
    have second_lt := laid.start_lt_stop second_mem
    have stops_in_order : first.stop ≤ second.stop := by omega
    exact ⟨Position.ofOffset_le_ofOffset (by omega),
      Position.ofOffset_le_ofOffset stops_in_order⟩
  · obtain rfl := List.mem_singleton.mp last_mem
    have lt_stop := laid.start_lt_stop mem
    have stop_le : piece.stop ≤ bytes.length := Nat.zero_add bytes.length ▸ laid.stop_le mem
    exact ⟨Position.ofOffset_le_ofOffset (by omega), Position.ofOffset_le_ofOffset stop_le⟩

end LaidOut

/-- However long a source text is, its tokens are those of lexemes in their true places, and of the
end behind them.  No span of a token is reversed, and along the tokens neither starts nor ends go
back.  A token that truly ends in range has a span as long as its lexeme, and of the spans in range
only that of the end is empty.  The nodes of the program keep tokens of the source text, so their
spans are in order too. -/
theorem spans_survive_saturation (source : String) :
    ∃ pieces, LaidOut 0 (bytesOf source) pieces ∧
      tokenize source =
        pieces.map PlacedLexeme.token ++ [.endOfInput source.utf8ByteSize] ∧
      (∀ piece ∈ pieces, piece.token.kind ≠ .endOfInput ∧
        ((bytesOf source).drop piece.start).take (piece.stop - piece.start) =
          piece.lexeme.bytes ∧
        (piece.stop ≤ maxOffset →
          piece.token.span.length? = some (piece.stop - piece.start) ∧
            piece.token.span.isEmpty = false)) ∧
      (Token.endOfInput source.utf8ByteSize).span.length? = some 0 ∧
      (Token.endOfInput source.utf8ByteSize).span.isEmpty = true ∧
      (tokenize source).Pairwise (fun first second =>
        first.span.start ≤ second.span.start ∧ first.span.stop ≤ second.span.stop) ∧
      (∀ token ∈ tokenize source,
        token.span.start ≤ token.span.stop ∧ token.span.length?.isSome = true) ∧
      ∀ stmt ∈ (parse source).1.statements, ∀ token ∈ stmt.nodeTokens,
        (∃ piece ∈ pieces, token = piece.token) ∧
          token.span.start ≤ token.span.stop ∧ token.span.length?.isSome = true := by
  obtain ⟨pieces, laid, tokens_eq⟩ := exists_laidOut 0 (bytesOf source)
  have tokenize_eq : tokenize source =
      pieces.map PlacedLexeme.token ++ [.endOfInput source.utf8ByteSize] :=
    congrArg (· ++ [Token.endOfInput source.utf8ByteSize]) tokens_eq
  have in_order {token : Token} (mem : token ∈ tokenize source) :
      token.span.start ≤ token.span.stop ∧ token.span.length?.isSome = true := by
    have le := laid.start_le_stop (tokenize_eq ▸ mem)
    exact ⟨le, Span.isSome_length?_iff.mpr le⟩
  have end_length := Span.length?_ofOffsets (Nat.le_refl source.utf8ByteSize)
  rw [Nat.sub_self] at end_length
  refine ⟨pieces, laid, tokenize_eq, fun piece mem => ⟨?_, laid.covered_eq mem,
    laid.span_of_stop_le mem⟩, end_length, decide_eq_true rfl, tokenize_eq ▸ laid.pairwise_le,
    fun token mem => in_order mem, fun stmt stmt_mem token mem => ?_⟩
  · obtain ⟨-, -, -, -, wellFormed⟩ := laid.of_mem mem
    exact wellFormed.kind_ne_endOfInput
  · have token_mem : token ∈ (Lexer.ofString source).tokens :=
      nodeTokens_subset_of_mem_statements stmt_mem mem
    refine ⟨?_, in_order (List.mem_append_left _ token_mem)⟩
    obtain ⟨piece, piece_mem, rfl⟩ := List.mem_map.mp (tokens_eq ▸ token_mem)
    exact ⟨piece, piece_mem, rfl⟩

end MonkeySyntax
