import MonkeySyntax.Proofs.Soundness
import MonkeySyntax.Proofs.Threshold

/-!
# The language of expressions

Reading an expression at a binding power accepts exactly the words of the stratum that the power
stands for, in front of a token that does not bind them, and builds the tree that the grammar
gives.  The limit on nesting is the only reason to refuse such a word, and it refuses none with
fewer tokens than there are free levels.
-/

namespace MonkeySyntax

namespace Parse

/-- What a successful reading has passed is derived, and what follows does not bind it. -/
theorem derives_of_run_expression {room : Nat} {power : BindingPower} {stream after : TokenStream}
    {expr : Expr} (read : (expression room power).run stream = (.ok expr, after)) :
    ∃ passed last rest, stream.tokens = passed ++ last :: rest ∧
      after = ⟨last :: rest, stream.size⟩ ∧ Derives (.ofPower power) (passed ++ [last]) expr ∧
      RuleTable.monkey.power after.peek.kind ≤ power := by
  obtain ⟨left, rfl, ⟨passed, last, rest, tokens_eq, rfl, derived⟩, followed⟩ :=
    (sound_expression room power stream.tokens (.endOfInput stream.size) (.inr rfl)).of_run read
  refine ⟨passed, last, rest, tokens_eq, rfl, derived, ?_⟩
  simpa [Followed, TokenStream.peek, TokenStream.current, TokenStream.advance] using followed

end Parse

/-- What an expression reader accepts is derived from the stratum of its power, up to a token that
does not bind it.  And a word of that stratum in front of such a token is read to its last token,
unless it has more tokens than levels are free and the failure is that it nests too deep. -/
theorem expression_reads_grammar (parser : Parser) (power : BindingPower) :
    (∀ expr after, parser.expression power = (.ok expr, after) →
      ∃ passed last rest, parser.stream.tokens = passed ++ last :: rest ∧
        after = { parser with stream := ⟨last :: rest, parser.stream.size⟩ } ∧
        Derives (.ofPower power) (passed ++ [last]) expr ∧ after.peekPower ≤ power) ∧
    (power < .call → ∀ passed last rest expr,
      parser.stream.tokens = passed ++ last :: rest →
      Derives (.ofPower power) (passed ++ [last]) expr →
      ∀ after : Parser, after = { parser with stream := ⟨last :: rest, parser.stream.size⟩ } →
      after.peekPower ≤ power →
        parser.expression power = (.ok expr, after) ∨
          maxDepth < parser.depth + (passed ++ [last]).length ∧
            ∃ position final, parser.expression power =
              (.error ⟨.tooDeep maxDepth, position⟩, final)) := by
  constructor
  · intro expr after read
    obtain ⟨outcome_eq, after_eq⟩ := Prod.mk.inj read
    obtain ⟨passed, last, rest, tokens_eq, stream_eq, derived, stops⟩ :=
      Parse.derives_of_run_expression (Prod.ext outcome_eq rfl)
    subst after_eq
    exact ⟨passed, last, rest, tokens_eq,
      congrArg (fun stream => { parser with stream }) stream_eq, derived, stops⟩
  · rintro below_call passed last rest expr tokens_eq derived after rfl stops
    obtain ⟨_, count, levels, reads⟩ := Parse.exists_reads derived
    obtain rfl := Option.some.inj (List.getLast?_concat.symm.trans reads.last_eq)
    have stream_eq : TokenStream.prepend ⟨rest, parser.stream.size⟩ (passed ++ [last]) =
        parser.stream := by
      simp [TokenStream.prepend, ← tokens_eq]
    have needs : Parse.Needs (fun room => Parse.expression room power) levels
        (TokenStream.prepend ⟨rest, parser.stream.size⟩ (passed ++ [last])) expr
        ⟨last :: rest, parser.stream.size⟩ := reads.needs below_call (Nat.le_refl _) stops
    rw [stream_eq] at needs
    by_cases enough : levels ≤ parser.room
    · left
      have run_eq := needs.enough parser.room enough
      simp only [Parser.expression, Parser.perform, Parser.nested, run_eq]
    · right
      obtain ⟨position, final, run_eq⟩ := needs.tooFew parser.room (Nat.lt_of_not_le enough)
      have levels_le := reads.levels_le
      refine ⟨by simp only [Parser.room] at enough; omega, position,
        { parser with stream := final }, ?_⟩
      simp only [Parser.expression, Parser.perform, Parser.nested, run_eq]

/-- A minus sign takes in the call behind it, and a product ends in front of a comparison. -/
theorem expression_reads_negated_call :
    ∃ expr after, (Parser.ofString "-f(x) * 2 < y;").expression .sum = (.ok expr, after) ∧
      ∃ passed last rest,
        (Parser.ofString "-f(x) * 2 < y;").stream.tokens = passed ++ last :: rest ∧
        Derives .product (passed ++ [last]) expr ∧ after.peekPower ≤ .sum ∧
        ((Parser.ofString "-f(x) * 2 < y;").expression .sum = (.ok expr, after) ∨
          maxDepth < (passed ++ [last]).length) := by
  have read : (Parser.ofString "-f(x) * 2 < y;").expression .sum =
      (.ok
        (.binary ⟨.asterisk, "*", .ofOffsets 6 7⟩ "*"
          (.unary ⟨.minus, "-", .ofOffsets 0 1⟩ "-"
            (.call ⟨.openParen, "(", .ofOffsets 2 3⟩
              (.identifier ⟨⟨.identifier, "f", .ofOffsets 1 2⟩, "f"⟩)
              [.identifier ⟨⟨.identifier, "x", .ofOffsets 3 4⟩, "x"⟩]))
          (.integer ⟨.integer, "2", .ofOffsets 8 9⟩ 2)),
        { stream := ⟨[⟨.integer, "2", .ofOffsets 8 9⟩, ⟨.less, "<", .ofOffsets 10 11⟩,
            ⟨.identifier, "y", .ofOffsets 12 13⟩, ⟨.semicolon, ";", .ofOffsets 13 14⟩], 14⟩ }) := by
    decide +kernel
  obtain ⟨sound, complete⟩ := expression_reads_grammar (Parser.ofString "-f(x) * 2 < y;") .sum
  obtain ⟨passed, last, rest, tokens_eq, after_eq, derived, stops⟩ := sound _ _ read
  refine ⟨_, _, read, passed, last, rest, tokens_eq, derived, stops, ?_⟩
  rcases complete (by decide) passed last rest _ tokens_eq derived _ after_eq stops with
    accepted | ⟨too_long, _⟩
  · exact .inl accepted
  · right
    rwa [show (Parser.ofString "-f(x) * 2 < y;").depth = 0 from rfl, Nat.zero_add] at too_long

end MonkeySyntax
