import Mathlib.Data.List.Basic
import MonkeySyntax.Proofs.Confinement
import MonkeySyntax.Proofs.Grammar

/-!
# Expressions that are read are derived

Reading an expression never goes beyond a semicolon or the end of the input, and a success covers a
word that the grammar derives.  Each way to begin or to continue an expression has one lemma, under
the assumption that nested expressions are read in this way; the recursion on the free levels
removes the assumption.
-/

namespace MonkeySyntax

/-- A token behind which no expression and no statement goes on. -/
def Token.Ends (token : Token) : Prop :=
  token.kind = .semicolon ∨ token.kind = .endOfInput

namespace Token.Ends

variable {token : Token}

theorem kind_ne_comma (ends : token.Ends) : token.kind ≠ .comma := by
  rcases ends with kind | kind <;> simp [kind]

theorem kind_ne_closeParen (ends : token.Ends) : token.kind ≠ .closeParen := by
  rcases ends with kind | kind <;> simp [kind]

theorem operand?_eq_none (ends : token.Ends) : RuleTable.monkey.operand? token.kind = none := by
  rcases ends with kind | kind <;> rw [kind] <;> rfl

theorem power_eq_lowest (ends : token.Ends) : RuleTable.monkey.power token.kind = .lowest := by
  rcases ends with kind | kind <;> rw [kind] <;> rfl

end Token.Ends

/-- `expr` belongs to `stratum` and is read off `word` up to the first token of `left`. -/
def Covers (stratum : Stratum) (word : List Token) (expr : Expr) (left : List Token) : Prop :=
  ∃ used last after,
    word = used ++ last :: after ∧ left = last :: after ∧ Derives stratum (used ++ [last]) expr

/-- The token behind the first token of `left`, where `behind` stands behind all of `left`, binds
an operand no more tightly than `power`. -/
def Followed (power : BindingPower) (left : List Token) (behind : Token) : Prop :=
  RuleTable.monkey.power (left.tail.headD behind).kind ≤ power

namespace Parse

/-- A reader of nested expressions reads what the grammar derives, and is confined to it. -/
def Sound (nested : BindingPower → Parse Expr) : Prop :=
  ∀ power word behind, behind.Ends → Confined (nested power) word behind fun expr left =>
    Covers (.ofPower power) word expr left ∧ Followed power left behind

section

variable {nested : BindingPower → Parse Expr} {opening last operator behind : Token}
  {word tail : List Token} {left : Expr} {stratum : Stratum}

/-! ### Operands -/

theorem confined_primary {step : Parse Expr} {token : Token} {expr : Expr}
    (derived : Derives .primary [token] expr)
    (confined : Confined step (token :: tail) behind fun value left =>
      value = expr ∧ left = token :: tail) :
    Confined step (token :: tail) behind fun value left =>
      Covers .primary (token :: tail) value left :=
  confined.mono fun _ _ ⟨value_eq, left_eq⟩ =>
    ⟨[], token, tail, rfl, left_eq, value_eq ▸ derived⟩

theorem confined_identifier {token : Token} (kind : token.kind = .identifier) :
    Confined identifier (token :: tail) behind fun expr left =>
      Covers .primary (token :: tail) expr left :=
  confined_primary (.identifier kind) (.current_bind (.pure ⟨rfl, rfl⟩))

theorem confined_integer {token : Token} (kind : token.kind = .integer) :
    Confined integer (token :: tail) behind fun expr left =>
      Covers .primary (token :: tail) expr left := by
  apply Confined.current_bind
  simp only [List.headD_cons]
  split
  · next value found =>
      obtain ⟨numeral, small⟩ := integerValue?_eq_some_iff.mp found
      exact confined_primary (.integer kind numeral small) (.pure ⟨rfl, rfl⟩)
  · exact .fail _

theorem confined_boolean {token : Token} (kind : token.kind = .trueWord ∨ token.kind = .falseWord) :
    Confined boolean (token :: tail) behind fun expr left =>
      Covers .primary (token :: tail) expr left := by
  have derived : Derives .primary [token] (.boolean token (token.kind = .trueWord)) := by
    rcases kind with kind | kind
    · simpa [kind] using Derives.trueWord kind
    · simpa [kind] using Derives.falseWord kind
  exact confined_primary derived (.current_bind (.pure ⟨rfl, rfl⟩))

theorem confined_unary (sound : Sound nested) (ends : behind.Ends)
    (kind : operator.kind = .bang ∨ operator.kind = .minus) :
    Confined (unary nested) (operator :: tail) behind fun expr left =>
      Covers .unary (operator :: tail) expr left ∧ Followed .unary left behind := by
  refine .current_bind ?_
  refine .advance_bind ?_
  refine (sound .unary tail behind ends).bind fun right left _ ⟨covers, followed⟩ => ?_
  refine .pure ?_
  obtain ⟨used, last, after, rfl, left_eq, derived⟩ := covers
  exact ⟨⟨operator :: used, last, after, rfl, left_eq, .unary kind derived⟩, followed⟩

theorem confined_group (sound : Sound nested) (ends : behind.Ends)
    (opens : opening.kind = .openParen) :
    Confined (group nested) (opening :: tail) behind fun expr left =>
      Covers .primary (opening :: tail) expr left := by
  apply Confined.advance_bind
  refine (sound .lowest tail behind ends).bind fun expr left _ ⟨covers, _⟩ => ?_
  obtain ⟨used, last, after, rfl, rfl, derived⟩ := covers
  refine .expect_bind fun closes => ?_
  cases after with
  | nil => exact absurd closes ends.kind_ne_closeParen
  | cons closing after =>
      exact .pure ⟨opening :: (used ++ [last]), closing, after, by simp, rfl,
        .group opens derived closes⟩

theorem confined_operand (sound : Sound nested) (ends : behind.Ends) (word : List Token) :
    Confined (operand nested) word behind fun expr left =>
      ∃ stratum : Stratum, Stratum.unary.rank ≤ stratum.rank ∧ Covers stratum word expr left ∧
        Followed stratum.power left behind := by
  apply Confined.current_bind
  cases word with
  | nil =>
      rw [List.headD_nil, ends.operand?_eq_none]
      exact .fail _
  | cons token tail =>
      have primary {step : Parse Expr} (confined : Confined step (token :: tail) behind
          fun expr left => Covers .primary (token :: tail) expr left) :=
        confined.mono fun expr left covers =>
          (⟨.primary, by decide, covers, BindingPower.le_call _⟩ : ∃ stratum : Stratum,
            Stratum.unary.rank ≤ stratum.rank ∧ Covers stratum (token :: tail) expr left ∧
              Followed stratum.power left behind)
      rw [List.headD_cons]
      split
      · next rule found =>
          have kind_mem := RuleTable.operand?_eq_some_iff.mp found
          cases rule with
          | identifier => exact primary (confined_identifier (List.mem_singleton.mp kind_mem))
          | integer => exact primary (confined_integer (List.mem_singleton.mp kind_mem))
          | boolean => exact primary (confined_boolean (List.mem_pair.mp kind_mem))
          | unary =>
              exact (confined_unary sound ends (List.mem_pair.mp kind_mem)).mono
                fun _ _ read => ⟨.unary, Nat.le_refl _, read⟩
          | group => exact primary (confined_group sound ends (List.mem_singleton.mp kind_mem))
      · exact .fail _

/-! ### Folds -/

theorem confined_binary (sound : Sound nested) (ends : behind.Ends)
    (covers : Covers stratum word left (last :: operator :: tail))
    (kind : operator.kind ∈ stratum.operators)
    (power_eq : RuleTable.monkey.power operator.kind = stratum.power) :
    Confined (binary nested left) (operator :: tail) behind fun expr rest =>
      Covers stratum word expr rest ∧ Followed stratum.power rest behind := by
  refine .current_bind ?_
  refine .advance_bind ?_
  rw [List.headD_cons, power_eq]
  refine (sound stratum.power tail behind ends).bind fun right rest _ ⟨right_covers, followed⟩ =>
    .pure ⟨?_, followed⟩
  obtain ⟨used, _, _, rfl, equal, first⟩ := covers
  obtain ⟨rfl, rfl⟩ := List.cons.inj equal
  obtain ⟨right_used, right_last, after, rfl, rest_eq, second⟩ := right_covers
  rw [Stratum.ofPower_power kind] at second
  refine ⟨used ++ last :: operator :: right_used, right_last, after, by simp, rest_eq, ?_⟩
  simpa using Derives.binary kind first second

/-- The elements after commas that follow `last`, which is the first token of `word`. -/
def CoversAfterCommas (last : Token) (word : List Token) (exprs : List Expr)
    (left : List Token) : Prop :=
  ∃ (elements : List (List Token × Expr)) (used inside after : List Token) (final : Token),
    word = used ++ final :: after ∧ left = final :: after ∧ used ++ [final] = last :: inside ∧
      AfterCommas (elements.map Prod.fst) inside ∧
      (∀ element ∈ elements, Derives .equality element.1 element.2) ∧
      exprs = elements.map Prod.snd

theorem confined_afterCommas (sound : Sound nested) (ends : behind.Ends) :
    Confined (afterCommas (nested .lowest)) (last :: tail) behind
      (CoversAfterCommas last (last :: tail)) := by
  induction length : tail.length using Nat.strongRecOn generalizing last tail with
  | ind length ih =>
      rw [afterCommas_eq]
      apply Confined.peek_bind
      split
      · next comma =>
          cases tail with
          | nil => exact absurd comma ends.kind_ne_comma
          | cons separator tail =>
              refine .advance_bind ?_
              refine .advance_bind ?_
              refine (sound .lowest tail behind ends).bind fun value left _ ⟨covers, _⟩ => ?_
              obtain ⟨used, next, after, rfl, rfl, derived⟩ := covers
              refine (ih after.length (by simp at length; omega) rfl).bind
                fun others left _ read => .pure ?_
              obtain ⟨elements, others_used, inside, rest, final, whole, left_eq, passed,
                separated, each, others_eq⟩ := read
              refine ⟨(used ++ [next], value) :: elements, last :: separator :: used ++ others_used,
                separator :: (used ++ [next]) ++ inside, rest, final, ?_, left_eq, ?_,
                .cons comma separated, ?_, ?_⟩
              · simp [whole]
              · simp [passed]
              · simpa using ⟨derived, fun word expr mem => each (word, expr) mem⟩
              · simp [others_eq]
      · exact .pure ⟨[], [], [], tail, last, rfl, rfl, rfl, .nil, by simp, rfl⟩

theorem confined_call (sound : Sound nested) (ends : behind.Ends)
    (covers : Covers .call word left (last :: opening :: tail))
    (opens : opening.kind = .openParen) :
    Confined (call nested left) (opening :: tail) behind fun expr rest =>
      Covers .call word expr rest := by
  obtain ⟨used, _, _, rfl, equal, callee⟩ := covers
  obtain ⟨rfl, rfl⟩ := List.cons.inj equal
  have arguments_read : Confined (arguments nested) (opening :: tail) behind fun exprs rest =>
      ∃ (elements : List (List Token × Expr)) (inside after : List Token) (closing : Token),
        tail = inside ++ closing :: after ∧ rest = closing :: after ∧
          closing.kind = .closeParen ∧ CommaSeparated (elements.map Prod.fst) inside ∧
          (∀ element ∈ elements, Derives .equality element.1 element.2) ∧
          exprs = elements.map Prod.snd := by
    refine .peek_bind ?_
    refine .advance_bind ?_
    split
    · next closes =>
        cases tail with
        | nil => exact absurd closes ends.kind_ne_closeParen
        | cons closing after =>
            exact .pure ⟨[], [], after, closing, rfl, rfl, closes, .nil, by simp, rfl⟩
    · refine (sound .lowest tail behind ends).bind fun first rest _ ⟨first_covers, _⟩ => ?_
      obtain ⟨first_used, first_last, first_after, rfl, rfl, derived⟩ := first_covers
      refine (confined_afterCommas sound ends).bind fun others rest _ read => ?_
      obtain ⟨elements, others_used, inside, after, final, whole, rfl, passed, separated, each,
        others_eq⟩ := read
      refine .expect_bind fun closes => ?_
      cases after with
      | nil => exact absurd closes ends.kind_ne_closeParen
      | cons closing after =>
          refine .pure ⟨(first_used ++ [first_last], first) :: elements,
            first_used ++ [first_last] ++ inside, after, closing, ?_, rfl, closes,
            .cons separated, ?_, ?_⟩
          · rw [whole]
            simpa using congrArg (· ++ closing :: after) passed
          · simpa using ⟨derived, fun word expr mem => each (word, expr) mem⟩
          · simp [others_eq]
  refine .current_bind (arguments_read.bind fun exprs rest _ read => .pure ?_)
  obtain ⟨elements, inside, after, closing, rfl, rest_eq, closes, separated, each, rfl⟩ := read
  refine ⟨used ++ last :: opening :: inside, closing, after, by simp, rest_eq, ?_⟩
  simpa using Derives.call callee opens separated each closes

/-- A fold extends what has been read, in the stratum of the token that it begins with. -/
theorem confined_fold {finer : Stratum} {next : Token} {rule : FoldRule} (sound : Sound nested)
    (ends : behind.Ends) (covers : Covers finer word left (last :: next :: tail))
    (binds : RuleTable.monkey.power next.kind ≤ finer.power)
    (found : RuleTable.monkey.fold? next.kind = some rule) :
    Confined (ofFoldRule nested left rule) (next :: tail) behind fun expr rest =>
      ∃ stratum : Stratum, RuleTable.monkey.power next.kind = stratum.power ∧
        Covers stratum word expr rest ∧ Followed stratum.power rest behind := by
  obtain ⟨used, last, after, word_eq, rest_eq, derived⟩ := covers
  cases rule with
  | binary =>
      obtain ⟨stratum, kind, power_eq⟩ := RuleTable.exists_stratum_of_binary found
      have ne_primary : stratum ≠ .primary := by
        rintro rfl
        simp [Stratum.operators] at kind
      have rank_le := Stratum.rank_le_of_power_le ne_primary (power_eq ▸ binds)
      have confined := confined_binary sound ends
        ⟨used, last, after, word_eq, rest_eq, derived.loosen rank_le⟩ kind power_eq
      exact confined.mono fun expr rest read => ⟨stratum, power_eq, read⟩
  | call =>
      have opens := RuleTable.fold?_eq_call_iff.mp found
      have power_eq : RuleTable.monkey.power next.kind = Stratum.call.power := by rw [opens]; rfl
      have rank_le := Stratum.rank_le_of_power_le (by decide) (power_eq ▸ binds)
      have confined := confined_call sound ends
        ⟨used, last, after, word_eq, rest_eq, derived.loosen rank_le⟩ opens
      exact confined.mono fun expr rest covers =>
        ⟨.call, power_eq, covers, BindingPower.le_call _⟩

end

/-! ### Expressions -/

theorem confined_foldAbove {power : BindingPower} {last behind : Token} {tail : List Token}
    (ends : behind.Ends) :
    Confined (foldAbove power) (last :: tail) behind fun found left => left = last :: tail ∧
      match found with
      | none => Followed power (last :: tail) behind
      | some rule => ∃ next rest, tail = next :: rest ∧
          power < RuleTable.monkey.power next.kind ∧
          RuleTable.monkey.fold? next.kind = some rule := by
  apply Confined.peek_bind
  split
  · next binds =>
      refine .pure ⟨rfl, ?_⟩
      cases found : RuleTable.monkey.fold? (tail.headD behind).kind with
      | none => exact absurd found (RuleTable.fold?_ne_none binds.2)
      | some rule =>
          cases tail with
          | nil =>
              rw [List.headD_nil, ends.power_eq_lowest] at binds
              exact absurd binds.2 (Nat.not_lt_zero _)
          | cons next rest => exact ⟨next, rest, rfl, binds.2, found⟩
  · next stops =>
      refine .pure ⟨rfl, ?_⟩
      by_cases semicolon : (tail.headD behind).kind = .semicolon
      · have power_eq : RuleTable.monkey.power (tail.headD behind).kind = .lowest := by
          rw [semicolon]; rfl
        change RuleTable.monkey.power (tail.headD behind).kind ≤ power
        exact power_eq.symm ▸ BindingPower.lowest_le power
      · exact BindingPower.le_of_not_lt fun binds => stops ⟨semicolon, binds⟩

/-- Reading folds keeps: what has been read so far belongs to a stratum that is tight enough for
the power asked for and for the token that follows. -/
theorem confined_folds {power : BindingPower} {behind last : Token} {word tail : List Token}
    {left : Expr} {stratum : Stratum} {room : Nat}
    (nested : ∀ inner < room, Sound (expression inner)) (ends : behind.Ends)
    (covers : Covers stratum word left (last :: tail))
    (tight : (Stratum.ofPower power).rank ≤ stratum.rank)
    (followed : Followed stratum.power (last :: tail) behind) :
    Confined (folds room power left) (last :: tail) behind fun expr rest =>
      Covers (.ofPower power) word expr rest ∧ Followed power rest behind := by
  have stop (stops : Followed power (last :: tail) behind) :
      Confined (Pure.pure left : Parse Expr) (last :: tail) behind fun expr rest =>
        Covers (.ofPower power) word expr rest ∧ Followed power rest behind := by
    obtain ⟨used, _, after, word_eq, rest_eq, derived⟩ := covers
    exact .pure ⟨⟨used, _, after, word_eq, rest_eq, derived.loosen tight⟩, stops⟩
  -- The stratum of what has been read changes with every fold; `tight` and `followed` carry over.
  induction room generalizing stratum left last tail with
  | zero =>
      rw [folds]
      refine (confined_foldAbove ends).bind fun found rest _ ⟨rest_eq, spec⟩ => ?_
      subst rest_eq
      cases found with
      | none => exact stop spec
      | some rule => exact .current_bind (.fail _)
  | succ room ih =>
      rw [folds]
      refine (confined_foldAbove ends).bind fun found rest _ ⟨rest_eq, spec⟩ => ?_
      subst rest_eq
      cases found with
      | none => exact stop spec
      | some rule =>
          obtain ⟨next, rest, rfl, binds, found⟩ := spec
          apply Confined.advance_bind
          refine (confined_fold (nested room (Nat.lt_succ_self room)) ends covers followed
            found).bind fun longer rest _ ⟨finer, power_eq, longer_covers, longer_followed⟩ => ?_
          have finer_tight := Stratum.rank_ofPower_le (power_eq ▸ binds)
          obtain ⟨used, last, after, word_eq, rfl, derived⟩ := longer_covers
          refine ih (fun inner lt => nested inner (Nat.lt_succ_of_lt lt))
            ⟨used, last, after, word_eq, rfl, derived⟩ finer_tight longer_followed fun stops => ?_
          exact .pure ⟨⟨used, last, after, word_eq, rfl, derived.loosen finer_tight⟩, stops⟩

/-- Whatever room there is, an expression that is read is derived, and reading it is confined. -/
theorem sound_expression (room : Nat) : Sound (expression room) := by
  induction room using Nat.strongRecOn with
  | ind room ih =>
      intro power word behind ends
      cases room with
      | zero =>
          rw [expression]
          exact .current_bind (.fail _)
      | succ room =>
          rw [expression]
          refine (confined_operand (ih room (Nat.lt_succ_self room)) ends word).bind
            fun left rest _ ⟨stratum, rank_le, covers, followed⟩ => ?_
          obtain ⟨used, last, after, word_eq, rfl, derived⟩ := covers
          exact confined_folds (fun inner lt => ih inner (Nat.lt_succ_of_lt lt)) ends
            ⟨used, last, after, word_eq, rfl, derived⟩
            (Nat.le_trans (Stratum.rank_ofPower_le_unary power) rank_le) followed

end Parse

end MonkeySyntax
