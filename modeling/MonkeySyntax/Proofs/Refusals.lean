import Mathlib.Data.List.Nodup
import MonkeySyntax.Proofs.Expectation
import MonkeySyntax.Proofs.Isolation
import MonkeySyntax.Proofs.MaximalMunch

/-!
# Refusals at the first dead token

A reader that goes from left to right can refuse a word as soon as no statement begins with it.
The parser never refuses later than that: up to the token that a diagnostic points at, the tokens
of the segment are the front of a statement, and with that token they are the front of none.  Only
a want of levels is found elsewhere.
-/

namespace MonkeySyntax

open Expectation

/-- A diagnostic reports a want of levels, or it points at the first token of `whole` that
disappoints an expectation, behind a front on which something can follow. -/
def FirstDead (begins : List Token → Prop) (expected : Expectation) (whole : List Token)
    (diagnostic : Diagnostic) : Prop :=
  diagnostic.cause = .tooDeep maxDepth ∨
    ∃ front found after, whole = front ++ found :: after ∧
      found.span.start = diagnostic.position ∧ begins front ∧
      expected.afterAll (front ++ [found]) = none

/-- The first token of a word with one more token behind it. -/
theorem exists_append_singleton_eq_cons (word : List Token) (behind : Token) :
    ∃ rest, word ++ [behind] = word.headD behind :: rest := by
  cases word with
  | nil => exact ⟨[], rfl⟩
  | cons token tail => exact ⟨tail ++ [behind], rfl⟩

namespace FirstDead

variable {begins longer : List Token → Prop} {expected earlier next : Expectation}
  {used front tail whole : List Token} {first behind : Token} {diagnostic : Diagnostic}

/-- The token behind a front is dead if it is not expected there. -/
theorem stuck (cause : SyntaxError) (whole_eq : whole = front ++ (tail ++ [behind]))
    (begun : begins front) (read : expected.afterAll front = some next)
    (dead : next.after (tail.headD behind) = none) :
    FirstDead begins expected whole ⟨cause, (tail.headD behind).span.start⟩ := by
  obtain ⟨after, split⟩ := exists_append_singleton_eq_cons tail behind
  refine .inr ⟨front, _, after, by rw [whole_eq, split], rfl, begun, ?_⟩
  rw [afterAll_append read, afterAll, dead]
  rfl

/-- What is dead behind some tokens is dead in the word with these tokens in front. -/
theorem extend (dead : FirstDead begins expected tail diagnostic) (whole_eq : whole = used ++ tail)
    (read : earlier.afterAll used = some expected)
    (extends_front : ∀ front, begins front → longer (used ++ front)) :
    FirstDead longer earlier whole diagnostic := by
  obtain too_deep | ⟨front, found, after, rfl, start_eq, begun, disappoints⟩ := dead
  · exact .inl too_deep
  · refine .inr ⟨used ++ front, found, after, by simp [whole_eq], start_eq,
      extends_front front begun, ?_⟩
    rw [List.append_assoc, afterAll_append read, disappoints]

theorem mono (dead : FirstDead begins expected whole diagnostic)
    (weaken : ∀ front, begins front → longer front) :
    FirstDead longer expected whole diagnostic :=
  dead.extend (List.nil_append whole).symm rfl weaken

/-- Two expectations that agree on the words with some first token have the same dead tokens in
these words. -/
theorem reread (dead : FirstDead begins expected (first :: tail) diagnostic)
    (agree : ∀ word, earlier.afterAll (first :: word) = expected.afterAll (first :: word)) :
    FirstDead begins earlier (first :: tail) diagnostic := by
  obtain too_deep | ⟨front, found, after, split, start_eq, begun, disappoints⟩ := dead
  · exact .inl too_deep
  · refine .inr ⟨front, found, after, split, start_eq, begun, ?_⟩
    cases front with
    | nil =>
        obtain ⟨rfl, -⟩ := List.cons.inj split
        rw [List.nil_append, agree]
        exact disappoints
    | cons head front =>
        obtain ⟨rfl, -⟩ := List.cons.inj split
        rw [List.cons_append, agree]
        exact disappoints

end FirstDead

namespace Parse

variable {α β : Type}

/-- On `word` followed by the token `behind`, a step fails for no other reason. -/
def RefusesOnly (step : Parse α) (word : List Token) (behind : Token)
    (reason : Diagnostic → Prop) : Prop :=
  ∀ rest : TokenStream, rest.current = behind → ∀ diagnostic after,
    step.run (rest.prepend word) = (.error diagnostic, after) → reason diagnostic

namespace RefusesOnly

variable {word tail : List Token} {token behind : Token} {reason : Diagnostic → Prop}

theorem pure (value : α) : RefusesOnly (Pure.pure value : Parse α) word behind reason := by
  intro rest current_eq diagnostic after run_eq
  exact absurd (Prod.mk.inj run_eq).1 nofun

theorem fail {diagnostic : Diagnostic} (holds : reason diagnostic) :
    RefusesOnly (Parse.fail diagnostic : Parse α) word behind reason := by
  intro rest current_eq other after run_eq
  obtain ⟨equal, -⟩ := Prod.mk.inj run_eq
  exact Except.error.inj equal ▸ holds

theorem mono {step : Parse α} {wider : Diagnostic → Prop}
    (refuses : RefusesOnly step word behind reason)
    (weaken : ∀ diagnostic, reason diagnostic → wider diagnostic) :
    RefusesOnly step word behind wider :=
  fun rest current_eq diagnostic after run_eq =>
    weaken diagnostic (refuses rest current_eq diagnostic after run_eq)

/-- A step after another fails as the first one does, or as it does on what that one leaves. -/
theorem bind {first : Parse β} {second : β → Parse α} {between : β → List Token → Prop}
    (refuses : RefusesOnly first word behind reason) (read : Confined first word behind between)
    (later : ∀ value left, left <:+ word → between value left →
      RefusesOnly (second value) left behind reason) :
    RefusesOnly (first >>= second) word behind reason := by
  intro rest current_eq diagnostic after run_eq
  obtain ⟨outcome, left, suffix, holds, run_first⟩ := read
  have first_eq := run_first rest current_eq
  rw [run_bind, first_eq] at run_eq
  cases outcome with
  | error diagnostic' =>
      obtain ⟨equal, -⟩ := Prod.mk.inj run_eq
      rw [Except.error.inj equal] at first_eq
      exact refuses rest current_eq diagnostic _ first_eq
  | ok value =>
      exact later value left suffix (holds value rfl) rest current_eq diagnostic after run_eq

/-- What is made of a value does not matter for the failures. -/
theorem bind_pure {first : Parse β} {make : β → α}
    (refuses : RefusesOnly first word behind reason) :
    RefusesOnly (first >>= fun value => Pure.pure (make value)) word behind reason := by
  intro rest current_eq diagnostic after run_eq
  rw [run_bind] at run_eq
  rcases read : first.run (rest.prepend word) with ⟨failed | value, left⟩
  · rw [read] at run_eq
    obtain ⟨equal, -⟩ := Prod.mk.inj run_eq
    exact refuses rest current_eq diagnostic left (Except.error.inj equal ▸ read)
  · rw [read] at run_eq
    exact absurd (Prod.mk.inj run_eq).1 nofun

theorem current_bind {next : Token → Parse α}
    (later : RefusesOnly (next (word.headD behind)) word behind reason) :
    RefusesOnly (current >>= next) word behind reason := by
  intro rest current_eq diagnostic after run_eq
  rw [run_bind, run_current, TokenStream.current_prepend, current_eq] at run_eq
  exact later rest current_eq diagnostic after run_eq

theorem peek_bind {next : Token → Parse α}
    (later : RefusesOnly (next (tail.headD behind)) (token :: tail) behind reason) :
    RefusesOnly (peek >>= next) (token :: tail) behind reason := by
  intro rest current_eq diagnostic after run_eq
  rw [run_bind, run_peek, TokenStream.peek_prepend_cons, current_eq] at run_eq
  exact later rest current_eq diagnostic after run_eq

theorem advance_bind {next : Unit → Parse α} (later : RefusesOnly (next ()) tail behind reason) :
    RefusesOnly (advance >>= next) (token :: tail) behind reason := by
  intro rest current_eq diagnostic after run_eq
  rw [run_bind, run_advance, TokenStream.advance_prepend_cons] at run_eq
  exact later rest current_eq diagnostic after run_eq

/-- Where another token is expected, the token that is there is the reason. -/
theorem expect_bind {kind : Token.Kind} {next : Unit → Parse α}
    (stops : (tail.headD behind).kind ≠ kind → reason
      ⟨.unexpectedToken kind (tail.headD behind).kind, (tail.headD behind).span.start⟩)
    (later : (tail.headD behind).kind = kind → RefusesOnly (next ()) tail behind reason) :
    RefusesOnly (expect kind >>= next) (token :: tail) behind reason := by
  intro rest current_eq diagnostic after run_eq
  rw [run_bind, expect, run_bind, run_peek, TokenStream.peek_prepend_cons, current_eq] at run_eq
  by_cases kind_eq : (tail.headD behind).kind = kind
  · simp only [if_pos kind_eq] at run_eq
    exact later kind_eq rest current_eq diagnostic after run_eq
  · simp only [if_neg kind_eq] at run_eq
    obtain ⟨equal, -⟩ := Prod.mk.inj run_eq
    exact Except.error.inj equal ▸ stops kind_eq

theorem tooDeep {begins : List Token → Prop} {expected : Expectation} {whole : List Token} :
    RefusesOnly (Parse.tooDeep : Parse α) word behind (FirstDead begins expected whole) :=
  current_bind (fail (.inl rfl))

end RefusesOnly

/-- A reader of nested expressions refuses a word at its first dead token. -/
def Prompt (nested : BindingPower → Parse Expr) : Prop :=
  ∀ power word behind enclosing, behind.Ends → RefusesOnly (nested power) word behind
    (FirstDead (Begins (.ofPower power)) (.operand enclosing) (word ++ [behind]))

section

variable {nested : BindingPower → Parse Expr} {opening last operator token behind : Token}
  {word tail : List Token} {left : Expr} {stratum : Stratum} (enclosing : List Bracket)

/-- Where a parenthesis has to close, another token that does not go on is dead. -/
theorem after_operator_eq_none {bracket : Bracket} {enclosing : List Bracket}
    (loose : RuleTable.monkey.power token.kind ≤ .lowest) (ne : token.kind ≠ .closeParen)
    (ne_comma : bracket = .arguments → token.kind ≠ .comma) :
    (Expectation.operator (bracket :: enclosing)).after token = none := by
  rw [after_operator_of_power loose]
  cases bracket with
  | group => exact if_neg ne
  | arguments => rw [afterExpression, if_neg ne, if_neg (ne_comma rfl)]

/-! ### Operands -/

theorem refuses_integer (kind : token.kind = .integer) :
    RefusesOnly integer (token :: tail) behind
      (FirstDead (Begins .unary) (.operand enclosing) (token :: tail ++ [behind])) := by
  apply RefusesOnly.current_bind
  simp only [List.headD_cons]
  split
  · exact .pure _
  · next none_eq =>
      have dead : (Expectation.operand enclosing).after token = none := by
        rw [@after_operand _ _ .integer (List.mem_singleton.mpr kind), afterRule, none_eq]
        rfl
      have stuck := @FirstDead.stuck _ _ _ _ (token :: tail) _ behind
        (.notAnInteger token.literal) (List.nil_append _).symm (Begins.nil .unary) afterAll_nil dead
      exact .fail stuck

theorem refuses_unary (prompt : Prompt nested) (ends : behind.Ends)
    (kind : operator.kind = .bang ∨ operator.kind = .minus) :
    RefusesOnly (unary nested) (operator :: tail) behind
      (FirstDead (Begins .unary) (.operand enclosing) (operator :: tail ++ [behind])) := by
  have read : (Expectation.operand enclosing).afterAll [operator] = some (.operand enclosing) :=
    afterAll_operand .unary (List.mem_pair.mpr kind) rfl
  apply RefusesOnly.current_bind
  apply RefusesOnly.advance_bind
  refine .bind_pure (.mono (prompt .unary tail behind enclosing ends) fun diagnostic dead => ?_)
  exact dead.extend rfl read fun front begun => .unary kind begun

theorem refuses_group (prompt : Prompt nested) (sound : Sound nested) (ends : behind.Ends)
    (opens : opening.kind = .openParen) :
    RefusesOnly (group nested) (opening :: tail) behind
      (FirstDead (Begins .primary) (.operand enclosing) (opening :: tail ++ [behind])) := by
  have read : (Expectation.operand enclosing).afterAll [opening] =
      some (.operand (.group :: enclosing)) :=
    afterAll_operand .group (List.mem_singleton.mpr opens) rfl
  apply RefusesOnly.advance_bind
  refine .bind (.mono (prompt .lowest tail behind (.group :: enclosing) ends) fun _ dead => ?_)
    (sound .lowest tail behind ends) fun expr left _ ⟨covers, followed⟩ => ?_
  · exact dead.extend rfl read fun front begun => .group opens begun
  · obtain ⟨used, last, after, rfl, rfl, derived⟩ := covers
    refine .expect_bind (fun ne => ?_) fun _ => .pure _
    have whole_read : (Expectation.operand enclosing).afterAll ([opening] ++ (used ++ [last])) =
        some (.operator (.group :: enclosing)) := by
      rw [afterAll_append read, derived.afterAll]
    exact .stuck _ (by simp) (.group opens (.of_derives derived)) whole_read
      (after_operator_eq_none followed ne nofun)

theorem refuses_operand (prompt : Prompt nested) (sound : Sound nested) (ends : behind.Ends)
    (word : List Token) :
    RefusesOnly (operand nested) word behind
      (FirstDead (Begins .unary) (.operand enclosing) (word ++ [behind])) := by
  have none_begins (none_eq : RuleTable.monkey.operand? (word.headD behind).kind = none) (cause) :
      FirstDead (Begins .unary) (.operand enclosing) (word ++ [behind])
        ⟨cause, (word.headD behind).span.start⟩ :=
    .stuck cause (List.nil_append _).symm (.nil .unary) rfl (after_operand_eq_none none_eq)
  apply RefusesOnly.current_bind
  cases word with
  | nil =>
      have none_eq := ends.operand?_eq_none
      rw [List.headD_nil, none_eq]
      exact .fail (none_begins none_eq _)
  | cons token tail =>
      rw [List.headD_cons]
      split
      · next rule found =>
          have kind_mem := RuleTable.operand?_eq_some_iff.mp found
          cases rule with
          | identifier => exact .current_bind (.pure _)
          | integer => exact refuses_integer enclosing (List.mem_singleton.mp kind_mem)
          | boolean => exact .current_bind (.pure _)
          | unary => exact refuses_unary enclosing prompt ends (List.mem_pair.mp kind_mem)
          | group =>
              have opens := List.mem_singleton.mp kind_mem
              exact (refuses_group enclosing prompt sound ends opens).mono fun _ dead =>
                dead.mono fun _ begun => begun.loosen (by decide)
      · next none_eq => exact .fail (none_begins none_eq _)

/-! ### Folds -/

theorem refuses_binary (prompt : Prompt nested) (ends : behind.Ends)
    (covers : Covers stratum word left (last :: operator :: tail))
    (kind : operator.kind ∈ stratum.operators)
    (power_eq : RuleTable.monkey.power operator.kind = stratum.power) :
    RefusesOnly (binary nested left) (operator :: tail) behind
      (FirstDead (Begins stratum) (.operand enclosing) (word ++ [behind])) := by
  obtain ⟨used, _, _, rfl, equal, derived⟩ := covers
  obtain ⟨rfl, rfl⟩ := List.cons.inj equal
  have read : (Expectation.operand enclosing).afterAll ((used ++ [last]) ++ [operator]) =
      some (.operand enclosing) := by
    rw [afterAll_append (derived.afterAll enclosing), afterAll_cons (after_operator_binary kind)]
    rfl
  apply RefusesOnly.current_bind
  apply RefusesOnly.advance_bind
  rw [List.headD_cons, power_eq]
  refine .bind_pure (.mono (prompt stratum.power tail behind enclosing ends) fun _ dead => ?_)
  rw [Stratum.ofPower_power kind] at dead
  exact dead.extend (by simp) read fun front begun =>
    by simpa using Begins.binary kind derived begun

theorem refuses_afterCommas (prompt : Prompt nested) (sound : Sound nested) (ends : behind.Ends) :
    RefusesOnly (afterCommas (nested .lowest)) (last :: tail) behind
      (FirstDead BeginsAfterCommas (.operator (.arguments :: enclosing)) (tail ++ [behind])) := by
  induction size_eq : tail.length using Nat.strongRecOn generalizing last tail with
  | ind size ih =>
      rw [afterCommas_eq]
      apply RefusesOnly.peek_bind
      split
      · next comma =>
          cases tail with
          | nil => exact absurd comma ends.kind_ne_comma
          | cons separator tail =>
              have step := @after_operator_comma enclosing separator comma
              have read : (Expectation.operator (.arguments :: enclosing)).afterAll [separator] =
                  some (.operand (.arguments :: enclosing)) := afterAll_cons step
              apply RefusesOnly.advance_bind
              apply RefusesOnly.advance_bind
              refine .bind
                (.mono (prompt .lowest tail behind (.arguments :: enclosing) ends) fun _ dead => ?_)
                (sound .lowest tail behind ends) fun value left _ ⟨covers, _⟩ => ?_
              · exact dead.extend rfl read fun front begun => .first comma begun
              · obtain ⟨used, next, after, rfl, rfl, derived⟩ := covers
                have shorter : after.length < size := by
                  simp only [List.length_cons, List.length_append] at *
                  omega
                refine .bind_pure (.mono (ih after.length shorter rfl) fun _ dead => ?_)
                have read_element : (Expectation.operator (.arguments :: enclosing)).afterAll
                    ([separator] ++ (used ++ [next])) =
                      some (.operator (.arguments :: enclosing)) := by
                  rw [afterAll_append read, derived.afterAll]
                exact dead.extend (by simp) read_element fun front begun =>
                  by simpa using BeginsAfterCommas.cons comma derived begun
      · exact .pure _

/-- Behind an argument stands a token that does not bind it. -/
theorem confined_argument (sound : Sound nested) (ends : behind.Ends) (word : List Token) :
    Confined (nested .lowest) word behind fun _ left =>
      True ∧ left ≠ [] ∧ Followed .lowest left behind := by
  refine (sound .lowest word behind ends).mono fun expr left read => ?_
  obtain ⟨⟨used, last, after, -, rfl, -⟩, followed⟩ := read
  exact ⟨trivial, List.cons_ne_nil last after, followed⟩

theorem refuses_arguments (prompt : Prompt nested) (sound : Sound nested) (ends : behind.Ends) :
    RefusesOnly (arguments nested) (opening :: tail) behind
      (FirstDead BeginsArguments (.argument enclosing) (tail ++ [behind])) := by
  apply RefusesOnly.peek_bind
  apply RefusesOnly.advance_bind
  split
  · exact .pure _
  · next ne =>
      -- The argument list is not empty, so what is dead in an operand is dead in it.
      obtain ⟨others, split⟩ := exists_append_singleton_eq_cons tail behind
      suffices refuses : RefusesOnly _ tail behind (FirstDead BeginsArguments
          (.operand (.arguments :: enclosing)) (tail ++ [behind])) by
        rw [split] at refuses ⊢
        exact refuses.mono fun _ dead => dead.reread fun _ => afterAll_argument ne
      refine .bind
        (.mono (prompt .lowest tail behind (.arguments :: enclosing) ends) fun _ dead => ?_)
        (sound .lowest tail behind ends) fun value left _ ⟨covers, followed⟩ => ?_
      · exact dead.mono fun front begun => .first begun
      · obtain ⟨used, last, after, rfl, rfl, derived⟩ := covers
        have read := derived.afterAll (.arguments :: enclosing)
        have each (word : List Token) := confined_argument sound ends word
        refine .bind (.mono (refuses_afterCommas enclosing prompt sound ends) fun _ dead => ?_)
          ((confined_afterCommas sound ends).and
            (Confined.afterCommas ends.kind_ne_comma each followed))
          fun values left _ ⟨covers, _, _, loose, ne_comma⟩ => ?_
        · exact dead.extend (by simp) read fun front begun => .cons derived begun
        · obtain ⟨elements, others_used, inside, rest, final, whole, rfl, passed, separated, each,
            -⟩ := covers
          refine .expect_bind (fun ne_close => ?_) fun _ => .pure _
          have others_read := @afterAll_afterCommas enclosing _ _ separated fun word mem => by
            obtain ⟨element, element_mem, rfl⟩ := List.mem_map.mp mem
            exact (each element element_mem).afterAll
          have whole_read : (Expectation.operand (.arguments :: enclosing)).afterAll
              (used ++ [last] ++ inside) = some (.operator (.arguments :: enclosing)) := by
            rw [afterAll_append read, others_read]
          have whole_eq : used ++ last :: after ++ [behind] =
              used ++ [last] ++ inside ++ (rest ++ [behind]) := by
            rw [whole]
            simpa using congrArg (used ++ · ++ rest ++ [behind]) passed
          exact .stuck _ whole_eq (.cons derived (.of_afterCommas separated each)) whole_read
            (after_operator_eq_none loose ne_close fun _ => ne_comma)

theorem refuses_call (prompt : Prompt nested) (sound : Sound nested) (ends : behind.Ends)
    (covers : Covers .call word left (last :: opening :: tail))
    (opens : opening.kind = .openParen) :
    RefusesOnly (call nested left) (opening :: tail) behind
      (FirstDead (Begins .call) (.operand enclosing) (word ++ [behind])) := by
  obtain ⟨used, _, _, rfl, equal, derived⟩ := covers
  obtain ⟨rfl, rfl⟩ := List.cons.inj equal
  have read : (Expectation.operand enclosing).afterAll ((used ++ [last]) ++ [opening]) =
      some (.argument enclosing) := by
    rw [afterAll_append (derived.afterAll enclosing), afterAll_cons (after_operator_call opens)]
    rfl
  apply RefusesOnly.current_bind
  refine .bind_pure (.mono (refuses_arguments enclosing prompt sound ends) fun _ dead => ?_)
  exact dead.extend (by simp) read fun front begun =>
    by simpa using Begins.call derived opens begun

/-- A fold is refused where the operand with which it begins goes on in no way. -/
theorem refuses_fold {finer : Stratum} {power : BindingPower} {next : Token} {rule : FoldRule}
    (prompt : Prompt nested) (sound : Sound nested) (ends : behind.Ends)
    (covers : Covers finer word left (last :: next :: tail))
    (binds : RuleTable.monkey.power next.kind ≤ finer.power)
    (above : power < RuleTable.monkey.power next.kind)
    (found : RuleTable.monkey.fold? next.kind = some rule) :
    RefusesOnly (ofFoldRule nested left rule) (next :: tail) behind
      (FirstDead (Begins (.ofPower power)) (.operand enclosing) (word ++ [behind])) := by
  obtain ⟨used, last, after, word_eq, rest_eq, derived⟩ := covers
  cases rule with
  | binary =>
      obtain ⟨stratum, kind, power_eq⟩ := RuleTable.exists_stratum_of_binary found
      have ne_primary : stratum ≠ .primary := by
        rintro rfl
        simp [Stratum.operators] at kind
      have rank_le := Stratum.rank_le_of_power_le ne_primary (power_eq ▸ binds)
      have refuses := refuses_binary enclosing prompt ends
        ⟨used, last, after, word_eq, rest_eq, derived.loosen rank_le⟩ kind power_eq
      exact refuses.mono fun _ dead => dead.mono fun _ begun =>
        begun.loosen (Stratum.rank_ofPower_le (power_eq ▸ above))
  | call =>
      have opens := RuleTable.fold?_eq_call_iff.mp found
      have power_eq : RuleTable.monkey.power next.kind = Stratum.call.power := by rw [opens]; rfl
      have rank_le := Stratum.rank_le_of_power_le (by decide) (power_eq ▸ binds)
      have refuses := refuses_call enclosing prompt sound ends
        ⟨used, last, after, word_eq, rest_eq, derived.loosen rank_le⟩ opens
      exact refuses.mono fun _ dead => dead.mono fun _ begun =>
        begun.loosen (Stratum.rank_ofPower_le (power_eq ▸ above))

end

/-! ### Expressions -/

theorem refuses_foldAbove {power : BindingPower} {last behind : Token} {tail : List Token}
    {reason : Diagnostic → Prop} : RefusesOnly (foldAbove power) (last :: tail) behind reason := by
  apply RefusesOnly.peek_bind
  split
  · exact .pure _
  · exact .pure _

theorem refuses_folds {power : BindingPower} {behind last : Token} {word tail : List Token}
    {left : Expr} {stratum : Stratum} {room : Nat} (enclosing : List Bracket)
    (nested : ∀ inner < room, Prompt (expression inner)) (ends : behind.Ends)
    (covers : Covers stratum word left (last :: tail))
    (followed : Followed stratum.power (last :: tail) behind) :
    RefusesOnly (folds room power left) (last :: tail) behind
      (FirstDead (Begins (.ofPower power)) (.operand enclosing) (word ++ [behind])) := by
  -- The stratum of what has been read changes with every fold, as it does when folds are sound.
  induction room generalizing stratum left last tail with
  | zero =>
      rw [folds]
      refine .bind refuses_foldAbove (confined_foldAbove ends) fun found rest _ spec => ?_
      obtain ⟨rfl, -⟩ := spec
      cases found with
      | none => exact .pure _
      | some rule => exact .tooDeep
  | succ room ih =>
      rw [folds]
      refine .bind refuses_foldAbove (confined_foldAbove ends) fun found rest _ spec => ?_
      obtain ⟨rfl, spec⟩ := spec
      cases found with
      | none => exact .pure _
      | some rule =>
          obtain ⟨next, rest, rfl, above, found⟩ := spec
          apply RefusesOnly.advance_bind
          have sound := sound_expression room
          refine .bind (refuses_fold enclosing (nested room (Nat.lt_succ_self room)) sound ends
              covers followed above found) (confined_fold sound ends covers followed found)
            fun longer rest _ longer_read => ?_
          obtain ⟨finer, -, ⟨used, last, after, word_eq, rfl, derived⟩, longer_followed⟩ :=
            longer_read
          exact ih (fun inner lt => nested inner (Nat.lt_succ_of_lt lt))
            ⟨used, last, after, word_eq, rfl, derived⟩ longer_followed

/-- Whatever room there is, an expression is refused at its first dead token. -/
theorem prompt_expression (room : Nat) : Prompt (expression room) := by
  induction room using Nat.strongRecOn with
  | ind room ih =>
      intro power word behind enclosing ends
      cases room with
      | zero =>
          rw [expression]
          exact .tooDeep
      | succ room =>
          rw [expression]
          have prompt := ih room (Nat.lt_succ_self room)
          have sound := sound_expression room
          refine .bind (.mono (refuses_operand enclosing prompt sound ends word) fun _ dead => ?_)
            (confined_operand sound ends word) fun left rest _ read => ?_
          · exact dead.mono fun _ begun => begun.loosen (Stratum.rank_ofPower_le_unary power)
          · obtain ⟨stratum, -, ⟨used, last, after, word_eq, rfl, derived⟩, followed⟩ := read
            exact refuses_folds enclosing (fun inner lt => ih inner (Nat.lt_succ_of_lt lt)) ends
              ⟨used, last, after, word_eq, rfl, derived⟩ followed

/-! ### Statements -/

section

variable {room : Nat} {keyword behind : Token} {word tail : List Token}

theorem refuses_value (ends : behind.Ends) (make : Expr → Stmt) :
    RefusesOnly (do
        let value ← expression room .lowest
        expect .semicolon
        pure (make value)) word behind
      (FirstDead (Begins .equality) (.operand []) (word ++ [behind])) := by
  refine .bind (prompt_expression room .lowest word behind [] ends)
    (sound_expression room .lowest word behind ends) fun value left _ ⟨covers, followed⟩ => ?_
  obtain ⟨used, last, after, rfl, rfl, derived⟩ := covers
  refine .expect_bind (fun ne => ?_) fun _ => .pure _
  have dead : (Expectation.operator []).after (after.headD behind) = none :=
    (after_operator_of_power followed).trans (if_neg ne)
  exact .stuck _ (by simp) (.of_derives derived) (derived.afterAll []) dead

theorem refuses_binding (ends : behind.Ends) (keyword_kind : keyword.kind = .letWord) :
    RefusesOnly (binding room) (keyword :: tail) behind
      (FirstDead Completable .statement (keyword :: tail ++ [behind])) := by
  have keyword_read : Expectation.statement.afterAll [keyword] = some .name :=
    afterAll_cons (after_letWord keyword_kind)
  apply RefusesOnly.current_bind
  refine .expect_bind (fun ne => ?_) fun name_kind => ?_
  · have begun : Completable [keyword] := by
      obtain ⟨name, name_kind⟩ := Token.exists_kind_eq .identifier
      exact @Completable.of_append [keyword] [name] (.letWord keyword_kind name_kind)
    exact .stuck _ rfl begun keyword_read (if_neg ne)
  · cases tail with
    | nil => rcases ends with kind_eq | kind_eq <;> simp [kind_eq] at name_kind
    | cons name tail =>
        have name_read : Expectation.statement.afterAll [keyword, name] = some .assign := by
          rw [← List.singleton_append, afterAll_append keyword_read]
          exact afterAll_cons (after_name name_kind)
        apply RefusesOnly.current_bind
        refine .expect_bind (fun ne => ?_) fun assign_kind => ?_
        · exact .stuck _ rfl (.letWord keyword_kind name_kind) name_read (if_neg ne)
        · cases tail with
          | nil => rcases ends with kind_eq | kind_eq <;> simp [kind_eq] at assign_kind
          | cons assign tail =>
              have assign_read : Expectation.statement.afterAll ([keyword, name] ++ [assign]) =
                  some (.operand []) := by
                rw [afterAll_append name_read]
                exact afterAll_cons (after_assign assign_kind)
              apply RefusesOnly.advance_bind
              refine .mono (refuses_value ends _) fun _ dead => ?_
              exact dead.extend rfl assign_read fun front begun =>
                .binding keyword_kind name_kind assign_kind begun

theorem refuses_result (ends : behind.Ends) (keyword_kind : keyword.kind = .returnWord) :
    RefusesOnly (result room) (keyword :: tail) behind
      (FirstDead Completable .statement (keyword :: tail ++ [behind])) := by
  have keyword_read : Expectation.statement.afterAll [keyword] = some (.operand []) :=
    afterAll_cons (after_returnWord keyword_kind)
  apply RefusesOnly.current_bind
  apply RefusesOnly.advance_bind
  refine .mono (refuses_value ends _) fun _ dead => ?_
  exact dead.extend rfl keyword_read fun front begun => .result keyword_kind begun

/-- A word that begins with no keyword of a statement is refused as an expression is. -/
theorem refuses_expressionStatement (ends : behind.Ends)
    (none_eq : RuleTable.monkey.statement? (word.headD behind).kind = none) :
    RefusesOnly (expressionStatement room) word behind
      (FirstDead Completable .statement (word ++ [behind])) := by
  obtain ⟨rest, split⟩ := exists_append_singleton_eq_cons word behind
  apply RefusesOnly.current_bind
  refine .mono (refuses_value ends _) fun _ dead => ?_
  rw [split] at dead ⊢
  exact (dead.mono fun front begun => Completable.expression begun).reread fun _ =>
    afterAll_statement none_eq

/-- Whatever room there is, a statement is refused at its first dead token. -/
theorem refuses_statement (room : Nat) (word : List Token) (ends : behind.Ends) :
    RefusesOnly (statement room) word behind
      (FirstDead Completable .statement (word ++ [behind])) := by
  apply RefusesOnly.current_bind
  cases word with
  | nil =>
      have none_eq : RuleTable.monkey.statement? behind.kind = none := by
        rcases ends with kind_eq | kind_eq <;> rw [kind_eq] <;> rfl
      rw [List.headD_nil, none_eq]
      exact refuses_expressionStatement ends none_eq
  | cons first tail =>
      rw [List.headD_cons]
      split
      · next rule found =>
          have keyword_kind := RuleTable.statement?_eq_some_iff.mp found
          cases rule with
          | binding => exact refuses_binding ends keyword_kind
          | result => exact refuses_result ends keyword_kind
      · next none_eq => exact refuses_expressionStatement ends none_eq

end

end Parse

/-! ### Programs -/

section

variable {source : String} {diagnostic : Diagnostic}

theorem mem_diagnosticsOf {outcomes : List (Except Diagnostic Stmt)} :
    diagnostic ∈ diagnosticsOf outcomes ↔ .error diagnostic ∈ outcomes := by
  induction outcomes with
  | nil => simp [diagnosticsOf]
  | cons outcome outcomes ih => cases outcome <;> simp [ih]

/-- What stands before a segment ends with a semicolon, unless it is nothing. -/
theorem eq_nil_or_endsClosed {tokens segment : List Token} {before after : List (List Token)}
    (split : segments tokens = before ++ segment :: after) :
    before.flatten = [] ∨ endsClosed before.flatten := by
  rcases List.eq_nil_or_concat before with rfl | ⟨front, last, rfl⟩
  · exact .inl rfl
  · right
    rw [List.concat_eq_append] at split ⊢
    rw [List.append_assoc, List.singleton_append] at split
    rcases segment_cases split with ⟨word, semicolon, -, kind_eq, rfl⟩ | ⟨-, -, none_after⟩
    · rw [List.flatten_append, List.flatten_singleton, ← List.append_assoc,
        endsClosed_concat kind_eq]
    · contradiction

/-- A diagnostic on a source text is one on the tokens of a segment up to its end. -/
theorem exists_segment_of_diagnostic
    (mem : diagnostic ∈ (Parser.ofString source).program.2.diagnostics) :
    ∃ earlier word behind later, tokenize source = earlier ++ (word ++ [behind]) ++ later ∧
      (earlier = [] ∨ endsClosed earlier) ∧ IsPlain word ∧
      FirstDead Completable .statement (word ++ [behind]) diagnostic := by
  let tokens := (Lexer.ofString source).tokens
  let size := source.utf8ByteSize
  have stream_eq : (Parser.ofString source).stream = ⟨tokens, size⟩ :=
    congrArg (TokenStream.mk tokens) (size_ofString source)
  have read : (Parse.outcomes maxDepth ⟨tokens, size⟩).1 =
      (segments tokens).map fun segment => ((Parse.statement maxDepth).run ⟨segment, size⟩).1 := by
    rw [Parse.outcomes_eq maxDepth size fun token => Lexer.kind_ne_endOfInput]
  have error_mem : .error diagnostic ∈ (Parse.outcomes maxDepth ⟨tokens, size⟩).1 := by
    rw [← stream_eq]
    exact mem_diagnosticsOf.mp mem
  rw [read] at error_mem
  obtain ⟨segment, segment_mem, failed⟩ := List.mem_map.mp error_mem
  obtain ⟨before, after, split⟩ := List.append_of_mem segment_mem
  have tokens_eq : tokens = before.flatten ++ segment ++ after.flatten := by
    rw [← flatten_segments tokens, split]
    simp
  have closed := eq_nil_or_endsClosed split
  obtain ⟨left, run_eq⟩ : ∃ left, (Parse.statement maxDepth).run ⟨segment, size⟩ =
      (.error diagnostic, left) := ⟨_, Prod.ext failed rfl⟩
  rcases segment_cases split with ⟨word, semicolon, plain, kind_eq, rfl⟩ | ⟨plain, -, rfl⟩
  · refine ⟨before.flatten, word, semicolon, after.flatten ++ [.endOfInput size], ?_, closed, plain,
      ?_⟩
    · rw [tokenize, ← List.append_assoc, ← tokens_eq]
    · exact Parse.refuses_statement maxDepth word (.inl kind_eq) ⟨[semicolon], size⟩ rfl _ _ run_eq
  · refine ⟨before.flatten, segment, .endOfInput size, [], ?_, closed, plain, ?_⟩
    · rw [List.flatten_nil, List.append_nil] at tokens_eq
      rw [List.append_nil, ← List.append_assoc, ← tokens_eq, tokenize]
    · refine Parse.refuses_statement maxDepth segment (.inr rfl) ⟨[], size⟩ rfl _ left ?_
      rw [TokenStream.prepend, List.append_nil]
      exact run_eq

/-- No two tokens of a source text begin at one place. -/
theorem eq_of_start_eq {first second : Token} (small : source.utf8ByteSize ≤ maxOffset)
    (first_mem : first ∈ tokenize source) (second_mem : second ∈ tokenize source)
    (start_eq : first.span.start = second.span.start) : first = second := by
  have distinct : ((tokenize source).map fun token => token.span.start).Nodup :=
    List.pairwise_map.mpr ((pairwise_start_lt_tokenize small).imp fun lt equal =>
      Nat.ne_of_lt lt (congrArg Position.offset equal))
  exact List.inj_on_of_nodup_map distinct first_mem second_mem start_eq

/-- Every diagnostic that is not for want of levels points at the first dead token of its segment:
the tokens before it are the front of a statement, and with it they are the front of none. -/
theorem diagnostic_at_first_dead_token (source : String) :
    ∀ diagnostic ∈ (Parser.ofString source).program.2.diagnostics,
      (∀ limit, diagnostic.cause ≠ .tooDeep limit) →
      ∃ earlier front found later,
        tokenize source = earlier ++ front ++ found :: later ∧
        (earlier = [] ∨ endsClosed earlier) ∧ IsPlain front ∧
        found.span.start = diagnostic.position ∧
        (source.utf8ByteSize ≤ maxOffset → ∀ token ∈ tokenize source,
          token.span.start = diagnostic.position → token = found) ∧
        Completable front ∧ ¬ Completable (front ++ [found]) := by
  intro diagnostic mem levels_suffice
  obtain ⟨earlier, word, behind, later, split, closed, plain, dead⟩ :=
    exists_segment_of_diagnostic mem
  obtain too_deep | ⟨front, found, after, whole_eq, start_eq, completable, disappoints⟩ := dead
  · exact absurd too_deep (levels_suffice maxDepth)
  have plain_front : IsPlain front := by
    have word_eq := congrArg List.dropLast whole_eq
    rw [List.dropLast_concat, List.dropLast_append_of_ne_nil (List.cons_ne_nil _ _)] at word_eq
    exact (isPlain_append.mp (word_eq ▸ plain)).1
  have whole_split : tokenize source = earlier ++ front ++ found :: (after ++ later) := by
    rw [split, whole_eq]
    simp
  refine ⟨earlier, front, found, after ++ later, whole_split, closed, plain_front, start_eq,
    fun small token token_mem token_start => ?_, completable, not_completable disappoints⟩
  have found_mem : found ∈ tokenize source := by simp [whole_split]
  exact eq_of_start_eq small token_mem found_mem (token_start.trans start_eq.symm)

/-- After the first number only the parenthesis or an operator can follow. -/
theorem diagnostic_at_first_dead_token_comma :
    ∃ earlier front found later,
      tokenize "let x = (1, 2); a;" = earlier ++ front ++ found :: later ∧
      found.span.start = .ofOffset 10 ∧ Completable front ∧ ¬ Completable (front ++ [found]) := by
  have reported : ⟨.unexpectedToken .closeParen .comma, .ofOffset 10⟩ ∈
      (Parser.ofString "let x = (1, 2); a;").program.2.diagnostics := by decide +kernel
  obtain ⟨earlier, front, found, later, split, -, -, start_eq, -, completable, dead⟩ :=
    diagnostic_at_first_dead_token "let x = (1, 2); a;" _ reported nofun
  exact ⟨earlier, front, found, later, split, start_eq, completable, dead⟩

end

end MonkeySyntax
