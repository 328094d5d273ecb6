import Mathlib.Data.List.Forall2
import MonkeySyntax.Proofs.Confinement
import MonkeySyntax.Proofs.Grammar

/-!
# The levels that a word takes

Reading a word of the grammar succeeds if enough levels are free, and fails for want of levels if
not.  For an operand followed by folds, the count goes by the position of each fold: the levels of
a fold are wanted on top of the levels that the folds before it have used up.
-/

namespace MonkeySyntax

namespace TokenStream

theorem prepend_append (stream : TokenStream) (first second : List Token) :
    stream.prepend (first ++ second) = (stream.prepend second).prepend first := by
  simp [prepend]

end TokenStream

/-- Levels that are enough for each of several parts. -/
def mostLevels (levels : List Nat) : Nat :=
  levels.foldr max 0

namespace Parse

variable {α β : Type}

/-- A failure for want of levels. -/
def FailsTooDeep (result : Except Diagnostic α × TokenStream) : Prop :=
  ∃ position after, result = (.error ⟨.tooDeep maxDepth, position⟩, after)

theorem FailsTooDeep.bind {first : Parse α} {second : α → Parse β} {stream : TokenStream}
    (fails : FailsTooDeep (first.run stream)) : FailsTooDeep ((first >>= second).run stream) := by
  obtain ⟨position, after, run_eq⟩ := fails
  exact ⟨position, after, by rw [run_bind, run_eq]⟩

theorem failsTooDeep_tooDeep (stream : TokenStream) :
    FailsTooDeep ((tooDeep : Parse α).run stream) :=
  ⟨stream.current.span.start, stream, rfl⟩

/-- A step that depends on the free levels yields `value` if `levels` of them are free, and fails
for want of levels otherwise. -/
structure Needs (step : Nat → Parse α) (levels : Nat) (before : TokenStream) (value : α)
    (after : TokenStream) : Prop where
  enough : ∀ room, levels ≤ room → (step room).run before = (.ok value, after)
  tooFew : ∀ room, room < levels → FailsTooDeep ((step room).run before)

namespace Needs

variable {before between after : TokenStream} {value : α} {final : β} {levels : Nat}

theorem of_run {step : Nat → Parse α}
    (run_eq : ∀ room, (step room).run before = (.ok value, after)) :
    Needs step 0 before value after :=
  ⟨fun room _ => run_eq room, fun _ lt => absurd lt (Nat.not_lt_zero _)⟩

/-- Another step may run alike from another place. -/
theorem congr {step other : Nat → Parse α} {start : TokenStream}
    (needs : Needs step levels between value after)
    (run_eq : ∀ room, (other room).run start = (step room).run between) :
    Needs other levels start value after :=
  ⟨fun room le => (run_eq room).trans (needs.enough room le),
    fun room lt => (run_eq room).symm ▸ needs.tooFew room lt⟩

theorem bind {first : Nat → Parse α} {second : Nat → α → Parse β} {more : Nat}
    (earlier : Needs first levels before value between)
    (later : Needs (fun room => second room value) more between final after) :
    Needs (fun room => first room >>= second room) (max levels more) before final after := by
  constructor
  · intro room le
    rw [run_bind, earlier.enough room (by omega)]
    exact later.enough room (by omega)
  · intro room lt
    by_cases first_fails : room < levels
    · exact (earlier.tooFew room first_fails).bind
    · rw [FailsTooDeep, run_bind, earlier.enough room (by omega)]
      exact later.tooFew room (by omega)

/-- A step that always succeeds may precede. -/
theorem bind_left {first : Parse α} {second : Nat → α → Parse β}
    (run_eq : first.run before = (.ok value, between))
    (later : Needs (fun room => second room value) levels between final after) :
    Needs (fun room => first >>= second room) levels before final after := by
  have earlier : Needs (fun _ => first) 0 before value between := of_run fun _ => run_eq
  have whole := earlier.bind later
  rwa [Nat.zero_max] at whole

/-- A step that always succeeds may follow. -/
theorem bind_right {first : Nat → Parse α} {second : α → Parse β}
    (earlier : Needs first levels before value between)
    (run_eq : (second value).run between = (.ok final, after)) :
    Needs (fun room => first room >>= second) levels before final after := by
  have later : Needs (fun _ => second value) 0 between final after := of_run fun _ => run_eq
  have whole := @bind _ _ _ _ _ _ _ _ _ (fun _ => second) _ earlier later
  rwa [Nat.max_zero] at whole

end Needs

/-! ### Words -/

/-- An operand of a stratum may be read by an expression reader for `power` in front of `next`. -/
structure Suits (stratum : Stratum) (power : BindingPower) (next : Token) : Prop where
  below_call : power < .call
  tight : (Stratum.ofPower power).rank ≤ stratum.rank
  next_le : RuleTable.monkey.power next.kind ≤ stratum.power

/-- A word whose last token is `last` is read as `expr`, with `count` folds at its outermost level,
if `levels` levels are free, and it is not read for want of levels otherwise. -/
structure Reads (stratum : Stratum) (word : List Token) (last : Token) (expr : Expr)
    (count levels : Nat) : Prop where
  first_begins : ∃ first tail, word = first :: tail ∧ RuleTable.monkey.operand? first.kind ≠ none
  last_eq : word.getLast? = some last
  count_lt : count < levels
  levels_le : levels ≤ word.length
  enough : ∀ room power (rest : TokenStream), Suits stratum power rest.current → levels ≤ room →
    (expression room power).run (rest.prepend word) =
      (folds (room - (count + 1)) power expr).run (rest.prepend [last])
  tooFew : ∀ room power (rest : TokenStream), Suits stratum power rest.current → room < levels →
    FailsTooDeep ((expression room power).run (rest.prepend word))

section

variable {power : BindingPower} {rest : TokenStream} {token last : Token} {tail word : List Token}
  {expr left : Expr} {stratum : Stratum} {count levels : Nat} {kind : Token.Kind}

theorem run_operand {rule : OperandRule} {nested : BindingPower → Parse Expr}
    (found : RuleTable.monkey.operand? token.kind = some rule) :
    (operand nested).run (rest.prepend (token :: tail)) =
      (ofOperandRule nested rule).run (rest.prepend (token :: tail)) := by
  simp [operand, run_bind, found]

theorem run_foldAbove_some {rule : FoldRule}
    (binds : power < RuleTable.monkey.power token.kind)
    (found : RuleTable.monkey.fold? token.kind = some rule) :
    (foldAbove power).run (rest.prepend (last :: token :: tail)) =
      (.ok (some rule), rest.prepend (last :: token :: tail)) := by
  have ne_semicolon : token.kind ≠ .semicolon := by
    intro semicolon
    rw [semicolon] at found
    contradiction
  simp [foldAbove, run_bind, ne_semicolon, binds, found]

theorem run_foldAbove_none (stops : RuleTable.monkey.power rest.current.kind ≤ power) :
    (foldAbove power).run (rest.prepend [last]) = (.ok none, rest.prepend [last]) := by
  have not_binds : ¬ power < RuleTable.monkey.power rest.current.kind := Nat.not_lt_of_le stops
  simp [foldAbove, run_bind, not_binds]

theorem run_folds_stop (room : Nat)
    (stops : RuleTable.monkey.power rest.current.kind ≤ power) :
    (folds room power expr).run (rest.prepend [last]) = (.ok expr, rest.prepend [last]) := by
  cases room <;> rw [folds, run_bind, run_foldAbove_none stops] <;> rfl

/-- A fold that binds tightly enough is read next. -/
theorem run_folds_succ {rule : FoldRule} (room : Nat)
    (binds : power < RuleTable.monkey.power token.kind)
    (found : RuleTable.monkey.fold? token.kind = some rule) :
    (folds (room + 1) power expr).run (rest.prepend (last :: token :: tail)) =
      (ofFoldRule (expression room) expr rule >>= folds room power).run
        (rest.prepend (token :: tail)) := by
  rw [folds, run_bind, run_foldAbove_some binds found]
  rfl

theorem failsTooDeep_run_folds_zero {rule : FoldRule}
    (binds : power < RuleTable.monkey.power token.kind)
    (found : RuleTable.monkey.fold? token.kind = some rule) :
    FailsTooDeep ((folds 0 power expr).run (rest.prepend (last :: token :: tail))) := by
  rw [folds, FailsTooDeep, run_bind, run_foldAbove_some binds found]
  exact failsTooDeep_tooDeep _

theorem run_arguments_of_ne {nested : BindingPower → Parse Expr} {stream : TokenStream}
    (ne : stream.peek.kind ≠ .closeParen) :
    (arguments nested).run stream =
      (nested .lowest >>= fun first => afterCommas (nested .lowest) >>= fun others =>
        expect .closeParen >>= fun _ => Pure.pure (first :: others)).run stream.advance := by
  rw [arguments, run_bind, run_peek]
  simp only [ne, if_false]
  rfl

theorem run_expect (kind_eq : token.kind = kind) :
    (expect kind).run (rest.prepend (last :: token :: tail)) =
      (.ok (), rest.prepend (token :: tail)) := by
  simp [expect, run_bind, kind_eq]

theorem Suits.tighter {next : Token} (suits : Suits stratum power next) :
    Suits stratum.tighter power next := by
  obtain ⟨below_call, tight, next_le⟩ := suits
  refine ⟨below_call, Nat.le_trans tight ?_, Nat.le_trans next_le ?_⟩
  · cases stratum <;> decide
  · cases stratum <;> decide

theorem Suits.power_lt {next : Token} (suits : Suits stratum power next) (ne : stratum ≠ .unary) :
    power < stratum.power := by
  obtain ⟨below_call, tight, -⟩ := suits
  revert below_call tight ne
  cases power <;> cases stratum <;> decide

theorem suits_of_stops {next : Token} (below_call : power < .call)
    (tight : (Stratum.ofPower power).rank ≤ stratum.rank)
    (stops : RuleTable.monkey.power next.kind ≤ power) : Suits stratum power next := by
  refine ⟨below_call, tight, BindingPower.le_trans stops ?_⟩
  revert below_call tight
  cases power <;> cases stratum <;> decide

namespace Reads

theorem tighter (reads : Reads stratum.tighter word last expr count levels) :
    Reads stratum word last expr count levels :=
  { reads with
    enough := fun room power rest suits => reads.enough room power rest suits.tighter
    tooFew := fun room power rest suits => reads.tooFew room power rest suits.tighter }

theorem loosen {finer : Stratum} (reads : Reads finer word last expr count levels)
    (le : stratum.rank ≤ finer.rank) : Reads stratum word last expr count levels :=
  Stratum.loosen (motive := fun stratum => Reads stratum word last expr count levels)
    (fun _ => tighter) le reads

/-- In front of a token that does not bind it, a word is read to its end. -/
theorem needs (reads : Reads stratum word last expr count levels) (below_call : power < .call)
    (tight : (Stratum.ofPower power).rank ≤ stratum.rank)
    (stops : RuleTable.monkey.power rest.current.kind ≤ power) :
    Needs (fun room => expression room power) levels (rest.prepend word) expr
      (rest.prepend [last]) := by
  have suits := suits_of_stops below_call tight stops
  constructor
  · intro room le
    rw [reads.enough room power rest suits le, run_folds_stop _ stops]
  · intro room lt
    exact reads.tooFew room power rest suits lt

theorem needs_lowest (reads : Reads .equality word last expr count levels)
    (stops : RuleTable.monkey.power rest.current.kind = .lowest) :
    Needs (fun room => expression room .lowest) levels (rest.prepend word) expr
      (rest.prepend [last]) :=
  reads.needs (by decide) (by decide) (Nat.le_of_eq (congrArg BindingPower.rank stops))

/-- An operand takes one level more than the expression in it. -/
theorem of_operand {rule : OperandRule} (found : RuleTable.monkey.operand? token.kind = some rule)
    (last_eq : (token :: tail).getLast? = some last) (levels_le : levels ≤ tail.length)
    (needs : ∀ rest : TokenStream, RuleTable.monkey.power rest.current.kind ≤ stratum.power →
      Needs (fun room => ofOperandRule (expression room) rule) levels
        (rest.prepend (token :: tail)) expr (rest.prepend [last])) :
    Reads stratum (token :: tail) last expr 0 (levels + 1) := by
  have begins : RuleTable.monkey.operand? token.kind ≠ none := by
    rw [found]
    exact Option.some_ne_none rule
  refine ⟨⟨token, tail, rfl, begins⟩, last_eq, Nat.succ_pos levels, Nat.succ_le_succ levels_le,
    fun room power rest suits le => ?_, fun room power rest suits lt => ?_⟩
  · obtain ⟨room, rfl⟩ := Nat.exists_eq_add_one_of_ne_zero (by omega : room ≠ 0)
    rw [expression, run_bind, run_operand found,
      (needs rest suits.next_le).enough room (by omega)]
    rfl
  · cases room with
    | zero => exact failsTooDeep_tooDeep _
    | succ room =>
        rw [expression]
        apply FailsTooDeep.bind
        rw [run_operand found]
        exact (needs rest suits.next_le).tooFew room (by omega)

/-- A fold takes its levels on top of those for the folds before it. -/
theorem fold {operator final : Token} {rule : FoldRule} {longer : Expr} {inside : Nat}
    (reads : Reads stratum word last expr count levels) (ne_unary : stratum ≠ .unary)
    (power_eq : RuleTable.monkey.power operator.kind = stratum.power)
    (found : RuleTable.monkey.fold? operator.kind = some rule)
    (final_eq : (operator :: tail).getLast? = some final) (inside_le : inside ≤ tail.length)
    (needs : ∀ rest : TokenStream, RuleTable.monkey.power rest.current.kind ≤ stratum.power →
      Needs (fun room => ofFoldRule (expression room) expr rule) inside
        (rest.prepend (operator :: tail)) longer (rest.prepend [final])) :
    Reads stratum (word ++ operator :: tail) final longer (count + 1)
      (max levels (count + 2 + inside)) := by
  have count_lt := reads.count_lt
  have levels_le := reads.levels_le
  have operator_suits {power : BindingPower} {rest : TokenStream}
      (suits : Suits stratum power rest.current) :
      Suits stratum power (rest.prepend (operator :: tail)).current :=
    ⟨suits.below_call, suits.tight, Nat.le_of_eq (congrArg BindingPower.rank power_eq)⟩
  have operator_binds {power : BindingPower} {rest : TokenStream}
      (suits : Suits stratum power rest.current) : power < RuleTable.monkey.power operator.kind :=
    power_eq ▸ suits.power_lt ne_unary
  obtain ⟨first, front, word_eq, begins⟩ := reads.first_begins
  have last_eq : (word ++ operator :: tail).getLast? = some final := by
    rw [List.getLast?_append, final_eq]
    rfl
  have longer_le : max levels (count + 2 + inside) ≤ (word ++ operator :: tail).length := by
    rw [List.length_append, List.length_cons]
    omega
  refine ⟨⟨first, front ++ operator :: tail, by rw [word_eq]; rfl, begins⟩, last_eq, by omega,
    longer_le, fun room power rest suits le => ?_, fun room power rest suits lt => ?_⟩
  · rw [TokenStream.prepend_append, reads.enough room power _ (operator_suits suits) (by omega),
      ← TokenStream.prepend_append, List.singleton_append,
      show room - (count + 1) = room - (count + 2) + 1 by omega,
      run_folds_succ _ (operator_binds suits) found, run_bind,
      (needs rest suits.next_le).enough (room - (count + 2)) (by omega)]
  · rw [TokenStream.prepend_append]
    -- Levels may run out before the fold, at the fold, or inside it.
    by_cases first_fails : room < levels
    · exact reads.tooFew room power _ (operator_suits suits) first_fails
    · rw [reads.enough room power _ (operator_suits suits) (by omega),
        ← TokenStream.prepend_append, List.singleton_append]
      rcases Nat.eq_zero_or_pos (room - (count + 1)) with none_left | some_left
      · rw [none_left]
        exact failsTooDeep_run_folds_zero (operator_binds suits) found
      · rw [show room - (count + 1) = room - (count + 2) + 1 by omega,
          run_folds_succ _ (operator_binds suits) found]
        exact ((needs rest suits.next_le).tooFew (room - (count + 2)) (by omega)).bind

/-! ### Operands -/

theorem atom {rule : OperandRule} (found : RuleTable.monkey.operand? token.kind = some rule)
    (run_eq : ∀ nested (rest : TokenStream),
      (ofOperandRule nested rule).run (rest.prepend [token]) = (.ok expr, rest.prepend [token])) :
    Reads .primary [token] token expr 0 1 :=
  of_operand found rfl (Nat.le_refl 0) fun rest _ => .of_run fun _ => run_eq _ rest

theorem identifier (kind_eq : token.kind = .identifier) :
    Reads .primary [token] token (.identifier ⟨token, token.literal⟩) 0 1 := by
  have found : RuleTable.monkey.operand? token.kind = some .identifier :=
    RuleTable.operand?_eq_some_iff.mpr (List.mem_singleton.mpr kind_eq)
  exact atom found fun _ _ => rfl

theorem integer {value : Nat} (kind_eq : token.kind = .integer)
    (value_eq : integerValue? token.literal = some value) :
    Reads .primary [token] token (.integer token value) 0 1 := by
  have found : RuleTable.monkey.operand? token.kind = some .integer :=
    RuleTable.operand?_eq_some_iff.mpr (List.mem_singleton.mpr kind_eq)
  refine atom found fun _ rest => ?_
  simp [ofOperandRule, Parse.integer, run_bind, value_eq]

theorem boolean (kind_eq : token.kind = .trueWord ∨ token.kind = .falseWord) :
    Reads .primary [token] token (.boolean token (token.kind = .trueWord)) 0 1 := by
  have found : RuleTable.monkey.operand? token.kind = some .boolean :=
    RuleTable.operand?_eq_some_iff.mpr (List.mem_pair.mpr kind_eq)
  exact atom found fun _ _ => rfl

theorem group {opening closing : Token} (opens : opening.kind = .openParen)
    (reads : Reads .equality word last expr count levels) (closes : closing.kind = .closeParen) :
    Reads .primary (opening :: word ++ [closing]) closing expr 0 (levels + 1) := by
  have found : RuleTable.monkey.operand? opening.kind = some .group :=
    RuleTable.operand?_eq_some_iff.mpr (List.mem_singleton.mpr opens)
  have last_eq : (opening :: word ++ [closing]).getLast? = some closing := List.getLast?_concat
  have levels_le : levels ≤ (word ++ [closing]).length :=
    Nat.le_trans reads.levels_le (by simp)
  refine of_operand found last_eq levels_le fun rest _ => ?_
  have stops : RuleTable.monkey.power (rest.prepend [closing]).current.kind = .lowest := by
    rw [TokenStream.current_prepend, List.headD_cons, closes]
    rfl
  have inside := reads.needs_lowest stops
  rw [← TokenStream.prepend_append] at inside
  refine .bind_left (run_advance _) (inside.bind_right ?_)
  rw [run_bind, ← TokenStream.prepend_append, List.singleton_append, run_expect closes]
  rfl

theorem unary {operator : Token} (kind_eq : operator.kind = .bang ∨ operator.kind = .minus)
    (reads : Reads .unary word last expr count levels) :
    Reads .unary (operator :: word) last (.unary operator operator.literal expr) 0
      (levels + 1) := by
  have found : RuleTable.monkey.operand? operator.kind = some .unary :=
    RuleTable.operand?_eq_some_iff.mpr (List.mem_pair.mpr kind_eq)
  have last_eq : (operator :: word).getLast? = some last := by
    simp [List.getLast?_cons, reads.last_eq]
  refine of_operand found last_eq reads.levels_le fun rest stops => ?_
  have right := reads.needs (by decide) (by decide) stops
  exact .bind_left (run_current _) (.bind_left (run_advance _) (right.bind_right (run_pure _ _)))

/-! ### Folds -/

theorem binary {operator final : Token} {right : Expr} {rightWord : List Token}
    {rightCount rightLevels : Nat} (kind_mem : operator.kind ∈ stratum.operators)
    (reads : Reads stratum word last expr count levels)
    (right_reads : Reads stratum.tighter rightWord final right rightCount rightLevels) :
    Reads stratum (word ++ operator :: rightWord) final
      (.binary operator operator.literal expr right) (count + 1)
      (max levels (count + 2 + rightLevels)) := by
  obtain ⟨power_eq, found, ne_unary, below_call⟩ := RuleTable.of_mem_operators kind_mem
  have last_eq : (operator :: rightWord).getLast? = some final := by
    simp [List.getLast?_cons, right_reads.last_eq]
  refine reads.fold ne_unary power_eq found last_eq right_reads.levels_le fun rest stops => ?_
  have tight : (Stratum.ofPower stratum.power).rank ≤ stratum.tighter.rank :=
    Nat.le_of_eq (congrArg Stratum.rank (Stratum.ofPower_power kind_mem))
  have needs := right_reads.needs below_call tight stops
  refine .bind_left (run_current _) (.bind_left (run_advance _) ?_)
  simp only [TokenStream.current_prepend, List.headD_cons, power_eq]
  exact needs.bind_right (run_pure _ _)

end Reads

/-- Each element is read as an expression, and takes the levels listed for it. -/
def ReadsEach (elements : List (List Token × Expr)) (levels : List Nat) : Prop :=
  List.Forall₂ (fun element level =>
    ∃ last count, Reads .equality element.1 last element.2 count level) elements levels

theorem ReadsEach.mostLevels_le_after {elements : List (List Token × Expr)} {inner : List Nat}
    {inside : List Token} (each : ReadsEach elements inner)
    (separated : AfterCommas (elements.map Prod.fst) inside) :
    mostLevels inner ≤ inside.length := by
  induction each generalizing inside with
  | nil => exact Nat.zero_le _
  | cons first _ ih =>
      obtain ⟨_, _, reads⟩ := first
      cases separated with
      | cons comma others =>
          have first_le := reads.levels_le
          have others_le := ih others
          simp only [mostLevels, List.foldr_cons, List.length_append, List.length_cons] at *
          omega

theorem ReadsEach.mostLevels_le {elements : List (List Token × Expr)} {inner : List Nat}
    {inside : List Token} (each : ReadsEach elements inner)
    (separated : CommaSeparated (elements.map Prod.fst) inside) :
    mostLevels inner ≤ inside.length := by
  cases each with
  | nil => exact Nat.zero_le _
  | cons first others =>
      obtain ⟨_, _, reads⟩ := first
      cases separated with
      | cons others_separated =>
          have first_le := reads.levels_le
          have others_le := ReadsEach.mostLevels_le_after others others_separated
          simp only [mostLevels, List.foldr_cons, List.length_append] at *
          omega

theorem Reads.needs_element {words : List (List Token)} {others : List Token}
    (reads : Reads .equality word last expr count levels) (separated : AfterCommas words others)
    (closes : rest.current.kind = .closeParen) :
    Needs (fun room => expression room .lowest) levels (rest.prepend (word ++ others)) expr
      (rest.prepend (last :: others)) := by
  have stops : RuleTable.monkey.power (rest.prepend others).current.kind = .lowest := by
    rw [TokenStream.current_prepend, separated.power_headD closes]
  have needs := reads.needs_lowest stops
  rwa [← TokenStream.prepend_append, ← TokenStream.prepend_append] at needs

theorem needs_afterCommas {elements : List (List Token × Expr)} {levels : List Nat}
    {inside : List Token} {final : Token} (each : ReadsEach elements levels)
    (separated : AfterCommas (elements.map Prod.fst) inside)
    (final_eq : (last :: inside).getLast? = some final) (closes : rest.current.kind = .closeParen) :
    Needs (fun room => afterCommas (expression room .lowest)) (mostLevels levels)
      (rest.prepend (last :: inside)) (elements.map Prod.snd) (rest.prepend [final]) := by
  induction each generalizing last inside with
  | nil =>
      cases separated with
      | nil =>
          obtain rfl : last = final := by simpa using final_eq
          have ne : (rest.prepend [last]).peek.kind ≠ .comma := by
            simp [closes]
          exact .of_run fun room => run_afterCommas_of_ne ne
  | cons first _ ih =>
      obtain ⟨element_last, element_count, reads⟩ := first
      cases separated with
      | @cons separator _ others_word _ comma others =>
          obtain ⟨front, word_eq⟩ := List.getLast?_eq_some_iff.mp reads.last_eq
          have others_final : (element_last :: others_word).getLast? = some final := by
            rw [← final_eq, word_eq]
            simp [List.getLast?_cons, List.getLast?_append]
          have element_needs := reads.needs_element others closes
          have others_needs := ih others others_final
          refine Needs.congr (element_needs.bind (others_needs.bind_right ?_))
            fun room => run_afterCommas_of_comma comma
          rfl

theorem needs_arguments {elements : List (List Token × Expr)} {levels : List Nat}
    {opening closing : Token} {inside : List Token} (each : ReadsEach elements levels)
    (separated : CommaSeparated (elements.map Prod.fst) inside)
    (closes : closing.kind = .closeParen) :
    Needs (fun room => arguments (expression room)) (mostLevels levels)
      (rest.prepend (opening :: inside ++ [closing])) (elements.map Prod.snd)
      (rest.prepend [closing]) := by
  cases each with
  | nil =>
      cases separated with
      | nil =>
          refine .of_run fun room => ?_
          simp [arguments, run_bind, closes]
  | @cons element _ _ _ first others =>
      obtain ⟨element_last, element_count, reads⟩ := first
      cases separated with
      | @cons _ others_word _ others_separated =>
          obtain ⟨final, final_eq⟩ : ∃ final, (element_last :: others_word).getLast? = some final :=
            ⟨_, List.getLast?_cons⟩
          have peek_ne :
              (rest.prepend (opening :: (element.1 ++ others_word) ++ [closing])).peek.kind ≠
                .closeParen := by
            obtain ⟨first_token, tail, word_eq, begins⟩ := reads.first_begins
            rw [word_eq]
            intro kind_eq
            exact begins (congrArg RuleTable.monkey.operand? kind_eq)
          have stop : (rest.prepend [closing]).current.kind = .closeParen := closes
          have element_needs := reads.needs_element others_separated stop
          have others_needs := needs_afterCommas others others_separated final_eq stop
          rw [← TokenStream.prepend_append] at element_needs
          refine Needs.congr (element_needs.bind (others_needs.bind_right ?_))
            fun room => run_arguments_of_ne peek_ne
          rw [run_bind, ← TokenStream.prepend_append, List.singleton_append, run_expect closes]
          rfl

theorem Reads.call {elements : List (List Token × Expr)} {inner : List Nat}
    {opening closing : Token} {inside : List Token}
    (reads : Reads .call word last expr count levels) (opens : opening.kind = .openParen)
    (separated : CommaSeparated (elements.map Prod.fst) inside) (each : ReadsEach elements inner)
    (closes : closing.kind = .closeParen) :
    Reads .call (word ++ (opening :: inside ++ [closing])) closing
      (.call opening expr (elements.map Prod.snd)) (count + 1)
      (max levels (count + 2 + mostLevels inner)) := by
  have power_eq : RuleTable.monkey.power opening.kind = Stratum.call.power := by rw [opens]; rfl
  have found := RuleTable.fold?_eq_call_iff.mpr opens
  have last_eq : (opening :: inside ++ [closing]).getLast? = some closing := List.getLast?_concat
  have inner_le : mostLevels inner ≤ (inside ++ [closing]).length :=
    Nat.le_trans (each.mostLevels_le separated) (by simp)
  refine reads.fold (by decide) power_eq found last_eq inner_le fun rest _ => ?_
  have inside_needs : Needs (fun room => arguments (expression room)) (mostLevels inner)
      (rest.prepend (opening :: inside ++ [closing])) (elements.map Prod.snd)
      (rest.prepend [closing]) := needs_arguments each separated closes
  exact .bind_left (run_current _) (inside_needs.bind_right (run_pure _ _))

end

end Parse

end MonkeySyntax
