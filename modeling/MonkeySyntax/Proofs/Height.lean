import MonkeySyntax.Proofs.ExpressionLanguage

/-!
# How high trees grow

The levels that are free limit the trees that are read, but they do not count nodes: the levels
that an operand has taken are free again for the folds behind it.  What a reader with some room can
yield is described by a relation on trees that mentions no tokens.  It bounds the height of a tree
by a quadratic function of the room, and the nesting, in which left operands cost nothing, by the
room itself.
-/

namespace MonkeySyntax

namespace Expr

mutual

/-- The number of nodes on the longest path from the root to a leaf. -/
def height : Expr → Nat
  | identifier _ | integer _ _ | boolean _ _ => 1
  | unary _ _ right => 1 + height right
  | binary _ _ left right => 1 + max (height left) (height right)
  | call _ function arguments => 1 + max (height function) (greatestHeight arguments)

/-- The greatest height among several expressions. -/
def greatestHeight : List Expr → Nat
  | [] => 0
  | expr :: rest => max (height expr) (greatestHeight rest)

end

mutual

/-- The number of levels on the longest path from the root to a leaf, if the way down to a left
operand or to the function of a call is free, and the one to a right operand or to an argument takes
a level for the fold and another one for the expression in it. -/
def nesting : Expr → Nat
  | identifier _ | integer _ _ | boolean _ _ => 1
  | unary _ _ right => 1 + nesting right
  | binary _ _ left right => max (nesting left) (2 + nesting right)
  | call _ function arguments => max (nesting function) (2 + greatestNesting arguments)

/-- The greatest nesting among several expressions. -/
def greatestNesting : List Expr → Nat
  | [] => 0
  | expr :: rest => max (nesting expr) (greatestNesting rest)

end

section

variable {exprs : List Expr} {bound : Nat}

theorem greatestHeight_le (each : ∀ expr ∈ exprs, expr.height ≤ bound) :
    greatestHeight exprs ≤ bound := by
  induction exprs with
  | nil => exact Nat.zero_le bound
  | cons expr rest ih =>
      obtain ⟨first, others⟩ := List.forall_mem_cons.mp each
      exact Nat.max_le.mpr ⟨first, ih others⟩

theorem greatestNesting_le (each : ∀ expr ∈ exprs, expr.nesting ≤ bound) :
    greatestNesting exprs ≤ bound := by
  induction exprs with
  | nil => exact Nat.zero_le bound
  | cons expr rest ih =>
      obtain ⟨first, others⟩ := List.forall_mem_cons.mp each
      exact Nat.max_le.mpr ⟨first, ih others⟩

end

end Expr

/-- The expression in a statement. -/
def Stmt.value : Stmt → Expr
  | .binding _ _ value | .result _ value | .expression _ value => value

/-! ### Growth -/

/-- How far a reader has come with an expression. -/
inductive Phase where
  /-- Calls and operators may follow, as long as there are free levels. -/
  | calls (free : Nat)
  /-- Only operators may follow, as long as there are free levels. -/
  | operators (free : Nat)
  /-- Nothing follows. -/
  | complete
deriving DecidableEq, Repr

namespace Phase

/-- The number of levels for folds that may follow. -/
def free : Phase → Nat
  | calls free | operators free => free
  | complete => 0

/-- The number of folds that may follow.  The last free level is no good for an operator, which
needs another one for its right operand. -/
def growth : Phase → Nat
  | calls free => free
  | operators free => free - 1
  | complete => 0

/-- The binding power of the tightest fold that may follow. -/
def power : Phase → BindingPower
  | calls _ => .call
  | operators _ => .unary
  | complete => .lowest

theorem eq_calls {phase : Phase} {free : Nat} (binds : .call ≤ phase.power)
    (free_eq : phase.free = free) : phase = calls free := by
  cases phase with
  | calls free' => exact congrArg calls free_eq
  | operators free' => exact absurd binds (by decide : ¬ BindingPower.call ≤ .unary)
  | complete => exact absurd binds (by decide)

end Phase

/-- The trees that a reader with some room yields, and how far it has come with them. -/
inductive Grown : (room : Nat) → Phase → Expr → Prop where
  | identifier {room : Nat} (name : Identifier) : Grown (room + 1) (.calls room) (.identifier name)
  | integer {room : Nat} (token : Token) (value : Int) :
      Grown (room + 1) (.calls room) (.integer token value)
  | boolean {room : Nat} (token : Token) (value : Bool) :
      Grown (room + 1) (.calls room) (.boolean token value)
  | group {room : Nat} {expr : Expr} (inside : Grown room .complete expr) :
      Grown (room + 1) (.calls room) expr
  | unary {room : Nat} {token : Token} {operator : String} {right : Expr}
      (inside : Grown room .complete right) :
      Grown (room + 1) (.operators room) (.unary token operator right)
  | binary {room free : Nat} {phase : Phase} {token : Token} {operator : String}
      {left right : Expr} (first : Grown room phase left) (free_eq : phase.free = free + 1)
      (inside : Grown free .complete right) :
      Grown room (.operators free) (.binary token operator left right)
  | call {room free : Nat} {token : Token} {function : Expr} {arguments : List Expr}
      (callee : Grown room (.calls (free + 1)) function)
      (inside : ∀ argument ∈ arguments, Grown free .complete argument) :
      Grown room (.calls free) (.call token function arguments)
  | complete {room : Nat} {phase : Phase} {expr : Expr} (grown : Grown room phase expr) :
      Grown room .complete expr

/-- The greatest height of a tree that is read with some room. -/
def tallest (room : Nat) : Nat :=
  1 + (room - 1) * room / 2

theorem tallest_succ (room : Nat) : tallest (room + 1) = tallest room + room := by
  cases room with
  | zero => rfl
  | succ room =>
      have step : (room + 1) * (room + 1 + 1) = room * (room + 1) + (room + 1) * 2 := by
        rw [Nat.mul_comm room, ← Nat.mul_add]
      simp only [tallest, Nat.add_sub_cancel]
      rw [step, Nat.add_mul_div_right _ _ (by decide : 0 < 2), Nat.add_assoc]

theorem tallest_mono {less more : Nat} (le : less ≤ more) : tallest less ≤ tallest more := by
  induction le with
  | refl => exact Nat.le_refl _
  | step _ ih => exact Nat.le_trans ih (by rw [tallest_succ]; exact Nat.le_add_right _ _)

namespace Grown

variable {room : Nat} {phase : Phase} {expr : Expr}

/-- The first level goes to the operand at the front. -/
theorem free_lt (grown : Grown room phase expr) : phase.free < room := by
  induction grown with
  | identifier | integer | boolean | group | unary => exact Nat.lt_succ_self _
  | binary _ free_eq _ ih =>
      rw [free_eq] at ih
      exact Nat.lt_of_succ_lt ih
  | call _ _ ih => exact Nat.lt_of_succ_lt ih
  | complete _ ih => exact Nat.zero_lt_of_lt ih

/-- The height that a tree has, with a node for each fold that may follow, is at most that of the
tallest tree. -/
theorem height_add_growth_le (grown : Grown room phase expr) :
    expr.height + phase.growth ≤ tallest room := by
  have room_pos {room : Nat} {phase : Phase} {expr : Expr} (grown : Grown room phase expr) :
      0 < room := Nat.zero_lt_of_lt grown.free_lt
  induction grown with
  | @identifier room _ | @integer room _ _ | @boolean room _ _ =>
      rw [tallest_succ]
      exact Nat.add_le_add_right (Nat.le_add_right 1 _) room
  | @group room _ _ ih =>
      rw [tallest_succ]
      exact Nat.add_le_add_right ih room
  | @unary room _ _ _ inside ih =>
      have some_room := room_pos inside
      simp only [Phase.growth, Expr.height, tallest_succ] at *
      omega
  | @binary room free phase _ _ _ _ first free_eq inside first_ih inside_ih =>
      have some_free := room_pos inside
      have growth_ge : free ≤ phase.growth := by
        cases phase with
        | calls | operators => simp only [Phase.free, Phase.growth] at *; omega
        | complete => contradiction
      have right_le : tallest free + free ≤ tallest room := by
        rw [← tallest_succ, ← free_eq]
        exact tallest_mono (Nat.le_of_lt first.free_lt)
      simp only [Phase.growth, Expr.height] at *
      omega
  | @call room free _ _ arguments callee inside callee_ih inside_ih =>
      have arguments_le : Expr.greatestHeight arguments ≤ tallest free :=
        Expr.greatestHeight_le inside_ih
      have room_ge : free + 2 ≤ room := callee.free_lt
      have above := tallest_mono room_ge
      simp only [tallest_succ, Phase.growth, Expr.height] at *
      omega
  | complete _ ih => exact Nat.le_trans (Nat.add_le_add_left (Nat.zero_le _) _) ih

/-- The nesting of a tree is at most the room. -/
theorem nesting_le (grown : Grown room phase expr) : expr.nesting ≤ room := by
  induction grown with
  | identifier | integer | boolean => exact Nat.succ_le_succ (Nat.zero_le _)
  | group _ ih => exact Nat.le_succ_of_le ih
  | unary _ ih =>
      rw [Expr.nesting, Nat.add_comm]
      exact Nat.succ_le_succ ih
  | binary first free_eq _ first_ih inside_ih =>
      have levels := first.free_lt
      rw [Expr.nesting]
      omega
  | @call room free _ _ arguments callee _ callee_ih inside_ih =>
      have arguments_le : Expr.greatestNesting arguments ≤ free :=
        Expr.greatestNesting_le inside_ih
      have levels : free + 1 < room := callee.free_lt
      rw [Expr.nesting]
      omega
  | complete _ ih => exact ih

end Grown

/-! ### Readers -/

namespace Parse

/-- A reader of nested expressions yields what can grow in its room. -/
def Levelled (nested : BindingPower → Parse Expr) (room : Nat) : Prop :=
  ∀ power word behind, behind.Ends → Confined (nested power) word behind fun expr left =>
    Grown room .complete expr ∧ left ≠ [] ∧ Followed power left behind

section

variable {nested : BindingPower → Parse Expr} {room free : Nat} {phase : Phase}
  {opening last next behind : Token} {word tail : List Token} {left : Expr}

/-- A parenthesis that closes is not the token behind a word. -/
theorem ne_nil_of_closes (ends : behind.Ends) (closes : (tail.headD behind).kind = .closeParen) :
    tail ≠ [] := by
  rintro rfl
  exact ends.kind_ne_closeParen closes

theorem grows_operand (levelled : Levelled nested room) (ends : behind.Ends) (word : List Token) :
    Confined (operand nested) word behind fun expr left => ∃ phase : Phase,
      Grown (room + 1) phase expr ∧ phase.free = room ∧ left ≠ [] ∧
        Followed phase.power left behind := by
  apply Confined.current_bind
  cases word with
  | nil =>
      rw [List.headD_nil, ends.operand?_eq_none]
      exact .fail _
  | cons token tail =>
      have ne_nil := List.cons_ne_nil token tail
      rw [List.headD_cons]
      split
      · next rule found =>
          cases rule with
          | identifier =>
              refine .current_bind (.pure ⟨.calls room, .identifier _, rfl, ne_nil, ?_⟩)
              exact BindingPower.le_call _
          | integer =>
              apply Confined.current_bind
              split
              · exact .pure ⟨.calls room, .integer _ _, rfl, ne_nil, BindingPower.le_call _⟩
              · exact .fail _
          | boolean =>
              refine .current_bind (.pure ⟨.calls room, .boolean _ _, rfl, ne_nil, ?_⟩)
              exact BindingPower.le_call _
          | unary =>
              refine .current_bind ?_
              refine .advance_bind ?_
              refine (levelled .unary tail behind ends).bind fun right left _ read => ?_
              refine .pure ?_
              obtain ⟨grown, left_ne, followed⟩ := read
              exact ⟨.operators room, .unary grown, rfl, left_ne, followed⟩
          | group =>
              apply Confined.advance_bind
              refine (levelled .lowest tail behind ends).bind fun expr left _ read => ?_
              obtain ⟨grown, left_ne, -⟩ := read
              obtain ⟨last, after, rfl⟩ := List.exists_cons_of_ne_nil left_ne
              refine .expect_bind fun closes => ?_
              refine .pure ?_
              exact ⟨.calls room, .group grown, rfl, ne_nil_of_closes ends closes,
                BindingPower.le_call _⟩
      · exact .fail _

theorem grows_arguments (levelled : Levelled nested free) (ends : behind.Ends) :
    Confined (arguments nested) (opening :: tail) behind fun exprs left =>
      (∀ expr ∈ exprs, Grown free .complete expr) ∧ left ≠ [] := by
  refine .peek_bind ?_
  refine .advance_bind ?_
  split
  · next closes => exact .pure ⟨nofun, ne_nil_of_closes ends closes⟩
  · have each (word : List Token) := levelled .lowest word behind ends
    refine (each tail).bind fun first left _ ⟨first_grown, left_ne, followed⟩ => ?_
    obtain ⟨last, after, rfl⟩ := List.exists_cons_of_ne_nil left_ne
    refine (Confined.afterCommas ends.kind_ne_comma each followed).bind
      fun others left _ ⟨others_grown, left_ne, _⟩ => ?_
    obtain ⟨last, after, rfl⟩ := List.exists_cons_of_ne_nil left_ne
    refine .expect_bind fun closes => .pure ⟨?_, ne_nil_of_closes ends closes⟩
    exact List.forall_mem_cons.mpr ⟨first_grown, others_grown⟩

/-- A fold takes a level, and what it yields has grown by it. -/
theorem grows_fold {rule : FoldRule} (levelled : Levelled nested free) (ends : behind.Ends)
    (grown : Grown room phase left) (free_eq : phase.free = free + 1)
    (binds : RuleTable.monkey.power next.kind ≤ phase.power)
    (found : RuleTable.monkey.fold? next.kind = some rule) :
    Confined (ofFoldRule nested left rule) (next :: tail) behind fun expr rest =>
      ∃ longer : Phase, Grown room longer expr ∧ longer.free = free ∧ rest ≠ [] ∧
        Followed longer.power rest behind := by
  cases rule with
  | binary =>
      obtain ⟨stratum, kind_mem, power_eq⟩ := RuleTable.exists_stratum_of_binary found
      have le_unary : stratum.power ≤ .unary :=
        BindingPower.le_of_not_lt fun lt =>
          absurd (RuleTable.of_mem_operators kind_mem).2.2.2 (Nat.not_lt_of_le lt)
      refine .current_bind ?_
      refine .advance_bind ?_
      rw [List.headD_cons, power_eq]
      refine (levelled stratum.power tail behind ends).bind fun right rest _ read => ?_
      refine .pure ?_
      obtain ⟨inside, rest_ne, followed⟩ := read
      exact ⟨.operators free, .binary grown free_eq inside, rfl, rest_ne,
        BindingPower.le_trans followed le_unary⟩
  | call =>
      have opens := RuleTable.fold?_eq_call_iff.mp found
      rw [opens] at binds
      obtain rfl := Phase.eq_calls binds free_eq
      apply Confined.current_bind
      refine (grows_arguments levelled ends).bind fun exprs rest _ read => ?_
      refine .pure ?_
      obtain ⟨inside, rest_ne⟩ := read
      exact ⟨.calls free, .call grown inside, rfl, rest_ne, BindingPower.le_call _⟩

theorem grows_folds {power : BindingPower}
    (nested : ∀ inner < free, Levelled (expression inner) inner) (ends : behind.Ends)
    (grown : Grown room phase left) (free_eq : phase.free = free)
    (followed : Followed phase.power (last :: tail) behind) :
    Confined (folds free power left) (last :: tail) behind fun expr _ =>
      Grown room .complete expr := by
  -- Every fold goes on to another phase, with one level less.
  induction free generalizing phase left last tail with
  | zero =>
      rw [folds]
      refine (confined_foldAbove ends).bind fun found rest _ spec => ?_
      cases found with
      | none => exact .pure grown.complete
      | some rule => exact .current_bind (.fail _)
  | succ free ih =>
      rw [folds]
      refine (confined_foldAbove ends).bind fun found rest _ spec => ?_
      obtain ⟨rfl, spec⟩ := spec
      cases found with
      | none => exact .pure grown.complete
      | some rule =>
          obtain ⟨next, rest, rfl, -, found⟩ := spec
          apply Confined.advance_bind
          refine (grows_fold (nested free (Nat.lt_succ_self free)) ends grown free_eq followed
            found).bind fun longer rest _ read => ?_
          obtain ⟨longer_phase, longer_grown, longer_free, rest_ne, longer_followed⟩ := read
          obtain ⟨last, after, rfl⟩ := List.exists_cons_of_ne_nil rest_ne
          exact ih (fun inner lt => nested inner (Nat.lt_succ_of_lt lt)) longer_grown longer_free
            longer_followed

end

/-- Whatever room there is, an expression that is read has grown in it. -/
theorem levelled_expression (room : Nat) : Levelled (expression room) room := by
  induction room using Nat.strongRecOn with
  | ind room ih =>
      intro power word behind ends
      have grows : Confined (expression room power) word behind fun expr _ =>
          Grown room .complete expr := by
        cases room with
        | zero =>
            rw [expression]
            exact .current_bind (.fail _)
        | succ room =>
            rw [expression]
            refine (grows_operand (ih room (Nat.lt_succ_self room)) ends word).bind
              fun left rest _ read => ?_
            obtain ⟨phase, grown, free_eq, rest_ne, followed⟩ := read
            obtain ⟨last, after, rfl⟩ := List.exists_cons_of_ne_nil rest_ne
            exact grows_folds (fun inner lt => ih inner (Nat.lt_succ_of_lt lt)) ends grown free_eq
              followed
      refine (grows.and (sound_expression room power word behind ends)).mono
        fun expr left read => ?_
      obtain ⟨grown, ⟨used, last, after, -, rfl, -⟩, followed⟩ := read
      exact ⟨grown, List.cons_ne_nil last after, followed⟩

/-! ### Runs -/

section

variable {room : Nat} {stream after : TokenStream} {stmt : Stmt}

theorem grown_of_run_expression {power : BindingPower} {expr : Expr}
    (read : (expression room power).run stream = (.ok expr, after)) :
    Grown room .complete expr := by
  obtain ⟨left, -, grown, -⟩ :=
    (levelled_expression room power stream.tokens (.endOfInput stream.size) (.inr rfl)).of_run read
  exact grown

/-- A step after another succeeds only if both do. -/
theorem exists_run_of_bind {α β : Type} {first : Parse β} {second : β → Parse α} {value : α}
    (read : (first >>= second).run stream = (.ok value, after)) :
    ∃ between left, first.run stream = (.ok between, left) ∧
      (second between).run left = (.ok value, after) := by
  rw [run_bind] at read
  rcases run_first : first.run stream with ⟨diagnostic | between, left⟩
  · rw [run_first] at read
    exact absurd (Prod.mk.inj read).1 nofun
  · rw [run_first] at read
    exact ⟨between, left, rfl, read⟩

theorem grown_of_run_value {make : Expr → Stmt} (value_eq : ∀ expr, (make expr).value = expr)
    (read : (do
        let value ← expression room .lowest
        expect .semicolon
        pure (make value) : Parse Stmt).run stream = (.ok stmt, after)) :
    Grown room .complete stmt.value := by
  obtain ⟨expr, left, read_expression, read⟩ := exists_run_of_bind read
  obtain ⟨_, left, -, read⟩ := exists_run_of_bind read
  obtain ⟨equal, -⟩ := Prod.mk.inj read
  rw [← Except.ok.inj equal, value_eq]
  exact grown_of_run_expression read_expression

/-- The value of a statement that is read is an expression that is read. -/
theorem grown_of_run_statement (read : (statement room).run stream = (.ok stmt, after)) :
    Grown room .complete stmt.value := by
  obtain ⟨token, _, -, read⟩ := exists_run_of_bind read
  split at read
  · next rule _ =>
      cases rule with
      | binding =>
          obtain ⟨_, _, -, read⟩ := exists_run_of_bind read
          obtain ⟨_, _, -, read⟩ := exists_run_of_bind read
          obtain ⟨_, _, -, read⟩ := exists_run_of_bind read
          obtain ⟨_, _, -, read⟩ := exists_run_of_bind read
          obtain ⟨_, _, -, read⟩ := exists_run_of_bind read
          exact grown_of_run_value (fun _ => rfl) read
      | result =>
          obtain ⟨_, _, -, read⟩ := exists_run_of_bind read
          obtain ⟨_, _, -, read⟩ := exists_run_of_bind read
          exact grown_of_run_value (fun _ => rfl) read
  · obtain ⟨_, _, -, read⟩ := exists_run_of_bind read
    exact grown_of_run_value (fun _ => rfl) read

/-- Every outcome of a program is one of a statement. -/
theorem exists_run_of_mem_outcomes {outcome : Except Diagnostic Stmt}
    (mem : outcome ∈ (outcomes room stream).1) :
    ∃ before, ((statement room).run before).1 = outcome := by
  fun_induction outcomes room stream with
  | case1 stream _ read others ih =>
      rcases List.mem_cons.mp mem with rfl | mem
      · exact ⟨stream, rfl⟩
      · exact ih mem
  | case2 stream => contradiction

end

end Parse

/-- The expressions of a program have grown in the room that there is at the start. -/
theorem grown_of_mem_statements {source : String} {stmt : Stmt}
    (mem : stmt ∈ (parse source).1.statements) : Grown maxDepth .complete stmt.value := by
  obtain ⟨before, run_eq⟩ := Parse.exists_run_of_mem_outcomes (mem_statementsOf.mp mem)
  exact Parse.grown_of_run_statement (Prod.ext run_eq rfl)

end MonkeySyntax
