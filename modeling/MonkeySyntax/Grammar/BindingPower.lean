/-!
# Binding powers

The binding power of an operator says how tightly it holds the operands beside it.
-/

namespace MonkeySyntax

/-- How tightly an operator binds, from the loosest to the tightest. -/
inductive BindingPower where
  /-- No operator at all. -/
  | lowest
  /-- The operators `==` and `!=`. -/
  | equality
  /-- The operators `<` and `>`. -/
  | comparison
  /-- The operators `+` and `-` between operands. -/
  | sum
  /-- The operators `*` and `/`. -/
  | product
  /-- The operators `!` and `-` in front of an operand. -/
  | unary
  /-- The parenthesis that opens the arguments of a call. -/
  | call
deriving DecidableEq, Repr

namespace BindingPower

/-- The number of powers that are looser. -/
def rank : BindingPower → Nat
  | lowest => 0
  | equality => 1
  | comparison => 2
  | sum => 3
  | product => 4
  | unary => 5
  | call => 6

instance : Ord BindingPower where
  compare left right := compare left.rank right.rank

instance : LE BindingPower where
  le left right := left.rank ≤ right.rank

instance : LT BindingPower where
  lt left right := left.rank < right.rank

instance (left right : BindingPower) : Decidable (left ≤ right) :=
  inferInstanceAs (Decidable (left.rank ≤ right.rank))

instance (left right : BindingPower) : Decidable (left < right) :=
  inferInstanceAs (Decidable (left.rank < right.rank))

theorem le_of_not_lt {left right : BindingPower} (not_lt : ¬ left < right) : right ≤ left :=
  Nat.le_of_not_lt not_lt

theorem le_trans {left middle right : BindingPower} (first : left ≤ middle)
    (second : middle ≤ right) : left ≤ right :=
  Nat.le_trans first second

theorem lowest_le (power : BindingPower) : lowest ≤ power :=
  Nat.zero_le power.rank

theorem le_call (power : BindingPower) : power ≤ call := by
  cases power <;> decide

end BindingPower

end MonkeySyntax
