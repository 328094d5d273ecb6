import MonkeySyntax.Parse.Expression

/-!
# The grammar of expressions and statements

Expressions are stratified by how tightly their outermost operator binds.  A derivation relates a
word of tokens to the tree that it stands for; it mentions neither a parser nor a limit on
nesting.  A group in parentheses leaves no trace in the tree, and every other construct leaves its
own token.
-/

namespace MonkeySyntax

/-- A layer of the expression grammar, from the loosest to the tightest. -/
inductive Stratum where
  /-- Operands compared by `==` and `!=`. -/
  | equality
  /-- Operands compared by `<` and `>`. -/
  | comparison
  /-- Operands joined by `+` and `-`. -/
  | sum
  /-- Operands joined by `*` and `/`. -/
  | product
  /-- Operands behind `!` and `-`. -/
  | unary
  /-- Operands before argument lists. -/
  | call
  /-- Names, literals and groups. -/
  | primary
deriving DecidableEq, Repr

namespace Stratum

/-- The next tighter stratum. -/
def tighter : Stratum → Stratum
  | equality => comparison
  | comparison => sum
  | sum => product
  | product => unary
  | unary => call
  | call | primary => primary

/-- The kinds of the operators that stand between two operands of a stratum. -/
def operators : Stratum → List Token.Kind
  | equality => [.equal, .notEqual]
  | comparison => [.less, .greater]
  | sum => [.plus, .minus]
  | product => [.asterisk, .slash]
  | unary | call | primary => []

/-- How tightly the construct of a stratum binds. -/
def power : Stratum → BindingPower
  | equality => .equality
  | comparison => .comparison
  | sum => .sum
  | product => .product
  | unary => .unary
  | call | primary => .call

/-- The stratum of the operands beside an operator of a given binding power. -/
def ofPower : BindingPower → Stratum
  | .lowest => equality
  | .equality => comparison
  | .comparison => sum
  | .sum => product
  | .product | .unary | .call => unary

/-- The number of looser strata. -/
def rank : Stratum → Nat
  | equality => 0
  | comparison => 1
  | sum => 2
  | product => 3
  | unary => 4
  | call => 5
  | primary => 6

theorem rank_injective {left right : Stratum} (same : left.rank = right.rank) : left = right := by
  revert same
  cases left <;> cases right <;> decide

theorem rank_tighter {stratum finer : Stratum} (lt : stratum.rank < finer.rank) :
    stratum.tighter.rank = stratum.rank + 1 := by
  revert lt
  cases stratum <;> cases finer <;> decide

/-- Beside an operator of a stratum stand operands of the next tighter stratum. -/
theorem ofPower_power {stratum : Stratum} {kind : Token.Kind} (mem : kind ∈ stratum.operators) :
    ofPower stratum.power = stratum.tighter := by
  cases stratum with
  | equality | comparison | sum | product => rfl
  | unary | call | primary => simp [operators] at mem

theorem rank_of_mem_operators {stratum : Stratum} {kind : Token.Kind}
    (mem : kind ∈ stratum.operators) :
    stratum.rank ≤ call.rank ∧ stratum.tighter.rank ≤ call.rank := by
  cases stratum with
  | equality | comparison | sum | product => decide
  | unary | call | primary => simp [operators] at mem

theorem rank_ofPower_le {power : BindingPower} {stratum : Stratum} (lt : power < stratum.power) :
    (ofPower power).rank ≤ stratum.rank := by
  revert lt
  cases power <;> cases stratum <;> decide

theorem rank_ofPower_le_unary (power : BindingPower) : (ofPower power).rank ≤ unary.rank := by
  cases power <;> decide

theorem rank_le_of_power_le {stratum finer : Stratum} (ne : stratum ≠ primary)
    (le : stratum.power ≤ finer.power) : stratum.rank ≤ finer.rank := by
  revert ne le
  cases stratum <;> cases finer <;> decide

/-- What passes from each stratum to the next looser one passes to all looser ones. -/
theorem loosen {motive : Stratum → Prop}
    (step : ∀ stratum : Stratum, motive stratum.tighter → motive stratum)
    {stratum finer : Stratum} (le : stratum.rank ≤ finer.rank) (holds : motive finer) :
    motive stratum := by
  obtain ⟨gap, rank_eq⟩ := Nat.exists_eq_add_of_le le
  induction gap generalizing stratum with
  | zero => exact rank_injective rank_eq ▸ holds
  | succ gap ih =>
      have next := @rank_tighter stratum finer (by omega)
      exact step stratum (ih (by omega) (by omega))

end Stratum

/-- The kinds of the tokens that begin an operand. -/
def OperandRule.kinds : OperandRule → List Token.Kind
  | .identifier => [.identifier]
  | .integer => [.integer]
  | .boolean => [.trueWord, .falseWord]
  | .unary => [.bang, .minus]
  | .group => [.openParen]

/-- The kind of the keyword that begins a statement. -/
def StatementRule.keyword : StatementRule → Token.Kind
  | .binding => .letWord
  | .result => .returnWord

namespace RuleTable

variable {kind : Token.Kind}

theorem operand?_eq_some_iff {rule : OperandRule} :
    monkey.operand? kind = some rule ↔ kind ∈ rule.kinds := by
  cases rule <;> cases kind <;> decide

theorem statement?_eq_some_iff {rule : StatementRule} :
    monkey.statement? kind = some rule ↔ kind = rule.keyword := by
  cases rule <;> cases kind <;> decide

/-- A token that begins an operand begins no statement of its own. -/
theorem statement?_eq_none (begins : monkey.operand? kind ≠ none) :
    monkey.statement? kind = none := by
  revert begins
  cases kind <;> decide

/-- A token that binds an operand on its left continues an expression. -/
theorem fold?_ne_none {power : BindingPower} (binds : power < monkey.power kind) :
    monkey.fold? kind ≠ none := by
  revert binds
  cases power <;> cases kind <;> decide

theorem fold?_eq_call_iff : monkey.fold? kind = some .call ↔ kind = .openParen := by
  cases kind <;> decide

/-- A token that continues an expression by a right operand is an operator of some stratum. -/
theorem exists_stratum_of_binary (found : monkey.fold? kind = some .binary) :
    ∃ stratum : Stratum, kind ∈ stratum.operators ∧ monkey.power kind = stratum.power := by
  cases kind with
  | equal | notEqual => exact ⟨.equality, by decide⟩
  | less | greater => exact ⟨.comparison, by decide⟩
  | plus | minus => exact ⟨.sum, by decide⟩
  | asterisk | slash => exact ⟨.product, by decide⟩
  | _ => contradiction

theorem of_mem_operators {stratum : Stratum} (mem : kind ∈ stratum.operators) :
    monkey.power kind = stratum.power ∧ monkey.fold? kind = some .binary ∧
      stratum ≠ .unary ∧ stratum.power < .call := by
  cases stratum with
  | equality | comparison | sum | product =>
      simp only [Stratum.operators, List.mem_cons, List.not_mem_nil, or_false] at mem
      rcases mem with rfl | rfl <;> decide
  | unary | call | primary => simp [Stratum.operators] at mem

end RuleTable

/-- The words of list elements with a comma in front of each, one after another. -/
inductive AfterCommas : List (List Token) → List Token → Prop where
  | nil : AfterCommas [] []
  | cons {comma : Token} {word rest : List Token} {words : List (List Token)}
      (separates : comma.kind = .comma) (others : AfterCommas words rest) :
      AfterCommas (word :: words) (comma :: word ++ rest)

/-- The words of list elements with a comma between each two, one after another. -/
inductive CommaSeparated : List (List Token) → List Token → Prop where
  | nil : CommaSeparated [] []
  | cons {word rest : List Token} {words : List (List Token)} (others : AfterCommas words rest) :
      CommaSeparated (word :: words) (word ++ rest)

/-- A word of tokens belongs to a stratum and stands for a tree. -/
inductive Derives : Stratum → List Token → Expr → Prop where
  | identifier {token : Token} (kind : token.kind = .identifier) :
      Derives .primary [token] (.identifier ⟨token, token.literal⟩)
  | integer {token : Token} {value : Nat} (kind : token.kind = .integer)
      (numeral : decimal? token.literal = some value) (small : value ≤ maxInteger) :
      Derives .primary [token] (.integer token value)
  | trueWord {token : Token} (kind : token.kind = .trueWord) :
      Derives .primary [token] (.boolean token true)
  | falseWord {token : Token} (kind : token.kind = .falseWord) :
      Derives .primary [token] (.boolean token false)
  | group {opening closing : Token} {word : List Token} {expr : Expr}
      (opens : opening.kind = .openParen) (inside : Derives .equality word expr)
      (closes : closing.kind = .closeParen) :
      Derives .primary (opening :: word ++ [closing]) expr
  | call {opening closing : Token} {word inside : List Token} {function : Expr}
      {arguments : List (List Token × Expr)} (callee : Derives .call word function)
      (opens : opening.kind = .openParen)
      (separated : CommaSeparated (arguments.map Prod.fst) inside)
      (each : ∀ argument ∈ arguments, Derives .equality argument.1 argument.2)
      (closes : closing.kind = .closeParen) :
      Derives .call (word ++ (opening :: inside ++ [closing]))
        (.call opening function (arguments.map Prod.snd))
  | unary {operator : Token} {word : List Token} {right : Expr}
      (kind : operator.kind = .bang ∨ operator.kind = .minus)
      (operand : Derives .unary word right) :
      Derives .unary (operator :: word) (.unary operator operator.literal right)
  | binary {stratum : Stratum} {operator : Token} {leftWord rightWord : List Token}
      {left right : Expr} (kind : operator.kind ∈ stratum.operators)
      (first : Derives stratum leftWord left) (second : Derives stratum.tighter rightWord right) :
      Derives stratum (leftWord ++ operator :: rightWord)
        (.binary operator operator.literal left right)
  | tighter {stratum : Stratum} {word : List Token} {expr : Expr}
      (finer : Derives stratum.tighter word expr) : Derives stratum word expr

/-- A word of tokens, the semicolon at its end included, is a statement and stands for a tree. -/
inductive DerivesStatement : List Token → Stmt → Prop where
  | binding {keyword name assign semicolon : Token} {word : List Token} {value : Expr}
      (keyword_kind : keyword.kind = .letWord) (name_kind : name.kind = .identifier)
      (assign_kind : assign.kind = .assign) (bound : Derives .equality word value)
      (ends : semicolon.kind = .semicolon) :
      DerivesStatement (keyword :: name :: assign :: word ++ [semicolon])
        (.binding keyword ⟨name, name.literal⟩ value)
  | result {keyword semicolon : Token} {word : List Token} {value : Expr}
      (keyword_kind : keyword.kind = .returnWord) (returned : Derives .equality word value)
      (ends : semicolon.kind = .semicolon) :
      DerivesStatement (keyword :: word ++ [semicolon]) (.result keyword value)
  | expression {first semicolon : Token} {word : List Token} {expr : Expr}
      (derived : Derives .equality (first :: word) expr)
      (ends : semicolon.kind = .semicolon) :
      DerivesStatement (first :: word ++ [semicolon]) (.expression first expr)

/-- Behind a list element stands a token that binds it no more tightly than no operator at all. -/
theorem AfterCommas.power_headD {words : List (List Token)} {inside : List Token} {closing : Token}
    (separated : AfterCommas words inside) (closes : closing.kind = .closeParen) :
    RuleTable.monkey.power (inside.headD closing).kind = .lowest := by
  cases separated with
  | nil => rw [List.headD_nil, closes]; rfl
  | cons comma _ => rw [List.cons_append, List.headD_cons, comma]; rfl

namespace Derives

variable {stratum finer : Stratum} {word : List Token} {expr : Expr}

/-- What a tighter stratum derives, a looser one derives as well. -/
theorem loosen (derived : Derives finer word expr) (le : stratum.rank ≤ finer.rank) :
    Derives stratum word expr :=
  Stratum.loosen (motive := fun stratum => Derives stratum word expr) (fun _ => .tighter) le derived

/-- No expression is made of no token. -/
theorem ne_nil (derived : Derives stratum word expr) : word ≠ [] := by
  induction derived with
  | tighter _ ih => exact ih
  | _ => simp

end Derives

end MonkeySyntax
