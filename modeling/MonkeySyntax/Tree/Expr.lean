import MonkeySyntax.Token.Basic

/-!
# Expressions

Syntax trees of expressions.  Every node keeps the token that it was built from, and a group in
parentheses has no node.  The rendering writes an operator with its operands in parentheses, so
that the shape of the tree can be read off the text.

An argument list holds expressions within an expression; each recursion over trees therefore comes
with a companion over lists of trees.
-/

namespace MonkeySyntax

/-- A name at a place in the source text. -/
structure Identifier where
  /-- The token that spells the name. -/
  token : Token
  /-- The name. -/
  value : String
deriving DecidableEq, Repr

/-- An expression. -/
inductive Expr where
  /-- A name. -/
  | identifier (name : Identifier)
  /-- An integer. -/
  | integer (token : Token) (value : Int)
  /-- A truth value. -/
  | boolean (token : Token) (value : Bool)
  /-- An operator in front of its operand. -/
  | unary (token : Token) (operator : String) (right : Expr)
  /-- An operator between two operands. -/
  | binary (token : Token) (operator : String) (left right : Expr)
  /-- A call; the token is the parenthesis that opens the argument list. -/
  | call (token : Token) (function : Expr) (arguments : List Expr)
deriving Repr

namespace Expr

/-- The token that the root of an expression was built from. -/
def token : Expr → Token
  | identifier name => name.token
  | integer token _ => token
  | boolean token _ => token
  | unary token _ _ => token
  | binary token _ _ _ => token
  | call token _ _ => token

mutual

/-- The text of an expression.  An integer is written as its token spells it; names, truth values
and operators are written by value. -/
def render : Expr → String
  | identifier name => name.value
  | integer token _ => token.literal
  | boolean _ value => toString value
  | unary _ operator right => "(" ++ operator ++ render right ++ ")"
  | binary _ operator left right =>
      "(" ++ render left ++ " " ++ operator ++ " " ++ render right ++ ")"
  | call _ function arguments =>
      render function ++ "(" ++ ", ".intercalate (renderAll arguments) ++ ")"

/-- The texts of several expressions, in their order. -/
def renderAll : List Expr → List String
  | [] => []
  | expr :: rest => render expr :: renderAll rest

end

instance : ToString Expr where
  toString := render

@[simp]
theorem renderAll_eq_map (exprs : List Expr) : renderAll exprs = exprs.map render := by
  induction exprs with
  | nil => rfl
  | cons expr rest ih => simp [renderAll, ih]

mutual

/-- Whether two expressions agree in every node, token, value and operator. -/
def same : Expr → Expr → Bool
  | identifier left, identifier right => left = right
  | integer token value, integer token' value' => token = token' && value = value'
  | boolean token value, boolean token' value' => token = token' && value = value'
  | unary token operator right, unary token' operator' right' =>
      token = token' && operator = operator' && same right right'
  | binary token operator left right, binary token' operator' left' right' =>
      token = token' && operator = operator' && same left left' && same right right'
  | call token function arguments, call token' function' arguments' =>
      token = token' && same function function' && sameAll arguments arguments'
  | _, _ => false

/-- Whether two lists of expressions agree, element by element. -/
def sameAll : List Expr → List Expr → Bool
  | [], [] => true
  | expr :: rest, expr' :: rest' => same expr expr' && sameAll rest rest'
  | _, _ => false

end

mutual

theorem eq_of_same : ∀ {left right : Expr}, same left right = true → left = right
  | identifier _, right, agree => by
      cases right <;> simp_all [same]
  | integer _ _, right, agree => by
      cases right <;> simp_all [same]
  | boolean _ _, right, agree => by
      cases right <;> simp_all [same]
  | unary _ _ operand, right, agree => by
      cases right <;> simp only [same, Bool.and_eq_true, decide_eq_true_eq, reduceCtorEq] at agree
      simp [agree, eq_of_same agree.2]
  | binary _ _ first second, right, agree => by
      cases right <;> simp only [same, Bool.and_eq_true, decide_eq_true_eq, reduceCtorEq] at agree
      simp [agree, eq_of_same agree.1.2, eq_of_same agree.2]
  | call _ function arguments, right, agree => by
      cases right <;> simp only [same, Bool.and_eq_true, decide_eq_true_eq, reduceCtorEq] at agree
      simp [agree, eq_of_same agree.1.2, eq_of_sameAll agree.2]

theorem eq_of_sameAll : ∀ {left right : List Expr}, sameAll left right = true → left = right
  | [], right, agree => by
      cases right <;> simp_all [sameAll]
  | expr :: rest, right, agree => by
      cases right <;> simp only [sameAll, Bool.and_eq_true, reduceCtorEq] at agree
      simp [eq_of_same agree.1, eq_of_sameAll agree.2]

end

mutual

theorem same_self : ∀ expr : Expr, same expr expr = true
  | identifier _ | integer _ _ | boolean _ _ => by simp [same]
  | unary _ _ right => by simp [same, same_self right]
  | binary _ _ left right => by simp [same, same_self left, same_self right]
  | call _ function arguments => by simp [same, same_self function, sameAll_self arguments]

theorem sameAll_self : ∀ exprs : List Expr, sameAll exprs exprs = true
  | [] => rfl
  | expr :: rest => by simp [sameAll, same_self expr, sameAll_self rest]

end

theorem same_iff {left right : Expr} : same left right = true ↔ left = right :=
  ⟨eq_of_same, fun equal => equal ▸ same_self left⟩

instance : DecidableEq Expr := fun _ _ => decidable_of_iff _ same_iff

end Expr

end MonkeySyntax
