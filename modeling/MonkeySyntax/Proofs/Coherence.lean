import MonkeySyntax.Proofs.Grammar
import MonkeySyntax.Proofs.Lexing
import MonkeySyntax.Tree.Program

/-!
# Trees that are read

The trees that the grammar builds from the tokens of a source text are coherent: every node keeps a
token of the right kind, and its value is what that token says.  Two trees are the same up to the
places of their tokens if they agree once the places are erased; erasing does not change the text.
-/

namespace MonkeySyntax

/-! ### Trees without places -/

namespace Expr

mutual

/-- An expression without the places of its tokens. -/
def erase : Expr → Expr
  | identifier name => identifier ⟨name.token.erase, name.value⟩
  | integer token value => integer token.erase value
  | boolean token value => boolean token.erase value
  | unary token operator right => unary token.erase operator (erase right)
  | binary token operator left right =>
      binary token.erase operator (erase left) (erase right)
  | call token function arguments => call token.erase (erase function) (eraseAll arguments)

/-- Expressions without the places of their tokens. -/
def eraseAll : List Expr → List Expr
  | [] => []
  | expr :: rest => erase expr :: eraseAll rest

end

@[simp]
theorem eraseAll_eq_map (exprs : List Expr) : eraseAll exprs = exprs.map erase := by
  induction exprs with
  | nil => rfl
  | cons expr rest ih => simp [eraseAll, ih]

mutual

/-- The text of an expression does not depend on places. -/
theorem render_erase : ∀ expr : Expr, expr.erase.render = expr.render
  | identifier _ | integer _ _ | boolean _ _ => rfl
  | unary _ _ right => by simp [erase, render, render_erase right]
  | binary _ _ left right => by simp [erase, render, render_erase left, render_erase right]
  | call _ function arguments => by
      rw [erase, render, render, render_erase function, renderAll_eraseAll arguments]

theorem renderAll_eraseAll : ∀ exprs : List Expr, renderAll (eraseAll exprs) = renderAll exprs
  | [] => rfl
  | expr :: rest => by rw [eraseAll, renderAll, renderAll, render_erase expr,
      renderAll_eraseAll rest]

end

end Expr

namespace Stmt

/-- A statement without the places of its tokens, and without the first token of an expression. -/
def erase : Stmt → Stmt
  | binding token name value => binding token.erase ⟨name.token.erase, name.value⟩ value.erase
  | result token value => result token.erase value.erase
  | expression _ expr => expression (.endOfInput 0) expr.erase

theorem render_erase (stmt : Stmt) : stmt.erase.render = stmt.render := by
  cases stmt with
  | binding token name value => simp [erase, render, value.render_erase]
  | result token value => simp [erase, render, value.render_erase]
  | expression token expr => simp [erase, render, expr.render_erase]

end Stmt

/-! ### Trees that are read -/

/-- The tokens of a tree were read and are of the right kinds, and its values are what the tokens
say. -/
inductive Expr.Coherent : Expr → Prop where
  | identifier {token : Token} (lexed : token.IsLexed) (kind_eq : token.kind = .identifier) :
      Coherent (.identifier ⟨token, token.literal⟩)
  | integer {token : Token} {value : Nat} (lexed : token.IsLexed) (kind_eq : token.kind = .integer)
      (value_eq : integerValue? token.literal = some value) : Coherent (.integer token value)
  | boolean {token : Token} (lexed : token.IsLexed)
      (kind_eq : token.kind = .trueWord ∨ token.kind = .falseWord) :
      Coherent (.boolean token (token.kind = .trueWord))
  | unary {token : Token} {right : Expr} (lexed : token.IsLexed)
      (kind_eq : token.kind = .bang ∨ token.kind = .minus) (operand : right.Coherent) :
      Coherent (.unary token token.literal right)
  | binary {stratum : Stratum} {token : Token} {left right : Expr} (lexed : token.IsLexed)
      (kind_mem : token.kind ∈ stratum.operators) (first : left.Coherent)
      (second : right.Coherent) : Coherent (.binary token token.literal left right)
  | call {token : Token} {function : Expr} {arguments : List Expr} (lexed : token.IsLexed)
      (kind_eq : token.kind = .openParen) (callee : function.Coherent)
      (each : ∀ argument ∈ arguments, argument.Coherent) :
      Coherent (.call token function arguments)

/-- The tokens of a statement were read and are of the right kinds. -/
inductive Stmt.Coherent : Stmt → Prop where
  | binding {keyword name : Token} {value : Expr} (keyword_lexed : keyword.IsLexed)
      (keyword_kind : keyword.kind = .letWord) (name_lexed : name.IsLexed)
      (name_kind : name.kind = .identifier) (bound : value.Coherent) :
      Coherent (.binding keyword ⟨name, name.literal⟩ value)
  | result {keyword : Token} {value : Expr} (keyword_lexed : keyword.IsLexed)
      (keyword_kind : keyword.kind = .returnWord) (returned : value.Coherent) :
      Coherent (.result keyword value)
  | expression {token : Token} {expr : Expr} (coherent : expr.Coherent) :
      Coherent (.expression token expr)

theorem AfterCommas.subset {words : List (List Token)} {inside word : List Token}
    (separated : AfterCommas words inside) (mem : word ∈ words) : word ⊆ inside := by
  induction separated with
  | nil => contradiction
  | cons comma others ih =>
      rcases List.mem_cons.mp mem with rfl | mem
      · intro token token_mem
        simp [token_mem]
      · intro token token_mem
        simp [ih mem token_mem]

theorem CommaSeparated.subset {words : List (List Token)} {inside word : List Token}
    (separated : CommaSeparated words inside) (mem : word ∈ words) : word ⊆ inside := by
  cases separated with
  | nil => contradiction
  | cons others =>
      rcases List.mem_cons.mp mem with rfl | mem
      · exact List.subset_append_left _ _
      · exact List.subset_append_of_subset_right _ (others.subset mem)

/-- The grammar builds coherent trees from tokens that were read. -/
theorem Derives.coherent {stratum : Stratum} {word : List Token} {expr : Expr}
    (derived : Derives stratum word expr) (lexed : ∀ token ∈ word, token.IsLexed) :
    expr.Coherent := by
  induction derived with
  | identifier kind_eq => exact .identifier (lexed _ List.mem_cons_self) kind_eq
  | integer kind_eq numeral small =>
      exact .integer (lexed _ List.mem_cons_self) kind_eq
        (integerValue?_eq_some_iff.mpr ⟨numeral, small⟩)
  | trueWord kind_eq =>
      have coherent := Expr.Coherent.boolean (lexed _ List.mem_cons_self) (.inl kind_eq)
      simpa [kind_eq] using coherent
  | falseWord kind_eq =>
      have coherent := Expr.Coherent.boolean (lexed _ List.mem_cons_self) (.inr kind_eq)
      simpa [kind_eq] using coherent
  | group opens _ closes ih => exact ih fun token mem => lexed token (by simp [mem])
  | @call opening closing word inside function elements _ opens separated _ closes callee_ih
      each_ih =>
      refine .call (lexed opening (by simp)) opens
        (callee_ih fun token mem => lexed token (by simp [mem])) fun argument mem => ?_
      obtain ⟨element, element_mem, rfl⟩ := List.mem_map.mp mem
      have inside_word := separated.subset (List.mem_map_of_mem element_mem)
      exact each_ih element element_mem fun token mem => lexed token (by simp [inside_word mem])
  | unary kind_eq _ ih =>
      exact .unary (lexed _ List.mem_cons_self) kind_eq
        (ih fun token mem => lexed token (by simp [mem]))
  | binary kind_mem _ _ left_ih right_ih =>
      exact .binary (lexed _ (by simp)) kind_mem
        (left_ih fun token mem => lexed token (by simp [mem]))
        (right_ih fun token mem => lexed token (by simp [mem]))
  | tighter _ ih => exact ih lexed

end MonkeySyntax
