import MonkeySyntax.Proofs.Refinement

/-!
# Tables of handlers and how they are filled

A table of handlers is filled by registrations, one after another, and a later one takes the place
of an earlier one for the same kind of token.  What a handler is does not matter: it may be the name
of a rule or anything else that reads tokens.  The table keeps the handler of a fold and its binding
power apart, but both stem from the same registration.  So a token that binds an operand on its left
has a handler, and an expression is never ended for want of one.
-/

namespace MonkeySyntax

/-! ### Registrations -/

/-- A handler for a kind of token, and where it is to be entered. -/
inductive Registration (Statement Operand Fold : Type) where
  /-- A handler for statements that begin with a token of the kind. -/
  | statement (kind : Token.Kind) (handler : Statement)
  /-- A handler for operands that begin with a token of the kind. -/
  | operand (kind : Token.Kind) (handler : Operand)
  /-- A handler for folds by a token of the kind, and how tightly the token binds. -/
  | fold (kind : Token.Kind) (power : BindingPower) (handler : Fold)

namespace Registration

variable {Statement Operand Fold : Type} (kind : Token.Kind)

/-- What is registered for statements that begin with a kind of token. -/
def statement? : Registration Statement Operand Fold → Option Statement
  | statement registered handler => if kind = registered then some handler else none
  | _ => none

/-- What is registered for operands that begin with a kind of token. -/
def operand? : Registration Statement Operand Fold → Option Operand
  | operand registered handler => if kind = registered then some handler else none
  | _ => none

/-- What is registered for folds by a kind of token. -/
def fold? : Registration Statement Operand Fold → Option (BindingPower × Fold)
  | fold registered power handler => if kind = registered then some (power, handler) else none
  | _ => none

variable {kind} in
theorem fold?_eq_some_iff {registration : Registration Statement Operand Fold}
    {power : BindingPower} {handler : Fold} :
    registration.fold? kind = some (power, handler) ↔
      registration = .fold kind power handler := by
  cases registration with
  | fold registered registered_power registered_handler =>
      simp only [fold?, Option.ite_none_right_eq_some, Option.some.injEq, Prod.mk.injEq, fold.injEq]
      rw [eq_comm]
  | _ => simp [fold?]

end Registration

/-- The handlers for each kind of token.  The binding power of a fold is kept apart from its
handler. -/
structure HandlerTable (Statement Operand Fold : Type) where
  /-- The handlers for statements. -/
  statement? : Token.Kind → Option Statement := fun _ => none
  /-- The handlers for operands. -/
  operand? : Token.Kind → Option Operand := fun _ => none
  /-- The handlers for folds. -/
  fold? : Token.Kind → Option Fold := fun _ => none
  /-- The binding powers that are registered. -/
  power? : Token.Kind → Option BindingPower := fun _ => none

namespace HandlerTable

variable {Statement Operand Fold : Type}

/-- How tightly a kind of token binds the operand on its left. -/
def power (table : HandlerTable Statement Operand Fold) (kind : Token.Kind) : BindingPower :=
  (table.power? kind).getD .lowest

/-- The table with a registration entered. -/
def register (table : HandlerTable Statement Operand Fold) :
    Registration Statement Operand Fold → HandlerTable Statement Operand Fold
  | .statement kind handler =>
      { table with statement? := RuleTable.update table.statement? kind (some handler) }
  | .operand kind handler =>
      { table with operand? := RuleTable.update table.operand? kind (some handler) }
  | .fold kind power handler =>
      { table with
        fold? := RuleTable.update table.fold? kind (some handler)
        power? := RuleTable.update table.power? kind (some power) }

/-- The table after some registrations, with nothing in it at first. -/
def ofRegistrations (registrations : List (Registration Statement Operand Fold)) :
    HandlerTable Statement Operand Fold :=
  registrations.foldl register {}

/-! ### One registration -/

section

variable (table : HandlerTable Statement Operand Fold)
  (registration : Registration Statement Operand Fold) (kind : Token.Kind)

theorem update_some_eq_or {Entry : Type} (entries : Token.Kind → Option Entry) (entry : Entry)
    (registered : Token.Kind) :
    RuleTable.update entries registered (some entry) kind =
      (if kind = registered then some entry else none).or (entries kind) := by
  unfold RuleTable.update
  split <;> rfl

/-- Both maps of folds are updated alike, each with its part of what is registered. -/
theorem update_part_eq_or {Entry : Type} (part : BindingPower × Fold → Entry)
    (entries : Token.Kind → Option Entry) (registered : Token.Kind)
    (entry : BindingPower × Fold) :
    RuleTable.update entries registered (some (part entry)) kind =
      ((if kind = registered then some entry else none).map part).or (entries kind) := by
  rw [update_some_eq_or, apply_ite (Option.map part)]
  rfl

theorem statement?_register :
    (table.register registration).statement? kind =
      (registration.statement? kind).or (table.statement? kind) := by
  cases registration with
  | statement registered handler => exact update_some_eq_or kind _ handler registered
  | _ => rfl

theorem operand?_register :
    (table.register registration).operand? kind =
      (registration.operand? kind).or (table.operand? kind) := by
  cases registration with
  | operand registered handler => exact update_some_eq_or kind _ handler registered
  | _ => rfl

theorem fold?_register :
    (table.register registration).fold? kind =
      ((registration.fold? kind).map Prod.snd).or (table.fold? kind) := by
  cases registration with
  | fold registered power handler =>
      exact update_part_eq_or kind Prod.snd table.fold? registered (power, handler)
  | _ => rfl

theorem power?_register :
    (table.register registration).power? kind =
      ((registration.fold? kind).map Prod.fst).or (table.power? kind) := by
  cases registration with
  | fold registered power handler =>
      exact update_part_eq_or kind Prod.fst table.power? registered (power, handler)
  | _ => rfl

end

/-! ### Any sequence of registrations -/

section

variable (registrations : List (Registration Statement Operand Fold)) (kind : Token.Kind)

/-- What each registration replaces, or leaves as it is, is in the end what the last one that
replaces it says. -/
theorem foldl_register {Entry : Type} (read : HandlerTable Statement Operand Fold → Option Entry)
    (written? : Registration Statement Operand Fold → Option Entry)
    (read_register : ∀ table registration,
      read (table.register registration) = (written? registration).or (read table))
    (table : HandlerTable Statement Operand Fold) :
    read (registrations.foldl register table) =
      (registrations.filterMap written?).getLast?.or (read table) := by
  induction registrations generalizing table with
  | nil => rfl
  | cons registration registrations ih =>
      rw [List.foldl_cons, ih, read_register]
      cases entry_eq : written? registration with
      | none => rw [List.filterMap_cons_none entry_eq, Option.none_or]
      | some entry =>
          rw [List.filterMap_cons_some entry_eq, List.getLast?_cons]
          cases (registrations.filterMap written?).getLast? <;> rfl

theorem statement?_ofRegistrations :
    (ofRegistrations registrations).statement? kind =
      (registrations.filterMap (·.statement? kind)).getLast? :=
  (foldl_register registrations (·.statement? kind) _
    (fun table registration => table.statement?_register registration kind) {}).trans
    Option.or_none

theorem operand?_ofRegistrations :
    (ofRegistrations registrations).operand? kind =
      (registrations.filterMap (·.operand? kind)).getLast? :=
  (foldl_register registrations (·.operand? kind) _
    (fun table registration => table.operand?_register registration kind) {}).trans
    Option.or_none

theorem fold?_ofRegistrations :
    (ofRegistrations registrations).fold? kind =
      (registrations.filterMap (·.fold? kind)).getLast?.map Prod.snd := by
  rw [← List.getLast?_map, List.map_filterMap]
  exact (foldl_register registrations (·.fold? kind) _
    (fun table registration => table.fold?_register registration kind) {}).trans Option.or_none

theorem power?_ofRegistrations :
    (ofRegistrations registrations).power? kind =
      (registrations.filterMap (·.fold? kind)).getLast?.map Prod.fst := by
  rw [← List.getLast?_map, List.map_filterMap]
  exact (foldl_register registrations (·.power? kind) _
    (fun table registration => table.power?_register registration kind) {}).trans Option.or_none

/-- A kind of token has a fold if and only if one was registered for it. -/
theorem isSome_fold?_ofRegistrations :
    ((ofRegistrations registrations).fold? kind).isSome = true ↔
      ∃ power handler, .fold kind power handler ∈ registrations := by
  rw [fold?_ofRegistrations, Option.isSome_map, List.getLast?_isSome]
  constructor
  · intro nonempty
    obtain ⟨⟨power, handler⟩, entry_mem⟩ := List.exists_mem_of_ne_nil _ nonempty
    obtain ⟨registration, mem, entry_eq⟩ := List.mem_filterMap.mp entry_mem
    obtain rfl := Registration.fold?_eq_some_iff.mp entry_eq
    exact ⟨power, handler, mem⟩
  · rintro ⟨power, handler, mem⟩
    exact List.ne_nil_of_mem
      (List.mem_filterMap.mpr ⟨_, mem, Registration.fold?_eq_some_iff.mpr rfl⟩)

/-- The handler of a fold and its binding power are registered together. -/
theorem isSome_fold?_of_lt_power {power : BindingPower}
    (binds : power < (ofRegistrations registrations).power kind) :
    ((ofRegistrations registrations).fold? kind).isSome = true := by
  rw [fold?_ofRegistrations, Option.isSome_map]
  rw [HandlerTable.power, power?_ofRegistrations] at binds
  cases found : (registrations.filterMap (·.fold? kind)).getLast? with
  | none =>
      rw [found] at binds
      exact absurd binds (Nat.not_lt_zero _)
  | some last => rfl

/-- What a table holds for a kind of token, told from the registrations alone. -/
structure HoldsLast (table : HandlerTable Statement Operand Fold) : Prop where
  /-- A fold is there if and only if one was registered. -/
  isSome_fold? : (table.fold? kind).isSome = true ↔
    ∃ power handler, .fold kind power handler ∈ registrations
  /-- The handler of a fold is the one that was registered last. -/
  fold?_eq : table.fold? kind = (registrations.filterMap (·.fold? kind)).getLast?.map Prod.snd
  /-- The binding power is the one that was registered last, or the lowest. -/
  power_eq : table.power kind =
    ((registrations.filterMap (·.fold? kind)).getLast?.map Prod.fst).getD .lowest
  /-- The handler for operands is the one that was registered last. -/
  operand?_eq : table.operand? kind = (registrations.filterMap (·.operand? kind)).getLast?
  /-- The handler for statements is the one that was registered last. -/
  statement?_eq : table.statement? kind = (registrations.filterMap (·.statement? kind)).getLast?

theorem holdsLast_ofRegistrations :
    HoldsLast registrations kind (ofRegistrations registrations) where
  isSome_fold? := isSome_fold?_ofRegistrations registrations kind
  fold?_eq := fold?_ofRegistrations registrations kind
  power_eq := congrArg (·.getD .lowest) (power?_ofRegistrations registrations kind)
  operand?_eq := operand?_ofRegistrations registrations kind
  statement?_eq := statement?_ofRegistrations registrations kind

/-- Two tables hold the same for folds, for operands or for statements that begin with a kind of
token, each unless a registration says something about it. -/
structure AgreeBut (other : Registration Statement Operand Fold)
    (first second : HandlerTable Statement Operand Fold) : Prop where
  /-- The handler of a fold and its binding power are the same. -/
  fold? : other.fold? kind = none →
    first.fold? kind = second.fold? kind ∧ first.power kind = second.power kind
  /-- The handler for operands is the same. -/
  operand? : other.operand? kind = none → first.operand? kind = second.operand? kind
  /-- The handler for statements is the same. -/
  statement? : other.statement? kind = none → first.statement? kind = second.statement? kind

/-- A registration that says nothing about a kind of token can be left out, wherever it stands. -/
theorem agreeBut_without (other : Registration Statement Operand Fold)
    (before after : List (Registration Statement Operand Fold)) :
    AgreeBut kind other (ofRegistrations (before ++ other :: after))
      (ofRegistrations (before ++ after)) := by
  have without {Entry : Type} {written? : Registration Statement Operand Fold → Option Entry}
      (apart : written? other = none) :
      (before ++ other :: after).filterMap written? = (before ++ after).filterMap written? := by
    rw [List.filterMap_append, List.filterMap_append, List.filterMap_cons_none apart]
  refine ⟨fun apart => ⟨?_, ?_⟩, fun apart => ?_, fun apart => ?_⟩
  · rw [fold?_ofRegistrations, fold?_ofRegistrations, without apart]
  · rw [power, power, power?_ofRegistrations, power?_ofRegistrations, without apart]
  · rw [operand?_ofRegistrations, operand?_ofRegistrations, without apart]
  · rw [statement?_ofRegistrations, statement?_ofRegistrations, without apart]

end

/-! ### Expressions over any table -/

/-- The fold that a kind of token begins, if it binds more tightly than `power`.  There is a
second `none` for a token that does so without a handler. -/
def foldAbove (table : HandlerTable Statement Operand Fold) (power : BindingPower)
    (kind : Token.Kind) : Option (Option Fold) :=
  if kind ≠ .semicolon ∧ power < table.power kind then some (table.fold? kind) else none

section

/-! The parameters say what the handlers do with an expression one level further in, and what is to
be done when a token binds tightly enough but has no handler. -/

variable (table : HandlerTable Statement Operand Fold)
  (operandOf : (BindingPower → Parse Expr) → Operand → Parse Expr)
  (foldOf : (BindingPower → Parse Expr) → Expr → Fold → Parse Expr)
  (missing : Expr → Parse Expr)

/-- Reads the operand that begins with the current token. -/
def operand (nested : BindingPower → Parse Expr) : Parse Expr := do
  let token ← .current
  match table.operand? token.kind with
  | some handler => operandOf nested handler
  | none => .fail ⟨.noOperand token.kind, token.span.start⟩

mutual

/-- Reads an expression in which `room` levels are free and every fold binds more tightly than
`power`. -/
def expression : (room : Nat) → (power : BindingPower) → Parse Expr
  | 0, _ => .tooDeep
  | room + 1, power => do
      let left ← table.operand operandOf (expression room)
      folds room power left

/-- Reads the folds that continue `left`. -/
def folds : (room : Nat) → (power : BindingPower) → (left : Expr) → Parse Expr
  | 0, power, left => do
      let next ← .peek
      match table.foldAbove power next.kind with
      | some (some _) => .tooDeep
      | some none => missing left
      | none => pure left
  | room + 1, power, left => do
      let next ← .peek
      match table.foldAbove power next.kind with
      | some (some handler) =>
          .advance
          let longer ← foldOf (expression room) left handler
          folds room power longer
      | some none => missing left
      | none => pure left

end

/-- What is to be done about a missing handler does not matter if no handler is ever missing. -/
theorem expression_eq_of_never
    (never : ∀ power kind, table.foldAbove power kind ≠ some none)
    (otherwise : Expr → Parse Expr) (room : Nat) :
    (∀ power, table.expression operandOf foldOf missing room power =
        table.expression operandOf foldOf otherwise room power) ∧
      ∀ power left, table.folds operandOf foldOf missing room power left =
        table.folds operandOf foldOf otherwise room power left := by
  induction room with
  | zero =>
      refine ⟨fun _ => rfl, fun power left => ?_⟩
      rw [folds, folds]
      refine bind_congr fun next => ?_
      rcases found : table.foldAbove power next.kind with _ | _ | handler
      · rfl
      · exact absurd found (never power next.kind)
      · rfl
  | succ room ih =>
      obtain ⟨expression_eq, folds_eq⟩ := ih
      have nested_eq := funext expression_eq
      refine ⟨fun power => ?_, fun power left => ?_⟩
      · rw [expression, expression, nested_eq]
        exact bind_congr fun left => folds_eq power left
      · rw [folds, folds]
        refine bind_congr fun next => ?_
        rcases found : table.foldAbove power next.kind with _ | _ | handler
        · rfl
        · exact absurd found (never power next.kind)
        · rw [nested_eq]
          exact bind_congr fun _ => bind_congr fun longer => folds_eq power longer

end

/-- No handler is missing in a table that is built by registrations. -/
theorem foldAbove_ofRegistrations_ne (registrations : List (Registration Statement Operand Fold))
    (power : BindingPower) (kind : Token.Kind) :
    (ofRegistrations registrations).foldAbove power kind ≠ some none := by
  unfold foldAbove
  split
  · next binds =>
      have found := isSome_fold?_of_lt_power registrations kind binds.2
      intro missing
      rw [Option.some.inj missing] at found
      contradiction
  · exact nofun

/-- In a table that is filled in another way a handler can be missing. -/
example : ({ power? := fun _ => some .sum } : HandlerTable Unit Unit Unit).foldAbove
    .lowest .plus = some none := rfl

/-! ### The rules of the language -/

/-- The table of rules that says the same. -/
def rules (table : HandlerTable StatementRule OperandRule FoldRule) : RuleTable where
  statement? := table.statement?
  operand? := table.operand?
  fold? := table.fold?
  power := table.power

end HandlerTable

/-- The table with a rule registered. -/
def RuleTable.register (table : RuleTable) :
    Registration StatementRule OperandRule FoldRule → RuleTable
  | .statement kind rule => table.registerStatement kind rule
  | .operand kind rule => table.registerOperand kind rule
  | .fold kind power rule => table.registerFold kind power rule

/-- The registrations that make up the rules of the Monkey language. -/
def monkeyRegistrations : List (Registration StatementRule OperandRule FoldRule) :=
  [.fold .equal .equality .binary, .fold .notEqual .equality .binary,
    .fold .less .comparison .binary, .fold .greater .comparison .binary,
    .fold .plus .sum .binary, .fold .minus .sum .binary,
    .fold .asterisk .product .binary, .fold .slash .product .binary,
    .fold .openParen .call .call,
    .operand .identifier .identifier, .operand .integer .integer,
    .operand .trueWord .boolean, .operand .falseWord .boolean,
    .operand .bang .unary, .operand .minus .unary, .operand .openParen .group,
    .statement .letWord .binding, .statement .returnWord .result]

theorem RuleTable.monkey_eq_foldl : monkey = monkeyRegistrations.foldl register empty := rfl

namespace HandlerTable

theorem rules_register (table : HandlerTable StatementRule OperandRule FoldRule)
    (registration : Registration StatementRule OperandRule FoldRule) :
    (table.register registration).rules = table.rules.register registration := by
  cases registration with
  | fold registered power rule =>
      have power_eq : (table.register (.fold registered power rule)).power =
          RuleTable.update table.power registered power := by
        funext kind
        exact apply_ite (·.getD .lowest) (kind = registered) (some power) (table.power? kind)
      rw [rules, power_eq]
      rfl
  | _ => rfl

/-- Rules are registered as handlers are. -/
theorem rules_ofRegistrations
    (registrations : List (Registration StatementRule OperandRule FoldRule)) :
    (ofRegistrations registrations).rules =
      registrations.foldl RuleTable.register RuleTable.empty := by
  suffices from_table : ∀ table : HandlerTable StatementRule OperandRule FoldRule,
      (registrations.foldl register table).rules =
        registrations.foldl RuleTable.register table.rules from from_table {}
  induction registrations with
  | nil => exact fun _ => rfl
  | cons registration registrations ih =>
      intro table
      rw [List.foldl_cons, List.foldl_cons, ih, rules_register]

section

variable {table : HandlerTable StatementRule OperandRule FoldRule}
  (rules_eq : table.rules = .monkey)
include rules_eq

theorem operand_eq_of_rules (nested : BindingPower → Parse Expr) :
    table.operand Parse.ofOperandRule nested = Parse.operand nested := by
  rw [Parse.operand, ← rules_eq]
  refine bind_congr fun token => ?_
  dsimp only [rules]
  cases table.operand? token.kind <;> rfl

theorem foldAbove_eq_of_rules (power : BindingPower) :
    Parse.foldAbove power =
      Parse.peek >>= fun next => pure (table.foldAbove power next.kind).join := by
  rw [Parse.foldAbove, ← rules_eq]
  refine bind_congr fun next => ?_
  change (if next.kind ≠ .semicolon ∧ power < table.power next.kind then
    pure (table.fold? next.kind) else pure none : Parse (Option FoldRule)) = _
  rw [foldAbove]
  split <;> rfl

/-- With the rules of the language, the expressions are those of its parser, where an expression
without a handler for the next token is what has been read. -/
theorem expression_eq_of_rules (room : Nat) :
    (∀ power, table.expression Parse.ofOperandRule Parse.ofFoldRule pure room power =
        Parse.expression room power) ∧
      ∀ power left, table.folds Parse.ofOperandRule Parse.ofFoldRule pure room power left =
        Parse.folds room power left := by
  induction room with
  | zero =>
      refine ⟨fun _ => rfl, fun power left => ?_⟩
      rw [folds, Parse.folds, foldAbove_eq_of_rules rules_eq, bind_assoc]
      refine bind_congr fun next => ?_
      rw [pure_bind]
      rcases table.foldAbove power next.kind with _ | _ | rule <;> rfl
  | succ room ih =>
      obtain ⟨expression_eq, folds_eq⟩ := ih
      have nested_eq := funext expression_eq
      refine ⟨fun power => ?_, fun power left => ?_⟩
      · rw [expression, Parse.expression, nested_eq, operand_eq_of_rules rules_eq]
        exact bind_congr fun left => folds_eq power left
      · rw [folds, Parse.folds, foldAbove_eq_of_rules rules_eq, bind_assoc, nested_eq]
        refine bind_congr fun next => ?_
        rw [pure_bind]
        rcases table.foldAbove power next.kind with _ | _ | rule
        · rfl
        · rfl
        · exact bind_congr fun _ => bind_congr fun longer => folds_eq power longer

end

end HandlerTable

/-- Whatever handlers are registered and in whatever order, a table holds for each kind of token
what the last registration for it says, and registrations for other kinds or other uses change
nothing about that.  A token that binds has a handler for its fold, so it does not matter what is
done where one is missing.  The rules of the language are registered in this way, and whatever is
done about a missing handler, the expressions are those of the parser. -/
theorem handlers_last_registered :
    (∀ {Statement Operand Fold : Type}
      (registrations : List (Registration Statement Operand Fold)),
      let table := HandlerTable.ofRegistrations registrations
      (∀ kind,
        table.HoldsLast registrations kind ∧
        (∀ before other after, registrations = before ++ other :: after →
          table.AgreeBut kind other (.ofRegistrations (before ++ after))) ∧
        (.lowest < table.power kind → (table.fold? kind).isSome = true)) ∧
      ∀ operandOf foldOf missing otherwise room power,
        table.expression operandOf foldOf missing room power =
          table.expression operandOf foldOf otherwise room power) ∧
    (∀ registrations : List (Registration StatementRule OperandRule FoldRule),
      (HandlerTable.ofRegistrations registrations).rules =
        registrations.foldl RuleTable.register .empty) ∧
    RuleTable.monkey = monkeyRegistrations.foldl RuleTable.register .empty ∧
    ∀ missing room power,
      (HandlerTable.ofRegistrations monkeyRegistrations).expression Parse.ofOperandRule
        Parse.ofFoldRule missing room power = Parse.expression room power := by
  refine ⟨fun registrations => ⟨fun kind => ⟨?_, ?_, ?_⟩, ?_⟩,
    HandlerTable.rules_ofRegistrations, RuleTable.monkey_eq_foldl, fun missing room power => ?_⟩
  · exact HandlerTable.holdsLast_ofRegistrations registrations kind
  · rintro before other after rfl
    exact HandlerTable.agreeBut_without kind other before after
  · exact HandlerTable.isSome_fold?_of_lt_power registrations kind
  · intro operandOf foldOf missing otherwise room
    exact (HandlerTable.expression_eq_of_never _ operandOf foldOf missing
      (HandlerTable.foldAbove_ofRegistrations_ne registrations) otherwise room).1
  · have rules_eq : (HandlerTable.ofRegistrations monkeyRegistrations).rules = .monkey :=
      HandlerTable.rules_ofRegistrations monkeyRegistrations
    have never := HandlerTable.foldAbove_ofRegistrations_ne monkeyRegistrations
    exact ((HandlerTable.expression_eq_of_never _ _ _ missing never pure room).1 power).trans
      ((HandlerTable.expression_eq_of_rules rules_eq room).1 power)

end MonkeySyntax
