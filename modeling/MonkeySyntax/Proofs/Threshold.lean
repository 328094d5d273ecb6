import MonkeySyntax.Parser
import MonkeySyntax.Proofs.Levels

/-!
# The threshold of nesting

An expression as it is written is an operand followed by folds, and the levels that it needs can be
told from that form alone: one level for itself, and on top of it those of the operand or those of a
fold, where the k-th fold stands k levels further in.  Groups count although they leave no node, so
the form is a tree of its own beside the tree that the grammar builds.  Reading succeeds with that
many free levels and fails with fewer.
-/

namespace MonkeySyntax

mutual

/-- An expression as it is written: the operand at its front, and the folds behind it in order. -/
inductive Phrase where
  | mk (head : Phrase.Head) (folds : List Phrase.Fold)

/-- An operand at the front of a phrase. -/
inductive Phrase.Head where
  /-- A name or a literal. -/
  | atom
  /-- An operator and its operand. -/
  | unary (right : Phrase)
  /-- An expression in parentheses. -/
  | group (inside : Phrase)

/-- A fold behind the operand of a phrase. -/
inductive Phrase.Fold where
  /-- An operator and its right operand. -/
  | binary (right : Phrase)
  /-- The arguments of a call. -/
  | call (arguments : List Phrase)

end

namespace Phrase

/-- The number of folds behind the operand. -/
def count : Phrase → Nat
  | mk _ folds => folds.length

/-- A phrase with one more fold behind it. -/
def append : Phrase → Fold → Phrase
  | mk head folds, fold => mk head (folds ++ [fold])

mutual

/-- The number of levels that a phrase needs. -/
def need : Phrase → Nat
  | mk head folds => 1 + max (headNeed head) (foldsNeed 1 folds)

/-- The number of levels that an operand needs. -/
def headNeed : Head → Nat
  | .atom => 0
  | .unary right => need right
  | .group inside => need inside

/-- The number of levels that a fold needs. -/
def foldNeed : Fold → Nat
  | .binary right => need right
  | .call arguments => greatestNeed arguments

/-- The greatest number of levels that one of several phrases needs. -/
def greatestNeed : List Phrase → Nat
  | [] => 0
  | phrase :: rest => max (need phrase) (greatestNeed rest)

/-- The greatest sum of the number of a fold and the levels that it needs, where the first fold has
the given number. -/
def foldsNeed : (number : Nat) → List Fold → Nat
  | _, [] => 0
  | number, fold :: rest => max (number + foldNeed fold) (foldsNeed (number + 1) rest)

end

/-- Without folds, a level is needed on top of those of the operand. -/
@[simp]
theorem need_mk_nil (head : Head) : need (mk head []) = headNeed head + 1 := by
  rw [need, foldsNeed, Nat.max_zero, Nat.add_comm]

@[simp]
theorem headNeed_atom : headNeed .atom = 0 := by
  rw [headNeed]

@[simp]
theorem headNeed_unary (right : Phrase) : headNeed (.unary right) = need right := by
  rw [headNeed]

@[simp]
theorem headNeed_group (inside : Phrase) : headNeed (.group inside) = need inside := by
  rw [headNeed]

theorem greatestNeed_eq (phrases : List Phrase) :
    greatestNeed phrases = mostLevels (phrases.map need) := by
  induction phrases with
  | nil => rw [greatestNeed]; rfl
  | cons phrase rest ih => rw [greatestNeed, ih]; rfl

theorem foldsNeed_append (number : Nat) (folds : List Fold) (fold : Fold) :
    foldsNeed number (folds ++ [fold]) =
      max (foldsNeed number folds) (number + folds.length + foldNeed fold) := by
  induction folds generalizing number with
  | nil => simp [foldsNeed]
  | cons first rest ih =>
      rw [List.cons_append, foldsNeed, foldsNeed, ih, List.length_cons, Nat.max_assoc,
        Nat.add_right_comm number 1, Nat.add_assoc number]

theorem count_append (phrase : Phrase) (fold : Fold) :
    (phrase.append fold).count = phrase.count + 1 := by
  cases phrase
  simp [append, count]

/-- One more fold stands as many levels further in as there are folds. -/
theorem need_append (phrase : Phrase) (fold : Fold) :
    (phrase.append fold).need = max phrase.need (phrase.count + 2 + foldNeed fold) := by
  cases phrase with
  | mk head folds =>
      simp only [append, need, count, foldsNeed_append]
      omega

end Phrase

/-- A word of tokens belongs to a stratum, stands for a tree, and is written as a phrase. -/
inductive Phrased : Stratum → List Token → Expr → Phrase → Prop where
  | identifier {token : Token} (kind : token.kind = .identifier) :
      Phrased .primary [token] (.identifier ⟨token, token.literal⟩) (.mk .atom [])
  | integer {token : Token} {value : Nat} (kind : token.kind = .integer)
      (numeral : decimal? token.literal = some value) (small : value ≤ maxInteger) :
      Phrased .primary [token] (.integer token value) (.mk .atom [])
  | trueWord {token : Token} (kind : token.kind = .trueWord) :
      Phrased .primary [token] (.boolean token true) (.mk .atom [])
  | falseWord {token : Token} (kind : token.kind = .falseWord) :
      Phrased .primary [token] (.boolean token false) (.mk .atom [])
  | group {opening closing : Token} {word : List Token} {expr : Expr} {inner : Phrase}
      (opens : opening.kind = .openParen) (inside : Phrased .equality word expr inner)
      (closes : closing.kind = .closeParen) :
      Phrased .primary (opening :: word ++ [closing]) expr (.mk (.group inner) [])
  | call {opening closing : Token} {word inside : List Token} {function : Expr} {front : Phrase}
      {arguments : List ((List Token × Expr) × Phrase)}
      (callee : Phrased .call word function front) (opens : opening.kind = .openParen)
      (separated : CommaSeparated (arguments.map fun argument => argument.1.1) inside)
      (each : ∀ argument ∈ arguments, Phrased .equality argument.1.1 argument.1.2 argument.2)
      (closes : closing.kind = .closeParen) :
      Phrased .call (word ++ (opening :: inside ++ [closing]))
        (.call opening function (arguments.map fun argument => argument.1.2))
        (front.append (.call (arguments.map Prod.snd)))
  | unary {operator : Token} {word : List Token} {right : Expr} {inner : Phrase}
      (kind : operator.kind = .bang ∨ operator.kind = .minus)
      (operand : Phrased .unary word right inner) :
      Phrased .unary (operator :: word) (.unary operator operator.literal right)
        (.mk (.unary inner) [])
  | binary {stratum : Stratum} {operator : Token} {leftWord rightWord : List Token}
      {left right : Expr} {front inner : Phrase} (kind : operator.kind ∈ stratum.operators)
      (first : Phrased stratum leftWord left front)
      (second : Phrased stratum.tighter rightWord right inner) :
      Phrased stratum (leftWord ++ operator :: rightWord)
        (.binary operator operator.literal left right) (front.append (.binary inner))
  | tighter {stratum : Stratum} {word : List Token} {expr : Expr} {phrase : Phrase}
      (finer : Phrased stratum.tighter word expr phrase) : Phrased stratum word expr phrase

section

variable {stratum : Stratum} {word : List Token} {expr : Expr}

/-- What is written as a phrase is a word of the grammar. -/
theorem Phrased.derives {phrase : Phrase} (phrased : Phrased stratum word expr phrase) :
    Derives stratum word expr := by
  induction phrased with
  | identifier kind_eq => exact .identifier kind_eq
  | integer kind_eq numeral small => exact .integer kind_eq numeral small
  | trueWord kind_eq => exact .trueWord kind_eq
  | falseWord kind_eq => exact .falseWord kind_eq
  | group opens _ closes ih => exact .group opens ih closes
  | @call opening closing word inside function front arguments _ opens separated _ closes callee_ih
      each_ih =>
      have listed : CommaSeparated ((arguments.map Prod.fst).map Prod.fst) inside := by
        rwa [List.map_map]
      have whole := Derives.call callee_ih opens listed (List.forall_mem_map.mpr each_ih) closes
      rwa [List.map_map] at whole
  | unary kind_eq _ ih => exact .unary kind_eq ih
  | binary kind_mem _ _ left_ih right_ih => exact .binary kind_mem left_ih right_ih
  | tighter _ ih => exact ih.tighter

theorem Phrased.loosen {finer : Stratum} {phrase : Phrase}
    (phrased : Phrased finer word expr phrase) (le : stratum.rank ≤ finer.rank) :
    Phrased stratum word expr phrase :=
  Stratum.loosen (motive := fun stratum => Phrased stratum word expr phrase) (fun _ => .tighter) le
    phrased

theorem exists_phrases {elements : List (List Token × Expr)}
    (each : ∀ element ∈ elements, ∃ phrase, Phrased .equality element.1 element.2 phrase) :
    ∃ arguments : List ((List Token × Expr) × Phrase), arguments.map Prod.fst = elements ∧
      ∀ argument ∈ arguments, Phrased .equality argument.1.1 argument.1.2 argument.2 := by
  induction elements with
  | nil => exact ⟨[], rfl, nofun⟩
  | cons element elements ih =>
      obtain ⟨phrase, phrased⟩ := each element List.mem_cons_self
      obtain ⟨arguments, rfl, others⟩ :=
        ih fun other mem => each other (List.mem_cons_of_mem element mem)
      exact ⟨(element, phrase) :: arguments, rfl, List.forall_mem_cons.mpr ⟨phrased, others⟩⟩

/-- Every word of the grammar is written as some phrase. -/
theorem exists_phrase (derived : Derives stratum word expr) :
    ∃ phrase, Phrased stratum word expr phrase := by
  induction derived with
  | identifier kind_eq => exact ⟨_, .identifier kind_eq⟩
  | integer kind_eq numeral small => exact ⟨_, .integer kind_eq numeral small⟩
  | trueWord kind_eq => exact ⟨_, .trueWord kind_eq⟩
  | falseWord kind_eq => exact ⟨_, .falseWord kind_eq⟩
  | group opens _ closes ih =>
      obtain ⟨inner, phrased⟩ := ih
      exact ⟨_, .group opens phrased closes⟩
  | call _ opens separated _ closes callee_ih each_ih =>
      obtain ⟨front, phrased⟩ := callee_ih
      obtain ⟨arguments, rfl, each⟩ := exists_phrases each_ih
      rw [List.map_map] at separated
      have whole := Phrased.call phrased opens separated each closes
      exact ⟨_, by rwa [List.map_map]⟩
  | unary kind_eq _ ih =>
      obtain ⟨inner, phrased⟩ := ih
      exact ⟨_, .unary kind_eq phrased⟩
  | binary kind_mem _ _ left_ih right_ih =>
      obtain ⟨front, left_phrased⟩ := left_ih
      obtain ⟨inner, right_phrased⟩ := right_ih
      exact ⟨_, .binary kind_mem left_phrased right_phrased⟩
  | tighter _ ih =>
      obtain ⟨phrase, phrased⟩ := ih
      exact ⟨phrase, phrased.tighter⟩

namespace Parse

theorem readsEach_of_reads {arguments : List ((List Token × Expr) × Phrase)}
    (each : ∀ argument ∈ arguments, ∃ last,
      Reads .equality argument.1.1 last argument.1.2 argument.2.count argument.2.need) :
    ReadsEach (arguments.map Prod.fst) ((arguments.map Prod.snd).map Phrase.need) := by
  rw [ReadsEach, List.forall₂_map_left_iff, List.map_map, List.forall₂_map_right_iff,
    List.forall₂_same]
  intro argument mem
  obtain ⟨last, reads⟩ := each argument mem
  exact ⟨last, _, reads⟩

/-- A word is read with exactly the levels that its phrase needs. -/
theorem exists_reads_of_phrased {phrase : Phrase} (phrased : Phrased stratum word expr phrase) :
    ∃ last, Reads stratum word last expr phrase.count phrase.need := by
  have of_head {word : List Token} {last : Token} {expr : Expr} {stratum : Stratum}
      {head : Phrase.Head}
      (reads : Reads stratum word last expr 0 (Phrase.headNeed head + 1)) :
      ∃ last, Reads stratum word last expr (Phrase.mk head []).count (Phrase.mk head []).need := by
    rw [Phrase.need_mk_nil]
    exact ⟨last, reads⟩
  have of_atom {token : Token} {expr : Expr} (reads : Reads .primary [token] token expr 0 1) :
      ∃ last, Reads .primary [token] last expr (Phrase.mk .atom []).count
        (Phrase.mk .atom []).need :=
    of_head (by rwa [Phrase.headNeed_atom])
  induction phrased with
  | identifier kind_eq => exact of_atom (.identifier kind_eq)
  | integer kind_eq numeral small =>
      exact of_atom (.integer kind_eq (integerValue?_eq_some_iff.mpr ⟨numeral, small⟩))
  | trueWord kind_eq =>
      exact of_atom (by simpa [kind_eq] using Reads.boolean (.inl kind_eq))
  | falseWord kind_eq =>
      exact of_atom (by simpa [kind_eq] using Reads.boolean (.inr kind_eq))
  | group opens _ closes ih =>
      obtain ⟨last, reads⟩ := ih
      exact of_head (by rw [Phrase.headNeed_group]; exact .group opens reads closes)
  | @call opening closing word inside function front arguments _ opens separated _ closes callee_ih
      each_ih =>
      obtain ⟨last, reads⟩ := callee_ih
      have each := readsEach_of_reads each_ih
      have listed : CommaSeparated ((arguments.map Prod.fst).map Prod.fst) inside := by
        rwa [List.map_map]
      have whole := reads.call opens listed each closes
      rw [List.map_map] at whole
      rw [Phrase.count_append, Phrase.need_append, Phrase.foldNeed, Phrase.greatestNeed_eq]
      exact ⟨_, whole⟩
  | unary kind_eq _ ih =>
      obtain ⟨last, reads⟩ := ih
      exact of_head (by rw [Phrase.headNeed_unary]; exact .unary kind_eq reads)
  | binary kind_mem _ _ left_ih right_ih =>
      obtain ⟨_, left_reads⟩ := left_ih
      obtain ⟨_, right_reads⟩ := right_ih
      rw [Phrase.count_append, Phrase.need_append, Phrase.foldNeed]
      exact ⟨_, .binary kind_mem left_reads right_reads⟩
  | tighter _ ih =>
      obtain ⟨last, reads⟩ := ih
      exact ⟨last, reads.tighter⟩

/-- Every word of the grammar is read if enough levels are free. -/
theorem exists_reads (derived : Derives stratum word expr) :
    ∃ last count levels, Reads stratum word last expr count levels := by
  obtain ⟨phrase, phrased⟩ := exists_phrase derived
  obtain ⟨last, reads⟩ := exists_reads_of_phrased phrased
  exact ⟨last, _, _, reads⟩

end Parse

end

/-- A word of the grammar in front of a token that does not bind it is written as a phrase, and an
expression reader accepts it if and only if the levels that the phrase needs are free; if they are
not, the word is refused because it nests too deep. -/
theorem expression_threshold (parser : Parser) (power : BindingPower) (below_call : power < .call)
    (passed : List Token) (last : Token) (rest : List Token) (expr : Expr)
    (tokens_eq : parser.stream.tokens = passed ++ last :: rest)
    (derived : Derives (.ofPower power) (passed ++ [last]) expr)
    (stops : RuleTable.monkey.power (rest.headD (.endOfInput parser.stream.size)).kind ≤ power) :
    (∃ phrase, Phrased (.ofPower power) (passed ++ [last]) expr phrase) ∧
      ∀ phrase, Phrased (.ofPower power) (passed ++ [last]) expr phrase →
        ((∃ read after, parser.expression power = (.ok read, after)) ↔
          phrase.need + parser.depth ≤ maxDepth) ∧
        if phrase.need + parser.depth ≤ maxDepth then
          parser.expression power =
            (.ok expr, { parser with stream := ⟨last :: rest, parser.stream.size⟩ })
        else
          ∃ position final,
            parser.expression power = (.error ⟨.tooDeep maxDepth, position⟩, final) := by
  refine ⟨exists_phrase derived, fun phrase phrased => ?_⟩
  obtain ⟨_, reads⟩ := Parse.exists_reads_of_phrased phrased
  obtain rfl := Option.some.inj (List.getLast?_concat.symm.trans reads.last_eq)
  have stream_eq : TokenStream.prepend ⟨rest, parser.stream.size⟩ (passed ++ [last]) =
      parser.stream := by
    simp [TokenStream.prepend, ← tokens_eq]
  have needs : Parse.Needs (fun room => Parse.expression room power) phrase.need
      (TokenStream.prepend ⟨rest, parser.stream.size⟩ (passed ++ [last])) expr
      ⟨last :: rest, parser.stream.size⟩ := reads.needs below_call (Nat.le_refl _) stops
  rw [stream_eq] at needs
  have some_level : 0 < phrase.need := Nat.zero_lt_of_lt reads.count_lt
  by_cases enough : phrase.need + parser.depth ≤ maxDepth
  · have read : parser.expression power =
        (.ok expr, { parser with stream := ⟨last :: rest, parser.stream.size⟩ }) := by
      have run_eq := needs.enough parser.room (Nat.le_sub_of_add_le enough)
      simp only [Parser.expression, Parser.perform, Parser.nested, run_eq]
    rw [if_pos enough]
    exact ⟨⟨fun _ => enough, fun _ => ⟨_, _, read⟩⟩, read⟩
  · have too_few : parser.room < phrase.need := by
      simp only [Parser.room]
      omega
    obtain ⟨position, final, run_eq⟩ := needs.tooFew parser.room too_few
    have refused : parser.expression power =
        (.error ⟨.tooDeep maxDepth, position⟩, { parser with stream := final }) := by
      simp only [Parser.expression, Parser.perform, Parser.nested, run_eq]
    rw [if_neg enough]
    refine ⟨⟨?_, fun le => absurd le enough⟩, position, _, refused⟩
    rintro ⟨_, _, read⟩
    have outcome_eq := (Prod.mk.inj (refused.symm.trans read)).1
    contradiction

/-- A minus sign before two calls, the second with an argument, needs five levels. -/
theorem expression_threshold_calls :
    ∃ phrase : Phrase, phrase.need = 5 ∧
      (∃ expr after, { Parser.ofString "-f()(x);" with depth := 251 }.expression .lowest =
        (.ok expr, after)) ∧
      ∃ position final, { Parser.ofString "-f()(x);" with depth := 252 }.expression .lowest =
        (.error ⟨.tooDeep maxDepth, position⟩, final) := by
  let minus : Token := ⟨.minus, "-", .ofOffsets 0 1⟩
  let name : Token := ⟨.identifier, "f", .ofOffsets 1 2⟩
  let firstOpening : Token := ⟨.openParen, "(", .ofOffsets 2 3⟩
  let firstClosing : Token := ⟨.closeParen, ")", .ofOffsets 3 4⟩
  let secondOpening : Token := ⟨.openParen, "(", .ofOffsets 4 5⟩
  let argument : Token := ⟨.identifier, "x", .ofOffsets 5 6⟩
  let closing : Token := ⟨.closeParen, ")", .ofOffsets 6 7⟩
  have callee : Phrased .call [name] _ _ := (Phrased.identifier rfl).loosen (by decide)
  have inner : Phrased .equality [argument] _ _ := (Phrased.identifier rfl).loosen (by decide)
  have once : Phrased .call ([name] ++ (firstOpening :: [] ++ [firstClosing])) _ _ :=
    @Phrased.call _ _ _ _ _ _ [] callee rfl .nil nofun rfl
  have twice : Phrased .call _ _ _ :=
    @Phrased.call secondOpening closing _ _ _ _ [(([argument], _), _)] once rfl (.cons .nil)
      (List.forall_mem_singleton.mpr inner) rfl
  have whole : Phrased .equality _ _ _ :=
    (@Phrased.unary minus _ _ _ (.inr rfl) (twice.loosen (by decide))).loosen (by decide)
  let front := [minus, name, firstOpening, firstClosing, secondOpening, argument]
  let semicolon : Token := ⟨.semicolon, ";", .ofOffsets 7 8⟩
  have tokens_eq :
      (Parser.ofString "-f()(x);").stream.tokens = front ++ closing :: [semicolon] := by
    decide +kernel
  have stops : RuleTable.monkey.power semicolon.kind ≤ .lowest := by decide
  have threshold (depth : Nat) := expression_threshold
    { Parser.ofString "-f()(x);" with depth } .lowest (by decide) front closing [semicolon] _
    tokens_eq whole.derives stops
  have need_eq :
      Phrase.need (.mk (.unary (.mk .atom [.call [], .call [.mk .atom []]])) []) = 5 := by
    simp [Phrase.need, Phrase.headNeed, Phrase.foldsNeed, Phrase.foldNeed, Phrase.greatestNeed]
  have accepted := ((threshold 251).2 _ whole).1
  have refused := ((threshold 252).2 _ whole).2
  refine ⟨_, need_eq, accepted.mpr (Nat.le_of_eq (congrArg (· + 251) need_eq)), ?_⟩
  rwa [if_neg (by simp [Phrase.append, need_eq, maxDepth])] at refused

end MonkeySyntax
