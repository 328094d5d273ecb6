import MonkeySyntax.Parse.Basic

/-!
# Confined parsing steps

A parsing step is confined to a word if what it does on the word is settled by the word and the one
token behind it: whatever stands further on, the outcome is the same and the same tokens of the
word are left.  The rules below follow a step through its parts.
-/

namespace MonkeySyntax

namespace TokenStream

/-- The stream with the tokens of a word in front. -/
def prepend (stream : TokenStream) (word : List Token) : TokenStream :=
  { stream with tokens := word ++ stream.tokens }

section

variable (stream : TokenStream) (token : Token) (word : List Token)

@[simp]
theorem current_prepend : (stream.prepend word).current = word.headD stream.current := by
  cases word <;> rfl

@[simp]
theorem advance_prepend_cons : (stream.prepend (token :: word)).advance = stream.prepend word :=
  rfl

@[simp]
theorem peek_prepend_cons :
    (stream.prepend (token :: word)).peek = word.headD stream.current := by
  simp [peek]

@[simp]
theorem prepend_tokens : prepend ⟨[], stream.size⟩ stream.tokens = stream := by
  simp [prepend]

end

end TokenStream

namespace Parse

variable {α β : Type}

/-- Steps that run alike are equal. -/
theorem eq_of_run_eq {first second : Parse α}
    (run_eq : ∀ stream, first.run stream = second.run stream) : first = second := by
  cases first
  cases second
  congr
  exact funext run_eq

/-- On `word` followed by the token `behind`, the outcome of a step and the part of the word that
it leaves do not depend on anything else, and a success satisfies `post`. -/
def Confined (step : Parse α) (word : List Token) (behind : Token)
    (post : α → List Token → Prop) : Prop :=
  ∃ outcome left, left <:+ word ∧ (∀ value, outcome = .ok value → post value left) ∧
    ∀ rest : TokenStream, rest.current = behind →
      step.run (rest.prepend word) = (outcome, rest.prepend left)

namespace Confined

variable {word tail : List Token} {token behind : Token} {post : α → List Token → Prop}

theorem pure {value : α} (holds : post value word) :
    Confined (Pure.pure value : Parse α) word behind post :=
  ⟨.ok value, word, List.suffix_refl word, fun _ equal => Except.ok.inj equal ▸ holds,
    fun _ _ => rfl⟩

theorem fail (diagnostic : Diagnostic) : Confined (Parse.fail diagnostic) word behind post :=
  ⟨.error diagnostic, word, List.suffix_refl word, nofun, fun _ _ => rfl⟩

/-- A step after another is confined to what the first one leaves. -/
theorem bind {first : Parse β} {second : β → Parse α} {between : β → List Token → Prop}
    (earlier : Confined first word behind between)
    (later : ∀ value left, left <:+ word → between value left →
      Confined (second value) left behind post) :
    Confined (first >>= second) word behind post := by
  obtain ⟨outcome, left, left_suffix, holds, run_first⟩ := earlier
  cases outcome with
  | error diagnostic =>
      refine ⟨.error diagnostic, left, left_suffix, nofun, fun rest current_eq => ?_⟩
      rw [run_bind, run_first rest current_eq]
  | ok value =>
      obtain ⟨final, last, last_suffix, final_holds, run_second⟩ :=
        later value left left_suffix (holds value rfl)
      refine ⟨final, last, last_suffix.trans left_suffix, final_holds, fun rest current_eq => ?_⟩
      rw [run_bind, run_first rest current_eq]
      exact run_second rest current_eq

theorem mono {step : Parse α} {wider : α → List Token → Prop}
    (confined : Confined step word behind post)
    (weaken : ∀ value left, post value left → wider value left) :
    Confined step word behind wider := by
  obtain ⟨outcome, left, left_suffix, holds, run_step⟩ := confined
  exact ⟨outcome, left, left_suffix, fun value equal => weaken value left (holds value equal),
    run_step⟩

/-- Two facts about what a step reads hold together. -/
theorem and {step : Parse α} {other : α → List Token → Prop}
    (confined : Confined step word behind post) (confined_other : Confined step word behind other) :
    Confined step word behind fun value left => post value left ∧ other value left := by
  obtain ⟨outcome, left, suffix, holds, run_eq⟩ := confined
  obtain ⟨outcome', left', -, other_holds, run_eq'⟩ := confined_other
  let stream : TokenStream := ⟨[behind], 0⟩
  have agree := (run_eq stream rfl).symm.trans (run_eq' stream rfl)
  obtain ⟨rfl, streams_eq⟩ := Prod.mk.inj agree
  obtain rfl : left = left' := List.append_cancel_right (congrArg TokenStream.tokens streams_eq)
  exact ⟨outcome, left, suffix, fun value equal => ⟨holds value equal, other_holds value equal⟩,
    run_eq⟩

/-- A step that is confined to all the tokens of a stream succeeds there as it says. -/
theorem of_run {step : Parse α} {stream after : TokenStream} {value : α}
    (confined : Confined step stream.tokens (.endOfInput stream.size) post)
    (read : step.run stream = (.ok value, after)) :
    ∃ left, after = ⟨left, stream.size⟩ ∧ post value left := by
  obtain ⟨outcome, left, -, holds, run_eq⟩ := confined
  have run_stream := run_eq ⟨[], stream.size⟩ rfl
  rw [TokenStream.prepend_tokens, read] at run_stream
  obtain ⟨rfl, rfl⟩ := Prod.mk.inj run_stream
  exact ⟨left, by simp [TokenStream.prepend], holds value rfl⟩

theorem current_bind {next : Token → Parse α}
    (later : Confined (next (word.headD behind)) word behind post) :
    Confined (current >>= next) word behind post := by
  obtain ⟨outcome, left, left_suffix, holds, run_next⟩ := later
  refine ⟨outcome, left, left_suffix, holds, fun rest current_eq => ?_⟩
  rw [run_bind, run_current, TokenStream.current_prepend, current_eq]
  exact run_next rest current_eq

theorem peek_bind {next : Token → Parse α}
    (later : Confined (next (tail.headD behind)) (token :: tail) behind post) :
    Confined (peek >>= next) (token :: tail) behind post := by
  obtain ⟨outcome, left, left_suffix, holds, run_next⟩ := later
  refine ⟨outcome, left, left_suffix, holds, fun rest current_eq => ?_⟩
  rw [run_bind, run_peek, TokenStream.peek_prepend_cons, current_eq]
  exact run_next rest current_eq

theorem advance_bind {next : Unit → Parse α} (later : Confined (next ()) tail behind post) :
    Confined (advance >>= next) (token :: tail) behind post := by
  obtain ⟨outcome, left, left_suffix, holds, run_next⟩ := later
  refine ⟨outcome, left, left_suffix.trans (List.suffix_cons token tail), holds,
    fun rest current_eq => ?_⟩
  rw [run_bind, run_advance, TokenStream.advance_prepend_cons]
  exact run_next rest current_eq

/-- An expected token is passed if it is there. -/
theorem expect_bind {kind : Token.Kind} {next : Unit → Parse α}
    (later : (tail.headD behind).kind = kind → Confined (next ()) tail behind post) :
    Confined (expect kind >>= next) (token :: tail) behind post := by
  have read (found : Confined (expect kind) (token :: tail) behind
      fun _ left => left = tail ∧ (tail.headD behind).kind = kind) :
      Confined (expect kind >>= next) (token :: tail) behind post :=
    found.bind fun _ _ _ ⟨left_eq, kind_eq⟩ => left_eq ▸ later kind_eq
  refine read (peek_bind ?_)
  split
  · next kind_eq =>
      exact ⟨.ok (), tail, List.suffix_cons token tail, fun _ _ => ⟨rfl, kind_eq⟩, fun _ _ => rfl⟩
  · exact fail _

end Confined

/-- Elements after commas are read one by one. -/
theorem afterCommas_eq (element : Parse α) :
    afterCommas element = (do
      let next ← peek
      if next.kind = .comma then
        advance
        advance
        let value ← element
        let others ← afterCommas element
        return value :: others
      else
        return []) := by
  refine eq_of_run_eq fun stream => ?_
  change listAfterCommas element stream = _
  rw [listAfterCommas, run_bind, run_peek]
  by_cases comma : stream.peek.kind = .comma
  · rw [dif_pos comma]
    simp only [comma, if_true, run_bind, run_advance]
    split
    · next value after read =>
        rw [read]
        have run_others : (afterCommas element).run after = listAfterCommas element after := rfl
        simp only [run_others]
        rcases listAfterCommas element after with ⟨_ | _, _⟩ <;> rfl
    · next diagnostic after read => rw [read]
  · rw [dif_neg comma]
    simp only [comma, if_false, run_pure]

/-- What holds of each element that is read holds of all the elements after commas.  What an
element leaves, the list of them leaves too, in front of a token that is no comma. -/
theorem Confined.afterCommas {element : Parse α} {holds : α → Prop} {leaves : List Token → Prop}
    {last behind : Token} {tail : List Token} (ne_comma : behind.kind ≠ .comma)
    (each : ∀ word, Confined element word behind fun value left =>
      holds value ∧ left ≠ [] ∧ leaves left) (start : leaves (last :: tail)) :
    Confined (afterCommas element) (last :: tail) behind fun values left =>
      (∀ value ∈ values, holds value) ∧ left ≠ [] ∧ leaves left ∧
        (left.tail.headD behind).kind ≠ .comma := by
  induction size : tail.length using Nat.strongRecOn generalizing last tail with
  | ind size ih =>
      rw [afterCommas_eq]
      apply Confined.peek_bind
      split
      · next comma =>
          cases tail with
          | nil => exact absurd comma ne_comma
          | cons separator tail =>
              refine .advance_bind ?_
              refine .advance_bind ?_
              refine (each tail).bind fun value left suffix read => ?_
              obtain ⟨value_holds, ne_nil, value_leaves⟩ := read
              obtain ⟨next, after, rfl⟩ := List.exists_cons_of_ne_nil ne_nil
              have shorter := suffix.length_le
              simp only [List.length_cons] at *
              refine (ih after.length (by omega) value_leaves rfl).bind
                fun others left _ ⟨others_hold, others_leave⟩ => .pure ⟨?_, others_leave⟩
              exact List.forall_mem_cons.mpr ⟨value_holds, others_hold⟩
      · next ne => exact .pure ⟨nofun, List.cons_ne_nil last tail, start, ne⟩

theorem run_afterCommas_of_ne {element : Parse α} {stream : TokenStream}
    (ne : stream.peek.kind ≠ .comma) :
    (afterCommas element).run stream = (.ok [], stream) := by
  rw [afterCommas_eq, run_bind, run_peek]
  simp only [ne, if_false, run_pure]

theorem run_afterCommas_of_comma {element : Parse α} {stream : TokenStream}
    (comma : stream.peek.kind = .comma) :
    (afterCommas element).run stream =
      (element >>= fun value => afterCommas element >>= fun others =>
        Pure.pure (value :: others)).run stream.advance.advance := by
  rw [afterCommas_eq, run_bind, run_peek]
  simp only [comma, if_true, ← afterCommas_eq]
  rfl

end Parse

end MonkeySyntax
