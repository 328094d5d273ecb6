import MonkeySyntax.Proofs.RoundTrip

/-!
# A text is the text of one program

Two programs that were read and have the same text agree in all but the places of their tokens.
Both texts spell the same tokens, these fall into the same segments, and each segment is read as
one statement if only enough levels are free.  How many levels a parser has does not matter here:
the reader of the proof takes as many as both statements need.
-/

namespace MonkeySyntax

/-- Tokens like those in the texts of two statements show that these differ in places only. -/
theorem Stmt.Coherent.erase_eq {first second : Stmt} {segment : List Token}
    (first_coherent : first.Coherent) (second_coherent : second.Coherent)
    (first_shown : segment.map Token.erase = first.shown)
    (second_shown : segment.map Token.erase = second.shown) : first.erase = second.erase := by
  obtain ⟨first_again, _, first_eq, first_needs⟩ :=
    Parse.exists_needs_statement first_coherent first_shown ⟨[], 0⟩
  obtain ⟨second_again, _, second_eq, second_needs⟩ :=
    Parse.exists_needs_statement second_coherent second_shown ⟨[], 0⟩
  let room := max first.textLevels second.textLevels
  have first_read := first_needs.enough room (Nat.le_max_left _ _)
  have second_read := second_needs.enough room (Nat.le_max_right _ _)
  obtain ⟨again_eq, -⟩ := Prod.mk.inj (first_read.symm.trans second_read)
  rw [← first_eq, ← second_eq, Except.ok.inj again_eq]

/-- Segments that show the statements of two programs show that these differ in places only. -/
theorem map_erase_eq_of_segments {first second : List Stmt} {segments : List (List Token)}
    (first_shown : List.Forall₂
      (fun stmt segment => stmt.Coherent ∧ segment.map Token.erase = stmt.shown) first segments)
    (second_shown : List.Forall₂
      (fun stmt segment => stmt.Coherent ∧ segment.map Token.erase = stmt.shown) second segments) :
    first.map Stmt.erase = second.map Stmt.erase := by
  induction first_shown generalizing second with
  | nil =>
      cases second_shown
      rfl
  | cons head _ ih =>
      cases second_shown with
      | cons second_head second_tail =>
          have head_eq := head.1.erase_eq second_head.1 head.2 second_head.2
          rw [List.map_cons, List.map_cons, head_eq, ih second_tail]

/-- Two programs that were read have the same text if and only if their statements are the same in
all but the places of their tokens. -/
theorem render_eq_iff_erase_eq (first second : String) :
    (parse first).1.render = (parse second).1.render ↔
      (parse first).1.statements.map Stmt.erase = (parse second).1.statements.map Stmt.erase := by
  constructor
  · intro same
    have coherent (source : String) : ∀ stmt ∈ (parse source).1.statements, stmt.Coherent :=
      fun _ mem => coherent_of_mem_statements mem
    have shown (source : String) :=
      Lexer.tokens_of_spells (Program.spells_render (coherent source)) 0
    have first_segments := segments_of_erase (coherent first) (shown first)
    have second_segments := segments_of_erase (coherent second) (shown second)
    rw [same] at first_segments
    exact map_erase_eq_of_segments first_segments second_segments
  · exact Program.render_eq_of_erase

end MonkeySyntax
