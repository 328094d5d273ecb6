import MonkeySyntax.Token.Lexer

/-!
# Texts and their bytes

A lexer reads bytes, and a text is cut between characters.  A byte below 128 is a character of its
own, so a text may be cut on both sides of it.
-/

namespace MonkeySyntax

/-- The bytes of a text. -/
def bytesOf (text : String) : List UInt8 :=
  text.toUTF8.data.toList

/-- A byte is the code of an ASCII character. -/
def IsAscii (byte : UInt8) : Prop :=
  byte.toNat < 128

section

variable {byte : UInt8} {bytes front after : List UInt8} {text : String} {char : Char}

theorem bytesOf_eq_flatMap (text : String) :
    bytesOf text = text.toList.flatMap String.utf8EncodeChar := by
  change text.toByteArray.data.toList = _
  rw [← String.utf8Encode_toList, List.utf8Encode, List.toList_data_toByteArray]

@[simp]
theorem bytesOf_append (first second : String) :
    bytesOf (first ++ second) = bytesOf first ++ bytesOf second := by
  simp [bytesOf_eq_flatMap]

theorem length_bytesOf (text : String) : (bytesOf text).length = text.utf8ByteSize := rfl

theorem bytesOf_ofList (chars : List Char) :
    bytesOf (String.ofList chars) = chars.flatMap String.utf8EncodeChar := by
  rw [bytesOf_eq_flatMap, String.toList_ofList]

theorem toNat_charOfByte (byte : UInt8) : (charOfByte byte).toNat = byte.toNat :=
  UInt8.toNat_toUInt32 byte

theorem utf8EncodeChar_charOfByte (ascii : IsAscii byte) :
    String.utf8EncodeChar (charOfByte byte) = [byte] := by
  have small : byte.toNat ≤ 127 := Nat.le_of_lt_succ ascii
  simp [String.utf8EncodeChar, toNat_charOfByte, small]

/-- A byte below 128 is no part of a longer character. -/
theorem eq_charOfByte_of_mem (ascii : IsAscii byte) (mem : byte ∈ String.utf8EncodeChar char) :
    char = charOfByte byte := by
  revert mem
  unfold IsAscii at ascii
  fun_cases String.utf8EncodeChar char with
  | case1 code small =>
      intro mem
      have code_small : char.val.toNat ≤ 127 := small
      rw [List.mem_singleton.mp mem, Char.ext_iff, ← UInt32.toNat_inj]
      refine Eq.trans ?_ (toNat_charOfByte _).symm
      rw [UInt8.toNat_ofNat', Nat.mod_eq_of_lt (by omega)]
  | case2 | case3 | case4 =>
      -- Every byte of a longer character has its highest bit set.
      intro mem
      simp only [List.mem_cons, List.not_mem_nil, or_false, ← UInt8.toNat_inj,
        UInt8.toNat_ofNat'] at mem
      omega

/-- A text is cut on both sides of an ASCII character. -/
theorem exists_text_of_bytesOf (ascii : IsAscii byte)
    (split : bytesOf text = front ++ byte :: after) :
    ∃ first last, text = first ++ textOfBytes [byte] ++ last ∧ bytesOf first = front ∧
      bytesOf last = after := by
  suffices cut_chars : ∀ chars : List Char, chars.flatMap String.utf8EncodeChar =
      front ++ byte :: after → ∃ first last, chars = first ++ charOfByte byte :: last ∧
        first.flatMap String.utf8EncodeChar = front ∧
        last.flatMap String.utf8EncodeChar = after by
    rw [bytesOf_eq_flatMap] at split
    obtain ⟨first, last, text_eq, first_eq, last_eq⟩ := cut_chars text.toList split
    refine ⟨.ofList first, .ofList last, ?_, ?_, ?_⟩
    · have whole : String.ofList text.toList = _ := congrArg String.ofList text_eq
      rw [String.ofList_toList] at whole
      rw [whole, textOfBytes, ← String.ofList_append, ← String.ofList_append]
      simp
    · rw [bytesOf_ofList, first_eq]
    · rw [bytesOf_ofList, last_eq]
  intro chars
  clear split
  induction chars generalizing front with
  | nil => simp
  | cons char chars ih =>
      intro split
      rw [List.flatMap_cons] at split
      obtain ⟨more, front_eq, others_eq⟩ | ⟨more, char_eq, others_eq⟩ :=
        List.append_eq_append_iff.mp split
      · obtain ⟨first, last, rfl, first_eq, last_eq⟩ := ih others_eq
        exact ⟨char :: first, last, rfl, by simp [first_eq, front_eq], last_eq⟩
      · cases more with
        | nil =>
            obtain ⟨first, last, rfl, first_eq, last_eq⟩ := @ih [] others_eq.symm
            exact ⟨char :: first, last, rfl, by simp [first_eq, char_eq], last_eq⟩
        | cons _ more =>
            obtain ⟨rfl, rfl⟩ := List.cons.inj others_eq
            have mem : byte ∈ String.utf8EncodeChar char := by simp [char_eq]
            obtain rfl := eq_charOfByte_of_mem ascii mem
            obtain ⟨rfl, rfl⟩ : front = [] ∧ more = [] := by
              have lengths := congrArg List.length char_eq
              rw [utf8EncodeChar_charOfByte ascii] at lengths
              simp only [List.length_append, List.length_cons, List.length_nil] at lengths
              exact ⟨List.length_eq_zero_iff.mp (by omega), List.length_eq_zero_iff.mp (by omega)⟩
            exact ⟨[], chars, rfl, rfl, rfl⟩

/-- ASCII bytes are the bytes of the text that they stand for. -/
theorem bytesOf_textOfBytes (ascii : ∀ byte ∈ bytes, IsAscii byte) :
    bytesOf (textOfBytes bytes) = bytes := by
  rw [textOfBytes, bytesOf_ofList]
  induction bytes with
  | nil => rfl
  | cons byte bytes ih =>
      rw [List.map_cons, List.flatMap_cons,
        utf8EncodeChar_charOfByte (ascii byte List.mem_cons_self),
        ih fun other mem => ascii other (List.mem_cons_of_mem byte mem)]
      rfl

end

end MonkeySyntax
