import Lox.Token.Scan
set_option autoImplicit false

/-! Texts as the bytes that encode them. A character below 128 is one byte of its own value; the
bytes of any other character are all 128 or more, the first of them 192 or more. -/

namespace Lox

/-- The UTF-8 bytes of a text. -/
def Utf8.bytes (text : List Char) : List UInt8 :=
  text.flatMap String.utf8EncodeChar

namespace Utf8

theorem toUTF8_data (source : String) : source.toUTF8.data.toList = bytes source.toList := by
  change source.toByteArray.data.toList = _
  rw [← String.utf8Encode_toList]
  unfold List.utf8Encode bytes
  rw [List.data_toByteArray]

@[simp] theorem bytes_nil : bytes [] = [] := rfl

theorem bytes_cons (first : Char) (rest : List Char) :
    bytes (first :: rest) = String.utf8EncodeChar first ++ bytes rest := rfl

theorem bytes_append (front back : List Char) : bytes (front ++ back) = bytes front ++ bytes back :=
  List.flatMap_append

theorem encode_narrow {character : Char} (narrow : character.toNat < 128) :
    String.utf8EncodeChar character = [UInt8.ofNat character.toNat] := by
  unfold String.utf8EncodeChar
  exact if_pos (Nat.le_of_lt_succ narrow)

/-- Behind the first byte of a wide character there are only bytes that begin no character. -/
theorem encode_wide {character : Char} (wide : 128 ≤ character.toNat) :
    ∃ lead others, String.utf8EncodeChar character = lead :: others ∧ 192 ≤ lead.toNat ∧
      ∀ byte ∈ others, 128 ≤ byte.toNat ∧ byte.toNat < 192 := by
  have large : ¬ character.val.toNat ≤ 127 := by
    change 128 ≤ character.val.toNat at wide
    omega
  unfold String.utf8EncodeChar
  simp only [if_neg large]
  repeat' split
  all_goals
    refine ⟨_, _, rfl, ?_⟩
    simp only [List.mem_cons, List.not_mem_nil, or_false, forall_eq_or_imp, forall_eq,
      UInt8.toNat_ofNat']
    omega

/-- Bytes that begin a character are told from those that go on with one. -/
theorem exists_lead (character : Char) :
    ∃ lead others, String.utf8EncodeChar character = lead :: others ∧
      (lead.toNat < 128 ∨ 192 ≤ lead.toNat) := by
  by_cases narrow : character.toNat < 128
  · refine ⟨_, _, encode_narrow narrow, Or.inl ?_⟩
    rw [UInt8.toNat_ofNat']
    omega
  · obtain ⟨lead, others, encoded, first, _⟩ := encode_wide (Nat.le_of_not_lt narrow)
    exact ⟨lead, others, encoded, Or.inr first⟩

theorem ofUInt8_toNat (byte : UInt8) : (Char.ofUInt8 byte).toNat = byte.toNat :=
  byte.toNat_toUInt32

theorem ofUInt8_injective {first second : UInt8}
    (same : Char.ofUInt8 first = Char.ofUInt8 second) : first = second := by
  have codes := congrArg Char.toNat same
  rw [ofUInt8_toNat, ofUInt8_toNat] at codes
  exact UInt8.toNat_inj.mp codes

theorem ofUInt8_narrow {character : Char} (narrow : character.toNat < 128) :
    Char.ofUInt8 (UInt8.ofNat character.toNat) = character := by
  apply Char.toNat_inj.mp
  rw [ofUInt8_toNat, UInt8.toNat_ofNat']
  omega

/-- What holds of all wide characters, or of none, holds of a character when it holds of its
bytes. -/
theorem test_byte {test : Char → Bool} {constant : Bool}
    (wide : ∀ character : Char, 128 ≤ character.toNat → test character = constant)
    {character : Char} {byte : UInt8} (among : byte ∈ String.utf8EncodeChar character) :
    test (Char.ofUInt8 byte) = test character := by
  by_cases narrow : character.toNat < 128
  · rw [encode_narrow narrow, List.mem_singleton] at among
    rw [among, ofUInt8_narrow narrow]
  · have large := Nat.le_of_not_lt narrow
    obtain ⟨lead, others, encoded, first, rest⟩ := encode_wide large
    have above : 128 ≤ byte.toNat := by
      rw [encoded, List.mem_cons] at among
      rcases among with rfl | behind
      · omega
      · exact (rest byte behind).1
    rw [wide character large, wide _ (by rw [ofUInt8_toNat]; exact above)]

section

variable {test : Char → Bool} {constant : Bool}
    (wide : ∀ character : Char, 128 ≤ character.toNat → test character = constant)

include wide

theorem takeWhile_bytes (text : List Char) :
    (bytes text).takeWhile (test <| Char.ofUInt8 ·) = bytes (text.takeWhile test) := by
  induction text with
  | nil => rfl
  | cons first rest ih =>
      have same : ∀ byte ∈ String.utf8EncodeChar first, test (Char.ofUInt8 byte) = test first :=
        fun _byte among => test_byte wide among
      rw [bytes_cons]
      by_cases holds : test first
      · rw [List.takeWhile_cons_of_pos holds, bytes_cons, List.takeWhile_append_of_pos, ih]
        intro byte among
        rw [same byte among]
        exact holds
      · obtain ⟨lead, others, encoded, _⟩ := exists_lead first
        have leads : ¬ test (Char.ofUInt8 lead) := by
          rw [same lead (by rw [encoded]; exact List.mem_cons_self)]
          exact holds
        rw [List.takeWhile_cons_of_neg holds, encoded]
        exact List.takeWhile_cons_of_neg leads

end

theorem wide_ne {character : Char} (wide : 128 ≤ character.toNat) (mark : Char)
    (narrow : mark.toNat < 128) : (character == mark) = false := by
  apply beq_false_of_ne
  intro same
  rw [same] at wide
  omega

/-- The line feeds of a text are those of its bytes. -/
theorem count_bytes (text : List Char) : (bytes text).count 10 = text.count '\n' := by
  induction text with
  | nil => rfl
  | cons first rest ih =>
      rw [bytes_cons, List.count_append, ih, List.count_cons, Nat.add_comm]
      congr 1
      by_cases feeds : first = '\n'
      · rw [feeds]
        rfl
      · rw [if_neg (by simpa using feeds), List.count_eq_zero]
        intro among
        have same := test_byte (fun character wide => wide_ne wide '\n' (by decide)) among
        exact feeds (beq_iff_eq.mp same.symm)

end Utf8

end Lox
