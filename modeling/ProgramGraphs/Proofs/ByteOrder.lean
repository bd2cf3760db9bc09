import Mathlib.Data.String.Basic

/-! # The order of names by their bytes

Names are ordered by their characters. Of two different characters the greater has the greater
encoding, and they differ within the shorter one. So names are ordered by the bytes of their
encodings in the same way (`bytes_lt_iff`).
-/

namespace ProgramGraphs

/-- The bytes of a name. -/
def bytes (name : String) : List UInt8 :=
  name.toUTF8.data.toList

theorem bytes_eq_flatMap (name : String) :
    bytes name = name.toList.flatMap String.utf8EncodeChar := by
  rw [bytes, String.toUTF8_eq_toByteArray, ← String.utf8Encode_toList, List.utf8Encode,
    List.data_toByteArray]

theorem ofNat_cons_lt_iff {first second : Nat} (small : first < 256) (large : second < 256)
    (rest other : List UInt8) : UInt8.ofNat first :: rest < UInt8.ofNat second :: other ↔
      first < second ∨ first = second ∧ rest < other := by
  rw [List.cons_lt_cons_iff, UInt8.lt_iff_toNat_lt, ← UInt8.toNat_inj, UInt8.toNat_ofNat',
    UInt8.toNat_ofNat', Nat.mod_eq_of_lt small, Nat.mod_eq_of_lt large]

/-- The order of two encodings is that of the characters, whatever follows. -/
theorem utf8EncodeChar_append_lt {first second : Char} (less : first < second)
    (rest other : List UInt8) :
    String.utf8EncodeChar first ++ rest < String.utf8EncodeChar second ++ other := by
  have codes : first.val.toNat < second.val.toNat := UInt32.lt_iff_toNat_lt.mp less
  have bound : second.val.toNat < 1114112 := by
    have valid := second.valid
    rcases valid with small | ⟨_, high⟩ <;> omega
  -- all digits of a code are taken off in steps of 64
  have second_step (code : Nat) : code / 4096 = code / 64 / 64 := by omega
  have third_step (code : Nat) : code / 262144 = code / 64 / 64 / 64 := by omega
  unfold String.utf8EncodeChar
  dsimp only
  generalize first.val.toNat = v at *
  generalize second.val.toNat = w at *
  split_ifs <;>
    simp (disch := omega) only [List.cons_append, List.nil_append, ofNat_cons_lt_iff,
      second_step, third_step] <;>
    omega

theorem flatMap_utf8EncodeChar_lt {first second : List Char} (less : first < second) :
    first.flatMap String.utf8EncodeChar < second.flatMap String.utf8EncodeChar := by
  induction second generalizing first with
  | nil => exact absurd less (List.not_lt_nil _)
  | cons d others ih =>
    cases first with
    | nil =>
      have size : 0 < (String.utf8EncodeChar d).length := by
        rw [String.length_utf8EncodeChar]
        exact d.utf8Size_pos
      obtain ⟨byte, rest, shape⟩ := List.exists_cons_of_length_pos size
      rw [List.flatMap_nil, List.flatMap_cons, shape]
      exact List.nil_lt_cons _ _
    | cons c chars =>
      rw [List.flatMap_cons, List.flatMap_cons]
      rcases List.cons_lt_cons_iff.mp less with lower | ⟨rfl, later⟩
      · exact utf8EncodeChar_append_lt lower _ _
      · exact List.append_left_lt (ih later)

/-- Names are ordered as their bytes are. -/
theorem bytes_lt_iff (a b : String) : bytes a < bytes b ↔ a < b := by
  have along {a b : String} (less : a < b) : bytes a < bytes b := by
    rw [bytes_eq_flatMap, bytes_eq_flatMap]
    exact flatMap_utf8EncodeChar_lt (String.lt_iff_toList_lt.mp less)
  refine ⟨fun less => ?_, along⟩
  rcases lt_trichotomy a b with before | rfl | behind
  · exact before
  · exact absurd less (List.lt_irrefl _)
  · exact absurd (along behind) (List.lt_asymm less)

theorem bytes_le_iff (a b : String) : bytes a ≤ bytes b ↔ a ≤ b := by
  rw [← List.not_lt, ← not_lt, bytes_lt_iff]

end ProgramGraphs
