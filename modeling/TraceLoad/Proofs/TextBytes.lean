import Mathlib.Data.String.Basic

/-! # Texts as bytes

The UTF-8 bytes of a text are those of its characters one after the other (`toList_toUTF8`). The
bytes of two characters compare as the characters do, whatever comes behind them, and so the order
of texts is that of their bytes (`lt_iff_utf8_lt`).
-/

namespace TraceLoad

/-- The bytes of a text are those of its characters. -/
theorem toList_toUTF8 (s : String) :
    s.toUTF8.data.toList = s.toList.flatMap String.utf8EncodeChar := by
  conv => lhs; rw [← String.ofList_toList (s := s)]
  rw [String.toUTF8_eq_toByteArray, String.toByteArray_ofList, List.utf8Encode,
    List.data_toByteArray, List.toList_toArray]

/-- How the code of a character is written in bytes. The first byte tells how many there are, and
every further one holds six bits of the code. -/
inductive EncodesCode : Nat → List UInt8 → Prop where
  | one {n : Nat} (high : n < 0x80) : EncodesCode n [.ofNat n]
  | two {n : Nat} (low : 0x80 ≤ n) (high : n < 0x800) :
      EncodesCode n [.ofNat (n / 64 + 0xC0), .ofNat (n % 64 + 0x80)]
  | three {n : Nat} (low : 0x800 ≤ n) (high : n < 0x10000) :
      EncodesCode n
        [.ofNat (n / 64 / 64 + 0xE0), .ofNat (n / 64 % 64 + 0x80), .ofNat (n % 64 + 0x80)]
  | four {n : Nat} (low : 0x10000 ≤ n) (high : n < 0x110000) :
      EncodesCode n
        [.ofNat (n / 64 / 64 / 64 + 0xF0), .ofNat (n / 64 / 64 % 64 + 0x80),
          .ofNat (n / 64 % 64 + 0x80), .ofNat (n % 64 + 0x80)]

/-- No character has a greater code. -/
theorem toNat_lt_of_valid (c : Char) : c.toNat < 0x110000 := by
  have hvalid := c.valid
  simp only [UInt32.isValidChar, Nat.isValidChar] at hvalid
  have hcode : c.toNat = c.val.toNat := rfl
  omega

theorem encodesCode_utf8EncodeChar (c : Char) :
    EncodesCode c.toNat (String.utf8EncodeChar c) := by
  have hvalid := toNat_lt_of_valid c
  have hcode : c.val.toNat = c.toNat := rfl
  unfold String.utf8EncodeChar
  rw [hcode]
  generalize c.toNat = n at hvalid
  -- the digits are shifted out six bits at a time
  have htwice : n / 4096 = n / 64 / 64 := by omega
  have hthrice : n / 262144 = n / 64 / 64 / 64 := by omega
  dsimp only
  rw [htwice, hthrice]
  split
  · next h => exact .one (by omega)
  split
  · next hlow hhigh =>
    rw [Nat.mod_eq_of_lt (show n / 64 < 0x20 by omega)]
    exact .two (by omega) (by omega)
  split
  · next hlow hhigh =>
    rw [Nat.mod_eq_of_lt (show n / 64 / 64 < 0x10 by omega)]
    exact .three (by omega) (by omega)
  · next hlow =>
    rw [Nat.mod_eq_of_lt (show n / 64 / 64 / 64 < 0x08 by omega)]
    exact .four (by omega) hvalid

/-- The bytes of a code are at least what the code is, or do not occur among those of ASCII. -/
theorem toNat_of_mem_encodesCode {n : Nat} {b : UInt8} {bytes : List UInt8}
    (h : EncodesCode n bytes) (hb : b ∈ bytes) :
    b.toNat = n ∨ 0x80 ≤ b.toNat := by
  cases h with
  | one high =>
    rw [List.mem_singleton.1 hb, UInt8.toNat_ofNat']
    omega
  | two low high =>
    simp only [List.mem_cons, List.not_mem_nil, or_false] at hb
    rcases hb with rfl | rfl <;> rw [UInt8.toNat_ofNat'] <;> omega
  | three low high =>
    simp only [List.mem_cons, List.not_mem_nil, or_false] at hb
    rcases hb with rfl | rfl | rfl <;> rw [UInt8.toNat_ofNat'] <;> omega
  | four low high =>
    simp only [List.mem_cons, List.not_mem_nil, or_false] at hb
    rcases hb with rfl | rfl | rfl | rfl <;> rw [UInt8.toNat_ofNat'] <;> omega

/-- A character of ASCII is one byte. -/
theorem utf8EncodeChar_of_lt {c : Char} (h : c.toNat < 0x80) :
    String.utf8EncodeChar c = [UInt8.ofNat c.toNat] := by
  have hcode := encodesCode_utf8EncodeChar c
  generalize String.utf8EncodeChar c = bytes at hcode
  cases hcode with
  | one high => rfl
  | two low high => omega
  | three low high => omega
  | four low high => omega

/-- Bytes are compared from the front. -/
theorem ofNat_cons_lt_iff {a b : Nat} {xs ys : List UInt8} (ha : a < 256) (hb : b < 256) :
    UInt8.ofNat a :: xs < UInt8.ofNat b :: ys ↔ a < b ∨ a = b ∧ xs < ys := by
  have hnat : ∀ {n : Nat}, n < 256 → (UInt8.ofNat n).toNat = n := by
    intro n hn
    rw [UInt8.toNat_ofNat']
    omega
  rw [List.cons_lt_cons_iff, UInt8.lt_iff_toNat_lt, ← UInt8.toNat_inj, hnat ha, hnat hb]

/-- The lesser of two codes has the lesser bytes, whatever stands behind them. -/
theorem EncodesCode.append_lt {n m : Nat} {u v : List UInt8} (hu : EncodesCode n u)
    (hv : EncodesCode m v) (hlt : n < m) (xs ys : List UInt8) : u ++ xs < v ++ ys := by
  -- with as many bytes the first that differ decide, with fewer the first ones do
  cases hu <;> cases hv <;>
    simp (disch := omega) only [List.cons_append, List.nil_append, ofNat_cons_lt_iff] <;> omega

theorem flatMap_utf8EncodeChar_lt {cs ds : List Char} (h : cs < ds) :
    cs.flatMap String.utf8EncodeChar < ds.flatMap String.utf8EncodeChar := by
  induction cs generalizing ds with
  | nil =>
    cases ds with
    | nil => exact absurd h (List.lt_irrefl _)
    | cons d ds =>
      rcases List.exists_cons_of_ne_nil (String.utf8EncodeChar_ne_nil (c := d)) with ⟨b, bs, hd⟩
      rw [List.flatMap_nil, List.flatMap_cons, hd]
      exact List.nil_lt_cons _ _
  | cons c cs ih =>
    cases ds with
    | nil => exact absurd h (List.not_lt_nil _)
    | cons d ds =>
      rw [List.flatMap_cons, List.flatMap_cons]
      -- the first characters decide, or they are equal and so are their bytes
      rcases List.cons_lt_cons_iff.1 h with hlt | ⟨rfl, hrest⟩
      · exact (encodesCode_utf8EncodeChar c).append_lt (encodesCode_utf8EncodeChar d) hlt _ _
      · exact List.append_left_lt (ih hrest)

/-- Texts are ordered as their UTF-8 bytes are. -/
theorem lt_iff_utf8_lt {s t : String} : s < t ↔ s.toUTF8.data.toList < t.toUTF8.data.toList := by
  rw [toList_toUTF8, toList_toUTF8, String.lt_iff_toList_lt]
  constructor
  · intro h
    exact flatMap_utf8EncodeChar_lt h
  · intro h
    rcases lt_trichotomy s.toList t.toList with hlt | heq | hgt
    · exact hlt
    · rw [heq] at h
      exact absurd h (List.lt_irrefl _)
    · exact absurd (flatMap_utf8EncodeChar_lt hgt) (List.lt_asymm h)

end TraceLoad
