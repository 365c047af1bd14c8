import TraceLoad.Decimal.Numeral
import TraceLoad.Json.Reader

/-! # Texts and numbers as they were written

The two tokens with an inside. Every byte of a text is written in one of three ways
(`escapeByte_cases`), and the scanner has an equation for each of them. The digits of a number are
kept all of them if they fit 64 bits, and there is no zero too many in front
(`scanNumber_writeNat`); where the number ends is seen from what follows it (`Ends`).
-/

namespace TraceLoad.Json

/-! ## Texts -/

variable {b c x : UInt8} {rest : List UInt8}

/-- A byte without a mark is read as it is. -/
theorem scanText_plain (hquote : b ≠ quoteMark) (hmark : b ≠ backslash) (hcontrol : ¬ b < 0x20) :
    scanText (b :: rest) = prepend [b] (scanText rest) := by
  rw [scanText.eq_def]
  dsimp only
  rw [if_neg hquote, if_neg hmark, if_neg hcontrol]

/-- A mark and a letter are read as the byte that the letter stands for. -/
theorem scanText_letter (hunit : c ≠ unitLetter) (hletter : escapedByte? c = some x) :
    scanText (backslash :: c :: rest) = prepend [x] (scanText rest) := by
  rw [scanText.eq_def]
  dsimp only
  rw [if_neg (by decide), if_pos rfl, if_neg hunit, hletter]

/-- A mark and four digits are read as the character of that code. -/
theorem scanText_unit {h₁ h₂ h₃ h₄ : UInt8} {n : Nat} (hdigits : hexValue4? h₁ h₂ h₃ h₄ = some n)
    (hlow : isLowHalf n = false) (hhigh : isHighHalf n = false) :
    scanText (backslash :: unitLetter :: h₁ :: h₂ :: h₃ :: h₄ :: rest) =
      prepend (String.utf8EncodeChar (Char.ofNat n)) (scanText rest) := by
  rw [scanText.eq_def]
  dsimp only
  rw [if_neg (by decide), if_pos rfl, if_pos rfl, hdigits]
  dsimp only
  rw [hlow, hhigh]
  rfl

/-- The control characters are written by their numbers. -/
theorem hexValue4?_control : ∀ n : Fin 32,
    hexValue4? 0x30 0x30 (hexByte (UInt8.ofNat n / 16)) (hexByte (UInt8.ofNat n % 16)) =
      some n.val := by
  decide

/-- A byte is written as a letter behind a backslash, by its number, or as it is. -/
theorem escapeByte_cases (b : UInt8) :
    (∃ c, escapeByte b = [backslash, c] ∧ escapedByte? c = some b) ∨
      (escapeByte b = [backslash, 0x75, 0x30, 0x30, hexByte (b / 16), hexByte (b % 16)] ∧
        b < 0x20) ∨
      (escapeByte b = [b] ∧ b ≠ quoteMark ∧ b ≠ backslash ∧ ¬ b < 0x20) := by
  unfold escapeByte
  -- the bytes with a letter of their own come first, then other control characters
  split
  · next h =>
    subst h
    exact .inl ⟨quoteMark, rfl, rfl⟩
  split
  · next h =>
    subst h
    exact .inl ⟨backslash, rfl, rfl⟩
  split
  · next h => exact .inl ⟨0x62, rfl, h ▸ rfl⟩
  split
  · next h => exact .inl ⟨0x66, rfl, h ▸ rfl⟩
  split
  · next h => exact .inl ⟨0x6E, rfl, h ▸ rfl⟩
  split
  · next h => exact .inl ⟨0x72, rfl, h ▸ rfl⟩
  split
  · next h => exact .inl ⟨0x74, rfl, h ▸ rfl⟩
  split
  · next h => exact .inr (.inl ⟨rfl, h⟩)
  · next hquote hmark _ _ _ _ _ hcontrol => exact .inr (.inr ⟨rfl, hquote, hmark, hcontrol⟩)

/-- The bytes of a text are the text again. -/
theorem textOfBytes?_toUTF8 (s : String) : textOfBytes? s.toUTF8.data.toList = some s := by
  have hvalid : (s.toUTF8).IsValidUTF8 := s.isValidUTF8
  rw [textOfBytes?, Array.toArray_toList, String.fromUTF8?, dif_pos hvalid]
  rfl

/-! ## Numbers -/

/-- What may stand behind a number: nothing, or a byte that does not go on with it. -/
def Ends : List UInt8 → Prop
  | [] => True
  | b :: _ => isDigit b = false ∧ b ≠ point ∧ isExponentLetter b = false

theorem range_of_isDigit {c : Char} (h : c.isDigit = true) : 48 ≤ c.toNat ∧ c.toNat ≤ 57 := by
  simpa [Char.isDigit, UInt32.le_iff_toNat_le] using h

theorem toNat_ofNat_of_isDigit {c : Char} (h : c.isDigit = true) :
    (UInt8.ofNat c.toNat).toNat = c.toNat := by
  have hrange := range_of_isDigit h
  rw [UInt8.toNat_ofNat']
  omega

/-- The byte of a digit is a digit, with the digit's value. -/
theorem isDigit_ofNat {c : Char} (h : c.isDigit = true) :
    isDigit (UInt8.ofNat c.toNat) = true ∧
      digitValue (UInt8.ofNat c.toNat) = c.toNat - '0'.toNat := by
  have hbyte := toNat_ofNat_of_isDigit h
  refine ⟨?_, by rw [digitValue, hbyte]; rfl⟩
  simp only [isDigit, Bool.and_eq_true, decide_eq_true_eq, UInt8.le_iff_toNat_le, hbyte]
  exact range_of_isDigit h

/-- Digits that make a number of at most 64 bits are kept all of them. -/
theorem wholeDigits_digits {cs : List Char} (hdigits : ∀ c ∈ cs, c.isDigit = true) {n : Nat}
    (hfits : cs.foldl Decimal.pushDigit n < UInt64.size) (hrest : Ends rest) :
    wholeDigits n (cs.map (fun c => UInt8.ofNat c.toNat) ++ rest) =
      (cs.foldl Decimal.pushDigit n, 0, rest) := by
  induction cs generalizing n with
  | nil =>
    rw [List.map_nil, List.nil_append, List.foldl_nil]
    cases rest with
    | nil => rw [wholeDigits]
    | cons b rest => rw [wholeDigits, if_neg (Bool.eq_false_iff.1 hrest.1)]
  | cons c cs ih =>
    obtain ⟨hdigit, hvalue⟩ := isDigit_ofNat (hdigits c List.mem_cons_self)
    -- one digit more still fits, since the whole number does
    have hmore : Decimal.pushDigit n c < UInt64.size :=
      Nat.lt_of_le_of_lt (Decimal.le_foldl_pushDigit cs _) hfits
    rw [Decimal.pushDigit, ← hvalue] at hmore
    have hpush : pushDigit? n (UInt8.ofNat c.toNat) = some (Decimal.pushDigit n c) := by
      rw [pushDigit?_of_lt hmore, hvalue, Decimal.pushDigit]
    rw [List.map_cons, List.cons_append, wholeDigits, if_pos hdigit, hpush]
    exact ih (fun c hc => hdigits c (List.mem_cons_of_mem _ hc)) hfits

/-- A number is what its digits say. -/
theorem numeral_toDigits (n : Nat) : Decimal.numeral (Nat.toDigits 10 n) = n :=
  Nat.ofDigitChars_eq_foldl.symm.trans Nat.ofDigitChars_ten_toDigits

/-- Only zero is written with a zero in front. -/
theorem eq_nil_of_toDigits_zero {n : Nat} {cs : List Char} (h : Nat.toDigits 10 n = '0' :: cs) :
    cs = [] := by
  induction n using Nat.strongRecOn generalizing cs with
  | _ n ih =>
    by_cases hlt : n < 10
    · rw [Nat.toDigits_of_lt_base hlt] at h
      exact (List.cons.inj h).2.symm
    · -- the digits of a tenth of the number begin in the same way, so that the tenth is zero
      rw [Nat.toDigits_of_base_le (by decide) (Nat.le_of_not_lt hlt)] at h
      cases htenth : Nat.toDigits 10 (n / 10) with
      | nil => exact absurd htenth Nat.toDigits_ne_nil
      | cons d ds =>
        rw [htenth, List.cons_append] at h
        obtain ⟨rfl, -⟩ := List.cons.inj h
        obtain rfl := ih (n / 10) (by omega) htenth
        have hvalue := numeral_toDigits (n / 10)
        rw [htenth] at hvalue
        have hzero : n / 10 = 0 := hvalue.symm
        omega

/-- A number without a point and an exponent is the number of its digits. -/
theorem scanNumber_of_wholeDigits (negative : Bool) {digits : List UInt8} {n : Nat}
    (hb : isDigit b = true) (hzero : b = 0x30 → digits.head?.any isDigit = false)
    (hscan : wholeDigits (digitValue b) digits = (n, 0, rest)) (hrest : Ends rest) :
    scanNumber negative (b :: digits) = .ok (wholeNumber negative n, rest) := by
  have hled : ¬ (b = 0x30 ∧ digits.head?.any isDigit = true) := by
    rintro ⟨h, hany⟩
    rw [hzero h] at hany
    cases hany
  rw [scanNumber, hb]
  dsimp only
  rw [if_neg (by decide), if_neg hled, hscan]
  -- no point and no exponent follow where a number ends
  cases rest with
  | nil => exact if_neg fun h => h rfl
  | cons c tail =>
    obtain ⟨-, hpoint, hletter⟩ := hrest
    dsimp only
    rw [if_neg hpoint, if_neg (by simp [hletter])]

/-- A number of at most 64 bits is read from its digits. -/
theorem scanNumber_writeNat (negative : Bool) {n : Nat} (hfits : n < UInt64.size)
    (hrest : Ends rest) :
    scanNumber negative (writeNat n ++ rest) = .ok (wholeNumber negative n, rest) := by
  have hall : ∀ c ∈ Nat.toDigits 10 n, c.isDigit = true := fun c hc =>
    Nat.isDigit_of_mem_toDigits (by decide) (by decide) hc
  have hvalue := numeral_toDigits n
  rw [writeNat]
  cases hdigits : Nat.toDigits 10 n with
  | nil => exact absurd hdigits Nat.toDigits_ne_nil
  | cons c cs =>
    rw [hdigits] at hall hvalue
    obtain ⟨hfirst, hfirstValue⟩ := isDigit_ofNat (hall c List.mem_cons_self)
    refine scanNumber_of_wholeDigits negative hfirst ?zero ?digits hrest
    case zero =>
      intro hbyte
      have hc : c = '0' := by
        have hcode := toNat_ofNat_of_isDigit (hall c List.mem_cons_self)
        rw [show UInt8.ofNat c.toNat = 0x30 from hbyte] at hcode
        exact Char.toNat_inj.1 hcode.symm
      -- a number begins with a zero only if it is zero
      obtain rfl := eq_nil_of_toDigits_zero (hc ▸ hdigits)
      cases rest with
      | nil => rfl
      | cons b rest => simpa using hrest.1
    case digits =>
      have hnumeral : cs.foldl Decimal.pushDigit (digitValue (UInt8.ofNat c.toNat)) = n := by
        rw [hfirstValue, ← hvalue, Decimal.numeral, List.foldl_cons, Decimal.pushDigit,
          Nat.mul_zero, Nat.zero_add]
      have hkept := wholeDigits_digits (fun c hc => hall c (List.mem_cons_of_mem _ hc))
        (hnumeral ▸ hfits) hrest
      rwa [hnumeral] at hkept

end TraceLoad.Json
