import TraceLoad.Proofs.Passing
import TraceLoad.Proofs.Rounding

/-! # The numbers that literals stand for

A literal is a number as it is written (`Literal`); without fraction and exponent it stands for a
whole number (`Literal.value`), and every literal has a size. Of the digits as many are kept as fit
64 bits, and of an exponent as many as make a difference, so that what is kept is never more than
the size (`exists_signed`). A literal is therefore read as a real number unless it is large
(`signed_cases`).
-/

namespace TraceLoad.Json

/-! ## Literals -/

/-- The number that digits make. -/
def numeral (digits : List UInt8) : Nat := Nat.ofDigits 10 (digits.reverse.map digitValue)

/-- What digits behind a sign stand for, or without one. -/
def signedNumeral : List UInt8 → Int
  | [] => 0
  | b :: digits =>
    if b = minus then -(numeral digits : Int)
    else if b = plus then numeral digits
    else numeral (b :: digits)

/-- A number as it is written: the digits in front of the point, the point with the digits behind
it, and the exponent from its letter on. -/
structure Literal where
  negative : Bool
  whole : List UInt8
  fraction : List UInt8
  exponent : List UInt8
  isWhole : IsWholePart whole
  isFraction : IsFraction fraction
  isExponent : IsExponent exponent

namespace Literal

def unsigned (l : Literal) : List UInt8 := l.whole ++ (l.fraction ++ l.exponent)

def bytes (l : Literal) : List UInt8 := if l.negative then minus :: l.unsigned else l.unsigned

/-- The digits behind the point. -/
def places (l : Literal) : List UInt8 := l.fraction.tail

/-- The number that the literal stands for if it has no fraction and no exponent. -/
def value (l : Literal) : Int := if l.negative then -(numeral l.whole : Int) else numeral l.whole

/-- How far the number is from zero. -/
def size (l : Literal) : Rat :=
  numeral (l.whole ++ l.places) * 10 ^ (signedNumeral l.exponent.tail - l.places.length)

/-- The literal is an integer of 64 bits: it has no fraction and no exponent, and is not the
negative zero. -/
structure IsInt (l : Literal) (n : Int) : Prop where
  noFraction : l.fraction = []
  noExponent : l.exponent = []
  value : l.value = n
  notNegativeZero : l.negative = true → n ≠ 0
  least : -2 ^ 63 ≤ n
  greatest : n ≤ 2 ^ 63 - 1

end Literal

variable {b : UInt8} {bytes rest : List UInt8}

/-- Numbers are what literals are written as. -/
theorem isNumber_iff : IsNumber bytes ↔ ∃ l : Literal, l.bytes = bytes := by
  constructor
  · intro h
    cases h with
    | positive unsigned =>
      rcases unsigned with ⟨whole, fraction, exponent, hwhole, hfraction, hexponent, rfl⟩
      exact ⟨⟨false, whole, fraction, exponent, hwhole, hfraction, hexponent⟩, rfl⟩
    | negative unsigned =>
      rcases unsigned with ⟨whole, fraction, exponent, hwhole, hfraction, hexponent, rfl⟩
      exact ⟨⟨true, whole, fraction, exponent, hwhole, hfraction, hexponent⟩, rfl⟩
  · rintro ⟨⟨negative, whole, fraction, exponent, hwhole, hfraction, hexponent⟩, rfl⟩
    -- a literal is a number behind its sign
    have hunsigned : IsUnsigned (whole ++ (fraction ++ exponent)) :=
      ⟨whole, fraction, exponent, hwhole, hfraction, hexponent, rfl⟩
    cases negative with
    | false => exact .positive hunsigned
    | true => exact .negative hunsigned

/-! ## Digits -/

theorem numeral_append (ds es : List UInt8) :
    numeral (ds ++ es) = numeral ds * 10 ^ es.length + numeral es := by
  rw [numeral, List.reverse_append, List.map_append, Nat.ofDigits_append, List.length_map,
    List.length_reverse, Nat.add_comm, Nat.mul_comm]
  rfl

theorem numeral_singleton (b : UInt8) : numeral [b] = digitValue b := Nat.ofDigits_singleton

theorem numeral_cons (b : UInt8) (ds : List UInt8) :
    numeral (b :: ds) = digitValue b * 10 ^ ds.length + numeral ds := by
  rw [← List.singleton_append, numeral_append, numeral_singleton]

/-- The number that digits make behind those of another number. -/
def appended (n : Nat) (digits : List UInt8) : Nat := n * 10 ^ digits.length + numeral digits

theorem appended_nil (n : Nat) : appended n [] = n := by
  rw [appended, List.length_nil, pow_zero, Nat.mul_one]
  rfl

/-- Digits are appended one after another. -/
theorem appended_cons (n : Nat) (b : UInt8) (ds : List UInt8) :
    appended n (b :: ds) = appended (10 * n + digitValue b) ds := by
  rw [appended, appended, numeral_cons, List.length_cons, Nat.pow_succ]
  ring

theorem appended_zero (ds : List UInt8) : appended 0 ds = numeral ds := by
  rw [appended, Nat.zero_mul, Nat.zero_add]

theorem appended_numeral (ds es : List UInt8) : appended (numeral ds) es = numeral (ds ++ es) :=
  (numeral_append ds es).symm

theorem appended_digitValue (b : UInt8) (ds : List UInt8) :
    appended (digitValue b) ds = numeral (b :: ds) :=
  (numeral_cons b ds).symm

/-- A digit is worth less than ten. -/
theorem digitValue_lt (h : isDigit b = true) : digitValue b < 10 := by
  rw [isDigit, Bool.and_eq_true, decide_eq_true_eq, decide_eq_true_eq, UInt8.le_iff_toNat_le,
    UInt8.le_iff_toNat_le] at h
  have hnine : (0x39 : UInt8).toNat = 57 := rfl
  rw [digitValue]
  omega

variable {ds : List UInt8} {n : Nat}

theorem NoDigit.takeWhile (h : NoDigit rest) : rest.takeWhile isDigit = [] := by
  cases rest with
  | nil => rfl
  | cons b rest => exact List.takeWhile_cons_of_neg (Bool.eq_false_iff.1 h)

theorem pushDigit?_of_le (h : UInt64.size ≤ 10 * n + digitValue b) : pushDigit? n b = none := by
  unfold pushDigit?
  exact if_neg (Nat.not_lt.2 h)

/-- What is kept of a number when digits have been appended to it and some may have been left out.
-/
structure KeptWhole (all kept dropped : Nat) : Prop where
  fits : kept < UInt64.size
  le : kept * 10 ^ dropped ≤ all
  eq_of_none : dropped = 0 → kept = all
  /-- nothing is left out that could be kept -/
  full : dropped ≠ 0 → UInt64.size * 10 ^ (dropped - 1) ≤ all

theorem le_appended (n : Nat) (ds : List UInt8) : n * 10 ^ ds.length ≤ appended n ds :=
  Nat.le_add_right _ _

/-- In front of the point as many digits are kept as fit, and all others are counted. -/
theorem wholeDigits_kept (hds : ∀ b ∈ ds, isDigit b = true) (hn : n < UInt64.size) :
    ∃ kept dropped, KeptWhole (appended n ds) kept dropped ∧
      ∀ rest, NoDigit rest → wholeDigits n (ds ++ rest) = (kept, dropped, rest) := by
  induction ds generalizing n with
  | nil =>
    rw [appended_nil]
    refine ⟨n, 0, ⟨hn, by simp, fun _ => rfl, fun h => absurd rfl h⟩, ?_⟩
    intro rest hrest
    cases rest with
    | nil => rfl
    | cons b rest => exact if_neg (Bool.eq_false_iff.1 hrest)
  | cons b ds ih =>
    have hb := hds b List.mem_cons_self
    have hmore : ∀ x ∈ ds, isDigit x = true := fun x hx => hds x (List.mem_cons_of_mem _ hx)
    rw [appended_cons]
    by_cases hfits : 10 * n + digitValue b < UInt64.size
    · rcases ih hmore hfits with ⟨kept, dropped, hkept, hscan⟩
      refine ⟨kept, dropped, hkept, ?_⟩
      intro rest hrest
      rw [List.cons_append, wholeDigits, if_pos hb, pushDigit?_of_lt hfits]
      exact hscan rest hrest
    · -- from here on all digits are left out
      have hall := le_appended (10 * n + digitValue b) ds
      have hless : n * 10 * 10 ^ ds.length ≤ (10 * n + digitValue b) * 10 ^ ds.length :=
        Nat.mul_le_mul_right _ (by omega)
      have hfull := Nat.mul_le_mul_right (10 ^ ds.length) (Nat.le_of_not_lt hfits)
      refine ⟨n, 1 + ds.length, ⟨hn, ?_, fun h => by omega, fun _ => ?_⟩, ?_⟩
      · rw [Nat.pow_add, pow_one, ← Nat.mul_assoc]
        omega
      · rw [Nat.add_sub_cancel_left]
        omega
      · intro rest hrest
        rw [List.cons_append, wholeDigits, if_pos hb, pushDigit?_of_le (Nat.le_of_not_lt hfits)]
        dsimp only
        rw [List.takeWhile_append_of_pos hmore, hrest.takeWhile, List.append_nil,
          List.dropWhile_append_of_pos hmore, hrest.dropWhile]

/-- What is kept of digits behind the point. -/
structure KeptPlaces (n : Nat) (ds : List UInt8) (m kept : Nat) : Prop where
  fits : m < UInt64.size
  length : kept ≤ ds.length
  le : m * 10 ^ (ds.length - kept) ≤ appended n ds
  eq_of_none : kept = 0 → m = n

/-- Behind the point as many digits are kept as fit, and all others are left out. -/
theorem placeDigits_kept (hds : ∀ b ∈ ds, isDigit b = true) (hn : n < UInt64.size) :
    ∃ m kept, KeptPlaces n ds m kept ∧
      ∀ rest, NoDigit rest → placeDigits n (ds ++ rest) = (m, kept, rest) := by
  induction ds generalizing n with
  | nil =>
    refine ⟨n, 0, ⟨hn, le_rfl, le_appended n [], fun _ => rfl⟩, ?_⟩
    intro rest hrest
    cases rest with
    | nil => rfl
    | cons b rest => exact if_neg (Bool.eq_false_iff.1 hrest)
  | cons b ds ih =>
    have hb := hds b List.mem_cons_self
    have hmore : ∀ x ∈ ds, isDigit x = true := fun x hx => hds x (List.mem_cons_of_mem _ hx)
    by_cases hfits : 10 * n + digitValue b < UInt64.size
    · rcases ih hmore hfits with ⟨m, kept, hkept, hscan⟩
      refine ⟨m, kept + 1, ⟨hkept.fits, Nat.succ_le_succ hkept.length, ?_, nofun⟩, ?_⟩
      · rw [appended_cons, List.length_cons, Nat.add_sub_add_right]
        exact hkept.le
      · intro rest hrest
        rw [List.cons_append, placeDigits, if_pos hb, pushDigit?_of_lt hfits]
        dsimp only
        rw [hscan rest hrest]
    · -- the first that does not fit ends it, whatever stands behind
      refine ⟨n, 0, ⟨hn, Nat.zero_le _, le_appended n (b :: ds), fun _ => rfl⟩, ?_⟩
      intro rest hrest
      rw [List.cons_append, placeDigits, if_pos hb, pushDigit?_of_le (Nat.le_of_not_lt hfits)]
      dsimp only
      rw [List.dropWhile_append_of_pos hmore, hrest.dropWhile]

/-! ## Exponents -/

/-- Of an exponent all digits are kept until it is full. -/
theorem exponentDigits_kept (hds : ∀ b ∈ ds, isDigit b = true) (full n : Nat) :
    ∃ m, m ≤ appended n ds ∧ (m = appended n ds ∨ full ≤ m) ∧
      ∀ rest, NoDigit rest → exponentDigits full n (ds ++ rest) = (m, rest) := by
  induction ds generalizing n with
  | nil =>
    rw [appended_nil]
    refine ⟨n, le_rfl, .inl rfl, ?_⟩
    intro rest hrest
    cases rest with
    | nil => rfl
    | cons b rest => exact if_neg (Bool.eq_false_iff.1 hrest)
  | cons b ds ih =>
    have hb := hds b List.mem_cons_self
    have hmore : ∀ x ∈ ds, isDigit x = true := fun x hx => hds x (List.mem_cons_of_mem _ hx)
    rw [appended_cons]
    by_cases hfull : n < full
    · rcases ih hmore (10 * n + digitValue b) with ⟨m, hle, hm, hscan⟩
      refine ⟨m, hle, hm, ?_⟩
      intro rest hrest
      rw [List.cons_append, exponentDigits, if_pos hb, if_pos hfull, hscan rest hrest]
    · rcases ih hmore n with ⟨m, hle, hm, hscan⟩
      -- what is kept stays as it is, and the number itself only grows
      have hgrow : n * 10 ^ ds.length ≤ (10 * n + digitValue b) * 10 ^ ds.length :=
        Nat.mul_le_mul_right _ (by omega)
      have hpos : n ≤ n * 10 ^ ds.length := Nat.le_mul_of_pos_right n (Nat.pow_pos (by decide))
      have hless := le_appended n ds
      refine ⟨m, ?_, .inr (by omega), ?_⟩
      · rw [appended] at hle ⊢
        omega
      · intro rest hrest
        rw [List.cons_append, exponentDigits, if_pos hb, if_neg hfull, hscan rest hrest]

/-- Digits behind the letter are read up to where the exponent is full. -/
theorem exists_scanExponent_unsigned (h : AreDigits ds) (full : Nat) :
    ∃ x : Int, x ≤ signedNumeral ds ∧
      ∀ rest, NoDigit rest → scanExponent full (ds ++ rest) = .ok (x, rest) := by
  rcases exponentDigits_kept h.2 full 0 with ⟨m, hle, -, hscan⟩
  have hnone : NoDigit [] := rfl
  rcases h.exists_cons hnone with ⟨d, ds, rfl, hd, -⟩
  have hsign := not_sign_of_isDigit hd
  rw [appended_zero] at hle
  refine ⟨m, ?_, ?_⟩
  · rw [signedNumeral, if_neg (mt Or.inl hsign), if_neg (mt Or.inr hsign)]
    omega
  · intro rest hrest
    have hscan := hscan rest hrest
    rw [List.cons_append] at hscan ⊢
    rw [scanExponent]
    dsimp only
    -- the first digit is no sign, so it is where the digits begin
    rw [if_neg (mt Or.inl hsign), if_neg (mt Or.inr hsign)]
    dsimp only
    rw [if_pos hd, hscan]
    rfl

theorem exists_scanExponent_signed (hb : b = minus ∨ b = plus) (h : AreDigits ds) (full : Nat) :
    ∃ x : Int, (x ≤ signedNumeral (b :: ds) ∨ x ≤ -(full : Int)) ∧
      ∀ rest, NoDigit rest → scanExponent full (b :: (ds ++ rest)) = .ok (x, rest) := by
  rcases exponentDigits_kept h.2 full 0 with ⟨m, hle, hm, hscan⟩
  have hnone : NoDigit [] := rfl
  rcases h.exists_cons hnone with ⟨d, ds, rfl, hd, -⟩
  rw [appended_zero] at hle hm
  -- the digits are scanned alike behind either sign, and negated behind a minus
  have hdigits : ∀ (b : UInt8) (down : Bool), (b = minus ∧ down = true ∨ b = plus ∧ down = false) →
      ∀ rest, NoDigit rest → scanExponent full (b :: (d :: ds ++ rest)) =
        .ok (if down then -(m : Int) else m, rest) := by
    intro b down hsign rest hrest
    have hscan := hscan rest hrest
    rw [List.cons_append] at hscan ⊢
    rw [scanExponent]
    dsimp only
    rcases hsign with ⟨rfl, rfl⟩ | ⟨rfl, rfl⟩
    · rw [if_pos rfl]
      dsimp only
      rw [if_pos hd, hscan]
    · rw [if_neg (by decide), if_pos rfl]
      dsimp only
      rw [if_pos hd, hscan]
  rcases hb with rfl | rfl
  · refine ⟨-(m : Int), ?_, hdigits minus true (.inl ⟨rfl, rfl⟩)⟩
    rw [signedNumeral, if_pos rfl]
    omega
  · refine ⟨m, .inl ?_, hdigits plus false (.inr ⟨rfl, rfl⟩)⟩
    rw [signedNumeral, if_neg (by decide), if_pos rfl]
    omega

/-- An exponent is read as what it stands for, or as one that makes as much of a difference. -/
theorem exists_scanTail (h : IsExponent bytes) (negative : Bool) (n : Nat) (e : Int) :
    ∃ x, (x ≤ signedNumeral bytes.tail ∨ e + x < 0) ∧
      ∀ rest, Ends rest →
        scanTail negative n e (bytes ++ rest) = signed negative n (e + x) rest := by
  cases h with
  | none =>
    refine ⟨0, .inl le_rfl, ?_⟩
    intro rest hrest
    rw [Int.add_zero]
    cases rest with
    | nil => rfl
    | cons b rest => exact if_neg (Bool.eq_false_iff.1 hrest.2.2)
  | unsigned letter digits =>
    rcases exists_scanExponent_unsigned digits (fullExponent e) with ⟨x, hle, hscan⟩
    refine ⟨x, .inl hle, ?_⟩
    intro rest hrest
    rw [List.cons_append, scanTail, if_pos letter, hscan rest hrest.noDigit]
  | signed letter sign digits =>
    rcases exists_scanExponent_signed sign digits (fullExponent e) with ⟨x, hx, hscan⟩
    refine ⟨x, ?_, ?_⟩
    · rcases hx with hle | hfull
      · exact .inl hle
      · -- what is cut off is so far below zero that the power in front does not matter
        right
        rw [fullExponent] at hfull
        omega
    · intro rest hrest
      rw [List.cons_append, List.cons_append, scanTail, if_pos letter, hscan rest hrest.noDigit]

/-! ## Numbers -/

variable {whole fraction exponent : List UInt8}

/-- The digits in front of the point, and what comes of those behind them. -/
def scanBehind (negative : Bool) (found : Nat × Nat × List UInt8) :
    Except Fault (Number × List UInt8) :=
  let (n, dropped, rest) := found
  match rest with
  | c :: tail =>
    if c = point then scanPlaces negative n dropped tail
    else if isExponentLetter c ∨ dropped ≠ 0 then scanTail negative n dropped rest
    else .ok (wholeNumber negative n, rest)
  | [] =>
    if dropped ≠ 0 then signed negative n dropped []
    else .ok (wholeNumber negative n, [])

/-- A number is scanned by scanning the digits in front of the point, and then what stands behind
them. -/
theorem exists_scanNumber (h : IsWholePart whole) (negative : Bool) :
    ∃ kept dropped, KeptWhole (numeral whole) kept dropped ∧
      ∀ rest, NoDigit rest → scanNumber negative (whole ++ rest) =
        scanBehind negative (kept, dropped, rest) := by
  have hdigits : AreDigits whole := by
    cases h with
    | zero => exact ⟨nofun, List.all_eq_true.1 rfl⟩
    | digits digits first => exact digits
  have hnone : NoDigit [] := rfl
  rcases hdigits.exists_cons hnone with ⟨d, ds, rfl, hd, -⟩
  have hfits : digitValue d < UInt64.size := lt_trans (digitValue_lt hd) (by decide)
  rcases wholeDigits_kept (fun b hb => hdigits.2 b (List.mem_cons_of_mem _ hb)) hfits with
    ⟨kept, dropped, hkept, hscan⟩
  rw [appended_digitValue] at hkept
  refine ⟨kept, dropped, hkept, ?_⟩
  intro rest hrest
  -- a zero that leads is alone, or it would not be a number
  have hled : ¬ (d = 0x30 ∧ (ds ++ rest).head?.any isDigit = true) := by
    rintro ⟨rfl, hany⟩
    cases h with
    | zero =>
      rw [List.nil_append, hrest] at hany
      cases hany
    | digits digits first => exact first rfl
  rw [List.cons_append, scanNumber, hd]
  dsimp only
  rw [if_neg (by decide), if_neg hled, hscan rest hrest]
  rfl

/-- The digits in front of the point are no more than all of them are. -/
theorem numeral_le_append (whole places : List UInt8) :
    (numeral whole : Rat) ≤ numeral (whole ++ places) * 10 ^ (-(places.length : Int)) := by
  have hall : numeral whole * 10 ^ places.length ≤ numeral (whole ++ places) := by
    rw [numeral_append]
    exact Nat.le_add_right _ _
  rw [zpow_neg, zpow_natCast, ← div_eq_mul_inv, le_div_iff₀ (by positivity)]
  exact_mod_cast hall

/-- No more is kept of digits around the point than they stand for. -/
theorem KeptPlaces.size_le {m kept dropped : Nat} (h : KeptPlaces n ds m kept)
    (hwhole : KeptWhole (numeral whole) n dropped) :
    (m : Rat) * 10 ^ ((dropped : Int) - kept) ≤
      numeral (whole ++ ds) * 10 ^ (-(ds.length : Int)) := by
  by_cases hdropped : dropped = 0
  · -- all digits in front of the point are there
    obtain rfl := hwhole.eq_of_none hdropped
    subst hdropped
    have hle := h.le
    have hlength := h.length
    rw [appended_numeral] at hle
    have hpower : (10 : Rat) ^ (((0 : Nat) : Int) - kept) =
        10 ^ (ds.length - kept) * 10 ^ (-(ds.length : Int)) := by
      rw [← zpow_natCast, ← zpow_add₀ (by norm_num)]
      congr 1
      omega
    rw [hpower, ← mul_assoc]
    refine mul_le_mul_of_nonneg_right ?_ (by positivity)
    exact_mod_cast hle
  · refine le_trans ?_ (numeral_le_append whole ds)
    by_cases hnone : kept = 0
    · obtain rfl := h.eq_of_none hnone
      rw [hnone, Nat.cast_zero, sub_zero, zpow_natCast]
      exact_mod_cast hwhole.le
    · -- a digit behind the point that is kept takes the place of one that is left out
      have hpower : (10 : Rat) ^ ((dropped : Int) - kept) ≤ 10 ^ ((dropped - 1 : Nat) : Int) :=
        zpow_le_zpow_right₀ (by norm_num) (by omega)
      have hfull : m * 10 ^ (dropped - 1) ≤ numeral whole :=
        le_trans (Nat.mul_le_mul_right _ h.fits.le) (hwhole.full hdropped)
      calc
        (m : Rat) * 10 ^ ((dropped : Int) - kept) ≤ m * 10 ^ ((dropped - 1 : Nat) : Int) :=
          mul_le_mul_of_nonneg_left hpower (by positivity)
        _ ≤ numeral whole := by
          rw [zpow_natCast]
          exact_mod_cast hfull

/-- Without a point, what is kept of the digits goes on to the exponent. -/
theorem exists_scanNumber_unpointed (hwhole : IsWholePart whole) (hexponent : IsExponent exponent)
    (negative : Bool) (hreal : exponent = [] → UInt64.size ≤ numeral whole) :
    ∃ n dropped, KeptWhole (numeral whole) n dropped ∧
      ∀ rest, Ends rest → scanNumber negative (whole ++ (exponent ++ rest)) =
        scanTail negative n dropped (exponent ++ rest) := by
  rcases exists_scanNumber hwhole negative with ⟨n, dropped, hkept, hscan⟩
  refine ⟨n, dropped, hkept, ?_⟩
  intro rest hrest
  rw [hscan _ (hexponent.noDigit hrest)]
  cases hexponent with
  | none =>
    -- such digits do not fit, so some of them have been left out
    have hdropped : dropped ≠ 0 := by
      intro hnone
      have hfits := hkept.fits
      rw [hkept.eq_of_none hnone] at hfits
      exact absurd (hreal rfl) (by omega)
    cases rest with
    | nil => exact if_pos hdropped
    | cons c tail => exact (if_neg hrest.2.1).trans (if_pos (.inr hdropped))
  | unsigned letter digits =>
    exact (if_neg (of_isExponentLetter letter).2).trans (if_pos (.inl letter))
  | signed letter sign digits =>
    exact (if_neg (of_isExponentLetter letter).2).trans (if_pos (.inl letter))

/-- Digits behind the point are kept before that. -/
theorem exists_scanNumber_pointed (hwhole : IsWholePart whole) (hds : AreDigits ds)
    (negative : Bool) :
    ∃ n dropped m kept, KeptWhole (numeral whole) n dropped ∧ KeptPlaces n ds m kept ∧
      ∀ rest, NoDigit rest → scanNumber negative (whole ++ (point :: (ds ++ rest))) =
        scanTail negative m ((dropped : Int) - kept) rest := by
  rcases exists_scanNumber hwhole negative with ⟨n, dropped, hkept, hscan⟩
  rcases placeDigits_kept hds.2 hkept.fits with ⟨m, kept, hplaces, hdigits⟩
  refine ⟨n, dropped, m, kept, hkept, hplaces, ?_⟩
  intro rest hrest
  have hbehind : scanBehind negative (n, dropped, point :: (ds ++ rest)) =
      scanPlaces negative n dropped (ds ++ rest) := by
    rw [scanBehind]
    exact if_pos rfl
  have hpoint : NoDigit (point :: (ds ++ rest)) := rfl
  have hdigits := hdigits _ hrest
  rw [hscan _ hpoint, hbehind]
  -- there is a digit behind the point, which is looked for first
  rcases hds.exists_cons hrest with ⟨d, ds, rfl, hd, -⟩
  rw [List.cons_append] at hdigits ⊢
  rw [scanPlaces, if_pos hd, hdigits]

/-- In front of the exponent no more is kept than is there. -/
theorem exists_scanNumber_scanTail (hwhole : IsWholePart whole) (hfraction : IsFraction fraction)
    (hexponent : IsExponent exponent) (negative : Bool)
    (hreal : fraction = [] → exponent = [] → UInt64.size ≤ numeral whole) :
    ∃ n e, n < UInt64.size ∧
      (n : Rat) * 10 ^ e ≤
        numeral (whole ++ fraction.tail) * 10 ^ (-(fraction.tail.length : Int)) ∧
      ∀ rest, Ends rest → scanNumber negative (whole ++ (fraction ++ (exponent ++ rest))) =
        scanTail negative n e (exponent ++ rest) := by
  cases hfraction with
  | none =>
    rcases exists_scanNumber_unpointed hwhole hexponent negative (hreal rfl) with
      ⟨n, dropped, hkept, hscan⟩
    refine ⟨n, dropped, hkept.fits, ?_, hscan⟩
    -- without a point there are no places
    have hle := hkept.le
    rw [List.tail_nil, List.append_nil, List.length_nil, Nat.cast_zero, neg_zero, zpow_zero,
      mul_one, zpow_natCast]
    exact_mod_cast hle
  | @places ds digits =>
    rcases exists_scanNumber_pointed hwhole digits negative with
      ⟨n, dropped, m, kept, hkept, hplaces, hscan⟩
    refine ⟨m, dropped - kept, hplaces.fits, hplaces.size_le hkept, ?_⟩
    intro rest hrest
    exact hscan _ (hexponent.noDigit hrest)

namespace Literal

variable {l : Literal}

theorem IsInt.unique {m n : Int} (hm : l.IsInt m) (hn : l.IsInt n) : m = n :=
  hm.value.symm.trans hn.value

/-- A literal that has a fraction or an exponent, or does not fit, is read as a product with a power
of ten that is no more than its size. -/
theorem exists_signed (l : Literal)
    (hreal : l.fraction = [] → l.exponent = [] → UInt64.size ≤ numeral l.whole) :
    ∃ n e, n < UInt64.size ∧ (0 ≤ e → (n : Rat) * 10 ^ e ≤ l.size) ∧
      ∀ rest, Ends rest →
        scanNumber l.negative (l.unsigned ++ rest) = signed l.negative n e rest := by
  rcases exists_scanNumber_scanTail l.isWhole l.isFraction l.isExponent l.negative hreal with
    ⟨n, e, hn, hle, hscan⟩
  rcases exists_scanTail l.isExponent l.negative n e with ⟨x, hx, htail⟩
  refine ⟨n, e + x, hn, ?_, ?_⟩
  · intro hpos
    -- the other case of `hx` is that the power of ten is negative
    have hx : x ≤ signedNumeral l.exponent.tail := by omega
    have hten : (10 : Rat) ≠ 0 := by norm_num
    calc
      (n : Rat) * 10 ^ (e + x) = n * 10 ^ e * 10 ^ x := by rw [zpow_add₀ hten, mul_assoc]
      _ ≤ numeral (l.whole ++ l.places) * 10 ^ (-(l.places.length : Int)) *
          10 ^ signedNumeral l.exponent.tail :=
        mul_le_mul hle (zpow_le_zpow_right₀ (by norm_num) hx) (by positivity) (by positivity)
      _ = l.size := by rw [size, mul_assoc, ← zpow_add₀ hten, neg_add_eq_sub]
  · intro rest hrest
    have hbytes : l.unsigned ++ rest = l.whole ++ (l.fraction ++ (l.exponent ++ rest)) := by
      simp only [unsigned, List.append_assoc]
    rw [hbytes, hscan rest hrest, htail rest hrest]

/-- A literal of digits only that fits is read as it is. -/
theorem scanNumber_plain (l : Literal) (hfraction : l.fraction = []) (hexponent : l.exponent = [])
    (hfits : numeral l.whole < UInt64.size) (hrest : Ends rest) :
    scanNumber l.negative (l.unsigned ++ rest) =
      .ok (wholeNumber l.negative (numeral l.whole), rest) := by
  rcases exists_scanNumber l.isWhole l.negative with ⟨n, dropped, hkept, hscan⟩
  have hnone : dropped = 0 := by
    by_contra hdropped
    -- a digit is left out only of a number that does not fit
    have hfull := hkept.full hdropped
    have hpos : 0 < 10 ^ (dropped - 1) := Nat.pow_pos (by decide)
    have hle : UInt64.size ≤ UInt64.size * 10 ^ (dropped - 1) := Nat.le_mul_of_pos_right _ hpos
    omega
  rw [unsigned, hfraction, hexponent, List.append_nil, List.append_nil, hscan _ hrest.noDigit,
    hkept.eq_of_none hnone, hnone]
  cases rest with
  | nil => rfl
  | cons c tail =>
    refine (if_neg hrest.2.1).trans (if_neg ?_)
    simp [hrest.2.2]

/-- A literal that is small enough is a product that is in range. -/
theorem lt_of_size_lt {e : Int} (he : 0 ≤ e) (hle : (n : Rat) * 10 ^ e ≤ l.size)
    (hsmall : l.size < leastRefused) : n * 10 ^ e.toNat < leastRefused := by
  have hcast : ((n * 10 ^ e.toNat : Nat) : Rat) = n * 10 ^ e := by
    rw [Nat.cast_mul, Nat.cast_pow, ← zpow_natCast, Int.toNat_of_nonneg he]
    rfl
  rw [← hcast] at hle
  exact_mod_cast lt_of_le_of_lt hle hsmall

/-- Such a literal is read as a real number, unless it is too large and refused. -/
theorem signed_cases (l : Literal)
    (hreal : l.fraction = [] → l.exponent = [] → UInt64.size ≤ numeral l.whole) :
    (∃ x, ∀ rest, Ends rest →
      scanNumber l.negative (l.unsigned ++ rest) = .ok (.real x, rest)) ∨
    leastRefused ≤ l.size ∧ ∀ rest, Ends rest →
      scanNumber l.negative (l.unsigned ++ rest) = .error .malformed := by
  rcases l.exists_signed hreal with ⟨n, e, hn, hle, hscan⟩
  cases hscale : scale? n e with
  | some x =>
    refine .inl ⟨if l.negative then x.negate else x, ?_⟩
    intro rest hrest
    rw [hscan rest hrest, signed, hscale]
  | none =>
    refine .inr ⟨?_, ?_⟩
    · by_contra hsmall
      -- a small one would have been scaled
      have hsome := isSome_scale? hn fun he => lt_of_size_lt he (hle he) (not_le.1 hsmall)
      rw [hscale] at hsome
      cases hsome
    · intro rest hrest
      rw [hscan rest hrest, signed, hscale]

/-- A literal begins with its sign or a digit, and is read from behind the sign on. -/
theorem number_eq (l : Literal) :
    ∃ b tail, l.bytes = b :: tail ∧ Reader.beginsNumber b = true ∧
      ∀ rest, Reader.number b (l.bytes ++ rest) = scanNumber l.negative (l.unsigned ++ rest) := by
  by_cases hnegative : l.negative = true
  · refine ⟨minus, l.unsigned, if_pos hnegative, rfl, ?_⟩
    intro rest
    rw [bytes, if_pos hnegative, hnegative]
    rfl
  · have hunsigned : IsUnsigned l.unsigned :=
      ⟨_, _, _, l.isWhole, l.isFraction, l.isExponent, rfl⟩
    rcases hunsigned.exists_cons with ⟨d, tail, hbytes, hd⟩
    -- without a sign the number begins with a digit
    have hsign : d ≠ minus := fun h => not_sign_of_isDigit hd (.inl h)
    refine ⟨d, tail, (if_neg hnegative).trans hbytes, by simp [Reader.beginsNumber, hd], ?_⟩
    intro rest
    rw [bytes, if_neg hnegative, Reader.number, if_neg hsign,
      Bool.eq_false_of_not_eq_true hnegative]

end Literal

end TraceLoad.Json
