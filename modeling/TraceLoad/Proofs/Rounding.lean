import Mathlib
import TraceLoad.Json.Scan

/-! # Products that stay finite

A number is read by rounding its digits to a binary number and multiplying that by a power of ten,
which is a rounded number itself. A number of 53 bits is the whole number closest to a quotient by a
power of two (`Near`), so that rounding keeps the order (`units_le_units`); and a product is finite
as long as it lies below half a unit beyond the largest number (`isInfinite_mul`). What is left is
one comparison for each power of ten, at the greatest digits for which the number is below
`leastRefused`.
-/

open Float.Model Float.Model.UnpackedFloat

namespace TraceLoad

namespace Binary64

/-! ## Shifting and rounding -/

/-- What the two bits beside a mantissa tell about the remainder `r` of a division by `d`. -/
def Residue (em : ExtendedMantissa) (d r : Nat) : Prop :=
  match em.roundBit, em.stickyBit with
  | false, false => r = 0
  | false, true => 0 < r ∧ 2 * r < d
  | true, false => 2 * r = d
  | true, true => d < 2 * r ∧ r < d

variable {em : ExtendedMantissa} {m n d r : Nat} {e : Int}

/-- The lowest bit of the quotient goes over to the remainder. -/
theorem Residue.shiftRightOne (h : Residue em d r) (hd : 0 < d) :
    Residue em.shiftRightOne (2 * d) (em.mantissa % 2 * d + r) := by
  rcases em with ⟨q, round, sticky⟩
  unfold ExtendedMantissa.shiftRightOne
  rcases Nat.mod_two_eq_zero_or_one q with hbit | hbit
  · rw [hbit, Nat.zero_mul, Nat.zero_add]
    cases round <;> cases sticky <;> simp only [Residue] at h <;> simp [Residue] <;> omega
  · rw [hbit, Nat.one_mul]
    cases round <;> cases sticky <;> simp only [Residue] at h <;> simp [Residue] <;> omega

/-- A mantissa that is shifted is divided by a power of two. -/
theorem exists_residue (em : ExtendedMantissa) (hexact : Residue em 1 0) (k : Nat) :
    ∃ r, em.mantissa = (em >>> k).mantissa * 2 ^ k + r ∧ Residue (em >>> k) (2 ^ k) r := by
  induction k with
  | zero => exact ⟨0, by simp [HShiftRight.hShiftRight, Nat.repeat], hexact⟩
  | succ k ih =>
    rcases ih with ⟨r, hm, hr⟩
    have hstep : em >>> (k + 1) = (em >>> k).shiftRightOne := rfl
    -- the bit that is shifted out goes in front of the remainder so far
    have hquotient : (em >>> k).mantissa * 2 ^ k =
        (em >>> k).mantissa / 2 * 2 ^ (k + 1) + (em >>> k).mantissa % 2 * 2 ^ k := by
      rw [pow_succ', ← mul_assoc, ← add_mul, Nat.div_add_mod']
    refine ⟨(em >>> k).mantissa % 2 * 2 ^ k + r, ?_, ?_⟩
    · rw [hstep, ExtendedMantissa.shiftRightOne, ← add_assoc, ← hquotient]
      exact hm
    · rw [hstep, pow_succ']
      exact hr.shiftRightOne (Nat.two_pow_pos k)

/-- A whole number closest to the quotient of `m` by `d`. -/
structure Near (m d r : Nat) : Prop where
  above : 2 * (r * d) ≤ 2 * m + d
  below : 2 * m ≤ 2 * (r * d) + d

theorem Residue.near (h : Residue em d r) :
    Near (em.mantissa * d + r) d em.roundedMantissa := by
  rcases em with ⟨q, round, sticky⟩
  have hup : (q + 1) * d = q * d + d := Nat.succ_mul q d
  cases round <;> cases sticky <;>
    simp only [Residue, ExtendedMantissa.roundedMantissa, ExtendedMantissa.accuracy,
      Accuracy.roundToNearestEven] at h ⊢
  · exact ⟨by omega, by omega⟩
  · exact ⟨by omega, by omega⟩
  · -- in the middle the even one of the two is taken, and both are as close
    rcases Nat.mod_two_eq_zero_or_one q with hbit | hbit
    · rw [hbit, Nat.add_zero]
      exact ⟨by omega, by omega⟩
    · rw [hbit]
      exact ⟨by omega, by omega⟩
  · exact ⟨by omega, by omega⟩

/-- What is at least a multiple is rounded to that at least. -/
theorem Near.le_of_mul_le (h : Near m d r) (hd : 0 < d) (hm : n * d ≤ m) : n ≤ r := by
  by_contra hlt
  have hmul : (r + 1) * d ≤ n * d := Nat.mul_le_mul_right d (by omega)
  have hbelow := h.below
  rw [Nat.succ_mul] at hmul
  omega

/-- What is at most a multiple is rounded to that at most. -/
theorem Near.le_of_le_mul (h : Near m d r) (hd : 0 < d) (hm : m ≤ n * d) : r ≤ n := by
  by_contra hlt
  have hmul : (n + 1) * d ≤ r * d := Nat.mul_le_mul_right d (by omega)
  have habove := h.above
  rw [Nat.succ_mul] at hmul
  omega

/-- What has 53 bits in front of those that are rounded off has them afterwards, or becomes the next
power of two. -/
theorem Near.bits {k : Nat} (h : Near m (2 ^ k) r) (hlow : 2 ^ (52 + k) ≤ m)
    (hhigh : m ≤ 2 ^ (53 + k)) : 2 ^ 52 ≤ r ∧ r ≤ 2 ^ 53 := by
  have hpos := Nat.two_pow_pos k
  rw [pow_add] at hlow hhigh
  exact ⟨h.le_of_mul_le hpos hlow, h.le_of_le_mul hpos hhigh⟩

/-- Dropping the last bit of 54 changes nothing, since there is one only in a power of two. -/
theorem exists_carry (hlow : 2 ^ 52 ≤ r) (hhigh : r ≤ 2 ^ 53) :
    ∃ q, (ExtendedMantissa.ofMantissaAndAccuracy r .exact >>> (r.log2 - 52)).mantissa = q ∧
      q.log2 = 52 ∧ r = q * 2 ^ (r.log2 - 52) ∧
      (r.log2 - 52 = 0 ∨ r.log2 - 52 = 1 ∧ r = 2 ^ 53) := by
  by_cases hfits : r < 2 ^ 53
  · have hlog : r.log2 = 52 := (Nat.log2_eq_iff (by omega)).2 ⟨hlow, hfits⟩
    rw [hlog]
    exact ⟨r, rfl, hlog, (Nat.mul_one r).symm, .inl rfl⟩
  · obtain rfl : r = 2 ^ 53 := by omega
    exact ⟨2 ^ 52, by decide +kernel⟩

theorem shiftToTargetExponent_eq (hm : 52 ≤ m.log2) (he : -1074 ≤ e) :
    shiftToTargetExponent Format.binary64 m e .exact =
      (ExtendedMantissa.ofMantissaAndAccuracy m .exact >>> (m.log2 - 52),
        e + (m.log2 - 52 : Nat)) := by
  have hshift : (Format.binary64.targetExponent (totalExponent m e) - e).toNat = m.log2 - 52 := by
    have hleast : Format.binary64.minExponent = -1074 := rfl
    have hbits : Format.binary64.mantissaBits = 53 := rfl
    rw [Format.targetExponent, totalExponent, hleast, hbits]
    omega
  rw [shiftToTargetExponent, shiftToExponent, hshift]

/-- A number of 53 bits or more is rounded to 53 bits. If that gives one of 54 bits, the last one is
dropped. -/
theorem exists_roundWithAccuracy (hm : 52 ≤ m.log2) (he : -1074 ≤ e) :
    ∃ r c q, ∃ hq : 0 < q,
      roundWithAccuracy Format.binary64 .positive m e .exact =
        .finite .positive q (e + (m.log2 - 52 : Nat) + (c : Nat)) hq ∧
      q.log2 = 52 ∧ r = q * 2 ^ c ∧ Near m (2 ^ (m.log2 - 52)) r ∧
      (c = 0 ∨ c = 1 ∧ r = 2 ^ 53) := by
  have hm0 : m ≠ 0 := by
    rintro rfl
    cases hm
  have hmantissa : (ExtendedMantissa.ofMantissaAndAccuracy m .exact).mantissa = m := rfl
  rcases exists_residue (.ofMantissaAndAccuracy m .exact) rfl (m.log2 - 52) with ⟨rem, hdiv, hrem⟩
  have hnear := hrem.near
  rw [← hdiv, hmantissa] at hnear
  generalize hr :
    (ExtendedMantissa.ofMantissaAndAccuracy m .exact >>> (m.log2 - 52)).roundedMantissa = r at hnear
  -- 53 bits are left, or just one more if all of them were set
  obtain ⟨hlow, hhigh⟩ : 2 ^ 52 ≤ r ∧ r ≤ 2 ^ 53 := by
    apply hnear.bits
    · rw [Nat.add_sub_cancel' hm]
      exact Nat.log2_self_le hm0
    · rw [show 53 + (m.log2 - 52) = m.log2 + 1 by omega]
      exact Nat.lt_log2_self.le
  have hlog : 52 ≤ r.log2 := (Nat.le_log2 (by omega)).2 hlow
  -- a carry is taken up by a second shift, which loses nothing
  rcases exists_carry hlow hhigh with ⟨q, hq, hqlog, hrq, hc⟩
  have hqpos : 0 < q := by
    rcases Nat.eq_zero_or_pos q with rfl | hqpos
    · cases hqlog
    · exact hqpos
  refine ⟨r, r.log2 - 52, q, hqpos, ?_, hqlog, hrq, hnear, hc⟩
  have hsecond := shiftToTargetExponent_eq (e := e + (m.log2 - 52 : Nat)) hlog (by omega)
  simp only [roundWithAccuracy, shiftToTargetExponent_eq hm he, hr, hsecond, hq]
  exact dif_neg hqpos.ne'

/-! ## Packing -/

variable {q : Nat} {hq : 0 < q}

theorem exponentField_eq (x : Binary64) :
    x.exponentField = (@unpackExponent Format.binary64 x.bits.toBitVec).toNat := by
  have hmask : (0x7FF : UInt64).toNat = 2 ^ 11 - 1 := rfl
  rw [exponentField, UInt64.toNat_and, UInt64.toNat_shiftRight, hmask,
    Nat.and_two_pow_sub_one_eq_mod]
  simp [unpackExponent, BitVec.extractLsb_toNat]

/-- A number of 53 bits in range is packed as its exponent and its mantissa. -/
theorem pack_finite (hlog : q.log2 = 52) (hlow : -1074 ≤ e) (hhigh : e ≤ 971) :
    UnpackedFloat.pack Format.binary64 (.finite .positive q e hq) =
      packComponents Format.binary64 .positive (BitVec.ofNat _ (e + 1075).toNat)
        (BitVec.ofNat _ q) := by
  have hbias :
      (e + Format.binary64.exponentBias + Format.binary64.mantissaBitsWithoutImplicit).toNat =
        (e + 1075).toNat := by
    show (e + 1023 + 52).toNat = _
    omega
  have hbits : Format.binary64.mantissaBits = 53 := rfl
  have hfields : 2 ^ Format.binary64.exponentBits = 2048 := rfl
  rw [UnpackedFloat.pack]
  dsimp only
  rw [hbias, if_neg (by omega), if_pos (by omega)]

/-- The exponent field of a finite number is not the greatest. -/
theorem isInfinite_pack (hlog : q.log2 = 52) (hlow : -1074 ≤ e) (hhigh : e ≤ 971) {x : Float}
    (hx : x.toModel = Float.Model.pack (.finite .positive q e hq)) :
    (ofFloat x).isInfinite = false := by
  -- the exponent does not fill its field, which the infinities do
  have hfield : (ofFloat x).exponentField = (e + 1075).toNat := by
    have hbits : (ofFloat x).bits.toBitVec =
        UnpackedFloat.pack Format.binary64 (.finite .positive q e hq) :=
      congrArg (·.toBits.toBitVec) hx
    rw [exponentField_eq, hbits, pack_finite hlog hlow hhigh, unpackExponent_packComponents,
      BitVec.toNat_ofNat]
    exact Nat.mod_eq_of_lt (show (e + 1075).toNat < 2048 by omega)
  rw [isInfinite, hfield, Bool.and_eq_false_iff]
  left
  rw [beq_eq_false_iff_ne]
  omega

theorem toNat_one_append (b : BitVec 52) : (1#1 ++ b).toNat = 2 ^ 52 + b.toNat := by
  rw [BitVec.toNat_append, ← Nat.shiftLeft_add_eq_or_of_lt b.isLt]
  rfl

/-- What has been packed is unpacked as it was. -/
theorem unpack_pack (hlog : q.log2 = 52) (hlow : -1074 ≤ e) (hhigh : e ≤ 971) :
    (Float.Model.pack (.finite .positive q e hq)).unpack = .finite .positive q e hq := by
  have hrange := (Nat.log2_eq_iff hq.ne').1 hlog
  have hfield : (BitVec.ofNat 11 (e + 1075).toNat).toNat = (e + 1075).toNat := by
    rw [BitVec.toNat_ofNat]
    omega
  -- neither the highest exponent nor the lowest, which mean something else
  have hinfinite : BitVec.ofNat 11 (e + 1075).toNat ≠ -1#11 := by
    intro h
    have hall : (-1#11).toNat = 2047 := rfl
    rw [h] at hfield
    omega
  have hsmall : BitVec.ofNat 11 (e + 1075).toNat ≠ 0#11 := by
    intro h
    have hnone : (0#11).toNat = 0 := rfl
    rw [h] at hfield
    omega
  -- the highest bit of a mantissa is not stored, since it is always set
  have hmantissa : (1#1 ++ BitVec.ofNat 52 q).toNat = q := by
    rw [toNat_one_append, BitVec.toNat_ofNat]
    omega
  have hexponent : ((e + 1075).toNat : Int) -
      (Format.binary64.exponentBias + Format.binary64.mantissaBitsWithoutImplicit) = e := by
    show ((e + 1075).toNat : Int) - (1023 + 52) = e
    omega
  show UnpackedFloat.unpack Format.binary64 (UnpackedFloat.pack Format.binary64 _) = _
  rw [pack_finite hlog hlow hhigh, UnpackedFloat.unpack]
  simp only [unpackExponent_packComponents, unpackMantissa_packComponents, hinfinite, hsmall,
    if_false, unpackSign_packComponents, Sign.ofBitVec_toBitVec, hmantissa, hfield, hexponent]

/-! ## Sizes -/

/-- The size of a finite number, as a multiple of `2 ^ -52`. -/
def units (x : Float) : Nat :=
  match x.toModel.unpack with
  | .finite _ q e _ => q * 2 ^ (e + 52).toNat
  | _ => 0

/-- Whether a number is positive and has 53 bits, none of them worth less than `2 ^ -52`. -/
def isFull (x : Float) : Bool :=
  match x.toModel.unpack with
  | .finite .positive q e _ => q.log2 == 52 && decide (-52 ≤ e)
  | _ => false

/-- A number is full if what it is unpacked to is positive, with 53 bits that are worth enough. -/
theorem isFull_iff {x : Float} :
    isFull x = true ↔ ∃ q e, ∃ hq : 0 < q, x.toModel.unpack = .finite .positive q e hq ∧
      q.log2 = 52 ∧ -52 ≤ e := by
  unfold isFull
  constructor
  · intro h
    split at h
    · next q e hq hx =>
      rw [Bool.and_eq_true, beq_iff_eq, decide_eq_true_eq] at h
      exact ⟨q, e, hq, hx, h⟩
    · cases h
  · rintro ⟨q, e, hq, hx, hlog, he⟩
    rw [hx]
    simp [hlog, he]

/-- The size of a number is its mantissa, shifted to units. -/
theorem units_eq {x : Float} (hx : x.toModel.unpack = .finite .positive q e hq) :
    units x = q * 2 ^ (e + 52).toNat := by
  rw [units, hx]

theorem log2_mul_two_pow (hn : n ≠ 0) (k : Nat) : (n * 2 ^ k).log2 = n.log2 + k := by
  induction k with
  | zero => rw [pow_zero, mul_one, Nat.add_zero]
  | succ k ih =>
    have hne : n * 2 ^ k ≠ 0 := Nat.mul_ne_zero hn (Nat.two_pow_pos k).ne'
    rw [pow_succ', mul_left_comm, Nat.log2_two_mul hne, ih, Nat.add_assoc]

/-- Greater numbers are rounded to greater ones. -/
theorem Near.le_of_lt {m' r' : Nat} (h : Near m d r) (h' : Near m' d r') (hlt : m < m') :
    r ≤ r' := by
  by_contra hgt
  have hmul : (r' + 1) * d ≤ r * d := Nat.mul_le_mul_right d (by omega)
  have habove := h.above
  have hbelow := h'.below
  rw [Nat.succ_mul] at hmul
  omega

/-- Both sides of a quotient can be multiplied. -/
theorem Near.mul (h : Near m d r) (k : Nat) : Near (m * k) (d * k) r := by
  rcases h with ⟨habove, hbelow⟩
  have habove := Nat.mul_le_mul_right k habove
  have hbelow := Nat.mul_le_mul_right k hbelow
  rw [Nat.add_mul, mul_assoc, mul_assoc, mul_assoc] at habove hbelow
  exact ⟨habove, hbelow⟩

/-- A whole number of fewer bits is brought to 53 before it is rounded. -/
theorem ofNat_eq (hn : 0 < n) :
    UnpackedFloat.ofNat Format.binary64 n =
      roundWithAccuracy Format.binary64 .positive (n * 2 ^ (52 - n.log2)) (-(52 - n.log2 : Nat))
        .exact := by
  have hshift : ((0 : Int) - Format.binary64.targetExponent (totalExponent n 0)).toNat =
      52 - n.log2 := by
    have hleast : Format.binary64.minExponent = -1074 := rfl
    have hbits : Format.binary64.mantissaBits = 53 := rfl
    rw [Format.targetExponent, totalExponent, hleast, hbits]
    omega
  have hpositive : compare (n : Int) 0 = .gt := Int.compare_eq_gt.2 (by omega)
  rw [UnpackedFloat.ofNat, UnpackedFloat.ofInt, UnpackedFloat.normalize, hpositive]
  simp only [UnpackedFloat.round, decreaseExponent, Int.toNat_natCast, hshift, Nat.shiftLeft_eq]
  rw [Int.zero_sub]

/-- The greatest bit of a number is worth `2 ^ 52` of the units in which it is rounded. -/
theorem exists_near_units (hn : 0 < n) (hsize : n < UInt64.size) :
    isFull (UInt64.ofNat n).toFloat = true ∧
      ∃ r, units (UInt64.ofNat n).toFloat = r * 2 ^ n.log2 ∧ Near (n * 2 ^ 52) (2 ^ n.log2) r := by
  have hbits : n.log2 < 64 := (Nat.log2_lt hn.ne').2 hsize
  have hlog := log2_mul_two_pow hn.ne' (52 - n.log2)
  rcases exists_roundWithAccuracy (m := n * 2 ^ (52 - n.log2)) (e := -(52 - n.log2 : Nat))
    (by omega) (by omega) with ⟨r, c, q, hq, hround, hqlog, hr, hnear, hc⟩
  -- the exponent has a name, so that it is not computed with
  obtain ⟨f, hf⟩ : ∃ f : Int,
      f = -(52 - n.log2 : Nat) + ((n * 2 ^ (52 - n.log2)).log2 - 52 : Nat) + (c : Nat) := ⟨_, rfl⟩
  rw [← hf] at hround
  -- a number of 64 bits becomes what rounding makes of it
  have hmodel : (UInt64.ofNat n).toFloat.toModel =
      Float.Model.pack (.finite .positive q f hq) := by
    show Float.Model.pack (UnpackedFloat.ofNat Format.binary64 (UInt64.ofNat n).toNat) = _
    rw [UInt64.toNat_ofNat_of_lt' hsize, ofNat_eq hn, hround]
  have hunpack : (Float.Model.pack (.finite .positive q f hq)).unpack = .finite .positive q f hq :=
    unpack_pack hqlog (by omega) (by omega)
  rw [← hmodel] at hunpack
  refine ⟨isFull_iff.2 ⟨q, f, hq, hunpack, hqlog, by omega⟩, r, ?_, ?_⟩
  · rw [units_eq hunpack, hr, mul_assoc, ← pow_add]
    congr 2
    omega
  · -- rounding a number that has been shifted up is rounding the number
    have hscaled := hnear.mul (2 ^ min n.log2 52)
    rw [mul_assoc, ← pow_add, ← pow_add, hlog] at hscaled
    rwa [show 52 - n.log2 + min n.log2 52 = 52 by omega,
      show n.log2 + (52 - n.log2) - 52 + min n.log2 52 = n.log2 by omega] at hscaled

/-- What a number is rounded to has 53 bits, or is the next power of two. -/
theorem bits_of_near_units (hn : 0 < n) (h : Near (n * 2 ^ 52) (2 ^ n.log2) r) :
    2 ^ 52 ≤ r ∧ r ≤ 2 ^ 53 := by
  apply h.bits
  · rw [pow_add, Nat.mul_comm]
    exact Nat.mul_le_mul_right _ (Nat.log2_self_le hn.ne')
  · have hbits := Nat.mul_le_mul_right (2 ^ 52) (Nat.lt_log2_self (n := n)).le
    rwa [← pow_add, show n.log2 + 1 + 52 = 53 + n.log2 by omega] at hbits

/-- Rounding keeps the order. -/
theorem units_le_units (hn : 0 < n) (hle : n ≤ m) (hsize : m < UInt64.size) :
    units (UInt64.ofNat n).toFloat ≤ units (UInt64.ofNat m).toFloat := by
  rcases hle.eq_or_lt with rfl | hless
  · exact le_rfl
  have hm : 0 < m := by omega
  rcases (exists_near_units hn (by omega)).2 with ⟨r, hr, hnear⟩
  rcases (exists_near_units hm hsize).2 with ⟨r', hr', hnear'⟩
  have hlogs : n.log2 ≤ m.log2 := by
    rw [Nat.le_log2 hm.ne']
    exact (Nat.log2_self_le hn.ne').trans hle
  rw [hr, hr']
  -- with as many bits both are rounded in the same units
  rcases hlogs.lt_or_eq with hlt | heq
  · -- a power of two stands between them
    have hhigh : r ≤ 2 ^ 53 := (bits_of_near_units hn hnear).2
    have hlow : 2 ^ 52 ≤ r' := (bits_of_near_units hm hnear').1
    calc
      r * 2 ^ n.log2 ≤ 2 ^ 53 * 2 ^ n.log2 := Nat.mul_le_mul_right _ hhigh
      _ = 2 ^ 52 * 2 ^ (n.log2 + 1) := by ring
      _ ≤ 2 ^ 52 * 2 ^ m.log2 := Nat.mul_le_mul_left _ (Nat.pow_le_pow_right (by decide) hlt)
      _ ≤ r' * 2 ^ m.log2 := Nat.mul_le_mul_right _ hlow
  · rw [← heq] at hnear' ⊢
    exact Nat.mul_le_mul_right _ (hnear.le_of_lt hnear' (by omega))

/-- The exponent of what is rounded to 53 bits is not too large below the largest number and half a
unit of that more. -/
theorem Near.exponent_le {c : Nat} (h : Near m (2 ^ (m.log2 - 52)) r) (hlog : 104 ≤ m.log2)
    (he : -104 ≤ e) (hc : c = 0 ∨ c = 1 ∧ r = 2 ^ 53)
    (hless : m * 2 ^ (e + 104).toNat < (2 ^ 54 - 1) * 2 ^ 1074) :
    e + (m.log2 - 52 : Nat) + (c : Nat) ≤ 971 := by
  have hm : m ≠ 0 := by
    rintro rfl
    cases hlog
  -- the exponent has a name, so that nothing tries to compute the power
  obtain ⟨k, hk⟩ : ∃ k, k = 1074 := ⟨_, rfl⟩
  rw [← hk] at hless
  have htop : m.log2 + (e + 104).toNat < 54 + k := by
    rw [← Nat.pow_lt_pow_iff_right (by decide : 1 < 2), pow_add, pow_add]
    calc
      2 ^ m.log2 * 2 ^ (e + 104).toNat ≤ m * 2 ^ (e + 104).toNat :=
        Nat.mul_le_mul_right _ (Nat.log2_self_le hm)
      _ < (2 ^ 54 - 1) * 2 ^ k := hless
      _ ≤ 2 ^ 54 * 2 ^ k := Nat.mul_le_mul_right _ (by decide)
  rcases hc with rfl | ⟨rfl, rfl⟩
  · omega
  · -- what is rounded up to a power of two there is not less than the bound
    by_contra hlarge
    have hcarry := (h.mul (2 ^ (e + 104).toNat)).above
    rw [← pow_add, show m.log2 - 52 + (e + 104).toNat = k + 1 by omega, pow_succ 2 k] at hcarry
    generalize 2 ^ k = d at hcarry hless
    omega

/-- A product is finite if it is less than the largest number and half a unit of that more. -/
theorem isInfinite_mul {x y : Float} (hx : isFull x = true) (hy : isFull y = true)
    (hless : units x * units y < (2 ^ 54 - 1) * 2 ^ 1074) :
    (ofFloat (x * y)).isInfinite = false := by
  rcases isFull_iff.1 hx with ⟨q, e, hq, hxu, hqlog, he⟩
  rcases isFull_iff.1 hy with ⟨p, f, hp, hyu, hplog, hf⟩
  have hqp : q * p ≠ 0 := (Nat.mul_pos hq hp).ne'
  have hproduct : (x * y).toModel = Float.Model.pack
      (roundWithAccuracy Format.binary64 .positive (q * p) (e + f) .exact) := by
    show Float.Model.pack (mul Format.binary64 x.toModel.unpack y.toModel.unpack) = _
    rw [hxu, hyu]
    rfl
  -- a product of two numbers of 53 bits has 105 bits or more
  have hlog : 104 ≤ (q * p).log2 := by
    rw [Nat.le_log2 hqp, show 104 = 52 + 52 from rfl, pow_add]
    exact Nat.mul_le_mul ((Nat.le_log2 hq.ne').1 hqlog.ge) ((Nat.le_log2 hp.ne').1 hplog.ge)
  rcases exists_roundWithAccuracy (m := q * p) (e := e + f) (by omega) (by omega) with
    ⟨r, c, t, ht, hround, htlog, hr, hnear, hc⟩
  -- the product of the sizes has twice as many places behind the point
  have hunits : units x * units y = q * p * 2 ^ (e + f + 104).toNat := by
    rw [units_eq hxu, units_eq hyu, mul_mul_mul_comm, ← pow_add]
    congr 2
    omega
  rw [hunits] at hless
  have hbound := hnear.exponent_le hlog (by omega) hc hless
  rw [hround] at hproduct
  exact isInfinite_pack htlog (by omega) hbound hproduct

theorem isInfinite_zero_mul {y : Float} (hy : isFull y = true) :
    (ofFloat ((UInt64.ofNat 0).toFloat * y)).isInfinite = false := by
  rcases isFull_iff.1 hy with ⟨p, f, hp, hyu, -⟩
  have hproduct : ((UInt64.ofNat 0).toFloat * y).toModel = Float.Model.pack (.zero .positive) := by
    show Float.Model.pack (mul Format.binary64 (UInt64.ofNat 0).toFloat.toModel.unpack
      y.toModel.unpack) = _
    have hzero : (UInt64.ofNat 0).toFloat.toModel.unpack = .zero .positive := rfl
    rw [hyu, hzero]
    rfl
  have hbits : ofFloat ((UInt64.ofNat 0).toFloat * y) = ⟨0⟩ :=
    congrArg (fun x : Float.Model => Binary64.mk x.toBits) hproduct
  rw [hbits]
  decide

end Binary64

namespace Json

open Binary64

/-! ## Numbers in range -/

/-- The least size of a number that can be refused for it, though there are greater ones that are
not. It is below the largest binary number. -/
def leastRefused : Nat := 17976931348623156225 * 10 ^ 289

/-- The greatest digits for which a number with the given power of ten is smaller. -/
def mostDigits (e : Nat) : Nat := min (UInt64.size - 1) ((leastRefused - 1) / 10 ^ e)

theorem le_mostDigits {n e : Nat} (hn : n < UInt64.size) (hless : n * 10 ^ e < leastRefused) :
    n ≤ mostDigits e :=
  le_min (Nat.le_sub_one_of_lt hn)
    ((Nat.le_div_iff_mul_le (Nat.pow_pos (by decide))).2 (Nat.le_sub_one_of_lt hless))

theorem mostDigits_lt (e : Nat) : mostDigits e < UInt64.size :=
  lt_of_le_of_lt (min_le_left _ _) (by decide)

/-- The one comparison for each power of ten. -/
theorem units_mostDigits_mul_tenTo : ∀ e : Fin 309, isFull (tenTo e) = true ∧
    units (UInt64.ofNat (mostDigits e)).toFloat * units (tenTo e) < (2 ^ 54 - 1) * 2 ^ 1074 := by
  decide +kernel

theorem isInfinite_toFloat_mul {n e : Nat} (hn : n < UInt64.size) (he : e < 309)
    (hless : n * 10 ^ e < leastRefused) :
    (Binary64.ofFloat ((UInt64.ofNat n).toFloat * tenTo e)).isInfinite = false := by
  rcases units_mostDigits_mul_tenTo ⟨e, he⟩ with ⟨hten, hunits⟩
  rcases Nat.eq_zero_or_pos n with rfl | hpos
  · exact isInfinite_zero_mul hten
  · have hle := units_le_units hpos (le_mostDigits hn hless) (mostDigits_lt e)
    exact isInfinite_mul (exists_near_units hpos hn).1 hten
      (lt_of_le_of_lt (Nat.mul_le_mul_right _ hle) hunits)

theorem isSome_scale? {n : Nat} {e : Int} (hn : n < UInt64.size)
    (hless : 0 ≤ e → n * 10 ^ e.toNat < leastRefused) : (scale? n e).isSome = true := by
  unfold scale?
  by_cases hneg : e < 0
  · rw [if_pos hneg]
    rfl
  rw [if_neg hneg]
  have hless := hless (by omega)
  by_cases hlarge : 308 < e
  · -- a power of ten that is out of range is no matter for zero, and nothing else is that small
    have hzero : n = 0 := by
      by_contra hpos
      obtain ⟨k, hk, hbound⟩ : ∃ k, k = 309 ∧ leastRefused < 10 ^ k :=
        ⟨309, rfl, by decide +kernel⟩
      have hpower : 10 ^ k ≤ 10 ^ e.toNat := Nat.pow_le_pow_right (by decide) (by omega)
      have hdigits : 10 ^ e.toNat ≤ n * 10 ^ e.toNat := Nat.le_mul_of_pos_left _ (by omega)
      omega
    rw [if_pos hlarge, if_pos hzero]
    rfl
  · rw [if_neg hlarge]
    have hfinite := isInfinite_toFloat_mul hn (e := e.toNat) (by omega) hless
    rw [show e.natAbs = e.toNat by omega]
    simp [hfinite]

end Json

end TraceLoad
