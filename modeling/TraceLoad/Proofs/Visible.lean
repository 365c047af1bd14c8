import TraceLoad.Proofs.Tokens

/-! # Written values without control characters

Whatever is written, no byte of it is a control character; the end of a line is one of these, so a
written value stays on its line. Real numbers are written in digits, points and exponents only.
-/

namespace TraceLoad.Json

variable {b : UInt8}

/-- Without control characters, the end of a line among them. -/
def Visible (bytes : List UInt8) : Prop := ∀ b ∈ bytes, 0x20 ≤ b

instance (bytes : List UInt8) : Decidable (Visible bytes) := List.decidableBAll (0x20 ≤ ·) bytes

theorem Visible.append {xs ys : List UInt8} (hx : Visible xs) (hy : Visible ys) :
    Visible (xs ++ ys) := List.forall_mem_append.2 ⟨hx, hy⟩

theorem Visible.cons {bytes : List UInt8} (hb : 0x20 ≤ b) (h : Visible bytes) :
    Visible (b :: bytes) := List.forall_mem_cons.2 ⟨hb, h⟩

theorem visible_null : Visible (ascii "null") := by decide

/-! ## Texts and whole numbers -/

/-- An escape has no control characters in it. -/
theorem visible_escapeByte (b : UInt8) : Visible (escapeByte b) := by
  have hall : ∀ n : Fin 256, Visible (escapeByte (UInt8.ofNat n)) := by decide +kernel
  have hb := hall ⟨b.toNat, b.toNat_lt⟩
  rwa [UInt8.ofNat_toNat] at hb

theorem visible_writeText (s : String) : Visible (writeText s) := by
  refine .cons (by decide) (.append ?_ (.cons (by decide) nofun))
  intro c hc
  obtain ⟨b, -, hc⟩ := List.mem_flatMap.1 hc
  exact visible_escapeByte b c hc

/-- Digits have no control characters in them. -/
theorem visible_writeNat (n : Nat) : Visible (writeNat n) := by
  intro b hb
  obtain ⟨c, hc, rfl⟩ := List.mem_map.1 hb
  have hdigit : c.isDigit = true := Nat.isDigit_of_mem_toDigits (by decide) (by decide) hc
  have hrange := range_of_isDigit hdigit
  rw [UInt8.le_iff_toNat_le, toNat_ofNat_of_isDigit hdigit]
  exact Nat.le_trans (by decide) hrange.1

/-- An integer has no control characters in it. -/
theorem visible_writeInt (n : Int) : Visible (writeInt n) := by
  unfold writeInt
  split
  · exact .cons (by decide) (visible_writeNat _)
  · exact visible_writeNat _

/-! ## Real numbers -/

/-- Characters of one byte each that are no control characters. -/
def IsPlain (cs : List Char) : Prop := ∀ c ∈ cs, 0x20 ≤ c.toNat ∧ c.toNat < 0x80

theorem IsPlain.append {xs ys : List Char} (hx : IsPlain xs) (hy : IsPlain ys) :
    IsPlain (xs ++ ys) := List.forall_mem_append.2 ⟨hx, hy⟩

theorem IsPlain.cons {c : Char} {cs : List Char} (hc : 0x20 ≤ c.toNat ∧ c.toNat < 0x80)
    (h : IsPlain cs) : IsPlain (c :: cs) := List.forall_mem_cons.2 ⟨hc, h⟩

/-- Digits are plain. -/
theorem isPlain_toDigits (n : Nat) : IsPlain (Nat.toDigits 10 n) := by
  intro c hc
  have hrange := range_of_isDigit (Nat.isDigit_of_mem_toDigits (by decide) (by decide) hc)
  omega

/-- Zeros that fill up places are plain. -/
theorem isPlain_zeros (n : Nat) : IsPlain (List.replicate n '0') := by
  intro c hc
  obtain rfl := List.eq_of_mem_replicate hc
  decide

/-- Digits with a point among them are plain. -/
theorem IsPlain.positional {digits : List Char} (h : IsPlain digits) (point : Int) :
    IsPlain (Decimal.positional digits point) := by
  unfold Decimal.positional
  split
  · exact .cons (by decide) (.cons (by decide) ((isPlain_zeros _).append h))
  · have htake : IsPlain (digits.take point.toNat) := fun c hc => h c (List.mem_of_mem_take hc)
    refine (htake.append (isPlain_zeros _)).append (.cons (by decide) ?_)
    split
    · exact isPlain_zeros 1
    · exact fun c hc => h c (List.mem_of_mem_drop hc)

/-- Digits with an exponent are plain. -/
theorem IsPlain.scientific {digits : List Char} (h : IsPlain digits) (plusSign : Bool) (e : Int) :
    IsPlain (Decimal.scientific plusSign digits e) := by
  have hexponent : IsPlain (Nat.toDigits 10 e.natAbs) := isPlain_toDigits _
  refine .append ?mantissa (.cons (by decide) (.append ?sign hexponent))
  case mantissa =>
    split
    · nofun
    · exact h
    · next d rest _ =>
      -- behind the first digit there is a point
      obtain ⟨hd, hrest⟩ := List.forall_mem_cons.1 h
      exact .cons hd (.cons (by decide) hrest)
  case sign =>
    split
    · exact .cons (by decide) nofun
    · split
      · exact .cons (by decide) nofun
      · nofun

theorem isPlain_writeBinary (l : Decimal.Layout) (x : Binary64) : IsPlain (l.writeBinary x) := by
  -- either layout of the digits is plain, and the sign before it as well
  have hwrite : ∀ d, IsPlain (l.write d) := by
    intro d
    unfold Decimal.Layout.write
    dsimp only
    split
    · exact .cons (by decide) (.cons (by decide) (.cons (by decide) nofun))
    · split
      · exact (isPlain_toDigits _).positional _
      · exact (isPlain_toDigits _).scientific _ _
  unfold Decimal.Layout.writeBinary
  dsimp only
  split
  · exact .cons (by decide) (hwrite _)
  · exact hwrite _

/-- A real number has no control characters in it. -/
theorem visible_writeReal (x : Binary64) : Visible (writeReal x) := by
  unfold writeReal
  split
  · intro b hb
    obtain ⟨c, hc, rfl⟩ := List.mem_map.1 hb
    obtain ⟨hlow, hhigh⟩ := isPlain_writeBinary _ x c hc
    rw [UInt8.le_iff_toNat_le, UInt8.toNat_ofNat']
    show 0x20 ≤ c.toNat % 256
    omega
  · exact visible_null

/-! ## Records -/

/-- Items have no control characters between them. -/
theorem visible_joinItems {items : List (List UInt8)} (h : ∀ item ∈ items, Visible item) :
    Visible (joinItems items) := by
  induction items with
  | nil => nofun
  | cons item items ih =>
    have hitem := h item List.mem_cons_self
    have hitems := ih fun x hx => h x (List.mem_cons_of_mem _ hx)
    cases items with
    | nil => exact hitem
    | cons next items => exact hitem.append (.cons (by decide) hitems)

/-- A record has no control characters but those of its values. -/
theorem visible_writeRecord {fs : List (String × List UInt8)} (h : ∀ f ∈ fs, Visible f.2) :
    Visible (writeRecord fs) := by
  have hclose : Visible [closeRecord] := by decide
  refine .cons (by decide) (.append (visible_joinItems fun item hitem => ?_) hclose)
  obtain ⟨f, hf, rfl⟩ := List.mem_map.1 hitem
  exact (visible_writeText f.1).append (.cons (by decide) (h f hf))

end TraceLoad.Json
