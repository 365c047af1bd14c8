import TraceLoad.TraceContext

/-! # Headers that were written can be read

A context that is written to a header and read again is the same but for its parent, whatever its
identifiers and flags are (`ofTraceparent_toTraceparent`). The fields are made of hexadecimal
digits, so that none of them holds a dash, and each takes as many bytes as it has digits.
-/

namespace TraceLoad

theorem utf8ByteSize_ofList_cons (c : Char) (cs : List Char) :
    (String.ofList (c :: cs)).utf8ByteSize = c.utf8Size + (String.ofList cs).utf8ByteSize := by
  simp [String.utf8ByteSize_singleton]

/-- Where every character takes one byte, bytes and characters are counted alike. -/
theorem utf8ByteSize_ofList {cs : List Char} (h : ∀ c ∈ cs, c.utf8Size = 1) :
    (String.ofList cs).utf8ByteSize = cs.length := by
  induction cs with
  | nil => rfl
  | cons c cs ih =>
    rw [utf8ByteSize_ofList_cons, h c List.mem_cons_self,
      ih fun d hd => h d (List.mem_cons_of_mem _ hd), List.length_cons, Nat.add_comm]

namespace Hex

variable {c : Char} {bytes : List UInt8}

/-- A digit stands in one of three ranges of characters. -/
theorem range_of_value? (h : (value? c).isSome) :
    ('0' ≤ c ∧ c ≤ '9') ∨ ('a' ≤ c ∧ c ≤ 'f') ∨ ('A' ≤ c ∧ c ≤ 'F') := by
  unfold value? at h
  split at h
  · exact Or.inl ‹_›
  · split at h
    · exact Or.inr (Or.inl ‹_›)
    · split at h
      · exact Or.inr (Or.inr ‹_›)
      · simp at h

/-- Digits take one byte each. -/
theorem utf8Size_of_value? (h : (value? c).isSome) : c.utf8Size = 1 := by
  rw [Char.utf8Size_eq_one_iff]
  have hle : ∀ d : Char, c ≤ d → c.val ≤ d.val := fun d hd => hd
  rcases range_of_value? h with ⟨_, hc⟩ | ⟨_, hc⟩ | ⟨_, hc⟩
  · exact UInt32.le_trans (hle _ hc) (by decide)
  · exact UInt32.le_trans (hle _ hc) (by decide)
  · exact UInt32.le_trans (hle _ hc) (by decide)

theorem ne_of_value? {d : Char} (h : (value? c).isSome) (hd : value? d = none) : c ≠ d := by
  rintro rfl
  simp [hd] at h

/-- A byte is written in digits. -/
theorem isSome_value?_of_mem_ofByte {b : UInt8} (h : c ∈ ofByte b) : (value? c).isSome := by
  have hb : b.toNat < 256 := b.toNat_lt
  simp only [ofByte, List.mem_cons, List.not_mem_nil, or_false] at h
  rcases h with rfl | rfl
  · rw [value?_digit (by omega)]
    rfl
  · rw [value?_digit (by omega)]
    rfl

theorem isSome_value?_of_mem_encode (h : c ∈ encode bytes) : (value? c).isSome := by
  obtain ⟨b, _, hb⟩ := List.mem_flatMap.1 h
  exact isSome_value?_of_mem_ofByte hb

theorem dash_not_mem_encode : '-' ∉ encode bytes := fun h =>
  ne_of_value? (isSome_value?_of_mem_encode h) (by decide) rfl

theorem dash_not_mem_ofByte {b : UInt8} : '-' ∉ ofByte b := fun h =>
  ne_of_value? (isSome_value?_of_mem_ofByte h) (by decide) rfl

end Hex

/-- Reading gives back the identifier that was written. -/
theorem Ident.ofHex_toHex {n : Nat} (i : Ident n) : ofHex i.toHex = .ok i := by
  have hsize : i.toHex.utf8ByteSize = 2 * n := by
    rw [toHex, utf8ByteSize_ofList fun c hc =>
        Hex.utf8Size_of_value? (Hex.isSome_value?_of_mem_encode hc),
      Hex.length_encode, i.length_bytes]
  have hdecode : Hex.decode i.toHex.toList = some i.bytes := by
    rw [toHex, String.toList_ofList, Hex.decode_encode]
  unfold ofHex
  rw [if_neg (not_not_intro hsize), hdecode]
  simp [i.length_bytes]

namespace TraceContext

variable {xs ys : List Char}

/-- A text without dashes is one piece. -/
theorem pieces_of_not_mem (h : '-' ∉ xs) : pieces xs = [xs] := by
  induction xs with
  | nil => rfl
  | cons c xs ih =>
    obtain ⟨hc, hxs⟩ := not_or.1 (mt List.mem_cons.2 h)
    simp [pieces, Ne.symm hc, ih hxs]

/-- A dash ends the first piece. -/
theorem pieces_append_dash (h : '-' ∉ xs) : pieces (xs ++ '-' :: ys) = xs :: pieces ys := by
  induction xs with
  | nil => rfl
  | cons c xs ih =>
    obtain ⟨hc, hxs⟩ := not_or.1 (mt List.mem_cons.2 h)
    simp [pieces, Ne.symm hc, ih hxs]

/-- The four fields of a header, in their order. -/
theorem toList_toTraceparent (c : TraceContext) : c.toTraceparent.toList =
    ['0', '0'] ++ '-' :: (Hex.encode c.traceId.bytes ++ '-' ::
      (Hex.encode c.spanId.bytes ++ '-' :: Hex.ofByte c.flags)) := by
  simp [toTraceparent, Ident.toHex]

/-- The flags are read back from their two digits; a plus sign is not among them. -/
theorem readFlags_ofByte (b : UInt8) : readFlags (Hex.ofByte b) = .ok b := by
  have hb : b.toNat < 256 := b.toNat_lt
  have hsize : (String.ofList (Hex.ofByte b)).utf8ByteSize = 2 :=
    utf8ByteSize_ofList fun c hc => Hex.utf8Size_of_value? (Hex.isSome_value?_of_mem_ofByte hc)
  -- a sign would be read as one, but a digit is none
  have hplus : Hex.digit (b.toNat / 16) ≠ '+' :=
    Hex.ne_of_value? (Hex.isSome_value?_of_mem_ofByte List.mem_cons_self) (by decide)
  have hflags : flags? (Hex.ofByte b) = some b := by
    have hwhole : 16 * (b.toNat / 16) + b.toNat % 16 = b.toNat := Nat.div_add_mod _ _
    rw [Hex.ofByte, flags?]
    · rw [Hex.value?_digit (by omega), Hex.value?_digit (by omega)]
      have hback : UInt8.ofNat (16 * (b.toNat / 16) + b.toNat % 16) = b := by
        rw [hwhole, UInt8.ofNat_toNat]
      exact congrArg some hback
    · exact hplus
  unfold readFlags
  rw [if_neg (not_not_intro hsize), hflags]

theorem ofTraceparent_toTraceparent (c : TraceContext) :
    ofTraceparent c.toTraceparent = .ok c.orphan := by
  have hpieces : pieces c.toTraceparent.toList =
      [['0', '0'], Hex.encode c.traceId.bytes, Hex.encode c.spanId.bytes, Hex.ofByte c.flags] := by
    rw [toList_toTraceparent, pieces_append_dash (by decide),
      pieces_append_dash Hex.dash_not_mem_encode, pieces_append_dash Hex.dash_not_mem_encode,
      pieces_of_not_mem Hex.dash_not_mem_ofByte]
  have htrace := c.traceId.ofHex_toHex
  have hspan := c.spanId.ofHex_toHex
  rw [Ident.toHex] at htrace hspan
  simp only [ofTraceparent, hpieces, htrace, hspan, readFlags_ofByte]
  rfl

end TraceContext

end TraceLoad
