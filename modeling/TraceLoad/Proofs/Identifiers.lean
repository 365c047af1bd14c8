import TraceLoad.Proofs.HeaderFaults

/-! # Identifiers and their digits

An identifier has one text in small digits, and is read from that text and from those that differ
from it in the case of letters only (`ofHex_eq_ok_iff`). Any other text is refused, for its length
in bytes if that is not right and otherwise for a character that is no digit.
-/

namespace TraceLoad

namespace Hex

/-- A hexadecimal digit that is no capital letter. -/
def IsLowerDigit (c : Char) : Prop := ('0' ≤ c ∧ c ≤ '9') ∨ ('a' ≤ c ∧ c ≤ 'f')

instance (c : Char) : Decidable (IsLowerDigit c) := inferInstanceAs (Decidable (_ ∨ _))

/-- So many of these digits and nothing else. -/
def AreLowerDigits (n : Nat) (cs : List Char) : Prop := cs.length = n ∧ ∀ c ∈ cs, IsLowerDigit c

theorem isLowerDigit_digit {n : Nat} (h : n < 16) : IsLowerDigit (digit n) := by
  have hall : ∀ m : Fin 16, IsLowerDigit (digit m.val) := by decide
  exact hall ⟨n, h⟩

/-- Bytes are written in lower case, two digits for each. -/
theorem areLowerDigits_encode (bytes : List UInt8) :
    AreLowerDigits (2 * bytes.length) (encode bytes) := by
  refine ⟨length_encode bytes, ?_⟩
  intro c hc
  rcases List.mem_flatMap.1 hc with ⟨b, -, hb⟩
  have hlt : b.toNat < 256 := b.toNat_lt
  simp only [ofByte, List.mem_cons, List.not_mem_nil, or_false] at hb
  rcases hb with rfl | rfl
  · exact isLowerDigit_digit (by omega)
  · exact isLowerDigit_digit (by omega)

end Hex

variable {n : Nat} {field : List Char} {s : String} {f : ContextError}

/-- The length is to blame for any text of another length. -/
theorem badDigits_invalidLength_iff :
    BadDigits n field .invalidLength ↔ (String.ofList field).utf8ByteSize ≠ n := by
  constructor
  · intro h
    cases h with
    | length size => exact size
  · exact .length

/-- The digits are to blame for a text of the right length that is not digits throughout. -/
theorem badDigits_invalidHex_iff :
    BadDigits n field .invalidHex ↔
      (String.ofList field).utf8ByteSize = n ∧ ¬ Hex.AreDigits n field := by
  constructor
  · intro h
    cases h with
    | digit size mem odd => exact ⟨size, fun hdigits => odd (hdigits.2 _ mem)⟩
  · rintro ⟨hsize, hdigits⟩
    rcases areDigits_or_bad n field with h | ⟨f, hbad⟩
    · exact absurd h hdigits
    · cases hbad with
      | length size => exact absurd hsize size
      | digit size mem odd => exact .digit size mem odd

namespace Ident

/-- Different identifiers are written differently. -/
theorem toHex_inj {i j : Ident n} : i.toHex = j.toHex ↔ i = j := by
  constructor
  · intro h
    -- both are what the one text is read as
    have hread := i.ofHex_toHex
    rw [h, j.ofHex_toHex] at hread
    exact (Except.ok.inj hread).symm
  · exact congrArg toHex

theorem exists_ofHex_toList_iff :
    (∃ i : Ident n, ofHex s = .ok i) ↔ Hex.AreDigits (2 * n) s.toList := by
  rw [← exists_ofHex_iff, String.ofList_toList]

/-- An identifier is read from the texts that are its own one in lower case. -/
theorem ofHex_eq_ok_iff {i : Ident n} :
    ofHex s = .ok i ↔ Hex.AreDigits (2 * n) s.toList ∧ i.toHex = s.toLower := by
  have hlower : ∀ {j : Ident n}, ofHex s = .ok j → j.toHex = s.toLower := by
    intro j hj
    rw [← String.ofList_toList (s := s)] at hj
    rw [toHex_of_ofHex hj, ← TraceContext.toList_toLower, String.ofList_toList]
  constructor
  · intro hi
    exact ⟨exists_ofHex_toList_iff.1 ⟨i, hi⟩, hlower hi⟩
  · rintro ⟨hdigits, hi⟩
    rcases exists_ofHex_toList_iff.2 hdigits with ⟨j, hj⟩
    have hsame : j = i := toHex_inj.1 ((hlower hj).trans hi.symm)
    rw [hj, hsame]

theorem ofHex_eq_error_iff :
    (ofHex s : Except ContextError (Ident n)) = .error f ↔ BadDigits (2 * n) s.toList f := by
  have hbad : ∀ {g}, BadDigits (2 * n) s.toList g →
      (ofHex s : Except ContextError (Ident n)) = .error g := by
    intro g hg
    have herror := hg.ofHex_eq (n := n)
    rwa [String.ofList_toList] at herror
  constructor
  · intro herror
    -- with digits throughout there would be an identifier and no error
    rcases areDigits_or_bad (2 * n) s.toList with hdigits | ⟨g, hg⟩
    · rcases exists_ofHex_toList_iff.2 hdigits with ⟨i, hi⟩
      rw [herror] at hi
      cases hi
    · rw [hbad hg] at herror
      cases herror
      exact hg
  · exact hbad

/-- An identifier of `n` bytes is read from `2 * n` digits of either case and from nothing else. A
text of another length in bytes is refused for that, and any other text for its characters. What
was read is written as the text in lower case; and an identifier is read back from what it is
written as, which is small digits in their fixed number, other ones for every identifier. -/
theorem hex_is_canonical (n : Nat) :
    (∀ s : String,
      ((∃ i : Ident n, ofHex s = .ok i) ↔ Hex.AreDigits (2 * n) s.toList) ∧
      ((ofHex s : Except ContextError (Ident n)) = .error .invalidLength ↔
        s.utf8ByteSize ≠ 2 * n) ∧
      ((ofHex s : Except ContextError (Ident n)) = .error .invalidHex ↔
        s.utf8ByteSize = 2 * n ∧ ¬ Hex.AreDigits (2 * n) s.toList) ∧
      ∀ i : Ident n, ofHex s = .ok i ↔ Hex.AreDigits (2 * n) s.toList ∧ i.toHex = s.toLower) ∧
    ∀ i : Ident n, ofHex i.toHex = .ok i ∧ Hex.AreLowerDigits (2 * n) i.toHex.toList ∧
      ∀ j : Ident n, i.toHex = j.toHex ↔ i = j := by
  constructor
  · intro s
    have hlength := (ofHex_eq_error_iff (n := n) (s := s)).trans badDigits_invalidLength_iff
    have hdigit := (ofHex_eq_error_iff (n := n) (s := s)).trans badDigits_invalidHex_iff
    rw [String.ofList_toList] at hlength hdigit
    exact ⟨exists_ofHex_toList_iff, hlength, hdigit, fun _ => ofHex_eq_ok_iff⟩
  · intro i
    have hwritten : Hex.AreLowerDigits (2 * n) i.toHex.toList := by
      -- an identifier of n bytes is written in twice as many digits
      have hencoded := Hex.areLowerDigits_encode i.bytes
      rwa [i.length_bytes, ← String.toList_ofList (l := Hex.encode i.bytes)] at hencoded
    exact ⟨i.ofHex_toHex, hwritten, fun _ => toHex_inj⟩

end Ident

/-- Capital letters can be read, and the letter behind F cannot. -/
example : (Ident.ofHex "B7AD6B7169203331" : Except ContextError SpanId) =
      .ok ⟨[0xB7, 0xAD, 0x6B, 0x71, 0x69, 0x20, 0x33, 0x31], rfl⟩ ∧
    (Ident.ofHex "B7AD6B716920333G" : Except ContextError SpanId) = .error .invalidHex :=
  ⟨by rfl, by rfl⟩

end TraceLoad
