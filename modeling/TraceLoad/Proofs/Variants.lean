import TraceLoad.Proofs.KeptValues
import TraceLoad.Proofs.Readback

/-! # Which variant a value is read as

An attribute's value is read from any text that has one value of the format in it, and the kind of
the value decides what it becomes: a text, a flag, an integer or a real number. Of the numbers an
integer is one that is written with digits only and fits; all others are real, unless they are
beyond the largest (`Sorted`). Values of other kinds are refused in whatever shape they come.
-/

namespace TraceLoad

open Json (Reader Padded Literal IsTextOf IsText IsValue IsList IsRecord Kept leastRefused numeral)
open Json.Reader (Takes Refuses)

namespace AttributeValue

/-- Reads a text that holds one attribute's value. -/
def read (bytes : List UInt8) : Except Json.Fault AttributeValue :=
  Json.document (reader Json.maxNesting) bytes

/-- Values that are neither texts nor flags nor numbers. -/
inductive IsOther : List UInt8 → Prop where
  | null : IsOther (Json.ascii "null")
  | list {items : List Padded} {bytes : List UInt8} (list : IsList items bytes)
      (values : ∀ i ∈ items, IsValue i.inner) : IsOther bytes
  | record {entries : List Json.Entry} {bytes : List UInt8} (record : IsRecord entries bytes)
      (labels : ∀ e ∈ entries, IsText e.label.inner)
      (values : ∀ e ∈ entries, IsValue e.value.inner) : IsOther bytes

/-- The value is refused for its kind, unless it cannot be read as one of any kind. -/
inductive Rejected (p : Padded) : Prop where
  | kind {v : Json} (value : Json.read p.bytes = .ok v)
      (refusal : read p.bytes = .error .mismatched)
  | unreadable (value : Json.read p.bytes = .error .malformed)
      (refusal : read p.bytes = .error .malformed)

/-! ## From values to attributes -/

variable {p : Padded} {v : Json}

/-- Whatever is read ends where the blanks begin. -/
theorem ends_after (p : Padded) : Json.Ends p.after := by
  have hnothing : Json.Ends [] := trivial
  have hends := Reader.ends_gap p.blankAfter hnothing
  rwa [List.append_nil] at hends

theorem dropWhile_after (p : Padded) : p.after.dropWhile Json.blankByte = [] :=
  List.dropWhile_eq_nil_iff.2 p.blankAfter

/-- With blanks around it a value is read as the value that it is. -/
theorem value_of_takes (h : Takes (Reader.value Json.maxNesting) p.inner v) :
    Json.read p.bytes = .ok v := by
  have hread := h.reads p.before p.after p.blankBefore (ends_after p)
  rw [Json.read, Json.document, Padded.bytes, hread]
  exact if_pos (dropWhile_after p)

/-- What the reader refuses is malformed. -/
theorem value_of_refuses (h : Refuses (Reader.value Json.maxNesting) p.inner) :
    Json.read p.bytes = .error .malformed := by
  have hread := h.refuses p.before p.after p.blankBefore (ends_after p)
  rw [Json.read, Json.document, Padded.bytes, hread]

/-- A value that is an attribute is read as that. -/
theorem read_of_takes {a : AttributeValue}
    (h : Takes (Reader.value Json.maxNesting) p.inner v) (ha : ofJson? v = some a) :
    read p.bytes = .ok a := by
  have hread := h.reads p.before p.after p.blankBefore (ends_after p)
  have hreader : reader Json.maxNesting p.bytes = .ok (a, p.after) := by
    rw [reader, Padded.bytes, Reader.bind_ok hread, ha]
    rfl
  rw [read, Json.document, hreader]
  exact if_pos (dropWhile_after p)

/-- Any other value does not match. -/
theorem read_of_takes_other (h : Takes (Reader.value Json.maxNesting) p.inner v)
    (hv : ofJson? v = none) : read p.bytes = .error .mismatched := by
  have hread := h.reads p.before p.after p.blankBefore (ends_after p)
  have hreader : reader Json.maxNesting p.bytes = .error .mismatched := by
    rw [reader, Padded.bytes, Reader.bind_ok hread, hv]
    rfl
  rw [read, Json.document, hreader]

/-- What is no value at all is malformed here, too. -/
theorem read_of_refuses (h : Refuses (Reader.value Json.maxNesting) p.inner) :
    read p.bytes = .error .malformed := by
  have hread := h.refuses p.before p.after p.blankBefore (ends_after p)
  have hreader : reader Json.maxNesting p.bytes = .error .malformed := by
    rw [reader, Padded.bytes, Reader.bind_error hread]
  rw [read, Json.document, hreader]

/-! ## Numbers -/

/-- An integer of 64 bits is read as one. -/
theorem ofJson?_whole {n : Int} (hleast : -2 ^ 63 ≤ n) (hgreatest : n ≤ 2 ^ 63 - 1) :
    ∃ k : Int64, k.toInt = n ∧ ofJson? (.number (.whole n)) = some (int k) := by
  have hmin : Int64.minValue.toInt = -2 ^ 63 := rfl
  have hmax : Int64.maxValue.toInt = 2 ^ 63 - 1 := rfl
  refine ⟨Int64.ofInt n, Int64.toInt_ofInt_of_le hleast (by omega), ?_⟩
  rw [ofJson?, hmin, hmax, if_pos ⟨hleast, hgreatest⟩]

/-- A greater one is read as a real number. -/
theorem ofJson?_whole_large {n : Int} (h : 2 ^ 63 - 1 < n) :
    ∃ x, ofJson? (.number (.whole n)) = some (real x) := by
  have hmax : Int64.maxValue.toInt = 2 ^ 63 - 1 := rfl
  refine ⟨.ofFloat (UInt64.ofNat n.toNat).toFloat, ?_⟩
  rw [ofJson?, hmax, if_neg (by omega)]

/-- Digits that fit 64 bits are an integer, or a real number if they do not fit a signed one. -/
theorem ofJson?_wholeNumber (l : Literal) (hfraction : l.fraction = [])
    (hexponent : l.exponent = []) :
    (∃ n : Int64, l.IsInt n.toInt ∧
      ofJson? (.number (Json.wholeNumber l.negative (numeral l.whole))) = some (int n)) ∨
    (∀ n, ¬ l.IsInt n) ∧
      ∃ x, ofJson? (.number (Json.wholeNumber l.negative (numeral l.whole))) = some (real x) := by
  have hhalf : UInt64.size / 2 = 2 ^ 63 := rfl
  cases hnegative : l.negative with
  | true =>
    have hvalue : l.value = -(numeral l.whole : Int) := if_pos hnegative
    rw [Json.wholeNumber, if_pos rfl, hhalf]
    -- with a sign, zero is a real number, and so is what is smaller than any integer of 64 bits
    by_cases hreal : numeral l.whole = 0 ∨ 2 ^ 63 < numeral l.whole
    · right
      rw [if_pos hreal]
      refine ⟨?_, _, rfl⟩
      rintro n ⟨-, -, hn, hzero, hleast, -⟩
      have hzero := hzero hnegative
      omega
    · left
      rw [if_neg hreal]
      rcases ofJson?_whole (n := -(numeral l.whole : Int)) (by omega) (by omega) with ⟨n, hn, hread⟩
      refine ⟨n, ⟨hfraction, hexponent, by rw [hvalue, hn], ?_, by omega, by omega⟩, hread⟩
      intro _
      omega
  | false =>
    have hpositive : ¬ l.negative = true := by simp [hnegative]
    have hvalue : l.value = numeral l.whole := if_neg hpositive
    rw [Json.wholeNumber, if_neg (by decide)]
    -- without one, only what is too large
    by_cases hlarge : 2 ^ 63 - 1 < (numeral l.whole : Int)
    · right
      refine ⟨?_, ofJson?_whole_large hlarge⟩
      rintro n ⟨-, -, hn, -, -, hgreatest⟩
      omega
    · left
      rcases ofJson?_whole (n := (numeral l.whole : Int)) (by omega) (by omega) with ⟨n, hn, hread⟩
      refine ⟨n, ⟨hfraction, hexponent, by rw [hvalue, hn], ?_, by omega, by omega⟩, hread⟩
      intro h
      exact absurd h hpositive

/-- What is read of a number: an integer if it is one, and otherwise a real number, unless it is too
large. -/
theorem read_literal (l : Literal) (hinner : l.bytes = p.inner) :
    (∃ n : Int64, l.IsInt n.toInt ∧ read p.bytes = .ok (int n)) ∨
    (∀ n, ¬ l.IsInt n) ∧
      ((∃ x, read p.bytes = .ok (real x)) ∨
        leastRefused ≤ l.size ∧ read p.bytes = .error .malformed) := by
  by_cases hreal : l.fraction = [] → l.exponent = [] → UInt64.size ≤ numeral l.whole
  · -- a fraction, an exponent, or more digits than 64 bits hold
    right
    constructor
    · rintro n ⟨hfraction, hexponent, hn, -, hleast, hgreatest⟩
      have hlarge := hreal hfraction hexponent
      have hsize : UInt64.size = 2 ^ 64 := rfl
      rw [Literal.value] at hn
      split at hn <;> omega
    · rcases Reader.value_signed_cases l hreal with ⟨x, htakes⟩ | ⟨hlarge, hrefuses⟩
      · rw [hinner] at htakes
        exact .inl ⟨x, read_of_takes htakes rfl⟩
      · rw [hinner] at hrefuses
        exact .inr ⟨hlarge, read_of_refuses hrefuses⟩
  · simp only [not_forall, not_le] at hreal
    rcases hreal with ⟨hfraction, hexponent, hfits⟩
    have htakes : Takes (Reader.value Json.maxNesting) p.inner
        (.number (Json.wholeNumber l.negative (numeral l.whole))) :=
      hinner ▸ Reader.takes_value_plain l hfraction hexponent hfits
    rcases ofJson?_wholeNumber l hfraction hexponent with ⟨n, hn, hread⟩ | ⟨hnone, x, hread⟩
    · exact .inl ⟨n, hn, read_of_takes htakes hread⟩
    · exact .inr ⟨hnone, .inl ⟨x, read_of_takes htakes hread⟩⟩

/-! ## All kinds -/

theorem rejected_of_takes (h : Takes (Reader.value Json.maxNesting) p.inner v)
    (hv : ofJson? v = none) : Rejected p :=
  .kind (value_of_takes h) (read_of_takes_other h hv)

theorem rejected_of_refuses (h : Refuses (Reader.value Json.maxNesting) p.inner) : Rejected p :=
  .unreadable (value_of_refuses h) (read_of_refuses h)

/-- A value of another kind is refused for what it is once it has been read, and before if it cannot
be read. -/
theorem rejected_other (h : IsOther p.inner) : Rejected p := by
  -- one level of the 127 is the list or the record itself
  generalize hinner : p.inner = inner at h
  cases h with
  | null => exact rejected_of_takes (hinner ▸ Reader.takes_value_null) rfl
  | @list items _ list values =>
    have hitems : ∀ i ∈ items, Reader.Settles (Reader.value 126) i.inner := fun i hi =>
      Reader.settles (values i hi) 126
    rcases Reader.list_settles list hitems with ⟨xs, htakes⟩ | hrefuses
    · exact rejected_of_takes (hinner ▸ htakes) rfl
    · exact rejected_of_refuses (hinner ▸ hrefuses)
  | @record entries _ record labels values =>
    have hvalues : ∀ e ∈ entries, Reader.Settles (Reader.value 126) e.value.inner := fun e he =>
      Reader.settles (values e he) 126
    rcases Reader.record_settles record labels hvalues with ⟨fs, htakes⟩ | hrefuses
    · exact rejected_of_takes (hinner ▸ htakes) rfl
    · exact rejected_of_refuses (hinner ▸ hrefuses)

/-- What a text of the format is read as, by the kind of its value. -/
structure Sorted (p : Padded) : Prop where
  /-- there are no other kinds -/
  kinds : IsValue p.inner → IsText p.inner ∨ (∃ b : Bool, p.inner = (Json.flag b).write) ∨
    (∃ l : Literal, l.bytes = p.inner) ∨ IsOther p.inner
  text : ∀ s, IsTextOf s p.inner → read p.bytes = .ok (text s)
  /-- it has halves of characters in it, or bytes that encode none -/
  nothingSpelled : IsText p.inner → (∀ s, ¬ IsTextOf s p.inner) → read p.bytes = .error .malformed
  flag : ∀ b : Bool, p.inner = (Json.flag b).write → read p.bytes = .ok (flag b)
  integer : ∀ l : Literal, l.bytes = p.inner → ∀ n : Int64,
    read p.bytes = .ok (int n) ↔ l.IsInt n.toInt
  number : ∀ l : Literal, l.bytes = p.inner → (∀ n : Int64, ¬ l.IsInt n.toInt) →
    (∃ x, read p.bytes = .ok (real x)) ∨
      leastRefused ≤ l.size ∧ read p.bytes = .error .malformed
  other : IsOther p.inner → Rejected p
  /-- a value can be read unless there is a reason why not -/
  kept : Kept Json.maxNesting p.inner → ∃ v, Json.read p.bytes = .ok v

theorem kinds (h : IsValue p.inner) :
    IsText p.inner ∨ (∃ b : Bool, p.inner = (Json.flag b).write) ∨
      (∃ l : Literal, l.bytes = p.inner) ∨ IsOther p.inner := by
  generalize p.inner = inner at h
  cases h with
  | word word =>
    simp only [List.mem_cons, List.not_mem_nil, or_false] at word
    -- of the three words two are flags
    rcases word with rfl | rfl | rfl
    · exact .inr (.inr (.inr .null))
    · exact .inr (.inl ⟨true, rfl⟩)
    · exact .inr (.inl ⟨false, rfl⟩)
  | number number => exact .inr (.inr (.inl (Json.isNumber_iff.1 number)))
  | text text => exact .inl text
  | list list values => exact .inr (.inr (.inr (.list list values)))
  | record record labels values => exact .inr (.inr (.inr (.record record labels values)))

theorem isInt_of_read {l : Literal} {n : Int64} (hinner : l.bytes = p.inner)
    (h : read p.bytes = .ok (int n)) : l.IsInt n.toInt := by
  rcases read_literal l hinner with ⟨k, hk, hread⟩ | ⟨_, ⟨x, hread⟩ | ⟨_, hread⟩⟩
  · rw [hread] at h
    cases h
    exact hk
  · rw [hread] at h
    cases h
  · rw [hread] at h
    cases h

/-- The kind of a value decides what it is read as, and an integer is read from what it is written
as. -/
theorem read_by_kind :
    (∀ p : Padded, Sorted p) ∧ ∀ n : Int64, read (int n).write = .ok (int n) := by
  refine ⟨?_, ?_⟩
  · intro p
    constructor
    case kinds => exact kinds
    case text =>
      intro s hs
      exact read_of_takes (Reader.takes_value_text hs) rfl
    case nothingSpelled =>
      intro htext hnothing
      rcases Reader.text_settles htext with ⟨s, hs⟩ | hrefuses
      · exact absurd hs (hnothing s)
      · exact read_of_refuses hrefuses
    case flag =>
      intro b hb
      exact read_of_takes (hb ▸ Reader.takes_value_flag b) rfl
    case integer =>
      intro l hl n
      constructor
      · exact isInt_of_read hl
      · intro hn
        rcases read_literal l hl with ⟨k, hk, hread⟩ | ⟨hnone, -⟩
        · rw [hread, Int64.toInt_inj.1 (hk.unique hn)]
        · exact absurd hn (hnone _)
    case number =>
      intro l hl hnone
      rcases read_literal l hl with ⟨k, hk, -⟩ | ⟨-, hread⟩
      · exact absurd hk (hnone k)
      · exact hread
    case other => exact rejected_other
    case kept =>
      intro hkept
      rcases Reader.exists_takes hkept with ⟨v, htakes⟩
      exact ⟨v, value_of_takes htakes⟩
  · intro n
    -- an integer is no real number, so it is read back as it was written
    have hint : ¬ (int n).IsReal := by
      rintro ⟨x, hx⟩
      cases hx
    exact (reads hint Json.maxNesting).document

/-- The negative zero is no integer, and neither is one that is written with an exponent. -/
example : read (Json.ascii "-0") = .ok (real ⟨0x8000000000000000⟩) ∧
    read (Json.ascii "1e2") = .ok (real ⟨0x4059000000000000⟩) := by
  decide +kernel

/-- A number that is refused although it is not beyond the largest one. -/
def refusedDigits : Literal where
  negative := false
  whole := Json.ascii "17976931348623156225"
  fraction := []
  exponent := 0x65 :: Json.ascii "289"
  isWhole := .digits ⟨by decide, List.all_eq_true.1 rfl⟩ (by decide)
  isFraction := .none
  isExponent := .unsigned rfl ⟨by decide, List.all_eq_true.1 rfl⟩

/-- Digits and power are rounded before they are multiplied, and the product can come out beyond
the largest number when the literal does not. -/
theorem refusedDigits_in_range :
    refusedDigits.size ≤ (2 ^ 53 - 1) * 2 ^ 971 ∧ (∀ n, ¬ refusedDigits.IsInt n) ∧
      read refusedDigits.bytes = .error .malformed := by
  refine ⟨?_, ?_, ?_⟩
  · decide +kernel
  · intro n h
    have hempty : refusedDigits.exponent = [] := h.noExponent
    cases hempty
  · decide +kernel

end AttributeValue

end TraceLoad
