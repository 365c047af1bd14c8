import Mathlib.Data.List.TakeWhile
import Mathlib.Data.Nat.Digits.Defs
import TraceLoad.Config

/-! # Which texts are durations

A duration is written as decimal digits with a unit behind them (`Spells`), and there may be white
space around it. The reader cuts a text three times: behind the white space at its front, before the
white space at its end, and behind the digits of what is left. Each time it goes on to the first
character of another kind, so that one lemma tells where it cuts (`cut_iff`). A text that is no
duration is reported without the white space around it, and otherwise as it is.
-/

namespace TraceLoad

/-- A list is cut where its elements are of one kind before and the next one is not. -/
theorem cut_iff {α : Type} {p : α → Bool} {text front rest : List α} :
    text.takeWhile p = front ∧ text.dropWhile p = rest ↔
      text = front ++ rest ∧ (∀ c ∈ front, p c = true) ∧ ∀ c ∈ rest.head?, p c = false := by
  constructor
  · rintro ⟨rfl, rfl⟩
    refine ⟨List.takeWhile_append_dropWhile.symm, fun c hc => List.mem_takeWhile_imp hc, ?_⟩
    intro c hc
    have hnot := List.head?_dropWhile_not p text
    rw [Option.mem_def.1 hc] at hnot
    simpa using hnot
  · rintro ⟨rfl, hfront, hrest⟩
    rw [List.takeWhile_append_of_pos hfront, List.dropWhile_append_of_pos hfront]
    -- the cut is where it is asked for, since the predicate fails there
    cases rest with
    | nil => exact ⟨List.append_nil _, rfl⟩
    | cons c rest =>
      have hc : ¬ p c = true := by simp [hrest c rfl]
      rw [List.takeWhile_cons_of_neg hc, List.dropWhile_cons_of_neg hc]
      exact ⟨List.append_nil _, rfl⟩

namespace Text

variable {text core : List Char}

/-- A text without the white space around it: there is only white space before it and behind it, and
it neither begins nor ends with any. -/
structure IsTrimmed (text core : List Char) : Prop where
  around : ∃ before after, text = before ++ (core ++ after) ∧
    (∀ c ∈ before, isBlank c = true) ∧ ∀ c ∈ after, isBlank c = true
  first : ∀ c ∈ core.head?, isBlank c = false
  last : ∀ c ∈ core.getLast?, isBlank c = false

theorem isTrimmed_trim (text : List Char) : IsTrimmed text (trim text) := by
  obtain ⟨inner, hinner⟩ : ∃ inner, text.dropWhile isBlank = inner := ⟨_, rfl⟩
  obtain ⟨back, hback⟩ : ∃ back, inner.reverse.dropWhile isBlank = back := ⟨_, rfl⟩
  rcases cut_iff.1 ⟨rfl, hinner⟩ with ⟨htext, hbefore, hfirst⟩
  rcases cut_iff.1 ⟨rfl, hback⟩ with ⟨hreverse, hafter, hlast⟩
  have htrim : trim text = back.reverse := by
    unfold trim
    rw [hinner, hback]
  -- what is left in front is cut again from behind, which is a cut of the reversed text
  have hsplit : inner = back.reverse ++ (inner.reverse.takeWhile isBlank).reverse := by
    rw [← List.reverse_append, ← hreverse, List.reverse_reverse]
  rw [htrim]
  constructor
  case around =>
    refine ⟨_, _, htext.trans (congrArg (_ ++ ·) hsplit), hbefore, ?_⟩
    intro c hc
    exact hafter c (List.mem_reverse.1 hc)
  case first =>
    intro c hc
    apply hfirst
    rw [hsplit, List.head?_append, Option.mem_def.1 hc]
    rfl
  case last =>
    intro c hc
    rw [List.getLast?_reverse] at hc
    exact hlast c hc

/-- A text can be trimmed in one way only. -/
theorem isTrimmed_iff : IsTrimmed text core ↔ core = trim text := by
  constructor
  · rintro ⟨⟨before, after, rfl, hbefore, hafter⟩, hfirst, hlast⟩
    unfold trim
    -- with nothing in between, the cut at the front takes the white space behind it as well
    cases hcore : core with
    | nil =>
      have hblank : ∀ c ∈ before ++ ([] ++ after), isBlank c = true := by
        intro c hc
        rcases List.mem_append.1 hc with hc | hc
        · exact hbefore c hc
        · exact hafter c hc
      rw [List.dropWhile_eq_nil_iff.2 hblank]
      rfl
    | cons d ds =>
      have hfront : ∀ c ∈ (core ++ after).head?, isBlank c = false := by
        intro c hc
        rw [hcore] at hc hfirst
        exact hfirst c hc
      have hback : ∀ c ∈ core.reverse.head?, isBlank c = false := by
        intro c hc
        rw [List.head?_reverse] at hc
        exact hlast c hc
      have hafter' : ∀ c ∈ after.reverse, isBlank c = true := by
        intro c hc
        exact hafter c (List.mem_reverse.1 hc)
      rw [← hcore, (cut_iff.2 ⟨rfl, hbefore, hfront⟩).2, List.reverse_append,
        (cut_iff.2 ⟨rfl, hafter', hback⟩).2, List.reverse_reverse]
  · rintro rfl
    exact isTrimmed_trim text

end Text

namespace Decimal

/-- A natural number in decimal digits, at least one, of which any number may be leading zeros. -/
structure IsNumber (digits : List Char) (v : Nat) : Prop where
  nonempty : digits ≠ []
  digit : ∀ c ∈ digits, isDigit c = true
  value : v = Nat.ofDigits 10 (digits.reverse.map fun c => c.toNat - '0'.toNat)

/-- A numeral is read as the digits that it is written with. -/
theorem numeral_eq_ofDigits (digits : List Char) :
    numeral digits = Nat.ofDigits 10 (digits.reverse.map fun c => c.toNat - '0'.toNat) := by
  rw [Nat.ofDigits_eq_foldr, List.foldr_map, List.foldr_reverse]
  unfold numeral
  congr 1
  funext n c
  exact Nat.add_comm _ _

end Decimal

namespace Duration

variable {text digits suffix : List Char} {v : Nat} {d : Duration} {u : TimeUnit}

/-- A text that is a duration: a number and its unit. The number fits 64 bits, and so do the seconds
that minutes and hours amount to. -/
inductive Spells : List Char → Duration → Prop where
  | seconds {digits : List Char} {v : Nat} (number : Decimal.IsNumber digits v)
      (fits : v < UInt64.size) : Spells (digits ++ ['s']) (ofSecs v)
  /-- a number alone counts seconds -/
  | bare {digits : List Char} {v : Nat} (number : Decimal.IsNumber digits v)
      (fits : v < UInt64.size) : Spells digits (ofSecs v)
  | minutes {digits : List Char} {v : Nat} (number : Decimal.IsNumber digits v)
      (fits : v * 60 < UInt64.size) : Spells (digits ++ ['m']) (ofSecs (v * 60))
  | hours {digits : List Char} {v : Nat} (number : Decimal.IsNumber digits v)
      (fits : v * 3600 < UInt64.size) : Spells (digits ++ ['h']) (ofSecs (v * 3600))
  | milliseconds {digits : List Char} {v : Nat} (number : Decimal.IsNumber digits v)
      (fits : v < UInt64.size) : Spells (digits ++ ['m', 's']) (ofMillis v)

/-- The suffixes that name a unit. -/
theorem TimeUnit.suffix_cases (h : ofSuffix? suffix = some u) :
    suffix = ['m', 's'] ∧ u = milliseconds ∨ suffix = [] ∧ u = seconds ∨
      suffix = ['s'] ∧ u = seconds ∨ suffix = ['m'] ∧ u = minutes ∨ suffix = ['h'] ∧ u = hours := by
  -- a suffix is looked for in this order, and nothing is one without being equal to it
  unfold ofSuffix? at h
  split at h
  · next hs => exact .inl ⟨hs, (Option.some.inj h).symm⟩
  · split at h
    · next hs =>
      rcases hs with hs | hs
      · exact .inr (.inl ⟨hs, (Option.some.inj h).symm⟩)
      · exact .inr (.inr (.inl ⟨hs, (Option.some.inj h).symm⟩))
    · split at h
      · next hs => exact .inr (.inr (.inr (.inl ⟨hs, (Option.some.inj h).symm⟩)))
      · split at h
        · next hs => exact .inr (.inr (.inr (.inr ⟨hs, (Option.some.inj h).symm⟩)))
        · cases h

/-- No unit begins with a digit, so the digits in front of it end there. -/
theorem TimeUnit.isDigit_head? (h : ofSuffix? suffix = some u) :
    ∀ c ∈ suffix.head?, Decimal.isDigit c = false := by
  intro c hc
  rcases suffix_cases h with ⟨rfl, -⟩ | ⟨rfl, -⟩ | ⟨rfl, -⟩ | ⟨rfl, -⟩ | ⟨rfl, -⟩
  · cases hc
    rfl
  · cases hc
  · cases hc
    rfl
  · cases hc
    rfl
  · cases hc
    rfl

/-- A unit that is no part of a second is counted in seconds. -/
theorem TimeUnit.nanos_eq (u : TimeUnit) (h : u ≠ milliseconds) (v : Nat) :
    (⟨v * u.inNanos⟩ : Duration) = ofSecs (v * u.inSecs) := by
  have hnanos : u.inNanos = u.inSecs * 1000000000 := by
    cases u with
    | milliseconds => exact absurd rfl h
    | seconds => rfl
    | minutes => rfl
    | hours => rfl
  rw [hnanos, ← Nat.mul_assoc]
  rfl

/-- The durations, from the table of the units. -/
theorem spells_iff : Spells text d ↔ ∃ digits suffix v u, text = digits ++ suffix ∧
    Decimal.IsNumber digits v ∧ TimeUnit.ofSuffix? suffix = some u ∧
    (v < UInt64.size ∧ v * u.inSecs < UInt64.size) ∧ d = ⟨v * u.inNanos⟩ := by
  constructor
  · intro h
    cases h with
    | @seconds digits v number fits =>
      refine ⟨digits, ['s'], v, .seconds, rfl, number, rfl, ⟨fits, ?_⟩, ?_⟩
      · rwa [TimeUnit.inSecs, Nat.mul_one]
      · rw [TimeUnit.nanos_eq .seconds (by decide), TimeUnit.inSecs, Nat.mul_one]
    | @bare _ v number fits =>
      refine ⟨text, [], v, .seconds, (List.append_nil _).symm, number, rfl, ⟨fits, ?_⟩, ?_⟩
      · rwa [TimeUnit.inSecs, Nat.mul_one]
      · rw [TimeUnit.nanos_eq .seconds (by decide), TimeUnit.inSecs, Nat.mul_one]
    | @minutes digits v number fits =>
      -- the number itself fits because its multiple does
      have hv : v < UInt64.size := Nat.lt_of_le_of_lt (Nat.le_mul_of_pos_right v (by decide)) fits
      exact ⟨digits, ['m'], v, .minutes, rfl, number, rfl, ⟨hv, fits⟩,
        (TimeUnit.nanos_eq .minutes (by decide) v).symm⟩
    | @hours digits v number fits =>
      have hv : v < UInt64.size := Nat.lt_of_le_of_lt (Nat.le_mul_of_pos_right v (by decide)) fits
      exact ⟨digits, ['h'], v, .hours, rfl, number, rfl, ⟨hv, fits⟩,
        (TimeUnit.nanos_eq .hours (by decide) v).symm⟩
    | @milliseconds digits v number fits =>
      exact ⟨digits, ['m', 's'], v, .milliseconds, rfl, number, rfl, ⟨fits, Nat.zero_lt_succ _⟩,
        rfl⟩
  · rintro ⟨digits, suffix, v, u, rfl, number, unit, ⟨fits, hsecs⟩, rfl⟩
    rcases TimeUnit.suffix_cases unit with ⟨rfl, rfl⟩ | ⟨rfl, rfl⟩ | ⟨rfl, rfl⟩ | ⟨rfl, rfl⟩ |
      ⟨rfl, rfl⟩
    · exact .milliseconds number fits
    · rw [List.append_nil]
      exact .bare number fits
    · exact .seconds number fits
    · rw [TimeUnit.nanos_eq .minutes (by decide)]
      exact .minutes number hsecs
    · rw [TimeUnit.nanos_eq .hours (by decide)]
      exact .hours number hsecs

/-- A number with a unit is read unless it is too large. -/
theorem ofText?_append (number : Decimal.IsNumber digits v)
    (unit : TimeUnit.ofSuffix? suffix = some u) :
    ofText? (digits ++ suffix) =
      if v < UInt64.size ∧ v * u.inSecs < UInt64.size then some ⟨v * u.inNanos⟩ else none := by
  -- the digits end where the suffix begins, since no suffix begins with a digit
  have hcut := cut_iff.2 ⟨rfl, number.digit, TimeUnit.isDigit_head? unit⟩
  have hbounded : Decimal.boundedNumeral? UInt64.size digits =
      if v < UInt64.size then some v else none := by
    rw [Decimal.boundedNumeral?_eq (by decide), Decimal.numeral_eq_ofDigits, ← number.value]
  unfold ofText?
  dsimp only
  rw [hcut.1, hcut.2, unit, hbounded]
  by_cases hv : v < UInt64.size
  · rw [if_pos hv]
    simp only [hv, number.nonempty, ne_eq, not_false_eq_true, true_and]
  · rw [if_neg hv]
    simp only [hv, false_and, if_false]

/-- What is read is a number with a unit. -/
theorem exists_number_of_ofText? (h : ofText? text = some d) :
    ∃ digits suffix v u, text = digits ++ suffix ∧ Decimal.IsNumber digits v ∧
      TimeUnit.ofSuffix? suffix = some u := by
  obtain ⟨digits, hdigits⟩ : ∃ digits, text.takeWhile Decimal.isDigit = digits := ⟨_, rfl⟩
  -- whatever was read, it was cut behind the digits
  rcases cut_iff.1 ⟨hdigits, rfl⟩ with ⟨htext, hall, -⟩
  unfold ofText? at h
  dsimp only at h
  rw [hdigits] at h
  split at h
  · next u n hunit _ =>
    split at h
    · next hnumber => exact ⟨digits, _, _, u, htext, ⟨hnumber.1, hall, rfl⟩, hunit⟩
    · cases h
  · cases h

/-- A text is read as a duration if it spells that one. -/
theorem ofText?_eq_some_iff : ofText? text = some d ↔ Spells text d := by
  rw [spells_iff]
  constructor
  · intro h
    rcases exists_number_of_ofText? h with ⟨digits, suffix, v, u, rfl, number, unit⟩
    rw [ofText?_append number unit] at h
    split at h
    · next fits => exact ⟨digits, suffix, v, u, rfl, number, unit, fits, (Option.some.inj h).symm⟩
    · cases h
  · rintro ⟨digits, suffix, v, u, rfl, number, unit, fits, rfl⟩
    rw [ofText?_append number unit, if_pos fits]

/-- The seconds of a duration that is read fit 64 bits. -/
theorem Spells.secs_lt (h : Spells text d) : d.secs < UInt64.size := by
  have hsecs : ∀ v, (ofSecs v).secs = v := fun v => Nat.mul_div_cancel v (by decide)
  cases h with
  | seconds _ fits => rwa [hsecs]
  | bare _ fits => rwa [hsecs]
  | minutes _ fits => rwa [hsecs]
  | hours _ fits => rwa [hsecs]
  | @milliseconds _ v _ fits =>
    have hless : v * 1000000 / 1000000000 ≤ v := by omega
    exact Nat.lt_of_le_of_lt hless fits

/-- What is accepted is a duration with blanks around it. -/
theorem parse_eq_ok_iff {text : String} :
    parse text = .ok d ↔ Spells (Text.trim text.toList) d := by
  rw [← ofText?_eq_some_iff]
  unfold parse
  dsimp only
  cases ofText? (Text.trim text.toList) with
  | none => simp
  | some _ => simp

/-- Everything else is refused with the text that was left between the blanks. -/
theorem parse_eq_error_iff {text : String} {f : ConfigError} :
    parse text = .error f ↔ f = .invalidDuration (String.ofList (Text.trim text.toList)) ∧
      ∀ d, ¬ Spells (Text.trim text.toList) d := by
  simp only [← ofText?_eq_some_iff]
  unfold parse
  dsimp only
  cases ofText? (Text.trim text.toList) with
  | none => simp [eq_comm]
  | some _ => simp

/-- A text is read as a duration if it is one without the white space around it, and otherwise the
text without that white space is refused. -/
theorem parse_trims_and_reads (text : String) :
    ∃ core, (∀ other, Text.IsTrimmed text.toList other ↔ other = core) ∧
      (∀ d, parse text = .ok d ↔ Spells core d) ∧
      (∀ f, parse text = .error f ↔
        f = .invalidDuration (String.ofList core) ∧ ∀ d, ¬ Spells core d) ∧
      ∀ d, Spells core d → d.secs < UInt64.size := by
  refine ⟨Text.trim text.toList, ?_, ?_, ?_, ?_⟩
  · intro other
    exact Text.isTrimmed_iff
  · intro d
    exact parse_eq_ok_iff
  · intro f
    exact parse_eq_error_iff
  · intro d hspells
    exact hspells.secs_lt

example : parse "\u2003007m\n" = .ok (ofSecs 420) := by decide

/-- One hour more than 64 bits of seconds hold. -/
example : parse "5124095576030432h" = .error (.invalidDuration "5124095576030432h") := by decide

end Duration

end TraceLoad
