import TraceLoad.Proofs.Passing

/-! # Texts that spell nothing

Bytes can have the form of a text and yet stand for no characters: an escape may be one half of a
character without the other, and bytes that stand for themselves may encode none. What the scanner
finds of a text tells which characters it spells (`exists_spelled`), since no byte inside a
character comes from an escape; so a text is read if it spells something, and is refused otherwise
(`quoted_isText`).
-/

namespace TraceLoad.Json

variable {b : UInt8} {bytes found inside piece rest written : List UInt8} {c : Char}

/-! ## Scanning pieces -/

/-- The bytes that are found where others are written: those that stand for themselves, and those
of characters that are written otherwise. -/
inductive Unescapes : List UInt8 → List UInt8 → Prop where
  | nil : Unescapes [] []
  | plain {b : UInt8} {found written : List UInt8} (visible : ¬ b < 0x20) (quote : b ≠ quoteMark)
      (mark : b ≠ backslash) (more : Unescapes found written) :
      Unescapes (b :: found) (b :: written)
  | spelled {c : Char} {piece found written : List UInt8} (spells : SpellsChar c piece)
      (more : Unescapes found written) :
      Unescapes (String.utf8EncodeChar c ++ found) (piece ++ written)

/-- What comes of the inside of a text: bytes are found, or it is refused. -/
inductive Scanned (inside : List UInt8) : Prop where
  | found {found : List UInt8} (unescapes : Unescapes found inside)
      (scan : ∀ rest, scanText (inside ++ quoteMark :: rest) = .ok (found, rest))
  | refused (scan : ∀ rest, scanText (inside ++ quoteMark :: rest) = .error .malformed)

/-- Nothing is scanned as nothing. -/
theorem scanned_nil : Scanned [] := by
  refine .found .nil ?_
  intro rest
  rw [List.nil_append, scanText.eq_def]
  exact if_pos rfl

/-- A byte that needs no mark changes nothing about whether the rest is read. -/
theorem Scanned.plain (h : Scanned inside) (visible : ¬ b < 0x20) (quote : b ≠ quoteMark)
    (mark : b ≠ backslash) : Scanned (b :: inside) := by
  have hplain : ∀ rest, scanText (b :: inside ++ quoteMark :: rest) =
      prepend [b] (scanText (inside ++ quoteMark :: rest)) := fun _ =>
    scanText_plain quote mark visible
  cases h with
  | found unescapes scan =>
    refine .found (.plain visible quote mark unescapes) ?_
    intro rest
    rw [hplain, scan]
    rfl
  | refused scan =>
    refine .refused ?_
    intro rest
    rw [hplain, scan]
    rfl

/-- A character that is spelled changes nothing about whether the rest is read. -/
theorem Scanned.spelled (h : Scanned inside) (spells : SpellsChar c piece) :
    Scanned (piece ++ inside) := by
  cases h with
  | found unescapes scan =>
    refine .found (.spelled spells unescapes) ?_
    intro rest
    rw [List.append_assoc, scanText_spells spells, scan]
    rfl
  | refused scan =>
    refine .refused ?_
    intro rest
    rw [List.append_assoc, scanText_spells spells, scan]
    rfl

theorem hexValue?_lt {d : UInt8} {n : Nat} (h : hexValue? d = some n) : n < 16 := by
  have hall : ∀ i : Fin 256, ∀ n ∈ hexValue? (UInt8.ofNat i), n < 16 := by
    decide +kernel
  have hd := hall ⟨d.toNat, d.toNat_lt⟩
  rw [UInt8.ofNat_toNat] at hd
  exact hd n h

/-- Four digits make 16 bits. -/
theorem hexValue4?_lt {d₁ d₂ d₃ d₄ : UInt8} {n : Nat} (h : hexValue4? d₁ d₂ d₃ d₄ = some n) :
    n < 0x10000 := by
  simp only [hexValue4?, Option.bind_eq_bind, Option.bind_eq_some_iff, Option.pure_def,
    Option.some.injEq] at h
  rcases h with ⟨n₁, h₁, n₂, h₂, n₃, h₃, n₄, h₄, rfl⟩
  have := hexValue?_lt h₁
  have := hexValue?_lt h₂
  have := hexValue?_lt h₃
  have := hexValue?_lt h₄
  omega

/-- What is scanned behind the first half of a character. -/
def secondHalf (high : Nat) (bytes : List UInt8) : Except Fault (List UInt8 × List UInt8) :=
  match bytes with
  | [] => .error .truncated
  | m :: rest =>
    if m ≠ backslash then .error .malformed
    else
      match rest with
      | [] => .error .truncated
      | u :: rest =>
        if u ≠ unitLetter then .error .malformed
        else
          match rest with
          | l₁ :: l₂ :: l₃ :: l₄ :: rest =>
            match hexValue4? l₁ l₂ l₃ l₄ with
            | none => .error .malformed
            | some l =>
              if isLowHalf l then
                prepend (String.utf8EncodeChar (joinHalves high l)) (scanText rest)
              else .error .malformed
          | _ => .error .truncated

/-- What becomes of a code unit depends on which half it is, if it is one. -/
theorem scanText_isUnit {n : Nat} (h : IsUnit n piece) (rest : List UInt8) :
    scanText (piece ++ rest) =
      if isLowHalf n then .error .malformed
      else if isHighHalf n then secondHalf n rest
      else prepend (String.utf8EncodeChar (Char.ofNat n)) (scanText rest) := by
  cases h with
  | digits value =>
    simp only [List.cons_append, List.nil_append]
    rw [scanText.eq_def]
    dsimp only
    rw [if_neg (by decide), if_pos rfl, if_pos rfl, value]
    rfl

/-- A low half cannot come first. -/
theorem Scanned.lowHalf {n : Nat} (h : IsUnit n piece) (hlow : isLowHalf n = true)
    (inside : List UInt8) : Scanned (piece ++ inside) := by
  refine .refused ?_
  intro rest
  rw [List.append_assoc, scanText_isUnit h, if_pos hlow]

theorem isLowHalf_of_isHighHalf {n : Nat} (h : isHighHalf n = true) : isLowHalf n = false := by
  simp only [isHighHalf, Bool.and_eq_true, decide_eq_true_eq] at h
  simp only [isLowHalf, Bool.and_eq_false_iff, decide_eq_false_iff_not]
  omega

/-- The first half of a character, with what is wrong behind it. -/
theorem Scanned.highHalf {n : Nat} (h : IsUnit n piece) (hhigh : isHighHalf n = true)
    (hbehind : ∀ rest, secondHalf n (inside ++ quoteMark :: rest) = .error .malformed) :
    Scanned (piece ++ inside) := by
  refine .refused ?_
  intro rest
  rw [List.append_assoc, scanText_isUnit h,
    if_neg (Bool.eq_false_iff.1 (isLowHalf_of_isHighHalf hhigh)), if_pos hhigh, hbehind]

theorem toNat_ofNat_of_isValidChar {n : Nat} (h : n.isValidChar) : (Char.ofNat n).toNat = n := by
  rw [Char.ofNat, dif_pos h]
  rfl

/-- A code that is no half is that of a character. -/
theorem toNat_ofNat_of_not_half {n : Nat} (hn : n < 0x10000) (hlow : isLowHalf n = false)
    (hhigh : isHighHalf n = false) : (Char.ofNat n).toNat = n := by
  apply toNat_ofNat_of_isValidChar
  simp only [isLowHalf, isHighHalf, Bool.and_eq_false_iff, decide_eq_false_iff_not] at hlow hhigh
  unfold Nat.isValidChar
  omega

theorem toNat_joinHalves {high low : Nat} (hhigh : high < 0x400) (hlow : low < 0x400) :
    (joinHalves (0xD800 + high) (0xDC00 + low)).toNat = 0x10000 + high * 0x400 + low := by
  have hcode : (0xD800 + high - 0xD800) * 0x400 + (0xDC00 + low - 0xDC00) + 0x10000 =
      0x10000 + high * 0x400 + low := by omega
  rw [joinHalves, hcode]
  apply toNat_ofNat_of_isValidChar
  unfold Nat.isValidChar
  omega

/-- The halves of a character, one behind the other. -/
theorem spellsChar_halves {n m : Nat} {first second : List UInt8} (hfirst : IsUnit n first)
    (hsecond : IsUnit m second) (hhigh : isHighHalf n = true) (hlow : isLowHalf m = true) :
    ∃ c, SpellsChar c (first ++ second) := by
  simp only [isHighHalf, isLowHalf, Bool.and_eq_true, decide_eq_true_eq] at hhigh hlow
  obtain ⟨high, rfl⟩ : ∃ high, n = 0xD800 + high := ⟨n - 0xD800, by omega⟩
  obtain ⟨low, rfl⟩ : ∃ low, m = 0xDC00 + low := ⟨m - 0xDC00, by omega⟩
  have hhigh' : high < 0x400 := by omega
  have hlow' : low < 0x400 := by omega
  exact ⟨_, .halves hfirst hsecond hhigh' hlow' (toNat_joinHalves hhigh' hlow')⟩

/-- The letters have characters. -/
theorem spellsChar_letter {n : Nat} (h : (b, n) ∈ escapeLetters) :
    ∃ c, SpellsChar c [backslash, b] := by
  have hascii : n < 0x80 := (of_mem_escapeLetters _ h).2.2
  have hcode : (Char.ofNat n).toNat = n := toNat_ofNat_of_isValidChar (.inl (by omega))
  exact ⟨Char.ofNat n, .letter (hcode.symm ▸ h)⟩

/-- Behind the first half of a character its second half is looked for. -/
theorem Scanned.pair {n : Nat} {next : List UInt8} (h : IsUnit n piece)
    (hhigh : isHighHalf n = true) (hnext : IsPiece next) (hmore : Scanned inside) :
    Scanned (piece ++ (next ++ inside)) := by
  cases hnext with
  | plain visible quote mark => exact .highHalf h hhigh fun _ => if_pos mark
  | letter letter =>
    -- any letter but that of a code unit is refused here
    refine .highHalf h hhigh fun _ => ?_
    simp [secondHalf, (of_mem_escapeLetters _ letter).1]
  | @unit m _ unit =>
    cases hsecond : isLowHalf m with
    | true =>
      -- two halves that fit spell one character
      rcases spellsChar_halves h unit hhigh hsecond with ⟨c, spells⟩
      rw [← List.append_assoc]
      exact hmore.spelled spells
    | false =>
      refine .highHalf h hhigh fun rest => ?_
      cases unit with
      | digits value => simp [secondHalf, value, hsecond]

/-- One piece more is read or refused, as long as high halves are looked after. -/
theorem Scanned.append (hpiece : IsPiece piece) (hmore : Scanned inside)
    (hpair : ∀ n, IsUnit n piece → isHighHalf n = true → Scanned (piece ++ inside)) :
    Scanned (piece ++ inside) := by
  cases hpiece with
  | plain visible quote mark => exact hmore.plain visible quote mark
  | letter letter =>
    rcases spellsChar_letter letter with ⟨c, spells⟩
    exact hmore.spelled spells
  | @unit n _ unit =>
    cases hlow : isLowHalf n with
    | true => exact .lowHalf unit hlow _
    | false =>
      cases hhigh : isHighHalf n with
      | true => exact hpair n unit hhigh
      | false =>
        -- the code is kept by the character that it becomes
        have hcode : (Char.ofNat n).toNat = n := by
          cases unit with
          | digits value => exact toNat_ofNat_of_not_half (hexValue4?_lt value) hlow hhigh
        exact hmore.spelled (.unit (hcode.symm ▸ unit))

/-- Whatever has the form of a text is scanned to its end, or refused. -/
theorem scanned_pieces : ∀ {pieces : List (List UInt8)}, (∀ p ∈ pieces, IsPiece p) →
    Scanned pieces.flatten
  | [], _ => scanned_nil
  | [p], h => by
    refine .append (h p List.mem_cons_self) scanned_nil ?_
    intro n unit hhigh
    -- the closing quote is not the mark in front of a second half
    have hquote : ∀ rest, secondHalf n (quoteMark :: rest) = .error .malformed := by
      intro rest
      simp [secondHalf, quoteMark, backslash]
    exact .highHalf unit hhigh hquote
  | p :: q :: pieces, h => by
    -- two pieces can be one character, so what is behind both is needed as well
    have hmore := scanned_pieces fun r hr => h r (List.mem_cons_of_mem p hr)
    have hlater := scanned_pieces fun r hr =>
      h r (List.mem_cons_of_mem p (List.mem_cons_of_mem q hr))
    refine .append (h p List.mem_cons_self) hmore ?_
    intro n unit hhigh
    exact .pair unit hhigh (h q (List.mem_cons_of_mem p List.mem_cons_self)) hlater

/-! ## Characters in what is found -/

/-- The bytes of characters tell which one is the first. -/
theorem utf8EncodeChar_append_inj {d : Char} {xs ys : List UInt8}
    (h : String.utf8EncodeChar c ++ xs = String.utf8EncodeChar d ++ ys) : c = d ∧ xs = ys := by
  have hchar : c = d := by
    have hc := encodesCode_utf8EncodeChar c
    have hd := encodesCode_utf8EncodeChar d
    -- of two characters the one with the smaller code has the smaller bytes, whatever follows
    rcases lt_trichotomy c.toNat d.toNat with hlt | heq | hgt
    · have hless := hc.append_lt hd hlt xs ys
      rw [h] at hless
      exact absurd hless (List.lt_irrefl _)
    · exact Char.toNat_inj.1 heq
    · have hless := hd.append_lt hc hgt ys xs
      rw [h] at hless
      exact absurd hless (List.lt_irrefl _)
  subst hchar
  exact ⟨rfl, List.append_cancel_left h⟩

/-- A byte that goes on with a character. -/
def IsInner (b : UInt8) : Prop := 0x80 ≤ b.toNat ∧ b.toNat < 0xC0

/-- The first byte of a character begins one, and the others do not. -/
theorem exists_utf8EncodeChar_cons (c : Char) :
    ∃ b tail, String.utf8EncodeChar c = b :: tail ∧ ¬ IsInner b ∧ (∀ x ∈ tail, IsInner x) ∧
      (c.toNat < 0x80 → b.toNat = c.toNat) := by
  have hcode := encodesCode_utf8EncodeChar c
  generalize String.utf8EncodeChar c = bytes at hcode
  generalize c.toNat = n at hcode
  cases hcode <;> refine ⟨_, _, rfl, ?_, ?_, ?_⟩ <;>
    simp [IsInner, UInt8.toNat_ofNat'] <;> omega

/-- Inside a character all bytes stand for themselves, since an escape begins another one. -/
theorem Unescapes.split {tail : List UInt8} (htail : ∀ x ∈ tail, IsInner x)
    (h : Unescapes (tail ++ found) written) :
    ∃ more, written = tail ++ more ∧ Unescapes found more := by
  induction tail generalizing written with
  | nil => exact ⟨written, rfl, h⟩
  | cons x tail ih =>
    -- the first byte is the inner one of a character, so none is spelled there
    have hx := htail x List.mem_cons_self
    generalize hall : x :: tail ++ found = all at h
    cases h with
    | nil => cases hall
    | plain visible quote mark more =>
      cases hall
      rcases ih (fun y hy => htail y (List.mem_cons_of_mem _ hy)) more with ⟨w, rfl, hw⟩
      exact ⟨w, rfl, hw⟩
    | @spelled c _ _ _ spells more =>
      rcases exists_utf8EncodeChar_cons c with ⟨b, rest, hbytes, hb, -, -⟩
      rw [hbytes, List.cons_append, List.cons_append] at hall
      rw [(List.cons.inj hall).1] at hx
      exact absurd hx hb

/-- If what is found encodes a text, the text is spelled by what is written. -/
theorem exists_spelled {cs : List Char} (h : Unescapes (cs.flatMap String.utf8EncodeChar) written) :
    ∃ pieces, List.Forall₂ SpellsChar cs pieces ∧ written = pieces.flatten := by
  induction cs generalizing written with
  | nil =>
    rw [List.flatMap_nil] at h
    generalize hall : ([] : List UInt8) = all at h
    cases h with
    | nil => exact ⟨[], .nil, rfl⟩
    | plain visible quote mark more => cases hall
    | @spelled c _ _ _ spells more =>
      have hempty := (List.append_eq_nil_iff.1 hall.symm).1
      exact absurd hempty String.utf8EncodeChar_ne_nil
  | cons c cs ih =>
    rw [List.flatMap_cons] at h
    rcases exists_utf8EncodeChar_cons c with ⟨b, tail, hbytes, -, htail, hascii⟩
    generalize hall : String.utf8EncodeChar c ++ cs.flatMap String.utf8EncodeChar = all at h
    cases h with
    | nil =>
      rw [hbytes] at hall
      cases hall
    | @plain x _ _ visible quote mark more =>
      -- with its first byte the whole character stands for itself
      have hrest := hall
      rw [hbytes, List.cons_append] at hrest
      obtain ⟨rfl, rfl⟩ := List.cons.inj hrest
      rcases more.split htail with ⟨w, rfl, hw⟩
      rcases ih hw with ⟨pieces, hpieces, rfl⟩
      refine ⟨String.utf8EncodeChar c :: pieces, .cons ?_ hpieces, ?_⟩
      · by_cases hlow : c.toNat < 0x80
        · have hb := hascii hlow
          refine .plain ?_ ?_ ?_
          · rw [UInt8.lt_iff_toNat_lt, hb] at visible
            exact Nat.le_of_not_lt visible
          · rintro hcode
            exact quote (UInt8.toNat_inj.1 (hb.trans hcode))
          · rintro hcode
            exact mark (UInt8.toNat_inj.1 (hb.trans hcode))
        · exact .plain (by omega) (by omega) (by omega)
      · rw [List.flatten_cons, hbytes]
        rfl
    | @spelled d _ _ _ spells more =>
      obtain ⟨rfl, rfl⟩ := utf8EncodeChar_append_inj hall
      rcases ih more with ⟨pieces, hpieces, rfl⟩
      exact ⟨_ :: pieces, .cons spells hpieces, rfl⟩

/-- Bytes that make a text are those of its characters. -/
theorem toList_of_textOfBytes? {s : String} (h : textOfBytes? bytes = some s) :
    bytes = s.toList.flatMap String.utf8EncodeChar := by
  rw [textOfBytes?, String.fromUTF8?] at h
  split at h
  · next hvalid =>
    cases h
    exact toList_toUTF8 (String.fromUTF8 ⟨bytes.toArray⟩ hvalid)
  · cases h

namespace Reader

/-- A text that has the form of one is read if it spells something, and is refused otherwise. -/
theorem quoted_isText (h : IsText bytes) :
    (∃ s, IsTextOf s bytes) ∨ ∀ rest, quoted (bytes ++ rest) = .error .malformed := by
  rcases h with ⟨pieces, hpieces, rfl⟩
  have hdrop : ∀ rest, advance (quoteMark :: (pieces.flatten ++ [quoteMark]) ++ rest) =
      .ok ((), pieces.flatten ++ quoteMark :: rest) := by
    simp [advance]
  cases scanned_pieces hpieces with
  | @found found unescapes scan =>
    -- what has been found may still be no text in UTF-8
    cases htext : textOfBytes? found with
    | some s =>
      rw [toList_of_textOfBytes? htext] at unescapes
      rcases exists_spelled unescapes with ⟨spelled, hspelled, hwritten⟩
      exact .inl ⟨s, spelled, hspelled, by rw [hwritten]⟩
    | none =>
      right
      intro rest
      rw [quoted, bind_ok (hdrop rest), bind_ok (scan rest), htext]
      rfl
  | refused scan =>
    right
    intro rest
    rw [quoted, bind_ok (hdrop rest)]
    show (scanText (pieces.flatten ++ quoteMark :: rest) >>= _) = _
    rw [scan]
    rfl

end Reader

end TraceLoad.Json
