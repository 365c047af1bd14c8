import TraceLoad.Proofs.Reads

/-! # Passing over values

Whatever value of the format stands somewhere, however deeply it is nested, it is passed over to
its end and no further (`skip_value`). The loop that does so keeps the brackets that are open and
takes one value in every round; `proceed` is what it does behind a value, and `passes_value` says
that from the first byte of a value it comes to that point behind the last one.
-/

namespace TraceLoad.Json

/-- A part of a list or record: a value, and what comes in front of it. -/
structure Part where
  front : List UInt8
  value : Padded

def Part.bytes (p : Part) : List UInt8 := p.front ++ p.value.bytes

variable {b : UInt8} {bytes gap rest text : List UInt8}

/-! ## Texts -/

/-- One piece of a text is passed over at a time. -/
theorem skipText_piece (h : IsPiece bytes) (rest : List UInt8) :
    skipText (bytes ++ rest) = skipText rest := by
  cases h with
  | plain visible quote mark =>
    rw [List.singleton_append, skipText.eq_def]
    dsimp only
    rw [if_neg quote, if_neg mark, if_neg visible]
  | letter letter =>
    -- the letter behind a mark is one that the reader knows, and not the one of a code unit
    rcases of_mem_escapeLetters _ letter with ⟨hunit, hletter, -⟩
    rw [List.cons_append, List.singleton_append, skipText.eq_def]
    dsimp only
    rw [if_neg (by decide), if_pos rfl, if_neg hunit, hletter]
  | unit unit =>
    cases unit with
    | digits value =>
      simp only [List.cons_append, List.nil_append]
      rw [skipText.eq_def]
      dsimp only
      rw [if_neg (by decide), if_pos rfl, if_pos rfl, value]

theorem skipText_pieces {pieces : List (List UInt8)} (h : ∀ p ∈ pieces, IsPiece p) :
    skipText (pieces.flatten ++ quoteMark :: rest) = .ok rest := by
  induction pieces with
  | nil =>
    rw [List.flatten_nil, List.nil_append, skipText.eq_def]
    exact if_pos rfl
  | cons p pieces ih =>
    rw [List.flatten_cons, List.append_assoc, skipText_piece (h p List.mem_cons_self)]
    exact ih fun q hq => h q (List.mem_cons_of_mem _ hq)

/-- A text is passed over, whatever it spells. -/
theorem passText_isText (h : IsText text) (rest : List UInt8) :
    Reader.passText (text ++ rest) = .ok ((), rest) := by
  rcases h with ⟨pieces, hpieces, rfl⟩
  have hdrop : Reader.advance (quoteMark :: (pieces.flatten ++ [quoteMark]) ++ rest) =
      .ok ((), pieces.flatten ++ quoteMark :: rest) := by
    simp [Reader.advance]
  rw [Reader.passText, Reader.bind_ok hdrop, skipText_pieces hpieces]
  rfl

/-! ## Numbers -/

/-- What does not go on with a digit. -/
def NoDigit (bytes : List UInt8) : Prop := bytes.head?.any isDigit = false

theorem Ends.noDigit (h : Ends rest) : NoDigit rest := by
  cases rest with
  | nil => rfl
  | cons b rest => exact h.1

theorem NoDigit.dropWhile (h : NoDigit rest) : rest.dropWhile isDigit = rest := by
  cases rest with
  | nil => rfl
  | cons b rest => exact List.dropWhile_cons_of_neg (Bool.eq_false_iff.1 h)

/-- Digits are passed over one and all. -/
theorem AreDigits.exists_cons (h : AreDigits bytes) (hrest : NoDigit rest) :
    ∃ d ds, bytes = d :: ds ∧ isDigit d = true ∧ (ds ++ rest).dropWhile isDigit = rest := by
  rcases h with ⟨hne, hall⟩
  cases bytes with
  | nil => exact absurd rfl hne
  | cons d ds =>
    refine ⟨d, ds, rfl, hall d List.mem_cons_self, ?_⟩
    rw [List.dropWhile_append_of_pos fun b hb => hall b (List.mem_cons_of_mem _ hb),
      hrest.dropWhile]

theorem not_sign_of_isDigit (h : isDigit b = true) : ¬ (b = minus ∨ b = plus) := by
  rintro (rfl | rfl)
  · cases h
  · cases h

theorem skipExponent_digits (h : AreDigits bytes) (hrest : Ends rest) :
    skipExponent (bytes ++ rest) = .ok rest := by
  rcases h.exists_cons hrest.noDigit with ⟨d, ds, rfl, hd, hdrop⟩
  rw [List.cons_append, skipExponent, if_neg (not_sign_of_isDigit hd)]
  dsimp only
  rw [if_pos hd, hdrop]

theorem skipExponent_signed (hsign : b = minus ∨ b = plus) (h : AreDigits bytes)
    (hrest : Ends rest) : skipExponent (b :: (bytes ++ rest)) = .ok rest := by
  rcases h.exists_cons hrest.noDigit with ⟨d, ds, rfl, hd, hdrop⟩
  rw [skipExponent, if_pos hsign]
  dsimp only [List.cons_append]
  rw [if_pos hd, hdrop]

theorem skipTail_exponent (h : IsExponent bytes) (hrest : Ends rest) :
    skipTail (bytes ++ rest) = .ok rest := by
  cases h with
  | none =>
    cases rest with
    | nil => rfl
    | cons b rest => exact if_neg (Bool.eq_false_iff.1 hrest.2.2)
  | unsigned letter digits => exact (if_pos letter).trans (skipExponent_digits digits hrest)
  | signed letter sign digits => exact (if_pos letter).trans (skipExponent_signed sign digits hrest)

/-- Neither a digit nor a point can be taken for the letter of an exponent. -/
theorem of_isExponentLetter (h : isExponentLetter b = true) : isDigit b = false ∧ b ≠ point := by
  rcases Bool.or_eq_true_iff.1 h with hb | hb
  · rw [eq_of_beq hb]
    decide
  · rw [eq_of_beq hb]
    decide

theorem IsExponent.noDigit (h : IsExponent bytes) (hrest : Ends rest) :
    NoDigit (bytes ++ rest) := by
  cases h with
  | none => exact hrest.noDigit
  | unsigned letter digits => exact (of_isExponentLetter letter).1
  | signed letter sign digits => exact (of_isExponentLetter letter).1

theorem IsExponent.head?_ne_point (h : IsExponent bytes) (hrest : Ends rest) :
    (bytes ++ rest).head? ≠ some point := by
  have hletter : ∀ {e : UInt8}, isExponentLetter e = true → some e ≠ some point := by
    intro e he heq
    exact (of_isExponentLetter he).2 (Option.some.inj heq)
  -- without an exponent it is what follows the number that is no point
  cases h with
  | none =>
    cases rest with
    | nil => nofun
    | cons b rest =>
      intro heq
      exact hrest.2.1 (Option.some.inj heq)
  | unsigned letter digits => exact hletter letter
  | signed letter sign digits => exact hletter letter

/-- What is passed over behind the digits in front of the point. -/
def skipPlaces (bytes : List UInt8) : Except Fault (List UInt8) :=
  match bytes with
  | c :: tail =>
    if c = point then
      match tail with
      | d :: more => if isDigit d then skipTail (more.dropWhile isDigit) else .error .malformed
      | [] => .error .malformed
    else skipTail (c :: tail)
  | [] => .ok []

theorem skipPlaces_of_head?_ne (h : bytes.head? ≠ some point) :
    skipPlaces bytes = skipTail bytes := by
  cases bytes with
  | nil => rfl
  | cons b bytes =>
    have hb : b ≠ point := by
      rintro rfl
      exact h rfl
    exact if_neg hb

/-- The whole part of a number is passed over as far as its digits go. -/
theorem skipNumber_whole (h : IsWholePart bytes) (hrest : NoDigit rest) :
    skipNumber (bytes ++ rest) = skipPlaces rest := by
  cases h with
  | zero =>
    -- a zero is refused when a digit follows it
    have hled : ¬ ((0x30 : UInt8) = 0x30 ∧ rest.head?.any isDigit = true) := by
      rintro ⟨-, hany⟩
      rw [hrest] at hany
      cases hany
    rw [List.singleton_append, skipNumber]
    dsimp only
    rw [if_neg (by decide), if_neg hled, if_pos rfl]
    rfl
  | digits digits first =>
    rcases digits.exists_cons hrest with ⟨d, ds, rfl, hd, hdrop⟩
    -- digits that are kept do not begin with a zero
    have hzero : d ≠ 0x30 := by
      rintro rfl
      exact first rfl
    rw [List.cons_append, skipNumber, hd]
    dsimp only
    rw [if_neg (by decide), if_neg fun h => hzero h.1, if_neg hzero, hdrop]
    rfl

theorem skipPlaces_fraction {exponent : List UInt8} (h : IsFraction bytes)
    (hexponent : IsExponent exponent) (hrest : Ends rest) :
    skipPlaces (bytes ++ (exponent ++ rest)) = .ok rest := by
  have htail := skipTail_exponent hexponent hrest
  cases h with
  | none =>
    rw [List.nil_append, skipPlaces_of_head?_ne (hexponent.head?_ne_point hrest), htail]
  | places digits =>
    rcases digits.exists_cons (hexponent.noDigit hrest) with ⟨d, ds, rfl, hd, hdrop⟩
    have hplaces : skipPlaces (point :: d :: ds ++ (exponent ++ rest)) =
        if isDigit d then skipTail ((ds ++ (exponent ++ rest)).dropWhile isDigit)
        else .error .malformed := rfl
    rw [hplaces, if_pos hd, hdrop, htail]

/-- A number without a sign is passed over to its end. -/
theorem skipNumber_unsigned (h : IsUnsigned bytes) (hrest : Ends rest) :
    skipNumber (bytes ++ rest) = .ok rest := by
  rcases h with ⟨whole, fraction, exponent, hwhole, hfraction, hexponent, rfl⟩
  have hmore : NoDigit (fraction ++ (exponent ++ rest)) := by
    cases hfraction with
    | none => exact hexponent.noDigit hrest
    | places digits => rfl
  rw [List.append_assoc, List.append_assoc, skipNumber_whole hwhole hmore,
    skipPlaces_fraction hfraction hexponent hrest]

theorem IsUnsigned.exists_cons (h : IsUnsigned bytes) :
    ∃ d ds, bytes = d :: ds ∧ isDigit d = true := by
  rcases h with ⟨whole, fraction, exponent, hwhole, _, _, rfl⟩
  cases hwhole with
  | zero => exact ⟨0x30, _, rfl, rfl⟩
  | digits digits first =>
    have hnone : NoDigit [] := rfl
    rcases digits.exists_cons hnone with ⟨d, ds, rfl, hd, _⟩
    exact ⟨d, _, rfl, hd⟩

namespace Reader

/-! ## Values without an inside -/

/-- Passes over a value that is neither list nor record. -/
def passScalar (b : UInt8) : Reader Unit :=
  if b = quoteMark then passText
  else if beginsNumber b then passNumber b
  else
    match word? b with
    | some (letters, _) => do
      advance
      exactly letters
    | none => fail .malformed

/-- What begins a value begins it visibly, and closes no bracket. -/
def Begins (b : UInt8) : Prop := blankByte b = false ∧ b ≠ closeList ∧ b ≠ closeRecord

instance (b : UInt8) : Decidable (Begins b) :=
  inferInstanceAs (Decidable (blankByte b = false ∧ b ≠ closeList ∧ b ≠ closeRecord))

/-- Bytes that begin a value without an inside, which is passed over. -/
def IsScalar (bytes : List UInt8) : Prop :=
  ∃ b tail, bytes = b :: tail ∧ Begins b ∧ isOpening b = false ∧
    ∀ rest, Ends rest → passScalar b (bytes ++ rest) = .ok ((), rest)

theorem isScalar_text (h : IsText text) : IsScalar text := by
  have hpass := passText_isText h
  rcases h with ⟨pieces, hpieces, rfl⟩
  refine ⟨quoteMark, _, rfl, by decide, rfl, ?_⟩
  intro rest _
  rw [passScalar, if_pos rfl, hpass]

theorem begins_of_beginsNumber (h : beginsNumber b = true) : Begins b := by
  refine ⟨(of_beginsNumber h).1, ?_, ?_⟩
  · rintro rfl
    cases h
  · rintro rfl
    cases h

/-- From a sign or a digit on a number is passed over. -/
theorem passScalar_number (hb : beginsNumber b = true)
    (hpass : passNumber b text = .ok ((), rest)) : passScalar b text = .ok ((), rest) := by
  rw [passScalar, if_neg (of_beginsNumber hb).2.2, if_pos hb, hpass]

/-- A number is passed over at one go. -/
theorem isScalar_number (h : IsNumber bytes) : IsScalar bytes := by
  cases h with
  | positive unsigned =>
    rcases unsigned.exists_cons with ⟨d, ds, rfl, hd⟩
    have hfirst : beginsNumber d = true := by simp [beginsNumber, hd]
    refine ⟨d, ds, rfl, begins_of_beginsNumber hfirst, (of_beginsNumber hfirst).2.1, ?_⟩
    intro rest hrest
    apply passScalar_number hfirst
    -- a digit is no sign
    have hsign : d ≠ minus := fun h => not_sign_of_isDigit hd (Or.inl h)
    rw [passNumber, if_neg hsign]
    show (skipNumber (d :: ds ++ rest)).map _ = _
    rw [skipNumber_unsigned unsigned hrest]
    rfl
  | @negative bytes unsigned =>
    refine ⟨minus, bytes, rfl, by decide, rfl, ?_⟩
    intro rest hrest
    apply passScalar_number rfl
    have hdrop : advance (minus :: bytes ++ rest) = .ok ((), bytes ++ rest) := rfl
    rw [passNumber, if_pos rfl, bind_ok hdrop]
    dsimp only
    rw [skipNumber_unsigned unsigned hrest]
    rfl

theorem isScalar_letters {letters : List UInt8} {v : Json} (hword : word? b = some (letters, v))
    (hb : Begins b) (hopening : isOpening b = false) (hquote : b ≠ quoteMark)
    (hnumber : beginsNumber b = false) : IsScalar (b :: letters) := by
  refine ⟨b, letters, rfl, hb, hopening, ?_⟩
  intro rest _
  have hdrop : advance (b :: letters ++ rest) = .ok ((), letters ++ rest) := rfl
  rw [passScalar, if_neg hquote, if_neg (Bool.eq_false_iff.1 hnumber), hword]
  dsimp only
  rw [bind_ok hdrop, exactly_append]

theorem isScalar_word (h : bytes ∈ [ascii "null", ascii "true", ascii "false"]) :
    IsScalar bytes := by
  simp only [List.mem_cons, List.not_mem_nil, or_false] at h
  rcases h with rfl | rfl | rfl
  · have hbytes : ascii "null" = 0x6E :: ascii "ull" := by decide
    rw [hbytes]
    exact isScalar_letters rfl (by decide) rfl (by decide) rfl
  · have hbytes : ascii "true" = 0x74 :: ascii "rue" := by decide
    rw [hbytes]
    exact isScalar_letters rfl (by decide) rfl (by decide) rfl
  · have hbytes : ascii "false" = 0x66 :: ascii "alse" := by decide
    rw [hbytes]
    exact isScalar_letters rfl (by decide) rfl (by decide) rfl

/-! ## The loop -/

/-- How the loop goes on behind a finished value. -/
def proceed (bound : List UInt8) (outer : Open) : Reader Unit := do
  let opened ← passClosing outer
  if opened.isEmpty then pure () else passWithin bound opened

/-- What comes before the values inside a bracket: in a record there is a name. -/
def enter (bracket : UInt8) : Reader Unit :=
  if bracket = openRecord then passName else pure ()

/-- How the loop goes on in front of a value inside a bracket. -/
def enterWithin (bracket : UInt8) (bound : List UInt8) (outer : Open) : Reader Unit := do
  enter bracket
  passWithin bound (bracket :: outer)

variable {c x : UInt8} {bound : List UInt8} {outer : Open}

/-- A byte leads a text if there are only blanks before it. -/
theorem exists_gap_of_lead (h : lead bytes = .ok (b, text)) :
    ∃ gap, IsGap gap ∧ bytes = gap ++ text := by
  refine ⟨bytes.takeWhile blankByte, ?_, ?_⟩
  · intro x hx
    exact List.all_eq_true.1 List.all_takeWhile x hx
  · have hsplit := List.takeWhile_append_dropWhile (p := blankByte) (l := bytes)
    unfold lead at h
    split at h
    · cases h
    · next hdrop =>
      cases h
      rw [← hdrop, hsplit]

/-- Behind a gap a reader that begins with a look at the first byte does what it does without. -/
theorem lead_bind_gap {α : Type} (f : UInt8 → Reader α) (h : IsGap gap) (bytes : List UInt8) :
    (lead >>= f) (gap ++ bytes) = (lead >>= f) bytes := by
  show (lead (gap ++ bytes) >>= _) = (lead bytes >>= _)
  rw [lead_gap h]

theorem passWithin_gap (bound : List UInt8) (outer : Open) (h : IsGap gap) (bytes : List UInt8) :
    passWithin bound outer (gap ++ bytes) = passWithin bound outer bytes := by
  cases bound with
  | nil => rfl
  | cons x bound => exact lead_bind_gap _ h bytes

theorem enterWithin_gap (bracket : UInt8) (bound : List UInt8) (outer : Open) (h : IsGap gap)
    (bytes : List UInt8) :
    enterWithin bracket bound outer (gap ++ bytes) = enterWithin bracket bound outer bytes := by
  unfold enterWithin enter
  by_cases hrecord : bracket = openRecord
  · rw [if_pos hrecord]
    show (passName (gap ++ bytes) >>= _) = (passName bytes >>= _)
    rw [passName, lead_bind_gap _ h]
  · rw [if_neg hrecord]
    exact passWithin_gap bound (bracket :: outer) h bytes

/-- A value that opens nothing is passed over, and the part is done. -/
theorem passWithin_scalar (hlead : lead bytes = .ok (b, text)) (hb : isOpening b = false)
    (hpass : passScalar b text = .ok ((), rest)) :
    passWithin (x :: bound) outer bytes = proceed bound outer rest := by
  rw [passWithin, bind_ok hlead, if_neg (Bool.eq_false_iff.1 hb)]
  -- the loop asks for the first byte as `passScalar` does
  by_cases hquote : b = quoteMark
  · rw [passScalar, if_pos hquote] at hpass
    rw [if_pos hquote]
    exact bind_ok hpass
  by_cases hnumber : beginsNumber b = true
  · rw [passScalar, if_neg hquote, if_pos hnumber] at hpass
    rw [if_neg hquote, if_pos hnumber]
    exact bind_ok hpass
  rw [passScalar, if_neg hquote, if_neg hnumber] at hpass
  rw [if_neg hquote, if_neg hnumber]
  cases hword : word? b with
  | none =>
    rw [hword] at hpass
    cases hpass
  | some found =>
    rw [hword] at hpass
    have hdrop : advance text = .ok ((), text.tail) := rfl
    have hletters : exactly found.1 text.tail = .ok ((), rest) := hpass
    exact (bind_ok hdrop).trans (bind_ok hletters)

theorem Pair.blank (h : Pair b c) : blankByte b = false ∧ blankByte c = false := by
  cases h with
  | list => exact ⟨rfl, rfl⟩
  | record => exact ⟨rfl, rfl⟩

theorem Pair.isOpening (h : Pair b c) : isOpening b = true := by
  cases h with
  | list => rfl
  | record => rfl

/-- A bracket that is closed at once. -/
theorem passWithin_empty (h : Pair b c) (hgap : IsGap gap) (rest : List UInt8) :
    passWithin (x :: bound) outer (b :: (gap ++ c :: rest)) = proceed bound outer rest := by
  have hclosing := lead_gap_cons hgap h.blank.2 rest
  have hopens : (b = openList ∧ c = closeList) ∨ (b = openRecord ∧ c = closeRecord) := by
    cases h with
    | list => exact Or.inl ⟨rfl, rfl⟩
    | record => exact Or.inr ⟨rfl, rfl⟩
  have hdrop : ∀ (d : UInt8) (ds : List UInt8), advance (d :: ds) = .ok ((), ds) := fun _ _ => rfl
  rw [passWithin, bind_ok (lead_cons h.blank.1), if_pos h.isOpening, bind_ok (hdrop _ _),
    bind_ok hclosing, if_pos hopens, bind_ok (hdrop _ _)]
  rfl

/-- A bracket that is not. -/
theorem passWithin_open (h : Pair b c) {d : UInt8} (hlead : lead bytes = .ok (d, text))
    (hd : Begins d) :
    passWithin (x :: bound) outer (b :: bytes) = enterWithin b bound outer bytes := by
  -- what begins a value does not close the bracket
  have hgoes : ¬ ((b = openList ∧ d = closeList) ∨ (b = openRecord ∧ d = closeRecord)) := by
    rintro (⟨-, hclose⟩ | ⟨-, hclose⟩)
    · exact hd.2.1 hclose
    · exact hd.2.2 hclose
  have hdrop : advance (b :: bytes) = .ok ((), bytes) := rfl
  rw [passWithin, bind_ok (lead_cons h.blank.1), if_pos h.isOpening, bind_ok hdrop,
    bind_ok hlead, if_neg hgoes]
  -- the blanks behind the bracket make no difference to how the first part is entered
  rcases exists_gap_of_lead hlead with ⟨gap, hgap, rfl⟩
  rw [enterWithin_gap b bound outer hgap, enterWithin, enter]
  by_cases hrecord : b = openRecord
  · rw [if_pos hrecord, if_pos hrecord]
    rfl
  · rw [if_neg hrecord, if_neg hrecord]
    rfl

/-- Where a bracket closes, the part around it is done. -/
theorem proceed_close (h : Pair b c) (hgap : IsGap gap) (rest : List UInt8) :
    proceed bound (b :: outer) (gap ++ c :: rest) = proceed bound outer rest := by
  have hclosing := lead_gap_cons hgap h.blank.2 rest
  have hdrop : advance (c :: rest) = .ok ((), rest) := rfl
  have hclosed : passClosing (b :: outer) (gap ++ c :: rest) = passClosing outer rest := by
    rw [passClosing, bind_ok hclosing]
    cases h with
    | list => exact bind_ok hdrop
    | record => exact bind_ok hdrop
  show (passClosing (b :: outer) (gap ++ c :: rest) >>= _) = (passClosing outer rest >>= _)
  rw [hclosed]

/-- Where a comma follows, there is another part within the same bracket. -/
theorem proceed_comma (hgap : IsGap gap) (rest : List UInt8) :
    proceed bound (b :: outer) (gap ++ comma :: rest) = enterWithin b bound outer rest := by
  have hdrop : advance (comma :: rest) = .ok ((), rest) := rfl
  -- nothing closes before the comma
  have hclosed : passClosing (b :: outer) (gap ++ comma :: rest) =
      (enter b >>= fun _ => pure (b :: outer)) rest := by
    rw [passClosing, bind_ok (lead_gap_cons hgap rfl rest), if_pos rfl, bind_ok hdrop, enter]
    by_cases hrecord : b = openRecord
    · rw [if_pos hrecord, if_pos hrecord]
    · rw [if_neg hrecord, if_neg hrecord]
      rfl
  show (passClosing (b :: outer) (gap ++ comma :: rest) >>= _) = (enter b rest >>= _)
  rw [hclosed]
  show ((enter b rest >>= _) >>= _) = (enter b rest >>= _)
  cases enter b rest with
  | error f => rfl
  | ok _ => rfl

/-! ## Lists and records -/

/-- Bytes that begin visibly and are passed over in as many rounds at most as there are of them,
from wherever they stand. -/
structure Passes (bytes : List UInt8) : Prop where
  begins : ∃ d tail, bytes = d :: tail ∧ Begins d
  rounds : ∃ n ≤ bytes.length, ∀ (bound : List UInt8) (outer : Open) (rest : List UInt8),
    Ends rest → n ≤ bound.length →
      passWithin bound outer (bytes ++ rest) = proceed (bound.drop n) outer rest

/-- A part that is passed over inside a bracket. -/
structure PartPasses (bracket : UInt8) (p : Part) : Prop where
  enters : ∀ text, enter bracket (p.front ++ text) = .ok ((), text)
  begins : ∀ text, ∃ d more, lead (p.bytes ++ text) = .ok (d, more) ∧ Begins d
  value : Passes p.value.inner

theorem length_inner_le (p : Part) : p.value.inner.length ≤ p.bytes.length := by
  simp only [Part.bytes, Padded.bytes, List.length_append]
  omega

/-- A part is entered by what stands before its value. -/
theorem enterWithin_part {p : Part} (h : PartPasses b p) (more : List UInt8) :
    enterWithin b bound outer (p.bytes ++ more) =
      passWithin bound (b :: outer) (p.value.inner ++ (p.value.after ++ more)) := by
  have hbytes : p.bytes ++ more =
      p.front ++ (p.value.before ++ (p.value.inner ++ (p.value.after ++ more))) := by
    simp only [Part.bytes, Padded.bytes, List.append_assoc]
  rw [hbytes, enterWithin, bind_ok (h.enters _), passWithin_gap _ _ p.value.blankBefore]

theorem IsScalar.passes (h : IsScalar bytes) : Passes bytes := by
  rcases h with ⟨d, tail, rfl, hd, hopening, hpass⟩
  refine ⟨⟨d, tail, rfl, hd⟩, 1, by simp, ?_⟩
  intro bound outer rest hrest hbound
  cases bound with
  | nil => cases hbound
  | cons x bound => exact passWithin_scalar (lead_cons hd.1) hopening (hpass rest hrest)

/-- The parts of a list or record are passed over up to its closing bracket. -/
theorem passes_parts (h : Pair b c) (p : Part) (ps : List Part)
    (hparts : ∀ q ∈ p :: ps, PartPasses b q) :
    ∃ n ≤ (p.bytes ++ later c (ps.map Part.bytes) []).length,
      ∀ (bound : List UInt8) (outer : Open) (rest : List UInt8), n ≤ bound.length →
        enterWithin b bound outer (p.bytes ++ later c (ps.map Part.bytes) rest) =
          proceed (bound.drop n) outer rest := by
  -- one part is passed over in its own rounds, and the parts behind it in the rounds that are left
  induction ps generalizing p with
  | nil =>
    have hp := hparts p List.mem_cons_self
    rcases hp.value.rounds with ⟨n, hn, hrounds⟩
    have hlength := length_inner_le p
    refine ⟨n, by rw [List.length_append]; omega, ?_⟩
    intro bound outer rest hbound
    have hends := ends_gap p.value.blankAfter (h.ends_later [] rest)
    rw [enterWithin_part hp, List.map_nil, hrounds _ _ _ hends hbound]
    exact proceed_close h p.value.blankAfter rest
  | cons q ps ih =>
    have hp := hparts p List.mem_cons_self
    rcases hp.value.rounds with ⟨n, hn, hrounds⟩
    rcases ih q fun r hr => hparts r (List.mem_cons_of_mem _ hr) with ⟨k, hk, hmore⟩
    have hlength := length_inner_le p
    refine ⟨n + k, ?_, ?_⟩
    · simp only [List.map_cons, later, List.length_append, List.length_cons] at hk ⊢
      omega
    · intro bound outer rest hbound
      have hends := ends_gap p.value.blankAfter (h.ends_later ((q :: ps).map Part.bytes) rest)
      have hleft : k ≤ (bound.drop n).length := by
        rw [List.length_drop]
        omega
      rw [enterWithin_part hp, hrounds _ _ _ hends (by omega), List.map_cons, later,
        proceed_comma p.value.blankAfter, hmore _ _ _ hleft, List.drop_drop]

theorem Pair.begins (h : Pair b c) : Begins b := by
  cases h with
  | list => decide
  | record => decide

/-- A list or a record is passed over if its parts are. -/
theorem passes_bracketed (h : Pair b c) (parts : List Part)
    (hparts : ∀ q ∈ parts, PartPasses b q) (hbytes : Bracketed b c (parts.map Part.bytes) bytes) :
    Passes bytes := by
  rcases hbytes with ⟨inside, hinside, rfl⟩
  refine ⟨⟨b, _, rfl, h.begins⟩, ?_⟩
  cases parts with
  | nil =>
    cases hinside with
    | nothing blank =>
      refine ⟨1, by simp, ?_⟩
      intro bound outer rest _ hbound
      cases bound with
      | nil => cases hbound
      | cons x bound =>
        rw [List.cons_append, List.append_assoc, List.singleton_append]
        exact passWithin_empty h blank rest
  | cons p ps =>
    rcases passes_parts h p ps hparts with ⟨n, hn, hrounds⟩
    cases hinside with
    | parts =>
      have hjoined : ∀ rest, joinItems (p.bytes :: ps.map Part.bytes) ++ [c] ++ rest =
          p.bytes ++ later c (ps.map Part.bytes) rest := by
        intro rest
        rw [List.append_assoc, List.singleton_append, joinItems_later]
      -- the opening bracket takes a round of its own
      refine ⟨n + 1, ?_, ?_⟩
      · rw [← hjoined [], List.append_nil] at hn
        simpa using hn
      · intro bound outer rest _ hbound
        cases bound with
        | nil => cases hbound
        | cons x bound =>
          have hp := hparts p List.mem_cons_self
          rcases hp.begins (later c (ps.map Part.bytes) rest) with ⟨d, more, hlead, hd⟩
          rw [List.cons_append, hjoined, passWithin_open h hlead hd,
            hrounds _ _ _ (Nat.le_of_succ_le_succ hbound)]
          rfl

/-- An item of a list is a part with nothing before it. -/
theorem partPasses_item {i : Padded} (h : Passes i.inner) : PartPasses openList ⟨[], i⟩ := by
  refine ⟨fun text => rfl, ?_, h⟩
  intro text
  rcases h.begins with ⟨d, tail, hinner, hd⟩
  refine ⟨d, d :: (tail ++ (i.after ++ text)), ?_, hd⟩
  have hbytes : Part.bytes ⟨[], i⟩ ++ text = i.before ++ (d :: (tail ++ (i.after ++ text))) := by
    simp [Part.bytes, Padded.bytes, hinner]
  rw [hbytes, lead_gap_cons i.blankBefore hd.1]

/-- With a name in front of it, and the colon, a value is the part of a record. -/
def entryPart (e : Entry) : Part := ⟨e.label.bytes ++ [colon], e.value⟩

theorem bytes_entryPart (e : Entry) : (entryPart e).bytes = e.bytes := by
  rw [Part.bytes, entryPart, Entry.bytes, List.append_assoc, List.singleton_append]

/-- A field of a record is a part with its name and a colon before it. -/
theorem partPasses_entry {e : Entry} (hlabel : IsText e.label.inner) (h : Passes e.value.inner) :
    PartPasses openRecord (entryPart e) := by
  have hfirst : ∃ tail, e.label.inner = quoteMark :: tail := by
    rcases hlabel with ⟨pieces, _, hinner⟩
    exact ⟨_, hinner⟩
  -- the name begins with its quote, and the colon follows behind blanks
  have hlead : ∀ text, lead (e.label.bytes ++ colon :: text) =
      .ok (quoteMark, e.label.inner ++ (e.label.after ++ colon :: text)) := by
    intro text
    rcases hfirst with ⟨tail, hinner⟩
    rw [Padded.bytes, List.append_assoc, hinner, List.append_assoc, List.cons_append,
      lead_gap_cons e.label.blankBefore rfl]
  refine ⟨?_, ?_, h⟩
  · intro text
    have hbytes : (entryPart e).front ++ text = e.label.bytes ++ colon :: text := by
      rw [entryPart, List.append_assoc, List.singleton_append]
    rw [hbytes, enter, if_pos rfl, passName, bind_ok (hlead text), if_pos rfl,
      bind_ok (passText_isText hlabel _), separator_gap e.label.blankAfter]
  · intro text
    have hbytes : (entryPart e).bytes ++ text =
        e.label.bytes ++ colon :: (e.value.bytes ++ text) := by
      rw [bytes_entryPart, Entry.bytes, List.append_assoc, List.cons_append]
    exact ⟨quoteMark, _, hbytes ▸ hlead _, by decide⟩

/-- Every value is passed over. -/
theorem passes_value (h : IsValue bytes) : Passes bytes := by
  induction h with
  | word word => exact (isScalar_word word).passes
  | number number => exact (isScalar_number number).passes
  | text text => exact (isScalar_text text).passes
  | @list items bytes list values ih =>
    -- the items are the parts, and they pass by induction
    refine passes_bracketed .list (items.map fun i => ⟨[], i⟩) ?_ ?_
    · intro q hq
      rcases List.mem_map.1 hq with ⟨i, hi, rfl⟩
      exact partPasses_item (ih i hi)
    · rw [List.map_map]
      exact list
  | @record entries bytes record labels values ih =>
    -- so are the fields, whose names are passed over without being read
    refine passes_bracketed .record (entries.map entryPart) ?_ ?_
    · intro q hq
      rcases List.mem_map.1 hq with ⟨e, he, rfl⟩
      exact partPasses_entry (labels e he) (ih e he)
    · have hbytes : (entries.map entryPart).map Part.bytes = entries.map (·.bytes) := by
        rw [List.map_map]
        exact List.map_congr_left fun e _ => bytes_entryPart e
      rw [hbytes]
      exact record

/-- A value is passed over to its end, wherever it stands. -/
theorem skip_value (h : IsValue bytes) (hgap : IsGap gap) (hrest : Ends rest) :
    skip (gap ++ (bytes ++ rest)) = .ok ((), rest) := by
  rcases (passes_value h).rounds with ⟨n, hn, hrounds⟩
  have hbound : n ≤ (gap ++ (bytes ++ rest)).length := by
    simp only [List.length_append]
    omega
  have hremaining : ∀ all, remaining all = .ok (all, all) := fun _ => rfl
  -- there are as many rounds as bytes are left, which is enough, and no bracket is open behind them
  rw [skip, bind_ok (hremaining _), passWithin_gap _ _ hgap, hrounds _ _ _ hrest hbound]
  rfl

end Reader

end TraceLoad.Json
