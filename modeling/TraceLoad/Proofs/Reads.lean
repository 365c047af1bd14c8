import TraceLoad.Proofs.Spelling

/-! # Readers undo writers

`Reads r bytes x` says that the reader `r` takes `bytes` from the front of any text and makes `x` of
them. Readers of texts, numbers, words, optional parts and records undo what is written by the
writers of the same names. A record is read by a loop that gathers one field after the other:
`Fills` says what comes of that however the record is written (`members_isRecord`), and `Gathers`
when it is in compact form; a reader of records has only to be shown to gather.
-/

namespace TraceLoad.Json

namespace Reader

variable {α β : Type} {b : UInt8} {bytes gap rest : List UInt8} {name : String}

/-- The value is read from these bytes, whatever stands behind them that goes on with no number. -/
def Reads (r : Reader α) (bytes : List UInt8) (x : α) : Prop :=
  ∀ rest, Ends rest → r (bytes ++ rest) = .ok (x, rest)

theorem bind_ok {r : Reader α} {f : α → Reader β} {x : α} (h : r bytes = .ok (x, rest)) :
    (r >>= f) bytes = f x rest := by
  show (r bytes >>= fun y => f y.1 y.2) = _
  rw [h]
  rfl

theorem map_ok {r : Reader α} {x : α} (h : r bytes = .ok (x, rest)) (f : α → β) :
    (f <$> r) bytes = .ok (f x, rest) := by
  show (r bytes >>= fun y => Except.ok (f y.1, y.2)) = _
  rw [h]
  rfl

theorem Reads.map {r : Reader α} {x : α} (h : Reads r bytes x) (f : α → β) :
    Reads (f <$> r) bytes (f x) := fun rest hrest => map_ok (h rest hrest) f

theorem lead_cons (h : blankByte b = false) : lead (b :: rest) = .ok (b, b :: rest) := by
  rw [lead, List.dropWhile_cons_of_neg (Bool.eq_false_iff.1 h)]

/-- Blanks lead to what stands behind them. -/
theorem lead_gap (h : IsGap gap) (bytes : List UInt8) : lead (gap ++ bytes) = lead bytes := by
  rw [lead, lead, List.dropWhile_append_of_pos h]

/-- The first byte behind a gap. -/
theorem lead_gap_cons (hgap : IsGap gap) (hb : blankByte b = false) (rest : List UInt8) :
    lead (gap ++ b :: rest) = .ok (b, b :: rest) := by
  rw [lead_gap hgap, lead_cons hb]

/-! ## Texts -/

theorem exists_cons_of_isTextOf (h : IsTextOf name bytes) : ∃ tail, bytes = quoteMark :: tail := by
  rcases h with ⟨pieces, _, rfl⟩
  exact ⟨_, rfl⟩

/-- A text is read whichever way it is written. -/
theorem quoted_isTextOf (h : IsTextOf name bytes) (rest : List UInt8) :
    quoted (bytes ++ rest) = .ok (name, rest) := by
  rcases h with ⟨pieces, hpieces, rfl⟩
  have hdrop : advance (quoteMark :: (pieces.flatten ++ [quoteMark]) ++ rest) =
      .ok ((), pieces.flatten ++ quoteMark :: rest) := by
    simp [advance]
  rw [quoted, bind_ok hdrop, bind_ok (scanText_pieces hpieces rest), ← toList_toUTF8,
    textOfBytes?_toUTF8]
  rfl

/-- In front of a text stand its quotes. -/
theorem lead_isTextOf (h : IsTextOf name bytes) (hgap : IsGap gap) (rest : List UInt8) :
    lead (gap ++ (bytes ++ rest)) = .ok (quoteMark, bytes ++ rest) := by
  rcases exists_cons_of_isTextOf h with ⟨tail, rfl⟩
  exact lead_gap_cons hgap rfl (tail ++ rest)

theorem text_isTextOf (h : IsTextOf name bytes) (hgap : IsGap gap) (rest : List UInt8) :
    text (gap ++ (bytes ++ rest)) = .ok (name, rest) := by
  rw [text, bind_ok (lead_isTextOf h hgap rest), if_pos rfl, quoted_isTextOf h]

theorem reads_text (s : String) : Reads text (writeText s) s := by
  intro rest _
  show text ([] ++ (writeText s ++ rest)) = _
  exact text_isTextOf (isTextOf_writeText s) isGap_nil rest

/-- The letters of a word are read as they stand. -/
theorem exactly_append (letters rest : List UInt8) :
    exactly letters (letters ++ rest) = .ok ((), rest) := by
  induction letters with
  | nil => cases rest <;> rfl
  | cons b letters ih =>
    rw [List.cons_append, exactly, if_pos rfl]
    exact ih

/-! ## Whole numbers -/

/-- The numbers that are kept as whole numbers. -/
def IsWhole (n : Int) : Prop := -(UInt64.size / 2 : Nat) ≤ n ∧ n < UInt64.size

/-- What begins a number begins nothing else. -/
theorem of_beginsNumber (h : beginsNumber b = true) :
    blankByte b = false ∧ isOpening b = false ∧ b ≠ quoteMark := by
  have hall : ∀ n : Fin 256, beginsNumber (UInt8.ofNat n) = true →
      blankByte (UInt8.ofNat n) = false ∧ isOpening (UInt8.ofNat n) = false ∧
        UInt8.ofNat n ≠ quoteMark := by
    decide +kernel
  have hb := hall ⟨b.toNat, b.toNat_lt⟩
  rw [UInt8.ofNat_toNat] at hb
  exact hb h

/-- A number is written with one digit at least. -/
theorem exists_writeNat_eq_cons (n : Nat) :
    ∃ b bytes, writeNat n = b :: bytes ∧ isDigit b = true := by
  cases hdigits : Nat.toDigits 10 n with
  | nil => exact absurd hdigits Nat.toDigits_ne_nil
  | cons c cs =>
    have hc : c.isDigit = true :=
      Nat.isDigit_of_mem_toDigits (by decide) (by decide) (hdigits ▸ List.mem_cons_self)
    exact ⟨_, _, by rw [writeNat, hdigits, List.map_cons], (isDigit_ofNat hc).1⟩

/-- A whole number begins with a digit or the sign, and is read from there on. -/
theorem number_writeInt {n : Int} (hn : IsWhole n) (hrest : Ends rest) :
    ∃ b bytes, writeInt n = b :: bytes ∧ beginsNumber b = true ∧
      number b (writeInt n ++ rest) = .ok (.whole n, rest) := by
  obtain ⟨hlow, hhigh⟩ := hn
  -- a sign is written for negative numbers only
  by_cases hneg : n < 0
  · refine ⟨minus, writeNat n.natAbs, if_pos hneg, rfl, ?_⟩
    -- the value is taken back from its size and sign, which lies within the bounds
    have hwhole : wholeNumber true n.natAbs = .whole n := by
      rw [wholeNumber, if_pos rfl, if_neg (by omega)]
      congr 1
      omega
    have hdrop : advance (minus :: writeNat n.natAbs ++ rest) =
        .ok ((), writeNat n.natAbs ++ rest) := rfl
    rw [writeInt, if_pos hneg, number, if_pos rfl]
    exact (bind_ok hdrop).trans (hwhole ▸ scanNumber_writeNat true (by omega) hrest)
  · obtain ⟨b, bytes, hbytes, hdigit⟩ := exists_writeNat_eq_cons n.natAbs
    -- a digit is no sign
    have hsign : b ≠ minus := by
      rintro rfl
      cases hdigit
    have hwhole : wholeNumber false n.natAbs = .whole n := by
      rw [wholeNumber, if_neg (by decide)]
      congr 1
      omega
    refine ⟨b, bytes, by rw [writeInt, if_neg hneg, hbytes], by simp [beginsNumber, hdigit], ?_⟩
    rw [writeInt, if_neg hneg, number, if_neg hsign]
    exact hwhole ▸ scanNumber_writeNat false (by omega) hrest

/-- A natural number of 64 bits is read back. -/
theorem reads_natural (n : UInt64) : Reads natural (writeNat n.toNat) n := by
  intro rest hrest
  have hn : IsWhole n.toNat := ⟨by omega, Int.ofNat_lt.2 n.toNat_lt⟩
  have hbytes : writeInt n.toNat = writeNat n.toNat := if_neg (by omega)
  obtain ⟨b, bytes, hcons, hfirst, hnumber⟩ := number_writeInt hn hrest
  rw [hbytes] at hcons hnumber
  have hlead : lead (writeNat n.toNat ++ rest) = .ok (b, writeNat n.toNat ++ rest) := by
    rw [hcons]
    exact lead_cons (of_beginsNumber hfirst).1
  rw [natural, bind_ok hlead, if_pos hfirst, bind_ok hnumber]
  dsimp only
  rw [if_pos (by omega), Int.toNat_natCast, UInt64.ofNat_toNat]
  rfl

/-! ## Values -/

/-- A value that opens nothing is read as a scalar. -/
theorem value_eq_scalar {room : Nat} (hlead : lead bytes = .ok (b, bytes))
    (hb : isOpening b = false) : value room bytes = scalar b bytes := by
  cases room with
  | zero => rw [value, bind_ok hlead, if_neg (Bool.eq_false_iff.1 hb)]
  | succ room =>
    have hlist : b ≠ openList := by
      rintro rfl
      cases hb
    have hrecord : b ≠ openRecord := by
      rintro rfl
      cases hb
    rw [value, bind_ok hlead, if_neg hlist, if_neg hrecord]

/-- A text is read back as a value. -/
theorem reads_value_text (room : Nat) (s : String) :
    Reads (value room) (writeText s) (.text s) := by
  intro rest _
  have hlead : lead (writeText s ++ rest) = .ok (quoteMark, writeText s ++ rest) := lead_cons rfl
  rw [value_eq_scalar hlead rfl, scalar, if_pos rfl,
    bind_ok (quoted_isTextOf (isTextOf_writeText s) rest)]
  rfl

/-- A whole number is read back as a value. -/
theorem reads_value_whole (room : Nat) {n : Int} (hn : IsWhole n) :
    Reads (value room) (writeInt n) (.number (.whole n)) := by
  intro rest hrest
  obtain ⟨b, bytes, hcons, hfirst, hnumber⟩ := number_writeInt hn hrest
  have hlead : lead (writeInt n ++ rest) = .ok (b, writeInt n ++ rest) := by
    rw [hcons]
    exact lead_cons (of_beginsNumber hfirst).1
  obtain ⟨-, hopening, hquote⟩ := of_beginsNumber hfirst
  rw [value_eq_scalar hlead hopening, scalar, if_neg hquote, if_pos hfirst, bind_ok hnumber]
  rfl

theorem reads_value_word (room : Nat) {letters : List UInt8} {v : Json}
    (hword : word? b = some (letters, v)) (hblank : blankByte b = false)
    (hopening : isOpening b = false) (hquote : b ≠ quoteMark) (hnumber : beginsNumber b = false) :
    Reads (value room) (b :: letters) v := by
  intro rest _
  have hlead : lead (b :: letters ++ rest) = .ok (b, b :: letters ++ rest) := lead_cons hblank
  have hdrop : advance (b :: letters ++ rest) = .ok ((), letters ++ rest) := rfl
  rw [value_eq_scalar hlead hopening, scalar, if_neg hquote, if_neg (Bool.eq_false_iff.1 hnumber),
    hword]
  dsimp only
  rw [bind_ok hdrop, bind_ok (exactly_append letters rest)]
  rfl

/-- A flag is read back as a value. -/
theorem reads_value_flag (room : Nat) (flag : Bool) :
    Reads (value room) (Json.flag flag).write (.flag flag) := by
  cases flag with
  | true =>
    have hbytes : (Json.flag true).write = 0x74 :: ascii "rue" := by decide
    rw [hbytes]
    exact reads_value_word room rfl rfl rfl (by decide) rfl
  | false =>
    have hbytes : (Json.flag false).write = 0x66 :: ascii "alse" := by decide
    rw [hbytes]
    exact reads_value_word room rfl rfl rfl (by decide) rfl

/-! ## Optional parts -/

/-- What is missing is read from `null`. -/
theorem reads_optional_none (r : Reader α) : Reads (optional r) (ascii "null") none := by
  intro rest _
  have hbytes : ascii "null" ++ rest = 0x6E :: (ascii "ull" ++ rest) := by
    have hletters : ascii "null" = 0x6E :: ascii "ull" := by decide
    rw [hletters, List.cons_append]
  have hlead : lead (0x6E :: (ascii "ull" ++ rest)) = .ok (0x6E, 0x6E :: (ascii "ull" ++ rest)) :=
    lead_cons rfl
  have hdrop : advance (0x6E :: (ascii "ull" ++ rest)) = .ok ((), ascii "ull" ++ rest) := rfl
  rw [hbytes, optional, bind_ok hlead, if_pos rfl, bind_ok hdrop, bind_ok (exactly_append _ rest)]
  rfl

/-- What is there is read as it is, if it cannot be taken for `null`. -/
theorem Reads.optional {r : Reader α} {x : α} (h : Reads r bytes x) (hhead : bytes.head? = some b)
    (hblank : blankByte b = false) (hletter : b ≠ 0x6E) :
    Reads (Reader.optional r) bytes (some x) := by
  intro rest hrest
  have hlead : lead (bytes ++ rest) = .ok (b, bytes ++ rest) := by
    obtain ⟨tail, rfl⟩ := List.head?_eq_some_iff.1 hhead
    exact lead_cons hblank
  rw [Reader.optional, bind_ok hlead, if_neg hletter]
  exact h.map some rest hrest

/-! ## Parts between brackets -/

/-- An opening bracket and the closing one that belongs to it. -/
inductive Pair : UInt8 → UInt8 → Prop where
  | list : Pair openList closeList
  | record : Pair openRecord closeRecord

variable {c : UInt8}

/-- What stands behind a part: a comma and the next part, and so on, and the closing bracket. -/
def later (closing : UInt8) (parts : List (List UInt8)) (rest : List UInt8) : List UInt8 :=
  match parts with
  | [] => closing :: rest
  | part :: parts => comma :: (part ++ later closing parts rest)

theorem joinItems_later (closing : UInt8) (part : List UInt8) (parts : List (List UInt8))
    (rest : List UInt8) :
    joinItems (part :: parts) ++ closing :: rest = part ++ later closing parts rest := by
  induction parts generalizing part with
  | nil => rfl
  | cons next parts ih =>
    rw [joinItems, List.append_assoc, List.cons_append, ih, later]
    nofun

theorem ends_gap (hgap : IsGap gap) (h : Ends rest) : Ends (gap ++ rest) := by
  cases gap with
  | nil => exact h
  | cons b gap =>
    have hb := hgap b List.mem_cons_self
    simp only [blankByte, Bool.or_eq_true, beq_iff_eq] at hb
    rcases hb with ((rfl | rfl) | rfl) | rfl
    · exact ⟨rfl, by decide, rfl⟩
    · exact ⟨rfl, by decide, rfl⟩
    · exact ⟨rfl, by decide, rfl⟩
    · exact ⟨rfl, by decide, rfl⟩

theorem Pair.ends_later (h : Pair b c) (parts : List (List UInt8)) (rest : List UInt8) :
    Ends (later c parts rest) := by
  cases parts with
  | nil =>
    cases h with
    | list => exact ⟨rfl, by decide, rfl⟩
    | record => exact ⟨rfl, by decide, rfl⟩
  | cons part parts => exact ⟨rfl, by decide, rfl⟩

/-- There are more bytes than parts. -/
theorem length_lt_later (closing : UInt8) (parts : List (List UInt8)) (rest : List UInt8) :
    parts.length < (later closing parts rest).length := by
  induction parts with
  | nil => simp [later]
  | cons part parts ih =>
    simp only [later, List.length_cons, List.length_append]
    omega

/-- There are fewer parts than bytes, so that the bytes serve as a bound. -/
theorem length_lt_between {parts : List (List UInt8)} {inside : List UInt8}
    (h : Between parts inside) (hne : ∀ part ∈ parts, part ≠ []) (closing : UInt8)
    (rest : List UInt8) : parts.length < (inside ++ closing :: rest).length := by
  cases h with
  | nothing blank => simp
  | @parts part parts =>
    have hpart := List.length_pos_iff.2 (hne part List.mem_cons_self)
    have hlater := length_lt_later closing parts rest
    rw [joinItems_later, List.length_append, List.length_cons]
    omega

theorem advance_bracketed (opening closing : UInt8) (inside rest : List UInt8) :
    advance (opening :: (inside ++ [closing]) ++ rest) = .ok ((), inside ++ closing :: rest) := by
  simp [advance]

/-! ## Records -/

variable {σ : Type} {field : σ → String → Except Fault (Reader σ)} {s s' : σ} {fs : List Field}

/-- The fields of a record are read one after the other into what has been gathered. -/
inductive Fills (field : σ → String → Except Fault (Reader σ)) : σ → List Field → σ → Prop where
  | nil {s : σ} : Fills field s [] s
  | cons {s s₁ s' : σ} {f : Field} {value : Reader σ} {fs : List Field}
      (known : field s f.name = .ok value)
      (reads : Reads value (f.value.before ++ f.value.inner) s₁)
      (others : Fills field s₁ fs s') : Fills field s (f :: fs) s'

theorem separator_gap (h : IsGap gap) (rest : List UInt8) :
    separator (gap ++ colon :: rest) = .ok ((), rest) := by
  rw [separator, bind_ok (lead_gap_cons h rfl rest), if_pos rfl]
  rfl

/-- At the closing bracket there is no further name. -/
theorem nextName_end (hgap : IsGap gap) (first : Bool) (rest : List UInt8) :
    nextName first (gap ++ closeRecord :: rest) = .ok (none, rest) := by
  rw [nextName, bind_ok (lead_gap_cons hgap rfl rest), if_pos rfl]
  rfl

theorem lead_label (f : Field) (more : List UInt8) :
    lead (f.label.bytes ++ more) = .ok (quoteMark, f.label.inner ++ (f.label.after ++ more)) := by
  rw [Padded.bytes, List.append_assoc, List.append_assoc]
  exact lead_isTextOf f.spelled f.label.blankBefore _

/-- The first name follows without a comma. -/
theorem nextName_label (f : Field) (more : List UInt8) :
    nextName true (f.label.bytes ++ more) = .ok (some f.name, f.label.after ++ more) := by
  rw [nextName, bind_ok (lead_label f more), if_neg (by decide)]
  exact map_ok (quoted_isTextOf f.spelled _) some

/-- Any later name follows a comma. -/
theorem nextName_comma (hgap : IsGap gap) (f : Field) (more : List UInt8) :
    nextName false (gap ++ comma :: (f.label.bytes ++ more)) =
      .ok (some f.name, f.label.after ++ more) := by
  have hdrop : advance (comma :: (f.label.bytes ++ more)) = .ok ((), f.label.bytes ++ more) := rfl
  rw [nextName, bind_ok (lead_gap_cons hgap rfl _), if_neg (by decide), if_neg (by decide),
    if_pos rfl, bind_ok hdrop, bind_ok (lead_label f more)]
  exact map_ok (quoted_isTextOf f.spelled _) some

/-- One field of a record is read, and then those behind it. -/
theorem membersWithin_entry {f : Field} {first : Bool} {value : Reader σ} {s₁ : σ}
    {bound more : List UInt8}
    (hname : nextName first bytes =
      .ok (some f.name, f.label.after ++ colon :: (f.value.bytes ++ more)))
    (hknown : field s f.name = .ok value)
    (hreads : Reads value (f.value.before ++ f.value.inner) s₁)
    (hends : Ends (f.value.after ++ more)) :
    membersWithin field (b :: bound) first s bytes =
      membersWithin field bound false s₁ (f.value.after ++ more) := by
  -- the blanks before a value belong to what is read, those behind it to the rest
  have hvalue : f.value.bytes ++ more =
      f.value.before ++ f.value.inner ++ (f.value.after ++ more) := by
    simp only [Padded.bytes, List.append_assoc]
  rw [membersWithin, bind_ok hname]
  dsimp only
  rw [hknown]
  dsimp only
  rw [bind_ok (separator_gap f.label.blankAfter _), hvalue, bind_ok (hreads _ hends)]

theorem bytes_toEntry_append (f : Field) (more : List UInt8) :
    f.toEntry.bytes ++ more = f.label.bytes ++ colon :: (f.value.bytes ++ more) := by
  rw [Entry.bytes, List.append_assoc, List.cons_append]

/-- The fields behind the first are read one by one up to the closing bracket. -/
theorem membersWithin_later (h : Fills field s fs s') {bound : List UInt8}
    (hbound : fs.length < bound.length) (hgap : IsGap gap) (rest : List UInt8) :
    membersWithin field bound false s
      (gap ++ later closeRecord ((fs.map (·.toEntry)).map (·.bytes)) rest) = .ok (s', rest) := by
  induction h generalizing bound gap with
  | nil =>
    cases bound with
    | nil => cases hbound
    | cons b bound =>
      rw [membersWithin, List.map_nil, List.map_nil, later, bind_ok (nextName_end hgap false rest)]
      rfl
  | @cons s s₁ s' f value fs known reads _ ih =>
    cases bound with
    | nil => cases hbound
    | cons b bound =>
      -- a value ends where a comma or a bracket follows
      have hends := ends_gap f.value.blankAfter
        (Pair.record.ends_later ((fs.map (·.toEntry)).map (·.bytes)) rest)
      rw [List.map_cons, List.map_cons, later, bytes_toEntry_append,
        membersWithin_entry (nextName_comma hgap f _) known reads hends]
      exact ih (Nat.lt_of_succ_lt_succ hbound) f.value.blankAfter

/-- All fields are read from between the brackets. -/
theorem membersWithin_between (h : Fills field s fs s') {inside bound : List UInt8}
    (hinside : Between ((fs.map (·.toEntry)).map (·.bytes)) inside)
    (hbound : fs.length < bound.length) (rest : List UInt8) :
    membersWithin field bound true s (inside ++ closeRecord :: rest) = .ok (s', rest) := by
  cases bound with
  | nil => cases hbound
  | cons b bound =>
    cases h with
    | nil =>
      cases hinside with
      | nothing blank =>
        rw [membersWithin, bind_ok (nextName_end blank true rest)]
        rfl
    | @cons _ s₁ _ f value fs known reads others =>
      -- the first field has no comma before it, so it cannot be part of the induction
      cases hinside with
      | parts =>
        have hends := ends_gap f.value.blankAfter
          (Pair.record.ends_later ((fs.map (·.toEntry)).map (·.bytes)) rest)
        rw [joinItems_later, bytes_toEntry_append,
          membersWithin_entry (nextName_label f _) known reads hends]
        exact membersWithin_later others (Nat.lt_of_succ_lt_succ hbound) f.value.blankAfter rest

/-- A record is read from its fields. -/
theorem members_isRecord (h : Fills field s fs s') (hbytes : IsRecord (fs.map (·.toEntry)) bytes)
    (rest : List UInt8) : members field s (bytes ++ rest) = .ok (s', rest) := by
  rcases hbytes with ⟨inside, hinside, rfl⟩
  have hremaining : ∀ all, remaining all = .ok (all, all) := fun _ => rfl
  have hne : ∀ part ∈ (fs.map (·.toEntry)).map (·.bytes), part ≠ [] := by
    intro part hpart
    rcases List.mem_map.1 hpart with ⟨e, _, rfl⟩
    simp [Entry.bytes]
  have hbound := length_lt_between hinside hne closeRecord rest
  rw [List.length_map, List.length_map] at hbound
  rw [members, bind_ok (advance_bracketed _ _ _ _), bind_ok (hremaining _),
    membersWithin_between h hinside hbound]

theorem exists_cons_of_isRecord {es : List Entry} (h : IsRecord es bytes) :
    ∃ tail, bytes = openRecord :: tail := by
  rcases h with ⟨inside, _, rfl⟩
  exact ⟨_, rfl⟩

theorem lead_isRecord {es : List Entry} (h : IsRecord es bytes) (hgap : IsGap gap)
    (rest : List UInt8) : lead (gap ++ (bytes ++ rest)) = .ok (openRecord, bytes ++ rest) := by
  rcases exists_cons_of_isRecord h with ⟨tail, rfl⟩
  exact lead_gap_cons hgap rfl (tail ++ rest)

/-- A record is read as what its fields fill. -/
theorem recordOf_isRecord {room : Nat} (hroom : room ≠ 0) (h : Fills field s fs s')
    (hbytes : IsRecord (fs.map (·.toEntry)) bytes) (hgap : IsGap gap) (rest : List UInt8) :
    recordOf room field s (gap ++ (bytes ++ rest)) = .ok (s', rest) := by
  rw [recordOf, bind_ok (lead_isRecord hbytes hgap rest), if_pos rfl, if_neg hroom,
    members_isRecord h hbytes]

/-! ## Records in compact form -/

variable {written : List (String × List UInt8)}

/-- Written fields are read one after the other into what has been gathered. -/
inductive Gathers (field : σ → String → Except Fault (Reader σ)) :
    σ → List (String × List UInt8) → σ → Prop where
  | nil {s : σ} : Gathers field s [] s
  | cons {s s₁ s' : σ} {name : String} {value : Reader σ} {bytes : List UInt8}
      {fs : List (String × List UInt8)} (known : field s name = .ok value)
      (reads : Reads value bytes s₁) (others : Gathers field s₁ fs s') :
      Gathers field s ((name, bytes) :: fs) s'

/-- Compact fields are among those that a record can be read from. -/
theorem Gathers.fills (h : Gathers field s written s') :
    Fills field s (written.map fun f => Field.compact f.1 f.2) s' := by
  induction h with
  | nil => exact .nil
  | cons known reads _ ih => exact .cons known reads ih

theorem Gathers.reads_members (h : Gathers field s written s') :
    Reads (members field s) (writeRecord written) s' := by
  intro rest _
  exact members_isRecord h.fills (isRecord_writeRecord written) rest

/-- A record that has been written is read as what was gathered of its fields. -/
theorem Gathers.reads_recordOf {room : Nat} (h : Gathers field s written s') (hroom : room ≠ 0) :
    Reads (recordOf room field s) (writeRecord written) s' := by
  intro rest _
  show recordOf room field s ([] ++ (writeRecord written ++ rest)) = _
  exact recordOf_isRecord hroom h.fills (isRecord_writeRecord written) isGap_nil rest

/-- A whole text is read that holds nothing else. -/
theorem Reads.document {r : Reader α} {x : α} (h : Reads r bytes x) : document r bytes = .ok x := by
  have hread := h [] trivial
  rw [List.append_nil] at hread
  rw [Json.document, hread]
  exact if_pos rfl

end Reader

end TraceLoad.Json
