import TraceLoad.Proofs.Header

/-! # Which headers can be read

A text is read as a header if it is `00`, 32 digits, 16 digits and two flag characters joined by
dashes, and writing what was read gives the text back with its letters in lower case. The flags are
where the reader is more liberal than the form of a header: besides two digits (`IsHeader`) it takes
a plus sign and one digit (`IsSignedHeader`), which stands for the digit with a zero in front.
-/

namespace TraceLoad

namespace Hex

variable {c : Char} {cs : List Char} {bytes : List UInt8}

/-- An ASCII hexadecimal digit of either case. -/
def IsDigit (c : Char) : Prop :=
  ('0' ≤ c ∧ c ≤ '9') ∨ ('a' ≤ c ∧ c ≤ 'f') ∨ ('A' ≤ c ∧ c ≤ 'F')

instance (c : Char) : Decidable (IsDigit c) := inferInstanceAs (Decidable (_ ∨ _))

/-- So many digits and nothing else. -/
def AreDigits (n : Nat) (cs : List Char) : Prop := cs.length = n ∧ ∀ c ∈ cs, IsDigit c

-- looks at the characters of the list, where the derived test would go through all characters
instance (n : Nat) (cs : List Char) : Decidable (AreDigits n cs) :=
  @instDecidableAnd _ _ _ (List.decidableBAll IsDigit cs)

/-- The characters that have a value are the digits. -/
theorem isSome_value?_iff : (value? c).isSome ↔ IsDigit c := by
  constructor
  · exact range_of_value?
  · intro h
    unfold value?
    split
    · rfl
    · split
      · rfl
      · split
        · rfl
        · next hdecimal hlower hupper => exact absurd h (by simp [IsDigit, *])

theorem exists_value? (h : IsDigit c) : ∃ v, value? c = some v :=
  Option.isSome_iff_exists.1 (isSome_value?_iff.2 h)

theorem isDigit_of_value? {v : Nat} (h : value? c = some v) : IsDigit c :=
  isSome_value?_iff.1 (by rw [h]; rfl)

/-- A value is below sixteen, and its digit is the one that was read, in lower case. -/
theorem digit_of_value? {v : Nat} (h : value? c = some v) : v < 16 ∧ digit v = c.toLower := by
  have hascii : c.toNat < 128 := by
    have hsize : c.utf8Size = 1 := utf8Size_of_value? (by rw [h]; rfl)
    have hle : c.val ≤ 127 := Char.utf8Size_eq_one_iff.1 hsize
    exact Nat.lt_succ_of_le (UInt32.le_iff_toNat_le.1 hle)
  have hall : ∀ n : Fin 128, ∀ w ∈ value? (Char.ofNat n.val),
      w < 16 ∧ digit w = (Char.ofNat n.val).toLower := by decide +kernel
  have hc := hall ⟨c.toNat, hascii⟩ v
  rw [Char.ofNat_toNat] at hc
  exact hc h

/-- The two digits of a byte are those that it was read from, in lower case. -/
theorem ofByte_of_value? {hi lo : Char} {x y : Nat} (hx : value? hi = some x)
    (hy : value? lo = some y) : ofByte (UInt8.ofNat (16 * x + y)) = [hi.toLower, lo.toLower] := by
  obtain ⟨hx16, hhi⟩ := digit_of_value? hx
  obtain ⟨hy16, hlo⟩ := digit_of_value? hy
  have hbyte : (UInt8.ofNat (16 * x + y)).toNat = 16 * x + y := by
    rw [UInt8.toNat_ofNat']
    omega
  have hhigh : (16 * x + y) / 16 = x := by omega
  have hlow : (16 * x + y) % 16 = y := by omega
  rw [ofByte, hbyte, hhigh, hlow, hhi, hlo]

/-- Encoding what was decoded lowers the digits. -/
theorem encode_of_decode (h : decode cs = some bytes) : encode bytes = cs.map Char.toLower := by
  fun_induction decode cs generalizing bytes with
  | case1 =>
    obtain rfl := Option.some.inj h
    rfl
  | case2 => cases h
  | case3 hi lo rest ih =>
    simp only [Option.bind_eq_bind, Option.bind_eq_some_iff, Option.pure_def,
      Option.some.injEq] at h
    -- two digits give one byte, which is written in the lower case of both
    obtain ⟨x, hx, y, hy, bs, hbs, rfl⟩ := h
    have hcons : encode (UInt8.ofNat (16 * x + y) :: bs) =
        ofByte (UInt8.ofNat (16 * x + y)) ++ encode bs := rfl
    rw [hcons, ofByte_of_value? hx hy, ih hbs]
    rfl

theorem isDigit_of_decode (h : decode cs = some bytes) : ∀ c ∈ cs, IsDigit c := by
  fun_induction decode cs generalizing bytes with
  | case1 => simp
  | case2 => cases h
  | case3 hi lo rest ih =>
    simp only [Option.bind_eq_bind, Option.bind_eq_some_iff, Option.pure_def,
      Option.some.injEq] at h
    obtain ⟨x, hx, y, hy, bs, hbs, rfl⟩ := h
    intro c hc
    -- either of the two digits in front, or one of those behind
    rcases List.mem_cons.1 hc with rfl | hc
    · exact isDigit_of_value? hx
    · rcases List.mem_cons.1 hc with rfl | hc
      · exact isDigit_of_value? hy
      · exact ih hbs c hc

/-- An even number of digits can be decoded. -/
theorem exists_decode {n : Nat} (hlength : cs.length = 2 * n) (h : ∀ c ∈ cs, IsDigit c) :
    ∃ bytes, decode cs = some bytes := by
  fun_induction decode cs generalizing n with
  | case1 => exact ⟨[], rfl⟩
  | case2 => simp at hlength; omega
  | case3 hi lo rest ih =>
    obtain ⟨x, hx⟩ := exists_value? (h hi (by simp))
    obtain ⟨y, hy⟩ := exists_value? (h lo (by simp))
    obtain ⟨bs, hbs⟩ := ih (n := n - 1) (by simp at hlength; omega)
      fun c hc => h c (List.mem_cons_of_mem _ (List.mem_cons_of_mem _ hc))
    exact ⟨UInt8.ofNat (16 * x + y) :: bs, by simp [hx, hy, hbs]⟩

theorem IsDigit.utf8Size (h : IsDigit c) : c.utf8Size = 1 :=
  utf8Size_of_value? (isSome_value?_iff.2 h)

theorem dash_not_mem_of_isDigit (h : ∀ c ∈ cs, IsDigit c) : '-' ∉ cs := fun hmem =>
  absurd (h '-' hmem) (by decide)

end Hex

namespace Ident

variable {n : Nat} {cs : List Char}

/-- An identifier can be read from as many digits as it has, of either case. -/
theorem exists_ofHex_iff :
    (∃ i : Ident n, ofHex (String.ofList cs) = .ok i) ↔
      Hex.AreDigits (2 * n) cs := by
  constructor
  · rintro ⟨i, h⟩
    -- the length in bytes is checked before the digits, and that of the result once more
    unfold ofHex at h
    split at h
    · cases h
    · split at h
      · cases h
      · next bytes hdecode =>
        rw [String.toList_ofList] at hdecode
        split at h
        · next hlength => exact ⟨by rw [Hex.length_of_decode hdecode, hlength],
            Hex.isDigit_of_decode hdecode⟩
        · cases h
  · rintro ⟨hlength, hdigits⟩
    obtain ⟨bytes, hdecode⟩ := Hex.exists_decode hlength hdigits
    -- digits take one byte each, so the bytes are as many as the characters
    have hsize : (String.ofList cs).utf8ByteSize = 2 * n := by
      rw [utf8ByteSize_ofList fun c hc => (hdigits c hc).utf8Size, hlength]
    have hbytes : bytes.length = n := by
      have := Hex.length_of_decode hdecode
      omega
    refine ⟨⟨bytes, hbytes⟩, ?_⟩
    rw [ofHex, if_neg (not_not_intro hsize), String.toList_ofList, hdecode]
    exact dif_pos hbytes

/-- An identifier that was read is written with its letters in lower case. -/
theorem toHex_of_ofHex {i : Ident n} (h : ofHex (String.ofList cs) = .ok i) :
    i.toHex = String.ofList (cs.map Char.toLower) := by
  unfold ofHex at h
  split at h
  · cases h
  · split at h
    · cases h
    · next bytes hdecode =>
      rw [String.toList_ofList] at hdecode
      split at h
      · obtain rfl := Except.ok.inj h
        rw [toHex, Hex.encode_of_decode hdecode]
      · cases h

end Ident

namespace TraceContext

variable {cs field : List Char} {h : String} {c : TraceContext}

/-! ## Flags -/

/-- Two digits. -/
def TwoDigits (field : List Char) : Prop :=
  ∃ hi lo, field = [hi, lo] ∧ Hex.IsDigit hi ∧ Hex.IsDigit lo

/-- A plus sign and one digit. -/
def SignedDigit (field : List Char) : Prop := ∃ lo, field = ['+', lo] ∧ Hex.IsDigit lo

/-- What flags can be read from, and how they are written then. -/
theorem flags?_cases {b : UInt8} (hb : flags? field = some b) :
    (∃ hi lo, field = [hi, lo] ∧ Hex.IsDigit hi ∧ Hex.IsDigit lo ∧
        Hex.ofByte b = [hi.toLower, lo.toLower]) ∨
      ∃ lo, field = ['+', lo] ∧ Hex.IsDigit lo ∧ Hex.ofByte b = ['0', lo.toLower] := by
  unfold flags? at hb
  split at hb
  · next lo =>
    obtain ⟨y, hy, rfl⟩ := Option.map_eq_some_iff.1 hb
    -- one digit is read as if a zero stood in front of it
    have hvalue : Hex.value? '0' = some 0 := rfl
    have hzero := Hex.ofByte_of_value? hvalue hy
    rw [Nat.mul_zero, Nat.zero_add] at hzero
    exact .inr ⟨lo, rfl, Hex.isDigit_of_value? hy, hzero⟩
  · next hi lo _ =>
    simp only [Option.bind_eq_bind, Option.bind_eq_some_iff, Option.pure_def,
      Option.some.injEq] at hb
    obtain ⟨x, hx, y, hy, rfl⟩ := hb
    exact .inl ⟨hi, lo, rfl, Hex.isDigit_of_value? hx, Hex.isDigit_of_value? hy,
      Hex.ofByte_of_value? hx hy⟩
  · cases hb

/-- What is read as flags are flags. -/
theorem flags?_of_readFlags {b : UInt8} (hb : readFlags field = .ok b) :
    flags? field = some b := by
  unfold readFlags at hb
  split at hb
  · cases hb
  · split at hb
    · next hflags =>
      obtain rfl := Except.ok.inj hb
      exact hflags
    · cases hb

/-- Two characters of one byte each pass the check of the length. -/
theorem readFlags_of_flags? {x y : Char} {b : UInt8} (hx : x.utf8Size = 1) (hy : y.utf8Size = 1)
    (hb : flags? [x, y] = some b) : readFlags [x, y] = .ok b := by
  have hsize : (String.ofList [x, y]).utf8ByteSize = 2 :=
    utf8ByteSize_ofList (by simp [hx, hy])
  rw [readFlags, if_neg (not_not_intro hsize), hb]

/-- Flags are read from two digits, or from a plus sign and one digit. -/
theorem exists_readFlags_iff :
    (∃ b, readFlags field = .ok b) ↔ TwoDigits field ∨ SignedDigit field := by
  constructor
  · rintro ⟨b, hb⟩
    rcases flags?_cases (flags?_of_readFlags hb) with ⟨hi, lo, rfl, hhi, hlo, -⟩ | ⟨lo, rfl, hlo, -⟩
    · exact .inl ⟨hi, lo, rfl, hhi, hlo⟩
    · exact .inr ⟨lo, rfl, hlo⟩
  · rintro (⟨hi, lo, rfl, hhi, hlo⟩ | ⟨lo, rfl, hlo⟩)
    · obtain ⟨x, hx⟩ := Hex.exists_value? hhi
      obtain ⟨y, hy⟩ := Hex.exists_value? hlo
      -- a first digit is no sign
      have hplus : hi ≠ '+' := by
        rintro rfl
        exact absurd hhi (by decide)
      have hflags : flags? [hi, lo] = some (UInt8.ofNat (16 * x + y)) := by
        rw [flags?]
        · simp [hx, hy]
        · exact hplus
      exact ⟨_, readFlags_of_flags? hhi.utf8Size hlo.utf8Size hflags⟩
    · obtain ⟨y, hy⟩ := Hex.exists_value? hlo
      have hflags : flags? ['+', lo] = some (UInt8.ofNat y) := by simp [flags?, hy]
      exact ⟨_, readFlags_of_flags? rfl hlo.utf8Size hflags⟩

/-- A plus sign turned into a zero; other characters stay. -/
def unsign (x : Char) : Char := if x = '+' then '0' else x

theorem unsign_of_isDigit {x : Char} (hx : Hex.IsDigit x) : unsign x = x := by
  refine if_neg ?_
  rintro rfl
  exact absurd hx (by decide)

theorem map_unsign_eq_self (h : ∀ x ∈ cs, unsign x = x) : cs.map unsign = cs :=
  (List.map_congr_left h).trans (List.map_id cs)

/-- Flags that were read are written in lower case, with a zero for a plus sign. -/
theorem ofByte_of_readFlags {b : UInt8} (hb : readFlags field = .ok b) :
    Hex.ofByte b = (field.map unsign).map Char.toLower := by
  rcases flags?_cases (flags?_of_readFlags hb) with
    ⟨hi, lo, rfl, hhi, hlo, hbyte⟩ | ⟨lo, rfl, hlo, hbyte⟩
  · simp [hbyte, unsign_of_isDigit hhi, unsign_of_isDigit hlo]
  · have hplus : (unsign '+').toLower = '0' := rfl
    simp [hbyte, hplus, unsign_of_isDigit hlo]

/-- There is no dash among flags that are read. -/
theorem dash_not_mem_of_readFlags {b : UInt8} (hb : readFlags field = .ok b) : '-' ∉ field := by
  rcases exists_readFlags_iff.1 ⟨b, hb⟩ with ⟨hi, lo, rfl, hhi, hlo⟩ | ⟨lo, rfl, hlo⟩
  · exact Hex.dash_not_mem_of_isDigit (by simp [hhi, hlo])
  · have hdash : '-' ∉ [lo] := Hex.dash_not_mem_of_isDigit (by simpa using hlo)
    simpa using hdash

/-! ## Pieces -/

/-- There is at least one piece. -/
theorem exists_pieces (cs : List Char) : ∃ p ps, pieces cs = p :: ps := by
  cases cs with
  | nil => exact ⟨[], [], rfl⟩
  | cons x cs =>
    rw [pieces]
    split
    · exact ⟨_, _, rfl⟩
    · split
      · exact ⟨_, _, rfl⟩
      · exact ⟨_, _, rfl⟩

/-- Joining the pieces with dashes gives the text back. -/
theorem intercalate_pieces (cs : List Char) : ['-'].intercalate (pieces cs) = cs := by
  induction cs with
  | nil => rfl
  | cons x cs ih =>
    obtain ⟨p, ps, hp⟩ := exists_pieces cs
    rw [hp] at ih
    rw [pieces, hp]
    split
    · next hdash =>
      -- a dash begins a piece of its own
      rw [List.intercalate_cons_cons, ih, hdash]
      rfl
    · -- any other character belongs to the first piece, whether or not there are more
      cases ps with
      | nil => simp [← ih]
      | cons q qs =>
        rw [← ih, List.intercalate_cons_cons, List.intercalate_cons_cons]
        rfl

/-! ## Headers -/

/-- Three fields behind the version `00`, with dashes in between. -/
def framed (trace span flags : List Char) : List Char :=
  '0' :: '0' :: '-' :: (trace ++ '-' :: (span ++ '-' :: flags))

/-- The form of a header with a given form of flags. -/
def HasForm (flagsForm : List Char → Prop) (h : String) : Prop :=
  ∃ trace span flags, h.toList = framed trace span flags ∧
    Hex.AreDigits 32 trace ∧ Hex.AreDigits 16 span ∧ flagsForm flags

/-- A header as it should be: the flags are two digits. -/
def IsHeader (h : String) : Prop := HasForm TwoDigits h

/-- A header but for its flags, which are a plus sign and one digit. -/
def IsSignedHeader (h : String) : Prop := HasForm SignedDigit h

/-- A framed header falls into its four fields. -/
theorem pieces_framed {trace span flags : List Char} (htrace : '-' ∉ trace) (hspan : '-' ∉ span)
    (hflags : '-' ∉ flags) :
    pieces (framed trace span flags) = [['0', '0'], trace, span, flags] := by
  have hversion : framed trace span flags =
      ['0', '0'] ++ '-' :: (trace ++ '-' :: (span ++ '-' :: flags)) := rfl
  rw [hversion, pieces_append_dash (by decide), pieces_append_dash htrace,
    pieces_append_dash hspan, pieces_of_not_mem hflags]

/-- The context that a header is read as is the one that its fields are read as. -/
theorem ofTraceparent_eq_ok_iff :
    ofTraceparent h = .ok c ↔ ∃ trace span flags, h.toList = framed trace span flags ∧
      Ident.ofHex (String.ofList trace) = .ok c.traceId ∧
      Ident.ofHex (String.ofList span) = .ok c.spanId ∧
      readFlags flags = .ok c.flags ∧ c.parentSpanId = none := by
  constructor
  · intro hread
    unfold ofTraceparent at hread
    split at hread
    · next version trace span flags hpieces =>
      have hjoin := intercalate_pieces h.toList
      rw [hpieces] at hjoin
      -- one check after the other has to pass for a context to come out
      by_cases hversion : version = ['0', '0']
      · subst hversion
        have hlist : h.toList = framed trace span flags := by
          rw [← hjoin]
          simp [List.intercalate, framed]
        cases htrace : (Ident.ofHex (String.ofList trace) : Except ContextError TraceId) with
        | error f => simp [htrace, bind, Except.bind] at hread
        | ok traceId =>
          cases hspan : (Ident.ofHex (String.ofList span) : Except ContextError SpanId) with
          | error f => simp [htrace, hspan, bind, Except.bind] at hread
          | ok spanId =>
            cases hflags : readFlags flags with
            | error f => simp [htrace, hspan, hflags, bind, Except.bind] at hread
            | ok b =>
              simp only [htrace, hspan, hflags] at hread
              obtain rfl := Except.ok.inj hread
              exact ⟨trace, span, flags, hlist, htrace, hspan, hflags, rfl⟩
      · simp [hversion, bind, Except.bind, throw, throwThe, MonadExceptOf.throw] at hread
    · cases hread
  · rintro ⟨trace, span, flags, hlist, htrace, hspan, hflags, hparent⟩
    -- no field has a dash in it, so the header falls into these four
    have hdash : '-' ∉ trace ∧ '-' ∉ span :=
      ⟨Hex.dash_not_mem_of_isDigit (Ident.exists_ofHex_iff.1 ⟨_, htrace⟩).2,
        Hex.dash_not_mem_of_isDigit (Ident.exists_ofHex_iff.1 ⟨_, hspan⟩).2⟩
    rw [ofTraceparent, hlist, pieces_framed hdash.1 hdash.2 (dash_not_mem_of_readFlags hflags)]
    simp only [htrace, hspan, hflags]
    rw [← hparent]
    rfl

/-- A header that was read is written again without signs and in lower case. -/
theorem toList_toTraceparent_of_ofTraceparent (hread : ofTraceparent h = .ok c) :
    c.toTraceparent.toList = (h.toList.map unsign).map Char.toLower := by
  obtain ⟨trace, span, flags, hlist, htrace, hspan, hflags, -⟩ := ofTraceparent_eq_ok_iff.1 hread
  -- identifiers have no signs in them
  have hid : ∀ {n : Nat} {i : Ident n} {cs : List Char}, Ident.ofHex (String.ofList cs) = .ok i →
      Hex.encode i.bytes = (cs.map unsign).map Char.toLower := by
    intro n i cs hi
    have hdigits := (Ident.exists_ofHex_iff.1 ⟨i, hi⟩).2
    have hhex := congrArg String.toList (Ident.toHex_of_ofHex hi)
    rw [Ident.toHex, String.toList_ofList, String.toList_ofList] at hhex
    rw [hhex, map_unsign_eq_self fun x hx => unsign_of_isDigit (hdigits x hx)]
  have hversion : unsign '0' = '0' ∧ unsign '-' = '-' ∧ '0'.toLower = '0' ∧ '-'.toLower = '-' := by
    decide
  rw [toList_toTraceparent, hlist, framed, hid htrace, hid hspan, ofByte_of_readFlags hflags]
  simp [hversion]

/-- There is no sign in a header of the plain form. -/
theorem IsHeader.plus_not_mem (hform : IsHeader h) : '+' ∉ h.toList := by
  obtain ⟨trace, span, flags, hlist, ⟨-, htrace⟩, ⟨-, hspan⟩, hi, lo, rfl, hhi, hlo⟩ := hform
  have hdigit : ∀ x, Hex.IsDigit x → '+' ≠ x := by
    rintro x hx rfl
    exact absurd hx (by decide)
  have hmem : ∀ cs : List Char, (∀ x ∈ cs, Hex.IsDigit x) → '+' ∉ cs :=
    fun cs hcs hplus => hdigit _ (hcs _ hplus) rfl
  simp [hlist, framed, hmem trace htrace, hmem span hspan, hdigit hi hhi, hdigit lo hlo]

/-- A text can be read if it has the form of a header, with two digits as its flags or a plus sign
and one. -/
theorem exists_ofTraceparent_iff :
    (∃ c, ofTraceparent h = .ok c) ↔ HasForm (fun f => TwoDigits f ∨ SignedDigit f) h := by
  constructor
  · rintro ⟨c, hread⟩
    obtain ⟨trace, span, flags, hlist, htrace, hspan, hflags, -⟩ := ofTraceparent_eq_ok_iff.1 hread
    exact ⟨trace, span, flags, hlist, Ident.exists_ofHex_iff.1 ⟨_, htrace⟩,
      Ident.exists_ofHex_iff.1 ⟨_, hspan⟩, exists_readFlags_iff.1 ⟨_, hflags⟩⟩
  · rintro ⟨trace, span, flags, hlist, htrace, hspan, hflags⟩
    obtain ⟨traceId, htrace⟩ := (Ident.exists_ofHex_iff (n := 16)).2 htrace
    obtain ⟨spanId, hspan⟩ := (Ident.exists_ofHex_iff (n := 8)).2 hspan
    obtain ⟨b, hflags⟩ := exists_readFlags_iff.2 hflags
    exact ⟨⟨traceId, spanId, none, b⟩,
      ofTraceparent_eq_ok_iff.2 ⟨trace, span, flags, hlist, htrace, hspan, hflags, rfl⟩⟩

theorem hasForm_or_iff {p q : List Char → Prop} :
    HasForm (fun f => p f ∨ q f) h ↔ HasForm p h ∨ HasForm q h := by
  constructor
  · rintro ⟨trace, span, flags, hlist, htrace, hspan, hflags | hflags⟩
    · exact .inl ⟨trace, span, flags, hlist, htrace, hspan, hflags⟩
    · exact .inr ⟨trace, span, flags, hlist, htrace, hspan, hflags⟩
  · rintro (⟨trace, span, flags, hlist, htrace, hspan, hflags⟩ |
      ⟨trace, span, flags, hlist, htrace, hspan, hflags⟩)
    · exact ⟨trace, span, flags, hlist, htrace, hspan, .inl hflags⟩
    · exact ⟨trace, span, flags, hlist, htrace, hspan, .inr hflags⟩

theorem toList_toLower (s : String) : s.toLower.toList = s.toList.map Char.toLower :=
  String.toList_map

/-- What can be read is a header, or would be one with a digit for the plus sign in its flags; what
was read is written as the text in lower case, with a zero for that sign. -/
theorem ofTraceparent_reads_headers (h : String) :
    ((∃ c, ofTraceparent h = .ok c) ↔ IsHeader h ∨ IsSignedHeader h) ∧
      ∀ c, ofTraceparent h = .ok c →
        c.toTraceparent = (h.map unsign).toLower ∧ (IsHeader h → c.toTraceparent = h.toLower) := by
  refine ⟨exists_ofTraceparent_iff.trans hasForm_or_iff, ?_⟩
  intro c hread
  have hlist := toList_toTraceparent_of_ofTraceparent hread
  refine ⟨String.toList_inj.1 ?_, fun hform => String.toList_inj.1 ?_⟩
  · rw [hlist, toList_toLower, String.toList_map]
  · -- without signs there is nothing to take off
    have hplus : ∀ x ∈ h.toList, unsign x = x := by
      intro x hx
      refine if_neg ?_
      rintro rfl
      exact hform.plus_not_mem hx
    rw [hlist, map_unsign_eq_self hplus, toList_toLower]

/-- A header in capital letters. -/
def capitals : String := "00-0AF7651916CD43DD8448EB211C80319C-B7AD6B7169203331-0F"

/-- A header in capital letters is read, and written in small ones. -/
theorem capitals_lowered : IsHeader capitals ∧ ∃ c, ofTraceparent capitals = .ok c ∧
    c.toTraceparent = "00-0af7651916cd43dd8448eb211c80319c-b7ad6b7169203331-0f" := by
  have hform : IsHeader capitals :=
    ⟨"0AF7651916CD43DD8448EB211C80319C".toList, "B7AD6B7169203331".toList, ['0', 'F'], by decide,
      by decide, by decide, '0', 'F', rfl, by decide, by decide⟩
  obtain ⟨c, hread⟩ := (ofTraceparent_reads_headers capitals).1.2 (.inl hform)
  have hlower : capitals.toLower = "00-0af7651916cd43dd8448eb211c80319c-b7ad6b7169203331-0f" := by
    rw [← String.toList_inj, toList_toLower]
    decide
  exact ⟨hform, c, hread, (((ofTraceparent_reads_headers capitals).2 c hread).2 hform).trans hlower⟩

/-- A header but for the plus sign in its flags. -/
def plusFlags : String := "00-0af7651916cd43dd8448eb211c80319c-b7ad6b7169203331-+f"

/-- It is no header, and can be read nevertheless. -/
theorem plusFlags_read : ¬ ((∃ c, ofTraceparent plusFlags = .ok c) ↔ IsHeader plusFlags) := by
  intro hiff
  have hform : HasForm (fun f => TwoDigits f ∨ SignedDigit f) plusFlags :=
    ⟨"0af7651916cd43dd8448eb211c80319c".toList, "b7ad6b7169203331".toList, ['+', 'f'], by decide,
      by decide, by decide, .inr ⟨'f', rfl, by decide⟩⟩
  have hheader := hiff.1 (exists_ofTraceparent_iff.2 hform)
  exact hheader.plus_not_mem (by decide)

end TraceContext

end TraceLoad
