import TraceLoad.Proofs.Grammar
import TraceLoad.Proofs.Tokens
import TraceLoad.Proofs.TextBytes

/-! # Ways to write texts, lists and records

A character can be written as itself, by a letter, by its code or by two halves. Whichever way is
taken, the scanner finds its bytes (`scanText_spells`). The compact form, in which values leave the
program, is one of the ways that the grammar allows for texts (`isTextOf_writeText`), lists
(`isListOf_writeList`) and records (`isRecordOf_writeRecord`).
-/

namespace TraceLoad.Json

variable {b : UInt8} {bytes rest : List UInt8} {c : Char} {s : String}

theorem prepend_prepend (front more : List UInt8) (found : Except Fault (List UInt8 × List UInt8)) :
    prepend front (prepend more found) = prepend (front ++ more) found := by
  cases found with
  | error f => rfl
  | ok found => exact congrArg Except.ok (Prod.ext (List.append_assoc _ _ _).symm rfl)

/-- Bytes that need no mark are read as they are. -/
theorem scanText_visible (h : ∀ b ∈ bytes, b ≠ quoteMark ∧ b ≠ backslash ∧ ¬ b < 0x20) :
    scanText (bytes ++ rest) = prepend bytes (scanText rest) := by
  induction bytes with
  | nil =>
    cases hscan : scanText rest with
    | error f => rw [List.nil_append, hscan]; rfl
    | ok found => rw [List.nil_append, hscan]; rfl
  | cons b bytes ih =>
    rcases h b List.mem_cons_self with ⟨hquote, hmark, hvisible⟩
    rw [List.cons_append, scanText_plain hquote hmark hvisible,
      ih fun x hx => h x (List.mem_cons_of_mem _ hx), prepend_prepend]
    rfl

/-- The bytes of a character that stands for itself do so, too. -/
theorem visible_of_mem_encodesCode {n : Nat} (h : EncodesCode n bytes) (hvisible : 0x20 ≤ n)
    (hquote : n ≠ 0x22) (hmark : n ≠ 0x5C) :
    ∀ b ∈ bytes, b ≠ quoteMark ∧ b ≠ backslash ∧ ¬ b < 0x20 := by
  intro b hb
  -- each byte is the code itself or at least 128, so none of the three can be meant
  have hcode := toNat_of_mem_encodesCode h hb
  refine ⟨?_, ?_, ?_⟩
  · rintro rfl
    have hbyte : quoteMark.toNat = 0x22 := rfl
    omega
  · rintro rfl
    have hbyte : backslash.toNat = 0x5C := rfl
    omega
  · rw [UInt8.lt_iff_toNat_lt]
    have hbyte : (0x20 : UInt8).toNat = 0x20 := rfl
    omega

/-- Two halves of a character are read as the character. -/
theorem scanText_halves {a₁ a₂ a₃ a₄ b₁ b₂ b₃ b₄ : UInt8} {n m : Nat}
    (hfirst : hexValue4? a₁ a₂ a₃ a₄ = some n) (hsecond : hexValue4? b₁ b₂ b₃ b₄ = some m)
    (hnotlow : isLowHalf n = false) (hhigh : isHighHalf n = true) (hlow : isLowHalf m = true) :
    scanText (backslash :: unitLetter :: a₁ :: a₂ :: a₃ :: a₄ ::
        backslash :: unitLetter :: b₁ :: b₂ :: b₃ :: b₄ :: rest) =
      prepend (String.utf8EncodeChar (joinHalves n m)) (scanText rest) := by
  rw [scanText.eq_def]
  dsimp only
  rw [if_neg (by decide), if_pos rfl, if_pos rfl, hfirst]
  dsimp only
  rw [if_neg (Bool.eq_false_iff.1 hnotlow), if_pos hhigh, if_neg (by simp), if_neg (by simp),
    hsecond]
  exact if_pos hlow

/-- No character has the code of a half. -/
theorem not_half_toNat (c : Char) : isLowHalf c.toNat = false ∧ isHighHalf c.toNat = false := by
  have hvalid : c.toNat < 0xD800 ∨ 0xDFFF < c.toNat ∧ c.toNat < 0x110000 := c.valid
  simp only [isLowHalf, isHighHalf, Bool.and_eq_false_iff, decide_eq_false_iff_not]
  omega

/-- However a character is written, it is read. -/
theorem scanText_spells (h : SpellsChar c bytes) (rest : List UInt8) :
    scanText (bytes ++ rest) = prepend (String.utf8EncodeChar c) (scanText rest) := by
  cases h with
  | plain visible quote mark =>
    -- a character of several bytes is read byte by byte
    exact scanText_visible
      (visible_of_mem_encodesCode (encodesCode_utf8EncodeChar c) visible quote mark)
  | letter letter =>
    rcases of_mem_escapeLetters _ letter with ⟨hunit, hletter, hcode⟩
    rw [utf8EncodeChar_of_lt hcode]
    exact scanText_letter hunit hletter
  | unit unit =>
    cases unit with
    | digits value =>
      apply (scanText_unit value (not_half_toNat c).1 (not_half_toNat c).2).trans
      rw [Char.ofNat_toNat]
      rfl
  | @halves high low first second ahead behind high_lt low_lt code =>
    cases ahead with
    | digits hfirst =>
      cases behind with
      | digits hsecond =>
        have hjoined : joinHalves (0xD800 + high) (0xDC00 + low) = c := by
          have hcode : (0xD800 + high - 0xD800) * 0x400 + (0xDC00 + low - 0xDC00) + 0x10000 =
              c.toNat := by omega
          rw [joinHalves, hcode, Char.ofNat_toNat]
        rw [← hjoined]
        apply scanText_halves hfirst hsecond
        · simp only [isLowHalf, Bool.and_eq_false_iff, decide_eq_false_iff_not]
          omega
        · simp only [isHighHalf, Bool.and_eq_true, decide_eq_true_eq]
          omega
        · simp only [isLowHalf, Bool.and_eq_true, decide_eq_true_eq]
          omega

/-- A text is read as its characters, however each of them is spelled. -/
theorem scanText_pieces {cs : List Char} {pieces : List (List UInt8)}
    (h : List.Forall₂ SpellsChar cs pieces) (rest : List UInt8) :
    scanText (pieces.flatten ++ quoteMark :: rest) =
      .ok (cs.flatMap String.utf8EncodeChar, rest) := by
  induction h with
  | nil =>
    rw [List.flatten_nil, List.nil_append, scanText.eq_def]
    exact if_pos rfl
  | cons spells _ ih =>
    rw [List.flatten_cons, List.append_assoc, scanText_spells spells, ih]
    rfl

/-- A character is spelled in pieces of a text. -/
theorem exists_pieces {c : Char} (h : SpellsChar c bytes) :
    ∃ pieces : List (List UInt8), (∀ p ∈ pieces, IsPiece p) ∧ pieces.flatten = bytes := by
  cases h with
  | plain visible quote mark =>
    -- each byte of a plain character is a piece
    refine ⟨(String.utf8EncodeChar c).map fun b => [b], ?_, List.flatMap_singleton' _⟩
    intro p hp
    rcases List.mem_map.1 hp with ⟨b, hb, rfl⟩
    rcases visible_of_mem_encodesCode (encodesCode_utf8EncodeChar c) visible quote mark b hb with
      ⟨hquote, hmark, hvisible⟩
    exact .plain hvisible hquote hmark
  | letter letter => exact ⟨[_], by simpa using .letter letter, List.append_nil _⟩
  | unit unit => exact ⟨[_], by simpa using .unit unit, List.append_nil _⟩
  | @halves _ _ first second ahead behind =>
    -- the two halves are a piece each
    refine ⟨[first, second], ?_, by simp⟩
    simpa using ⟨.unit ahead, .unit behind⟩

/-- A text whose characters are told is a text. -/
theorem IsTextOf.isText (h : IsTextOf s bytes) : IsText bytes := by
  rcases h with ⟨spelled, hspelled, rfl⟩
  have hpieces : ∃ pieces : List (List UInt8), (∀ p ∈ pieces, IsPiece p) ∧
      pieces.flatten = spelled.flatten := by
    -- the induction goes over the characters, whatever text they make
    generalize s.toList = cs at hspelled
    induction hspelled with
    | nil => exact ⟨[], nofun, rfl⟩
    | @cons c bytes cs spelled hc _ ih =>
      rcases exists_pieces hc with ⟨front, hfront, rfl⟩
      rcases ih with ⟨others, hothers, hflatten⟩
      refine ⟨front ++ others, List.forall_mem_append.2 ⟨hfront, hothers⟩, ?_⟩
      rw [List.flatten_append, List.flatten_cons, hflatten]
  rcases hpieces with ⟨pieces, hpieces, hflatten⟩
  exact ⟨pieces, hpieces, by rw [hflatten]⟩

/-! ## Texts in compact form -/

/-- What an escape letter stands for is one of the characters that have a letter. -/
theorem mem_escapeLetters_of_escapedByte? {l : UInt8} (h : escapedByte? l = some b) :
    (l, b.toNat) ∈ escapeLetters := by
  have hall : ∀ n : Fin 256, ∀ b ∈ escapedByte? (UInt8.ofNat n),
      (UInt8.ofNat n, b.toNat) ∈ escapeLetters := by
    decide +kernel
  have hl := hall ⟨l.toNat, l.toNat_lt⟩
  rw [UInt8.ofNat_toNat] at hl
  exact hl b h

theorem flatMap_escapeByte_of_le (h : ∀ b ∈ bytes, 0x80 ≤ b.toNat) :
    bytes.flatMap escapeByte = bytes := by
  induction bytes with
  | nil => rfl
  | cons b bytes ih =>
    have hb := h b List.mem_cons_self
    -- marks and control characters are all below 128
    have hself : escapeByte b = [b] := by
      rcases escapeByte_cases b with ⟨l, _, hletter⟩ | ⟨_, hcontrol⟩ | ⟨hself, _⟩
      · have hascii := (of_mem_escapeLetters _ (mem_escapeLetters_of_escapedByte? hletter)).2.2
        dsimp only at hascii
        omega
      · have hascii : b.toNat < 0x20 := hcontrol
        omega
      · exact hself
    rw [List.flatMap_cons, hself, ih fun x hx => h x (List.mem_cons_of_mem _ hx)]
    rfl

/-- The compact form writes a character in one of the ways that there are. -/
theorem spellsChar_escapeByte (c : Char) :
    SpellsChar c ((String.utf8EncodeChar c).flatMap escapeByte) := by
  by_cases hascii : c.toNat < 0x80
  · have hbyte : (UInt8.ofNat c.toNat).toNat = c.toNat := by
      rw [UInt8.toNat_ofNat']
      omega
    rw [utf8EncodeChar_of_lt hascii, List.flatMap_singleton]
    rcases escapeByte_cases (UInt8.ofNat c.toNat) with ⟨l, hl, hletter⟩ | ⟨hunit, hcontrol⟩ |
      ⟨hplain, hquote, hmark, hcontrol⟩
    · rw [hl]
      have hmem := mem_escapeLetters_of_escapedByte? hletter
      rw [hbyte] at hmem
      exact .letter hmem
    · rw [hunit]
      have hlt : c.toNat < 32 := by
        rwa [UInt8.lt_iff_toNat_lt, hbyte] at hcontrol
      exact .unit (.digits (hexValue4?_control ⟨c.toNat, hlt⟩))
    · rw [hplain, ← utf8EncodeChar_of_lt hascii]
      refine .plain ?_ ?_ ?_
      · rw [UInt8.lt_iff_toNat_lt, hbyte] at hcontrol
        exact Nat.le_of_not_lt hcontrol
      · intro hcode
        rw [hcode] at hquote
        exact hquote rfl
      · intro hcode
        rw [hcode] at hmark
        exact hmark rfl
  · -- the bytes of other characters are written as they are
    have hbytes : ∀ b ∈ String.utf8EncodeChar c, 0x80 ≤ b.toNat := by
      intro b hb
      have hcode := toNat_of_mem_encodesCode (encodesCode_utf8EncodeChar c) hb
      omega
    rw [flatMap_escapeByte_of_le hbytes]
    exact .plain (by omega) (by omega) (by omega)

/-- A text in compact form is one of the ways to write it. -/
theorem isTextOf_writeText (s : String) : IsTextOf s (writeText s) := by
  refine ⟨s.toList.map fun c => (String.utf8EncodeChar c).flatMap escapeByte, ?_, ?_⟩
  · rw [List.forall₂_map_right_iff, List.forall₂_same]
    intro c _
    exact spellsChar_escapeByte c
  · rw [writeText, toList_toUTF8, List.flatMap_assoc, List.flatMap]

/-! ## Lists and records in compact form -/

/-- A field in compact form. -/
def Field.compact (name : String) (value : List UInt8) : Field where
  label := .tight (writeText name)
  value := .tight value
  name := name
  spelled := isTextOf_writeText name

theorem between_joinItems (parts : List (List UInt8)) : Between parts (joinItems parts) := by
  cases parts with
  | nil => exact .nothing isGap_nil
  | cons part parts => exact .parts

theorem Padded.bytes_tight (bytes : List UInt8) : (Padded.tight bytes).bytes = bytes :=
  List.append_nil bytes

/-- A compact list is a list with no blanks in it. -/
theorem isList_writeList (parts : List (List UInt8)) :
    IsList (parts.map .tight) (writeList parts) := by
  have hparts : (parts.map Padded.tight).map (·.bytes) = parts := by
    rw [List.map_map]
    exact List.map_id'' Padded.bytes_tight parts
  refine ⟨joinItems parts, ?_, rfl⟩
  rw [hparts]
  exact between_joinItems parts

theorem isValue_writeList {parts : List (List UInt8)} (h : ∀ part ∈ parts, IsValue part) :
    IsValue (writeList parts) :=
  .list (isList_writeList parts) (List.forall_mem_map.2 h)

/-- The items of a list can be written one after the other. -/
theorem isListOf_writeList {α : Type} {Written : α → List UInt8 → Prop} {xs : List α}
    {parts : List (List UInt8)} (h : List.Forall₂ Written xs parts) :
    IsListOf Written xs (writeList parts) := by
  refine ⟨parts.map .tight, isList_writeList parts, ?_⟩
  rwa [List.forall₂_map_right_iff]

/-- A compact record is a record with no blanks in it. -/
theorem isRecord_writeRecord (fs : List (String × List UInt8)) :
    IsRecord ((fs.map fun f => Field.compact f.1 f.2).map (·.toEntry)) (writeRecord fs) := by
  have hparts : ((fs.map fun f => Field.compact f.1 f.2).map (·.toEntry)).map (·.bytes) =
      fs.map fun f => writeField f.1 f.2 := by
    rw [List.map_map, List.map_map]
    apply List.map_congr_left
    intro f _
    exact congrArg₂ (· ++ colon :: ·) (Padded.bytes_tight _) (Padded.bytes_tight _)
  refine ⟨joinItems (fs.map fun f => writeField f.1 f.2), ?_, rfl⟩
  rw [hparts]
  exact between_joinItems _

/-- A compact record is a table of what its fields are written from. -/
theorem isTableOf_writeRecord {α : Type} {Written : α → List UInt8 → Prop}
    {table : List (String × α)} {fs : List (String × List UInt8)}
    (h : List.Forall₂ (fun e f => f.1 = e.1 ∧ Written e.2 f.2) table fs) :
    IsTableOf Written table (writeRecord fs) := by
  refine ⟨_, isRecord_writeRecord fs, ?_⟩
  rwa [List.forall₂_map_right_iff]

/-- The fields of a record can be written one after the other. -/
theorem isRecordOf_writeRecord {layout : Layout} {present : List String}
    {fs : List (String × List UInt8)}
    (hpresent : ((fs.map (·.1)).filter (· ∈ layout.names)).Perm present)
    (hvalues : ∀ f ∈ fs, ∀ Holds, (f.1, Holds) ∈ layout → Holds f.2)
    (hothers : ∀ f ∈ fs, f.1 ∉ layout.names → IsValue f.2) :
    IsRecordOf layout present (writeRecord fs) := by
  refine ⟨_, isRecord_writeRecord fs, ?_, ?_, ?_⟩
  · rwa [List.map_map]
  · exact List.forall_mem_map.2 hvalues
  · exact List.forall_mem_map.2 hothers

end TraceLoad.Json
