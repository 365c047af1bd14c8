import TraceLoad.Proofs.Layouts
import TraceLoad.Proofs.Literals
import TraceLoad.Proofs.Unescaping

/-! # Values of any shape, kept or refused

A value that is kept is read to its last part, so that one part which cannot be kept spoils it.
There are three reasons why one cannot: a number is too large, a text spells nothing, or lists and
records are nested too deeply. `Kept` leaves out all three, and such a value is read
(`exists_takes`); any other value of the format is read or refused, and nothing else happens
(`settles`).
-/

namespace TraceLoad.Json

variable {b : UInt8} {bytes gap rest : List UInt8} {room : Nat}

/-- A value without anything that cannot be kept: its numbers are small enough to be kept however
they are written, its texts spell something, and it is nested at most `room` levels deep. -/
inductive Kept : Nat → List UInt8 → Prop where
  | word {room : Nat} {bytes : List UInt8}
      (word : bytes ∈ [ascii "null", ascii "true", ascii "false"]) : Kept room bytes
  | number {room : Nat} (l : Literal) (small : l.size < leastRefused) : Kept room l.bytes
  | text {room : Nat} {s : String} {bytes : List UInt8} (text : IsTextOf s bytes) :
      Kept room bytes
  | list {room : Nat} {items : List Padded} {bytes : List UInt8} (list : IsList items bytes)
      (values : ∀ i ∈ items, Kept room i.inner) : Kept (room + 1) bytes
  | record {room : Nat} {fs : List Field} {bytes : List UInt8}
      (record : IsRecord (fs.map (·.toEntry)) bytes)
      (values : ∀ f ∈ fs, Kept room f.value.inner) : Kept (room + 1) bytes

namespace Reader

variable {α β : Type}

/-- The bytes begin visibly, and the reader refuses them, whatever blanks stand in front of them and
whatever stands behind that goes on with no number. -/
structure Refuses (r : Reader α) (bytes : List UInt8) : Prop where
  begins : ∃ d tail, bytes = d :: tail ∧ Begins d
  refuses : ∀ gap rest, IsGap gap → Ends rest → r (gap ++ (bytes ++ rest)) = .error .malformed

/-- A value is read from the bytes, or they are refused. -/
inductive Settles (r : Reader α) (bytes : List UInt8) : Prop where
  | takes {x : α} (takes : Takes r bytes x)
  | refuses (refuses : Refuses r bytes)

theorem Settles.begins {r : Reader α} (h : Settles r bytes) :
    ∃ d tail, bytes = d :: tail ∧ Begins d := by
  cases h with
  | takes takes => exact takes.begins
  | refuses refuses => exact refuses.begins

/-- What fails first is what the whole fails for. -/
theorem bind_error {r : Reader α} {f : Fault} (h : r bytes = .error f) (g : α → Reader β) :
    (r >>= g) bytes = .error f := by
  show (r bytes >>= fun y => g y.1 y.2) = _
  rw [h]
  rfl

theorem map_error {r : Reader α} {f : Fault} (h : r bytes = .error f) (g : α → β) :
    (g <$> r) bytes = .error f := by
  show (r bytes >>= fun y => Except.ok (g y.1, y.2)) = _
  rw [h]
  rfl

/-! ## Values without an inside -/

/-- Blanks in front of a value make no difference. -/
theorem value_gap (room : Nat) (hgap : IsGap gap) (bytes : List UInt8) :
    value room (gap ++ bytes) = value room bytes := by
  cases room with
  | zero => exact lead_bind_gap _ hgap bytes
  | succ room => exact lead_bind_gap _ hgap bytes

/-- A value that does not open anything is taken if it is scanned. -/
theorem takes_of_scalar {d : UInt8} {tail : List UInt8} {v : Json} (hbytes : bytes = d :: tail)
    (hd : Begins d) (hopening : isOpening d = false)
    (hread : ∀ rest, Ends rest → scalar d (bytes ++ rest) = .ok (v, rest)) :
    Takes (value room) bytes v where
  begins := ⟨d, tail, hbytes, hd⟩
  reads gap rest hgap hrest := by
    have hlead : lead (bytes ++ rest) = .ok (d, bytes ++ rest) := by
      rw [hbytes]
      exact lead_cons hd.1
    rw [value_gap room hgap, value_eq_scalar hlead hopening, hread rest hrest]

/-- A value that does not open anything is refused if it is not scanned. -/
theorem refuses_of_scalar {d : UInt8} {tail : List UInt8} (hbytes : bytes = d :: tail)
    (hd : Begins d) (hopening : isOpening d = false)
    (hread : ∀ rest, Ends rest → scalar d (bytes ++ rest) = .error .malformed) :
    Refuses (value room) bytes where
  begins := ⟨d, tail, hbytes, hd⟩
  refuses gap rest hgap hrest := by
    have hlead : lead (bytes ++ rest) = .ok (d, bytes ++ rest) := by
      rw [hbytes]
      exact lead_cons hd.1
    rw [value_gap room hgap, value_eq_scalar hlead hopening, hread rest hrest]

theorem takes_value_text {s : String} (h : IsTextOf s bytes) :
    Takes (value room) bytes (.text s) := by
  rcases exists_cons_of_isTextOf h with ⟨tail, hbytes⟩
  refine takes_of_scalar hbytes (by decide) rfl ?_
  intro rest _
  rw [scalar, if_pos rfl, bind_ok (quoted_isTextOf h rest)]
  rfl

/-- A text is read if it spells something, and is refused if not. -/
theorem text_settles (h : IsText bytes) :
    (∃ s, IsTextOf s bytes) ∨ Refuses (value room) bytes := by
  rcases quoted_isText h with hspelled | hquoted
  · exact .inl hspelled
  · right
    rcases h with ⟨pieces, _, hbytes⟩
    refine refuses_of_scalar hbytes (by decide) rfl ?_
    intro rest _
    rw [scalar, if_pos rfl, bind_error (hquoted rest)]

theorem takes_value_word {letters : List UInt8} {v : Json} (hword : word? b = some (letters, v))
    (hb : Begins b) (hopening : isOpening b = false) (hquote : b ≠ quoteMark)
    (hnumber : beginsNumber b = false) : Takes (value room) (b :: letters) v where
  begins := ⟨b, letters, rfl, hb⟩
  reads gap rest hgap hrest := by
    rw [value_gap room hgap,
      reads_value_word room hword hb.1 hopening hquote hnumber rest hrest]

theorem takes_value_null : Takes (value room) (ascii "null") .null := by
  have hbytes : ascii "null" = 0x6E :: ascii "ull" := by decide
  rw [hbytes]
  exact takes_value_word rfl (by decide) rfl (by decide) rfl

theorem takes_value_flag (flag : Bool) :
    Takes (value room) (Json.flag flag).write (.flag flag) := by
  cases flag with
  | true =>
    have hbytes : (Json.flag true).write = 0x74 :: ascii "rue" := by decide
    rw [hbytes]
    exact takes_value_word rfl (by decide) rfl (by decide) rfl
  | false =>
    have hbytes : (Json.flag false).write = 0x66 :: ascii "alse" := by decide
    rw [hbytes]
    exact takes_value_word rfl (by decide) rfl (by decide) rfl

theorem exists_takes_word (h : bytes ∈ [ascii "null", ascii "true", ascii "false"]) :
    ∃ v, Takes (value room) bytes v := by
  simp only [List.mem_cons, List.not_mem_nil, or_false] at h
  rcases h with rfl | rfl | rfl
  · exact ⟨.null, takes_value_null⟩
  · exact ⟨.flag true, takes_value_flag true⟩
  · exact ⟨.flag false, takes_value_flag false⟩

/-! ## Numbers -/

/-- A number is taken from its literal, if the literal is. -/
theorem takes_value_literal (l : Literal) {n : Number}
    (h : ∀ rest, Ends rest → scanNumber l.negative (l.unsigned ++ rest) = .ok (n, rest)) :
    Takes (value room) l.bytes (.number n) := by
  rcases l.number_eq with ⟨d, tail, hbytes, hd, hnumber⟩
  obtain ⟨-, hopening, hquote⟩ := of_beginsNumber hd
  refine takes_of_scalar hbytes (begins_of_beginsNumber hd) hopening ?_
  intro rest hrest
  have hread : number d (l.bytes ++ rest) = .ok (n, rest) := (hnumber rest).trans (h rest hrest)
  rw [scalar, if_neg hquote, if_pos hd, bind_ok hread]
  rfl

theorem refuses_value_literal (l : Literal)
    (h : ∀ rest, Ends rest → scanNumber l.negative (l.unsigned ++ rest) = .error .malformed) :
    Refuses (value room) l.bytes := by
  rcases l.number_eq with ⟨d, tail, hbytes, hd, hnumber⟩
  obtain ⟨-, hopening, hquote⟩ := of_beginsNumber hd
  refine refuses_of_scalar hbytes (begins_of_beginsNumber hd) hopening ?_
  intro rest hrest
  have hread : number d (l.bytes ++ rest) = .error .malformed :=
    (hnumber rest).trans (h rest hrest)
  rw [scalar, if_neg hquote, if_pos hd, bind_error hread]

theorem takes_value_plain (l : Literal) (hfraction : l.fraction = []) (hexponent : l.exponent = [])
    (hfits : numeral l.whole < UInt64.size) :
    Takes (value room) l.bytes (.number (wholeNumber l.negative (numeral l.whole))) :=
  takes_value_literal l fun _ hrest => l.scanNumber_plain hfraction hexponent hfits hrest

/-- Any other number is read as a real one, unless it is too large and refused. -/
theorem value_signed_cases (l : Literal)
    (hreal : l.fraction = [] → l.exponent = [] → UInt64.size ≤ numeral l.whole) :
    (∃ x, Takes (value room) l.bytes (.number (.real x))) ∨
      leastRefused ≤ l.size ∧ Refuses (value room) l.bytes := by
  rcases l.signed_cases hreal with ⟨x, hscan⟩ | ⟨hlarge, hscan⟩
  · exact .inl ⟨x, takes_value_literal l hscan⟩
  · exact .inr ⟨hlarge, refuses_value_literal l hscan⟩

theorem value_literal_cases (l : Literal) :
    (∃ n, Takes (value room) l.bytes (.number n)) ∨
      leastRefused ≤ l.size ∧ Refuses (value room) l.bytes := by
  by_cases hreal : l.fraction = [] → l.exponent = [] → UInt64.size ≤ numeral l.whole
  · rcases value_signed_cases l hreal with ⟨x, htakes⟩ | hrefuses
    · exact .inl ⟨.real x, htakes⟩
    · exact .inr hrefuses
  · simp only [not_forall, not_le] at hreal
    rcases hreal with ⟨hfraction, hexponent, hfits⟩
    exact .inl ⟨_, takes_value_plain l hfraction hexponent hfits⟩

/-! ## Lists -/

variable {item : Reader α} {i j : Padded} {is items : List Padded}

/-- The items from one on spoil the list, wherever they stand in it. -/
def SpoilList (item : Reader α) (i : Padded) (is : List Padded) : Prop :=
  ∀ (bound : List UInt8) (first : Bool) (bytes rest : List UInt8), is.length < bound.length →
    another first bytes =
      .ok (true, i.inner ++ (i.after ++ later closeList (is.map (·.bytes)) rest)) →
    itemsWithin item bound first bytes = .error .malformed

/-- An item that is refused spoils the list. -/
theorem Refuses.spoilList (h : Refuses item i.inner) (is : List Padded) : SpoilList item i is := by
  intro bound first bytes rest hbound hanother
  have hread := h.refuses [] _ isGap_nil
    (ends_gap i.blankAfter (Pair.list.ends_later (is.map (·.bytes)) rest))
  rw [List.nil_append] at hread
  cases bound with
  | nil => cases hbound
  | cons b bound => rw [itemsWithin, bind_ok hanother, if_pos rfl, bind_error hread]

/-- Items that spoil a list also do so behind one that is read. -/
theorem SpoilList.cons {x : α} (h : SpoilList item j is) (htakes : Takes item i.inner x)
    (hbegins : ∃ d tail, j.inner = d :: tail ∧ Begins d) : SpoilList item i (j :: is) := by
  intro bound first bytes rest hbound hanother
  have hread := htakes.reads [] _ isGap_nil
    (ends_gap i.blankAfter (Pair.list.ends_later ((j :: is).map (·.bytes)) rest))
  rw [List.nil_append] at hread
  cases bound with
  | nil => cases hbound
  | cons b bound =>
    have hmore := h bound false _ rest (Nat.lt_of_succ_lt_succ hbound)
      (another_later hbegins i.blankAfter _)
    rw [itemsWithin, bind_ok hanother, if_pos rfl, bind_ok hread]
    exact bind_error hmore _

/-- The items from one on are all read, or they spoil the list. -/
theorem items_settle (i : Padded) (is : List Padded) (h : ∀ j ∈ i :: is, Settles item j.inner) :
    (∃ xs, List.Forall₂ (fun x j => Takes item j.inner x) xs (i :: is)) ∨ SpoilList item i is := by
  induction is generalizing i with
  | nil =>
    cases h i List.mem_cons_self with
    | takes takes => exact .inl ⟨[_], .cons takes .nil⟩
    | refuses refuses => exact .inr (refuses.spoilList [])
  | cons j js ih =>
    -- whatever becomes of the next item, it begins like one
    have hj := h j (List.mem_cons_of_mem i List.mem_cons_self)
    cases h i List.mem_cons_self with
    | takes takes =>
      rcases ih j fun k hk => h k (List.mem_cons_of_mem i hk) with ⟨xs, hxs⟩ | hspoil
      · exact .inl ⟨_ :: xs, .cons takes hxs⟩
      · exact .inr (hspoil.cons takes hj.begins)
    | refuses refuses => exact .inr (refuses.spoilList (j :: js))

/-- A list is read by reading what is between its brackets. -/
theorem value_bracketed_list (hgap : IsGap gap) (inside rest : List UInt8) :
    value (room + 1) (gap ++ (openList :: (inside ++ [closeList]) ++ rest)) =
      (itemsWithin (value room) (inside ++ closeList :: rest) true >>= fun xs => pure (.list xs))
        (inside ++ closeList :: rest) := by
  have hlead : lead (openList :: (inside ++ [closeList]) ++ rest) =
      .ok (openList, openList :: (inside ++ [closeList]) ++ rest) := lead_cons rfl
  have hitems : Reader.items (value room) (openList :: (inside ++ [closeList]) ++ rest) =
      itemsWithin (value room) (inside ++ closeList :: rest) true
        (inside ++ closeList :: rest) := by
    -- the bound is what is left behind the bracket, since an item takes one byte at least
    have hremaining : ∀ all, remaining all = .ok (all, all) := fun _ => rfl
    rw [Reader.items, bind_ok (advance_bracketed _ _ _ _), bind_ok (hremaining _)]
  rw [value_gap _ hgap, value, bind_ok hlead, if_pos rfl]
  show (Reader.items (value room) _ >>= _) = (itemsWithin (value room) _ true _ >>= _)
  rw [hitems]

/-- A list is taken if its items are. -/
theorem takes_value_list {xs : List Json}
    (h : List.Forall₂ (fun x i => Takes (value room) i.inner x) xs items)
    (hbytes : IsList items bytes) : Takes (value (room + 1)) bytes (.list xs) := by
  rcases hbytes with ⟨inside, hinside, rfl⟩
  refine ⟨⟨openList, _, rfl, by decide⟩, ?_⟩
  intro gap rest hgap _
  have hbound := length_lt_between hinside (ne_nil_of_takes h) closeList rest
  rw [List.length_map] at hbound
  rw [value_bracketed_list hgap, bind_ok (itemsWithin_between h hinside hbound rest)]
  rfl

/-- A list is read if its items are, and is refused otherwise. -/
theorem list_settles (hbytes : IsList items bytes)
    (h : ∀ i ∈ items, Settles (value room) i.inner) :
    (∃ xs, Takes (value (room + 1)) bytes (.list xs)) ∨ Refuses (value (room + 1)) bytes := by
  cases items with
  | nil => exact .inl ⟨[], takes_value_list .nil hbytes⟩
  | cons i is =>
    rcases items_settle i is h with ⟨xs, hxs⟩ | hspoil
    · exact .inl ⟨xs, takes_value_list hxs hbytes⟩
    · right
      rcases hbytes with ⟨inside, hinside, rfl⟩
      refine ⟨⟨openList, _, rfl, by decide⟩, ?_⟩
      intro gap rest hgap _
      cases hinside with
      | parts =>
        have hbegins := (h i List.mem_cons_self).begins
        -- the parts are counted by their bytes
        have hbound : is.length <
            (i.bytes ++ later closeList (is.map (·.bytes)) rest).length := by
          have hlater := length_lt_later closeList (is.map (·.bytes)) rest
          rw [List.length_map] at hlater
          rw [List.length_append]
          omega
        rw [value_bracketed_list hgap, joinItems_later,
          bind_error (hspoil _ true _ rest hbound (another_first hbegins _))]

/-! ## Records -/

variable {e : Entry} {es : List Entry} {f : Field} {v : Json} {s : List (String × Json)}
  {bound more : List UInt8} {first : Bool}

/-- A field is kept in front of those that have been there. -/
def keepField (room : Nat) (fs : List (String × Json)) (name : String) :
    Except Fault (Reader (List (String × Json))) :=
  .ok ((fun v => (name, v) :: fs) <$> value room)

/-- What is read of the name of a field in front of the colon, wherever the field stands. -/
def Names (first : Bool) (bytes : List UInt8) (e : Entry) (more : List UInt8) : Prop :=
  nextName first bytes =
    (some <$> quoted) (e.label.inner ++ (e.label.after ++ colon :: (e.value.bytes ++ more)))

theorem lead_isText (h : IsText e.label.inner) (more : List UInt8) :
    lead (e.bytes ++ more) =
      .ok (quoteMark, e.label.inner ++ (e.label.after ++ colon :: (e.value.bytes ++ more))) := by
  rcases h with ⟨pieces, _, hinner⟩
  have hbytes : e.bytes ++ more = e.label.before ++
      (e.label.inner ++ (e.label.after ++ colon :: (e.value.bytes ++ more))) := by
    simp only [Entry.bytes, Padded.bytes, List.append_assoc, List.cons_append]
  rw [hbytes, hinner, List.cons_append, lead_gap_cons e.label.blankBefore rfl]

theorem names_first (h : IsText e.label.inner) (more : List UInt8) :
    Names true (e.bytes ++ more) e more := by
  rw [Names, nextName, bind_ok (lead_isText h more), if_neg (by decide)]
  rfl

theorem names_later (h : IsText e.label.inner) (hgap : IsGap gap) (more : List UInt8) :
    Names false (gap ++ comma :: (e.bytes ++ more)) e more := by
  have hdrop : advance (comma :: (e.bytes ++ more)) = .ok ((), e.bytes ++ more) := rfl
  rw [Names, nextName, bind_ok (lead_gap_cons hgap rfl _), if_neg (by decide), if_neg (by decide),
    if_pos rfl, bind_ok hdrop, bind_ok (lead_isText h more)]
  rfl

/-- Behind a name comes what the value is. -/
theorem membersWithin_named (hnames : Names first bytes f.toEntry more) :
    membersWithin (keepField room) (b :: bound) first s bytes =
      (value room >>= fun v => membersWithin (keepField room) bound false ((f.name, v) :: s))
        (f.value.bytes ++ more) := by
  have hname : nextName first bytes =
      .ok (some f.name, f.label.after ++ colon :: (f.value.bytes ++ more)) :=
    hnames.trans (map_ok (quoted_isTextOf f.spelled _) some)
  rw [membersWithin, bind_ok hname]
  dsimp only [keepField]
  rw [bind_ok (separator_gap f.label.blankAfter _)]
  -- the reader keeps the pair, and here the value is read before it is paired with its name
  cases hvalue : value room (f.value.bytes ++ more) with
  | error fault => rw [bind_error (map_error hvalue _), bind_error hvalue]
  | ok found => rw [bind_ok (map_ok hvalue _), bind_ok hvalue]

/-- The fields from one on spoil the record, wherever they stand in it and whatever was kept. -/
def SpoilRecord (room : Nat) (s : List (String × Json)) (e : Entry) (es : List Entry) : Prop :=
  ∀ (bound : List UInt8) (first : Bool) (bytes rest : List UInt8), es.length < bound.length →
    Names first bytes e (later closeRecord (es.map (·.bytes)) rest) →
    membersWithin (keepField room) bound first s bytes = .error .malformed

/-- A name that spells nothing spoils the record. -/
theorem spoilRecord_of_name (h : ∀ rest, quoted (e.label.inner ++ rest) = .error .malformed)
    (s : List (String × Json)) (es : List Entry) : SpoilRecord room s e es := by
  intro bound first bytes rest hbound hnames
  have hname : nextName first bytes = .error .malformed := hnames.trans (map_error (h _) some)
  cases bound with
  | nil => cases hbound
  | cons b bound => rw [membersWithin, bind_error hname]

theorem bytes_append (p : Padded) (more : List UInt8) :
    p.bytes ++ more = p.before ++ (p.inner ++ (p.after ++ more)) := by
  simp only [Padded.bytes, List.append_assoc]

/-- A value that is refused does. -/
theorem Refuses.spoilRecord (h : Refuses (value room) f.value.inner) (s : List (String × Json))
    (es : List Entry) : SpoilRecord room s f.toEntry es := by
  intro bound first bytes rest hbound hnames
  have hread := h.refuses f.value.before _ f.value.blankBefore
    (ends_gap f.value.blankAfter (Pair.record.ends_later (es.map (·.bytes)) rest))
  rw [← bytes_append] at hread
  cases bound with
  | nil => cases hbound
  | cons b bound => rw [membersWithin_named hnames, bind_error hread]

/-- Fields that spoil a record also do so behind one that can be kept. -/
theorem SpoilRecord.cons (h : SpoilRecord room ((f.name, v) :: s) e es)
    (htakes : Takes (value room) f.value.inner v) (hlabel : IsText e.label.inner) :
    SpoilRecord room s f.toEntry (e :: es) := by
  intro bound first bytes rest hbound hnames
  have hread := htakes.reads f.value.before _ f.value.blankBefore
    (ends_gap f.value.blankAfter (Pair.record.ends_later ((e :: es).map (·.bytes)) rest))
  rw [← bytes_append] at hread
  cases bound with
  | nil => cases hbound
  | cons b bound =>
    rw [membersWithin_named hnames, bind_ok hread]
    exact h bound false _ rest (Nat.lt_of_succ_lt_succ hbound)
      (names_later hlabel f.value.blankAfter _)

/-- A field can be kept, or it spoils the record. -/
theorem entry_settles (hlabel : IsText e.label.inner)
    (hvalue : Settles (value room) e.value.inner) :
    (∃ (f : Field) (v : Json), f.toEntry = e ∧ Takes (value room) f.value.inner v) ∨
      ∀ s es, SpoilRecord room s e es := by
  rcases quoted_isText hlabel with ⟨name, spelled⟩ | hquoted
  · let f : Field := ⟨e, name, spelled⟩
    cases hvalue with
    | takes takes => exact .inl ⟨f, _, rfl, takes⟩
    | refuses refuses => exact .inr (Refuses.spoilRecord (f := f) refuses)
  · exact .inr (spoilRecord_of_name hquoted)

/-- The fields from one on are all kept, or they spoil the record. -/
theorem entries_settle (e : Entry) (es : List Entry)
    (hlabels : ∀ d ∈ e :: es, IsText d.label.inner)
    (hvalues : ∀ d ∈ e :: es, Settles (value room) d.value.inner) (s : List (String × Json)) :
    (∃ fs s', List.map Field.toEntry fs = e :: es ∧ Fills (keepField room) s fs s') ∨
      SpoilRecord room s e es := by
  -- the fields in front are in `s` when those behind are read
  induction es generalizing e s with
  | nil =>
    rcases entry_settles (hlabels e List.mem_cons_self) (hvalues e List.mem_cons_self) with
      ⟨f, v, rfl, htakes⟩ | hspoil
    · exact .inl ⟨[f], _, rfl, .cons rfl (htakes.map _).reads_padded .nil⟩
    · exact .inr (hspoil s [])
  | cons d es ih =>
    have hlabel := hlabels d (List.mem_cons_of_mem e List.mem_cons_self)
    rcases entry_settles (hlabels e List.mem_cons_self) (hvalues e List.mem_cons_self) with
      ⟨f, v, rfl, htakes⟩ | hspoil
    · rcases ih d (fun d hd => hlabels d (List.mem_cons_of_mem _ hd))
        (fun d hd => hvalues d (List.mem_cons_of_mem _ hd)) ((f.name, v) :: s) with
        ⟨fs, s', hfs, hfills⟩ | hspoil
      · have hall : List.map Field.toEntry (f :: fs) = f.toEntry :: d :: es := by
          rw [List.map_cons, hfs]
        exact .inl ⟨f :: fs, s', hall, .cons rfl (htakes.map _).reads_padded hfills⟩
      · exact .inr (hspoil.cons htakes hlabel)
    · exact .inr (hspoil s (d :: es))

/-- A record is read by reading what is between its brackets. -/
theorem value_bracketed_record (hgap : IsGap gap) (inside rest : List UInt8) :
    value (room + 1) (gap ++ (openRecord :: (inside ++ [closeRecord]) ++ rest)) =
      (membersWithin (keepField room) (inside ++ closeRecord :: rest) true [] >>=
        fun fs => pure (.record fs.reverse)) (inside ++ closeRecord :: rest) := by
  have hlead : lead (openRecord :: (inside ++ [closeRecord]) ++ rest) =
      .ok (openRecord, openRecord :: (inside ++ [closeRecord]) ++ rest) := lead_cons rfl
  have hmembers : members (keepField room) [] (openRecord :: (inside ++ [closeRecord]) ++ rest) =
      membersWithin (keepField room) (inside ++ closeRecord :: rest) true []
        (inside ++ closeRecord :: rest) := by
    -- as for a list, the bound is what is left behind the bracket
    have hremaining : ∀ all, remaining all = .ok (all, all) := fun _ => rfl
    rw [members, bind_ok (advance_bracketed _ _ _ _), bind_ok (hremaining _)]
  rw [value_gap _ hgap, value, bind_ok hlead, if_neg (by decide), if_pos rfl]
  show (members (keepField room) [] _ >>= _) = (membersWithin (keepField room) _ true [] _ >>= _)
  rw [hmembers]

/-- A record is taken if its fields are. -/
theorem takes_value_record {fs : List Field} {s : List (String × Json)}
    (h : Fills (keepField room) [] fs s) (hbytes : IsRecord (fs.map (·.toEntry)) bytes) :
    Takes (value (room + 1)) bytes (.record s.reverse) := by
  refine ⟨begins_isRecord hbytes, ?_⟩
  intro gap rest hgap _
  have hlead : lead (bytes ++ rest) = .ok (openRecord, bytes ++ rest) :=
    lead_isRecord hbytes isGap_nil rest
  rw [value_gap _ hgap, value, bind_ok hlead, if_neg (by decide), if_pos rfl]
  exact bind_ok (members_isRecord h hbytes rest)

/-- A record is read if its fields are, and is refused otherwise. -/
theorem record_settles (hbytes : IsRecord es bytes) (hlabels : ∀ e ∈ es, IsText e.label.inner)
    (hvalues : ∀ e ∈ es, Settles (value room) e.value.inner) :
    (∃ fs, Takes (value (room + 1)) bytes (.record fs)) ∨ Refuses (value (room + 1)) bytes := by
  cases es with
  | nil =>
    have hnone : Fills (keepField room) [] [] [] := .nil
    exact .inl ⟨_, takes_value_record hnone hbytes⟩
  | cons e es =>
    rcases entries_settle e es hlabels hvalues [] with ⟨fs, s, hfs, hfills⟩ | hspoil
    · -- the fields that are kept are the entries, with their names spelled out
      rw [← hfs] at hbytes
      exact .inl ⟨_, takes_value_record hfills hbytes⟩
    · right
      refine ⟨begins_isRecord hbytes, ?_⟩
      rcases hbytes with ⟨inside, hinside, rfl⟩
      intro gap rest hgap _
      cases hinside with
      | parts =>
        have hbound : es.length <
            (e.bytes ++ later closeRecord (es.map (·.bytes)) rest).length := by
          have hlater := length_lt_later closeRecord (es.map (·.bytes)) rest
          rw [List.length_map] at hlater
          rw [List.length_append]
          omega
        rw [value_bracketed_record hgap, joinItems_later,
          bind_error (hspoil _ true _ rest hbound (names_first (hlabels e List.mem_cons_self) _))]

/-! ## Any value -/

/-- Without room nothing that opens is read. -/
theorem refuses_nested {d : UInt8} {tail : List UInt8} (hbytes : bytes = d :: tail) (hd : Begins d)
    (hopening : isOpening d = true) : Refuses (value 0) bytes where
  begins := ⟨d, tail, hbytes, hd⟩
  refuses gap rest hgap hrest := by
    have hlead : lead (bytes ++ rest) = .ok (d, bytes ++ rest) := by
      rw [hbytes]
      exact lead_cons hd.1
    rw [value_gap 0 hgap, value, bind_ok hlead, if_pos hopening]
    rfl

/-- A value is read or refused, however deeply it is nested. -/
theorem settles (h : IsValue bytes) (room : Nat) : Settles (value room) bytes := by
  -- inside a list or a record there is less room
  induction h generalizing room with
  | word word =>
    rcases exists_takes_word word with ⟨v, htakes⟩
    exact .takes htakes
  | number number =>
    rcases isNumber_iff.1 number with ⟨l, rfl⟩
    rcases value_literal_cases l with ⟨n, htakes⟩ | ⟨-, hrefuses⟩
    · exact .takes htakes
    · exact .refuses hrefuses
  | text text =>
    rcases text_settles text with ⟨s, hs⟩ | hrefuses
    · exact .takes (takes_value_text hs)
    · exact .refuses hrefuses
  | list list values ih =>
    cases room with
    | zero =>
      rcases list with ⟨inside, _, hbytes⟩
      exact .refuses (refuses_nested hbytes (by decide) rfl)
    | succ room =>
      rcases list_settles list fun i hi => ih i hi room with ⟨xs, htakes⟩ | hrefuses
      · exact .takes htakes
      · exact .refuses hrefuses
  | record record labels values ih =>
    cases room with
    | zero =>
      rcases record with ⟨inside, _, hbytes⟩
      exact .refuses (refuses_nested hbytes (by decide) rfl)
    | succ room =>
      rcases record_settles record labels fun e he => ih e he room with ⟨fs, htakes⟩ | hrefuses
      · exact .takes htakes
      · exact .refuses hrefuses

/-- Items that can each be taken make a list of values. -/
theorem exists_takes_items (h : ∀ i ∈ items, ∃ v, Takes (value room) i.inner v) :
    ∃ xs, List.Forall₂ (fun x i => Takes (value room) i.inner x) xs items := by
  induction items with
  | nil => exact ⟨[], .nil⟩
  | cons i items ih =>
    rcases h i List.mem_cons_self with ⟨v, hv⟩
    rcases ih fun j hj => h j (List.mem_cons_of_mem i hj) with ⟨xs, hxs⟩
    exact ⟨v :: xs, .cons hv hxs⟩

/-- Fields that can each be taken fill a record. -/
theorem exists_fills {fs : List Field} (h : ∀ f ∈ fs, ∃ v, Takes (value room) f.value.inner v)
    (s : List (String × Json)) : ∃ s', Fills (keepField room) s fs s' := by
  induction fs generalizing s with
  | nil => exact ⟨s, .nil⟩
  | cons f fs ih =>
    rcases h f List.mem_cons_self with ⟨v, hv⟩
    rcases ih (fun g hg => h g (List.mem_cons_of_mem f hg)) ((f.name, v) :: s) with ⟨s', hs'⟩
    exact ⟨s', .cons rfl (hv.map _).reads_padded hs'⟩

/-- A value without anything that cannot be kept is read. -/
theorem exists_takes (h : Kept room bytes) : ∃ v, Takes (value room) bytes v := by
  induction h with
  | word word => exact exists_takes_word word
  | number l small =>
    rcases value_literal_cases l with ⟨n, htakes⟩ | ⟨hlarge, -⟩
    · exact ⟨_, htakes⟩
    · exact absurd small (not_lt.2 hlarge)
  | text text => exact ⟨_, takes_value_text text⟩
  | list list values ih =>
    rcases exists_takes_items ih with ⟨xs, hxs⟩
    exact ⟨_, takes_value_list hxs list⟩
  | record record values ih =>
    rcases exists_fills ih [] with ⟨s, hs⟩
    exact ⟨_, takes_value_record hs record⟩

end Reader

end TraceLoad.Json
