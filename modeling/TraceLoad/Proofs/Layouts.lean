import TraceLoad.Proofs.Passing

/-! # Reading what is written in any way

`Takes r bytes x` says that the reader `r` makes `x` of `bytes`, whatever blanks stand in front of
them and whatever goes on behind. Lists are taken item by item (`takes_listOf`) and records field by
field (`Fills`). Where a record may have its fields in any order, and others among them, what is
gathered depends only on which fields there are (`Collects.members`).
-/

namespace TraceLoad.Json

variable {b : UInt8} {bytes gap rest : List UInt8}

namespace Reader

variable {α σ : Type}

/-- The bytes begin visibly, and a value is read from them, whatever blanks stand in front of them
and whatever stands behind that goes on with no number. -/
structure Takes (r : Reader α) (bytes : List UInt8) (x : α) : Prop where
  begins : ∃ d tail, bytes = d :: tail ∧ Begins d
  reads : ∀ gap rest, IsGap gap → Ends rest → r (gap ++ (bytes ++ rest)) = .ok (x, rest)

theorem Takes.map {β : Type} {r : Reader α} {x : α} (h : Takes r bytes x) (f : α → β) :
    Takes (f <$> r) bytes (f x) where
  begins := h.begins
  reads gap rest hgap hrest := map_ok (h.reads gap rest hgap hrest) f

/-- Blanks in front are taken along. -/
theorem Takes.reads_padded {r : Reader α} {p : Padded} {x : α} (h : Takes r p.inner x) :
    Reads r (p.before ++ p.inner) x := by
  intro rest hrest
  rw [List.append_assoc]
  exact h.reads p.before rest p.blankBefore hrest

/-- The first byte behind a gap. -/
theorem lead_begins {p : Padded} (h : ∃ d tail, p.inner = d :: tail ∧ Begins d)
    (more : List UInt8) :
    ∃ d, lead (p.bytes ++ more) = .ok (d, p.inner ++ (p.after ++ more)) ∧ Begins d := by
  rcases h with ⟨d, tail, hinner, hd⟩
  refine ⟨d, ?_, hd⟩
  rw [Padded.bytes, List.append_assoc, hinner, List.append_assoc, List.cons_append,
    lead_gap_cons p.blankBefore hd.1]

theorem takes_text {s : String} (h : IsTextOf s bytes) : Takes text bytes s where
  begins := by
    rcases exists_cons_of_isTextOf h with ⟨tail, rfl⟩
    exact ⟨quoteMark, tail, rfl, by decide⟩
  reads _ rest hgap _ := text_isTextOf h hgap rest

theorem takes_skip (h : IsValue bytes) : Takes skip bytes () where
  begins := (passes_value h).begins
  reads _ _ hgap hrest := skip_value h hgap hrest

/-! ## Lists -/

variable {item : Reader α} {x : α} {xs : List α} {i : Padded} {items : List Padded}

/-- At the closing bracket there is no further item. -/
theorem another_close (hgap : IsGap gap) (first : Bool) (rest : List UInt8) :
    another first (gap ++ closeList :: rest) = .ok (false, closeList :: rest) := by
  rw [another, bind_ok (lead_gap_cons hgap rfl rest), if_pos rfl]
  rfl

/-- The first item follows without a comma. -/
theorem another_first (h : ∃ d tail, i.inner = d :: tail ∧ Begins d) (more : List UInt8) :
    another true (i.bytes ++ more) = .ok (true, i.inner ++ (i.after ++ more)) := by
  rcases lead_begins h more with ⟨d, hlead, hd⟩
  rw [another, bind_ok hlead, if_neg hd.2.1, if_pos rfl]
  rfl

/-- Any later item follows a comma, with blanks around it. -/
theorem another_later (h : ∃ d tail, i.inner = d :: tail ∧ Begins d) (hgap : IsGap gap)
    (more : List UInt8) :
    another false (gap ++ comma :: (i.bytes ++ more)) =
      .ok (true, i.inner ++ (i.after ++ more)) := by
  rcases lead_begins h more with ⟨d, hlead, hd⟩
  have hdrop : advance (comma :: (i.bytes ++ more)) = .ok ((), i.bytes ++ more) := rfl
  rw [another, bind_ok (lead_gap_cons hgap rfl _), if_neg (by decide), if_neg (by decide),
    if_pos rfl, bind_ok hdrop, bind_ok hlead, if_neg hd.2.1]
  rfl

/-- One item of a list is read, and then those behind it. -/
theorem itemsWithin_item {first : Bool} {bound more : List UInt8} (h : Takes item i.inner x)
    (hanother : another first bytes = .ok (true, i.inner ++ (i.after ++ more)))
    (hends : Ends (i.after ++ more))
    (hmore : itemsWithin item bound false (i.after ++ more) = .ok (xs, rest)) :
    itemsWithin item (b :: bound) first bytes = .ok (x :: xs, rest) := by
  have hread := h.reads [] _ isGap_nil hends
  rw [List.nil_append] at hread
  rw [itemsWithin, bind_ok hanother, if_pos rfl, bind_ok hread, bind_ok hmore]
  rfl

/-- The items behind one that has been read are read as they come. -/
theorem itemsWithin_later (h : List.Forall₂ (fun x i => Takes item i.inner x) xs items)
    {bound : List UInt8} (hbound : items.length < bound.length) (hgap : IsGap gap)
    (rest : List UInt8) :
    itemsWithin item bound false (gap ++ later closeList (items.map (·.bytes)) rest) =
      .ok (xs, rest) := by
  -- every item takes one byte of the bound, and the closing bracket another
  induction h generalizing bound gap with
  | nil =>
    cases bound with
    | nil => cases hbound
    | cons b bound =>
      rw [itemsWithin, List.map_nil, later, bind_ok (another_close hgap false rest),
        if_neg (by decide)]
      rfl
  | @cons x i xs items hx _ ih =>
    cases bound with
    | nil => cases hbound
    | cons b bound =>
      have hends := ends_gap i.blankAfter (Pair.list.ends_later (items.map (·.bytes)) rest)
      exact itemsWithin_item hx (another_later hx.begins hgap _) hends
        (ih (Nat.lt_of_succ_lt_succ hbound) i.blankAfter)

theorem itemsWithin_between (h : List.Forall₂ (fun x i => Takes item i.inner x) xs items)
    {inside bound : List UInt8} (hinside : Between (items.map (·.bytes)) inside)
    (hbound : items.length < bound.length) (rest : List UInt8) :
    itemsWithin item bound true (inside ++ closeList :: rest) = .ok (xs, rest) := by
  cases bound with
  | nil => cases hbound
  | cons b bound =>
    cases h with
    | nil =>
      cases hinside with
      | nothing blank =>
        -- between the brackets there may be blanks and nothing else
        rw [itemsWithin, bind_ok (another_close blank true rest), if_neg (by decide)]
        rfl
    | @cons x i xs items hx hxs =>
      cases hinside with
      | parts =>
        have hends := ends_gap i.blankAfter (Pair.list.ends_later (items.map (·.bytes)) rest)
        rw [joinItems_later]
        exact itemsWithin_item hx (another_first hx.begins _) hends
          (itemsWithin_later hxs (Nat.lt_of_succ_lt_succ hbound) i.blankAfter rest)

theorem ne_nil_of_takes (h : List.Forall₂ (fun x i => Takes item i.inner x) xs items) :
    ∀ part ∈ items.map (·.bytes), part ≠ [] := by
  induction h with
  | nil => nofun
  | @cons x i xs items hx _ ih =>
    intro part hpart
    rcases List.mem_cons.1 hpart with rfl | hpart
    · rcases hx.begins with ⟨d, tail, hinner, -⟩
      simp [Padded.bytes, hinner]
    · exact ih part hpart

/-- A list is read item by item, inside a level at least. -/
theorem takes_listOf_items {room : Nat} (hroom : room ≠ 0)
    (h : List.Forall₂ (fun x i => Takes item i.inner x) xs items) (hbytes : IsList items bytes) :
    Takes (listOf room item) bytes xs := by
  rcases hbytes with ⟨inside, hinside, rfl⟩
  refine ⟨⟨openList, _, rfl, by decide⟩, ?_⟩
  intro gap rest hgap _
  have hlead : lead (gap ++ (openList :: (inside ++ [closeList]) ++ rest)) =
      .ok (openList, openList :: (inside ++ [closeList]) ++ rest) :=
    lead_gap_cons hgap rfl _
  have hremaining : ∀ all, remaining all = .ok (all, all) := fun _ => rfl
  -- there are enough bytes for all items, since none of them is empty
  have hbound := length_lt_between hinside (ne_nil_of_takes h) closeList rest
  rw [List.length_map] at hbound
  rw [listOf, bind_ok hlead, if_pos rfl, if_neg hroom, Reader.items,
    bind_ok (advance_bracketed _ _ _ _), bind_ok (hremaining _),
    itemsWithin_between h hinside hbound]

/-- Whatever is made of the items of a list, the list is made of that. -/
theorem takes_listOf {β : Type} {Written : β → List UInt8 → Prop} {Agrees : β → α → Prop}
    {ys : List β} {room : Nat} (hroom : room ≠ 0)
    (hitem : ∀ y bytes, Written y bytes → ∃ x, Agrees y x ∧ Takes item bytes x)
    (h : IsListOf Written ys bytes) :
    ∃ xs, List.Forall₂ Agrees ys xs ∧ Takes (listOf room item) bytes xs := by
  rcases h with ⟨items, hbytes, hwritten⟩
  have hread : ∃ xs, List.Forall₂ Agrees ys xs ∧
      List.Forall₂ (fun x i => Takes item i.inner x) xs items := by
    -- the induction goes over the items alone, which the brackets would not allow
    clear hbytes
    induction hwritten with
    | nil => exact ⟨[], .nil, .nil⟩
    | cons hy _ ih =>
      rcases ih with ⟨xs, hagree, htakes⟩
      rcases hitem _ _ hy with ⟨x, hx, htake⟩
      exact ⟨x :: xs, .cons hx hagree, .cons htake htakes⟩
  rcases hread with ⟨xs, hagree, htakes⟩
  exact ⟨xs, hagree, takes_listOf_items hroom htakes hbytes⟩

/-- A list whose items are read as they are is read as it is. -/
theorem takes_listOf_self {Written : α → List UInt8 → Prop} {room : Nat} (hroom : room ≠ 0)
    (hitem : ∀ x bytes, Written x bytes → Takes item bytes x) (h : IsListOf Written xs bytes) :
    Takes (listOf room item) bytes xs := by
  have hsame : ∀ y bytes, Written y bytes → ∃ x, y = x ∧ Takes item bytes x := by
    intro y bytes hy
    exact ⟨y, rfl, hitem y bytes hy⟩
  rcases takes_listOf hroom hsame h with ⟨xs', hequal, htakes⟩
  rw [List.forall₂_eq_eq_eq] at hequal
  subst hequal
  exact htakes

/-! ## Records -/

variable {field : σ → String → Except Fault (Reader σ)} {s s' : σ} {fs : List Field}

theorem begins_isRecord {es : List Entry} (h : IsRecord es bytes) :
    ∃ d tail, bytes = d :: tail ∧ Begins d := by
  rcases exists_cons_of_isRecord h with ⟨tail, rfl⟩
  exact ⟨openRecord, tail, rfl, by decide⟩

/-- A record is taken if its fields fill what is gathered. -/
theorem takes_recordOf {room : Nat} (hroom : room ≠ 0) (h : Fills field s fs s')
    (hbytes : IsRecord (fs.map (·.toEntry)) bytes) : Takes (recordOf room field s) bytes s' where
  begins := begins_isRecord hbytes
  reads _ rest hgap _ := recordOf_isRecord hroom h hbytes hgap rest

/-- A record that may also be a list of its fields is read by its fields. -/
theorem takes_structureOf {asList asRecord : Reader α} {x : α} {room : Nat} (hroom : room ≠ 0)
    {es : List Entry} (hbytes : IsRecord es bytes)
    (h : ∀ rest, asRecord (bytes ++ rest) = .ok (x, rest)) :
    Takes (structureOf room asList asRecord) bytes x where
  begins := begins_isRecord hbytes
  reads gap rest hgap _ := by
    rw [structureOf, bind_ok (lead_isRecord hbytes hgap rest), if_pos (Or.inr rfl), if_neg hroom,
      if_neg (by decide), h]

/-! ## Fields in any order -/

/-- A reader of fields that gathers those of a layout and passes over all others. `After seen s`
says that `s` can have been gathered when the fields of the layout in `seen` have been there. -/
structure Collects (field : σ → String → Except Fault (Reader σ)) (layout : Layout)
    (After : List String → σ → Prop) : Prop where
  /-- a field of the layout that has not been there adds its value -/
  fresh : ∀ {seen s name Holds bytes}, After seen s → (name, Holds) ∈ layout → name ∉ seen →
    Holds bytes → ∃ value s', field s name = .ok value ∧ Takes value bytes s' ∧
      After (name :: seen) s'
  other : ∀ {s name}, name ∉ layout.names → field s name = .ok ((fun _ => s) <$> skip)
  /-- in which order they have been there makes no difference -/
  same : ∀ {seen seen' s}, (∀ name, name ∈ seen ↔ name ∈ seen') → After seen s → After seen' s

variable {layout : Layout} {After : List String → σ → Prop} {present : List String}

/-- The names of the layout that occur among some fields. -/
def namesOf (layout : Layout) (fs : List Field) : List String :=
  (fs.map (·.name)).filter (· ∈ layout.names)

/-- Fields in any order, among others, fill what is gathered of them. -/
theorem Collects.fills (h : Collects field layout After) {fs : List Field} {seen : List String}
    (hs : After seen s)
    (hvalues : ∀ f ∈ fs, ∀ Holds, (f.name, Holds) ∈ layout → Holds f.value.inner)
    (hothers : ∀ f ∈ fs, f.name ∉ layout.names → IsValue f.value.inner)
    (hunique : (namesOf layout fs).Nodup) (hfresh : ∀ name ∈ namesOf layout fs, name ∉ seen) :
    ∃ s' seen', Fills field s fs s' ∧ After seen' s' ∧
      ∀ name, name ∈ seen' ↔ name ∈ seen ∨ name ∈ namesOf layout fs := by
  induction fs generalizing seen s with
  | nil => exact ⟨s, seen, .nil, hs, by simp [namesOf]⟩
  | cons f fs ih =>
    have hvalues' : ∀ g ∈ fs, ∀ Holds, (g.name, Holds) ∈ layout → Holds g.value.inner := by
      intro g hg
      exact hvalues g (List.mem_cons_of_mem _ hg)
    have hothers' : ∀ g ∈ fs, g.name ∉ layout.names → IsValue g.value.inner := by
      intro g hg
      exact hothers g (List.mem_cons_of_mem _ hg)
    by_cases hknown : f.name ∈ layout.names
    · -- the field adds its value, and its name does not come again
      have hnames : namesOf layout (f :: fs) = f.name :: namesOf layout fs := by
        rw [namesOf, List.map_cons, List.filter_cons_of_pos (by simpa using hknown)]
        rfl
      rw [hnames] at hunique hfresh ⊢
      rcases List.nodup_cons.1 hunique with ⟨honce, hunique'⟩
      rcases List.mem_map.1 hknown with ⟨⟨name, Holds⟩, hmem, hname⟩
      have hvalue := hvalues f List.mem_cons_self Holds (hname ▸ hmem)
      rcases h.fresh hs (hname ▸ hmem) (hfresh f.name List.mem_cons_self) hvalue with
        ⟨value, s₁, hwelcome, htakes, hs₁⟩
      have hfresh' : ∀ n ∈ namesOf layout fs, n ∉ f.name :: seen := by
        intro n hn hseen
        rcases List.mem_cons.1 hseen with rfl | hseen
        · exact honce hn
        · exact hfresh n (List.mem_cons_of_mem _ hn) hseen
      rcases ih hs₁ hvalues' hothers' hunique' hfresh' with ⟨s', seen', hfills, hs', hseen'⟩
      refine ⟨s', seen', .cons hwelcome htakes.reads_padded hfills, hs', ?_⟩
      intro n
      rw [hseen', List.mem_cons, List.mem_cons, or_assoc, or_left_comm]
    · -- it leaves what has been gathered as it is
      have hnames : namesOf layout (f :: fs) = namesOf layout fs := by
        rw [namesOf, List.map_cons, List.filter_cons_of_neg (by simpa using hknown)]
        rfl
      rw [hnames] at hunique hfresh ⊢
      rcases ih hs hvalues' hothers' hunique hfresh with ⟨s', seen', hfills, hs', hseen'⟩
      have htakes := (takes_skip (hothers f List.mem_cons_self hknown)).map fun _ => s
      exact ⟨s', seen', .cons (h.other hknown) htakes.reads_padded hfills, hs', hseen'⟩

/-- However the fields of a record are arranged, what can be gathered from them is the same. -/
theorem Collects.members (h : Collects field layout After) (hs : After [] s)
    (hunique : present.Nodup) (hbytes : IsRecordOf layout present bytes) :
    ∃ s', After present s' ∧
      ∀ rest, Reader.members field s (bytes ++ rest) = .ok (s', rest) := by
  rcases hbytes with ⟨fs, hrecord, hpresent, hvalues, hothers⟩
  rcases h.fills hs hvalues hothers (hpresent.nodup_iff.2 hunique) (by simp) with
    ⟨s', seen, hfills, hs', hseen⟩
  refine ⟨s', ?_, members_isRecord hfills hrecord⟩
  apply h.same _ hs'
  intro name
  rw [hseen, namesOf, hpresent.mem_iff]
  simp

/-- What is made of a record is made of what has been gathered from it. -/
theorem Collects.takes_structureOf (h : Collects field layout After) (hs : After [] s)
    (hunique : present.Nodup) (hbytes : IsRecordOf layout present bytes) {room : Nat}
    (hroom : room ≠ 0) (asList : Reader α) (finish : σ → Reader α) :
    ∃ s', After present s' ∧ ∀ x, finish s' = pure x →
      Takes (structureOf room asList (Reader.members field s >>= finish)) bytes x := by
  rcases h.members hs hunique hbytes with ⟨s', hs', hread⟩
  refine ⟨s', hs', ?_⟩
  intro x hx
  rcases hbytes with ⟨fs, hrecord, _⟩
  apply Reader.takes_structureOf hroom hrecord
  intro rest
  rw [bind_ok (hread rest), hx]
  rfl

/-- A part of what is gathered is there as soon as its field has been. -/
structure Gathered (name : String) (Good : α → Prop) (seen : List String) (part : Option α) :
    Prop where
  missing : name ∉ seen → part = none
  found : name ∈ seen → ∃ x, part = some x ∧ Good x

variable {name : String} {Good : α → Prop} {seen : List String} {part : Option α}

theorem gathered_nil : Gathered name Good [] none := ⟨fun _ => rfl, nofun⟩

/-- What has just been found has been gathered. -/
theorem gathered_self {x : α} (hx : Good x) : Gathered name Good (name :: seen) (some x) :=
  ⟨fun h => absurd List.mem_cons_self h, fun _ => ⟨x, rfl, hx⟩⟩

/-- Another field leaves the part as it is. -/
theorem Gathered.cons {other : String} (h : Gathered name Good seen part) (hne : name ≠ other) :
    Gathered name Good (other :: seen) part where
  missing hfresh := h.missing fun hseen => hfresh (List.mem_cons_of_mem _ hseen)
  found hseen := h.found ((List.mem_cons.1 hseen).resolve_left hne)

theorem Gathered.congr {seen' : List String} (h : Gathered name Good seen part)
    (hsame : ∀ name, name ∈ seen ↔ name ∈ seen') : Gathered name Good seen' part where
  missing hfresh := h.missing (mt (hsame name).1 hfresh)
  found hseen := h.found ((hsame name).2 hseen)

/-- A value that has not been given yet is taken. -/
theorem once_of_missing {r : Reader α} {set : α → σ} (h : part = none) :
    once part r set = .ok (set <$> r) := by
  rw [h, once]

end Reader

end TraceLoad.Json
