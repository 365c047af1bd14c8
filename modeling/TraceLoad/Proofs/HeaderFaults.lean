import TraceLoad.Proofs.HeaderGrammar

/-! # What is wrong with a header

A header is checked from left to right: its dashes, its version, its trace identifier, its span
identifier, its flags. `Faulty` says with which complaint a text fails the first of these checks
that it does not pass, without the reader. A text either fails one of them or has the form of a
header (`hasForm_or_faulty`), and the complaint is what the reader reports
(`Faulty.ofTraceparent_eq`); so the reader reports nothing else, and refuses nothing that passes.
-/

namespace TraceLoad

/-! ## Fields -/

/-- What is wrong with a field that ought to be `n` digits. Its length is looked at first, and
counts bytes. -/
inductive BadDigits (n : Nat) (field : List Char) : ContextError → Prop where
  | length (size : (String.ofList field).utf8ByteSize ≠ n) : BadDigits n field .invalidLength
  | digit {c : Char} (size : (String.ofList field).utf8ByteSize = n) (mem : c ∈ field)
      (odd : ¬ Hex.IsDigit c) : BadDigits n field .invalidHex

variable {n : Nat} {field : List Char} {f : ContextError}

/-- A field is made of digits, or there is a reason to refuse it. -/
theorem areDigits_or_bad (n : Nat) (field : List Char) :
    Hex.AreDigits n field ∨ ∃ f, BadDigits n field f := by
  by_cases hsize : (String.ofList field).utf8ByteSize = n
  · by_cases hdigits : ∀ c ∈ field, Hex.IsDigit c
    · -- digits take one byte each
      have hlength := utf8ByteSize_ofList fun c hc => (hdigits c hc).utf8Size
      exact .inl ⟨hlength.symm.trans hsize, hdigits⟩
    · simp only [Classical.not_forall, exists_prop] at hdigits
      rcases hdigits with ⟨c, hc, hodd⟩
      exact .inr ⟨_, .digit hsize hc hodd⟩
  · exact .inr ⟨_, .length hsize⟩

/-- Bad digits are refused for what is bad about them. -/
theorem BadDigits.ofHex_eq (h : BadDigits (2 * n) field f) :
    (Ident.ofHex (String.ofList field) : Except ContextError (Ident n)) = .error f := by
  cases h with
  | length size => rw [Ident.ofHex, if_pos size]
  | digit size mem odd =>
    have hdecode : Hex.decode field = none := by
      rw [Option.eq_none_iff_forall_ne_some]
      intro bytes hbytes
      exact odd (Hex.isDigit_of_decode hbytes _ mem)
    rw [Ident.ofHex, if_neg (not_not_intro size), String.toList_ofList, hdecode]

namespace TraceContext

/-- What is wrong with the flags. -/
inductive BadFlags (field : List Char) : ContextError → Prop where
  | length (size : (String.ofList field).utf8ByteSize ≠ 2) : BadFlags field .invalidLength
  | digit (size : (String.ofList field).utf8ByteSize = 2)
      (odd : ¬ (TwoDigits field ∨ SignedDigit field)) : BadFlags field .invalidHex

/-- Flags are two digits, or a sign and one, or there is a reason to refuse them. -/
theorem flags_or_bad (field : List Char) :
    (TwoDigits field ∨ SignedDigit field) ∨ ∃ f, BadFlags field f := by
  by_cases hform : TwoDigits field ∨ SignedDigit field
  · exact .inl hform
  · by_cases hsize : (String.ofList field).utf8ByteSize = 2
    · exact .inr ⟨_, .digit hsize hform⟩
    · exact .inr ⟨_, .length hsize⟩

theorem BadFlags.readFlags_eq (h : BadFlags field f) : readFlags field = .error f := by
  cases h with
  | length size => rw [readFlags, if_pos size]
  | digit size odd =>
    have hflags : flags? field = none := by
      rw [Option.eq_none_iff_forall_ne_some]
      intro b hb
      apply odd
      apply exists_readFlags_iff.1
      refine ⟨b, ?_⟩
      rw [readFlags, if_neg (not_not_intro size), hb]
    rw [readFlags, if_neg (not_not_intro size), hflags]

/-! ## Dashes -/

variable {h : String} {version trace span flags : List Char}

/-- A text of four fields with a dash between each two of them. -/
structure IsSplit (h : String) (version trace span flags : List Char) : Prop where
  text : h.toList = version ++ '-' :: (trace ++ '-' :: (span ++ '-' :: flags))
  dash : ∀ field ∈ [version, trace, span, flags], '-' ∉ field

/-- There is one piece more than there are dashes. -/
theorem length_pieces (cs : List Char) : (pieces cs).length = cs.count '-' + 1 := by
  induction cs with
  | nil => rfl
  | cons c cs ih =>
    obtain ⟨p, ps, hp⟩ := exists_pieces cs
    rw [hp, List.length_cons] at ih
    by_cases hc : c = '-'
    · subst hc
      rw [pieces, if_pos rfl, hp, List.length_cons, List.length_cons, ih, List.count_cons_self]
    · rw [pieces, if_neg hc, hp, List.length_cons, ih, List.count_cons_of_ne hc]

theorem dash_not_mem_of_mem_pieces {cs p : List Char} (hp : p ∈ pieces cs) : '-' ∉ p := by
  induction cs generalizing p with
  | nil =>
    rw [pieces, List.mem_singleton] at hp
    simp [hp]
  | cons c cs ih =>
    obtain ⟨q, qs, hq⟩ := exists_pieces cs
    rw [hq] at ih
    by_cases hc : c = '-'
    · -- a dash ends a piece, and any other character is added to the first one
      rw [pieces, if_pos hc, hq] at hp
      rcases List.mem_cons.1 hp with rfl | hp
      · simp
      · exact ih hp
    · rw [pieces, if_neg hc, hq] at hp
      rcases List.mem_cons.1 hp with rfl | hp
      · simp [Ne.symm hc, ih List.mem_cons_self]
      · exact ih (List.mem_cons_of_mem _ hp)

theorem isSplit_iff_pieces :
    IsSplit h version trace span flags ↔ pieces h.toList = [version, trace, span, flags] := by
  constructor
  · rintro ⟨htext, hdash⟩
    simp only [List.forall_mem_cons] at hdash
    rw [htext, pieces_append_dash hdash.1, pieces_append_dash hdash.2.1,
      pieces_append_dash hdash.2.2.1, pieces_of_not_mem hdash.2.2.2.1]
  · intro hpieces
    constructor
    case text =>
      -- the pieces with dashes between them are the header again
      rw [← intercalate_pieces h.toList, hpieces]
      simp [List.intercalate]
    case dash =>
      intro field hfield
      rw [← hpieces] at hfield
      exact dash_not_mem_of_mem_pieces hfield

/-- A text of three dashes has four fields. -/
theorem exists_isSplit (hcount : h.toList.count '-' = 3) :
    ∃ version trace span flags, IsSplit h version trace span flags := by
  have hlength := length_pieces h.toList
  rw [hcount] at hlength
  match hpieces : pieces h.toList, hlength with
  | [version, trace, span, flags], _ =>
    exact ⟨version, trace, span, flags, isSplit_iff_pieces.2 hpieces⟩

/-! ## Headers -/

/-- The first check that a text does not pass as a header, and what is reported then. -/
inductive Faulty (h : String) : ContextError → Prop where
  | format (dashes : h.toList.count '-' ≠ 3) : Faulty h .invalidFormat
  | version {version trace span flags : List Char} (fields : IsSplit h version trace span flags)
      (other : version ≠ ['0', '0']) : Faulty h .unsupportedVersion
  | trace {trace span flags : List Char} {f : ContextError}
      (fields : IsSplit h ['0', '0'] trace span flags) (bad : BadDigits 32 trace f) : Faulty h f
  | span {trace span flags : List Char} {f : ContextError}
      (fields : IsSplit h ['0', '0'] trace span flags) (traceDigits : Hex.AreDigits 32 trace)
      (bad : BadDigits 16 span f) : Faulty h f
  | flags {trace span flags : List Char} {f : ContextError}
      (fields : IsSplit h ['0', '0'] trace span flags) (traceDigits : Hex.AreDigits 32 trace)
      (spanDigits : Hex.AreDigits 16 span) (bad : BadFlags flags f) : Faulty h f

/-- The context that four fields are read as, or what is wrong with the first of them that is not
right. -/
theorem IsSplit.ofTraceparent_eq (hsplit : IsSplit h ['0', '0'] trace span flags) :
    ofTraceparent h = (do
      let traceId ← Ident.ofHex (String.ofList trace)
      let spanId ← Ident.ofHex (String.ofList span)
      let flags ← readFlags flags
      pure ⟨traceId, spanId, none, flags⟩) := by
  rw [ofTraceparent, isSplit_iff_pieces.1 hsplit]
  rfl

theorem Faulty.ofTraceparent_eq (hfaulty : Faulty h f) : ofTraceparent h = .error f := by
  cases hfaulty with
  | format dashes =>
    unfold ofTraceparent
    split
    · next hpieces =>
      have hlength := length_pieces h.toList
      rw [hpieces] at hlength
      exact absurd (Nat.succ.inj hlength).symm dashes
    · rfl
  | version fields other =>
    rw [ofTraceparent, isSplit_iff_pieces.1 fields]
    dsimp only
    rw [if_pos other]
    rfl
  | trace fields bad =>
    -- the checks in front pass, and this one is the next
    rw [fields.ofTraceparent_eq, BadDigits.ofHex_eq (n := 16) bad]
    rfl
  | span fields traceDigits bad =>
    rcases (Ident.exists_ofHex_iff (n := 16)).2 traceDigits with ⟨traceId, htrace⟩
    rw [fields.ofTraceparent_eq, htrace, BadDigits.ofHex_eq (n := 8) bad]
    rfl
  | flags fields traceDigits spanDigits bad =>
    rcases (Ident.exists_ofHex_iff (n := 16)).2 traceDigits with ⟨traceId, htrace⟩
    rcases (Ident.exists_ofHex_iff (n := 8)).2 spanDigits with ⟨spanId, hspan⟩
    rw [fields.ofTraceparent_eq, htrace, hspan, bad.readFlags_eq]
    rfl

/-- A text has the form of a header, or there is a first check that it does not pass. -/
theorem hasForm_or_faulty (h : String) :
    HasForm (fun flags => TwoDigits flags ∨ SignedDigit flags) h ∨ ∃ f, Faulty h f := by
  -- one check after the other, in the order in which they are made
  by_cases hcount : h.toList.count '-' = 3
  · rcases exists_isSplit hcount with ⟨version, trace, span, flags, hsplit⟩
    by_cases hversion : version = ['0', '0']
    · subst hversion
      rcases areDigits_or_bad 32 trace with htrace | ⟨f, hbad⟩
      · rcases areDigits_or_bad 16 span with hspan | ⟨f, hbad⟩
        · rcases flags_or_bad flags with hflags | ⟨f, hbad⟩
          · exact .inl ⟨trace, span, flags, hsplit.text, htrace, hspan, hflags⟩
          · exact .inr ⟨f, .flags hsplit htrace hspan hbad⟩
        · exact .inr ⟨f, .span hsplit htrace hbad⟩
      · exact .inr ⟨f, .trace hsplit hbad⟩
    · exact .inr ⟨_, .version hsplit hversion⟩
  · exact .inr ⟨_, .format hcount⟩

/-- A text is refused with the complaint of the first check that it does not pass, and a text that
passes all of them is not refused. -/
theorem ofTraceparent_blames_first (h : String) :
    (∀ f, ofTraceparent h = .error f ↔ Faulty h f) ∧
      ((∃ c, ofTraceparent h = .ok c) ↔
        HasForm (fun flags => TwoDigits flags ∨ SignedDigit flags) h) := by
  refine ⟨?_, exists_ofTraceparent_iff⟩
  intro f
  constructor
  · intro herror
    -- a header is in order or faulty, and a faulty one has one error only
    rcases hasForm_or_faulty h with hform | ⟨g, hg⟩
    · rcases exists_ofTraceparent_iff.2 hform with ⟨c, hok⟩
      rw [herror] at hok
      cases hok
    · rw [hg.ofTraceparent_eq] at herror
      cases herror
      exact hg
  · exact Faulty.ofTraceparent_eq

/-- Sixteen characters of two bytes are as long as a trace identifier, and are no digits. -/
example : ofTraceparent "00-éééééééééééééééé-b7ad6b71-1" = .error .invalidHex := by rfl

end TraceContext

end TraceLoad
