import TraceLoad.Proofs.Header

/-! # Contexts on their way

A context goes from service to service: at one hop a child is drawn from it, at another it is put
into a header and read again (`Hop`). What a header says is the trace, the span and the flags, no
less and no more (`toTraceparent_eq_iff`), so that a hop in a header loses the parent and nothing
else, and the next child names the same parent as it would without the hop. `Next` is what one hop
does to a context, and `Way` a sequence of hops; no hop fails (`exists_hops`), and the trace and the
flags are kept along the way.
-/

namespace TraceLoad

namespace TraceContext

variable {σ : Type} [WordSource σ] {c d before after : TraceContext}

/-- Headers are the same where trace, span and flags are. -/
theorem toTraceparent_eq_iff :
    d.toTraceparent = c.toTraceparent ↔
      d.traceId = c.traceId ∧ d.spanId = c.spanId ∧ d.flags = c.flags := by
  constructor
  · intro h
    -- both are what the one header is read as, but for their parents
    have hread := ofTraceparent_toTraceparent d
    rw [h, ofTraceparent_toTraceparent] at hread
    have horphan := Except.ok.inj hread
    exact ⟨(congrArg traceId horphan).symm, (congrArg spanId horphan).symm,
      (congrArg flags horphan).symm⟩
  · rintro ⟨htrace, hspan, hflags⟩
    rw [toTraceparent, htrace, hspan, hflags]
    rfl

/-- What can happen to a context on its way. -/
inductive Hop where
  /-- a child is drawn from it -/
  | child
  /-- it is written to a header, and read again -/
  | header
deriving DecidableEq

/-- The context after one hop. -/
def hop (c : TraceContext) (s : σ) : Hop → Except ContextError (TraceContext × σ)
  | .child => .ok (c.child s)
  | .header =>
    match ofTraceparent c.toTraceparent with
    | .ok d => .ok (d, s)
    | .error f => .error f

/-- The contexts after each of some hops. -/
def hops (c : TraceContext) (s : σ) : List Hop → Except ContextError (List TraceContext × σ)
  | [] => .ok ([], s)
  | h :: hs =>
    match c.hop s h with
    | .error f => .error f
    | .ok next =>
      match hops next.1 next.2 hs with
      | .error f => .error f
      | .ok rest => .ok (next.1 :: rest.1, rest.2)

/-- How the context after a hop stands to the one before. -/
inductive Next (before : TraceContext) : Hop → TraceContext → Prop where
  | child (spanId : SpanId) :
    Next before .child ⟨before.traceId, spanId, some before.spanId, before.flags⟩
  | header : Next before .header before.orphan

/-- Every hop leads to a context. -/
theorem exists_hop (c : TraceContext) (s : σ) (h : Hop) :
    ∃ d s', c.hop s h = .ok (d, s') ∧ Next c h d := by
  cases h with
  | child => exact ⟨_, _, rfl, .child _⟩
  | header =>
    refine ⟨c.orphan, s, ?_, .header⟩
    rw [hop, ofTraceparent_toTraceparent]

/-- A hop keeps the trace and the flags. -/
theorem Next.keeps {h : Hop} (hnext : Next before h after) :
    after.traceId = before.traceId ∧ after.flags = before.flags := by
  cases hnext with
  | child spanId => exact ⟨rfl, rfl⟩
  | header => exact ⟨rfl, rfl⟩

/-- Contexts that follow one another by hops. -/
inductive Way : TraceContext → List Hop → List TraceContext → Prop where
  | nil {c : TraceContext} : Way c [] []
  | cons {c d : TraceContext} {h : Hop} {hs : List Hop} {ds : List TraceContext}
      (next : Next c h d) (rest : Way d hs ds) : Way c (h :: hs) (d :: ds)

/-- No hop fails, however many there are. -/
theorem exists_hops (c : TraceContext) (s : σ) (hs : List Hop) :
    ∃ cs s', c.hops s hs = .ok (cs, s') ∧ Way c hs cs := by
  induction hs generalizing c s with
  | nil => exact ⟨[], s, rfl, .nil⟩
  | cons h hs ih =>
    rcases exists_hop c s h with ⟨d, s₁, hhop, hnext⟩
    rcases ih d s₁ with ⟨ds, s', hrest, hway⟩
    refine ⟨d :: ds, s', ?_, .cons hnext hway⟩
    rw [hops, hhop]
    dsimp only
    rw [hrest]

namespace Way

variable {hs : List Hop} {cs : List TraceContext}

/-- There is a context for every hop. -/
theorem length_eq (hway : Way c hs cs) : cs.length = hs.length := by
  induction hway with
  | nil => rfl
  | cons _ _ ih => rw [List.length_cons, List.length_cons, ih]

/-- Any number of hops keeps the trace and the flags. -/
theorem keeps (hway : Way c hs cs) : ∀ d ∈ cs, d.traceId = c.traceId ∧ d.flags = c.flags := by
  induction hway with
  | nil => nofun
  | cons next _ ih =>
    intro d hd
    rcases List.mem_cons.1 hd with rfl | hd
    · exact next.keeps
    · rcases ih d hd with ⟨htrace, hflags⟩
      exact ⟨htrace.trans next.keeps.1, hflags.trans next.keeps.2⟩

/-- Each context of a way stands to the one before it as its hop says. -/
theorem next (hway : Way c hs cs) {i : Nat} {h : Hop} (hh : hs[i]? = some h)
    (hbefore : (c :: cs)[i]? = some before) (hafter : cs[i]? = some after) :
    Next before h after := by
  induction hway generalizing i with
  | nil => cases hafter
  | cons next _ ih =>
    cases i with
    | zero =>
      cases hh
      cases hbefore
      cases hafter
      exact next
    | succ i => exact ih hh hbefore hafter

end Way

/-- The contexts after each of some hops belong to the trace of the first one and have its flags.
Each child records as its parent the span of the context right before it, and behind a header there
is that context again without its parent. -/
structure Linked (c : TraceContext) (hs : List Hop) (cs : List TraceContext) : Prop where
  length : cs.length = hs.length
  traceId : ∀ d ∈ cs, d.traceId = c.traceId
  flags : ∀ d ∈ cs, d.flags = c.flags
  child : ∀ (i : Nat) (before after : TraceContext), hs[i]? = some Hop.child →
    (c :: cs)[i]? = some before → cs[i]? = some after → after.parentSpanId = some before.spanId
  header : ∀ (i : Nat) (before after : TraceContext), hs[i]? = some Hop.header →
    (c :: cs)[i]? = some before → cs[i]? = some after → after = before.orphan

/-- On the way each context is linked to the one before it. -/
theorem Way.linked {hs : List Hop} {cs : List TraceContext} (hway : Way c hs cs) :
    Linked c hs cs where
  length := hway.length_eq
  traceId d hd := (hway.keeps d hd).1
  flags d hd := (hway.keeps d hd).2
  child := by
    intro i before after hchild hbefore hafter
    cases hway.next hchild hbefore hafter
    rfl
  header := by
    intro i before after hheader hbefore hafter
    cases hway.next hheader hbefore hafter
    rfl

/-- A context that is written to a header can be read, and comes back without its parent. So a
header tells the trace, the span and the flags, and over any number of hops, by children and by
headers in any order, the trace is kept and every child is linked to the span before it. -/
theorem header_keeps_place (c : TraceContext) :
    ofTraceparent c.toTraceparent = .ok c.orphan ∧
      (∀ d : TraceContext, d.toTraceparent = c.toTraceparent ↔
        d.traceId = c.traceId ∧ d.spanId = c.spanId ∧ d.flags = c.flags) ∧
      ∀ (s : σ) (hs : List Hop), ∃ cs s', c.hops s hs = .ok (cs, s') ∧ Linked c hs cs := by
  refine ⟨ofTraceparent_toTraceparent c, fun d => toTraceparent_eq_iff, ?_⟩
  intro s hs
  rcases exists_hops c s hs with ⟨cs, s', hhops, hway⟩
  exact ⟨cs, s', hhops, hway.linked⟩

end TraceContext

end TraceLoad
