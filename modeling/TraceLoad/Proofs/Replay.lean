import TraceLoad.Proofs.Propagation
import TraceLoad.Proofs.RunTotals

/-! # Seeded runs

What a worker emits depends on its stream of words and on nothing else that a configuration sets: a
trace reads the same words whenever it is emitted, whoever else emits at the time, and however
contexts are handed over. So from one stream any two workers emit one sequence of traces, and they
can only stop at different places in it (`Traces.oneBegins`).

A seed fixes the stream of every worker (`seeded_runs_agree`). Times are left out throughout, since
two runs do not read the same clock.
-/

namespace TraceLoad

/-- One of two lists is the beginning of the other. -/
def OneBegins {β : Type} (l l₂ : List β) : Prop := l <+: l₂ ∨ l₂ <+: l

namespace OneBegins

variable {β γ : Type} {l l₂ : List β}

theorem filterMap (h : OneBegins l l₂) (f : β → Option γ) :
    OneBegins (l.filterMap f) (l₂.filterMap f) := by
  rcases h with h | h
  · left
    exact h.filterMap f
  · right
    exact h.filterMap f

/-- What begins one of two such lists of lists and what begins the other begin each other too. -/
theorem of_flatten {ll ll₂ : List (List β)} (h : OneBegins ll ll₂) (hl : l <+: ll.flatten)
    (hl₂ : l₂ <+: ll₂.flatten) : OneBegins l l₂ := by
  rcases h with ⟨more, rfl⟩ | ⟨more, rfl⟩
  · rw [List.flatten_append] at hl₂
    exact List.prefix_or_prefix_of_prefix (hl.trans (List.prefix_append _ _)) hl₂
  · rw [List.flatten_append] at hl
    exact List.prefix_or_prefix_of_prefix hl (hl₂.trans (List.prefix_append _ _))

end OneBegins

/-- Plans whose traces are the same. They may differ in the quota, and in how contexts are handed
over. -/
structure Plan.Alike (p p₂ : Plan) : Prop where
  topology : p.emitter.topology = p₂.emitter.topology
  registry : p.emitter.registry = p₂.emitter.registry
  root : p.root = p₂.root

/-- Traces without their times. -/
def timeless (traces : List (List Event)) : List (List Event) := traces.map (·.map Event.timeless)

namespace Worker

variable {σ τ : Type} [WordSource σ] {p p₂ : Plan} {s s' s₂' : σ}
  {traces traces₂ : List (List Event)}

/-! ## One stream, one sequence of traces -/

/-- As many traces from one stream are the same ones, and leave the same stream behind. -/
theorem Traces.agree (hp : p.Alike p₂) (h : Traces p s traces s') (h₂ : Traces p₂ s traces₂ s₂')
    (hlength : traces.length = traces₂.length) :
    timeless traces = timeless traces₂ ∧ s' = s₂' := by
  induction h generalizing traces₂ s₂' with
  | nil =>
    cases h₂ with
    | nil => exact ⟨rfl, rfl⟩
    | snoc _ _ => simp at hlength
  | @snoc logs s₁ clock n e _ emits ih =>
    cases h₂ with
    | nil => simp at hlength
    | @snoc logs₂ s₁' clock₂ n₂ e₂ before₂ emits₂ =>
      simp only [List.length_append, List.length_singleton, Nat.add_right_cancel_iff] at hlength
      obtain ⟨hlogs, rfl⟩ := ih before₂ hlength
      -- the last trace of either starts from one and the same stream
      have halike := Emitter.emit_alike hp.topology hp.registry p.root
        (⟨s₁, clock, #[]⟩ : Emission σ) ⟨s₁, clock₂, #[]⟩ rfl
      rw [emits, hp.root, emits₂] at halike
      obtain ⟨log, log₂, hlog, hlog₂, hsame⟩ := halike.log
      simp only [List.nil_append] at hlog hlog₂
      constructor
      · unfold timeless at hlogs ⊢
        rw [List.map_append, List.map_append, hlogs, List.map_singleton, List.map_singleton, hlog,
          hlog₂, hsame]
      · exact halike.words

/-- The first of some traces are traces too. -/
theorem Traces.take (h : Traces p s traces s') {k : Nat} (hk : k ≤ traces.length) :
    ∃ s₁, Traces p s (traces.take k) s₁ := by
  induction h with
  | nil =>
    rw [List.take_nil]
    exact ⟨s, .nil⟩
  | @snoc logs _ _ _ e before emits ih =>
    rcases Nat.lt_or_ge logs.length k with hlt | hle
    · rw [List.take_of_length_le (by rw [List.length_append]; exact hlt)]
      exact ⟨_, .snoc before emits⟩
    · rw [List.take_append_of_le_length hle]
      exact ih hle

/-- From one stream there is one sequence of traces, which can be followed for longer or less
long. -/
theorem Traces.oneBegins (hp : p.Alike p₂) (h : Traces p s traces s')
    (h₂ : Traces p₂ s traces₂ s₂') : OneBegins (timeless traces) (timeless traces₂) := by
  rcases Nat.le_total traces.length traces₂.length with hle | hle
  · left
    obtain ⟨s₁, htake⟩ := h₂.take hle
    rw [(h.agree hp htake (by rw [List.length_take_of_le hle])).1]
    exact (List.take_prefix _ _).map _
  · right
    obtain ⟨s₁, htake⟩ := h.take hle
    rw [← (htake.agree hp h₂ (List.length_take_of_le hle)).1]
    exact (List.take_prefix _ _).map _

/-- Complete traces from a stream, and behind them the beginning of one that could come next. -/
def CutOff (p : Plan) (s : σ) (traces : List (List Event)) (rest : List Event) : Prop :=
  ∃ trace s', Traces p s (traces ++ [trace]) s' ∧ rest <+: trace

variable {rest rest₂ : List Event}

/-- What comes before the cut are whole traces. -/
theorem CutOff.exists_traces (h : CutOff p s traces rest) : ∃ s', Traces p s traces s' := by
  obtain ⟨trace, s', htraces, -⟩ := h
  have hle : traces.length ≤ (traces ++ [trace]).length := by
    rw [List.length_append]
    omega
  have htake := htraces.take hle
  rwa [List.take_left] at htake

/-- The events of workers that emit from one stream begin each other, also inside a trace. -/
theorem CutOff.oneBegins (hp : p.Alike p₂) (h : CutOff p s traces rest)
    (h₂ : CutOff p₂ s traces₂ rest₂) :
    OneBegins ((traces.flatten ++ rest).map Event.timeless)
      ((traces₂.flatten ++ rest₂).map Event.timeless) := by
  obtain ⟨trace, s', htraces, hrest⟩ := h
  obtain ⟨trace₂, s₂', htraces₂, hrest₂⟩ := h₂
  have hbegins : ∀ {ll : List (List Event)} {l l' : List Event}, l <+: l' →
      (ll.flatten ++ l).map Event.timeless <+: (timeless (ll ++ [l'])).flatten := by
    intro ll l l' hl
    unfold timeless
    rw [← List.map_flatten, List.flatten_append, List.flatten_singleton]
    exact ((List.prefix_append_right_inj _).2 hl).map _
  exact (htraces.oneBegins hp htraces₂).of_flatten (hbegins hrest) (hbegins hrest₂)

/-- What a worker that cannot fail has put on the record of a trace is the beginning of it. -/
theorem Unfinished.begins {w : Worker σ τ} (h : Unfinished p s w rest)
    (hok : ∀ (s : σ) clock, ∃ n e, p.emitter.emit p.root ⟨s, clock, #[]⟩ = (.ok n, e)) :
    ∃ clock n e, p.emitter.emit p.root ⟨s, clock, #[]⟩ = (.ok n, e) ∧ rest <+: e.events.toList := by
  unfold Unfinished at h
  split at h
  · next left result _ =>
    -- within a trace, what it has logged is the beginning of that trace
    obtain ⟨clock, e, hemit, -, hevents⟩ := h
    obtain ⟨n, e', hemit'⟩ := hok s clock
    obtain ⟨rfl, rfl⟩ := Prod.mk.inj (hemit.symm.trans hemit')
    exact ⟨clock, n, e, hemit, left, hevents.symm⟩
  · -- none of these traces fails
    obtain ⟨clock, f, e, hemit, -⟩ := h
    obtain ⟨n, e', hemit'⟩ := hok s clock
    cases hemit.symm.trans hemit'
  · -- between two traces nothing of the next has been logged, whatever clock it would read
    obtain ⟨-, rfl⟩ := h
    obtain ⟨n, e, hemit⟩ := hok s (.still ⟨0⟩)
    exact ⟨_, n, e, hemit, List.nil_prefix⟩

/-- Nothing is left unfinished by a worker that cannot fail and is done. -/
theorem Unfinished.eq_nil {w : Worker σ τ} (h : Unfinished p s w rest)
    (hok : ∀ (s : σ) clock, ∃ n e, p.emitter.emit p.root ⟨s, clock, #[]⟩ = (.ok n, e))
    {report : WorkerReport} (hreport : w.report? = some report) : rest = [] := by
  unfold Unfinished at h
  split at h
  · next hphase =>
    rw [(phase_of_report? hreport).1] at hphase
    cases hphase
  · obtain ⟨clock, f, e, hemit, -⟩ := h
    obtain ⟨n, e', hemit'⟩ := hok s clock
    cases hemit.symm.trans hemit'
  · exact h.2

end Worker

namespace Runner

open Run (Label)
open Emitter (LogsSubtree callEmitter)

/-! ## Runs with one seed -/

/-- What a worker has put on the record: traces of the whole tree, and behind them the beginning of
one more, of which there is nothing when the run is over. -/
structure Record (reg : Registry) (ds : List Descriptor) (tree : SpanTree) (ended : Bool)
    (log : List Event) (traces : List (List Event)) (rest : List Event) : Prop where
  log : log = traces.flatten ++ rest
  whole : ∀ trace ∈ traces, LogsSubtree reg ds tree trace
  next : ∃ trace, LogsSubtree reg ds tree trace ∧ rest <+: trace
  last : ended = true → rest = []

/-- The events of a worker in two runs are those of one sequence of traces, which may break off at
different places: between two traces where the run is over. -/
structure OneSequence (reg : Registry) (ds : List Descriptor) (tree : SpanTree)
    (ended ended₂ : Bool) (log log₂ : List Event) : Prop where
  traces : ∃ traces rest traces₂ rest₂, Record reg ds tree ended log traces rest ∧
    Record reg ds tree ended₂ log₂ traces₂ rest₂ ∧ OneBegins (timeless traces) (timeless traces₂)
  events : OneBegins (log.map Event.timeless) (log₂.map Event.timeless)
  spans : OneBegins ((log.filterMap Event.finished?).map Span.timeless)
    ((log₂.filterMap Event.finished?).map Span.timeless)

variable {c c₂ : Config} {ds : List Descriptor} {t : Topology} {reg : Registry} {α τ : Type}

/-- Configurations differ in their workers, the quota and the use of headers only, as far as traces
are concerned. -/
theorem alike_plan (c c₂ : Config) (t : Topology) (reg : Registry) :
    (plan c t reg).Alike (plan c₂ t reg) where
  topology := rfl
  registry := rfl
  root := rfl

theorem map_timeless_finished (log : List Event) :
    (log.filterMap Event.finished?).map Span.timeless =
      (log.map Event.timeless).filterMap Event.finished? := by
  rw [List.map_filterMap, List.filterMap_map]
  refine List.filterMap_congr fun event _ => ?_
  cases event with
  | started _ => rfl
  | ended _ => rfl

/-- The seeds of as many workers as there are seeds, or fewer, are told apart, also where they wrap
around. -/
theorem nodup_seeds {seed : UInt64} (hseed : c.seed = some seed)
    (hcount : c.workers ≤ UInt64.size) : ((List.range c.workers).map c.seedOf).Nodup := by
  refine List.Nodup.map_on ?_ List.nodup_range
  intro i hi j hj hsame
  unfold Config.seedOf at hsame
  rw [hseed, Option.map_some, Option.map_some, Option.some.injEq] at hsame
  have hwords : UInt64.ofNat i = UInt64.ofNat j := (UInt64.add_right_inj seed).1 hsame
  have hnumbers := congrArg UInt64.toNat hwords
  rw [List.mem_range] at hi hj
  rwa [UInt64.toNat_ofNat_of_lt' (by omega), UInt64.toNat_ofNat_of_lt' (by omega)] at hnumbers

/-- Every worker of a seeded run has the stream of its own seed. -/
theorem map_words_workers {seed : UInt64} (hseed : c.seed = some seed) (fresh : Nat → UInt64) :
    (workers c fresh : List (Worker Keystream τ)).map (·.words) =
      (List.range c.workers).map fun i => Keystream.ofSeed (seed + UInt64.ofNat i) := by
  unfold workers crew
  rw [List.map_map]
  refine List.map_congr_left fun i _ => ?_
  simp [Config.seedOf, hseed]

variable [Add α] [Sub α] [Mul α] [Neg α] [Div α] [LE α] [DecidableLE α] [OfNat α 0] [OfNat α 1]
  [Timeline α τ] [LE τ] [DecidableLE τ]

/-- What a seeded worker has put on the record in a run, wherever the run stands. -/
theorem exists_cutOff {seed : UInt64} {fresh : Nat → UInt64} {limiter : Limiter α τ} {now : τ}
    {clock : Clock} {ls : List (Label τ)} {r : Run Keystream α τ} {i : Nat}
    (ht : Topology.ofDescriptors ds = .ok t) (hcover : reg.ensureCovers t = .ok ())
    (hseed : c.seed = some seed)
    (hrun : (Run.start (workers c fresh) limiter now clock).steps (plan c t reg) ls = some r)
    (hi : i < c.workers) :
    ∃ traces rest,
      Worker.CutOff (plan c t reg) (Keystream.ofSeed (seed + UInt64.ofNat i)) traces rest ∧
      Record reg ds t.tree r.isOver (r.eventsOf i) traces rest := by
  have hok := Emitter.exists_emit_ok (σ := Keystream) (m := (plan c t reg).emitter) ht hcover
  have hfresh : Run.Fresh (workers c fresh : List (Worker Keystream τ)) := fresh_crew c _
  have hplace : (workers c fresh : List (Worker Keystream τ))[i]? =
      some { id := i, words := Keystream.ofSeed (seed + UInt64.ofNat i) } := by
    unfold workers crew
    rw [List.getElem?_map, List.getElem?_range hi]
    simp [Config.seedOf, hseed]
  obtain ⟨w, hw, hpath⟩ := Run.path_of_start hfresh hrun hplace
  -- the books say what the worker has logged: whole traces and the beginning of one more
  have hbooks := hpath.books
    (fun s clock n e hemit => (Emitter.logsSubtree_of_emit_root ht hemit).1)
    (hfresh.books (List.mem_of_getElem? hplace) t.size)
  obtain ⟨traces, s', rest, htraces, hlog, -, hrest⟩ := hbooks.log
  obtain ⟨clock', n, e, hemit, hbegins⟩ := hrest.begins hok
  refine ⟨traces, rest, ⟨_, _, .snoc htraces hemit, hbegins⟩, ?_⟩
  exact {
    log := hlog
    whole := Run.logsSubtree_of_traces ht rfl htraces
    next := ⟨_, (Emitter.logsSubtree_of_emit_root ht hemit).2, hbegins⟩
    last := by
      intro hover
      -- at the end of a run every worker has reported, so no trace has been begun
      have hmem := Array.mem_def.1 (Array.mem_of_getElem? hw)
      obtain ⟨report, hreport⟩ := Run.exists_report_of_isOver hover hmem
      exact hrest.eq_nil hok hreport }

/-- Two runs with one seed, whatever else they are configured with and however they are scheduled:
a worker that is there in both emits one sequence of traces in them. In either of them no two
workers have one seed, as long as there are not more of them than words of 64 bits. -/
theorem seeded_runs_agree {seed : UInt64} {fresh fresh₂ : Nat → UInt64}
    {limiter limiter₂ : Limiter α τ} {now now₂ : τ} {clock clock₂ : Clock}
    {ls ls₂ : List (Label τ)} {r r₂ : Run Keystream α τ}
    (ht : Topology.ofDescriptors ds = .ok t) (hcover : reg.ensureCovers t = .ok ())
    (hseed : c.seed = some seed) (hseed₂ : c₂.seed = some seed)
    (hrun : (Run.start (workers c fresh) limiter now clock).steps (plan c t reg) ls = some r)
    (hrun₂ : (Run.start (workers c₂ fresh₂) limiter₂ now₂ clock₂).steps (plan c₂ t reg) ls₂ =
      some r₂) :
    (∀ i, i < c.workers → i < c₂.workers →
      OneSequence reg ds t.tree r.isOver r₂.isOver (r.eventsOf i) (r₂.eventsOf i)) ∧
    (workers c fresh : List (Worker Keystream τ)).map (·.words) =
      (List.range c.workers).map (fun i => Keystream.ofSeed (seed + UInt64.ofNat i)) ∧
    (c.workers ≤ UInt64.size → ((List.range c.workers).map c.seedOf).Nodup) := by
  refine ⟨?agree, map_words_workers hseed fresh, nodup_seeds hseed⟩
  case agree =>
    intro i hi hi₂
    obtain ⟨traces, rest, hcut, hrecord⟩ := exists_cutOff ht hcover hseed hrun hi
    obtain ⟨traces₂, rest₂, hcut₂, hrecord₂⟩ := exists_cutOff ht hcover hseed₂ hrun₂ hi₂
    have halike := alike_plan c c₂ t reg
    -- both logs are cut off from one sequence, so one of them begins the other
    have hevents := hcut.oneBegins halike hcut₂
    rw [← hrecord.log, ← hrecord₂.log] at hevents
    obtain ⟨s', htraces⟩ := hcut.exists_traces
    obtain ⟨s₂', htraces₂⟩ := hcut₂.exists_traces
    refine ⟨⟨traces, rest, traces₂, rest₂, hrecord, hrecord₂, ?_⟩, hevents, ?_⟩
    · exact htraces.oneBegins halike htraces₂
    · rw [map_timeless_finished, map_timeless_finished]
      exact hevents.filterMap _

/-- One worker with the last seed there is, and two traces. -/
def lone : Config := { rate := .infinity, traces := 2, seed := some 0xFFFFFFFFFFFFFFFF }

/-- Two workers, the first with that seed, one trace for each, and contexts in headers. -/
def couple : Config := { lone with workers := 2, traces := 1, propagateContext := true }

/-- The trace of the couple's first worker is the first one of the lone worker; its fellow has seed
zero. -/
theorem lone_couple_agree :
    Topology.ofDescriptors Topology.call = .ok callEmitter.topology ∧
      callEmitter.registry.ensureCovers callEmitter.topology = .ok () ∧
      lone.seed = some 0xFFFFFFFFFFFFFFFF ∧ couple.seed = some 0xFFFFFFFFFFFFFFFF ∧
      ∃ r r₂, (start lone UInt64.ofNat (.still ⟨0⟩)).steps
          (plan lone callEmitter.topology callEmitter.registry)
          (List.replicate 16 (.go 0)) = some r ∧
        (start couple UInt64.ofNat (.still ⟨7⟩)).steps
          (plan couple callEmitter.topology callEmitter.registry)
          (List.replicate 8 [Label.go 1, .go 0]).flatten = some r₂ ∧
        OneSequence callEmitter.registry Topology.call Topology.callTree true true (r.eventsOf 0)
          (r₂.eventsOf 0) ∧
        (List.range couple.workers).map couple.seedOf = [some 0xFFFFFFFFFFFFFFFF, some 0] ∧
        ((List.range couple.workers).map couple.seedOf).Nodup := by
  have hloads : Topology.ofDescriptors Topology.call = .ok callEmitter.topology :=
    Topology.ofDescriptors_call
  have hcover : callEmitter.registry.ensureCovers callEmitter.topology = .ok () := by decide
  -- what has to be computed is that both runs come to their end
  have hend : ((start lone UInt64.ofNat (.still ⟨0⟩)).steps
      (plan lone callEmitter.topology callEmitter.registry)
      (List.replicate 16 (.go 0))).map Run.isOver = some true := by
    decide +kernel
  have hend₂ : ((start couple UInt64.ofNat (.still ⟨7⟩)).steps
      (plan couple callEmitter.topology callEmitter.registry)
      (List.replicate 8 [Label.go 1, .go 0]).flatten).map Run.isOver = some true := by
    decide +kernel
  obtain ⟨r, hrun, hover⟩ := Option.map_eq_some_iff.1 hend
  obtain ⟨r₂, hrun₂, hover₂⟩ := Option.map_eq_some_iff.1 hend₂
  have hagree := seeded_runs_agree hloads hcover rfl rfl hrun hrun₂
  have hagree₂ := seeded_runs_agree hloads hcover rfl rfl hrun₂ hrun
  have hfirst := hagree.1 0 (by decide) (by decide)
  rw [hover, hover₂] at hfirst
  exact ⟨hloads, hcover, rfl, rfl, r, r₂, hrun, hrun₂, hfirst, by decide, hagree₂.2.2 (by decide)⟩

end Runner

end TraceLoad
