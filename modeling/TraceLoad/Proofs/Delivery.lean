import TraceLoad.Pipeline
import TraceLoad.Proofs.Batches
import TraceLoad.Proofs.RunTotals

/-! # From the workers to the sink without loss

The spans that workers end go through a channel to the exporter, and from there in batches to the
sink. With a sink that never fails everything arrives, whatever the order of the workers' steps, of
the deliveries and of the ticks: until the channel is closed, what the exporter has received and
what is in the channel are together what has ended (`Flows`), and when it is closed all of that has
been written (`Closed`).

The report counts the same spans by another way, worker by worker (`length_finishedSpans`), so that
what it says is what was exported (`shutdown_delivers`).
-/

namespace TraceLoad

/-- A list is put together again, up to order, from its parts with the keys of a list. -/
theorem perm_flatMap_filter {β : Type} {key : β → Nat} {keys : List Nat} (hkeys : keys.Nodup)
    {l : List β} (h : ∀ x ∈ l, key x ∈ keys) :
    (keys.flatMap fun k => l.filter (key · = k)).Perm l := by
  induction keys generalizing l with
  | nil =>
    have hnil : l = [] := List.eq_nil_iff_forall_not_mem.2 fun x hx => by cases h x hx
    rw [hnil]
    exact List.Perm.refl []
  | cons k keys ih =>
    obtain ⟨hk, hrest⟩ := List.nodup_cons.1 hkeys
    -- what has another key than the first one is what the rest of the keys is about
    have hothers : ∀ x ∈ l.filter (fun x => !decide (key x = k)), key x ∈ keys := by
      intro x hx
      obtain ⟨hx, hne⟩ := List.mem_filter.1 hx
      rcases List.mem_cons.1 (h x hx) with heq | hmem
      · simp [heq] at hne
      · exact hmem
    have hsame : keys.flatMap (fun j => l.filter (key · = j)) =
        keys.flatMap fun j => (l.filter fun x => !decide (key x = k)).filter (key · = j) := by
      refine List.flatMap_congr fun j hj => ?_
      rw [List.filter_filter]
      refine List.filter_congr fun x _ => ?_
      by_cases hxj : key x = j
      · have hne : j ≠ k := fun heq => hk (heq ▸ hj)
        simp [hxj, hne]
      · simp [hxj]
    rw [List.flatMap_cons, hsame]
    exact ((ih hrest hothers).append_left _).trans (List.filter_append_perm _ l)

namespace Emitter

/-- The spans of a whole trace in the order in which they end: those below the root first, each of
which names a parent, and the root last. -/
structure WholeTrace (reg : Registry) (tree : SpanTree) (spans : List Span) : Prop where
  stamped : ∃ shared top stamps, Stamped reg shared tree top stamps ∧
    spans = (stamps ++ [top]).map Stamp.ended
  rootLast : ∃ below root, spans = below ++ [root] ∧ root.parentSpanId = none ∧
    ∀ span ∈ below, span.traceId = root.traceId ∧ span.parentSpanId ≠ none

variable {reg : Registry} {ds : List Descriptor} {tree : SpanTree}

theorem LogsSubtree.wholeTrace {log : List Event} (h : LogsSubtree reg ds tree log) :
    WholeTrace reg tree (log.filterMap Event.finished?) := by
  obtain ⟨shared, top, stamps, hstamped, rfl⟩ := h.shape
  rw [finished_traceLog]
  constructor
  · exact ⟨shared, top, stamps, hstamped, rfl⟩
  · refine ⟨stamps.map Stamp.ended, top.ended, ?_, ?_, ?_⟩
    · -- the root ends last
      rw [List.map_append, List.map_singleton]
    · exact hstamped.topFits.parentSpanId.trans hstamped.orphan
    · intro span hspan
      obtain ⟨st, hst, rfl⟩ := List.mem_map.1 hspan
      have hfits := hstamped.fits st hst
      obtain ⟨p, -, -, hparent⟩ := hstamped.linked st hst
      constructor
      · -- all other spans carry the trace of the root and have a parent
        exact hfits.traceId.trans hstamped.topFits.traceId.symm
      · have hlink : st.ended.parentSpanId = some p.context.spanId :=
          hfits.parentSpanId.trans hparent
        rw [hlink]
        exact nofun

/-- A whole trace has as many spans as its tree. -/
theorem WholeTrace.length {spans : List Span} (h : WholeTrace reg tree spans) :
    spans.length = tree.size := by
  obtain ⟨shared, top, stamps, hstamped, rfl⟩ := h.stamped
  have hcount := congrArg List.length hstamped.descriptors
  rw [SpanTree.length_preorder, List.length_map, List.length_cons] at hcount
  rw [List.length_map, List.length_append, List.length_singleton, hcount]

end Emitter

namespace Run

open Worker (Move)

variable {σ α τ : Type} {p : Plan} {r r' : Run σ α τ}

/-! ## Who has ended what -/

/-- The spans that a worker has ended, in the order in which it did. -/
def spansOf (r : Run σ α τ) (worker : Nat) : List Span :=
  (r.eventsOf worker).filterMap Event.finished?

/-- The spans that have ended, each with the worker that ended it. -/
def endings (r : Run σ α τ) : List (Nat × Span) :=
  r.entries.filterMap fun e => e.event.finished?.map (Prod.mk e.worker)

/-- The endings of a run are the spans that it has finished. -/
theorem map_snd_endings (r : Run σ α τ) : r.endings.map (·.2) = r.finishedSpans := by
  unfold endings finishedSpans
  rw [List.map_filterMap]
  refine List.filterMap_congr fun e _ => ?_
  rw [Option.map_map]
  exact Option.map_id'

/-- The endings of a worker are the spans that its own log has finished. -/
theorem endings_of_worker (r : Run σ α τ) (i : Nat) :
    (r.endings.filter (·.1 = i)).map (·.2) = r.spansOf i := by
  unfold endings spansOf eventsOf
  rw [List.filter_filterMap, List.map_filterMap, List.filterMap_map, List.filterMap_filter]
  refine List.filterMap_congr fun e _ => ?_
  by_cases he : e.worker = i
  · cases hspan : e.event.finished? with
    | none => simp [he, hspan]
    | some span => simp [he, hspan]
  · cases e.event.finished? with
    | none => simp [he]
    | some span => simp [he]

variable [WordSource σ]

/-- What a step puts on the record is some worker's. -/
theorem Step.entries (h : Step p r r') :
    ∃ more, r'.entries = r.entries ++ more ∧ ∀ e ∈ more, e.worker ∈ r.ids := by
  cases h with
  | @go i w w' events _ mem move went =>
    refine ⟨_, went.entries, ?_⟩
    intro e he
    obtain ⟨event, -, rfl⟩ := List.mem_map.1 he
    have hw : w ∈ r.workers.toList := Array.mem_def.1 (Array.mem_of_getElem? mem)
    exact List.mem_map.2 ⟨w, hw, rfl⟩
  | stop => exact ⟨[], (List.append_nil _).symm, by simp⟩
  | pass _ => exact ⟨[], (List.append_nil _).symm, by simp⟩

/-- The spans that have ended are those that had ended before a step and those that end in it. -/
theorem Step.finishedSpans (h : Step p r r') :
    r'.finishedSpans = r.finishedSpans ++ r'.finishedSince r.entries.length := by
  obtain ⟨more, hentries, -⟩ := h.entries
  unfold Run.finishedSpans finishedSince
  rw [hentries, List.filterMap_append, List.drop_left]

variable [Add α] [Sub α] [Mul α] [Neg α] [Div α] [LE α] [DecidableLE α] [OfNat α 0] [OfNat α 1]
  [Timeline α τ] [LE τ] [DecidableLE τ]

/-- When all workers are done nobody goes on, and nothing is put on the record any more. -/
theorem entries_of_isOver (h : r.isOver = true) {l : Label τ} (hstep : r.step p l = some r') :
    r'.isOver = true ∧ r'.entries = r.entries := by
  cases l with
  | go i =>
    obtain ⟨w, w', events, hw, hmove, -, -⟩ := exists_deal_of_step hstep
    have hmem := Array.mem_def.1 (Array.mem_of_getElem? hw)
    obtain ⟨report, hreport⟩ := exists_report_of_isOver h hmem
    -- a worker that has reported does not move any more
    cases hreport.symm.trans hmove.report?_eq_none
  | stop =>
    obtain rfl := Option.some.inj hstep
    exact ⟨h, rfl⟩
  | pass later =>
    obtain ⟨-, rfl⟩ := le_of_step_pass hstep
    exact ⟨h, rfl⟩

variable {ws : List (Worker σ τ)} {limiter : Limiter α τ} {now : τ} {clock : Clock}
  {ls : List (Label τ)}

/-- Every ended span is one of the workers'. -/
theorem mem_ids_of_endings (hrun : (start ws limiter now clock).steps p ls = some r) :
    ∀ x ∈ r.endings, x.1 ∈ r.ids := by
  have hentries : ∀ e ∈ r.entries, e.worker ∈ r.ids := by
    -- an entry is made by the worker that moves, who is one of those from the start
    refine steps_keep (P := fun r : Run σ α τ => ∀ e ∈ r.entries, e.worker ∈ r.ids) ?_ hrun ?_
    · intro r r' h hstep e he
      obtain ⟨more, heq, hmore⟩ := hstep.entries
      rw [hstep.ids]
      rw [heq] at he
      rcases List.mem_append.1 he with he | he
      · exact h e he
      · exact hmore e he
    · intro e he
      cases he
  intro x hx
  obtain ⟨e, he, hspan⟩ := List.mem_filterMap.1 hx
  obtain ⟨span, -, rfl⟩ := Option.map_eq_some_iff.1 hspan
  exact hentries e he

/-- The spans that have ended, counted worker by worker. -/
theorem length_finishedSpans_eq (hws : Fresh ws)
    (hrun : (start ws limiter now clock).steps p ls = some r) :
    r.finishedSpans.length = (r.ids.map fun i => (r.spansOf i).length).sum := by
  have hids : r.ids.Nodup := by
    rw [steps_ids hrun]
    exact hws.ids
  have hparts := (perm_flatMap_filter hids (mem_ids_of_endings hrun)).length_eq
  rw [List.length_flatMap] at hparts
  rw [← map_snd_endings, List.length_map, ← hparts]
  congr 1
  refine List.map_congr_left fun i _ => ?_
  rw [← endings_of_worker, List.length_map]

end Run

namespace Runner

open Run (Label)
open Emitter (WholeTrace)

variable {σ α : Type} [WordSource σ] [Add α] [Sub α] [Mul α] [Neg α] [Div α] [LE α] [DecidableLE α]
  [OfNat α 0] [OfNat α 1] [Timeline α Instant] {c : Config} {ds : List Descriptor} {t : Topology}
  {reg : Registry} {streams : Nat → σ} {limiter : Limiter α Instant} {now : Instant}
  {clock : Clock} {ls : List (Label Instant)} {r : Run σ α Instant}

/-! ## What the report counts -/

/-- A worker that has reported has ended the spans of as many whole traces as its report counts. -/
theorem exists_traces_of_report (ht : Topology.ofDescriptors ds = .ok t)
    (hcheck : check c t reg = .ok ())
    (hrun : (Run.start (crew c streams) limiter now clock).steps (plan c t reg) ls = some r)
    {w : WorkerReport} (hw : w ∈ r.reports.toList) :
    ∃ traces : List (List Span), r.spansOf w.worker = traces.flatten ∧ traces.length = w.traces ∧
      ∀ trace ∈ traces, WholeTrace reg t.tree trace := by
  obtain ⟨s, haccurate⟩ := Run.accurate_eventsOf ht rfl (fresh_crew c streams) hrun hw
  have houtcome := outcome_of_accurate ht hcheck haccurate
  obtain ⟨traces, s', rest, -, hlog, hlength, hwhole, hrest⟩ := haccurate.log
  -- in a run that has been checked no trace fails, so there is nothing behind the last one
  rw [if_neg houtcome.emitted] at hrest
  subst hrest
  refine ⟨traces.map (·.filterMap Event.finished?), ?_, ?_, ?_⟩
  · rw [Run.spansOf, hlog, List.append_nil, List.filterMap_flatten]
  · rw [List.length_map, hlength]
  · intro trace htrace
    obtain ⟨log, hmem, rfl⟩ := List.mem_map.1 htrace
    exact (hwhole log hmem).wholeTrace

/-- A worker that has reported has ended as many spans as its report counts. -/
theorem length_spansOf_report (ht : Topology.ofDescriptors ds = .ok t)
    (hcheck : check c t reg = .ok ())
    (hrun : (Run.start (crew c streams) limiter now clock).steps (plan c t reg) ls = some r)
    {w : WorkerReport} (hw : w ∈ r.reports.toList) :
    (r.spansOf w.worker).length = w.spans ∧ w.spans = w.traces * t.size := by
  obtain ⟨s, haccurate⟩ := Run.accurate_eventsOf ht rfl (fresh_crew c streams) hrun hw
  have hspans := (outcome_of_accurate ht hcheck haccurate).spans
  obtain ⟨traces, hflatten, hlength, hwhole⟩ := exists_traces_of_report ht hcheck hrun hw
  -- every trace is one of the whole tree
  have hsize : ∀ trace ∈ traces, trace.length = t.size := by
    obtain ⟨rfl, hwell⟩ := Topology.ofDescriptors_eq_ok_iff.1 ht
    intro trace htrace
    rw [(hwhole trace htrace).length, hwell.size_tree]
  constructor
  · rw [hflatten, List.length_flatten, List.map_congr_left hsize, List.map_const',
      List.sum_replicate_nat, hlength, hspans]
  · exact hspans

/-- When all workers are done, the report names each of them once, in order. -/
theorem map_worker_perWorker
    (hrun : (Run.start (crew c streams) limiter now clock).steps (plan c t reg) ls = some r)
    (hover : r.isOver = true) :
    r.ids = List.range c.workers ∧ (report r).perWorker.map (·.worker) = List.range c.workers := by
  have hids : r.ids = List.range c.workers :=
    (Run.steps_ids hrun).trans ((Run.ids_start _ limiter now clock).trans (map_id_crew c streams))
  have hnumbers := (Run.collected_of_steps (fresh_crew c streams) hrun).numbers hover
  rw [hids] at hnumbers
  constructor
  · exact hids
  · rw [report_eq]
    exact map_worker_inOrder hnumbers

/-- When all workers are done, the report counts the spans that have ended. -/
theorem length_finishedSpans (ht : Topology.ofDescriptors ds = .ok t)
    (hcheck : check c t reg = .ok ())
    (hrun : (Run.start (crew c streams) limiter now clock).steps (plan c t reg) ls = some r)
    (hover : r.isOver = true) : r.finishedSpans.length = (report r).spans ∧
      (report r).spans = (report r).traces * t.size := by
  obtain ⟨hids, hnumbers⟩ := map_worker_perWorker hrun hover
  have hperm := inOrder_perm r.reports.toList
  -- worker by worker the log and the report count the same spans, and the sums follow
  have hlength : ∀ w ∈ inOrder r.reports.toList, (r.spansOf w.worker).length = w.spans ∧
      w.spans = w.traces * t.size := fun w hw =>
    length_spansOf_report ht hcheck hrun (hperm.mem_iff.1 hw)
  have hsum := (hperm.map (·.spans)).sum_nat
  have htraces := (hperm.map (·.traces)).sum_nat
  rw [report_eq] at hnumbers ⊢
  dsimp only at hnumbers ⊢
  constructor
  · rw [Run.length_finishedSpans_eq (fresh_crew c streams) hrun, hids, ← hnumbers, List.map_map,
      ← hsum]
    congr 1
    exact List.map_congr_left fun w hw => (hlength w hw).1
  · have heach : (inOrder r.reports.toList).map (·.spans) =
        (inOrder r.reports.toList).map (·.traces * t.size) :=
      List.map_congr_left fun w hw => (hlength w hw).2
    rw [← hsum, ← htraces, heach, List.sum_map_mul_right]

end Runner

namespace Pipeline

variable {σ α τ : Type} [WordSource σ] [Add α] [Sub α] [Mul α] [Neg α] [Div α] [LE α]
  [DecidableLE α] [OfNat α 0] [OfNat α 1] [Timeline α τ] [LE τ] [DecidableLE τ] {p : Plan}
  {sink : Nat → SinkOutcome} {s s' : Pipeline σ α τ} {l : Label τ} {ls : List (Label τ)}

/-! ## The channel -/

/-- Until the channel is closed, what the exporter has received and what is in the channel are
together the spans that have ended. -/
def Flows (sink : Nat → SinkOutcome) (s : Pipeline σ α τ) : Prop :=
  ∃ received, Exporter.IsOpen sink received s.exporter ∧
    received ++ s.channel = s.run.finishedSpans

/-- When the channel is closed, all spans have been written, and none will end any more. -/
structure Closed (s : Pipeline σ α τ) : Prop where
  done : s.run.isOver = true
  empty : s.channel = []
  stopped : s.exporter.running = false
  written : s.exporter.written.toList = s.run.finishedSpans
  spans : s.exporter.stats.spans = s.run.finishedSpans.length

omit [WordSource σ] [Add α] [Sub α] [Mul α] [Neg α] [Div α] [LE α] [DecidableLE α] [OfNat α 0]
  [OfNat α 1] [Timeline α τ] [LE τ] [DecidableLE τ] in
/-- A run that has finished no span flows to the exporter. -/
theorem flows_start (sink : Nat → SinkOutcome) {r : Run σ α τ} (h : r.finishedSpans = []) :
    Flows sink (start r) := by
  exact ⟨[], Exporter.isOpen_start sink, h.symm⟩

/-- A turn of the run sends the spans that have finished in it. -/
theorem exists_run_of_step {label : Run.Label τ} (h : s.step p sink (.run label) = some s') :
    ∃ r, s.run.step p label = some r ∧
      s' = { s with run := r, channel := s.channel ++ r.finishedSince s.run.entries.length } := by
  simp only [step] at h
  split at h
  · cases h
  · next r hr => exact ⟨r, hr, (Option.some.inj h).symm⟩

/-- A delivery takes the first span that is on its way. -/
theorem exists_span_of_step (h : s.step p sink .deliver = some s') :
    ∃ span rest, s.channel = span :: rest ∧
      s' = { s with channel := rest, exporter := s.exporter.step sink (.receive span) } := by
  simp only [step] at h
  split at h
  · cases h
  · next span rest hchannel => exact ⟨span, rest, hchannel, (Option.some.inj h).symm⟩

/-- The exporter is closed only when nothing can be on its way any more. -/
theorem isOver_of_step (h : s.step p sink .close = some s') :
    s.run.isOver = true ∧ s.channel = [] ∧
      s' = { s with exporter := s.exporter.step sink .close } := by
  simp only [step, Option.ite_none_right_eq_some, Option.some.injEq] at h
  exact ⟨h.1.1, h.1.2, h.2.symm⟩

/-- An exporter whose sink never fails runs until it is closed. -/
theorem running_of_isOpen (hsink : ∀ i, sink i = .written) {received : List Span} {e : Exporter}
    (h : Exporter.IsOpen sink received e) : e.running = true := by
  rcases h with ⟨hgathers, -⟩ | hbroken
  · exact hgathers.running
  · obtain ⟨n, -, hpanic, -⟩ := hbroken.last
    rw [hsink n] at hpanic
    cases hpanic

/-- Nothing is lost by any step but the last one. -/
theorem Flows.next (hsink : ∀ i, sink i = .written) (h : Flows sink s)
    (hstep : s.step p sink l = some s') (hl : l ≠ .close) : Flows sink s' := by
  obtain ⟨received, hopen, hflows⟩ := h
  have hrunning := running_of_isOpen hsink hopen
  cases l with
  | run label =>
    -- what ends in the step comes last in the channel
    obtain ⟨r, hr, rfl⟩ := exists_run_of_step hstep
    have hspans := (Run.step_of_eq_some hr).finishedSpans
    refine ⟨received, hopen, ?_⟩
    show received ++ (s.channel ++ r.finishedSince s.run.entries.length) = r.finishedSpans
    rw [hspans, ← List.append_assoc, hflows]
  | deliver =>
    -- the first span of the channel is the next one that the exporter receives
    obtain ⟨span, rest, hchannel, rfl⟩ := exists_span_of_step hstep
    have hnext := hopen.next (l := .receive span) nofun
    rw [if_pos hrunning] at hnext
    refine ⟨received ++ [span], hnext, ?_⟩
    show received ++ [span] ++ rest = s.run.finishedSpans
    rw [List.append_assoc, List.singleton_append, ← hchannel, hflows]
  | tick =>
    obtain rfl := Option.some.inj hstep
    have hnext := hopen.next (l := .tick) nofun
    rw [if_pos hrunning] at hnext
    refine ⟨received ++ [], hnext, ?_⟩
    rw [List.append_nil]
    exact hflows
  | close => exact absurd rfl hl

/-- When the channel is closed, the exporter has received everything and writes the rest. -/
theorem Flows.close (hsink : ∀ i, sink i = .written) (h : Flows sink s)
    (hstep : s.step p sink .close = some s') : Closed s' := by
  obtain ⟨received, hopen, hflows⟩ := h
  obtain ⟨hover, hempty, rfl⟩ := isOver_of_step hstep
  rw [hempty, List.append_nil] at hflows
  have hexported := hopen.close (List.prefix_refl received) fun _ => rfl
  constructor
  · exact hover
  · exact hempty
  · exact hexported.stopped
  · rw [hexported.books.written, Exporter.writtenOf_eq_self hsink, hexported.complete, hflows]
  · rw [hexported.unfailing hsink, hflows]

/-- Nothing happens any more behind a channel that is closed. -/
theorem Closed.next (h : Closed s) (hstep : s.step p sink l = some s') : Closed s' := by
  cases l with
  | run label =>
    -- no worker goes on, so the record is what it was
    obtain ⟨r, hr, rfl⟩ := exists_run_of_step hstep
    obtain ⟨hover, hentries⟩ := Run.entries_of_isOver h.done hr
    have hspans : r.finishedSpans = s.run.finishedSpans := by
      rw [Run.finishedSpans, hentries, Run.finishedSpans]
    have hnone : r.finishedSince s.run.entries.length = [] := by
      rw [Run.finishedSince, hentries, List.drop_length, List.filterMap_nil]
    constructor
    · exact hover
    · show s.channel ++ r.finishedSince s.run.entries.length = []
      rw [h.empty, hnone, List.nil_append]
    · exact h.stopped
    · exact h.written.trans hspans.symm
    · exact h.spans.trans (congrArg List.length hspans.symm)
  | deliver =>
    obtain ⟨span, rest, hchannel, -⟩ := exists_span_of_step hstep
    rw [h.empty] at hchannel
    cases hchannel
  | tick =>
    obtain rfl := Option.some.inj hstep
    rw [Exporter.step_of_stopped h.stopped]
    exact ⟨h.done, h.empty, h.stopped, h.written, h.spans⟩
  | close =>
    obtain ⟨-, -, rfl⟩ := isOver_of_step hstep
    rw [Exporter.step_of_stopped h.stopped]
    exact ⟨h.done, h.empty, h.stopped, h.written, h.spans⟩

/-! ## Whole schedules -/

theorem exists_step_of_cons (h : s.steps p sink (l :: ls) = some s') :
    ∃ s₁, s.step p sink l = some s₁ ∧ s₁.steps p sink ls = some s' := by
  simp only [steps] at h
  cases hl : s.step p sink l with
  | none => simp [hl] at h
  | some s₁ =>
    rw [hl] at h
    exact ⟨s₁, rfl, h⟩

/-- What is closed stays as it is. -/
theorem Closed.steps (h : Closed s) (hrun : s.steps p sink ls = some s') : Closed s' := by
  induction ls generalizing s with
  | nil =>
    obtain rfl := Option.some.inj hrun
    exact h
  | cons l ls ih =>
    obtain ⟨s₁, hl, hrest⟩ := exists_step_of_cons hrun
    exact ih (h.next hl) hrest

/-- A schedule leaves the channel open or closed, as it closes it or not. -/
theorem Flows.steps (hsink : ∀ i, sink i = .written) (h : Flows sink s)
    (hrun : s.steps p sink ls = some s') :
    (.close ∉ ls → Flows sink s') ∧ (.close ∈ ls → Closed s') := by
  induction ls generalizing s with
  | nil =>
    obtain rfl := Option.some.inj hrun
    exact ⟨fun _ => h, fun hclose => nomatch hclose⟩
  | cons l ls ih =>
    obtain ⟨s₁, hl, hrest⟩ := exists_step_of_cons hrun
    by_cases hclose : l = .close
    · subst hclose
      -- whatever comes behind the close changes nothing
      have hclosed := (h.close hsink hl).steps hrest
      exact ⟨fun hno => absurd List.mem_cons_self hno, fun _ => hclosed⟩
    · obtain ⟨hflows, hclosed⟩ := ih (h.next hsink hl hclose) hrest
      constructor
      · intro hno
        exact hflows fun hmem => hno (List.mem_cons_of_mem _ hmem)
      · intro hmem
        rcases List.mem_cons.1 hmem with heq | hmem
        · exact absurd heq.symm hclose
        · exact hclosed hmem

/-- Seen from its run, the schedule of a pipeline is a schedule of the run. -/
theorem exists_run_steps (h : s.steps p sink ls = some s') :
    ∃ rls, s.run.steps p rls = some s'.run := by
  induction ls generalizing s with
  | nil =>
    obtain rfl := Option.some.inj h
    exact ⟨[], rfl⟩
  | cons l ls ih =>
    obtain ⟨s₁, hl, hrest⟩ := exists_step_of_cons h
    obtain ⟨rls, hrls⟩ := ih hrest
    -- of all steps only those of the run are left, in their order
    cases l with
    | run label =>
      obtain ⟨r, hr, rfl⟩ := exists_run_of_step hl
      refine ⟨label :: rls, ?_⟩
      simp only [Run.steps, hr]
      exact hrls
    | deliver =>
      obtain ⟨span, rest, -, rfl⟩ := exists_span_of_step hl
      exact ⟨rls, hrls⟩
    | tick =>
      obtain rfl := Option.some.inj hl
      exact ⟨rls, hrls⟩
    | close =>
      obtain ⟨-, -, rfl⟩ := isOver_of_step hl
      exact ⟨rls, hrls⟩

/-- When the run is over the channel can be emptied and closed: that is how a pipeline settles. -/
theorem steps_settle (r : Run σ α τ) (hover : r.isOver = true) (channel : List Span)
    (e : Exporter) :
    (⟨r, channel, e⟩ : Pipeline σ α τ).steps p sink
        (List.replicate channel.length .deliver ++ [.close]) =
      some ((⟨r, channel, e⟩ : Pipeline σ α τ).settle sink) := by
  induction channel generalizing e with
  | nil =>
    simp only [List.length_nil, List.replicate_zero, List.nil_append, steps, step, hover,
      and_self, if_true]
    rfl
  | cons span rest ih =>
    rw [List.length_cons, List.replicate_succ, List.cons_append]
    simp only [steps, step]
    -- each delivery takes one span off, until the channel is empty
    exact ih (e.step sink (.receive span))

/-! ## A run and its exporter -/

section Instants

variable {σ α : Type}

/-- What has become of the spans of a run when its exporter has been shut down. -/
structure Delivered (c : Config) (reg : Registry) (t : Topology) (s : Pipeline σ α Instant) :
    Prop where
  done : s.run.isOver = true
  /-- as many spans are exported as are reported -/
  exported : s.exporter.stats.spans = (Runner.report s.run).spans
  counted : (Runner.report s.run).spans = (Runner.report s.run).traces * t.size
  /-- what is written is what the workers have ended, span by span -/
  written : s.exporter.written.toList = s.run.finishedSpans
  /-- every span that is written is some worker's, and those of each worker keep their order -/
  origin : s.run.endings.map (·.2) = s.exporter.written.toList ∧
    (∀ x ∈ s.run.endings, x.1 < c.workers) ∧
    ∀ i, (s.run.endings.filter (·.1 = i)).map (·.2) = s.run.spansOf i
  numbers : (Runner.report s.run).perWorker.map (·.worker) = List.range c.workers
  /-- the spans of a worker are those of its traces, one trace after the other, each with its root
  behind all the rest -/
  traces : ∀ w ∈ (Runner.report s.run).perWorker, ∃ traces : List (List Span),
    s.run.spansOf w.worker = traces.flatten ∧ traces.length = w.traces ∧
    ∀ trace ∈ traces, Emitter.WholeTrace reg t.tree trace

variable [WordSource σ] [Add α] [Sub α] [Mul α] [Neg α] [Div α] [LE α] [DecidableLE α] [OfNat α 0]
  [OfNat α 1] [Timeline α Instant] {c : Config} {ds : List Descriptor} {t : Topology}
  {reg : Registry} {streams : Nat → σ} {limiter : Limiter α Instant} {now : Instant}
  {clock : Clock} {s : Pipeline σ α Instant}

/-- Behind a closed channel everything has been delivered. -/
theorem Closed.delivered (h : Closed s) (ht : Topology.ofDescriptors ds = .ok t)
    (hcheck : Runner.check c t reg = .ok ()) {ls : List (Run.Label Instant)}
    (hrun : (Run.start (Runner.crew c streams) limiter now clock).steps (Runner.plan c t reg) ls =
      some s.run) : Delivered c reg t s := by
  obtain ⟨hids, hnumbers⟩ := Runner.map_worker_perWorker hrun h.done
  obtain ⟨hlength, hcounted⟩ := Runner.length_finishedSpans ht hcheck hrun h.done
  constructor
  case done => exact h.done
  case exported => exact h.spans.trans hlength
  case counted => exact hcounted
  case written => exact h.written
  case origin =>
    refine ⟨?_, ?_, ?_⟩
    · -- what has been written is what the log says, worker by worker and in its order
      exact s.run.map_snd_endings.trans h.written.symm
    · intro x hx
      have hmem := Run.mem_ids_of_endings hrun x hx
      rw [hids] at hmem
      exact List.mem_range.1 hmem
    · exact s.run.endings_of_worker
  case numbers => exact hnumbers
  case traces =>
    intro w hw
    rw [Runner.report_eq] at hw
    have hreport := (Runner.inOrder_perm _).mem_iff.1 hw
    exact Runner.exists_traces_of_report ht hcheck hrun hreport

/-- With a sink that never fails, whatever the order of steps, deliveries and ticks: once the
exporter of a run that has passed the checks is shut down, it has written what was reported. When
the run is over, the exporter can be shut down. -/
theorem shutdown_delivers {sink : Nat → SinkOutcome} {ls : List (Label Instant)}
    (ht : Topology.ofDescriptors ds = .ok t) (hcheck : Runner.check c t reg = .ok ())
    (hsink : ∀ i, sink i = .written)
    (hrun : (start (Run.start (Runner.crew c streams) limiter now clock)).steps
      (Runner.plan c t reg) sink ls = some s) :
    (.close ∈ ls → Delivered c reg t s) ∧
      (s.run.isOver = true → .close ∉ ls → ∃ more,
        s.steps (Runner.plan c t reg) sink more = some (s.settle sink) ∧
          Delivered c reg t (s.settle sink)) := by
  obtain ⟨rls, hrls⟩ := exists_run_steps hrun
  obtain ⟨hflows, hclosed⟩ := (flows_start sink rfl).steps hsink hrun
  constructor
  · intro hclose
    exact (hclosed hclose).delivered ht hcheck hrls
  · intro hover hopen
    -- a run that is over is settled by deliveries and a close, which is a schedule, too
    have hsettle : s.steps (Runner.plan c t reg) sink
        (List.replicate s.channel.length .deliver ++ [.close]) = some (s.settle sink) :=
      steps_settle s.run hover s.channel s.exporter
    have hsettled := (((hflows hopen).steps hsink hsettle).2 (by simp)).delivered ht hcheck hrls
    exact ⟨_, hsettle, hsettled⟩

end Instants

/-- Two workers take turns at a trace each; meanwhile the first span arrives and the timer ticks. -/
def turnsAndTicks : List (Label Instant) :=
  (List.replicate 6 [Label.run (.go 1), Label.run (.go 0)]).flatten ++
    [Label.deliver, Label.tick] ++
    (List.replicate 2 [Label.run (.go 1), Label.run (.go 0)]).flatten ++
    List.replicate 3 Label.deliver ++ [Label.close]

/-- The four spans of two traces are written. -/
theorem pair_delivered :
    Topology.ofDescriptors Topology.call = .ok Emitter.callEmitter.topology ∧
      Runner.check Runner.pair Emitter.callEmitter.topology Emitter.callEmitter.registry = .ok () ∧
      (∀ i, (fun _ => SinkOutcome.written : Nat → SinkOutcome) i = .written) ∧
      ∃ s, (start (Runner.start Runner.pair UInt64.ofNat (.still ⟨0⟩))).steps
          (Runner.plan Runner.pair Emitter.callEmitter.topology Emitter.callEmitter.registry)
          (fun _ => .written) turnsAndTicks = some s ∧
        Delivered Runner.pair Emitter.callEmitter.registry Emitter.callEmitter.topology s ∧
        s.exporter.stats.spans = 4 := by
  have hloads : Topology.ofDescriptors Topology.call = .ok Emitter.callEmitter.topology :=
    Topology.ofDescriptors_call
  have hcheck : Runner.check Runner.pair Emitter.callEmitter.topology
      Emitter.callEmitter.registry = .ok () := by decide
  -- the one thing that has to be computed is that this schedule can be followed
  have hend : ((start (Runner.start Runner.pair UInt64.ofNat (.still ⟨0⟩))).steps
      (Runner.plan Runner.pair Emitter.callEmitter.topology Emitter.callEmitter.registry)
      (fun _ => .written) turnsAndTicks).map (·.exporter.stats.spans) = some 4 := by
    decide +kernel
  obtain ⟨s, hrun, hspans⟩ := Option.map_eq_some_iff.1 hend
  have hdelivers := shutdown_delivers hloads hcheck (fun _ => rfl) hrun
  exact ⟨hloads, hcheck, fun _ => rfl, s, hrun, hdelivers.1 (by decide), hspans⟩

end Pipeline

end TraceLoad
