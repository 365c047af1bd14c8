import TraceLoad.Limiter.Instant
import TraceLoad.Proofs.Coverage
import TraceLoad.Proofs.WorkerPath

/-! # What a worker reports is what it has done

A worker's events are complete traces, one after another, each drawn from the stream of words that
the one before has left; only a trace that fails is put on the record in part, and it is the last
one. The report counts the complete traces and their spans, and gives the reason why there are no
more. After the stop signal a worker starts a trace only if it had looked for the signal already and
did not wait for its permit then.

All of this is proved of paths (`Path.books`, `Path.quota`, `Path.heeds`, `Path.begun_le`), whatever
the other workers do, and holds therefore in every schedule. It is about workers that have done
nothing before (`Fresh`): counters go on when a worker is started once more.
-/

namespace TraceLoad

namespace Phase

/-- Where a worker is when it neither emits a trace nor has failed to. -/
def IsBetween {τ : Type} : Phase τ → Prop
  | .emitting _ _ => False
  | .done .emitFailed => False
  | _ => True

end Phase

namespace Worker

variable {σ τ : Type} [WordSource σ]

/-! ## The books of a worker -/

/-- Complete traces one after another, from the first stream of words to the second one. -/
inductive Traces (p : Plan) (s : σ) : List (List Event) → σ → Prop where
  | nil : Traces p s [] s
  | snoc {logs : List (List Event)} {s' : σ} {clock : Clock} {n : Nat} {e : Emission σ}
      (before : Traces p s logs s')
      (emits : p.emitter.emit p.root ⟨s', clock, #[]⟩ = (.ok n, e)) :
      Traces p s (logs ++ [e.events.toList]) e.words

/-- The events of an emission that fails. -/
def FailedTrace (p : Plan) (s : σ) (log : List Event) : Prop :=
  ∃ clock f e, p.emitter.emit p.root ⟨s, clock, #[]⟩ = (.error f, e) ∧ log = e.events.toList

/-- What a worker has put on the record behind its complete traces, which have left the stream `s`:
the first part of the trace that it emits, the trace that has failed, or nothing. -/
def Unfinished (p : Plan) (s : σ) (w : Worker σ τ) (rest : List Event) : Prop :=
  match w.phase with
  | .emitting left result => ∃ clock e, p.emitter.emit p.root ⟨s, clock, #[]⟩ = (result, e) ∧
      w.words = e.words ∧ e.events.toList = rest ++ left
  | .done .emitFailed => FailedTrace p s rest
  | _ => w.words = s ∧ rest = []

/-- A worker that started with the stream `s` has emitted what its counters say. -/
structure Books (p : Plan) (size : Nat) (s : σ) (w : Worker σ τ) (log : List Event) : Prop where
  log : ∃ traces s' rest, Traces p s traces s' ∧ log = traces.flatten ++ rest ∧
    traces.length = w.traces ∧ Unfinished p s' w rest
  spans : w.spans = w.traces * size

variable {p : Plan} {size : Nat} {s : σ} {b b' : Bool} {w w' : Worker σ τ} {log events : List Event}

/-- Between two traces there is nothing unfinished. -/
theorem unfinished_between (h : w.phase.IsBetween) {rest : List Event} :
    Unfinished p s w rest ↔ w.words = s ∧ rest = [] := by
  unfold Unfinished
  split
  · next hphase => simp [hphase, Phase.IsBetween] at h
  · next hphase => simp [hphase, Phase.IsBetween] at h
  · rfl

/-- Nothing changes for the books when a worker goes from one place between traces to another. -/
theorem Books.between (h : Books p size s w log) (hw : w.phase.IsBetween) {phase : Phase τ}
    (hphase : phase.IsBetween) : Books p size s (w.moveTo phase) (log ++ []) := by
  obtain ⟨traces, s', rest, htraces, rfl, hlength, hrest⟩ := h.log
  refine ⟨⟨traces, s', rest, htraces, List.append_nil _, hlength, ?_⟩, h.spans⟩
  exact (unfinished_between hphase).2 ((unfinished_between hw).1 hrest)

omit [WordSource σ] in
/-- After a complete trace the counters have gone up, and the worker stands between traces: out of
its loop if the quota is reached, and at its head otherwise. -/
theorem exists_settle_ok (w : Worker σ τ) (maxTraces n : Nat) :
    ∃ phase, w.settle maxTraces (.ok n) =
        { w with traces := w.traces + 1, spans := w.spans + n, phase := phase } ∧
      (phase = .done .quotaReached ∧ maxTraces ≠ 0 ∧ maxTraces ≤ w.traces + 1 ∨
        phase = .ready ∧ (maxTraces ≠ 0 → w.traces + 1 < maxTraces)) := by
  by_cases hquota : maxTraces ≠ 0 ∧ maxTraces ≤ w.traces + 1
  · exact ⟨.done .quotaReached, if_pos hquota, .inl ⟨rfl, hquota⟩⟩
  · have hmore : maxTraces ≠ 0 → w.traces + 1 < maxTraces := fun hne =>
      Nat.lt_of_not_le fun hle => hquota ⟨hne, hle⟩
    exact ⟨.ready, if_neg hquota, .inr ⟨rfl, hmore⟩⟩

/-- Every move keeps the books, if every complete trace of the plan has the same number of spans. -/
theorem Books.move (hsize : ∀ (s : σ) clock n e,
      p.emitter.emit p.root ⟨s, clock, #[]⟩ = (.ok n, e) → n = size)
    (h : Books p size s w log) (hmove : Move p b w events w') :
    Books p size s w' (log ++ events) := by
  cases hmove with
  | look ready _ => exact h.between (by rw [ready]; trivial) trivial
  | quit ready _ => exact h.between (by rw [ready]; trivial) trivial
  | grant asks => exact h.between (by rw [asks]; trivial) trivial
  | wait asks due => exact h.between (by rw [asks]; trivial) trivial
  | serve waits _ => exact h.between (by rw [waits]; trivial) trivial
  | leave waits _ => exact h.between (by rw [waits]; trivial) trivial
  | @begin clock result e free emits =>
    obtain ⟨traces, s', rest, htraces, rfl, hlength, hrest⟩ := h.log
    rw [unfinished_between (by rw [free]; trivial)] at hrest
    obtain ⟨hwords, rfl⟩ := hrest
    refine ⟨⟨traces, s', [], htraces, List.append_nil _, hlength, ?_⟩, h.spans⟩
    exact ⟨clock, e, hwords ▸ emits, rfl, rfl⟩
  | @record event left result emits =>
    obtain ⟨traces, s', rest, htraces, rfl, hlength, hrest⟩ := h.log
    rw [Unfinished, emits] at hrest
    obtain ⟨clock, e, hemit, hwords, hevents⟩ := hrest
    refine ⟨⟨traces, s', rest ++ [event], htraces, List.append_assoc _ _ _, hlength, ?_⟩, h.spans⟩
    exact ⟨clock, e, hemit, hwords, by rw [hevents, List.append_assoc]; rfl⟩
  | @settle result through =>
    obtain ⟨traces, s', rest, htraces, rfl, hlength, hrest⟩ := h.log
    rw [Unfinished, through] at hrest
    obtain ⟨clock, e, hemit, hwords, hevents⟩ := hrest
    rw [List.append_nil] at hevents ⊢
    subst hevents
    cases result with
    | error f => exact ⟨⟨traces, s', _, htraces, rfl, hlength, clock, f, e, hemit, rfl⟩, h.spans⟩
    | ok n =>
      -- the trace that was emitted is one of the complete ones now
      obtain ⟨phase, hsettle, hphase⟩ := w.exists_settle_ok p.maxTraces n
      have hbetween : phase.IsBetween := by
        rcases hphase with ⟨rfl, -⟩ | ⟨rfl, -⟩ <;> trivial
      rw [hsettle]
      refine ⟨⟨traces ++ [e.events.toList], e.words, [], .snoc htraces hemit, ?_, ?_, ?_⟩, ?_⟩
      · simp
      · simp [hlength]
      · exact (unfinished_between hbetween).2 ⟨hwords, rfl⟩
      · obtain rfl := hsize _ _ _ _ hemit
        rw [h.spans, Nat.succ_mul]

/-- Along a path the books stay right. -/
theorem Path.books (hsize : ∀ (s : σ) clock n e,
      p.emitter.emit p.root ⟨s, clock, #[]⟩ = (.ok n, e) → n = size)
    (h : Path p b w log b' w') {before : List Event} (hw : Books p size s w before) :
    Books p size s w' (before ++ log) := by
  induction h with
  | refl => exact (List.append_nil before).symm ▸ hw
  | move _ last ih => exact List.append_assoc before _ _ ▸ ih.move hsize last
  | fire _ ih => exact ih

/-! ## Quota and stop signal -/

/-- A worker is out of its loop because of its quota exactly if it has reached it, and never goes
beyond. -/
structure Quota (p : Plan) (w : Worker σ τ) : Prop where
  reached : w.phase = .done .quotaReached → p.maxTraces ≠ 0 ∧ w.traces = p.maxTraces
  below : w.phase ≠ .done .quotaReached → p.maxTraces ≠ 0 → w.traces < p.maxTraces

omit [WordSource σ] in
theorem Quota.moveTo (h : Quota p w) (hw : w.phase ≠ .done .quotaReached) {phase : Phase τ}
    (hphase : phase ≠ .done .quotaReached) : Quota p (w.moveTo phase) where
  reached hreached := absurd hreached hphase
  below _ := h.below hw

theorem Quota.move (h : Quota p w) (hmove : Move p b w events w') : Quota p w' := by
  cases hmove with
  | look ready _ => exact h.moveTo (by simp [ready]) nofun
  | quit ready _ => exact h.moveTo (by simp [ready]) nofun
  | grant asks => exact h.moveTo (by simp [asks]) nofun
  | wait asks due => exact h.moveTo (by simp [asks]) nofun
  | serve waits _ => exact h.moveTo (by simp [waits]) nofun
  | leave waits _ => exact h.moveTo (by simp [waits]) nofun
  | begin free _ => exact ⟨nofun, fun _ => h.below (by simp [free])⟩
  | record emits => exact h.moveTo (by simp [emits]) nofun
  | @settle result through =>
    have hbelow := h.below (by simp [through])
    cases result with
    | error f => exact ⟨nofun, fun _ => hbelow⟩
    | ok n =>
      obtain ⟨phase, hsettle, hphase⟩ := w.exists_settle_ok p.maxTraces n
      rw [hsettle]
      -- the last trace may be the one that reaches the quota, and it is below before that
      rcases hphase with ⟨rfl, hne, hle⟩ | ⟨rfl, hlt⟩
      · have hlast := hbelow hne
        exact ⟨fun _ => ⟨hne, by dsimp only; omega⟩, fun hno => absurd rfl hno⟩
      · exact ⟨nofun, fun _ => hlt⟩

/-- Along a path the quota is kept. -/
theorem Path.quota (h : Path p b w log b' w') (hw : Quota p w) : Quota p w' := by
  induction h with
  | refl => exact hw
  | move _ last ih => exact ih.move last
  | fire _ ih => exact ih

/-- A worker that has left because it was told to was told to. -/
def Heeds (stopped : Bool) (w : Worker σ τ) : Prop :=
  w.phase = .done .stopRequested → stopped = true

theorem Heeds.move (hmove : Move p b w events w') : Heeds b w' := by
  -- a worker goes home early only from the top of its loop or from a queue
  intro hdone
  cases hmove with
  | look _ _ => cases hdone
  | quit _ fired => exact fired
  | grant _ => cases hdone
  | wait _ _ => cases hdone
  | serve _ _ => cases hdone
  | leave _ fired => exact fired
  | begin _ _ => cases hdone
  | record _ => cases hdone
  | @settle result _ =>
    cases result with
    | error f => cases hdone
    | ok n =>
      obtain ⟨phase, hsettle, hphase⟩ := w.exists_settle_ok p.maxTraces n
      rw [hsettle] at hdone
      rcases hphase with ⟨rfl, -⟩ | ⟨rfl, -⟩
      · cases hdone
      · cases hdone

/-- Along a path a worker heeds the stop. -/
theorem Path.heeds (h : Path p b w log b' w') (hw : Heeds b w) : Heeds b' w' := by
  cases h with
  | refl => exact hw
  | move _ last => exact .move last
  | fire _ => exact fun _ => rfl

/-! ## After the stop signal -/

/-- How many traces a worker has started: those that are complete, and the one that it emits or has
failed to emit. -/
def begun (w : Worker σ τ) : Nat :=
  match w.phase with
  | .emitting _ _ => w.traces + 1
  | .done .emitFailed => w.traces + 1
  | _ => w.traces

/-- How many traces a worker may still start when the stop signal has fired: one if it has looked
for the signal in vain and does not wait. -/
def chances (w : Worker σ τ) : Nat :=
  match w.phase with
  | .asking => 1
  | .permitted => 1
  | _ => 0

omit [WordSource σ] in
/-- There is one chance at most to begin another trace. -/
theorem chances_le_one (w : Worker σ τ) : w.chances ≤ 1 := by
  unfold chances
  split
  · exact Nat.le_refl 1
  · exact Nat.le_refl 1
  · exact Nat.zero_le 1

/-- Under the stop signal every trace that is started takes a chance. -/
theorem Move.begun_add_chances_le (h : Move p true w events w') :
    w'.begun + w'.chances ≤ w.begun + w.chances := by
  -- a trace that is begun is the chance that was left, and no move makes a new one
  cases h with
  | look _ still => cases still
  | quit ready _ => simp [begun, chances, stop, moveTo, ready]
  | grant asks => simp [begun, chances, moveTo, asks]
  | wait asks due => simp [begun, chances, moveTo, asks]
  | serve _ still => cases still
  | leave waits _ => simp [begun, chances, stop, moveTo, waits]
  | begin free _ => simp [begun, chances, free]
  | record emits => simp [begun, chances, moveTo, emits]
  | @settle result through =>
    cases result with
    | error f =>
      have hsettle : w.settle p.maxTraces (.error f) = w.stop .emitFailed := rfl
      simp [hsettle, begun, chances, stop, moveTo, through]
    | ok n =>
      obtain ⟨phase, hsettle, hphase⟩ := w.exists_settle_ok p.maxTraces n
      rw [hsettle]
      rcases hphase with ⟨rfl, -⟩ | ⟨rfl, -⟩
      · simp [begun, chances, through]
      · simp [begun, chances, through]

/-- Along a path after the stop no chance comes up. -/
theorem Path.begun_add_chances_le (h : Path p b w log b' w') (hb : b = true) :
    b' = true ∧ w'.begun + w'.chances ≤ w.begun + w.chances := by
  induction h with
  | refl => exact ⟨hb, Nat.le_refl _⟩
  | move _ last ih =>
    obtain ⟨rfl, hle⟩ := ih
    exact ⟨rfl, Nat.le_trans last.begun_add_chances_le hle⟩
  | fire _ ih => exact ⟨rfl, ih.2⟩

/-- After the stop signal a worker starts no more than one trace, and none if it waits for a permit
or is about to look. -/
theorem Path.begun_le (h : Path p true w log b' w') :
    w'.begun ≤ w.begun + 1 ∧
      (w.phase = .ready ∨ (∃ due, w.phase = .queued due) → w'.begun ≤ w.begun) := by
  obtain ⟨-, hle⟩ := h.begun_add_chances_le rfl
  have hone := w.chances_le_one
  refine ⟨by omega, ?_⟩
  intro hwaits
  have hnone : w.chances = 0 := by
    rcases hwaits with hready | ⟨due, hqueued⟩
    · simp [chances, hready]
    · simp [chances, hqueued]
  omega

/-- The books of a worker that is done are told by its report. -/
theorem Books.report (h : Books p size s w log) {report : WorkerReport}
    (hreport : w.report? = some report) :
    report.spans = report.traces * size ∧ ∃ traces s' rest, Traces p s traces s' ∧
      log = traces.flatten ++ rest ∧ traces.length = report.traces ∧
      (if report.reason = .emitFailed then FailedTrace p s' rest else rest = []) := by
  obtain ⟨traces, s', rest, htraces, hlog, hlength, hrest⟩ := h.log
  unfold report? at hreport
  split at hreport
  · next reason hphase =>
    obtain rfl := Option.some.inj hreport
    refine ⟨h.spans, traces, s', rest, htraces, hlog, hlength, ?_⟩
    rw [Unfinished, hphase] at hrest
    -- only a trace that failed leaves something behind the whole ones
    cases reason with
    | emitFailed => exact hrest
    | quotaReached => exact hrest.2
    | stopRequested => exact hrest.2
  · cases hreport

omit [WordSource σ] in
/-- A report is made by a worker that is done, of its own counters. -/
theorem phase_of_report? {report : WorkerReport} (h : w.report? = some report) :
    w.phase = .done report.reason ∧ report.worker = w.id ∧ report.traces = w.traces := by
  unfold report? at h
  split at h
  · next reason hphase =>
    obtain rfl := Option.some.inj h
    exact ⟨hphase, rfl, rfl⟩
  · cases h

end Worker

namespace Emitter

/-- The complete traces that a worker emits are logs of the whole tree. -/
theorem logsSubtree_of_emit_root {σ : Type} [WordSource σ] {m : Emitter} {ds : List Descriptor}
    (ht : Topology.ofDescriptors ds = .ok m.topology) {words : σ} {clock : Clock} {n : Nat}
    {e : Emission σ} (h : m.emit m.topology.root.id ⟨words, clock, #[]⟩ = (.ok n, e)) :
    n = m.topology.size ∧ LogsSubtree m.registry ds m.topology.tree e.events.toList := by
  obtain ⟨rfl, hwell⟩ := Topology.ofDescriptors_eq_ok_iff.1 ht
  have hok : (m.emit m.topology.root.id ⟨words, clock, #[]⟩).1 = .ok n := by rw [h]
  obtain ⟨log, hsize, hlogs, hevents⟩ :=
    emit_root_of_covered hwell (covered_of_emit_root hwell hok) ⟨words, clock, #[]⟩
  rw [h] at hsize hevents
  rw [List.nil_append] at hevents
  exact ⟨Except.ok.inj hsize, hevents ▸ hlogs⟩

end Emitter

namespace Run

open Worker (Traces FailedTrace Path Books Quota Heeds)

variable {σ α τ : Type} [WordSource σ]

/-- Workers before a run, told apart by their numbers. -/
structure Fresh (ws : List (Worker σ τ)) : Prop where
  ids : (ws.map (·.id)).Nodup
  blank : ∀ w ∈ ws, w.traces = 0 ∧ w.spans = 0 ∧ w.phase = .ready

/-- What a worker reports that began with the stream `s` is what it has put on the record. -/
structure Accurate (p : Plan) (ds : List Descriptor) (ls : List (Label τ)) (s : σ)
    (log : List Event) (report : WorkerReport) : Prop where
  /-- as many complete traces as are counted, and one that has failed if that is the reason -/
  log : ∃ traces s' rest, Traces p s traces s' ∧ log = traces.flatten ++ rest ∧
    traces.length = report.traces ∧
    (∀ trace ∈ traces,
      Emitter.LogsSubtree p.emitter.registry ds p.emitter.topology.tree trace) ∧
    (if report.reason = .emitFailed then FailedTrace p s' rest else rest = [])
  spans : report.spans = report.traces * p.emitter.topology.size
  quota : p.maxTraces ≠ 0 → report.traces ≤ p.maxTraces ∧
    (report.reason = .quotaReached ↔ report.traces = p.maxTraces)
  unbounded : p.maxTraces = 0 → report.reason ≠ .quotaReached
  stopped : report.reason = .stopRequested → Label.stop ∈ ls

variable {p : Plan} {ds : List Descriptor} {s s' : σ} {traces : List (List Event)}

omit [WordSource σ] in
theorem ids_start (ws : List (Worker σ τ)) (limiter : Limiter α τ) (now : τ) (clock : Clock) :
    (start ws limiter now clock).ids = ws.map (·.id) := rfl

omit [WordSource σ] in
theorem getElem?_workers_start (ws : List (Worker σ τ)) (limiter : Limiter α τ) (now : τ)
    (clock : Clock) (i : Nat) : (start ws limiter now clock).workers[i]? = ws[i]? :=
  List.getElem?_toArray

/-- A worker that has done nothing has nothing on its books. -/
theorem Fresh.books {ws : List (Worker σ τ)} (h : Fresh ws) {w : Worker σ τ} (hw : w ∈ ws)
    (size : Nat) : Books p size w.words w [] := by
  obtain ⟨htraces, hspans, hphase⟩ := h.blank w hw
  refine ⟨⟨[], w.words, [], .nil, rfl, htraces.symm, ?_⟩, by rw [hspans, htraces, Nat.zero_mul]⟩
  rw [Worker.Unfinished, hphase]
  exact ⟨rfl, rfl⟩

omit [WordSource σ] in
/-- Workers set out below their quota. -/
theorem Fresh.quota {ws : List (Worker σ τ)} (h : Fresh ws) {w : Worker σ τ} (hw : w ∈ ws) :
    Quota p w := by
  obtain ⟨htraces, -, hphase⟩ := h.blank w hw
  refine ⟨fun hdone => ?_, fun _ hne => htraces ▸ Nat.pos_of_ne_zero hne⟩
  rw [hphase] at hdone
  cases hdone

/-- Every trace that succeeds logs the whole tree. -/
theorem logsSubtree_of_traces (ht : Topology.ofDescriptors ds = .ok p.emitter.topology)
    (hroot : p.root = p.emitter.topology.root.id) (h : Traces p s traces s') :
    ∀ trace ∈ traces, Emitter.LogsSubtree p.emitter.registry ds p.emitter.topology.tree trace := by
  induction h with
  | nil => simp
  | snoc _ emits ih =>
    intro trace htrace
    rcases List.mem_append.1 htrace with htrace | htrace
    · exact ih trace htrace
    · rw [List.mem_singleton.1 htrace]
      exact (Emitter.logsSubtree_of_emit_root ht (hroot ▸ emits)).2

variable [Add α] [Sub α] [Mul α] [Neg α] [Div α] [LE α] [DecidableLE α] [OfNat α 0] [OfNat α 1]
  [Timeline α τ] [LE τ] [DecidableLE τ]

/-- Only the stop stops a run. -/
theorem stopped_of_step {r r' : Run σ α τ} {l : Label τ} (h : r.step p l = some r')
    (hstopped : r'.stopped = true) : r.stopped = true ∨ l = .stop := by
  cases l with
  | go i =>
    obtain ⟨w, w', events, -, -, hwent, -⟩ := exists_deal_of_step h
    exact .inl (hwent.stopped ▸ hstopped)
  | stop => exact .inr rfl
  | pass later =>
    obtain ⟨-, rfl⟩ := le_of_step_pass h
    exact .inl hstopped

/-- Only the signal stops a run. -/
theorem stop_mem_of_stopped {r r' : Run σ α τ} {ls : List (Label τ)} (h : r.steps p ls = some r')
    (hstopped : r'.stopped = true) : r.stopped = true ∨ Label.stop ∈ ls := by
  induction ls generalizing r with
  | nil =>
    obtain rfl := Option.some.inj h
    exact .inl hstopped
  | cons l ls ih =>
    obtain ⟨r₁, hl, hrest⟩ := exists_step_of_cons h
    rcases ih hrest with hstopped₁ | hmem
    · rcases stopped_of_step hl hstopped₁ with hbefore | rfl
      · exact .inl hbefore
      · exact .inr List.mem_cons_self
    · exact .inr (List.mem_cons_of_mem l hmem)

/-- Where a worker stands at the end of a schedule that runs through a firing of the stop signal. -/
theorem begun_le_of_stop {r r' : Run σ α τ} {ls : List (Label τ)} {i : Nat} {w w' : Worker σ τ}
    (hids : r.ids.Nodup) (hrun : r.steps p (.stop :: ls) = some r') (hw : r.workers[i]? = some w)
    (hw' : r'.workers[i]? = some w') : w'.begun ≤ w.begun + 1 ∧
      (w.phase = .ready ∨ (∃ due, w.phase = .queued due) → w'.begun ≤ w.begun) := by
  have hrest : steps p { r with stopped := true } ls = some r' := hrun
  obtain ⟨v, log, hv, hpath, -⟩ := steps_path hrest hids hw
  obtain rfl := Option.some.inj (hw'.symm.trans hv)
  exact hpath.begun_le

variable {ws : List (Worker σ τ)} {limiter : Limiter α τ} {now : τ} {clock : Clock}
  {r : Run σ α τ} {ls : List (Label τ)} {i : Nat} {w₀ w : Worker σ τ} {report : WorkerReport}

/-- The record of a worker that had done nothing before is that of its path. -/
theorem path_of_start (hfresh : Fresh ws) (hrun : (start ws limiter now clock).steps p ls = some r)
    (hw₀ : ws[i]? = some w₀) : ∃ w, r.workers[i]? = some w ∧
      Path p false w₀ (r.eventsOf w₀.id) r.stopped w := by
  have hw₀' := (getElem?_workers_start ws limiter now clock i).trans hw₀
  obtain ⟨w, log, hw, hpath, hlog⟩ := steps_path hrun hfresh.ids hw₀'
  have hblank : (start ws limiter now clock).eventsOf w₀.id = [] := rfl
  rw [hblank, List.nil_append] at hlog
  exact ⟨w, hw, hlog ▸ hpath⟩

/-- A worker that is done has reported what is on its record. -/
theorem accurate_of_report (ht : Topology.ofDescriptors ds = .ok p.emitter.topology)
    (hroot : p.root = p.emitter.topology.root.id) (hfresh : Fresh ws)
    (hrun : (start ws limiter now clock).steps p ls = some r) (hw₀ : ws[i]? = some w₀)
    (hw : r.workers[i]? = some w) (hreport : w.report? = some report) :
    report.worker = w₀.id ∧ Accurate p ds ls w₀.words (r.eventsOf w₀.id) report := by
  have hmem : w₀ ∈ ws := List.mem_of_getElem? hw₀
  -- the worker was there from the start, and took a path from there
  obtain ⟨w', hw', hpath⟩ := path_of_start hfresh hrun hw₀
  obtain rfl := Option.some.inj (hw.symm.trans hw')
  obtain ⟨hphase, hworker, htraces⟩ := Worker.phase_of_report? hreport
  have hsize : ∀ (s : σ) clock n e, p.emitter.emit p.root ⟨s, clock, #[]⟩ = (.ok n, e) →
      n = p.emitter.topology.size := fun s clock n e hemit =>
    (Emitter.logsSubtree_of_emit_root ht (hroot ▸ hemit)).1
  have hbooks := hpath.books hsize (hfresh.books hmem _)
  obtain ⟨hspans, traces, s', rest, hs', hall, hlength, hrest⟩ := hbooks.report hreport
  have hquota := hpath.quota (hfresh.quota hmem)
  refine ⟨hworker.trans hpath.id_eq, ?log, hspans, ?quota, ?unbounded, ?stopped⟩
  case log =>
    have htrees := logsSubtree_of_traces ht hroot hs'
    exact ⟨traces, s', rest, hs', hall, hlength, htrees, hrest⟩
  case quota =>
    intro hne
    rw [htraces]
    by_cases hreached : report.reason = .quotaReached
    · have hall := (hquota.reached (hreached ▸ hphase)).2
      exact ⟨Nat.le_of_eq hall, iff_of_true hreached hall⟩
    · have hbelow := hquota.below (fun h => hreached (by simpa [hphase] using h)) hne
      exact ⟨Nat.le_of_lt hbelow, iff_of_false hreached (Nat.ne_of_lt hbelow)⟩
  case unbounded =>
    intro hzero hreached
    exact (hquota.reached (hreached ▸ hphase)).1 hzero
  case stopped =>
    intro hstop
    have hheeds := hpath.heeds (fun h => by simp [(hfresh.blank w₀ hmem).2.2] at h)
    exact (stop_mem_of_stopped hrun (hheeds (hstop ▸ hphase))).resolve_left Bool.false_ne_true

/-- A worker that is done has reported what is on its record, and after the stop signal it has
started one trace more at most, and none if it waited for a permit or was about to look. -/
theorem report_accurate (ht : Topology.ofDescriptors ds = .ok p.emitter.topology)
    (hroot : p.root = p.emitter.topology.root.id) (hfresh : Fresh ws)
    (hrun : (start ws limiter now clock).steps p ls = some r) (hw₀ : ws[i]? = some w₀)
    (hw : r.workers[i]? = some w) (hreport : w.report? = some report) :
    report.worker = w₀.id ∧ Accurate p ds ls w₀.words (r.eventsOf w₀.id) report ∧
      ∀ ls₁ ls₂ r₁ w₁, ls = ls₁ ++ .stop :: ls₂ →
        (start ws limiter now clock).steps p ls₁ = some r₁ → r₁.workers[i]? = some w₁ →
        w.begun ≤ w₁.begun + 1 ∧
          (w₁.phase = .ready ∨ (∃ due, w₁.phase = .queued due) → w.begun ≤ w₁.begun) := by
  obtain ⟨hworker, haccurate⟩ := accurate_of_report ht hroot hfresh hrun hw₀ hw hreport
  refine ⟨hworker, haccurate, ?_⟩
  rintro ls₁ ls₂ r₁ w₁ rfl hrun₁ hw₁
  rw [steps_append hrun₁] at hrun
  -- the rest of the schedule begins with the stop, from a run that has the same workers
  have hids₁ : r₁.ids.Nodup := by
    rw [steps_ids hrun₁]
    exact hfresh.ids
  exact begun_le_of_stop hids₁ hrun hw₁ hw

/-- Traces of the shop, two for each worker. -/
def shopPlan : Plan := ⟨Emitter.shopEmitter, "1", 2⟩

def twoWorkers : List (Worker Repeating Instant) :=
  [{ id := 0, words := .ofList [1, 2, 3] }, { id := 1, words := .ofList [4, 5] }]

/-- The stop signal finds the first worker with a permit; the worker emits that trace and leaves. -/
def stopAtPermit : List (Label Instant) :=
  [.go 0, .go 0, .stop] ++ List.replicate 29 (.go 0)

/-- The worker that was stopped at its permit has emitted one trace of its quota of two. -/
theorem stopped_report_accurate :
    Topology.ofDescriptors Topology.shop = .ok shopPlan.emitter.topology ∧
      shopPlan.root = shopPlan.emitter.topology.root.id ∧ Fresh twoWorkers ∧
      ∃ r w, (start twoWorkers (.unlimited 0) 0 (.still ⟨0⟩)).steps shopPlan stopAtPermit = some r ∧
        r.workers[0]? = some w ∧ w.report? = some ⟨0, 1, 13, .stopRequested⟩ ∧
        Accurate shopPlan Topology.shop stopAtPermit (Repeating.ofList [1, 2, 3]) (r.eventsOf 0)
          ⟨0, 1, 13, .stopRequested⟩ ∧ w.begun ≤ 1 := by
  have hloads : Topology.ofDescriptors Topology.shop = .ok shopPlan.emitter.topology :=
    Topology.builtin_eq
  have hfresh : Fresh twoWorkers := ⟨by decide, by simp [twoWorkers]⟩
  -- the worker gets its permit, the stop comes, and one trace is still emitted
  have hend : ((start twoWorkers (.unlimited 0) 0 (.still ⟨0⟩)).steps shopPlan stopAtPermit).bind
      (fun r => r.workers[0]?.bind Worker.report?) = some ⟨0, 1, 13, .stopRequested⟩ := by
    decide +kernel
  obtain ⟨r, hr, hend⟩ := Option.bind_eq_some_iff.1 hend
  obtain ⟨w, hw, hreport⟩ := Option.bind_eq_some_iff.1 hend
  obtain ⟨-, haccurate, hafter⟩ := report_accurate hloads rfl hfresh hr rfl hw hreport
  refine ⟨hloads, rfl, hfresh, r, w, hr, hw, hreport, haccurate, ?_⟩
  exact (hafter [.go 0, .go 0] _ _ { twoWorkers[0] with phase := .permitted } rfl rfl rfl).1

end Run

end TraceLoad
