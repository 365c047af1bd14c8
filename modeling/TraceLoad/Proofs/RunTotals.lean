import Mathlib.Algebra.BigOperators.Ring.List
import Mathlib.Algebra.Ring.Nat
import Mathlib.Data.List.Perm.Basic
import TraceLoad.Proofs.WorkerReport
import TraceLoad.Runner

/-! # The report of a run

A run that has passed the checks cannot fail: there is a tracer for every service, so that every
emission comes out well. When all workers are done, each has handed in its report, whatever the
order, and the sums are those of what the workers have done (`report_totals`).
-/

namespace TraceLoad

/-- One item of a list is replaced: the others stay. -/
theorem exists_perm_set {β : Type} {l : List β} {i : Nat} {a : β} (h : l[i]? = some a) :
    ∃ rest, l.Perm (a :: rest) ∧ ∀ b, (l.set i b).Perm (b :: rest) := by
  obtain ⟨hi, rfl⟩ := List.getElem?_eq_some_iff.1 h
  refine ⟨l.eraseIdx i, ?_, ?_⟩
  · exact (List.getElem_cons_eraseIdx_perm hi).symm
  · intro b
    exact List.set_perm_cons_eraseIdx hi b

theorem filterMap_cons_toList {β γ : Type} (f : β → Option γ) (a : β) (l : List β) :
    (a :: l).filterMap f = (f a).toList ++ l.filterMap f := by
  rw [List.filterMap_eq_flatMap_toList, List.filterMap_eq_flatMap_toList, List.flatMap_cons]

/-- An item without a value is replaced in a list: the list has one value more at most. -/
theorem perm_filterMap_set {β γ : Type} {f : β → Option γ} {l : List β} {i : Nat} {a b : β}
    (h : l[i]? = some a) (ha : f a = none) :
    ((l.set i b).filterMap f).Perm (l.filterMap f ++ (f b).toList) := by
  obtain ⟨rest, hl, hset⟩ := exists_perm_set h
  have hbefore := hl.filterMap f
  have hafter := (hset b).filterMap f
  rw [List.filterMap_cons_none ha] at hbefore
  rw [filterMap_cons_toList] at hafter
  exact hafter.trans (List.perm_append_comm.trans (hbefore.symm.append_right _))

/-- A worker that is done makes no move. -/
theorem Worker.Move.report?_eq_none {σ τ : Type} [WordSource σ] {p : Plan} {b : Bool}
    {w w' : Worker σ τ} {events : List Event} (h : Move p b w events w') : w.report? = none := by
  cases h with
  | look ready _ => simp [report?, ready]
  | quit ready _ => simp [report?, ready]
  | grant asks => simp [report?, asks]
  | wait asks _ => simp [report?, asks]
  | serve waits _ => simp [report?, waits]
  | leave waits _ => simp [report?, waits]
  | begin free _ => simp [report?, free]
  | record emits => simp [report?, emits]
  | settle through => simp [report?, through]

namespace Run

variable {σ α τ : Type} {p : Plan} {r r' : Run σ α τ}

/-- The reports that have come in are those of the workers that are done. -/
def Collected (r : Run σ α τ) : Prop :=
  r.reports.toList.Perm (r.workers.toList.filterMap Worker.report?)

theorem Collected.of_step [WordSource σ] (h : Collected r) (hstep : Step p r r') :
    Collected r' := by
  cases hstep with
  | @go i w w' events _ mem move went =>
    rw [Collected, went.reports, went.workers, Array.toList_setIfInBounds]
    have hset := perm_filterMap_set (b := w') (Array.getElem?_toList.trans mem) move.report?_eq_none
    exact (h.append_right _).trans hset.symm
  | stop => exact h
  | pass _ => exact h

theorem collected_start {ws : List (Worker σ τ)} (hws : Fresh ws) (limiter : Limiter α τ) (now : τ)
    (clock : Clock) : Collected (start ws limiter now clock) := by
  have hnone : ws.filterMap Worker.report? = [] :=
    List.filterMap_eq_nil_iff.2 fun w hw => by simp [Worker.report?, (hws.blank w hw).2.2]
  rw [Collected, start, hnone]

/-- When a run is over every worker has its report. -/
theorem exists_report_of_isOver (hover : r.isOver = true) {w : Worker σ τ}
    (hw : w ∈ r.workers.toList) : ∃ report, w.report? = some report := by
  have hdone := Array.all_eq_true'.1 hover w (Array.mem_def.2 hw)
  simpa [Worker.isRunning, Option.isSome_iff_exists] using hdone

/-- When all workers are done, each of them has reported. -/
theorem Collected.numbers (h : Collected r) (hover : r.isOver = true) :
    (r.reports.toList.map (·.worker)).Perm r.ids := by
  have hdone : ∀ w ∈ r.workers.toList, (w.report?.map (·.worker)) = some w.id := by
    intro w hw
    obtain ⟨report, hreport⟩ := exists_report_of_isOver hover hw
    rw [hreport]
    exact congrArg some (Worker.phase_of_report? hreport).2.1
  refine (h.map _).trans (List.Perm.of_eq ?_)
  rw [List.map_filterMap, List.filterMap_congr hdone, List.filterMap_eq_map', ids]

variable [WordSource σ]

/-- With a tracer for every service no emission fails, and so no worker does. -/
theorem not_failedTrace {ds : List Descriptor}
    (ht : Topology.ofDescriptors ds = .ok p.emitter.topology)
    (hroot : p.root = p.emitter.topology.root.id)
    (hcover : p.emitter.registry.ensureCovers p.emitter.topology = .ok ()) {s : σ}
    {log : List Event} : ¬ Worker.FailedTrace p s log := by
  rintro ⟨clock, f, e, hemit, -⟩
  obtain ⟨n, e', hok⟩ := Emitter.exists_emit_ok ht hcover s clock
  rw [hroot] at hemit
  cases hemit.symm.trans hok

variable [Add α] [Sub α] [Mul α] [Neg α] [Div α] [LE α] [DecidableLE α] [OfNat α 0] [OfNat α 1]
  [Timeline α τ] [LE τ] [DecidableLE τ]

/-- In every schedule the reports that have come in are those of the workers that are done. -/
theorem collected_of_steps {ws : List (Worker σ τ)} {limiter : Limiter α τ} {now : τ}
    {clock : Clock} {ls : List (Label τ)} (hws : Fresh ws)
    (hrun : (start ws limiter now clock).steps p ls = some r) : Collected r :=
  steps_keep Collected.of_step hrun (collected_start hws limiter now clock)

/-- Where a worker stands, one has stood from the beginning on. -/
theorem exists_start_of_steps {ws : List (Worker σ τ)} {limiter : Limiter α τ} {now : τ}
    {clock : Clock} {ls : List (Label τ)} {i : Nat} {w : Worker σ τ}
    (hrun : (start ws limiter now clock).steps p ls = some r) (hw : r.workers[i]? = some w) :
    ∃ w₀, ws[i]? = some w₀ := by
  have hplace : (ws.map (·.id))[i]? = some w.id := by
    rw [← ids_start ws limiter now clock, ← steps_ids hrun, getElem?_ids, hw, Option.map_some]
  rw [List.getElem?_map] at hplace
  obtain ⟨w₀, hw₀, -⟩ := Option.map_eq_some_iff.1 hplace
  exact ⟨w₀, hw₀⟩

/-- Every report that has come in tells what its worker has put on the record. -/
theorem accurate_eventsOf {ds : List Descriptor} {ws : List (Worker σ τ)}
    {limiter : Limiter α τ} {now : τ} {clock : Clock} {ls : List (Label τ)} {report : WorkerReport}
    (ht : Topology.ofDescriptors ds = .ok p.emitter.topology)
    (hroot : p.root = p.emitter.topology.root.id) (hws : Fresh ws)
    (hrun : (start ws limiter now clock).steps p ls = some r)
    (hreport : report ∈ r.reports.toList) :
    ∃ s : σ, Accurate p ds ls s (r.eventsOf report.worker) report := by
  have hcollected := collected_of_steps hws hrun
  obtain ⟨w, hw, hreport⟩ := List.mem_filterMap.1 (hcollected.mem_iff.1 hreport)
  obtain ⟨i, hi⟩ := List.mem_iff_getElem?.1 hw
  rw [Array.getElem?_toList] at hi
  -- the worker that has reported was there from the start
  obtain ⟨w₀, hw₀⟩ := exists_start_of_steps hrun hi
  obtain ⟨hworker, haccurate⟩ := accurate_of_report ht hroot hws hrun hw₀ hi hreport
  rw [← hworker] at haccurate
  exact ⟨_, haccurate⟩

/-- Every report that has come in tells what one of the workers has put on the record. -/
theorem accurate_of_mem_reports {ds : List Descriptor} {ws : List (Worker σ τ)}
    {limiter : Limiter α τ} {now : τ} {clock : Clock} {ls : List (Label τ)} {report : WorkerReport}
    (ht : Topology.ofDescriptors ds = .ok p.emitter.topology)
    (hroot : p.root = p.emitter.topology.root.id) (hws : Fresh ws)
    (hrun : (start ws limiter now clock).steps p ls = some r)
    (hreport : report ∈ r.reports.toList) :
    ∃ s : σ, ∃ log, Accurate p ds ls s log report := by
  obtain ⟨s, haccurate⟩ := accurate_eventsOf ht hroot hws hrun hreport
  exact ⟨s, _, haccurate⟩

end Run

namespace Runner

open Run (Label Accurate Fresh Collected)
open Emitter (shopEmitter)

/-! ## Sums -/

theorem foldl_add (rs : List WorkerReport) (sum : RunReport) :
    rs.foldl add sum = { sum with
      traces := sum.traces + (rs.map (·.traces)).sum
      spans := sum.spans + (rs.map (·.spans)).sum
      perWorker := sum.perWorker ++ rs } := by
  induction rs generalizing sum with
  | nil => simp
  | cons r rs ih => simp [ih, add, Nat.add_assoc]

/-- Reports are put in order, and none is lost. -/
theorem inOrder_perm (reports : List WorkerReport) : (inOrder reports).Perm reports :=
  List.mergeSort_perm _ _

/-- In order, reports with the numbers from zero on are numbered one after another. -/
theorem map_worker_inOrder {reports : List WorkerReport} {n : Nat}
    (h : (reports.map (·.worker)).Perm (List.range n)) :
    (inOrder reports).map (·.worker) = List.range n := by
  -- a merge sort leaves them in ascending order, and no other list of the numbers is in order
  have hsorted : ((inOrder reports).map (·.worker)).Pairwise (· ≤ ·) := by
    have hpairs : (inOrder reports).Pairwise fun a b => decide (a.worker ≤ b.worker) = true :=
      List.pairwise_mergeSort
        (fun a b c hab hbc => by
          rw [decide_eq_true_eq] at hab hbc ⊢
          exact Nat.le_trans hab hbc)
        (fun a b => by
          rw [Bool.or_eq_true, decide_eq_true_eq, decide_eq_true_eq]
          exact Nat.le_total a.worker b.worker)
        reports
    exact List.pairwise_map.2 (hpairs.imp fun hle => of_decide_eq_true hle)
  have hperm : ((inOrder reports).map (·.worker)).Perm (List.range n) :=
    ((inOrder_perm reports).map _).trans h
  exact hperm.eq_of_pairwise (fun a b _ _ => Nat.le_antisymm) hsorted List.pairwise_le_range

/-! ## What the report says -/

/-- What one entry of the report says. -/
structure Outcome (c : Config) (size : Nat) (ls : List (Label Instant)) (w : WorkerReport) :
    Prop where
  spans : w.spans = w.traces * size
  emitted : w.reason ≠ .emitFailed
  /-- with a number of traces, and nobody to stop it before, the worker has emitted that many -/
  quota : ∀ n, c.stopCondition = .traces n → Label.stop ∉ ls →
    w.reason = .quotaReached ∧ w.traces = n
  /-- without one, whatever the configured number is, there is no quota to reach -/
  timed : (∀ n, c.stopCondition ≠ .traces n) → w.reason ≠ .quotaReached

/-- What the report of a run comes to. -/
structure Totals (c : Config) (size : Nat) (ls : List (Label Instant)) (report : RunReport) :
    Prop where
  workers : report.workers = c.workers
  /-- one entry for each worker, in the order of their numbers -/
  numbers : report.perWorker.map (·.worker) = List.range c.workers
  entries : ∀ w ∈ report.perWorker, Outcome c size ls w
  traces : report.traces = (report.perWorker.map (·.traces)).sum
  spans : report.spans = (report.perWorker.map (·.spans)).sum
  spansOfTraces : report.spans = report.traces * size
  quota : ∀ n, c.stopCondition = .traces n → Label.stop ∉ ls → report.traces = c.workers * n

variable {c : Config} {ds : List Descriptor} {t : Topology} {reg : Registry} {σ α : Type}

/-- The report of a run is that of its workers, and their sums. -/
theorem report_eq (r : Run σ α Instant) : report r =
    ⟨r.workers.size, (r.reports.toList.map (·.traces)).sum, (r.reports.toList.map (·.spans)).sum,
      ⟨r.now⟩, inOrder r.reports.toList⟩ := by
  rw [report, foldl_add]
  simp

theorem check_eq_ok_iff : check c t reg = .ok () ↔
    c.validate = .ok () ∧ (∃ id, t.findRoot = .ok id) ∧ reg.ensureCovers t = .ok () := by
  unfold check
  split
  · next hvalid => simp [hvalid]
  · next hvalid =>
    split
    · next hroot => simp [hroot]
    · next hroot =>
      split
      · next hcover => simp [hcover]
      · next hcover => simp [hvalid, hroot, hcover]

/-- The workers are numbered in their order. -/
theorem map_id_crew {τ : Type} (c : Config) (streams : Nat → σ) :
    (crew c streams : List (Worker σ τ)).map (·.id) = List.range c.workers := by
  rw [crew, List.map_map]
  exact List.map_id _

/-- Workers are fresh when they set out. -/
theorem fresh_crew {τ : Type} (c : Config) (streams : Nat → σ) :
    Fresh (crew c streams : List (Worker σ τ)) where
  ids := by
    rw [map_id_crew]
    exact List.nodup_range
  blank w hw := by
    obtain ⟨i, -, rfl⟩ := List.mem_map.1 hw
    exact ⟨rfl, rfl, rfl⟩

theorem maxTracesPerWorker_of_traces {n : Nat} (h : c.stopCondition = .traces n) :
    c.maxTracesPerWorker = n ∧ n ≠ 0 := by
  refine ⟨by rw [Config.maxTracesPerWorker, h], ?_⟩
  unfold Config.stopCondition at h
  split at h
  · cases h
  · split at h
    · cases h
    · next hne =>
      obtain rfl := StopCondition.traces.inj h
      exact hne

/-- Without a number of traces there is no quota. -/
theorem maxTracesPerWorker_eq_zero (h : ∀ n, c.stopCondition ≠ .traces n) :
    c.maxTracesPerWorker = 0 := by
  unfold Config.maxTracesPerWorker
  split
  · next n hn => exact absurd hn (h n)
  · rfl
  · rfl

/-- An entry that tells what a worker has put on the record says what it should. -/
theorem outcome_of_accurate [WordSource σ] (ht : Topology.ofDescriptors ds = .ok t)
    (hcheck : check c t reg = .ok ()) {ls : List (Label Instant)} {s : σ} {log : List Event}
    {w : WorkerReport} (h : Accurate (plan c t reg) ds ls s log w) : Outcome c t.size ls w := by
  -- a trace does not fail when all services are covered
  have hemitted : w.reason ≠ .emitFailed := by
    intro hfailed
    obtain ⟨traces, s', rest, -, -, -, -, hrest⟩ := h.log
    rw [if_pos hfailed] at hrest
    exact Run.not_failedTrace ht rfl (check_eq_ok_iff.1 hcheck).2.2 hrest
  refine ⟨h.spans, hemitted, fun n hn hgoes => ?quota, fun hn => ?timed⟩
  case quota =>
    obtain ⟨hmax, hne⟩ := maxTracesPerWorker_of_traces hn
    have hbounded : (plan c t reg).maxTraces ≠ 0 := fun hzero => hne (hmax.symm.trans hzero)
    have hquota := (h.quota hbounded).2
    -- without a shutdown there is no other reason left
    cases hreason : w.reason with
    | quotaReached => exact ⟨rfl, (hquota.1 hreason).trans hmax⟩
    | stopRequested => exact absurd (h.stopped hreason) hgoes
    | emitFailed => exact absurd hreason hemitted
  case timed => exact h.unbounded (maxTracesPerWorker_eq_zero hn)

variable [WordSource σ] [Add α] [Sub α] [Mul α] [Neg α] [Div α] [LE α] [DecidableLE α] [OfNat α 0]
  [OfNat α 1] [Timeline α Instant]

/-- Whatever the workers' streams are, the limiter and the schedule, a run that has passed the
checks is told by its report when all its workers are done. -/
theorem report_totals {streams : Nat → σ} {limiter : Limiter α Instant} {now : Instant}
    {clock : Clock} {ls : List (Label Instant)} {r : Run σ α Instant}
    (ht : Topology.ofDescriptors ds = .ok t) (hcheck : check c t reg = .ok ())
    (hrun : (Run.start (crew c streams) limiter now clock).steps (plan c t reg) ls = some r)
    (hover : r.isOver = true) : Totals c t.size ls (report r) := by
  have hfresh : Fresh (crew c streams : List (Worker σ Instant)) := fresh_crew c streams
  -- the reports that are collected are those of the workers, one from each
  have hcollected := Run.steps_keep Collected.of_step hrun
    (Run.collected_start hfresh limiter now clock)
  have hids : r.ids = List.range c.workers :=
    (Run.steps_ids hrun).trans ((Run.ids_start _ limiter now clock).trans (map_id_crew c streams))
  have hnumbers := map_worker_inOrder (hids ▸ hcollected.numbers hover)
  have hperm := inOrder_perm r.reports.toList
  have htraces := (hperm.map (·.traces)).sum_nat
  have hspans := (hperm.map (·.spans)).sum_nat
  have hentries : ∀ w ∈ inOrder r.reports.toList, Outcome c t.size ls w := by
    intro w hw
    obtain ⟨s, log, haccurate⟩ :=
      Run.accurate_of_mem_reports ht rfl hfresh hrun (hperm.mem_iff.1 hw)
    exact outcome_of_accurate ht hcheck haccurate
  rw [report_eq]
  refine ⟨?workers, hnumbers, hentries, htraces.symm, hspans.symm, ?spansOfTraces, ?quota⟩
  case workers =>
    have hlength := congrArg List.length hids
    rwa [Run.ids, List.length_map, Array.length_toList, List.length_range] at hlength
  case spansOfTraces =>
    have heach : (inOrder r.reports.toList).map (·.spans) =
        (inOrder r.reports.toList).map (·.traces * t.size) :=
      List.map_congr_left fun w hw => (hentries w hw).spans
    dsimp only
    rw [← hspans, ← htraces, heach, List.sum_map_mul_right]
  case quota =>
    intro n hn hgoes
    have heach : (inOrder r.reports.toList).map (·.traces) = List.replicate c.workers n := by
      rw [List.eq_replicate_iff, List.length_map, ← List.length_map (·.worker), hnumbers,
        List.length_range]
      refine ⟨rfl, fun k hk => ?_⟩
      obtain ⟨w, hw, rfl⟩ := List.mem_map.1 hk
      exact ((hentries w hw).quota n hn hgoes).2
    dsimp only
    rw [← htraces, heach, List.sum_replicate_nat]

/-- Two workers, one trace for each, and as many permits as they like. -/
def pair : Config := { workers := 2, rate := .infinity }

/-- The workers take turns, the second one first. -/
def turns : List (Label Instant) := (List.replicate 30 [Label.go 1, .go 0]).flatten

/-- Taking turns, two workers emit the shop once each. -/
theorem pair_totals :
    Topology.ofDescriptors Topology.shop = .ok shopEmitter.topology ∧
      check pair shopEmitter.topology shopEmitter.registry = .ok () ∧
      ∃ r, (start pair UInt64.ofNat (.still ⟨0⟩)).steps
          (plan pair shopEmitter.topology shopEmitter.registry) turns = some r ∧
        r.isOver = true ∧ Totals pair 13 turns (report r) ∧ (report r).traces = 2 := by
  have hloads : Topology.ofDescriptors Topology.shop = .ok shopEmitter.topology :=
    Topology.builtin_eq
  have hcheck : check pair shopEmitter.topology shopEmitter.registry = .ok () := by decide
  -- what has to be computed is that the run comes to its end
  have hend : ((start pair UInt64.ofNat (.still ⟨0⟩)).steps
      (plan pair shopEmitter.topology shopEmitter.registry) turns).map Run.isOver = some true := by
    decide +kernel
  obtain ⟨r, hrun, hover⟩ := Option.map_eq_some_iff.1 hend
  have htotals := report_totals hloads hcheck hrun hover
  exact ⟨hloads, hcheck, r, hrun, hover, htotals, htotals.quota 1 rfl (by decide)⟩

end Runner

end TraceLoad
