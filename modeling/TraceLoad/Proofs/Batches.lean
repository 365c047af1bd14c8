import TraceLoad.Exporter

/-! # What reaches the sink

The spans that arrive are handed to the sink in batches, whatever the order in which spans, ticks
and the end come and whatever the sink does: none is lost, doubled or moved on the way, until a
write panics or all have been handed over. The statistics are those of the batches.

`Handed` says what a flush does. From it come what every flush keeps (`Books`), and the two states
an exporter can be in before the end: it runs and its batch has what it has not handed over yet
(`Gathers`), or the last write has panicked (`Broken`).
-/

namespace TraceLoad

namespace Exporter

variable {sink : Nat → SinkOutcome} {sent received : List Span} {e e' : Exporter}
  {ls : List Label}

/-- The span that a step brings. -/
def Label.span? : Label → Option Span
  | .receive span => some span
  | .tick => none
  | .close => none

/-- The spans that are sent in a run, in the order in which they arrive. -/
def arrivals (ls : List Label) : List Span := ls.filterMap Label.span?

/-- The spans that an exporter receives in a run: those that arrive as long as it runs. -/
def receivedIn (sink : Nat → SinkOutcome) : Exporter → List Label → List Span
  | _, [] => []
  | e, l :: ls => (if e.running then l.span?.toList else []) ++ receivedIn sink (e.step sink l) ls

/-- The spans of batches, in their order. -/
def spansOf (bs : List (Array Span)) : List Span := bs.flatMap Array.toList

/-- Those of the batches that the sink writes. -/
def writtenOf (sink : Nat → SinkOutcome) (bs : List (Array Span)) : List (Array Span) :=
  (bs.zipIdx.filter fun b => sink b.2 = .written).map Prod.fst

/-- The statistics of batches that were handed to the sink. -/
def tally (sink : Nat → SinkOutcome) (bs : List (Array Span)) : ExportStats where
  spans := (spansOf (writtenOf sink bs)).length
  batches := bs.length
  failedBatches := (List.range bs.length).countP (sink · != .written)

theorem arrivals_cons (l : Label) (ls : List Label) :
    arrivals (l :: ls) = l.span?.toList ++ arrivals ls := by
  cases l <;> rfl

/-- Nothing happens any more to an exporter that has stopped. -/
theorem step_of_stopped (h : e.running = false) (l : Label) : e.step sink l = e := by
  cases l <;> simp [step, h]

/-- An exporter that has stopped stays as it is. -/
theorem steps_of_stopped (h : e.running = false) (ls : List Label) : e.steps sink ls = e := by
  induction ls with
  | nil => rfl
  | cons l ls ih =>
    show (e.step sink l).steps sink ls = e
    rw [step_of_stopped h, ih]

theorem receivedIn_of_stopped (h : e.running = false) (ls : List Label) :
    receivedIn sink e ls = [] := by
  induction ls with
  | nil => rfl
  | cons l ls ih => rw [receivedIn, step_of_stopped h, ih, h]; rfl

/-- An exporter receives what is sent to it up to some moment. -/
theorem receivedIn_prefix_arrivals (sink : Nat → SinkOutcome) (e : Exporter) (ls : List Label) :
    receivedIn sink e ls <+: arrivals ls := by
  induction ls generalizing e with
  | nil => exact List.prefix_refl []
  | cons l ls ih =>
    cases hrun : e.running with
    | true =>
      rw [receivedIn, hrun, if_pos rfl, arrivals_cons, List.prefix_append_right_inj]
      exact ih (e.step sink l)
    | false =>
      -- it has stopped for good, whatever is still sent
      rw [receivedIn_of_stopped hrun]
      exact List.nil_prefix

/-- An exporter that still runs has received everything. -/
theorem receivedIn_eq_arrivals (h : (e.steps sink ls).running = true) :
    receivedIn sink e ls = arrivals ls := by
  induction ls generalizing e with
  | nil => rfl
  | cons l ls ih =>
    cases hrun : e.running with
    | true =>
      rw [receivedIn, hrun, if_pos rfl, arrivals_cons]
      exact congrArg _ (ih h)
    | false =>
      rw [steps_of_stopped hrun, hrun] at h
      exact absurd h Bool.false_ne_true

theorem spansOf_append_singleton (bs : List (Array Span)) (b : Array Span) :
    spansOf (bs ++ [b]) = spansOf bs ++ b.toList := by
  simp [spansOf]

theorem writtenOf_append_singleton (sink : Nat → SinkOutcome) (bs : List (Array Span))
    (b : Array Span) :
    writtenOf sink (bs ++ [b]) =
      writtenOf sink bs ++ if sink bs.length = .written then [b] else [] := by
  by_cases h : sink bs.length = .written <;> simp [writtenOf, List.zipIdx_append, h]

/-- One more batch is counted by its own outcome. -/
theorem tally_append_singleton (sink : Nat → SinkOutcome) (bs : List (Array Span))
    (b : Array Span) :
    tally sink (bs ++ [b]) =
      { spans := (tally sink bs).spans + if sink bs.length = .written then b.size else 0
        batches := (tally sink bs).batches + 1
        failedBatches :=
          (tally sink bs).failedBatches + if sink bs.length = .written then 0 else 1 } := by
  by_cases h : sink bs.length = .written <;>
    simp [tally, writtenOf_append_singleton, spansOf_append_singleton, List.range_succ, h]

/-- A sink that writes everything writes all batches. -/
theorem writtenOf_eq_self (h : ∀ i, sink i = .written) (bs : List (Array Span)) :
    writtenOf sink bs = bs := by
  have hall : (bs.zipIdx.filter fun b => sink b.2 = .written) = bs.zipIdx := by simp [h]
  rw [writtenOf, hall, List.zipIdx_map_fst]

/-! ## Flushing -/

/-- The batch of the first state has been handed to the sink in the second one. -/
structure Handed (sink : Nat → SinkOutcome) (e e' : Exporter) : Prop where
  batch : e'.batch = #[]
  handed : e'.handed.toList = e.handed.toList ++ [e.batch]
  written : e'.written.toList =
    e.written.toList ++ if sink e.stats.batches = .written then e.batch.toList else []
  spans : e'.stats.spans =
    e.stats.spans + if sink e.stats.batches = .written then e.batch.size else 0
  batches : e'.stats.batches = e.stats.batches + 1
  failedBatches : e'.stats.failedBatches =
    e.stats.failedBatches + if sink e.stats.batches = .written then 0 else 1
  running : e'.running = true ↔ e.running = true ∧ sink e.stats.batches ≠ .panicked

/-- A batch that is not empty is handed to the sink. -/
theorem handed_flush (sink : Nat → SinkOutcome) (h : e.batch.isEmpty = false) :
    Handed sink e (e.flush sink) := by
  rw [flush, if_neg (by simp [h])]
  cases hs : sink e.stats.batches <;> constructor <;> simp [hs]

/-- The books about the batches that the sink was handed are in order. -/
structure Books (sink : Nat → SinkOutcome) (e : Exporter) : Prop where
  sizes : ∀ b ∈ e.handed.toList, 1 ≤ b.size ∧ b.size ≤ batchSize
  stats : e.stats = tally sink e.handed.toList
  written : e.written.toList = spansOf (writtenOf sink e.handed.toList)

/-- The books stay right when one more batch has been handed over. -/
theorem Books.next (h : Books sink e) (hne : e.batch.isEmpty = false)
    (hroom : e.batch.size ≤ batchSize) (hflush : Handed sink e e') : Books sink e' := by
  -- the outcome of a batch is found by how many were handed over before it
  have hcount : e.stats.batches = e.handed.toList.length := by rw [h.stats, tally]
  constructor
  case sizes =>
    intro b hb
    rw [hflush.handed] at hb
    rcases List.mem_append.1 hb with hb | hb
    · exact h.sizes b hb
    · obtain rfl := List.mem_singleton.1 hb
      have hpos : e.batch.size ≠ 0 := by simpa using hne
      omega
  case stats =>
    rw [hflush.handed, tally_append_singleton, ← h.stats, ← hcount, ← hflush.spans,
      ← hflush.batches, ← hflush.failedBatches]
  case written =>
    rw [hflush.written, hflush.handed, writtenOf_append_singleton, h.written, hcount]
    split <;> simp [spansOf]

/-! ## Before the end -/

/-- The exporter runs, and the batch has the spans that it has not handed over yet. -/
structure Gathers (sink : Nat → SinkOutcome) (received : List Span) (e : Exporter) : Prop where
  books : Books sink e
  running : e.running = true
  unbroken : ∀ i < e.handed.size, sink i ≠ .panicked
  complete : spansOf e.handed.toList ++ e.batch.toList = received

/-- The last write has panicked, and nothing has been received since. -/
structure Broken (sink : Nat → SinkOutcome) (received : List Span) (e : Exporter) : Prop where
  books : Books sink e
  stopped : e.running = false
  batch : e.batch = #[]
  last : ∃ n, e.handed.size = n + 1 ∧ sink n = .panicked ∧ ∀ i < n, sink i ≠ .panicked
  complete : spansOf e.handed.toList = received

/-- A flush empties the batch or breaks the exporter. -/
theorem Gathers.flush (h : Gathers sink received e) (hroom : e.batch.size ≤ batchSize) :
    (Gathers sink received (e.flush sink) ∧ (e.flush sink).batch = #[]) ∨
      Broken sink received (e.flush sink) := by
  cases hempty : e.batch.isEmpty with
  | true =>
    rw [flush_of_isEmpty sink hempty]
    exact .inl ⟨h, by simpa using hempty⟩
  | false =>
    have hflush := handed_flush sink hempty
    have hbooks := h.books.next hempty hroom hflush
    have hcount : e.stats.batches = e.handed.size := by
      rw [h.books.stats]
      exact Array.length_toList
    have hsize : (e.flush sink).handed.size = e.handed.size + 1 := by
      rw [← Array.length_toList, hflush.handed, List.length_append, Array.length_toList]
      rfl
    have hspans : spansOf (e.flush sink).handed.toList = received := by
      rw [hflush.handed, spansOf_append_singleton, h.complete]
    have hrunning := hflush.running
    rw [hcount] at hrunning
    -- all that was received is handed over now, whatever becomes of it
    by_cases hpanic : sink e.handed.size = .panicked
    · have hstopped : (e.flush sink).running = false :=
        Bool.eq_false_iff.2 fun hrun => (hrunning.1 hrun).2 hpanic
      exact .inr ⟨hbooks, hstopped, hflush.batch, ⟨_, hsize, hpanic, h.unbroken⟩, hspans⟩
    · refine .inl ⟨⟨hbooks, hrunning.2 ⟨h.running, hpanic⟩, ?_, ?_⟩, hflush.batch⟩
      · intro i hi
        rcases Nat.lt_succ_iff_lt_or_eq.1 (hsize ▸ hi) with hi | rfl
        · exact h.unbroken i hi
        · exact hpanic
      · rw [hspans, hflush.batch]
        exact List.append_nil _

/-- The states of an exporter until no more spans can come. -/
def IsOpen (sink : Nat → SinkOutcome) (received : List Span) (e : Exporter) : Prop :=
  (Gathers sink received e ∧ e.batch.size < batchSize) ∨ Broken sink received e

theorem isOpen_start (sink : Nat → SinkOutcome) : IsOpen sink [] {} :=
  .inl ⟨⟨⟨by simp, rfl, rfl⟩, rfl, by simp, rfl⟩, by decide⟩

theorem IsOpen.ofFlush (h : Gathers sink received e) (hroom : e.batch.size ≤ batchSize) :
    IsOpen sink received (e.flush sink) :=
  (h.flush hroom).imp_left fun ⟨hgathers, hbatch⟩ => ⟨hgathers, by rw [hbatch]; decide⟩

/-- Until it is closed an exporter gathers, or has broken down. -/
theorem IsOpen.next (h : IsOpen sink received e) {l : Label} (hl : l ≠ .close) :
    IsOpen sink (received ++ if e.running then l.span?.toList else []) (e.step sink l) := by
  rcases h with ⟨hgathers, hroom⟩ | hbroken
  · rw [if_pos hgathers.running]
    cases l with
    | receive span =>
      -- one span more still fits, so that the batch is full at most when it is flushed
      have hmore : Gathers sink (received ++ [span]) { e with batch := e.batch.push span } :=
        { books := ⟨hgathers.books.sizes, hgathers.books.stats, hgathers.books.written⟩
          running := hgathers.running
          unbroken := hgathers.unbroken
          complete := by rw [← hgathers.complete, Array.toList_push, List.append_assoc] }
      have hreceive : e.step sink (.receive span) =
          if (e.batch.push span).size < batchSize then { e with batch := e.batch.push span }
          else ({ e with batch := e.batch.push span } : Exporter).flush sink :=
        if_pos hgathers.running
      rw [hreceive]
      split
      · next hfits => exact .inl ⟨hmore, hfits⟩
      · have hfull : (e.batch.push span).size ≤ batchSize := by
          rw [Array.size_push]
          exact hroom
        exact .ofFlush hmore hfull
    | tick =>
      have htick : e.step sink .tick = e.flush sink := if_pos hgathers.running
      have hnone : received ++ Label.tick.span?.toList = received := List.append_nil received
      rw [htick, hnone]
      exact .ofFlush hgathers (Nat.le_of_lt hroom)
    | close => exact absurd rfl hl
  · rw [step_of_stopped hbroken.stopped, hbroken.stopped]
    exact .inr ((List.append_nil received).symm ▸ hbroken)

theorem IsOpen.steps (h : IsOpen sink received e) (hls : .close ∉ ls) :
    IsOpen sink (received ++ receivedIn sink e ls) (e.steps sink ls) := by
  induction ls generalizing received e with
  | nil => exact (List.append_nil received).symm ▸ h
  | cons l ls ih =>
    obtain ⟨hl, hrest⟩ := not_or.1 (mt List.mem_cons.2 hls)
    rw [receivedIn, ← List.append_assoc]
    exact ih (h.next (Ne.symm hl)) hrest

/-! ## The end -/

/-- What an exporter has done in the end with the spans that were sent: the batches are of one to
a hundred spans and the statistics are theirs, no write was tried after one that panicked, and
together the batches are what was received, which is all that was sent unless a write panicked. -/
structure Exported (sink : Nat → SinkOutcome) (sent received : List Span) (e : Exporter) :
    Prop where
  books : Books sink e
  stopped : e.running = false
  batch : e.batch = #[]
  complete : spansOf e.handed.toList = received
  whole : (∀ i < e.handed.size, sink i ≠ .panicked) → received = sent
  broken : ∀ i < e.handed.size, sink i = .panicked → i + 1 = e.handed.size ∧ received <+: sent
  unfailing : (∀ i, sink i = .written) → e.stats.spans = sent.length

/-- If everything is written, all spans are counted. -/
theorem Books.spans_eq (h : Books sink e) (hsink : ∀ i, sink i = .written) :
    e.stats.spans = (spansOf e.handed.toList).length := by
  rw [h.stats, tally, writtenOf_eq_self hsink]

/-- Whoever closes with nothing left in the batch has exported all that was sent. -/
theorem Gathers.exported (h : Gathers sink sent e) (hbatch : e.batch = #[]) :
    Exported sink sent sent { e with running := false } := by
  have hspans : spansOf e.handed.toList = sent := by
    rw [← h.complete, hbatch]
    exact (List.append_nil _).symm
  exact
    { books := ⟨h.books.sizes, h.books.stats, h.books.written⟩
      stopped := rfl
      batch := hbatch
      complete := hspans
      whole := fun _ => rfl
      broken := fun i hi hpanic => absurd hpanic (h.unbroken i hi)
      unfailing := fun hsink => hspans ▸ h.books.spans_eq hsink }

theorem Broken.exported (h : Broken sink received e) (hbegins : received <+: sent) :
    Exported sink sent received e where
  books := h.books
  stopped := h.stopped
  batch := h.batch
  complete := h.complete
  whole hnone := by
    -- the last batch that was handed over is the one that the sink broke down at
    obtain ⟨n, hsize, hpanic, -⟩ := h.last
    exact absurd hpanic (hnone n (by omega))
  broken i hi hpanic := by
    obtain ⟨n, hsize, -, hbefore⟩ := h.last
    have hlast : ¬ i < n := fun hlt => hbefore i hlt hpanic
    exact ⟨by omega, hbegins⟩
  unfailing hsink := by
    obtain ⟨n, -, hpanic, -⟩ := h.last
    simp [hsink] at hpanic

/-- When no more spans can come, an exporter that runs hands over the rest. -/
theorem IsOpen.close (h : IsOpen sink received e) (hbegins : received <+: sent)
    (hall : e.running = true → received = sent) :
    Exported sink sent received (e.step sink .close) := by
  rcases h with ⟨hgathers, hroom⟩ | hbroken
  · obtain rfl := hall hgathers.running
    have hclose : e.step sink .close = { e.flush sink with running := false } :=
      if_pos hgathers.running
    rw [hclose]
    -- the last write may be the one that panics
    rcases hgathers.flush (Nat.le_of_lt hroom) with ⟨hgathers, hbatch⟩ | hbroken
    · exact hgathers.exported hbatch
    · have hstopped : ({ e.flush sink with running := false } : Exporter) = e.flush sink := by
        rw [← hbroken.stopped]
      rw [hstopped]
      exact hbroken.exported hbegins
  · rw [step_of_stopped hbroken.stopped]
    exact hbroken.exported hbegins

/-- Whatever the order in which spans arrive and the timer ticks, and whatever becomes of the
batches: when no more spans can come, the exporter has handed over what it has received. -/
theorem steps_close_exports (sink : Nat → SinkOutcome) (hls : .close ∉ ls) :
    Exported sink (arrivals ls) (receivedIn sink {} ls)
      (({} : Exporter).steps sink (ls ++ [.close])) := by
  have hopen := (isOpen_start sink).steps hls
  rw [List.nil_append] at hopen
  have hsteps : ({} : Exporter).steps sink (ls ++ [.close]) =
      (({} : Exporter).steps sink ls).step sink .close := by
    rw [steps, steps, List.foldl_append]
    rfl
  rw [hsteps]
  exact hopen.close (receivedIn_prefix_arrivals sink {} ls) receivedIn_eq_arrivals

/-- A span of the frontend. -/
def page : Span where
  traceId := ⟨List.replicate 16 1, rfl⟩
  spanId := ⟨List.replicate 8 2, rfl⟩
  parentSpanId := none
  name := "page"
  service := "frontend"
  startTime := ⟨0⟩
  endTime := some ⟨1⟩
  attributes := .empty

/-- A hundred spans and one more, which goes with the tick; then the last one. -/
def pages : List Label := List.replicate 101 (.receive page) ++ [.tick, .receive page]

/-- The sink breaks down at its second batch. -/
def fragile (i : Nat) : SinkOutcome := if i = 1 then .panicked else .written

/-- The first hundred are written, the next one is lost with the sink, and the last one is not
handed over. -/
theorem pages_exported : Label.close ∉ pages ∧
    Exported fragile (arrivals pages) (receivedIn fragile {} pages)
      (({} : Exporter).steps fragile (pages ++ [.close])) ∧
    (({} : Exporter).steps fragile (pages ++ [.close])).stats = ⟨100, 2, 1⟩ := by
  have hopen : Label.close ∉ pages := by simp [pages]
  exact ⟨hopen, steps_close_exports fragile hopen, by decide +kernel⟩

end Exporter

end TraceLoad
