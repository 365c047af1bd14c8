import TraceLoad.Run

/-! # The path of one worker

Seen from one worker, a run is a sequence of its own moves. `Move` says what a worker can do next
and which events that puts on the record; what comes from the others is left open: how the limiter
answers, what the clock shows, and when the stop signal fires. `Path` strings moves together.

`steps_path` is the bridge: in every schedule each worker goes along a path, and the events of the
run that are the worker's are those of its path. A law of paths is thereby a law of every worker in
every run.
-/

namespace TraceLoad

/-- When the permit that is waited for is due. -/
def Phase.due? {τ : Type} : Phase τ → Option τ
  | .queued due => some due
  | _ => none

/-- Whether there is a permit that has not been used. -/
def Phase.hasPermit {τ : Type} : Phase τ → Bool
  | .permitted => true
  | _ => false

namespace Worker

variable {σ τ : Type} [WordSource σ]

/-- What a worker can do next, and the events that it puts on the record. -/
inductive Move (p : Plan) (stopped : Bool) (w : Worker σ τ) : List Event → Worker σ τ → Prop where
  | look (ready : w.phase = .ready) (still : stopped = false) :
      Move p stopped w [] (w.moveTo .asking)
  | quit (ready : w.phase = .ready) (fired : stopped = true) :
      Move p stopped w [] (w.stop .stopRequested)
  | grant (asks : w.phase = .asking) : Move p stopped w [] (w.moveTo .permitted)
  | wait (asks : w.phase = .asking) (due : τ) : Move p stopped w [] (w.moveTo (.queued due))
  | serve {due : τ} (waits : w.phase = .queued due) (still : stopped = false) :
      Move p stopped w [] (w.moveTo .permitted)
  | leave {due : τ} (waits : w.phase = .queued due) (fired : stopped = true) :
      Move p stopped w [] (w.stop .stopRequested)
  | begin {clock : Clock} {result : Except EmitError Nat} {e : Emission σ}
      (free : w.phase = .permitted)
      (emits : p.emitter.emit p.root ⟨w.words, clock, #[]⟩ = (result, e)) :
      Move p stopped w [] { w with words := e.words, phase := .emitting e.events.toList result }
  | record {event : Event} {left : List Event} {result : Except EmitError Nat}
      (emits : w.phase = .emitting (event :: left) result) :
      Move p stopped w [event] (w.moveTo (.emitting left result))
  | settle {result : Except EmitError Nat} (through : w.phase = .emitting [] result) :
      Move p stopped w [] (w.settle p.maxTraces result)

/-- Moves one after another, with the events that they put on the record. The stop signal may fire
in between, and goes on then. -/
inductive Path (p : Plan) (b : Bool) (w : Worker σ τ) : List Event → Bool → Worker σ τ → Prop where
  | refl : Path p b w [] b w
  | move {log events : List Event} {b' : Bool} {w' w'' : Worker σ τ} (before : Path p b w log b' w')
      (last : Move p b' w' events w'') : Path p b w (log ++ events) b' w''
  | fire {log : List Event} {b' : Bool} {w' : Worker σ τ} (before : Path p b w log b' w') :
      Path p b w log true w'

variable {p : Plan} {b b' b'' : Bool} {w w' w'' : Worker σ τ} {log log' events : List Event}

omit [WordSource σ] in
theorem id_settle (w : Worker σ τ) (maxTraces : Nat) (result : Except EmitError Nat) :
    (w.settle maxTraces result).id = w.id := by
  unfold settle
  split
  · rfl
  · dsimp only
    split
    · rfl
    · rfl

omit [WordSource σ] in
/-- Once a trace is taken into account, the worker is out of its loop or at its head. -/
theorem phase_settle (w : Worker σ τ) (maxTraces : Nat) (result : Except EmitError Nat) :
    (w.settle maxTraces result).phase.due? = none ∧
      (w.settle maxTraces result).phase.hasPermit = false := by
  unfold settle
  split
  · exact ⟨rfl, rfl⟩
  · dsimp only
    split
    · exact ⟨rfl, rfl⟩
    · exact ⟨rfl, rfl⟩

/-- No move changes who a worker is. -/
theorem Move.id_eq (h : Move p b w events w') : w'.id = w.id := by
  cases h with
  | settle _ => exact w.id_settle _ _
  | _ => rfl

theorem Path.id_eq (h : Path p b w log b' w') : w'.id = w.id := by
  induction h with
  | refl => rfl
  | move _ last ih => exact last.id_eq.trans ih
  | fire _ ih => exact ih

/-- A path goes on where another one has ended. -/
theorem Path.trans (h : Path p b w log b' w') (h' : Path p b' w' log' b'' w'') :
    Path p b w (log ++ log') b'' w'' := by
  induction h' with
  | refl => rw [List.append_nil]; exact h
  | move _ last ih => rw [← List.append_assoc]; exact .move ih last
  | fire _ ih => exact .fire ih

end Worker

namespace Run

open Worker (Move Path)

variable {σ α τ : Type} {p : Plan} {r r' : Run σ α τ} {i : Nat} {w w' : Worker σ τ}
  {events : List Event}

/-! ## What a step of a run is for its workers -/

/-- Who the workers are. -/
def ids (r : Run σ α τ) : List Nat := r.workers.toList.map (·.id)

/-- The worker at a place has gone on: the other workers are as they were, and its events and its
report, if it is done, have been put to those of the run. -/
structure Went (r : Run σ α τ) (i : Nat) (w w' : Worker σ τ) (events : List Event)
    (r' : Run σ α τ) : Prop where
  workers : r'.workers = r.workers.setIfInBounds i w'
  entries : r'.entries = r.entries ++ events.map (Entry.mk w.id)
  stopped : r'.stopped = r.stopped
  now : r'.now = r.now
  reports : r'.reports.toList = r.reports.toList ++ w'.report?.toList

/-- To put a worker in its place is to leave the others in theirs. -/
theorem went_put (r : Run σ α τ) (i : Nat) (w w' : Worker σ τ) : Went r i w w' [] (r.put i w') := by
  unfold put
  cases h : w'.report? with
  | none => exact ⟨rfl, by simp [entries], rfl, rfl, by simp [h]⟩
  | some report => exact ⟨rfl, by simp [entries], rfl, rfl, by simp [h]⟩

@[simp]
theorem limiter_put (r : Run σ α τ) (i : Nat) (w : Worker σ τ) :
    (r.put i w).limiter = r.limiter := by
  unfold put
  cases w.report? with
  | none => rfl
  | some _ => rfl

theorem entries_record (r : Run σ α τ) (w : Worker σ τ) (event : Event) :
    (r.record w event).entries = r.entries ++ [⟨w.id, event⟩] := by
  simp [record, entries]

/-- The limiter, the clock that is read and the notices are nothing that a worker's path depends
on. -/
theorem Went.of_same {r₁ : Run σ α τ} (h : Went r₁ i w w' events r')
    (workers : r₁.workers = r.workers) (past : r₁.past = r.past)
    (stopped : r₁.stopped = r.stopped) (now : r₁.now = r.now) (reports : r₁.reports = r.reports) :
    Went r i w w' events r' where
  workers := workers ▸ h.workers
  entries := by rw [h.entries, Run.entries, Run.entries, past]
  stopped := h.stopped.trans stopped
  now := h.now.trans now
  reports := reports ▸ h.reports

/-- An event that is recorded is one of the worker who is put in its place. -/
theorem went_record (r : Run σ α τ) (i : Nat) (w w' : Worker σ τ) (event : Event) :
    Went r i w w' [event] ((r.record w event).put i w') :=
  have h := went_put (r.record w event) i w w'
  { workers := h.workers
    entries := by rw [h.entries, entries_record]; simp
    stopped := h.stopped
    now := h.now
    reports := h.reports }

/-- The events of a move belong to the worker who moves. -/
theorem Went.eventsOf (h : Went r i w w' events r') (k : Nat) :
    r'.eventsOf k = r.eventsOf k ++ if w.id = k then events else [] := by
  rw [Run.eventsOf, Run.eventsOf, h.entries, List.filter_append, List.map_append]
  by_cases hk : w.id = k
  · simp [hk, List.filter_map, Function.comp_def]
  · simp [hk, List.filter_map, Function.comp_def]

theorem getElem?_ids (r : Run σ α τ) (i : Nat) : r.ids[i]? = r.workers[i]?.map (·.id) := by
  rw [ids, List.getElem?_map, Array.getElem?_toList]

theorem Went.ids (h : Went r i w w' events r') (hmem : r.workers[i]? = some w)
    (hid : w'.id = w.id) : r'.ids = r.ids := by
  refine List.ext_getElem? fun j => ?_
  rw [getElem?_ids, getElem?_ids, h.workers, Array.getElem?_setIfInBounds]
  split
  · next hj =>
    subst hj
    rw [hmem]
    split
    · exact congrArg some hid
    · next hout => exact absurd (Array.getElem?_eq_some_iff.1 hmem).1 hout
  · rfl

variable [WordSource σ]

/-- The steps of a run: a worker moves, the stop signal fires, or time passes. -/
inductive Step (p : Plan) (r : Run σ α τ) : Run σ α τ → Prop where
  | go {i : Nat} {w w' : Worker σ τ} {events : List Event} {r' : Run σ α τ}
      (mem : r.workers[i]? = some w) (move : Move p r.stopped w events w')
      (went : Went r i w w' events r') : Step p r r'
  | stop : Step p r { r with stopped := true }
  | pass (later : τ) : Step p r { r with now := later }

/-- The workers are the same after a step, in the same order. -/
theorem Step.ids (h : Step p r r') : r'.ids = r.ids := by
  cases h with
  | go mem move went => exact went.ids mem move.id_eq
  | stop => rfl
  | pass _ => rfl

/-- In a step every worker moves at most once, and what the step puts on the record of a worker is
what the worker's move does. -/
theorem Step.path (h : Step p r r') (hids : r.ids.Nodup) {j : Nat} {v : Worker σ τ}
    (hv : r.workers[j]? = some v) : ∃ v' log, r'.workers[j]? = some v' ∧
      Path p r.stopped v log r'.stopped v' ∧ r'.eventsOf v.id = r.eventsOf v.id ++ log := by
  cases h with
  | @go i w w' events _ mem move went =>
    rw [went.workers, went.stopped, went.eventsOf, Array.getElem?_setIfInBounds]
    by_cases hij : i = j
    · subst hij
      obtain rfl := Option.some.inj (hv.symm.trans mem)
      have hbound := (Array.getElem?_eq_some_iff.1 mem).1
      exact ⟨w', events, by rw [if_pos rfl, if_pos hbound], .move .refl move, by rw [if_pos rfl]⟩
    · -- another worker has gone on, and it has another number
      have hother : w.id ≠ v.id := by
        intro hid
        have hlt : i < r.ids.length := by
          rw [Run.ids, List.length_map, Array.length_toList]
          exact (Array.getElem?_eq_some_iff.1 mem).1
        refine hij ((List.getElem?_inj hlt hids).1 ?_)
        rw [getElem?_ids, getElem?_ids, mem, hv, Option.map_some, Option.map_some, hid]
      exact ⟨v, [], by rw [if_neg hij]; exact hv, .refl, by rw [if_neg hother]⟩
  | stop => exact ⟨v, [], hv, .fire .refl, (List.append_nil _).symm⟩
  | pass _ => exact ⟨v, [], hv, .refl, (List.append_nil _).symm⟩

variable [Add α] [Sub α] [Mul α] [Neg α] [Div α] [LE α] [DecidableLE α]
  [OfNat α 0] [OfNat α 1] [Timeline α τ] [LE τ] [DecidableLE τ]

/-- What a worker's move is for the limiter, and the limiter after it. -/
inductive Deal (r : Run σ α τ) (w w' : Worker σ τ) : Limiter α τ → Prop where
  | grant {limiter : Limiter α τ} (asks : w.phase = .asking)
      (answer : r.limiter.acquire r.now = (.granted, limiter)) (has : w'.phase = .permitted) :
      Deal r w w' limiter
  | wait {due : τ} {limiter : Limiter α τ} (asks : w.phase = .asking)
      (answer : r.limiter.acquire r.now = (.queued due, limiter)) (waits : w'.phase = .queued due) :
      Deal r w w' limiter
  | serve {due : τ} (waits : w.phase = .queued due) (come : due ≤ r.now)
      (has : w'.phase = .permitted) : Deal r w w' r.limiter
  | leave {due : τ} (waits : w.phase = .queued due) (left : w'.phase = .done .stopRequested) :
      Deal r w w' r.limiter.giveBack
  | apart (before : w.phase.due? = none) (after : w'.phase.due? = none)
      (unpermitted : w'.phase.hasPermit = false) : Deal r w w' r.limiter

/-- A worker that goes on makes one of its moves, and the limiter is dealt with accordingly. -/
theorem exists_deal_of_go (h : go p r i w = some r') :
    ∃ w' events, Move p r.stopped w events w' ∧ Went r i w w' events r' ∧
      Deal r w w' r'.limiter := by
  unfold go at h
  -- one case for each phase that a worker can be in, as in the definition
  split at h
  case h_1 hphase =>
    obtain rfl := Option.some.inj h
    have hbefore : w.phase.due? = none := by rw [hphase]; rfl
    rw [limiter_put]
    cases hstop : r.stopped with
    | false => exact ⟨_, [], .look hphase rfl, went_put r i w _, .apart hbefore rfl rfl⟩
    | true => exact ⟨_, [], .quit hphase rfl, went_put r i w _, .apart hbefore rfl rfl⟩
  case h_2 hphase =>
    split at h
    · next limiter hanswer =>
      obtain rfl := Option.some.inj h
      rw [limiter_put]
      exact ⟨_, [], .grant hphase, (went_put _ i w _).of_same rfl rfl rfl rfl rfl,
        .grant hphase hanswer rfl⟩
    · next due limiter hanswer =>
      obtain rfl := Option.some.inj h
      rw [limiter_put]
      exact ⟨_, [], .wait hphase due, (went_put _ i w _).of_same rfl rfl rfl rfl rfl,
        .wait hphase hanswer rfl⟩
  case h_3 due hphase =>
    split at h
    · next hstop =>
      obtain rfl := Option.some.inj h
      rw [limiter_put]
      exact ⟨_, [], .leave hphase hstop, (went_put _ i w _).of_same rfl rfl rfl rfl rfl,
        .leave hphase rfl⟩
    · next hstop =>
      split at h
      · next hcome =>
        obtain rfl := Option.some.inj h
        rw [limiter_put]
        exact ⟨_, [], .serve hphase (Bool.eq_false_iff.2 hstop), went_put r i w _,
          .serve hphase hcome rfl⟩
      · cases h
  case h_4 hphase =>
    obtain rfl := Option.some.inj h
    have hbefore : w.phase.due? = none := by rw [hphase]; rfl
    unfold begin
    rw [limiter_put]
    exact ⟨_, [], .begin hphase rfl, (went_put _ i w _).of_same rfl rfl rfl rfl rfl,
      .apart hbefore rfl rfl⟩
  case h_5 event left result hphase =>
    obtain rfl := Option.some.inj h
    have hbefore : w.phase.due? = none := by rw [hphase]; rfl
    rw [limiter_put]
    exact ⟨_, [event], .record hphase, went_record r i w _ event, .apart hbefore rfl rfl⟩
  case h_6 result hphase =>
    obtain rfl := Option.some.inj h
    have hbefore : w.phase.due? = none := by rw [hphase]; rfl
    obtain ⟨hafter, hunpermitted⟩ := w.phase_settle p.maxTraces result
    refine ⟨_, [], .settle hphase, ?_⟩
    unfold settle
    rw [limiter_put]
    cases result with
    | error f =>
      -- a trace that fails leaves a notice, which changes nothing about the worker's part
      exact ⟨(went_put _ i w _).of_same rfl rfl rfl rfl rfl, .apart hbefore hafter hunpermitted⟩
    | ok n => exact ⟨went_put r i w _, .apart hbefore hafter hunpermitted⟩
  case h_7 => cases h

/-- A worker that goes on makes one of its moves. -/
theorem exists_deal_of_step (h : step p r (.go i) = some r') :
    ∃ w w' events, r.workers[i]? = some w ∧ Move p r.stopped w events w' ∧
      Went r i w w' events r' ∧ Deal r w w' r'.limiter := by
  simp only [step] at h
  cases hw : r.workers[i]? with
  | none => simp [hw] at h
  | some w =>
    simp only [hw] at h
    obtain ⟨w', events, hmove, hwent, hdeal⟩ := exists_deal_of_go h
    exact ⟨w, w', events, rfl, hmove, hwent, hdeal⟩

/-- Time only goes on. -/
theorem le_of_step_pass {later : τ} (h : step p r (.pass later) = some r') :
    r.now ≤ later ∧ r' = { r with now := later } := by
  simp only [step, Option.ite_none_right_eq_some, Option.some.injEq] at h
  exact ⟨h.1, h.2.symm⟩

/-- What a run does next is one of the steps. -/
theorem step_of_eq_some {l : Label τ} (h : step p r l = some r') : Step p r r' := by
  cases l with
  | go i =>
    obtain ⟨w, w', events, hw, hmove, hwent, -⟩ := exists_deal_of_step h
    exact .go hw hmove hwent
  | stop =>
    obtain rfl := Option.some.inj h
    exact .stop
  | pass later =>
    obtain ⟨-, rfl⟩ := le_of_step_pass h
    exact .pass later

theorem exists_step_of_cons {l : Label τ} {ls : List (Label τ)}
    (h : r.steps p (l :: ls) = some r') : ∃ r₁, r.step p l = some r₁ ∧ r₁.steps p ls = some r' := by
  simp only [steps] at h
  cases hl : r.step p l with
  | none => simp [hl] at h
  | some r₁ =>
    rw [hl] at h
    exact ⟨r₁, rfl, h⟩

/-- A schedule is followed up to any point of it, and from there. -/
theorem steps_append {ls : List (Label τ)} (h : r.steps p ls = some r') (ls' : List (Label τ)) :
    r.steps p (ls ++ ls') = r'.steps p ls' := by
  induction ls generalizing r with
  | nil =>
    obtain rfl := Option.some.inj h
    rfl
  | cons l ls ih =>
    obtain ⟨r₁, hl, hrest⟩ := exists_step_of_cons h
    simp only [steps, List.cons_append, hl]
    exact ih hrest

/-- What the step of every label keeps is kept by every schedule. -/
theorem steps_induction {P : Run σ α τ → Prop}
    (hstep : ∀ {r r' : Run σ α τ} {l : Label τ}, P r → step p r l = some r' → P r')
    {ls : List (Label τ)} (h : r.steps p ls = some r') (hr : P r) : P r' := by
  induction ls generalizing r with
  | nil =>
    obtain rfl := Option.some.inj h
    exact hr
  | cons l ls ih =>
    obtain ⟨r₁, hl, hrest⟩ := exists_step_of_cons h
    exact ih hrest (hstep hr hl)

/-- What every step keeps is kept by every schedule. -/
theorem steps_keep {P : Run σ α τ → Prop} (hstep : ∀ {r r'}, P r → Step p r r' → P r')
    {ls : List (Label τ)} (h : r.steps p ls = some r') (hr : P r) : P r' :=
  steps_induction (fun hr hl => hstep hr (step_of_eq_some hl)) h hr

theorem steps_ids {ls : List (Label τ)} (h : r.steps p ls = some r') : r'.ids = r.ids :=
  steps_keep (P := fun r₁ => r₁.ids = r.ids) (fun h hstep => hstep.ids.trans h) h rfl

/-- In every schedule each worker goes along a path of its own. -/
theorem steps_path {ls : List (Label τ)} (h : r.steps p ls = some r') (hids : r.ids.Nodup)
    (hw : r.workers[i]? = some w) : ∃ w' log, r'.workers[i]? = some w' ∧
      Path p r.stopped w log r'.stopped w' ∧ r'.eventsOf w.id = r.eventsOf w.id ++ log := by
  induction ls generalizing r w with
  | nil =>
    obtain rfl := Option.some.inj h
    exact ⟨w, [], hw, .refl, (List.append_nil _).symm⟩
  | cons l ls ih =>
    obtain ⟨r₁, hl, hrest⟩ := exists_step_of_cons h
    have hstep := step_of_eq_some hl
    obtain ⟨w₁, log₁, hw₁, hpath₁, hlog₁⟩ := hstep.path hids hw
    obtain ⟨w', log, hw', hpath, hlog⟩ := ih hrest (hstep.ids ▸ hids) hw₁
    -- the path of the first step goes before that of the others
    refine ⟨w', log₁ ++ log, hw', hpath₁.trans hpath, ?_⟩
    rw [← hpath₁.id_eq, hlog, hpath₁.id_eq, hlog₁, List.append_assoc]

end Run

end TraceLoad
