import TraceLoad.Proofs.Debt
import TraceLoad.Proofs.RunTotals

/-! # A permit for every trace

Numbers and instants are rational here, and a wait is over exactly when it is due or later. No
worker starts a trace without a permit of its own: what it has started and the permit that it has
not used yet are together what it was granted (`permits_eq_grantsTo`). The limiter keeps its ledger
against the permits of all workers (`Solvent`), in every schedule, so what is started is bounded by
the rate and the time, however many workers there are.

Behind the stop signal nothing is granted any more, provided that nobody has looked for the signal
and not asked yet; a schedule in which looking and asking are one step is prompt (`isPrompt`).
-/

namespace TraceLoad

namespace Worker

variable {σ τ : Type}

/-- How many permits a worker has had: one for each trace that it has started, and the one that it
has not used yet. -/
def permits (w : Worker σ τ) : ℕ := w.begun + if w.phase.hasPermit then 1 else 0

/-- A trace is begun with a permit. -/
theorem begun_le_permits (w : Worker σ τ) : w.begun ≤ w.permits := Nat.le_add_right _ _

theorem traces_le_permits (w : Worker σ τ) : w.traces ≤ w.permits := by
  unfold permits begun
  split
  · omega
  · omega
  · omega

variable [WordSource σ] {p : Plan} {b : Bool} {w w' : Worker σ τ} {events : List Event}

/-- A worker has a permit more when it is granted one, and at no other move. -/
theorem Move.permits_eq (h : Move p b w events w') :
    w'.permits = w.permits + if w'.phase.hasPermit then 1 else 0 := by
  unfold permits
  -- a permit is used up by the trace that it is for, so only a new one changes the count
  cases h with
  | look ready _ => simp [begun, moveTo, ready, Phase.hasPermit]
  | quit ready _ => simp [begun, stop, moveTo, ready, Phase.hasPermit]
  | grant asks => simp [begun, moveTo, asks, Phase.hasPermit]
  | wait asks due => simp [begun, moveTo, asks, Phase.hasPermit]
  | serve waits _ => simp [begun, moveTo, waits, Phase.hasPermit]
  | leave waits _ => simp [begun, stop, moveTo, waits, Phase.hasPermit]
  | begin free _ => simp [begun, free, Phase.hasPermit]
  | record emits => simp [begun, moveTo, emits, Phase.hasPermit]
  | @settle result through =>
    cases result with
    | error f =>
      have hsettle : w.settle p.maxTraces (.error f) = w.stop .emitFailed := rfl
      simp [hsettle, begun, stop, moveTo, through, Phase.hasPermit]
    | ok n =>
      obtain ⟨phase, hsettle, hphase⟩ := w.exists_settle_ok p.maxTraces n
      rw [hsettle]
      rcases hphase with ⟨rfl, -⟩ | ⟨rfl, -⟩
      · simp [begun, through, Phase.hasPermit]
      · simp [begun, through, Phase.hasPermit]

/-- Behind the stop signal a worker that has not asked for a permit does not ask, and is granted
none. -/
theorem Move.permits_of_stopped (h : Move p true w events w') (hasks : w.phase ≠ .asking) :
    w'.permits = w.permits ∧ w'.phase ≠ .asking := by
  have hpermits := h.permits_eq
  -- after the stop nobody looks, and nobody who waits is served
  cases h with
  | look _ still => cases still
  | quit _ _ => exact ⟨hpermits, nofun⟩
  | grant asks => exact absurd asks hasks
  | wait asks _ => exact absurd asks hasks
  | serve _ still => cases still
  | leave _ _ => exact ⟨hpermits, nofun⟩
  | begin _ _ => exact ⟨hpermits, nofun⟩
  | record _ => exact ⟨hpermits, nofun⟩
  | @settle result _ =>
    cases result with
    | error f => exact ⟨hpermits, nofun⟩
    | ok n =>
      obtain ⟨phase, hsettle, hphase⟩ := w.exists_settle_ok p.maxTraces n
      rw [hsettle] at hpermits ⊢
      rcases hphase with ⟨rfl, -⟩ | ⟨rfl, -⟩
      · exact ⟨hpermits, nofun⟩
      · exact ⟨hpermits, nofun⟩

end Worker

/-- Only how many permits were granted and which ones are due matters to a ledger. -/
theorem Ledger.congr {rate start now : ℚ} {b : Bucket ℚ ℚ} {granted granted' : ℕ}
    {dues dues' : List ℚ} (h : Ledger rate start now b granted dues) (hgranted : granted = granted')
    (hdues : dues.Perm dues') : Ledger rate start now b granted' dues' where
  last_le := h.last_le
  covered t ht := hdues.countP_eq (t < ·) ▸ h.covered t ht
  booked := hgranted ▸ hdues.length_eq ▸ h.booked

namespace Run

open Worker (Move)

variable {σ : Type} {p : Plan} {rate start : ℚ} {r r' : Run σ ℚ ℚ} {i : ℕ} {w w' : Worker σ ℚ}

/-! ## The ledger of a run -/

/-- How many permits the workers have had. -/
def granted (r : Run σ ℚ ℚ) : ℕ := (r.workers.toList.map Worker.permits).sum

/-- When the permits are due that workers wait for. -/
def dues (r : Run σ ℚ ℚ) : List ℚ := r.workers.toList.filterMap (·.phase.due?)

/-- The limiter of a run has a rate, and its ledger is that of the workers. -/
structure Solvent (rate start : ℚ) (r : Run σ ℚ ℚ) : Prop where
  limited : r.limiter.rate = some rate
  ledger : Ledger rate start r.now r.limiter.bucket r.granted r.dues

/-- Workers set out without a permit. -/
theorem Fresh.permits {ws : List (Worker σ ℚ)} (h : Fresh ws) {w : Worker σ ℚ} (hw : w ∈ ws) :
    w.permits = 0 := by
  obtain ⟨htraces, -, hphase⟩ := h.blank w hw
  simp [Worker.permits, Worker.begun, hphase, htraces, Phase.hasPermit]

/-- At the start nothing is owed. -/
theorem solvent_start (hrate : 0 < rate) {ws : List (Worker σ ℚ)} (hws : Fresh ws) (clock : Clock) :
    Solvent rate start (Run.start ws (.ofRate (some rate) start) start clock) := by
  have hgranted : (ws.map Worker.permits).sum = 0 := by
    refine List.sum_eq_zero fun n hn => ?_
    obtain ⟨w, hw, rfl⟩ := List.mem_map.1 hn
    exact hws.permits hw
  have hdues : ws.filterMap (·.phase.due?) = [] := by
    refine List.filterMap_eq_nil_iff.2 fun w hw => ?_
    rw [(hws.blank w hw).2.2]
    rfl
  constructor
  · rfl
  · refine (Ledger.ofFull hrate start).congr ?_ ?_
    · exact hgranted.symm
    · exact List.Perm.of_eq hdues.symm

/-- Every deal keeps the ledger. What the other workers wait for is left as it is. -/
theorem Deal.ledger {limiter : Limiter ℚ ℚ} {granted : ℕ} {dues rest : List ℚ} (hrate : 0 < rate)
    (h : Deal r w w' limiter) (hlimited : r.limiter.rate = some rate)
    (hledger : Ledger rate start r.now r.limiter.bucket granted dues)
    (hdues : dues.Perm (w.phase.due?.toList ++ rest)) :
    limiter.rate = some rate ∧
      Ledger rate start r.now limiter.bucket (granted + if w'.phase.hasPermit then 1 else 0)
        (w'.phase.due?.toList ++ rest) := by
  -- the limiter answers by the turn, which is in the books
  have hanswer := Limiter.acquire_eq hrate hlimited hledger.last_le
  cases h with
  | grant asks answer has =>
    rw [hanswer] at answer
    rw [asks] at hdues
    rw [has]
    split at answer
    · next hturn =>
      obtain ⟨-, rfl⟩ := Prod.mk.inj answer
      exact ⟨hlimited, (hledger.grant hrate hturn).congr rfl hdues⟩
    · cases answer
  | wait asks answer waits =>
    rw [hanswer] at answer
    rw [asks] at hdues
    rw [waits]
    split at answer
    · cases answer
    · next hturn =>
      obtain ⟨hdue, rfl⟩ := Prod.mk.inj answer
      obtain rfl := Permit.queued.inj hdue
      refine ⟨hlimited, (hledger.queue hrate (lt_of_not_ge hturn)).congr rfl ?_⟩
      exact (List.perm_append_singleton _ _).trans (hdues.cons _)
  | serve waits come has =>
    -- whoever waited is no longer among those who are due
    rw [waits] at hdues
    rw [has]
    exact ⟨hlimited, hledger.serve hdues come⟩
  | leave waits left =>
    rw [waits] at hdues
    rw [left]
    exact ⟨hlimited, hledger.leave hrate hdues⟩
  | apart before after unpermitted =>
    rw [before] at hdues
    rw [after, unpermitted]
    exact ⟨hlimited, hledger.congr rfl hdues⟩

/-- One worker goes on: the permits and the dues of the others are as they were. -/
theorem Went.granted {events : List Event} (h : Went r i w w' events r')
    (hw : r.workers[i]? = some w) : r'.granted + w.permits = r.granted + w'.permits ∧
      ∃ rest, r.dues.Perm (w.phase.due?.toList ++ rest) ∧
        r'.dues.Perm (w'.phase.due?.toList ++ rest) := by
  -- the list of the workers is the one who moved and the others, before and after
  obtain ⟨rest, hbefore, hset⟩ := exists_perm_set (Array.getElem?_toList.trans hw)
  have hafter := hset w'
  unfold Run.granted dues
  rw [h.workers, Array.toList_setIfInBounds]
  constructor
  · rw [(hbefore.map Worker.permits).sum_nat, (hafter.map Worker.permits).sum_nat, List.map_cons,
      List.map_cons, List.sum_cons, List.sum_cons]
    omega
  · refine ⟨rest.filterMap (·.phase.due?), ?_, ?_⟩
    · have hdues := hbefore.filterMap (·.phase.due?)
      rwa [filterMap_cons_toList] at hdues
    · have hdues := hafter.filterMap (·.phase.due?)
      rwa [filterMap_cons_toList] at hdues

variable [WordSource σ]

/-- Whatever happens in a run, the ledger is kept. -/
theorem Solvent.of_step (hrate : 0 < rate) (h : Solvent rate start r) {l : Label ℚ}
    (hstep : r.step p l = some r') : Solvent rate start r' := by
  cases l with
  | go i =>
    obtain ⟨w, w', events, hw, hmove, hwent, hdeal⟩ := exists_deal_of_step hstep
    obtain ⟨hgranted, rest, hbefore, hafter⟩ := hwent.granted hw
    obtain ⟨hlimited, hledger⟩ := hdeal.ledger hrate h.limited h.ledger hbefore
    -- what is granted in the ledger is what the worker has got
    have hpermits := hmove.permits_eq
    constructor
    · exact hlimited
    · rw [hwent.now]
      refine hledger.congr ?_ hafter.symm
      omega
  | stop =>
    obtain rfl := Option.some.inj hstep
    exact ⟨h.limited, h.ledger⟩
  | pass later =>
    obtain ⟨hlater, rfl⟩ := le_of_step_pass hstep
    exact ⟨h.limited, h.ledger.pass hlater⟩

/-! ## Each worker and its permits -/

/-- Whether the worker at a place has a permit that it has not used yet. -/
def hasPermit (r : Run σ ℚ ℚ) (i : ℕ) : Bool := r.workers[i]?.any (·.phase.hasPermit)

/-- How many permits the worker at a place is granted in the course of a schedule: it is so by the
steps of its own that leave it with a permit. -/
def grantsTo (p : Plan) (i : ℕ) (r : Run σ ℚ ℚ) : List (Label ℚ) → ℕ
  | [] => 0
  | l :: ls =>
    match r.step p l with
    | some r' => (if l = .go i ∧ r'.hasPermit i = true then 1 else 0) + grantsTo p i r' ls
    | none => 0

/-- What a worker has started and what it has not used yet are the permits that it was granted. -/
theorem permits_eq_grantsTo {ls : List (Label ℚ)} (h : r.steps p ls = some r')
    (hw : r.workers[i]? = some w) (hw' : r'.workers[i]? = some w') :
    w'.permits = w.permits + grantsTo p i r ls := by
  induction ls generalizing r w with
  | nil =>
    obtain rfl := Option.some.inj h
    obtain rfl := Option.some.inj (hw.symm.trans hw')
    rfl
  | cons l ls ih =>
    obtain ⟨r₁, hl, hsteps⟩ := exists_step_of_cons h
    simp only [grantsTo, hl]
    cases l with
    | go j =>
      obtain ⟨v, v', events, hv, hmove, hwent, -⟩ := exists_deal_of_step hl
      have hplace := congrArg (·[i]?) hwent.workers
      rw [Array.getElem?_setIfInBounds] at hplace
      rcases eq_or_ne j i with rfl | hother
      · obtain rfl := Option.some.inj (hw.symm.trans hv)
        rw [if_pos rfl, if_pos (Array.getElem?_eq_some_iff.1 hw).1] at hplace
        have hpermits := hmove.permits_eq
        have hrest := ih hsteps hplace
        have hgrant : r₁.hasPermit j = v'.phase.hasPermit := by
          rw [hasPermit, hplace, Option.any_some]
        rw [hgrant]
        simp only [true_and]
        omega
      · -- what another worker does is none of its business
        rw [if_neg hother, hw] at hplace
        have hlabel : Label.go j ≠ (.go i : Label ℚ) := fun heq => hother (Label.go.inj heq)
        have hrest := ih hsteps hplace
        rw [if_neg (fun hboth => hlabel hboth.1)]
        omega
    | stop =>
      obtain rfl := Option.some.inj hl
      have hrest := ih hsteps hw
      rw [if_neg (by simp)]
      omega
    | pass later =>
      obtain ⟨-, rfl⟩ := le_of_step_pass hl
      have hrest := ih hsteps hw
      rw [if_neg (by simp)]
      omega

/-! ## Behind the stop signal -/

/-- No worker has looked for the stop signal without asking for its permit yet. -/
def NobodyAsks (r : Run σ ℚ ℚ) : Prop := ∀ w ∈ r.workers.toList, w.phase ≠ .asking

/-- Whether the worker at a place is between looking and asking. -/
def isAsking (r : Run σ ℚ ℚ) (i : ℕ) : Bool :=
  match r.workers[i]? with
  | some { phase := .asking, .. } => true
  | _ => false

/-- Whether a worker that has looked for the stop signal asks at once, throughout a schedule. -/
def isPrompt (p : Plan) (r : Run σ ℚ ℚ) : List (Label ℚ) → Bool
  | [] => true
  | l :: ls =>
    ((List.range r.workers.size).all fun i => !r.isAsking i || l == .go i) &&
      match r.step p l with
      | some r' => isPrompt p r' ls
      | none => true

/-- What is prompt stays so from any point on. -/
theorem isPrompt_of_append {ls ls' : List (Label ℚ)} (h : r.isPrompt p (ls ++ ls') = true)
    (hrun : r.steps p ls = some r') : r'.isPrompt p ls' = true := by
  induction ls generalizing r with
  | nil =>
    obtain rfl := Option.some.inj hrun
    exact h
  | cons l ls ih =>
    obtain ⟨r₁, hl, hsteps⟩ := exists_step_of_cons hrun
    simp only [List.cons_append, isPrompt, hl, Bool.and_eq_true] at h
    exact ih h.2 hsteps

/-- Where a prompt schedule goes on with the stop signal, nobody is between looking and asking. -/
theorem nobodyAsks_of_isPrompt {ls : List (Label ℚ)} (h : r.isPrompt p (.stop :: ls) = true) :
    r.NobodyAsks := by
  intro w hw hasks
  obtain ⟨i, hi⟩ := List.mem_iff_getElem?.1 hw
  rw [Array.getElem?_toList] at hi
  have hplace : i ∈ List.range r.workers.size :=
    List.mem_range.2 (Array.getElem?_eq_some_iff.1 hi).1
  -- one who asks would have to go on before anybody is told to stop
  have hasking : r.isAsking i = true := by
    unfold isAsking
    rw [hi]
    obtain ⟨id, words, traces, spans, phase⟩ := w
    obtain rfl := hasks
    rfl
  simp only [isPrompt, Bool.and_eq_true] at h
  have hnext := List.all_eq_true.1 h.1 i hplace
  rw [hasking] at hnext
  cases hnext

/-- Behind the stop signal nobody asks, and the number of permits stays. -/
structure Settled (granted : ℕ) (r : Run σ ℚ ℚ) : Prop where
  stopped : r.stopped = true
  nobody : r.NobodyAsks
  granted : r.granted = granted

/-- After a stop that nobody asks at, no permit is granted any more. -/
theorem Settled.of_step {n : ℕ} (h : Settled n r) (hstep : Step p r r') : Settled n r' := by
  cases hstep with
  | @go i w w' events _ hw hmove hwent =>
    have hmem : w ∈ r.workers.toList := Array.mem_def.1 (Array.mem_of_getElem? hw)
    rw [h.stopped] at hmove
    -- the one who moves gets none and does not ask, and the others stay as they are
    obtain ⟨hpermits, hasks⟩ := hmove.permits_of_stopped (h.nobody w hmem)
    obtain ⟨hgranted, -⟩ := hwent.granted hw
    constructor
    · exact hwent.stopped.trans h.stopped
    · intro v hv
      rw [hwent.workers, Array.toList_setIfInBounds] at hv
      rcases List.mem_or_eq_of_mem_set hv with hv | rfl
      · exact h.nobody v hv
      · exact hasks
    · have hbefore := h.granted
      omega
  | stop => exact ⟨rfl, h.nobody, h.granted⟩
  | pass _ => exact ⟨h.stopped, h.nobody, h.granted⟩

/-! ## What the rate bounds -/

/-- How many traces the reports count that have come in. -/
def reported (r : Run σ ℚ ℚ) : ℕ := (r.reports.toList.map (·.traces)).sum

omit [WordSource σ] in
/-- What is reported was started with a permit. -/
theorem Collected.reported_le (h : Collected r) : r.reported ≤ r.granted := by
  -- a worker reports the traces that it has had permits for
  have hone : ∀ ws : List (Worker σ ℚ),
      ((ws.filterMap Worker.report?).map (·.traces)).sum ≤ (ws.map Worker.permits).sum := by
    intro ws
    induction ws with
    | nil => exact Nat.le_refl 0
    | cons w ws ih =>
      have hpermits := w.traces_le_permits
      rw [List.map_cons, List.sum_cons]
      cases hreport : w.report? with
      | none =>
        rw [List.filterMap_cons_none hreport]
        omega
      | some report =>
        obtain ⟨-, -, htraces⟩ := Worker.phase_of_report? hreport
        rw [List.filterMap_cons_some hreport, List.map_cons, List.sum_cons, htraces]
        omega
  unfold reported granted
  rw [(h.map (·.traces)).sum_nat]
  exact hone _

omit [WordSource σ] in
/-- No more traces are begun than permits are granted. -/
theorem begun_le_granted (r : Run σ ℚ ℚ) :
    (r.workers.toList.map Worker.begun).sum ≤ r.granted :=
  List.sum_le_sum fun w _ => w.begun_le_permits

/-- A worker that could not fail and was not stopped has emitted its quota when it is done. -/
theorem traces_eq_of_over {ds : List Descriptor} {ws : List (Worker σ ℚ)}
    {limiter : Limiter ℚ ℚ} {now : ℚ} {clock : Clock} {ls : List (Label ℚ)}
    (ht : Topology.ofDescriptors ds = .ok p.emitter.topology)
    (hroot : p.root = p.emitter.topology.root.id)
    (hcover : p.emitter.registry.ensureCovers p.emitter.topology = .ok ()) (hws : Fresh ws)
    (hrun : (Run.start ws limiter now clock).steps p ls = some r) (hquota : p.maxTraces ≠ 0)
    (hgoes : Label.stop ∉ ls) (hover : r.isOver = true) :
    ∀ w ∈ r.workers.toList, w.traces = p.maxTraces := by
  intro w hw
  have hcollected := collected_of_steps hws hrun
  obtain ⟨report, hreport⟩ := exists_report_of_isOver hover hw
  have hmem := hcollected.mem_iff.2 (List.mem_filterMap.2 ⟨w, hw, hreport⟩)
  obtain ⟨s, log, haccurate⟩ := accurate_of_mem_reports ht hroot hws hrun hmem
  obtain ⟨-, -, htraces⟩ := Worker.phase_of_report? hreport
  rw [← htraces]
  -- without a stop and with all services covered, the quota is the only reason to end
  cases hreason : report.reason with
  | quotaReached => exact (haccurate.quota hquota).2.1 hreason
  | stopRequested => exact absurd (haccurate.stopped hreason) hgoes
  | emitFailed =>
    obtain ⟨_, _, _, _, _, _, _, hrest⟩ := haccurate.log
    rw [if_pos hreason] at hrest
    exact absurd hrest (not_failedTrace ht hroot hcover)

/-- What the rate of the limiter means for the traces of a run that has come to a state. -/
structure Metered (p : Plan) (rate start : ℚ) (r₀ : Run σ ℚ ℚ) (ls : List (Label ℚ))
    (r : Run σ ℚ ℚ) : Prop where
  /-- every trace that a worker has started is preceded by a permit of its own -/
  own : ∀ i w, r.workers[i]? = some w → w.begun ≤ grantsTo p i r₀ ls
  /-- no more traces have been started than tokens have come in, with the one that was there -/
  paced : ((r.workers.toList.map Worker.begun).sum : ℚ) ≤ 1 + rate * (r.now - start)
  /-- when the stop signal has fired, no more than that is reported, however long it takes -/
  timed : ∀ ls₁ ls₂ r₁, ls = ls₁ ++ .stop :: ls₂ → r₀.isPrompt p ls = true →
    r₀.steps p ls₁ = some r₁ → (r.reported : ℚ) ≤ 1 + rate * (r₁.now - start)
  /-- a run with a quota takes its time, if nothing stops it and no emission can fail -/
  complete : ∀ ds, Topology.ofDescriptors ds = .ok p.emitter.topology →
    p.root = p.emitter.topology.root.id →
    p.emitter.registry.ensureCovers p.emitter.topology = .ok () → p.maxTraces ≠ 0 →
    Label.stop ∉ ls → r.isOver = true →
    (r.workers.size * p.maxTraces - 1) / rate ≤ r.now - start

/-- Whatever the schedule is and however many workers share the limiter, the rate bounds what they
start. -/
theorem starts_metered (hrate : 0 < rate) {ws : List (Worker σ ℚ)} (hws : Fresh ws)
    {clock : Clock} {ls : List (Label ℚ)}
    (hrun : (Run.start ws (.ofRate (some rate) start) start clock).steps p ls = some r) :
    Metered p rate start (Run.start ws (.ofRate (some rate) start) start clock) ls r := by
  have hsolvent : ∀ {ls r}, (Run.start ws (.ofRate (some rate) start) start clock).steps p ls =
      some r → Solvent rate start r := fun hrun =>
    steps_induction (fun h hstep => h.of_step hrate hstep) hrun (solvent_start hrate hws clock)
  have hgranted := (hsolvent hrun).ledger.granted_le
  have hbegun : ((r.workers.toList.map Worker.begun).sum : ℚ) ≤ r.granted := by
    exact_mod_cast r.begun_le_granted
  have hcollected := collected_of_steps hws hrun
  constructor
  case own =>
    intro i w hw
    obtain ⟨w₀, hw₀⟩ := exists_start_of_steps hrun hw
    have hpermits := permits_eq_grantsTo hrun ((getElem?_workers_start _ _ _ _ i).trans hw₀) hw
    rw [hws.permits (List.mem_of_getElem? hw₀)] at hpermits
    have hstarted := w.begun_le_permits
    omega
  case paced =>
    exact hbegun.trans hgranted
  case timed =>
    intro ls₁ ls₂ r₁ hls hprompt hrun₁
    subst hls
    rw [steps_append hrun₁] at hrun
    have hnobody := nobodyAsks_of_isPrompt (isPrompt_of_append hprompt hrun₁)
    have hafter : steps p { r₁ with stopped := true } ls₂ = some r := hrun
    -- nothing has been granted since the signal, and the ledger of that moment bounds what was
    have hsettled : Settled r₁.granted r :=
      steps_keep Settled.of_step hafter ⟨rfl, hnobody, rfl⟩
    have hreported : (r.reported : ℚ) ≤ r₁.granted := by
      have hle := hcollected.reported_le
      rw [hsettled.granted] at hle
      exact_mod_cast hle
    exact hreported.trans (hsolvent hrun₁).ledger.granted_le
  case complete =>
    intro ds ht hroot hcover hquota hgoes hover
    have htraces := traces_eq_of_over ht hroot hcover hws hrun hquota hgoes hover
    have hsum : (r.workers.toList.map (·.traces)).sum = r.workers.size * p.maxTraces := by
      rw [List.map_congr_left htraces, List.map_const', List.sum_replicate_nat,
        Array.length_toList]
    have hall : r.workers.size * p.maxTraces ≤ r.granted := by
      rw [← hsum]
      exact List.sum_le_sum fun w _ => w.traces_le_permits
    have hcast : (r.workers.size * p.maxTraces : ℚ) ≤ r.granted := by exact_mod_cast hall
    rw [div_le_iff₀ hrate]
    linarith

/-- A trace of a front end with one call for each worker. -/
def callPlan : Plan := ⟨Emitter.callEmitter, "1", 1⟩

def twoCallers : List (Worker Repeating ℚ) :=
  [{ id := 0, words := .ofList [1, 2, 3] }, { id := 1, words := .ofList [4, 5] }]

/-- Two workers who share one permit per second. -/
def oneASecond : Run Repeating ℚ ℚ :=
  Run.start twoCallers (.ofRate (some 1) 0) 0 (.still ⟨0⟩)

/-- The first worker has its permit at once, the second one has to wait. -/
def bothAsk : List (Label ℚ) := [.go 0, .go 0, .go 1, .go 1]

/-- The second worker waits for a second. -/
def oneAfterTheOther : List (Label ℚ) :=
  bothAsk ++ List.replicate 6 (Label.go 0) ++ Label.pass 1 :: List.replicate 7 (Label.go 1)

/-- The stop signal will fire after half a second. -/
def halfASecond : List (Label ℚ) := bothAsk ++ [Label.pass (1 / 2)]

/-- The second worker leaves the queue, the first one emits its trace. -/
def lastTrace : List (Label ℚ) := .go 1 :: List.replicate 6 (.go 0)

/-- Two traces at one per second take a second, no less; half a second has room for one. -/
theorem one_a_second_metered :
    (0 : ℚ) < 1 ∧ Fresh twoCallers ∧
      (∃ r, oneASecond.steps callPlan oneAfterTheOther = some r ∧ r.isOver = true ∧ r.now = 1 ∧
        ((2 : ℕ) * (1 : ℕ) - 1) / 1 ≤ r.now - 0) ∧
      (∃ r, oneASecond.steps callPlan (halfASecond ++ .stop :: lastTrace) = some r ∧
        r.isOver = true ∧ r.reported = 1 ∧ (r.reported : ℚ) ≤ 1 + 1 * (1 / 2 - 0)) := by
  have hfresh : Fresh twoCallers := ⟨by decide, by simp [twoCallers]⟩
  -- what has to be computed is how the two schedules come out
  have hend : (oneASecond.steps callPlan oneAfterTheOther).map
      (fun r => (r.isOver, r.now, r.workers.size)) = some (true, 1, 2) := by
    decide +kernel
  have hstop : (oneASecond.steps callPlan (halfASecond ++ .stop :: lastTrace)).map
      (fun r => (r.isOver, r.reported)) = some (true, 1) := by
    decide +kernel
  have hhalf : (oneASecond.steps callPlan halfASecond).map (·.now) = some (1 / 2) := by
    decide +kernel
  obtain ⟨r, hrun, hr⟩ := Option.map_eq_some_iff.1 hend
  obtain ⟨hover, hnow, hsize⟩ : r.isOver = true ∧ r.now = 1 ∧ r.workers.size = 2 := by
    simpa using hr
  obtain ⟨r₂, hrun₂, hr₂⟩ := Option.map_eq_some_iff.1 hstop
  obtain ⟨hover₂, hreported⟩ : r₂.isOver = true ∧ r₂.reported = 1 := by
    simpa using hr₂
  obtain ⟨r₁, hrun₁, hnow₁⟩ := Option.map_eq_some_iff.1 hhalf
  have hcomplete := (starts_metered one_pos hfresh hrun).complete Topology.call
    Topology.ofDescriptors_call rfl (by decide) (by decide) (by decide) hover
  have htimed := (starts_metered one_pos hfresh hrun₂).timed halfASecond lastTrace r₁ rfl
    (by decide +kernel) hrun₁
  rw [hsize] at hcomplete
  rw [hnow₁] at htimed
  exact ⟨one_pos, hfresh, ⟨r, hrun, hover, hnow, hcomplete⟩, r₂, hrun₂, hover₂, hreported, htimed⟩

end Run

end TraceLoad
