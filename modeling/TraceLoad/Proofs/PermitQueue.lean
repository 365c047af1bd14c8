import TraceLoad.Proofs.Debt

/-! # The queue for permits

Any number of callers share one limiter. `Queue.step` is all that can happen: a caller asks, and
has its permit at once or waits; a permit that is due is granted; a caller that waits gives up,
because it was cancelled or because nobody needs its answer any more; time passes. Time does not
pass a permit that is due, so every wait that is not given up ends exactly when it is due.

Callers are numbered in the order in which they ask. A caller that asks again is another caller.

`Step` says what a step does in terms of the turn of the caller that asks, and every invariant of
the queue is proved by its cases. The first one is `Sound`: the limiter's ledger is that of the
queue, and granted permits lie behind while those that are waited for lie ahead.
-/

namespace TraceLoad

/-- The permit of a caller, with the instant at which it was granted or is due. -/
structure Ticket where
  caller : ℕ
  time : ℚ
deriving DecidableEq

/-- Callers at a limiter. -/
structure Queue where
  limiter : Limiter ℚ ℚ
  now : ℚ
  /-- when the callers asked, in the order in which they did -/
  asked : List ℚ := []
  /-- the permits that were granted, the last one last -/
  granted : List Ticket := []
  /-- the permits that are waited for, in the order in which they were asked for -/
  waiting : List Ticket := []
  /-- how often a caller gave up in front of others, which were due after it -/
  desertions : ℕ := 0
deriving DecidableEq

namespace Queue

/-- What can happen next. -/
inductive Label where
  /-- a caller asks for a permit -/
  | ask
  /-- a wait is over -/
  | serve (ticket : Ticket)
  /-- a caller that waits is cancelled or dropped -/
  | leave (ticket : Ticket)
  /-- time passes -/
  | pass (later : ℚ)
deriving DecidableEq

/-- Nobody gives up. -/
def Label.IsPatient : Label → Prop
  | .leave _ => False
  | _ => True

/-- A limiter that nobody has asked. -/
def start (rate now : ℚ) : Queue where
  limiter := .ofRate (some rate) now
  now := now

/-- The next caller has its permit. -/
def grant (s : Queue) (limiter : Limiter ℚ ℚ) : Queue :=
  { s with
    limiter := limiter
    asked := s.asked ++ [s.now]
    granted := s.granted ++ [⟨s.asked.length, s.now⟩] }

/-- The next caller waits. -/
def enqueue (s : Queue) (limiter : Limiter ℚ ℚ) (due : ℚ) : Queue :=
  { s with
    limiter := limiter
    asked := s.asked ++ [s.now]
    waiting := s.waiting ++ [⟨s.asked.length, due⟩] }

/-- A caller that waits has its permit. -/
def serve (s : Queue) (w : Ticket) : Queue :=
  { s with waiting := s.waiting.erase w, granted := s.granted ++ [w] }

/-- A caller that waits gives up. -/
def leave (s : Queue) (w : Ticket) : Queue :=
  { s with
    limiter := s.limiter.giveBack
    waiting := s.waiting.erase w
    desertions := s.desertions + if ∃ v ∈ s.waiting, w.time < v.time then 1 else 0 }

/-- The state after a step, if the step can happen. -/
def step (s : Queue) : Label → Option Queue
  | .ask =>
    match s.limiter.acquire s.now with
    | (.granted, limiter) => some (s.grant limiter)
    | (.queued due, limiter) => some (s.enqueue limiter due)
  | .serve w => if w ∈ s.waiting ∧ w.time = s.now then some (s.serve w) else none
  | .leave w => if w ∈ s.waiting then some (s.leave w) else none
  | .pass later =>
    if s.now ≤ later ∧ ∀ w ∈ s.waiting, later ≤ w.time then some { s with now := later } else none

/-- The state after a schedule, if every step of it can happen. -/
def steps (s : Queue) : List Label → Option Queue
  | [] => some s
  | l :: ls =>
    match s.step l with
    | some s => s.steps ls
    | none => none

/-- A schedule is followed up to any point of it, and from there. -/
theorem steps_append {s s' : Queue} {ls : List Label} (h : s.steps ls = some s')
    (ls' : List Label) : s.steps (ls ++ ls') = s'.steps ls' := by
  induction ls generalizing s with
  | nil =>
    obtain rfl := Option.some.inj h
    rfl
  | cons l ls ih =>
    simp only [steps, List.cons_append] at h ⊢
    cases hstep : s.step l with
    | none => simp [hstep] at h
    | some s₁ =>
      rw [hstep] at h
      exact ih h

/-- All permits that are granted or waited for. -/
def permits (s : Queue) : List Ticket := s.granted ++ s.waiting

/-- How many permits have been granted from one instant to another one, both included. -/
def grantsIn (s : Queue) (a b : ℚ) : ℕ := s.granted.countP fun g => a ≤ g.time ∧ g.time ≤ b

/-! ## What a step does -/

/-- When a caller has its permit that asks now. -/
def turn (rate : ℚ) (s : Queue) : ℚ := s.limiter.bucket.turn rate s.now

/-- The limiter after a caller has asked. -/
def taken (rate : ℚ) (s : Queue) : Limiter ℚ ℚ :=
  { s.limiter with bucket := (s.limiter.bucket.refill rate s.now).take }

/-- The steps of a queue, by what they need and what they lead to. -/
inductive Step (rate : ℚ) (s : Queue) : Label → Queue → Prop where
  | grant (come : s.turn rate ≤ s.now) : Step rate s .ask (s.grant (s.taken rate))
  | enqueue (ahead : s.now < s.turn rate) :
      Step rate s .ask (s.enqueue (s.taken rate) (s.turn rate))
  | serve {w : Ticket} (mem : w ∈ s.waiting) (due : w.time = s.now) :
      Step rate s (.serve w) (s.serve w)
  | leave {w : Ticket} (mem : w ∈ s.waiting) : Step rate s (.leave w) (s.leave w)
  | pass {later : ℚ} (le : s.now ≤ later) (due : ∀ w ∈ s.waiting, later ≤ w.time) :
      Step rate s (.pass later) { s with now := later }

variable {rate begun : ℚ} {s s' : Queue} {l : Label} {ls : List Label}

theorem step_eq_some_iff (hrate : 0 < rate) (hlimiter : s.limiter.rate = some rate)
    (hlast : s.limiter.bucket.last ≤ s.now) : s.step l = some s' ↔ Step rate s l s' := by
  -- who asks is granted a permit or queued by what the limiter answers
  have hask : s.step .ask =
      some (if s.turn rate ≤ s.now then s.grant (s.taken rate)
        else s.enqueue (s.taken rate) (s.turn rate)) := by
    have hacquire : s.limiter.acquire s.now =
        (if s.turn rate ≤ s.now then .granted else .queued (s.turn rate), s.taken rate) :=
      Limiter.acquire_eq hrate hlimiter hlast
    by_cases hcome : s.turn rate ≤ s.now
    · rw [if_pos hcome] at hacquire ⊢
      simp only [step, hacquire]
    · rw [if_neg hcome] at hacquire ⊢
      simp only [step, hacquire]
  constructor
  · intro h
    cases l with
    | ask =>
      obtain rfl := Option.some.inj (hask.symm.trans h)
      split
      · next hcome => exact .grant hcome
      · next hahead => exact .enqueue (lt_of_not_ge hahead)
    | serve w =>
      simp only [step, Option.ite_none_right_eq_some, Option.some.injEq] at h
      obtain ⟨⟨hmem, hdue⟩, rfl⟩ := h
      exact .serve hmem hdue
    | leave w =>
      simp only [step, Option.ite_none_right_eq_some, Option.some.injEq] at h
      obtain ⟨hmem, rfl⟩ := h
      exact .leave hmem
    | pass later =>
      simp only [step, Option.ite_none_right_eq_some, Option.some.injEq] at h
      obtain ⟨⟨hle, hdue⟩, rfl⟩ := h
      exact .pass hle hdue
  · intro h
    cases h with
    | grant come => rw [hask, if_pos come]
    | enqueue ahead => rw [hask, if_neg (not_le_of_gt ahead)]
    | serve mem due => simp [step, mem, due]
    | leave mem => simp [step, mem]
    | pass le due => simp only [step, if_pos (And.intro le due)]

/-! ## Sound queues -/

/-- The limiter has kept its books about the callers of the queue, and nobody is overdue. -/
structure Sound (rate begun : ℚ) (s : Queue) : Prop where
  limited : s.limiter.rate = some rate
  begun_le : begun ≤ s.now
  tokens_le : s.limiter.bucket.tokens ≤ 1
  ledger : Ledger rate begun s.now s.limiter.bucket s.granted.length (s.waiting.map (·.time))
  past : ∀ g ∈ s.granted, g.time ≤ s.now
  ahead : ∀ w ∈ s.waiting, s.now ≤ w.time

/-- A queue is sound at the start, when nobody has asked. -/
theorem sound_start (hrate : 0 < rate) (begun : ℚ) : Sound rate begun (start rate begun) where
  limited := rfl
  begun_le := le_refl _
  tokens_le := le_refl _
  ledger := .ofFull hrate begun
  past := by simp [start]
  ahead := by simp [start]

namespace Sound

/-- In a sound queue the steps are those of `Step`. -/
theorem step_iff (hrate : 0 < rate) (h : Sound rate begun s) :
    s.step l = some s' ↔ Step rate s l s' :=
  step_eq_some_iff hrate h.limited h.ledger.last_le

/-- One step keeps a queue sound. -/
theorem next (hrate : 0 < rate) (h : Sound rate begun s) (hstep : Step rate s l s') :
    Sound rate begun s' := by
  cases hstep with
  | grant come =>
    -- the permit goes out at this moment, and a full token less is in the books
    refine ⟨h.limited, h.begun_le, Bucket.tokens_take_refill_le_one _ _ _, ?_, ?_, h.ahead⟩
    · have hledger := h.ledger.grant hrate come
      simpa [grant, taken] using hledger
    · exact List.forall_mem_append.2 ⟨h.past, List.forall_mem_singleton.2 (le_refl s.now)⟩
  | enqueue ahead =>
    -- the token is booked for the turn of the ticket, which lies ahead
    refine ⟨h.limited, h.begun_le, Bucket.tokens_take_refill_le_one _ _ _, ?_, h.past, ?_⟩
    · have hledger := h.ledger.queue hrate ahead
      simpa [enqueue, taken, turn] using hledger
    · exact List.forall_mem_append.2 ⟨h.ahead, List.forall_mem_singleton.2 ahead.le⟩
  | @serve w mem due =>
    -- the ticket moves from those who wait to those who have been granted
    refine ⟨h.limited, h.begun_le, h.tokens_le, ?_, ?_,
      fun v hv => h.ahead v (List.mem_of_mem_erase hv)⟩
    · have hledger := h.ledger.serve ((List.perm_cons_erase mem).map (·.time)) due.le
      simpa [Queue.serve] using hledger
    · exact List.forall_mem_append.2 ⟨h.past, List.forall_mem_singleton.2 due.le⟩
  | leave mem =>
    -- what had been booked for the ticket is given back
    exact ⟨h.limited, h.begun_le, Bucket.tokens_giveBack_le_one _,
      h.ledger.leave hrate ((List.perm_cons_erase mem).map (·.time)), h.past,
      fun v hv => h.ahead v (List.mem_of_mem_erase hv)⟩
  | pass le due =>
    exact ⟨h.limited, h.begun_le.trans le, h.tokens_le, h.ledger.pass le,
      fun g hg => (h.past g hg).trans le, due⟩

/-- What the steps of some kind keep in sound queues is kept by schedules of that kind. -/
theorem steps_keep (hrate : 0 < rate) {P : Queue → Prop} {Q : Label → Prop}
    (hkeep : ∀ {s l s'}, Sound rate begun s → Q l → Step rate s l s' → P s → P s')
    (hrun : s.steps ls = some s') (hls : ∀ l ∈ ls, Q l) (h : Sound rate begun s) (hP : P s) :
    Sound rate begun s' ∧ P s' := by
  induction ls generalizing s with
  | nil =>
    obtain rfl := Option.some.inj hrun
    exact ⟨h, hP⟩
  | cons l ls ih =>
    simp only [steps] at hrun
    cases hstep : s.step l with
    | none => simp [hstep] at hrun
    | some s₁ =>
      rw [hstep] at hrun
      -- soundness comes along, so that every step may use it
      have hfirst : Step rate s l s₁ := (h.step_iff hrate).1 hstep
      obtain ⟨hl, hrest⟩ := List.forall_mem_cons.1 hls
      exact ih hrun hrest (h.next hrate hfirst) (hkeep h hl hfirst hP)

/-- A queue is sound after any schedule. -/
theorem ofSteps (hrate : 0 < rate) (hrun : (start rate begun).steps ls = some s) :
    Sound rate begun s :=
  (steps_keep hrate (P := fun _ => True) (Q := fun _ => True) (fun _ _ _ _ => trivial) hrun
    (fun _ _ => trivial) (sound_start hrate begun) trivial).1

end Sound

/-- What every step keeps in sound queues holds after every schedule. -/
theorem holds_of_next (hrate : 0 < rate) {P : Queue → Prop} (hstart : P (start rate begun))
    (hnext : ∀ {s l s'}, Sound rate begun s → Step rate s l s' → P s → P s')
    (hrun : (start rate begun).steps ls = some s) : P s :=
  (Sound.steps_keep hrate (Q := fun _ => True) (fun hs _ hstep h => hnext hs hstep h) hrun
    (fun _ _ => trivial) (sound_start hrate begun) hstart).2

/-- A schedule in which callers do no more than wait. -/
structure Waits (s : Queue) (ls : List Label) (s' : Queue) : Prop where
  steps_eq : s.steps ls = some s'
  patient : ∀ l ∈ ls, l.IsPatient
  asked : s'.asked = s.asked
  limiter : s'.limiter = s.limiter
  permits : s'.permits.Perm s.permits

namespace Waits

theorem ofStep (hstep : s.step l = some s') (hl : l.IsPatient) (asked : s'.asked = s.asked)
    (limiter : s'.limiter = s.limiter) (permits : s'.permits.Perm s.permits) :
    Waits s [l] s' where
  steps_eq := by simp only [steps, hstep]
  patient := by simpa using hl
  asked := asked
  limiter := limiter
  permits := permits

theorem append {s'' : Queue} {ls' : List Label} (h : Waits s ls s') (h' : Waits s' ls' s'') :
    Waits s (ls ++ ls') s'' where
  steps_eq := (steps_append h.steps_eq ls').trans h'.steps_eq
  patient l hl := (List.mem_append.1 hl).elim (h.patient l) (h'.patient l)
  asked := h'.asked.trans h.asked
  limiter := h'.limiter.trans h.limiter
  permits := h'.permits.trans h.permits

/-- If nobody waits any more that is due at an instant, those that were due then have been granted
their permits. -/
theorem grantsIn_eq (h : Waits s ls s') {t : ℚ} (hrest : ∀ w ∈ s'.waiting, t < w.time) :
    s'.grantsIn t t = s.permits.countP fun p => t ≤ p.time ∧ p.time ≤ t := by
  have hnone : s'.waiting.countP (fun p => t ≤ p.time ∧ p.time ≤ t) = 0 := by
    rw [List.countP_eq_zero]
    intro w hw
    simpa using fun _ => hrest w hw
  rw [← h.permits.countP_eq, Queue.permits, List.countP_append, hnone, Nat.add_zero, grantsIn]

end Waits

namespace Sound

/-- Time passes as long as nobody is due. -/
theorem waits_pass (hrate : 0 < rate) (h : Sound rate begun s) {later : ℚ} (hle : s.now ≤ later)
    (hdue : ∀ w ∈ s.waiting, later ≤ w.time) :
    Waits s [.pass later] { s with now := later } :=
  .ofStep ((h.step_iff hrate).2 (.pass hle hdue)) trivial rfl rfl (.refl _)

/-- Who is due is served. -/
theorem waits_serve (hrate : 0 < rate) (h : Sound rate begun s) {w : Ticket} (hw : w ∈ s.waiting)
    (hdue : w.time = s.now) : Waits s [.serve w] (s.serve w) := by
  refine .ofStep ((h.step_iff hrate).2 (.serve hw hdue)) trivial rfl rfl ?_
  show (s.granted ++ [w] ++ s.waiting.erase w).Perm (s.granted ++ s.waiting)
  rw [List.append_assoc]
  exact ((List.perm_cons_erase hw).symm.append_left s.granted)

/-- Time can always pass: those that are due on the way are granted their permits. -/
theorem exists_reach (hrate : 0 < rate) (h : Sound rate begun s) {t : ℚ} (ht : s.now ≤ t) :
    ∃ ls s', Waits s ls s' ∧ Sound rate begun s' ∧ s'.now = t ∧ ∀ w ∈ s'.waiting, t < w.time := by
  induction hn : s.waiting.length generalizing s with
  | zero =>
    have hnone : s.waiting = [] := List.length_eq_zero_iff.1 hn
    have hdue : ∀ w ∈ s.waiting, t ≤ w.time := by simp [hnone]
    exact ⟨_, _, h.waits_pass hrate ht hdue, h.next hrate (.pass ht hdue), rfl, by simp [hnone]⟩
  | succ n ih =>
    by_cases hlate : ∀ w ∈ s.waiting, t < w.time
    · have hdue : ∀ w ∈ s.waiting, t ≤ w.time := fun w hw => (hlate w hw).le
      exact ⟨_, _, h.waits_pass hrate ht hdue, h.next hrate (.pass ht hdue), rfl, hlate⟩
    · -- the one that is due first is served first
      push Not at hlate
      obtain ⟨v, hv, hvt⟩ := hlate
      obtain ⟨w, hw, hmin⟩ :=
        s.waiting.toFinset.exists_min_image (·.time) ⟨v, List.mem_toFinset.2 hv⟩
      rw [List.mem_toFinset] at hw
      have hfirst : ∀ u ∈ s.waiting, w.time ≤ u.time :=
        fun u hu => hmin u (List.mem_toFinset.2 hu)
      have hpass := h.waits_pass hrate (h.ahead w hw) hfirst
      have hsound := h.next hrate (.pass (h.ahead w hw) hfirst)
      have hserve := hsound.waits_serve hrate hw rfl
      have hlength : (({ s with now := w.time } : Queue).serve w).waiting.length = n := by
        show (s.waiting.erase w).length = n
        rw [List.length_erase_of_mem hw, hn, Nat.add_sub_cancel]
      obtain ⟨ls, s', hwaits, hsound', hnow, hrest⟩ :=
        ih (hsound.next hrate (.serve hw rfl)) ((hfirst v hv).trans hvt) hlength
      exact ⟨_, s', (hpass.append hserve).append hwaits, hsound', hnow, hrest⟩

/-- Somebody can always ask. -/
theorem exists_ask (hrate : 0 < rate) (h : Sound rate begun s) :
    ∃ s', s.step .ask = some s' ∧ Sound rate begun s' ∧ s'.now = s.now ∧
      s'.asked = s.asked ++ [s.now] := by
  rcases le_or_gt (s.turn rate) s.now with hcome | hahead
  · exact ⟨_, (h.step_iff hrate).2 (.grant hcome), h.next hrate (.grant hcome), rfl, rfl⟩
  · exact ⟨_, (h.step_iff hrate).2 (.enqueue hahead), h.next hrate (.enqueue hahead), rfl, rfl⟩

/-- Further callers can ask at any later instants, up to one that is not before any of them. -/
theorem exists_asked (hrate : 0 < rate) (h : Sound rate begun s) {rs : List ℚ} {t : ℚ}
    (hrs : (s.now :: rs).Pairwise (· ≤ ·)) (ht : ∀ r ∈ s.now :: rs, r ≤ t) :
    ∃ ls s', s.steps ls = some s' ∧ (∀ l ∈ ls, l.IsPatient) ∧ s'.asked = s.asked ++ rs ∧
      s'.now = t ∧ Sound rate begun s' := by
  induction rs generalizing s with
  | nil =>
    rcases h.exists_reach hrate (ht s.now List.mem_cons_self) with ⟨ls, s', hwaits, hsound, hnow, -⟩
    refine ⟨ls, s', hwaits.steps_eq, hwaits.patient, ?_, hnow, hsound⟩
    rw [hwaits.asked, List.append_nil]
  | cons r rs ih =>
    rcases List.pairwise_cons.1 hrs with ⟨hnow, hrest⟩
    -- wait until the next request is due, ask, and go on with the others
    rcases h.exists_reach hrate (hnow r List.mem_cons_self) with ⟨ls, s₁, hwaits, hsound₁, rfl, -⟩
    rcases hsound₁.exists_ask hrate with ⟨s₂, hask, hsound₂, hnow₂, hasked₂⟩
    -- asking takes no time
    rw [← hnow₂] at hrest ht
    have hlater : ∀ r ∈ s₂.now :: rs, r ≤ t := by
      intro r hr
      exact ht r (List.mem_cons_of_mem _ hr)
    rcases ih hsound₂ hrest hlater with ⟨ls', s', hsteps, hpatient, hasked, hend, hsound⟩
    refine ⟨ls ++ .ask :: ls', s', ?_, ?_, ?_, hend, hsound⟩
    · rw [steps_append hwaits.steps_eq]
      simp only [steps, hask, hsteps]
    · intro l hl
      rcases List.mem_append.1 hl with hl | hl
      · exact hwaits.patient l hl
      · rcases List.mem_cons.1 hl with rfl | hl
        · trivial
        · exact hpatient l hl
    · rw [hasked, hasked₂, hwaits.asked, List.append_assoc, List.singleton_append]

/-- Further callers can ask at any later instants, and in the end all have their permits. -/
theorem exists_served (hrate : 0 < rate) (h : Sound rate begun s) {rs : List ℚ}
    (hrs : (s.now :: rs).Pairwise (· ≤ ·)) :
    ∃ ls s', s.steps ls = some s' ∧ (∀ l ∈ ls, l.IsPatient) ∧ s'.asked = s.asked ++ rs ∧
      s'.waiting = [] := by
  obtain ⟨t, ht⟩ := (s.now :: rs).toFinset.exists_le
  have hlast : ∀ r ∈ s.now :: rs, r ≤ t := by
    intro r hr
    exact ht r (List.mem_toFinset.2 hr)
  rcases h.exists_asked hrate hrs hlast with ⟨ls, s₁, hsteps, hpatient, hasked, rfl, hsound₁⟩
  -- from here on time only has to pass until everybody has been due
  obtain ⟨u, hu⟩ := (insert s₁.now (s₁.waiting.map (·.time)).toFinset).exists_le
  have hnow : s₁.now ≤ u := hu s₁.now (Finset.mem_insert_self _ _)
  rcases hsound₁.exists_reach hrate hnow with ⟨ls', s', hwaits, -, -, hrest⟩
  refine ⟨ls ++ ls', s', ?_, ?_, by rw [hwaits.asked, hasked], ?_⟩
  · rw [steps_append hsteps, hwaits.steps_eq]
  · intro l hl
    rcases List.mem_append.1 hl with hl | hl
    · exact hpatient l hl
    · exact hwaits.patient l hl
  · -- whoever still waits was there before, and `u` is not before anybody is due
    rw [List.eq_nil_iff_forall_not_mem]
    intro w hw
    rcases List.mem_append.1 (hwaits.permits.subset (List.mem_append_right _ hw)) with hg | hw'
    · exact absurd (hrest w hw) (not_lt.2 ((hsound₁.past w hg).trans hnow))
    · have hdue : w.time ≤ u := hu w.time
        (Finset.mem_insert_of_mem (List.mem_toFinset.2 (List.mem_map_of_mem hw')))
      exact absurd (hrest w hw) (not_lt.2 hdue)

end Sound

end Queue

end TraceLoad
