import TraceLoad.Proofs.Bursts

/-! # Permits at a steady pace

If nobody gives up, the limiter is no more than a pace: the first caller has its permit when it
asks, and any other one when it asks or one token's time after the one before it, whichever is
later (`pace`). There is no earlier way to keep permits that far apart in the order of the calls
(`paces_pace`), and a queue in which everybody waits hands out these permits and no others
(`Queue.Paced`).
-/

namespace TraceLoad

/-- When calls are granted after a permit that was granted at an instant. -/
def paceFrom (gap : ℚ) : ℚ → List ℚ → List ℚ
  | _, [] => []
  | g, r :: rs => max r (g + gap) :: paceFrom gap (max r (g + gap)) rs

/-- When calls are granted that come at certain instants. -/
def pace (gap : ℚ) : List ℚ → List ℚ
  | [] => []
  | r :: rs => r :: paceFrom gap r rs

/-- The instants `gs` are the earliest ones at which calls can be granted in their order, a gap
apart. -/
structure Paces (gap : ℚ) (rs gs : List ℚ) : Prop where
  notBefore : List.Forall₂ (· ≤ ·) rs gs
  spaced : gs.Pairwise (fun g g' => g + gap ≤ g')
  earliest : ∀ hs, List.Forall₂ (· ≤ ·) rs hs → hs.Pairwise (fun h h' => h + gap ≤ h') →
    List.Forall₂ (· ≤ ·) gs hs

variable {gap : ℚ}

/-- There is one turn for each request. -/
theorem length_paceFrom (gap g : ℚ) (rs : List ℚ) : (paceFrom gap g rs).length = rs.length := by
  induction rs generalizing g with
  | nil => rfl
  | cons r rs ih => simp only [paceFrom, List.length_cons, ih]

/-- A further call is granted after the last one. -/
theorem paceFrom_append_singleton (gap g : ℚ) (rs : List ℚ) (r : ℚ) :
    paceFrom gap g (rs ++ [r]) =
      paceFrom gap g rs ++ [max r ((paceFrom gap g rs).getLastD g + gap)] := by
  induction rs generalizing g with
  | nil => rfl
  | cons r' rs ih => simp only [List.cons_append, paceFrom, ih, List.getLastD_cons]

/-- The first call does not wait if no permit was granted shortly before. -/
theorem paceFrom_eq_pace {g : ℚ} {rs : List ℚ} (h : ∀ r ∈ rs, g + gap ≤ r) :
    paceFrom gap g rs = pace gap rs := by
  cases rs with
  | nil => rfl
  | cons r rs => rw [paceFrom, pace, max_eq_left (h r List.mem_cons_self)]

/-- All turns behind one are a gap away from it at least. -/
theorem add_le_of_mem_paceFrom (hgap : 0 ≤ gap) {g g' : ℚ} {rs : List ℚ}
    (h : g' ∈ paceFrom gap g rs) : g + gap ≤ g' := by
  induction rs generalizing g with
  | nil => simp [paceFrom] at h
  | cons r rs ih =>
    have hnext := le_max_right r (g + gap)
    rcases List.mem_cons.1 h with rfl | h
    · exact hnext
    · have hrest := ih h
      linarith

/-- The pace after a permit is the earliest one among those that come a gap after it. -/
theorem paces_paceFrom (hgap : 0 ≤ gap) (g : ℚ) (rs : List ℚ) :
    List.Forall₂ (· ≤ ·) rs (paceFrom gap g rs) ∧
      (paceFrom gap g rs).Pairwise (fun g g' => g + gap ≤ g') ∧
      ∀ hs, (∀ h ∈ hs, g + gap ≤ h) → List.Forall₂ (· ≤ ·) rs hs →
        hs.Pairwise (fun h h' => h + gap ≤ h') → List.Forall₂ (· ≤ ·) (paceFrom gap g rs) hs := by
  induction rs generalizing g with
  | nil =>
    refine ⟨.nil, .nil, ?_⟩
    intro hs _ hrs _
    cases hrs
    exact .nil
  | cons r rs ih =>
    obtain ⟨hnot, hspaced, hearliest⟩ := ih (max r (g + gap))
    refine ⟨.cons (le_max_left _ _) hnot,
      .cons (fun g' hg' => add_le_of_mem_paceFrom hgap hg') hspaced, ?_⟩
    intro hs hfirst hrs hpairs
    cases hrs with
    | @cons _ h _ hs hr hrs =>
      obtain ⟨hafter, hpairs⟩ := List.pairwise_cons.1 hpairs
      -- whoever keeps the gap cannot be faster with the first call, nor after it
      have hmax : max r (g + gap) ≤ h := max_le hr (hfirst h List.mem_cons_self)
      refine .cons hmax (hearliest hs ?_ hrs hpairs)
      intro h' hh'
      linarith [hafter h' hh']

/-- The pace is the earliest one. -/
theorem paces_pace (hgap : 0 ≤ gap) (rs : List ℚ) : Paces gap rs (pace gap rs) := by
  cases rs with
  | nil =>
    refine ⟨.nil, .nil, ?_⟩
    intro hs hrs _
    cases hrs
    exact .nil
  | cons r rs =>
    obtain ⟨hnot, hspaced, hearliest⟩ := paces_paceFrom hgap r rs
    refine ⟨.cons (le_refl r) hnot,
      .cons (fun g' hg' => add_le_of_mem_paceFrom hgap hg') hspaced, ?_⟩
    intro hs hrs hpairs
    cases hrs with
    | @cons _ h _ hs hr hrs =>
      -- any other schedule serves the first request no sooner, and so all behind it
      obtain ⟨hafter, hpairs⟩ := List.pairwise_cons.1 hpairs
      refine .cons hr (hearliest hs ?_ hrs hpairs)
      intro h' hh'
      linarith [hafter h' hh']

/-- The permits of callers that are granted theirs at certain instants. -/
def tickets (gs : List ℚ) : List Ticket := gs.zipIdx.map fun (g, n) => ⟨n, g⟩

theorem tickets_append_singleton (gs : List ℚ) (g : ℚ) :
    tickets (gs ++ [g]) = tickets gs ++ [⟨gs.length, g⟩] := by
  simp [tickets, List.zipIdx_append]

theorem map_time_tickets (gs : List ℚ) : (tickets gs).map (·.time) = gs := by
  simp [tickets, List.map_map, Function.comp_def]

namespace Queue

variable {rate begun : ℚ} {s s' : Queue} {l : Label} {ls : List Label}

/-- When the callers of a queue are granted their permits if nobody gives up. -/
def turns (rate begun : ℚ) (s : Queue) : List ℚ :=
  paceFrom (1 / rate) (begun - 1 / rate) s.asked

/-- A queue in which nobody has given up: the permits are those of the pace, in the order of the
calls, and the debt is paid off when the last of them is due. -/
structure Paced (rate begun : ℚ) (s : Queue) : Prop where
  begun_le : ∀ r ∈ s.asked, begun ≤ r
  permits : s.permits = tickets (s.turns rate begun)
  paidOff : s.limiter.bucket.paidOff rate = (s.turns rate begun).getLastD (begun - 1 / rate)
  loyal : s.desertions = 0

/-- Before anybody has asked the pace is kept. -/
theorem paced_start (rate begun : ℚ) : Paced rate begun (start rate begun) where
  begun_le := by simp [start]
  permits := rfl
  paidOff := rfl
  loyal := rfl

namespace Paced

theorem times (h : Paced rate begun s) : s.permits.map (·.time) = s.turns rate begun := by
  rw [h.permits, map_time_tickets]

/-- The last one in the queue is due when the debt is paid off. -/
theorem exists_last (h : Paced rate begun s) (hne : s.waiting ≠ []) :
    ∃ v ∈ s.waiting, v.time = s.limiter.bucket.paidOff rate := by
  refine ⟨s.waiting.getLast hne, List.getLast_mem hne, ?_⟩
  rw [h.paidOff, ← h.times, Queue.permits, List.getLastD_eq_getLast?, List.getLast?_map,
    List.getLast?_append, List.getLast?_eq_some_getLast hne]
  rfl

/-- The permits after a further call. -/
theorem turns_ask (h : Paced rate begun s) (hasked : s'.asked = s.asked ++ [s.now]) :
    s'.turns rate begun = s.turns rate begun ++ [s.turn rate] := by
  rw [turns, hasked, paceFrom_append_singleton, Queue.turn, Bucket.turn, h.paidOff]
  rfl

/-- If it is the turn of a new caller at once, nobody waits. -/
theorem waiting_eq_nil (hrate : 0 < rate) (hs : Sound rate begun s) (h : Paced rate begun s)
    (come : s.turn rate ≤ s.now) : s.waiting = [] := by
  by_contra hne
  obtain ⟨v, hv, htime⟩ := h.exists_last hne
  have hgap : 0 < 1 / rate := one_div_pos.2 hrate
  have hahead := hs.ahead v hv
  have hturn : s.limiter.bucket.paidOff rate + 1 / rate ≤ s.turn rate :=
    Bucket.paidOff_add_le_turn _ _ _
  linarith

/-- Whose permit is due is the first one in the queue. -/
theorem exists_waiting_eq_cons (hrate : 0 < rate) (hs : Sound rate begun s)
    (h : Paced rate begun s) {w : Ticket} (mem : w ∈ s.waiting) (due : w.time = s.now) :
    ∃ rest, s.waiting = w :: rest := by
  have hgap : 0 < 1 / rate := one_div_pos.2 hrate
  have hspaced : (s.permits.map (·.time)).Pairwise (fun g g' => g + 1 / rate ≤ g') := by
    rw [h.times]
    exact (paces_paceFrom hgap.le _ _).2.1
  obtain ⟨v, rest, hwaiting⟩ := List.exists_cons_of_ne_nil (List.ne_nil_of_mem mem)
  have hsub : (v :: rest).Sublist s.permits := by
    rw [Queue.permits, hwaiting]
    exact List.sublist_append_right _ _
  have hahead := hs.ahead v (hwaiting ▸ List.mem_cons_self)
  rcases List.mem_cons.1 (hwaiting ▸ mem) with rfl | hw
  · exact ⟨rest, hwaiting⟩
  · -- anybody else is due a gap after the first one, who is not overdue
    have hafter := (List.pairwise_cons.1 (hspaced.sublist (hsub.map _))).1 w.time
      (List.mem_map_of_mem hw)
    linarith

/-- A step of somebody who waits for his turn keeps the pace. -/
theorem next (hrate : 0 < rate) (hs : Sound rate begun s) (hl : l.IsPatient)
    (hstep : Step rate s l s') (h : Paced rate begun s) : Paced rate begun s' := by
  have hlength : (s.turns rate begun).length = s.asked.length := length_paceFrom _ _ _
  have hpaid : (s.taken rate).bucket.paidOff rate = s.turn rate :=
    Bucket.paidOff_take_refill hrate hs.ledger.last_le
  have hbegun : ∀ r ∈ s.asked ++ [s.now], begun ≤ r :=
    List.forall_mem_append.2 ⟨h.begun_le, List.forall_mem_singleton.2 hs.begun_le⟩
  cases hstep with
  | grant come =>
    -- a permit is granted at once if its turn has come, and then nobody waits
    have hnow : s.turn rate = s.now := le_antisymm come (Bucket.le_turn _ _ _)
    have hnone := h.waiting_eq_nil hrate hs come
    have hturns : (s.grant (s.taken rate)).turns rate begun = s.turns rate begun ++ [s.turn rate] :=
      h.turns_ask rfl
    refine ⟨hbegun, ?_, ?_, h.loyal⟩
    · rw [hturns, tickets_append_singleton, hlength, ← h.permits, hnow]
      simp [Queue.permits, grant, hnone]
    · rw [hturns, List.getLastD_concat]
      exact hpaid
  | enqueue ahead =>
    -- in the queue it has the next turn, which is what the bucket was asked for
    have hturns : (s.enqueue (s.taken rate) (s.turn rate)).turns rate begun =
        s.turns rate begun ++ [s.turn rate] := h.turns_ask rfl
    refine ⟨hbegun, ?_, ?_, h.loyal⟩
    · rw [hturns, tickets_append_singleton, hlength, ← h.permits]
      simp [Queue.permits, enqueue]
    · rw [hturns, List.getLastD_concat]
      exact hpaid
  | @serve w mem due =>
    -- who is served is the first that waits, so the permits stay in their order
    obtain ⟨rest, hwaiting⟩ := h.exists_waiting_eq_cons hrate hs mem due
    have hpermits : (s.serve w).permits = s.permits := by
      simp [Queue.permits, Queue.serve, hwaiting]
    exact ⟨h.begun_le, hpermits.trans h.permits, h.paidOff, h.loyal⟩
  | leave mem => exact hl.elim
  | pass le due => exact ⟨h.begun_le, h.permits, h.paidOff, h.loyal⟩

theorem ofSteps (hrate : 0 < rate) (hls : ∀ l ∈ ls, l.IsPatient)
    (hrun : (start rate begun).steps ls = some s) : Paced rate begun s :=
  (Sound.steps_keep hrate (fun hs hl hstep h => h.next hrate hs hl hstep) hrun hls
    (sound_start hrate begun) (paced_start rate begun)).2

theorem turns_eq (h : Paced rate begun s) : s.turns rate begun = pace (1 / rate) s.asked := by
  refine paceFrom_eq_pace fun r hr => ?_
  rw [sub_add_cancel]
  exact h.begun_le r hr

end Paced

/-- What callers see of the pace: the permits granted so far and those waited for are those of the
pace in the order of the calls, each at its instant, and no window holds more than the rate
allows. -/
structure KeepsPace (rate : ℚ) (s : Queue) : Prop where
  permits : s.granted ++ s.waiting = tickets (pace (1 / rate) s.asked)
  past : ∀ g ∈ s.granted, g.time ≤ s.now
  ahead : ∀ w ∈ s.waiting, s.now ≤ w.time
  window : ∀ a d, 0 ≤ d → (s.grantsIn a (a + d) : ℚ) ≤ 1 + rate * d

theorem keepsPace_ofSteps (hrate : 0 < rate) (hls : ∀ l ∈ ls, l.IsPatient)
    (hrun : (start rate begun).steps ls = some s) : KeepsPace rate s where
  permits := by
    have hpaced := Paced.ofSteps hrate hls hrun
    rw [← hpaced.turns_eq]
    exact hpaced.permits
  past := (Sound.ofSteps hrate hrun).past
  ahead := (Sound.ofSteps hrate hrun).ahead
  window a d hd := by
    have hspread := IsSpread.ofSteps hrate hrun
    have hwindow := hspread.grantsIn_le (le_add_of_nonneg_right hd : a ≤ a + d)
    -- nobody leaves in such a schedule
    have hloyal := (Paced.ofSteps hrate hls hrun).loyal
    rw [hloyal, Nat.cast_zero, add_zero, add_sub_cancel_left] at hwindow
    exact hwindow

/-- If nobody gives up, callers are granted their permits at the pace of the rate, in the order in
which they asked; further ones can ask at any later instants, and all are granted theirs; and the
pace is the earliest one that keeps permits one token's time apart. -/
theorem grants_keep_pace (hrate : 0 < rate) (begun : ℚ) :
    (∀ ls s, (∀ l ∈ ls, l.IsPatient) → (start rate begun).steps ls = some s →
      KeepsPace rate s ∧
        ∀ rs, (s.now :: rs).Pairwise (· ≤ ·) → ∃ ls' s', (∀ l ∈ ls', l.IsPatient) ∧
          s.steps ls' = some s' ∧ s'.asked = s.asked ++ rs ∧
          s'.granted = tickets (pace (1 / rate) (s.asked ++ rs))) ∧
      ∀ rs, Paces (1 / rate) rs (pace (1 / rate) rs) := by
  constructor
  · intro ls s hls hrun
    refine ⟨keepsPace_ofSteps hrate hls hrun, ?_⟩
    intro rs hrs
    obtain ⟨ls', s', hsteps, hpatient, hasked, hnone⟩ :=
      (Sound.ofSteps hrate hrun).exists_served hrate hrs
    -- what has happened so far and what serves the rest are one schedule
    have hall : ∀ l ∈ ls ++ ls', l.IsPatient :=
      fun l hl => (List.mem_append.1 hl).elim (hls l) (hpatient l)
    have hpermits := (keepsPace_ofSteps hrate hall ((steps_append hrun ls').trans hsteps)).permits
    rw [hnone, List.append_nil, hasked] at hpermits
    exact ⟨ls', s', hpatient, hsteps, hasked, hpermits⟩
  · exact paces_pace (one_div_pos.2 hrate).le

/-- Of three requests at a rate of two the second waits half a second and the third a whole one. -/
theorem pace_of_three : (0 : ℚ) < 2 ∧ ∃ s,
    (start 2 0).steps [.ask, .ask, .pass (1 / 4), .ask, .pass (1 / 2), .serve ⟨1, 1 / 2⟩] = some s ∧
      s.granted = [⟨0, 0⟩, ⟨1, 1 / 2⟩] ∧ s.waiting = [⟨2, 1⟩] ∧ KeepsPace 2 s := by
  have hrun : ((start 2 0).steps
      [.ask, .ask, .pass (1 / 4), .ask, .pass (1 / 2), .serve ⟨1, 1 / 2⟩]).map
        (fun s => (s.granted, s.waiting)) = some ([⟨0, 0⟩, ⟨1, 1 / 2⟩], [⟨2, 1⟩]) := by
    decide +kernel
  obtain ⟨s, hs, hpermits⟩ := Option.map_eq_some_iff.1 hrun
  obtain ⟨hgranted, hwaiting⟩ := Prod.mk.inj hpermits
  have hpatient : ∀ l ∈ [Label.ask, .ask, .pass (1 / 4), .ask, .pass (1 / 2), .serve ⟨1, 1 / 2⟩],
      l.IsPatient := by simp [Label.IsPatient]
  exact ⟨by norm_num, s, hs, hgranted, hwaiting,
    ((grants_keep_pace (by norm_num) 0).1 _ s hpatient hs).1⟩

end Queue

end TraceLoad
