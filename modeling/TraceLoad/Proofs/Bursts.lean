import TraceLoad.Proofs.PermitQueue

/-! # How many permits are granted in a while

As long as only the last one in the queue gives up, permits are granted at least one token's time
apart. A caller that gives up in front of others hands its token back, but those behind it keep
their turns; so the next caller is told the turn of one of those, and two permits are granted at
once. Each time this happens a window of time may hold one permit more (`Spread`), and it takes
no more than one such time until a window does (`Queue.Sound.exists_burst`).
-/

namespace TraceLoad

/-- Permits are spread over time, with some exceptions: how many there are from an instant on and
how many there are in a window, if the limiter has paid its debt at an instant. -/
structure Spread (rate paid : ℚ) (times : List ℚ) (exceptions : ℕ) : Prop where
  tail : ∀ a, (times.countP (a ≤ ·) : ℚ) ≤ max 0 (1 + rate * (paid - a)) + exceptions
  window : ∀ a b, a ≤ b →
    (times.countP (fun t => a ≤ t ∧ t ≤ b) : ℚ) ≤ 1 + rate * (b - a) + exceptions

namespace Spread

variable {rate paid paid' t : ℚ} {times times' : List ℚ} {exceptions : ℕ}

theorem nil (hrate : 0 < rate) (paid : ℚ) : Spread rate paid [] 0 where
  tail a := by simp
  window a b hab := by
    have hnonneg : 0 ≤ rate * (b - a) := mul_nonneg hrate.le (sub_nonneg.2 hab)
    simp only [List.countP_nil, Nat.cast_zero]
    linarith

/-- The order of the times makes no difference. -/
theorem perm (h : Spread rate paid times exceptions) (hperm : times'.Perm times) :
    Spread rate paid times' exceptions where
  tail a := by
    rw [hperm.countP_eq]
    exact h.tail a
  window a b hab := by
    rw [hperm.countP_eq]
    exact h.window a b hab

/-- The permits that there are from an instant on when one more is given away. -/
theorem tail_add (hrate : 0 < rate) (h : Spread rate paid times exceptions)
    (ht : paid + 1 / rate ≤ t) {a : ℚ} (hat : a ≤ t) :
    (times.countP (a ≤ ·) + 1 : ℚ) ≤ 1 + rate * (t - a) + exceptions := by
  have htail := h.tail a
  have hone : rate * (1 / rate) = 1 := mul_one_div_cancel hrate.ne'
  have hgap : rate * (paid + 1 / rate) ≤ rate * t := mul_le_mul_of_nonneg_left ht hrate.le
  have hnonneg : 0 ≤ rate * (t - a) := mul_nonneg hrate.le (sub_nonneg.2 hat)
  have hmax : max 0 (1 + rate * (paid - a)) ≤ rate * (t - a) := max_le hnonneg (by linarith)
  linarith

/-- A permit is given away that is due one token after the debt, or later. -/
theorem add (hrate : 0 < rate) (h : Spread rate paid times exceptions)
    (ht : paid + 1 / rate ≤ t) : Spread rate t (t :: times) exceptions where
  tail a := by
    rcases le_or_gt a t with hat | hat
    · -- the new time is among those that are counted
      have hadd := h.tail_add hrate ht hat
      have hmax := le_max_right 0 (1 + rate * (t - a))
      rw [List.countP_cons_of_pos (by simpa using hat)]
      push_cast
      linarith
    · have htail := h.tail a
      have hgap : 0 < 1 / rate := one_div_pos.2 hrate
      have hpaid : rate * (paid - a) ≤ rate * (t - a) :=
        mul_le_mul_of_nonneg_left (by linarith) hrate.le
      have hmax : max 0 (1 + rate * (paid - a)) ≤ max 0 (1 + rate * (t - a)) :=
        max_le_max_left 0 (by linarith)
      rw [List.countP_cons_of_neg (by simpa using hat)]
      linarith
  window a b hab := by
    -- a window that holds the new time has no more in it than the tail from its start on
    by_cases hin : a ≤ t ∧ t ≤ b
    · have hadd := h.tail_add hrate ht hin.1
      have hle : times.countP (fun t => a ≤ t ∧ t ≤ b) ≤ times.countP (a ≤ ·) :=
        List.countP_mono_left (by simp_all)
      have hcast : (times.countP (fun t => a ≤ t ∧ t ≤ b) : ℚ) ≤ times.countP (a ≤ ·) := by
        exact_mod_cast hle
      have hend : rate * (t - a) ≤ rate * (b - a) :=
        mul_le_mul_of_nonneg_left (by linarith) hrate.le
      rw [List.countP_cons_of_pos (by simpa using hin)]
      push_cast
      linarith
    · rw [List.countP_cons_of_neg (by simpa using hin)]
      exact h.window a b hab

/-- Handing a token back takes at most one permit off the bound. -/
theorem max_giveBack_le (hrate : 0 < rate) (hpaid : paid - 1 / rate ≤ paid') (a : ℚ) :
    max 0 (1 + rate * (paid - a)) ≤ max 0 (1 + rate * (paid' - a)) + 1 := by
  have hone : rate * (1 / rate) = 1 := mul_one_div_cancel hrate.ne'
  have hback : rate * (paid - 1 / rate) ≤ rate * paid' := mul_le_mul_of_nonneg_left hpaid hrate.le
  have hzero := le_max_left 0 (1 + rate * (paid' - a))
  have hsome := le_max_right 0 (1 + rate * (paid' - a))
  exact max_le (by linarith) (by linarith)

/-- A window over fewer times holds no more of them. -/
theorem window_remove (h : Spread rate paid times exceptions) (htimes : times.Perm (t :: times'))
    {a b : ℚ} (hab : a ≤ b) :
    (times'.countP (fun t => a ≤ t ∧ t ≤ b) : ℚ) ≤ 1 + rate * (b - a) + exceptions := by
  have hwindow := h.window a b hab
  have hle : times'.countP (fun t => a ≤ t ∧ t ≤ b) ≤ times.countP (fun t => a ≤ t ∧ t ≤ b) := by
    rw [htimes.countP_eq]
    exact (List.sublist_cons_self t times').countP_le
  have hcast : (times'.countP (fun t => a ≤ t ∧ t ≤ b) : ℚ) ≤
      times.countP (fun t => a ≤ t ∧ t ≤ b) := by exact_mod_cast hle
  linarith

/-- The last permit is handed back, and nothing is left of it. -/
theorem removeLast (hrate : 0 < rate) (h : Spread rate paid times exceptions)
    (htimes : times.Perm (t :: times')) (hlast : ∀ u ∈ times', u ≤ t)
    (hpaid : paid - 1 / rate ≤ paid') : Spread rate paid' times' exceptions where
  tail a := by
    rcases le_or_gt a t with hat | hat
    · have htail := h.tail a
      have hmax := max_giveBack_le hrate hpaid a
      rw [htimes.countP_eq, List.countP_cons_of_pos (by simpa using hat)] at htail
      push_cast at htail
      linarith
    · -- from here on there was no permit but the last one
      have hnone : times'.countP (a ≤ ·) = 0 := by
        rw [List.countP_eq_zero]
        intro u hu
        simpa using (hlast u hu).trans_lt hat
      have hzero := le_max_left 0 (1 + rate * (paid' - a))
      have hexceptions : (0 : ℚ) ≤ exceptions := Nat.cast_nonneg _
      rw [hnone, Nat.cast_zero]
      linarith
  window a b hab := h.window_remove htimes hab

/-- A permit is handed back from the middle, which makes one exception. -/
theorem remove (hrate : 0 < rate) (h : Spread rate paid times exceptions)
    (htimes : times.Perm (t :: times')) (hpaid : paid - 1 / rate ≤ paid') :
    Spread rate paid' times' (exceptions + 1) where
  tail a := by
    -- from the permit on there are still as many as before, but the debt ends earlier
    have htail := h.tail a
    have hmax := max_giveBack_le hrate hpaid a
    have hle : times'.countP (a ≤ ·) ≤ times.countP (a ≤ ·) := by
      rw [htimes.countP_eq]
      exact (List.sublist_cons_self t times').countP_le
    have hcast : (times'.countP (a ≤ ·) : ℚ) ≤ times.countP (a ≤ ·) := by exact_mod_cast hle
    push_cast
    linarith
  window a b hab := by
    have hwindow := h.window_remove htimes hab
    push_cast
    linarith

end Spread

namespace Queue

variable {rate begun : ℚ} {s s' : Queue} {l : Label} {ls : List Label}

/-- The permits of a queue are spread over time, with one exception for each desertion. -/
def IsSpread (rate : ℚ) (s : Queue) : Prop :=
  Spread rate (s.limiter.bucket.paidOff rate) (s.permits.map (·.time)) s.desertions

theorem isSpread_start (hrate : 0 < rate) (begun : ℚ) : (start rate begun).IsSpread rate :=
  Spread.nil hrate _

/-- A ticket is still there when one that was due before it is taken out. -/
theorem mem_erase_of_time_lt {v w : Ticket} {ts : List Ticket} (hv : v ∈ ts)
    (hlt : w.time < v.time) : v ∈ ts.erase w :=
  (List.mem_erase_of_ne fun heq => hlt.ne (congrArg Ticket.time heq.symm)).2 hv

namespace IsSpread

/-- The bound for windows holds for the permits that have been granted so far. -/
theorem grantsIn_le (h : s.IsSpread rate) {a b : ℚ} (hab : a ≤ b) :
    (s.grantsIn a b : ℚ) ≤ 1 + rate * (b - a) + s.desertions := by
  have hwindow := h.window a b hab
  have hle : s.grantsIn a b ≤ (s.permits.map (·.time)).countP (fun t => a ≤ t ∧ t ≤ b) := by
    rw [List.countP_map]
    exact (List.sublist_append_left s.granted s.waiting).countP_le
  have hcast : (s.grantsIn a b : ℚ) ≤
      (s.permits.map (·.time)).countP (fun t => a ≤ t ∧ t ≤ b) := by exact_mod_cast hle
  linarith

/-- One step keeps the permits spread, but for those who leave others behind. -/
theorem next (hrate : 0 < rate) (hs : Sound rate begun s) (hstep : Step rate s l s')
    (h : s.IsSpread rate) : s'.IsSpread rate := by
  have hpaid : (s.taken rate).bucket.paidOff rate = s.turn rate :=
    Bucket.paidOff_take_refill hrate hs.ledger.last_le
  have hturn : s.limiter.bucket.paidOff rate + 1 / rate ≤ s.turn rate :=
    Bucket.paidOff_add_le_turn _ _ _
  have hadd := Spread.add hrate h hturn
  cases hstep with
  | grant come =>
    have hnow : s.turn rate = s.now := le_antisymm come (Bucket.le_turn _ _ _)
    have hpermits : (s.grant (s.taken rate)).permits.Perm
        (⟨s.asked.length, s.turn rate⟩ :: s.permits) := by
      rw [hnow]
      simp [permits, grant]
    show Spread rate ((s.taken rate).bucket.paidOff rate) _ s.desertions
    rw [hpaid]
    exact hadd.perm (hpermits.map (·.time))
  | enqueue ahead =>
    have hpermits : (s.enqueue (s.taken rate) (s.turn rate)).permits.Perm
        (⟨s.asked.length, s.turn rate⟩ :: s.permits) := by
      show (s.granted ++ (s.waiting ++ [_])).Perm _
      rw [← List.append_assoc]
      exact List.perm_append_singleton _ _
    show Spread rate ((s.taken rate).bucket.paidOff rate) _ s.desertions
    rw [hpaid]
    exact hadd.perm (hpermits.map (·.time))
  | serve mem due => exact h.perm ((hs.waits_serve hrate mem due).permits.map (·.time))
  | @leave w mem =>
    have hback : s.limiter.bucket.paidOff rate - 1 / rate ≤
        (s.leave w).limiter.bucket.paidOff rate := by
      show _ ≤ s.limiter.bucket.giveBack.paidOff rate
      rw [Bucket.paidOff_giveBack hrate]
      exact le_max_left _ _
    have hpermits : s.permits.Perm (w :: (s.leave w).permits) :=
      ((List.perm_cons_erase mem).append_left s.granted).trans List.perm_middle
    by_cases hbehind : ∃ v ∈ s.waiting, w.time < v.time
    · have hone : (s.leave w).desertions = s.desertions + 1 := by
        show s.desertions + _ = _
        rw [if_pos hbehind]
      rw [IsSpread, hone]
      exact Spread.remove hrate h (hpermits.map (·.time)) hback
    · have hnone : (s.leave w).desertions = s.desertions := by
        show s.desertions + _ = _
        rw [if_neg hbehind, Nat.add_zero]
      -- everybody else has its permit already or is due no later
      have hlast : ∀ u ∈ (s.leave w).permits.map (·.time), u ≤ w.time := by
        push Not at hbehind
        intro u hu
        obtain ⟨p, hp, rfl⟩ := List.mem_map.1 hu
        rcases List.mem_append.1 hp with hp | hp
        · exact (hs.past p hp).trans (hs.ahead w mem)
        · exact hbehind p (List.mem_of_mem_erase hp)
      rw [IsSpread, hnone]
      exact Spread.removeLast hrate h (hpermits.map (·.time)) hlast hback
  | pass le due => exact h

theorem ofSteps (hrate : 0 < rate) (hrun : (start rate begun).steps ls = some s) :
    s.IsSpread rate :=
  holds_of_next hrate (isSpread_start hrate begun) (fun hs hstep h => h.next hrate hs hstep) hrun

/-- While nobody has given up in front of others, permits are one token's time apart. -/
theorem add_le_of_lt (hrate : 0 < rate) (h : s.IsSpread rate) (hloyal : s.desertions = 0)
    {v w : Ticket} (hv : v ∈ s.permits) (hw : w ∈ s.permits) (hlt : w.time < v.time) :
    w.time + 1 / rate ≤ v.time := by
  have hwindow := h.window w.time v.time hlt.le
  -- both tickets lie in the window between them, and one of them is its own exception
  have hone : 1 ≤ (s.permits.erase w).countP (fun p => w.time ≤ p.time ∧ p.time ≤ v.time) :=
    List.countP_pos_iff.2 ⟨v, mem_erase_of_time_lt hv hlt, by simpa using hlt.le⟩
  have htwo : 2 ≤ s.permits.countP (fun p => w.time ≤ p.time ∧ p.time ≤ v.time) := by
    rw [(List.perm_cons_erase hw).countP_eq, List.countP_cons_of_pos (by simpa using hlt.le)]
    omega
  have hcast : (2 : ℚ) ≤ (s.permits.map (·.time)).countP (fun t => w.time ≤ t ∧ t ≤ v.time) := by
    rw [List.countP_map]
    exact_mod_cast htwo
  have hrest : 1 ≤ rate * (v.time - w.time) := by
    rw [hloyal, Nat.cast_zero] at hwindow
    linarith
  have hgap : 1 / rate ≤ v.time - w.time := (div_le_iff₀' hrate).2 hrest
  linarith

/-- While nobody has given up in front of others, the debt is paid off when the last permit is
due. -/
theorem paidOff_eq (hs : Sound rate begun s) (hrate : 0 < rate) (h : s.IsSpread rate)
    (hloyal : s.desertions = 0) {v : Ticket} (hv : v ∈ s.waiting)
    (hmax : ∀ u ∈ s.waiting, u.time ≤ v.time) : s.limiter.bucket.paidOff rate = v.time := by
  apply le_antisymm
  · -- nobody is due later, so nothing is owed then
    have hcovered := hs.ledger.covered v.time (hs.ahead v hv)
    have hnone : (s.waiting.map (·.time)).countP (v.time < ·) = 0 := by
      rw [List.countP_map, List.countP_eq_zero]
      intro u hu
      simpa using hmax u hu
    rw [hnone, Nat.cast_zero] at hcovered
    exact sub_nonpos.1 (nonpos_of_mul_nonpos_left hcovered hrate)
  · -- a permit is due then, so its token has been booked
    have htail := h.tail v.time
    have hone : 1 ≤ (s.permits.map (·.time)).countP (v.time ≤ ·) := by
      rw [List.countP_map]
      exact List.countP_pos_iff.2 ⟨v, List.mem_append_right _ hv, by simp⟩
    have hcast : (1 : ℚ) ≤ (s.permits.map (·.time)).countP (v.time ≤ ·) := by exact_mod_cast hone
    have hsome : 1 ≤ max 0 (1 + rate * (s.limiter.bucket.paidOff rate - v.time)) := by
      rw [hloyal, Nat.cast_zero] at htail
      linarith
    rcases le_max_iff.1 hsome with hzero | hpaid
    · linarith
    · have hnonneg : 0 ≤ rate * (s.limiter.bucket.paidOff rate - v.time) := by linarith
      exact sub_nonneg.1 ((mul_nonneg_iff_of_pos_left hrate).1 hnonneg)

end IsSpread

namespace Sound

/-- When a caller gives up in front of others its token comes back, but the last one in the queue
keeps its turn. It is now that of the next caller as well. -/
theorem turn_leave (hrate : 0 < rate) (hs : Sound rate begun s) (h : s.IsSpread rate)
    (hloyal : s.desertions = 0) {v w : Ticket} (hv : v ∈ s.waiting) (hw : w ∈ s.waiting)
    (hlast : ∀ u ∈ s.waiting, u.time ≤ v.time) (hlt : w.time < v.time) :
    (s.leave w).turn rate = v.time := by
  have hgap : w.time + 1 / rate ≤ v.time :=
    h.add_le_of_lt hrate hloyal (List.mem_append_right _ hv) (List.mem_append_right _ hw) hlt
  have hahead := hs.ahead w hw
  have hbucket := hs.ledger.last_le
  -- the bucket is paid off a token sooner, which is a token before the last deadline
  have hpaid : s.limiter.bucket.giveBack.paidOff rate = v.time - 1 / rate := by
    rw [Bucket.paidOff_giveBack hrate, h.paidOff_eq hs hrate hloyal hv hlast]
    exact max_eq_left (by linarith)
  show max s.now (s.limiter.bucket.giveBack.paidOff rate + 1 / rate) = v.time
  rw [hpaid, sub_add_cancel]
  exact max_eq_right (by linarith)

/-- Once a caller has given up in front of others, the next one may be granted its permit together
with the last of them. -/
theorem exists_burst (hrate : 0 < rate) (hs : Sound rate begun s) (h : s.IsSpread rate)
    (hloyal : s.desertions = 0) {w : Ticket} (hw : w ∈ s.waiting)
    (hbehind : ∃ v ∈ s.waiting, w.time < v.time) :
    ∃ ls s' a, (s.leave w).steps ls = some s' ∧ 1 < s'.grantsIn a a := by
  obtain ⟨u, hu, hwu⟩ := hbehind
  obtain ⟨v, hv, hmax⟩ :=
    s.waiting.toFinset.exists_max_image (·.time) ⟨u, List.mem_toFinset.2 hu⟩
  rw [List.mem_toFinset] at hv
  have hlast : ∀ u ∈ s.waiting, u.time ≤ v.time := fun u hu => hmax u (List.mem_toFinset.2 hu)
  have hlt : w.time < v.time := hwu.trans_le (hlast u hu)
  have hahead : s.now < v.time := (hs.ahead w hw).trans_lt hlt
  have hturn := hs.turn_leave hrate h hloyal hv hw hlast hlt
  -- the next caller asks at once, and all wait until the last one is due
  have hsound := hs.next hrate (.leave hw)
  have hask : Step rate (s.leave w) .ask
      ((s.leave w).enqueue ((s.leave w).taken rate) ((s.leave w).turn rate)) :=
    .enqueue (hturn ▸ hahead)
  obtain ⟨ls, s', hwaits, -, -, hrest⟩ := (hsound.next hrate hask).exists_reach hrate hahead.le
  refine ⟨.ask :: ls, s', v.time, ?_, ?_⟩
  · simp only [steps, (hsound.step_iff hrate).2 hask]
    exact hwaits.steps_eq
  · let due : Ticket → Bool := fun p => v.time ≤ p.time ∧ p.time ≤ v.time
    have hone : 1 ≤ (s.waiting.erase w).countP due :=
      List.countP_pos_iff.2 ⟨v, mem_erase_of_time_lt hv hlt, by simp [due]⟩
    have hnew : [(⟨s.asked.length, (s.leave w).turn rate⟩ : Ticket)].countP due = 1 := by
      rw [List.countP_singleton, hturn, if_pos (by simp [due])]
    have hsplit : s'.grantsIn v.time v.time =
        s.granted.countP due + ((s.waiting.erase w).countP due + 1) := by
      rw [hwaits.grantsIn_eq hrest, ← hnew, ← List.countP_append, ← List.countP_append]
      rfl
    omega

end Sound

/-- A window holds no more permits than the rate allows, and one more at most for every time a
caller gave up in front of others. That nobody does is also needed: as soon as somebody does, the
queue can go on so that two permits are granted at one instant. -/
theorem grants_spaced_unless_deserted (hrate : 0 < rate)
    (hrun : (start rate begun).steps ls = some s) :
    (∀ a d, 0 ≤ d → (s.grantsIn a (a + d) : ℚ) ≤ 1 + rate * d + s.desertions) ∧
      (s.desertions = 0 → ∀ w s', s.step (.leave w) = some s' → s'.desertions = 1 →
        ∃ ls' s'' a, s'.steps ls' = some s'' ∧ 1 < s''.grantsIn a a) := by
  have hsound := Sound.ofSteps hrate hrun
  have hspread := IsSpread.ofSteps hrate hrun
  constructor
  · intro a d hd
    have hle := hspread.grantsIn_le (le_add_of_nonneg_right hd : a ≤ a + d)
    rwa [add_sub_cancel_left] at hle
  · intro hloyal w s' hleave hone
    cases (hsound.step_iff hrate).1 hleave with
    | leave hw =>
      -- only with somebody behind it is one who leaves a deserter
      have hbehind : ∃ v ∈ s.waiting, w.time < v.time := by
        by_contra hnone
        have hzero : (s.leave w).desertions = s.desertions + 0 := by rw [leave, if_neg hnone]
        omega
      exact hsound.exists_burst hrate hspread hloyal hw hbehind

/-- Of four callers at one permit a second the second one gives up in front of the third one, and
the fourth one is then given the turn of the third one. -/
def crowd : List Label :=
  [.ask, .ask, .ask, .pass (1 / 4), .leave ⟨1, 1⟩, .pass (1 / 2), .ask, .pass 2, .serve ⟨2, 2⟩,
    .serve ⟨3, 2⟩]

/-- Of the crowd two get a permit at the same moment, which one desertion allows. -/
theorem crowd_two_more : (0 : ℚ) < 1 ∧ ∃ s, (start 1 0).steps crowd = some s ∧
    s.grantsIn 2 (2 + 0) = 2 ∧ (s.grantsIn 2 (2 + 0) : ℚ) ≤ 1 + 1 * 0 + s.desertions := by
  have hrun : ((start 1 0).steps crowd).map (·.grantsIn 2 (2 + 0)) = some 2 := by decide +kernel
  obtain ⟨s, hs, htwo⟩ := Option.map_eq_some_iff.1 hrun
  exact ⟨by norm_num, s, hs, htwo,
    (grants_spaced_unless_deserted (by norm_num) hs).1 2 0 (le_refl 0)⟩

/-- The rate alone does not bound the permits in a window. -/
theorem crowd_exceeds_rate : ¬ ∀ (rate begun : ℚ) (ls : List Label) (s : Queue) (a d : ℚ),
    0 < rate → 0 ≤ d → (start rate begun).steps ls = some s →
      (s.grantsIn a (a + d) : ℚ) ≤ 1 + rate * d := by
  intro h
  have hrun : ((start 1 0).steps crowd).map (·.grantsIn 2 (2 + 0)) = some 2 := by decide +kernel
  obtain ⟨s, hs, htwo⟩ := Option.map_eq_some_iff.1 hrun
  have hle := h 1 0 crowd s 2 0 (by norm_num) (le_refl 0) hs
  rw [htwo] at hle
  norm_num at hle

end Queue

end TraceLoad
