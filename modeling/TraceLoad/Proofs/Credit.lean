import TraceLoad.Proofs.PermitQueue

/-! # What callers may have on credit

Whoever gives up, and however often: the bucket never holds more than one token, there are never
more permits than tokens have come in since the beginning, and nobody waits for more tokens than
those of the callers that wait at that moment. The tokens at a moment are those that are there when
they are counted at that moment (`Bucket.refill`); the number that is kept is as old as the last
call.
-/

namespace TraceLoad

/-- An answer tells the turn of the caller. -/
theorem Limiter.time_acquire {rate now : ℚ} {l : Limiter ℚ ℚ} (hrate : 0 < rate)
    (hl : l.rate = some rate) (hlast : l.bucket.last ≤ now) :
    (l.acquire now).1.time now = l.bucket.turn rate now := by
  rw [Limiter.acquire_eq hrate hl hlast]
  by_cases hcome : l.bucket.turn rate now ≤ now
  · rw [if_pos hcome]
    exact (le_antisymm hcome (Bucket.le_turn _ _ _)).symm
  · rw [if_neg hcome]
    rfl

/-- Handing a token back delays nobody. -/
theorem Bucket.turn_giveBack_le {rate now : ℚ} {b : Bucket ℚ ℚ} (hrate : 0 < rate)
    (hlast : b.last ≤ now) : b.giveBack.turn rate now ≤ b.turn rate now := by
  have hgap : 0 < 1 / rate := one_div_pos.2 hrate
  have hturn := b.paidOff_add_le_turn rate now
  have hnow := b.le_turn rate now
  rw [Bucket.turn, Bucket.paidOff_giveBack hrate, max_add, sub_add_cancel, sub_add_cancel]
  exact max_le hnow (max_le (by linarith) (by linarith))

namespace Queue

variable {rate begun : ℚ} {s s' : Queue} {l : Label} {ls : List Label}

/-- How many permits have been granted up to an instant. -/
def grantsUntil (s : Queue) (t : ℚ) : ℕ := s.granted.countP (·.time ≤ t)

/-- Up to every instant no more permits have been granted than tokens have come in. -/
def IsSolvent (rate begun : ℚ) (s : Queue) : Prop :=
  ∀ t, begun ≤ t → (s.grantsUntil t : ℚ) ≤ 1 + rate * (t - begun)

theorem isSolvent_start (hrate : 0 < rate) (begun : ℚ) :
    IsSolvent rate begun (start rate begun) := by
  intro t ht
  have hnonneg : 0 ≤ rate * (t - begun) := mul_nonneg hrate.le (sub_nonneg.2 ht)
  have hnone : (start rate begun).grantsUntil t = 0 := rfl
  rw [hnone, Nat.cast_zero]
  linarith

/-- A permit that is granted later does not count. -/
theorem countP_until_append {t : ℚ} {g : Ticket} (h : t < g.time) (gs : List Ticket) :
    (gs ++ [g]).countP (fun g => g.time ≤ t) = gs.countP (fun g => g.time ≤ t) := by
  rw [List.countP_append, List.countP_singleton, if_neg (by simpa using h), Nat.add_zero]

/-- From now on the ledger bounds the permits; up to earlier instants nothing is added. -/
theorem IsSolvent.next (hrate : 0 < rate) (hs : Sound rate begun s) (hstep : Step rate s l s')
    (h : IsSolvent rate begun s) : IsSolvent rate begun s' := by
  have hs' := hs.next hrate hstep
  intro t ht
  -- until now all permits count, and before that those that had been granted already
  rcases le_or_gt s'.now t with hnow | hnow
  · have hgranted := hs'.ledger.granted_le
    have hcount : (s'.grantsUntil t : ℚ) ≤ s'.granted.length := by
      exact_mod_cast List.countP_le_length
    have hlater : rate * (s'.now - begun) ≤ rate * (t - begun) :=
      mul_le_mul_of_nonneg_left (by linarith) hrate.le
    linarith
  · have hsame : s'.grantsUntil t = s.grantsUntil t := by
      cases hstep with
      | grant come => exact countP_until_append hnow s.granted
      | serve mem due => exact countP_until_append (hnow.trans_eq due.symm) s.granted
      | enqueue ahead => rfl
      | leave mem => rfl
      | pass le due => rfl
    rw [hsame]
    exact h t ht

theorem IsSolvent.ofSteps (hrate : 0 < rate) (hrun : (start rate begun).steps ls = some s) :
    IsSolvent rate begun s :=
  holds_of_next hrate (isSolvent_start hrate begun) (fun hs hstep h => h.next hrate hs hstep) hrun

/-- What callers may have on credit in a state of a limiter that began at an instant. The tokens at
a moment are those that are counted at that moment; what the bucket keeps is as old as the last
call, and for a moment after a call it is the same number. -/
structure CreditBounds (rate begun : ℚ) (s : Queue) : Prop where
  /-- the bucket holds one token at most -/
  kept_le : s.limiter.bucket.tokens ≤ 1
  /-- up to any time no more permits have been granted than tokens have come in -/
  granted_le : ∀ d, 0 ≤ d → (s.grantsUntil (begun + d) : ℚ) ≤ 1 + rate * d
  /-- callers that wait are the only ones with a debt -/
  tokens_ge : -(s.waiting.length : ℚ) ≤ (s.limiter.bucket.refill rate s.now).tokens
  /-- that is also the number that is kept when one more has asked -/
  kept_ge : ∀ s', s.step .ask = some s' → -(s'.waiting.length : ℚ) ≤ s'.limiter.bucket.tokens
  /-- a caller that must wait waits for the tokens of those that wait, itself included -/
  wait_le : ∀ due limiter, s.limiter.acquire s.now = (.queued due, limiter) →
    due - s.now ≤ (s.waiting.length + 1) / rate
  /-- a caller that gives up delays nobody who asks later -/
  leave_le : ∀ w s', s.step (.leave w) = some s' → ∀ t, s.now ≤ t →
    (s'.limiter.acquire t).1.time t ≤ (s.limiter.acquire t).1.time t

namespace Sound

/-- Right after a call the bucket keeps the tokens of that moment. -/
theorem neg_length_le_kept (hrate : 0 < rate) (h : Sound rate begun s)
    (hlast : s.limiter.bucket.last = s.now) :
    -(s.waiting.length : ℚ) ≤ s.limiter.bucket.tokens := by
  have hdebt := h.ledger.debt_le
  rw [List.length_map] at hdebt
  rw [Bucket.tokens_eq hrate, hlast]
  linarith

/-- A caller that gives up makes the turn of the next one no later. -/
theorem time_acquire_leave_le (hrate : 0 < rate) (h : Sound rate begun s) (w : Ticket) {t : ℚ}
    (ht : s.now ≤ t) :
    ((s.leave w).limiter.acquire t).1.time t ≤ (s.limiter.acquire t).1.time t := by
  have hlast := h.ledger.last_le.trans ht
  have hbefore : (s.limiter.acquire t).1.time t = s.limiter.bucket.turn rate t :=
    Limiter.time_acquire hrate h.limited hlast
  have hafter : ((s.leave w).limiter.acquire t).1.time t = s.limiter.bucket.giveBack.turn rate t :=
    Limiter.time_acquire hrate h.limited hlast
  rw [hbefore, hafter]
  exact Bucket.turn_giveBack_le hrate hlast

end Sound

/-- At every moment, whoever has asked, been served or given up, the credit of the callers is
bounded. -/
theorem credit_bounded (hrate : 0 < rate) (hrun : (start rate begun).steps ls = some s) :
    CreditBounds rate begun s := by
  have hsound := Sound.ofSteps hrate hrun
  constructor
  case kept_le => exact hsound.tokens_le
  case granted_le =>
    intro d hd
    have hsolvent := IsSolvent.ofSteps hrate hrun (begun + d) (le_add_of_nonneg_right hd)
    rwa [add_sub_cancel_left] at hsolvent
  case tokens_ge =>
    have htokens := hsound.ledger.neg_length_le_tokens hrate
    rwa [List.length_map] at htokens
  case kept_ge =>
    intro s' hask
    have hstep := (hsound.step_iff hrate).1 hask
    refine (hsound.next hrate hstep).neg_length_le_kept hrate ?_
    -- whether it is granted or put in the queue, the bucket is refilled first
    cases hstep with
    | grant come => rfl
    | enqueue ahead => rfl
  case wait_le =>
    intro due limiter hacquire
    have hturn := Limiter.time_acquire hrate hsound.limited hsound.ledger.last_le
    rw [hacquire] at hturn
    have hwait := hsound.ledger.turn_sub_le hrate
    -- the ledger bounds the turn, and who asks now waits for that
    rwa [List.length_map, ← hturn] at hwait
  case leave_le =>
    intro w s' hleave t ht
    cases (hsound.step_iff hrate).1 hleave with
    | leave hw => exact hsound.time_acquire_leave_le hrate w ht

/-- Two callers wait for two tokens, and the first one gives up. -/
theorem credit_of_two : (0 : ℚ) < 1 ∧ ∃ s,
    (start 1 0).steps [.ask, .ask, .ask, .pass (1 / 2), .leave ⟨1, 1⟩] = some s ∧
      s.waiting = [⟨2, 2⟩] ∧ CreditBounds 1 0 s := by
  have hrun : ((start 1 0).steps [.ask, .ask, .ask, .pass (1 / 2), .leave ⟨1, 1⟩]).map (·.waiting) =
      some [⟨2, 2⟩] := by decide +kernel
  obtain ⟨s, hs, hwaiting⟩ := Option.map_eq_some_iff.1 hrun
  exact ⟨by norm_num, s, hs, hwaiting, credit_bounded (by norm_num) hs⟩

end Queue

end TraceLoad
