import Mathlib
import TraceLoad.Limiter

/-! # The bucket in exact numbers

Tokens, rates and instants are rational numbers here, and a wait is over exactly when it is due.
Then a bucket is known by one instant, the one at which its debt is paid off (`Bucket.paidOff`):
taking a token moves it by the time in which one token comes in, handing one back moves it the
other way, and counting the tokens only forgets how long the bucket has been full. Who asks for a
permit has it at once or one such step after the instant of the debt, whichever is later
(`Limiter.acquire_eq`).

A `Ledger` holds such a bucket against the permits that were granted and those that are due. It is
kept by everything that can happen to a limiter, and it bounds what has been granted.
-/

namespace TraceLoad

instance : Timeline ℚ ℚ where
  elapsed a b := max (b - a) 0
  later now seconds := now + seconds

namespace Bucket

variable {rate now : ℚ} {b : Bucket ℚ ℚ}

theorem cap_eq_min (x : ℚ) : cap x = min x 1 := by
  unfold cap
  split
  · next h => exact (min_eq_left h).symm
  · next h => exact (min_eq_right (le_of_not_ge h)).symm

/-- When the bucket stops owing a token, or stopped; it is not counted how full it can get. -/
def paidOff (rate : ℚ) (b : Bucket ℚ ℚ) : ℚ := b.last - b.tokens / rate

/-- When a caller has its permit that asks at an instant. -/
def turn (rate now : ℚ) (b : Bucket ℚ ℚ) : ℚ := max now (b.paidOff rate + 1 / rate)

/-- The tokens are what has come in since the bucket was paid off, at its rate. -/
theorem tokens_eq (hrate : 0 < rate) (b : Bucket ℚ ℚ) :
    b.tokens = (b.last - b.paidOff rate) * rate := by
  unfold paidOff
  field_simp
  ring

theorem tokens_refill (hrate : 0 < rate) (hlast : b.last ≤ now) :
    (b.refill rate now).tokens = min ((now - b.paidOff rate) * rate) 1 := by
  have helapsed : Timeline.elapsed b.last now = now - b.last := max_eq_left (sub_nonneg.2 hlast)
  have hcount : b.tokens + (now - b.last) * rate = (now - b.paidOff rate) * rate := by
    rw [tokens_eq hrate b]
    ring
  rw [refill, cap_eq_min, helapsed, hcount]

/-- Counting moves the instant of the debt only if more than a full bucket has come in. -/
theorem paidOff_refill (hrate : 0 < rate) (hlast : b.last ≤ now) :
    (b.refill rate now).paidOff rate = max (b.paidOff rate) (now - 1 / rate) := by
  have hfull : (now - b.paidOff rate) * rate / rate = now - b.paidOff rate :=
    mul_div_cancel_right₀ _ hrate.ne'
  calc (b.refill rate now).paidOff rate
      = now - (b.refill rate now).tokens / rate := rfl
    _ = now - min (now - b.paidOff rate) (1 / rate) := by
        rw [tokens_refill hrate hlast, ← min_div_div_right hrate.le, hfull]
    _ = max (b.paidOff rate) (now - 1 / rate) := by
        rw [← max_sub_sub_left, sub_sub_cancel]

/-- A token that is taken is paid off one gap later. -/
theorem paidOff_take (rate : ℚ) (b : Bucket ℚ ℚ) :
    b.take.paidOff rate = b.paidOff rate + 1 / rate := by
  simp only [paidOff, take]
  ring

/-- A token that is given back is paid off one gap sooner, if there was room for it. -/
theorem paidOff_giveBack (hrate : 0 < rate) (b : Bucket ℚ ℚ) :
    b.giveBack.paidOff rate = max (b.paidOff rate - 1 / rate) (b.last - 1 / rate) := by
  calc b.giveBack.paidOff rate
      = b.last - min (b.tokens + 1) 1 / rate := by rw [← cap_eq_min]; rfl
    _ = max (b.last - (b.tokens + 1) / rate) (b.last - 1 / rate) := by
        rw [← min_div_div_right hrate.le, max_sub_sub_left]
    _ = max (b.paidOff rate - 1 / rate) (b.last - 1 / rate) := by
        rw [add_div, ← sub_sub, paidOff]

theorem paidOff_take_refill (hrate : 0 < rate) (hlast : b.last ≤ now) :
    (b.refill rate now).take.paidOff rate = b.turn rate now := by
  rw [paidOff_take, paidOff_refill hrate hlast, max_add, sub_add_cancel, max_comm, turn]

theorem le_turn (rate now : ℚ) (b : Bucket ℚ ℚ) : now ≤ b.turn rate now := le_max_left _ _

theorem paidOff_add_le_turn (rate now : ℚ) (b : Bucket ℚ ℚ) :
    b.paidOff rate + 1 / rate ≤ b.turn rate now := le_max_right _ _

/-- A bucket holds no more than one token, however long it has been filled. -/
theorem tokens_take_refill_le_one (rate now : ℚ) (b : Bucket ℚ ℚ) :
    (b.refill rate now).take.tokens ≤ 1 := by
  have hcap : (b.refill rate now).tokens ≤ 1 := by
    rw [refill, cap_eq_min]
    exact min_le_right _ _
  have htake : (b.refill rate now).take.tokens = (b.refill rate now).tokens - 1 := rfl
  linarith

theorem tokens_giveBack_le_one (b : Bucket ℚ ℚ) : b.giveBack.tokens ≤ 1 := by
  rw [giveBack, cap_eq_min]
  exact min_le_right _ _

end Bucket

/-- When a caller has its permit that was given this one at an instant. -/
def Permit.time (asked : ℚ) : Permit ℚ → ℚ
  | .granted => asked
  | .queued due => due

namespace Limiter

variable {rate now : ℚ} {l : Limiter ℚ ℚ}

/-- A caller whose turn has come has its permit, any other one is told its turn. -/
theorem acquire_eq (hrate : 0 < rate) (hl : l.rate = some rate) (hlast : l.bucket.last ≤ now) :
    l.acquire now =
      (if l.bucket.turn rate now ≤ now then .granted else .queued (l.bucket.turn rate now),
        { l with bucket := (l.bucket.refill rate now).take }) := by
  have hturn := Bucket.paidOff_take_refill hrate hlast
  generalize hb : (l.bucket.refill rate now).take = b at hturn
  have hnow : b.last = now := hb ▸ rfl
  have htokens : b.tokens = (now - l.bucket.turn rate now) * rate := by
    rw [Bucket.tokens_eq hrate b, hturn, hnow]
  have hdue : Timeline.later now (b.debtTime rate) = l.bucket.turn rate now := by
    show now + -b.tokens / rate = _
    rw [htokens]
    field_simp
    ring
  -- there is no debt exactly if the turn has come
  have hsign : 0 ≤ b.tokens ↔ l.bucket.turn rate now ≤ now := by
    rw [htokens, mul_nonneg_iff_of_pos_right hrate, sub_nonneg]
  simp only [acquire, hl, hb, hsign, hdue]
  split <;> rfl

end Limiter

/-! ## The ledger -/

/-- What is known of a bucket, of the permits granted since an instant and of those that are due:
at every moment from now on the debt is covered by permits that are due later, and no more permits
have been given away than tokens have come in, with the one that was there at the beginning. -/
structure Ledger (rate start now : ℚ) (b : Bucket ℚ ℚ) (granted : ℕ) (dues : List ℚ) : Prop where
  last_le : b.last ≤ now
  covered : ∀ t, now ≤ t → (b.paidOff rate - t) * rate ≤ dues.countP (t < ·)
  booked : (granted + dues.length : ℚ) ≤ 1 + rate * (b.paidOff rate - start)

namespace Ledger

variable {rate start now : ℚ} {b : Bucket ℚ ℚ} {granted : ℕ} {dues dues' : List ℚ}

theorem ofFull (hrate : 0 < rate) (start : ℚ) : Ledger rate start start (.full start) 0 [] where
  last_le := le_refl _
  covered t ht := by
    have hpaid : (Bucket.full start : Bucket ℚ ℚ).paidOff rate = start - 1 / rate := rfl
    have hgap : 0 < 1 / rate := one_div_pos.2 hrate
    -- a full bucket was paid off one gap ago, and nothing has been granted yet
    rw [hpaid]
    simp only [List.countP_nil, Nat.cast_zero]
    exact mul_nonpos_of_nonpos_of_nonneg (by linarith) hrate.le
  booked := by
    have hpaid : (Bucket.full start : Bucket ℚ ℚ).paidOff rate = start - 1 / rate := rfl
    have hone : rate * (1 / rate) = 1 := mul_one_div_cancel hrate.ne'
    rw [hpaid]
    simp only [List.length_nil, Nat.cast_zero]
    linarith

theorem pass {later : ℚ} (h : Ledger rate start now b granted dues) (hlater : now ≤ later) :
    Ledger rate start later b granted dues where
  last_le := h.last_le.trans hlater
  covered t ht := h.covered t (hlater.trans ht)
  booked := h.booked

/-- One more permit is given away, now or later. -/
theorem booked_take (hrate : 0 < rate) (h : Ledger rate start now b granted dues) :
    (granted + dues.length + 1 : ℚ) ≤ 1 + rate * (b.turn rate now - start) := by
  have hbooked := h.booked
  have hone : rate * (1 / rate) = 1 := mul_one_div_cancel hrate.ne'
  have hturn : rate * (b.paidOff rate + 1 / rate) ≤ rate * b.turn rate now :=
    mul_le_mul_of_nonneg_left (b.paidOff_add_le_turn rate now) hrate.le
  linarith

/-- A caller asks and has its permit. -/
theorem grant (hrate : 0 < rate) (h : Ledger rate start now b granted dues)
    (hturn : b.turn rate now ≤ now) :
    Ledger rate start now (b.refill rate now).take (granted + 1) dues where
  last_le := le_refl now
  covered t ht := by
    -- who has its permit at once leaves no debt behind
    rw [Bucket.paidOff_take_refill hrate h.last_le]
    have hpaid : (b.turn rate now - t) * rate ≤ 0 :=
      mul_nonpos_of_nonpos_of_nonneg (by linarith) hrate.le
    exact hpaid.trans (Nat.cast_nonneg _)
  booked := by
    rw [Bucket.paidOff_take_refill hrate h.last_le]
    have hbooked := h.booked_take hrate
    push_cast
    linarith

/-- A caller asks and has to wait. -/
theorem queue (hrate : 0 < rate) (h : Ledger rate start now b granted dues)
    (hturn : now < b.turn rate now) :
    Ledger rate start now (b.refill rate now).take granted (dues ++ [b.turn rate now]) where
  last_le := le_refl now
  covered t ht := by
    rw [Bucket.paidOff_take_refill hrate h.last_le]
    rcases le_or_gt (b.turn rate now) t with hpast | hahead
    · have hpaid : (b.turn rate now - t) * rate ≤ 0 :=
        mul_nonpos_of_nonpos_of_nonneg (by linarith) hrate.le
      exact hpaid.trans (Nat.cast_nonneg _)
    · -- the new caller is one of those that are due later, and its turn is one token after the debt
      have hdebt : b.turn rate now = b.paidOff rate + 1 / rate := by
        rcases max_choice now (b.paidOff rate + 1 / rate) with hmax | hmax
        · exact absurd hmax hturn.ne'
        · exact hmax
      have hcount : (dues ++ [b.turn rate now]).countP (t < ·) = dues.countP (t < ·) + 1 := by
        rw [List.countP_append, List.countP_singleton, if_pos (by simpa using hahead)]
      have hone : 1 / rate * rate = 1 := one_div_mul_cancel hrate.ne'
      have hcovered := h.covered t ht
      rw [hcount, hdebt]
      push_cast
      linarith
  booked := by
    rw [Bucket.paidOff_take_refill hrate h.last_le]
    have hbooked := h.booked_take hrate
    simp only [List.length_append, List.length_singleton]
    push_cast
    linarith

/-- A permit that is due is granted. -/
theorem serve {due : ℚ} (h : Ledger rate start now b granted dues)
    (hdues : dues.Perm (due :: dues')) (hdue : due ≤ now) :
    Ledger rate start now b (granted + 1) dues' where
  last_le := h.last_le
  covered t ht := by
    have hcovered := h.covered t ht
    rwa [hdues.countP_eq, List.countP_cons_of_neg (by simpa using hdue.trans ht)] at hcovered
  booked := by
    have hbooked := h.booked
    rw [hdues.length_eq, List.length_cons] at hbooked
    push_cast at hbooked ⊢
    linarith

/-- A caller that waits gives its permit up. -/
theorem leave {due : ℚ} (hrate : 0 < rate) (h : Ledger rate start now b granted dues)
    (hdues : dues.Perm (due :: dues')) : Ledger rate start now b.giveBack granted dues' where
  last_le := h.last_le
  covered t ht := by
    have hgap : 0 < 1 / rate := one_div_pos.2 hrate
    have hone : 1 / rate * rate = 1 := one_div_mul_cancel hrate.ne'
    rw [Bucket.paidOff_giveBack hrate]
    rcases max_choice (b.paidOff rate - 1 / rate) (b.last - 1 / rate) with hmax | hmax
    · -- one permit less is due later, but one token less is owed
      have hcovered := h.covered t ht
      have hcount : dues.countP (t < ·) ≤ dues'.countP (t < ·) + 1 := by
        rw [hdues.countP_eq, List.countP_cons]
        split <;> omega
      have hcast : (dues.countP (t < ·) : ℚ) ≤ dues'.countP (t < ·) + 1 := by exact_mod_cast hcount
      rw [hmax]
      linarith
    · -- the bucket is full again, and nothing is owed any more
      have hpaid : (b.last - 1 / rate - t) * rate ≤ 0 := by
        have hlast := h.last_le
        exact mul_nonpos_of_nonpos_of_nonneg (by linarith) hrate.le
      rw [hmax]
      exact hpaid.trans (Nat.cast_nonneg _)
  booked := by
    -- one permit less is booked, and the debt is one token smaller at most
    have hbooked := h.booked
    have hone : rate * (1 / rate) = 1 := mul_one_div_cancel hrate.ne'
    have hpaid : rate * (b.paidOff rate - 1 / rate) ≤ rate * b.giveBack.paidOff rate := by
      rw [Bucket.paidOff_giveBack hrate]
      exact mul_le_mul_of_nonneg_left (le_max_left _ _) hrate.le
    rw [hdues.length_eq, List.length_cons] at hbooked
    push_cast at hbooked
    linarith

/-- The debt is covered by those that wait. -/
theorem debt_le (h : Ledger rate start now b granted dues) :
    (b.paidOff rate - now) * rate ≤ dues.length := by
  have hcovered := h.covered now (le_refl now)
  have hcount : (dues.countP (now < ·) : ℚ) ≤ dues.length := by
    exact_mod_cast List.countP_le_length
  exact hcovered.trans hcount

/-- No more permits have been granted than tokens have come in. -/
theorem granted_le (h : Ledger rate start now b granted dues) :
    (granted : ℚ) ≤ 1 + rate * (now - start) := by
  have hbooked := h.booked
  have hdebt := h.debt_le
  linarith

/-- The tokens at hand are at least minus the number of callers that wait. -/
theorem neg_length_le_tokens (hrate : 0 < rate) (h : Ledger rate start now b granted dues) :
    -(dues.length : ℚ) ≤ (b.refill rate now).tokens := by
  have hdebt := h.debt_le
  have hlength : (0 : ℚ) ≤ dues.length := Nat.cast_nonneg _
  rw [Bucket.tokens_refill hrate h.last_le]
  exact le_min (by linarith) (by linarith)

/-- Who asks now waits for the tokens of those that wait already and for one of its own. -/
theorem turn_sub_le (hrate : 0 < rate) (h : Ledger rate start now b granted dues) :
    b.turn rate now - now ≤ (dues.length + 1) / rate := by
  have hdebt := h.debt_le
  have hgap : 0 < 1 / rate := one_div_pos.2 hrate
  have hlength : (0 : ℚ) ≤ dues.length / rate := div_nonneg (Nat.cast_nonneg _) hrate.le
  have howed : b.paidOff rate - now ≤ dues.length / rate := (le_div_iff₀ hrate).2 hdebt
  rw [add_div, sub_le_iff_le_add, Bucket.turn]
  exact max_le (by linarith) (by linarith)

end Ledger

end TraceLoad
