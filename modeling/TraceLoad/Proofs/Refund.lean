import TraceLoad.Proofs.PermitQueue

/-! # A wait that is given up leaves nothing behind

While a bucket is in debt it cannot become full, so whoever asks puts off the instant of the debt
by exactly the time of one token (`Since.debt`). That is so of a queue with a caller that waits, up
to the instant at which its permit is due, and it is so of the same queue without that caller, whose
debt ends one token earlier. When the caller gives up its token comes back, and the two debts are
the same (`forgoes_unnoticed`).
-/

namespace TraceLoad

/-- Buckets with one debt are the same once they are counted. -/
theorem Bucket.refill_congr {rate now : ℚ} {b b' : Bucket ℚ ℚ} (hrate : 0 < rate)
    (hlast : b.last ≤ now) (hlast' : b'.last ≤ now) (hpaid : b.paidOff rate = b'.paidOff rate) :
    b.refill rate now = b'.refill rate now := by
  have htokens : (b.refill rate now).tokens = (b'.refill rate now).tokens := by
    rw [tokens_refill hrate hlast, tokens_refill hrate hlast', hpaid]
  exact congrArg (fun tokens => (⟨tokens, now⟩ : Bucket ℚ ℚ)) htokens

/-- What a limiter answers, and what it is afterwards, depends on the counted bucket only. -/
theorem Limiter.acquire_congr {rate now : ℚ} {l l' : Limiter ℚ ℚ} (hl : l.rate = some rate)
    (hl' : l'.rate = some rate) (hbucket : l.bucket.refill rate now = l'.bucket.refill rate now) :
    l.acquire now = l'.acquire now := by
  cases l
  cases l'
  subst hl hl'
  unfold acquire
  dsimp only at hbucket ⊢
  rw [hbucket]

namespace Queue

variable {rate begun : ℚ} {s s' s₁ s₂ s₃ : Queue} {l : Label} {ls : List Label} {rs : List ℚ}
  {w : Ticket}

/-! ## What has come in since -/

/-- What is known of a queue that another one has become while nobody gave up: callers have asked at
the instants of a list, and up to a limit the debt has been put off by one token for each. -/
structure Since (rate limit : ℚ) (s s' : Queue) (rs : List ℚ) : Prop where
  asked : s'.asked = s.asked ++ rs
  ordered : (s.now :: rs).Pairwise (· ≤ ·)
  past : ∀ r ∈ s.now :: rs, r ≤ s'.now
  debt : s'.now ≤ limit →
    s'.limiter.bucket.paidOff rate = s.limiter.bucket.paidOff rate + rs.length / rate

/-- At first nobody has asked since. -/
theorem since_self (rate limit : ℚ) (s : Queue) : Since rate limit s s [] where
  asked := (List.append_nil _).symm
  ordered := List.pairwise_singleton _ _
  past := by
    intro r hr
    rw [List.mem_singleton.1 hr]
  debt := by
    intro _
    simp

namespace Since

variable {limit : ℚ}

/-- One more has asked. The bucket was not full, so that one token more is owed. -/
theorem ask (hrate : 0 < rate) (hlimit : limit ≤ s.limiter.bucket.paidOff rate + 1 / rate)
    (h : Since rate limit s s₁ rs) (hlast : s₁.limiter.bucket.last ≤ s₁.now)
    (hlimiter : s₂.limiter = s₁.taken rate) (hasked : s₂.asked = s₁.asked ++ [s₁.now])
    (hnow : s₂.now = s₁.now) : Since rate limit s s₂ (rs ++ [s₁.now]) where
  asked := by rw [hasked, h.asked, List.append_assoc]
  ordered := by
    rw [← List.cons_append, List.pairwise_append]
    refine ⟨h.ordered, List.pairwise_singleton _ _, ?_⟩
    intro r hr u hu
    rw [List.mem_singleton.1 hu]
    exact h.past r hr
  past := by
    intro r hr
    rw [← List.cons_append, List.mem_append, List.mem_singleton] at hr
    rw [hnow]
    rcases hr with hr | rfl
    · exact h.past r hr
    · exact le_refl _
  debt := by
    intro hle
    rw [hnow] at hle
    have hdebt := h.debt hle
    -- those who have asked since can only have moved the debt further away
    have hmore : (0 : ℚ) ≤ rs.length / rate := div_nonneg (Nat.cast_nonneg _) hrate.le
    -- as long as there is a debt the turn is one gap behind it
    have hturn : s₁.limiter.bucket.turn rate s₁.now = s₁.limiter.bucket.paidOff rate + 1 / rate :=
      max_eq_right (by linarith)
    calc s₂.limiter.bucket.paidOff rate
        = s₁.limiter.bucket.turn rate s₁.now := by
          rw [hlimiter]
          exact Bucket.paidOff_take_refill hrate hlast
      _ = s.limiter.bucket.paidOff rate + (rs ++ [s₁.now]).length / rate := by
          rw [hturn, hdebt, List.length_append, List.length_singleton]
          push_cast
          ring

/-- Nobody has asked: somebody has been served, or time has passed. -/
theorem wait (h : Since rate limit s s₁ rs) (hlimiter : s₂.limiter = s₁.limiter)
    (hasked : s₂.asked = s₁.asked) (hnow : s₁.now ≤ s₂.now) : Since rate limit s s₂ rs where
  asked := hasked.trans h.asked
  ordered := h.ordered
  past := by
    intro r hr
    exact (h.past r hr).trans hnow
  debt := by
    intro hle
    rw [hlimiter]
    exact h.debt (hnow.trans hle)

/-- What a step does in which nobody gives up. -/
theorem next (hrate : 0 < rate) (hlimit : limit ≤ s.limiter.bucket.paidOff rate + 1 / rate)
    (hs : Sound rate begun s₁) (hl : l.IsPatient) (hstep : Step rate s₁ l s₂)
    (h : ∃ rs, Since rate limit s s₁ rs) : ∃ rs, Since rate limit s s₂ rs := by
  rcases h with ⟨rs, h⟩
  have hlast := hs.ledger.last_le
  cases hstep with
  | grant come => exact ⟨_, h.ask hrate hlimit hlast rfl rfl rfl⟩
  | enqueue ahead => exact ⟨_, h.ask hrate hlimit hlast rfl rfl rfl⟩
  | serve mem due => exact ⟨rs, h.wait rfl rfl (le_refl _)⟩
  | leave mem => exact absurd hl id
  | pass le due => exact ⟨rs, h.wait rfl rfl le⟩

end Since

/-- Another queue has come about without anybody giving up, and the callers that have asked since
did so at the instants of a list. -/
structure Asked (s : Queue) (rs : List ℚ) (s' : Queue) : Prop where
  history : ∃ ls, s.steps ls = some s' ∧ ∀ l ∈ ls, l.IsPatient
  asked : s'.asked = s.asked ++ rs

namespace Asked

theorem sound (hrate : 0 < rate) (hs : Sound rate begun s) (h : Asked s rs s') :
    Sound rate begun s' := by
  rcases h.history with ⟨ls, hrun, -⟩
  exact (hs.steps_keep hrate (P := fun _ => True) (Q := fun _ => True)
    (fun _ _ _ _ => trivial) hrun (fun _ _ => trivial) trivial).1

theorem since (hrate : 0 < rate) (hs : Sound rate begun s) (h : Asked s rs s') {limit : ℚ}
    (hlimit : limit ≤ s.limiter.bucket.paidOff rate + 1 / rate) : Since rate limit s s' rs := by
  rcases h.history with ⟨ls, hrun, hpatient⟩
  have hkept := Sound.steps_keep hrate (P := fun s' => ∃ rs, Since rate limit s s' rs)
    (fun hs₁ hl hstep h => Since.next hrate hlimit hs₁ hl hstep h) hrun hpatient hs
    ⟨[], since_self rate limit s⟩
  rcases hkept.2 with ⟨rs', hsince⟩
  have hsame : rs' = rs := List.append_cancel_left (hsince.asked.symm.trans h.asked)
  exact hsame ▸ hsince

end Asked

/-! ## Without the caller -/

/-- What a caller leaves behind that began to wait in `s`, which made it `s₁`, and gave up in `s₂`,
which made it `s₃`, when others had asked at some instants in between. -/
structure Unnoticed (rate : ℚ) (s s₁ s₂ s₃ : Queue) (rs : List ℚ) : Prop where
  /-- the others could have asked at the same instants without it -/
  without : ∃ s', Asked s rs s' ∧ s'.now = s₃.now
  /-- whenever the tokens are counted from then on, they are as many as without it -/
  refill : ∀ s', Asked s rs s' → s'.now = s₃.now → ∀ t, s₃.now ≤ t →
    s₃.limiter.bucket.refill rate t = s'.limiter.bucket.refill rate t
  /-- and so whoever asks next has the same answer, and leaves the same limiter -/
  acquire : ∀ s', Asked s rs s' → s'.now = s₃.now → ∀ t, s₃.now ≤ t →
    s₃.limiter.acquire t = s'.limiter.acquire t
  /-- while it waited every token that came in was kept, and one was taken by each of the others -/
  drawn : (s₂.limiter.bucket.refill rate s₂.now).tokens =
    s₁.limiter.bucket.tokens + (s₂.now - s₁.now) * rate - rs.length
  /-- its own token came back whole -/
  whole : s₃.limiter.bucket.tokens = s₂.limiter.bucket.tokens + 1

/-- Who begins to wait is told the instant at which one token more than the debt will have come in,
and now that is when the debt ends. -/
theorem Sound.of_begins_to_wait (hrate : 0 < rate) (h : Sound rate begun s)
    (hstep : Step rate s .ask s₁) (hwait : s₁.waiting = s.waiting ++ [w]) :
    w.time = s.limiter.bucket.paidOff rate + 1 / rate ∧
      s₁.limiter.bucket.paidOff rate = w.time ∧ s₁.limiter.bucket.last = s₁.now ∧
      s₁.now = s.now := by
  cases hstep with
  | grant come =>
    -- who is granted a permit at once does not wait
    have hnobody : s.waiting = s.waiting ++ [w] := hwait
    simp at hnobody
  | enqueue ahead =>
    have hticket : w.time = s.turn rate := by
      have hsame : [_] = [w] := List.append_cancel_left hwait
      rw [← List.singleton_inj.1 hsame]
    -- a turn that lies ahead is one gap behind the debt
    have hturn : s.turn rate = s.limiter.bucket.paidOff rate + 1 / rate := by
      unfold turn Bucket.turn at ahead ⊢
      rcases max_choice s.now (s.limiter.bucket.paidOff rate + 1 / rate) with hmax | hmax
      · exact absurd hmax ahead.ne'
      · exact hmax
    refine ⟨hticket.trans hturn, ?_, rfl, rfl⟩
    rw [hticket]
    exact Bucket.paidOff_take_refill hrate h.ledger.last_le

/-- A bucket in debt takes a token back whole. -/
theorem Sound.giveBack_of_debt (hrate : 0 < rate) (h : Sound rate begun s)
    (hdebt : s.now ≤ s.limiter.bucket.paidOff rate) :
    s.limiter.bucket.giveBack.tokens = s.limiter.bucket.tokens + 1 ∧
      s.limiter.bucket.giveBack.paidOff rate = s.limiter.bucket.paidOff rate - 1 / rate := by
  have hlast := h.ledger.last_le.trans hdebt
  constructor
  · -- while there is a debt the bucket holds no token, so there is room for one more
    have hnone : s.limiter.bucket.tokens ≤ 0 := by
      rw [Bucket.tokens_eq hrate]
      exact mul_nonpos_of_nonpos_of_nonneg (sub_nonpos.2 hlast) hrate.le
    unfold Bucket.giveBack
    rw [Bucket.cap_eq_min]
    exact min_eq_left (by linarith)
  · rw [Bucket.paidOff_giveBack hrate]
    exact max_eq_left (by linarith)

/-- The tokens of a bucket in debt, when they are counted, are what is owed. -/
theorem Sound.tokens_of_debt (hrate : 0 < rate) (h : Sound rate begun s)
    (hdebt : s.now ≤ s.limiter.bucket.paidOff rate) :
    (s.limiter.bucket.refill rate s.now).tokens =
      (s.now - s.limiter.bucket.paidOff rate) * rate := by
  have hnone : (s.now - s.limiter.bucket.paidOff rate) * rate ≤ 0 :=
    mul_nonpos_of_nonpos_of_nonneg (sub_nonpos.2 hdebt) hrate.le
  rw [Bucket.tokens_refill hrate h.ledger.last_le]
  exact min_eq_left (by linarith)

/-- A caller that begins to wait and gives up, however many others ask meanwhile, leaves the bucket
as it would be without it. -/
theorem forgoes_unnoticed (hrate : 0 < rate) (hbefore : (start rate begun).steps ls = some s)
    (hask : s.step .ask = some s₁) (hwait : s₁.waiting = s.waiting ++ [w])
    (hothers : Asked s₁ rs s₂) (hleave : s₂.step (.leave w) = some s₃) :
    Unnoticed rate s s₁ s₂ s₃ rs := by
  have hsound := Sound.ofSteps hrate hbefore
  have hfirst := (hsound.step_iff hrate).1 hask
  have hsound₁ := hsound.next hrate hfirst
  have hsound₂ := hothers.sound hrate hsound₁
  have hlast := (hsound₂.step_iff hrate).1 hleave
  have hsound₃ := hsound₂.next hrate hlast
  rcases hsound.of_begins_to_wait hrate hfirst hwait with ⟨hdue, hpaid₁, hlast₁, hnow₁⟩
  obtain ⟨hmem, hnow₃, hbucket₃⟩ : w ∈ s₂.waiting ∧ s₃.now = s₂.now ∧
      s₃.limiter.bucket = s₂.limiter.bucket.giveBack := by
    cases hlast with
    | leave mem => exact ⟨mem, rfl, rfl⟩
  -- all others have asked before it was due, so that they could not find a full bucket
  have hgap : 0 < 1 / rate := one_div_pos.2 hrate
  have hnow : s₂.now ≤ w.time := hsound₂.ahead w hmem
  have hsince : Since rate w.time s₁ s₂ rs := hothers.since hrate hsound₁ (by linarith)
  have hpaid₂ : s₂.limiter.bucket.paidOff rate = w.time + rs.length / rate := by
    rw [hsince.debt hnow, hpaid₁]
  have hdebt₂ : s₂.now ≤ s₂.limiter.bucket.paidOff rate := by
    have hmore : (0 : ℚ) ≤ rs.length / rate := div_nonneg (Nat.cast_nonneg _) hrate.le
    linarith
  have hgiven := hsound₂.giveBack_of_debt hrate hdebt₂
  -- without it the debt is one token smaller throughout, and in the end with it as well
  have hrefill : ∀ s', Asked s rs s' → s'.now = s₃.now → ∀ t, s₃.now ≤ t →
      s₃.limiter.bucket.refill rate t = s'.limiter.bucket.refill rate t := by
    intro s' hasked hnow' t ht
    have hsound' := hasked.sound hrate hsound
    have hpaid' := (hasked.since hrate hsound hdue.le).debt (by linarith)
    refine Bucket.refill_congr hrate (hsound₃.ledger.last_le.trans ht) ?_ ?_
    · exact hsound'.ledger.last_le.trans (hnow'.trans_le ht)
    · rw [hbucket₃, hgiven.2, hpaid₂, hpaid', hdue]
      ring
  constructor
  case without =>
    have hordered := hsince.ordered
    have hpast := hsince.past
    rw [hnow₁] at hordered hpast
    rcases hsound.exists_asked hrate hordered hpast with
      ⟨ls', s', hrun, hpatient, hasked, hnow', -⟩
    exact ⟨s', ⟨⟨ls', hrun, hpatient⟩, hasked⟩, hnow'.trans hnow₃.symm⟩
  case refill => exact hrefill
  case acquire =>
    intro s' hasked hnow' t ht
    have hsound' := hasked.sound hrate hsound
    exact Limiter.acquire_congr hsound₃.limited hsound'.limited (hrefill s' hasked hnow' t ht)
  case drawn =>
    have hcount : rs.length / rate * rate = rs.length := div_mul_cancel₀ _ hrate.ne'
    rw [hsound₂.tokens_of_debt hrate hdebt₂, Bucket.tokens_eq hrate, hlast₁, hpaid₁, hpaid₂]
    linarith
  case whole => rw [hbucket₃, hgiven.1]

/-- One permit a second: the second caller waits for its permit at 1 and gives up at 1/2; another
one has asked at 1/4. -/
theorem second_of_three_unnoticed : (0 : ℚ) < 1 ∧ ∃ s s₁ s₂ s₃,
    (start 1 0).steps [.ask] = some s ∧ s.step .ask = some s₁ ∧
      s₁.waiting = s.waiting ++ [⟨1, 1⟩] ∧ Asked s₁ [1 / 4] s₂ ∧
      s₂.step (.leave ⟨1, 1⟩) = some s₃ ∧ Unnoticed 1 s s₁ s₂ s₃ [1 / 4] := by
  let s : Queue := { limiter := ⟨some 1, ⟨0, 0⟩⟩, now := 0, asked := [0], granted := [⟨0, 0⟩] }
  let s₁ : Queue :=
    { s with limiter := ⟨some 1, ⟨-1, 0⟩⟩, asked := [0, 0], waiting := [⟨1, 1⟩] }
  let s₂ : Queue :=
    { s with
      limiter := ⟨some 1, ⟨-7 / 4, 1 / 4⟩⟩
      now := 1 / 2
      asked := [0, 0, 1 / 4]
      waiting := [⟨1, 1⟩, ⟨2, 2⟩] }
  have hbefore : (start 1 0).steps [.ask] = some s := by decide +kernel
  have hask : s.step .ask = some s₁ := by decide +kernel
  have hrun : s₁.steps [.pass (1 / 4), .ask, .pass (1 / 2)] = some s₂ := by decide +kernel
  have hpatient : ∀ l ∈ [Label.pass (1 / 4), .ask, .pass (1 / 2)], l.IsPatient := by
    simp [Label.IsPatient]
  -- the third asks while the second still waits, at a quarter of a second
  have hothers : Asked s₁ [1 / 4] s₂ := ⟨⟨_, hrun, hpatient⟩, rfl⟩
  have hleave : s₂.step (.leave ⟨1, 1⟩) = some (s₂.leave ⟨1, 1⟩) := by decide +kernel
  exact ⟨by norm_num, s, s₁, s₂, _, hbefore, hask, rfl, hothers, hleave,
    forgoes_unnoticed (by norm_num) hbefore hask rfl hothers hleave⟩

end Queue

end TraceLoad
