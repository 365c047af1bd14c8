import TraceLoad.Proofs.TraceShape

/-! # When spans start and end

An emission reads its clock from front to back: for the start of the root, then twice for each
descriptor below it, and at last for the end of the root (`Walk.onTime`, `Encloses`). So the root's
two readings enclose all others, a span starts no earlier than those before it in preorder, and it
ends after a reading that is not before its start (`Stamped.timely`). What is added to a reading may
be cut off at the last instant, which keeps the order of the ends but not their distance from the
starts.
-/

namespace TraceLoad

namespace Timestamp

variable {s t : Timestamp} {d : Duration}

/-- Of two instants that are put off alike the later one stays the later one. -/
theorem saturatingAdd_le (h : s.nanos.toNat ≤ t.nanos.toNat) :
    (s.saturatingAdd d).nanos.toNat ≤ (t.saturatingAdd d).nanos.toNat := by
  rw [toNat_saturatingAdd, toNat_saturatingAdd]
  omega

end Timestamp

namespace Clock

/-- What the clock will show never decreases from one reading to the next. -/
def Steady (c : Clock) : Prop :=
  ∀ i, c.used ≤ i → (c.reading i).nanos.toNat ≤ (c.reading (i + 1)).nanos.toNat

theorem Steady.le {c : Clock} (h : c.Steady) {i j : Nat} (hi : c.used ≤ i) (hij : i ≤ j) :
    (c.reading i).nanos.toNat ≤ (c.reading j).nanos.toNat := by
  induction hij with
  | refl => exact Nat.le_refl _
  | step hij ih => exact Nat.le_trans ih (h _ (Nat.le_trans hi hij))

/-- A clock stays steady when it is read. -/
theorem Steady.now {c : Clock} (h : c.Steady) : c.now.2.Steady := by
  intro i hi
  exact h i (Nat.le_of_succ_le hi)

end Clock

namespace Emitter

variable {σ : Type} [WordSource σ]

/-! ## Two readings for each stamp -/

/-- Stamps take the readings of a clock in turn: each starts at one of them, and ends as long after
the next one as spans last. What is left is the clock behind these readings. -/
inductive OnTime : Clock → List Stamp → Clock → Prop where
  | nil {c : Clock} : OnTime c [] c
  | cons {c c' : Clock} {s : Stamp} {stamps : List Stamp} (start : s.span.startTime = c.now.1)
      (closed : s.closed = c.now.2.now.1.saturatingAdd spanDuration)
      (rest : OnTime c.now.2.now.2 stamps c') : OnTime c (s :: stamps) c'

namespace OnTime

variable {c c₁ c' : Clock} {stamps stamps' : List Stamp} {s : Stamp}

/-- What takes its time in two parts takes it as a whole. -/
theorem append (h : OnTime c stamps c₁) (h' : OnTime c₁ stamps' c') :
    OnTime c (stamps ++ stamps') c' := by
  induction h with
  | nil => exact h'
  | cons start closed _ ih => exact .cons start closed (ih h')

/-- The clock is the same one, and only further on. -/
theorem left (h : OnTime c stamps c') : c'.reading = c.reading ∧ c.used ≤ c'.used := by
  induction h with
  | nil => exact ⟨rfl, Nat.le_refl _⟩
  | cons _ _ _ ih => exact ⟨ih.1, Nat.le_trans (Nat.le_add_right _ 2) ih.2⟩

/-- The two readings of a stamp are among those that are taken. -/
theorem exists_reading (h : OnTime c stamps c') (hs : s ∈ stamps) :
    ∃ i, c.used ≤ i ∧ i + 2 ≤ c'.used ∧ s.span.startTime = c.reading i ∧
      s.closed = (c.reading (i + 1)).saturatingAdd spanDuration := by
  induction h with
  | nil => cases hs
  | cons start closed rest ih =>
    rcases List.mem_cons.1 hs with rfl | hs
    · exact ⟨_, Nat.le_refl _, rest.left.2, start, closed⟩
    · rcases ih hs with ⟨i, hi, hlast, hstart, hclosed⟩
      exact ⟨i, Nat.le_trans (Nat.le_add_right _ 2) hi, hlast, hstart, hclosed⟩

/-- By a clock that never decreases no stamp starts before an earlier one. -/
theorem pairwise_start (h : OnTime c stamps c') (hsteady : c.Steady) :
    stamps.Pairwise fun a b => a.span.startTime.nanos.toNat ≤ b.span.startTime.nanos.toNat := by
  induction h with
  | nil => exact .nil
  | cons start closed rest ih =>
    refine .cons ?_ (ih hsteady.now.now)
    intro b hb
    rcases rest.exists_reading hb with ⟨i, hi, -, hstart, -⟩
    rw [start, hstart]
    exact hsteady.le (Nat.le_refl _) (Nat.le_trans (Nat.le_add_right _ 2) hi)

end OnTime

/-- A walk reads the clock twice for each stamp, also if it stops. -/
theorem Walk.onTime {r : Registry} {shared : TraceAttributes} {f : Forest} {parent : TraceContext}
    {e e' : Emission σ} {stamps : List Stamp} {stop : Option Descriptor}
    (h : Walk r shared f parent e stamps stop e') : OnTime e.clock stamps e'.clock := by
  induction h with
  | nil => exact .nil
  | unbound _ => exact .nil
  | stuck _ first _ ih =>
    subst first
    exact .cons rfl rfl ih
  | cons _ first _ _ ihUnder ihNext =>
    subst first
    exact .cons rfl rfl (ihUnder.append ihNext)

/-! ## The times of a trace -/

/-- The root's stamp takes one reading before those of all other stamps, and one behind them. -/
structure Encloses (c : Clock) (top : Stamp) (stamps : List Stamp) (c' : Clock) : Prop where
  start : top.span.startTime = c.now.1
  rest : OnTime c.now.2 stamps c'
  closed : top.closed = c'.now.1.saturatingAdd spanDuration

namespace Encloses

variable {c c' : Clock} {top st : Stamp} {stamps : List Stamp}

theorem left (h : Encloses c top stamps c') : c'.reading = c.reading ∧ c.used + 1 ≤ c'.used :=
  h.rest.left

/-- The root ends as long after the last reading as a span lasts. -/
theorem closed_eq (h : Encloses c top stamps c') :
    top.closed = (c.reading c'.used).saturatingAdd spanDuration := by
  rw [h.closed, ← h.left.1]
  rfl

/-- Every stamp starts at one reading and ends after the same or a later one, and none of them is
outside those of the root. -/
theorem exists_readings (h : Encloses c top stamps c') (hst : st ∈ top :: stamps) :
    ∃ i k, c.used ≤ i ∧ i < k ∧ k ≤ c'.used ∧ st.span.startTime = c.reading i ∧
      st.closed = (c.reading k).saturatingAdd spanDuration := by
  rcases List.mem_cons.1 hst with rfl | hst
  · exact ⟨c.used, c'.used, Nat.le_refl _, h.left.2, Nat.le_refl _, h.start, h.closed_eq⟩
  · rcases h.rest.exists_reading hst with ⟨i, hi, hlast, hstart, hclosed⟩
    exact ⟨i, i + 1, Nat.le_of_succ_le hi, Nat.lt_succ_self i, Nat.le_of_succ_le hlast, hstart,
      hclosed⟩

/-- No stamp starts before the root's. -/
theorem start_le (h : Encloses c top stamps c') (hsteady : c.Steady) (hst : st ∈ top :: stamps) :
    top.span.startTime.nanos.toNat ≤ st.span.startTime.nanos.toNat := by
  rcases h.exists_readings hst with ⟨i, _, hi, -, -, hstart, -⟩
  rw [h.start, hstart]
  exact hsteady.le (Nat.le_refl _) hi

/-- No stamp ends behind the root's. -/
theorem closed_le (h : Encloses c top stamps c') (hsteady : c.Steady) (hst : st ∈ top :: stamps) :
    st.closed.nanos.toNat ≤ top.closed.nanos.toNat := by
  rcases h.exists_readings hst with ⟨i, k, hi, hik, hlast, -, hclosed⟩
  rw [h.closed_eq, hclosed]
  exact Timestamp.saturatingAdd_le (hsteady.le (Nat.le_trans hi (Nat.le_of_lt hik)) hlast)

theorem pairwise_start (h : Encloses c top stamps c') (hsteady : c.Steady) :
    (top :: stamps).Pairwise fun a b =>
      a.span.startTime.nanos.toNat ≤ b.span.startTime.nanos.toNat := by
  refine .cons ?_ (h.rest.pairwise_start hsteady.now)
  intro b hb
  exact h.start_le hsteady (List.mem_cons_of_mem _ hb)

end Encloses

/-- A span that has ended was started at a reading of the clock, and ended a tenth of a second after
a later reading that is not before its start, or else at the last instant that there is. So it lasts
a tenth of a second at least if the sum is not cut off. Both readings are among those that are taken
until the clock is left as `c'`. -/
structure EndsOnTime (c c' : Clock) (span : Span) (i k : Nat) (ending : Timestamp) : Prop where
  taken : c.used ≤ i ∧ i < k ∧ k < c'.used
  startTime : span.startTime = c.reading i
  notBefore : span.startTime.nanos.toNat ≤ (c.reading k).nanos.toNat
  endTime : span.endTime = some ending
  ending_eq : ending.nanos.toNat =
    min ((c.reading k).nanos.toNat + 100000000) (UInt64.size - 1)
  duration : span.durationNanos = some (ending.nanos.toNat - span.startTime.nanos.toNat)
  lasts : (c.reading k).nanos.toNat + 100000000 < UInt64.size →
    100000000 ≤ ending.nanos.toNat - span.startTime.nanos.toNat

/-- The times of the spans of a trace as they have ended, in nanoseconds, by a clock that the
emission of the trace finds and leaves. -/
structure Timely (c c' : Clock) (top : Stamp) (stamps : List Stamp) : Prop where
  /-- the end of a span leaves its start as it was -/
  starts : ∀ st ∈ top :: stamps, st.ended.startTime = st.span.startTime
  ends : ∀ st ∈ top :: stamps, ∃ i k ending, EndsOnTime c c' st.ended i k ending
  /-- a span ends after its start unless it starts at the last instant -/
  later : ∀ st ∈ top :: stamps, st.ended.startTime.nanos.toNat ≠ UInt64.size - 1 →
    ∃ ending, st.ended.endTime = some ending ∧
      st.ended.startTime.nanos.toNat < ending.nanos.toNat
  /-- no child starts before its parent -/
  child : ∀ st ∈ stamps, ∀ p ∈ top :: stamps, st.descriptor.parent = p.descriptor.id →
    p.ended.startTime.nanos.toNat ≤ st.ended.startTime.nanos.toNat
  /-- nothing starts before the root, or ends after it -/
  within : ∀ st ∈ stamps, top.ended.startTime.nanos.toNat ≤ st.ended.startTime.nanos.toNat ∧
    ∃ ending last, st.ended.endTime = some ending ∧ top.ended.endTime = some last ∧
      ending.nanos.toNat ≤ last.nanos.toNat

variable {r : Registry} {shared : TraceAttributes} {ds : List Descriptor} {s : SpanTree}
  {c c' : Clock} {top : Stamp} {stamps : List Stamp}

/-- A span that starts at one reading and ends after a later one ends on time. -/
theorem endsOnTime_of_readings {st : Stamp} {i k : Nat} (hsteady : c.Steady)
    (htaken : c.used ≤ i ∧ i < k ∧ k < c'.used) (hstart : st.span.startTime = c.reading i)
    (hclosed : st.closed = (c.reading k).saturatingAdd spanDuration) :
    EndsOnTime c c' st.ended i k st.closed := by
  have hle : st.ended.startTime.nanos.toNat ≤ (c.reading k).nanos.toNat := by
    rw [st.startTime_ended, hstart]
    exact hsteady.le htaken.1 (Nat.le_of_lt htaken.2.1)
  have hend : st.closed.nanos.toNat =
      min ((c.reading k).nanos.toNat + 100000000) (UInt64.size - 1) := by
    rw [hclosed, Timestamp.toNat_saturatingAdd]
    rfl
  constructor
  case taken => exact htaken
  case startTime => exact st.startTime_ended.trans hstart
  case notBefore => exact hle
  case endTime => exact st.endTime_ended
  case ending_eq => exact hend
  case duration =>
    rw [Span.durationNanos, st.endTime_ended]
    rfl
  case lasts =>
    -- below the bound the minimum is the sum, and it is the later of the two instants
    intro hfits
    omega

/-- In preorder a parent comes before its children, and so it does not start after them. -/
theorem Stamped.parent_le (h : Stamped r shared s top stamps) (hu : UniqueIds ds)
    (hs : s.Follows ds) (hroot : s.root ∈ ds) (hnodup : s.preorder.Nodup)
    (hsorted : (top :: stamps).Pairwise fun a b =>
      a.span.startTime.nanos.toNat ≤ b.span.startTime.nanos.toNat) {st p : Stamp}
    (hst : st ∈ stamps) (hp : p ∈ top :: stamps) (hlink : st.descriptor.parent = p.descriptor.id) :
    p.span.startTime.nanos.toNat ≤ st.span.startTime.nanos.toNat := by
  rcases List.append_of_mem hst with ⟨before, after, hsplit⟩
  have hall : top :: stamps = (top :: before) ++ st :: after := congrArg (top :: ·) hsplit
  have hpreorder : s.preorder = (top :: before).map (·.descriptor) ++
      st.descriptor :: after.map (·.descriptor) := by
    rw [← h.descriptors, hall, List.map_append]
    rfl
  have hne : st.descriptor ≠ s.root := by
    intro heq
    have hbelow : st.descriptor ∈ s.below.preorder := h.rest ▸ List.mem_map.2 ⟨st, hst, rfl⟩
    exact (List.nodup_cons.1 hnodup).1 (heq ▸ hbelow)
  rcases hs.parent_first hpreorder hne with ⟨_, hmap, hlink'⟩
  rcases List.mem_map.1 hmap with ⟨q, hq, rfl⟩
  have hqmem : q ∈ top :: stamps := hall ▸ List.mem_append_left _ hq
  -- there is only one stamp of the descriptor that is named as the parent
  have hmem : ∀ x ∈ top :: stamps, x.descriptor ∈ ds := fun x hx =>
    hs.mem_of_mem_preorder hroot (h.mem_preorder hx)
  have hsame : p.descriptor = q.descriptor :=
    hu.eq_of_id_eq (hmem p hp) (hmem q hqmem) (hlink.symm.trans hlink')
  obtain rfl := List.inj_on_of_nodup_map (h.descriptors ▸ hnodup) hp hqmem hsame
  rw [hall] at hsorted
  exact (List.pairwise_append.1 hsorted).2.2 p hq st List.mem_cons_self

/-- By a clock that never decreases the stamps of a trace are timely. The reading that the root ends
after is the last one. -/
theorem Stamped.timely (h : Stamped r shared s top stamps) (hu : UniqueIds ds)
    (hs : s.Follows ds) (hroot : s.root ∈ ds) (hnodup : s.preorder.Nodup)
    (hclock : Encloses c top stamps c') (hsteady : c.Steady) :
    Timely c c'.now.2 top stamps := by
  have hends : ∀ st ∈ top :: stamps, ∃ i k, EndsOnTime c c'.now.2 st.ended i k st.closed := by
    intro st hst
    rcases hclock.exists_readings hst with ⟨i, k, hi, hik, hlast, hstart, hclosed⟩
    exact ⟨i, k, endsOnTime_of_readings hsteady ⟨hi, hik, Nat.lt_succ_of_le hlast⟩ hstart hclosed⟩
  constructor
  case starts =>
    intro st _
    exact st.startTime_ended
  case ends =>
    intro st hst
    rcases hends st hst with ⟨i, k, hk⟩
    exact ⟨i, k, st.closed, hk⟩
  case later =>
    intro st hst hlast
    rcases hends st hst with ⟨_, _, hk⟩
    refine ⟨st.closed, hk.endTime, ?_⟩
    -- the reading is not before the start, and the sum is cut off at the last instant only
    have hle := hk.notBefore
    have hend := hk.ending_eq
    have hlt := st.ended.startTime.nanos.toNat_lt_size
    omega
  case child =>
    intro st hst p hp hlink
    rw [p.startTime_ended, st.startTime_ended]
    exact h.parent_le hu hs hroot hnodup (hclock.pairwise_start hsteady) hst hp hlink
  case within =>
    intro st hst
    have hst := List.mem_cons_of_mem top hst
    constructor
    · rw [top.startTime_ended, st.startTime_ended]
      exact hclock.start_le hsteady hst
    · exact ⟨st.closed, top.closed, st.endTime_ended, top.endTime_ended,
        hclock.closed_le hsteady hst⟩

/-! ## Emissions -/

variable {m : Emitter} {d : Descriptor}

/-- An emission of a descriptor of an accepted topology, with a tracer for every service, succeeds
and leaves the trace of the subtree; by a clock that never decreases that trace is timely. -/
theorem emit_timely (ht : Topology.ofDescriptors ds = .ok m.topology)
    (hcover : ∀ x ∈ ds, (m.registry.tracer? x.service).isSome) (hd : d ∈ ds) (e : Emission σ)
    (hsteady : e.clock.Steady) :
    ∃ s shared top stamps, s.root = d ∧ s.Follows ds ∧ Stamped m.registry shared s top stamps ∧
      (m.emit d.id e).1 = .ok s.preorder.length ∧
      (m.emit d.id e).2.events.toList = e.events.toList ++ traceLog top stamps ∧
      Timely e.clock (m.emit d.id e).2.clock top stamps := by
  rcases Topology.ofDescriptors_eq_ok_iff.1 ht with ⟨rfl, h⟩
  rcases exists_emitTree (σ := σ) h hd hcover with
    ⟨s, tracer, -, rfl, hfollows, hnodup, bound, hbelow, hemit⟩
  rcases emitTree_walk m tracer s e with ⟨stamps, stop, last, hwalk, hok, -, hleft, hlog⟩
  obtain rfl := hwalk.stop_eq_none hbelow
  have hstamped := hwalk.stamped hfollows bound
  -- the root is started before everything else, and ended after it
  have hclock : Encloses e.clock (stampRoot tracer s.root e last) stamps last.clock :=
    ⟨rfl, hwalk.onTime, rfl⟩
  refine ⟨s, _, _, stamps, rfl, hfollows, hstamped, ?_, ?_, ?_⟩
  · rw [hemit, hok, SpanTree.length_preorder]
    rfl
  · rw [hemit, hlog]
  · rw [hemit, hleft]
    exact hstamped.timely h.unique hfollows hd hnodup hclock hsteady

/-- A clock that moves on by sixty milliseconds at each reading, and shows an instant less than a
tenth of a second before the last one at the fourth. -/
def lateClock : Clock where
  reading i := Timestamp.saturatingAdd ⟨UInt64.ofNat (UInt64.size - 260000000)⟩ (.ofMillis (60 * i))

theorem steady_lateClock : lateClock.Steady := by
  intro i _
  unfold lateClock
  rw [Timestamp.toNat_saturatingAdd, Timestamp.toNat_saturatingAdd]
  unfold Duration.ofMillis
  dsimp only
  omega

/-- Before anything has been emitted, close to the last instant. -/
def lateEmission : Emission Repeating := ⟨.ofList [1, 2, 3], lateClock, #[]⟩

/-- The call is timely close to the last instant too. The span of the cart ends before that, a tenth
of a second after the third reading; that of the root ends there. -/
theorem call_timely :
    Topology.ofDescriptors Topology.call = .ok callEmitter.topology ∧
      (∀ x ∈ Topology.call, (callEmitter.registry.tracer? x.service).isSome) ∧
      ⟨"1", "", "frontend"⟩ ∈ Topology.call ∧ lateClock.Steady ∧
      ((callEmitter.emit "1" lateEmission).2.events.toList.filterMap Event.finished?).map
        (·.endTime) = [some ⟨UInt64.ofNat (UInt64.size - 40000000)⟩, some .last] ∧
      ∃ s shared top stamps, s.root = ⟨"1", "", "frontend"⟩ ∧ s.Follows Topology.call ∧
        Stamped callEmitter.registry shared s top stamps ∧
        (callEmitter.emit "1" lateEmission).1 = .ok s.preorder.length ∧
        (callEmitter.emit "1" lateEmission).2.events.toList =
          lateEmission.events.toList ++ traceLog top stamps ∧
        Timely lateClock (callEmitter.emit "1" lateEmission).2.clock top stamps := by
  have hloads : Topology.ofDescriptors Topology.call = .ok callEmitter.topology :=
    Topology.ofDescriptors_call
  have hcover : ∀ x ∈ Topology.call, (callEmitter.registry.tracer? x.service).isSome := by decide
  have hmem : ⟨"1", "", "frontend"⟩ ∈ Topology.call := by decide
  exact ⟨hloads, hcover, hmem, steady_lateClock, by decide,
    emit_timely hloads hcover hmem lateEmission steady_lateClock⟩

end Emitter

end TraceLoad
