import TraceLoad.Proofs.ServiceNames
import TraceLoad.Session.Simulation

/-! # Dry runs

A dry run checks its topology in another way than a run does: it asks for the services by a list
of names, while a run validates its configuration for the second time, looks for a root and asks
its registry. Still the two come to the same (`ensureRunnable_eq`): what can be loaded is a
topology with one root, and the registry is made of the same names. So a dry run foretells how a
run starts (`rehearsal_foretells`), and what a session fails for does not depend on whether it is
one, as long as the output can be created (`simulate_failure_eq`).
-/

namespace TraceLoad

variable {c : Config} {contents : FileContents} {t : Topology}

theorem eq_ok_of_mapError {α ε ε' : Type} {f : ε → ε'} {x : Except ε α} {a : α}
    (h : x.mapError f = .ok a) : x = .ok a := by
  cases x with
  | error e => cases h
  | ok b =>
    cases h
    rfl

theorem exists_of_bind_eq_ok {α β ε : Type} {x : Except ε α} {f : α → Except ε β} {b : β}
    (h : x >>= f = .ok b) : ∃ a, x = .ok a ∧ f a = .ok b := by
  cases x with
  | error e => cases h
  | ok a => exact ⟨a, rfl, h⟩

/-- The topology of an export is well-formed. -/
theorem Topology.wellFormed_of_ofExport {bytes : List UInt8} (h : ofExport bytes = .ok t) :
    t.WellFormed := by
  unfold ofExport at h
  split at h
  · cases h
  · split at h
    · cases h
    · next htopology =>
      cases h
      rcases exists_of_bind_eq_ok htopology with ⟨ds, _, hds⟩
      exact (ofDescriptors_eq_ok_iff.1 hds).2

namespace Session

/-- Whatever the source is, what is loaded from it is well-formed. -/
theorem wellFormed_of_loadFrom {source : TopologySource} (h : loadFrom contents source = .ok t) :
    t.WellFormed := by
  cases source with
  | builtin =>
    have hbuiltin : Topology.builtin = .ok t := eq_ok_of_mapError h
    exact (Topology.ofDescriptors_eq_ok_iff.1 hbuiltin).2
  | file path =>
    cases contents with
    | absent reason => cases h
    | unreadable reason => cases h
    | bytes bytes => exact Topology.wellFormed_of_ofExport (eq_ok_of_mapError h)

/-- When the topology is there the configuration is valid and the topology well-formed. -/
theorem of_load_eq_ok (h : load c contents = .ok t) : c.validate = .ok () ∧ t.WellFormed := by
  rcases exists_of_bind_eq_ok h with ⟨_, hvalid, hload⟩
  exact ⟨eq_ok_of_mapError hvalid, wellFormed_of_loadFrom (eq_ok_of_mapError hload)⟩

/-- The check before a run demands of what has been loaded what a dry run demands. -/
theorem ensureRunnable_eq (h : load c contents = .ok t) :
    ensureRunnable c t = ensureServices t := by
  rcases of_load_eq_ok h with ⟨hvalid, hwell⟩
  unfold ensureRunnable ensureServices Runner.check registry
  rw [hvalid, hwell.findRoot_eq, Registry.ensureCovers_ofNames]
  dsimp only
  cases t.ensureKnown fun name => decide (name ∈ Registry.defaultServices) with
  | error e => rfl
  | ok _ => rfl

/-- The checks of a dry run find the topology or the failure that those of a run find. -/
theorem rehearse_eq (c : Config) (contents : FileContents) :
    rehearse c contents = preflight c contents := by
  unfold rehearse preflight
  cases hload : load c contents with
  | error f => rfl
  | ok t =>
    show (ensureServices t >>= fun _ => pure t) = (ensureRunnable c t >>= fun _ => pure t)
    rw [ensureRunnable_eq hload]

section Begin

variable (line : CommandLine)

/-- What cannot be loaded fails in either mode. -/
theorem begin_of_error {f : Failure} (h : load line.config contents = .error f) :
    begin line contents = ([], .failed f) := by
  rw [begin, h]

/-- A rehearsal ends with the check of the services. -/
theorem begin_of_dryRun (h : load line.config contents = .ok t) (hdry : line.dryRun = true) :
    (begin line contents).2 =
      match ensureServices t with
      | .error f => .failed f
      | .ok () => .rehearsed := by
  rw [begin, h]
  dsimp only
  rw [if_pos hdry]
  cases ensureServices t with
  | error f => rfl
  | ok _ => rfl

/-- A run goes on to its workers. -/
theorem begin_of_run (h : load line.config contents = .ok t) (hrun : line.dryRun = false) :
    begin line contents = ([introduction t], .loaded t) := by
  rw [begin, h]
  dsimp only
  rw [hrun]
  rfl

end Begin

/-- What a dry run tells about a run of the same command line, whatever the source contains. -/
structure Foretold (line : CommandLine) (contents : FileContents) : Prop where
  /-- the checks of both find the same topology, or the same failure -/
  same : rehearse line.config contents = preflight line.config contents
  /-- the dry run fails for what the run fails for before its first step -/
  fails : ∀ f, (begin { line with dryRun := true } contents).2 = .failed f ↔
    (begin { line with dryRun := false } contents).2 = .failed f ∨
      ∃ t, (begin { line with dryRun := false } contents).2 = .loaded t ∧
        ensureRunnable line.config t = .error f
  /-- it comes out well if the run gets to its first step -/
  passes : (begin { line with dryRun := true } contents).2 = .rehearsed ↔
    ∃ t, (begin { line with dryRun := false } contents).2 = .loaded t ∧
      ensureRunnable line.config t = .ok ()

/-- The checks of a dry run and those before a run's first step succeed together, and fail together
for the same reason. -/
theorem rehearsal_foretells (line : CommandLine) (contents : FileContents) :
    Foretold line contents := by
  cases hload : load line.config contents with
  | error f =>
    have hdry := begin_of_error { line with dryRun := true } hload
    have hrun := begin_of_error { line with dryRun := false } hload
    exact ⟨rehearse_eq _ _, by simp [hdry, hrun], by simp [hdry, hrun]⟩
  | ok t =>
    have hdry := begin_of_dryRun { line with dryRun := true } hload rfl
    have hrun := begin_of_run { line with dryRun := false } hload rfl
    -- once a topology is loaded both modes make the same check of it
    rw [← ensureRunnable_eq hload] at hdry
    refine ⟨rehearse_eq _ _, ?_, ?_⟩
    · intro f
      rw [hdry, hrun]
      cases hcheck : ensureRunnable line.config t with
      | error g => simp [hcheck]
      | ok _ => simp [hcheck]
    · rw [hdry, hrun]
      cases hcheck : ensureRunnable line.config t with
      | error g => simp [hcheck]
      | ok _ => simp [hcheck]

/-- A session whose output can be created fails for what its dry run fails for, and otherwise not
at all. -/
theorem simulate_failure_eq {line : CommandLine} {files : Files} {place : Place}
    (hplace : files.outputOf line = .ok place) (rounds : Nat) (fresh : Nat → UInt64)
    (clock : Clock) :
    (simulate rounds { line with dryRun := false } files fresh clock).failure =
      (simulate rounds { line with dryRun := true } files fresh clock).failure := by
  have hplace' : files.outputOf { line with dryRun := false } = .ok place := hplace
  unfold simulate
  cases hload : load line.config (files.contentsOf line.config.source) with
  | error f =>
    rw [begin_of_error { line with dryRun := false } hload,
      begin_of_error { line with dryRun := true } hload]
  | ok t =>
    rw [begin_of_run { line with dryRun := false } hload rfl, hplace']
    -- the rehearsal makes the check at its beginning, the run when it sets out
    have hdry := begin_of_dryRun { line with dryRun := true } hload rfl
    rcases hbegin : begin { line with dryRun := true } (files.contentsOf line.config.source) with
      ⟨told, course⟩
    rw [hbegin, ← ensureRunnable_eq hload] at hdry
    dsimp only at hdry ⊢
    subst hdry
    cases ensureRunnable line.config t with
    | error f => rfl
    | ok _ => rfl

end Session

end TraceLoad
