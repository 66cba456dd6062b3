import TetheredParticles.Proofs.Island.Simulation
/-!
# Islands follow their programs

When an island is solved and its program is run side by side, the workspace shows what is in the
cells after every pass, and in the end.

* `Workspace.Shows`, `Workspace.Follows` — a workspace shows its cells.
* `Workspace.Follows.applyTethers`, `Workspace.Follows.solveJoints` — passes.
* `Total.island_shows` — everything a step does to an island.
-/

namespace TetheredParticles

variable {S : Type} [Scalar S]

namespace Workspace

/-- No slot has two places, and no two constraints of a kind have one owner. -/
structure Regular (w : Workspace S) : Prop where
  particles : w.particles.toList.Nodup
  tethers : (w.tethers.map (·.1)).Nodup
  sets : ∀ x ∈ w.tethers, x.2.Regular w.particles.size
  joints : (w.joints.map (·.1)).Nodup
  suspensions : (w.suspensions.map (·.1)).Nodup

omit [Scalar S] in
theorem Regular.placed {w : Workspace S} (h : w.Regular) : Placed w.particles w.slotAt :=
  ⟨h.particles, fun _ => getElem_slotAt⟩

/-- What a workspace remembers does not make it regular. -/
theorem regular_blank {w : Workspace S} : w.blank.Regular ↔ w.Regular := by
  have hsets : (∀ x ∈ w.blank.tethers, x.2.Regular w.particles.size) ↔
      ∀ x ∈ w.tethers, x.2.Regular w.particles.size := by
    have hset : ∀ set : TetherSet S, set.restart.Regular w.particles.size ↔
        set.Regular w.particles.size := by
      intro set
      constructor
      · rintro ⟨hrange, htips⟩
        unfold TetherSet.layers at htips
        rw [TetherSet.batches_restart] at hrange htips
        exact ⟨hrange, htips⟩
      · rintro ⟨hrange, htips⟩
        unfold TetherSet.layers at htips
        rw [← TetherSet.batches_restart] at hrange htips
        exact ⟨hrange, htips⟩
    constructor
    · intro h x hx
      exact (hset x.2).mp (h _ (List.mem_map.mpr ⟨x, hx, rfl⟩))
    · intro h y hy
      rcases List.mem_map.mp hy with ⟨x, hx, rfl⟩
      exact (hset x.2).mpr (h x hx)
  have htethers : w.blank.tethers.map (·.1) = w.tethers.map (·.1) := List.map_map
  have hjoints : w.blank.joints.map (·.1) = w.joints.map (·.1) := List.map_map
  have hsuspensions : w.blank.suspensions.map (·.1) = w.suspensions.map (·.1) := List.map_map
  constructor
  · rintro ⟨hparticles, hone, htwo, hthree, hfour⟩
    exact ⟨hparticles, htethers ▸ hone, hsets.mp htwo, hjoints ▸ hthree, hsuspensions ▸ hfour⟩
  · rintro ⟨hparticles, hone, htwo, hthree, hfour⟩
    exact ⟨hparticles, htethers.symm ▸ hone, hsets.mpr htwo, hjoints.symm ▸ hthree,
      hsuspensions.symm ▸ hfour⟩

/-- A workspace shows the cells of its particles, joints and suspensions. -/
structure Shows (w : Workspace S) (σ : Motion S) : Prop where
  positions : Shown w.particles w.positions σ
  joints : ∀ x ∈ w.joints, x.2.Remembered x.1 σ
  suspensions : ∀ x ∈ w.suspensions, x.2.Remembered x.1 σ

/-- A workspace goes on from the start and shows all its cells. -/
structure Follows (start w : Workspace S) (σ : Motion S) : Prop where
  continues : start.Continues w
  shows : w.Shows σ
  tethers : ∀ x ∈ w.tethers, x.2.Remembered w.slotAt x.1 σ

omit [Scalar S] in
/-- Visits to tethers write to slots and to memories of tethers. -/
theorem kinds_of_tetherVisits {w : Workspace S} {rule? : TetherSet S → Option (TetherRule S)}
    {v : Visit S} (hv : v ∈ w.tetherVisits rule?) {c : Cell} (hc : c ∈ v.writes) :
    (∃ slot, c = .slot slot) ∨ ∃ owner layer tip, c = .tether owner layer tip := by
  rcases List.mem_flatMap.mp hv with ⟨⟨owner, set⟩, _, hv⟩
  rcases mem_writes_ofTethers hv hc with ⟨x, _, rfl | rfl⟩
  · exact .inl ⟨_, rfl⟩
  · exact .inr ⟨_, _, _, rfl⟩

/-- Visits to joints write to slots and to memories of joints. -/
theorem kinds_of_jointVisits {w : Workspace S} {v : Visit S} (hv : v ∈ w.jointVisits) {c : Cell}
    (hc : c ∈ v.writes) : (∃ slot, c = .slot slot) ∨ ∃ owner, c = .joint owner := by
  rcases List.mem_map.mp hv with ⟨⟨owner, j⟩, _, rfl⟩
  simp only [Visit.writes, List.mem_cons, List.not_mem_nil, or_false] at hc
  rcases hc with rfl | rfl | rfl
  · exact .inl ⟨_, rfl⟩
  · exact .inl ⟨_, rfl⟩
  · exact .inr ⟨_, rfl⟩

/-- Visits to suspensions write to slots and to memories of suspensions. -/
theorem kinds_of_suspensionVisits {w : Workspace S} {v : Visit S} (hv : v ∈ w.suspensionVisits)
    {c : Cell} (hc : c ∈ v.writes) :
    (∃ slot, c = .slot slot) ∨ ∃ owner, c = .suspension owner := by
  rcases List.mem_map.mp hv with ⟨⟨owner, s⟩, _, rfl⟩
  simp only [Visit.writes, List.mem_cons, List.not_mem_nil, or_false] at hc
  rcases hc with rfl | rfl
  · exact .inl ⟨_, rfl⟩
  · exact .inr ⟨_, rfl⟩

/-! ## Passes -/

variable {masses : Nat → S} (dt : S) {start w : Workspace S} {σ : Motion S}

/-- An action that moves along with a list of visits does so any number of times. -/
theorem iterate_visits {A : Type} {R : A → Motion S → Prop} {action : A → A}
    {visits : List (Visit S)}
    (haction : ∀ a σ, R a σ → R (action a) (Visit.runAll masses dt visits σ)) (n : Nat) {a : A}
    (h : R a σ) :
    R (action^[n] a) (Visit.runAll masses dt (List.replicate n visits).flatten σ) := by
  rw [Visit.runAll_replicate]
  induction n generalizing a σ with
  | zero => exact h
  | succ n ih =>
    rw [Function.iterate_succ_apply, Function.iterate_succ_apply]
    exact ih (haction a σ h)

namespace Follows

/-- A workspace that goes on from a regular one is regular. -/
theorem regular (h : Follows start w σ) (hr : start.Regular) : w.Regular := by
  rw [← regular_blank, h.continues.blank, regular_blank]
  exact hr

/-- One projection of every tether. -/
theorem applyTethers (h : Follows start w σ) (hr : start.Regular) :
    Follows start (Total.applyTethers dt w)
      (Visit.runAll masses dt (start.program dt).tethers σ) := by
  have hregular := h.regular hr
  have hkind := TetherSet.kind_faithful masses dt hregular.placed
  rcases hkind.visitOwned hregular.tethers hregular.sets h.shows.positions h.tethers
    with ⟨hshown, hmemory⟩
  rw [← h.continues.program]
  show Follows start _ (Visit.runAll masses dt (w.tetherVisits (·.rule? dt)) σ)
  refine ⟨(Total.applyTethers_eq h.continues dt).2, ⟨hshown, ?_, ?_⟩, hmemory⟩
  · intro x hx
    refine (Visit.runAll_frame ?_).trans (h.shows.joints x hx)
    intro v hv hwrites
    rcases kinds_of_tetherVisits hv hwrites with ⟨_, heq⟩ | ⟨_, _, _, heq⟩
    · cases heq
    · cases heq
  · intro x hx
    refine (Visit.runAll_frame ?_).trans (h.shows.suspensions x hx)
    intro v hv hwrites
    rcases kinds_of_tetherVisits hv hwrites with ⟨_, heq⟩ | ⟨_, _, _, heq⟩
    · cases heq
    · cases heq

/-- One projection of every joint, then of every suspension. -/
theorem solveJoints (h : Follows start w σ) (hr : start.Regular)
    (hm : Weighs start.inverseMasses start.particles.size start.slotAt masses) :
    Follows start (Total.solveJoints dt w)
      (Visit.runAll masses dt (start.program dt).joints σ) := by
  have hregular := h.regular hr
  have hfits := h.continues.fits
  have hweighs : Weighs w.inverseMasses w.particles.size w.slotAt masses := by
    rw [h.continues.inverseMasses]
    unfold slotAt
    rw [h.continues.particles]
    exact hm
  -- visits to the joints, and then to the suspensions
  have hjoints := (Joint.kind_faithful dt hregular.placed hweighs).visitOwned hregular.joints
    hfits.joints h.shows.positions h.shows.joints
  have hafter : ∀ x ∈ w.suspensions, x.2.Remembered x.1
      (Visit.runAll masses dt w.jointVisits σ) := by
    intro x hx
    refine (Visit.runAll_frame ?_).trans (h.shows.suspensions x hx)
    intro v hv hwrites
    rcases kinds_of_jointVisits hv hwrites with ⟨_, heq⟩ | ⟨_, heq⟩
    · cases heq
    · cases heq
  have hvisits : (w.joints.flatMap fun x =>
      (Joint.kind w.inverseMasses dt w.particles.size w.slotAt).visits x.1 x.2) =
        w.jointVisits := List.map_eq_flatMap.symm
  rw [hvisits] at hjoints
  rcases hjoints with ⟨hshown, hmemory⟩
  have hsuspensions := (Suspension.kind_faithful dt hregular.placed hweighs).visitOwned
    hregular.suspensions hfits.suspensions hshown hafter
  have hlastVisits : (w.suspensions.flatMap fun x =>
      (Suspension.kind w.inverseMasses dt w.particles.size w.slotAt).visits x.1 x.2) =
        w.suspensionVisits := List.map_eq_flatMap.symm
  rw [hlastVisits] at hsuspensions
  rcases hsuspensions with ⟨hlast, hlastMemory⟩
  rw [← h.continues.program]
  show Follows start _ (Visit.runAll masses dt (w.jointVisits ++ w.suspensionVisits) σ)
  rw [Visit.runAll_append]
  refine ⟨(Total.solveJoints_eq h.continues dt).2, ⟨hlast, ?_, hlastMemory⟩, ?_⟩
  · intro x hx
    refine (Visit.runAll_frame ?_).trans (hmemory x hx)
    intro v hv hwrites
    rcases kinds_of_suspensionVisits hv hwrites with ⟨_, heq⟩ | ⟨_, heq⟩
    · cases heq
    · cases heq
  · intro x hx ms hms
    rw [h.tethers x hx ms hms]
    refine List.map_congr_left ?_
    intro t _
    rw [Visit.runAll_frame, Visit.runAll_frame]
    · rfl
    · intro v hv hwrites
      rcases kinds_of_jointVisits hv hwrites with ⟨_, heq⟩ | ⟨_, heq⟩
      · cases heq
      · cases heq
    · intro v hv hwrites
      rcases kinds_of_suspensionVisits hv hwrites with ⟨_, heq⟩ | ⟨_, heq⟩
      · cases heq
      · cases heq

/-- One pass over all constraints. -/
theorem pass (h : Follows start w σ) (hr : start.Regular)
    (hm : Weighs start.inverseMasses start.particles.size start.slotAt masses)
    (config : Config S) :
    Follows start (Total.pass config dt w) (Visit.runAll masses dt
      ((start.program dt).tethers ++
        (List.replicate config.jointIterations.toNat (start.program dt).joints).flatten) σ) := by
  rw [Visit.runAll_append]
  refine iterate_visits dt ?_ config.jointIterations.toNat (h.applyTethers dt hr)
  intro w σ hw
  exact hw.solveJoints dt hr hm

/-- All projection passes. -/
theorem passes (h : Follows start w σ) (hr : start.Regular)
    (hm : Weighs start.inverseMasses start.particles.size start.slotAt masses)
    (config : Config S) :
    Follows start ((Total.pass config dt)^[config.positionIterations.toNat] w)
      (Visit.runAll masses dt ((start.program dt).solve config) σ) := by
  refine iterate_visits dt ?_ config.positionIterations.toNat h
  intro w σ hw
  exact hw.pass dt hr hm config

end Follows

/-! ## Rigid passes -/

/-- Rigid projections of sets move particles as their visits do. -/
theorem rigid_shown {particles : Array Nat} {slotAt : Nat → Nat} (hp : Placed particles slotAt)
    {sets : List (ProxyId × TetherSet S)} (hsets : ∀ x ∈ sets, x.2.Regular particles.size)
    {positions : Array (Vec3 S)} (h : Shown particles positions σ) :
    Shown particles
      (sets.foldl (fun positions x => Total.project x.2.batches 1 positions) positions)
      (Visit.runAll masses dt (sets.flatMap fun x =>
        Visit.ofTethers x.1 TetherRule.rigid?
          (x.2.layers.map fun y => (y.1, y.2.relabel slotAt))) σ) := by
  induction sets generalizing positions σ with
  | nil => exact h
  | cons x rest ih =>
    have hset := hsets x List.mem_cons_self
    rw [List.foldl_cons, List.flatMap_cons, Visit.runAll_append]
    refine ih (fun y hy => hsets y (List.mem_cons_of_mem x hy)) ?_
    exact project_shown masses dt hp x.1 hset 1 h

/-- A workspace during the rigid passes: multipliers no longer matter, and the solved positions
stay. -/
structure Pushed (start w : Workspace S) (solved : Array (Vec3 S)) (σ : Motion S) : Prop where
  continues : start.Continues w
  shows : w.Shows σ
  solved : w.solved = solved

namespace Pushed

variable {solved : Array (Vec3 S)}

/-- One rigid pass over every tether. -/
theorem rigidPass (h : Pushed start w solved σ) (hr : start.Regular) :
    Pushed start (Total.rigidPass w) solved
      (Visit.runAll masses dt (start.program dt).rigid σ) := by
  have hregular : w.Regular := by
    rw [← regular_blank, h.continues.blank, regular_blank]
    exact hr
  rw [← h.continues.program]
  show Pushed _ _ _ (Visit.runAll masses dt (w.tetherVisits fun _ => TetherRule.rigid?) σ)
  refine ⟨(Total.rigidPass_eq h.continues).2.1, ⟨?_, ?_, ?_⟩, h.solved⟩
  · exact rigid_shown dt hregular.placed hregular.sets h.shows.positions
  · intro x hx
    refine (Visit.runAll_frame ?_).trans (h.shows.joints x hx)
    intro v hv hwrites
    rcases kinds_of_tetherVisits hv hwrites with ⟨_, heq⟩ | ⟨_, _, _, heq⟩
    · cases heq
    · cases heq
  · intro x hx
    refine (Visit.runAll_frame ?_).trans (h.shows.suspensions x hx)
    intro v hv hwrites
    rcases kinds_of_tetherVisits hv hwrites with ⟨_, heq⟩ | ⟨_, _, _, heq⟩
    · cases heq
    · cases heq

/-- All rigid passes. -/
theorem passes (h : Pushed start w solved σ) (hr : start.Regular) (config : Config S) :
    Pushed start (Total.rigidPass^[config.pushOutIterations.toNat] w) solved
      (Visit.runAll masses dt ((start.program dt).push config) σ) := by
  refine iterate_visits (R := fun w σ => Pushed start w solved σ) dt ?_
    config.pushOutIterations.toNat h
  intro w σ hw
  exact hw.rigidPass dt hr

end Pushed

/-! ## Whole islands -/

/-- Everything a step does to an island: the solved positions are those after the projection
passes, and the workspace shows its cells after the rigid passes. -/
theorem island_shows {store : ParticleStore S} {config : Config S} (hr : w.Regular)
    (hfits : (w.gather store).restart.Fits)
    (hm : Weighs (w.gather store).inverseMasses w.particles.size w.slotAt masses)
    (h : Follows (w.gather store).restart (w.gather store).restart σ) :
    let τ := Visit.runAll masses dt ((w.program dt).solve config) σ
    Shown w.particles (Total.island config store dt w).solved τ ∧
      (Total.island config store dt w).Shows
        (Visit.runAll masses dt ((w.program dt).push config) τ) := by
  let start := (w.gather store).restart
  have hblank : start.blank = w.blank := blank_restart (w.gather store)
  have hregular : start.Regular := by
    rw [← regular_blank, hblank, regular_blank]
    exact hr
  have hprogram : start.program dt = w.program dt := by
    rw [← program_blank start, hblank, program_blank]
  rw [← hprogram]
  have hsolved := h.passes dt hregular hm config
  have hcontinues := (Total.solve_eq hfits config dt).2.1
  have hshows : (Total.solve config dt (w.gather store)).Shows
      (Visit.runAll masses dt ((start.program dt).solve config) σ) :=
    ⟨hsolved.shows.positions, hsolved.shows.joints, hsolved.shows.suspensions⟩
  have hstart : Pushed start (Total.solve config dt (w.gather store))
      (Total.solve config dt (w.gather store)).solved
      (Visit.runAll masses dt ((start.program dt).solve config) σ) := ⟨hcontinues, hshows, rfl⟩
  have hpushed : Pushed start (Total.island config store dt w)
      (Total.solve config dt (w.gather store)).solved (Visit.runAll masses dt
        ((start.program dt).push config) _) := hstart.passes dt hregular config
  refine ⟨?_, hpushed.shows⟩
  have hshown := hsolved.shows.positions
  rw [hsolved.continues.particles] at hshown
  rw [hpushed.solved]
  exact hshown

end Workspace

end TetheredParticles
