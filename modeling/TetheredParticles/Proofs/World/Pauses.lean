import TetheredParticles.Proofs.World.Stages
/-!
# Steps in which nothing moves

A step whose size is not positive applies its deltas and moves nothing. What is meant for one step
is forgotten at the end of such a step as well, so that forces and targets that are pending after
the deltas are lost, and a particle that waits for a target stops. A particle is left as the deltas
made it exactly if nothing is pending for it.

* `ParticleSlot.Concurs`, `ParticleSlot.Lapsed` — what is kept and what is lost at the end.
* `World.paused_of_step` — a step of any world in which nothing moves.
* `World.step_paused` — the same after anything that was asked of the empty world.
-/

namespace TetheredParticles

variable {S T : Type} [Scalar S] [Scalar T] [Timeline S T]

/-! ## Slots -/

/-- A particle is where it was, moves as it did and weighs what it did, and the same is pending for
it. -/
structure ParticleSlot.Concurs (s t : ParticleSlot S) : Prop where
  position : t.position = s.position
  velocity : t.velocity = s.velocity
  inverseMass : t.inverseMass = s.inverseMass
  force : t.force = s.force
  target : t.target = s.target

/-- What is meant for one step is forgotten, and a particle that waited for a target stops.
Everything else stays. -/
structure ParticleSlot.Lapsed (s t : ParticleSlot S) : Prop where
  position : t.position = s.position
  predicted : t.predicted = s.predicted
  inverseMass : t.inverseMass = s.inverseMass
  alike : s.Alike t
  coasting : s.target = none → t.velocity = s.velocity
  stopped : s.target.isSome = true → t.velocity = 0
  quiet : t.Quiet

namespace ParticleSlot

variable {s t : ParticleSlot S}

theorem lapsed_settled (s : ParticleSlot S) : s.Lapsed s.settled where
  position := rfl
  predicted := rfl
  inverseMass := rfl
  alike := ⟨rfl, rfl, rfl, rfl⟩
  coasting htarget := by
    unfold settled
    rw [htarget]
    rfl
  stopped htarget := by
    unfold settled
    rw [htarget]
    rfl
  quiet := quiet_settled s

/-- A particle stays as it was exactly if nothing was pending for it. -/
theorem Lapsed.concurs_iff (h : s.Lapsed t) : s.Concurs t ↔ s.force = 0 ∧ s.target = none := by
  constructor
  · intro hc
    exact ⟨hc.force.symm.trans h.quiet.force, hc.target.symm.trans h.quiet.target⟩
  · rintro ⟨hforce, htarget⟩
    exact ⟨h.position, h.coasting htarget, h.inverseMass, h.quiet.force.trans hforce.symm,
      h.quiet.target.trans htarget.symm⟩

end ParticleSlot

namespace World

variable {w after : World S}

/-! ## Steps -/

/-- What a step in which nothing moves does to particles and forces. -/
structure Paused (w : World S) (deltas : List (Delta S)) (outcome : StepOutcome S T) : Prop where
  /-- Hooks are shown the particles as the deltas made them, before and after. -/
  before : outcome.storeBefore = (w.updated deltas).store
  after : outcome.storeAfter = (w.updated deltas).store
  lapsed : ∀ i, ((w.updated deltas).store.slot i).Lapsed (outcome.world.store.slot i)
  /-- The particles that are left as the deltas made them. -/
  kept : ∀ i, ((w.updated deltas).store.slot i).Concurs (outcome.world.store.slot i) ↔
    ((w.updated deltas).store.slot i).force = 0 ∧ ((w.updated deltas).store.slot i).target = none
  forces : outcome.world.forces = (w.updated deltas).forces

/-- A step without a positive size leaves of every particle what its deltas made of it, less what
was meant for the step. -/
theorem paused_of_step {snapshot : PushSnapshot S T} {outcome : StepOutcome S T}
    (hs : w.step snapshot = .ok outcome) (hdt : ¬ 0 < snapshot.dt) :
    w.Paused snapshot.deltas outcome := by
  rcases stages_of_step hs with ⟨before, after, hrefresh, hadvance, rfl⟩
  unfold advance at hadvance
  rw [if_neg hdt] at hadvance
  cases hadvance
  -- hooks are shown the same store twice, and only the clearing is left
  rcases refreshed_of_refresh hrefresh with ⟨hstore, hforces, _, _⟩
  have hlapsed : ∀ i, ((w.updated snapshot.deltas).store.slot i).Lapsed
      (before.store.clearStepData.slot i) := by
    intro i
    rw [ParticleStore.slot_clearStepData, hstore]
    exact ParticleSlot.lapsed_settled _
  exact ⟨hstore, hstore, hlapsed, fun i => (hlapsed i).concurs_iff, hforces⟩

/-- Whatever a world was asked before, and whatever a snapshot holds, a step without a positive size
applies its deltas, moves nothing, and forgets what is pending after them; and no step fails if the
snapshots are admissible. -/
theorem step_paused [LawfulSign S] [LawfulDirections S] {config : Config S}
    {actions : List (Action S T)} {w : World S} (hrun : (empty config).run actions = .ok w)
    (snapshot : PushSnapshot S T) (hdt : ¬ 0 < snapshot.dt) :
    (∀ outcome, w.step snapshot = .ok outcome → w.Paused snapshot.deltas outcome) ∧
    ((∀ s, .step s ∈ actions → s.Admissible) → snapshot.Admissible →
      ∃ outcome, w.step snapshot = .ok outcome) := by
  refine ⟨fun outcome hs => paused_of_step hs hdt, fun ha hsnapshot => ?_⟩
  rcases (grown_of_run ha hrun).step hsnapshot with ⟨outcome, hs, _⟩
  exact ⟨outcome, hs⟩

/-- A particle that is pushed while nothing moves. -/
def push : PushSnapshot Float32 Float where
  timestamp := ⟨1⟩
  startTime := 0
  dt := 0
  step := 0
  stepCount := 1
  deltas :=
    [⟨⟨0, 0⟩, .create (.particle ⟨0, 0⟩ (.dynamic 0 1))⟩,
      ⟨⟨0, 0⟩, .addForce ⟨0, 0⟩ ⟨1, 0, 0⟩⟩]

theorem push_admissible : push.Admissible := by
  intro d hd
  simp only [push, List.mem_cons, List.not_mem_nil, or_false] at hd
  rcases hd with rfl | rfl
  · exact ⟨trivial, (by decide : (0 : Nat) < 2 ^ 32)⟩
  · exact ⟨trivial, trivial⟩

/-- The pushed particle is not moved by the step that pushes it. -/
theorem push_paused : ∃ outcome : StepOutcome Float32 Float,
    (empty .standard).step push = .ok outcome ∧ ¬ 0 < push.dt ∧
      (empty .standard).Paused push.deltas outcome := by
  have hdt : ¬ 0 < push.dt := by decide
  have hrun : (empty Config.standard).run ([] : List (Action Float32 Float)) =
      .ok (empty Config.standard) := rfl
  rcases step_paused hrun push hdt with ⟨hpaused, hends⟩
  rcases hends (fun s hs => absurd hs List.not_mem_nil) push_admissible with ⟨outcome, hs⟩
  exact ⟨outcome, hs, hdt, hpaused outcome hs⟩

/-- The push is lost: the force is pending once the deltas are applied, and no longer after the
step. -/
theorem push_forgotten : ¬ ∀ outcome : StepOutcome Float32 Float,
    (empty .standard).step push = .ok outcome → ∀ i, outcome.world.store.isAlive i = true →
      (((empty Config.standard).updated push.deltas).store.slot i).Concurs
        (outcome.world.store.slot i) := by
  intro hall
  rcases (Grown.empty Config.standard).step push_admissible with ⟨outcome, hs, _⟩
  have hpaused := paused_of_step hs (by decide : ¬ 0 < push.dt)
  have hpending : (((empty Config.standard).updated push.deltas).store.slot 0).force.x = 1 := by
    decide +kernel
  have halive : outcome.world.store.isAlive 0 = true := by
    refine (hpaused.lapsed 0).alike.alive.trans ?_
    decide +kernel
  -- to be kept, the particle would need to have no force after the deltas
  have hforce := ((hpaused.kept 0).mp (hall outcome hs 0 halive)).1
  rw [hforce] at hpending
  exact absurd hpending (by decide)

end World

end TetheredParticles
