import TetheredParticles.Proofs.World.Reports
/-!
# The stages of a step

A step applies its deltas, brings the topology up to date, moves the world if its size is positive,
and concludes by forgetting what was meant for this step. Each stage is a computation of its own,
and a step that ends has been through all of them.

* `World.refreshed_of_refresh` — what bringing the topology up to date leaves as it is.
* `World.advance`, `World.conclude` — the moving stage and the end of a step.
* `World.step_eq_stages`, `World.stages_of_step` — steps and stages.
-/

namespace TetheredParticles

variable {S T : Type} [Scalar S] [Scalar T] [Timeline S T]

namespace World

variable {w before after : World S}

/-! ## Deltas and topology -/

/-- Laying out the world anew does nothing to its particles, forgets no force, and keeps the
configuration. -/
structure Refreshed (w after : World S) : Prop where
  store : after.store = w.store
  forces : after.forces = w.forces
  config : after.config = w.config
  touched : after.touched = w.touched

theorem refreshed_of_refresh (h : w.refresh = .ok after) : w.Refreshed after := by
  unfold refresh at h
  split at h
  case isTrue =>
    -- rebuilding replaces clusters, constraints and islands, and nothing that is listed here
    have hstore := (relaid_of_rebuild h).store
    have htouched := touched_of_rebuild h
    unfold rebuild at h
    rcases exists_of_bind_ok h with ⟨laid, hlaid, h⟩
    rcases exists_of_bind_ok h with ⟨partition, _, h⟩
    rcases clusters_of_layTethers hlaid with ⟨clusters, rfl, _⟩
    cases h
    exact ⟨hstore, rfl, rfl, htouched⟩
  case isFalse =>
    cases h
    exact ⟨rfl, rfl, rfl, rfl⟩

/-- The deltas come first, and then the topology. -/
theorem prepare_eq (w : World S) (deltas : List (Delta S)) : w.prepare deltas =
    (fun before => (w.droppedOf deltas, before)) <$> (w.updated deltas).refresh := rfl

theorem prepare_eq_ok {deltas : List (Delta S)} {dropped : Nat} :
    w.prepare deltas = .ok (dropped, before) ↔
      dropped = w.droppedOf deltas ∧ (w.updated deltas).refresh = .ok before := by
  rw [prepare_eq]
  cases (w.updated deltas).refresh with
  | error fault => exact ⟨fun h => (nomatch h), fun h => (nomatch h.2)⟩
  | ok refreshed =>
    constructor
    · intro h
      cases h
      exact ⟨rfl, rfl⟩
    · rintro ⟨rfl, h⟩
      cases h
      rfl

/-! ## Moving -/

/-- The world after the moving stage, which does nothing unless the step has a positive size. -/
def advance (w : World S) (dt : S) : Except Fault (World S) :=
  if 0 < dt then w.move dt else .ok w

/-- What a step comes to once the world has moved. -/
def conclude (before after : World S) (snapshot : PushSnapshot S T) (dropped : Nat) :
    StepOutcome S T where
  world := { after with store := after.store.clearStepData, latest := snapshot.timestamp }
  pull := {
    timestamp := snapshot.timestamp
    startTime := snapshot.startTime
    endTime := snapshot.startTime + Timeline.widen snapshot.dt
    results := after.results (0 < snapshot.dt)
    counts := { islands := after.workspaces.size, tethers := after.tetherCount, dropped } }
  info := before.info snapshot
  storeBefore := before.store
  storeAfter := after.store

/-- A step goes through all stages. -/
theorem step_eq_stages (w : World S) (snapshot : PushSnapshot S T) : w.step snapshot = (do
    let before ← (w.updated snapshot.deltas).refresh
    let after ← before.advance snapshot.dt
    return before.conclude after snapshot (w.droppedOf snapshot.deltas)) := by
  unfold World.step advance
  rw [prepare_eq]
  cases (w.updated snapshot.deltas).refresh with
  | error fault => rfl
  | ok before =>
    -- results heed the size as a Boolean, the moving stage as a proposition
    by_cases hdt : 0 < snapshot.dt
    · simp only [hdt, decide_true, if_true]
      unfold conclude
      simp only [hdt, decide_true]
      rfl
    · simp only [hdt, decide_false, Bool.false_eq_true, if_false]
      unfold conclude
      simp only [hdt, decide_false]
      rfl

theorem stages_of_step {snapshot : PushSnapshot S T} {outcome : StepOutcome S T}
    (h : w.step snapshot = .ok outcome) : ∃ before after,
      (w.updated snapshot.deltas).refresh = .ok before ∧ before.advance snapshot.dt = .ok after ∧
        outcome = before.conclude after snapshot (w.droppedOf snapshot.deltas) := by
  rw [step_eq_stages] at h
  rcases exists_of_bind_ok h with ⟨before, hbefore, h⟩
  rcases exists_of_bind_ok h with ⟨after, hafter, h⟩
  cases h
  exact ⟨before, after, hbefore, hafter, rfl⟩

/-- Moving the world leaves its settings alone, and everything but how its particles move and which
forces act. -/
theorem shifted_of_advance {dt : S} (h : w.advance dt = .ok after) :
    w.Shifted after ∧ after.config = w.config := by
  unfold advance at h
  split at h
  case isTrue =>
    refine ⟨shifted_of_move h, ?_⟩
    unfold move at h
    rcases exists_of_bind_ok h with ⟨workspaces, _, h⟩
    cases h
    rfl
  case isFalse =>
    cases h
    exact ⟨⟨.refl _, rfl, rfl, rfl, rfl, rfl⟩, rfl⟩

/-- Once the deltas are applied, a step changes nothing of a particle but where it is and how it
moves, until what was meant for the step is forgotten. -/
theorem drifted_of_step {snapshot : PushSnapshot S T} {outcome : StepOutcome S T}
    (h : w.step snapshot = .ok outcome) :
    (w.updated snapshot.deltas).store.Drifted outcome.storeAfter := by
  rcases stages_of_step h with ⟨before, after, hrefresh, hadvance, rfl⟩
  rw [← (refreshed_of_refresh hrefresh).store]
  unfold advance at hadvance
  split at hadvance
  case isTrue => exact (drifted_of_move hadvance).1
  case isFalse =>
    cases hadvance
    exact .refl _

end World

end TetheredParticles
