import TetheredParticles.Proofs.Island.Fading
import TetheredParticles.Proofs.World.Edits
/-!
# What writes leave to the topology stage

Workspaces remember in which directions their joints and suspensions pulled last. No write changes
these directions, the islands or the configuration; a new topology forgets all directions.

* `World.memory` — all directions that workspaces remember.
* `World.retained_applyCommand`, `World.retained_updated` — what no write changes.
-/

namespace TetheredParticles

variable {S : Type}

namespace World

/-- The directions that the workspaces remember. -/
def memory (w : World S) : List (List (ProxyId × Vec3 S) × List (ProxyId × Vec3 S)) :=
  w.workspaces.toList.map Workspace.memory

/-- What is left to the topology stage: the configuration, the islands and the directions. -/
structure Retained (w after : World S) : Prop where
  config : after.config = w.config
  partition : after.partition = w.partition
  memory : after.memory = w.memory

theorem Retained.refl (w : World S) : w.Retained w := ⟨rfl, rfl, rfl⟩

theorem Retained.trans {w v u : World S} (h : w.Retained v) (hv : v.Retained u) : w.Retained u :=
  ⟨hv.config.trans h.config, hv.partition.trans h.partition, hv.memory.trans h.memory⟩

/-- Patched constraints have the owners and directions they had. -/
theorem map_patch_view {C D : Type} (proxy : ProxyId) (change : C → C) (view : C → D)
    (hview : ∀ c, view (change c) = view c) (owned : List (ProxyId × C)) :
    ((patch proxy change owned).map fun x => (x.1, view x.2)) =
      owned.map fun x => (x.1, view x.2) := by
  unfold patch
  rw [List.map_map]
  refine List.map_congr_left ?_
  intro x _
  simp only [Function.comp_apply]
  split
  · rw [hview]
  · rfl

/-- Copies of constraints may change in everything but their directions. -/
theorem memory_map {w after : World S} {change : Workspace S → Workspace S}
    (heq : after.workspaces = w.workspaces.map change)
    (hchange : ∀ ws, (change ws).memory = ws.memory) : after.memory = w.memory := by
  unfold memory
  rw [heq, Array.toList_map, List.map_map]
  exact List.map_congr_left fun ws _ => hchange ws

theorem retained_accept {w : World S} {result : Option (World S)}
    (hresult : ∀ after, result = some after → w.Retained after) :
    w.Retained (w.accept result).2 := by
  unfold accept
  cases result with
  | none => exact .refl w
  | some after => exact hresult after rfl

variable [Scalar S]

theorem retained_insertParticles {w after : World S} {proxy : ProxyId}
    {handles : List ParticleHandle} {particles : List (Particle S)}
    (hw : w.insertParticles? proxy handles particles = some after) : w.Retained after := by
  unfold insertParticles? at hw
  split at hw
  · cases hw
  · cases hw
    exact ⟨rfl, rfl, rfl⟩

theorem retained_create {w after : World S} {proxy : ProxyId} {creation : Creation S}
    (hw : w.create? proxy creation = some after) : w.Retained after := by
  unfold create? at hw
  split at hw
  case isTrue => cases hw
  case isFalse =>
    rcases Option.map_eq_some_iff.mp hw with ⟨parts, hparts, rfl⟩
    refine Retained.trans (v := parts) ?_ ⟨rfl, rfl, rfl⟩
    cases creation with
    | particle handle particle => exact retained_insertParticles hparts
    | cluster handles particles adjacency stiffness =>
      simp only [addParts?] at hparts
      split at hparts
      · rcases Option.map_eq_some_iff.mp hparts with ⟨inserted, hinserted, rfl⟩
        exact (retained_insertParticles hinserted).trans ⟨rfl, rfl, rfl⟩
      · cases hparts
    | joint handle first second restLength compliance =>
      simp only [addParts?] at hparts
      split at hparts
      · cases hparts
        exact ⟨rfl, rfl, rfl⟩
      · cases hparts
    | suspension handle particle target restLength compliance =>
      simp only [addParts?] at hparts
      split at hparts
      · cases hparts
        exact ⟨rfl, rfl, rfl⟩
      · cases hparts

theorem retained_destroy (w : World S) (proxy : ProxyId) : w.Retained (w.destroy proxy).2 := by
  have hremove : ∀ after, w.remove? proxy = some after → w.Retained after := by
    intro after hw
    unfold remove? at hw
    split at hw
    · cases hw
      exact ⟨rfl, rfl, rfl⟩
    · split at hw
      · cases hw
        exact ⟨rfl, rfl, rfl⟩
      · split at hw
        · cases hw
          exact ⟨rfl, rfl, rfl⟩
        · cases hw
  unfold destroy
  dsimp only
  split
  case h_1 after hw => exact (hremove after hw).trans ⟨rfl, rfl, rfl⟩
  case h_2 => exact ⟨rfl, rfl, rfl⟩

theorem retained_write {w after : World S} {proxy : ProxyId} {particle : ParticleHandle}
    {change : ParticleStore S → Option (ParticleStore S)}
    (hw : w.writeParticle? proxy particle change = some after) : w.Retained after := by
  unfold writeParticle? at hw
  split at hw
  case isFalse => cases hw
  case isTrue =>
    rcases Option.map_eq_some_iff.mp hw with ⟨store, _, rfl⟩
    exact ⟨rfl, rfl, rfl⟩

/-- No write changes what is left to the topology stage. -/
theorem retained_applyCommand (w : World S) (proxy : ProxyId) (command : Command S) :
    w.Retained (w.applyCommand proxy command).2 := by
  cases command with
  | create creation => exact retained_accept fun _ hw => retained_create hw
  | destroy => exact retained_destroy w proxy
  | setPosition particle position => exact retained_accept fun _ hw => retained_write hw
  | setVelocity particle velocity => exact retained_accept fun _ hw => retained_write hw
  | setKinematicTarget particle target => exact retained_accept fun _ hw => retained_write hw
  | addForce particle force => exact retained_accept fun _ hw => retained_write hw
  | setInverseMass particle inverseMass =>
    refine retained_accept ?_
    intro after hw
    rcases Option.map_eq_some_iff.mp hw with ⟨changed, hchanged, rfl⟩
    exact (retained_write hchanged).trans ⟨rfl, rfl, rfl⟩
  | setTetherStiffness stiffness =>
    refine retained_accept ?_
    intro after hw
    rcases Option.map_eq_some_iff.mp hw with ⟨c, _, rfl⟩
    exact ⟨rfl, rfl, memory_map rfl fun _ => rfl⟩
  | setSuspensionTarget handle target =>
    refine retained_accept ?_
    intro after hw
    rcases Option.map_eq_some_iff.mp hw with ⟨s, _, rfl⟩
    refine ⟨rfl, rfl, memory_map rfl fun ws => ?_⟩
    exact Prod.ext rfl (map_patch_view proxy (fun s : Suspension S => { s with target })
      Suspension.direction (fun _ => rfl) ws.suspensions)
  | setJointRestLength handle restLength =>
    refine retained_accept ?_
    intro after hw
    rcases Option.map_eq_some_iff.mp hw with ⟨j, _, rfl⟩
    refine ⟨rfl, rfl, memory_map rfl fun ws => ?_⟩
    exact Prod.ext (map_patch_view proxy
      (fun j : Joint S => { j with restLength := Scalar.maxNum restLength 0 })
      Joint.direction (fun _ => rfl) ws.joints) rfl

theorem retained_updated (w : World S) (deltas : List (Delta S)) :
    w.Retained (w.updated deltas) := by
  refine applyDeltas_keeps (P := w.Retained) (w := { w with touched := ∅ }) ⟨rfl, rfl, rfl⟩ ?_ ?_
  · intro v touched hv
    exact hv.trans ⟨rfl, rfl, rfl⟩
  · intro v d _ hv
    exact hv.trans (retained_applyCommand v d.proxy d.command)

end World

end TetheredParticles
