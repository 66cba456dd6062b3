import TetheredParticles.Proofs.World.Bounds
import TetheredParticles.Proofs.World.Carried
import TetheredParticles.Proofs.World.Memory
/-!
# Worlds whose motion can be told

How a world moves can be told from its program as long as it is in order, fits its sets of bits,
has no proxy of two kinds, and one knows in which directions its joints and suspensions pulled last.
Every stage of a step leaves a world of which all this is known.

* `World.Tidy` — all of it, given the directions.
* `World.Tidy.updated`, `World.Tidy.rebuilt`, `World.Tidy.moved`, `World.Tidy.cleared` — the stages
  of a step.
-/

namespace TetheredParticles

variable {S T : Type} [Scalar S] [Scalar T] [Timeline S T]

namespace World

/-! ## Directions -/

namespace Remembers

variable {w after : World S} {directions : Directions S}

omit [Scalar S] in
/-- The world without particles remembers anything. -/
theorem empty (config : Config S) (directions : Directions S) :
    (empty config).Remembers directions := by
  constructor
  · intro ws hws
    exact absurd hws (Array.not_mem_empty ws)
  · intro ws hws
    exact absurd hws (Array.not_mem_empty ws)

omit [Scalar S] in
/-- Only the memory of the workspaces matters. -/
theorem of_memory (h : w.Remembers directions) (heq : after.memory = w.memory) :
    after.Remembers directions := by
  have hfrom : ∀ ws ∈ after.workspaces, ∃ v ∈ w.workspaces, v.memory = ws.memory := by
    intro ws hws
    have hmem : ws.memory ∈ after.memory := List.mem_map.mpr ⟨ws, hws.val, rfl⟩
    rw [heq] at hmem
    rcases List.mem_map.mp hmem with ⟨v, hv, hvw⟩
    exact ⟨v, ⟨hv⟩, hvw⟩
  constructor
  · intro ws hws x hx
    rcases hfrom ws hws with ⟨v, hv, hmemory⟩
    have hentry : (x.1, x.2.direction) ∈ v.memory.1 := by
      rw [hmemory]
      exact List.mem_map.mpr ⟨x, hx, rfl⟩
    rcases List.mem_map.mp hentry with ⟨y, hy, hxy⟩
    rw [← (Prod.mk.inj hxy).1, ← (Prod.mk.inj hxy).2]
    exact h.joints v hv y hy
  · intro ws hws x hx
    rcases hfrom ws hws with ⟨v, hv, hmemory⟩
    have hentry : (x.1, x.2.direction) ∈ v.memory.2 := by
      rw [hmemory]
      exact List.mem_map.mpr ⟨x, hx, rfl⟩
    rcases List.mem_map.mp hentry with ⟨y, hy, hxy⟩
    rw [← (Prod.mk.inj hxy).1, ← (Prod.mk.inj hxy).2]
    exact h.suspensions v hv y hy

theorem updated (h : w.Remembers directions) (deltas : List (Delta S)) :
    (w.updated deltas).Remembers directions :=
  h.of_memory (retained_updated w deltas).memory

/-- Rebuilt workspaces have not been solved and remember no direction. -/
theorem rebuilt (hr : w.Rebuilt after) : after.Remembers fun _ => 0 := by
  constructor
  · intro ws hws x hx
    rw [← hr.blank] at hws
    rcases Array.mem_map.mp hws with ⟨v, _, rfl⟩
    rcases List.mem_map.mp hx with ⟨y, _, rfl⟩
    rfl
  · intro ws hws x hx
    rw [← hr.blank] at hws
    rcases Array.mem_map.mp hws with ⟨v, _, rfl⟩
    rcases List.mem_map.mp hx with ⟨y, _, rfl⟩
    rfl

end Remembers

/-! ## Stages of a step -/

/-- A world in order whose motion can be told from its program and the directions. -/
structure Tidy (w : World S) (directions : Directions S) : Prop where
  inv : w.Inv
  small : w.Small
  unmixed : w.Unmixed
  remembers : w.Remembers directions

namespace Tidy

variable {w after : World S} {directions : Directions S}

omit [Scalar T] [Timeline S T] in
theorem updated [LawfulZero S] (h : w.Tidy directions) {snapshot : PushSnapshot S T}
    (hs : snapshot.Admissible) : (w.updated snapshot.deltas).Tidy directions where
  inv := h.inv.updated hs.inRange
  small := h.small.updated fun d hd => (hs d hd).2
  unmixed := h.unmixed.updated _
  remembers := h.remembers.updated _

/-- A rebuilt world has forgotten all directions. -/
theorem rebuilt (h : w.Tidy directions) (hr : w.Rebuilt after) (hsound : after.Sound)
    (hlinked : after.Linked) : after.Tidy fun _ => 0 where
  inv := ⟨hsound, fun _ => hlinked⟩
  small := h.small.rebuilt h.inv.sound hr
  unmixed := h.unmixed.rebuilt hr
  remembers := .rebuilt hr

/-- A world that has moved remembers the directions of its cells. -/
theorem moved (h : w.Tidy directions) (hlinked : w.Linked) (dt : S) :
    (w.moved dt).Tidy fun c => (w.pushedMotion directions dt c).1 where
  inv := ⟨h.inv.sound.moved dt, fun _ => hlinked.moved h.inv.sound.weighed dt⟩
  small := by
    refine h.small.of_le ?_ fun _ d hd => ⟨d, hd, rfl⟩
    intro i hi
    rwa [(steady_moved w dt).alike.isAlive] at hi
  unmixed := h.unmixed.of_eq rfl rfl rfl
  remembers := hlinked.remembers_moved h.inv.sound.weighed h.remembers dt

/-- Clearing what was meant for one step leaves the world tidy. -/
theorem cleared (h : w.Tidy directions) (latest : Timestamp) :
    Tidy { w with store := w.store.clearStepData, latest } directions where
  inv := by
    have hsteady := ParticleStore.Steady.clearStepData w.store
    exact (h.inv.withStore hsteady.alike (hsteady.weighed h.inv.sound.weighed)).withNotes _ _ _
  small := by
    refine h.small.of_le ?_ fun _ d hd => ⟨d, hd, rfl⟩
    intro i hi
    rwa [(ParticleStore.Steady.clearStepData w.store).alike.isAlive] at hi
  unmixed := h.unmixed.of_eq rfl rfl rfl
  remembers := h.remembers.of_memory rfl

end Tidy

end World

end TetheredParticles
