import TetheredParticles.Proofs.Island.Visits
import TetheredParticles.Proofs.Tether.Batches
/-!
# Islands as programs

What happens to an island during a step is a program of visits: several passes over tethers, joints
and suspensions, and then the rigid passes. The program follows from the constraints, whatever they
remember.

* `Program`, `Program.solve`, `Program.push` — passes, and the visits of both stages.
* `Workspace.program` — the passes over a workspace.
* `Shown` — an array shows the positions of some of the cells.
-/

namespace TetheredParticles

variable {S : Type} [Scalar S]

/-! ## Programs -/

/-- The visits that make up a step. -/
structure Program (S : Type) where
  tethers : List (Visit S)
  joints : List (Visit S)
  rigid : List (Visit S)

namespace Program

/-- All projection passes. -/
def solve (p : Program S) (config : Config S) : List (Visit S) :=
  (List.replicate config.positionIterations.toNat
    (p.tethers ++ (List.replicate config.jointIterations.toNat p.joints).flatten)).flatten

/-- All rigid passes. -/
def push (p : Program S) (config : Config S) : List (Visit S) :=
  (List.replicate config.pushOutIterations.toNat p.rigid).flatten

/-- The program without some of its visits. -/
def filter (p : Program S) (keep : Visit S → Bool) : Program S :=
  ⟨p.tethers.filter keep, p.joints.filter keep, p.rigid.filter keep⟩

omit [Scalar S] in
theorem solve_filter (p : Program S) (keep : Visit S → Bool) (config : Config S) :
    (p.filter keep).solve config = (p.solve config).filter keep := by
  simp only [solve, filter, List.filter_flatten, List.map_replicate, List.filter_append]

omit [Scalar S] in
theorem push_filter (p : Program S) (keep : Visit S → Bool) (config : Config S) :
    (p.filter keep).push config = (p.push config).filter keep := by
  simp only [push, filter, List.filter_flatten, List.map_replicate]

omit [Scalar S] in
/-- The projection passes visit tethers and joints. -/
theorem mem_solve {p : Program S} {config : Config S} {v : Visit S} (h : v ∈ p.solve config) :
    v ∈ p.tethers ∨ v ∈ p.joints := by
  unfold solve at h
  rcases List.mem_flatten.mp h with ⟨pass, hpass, hv⟩
  rw [List.eq_of_mem_replicate hpass] at hv
  rcases List.mem_append.mp hv with htether | hjoint
  · exact .inl htether
  · rcases List.mem_flatten.mp hjoint with ⟨joints, hjoints, hv⟩
    rw [List.eq_of_mem_replicate hjoints] at hv
    exact .inr hv

omit [Scalar S] in
/-- The rigid passes visit tethers. -/
theorem mem_push {p : Program S} {config : Config S} {v : Visit S} (h : v ∈ p.push config) :
    v ∈ p.rigid := by
  unfold push at h
  rcases List.mem_flatten.mp h with ⟨pass, hpass, hv⟩
  rw [List.eq_of_mem_replicate hpass] at hv
  exact hv

end Program

/-- The visits to the tethers of a cluster, given with the numbers of their batches, if they are
projected at all. -/
def Visit.ofTethers (owner : ProxyId) (rule? : Option (TetherRule S))
    (tethers : List (Nat × Tether S)) : List (Visit S) :=
  match rule? with
  | none => []
  | some rule => tethers.map fun x => .tether owner x.1 rule x.2

/-- The tethers of a set, each with the number of its batch. -/
def TetherSet.layers (set : TetherSet S) : List (Nat × Tether S) :=
  Tether.layered 0 set.batches.batches

omit [Scalar S] in
theorem TetherSet.map_snd_layers (set : TetherSet S) :
    set.layers.map (·.2) = set.batches.tethers := Tether.map_snd_layered 0 _

omit [Scalar S] in
theorem TetherSet.length_layers (set : TetherSet S) : set.layers.length = set.batches.size := by
  rw [TetherBatches.size, ← set.map_snd_layers, List.length_map]

/-- The rule of a projection pass, if tethers are projected at all. -/
def TetherSet.rule? (set : TetherSet S) (dt : S) : Option (TetherRule S) :=
  match set with
  | .pbd batches => if batches.stiffness ≤ 0 then none else some (.plain batches.stiffness)
  | .xpbd batches _ => (alpha? batches dt).map .compliant

/-- The rule of rigid passes. -/
def TetherRule.rigid? : Option (TetherRule S) := if (1 : S) ≤ 0 then none else some (.plain 1)

namespace Workspace

/-- The slot at a place of an island. -/
def slotAt (w : Workspace S) (place : Nat) : Nat := w.particles.getD place 0

/-- The visits to the tethers of a workspace. -/
def tetherVisits (w : Workspace S) (rule? : TetherSet S → Option (TetherRule S)) :
    List (Visit S) :=
  w.tethers.flatMap fun (owner, set) =>
    Visit.ofTethers owner (rule? set) (set.layers.map fun x => (x.1, x.2.relabel w.slotAt))

/-- The visits to the joints of a workspace. -/
def jointVisits (w : Workspace S) : List (Visit S) := w.joints.map fun (owner, j) =>
  .joint owner (.create (w.slotAt j.first) (w.slotAt j.second) j.restLength j.compliance)

/-- The visits to the suspensions of a workspace. -/
def suspensionVisits (w : Workspace S) : List (Visit S) := w.suspensions.map fun (owner, s) =>
  .suspension owner (.create (w.slotAt s.particle) s.target s.restLength s.compliance)

/-- The passes over a workspace. -/
def program (w : Workspace S) (dt : S) : Program S where
  tethers := w.tetherVisits (·.rule? dt)
  joints := w.jointVisits ++ w.suspensionVisits
  rigid := w.tetherVisits fun _ => TetherRule.rigid?

/-- What a workspace remembers is no part of its program. -/
theorem program_blank (w : Workspace S) (dt : S) : w.blank.program dt = w.program dt := by
  have htethers : ∀ rule? : TetherSet S → Option (TetherRule S),
      (∀ set, rule? set.restart = rule? set) →
      w.blank.tetherVisits rule? = w.tetherVisits rule? := by
    intro rule? hrule
    unfold tetherVisits blank
    rw [List.flatMap_map]
    refine List.flatMap_congr ?_
    rintro ⟨owner, set⟩ _
    simp only [Prod.map, id, hrule, TetherSet.layers, TetherSet.batches_restart]
    rfl
  have hjoints : w.blank.jointVisits = w.jointVisits := by
    unfold jointVisits blank
    rw [List.map_map]
    rfl
  have hsuspensions : w.blank.suspensionVisits = w.suspensionVisits := by
    unfold suspensionVisits blank
    rw [List.map_map]
    rfl
  unfold program
  rw [htethers, htethers, hjoints, hsuspensions]
  · intro set
    rfl
  · intro set
    cases set with
    | pbd => rfl
    | xpbd => rfl

theorem Continues.program {start w : Workspace S} (h : start.Continues w) (dt : S) :
    w.program dt = start.program dt := by
  rw [← program_blank w, h.blank, program_blank]

end Workspace

/-! ## Positions -/

/-- An array holds the positions of the particles in a list of slots. -/
def Shown (particles : Array Nat) (positions : Array (Vec3 S)) (σ : Motion S) : Prop :=
  ∀ place slot : Nat, particles[place]? = some slot →
    positions[place]? = some (Motion.position σ slot)

namespace Shown

variable {particles : Array Nat} {positions : Array (Vec3 S)} {σ τ : Motion S}

theorem getD (h : Shown particles positions σ) {place slot : Nat}
    (hplace : particles[place]? = some slot) :
    positions.getD place 0 = Motion.position σ slot := by
  rw [Array.getD_eq_getD_getElem?, h place slot hplace]
  rfl

omit [Scalar S] in
/-- Memories do not matter. -/
theorem remember (h : Shown particles positions σ) {c : Cell} (hc : ∀ slot, c ≠ .slot slot)
    (value : Vec3 S × S) : Shown particles positions (Function.update σ c value) := by
  intro place slot hplace
  unfold Motion.position
  rw [Function.update_of_ne (hc slot).symm]
  exact h place slot hplace

omit [Scalar S] in
/-- A particle is moved in its place. -/
theorem move (h : Shown particles positions σ) (hnodup : particles.toList.Nodup)
    {place slot : Nat} (hplace : particles[place]? = some slot) (change : Vec3 S → Vec3 S) :
    Shown particles (positions.modify place change) (Motion.move σ slot change) := by
  intro other s hother
  rw [Array.getElem?_modify, Motion.position_move]
  by_cases heq : place = other
  · subst heq
    rw [hplace] at hother
    cases hother
    rw [if_pos rfl, if_pos rfl, h place slot hplace]
    rfl
  · have hne : s ≠ slot := by
      rintro rfl
      rw [← Array.getElem?_toList] at hplace hother
      have hlt := (List.getElem?_eq_some_iff.mp hplace).1
      exact heq ((List.getElem?_inj hlt hnodup).mp (hplace.trans hother.symm))
    rw [if_neg heq, if_neg hne]
    exact h other s hother

end Shown

namespace Workspace

omit [Scalar S] in
theorem getElem_slotAt {w : Workspace S} {place : Nat} (h : place < w.particles.size) :
    w.particles[place]? = some (w.slotAt place) := by
  unfold slotAt
  rw [Array.getD_eq_getD_getElem?, Array.getElem?_eq_getElem h]
  rfl

end Workspace

end TetheredParticles
