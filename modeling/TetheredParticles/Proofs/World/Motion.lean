import TetheredParticles.Proofs.World.Program
/-!
# How the world moves

Everything that a step of positive size does to particles and constraints can be told from the
program of the world alone: the solved positions are those after the projection passes, the final
ones those after the rigid passes, and so are the forces of constraints. The islands do not matter.

* `World.solvedMotion`, `World.pushedMotion` — the cells of the world after both stages.
* `World.Linked.island_shows` — an island shows the cells of its particles and constraints.
-/

namespace TetheredParticles

variable {S : Type} [Scalar S]

omit [Scalar S] in
/-- Motions that agree on the particles of an array are shown alike. -/
theorem Shown.congr {particles : Array Nat} {positions : Array (Vec3 S)} {σ τ : Motion S}
    (h : Shown particles positions σ) (hsame : ∀ slot ∈ particles, σ (.slot slot) = τ (.slot slot)) :
    Shown particles positions τ := by
  intro place slot hplace
  rw [h place slot hplace]
  unfold Motion.position
  rw [hsame slot (Array.mem_of_getElem? hplace)]

namespace World

/-! ## The cells of the world -/

/-- What all joints and suspensions remember of their directions. -/
abbrev Directions (S : Type) := Cell → Vec3 S

/-- The directions of the world are those that its workspaces remember. -/
structure Remembers (w : World S) (directions : Directions S) : Prop where
  joints : ∀ ws ∈ w.workspaces, ∀ x ∈ ws.joints, x.2.direction = directions (.joint x.1)
  suspensions : ∀ ws ∈ w.workspaces, ∀ x ∈ ws.suspensions,
    x.2.direction = directions (.suspension x.1)

/-- The particles as a step predicts them. -/
def predicted (w : World S) (dt : S) : ParticleStore S :=
  w.store.predict w.config.gravity w.config.linearDamping dt

/-- The cells before the projection passes. -/
def startMotion (w : World S) (directions : Directions S) (dt : S) : Motion S
  | .slot slot => (((w.predicted dt).slot slot).predicted, 0)
  | .tether _ _ _ => (0, 0)
  | .joint owner => (directions (.joint owner), 0)
  | .suspension owner => (directions (.suspension owner), 0)

/-- The inverse masses of the particles. -/
def masses (w : World S) (slot : Nat) : S := (w.store.slot slot).inverseMass

/-- The cells after the projection passes. -/
def solvedMotion (w : World S) (directions : Directions S) (dt : S) : Motion S :=
  Visit.runAll w.masses dt ((w.program dt).solve w.config) (w.startMotion directions dt)

/-- The cells after the rigid passes. -/
def pushedMotion (w : World S) (directions : Directions S) (dt : S) : Motion S :=
  Visit.runAll w.masses dt ((w.program dt).push w.config) (w.solvedMotion directions dt)

/-! ## The cells of an island -/

/-- A copy holds the inverse masses of its particles. -/
theorem weighs_gather (w : World S) (dt : S) (ws : Workspace S) :
    Weighs (ws.gather (w.predicted dt)).inverseMasses ws.particles.size ws.slotAt w.masses := by
  have hsteady : w.store.Steady (w.predicted dt) := ParticleStore.Steady.predict ..
  intro place hplace
  show (ws.particles.map fun slot => ((w.predicted dt).slot slot).inverseMass).getD place 0 = _
  rw [Array.getD_eq_getD_getElem?, Array.getElem?_map, Workspace.getElem_slotAt hplace]
  exact hsteady.inverseMass _

/-- A cell belongs to an island. -/
def Within (w : World S) (i : Nat) : Cell → Prop
  | .slot slot => w.partition.islandOf? slot = some i
  | .tether _ _ tip => w.partition.islandOf? tip = some i
  | .joint owner => ∃ j : JointRecord S, w.joints[owner]? = some j ∧
    w.partition.islandOf? j.first.index = some i
  | .suspension owner => ∃ s : SuspensionRecord S, w.suspensions[owner]? = some s ∧
    w.partition.islandOf? s.particle.index = some i

/-- A visit given to an island stays within it, and any other one stays out of it. -/
def Local (w : World S) (i : Nat) (v : Visit S) : Prop :=
  (w.partition.islandOf? v.home == some i) = true ∧ (∀ c ∈ v.reads, w.Within i c) ∨
    (w.partition.islandOf? v.home == some i) = false ∧ ∀ c ∈ v.writes, ¬ w.Within i c

namespace Linked

variable {w : World S} {i : Nat} {ws : Workspace S}

theorem local_tether (h : w.Linked) (i : Nat) (rule? : Cluster S → Option (TetherRule S))
    {v : Visit S} (hv : v ∈ w.tetherVisits rule?) : w.Local i v := by
  rcases List.mem_flatMap.mp hv with ⟨⟨proxy, c⟩, hx, hv⟩
  have hc := Std.TreeMap.mem_toList_iff_getElem?_eq_some.mp hx
  dsimp only at hv
  unfold Visit.ofTethers at hv
  cases hrule : rule? c with
  | none =>
    rw [hrule] at hv
    cases hv
  | some rule =>
    rw [hrule] at hv
    rcases List.mem_map.mp hv with ⟨⟨layer, t⟩, hlayer, rfl⟩
    have ht := Cluster.mem_tethers_of_layers hlayer
    by_cases htip : w.partition.islandOf? t.tip = some i
    · refine .inl ⟨beq_iff_eq.mpr htip, ?_⟩
      have hanchor := h.tether_inside hc ht htip
      intro c hc
      simp only [Visit.reads, List.mem_cons, List.not_mem_nil, or_false] at hc
      rcases hc with rfl | rfl | rfl
      · exact hanchor
      · exact htip
      · exact htip
    · refine .inr ⟨beq_eq_false_iff_ne.mpr htip, ?_⟩
      intro c hc
      simp only [Visit.writes, List.mem_cons, List.not_mem_nil, or_false] at hc
      rcases hc with rfl | rfl
      · exact htip
      · exact htip

theorem local_joint (h : w.Linked) (i : Nat) {v : Visit S} (hv : v ∈ w.jointVisits) :
    w.Local i v := by
  rcases List.mem_map.mp hv with ⟨⟨proxy, j⟩, hx, rfl⟩
  have hj := Std.TreeMap.mem_toList_iff_getElem?_eq_some.mp hx
  by_cases hfirst : w.partition.islandOf? j.first.index = some i
  · refine .inl ⟨beq_iff_eq.mpr hfirst, ?_⟩
    have hsecond := h.joint_inside hj hfirst
    intro c hc
    simp only [Visit.reads, Joint.create, List.mem_cons, List.not_mem_nil, or_false] at hc
    rcases hc with rfl | rfl | rfl
    · exact hfirst
    · exact hsecond
    · exact ⟨j, hj, hfirst⟩
  · refine .inr ⟨beq_eq_false_iff_ne.mpr hfirst, ?_⟩
    intro c hc hwithin
    simp only [Visit.writes, Joint.create, List.mem_cons, List.not_mem_nil, or_false] at hc
    rcases hc with rfl | rfl | rfl
    · exact hfirst hwithin
    · -- the second particle would take the first one along
      exact hfirst (h.partition.islandOf_joined (.inr ⟨proxy, j, hj, .inr ⟨rfl, rfl⟩⟩) hwithin)
    · rcases hwithin with ⟨k, hk, hisland⟩
      rw [hj] at hk
      cases hk
      exact hfirst hisland

omit [Scalar S] in
theorem local_suspension [Scalar S] (i : Nat) {v : Visit S} (hv : v ∈ w.suspensionVisits) :
    w.Local i v := by
  rcases List.mem_map.mp hv with ⟨⟨proxy, s⟩, hx, rfl⟩
  have hs := Std.TreeMap.mem_toList_iff_getElem?_eq_some.mp hx
  by_cases hisland : w.partition.islandOf? s.particle.index = some i
  · refine .inl ⟨beq_iff_eq.mpr hisland, ?_⟩
    intro c hc
    simp only [Visit.reads, Suspension.create, List.mem_cons, List.not_mem_nil, or_false] at hc
    rcases hc with rfl | rfl
    · exact hisland
    · exact ⟨s, hs, hisland⟩
  · refine .inr ⟨beq_eq_false_iff_ne.mpr hisland, ?_⟩
    intro c hc hwithin
    simp only [Visit.writes, Suspension.create, List.mem_cons, List.not_mem_nil, or_false] at hc
    rcases hc with rfl | rfl
    · exact hisland hwithin
    · rcases hwithin with ⟨r, hr, hrisland⟩
      rw [hs] at hr
      cases hr
      exact hisland hrisland

/-- All visits of the projection passes respect the islands. -/
theorem local_solve (h : w.Linked) (i : Nat) (dt : S) :
    ∀ v ∈ (w.program dt).solve w.config, w.Local i v := by
  intro v hv
  rcases Program.mem_solve hv with htether | hjoint
  · exact h.local_tether i (·.rule? w.config.tether.solver dt) htether
  · rcases List.mem_append.mp hjoint with hjoint | hsuspension
    · exact h.local_joint i hjoint
    · exact local_suspension i hsuspension

/-- All visits of the rigid passes respect the islands. -/
theorem local_push (h : w.Linked) (i : Nat) (dt : S) :
    ∀ v ∈ (w.program dt).push w.config, w.Local i v := by
  intro v hv
  exact h.local_tether i (fun _ => TetherRule.rigid?) (Program.mem_push hv)

/-! ## Islands -/

/-- Workspaces of a linked world are regular. -/
theorem regular (h : w.Linked) (hw : w.store.Weighed) (hi : w.workspaces[i]? = some ws) :
    ws.Regular := by
  have hmem : ws ∈ w.workspaces := Array.mem_of_getElem? hi
  have howners := h.owners_eq hi
  have hlt : ∀ slot, w.partition.islandOf? slot = some i → w.store.isAlive slot = true →
      w.placeOf slot < ws.particles.size := fun slot hslot halive =>
    (Array.getElem?_eq_some_iff.mp (h.getElem_placeOf hi hslot halive)).1
  refine ⟨((h.distributed hw).ascending ws hmem).imp Nat.ne_of_lt, ?_, ?_, ?_, ?_⟩
  · rw [howners.1]
    unfold tethersOf
    rw [List.map_filterMap]
    refine List.Pairwise.filterMap _ ?_ (Maps.pairwise_toList w.clusters)
    intro x y hne a ha b hb
    -- sets have the names of their clusters
    rcases Option.map_eq_some_iff.mp ha with ⟨one, hone, rfl⟩
    rcases Option.map_eq_some_iff.mp hb with ⟨two, htwo, rfl⟩
    dsimp only at hone htwo
    split at hone
    case isTrue => cases hone
    case isFalse =>
      split at htwo
      case isTrue => cases htwo
      case isFalse =>
        cases hone
        cases htwo
        exact hne
  · intro x hx
    refine ⟨?_, ?_⟩
    · intro t ht
      rcases h.tether_of_mem hi hx ht with ⟨c, u, hc, hu, rfl, hanchor, htip⟩
      rcases h.tethers x.1 c hc u hu with ⟨⟨hone, _⟩, htwo, _⟩
      exact ⟨hlt _ hanchor hone, hlt _ htip htwo⟩
    · rcases h.set_of_mem hi hx with ⟨c, _, hbatches⟩
      unfold TetherSet.layers
      rw [hbatches]
      exact Tether.nodup_layered (Tether.nodup_tips_of_batches _)
  · rw [howners.2.1]
    unfold jointsOf
    rw [List.map_map]
    exact List.pairwise_map.mpr ((Maps.pairwise_toList w.joints).filter _)
  · rw [howners.2.2]
    unfold suspensionsOf
    rw [List.map_map]
    exact List.pairwise_map.mpr ((Maps.pairwise_toList w.suspensions).filter _)

/-- Before the passes a copy shows the cells of the world. -/
theorem follows_start (h : w.Linked) (hw : w.store.Weighed) {directions : Directions S}
    (hm : w.Remembers directions) (dt : S) (hi : w.workspaces[i]? = some ws) :
    let start := (ws.gather (w.predicted dt)).restart
    Workspace.Follows start start (w.startMotion directions dt) := by
  have hmem : ws ∈ w.workspaces := Array.mem_of_getElem? hi
  have hsteady : w.store.Steady (w.predicted dt) := ParticleStore.Steady.predict ..
  refine ⟨(h.fits hw hsteady.inverseMass hi).continues, ⟨?_, ?_, ?_⟩, ?_⟩
  · intro place slot hplace
    show (ws.particles.map _)[place]? = _
    rw [Array.getElem?_map]
    replace hplace : ws.particles[place]? = some slot := hplace
    rw [hplace]
    rfl
  · intro y hy
    rcases List.mem_map.mp hy with ⟨x, hx, rfl⟩
    exact Prod.ext (hm.joints ws hmem x hx).symm rfl
  · intro y hy
    rcases List.mem_map.mp hy with ⟨x, hx, rfl⟩
    exact Prod.ext (hm.suspensions ws hmem x hx).symm rfl
  · intro y hy ms hms
    rcases List.mem_map.mp hy with ⟨⟨owner, set⟩, hx, rfl⟩
    cases set with
    | pbd batches => cases hms
    | xpbd batches multipliers =>
      cases hms
      have hlength := (TetherSet.xpbd batches multipliers).restart.length_layers
      exact (congrArg (List.replicate · (0 : S)) hlength.symm).trans (List.map_const ..).symm

/-- An island shows the cells of its particles and constraints: the solved positions are those after
the projection passes, everything else is as after the rigid passes. -/
theorem island_shows (h : w.Linked) (hw : w.store.Weighed) {directions : Directions S}
    (hm : w.Remembers directions) (dt : S) (hi : w.workspaces[i]? = some ws) :
    let island := Total.island w.config (w.predicted dt) dt ws
    Shown ws.particles island.solved (w.solvedMotion directions dt) ∧
      island.Shows (w.pushedMotion directions dt) := by
  have hsteady : w.store.Steady (w.predicted dt) := ParticleStore.Steady.predict ..
  have hfits := h.fits hw hsteady.inverseMass hi
  rcases Workspace.island_shows dt (h.regular hw hi) hfits (weighs_gather w dt ws)
    (h.follows_start hw hm dt hi) with ⟨hsolved, hpushed⟩
  rw [h.program_eq hi dt, Program.solve_filter, Program.push_filter] at hpushed
  rw [h.program_eq hi dt, Program.solve_filter] at hsolved
  have hblank : (Total.island w.config (w.predicted dt) dt ws).blank = ws.blank :=
    (h.island_eq hw dt (Array.mem_of_getElem? hi)).2.1
  have hparticles : (Total.island w.config (w.predicted dt) dt ws).blank.particles =
      ws.particles := by
    rw [hblank]
    rfl
  rcases Workspace.owners_of_blank hblank with ⟨_, hjoints, hsuspensions⟩
  -- within the island, its share of the visits does what all of them do
  have hinside : ∀ slot ∈ ws.particles, w.Within i (.slot slot) := by
    intro slot hslot
    refine (h.partition.islandOf slot i).mpr ⟨_, h.particles_eq hi, ?_⟩
    exact Array.mem_toList_iff.mpr hslot
  let share : Visit S → Bool := fun v => w.partition.islandOf? v.home == some i
  let solved := Visit.runAll w.masses dt (((w.program dt).solve w.config).filter share)
    (w.startMotion directions dt)
  let pushed := Visit.runAll w.masses dt (((w.program dt).push w.config).filter share) solved
  have hone : ∀ c, w.Within i c → w.solvedMotion directions dt c = solved c := by
    intro c hc
    exact Visit.runAll_filter (h.local_solve i dt) (fun _ _ => rfl) hc
  have htwo : ∀ c, w.Within i c → w.pushedMotion directions dt c = pushed c := by
    intro c hc
    exact Visit.runAll_filter (h.local_push i dt) hone hc
  refine ⟨hsolved.congr ?_, ⟨hpushed.positions.congr ?_, ?_, ?_⟩⟩
  · intro slot hslot
    exact (hone _ (hinside slot hslot)).symm
  · intro slot hslot
    exact (htwo _ (hinside slot (hparticles ▸ hslot))).symm
  · intro x hx
    have howner := List.mem_map_of_mem (f := (·.1)) hx
    rw [hjoints] at howner
    rcases List.mem_map.mp howner with ⟨y, hy, howner⟩
    rcases h.joint_of_mem hi hy with ⟨j, hj, _, _, hfirst, _⟩
    exact (htwo (.joint x.1) ⟨j, howner ▸ hj, hfirst⟩).trans (hpushed.joints x hx)
  · intro x hx
    have howner := List.mem_map_of_mem (f := (·.1)) hx
    rw [hsuspensions] at howner
    rcases List.mem_map.mp howner with ⟨y, hy, howner⟩
    rcases h.suspension_of_mem hi hy with ⟨s, hs, _, hisland⟩
    exact (htwo (.suspension x.1) ⟨s, howner ▸ hs, hisland⟩).trans (hpushed.suspensions x hx)

end Linked

end World

end TetheredParticles
