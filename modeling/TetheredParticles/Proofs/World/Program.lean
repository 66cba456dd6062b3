import TetheredParticles.Proofs.Island.Passes
import TetheredParticles.Proofs.World.Distribution
import TetheredParticles.Proofs.World.Step
/-!
# The world as a program

As long as particles and constraints are distributed over islands, a step goes through one island
after the other. The same visits may be made in the order of the world instead, whatever the islands
are: each island does its share of the program of the world, and nothing that happens elsewhere
concerns it.

* `World.program` — the visits of a step, without islands.
* `World.Linked.program_eq` — every workspace has its share of the program.
* `World.Linked.island_shows` — every island shows what the program of the world leads to.
-/

namespace TetheredParticles

variable {S : Type} [Scalar S]

/-! ## The program -/

/-- The rule by which the tethers of a cluster are projected, if they are. -/
def Cluster.rule? (c : Cluster S) (solver : TetherSolver) (dt : S) : Option (TetherRule S) :=
  (TetherSet.ofBatches solver (.ofTethers [] c.stiffness)).rule? dt

/-- The slot by which a visit is given to an island. -/
def Visit.home : Visit S → Nat
  | .tether _ _ _ t => t.tip
  | .joint _ j => j.first
  | .suspension _ s => s.particle

/-- The tethers of a cluster, each with the number of its batch. -/
def Cluster.layers (c : Cluster S) : List (Nat × Tether S) :=
  Tether.layered 0 (Tether.batches c.tethers)

omit [Scalar S] in
theorem Cluster.mem_tethers_of_layers {c : Cluster S} {x : Nat × Tether S} (h : x ∈ c.layers) :
    x.2 ∈ c.tethers :=
  (Tether.flatten_batches_perm _).mem_iff.mp (Tether.mem_flatten_of_layered h)

omit [Scalar S] in
/-- The tethers of a cluster are visited one by one. -/
theorem Visit.filter_ofTethers (owner : ProxyId) (rule? : Option (TetherRule S))
    (tethers : List (Nat × Tether S)) (keep : Nat → Bool) :
    (Visit.ofTethers owner rule? tethers).filter (fun v => keep v.home) =
      Visit.ofTethers owner rule? (tethers.filter fun x => keep x.2.tip) := by
  cases rule? with
  | none => rfl
  | some rule => exact List.filter_map

namespace World

/-- The visits to the tethers of all clusters. -/
def tetherVisits (w : World S) (rule? : Cluster S → Option (TetherRule S)) : List (Visit S) :=
  w.clusters.toList.flatMap fun (proxy, c) => Visit.ofTethers proxy (rule? c) c.layers

/-- The visits to all joints. -/
def jointVisits (w : World S) : List (Visit S) := w.joints.toList.map fun (proxy, j) =>
  .joint proxy (.create j.first.index j.second.index j.restLength j.compliance)

/-- The visits to all suspensions. -/
def suspensionVisits (w : World S) : List (Visit S) := w.suspensions.toList.map fun (proxy, s) =>
  .suspension proxy (.create s.particle.index s.target s.restLength s.compliance)

/-- The passes over everything in the world. -/
def program (w : World S) (dt : S) : Program S where
  tethers := w.tetherVisits (·.rule? w.config.tether.solver dt)
  joints := w.jointVisits ++ w.suspensionVisits
  rigid := w.tetherVisits fun _ => TetherRule.rigid?

/-! ## Shares -/

namespace Linked

variable {w : World S} {i : Nat} {ws : Workspace S}

/-- The place of a slot leads back to it. -/
theorem slotAt_placeOf (h : w.Linked) (hi : w.workspaces[i]? = some ws) {slot : Nat}
    (hslot : w.partition.islandOf? slot = some i) (halive : w.store.isAlive slot = true) :
    ws.slotAt (w.placeOf slot) = slot := by
  unfold Workspace.slotAt
  rw [Array.getD_eq_getD_getElem?, h.getElem_placeOf hi hslot halive]
  rfl

/-- The ends of a tether with its tip in an island lie there. -/
theorem tether_inside (h : w.Linked) {proxy : ProxyId} {c : Cluster S}
    (hc : w.clusters[proxy]? = some c) {t : Tether S} (ht : t ∈ c.tethers)
    (htip : w.partition.islandOf? t.tip = some i) :
    w.partition.islandOf? t.anchor = some i :=
  h.partition.islandOf_joined (.inl ⟨proxy, c, hc, t, ht, .inr ⟨rfl, rfl⟩⟩) htip

/-- The particles of a joint with its first particle in an island lie there. -/
theorem joint_inside (h : w.Linked) {proxy : ProxyId} {j : JointRecord S}
    (hj : w.joints[proxy]? = some j) (hfirst : w.partition.islandOf? j.first.index = some i) :
    w.partition.islandOf? j.second.index = some i :=
  h.partition.islandOf_joined (.inr ⟨proxy, j, hj, .inl ⟨rfl, rfl⟩⟩) hfirst

/-- The tethers of a cluster that an island holds, back between slots, have the numbers that they
have among all tethers of the cluster. -/
theorem layered_held (h : w.Linked) (hi : w.workspaces[i]? = some ws) {proxy : ProxyId}
    {c : Cluster S} (hc : w.clusters[proxy]? = some c) :
    (Tether.layered 0 (Tether.batches
        ((c.tethers.filter (w.partition.islandOf? ·.tip == some i)).map
          (·.relabel w.placeOf)))).map (fun x => (x.1, x.2.relabel ws.slotAt)) =
      c.layers.filter fun x => w.partition.islandOf? x.2.tip == some i := by
  -- places of the island lead back to their slots
  have hback : ∀ t ∈ c.tethers.filter (w.partition.islandOf? ·.tip == some i),
      (t.relabel w.placeOf).relabel ws.slotAt = t := by
    intro t ht
    rcases List.mem_filter.mp ht with ⟨hmem, htip⟩
    replace htip : w.partition.islandOf? t.tip = some i := by simpa using htip
    rcases h.tethers proxy c hc t hmem with ⟨⟨hanchor, _⟩, htipAlive, _⟩
    have hone := h.slotAt_placeOf hi (h.tether_inside hc hmem htip) hanchor
    have htwo := h.slotAt_placeOf hi htip htipAlive
    simp only [Tether.relabel, hone, htwo]
  rw [Tether.batches_map, Tether.layered_map, List.map_map]
  · refine (List.map_congr_left ?_).trans ((List.map_id _).trans
      (Tether.layered_batches_filter (fun tip => w.partition.islandOf? tip == some i) c.tethers))
    intro x hx
    have hmem := (Tether.flatten_batches_perm _).mem_iff.mp (Tether.mem_flatten_of_layered hx)
    exact Prod.ext rfl (hback x.2 hmem)
  · intro t ht u hu htips
    rw [← hback t ht, ← hback u hu]
    exact congrArg ws.slotAt htips
  · intro t u htips
    exact congrArg w.placeOf htips

/-- A workspace visits the tethers with tips in its island. -/
theorem tetherVisits_eq (h : w.Linked) (hi : w.workspaces[i]? = some ws)
    (rule? : TetherSet S → Option (TetherRule S)) (ruleOf? : Cluster S → Option (TetherRule S))
    (hblank : ∀ set, rule? set.restart = rule? set)
    (hrule : ∀ (c : Cluster S) (tethers : List (Tether S)),
      rule? (.ofBatches w.config.tether.solver (.ofTethers tethers c.stiffness)) = ruleOf? c) :
    ws.tetherVisits rule? =
      (w.tetherVisits ruleOf?).filter fun v => w.partition.islandOf? v.home == some i := by
  rcases h.blank_eq hi with ⟨slots, _, hws⟩
  have hsets : ws.tethers.map (Prod.map id TetherSet.restart) =
      w.tethersOf w.partition w.placeOf i := congrArg Workspace.tethers hws
  -- the visits can be told from the sets as they were built
  have hvisits : ws.tetherVisits rule? =
      (w.tethersOf w.partition w.placeOf i).flatMap fun x =>
        Visit.ofTethers x.1 (rule? x.2)
          (x.2.layers.map fun y => (y.1, y.2.relabel ws.slotAt)) := by
    rw [← hsets, List.flatMap_map]
    unfold Workspace.tetherVisits
    refine List.flatMap_congr ?_
    intro x _
    simp only [Prod.map, id, hblank, TetherSet.layers, TetherSet.batches_restart]
  unfold tetherVisits
  rw [hvisits, tethersOf, flatMap_filterMap, List.filter_flatMap]
  refine List.flatMap_congr ?_
  rintro ⟨proxy, c⟩ hx
  have hc := Std.TreeMap.mem_toList_iff_getElem?_eq_some.mp hx
  dsimp only
  rw [Visit.filter_ofTethers proxy (ruleOf? c) c.layers
    (fun slot => w.partition.islandOf? slot == some i)]
  have hheld := h.layered_held hi hc
  split
  case isTrue hempty =>
    rw [List.isEmpty_iff.mp hempty] at hheld
    rw [← hheld]
    cases ruleOf? c with
    | none => rfl
    | some rule => rfl
  case isFalse =>
    rw [Option.map_some, Option.getD_some, hrule, ← hheld]
    cases w.config.tether.solver with
    | pbd => rfl
    | xpbd => rfl

/-- A workspace visits the joints with first particles in its island. -/
theorem jointVisits_eq (h : w.Linked) (hi : w.workspaces[i]? = some ws) :
    ws.jointVisits =
      w.jointVisits.filter fun v => w.partition.islandOf? v.home == some i := by
  rcases h.blank_eq hi with ⟨slots, _, hws⟩
  have hjoints : ws.joints.map (Prod.map id Joint.blank) =
      w.jointsOf w.partition w.placeOf i := congrArg Workspace.joints hws
  have hvisits : ws.jointVisits = (w.jointsOf w.partition w.placeOf i).map fun x =>
      .joint x.1 (.create (ws.slotAt x.2.first) (ws.slotAt x.2.second) x.2.restLength
        x.2.compliance) := by
    rw [← hjoints, List.map_map]
    rfl
  unfold jointVisits
  rw [hvisits, jointsOf, List.map_map, List.filter_map]
  refine List.map_congr_left ?_
  rintro ⟨proxy, j⟩ hx
  rcases List.mem_filter.mp hx with ⟨hmem, hfirst⟩
  have hj := Std.TreeMap.mem_toList_iff_getElem?_eq_some.mp hmem
  replace hfirst : w.partition.islandOf? j.first.index = some i := by simpa using hfirst
  rcases h.joints proxy j hj with ⟨hone, htwo⟩
  have ha := h.slotAt_placeOf hi hfirst (ParticleStore.contains_iff.mp hone).1
  have hb := h.slotAt_placeOf hi (h.joint_inside hj hfirst) (ParticleStore.contains_iff.mp htwo).1
  simp only [Function.comp_apply, Joint.create, ha, hb]

/-- A workspace visits the suspensions with particles in its island. -/
theorem suspensionVisits_eq (h : w.Linked) (hi : w.workspaces[i]? = some ws) :
    ws.suspensionVisits =
      w.suspensionVisits.filter fun v => w.partition.islandOf? v.home == some i := by
  rcases h.blank_eq hi with ⟨slots, _, hws⟩
  have hsuspensions : ws.suspensions.map (Prod.map id Suspension.blank) =
      w.suspensionsOf w.partition w.placeOf i := congrArg Workspace.suspensions hws
  have hvisits : ws.suspensionVisits =
      (w.suspensionsOf w.partition w.placeOf i).map fun x => .suspension x.1
        (.create (ws.slotAt x.2.particle) x.2.target x.2.restLength x.2.compliance) := by
    rw [← hsuspensions, List.map_map]
    rfl
  unfold suspensionVisits
  rw [hvisits, suspensionsOf, List.map_map, List.filter_map]
  refine List.map_congr_left ?_
  rintro ⟨proxy, s⟩ hx
  rcases List.mem_filter.mp hx with ⟨hmem, hisland⟩
  have hs := Std.TreeMap.mem_toList_iff_getElem?_eq_some.mp hmem
  have ha := h.slotAt_placeOf hi (by simpa using hisland)
    (ParticleStore.contains_iff.mp (h.suspensions proxy s hs)).1
  simp only [Function.comp_apply, Suspension.create, ha]

/-- Every workspace has its share of the program of the world. -/
theorem program_eq (h : w.Linked) (hi : w.workspaces[i]? = some ws) (dt : S) :
    ws.program dt =
      (w.program dt).filter fun v => w.partition.islandOf? v.home == some i := by
  have htethers := h.tetherVisits_eq hi (·.rule? dt) (·.rule? w.config.tether.solver dt)
    (fun set => by cases set <;> rfl)
    (fun c tethers => by
      unfold Cluster.rule?
      cases w.config.tether.solver <;> rfl)
  have hrigid := h.tetherVisits_eq hi (fun _ => TetherRule.rigid?)
    (fun _ => TetherRule.rigid?) (fun _ => rfl) (fun _ _ => rfl)
  unfold Workspace.program program Program.filter
  rw [htethers, hrigid, h.jointVisits_eq hi, h.suspensionVisits_eq hi, List.filter_append]

end Linked

end World

end TetheredParticles
