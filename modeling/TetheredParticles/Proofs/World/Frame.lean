import TetheredParticles.Proofs.Island.Anchored
import TetheredParticles.Proofs.World.Congruent
import TetheredParticles.Proofs.World.Pauses
import TetheredParticles.Proofs.World.Standing
/-!
# The frame of a step that moves

A step of positive size starts from the particles that its deltas and its topology stage have left.
Slots without particles keep what they hold, particles keep what they weigh and whom they belong to,
and nothing is pending afterwards. Particles that only their owners move end where they were sent,
whatever is attached to them. The rigid passes change places only, so that velocities and forces do
not depend on how many there are.

* `World.Framed` — what a step that moves leaves as it is.
* `World.Linked.anchored_moved` — particles that only their owners move.
* `World.withPasses`, `World.Displaced` — worlds with other numbers of rigid passes.
* `World.step_framed` — a step of any world, after anything that was asked before.
-/

namespace TetheredParticles

variable {S T : Type} [Scalar S] [Scalar T] [Timeline S T]

/-- Where a particle goes that only its owner moves. -/
def ParticleSlot.goal (s : ParticleSlot S) (dt : S) : Vec3 S :=
  s.target.getD (Integration.advance s.position s.velocity dt)

theorem ParticleSlot.predicted_predict {s : ParticleSlot S} (h : s.flags.kinematic = true)
    (gravity : Vec3 S) (damping dt : S) : (s.predict gravity damping dt).predicted = s.goal dt := by
  unfold predict goal
  rw [if_pos h]
  cases s.target with
  | none => rfl
  | some target => rfl

/-- A result without the places that it tells. -/
def ProxyResult.unplaced (r : ProxyResult S) : ProxyResult S :=
  { r with data := match r.data with
    | .particles _ velocities => .particles #[] velocities
    | .constraint force => .constraint force }

namespace World

variable {w v before : World S} {directions : Directions S} {passes : UInt32}

/-! ## Anchors -/

/-- The joints that the projection passes visit change their multipliers by finite numbers. -/
def Tame (w : World S) (directions : Directions S) (dt : S) : Prop :=
  Visit.AllTame w.masses dt ((w.program dt).solve w.config) (w.startMotion directions dt)

instance (w : World S) (directions : Directions S) (dt : S) : Decidable (w.Tame directions dt) :=
  inferInstanceAs (Decidable (Visit.AllTame ..))

/-- The projection passes leave particles alone that only their owners move. -/
theorem Linked.solved_anchored [LawfulAnchors S] (h : w.Linked) (hw : w.store.Weighed) {dt : S}
    (htame : w.Tame directions dt) {i : Nat} (halive : w.store.isAlive i = true)
    (hkinematic : (w.store.slot i).flags.kinematic = true) :
    ((w.store.slot i).goal dt).Coincide (Motion.position (w.solvedMotion directions dt) i) := by
  have hstart : Motion.position (w.startMotion directions dt) i = (w.store.slot i).goal dt := by
    show ((w.predicted dt).slot i).predicted = _
    unfold predicted
    rw [ParticleStore.slot_predict, if_pos halive, ParticleSlot.predicted_predict hkinematic]
  rw [← hstart]
  refine Visit.runAll_anchored htame ((hw i halive).zero hkinematic) ?_
  -- tethers end at particles that forces move
  rintro owner layer rule t ht rfl
  rcases Program.mem_solve ht with htether | hjoint
  · rcases List.mem_flatMap.mp htether with ⟨⟨proxy, c⟩, hx, hv⟩
    have hc := Std.TreeMap.mem_toList_iff_getElem?_eq_some.mp hx
    unfold Visit.ofTethers at hv
    dsimp only at hv
    split at hv
    case h_1 => cases hv
    case h_2 =>
      rcases List.mem_map.mp hv with ⟨⟨number, u⟩, hlayer, heq⟩
      have hfree := (h.tethers proxy c hc u (Cluster.mem_tethers_of_layers hlayer)).2.2
      cases heq
      rw [hkinematic] at hfree
      cases hfree
  · rcases List.mem_append.mp hjoint with hjoint | hsuspension
    · rcases List.mem_map.mp hjoint with ⟨x, _, heq⟩
      cases heq
    · rcases List.mem_map.mp hsuspension with ⟨x, _, heq⟩
      cases heq

/-- A particle that only its owner moves ends at its target, or where its velocity takes it. -/
theorem Linked.anchored_moved [LawfulAnchors S] (h : w.Linked) (hw : w.store.Weighed)
    (hm : w.Remembers directions) {dt : S} (htame : w.Tame directions dt) {i : Nat}
    (halive : w.store.isAlive i = true) (hkinematic : (w.store.slot i).flags.kinematic = true) :
    ((w.store.slot i).goal dt).Coincide ((w.moved dt).store.slot i).position := by
  rw [h.slot_moved hw hm, if_pos halive]
  show Vec3.Coincide _ (w.pushedMotion directions dt (.slot i)).1
  rw [h.pushed_fixed directions dt hkinematic]
  exact h.solved_anchored hw htame halive hkinematic

/-! ## Everything else -/

/-- What a step of a size leaves of the world that it moves, and what it clears. -/
structure Framed (before : World S) (directions : Directions S) (dt : S) (after : ParticleStore S) :
    Prop where
  /-- Slots without particles keep what they hold. -/
  dead : ∀ i, before.store.isAlive i = false → after.isAlive i = false ∧
    (after.slot i).position = (before.store.slot i).position ∧
    (after.slot i).velocity = (before.store.slot i).velocity ∧
    (after.slot i).inverseMass = (before.store.slot i).inverseMass
  /-- Particles keep what they weigh, whom they belong to, and who moves them. -/
  live : ∀ i, before.store.isAlive i = true → after.isAlive i = true ∧
    (after.slot i).inverseMass = (before.store.slot i).inverseMass ∧
    (after.slot i).owner = (before.store.slot i).owner ∧
    (after.slot i).generation = (before.store.slot i).generation ∧
    (after.slot i).flags.kinematic = (before.store.slot i).flags.kinematic
  /-- Nothing is pending. -/
  quiet : ∀ i, (after.slot i).Quiet
  /-- As long as joints are tame, what only its owner moves ends where it was sent. -/
  anchored : before.Tame directions dt → ∀ i, before.store.isAlive i = true →
    (before.store.slot i).flags.kinematic = true →
    ((before.store.slot i).goal dt).Coincide (after.slot i).position

theorem Linked.framed_moved [LawfulAnchors S] (h : w.Linked) (hw : w.store.Weighed)
    (hm : w.Remembers directions) (ht : w.Tenancy) (dt : S) :
    w.Framed directions dt (w.moved dt).store.clearStepData := by
  have hsteady := (steady_moved w dt).trans (.clearStepData _)
  have hslot := ParticleStore.slot_clearStepData (w.moved dt).store
  refine ⟨fun i hdead => ⟨(hsteady.alike.isAlive i).trans hdead, ?_⟩, fun i halive => ?_,
    fun i => ?_, fun htame i halive hkinematic => ?_⟩
  · -- no island has a slot that is free, and nothing pends there that could stop it
    have hmoved := h.slot_moved hw hm dt i
    unfold predicted at hmoved
    rw [if_neg (Bool.eq_false_iff.mp hdead), ParticleStore.slot_predict,
      if_neg (Bool.eq_false_iff.mp hdead)] at hmoved
    have hlapsed := ParticleSlot.lapsed_settled (w.store.slot i)
    rw [hslot, hmoved]
    exact ⟨hlapsed.position, hlapsed.coasting (ht.vacant i hdead).target, hlapsed.inverseMass⟩
  · have halike := hsteady.alike.slot i
    exact ⟨(hsteady.alike.isAlive i).trans halive, hsteady.inverseMass i, halike.owner,
      halike.generation, halike.kinematic⟩
  · rw [hslot]
    exact ParticleSlot.quiet_settled _
  · rw [hslot]
    exact h.anchored_moved hw hm htame halive hkinematic

/-! ## Rigid passes -/

/-- The world with another number of rigid passes. -/
def withPasses (w : World S) (passes : UInt32) : World S :=
  { w with config := { w.config with pushOutIterations := passes } }

theorem Tenancy.withPasses (h : w.Tenancy) (passes : UInt32) : (w.withPasses passes).Tenancy :=
  ⟨h.counted, h.occupied, h.vacant, h.unmixed.of_eq rfl rfl rfl, h.clusters, h.owned, h.listed⟩

/-- Deltas do not depend on the number of rigid passes. -/
theorem Tenancy.applyDelta_withPasses (h : w.Tenancy) (passes : UInt32) (delta : Delta S) :
    (w.withPasses passes).applyDelta delta =
      ((w.applyDelta delta).1, (w.applyDelta delta).2.withPasses passes) := by
  have hcongruent : w.Congruent (fun _ s t => t = s) passes (w.withPasses passes) :=
    ⟨w.store, w.touched, ⟨rfl, rfl, fun _ => rfl⟩, rfl⟩
  rcases hcongruent.applyDelta .eq delta with ⟨happlied, store, touched, hstore, hworld⟩
  have hsame : store = (w.applyDelta delta).2.store :=
    ParticleStore.ext_slot hstore.slotCount hstore.aliveCount hstore.slot
  -- notes follow from the answer, which is the same
  have hnoted : touched = (w.applyDelta delta).2.touched := by
    have htouched := congrArg World.touched hworld
    rw [show touched = ((w.withPasses passes).applyDelta delta).2.touched from htouched.symm]
    cases hone : (w.applyDelta delta).1 with
    | false =>
      rw [(unharmed_of_rejected hone).touched, (unharmed_of_rejected (happlied.trans hone)).touched]
      rfl
    | true =>
      rw [touched_applyDelta h.owned hone,
        touched_applyDelta (h.withPasses passes).owned (happlied.trans hone)]
      rfl
  refine Prod.ext happlied (hworld.trans ?_)
  rw [hsame, hnoted]
  rfl

theorem Tenancy.updated_withPasses [LawfulSign S] (h : w.Tenancy) (passes : UInt32)
    (deltas : List (Delta S)) :
    (w.withPasses passes).updated deltas = (w.updated deltas).withPasses passes := by
  induction deltas using List.reverseRecOn with
  | nil => rfl
  | append_singleton deltas delta ih =>
    have htenancy : (w.updated deltas).Tenancy := (h.mark ∅).applyDeltas deltas
    rw [updated_concat, updated_concat, ih, htenancy.applyDelta_withPasses]

/-- The topology does not depend on the number of rigid passes. -/
theorem refresh_withPasses (hr : w.refresh = .ok before) (passes : UInt32) :
    (w.withPasses passes).refresh = .ok (before.withPasses passes) := by
  rcases refreshed_of_refresh hr with ⟨hstore, _, _, htouched⟩
  have hvaried := refresh_vary (w := w) passes w.touched (.refl w.store)
  have hsame : before.vary passes w.store w.touched = before.withPasses passes := by
    rw [← hstore, ← htouched]
    rfl
  rw [hr] at hvaried
  exact hvaried.trans (congrArg Except.ok hsame)

theorem Linked.withPasses (h : w.Linked) (passes : UInt32) : (w.withPasses passes).Linked :=
  ⟨h.tethers, h.joints, h.suspensions, h.partition, h.workspaces⟩

/-- The rigid passes do not change what joints and suspensions remember. -/
theorem pushed_memory (w : World S) (directions : Directions S) (dt : S) {c : Cell}
    (hslot : ∀ slot, c ≠ .slot slot) (htether : ∀ owner layer tip, c ≠ .tether owner layer tip) :
    w.pushedMotion directions dt c = w.solvedMotion directions dt c := by
  refine Visit.runAll_frame fun v hv hwrites => ?_
  rcases List.mem_flatMap.mp (Program.mem_push hv) with ⟨⟨proxy, d⟩, _, hv⟩
  rcases mem_writes_ofTethers hv hwrites with ⟨⟨layer, t⟩, _, heq | heq⟩
  · exact hslot _ heq
  · exact htether _ _ _ heq

/-- Worlds of which hooks and readers are told the same, except for the places of particles. -/
structure Displaced (w v : World S) : Prop where
  slot : ∀ i, v.store.slot i = { w.store.slot i with
    position := (v.store.slot i).position
    predicted := (v.store.slot i).predicted }
  members : v.members = w.members
  joints : v.joints = w.joints
  suspensions : v.suspensions = w.suspensions
  touched : v.touched = w.touched
  forces : ∀ proxy : ProxyId, v.forces[proxy]? = w.forces[proxy]?

/-- With another number of rigid passes particles move alike and the same forces act. -/
theorem Linked.displaced_moved (h : w.Linked) (hw : w.store.Weighed) (hm : w.Remembers directions)
    (hk : w.Unmixed) (passes : UInt32) (dt : S) :
    (w.moved dt).Displaced ((w.withPasses passes).moved dt) := by
  have hm' : (w.withPasses passes).Remembers directions := ⟨hm.joints, hm.suspensions⟩
  refine ⟨fun i => ?_, rfl, rfl, rfl, rfl, fun proxy => ?_⟩
  · -- velocities are taken from what is solved before the first rigid pass
    have hone := h.slot_moved hw hm dt i
    have htwo := (h.withPasses passes).slot_moved hw hm' dt i
    by_cases halive : w.store.isAlive i = true
    · rw [hone.trans (if_pos halive), htwo.trans (if_pos halive)]
      rfl
    · rw [hone.trans (if_neg halive), htwo.trans (if_neg halive)]
      rfl
  · -- forces are read from memories that rigid passes do not write
    have hjoint := fun v : World S => v.pushed_memory directions dt (c := .joint proxy)
      (fun _ => nofun) (fun _ _ _ => nofun)
    have hsuspension := fun v : World S => v.pushed_memory directions dt (c := .suspension proxy)
      (fun _ => nofun) (fun _ _ _ => nofun)
    have hk' : (w.withPasses passes).Unmixed := hk.of_eq rfl rfl rfl
    rw [h.forces_moved hw hk hm, (h.withPasses passes).forces_moved hw hk' hm']
    unfold Motion.force
    simp only [hjoint, hsuspension]
    rfl

/-- The results of such worlds tell of the same velocities and forces. -/
theorem Displaced.results (h : w.Displaced v) (moved : Bool) :
    (v.results moved).map ProxyResult.unplaced = (w.results moved).map ProxyResult.unplaced := by
  have hchanged : v.changed moved = w.changed moved := by
    funext k
    have hslot := h.slot k.index
    have hcontains : v.store.contains k = w.store.contains k := by
      unfold ParticleStore.contains ParticleStore.isAlive
      rw [hslot]
    unfold changed ParticleStore.get?
    rw [hcontains]
    by_cases hc : w.store.contains k = true
    · rw [if_pos hc, if_pos hc, hslot]
    · rw [if_neg hc, if_neg hc]
  have hparticles : ∀ (proxy : ProxyId) (handles : List ParticleHandle),
      (v.particleResult proxy handles).unplaced = (w.particleResult proxy handles).unplaced := by
    intro proxy handles
    unfold particleResult ProxyResult.unplaced
    dsimp only
    congr 4
    refine funext fun k => ?_
    rw [h.slot]
  have hconstraint : v.constraintResult = w.constraintResult := by
    funext proxy
    unfold constraintResult
    rw [Std.TreeMap.getD_eq_getD_getElem?, Std.TreeMap.getD_eq_getD_getElem?, h.forces]
  -- results are sorted by proxy, whatever places they tell
  have hsort : ∀ l : List (ProxyResult S),
      (l.mergeSort fun a b => (compare a.proxy b.proxy).isLE).map ProxyResult.unplaced =
        (l.map ProxyResult.unplaced).mergeSort fun a b => (compare a.proxy b.proxy).isLE :=
    fun l => List.map_mergeSort fun _ _ _ _ => rfl
  unfold World.results
  dsimp only
  rw [hsort, hsort, List.map_append, List.map_append, h.members, h.joints, h.suspensions, h.touched,
    hchanged, hconstraint, List.map_map, List.map_map]
  congr 2
  rw [List.map_map]
  refine List.map_congr_left fun x _ => ?_
  exact hparticles x.1 x.2

/-! ## Whole runs -/

/-- Two steps after which particles move alike and the same forces act, and that tell of the same
velocities and forces. -/
structure Isokinetic (one two : StepOutcome S T) : Prop where
  velocities : ∀ i, (two.world.store.slot i).velocity = (one.world.store.slot i).velocity
  seen : ∀ i, (two.storeAfter.slot i).velocity = (one.storeAfter.slot i).velocity
  forces : ∀ proxy : ProxyId, two.world.forces[proxy]? = one.world.forces[proxy]?
  results : two.pull.results.map ProxyResult.unplaced = one.pull.results.map ProxyResult.unplaced

/-- A step that ends does so with every number of rigid passes, and nothing but places depends on
it. -/
theorem Standing.isokinetic [LawfulSign S] (h : w.Standing) {snapshot : PushSnapshot S T}
    {outcome : StepOutcome S T} (hs : w.step snapshot = .ok outcome) (hdt : 0 < snapshot.dt)
    (passes : UInt32) :
    ∃ other, (w.withPasses passes).step snapshot = .ok other ∧ Isokinetic outcome other := by
  rcases h.step_eq hs with ⟨before, hprepare, hpoised, rfl⟩
  rcases hpoised.remembers with ⟨directions, hremembers⟩
  have hlinked := hpoised.linked
  have hweighed := hpoised.sound.weighed
  have hprepared : (w.withPasses passes).prepare snapshot.deltas =
      .ok ((w.withPasses passes).droppedOf snapshot.deltas, before.withPasses passes) := by
    refine prepare_eq_ok.mpr ⟨rfl, ?_⟩
    rw [h.tenancy.updated_withPasses]
    exact refresh_withPasses (prepare_eq_ok.mp hprepare).2 passes
  have hdisplaced := hlinked.displaced_moved hweighed hremembers hpoised.tenancy.unmixed passes
    snapshot.dt
  refine ⟨_, World.step_eq hprepared (hlinked.withPasses passes) hweighed, ?_⟩
  have hstepped : ∀ v : World S, v.stepped snapshot = { v.moved snapshot.dt with
      store := (v.moved snapshot.dt).store.clearStepData, latest := snapshot.timestamp } := by
    intro v
    unfold World.stepped
    rw [if_pos hdt]
  have hadvanced : ∀ v : World S, v.advanced snapshot.dt = v.moved snapshot.dt :=
    fun v => if_pos hdt
  refine ⟨fun i => ?_, fun i => ?_, fun proxy => ?_, ?_⟩
  · simp only [hstepped, ParticleStore.slot_clearStepData]
    rw [hdisplaced.slot i]
    rfl
  · simp only [hadvanced]
    rw [hdisplaced.slot i]
  · simp only [hstepped]
    exact hdisplaced.forces proxy
  · unfold World.answer
    simp only [hadvanced]
    exact hdisplaced.results _

/-- Whatever a world was asked before, and whatever a snapshot holds, a step that moves keeps to its
frame, with any number of rigid passes; and no step fails if the snapshots are admissible. -/
theorem step_framed [LawfulSign S] [LawfulDirections S] [LawfulAnchors S] {config : Config S}
    {actions : List (Action S T)} (hrun : (empty config).run actions = .ok w)
    (snapshot : PushSnapshot S T) (hdt : 0 < snapshot.dt) :
    (∀ outcome, w.step snapshot = .ok outcome →
      (∃ before, w.prepare snapshot.deltas = .ok (w.droppedOf snapshot.deltas, before) ∧
        (∃ directions, before.Remembers directions) ∧
        ∀ directions, before.Remembers directions →
          before.Framed directions snapshot.dt outcome.world.store) ∧
      ∀ passes, ∃ other, (w.withPasses passes).step snapshot = .ok other ∧
        Isokinetic outcome other) ∧
    ((∀ s, .step s ∈ actions → s.Admissible) → snapshot.Admissible →
      ∃ outcome, w.step snapshot = .ok outcome) := by
  have hstanding := standing_of_run hrun
  refine ⟨fun outcome hs => ⟨?_, hstanding.isokinetic hs hdt⟩, fun ha hadmissible => ?_⟩
  · rcases hstanding.step_eq hs with ⟨before, hprepare, hpoised, rfl⟩
    refine ⟨before, hprepare, hpoised.remembers, fun directions hremembers => ?_⟩
    dsimp only
    unfold World.stepped
    rw [if_pos hdt]
    exact hpoised.linked.framed_moved hpoised.sound.weighed hremembers hpoised.tenancy snapshot.dt
  · rcases (grown_of_run ha hrun).step hadmissible with ⟨outcome, hs, _⟩
    exact ⟨outcome, hs⟩

/-- Without tethers, a topology that is laid out anew is solved like the one whose constraints are
left. -/
theorem Rebuilt.tame (hr : w.Rebuilt before)
    (hclusters : ∀ proxy : ProxyId, w.clusters[proxy]? = none) {dt : S}
    (h : w.dropDangling.Tame directions dt) : before.Tame directions dt := by
  have hnone : ∀ (v : World S) (rule? : Cluster S → Option (TetherRule S)),
      (∀ proxy : ProxyId, v.clusters[proxy]? = none) → v.tetherVisits rule? = [] := by
    intro v rule? hv
    refine List.eq_nil_iff_forall_not_mem.mpr fun visit hvisit => ?_
    rcases List.mem_flatMap.mp hvisit with ⟨⟨proxy, c⟩, hc, _⟩
    have hsome := Std.TreeMap.mem_toList_iff_getElem?_eq_some.mp hc
    rw [hv proxy] at hsome
    cases hsome
  have hbefore : ∀ proxy : ProxyId, before.clusters[proxy]? = none :=
    fun proxy => hr.clusters_eq_none (hclusters proxy)
  have hdropped : ∀ proxy : ProxyId, w.dropDangling.clusters[proxy]? = none := hclusters
  unfold Tame program startMotion predicted masses jointVisits suspensionVisits at h ⊢
  simp only [hnone w.dropDangling _ hdropped, hnone before _ hbefore, hr.joints, hr.suspensions,
    hr.config, hr.store] at h ⊢
  exact h

/-- A particle that is taken to a target, and another one that hangs on it. -/
def haul : PushSnapshot Float32 Float where
  timestamp := ⟨1⟩
  startTime := 0
  dt := 1
  step := 0
  stepCount := 1
  deltas :=
    [⟨⟨0, 0⟩, .create (.particle ⟨0, 0⟩ (.kinematic 0))⟩,
      ⟨⟨1, 0⟩, .create (.particle ⟨1, 0⟩ (.dynamic ⟨2, 0, 0⟩ 1))⟩,
      ⟨⟨2, 0⟩, .create (.joint ⟨0, 0⟩ ⟨0, 0⟩ ⟨1, 0⟩ 1 0)⟩,
      ⟨⟨0, 0⟩, .setKinematicTarget ⟨0, 0⟩ ⟨1, 0, 0⟩⟩]

theorem haul_admissible : haul.Admissible := by
  intro d hd
  simp only [haul, List.mem_cons, List.not_mem_nil, or_false] at hd
  rcases hd with rfl | rfl | rfl | rfl
  · exact ⟨trivial, (by decide : (0 : Nat) < 2 ^ 32)⟩
  · exact ⟨trivial, (by decide : (1 : Nat) < 2 ^ 32)⟩
  · exact ⟨trivial, trivial⟩
  · exact ⟨trivial, trivial⟩

/-- The particle arrives, although the joint pulls at it. -/
theorem haul_framed : ∃ outcome : StepOutcome Float32 Float,
    (empty .standard).step haul = .ok outcome ∧ 0 < haul.dt ∧
      Vec3.Coincide ⟨1, 0, 0⟩ (outcome.world.store.slot 0).position ∧
      ∀ passes, ∃ other, ((empty Config.standard).withPasses passes).step haul = .ok other ∧
        Isokinetic outcome other := by
  have hdt : 0 < haul.dt := by decide
  have hrun : (empty Config.standard).run ([] : List (Action Float32 Float)) =
      .ok (empty Config.standard) := rfl
  rcases step_framed hrun haul hdt with ⟨hframed, hends⟩
  rcases hends (fun s hs => absurd hs List.not_mem_nil) haul_admissible with ⟨outcome, hs⟩
  rcases hframed outcome hs with ⟨⟨before, hprepare, _, hframe⟩, hpasses⟩
  refine ⟨outcome, hs, hdt, ?_, hpasses⟩
  have hpoised := (Standing.empty Config.standard).prepared hprepare
  -- particles have been created, so that the topology was not up to date
  have hrebuilt : ((empty Config.standard).updated haul.deltas).Rebuilt before := by
    refine hpoised.refreshed.resolve_left fun hsame => ?_
    have hclean := hpoised.clean
    rw [hsame] at hclean
    revert hclean
    decide +kernel
  have htame : before.Tame (fun _ => 0) haul.dt := by
    refine hrebuilt.tame (fun proxy => Std.TreeMap.getElem?_emptyc) ?_
    decide +kernel
  have harrives := (hframe _ (.rebuilt hrebuilt)).anchored htame 0
  rw [hrebuilt.store] at harrives
  exact harrives (by decide +kernel) (by decide +kernel)

end World

end TetheredParticles
