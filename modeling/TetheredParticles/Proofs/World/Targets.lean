import TetheredParticles.Proofs.World.Congruent
import TetheredParticles.Proofs.World.Pauses
import TetheredParticles.Proofs.World.Standing
/-!
# Targets of particles that forces can move

A target is meant for a kinematic particle, but any particle can be given one. If forces can move
the particle when the step is integrated, no particle gets to another place, no force changes, and
hooks see all particles move as they would have moved. At the end of the step, however, the particle
stops as if it had arrived. That is all: if it would have been at rest anyway, no later step
differs.

* `ParticleSlot.Retargeted`, `ParticleSlot.Congruence.retargets` — slots that differ in their
  target.
* `World.Congruent.target` — two snapshots that differ in one target.
* `World.Strayed`, `World.strayed_of_step` — the steps of both snapshots.
* `World.step_strayed` — the same after anything that was asked of the empty world.
* `World.Standing.velocity_loose` — the velocity of a particle in a world without constraints.
-/

namespace TetheredParticles

variable {S T : Type} [Scalar S] [Scalar T] [Timeline S T]

/-! ## Slots -/

/-- Another target, or a target in addition; the slot may be marked differently because of it. -/
structure ParticleSlot.Retargeted (s t : ParticleSlot S) : Prop where
  rest : t = { s with target := t.target, flags := { s.flags with dirty := t.flags.dirty } }
  pending : s.target.isSome = true → t.target.isSome = true

/-- One slot has got another target; all others are the same. -/
def ParticleSlot.Retargets (index i : Nat) (s t : ParticleSlot S) : Prop :=
  s.Retargeted t ∧ (i ≠ index → t = s)

namespace ParticleSlot

variable {s t : ParticleSlot S}

omit [Scalar S] in
theorem Retargeted.refl (s : ParticleSlot S) : s.Retargeted s := ⟨rfl, id⟩

omit [Scalar S] in
/-- Both slots are changed in the same way, and the targets are changed alike. -/
theorem Retargeted.change (h : s.Retargeted t) (change : ParticleSlot S → ParticleSlot S)
    (hrest : ∀ (u : ParticleSlot S) target dirty,
      ∃ target' dirty', change { u with target, flags := { u.flags with dirty } } =
        { change u with target := target', flags := { (change u).flags with dirty := dirty' } })
    (hpending : ∀ u v : ParticleSlot S, (u.target.isSome = true → v.target.isSome = true) →
      (change u).target.isSome = true → (change v).target.isSome = true) :
    (change s).Retargeted (change t) := by
  refine ⟨?_, hpending s t h.pending⟩
  rcases hrest s t.target t.flags.dirty with ⟨target, dirty, heq⟩
  rw [h.rest, heq]

/-- No write tells slots apart that differ in their target. -/
theorem Congruence.retargets (index : Nat) :
    Congruence (S := S) (ParticleSlot.Retargets index) where
  refl i s := ⟨.refl s, fun _ => rfl⟩
  alike i s t h := by
    rw [h.1.rest]
    exact ⟨rfl, rfl, rfl, rfl⟩
  inverseMass i s t h := by rw [h.1.rest]
  vacated i s t h :=
    ⟨h.1.change _ (fun _ _ _ => ⟨none, false, rfl⟩) (fun _ _ _ h => h), fun hi => by rw [h.2 hi]⟩
  touched i s t h :=
    ⟨h.1.change _ (fun _ target _ => ⟨target, true, rfl⟩) (fun _ _ h => h),
      fun hi => by rw [h.2 hi]⟩
  withPosition i s t p h :=
    ⟨h.1.change (fun s => { s with position := p, predicted := p })
      (fun _ target dirty => ⟨target, dirty, rfl⟩) (fun _ _ h => h), fun hi => by rw [h.2 hi]⟩
  withVelocity i s t v h :=
    ⟨h.1.change (fun s => { s with velocity := v })
      (fun _ target dirty => ⟨target, dirty, rfl⟩) (fun _ _ h => h), fun hi => by rw [h.2 hi]⟩
  withTarget i s t p h :=
    ⟨h.1.change (fun s => { s with target := some p })
      (fun _ _ dirty => ⟨some p, dirty, rfl⟩) (fun _ _ _ _ => rfl), fun hi => by rw [h.2 hi]⟩
  withForce i s t f h :=
    ⟨h.1.change (fun s => { s with force := s.force + f })
      (fun _ target dirty => ⟨target, dirty, rfl⟩) (fun _ _ h => h), fun hi => by rw [h.2 hi]⟩
  withInverseMass i s t m h :=
    ⟨h.1.change (·.withInverseMass m) (fun _ target dirty => ⟨target, dirty, rfl⟩)
      (fun _ _ h => h), fun hi => by rw [h.2 hi]⟩

/-- The prediction for a particle that forces can move does not heed its target. -/
theorem Retargeted.predict (h : s.Retargeted t) (hdynamic : s.flags.kinematic = false)
    (gravity : Vec3 S) (damping dt : S) :
    (s.predict gravity damping dt).Retargeted (t.predict gravity damping dt) := by
  have hsame : t.flags.kinematic = false := by
    rw [h.rest]
    exact hdynamic
  unfold ParticleSlot.predict
  rw [hdynamic, hsame]
  refine ⟨?_, h.pending⟩
  rw [h.rest]
  rfl

end ParticleSlot

/-! ## Stores -/

namespace ParticleStore.Congruent

variable {index : Nat} {store other : ParticleStore S}

/-- Every particle is predicted to move in the same way. -/
theorem predict (h : store.Congruent (ParticleSlot.Retargets index) other)
    (hdynamic : (store.slot index).flags.kinematic = false) (gravity : Vec3 S) (damping dt : S) :
    (store.predict gravity damping dt).Congruent (ParticleSlot.Retargets index)
      (other.predict gravity damping dt) := by
  have halive := h.isAlive (.retargets index)
  refine ⟨?_, h.aliveCount, fun i => ?_⟩
  · rw [slotCount_predict, slotCount_predict, h.slotCount]
  · rw [slot_predict, slot_predict, halive]
    split
    case isFalse => exact h.slot i
    case isTrue =>
      -- only the prediction of a kinematic slot reads the target, and this slot is none
      by_cases hi : i = index
      · subst hi
        exact ⟨(h.slot i).1.predict hdynamic gravity damping dt, fun hne => absurd rfl hne⟩
      · rw [(h.slot i).2 hi]
        exact ⟨.refl _, fun _ => rfl⟩

/-- Particles are put to the same places. -/
theorem scatter (h : store.Congruent (ParticleSlot.Retargets index) other) (dt : S)
    (ws : Workspace S) : (World.scatter dt store ws).Congruent (ParticleSlot.Retargets index)
      (World.scatter dt other ws) := by
  unfold World.scatter
  induction ws.particles.toList.zipIdx generalizing store other with
  | nil => exact h
  | cons x rest ih =>
    refine ih (h.modify x.1 fun i s t hst => ?_)
    refine ⟨hst.1.change (fun s => { s with
      velocity := Integration.meanVelocity s.position (ws.solved.getD x.2 0) dt
      position := ws.positions.getD x.2 0
      predicted := ws.positions.getD x.2 0 })
      (fun _ target dirty => ⟨target, dirty, rfl⟩) (fun _ _ h => h), fun hi => ?_⟩
    rw [hst.2 hi]

theorem scatterAll (h : store.Congruent (ParticleSlot.Retargets index) other) (dt : S)
    (workspaces : Array (Workspace S)) :
    (workspaces.foldl (World.scatter dt) store).Congruent (ParticleSlot.Retargets index)
      (workspaces.foldl (World.scatter dt) other) := by
  rw [← Array.foldl_toList, ← Array.foldl_toList]
  induction workspaces.toList generalizing store other with
  | nil => exact h
  | cons ws rest ih => exact ih (h.scatter dt ws)

end ParticleStore.Congruent

namespace World

/-! ## Snapshots -/

variable {w v : World S} {index : Nat} {passes : UInt32}

/-- A target changes the target of one particle, or it is dropped. -/
theorem Congruent.target (w : World S) (proxy : ProxyId) (h : ParticleHandle) (target : Vec3 S) :
    w.Congruent (ParticleSlot.Retargets h.index) w.config.pushOutIterations
      (w.applyDelta ⟨proxy, .setKinematicTarget h target⟩).2 := by
  have hrefl := Congruent.refl (.retargets h.index) w
  unfold World.applyDelta World.applyCommand accept
  dsimp only
  cases hw : w.writeParticle? proxy h (·.setTarget? h target) with
  | none => exact hrefl
  | some after =>
    unfold writeParticle? at hw
    split at hw
    case isFalse => cases hw
    case isTrue =>
      rcases Option.map_eq_some_iff.mp hw with ⟨store, hstore, rfl⟩
      rcases ParticleStore.slot_of_write hstore with ⟨hcontains, hcount, hslot⟩
      have halive : store.aliveCount = w.store.aliveCount := by
        unfold ParticleStore.setTarget? ParticleStore.write? at hstore
        dsimp only at hstore
        rw [if_pos hcontains] at hstore
        cases hstore
        rfl
      refine ⟨store, _, ⟨hcount, halive, fun i => ?_⟩, rfl⟩
      rw [hslot]
      split
      case isTrue hi => exact ⟨⟨rfl, fun _ => rfl⟩, fun hne => absurd hi hne⟩
      case isFalse => exact ⟨.refl _, fun _ => rfl⟩

/-- Two lists of deltas of which one has a target in addition. -/
theorem Congruent.updated (w : World S) (earlier later : List (Delta S)) (proxy : ProxyId)
    (h : ParticleHandle) (target : Vec3 S) :
    (w.updated (earlier ++ later)).Congruent (ParticleSlot.Retargets h.index)
      w.config.pushOutIterations
      (w.updated (earlier ++ ⟨proxy, .setKinematicTarget h target⟩ :: later)) := by
  -- the target comes first, and later deltas keep what differs
  induction later using List.reverseRecOn with
  | nil =>
    rw [List.append_nil, updated_concat, ← (retained_updated w earlier).config]
    exact .target _ proxy h target
  | append_singleton later delta ih =>
    rw [← List.append_assoc, ← List.cons_append, ← List.append_assoc, updated_concat,
      updated_concat]
    exact (ih.applyDelta (.retargets h.index) delta).2

/-! ## Steps -/

/-- Worlds whose particles are predicted to go to the same places solve their islands alike. -/
theorem move_vary (w : World S) {store : ParticleStore S} (touched : Std.TreeSet ProxyId) (dt : S)
    (hsame : ∀ i,
      ((store.predict w.config.gravity w.config.linearDamping dt).slot i).predicted =
        ((w.predicted dt).slot i).predicted ∧
      ((store.predict w.config.gravity w.config.linearDamping dt).slot i).inverseMass =
        ((w.predicted dt).slot i).inverseMass) :
    (w.vary w.config.pushOutIterations store touched).move dt =
      (fun after => after.vary w.config.pushOutIterations
        (after.workspaces.foldl (scatter dt)
          (store.predict w.config.gravity w.config.linearDamping dt)) touched) <$> w.move dt := by
  -- islands read predicted positions and masses, and nothing else of the store
  have hgather : ∀ ws : Workspace S,
      ws.gather (store.predict w.config.gravity w.config.linearDamping dt) =
        ws.gather (w.store.predict w.config.gravity w.config.linearDamping dt) := by
    intro ws
    unfold predicted at hsame
    unfold Workspace.gather
    simp only [hsame]
  have hisland : solveIsland w.config
      (store.predict w.config.gravity w.config.linearDamping dt) dt =
      solveIsland w.config (w.store.predict w.config.gravity w.config.linearDamping dt) dt := by
    funext ws
    unfold solveIsland
    rw [hgather]
  unfold move
  dsimp only [vary]
  rw [map_bind]
  show (w.workspaces.mapM (solveIsland w.config _ dt) >>= _) = _
  rw [hisland]
  rfl

theorem store_of_move {after : World S} {dt : S} (h : w.move dt = .ok after) :
    after.store = after.workspaces.foldl (scatter dt) (w.predicted dt) := by
  unfold move at h
  rcases exists_of_bind_ok h with ⟨workspaces, _, h⟩
  cases h
  rfl

/-- Worlds that differ in the target of a particle that forces can move do so after the moving
stage, and one meets a fault there if the other does. -/
theorem Congruent.advance (w : World S) {store : ParticleStore S} (touched : Std.TreeSet ProxyId)
    (h : w.store.Congruent (ParticleSlot.Retargets index) store)
    (hdynamic : (w.store.slot index).flags.kinematic = false) (dt : S) :
    ∃ advanced : World S → ParticleStore S,
      (w.vary w.config.pushOutIterations store touched).advance dt =
        (fun after => after.vary w.config.pushOutIterations (advanced after) touched) <$>
          w.advance dt ∧
      ∀ after, w.advance dt = .ok after →
        after.store.Congruent (ParticleSlot.Retargets index) (advanced after) := by
  unfold World.advance
  split
  case isTrue =>
    have hpredicted := h.predict hdynamic w.config.gravity w.config.linearDamping dt
    refine ⟨_, move_vary w touched dt fun i => ?_, fun after hafter => ?_⟩
    · unfold predicted
      rw [(hpredicted.slot i).1.rest]
      exact ⟨rfl, rfl⟩
    · rw [store_of_move hafter]
      exact hpredicted.scatterAll dt after.workspaces
  case isFalse =>
    refine ⟨fun _ => store, rfl, fun after hafter => ?_⟩
    cases hafter
    exact h

/-- How two steps differ, if in the second one a particle that forces can move has got another
target. -/
structure Strayed (index : Nat) (one two : StepOutcome S T) : Prop where
  /-- Hooks see all particles in the same places, and moving alike. -/
  positions : ∀ i, (two.storeAfter.slot i).position = (one.storeAfter.slot i).position
  velocities : ∀ i, (two.storeAfter.slot i).velocity = (one.storeAfter.slot i).velocity
  /-- Nothing but particles differs, and the notes about the deltas. -/
  world : two.world =
    { one.world with store := two.world.store, touched := two.world.touched }
  elsewhere : ∀ i, i ≠ index → two.world.store.slot i = one.world.store.slot i
  /-- The particle differs in its velocity alone. -/
  here : two.world.store.slot index = { one.world.store.slot index with
    velocity := (two.world.store.slot index).velocity }
  /-- With a target it stops. -/
  stopped : (two.storeAfter.slot index).target.isSome = true →
    (two.world.store.slot index).velocity = 0
  /-- Without one it moves on. -/
  coasting : (two.storeAfter.slot index).target = none →
    (two.world.store.slot index).velocity = (one.world.store.slot index).velocity
  /-- If it moves as it would have moved, then no later step differs. -/
  later : (two.world.store.slot index).velocity = (one.world.store.slot index).velocity →
    ∀ snapshot : PushSnapshot S T, two.world.step snapshot = one.world.step snapshot

/-- Stores that differ in a target, at the end of a step. -/
theorem strayed_of_congruent {before other after : World S} {store : ParticleStore S}
    {touched : Std.TreeSet ProxyId} (h : after.store.Congruent (ParticleSlot.Retargets index) store)
    {plain targeted : PushSnapshot S T} (htimestamp : targeted.timestamp = plain.timestamp)
    (dropped also : Nat) :
    Strayed index (before.conclude after plain dropped)
      (other.conclude (after.vary after.config.pushOutIterations store touched) targeted also) := by
  have hone : ∀ i, after.store.clearStepData.slot i = (after.store.slot i).settled :=
    ParticleStore.slot_clearStepData after.store
  have htwo : ∀ i, store.clearStepData.slot i = (store.slot i).settled :=
    ParticleStore.slot_clearStepData store
  have hmotion : ∀ i, (store.slot i).position = (after.store.slot i).position ∧
      (store.slot i).velocity = (after.store.slot i).velocity := by
    intro i
    rw [(h.slot i).1.rest]
    exact ⟨rfl, rfl⟩
  have helsewhere : ∀ i, i ≠ index →
      store.clearStepData.slot i = after.store.clearStepData.slot i := by
    intro i hi
    rw [hone, htwo, (h.slot i).2 hi]
  -- no target is left at the end, so that the slot differs in its velocity at most
  have hhere : store.clearStepData.slot index = { after.store.clearStepData.slot index with
      velocity := (store.clearStepData.slot index).velocity } := by
    rw [hone, htwo, (h.slot index).1.rest]
    rfl
  refine ⟨fun i => (hmotion i).1, fun i => (hmotion i).2, ?_, helsewhere, hhere, ?_, ?_, ?_⟩
  · unfold conclude vary
    rw [htimestamp]
  · intro htarget
    show (store.clearStepData.slot index).velocity = 0
    rw [htwo]
    exact (ParticleSlot.lapsed_settled _).stopped htarget
  · intro htarget
    replace htarget : (store.slot index).target = none := htarget
    have hnone : (after.store.slot index).target = none := by
      refine Option.not_isSome_iff_eq_none.mp fun hsome => ?_
      have hpending := (h.slot index).1.pending hsome
      rw [htarget] at hpending
      cases hpending
    show (store.clearStepData.slot index).velocity = (after.store.clearStepData.slot index).velocity
    rw [hone, htwo, (ParticleSlot.lapsed_settled _).coasting htarget,
      (ParticleSlot.lapsed_settled _).coasting hnone]
    exact (hmotion index).2
  · intro hvelocity snapshot
    replace hvelocity : (store.clearStepData.slot index).velocity =
      (after.store.clearStepData.slot index).velocity := hvelocity
    have hstore : store.clearStepData = after.store.clearStepData := by
      refine ParticleStore.ext_slot ?_ h.aliveCount fun i => ?_
      · rw [ParticleStore.slotCount_clearStepData, ParticleStore.slotCount_clearStepData,
          h.slotCount]
      · by_cases hi : i = index
        · rw [hi, hhere, hvelocity]
        · exact helsewhere i hi
    -- a step begins by forgetting what was noted in the one before
    unfold World.step prepare conclude vary
    dsimp only
    rw [hstore, htimestamp]

/-- A target in addition, for a particle that forces can move when the step is integrated. -/
theorem strayed_of_step {earlier later : List (Delta S)} {proxy : ProxyId} {h : ParticleHandle}
    {target : Vec3 S} {plain targeted : PushSnapshot S T} (hplain : plain.deltas = earlier ++ later)
    (htargeted : targeted = { plain with
      deltas := earlier ++ ⟨proxy, .setKinematicTarget h target⟩ :: later })
    (hdynamic : ((w.updated plain.deltas).store.slot h.index).flags.kinematic = false) :
    (∀ fault, w.step plain = .error fault → w.step targeted = .error fault) ∧
    ∀ one, w.step plain = .ok one → ∃ two, w.step targeted = .ok two ∧ Strayed h.index one two := by
  -- the worlds after the deltas, after the topology stage, and after they have moved
  have hupdated := Congruent.updated w earlier later proxy h target
  rw [← (retained_updated w (earlier ++ later)).config, ← hplain] at hupdated
  rcases hupdated with ⟨store, touched, hstore, hworld⟩
  have hrefresh := refresh_vary (w.updated plain.deltas).config.pushOutIterations touched
    (hstore.steady (.retargets h.index))
  rw [← hworld] at hrefresh
  rw [step_eq_stages, step_eq_stages]
  subst htargeted
  dsimp only
  rw [hrefresh]
  cases hok : (w.updated plain.deltas).refresh with
  | error fault => exact ⟨fun _ hfault => hfault, fun _ hone => (nomatch hone)⟩
  | ok before =>
    have hsame := refreshed_of_refresh hok
    rw [← hsame.store] at hstore hdynamic
    rw [← hsame.config]
    rcases Congruent.advance before touched hstore hdynamic plain.dt with
      ⟨advanced, hadvance, hafter⟩
    show (∀ fault, (before.advance plain.dt >>= _) = .error fault →
      ((before.vary before.config.pushOutIterations store touched).advance plain.dt >>= _) =
        .error fault) ∧ ∀ one, (before.advance plain.dt >>= _) = .ok one → ∃ two,
      ((before.vary before.config.pushOutIterations store touched).advance plain.dt >>= _) =
        .ok two ∧ _
    rw [hadvance]
    cases hadvanced : before.advance plain.dt with
    | error fault => exact ⟨fun _ hfault => hfault, fun _ hone => (nomatch hone)⟩
    | ok after =>
      refine ⟨fun _ hfault => (nomatch hfault), fun one hone => ?_⟩
      cases hone
      refine ⟨_, rfl, ?_⟩
      rw [← (shifted_of_advance hadvanced).2]
      exact strayed_of_congruent (hafter after hadvanced) rfl _ _

/-! ## Worlds without constraints -/

/-- Neither tethers nor joints nor suspensions act on the particles of a world. -/
def Loose (w : World S) : Prop := ∀ proxy : ProxyId,
  w.clusters[proxy]? = none ∧ w.joints[proxy]? = none ∧ w.suspensions[proxy]? = none

theorem Loose.rebuilt {before : World S} (h : w.Loose) (hr : w.Rebuilt before) : before.Loose := by
  intro proxy
  rcases h proxy with ⟨hclusters, hjoints, hsuspensions⟩
  refine ⟨hr.clusters_eq_none hclusters, ?_, ?_⟩
  · refine Option.eq_none_iff_forall_ne_some.mpr fun j hj => ?_
    have hbefore := hr.joint_before hj
    rw [hjoints] at hbefore
    cases hbefore
  · refine Option.eq_none_iff_forall_ne_some.mpr fun s hs => ?_
    have hbefore := hr.suspension_before hs
    rw [hsuspensions] at hbefore
    cases hbefore

/-- The passes have nothing to visit. -/
theorem Loose.not_mem_solve (h : w.Loose) (dt : S) (v : Visit S) :
    v ∉ (w.program dt).solve w.config := by
  intro hv
  rcases Program.mem_solve hv with htether | hjoint
  · rcases List.mem_flatMap.mp htether with ⟨⟨proxy, c⟩, hc, _⟩
    have hsome := Std.TreeMap.mem_toList_iff_getElem?_eq_some.mp hc
    rw [(h proxy).1] at hsome
    cases hsome
  · rcases List.mem_append.mp hjoint with hjoint | hsuspension
    · rcases List.mem_map.mp hjoint with ⟨⟨proxy, j⟩, hj, _⟩
      have hsome := Std.TreeMap.mem_toList_iff_getElem?_eq_some.mp hj
      rw [(h proxy).2.1] at hsome
      cases hsome
    · rcases List.mem_map.mp hsuspension with ⟨⟨proxy, s⟩, hs, _⟩
      have hsome := Std.TreeMap.mem_toList_iff_getElem?_eq_some.mp hs
      rw [(h proxy).2.2] at hsome
      cases hsome

/-- A particle without a target that nothing is attached to goes where it is predicted, and keeps
the velocity that takes it there. -/
theorem Standing.velocity_loose [LawfulSign S] (h : w.Standing) {snapshot : PushSnapshot S T}
    {outcome : StepOutcome S T} (hs : w.step snapshot = .ok outcome) (hdt : 0 < snapshot.dt)
    (hloose : (w.updated snapshot.deltas).Loose) {i : Nat}
    (halive : (w.updated snapshot.deltas).store.isAlive i = true)
    (htarget : ((w.updated snapshot.deltas).store.slot i).target = none) :
    (outcome.world.store.slot i).velocity =
      Integration.meanVelocity ((w.updated snapshot.deltas).store.slot i).position
        (((w.updated snapshot.deltas).predicted snapshot.dt).slot i).predicted snapshot.dt := by
  have hdrifted := drifted_of_step hs
  rcases h.step_eq hs with ⟨before, hprepare, hpoised, rfl⟩
  rcases hpoised.remembers with ⟨directions, hremembers⟩
  have hbefore : before.Loose := by
    rcases hpoised.refreshed with rfl | hrebuilt
    · exact hloose
    · exact hloose.rebuilt hrebuilt
  rcases refreshed_of_refresh (prepare_eq_ok.mp hprepare).2 with ⟨hstore, _, hconfig, _⟩
  have hpredicted : before.predicted snapshot.dt =
      (w.updated snapshot.deltas).predicted snapshot.dt := by
    unfold predicted
    rw [hstore, hconfig]
  -- without visits, what is solved is what was predicted
  have hsolved : Motion.position (before.solvedMotion directions snapshot.dt) i =
      ((before.predicted snapshot.dt).slot i).predicted :=
    congrArg Prod.fst (Visit.runAll_frame fun v hv => absurd hv (hbefore.not_mem_solve _ v))
  have hmoved := hpoised.linked.slot_moved hpoised.sound.weighed hremembers snapshot.dt i
  rw [if_pos (hstore ▸ halive), hsolved] at hmoved
  unfold World.advanced at hdrifted
  rw [if_pos hdt] at hdrifted
  have hnone : ((before.moved snapshot.dt).store.slot i).target = none := by
    rw [hdrifted.slot i]
    exact htarget
  have hstepped : (before.stepped snapshot).store.slot i =
      ((before.moved snapshot.dt).store.slot i).settled := by
    unfold World.stepped
    rw [if_pos hdt]
    exact ParticleStore.slot_clearStepData _ i
  dsimp only
  rw [hstepped, (ParticleSlot.lapsed_settled _).coasting hnone, hmoved, ← hpredicted, ← hstore,
    ← position_predicted before snapshot.dt i]
  rfl

/-! ## Whole runs -/

/-- Whatever a world was asked before, and whatever a snapshot holds, a target in addition for a
particle that forces can move does nothing but stop the particle at the end of the step. -/
theorem step_strayed [LawfulSign S] [LawfulDirections S] {config : Config S}
    {actions : List (Action S T)} (hrun : (empty config).run actions = .ok w)
    {earlier later : List (Delta S)} {proxy : ProxyId} {h : ParticleHandle} {target : Vec3 S}
    {plain targeted : PushSnapshot S T} (hplain : plain.deltas = earlier ++ later)
    (htargeted : targeted = { plain with
      deltas := earlier ++ ⟨proxy, .setKinematicTarget h target⟩ :: later })
    (hdynamic : ((w.updated plain.deltas).store.slot h.index).flags.kinematic = false) :
    (∀ one, w.step plain = .ok one → ∃ two, w.step targeted = .ok two ∧ Strayed h.index one two) ∧
    (∀ fault, w.step plain = .error fault → w.step targeted = .error fault) ∧
    ((∀ s, .step s ∈ actions → s.Admissible) → plain.Admissible →
      ∃ one, w.step plain = .ok one) := by
  rcases strayed_of_step hplain htargeted hdynamic with ⟨hfault, hok⟩
  refine ⟨hok, hfault, fun ha hadmissible => ?_⟩
  rcases (grown_of_run ha hrun).step hadmissible with ⟨one, hone, _⟩
  exact ⟨one, hone⟩

/-- A particle that falls. -/
def fall : PushSnapshot Float32 Float where
  timestamp := ⟨1⟩
  startTime := 0
  dt := 1
  step := 0
  stepCount := 1
  deltas := [⟨⟨0, 0⟩, .create (.particle ⟨0, 0⟩ (.dynamic 0 1))⟩]

/-- The same, but the particle is given a target. -/
def caught : PushSnapshot Float32 Float :=
  { fall with deltas := fall.deltas ++ [⟨⟨0, 0⟩, .setKinematicTarget ⟨0, 0⟩ 0⟩] }

theorem fall_admissible : fall.Admissible := by
  intro d hd
  simp only [fall, List.mem_cons, List.not_mem_nil, or_false] at hd
  subst hd
  exact ⟨trivial, (by decide : (0 : Nat) < 2 ^ 32)⟩

/-- The particle that falls differs from the one with a target as it has to. -/
theorem caught_strayed : ∃ one two : StepOutcome Float32 Float,
    (empty .standard).run ([] : List (Action Float32 Float)) = .ok (empty .standard) ∧
    fall.deltas = fall.deltas ++ [] ∧
    caught = { fall with
      deltas := fall.deltas ++ ⟨⟨0, 0⟩, .setKinematicTarget ⟨0, 0⟩ 0⟩ :: [] } ∧
    (((empty Config.standard).updated fall.deltas).store.slot 0).flags.kinematic = false ∧
    (empty .standard).step fall = .ok one ∧ (empty .standard).step caught = .ok two ∧
    Strayed 0 one two := by
  have hrun : (empty Config.standard).run ([] : List (Action Float32 Float)) =
      .ok (empty Config.standard) := rfl
  have hdynamic :
      (((empty Config.standard).updated fall.deltas).store.slot 0).flags.kinematic = false := by
    decide +kernel
  have hplain := (List.append_nil fall.deltas).symm
  have htargeted : caught = { fall with
      deltas := fall.deltas ++ ⟨⟨0, 0⟩, .setKinematicTarget ⟨0, 0⟩ 0⟩ :: [] } := rfl
  rcases step_strayed hrun hplain htargeted hdynamic with ⟨hstrayed, _, hends⟩
  rcases hends (fun s hs => absurd hs List.not_mem_nil) fall_admissible with ⟨one, hone⟩
  rcases hstrayed one hone with ⟨two, htwo, hstrayed⟩
  exact ⟨one, two, hrun, hplain, htargeted, hdynamic, hone, htwo, hstrayed⟩

/-- Without the target the particle goes on falling. -/
theorem caught_stops : ¬ ∀ one two : StepOutcome Float32 Float,
    (empty .standard).step fall = .ok one → (empty .standard).step caught = .ok two →
      ∀ i, (two.world.store.slot i).position = (one.world.store.slot i).position ∧
        (two.world.store.slot i).velocity = (one.world.store.slot i).velocity := by
  intro hall
  rcases (Grown.empty Config.standard).step fall_admissible with ⟨one, hone, _⟩
  have htargeted : caught = { fall with
      deltas := fall.deltas ++ ⟨⟨0, 0⟩, .setKinematicTarget ⟨0, 0⟩ 0⟩ :: [] } := rfl
  have hdeltas : fall.deltas = fall.deltas ++ [] := (List.append_nil _).symm
  rcases (strayed_of_step hdeltas htargeted (by decide +kernel)).2 one hone
    with ⟨two, htwo, hstrayed⟩
  have hpending : (two.storeAfter.slot 0).target.isSome = true := by
    rw [(drifted_of_step htwo).slot 0]
    show (((empty Config.standard).updated caught.deltas).store.slot 0).target.isSome = true
    decide +kernel
  -- nothing is attached to the particle, so that without the target it has gained speed
  have hstopped := hstrayed.stopped hpending
  have hsame := (hall one two hone htwo 0).2
  rw [hstopped, (Standing.empty Config.standard).velocity_loose hone (by decide) ?_
    (by decide +kernel) (by decide +kernel)] at hsame
  · have hfalls : (Integration.meanVelocity
        (((empty Config.standard).updated fall.deltas).store.slot 0).position
        ((((empty Config.standard).updated fall.deltas).predicted fall.dt).slot 0).predicted
        fall.dt).y < 0 := by
      decide +kernel
    rw [← hsame] at hfalls
    exact absurd hfalls (by decide)
  · intro proxy
    exact ⟨Std.TreeMap.getElem?_emptyc, Std.TreeMap.getElem?_emptyc, Std.TreeMap.getElem?_emptyc⟩

end World

end TetheredParticles
