import TetheredParticles.Proofs.World.Effects
import TetheredParticles.Proofs.World.Matched
/-!
# Worlds that deltas do not tell apart

Two worlds can differ in numbers of their particles that no delta reads, in the notes about the
deltas of a step, and in how many rigid passes they run. Whatever is asked of both worlds is granted
by both or by none, the topology of both is rebuilt alike, and they still differ in nothing else.

* `ParticleSlot.Congruence` — a relation between slots that every write keeps.
* `ParticleStore.Congruent`, `World.Congruent` — stores and worlds whose slots are related.
* `World.Congruent.applyDelta` — deltas.
* `World.Congruent.rebuild` — the topology.
-/

namespace TetheredParticles

variable {S : Type} [Scalar S]

/-! ## Slots -/

/-- A relation between slots of two stores. Related slots hold the same particle of the same mass,
and stay related when the same is written to both. -/
structure ParticleSlot.Congruence (R : Nat → ParticleSlot S → ParticleSlot S → Prop) : Prop where
  refl : ∀ i s, R i s s
  alike : ∀ i s t, R i s t → s.Alike t
  inverseMass : ∀ i s t, R i s t → t.inverseMass = s.inverseMass
  vacated : ∀ i s t, R i s t → R i s.vacated t.vacated
  touched : ∀ i s t, R i s t → R i s.touched t.touched
  withPosition : ∀ i s t p, R i s t →
    R i { s with position := p, predicted := p } { t with position := p, predicted := p }
  withVelocity : ∀ i s t v, R i s t → R i { s with velocity := v } { t with velocity := v }
  withTarget : ∀ i s t p, R i s t → R i { s with target := some p } { t with target := some p }
  withForce : ∀ i s t f, R i s t →
    R i { s with force := s.force + f } { t with force := t.force + f }
  withInverseMass : ∀ i s t m, R i s t → R i (s.withInverseMass m) (t.withInverseMass m)

/-- Slots that are the same. -/
theorem ParticleSlot.Congruence.eq :
    ParticleSlot.Congruence (S := S) fun _ s t => t = s where
  refl _ _ := rfl
  alike _ _ _ h := h ▸ ⟨rfl, rfl, rfl, rfl⟩
  inverseMass _ _ _ h := h ▸ rfl
  vacated _ _ _ h := h ▸ rfl
  touched _ _ _ h := h ▸ rfl
  withPosition _ _ _ _ h := h ▸ rfl
  withVelocity _ _ _ _ h := h ▸ rfl
  withTarget _ _ _ _ h := h ▸ rfl
  withForce _ _ _ _ h := h ▸ rfl
  withInverseMass _ _ _ _ h := h ▸ rfl

/-! ## Stores -/

/-- As many slots and particles, and related slots. -/
structure ParticleStore.Congruent (R : Nat → ParticleSlot S → ParticleSlot S → Prop)
    (store other : ParticleStore S) : Prop where
  slotCount : other.slotCount = store.slotCount
  aliveCount : other.aliveCount = store.aliveCount
  slot : ∀ i, R i (store.slot i) (other.slot i)

namespace ParticleStore.Congruent

variable {R : Nat → ParticleSlot S → ParticleSlot S → Prop} {store other : ParticleStore S}

theorem steady (hR : ParticleSlot.Congruence R) (h : store.Congruent R other) :
    store.Steady other :=
  ⟨⟨h.slotCount, fun i => hR.alike i _ _ (h.slot i)⟩, fun i => hR.inverseMass i _ _ (h.slot i)⟩

theorem isAlive (hR : ParticleSlot.Congruence R) (h : store.Congruent R other) (i : Nat) :
    other.isAlive i = store.isAlive i :=
  (h.steady hR).alike.isAlive i

theorem contains (hR : ParticleSlot.Congruence R) (h : store.Congruent R other)
    (handle : ParticleHandle) : other.contains handle = store.contains handle :=
  (h.steady hR).alike.contains handle

theorem owner? (hR : ParticleSlot.Congruence R) (h : store.Congruent R other)
    (handle : ParticleHandle) : other.owner? handle = store.owner? handle := by
  unfold ParticleStore.owner? get?
  rw [h.contains hR]
  split
  · exact ((h.steady hR).alike.slot handle.index).owner
  · rfl

theorem slotCount_insert (store : ParticleStore S) (handle : ParticleHandle) (p : Particle S)
    (owner : ProxyId) : (store.insert handle p owner).slotCount =
      if store.isAlive handle.index = true then store.slotCount
      else store.slotCount + (handle.index + 1 - store.slotCount) := by
  unfold insert insert?
  split
  · rfl
  · rw [Option.getD_some]
    unfold ParticleStore.slotCount grow
    rw [Array.size_setIfInBounds, Array.size_append, Array.size_replicate]

theorem insert (hR : ParticleSlot.Congruence R) (h : store.Congruent R other)
    (handle : ParticleHandle) (p : Particle S) (owner : ProxyId) :
    (store.insert handle p owner).Congruent R (other.insert handle p owner) := by
  -- a slot is free in both stores or in none
  have halive := h.isAlive hR handle.index
  refine ⟨?_, ?_, fun i => ?_⟩
  · rw [slotCount_insert, slotCount_insert, halive, h.slotCount]
  · unfold ParticleStore.insert insert?
    rw [halive]
    split
    · exact h.aliveCount
    · exact congrArg (· + 1) h.aliveCount
  · cases hocc : store.isAlive handle.index with
    | true =>
      rw [insert_of_isAlive p owner hocc, insert_of_isAlive p owner (halive.trans hocc)]
      exact h.slot i
    | false =>
      rw [slot_insert p owner hocc, slot_insert p owner (halive.trans hocc)]
      split
      · exact hR.refl i _
      · exact h.slot i

theorem insertAll (hR : ParticleSlot.Congruence R) (h : store.Congruent R other)
    (pairs : List (ParticleHandle × Particle S)) (owner : ProxyId) :
    (pairs.foldl (fun store (h, p) => store.insert h p owner) store).Congruent R
      (pairs.foldl (fun store (h, p) => store.insert h p owner) other) := by
  induction pairs generalizing store other with
  | nil => exact h
  | cons x rest ih => exact ih (h.insert hR x.1 x.2 owner)

theorem remove (hR : ParticleSlot.Congruence R) (h : store.Congruent R other)
    (handle : ParticleHandle) : (store.remove handle).Congruent R (other.remove handle) := by
  have hcontains := h.contains hR handle
  refine ⟨?_, ?_, fun i => ?_⟩
  · unfold ParticleStore.remove remove?
    rw [hcontains]
    split
    · unfold ParticleStore.slotCount
      simp only [Option.getD_some, Array.size_modify]
      exact h.slotCount
    · exact h.slotCount
  · unfold ParticleStore.remove remove?
    rw [hcontains]
    split
    · exact congrArg (· - 1) h.aliveCount
    · exact h.aliveCount
  · rw [slot_remove, slot_remove, hcontains]
    split
    · exact hR.vacated i _ _ (h.slot i)
    · exact h.slot i

theorem removeAll (hR : ParticleSlot.Congruence R) (h : store.Congruent R other)
    (handles : List ParticleHandle) :
    (handles.foldl (fun store h => store.remove h) store).Congruent R
      (handles.foldl (fun store h => store.remove h) other) := by
  induction handles generalizing store other with
  | nil => exact h
  | cons handle rest ih => exact ih (h.remove hR handle)

/-- A write that keeps related slots related keeps stores related. -/
theorem write (hR : ParticleSlot.Congruence R) (h : store.Congruent R other)
    (handle : ParticleHandle) {change : ParticleSlot S → ParticleSlot S}
    (hchange : ∀ i s t, R i s t → R i (change s) (change t)) :
    Option.Rel (ParticleStore.Congruent R) (store.write? handle change)
      (other.write? handle change) := by
  have hcontains := h.contains hR handle
  unfold write?
  rw [hcontains]
  split
  case isFalse => exact .none
  case isTrue hc =>
    refine .some ⟨?_, h.aliveCount, fun i => ?_⟩
    · exact (slotCount_modify other _ _).trans (h.slotCount.trans (slotCount_modify store _ _).symm)
    · have hlt := lt_slotCount (contains_iff.mp hc).1
      have hone := slot_modify store handle.index (fun s => (change s).touched) i hlt
      have htwo := slot_modify other handle.index (fun s => (change s).touched) i
        (h.slotCount ▸ hlt)
      unfold modify at hone htwo
      rw [hone, htwo]
      split
      · exact hR.touched i _ _ (hchange i _ _ (h.slot i))
      · exact h.slot i

/-- A change that keeps related slots related keeps stores related, and marks nothing. -/
theorem modify (h : store.Congruent R other) (index : Nat)
    {change : ParticleSlot S → ParticleSlot S}
    (hchange : ∀ i s t, R i s t → R i (change s) (change t)) :
    (store.modify index change).Congruent R (other.modify index change) := by
  refine ⟨?_, h.aliveCount, fun i => ?_⟩
  · exact (slotCount_modify other _ _).trans (h.slotCount.trans (slotCount_modify store _ _).symm)
  · unfold ParticleStore.modify ParticleStore.slot
    have hslot := h.slot i
    have hcount := h.slotCount
    unfold ParticleStore.slot at hslot
    unfold ParticleStore.slotCount at hcount
    simp only [Array.getD_eq_getD_getElem?, Array.getElem?_modify] at hslot ⊢
    by_cases hi : index = i
    · rw [if_pos hi, if_pos hi]
      -- slots that neither store has are read as the same default
      by_cases hlt : i < store.slots.size
      · rw [Array.getElem?_eq_getElem hlt, Array.getElem?_eq_getElem (hcount ▸ hlt)] at hslot ⊢
        exact hchange i _ _ hslot
      · rw [Array.getElem?_eq_none (by omega), Array.getElem?_eq_none (by omega)] at hslot ⊢
        exact hslot
    · rw [if_neg hi, if_neg hi]
      exact hslot

end ParticleStore.Congruent

namespace World

/-! ## Worlds -/

/-- The world with other particles, other notes about deltas, and another number of rigid passes. -/
def vary (w : World S) (passes : UInt32) (store : ParticleStore S)
    (touched : Std.TreeSet ProxyId) : World S :=
  { w with config := { w.config with pushOutIterations := passes }, store, touched }

/-- Worlds that differ at most in their particles, which are related, in their notes about deltas,
and in the number of rigid passes, which is given for the second world. -/
def Congruent (R : Nat → ParticleSlot S → ParticleSlot S → Prop) (passes : UInt32)
    (w v : World S) : Prop :=
  ∃ store touched, w.store.Congruent R store ∧ v = w.vary passes store touched

namespace Congruent

variable {R : Nat → ParticleSlot S → ParticleSlot S → Prop} {passes : UInt32} {w v : World S}
  {proxy : ProxyId}

theorem refl (hR : ParticleSlot.Congruence R) (w : World S) :
    w.Congruent R w.config.pushOutIterations w :=
  ⟨w.store, w.touched, ⟨rfl, rfl, fun i => hR.refl i _⟩, rfl⟩

theorem mark (h : w.Congruent R passes v) (one two : Std.TreeSet ProxyId) :
    Congruent R passes { w with touched := one } { v with touched := two } := by
  rcases h with ⟨store, touched, hstore, rfl⟩
  exact ⟨store, two, hstore, rfl⟩

/-- Both worlds hold the same particles of the same masses. -/
theorem steady (hR : ParticleSlot.Congruence R) (h : w.Congruent R passes v) :
    w.store.Steady v.store := by
  rcases h with ⟨store, touched, hstore, rfl⟩
  exact hstore.steady hR

theorem contains (hR : ParticleSlot.Congruence R) (h : w.Congruent R passes v) :
    v.store.contains = w.store.contains :=
  funext (h.steady hR).alike.contains

/-! ## Commands -/

theorem insertParticles (hR : ParticleSlot.Congruence R) (h : w.Congruent R passes v)
    (handles : List ParticleHandle) (particles : List (Particle S)) :
    Option.Rel (Congruent R passes) (w.insertParticles? proxy handles particles)
      (v.insertParticles? proxy handles particles) := by
  have halive : v.store.isAlive = w.store.isAlive := funext (h.steady hR).alike.isAlive
  unfold insertParticles?
  rw [halive]
  rcases h with ⟨store, touched, hstore, rfl⟩
  split
  · exact .none
  · exact .some ⟨_, touched, hstore.insertAll hR _ proxy, rfl⟩

theorem addParts (hR : ParticleSlot.Congruence R) (h : w.Congruent R passes v)
    (creation : Creation S) :
    Option.Rel (Congruent R passes) (w.addParts? proxy creation)
      (v.addParts? proxy creation) := by
  cases creation with
  | particle handle particle => exact h.insertParticles hR _ _
  | cluster handles particles adjacency stiffness =>
    unfold addParts?
    dsimp only
    split
    · refine rel_map (h.insertParticles hR handles particles) ?_
      rintro a b ⟨store, touched, hstore, rfl⟩
      exact ⟨store, touched, hstore, rfl⟩
    · exact .none
  | joint handle first second restLength compliance =>
    unfold addParts?
    dsimp only
    rw [h.contains hR]
    rcases h with ⟨store, touched, hstore, rfl⟩
    split
    · exact .some ⟨store, touched, hstore, rfl⟩
    · exact .none
  | suspension handle particle target restLength compliance =>
    unfold addParts?
    dsimp only
    rw [h.contains hR]
    rcases h with ⟨store, touched, hstore, rfl⟩
    split
    · exact .some ⟨store, touched, hstore, rfl⟩
    · exact .none

theorem create (hR : ParticleSlot.Congruence R) (h : w.Congruent R passes v)
    (creation : Creation S) :
    Option.Rel (Congruent R passes) (w.create? proxy creation) (v.create? proxy creation) := by
  have hparts : Option.Rel (Congruent R passes) (w.addParts? proxy creation)
      (v.addParts? proxy creation) := h.addParts hR creation
  have hknows : v.knows proxy = w.knows proxy := by
    rcases h with ⟨store, touched, _, rfl⟩
    rfl
  unfold create?
  rw [hknows]
  split
  · exact .none
  · refine rel_map hparts ?_
    rintro a b ⟨store, touched, hstore, rfl⟩
    exact ⟨store, touched, hstore, rfl⟩

theorem remove (hR : ParticleSlot.Congruence R) (h : w.Congruent R passes v) (proxy : ProxyId) :
    Option.Rel (Congruent R passes) (w.remove? proxy) (v.remove? proxy) := by
  have hsame : v.members = w.members ∧ v.joints = w.joints ∧ v.suspensions = w.suspensions := by
    rcases h with ⟨store, touched, _, rfl⟩
    exact ⟨rfl, rfl, rfl⟩
  unfold remove?
  rw [hsame.1, hsame.2.1, hsame.2.2]
  rcases h with ⟨store, touched, hstore, rfl⟩
  split
  · exact .some ⟨_, touched, hstore.removeAll hR _, rfl⟩
  · split
    · exact .some ⟨store, touched, hstore, rfl⟩
    · split
      · exact .some ⟨store, touched, hstore, rfl⟩
      · exact .none

theorem destroy (hR : ParticleSlot.Congruence R) (h : w.Congruent R passes v) (proxy : ProxyId) :
    (v.destroy proxy).1 = (w.destroy proxy).1 ∧
      (w.destroy proxy).2.Congruent R passes (v.destroy proxy).2 := by
  have hremove := h.remove hR proxy
  have hforces : v.forces = w.forces := by
    rcases h with ⟨store, touched, _, rfl⟩
    rfl
  unfold World.destroy
  dsimp only
  rw [hforces]
  generalize w.remove? proxy = a at hremove ⊢
  generalize v.remove? proxy = b at hremove ⊢
  cases hremove with
  | none =>
    rcases h with ⟨store, touched, hstore, rfl⟩
    exact ⟨rfl, store, touched, hstore, rfl⟩
  | some hab =>
    rcases hab with ⟨store, touched, hstore, rfl⟩
    exact ⟨rfl, store, touched, hstore, rfl⟩

theorem write (hR : ParticleSlot.Congruence R) (h : w.Congruent R passes v)
    (particle : ParticleHandle) {change : ParticleSlot S → ParticleSlot S}
    (hchange : ∀ i s t, R i s t → R i (change s) (change t)) :
    Option.Rel (Congruent R passes) (w.writeParticle? proxy particle (·.write? particle change))
      (v.writeParticle? proxy particle (·.write? particle change)) := by
  -- both stores name the same owner, so both writes are allowed or none
  have howner : v.store.owner? particle = w.store.owner? particle := by
    rcases h with ⟨store, touched, hstore, rfl⟩
    exact hstore.owner? hR particle
  unfold writeParticle? owns
  rw [howner]
  rcases h with ⟨store, touched, hstore, rfl⟩
  split
  · refine rel_map (hstore.write hR particle hchange) ?_
    intro one two hcongruent
    exact ⟨two, touched, hcongruent, rfl⟩
  · exact .none

theorem setInverseMass (hR : ParticleSlot.Congruence R) (h : w.Congruent R passes v)
    (particle : ParticleHandle) (inverseMass : S) :
    Option.Rel (Congruent R passes) (w.setInverseMass? proxy particle inverseMass)
      (v.setInverseMass? proxy particle inverseMass) := by
  -- whether the topology is dirty afterwards is told by the kinds before and after
  have hkind : ∀ {a b : World S}, a.Congruent R passes b →
      b.store.isKinematic particle = a.store.isKinematic particle := by
    rintro a b ⟨store, touched, hstore, rfl⟩
    exact ((hstore.steady hR).alike.slot particle.index).kinematic
  have hbefore := hkind h
  unfold setInverseMass?
  refine rel_map (h.write hR particle fun i s t => hR.withInverseMass i s t inverseMass) ?_
  intro a b hab
  have hafter := hkind hab
  rw [hbefore, hafter]
  rcases hab with ⟨store, touched, hstore, rfl⟩
  exact ⟨store, touched, hstore, rfl⟩

theorem answered {a b : Option (World S)} (h : w.Congruent R passes v)
    (hab : Option.Rel (Congruent R passes) a b) :
    (v.accept b).1 = (w.accept a).1 ∧ (w.accept a).2.Congruent R passes (v.accept b).2 := by
  cases hab with
  | none => exact ⟨rfl, h⟩
  | some hab => exact ⟨rfl, hab⟩

/-- A command is granted by both worlds or by none. -/
theorem applyCommand (hR : ParticleSlot.Congruence R) (h : w.Congruent R passes v)
    (proxy : ProxyId) (command : Command S) :
    (v.applyCommand proxy command).1 = (w.applyCommand proxy command).1 ∧
      (w.applyCommand proxy command).2.Congruent R passes (v.applyCommand proxy command).2 := by
  cases command with
  | create creation => exact h.answered (h.create hR creation)
  | destroy => exact h.destroy hR proxy
  | setPosition particle position =>
    exact h.answered (h.write hR particle fun i s t => hR.withPosition i s t position)
  | setVelocity particle velocity =>
    exact h.answered (h.write hR particle fun i s t => hR.withVelocity i s t velocity)
  | setKinematicTarget particle target =>
    exact h.answered (h.write hR particle fun i s t => hR.withTarget i s t target)
  | addForce particle force =>
    exact h.answered (h.write hR particle fun i s t => hR.withForce i s t force)
  | setInverseMass particle inverseMass =>
    exact h.answered (h.setInverseMass hR particle inverseMass)
  | setTetherStiffness stiffness =>
    refine h.answered ?_
    rcases h with ⟨store, touched, hstore, rfl⟩
    unfold setTetherStiffness?
    dsimp only [vary]
    cases w.clusters[proxy]? with
    | none => exact .none
    | some c => exact .some ⟨store, touched, hstore, rfl⟩
  | setSuspensionTarget handle target =>
    refine h.answered ?_
    rcases h with ⟨store, touched, hstore, rfl⟩
    unfold setSuspensionTarget?
    dsimp only [vary]
    cases w.suspensions[proxy]?.filter (·.handle == handle) with
    | none => exact .none
    | some s => exact .some ⟨store, touched, hstore, rfl⟩
  | setJointRestLength handle restLength =>
    refine h.answered ?_
    rcases h with ⟨store, touched, hstore, rfl⟩
    unfold setJointRestLength?
    dsimp only [vary]
    cases w.joints[proxy]?.filter (·.handle == handle) with
    | none => exact .none
    | some j => exact .some ⟨store, touched, hstore, rfl⟩

theorem applyDelta (hR : ParticleSlot.Congruence R) (h : w.Congruent R passes v)
    (delta : Delta S) : (v.applyDelta delta).1 = (w.applyDelta delta).1 ∧
      (w.applyDelta delta).2.Congruent R passes (v.applyDelta delta).2 := by
  have hcommand := h.applyCommand hR delta.proxy delta.command
  unfold World.applyDelta
  generalize w.applyCommand delta.proxy delta.command = a at hcommand
  generalize v.applyCommand delta.proxy delta.command = b at hcommand
  rcases a with ⟨granted, w'⟩
  rcases b with ⟨also, v'⟩
  rcases hcommand with ⟨heq, hafter⟩
  dsimp only at heq
  subst heq
  -- a granted delta is noted, which is the one thing that notes differ in
  cases also with
  | true => exact ⟨rfl, hafter.mark _ _⟩
  | false => exact ⟨rfl, hafter⟩

end Congruent

/-! ## Topology -/

section Topology

variable {w : World S} {store : ParticleStore S}

theorem layTethers_vary (passes : UInt32) (touched : Std.TreeSet ProxyId)
    (hs : w.store.Steady store) : (w.vary passes store touched).layTethers =
      (fun after => after.vary passes store touched) <$> w.layTethers := by
  -- the layout of a cluster reads who is there and what it weighs
  have hcluster : ∀ c : Cluster S,
      c.layTethers { w.config with pushOutIterations := passes } store =
        c.layTethers w.config w.store := by
    intro c
    unfold Cluster.layTethers
    simp only [hs.alike.contains, hs.inverseMass]
  unfold layTethers
  dsimp only [vary]
  simp only [hcluster]
  rw [map_bind]
  rfl

theorem dropDangling_vary (passes : UInt32) (touched : Std.TreeSet ProxyId)
    (hs : w.store.Steady store) :
    (w.vary passes store touched).dropDangling = w.dropDangling.vary passes store touched := by
  unfold dropDangling vary
  simp only [hs.alike.contains]

theorem computePartition_vary (passes : UInt32) (touched : Std.TreeSet ProxyId)
    (hs : w.store.Steady store) :
    (w.vary passes store touched).computePartition = w.computePartition := by
  -- islands are told by which slots are taken and which are kinematic
  have hslots : store.aliveSlots = w.store.aliveSlots := by
    unfold ParticleStore.aliveSlots
    rw [hs.alike.slotCount, show store.isAlive = w.store.isAlive from funext hs.alike.isAlive]
  have hkinds : (fun slot => (store.slot slot).flags.kinematic) =
      fun slot => (w.store.slot slot).flags.kinematic :=
    funext fun slot => (hs.alike.slot slot).kinematic
  unfold computePartition edges
  dsimp only [vary]
  rw [hslots, hkinds]

theorem workspacesOf_vary (passes : UInt32) (touched : Std.TreeSet ProxyId)
    (hs : w.store.Steady store) (partition : Partition) :
    (w.vary passes store touched).workspacesOf partition = w.workspacesOf partition := by
  have hcount : (w.vary passes store touched).store.slotCount = w.store.slotCount :=
    hs.alike.slotCount
  unfold workspacesOf
  rw [hcount]
  rfl

/-- The topology does not depend on where particles are, and is rebuilt alike. -/
theorem rebuild_vary (passes : UInt32) (touched : Std.TreeSet ProxyId)
    (hs : w.store.Steady store) : (w.vary passes store touched).rebuild =
      (fun after => after.vary passes store touched) <$> w.rebuild := by
  have hclean : { w.vary passes store touched with topologyDirty := false } =
      vary { w with topologyDirty := false } passes store touched := rfl
  have hlaid := layTethers_vary (w := { w with topologyDirty := false }) passes touched hs
  unfold rebuild
  rw [hclean, hlaid]
  cases hok : layTethers { w with topologyDirty := false } with
  | error fault => rfl
  | ok laid =>
    -- tethers are laid without a write to the store, so that the stages after it agree as well
    have hstore : laid.store = w.store := by
      unfold layTethers at hok
      rcases exists_of_bind_ok hok with ⟨clusters, _, hok⟩
      cases hok
      rfl
    have hafter : laid.store.Steady store := hstore ▸ hs
    have hdropped : laid.dropDangling.store.Steady store := hafter
    have hvaried : (fun after : World S => after.vary passes store touched) <$>
        (.ok laid : Except Fault (World S)) = .ok (laid.vary passes store touched) := rfl
    simp only [hvaried, ok_bind, dropDangling_vary passes touched hafter,
      computePartition_vary passes touched hdropped, workspacesOf_vary passes touched hdropped]
    cases laid.dropDangling.computePartition with
    | error fault => rfl
    | ok partition => rfl

/-- The topology is rebuilt alike, if it has changed. -/
theorem refresh_vary (passes : UInt32) (touched : Std.TreeSet ProxyId)
    (hs : w.store.Steady store) : (w.vary passes store touched).refresh =
      (fun after => after.vary passes store touched) <$> w.refresh := by
  unfold refresh
  show (if w.topologyDirty = true then _ else _) = _
  split
  · exact rebuild_vary passes touched hs
  · rfl

end Topology

end World

end TetheredParticles
