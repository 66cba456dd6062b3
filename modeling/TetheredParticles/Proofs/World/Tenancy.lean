import TetheredParticles.Proofs.Particle.Columns
import TetheredParticles.Proofs.Scalar.Sign
import TetheredParticles.Proofs.World.Effects
import TetheredParticles.Proofs.World.Runs
/-!
# Who lives where

Every slot is either vacant or let to one proxy, and the lists of particles and the slots agree on
who lives where. This does not depend on what a world is asked for: handles may be made up, may have
gone stale, may repeat, and may point at slots of others.

* `ParticleSlot.Let`, `ParticleSlot.Vacated` — the two kinds of slots.
* `World.Tenancy` — slots and lists agree; every command and every stage of a step keeps it.
* `World.WellKept` — what holds of a world that is not in a step.
* `World.wellKept_of_run` — it holds whatever the world was asked before.
-/

namespace TetheredParticles

variable {S T : Type} [Scalar S] [Scalar T] [Timeline S T]

/-! ## Slots -/

/-- A slot with a particle: it has an owner, and an inverse mass that is a number, not negative, and
zero exactly for particles that are marked as kinematic. -/
structure ParticleSlot.Let (s : ParticleSlot S) : Prop where
  owned : s.owner.isSome = true
  number : Scalar.isNumber s.inverseMass = true
  nonneg : 0 ≤ s.inverseMass
  kinematic : s.flags.kinematic = (s.inverseMass == 0)

/-- A slot without a particle: it has no marks, no owner, and nothing is meant for it. -/
structure ParticleSlot.Vacated (s : ParticleSlot S) : Prop where
  flags : s.flags = .none
  owner : s.owner = none
  target : s.target = none
  force : s.force = 0

/-- A slot for which nothing is meant in the next step. -/
structure ParticleSlot.Quiet (s : ParticleSlot S) : Prop where
  dirty : s.flags.dirty = false
  force : s.force = 0
  target : s.target = none

namespace ParticleSlot

variable {s t : ParticleSlot S}

theorem Let.revised [LawfulSign S] (h : s.Let) (hr : s.Revised t) : t.Let := by
  have howned : t.owner.isSome = true := hr.owner ▸ h.owned
  rcases hr.weight with ⟨hmass, hkinematic⟩ | ⟨m, hmass, hkinematic⟩
  · exact ⟨howned, hmass ▸ h.number, hmass ▸ h.nonneg, by rw [hmass, hkinematic, h.kinematic]⟩
  · exact ⟨howned, hmass ▸ Scalar.isNumber_maxNum m, hmass ▸ Scalar.maxNum_nonneg m,
      by rw [hmass, hkinematic]⟩

theorem let_occupied [LawfulSign S] (p : Particle S) (owner : ProxyId) (generation : UInt32) :
    (occupied p owner generation).Let :=
  ⟨rfl, Scalar.isNumber_maxNum _, Scalar.maxNum_nonneg _, rfl⟩

theorem vacated_vacated (s : ParticleSlot S) : s.vacated.Vacated := ⟨rfl, rfl, rfl, rfl⟩

theorem Let.drifted (h : s.Let) (hd : s.Drifted t) : t.Let := by
  rw [hd]
  exact ⟨h.owned, h.number, h.nonneg, h.kinematic⟩

theorem Vacated.drifted (h : s.Vacated) (hd : s.Drifted t) : t.Vacated := by
  rw [hd]
  exact ⟨h.flags, h.owner, h.target, h.force⟩

theorem Let.settled (h : s.Let) : s.settled.Let := ⟨h.owned, h.number, h.nonneg, h.kinematic⟩

theorem Vacated.settled (h : s.Vacated) : s.settled.Vacated :=
  ⟨by unfold ParticleSlot.settled; rw [h.flags]; rfl, h.owner, rfl, rfl⟩

theorem quiet_settled (s : ParticleSlot S) : s.settled.Quiet := ⟨rfl, rfl, rfl⟩

end ParticleSlot

namespace World

/-! ## Slots and lists -/

/-- Slots are let or vacant and are counted so, no proxy is of two kinds, clusters are listed with
their particles, and the lists of particles name exactly the slots that are let to their
proxies. -/
structure Tenancy (w : World S) : Prop where
  counted : w.store.Counted
  occupied : ∀ i, w.store.isAlive i = true → (w.store.slot i).Let
  vacant : ∀ i, w.store.isAlive i = false → (w.store.slot i).Vacated
  unmixed : w.Unmixed
  clusters : ∀ (owner : ProxyId) (c : Cluster S), w.clusters[owner]? = some c →
    w.members[owner]? = some c.particles.toList
  owned : ∀ (owner : ProxyId) (handles : List ParticleHandle), w.members[owner]? = some handles →
    ∀ h ∈ handles, w.store.isAlive h.index = true ∧ (w.store.slot h.index).owner = some owner
  listed : w.Listed

namespace Tenancy

variable {w after : World S}

theorem empty (config : Config S) : (empty config).Tenancy where
  counted := .empty
  occupied _ hi := by cases hi
  vacant _ _ := ⟨rfl, rfl, rfl, rfl⟩
  unmixed := .empty config
  clusters owner c hc := by
    rw [World.empty, Std.TreeMap.getElem?_emptyc] at hc
    cases hc
  owned owner handles hm := by
    rw [World.empty, Std.TreeMap.getElem?_emptyc] at hm
    cases hm
  listed := .empty config

/-- Only a slot that is let belongs to a proxy. -/
theorem isAlive_of_owner (h : w.Tenancy) {i : Nat} {owner : ProxyId}
    (ho : (w.store.slot i).owner = some owner) : w.store.isAlive i = true := by
  by_contra hdead
  rw [(h.vacant i (Bool.eq_false_iff.mpr hdead)).owner] at ho
  cases ho

/-- No slot is named by two proxies. -/
theorem exclusive (h : w.Tenancy) {first second : ProxyId} {xs ys : List ParticleHandle}
    (hxs : w.members[first]? = some xs) (hys : w.members[second]? = some ys)
    {x y : ParticleHandle} (hx : x ∈ xs) (hy : y ∈ ys) (hindex : x.index = y.index) :
    first = second := by
  have hfirst := (h.owned first xs hxs x hx).2
  rw [hindex, (h.owned second ys hys y hy).2] at hfirst
  exact (Option.some.inj hfirst).symm

/-! ## Commands -/

/-- What a command does to a slot, given who lives where: it leaves the slot alone, or the slot is
let to the proxy of the command before or after it. -/
theorem slot (h : w.Tenancy) {proxy : ProxyId} (ht : w.Turnover proxy after) (i : Nat) :
    after.store.slot i = w.store.slot i ∨
    ((w.store.slot i).owner = some proxy ∧ (w.store.slot i).Revised (after.store.slot i)) ∨
    (w.store.isAlive i = false ∧ ∃ p generation,
      after.store.slot i = .occupied p proxy generation) ∨
    ((w.store.slot i).owner = some proxy ∧ after.store.slot i = (w.store.slot i).vacated) := by
  rcases ht.slot i with hsame | ⟨_, howner, hrevised⟩ | hnew | ⟨handles, hlisted, ⟨k, hk, hki⟩, hgone⟩
  · exact .inl hsame
  · exact .inr (.inl ⟨howner, hrevised⟩)
  · exact .inr (.inr (.inl hnew))
  · exact .inr (.inr (.inr ⟨hki ▸ (h.owned proxy handles hlisted k hk).2, hgone⟩))

theorem occupied_turnover [LawfulSign S] (h : w.Tenancy) {proxy : ProxyId}
    (ht : w.Turnover proxy after) (i : Nat) (hi : after.store.isAlive i = true) :
    (after.store.slot i).Let := by
  rcases h.slot ht i with hsame | ⟨howner, hrevised⟩ | ⟨_, p, generation, hnew⟩ | ⟨_, hgone⟩
  · unfold ParticleStore.isAlive at hi
    rw [hsame] at hi ⊢
    exact h.occupied i hi
  · exact (h.occupied i (h.isAlive_of_owner howner)).revised hrevised
  · rw [hnew]
    exact ParticleSlot.let_occupied p proxy generation
  · unfold ParticleStore.isAlive at hi
    rw [hgone] at hi
    cases hi

theorem vacant_turnover (h : w.Tenancy) {proxy : ProxyId} (ht : w.Turnover proxy after) (i : Nat)
    (hi : after.store.isAlive i = false) : (after.store.slot i).Vacated := by
  rcases h.slot ht i with hsame | ⟨howner, hrevised⟩ | ⟨_, p, generation, hnew⟩ | ⟨_, hgone⟩
  · unfold ParticleStore.isAlive at hi
    rw [hsame] at hi ⊢
    exact h.vacant i hi
  · have halive := h.isAlive_of_owner howner
    unfold ParticleStore.isAlive at hi halive
    rw [hrevised.alive, halive] at hi
    cases hi
  · unfold ParticleStore.isAlive at hi
    rw [hnew] at hi
    cases hi
  · rw [hgone]
    exact ParticleSlot.vacated_vacated _

theorem counted_turnover (h : w.Tenancy) {proxy : ProxyId} (ht : w.Turnover proxy after) :
    after.store.Counted := by
  cases ht with
  | none hstore _ _ => exact hstore ▸ h.counted
  | written _ hstore hchange _ _ => exact h.counted.write hstore fun s => (hchange s).alive
  | inserted _ _ _ hstore _ _ => exact hstore ▸ h.counted.insertAll proxy _
  | removed _ hstore _ _ => exact hstore ▸ h.counted.removeAll _

/-- A particle of another proxy stays as it is. -/
theorem unmoved_turnover (h : w.Tenancy) {proxy : ProxyId} (ht : w.Turnover proxy after)
    {i : Nat} {owner : ProxyId} (howner : (w.store.slot i).owner = some owner)
    (hne : owner ≠ proxy) : after.store.slot i = w.store.slot i := by
  rcases h.slot ht i with hsame | ⟨hproxy, _⟩ | ⟨hdead, _⟩ | ⟨hproxy, _⟩
  · exact hsame
  · rw [howner] at hproxy
    exact absurd (Option.some.inj hproxy) hne
  · rw [h.isAlive_of_owner howner] at hdead
    cases hdead
  · rw [howner] at hproxy
    exact absurd (Option.some.inj hproxy) hne

theorem owned_turnover (h : w.Tenancy) {proxy : ProxyId} (ht : w.Turnover proxy after)
    (owner : ProxyId) (handles : List ParticleHandle) (hm : after.members[owner]? = some handles)
    (k : ParticleHandle) (hk : k ∈ handles) :
    after.store.isAlive k.index = true ∧ (after.store.slot k.index).owner = some owner := by
  have hother : w.members[owner]? = some handles → owner ≠ proxy →
      after.store.isAlive k.index = true ∧ (after.store.slot k.index).owner = some owner := by
    intro hw hne
    rcases h.owned owner handles hw k hk with ⟨halive, howner⟩
    unfold ParticleStore.isAlive at halive ⊢
    rw [h.unmoved_turnover ht howner hne]
    exact ⟨halive, howner⟩
  cases ht with
  | none hstore hmembers _ =>
    rw [hstore]
    exact h.owned owner handles (hmembers ▸ hm) k hk
  | written howns hstore hchange hmembers _ =>
    rcases h.owned owner handles (hmembers ▸ hm) k hk with ⟨halive, howner⟩
    rcases ParticleStore.slot_of_write hstore with ⟨_, _, hslot⟩
    unfold ParticleStore.isAlive at halive ⊢
    rw [hslot]
    split
    · exact ⟨(hchange _).alive.trans halive, (hchange _).owner.trans howner⟩
    · exact ⟨halive, howner⟩
  | @inserted inserted particles _ hlength hfree hstore hmembers _ =>
    rw [hmembers, Maps.getElem?_insert] at hm
    split at hm
    case isFalse hne => exact hother hm hne
    case isTrue howner =>
      cases hm
      rcases ParticleStore.slot_insertAll_of_mem proxy hlength w.store hk (hfree k hk) with
        ⟨p, generation, hslot⟩
      rw [hstore]
      unfold ParticleStore.isAlive
      rw [hslot]
      exact ⟨rfl, congrArg some howner.symm⟩
  | removed hlisted hstore hmembers _ =>
    rw [hmembers, Maps.getElem?_erase] at hm
    split at hm
    case isTrue => cases hm
    case isFalse hne => exact hother hm hne

theorem clusters_turnover (h : w.Tenancy) {proxy : ProxyId} (ht : w.Turnover proxy after)
    (owner : ProxyId) (c : Cluster S) (hc : after.clusters[owner]? = some c) :
    after.members[owner]? = some c.particles.toList := by
  cases ht with
  | none _ hmembers hclusters =>
    have hmap := hclusters owner
    rw [hc, Option.map_some] at hmap
    rcases Option.map_eq_some_iff.mp hmap.symm with ⟨d, hd, hparticles⟩
    rw [hmembers, ← hparticles]
    exact h.clusters owner d hd
  | written _ _ _ hmembers hclusters =>
    rw [hmembers]
    exact h.clusters owner c (hclusters ▸ hc)
  | inserted hknown _ _ _ hmembers hclusters =>
    rw [hmembers, Maps.getElem?_insert]
    rcases hclusters owner with hsame | ⟨howner, hparticles⟩
    · rw [hsame] at hc
      rw [if_neg]
      · exact h.clusters owner c hc
      · rintro rfl
        have hnone := members_eq_none (Bool.eq_false_iff.mp hknown)
        rw [h.clusters owner c hc] at hnone
        cases hnone
    · rw [hc, Option.map_some] at hparticles
      rw [if_pos howner, Option.some.inj hparticles]
  | removed _ _ hmembers hclusters =>
    rw [hclusters, Maps.getElem?_erase] at hc
    rw [hmembers, Maps.getElem?_erase]
    split at hc
    case isTrue => cases hc
    case isFalse hne =>
      rw [if_neg hne]
      exact h.clusters owner c hc

theorem applyCommand [LawfulSign S] (h : w.Tenancy) (proxy : ProxyId) (command : Command S) :
    (w.applyCommand proxy command).2.Tenancy :=
  have ht := turnover_applyCommand w proxy command
  { counted := h.counted_turnover ht
    occupied := h.occupied_turnover ht
    vacant := h.vacant_turnover ht
    unmixed := h.unmixed.applyCommand proxy command
    clusters := h.clusters_turnover ht
    owned := h.owned_turnover ht
    listed := h.listed.applyCommand proxy command }

/-- Which proxies a step has touched is beside the point. -/
theorem mark (h : w.Tenancy) (touched : Std.TreeSet ProxyId) : Tenancy { w with touched } :=
  ⟨h.counted, h.occupied, h.vacant, h.unmixed.of_eq rfl rfl rfl, h.clusters, h.owned, h.listed⟩

theorem applyDeltas [LawfulSign S] (h : w.Tenancy) (deltas : List (Delta S)) :
    (w.applyDeltas deltas).2.Tenancy :=
  applyDeltas_keeps h (fun _ touched hv => hv.mark touched)
    fun _ d _ hv => hv.applyCommand d.proxy d.command

/-! ## Stages of a step -/

theorem relaid (h : w.Tenancy) (hr : w.Relaid after) : after.Tenancy where
  counted := hr.store ▸ h.counted
  occupied := hr.store ▸ h.occupied
  vacant := hr.store ▸ h.vacant
  unmixed := h.unmixed.of_le (fun _ ho => hr.members ▸ ho) hr.joints hr.suspensions
  clusters owner d hd := by
    rcases hr.clusters owner d hd with ⟨c, hc, hparticles⟩
    rw [hr.members, hparticles]
    exact h.clusters owner c hc
  owned := by
    rw [hr.members, hr.store]
    exact h.owned
  listed := h.listed.alike (hr.store ▸ .refl _) hr.members

/-- Particles have moved and nothing else has happened to them. -/
theorem drifted (h : w.Tenancy) (hd : w.store.Drifted after.store)
    (hmembers : after.members = w.members) (hclusters : after.clusters = w.clusters)
    (hjoints : after.joints = w.joints) (hsuspensions : after.suspensions = w.suspensions) :
    after.Tenancy := by
  have hslot : ∀ i, after.store.isAlive i = w.store.isAlive i ∧
      (after.store.slot i).owner = (w.store.slot i).owner ∧
      (after.store.slot i).generation = (w.store.slot i).generation := by
    intro i
    unfold ParticleStore.isAlive
    rw [hd.slot i]
    exact ⟨rfl, rfl, rfl⟩
  have halive := fun i => (hslot i).1
  have howner := fun i => (hslot i).2.1
  constructor
  · exact h.counted.of_alive hd.slotCount halive hd.aliveCount
  · exact fun i hi => (h.occupied i (halive i ▸ hi)).drifted (hd.slot i)
  · exact fun i hi => (h.vacant i (halive i ▸ hi)).drifted (hd.slot i)
  · exact h.unmixed.of_eq hmembers hjoints hsuspensions
  · rw [hclusters, hmembers]
    exact h.clusters
  · intro owner handles hm k hk
    rw [halive, howner]
    exact h.owned owner handles (hmembers ▸ hm) k hk
  · refine h.listed.of_eq halive howner (fun k => ?_) hmembers
    unfold ParticleStore.contains
    rw [halive, (hslot k.index).2.2]

/-- What was meant for one step is forgotten at its end. -/
theorem cleared (h : w.Tenancy) (latest : Timestamp) :
    Tenancy { w with store := w.store.clearStepData, latest } := by
  have halike := (ParticleStore.Steady.clearStepData w.store).alike
  constructor
  · exact h.counted.of_alive halike.slotCount halike.isAlive rfl
  · intro i hi
    dsimp only
    rw [ParticleStore.slot_clearStepData]
    exact (h.occupied i (halike.isAlive i ▸ hi)).settled
  · intro i hi
    dsimp only
    rw [ParticleStore.slot_clearStepData]
    exact (h.vacant i (halike.isAlive i ▸ hi)).settled
  · exact h.unmixed.of_eq rfl rfl rfl
  · exact h.clusters
  · intro owner handles hm k hk
    rcases h.owned owner handles hm k hk with ⟨halive, howner⟩
    exact ⟨(halike.isAlive k.index).trans halive, ((halike.slot k.index).owner).trans howner⟩
  · exact h.listed.alike halike rfl

end Tenancy

/-! ## Worlds that are not in a step -/

/-- What holds of a world that is not in a step. -/
structure WellKept (w : World S) : Prop where
  /-- The arrays of all fields are as long as there are slots. -/
  aligned : w.store.columns.Aligned w.store.slotCount
  /-- The number of particles is the number of slots marked as occupied. -/
  counted : w.store.aliveCount = w.store.columns.flags.countP (·.alive)
  occupied : ∀ i, w.store.isAlive i = true → (w.store.slot i).Let
  vacant : ∀ i, w.store.isAlive i = false → (w.store.slot i).Vacated
  /-- Nobody is known for particles and for a constraint, or for two kinds of constraints. -/
  disjoint : ∀ proxy : ProxyId,
    ¬ (proxy ∈ w.members ∧ proxy ∈ w.joints) ∧ ¬ (proxy ∈ w.members ∧ proxy ∈ w.suspensions) ∧
      ¬ (proxy ∈ w.joints ∧ proxy ∈ w.suspensions)
  /-- Clusters are known for their particles. -/
  clusters : ∀ proxy : ProxyId, proxy ∈ w.clusters → proxy ∈ w.members
  /-- A slot that is named for a proxy is let to it. -/
  named : ∀ (proxy : ProxyId) (handles : List ParticleHandle), w.members[proxy]? = some handles →
    ∀ h ∈ handles, w.store.isAlive h.index = true ∧ (w.store.slot h.index).owner = some proxy
  /-- A slot that is let to a proxy is named for it. -/
  listed : ∀ (i : Nat) (proxy : ProxyId), w.store.isAlive i = true →
    (w.store.slot i).owner = some proxy →
    ∃ handles, w.members[proxy]? = some handles ∧ ∃ h ∈ handles, h.index = i
  /-- No slot is named for two proxies. -/
  exclusive : ∀ (first second : ProxyId) (xs ys : List ParticleHandle),
    w.members[first]? = some xs → w.members[second]? = some ys →
    ∀ x ∈ xs, ∀ y ∈ ys, x.index = y.index → first = second
  /-- Nothing is meant for the next step yet. -/
  quiet : ∀ i, (w.store.slot i).Quiet

theorem Tenancy.wellKept {w : World S} (h : w.Tenancy) (hquiet : ∀ i, (w.store.slot i).Quiet) :
    w.WellKept where
  aligned := w.store.aligned_columns
  counted := h.counted
  occupied := h.occupied
  vacant := h.vacant
  disjoint proxy := by
    have hjoint := h.unmixed.joints proxy
    have hsuspension := h.unmixed.suspensions proxy
    simp only [← Std.TreeMap.contains_iff_mem]
    refine ⟨?_, ?_, ?_⟩
    · rintro ⟨hm, hj⟩
      rw [(hjoint hj).1] at hm
      cases hm
    · rintro ⟨hm, hs⟩
      rw [hsuspension hs] at hm
      cases hm
    · rintro ⟨hj, hs⟩
      rw [(hjoint hj).2] at hs
      cases hs
  clusters proxy hc := by
    rw [Std.TreeMap.mem_iff_isSome_getElem?, Option.isSome_iff_exists] at hc ⊢
    rcases hc with ⟨c, hc⟩
    exact ⟨_, h.clusters proxy c hc⟩
  named := h.owned
  listed i proxy hi hproxy := by
    rcases h.listed i hi with ⟨owner, howner, handles, hhandles, k, hk, hki, _⟩
    rw [hproxy] at howner
    cases howner
    exact ⟨handles, hhandles, k, hk, hki⟩
  exclusive _ _ _ _ hxs hys _ hx _ hy hindex := h.exclusive hxs hys hx hy hindex
  quiet := hquiet

/-- A world whose slots and lists agree and for which nothing is meant yet. -/
structure Rested (w : World S) : Prop where
  tenancy : w.Tenancy
  quiet : ∀ i, (w.store.slot i).Quiet

namespace Rested

variable {w : World S}

theorem empty (config : Config S) : (empty config).Rested :=
  ⟨.empty config, fun _ => ⟨rfl, rfl, rfl⟩⟩

theorem configure (h : w.Rested) (config : Config S) : (w.setConfig config).Rested :=
  ⟨⟨h.tenancy.counted, h.tenancy.occupied, h.tenancy.vacant, h.tenancy.unmixed.of_eq rfl rfl rfl,
    h.tenancy.clusters, h.tenancy.owned, h.tenancy.listed⟩, h.quiet⟩

/-- A step that ends leaves a world at rest whose topology is up to date, whatever the snapshot
held. -/
theorem step [LawfulSign S] (h : w.Rested) {snapshot : PushSnapshot S T}
    {outcome : StepOutcome S T} (hs : w.step snapshot = .ok outcome) :
    outcome.world.Rested ∧ outcome.world.topologyDirty = false := by
  have hbefore : ∀ {dropped : Nat} {before : World S},
      w.prepare snapshot.deltas = .ok (dropped, before) →
      before.Tenancy ∧ before.topologyDirty = false := by
    intro dropped before hprepare
    unfold prepare at hprepare
    rcases exists_of_bind_ok hprepare with ⟨refreshed, hrefresh, hprepare⟩
    cases hprepare
    have hupdated := (h.tenancy.mark ∅).applyDeltas snapshot.deltas
    unfold refresh at hrefresh
    split at hrefresh
    case isTrue =>
      have hr := relaid_of_rebuild hrefresh
      exact ⟨hupdated.relaid hr, hr.clean⟩
    case isFalse hclean =>
      cases hrefresh
      exact ⟨hupdated, Bool.eq_false_iff.mpr hclean⟩
  have hcleared : ∀ {after : World S}, after.Tenancy →
      Rested { after with store := after.store.clearStepData, latest := snapshot.timestamp } := by
    intro after hafter
    refine ⟨hafter.cleared snapshot.timestamp, fun i => ?_⟩
    dsimp only
    rw [ParticleStore.slot_clearStepData]
    exact ParticleSlot.quiet_settled _
  unfold World.step at hs
  rcases exists_of_bind_ok hs with ⟨⟨dropped, before⟩, hprepare, hs⟩
  rcases hbefore hprepare with ⟨htenancy, hclean⟩
  dsimp only at hs
  split at hs
  case isTrue =>
    rcases exists_of_bind_ok hs with ⟨after, hmove, hs⟩
    cases hs
    rcases drifted_of_move hmove with ⟨hd, hmembers, hclusters, hjoints, hsuspensions, hdirty⟩
    exact ⟨hcleared (htenancy.drifted hd hmembers hclusters hjoints hsuspensions),
      hdirty.trans hclean⟩
  case isFalse =>
    cases hs
    exact ⟨hcleared htenancy, hclean⟩

end Rested

/-- Whether a world is given a configuration. -/
def Action.Configures : Action S T → Prop
  | .step _ => False
  | .configure _ => True
  | .confirm => True

/-- What a run leaves is at rest, and its topology is up to date unless the last thing that it was
given is a configuration. -/
theorem Rested.run [LawfulSign S] {w after : World S} (h : w.Rested)
    {actions : List (Action S T)} (hrun : w.run actions = .ok after) :
    after.Rested ∧ (after.topologyDirty = true →
      (actions = [] ∧ w.topologyDirty = true) ∨ ∃ last ∈ actions.getLast?, last.Configures) := by
  -- the last action of a run is the first one or the last one of the rest
  have hlast : ∀ (v : World S) {action : Action S T} {rest : List (Action S T)},
      (v.topologyDirty = true → action.Configures) →
      (rest = [] ∧ v.topologyDirty = true ∨ ∃ last ∈ rest.getLast?, last.Configures) →
      ∃ last ∈ (action :: rest).getLast?, last.Configures := by
    rintro v action rest hv (⟨rfl, hdirty⟩ | ⟨last, hmem, hconfigures⟩)
    · exact ⟨action, rfl, hv hdirty⟩
    · refine ⟨last, ?_, hconfigures⟩
      rw [List.getLast?_cons, Option.mem_def.mp hmem]
      rfl
  induction actions generalizing w with
  | nil =>
    cases hrun
    exact ⟨h, fun hdirty => .inl ⟨rfl, hdirty⟩⟩
  | cons action rest ih =>
    cases action with
    | step snapshot =>
      unfold World.run at hrun
      rcases exists_of_bind_ok hrun with ⟨outcome, houtcome, hrun⟩
      rcases h.step houtcome with ⟨hrested, hclean⟩
      rcases ih hrested hrun with ⟨hafter, hdirty⟩
      refine ⟨hafter, fun hd => .inr (hlast outcome.world (fun hv => ?_) (hdirty hd))⟩
      rw [hclean] at hv
      cases hv
    | configure config =>
      rcases ih (h.configure config) hrun with ⟨hafter, hdirty⟩
      exact ⟨hafter, fun hd => .inr (hlast (w.setConfig config) (fun _ => trivial) (hdirty hd))⟩
    | confirm =>
      rcases ih (h.configure w.config) hrun with ⟨hafter, hdirty⟩
      exact ⟨hafter, fun hd => .inr (hlast (w.setConfig w.config) (fun _ => trivial) (hdirty hd))⟩

/-- Whatever a world was asked, it is in order when it is not in a step. Its topology is up to date
unless it has just been given a configuration. -/
theorem wellKept_of_run [LawfulSign S] {config : Config S} {actions : List (Action S T)} {w : World S}
    (hrun : (empty config).run actions = .ok w) :
    w.WellKept ∧ (w.topologyDirty = true → ∃ last ∈ actions.getLast?, last.Configures) := by
  rcases (Rested.empty config).run hrun with ⟨hrested, hdirty⟩
  refine ⟨hrested.tenancy.wellKept hrested.quiet, fun hd => ?_⟩
  rcases hdirty hd with ⟨_, hempty⟩ | hlast
  · cases hempty
  · exact hlast

/-- A cluster of which two particles want the same slot, a particle that wants it as well, and a
particle whose inverse mass is no number. -/
def crowd : PushSnapshot Float32 Float where
  timestamp := ⟨1⟩
  startTime := 0
  dt := 1
  step := 0
  stepCount := 1
  deltas :=
    [⟨⟨0, 0⟩, .create (.cluster [⟨0, 0⟩, ⟨0, 1⟩] [.dynamic 0 1, .dynamic 0 2] (.ofEdges []) 1)⟩,
      ⟨⟨1, 0⟩, .create (.particle ⟨0, 1⟩ (.kinematic 0))⟩,
      ⟨⟨2, 0⟩, .create (.particle ⟨2, 0⟩ (.dynamic 0 (0 / 0)))⟩,
      ⟨⟨2, 0⟩, .addForce ⟨2, 0⟩ ⟨1, 0, 0⟩⟩]

/-- The cluster goes, and another one comes under its name. -/
def moveOut : PushSnapshot Float32 Float where
  timestamp := ⟨2⟩
  startTime := 1
  dt := 1
  step := 0
  stepCount := 1
  deltas :=
    [⟨⟨0, 0⟩, .destroy⟩, ⟨⟨0, 0⟩, .create (.particle ⟨0, 7⟩ (.dynamic 0 1))⟩,
      ⟨⟨0, 0⟩, .setInverseMass ⟨0, 7⟩ (-1)⟩]

theorem crowd_admissible : crowd.Admissible := by
  intro d hd
  simp only [crowd, List.mem_cons, List.not_mem_nil, or_false] at hd
  rcases hd with rfl | rfl | rfl | rfl
  · refine ⟨fun a b hab => ?_, fun h hh => ?_, by decide⟩
    · exact absurd (Graph.mem_neighbors_ofEdges.mp hab) List.not_mem_nil
    · simp only [List.mem_cons, List.not_mem_nil, or_false] at hh
      rcases hh with rfl | rfl
      · decide
      · decide
  · exact ⟨trivial, (by decide : (0 : Nat) < 2 ^ 32)⟩
  · exact ⟨trivial, (by decide : (2 : Nat) < 2 ^ 32)⟩
  · exact ⟨trivial, trivial⟩

theorem moveOut_admissible : moveOut.Admissible := by
  intro d hd
  simp only [moveOut, List.mem_cons, List.not_mem_nil, or_false] at hd
  rcases hd with rfl | rfl | rfl
  · exact ⟨trivial, trivial⟩
  · exact ⟨trivial, (by decide : (0 : Nat) < 2 ^ 32)⟩
  · exact ⟨trivial, trivial⟩

/-- However crowded it was, the world is in order. -/
theorem crowd_wellKept : ∃ w : World Float32,
    (empty .standard).run [.step crowd, .step moveOut, .configure .standard] = .ok w ∧
      w.WellKept ∧ (w.topologyDirty = true →
        ∃ last ∈ ([.step crowd, .step moveOut, .configure .standard] :
          List (Action Float32 Float)).getLast?, last.Configures) := by
  have hadmissible : ∀ s : PushSnapshot Float32 Float,
      .step s ∈ ([.step crowd, .step moveOut, .configure .standard] :
        List (Action Float32 Float)) → s.Admissible := by
    intro s hs
    simp only [List.mem_cons, List.not_mem_nil, or_false, Action.step.injEq, reduceCtorEq] at hs
    rcases hs with rfl | rfl
    · exact crowd_admissible
    · exact moveOut_admissible
  rcases (Grown.empty .standard).run hadmissible with ⟨w, hrun, _⟩
  exact ⟨w, hrun, wellKept_of_run hrun⟩

end World

end TetheredParticles
