import TetheredParticles.Proofs.Roster
import TetheredParticles.Proofs.World.Edits
/-!
# The roster of the world

The world holds what its roster says: the particles of each proxy, its clusters and its
constraints. A delta that the roster accepts is applied, and the world then holds what the next
roster says. Rebuilding and moving change nothing of it.

* `World.Holds` — the world and its roster.
* `World.Holds.applyDelta`, `World.Holds.applyDeltas` — accepted deltas are applied.
* `World.Holds.rebuilt`, `World.Holds.stepped` — the rest of a step.
-/

namespace TetheredParticles

variable {S T : Type} [Scalar S]

/-! ## Particles that come and go -/

namespace ParticleStore

variable {store : ParticleStore S}

/-- An occupied slot is named by the handle of its generation. -/
theorem exists_contains {i : Nat} (h : store.isAlive i = true) :
    ∃ k : ParticleHandle, k.index = i ∧ store.contains k = true :=
  ⟨⟨i, (store.slot i).generation⟩, rfl, contains_iff.mpr ⟨h, rfl⟩⟩

/-- There is only one handle for an occupied slot. -/
theorem eq_of_contains {h k : ParticleHandle} (hh : store.contains h = true)
    (hk : store.contains k = true) (hindex : h.index = k.index) : h = k := by
  refine Handle.eq_of_parts hindex ?_
  rw [← (contains_iff.mp hh).2, ← (contains_iff.mp hk).2, hindex]

/-- Particles that go into free slots of their own are added to the others. -/
theorem insertAll_spec {owner : ProxyId} {handles : List ParticleHandle}
    {particles : List (Particle S)} (hlength : handles.length = particles.length)
    (hfree : ∀ h ∈ handles, store.isAlive h.index = false)
    (hnodup : (handles.map (·.index)).Nodup) (k : ParticleHandle) :
    let after := (handles.zip particles).foldl (fun store (h, p) => store.insert h p owner) store
    (after.contains k = true ↔ store.contains k = true ∨ k ∈ handles) ∧
      (k ∈ handles → (after.slot k.index).owner = some owner) ∧
      (k ∉ handles → store.contains k = true → after.slot k.index = store.slot k.index) := by
  intro after
  have hslot := slot_insertAll owner (handles.zip particles) store k.index
  -- two handles of the list for one slot are the same
  have hinj : ∀ a ∈ handles, ∀ b ∈ handles, a.index = b.index → a = b :=
    fun a ha b hb => List.inj_on_of_nodup_map hnodup ha hb
  rcases hslot with ⟨hdead, x, hx, hindex, hocc⟩ | ⟨hor, hsame⟩
  · -- the slot has been occupied by one of the new particles
    have hxmem := (List.of_mem_zip hx).1
    have hgone : ¬ store.contains k = true := by
      intro hc
      have := (contains_iff.mp hc).1
      rw [hdead] at this
      cases this
    have hiff : after.contains k = true ↔ k ∈ handles := by
      rw [contains_iff]
      unfold isAlive
      rw [hocc]
      constructor
      · rintro ⟨_, hgeneration⟩
        exact Handle.eq_of_parts hindex hgeneration ▸ hxmem
      · intro hk
        have : x.1 = k := hinj x.1 hxmem k hk hindex
        exact ⟨rfl, congrArg Handle.generation this⟩
    refine ⟨?_, ?_, ?_⟩
    · rw [hiff]
      exact (or_iff_right hgone).symm
    · intro _
      rw [hocc]
      rfl
    · intro _ hc
      exact absurd hc hgone
  · -- the slot has not changed
    have hout : k ∉ handles := by
      intro hk
      rcases hor with halive | hne
      · rw [hfree k hk] at halive
        cases halive
      · rcases exists_mem_zip hlength hk with ⟨p, hp⟩
        exact hne _ hp rfl
    refine ⟨?_, ?_, ?_⟩
    · rw [contains_congr hsame]
      exact (or_iff_left hout).symm
    · intro hk
      exact absurd hk hout
    · intro _ _
      exact hsame

/-- Particles that are taken away leave the others as they were. -/
theorem removeAll_spec (handles : List ParticleHandle) (k : ParticleHandle) :
    let after := handles.foldl (fun store h => store.remove h) store
    (after.contains k = true ↔ store.contains k = true ∧ k ∉ handles) ∧
      (k ∉ handles → store.contains k = true → after.slot k.index = store.slot k.index) := by
  intro after
  rcases slot_removeAll handles store k.index with ⟨⟨h, hh, hindex, hc⟩, hvacated⟩ | ⟨hnone, hsame⟩
  · -- the slot has been vacated
    have hgone : ¬ after.contains k = true := by
      intro hk
      have := (contains_iff.mp hk).1
      unfold isAlive at this
      rw [hvacated] at this
      cases this
    have hmem : store.contains k = true → k ∈ handles := fun hk => eq_of_contains hc hk hindex ▸ hh
    refine ⟨⟨?_, ?_⟩, ?_⟩
    · intro hk
      exact absurd hk hgone
    · intro hk
      exact absurd (hmem hk.1) hk.2
    · intro hout hk
      exact absurd (hmem hk) hout
  · refine ⟨?_, fun _ _ => hsame⟩
    rw [contains_congr hsame]
    refine (and_iff_left_of_imp ?_).symm
    intro hk hmem
    rw [hnone k hmem rfl] at hk
    cases hk

end ParticleStore

namespace World

/-! ## Holding -/

/-- The world holds what a roster says. -/
structure Holds (w : World S) (R : Roster) : Prop where
  members : ∀ id : ProxyId, w.members[id]? = (R id).bind Held.members?
  clusters : ∀ id : ProxyId,
    w.clusters[id]?.map (·.particles.toList) = (R id).bind Held.cluster?
  joints : ∀ id : ProxyId,
    w.joints[id]?.map (fun j => (j.handle, j.first, j.second)) = (R id).bind Held.joint?
  suspensions : ∀ id : ProxyId,
    w.suspensions[id]?.map (fun s => (s.handle, s.particle)) = (R id).bind Held.suspension?
  particles : ∀ h : ParticleHandle, w.store.contains h = true ↔ R.Owns h
  owner : ∀ id x, R id = some x → ∀ h ∈ x.owned, (w.store.slot h.index).owner = some id

theorem holds_empty (config : Config S) : (empty config).Holds .empty := by
  constructor
  · intro id
    rw [empty, Std.TreeMap.getElem?_emptyc]
    rfl
  · intro id
    rw [empty, Std.TreeMap.getElem?_emptyc]
    rfl
  · intro id
    rw [empty, Std.TreeMap.getElem?_emptyc]
    rfl
  · intro id
    rw [empty, Std.TreeMap.getElem?_emptyc]
    rfl
  · intro h
    constructor
    · intro hc
      cases hc
    · rintro ⟨id, x, hx, _⟩
      cases hx
  · intro id x hx
    cases hx

namespace Holds

variable {w after : World S} {R : Roster}

/-- What a lookup in a map of records gives, in terms of the roster. -/
theorem exists_record {A B : Type} {m : Option A} {view : A → B} {x : Option B} {b : B}
    (h : m.map view = x) (hx : x = some b) : ∃ a, m = some a ∧ view a = b := by
  rw [hx] at h
  exact Option.map_eq_some_iff.mp h

/-- An edit changes nothing that a roster says. -/
theorem edited (h : w.Holds R) (he : w.Edited after) : after.Holds R := by
  constructor
  · rw [he.members]
    exact h.members
  · intro id
    have hmap := congrArg (Option.map Array.toList) (he.clusters id)
    rw [Option.map_map, Option.map_map] at hmap
    exact hmap.trans (h.clusters id)
  · intro id
    exact (he.joints id).trans (h.joints id)
  · intro id
    exact (he.suspensions id).trans (h.suspensions id)
  · intro k
    rw [he.contains]
    exact h.particles k
  · intro id x hx k hk
    rw [he.owner]
    exact h.owner id x hx k hk

theorem owns (h : w.Holds R) {id : ProxyId} {x : Held} (hx : R id = some x) {k : ParticleHandle}
    (hk : k ∈ x.owned) : w.owns id k = true := by
  unfold World.owns
  rw [beq_iff_eq, ParticleStore.owner?_eq_some]
  exact ⟨(h.particles k).mpr ⟨id, x, hx, hk⟩, h.owner id x hx k hk⟩

/-- A particle that is held may be written to. -/
theorem writeParticle (h : w.Holds R) {id : ProxyId} {x : Held} (hx : R id = some x)
    {k : ParticleHandle} (hk : k ∈ x.owned) (change : ParticleSlot S → ParticleSlot S) :
    (w.writeParticle? id k (·.write? k change)).isSome = true := by
  unfold writeParticle? ParticleStore.write?
  rw [if_pos (h.owns hx hk)]
  dsimp only
  rw [if_pos ((h.particles k).mpr ⟨id, x, hx, hk⟩)]
  rfl

omit [Scalar S] in
theorem accept_fst {result : Option (World S)} (h : result.isSome = true) :
    (w.accept result).1 = true := by
  rcases Option.isSome_iff_exists.mp h with ⟨after, rfl⟩
  rfl

/-- A write that the roster admits is applied. -/
theorem applyCommand_edit (h : w.Holds R) {id : ProxyId} {x : Held} (hx : R id = some x)
    {command : Command S} (hedit : command.IsEdit) (ha : Roster.Admits x command) :
    (w.applyCommand id command).1 = true := by
  cases command with
  | create creation => exact hedit.elim
  | destroy => exact hedit.elim
  | setPosition particle position =>
    rcases ha with ⟨k, hk, heq⟩
    cases heq
    exact accept_fst (h.writeParticle hx hk _)
  | setVelocity particle velocity =>
    rcases ha with ⟨k, hk, heq⟩
    cases heq
    exact accept_fst (h.writeParticle hx hk _)
  | setKinematicTarget particle target =>
    rcases ha with ⟨k, hk, heq⟩
    cases heq
    exact accept_fst (h.writeParticle hx hk _)
  | addForce particle force =>
    rcases ha with ⟨k, hk, heq⟩
    cases heq
    exact accept_fst (h.writeParticle hx hk _)
  | setInverseMass particle inverseMass =>
    rcases ha with ⟨k, hk, heq⟩
    cases heq
    refine accept_fst ?_
    unfold setInverseMass?
    rw [Option.isSome_map]
    exact h.writeParticle hx hk _
  | setTetherStiffness stiffness =>
    refine accept_fst ?_
    unfold setTetherStiffness?
    dsimp only
    rw [Option.isSome_map]
    have hmap := congrArg Option.isSome (h.clusters id)
    rw [Option.isSome_map, hx] at hmap
    exact hmap.trans ha
  | setSuspensionTarget handle target =>
    rcases ha with ⟨k, rfl⟩
    refine accept_fst ?_
    rcases exists_record (h.suspensions id) (by rw [hx]; rfl) with ⟨s, hs, hview⟩
    have hhandle : s.handle = handle := congrArg Prod.fst hview
    unfold setSuspensionTarget?
    rw [Option.isSome_map, hs]
    simp [Option.filter, hhandle]
  | setJointRestLength handle restLength =>
    rcases ha with ⟨first, second, rfl⟩
    refine accept_fst ?_
    rcases exists_record (h.joints id) (by rw [hx]; rfl) with ⟨j, hj, hview⟩
    have hhandle : j.handle = handle := congrArg Prod.fst hview
    unfold setJointRestLength?
    dsimp only
    rw [Option.isSome_map, hj]
    simp [Option.filter, hhandle]

/-! ## Creations -/

theorem knows_eq_false (h : w.Holds R) {id : ProxyId} (hnone : R id = none) :
    w.knows id = false := by
  have hmembers := h.members id
  have hjoints := congrArg Option.isSome (h.joints id)
  have hsuspensions := congrArg Option.isSome (h.suspensions id)
  rw [hnone] at hmembers hjoints hsuspensions
  rw [Option.isSome_map] at hjoints hsuspensions
  unfold knows
  rw [Std.TreeMap.contains_eq_isSome_getElem?, Std.TreeMap.contains_eq_isSome_getElem?,
    Std.TreeMap.contains_eq_isSome_getElem?, hmembers, hjoints, hsuspensions]
  rfl

/-- A record under a new name, seen through the roster. -/
theorem lookup_insert {A B : Type} {m : Std.TreeMap ProxyId A} {view : A → B} {held : Held → Option B}
    (h : ∀ id : ProxyId, m[id]?.map view = (R id).bind held) {id : ProxyId} {a : A} {x : Held}
    (hview : some (view a) = held x) (owner : ProxyId) :
    (m.insert id a)[owner]?.map view = (Function.update R id (some x) owner).bind held := by
  rw [Maps.getElem?_insert]
  by_cases ho : owner = id
  · subst ho
    rw [if_pos rfl, Function.update_self]
    exact hview
  · rw [if_neg ho, Function.update_of_ne ho]
    exact h owner

/-- A map that a new name does not concern. -/
theorem lookup_update {B : Type} {lookup : ProxyId → Option B} {held : Held → Option B}
    (h : ∀ id, lookup id = (R id).bind held) {id : ProxyId} (hnone : R id = none) {x : Held}
    (hx : held x = none) (owner : ProxyId) :
    lookup owner = (Function.update R id (some x) owner).bind held := by
  by_cases ho : owner = id
  · subst ho
    rw [Function.update_self, h, hnone]
    exact hx.symm
  · rw [Function.update_of_ne ho]
    exact h owner

/-- New particles are inserted if no held slot is theirs. -/
theorem insertParticles (h : w.Holds R) {id : ProxyId} {x : Held} {handles : List ParticleHandle}
    {particles : List (Particle S)} (hnone : R id = none) (hx : x.members? = some handles)
    (hlength : handles.length = particles.length) (hnodup : (handles.map (·.index)).Nodup)
    (hfree : ∀ k ∈ handles, ∀ l, R.Owns l → l.index ≠ k.index) :
    ∃ after, w.insertParticles? id handles particles = some after ∧
      after.clusters = w.clusters ∧ after.joints = w.joints ∧
      after.suspensions = w.suspensions ∧
      (∀ owner : ProxyId, after.members[owner]? =
        (Function.update R id (some x) owner).bind Held.members?) ∧
      (∀ k, after.store.contains k = true ↔ Roster.Owns (Function.update R id (some x)) k) ∧
      ∀ owner y, Function.update R id (some x) owner = some y → ∀ k ∈ y.owned,
        (after.store.slot k.index).owner = some owner := by
  have howned : x.owned = handles := by
    unfold Held.owned
    rw [hx]
    rfl
  have hdead : ∀ k ∈ handles, w.store.isAlive k.index = false := by
    intro k hk
    rw [← Bool.not_eq_true]
    intro halive
    rcases ParticleStore.exists_contains halive with ⟨l, hindex, hl⟩
    exact hfree k hk l ((h.particles l).mp hl) hindex
  have hany : ¬ handles.any (w.store.isAlive ·.index) = true := by
    intro hany
    rcases List.any_eq_true.mp hany with ⟨k, hk, halive⟩
    rw [hdead k hk] at halive
    cases halive
  unfold insertParticles?
  rw [if_neg hany]
  refine ⟨_, rfl, rfl, rfl, rfl, ?_, ?_, ?_⟩
  · intro owner
    dsimp only
    rw [Maps.getElem?_insert]
    by_cases ho : owner = id
    · subst ho
      rw [if_pos rfl, Function.update_self]
      exact hx.symm
    · rw [if_neg ho, Function.update_of_ne ho]
      exact h.members owner
  · intro k
    rw [(ParticleStore.insertAll_spec hlength hdead hnodup k).1, h.particles,
      Roster.owns_update hnone, howned]
  · intro owner y hy k hk
    by_cases ho : owner = id
    · subst ho
      rw [Function.update_self] at hy
      cases hy
      rw [howned] at hk
      exact (ParticleStore.insertAll_spec hlength hdead hnodup k).2.1 hk
    · rw [Function.update_of_ne ho] at hy
      have hcontains := (h.particles k).mpr ⟨owner, y, hy, hk⟩
      have hout : k ∉ handles := fun hmem => hfree k hmem k ⟨owner, y, hy, hk⟩ rfl
      dsimp only
      rw [(ParticleStore.insertAll_spec hlength hdead hnodup k).2.2 hout hcontains]
      exact h.owner owner y hy k hk

/-- A constraint takes no particles away from anyone. -/
theorem particles_update (h : w.Holds R) {id : ProxyId} (hnone : R id = none) {x : Held}
    (hx : x.owned = []) (k : ParticleHandle) :
    w.store.contains k = true ↔ Roster.Owns (Function.update R id (some x)) k := by
  rw [Roster.owns_update hnone, hx]
  exact (h.particles k).trans (or_iff_left List.not_mem_nil).symm

theorem owner_update (h : w.Holds R) {id : ProxyId} {x : Held} (hx : x.owned = []) (owner : ProxyId)
    (y : Held) (hy : Function.update R id (some x) owner = some y) (k : ParticleHandle)
    (hk : k ∈ y.owned) : (w.store.slot k.index).owner = some owner := by
  by_cases ho : owner = id
  · subst ho
    rw [Function.update_self] at hy
    cases hy
    rw [hx] at hk
    exact absurd hk List.not_mem_nil
  · rw [Function.update_of_ne ho] at hy
    exact h.owner owner y hy k hk

/-- What a creation describes is added. -/
theorem create (h : w.Holds R) {id : ProxyId} {creation : Creation S} (hnone : R id = none)
    (hmatched : creation.Matched) (hnodup : (creation.held.owned.map (·.index)).Nodup)
    (hfree : ∀ k ∈ creation.held.owned, ∀ l, R.Owns l → l.index ≠ k.index)
    (huses : ∀ k ∈ creation.held.uses, R.Owns k) :
    ∃ after, w.create? id creation = some after ∧
      after.Holds (Function.update R id (some creation.held)) := by
  have hknown : ¬ w.knows id = true := by
    rw [h.knows_eq_false hnone]
    exact Bool.false_ne_true
  unfold create?
  rw [if_neg hknown]
  suffices hparts : ∃ parts, w.addParts? id creation = some parts ∧
      parts.Holds (Function.update R id (some creation.held)) by
    rcases hparts with ⟨parts, hparts, hholds⟩
    rw [hparts]
    exact ⟨_, rfl, hholds.members, hholds.clusters, hholds.joints, hholds.suspensions,
      hholds.particles, hholds.owner⟩
  cases creation with
  | particle handle particle =>
    have hlength : [handle].length = [particle].length := rfl
    rcases h.insertParticles hnone (x := .particle handle) rfl hlength hnodup hfree
      with ⟨after, hafter, hc, hj, hs, hmembers, hparticles, howner⟩
    refine ⟨after, hafter, hmembers, ?_, ?_, ?_, hparticles, howner⟩
    · rw [hc]
      exact lookup_update h.clusters hnone rfl
    · rw [hj]
      exact lookup_update h.joints hnone rfl
    · rw [hs]
      exact lookup_update h.suspensions hnone rfl
  | cluster handles particles adjacency stiffness =>
    have hlength : handles.length = particles.length := hmatched
    rcases h.insertParticles hnone (x := .cluster handles) rfl hlength hnodup hfree
      with ⟨after, hafter, hc, hj, hs, hmembers, hparticles, howner⟩
    simp only [addParts?, if_pos hlength, hafter, Option.map_some]
    refine ⟨_, rfl, hmembers, ?_, ?_, ?_, hparticles, howner⟩
    · dsimp only
      rw [hc]
      exact lookup_insert h.clusters rfl
    · dsimp only
      rw [hj]
      exact lookup_update h.joints hnone rfl
    · dsimp only
      rw [hs]
      exact lookup_update h.suspensions hnone rfl
  | joint handle first second restLength compliance =>
    have hfirst := (h.particles first).mpr (huses first (by simp [Creation.held, Held.uses]))
    have hsecond := (h.particles second).mpr (huses second (by simp [Creation.held, Held.uses]))
    simp only [addParts?, hfirst, hsecond, Bool.and_self, if_true]
    refine ⟨_, rfl, ?_, ?_, ?_, ?_, ?_, ?_⟩
    · exact lookup_update h.members hnone rfl
    · exact lookup_update h.clusters hnone rfl
    · exact lookup_insert h.joints rfl
    · exact lookup_update h.suspensions hnone rfl
    · exact h.particles_update hnone rfl
    · exact h.owner_update rfl
  | suspension handle particle target restLength compliance =>
    have hparticle := (h.particles particle).mpr
      (huses particle (by simp [Creation.held, Held.uses]))
    simp only [addParts?, hparticle, if_true]
    refine ⟨_, rfl, ?_, ?_, ?_, ?_, ?_, ?_⟩
    · exact lookup_update h.members hnone rfl
    · exact lookup_update h.clusters hnone rfl
    · exact lookup_update h.joints hnone rfl
    · exact lookup_insert h.suspensions rfl
    · exact h.particles_update hnone rfl
    · exact h.owner_update rfl

/-! ## Destructions -/

/-- A map from which a name is erased, seen through the roster. -/
theorem lookup_erase {A B : Type} {m : Std.TreeMap ProxyId A} {view : A → B}
    {held : Held → Option B} (h : ∀ id : ProxyId, m[id]?.map view = (R id).bind held)
    (id owner : ProxyId) :
    (m.erase id)[owner]?.map view = (Function.update R id none owner).bind held := by
  rw [Maps.getElem?_erase]
  by_cases ho : owner = id
  · subst ho
    rw [if_pos rfl, Function.update_self]
    rfl
  · rw [if_neg ho, Function.update_of_ne ho]
    exact h owner

/-- A map without records of a name, seen through the roster. -/
theorem lookup_destroyed {B : Type} {lookup : ProxyId → Option B} {held : Held → Option B}
    (h : ∀ id, lookup id = (R id).bind held) {id : ProxyId} {x : Held} (hid : R id = some x)
    (hx : held x = none) (owner : ProxyId) :
    lookup owner = (Function.update R id none owner).bind held := by
  by_cases ho : owner = id
  · subst ho
    rw [Function.update_self, h, hid]
    exact hx
  · rw [Function.update_of_ne ho]
    exact h owner

/-- Who holds a particle after the proxy with these particles is gone. -/
theorem owns_destroyed (hvalid : R.Valid) {id : ProxyId} {x : Held} (hid : R id = some x)
    (k : ParticleHandle) :
    Roster.Owns (Function.update R id none) k ↔ R.Owns k ∧ k ∉ x.owned := by
  constructor
  · rintro ⟨owner, y, hy, hk⟩
    by_cases ho : owner = id
    · subst ho
      rw [Function.update_self] at hy
      cases hy
    · rw [Function.update_of_ne ho] at hy
      refine ⟨⟨owner, y, hy, hk⟩, ?_⟩
      intro hmem
      exact ho (hvalid.slots owner id y x hy hid k hk k hmem rfl)
  · rintro ⟨⟨owner, y, hy, hk⟩, hout⟩
    have ho : owner ≠ id := by
      rintro rfl
      rw [hid] at hy
      cases hy
      exact hout hk
    exact ⟨owner, y, by rw [Function.update_of_ne ho, hy], hk⟩

omit [Scalar S] in
/-- Whoever is left held the same before. -/
theorem of_destroyed {id owner : ProxyId} {y : Held}
    (hy : Function.update R id none owner = some y) : owner ≠ id ∧ R owner = some y := by
  by_cases ho : owner = id
  · subst ho
    rw [Function.update_self] at hy
    cases hy
  · rw [Function.update_of_ne ho] at hy
    exact ⟨ho, hy⟩

/-- A particle or a cluster is taken away with its particles. -/
theorem remove_members (h : w.Holds R) (hvalid : R.Valid) {id : ProxyId} {x : Held}
    (hid : R id = some x) {handles : List ParticleHandle} (hx : x.members? = some handles) :
    ∃ after, w.remove? id = some after ∧ after.Holds (Function.update R id none) := by
  have hmembers := h.members id
  rw [hid, Option.bind_some, hx] at hmembers
  have howned : x.owned = handles := by
    unfold Held.owned
    rw [hx]
    rfl
  unfold remove?
  rw [hmembers]
  dsimp only
  refine ⟨_, rfl, ?_⟩
  constructor
  case members =>
    intro owner
    have hlookup : ∀ a : ProxyId, w.members[a]?.map (fun l => l) = (R a).bind Held.members? := by
      simpa using h.members
    simpa using lookup_erase hlookup id owner
  case clusters => exact lookup_erase h.clusters id
  case joints =>
    refine lookup_destroyed h.joints hid ?_
    cases x with
    | joint => cases hx
    | _ => rfl
  case suspensions =>
    refine lookup_destroyed h.suspensions hid ?_
    cases x with
    | suspension => cases hx
    | _ => rfl
  case particles =>
    intro k
    rw [(ParticleStore.removeAll_spec handles k).1, h.particles, owns_destroyed hvalid hid, howned]
  case owner =>
    intro owner y hy k hk
    rcases of_destroyed hy with ⟨ho, hy⟩
    have hout : k ∉ handles := by
      intro hmem
      exact ho (hvalid.slots owner id y x hy hid k hk k (howned ▸ hmem) rfl)
    dsimp only
    rw [(ParticleStore.removeAll_spec handles k).2 hout ((h.particles k).mpr ⟨owner, y, hy, hk⟩)]
    exact h.owner owner y hy k hk

/-- A joint or a suspension is taken away, and no particle with it. -/
theorem remove_constraint (h : w.Holds R) (hvalid : R.Valid) {id : ProxyId} {x : Held}
    (hid : R id = some x) (hx : x.members? = none) :
    ∃ after, w.remove? id = some after ∧ after.Holds (Function.update R id none) := by
  have hmembers := h.members id
  have hjoints := congrArg Option.isSome (h.joints id)
  have hsuspensions := congrArg Option.isSome (h.suspensions id)
  rw [hid, Option.bind_some, hx] at hmembers
  rw [hid, Option.isSome_map, Option.bind_some] at hjoints hsuspensions
  have howned : x.owned = [] := by
    unfold Held.owned
    rw [hx]
    rfl
  have hparticles : ∀ k, w.store.contains k = true ↔
      Roster.Owns (Function.update R id none) k := by
    intro k
    rw [owns_destroyed hvalid hid, h.particles, howned]
    exact (and_iff_left List.not_mem_nil).symm
  have howner : ∀ owner y, Function.update R id none owner = some y → ∀ k ∈ y.owned,
      (w.store.slot k.index).owner = some owner :=
    fun owner y hy => h.owner owner y (of_destroyed hy).2
  unfold remove?
  rw [hmembers]
  dsimp only
  rw [Std.TreeMap.contains_eq_isSome_getElem?, Std.TreeMap.contains_eq_isSome_getElem?, hjoints,
    hsuspensions]
  cases x with
  | particle => cases hx
  | cluster => cases hx
  | joint handle first second =>
    exact ⟨_, rfl, lookup_destroyed h.members hid rfl, lookup_destroyed h.clusters hid rfl,
      lookup_erase h.joints id, lookup_destroyed h.suspensions hid rfl, hparticles, howner⟩
  | suspension handle particle =>
    exact ⟨_, rfl, lookup_destroyed h.members hid rfl, lookup_destroyed h.clusters hid rfl,
      lookup_destroyed h.joints hid rfl, lookup_erase h.suspensions id, hparticles, howner⟩

/-- What a proxy holds is taken away. -/
theorem remove (h : w.Holds R) (hvalid : R.Valid) {id : ProxyId} {x : Held}
    (hid : R id = some x) :
    ∃ after, w.remove? id = some after ∧ after.Holds (Function.update R id none) := by
  cases hx : x.members? with
  | some handles => exact h.remove_members hvalid hid hx
  | none => exact h.remove_constraint hvalid hid hx

/-! ## Deltas -/

/-- A delta that the roster accepts is applied and leads to the next roster. -/
theorem applyCommand (h : w.Holds R) (hvalid : R.Valid) {delta : Delta S}
    (ha : R.Accepts delta) :
    (w.applyCommand delta.proxy delta.command).1 = true ∧
      (w.applyCommand delta.proxy delta.command).2.Holds (R.after delta) := by
  by_cases hedit : delta.command.IsEdit
  · -- an edit of what is held
    rcases (Roster.accepts_edit hedit).mp ha with ⟨x, hx, hadmits⟩
    rw [Roster.after_edit hedit]
    exact ⟨h.applyCommand_edit hx hedit hadmits,
      h.edited (edited_applyCommand w delta.proxy hedit)⟩
  · unfold Roster.Accepts at ha
    unfold Roster.after
    cases hc : delta.command with
    | create creation =>
      rw [hc] at ha
      rcases ha with ⟨hnone, _, hmatched, hnodup, hfree, huses⟩
      rcases h.create hnone hmatched hnodup hfree huses with ⟨after, hafter, hholds⟩
      unfold World.applyCommand accept
      dsimp only
      rw [hafter]
      exact ⟨rfl, hholds⟩
    | destroy =>
      rw [hc] at ha
      rcases ha with ⟨x, hx, _⟩
      rcases h.remove hvalid hx with ⟨after, hafter, hholds⟩
      unfold World.applyCommand destroy
      dsimp only
      rw [hafter]
      exact ⟨rfl, hholds.members, hholds.clusters, hholds.joints, hholds.suspensions,
        hholds.particles, hholds.owner⟩
    | _ =>
      rw [hc] at hedit
      exact absurd trivial hedit

theorem applyDelta (h : w.Holds R) (hvalid : R.Valid) {delta : Delta S}
    (ha : R.Accepts delta) :
    (w.applyDelta delta).1 = true ∧ (w.applyDelta delta).2.Holds (R.after delta) := by
  have hcommand := h.applyCommand hvalid ha
  unfold World.applyDelta
  split
  case h_1 after heq =>
    rw [heq] at hcommand
    have hholds := hcommand.2
    exact ⟨rfl, hholds.members, hholds.clusters, hholds.joints, hholds.suspensions,
      hholds.particles, hholds.owner⟩
  case h_2 after heq =>
    rw [heq] at hcommand
    cases hcommand.1

/-- Deltas that the roster accepts are all applied. -/
theorem applyDeltas (h : w.Holds R) (hvalid : R.Valid) {deltas : List (Delta S)}
    (ha : R.AcceptsAll deltas) :
    (w.applyDeltas deltas).1 = 0 ∧ (w.applyDeltas deltas).2.Holds (R.afterAll deltas) := by
  unfold World.applyDeltas
  generalize 0 = dropped
  induction deltas generalizing w R with
  | nil => exact ⟨rfl, h⟩
  | cons delta rest ih =>
    have hone := h.applyDelta hvalid ha.1
    simp only [List.foldl_cons]
    split
    case h_1 after heq =>
      rw [heq] at hone
      exact ih hone.2 (hvalid.after ha.1) ha.2
    case h_2 after heq =>
      rw [heq] at hone
      cases hone.1

/-! ## The rest of a step -/

theorem updated (h : w.Holds R) (hvalid : R.Valid) {deltas : List (Delta S)}
    (ha : R.AcceptsAll deltas) :
    w.droppedOf deltas = 0 ∧ (w.updated deltas).Holds (R.afterAll deltas) :=
  applyDeltas (w := { w with touched := ∅ })
    ⟨h.members, h.clusters, h.joints, h.suspensions, h.particles, h.owner⟩ hvalid ha

/-- The particles of clusters do not change when their tethers are laid. -/
theorem particles_rebuilt (hsound : w.Sound) (hr : w.Rebuilt after) (id : ProxyId) :
    after.clusters[id]?.map (·.particles.toList) = w.clusters[id]?.map (·.particles.toList) := by
  cases hc : w.clusters[id]? with
  | none =>
    cases hd : after.clusters[id]? with
    | none => rfl
    | some d =>
      rcases (hr.clusters id d).mp hd with ⟨c, hc', _⟩
      rw [hc] at hc'
      cases hc'
  | some c =>
    rcases hr.laid id c hc with ⟨d, hd⟩
    rcases (Cluster.layTethers_ends (hsound.clusters id c hc).2 hsound.weighed
      w.config).holds_of_eq hd with ⟨tethers, rfl, _⟩
    rw [(hr.clusters id _).mpr ⟨c, hc, hd⟩]
    rfl

/-- No joint dangles, since its particles are held. -/
theorem joint_dropDangling (h : w.Holds R) (hvalid : R.Valid) (id : ProxyId) :
    w.dropDangling.joints[id]? = w.joints[id]? := by
  refine joints_dropDangling_eq fun j hj => ?_
  have hview := h.joints id
  rw [hj] at hview
  rcases Option.bind_eq_some_iff.mp hview.symm with ⟨x, hx, hxj⟩
  have hx' : x = .joint j.handle j.first j.second := by
    cases x with
    | joint => simpa [Held.joint?] using hxj
    | _ => cases hxj
  exact ⟨(h.particles j.first).mpr (hvalid.closed id x hx j.first (by simp [hx', Held.uses])),
    (h.particles j.second).mpr (hvalid.closed id x hx j.second (by simp [hx', Held.uses]))⟩

theorem suspension_dropDangling (h : w.Holds R) (hvalid : R.Valid) (id : ProxyId) :
    w.dropDangling.suspensions[id]? = w.suspensions[id]? := by
  refine suspensions_dropDangling_eq fun s hs => ?_
  have hview := h.suspensions id
  rw [hs] at hview
  rcases Option.bind_eq_some_iff.mp hview.symm with ⟨x, hx, hxs⟩
  have hx' : x = .suspension s.handle s.particle := by
    cases x with
    | suspension => simpa [Held.suspension?] using hxs
    | _ => cases hxs
  exact (h.particles s.particle).mpr (hvalid.closed id x hx s.particle (by simp [hx', Held.uses]))

/-- Rebuilding drops no constraint, since all of them act on particles that are held. -/
theorem rebuilt (h : w.Holds R) (hvalid : R.Valid) (hsound : w.Sound) (hr : w.Rebuilt after) :
    after.Holds R := by
  constructor
  case members => exact hr.members ▸ h.members
  case clusters => exact fun id => (particles_rebuilt hsound hr id).trans (h.clusters id)
  case joints =>
    intro id
    rw [hr.joints, h.joint_dropDangling hvalid]
    exact h.joints id
  case suspensions =>
    intro id
    rw [hr.suspensions, h.suspension_dropDangling hvalid]
    exact h.suspensions id
  case particles => exact hr.store ▸ h.particles
  case owner => exact hr.store ▸ h.owner

theorem withStore (h : w.Holds R) {store : ParticleStore S} (hs : w.store.Alike store) :
    Holds { w with store } R := by
  refine ⟨h.members, h.clusters, h.joints, h.suspensions, ?_, ?_⟩
  · intro k
    rw [hs.contains]
    exact h.particles k
  · intro id x hx k hk
    exact (hs.slot k.index).owner.trans (h.owner id x hx k hk)

/-- Moving changes nothing that a roster says. -/
theorem stepped (h : w.Holds R) (snapshot : PushSnapshot S T) : (w.stepped snapshot).Holds R := by
  have hclear : ∀ after : World S, after.Holds R →
      Holds { after with store := after.store.clearStepData, latest := snapshot.timestamp } R := by
    intro after ha
    have hholds := ha.withStore (ParticleStore.Steady.clearStepData after.store).alike
    exact ⟨hholds.members, hholds.clusters, hholds.joints, hholds.suspensions, hholds.particles,
      hholds.owner⟩
  unfold World.stepped
  dsimp only
  split
  · have hholds := h.withStore (steady_moved w snapshot.dt).alike
    exact hclear _ ⟨hholds.members, hholds.clusters, hholds.joints, hholds.suspensions,
      hholds.particles, hholds.owner⟩
  · exact hclear _ h

end Holds

end World

end TetheredParticles
