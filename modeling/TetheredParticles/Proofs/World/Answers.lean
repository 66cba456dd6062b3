import TetheredParticles.Proofs.Snapshot.Latest
import TetheredParticles.Proofs.Vec3
import TetheredParticles.Proofs.World.Roster
import TetheredParticles.Proofs.World.Tidy
/-!
# What an answer tells

An answer tells about the proxies that were written to and about those whose particles can have
moved. Nothing happens to any other particle: no write reached it, and if its owner alone moves it,
then it has not been moved.

* `World.Spares`, `World.slot_updated` — a write to one proxy leaves the particles of others alone.
* `World.Holds.touched_applyDeltas` — every proxy that was written to is noted.
* `World.Linked.position_moved` — a particle that is not told about has not moved.
* `World.mem_results` — what the answer tells about a particle or cluster.
* `World.answer_spec` — a step tells where the particles of a proxy are, or leaves them there.
-/

namespace TetheredParticles

variable {S T : Type} [Scalar S] [Scalar T] [Timeline S T]

namespace World

/-! ## Writes to others -/

/-- Lists of particles name living ones only, and those belong to the proxy that lists them. -/
def Housed (w : World S) : Prop :=
  ∀ (owner : ProxyId) (handles : List ParticleHandle), w.members[owner]? = some handles →
    ∀ h ∈ handles, w.store.isAlive h.index = true ∧ (w.store.slot h.index).owner = some owner

/-- A write to one proxy leaves the occupied slots of all others as they are, and notes nothing. -/
structure Spares (proxy : ProxyId) (w after : World S) : Prop where
  touched : after.touched = w.touched
  slots : ∀ n owner, w.store.isAlive n = true → (w.store.slot n).owner = some owner →
    owner ≠ proxy → after.store.slot n = w.store.slot n

namespace Spares

variable {proxy : ProxyId} {w after : World S}

omit [Scalar T] [Timeline S T] in
/-- The particles have not changed. -/
theorem of_eq (htouched : after.touched = w.touched) (hstore : after.store = w.store) :
    Spares proxy w after := ⟨htouched, fun _ _ _ _ _ => by rw [hstore]⟩

theorem insertParticles {handles : List ParticleHandle} {particles : List (Particle S)}
    (hw : w.insertParticles? proxy handles particles = some after) : Spares proxy w after := by
  unfold insertParticles? at hw
  split at hw
  case isTrue => cases hw
  case isFalse =>
    cases hw
    refine ⟨rfl, ?_⟩
    intro n owner halive _ _
    rcases ParticleStore.slot_insertAll proxy (handles.zip particles) w.store n with
      ⟨hdead, _⟩ | ⟨_, hslot⟩
    · rw [halive] at hdead
      cases hdead
    · exact hslot

theorem create {creation : Creation S} (hw : w.create? proxy creation = some after) :
    Spares proxy w after := by
  unfold create? at hw
  split at hw
  case isTrue => cases hw
  case isFalse =>
    rcases Option.map_eq_some_iff.mp hw with ⟨parts, hparts, rfl⟩
    suffices hspares : Spares proxy w parts from ⟨hspares.touched, hspares.slots⟩
    cases creation with
    | particle handle particle => exact insertParticles hparts
    | cluster handles particles adjacency stiffness =>
      simp only [addParts?] at hparts
      split at hparts
      case isFalse => cases hparts
      case isTrue =>
        rcases Option.map_eq_some_iff.mp hparts with ⟨inserted, hinserted, rfl⟩
        have hspares : Spares proxy w inserted := insertParticles hinserted
        exact ⟨hspares.touched, hspares.slots⟩
    | joint handle first second restLength compliance =>
      simp only [addParts?] at hparts
      split at hparts
      case isFalse => cases hparts
      case isTrue =>
        cases hparts
        exact .of_eq rfl rfl
    | suspension handle particle target restLength compliance =>
      simp only [addParts?] at hparts
      split at hparts
      case isFalse => cases hparts
      case isTrue =>
        cases hparts
        exact .of_eq rfl rfl

theorem remove (hhoused : w.Housed) (hw : w.remove? proxy = some after) : Spares proxy w after := by
  unfold remove? at hw
  split at hw
  case h_1 handles hhandles =>
    cases hw
    refine ⟨rfl, ?_⟩
    intro n owner _ howner hne
    rcases ParticleStore.slot_removeAll handles w.store n with ⟨⟨k, hk, hindex, _⟩, _⟩ | ⟨_, hslot⟩
    · -- a particle that is removed belongs to the proxy
      have hown := (hhoused proxy handles hhandles k hk).2
      rw [hindex, howner] at hown
      exact absurd (Option.some.inj hown) hne
    · exact hslot
  case h_2 =>
    split at hw
    case isTrue =>
      cases hw
      exact .of_eq rfl rfl
    case isFalse =>
      split at hw
      case isTrue =>
        cases hw
        exact .of_eq rfl rfl
      case isFalse => cases hw

theorem destroy (hhoused : w.Housed) : Spares proxy w (w.destroy proxy).2 := by
  unfold World.destroy
  dsimp only
  split
  case h_1 after hw =>
    have hspares : Spares proxy w after := remove hhoused hw
    exact ⟨hspares.touched, hspares.slots⟩
  case h_2 => exact .of_eq rfl rfl

theorem write {particle : ParticleHandle} {change : ParticleSlot S → ParticleSlot S}
    (hw : w.writeParticle? proxy particle (·.write? particle change) = some after) :
    Spares proxy w after := by
  unfold writeParticle? at hw
  split at hw
  case isFalse => cases hw
  case isTrue howns =>
    rcases Option.map_eq_some_iff.mp hw with ⟨store, hstore, rfl⟩
    rcases ParticleStore.slot_of_write hstore with ⟨_, _, hslot⟩
    refine ⟨rfl, ?_⟩
    intro n owner _ howner hne
    dsimp only
    rw [hslot, if_neg]
    rintro rfl
    unfold owns at howns
    rw [beq_iff_eq, ParticleStore.owner?_eq_some, howner] at howns
    exact hne (Option.some.inj howns.2)

theorem accept {result : Option (World S)}
    (hresult : ∀ after, result = some after → Spares proxy w after) :
    Spares proxy w (w.accept result).2 := by
  unfold World.accept
  cases result with
  | none => exact .of_eq rfl rfl
  | some after => exact hresult after rfl

theorem applyCommand (hhoused : w.Housed) (proxy : ProxyId) (command : Command S) :
    Spares proxy w (w.applyCommand proxy command).2 := by
  cases command with
  | create creation => exact accept fun _ hw => create hw
  | destroy => exact destroy hhoused
  | setPosition particle position => exact accept fun _ hw => write hw
  | setVelocity particle velocity => exact accept fun _ hw => write hw
  | setKinematicTarget particle target => exact accept fun _ hw => write hw
  | addForce particle force => exact accept fun _ hw => write hw
  | setInverseMass particle inverseMass =>
    refine accept ?_
    intro after hw
    rcases Option.map_eq_some_iff.mp hw with ⟨changed, hchanged, rfl⟩
    have hspares : Spares proxy w changed := write hchanged
    exact ⟨hspares.touched, hspares.slots⟩
  | setTetherStiffness stiffness =>
    refine accept ?_
    intro after hw
    rcases Option.map_eq_some_iff.mp hw with ⟨c, _, rfl⟩
    exact .of_eq rfl rfl
  | setSuspensionTarget handle target =>
    refine accept ?_
    intro after hw
    rcases Option.map_eq_some_iff.mp hw with ⟨s, _, rfl⟩
    exact .of_eq rfl rfl
  | setJointRestLength handle restLength =>
    refine accept ?_
    intro after hw
    rcases Option.map_eq_some_iff.mp hw with ⟨j, _, rfl⟩
    exact .of_eq rfl rfl

end Spares

variable {w : World S}

/-- Deltas for others leave the particles of a proxy as they are. -/
theorem slot_updated [LawfulZero S] (hi : w.Inv) {deltas : List (Delta S)}
    (hrange : Delta.AllInRange deltas) {proxy : ProxyId} (hothers : ∀ d ∈ deltas, d.proxy ≠ proxy)
    {n : Nat} (halive : w.store.isAlive n = true) (howner : (w.store.slot n).owner = some proxy) :
    (w.updated deltas).store.slot n = w.store.slot n := by
  have hkept : (w.updated deltas).Inv ∧
      (w.updated deltas).store.slot n = w.store.slot n := by
    refine applyDeltas_keeps (P := fun v : World S => v.Inv ∧ v.store.slot n = w.store.slot n)
      (w := { w with touched := ∅ }) ⟨hi.withNotes _ _ _, rfl⟩ ?_ ?_
    · rintro v touched ⟨hv, hslot⟩
      exact ⟨hv.withNotes _ _ _, hslot⟩
    · rintro v d hd ⟨hv, hslot⟩
      have hspares := Spares.applyCommand hv.sound.owned d.proxy d.command
      refine ⟨hv.applyCommand d.proxy (hrange d hd), ?_⟩
      refine (hspares.slots n proxy ?_ ?_ (hothers d hd).symm).trans hslot
      · unfold ParticleStore.isAlive
        rw [hslot]
        exact halive
      · rw [hslot]
        exact howner
  exact hkept.2

/-- A delta that is applied is out of the way of the others. -/
theorem applyDeltas_cons {delta : Delta S} {rest : List (Delta S)}
    (h : (w.applyDelta delta).1 = true) :
    w.applyDeltas (delta :: rest) = (w.applyDelta delta).2.applyDeltas rest := by
  unfold applyDeltas
  rw [List.foldl_cons]
  dsimp only
  generalize w.applyDelta delta = result at h ⊢
  rcases result with ⟨applied, after⟩
  cases h
  rfl

/-- A delta that is applied leaves a note, and no note is lost. -/
theorem touched_applyDelta (hhoused : w.Housed) {delta : Delta S}
    (h : (w.applyDelta delta).1 = true) :
    (w.applyDelta delta).2.touched = w.touched.insert delta.proxy := by
  have htouched := (Spares.applyCommand hhoused delta.proxy delta.command).touched
  unfold applyDelta at h ⊢
  split at h
  case h_1 after heq =>
    rw [heq] at htouched
    exact congrArg (·.insert delta.proxy) htouched
  case h_2 => cases h

/-- Every delta that the roster accepts leaves a note. -/
theorem Holds.touched_applyDeltas [LawfulZero S] {R : Roster} (h : w.Holds R) (hvalid : R.Valid)
    (hi : w.Inv) {deltas : List (Delta S)} (ha : R.AcceptsAll deltas) (proxy : ProxyId) :
    (w.applyDeltas deltas).2.touched.contains proxy = true ↔
      w.touched.contains proxy = true ∨ ∃ d ∈ deltas, d.proxy = proxy := by
  induction deltas generalizing w R with
  | nil =>
    constructor
    · exact .inl
    · rintro (hold | ⟨d, hd, _⟩)
      · exact hold
      · cases hd
  | cons delta rest ih =>
    rcases h.applyDelta hvalid ha.1 with ⟨happlied, hholds⟩
    have hinv : (w.applyDelta delta).2.Inv := by
      refine applyDelta_keeps hi (fun v touched hv => hv.withNotes _ _ _) ?_
      intro hv
      exact hv.applyCommand delta.proxy (Roster.inRange_of_accepts ha.1)
    rw [applyDeltas_cons happlied, ih hholds (hvalid.after ha.1) hinv ha.2,
      touched_applyDelta hi.sound.owned happlied, Std.TreeSet.contains_insert]
    simp only [Bool.or_eq_true, beq_iff_eq, Std.LawfulEqCmp.compare_eq_iff_eq, List.mem_cons,
      exists_eq_or_imp]
    tauto

/-! ## Particles that have not moved -/

/-- The rigid passes leave particles alone that only their owners move. -/
theorem Linked.pushed_fixed (h : w.Linked) (directions : Directions S) (dt : S) {n : Nat}
    (hn : (w.store.slot n).flags.kinematic = true) :
    w.pushedMotion directions dt (.slot n) = w.solvedMotion directions dt (.slot n) := by
  unfold pushedMotion
  refine Visit.runAll_frame ?_
  intro v hv hwrites
  rcases List.mem_flatMap.mp (Program.mem_push hv) with ⟨⟨proxy, c⟩, hx, hv⟩
  have hc := Std.TreeMap.mem_toList_iff_getElem?_eq_some.mp hx
  rcases mem_writes_ofTethers hv hwrites with ⟨⟨layer, t⟩, hlayer, heq | heq⟩
  · -- tethers end at particles that forces move
    have hfree := (h.tethers proxy c hc t (Cluster.mem_tethers_of_layers hlayer)).2.2
    cases heq
    rw [hn] at hfree
    cases hfree
  · cases heq

theorem position_predicted (w : World S) (dt : S) (n : Nat) :
    ((w.predicted dt).slot n).position = (w.store.slot n).position := by
  unfold predicted
  rw [ParticleStore.slot_predict]
  split
  · unfold ParticleSlot.predict
    split
    · split
      · rfl
      · rfl
    · rfl
  · rfl

/-- A particle of which a step does not tell is where it was. -/
theorem Linked.position_moved [LawfulRest S] (h : w.Linked) (hw : w.store.Weighed)
    {directions : Directions S} (hm : w.Remembers directions) {dt : S} (hdt : 0 < dt)
    {k : ParticleHandle} (hk : w.store.contains k = true)
    (hstill : (w.moved dt).changed true k = false) :
    (w.store.slot k.index).position.Coincide ((w.moved dt).store.slot k.index).position := by
  have halike := (steady_moved w dt).alike
  have hslot := h.slot_moved hw hm dt k.index
  rw [if_pos (ParticleStore.contains_iff.mp hk).1] at hslot
  unfold changed ParticleStore.get? at hstill
  rw [if_pos ((halike.contains k).trans hk)] at hstill
  simp only [Bool.true_and, Bool.or_eq_false_iff, Bool.not_eq_false'] at hstill
  rcases hstill with ⟨⟨hkinematic, hrest⟩, _⟩
  rw [(halike.slot k.index).kinematic] at hkinematic
  rw [hslot] at hrest ⊢
  have hcoincide := LawfulRest.rest _ _ dt hdt hrest
  rw [position_predicted] at hcoincide
  unfold ParticleSlot.carried Motion.position
  rw [h.pushed_fixed directions dt hkinematic]
  exact hcoincide

/-! ## Answers -/

/-- A step tells about a particle or cluster: it was written to, or the step can have moved it. -/
def tells (w : World S) (moved : Bool) (proxy : ProxyId) (handles : List ParticleHandle) : Bool :=
  w.touched.contains proxy || handles.any (w.changed moved)

/-- What the results of a step say about a particle or cluster. -/
theorem mem_results {proxy : ProxyId} {handles : List ParticleHandle}
    (hm : w.members[proxy]? = some handles) (hj : w.joints[proxy]? = none)
    (hs : w.suspensions[proxy]? = none) (moved : Bool) (r : ProxyResult S) :
    r ∈ w.results moved ∧ r.proxy = proxy ↔
      w.tells moved proxy handles = true ∧ r = w.particleResult proxy handles := by
  unfold results
  rw [List.mem_mergeSort, List.mem_append, List.mem_map, List.mem_map]
  constructor
  · rintro ⟨⟨⟨owner, listed⟩, hmem, rfl⟩ | ⟨owner, hmem, rfl⟩, hproxy⟩
    · replace hproxy : owner = proxy := hproxy
      subst hproxy
      rcases List.mem_filter.mp hmem with ⟨hlisted, htells⟩
      have hlookup := Std.TreeMap.mem_toList_iff_getElem?_eq_some.mp hlisted
      rw [hm] at hlookup
      cases hlookup
      exact ⟨htells, rfl⟩
    · -- the proxy is no constraint
      replace hproxy : owner = proxy := hproxy
      subst hproxy
      have hkeys := (List.mem_filter.mp hmem).1
      rw [List.mem_append, Std.TreeMap.mem_keys, Std.TreeMap.mem_keys,
        Std.TreeMap.mem_iff_isSome_getElem?, Std.TreeMap.mem_iff_isSome_getElem?, hj, hs] at hkeys
      simp at hkeys
  · rintro ⟨htells, rfl⟩
    refine ⟨.inl ⟨(proxy, handles), List.mem_filter.mpr ⟨?_, htells⟩, rfl⟩, rfl⟩
    exact Std.TreeMap.mem_toList_iff_getElem?_eq_some.mpr hm

variable {directions : Directions S}

omit [Scalar T] [Timeline S T] in
/-- What was meant for one step is forgotten, but not where particles are. -/
theorem position_stepped (w : World S) (snapshot : PushSnapshot S T) (n : Nat) :
    ((w.stepped snapshot).store.slot n).position =
      ((w.advanced snapshot.dt).store.slot n).position := by
  show ((w.advanced snapshot.dt).store.clearStepData.slot n).position = _
  rw [ParticleStore.slot_clearStepData]
  rfl

omit [Scalar T] [Timeline S T] in
theorem known_advanced (w : World S) (dt : S) :
    (w.advanced dt).members = w.members ∧ (w.advanced dt).joints = w.joints ∧
      (w.advanced dt).suspensions = w.suspensions ∧ (w.advanced dt).touched = w.touched := by
  unfold advanced
  split
  · exact ⟨rfl, rfl, rfl, rfl⟩
  · exact ⟨rfl, rfl, rfl, rfl⟩

/-- The answer of a step tells where the particles of a proxy are, or nobody has written to the
proxy and all its particles are where they were. -/
theorem answer_spec [LawfulRest S] (hl : w.Linked) (hw : w.store.Weighed)
    (hm : w.Remembers directions) (snapshot : PushSnapshot S T) (dropped : Nat) {proxy : ProxyId}
    {handles : List ParticleHandle} (hhandles : w.members[proxy]? = some handles)
    (hjoint : w.joints[proxy]? = none) (hsuspension : w.suspensions[proxy]? = none)
    (hcontains : ∀ k ∈ handles, w.store.contains k = true) :
    (∃ velocities, (w.answer snapshot dropped).Tells proxy (.particles
      (handles.map fun k => ((w.stepped snapshot).store.slot k.index).position).toArray
      velocities)) ∨
    (w.answer snapshot dropped).Silent proxy ∧ w.touched.contains proxy = false ∧
      ∀ k ∈ handles, (w.store.slot k.index).position.Coincide
        ((w.stepped snapshot).store.slot k.index).position := by
  rcases known_advanced w snapshot.dt with ⟨hmembers, hjoints, hsuspensions, htouched⟩
  have hresults := mem_results (w := w.advanced snapshot.dt) (hmembers ▸ hhandles)
    (hjoints ▸ hjoint) (hsuspensions ▸ hsuspension) (decide (0 < snapshot.dt))
  simp only [position_stepped]
  cases htells : (w.advanced snapshot.dt).tells (decide (0 < snapshot.dt)) proxy handles with
  | true =>
    let velocity := fun k : ParticleHandle =>
      ((w.advanced snapshot.dt).store.slot k.index).velocity
    refine .inl ⟨(handles.map velocity).toArray, ?_⟩
    intro r
    rw [htells] at hresults
    exact (hresults r).trans (and_iff_right rfl)
  | false =>
    rw [htells] at hresults
    refine .inr ⟨?_, ?_, ?_⟩
    · intro r hr hproxy
      cases ((hresults r).mp ⟨hr, hproxy⟩).1
    · unfold tells at htells
      rw [← htouched]
      exact (Bool.or_eq_false_iff.mp htells).1
    · intro k hk
      unfold tells at htells
      have hstill := List.any_eq_false.mp (Bool.or_eq_false_iff.mp htells).2 k hk
      rw [Bool.not_eq_true] at hstill
      unfold advanced at hstill ⊢
      by_cases hdt : 0 < snapshot.dt
      · rw [if_pos hdt] at hstill ⊢
        rw [decide_eq_true hdt] at hstill
        exact hl.position_moved hw hm hdt (hcontains k hk) hstill
      · rw [if_neg hdt]
        exact .refl _

/-! ## Whole steps -/

variable {before : World S} {q : PushSnapshot S T}

omit [Scalar T] [Timeline S T] in
/-- Directions outlast the deltas, or are forgotten with the old topology. -/
theorem Remembers.prepared (hm : w.Remembers directions) {deltas : List (Delta S)}
    (hbefore : before = w.updated deltas ∨ (w.updated deltas).Rebuilt before) :
    ∃ prepared, before.Remembers prepared := by
  rcases hbefore with rfl | hrebuilt
  · exact ⟨directions, hm.updated deltas⟩
  · exact ⟨fun _ => 0, .rebuilt hrebuilt⟩

omit [Scalar T] [Timeline S T] in
/-- Who knows the directions before a step knows them after it. -/
theorem Remembers.stepped (hm : w.Remembers directions)
    (hbefore : before = w.updated q.deltas ∨ (w.updated q.deltas).Rebuilt before)
    (hl : before.Linked) (hw : before.store.Weighed) :
    ∃ after, (before.stepped q).Remembers after := by
  rcases hm.prepared hbefore with ⟨prepared, hprepared⟩
  have hadvanced : ∃ after, (before.advanced q.dt).Remembers after := by
    unfold advanced
    split
    · exact ⟨_, hl.remembers_moved hw hprepared q.dt⟩
    · exact ⟨prepared, hprepared⟩
  rcases hadvanced with ⟨after, hafter⟩
  exact ⟨after, hafter.of_memory rfl⟩

/-- A step whose deltas are all applied tells where the particles of a proxy are, or no delta was for
the proxy and its particles are where they were. -/
theorem step_spec [LawfulZero S] [LawfulRest S] {R : Roster} (hi : w.Inv) (hr : w.Holds R)
    (hvalid : R.Valid) (ha : R.AcceptsAll q.deltas) (hm : w.Remembers directions)
    (hbefore : before = w.updated q.deltas ∨ (w.updated q.deltas).Rebuilt before)
    (hl : before.Linked) (hw : before.store.Weighed) (hafter : before.Holds (R.afterAll q.deltas))
    (dropped : Nat) {proxy : ProxyId} {x : Held} {handles : List ParticleHandle}
    (hx : R.afterAll q.deltas proxy = some x) (hhandles : x.members? = some handles) :
    (∃ velocities, (before.answer q dropped).Tells proxy (.particles
      (handles.map fun k => ((before.stepped q).store.slot k.index).position).toArray
      velocities)) ∨
    (before.answer q dropped).Silent proxy ∧ (∀ d ∈ q.deltas, d.proxy ≠ proxy) ∧
      (R proxy = some x → ∀ k ∈ handles, (w.store.slot k.index).position.Coincide
        ((before.stepped q).store.slot k.index).position) := by
  have howned : x.owned = handles := by
    unfold Held.owned
    rw [hhandles]
    rfl
  have hmembers : before.members[proxy]? = some handles := by
    rw [hafter.members, hx]
    exact hhandles
  have hnone : ∀ {A B : Type} {record : Option A} {view : A → B} {held : Held → Option B},
      record.map view = (R.afterAll q.deltas proxy).bind held → held x = none →
      record = none := by
    intro A B record view held hrecord hheld
    rw [hx, Option.bind_some, hheld] at hrecord
    exact Option.map_eq_none_iff.mp hrecord
  have hjoint : before.joints[proxy]? = none := by
    refine hnone (hafter.joints proxy) ?_
    cases x with
    | joint => cases hhandles
    | _ => rfl
  have hsuspension : before.suspensions[proxy]? = none := by
    refine hnone (hafter.suspensions proxy) ?_
    cases x with
    | suspension => cases hhandles
    | _ => rfl
  have hcontains : ∀ k ∈ handles, before.store.contains k = true := by
    intro k hk
    exact (hafter.particles k).mpr ⟨proxy, x, hx, howned.symm ▸ hk⟩
  have hsame : before.touched = (w.updated q.deltas).touched ∧
      before.store = (w.updated q.deltas).store := by
    rcases hbefore with rfl | hrebuilt
    · exact ⟨rfl, rfl⟩
    · exact ⟨hrebuilt.notes.2.1, hrebuilt.store⟩
  rcases hm.prepared hbefore with ⟨prepared, hprepared⟩
  rcases answer_spec hl hw hprepared q dropped hmembers hjoint hsuspension hcontains with
    htells | ⟨hsilent, huntouched, hstill⟩
  · exact .inl htells
  · have hothers : ∀ d ∈ q.deltas, d.proxy ≠ proxy := by
      rintro d hd hproxy
      have hunmarked : Holds { w with touched := ∅ } R :=
        ⟨hr.members, hr.clusters, hr.joints, hr.suspensions, hr.particles, hr.owner⟩
      have htouched := (hunmarked.touched_applyDeltas hvalid (hi.withNotes _ _ _) ha proxy).mpr
        (.inr ⟨d, hd, hproxy⟩)
      rw [hsame.1] at huntouched
      unfold updated at huntouched
      rw [htouched] at huntouched
      cases huntouched
    refine .inr ⟨hsilent, hothers, ?_⟩
    intro hheld k hk
    -- the deltas have left the particle as it was
    have hslot := slot_updated hi (Roster.inRange_of_acceptsAll ha) hothers
      (ParticleStore.contains_iff.mp ((hr.particles k).mpr ⟨proxy, x, hheld, howned.symm ▸ hk⟩)).1
      (hr.owner proxy x hheld k (howned.symm ▸ hk))
    rw [← hslot, ← hsame.2]
    exact hstill k hk

end World

end TetheredParticles
