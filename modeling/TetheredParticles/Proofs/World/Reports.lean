import TetheredParticles.Proofs.World.Answers
import TetheredParticles.Proofs.World.Containment
/-!
# Which proxies a step reports

A step reports every proxy that a delta was applied to, as long as it is known once the topology is up to
date. A step that moves also reports all constraints, and whoever has a particle that forces can move or
that has moved. The marks of particles add nothing to that: only a delta that is applied to a proxy marks
its particles, and the marks are gone after every step.

* `World.Addressed`, `World.Tenancy.touched_updated` — the proxies that deltas were applied to.
* `World.Noted`, `World.Rested.noted` — marked particles belong to such proxies.
* `World.mem_results_iff`, `World.ascending_results` — the results of a step, in order.
* `World.step_reported` — what is reported, for every world and every snapshot.
-/

namespace TetheredParticles

variable {S T : Type} [Scalar S] [Scalar T] [Timeline S T]

namespace World

/-! ## Deltas that are applied -/

/-- One of some deltas is addressed to a proxy and is applied, the ones before it having been dealt
with. -/
def Addressed (w : World S) (deltas : List (Delta S)) (proxy : ProxyId) : Prop :=
  ∃ earlier delta later, deltas = earlier ++ delta :: later ∧ delta.proxy = proxy ∧
    ((w.updated earlier).applyDelta delta).1 = true

variable {w after : World S} {proxy : ProxyId}

omit [Scalar T] [Timeline S T] in
theorem updated_concat (w : World S) (deltas : List (Delta S)) (delta : Delta S) :
    w.updated (deltas ++ [delta]) = ((w.updated deltas).applyDelta delta).2 := by
  unfold updated applyDeltas
  rw [List.foldl_append, List.foldl_cons, List.foldl_nil]
  dsimp only
  generalize World.applyDelta _ delta = result
  rcases result with ⟨applied, after⟩
  cases applied <;> rfl

theorem addressed_concat {deltas : List (Delta S)} {delta : Delta S} :
    w.Addressed (deltas ++ [delta]) proxy ↔ w.Addressed deltas proxy ∨
      delta.proxy = proxy ∧ ((w.updated deltas).applyDelta delta).1 = true := by
  constructor
  · rintro ⟨earlier, d, later, hsplit, hproxy, happlied⟩
    rcases later.eq_nil_or_concat with rfl | ⟨rest, last, rfl⟩
    · rcases List.append_inj' hsplit rfl with ⟨rfl, hlast⟩
      cases hlast
      exact .inr ⟨hproxy, happlied⟩
    · rw [List.concat_eq_append, ← List.cons_append, ← List.append_assoc] at hsplit
      rcases List.append_inj' hsplit rfl with ⟨rfl, _⟩
      exact .inl ⟨earlier, d, rest, rfl, hproxy, happlied⟩
  · rintro (⟨earlier, d, later, rfl, hproxy, happlied⟩ | ⟨hproxy, happlied⟩)
    · exact ⟨earlier, d, later ++ [delta], by simp, hproxy, happlied⟩
    · exact ⟨deltas, delta, [], rfl, hproxy, happlied⟩

theorem not_addressed_nil : ¬ w.Addressed [] proxy := by
  rintro ⟨earlier, d, later, hsplit, _⟩
  simp at hsplit

/-- A delta leaves a note if it is applied, and no note is lost. -/
theorem Tenancy.contains_touched_applyDelta (ht : w.Tenancy) (delta : Delta S) (proxy : ProxyId) :
    (w.applyDelta delta).2.touched.contains proxy = true ↔
      w.touched.contains proxy = true ∨ delta.proxy = proxy ∧ (w.applyDelta delta).1 = true := by
  cases happlied : (w.applyDelta delta).1 with
  | false =>
    rw [(unharmed_of_rejected happlied).touched]
    simp
  | true =>
    rw [touched_applyDelta ht.owned happlied, Std.TreeSet.contains_insert, Bool.or_eq_true, beq_iff_eq,
      Std.LawfulEqCmp.compare_eq_iff_eq]
    simp [or_comm]

/-- The proxies that deltas were applied to are noted, and no others. -/
theorem Tenancy.touched_updated [LawfulSign S] (ht : w.Tenancy) (deltas : List (Delta S))
    (proxy : ProxyId) : (w.updated deltas).touched.contains proxy = true ↔ w.Addressed deltas proxy := by
  -- from the end, because all deltas before one decide if it is applied
  induction deltas using List.reverseRecOn with
  | nil =>
    refine iff_of_false (fun h => ?_) not_addressed_nil
    cases h
  | append_singleton deltas delta ih =>
    have htenancy : (w.updated deltas).Tenancy := (ht.mark ∅).applyDeltas deltas
    rw [updated_concat, htenancy.contains_touched_applyDelta, ih, addressed_concat]

/-! ## Marked particles -/

/-- Every particle that is marked as written to belongs to a proxy that is noted. -/
def Noted (w : World S) : Prop :=
  ∀ (i : Nat) (owner : ProxyId), (w.store.slot i).flags.dirty = true →
    (w.store.slot i).owner = some owner → w.touched.contains owner = true

/-- A delta marks the particles of its own proxy only, and only if it is applied. -/
theorem Noted.applyDelta (h : w.Noted) (ht : w.Tenancy) (delta : Delta S) :
    (w.applyDelta delta).2.Noted := by
  intro i owner hdirty howner
  rw [ht.contains_touched_applyDelta]
  cases happlied : (w.applyDelta delta).1 with
  | false =>
    rw [(unharmed_of_rejected happlied).store] at hdirty howner
    exact .inl (h i owner hdirty howner)
  | true =>
    by_cases hproxy : delta.proxy = owner
    · exact .inr ⟨hproxy, rfl⟩
    · -- the particles of others are what they were, marks included
      have hsame := (ht.spared_applyDelta delta).slots i owner (Ne.symm hproxy) (.inr howner)
      rw [hsame] at hdirty howner
      exact .inl (h i owner hdirty howner)

/-- At rest no particle is marked, so that only the deltas of a step mark particles. -/
theorem Rested.noted [LawfulSign S] (h : w.Rested) (deltas : List (Delta S)) :
    (w.updated deltas).Noted ∧ (w.updated deltas).Tenancy := by
  induction deltas using List.reverseRecOn with
  | nil =>
    refine ⟨fun i owner hdirty _ => ?_, h.tenancy.mark ∅⟩
    have hclean : (w.store.slot i).flags.dirty = false := (h.quiet i).dirty
    exact absurd (hclean.symm.trans hdirty) Bool.false_ne_true
  | append_singleton deltas delta ih =>
    rw [updated_concat]
    refine ⟨ih.1.applyDelta ih.2 delta, ?_⟩
    rw [← updated_concat]
    exact (h.tenancy.mark ∅).applyDeltas _

/-! ## Stages of a step -/

theorem touched_of_rebuild (h : w.rebuild = .ok after) : after.touched = w.touched := by
  unfold rebuild at h
  rcases exists_of_bind_ok h with ⟨laid, hlaid, h⟩
  rcases exists_of_bind_ok h with ⟨partition, _, h⟩
  rcases clusters_of_layTethers hlaid with ⟨clusters, rfl, _⟩
  cases h
  rfl

/-- Nothing has changed but where particles are, how they move and which forces act. -/
structure Shifted (w after : World S) : Prop where
  store : w.store.Drifted after.store
  members : after.members = w.members
  clusters : after.clusters = w.clusters
  joints : after.joints = w.joints
  suspensions : after.suspensions = w.suspensions
  touched : after.touched = w.touched

theorem shifted_of_move {dt : S} (h : w.move dt = .ok after) : w.Shifted after := by
  rcases drifted_of_move h with ⟨hstore, hmembers, hclusters, hjoints, hsuspensions, _⟩
  refine ⟨hstore, hmembers, hclusters, hjoints, hsuspensions, ?_⟩
  unfold move at h
  rcases exists_of_bind_ok h with ⟨workspaces, _, h⟩
  cases h
  rfl

theorem Shifted.tenancy (h : w.Shifted after) (ht : w.Tenancy) : after.Tenancy :=
  ht.drifted h.store h.members h.clusters h.joints h.suspensions

/-- Particles that only move stay marked or unmarked. -/
theorem Shifted.noted (h : w.Shifted after) (hn : w.Noted) : after.Noted := by
  intro i owner hdirty howner
  rw [h.store.slot i] at hdirty howner
  rw [h.touched]
  exact hn i owner hdirty howner

/-- A step that ends has applied its deltas, has moved what it left if at all, and reports that. -/
theorem exists_of_step {snapshot : PushSnapshot S T} {outcome : StepOutcome S T}
    (hs : w.step snapshot = .ok outcome) :
    ∃ dropped before after, w.prepare snapshot.deltas = .ok (dropped, before) ∧
      before.Shifted after ∧ outcome.pull.results = after.results (decide (0 < snapshot.dt)) ∧
      outcome.storeAfter = after.store ∧
      outcome.world = { after with store := after.store.clearStepData, latest := snapshot.timestamp } := by
  unfold World.step at hs
  rcases exists_of_bind_ok hs with ⟨⟨dropped, before⟩, hprepare, hs⟩
  dsimp only at hs
  split at hs
  case isTrue =>
    rcases exists_of_bind_ok hs with ⟨after, hmove, hs⟩
    cases hs
    exact ⟨dropped, before, after, hprepare, shifted_of_move hmove, rfl, rfl, rfl⟩
  case isFalse =>
    cases hs
    exact ⟨dropped, before, before, hprepare, ⟨.refl _, rfl, rfl, rfl, rfl, rfl⟩, rfl, rfl, rfl⟩

/-- Before a step moves, the marked particles belong to noted proxies, and these are the ones that deltas
were applied to. -/
theorem Rested.prepared [LawfulSign S] (h : w.Rested) {deltas : List (Delta S)} {dropped : Nat}
    {before : World S} (hprepare : w.prepare deltas = .ok (dropped, before)) :
    before.Tenancy ∧ before.Noted ∧
      ∀ proxy, before.touched.contains proxy = true ↔ w.Addressed deltas proxy := by
  unfold prepare at hprepare
  rcases exists_of_bind_ok hprepare with ⟨refreshed, hrefresh, hprepare⟩
  cases hprepare
  replace hrefresh : (w.updated deltas).refresh = .ok before := hrefresh
  rcases h.noted deltas with ⟨hnoted, htenancy⟩
  unfold refresh at hrefresh
  split at hrefresh
  case isTrue =>
    have hrelaid := relaid_of_rebuild hrefresh
    have htouched := touched_of_rebuild hrefresh
    refine ⟨htenancy.relaid hrelaid, fun i owner => ?_, fun proxy => ?_⟩
    · rw [hrelaid.store, htouched]
      exact hnoted i owner
    · rw [htouched, h.tenancy.touched_updated]
  case isFalse =>
    cases hrefresh
    exact ⟨htenancy, hnoted, h.tenancy.touched_updated deltas⟩

/-! ## Results -/

end World

/-- Forces can move a particle, or it has a velocity. -/
def ParticleSlot.Stirred (s : ParticleSlot S) : Prop :=
  s.flags.kinematic = false ∨ (s.velocity == 0) = false

namespace World

variable {w : World S} {handles : List ParticleHandle}

omit [Scalar T] [Timeline S T] in
theorem changed_iff {h : ParticleHandle} {moved : Bool} :
    w.changed moved h = true ↔ w.store.contains h = true ∧
      ((w.store.slot h.index).flags.dirty = true ∨ moved = true ∧ (w.store.slot h.index).Stirred) := by
  unfold changed ParticleStore.get? ParticleSlot.Stirred
  cases w.store.contains h with
  | false => simp
  | true =>
    simp only [if_true, Bool.or_eq_true, Bool.and_eq_true, Bool.not_eq_true', true_and]
    tauto

/-- A proxy lists each of its particles by a handle that is not out of date. -/
theorem Tenancy.exists_contains (ht : w.Tenancy) {proxy : ProxyId}
    (hm : w.members[proxy]? = some handles) {h : ParticleHandle} (hh : h ∈ handles) :
    ∃ k ∈ handles, k.index = h.index ∧ w.store.contains k = true := by
  rcases ht.owned proxy handles hm h hh with ⟨halive, howner⟩
  rcases ht.listed h.index halive with ⟨owner, howner', listed, hlisted, k, hk, hindex, hcontains⟩
  cases howner.symm.trans howner'
  cases hm.symm.trans hlisted
  exact ⟨k, hk, hindex, hcontains⟩

/-- The marks of particles decide nothing, where marked particles belong to noted proxies. -/
theorem tells_iff (ht : w.Tenancy) (hn : w.Noted) {proxy : ProxyId}
    (hm : w.members[proxy]? = some handles) (moved : Bool) :
    w.tells moved proxy handles = true ↔ w.touched.contains proxy = true ∨
      moved = true ∧ ∃ h ∈ handles, (w.store.slot h.index).Stirred := by
  unfold tells
  rw [Bool.or_eq_true, List.any_eq_true]
  simp only [changed_iff]
  constructor
  · rintro (htouched | ⟨h, hh, _, hdirty | ⟨hmoved, hstirred⟩⟩)
    · exact .inl htouched
    · exact .inl (hn h.index proxy hdirty (ht.owned proxy handles hm h hh).2)
    · exact .inr ⟨hmoved, h, hh, hstirred⟩
  · rintro (htouched | ⟨hmoved, h, hh, hstirred⟩)
    · exact .inl htouched
    · rcases ht.exists_contains hm hh with ⟨k, hk, hindex, hcontains⟩
      exact .inr ⟨k, hk, hcontains, .inr ⟨hmoved, hindex ▸ hstirred⟩⟩

/-- The results are those of particles and clusters that the step tells about, and those of
constraints. -/
theorem mem_results_iff (w : World S) (moved : Bool) (r : ProxyResult S) :
    r ∈ w.results moved ↔
      (∃ handles, w.members[r.proxy]? = some handles ∧ w.tells moved r.proxy handles = true ∧
        r = w.particleResult r.proxy handles) ∨
      (r.proxy ∈ w.joints ∨ r.proxy ∈ w.suspensions) ∧
        (moved = true ∨ w.touched.contains r.proxy = true) ∧ r = w.constraintResult r.proxy := by
  unfold results
  rw [List.mem_mergeSort, List.mem_append, List.mem_map, List.mem_map]
  refine or_congr ?_ ?_
  · constructor
    · rintro ⟨⟨proxy, handles⟩, hmem, rfl⟩
      rcases List.mem_filter.mp hmem with ⟨hlisted, htells⟩
      exact ⟨handles, Std.TreeMap.mem_toList_iff_getElem?_eq_some.mp hlisted, htells, rfl⟩
    · rintro ⟨handles, hm, htells, heq⟩
      refine ⟨(r.proxy, handles), List.mem_filter.mpr ⟨?_, htells⟩, heq.symm⟩
      exact Std.TreeMap.mem_toList_iff_getElem?_eq_some.mpr hm
  · have hkeys : ∀ proxy : ProxyId, proxy ∈ w.joints.keys ++ w.suspensions.keys ↔
        proxy ∈ w.joints ∨ proxy ∈ w.suspensions := fun proxy => by
      rw [List.mem_append, Std.TreeMap.mem_keys, Std.TreeMap.mem_keys]
    constructor
    · rintro ⟨proxy, hmem, rfl⟩
      rcases List.mem_filter.mp hmem with ⟨hkey, htells⟩
      exact ⟨(hkeys proxy).mp hkey, Bool.or_eq_true_iff.mp htells, rfl⟩
    · rintro ⟨hkey, htells, heq⟩
      refine ⟨r.proxy, List.mem_filter.mpr ⟨(hkeys _).mpr hkey, ?_⟩, heq.symm⟩
      exact Bool.or_eq_true_iff.mpr htells

/-- Who has a result. -/
theorem exists_result_iff (ht : w.Tenancy) (hn : w.Noted) (moved : Bool) (proxy : ProxyId) :
    (∃ r ∈ w.results moved, r.proxy = proxy) ↔
      (proxy ∈ w.joints ∨ proxy ∈ w.suspensions) ∧
        (moved = true ∨ w.touched.contains proxy = true) ∨
      ∃ handles, w.members[proxy]? = some handles ∧ (w.touched.contains proxy = true ∨
        moved = true ∧ ∃ h ∈ handles, (w.store.slot h.index).Stirred) := by
  constructor
  · rintro ⟨r, hr, rfl⟩
    rcases (mem_results_iff w moved r).mp hr with ⟨handles, hm, htells, _⟩ | ⟨hkey, htells, _⟩
    · exact .inr ⟨handles, hm, (tells_iff ht hn hm moved).mp htells⟩
    · exact .inl ⟨hkey, htells⟩
  · rintro (⟨hkey, htells⟩ | ⟨handles, hm, htells⟩)
    · refine ⟨w.constraintResult proxy, (mem_results_iff w moved _).mpr (.inr ?_), rfl⟩
      exact ⟨hkey, htells, rfl⟩
    · refine ⟨w.particleResult proxy handles, (mem_results_iff w moved _).mpr (.inl ?_), rfl⟩
      exact ⟨handles, hm, (tells_iff ht hn hm moved).mpr htells, rfl⟩

omit [Scalar S] in
/-- Proxies are of one kind, so that none is listed twice. -/
theorem Unmixed.nodup_proxies (h : w.Unmixed) :
    (w.members.keys ++ (w.joints.keys ++ w.suspensions.keys)).Nodup := by
  have hkeys : ∀ {V : Type} (m : Std.TreeMap ProxyId V), m.keys.Nodup := fun m =>
    m.distinct_keys.imp fun hne heq => hne (Std.LawfulEqCmp.compare_eq_iff_eq.mpr heq)
  have hcontains : ∀ {V : Type} {m : Std.TreeMap ProxyId V} {proxy : ProxyId},
      proxy ∈ m.keys → m.contains proxy = true := fun hmem =>
    Std.TreeMap.contains_iff_mem.mpr (Std.TreeMap.mem_keys.mp hmem)
  refine List.nodup_append.mpr ⟨hkeys _, List.nodup_append.mpr ⟨hkeys _, hkeys _, ?_⟩, ?_⟩
  · intro first hjoint second hsuspension heq
    subst heq
    exact Bool.false_ne_true ((h.joints _ (hcontains hjoint)).2.symm.trans (hcontains hsuspension))
  · intro first hmember second hconstraint heq
    subst heq
    rcases List.mem_append.mp hconstraint with hjoint | hsuspension
    · have hnot := (h.joints _ (hcontains hjoint)).1
      exact Bool.false_ne_true (hnot.symm.trans (hcontains hmember))
    · have hnot := h.suspensions _ (hcontains hsuspension)
      exact Bool.false_ne_true (hnot.symm.trans (hcontains hmember))

/-- Each proxy is reported once, and in order. -/
theorem ascending_results (h : w.Unmixed) (moved : Bool) :
    (w.results moved).Pairwise fun a b => compare a.proxy b.proxy = .lt := by
  -- sorting puts results in order, and no two of them are of one proxy
  unfold results
  dsimp only
  generalize hall : List.map _ (w.members.toList.filter _) ++ List.map _ _ = all
  have hnodup : (all.map (·.proxy)).Nodup := by
    refine h.nodup_proxies.sublist ?_
    rw [← hall, List.map_append, List.map_map, List.map_map]
    refine List.Sublist.append ?_ ?_
    · rw [← Std.TreeMap.map_fst_toList_eq_keys]
      exact List.filter_sublist.map _
    · show (List.map id _).Sublist _
      rw [List.map_id]
      exact List.filter_sublist
  have hdistinct : (all.mergeSort fun a b => (compare a.proxy b.proxy).isLE).Pairwise
      fun a b => a.proxy ≠ b.proxy :=
    List.pairwise_map.mp (((List.mergeSort_perm all _).map _).nodup_iff.mpr hnodup)
  have hsorted : (all.mergeSort fun a b => (compare a.proxy b.proxy).isLE).Pairwise
      fun a b => (compare a.proxy b.proxy).isLE = true := by
    refine List.pairwise_mergeSort (fun _ _ _ => Std.TransCmp.isLE_trans) (fun a b => ?_) all
    rw [Std.OrientedOrd.eq_swap (a := b.proxy)]
    cases compare a.proxy b.proxy <;> rfl
  refine (hsorted.and hdistinct).imp fun {a b} hab => ?_
  cases hcompare : compare a.proxy b.proxy with
  | lt => rfl
  | eq => exact absurd (Std.LawfulEqCmp.compare_eq_iff_eq.mp hcompare) hab.2
  | gt =>
    rw [hcompare] at hab
    cases hab.1

/-! ## Reports -/

/-- What a step reports, given the world that its deltas have led to: in order of proxies, who is known
there and was written to, and if the step moves also all constraints and whoever is stirred. -/
structure Reported (w : World S) (snapshot : PushSnapshot S T) (before : World S)
    (outcome : StepOutcome S T) : Prop where
  ascending : outcome.pull.results.Pairwise fun a b => compare a.proxy b.proxy = .lt
  /-- A result is that of a particle or cluster, with the position of each particle after the step, or
  that of a constraint. -/
  entries : ∀ r ∈ outcome.pull.results,
    (∃ handles, before.members[r.proxy]? = some handles ∧ r.data = .particles
      (handles.map fun h => (outcome.world.store.slot h.index).position).toArray
      (handles.map fun h => (outcome.storeAfter.slot h.index).velocity).toArray) ∨
    (r.proxy ∈ before.joints ∨ r.proxy ∈ before.suspensions) ∧ ∃ force, r.data = .constraint force
  moving : 0 < snapshot.dt → ∀ proxy, (∃ r ∈ outcome.pull.results, r.proxy = proxy) ↔
    (proxy ∈ before.joints ∨ proxy ∈ before.suspensions) ∨
    ∃ handles, before.members[proxy]? = some handles ∧
      (w.Addressed snapshot.deltas proxy ∨
        ∃ h ∈ handles, (outcome.storeAfter.slot h.index).Stirred)
  paused : ¬ 0 < snapshot.dt → ∀ proxy, (∃ r ∈ outcome.pull.results, r.proxy = proxy) ↔
    before.knows proxy = true ∧ w.Addressed snapshot.deltas proxy
  /-- The step itself makes no proxy known and forgets none. -/
  known : ∀ proxy, outcome.world.knows proxy = before.knows proxy
  /-- Handles that are listed lead to living particles of the proxy. -/
  living : ∀ proxy handles, before.members[proxy]? = some handles → ∀ h ∈ handles,
    outcome.storeAfter.isAlive h.index = true ∧ (outcome.storeAfter.slot h.index).owner = some proxy

omit [Scalar S] in
theorem knows_iff {w : World S} {proxy : ProxyId} : w.knows proxy = true ↔
    (proxy ∈ w.joints ∨ proxy ∈ w.suspensions) ∨ ∃ handles, w.members[proxy]? = some handles := by
  unfold knows
  rw [Bool.or_eq_true, Bool.or_eq_true, Std.TreeMap.contains_iff_mem, Std.TreeMap.contains_iff_mem,
    Std.TreeMap.contains_iff_mem, Std.TreeMap.mem_iff_isSome_getElem? (t := w.members),
    Option.isSome_iff_exists]
  tauto

theorem Rested.reported [LawfulSign S] (h : w.Rested) {snapshot : PushSnapshot S T}
    {outcome : StepOutcome S T} (hs : w.step snapshot = .ok outcome) :
    ∃ dropped before, w.prepare snapshot.deltas = .ok (dropped, before) ∧
      Reported w snapshot before outcome := by
  rcases exists_of_step hs with ⟨dropped, before, after, hprepare, hshifted, hresults, hstore, hworld⟩
  rcases h.prepared hprepare with ⟨htenancy, hnoted, htouched⟩
  refine ⟨dropped, before, hprepare, ?_⟩
  have hposition : ∀ i, (outcome.world.store.slot i).position = (after.store.slot i).position := by
    intro i
    rw [hworld]
    dsimp only
    rw [ParticleStore.slot_clearStepData]
    rfl
  -- moving the islands has changed no record, so that only what the deltas touched is told of
  have hreported := exists_result_iff (hshifted.tenancy htenancy) (hshifted.noted hnoted)
    (decide (0 < snapshot.dt))
  rw [← hresults, ← hstore, hshifted.members, hshifted.joints, hshifted.suspensions,
    hshifted.touched] at hreported
  simp only [htouched, decide_eq_true_eq] at hreported
  constructor
  · rw [hresults]
    exact ascending_results (hshifted.tenancy htenancy).unmixed _
  · intro r hr
    rw [hresults, mem_results_iff, hshifted.members, hshifted.joints, hshifted.suspensions] at hr
    rcases hr with ⟨handles, hm, _, heq⟩ | ⟨hconstraint, _, heq⟩
    · refine .inl ⟨handles, hm, ?_⟩
      simp only [hposition, hstore]
      exact congrArg ProxyResult.data heq
    · exact .inr ⟨hconstraint, after.forces.getD r.proxy 0, congrArg ProxyResult.data heq⟩
  · intro hdt proxy
    rw [hreported]
    simp only [hdt, true_or, and_true, true_and]
  · intro hdt proxy
    rw [hreported, knows_iff]
    simp only [hdt, false_or, false_and, or_false]
    tauto
  · intro proxy
    unfold knows
    rw [hworld]
    dsimp only
    rw [hshifted.members, hshifted.joints, hshifted.suspensions]
  · rw [hstore, ← hshifted.members]
    exact (hshifted.tenancy htenancy).owned

/-- Whatever a world was asked before, and whatever a snapshot holds, a step that ends reports what it has
to; and no step fails if the snapshots are admissible. -/
theorem step_reported [LawfulSign S] [LawfulDirections S] {config : Config S}
    {actions : List (Action S T)} {w : World S} (hrun : (empty config).run actions = .ok w)
    (snapshot : PushSnapshot S T) :
    (∀ outcome, w.step snapshot = .ok outcome →
      ∃ dropped before, w.prepare snapshot.deltas = .ok (dropped, before) ∧
        Reported w snapshot before outcome) ∧
    ((∀ s, .step s ∈ actions → s.Admissible) → snapshot.Admissible →
      ∃ outcome, w.step snapshot = .ok outcome) := by
  constructor
  · intro outcome hs
    exact ((Rested.empty config).run hrun).1.reported hs
  · intro ha hsnapshot
    rcases (grown_of_run ha hrun).step hsnapshot with ⟨outcome, hs, _⟩
    exact ⟨outcome, hs⟩

/-- Among the proxies that move in and out, those that are left are reported. -/
theorem moveOut_reported :
    ∃ (w : World Float32) (outcome : StepOutcome Float32 Float) (dropped : Nat) (before : World Float32),
      (empty .standard).run [.step crowd] = .ok w ∧ w.step moveOut = .ok outcome ∧
      w.prepare moveOut.deltas = .ok (dropped, before) ∧ Reported w moveOut before outcome := by
  have hadmissible : ∀ s : PushSnapshot Float32 Float,
      .step s ∈ ([.step crowd] : List (Action Float32 Float)) → s.Admissible := by
    intro s hs
    cases List.mem_singleton.mp hs
    exact crowd_admissible
  rcases (Grown.empty .standard).run hadmissible with ⟨w, hrun, _⟩
  rcases step_reported hrun moveOut with ⟨hreported, hends⟩
  rcases hends hadmissible moveOut_admissible with ⟨outcome, hs⟩
  rcases hreported outcome hs with ⟨dropped, before, hprepare, hreport⟩
  exact ⟨w, outcome, dropped, before, hrun, hs, hprepare, hreport⟩

end World

end TetheredParticles
