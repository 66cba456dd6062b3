import TetheredParticles.Proofs.World.Distinct
/-!
# Worlds that match

Two worlds can hold the same particles and constraints and still differ: in how the tethers of a
cluster are laid, in the forces they remember, in whether their topology is marked as dirty, and in
how their maps are built. Whatever is asked of both worlds, it is granted by both or by none, and
they still match.

* `World.Matched` — the relation, given how clusters and forces may differ.
* `World.Matched.applyCommand`, `World.Matched.updated` — writes.
* `World.Matched.results` — what both worlds tell.
-/

namespace TetheredParticles

variable {S : Type}

/-- A relation that a new cluster has with itself, and that holds whatever the stiffness is. -/
structure Cluster.Congruence (C : Cluster S → Cluster S → Prop) : Prop where
  fresh : ∀ c : Cluster S, c.tethers = [] → C c c
  stiffness : ∀ (c d : Cluster S) (stiffness : S), C c d →
    C { c with stiffness } { d with stiffness }

theorem Cluster.Congruence.eq : Cluster.Congruence (S := S) Eq where
  fresh _ _ := rfl
  stiffness _ _ _ h := by rw [h]

theorem rel_map {A B C D : Type} {R : A → B → Prop} {Q : C → D → Prop} {f : A → C} {g : B → D}
    {a : Option A} {b : Option B} (h : Option.Rel R a b) (hfg : ∀ a b, R a b → Q (f a) (g b)) :
    Option.Rel Q (a.map f) (b.map g) := by
  cases h with
  | none => exact .none
  | some hab => exact .some (hfg _ _ hab)

theorem rel_eq_iff {A : Type} {a b : Option A} : Option.Rel Eq a b ↔ a = b := by
  constructor
  · intro h
    cases h with
    | none => rfl
    | some hab => rw [hab]
  · rintro rfl
    cases a with
    | none => exact .none
    | some a => exact .some rfl

/-- The same data, up to a relation between forces. -/
inductive ResultData.Rel (F : Vec3 S → Vec3 S → Prop) : ResultData S → ResultData S → Prop where
  | particles (positions velocities : Array (Vec3 S)) :
    Rel F (.particles positions velocities) (.particles positions velocities)
  | constraint {force other : Vec3 S} (h : F force other) :
    Rel F (.constraint force) (.constraint other)

/-- Results of one proxy that are the same, up to a relation between forces. -/
structure ProxyResult.Rel (F : Vec3 S → Vec3 S → Prop) (a b : ProxyResult S) : Prop where
  proxy : b.proxy = a.proxy
  data : a.data.Rel F b.data

theorem ProxyResult.Rel.eq {a b : ProxyResult S} (h : a.Rel Eq b) : a = b := by
  rcases a with ⟨p, x⟩
  rcases b with ⟨q, y⟩
  rcases h with ⟨hproxy, hdata⟩
  dsimp only at hproxy hdata
  subst hproxy
  cases hdata with
  | particles positions velocities => rfl
  | constraint heq => rw [heq]

/-- Related lists that are sorted by what related elements have in common are still related. -/
theorem forall₂_mergeSort {A B : Type} {R : A → B → Prop} {le : A → A → Bool} {le' : B → B → Bool}
    {as : List A} {bs : List B} (h : List.Forall₂ R as bs)
    (hle : ∀ a b c d, R a b → R c d → le a c = le' b d) :
    List.Forall₂ R (as.mergeSort le) (bs.mergeSort le') := by
  -- sort the pairs
  obtain ⟨pairs, rfl, rfl, hpairs⟩ : ∃ pairs : List (A × B), pairs.map (·.1) = as ∧
      pairs.map (·.2) = bs ∧ ∀ x ∈ pairs, R x.1 x.2 := by
    induction h with
    | nil => exact ⟨[], rfl, rfl, fun x hx => absurd hx List.not_mem_nil⟩
    | @cons a b as bs hab _ ih =>
      rcases ih with ⟨pairs, rfl, rfl, hpairs⟩
      exact ⟨(a, b) :: pairs, rfl, rfl, List.forall_mem_cons.mpr ⟨hab, hpairs⟩⟩
  have hfirst := List.map_mergeSort (r := fun x y : A × B => le x.1 y.1) (s := le)
    (f := (·.1)) (l := pairs) fun _ _ _ _ => rfl
  have hsecond := List.map_mergeSort (r := fun x y : A × B => le x.1 y.1) (s := le')
    (f := (·.2)) (l := pairs) fun x hx y hy => hle _ _ _ _ (hpairs x hx) (hpairs y hy)
  rw [← hfirst, ← hsecond, List.forall₂_map_left_iff, List.forall₂_map_right_iff]
  exact List.forall₂_same.mpr fun x hx => hpairs x (List.mem_mergeSort.mp hx)

namespace World

/-- The same particles and constraints, up to a relation `C` between clusters and a relation `F`
between forces. Only the second world may have been marked as dirty in addition. -/
structure Matched (C : Cluster S → Cluster S → Prop) (F : Vec3 S → Vec3 S → Prop) (marked : Bool)
    (w v : World S) : Prop where
  store : v.store = w.store
  members : v.members = w.members
  clusters : ∀ proxy : ProxyId, Option.Rel C w.clusters[proxy]? v.clusters[proxy]?
  joints : ∀ proxy : ProxyId, v.joints[proxy]? = w.joints[proxy]?
  suspensions : ∀ proxy : ProxyId, v.suspensions[proxy]? = w.suspensions[proxy]?
  forces : ∀ proxy : ProxyId, Option.Rel F w.forces[proxy]? v.forces[proxy]?
  touched : v.touched = w.touched
  dirty : v.topologyDirty = (w.topologyDirty || marked)

/-- Maps with equal lookups have equal lookups once a value is put into both. -/
theorem insert_congr {R : Type} {m n : Std.TreeMap ProxyId R}
    (h : ∀ proxy : ProxyId, n[proxy]? = m[proxy]?) (owner : ProxyId) (r : R) (proxy : ProxyId) :
    (n.insert owner r)[proxy]? = (m.insert owner r)[proxy]? := by
  rw [Maps.getElem?_insert, Maps.getElem?_insert, h]

/-- Maps with equal lookups have equal lookups once a key is taken out of both. -/
theorem erase_congr {R : Type} {m n : Std.TreeMap ProxyId R}
    (h : ∀ proxy : ProxyId, n[proxy]? = m[proxy]?) (owner proxy : ProxyId) :
    (n.erase owner)[proxy]? = (m.erase owner)[proxy]? := by
  rw [Maps.getElem?_erase, Maps.getElem?_erase, h]

/-- Maps that correspond key by key still do once a key is taken out of both. -/
theorem rel_erase {Q R : Type} {P : Q → R → Prop} {m : Std.TreeMap ProxyId Q}
    {n : Std.TreeMap ProxyId R} (h : ∀ proxy : ProxyId, Option.Rel P m[proxy]? n[proxy]?)
    (owner proxy : ProxyId) : Option.Rel P (m.erase owner)[proxy]? (n.erase owner)[proxy]? := by
  rw [Maps.getElem?_erase, Maps.getElem?_erase]
  split
  · exact .none
  · exact h proxy

/-- Maps that correspond key by key still do once corresponding values are put into both. -/
theorem rel_insert {Q R : Type} {P : Q → R → Prop} {m : Std.TreeMap ProxyId Q}
    {n : Std.TreeMap ProxyId R} (h : ∀ proxy : ProxyId, Option.Rel P m[proxy]? n[proxy]?)
    {q : Q} {r : R} (hqr : P q r) (owner proxy : ProxyId) :
    Option.Rel P (m.insert owner q)[proxy]? (n.insert owner r)[proxy]? := by
  rw [Maps.getElem?_insert, Maps.getElem?_insert]
  split
  · exact .some hqr
  · exact h proxy

theorem contains_congr {R : Type} {m n : Std.TreeMap ProxyId R}
    (h : ∀ proxy : ProxyId, n[proxy]? = m[proxy]?) (proxy : ProxyId) :
    n.contains proxy = m.contains proxy := by
  rw [Std.TreeMap.contains_eq_isSome_getElem?, Std.TreeMap.contains_eq_isSome_getElem?, h]

namespace Matched

variable {C : Cluster S → Cluster S → Prop} {F : Vec3 S → Vec3 S → Prop} {marked : Bool}
  {w v : World S} {proxy : ProxyId}

/-! ## Writes -/

theorem mark (h : w.Matched C F marked v) (touched : Std.TreeSet ProxyId) :
    Matched C F marked { w with touched } { v with touched } :=
  ⟨h.store, h.members, h.clusters, h.joints, h.suspensions, h.forces, rfl, h.dirty⟩

/-- What two worlds answer to a write. -/
def Answered (C : Cluster S → Cluster S → Prop) (F : Vec3 S → Vec3 S → Prop) (marked : Bool)
    (a b : Bool × World S) : Prop :=
  b.1 = a.1 ∧ a.2.Matched C F marked b.2

theorem accept (h : w.Matched C F marked v) {a b : Option (World S)}
    (hab : Option.Rel (Matched C F marked) a b) :
    Answered C F marked (w.accept a) (v.accept b) := by
  cases hab with
  | none => exact ⟨rfl, h⟩
  | some hab => exact ⟨rfl, hab⟩

variable [Scalar S]

theorem insertParticles (h : w.Matched C F marked v) (handles : List ParticleHandle)
    (particles : List (Particle S)) :
    Option.Rel (Matched C F marked) (w.insertParticles? proxy handles particles)
      (v.insertParticles? proxy handles particles) := by
  unfold insertParticles?
  rw [h.store, h.members]
  split
  · exact .none
  · exact .some ⟨rfl, rfl, h.clusters, h.joints, h.suspensions, h.forces, h.touched, h.dirty⟩

theorem addParts (hC : Cluster.Congruence C) (h : w.Matched C F marked v)
    (creation : Creation S) :
    Option.Rel (Matched C F marked) (w.addParts? proxy creation) (v.addParts? proxy creation) := by
  cases creation with
  | particle handle particle => exact h.insertParticles _ _
  | cluster handles particles adjacency stiffness =>
    unfold addParts?
    dsimp only
    split
    · refine rel_map (h.insertParticles handles particles) ?_
      intro a b hab
      exact ⟨hab.store, hab.members, rel_insert hab.clusters (hC.fresh _ rfl) proxy, hab.joints,
        hab.suspensions, hab.forces, hab.touched, hab.dirty⟩
    · exact .none
  | joint handle first second restLength compliance =>
    unfold addParts?
    dsimp only
    rw [h.store]
    split
    · exact .some ⟨rfl, h.members, h.clusters, insert_congr h.joints proxy _, h.suspensions,
        h.forces, h.touched, h.dirty⟩
    · exact .none
  | suspension handle particle target restLength compliance =>
    unfold addParts?
    dsimp only
    rw [h.store]
    split
    · exact .some ⟨rfl, h.members, h.clusters, h.joints, insert_congr h.suspensions proxy _,
        h.forces, h.touched, h.dirty⟩
    · exact .none

theorem create (hC : Cluster.Congruence C) (h : w.Matched C F marked v) (creation : Creation S) :
    Option.Rel (Matched C F marked) (w.create? proxy creation) (v.create? proxy creation) := by
  unfold create? knows
  rw [h.members, contains_congr h.joints, contains_congr h.suspensions]
  split
  · exact .none
  · refine rel_map (h.addParts hC creation) ?_
    intro a b hab
    exact ⟨hab.store, hab.members, hab.clusters, hab.joints, hab.suspensions, hab.forces,
      hab.touched, rfl⟩

theorem remove (h : w.Matched C F marked v) (proxy : ProxyId) :
    Option.Rel (Matched C F marked) (w.remove? proxy) (v.remove? proxy) := by
  unfold remove?
  rw [h.store, h.members, contains_congr h.joints, contains_congr h.suspensions]
  split
  · exact .some ⟨rfl, rfl, rel_erase h.clusters proxy, h.joints, h.suspensions, h.forces,
      h.touched, h.dirty⟩
  · split
    · exact .some ⟨rfl, rfl, h.clusters, erase_congr h.joints proxy, h.suspensions, h.forces,
        h.touched, h.dirty⟩
    · split
      · exact .some ⟨rfl, rfl, h.clusters, h.joints, erase_congr h.suspensions proxy, h.forces,
          h.touched, h.dirty⟩
      · exact .none

theorem write (h : w.Matched C F marked v) (particle : ParticleHandle)
    (change : ParticleStore S → Option (ParticleStore S)) :
    Option.Rel (Matched C F marked) (w.writeParticle? proxy particle change)
      (v.writeParticle? proxy particle change) := by
  unfold writeParticle? owns
  rw [h.store]
  split
  · cases change w.store with
    | none => exact .none
    | some store =>
      exact .some ⟨rfl, h.members, h.clusters, h.joints, h.suspensions, h.forces, h.touched,
        h.dirty⟩
  · exact .none

theorem setInverseMass (h : w.Matched C F marked v) (particle : ParticleHandle)
    (inverseMass : S) :
    Option.Rel (Matched C F marked) (w.setInverseMass? proxy particle inverseMass)
      (v.setInverseMass? proxy particle inverseMass) := by
  unfold setInverseMass?
  refine rel_map (h.write particle _) ?_
  intro a b hab
  refine ⟨hab.store, hab.members, hab.clusters, hab.joints, hab.suspensions, hab.forces,
    hab.touched, ?_⟩
  dsimp only
  rw [hab.dirty, hab.store, h.store, Bool.or_right_comm]

theorem setTetherStiffness (hC : Cluster.Congruence C) (h : w.Matched C F marked v)
    (stiffness : S) :
    Option.Rel (Matched C F marked) (w.setTetherStiffness? proxy stiffness)
      (v.setTetherStiffness? proxy stiffness) := by
  unfold setTetherStiffness?
  refine rel_map (h.clusters proxy) ?_
  intro c d hcd
  exact ⟨h.store, h.members, rel_insert h.clusters (hC.stiffness c d _ hcd) proxy, h.joints,
    h.suspensions, h.forces, h.touched, h.dirty⟩

omit [Scalar S] in
theorem setSuspensionTarget (h : w.Matched C F marked v) (handle : ConstraintHandle)
    (target : Vec3 S) :
    Option.Rel (Matched C F marked) (w.setSuspensionTarget? proxy handle target)
      (v.setSuspensionTarget? proxy handle target) := by
  unfold setSuspensionTarget?
  rw [h.suspensions]
  cases w.suspensions[proxy]?.filter _ with
  | none => exact .none
  | some s =>
    exact .some ⟨h.store, h.members, h.clusters, h.joints, insert_congr h.suspensions proxy _,
      h.forces, h.touched, h.dirty⟩

theorem setJointRestLength (h : w.Matched C F marked v) (handle : ConstraintHandle)
    (restLength : S) :
    Option.Rel (Matched C F marked) (w.setJointRestLength? proxy handle restLength)
      (v.setJointRestLength? proxy handle restLength) := by
  unfold setJointRestLength?
  rw [h.joints]
  dsimp only
  cases w.joints[proxy]?.filter _ with
  | none => exact .none
  | some j =>
    exact .some ⟨h.store, h.members, h.clusters, insert_congr h.joints proxy _, h.suspensions,
      h.forces, h.touched, h.dirty⟩

theorem destroy (h : w.Matched C F marked v) (proxy : ProxyId) :
    Answered C F marked (w.destroy proxy) (v.destroy proxy) := by
  have hforces := rel_erase h.forces proxy
  have hremove := h.remove proxy
  unfold World.destroy
  dsimp only
  generalize w.remove? proxy = a at hremove ⊢
  generalize v.remove? proxy = b at hremove ⊢
  cases hremove with
  | none =>
    exact ⟨rfl, h.store, h.members, h.clusters, h.joints, h.suspensions, hforces, h.touched,
      h.dirty⟩
  | some hab =>
    exact ⟨rfl, hab.store, hab.members, hab.clusters, hab.joints, hab.suspensions, hforces,
      hab.touched, rfl⟩

/-! ## Deltas -/

/-- A write is granted by both worlds or by none. -/
theorem applyCommand (hC : Cluster.Congruence C) (h : w.Matched C F marked v) (proxy : ProxyId)
    (command : Command S) :
    Answered C F marked (w.applyCommand proxy command) (v.applyCommand proxy command) := by
  cases command with
  | create creation => exact h.accept (h.create hC creation)
  | destroy => exact h.destroy proxy
  | setPosition particle position => exact h.accept (h.write particle _)
  | setVelocity particle velocity => exact h.accept (h.write particle _)
  | setKinematicTarget particle target => exact h.accept (h.write particle _)
  | addForce particle force => exact h.accept (h.write particle _)
  | setInverseMass particle inverseMass => exact h.accept (h.setInverseMass particle inverseMass)
  | setTetherStiffness stiffness => exact h.accept (h.setTetherStiffness hC stiffness)
  | setSuspensionTarget handle target => exact h.accept (h.setSuspensionTarget handle target)
  | setJointRestLength handle restLength =>
    exact h.accept (h.setJointRestLength handle restLength)

theorem applyDelta (hC : Cluster.Congruence C) (h : w.Matched C F marked v) (delta : Delta S) :
    Answered C F marked (w.applyDelta delta) (v.applyDelta delta) := by
  have hcommand := h.applyCommand hC delta.proxy delta.command
  unfold World.applyDelta
  rcases hw : w.applyCommand delta.proxy delta.command with ⟨a, w'⟩
  rcases hv : v.applyCommand delta.proxy delta.command with ⟨b, v'⟩
  rw [hw, hv] at hcommand
  rcases hcommand with ⟨heq, hafter⟩
  dsimp only at heq
  subst heq
  cases b with
  | true =>
    refine ⟨rfl, ?_⟩
    dsimp only
    rw [hafter.touched]
    exact hafter.mark _
  | false => exact ⟨rfl, hafter⟩

/-- Both worlds drop the same number of deltas. -/
theorem applyDeltas (hC : Cluster.Congruence C) (h : w.Matched C F marked v)
    (deltas : List (Delta S)) :
    (v.applyDeltas deltas).1 = (w.applyDeltas deltas).1 ∧
      (w.applyDeltas deltas).2.Matched C F marked (v.applyDeltas deltas).2 := by
  unfold World.applyDeltas
  generalize 0 = dropped
  induction deltas generalizing w v dropped with
  | nil => exact ⟨rfl, h⟩
  | cons delta rest ih =>
    have hone := h.applyDelta hC delta
    simp only [List.foldl_cons]
    rcases hw : w.applyDelta delta with ⟨a, w'⟩
    rcases hv : v.applyDelta delta with ⟨b, v'⟩
    rw [hw, hv] at hone
    rcases hone with ⟨heq, hafter⟩
    dsimp only at heq
    subst heq
    cases b with
    | true => exact ih hafter dropped
    | false => exact ih hafter (dropped + 1)

theorem updated (hC : Cluster.Congruence C) (h : w.Matched C F marked v)
    (deltas : List (Delta S)) :
    v.droppedOf deltas = w.droppedOf deltas ∧
      (w.updated deltas).Matched C F marked (v.updated deltas) :=
  (h.mark ∅).applyDeltas hC deltas

/-! ## Rebuilding -/

/-- Rebuilding drops the same constraints from both worlds, and marks none of them as dirty. -/
theorem rebuilt {a b : World S} {D : Cluster S → Cluster S → Prop} (h : w.Matched C F marked v)
    (ha : w.Rebuilt a) (hb : v.Rebuilt b)
    (hclusters : ∀ (proxy : ProxyId) (c d c' d' : Cluster S), w.clusters[proxy]? = some c →
      v.clusters[proxy]? = some d → C c d → c.layTethers w.config w.store = .ok c' →
      d.layTethers v.config v.store = .ok d' → D c' d') : a.Matched D F false b where
  store := by rw [ha.store, hb.store, h.store]
  members := by rw [ha.members, hb.members, h.members]
  clusters := by
    intro proxy
    have hrel := h.clusters proxy
    have hnone : ∀ {u after : World S}, u.Rebuilt after → u.clusters[proxy]? = none →
        after.clusters[proxy]? = none := by
      intro u after hr hu
      refine Option.eq_none_iff_forall_ne_some.mpr ?_
      intro e he
      rcases (hr.clusters proxy e).mp he with ⟨c, hc, _⟩
      rw [hu] at hc
      cases hc
    generalize hc : w.clusters[proxy]? = one at hrel
    generalize hd : v.clusters[proxy]? = two at hrel
    cases hrel with
    | none =>
      rw [hnone ha hc, hnone hb hd]
      exact .none
    | @some c d hcd =>
      rcases ha.laid proxy c hc with ⟨c', hc'⟩
      rcases hb.laid proxy d hd with ⟨d', hd'⟩
      rw [(ha.clusters proxy c').mpr ⟨c, hc, hc'⟩, (hb.clusters proxy d').mpr ⟨d, hd, hd'⟩]
      exact .some (hclusters proxy c d c' d' hc hd hcd hc' hd')
  joints := by
    intro proxy
    rw [ha.joints, hb.joints]
    refine Option.ext fun j => ?_
    rw [joints_dropDangling_iff, joints_dropDangling_iff, h.joints, h.store]
  suspensions := by
    intro proxy
    rw [ha.suspensions, hb.suspensions]
    refine Option.ext fun s => ?_
    rw [suspensions_dropDangling_iff, suspensions_dropDangling_iff, h.suspensions, h.store]
  forces := by
    rw [ha.notes.1, hb.notes.1]
    exact h.forces
  touched := by rw [ha.notes.2.1, hb.notes.2.1, h.touched]
  dirty := by rw [ha.clean, hb.clean, Bool.or_false]

/-! ## Answers -/

omit [Scalar S] in
theorem toList_joints (h : w.Matched C F marked v) : v.joints.toList = w.joints.toList :=
  Maps.toList_eq_of_lookups h.joints

omit [Scalar S] in
theorem toList_suspensions (h : w.Matched C F marked v) :
    v.suspensions.toList = w.suspensions.toList :=
  Maps.toList_eq_of_lookups h.suspensions

/-- Both worlds tell of the same proxies, and the same except for forces. -/
theorem results (h : w.Matched C F marked v) (hzero : F 0 0) (moved : Bool) :
    List.Forall₂ (ProxyResult.Rel F) (w.results moved) (v.results moved) := by
  have hchanged : v.changed = w.changed := by
    funext moved particle
    unfold changed
    rw [h.store]
  have hparticles : v.particleResult = w.particleResult := by
    funext proxy handles
    unfold particleResult
    rw [h.store]
  have hkeys : v.joints.keys ++ v.suspensions.keys = w.joints.keys ++ w.suspensions.keys := by
    rw [← Std.TreeMap.map_fst_toList_eq_keys, ← Std.TreeMap.map_fst_toList_eq_keys,
      ← Std.TreeMap.map_fst_toList_eq_keys, ← Std.TreeMap.map_fst_toList_eq_keys, h.toList_joints,
      h.toList_suspensions]
  have hconstraint : ∀ proxy, (w.constraintResult proxy).Rel F (v.constraintResult proxy) := by
    intro proxy
    refine ⟨rfl, ?_⟩
    unfold constraintResult
    rw [Std.TreeMap.getD_eq_getD_getElem?, Std.TreeMap.getD_eq_getD_getElem?]
    have hforces := h.forces proxy
    generalize w.forces[proxy]? = a at hforces ⊢
    generalize v.forces[proxy]? = b at hforces ⊢
    cases hforces with
    | none => exact .constraint hzero
    | some hab => exact .constraint hab
  unfold World.results
  rw [h.members, h.touched, hchanged, hparticles, hkeys]
  -- results are sorted by their proxies, which are the same
  refine forall₂_mergeSort ?_ ?_
  · refine List.rel_append ?_ ?_
    · rw [List.forall₂_map_left_iff, List.forall₂_map_right_iff]
      exact List.forall₂_same.mpr fun x _ => ⟨rfl, .particles _ _⟩
    · rw [List.forall₂_map_left_iff, List.forall₂_map_right_iff]
      exact List.forall₂_same.mpr fun proxy _ => hconstraint proxy
  · intro a b c d hab hcd
    rw [hab.proxy, hcd.proxy]

end Matched

end World

end TetheredParticles
