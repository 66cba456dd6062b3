import TetheredParticles.Proofs.World.Restriction
import TetheredParticles.Proofs.World.Tidy
/-!
# Parts of a world that no constraint leaves

What a set of proxies does in a step can be told from its share of the program of the world, if no
joint and no suspension leaves the set. A world from which everything else has been removed has just
this share for its program, and moves what it holds as the whole world does.

* `World.Enclosed` — constraints act inside the set or outside of it.
* `World.Enclosed.respects_solve`, `World.Enclosed.respects_push` — no visit crosses the border.
* `World.Restricts.program_eq` — the restricted world has its share of the program.
* `World.Restricts.moved` — both worlds move what is kept alike.
-/

namespace TetheredParticles

variable {S : Type} [Scalar S]

/-- The proxy of the constraint that is visited. -/
def Visit.owner : Visit S → ProxyId
  | .tether owner _ _ _ => owner
  | .joint owner _ => owner
  | .suspension owner _ => owner

namespace World

/-! ## Visits -/

/-- A cell belongs to a proxy that is kept. -/
def Inside (keep : ProxyId → Bool) (w : World S) : Cell → Prop
  | .slot n => w.store.Keeps keep n
  | .tether owner _ _ => keep owner = true
  | .joint owner => keep owner = true
  | .suspension owner => keep owner = true

/-- Constraints act on particles that are kept if they are kept themselves, and on no such particle
otherwise. -/
structure Enclosed (keep : ProxyId → Bool) (w : World S) : Prop where
  tethers : ∀ (proxy : ProxyId) (c : Cluster S), w.clusters[proxy]? = some c → ∀ t ∈ c.tethers,
    (w.store.slot t.anchor).owner = some proxy ∧ (w.store.slot t.tip).owner = some proxy
  joints : ∀ (proxy : ProxyId) (j : JointRecord S), w.joints[proxy]? = some j →
    (w.store.Keeps keep j.first.index ↔ keep proxy = true) ∧
      (w.store.Keeps keep j.second.index ↔ keep proxy = true)
  suspensions : ∀ (proxy : ProxyId) (s : SuspensionRecord S), w.suspensions[proxy]? = some s →
    (w.store.Keeps keep s.particle.index ↔ keep proxy = true)

/-- A visit stays inside or stays out. -/
def Respects (keep : ProxyId → Bool) (w : World S) (v : Visit S) : Prop :=
  keep v.owner = true ∧ (∀ c ∈ v.reads, w.Inside keep c) ∨
    keep v.owner = false ∧ ∀ c ∈ v.writes, ¬ w.Inside keep c

namespace Enclosed

variable {keep : ProxyId → Bool} {w a : World S}

/-- Constraints of a rebuilt world act on particles that exist, and these have owners. -/
theorem rebuilt (hs : w.Sound) (hl : w.Listed) (hc : w.Closed keep) (ha : w.Rebuilt a)
    (hlinked : a.Linked) : a.Enclosed keep := by
  have hkeeps : ∀ (proxy : ProxyId) (particles : List ParticleHandle),
      w.Attached keep proxy particles → ∀ k ∈ particles, a.store.contains k = true →
      (a.store.Keeps keep k.index ↔ keep proxy = true) := by
    intro proxy particles hattached k hk hka
    rw [ha.store] at hka ⊢
    rcases hl k.index (ParticleStore.contains_iff.mp hka).1 with ⟨owner, howner, _⟩
    have hmem : owner ∈ w.ownersOf particles :=
      List.mem_filterMap.mpr ⟨k, hk, ParticleStore.owner?_eq_some.mpr ⟨hka, howner⟩⟩
    constructor
    · rintro ⟨other, hother, hkeep⟩
      rw [howner] at hother
      cases hother
      exact hattached.1.mpr ⟨owner, hmem, hkeep⟩
    · intro hkeep
      exact ⟨owner, howner, hattached.2 hkeep owner hmem⟩
  refine ⟨?_, ?_, ?_⟩
  · intro proxy d hd t ht
    rcases ha.exists_laid hs hd with ⟨c, hcluster, tethers, rfl, hlaid⟩
    have howned := hs.owned proxy _ (hs.clusters proxy c hcluster).1
    rcases hlaid.among t ht with ⟨⟨h, hh, hanchor⟩, k, hk, htip⟩
    rw [ha.store, ← hanchor, ← htip]
    exact ⟨(howned h hh).2, (howned k hk).2⟩
  · intro proxy j hj
    have hattached := hc.joints proxy j (ha.joint_before hj)
    rcases hlinked.joints proxy j hj with ⟨hfirst, hsecond⟩
    exact ⟨hkeeps proxy _ hattached j.first (by simp) hfirst,
      hkeeps proxy _ hattached j.second (by simp) hsecond⟩
  · intro proxy s hsus
    have hattached := hc.suspensions proxy s (ha.suspension_before hsus)
    exact hkeeps proxy _ hattached s.particle (by simp) (hlinked.suspensions proxy s hsus)

theorem keeps_of_alike {store after : ParticleStore S} (h : store.Alike after) (n : Nat) :
    after.Keeps keep n ↔ store.Keeps keep n := by
  unfold ParticleStore.Keeps
  rw [(h.slot n).owner]

/-- Only how particles move has changed. -/
theorem withStore (h : w.Enclosed keep) {store : ParticleStore S} (hs : w.store.Alike store) :
    Enclosed keep { w with store } := by
  refine ⟨?_, ?_, ?_⟩
  · intro proxy c hc t ht
    dsimp only
    rw [(hs.slot _).owner, (hs.slot _).owner]
    exact h.tethers proxy c hc t ht
  · intro proxy j hj
    dsimp only
    rw [keeps_of_alike hs, keeps_of_alike hs]
    exact h.joints proxy j hj
  · intro proxy s hsus
    dsimp only
    rw [keeps_of_alike hs]
    exact h.suspensions proxy s hsus

theorem respects_tether (h : w.Enclosed keep) (rule? : Cluster S → Option (TetherRule S))
    {v : Visit S} (hv : v ∈ w.tetherVisits rule?) : w.Respects keep v := by
  rcases List.mem_flatMap.mp hv with ⟨⟨proxy, c⟩, hx, hv⟩
  have hc := Std.TreeMap.mem_toList_iff_getElem?_eq_some.mp hx
  dsimp only at hv
  unfold Visit.ofTethers at hv
  cases hrule : rule? c with
  | none =>
    rw [hrule] at hv
    cases hv
  | some rule =>
    rw [hrule] at hv
    rcases List.mem_map.mp hv with ⟨⟨layer, t⟩, hlayer, rfl⟩
    rcases h.tethers proxy c hc t (Cluster.mem_tethers_of_layers hlayer) with ⟨hanchor, htip⟩
    by_cases hkeep : keep proxy = true
    · refine .inl ⟨hkeep, ?_⟩
      intro c hc
      simp only [Visit.reads, List.mem_cons, List.not_mem_nil, or_false] at hc
      rcases hc with rfl | rfl | rfl
      · exact ⟨proxy, hanchor, hkeep⟩
      · exact ⟨proxy, htip, hkeep⟩
      · exact hkeep
    · refine .inr ⟨Bool.eq_false_iff.mpr hkeep, ?_⟩
      intro c hc hinside
      simp only [Visit.writes, List.mem_cons, List.not_mem_nil, or_false] at hc
      rcases hc with rfl | rfl
      · rcases hinside with ⟨owner, howner, hkept⟩
        rw [htip] at howner
        cases howner
        exact hkeep hkept
      · exact hkeep hinside

theorem respects_joint (h : w.Enclosed keep) {v : Visit S} (hv : v ∈ w.jointVisits) :
    w.Respects keep v := by
  rcases List.mem_map.mp hv with ⟨⟨proxy, j⟩, hx, rfl⟩
  have hj := Std.TreeMap.mem_toList_iff_getElem?_eq_some.mp hx
  rcases h.joints proxy j hj with ⟨hfirst, hsecond⟩
  by_cases hkeep : keep proxy = true
  · refine .inl ⟨hkeep, ?_⟩
    intro c hc
    simp only [Visit.reads, Joint.create, List.mem_cons, List.not_mem_nil, or_false] at hc
    rcases hc with rfl | rfl | rfl
    · exact hfirst.mpr hkeep
    · exact hsecond.mpr hkeep
    · exact hkeep
  · refine .inr ⟨Bool.eq_false_iff.mpr hkeep, ?_⟩
    intro c hc hinside
    simp only [Visit.writes, Joint.create, List.mem_cons, List.not_mem_nil, or_false] at hc
    rcases hc with rfl | rfl | rfl
    · exact hkeep (hfirst.mp hinside)
    · exact hkeep (hsecond.mp hinside)
    · exact hkeep hinside

theorem respects_suspension (h : w.Enclosed keep) {v : Visit S} (hv : v ∈ w.suspensionVisits) :
    w.Respects keep v := by
  rcases List.mem_map.mp hv with ⟨⟨proxy, s⟩, hx, rfl⟩
  have hs := Std.TreeMap.mem_toList_iff_getElem?_eq_some.mp hx
  have hparticle := h.suspensions proxy s hs
  by_cases hkeep : keep proxy = true
  · refine .inl ⟨hkeep, ?_⟩
    intro c hc
    simp only [Visit.reads, Suspension.create, List.mem_cons, List.not_mem_nil, or_false] at hc
    rcases hc with rfl | rfl
    · exact hparticle.mpr hkeep
    · exact hkeep
  · refine .inr ⟨Bool.eq_false_iff.mpr hkeep, ?_⟩
    intro c hc hinside
    simp only [Visit.writes, Suspension.create, List.mem_cons, List.not_mem_nil, or_false] at hc
    rcases hc with rfl | rfl
    · exact hkeep (hparticle.mp hinside)
    · exact hkeep hinside

/-- No visit of the projection passes crosses the border. -/
theorem respects_solve (h : w.Enclosed keep) (dt : S) :
    ∀ v ∈ (w.program dt).solve w.config, w.Respects keep v := by
  intro v hv
  rcases Program.mem_solve hv with htether | hjoint
  · exact h.respects_tether (·.rule? w.config.tether.solver dt) htether
  · rcases List.mem_append.mp hjoint with hjoint | hsuspension
    · exact h.respects_joint hjoint
    · exact h.respects_suspension hsuspension

/-- No visit of the rigid passes crosses the border. -/
theorem respects_push (h : w.Enclosed keep) (dt : S) :
    ∀ v ∈ (w.program dt).push w.config, w.Respects keep v := by
  intro v hv
  exact h.respects_tether (fun _ => TetherRule.rigid?) (Program.mem_push hv)

end Enclosed

/-! ## Shares of the program -/

namespace Restricts

variable {keep : ProxyId → Bool} {w r : World S}

theorem tetherVisits_eq (h : Restricts keep w r) (rule? : Cluster S → Option (TetherRule S)) :
    r.tetherVisits rule? = (w.tetherVisits rule?).filter (keep ·.owner) := by
  have hshare : ∀ (proxy : ProxyId) (c : Cluster S),
      (Visit.ofTethers proxy (rule? c) c.layers).filter (keep ·.owner) =
        if keep proxy then Visit.ofTethers proxy (rule? c) c.layers else [] := by
    intro proxy c
    have howner : ∀ v ∈ Visit.ofTethers proxy (rule? c) c.layers, v.owner = proxy := by
      intro v hv
      unfold Visit.ofTethers at hv
      cases hrule : rule? c with
      | none =>
        rw [hrule] at hv
        cases hv
      | some rule =>
        rw [hrule] at hv
        rcases List.mem_map.mp hv with ⟨x, _, rfl⟩
        rfl
    by_cases hkeep : keep proxy = true
    · rw [if_pos hkeep, List.filter_eq_self]
      intro v hv
      rw [howner v hv, hkeep]
    · rw [if_neg hkeep, List.filter_eq_nil_iff]
      intro v hv
      rw [howner v hv]
      exact hkeep
  unfold tetherVisits
  rw [h.clusters.toList, List.filter_flatMap]
  -- visits are made cluster by cluster, and a cluster is kept as a whole
  induction w.clusters.toList with
  | nil => rfl
  | cons x rest ih =>
    rcases x with ⟨proxy, c⟩
    rw [List.flatMap_cons, hshare, ← ih]
    by_cases hkeep : keep proxy = true
    · rw [List.filter_cons_of_pos (by exact hkeep), List.flatMap_cons, if_pos hkeep]
    · rw [List.filter_cons_of_neg (by exact hkeep), if_neg hkeep]
      rfl

/-- The restricted world has its share of the program. -/
theorem program_eq (h : Restricts keep w r) (dt : S) :
    r.program dt = (w.program dt).filter (keep ·.owner) := by
  have hjoints : r.jointVisits = w.jointVisits.filter (keep ·.owner) := by
    unfold jointVisits
    rw [h.joints.toList, List.filter_map]
    rfl
  have hsuspensions : r.suspensionVisits = w.suspensionVisits.filter (keep ·.owner) := by
    unfold suspensionVisits
    rw [h.suspensions.toList, List.filter_map]
    rfl
  unfold program Program.filter
  rw [h.config, h.tetherVisits_eq, h.tetherVisits_eq, hjoints, hsuspensions, List.filter_append]

/-! ## Motion -/

variable {directions others : Directions S}

theorem masses_eq (h : Restricts keep w r) : r.masses = w.masses := funext h.masses

theorem isAlive_eq (h : Restricts keep w r) {n : Nat} (hn : w.store.Keeps keep n) :
    r.store.isAlive n = w.store.isAlive n := by
  unfold ParticleStore.isAlive
  rw [h.slots n hn]

theorem slot_predicted (h : Restricts keep w r) (dt : S) {n : Nat} (hn : w.store.Keeps keep n) :
    (r.predicted dt).slot n = (w.predicted dt).slot n := by
  unfold predicted
  rw [ParticleStore.slot_predict, ParticleStore.slot_predict, h.isAlive_eq hn, h.slots n hn,
    h.config]

theorem startMotion_eq (h : Restricts keep w r) (dt : S)
    (hd : ∀ c, w.Inside keep c → others c = directions c) {c : Cell} (hc : w.Inside keep c) :
    w.startMotion directions dt c = r.startMotion others dt c := by
  cases c with
  | slot n =>
    have hslot := (h.slot_predicted dt hc).symm
    exact congrArg (fun s : ParticleSlot S => (s.predicted, (0 : S))) hslot
  | tether owner layer tip => rfl
  | joint owner => exact congrArg (fun d : Vec3 S => (d, (0 : S))) (hd _ hc).symm
  | suspension owner => exact congrArg (fun d : Vec3 S => (d, (0 : S))) (hd _ hc).symm

/-- The projection passes leave the cells inside alike. -/
theorem solvedMotion_eq (h : Restricts keep w r) (he : w.Enclosed keep) (dt : S)
    (hd : ∀ c, w.Inside keep c → others c = directions c) {c : Cell} (hc : w.Inside keep c) :
    w.solvedMotion directions dt c = r.solvedMotion others dt c := by
  unfold solvedMotion
  rw [h.program_eq, h.masses_eq, h.config, Program.solve_filter]
  exact Visit.runAll_filter (he.respects_solve dt) (fun _ hc => h.startMotion_eq dt hd hc) hc

/-- The rigid passes leave the cells inside alike. -/
theorem pushedMotion_eq (h : Restricts keep w r) (he : w.Enclosed keep) (dt : S)
    (hd : ∀ c, w.Inside keep c → others c = directions c) {c : Cell} (hc : w.Inside keep c) :
    w.pushedMotion directions dt c = r.pushedMotion others dt c := by
  unfold pushedMotion
  rw [h.program_eq, h.masses_eq, h.config, Program.push_filter]
  exact Visit.runAll_filter (he.respects_push dt) (fun _ hc => h.solvedMotion_eq he dt hd hc) hc

/-- Stores of particles alike, the second of which still has what is kept of the first one. -/
theorem withStores (h : Restricts keep w r) {store other : ParticleStore S}
    (hw : w.store.Steady store) (hr : r.store.Steady other)
    (hslots : ∀ n, w.store.Keeps keep n → other.slot n = store.slot n) :
    Restricts keep { w with store } { r with store := other } := by
  refine ⟨h.config, ?_, ?_, ?_, h.members, h.clusters, h.joints, h.suspensions, h.forces⟩
  · intro n hn
    exact hslots n ((Enclosed.keeps_of_alike hw.alike n).mp hn)
  · intro n hn
    rw [hr.alike.isAlive] at hn
    exact (Enclosed.keeps_of_alike hw.alike n).mpr (h.only n hn)
  · intro n
    exact (hr.inverseMass n).trans ((h.masses n).trans (hw.inverseMass n).symm)

/-- Both worlds move what is kept alike. -/
theorem moved (h : Restricts keep w r) (he : w.Enclosed keep) (hw : w.Tidy directions)
    (hr : r.Tidy others) (hlw : w.Linked) (hlr : r.Linked) (dt : S)
    (hd : ∀ c, w.Inside keep c → others c = directions c) :
    Restricts keep (w.moved dt) (r.moved dt) := by
  have hstores := h.withStores (steady_moved w dt) (steady_moved r dt) ?_
  · refine ⟨hstores.config, hstores.slots, hstores.only, hstores.masses, h.members, h.clusters,
      h.joints, h.suspensions, ?_⟩
    intro proxy hkeep
    rw [hlr.forces_moved hr.inv.sound.weighed hr.unmixed hr.remembers,
      hlw.forces_moved hw.inv.sound.weighed hw.unmixed hw.remembers, h.joints.contains hkeep,
      h.suspensions.contains hkeep, h.forces proxy hkeep]
    unfold Motion.force
    rw [h.pushedMotion_eq he dt hd (c := .joint proxy) hkeep,
      h.pushedMotion_eq he dt hd (c := .suspension proxy) hkeep]
  · intro n hn
    rw [hlr.slot_moved hr.inv.sound.weighed hr.remembers,
      hlw.slot_moved hw.inv.sound.weighed hw.remembers, h.isAlive_eq hn, h.slot_predicted dt hn]
    unfold Motion.position
    rw [h.solvedMotion_eq he dt hd (c := .slot n) hn, h.pushedMotion_eq he dt hd (c := .slot n) hn]

end Restricts

end World

end TetheredParticles
