import TetheredParticles.Proofs.World.Runs
/-!
# Parts of a world

A world is restricted to some of its proxies by destroying all others and rebuilding the topology.
What is left has those proxies in common with the world, particle by particle and constraint by
constraint, and nothing else.

* `World.restrict` — the restricted world.
* `World.Closed` — a set of proxies that no joint and no suspension leaves.
* `World.Restricts` — a world that has the proxies of a set in common with another one.
* `World.restricts_destroyAll`, `World.Restricts.rebuilt` — from the one to the other.
-/

namespace TetheredParticles

/-! ## Maps -/

namespace Maps

variable {K V : Type} [Ord K] [Std.TransOrd K] [Std.LawfulEqOrd K] {keep : K → Bool}
  {m n : Std.TreeMap K V}

/-- The second map has the entries of the first one under the keys that are kept. -/
def Restricts (keep : K → Bool) (m n : Std.TreeMap K V) : Prop :=
  ∀ k : K, n[k]? = if keep k then m[k]? else none

namespace Restricts

omit [Std.TransOrd K] [Std.LawfulEqOrd K] in
theorem of_keep (h : Restricts keep m n) {k : K} (hk : keep k = true) : n[k]? = m[k]? := by
  rw [h, if_pos hk]

omit [Std.TransOrd K] [Std.LawfulEqOrd K] in
theorem refl (m : Std.TreeMap K V) : Restricts (fun _ => true) m m := fun _ => rfl

omit [Std.TransOrd K] [Std.LawfulEqOrd K] in
theorem trans {other : K → Bool} {l : Std.TreeMap K V} (h : Restricts keep m n)
    (k : Restricts other n l) : Restricts (fun a => keep a && other a) m l := by
  intro a
  rw [k, h]
  by_cases hkeep : keep a = true
  · simp [hkeep]
  · simp [hkeep]

omit [Std.TransOrd K] [Std.LawfulEqOrd K] in
/-- Keys without entries need not be kept. -/
theorem congr {other : K → Bool} (h : Restricts keep m n)
    (hle : ∀ a, other a = true → keep a = true)
    (hnone : ∀ a, other a = false → keep a = true → m[a]? = none) : Restricts other m n := by
  intro a
  rw [h]
  cases hother : other a with
  | true => rw [hle a hother]
  | false =>
    cases hkeep : keep a with
    | true => exact hnone a hother hkeep
    | false => rfl

theorem erase [DecidableEq K] (m : Std.TreeMap K V) (k : K) :
    Restricts (fun a => decide (a ≠ k)) m (m.erase k) := by
  intro a
  rw [getElem?_erase]
  by_cases ha : a = k
  · rw [if_pos ha, if_neg (by simpa using ha)]
  · rw [if_neg ha, if_pos (by simpa using ha)]

omit [Std.TransOrd K] [Std.LawfulEqOrd K] in
theorem of_none [DecidableEq K] {k : K} (h : m[k]? = none) :
    Restricts (fun a => decide (a ≠ k)) m m := by
  refine (refl m).congr (fun _ _ => rfl) ?_
  intro a ha _
  rw [show a = k by simpa using ha, h]

theorem toList (h : Restricts keep m n) : n.toList = m.toList.filter fun x => keep x.1 := by
  rw [← Std.TreeMap.toList_filter (f := fun k _ => keep k)]
  refine toList_eq_of_lookups ?_
  intro k
  rw [Std.TreeMap.getElem?_filter', h]
  cases keep k with
  | true => cases m[k]? <;> rfl
  | false => cases m[k]? <;> rfl

/-- Of what is kept, both maps may drop the same entries. -/
theorem filter {p q : K → V → Bool} (h : Restricts keep m n)
    (hpq : ∀ k v, keep k = true → m[k]? = some v → q k v = p k v) :
    Restricts keep (m.filter p) (n.filter q) := by
  intro k
  rw [Std.TreeMap.getElem?_filter', Std.TreeMap.getElem?_filter', h]
  by_cases hk : keep k = true
  · rw [if_pos hk, if_pos hk]
    cases hv : m[k]? with
    | none => rfl
    | some v => rw [Option.filter_some, Option.filter_some, hpq k v hk hv]
  · rw [if_neg hk, if_neg hk]
    rfl

omit [Std.LawfulEqOrd K] in
theorem contains (h : Restricts keep m n) {k : K} (hk : keep k = true) :
    n.contains k = m.contains k := by
  rw [Std.TreeMap.contains_eq_isSome_getElem?, Std.TreeMap.contains_eq_isSome_getElem?,
    h.of_keep hk]

omit [Std.LawfulEqOrd K] in
theorem contains_of_not (h : Restricts keep m n) {k : K} (hk : keep k = false) :
    n.contains k = false := by
  rw [Std.TreeMap.contains_eq_isSome_getElem?, h, if_neg (Bool.eq_false_iff.mp hk)]
  rfl

end Restricts

end Maps

variable {S T : Type} [Scalar S] [Scalar T] [Timeline S T]

/-- Tethers are laid alike over slots that are the same. -/
theorem Cluster.layTethers_of_slots (c : Cluster S) (config : Config S)
    {store after : ParticleStore S}
    (h : ∀ k ∈ c.particles, after.slot k.index = store.slot k.index) :
    c.layTethers config after = c.layTethers config store := by
  have hany : c.particles.any (!after.contains ·) = c.particles.any (!store.contains ·) := by
    have hmap : c.particles.map after.contains = c.particles.map store.contains :=
      Array.map_congr_left fun k hk => ParticleStore.contains_congr (h k hk)
    have hone : (c.particles.map after.contains).any (!·) = c.particles.any (!after.contains ·) :=
      Array.any_map
    have htwo : (c.particles.map store.contains).any (!·) = c.particles.any (!store.contains ·) :=
      Array.any_map
    exact hone.symm.trans ((congrArg (·.any (!·)) hmap).trans htwo)
  have hmasses : c.particles.map (fun k => (after.slot k.index).inverseMass) =
      c.particles.map fun k => (store.slot k.index).inverseMass :=
    Array.map_congr_left fun k hk => by rw [h k hk]
  unfold layTethers
  rw [hany]
  dsimp only
  rw [hmasses]

/-- A slot is occupied by a particle of a proxy that is kept. -/
def ParticleStore.Keeps (store : ParticleStore S) (keep : ProxyId → Bool) (n : Nat) : Prop :=
  ∃ owner, (store.slot n).owner = some owner ∧ keep owner = true

namespace World

/-! ## Restricted worlds -/

/-- The proxies of a world that are not kept. -/
def others (w : World S) (keep : ProxyId → Bool) : List ProxyId :=
  (w.members.keys ++ w.joints.keys ++ w.suspensions.keys).filter fun proxy => !keep proxy

/-- Destroys proxies one after the other. -/
def destroyAll (w : World S) (proxies : List ProxyId) : World S :=
  proxies.foldl (fun w proxy => (w.destroy proxy).2) w

/-- Destroys all proxies that are not kept and rebuilds the topology. -/
def restrict (w : World S) (keep : ProxyId → Bool) : Except Fault (World S) :=
  (w.destroyAll (w.others keep)).rebuild

/-- The owners of particles. -/
def ownersOf (w : World S) (particles : List ParticleHandle) : List ProxyId :=
  particles.filterMap w.store.owner?

/-- Only how particles move has changed. -/
theorem ownersOf_alike {w after : World S} (h : w.store.Alike after.store)
    (particles : List ParticleHandle) : after.ownersOf particles = w.ownersOf particles := by
  unfold ownersOf
  refine List.filterMap_congr ?_
  intro k _
  unfold ParticleStore.owner? ParticleStore.get?
  rw [h.contains]
  split
  · exact (h.slot k.index).owner
  · rfl

/-- A constraint is kept exactly if an owner of one of its particles is, and then all its owners
are. -/
def Attached (w : World S) (keep : ProxyId → Bool) (proxy : ProxyId)
    (particles : List ParticleHandle) : Prop :=
  (keep proxy = true ↔ ∃ owner ∈ w.ownersOf particles, keep owner = true) ∧
    (keep proxy = true → ∀ owner ∈ w.ownersOf particles, keep owner = true)

/-- A proxy without particles has no cluster. -/
theorem Sound.clusters_eq_none {w : World S} (hs : w.Sound) {proxy : ProxyId}
    (hm : w.members[proxy]? = none) :
    w.clusters[proxy]? = none := by
  rw [Option.eq_none_iff_forall_ne_some]
  intro c hc
  have hmembers := (hs.clusters proxy c hc).1
  rw [hm] at hmembers
  cases hmembers

/-- The proxies that are kept are closed under attachment. -/
structure Closed (w : World S) (keep : ProxyId → Bool) : Prop where
  joints : ∀ (proxy : ProxyId) (j : JointRecord S), w.joints[proxy]? = some j →
    w.Attached keep proxy [j.first, j.second]
  suspensions : ∀ (proxy : ProxyId) (s : SuspensionRecord S), w.suspensions[proxy]? = some s →
    w.Attached keep proxy [s.particle]

/-- The second world has what is kept of the first one, and nothing else. -/
structure Restricts (keep : ProxyId → Bool) (w r : World S) : Prop where
  config : r.config = w.config
  slots : ∀ n, w.store.Keeps keep n → r.store.slot n = w.store.slot n
  only : ∀ n, r.store.isAlive n = true → w.store.Keeps keep n
  masses : ∀ n, (r.store.slot n).inverseMass = (w.store.slot n).inverseMass
  members : Maps.Restricts keep w.members r.members
  clusters : Maps.Restricts keep w.clusters r.clusters
  joints : Maps.Restricts keep w.joints r.joints
  suspensions : Maps.Restricts keep w.suspensions r.suspensions
  forces : ∀ proxy : ProxyId, keep proxy = true → r.forces[proxy]? = w.forces[proxy]?

namespace Restricts

variable {keep other : ProxyId → Bool} {w r s : World S}

theorem refl (hl : w.Listed) : Restricts (fun _ => true) w w := by
  refine ⟨rfl, fun _ _ => rfl, ?_, fun _ => rfl, .refl _, .refl _, .refl _, .refl _, fun _ _ => rfl⟩
  intro n hn
  rcases hl n hn with ⟨owner, howner, _⟩
  exact ⟨owner, howner, rfl⟩

theorem trans (h : Restricts keep w r) (k : Restricts other r s) :
    Restricts (fun proxy => keep proxy && other proxy) w s where
  config := k.config.trans h.config
  slots := by
    rintro n ⟨owner, howner, hboth⟩
    rcases Bool.and_eq_true_iff.mp hboth with ⟨hkeep, hother⟩
    have hslot := h.slots n ⟨owner, howner, hkeep⟩
    exact (k.slots n ⟨owner, hslot ▸ howner, hother⟩).trans hslot
  only := by
    intro n hn
    have hkept := k.only n hn
    have hslot := k.slots n hkept
    rcases hkept with ⟨owner, howner, hother⟩
    have halive : r.store.isAlive n = true := by
      unfold ParticleStore.isAlive at hn ⊢
      rwa [← hslot]
    have hfirst := h.only n halive
    have hsame := h.slots n hfirst
    rcases hfirst with ⟨first, hbelongs, hkeep⟩
    rw [hsame, hbelongs] at howner
    cases howner
    exact ⟨owner, hbelongs, Bool.and_eq_true_iff.mpr ⟨hkeep, hother⟩⟩
  masses n := (k.masses n).trans (h.masses n)
  members := h.members.trans k.members
  clusters := h.clusters.trans k.clusters
  joints := h.joints.trans k.joints
  suspensions := h.suspensions.trans k.suspensions
  forces := by
    intro proxy hboth
    rcases Bool.and_eq_true_iff.mp hboth with ⟨hkeep, hother⟩
    exact (k.forces proxy hother).trans (h.forces proxy hkeep)

/-- A proxy that is not known need not be kept. -/
theorem congr (h : Restricts keep w r) (hs : w.Sound) (hl : w.Listed)
    (hle : ∀ proxy, other proxy = true → keep proxy = true)
    (hunknown : ∀ proxy, other proxy = false → keep proxy = true → w.knows proxy = false) :
    Restricts other w r := by
  have hnone : ∀ proxy, other proxy = false → keep proxy = true →
      w.members[proxy]? = none ∧ w.joints[proxy]? = none ∧ w.suspensions[proxy]? = none := by
    intro proxy hother hkeep
    have hknows := hunknown proxy hother hkeep
    unfold knows at hknows
    simp only [Std.TreeMap.contains_eq_isSome_getElem?, Bool.or_eq_false_iff,
      Option.isSome_eq_false_iff, Option.isNone_iff_eq_none] at hknows
    exact ⟨hknows.1.1, hknows.1.2, hknows.2⟩
  have hle' : ∀ n, w.store.Keeps other n → w.store.Keeps keep n := by
    rintro n ⟨owner, howner, hother⟩
    exact ⟨owner, howner, hle owner hother⟩
  refine ⟨h.config, fun n hn => h.slots n (hle' n hn), ?_, h.masses,
    h.members.congr hle fun p hp hk => (hnone p hp hk).1,
    h.clusters.congr hle fun p hp hk => hs.clusters_eq_none (hnone p hp hk).1,
    h.joints.congr hle fun p hp hk => (hnone p hp hk).2.1,
    h.suspensions.congr hle fun p hp hk => (hnone p hp hk).2.2,
    fun p hp => h.forces p (hle p hp)⟩
  intro n hn
  have hkept := h.only n hn
  have hslot := h.slots n hkept
  rcases hkept with ⟨owner, howner, hkeep⟩
  refine ⟨owner, howner, ?_⟩
  by_contra hother
  -- who owns a particle is known
  unfold ParticleStore.isAlive at hn
  rw [hslot] at hn
  rcases hl n hn with ⟨lister, hlister, handles, hhandles, _⟩
  rw [howner] at hlister
  cases hlister
  rw [(hnone owner (Bool.eq_false_iff.mpr hother) hkeep).1] at hhandles
  cases hhandles

end Restricts

/-! ## Destroying -/

variable {w after : World S} {proxy : ProxyId}

/-- Particles belong to others than a proxy without particles. -/
theorem Listed.keeps_of_ne (hl : w.Listed) (hm : w.members[proxy]? = none) {n : Nat}
    (hn : w.store.isAlive n = true) : w.store.Keeps (fun p => decide (p ≠ proxy)) n := by
  rcases hl n hn with ⟨owner, howner, handles, hhandles, _⟩
  refine ⟨owner, howner, decide_eq_true ?_⟩
  rintro rfl
  rw [hm] at hhandles
  cases hhandles

/-- All particles but those of a proxy are left when its particles are removed. -/
theorem restricts_withoutParticles (hs : w.Sound) (hl : w.Listed) {handles : List ParticleHandle}
    (hhandles : w.members[proxy]? = some handles) (hj : w.joints[proxy]? = none)
    (hsus : w.suspensions[proxy]? = none) :
    Restricts (fun p => decide (p ≠ proxy)) w
      { w with
        store := handles.foldl (fun store k => store.remove k) w.store
        members := w.members.erase proxy
        clusters := w.clusters.erase proxy } := by
  have hslot := ParticleStore.slot_removeAll handles w.store
  refine ⟨rfl, ?_, ?_, ?_, .erase _ _, .erase _ _, .of_none hj, .of_none hsus, fun _ _ => rfl⟩
  · rintro n ⟨owner, howner, hne⟩
    rcases hslot n with ⟨⟨k, hmem, hindex, _⟩, _⟩ | ⟨_, hsame⟩
    · have hown := (hs.owned proxy handles hhandles k hmem).2
      rw [hindex, howner] at hown
      exact absurd (Option.some.inj hown) (of_decide_eq_true hne)
    · exact hsame
  · intro n hn
    unfold ParticleStore.isAlive at hn
    rcases hslot n with ⟨_, hgone⟩ | ⟨hstays, hsame⟩
    · rw [hgone] at hn
      cases hn
    · -- a slot that is left holds none of the particles, and the proxy lists all it owns
      rw [hsame] at hn
      rcases hl n hn with ⟨owner, howner, listed, hlisted, k, hmem, hindex, hkc⟩
      refine ⟨owner, howner, decide_eq_true ?_⟩
      rintro rfl
      rw [hhandles] at hlisted
      cases hlisted
      rw [hstays k hmem hindex] at hkc
      cases hkc
  · intro n
    rcases hslot n with ⟨_, hgone⟩ | ⟨_, hsame⟩
    · rw [hgone]
      rfl
    · rw [hsame]

/-- Everything but one proxy is left when it is removed. -/
theorem restricts_remove (hs : w.Sound) (hk : w.Unmixed) (hl : w.Listed)
    (hw : w.remove? proxy = some after) :
    Restricts (fun p => decide (p ≠ proxy)) w after := by
  unfold remove? at hw
  split at hw
  case h_1 handles hhandles =>
    cases hw
    have hmember : w.members.contains proxy = true := by
      rw [Std.TreeMap.contains_eq_isSome_getElem?, hhandles]
      rfl
    refine restricts_withoutParticles hs hl hhandles ?_ ?_
    · refine Std.TreeMap.getElem?_eq_none_of_contains_eq_false (Bool.eq_false_iff.mpr ?_)
      intro hjoint
      rw [(hk.joints proxy hjoint).1] at hmember
      cases hmember
    · refine Std.TreeMap.getElem?_eq_none_of_contains_eq_false (Bool.eq_false_iff.mpr ?_)
      intro hsuspension
      rw [hk.suspensions proxy hsuspension] at hmember
      cases hmember
  case h_2 hm =>
    have hothers : ∀ n, w.store.isAlive n = true →
        w.store.Keeps (fun p => decide (p ≠ proxy)) n := fun _ => hl.keeps_of_ne hm
    have hcluster := hs.clusters_eq_none hm
    split at hw
    case isTrue hjoint =>
      cases hw
      have hsus := Std.TreeMap.getElem?_eq_none_of_contains_eq_false (hk.joints proxy hjoint).2
      exact ⟨rfl, fun _ _ => rfl, hothers, fun _ => rfl, .of_none hm, .of_none hcluster,
        .erase _ _, .of_none hsus, fun _ _ => rfl⟩
    case isFalse hjoint =>
      have hj := Std.TreeMap.getElem?_eq_none_of_contains_eq_false (Bool.eq_false_iff.mpr hjoint)
      split at hw
      case isTrue =>
        cases hw
        exact ⟨rfl, fun _ _ => rfl, hothers, fun _ => rfl, .of_none hm, .of_none hcluster,
          .of_none hj, .erase _ _, fun _ _ => rfl⟩
      case isFalse => cases hw

/-- Everything but one proxy is left when it is destroyed. -/
theorem restricts_destroy (hs : w.Sound) (hk : w.Unmixed) (hl : w.Listed) (proxy : ProxyId) :
    Restricts (fun p => decide (p ≠ proxy)) w (w.destroy proxy).2 := by
  have hforces : ∀ after : World S, Restricts (fun p => decide (p ≠ proxy)) w after →
      ∀ dirty, Restricts (fun p => decide (p ≠ proxy)) w
        { after with forces := w.forces.erase proxy, topologyDirty := dirty } := by
    intro after h dirty
    refine ⟨h.config, h.slots, h.only, h.masses, h.members, h.clusters, h.joints, h.suspensions, ?_⟩
    intro p hp
    rw [Maps.getElem?_erase, if_neg (of_decide_eq_true hp)]
  unfold destroy
  dsimp only
  split
  case h_1 after hw => exact hforces after (restricts_remove hs hk hl hw) true
  case h_2 hw =>
    -- there was nothing to destroy
    have hunknown : w.knows proxy = false := by
      unfold remove? at hw
      unfold knows
      split at hw
      case h_1 => cases hw
      case h_2 hm =>
        split at hw
        case isTrue => cases hw
        case isFalse hjoint =>
          split at hw
          case isTrue => cases hw
          case isFalse hsuspension =>
            rw [Std.TreeMap.contains_eq_isSome_getElem?, hm, Bool.eq_false_iff.mpr hjoint,
              Bool.eq_false_iff.mpr hsuspension]
            rfl
    refine hforces w ((Restricts.refl hl).congr hs hl (fun _ _ => rfl) ?_) w.topologyDirty
    intro p hp _
    rw [show p = proxy by simpa using hp]
    exact hunknown

/-- Everything but the proxies of a list is left when they are destroyed, and it is in order. -/
theorem restricts_destroyAll {w : World S} (hi : w.Inv) (hsmall : w.Small) (hk : w.Unmixed)
    (hl : w.Listed) (proxies : List ProxyId) :
    Restricts (fun p => decide (p ∉ proxies)) w (w.destroyAll proxies) ∧
      (w.destroyAll proxies).Inv ∧ (w.destroyAll proxies).Small ∧
      (w.destroyAll proxies).Unmixed := by
  induction proxies generalizing w with
  | nil =>
    exact ⟨(Restricts.refl hl).congr hi.sound hl (fun _ _ => rfl) fun p hp _ => by simp at hp,
      hi, hsmall, hk⟩
  | cons proxy rest ih =>
    have hone := restricts_destroy hi.sound hk hl proxy
    rcases ih (hi.destroy proxy) (hsmall.destroy proxy) (hk.destroy proxy) (hl.destroy proxy)
      with ⟨hrest, hothers⟩
    have heq : (fun p => decide (p ∉ proxy :: rest)) =
        fun p => decide (p ≠ proxy) && decide (p ∉ rest) := by
      funext p
      simp
    refine ⟨?_, hothers⟩
    rw [heq]
    exact hone.trans hrest

/-- What is kept is left when all others are destroyed. -/
theorem restricts_others (hi : w.Inv) (hsmall : w.Small) (hk : w.Unmixed) (hl : w.Listed)
    (keep : ProxyId → Bool) : Restricts keep w (w.destroyAll (w.others keep)) := by
  refine (restricts_destroyAll hi hsmall hk hl _).1.congr hi.sound hl ?_ ?_
  · intro p hp
    refine decide_eq_true ?_
    unfold others
    rw [List.mem_filter, hp]
    simp
  · intro p hp hnot
    refine Bool.eq_false_iff.mpr ?_
    intro hknows
    refine of_decide_eq_true hnot ?_
    unfold others
    rw [List.mem_filter, hp, List.mem_append, List.mem_append, Std.TreeMap.mem_keys,
      Std.TreeMap.mem_keys, Std.TreeMap.mem_keys, Std.TreeMap.mem_iff_contains,
      Std.TreeMap.mem_iff_contains, Std.TreeMap.mem_iff_contains]
    unfold knows at hknows
    rw [Bool.or_eq_true, Bool.or_eq_true] at hknows
    exact ⟨hknows, rfl⟩

/-! ## Rebuilding -/

namespace Restricts

variable {keep : ProxyId → Bool} {r a b : World S}

/-- The particles of a constraint that is kept are in both worlds or in none. -/
theorem contains_eq (h : Restricts keep w r) (hl : w.Listed) (hkeep : keep proxy = true)
    {particles : List ParticleHandle} (hattached : w.Attached keep proxy particles)
    {k : ParticleHandle} (hk : k ∈ particles) : r.store.contains k = w.store.contains k := by
  by_cases hw : w.store.contains k = true
  · rcases hl k.index (ParticleStore.contains_iff.mp hw).1 with ⟨owner, howner, _⟩
    have hmem : owner ∈ w.ownersOf particles :=
      List.mem_filterMap.mpr ⟨k, hk, ParticleStore.owner?_eq_some.mpr ⟨hw, howner⟩⟩
    have hslot := h.slots k.index ⟨owner, howner, hattached.2 hkeep owner hmem⟩
    exact ParticleStore.contains_congr hslot
  · rw [Bool.eq_false_iff.mpr hw, Bool.eq_false_iff]
    intro hr
    have hslot := h.slots k.index (h.only k.index (ParticleStore.contains_iff.mp hr).1)
    exact hw ((ParticleStore.contains_congr hslot).symm.trans hr)

/-- Of what is kept, both worlds drop the constraints that lack particles. -/
theorem joints_dropDangling (h : Restricts keep w r) (hl : w.Listed) (hc : w.Closed keep) :
    Maps.Restricts keep w.dropDangling.joints r.dropDangling.joints := by
  refine h.joints.filter fun proxy j hkeep hj => ?_
  have hattached := hc.joints proxy j hj
  rw [h.contains_eq hl hkeep hattached (k := j.first) (by simp),
    h.contains_eq hl hkeep hattached (k := j.second) (by simp)]

theorem suspensions_dropDangling (h : Restricts keep w r) (hl : w.Listed) (hc : w.Closed keep) :
    Maps.Restricts keep w.dropDangling.suspensions r.dropDangling.suspensions :=
  h.suspensions.filter fun proxy s hkeep hs =>
    h.contains_eq hl hkeep (hc.suspensions proxy s hs) (List.mem_singleton_self s.particle)

/-- The tethers of what is kept are laid alike, as all particles of a cluster are kept with it. -/
theorem clusters_rebuilt (h : Restricts keep w r) (hs : w.Sound) (ha : w.Rebuilt a)
    (hb : r.Rebuilt b) : Maps.Restricts keep a.clusters b.clusters := by
  intro proxy
  refine Option.ext fun d => ?_
  rw [hb.clusters]
  by_cases hkeep : keep proxy = true
  · rw [if_pos hkeep, ha.clusters, h.clusters.of_keep hkeep, h.config]
    refine exists_congr fun c => and_congr_right fun hcluster => ?_
    rw [Cluster.layTethers_of_slots c w.config]
    intro k hk
    have hmembers := (hs.clusters proxy c hcluster).1
    have howned := hs.owned proxy _ hmembers k (Array.mem_toList_iff.mpr hk)
    exact h.slots k.index ⟨proxy, howned.2, hkeep⟩
  · rw [if_neg hkeep, h.clusters, if_neg hkeep]
    simp

/-- Rebuilding both worlds leaves the second one with what is kept of the first one. -/
theorem rebuilt (h : Restricts keep w r) (hs : w.Sound) (hl : w.Listed) (hc : w.Closed keep)
    (ha : w.Rebuilt a) (hb : r.Rebuilt b) : Restricts keep a b where
  config := by rw [ha.config, hb.config, h.config]
  slots := by
    rw [ha.store, hb.store]
    exact h.slots
  only := by
    rw [ha.store, hb.store]
    exact h.only
  masses := by
    rw [ha.store, hb.store]
    exact h.masses
  members := by
    rw [ha.members, hb.members]
    exact h.members
  clusters := h.clusters_rebuilt hs ha hb
  joints := by
    rw [ha.joints, hb.joints]
    exact h.joints_dropDangling hl hc
  suspensions := by
    rw [ha.suspensions, hb.suspensions]
    exact h.suspensions_dropDangling hl hc
  forces := by
    intro proxy hkeep
    rw [ha.notes.1, hb.notes.1]
    exact h.forces proxy hkeep

end Restricts

end World

end TetheredParticles
