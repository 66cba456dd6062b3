import TetheredParticles.Proofs.Registry.Lookups
import TetheredParticles.Proofs.Roster
/-!
# What holds of the registry

Every proxy of the registry holds handles that are in use and that no other proxy holds.
Constraints are attached to the proxies whose particles they act on, and go no later than these do.

* `Proxy.held` — the handles of a proxy.
* `Registry.Sound` — the invariant.
* `Registry.Sound.revised`, `Registry.Sound.modify` — proxies may be changed in everything else.
* `Registry.Sound.collectGarbage` — whose handles are given back, and whose are not.
-/

namespace TetheredParticles

variable {S : Type}

/-- The handles that a proxy holds. -/
def Proxy.held (p : Proxy S) : Option Held :=
  match p.kind, p.constraint, p.particles.toList with
  | .particle, none, [h] => some (.particle h)
  | .cluster, none, handles => some (.cluster handles)
  | .joint, some handle, [a, b] => some (.joint handle a b)
  | .suspension, some handle, [a] => some (.suspension handle a)
  | _, _, _ => none

/-- What two proxies with the same handles have in common. -/
theorem Proxy.held_congr {p q : Proxy S} (hk : q.kind = p.kind) (hc : q.constraint = p.constraint)
    (hp : q.particles = p.particles) : q.held = p.held := by
  unfold held
  rw [hk, hc, hp]

/-- A proxy that holds particles has the kind for it. -/
theorem Proxy.members_of_held {p : Proxy S} {x : Held} (h : p.held = some x) :
    (p.kind.ownsParticles = true ∧ x.members? = some p.particles.toList ∧ x.uses = [] ∧
      p.constraint = none ∧ x.constraint? = none) ∨
    (p.kind.ownsParticles = false ∧ x.members? = none ∧ x.uses = p.particles.toList ∧
      x.constraint? = p.constraint) := by
  unfold held at h
  split at h
  case h_1 hk hc hp =>
    cases h
    rw [hk, hp]
    exact .inl ⟨rfl, rfl, rfl, hc, rfl⟩
  case h_2 hk hc =>
    cases h
    rw [hk]
    exact .inl ⟨rfl, rfl, rfl, hc, rfl⟩
  case h_3 hk hc hp =>
    cases h
    rw [hk, hc, hp]
    exact .inr ⟨rfl, rfl, rfl, rfl⟩
  case h_4 hk hc hp =>
    cases h
    rw [hk, hc, hp]
    exact .inr ⟨rfl, rfl, rfl, rfl⟩
  case h_5 => cases h

/-- A proxy owns the particles it refers to, if its kind does. -/
theorem Proxy.owned_of_held {p : Proxy S} {x : Held} (h : p.held = some x) :
    x.owned = if p.kind.ownsParticles = true then p.particles.toList else [] := by
  unfold Held.owned
  rcases p.members_of_held h with ⟨howns, hmembers, _⟩ | ⟨howns, hmembers, _⟩
  · rw [hmembers, if_pos howns]
    rfl
  · rw [hmembers, if_neg (by rw [howns]; exact Bool.false_ne_true)]
    rfl

/-- A proxy does not act on particles of its own. -/
theorem Proxy.not_mem_uses {p : Proxy S} {x : Held} (h : p.held = some x) {k : ParticleHandle}
    (hk : k ∈ x.owned) : k ∉ x.uses := by
  rcases p.members_of_held h with ⟨_, _, huses, _⟩ | ⟨_, hmembers, _⟩
  · rw [huses]
    exact List.not_mem_nil
  · unfold Held.owned at hk
    rw [hmembers] at hk
    exact absurd hk List.not_mem_nil

theorem Proxy.constraint_of_held {p : Proxy S} {x : Held} (h : p.held = some x) :
    x.constraint? = p.constraint := by
  rcases p.members_of_held h with ⟨_, _, _, hnone, hxnone⟩ | ⟨_, _, _, heq⟩
  · rw [hnone, hxnone]
  · exact heq

/-- What a proxy keeps from its registration to its end. -/
structure Proxy.Revised (p q : Proxy S) : Prop where
  held : q.held = p.held
  kind : q.kind = p.kind
  attachedTo : q.attachedTo = p.attachedTo

theorem Proxy.Revised.refl (p : Proxy S) : p.Revised p := ⟨rfl, rfl, rfl⟩

namespace Registry

/-- Handles are in use and belong to one proxy each; constraints are attached to the proxies whose
particles they act on. Nothing is stamped with a later number than `now`. -/
structure Sound (r : Registry S) (since : ProxyId → Timestamp) (now : Timestamp) : Prop where
  placed : r.Placed
  proxyPool : r.proxyPool.Sound
  particlePool : r.particlePool.Sound
  constraintPool : r.constraintPool.Sound
  inUse : ∀ id p, r.get? id = some p → r.proxyPool.contains id = true
  held : ∀ id p, r.get? id = some p → ∃ x, p.held = some x ∧
    (x.owned.map (·.index)).Nodup ∧ (∀ h ∈ x.owned, r.particlePool.contains h = true) ∧
    ∀ h ∈ x.constraint?, r.constraintPool.contains h = true
  exclusive : ∀ a b p q x y, r.get? a = some p → r.get? b = some q → p.held = some x →
    q.held = some y → ((∃ h ∈ x.owned, h ∈ y.owned) ∨ ∃ h ∈ x.constraint?, h ∈ y.constraint?) →
    a = b
  parents : ∀ id p, r.get? id = some p → ∀ parent ∈ p.attachedTo, p.kind.ownsParticles = false ∧
    ∃ q, r.get? parent = some q ∧ q.kind.ownsParticles = true ∧
      ∀ d, q.pendingDestroy = some d → ∃ e, p.pendingDestroy = some e ∧ e ≤ d
  uses : ∀ id p x, r.get? id = some p → p.held = some x → ∀ h ∈ x.uses,
    ∃ parent ∈ p.attachedTo, ∃ q y, r.get? parent = some q ∧ q.held = some y ∧ h ∈ y.owned
  attached : ∀ id parent, r.Attached id parent ↔
    ∃ p, r.get? id = some p ∧ p.pendingDestroy = none ∧ parent ∈ p.attachedTo
  stamps : ∀ id p, r.get? id = some p → since id ≤ now ∧ ∀ d, p.pendingDestroy = some d → d ≤ now

variable {r : Registry S} {since : ProxyId → Timestamp} {now : Timestamp}

theorem get?_empty (id : ProxyId) : (empty : Registry S).get? id = none := by
  unfold get? empty
  simp

theorem sound_empty (since : ProxyId → Timestamp) (now : Timestamp) :
    (empty : Registry S).Sound since now := by
  have hnone : ∀ id p, ¬ (empty : Registry S).get? id = some p := by
    intro id p h
    rw [get?_empty] at h
    cases h
  refine ⟨?_, HandlePool.sound_empty, HandlePool.sound_empty, HandlePool.sound_empty, ?_, ?_, ?_,
    ?_, ?_, ?_, ?_⟩
  · intro i p h
    simp [empty] at h
  · intro id p h
    exact absurd h (hnone id p)
  · intro id p h
    exact absurd h (hnone id p)
  · intro a b p q x y h
    exact absurd h (hnone a p)
  · intro id p h
    exact absurd h (hnone id p)
  · intro id p x h
    exact absurd h (hnone id p)
  · intro id parent
    constructor
    · intro h
      unfold Attached empty at h
      simp [Std.TreeSet.not_mem_emptyc] at h
    · rintro ⟨p, h, _⟩
      exact absurd h (hnone id p)
  · intro id p h
    exact absurd h (hnone id p)

namespace Sound

/-- Later numbers do no harm. -/
theorem mono (h : r.Sound since now) {later : Timestamp} (hle : now ≤ later) :
    r.Sound since later := by
  refine ⟨h.placed, h.proxyPool, h.particlePool, h.constraintPool, h.inUse, h.held, h.exclusive,
    h.parents, h.uses, h.attached, ?_⟩
  intro id p hp
  rcases h.stamps id p hp with ⟨hsince, hpending⟩
  exact ⟨Nat.le_trans hsince hle, fun d hd => Nat.le_trans (hpending d hd) hle⟩

/-! ## Changes of other things -/

end Sound

/-- The same proxies hold the same handles, and no other handles are in use. What may have changed is
whether proxies have been unregistered. -/
structure Revised (r after : Registry S) : Prop where
  proxyPool : after.proxyPool = r.proxyPool
  particlePool : after.particlePool = r.particlePool
  constraintPool : after.constraintPool = r.constraintPool
  proxies : ∀ id, Option.Rel Proxy.Revised (r.get? id) (after.get? id)

namespace Revised

variable {after : Registry S} {id : ProxyId} {p q : Proxy S}

theorem exists_old (h : r.Revised after) (hq : after.get? id = some q) :
    ∃ p, r.get? id = some p ∧ p.Revised q := Maps.exists_before (h.proxies id) hq

theorem exists_new (h : r.Revised after) (hp : r.get? id = some p) :
    ∃ q, after.get? id = some q ∧ p.Revised q := Maps.exists_after (h.proxies id) hp

theorem modify (id : ProxyId) {change : Proxy S → Proxy S}
    (hchange : ∀ p, (change p).id = p.id ∧ (change p).held = p.held ∧
      (change p).kind = p.kind ∧ (change p).attachedTo = p.attachedTo ∧
      (change p).pendingDestroy = p.pendingDestroy) : r.Revised (r.modify id change) := by
  rcases modify_rest r id change with ⟨hproxies, hparticles, hconstraints, _⟩
  refine ⟨hproxies, hparticles, hconstraints, rel_modify (fun p => (hchange p).1) .refl fun p => ?_⟩
  rcases hchange p with ⟨_, hheld, hkind, hattached, _⟩
  exact ⟨hheld, hkind, hattached⟩

end Revised

namespace Sound

/-- A registry with revised proxies is sound if constraints still go no later than what they are
attached to, and if it lists who is attached. -/
theorem revised (h : r.Sound since now) {after : Registry S} (hr : r.Revised after)
    (hplaced : after.Placed)
    (hlater : ∀ id p parent q, after.get? id = some p → parent ∈ p.attachedTo →
      after.get? parent = some q →
      ∀ d, q.pendingDestroy = some d → ∃ e, p.pendingDestroy = some e ∧ e ≤ d)
    (hattached : ∀ id parent, after.Attached id parent ↔
      ∃ p, after.get? id = some p ∧ p.pendingDestroy = none ∧ parent ∈ p.attachedTo)
    (hstamps : ∀ id p, after.get? id = some p → ∀ d, p.pendingDestroy = some d → d ≤ now) :
    after.Sound since now := by
  constructor
  case placed => exact hplaced
  case proxyPool => exact hr.proxyPool ▸ h.proxyPool
  case particlePool => exact hr.particlePool ▸ h.particlePool
  case constraintPool => exact hr.constraintPool ▸ h.constraintPool
  case inUse =>
    intro a q hq
    rcases hr.exists_old hq with ⟨p, hp, _⟩
    rw [hr.proxyPool]
    exact h.inUse a p hp
  case held =>
    intro a q hq
    rcases hr.exists_old hq with ⟨p, hp, hpq⟩
    rw [hpq.held, hr.particlePool, hr.constraintPool]
    exact h.held a p hp
  case exclusive =>
    intro a b q q' x y hq hq' hx hy
    rcases hr.exists_old hq with ⟨p, hp, hpq⟩
    rcases hr.exists_old hq' with ⟨p', hp', hpq'⟩
    exact h.exclusive a b p p' x y hp hp' (hpq.held ▸ hx) (hpq'.held ▸ hy)
  case parents =>
    intro a q hq parent hparent
    rcases hr.exists_old hq with ⟨p, hp, hpq⟩
    rcases h.parents a p hp parent (hpq.attachedTo ▸ hparent) with ⟨howns, pp, hpp, hparticles, _⟩
    rcases hr.exists_new hpp with ⟨qq, hqq, hppqq⟩
    exact ⟨hpq.kind ▸ howns, qq, hqq, hppqq.kind ▸ hparticles, hlater a q parent qq hq hparent hqq⟩
  case uses =>
    intro a q x hq hx k hk
    rcases hr.exists_old hq with ⟨p, hp, hpq⟩
    rcases h.uses a p x hp (hpq.held ▸ hx) k hk with ⟨parent, hparent, pp, y, hpp, hy, hky⟩
    rcases hr.exists_new hpp with ⟨qq, hqq, hppqq⟩
    exact ⟨parent, hpq.attachedTo ▸ hparent, qq, y, hqq, hppqq.held ▸ hy, hky⟩
  case attached => exact hattached
  case stamps =>
    intro a q hq
    rcases hr.exists_old hq with ⟨p, hp, _⟩
    exact ⟨(h.stamps a p hp).1, hstamps a q hq⟩

/-- A change of a proxy that leaves its handles and its attachments alone. -/
theorem modify (h : r.Sound since now) (id : ProxyId) {change : Proxy S → Proxy S}
    (hchange : ∀ p, (change p).id = p.id ∧ (change p).held = p.held ∧
      (change p).kind = p.kind ∧ (change p).attachedTo = p.attachedTo ∧
      (change p).pendingDestroy = p.pendingDestroy) : (r.modify id change).Sound since now := by
  have hids : ∀ p, (change p).id = p.id := fun p => (hchange p).1
  have hrel : ∀ a, Option.Rel (fun p q : Proxy S => q.attachedTo = p.attachedTo ∧
      q.pendingDestroy = p.pendingDestroy) (r.get? a) ((r.modify id change).get? a) :=
    rel_modify hids (fun p => ⟨rfl, rfl⟩) fun p => (hchange p).2.2.2
  refine h.revised (.modify id hchange) (placed_modify hids h.placed) ?_ ?_ ?_
  · intro a q parent qq hq hparent hqq
    rcases Maps.exists_before (hrel a) hq with ⟨p, hp, hattached, hpending⟩
    rcases Maps.exists_before (hrel parent) hqq with ⟨pp, hpp, _, hpending'⟩
    rcases h.parents a p hp parent (hattached ▸ hparent) with ⟨_, pp', hpp', _, hlater⟩
    rw [hpp] at hpp'
    cases hpp'
    rw [hpending, hpending']
    exact hlater
  · intro a parent
    unfold Attached
    rw [(modify_rest r id change).2.2.2.2]
    refine (h.attached a parent).trans ⟨?_, ?_⟩
    · rintro ⟨p, hp, hlive, hparent⟩
      rcases Maps.exists_after (hrel a) hp with ⟨q, hq, hattached, hpending⟩
      exact ⟨q, hq, hpending.trans hlive, hattached ▸ hparent⟩
    · rintro ⟨q, hq, hlive, hparent⟩
      rcases Maps.exists_before (hrel a) hq with ⟨p, hp, hattached, hpending⟩
      exact ⟨p, hp, hpending ▸ hlive, hattached ▸ hparent⟩
  · intro a q hq
    rcases Maps.exists_before (hrel a) hq with ⟨p, hp, _, hpending⟩
    rw [hpending]
    exact (h.stamps a p hp).2

/-! ## Garbage -/

end Sound

/-- Handles of a pool that are taken back one after the other. -/
theorem foldl_free {kind : HandleKind} (handles : List (Handle kind)) {pool : HandlePool kind}
    (h : pool.Sound) :
    (handles.foldl (·.free ·) pool).Sound ∧ ∀ a,
      (handles.foldl (·.free ·) pool).contains a = true ↔ pool.contains a = true ∧ a ∉ handles := by
  induction handles generalizing pool with
  | nil => exact ⟨h, fun a => (and_iff_left List.not_mem_nil).symm⟩
  | cons b rest ih =>
    rcases HandlePool.free_spec h b with ⟨hsound, hkeep⟩
    rcases ih hsound with ⟨hrest, hkeeps⟩
    refine ⟨hrest, ?_⟩
    intro a
    rw [List.foldl_cons, hkeeps, hkeep, List.mem_cons, not_or, and_assoc]

/-- What releasing proxies of the registry leaves in use: every handle that none of them holds. -/
structure Released (r after : Registry S) (gone : List (Proxy S)) : Prop where
  placed : after.Placed
  get? : ∀ id, after.get? id = if id ∈ gone.map (·.id) then none else r.get? id
  owners : after.owners = r.owners
  proxyPool : after.proxyPool.Sound
  particlePool : after.particlePool.Sound
  constraintPool : after.constraintPool.Sound
  proxies : ∀ id, after.proxyPool.contains id = true ↔
    r.proxyPool.contains id = true ∧ id ∉ gone.map (·.id)
  particles : ∀ h, after.particlePool.contains h = true ↔
    r.particlePool.contains h = true ∧ ∀ p ∈ gone, ∀ x, p.held = some x → h ∉ x.owned
  constraints : ∀ h, after.constraintPool.contains h = true ↔
    r.constraintPool.contains h = true ∧ ∀ p ∈ gone, ∀ x, p.held = some x → h ∉ x.constraint?
  attached : ∀ id parent, after.Attached id parent ↔
    r.Attached id parent ∧ parent ∉ gone.map (·.id)

theorem released_nil (h : r.Sound since now) : r.Released r [] := by
  refine ⟨h.placed, fun id => rfl, rfl, h.proxyPool, h.particlePool, h.constraintPool, ?_, ?_, ?_,
    ?_⟩
  · intro id
    exact (and_iff_left List.not_mem_nil).symm
  · intro k
    exact (and_iff_left fun p hp => absurd hp List.not_mem_nil).symm
  · intro k
    exact (and_iff_left fun p hp => absurd hp List.not_mem_nil).symm
  · intro id parent
    exact (and_iff_left List.not_mem_nil).symm

/-- With a proxy its particles become free, of all that are in use. -/
theorem particlePool_release (h : r.particlePool.Sound) {proxy : Proxy S} {x : Held}
    (hx : proxy.held = some x) :
    (r.release proxy).particlePool.Sound ∧ ∀ k, (r.release proxy).particlePool.contains k = true ↔
      r.particlePool.contains k = true ∧ k ∉ x.owned := by
  unfold Registry.release
  dsimp only
  rw [proxy.owned_of_held hx]
  by_cases howns : proxy.kind.ownsParticles = true
  · rw [if_pos howns, if_pos howns, ← Array.foldl_toList]
    exact foldl_free _ h
  · rw [if_neg howns, if_neg howns]
    exact ⟨h, fun k => (and_iff_left List.not_mem_nil).symm⟩

/-- With a proxy its constraint becomes free. -/
theorem constraintPool_release (h : r.constraintPool.Sound) {proxy : Proxy S} {x : Held}
    (hx : proxy.held = some x) :
    (r.release proxy).constraintPool.Sound ∧
      ∀ k, (r.release proxy).constraintPool.contains k = true ↔
        r.constraintPool.contains k = true ∧ k ∉ x.constraint? := by
  unfold Registry.release
  dsimp only
  rw [proxy.constraint_of_held hx]
  cases proxy.constraint with
  | none => exact ⟨h, fun k => (and_iff_left (Option.not_mem_none k)).symm⟩
  | some c =>
    rcases HandlePool.free_spec h c with ⟨hsound, hkeep⟩
    refine ⟨hsound, ?_⟩
    intro k
    refine (hkeep k).trans (and_congr_right fun _ => not_congr ?_)
    rw [Option.mem_some, eq_comm]

/-- One proxy more is released. -/
theorem Released.release {after : Registry S} {gone : List (Proxy S)} (h : r.Released after gone)
    {proxy : Proxy S} (hnew : proxy.id ∉ gone.map (·.id)) (hget : r.get? proxy.id = some proxy)
    {x : Held} (hx : proxy.held = some x) : r.Released (after.release proxy) (gone ++ [proxy]) := by
  have hafter : after.get? proxy.id = some proxy := by
    rw [h.get?, if_neg hnew]
    exact hget
  have hmem : ∀ id : ProxyId, id ∈ (gone ++ [proxy]).map (·.id) ↔
      id ∈ gone.map (·.id) ∨ id = proxy.id := by
    intro id
    rw [List.map_append, List.mem_append]
    exact or_congr_right List.mem_singleton
  have hpool := HandlePool.free_spec h.proxyPool proxy.id
  have hparticles := particlePool_release h.particlePool hx
  have hconstraints := constraintPool_release h.constraintPool hx
  have hgone : ∀ P : Proxy S → Prop,
      (∀ p ∈ gone ++ [proxy], P p) ↔ (∀ p ∈ gone, P p) ∧ P proxy := by
    intro P
    simp only [List.mem_append, List.mem_singleton, or_imp, forall_and, forall_eq]
  have hheld : ∀ P : Held → Prop, (∀ y, proxy.held = some y → P y) ↔ P x := by
    intro P
    rw [hx]
    exact ⟨fun hy => hy x rfl, fun hy y heq => Option.some.inj heq ▸ hy⟩
  constructor
  · exact placed_release h.placed
  · intro id
    rw [get?_release hafter, h.get?]
    by_cases hid : id = proxy.id
    · rw [if_pos hid, if_pos ((hmem id).mpr (.inr hid))]
    · rw [if_neg hid]
      by_cases hgone : id ∈ gone.map (·.id)
      · rw [if_pos hgone, if_pos ((hmem id).mpr (.inl hgone))]
      · rw [if_neg hgone, if_neg fun hm => ((hmem id).mp hm).elim hgone hid]
  · exact h.owners
  · exact hpool.1
  · exact hparticles.1
  · exact hconstraints.1
  · intro id
    refine (hpool.2 id).trans ?_
    rw [h.proxies, hmem, not_or, and_assoc]
  · intro k
    rw [hparticles.2, h.particles, hgone, hheld, and_assoc]
  · intro k
    rw [hconstraints.2, h.constraints, hgone, hheld, and_assoc]
  · intro id parent
    rw [hmem, not_or, ← and_assoc, ← h.attached]
    exact mem_getD_erase

/-- Proxies are released one after the other. -/
theorem released_foldl (h : r.Sound since now) {gone : List (Proxy S)}
    (hnodup : (gone.map (·.id)).Nodup) (hgone : ∀ p ∈ gone, r.get? p.id = some p) :
    r.Released (gone.foldl release r) gone := by
  suffices hall : ∀ rest done after, gone = done ++ rest → r.Released after done →
      r.Released (rest.foldl release after) gone from hall gone [] r rfl (released_nil h)
  intro rest
  induction rest with
  | nil =>
    intro done after heq hdone
    rw [List.append_nil] at heq
    exact heq ▸ hdone
  | cons proxy rest ih =>
    intro done after heq hdone
    have hmem : proxy ∈ gone := by simp [heq]
    have hget := hgone proxy hmem
    rcases h.held proxy.id proxy hget with ⟨x, hx, _⟩
    refine ih (done ++ [proxy]) _ (by simp [heq]) (hdone.release ?_ hget hx)
    rw [heq, List.map_append, List.map_cons] at hnodup
    exact fun hin => (List.nodup_append.mp hnodup).2.2 _ hin _ List.mem_cons_self rfl

/-- A proxy is collected if it is garbage. -/
theorem mem_garbage (h : r.Placed) {consumed : Timestamp} {p : Proxy S} :
    p ∈ r.toList.filter (isGarbage consumed) ↔
      r.get? p.id = some p ∧ isGarbage consumed p = true := by
  rw [List.mem_filter, mem_toList h]

theorem Sound.released_collectGarbage (h : r.Sound since now) (consumed : Timestamp) :
    r.Released (r.collectGarbage consumed) (r.toList.filter (isGarbage consumed)) :=
  released_foldl h ((nodup_ids_toList h.placed).sublist (List.filter_sublist.map _))
    fun _ hp => ((mem_garbage h.placed).mp hp).1

theorem isGarbage_eq_false {p : Proxy S} {consumed : Timestamp} :
    isGarbage consumed p = false ↔ ∀ d, p.pendingDestroy = some d → ¬ d ≤ consumed := by
  unfold isGarbage
  cases p.pendingDestroy with
  | none => exact ⟨fun _ => nofun, fun _ => rfl⟩
  | some d => simp

/-- The handles of garbage are those of proxies that are garbage. -/
theorem mem_ids_garbage (h : r.Placed) {consumed : Timestamp} {id : ProxyId} {p : Proxy S}
    (hp : r.get? id = some p) :
    id ∈ (r.toList.filter (isGarbage consumed)).map (·.id) ↔ isGarbage consumed p = true := by
  rw [List.mem_map]
  constructor
  · rintro ⟨q, hq, rfl⟩
    rcases (mem_garbage h).mp hq with ⟨hqget, hgarbage⟩
    rw [hp] at hqget
    cases hqget
    exact hgarbage
  · intro hgarbage
    have hid := id_of_get? hp
    exact ⟨p, (mem_garbage h).mpr ⟨hid ▸ hp, hgarbage⟩, hid⟩

namespace Sound

/-- What is found after garbage has been collected. -/
theorem get?_collectGarbage (h : r.Sound since now) (consumed : Timestamp) (id : ProxyId) :
    (r.collectGarbage consumed).get? id = (r.get? id).filter fun p => !isGarbage consumed p := by
  rw [(h.released_collectGarbage consumed).get?]
  cases hp : r.get? id with
  | none => simp
  | some p =>
    have hids : id ∈ (r.toList.filter (isGarbage consumed)).map (·.id) ↔
        isGarbage consumed p = true := mem_ids_garbage h.placed hp
    cases hgarbage : isGarbage consumed p with
    | true =>
      rw [if_pos (hids.mpr hgarbage)]
      simp [Option.filter, hgarbage]
    | false =>
      rw [if_neg (by rw [hids, hgarbage]; exact Bool.false_ne_true)]
      simp [Option.filter, hgarbage]

/-- Whoever is left was there before and is no garbage. -/
theorem left_collectGarbage (h : r.Sound since now) {consumed : Timestamp} {id : ProxyId}
    {p : Proxy S} : (r.collectGarbage consumed).get? id = some p ↔
      r.get? id = some p ∧ isGarbage consumed p = false := by
  rw [h.get?_collectGarbage, Option.filter_eq_some_iff, Bool.not_eq_true']

/-- What is left holds nothing that garbage holds. -/
theorem apart_garbage (h : r.Sound since now) {consumed : Timestamp} {id : ProxyId} {p q : Proxy S}
    {x y : Held} (hp : r.get? id = some p) (hleft : isGarbage consumed p = false)
    (hx : p.held = some x) (hq : q ∈ r.toList.filter (isGarbage consumed)) (hy : q.held = some y) :
    ¬ ((∃ k ∈ x.owned, k ∈ y.owned) ∨ ∃ k ∈ x.constraint?, k ∈ y.constraint?) := by
  intro hshared
  rcases (mem_garbage h.placed).mp hq with ⟨hqget, hgarbage⟩
  have heq := h.exclusive id q.id p q x y hp hqget hx hy hshared
  rw [heq, hqget] at hp
  cases hp
  rw [hleft] at hgarbage
  cases hgarbage

/-- The parents of what is left are left: they go no earlier than their constraints. -/
theorem parent_left (h : r.Sound since now) {consumed : Timestamp} {id parent : ProxyId}
    {p q : Proxy S} (hp : r.get? id = some p) (hleft : isGarbage consumed p = false)
    (hparent : parent ∈ p.attachedTo) (hq : r.get? parent = some q) :
    isGarbage consumed q = false := by
  rcases h.parents id p hp parent hparent with ⟨_, q', hq', _, hlater⟩
  rw [hq] at hq'
  cases hq'
  rw [isGarbage_eq_false] at hleft ⊢
  intro d hd hle
  rcases hlater d hd with ⟨e, he, hed⟩
  exact hleft e he (Nat.le_trans hed hle)

/-- Garbage goes, everything else stays as it was. -/
theorem collectGarbage (h : r.Sound since now) (consumed : Timestamp) :
    (r.collectGarbage consumed).Sound since now ∧
      ∀ id, (r.collectGarbage consumed).get? id =
        (r.get? id).filter fun p => !isGarbage consumed p := by
  have hreleased := h.released_collectGarbage consumed
  have hback : ∀ {id p}, (r.collectGarbage consumed).get? id = some p →
      r.get? id = some p ∧ isGarbage consumed p = false := h.left_collectGarbage.mp
  refine ⟨?_, h.get?_collectGarbage consumed⟩
  constructor
  case placed => exact hreleased.placed
  case proxyPool => exact hreleased.proxyPool
  case particlePool => exact hreleased.particlePool
  case constraintPool => exact hreleased.constraintPool
  -- an id is freed with its own proxy only
  case inUse =>
    intro id p hp
    rcases hback hp with ⟨hold, hleft⟩
    refine (hreleased.proxies id).mpr ⟨h.inUse id p hold, ?_⟩
    rw [mem_ids_garbage h.placed hold, hleft]
    exact Bool.false_ne_true
  -- what is left shares no handle with what goes
  case held =>
    intro id p hp
    rcases hback hp with ⟨hold, hleft⟩
    rcases h.held id p hold with ⟨x, hx, hnodup, hparticles, hconstraints⟩
    refine ⟨x, hx, hnodup, ?_, ?_⟩
    · intro k hk
      refine (hreleased.particles k).mpr ⟨hparticles k hk, ?_⟩
      intro q hq y hy hky
      exact h.apart_garbage hold hleft hx hq hy (.inl ⟨k, hk, hky⟩)
    · intro k hk
      refine (hreleased.constraints k).mpr ⟨hconstraints k hk, ?_⟩
      intro q hq y hy hky
      exact h.apart_garbage hold hleft hx hq hy (.inr ⟨k, hk, hky⟩)
  case exclusive =>
    intro a b p q x y hp hq
    exact h.exclusive a b p q x y (hback hp).1 (hback hq).1
  -- no parent goes before what is attached to it
  case parents =>
    intro id p hp parent hmem
    rcases hback hp with ⟨hold, hleft⟩
    rcases h.parents id p hold parent hmem with ⟨howns, q, hq, hparticles, hlater⟩
    exact ⟨howns, q, h.left_collectGarbage.mpr ⟨hq, h.parent_left hold hleft hmem hq⟩, hparticles,
      hlater⟩
  case uses =>
    intro id p x hp hx k hk
    rcases hback hp with ⟨hold, hleft⟩
    rcases h.uses id p x hold hx k hk with ⟨parent, hmem, q, y, hq, hy, hky⟩
    exact ⟨parent, hmem, q, y,
      h.left_collectGarbage.mpr ⟨hq, h.parent_left hold hleft hmem hq⟩, hy, hky⟩
  case attached =>
    intro id parent
    rw [hreleased.attached, h.attached]
    constructor
    · rintro ⟨⟨p, hp, hlive, hmem⟩, _⟩
      refine ⟨p, h.left_collectGarbage.mpr ⟨hp, isGarbage_eq_false.mpr ?_⟩, hlive, hmem⟩
      intro d hd
      rw [hlive] at hd
      cases hd
    · rintro ⟨p, hp, hlive, hmem⟩
      rcases hback hp with ⟨hold, hleft⟩
      refine ⟨⟨p, hold, hlive, hmem⟩, ?_⟩
      rcases h.parents id p hold parent hmem with ⟨_, q, hq, _⟩
      rw [mem_ids_garbage h.placed hq, h.parent_left hold hleft hmem hq]
      exact Bool.false_ne_true
  case stamps =>
    intro id p hp
    exact h.stamps id p (hback hp).1

end Sound

end Registry

end TetheredParticles
