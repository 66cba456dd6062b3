import TetheredParticles.Proofs.Outcome
import TetheredParticles.Proofs.Registry.Sound
import TetheredParticles.Proofs.Graph.Symmetric
/-!
# Registering and unregistering

A registration takes handles that nobody holds and adds one proxy. Unregistering a proxy marks it,
and every constraint attached to it before it; nothing else changes.

* `Registry.Entered`, `Registry.Sound.register` — what a registration does.
* `Registry.Unlisted`, `Registry.Sound.unregister` — what unregistering does.
* `Registry.forWrite_ok` — what may be written to.
-/

namespace TetheredParticles

variable {S : Type}

/-! ## Drafts -/

/-- The particles that a constraint is going to act on. -/
def Draft.uses : Draft S → List ParticleHandle
  | .particle .. | .cluster .. => []
  | .joint first second .. => [first, second]
  | .suspension handle .. => [handle]

/-- The neighbors of a new cluster are among its particles. -/
def Draft.InRange : Draft S → Prop
  | .cluster particles adjacency _ => ∀ a b, b ∈ adjacency.neighbors a →
    a < particles.length ∧ b < particles.length
  | _ => True

namespace Registry

variable {r : Registry S} {since : ProxyId → Timestamp} {now : Timestamp}

/-- A proxy may be acted on: it has not been unregistered and owns its particles. -/
def Open (r : Registry S) (id : ProxyId) (q : Proxy S) : Prop :=
  r.get? id = some q ∧ q.pendingDestroy = none ∧ q.kind.ownsParticles = true

/-- A draft refers to particles of proxies that may be acted on, and neighbors are in range. -/
structure Grounded (r : Registry S) (draft : Draft S) : Prop where
  parents : ∀ parent ∈ draft.attachedTo,
    draft.kind.ownsParticles = false ∧ ∃ q, r.Open parent q
  uses : ∀ h ∈ draft.uses, ∃ parent ∈ draft.attachedTo, ∃ q, r.Open parent q ∧ h ∈ q.particles
  inRange : draft.InRange

theorem find_ok {id : ProxyId} {p : Proxy S} (h : r.find id = .ok p) : r.get? id = some p := by
  unfold find at h
  split at h
  case h_1 q hq =>
    cases h
    exact hq
  case h_2 => cases h

theorem requireLive_ok {p : Proxy S} {u : Unit} (h : requireLive p = .ok u) :
    p.pendingDestroy = none := by
  unfold requireLive Proxy.isPending at h
  split at h
  case isTrue => cases h
  case isFalse hlive => simpa using hlive

theorem requireParticles_ok {p : Proxy S} {u : Unit} (h : requireParticles p = .ok u) :
    p.kind.ownsParticles = true := by
  unfold requireParticles at h
  split at h
  case isTrue howns => exact howns
  case isFalse => cases h

theorem entryOf_ok {α : Type} {id : ProxyId} {entries : Array α} {index : Nat} {entry : α}
    (h : entryOf id entries index = .ok entry) : entry ∈ entries := by
  unfold entryOf at h
  split at h
  case h_1 found hfound =>
    cases h
    exact Array.mem_of_getElem? hfound
  case h_2 => cases h

theorem resolve_ok {ref : ParticleRef} {h : ParticleHandle} {position : Vec3 S}
    (hok : r.resolve ref = .ok (h, position)) :
    ∃ q, r.Open ref.proxy q ∧ h ∈ q.particles := by
  unfold resolve at hok
  rcases exists_of_bind_ok hok with ⟨q, hq, hok⟩
  rcases exists_of_bind_ok hok with ⟨_, hlive, hok⟩
  rcases exists_of_bind_ok hok with ⟨_, howns, hok⟩
  rcases exists_of_bind_ok hok with ⟨k, hk, hok⟩
  rcases exists_of_bind_ok hok with ⟨_, _, hok⟩
  cases hok
  exact ⟨q, ⟨find_ok hq, requireLive_ok hlive, requireParticles_ok howns⟩, entryOf_ok hk⟩

/-- If no index is out of range, points and neighbors are within it. -/
theorem inRange_of_outOfRange? {adjacency : Graph} {length : Nat}
    (h : outOfRange? adjacency length = none) (a b : Nat) (hb : b ∈ adjacency.neighbors a) :
    a < length ∧ b < length := by
  unfold outOfRange? at h
  rw [List.find?_eq_none] at h
  have hedge := Graph.mem_edges.mpr hb
  unfold Graph.edges at hedge
  rcases List.mem_flatMap.mp hedge with ⟨⟨point, neighbors⟩, hentry, hmem⟩
  rcases List.mem_map.mp hmem with ⟨c, hc, heq⟩
  cases heq
  constructor
  · have := h a (List.mem_flatMap.mpr ⟨(a, neighbors), hentry, List.mem_cons_self⟩)
    simpa using this
  · have := h b (List.mem_flatMap.mpr ⟨(a, neighbors), hentry, List.mem_cons_of_mem _ hc⟩)
    simpa using this

/-- Only grounded drafts are made. -/
theorem grounded_draft [Scalar S] {stiffness : S} {blueprint : Blueprint S} {draft : Draft S}
    (h : r.draft stiffness blueprint = .ok draft) : r.Grounded draft := by
  cases blueprint with
  | particle particle =>
    cases h
    refine ⟨?_, ?_, ?_⟩
    · intro parent hparent
      exact absurd hparent List.not_mem_nil
    · intro k hk
      exact absurd hk List.not_mem_nil
    · trivial
  | cluster particles adjacency own =>
    simp only [Registry.draft] at h
    split at h
    · cases h
    · split at h
      · cases h
      case h_2 hrange =>
        cases h
        refine ⟨?_, ?_, ?_⟩
        · intro parent hparent
          exact absurd hparent List.not_mem_nil
        · intro k hk
          exact absurd hk List.not_mem_nil
        · refine inRange_of_outOfRange? ?_
          cases hout : outOfRange? adjacency particles.length with
          | none => rfl
          | some index => exact absurd hout (hrange index)
  | joint first second restLength compliance =>
    simp only [Registry.draft] at h
    rcases exists_of_bind_ok h with ⟨⟨a, positionA⟩, ha, h⟩
    rcases exists_of_bind_ok h with ⟨⟨b, positionB⟩, hb, h⟩
    dsimp only at h
    split at h
    · cases h
    · cases h
      rcases resolve_ok ha with ⟨p, hp, hpa⟩
      rcases resolve_ok hb with ⟨q, hq, hqb⟩
      refine ⟨?_, ?_, ?_⟩
      · intro parent hparent
        refine ⟨rfl, ?_⟩
        rcases List.mem_cons.mp hparent with rfl | hparent
        · exact ⟨p, hp⟩
        · rw [List.mem_singleton.mp hparent]
          exact ⟨q, hq⟩
      · intro k hk
        rcases List.mem_cons.mp hk with rfl | hk
        · exact ⟨first.proxy, by simp [Draft.attachedTo], p, hp, hpa⟩
        · rw [List.mem_singleton.mp hk]
          exact ⟨second.proxy, by simp [Draft.attachedTo], q, hq, hqb⟩
      · trivial
  | suspension particle target restLength compliance =>
    simp only [Registry.draft] at h
    rcases exists_of_bind_ok h with ⟨⟨a, position⟩, ha, h⟩
    cases h
    rcases resolve_ok ha with ⟨p, hp, hpa⟩
    refine ⟨?_, ?_, ?_⟩
    · intro parent hparent
      rw [List.mem_singleton.mp hparent]
      exact ⟨rfl, p, hp⟩
    · intro k hk
      rw [List.mem_singleton.mp hk]
      exact ⟨particle.proxy, by simp [Draft.attachedTo], p, hp, hpa⟩
    · trivial

/-! ## Reserving handles -/

/-- What reserving handles does: they were free, and nothing but pools changes. -/
structure Reserved (r after : Registry S) (draft : Draft S) (particles : List ParticleHandle)
    (constraint : Option ConstraintHandle) (creation : Creation S) : Prop where
  same : after.proxies = r.proxies ∧ after.proxyPool = r.proxyPool ∧
    after.dependents = r.dependents ∧ after.owners = r.owners
  particlePool : after.particlePool.Sound
  constraintPool : after.constraintPool.Sound
  heldParticles : ∀ k, after.particlePool.contains k = true ↔
    r.particlePool.contains k = true ∨ k ∈ creation.held.owned
  heldConstraint : ∀ k, after.constraintPool.contains k = true ↔
    r.constraintPool.contains k = true ∨ k ∈ creation.held.constraint?
  freeParticles : ∀ k ∈ creation.held.owned, r.particlePool.inUse k.index = false
  freeConstraint : ∀ k ∈ creation.held.constraint?, r.constraintPool.inUse k.index = false
  nodup : (creation.held.owned.map (·.index)).Nodup
  matched : creation.Matched
  uses : creation.held.uses = draft.uses
  held : ∀ p : Proxy S, p.kind = draft.kind → p.particles = particles.toArray →
    p.constraint = constraint → p.held = some creation.held
  inRange : draft.InRange → creation.InRange

/-- Handles of particles are reserved and none of constraints. -/
theorem Reserved.ofParticles (hc : r.constraintPool.Sound) {draft : Draft S}
    {handles : List ParticleHandle} {pool : HandlePool .particle} {creation : Creation S}
    (hsound : pool.Sound)
    (hcontains : ∀ k, pool.contains k = true ↔ k ∈ handles ∨ r.particlePool.contains k = true)
    (hfree : ∀ k ∈ handles, r.particlePool.inUse k.index = false)
    (hnodup : (handles.map (·.index)).Nodup) (howned : creation.held.owned = handles)
    (hnone : creation.held.constraint? = none) (hmatched : creation.Matched)
    (huses : creation.held.uses = draft.uses)
    (hheld : ∀ p : Proxy S, p.kind = draft.kind → p.particles = handles.toArray →
      p.constraint = none → p.held = some creation.held)
    (hrange : draft.InRange → creation.InRange) :
    r.Reserved { r with particlePool := pool } draft handles none creation := by
  constructor
  case same => exact ⟨rfl, rfl, rfl, rfl⟩
  case particlePool => exact hsound
  case constraintPool => exact hc
  case heldParticles =>
    intro k
    rw [howned]
    exact (hcontains k).trans or_comm
  case heldConstraint =>
    intro k
    rw [hnone]
    exact (or_iff_left (Option.not_mem_none k)).symm
  case freeParticles => exact howned.symm ▸ hfree
  case freeConstraint =>
    intro k hk
    rw [hnone] at hk
    exact absurd hk (Option.not_mem_none k)
  case nodup => exact howned.symm ▸ hnodup
  case matched => exact hmatched
  case uses => exact huses
  case held => exact hheld
  case inRange => exact hrange

/-- One handle of a constraint is reserved and none of particles. -/
theorem Reserved.ofConstraint (hp : r.particlePool.Sound) (hc : r.constraintPool.Sound)
    {draft : Draft S} {particles : List ParticleHandle} {creation : Creation S}
    (howned : creation.held.owned = [])
    (hconstraint : creation.held.constraint? = some r.constraintPool.alloc.1)
    (hmatched : creation.Matched) (huses : creation.held.uses = draft.uses)
    (hheld : ∀ p : Proxy S, p.kind = draft.kind → p.particles = particles.toArray →
      p.constraint = some r.constraintPool.alloc.1 → p.held = some creation.held)
    (hrange : draft.InRange → creation.InRange) :
    r.Reserved { r with constraintPool := r.constraintPool.alloc.2 } draft particles
      (some r.constraintPool.alloc.1) creation := by
  rcases HandlePool.alloc_spec hc with ⟨hsound, hfree, hcontains, _⟩
  constructor
  case same => exact ⟨rfl, rfl, rfl, rfl⟩
  case particlePool => exact hp
  case constraintPool => exact hsound
  case heldParticles =>
    intro k
    rw [howned]
    exact (or_iff_left List.not_mem_nil).symm
  case heldConstraint =>
    intro k
    rw [hconstraint, Option.mem_some]
    exact (hcontains k).trans (or_comm.trans (or_congr_right eq_comm))
  case freeParticles =>
    intro k hk
    rw [howned] at hk
    exact absurd hk List.not_mem_nil
  case freeConstraint =>
    intro k hk
    rw [hconstraint] at hk
    exact Option.some.inj hk ▸ hfree
  case nodup => exact howned.symm ▸ List.nodup_nil
  case matched => exact hmatched
  case uses => exact huses
  case held => exact hheld
  case inRange => exact hrange

theorem reserve_spec (hp : r.particlePool.Sound) (hc : r.constraintPool.Sound) (draft : Draft S) :
    r.Reserved (r.reserve draft).2.2.2 draft (r.reserve draft).1 (r.reserve draft).2.1
      (r.reserve draft).2.2.1 := by
  -- the kind of a proxy, its particles and its constraint determine what it holds
  have hheld : ∀ {p : Proxy S} {kind particles constraint}, p.kind = kind →
      p.particles = particles → p.constraint = constraint →
      p.held = ({ p with kind, particles, constraint } : Proxy S).held := by
    rintro p _ _ _ rfl rfl rfl
    rfl
  cases draft with
  | particle p =>
    rcases HandlePool.alloc_spec hp with ⟨hsound, hfree, hcontains, _⟩
    refine .ofParticles hc hsound ?_ ?_ (List.nodup_singleton _) rfl rfl trivial rfl ?_ id
    · exact fun k => (hcontains k).trans (or_congr_left List.mem_singleton.symm)
    · intro k hk
      rw [List.mem_singleton.mp hk]
      exact hfree
    · exact fun q hkind hparticles hconstraint => hheld hkind hparticles hconstraint
  | cluster ps adjacency stiffness =>
    rcases HandlePool.allocMany_spec ps.length hp with ⟨hsound, hlength, hnodup, hfree, hcontains⟩
    refine .ofParticles hc hsound hcontains hfree hnodup rfl rfl hlength rfl ?_ id
    exact fun q hkind hparticles hconstraint => hheld hkind hparticles hconstraint
  | joint a b owners restLength compliance =>
    refine .ofConstraint hp hc rfl rfl trivial rfl ?_ id
    exact fun q hkind hparticles hconstraint => hheld hkind hparticles hconstraint
  | suspension k owner target restLength compliance =>
    refine .ofConstraint hp hc rfl rfl trivial rfl ?_ id
    exact fun q hkind hparticles hconstraint => hheld hkind hparticles hconstraint

/-! ## Registering -/

/-- What a registration does: one new proxy, whose handles nobody held before, and a creation that
describes it. -/
structure Entered (r after : Registry S) (id : ProxyId) (creation : Creation S) (now : Timestamp) :
    Prop where
  fresh : r.get? id = none
  proxy : ∃ p : Proxy S, p.id = id ∧ p.held = some creation.held ∧ p.pendingDestroy = none ∧
    p.syncTimestamp = now ∧ ∀ a, after.get? a = if a = id then some p else r.get? a
  owner : ∃ p : Proxy S, after.get? id = some p ∧ r.owners[p.owner]? = none ∧
    after.owners = r.owners.insert p.owner id
  proxies : ∀ a, after.proxyPool.contains a = true ↔ a = id ∨ r.proxyPool.contains a = true
  particles : ∀ h, after.particlePool.contains h = true ↔
    r.particlePool.contains h = true ∨ h ∈ creation.held.owned
  constraints : ∀ h, after.constraintPool.contains h = true ↔
    r.constraintPool.contains h = true ∨ h ∈ creation.held.constraint?
  inRange : creation.InRange
  matched : creation.Matched
  nodup : (creation.held.owned.map (·.index)).Nodup
  apart : ∀ h ∈ creation.held.owned, ∀ a q y, r.get? a = some q → q.held = some y →
    ∀ k ∈ y.owned, k.index ≠ h.index
  uses : ∀ h ∈ creation.held.uses, ∃ a q y, r.get? a = some q ∧ q.pendingDestroy = none ∧
    q.held = some y ∧ h ∈ y.owned

/-- The handles of an open proxy are those of its particles. -/
theorem Sound.held_of_open (h : r.Sound since now) {id : ProxyId} {q : Proxy S}
    (hq : r.Open id q) : ∃ y, q.held = some y ∧ y.owned = q.particles.toList := by
  rcases h.held id q hq.1 with ⟨y, hy, _⟩
  refine ⟨y, hy, ?_⟩
  rcases q.members_of_held hy with ⟨_, hmembers, _⟩ | ⟨hno, _⟩
  · unfold Held.owned
    rw [hmembers]
    rfl
  · rw [hq.2.2] at hno
    cases hno

/-- No proxy has a slot that is not in use. -/
theorem Sound.get?_of_unused (h : r.Sound since now) {slot : Nat}
    (hunused : r.proxyPool.inUse slot = false) {id : ProxyId} (hindex : id.index = slot) :
    r.get? id = none := by
  cases hget : r.get? id with
  | none => rfl
  | some p =>
    have hused := (HandlePool.contains_iff.mp (h.inUse id p hget)).1
    rw [hindex, hunused] at hused
    cases hused

/-- Whoever is registered shares nothing with handles that are not in use. -/
theorem Sound.apart_of_unused (h : r.Sound since now) {x : Held}
    (hparticles : ∀ l ∈ x.owned, r.particlePool.inUse l.index = false)
    (hconstraints : ∀ l ∈ x.constraint?, r.constraintPool.inUse l.index = false) {id : ProxyId}
    {p : Proxy S} {y : Held} (hp : r.get? id = some p) (hy : p.held = some y) :
    (∀ k ∈ y.owned, ∀ l ∈ x.owned, k.index ≠ l.index) ∧ ∀ k ∈ y.constraint?, k ∉ x.constraint? := by
  rcases h.held id p hp with ⟨y', hy', _, hownedInUse, hconstraintInUse⟩
  rw [hy] at hy'
  cases hy'
  constructor
  · intro k hk l hl hindex
    have hused := (HandlePool.contains_iff.mp (hownedInUse k hk)).1
    rw [hindex, hparticles l hl] at hused
    cases hused
  · intro k hk hl
    have hused := (HandlePool.contains_iff.mp (hconstraintInUse k hk)).1
    rw [hconstraints k hl] at hused
    cases hused

/-- The particles that a grounded draft is going to act on are held by live proxies. -/
theorem Sound.held_uses (h : r.Sound since now) {draft : Draft S} (hdraft : r.Grounded draft)
    {k : ParticleHandle} (hk : k ∈ draft.uses) :
    ∃ parent ∈ draft.attachedTo, ∃ q y, r.get? parent = some q ∧ q.pendingDestroy = none ∧
      q.held = some y ∧ k ∈ y.owned := by
  rcases hdraft.uses k hk with ⟨parent, hparent, q, hq, hkq⟩
  rcases h.held_of_open hq with ⟨y, hy, howned⟩
  refine ⟨parent, hparent, q, y, hq.1, hq.2.1, hy, ?_⟩
  rw [howned]
  exact Array.mem_toList_iff.mpr hkq

/-- There is one proxy more. It holds handles that nobody held and is attached to open proxies. -/
structure Added (r after : Registry S) (p : Proxy S) (x : Held) : Prop where
  fresh : r.get? p.id = none
  get? : ∀ a, after.get? a = if a = p.id then some p else r.get? a
  held : p.held = some x
  live : p.pendingDestroy = none
  placed : after.Placed
  proxyPool : after.proxyPool.Sound
  particlePool : after.particlePool.Sound
  constraintPool : after.constraintPool.Sound
  proxies : ∀ a, after.proxyPool.contains a = true ↔ a = p.id ∨ r.proxyPool.contains a = true
  particles : ∀ h, after.particlePool.contains h = true ↔
    r.particlePool.contains h = true ∨ h ∈ x.owned
  constraints : ∀ h, after.constraintPool.contains h = true ↔
    r.constraintPool.contains h = true ∨ h ∈ x.constraint?
  nodup : (x.owned.map (·.index)).Nodup
  apart : ∀ a q y, r.get? a = some q → q.held = some y →
    (∀ k ∈ y.owned, ∀ l ∈ x.owned, k.index ≠ l.index) ∧ ∀ k ∈ y.constraint?, k ∉ x.constraint?
  parents : ∀ parent ∈ p.attachedTo, p.kind.ownsParticles = false ∧ ∃ q, r.Open parent q
  uses : ∀ h ∈ x.uses, ∃ parent ∈ p.attachedTo, ∃ q y, r.get? parent = some q ∧
    q.pendingDestroy = none ∧ q.held = some y ∧ h ∈ y.owned
  attached : ∀ a parent, after.Attached a parent ↔
    r.Attached a parent ∨ a = p.id ∧ parent ∈ p.attachedTo

namespace Added

variable {after : Registry S} {p : Proxy S} {x : Held}

theorem self (ha : r.Added after p x) : after.get? p.id = some p := by
  rw [ha.get?, if_pos rfl]

/-- Whoever was there is still there. -/
theorem old (ha : r.Added after p x) {id : ProxyId} {q : Proxy S} (hq : r.get? id = some q) :
    after.get? id = some q := by
  rw [ha.get?, if_neg]
  · exact hq
  · rintro rfl
    rw [ha.fresh] at hq
    cases hq

/-- An old proxy, or the new one. -/
theorem cases_of_get? (ha : r.Added after p x) {id : ProxyId} {q : Proxy S}
    (hq : after.get? id = some q) : (id = p.id ∧ q = p) ∨ r.get? id = some q := by
  rw [ha.get?] at hq
  split at hq
  case isTrue hid => exact .inl ⟨hid, (Option.some.inj hq).symm⟩
  case isFalse => exact .inr hq

/-- An old proxy shares nothing with the new one. -/
theorem not_shared (ha : r.Added after p x) {id : ProxyId} {q : Proxy S} {y : Held}
    (hq : r.get? id = some q) (hy : q.held = some y) :
    ¬ ((∃ k ∈ x.owned, k ∈ y.owned) ∨ ∃ k ∈ x.constraint?, k ∈ y.constraint?) := by
  rcases ha.apart id q y hq hy with ⟨hparticles, hconstraints⟩
  rintro (⟨k, hk, hky⟩ | ⟨k, hk, hky⟩)
  · exact hparticles k hky k hk rfl
  · exact hconstraints k hky hk

theorem exclusive (h : r.Sound since now) (ha : r.Added after p x) {a b : ProxyId} {q q' : Proxy S}
    {y z : Held} (hq : after.get? a = some q) (hq' : after.get? b = some q') (hy : q.held = some y)
    (hz : q'.held = some z)
    (hshared : (∃ k ∈ y.owned, k ∈ z.owned) ∨ ∃ k ∈ y.constraint?, k ∈ z.constraint?) : a = b := by
  rcases ha.cases_of_get? hq with ⟨hida, rfl⟩ | hq
  · rcases ha.cases_of_get? hq' with ⟨hidb, rfl⟩ | hq'
    · rw [hida, hidb]
    · rw [ha.held] at hy
      cases hy
      exact absurd hshared (ha.not_shared hq' hz)
  · rcases ha.cases_of_get? hq' with ⟨_, rfl⟩ | hq'
    · rw [ha.held] at hz
      cases hz
      refine absurd (hshared.imp ?_ ?_) (ha.not_shared hq hy)
      · exact fun ⟨k, hk, hkx⟩ => ⟨k, hkx, hk⟩
      · exact fun ⟨k, hk, hkx⟩ => ⟨k, hkx, hk⟩
    · exact h.exclusive a b q q' y z hq hq' hy hz hshared

theorem sound (h : r.Sound since now) (ha : r.Added after p x) :
    after.Sound (Function.update since p.id now) now := by
  constructor
  case placed => exact ha.placed
  case proxyPool => exact ha.proxyPool
  case particlePool => exact ha.particlePool
  case constraintPool => exact ha.constraintPool
  case inUse =>
    intro a q hq
    refine (ha.proxies a).mpr ?_
    rcases ha.cases_of_get? hq with ⟨hid, _⟩ | hq
    · exact .inl hid
    · exact .inr (h.inUse a q hq)
  case held =>
    intro a q hq
    rcases ha.cases_of_get? hq with ⟨_, rfl⟩ | hq
    · exact ⟨x, ha.held, ha.nodup, fun k hk => (ha.particles k).mpr (.inr hk),
        fun k hk => (ha.constraints k).mpr (.inr hk)⟩
    · rcases h.held a q hq with ⟨y, hy, hnodup, hparticles, hconstraints⟩
      exact ⟨y, hy, hnodup, fun k hk => (ha.particles k).mpr (.inl (hparticles k hk)),
        fun k hk => (ha.constraints k).mpr (.inl (hconstraints k hk))⟩
  case exclusive =>
    intro a b q q' y z hq hq' hy hz hshared
    exact ha.exclusive h hq hq' hy hz hshared
  -- a new proxy is attached to live ones, which have not been asked to go
  case parents =>
    intro a q hq parent hparent
    rcases ha.cases_of_get? hq with ⟨_, rfl⟩ | hq
    · rcases ha.parents parent hparent with ⟨howns, pp, hpp⟩
      refine ⟨howns, pp, ha.old hpp.1, hpp.2.2, ?_⟩
      intro d hd
      rw [hpp.2.1] at hd
      cases hd
    · rcases h.parents a q hq parent hparent with ⟨howns, pp, hpp, hparticles, hlater⟩
      exact ⟨howns, pp, ha.old hpp, hparticles, hlater⟩
  case uses =>
    intro a q y hq hy k hk
    rcases ha.cases_of_get? hq with ⟨_, rfl⟩ | hq
    · rw [ha.held] at hy
      cases hy
      rcases ha.uses k hk with ⟨parent, hparent, pp, z, hpp, _, hz, hkz⟩
      exact ⟨parent, hparent, pp, z, ha.old hpp, hz, hkz⟩
    · rcases h.uses a q y hq hy k hk with ⟨parent, hparent, pp, z, hpp, hz, hkz⟩
      exact ⟨parent, hparent, pp, z, ha.old hpp, hz, hkz⟩
  case attached =>
    intro a parent
    rw [ha.attached, h.attached]
    constructor
    · rintro (⟨q, hq, hlive, hparent⟩ | ⟨rfl, hparent⟩)
      · exact ⟨q, ha.old hq, hlive, hparent⟩
      · exact ⟨p, ha.self, ha.live, hparent⟩
    · rintro ⟨q, hq, hlive, hparent⟩
      rcases ha.cases_of_get? hq with ⟨hid, rfl⟩ | hq
      · exact .inr ⟨hid, hparent⟩
      · exact .inl ⟨q, hq, hlive, hparent⟩
  case stamps =>
    intro a q hq
    rcases ha.cases_of_get? hq with ⟨rfl, rfl⟩ | hq'
    · rw [Function.update_self, ha.live]
      exact ⟨Nat.le_refl _, nofun⟩
    · rw [Function.update_of_ne]
      · exact h.stamps a q hq'
      · rintro rfl
        rw [ha.fresh] at hq'
        cases hq'

end Added

/-- The proxy of a grounded draft is added, with the handles that its creation names. -/
theorem Sound.added_enter [Scalar S] (h : r.Sound since now) (owner : ExternalId) {draft : Draft S}
    (hdraft : r.Grounded draft) (timestamp : Timestamp) :
    ∃ p, p.id = (r.enter owner draft timestamp).1 ∧ p.owner = owner ∧ p.syncTimestamp = timestamp ∧
      r.Added (r.enter owner draft timestamp).2.2 p (r.enter owner draft timestamp).2.1.held ∧
      (r.enter owner draft timestamp).2.2.owners = r.owners.insert owner p.id ∧
      (r.enter owner draft timestamp).2.1.Matched ∧
      (r.enter owner draft timestamp).2.1.InRange := by
  rcases HandlePool.alloc_spec h.proxyPool with ⟨hproxyPool, hunused, hproxies, _⟩
  have hreserved := reserve_spec (r := { r with proxyPool := r.proxyPool.alloc.2 }) h.particlePool
    h.constraintPool draft
  unfold Registry.enter
  dsimp only
  -- from here on only what has been said about the handles counts, not how they are found
  generalize r.proxyPool.alloc = allocated at *
  rcases allocated with ⟨id, pool⟩
  generalize Registry.reserve { r with proxyPool := pool } draft = reserved at *
  rcases reserved with ⟨particles, constraint, creation, after⟩
  dsimp only at *
  rcases hreserved.same with ⟨hsame, hsamePool, hdependents, howners⟩
  dsimp only at hsame hsamePool hdependents howners
  have hafter : ∀ a, (after.attach id draft.attachedTo).get? a = r.get? a := by
    intro a
    unfold Registry.get? attach
    dsimp only
    rw [hsame]
  let p : Proxy S := {
    id, owner, constraint
    kind := draft.kind
    particles := particles.toArray
    attachedTo := draft.attachedTo
    state := draft.state
    syncTimestamp := timestamp
    pendingDestroy := none }
  refine ⟨p, rfl, rfl, rfl, ?_, congrArg (·.insert owner id) howners, hreserved.matched,
    hreserved.inRange hdraft.inRange⟩
  constructor
  case fresh => exact h.get?_of_unused hunused rfl
  case get? =>
    intro a
    rw [get?_place (fun b hb => (hafter b).trans (h.get?_of_unused hunused hb)), hafter]
  case held => exact hreserved.held _ rfl rfl rfl
  case live => rfl
  case placed =>
    refine placed_place fun i q hq => h.placed i q ?_
    rw [← hsame]
    exact hq
  case proxyPool => exact hsamePool ▸ hproxyPool
  case particlePool => exact hreserved.particlePool
  case constraintPool => exact hreserved.constraintPool
  case proxies =>
    intro a
    show after.proxyPool.contains a = true ↔ _
    rw [hsamePool]
    exact hproxies a
  case particles => exact hreserved.heldParticles
  case constraints => exact hreserved.heldConstraint
  case nodup => exact hreserved.nodup
  case apart =>
    intro a q y hq hy
    exact h.apart_of_unused hreserved.freeParticles hreserved.freeConstraint hq hy
  case parents => exact hdraft.parents
  case uses =>
    intro k hk
    rw [hreserved.uses] at hk
    exact h.held_uses hdraft hk
  case attached =>
    intro a parent
    refine Iff.trans attached_attach ?_
    unfold Attached
    rw [hdependents]

theorem Sound.enter [Scalar S] (h : r.Sound since now) {owner : ExternalId}
    (hfree : r.owners[owner]? = none) {draft : Draft S} (hdraft : r.Grounded draft)
    (timestamp : Timestamp) :
    r.Entered (r.enter owner draft timestamp).2.2 (r.enter owner draft timestamp).1
        (r.enter owner draft timestamp).2.1 timestamp ∧
      (r.enter owner draft timestamp).2.2.Sound
        (Function.update since (r.enter owner draft timestamp).1 now) now := by
  rcases h.added_enter owner hdraft timestamp with
    ⟨p, hid, rfl, hsync, ha, howners, hmatched, hrange⟩
  rw [← hid]
  refine ⟨?_, ha.sound h⟩
  constructor
  case fresh => exact ha.fresh
  case proxy => exact ⟨p, rfl, ha.held, ha.live, hsync, ha.get?⟩
  case owner => exact ⟨p, ha.self, hfree, howners⟩
  case proxies => exact ha.proxies
  case particles => exact ha.particles
  case constraints => exact ha.constraints
  case inRange => exact hrange
  case matched => exact hmatched
  case nodup => exact ha.nodup
  case apart =>
    intro k hk a q y hq hy l hl
    exact (ha.apart a q y hq hy).1 l hl k hk
  case uses =>
    intro k hk
    rcases ha.uses k hk with ⟨parent, _, q, y, hq, hlive, hy, hky⟩
    exact ⟨parent, q, y, hq, hlive, hy, hky⟩

/-- A registration adds one proxy that holds handles of its own. -/
theorem Sound.register [Scalar S] (h : r.Sound since now) {owner : ExternalId}
    {blueprint : Blueprint S} {stiffness : S} {timestamp : Timestamp} {id : ProxyId}
    {creation : Creation S} {after : Registry S}
    (hok : r.register owner blueprint timestamp stiffness = .ok (id, creation, after)) :
    r.Entered after id creation timestamp ∧ after.Sound (Function.update since id now) now := by
  unfold Registry.register at hok
  split at hok
  · cases hok
  case h_2 hfree =>
    rcases exists_of_bind_ok hok with ⟨draft, hdraft, hok⟩
    have hfree : r.owners[owner]? = none := Option.eq_none_iff_forall_not_mem.mpr hfree
    have hentered := h.enter hfree (grounded_draft hdraft) timestamp
    have heq : r.enter owner draft timestamp = (id, creation, after) := by
      cases hok
      rfl
    rw [heq] at hentered
    exact hentered

/-! ## Unregistering -/

/-- What marking proxies does: they are unregistered, and their parents no longer list them. -/
structure Marked (r after : Registry S) (gone : List ProxyId) (now : Timestamp) : Prop where
  placed : after.Placed
  pools : after.proxyPool = r.proxyPool ∧ after.particlePool = r.particlePool ∧
    after.constraintPool = r.constraintPool
  get? : ∀ a, after.get? a =
    if a ∈ gone then (r.get? a).map ({ · with pendingDestroy := some now }) else r.get? a
  owners : ∀ o a, after.owners[o]? = some a ↔
    r.owners[o]? = some a ∧ ¬ ∃ b ∈ gone, ∃ p, r.get? b = some p ∧ p.owner = o
  attached : ∀ a b, after.Attached a b ↔
    r.Attached a b ∧ ¬ (a ∈ gone ∧ ∃ p, r.get? a = some p ∧ b ∈ p.attachedTo)

theorem Marked.mark {after : Registry S} {gone : List ProxyId} (h : r.Marked after gone now)
    {id : ProxyId} (hnew : id ∉ gone) {p : Proxy S} (hp : r.get? id = some p) :
    r.Marked (after.mark now id) (gone ++ [id]) now := by
  have hget : after.get? id = some p := by
    rw [h.get?, if_neg hnew]
    exact hp
  have hmem : ∀ a, a ∈ gone ++ [id] ↔ a ∈ gone ∨ a = id := by
    intro a
    rw [List.mem_append, List.mem_singleton]
  unfold Registry.mark
  rw [hget]
  dsimp only
  rcases modify_rest after id ({ · with pendingDestroy := some now }) with
    ⟨hproxies, hparticles, hconstraints, howners, hdependents⟩
  constructor
  · exact placed_modify (fun _ => rfl) h.placed
  · exact ⟨hproxies.trans h.pools.1, hparticles.trans h.pools.2.1, hconstraints.trans h.pools.2.2⟩
  · intro a
    have hchange : ∀ q : Proxy S, { q with pendingDestroy := some now }.id = q.id := fun _ => rfl
    have hmodify := @get?_modify S after id _ hchange a
    refine Eq.trans hmodify ?_
    rw [h.get?]
    by_cases ha : a = id
    · rw [if_pos ha, if_neg (ha ▸ hnew), if_pos ((hmem a).mpr (.inr ha))]
    · rw [if_neg ha]
      by_cases hgone : a ∈ gone
      · rw [if_pos hgone, if_pos ((hmem a).mpr (.inl hgone))]
      · rw [if_neg hgone, if_neg fun hm => ((hmem a).mp hm).elim hgone ha]
  · intro o a
    have hown : (∃ b ∈ gone ++ [id], ∃ q, r.get? b = some q ∧ q.owner = o) ↔
        (∃ b ∈ gone, ∃ q, r.get? b = some q ∧ q.owner = o) ∨ p.owner = o := by
      constructor
      · rintro ⟨b, hb, q, hq, ho⟩
        rcases (hmem b).mp hb with hb | rfl
        · exact .inl ⟨b, hb, q, hq, ho⟩
        · rw [hp] at hq
          cases hq
          exact .inr ho
      · rintro (⟨b, hb, hq⟩ | ho)
        · exact ⟨b, (hmem b).mpr (.inl hb), hq⟩
        · exact ⟨id, (hmem id).mpr (.inr rfl), p, hp, ho⟩
    dsimp only
    rw [howners, Maps.getElem?_erase, hown, not_or, ← and_assoc, ← h.owners]
    by_cases ho : o = p.owner
    · simp [ho]
    · rw [if_neg ho, and_iff_left (Ne.symm ho)]
  · intro a b
    unfold Attached
    dsimp only
    rw [hdependents, mem_foldl_erase]
    refine (and_congr_left' (h.attached a b)).trans ?_
    rw [and_assoc, ← not_or, hmem]
    refine and_congr_right fun _ => not_congr ⟨?_, ?_⟩
    · rintro (⟨hgone, hq⟩ | ⟨rfl, hb⟩)
      · exact ⟨.inl hgone, hq⟩
      · exact ⟨.inr rfl, p, hp, hb⟩
    · rintro ⟨hgone | rfl, q, hq, hb⟩
      · exact .inl ⟨hgone, q, hq, hb⟩
      · rw [hp] at hq
        cases hq
        exact .inr ⟨rfl, hb⟩

theorem marked_foldl (h : r.Placed) {gone : List ProxyId} (hnodup : gone.Nodup)
    (hgone : ∀ a ∈ gone, ∃ p, r.get? a = some p) (now : Timestamp) :
    r.Marked (gone.foldl (Registry.mark now) r) gone now := by
  suffices hall : ∀ rest done after, gone = done ++ rest → r.Marked after done now →
      r.Marked (rest.foldl (Registry.mark now) after) gone now by
    refine hall gone [] r rfl ⟨h, ⟨rfl, rfl, rfl⟩, fun a => rfl, ?_, ?_⟩
    · intro o a
      exact (and_iff_left fun ⟨_, hb, _⟩ => List.not_mem_nil hb).symm
    · intro a b
      exact (and_iff_left fun hno => List.not_mem_nil hno.1).symm
  intro rest
  induction rest with
  | nil =>
    intro done after heq hdone
    rw [List.append_nil] at heq
    exact heq ▸ hdone
  | cons id rest ih =>
    intro done after heq hdone
    rcases hgone id (by simp [heq]) with ⟨p, hp⟩
    refine ih (done ++ [id]) _ (by simp [heq]) (hdone.mark ?_ hp)
    rw [heq] at hnodup
    exact fun hin => (List.nodup_append.mp hnodup).2.2 _ hin _ List.mem_cons_self rfl

/-- What unregistering does: the constraints attached to a proxy are marked and then the proxy
itself, and no constraint is left that acts on its particles. -/
structure Unlisted (r after : Registry S) (id : ProxyId) (gone : List ProxyId) (now : Timestamp) :
    Prop where
  last : ∃ constraints, gone = constraints ++ [id] ∧ ∀ a ∈ constraints, ∃ p, r.get? a = some p ∧
    p.kind.ownsParticles = false
  nodup : gone.Nodup
  live : ∀ a ∈ gone, ∃ p, r.get? a = some p ∧ p.pendingDestroy = none
  get? : ∀ a, after.get? a =
    if a ∈ gone then (r.get? a).map ({ · with pendingDestroy := some now }) else r.get? a
  unused : ∀ a p x, r.get? a = some p → p.pendingDestroy = none → a ∉ gone → p.held = some x →
    ∀ q y, r.get? id = some q → q.held = some y → ∀ h ∈ y.owned, h ∉ x.uses
  pools : after.proxyPool = r.proxyPool ∧ after.particlePool = r.particlePool ∧
    after.constraintPool = r.constraintPool
  owners : ∀ o a, after.owners[o]? = some a ↔
    r.owners[o]? = some a ∧ ¬ ∃ b ∈ gone, ∃ p, r.get? b = some p ∧ p.owner = o

/-- The live constraints that are listed with a proxy. -/
def constraintsOf (r : Registry S) (id : ProxyId) : List ProxyId :=
  (r.dependents.getD id ∅).toList.filter r.isLive

/-- The constraints listed with a proxy are all that are attached to it and live. -/
theorem Sound.mem_constraintsOf (h : r.Sound since now) {id a : ProxyId} :
    a ∈ r.constraintsOf id ↔
      ∃ q, r.get? a = some q ∧ q.pendingDestroy = none ∧ id ∈ q.attachedTo := by
  have hattached := h.attached a id
  unfold Attached at hattached
  unfold constraintsOf
  rw [List.mem_filter, Std.TreeSet.mem_toList, hattached]
  refine and_iff_left_of_imp ?_
  rintro ⟨q, hq, hlive, _⟩
  unfold isLive Proxy.isPending
  rw [hq]
  dsimp only
  rw [hlive]
  rfl

theorem Sound.owns_nothing_of_mem (h : r.Sound since now) {id a : ProxyId}
    (ha : a ∈ r.constraintsOf id) : ∃ q, r.get? a = some q ∧ q.kind.ownsParticles = false := by
  rcases h.mem_constraintsOf.mp ha with ⟨q, hq, _, hmem⟩
  exact ⟨q, hq, (h.parents a q hq id hmem).1⟩

/-- A constraint is not attached to itself. -/
theorem Sound.not_mem_constraintsOf_self (h : r.Sound since now) (id : ProxyId) :
    id ∉ r.constraintsOf id := by
  intro hmem
  rcases h.mem_constraintsOf.mp hmem with ⟨q, hq, _, hid⟩
  rcases h.parents id q hq id hid with ⟨hno, q', hq', hyes, _⟩
  rw [hq] at hq'
  cases hq'
  rw [hno] at hyes
  cases hyes

theorem Sound.nodup_unlisted (h : r.Sound since now) (id : ProxyId) :
    (r.constraintsOf id ++ [id]).Nodup := by
  refine List.nodup_append.mpr ⟨?_, List.nodup_singleton id, ?_⟩
  · refine List.Nodup.filter _ ?_
    refine Std.TreeSet.distinct_toList.imp ?_
    rintro a b hne rfl
    exact hne Std.ReflCmp.compare_self
  · rintro a ha b hb rfl
    rw [List.mem_singleton.mp hb] at ha
    exact h.not_mem_constraintsOf_self id ha

theorem Sound.live_unlisted (h : r.Sound since now) {id : ProxyId} {p : Proxy S}
    (hp : r.get? id = some p) (hlive : p.pendingDestroy = none) {a : ProxyId}
    (ha : a ∈ r.constraintsOf id ++ [id]) : ∃ q, r.get? a = some q ∧ q.pendingDestroy = none := by
  rcases List.mem_append.mp ha with ha | ha
  · rcases h.mem_constraintsOf.mp ha with ⟨q, hq, hqlive, _⟩
    exact ⟨q, hq, hqlive⟩
  · rw [List.mem_singleton.mp ha]
    exact ⟨p, hp, hlive⟩

/-- A proxy is unregistered now, or it is as it was. -/
def MarkedIn (gone : List ProxyId) (now : Timestamp) (id : ProxyId) (p q : Proxy S) : Prop :=
  id ∈ gone ∧ q.pendingDestroy = some now ∨ id ∉ gone ∧ q.pendingDestroy = p.pendingDestroy

theorem rel_of_marks {after : Registry S} {gone : List ProxyId} (hget : ∀ a, after.get? a =
      if a ∈ gone then (r.get? a).map ({ · with pendingDestroy := some now }) else r.get? a)
    (id : ProxyId) :
    Option.Rel (fun p q => p.Revised q ∧ MarkedIn gone now id p q) (r.get? id) (after.get? id) := by
  rw [hget]
  cases r.get? id with
  | none =>
    rw [Option.map_none, ite_self]
    exact .none
  | some p =>
    split
    case isTrue hmem =>
      exact .some ⟨⟨Proxy.held_congr rfl rfl rfl, rfl, rfl⟩, .inl ⟨hmem, rfl⟩⟩
    case isFalse hout => exact .some ⟨.refl p, .inr ⟨hout, rfl⟩⟩

namespace Unlisted

variable {after : Registry S} {id : ProxyId} {gone : List ProxyId}

theorem rel (hu : r.Unlisted after id gone now) (a : ProxyId) :
    Option.Rel (fun p q => p.Revised q ∧ MarkedIn gone now a p q) (r.get? a) (after.get? a) :=
  rel_of_marks hu.get? a

theorem revised (hu : r.Unlisted after id gone now) : r.Revised after where
  proxyPool := hu.pools.1
  particlePool := hu.pools.2.1
  constraintPool := hu.pools.2.2
  proxies a := Maps.rel_imp (hu.rel a) fun _ _ => And.left

/-- Only the proxy itself among those that go owns particles. -/
theorem eq_of_owns (hu : r.Unlisted after id gone now) {a : ProxyId} {p : Proxy S} (ha : a ∈ gone)
    (hp : r.get? a = some p) (howns : p.kind.ownsParticles = true) : a = id := by
  rcases hu.last with ⟨constraints, rfl, hconstraints⟩
  rcases List.mem_append.mp ha with ha | ha
  · rcases hconstraints a ha with ⟨p', hp', hno⟩
    rw [hp] at hp'
    cases hp'
    rw [howns] at hno
    cases hno
  · exact List.mem_singleton.mp ha

/-- A constraint still goes no later than what it is attached to: with the proxy that goes now go all
constraints that have been attached to it. -/
theorem later (h : r.Sound since now) (hu : r.Unlisted after id gone now)
    (hchild : ∀ a p, r.get? a = some p → p.pendingDestroy = none → id ∈ p.attachedTo → a ∈ gone)
    {a parent : ProxyId} {q qq : Proxy S} (hq : after.get? a = some q)
    (hparent : parent ∈ q.attachedTo) (hqq : after.get? parent = some qq) {d : Timestamp}
    (hd : qq.pendingDestroy = some d) : ∃ e, q.pendingDestroy = some e ∧ e ≤ d := by
  rcases Maps.exists_before (hu.rel a) hq with ⟨p, hp, hpq, hmark⟩
  rcases Maps.exists_before (hu.rel parent) hqq with ⟨pp, hpp, _, hmark'⟩
  rw [hpq.attachedTo] at hparent
  rcases h.parents a p hp parent hparent with ⟨_, pp', hpp', howns, hlater⟩
  rw [hpp] at hpp'
  cases hpp'
  rcases hmark with ⟨hmem, he⟩ | ⟨hout, he⟩
  · -- it goes now, and its parent goes now or has no mark
    refine ⟨now, he, ?_⟩
    rcases hmark' with ⟨_, hd'⟩ | ⟨_, hd'⟩
    · rw [hd] at hd'
      exact Nat.le_of_eq (congrArg Timestamp.ticks (Option.some.inj hd').symm)
    · rcases hlater d (hd' ▸ hd) with ⟨e, he', _⟩
      rcases hu.live a hmem with ⟨p', hp', hlive⟩
      rw [hp] at hp'
      cases hp'
      rw [hlive] at he'
      cases he'
  · rw [he]
    rcases hmark' with ⟨hmem', hd'⟩ | ⟨_, hd'⟩
    · -- the parent goes now, so that the constraint has gone before
      rw [hd] at hd'
      cases hd'
      have hid := hu.eq_of_owns hmem' hpp howns
      cases hpending : p.pendingDestroy with
      | none => exact absurd (hchild a p hp hpending (hid ▸ hparent)) hout
      | some e => exact ⟨e, rfl, (h.stamps a p hp).2 e hpending⟩
    · exact hlater d (hd' ▸ hd)

theorem attached_iff (h : r.Sound since now) (hu : r.Unlisted after id gone now)
    (hchild : ∀ a p, r.get? a = some p → p.pendingDestroy = none → id ∈ p.attachedTo → a ∈ gone)
    (a parent : ProxyId) :
    (r.Attached a parent ∧ parent ≠ id) ∧
        ¬ (a ∈ gone ∧ ∃ p, r.get? a = some p ∧ parent ∈ p.attachedTo) ↔
      ∃ q, after.get? a = some q ∧ q.pendingDestroy = none ∧ parent ∈ q.attachedTo := by
  rw [h.attached]
  constructor
  · rintro ⟨⟨⟨p, hp, hlive, hparent⟩, _⟩, hno⟩
    rcases Maps.exists_after (hu.rel a) hp with ⟨q, hq, hpq, ⟨hmem, _⟩ | ⟨_, heq⟩⟩
    · exact absurd ⟨hmem, p, hp, hparent⟩ hno
    · exact ⟨q, hq, heq.trans hlive, hpq.attachedTo ▸ hparent⟩
  · rintro ⟨q, hq, hlive, hparent⟩
    rcases Maps.exists_before (hu.rel a) hq with ⟨p, hp, hpq, ⟨_, heq⟩ | ⟨hout, heq⟩⟩
    · rw [hlive] at heq
      cases heq
    · rw [hpq.attachedTo] at hparent
      rw [hlive] at heq
      refine ⟨⟨⟨p, hp, heq.symm, hparent⟩, ?_⟩, fun hno => hout hno.1⟩
      rintro rfl
      exact hout (hchild a p hp heq.symm hparent)

end Unlisted

theorem Sound.unregister (h : r.Sound since now) {id : ProxyId} {gone : List ProxyId}
    {after : Registry S} (hok : r.unregister id now = .ok (gone, after)) :
    r.Unlisted after id gone now ∧ after.Sound since now := by
  unfold Registry.unregister at hok
  rcases exists_of_bind_ok hok with ⟨p, hp, hok⟩
  rcases exists_of_bind_ok hok with ⟨_, hlive, hok⟩
  replace hp := find_ok hp
  replace hlive := requireLive_ok hlive
  cases hok
  let listed : Registry S := { r with dependents := r.dependents.erase id }
  let gone := r.constraintsOf id ++ [id]
  have hmarked : listed.Marked (gone.foldl (Registry.mark now) listed) gone now := by
    refine marked_foldl (r := listed) h.placed (h.nodup_unlisted id) ?_ now
    intro a ha
    rcases h.live_unlisted hp hlive ha with ⟨q, hq, _⟩
    exact ⟨q, hq⟩
  -- whatever is attached to the proxy and live goes with it
  have hchild : ∀ a q, r.get? a = some q → q.pendingDestroy = none → id ∈ q.attachedTo →
      a ∈ gone := by
    intro a q hq hqlive hmem
    exact List.mem_append_left _ (h.mem_constraintsOf.mpr ⟨q, hq, hqlive, hmem⟩)
  have hunlisted : r.Unlisted (gone.foldl (Registry.mark now) listed) id gone now := by
    refine ⟨⟨_, rfl, fun a ha => h.owns_nothing_of_mem ha⟩, h.nodup_unlisted id,
      fun a ha => h.live_unlisted hp hlive ha, hmarked.get?, ?_, hmarked.pools, hmarked.owners⟩
    intro a q x hq hqlive hout hx pp y hpp hy k hk huse
    rcases h.uses a q x hq hx k huse with ⟨parent, hparent, qq, z, hqq, hz, hkz⟩
    have heq := h.exclusive parent id qq pp z y hqq hpp hz hy (.inl ⟨k, hkz, hk⟩)
    exact hout (hchild a q hq hqlive (heq ▸ hparent))
  refine ⟨hunlisted, h.revised hunlisted.revised hmarked.placed ?_ ?_ ?_⟩
  · intro a q parent qq hq hparent hqq d hd
    exact hunlisted.later h hchild hq hparent hqq hd
  · intro a parent
    have hlisted : listed.Attached a parent ↔ r.Attached a parent ∧ parent ≠ id := mem_getD_erase
    refine (hmarked.attached a parent).trans ?_
    rw [hlisted]
    exact hunlisted.attached_iff h hchild a parent
  · intro a q hq d hd
    rcases Maps.exists_before (hunlisted.rel a) hq with ⟨p', hp', _, ⟨_, heq⟩ | ⟨_, heq⟩⟩
    · rw [heq] at hd
      cases hd
      exact Nat.le_refl _
    · exact (h.stamps a p' hp').2 d (heq ▸ hd)

/-! ## Writing -/

/-- A stamp does not change what a proxy holds. -/
theorem stamp_keeps (timestamp : Timestamp) (p : Proxy S) :
    (stamp timestamp p).id = p.id ∧ (stamp timestamp p).held = p.held ∧
      (stamp timestamp p).kind = p.kind ∧ (stamp timestamp p).attachedTo = p.attachedTo ∧
      (stamp timestamp p).pendingDestroy = p.pendingDestroy :=
  ⟨rfl, Proxy.held_congr rfl rfl rfl, rfl, rfl, rfl⟩

/-- Only proxies that have not been unregistered may be written to, and they are stamped. -/
theorem forWrite_ok {id : ProxyId} {timestamp : Timestamp} {p : Proxy S} {after : Registry S}
    (hok : r.forWrite id timestamp = .ok (p, after)) :
    ∃ q, r.get? id = some q ∧ q.pendingDestroy = none ∧ p = stamp timestamp q ∧
      after = r.modify id (stamp timestamp) := by
  unfold forWrite at hok
  rcases exists_of_bind_ok hok with ⟨q, hq, hok⟩
  rcases exists_of_bind_ok hok with ⟨_, hlive, hok⟩
  cases hok
  exact ⟨q, find_ok hq, requireLive_ok hlive, rfl, rfl⟩

theorem ofKindForWrite_ok {id : ProxyId} {kind : ProxyKind} {timestamp : Timestamp} {p : Proxy S}
    {after : Registry S} (hok : r.ofKindForWrite id kind timestamp = .ok (p, after)) :
    ∃ q, r.get? id = some q ∧ q.pendingDestroy = none ∧ q.kind = kind ∧ p = stamp timestamp q ∧
      after = r.modify id (stamp timestamp) := by
  unfold ofKindForWrite at hok
  rcases exists_of_bind_ok hok with ⟨q, hq, hok⟩
  split at hok
  case isTrue => cases hok
  case isFalse hkind =>
    rcases forWrite_ok hok with ⟨q', hq', hlive, hp, hafter⟩
    rw [find_ok hq] at hq'
    cases hq'
    exact ⟨q, find_ok hq, hlive, not_not.mp hkind, hp, hafter⟩

theorem particleForWrite_ok {id : ProxyId} {index : Nat} {timestamp : Timestamp}
    {h : ParticleHandle} {after : Registry S}
    (hok : r.particleForWrite id index timestamp = .ok (h, after)) :
    ∃ q, r.Open id q ∧ h ∈ q.particles ∧ after = r.modify id (stamp timestamp) := by
  unfold particleForWrite at hok
  rcases exists_of_bind_ok hok with ⟨q, hq, hok⟩
  rcases exists_of_bind_ok hok with ⟨_, howns, hok⟩
  rcases exists_of_bind_ok hok with ⟨k, hk, hok⟩
  rcases exists_of_bind_ok hok with ⟨⟨p, registry⟩, hwrite, hok⟩
  cases hok
  rcases forWrite_ok hwrite with ⟨q', hq', hlive, _, hafter⟩
  rw [find_ok hq] at hq'
  cases hq'
  exact ⟨q, ⟨find_ok hq, hlive, requireParticles_ok howns⟩, entryOf_ok hk, hafter⟩

end Registry

end TetheredParticles
