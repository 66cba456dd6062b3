import TetheredParticles.Proofs.Registry.Calls
import TetheredParticles.Scalar.Binary
/-!
# Coherence of the registry

The slots, the pools, the owners and the lists of attached constraints all tell the same story,
whatever calls have been made. Soundness says that whoever is in a slot is accounted for elsewhere;
completeness is the converse. A constraint goes no later than the proxies it is attached to because
unregistering one of these unregisters it as well, under the same number.

* `Registry.Complete` — nothing is in use or listed that is not in a slot.
* `Registry.Coherent` — what the structures have to do with each other.
* `Registry.run_coherent` — every run of calls keeps them together.
-/

namespace TetheredParticles

variable {S : Type}

namespace Registry

/-- Owners are listed with exactly their live proxies, and no handle is in use that no proxy
holds. -/
structure Complete (r : Registry S) : Prop where
  owners : ∀ o id, r.owners[o]? = some id ↔
    ∃ p, r.get? id = some p ∧ p.pendingDestroy = none ∧ p.owner = o
  proxies : ∀ id, r.proxyPool.contains id = true → ∃ p, r.get? id = some p
  particles : ∀ h, r.particlePool.contains h = true →
    ∃ id p x, r.get? id = some p ∧ p.held = some x ∧ h ∈ x.owned
  constraints : ∀ h, r.constraintPool.contains h = true →
    ∃ id p x, r.get? id = some p ∧ p.held = some x ∧ h ∈ x.constraint?

variable {r after : Registry S} {since : ProxyId → Timestamp} {now : Timestamp}

/-! ## What calls keep -/

theorem complete_empty : (empty : Registry S).Complete := by
  have hunused : ∀ {kind : HandleKind} (h : Handle kind),
      ¬ (HandlePool.empty : HandlePool kind).contains h = true := by
    intro kind h
    simp [HandlePool.contains, HandlePool.empty]
  constructor
  case owners =>
    intro o id
    constructor
    · intro h
      exact absurd h (by simp [empty])
    · rintro ⟨p, hp, _⟩
      rw [get?_empty] at hp
      cases hp
  case proxies =>
    intro id h
    exact absurd h (hunused id)
  case particles =>
    intro k h
    exact absurd h (hunused k)
  case constraints =>
    intro k h
    exact absurd h (hunused k)

namespace Complete

/-- Revised proxies hold what they held before, so that only owners have to be looked at. -/
theorem revised (h : r.Complete) (hr : r.Revised after)
    (howners : ∀ o id, after.owners[o]? = some id ↔
      ∃ p, after.get? id = some p ∧ p.pendingDestroy = none ∧ p.owner = o) : after.Complete := by
  constructor
  case owners => exact howners
  case proxies =>
    intro a ha
    rw [hr.proxyPool] at ha
    rcases h.proxies a ha with ⟨p, hp⟩
    rcases hr.exists_new hp with ⟨q, hq, _⟩
    exact ⟨q, hq⟩
  case particles =>
    intro k hk
    rw [hr.particlePool] at hk
    rcases h.particles k hk with ⟨a, p, x, hp, hx, hkx⟩
    rcases hr.exists_new hp with ⟨q, hq, hpq⟩
    exact ⟨a, q, x, hq, hpq.held.trans hx, hkx⟩
  case constraints =>
    intro k hk
    rw [hr.constraintPool] at hk
    rcases h.constraints k hk with ⟨a, p, x, hp, hx, hkx⟩
    rcases hr.exists_new hp with ⟨q, hq, hpq⟩
    exact ⟨a, q, x, hq, hpq.held.trans hx, hkx⟩

/-- A change of a proxy that leaves its owner, its handles and its end alone. -/
theorem modify (h : r.Complete) (id : ProxyId) {change : Proxy S → Proxy S}
    (hchange : ∀ p, (change p).id = p.id ∧ (change p).held = p.held ∧
      (change p).kind = p.kind ∧ (change p).attachedTo = p.attachedTo ∧
      (change p).pendingDestroy = p.pendingDestroy) (howner : ∀ p, (change p).owner = p.owner) :
    (r.modify id change).Complete := by
  have hrel : ∀ a, Option.Rel
      (fun p q : Proxy S => q.owner = p.owner ∧ q.pendingDestroy = p.pendingDestroy)
      (r.get? a) ((r.modify id change).get? a) :=
    rel_modify (fun p => (hchange p).1) (fun p => ⟨rfl, rfl⟩)
      fun p => ⟨howner p, (hchange p).2.2.2.2⟩
  refine h.revised (.modify id hchange) fun o a => ?_
  rw [(modify_rest r id change).2.2.2.1, h.owners]
  constructor
  · rintro ⟨p, hp, hlive, ho⟩
    rcases Maps.exists_after (hrel a) hp with ⟨q, hq, howner, hpending⟩
    exact ⟨q, hq, hpending.trans hlive, howner.trans ho⟩
  · rintro ⟨q, hq, hlive, ho⟩
    rcases Maps.exists_before (hrel a) hq with ⟨p, hp, howner, hpending⟩
    exact ⟨p, hp, hpending ▸ hlive, howner ▸ ho⟩

/-- The owner of a new proxy is listed with it; all others are listed as they were. -/
theorem owners_entered (h : r.Complete) {id : ProxyId} {p : Proxy S}
    (hfresh : r.get? id = none) (hlive : p.pendingDestroy = none) (hfree : r.owners[p.owner]? = none)
    (hget : ∀ a, after.get? a = if a = id then some p else r.get? a)
    (howners : after.owners = r.owners.insert p.owner id) (o : ExternalId) (a : ProxyId) :
    after.owners[o]? = some a ↔
      ∃ q, after.get? a = some q ∧ q.pendingDestroy = none ∧ q.owner = o := by
  rw [howners, Maps.getElem?_insert, hget]
  by_cases ha : a = id
  · -- the new proxy has one owner
    rw [if_pos ha, ha]
    constructor
    · intro hlisted
      split at hlisted
      case isTrue ho => exact ⟨p, rfl, hlive, ho.symm⟩
      case isFalse =>
        rcases (h.owners o id).mp hlisted with ⟨q, hq, _⟩
        rw [hfresh] at hq
        cases hq
    · rintro ⟨q, hq, _, ho⟩
      cases hq
      rw [if_pos ho.symm]
  · rw [if_neg ha, ← h.owners]
    by_cases ho : o = p.owner
    · -- this owner had no proxy before
      rw [if_pos ho, ho, hfree]
      constructor
      · intro heq
        exact absurd (Option.some.inj heq).symm ha
      · intro hno
        cases hno
    · rw [if_neg ho]

/-- The handles of a new proxy are all that is added. -/
theorem entered (h : r.Complete) {id : ProxyId} {creation : Creation S} {timestamp : Timestamp}
    (hentered : r.Entered after id creation timestamp) : after.Complete := by
  rcases hentered.proxy with ⟨p, _, hheld, hlive, _, hget⟩
  rcases hentered.owner with ⟨p', hp', hfree, howners⟩
  have hp : after.get? id = some p := by
    rw [hget, if_pos rfl]
  rw [hp] at hp'
  cases hp'
  have hold : ∀ a q, r.get? a = some q → after.get? a = some q := by
    intro a q hq
    rw [hget, if_neg]
    · exact hq
    · rintro rfl
      rw [hentered.fresh] at hq
      cases hq
  constructor
  case owners => exact h.owners_entered hentered.fresh hlive hfree hget howners
  case proxies =>
    intro a ha
    rcases (hentered.proxies a).mp ha with rfl | ha
    · exact ⟨p, hp⟩
    · rcases h.proxies a ha with ⟨q, hq⟩
      exact ⟨q, hold a q hq⟩
  case particles =>
    intro k hk
    rcases (hentered.particles k).mp hk with hk | hk
    · rcases h.particles k hk with ⟨a, q, x, hq, hx, hkx⟩
      exact ⟨a, q, x, hold a q hq, hx, hkx⟩
    · exact ⟨id, p, creation.held, hp, hheld, hk⟩
  case constraints =>
    intro k hk
    rcases (hentered.constraints k).mp hk with hk | hk
    · rcases h.constraints k hk with ⟨a, q, x, hq, hx, hkx⟩
      exact ⟨a, q, x, hold a q hq, hx, hkx⟩
    · exact ⟨id, p, creation.held, hp, hheld, hk⟩

/-- The owners of unregistered proxies are no longer listed, and all handles stay in use. -/
theorem unlisted (h : r.Complete) {id : ProxyId} {gone : List ProxyId}
    (hunlisted : r.Unlisted after id gone now) : after.Complete := by
  refine h.revised hunlisted.revised fun o a => ?_
  rw [hunlisted.owners, h.owners, hunlisted.get?]
  constructor
  · rintro ⟨⟨p, hp, hlive, ho⟩, hno⟩
    have ha : a ∉ gone := fun ha => hno ⟨a, ha, p, hp, ho⟩
    rw [if_neg ha]
    exact ⟨p, hp, hlive, ho⟩
  · rintro ⟨q, hq, hlive, ho⟩
    split at hq
    case isTrue =>
      rcases Option.map_eq_some_iff.mp hq with ⟨p, _, rfl⟩
      cases hlive
    case isFalse ha =>
      refine ⟨⟨q, hq, hlive, ho⟩, ?_⟩
      rintro ⟨b, hb, p, hp, hpo⟩
      -- an owner has one live proxy
      rcases hunlisted.live b hb with ⟨p', hp', hblive⟩
      rw [hp] at hp'
      cases hp'
      have hone := (h.owners o a).mpr ⟨q, hq, hlive, ho⟩
      have htwo := (h.owners o b).mpr ⟨p, hp, hblive, hpo⟩
      rw [hone] at htwo
      cases htwo
      exact ha hb

/-- Released proxies take all their handles along. -/
theorem released (h : r.Complete) {gone : List (Proxy S)} (hreleased : r.Released after gone)
    (hgone : ∀ p ∈ gone, r.get? p.id = some p ∧ p.pendingDestroy ≠ none) : after.Complete := by
  have hkept : ∀ a p, r.get? a = some p → p ∉ gone → after.get? a = some p := by
    intro a p hp hout
    rw [hreleased.get?, if_neg]
    · exact hp
    · intro hmem
      rcases List.mem_map.mp hmem with ⟨q, hq, rfl⟩
      rw [(hgone q hq).1] at hp
      cases hp
      exact hout hq
  constructor
  case owners =>
    intro o a
    rw [hreleased.owners, h.owners]
    constructor
    · rintro ⟨p, hp, hlive, ho⟩
      exact ⟨p, hkept a p hp fun hmem => (hgone p hmem).2 hlive, hlive, ho⟩
    · rintro ⟨p, hp, hp'⟩
      rw [hreleased.get?] at hp
      split at hp
      · cases hp
      · exact ⟨p, hp, hp'⟩
  case proxies =>
    intro a ha
    rcases (hreleased.proxies a).mp ha with ⟨ha, hout⟩
    rcases h.proxies a ha with ⟨p, hp⟩
    exact ⟨p, hkept a p hp fun hmem => hout (List.mem_map.mpr ⟨p, hmem, id_of_get? hp⟩)⟩
  case particles =>
    intro k hk
    rcases (hreleased.particles k).mp hk with ⟨hk, hout⟩
    rcases h.particles k hk with ⟨a, p, x, hp, hx, hkx⟩
    exact ⟨a, p, x, hkept a p hp fun hmem => hout p hmem x hx hkx, hx, hkx⟩
  case constraints =>
    intro k hk
    rcases (hreleased.constraints k).mp hk with ⟨hk, hout⟩
    rcases h.constraints k hk with ⟨a, p, x, hp, hx, hkx⟩
    exact ⟨a, p, x, hkept a p hp fun hmem => hout p hmem x hx hkx, hx, hkx⟩

end Complete

/-! ## The structures agree -/

/-- The registry is sound up to a number, and complete. -/
def Kept (r : Registry S) (now : Timestamp) : Prop := (∃ since, r.Sound since now) ∧ r.Complete

/-- What the structures of the registry have to do with each other. -/
structure Coherent (r : Registry S) : Prop where
  /-- The proxies are those that their handles lead to. -/
  slots : ∀ p, p ∈ r.toList ↔ r.get? p.id = some p
  /-- Owners are listed with exactly their live proxies. -/
  owners : ∀ o id, r.proxyOf? o = some id ↔
    ∃ p, r.get? id = some p ∧ p.isPending = false ∧ p.owner = o
  /-- No owner has two live proxies. -/
  single : ∀ a b p q, r.get? a = some p → r.get? b = some q → p.isPending = false →
    q.isPending = false → p.owner = q.owner → a = b
  /-- The handles of proxies in use are those of the proxies. -/
  proxyPool : ∀ id, r.proxyPool.contains id = true ↔ ∃ p, r.get? id = some p
  /-- The handles of particles in use are those that proxies own. -/
  particlePool : ∀ h, r.particlePool.contains h = true ↔
    ∃ id p, r.get? id = some p ∧ p.kind.ownsParticles = true ∧ h ∈ p.particles
  /-- No particle has two proxies. -/
  exclusive : ∀ a b p q h, r.get? a = some p → r.get? b = some q →
    p.kind.ownsParticles = true → q.kind.ownsParticles = true → h ∈ p.particles →
    h ∈ q.particles → a = b
  /-- No proxy has a particle twice. -/
  distinct : ∀ id p, r.get? id = some p → p.kind.ownsParticles = true → p.particles.toList.Nodup
  /-- The handles of constraints in use are those of joints and suspensions. -/
  constraintPool : ∀ h, r.constraintPool.contains h = true ↔
    ∃ id p, r.get? id = some p ∧ p.kind.isConstraint = true ∧ p.constraint = some h
  /-- A live constraint is attached to live proxies, which list it. -/
  attached : ∀ id p, r.get? id = some p → p.kind.isConstraint = true → p.isPending = false →
    ∀ parent ∈ p.attachedTo, (∃ q, r.get? parent = some q ∧ q.isPending = false) ∧
      id ∈ r.dependents.getD parent ∅
  /-- Nothing but live constraints is listed, and with nothing but what they are attached to. -/
  listed : ∀ id parent, id ∈ r.dependents.getD parent ∅ → ∃ p, r.get? id = some p ∧
    p.kind.isConstraint = true ∧ p.isPending = false ∧ parent ∈ p.attachedTo
  /-- A live constraint acts on particles that are in use. -/
  uses : ∀ id p, r.get? id = some p → p.kind.isConstraint = true → p.isPending = false →
    ∀ h ∈ p.particles, r.particlePool.contains h = true
  /-- Whatever a constraint is attached to is there as long as the constraint, and whenever it is
  freed the constraint is freed with it or has been before. -/
  freed : ∀ id p, r.get? id = some p → p.kind.isConstraint = true → ∀ parent ∈ p.attachedTo,
    (∃ q, r.get? parent = some q) ∧ ∀ consumed,
      (r.collectGarbage consumed).get? parent = none →
      (r.collectGarbage consumed).get? id = none

theorem pendingDestroy_eq_none {p : Proxy S} : p.pendingDestroy = none ↔ p.isPending = false := by
  unfold Proxy.isPending
  rw [Option.isSome_eq_false_iff, Option.isNone_iff_eq_none]

theorem ownsParticles_eq_false {kind : ProxyKind} :
    kind.ownsParticles = false ↔ kind.isConstraint = true := by
  unfold ProxyKind.isConstraint
  rw [Bool.not_eq_true']

theorem owned_of_owns {p : Proxy S} {x : Held} (hx : p.held = some x)
    (howns : p.kind.ownsParticles = true) : x.owned = p.particles.toList := by
  rw [p.owned_of_held hx, if_pos howns]

theorem Complete.particlePool_iff (hcomplete : r.Complete) (h : r.Sound since now)
    (k : ParticleHandle) : r.particlePool.contains k = true ↔
      ∃ id p, r.get? id = some p ∧ p.kind.ownsParticles = true ∧ k ∈ p.particles := by
  constructor
  · intro hk
    rcases hcomplete.particles k hk with ⟨id, p, x, hp, hx, hkx⟩
    rw [p.owned_of_held hx] at hkx
    split at hkx
    case isTrue howns => exact ⟨id, p, hp, howns, Array.mem_toList_iff.mp hkx⟩
    case isFalse => cases hkx
  · rintro ⟨id, p, hp, howns, hk⟩
    rcases h.held id p hp with ⟨x, hx, _, hparticles, _⟩
    refine hparticles k ?_
    rw [owned_of_owns hx howns]
    exact Array.mem_toList_iff.mpr hk

theorem Complete.constraintPool_iff (hcomplete : r.Complete) (h : r.Sound since now)
    (k : ConstraintHandle) : r.constraintPool.contains k = true ↔
      ∃ id p, r.get? id = some p ∧ p.kind.isConstraint = true ∧ p.constraint = some k := by
  constructor
  · intro hk
    rcases hcomplete.constraints k hk with ⟨id, p, x, hp, hx, hkx⟩
    have hconstraint := p.constraint_of_held hx
    rw [hkx] at hconstraint
    rcases p.members_of_held hx with ⟨_, _, _, hnone, _⟩ | ⟨hno, _⟩
    · rw [hnone] at hconstraint
      cases hconstraint
    · exact ⟨id, p, hp, ownsParticles_eq_false.mp hno, hconstraint.symm⟩
  · rintro ⟨id, p, hp, _, hk⟩
    rcases h.held id p hp with ⟨x, hx, _, _, hconstraints⟩
    refine hconstraints k ?_
    rw [p.constraint_of_held hx]
    exact hk

/-- No particle is owned by two proxies. -/
theorem Sound.eq_of_owns (h : r.Sound since now) {a b : ProxyId} {p q : Proxy S}
    {k : ParticleHandle} (hp : r.get? a = some p) (hq : r.get? b = some q)
    (hpowns : p.kind.ownsParticles = true) (hqowns : q.kind.ownsParticles = true)
    (hkp : k ∈ p.particles) (hkq : k ∈ q.particles) : a = b := by
  rcases h.held a p hp with ⟨x, hx, _⟩
  rcases h.held b q hq with ⟨y, hy, _⟩
  refine h.exclusive a b p q x y hp hq hx hy (.inl ⟨k, ?_, ?_⟩)
  · rw [owned_of_owns hx hpowns]
    exact Array.mem_toList_iff.mpr hkp
  · rw [owned_of_owns hy hqowns]
    exact Array.mem_toList_iff.mpr hkq

/-- What a live constraint is attached to lives as well. -/
theorem Sound.parent_live (h : r.Sound since now) {id parent : ProxyId} {p : Proxy S}
    (hp : r.get? id = some p) (hlive : p.pendingDestroy = none) (hparent : parent ∈ p.attachedTo) :
    ∃ q, r.get? parent = some q ∧ q.pendingDestroy = none := by
  rcases h.parents id p hp parent hparent with ⟨_, q, hq, _, hlater⟩
  refine ⟨q, hq, ?_⟩
  cases hd : q.pendingDestroy with
  | none => rfl
  | some d =>
    rcases hlater d hd with ⟨e, he, _⟩
    rw [hlive] at he
    cases he

/-- The particles that a constraint acts on are in use. -/
theorem Sound.inUse_of_uses (h : r.Sound since now) {id : ProxyId} {p : Proxy S}
    (hp : r.get? id = some p) (hconstraint : p.kind.isConstraint = true) {k : ParticleHandle}
    (hk : k ∈ p.particles) : r.particlePool.contains k = true := by
  rcases h.held id p hp with ⟨x, hx, _⟩
  rcases p.members_of_held hx with ⟨howns, _⟩ | ⟨_, _, huses, _⟩
  · rw [ownsParticles_eq_false.mpr hconstraint] at howns
    cases howns
  · have hkx : k ∈ x.uses := by
      rw [huses]
      exact Array.mem_toList_iff.mpr hk
    rcases h.uses id p x hp hx k hkx with ⟨parent, _, q, y, hq, hy, hky⟩
    rcases h.held parent q hq with ⟨y', hy', _, hparticles, _⟩
    rw [hy] at hy'
    cases hy'
    exact hparticles k hky

/-- Whenever what a constraint is attached to is freed, the constraint is no longer there either. -/
theorem Sound.freed_with_parent (h : r.Sound since now) {id parent : ProxyId} {p q : Proxy S}
    (hp : r.get? id = some p) (hparent : parent ∈ p.attachedTo) (hq : r.get? parent = some q)
    {consumed : Timestamp} (hnone : (r.collectGarbage consumed).get? parent = none) :
    (r.collectGarbage consumed).get? id = none := by
  cases hleft : (r.collectGarbage consumed).get? id with
  | none => rfl
  | some p' =>
    rcases h.left_collectGarbage.mp hleft with ⟨hp', hgarbage⟩
    rw [hp] at hp'
    cases hp'
    have hqleft := h.left_collectGarbage.mpr ⟨hq, h.parent_left hp hgarbage hparent hq⟩
    rw [hnone] at hqleft
    cases hqleft

theorem Kept.coherent (h : r.Kept now) : r.Coherent := by
  rcases h with ⟨⟨since, hsound⟩, hcomplete⟩
  constructor
  case slots => exact fun p => mem_toList hsound.placed
  case owners =>
    intro o id
    simp only [← pendingDestroy_eq_none]
    exact hcomplete.owners o id
  -- an owner is listed with one id only
  case single =>
    intro a b p q hp hq hplive hqlive ho
    have hone := (hcomplete.owners p.owner a).mpr ⟨p, hp, pendingDestroy_eq_none.mpr hplive, rfl⟩
    have htwo := (hcomplete.owners p.owner b).mpr
      ⟨q, hq, pendingDestroy_eq_none.mpr hqlive, ho.symm⟩
    rw [hone] at htwo
    exact Option.some.inj htwo
  case proxyPool =>
    intro id
    exact ⟨hcomplete.proxies id, fun ⟨p, hp⟩ => hsound.inUse id p hp⟩
  case particlePool => exact hcomplete.particlePool_iff hsound
  case exclusive => exact fun a b p q k hp hq => hsound.eq_of_owns hp hq
  case distinct =>
    intro id p hp howns
    rcases hsound.held id p hp with ⟨x, hx, hnodup, _⟩
    rw [owned_of_owns hx howns] at hnodup
    exact hnodup.of_map _
  case constraintPool => exact hcomplete.constraintPool_iff hsound
  case attached =>
    intro id p hp _ hlive parent hparent
    rw [← pendingDestroy_eq_none] at hlive
    rcases hsound.parent_live hp hlive hparent with ⟨q, hq, hqlive⟩
    exact ⟨⟨q, hq, pendingDestroy_eq_none.mp hqlive⟩,
      (hsound.attached id parent).mpr ⟨p, hp, hlive, hparent⟩⟩
  case listed =>
    intro id parent hlisted
    rcases (hsound.attached id parent).mp hlisted with ⟨p, hp, hlive, hparent⟩
    rcases hsound.parents id p hp parent hparent with ⟨hno, _⟩
    exact ⟨p, hp, ownsParticles_eq_false.mp hno, pendingDestroy_eq_none.mp hlive, hparent⟩
  case uses => exact fun id p hp hconstraint _ k => hsound.inUse_of_uses hp hconstraint
  case freed =>
    intro id p hp _ parent hparent
    rcases hsound.parents id p hp parent hparent with ⟨_, q, hq, _⟩
    exact ⟨⟨q, hq⟩, fun consumed => hsound.freed_with_parent hp hparent hq⟩

/-! ## Runs -/

/-- The number under which a call unregisters a proxy. -/
def Call.unregisteredAt? : Call S → Option Timestamp
  | .unregister _ timestamp => some timestamp
  | _ => none

theorem kept_empty : (empty : Registry S).Kept .zero :=
  ⟨⟨fun _ => .zero, sound_empty _ _⟩, complete_empty⟩

/-- A new view of the state changes nothing else. -/
theorem edit_keeps (view : ProxyState S → ProxyState S) (p : Proxy S) :
    (edit view p).id = p.id ∧ (edit view p).held = p.held ∧ (edit view p).kind = p.kind ∧
      (edit view p).attachedTo = p.attachedTo ∧ (edit view p).pendingDestroy = p.pendingDestroy :=
  ⟨rfl, Proxy.held_congr rfl rfl rfl, rfl, rfl, rfl⟩

/-- A write changes no handles, no owner and no attachment. -/
theorem Kept.write (h : r.Kept now) (id : ProxyId) (timestamp : Timestamp)
    (view : ProxyState S → ProxyState S) :
    ((r.modify id (stamp timestamp)).modify id (edit view)).Kept now := by
  rcases h with ⟨⟨since, hsound⟩, hcomplete⟩
  refine ⟨⟨since, ?_⟩, ?_⟩
  · exact (hsound.modify id (stamp_keeps timestamp)).modify id (edit_keeps view)
  · exact (hcomplete.modify id (stamp_keeps timestamp) fun _ => rfl).modify id (edit_keeps view)
      fun _ => rfl

theorem Kept.collectGarbage (h : r.Kept now) (consumed : Timestamp) :
    (r.collectGarbage consumed).Kept now := by
  rcases h with ⟨⟨since, hsound⟩, hcomplete⟩
  refine ⟨⟨since, (hsound.collectGarbage consumed).1⟩, ?_⟩
  refine hcomplete.released (hsound.released_collectGarbage consumed) ?_
  intro p hp
  rcases (mem_garbage hsound.placed).mp hp with ⟨hget, hgarbage⟩
  refine ⟨hget, ?_⟩
  intro hlive
  unfold isGarbage at hgarbage
  rw [hlive] at hgarbage
  cases hgarbage

variable [Scalar S]

/-- A call that unregisters under no earlier number than those before keeps the registry. -/
theorem Kept.perform (h : r.Kept now) (call : Call S)
    (hlater : ∀ t ∈ call.unregisteredAt?, now ≤ t) :
    (r.perform call).Kept (call.unregisteredAt?.getD now) := by
  have hle : now ≤ call.unregisteredAt?.getD now := by
    cases hcall : call.unregisteredAt? with
    | none => exact Nat.le_refl _
    | some t => exact hlater t hcall
  have hmono : r.Kept (call.unregisteredAt?.getD now) :=
    ⟨h.1.imp fun _ hsound => hsound.mono hle, h.2⟩
  refine perform_keeps (P := fun r => r.Kept (call.unregisteredAt?.getD now)) hmono ?_
  intro after hok
  cases call with
  | register owner blueprint timestamp stiffness =>
    rcases exists_of_map_ok hok with ⟨⟨id, creation, registry⟩, hregister, rfl⟩
    rcases hmono with ⟨⟨since, hsound⟩, hcomplete⟩
    rcases hsound.register hregister with ⟨hentered, hafter⟩
    exact ⟨⟨_, hafter⟩, hcomplete.entered hentered⟩
  | unregister id timestamp =>
    rcases exists_of_map_ok hok with ⟨⟨gone, registry⟩, hunregister, rfl⟩
    rcases hmono with ⟨⟨since, hsound⟩, hcomplete⟩
    rcases hsound.unregister hunregister with ⟨hunlisted, hafter⟩
    exact ⟨⟨since, hafter⟩, hcomplete.unlisted hunlisted⟩
  | write id access timestamp view =>
    rcases exists_of_map_ok hok with ⟨registry, hopen, rfl⟩
    rcases openFor_ok hopen with ⟨_, rfl⟩
    exact hmono.write id timestamp view
  | collectGarbage consumed =>
    cases hok
    exact hmono.collectGarbage consumed

/-- Calls that unregister under ascending numbers keep the registry. -/
theorem Kept.foldl_perform {calls : List (Call S)} {r : Registry S} {now : Timestamp}
    (h : r.Kept now) (hlater : ∀ t ∈ calls.filterMap Call.unregisteredAt?, now ≤ t)
    (horder : (calls.filterMap Call.unregisteredAt?).Pairwise (· ≤ ·)) :
    ∃ last, (calls.foldl Registry.perform r).Kept last := by
  induction calls generalizing r now with
  | nil => exact ⟨now, h⟩
  | cons call rest ih =>
    rw [List.filterMap_cons] at hlater horder
    rw [List.foldl_cons]
    have hperform := h.perform call
    cases hcall : call.unregisteredAt? with
    | none =>
      rw [hcall] at hlater horder hperform
      exact ih (hperform fun t ht => absurd ht (Option.not_mem_none t)) hlater horder
    | some t =>
      rw [hcall] at hlater horder hperform
      refine ih (hperform fun u hu => ?_) (List.pairwise_cons.mp horder).1
        (List.pairwise_cons.mp horder).2
      rw [← Option.mem_some.mp hu]
      exact hlater t List.mem_cons_self

/-- Whatever calls are made, successful or not, as long as proxies are unregistered under ascending
numbers. -/
theorem run_coherent (calls : List (Call S))
    (h : (calls.filterMap Call.unregisteredAt?).Pairwise (· ≤ ·)) : (run calls).Coherent := by
  rcases kept_empty.foldl_perform (fun _ _ => Nat.zero_le _) h with ⟨_, hkept⟩
  exact hkept.coherent

/-- An owner is registered anew while its old particle and the joint between it and another
particle still wait to be freed. -/
def renewal : List (Call Float32) :=
  [.register ⟨0⟩ (.particle (.kinematic 0)) ⟨1⟩ 1,
    .register ⟨1⟩ (.particle (.kinematic 0)) ⟨1⟩ 1,
    .register ⟨2⟩ (.joint ⟨⟨0, 0⟩, 0⟩ ⟨⟨1, 0⟩, 0⟩ none 0) ⟨1⟩ 1,
    .unregister ⟨0, 0⟩ ⟨2⟩,
    .register ⟨0⟩ (.particle (.kinematic 0)) ⟨2⟩ 1,
    .collectGarbage ⟨1⟩,
    .unregister ⟨1, 0⟩ ⟨3⟩,
    .collectGarbage ⟨2⟩]

theorem renewal_coherent : (renewal.filterMap Call.unregisteredAt?).Pairwise (· ≤ ·) ∧
    (run renewal).Coherent ∧ (run renewal).proxyOf? ⟨0⟩ = some ⟨3, 0⟩ ∧ (run renewal).size = 2 :=
  ⟨by decide, run_coherent renewal (by decide), by rfl, by rfl⟩

end Registry

end TetheredParticles
