import TetheredParticles.Proofs.Registry.Changes
import TetheredParticles.Proofs.Snapshot.Channel
/-!
# The rosters of the registry

For every snapshot the registry tells which proxies exist once it has been answered: those that
were registered no later and have not been unregistered by then. A change of the registry alters
the roster of the next snapshot by the deltas it sends, and no roster before it.

* `Registry.roster` — the roster at a snapshot.
* `Registry.Entered.roster_of_lt`, `Registry.Unlisted.roster_of_lt` — earlier rosters stay.
* `Registry.Entered.accepts`, `Registry.Unlisted.accepts` — the next roster follows the deltas.
* `Registry.Serves` — the handles of a delta are in use.
-/

namespace TetheredParticles

variable {S : Type}

namespace Registry

/-- Whether a proxy has been unregistered with a number up to the given one. -/
def goneBy (t : Timestamp) (p : Proxy S) : Bool := p.pendingDestroy.any (· ≤ t)

/-- The proxies that exist once a snapshot has been answered: registered with a number up to it,
and not unregistered with one. -/
def roster (r : Registry S) (since : ProxyId → Timestamp) (t : Timestamp) : Roster := fun id =>
  (r.get? id).bind fun p => if since id ≤ t ∧ goneBy t p = false then p.held else none

variable {r after : Registry S} {since : ProxyId → Timestamp} {now : Timestamp}

theorem roster_eq_some {t : Timestamp} {id : ProxyId} {x : Held} :
    r.roster since t id = some x ↔
      ∃ p, r.get? id = some p ∧ since id ≤ t ∧ goneBy t p = false ∧ p.held = some x := by
  unfold roster
  rw [Option.bind_eq_some_iff]
  refine exists_congr fun p => and_congr_right fun _ => ?_
  split
  case isTrue h => exact ⟨fun hx => ⟨h.1, h.2, hx⟩, fun hx => hx.2.2⟩
  case isFalse h =>
    constructor
    · intro hx
      cases hx
    · intro hx
      exact absurd ⟨hx.1, hx.2.1⟩ h

theorem roster_eq_none {t : Timestamp} {id : ProxyId} (h : r.get? id = none) :
    r.roster since t id = none := by
  unfold roster
  rw [h]
  rfl

theorem goneBy_eq_false {t : Timestamp} {p : Proxy S} :
    goneBy t p = false ↔ ∀ d, p.pendingDestroy = some d → t < d := by
  unfold goneBy
  cases p.pendingDestroy with
  | none => simp
  | some d =>
    rw [Option.any_some, decide_eq_false_iff_not, Timestamp.not_le]
    constructor
    · intro h e he
      cases he
      exact h
    · intro h
      exact h d rfl

namespace Sound

/-- The roster of the next snapshot lists the proxies that have not been unregistered. -/
theorem roster_now (h : r.Sound since now) {id : ProxyId} {x : Held} :
    r.roster since now id = some x ↔
      ∃ p, r.get? id = some p ∧ p.pendingDestroy = none ∧ p.held = some x := by
  rw [roster_eq_some]
  refine exists_congr fun p => and_congr_right fun hp => ?_
  rcases h.stamps id p hp with ⟨hsince, hstamp⟩
  constructor
  · rintro ⟨_, hgone, hx⟩
    refine ⟨?_, hx⟩
    cases hd : p.pendingDestroy with
    | none => rfl
    | some d => exact absurd (hstamp d hd) (not_le_of_gt (goneBy_eq_false.mp hgone d hd))
  · rintro ⟨hlive, hx⟩
    refine ⟨hsince, ?_, hx⟩
    unfold goneBy
    rw [hlive]
    rfl

/-- Nothing changes from the next snapshot on. -/
theorem roster_of_ge (h : r.Sound since now) {t : Timestamp} (ht : now ≤ t) :
    r.roster since t = r.roster since now := by
  funext id
  refine Option.ext fun x => ?_
  rw [(h.mono ht).roster_now, h.roster_now]

theorem owns_now (h : r.Sound since now) {k : ParticleHandle} :
    (r.roster since now).Owns k ↔
      ∃ id p x, r.get? id = some p ∧ p.pendingDestroy = none ∧ p.held = some x ∧ k ∈ x.owned := by
  constructor
  · rintro ⟨id, x, hx, hk⟩
    rcases h.roster_now.mp hx with ⟨p, hp, hlive, hheld⟩
    exact ⟨id, p, x, hp, hlive, hheld, hk⟩
  · rintro ⟨id, p, x, hp, hlive, hheld, hk⟩
    exact ⟨id, x, h.roster_now.mpr ⟨p, hp, hlive, hheld⟩, hk⟩

end Sound

/-! ## Registering -/

namespace Entered

variable {id : ProxyId} {creation : Creation S}

theorem roster_of_lt (h : r.Entered after id creation now) {t : Timestamp} (ht : t < now) :
    after.roster (Function.update since id now) t = r.roster since t := by
  rcases h.proxy with ⟨p, _, _, _, _, hget⟩
  funext a
  by_cases ha : a = id
  · -- the new proxy does not exist before
    subst ha
    rw [roster_eq_none h.fresh]
    unfold roster
    rw [hget, if_pos rfl, Option.bind_some, Function.update_self, if_neg]
    intro hle
    exact absurd hle.1 (not_le_of_gt ht)
  · unfold roster
    rw [hget, if_neg ha, Function.update_of_ne ha]

/-- The next roster follows the creation. -/
theorem accepts (h : r.Entered after id creation now) (hs : r.Sound since now) :
    (r.roster since now).Accepts ⟨id, .create creation⟩ ∧
      after.roster (Function.update since id now) now =
        (r.roster since now).after (⟨id, .create creation⟩ : Delta S) := by
  constructor
  · refine ⟨roster_eq_none h.fresh, h.inRange, h.matched, h.nodup, ?_, ?_⟩
    · intro k hk l hl
      rcases hs.owns_now.mp hl with ⟨a, q, y, hq, _, hy, hly⟩
      exact h.apart k hk a q y hq hy l hly
    · intro k hk
      rcases h.uses k hk with ⟨a, q, y, hq, hlive, hy, hky⟩
      exact hs.owns_now.mpr ⟨a, q, y, hq, hlive, hy, hky⟩
  · rcases h.proxy with ⟨p, _, hheld, hlive, _, hget⟩
    funext a
    unfold Roster.after
    dsimp only
    by_cases ha : a = id
    · subst ha
      rw [Function.update_self]
      unfold roster
      rw [hget, if_pos rfl, Option.bind_some, Function.update_self, if_pos, hheld]
      refine ⟨le_refl now, ?_⟩
      unfold goneBy
      rw [hlive]
      rfl
    · rw [Function.update_of_ne ha]
      unfold roster
      rw [hget, if_neg ha, Function.update_of_ne ha]

end Entered

/-! ## Unregistering -/

namespace Unlisted

variable {id : ProxyId} {gone : List ProxyId}

theorem roster_of_lt (h : r.Unlisted after id gone now) {t : Timestamp} (ht : t < now) :
    after.roster since t = r.roster since t := by
  funext a
  unfold roster
  rw [h.get?]
  by_cases ha : a ∈ gone
  · rcases h.live a ha with ⟨p, hp, hlive⟩
    rw [if_pos ha, hp, Option.map_some, Option.bind_some, Option.bind_some]
    -- the mark is too young to count
    have hmarked : goneBy t { p with pendingDestroy := some now } = false := by
      rw [goneBy_eq_false]
      rintro d ⟨⟩
      exact ht
    have hbefore : goneBy t p = false := by
      unfold goneBy
      rw [hlive]
      rfl
    rw [hmarked, hbefore]
    rfl
  · rw [if_neg ha]

/-- The next roster without the proxies that are gone. -/
theorem roster_now (h : r.Unlisted after id gone now) (a : ProxyId) :
    after.roster since now a = if a ∈ gone then none else r.roster since now a := by
  unfold roster
  rw [h.get?]
  by_cases ha : a ∈ gone
  · rcases h.live a ha with ⟨p, hp, _⟩
    rw [if_pos ha, if_pos ha, hp, Option.map_some, Option.bind_some, if_neg]
    intro hno
    have := goneBy_eq_false.mp hno.2 now rfl
    exact lt_irrefl now this
  · rw [if_neg ha, if_neg ha]

/-- Destroying some of a roster's proxies one after the other. -/
theorem afterAll_destroy {A : Type} (R : Roster) (ids : List ProxyId) :
    R.afterAll (ids.map fun a => (⟨a, .destroy⟩ : Delta A)) =
      fun a => if a ∈ ids then none else R a := by
  induction ids generalizing R with
  | nil =>
    funext a
    exact (if_neg List.not_mem_nil).symm
  | cons b rest ih =>
    show Roster.afterAll (R.after (⟨b, .destroy⟩ : Delta A)) _ = _
    rw [ih]
    funext a
    unfold Roster.after
    dsimp only
    by_cases hrest : a ∈ rest
    · rw [if_pos hrest, if_pos (List.mem_cons_of_mem b hrest)]
    · rw [if_neg hrest]
      by_cases hb : a = b
      · subst hb
        rw [Function.update_self, if_pos List.mem_cons_self]
      · rw [Function.update_of_ne hb, if_neg]
        intro hmem
        exact (List.mem_cons.mp hmem).elim hb hrest

/-- Constraints may always be destroyed. -/
theorem acceptsAll_constraints {R : Roster} {ids : List ProxyId} (hnodup : ids.Nodup)
    (h : ∀ a ∈ ids, ∃ x, R a = some x ∧ x.owned = []) :
    R.AcceptsAll (ids.map fun a => (⟨a, .destroy⟩ : Delta S)) := by
  induction ids generalizing R with
  | nil => trivial
  | cons b rest ih =>
    have hcons := List.nodup_cons.mp hnodup
    constructor
    · rcases h b List.mem_cons_self with ⟨x, hx, howned⟩
      refine ⟨x, hx, ?_⟩
      rw [howned]
      intro k hk
      exact absurd hk List.not_mem_nil
    · refine ih hcons.2 ?_
      intro a ha
      rcases h a (List.mem_cons_of_mem b ha) with ⟨x, hx, howned⟩
      refine ⟨x, ?_, howned⟩
      have hne : a ≠ b := by
        rintro rfl
        exact hcons.1 ha
      unfold Roster.after
      dsimp only
      rw [Function.update_of_ne hne, hx]

/-- The constraints of a proxy can go first, as nothing acts on them. -/
theorem accepts_constraints (h : r.Unlisted after id gone now) (hs : r.Sound since now)
    {constraints : List ProxyId} (hgone : gone = constraints ++ [id])
    (hconstraints : ∀ a ∈ constraints, ∃ p, r.get? a = some p ∧ p.kind.ownsParticles = false) :
    (r.roster since now).AcceptsAll (constraints.map fun a => (⟨a, .destroy⟩ : Delta S)) := by
  have hnodup := h.nodup
  rw [hgone] at hnodup
  refine acceptsAll_constraints (List.nodup_append.mp hnodup).1 ?_
  intro a ha
  rcases h.live a (hgone ▸ List.mem_append_left _ ha) with ⟨p, hp, hlive⟩
  rcases hs.held a p hp with ⟨x, hx, _⟩
  refine ⟨x, hs.roster_now.mpr ⟨p, hp, hlive, hx⟩, ?_⟩
  rcases hconstraints a ha with ⟨q, hq, hno⟩
  rw [hp] at hq
  cases hq
  rw [p.owned_of_held hx, if_neg (by rw [hno]; exact Bool.false_ne_true)]

/-- The next roster follows the destructions. -/
theorem accepts (h : r.Unlisted after id gone now) (hs : r.Sound since now) :
    (r.roster since now).AcceptsAll (gone.map fun a => (⟨a, .destroy⟩ : Delta S)) ∧
      after.roster since now =
        (r.roster since now).afterAll (gone.map fun a => (⟨a, .destroy⟩ : Delta S)) := by
  constructor
  · rcases h.last with ⟨constraints, hgone, hconstraints⟩
    have hnodup := h.nodup
    rw [hgone] at hnodup
    rw [hgone, List.map_append, Roster.acceptsAll_append]
    constructor
    · exact h.accepts_constraints hs hgone hconstraints
    · -- the proxy itself goes when its constraints are gone
      rw [afterAll_destroy]
      rcases h.live id (hgone ▸ List.mem_append_right _ List.mem_cons_self) with ⟨p, hp, hlive⟩
      rcases hs.held id p hp with ⟨x, hx, _⟩
      have hout : id ∉ constraints := by
        intro hmem
        exact (List.nodup_append.mp hnodup).2.2 id hmem id List.mem_cons_self rfl
      refine ⟨⟨x, ?_, ?_⟩, trivial⟩
      · dsimp only
        rw [if_neg hout]
        exact hs.roster_now.mpr ⟨p, hp, hlive, hx⟩
      · intro k hk a y hy
        dsimp only at hy
        split at hy
        case isTrue => cases hy
        case isFalse hnot =>
          rcases hs.roster_now.mp hy with ⟨q, hq, hqlive, hqheld⟩
          by_cases ha : a = id
          · -- a proxy does not act on its own particles
            subst ha
            rw [hp] at hq
            cases hq
            rw [hx] at hqheld
            cases hqheld
            exact p.not_mem_uses hx hk
          · refine h.unused a q y hq hqlive ?_ hqheld p x hp hx k hk
            rw [hgone]
            intro hmem
            rcases List.mem_append.mp hmem with hmem | hmem
            · exact hnot hmem
            · exact ha (List.mem_singleton.mp hmem)
  · funext a
    rw [h.roster_now, afterAll_destroy]

end Unlisted

/-! ## Other changes -/

theorem roster_modify {id : ProxyId} {change : Proxy S → Proxy S}
    (hchange : ∀ p, (change p).id = p.id ∧ (change p).held = p.held ∧
      (change p).pendingDestroy = p.pendingDestroy) (t : Timestamp) :
    (r.modify id change).roster since t = r.roster since t := by
  funext a
  unfold roster
  rw [get?_modify fun p => (hchange p).1]
  by_cases ha : a = id
  · rw [if_pos ha]
    cases r.get? a with
    | none => rfl
    | some p =>
      rcases hchange p with ⟨_, hheld, hpending⟩
      rw [Option.map_some, Option.bind_some, Option.bind_some, hheld]
      unfold goneBy
      rw [hpending]
  · rw [if_neg ha]

/-- Garbage was gone already. -/
theorem Sound.roster_collectGarbage (h : r.Sound since now) {consumed t : Timestamp}
    (ht : consumed ≤ t) : (r.collectGarbage consumed).roster since t = r.roster since t := by
  funext a
  unfold roster
  rw [(h.collectGarbage consumed).2]
  cases r.get? a with
  | none => rfl
  | some p =>
    cases hgarbage : isGarbage consumed p with
    | false => simp [Option.filter, hgarbage]
    | true =>
      have hgone : goneBy t p = true := by
        unfold isGarbage at hgarbage
        unfold goneBy
        split at hgarbage
        case h_1 d hd =>
          rw [hd, Option.any_some, decide_eq_true_eq]
          exact le_trans (of_decide_eq_true hgarbage) ht
        case h_2 => cases hgarbage
      simp [Option.filter, hgarbage, hgone]

/-! ## Deltas on their way -/

end Registry

/-- The particles that a write refers to. -/
def Command.particles : Command S → List ParticleHandle
  | .create creation => creation.held.owned ++ creation.held.uses
  | command => command.target?.toList

/-- The constraint that a write refers to. -/
def Command.constraint? : Command S → Option ConstraintHandle
  | .create creation => creation.held.constraint?
  | .setSuspensionTarget handle _ => some handle
  | .setJointRestLength handle _ => some handle
  | _ => none

/-- A write to a particle refers to it alone. -/
theorem Command.refers_target {command : Command S} {h : ParticleHandle}
    (ht : command.target? = some h) : command.particles = [h] ∧ command.constraint? = none := by
  cases command with
  | create | destroy | setTetherStiffness | setSuspensionTarget | setJointRestLength => cases ht
  | _ =>
    cases ht
    exact ⟨rfl, rfl⟩

namespace Registry

variable {r after : Registry S} {since : ProxyId → Timestamp} {now stamp : Timestamp}

/-- The handles of a delta belong to proxies of the registry which do not go before the snapshot
with the delta. -/
structure Serves (r : Registry S) (stamp : Timestamp) (delta : Delta S) : Prop where
  proxy : ∃ p, r.get? delta.proxy = some p ∧ ∀ d, p.pendingDestroy = some d → stamp ≤ d
  particles : ∀ h ∈ delta.command.particles, ∃ id p x, r.get? id = some p ∧ p.held = some x ∧
    h ∈ x.owned ∧ ∀ d, p.pendingDestroy = some d → stamp ≤ d
  constraint : ∀ h ∈ delta.command.constraint?, ∃ id p x, r.get? id = some p ∧ p.held = some x ∧
    h ∈ x.constraint? ∧ ∀ d, p.pendingDestroy = some d → stamp ≤ d

/-- Proxies that stay and keep their handles go on serving. -/
theorem Serves.keeps {delta : Delta S} (h : r.Serves stamp delta)
    (hkeep : ∀ id p, r.get? id = some p → (∀ d, p.pendingDestroy = some d → stamp ≤ d) →
      ∃ q, after.get? id = some q ∧ q.held = p.held ∧
        ∀ d, q.pendingDestroy = some d → stamp ≤ d) : after.Serves stamp delta := by
  constructor
  · rcases h.proxy with ⟨p, hp, hlater⟩
    rcases hkeep _ p hp hlater with ⟨q, hq, _, hlater⟩
    exact ⟨q, hq, hlater⟩
  · intro k hk
    rcases h.particles k hk with ⟨id, p, x, hp, hx, hkx, hlater⟩
    rcases hkeep id p hp hlater with ⟨q, hq, hheld, hlater⟩
    exact ⟨id, q, x, hq, hheld.trans hx, hkx, hlater⟩
  · intro k hk
    rcases h.constraint k hk with ⟨id, p, x, hp, hx, hkx, hlater⟩
    rcases hkeep id p hp hlater with ⟨q, hq, hheld, hlater⟩
    exact ⟨id, q, x, hq, hheld.trans hx, hkx, hlater⟩

/-- The handles of a delta that is served are in use. -/
theorem Sound.inUse_of_serves (h : r.Sound since now) {delta : Delta S}
    (hd : r.Serves stamp delta) :
    r.proxyPool.contains delta.proxy = true ∧
      (∀ k ∈ delta.command.particles, r.particlePool.contains k = true) ∧
      ∀ k ∈ delta.command.constraint?, r.constraintPool.contains k = true := by
  refine ⟨?_, ?_, ?_⟩
  · rcases hd.proxy with ⟨p, hp, _⟩
    exact h.inUse _ p hp
  · intro k hk
    rcases hd.particles k hk with ⟨id, p, x, hp, hx, hkx, _⟩
    rcases h.held id p hp with ⟨x', hx', _, hparticles, _⟩
    rw [hx] at hx'
    cases hx'
    exact hparticles k hkx
  · intro k hk
    rcases hd.constraint k hk with ⟨id, p, x, hp, hx, hkx, _⟩
    rcases h.held id p hp with ⟨x', hx', _, _, hconstraints⟩
    rw [hx] at hx'
    cases hx'
    exact hconstraints k hkx

end Registry

end TetheredParticles
