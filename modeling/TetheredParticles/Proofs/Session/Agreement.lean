import TetheredParticles.Proofs.Registry.Rosters
/-!
# How producer and world agree

Between the roster of the world and the roster of the registry stand the deltas on their way: those
of every snapshot lead from its roster to the next one, and the buffered ones lead to the roster of
the registry.

* `Chained` — snapshots whose deltas lead from roster to roster.
* `Agreed` — snapshots and buffered deltas lead from the world to the registry.
* `Agreed.register`, `Agreed.unregister`, `Agreed.write`, `Agreed.collectGarbage`, `Agreed.sealed`,
  `Agreed.pop` — whatever either side does, they go on to agree.
-/

namespace TetheredParticles

variable {S T : Type}

/-- The deltas of each snapshot lead from the roster before it to the roster of its number, and the
numbers follow each other without gaps. -/
def Chained (rosters : Timestamp → Roster) : Timestamp → List (PushSnapshot S T) → Prop
  | _, [] => True
  | t, q :: rest => q.timestamp.ticks = t.ticks + 1 ∧ (rosters t).AcceptsAll q.deltas ∧
    (rosters t).afterAll q.deltas = rosters q.timestamp ∧ Chained rosters q.timestamp rest

namespace Chained

variable {rosters other : Timestamp → Roster}

/-- Only the rosters that are passed on the way matter. -/
theorem congr {t : Timestamp} {queue : List (PushSnapshot S T)} (h : Chained rosters t queue)
    (heq : ∀ u, t ≤ u → u.ticks ≤ t.ticks + queue.length → other u = rosters u) :
    Chained other t queue := by
  induction queue generalizing t with
  | nil => trivial
  | cons q rest ih =>
    rcases h with ⟨hticks, haccepts, hafter, hrest⟩
    have hnow : other t = rosters t := heq t (le_refl t) (Nat.le_add_right _ _)
    have hle : t ≤ q.timestamp := by
      rw [Timestamp.le_def, hticks]
      exact Nat.le_succ _
    have hnext : other q.timestamp = rosters q.timestamp := by
      refine heq q.timestamp hle ?_
      rw [hticks, List.length_cons]
      omega
    refine ⟨hticks, ?_, ?_, ih hrest ?_⟩
    · rw [hnow]
      exact haccepts
    · rw [hnow, hnext]
      exact hafter
    · intro u hu hbound
      refine heq u (le_trans hle hu) ?_
      rw [List.length_cons]
      rw [hticks] at hbound
      omega

/-- Snapshots behind others go on from where these lead. -/
theorem append {t : Timestamp} {queue more : List (PushSnapshot S T)} (h : Chained rosters t queue)
    (hmore : Chained rosters ⟨t.ticks + queue.length⟩ more) :
    Chained rosters t (queue ++ more) := by
  induction queue generalizing t with
  | nil => exact hmore
  | cons q rest ih =>
    rcases h with ⟨hticks, haccepts, hafter, hrest⟩
    refine ⟨hticks, haccepts, hafter, ih hrest ?_⟩
    rw [hticks]
    rw [List.length_cons] at hmore
    have : t.ticks + 1 + rest.length = t.ticks + (rest.length + 1) := by omega
    rw [this]
    exact hmore

/-- Every snapshot in a chain has a number in its range. -/
theorem bounds {t : Timestamp} {queue : List (PushSnapshot S T)} (h : Chained rosters t queue)
    {q : PushSnapshot S T} (hq : q ∈ queue) :
    t < q.timestamp ∧ q.timestamp.ticks ≤ t.ticks + queue.length := by
  induction queue generalizing t with
  | nil => exact absurd hq List.not_mem_nil
  | cons first rest ih =>
    rcases h with ⟨hticks, _, _, hrest⟩
    rw [List.length_cons, Timestamp.lt_def]
    rcases List.mem_cons.mp hq with rfl | hq
    · omega
    · rcases ih hrest hq with ⟨hlt, hle⟩
      rw [Timestamp.lt_def] at hlt
      omega

end Chained

/-- The snapshots on their way lead from the roster of the world to the last one that was sealed,
and the buffered deltas from there to the roster of the registry. The handles of all these deltas
belong to proxies that do not go before. -/
structure Agreed (r : Registry S) (since : ProxyId → Timestamp) (latest : Timestamp)
    (queue : List (PushSnapshot S T)) (o : Outbox S) : Prop where
  registry : r.Sound since o.nextTimestamp
  numbered : latest.ticks + queue.length + 1 = o.nextTimestamp.ticks
  chained : Chained (r.roster since) latest queue
  accepted : (r.roster since o.sealedTimestamp).AcceptsAll o.deltas
  follows : (r.roster since o.sealedTimestamp).afterAll o.deltas = r.roster since o.nextTimestamp
  buffered : ∀ d ∈ o.deltas, r.Serves o.nextTimestamp d
  queued : ∀ q ∈ queue, ∀ d ∈ q.deltas, r.Serves q.timestamp d

theorem agreed_empty (since : ProxyId → Timestamp) :
    Agreed (T := T) (Registry.empty : Registry S) since .zero [] .empty := by
  have hempty : ∀ t, (Registry.empty : Registry S).roster since t = .empty := by
    intro t
    funext id
    exact Registry.roster_eq_none (Registry.get?_empty id)
  constructor
  · exact Registry.sound_empty _ _
  · rfl
  · trivial
  · trivial
  · have hsealed := hempty (Outbox.empty : Outbox S).sealedTimestamp
    exact hsealed.trans (hempty (Outbox.empty : Outbox S).nextTimestamp).symm
  · intro d hd
    exact absurd hd List.not_mem_nil
  · intro q hq
    exact absurd hq List.not_mem_nil

namespace Agreed

variable {r after : Registry S} {since : ProxyId → Timestamp} {latest : Timestamp}
  {queue : List (PushSnapshot S T)} {o : Outbox S}

theorem sealed_lt (h : Agreed r since latest queue o) : o.sealedTimestamp < o.nextTimestamp := by
  have := h.numbered
  rw [Timestamp.lt_def]
  unfold Outbox.sealedTimestamp
  dsimp only
  omega

theorem sealed_ticks (h : Agreed r since latest queue o) :
    o.sealedTimestamp.ticks = latest.ticks + queue.length := by
  have := h.numbered
  unfold Outbox.sealedTimestamp
  dsimp only
  omega

/-- The numbers on the way are not yet the next one. -/
theorem lt_next (h : Agreed r since latest queue o) {u : Timestamp}
    (hu : u.ticks ≤ latest.ticks + queue.length) : u < o.nextTimestamp := by
  have := h.numbered
  rw [Timestamp.lt_def]
  omega

/-- What changes only the next roster, by deltas that it accepts. -/
theorem extend {since' : ProxyId → Timestamp} (h : Agreed r since latest queue o)
    {deltas : List (Delta S)} (hs : after.Sound since' o.nextTimestamp)
    (hlt : ∀ t, t < o.nextTimestamp → after.roster since' t = r.roster since t)
    (haccepts : (r.roster since o.nextTimestamp).AcceptsAll deltas)
    (hafter : after.roster since' o.nextTimestamp =
      (r.roster since o.nextTimestamp).afterAll deltas)
    (hkeep : ∀ stamp d, stamp ≤ o.nextTimestamp → r.Serves stamp d → after.Serves stamp d)
    (hnew : ∀ d ∈ deltas, after.Serves o.nextTimestamp d) :
    Agreed after since' latest queue { o with deltas := o.deltas ++ deltas } := by
  constructor
  · exact hs
  · exact h.numbered
  · refine h.chained.congr ?_
    intro u _ hu
    exact hlt u (h.lt_next hu)
  · show (after.roster since' o.sealedTimestamp).AcceptsAll (o.deltas ++ deltas)
    rw [hlt _ h.sealed_lt, Roster.acceptsAll_append, h.follows]
    exact ⟨h.accepted, haccepts⟩
  · show (after.roster since' o.sealedTimestamp).afterAll (o.deltas ++ deltas) =
      after.roster since' o.nextTimestamp
    rw [hlt _ h.sealed_lt, Roster.afterAll_append, h.follows, hafter]
  · intro d hd
    rcases List.mem_append.mp hd with hd | hd
    · exact hkeep _ d (le_refl _) (h.buffered d hd)
    · exact hnew d hd
  · intro q hq d hd
    refine hkeep _ d ?_ (h.queued q hq d hd)
    exact (h.lt_next (h.chained.bounds hq).2).le

/-! ## The producer's side -/

/-- A registration sends its creation. -/
theorem register (h : Agreed r since latest queue o) {id : ProxyId} {creation : Creation S}
    (hentered : r.Entered after id creation o.nextTimestamp)
    (hs : after.Sound (Function.update since id o.nextTimestamp) o.nextTimestamp) :
    Agreed after (Function.update since id o.nextTimestamp) latest queue
      (o.push ⟨id, .create creation⟩) := by
  rcases hentered.accepts h.registry with ⟨haccepts, hafter⟩
  rcases hentered.proxy with ⟨p, _, hheld, hlive, _, hget⟩
  -- proxies of the registry stay
  have hold : ∀ a q, r.get? a = some q → after.get? a = some q := by
    intro a q hq
    rw [hget, if_neg]
    · exact hq
    · rintro rfl
      rw [hentered.fresh] at hq
      cases hq
  have hself : after.get? id = some p := by
    rw [hget, if_pos rfl]
  have hlater : ∀ d, p.pendingDestroy = some d → o.nextTimestamp ≤ d := by
    intro d hd
    rw [hlive] at hd
    cases hd
  refine h.extend hs (fun t ht => hentered.roster_of_lt ht) ⟨haccepts, trivial⟩ hafter ?_ ?_
  · intro stamp d _ hd
    refine hd.keeps ?_
    intro a q hq hstamp
    exact ⟨q, hold a q hq, rfl, hstamp⟩
  · intro d hd
    rw [List.mem_singleton.mp hd]
    constructor
    · exact ⟨p, hself, hlater⟩
    · intro k hk
      rcases List.mem_append.mp hk with hk | hk
      · exact ⟨id, p, creation.held, hself, hheld, hk, hlater⟩
      · rcases hentered.uses k hk with ⟨a, q, y, hq, hqlive, hy, hky⟩
        refine ⟨a, q, y, hold a q hq, hy, hky, ?_⟩
        intro e he
        rw [hqlive] at he
        cases he
    · intro k hk
      exact ⟨id, p, creation.held, hself, hheld, hk, hlater⟩

/-- Unregistering sends the destructions. -/
theorem unregister (h : Agreed r since latest queue o) {id : ProxyId} {gone : List ProxyId}
    (hunlisted : r.Unlisted after id gone o.nextTimestamp) (hs : after.Sound since o.nextTimestamp) :
    Agreed after since latest queue
      { o with deltas := o.deltas ++ gone.map fun a => ⟨a, .destroy⟩ } := by
  rcases hunlisted.accepts h.registry with ⟨haccepts, hafter⟩
  -- proxies of the registry stay, and are not gone before the next snapshot
  have hkeep : ∀ stamp, stamp ≤ o.nextTimestamp → ∀ a q, r.get? a = some q →
      (∀ d, q.pendingDestroy = some d → stamp ≤ d) →
      ∃ q', after.get? a = some q' ∧ q'.held = q.held ∧
        ∀ d, q'.pendingDestroy = some d → stamp ≤ d := by
    intro stamp hstamp a q hq hlater
    rw [hunlisted.get?]
    by_cases ha : a ∈ gone
    · rw [if_pos ha, hq]
      refine ⟨_, rfl, Proxy.held_congr rfl rfl rfl, ?_⟩
      rintro d ⟨⟩
      exact hstamp
    · rw [if_neg ha]
      exact ⟨q, hq, rfl, hlater⟩
  refine h.extend hs (fun t ht => hunlisted.roster_of_lt ht) haccepts hafter ?_ ?_
  · intro stamp d hstamp hd
    exact hd.keeps (hkeep stamp hstamp)
  · intro d hd
    rcases List.mem_map.mp hd with ⟨a, ha, rfl⟩
    rcases hunlisted.live a ha with ⟨p, hp, hlive⟩
    have hnone : ∀ e, p.pendingDestroy = some e → o.nextTimestamp ≤ e := by
      intro e he
      rw [hlive] at he
      cases he
    rcases hkeep o.nextTimestamp (le_refl _) a p hp hnone with ⟨q, hq, _, hlater⟩
    constructor
    · exact ⟨q, hq, hlater⟩
    · intro k hk
      exact absurd hk List.not_mem_nil
    · intro k hk
      exact absurd hk (Option.not_mem_none k)

/-- A write to a proxy that has not been unregistered. -/
theorem write (h : Agreed r since latest queue o) {id : ProxyId} {p : Proxy S} {x : Held}
    (hp : r.get? id = some p) (hlive : p.pendingDestroy = none) (hx : p.held = some x)
    {command : Command S} (haccepts : (r.roster since o.nextTimestamp).Accepts ⟨id, command⟩)
    (hsame : (r.roster since o.nextTimestamp).after (⟨id, command⟩ : Delta S) =
      r.roster since o.nextTimestamp)
    (hparticles : ∀ k ∈ command.particles, k ∈ x.owned)
    (hconstraint : ∀ k ∈ command.constraint?, k ∈ x.constraint?)
    {change : Proxy S → Proxy S} (hchange : ∀ p, (change p).id = p.id ∧ (change p).held = p.held ∧
      (change p).kind = p.kind ∧ (change p).attachedTo = p.attachedTo ∧
      (change p).pendingDestroy = p.pendingDestroy) :
    Agreed (r.modify id change) since latest queue (o.push ⟨id, command⟩) := by
  have hids : ∀ p, (change p).id = p.id := fun p => (hchange p).1
  have hroster : ∀ t, (r.modify id change).roster since t = r.roster since t :=
    Registry.roster_modify fun p => ⟨(hchange p).1, (hchange p).2.1, (hchange p).2.2.2.2⟩
  have hkeep : ∀ stamp a q, r.get? a = some q →
      (∀ d, q.pendingDestroy = some d → stamp ≤ d) →
      ∃ q', (r.modify id change).get? a = some q' ∧ q'.held = q.held ∧
        ∀ d, q'.pendingDestroy = some d → stamp ≤ d := by
    intro stamp a q hq hlater
    rw [Registry.get?_modify hids]
    by_cases ha : a = id
    · rw [if_pos ha, hq]
      refine ⟨_, rfl, (hchange q).2.1, ?_⟩
      rw [(hchange q).2.2.2.2]
      exact hlater
    · rw [if_neg ha]
      exact ⟨q, hq, rfl, hlater⟩
  have hnone : ∀ e, p.pendingDestroy = some e → o.nextTimestamp ≤ e := by
    intro e he
    rw [hlive] at he
    cases he
  rcases hkeep o.nextTimestamp id p hp hnone with ⟨q, hq, hheld, hlater⟩
  refine h.extend (h.registry.modify id hchange) (fun t _ => hroster t) ⟨haccepts, trivial⟩ ?_ ?_ ?_
  · rw [hroster]
    exact hsame.symm
  · intro stamp d _ hd
    exact hd.keeps (hkeep stamp)
  · intro d hd
    rw [List.mem_singleton.mp hd]
    constructor
    · exact ⟨q, hq, hlater⟩
    · intro k hk
      exact ⟨id, q, x, hq, hheld.trans hx, hparticles k hk, hlater⟩
    · intro k hk
      exact ⟨id, q, x, hq, hheld.trans hx, hconstraint k hk, hlater⟩

/-- Changes of the producer's view. -/
theorem modify (h : Agreed r since latest queue o) (id : ProxyId) {change : Proxy S → Proxy S}
    (hchange : ∀ p, (change p).id = p.id ∧ (change p).held = p.held ∧
      (change p).kind = p.kind ∧ (change p).attachedTo = p.attachedTo ∧
      (change p).pendingDestroy = p.pendingDestroy) :
    Agreed (r.modify id change) since latest queue o := by
  have hroster : ∀ t, (r.modify id change).roster since t = r.roster since t :=
    Registry.roster_modify fun p => ⟨(hchange p).1, (hchange p).2.1, (hchange p).2.2.2.2⟩
  suffices hextend : Agreed (r.modify id change) since latest queue
      { o with deltas := o.deltas ++ [] } by
    rw [List.append_nil] at hextend
    exact hextend
  refine h.extend (h.registry.modify id hchange) (fun t _ => hroster t) trivial (hroster _) ?_ ?_
  · intro stamp d _ hd
    refine hd.keeps ?_
    intro a q hq hlater
    rw [Registry.get?_modify fun p => (hchange p).1]
    by_cases ha : a = id
    · rw [if_pos ha, hq]
      refine ⟨_, rfl, (hchange q).2.1, ?_⟩
      rw [(hchange q).2.2.2.2]
      exact hlater
    · rw [if_neg ha]
      exact ⟨q, hq, rfl, hlater⟩
  · intro d hd
    exact absurd hd List.not_mem_nil

/-- Only what the world has answered for is given back. -/
theorem collectGarbage (h : Agreed r since latest queue o) {consumed : Timestamp}
    (hconsumed : consumed ≤ latest) :
    Agreed (r.collectGarbage consumed) since latest queue o := by
  rcases h.registry.collectGarbage consumed with ⟨hs, hget⟩
  have hroster : ∀ t, latest ≤ t →
      (r.collectGarbage consumed).roster since t = r.roster since t := by
    intro t ht
    exact h.registry.roster_collectGarbage (le_trans hconsumed ht)
  have hsealed : latest ≤ o.sealedTimestamp := by
    rw [Timestamp.le_def, h.sealed_ticks]
    exact Nat.le_add_right _ _
  have hkeep : ∀ stamp d, latest < stamp → r.Serves stamp d →
      (r.collectGarbage consumed).Serves stamp d := by
    intro stamp d hstamp hd
    refine hd.keeps ?_
    intro a q hq hlater
    refine ⟨q, ?_, rfl, hlater⟩
    rw [hget, hq, Option.filter_eq_some_iff]
    refine ⟨rfl, ?_⟩
    -- it goes no earlier than the snapshot, and hence not before the world has answered for it
    unfold Registry.isGarbage
    cases hd : q.pendingDestroy with
    | none => rfl
    | some e =>
      have hno : ¬ e ≤ consumed := by
        intro hle
        exact absurd (le_trans (le_trans (hlater e hd) hle) hconsumed) (not_le_of_gt hstamp)
      simpa using hno
  constructor
  · exact hs
  · exact h.numbered
  · exact h.chained.congr fun u hu _ => hroster u hu
  · rw [hroster _ hsealed]
    exact h.accepted
  · rw [hroster _ hsealed, hroster _ (le_trans hsealed h.sealed_lt.le)]
    exact h.follows
  · intro d hd
    exact hkeep _ d (lt_of_le_of_lt hsealed h.sealed_lt) (h.buffered d hd)
  · intro q hq d hd
    exact hkeep _ d (h.chained.bounds hq).1 (h.queued q hq d hd)

/-! ## Snapshots -/

/-- Snapshots without writes, numbered from a number on from which the roster does not change. -/
theorem chained_blank {t : Timestamp} (h : r.Sound since t)
    {rest : List (PushSnapshot S T)} (hnumbered : Outbox.Numbered ⟨t.ticks + 1⟩ rest)
    (hblank : ∀ q ∈ rest, q.deltas = []) : Chained (r.roster since) t rest := by
  induction rest generalizing t with
  | nil => trivial
  | cons q rest ih =>
    rcases hnumbered with ⟨hstamp, hnumbered⟩
    have hle : t ≤ q.timestamp := by
      rw [hstamp, Timestamp.le_def]
      exact Nat.le_succ _
    refine ⟨by rw [hstamp], ?_, ?_, ?_⟩
    · rw [hblank q List.mem_cons_self]
      trivial
    · rw [hblank q List.mem_cons_self]
      exact (h.roster_of_ge hle).symm
    · refine ih (h.mono hle) ?_ ?_
      · rw [hstamp]
        exact hnumbered
      · intro p hp
        exact hblank p (List.mem_cons_of_mem q hp)

/-- An advance with steps puts the buffered deltas into its first snapshot. -/
theorem sealed (h : Agreed r since latest queue o) {o' : Outbox S} {first : PushSnapshot S T}
    {rest : List (PushSnapshot S T)} (hdeltas : first.deltas = o.deltas)
    (hblank : ∀ q ∈ rest, q.deltas = []) (hempty : o'.deltas = [])
    (hnumbered : Outbox.Numbered o.nextTimestamp (first :: rest))
    (hnext : o'.nextTimestamp.ticks = o.nextTimestamp.ticks + (rest.length + 1)) :
    Agreed r since latest (queue ++ first :: rest) o' := by
  rcases hnumbered with ⟨hstamp, hnumbered⟩
  have hticks := h.numbered
  have hlater : o.nextTimestamp ≤ o'.nextTimestamp := by
    rw [Timestamp.le_def]
    omega
  have hsealed : o.nextTimestamp ≤ o'.sealedTimestamp := by
    rw [Timestamp.le_def]
    unfold Outbox.sealedTimestamp
    dsimp only
    omega
  -- nobody has come or gone under either number, so that both see the same roster
  have hsame : r.roster since o'.sealedTimestamp = r.roster since o'.nextTimestamp := by
    rw [h.registry.roster_of_ge hsealed, h.registry.roster_of_ge hlater]
  constructor
  · exact h.registry.mono hlater
  · rw [List.length_append, List.length_cons]
    omega
  · refine h.chained.append ?_
    rw [show (⟨latest.ticks + queue.length⟩ : Timestamp) = o.sealedTimestamp from
      congrArg Timestamp.mk h.sealed_ticks.symm]
    refine ⟨?_, ?_, ?_, ?_⟩
    · rw [hstamp, h.sealed_ticks]
      omega
    · rw [hdeltas]
      exact h.accepted
    · rw [hdeltas, hstamp]
      exact h.follows
    · rw [hstamp]
      exact chained_blank h.registry hnumbered hblank
  · rw [hempty]
    trivial
  · rw [hempty, hsame]
    rfl
  · rw [hempty]
    intro d hd
    exact absurd hd List.not_mem_nil
  · intro q hq d hd
    rcases List.mem_append.mp hq with hq | hq
    · exact h.queued q hq d hd
    · rcases List.mem_cons.mp hq with rfl | hq
      · rw [hdeltas] at hd
        rw [hstamp]
        exact h.buffered d hd
      · rw [hblank q hq] at hd
        exact absurd hd List.not_mem_nil

/-- A snapshot less is on its way once the world has answered it. -/
theorem pop {q : PushSnapshot S T} (h : Agreed r since latest (q :: queue) o) :
    Agreed r since q.timestamp queue o := by
  rcases h.chained with ⟨hticks, _, _, hrest⟩
  refine ⟨h.registry, ?_, hrest, h.accepted, h.follows, h.buffered, ?_⟩
  · have := h.numbered
    rw [List.length_cons] at this
    omega
  · intro p hp
    exact h.queued p (List.mem_cons_of_mem q hp)

end Agreed

end TetheredParticles
