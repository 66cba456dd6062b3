import TetheredParticles.Proofs.Session.Consistency
import TetheredParticles.Proofs.World.Answers
/-!
# Views that catch up

With plain pulls the producer's view of a particle or cluster lags behind the world. What it lags
behind is on its way: the latest write to the proxy waits to be sealed or to be answered, and once it
has been answered, the next pull puts all particles of the proxy where the world has them.

* `ParticleStore.Places` — where the particles of a store are.
* `Session.Traced` — what is on its way to the view of one proxy.
* `Session.Current` — all views catch up.
* `Session.Current.producer`, `Session.Current.runStep`, `Session.Current.handOver`,
  `Session.Current.pull` — whatever either side does, they still do.
-/

namespace TetheredParticles

variable {S T : Type} [Scalar S] [Scalar T] [Timeline S T]

/-! ## Places -/

/-- Particles of a store are at the given places, one by one. -/
def ParticleStore.Places (store : ParticleStore S) (handles : List ParticleHandle)
    (positions : List (Vec3 S)) : Prop :=
  List.Forall₂ (fun k x => ∃ slot, store.get? k = some slot ∧ x.Coincide slot.position)
    handles positions

namespace ParticleStore

variable {store after : ParticleStore S} {handles : List ParticleHandle}

/-- Particles are where their slots say. -/
theorem places_of_contains (h : ∀ k ∈ handles, store.contains k = true) :
    store.Places handles (handles.map fun k => (store.slot k.index).position) := by
  unfold Places
  rw [List.forall₂_map_right_iff, List.forall₂_same]
  intro k hk
  refine ⟨store.slot k.index, ?_, .refl _⟩
  unfold get?
  rw [if_pos (h k hk)]

/-- Particles that have not moved are at the same places. -/
theorem Places.still {positions : List (Vec3 S)} (h : store.Places handles positions)
    (hcontains : ∀ k ∈ handles, after.contains k = true)
    (hstill : ∀ k ∈ handles,
      (store.slot k.index).position.Coincide (after.slot k.index).position) :
    after.Places handles positions := by
  unfold Places at h ⊢
  induction h with
  | nil => exact .nil
  | @cons k x handles positions hplace _ ih =>
    refine .cons ?_ (ih ?_ ?_)
    · rcases hplace with ⟨slot, hslot, hcoincide⟩
      unfold get? at hslot ⊢
      split at hslot
      case isFalse => cases hslot
      case isTrue =>
        cases hslot
        rw [if_pos (hcontains k List.mem_cons_self)]
        exact ⟨_, rfl, hcoincide.trans (hstill k List.mem_cons_self)⟩
    · intro l hl
      exact hcontains l (List.mem_cons_of_mem k hl)
    · intro l hl
      exact hstill l (List.mem_cons_of_mem k hl)

end ParticleStore

namespace Session

/-! ## What is on its way -/

/-- The answers that have not been pulled, oldest first. -/
def answers (s : Session S T) : List (PullSnapshot S T) :=
  s.playback.pending ++ s.engine.outbox.queue

/-- The snapshot with a number brings a write to a proxy; it is sealed or will be next. -/
def Carries (s : Session S T) (number : Timestamp) (id : ProxyId) : Prop :=
  (∃ q ∈ s.engine.inbox.queue, q.timestamp = number ∧ ∃ d ∈ q.deltas, d.proxy = id) ∨
    s.producerTimestamp = number ∧ ∃ d ∈ s.outbox.deltas, d.proxy = id

/-- The latest write to a proxy, be it its registration, is on its way or has been answered, and in
the second case the next pull puts its particles where the world has them. -/
structure Traced (s : Session S T) (since : ProxyId → Timestamp) (p : Proxy S) : Prop where
  since : since p.id ≤ p.syncTimestamp
  sync : p.syncTimestamp ≤ s.producerTimestamp
  carried : s.engine.world.latest < p.syncTimestamp → s.Carries p.syncTimestamp p.id
  shown : p.syncTimestamp ≤ s.engine.world.latest →
    s.engine.world.store.Places p.particles.toList (Playback.shown s.answers p).toList

/-- A particle or cluster that has not been unregistered. -/
def Shows (s : Session S T) (p : Proxy S) : Prop :=
  s.registry.get? p.id = some p ∧ p.isPending = false ∧ p.kind.ownsParticles = true

/-- Results are pulled plainly, and the view of every particle and cluster catches up. -/
structure Current (s : Session S T) (since : ProxyId → Timestamp) : Prop where
  plain : s.config.interpolates = false
  remembers : ∃ directions, s.engine.world.Remembers directions
  traced : ∀ p, s.Shows p → s.Traced since p

omit [Scalar T] [Timeline S T] in
/-- What is traced does not depend on the clocks, the display and the configuration. -/
theorem Traced.congr {s after : Session S T} {since : ProxyId → Timestamp} {p : Proxy S}
    (h : s.Traced since p) (hqueue : after.engine.inbox.queue = s.engine.inbox.queue)
    (hlatest : after.engine.world.latest = s.engine.world.latest)
    (hstore : after.engine.world.store = s.engine.world.store)
    (hanswers : after.answers = s.answers) (houtbox : after.outbox = s.outbox) :
    after.Traced since p := by
  refine ⟨h.since, ?_, ?_, ?_⟩
  · unfold producerTimestamp
    rw [houtbox]
    exact h.sync
  · unfold Carries producerTimestamp
    rw [hqueue, hlatest, houtbox]
    exact h.carried
  · rw [hlatest, hstore, hanswers]
    exact h.shown

omit [Scalar T] [Timeline S T] in
/-- What a proxy that shows has in its roster, from the moment of its latest write. -/
theorem Shows.roster {s : Session S T} {since : ProxyId → Timestamp} (h : s.Consistent since)
    {p : Proxy S} (hp : s.Shows p) (hsince : since p.id ≤ p.syncTimestamp) :
    ∃ x : Held, x.members? = some p.particles.toList ∧
      ∀ number, p.syncTimestamp ≤ number → s.registry.roster since number p.id = some x := by
  rcases hp with ⟨hget, hlive, howns⟩
  rcases h.agreed.registry.held p.id p hget with ⟨x, hx, _⟩
  have hpending : p.pendingDestroy = none := by
    unfold Proxy.isPending at hlive
    exact Option.isNone_iff_eq_none.mp (by simpa using hlive)
  refine ⟨x, ?_, ?_⟩
  · rcases p.members_of_held hx with ⟨_, hmembers, _⟩ | ⟨hno, _⟩
    · exact hmembers
    · rw [howns] at hno
      cases hno
  · intro number hle
    refine Registry.roster_eq_some.mpr ⟨p, hget, le_trans hsince hle, ?_, hx⟩
    unfold Registry.goneBy
    rw [hpending]
    rfl

omit [Scalar T] [Timeline S T] in
/-- A snapshot that brings no write to a proxy is not the one that its latest write came with, so
that an earlier one has brought it. -/
theorem Traced.le_latest {s : Session S T} {since : ProxyId → Timestamp}
    (h : s.Consistent since) {p : Proxy S} (htraced : s.Traced since p)
    {q : PushSnapshot S T} {rest : List (PushSnapshot S T)}
    (hqueue : s.engine.inbox.queue = q :: rest) (hsync : p.syncTimestamp ≤ q.timestamp)
    (hothers : ∀ d ∈ q.deltas, d.proxy ≠ p.id) : p.syncTimestamp ≤ s.engine.world.latest := by
  have hagreed := h.agreed
  rw [hqueue] at hagreed
  by_contra hnot
  rcases htraced.carried (Timestamp.not_le.mp hnot) with ⟨c, hcarrier, hnumber, d, hd, hproxy⟩ |
    ⟨hnumber, _⟩
  · rw [hqueue] at hcarrier
    rcases List.mem_cons.mp hcarrier with rfl | hcarrier
    · exact hothers d hd hproxy
    · have hlater := (hagreed.pop.chained.bounds hcarrier).1
      rw [hnumber] at hlater
      exact absurd hsync (not_le_of_gt hlater)
  · have hlast := hagreed.lt_next (hagreed.chained.bounds List.mem_cons_self).2
    rw [← hnumber] at hsync
    exact absurd hsync (not_le_of_gt hlast)

omit [Timeline S T] in
theorem current_start {config : Config S} (h : config.interpolates = false)
    (since : ProxyId → Timestamp) : (start config : Session S T).Current since := by
  refine ⟨h, ⟨fun _ => 0, .empty config _⟩, ?_⟩
  rintro p ⟨hp, _⟩
  have hnone : (start config : Session S T).registry.get? p.id = none := Registry.get?_empty p.id
  rw [hnone] at hp
  cases hp

namespace Current

variable {s : Session S T} {since : ProxyId → Timestamp}

/-! ## The producer's side -/

omit [Scalar T] [Timeline S T] in
/-- The producer may send deltas: every proxy is as it was, or one of these deltas is for it and it
is stamped with the next number. -/
theorem producer (hc : s.Current since) (h : s.Consistent since) {r : Registry S} {o : Outbox S}
    {deltas : List (Delta S)} (hdeltas : o.deltas = s.outbox.deltas ++ deltas)
    (hnext : o.nextTimestamp = s.outbox.nextTimestamp)
    (hproxies : ∀ p, r.get? p.id = some p → p.isPending = false → p.kind.ownsParticles = true →
      s.registry.get? p.id = some p ∨
        p.syncTimestamp = s.producerTimestamp ∧ ∃ d ∈ deltas, d.proxy = p.id) :
    Current { s with registry := r, outbox := o }
      (Tracked.noticed since s.registry r s.producerTimestamp) := by
  refine ⟨hc.plain, hc.remembers, ?_⟩
  rintro p ⟨hp, hlive, howns⟩
  rcases hproxies p hp hlive howns with hold | ⟨hsync, d, hd, hproxy⟩
  · have htraced := hc.traced p ⟨hold, hlive, howns⟩
    refine ⟨?_, ?_, ?_, htraced.shown⟩
    · refine le_of_eq_of_le (Tracked.noticed_of_isSome ?_) htraced.since
      rw [hold]
      rfl
    · exact le_of_le_of_eq htraced.sync hnext.symm
    · intro hlt
      rcases htraced.carried hlt with hqueued | ⟨hnumber, d, hd, hproxy⟩
      · exact .inl hqueued
      · refine .inr ⟨hnext.trans hnumber, d, ?_, hproxy⟩
        show d ∈ o.deltas
        rw [hdeltas]
        exact List.mem_append_left _ hd
  · refine ⟨?_, ?_, ?_, ?_⟩
    · rw [hsync]
      exact Tracked.noticed_le h.agreed.registry (Option.isSome_iff_exists.mpr ⟨p, hp⟩)
    · exact le_of_eq (hsync.trans hnext.symm)
    · intro _
      refine .inr ⟨hnext.trans hsync.symm, d, ?_, hproxy⟩
      show d ∈ o.deltas
      rw [hdeltas]
      exact List.mem_append_right _ hd
    · -- the world has not answered the next snapshot yet
      intro hle
      rw [hsync] at hle
      exact absurd hle (not_le_of_gt h.latest_lt)

/-! ## Steps -/

/-- A snapshot less is on its way. -/
theorem carries_stepped {after : Session S T} {q : PushSnapshot S T}
    {rest : List (PushSnapshot S T)} {before : World S} (hs : Stepped s after q rest before)
    {number : Timestamp} (hlt : q.timestamp < number) {id : ProxyId} (h : s.Carries number id) :
    after.Carries number id := by
  rcases h with ⟨p, hp, hnumber, hd⟩ | ⟨hnumber, hd⟩
  · rw [hs.queue] at hp
    rcases List.mem_cons.mp hp with rfl | hp
    · rw [hnumber] at hlt
      exact absurd hlt (lt_irrefl _)
    · refine .inl ⟨p, ?_, hnumber, hd⟩
      rw [hs.inbox]
      exact hp
  · refine .inr ?_
    unfold producerTimestamp
    rw [hs.writes]
    exact ⟨hnumber, hd⟩

/-- A step answers the writes that it brings, and tells of everything that it moves. -/
theorem traced_stepped [LawfulZero S] [LawfulRest S] (h : s.Consistent since)
    (hc : s.Current since) {after : Session S T} {q : PushSnapshot S T}
    {rest : List (PushSnapshot S T)} {before : World S} (hs : Stepped s after q rest before)
    {p : Proxy S} (hp : s.Shows p) : after.Traced since p := by
  rcases h.roster_stepped hs with ⟨haccepts, hafter, _, hbefore⟩
  rcases hc.remembers with ⟨directions, hdirections⟩
  have htraced := hc.traced p hp
  rcases hp.roster h htraced.since with ⟨x, hmembers, hroster⟩
  have hagreed := h.agreed
  rw [hs.queue] at hagreed
  have hlatest : after.engine.world.latest = q.timestamp := by
    rw [hs.world]
    rfl
  have hnext : after.producerTimestamp = s.producerTimestamp := by
    unfold producerTimestamp
    rw [hs.writes]
  have hlt : s.engine.world.latest < q.timestamp := (hagreed.chained.bounds List.mem_cons_self).1
  have hanswers : after.answers =
      s.answers ++ [before.answer q (s.engine.world.droppedOf q.deltas)] := by
    unfold answers
    rw [hs.playback, hs.outbox, List.append_assoc]
  refine ⟨htraced.since, hnext ▸ htraced.sync, ?_, ?_⟩
  · intro hsync
    rw [hlatest] at hsync
    exact carries_stepped hs hsync (htraced.carried (hlt.trans hsync))
  · intro hsync
    rw [hlatest] at hsync
    rw [hs.world, hanswers]
    have hcontains : ∀ k ∈ p.particles.toList,
        (before.stepped q).store.contains k = true := by
      intro k hk
      refine ((hbefore.stepped q).particles k).mpr ⟨p.id, x, hroster _ hsync, ?_⟩
      unfold Held.owned
      rw [hmembers]
      exact hk
    rcases World.step_spec h.world h.holds h.valid haccepts hdirections hs.prepared hs.linked
        hs.sound.weighed (hafter ▸ hbefore) (s.engine.world.droppedOf q.deltas)
        (hafter ▸ hroster _ hsync) hmembers with
      ⟨velocities, htells⟩ | ⟨hsilent, hothers, hstill⟩
    · rw [Playback.shown_append_of_tells htells hsync]
      exact ParticleStore.places_of_contains hcontains
    · rw [Playback.shown_append_of_silent hsilent]
      -- a write that the snapshot brings would have been told about
      have hearlier := htraced.le_latest h hs.queue hsync hothers
      exact (htraced.shown hearlier).still hcontains (hstill (hroster _ hearlier))

theorem runStep [LawfulZero S] [LawfulRest S] (h : s.Consistent since) (hc : s.Current since) :
    Ends s.runStep Overflow fun after => after.Current since := by
  refine (ends_overflow h.runStep_cases).weaken ?_
  rintro after (rfl | ⟨q, rest, before, hs⟩)
  · exact hc
  · rcases hc.remembers with ⟨directions, hdirections⟩
    refine ⟨?_, ?_, ?_⟩
    · rw [hs.config]
      exact hc.plain
    · rw [hs.world]
      exact hdirections.stepped hs.prepared hs.linked hs.sound.weighed
    · rintro p ⟨hget, hp⟩
      rw [hs.registry] at hget
      exact traced_stepped h hc hs ⟨hget, hp⟩

/-- Steps keep the views catching up. -/
theorem stepsKeep [LawfulZero S] [LawfulRest S] (registry : Registry S) :
    StepsKeep Overflow fun after : Session S T => after.Consistent since ∧ after.Current since ∧
      after.registry = registry where
  step := by
    rintro s ⟨h, hc, hregistry⟩
    refine ((ends_overflow h.runStep).and (runStep h hc)).weaken ?_
    rintro after ⟨⟨hafter, hsame, _⟩, hcurrent⟩
    exact ⟨hafter, hcurrent, hsame.trans hregistry⟩
  flight := by
    rintro s inFlight ⟨h, hc, hregistry⟩
    exact ⟨h.congr rfl rfl rfl rfl rfl rfl,
      ⟨hc.plain, hc.remembers, fun p hp => (hc.traced p hp).congr rfl rfl rfl rfl rfl⟩,
      hregistry⟩

/-! ## Advances -/

omit [Scalar T] [Timeline S T] in
/-- Writes that are sealed are still on their way. -/
theorem sealed (hc : s.Current since) {outbox : Outbox S} {inbox : Channel (PushSnapshot S T)}
    {first : PushSnapshot S T} {rest : List (PushSnapshot S T)}
    (hs : Sealed s outbox inbox first rest) (clock : StepClock S) (externalTime : T) :
    Current { s with clock, outbox, engine := { s.engine with inbox }, externalTime } since := by
  refine ⟨hc.plain, hc.remembers, ?_⟩
  intro p hp
  have htraced := hc.traced p hp
  refine ⟨htraced.since, ?_, ?_, htraced.shown⟩
  · refine le_trans htraced.sync ?_
    show s.outbox.nextTimestamp.ticks ≤ outbox.nextTimestamp.ticks
    rw [hs.next]
    exact Nat.le_add_right _ _
  · intro hlt
    refine .inl ?_
    dsimp only
    rw [hs.queue]
    rcases htraced.carried hlt with ⟨q, hq, hcarries⟩ | ⟨hnumber, hd⟩
    · exact ⟨q, List.mem_append_left _ hq, hcarries⟩
    · refine ⟨first, List.mem_append_right _ List.mem_cons_self, hs.numbered.1.trans hnumber, ?_⟩
      rw [hs.deltas]
      exact hd

theorem seals [LawfulZero S] (h : s.Consistent since) (hc : s.Current since) :
    StepsKeep.Seals s Overflow fun after => after.Consistent since ∧ after.Current since ∧
      after.registry = s.registry := by
  intro dt steps
  refine ((h.seals dt steps).and (h.sealSteps_cases dt steps)).weaken ?_
  rintro ⟨sent, outbox, inbox⟩ ⟨⟨hsent, hconsistent⟩, _, ⟨rfl, rfl⟩ | ⟨first, rest, hs⟩⟩
  · refine ⟨hsent, fun clock externalTime => ⟨(hconsistent clock externalTime).1, ?_, rfl⟩⟩
    exact ⟨hc.plain, hc.remembers, fun p hp => (hc.traced p hp).congr rfl rfl rfl rfl rfl⟩
  · exact ⟨hsent, fun clock externalTime => ⟨(hconsistent clock externalTime).1,
      hc.sealed hs clock externalTime, rfl⟩⟩

/-! ## Results -/

/-- A plain pull shows what was to be shown. -/
theorem pull (h : s.Consistent since) (hc : s.Current since) : s.pull.2.Current since := by
  rcases h.outbox.drain with ⟨channel, hdrain, hempty, hordered, _⟩
  rcases Playback.receive_of_drain (p := s.playback) hdrain with ⟨hchannel, hpending, _⟩
  let received := (s.playback.receive s.engine.outbox).1
  have hreceived : received.pending = s.answers := hpending
  have hpull : s.pull.2 = { s with
      engine := { s.engine with outbox := channel }
      playback := (received.pullLatest s.registry).playback
      registry := (received.pullLatest s.registry).registry.collectGarbage
        (Playback.consumed channel) } := by
    unfold Session.pull
    rw [show s.playback.receive s.engine.outbox = (received, channel) from
      Prod.ext rfl hchannel]
    dsimp only
    rw [hc.plain]
    rfl
  rw [hpull]
  refine ⟨hc.plain, hc.remembers, ?_⟩
  rintro p ⟨hget, hlive, howns⟩
  have hsound : (received.pullLatest s.registry).registry.Sound since s.outbox.nextTimestamp :=
    (h.agreed.writeResults _ _).1.registry
  dsimp only at hget
  rw [(hsound.collectGarbage _).2] at hget
  replace hget := (Option.filter_eq_some_iff.mp hget).1
  rw [Playback.get?_pullLatest, hreceived] at hget
  -- the proxy has come from one that is shown where it is now
  rcases Option.map_eq_some_iff.mp hget with ⟨old, hold, hp⟩
  have hlivedBefore : old.isPending = false := by
    by_contra hpending
    rw [if_pos (by simpa using hpending)] at hp
    exact hpending (hp ▸ hlive)
  rw [if_neg (Bool.eq_false_iff.mp hlivedBefore)] at hp
  have hstate : p.state.positions = Playback.shown s.answers old := by
    rw [← hp]
    rfl
  have hkeeps := hp.symm.trans (Playback.pulled_keeps s.answers old)
  have hid : p.id = old.id := by rw [hkeeps]
  have hsync : p.syncTimestamp = old.syncTimestamp := by rw [hkeeps]
  have hparticles : p.particles = old.particles := by rw [hkeeps]
  have hkind : p.kind = old.kind := by rw [hkeeps]
  have htraced := hc.traced old ⟨hid ▸ hold, hlivedBefore, hkind ▸ howns⟩
  refine ⟨?_, ?_, ?_, ?_⟩
  · rw [hid, hsync]
    exact htraced.since
  · rw [hsync]
    exact htraced.sync
  · intro hlt
    rw [hsync] at hlt ⊢
    rw [hid]
    exact htraced.carried hlt
  · intro hle
    rw [hsync] at hle
    have hnone : ([] ++ channel.queue : List (PullSnapshot S T)) = [] := hempty
    show s.engine.world.store.Places _ (Playback.shown ([] ++ channel.queue) p).toList
    rw [hnone, Playback.shown_nil, hstate, hparticles]
    exact htraced.shown hle

end Current

end Session

end TetheredParticles
