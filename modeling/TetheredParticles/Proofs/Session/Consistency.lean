import TetheredParticles.Proofs.Session.Agreement
import TetheredParticles.Proofs.Session.Events
import TetheredParticles.Proofs.World.Roster
/-!
# Consistent sessions

Between two calls the producer and the world may be any number of snapshots apart. A session is
consistent if these snapshots and the buffered writes lead from the one to the other, and if nothing
that the world has answered tells of a write that it could not apply.

* `Session.Consistent` — the invariant.
* `Session.Stepped`, `Session.Consistent.runStep_cases` — what a step does.
* `Session.Consistent.runStep` — a step keeps it.
* `Session.Sealed`, `Session.Consistent.sealSteps_cases` — what an advance seals.
* `Session.Consistent.handOver`, `Session.Consistent.advance` — an advance keeps it.
* `Session.Consistent.pull` — so does a pull.
-/

namespace TetheredParticles

variable {S T : Type}

/-- The results of a pull do not change what the registry holds. -/
theorem Proxy.write_keeps (data : ResultData S) (p : Proxy S) :
    (p.write data).id = p.id ∧ (p.write data).held = p.held ∧ (p.write data).kind = p.kind ∧
      (p.write data).attachedTo = p.attachedTo ∧
      (p.write data).pendingDestroy = p.pendingDestroy := by
  cases data with
  | particles positions velocities =>
    exact ⟨rfl, Proxy.held_congr rfl rfl rfl, rfl, rfl, rfl⟩
  | constraint force => exact ⟨rfl, Proxy.held_congr rfl rfl rfl, rfl, rfl, rfl⟩

theorem Registry.isSome_modify {r : Registry S} {id : ProxyId} {change : Proxy S → Proxy S}
    (hchange : ∀ p, (change p).id = p.id) (a : ProxyId) :
    ((r.modify id change).get? a).isSome = (r.get? a).isSome := by
  rw [Registry.get?_modify hchange]
  split
  · exact Option.isSome_map
  · rfl

theorem Agreed.writeResults {r : Registry S} {since : ProxyId → Timestamp} {latest : Timestamp}
    {queue : List (PushSnapshot S T)} {o : Outbox S} (h : Agreed r since latest queue o)
    (rule : Proxy S → Option (ResultData S)) (ids : List ProxyId) :
    Agreed (r.writeResults rule ids).2 since latest queue o ∧
      (∀ t, (r.writeResults rule ids).2.roster since t = r.roster since t) ∧
      ∀ a, ((r.writeResults rule ids).2.get? a).isSome = (r.get? a).isSome := by
  induction ids generalizing r with
  | nil => exact ⟨h, fun _ => rfl, fun _ => rfl⟩
  | cons id rest ih =>
    unfold Registry.writeResults
    split
    · exact ih h
    · split
      · exact ih h
      case h_2 p _ data _ =>
        have hkeeps := Proxy.write_keeps data
        rcases ih (h.modify id hkeeps) with ⟨hagreed, hroster, hsome⟩
        refine ⟨hagreed, ?_, ?_⟩
        · intro t
          refine (hroster t).trans (Registry.roster_modify ?_ t)
          intro p
          exact ⟨(hkeeps p).1, (hkeeps p).2.1, (hkeeps p).2.2.2.2⟩
        · intro a
          exact (hsome a).trans (Registry.isSome_modify (fun p => (hkeeps p).1) a)

/-! ## Pulls -/

namespace Playback

/-- What pulls have in common: they give results to proxies and use some of the answers up. -/
def Leaves (p : Playback S T) (registry : Registry S) (pulled : Pulled S T) : Prop :=
  (∃ rule ids, pulled.registry = (registry.writeResults rule ids).2) ∧
    (∀ a ∈ pulled.playback.pending ++ pulled.playback.next.toList,
      a ∈ p.pending ++ p.next.toList) ∧
    pulled.playback.counts = p.counts

theorem receive_of_drain {p : Playback S T} {channel after : Channel (PullSnapshot S T)}
    (h : channel.drain = (.ok channel.queue, after)) :
    (p.receive channel).2 = after ∧
      (p.receive channel).1.pending = p.pending ++ channel.queue ∧
      (p.receive channel).1.next = p.next ∧
      (p.receive channel).1.counts =
        (channel.queue.getLast?.map (·.counts)).getD p.counts := by
  unfold receive
  rw [h]
  exact ⟨rfl, rfl, rfl, rfl⟩

/-- What has been consumed bears no later number than what may be in the channel. -/
theorem consumed_le {channel : Channel (PullSnapshot S T)} {number : Timestamp}
    (h : channel.Ordered number) : consumed channel ≤ number := by
  unfold consumed
  cases hlast : channel.lastReceived with
  | none => exact Nat.zero_le _
  | some last => exact (h.received last hlast).1

theorem pullLatest_leaves (p : Playback S T) (registry : Registry S) :
    p.Leaves registry (p.pullLatest registry) := by
  refine ⟨⟨_, _, rfl⟩, ?_, rfl⟩
  intro a ha
  exact absurd ha List.not_mem_nil

variable [Scalar T]

/-- The window is made of answers that were pending. -/
theorem mem_of_advanceWindow (time : T) (previous : ResultMap S)
    (next : Option (PullSnapshot S T)) (pending : List (PullSnapshot S T)) :
    ∀ a ∈ (advanceWindow time previous next pending).1 ++
      (advanceWindow time previous next pending).2.2.toList, a ∈ pending ++ next.toList := by
  induction pending generalizing previous next with
  | nil =>
    intro a ha
    exact ha
  | cons snapshot rest ih =>
    unfold advanceWindow
    cases next with
    | none =>
      intro a ha
      have := ih previous (some snapshot) a ha
      simpa [or_comm] using this
    | some last =>
      dsimp only
      split
      · intro a ha
        have := ih (previous.merge last) (some snapshot) a ha
        simp only [List.mem_append, Option.mem_toList, Option.some.injEq, List.mem_cons] at this ⊢
        tauto
      · intro a ha
        exact ha

variable [Scalar S] [Timeline S T]

theorem pullAt_leaves (p : Playback S T) (time : T) (registry : Registry S) :
    p.Leaves registry (p.pullAt time registry) := by
  have hmem := mem_of_advanceWindow time
    (p.previous.filter fun id _ => (registry.get? id).isSome) p.next p.pending
  unfold pullAt
  dsimp only
  split
  case h_1 => exact ⟨⟨fun _ => none, [], rfl⟩, hmem, rfl⟩
  case h_2 => exact ⟨⟨_, _, rfl⟩, hmem, rfl⟩

end Playback

variable [Scalar S]

/-- A world of proxies of a registry has no particle beyond the slots of the registry. -/
theorem Registry.Sound.large_of_oversized {r : Registry S} {since : ProxyId → Timestamp}
    {now t : Timestamp} (h : r.Sound since now) {w : World S} (hw : w.Holds (r.roster since t))
    (hover : w.Oversized) : BitSet.largestIndex < r.particlePool.slotCount := by
  have hlt : ∀ {id x k}, r.roster since t id = some x → k ∈ x.owned →
      k.index < r.particlePool.slotCount := by
    intro id x k hx hk
    rcases Registry.roster_eq_some.mp hx with ⟨p, hp, _, _, hheld⟩
    rcases h.held id p hp with ⟨y, hy, _, hcontains, _⟩
    rw [hheld] at hy
    cases hy
    exact HandlePool.lt_of_inUse h.particlePool (HandlePool.contains_iff.mp (hcontains k hk)).1
  rcases hover with ⟨i, halive, hlarge⟩ | ⟨id, c, hc, hlarge⟩
  · rcases ParticleStore.exists_contains halive with ⟨k, rfl, hk⟩
    rcases (hw.particles k).mp hk with ⟨id, x, hx, hmem⟩
    exact lt_of_le_of_lt hlarge (hlt hx hmem)
  · -- particles of one cluster are in slots of their own
    have hcluster := hw.clusters id
    rw [hc, Option.map_some] at hcluster
    rcases Option.bind_eq_some_iff.mp hcluster.symm with ⟨x, hx, hhandles⟩
    have howned : x.owned = c.particles.toList := by
      cases x with
      | cluster handles =>
        cases hhandles
        rfl
      | particle _ | joint _ _ _ | suspension _ _ => cases hhandles
    have hnodup : (c.particles.toList.map (·.index)).Nodup := by
      rcases Registry.roster_eq_some.mp hx with ⟨p, hp, _, _, hheld⟩
      rcases h.held id p hp with ⟨y, hy, hnodup, _⟩
      rw [hheld] at hy
      cases hy
      rw [← howned]
      exact hnodup
    have hsub : c.particles.toList.map (·.index) ⊆ List.range r.particlePool.slotCount := by
      intro i hi
      rcases List.mem_map.mp hi with ⟨k, hk, rfl⟩
      exact List.mem_range.mpr (hlt hx (howned ▸ hk))
    have hlength := (hnodup.subperm hsub).length_le
    rw [List.length_map, List.length_range, Array.length_toList] at hlength
    exact lt_of_lt_of_le hlarge hlength

namespace Session

/-- Producer and world agree, the world holds what the registry says of the last answered snapshot,
the channels are in order, and no answer tells of a dropped delta. -/
structure Consistent (s : Session S T) (since : ProxyId → Timestamp) : Prop where
  agreed : Agreed s.registry since s.engine.world.latest s.engine.inbox.queue s.outbox
  world : s.engine.world.Inv
  valid : (s.registry.roster since s.engine.world.latest).Valid
  holds : s.engine.world.Holds (s.registry.roster since s.engine.world.latest)
  inbox : s.engine.inbox.Ordered s.outbox.sealedTimestamp
  outbox : s.engine.outbox.Ordered s.engine.world.latest
  applied : ∀ p ∈ s.engine.outbox.queue ++ s.playback.pending ++ s.playback.next.toList,
    p.counts.dropped = 0
  counts : s.playback.counts.dropped = 0

/-- The numbers and the sizes that a session cannot go beyond. -/
def Overflow (f : Fault) : Prop := f = .timestampOverflow ∨ f = .lengthOverflow

/-- There have been more particles at once than a word can count. -/
def Overfull (r : Registry S) (f : Fault) : Prop :=
  f = .lengthOverflow ∧ BitSet.largestIndex < r.particlePool.slotCount

omit [Scalar S] in
/-- What is known of an ending in which only lists get too long. -/
theorem ends_overflow {α : Type} {x : Except Fault α} {r : Registry S} {holds : α → Prop}
    (h : Ends x (Overfull r) holds) : Ends x Overflow holds :=
  h.mono (fun _ hf => .inr hf.1) fun _ hholds => hholds

theorem StepsKeep.overflow [Scalar T] [Timeline S T] {r : Registry S} {P : Session S T → Prop}
    (h : StepsKeep (Overfull r) P) : StepsKeep Overflow P :=
  ⟨fun s hs => ends_overflow (h.step s hs), h.flight⟩

theorem consistent_start [Scalar T] (config : Config S) (since : ProxyId → Timestamp) :
    (start config : Session S T).Consistent since := by
  have hroster : (Registry.empty : Registry S).roster since .zero = .empty := by
    funext id
    exact Registry.roster_eq_none (Registry.get?_empty id)
  constructor
  · exact agreed_empty since
  · exact World.inv_empty config
  · show ((Registry.empty : Registry S).roster since .zero).Valid
    rw [hroster]
    exact Roster.valid_empty
  · show (World.empty config).Holds ((Registry.empty : Registry S).roster since .zero)
    rw [hroster]
    exact World.holds_empty config
  · exact Channel.ordered_empty _
  · exact Channel.ordered_empty _
  · intro p hp
    exact absurd hp List.not_mem_nil
  · rfl

/-- What an advance with steps seals: its first snapshot takes the buffered writes along, and the
others follow it without any. -/
structure Sealed (s : Session S T) (outbox : Outbox S) (inbox : Channel (PushSnapshot S T))
    (first : PushSnapshot S T) (rest : List (PushSnapshot S T)) : Prop where
  empty : outbox.deltas = []
  next : outbox.nextTimestamp.ticks = s.outbox.nextTimestamp.ticks + (rest.length + 1)
  ordered : inbox.Ordered outbox.sealedTimestamp
  queue : inbox.queue = s.engine.inbox.queue ++ first :: rest
  numbered : Outbox.Numbered s.outbox.nextTimestamp (first :: rest)
  deltas : first.deltas = s.outbox.deltas
  blank : ∀ q ∈ rest, q.deltas = []

/-- What becomes of a session when the oldest snapshot is answered: the topology stage leads the
world to `before`, from where it steps, and the answer waits behind the others. -/
structure Stepped [Scalar T] [Timeline S T] (s after : Session S T) (q : PushSnapshot S T)
    (rest : List (PushSnapshot S T)) (before : World S) : Prop where
  queue : s.engine.inbox.queue = q :: rest
  prepared : before = s.engine.world.updated q.deltas ∨
    (s.engine.world.updated q.deltas).Rebuilt before
  sound : before.Sound
  linked : before.Linked
  world : after.engine.world = before.stepped q
  inbox : after.engine.inbox.queue = rest
  outbox : after.engine.outbox.queue = s.engine.outbox.queue ++
    [before.answer q (s.engine.world.droppedOf q.deltas)]
  pending : after.engine.inbox.Ordered s.outbox.sealedTimestamp
  answers : after.engine.outbox.Ordered q.timestamp
  registry : after.registry = s.registry
  writes : after.outbox = s.outbox
  playback : after.playback = s.playback
  config : after.config = s.config

namespace Consistent

variable {s : Session S T} {since since' : ProxyId → Timestamp}

/-- Only the registry, the buffered writes, the world, its channels and the answers matter. -/
theorem congr (h : s.Consistent since) {after : Session S T}
    (hregistry : after.registry = s.registry) (hwrites : after.outbox = s.outbox)
    (hplayback : after.playback = s.playback) (hworld : after.engine.world = s.engine.world)
    (hinbox : after.engine.inbox = s.engine.inbox)
    (houtbox : after.engine.outbox = s.engine.outbox) : after.Consistent since := by
  constructor
  · rw [hregistry, hwrites, hworld, hinbox]
    exact h.agreed
  · rw [hworld]
    exact h.world
  · rw [hregistry, hworld]
    exact h.valid
  · rw [hregistry, hworld]
    exact h.holds
  · rw [hwrites, hinbox]
    exact h.inbox
  · rw [hworld, houtbox]
    exact h.outbox
  · rw [hplayback, houtbox]
    exact h.applied
  · rw [hplayback]
    exact h.counts

/-- What the producer does leaves the engine alone. -/
theorem producer (h : s.Consistent since) {r : Registry S} {o : Outbox S}
    (hagreed : Agreed r since' s.engine.world.latest s.engine.inbox.queue o)
    (hroster : r.roster since' s.engine.world.latest =
      s.registry.roster since s.engine.world.latest)
    (hnext : o.nextTimestamp = s.outbox.nextTimestamp) :
    Consistent { s with registry := r, outbox := o } since' := by
  have hsealed : o.sealedTimestamp = s.outbox.sealedTimestamp := by
    unfold Outbox.sealedTimestamp
    rw [hnext]
  constructor
  · exact hagreed
  · exact h.world
  · show (r.roster since' s.engine.world.latest).Valid
    rw [hroster]
    exact h.valid
  · show s.engine.world.Holds (r.roster since' s.engine.world.latest)
    rw [hroster]
    exact h.holds
  · show s.engine.inbox.Ordered o.sealedTimestamp
    rw [hsealed]
    exact h.inbox
  · exact h.outbox
  · exact h.applied
  · exact h.counts

/-- The world has not answered the next snapshot yet. -/
theorem latest_lt (h : s.Consistent since) : s.engine.world.latest < s.producerTimestamp :=
  h.agreed.lt_next (Nat.le_add_right _ _)

/-! ## Steps -/

variable [Scalar T] [Timeline S T]

/-- The oldest snapshot is answered, whatever is noted about it. -/
theorem stepNext [LawfulZero S] (h : s.Consistent since) {q : PushSnapshot S T}
    {rest : List (PushSnapshot S T)} (hq : s.engine.inbox.queue = q :: rest) :
    Ends s.engine.stepNext
      (fun f => f = .lengthOverflow ∧ (s.engine.world.updated q.deltas).Oversized)
      fun (number, engine) => number = some q.timestamp ∧
        ∃ before, ∀ progress, Stepped s { s with engine, progress } q rest before := by
  unfold Engine.stepNext
  rcases h.inbox.receive hq with ⟨inbox, hreceive, hqueue, _, hordered⟩
  rw [hreceive]
  dsimp only
  have hchained := h.agreed.chained
  rw [hq] at hchained
  rcases hchained with ⟨hticks, haccepts, _, _⟩
  have hrange := Roster.inRange_of_acceptsAll haccepts
  unfold Engine.step
  simp only [bind_assoc]
  refine (World.step_ends h.world q hrange).bind ?_
  rintro outcome ⟨before, hprepare, hsound, hlinked, hworld, hinv, hanswer⟩
  have hprepared := (World.prepare_ends h.world hrange).holds_of_eq hprepare
  have hlt : s.engine.world.latest < Stamped.timestamp outcome.pull := by
    rw [hanswer]
    show s.engine.world.latest < q.timestamp
    rw [Timestamp.lt_def, hticks]
    exact Nat.lt_succ_self _
  rcases h.outbox.send hlt with ⟨channel, hsend, hchannel, _, hanswers⟩
  simp only [pure_bind, hsend]
  rw [hanswer] at hchannel hanswers
  exact .pure ⟨rfl, before, fun _ => ⟨hq, hprepared.2.1, hsound, hlinked, hworld, hqueue,
    hchannel, hordered, hanswers, rfl, rfl, rfl, rfl⟩⟩

omit [Scalar T] [Timeline S T] in
/-- Where the roster leads when the oldest snapshot is answered. -/
theorem roster_updated (h : s.Consistent since) {q : PushSnapshot S T}
    {rest : List (PushSnapshot S T)} (hq : s.engine.inbox.queue = q :: rest) :
    (s.registry.roster since s.engine.world.latest).AcceptsAll q.deltas ∧
      (s.registry.roster since s.engine.world.latest).afterAll q.deltas =
        s.registry.roster since q.timestamp ∧
      s.engine.world.droppedOf q.deltas = 0 ∧
      (s.engine.world.updated q.deltas).Holds (s.registry.roster since q.timestamp) := by
  have hchained := h.agreed.chained
  rw [hq] at hchained
  rcases hchained with ⟨_, haccepts, hafter, _⟩
  rcases h.holds.updated h.valid haccepts with ⟨hnone, hupdated⟩
  rw [hafter] at hupdated
  exact ⟨haccepts, hafter, hnone, hupdated⟩

/-- A step is run if a snapshot is pending; otherwise nothing happens. -/
theorem runStep_cases [LawfulZero S] (h : s.Consistent since) :
    Ends s.runStep (Overfull s.registry) fun after =>
      after = s ∨ ∃ q rest before, Stepped s after q rest before := by
  unfold Session.runStep
  cases hq : s.engine.inbox.queue with
  | nil =>
    unfold Engine.stepNext
    rw [h.inbox.receive_nil hq]
    exact .pure (.inl rfl)
  | cons q rest =>
    have hfails : ∀ f, f = .lengthOverflow ∧ (s.engine.world.updated q.deltas).Oversized →
        Overfull s.registry f := fun f hf =>
      ⟨hf.1, h.agreed.registry.large_of_oversized (h.roster_updated hq).2.2.2 hf.2⟩
    refine ((h.stepNext hq).mono hfails fun _ hnext => hnext).bind ?_
    rintro ⟨number, engine⟩ ⟨rfl, before, hstepped⟩
    exact .pure (.inr ⟨q, rest, before, hstepped q.timestamp⟩)

/-- Where the roster is once a snapshot has been answered. -/
theorem roster_stepped [LawfulZero S] (h : s.Consistent since) {after : Session S T}
    {q : PushSnapshot S T} {rest : List (PushSnapshot S T)} {before : World S}
    (hs : Stepped s after q rest before) :
    (s.registry.roster since s.engine.world.latest).AcceptsAll q.deltas ∧
      (s.registry.roster since s.engine.world.latest).afterAll q.deltas =
        s.registry.roster since q.timestamp ∧
      s.engine.world.droppedOf q.deltas = 0 ∧
      before.Holds (s.registry.roster since q.timestamp) := by
  rcases h.roster_updated hs.queue with ⟨haccepts, hafter, hnone, hupdated⟩
  refine ⟨haccepts, hafter, hnone, ?_⟩
  rcases hs.prepared with rfl | hrebuilt
  · exact hupdated
  · have hrange := Roster.inRange_of_acceptsAll haccepts
    have hvalid := h.valid.afterAll haccepts
    rw [hafter] at hvalid
    exact hupdated.rebuilt hvalid (h.world.updated hrange).sound hrebuilt

/-- Answering the oldest snapshot applies all its deltas. -/
theorem stepped [LawfulZero S] (h : s.Consistent since) {after : Session S T}
    {q : PushSnapshot S T} {rest : List (PushSnapshot S T)} {before : World S}
    (hs : Stepped s after q rest before) : after.Consistent since := by
  rcases h.roster_stepped hs with ⟨haccepts, hafter, hnone, hbefore⟩
  have hlatest : after.engine.world.latest = q.timestamp := by
    rw [hs.world]
    rfl
  have hagreed := h.agreed
  rw [hs.queue] at hagreed
  constructor
  · rw [hs.registry, hlatest, hs.inbox, hs.writes]
    exact hagreed.pop
  · rw [hs.world]
    exact .stepped hs.sound hs.linked q
  · rw [hs.registry, hlatest, ← hafter]
    exact h.valid.afterAll haccepts
  · rw [hs.registry, hlatest, hs.world]
    exact hbefore.stepped q
  · rw [hs.writes]
    exact hs.pending
  · rw [hlatest]
    exact hs.answers
  · intro p hp
    rw [hs.outbox, hs.playback] at hp
    simp only [List.mem_append] at hp
    rcases hp with ((hp | hp) | hp) | hp
    · exact h.applied p (by simp [hp])
    · rw [List.mem_singleton.mp hp]
      exact hnone
    · exact h.applied p (by simp [hp])
    · exact h.applied p (by simp [hp])
  · rw [hs.playback]
    exact h.counts

/-- A step is run if a snapshot is pending, and the producer does not notice. -/
theorem runStep [LawfulZero S] (h : s.Consistent since) :
    Ends s.runStep (Overfull s.registry) fun after => after.Consistent since ∧
      after.registry = s.registry ∧ after.config = s.config := by
  refine h.runStep_cases.weaken ?_
  rintro after (rfl | ⟨q, rest, before, hs⟩)
  · exact ⟨h, rfl, rfl⟩
  · exact ⟨h.stepped hs, hs.registry, hs.config⟩

/-- Steps keep the session consistent and leave the producer alone. -/
theorem stepsKeep [LawfulZero S] (registry : Registry S) (config : Config S) :
    StepsKeep (Overfull registry) fun after : Session S T => after.Consistent since ∧
      after.registry = registry ∧ after.config = config where
  step := by
    rintro s ⟨h, rfl, rfl⟩
    exact h.runStep
  flight := by
    rintro s inFlight ⟨h, hsame⟩
    exact ⟨h.congr rfl rfl rfl rfl rfl rfl, hsame⟩

theorem waitForPending [LawfulZero S] (h : s.Consistent since) :
    Ends s.waitForPending (Overfull s.registry) fun after => after.Consistent since ∧
      after.registry = s.registry ∧ after.config = s.config :=
  (stepsKeep s.registry s.config).waitForPending ⟨h, rfl, rfl⟩

theorem tick [LawfulZero S] (h : s.Consistent since) :
    Ends s.tick (Overfull s.registry) fun after =>
      after.Consistent since ∧ after.registry = s.registry :=
  ((stepsKeep s.registry s.config).tick ⟨h, rfl, rfl⟩).weaken fun _ hafter =>
    ⟨hafter.1, hafter.2.1⟩

/-! ## Advances -/

/-- Without steps nothing is sealed; otherwise the first snapshot takes all writes along. -/
theorem sealSteps_cases (h : s.Consistent since) (dt : S) (steps : UInt32) :
    Ends (s.outbox.sealSteps s.engine.inbox s.externalTime dt steps) Overflow
      fun (sent, outbox, inbox) => sent = .ok outbox.sealedTimestamp ∧
        (outbox = s.outbox ∧ inbox = s.engine.inbox ∨
          ∃ first rest, Sealed s outbox inbox first rest) := by
  have hnext : 0 < s.outbox.nextTimestamp.ticks := by
    have := h.agreed.numbered
    omega
  refine Ends.mono (Outbox.sealSteps_ends h.inbox hnext s.externalTime dt steps)
    (fun f hf => .inl hf) ?_
  rintro ⟨sent, outbox, inbox⟩ ⟨hsent, ⟨_, houtbox, hinbox⟩ | ⟨_, hempty, hticks, hordered, _,
    first, rest, hqueue, hlength, hnumbered, hdeltas, hblank⟩⟩
  · exact ⟨hsent, .inl ⟨houtbox, hinbox⟩⟩
  · refine ⟨hsent, .inr ⟨first, rest, hempty, ?_, hordered, hqueue, hnumbered, hdeltas, hblank⟩⟩
    rw [hticks, hlength]

theorem seals [LawfulZero S] (h : s.Consistent since) :
    StepsKeep.Seals s Overflow fun after => after.Consistent since ∧
      after.registry = s.registry ∧ after.config = s.config := by
  intro dt steps
  refine (h.sealSteps_cases dt steps).weaken ?_
  rintro ⟨sent, outbox, inbox⟩ ⟨hsent, ⟨rfl, rfl⟩ | ⟨first, rest, hs⟩⟩
  · refine ⟨hsent, fun clock externalTime => ⟨?_, rfl, rfl⟩⟩
    exact h.congr rfl rfl rfl rfl rfl rfl
  · refine ⟨hsent, fun clock externalTime => ⟨?_, rfl, rfl⟩⟩
    refine ⟨?_, h.world, h.valid, h.holds, hs.ordered, h.outbox, h.applied, h.counts⟩
    show Agreed s.registry since s.engine.world.latest inbox.queue outbox
    rw [hs.queue]
    exact h.agreed.sealed hs.deltas hs.blank hs.empty hs.numbered hs.next

/-- Handing snapshots over. -/
theorem handOver [LawfulZero S] (h : s.Consistent since) (dt : S) :
    Ends (s.handOver dt) Overflow fun (_, _, after) =>
      after.Consistent since ∧ after.registry = s.registry :=
  ((stepsKeep s.registry s.config).overflow.handOver h.seals dt).weaken fun _ hafter =>
    ⟨hafter.1, hafter.2.1⟩

theorem advance [LawfulZero S] (h : s.Consistent since) (dt : S) :
    Ends (s.advance dt) Overflow fun (_, after) =>
      after.Consistent since ∧ after.registry = s.registry :=
  ((stepsKeep s.registry s.config).overflow.advance h.seals dt).weaken fun _ hafter =>
    ⟨hafter.1, hafter.2.1⟩

/-! ## Results -/

omit [Scalar T] [Timeline S T] in
/-- What is pulled is written to the registry, and what the world has forgotten is collected. -/
theorem pulled (h : s.Consistent since) {channel : Channel (PullSnapshot S T)}
    (hempty : channel.queue = []) (hordered : channel.Ordered s.engine.world.latest)
    {received : Playback S T} {pulled : Pulled S T} (hleaves : received.Leaves s.registry pulled)
    (hanswers : ∀ p ∈ received.pending ++ received.next.toList, p.counts.dropped = 0)
    (hcounts : received.counts.dropped = 0) :
    Consistent { s with
      engine := { s.engine with outbox := channel }
      playback := pulled.playback
      registry := pulled.registry.collectGarbage (Playback.consumed channel) } since ∧
    ∀ a, ((pulled.registry.collectGarbage (Playback.consumed channel)).get? a).isSome →
      (s.registry.get? a).isSome := by
  have hconsumed := Playback.consumed_le hordered
  rcases hleaves with ⟨⟨rule, ids, hregistry⟩, hsubset, hsame⟩
  rcases h.agreed.writeResults rule ids with ⟨hagreed, hroster, hsome⟩
  rw [← hregistry] at hagreed hroster hsome
  have hcollected := (hagreed.registry.roster_collectGarbage hconsumed).trans (hroster _)
  constructor
  · constructor
    · exact hagreed.collectGarbage hconsumed
    · exact h.world
    · show Roster.Valid (Registry.roster _ since s.engine.world.latest)
      rw [hcollected]
      exact h.valid
    · show s.engine.world.Holds (Registry.roster _ since s.engine.world.latest)
      rw [hcollected]
      exact h.holds
    · exact h.inbox
    · exact hordered
    · intro p hp
      dsimp only at hp
      rw [hempty, List.nil_append] at hp
      exact hanswers p (hsubset p hp)
    · exact (congrArg StepCounts.dropped hsame).trans hcounts
  · intro a ha
    rw [← hsome a]
    rw [(hagreed.registry.collectGarbage _).2] at ha
    exact Option.isSome_of_isSome_filter _ _ ha

/-- A pull gives back what the world has answered for. -/
theorem pull (h : s.Consistent since) : s.pull.2.Consistent since ∧
    ∀ a, (s.pull.2.registry.get? a).isSome → (s.registry.get? a).isSome := by
  rcases h.outbox.drain with ⟨channel, hdrain, hempty, hordered, _⟩
  have hreceive := Playback.receive_of_drain (p := s.playback) hdrain
  let received := (s.playback.receive s.engine.outbox).1
  have hanswers : ∀ p ∈ received.pending ++ received.next.toList, p.counts.dropped = 0 := by
    intro p hp
    refine h.applied p ?_
    rw [hreceive.2.1, hreceive.2.2.1] at hp
    simp only [List.mem_append] at hp ⊢
    tauto
  have hcounts : received.counts.dropped = 0 := by
    rw [hreceive.2.2.2]
    cases hlast : s.engine.outbox.queue.getLast? with
    | none => exact h.counts
    | some last =>
      refine h.applied last ?_
      simp [List.mem_of_getLast? hlast]
  unfold Session.pull
  rw [show s.playback.receive s.engine.outbox = (received, channel) from
    Prod.ext rfl hreceive.1]
  dsimp only
  refine h.pulled hempty hordered ?_ hanswers hcounts
  split
  · exact Playback.pullAt_leaves received s.resultsTime s.registry
  · exact Playback.pullLatest_leaves received s.registry

end Consistent

end Session

end TetheredParticles
