import TetheredParticles.Proofs.Session.Consistency
/-!
# Producer and world agree on what exists

Whatever the producer asks for and whenever the background runs, every write that reaches the world
is applied, and the world holds exactly the proxies that were registered and not unregistered up to
the snapshot it has answered last. Handles on their way are not given to anybody else.

* `Session.Consistent.register`, `Session.Consistent.unregister`,
  `Session.Consistent.writeParticle` — what the producer may ask for.
* `Session.Consistent.perform` — every event leaves a consistent session.
* `Tracked.Mirrored`, `Tracked.run_mirrored` — what this says about whole runs.
-/

namespace TetheredParticles

variable {S T : Type} [Scalar S]

namespace Session

/-- No proxy has appeared in a registry. -/
def NoneNew (before after : Registry S) : Prop :=
  ∀ a, (after.get? a).isSome → (before.get? a).isSome

namespace Consistent

variable {s : Session S T} {since : ProxyId → Timestamp}

/-! ## Registrations -/

theorem register (h : s.Consistent since) {owner : ExternalId} {blueprint : Blueprint S}
    {id : ProxyId} {after : Session S T} (hok : s.register owner blueprint = .ok (id, after)) :
    after.Consistent (Tracked.noticed since s.registry after.registry s.producerTimestamp) := by
  unfold Session.register at hok
  rcases exists_of_bind_ok hok with ⟨⟨id', creation, registry⟩, hregister, hok⟩
  cases hok
  rcases h.agreed.registry.register hregister with ⟨hentered, hsound⟩
  rcases hentered.proxy with ⟨p, _, _, _, _, hget⟩
  -- the one proxy that has appeared is the new one
  have hnoticed : Tracked.noticed since s.registry registry s.producerTimestamp =
      Function.update since id s.producerTimestamp := by
    funext a
    unfold Tracked.noticed
    rw [hget]
    by_cases ha : a = id
    · subst ha
      rw [Function.update_self, if_pos]
      rw [hentered.fresh, if_pos rfl]
      exact ⟨rfl, rfl⟩
    · rw [Function.update_of_ne ha, if_neg]
      rw [if_neg ha]
      rintro ⟨hnone, hsome⟩
      rw [Option.isNone_iff_eq_none] at hnone
      rw [hnone] at hsome
      cases hsome
  have hproducer := h.producer (h.agreed.register hentered hsound)
    (hentered.roster_of_lt h.latest_lt) rfl
  exact hnoticed ▸ hproducer

omit [Scalar S] in
theorem foldl_send (s : Session S T) (ids : List ProxyId) :
    ids.foldl (fun s id => s.send id .destroy) s = { s with
      outbox := { s.outbox with deltas := s.outbox.deltas ++ ids.map fun a => ⟨a, .destroy⟩ } } := by
  induction ids generalizing s with
  | nil => simp
  | cons id rest ih =>
    rw [List.foldl_cons, ih]
    simp [Session.send, Outbox.push]

theorem unregister (h : s.Consistent since) {id : ProxyId} {after : Session S T}
    (hok : s.unregister id = .ok after) :
    after.Consistent since ∧ NoneNew s.registry after.registry := by
  unfold Session.unregister at hok
  rcases exists_of_bind_ok hok with ⟨⟨gone, registry⟩, hunregister, hok⟩
  cases hok
  rcases h.agreed.registry.unregister hunregister with ⟨hunlisted, hsound⟩
  rw [foldl_send]
  constructor
  · exact h.producer (h.agreed.unregister hunlisted hsound) (hunlisted.roster_of_lt h.latest_lt) rfl
  · intro a ha
    dsimp only at ha
    rw [hunlisted.get?] at ha
    split at ha
    · rw [Option.isSome_map] at ha
      exact ha
    · exact ha

theorem unregisterOwner (h : s.Consistent since) {owner : ExternalId} {after : Session S T}
    (hok : s.unregisterOwner owner = .ok after) :
    after.Consistent since ∧ NoneNew s.registry after.registry := by
  unfold Session.unregisterOwner at hok
  split at hok
  case h_1 => exact h.unregister hok
  case h_2 => cases hok

/-! ## Writes -/

/-- A write that its proxy admits. -/
theorem write (h : s.Consistent since) {id : ProxyId} {p : Proxy S} {x : Held}
    (hp : s.registry.get? id = some p) (hlive : p.pendingDestroy = none) (hx : p.held = some x)
    {command : Command S} (hedit : command.IsEdit) (hadmits : Roster.Admits x command)
    (hparticles : ∀ k ∈ command.particles, k ∈ x.owned)
    (hconstraint : ∀ k ∈ command.constraint?, k ∈ x.constraint?) :
    Consistent (send { s with
      registry := s.registry.modify id (Registry.stamp s.producerTimestamp) } id command) since ∧
      NoneNew s.registry (s.registry.modify id (Registry.stamp s.producerTimestamp)) := by
  have hheld := h.agreed.registry.roster_now.mpr ⟨p, hp, hlive, hx⟩
  have hkeeps := Registry.stamp_keeps (S := S) s.producerTimestamp
  constructor
  · refine h.producer (h.agreed.write hp hlive hx ?_ ?_ hparticles hconstraint hkeeps) ?_ rfl
    · exact (Roster.accepts_edit hedit).mpr ⟨x, hheld, hadmits⟩
    · exact Roster.after_edit hedit
    · refine Registry.roster_modify ?_ _
      intro q
      exact ⟨(hkeeps q).1, (hkeeps q).2.1, (hkeeps q).2.2.2.2⟩
  · intro a ha
    rw [Registry.isSome_modify fun q => (hkeeps q).1] at ha
    exact ha

/-- The producer's view may change. -/
theorem view (h : s.Consistent since) (id : ProxyId) (view : ProxyState S → ProxyState S) :
    Consistent { s with
      registry := s.registry.modify id fun p => { p with state := view p.state } } since ∧
    NoneNew s.registry (s.registry.modify id fun p => { p with state := view p.state }) := by
  constructor
  · refine h.producer (h.agreed.modify id ?_) ?_ rfl
    · intro p
      exact ⟨rfl, Proxy.held_congr rfl rfl rfl, rfl, rfl, rfl⟩
    · refine Registry.roster_modify ?_ _
      intro p
      exact ⟨rfl, Proxy.held_congr rfl rfl rfl, rfl⟩
  · intro a ha
    exact (Registry.isSome_modify (fun _ => by rfl) a).symm.trans ha

theorem writeParticle (h : s.Consistent since) {id : ProxyId} {index : Nat}
    {command : ParticleHandle → Command S} (htarget : ∀ k, (command k).target? = some k)
    {view : ProxyState S → ProxyState S} {after : Session S T}
    (hok : s.writeParticle id index command view = .ok after) :
    after.Consistent since ∧ NoneNew s.registry after.registry := by
  unfold Session.writeParticle at hok
  rcases exists_of_bind_ok hok with ⟨⟨k, registry⟩, hfind, hok⟩
  cases hok
  rcases Registry.particleForWrite_ok hfind with ⟨p, hopen, hk, rfl⟩
  rcases h.agreed.registry.held_of_open hopen with ⟨x, hx, howned⟩
  have hmem : k ∈ x.owned := by
    rw [howned]
    exact Array.mem_toList_iff.mpr hk
  rcases Command.refers_target (htarget k) with ⟨hparticles, hconstraint⟩
  rcases Roster.admits_target (x := x) (htarget k) with ⟨hedit, hadmits⟩
  have hwritten := h.write hopen.1 hopen.2.1 hx hedit (hadmits.mpr hmem) ?_ ?_
  · rcases hwritten.1.view id view with ⟨hconsistent, hnone⟩
    exact ⟨hconsistent, fun a ha => hwritten.2 a (hnone a ha)⟩
  · rw [hparticles]
    intro l hl
    rw [List.mem_singleton.mp hl]
    exact hmem
  · rw [hconstraint]
    intro l hl
    cases hl

theorem setTetherStiffness (h : s.Consistent since) {id : ProxyId} {stiffness : S}
    {after : Session S T} (hok : s.setTetherStiffness id stiffness = .ok after) :
    after.Consistent since ∧ NoneNew s.registry after.registry := by
  unfold Session.setTetherStiffness at hok
  rcases exists_of_bind_ok hok with ⟨⟨p, registry⟩, hfind, hok⟩
  cases hok
  rcases Registry.ofKindForWrite_ok hfind with ⟨q, hq, hlive, hkind, _, rfl⟩
  rcases h.agreed.registry.held id q hq with ⟨x, hx, _⟩
  refine h.write hq hlive hx trivial ?_ ?_ ?_
  · unfold Proxy.held at hx
    rw [hkind] at hx
    split at hx
    case h_2 =>
      cases hx
      rfl
    case h_5 => cases hx
    all_goals contradiction
  · intro k hk
    cases hk
  · intro k hk
    cases hk

/-- The writes that constraints of a kind admit. -/
theorem writeConstraint (h : s.Consistent since) {id : ProxyId} {kind : ProxyKind}
    {command : ConstraintHandle → Command S} (hedit : ∀ k, (command k).IsEdit)
    (hadmits : ∀ (p : Proxy S) x k, p.kind = kind → p.held = some x → p.constraint = some k →
      Roster.Admits x (command k))
    (hparticles : ∀ k, (command k).particles = [])
    (hconstraint : ∀ k, (command k).constraint? = some k) {after : Session S T}
    (hok : s.writeConstraint id kind command = .ok after) :
    after.Consistent since ∧ NoneNew s.registry after.registry := by
  unfold Session.writeConstraint at hok
  rcases exists_of_bind_ok hok with ⟨⟨p, registry⟩, hfind, hok⟩
  dsimp only at hok
  rcases Registry.ofKindForWrite_ok hfind with ⟨q, hq, hlive, hkind, rfl, rfl⟩
  split at hok
  case h_1 => cases hok
  case h_2 k hk =>
    cases hok
    rcases h.agreed.registry.held id q hq with ⟨x, hx, _⟩
    refine h.write hq hlive hx (hedit k) (hadmits q x k hkind hx hk) ?_ ?_
    · rw [hparticles]
      intro l hl
      cases hl
    · rw [hconstraint]
      rintro l ⟨⟩
      rcases q.members_of_held hx with ⟨_, _, _, hnone, _⟩ | ⟨_, _, _, hsame⟩
      · rw [show q.constraint = some k from hk] at hnone
        cases hnone
      · rw [hsame]
        exact hk

/-! ## What is kept -/

omit [Scalar S] in
/-- Where no proxy appears, nothing is noticed. -/
theorem noticed_of_noneNew {before after : Registry S} (h : NoneNew before after)
    (now : Timestamp) : Tracked.noticed since before after now = since := by
  funext a
  unfold Tracked.noticed
  rw [if_neg]
  rintro ⟨hnone, hsome⟩
  rw [Option.isNone_iff_eq_none] at hnone
  have := h a hsome
  rw [hnone] at this
  cases this

omit [Scalar S] in
theorem noneNew_of_eq {before after : Registry S} (h : after = before) : NoneNew before after := by
  intro a ha
  rw [← h]
  exact ha

/-- The session after an event is consistent, with what has appeared. -/
def KeptBy (since : ProxyId → Timestamp) (s after : Session S T) : Prop :=
  after.Consistent (Tracked.noticed since s.registry after.registry s.producerTimestamp)

theorem kept {after : Session S T} (hafter : after.Consistent since)
    (hnone : NoneNew s.registry after.registry) : KeptBy since s after := by
  unfold KeptBy
  rw [noticed_of_noneNew hnone]
  exact hafter

/-- A refused request changes nothing. -/
theorem orSame {E : Type} (h : s.Consistent since) {result : Except E (Session S T)}
    (hresult : ∀ after, result = .ok after →
      after.Consistent since ∧ NoneNew s.registry after.registry) :
    KeptBy since s (s.orSame result) := by
  cases result with
  | error e => exact kept h (noneNew_of_eq rfl)
  | ok after =>
    rcases hresult after rfl with ⟨hafter, hnone⟩
    exact kept hafter hnone

/-! ## Other calls -/

/-- The world gets a configuration. -/
theorem configured (h : s.Consistent since) (config : Config S) :
    Consistent { s with
      engine := { s.engine with world := s.engine.world.setConfig config } } since := by
  refine ⟨h.agreed, h.world.setConfig config, h.valid, ?_, h.inbox, h.outbox, h.applied, h.counts⟩
  exact ⟨h.holds.members, h.holds.clusters, h.holds.joints, h.holds.suspensions,
    h.holds.particles, h.holds.owner⟩

variable [Scalar T] [Timeline S T]

theorem setConfig [LawfulZero S] (h : s.Consistent since) (config : Config S) :
    Ends (s.setConfig config) (Overfull s.registry) fun result => ∀ after, result = .ok after →
      after.Consistent since ∧ NoneNew s.registry after.registry := by
  unfold Session.setConfig
  split
  case h_1 =>
    refine .ok ?_
    intro after hafter
    cases hafter
  case h_2 =>
    have hconfigured : Consistent { s with config } since :=
      h.congr rfl rfl rfl rfl rfl rfl
    refine hconfigured.waitForPending.bind ?_
    rintro waited ⟨hwaited, hregistry, _⟩
    refine .pure ?_
    rintro after ⟨⟩
    constructor
    · exact hwaited.configured config
    · intro a ha
      rw [← show waited.registry = s.registry from hregistry]
      exact ha

theorem installHook [LawfulZero S] (h : s.Consistent since) (hook : Hook) :
    Ends (s.installHook hook) (Overfull s.registry) fun after =>
      after.Consistent since ∧ after.registry = s.registry := by
  unfold Session.installHook
  refine h.waitForPending.bind ?_
  rintro waited ⟨hwaited, hregistry, _⟩
  exact .pure ⟨hwaited.congr rfl rfl rfl rfl rfl rfl, hregistry⟩

theorem takeJournal [LawfulZero S] (h : s.Consistent since) :
    Ends s.takeJournal (Overfull s.registry) fun (_, after) =>
      after.Consistent since ∧ after.registry = s.registry := by
  unfold Session.takeJournal
  refine h.waitForPending.bind ?_
  rintro waited ⟨hwaited, hregistry, _⟩
  exact .pure ⟨hwaited.congr rfl rfl rfl rfl rfl rfl, hregistry⟩

/-! ## Events -/

/-- Every event leaves a consistent session. -/
theorem perform [LawfulZero S] (h : s.Consistent since) (event : Event S) :
    Ends (s.perform event) Overflow (KeptBy since s) := by
  cases event with
  | register owner blueprint =>
    refine .ok ?_
    cases hok : s.register owner blueprint with
    | error e => exact kept h (noneNew_of_eq rfl)
    | ok result => exact h.register hok
  | unregister id => exact .ok (h.orSame fun _ => h.unregister)
  | unregisterOwner owner => exact .ok (h.orSame fun _ => h.unregisterOwner)
  | setPosition id index position =>
    exact .ok (h.orSame fun _ => h.writeParticle fun _ => rfl)
  | setVelocity id index velocity =>
    exact .ok (h.orSame fun _ => h.writeParticle fun _ => rfl)
  | setKinematicTarget id index target =>
    exact .ok (h.orSame fun _ => h.writeParticle fun _ => rfl)
  | addForce id index force =>
    exact .ok (h.orSame fun _ => h.writeParticle fun _ => rfl)
  | setInverseMass id index inverseMass =>
    exact .ok (h.orSame fun _ => h.writeParticle fun _ => rfl)
  | setTetherStiffness id stiffness => exact .ok (h.orSame fun _ => h.setTetherStiffness)
  | setSuspensionTarget id target =>
    refine .ok (h.orSame fun after hok =>
      h.writeConstraint ?_ ?_ (fun _ => rfl) (fun _ => rfl) hok)
    · intro k
      trivial
    -- the handle that a suspension writes with names what it holds itself
    intro p x k hkind hx hk
    unfold Proxy.held at hx
    rw [hkind, hk] at hx
    split at hx
    case h_4 handle particle _ hhandle _ =>
      cases hx
      cases hhandle
      exact ⟨particle, rfl⟩
    all_goals contradiction
  | setJointRestLength id restLength =>
    refine .ok (h.orSame fun after hok =>
      h.writeConstraint ?_ ?_ (fun _ => rfl) (fun _ => rfl) hok)
    · intro k
      trivial
    intro p x k hkind hx hk
    unfold Proxy.held at hx
    rw [hkind, hk] at hx
    split at hx
    case h_3 handle first second _ hhandle _ =>
      cases hx
      cases hhandle
      exact ⟨first, second, rfl⟩
    all_goals contradiction
  | setPaused paused =>
    exact .ok (kept (h.congr rfl rfl rfl rfl rfl rfl) (noneNew_of_eq rfl))
  | setConfig config =>
    refine Ends.map ((ends_overflow (h.setConfig config)).weaken ?_)
    intro result hresult
    exact h.orSame hresult
  | installHook hook =>
    refine (ends_overflow (h.installHook hook)).weaken ?_
    rintro after ⟨hafter, hregistry⟩
    exact kept hafter (noneNew_of_eq hregistry)
  | takeJournal =>
    refine Ends.map ((ends_overflow h.takeJournal).weaken ?_)
    rintro ⟨calls, after⟩ ⟨hafter, hregistry⟩
    exact kept hafter (noneNew_of_eq hregistry)
  | waitForPending =>
    refine (ends_overflow h.waitForPending).weaken ?_
    rintro after ⟨hafter, hregistry, _⟩
    exact kept hafter (noneNew_of_eq hregistry)
  | advance dt =>
    refine Ends.map ((h.advance dt).weaken ?_)
    rintro ⟨target, after⟩ ⟨hafter, hregistry⟩
    exact kept hafter (noneNew_of_eq hregistry)
  | pull => exact .ok (kept h.pull.1 h.pull.2)
  | tick =>
    refine (ends_overflow h.tick).weaken ?_
    rintro after ⟨hafter, hregistry⟩
    exact kept hafter (noneNew_of_eq hregistry)
  | handOver dt =>
    refine Ends.map ((h.handOver dt).weaken ?_)
    rintro ⟨count, target, after⟩ ⟨hafter, hregistry⟩
    exact kept hafter (noneNew_of_eq hregistry)
  | step =>
    refine (ends_overflow h.runStep).weaken ?_
    rintro after ⟨hafter, hregistry, _⟩
    exact kept hafter (noneNew_of_eq hregistry)

end Consistent

end Session

/-! ## Runs -/

namespace Tracked

/-- What producer and world agree on: no answer tells of a write that was not applied, the world
has answered every sealed snapshot that is not on its way and holds what was registered and not
unregistered up to then, and the handles of writes on their way are still in use by proxies that do
not go before these writes have arrived. -/
structure Mirrored (t : Tracked S T) : Prop where
  applied : ∀ p ∈ t.session.engine.outbox.queue ++ t.session.playback.pending ++
    t.session.playback.next.toList, p.counts.dropped = 0
  counts : t.session.playback.counts.dropped = 0
  answered : t.session.engine.world.latest.ticks + t.session.engine.inbox.queue.length =
    t.session.outbox.sealedTimestamp.ticks
  holds : t.session.engine.world.Holds (t.rosterAt t.session.engine.world.latest)
  queued : ∀ q ∈ t.session.engine.inbox.queue, ∀ d ∈ q.deltas,
    t.session.registry.Serves q.timestamp d
  buffered : ∀ d ∈ t.session.outbox.deltas,
    t.session.registry.Serves t.session.producerTimestamp d
  inUse : ∀ d ∈ t.session.engine.inbox.queue.flatMap (·.deltas) ++ t.session.outbox.deltas,
    t.session.registry.proxyPool.contains d.proxy = true ∧
    (∀ k ∈ d.command.particles, t.session.registry.particlePool.contains k = true) ∧
    ∀ k ∈ d.command.constraint?, t.session.registry.constraintPool.contains k = true

/-- Consistent sessions agree with their world. -/
theorem mirrored_of_consistent {t : Tracked S T} (h : t.session.Consistent t.since) :
    t.Mirrored := by
  constructor
  · exact h.applied
  · exact h.counts
  · exact h.agreed.sealed_ticks.symm
  · exact h.holds
  · exact h.agreed.queued
  · exact h.agreed.buffered
  · intro d hd
    rcases List.mem_append.mp hd with hd | hd
    · rcases List.mem_flatMap.mp hd with ⟨q, hq, hd⟩
      exact h.agreed.registry.inUse_of_serves (h.agreed.queued q hq d hd)
    · exact h.agreed.registry.inUse_of_serves (h.agreed.buffered d hd)

variable [Scalar T] [Timeline S T]

/-- Whatever happens to a session, in whatever order and however the background runs, producer and
world agree. A run only ends early when numbers or sizes no longer fit their words. -/
theorem run_mirrored [LawfulZero S] (config : Config S) (events : List (Session.Event S)) :
    Ends (run config events : Except Fault (Tracked S T)) Session.Overflow Mirrored := by
  have hstart : (Session.start config : Session S T).Consistent fun _ => .zero :=
    Session.consistent_start config _
  unfold run
  refine (Ends.foldlM_keeps (I := fun t : Tracked S T => t.session.Consistent t.since)
    hstart ?_).weaken fun t ht => mirrored_of_consistent ht
  intro t event _ ht
  unfold perform
  refine (ht.perform event).bind ?_
  intro s hs
  exact .pure hs

/-- A frame without proxies of which one step has run, and a frame with a new proxy. -/
theorem frames_mirrored : ∃ t : Tracked Float32 Float, run .standard
    [.handOver 1, .step, .register ⟨0⟩ (.particle (.kinematic 0)), .handOver 1] = .ok t ∧
      t.Mirrored := by
  have hends : (run .standard [.handOver 1, .step, .register ⟨0⟩ (.particle (.kinematic 0)),
      .handOver 1] : Except Fault (Tracked Float32 Float)).isOk = true := by decide +kernel
  have hmirrored := run_mirrored (T := Float) (Config.standard (S := Float32))
    [.handOver 1, .step, .register ⟨0⟩ (.particle (.kinematic 0)), .handOver 1]
  exact hmirrored.exists_of_isOk hends

end Tracked

end TetheredParticles
