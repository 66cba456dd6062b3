import Mathlib
import TetheredParticles.Proofs.Scalar.Exact
import TetheredParticles.Proofs.Session.Mirror
import TetheredParticles.Proofs.Session.Views
/-!
# Views that have caught up

As long as results are pulled plainly, no request and no advance keeps a view from catching up. Once
nothing is on its way any more, in either direction, the producer sees every particle where the
world has it.

* `Session.Current.register`, `Session.Current.unregister`, `Session.Current.write` — requests.
* `Session.Current.perform` — after every event, all views catch up.
* `Session.Quiescent`, `Session.Reflected` — nothing is on its way, and the views are right.
* `Tracked.run_reflected` — the second follows from the first in all runs.
-/

namespace TetheredParticles

variable {S T : Type} [Scalar S]

namespace Session

/-- All views catch up after an event, with what has appeared. -/
def CurrentBy (since : ProxyId → Timestamp) (s after : Session S T) : Prop :=
  after.Current (Tracked.noticed since s.registry after.registry s.producerTimestamp)

namespace Current

variable {s : Session S T} {since : ProxyId → Timestamp}

theorem kept {after : Session S T} (hafter : after.Current since)
    (hnone : NoneNew s.registry after.registry) : CurrentBy since s after := by
  unfold CurrentBy
  rw [Consistent.noticed_of_noneNew hnone]
  exact hafter

/-- A refused request changes nothing. -/
theorem orSame {E : Type} (hc : s.Current since) {result : Except E (Session S T)}
    (hresult : ∀ after, result = .ok after → CurrentBy since s after) :
    CurrentBy since s (s.orSame result) := by
  cases result with
  | error e => exact kept hc (Consistent.noneNew_of_eq rfl)
  | ok after => exact hresult after rfl

/-! ## Registrations -/

theorem register (hc : s.Current since) (h : s.Consistent since) {owner : ExternalId}
    {blueprint : Blueprint S} {id : ProxyId} {after : Session S T}
    (hok : s.register owner blueprint = .ok (id, after)) : CurrentBy since s after := by
  unfold Session.register at hok
  rcases exists_of_bind_ok hok with ⟨⟨id', creation, registry⟩, hregister, hok⟩
  cases hok
  rcases (h.agreed.registry.register hregister).1.proxy with ⟨p, hid, _, _, hsync, hget⟩
  refine hc.producer h (o := s.outbox.push ⟨id, .create creation⟩) rfl rfl ?_
  intro q hq _ _
  rw [hget] at hq
  by_cases hnew : q.id = id
  · rw [if_pos hnew] at hq
    cases hq
    exact .inr ⟨hsync, _, List.mem_singleton_self _, hid.symm⟩
  · rw [if_neg hnew] at hq
    exact .inl hq

theorem unregister (hc : s.Current since) (h : s.Consistent since) {id : ProxyId}
    {after : Session S T} (hok : s.unregister id = .ok after) : CurrentBy since s after := by
  unfold Session.unregister at hok
  rcases exists_of_bind_ok hok with ⟨⟨gone, registry⟩, hunregister, hok⟩
  cases hok
  have hunlisted := (h.agreed.registry.unregister hunregister).1
  rw [Consistent.foldl_send]
  refine hc.producer h rfl rfl ?_
  intro q hq hlive _
  rw [hunlisted.get?] at hq
  by_cases hgone : q.id ∈ gone
  · -- it has just been unregistered
    rw [if_pos hgone] at hq
    rcases Option.map_eq_some_iff.mp hq with ⟨p, _, rfl⟩
    cases hlive
  · rw [if_neg hgone] at hq
    exact .inl hq

theorem unregisterOwner (hc : s.Current since) (h : s.Consistent since) {owner : ExternalId}
    {after : Session S T} (hok : s.unregisterOwner owner = .ok after) :
    CurrentBy since s after := by
  unfold Session.unregisterOwner at hok
  split at hok
  case h_1 => exact hc.unregister h hok
  case h_2 => cases hok

/-! ## Writes -/

/-- A write stamps its proxy with the number of the snapshot that brings it. -/
theorem write (hc : s.Current since) (h : s.Consistent since) {id : ProxyId} {r : Registry S}
    {change : Proxy S → Proxy S}
    (hget : ∀ a, r.get? a = if a = id then (s.registry.get? a).map change else s.registry.get? a)
    (hchange : ∀ p, (change p).id = p.id ∧ (change p).kind = p.kind ∧
      (change p).isPending = p.isPending ∧
      (change p).syncTimestamp = p.syncTimestamp.latest s.producerTimestamp)
    (command : Command S) : CurrentBy since s (send { s with registry := r } id command) := by
  refine hc.producer h (o := s.outbox.push ⟨id, command⟩) rfl rfl ?_
  intro q hq hlive howns
  rw [hget] at hq
  by_cases hid : q.id = id
  · rw [if_pos hid] at hq
    rcases Option.map_eq_some_iff.mp hq with ⟨p, hp, rfl⟩
    rcases hchange p with ⟨hsame, hkind, hpending, hsync⟩
    rw [hsame] at hp
    have htraced := hc.traced p ⟨hp, hpending.symm.trans hlive, hkind ▸ howns⟩
    refine .inr ⟨?_, _, List.mem_singleton_self _, hid.symm⟩
    rw [hsync]
    exact if_pos htraced.sync
  · rw [if_neg hid] at hq
    exact .inl hq

theorem writeParticle (hc : s.Current since) (h : s.Consistent since) {id : ProxyId} {index : Nat}
    {command : ParticleHandle → Command S} {view : ProxyState S → ProxyState S}
    {after : Session S T} (hok : s.writeParticle id index command view = .ok after) :
    CurrentBy since s after := by
  unfold Session.writeParticle at hok
  rcases exists_of_bind_ok hok with ⟨⟨k, registry⟩, hfind, hok⟩
  cases hok
  rcases Registry.particleForWrite_ok hfind with ⟨_, _, _, rfl⟩
  exact hc.write h (Registry.get?_write s.registry id s.producerTimestamp view)
    (fun _ => ⟨rfl, rfl, rfl, rfl⟩) (command k)

/-- A write that only stamps its proxy. -/
theorem stamped (hc : s.Current since) (h : s.Consistent since) {id : ProxyId} {kind : ProxyKind}
    {p : Proxy S} {r : Registry S}
    (hfind : s.registry.ofKindForWrite id kind s.producerTimestamp = .ok (p, r))
    (command : Command S) : CurrentBy since s (send { s with registry := r } id command) := by
  rcases Registry.ofKindForWrite_ok hfind with ⟨_, _, _, _, _, rfl⟩
  have hget : ∀ a, (s.registry.modify id (Registry.stamp s.producerTimestamp)).get? a =
      if a = id then (s.registry.get? a).map (Registry.stamp s.producerTimestamp)
      else s.registry.get? a :=
    Registry.get?_modify fun p => (Registry.stamp_keeps s.producerTimestamp p).1
  exact hc.write h hget (fun _ => ⟨rfl, rfl, rfl, rfl⟩) command

theorem setTetherStiffness (hc : s.Current since) (h : s.Consistent since) {id : ProxyId}
    {stiffness : S} {after : Session S T} (hok : s.setTetherStiffness id stiffness = .ok after) :
    CurrentBy since s after := by
  unfold Session.setTetherStiffness at hok
  rcases exists_of_bind_ok hok with ⟨⟨p, registry⟩, hfind, hok⟩
  cases hok
  exact hc.stamped h hfind _

theorem writeConstraint (hc : s.Current since) (h : s.Consistent since) {id : ProxyId}
    {kind : ProxyKind} {command : ConstraintHandle → Command S} {after : Session S T}
    (hok : s.writeConstraint id kind command = .ok after) : CurrentBy since s after := by
  unfold Session.writeConstraint at hok
  rcases exists_of_bind_ok hok with ⟨⟨p, registry⟩, hfind, hok⟩
  dsimp only at hok
  split at hok
  case h_1 => cases hok
  case h_2 k _ =>
    cases hok
    exact hc.stamped h hfind _

/-! ## Other calls -/

variable [Scalar T] [Timeline S T]

theorem waitForPending [LawfulZero S] [LawfulRest S] (hc : s.Current since)
    (h : s.Consistent since) : Ends s.waitForPending Overflow fun after =>
      after.Consistent since ∧ after.Current since ∧ after.registry = s.registry :=
  (stepsKeep s.registry).waitForPending ⟨h, hc, rfl⟩

theorem setConfig [LawfulZero S] [LawfulRest S] (hc : s.Current since) (h : s.Consistent since)
    {config : Config S} (hconfig : config.check = .ok () → config.interpolates = false) :
    Ends (s.setConfig config) Overflow fun result => ∀ after, result = .ok after →
      CurrentBy since s after := by
  unfold Session.setConfig
  split
  case h_1 =>
    refine .ok ?_
    intro after hafter
    cases hafter
  case h_2 hcheck =>
    have hconfigured : Consistent { s with config } since :=
      h.congr rfl rfl rfl rfl rfl rfl
    have hcurrent : Current { s with config } since :=
      ⟨hconfig hcheck, hc.remembers, fun p hp => (hc.traced p hp).congr rfl rfl rfl rfl rfl⟩
    refine (hcurrent.waitForPending hconfigured).bind ?_
    rintro waited ⟨_, hwaited, hregistry⟩
    refine .pure ?_
    rintro after ⟨⟩
    rcases hwaited.remembers with ⟨directions, hdirections⟩
    refine kept ⟨hwaited.plain, ⟨directions, hdirections.of_memory rfl⟩, ?_⟩
      (Consistent.noneNew_of_eq hregistry)
    exact fun p hp => (hwaited.traced p hp).congr rfl rfl rfl rfl rfl

theorem installHook [LawfulZero S] [LawfulRest S] (hc : s.Current since) (h : s.Consistent since)
    (hook : Hook) : Ends (s.installHook hook) Overflow (CurrentBy since s) := by
  unfold Session.installHook
  refine (hc.waitForPending h).bind ?_
  rintro waited ⟨_, hwaited, hregistry⟩
  refine .pure (kept ⟨hwaited.plain, hwaited.remembers, ?_⟩ (Consistent.noneNew_of_eq hregistry))
  exact fun p hp => (hwaited.traced p hp).congr rfl rfl rfl rfl rfl

theorem takeJournal [LawfulZero S] [LawfulRest S] (hc : s.Current since) (h : s.Consistent since) :
    Ends s.takeJournal Overflow fun (_, after) => CurrentBy since s after := by
  unfold Session.takeJournal
  refine (hc.waitForPending h).bind ?_
  rintro waited ⟨_, hwaited, hregistry⟩
  refine .pure (kept ⟨hwaited.plain, hwaited.remembers, ?_⟩ (Consistent.noneNew_of_eq hregistry))
  exact fun p hp => (hwaited.traced p hp).congr rfl rfl rfl rfl rfl

/-! ## Events -/

/-- No event keeps a view from catching up. -/
theorem perform [LawfulZero S] [LawfulRest S] (hc : s.Current since) (h : s.Consistent since)
    {event : Event S} (hevent : ∀ config, event = .setConfig config → config.check = .ok () →
      config.interpolates = false) : Ends (s.perform event) Overflow (CurrentBy since s) := by
  -- what holds of a session with the same registry
  have same : ∀ after : Session S T,
      after.Consistent since ∧ after.Current since ∧ after.registry = s.registry →
        CurrentBy since s after :=
    fun after hafter => kept hafter.2.1 (Consistent.noneNew_of_eq hafter.2.2)
  cases event with
  | register owner blueprint =>
    refine .ok ?_
    cases hok : s.register owner blueprint with
    | error e => exact kept hc (Consistent.noneNew_of_eq rfl)
    | ok result => exact hc.register h hok
  | unregister id => exact .ok (hc.orSame fun _ => hc.unregister h)
  | unregisterOwner owner => exact .ok (hc.orSame fun _ => hc.unregisterOwner h)
  | setPosition id index position => exact .ok (hc.orSame fun _ => hc.writeParticle h)
  | setVelocity id index velocity => exact .ok (hc.orSame fun _ => hc.writeParticle h)
  | setKinematicTarget id index target => exact .ok (hc.orSame fun _ => hc.writeParticle h)
  | addForce id index force => exact .ok (hc.orSame fun _ => hc.writeParticle h)
  | setInverseMass id index inverseMass => exact .ok (hc.orSame fun _ => hc.writeParticle h)
  | setTetherStiffness id stiffness => exact .ok (hc.orSame fun _ => hc.setTetherStiffness h)
  | setSuspensionTarget id target => exact .ok (hc.orSame fun _ => hc.writeConstraint h)
  | setJointRestLength id restLength => exact .ok (hc.orSame fun _ => hc.writeConstraint h)
  | setPaused paused =>
    refine .ok (kept ⟨hc.plain, hc.remembers, ?_⟩ (Consistent.noneNew_of_eq rfl))
    exact fun p hp => (hc.traced p hp).congr rfl rfl rfl rfl rfl
  | setConfig config =>
    refine Ends.map ((hc.setConfig h (hevent config rfl)).weaken ?_)
    intro result hresult
    exact hc.orSame hresult
  | installHook hook => exact hc.installHook h hook
  | takeJournal => exact Ends.map (hc.takeJournal h)
  | waitForPending => exact (hc.waitForPending h).weaken same
  | advance dt =>
    refine Ends.map (((stepsKeep s.registry).advance (hc.seals h) dt).weaken ?_)
    exact fun result => same result.2
  | pull => exact .ok (kept (hc.pull h) h.pull.2)
  | tick => exact ((stepsKeep s.registry).tick ⟨h, hc, rfl⟩).weaken same
  | handOver dt =>
    refine Ends.map (((stepsKeep s.registry).handOver (hc.seals h) dt).weaken ?_)
    exact fun result => same result.2.2
  | step => exact ((stepsKeep s.registry).step s ⟨h, hc, rfl⟩).weaken same

end Current

/-! ## Nothing on its way -/

/-- All writes have been sealed, all sealed snapshots have been stepped, and all answers have been
pulled. -/
def Quiescent (s : Session S T) : Prop :=
  s.outbox.deltas = [] ∧ s.engine.inbox.queue = [] ∧ s.engine.outbox.queue = [] ∧
    s.playback.pending = []

instance : DecidablePred (Quiescent (S := S) (T := T)) := fun _ => inferInstanceAs (Decidable (_ ∧ _))

/-- The producer sees the particles of every proxy where the world has them, unless the proxy has
been unregistered. -/
def Reflected (s : Session S T) : Prop :=
  ∀ p, s.Shows p → s.engine.world.store.Places p.particles.toList p.state.positions.toList

/-- With nothing on its way, every view has caught up. -/
theorem Current.reflected {s : Session S T} {since : ProxyId → Timestamp} (hc : s.Current since)
    (h : s.Quiescent) : s.Reflected := by
  rcases h with ⟨hdeltas, hinbox, houtbox, hpending⟩
  intro p hp
  have htraced := hc.traced p hp
  have hanswers : s.answers = [] := by
    unfold answers
    rw [hpending, houtbox]
    rfl
  have hanswered : p.syncTimestamp ≤ s.engine.world.latest := by
    by_contra hnot
    rcases htraced.carried (Timestamp.not_le.mp hnot) with ⟨q, hq, _⟩ | ⟨_, d, hd, _⟩
    · rw [hinbox] at hq
      cases hq
    · rw [hdeltas] at hd
      cases hd
  have hshown := htraced.shown hanswered
  rw [hanswers, Playback.shown_nil] at hshown
  exact hshown

end Session

/-! ## Runs -/

namespace Tracked

variable [Scalar T] [Timeline S T]

/-- While results are pulled plainly, whatever happens: whenever all writes have been answered and
all answers have been pulled, the producer sees every particle where the world has it. -/
theorem run_reflected [LawfulZero S] [LawfulRest S] (config : Config S)
    (hconfig : config.interpolates = false) (events : List (Session.Event S))
    (hevents : ∀ c, .setConfig c ∈ events → c.check = .ok () → c.interpolates = false) :
    Ends (run config events : Except Fault (Tracked S T)) Session.Overflow fun t =>
      t.session.Quiescent → t.session.Reflected := by
  have hstart : (Session.start config : Session S T).Consistent fun _ => .zero :=
    Session.consistent_start config _
  have hcurrent : (Session.start config : Session S T).Current fun _ => .zero :=
    Session.current_start hconfig _
  unfold run
  refine (Ends.foldlM_keeps (I := fun t : Tracked S T =>
    t.session.Consistent t.since ∧ t.session.Current t.since) ⟨hstart, hcurrent⟩ ?_).weaken
    fun t ht => ht.2.reflected
  rintro t event hmem ⟨ht, hc⟩
  have hevent : ∀ c, event = .setConfig c → c.check = .ok () → c.interpolates = false := by
    rintro c rfl
    exact hevents c hmem
  unfold perform
  refine ((ht.perform event).and (hc.perform ht hevent)).bind ?_
  intro s hs
  exact .pure hs

/-- A frame in which one particle falls and the other one is carried, and a write to the one that
falls before the results are pulled. -/
def fall : List (Session.Event Rat) :=
  [.register ⟨0⟩ (.particle (.dynamic 0 1)), .register ⟨1⟩ (.particle (.kinematic 0)),
    .advance (1 / 60), .tick, .setKinematicTarget ⟨1, 0⟩ 0 ⟨1, 0, 0⟩,
    .setPosition ⟨0, 0⟩ 0 ⟨0, 0, 1⟩, .pull, .advance (1 / 60), .waitForPending, .pull]

theorem fall_reflected : ∃ t : Tracked Rat Rat, run .standard fall = .ok t ∧
    t.session.Quiescent ∧ t.session.registry.size = 2 ∧ t.session.Reflected := by
  have hquiet : Ends (run .standard fall : Except Fault (Tracked Rat Rat)) never fun t =>
      t.session.Quiescent ∧ t.session.registry.size = 2 := by decide_cbv
  have hevents : ∀ c, .setConfig c ∈ fall → c.check = .ok () → c.interpolates = false := by
    intro c hc
    simp only [fall, List.mem_cons, List.not_mem_nil, reduceCtorEq, or_false] at hc
  have hreflected := run_reflected (T := Rat) Config.standard rfl fall hevents
  rcases hquiet.exists_ok fun _ h => h with ⟨t, hrun, hquiescent, hsize⟩
  exact ⟨t, hrun, hquiescent, hsize, hreflected.holds_of_eq hrun hquiescent⟩

end Tracked

end TetheredParticles
