import TetheredParticles.Proofs.Session.Requests
import TetheredParticles.Proofs.Snapshot.Playback
import TetheredParticles.Proofs.World.Answers
/-!
# Views that fit

The producer's view of a particle or cluster has a position and a velocity for each of its
particles. A registration makes it so, and every answer that a pull may use later tells of as many
particles, since it came after the registration.

* `Proxy.Fitted`, `ResultData.Fits` — views and results for as many particles as there are.
* `Session.Fitting` — all views fit, and so does everything that pulls may use.
* `Session.Fitting.producer`, `Session.Fitting.stepped`, `Session.Fitting.pull` — what is done on
  either side keeps it so.
* `Session.Intact.perform` — so does every event.
-/

namespace TetheredParticles

variable {S T : Type}

/-- The view of a particle or cluster has an entry for each particle. -/
def Proxy.Fitted (p : Proxy S) : Prop :=
  p.kind.ownsParticles = true →
    p.state.positions.size = p.particles.size ∧ p.state.velocities.size = p.particles.size

/-- A result tells of a number of particles, or of none. -/
def ResultData.Fits (count : Nat) : ResultData S → Prop
  | .particles positions velocities => positions.size = count ∧ velocities.size = count
  | .constraint _ => True

/-- A proxy has come from another one by writes and results. -/
structure Proxy.Follows (p q : Proxy S) : Prop where
  kind : p.kind = q.kind
  particles : p.particles = q.particles
  sync : q.syncTimestamp ≤ p.syncTimestamp
  fitted : q.Fitted → p.Fitted

theorem Proxy.Follows.refl (p : Proxy S) : p.Follows p := ⟨rfl, rfl, le_refl _, fun h => h⟩

/-- A result that fits leaves a view that fits. -/
theorem Proxy.follows_write {p : Proxy S} {data : ResultData S}
    (h : p.kind.ownsParticles = true → data.Fits p.particles.size) : (p.write data).Follows p := by
  cases data with
  | particles positions velocities => exact ⟨rfl, rfl, le_refl _, fun _ => h⟩
  | constraint force => exact ⟨rfl, rfl, le_refl _, fun hp => hp⟩

/-- What is blended fits if the later state does. -/
theorem ResultData.Fits.lerp [Scalar S] {count : Nat} {earlier later : ResultData S}
    (h : later.Fits count) (alpha : S) : (earlier.lerp later alpha).Fits count := by
  unfold ResultData.lerp
  split
  case h_1 =>
    split
    case isTrue hsizes =>
      rcases h with ⟨hpositions, hvelocities⟩
      refine ⟨?_, ?_⟩
      · rw [Array.size_zipWith, hsizes.1, Nat.min_self, hpositions]
      · rw [Array.size_zipWith, hsizes.2, Nat.min_self, hvelocities]
    case isFalse => exact h
  case h_2 => exact h

/-! ## Registries -/

namespace Registry

variable {r after : Registry S} {id : ProxyId} {p : Proxy S}

/-- The view of a new proxy has an entry for each particle. -/
theorem fitted_of_get?_enter [Scalar S] (hpool : r.particlePool.Sound) {owner : ExternalId}
    {draft : Draft S} {timestamp : Timestamp}
    (h : (r.enter owner draft timestamp).2.2.get? id = some p) :
    p.Fitted ∨ r.get? id = some p := by
  unfold enter at h
  dsimp only at h
  rcases get?_of_get?_place h with rfl | h
  · refine .inl ?_
    cases draft with
    | particle particle => exact fun _ => ⟨rfl, rfl⟩
    | cluster particles adjacency stiffness =>
      intro _
      have hlength := (HandlePool.allocMany_spec particles.length hpool).2.1
      refine ⟨?_, ?_⟩
      · show (particles.map _).toArray.size = (r.particlePool.allocMany _).1.toArray.size
        rw [List.size_toArray, List.size_toArray, List.length_map, hlength]
      · show (particles.map _).toArray.size = (r.particlePool.allocMany _).1.toArray.size
        rw [List.size_toArray, List.size_toArray, List.length_map, hlength]
    | joint first second owners restLength compliance => exact nofun
    | suspension particle owner target restLength compliance => exact nofun
  · refine .inr (Eq.trans ?_ h)
    unfold get? attach
    dsimp only
    rw [proxies_reserve]

theorem fitted_of_get?_register [Scalar S] (hpool : r.particlePool.Sound) {owner : ExternalId}
    {blueprint : Blueprint S} {timestamp : Timestamp} {stiffness : S} {new : ProxyId}
    {creation : Creation S}
    (hok : r.register owner blueprint timestamp stiffness = .ok (new, creation, after))
    (h : after.get? id = some p) : p.Fitted ∨ r.get? id = some p := by
  unfold register at hok
  split at hok
  case h_1 => cases hok
  rcases exists_of_bind_ok hok with ⟨draft, _, hok⟩
  cases hok
  exact fitted_of_get?_enter hpool h

/-- A write keeps the size of a view. -/
theorem follows_stamp (timestamp : Timestamp) (p : Proxy S) : (stamp timestamp p).Follows p := by
  refine ⟨rfl, rfl, ?_, fun h => h⟩
  show p.syncTimestamp ≤ p.syncTimestamp.latest timestamp
  unfold Timestamp.latest
  split
  case isTrue hle => exact hle
  case isFalse => exact le_refl _

end Registry

/-! ## Results -/

/-- The results of a step tell of all particles of a proxy. -/
theorem World.fits_of_mem_results [Scalar S] {w : World S} {moved : Bool} {id : ProxyId}
    {data : ResultData S} (h : ⟨id, data⟩ ∈ w.results moved) {count : Nat}
    (hcount : ∀ handles, w.members[id]? = some handles → handles.length = count) :
    data.Fits count := by
  unfold results at h
  rw [List.mem_mergeSort, List.mem_append, List.mem_map, List.mem_map] at h
  rcases h with ⟨⟨owner, listed⟩, hmem, hresult⟩ | ⟨owner, _, hresult⟩
  · cases hresult
    have hlength := hcount listed
      (Std.TreeMap.mem_toList_iff_getElem?_eq_some.mp (List.mem_filter.mp hmem).1)
    refine ⟨?_, ?_⟩
    · rw [List.size_toArray, List.length_map, hlength]
    · rw [List.size_toArray, List.length_map, hlength]
  · cases hresult
    trivial

variable [Scalar S]

namespace Session

/-- All views fit. What pulls may use are answers that the world has given, and whatever such an
answer says of a proxy after the latest write to it fits. -/
structure Fitting (s : Session S T) (heard : List (PullSnapshot S T)) : Prop where
  views : ∀ id p, s.registry.get? id = some p → p.Fitted
  playback : s.playback.Sourced heard
  outbox : ∀ a ∈ s.engine.outbox.queue, a ∈ heard
  reached : ∀ a ∈ heard, a.timestamp ≤ s.engine.world.latest
  fits : ∀ a ∈ heard, ∀ id p, s.registry.get? id = some p → p.kind.ownsParticles = true →
    p.syncTimestamp ≤ a.timestamp → ∀ data, ⟨id, data⟩ ∈ a.results →
      data.Fits p.particles.size

theorem fitting_start [Scalar T] (config : Config S) :
    (start config : Session S T).Fitting [] where
  views := by
    intro id p hp
    rw [show (start config : Session S T).registry.get? id = none from
      Registry.get?_empty id] at hp
    cases hp
  playback := Playback.sourced_empty
  outbox := fun a ha => absurd ha List.not_mem_nil
  reached := fun a ha => absurd ha List.not_mem_nil
  fits := fun a ha => absurd ha List.not_mem_nil

namespace Fitting

variable {s : Session S T} {since : ProxyId → Timestamp} {heard : List (PullSnapshot S T)}

omit [Scalar S] in
/-- What the producer keeps for itself does not matter. -/
theorem congr (h : s.Fitting heard) {after : Session S T} (hregistry : after.registry = s.registry)
    (hplayback : after.playback = s.playback) (houtbox : after.engine.outbox = s.engine.outbox)
    (hlatest : after.engine.world.latest = s.engine.world.latest) : after.Fitting heard where
  views := by
    rw [hregistry]
    exact h.views
  playback := by
    rw [hplayback]
    exact h.playback
  outbox := by
    rw [houtbox]
    exact h.outbox
  reached := by
    rw [hlatest]
    exact h.reached
  fits := by
    rw [hregistry]
    exact h.fits

/-- Every proxy may have come from the one it was, or be a new one that the world has not answered
for. -/
theorem producer (h : s.Fitting heard) (hc : s.Consistent since) {r : Registry S} {o : Outbox S}
    (hproxies : ∀ id p, r.get? id = some p → (∃ q, s.registry.get? id = some q ∧ p.Follows q) ∨
      p.Fitted ∧ p.syncTimestamp = s.producerTimestamp) :
    Fitting { s with registry := r, outbox := o } heard where
  views := by
    intro id p hp
    rcases hproxies id p hp with ⟨q, hq, hfollows⟩ | ⟨hfitted, _⟩
    · exact hfollows.fitted (h.views id q hq)
    · exact hfitted
  playback := h.playback
  outbox := h.outbox
  reached := h.reached
  fits := by
    intro a ha id p hp howns hsync data hdata
    rcases hproxies id p hp with ⟨q, hq, hfollows⟩ | ⟨_, hnew⟩
    · rw [hfollows.particles]
      exact h.fits a ha id q hq (hfollows.kind ▸ howns) (le_trans hfollows.sync hsync) data hdata
    · have hbefore := lt_of_le_of_lt (le_trans hsync (h.reached a ha)) hc.latest_lt
      rw [hnew] at hbefore
      exact absurd hbefore (lt_irrefl _)

/-! ## Requests -/

theorem register (h : s.Fitting heard) (hc : s.Consistent since) {owner : ExternalId}
    {blueprint : Blueprint S} {id : ProxyId} {after : Session S T}
    (hok : s.register owner blueprint = .ok (id, after)) : after.Fitting heard := by
  unfold Session.register at hok
  rcases exists_of_bind_ok hok with ⟨⟨id', creation, registry⟩, hregister, hok⟩
  cases hok
  refine h.producer hc ?_
  intro a p hp
  rcases (hc.agreed.registry.register hregister).1.proxy with ⟨new, _, _, _, hsync, hget⟩
  rcases Registry.fitted_of_get?_register hc.agreed.registry.particlePool hregister hp with
    hfitted | hold
  · rw [hget] at hp
    by_cases ha : a = id
    · rw [if_pos ha] at hp
      cases hp
      exact .inr ⟨hfitted, hsync⟩
    · rw [if_neg ha] at hp
      exact .inl ⟨p, hp, .refl p⟩
  · exact .inl ⟨p, hold, .refl p⟩

theorem unregister (h : s.Fitting heard) (hc : s.Consistent since) {id : ProxyId}
    {after : Session S T} (hok : s.unregister id = .ok after) : after.Fitting heard := by
  unfold Session.unregister at hok
  rcases exists_of_bind_ok hok with ⟨⟨gone, registry⟩, hunregister, hok⟩
  cases hok
  have hunlisted := (hc.agreed.registry.unregister hunregister).1
  rw [Consistent.foldl_send]
  refine h.producer hc ?_
  intro a p hp
  rw [hunlisted.get?] at hp
  by_cases ha : a ∈ gone
  · rw [if_pos ha] at hp
    rcases Option.map_eq_some_iff.mp hp with ⟨q, hq, rfl⟩
    exact .inl ⟨q, hq, rfl, rfl, le_refl _, fun hq => hq⟩
  · rw [if_neg ha] at hp
    exact .inl ⟨p, hp, .refl p⟩

theorem unregisterOwner (h : s.Fitting heard) (hc : s.Consistent since) {owner : ExternalId}
    {after : Session S T} (hok : s.unregisterOwner owner = .ok after) : after.Fitting heard := by
  unfold Session.unregisterOwner at hok
  split at hok
  case h_1 => exact h.unregister hc hok
  case h_2 => cases hok

/-- Whether a change of the producer's view keeps its sizes. -/
def KeepsSizes (view : ProxyState S → ProxyState S) : Prop :=
  ∀ v, (view v).positions.size = v.positions.size ∧ (view v).velocities.size = v.velocities.size

/-- A write changes one proxy, and its view keeps its sizes. -/
theorem write (h : s.Fitting heard) (hc : s.Consistent since) {id : ProxyId}
    {view : ProxyState S → ProxyState S} (hview : KeepsSizes view) {r : Registry S}
    (hget : ∀ a, r.get? a = if a = id then
      (s.registry.get? a).map fun p =>
        { Registry.stamp s.producerTimestamp p with state := view p.state }
      else s.registry.get? a) {o : Outbox S} :
    Fitting { s with registry := r, outbox := o } heard := by
  refine h.producer hc ?_
  intro a p hp
  rw [hget] at hp
  by_cases ha : a = id
  · rw [if_pos ha] at hp
    rcases Option.map_eq_some_iff.mp hp with ⟨q, hq, rfl⟩
    rcases hview q.state with ⟨hpositions, hvelocities⟩
    refine .inl ⟨q, hq, rfl, rfl, (Registry.follows_stamp _ q).sync, fun hfitted howns => ?_⟩
    rcases hfitted howns with ⟨hp, hv⟩
    exact ⟨hpositions.trans hp, hvelocities.trans hv⟩
  · rw [if_neg ha] at hp
    exact .inl ⟨p, hp, .refl p⟩

theorem writeParticle (h : s.Fitting heard) (hc : s.Consistent since) {id : ProxyId} {index : Nat}
    {command : ParticleHandle → Command S} {view : ProxyState S → ProxyState S}
    (hview : KeepsSizes view) {after : Session S T}
    (hok : s.writeParticle id index command view = .ok after) : after.Fitting heard := by
  unfold Session.writeParticle at hok
  rcases exists_of_bind_ok hok with ⟨⟨k, registry⟩, hfind, hok⟩
  cases hok
  rcases Registry.particleForWrite_ok hfind with ⟨_, _, _, rfl⟩
  exact h.write hc hview (Registry.get?_write s.registry id s.producerTimestamp view)

/-- A write that only stamps its proxy. -/
theorem stamped (h : s.Fitting heard) (hc : s.Consistent since) {id : ProxyId} {kind : ProxyKind}
    {p : Proxy S} {r : Registry S}
    (hfind : s.registry.ofKindForWrite id kind s.producerTimestamp = .ok (p, r))
    {o : Outbox S} : Fitting { s with registry := r, outbox := o } heard := by
  rcases Registry.ofKindForWrite_ok hfind with ⟨_, _, _, _, _, rfl⟩
  have hview : KeepsSizes fun v : ProxyState S => v := fun _ => ⟨rfl, rfl⟩
  exact h.write hc hview
    (Registry.get?_modify fun p => (Registry.stamp_keeps s.producerTimestamp p).1)

theorem setTetherStiffness (h : s.Fitting heard) (hc : s.Consistent since) {id : ProxyId}
    {stiffness : S} {after : Session S T} (hok : s.setTetherStiffness id stiffness = .ok after) :
    after.Fitting heard := by
  unfold Session.setTetherStiffness at hok
  rcases exists_of_bind_ok hok with ⟨⟨p, registry⟩, hfind, hok⟩
  cases hok
  exact h.stamped hc hfind

theorem writeConstraint (h : s.Fitting heard) (hc : s.Consistent since) {id : ProxyId}
    {kind : ProxyKind} {command : ConstraintHandle → Command S} {after : Session S T}
    (hok : s.writeConstraint id kind command = .ok after) : after.Fitting heard := by
  unfold Session.writeConstraint at hok
  rcases exists_of_bind_ok hok with ⟨⟨p, registry⟩, hfind, hok⟩
  dsimp only at hok
  split at hok
  case h_1 => cases hok
  case h_2 =>
    cases hok
    exact h.stamped hc hfind

omit [Scalar S] in
/-- A refused request changes nothing. -/
theorem orSame {E : Type} (h : s.Fitting heard) {result : Except E (Session S T)}
    (hresult : ∀ after, result = .ok after → after.Fitting heard) :
    (s.orSame result).Fitting heard := by
  cases result with
  | error e => exact h
  | ok after => exact hresult after rfl

/-! ## Results -/

variable [Scalar T] [Timeline S T]

/-- A pull gives proxies what they can hold. -/
theorem pull (h : s.Fitting heard) : s.pull.2.Fitting heard := by
  rcases h.playback.receive h.outbox with ⟨hreceived, hleft⟩
  -- what is reported has come from what was there, with a result that fits
  have hall : ∀ pulled : Pulled S T, Reported s.registry heard pulled →
      pulled.playback.Sourced heard → Fitting { s with
        engine := { s.engine with outbox := (s.playback.receive s.engine.outbox).2 }
        playback := pulled.playback
        registry := pulled.registry.collectGarbage
          (Playback.consumed (s.playback.receive s.engine.outbox).2) } heard := by
    intro pulled hreported hsourced
    have hfollows : ∀ id p, pulled.registry.get? id = some p →
        ∃ q, s.registry.get? id = some q ∧ p.Follows q := by
      intro id p hp
      by_cases hmem : id ∈ pulled.reported.map (·.id)
      · rcases List.mem_map.mp hmem with ⟨q, hq, rfl⟩
        rcases hreported.drawn q hq with ⟨hget, old, data, hold, _, hdrawn, rfl⟩
        rw [hget] at hp
        cases hp
        refine ⟨old, hold, Proxy.follows_write fun howns => ?_⟩
        rw [Proxy.id_write] at hold
        have hfresh : ∀ {data : ResultData S}, Fresh heard old data →
            data.Fits old.particles.size := by
          rintro data ⟨a, ha, hsync, hdata⟩
          exact h.fits a ha old.id old (Registry.id_of_get? hold ▸ hold) howns hsync data hdata
        cases hdrawn with
        | result hdata => exact hfresh hdata
        | between alpha _ hlater => exact (hfresh hlater).lerp alpha
        | onward alpha hlater => exact (hfresh hlater).lerp alpha
      · rw [hreported.unchanged id hmem] at hp
        exact ⟨p, hp, .refl p⟩
    constructor
    case views =>
      intro id p hp
      rcases hfollows id p (Registry.get?_of_get?_collectGarbage hp) with ⟨q, hq, hpq⟩
      exact hpq.fitted (h.views id q hq)
    case playback => exact hsourced
    case outbox => exact hleft
    case reached => exact h.reached
    case fits =>
      intro a ha id p hp howns hsync data hdata
      rcases hfollows id p (Registry.get?_of_get?_collectGarbage hp) with ⟨q, hq, hpq⟩
      rw [hpq.particles]
      exact h.fits a ha id q hq (hpq.kind ▸ howns) (le_trans hpq.sync hsync) data hdata
  unfold Session.pull
  dsimp only
  split
  · rcases hreceived.pullAt s.resultsTime s.registry with ⟨hreported, hsourced⟩
    exact hall _ hreported hsourced
  · rcases hreceived.pullLatest s.registry with ⟨hreported, hsourced⟩
    exact hall _ hreported hsourced

/-! ## Steps -/

/-- A step answers with as many particles as each proxy has. -/
theorem stepped [LawfulZero S] (h : s.Fitting heard) (hc : s.Consistent since)
    {after : Session S T} {q : PushSnapshot S T} {rest : List (PushSnapshot S T)}
    {before : World S} (hs : Stepped s after q rest before) : ∃ heard, after.Fitting heard := by
  rcases hc.roster_stepped hs with ⟨_, _, _, hbefore⟩
  have hlatest : after.engine.world.latest = q.timestamp := by
    rw [hs.world]
    rfl
  have hlt : s.engine.world.latest < q.timestamp := by
    have hchained := hc.agreed.chained
    rw [hs.queue] at hchained
    exact (hchained.bounds List.mem_cons_self).1
  refine ⟨heard ++ [before.answer q (s.engine.world.droppedOf q.deltas)], ?_⟩
  constructor
  case views =>
    rw [hs.registry]
    exact h.views
  case playback =>
    rw [hs.playback]
    exact h.playback.mono fun a ha => List.mem_append_left _ ha
  case outbox =>
    rw [hs.outbox]
    intro a ha
    rcases List.mem_append.mp ha with ha | ha
    · exact List.mem_append_left _ (h.outbox a ha)
    · exact List.mem_append_right _ ha
  case reached =>
    rw [hlatest]
    intro a ha
    rcases List.mem_append.mp ha with ha | ha
    · exact le_trans (h.reached a ha) hlt.le
    · rw [List.mem_singleton.mp ha]
      exact le_refl _
  case fits =>
    rw [hs.registry]
    intro a ha id p hp howns hsync data hdata
    rcases List.mem_append.mp ha with ha | ha
    · exact h.fits a ha id p hp howns hsync data hdata
    · rw [List.mem_singleton.mp ha] at hdata
      refine World.fits_of_mem_results hdata ?_
      -- the world holds the particles that the registry lists
      intro handles hhandles
      rw [(World.known_advanced before q.dt).1, hbefore.members,
        Option.bind_eq_some_iff] at hhandles
      rcases hhandles with ⟨x, hx, hmembers⟩
      rcases Registry.roster_eq_some.mp hx with ⟨p', hp', _, _, hheld⟩
      rw [hp] at hp'
      cases hp'
      rcases p.members_of_held hheld with ⟨_, hlisted, _⟩ | ⟨hno, _⟩
      · rw [hmembers] at hlisted
        cases hlisted
        exact Array.length_toList
      · rw [howns] at hno
        cases hno

end Fitting

/-- A consistent session in which all views fit. -/
def Intact (s : Session S T) (since : ProxyId → Timestamp) : Prop :=
  s.Consistent since ∧ ∃ heard, s.Fitting heard

theorem intact_start [Scalar T] (config : Config S) (since : ProxyId → Timestamp) :
    (start config : Session S T).Intact since :=
  ⟨consistent_start config since, [], fitting_start config⟩

namespace Intact

variable [Scalar T] [Timeline S T] {s : Session S T} {since : ProxyId → Timestamp}

/-- Steps keep the views fitting. -/
theorem stepsKeep [LawfulZero S] :
    StepsKeep Overflow fun after : Session S T => after.Intact since where
  step := by
    rintro s ⟨hc, heard, h⟩
    refine (ends_overflow hc.runStep_cases).weaken ?_
    rintro after (rfl | ⟨q, rest, before, hs⟩)
    · exact ⟨hc, heard, h⟩
    · exact ⟨hc.stepped hs, h.stepped hc hs⟩
  flight := by
    rintro s inFlight ⟨hc, heard, h⟩
    exact ⟨hc.congr rfl rfl rfl rfl rfl rfl, heard, h.congr rfl rfl rfl rfl⟩

theorem seals [LawfulZero S] (h : s.Intact since) :
    StepsKeep.Seals s Overflow fun after => after.Intact since := by
  rcases h with ⟨hc, heard, h⟩
  intro dt steps
  refine (hc.seals dt steps).weaken ?_
  rintro ⟨sent, outbox, inbox⟩ ⟨hsent, hsealed⟩
  refine ⟨hsent, fun clock externalTime => ⟨(hsealed clock externalTime).1, heard, ?_⟩⟩
  exact h.congr rfl rfl rfl rfl

theorem setConfig [LawfulZero S] (h : s.Intact since) (config : Config S) :
    Ends (s.setConfig config) Overflow fun result => ∀ after, result = .ok after →
      ∃ heard, after.Fitting heard := by
  unfold Session.setConfig
  split
  case h_1 =>
    refine .ok ?_
    intro after hafter
    cases hafter
  case h_2 =>
    have hconfigured : Intact { s with config } since := by
      rcases h with ⟨hc, heard, h⟩
      exact ⟨hc.congr rfl rfl rfl rfl rfl rfl, heard, h.congr rfl rfl rfl rfl⟩
    refine (stepsKeep.waitForPending hconfigured).bind ?_
    rintro waited ⟨_, heard, hwaited⟩
    refine .pure ?_
    rintro after ⟨⟩
    exact ⟨heard, hwaited.congr rfl rfl rfl rfl⟩

/-- Every event leaves views that fit. -/
theorem fits [LawfulZero S] (h : s.Intact since) (event : Event S) :
    Ends (s.perform event) Overflow fun after => ∃ heard, after.Fitting heard := by
  have hintact := h
  rcases h with ⟨hc, heard, h⟩
  cases event with
  | register owner blueprint =>
    refine .ok ⟨heard, h.orSame ?_⟩
    intro after hok
    rcases hregister : s.register owner blueprint with _ | ⟨id, registered⟩
    · rw [hregister] at hok
      cases hok
    · rw [hregister] at hok
      cases hok
      exact h.register hc hregister
  | unregister id => exact .ok ⟨heard, h.orSame fun _ => h.unregister hc⟩
  | unregisterOwner owner => exact .ok ⟨heard, h.orSame fun _ => h.unregisterOwner hc⟩
  | setPosition id index position =>
    refine .ok ⟨heard, h.orSame fun _ => h.writeParticle hc ?_⟩
    exact fun v => ⟨Array.size_setIfInBounds, rfl⟩
  | setVelocity id index velocity =>
    refine .ok ⟨heard, h.orSame fun _ => h.writeParticle hc ?_⟩
    exact fun v => ⟨rfl, Array.size_setIfInBounds⟩
  | setKinematicTarget id index target =>
    exact .ok ⟨heard, h.orSame fun _ => h.writeParticle hc fun _ => ⟨rfl, rfl⟩⟩
  | addForce id index force =>
    exact .ok ⟨heard, h.orSame fun _ => h.writeParticle hc fun _ => ⟨rfl, rfl⟩⟩
  | setInverseMass id index inverseMass =>
    exact .ok ⟨heard, h.orSame fun _ => h.writeParticle hc fun _ => ⟨rfl, rfl⟩⟩
  | setTetherStiffness id stiffness =>
    exact .ok ⟨heard, h.orSame fun _ => h.setTetherStiffness hc⟩
  | setSuspensionTarget id target => exact .ok ⟨heard, h.orSame fun _ => h.writeConstraint hc⟩
  | setJointRestLength id restLength => exact .ok ⟨heard, h.orSame fun _ => h.writeConstraint hc⟩
  | setPaused paused => exact .ok ⟨heard, h.congr rfl rfl rfl rfl⟩
  | setConfig config =>
    refine Ends.map ((hintact.setConfig config).weaken ?_)
    intro result hresult
    cases result with
    | error e => exact ⟨heard, h⟩
    | ok after => exact hresult after rfl
  | installHook hook =>
    refine (stepsKeep.waitForPending hintact).bind ?_
    rintro waited ⟨_, heard, hwaited⟩
    exact .pure ⟨heard, hwaited.congr rfl rfl rfl rfl⟩
  | takeJournal =>
    refine Ends.map ((stepsKeep.waitForPending hintact).bind ?_)
    rintro waited ⟨_, heard, hwaited⟩
    exact .pure ⟨heard, hwaited.congr rfl rfl rfl rfl⟩
  | waitForPending => exact (stepsKeep.waitForPending hintact).weaken fun _ hafter => hafter.2
  | advance dt =>
    exact Ends.map ((stepsKeep.advance hintact.seals dt).weaken fun _ hafter => hafter.2)
  | pull => exact .ok ⟨heard, h.pull⟩
  | tick => exact (stepsKeep.tick hintact).weaken fun _ hafter => hafter.2
  | handOver dt =>
    exact Ends.map ((stepsKeep.handOver hintact.seals dt).weaken fun _ hafter => hafter.2)
  | step => exact (stepsKeep.step s hintact).weaken fun _ hafter => hafter.2

/-- Every event leaves an intact session. -/
theorem perform [LawfulZero S] (h : s.Intact since) (event : Event S) :
    Ends (s.perform event) Overflow fun after =>
      after.Intact (Tracked.noticed since s.registry after.registry s.producerTimestamp) :=
  (h.1.perform event).and (h.fits event)

end Intact

end Session

end TetheredParticles
