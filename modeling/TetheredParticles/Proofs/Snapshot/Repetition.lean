import TetheredParticles.Proofs.Snapshot.Delivery
/-!
# Pulling twice at one time

Nothing arrives between two pulls at the same time, so the window stands still and the second pull
writes what the first one has written. The exception are proxies that have no previous result to
start from: they start from where they are, and each pull takes them further on their way.

* `Channel.Flowing`, `Viewer.Reached` — what can happen to the results before, the loss of their
  sender included.
* `Playback.Onward`, `Proxy.stride` — proxies that start from where they are, and how they go on.
* `Viewer.Departs`, `Viewer.Repeats`, `Viewer.pullAt_repeats` — which proxies the second pull moves,
  and what it does.
-/

namespace TetheredParticles

variable {S T : Type}

/-! ## The channel -/

namespace Channel

variable {α : Type} [Stamped α] {c : Channel α}

/-- Numbers ascend from the last one that was received over those that wait to the last one that
was sent. -/
structure Flowing (c : Channel α) : Prop extends c.Ascending where
  sent : ∀ a ∈ c.queue, ∃ l ∈ c.lastSent, Stamped.timestamp a ≤ l
  passed : ∀ r ∈ c.lastReceived, ∃ l ∈ c.lastSent, r ≤ l

theorem flowing_empty : (empty : Channel α).Flowing := by
  refine ⟨⟨.nil, ?_⟩, ?_, ?_⟩
  · rintro l ⟨⟩
  · intro a ha
    cases ha
  · rintro r ⟨⟩

/-- What a drain leaves of a channel, whether there is a sender or not. -/
theorem Ascending.drain_snd (h : c.Ascending) : c.drain.2 = { c with
    queue := []
    lastReceived := (c.queue.getLast?.map Stamped.timestamp).or c.lastReceived } := by
  unfold drain
  rw [h.collect [] (Nat.lt_succ_self _)]

namespace Flowing

/-- What is sent follows everything before it. -/
theorem send (h : c.Flowing) {a : α} {after : Channel α} (hsend : c.send a = .ok after) :
    after.Flowing := by
  rcases send_eq_ok.mp hsend with ⟨_, hfollows, rfl⟩
  -- no number so far exceeds the last one that was sent, and the new one does
  have hqueue : ∀ b ∈ c.queue, Stamped.timestamp b < Stamped.timestamp a := by
    intro b hb
    rcases h.sent b hb with ⟨l, hl, hle⟩
    exact lt_of_le_of_lt hle (hfollows l hl)
  have hpassed : ∀ r ∈ c.lastReceived, r < Stamped.timestamp a := by
    intro r hr
    rcases h.passed r hr with ⟨l, hl, hle⟩
    exact lt_of_le_of_lt hle (hfollows l hl)
  refine ⟨⟨?_, ?_⟩, ?_, fun r hr => ⟨_, rfl, (hpassed r hr).le⟩⟩
  · refine List.pairwise_append.mpr ⟨h.queue, List.pairwise_singleton _ _, ?_⟩
    intro b hb d hd
    rw [List.mem_singleton.mp hd]
    exact hqueue b hb
  · intro r hr b hb
    rcases List.mem_append.mp hb with hb | hb
    · exact h.received r hr b hb
    · rw [List.mem_singleton.mp hb]
      exact hpassed r hr
  · intro b hb
    refine ⟨_, rfl, ?_⟩
    rcases List.mem_append.mp hb with hb | hb
    · exact (hqueue b hb).le
    · rw [List.mem_singleton.mp hb]

/-- A drain receives everything that waits. -/
theorem drain (h : c.Flowing) : c.drain.2.Flowing := by
  rw [h.drain_snd]
  refine ⟨⟨.nil, fun _ _ a ha => absurd ha List.not_mem_nil⟩,
    fun a ha => absurd ha List.not_mem_nil, ?_⟩
  intro r hr
  dsimp only at hr
  cases hlast : c.queue.getLast? with
  | none =>
    rw [hlast] at hr
    exact h.passed r hr
  | some a =>
    rw [hlast] at hr
    cases hr
    exact h.sent a (List.mem_of_getLast? hlast)

theorem dropSender (h : c.Flowing) : c.dropSender.Flowing :=
  ⟨⟨h.queue, h.received⟩, h.sent, h.passed⟩

end Flowing

end Channel

namespace Playback

theorem snd_receive (p : Playback S T) (channel : Channel (PullSnapshot S T)) :
    (p.receive channel).2 = channel.drain.2 := by
  unfold receive
  split
  case h_1 hdrain => rw [hdrain]
  case h_2 hdrain => rw [hdrain]

/-- Nothing is received from an empty channel. -/
theorem receive_of_nil (p : Playback S T) {channel : Channel (PullSnapshot S T)}
    (h : channel.queue = []) : (p.receive channel).1 = p := by
  have hdrain : channel.drain =
      (if channel.hasSender then .ok [] else .error .disconnected, channel) := by
    unfold Channel.drain
    rw [Channel.collect_succ, Channel.look_of_nil h]
    simp
  unfold receive
  rw [hdrain]
  cases channel.hasSender with
  | true => simp
  | false => rfl

end Playback

/-! ## The window -/

/-- If every proxy that a rule finds a result for is listed, the live ones among them are
reported. -/
theorem Registry.mem_reported_writeResults (rule : Proxy S → Option (ResultData S))
    {ids : List ProxyId} (hnodup : ids.Nodup) (r : Registry S)
    (hall : ∀ p data, rule p = some data → p.id ∈ ids) (id : ProxyId) :
    id ∈ (r.writeResults rule ids).1.map (·.id) ↔
      ∃ p data, r.get? id = some p ∧ p.isPending = false ∧ rule p = some data := by
  rw [(writeResults_spec rule hnodup r).1, List.mem_map]
  constructor
  · rintro ⟨reported, hreported, rfl⟩
    rcases List.mem_filterMap.mp hreported with ⟨id, _, hresult⟩
    rw [id_of_resulting hresult]
    unfold resulting at hresult
    rcases Option.bind_eq_some_iff.mp hresult with ⟨p, hp, hresult⟩
    rcases Option.map_eq_some_iff.mp hresult with ⟨data, hdata, _⟩
    rcases Option.filter_eq_some_iff.mp hp with ⟨hp, hlive⟩
    exact ⟨p, data, hp, by simpa using hlive, hdata⟩
  · rintro ⟨p, data, hp, hlive, hdata⟩
    have hid := id_of_get? hp
    refine ⟨p.write data, List.mem_filterMap.mpr ⟨id, hid ▸ hall p data hdata, ?_⟩, ?_⟩
    · unfold resulting
      simp [hp, hlive, hdata, Option.filter]
    · rw [Proxy.id_write, hid]

section

variable [Scalar S]

/-- Further on the way to a result: a fraction of what is left of it. -/
def Proxy.stride (p : Proxy S) (alpha : S) (later : ResultData S) : Proxy S :=
  p.write (p.currentData.lerp later alpha)

omit [Scalar S] in
theorem Proxy.frame_write (data : ResultData S) (p : Proxy S) :
    (p.write data).syncTimestamp = p.syncTimestamp ∧ (p.write data).isPending = p.isPending := by
  cases data with
  | particles positions velocities => exact ⟨rfl, rfl⟩
  | constraint force => exact ⟨rfl, rfl⟩

namespace Playback

/-- A proxy has nothing to start from but where it is: the window ends with a result for its
particles that has seen the latest write to it, and no previous result has seen that write. -/
structure Onward (p : Playback S T) (proxy : Proxy S) (s : PullSnapshot S T)
    (later : ResultData S) : Prop where
  next : p.next = some s
  result : s.result? proxy.id = some later
  particles : ∀ force, later ≠ .constraint force
  seen : proxy.syncTimestamp ≤ s.timestamp
  alone : ∀ t data, p.previous[proxy.id]? = some (t, data) → t < proxy.syncTimestamp

variable {p : Playback S T} {proxy q : Proxy S} {s : PullSnapshot S T} {later : ResultData S}

omit [Scalar S] in
/-- What the end of the window has for a proxy. -/
theorem getElem?_merge_empty (s : PullSnapshot S T) (id : ProxyId) :
    (ResultMap.merge ∅ s)[id]? = (s.result? id).map fun data => (s.timestamp, data) := by
  rw [ResultMap.getElem?_merge_eq, Std.TreeMap.getElem?_emptyc, Option.or_none]

omit [Scalar S] in
/-- No previous result is of use exactly if none has seen the latest write. -/
theorem filter_previous_eq_none :
    (p.previous[proxy.id]?.filter fun (timestamp, _) => proxy.syncTimestamp ≤ timestamp) = none ↔
      ∀ t data, p.previous[proxy.id]? = some (t, data) → t < proxy.syncTimestamp := by
  cases p.previous[proxy.id]? with
  | none => simp
  | some result =>
    rcases result with ⟨t, data⟩
    rw [Option.filter_eq_none_iff]
    simp [Timestamp.not_le]

variable [Scalar T] [Timeline S T]

/-- What the window has for a proxy as of a time. -/
def found? (p : Playback S T) (time : T) (proxy : Proxy S) : Option (ResultData S) :=
  p.next.bind fun s => blend (fraction time s) p.previous s (ResultMap.merge ∅ s) proxy

/-- What the window has for a proxy depends on its own previous result only. -/
theorem found?_congr {time : T} {after : Playback S T} (hnext : after.next = p.next)
    (hprevious : after.previous[proxy.id]? = p.previous[proxy.id]?) :
    after.found? time proxy = p.found? time proxy := by
  unfold found?
  rw [hnext]
  exact congrArg _ (funext fun s => blend_congr hprevious)

/-- A proxy that starts from where it is goes on from there. -/
theorem Onward.found? (h : p.Onward proxy s later) (time : T) :
    p.found? time proxy = some (proxy.currentData.lerp later (fraction time s)) := by
  have hseen : ¬ s.timestamp < proxy.syncTimestamp := Nat.not_lt.mpr h.seen
  unfold Playback.found? blend
  rw [h.next, Option.bind_some, getElem?_merge_empty, h.result,
    filter_previous_eq_none.mpr h.alone]
  dsimp only [Option.map_some]
  rw [if_neg hseen]
  cases later with
  | particles positions velocities => rfl
  | constraint force => exact absurd rfl (h.particles force)

/-- What the window has for any other proxy does not depend on where the proxy is. -/
theorem found?_settled (time : T) (h : ∀ s later, ¬ p.Onward proxy s later)
    (hid : q.id = proxy.id) (hsync : q.syncTimestamp = proxy.syncTimestamp) :
    p.found? time q = p.found? time proxy := by
  unfold found?
  cases hnext : p.next with
  | none => rfl
  | some s =>
    unfold blend
    rw [Option.bind_some, Option.bind_some, hid, hsync, getElem?_merge_empty]
    cases hresult : s.result? proxy.id with
    | none => rfl
    | some later =>
      dsimp only [Option.map_some]
      split
      case isTrue => rfl
      case isFalse hseen =>
        cases later with
        | constraint force => rfl
        | particles positions velocities =>
          cases hbefore : p.previous[proxy.id]?.filter
              fun (timestamp, _) => proxy.syncTimestamp ≤ timestamp with
          | some earlier => rfl
          | none =>
            -- nothing to start from, although there is a result to go to
            refine absurd ⟨hnext, hresult, ?_, ?_, filter_previous_eq_none.mp hbefore⟩
              (h s (.particles positions velocities))
            · rintro force ⟨⟩
            · exact Nat.not_lt.mp hseen

omit [Scalar S] [Scalar T] [Timeline S T] in
theorem Onward.congr (h : p.Onward proxy s later) (hid : q.id = proxy.id)
    (hsync : q.syncTimestamp = proxy.syncTimestamp) : p.Onward q s later where
  next := h.next
  result := hid ▸ h.result
  particles := h.particles
  seen := hsync ▸ h.seen
  alone := by
    rw [hid, hsync]
    exact h.alone

/-- Whether the window has something for a proxy does not depend on where the proxy is. -/
theorem isSome_found?_congr (time : T) (hid : q.id = proxy.id)
    (hsync : q.syncTimestamp = proxy.syncTimestamp) :
    (p.found? time q).isSome = (p.found? time proxy).isSome := by
  by_cases h : ∃ s later, p.Onward proxy s later
  · -- what is found differs with the place, but something is found
    rcases h with ⟨s, later, h⟩
    rw [h.found?, (h.congr hid hsync).found?]
    rfl
  · rw [found?_settled time (fun s later hon => h ⟨s, later, hon⟩) hid hsync]

/-- Where a pull as of a time puts a proxy. -/
def placed (p : Playback S T) (time : T) (proxy : Proxy S) : Proxy S :=
  if proxy.isPending then proxy else (p.found? time proxy).elim proxy proxy.write

theorem placed_of_live (p : Playback S T) (time : T) (h : proxy.isPending = false) :
    p.placed time proxy = (p.found? time proxy).elim proxy proxy.write := by
  unfold placed
  rw [h]
  rfl

theorem frame_placed (p : Playback S T) (time : T) (proxy : Proxy S) :
    (p.placed time proxy).id = proxy.id ∧
      (p.placed time proxy).syncTimestamp = proxy.syncTimestamp ∧
      (p.placed time proxy).isPending = proxy.isPending := by
  unfold placed
  split
  · exact ⟨rfl, rfl, rfl⟩
  · cases p.found? time proxy with
    | none => exact ⟨rfl, rfl, rfl⟩
    | some data => exact ⟨Proxy.id_write data proxy, Proxy.frame_write data proxy⟩

/-- A proxy that starts from where it is makes a stride. -/
theorem Onward.placed (h : p.Onward proxy s later) (hlive : proxy.isPending = false) (time : T) :
    p.placed time proxy = proxy.stride (fraction time s) later := by
  rw [placed_of_live p time hlive, h.found?]
  rfl

/-- Any other proxy is where it was put. -/
theorem placed_placed (time : T)
    (h : proxy.isPending = false → ∀ s later, ¬ p.Onward proxy s later) :
    p.placed time (p.placed time proxy) = p.placed time proxy := by
  have hframe := p.frame_placed time proxy
  cases hlive : proxy.isPending with
  | true =>
    have hstay : p.placed time proxy = proxy := by
      unfold placed
      rw [hlive]
      rfl
    rw [hstay, hstay]
  | false =>
    have hfound := found?_settled time (h hlive) hframe.1 hframe.2.1
    rw [placed_of_live p time (hframe.2.2.trans hlive), hfound, placed_of_live p time hlive]
    cases p.found? time proxy with
    | none => rfl
    | some data => exact Proxy.write_write data proxy

omit [Scalar S] [Timeline S T] in
/-- A window that has been moved to a time stays where it is. -/
theorem advanceWindow_again (time : T) (previous before : ResultMap S)
    (next : Option (PullSnapshot S T)) (pending : List (PullSnapshot S T)) :
    let window := advanceWindow time previous next pending
    advanceWindow time before window.2.2 window.1 = (window.1, before, window.2.2) := by
  intro window
  rcases advanceWindow_spec time previous next pending with ⟨_, _, _, _, hstop⟩
  rcases hstop with hpending | ⟨s, hnext, hends⟩
  · rw [show window.1 = [] from hpending]
    rfl
  · rw [show window.2.2 = some s from hnext]
    cases window.1 with
    | nil => rfl
    | cons waiting rest =>
      rw [advanceWindow, if_neg hends]

/-- A pull at a time puts every proxy in its place. -/
theorem get?_pullAt_placed (p : Playback S T) (time : T) (registry : Registry S) (id : ProxyId) :
    (p.pullAt time registry).registry.get? id =
      (registry.get? id).map ((p.pullAt time registry).playback.placed time) := by
  rw [get?_pullAt]
  refine congrArg (Option.map · _) (funext fun proxy => if_congr Iff.rfl rfl ?_)
  unfold found?
  cases (p.pullAt time registry).playback.next with
  | none => rfl
  | some s => rfl

/-- A pull at a time reports the live proxies that the window has something for. -/
theorem mem_reported_pullAt (p : Playback S T) (time : T) (registry : Registry S) (id : ProxyId) :
    id ∈ (p.pullAt time registry).reported.map (·.id) ↔
      ∃ proxy, registry.get? id = some proxy ∧ proxy.isPending = false ∧
        ((p.pullAt time registry).playback.found? time proxy).isSome = true := by
  rw [playback_pullAt]
  unfold pullAt found?
  dsimp only
  unfold known
  split
  case h_1 hnext =>
    rw [hnext]
    simp
  case h_2 snapshot hnext =>
    rw [hnext, Registry.mem_reported_writeResults _
      (nodup_of_ordered Std.TreeSet.ordered_toList : (mentioned _ _).Nodup) registry
      fun _ _ => mem_mentioned_of_blend]
    simp [Option.isSome_iff_exists]

/-- A second pull at a time only forgets about proxies that are not registered any more. -/
theorem playback_pullAt_again (p : Playback S T) (time : T) (registry after : Registry S) :
    let q := (p.pullAt time registry).playback
    (q.pullAt time after).playback = { q with previous := q.known after } := by
  intro q
  have hwindow := advanceWindow_again time (p.known registry) (q.known after) p.next p.pending
  have hq : q = _ := playback_pullAt p time registry
  rw [playback_pullAt]
  dsimp only at hq ⊢
  rw [hq] at hwindow ⊢
  rw [hwindow]

end Playback

end

namespace Viewer

variable [Scalar S] [Scalar T] [Timeline S T]

/-- The viewers that can be met: anything may have happened, and the sender may have been dropped at
any time. -/
inductive Reached : Viewer S T → Prop where
  | start : Reached start
  | perform {v : Viewer S T} (h : Reached v) (event : Event S T) : Reached (v.perform event)
  /-- The sender of the results is gone. -/
  | close {v : Viewer S T} (h : Reached v) : Reached { v with channel := v.channel.dropSender }

theorem Reached.run (events : List (Event S T)) : (run events).Reached := by
  induction events using List.reverseRecOn with
  | nil => exact .start
  | append_singleton events event ih =>
    rw [run_concat]
    exact ih.perform event

theorem Reached.informed {v : Viewer S T} (h : v.Reached) : v.Informed := by
  induction h with
  | start => exact informed_start
  | perform _ event ih => exact ih.perform event
  | close _ ih => exact ⟨ih.playback, ih.queue, ih.sent, ih.ascending⟩

/-- The numbers of results ascend in every viewer that can be met. -/
theorem Reached.flowing {v : Viewer S T} (h : v.Reached) : v.channel.Flowing := by
  induction h with
  | start => exact Channel.flowing_empty
  | close _ ih => exact ih.dropSender
  | @perform v _ event ih =>
    have hpull : (v.playback.receive v.channel).2.Flowing := by
      rw [Playback.snd_receive]
      exact ih.drain
    cases event with
    | call call => exact ih
    | pullLatest => exact hpull
    | pullAt time => exact hpull
    | arrive snapshot =>
      unfold Viewer.perform
      dsimp only
      split
      case h_1 channel hsend => exact ih.send hsend
      case h_2 => exact ih

/-! ## Pulling again -/

variable {v : Viewer S T}

/-- Nothing is received by the second pull. -/
theorem Reached.receive_again (h : v.Reached) (time : T) :
    ((v.pull (some time)).playback.receive (v.pull (some time)).channel).1 =
      (v.pull (some time)).playback := by
  refine Playback.receive_of_nil _ ?_
  change (v.playback.receive v.channel).2.queue = []
  rw [Playback.snd_receive, h.flowing.drain_snd]

theorem get?_pull (v : Viewer S T) (time : T) (id : ProxyId) :
    (v.pull (some time)).registry.get? id =
      (v.registry.get? id).map ((v.pull (some time)).playback.placed time) :=
  Playback.get?_pullAt_placed _ time v.registry id

theorem mem_reported_pull (v : Viewer S T) (time : T) (id : ProxyId) :
    id ∈ (v.pulled (some time)).reported.map (·.id) ↔
      ∃ proxy, v.registry.get? id = some proxy ∧ proxy.isPending = false ∧
        ((v.pull (some time)).playback.found? time proxy).isSome = true :=
  Playback.mem_reported_pullAt _ time v.registry id

/-- The window stands still, and has for every registered proxy what it had. -/
theorem Reached.found?_again (h : v.Reached) (time : T) {id : ProxyId} {proxy : Proxy S}
    (hproxy : (v.pull (some time)).registry.get? id = some proxy) :
    ((v.pull (some time)).pull (some time)).playback.found? time proxy =
      (v.pull (some time)).playback.found? time proxy := by
  have hsecond : ((v.pull (some time)).pull (some time)).playback =
      { (v.pull (some time)).playback with
        previous := (v.pull (some time)).playback.known (v.pull (some time)).registry } := by
    change (((v.pull (some time)).playback.receive (v.pull (some time)).channel).1.pullAt time
      (v.pull (some time)).registry).playback = _
    rw [h.receive_again]
    exact Playback.playback_pullAt_again _ time v.registry (v.pull (some time)).registry
  rw [hsecond]
  refine Playback.found?_congr rfl ?_
  rw [Playback.getElem?_known, if_pos]
  rw [Registry.id_of_get? hproxy, hproxy]
  rfl

/-- The second pull finds something for the same proxies as the first one. -/
theorem Reached.mem_reported_again (h : v.Reached) (time : T) (id : ProxyId) :
    id ∈ ((v.pull (some time)).pulled (some time)).reported.map (·.id) ↔
      id ∈ (v.pulled (some time)).reported.map (·.id) := by
  have hget := v.get?_pull time id
  rw [mem_reported_pull, mem_reported_pull]
  cases hproxy : v.registry.get? id with
  | none =>
    rw [hproxy, Option.map_none] at hget
    simp [hget]
  | some proxy =>
    rw [hproxy, Option.map_some] at hget
    rcases (v.pull (some time)).playback.frame_placed time proxy with ⟨hid, hsync, hpending⟩
    have hfound := Playback.isSome_found?_congr (p := (v.pull (some time)).playback) time hid hsync
    rw [← h.found?_again time hget] at hfound
    simp [hget, hpending, hfound]

/-- The second pull puts every proxy in its place once more. -/
theorem Reached.get?_again (h : v.Reached) (time : T) (id : ProxyId) :
    ((v.pull (some time)).pull (some time)).registry.get? id =
      ((v.pull (some time)).registry.get? id).map ((v.pull (some time)).playback.placed time) := by
  rw [get?_pull]
  cases hproxy : (v.pull (some time)).registry.get? id with
  | none => rfl
  | some proxy =>
    unfold Playback.placed
    rw [Option.map_some, Option.map_some, h.found?_again time hproxy]

/-- A live proxy that a pull at a time takes part of its way, with nothing to start from but where
it is. -/
structure Departs (v : Viewer S T) (time : T) (id : ProxyId) (proxy : Proxy S)
    (s : PullSnapshot S T) (later : ResultData S) : Prop where
  registered : v.registry.get? id = some proxy
  live : proxy.isPending = false
  onward : (v.pull (some time)).playback.Onward proxy s later

/-- What becomes of a pull that is made twice at one time. -/
structure Repeats (v : Viewer S T) (time : T) : Prop where
  /-- The same proxies are reported in the same order. -/
  reported : ((v.pull (some time)).pulled (some time)).reported.map (·.id) =
    (v.pulled (some time)).reported.map (·.id)
  /-- A proxy that starts from where it is gets as far as the time says, and with the second pull
  the same fraction of what is left further on. -/
  onward : ∀ id proxy s later, v.Departs time id proxy s later →
    (v.pull (some time)).registry.get? id =
        some (proxy.stride (Playback.fraction time s) later) ∧
      ((v.pull (some time)).pull (some time)).registry.get? id =
        some ((proxy.stride (Playback.fraction time s) later).stride
          (Playback.fraction time s) later)
  /-- Every other proxy stays where the first pull has put it. -/
  settled : ∀ id, (∀ proxy s later, ¬ v.Departs time id proxy s later) →
    ((v.pull (some time)).pull (some time)).registry.get? id =
      (v.pull (some time)).registry.get? id

/-- The same fraction of the way, and then of what is left of it. -/
theorem Departs.strides {time : T} {id : ProxyId} {proxy : Proxy S} {s : PullSnapshot S T}
    {later : ResultData S} (hd : v.Departs time id proxy s later) (h : v.Reached) :
    (v.pull (some time)).registry.get? id =
        some (proxy.stride (Playback.fraction time s) later) ∧
      ((v.pull (some time)).pull (some time)).registry.get? id =
        some ((proxy.stride (Playback.fraction time s) later).stride
          (Playback.fraction time s) later) := by
  have hstride := hd.onward.placed hd.live time
  have hfirst := v.get?_pull time id
  rw [hd.registered, Option.map_some, hstride] at hfirst
  refine ⟨hfirst, ?_⟩
  -- where the proxy is has no part in whether it starts from there
  rcases (v.pull (some time)).playback.frame_placed time proxy with ⟨hid, hsync, hpending⟩
  have hstrides := (hd.onward.congr hid hsync).placed (hpending.trans hd.live) time
  rw [hstride] at hstrides
  rw [h.get?_again, hfirst, Option.map_some, hstrides]

/-- A proxy that does not start from where it is has its place from the first pull. -/
theorem get?_again_of_not_departs (h : v.Reached) {time : T} {id : ProxyId}
    (hstays : ∀ proxy s later, ¬ v.Departs time id proxy s later) :
    ((v.pull (some time)).pull (some time)).registry.get? id =
      (v.pull (some time)).registry.get? id := by
  rw [h.get?_again, get?_pull]
  cases hproxy : v.registry.get? id with
  | none => rfl
  | some proxy =>
    rw [Option.map_some, Option.map_some]
    exact congrArg some (Playback.placed_placed time fun hlive s later hon =>
      hstays proxy s later ⟨hproxy, hlive, hon⟩)

/-- The second pull reports what the first one has reported. -/
theorem Reached.reported_again (h : v.Reached) (time : T) :
    ((v.pull (some time)).pulled (some time)).reported.map (·.id) =
      (v.pulled (some time)).reported.map (·.id) := by
  have hagain : (v.pull (some time)).Reached := h.perform (.pullAt time)
  have hfirst := (h.informed.reported (some time)).1.ascending
  have hsecond := (hagain.informed.reported (some time)).1.ascending
  exact eq_of_ordered hsecond hfirst (h.mem_reported_again time)

/-- Whatever has happened before, a second pull at the same time repeats the first one, but for
proxies that have nothing to start from but where they are. -/
theorem pullAt_repeats (h : v.Reached) (time : T) : v.Repeats time where
  reported := h.reported_again time
  onward _ _ _ _ hd := hd.strides h
  settled _ hstays := get?_again_of_not_departs h hstays

/-- A step moves a particle whose proxy has just been registered. -/
def departed : List (Event Float32 Float) :=
  [.call (.register ⟨1⟩ (.particle (.dynamic 0 1)) ⟨1⟩ 1),
    .arrive ⟨⟨1⟩, 0, 1, [⟨⟨0, 0⟩, .particles #[⟨4, 0, 0⟩] #[0]⟩], {}⟩]

/-- Two pulls half way through the step. -/
theorem departed_repeats : (run departed).Reached ∧ (run departed).Repeats 0.5 :=
  ⟨.run departed, pullAt_repeats (.run departed) 0.5⟩

/-- The first of the two pulls puts the particle half way, and the second one half of the rest
further. -/
theorem departed_moves : (run departed).Reached ∧
    ¬ ∀ id, (((run departed).pull (some 0.5)).pull (some 0.5)).registry.get? id =
      ((run departed).pull (some 0.5)).registry.get? id := by
  refine ⟨.run departed, fun hall => ?_⟩
  have hfirst : (((run departed).pull (some 0.5)).registry.get? ⟨0, 0⟩).map
      (fun p => p.state.positions.map (·.x)) = some #[2] := by decide +kernel
  have hsecond : ((((run departed).pull (some 0.5)).pull (some 0.5)).registry.get? ⟨0, 0⟩).map
      (fun p => p.state.positions.map (·.x)) = some #[3] := by decide +kernel
  rw [hall, hfirst] at hsecond
  exact absurd hsecond (by decide +kernel)

end Viewer

end TetheredParticles
