import TetheredParticles.Proofs.Snapshot.Latest
import TetheredParticles.Proofs.Snapshot.Traffic
import TetheredParticles.Proofs.Snapshot.Viewer
/-!
# The window over the answers

A pull at a time moves a window over the answers. Answers are taken from those that wait, the last
one taken ends the window, and the others are merged into one previous result per proxy. Times may
go back and forth; the window only moves forward, and no answer is passed over.

* `Playback.advanceWindow_spec` — how the window moves.
* `Viewer.Windowed` — the invariant; every answer that has arrived is in one place.
* `Viewer.WindowKept` — what pulls at times may rely on.
* `Viewer.window_kept` — they may do so after all runs.
-/

namespace TetheredParticles

variable {S T : Type}

/-! ## Moving the window -/

namespace Playback

variable [Scalar T]

/-- The snapshots that the window passes are merged, and those behind it keep waiting. It stops
where nothing waits or its last snapshot ends no earlier than the time. -/
theorem advanceWindow_spec (time : T) (previous : ResultMap S) (next : Option (PullSnapshot S T))
    (pending : List (PullSnapshot S T)) :
    ∃ passed, next.toList ++ pending =
        passed ++ (advanceWindow time previous next pending).2.2.toList ++
          (advanceWindow time previous next pending).1 ∧
      (advanceWindow time previous next pending).2.1 = passed.foldl ResultMap.merge previous ∧
      ((advanceWindow time previous next pending).2.2 = none → next = none ∧ passed = []) ∧
      ((advanceWindow time previous next pending).1 = [] ∨
        ∃ s ∈ (advanceWindow time previous next pending).2.2, ¬ s.endTime < time) := by
  induction pending generalizing previous next with
  | nil => exact ⟨[], rfl, rfl, fun h => ⟨h, rfl⟩, .inl rfl⟩
  | cons s rest ih =>
    cases next with
    | none =>
      -- the oldest snapshot becomes the end of the window, and none is passed
      rcases ih previous (some s) with ⟨passed, hsplit, hmerged, hnone, hstop⟩
      exact ⟨passed, hsplit, hmerged, fun h => absurd (hnone h).1 (Option.some_ne_none s), hstop⟩
    | some last =>
      unfold advanceWindow
      dsimp only
      split
      case isTrue =>
        rcases ih (previous.merge last) (some s) with ⟨passed, hsplit, hmerged, hnone, hstop⟩
        exact ⟨last :: passed, congrArg (last :: ·) hsplit, hmerged,
          fun h => absurd (hnone h).1 (Option.some_ne_none s), hstop⟩
      case isFalse hends =>
        exact ⟨[], rfl, rfl, fun h => absurd h (Option.some_ne_none last), .inr ⟨last, rfl, hends⟩⟩

/-- The previous results of proxies that are still registered. -/
def known (p : Playback S T) (registry : Registry S) : ResultMap S :=
  p.previous.filter fun id _ => (registry.get? id).isSome

omit [Scalar T] in
theorem getElem?_known (p : Playback S T) (registry : Registry S) (id : ProxyId) :
    (p.known registry)[id]? = if (registry.get? id).isSome then p.previous[id]? else none := by
  unfold known
  rw [Std.TreeMap.getElem?_filter']
  cases (registry.get? id).isSome with
  | true =>
    cases p.previous[id]? with
    | none => rfl
    | some result => rfl
  | false =>
    cases p.previous[id]? with
    | none => rfl
    | some result => rfl

/-- What a pull at a time leaves is what moving the window leaves. -/
theorem playback_pullAt [Scalar S] [Timeline S T] (p : Playback S T) (time : T)
    (registry : Registry S) :
    (p.pullAt time registry).playback =
      let window := advanceWindow time (p.known registry) p.next p.pending
      { p with pending := window.1, previous := window.2.1, next := window.2.2 } := by
  unfold pullAt known
  dsimp only
  split
  case h_1 hnext => rw [hnext]
  case h_2 snapshot hnext => rw [hnext]

omit [Scalar T] in
/-- A pull at a time looks at every proxy of either map. -/
theorem mem_mentioned {a b : ResultMap S} {id : ProxyId} :
    id ∈ mentioned a b ↔ a[id]?.isSome ∨ b[id]?.isSome := by
  unfold mentioned
  rw [Std.TreeSet.mem_toList, Maps.mem_foldl_insert, Maps.mem_foldl_insert, Std.TreeMap.mem_keys,
    Std.TreeMap.mem_keys, Std.TreeMap.mem_iff_isSome_getElem?, Std.TreeMap.mem_iff_isSome_getElem?]
  simp [or_comm]

section

variable [Scalar S] [Timeline S T] {alpha : S} {previous results : ResultMap S}
  {next : PullSnapshot S T} {proxy : Proxy S}

omit [Scalar T] [Timeline S T] in
/-- What a proxy becomes depends on its own previous result only. -/
theorem blend_congr {before : ResultMap S} (h : previous[proxy.id]? = before[proxy.id]?) :
    blend alpha previous next results proxy = blend alpha before next results proxy := by
  unfold blend
  rw [h]

omit [Scalar T] [Timeline S T] in
theorem mem_mentioned_of_blend {data : ResultData S}
    (h : blend alpha previous next results proxy = some data) :
    proxy.id ∈ mentioned previous results := by
  rw [mem_mentioned]
  unfold blend at h
  cases hresult : results[proxy.id]? with
  | some result => exact .inr rfl
  | none =>
    rw [hresult] at h
    rcases Option.map_eq_some_iff.mp h with ⟨before, hbefore, _⟩
    exact .inl (Option.isSome_of_eq_some (Option.filter_eq_some_iff.mp hbefore).1)

/-- A pull at a time puts every live proxy between its previous result and the window's end. -/
theorem get?_pullAt (p : Playback S T) (time : T) (registry : Registry S) (id : ProxyId) :
    (p.pullAt time registry).registry.get? id = (registry.get? id).map fun proxy =>
      if proxy.isPending then proxy
      else (p.pullAt time registry).playback.next.elim proxy fun s =>
        (blend (fraction time s) (p.pullAt time registry).playback.previous s
          (ResultMap.merge ∅ s) proxy).elim proxy fun data => proxy.write data := by
  rw [playback_pullAt]
  unfold pullAt
  dsimp only
  unfold known
  split
  case h_1 hnext =>
    rw [hnext]
    simp
  case h_2 snapshot hnext =>
    rw [hnext]
    exact Registry.get?_writeResults _ (nodup_of_ordered Std.TreeSet.ordered_toList) registry
      (fun _ _ => mem_mentioned_of_blend) id

end

end Playback

/-! ## The invariant -/

namespace Viewer

/-- Both halves of the channel exist, and whatever has arrived has been received, or is still in the
channel. -/
structure Attended (v : Viewer S T) (received : List (PullSnapshot S T)) : Prop where
  steady : Traffic.Steady { channel := v.channel, sent := v.heard, received }
  sender : v.channel.hasSender = true
  receiver : v.channel.hasReceiver = true

/-- The snapshots that have arrived and were used by no pull yet. -/
def waiting (v : Viewer S T) : List (PullSnapshot S T) := v.playback.pending ++ v.channel.queue

/-- Every snapshot that has arrived is in one place, in order: used up by a plain pull, merged into
the previous results, at the end of the window, or waiting. -/
structure Windowed (v : Viewer S T) (used : List (PullSnapshot S T)) (held : ProxyId → Prop)
    (older : List (PullSnapshot S T)) : Prop where
  attended : v.Attended (used ++ older ++ v.playback.next.toList ++ v.playback.pending)
  bottom : v.playback.next = none → older = []
  previous : ∀ id, held id → v.playback.previous[id]? = newest? older id

/-- The snapshots that are older than the end of the window. -/
def older (v : Viewer S T) : List (PullSnapshot S T) :=
  match v.playback.next with
  | none => []
  | some next => v.heard.filter fun s => s.timestamp < next.timestamp

variable {v : Viewer S T} {used received older : List (PullSnapshot S T)} {held : ProxyId → Prop}

theorem attended_start : (start : Viewer S T).Attended [] := ⟨Traffic.steady_start, rfl, rfl⟩

theorem windowed_start (held : ProxyId → Prop) : (start : Viewer S T).Windowed [] held [] :=
  ⟨attended_start, fun _ => rfl, fun _ _ => Std.TreeMap.getElem?_emptyc⟩

namespace Attended

theorem heard_eq (h : v.Attended received) : v.heard = received ++ v.channel.queue := by
  have hsent := h.steady.waiting h.receiver
  simpa using hsent

theorem ascending (h : v.Attended received) :
    v.heard.Pairwise fun a b => a.timestamp < b.timestamp := h.steady.ascending

/-- Pulls take everything out of the channel. -/
theorem receive (h : v.Attended received) :
    (v.playback.receive v.channel).1.pending = v.waiting ∧
      (v.playback.receive v.channel).1.previous = v.playback.previous ∧
      (v.playback.receive v.channel).1.next = v.playback.next ∧
      (v.playback.receive v.channel).2.queue = [] ∧
      ∀ registry playback, Attended ⟨registry, (v.playback.receive v.channel).2, playback, v.heard⟩
        (received ++ v.channel.queue) := by
  have hidle : Traffic.idle { channel := v.channel, sent := v.heard, received } = true := by
    unfold Traffic.idle
    rw [h.receiver]
    rfl
  rcases h.steady.drain hidle h.sender with ⟨channel, hall, hqueue, hsender, hreceiver, hsteady⟩
  unfold Playback.receive
  rw [show v.channel.drain = (.ok v.channel.queue, channel) from hall]
  exact ⟨rfl, rfl, rfl, hqueue, fun _ _ => ⟨hsteady, hsender, hreceiver⟩⟩

/-- A pull at a time moves the window over what waits. -/
theorem pullAt [Scalar S] [Scalar T] [Timeline S T] (h : v.Attended received) (time : T) :
    let after := v.pull (some time)
    ∃ passed, v.playback.next.toList ++ v.waiting =
        passed ++ after.playback.next.toList ++ after.playback.pending ∧
      after.playback.previous = passed.foldl ResultMap.merge (v.playback.known v.registry) ∧
      (after.playback.next = none → v.playback.next = none ∧ passed = []) ∧
      (after.playback.pending = [] ∨ ∃ s ∈ after.playback.next, ¬ s.endTime < time) ∧
      after.channel.queue = [] ∧ after.Attended (received ++ v.channel.queue) := by
  rcases h.receive with ⟨hpending, hprevious, hnext, hqueue, hattended⟩
  have hplayback : (v.pull (some time)).playback =
    ((v.playback.receive v.channel).1.pullAt time v.registry).playback := rfl
  have hknown : (v.playback.receive v.channel).1.known v.registry = v.playback.known v.registry :=
    congrArg (Std.TreeMap.filter _) hprevious
  rw [Playback.playback_pullAt, hpending, hnext, hknown] at hplayback
  intro after
  rcases Playback.advanceWindow_spec time (v.playback.known v.registry) v.playback.next v.waiting
    with ⟨passed, hsplit, hmerged, hbottom, hstop⟩
  rw [hplayback]
  exact ⟨passed, hsplit, hmerged, hbottom, hstop, hqueue, hattended _ _⟩

/-- An arrival is queued or refused. -/
theorem arrive [Scalar S] [Scalar T] [Timeline S T] (h : v.Attended received)
    (snapshot : PullSnapshot S T) : (v.perform (.arrive snapshot)).Attended received := by
  have hsteady := h.steady.send snapshot
  unfold Traffic.perform at hsteady
  dsimp only at hsteady
  rw [if_pos h.sender] at hsteady
  unfold perform
  dsimp only
  cases hsend : v.channel.send snapshot with
  | error e => exact h
  | ok channel =>
    rw [hsend] at hsteady
    rcases Channel.send_eq_ok.mp hsend with ⟨hreceiver, _, rfl⟩
    exact ⟨hsteady, h.sender, hreceiver⟩

end Attended

namespace Windowed

variable [Scalar S] [Scalar T] [Timeline S T]

omit [Scalar S] [Scalar T] [Timeline S T] in
theorem weaken (h : v.Windowed used held older) {held' : ProxyId → Prop}
    (hheld : ∀ id, held' id → held id) : v.Windowed used held' older :=
  ⟨h.attended, h.bottom, fun id hid => h.previous id (hheld id hid)⟩

/-- The registry has no part in it. -/
theorem call (h : v.Windowed used held older) (call : Registry.Call S) :
    (v.perform (.call call)).Windowed used held older :=
  ⟨⟨h.attended.steady, h.attended.sender, h.attended.receiver⟩, h.bottom, h.previous⟩

theorem arrive (h : v.Windowed used held older) (snapshot : PullSnapshot S T) :
    (v.perform (.arrive snapshot)).Windowed used held older := by
  have hattended := h.attended.arrive snapshot
  have hbottom := h.bottom
  have hprevious := h.previous
  unfold perform at hattended ⊢
  dsimp only at hattended ⊢
  split
  case h_1 channel hsend =>
    rw [hsend] at hattended
    exact ⟨hattended, hbottom, hprevious⟩
  case h_2 => exact h

/-- A plain pull uses everything up. -/
theorem pullLatest (h : v.Windowed used held older) :
    (v.pull none).Windowed v.heard held [] := by
  rcases h.attended.receive with ⟨_, _, _, _, hattended⟩
  refine ⟨?_, fun _ => rfl, fun _ _ => Std.TreeMap.getElem?_emptyc⟩
  have heq : v.heard ++ [] ++ (v.pull none).playback.next.toList ++
      (v.pull none).playback.pending =
        used ++ older ++ v.playback.next.toList ++ v.playback.pending ++ v.channel.queue := by
    rw [← h.attended.heard_eq]
    simp [pull, pulled, Playback.pullLatest]
  rw [heq]
  exact hattended _ _

omit [Scalar S] [Scalar T] [Timeline S T] in
/-- What has arrived, with the window further on. -/
theorem split_waiting {next : Option (PullSnapshot S T)} {passed pending : List (PullSnapshot S T)}
    (h : v.playback.next.toList ++ v.waiting = passed ++ next.toList ++ pending) :
    used ++ (older ++ passed) ++ next.toList ++ pending =
      used ++ older ++ v.playback.next.toList ++ v.playback.pending ++ v.channel.queue := by
  unfold waiting at h
  rw [List.append_assoc _ v.playback.pending, List.append_assoc _ v.playback.next.toList, h]
  simp only [List.append_assoc]

/-- A pull at a time moves the window, and nothing is left in the channel. -/
theorem pullAt (h : v.Windowed used held older) (time : T) {held' : ProxyId → Prop}
    (hheld : ∀ id, held' id → held id)
    (hregistered : ∀ id, held' id → (newest? v.heard id).isSome → (v.registry.get? id).isSome) :
    ∃ passed, (v.pull (some time)).Windowed used held' (older ++ passed) := by
  rcases h.attended.pullAt time with ⟨passed, hsplit, hmerged, hbottom, _, _, hattended⟩
  refine ⟨passed, ?_⟩
  constructor
  case attended =>
    rw [split_waiting hsplit]
    exact hattended
  case bottom =>
    intro hnone
    rcases hbottom hnone with ⟨hbefore, rfl⟩
    rw [h.bottom hbefore]
    rfl
  case previous =>
    intro id hid
    rw [hmerged, ResultMap.getElem?_foldl_merge, Playback.getElem?_known, newest?_append]
    refine congrArg _ ?_
    split
    case isTrue => exact h.previous id (hheld id hid)
    case isFalse hgone =>
      -- nothing was ever heard of the proxy
      refine (Option.not_isSome_iff_eq_none.mp fun hsome => hgone ?_).symm
      refine hregistered id hid ?_
      rw [isSome_newest?] at hsome ⊢
      rcases hsome with ⟨s, hs, hresult⟩
      refine ⟨s, ?_, hresult⟩
      rw [h.attended.heard_eq]
      simp [hs]

/-- The window does not move backwards. -/
theorem pullAt_onward (h : v.Windowed used held older) (time : T) :
    ∀ a ∈ v.playback.next, ∃ b ∈ (v.pull (some time)).playback.next,
      a.timestamp ≤ b.timestamp := by
  intro a ha
  rcases h.attended.pullAt time with ⟨passed, hsplit, _, hbottom, _⟩
  have hascending := h.attended.ascending
  rw [h.attended.heard_eq, ← split_waiting hsplit] at hascending
  cases hnext : (v.pull (some time)).playback.next with
  | none =>
    rw [(hbottom hnext).1] at ha
    cases ha
  | some b =>
    rw [hnext, Option.mem_def.mp ha] at hsplit
    rw [hnext] at hascending
    refine ⟨b, rfl, ?_⟩
    cases passed with
    | nil => exact le_of_eq (congrArg _ (List.cons.inj hsplit).1)
    | cons first rest =>
      -- the window has passed its old end
      rw [(List.cons.inj hsplit).1]
      have hbefore := (List.pairwise_append.mp (List.pairwise_append.mp hascending).1).2.2
      refine (hbefore first ?_ b List.mem_cons_self).le
      simp

/-- Every event leaves it so. Only a plain pull uses snapshots up. -/
theorem perform (h : v.Windowed used held older) (event : Event S T) {held' : ProxyId → Prop}
    (hheld : ∀ id, held' id → held id)
    (hregistered : ∀ time, event = .pullAt time → ∀ id, held' id → (newest? v.heard id).isSome →
      (v.registry.get? id).isSome) :
    ∃ used' older', (v.perform event).Windowed used' held' older' ∧
      (event ≠ .pullLatest → used' = used) := by
  cases event with
  | call call => exact ⟨used, older, (h.call call).weaken hheld, fun _ => rfl⟩
  | arrive snapshot => exact ⟨used, older, (h.arrive snapshot).weaken hheld, fun _ => rfl⟩
  | pullLatest =>
    exact ⟨v.heard, [], h.pullLatest.weaken hheld, fun hne => absurd rfl hne⟩
  | pullAt time =>
    rcases h.pullAt time hheld (hregistered time rfl) with ⟨passed, hafter⟩
    exact ⟨used, older ++ passed, hafter, fun _ => rfl⟩

theorem perform_onward (h : v.Windowed used held older) {event : Event S T}
    (hevent : event ≠ .pullLatest) :
    ∀ a ∈ v.playback.next, ∃ b ∈ (v.perform event).playback.next, a.timestamp ≤ b.timestamp := by
  cases event with
  | call call => exact fun a ha => ⟨a, ha, le_refl _⟩
  | arrive snapshot =>
    intro a ha
    unfold Viewer.perform
    dsimp only
    split
    · exact ⟨a, ha, le_refl _⟩
    · exact ⟨a, ha, le_refl _⟩
  | pullLatest => exact absurd rfl hevent
  | pullAt time => exact h.pullAt_onward time

omit [Scalar S] [Scalar T] [Timeline S T] in
/-- While no plain pull has used anything up, what is older than the end of the window is what has
arrived before it. -/
theorem older_eq (h : v.Windowed [] held older) : v.older = older := by
  have hascending := h.attended.ascending
  unfold Viewer.older
  rw [h.attended.heard_eq] at hascending ⊢
  cases hnext : v.playback.next with
  | none => exact (h.bottom hnext).symm
  | some s =>
    rw [hnext, List.nil_append, Option.toList_some, List.append_assoc, List.append_assoc,
      List.singleton_append] at hascending
    rcases List.pairwise_append.mp hascending with ⟨_, hlater, hbefore⟩
    dsimp only
    rw [List.nil_append, Option.toList_some, List.append_assoc, List.append_assoc,
      List.singleton_append, List.filter_append, List.filter_eq_self.mpr,
      List.filter_eq_nil_iff.mpr, List.append_nil]
    · intro t ht hlt
      rcases List.mem_cons.mp ht with rfl | ht
      · exact lt_irrefl _ (of_decide_eq_true hlt)
      · exact lt_asymm ((List.pairwise_cons.mp hlater).1 t ht) (of_decide_eq_true hlt)
    · intro t ht
      exact decide_eq_true (hbefore t ht s List.mem_cons_self)

end Windowed

/-! ## Runs -/

variable [Scalar S] [Scalar T] [Timeline S T]

/-- A proxy has been registered at every pull since a snapshot arrived that has a result for it. -/
def Throughout (events : List (Event S T)) (id : ProxyId) : Prop :=
  ∀ earlier time later, events = earlier ++ .pullAt time :: later →
    (newest? (run earlier).heard id).isSome → ((run earlier).registry.get? id).isSome

/-- What pulls at times may rely on. -/
structure WindowKept (events : List (Event S T)) : Prop where
  /-- Everything that has arrived is in one place, in order: merged into the previous results, at
  the end of the window, waiting, or still in the channel. -/
  placed : (run events).heard = (run events).older ++ (run events).playback.next.toList ++
    (run events).playback.pending ++ (run events).channel.queue
  /-- Nothing is in two places. -/
  ascending : (run events).heard.Pairwise fun a b => a.timestamp < b.timestamp
  /-- What waits is in order and newer than the end of the window. -/
  pending : ((run events).playback.next.toList ++ (run events).playback.pending).Pairwise
    fun a b => a.timestamp < b.timestamp
  /-- The previous result of a proxy is the newest one before the end of the window. -/
  previous : ∀ id, Throughout events id →
    (run events).playback.previous[id]? = newest? (run events).older id
  /-- The end of the window does not go back. -/
  onward : ∀ earlier later, events = earlier ++ later → ∀ a ∈ (run earlier).playback.next,
    ∃ b ∈ (run events).playback.next, a.timestamp ≤ b.timestamp
  /-- A pull receives everything, and stops where nothing waits or the window ends no earlier than
  the time. -/
  reached : ∀ time, ((run events).pull (some time)).channel.queue = [] ∧
    (((run events).pull (some time)).playback.pending = [] ∨
      ∃ s ∈ ((run events).pull (some time)).playback.next, ¬ s.endTime < time)
  /-- A pull puts a live proxy where it would be had all snapshots before the end of the window been
  merged in order. -/
  shown : ∀ time id p, Throughout (events ++ [.pullAt time]) id →
    (run events).registry.get? id = some p → p.isPending = false →
    ((run events).pull (some time)).registry.get? id =
      some (((run events).pull (some time)).playback.next.elim p fun s =>
        (Playback.blend (Playback.fraction time s)
          (((run events).pull (some time)).older.foldl ResultMap.merge ∅) s
          (ResultMap.merge ∅ s) p).elim p fun data => p.write data)

theorem run_concat (events : List (Event S T)) (event : Event S T) :
    run (events ++ [event]) = (run events).perform event := by
  unfold run
  rw [List.foldl_append]
  rfl

theorem Throughout.of_concat {events : List (Event S T)} {event : Event S T} {id : ProxyId}
    (h : Throughout (events ++ [event]) id) : Throughout events id := by
  intro earlier time later hevents
  refine h earlier time (later ++ [event]) ?_
  rw [hevents, List.append_assoc]
  rfl

/-- After all runs every snapshot is in one place, and plain pulls only use snapshots up. -/
theorem windowed_run (events : List (Event S T)) :
    ∃ used older, (run events).Windowed used (Throughout events) older ∧
      (.pullLatest ∉ events → used = []) := by
  -- from the right, since what is required of a proxy is about the pulls so far
  induction events using List.reverseRecOn with
  | nil => exact ⟨[], [], windowed_start _, fun _ => rfl⟩
  | append_singleton events event ih =>
    rcases ih with ⟨used, older, h, hused⟩
    rw [run_concat]
    have hregistered : ∀ time, event = .pullAt time → ∀ id, Throughout (events ++ [event]) id →
        (newest? (run events).heard id).isSome → ((run events).registry.get? id).isSome := by
      rintro time rfl id hid
      exact hid events time [] rfl
    rcases h.perform event (fun _ => Throughout.of_concat) hregistered with
      ⟨used', older', hafter, hsame⟩
    refine ⟨used', older', hafter, ?_⟩
    intro hno
    rw [List.mem_append, List.mem_singleton, not_or] at hno
    rw [hsame (Ne.symm hno.2)]
    exact hused hno.1

/-- The end of the window never goes back. -/
theorem onward_run {earlier later : List (Event S T)} (h : .pullLatest ∉ later) :
    ∀ a ∈ (run earlier).playback.next, ∃ b ∈ (run (earlier ++ later)).playback.next,
      a.timestamp ≤ b.timestamp := by
  intro a ha
  induction later using List.reverseRecOn with
  | nil =>
    rw [List.append_nil]
    exact ⟨a, ha, le_refl _⟩
  | append_singleton later event ih =>
    rw [List.mem_append, List.mem_singleton, not_or] at h
    rcases ih h.1 with ⟨b, hb, hab⟩
    rcases windowed_run (earlier ++ later) with ⟨used, older, hwindow, _⟩
    rw [← List.append_assoc, run_concat]
    rcases hwindow.perform_onward (Ne.symm h.2) b hb with ⟨c, hc, hbc⟩
    exact ⟨c, hc, hab.trans hbc⟩

/-- However times go back and forth, a window over the answers only moves forward, and no answer is
passed over. -/
theorem window_kept (events : List (Event S T)) (h : .pullLatest ∉ events) : WindowKept events := by
  rcases windowed_run events with ⟨used, older, hwindow, hused⟩
  -- nothing has been used up by a plain pull
  cases hused h
  have holder := hwindow.older_eq
  constructor
  case placed =>
    rw [holder]
    exact hwindow.attended.heard_eq
  case ascending => exact hwindow.attended.ascending
  case pending =>
    have hascending := hwindow.attended.ascending
    rw [hwindow.attended.heard_eq, List.append_assoc _ _ (run events).playback.pending]
      at hascending
    exact (List.pairwise_append.mp (List.pairwise_append.mp hascending).1).2.1
  case previous =>
    rw [holder]
    exact hwindow.previous
  case onward =>
    rintro earlier later rfl
    exact onward_run fun hmem => h (List.mem_append_right _ hmem)
  case reached =>
    intro time
    rcases hwindow.attended.pullAt time with ⟨_, _, _, _, hstop, hqueue, _⟩
    exact ⟨hqueue, hstop⟩
  case shown =>
    intro time id p hid hp hlive
    rcases windowed_run (events ++ [.pullAt time]) with ⟨used', older', hafter, hused'⟩
    have hno : .pullLatest ∉ events ++ [.pullAt time] := by simpa using h
    cases hused' hno
    have hrun : run (events ++ [.pullAt time]) = (run events).pull (some time) :=
      run_concat events (.pullAt time)
    have hprevious := hafter.previous id hid
    rw [← hafter.older_eq, hrun] at hprevious
    have hget := Playback.get?_pullAt ((run events).playback.receive (run events).channel).1 time
      (run events).registry id
    rw [hp, Option.map_some, hlive] at hget
    refine hget.trans (congrArg some ?_)
    rw [if_neg Bool.false_ne_true]
    -- the previous result is what merging all older snapshots gives
    change ((run events).pull (some time)).playback.next.elim p _ = _
    cases ((run events).pull (some time)).playback.next with
    | none => rfl
    | some s =>
      refine congrArg (Option.elim · p _) (Playback.blend_congr ?_)
      rw [ResultMap.getElem?_foldl_merge, Std.TreeMap.getElem?_emptyc, Option.or_none,
        Registry.id_of_get? hp]
      exact hprevious

/-- The window reaches its second snapshot, and the next pull asks for a time before it. -/
def backAndForth : List (Event Float32 Float) :=
  [.call (.register ⟨0⟩ (.particle (.kinematic 0)) ⟨1⟩ 1),
    .arrive ⟨⟨1⟩, 0, 1, [⟨⟨0, 0⟩, .particles #[⟨1, 0, 0⟩] #[0]⟩], {}⟩,
    .arrive ⟨⟨2⟩, 1, 2, [⟨⟨0, 0⟩, .particles #[⟨2, 0, 0⟩] #[0]⟩], {}⟩,
    .pullAt 1.5,
    .pullAt 0.25]

theorem backAndForth_kept : .pullLatest ∉ backAndForth ∧ WindowKept backAndForth := by
  have hno : .pullLatest ∉ backAndForth := by simp [backAndForth]
  exact ⟨hno, window_kept backAndForth hno⟩

end Viewer

end TetheredParticles
