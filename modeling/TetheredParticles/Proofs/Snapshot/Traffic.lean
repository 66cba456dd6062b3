import TetheredParticles.Proofs.Snapshot.Channel
/-!
# Traffic through a channel

The two halves of a channel are held by different sides, and each may be dropped at any time. A
drain looks into the queue again and again, and the sender does not wait for it to end. In whatever
order all of this happens, snapshots arrive once each and in order.

Each half remembers a number of its own. The receiver's check never fails because what has been
received, what a drain under way has collected and what is queued make up, one behind the other,
everything that has been sent.

* `Traffic`, `Traffic.perform`, `Traffic.run` — a channel in use.
* `Traffic.Accounted`, `Traffic.Orderly` — what the two sides may rely on.
* `Traffic.Steady` — the invariant.
* `Traffic.run_orderly` — they may do so after all runs.
-/

namespace TetheredParticles

variable {α : Type} [Stamped α]

/-- A channel in use. -/
structure Traffic (α : Type) where
  channel : Channel α := .empty
  /-- Every snapshot that was sent and not refused, oldest first. -/
  sent : List α := []
  /-- Every snapshot that the receiving half has handed out, oldest first. -/
  received : List α := []
  /-- What the drain under way has collected, newest first. -/
  drain : Option (List α) := none

namespace Traffic

/-- What may happen. -/
inductive Event (α : Type) where
  | send (snapshot : α)
  | receive
  /-- A drain begins. -/
  | drain
  /-- The drain under way looks into the queue. -/
  | look
  | dropSender
  | dropReceiver

/-- Whether the receiving half exists and may be called: a drain keeps it until it ends. -/
def idle (u : Traffic α) : Bool := u.channel.hasReceiver && u.drain.isNone

/-- What the receiving half hands out or reports: to a call that receives, or at the end of a
drain. -/
def reply (u : Traffic α) : Event α → Option (Except ChannelError (List α))
  | .receive => if u.idle then some (u.channel.receive.1.map Option.toList) else none
  | .look => u.drain.bind fun collected => (u.channel.look collected).1.getLeft?
  | _ => none

/-- The snapshots that are handed out. -/
def handedOut (u : Traffic α) (event : Event α) : List α :=
  (u.reply event).elim [] fun reply => reply.toOption.getD []

/-- The channel after an event. A half that is gone is not used any more. -/
def perform (u : Traffic α) (event : Event α) : Traffic α :=
  match event with
  | .send snapshot =>
    if u.channel.hasSender then
      match u.channel.send snapshot with
      | .ok channel => { u with channel, sent := u.sent ++ [snapshot] }
      | .error _ => u
    else u
  | .receive =>
    if u.idle then
      { u with channel := u.channel.receive.2, received := u.received ++ u.handedOut event }
    else u
  | .drain => if u.idle then { u with drain := some [] } else u
  | .look =>
    match u.drain with
    | some collected =>
      let (found, channel) := u.channel.look collected
      { u with channel, received := u.received ++ u.handedOut event, drain := found.getRight? }
    | none => u
  | .dropSender => { u with channel := u.channel.dropSender }
  | .dropReceiver => if u.idle then { u with channel := u.channel.dropReceiver } else u

/-- What has become of a new channel after events in order. -/
def run (events : List (Event α)) : Traffic α := events.foldl perform {}

/-! ## What both sides may rely on -/

/-- Nothing that has been sent is lost to a receiver or comes out of order. -/
structure Accounted (u : Traffic α) : Prop where
  /-- What has been received is the beginning of what has been sent. -/
  received : u.received <+: u.sent
  /-- The numbers of what has been sent ascend. -/
  ascending : u.sent.Pairwise fun a b => Stamped.timestamp a < Stamped.timestamp b
  /-- While there is a receiver, what it has not been given yet waits for it. -/
  waiting : u.channel.hasReceiver = true →
    u.sent = u.received ++ (u.drain.getD []).reverse ++ u.channel.queue
  /-- The sending half remembers the last number that was not refused. -/
  lastSent : u.channel.lastSent = u.sent.getLast?.map Stamped.timestamp

/-- What the two sides may rely on. -/
structure Orderly (u : Traffic α) : Prop extends u.Accounted where
  /-- A snapshot is accepted exactly if there is a receiver and the snapshot follows all that have
  been sent. -/
  accepted : ∀ a, (∃ after, u.channel.send a = .ok after) ↔
    u.channel.hasReceiver = true ∧ ∀ b ∈ u.sent, Stamped.timestamp b < Stamped.timestamp a
  /-- A snapshot that is refused changes nothing. -/
  refused : ∀ a e, u.channel.send a = .error e → u.perform (.send a) = u
  /-- Receiving hands out what has waited longest, be there a sender or not. -/
  receive : u.idle = true → u.reply .receive = some (match u.channel.queue with
    | a :: _ => .ok [a]
    | [] => if u.channel.hasSender then .ok [] else .error .disconnected)
  /-- Everything that waits can be received, one snapshot at a time. -/
  delivered : u.idle = true → ∀ count,
    ((List.replicate count .receive).foldl perform u).received =
      u.received ++ u.channel.queue.take count
  /-- When a drain hands out snapshots, everything that has been sent has been received. -/
  drained : ∀ snapshots, u.reply .look = some (.ok snapshots) → u.received ++ snapshots = u.sent
  /-- A drain that the sender leaves alone hands out what waits when it begins. -/
  undisturbed : u.channel.drain.1 =
    if u.channel.hasSender || !u.channel.queue.isEmpty then .ok u.channel.queue
    else .error .disconnected
  /-- The receiving half reports one error only, when there is no sender any more and everything
  that has been sent has been received. -/
  error : ∀ event e, u.reply event = some (.error e) →
    e = .disconnected ∧ u.channel.hasSender = false ∧ u.received = u.sent

/-! ## The invariant -/

/-- Besides, the receiving half remembers the last number it took, and takes everything down with
it when it is dropped. -/
structure Steady (u : Traffic α) : Prop extends u.Accounted where
  lastReceived : u.channel.lastReceived =
    (u.received ++ (u.drain.getD []).reverse).getLast?.map Stamped.timestamp
  closed : u.channel.hasReceiver = false → u.channel.queue = [] ∧ u.drain = none

variable {u : Traffic α}

/-- In a list of ascending numbers the last one stands for all. -/
theorem forall_last {xs : List α}
    (h : xs.Pairwise fun a b => Stamped.timestamp a < Stamped.timestamp b) {t : Timestamp} :
    (∀ l ∈ xs.getLast?.map Stamped.timestamp, l < t) ↔ ∀ b ∈ xs, Stamped.timestamp b < t := by
  rcases List.eq_nil_or_concat xs with rfl | ⟨rest, last, rfl⟩
  · simp
  · rw [List.concat_eq_append] at h ⊢
    have hlater := (List.pairwise_append.mp h).2.2
    rw [List.getLast?_concat, Option.map_some]
    constructor
    · intro hlast b hb
      rcases List.mem_append.mp hb with hb | hb
      · exact (hlater b hb last List.mem_cons_self).trans (hlast _ rfl)
      · rw [List.mem_singleton.mp hb]
        exact hlast _ rfl
    · rintro hall l ⟨⟩
      exact hall last (by simp)

theorem steady_start : ({} : Traffic α).Steady where
  received := List.prefix_rfl
  ascending := .nil
  waiting := fun _ => rfl
  lastSent := rfl
  lastReceived := rfl
  closed := by rintro ⟨⟩

omit [Stamped α] in
theorem of_idle (h : u.idle = true) : u.channel.hasReceiver = true ∧ u.drain = none := by
  unfold idle at h
  rw [Bool.and_eq_true, Option.isNone_iff_eq_none] at h
  exact h

/-- With an empty queue nothing happens to who receives. -/
theorem reply_receive_of_nil (hidle : u.idle = true) (hqueue : u.channel.queue = []) :
    u.reply .receive = some (if u.channel.hasSender then .ok [] else .error .disconnected) ∧
      u.perform .receive = u := by
  have hreply : u.reply .receive =
      some (if u.channel.hasSender then .ok [] else .error .disconnected) := by
    unfold reply
    rw [if_pos hidle, Channel.receive_of_nil hqueue]
    cases u.channel.hasSender with
    | true => rfl
    | false => rfl
  have hnothing : u.handedOut .receive = [] := by
    unfold handedOut
    rw [hreply]
    cases u.channel.hasSender with
    | true => rfl
    | false => rfl
  refine ⟨hreply, ?_⟩
  unfold perform
  dsimp only
  rw [if_pos hidle, hnothing, List.append_nil, Channel.receive_of_nil hqueue]

/-- With an empty queue a drain ends, and hands out what it has collected. -/
theorem reply_look_of_nil {collected : List α} (hdrain : u.drain = some collected)
    (hqueue : u.channel.queue = []) :
    u.reply .look = some (if u.channel.hasSender || !collected.isEmpty then .ok collected.reverse
        else .error .disconnected) ∧
      u.perform .look = { u with received := u.received ++ collected.reverse, drain := none } := by
  have hreply : u.reply .look = some (if u.channel.hasSender || !collected.isEmpty then
      .ok collected.reverse else .error .disconnected) := by
    unfold reply
    rw [hdrain, Option.bind_some, Channel.look_of_nil hqueue]
    rfl
  have hall : u.handedOut .look = collected.reverse := by
    unfold handedOut
    rw [hreply]
    cases u.channel.hasSender with
    | true => rfl
    | false =>
      cases collected with
      | nil => rfl
      | cons a rest => rfl
  refine ⟨hreply, ?_⟩
  unfold perform
  rw [hdrain, hall]
  dsimp only
  rw [Channel.look_of_nil hqueue]
  rfl

namespace Steady

/-- The numbers in the channel ascend, since everything that has been sent is in order. -/
theorem ascends (h : u.Steady) : u.channel.Ascending := by
  cases hreceiver : u.channel.hasReceiver with
  | false =>
    -- a receiver that is gone has taken the queue down with it
    have hqueue := (h.closed hreceiver).1
    constructor
    · rw [hqueue]
      exact .nil
    · intro l _ a ha
      rw [hqueue] at ha
      cases ha
  | true =>
    have hsent := h.ascending
    rw [h.waiting hreceiver] at hsent
    rcases List.pairwise_append.mp hsent with ⟨hbefore, hqueue, hlater⟩
    refine ⟨hqueue, ?_⟩
    -- the last number that was received is that of the last snapshot before the queue
    intro l hl a ha
    rw [h.lastReceived] at hl
    exact (forall_last hbefore).mpr (fun b hb => hlater b hb a ha) l hl

/-- The receiving half has not been dropped while it is draining. -/
theorem receiver_of_drain (h : u.Steady) {collected : List α} (hdrain : u.drain = some collected) :
    u.channel.hasReceiver = true := by
  by_contra hno
  rw [(h.closed (Bool.eq_false_iff.mpr hno)).2] at hdrain
  cases hdrain

/-- The oldest snapshot in the queue is received. -/
theorem reply_receive (h : u.Steady) (hidle : u.idle = true) {a : α} {rest : List α}
    (hqueue : u.channel.queue = a :: rest) :
    u.reply .receive = some (.ok [a]) ∧ u.perform .receive =
      { u with channel := u.channel.popped a rest, received := u.received ++ [a] } := by
  have hreply : u.reply .receive = some (.ok [a]) := by
    unfold reply
    rw [if_pos hidle, h.ascends.receive hqueue]
    rfl
  refine ⟨hreply, ?_⟩
  unfold perform handedOut
  dsimp only
  rw [if_pos hidle, hreply, h.ascends.receive hqueue]
  rfl

/-- The oldest snapshot in the queue is collected. -/
theorem reply_look (h : u.Steady) {collected : List α} (hdrain : u.drain = some collected) {a : α}
    {rest : List α} (hqueue : u.channel.queue = a :: rest) :
    u.reply .look = none ∧ u.perform .look =
      { u with channel := u.channel.popped a rest, drain := some (a :: collected) } := by
  have hreply : u.reply .look = none := by
    unfold reply
    rw [hdrain, Option.bind_some, h.ascends.look hqueue]
    rfl
  refine ⟨hreply, ?_⟩
  unfold perform handedOut
  rw [hdrain, hreply]
  dsimp only
  rw [h.ascends.look hqueue, Option.elim_none, List.append_nil]
  rfl

/-! ### Events -/

theorem send (h : u.Steady) (a : α) : (u.perform (.send a)).Steady := by
  unfold perform
  dsimp only
  split
  case isFalse => exact h
  case isTrue =>
    split
    case h_2 => exact h
    case h_1 channel hsend =>
      rcases Channel.send_eq_ok.mp hsend with ⟨hreceiver, hfollows, rfl⟩
      rw [h.lastSent] at hfollows
      have hfollows := (forall_last h.ascending).mp hfollows
      refine { h with
        received := ?received, ascending := ?ascending, waiting := ?waiting, lastSent := ?lastSent
        closed := ?closed }
      case received => exact h.received.trans (List.prefix_append _ _)
      case ascending =>
        refine List.pairwise_append.mpr ⟨h.ascending, List.pairwise_singleton _ _, ?_⟩
        intro b hb c hc
        rw [List.mem_singleton.mp hc]
        exact hfollows b hb
      case waiting =>
        intro _
        dsimp only
        rw [h.waiting hreceiver, List.append_assoc]
      case lastSent =>
        dsimp only
        rw [List.getLast?_concat]
        rfl
      case closed =>
        intro hno
        rw [show u.channel.hasReceiver = false from hno] at hreceiver
        cases hreceiver

/-- A snapshot from the front of the queue has been received or collected. -/
theorem moved (h : u.Steady) (hreceiver : u.channel.hasReceiver = true) {a : α} {rest : List α}
    (hqueue : u.channel.queue = a :: rest) {received : List α} {drain : Option (List α)}
    (hmoved : received ++ (drain.getD []).reverse =
      u.received ++ (u.drain.getD []).reverse ++ [a]) :
    Steady { u with channel := u.channel.popped a rest, received, drain } := by
  have hwaiting : u.sent = received ++ (drain.getD []).reverse ++ rest := by
    rw [hmoved, h.waiting hreceiver, hqueue, List.append_assoc _ [a]]
    rfl
  refine { h with
    received := ?received, waiting := fun _ => hwaiting, lastReceived := ?lastReceived
    closed := ?closed }
  case received =>
    dsimp only
    rw [hwaiting, List.append_assoc]
    exact List.prefix_append _ _
  case lastReceived =>
    dsimp only
    rw [hmoved, List.getLast?_concat]
    rfl
  case closed =>
    intro hno
    rw [show u.channel.hasReceiver = false from hno] at hreceiver
    cases hreceiver

theorem receive (h : u.Steady) : (u.perform .receive).Steady := by
  cases hidle : u.idle with
  | false =>
    unfold perform
    rw [hidle]
    exact h
  | true =>
    rcases of_idle hidle with ⟨hreceiver, hdrain⟩
    cases hqueue : u.channel.queue with
    | nil =>
      rw [(reply_receive_of_nil hidle hqueue).2]
      exact h
    | cons a rest =>
      rw [(h.reply_receive hidle hqueue).2]
      refine h.moved hreceiver hqueue ?_
      rw [hdrain]
      simp

theorem look (h : u.Steady) : (u.perform .look).Steady := by
  cases hdrain : u.drain with
  | none =>
    unfold perform
    rw [hdrain]
    exact h
  | some collected =>
    have hreceiver := h.receiver_of_drain hdrain
    cases hqueue : u.channel.queue with
    | nil =>
      rw [(reply_look_of_nil hdrain hqueue).2]
      -- what has been collected so far has been received
      have hsent := h.waiting hreceiver
      have hlast := h.lastReceived
      rw [hdrain, Option.getD_some] at hsent hlast
      rw [hqueue, List.append_nil] at hsent
      refine { h with
        received := ?received, waiting := ?waiting, lastReceived := ?lastReceived
        closed := ?closed }
      case received => exact ⟨[], (List.append_nil _).trans hsent.symm⟩
      case waiting =>
        intro _
        dsimp only
        rw [hqueue, hsent]
        simp
      case lastReceived =>
        dsimp only
        rw [hlast]
        simp
      case closed =>
        intro hno
        rw [show u.channel.hasReceiver = false from hno] at hreceiver
        cases hreceiver
    | cons a rest =>
      rw [(h.reply_look hdrain hqueue).2]
      refine h.moved hreceiver hqueue ?_
      rw [hdrain]
      simp

/-- Every event leaves it so. -/
theorem perform (h : u.Steady) (event : Event α) : (u.perform event).Steady := by
  cases event with
  | send a => exact h.send a
  | receive => exact h.receive
  | drain =>
    unfold Traffic.perform
    dsimp only
    split
    case isFalse => exact h
    case isTrue hidle =>
      rcases of_idle hidle with ⟨hreceiver, hdrain⟩
      have hwaiting := h.waiting
      have hlast := h.lastReceived
      rw [hdrain] at hwaiting hlast
      refine { h with waiting := hwaiting, lastReceived := hlast, closed := ?_ }
      intro hno
      rw [show u.channel.hasReceiver = false from hno] at hreceiver
      cases hreceiver
  | look => exact h.look
  | dropSender => exact { h with }
  | dropReceiver =>
    unfold Traffic.perform
    dsimp only
    split
    case isFalse => exact h
    case isTrue hidle =>
      refine { h with waiting := ?_, closed := fun _ => ⟨rfl, (of_idle hidle).2⟩ }
      rintro ⟨⟩

/-! ### What follows -/

/-- Receiving again and again hands out what waits, in order. -/
theorem received_replicate (h : u.Steady) (hidle : u.idle = true) (count : Nat) :
    ((List.replicate count .receive).foldl Traffic.perform u).received =
      u.received ++ u.channel.queue.take count := by
  induction count generalizing u with
  | zero => simp
  | succ count ih =>
    rw [List.replicate_succ, List.foldl_cons]
    cases hqueue : u.channel.queue with
    | nil =>
      rw [(reply_receive_of_nil hidle hqueue).2, ih h hidle, hqueue, List.take_nil, List.take_nil]
    | cons a rest =>
      have hreceive := h.receive
      rw [(h.reply_receive hidle hqueue).2] at hreceive ⊢
      rw [ih hreceive hidle, List.take_succ_cons, List.append_assoc]
      rfl

/-- A drain that the sender leaves alone takes everything that waits. -/
theorem drain (h : u.Steady) (hidle : u.idle = true) (hsender : u.channel.hasSender = true) :
    ∃ channel, u.channel.drain = (.ok u.channel.queue, channel) ∧ channel.queue = [] ∧
      channel.hasSender = true ∧ channel.hasReceiver = true ∧
      Steady { u with channel, received := u.received ++ u.channel.queue } := by
  rcases of_idle hidle with ⟨hreceiver, hdrain⟩
  have hsent := h.waiting hreceiver
  have hlast := h.lastReceived
  rw [hdrain, Option.getD_none, List.reverse_nil, List.append_nil] at hsent hlast
  unfold Channel.drain
  rw [h.ascends.collect [] (Nat.lt_succ_self _), if_pos (Bool.or_eq_true_iff.mpr (.inl hsender))]
  refine ⟨_, rfl, rfl, hsender, hreceiver, { h with
    received := ?received, waiting := ?waiting, lastReceived := ?lastReceived, closed := ?closed }⟩
  case received => exact ⟨[], (List.append_nil _).trans hsent.symm⟩
  case waiting =>
    intro _
    dsimp only
    rw [hsent, hdrain]
    simp
  case lastReceived =>
    dsimp only
    rw [hdrain, hlast, Option.getD_none, List.reverse_nil, List.append_nil, List.getLast?_append]
    cases u.channel.queue.getLast? with
    | none => rfl
    | some a => rfl
  case closed =>
    intro hno
    rw [show u.channel.hasReceiver = false from hno] at hreceiver
    cases hreceiver

theorem accepted (h : u.Steady) (a : α) : (∃ after, u.channel.send a = .ok after) ↔
    u.channel.hasReceiver = true ∧ ∀ b ∈ u.sent, Stamped.timestamp b < Stamped.timestamp a := by
  rw [← forall_last h.ascending, ← h.lastSent]
  constructor
  · rintro ⟨after, hsend⟩
    rcases Channel.send_eq_ok.mp hsend with ⟨hreceiver, hfollows, _⟩
    exact ⟨hreceiver, hfollows⟩
  · rintro ⟨hreceiver, hfollows⟩
    exact ⟨_, Channel.send_eq_ok.mpr ⟨hreceiver, hfollows, rfl⟩⟩

/-- A drain that hands out snapshots has come to the end of the queue. -/
theorem drained (h : u.Steady) {snapshots : List α}
    (hreply : u.reply .look = some (.ok snapshots)) : u.received ++ snapshots = u.sent := by
  cases hdrain : u.drain with
  | none =>
    unfold reply at hreply
    rw [hdrain] at hreply
    cases hreply
  | some collected =>
    have hsent := h.waiting (h.receiver_of_drain hdrain)
    cases hqueue : u.channel.queue with
    | nil =>
      rw [hdrain, Option.getD_some, hqueue, List.append_nil] at hsent
      rw [(reply_look_of_nil hdrain hqueue).1] at hreply
      split at hreply
      · cases hreply
        exact hsent.symm
      · cases hreply
    | cons a rest =>
      rw [(h.reply_look hdrain hqueue).1] at hreply
      cases hreply

/-- An error means that the queue is empty and nobody can fill it any more. -/
theorem error_of_reply (h : u.Steady) {event : Event α} {e : ChannelError}
    (hreply : u.reply event = some (.error e)) :
    e = .disconnected ∧ u.channel.hasSender = false ∧ u.received = u.sent := by
  -- errors come from an empty queue only, and then only if all senders are gone
  cases event with
  | receive =>
    cases hidle : u.idle with
    | false =>
      unfold reply at hreply
      rw [hidle] at hreply
      cases hreply
    | true =>
      rcases of_idle hidle with ⟨hreceiver, hdrain⟩
      cases hqueue : u.channel.queue with
      | nil =>
        rw [(reply_receive_of_nil hidle hqueue).1] at hreply
        split at hreply
        case isTrue => cases hreply
        case isFalse hsender =>
          cases hreply
          refine ⟨rfl, Bool.eq_false_iff.mpr hsender, ?_⟩
          rw [h.waiting hreceiver, hdrain, hqueue]
          simp
      | cons a rest =>
        rw [(h.reply_receive hidle hqueue).1] at hreply
        cases hreply
  | look =>
    cases hdrain : u.drain with
    | none =>
      unfold reply at hreply
      rw [hdrain] at hreply
      cases hreply
    | some collected =>
      cases hqueue : u.channel.queue with
      | nil =>
        rw [(reply_look_of_nil hdrain hqueue).1] at hreply
        split at hreply
        case isTrue => cases hreply
        case isFalse hnothing =>
          cases hreply
          rw [Bool.or_eq_true, not_or, Bool.not_eq_true, Bool.not_eq_true', Bool.not_eq_false,
            List.isEmpty_iff] at hnothing
          refine ⟨rfl, hnothing.1, ?_⟩
          rw [h.waiting (h.receiver_of_drain hdrain), hdrain, hqueue, hnothing.2]
          simp
      | cons a rest =>
        rw [(h.reply_look hdrain hqueue).1] at hreply
        cases hreply
  | _ => cases hreply

theorem orderly (h : u.Steady) : u.Orderly := by
  refine { h with
    accepted := h.accepted, refused := ?refused, receive := ?receive
    delivered := h.received_replicate, drained := fun _ => h.drained
    undisturbed := ?undisturbed, error := fun _ _ => h.error_of_reply }
  case refused =>
    intro a e hsend
    unfold Traffic.perform
    dsimp only
    rw [hsend]
    exact ite_self u
  case receive =>
    intro hidle
    cases hqueue : u.channel.queue with
    | nil => exact (reply_receive_of_nil hidle hqueue).1
    | cons a rest => exact (h.reply_receive hidle hqueue).1
  case undisturbed =>
    unfold Channel.drain
    rw [h.ascends.collect [] (Nat.lt_succ_self _)]
    rfl

end Steady

/-- In whatever order the two sides use a channel, snapshots are received once each and in the order
in which they were sent, and nothing that has been sent is lost to a receiver. -/
theorem run_orderly (events : List (Event α)) : (run events).Orderly := by
  suffices hall : ∀ u : Traffic α, u.Steady → (events.foldl perform u).Steady from
    (hall {} steady_start).orderly
  intro u hu
  induction events generalizing u with
  | nil => exact hu
  | cons event rest ih => exact ih (u.perform event) (hu.perform event)

end Traffic

end TetheredParticles
