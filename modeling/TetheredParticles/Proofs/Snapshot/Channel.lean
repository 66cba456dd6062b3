import Mathlib.Order.Basic
import TetheredParticles.Proofs.Outcome
import TetheredParticles.Snapshot.Playback
import TetheredParticles.Snapshot.Sealing
/-!
# Channels in order

While numbers ascend, what is received is the oldest snapshot, and draining takes all of them. As
long as both halves exist, a channel refuses nothing.

* `Channel.look` — one look of a drain into the queue.
* `Channel.Ascending` — the numbers in a channel ascend.
* `Channel.Ascending.collect` — what draining takes.
* `Channel.Ordered` — both halves exist besides, and no number exceeds a bound.
* `Channel.Ordered.send`, `Channel.Ordered.receive`, `Channel.Ordered.drain` — what calls do.
* `Outbox.sealSteps_ends` — the snapshots of an advance.
-/

namespace TetheredParticles

instance : PartialOrder Timestamp where
  le_refl a := Nat.le_refl a.ticks
  le_trans _ _ _ := Nat.le_trans
  lt_iff_le_not_ge _ _ := Nat.lt_iff_le_and_not_ge
  le_antisymm a b h k := by
    cases a
    cases b
    rw [Timestamp.mk.injEq]
    exact Nat.le_antisymm h k

namespace Timestamp

theorem not_le {a b : Timestamp} : ¬ a ≤ b ↔ b < a := Nat.not_le

theorem le_def {a b : Timestamp} : a ≤ b ↔ a.ticks ≤ b.ticks := Iff.rfl

theorem lt_def {a b : Timestamp} : a < b ↔ a.ticks < b.ticks := Iff.rfl

end Timestamp

namespace Channel

variable {α : Type} [Stamped α] {c : Channel α} {t : Timestamp}

theorem blocking_eq_none {previous : Option Timestamp} (h : ∀ l ∈ previous, l < t) :
    blocking previous t = none := by
  unfold blocking
  cases previous with
  | none => rfl
  | some l =>
    have hno : ¬ t ≤ l := Timestamp.not_le.mpr (h l rfl)
    simp [Option.filter, hno]

/-- A snapshot is accepted if there is a receiver and the snapshot follows the last one. -/
theorem send_eq_ok {a : α} {after : Channel α} :
    c.send a = .ok after ↔ c.hasReceiver = true ∧
      (∀ l ∈ c.lastSent, l < Stamped.timestamp a) ∧
      after = { c with queue := c.queue ++ [a], lastSent := some (Stamped.timestamp a) } := by
  unfold send
  dsimp only
  constructor
  · intro h
    split at h
    case h_1 => cases h
    case h_2 hfree =>
      split at h
      case isFalse => cases h
      case isTrue hreceiver =>
        cases h
        refine ⟨hreceiver, ?_, rfl⟩
        intro l hl
        unfold blocking at hfree
        rw [Option.filter_eq_none_iff] at hfree
        exact Timestamp.not_le.mp fun hle => hfree l hl (decide_eq_true hle)
  · rintro ⟨hreceiver, hlast, rfl⟩
    rw [blocking_eq_none hlast]
    dsimp only
    rw [if_pos hreceiver]

/-! ## Looks -/

/-- One look of a drain into the queue: what the drain returns, or what it has collected with one
snapshot more. The newest collected snapshot comes first. -/
def look (c : Channel α) (collected : List α) :
    (Except ChannelError (List α) ⊕ List α) × Channel α :=
  match c.receive with
  | (.ok (some snapshot), c) => (.inr (snapshot :: collected), c)
  | (.ok none, c) => (.inl (.ok collected.reverse), c)
  | (.error .disconnected, c) =>
    (.inl (if collected.isEmpty then .error .disconnected else .ok collected.reverse), c)
  | (.error e, c) => (.inl (.error e), c)

/-- A drain looks again as long as there is something to collect. -/
theorem collect_succ (c : Channel α) (collected : List α) (count : Nat) :
    c.collect collected (count + 1) =
      match c.look collected with
      | (.inl result, c) => (result, c)
      | (.inr collected, c) => c.collect collected count := by
  unfold look
  rw [collect]
  rcases c.receive with ⟨result, after⟩
  match result with
  | .ok (some snapshot) => rfl
  | .ok none => rfl
  | .error .disconnected => rfl
  | .error (.nonMonotonic previous timestamp) => rfl

/-- Nothing is received from an empty queue, and without a sender this is an error. -/
theorem receive_of_nil (hq : c.queue = []) :
    c.receive = (if c.hasSender then .ok none else .error .disconnected, c) := by
  unfold Channel.receive
  rw [hq]

/-- A drain ends with the look that finds nothing. -/
theorem look_of_nil (hq : c.queue = []) (collected : List α) :
    c.look collected = (.inl (if c.hasSender || !collected.isEmpty then .ok collected.reverse
      else .error .disconnected), c) := by
  unfold look
  rw [receive_of_nil hq]
  cases c.hasSender with
  | true => rfl
  | false =>
    cases collected with
    | nil => rfl
    | cons a rest => rfl

/-! ## Ascending numbers -/

/-- The numbers in a channel ascend and follow the last one that was received. -/
structure Ascending (c : Channel α) : Prop where
  queue : c.queue.Pairwise fun a b => Stamped.timestamp a < Stamped.timestamp b
  received : ∀ l ∈ c.lastReceived, ∀ a ∈ c.queue, l < Stamped.timestamp a

/-- The channel when the first snapshot has been received from it. -/
def popped (c : Channel α) (a : α) (rest : List α) : Channel α :=
  { c with queue := rest, lastReceived := some (Stamped.timestamp a) }

namespace Ascending

/-- The oldest snapshot is received. -/
theorem receive (h : c.Ascending) {a : α} {rest : List α} (hq : c.queue = a :: rest) :
    c.receive = (.ok (some a), c.popped a rest) := by
  unfold Channel.receive
  rw [hq]
  dsimp only
  have hnone : blocking c.lastReceived (Stamped.timestamp a) = none := by
    refine blocking_eq_none fun l hl => h.received l hl a ?_
    rw [hq]
    exact List.mem_cons_self
  rw [hnone]
  rfl

theorem popped (h : c.Ascending) {a : α} {rest : List α} (hq : c.queue = a :: rest) :
    (c.popped a rest).Ascending := by
  have hqueue := h.queue
  rw [hq, List.pairwise_cons] at hqueue
  refine ⟨hqueue.2, ?_⟩
  intro l hl
  cases hl
  exact hqueue.1

/-- The oldest snapshot is collected. -/
theorem look (h : c.Ascending) {a : α} {rest : List α} (hq : c.queue = a :: rest)
    (collected : List α) : c.look collected = (.inr (a :: collected), c.popped a rest) := by
  unfold Channel.look
  rw [h.receive hq]

/-- Looking often enough collects everything. Only if there is nothing at all and no sender either,
the channel is disconnected. -/
theorem collect (h : c.Ascending) (collected : List α) {count : Nat}
    (hcount : c.queue.length < count) :
    c.collect collected count =
      (if c.hasSender || !(collected.isEmpty && c.queue.isEmpty) then
        .ok (collected.reverse ++ c.queue)
      else .error .disconnected,
      { c with
        queue := []
        lastReceived := (c.queue.getLast?.map Stamped.timestamp).or c.lastReceived }) := by
  induction count generalizing c collected with
  | zero => exact absurd hcount (Nat.not_lt_zero _)
  | succ count ih =>
    rw [collect_succ]
    cases hq : c.queue with
    | nil =>
      rw [look_of_nil hq]
      simp only [List.isEmpty_nil, Bool.and_true, List.append_nil, List.getLast?_nil,
        Option.map_none, Option.none_or]
      rw [← hq]
    | cons a rest =>
      rw [h.look hq]
      have hlength : (c.popped a rest).queue.length < count := by
        rw [hq, List.length_cons] at hcount
        exact Nat.lt_of_succ_lt_succ hcount
      dsimp only
      rw [ih (h.popped hq) (a :: collected) hlength]
      -- both sides have collected something
      simp only [Channel.popped, List.isEmpty_cons, Bool.false_and, Bool.and_false, Bool.not_false,
        Bool.or_true, if_true, List.reverse_cons, List.append_assoc, List.singleton_append]
      cases rest with
      | nil => rfl
      | cons b rest =>
        rw [List.getLast?_cons_cons, List.getLast?_cons]
        rfl

end Ascending

/-! ## Both halves -/

/-- Both halves exist, the numbers in the channel ascend, and none exceeds a bound. -/
structure Ordered (c : Channel α) (t : Timestamp) : Prop where
  sender : c.hasSender = true
  receiver : c.hasReceiver = true
  ascending : c.queue.Pairwise fun a b => Stamped.timestamp a < Stamped.timestamp b
  received : ∀ l ∈ c.lastReceived, l ≤ t ∧ ∀ a ∈ c.queue, l < Stamped.timestamp a
  sent : ∀ l ∈ c.lastSent, l ≤ t
  bounded : ∀ a ∈ c.queue, Stamped.timestamp a ≤ t

theorem ordered_empty (t : Timestamp) : (empty : Channel α).Ordered t := by
  constructor
  · rfl
  · rfl
  · exact .nil
  · intro l hl
    cases hl
  · intro l hl
    cases hl
  · intro a ha
    cases ha

namespace Ordered

/-- A snapshot behind all others is queued. -/
theorem send (h : c.Ordered t) {a : α} (ha : t < Stamped.timestamp a) :
    ∃ after, c.send a = .ok after ∧ after.queue = c.queue ++ [a] ∧
      after.lastReceived = c.lastReceived ∧ after.Ordered (Stamped.timestamp a) := by
  have hfollows : ∀ l ∈ c.lastSent, l < Stamped.timestamp a := fun l hl =>
    lt_of_le_of_lt (h.sent l hl) ha
  refine ⟨_, send_eq_ok.mpr ⟨h.receiver, hfollows, rfl⟩, rfl, rfl, ?_⟩
  constructor
  · exact h.sender
  · exact h.receiver
  · refine List.pairwise_append.mpr ⟨h.ascending, List.pairwise_singleton _ _, ?_⟩
    intro b hb d hd
    rw [List.mem_singleton.mp hd]
    exact lt_of_le_of_lt (h.bounded b hb) ha
  · intro l hl
    rcases h.received l hl with ⟨hle, hlt⟩
    refine ⟨(lt_of_le_of_lt hle ha).le, ?_⟩
    intro b hb
    rcases List.mem_append.mp hb with hb | hb
    · exact hlt b hb
    · rw [List.mem_singleton.mp hb]
      exact lt_of_le_of_lt hle ha
  · intro l hl
    cases hl
    exact le_refl _
  · intro b hb
    rcases List.mem_append.mp hb with hb | hb
    · exact (lt_of_le_of_lt (h.bounded b hb) ha).le
    · rw [List.mem_singleton.mp hb]

theorem ascends (h : c.Ordered t) : c.Ascending :=
  ⟨h.ascending, fun l hl => (h.received l hl).2⟩

/-- The oldest snapshot is received. -/
theorem receive (h : c.Ordered t) {a : α} {rest : List α} (hq : c.queue = a :: rest) :
    ∃ after, c.receive = (.ok (some a), after) ∧ after.queue = rest ∧
      after.lastReceived = some (Stamped.timestamp a) ∧ after.Ordered t := by
  have hafter := h.ascends.popped hq
  refine ⟨_, h.ascends.receive hq, rfl, rfl, ?_⟩
  constructor
  · exact h.sender
  · exact h.receiver
  · exact hafter.queue
  · intro l hl
    refine ⟨?_, hafter.received l hl⟩
    cases hl
    exact h.bounded a (by simp [hq])
  · exact h.sent
  · intro b hb
    exact h.bounded b (by rw [hq]; exact List.mem_cons_of_mem a hb)

/-- Nothing is received from an empty queue. -/
theorem receive_nil (h : c.Ordered t) (hq : c.queue = []) : c.receive = (.ok none, c) := by
  rw [receive_of_nil hq, if_pos h.sender]

/-- Receiving often enough takes everything. -/
theorem collect (h : c.Ordered t) (collected : List α) {count : Nat}
    (hcount : c.queue.length < count) :
    ∃ after, c.collect collected count = (.ok (collected.reverse ++ c.queue), after) ∧
      after.queue = [] ∧ after.Ordered t ∧
      after.lastReceived = (c.queue.getLast?.map Stamped.timestamp).or c.lastReceived := by
  rw [h.ascends.collect collected hcount, if_pos (Bool.or_eq_true_iff.mpr (.inl h.sender))]
  refine ⟨_, rfl, rfl, ?_, rfl⟩
  constructor
  · exact h.sender
  · exact h.receiver
  · exact .nil
  · intro l hl
    refine ⟨?_, fun a ha => absurd ha List.not_mem_nil⟩
    dsimp only at hl
    cases hlast : c.queue.getLast? with
    | none =>
      rw [hlast] at hl
      exact (h.received l hl).1
    | some a =>
      rw [hlast] at hl
      cases hl
      exact h.bounded a (List.mem_of_getLast? hlast)
  · exact h.sent
  · intro a ha
    exact absurd ha List.not_mem_nil

/-- Draining takes everything. -/
theorem drain (h : c.Ordered t) :
    ∃ after, c.drain = (.ok c.queue, after) ∧ after.queue = [] ∧ after.Ordered t ∧
      after.lastReceived = (c.queue.getLast?.map Stamped.timestamp).or c.lastReceived :=
  h.collect [] (Nat.lt_succ_self _)

end Ordered

end Channel

/-! ## Sealing -/

namespace Outbox

variable {S T : Type} [Scalar S] [Scalar T] [Timeline S T]

/-- Snapshots that are numbered one after the other, from a number on. -/
def Numbered (start : Timestamp) : List (PushSnapshot S T) → Prop
  | [] => True
  | q :: rest => q.timestamp = start ∧ Numbered ⟨start.ticks + 1⟩ rest

/-- Sealing snapshots begins with the first one, and goes on unless that is refused. -/
theorem sealEach_cons (startTime : T) (dt : S) (count step : UInt32) (rest : List UInt32)
    (o : Outbox S) (channel : Channel (PushSnapshot S T)) :
    sealEach startTime dt count (step :: rest) o channel =
      sealEach startTime dt count [step] o channel >>= fun
        | (.ok (), o, channel) => sealEach startTime dt count rest o channel
        | (.error e, o, channel) => .ok (.error e, o, channel) := by
  rw [sealEach, sealEach]
  cases channel.send (o.snapshot startTime dt count step) with
  | error e => rfl
  | ok inbox =>
    dsimp only
    cases (o.taken step).nextTimestamp.next with
    | error f => rfl
    | ok next => rfl

omit [Scalar S] in
theorem nextTimestamp_taken (o : Outbox S) (step : UInt32) :
    (o.taken step).nextTimestamp = o.nextTimestamp := by
  unfold taken
  split
  · rfl
  · rfl

/-- Only the first step of a call has the place zero. -/
theorem ofNat_eq_zero {step : Nat} {count : UInt32} (h : step < count.toNat) :
    UInt32.ofNat step = 0 ↔ step = 0 := by
  have hsize := count.toNat_lt
  rw [← UInt32.toNat_inj, UInt32.toNat_ofNat', Nat.mod_eq_of_lt (by omega)]
  rfl

/-- Whichever snapshot of a call it is, it carries what is buffered and leaves nothing, if the first
one has emptied the buffer. -/
theorem deltas_snapshot {o : Outbox S} {step : UInt32} (h : step ≠ 0 → o.deltas = [])
    (startTime : T) (dt : S) (count : UInt32) :
    (o.snapshot startTime dt count step).deltas = o.deltas ∧ (o.taken step).deltas = [] := by
  unfold snapshot taken
  by_cases hstep : step = 0
  · rw [if_pos hstep, if_pos hstep]
    exact ⟨rfl, rfl⟩
  · rw [if_neg hstep, if_neg hstep]
    exact ⟨(h hstep).symm, h hstep⟩

/-- One snapshot is sent behind all others. -/
theorem sealEach_singleton_ends {o : Outbox S} {channel : Channel (PushSnapshot S T)}
    (hc : channel.Ordered o.sealedTimestamp) (hnext : 0 < o.nextTimestamp.ticks) (startTime : T)
    (dt : S) (count step : UInt32) :
    Ends (sealEach startTime dt count [step] o channel)
      (fun f => f = .timestampOverflow ∧ ¬ o.nextTimestamp < .largest)
      fun (sent, after, inbox) => sent = .ok () ∧
        after = ⟨(o.taken step).deltas, ⟨o.nextTimestamp.ticks + 1⟩⟩ ∧
        inbox.queue = channel.queue ++ [o.snapshot startTime dt count step] ∧
        inbox.lastReceived = channel.lastReceived ∧ inbox.Ordered after.sealedTimestamp := by
  have hlt : o.sealedTimestamp < o.nextTimestamp := Nat.sub_lt hnext Nat.zero_lt_one
  rcases hc.send (a := o.snapshot startTime dt count step) hlt with
    ⟨inbox, hsend, hqueue, hreceived, hordered⟩
  unfold sealEach
  dsimp only
  rw [hsend, nextTimestamp_taken]
  dsimp only
  unfold Timestamp.next
  split
  case isFalse hlast => exact .error ⟨rfl, hlast⟩
  case isTrue => exact .ok ⟨rfl, rfl, hqueue, hreceived, hordered⟩

/-- The snapshots of steps after the first one carry no writes. -/
theorem sealEach_ends {o : Outbox S} {channel : Channel (PushSnapshot S T)}
    (hc : channel.Ordered o.sealedTimestamp) (hnext : 0 < o.nextTimestamp.ticks) (startTime : T)
    (dt : S) (count : UInt32) {steps : List UInt32} (hsteps : ∀ step ∈ steps, step ≠ 0) :
    Ends (sealEach startTime dt count steps o channel)
      (fun f => f = .timestampOverflow)
      fun (sent, after, inbox) => sent = .ok () ∧ after.deltas = o.deltas ∧
        after.nextTimestamp.ticks = o.nextTimestamp.ticks + steps.length ∧
        inbox.Ordered after.sealedTimestamp ∧ inbox.lastReceived = channel.lastReceived ∧
        ∃ sealed, inbox.queue = channel.queue ++ sealed ∧ sealed.length = steps.length ∧
          Numbered o.nextTimestamp sealed ∧ ∀ q ∈ sealed, q.deltas = [] := by
  induction steps generalizing o channel with
  | nil =>
    unfold sealEach
    exact .ok ⟨rfl, rfl, rfl, hc, rfl, [], (List.append_nil _).symm, rfl, trivial,
      fun q hq => absurd hq List.not_mem_nil⟩
  | cons step rest ih =>
    have hstep : step ≠ 0 := hsteps step (by simp)
    rw [sealEach_cons]
    refine ((sealEach_singleton_ends hc hnext startTime dt count step).mono
      (fun _ hf => hf.1) fun _ h => h).bind ?_
    rintro ⟨sent, next, inbox⟩ ⟨rfl, rfl, hqueue, hreceived, hordered⟩
    unfold taken at hordered ⊢
    rw [if_neg hstep] at hordered ⊢
    refine (ih hordered (Nat.succ_pos _) fun s hs =>
      hsteps s (List.mem_cons_of_mem _ hs)).weaken ?_
    rintro ⟨sent, after, last⟩ ⟨hok, hdeltas, hticks, hlast, hsame, sealed, hsealed, hlength,
      hnumbered, hnone⟩
    refine ⟨hok, hdeltas, ?_, hlast, hsame.trans hreceived,
      o.snapshot startTime dt count step :: sealed, ?_, congrArg (· + 1) hlength,
      ⟨rfl, hnumbered⟩, ?_⟩
    · rw [hticks, List.length_cons]
      dsimp only
      omega
    · rw [hsealed, hqueue, List.append_assoc]
      rfl
    · intro q hq
      rcases List.mem_cons.mp hq with rfl | hq
      · exact if_neg hstep
      · exact hnone q hq

/-- Without steps nothing is sealed. Otherwise the first snapshot takes all writes along, and the
others follow it without any. -/
theorem sealSteps_ends {o : Outbox S} {channel : Channel (PushSnapshot S T)}
    (hc : channel.Ordered o.sealedTimestamp) (hnext : 0 < o.nextTimestamp.ticks) (startTime : T)
    (dt : S) (steps : UInt32) :
    Ends (o.sealSteps channel startTime dt steps) (fun f => f = .timestampOverflow)
      fun (sent, after, inbox) => sent = .ok after.sealedTimestamp ∧
        (steps = 0 ∧ after = o ∧ inbox = channel ∨
        steps ≠ 0 ∧ after.deltas = [] ∧
        after.nextTimestamp.ticks = o.nextTimestamp.ticks + steps.toNat ∧
        inbox.Ordered after.sealedTimestamp ∧ inbox.lastReceived = channel.lastReceived ∧
        ∃ first rest, inbox.queue = channel.queue ++ first :: rest ∧
          rest.length + 1 = steps.toNat ∧ Numbered o.nextTimestamp (first :: rest) ∧
          first.deltas = o.deltas ∧ ∀ q ∈ rest, q.deltas = []) := by
  unfold sealSteps
  cases hn : steps.toNat with
  | zero =>
    have hzero : steps = 0 := UInt32.toNat_inj.mp hn
    rw [List.range_zero, List.map_nil]
    unfold sealEach
    rw [ok_bind]
    exact .pure ⟨rfl, .inl ⟨hzero, rfl, rfl⟩⟩
  | succ n =>
    have hne : steps ≠ 0 := by
      rintro rfl
      cases hn
    rw [List.range_succ_eq_map, List.map_cons, List.map_map, sealEach_cons, bind_assoc]
    refine ((sealEach_singleton_ends hc hnext startTime dt steps (UInt32.ofNat 0)).mono
      (fun _ hf => hf.1) fun _ h => h).bind ?_
    rintro ⟨sent, next, inbox⟩ ⟨rfl, rfl, hqueue, hreceived, hordered⟩
    -- only the first step has the number zero, as there are less than a number can tell apart
    have hsteps : ∀ step ∈ (List.range n).map (UInt32.ofNat ∘ Nat.succ), step ≠ 0 := by
      intro step hstep
      rcases List.mem_map.mp hstep with ⟨i, hi, rfl⟩
      have hi := List.mem_range.mp hi
      have hsize := steps.toNat_lt
      intro heq
      have := congrArg UInt32.toNat heq
      rw [Function.comp_apply, UInt32.toNat_ofNat'] at this
      rw [Nat.mod_eq_of_lt (by omega)] at this
      cases this
    refine (sealEach_ends hordered (Nat.succ_pos _) startTime dt steps hsteps).bind ?_
    rintro ⟨sent, after, last⟩ ⟨hok, hdeltas, hticks, hlast, hsame, sealed, hsealed, hlength,
      hnumbered, hnone⟩
    rw [List.length_map, List.length_range] at hlength hticks
    refine .pure ⟨?_, .inr ⟨hne, hdeltas, ?_, hlast, hsame.trans hreceived,
      o.snapshot startTime dt steps (UInt32.ofNat 0), sealed, ?_, congrArg (· + 1) hlength,
      ⟨rfl, hnumbered⟩, ?_, hnone⟩⟩
    · rw [hok]
      rfl
    · rw [hticks]
      dsimp only
      omega
    · rw [hsealed, hqueue, List.append_assoc]
      rfl
    · rfl

end Outbox

end TetheredParticles
