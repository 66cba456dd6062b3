import TetheredParticles.Proofs.Snapshot.Channel
/-!
# Writes on their way

The producer buffers writes and seals them into numbered snapshots. A call that seals the snapshots
of an advance sends them one by one, and the other side may receive in between. Whatever the
interleaving, every write arrives once and in order, with the snapshot whose number the producer
would have named when the write was made.

* `Dispatch`, `Dispatch.perform`, `Dispatch.run` — a buffer, its channel, and a history of both.
* `Dispatch.Accounted`, `Dispatch.Conserved` — what becomes of writes and snapshots.
* `Dispatch.Steady` — the invariant.
* `Dispatch.run_conserved` — writes are conserved in all runs.
-/

namespace TetheredParticles

/-- A call under way that seals the snapshots of an advance. -/
structure Sealing (S T : Type) where
  startTime : T
  dt : S
  stepCount : UInt32
  sealed : Nat

/-- A buffer of writes and the channel its snapshots go to. -/
structure Dispatch (S T : Type) where
  outbox : Outbox S := .empty
  channel : Channel (PushSnapshot S T) := .empty
  /-- The call under way that seals snapshots. -/
  sealing : Option (Sealing S T) := none
  /-- Every write that was buffered and the number that was next then, oldest first. -/
  pushed : List (Timestamp × Delta S) := []
  /-- The step counts of the calls that have ended, oldest first. -/
  calls : List UInt32 := []
  /-- Every snapshot that the other side has received, oldest first. -/
  received : List (PushSnapshot S T) := []

namespace Dispatch

variable {S T : Type}

/-- What may happen. -/
inductive Event (S T : Type) where
  | push (delta : Delta S)
  /-- A call begins that seals the snapshots of an advance. -/
  | begin (startTime : T) (dt : S) (stepCount : UInt32)
  /-- The call under way seals its next snapshot, or ends. -/
  | step
  | receive
  | drain

/-- Every sealed snapshot: those received, and behind them those still in the channel. -/
def sealed (d : Dispatch S T) : List (PushSnapshot S T) := d.received ++ d.channel.queue

/-- The writes that were buffered while a number was next. -/
def writesFor (d : Dispatch S T) (number : Timestamp) : List (Delta S) :=
  (d.pushed.filter fun x => x.1 = number).map (·.2)

/-- The places of the steps of an advance, and how many they are. -/
def stepsOf (stepCount : UInt32) : List (UInt32 × UInt32) :=
  (List.range stepCount.toNat).map fun i => (UInt32.ofNat i, stepCount)

/-- One write more counts for its number. -/
theorem writesFor_concat {d after : Dispatch S T} {number : Timestamp} {delta : Delta S}
    (t : Timestamp) (h : after.pushed = d.pushed ++ [(number, delta)]) :
    after.writesFor t = d.writesFor t ++ if number = t then [delta] else [] := by
  unfold writesFor
  rw [h, List.filter_append, List.map_append, List.filter_singleton]
  by_cases ht : number = t
  · simp [ht]
  · simp [ht]

variable [Scalar S] [Scalar T] [Timeline S T]

/-- The state after an event. A call under way keeps the buffer to itself until it ends. -/
def perform (d : Dispatch S T) : Event S T → Except Fault (Dispatch S T)
  | .push delta =>
    .ok <| if d.sealing.isNone then
      { d with
        outbox := d.outbox.push delta
        pushed := d.pushed ++ [(d.outbox.nextTimestamp, delta)] }
    else d
  | .begin startTime dt stepCount =>
    .ok <| if d.sealing.isNone then
      { d with sealing := some { startTime, dt, stepCount, sealed := 0 } }
    else d
  | .step =>
    match d.sealing with
    | none => .ok d
    | some s =>
      if s.sealed < s.stepCount.toNat then do
        let (sent, outbox, channel) ← Outbox.sealEach s.startTime s.dt s.stepCount
          [UInt32.ofNat s.sealed] d.outbox d.channel
        match sent with
        | .ok () =>
          return { d with outbox, channel, sealing := some { s with sealed := s.sealed + 1 } }
        | .error _ =>
          return { d with outbox, channel, sealing := none, calls := d.calls ++ [s.stepCount] }
      else .ok { d with sealing := none, calls := d.calls ++ [s.stepCount] }
  | .receive =>
    let (result, channel) := d.channel.receive
    .ok { d with channel, received := d.received ++ result.toOption.join.toList }
  | .drain =>
    let (result, channel) := d.channel.drain
    .ok { d with channel, received := d.received ++ result.toOption.getD [] }

/-- What has become of an empty buffer and a new channel after events in order. -/
def run (events : List (Event S T)) : Except Fault (Dispatch S T) := events.foldlM perform {}

/-! ## What becomes of writes and snapshots -/

/-- Writes and snapshots are numbered alike, and nothing is lost, doubled or out of order. -/
structure Accounted (d : Dispatch S T) : Prop where
  /-- The writes of the received snapshots, of those in the channel, and in the buffer are those
  that were made, in order. -/
  writes : d.sealed.flatMap (·.deltas) ++ d.outbox.deltas = d.pushed.map (·.2)
  /-- Snapshots are numbered from one on without gaps. -/
  numbered : d.sealed.map (·.timestamp.ticks) = List.range' 1 d.sealed.length
  /-- The next number follows the last one. -/
  next : d.outbox.nextTimestamp.ticks = d.sealed.length + 1
  /-- The snapshots of a call follow each other, and none of them is missing. -/
  calls : d.sealed.map (fun q => (q.step, q.stepCount)) = d.calls.flatMap stepsOf ++
    d.sealing.elim [] fun s => (stepsOf s.stepCount).take s.sealed
  /-- Only the first snapshot of a call carries writes. -/
  first : ∀ q ∈ d.sealed, q.step ≠ 0 → q.deltas = []
  /-- A snapshot carries the writes that were made while its number was next. -/
  stamped : ∀ q ∈ d.sealed, q.deltas = d.writesFor q.timestamp
  /-- The buffer holds the writes for the next number. -/
  buffered : d.outbox.deltas = d.writesFor d.outbox.nextTimestamp

/-- What becomes of writes and snapshots. -/
structure Conserved (d : Dispatch S T) : Prop extends d.Accounted where
  /-- A call that nothing comes between leaves what sealing all its snapshots at once does. -/
  undisturbed : d.sealing = none → ∀ startTime dt stepCount,
    (fun after : Dispatch S T => (after.outbox, after.channel)) <$>
      (.begin startTime dt stepCount :: List.replicate (stepCount.toNat + 1) .step).foldlM
        perform d =
    (·.2) <$> d.outbox.sealSteps d.channel startTime dt stepCount
  /-- No snapshot is refused: a call returns the last number. -/
  returned : ∀ startTime dt stepCount,
    Ends (d.outbox.sealSteps d.channel startTime dt stepCount) (· = .timestampOverflow)
      fun (result, after, _) => result = .ok after.sealedTimestamp

/-! ## Calls that nothing comes between -/

/-- Without a call under way there is nothing to seal. -/
theorem foldlM_step_of_idle {d : Dispatch S T} (hidle : d.sealing = none) (count : Nat) :
    (List.replicate count .step).foldlM perform d = .ok d := by
  induction count with
  | zero => rfl
  | succ count ih =>
    have hstep : d.perform .step = .ok d := by
      unfold perform
      rw [hidle]
    rw [List.replicate_succ, List.foldlM_cons, hstep]
    exact ih

/-- The steps of a call seal what it has left to seal. The last one ends the call. -/
theorem foldlM_step {d : Dispatch S T} {s : Sealing S T} (hs : d.sealing = some s) {count : Nat}
    (hcount : s.sealed + count = s.stepCount.toNat) :
    (fun after : Dispatch S T => (after.outbox, after.channel)) <$>
        (List.replicate (count + 1) .step).foldlM perform d =
      (·.2) <$> Outbox.sealEach s.startTime s.dt s.stepCount
        ((List.range' s.sealed count).map UInt32.ofNat) d.outbox d.channel := by
  -- on how many snapshots are left to seal; one more step ends the call
  induction count generalizing d s with
  | zero =>
    have hlast : ¬ s.sealed < s.stepCount.toNat := by omega
    rw [List.replicate_one, List.foldlM_cons, perform, hs]
    dsimp only
    rw [if_neg hlast]
    rfl
  | succ count ih =>
    have hmore : s.sealed < s.stepCount.toNat := by omega
    rw [List.replicate_succ, List.foldlM_cons, perform, hs, List.range'_succ, List.map_cons,
      Outbox.sealEach_cons]
    dsimp only
    rw [if_pos hmore]
    cases Outbox.sealEach s.startTime s.dt s.stepCount [UInt32.ofNat s.sealed] d.outbox
      d.channel with
    | error f => rfl
    | ok result =>
      rcases result with ⟨sent, outbox, channel⟩
      cases sent with
      | ok _ =>
        have hleft : s.sealed + 1 + count = s.stepCount.toNat := by omega
        exact ih (s := { s with sealed := s.sealed + 1 }) (d := { d with
          outbox, channel, sealing := some { s with sealed := s.sealed + 1 } }) rfl hleft
      | error e =>
        exact congrArg _ (foldlM_step_of_idle (d := { d with
          outbox, channel, sealing := none, calls := d.calls ++ [s.stepCount] }) rfl (count + 1))

/-- A call that nothing comes between leaves what sealing all its snapshots at once does. -/
theorem foldlM_seal {d : Dispatch S T} (hidle : d.sealing = none) (startTime : T) (dt : S)
    (stepCount : UInt32) :
    (fun after : Dispatch S T => (after.outbox, after.channel)) <$>
        (.begin startTime dt stepCount :: List.replicate (stepCount.toNat + 1) .step).foldlM
          perform d =
      (·.2) <$> d.outbox.sealSteps d.channel startTime dt stepCount := by
  have hbegin : d.perform (.begin startTime dt stepCount) =
      .ok { d with sealing := some { startTime, dt, stepCount, sealed := 0 } } := by
    unfold perform
    rw [hidle]
    rfl
  rw [List.foldlM_cons, hbegin]
  refine (foldlM_step rfl (Nat.zero_add _)).trans ?_
  unfold Outbox.sealSteps
  rw [List.range_eq_range']
  dsimp only
  cases Outbox.sealEach startTime dt stepCount
    ((List.range' 0 stepCount.toNat).map UInt32.ofNat) d.outbox d.channel with
  | error f => rfl
  | ok result => rfl

/-! ## The invariant -/

/-- Besides, no snapshot will be refused, and a call under way has emptied the buffer with its first
snapshot. -/
structure Steady (d : Dispatch S T) : Prop extends d.Accounted where
  ordered : d.channel.Ordered d.outbox.sealedTimestamp
  reached : ∀ x ∈ d.pushed, x.1 ≤ d.outbox.nextTimestamp
  sealing : ∀ s ∈ d.sealing, s.sealed ≤ s.stepCount.toNat ∧ (0 < s.sealed → d.outbox.deltas = [])

omit [Scalar S] [Scalar T] [Timeline S T] in
theorem steady_start : ({} : Dispatch S T).Steady where
  writes := rfl
  numbered := rfl
  next := rfl
  calls := rfl
  first := fun _ hq => absurd hq List.not_mem_nil
  stamped := fun _ hq => absurd hq List.not_mem_nil
  buffered := rfl
  ordered := Channel.ordered_empty _
  reached := fun _ hx => absurd hx List.not_mem_nil
  sealing := fun _ hs => absurd hs (Option.not_mem_none _)

namespace Steady

variable {d : Dispatch S T}

omit [Scalar S] [Scalar T] [Timeline S T]

/-- Sealed snapshots have numbers before the next one. -/
theorem lt_next (h : d.Steady) {q : PushSnapshot S T} (hq : q ∈ d.sealed) :
    q.timestamp < d.outbox.nextTimestamp := by
  have hmem : q.timestamp.ticks ∈ d.sealed.map (·.timestamp.ticks) :=
    List.mem_map_of_mem hq
  rw [h.numbered, List.mem_range'_1] at hmem
  rw [Timestamp.lt_def, h.next]
  omega

theorem next_pos (h : d.Steady) : 0 < d.outbox.nextTimestamp.ticks := by
  rw [h.next]
  exact Nat.succ_pos _

/-- A write is buffered for the next number. -/
theorem push (h : d.Steady) (hidle : d.sealing = none) (delta : Delta S) :
    Steady { d with
      outbox := d.outbox.push delta
      pushed := d.pushed ++ [(d.outbox.nextTimestamp, delta)] } := by
  refine { h with
    writes := ?writes, stamped := ?stamped, buffered := ?buffered, reached := ?reached
    sealing := ?sealing }
  case writes =>
    show d.sealed.flatMap _ ++ (d.outbox.deltas ++ [delta]) = (d.pushed ++ _).map _
    rw [← List.append_assoc, h.writes, List.map_append]
    rfl
  case stamped =>
    intro q hq
    have hother : d.outbox.nextTimestamp ≠ q.timestamp := (h.lt_next hq).ne'
    refine Eq.trans ?_ (writesFor_concat (d := d) _ rfl).symm
    rw [h.stamped q hq, if_neg hother, List.append_nil]
  case buffered =>
    show d.outbox.deltas ++ [delta] = _
    rw [h.buffered]
    refine Eq.trans ?_ (writesFor_concat (d := d) _ rfl).symm
    exact congrArg _ (if_pos rfl).symm
  case reached =>
    intro x hx
    rcases List.mem_append.mp hx with hx | hx
    · exact h.reached x hx
    · rw [List.mem_singleton.mp hx]
      exact le_refl d.outbox.nextTimestamp
  case sealing =>
    intro s hs
    rw [show d.sealing = some s from hs] at hidle
    cases hidle

/-- Receiving moves snapshots from the channel to those received. -/
theorem receive (h : d.Steady) {channel : Channel (PushSnapshot S T)}
    {received : List (PushSnapshot S T)}
    (hordered : channel.Ordered d.outbox.sealedTimestamp)
    (hsealed : received ++ channel.queue = d.sealed) :
    Steady { d with channel, received } := by
  have hsame : sealed { d with channel, received } = d.sealed := hsealed
  have haccounted : Accounted { d with channel, received } := by
    constructor
    case buffered => exact h.buffered
    all_goals rw [hsame]
    exacts [h.writes, h.numbered, h.next, h.calls, h.first, h.stamped]
  exact { haccounted with ordered := hordered, reached := h.reached, sealing := h.sealing }

/-- The call under way has sealed its next snapshot. The buffer is empty from the first one on. -/
theorem sealNext (h : d.Steady) [Scalar S] [Scalar T] [Timeline S T] {s : Sealing S T}
    (hs : d.sealing = some s) (hmore : s.sealed < s.stepCount.toNat) {outbox : Outbox S}
    {channel : Channel (PushSnapshot S T)}
    (houtbox : outbox = ⟨(d.outbox.taken (UInt32.ofNat s.sealed)).deltas,
      ⟨d.outbox.nextTimestamp.ticks + 1⟩⟩)
    (hqueue : channel.queue = d.channel.queue ++
      [d.outbox.snapshot s.startTime s.dt s.stepCount (UInt32.ofNat s.sealed)])
    (hordered : channel.Ordered outbox.sealedTimestamp) :
    Steady { d with outbox, channel, sealing := some { s with sealed := s.sealed + 1 } } := by
  -- whichever snapshot it is, it carries what is in the buffer and leaves nothing
  have hempty : UInt32.ofNat s.sealed ≠ 0 → d.outbox.deltas = [] := fun hne =>
    (h.sealing s hs).2 (Nat.pos_of_ne_zero fun hzero => hne ((Outbox.ofNat_eq_zero hmore).mpr hzero))
  obtain ⟨q, hq⟩ : ∃ q, q = d.outbox.snapshot s.startTime s.dt s.stepCount
    (UInt32.ofNat s.sealed) := ⟨_, rfl⟩
  have hdeltas := Outbox.deltas_snapshot hempty s.startTime s.dt s.stepCount
  have htaken : q.deltas = d.outbox.deltas := by
    rw [hq]
    exact hdeltas.1
  have hleft : outbox.deltas = [] := by
    rw [houtbox]
    exact hdeltas.2
  have hnumber : q.timestamp = d.outbox.nextTimestamp := by rw [hq]; rfl
  have hnext : outbox.nextTimestamp.ticks = d.outbox.nextTimestamp.ticks + 1 := by rw [houtbox]
  have hsealed : sealed { d with
      outbox, channel, sealing := some { s with sealed := s.sealed + 1 } } = d.sealed ++ [q] := by
    unfold sealed
    rw [hqueue, ← hq, List.append_assoc]
  refine {
    writes := ?writes, numbered := ?numbered, next := ?next, calls := ?calls, first := ?first
    stamped := ?stamped, buffered := ?buffered, ordered := hordered, reached := ?reached
    sealing := ?sealing }
  case writes =>
    rw [hsealed, List.flatMap_append, List.flatMap_singleton, htaken]
    dsimp only
    rw [hleft, List.append_nil]
    exact h.writes
  case numbered =>
    rw [hsealed, List.map_append, h.numbered, List.length_append, List.length_singleton,
      List.range'_concat, List.map_singleton, hnumber, h.next, Nat.one_mul, Nat.add_comm 1]
  case next =>
    rw [hsealed, List.length_append, List.length_singleton]
    dsimp only
    rw [hnext, h.next]
  case calls =>
    have hstep : (stepsOf s.stepCount)[s.sealed]? =
        some (UInt32.ofNat s.sealed, s.stepCount) := by
      unfold stepsOf
      rw [List.getElem?_map, List.getElem?_range hmore, Option.map_some]
    rw [hsealed, List.map_append, h.calls, hs, List.map_singleton, List.append_assoc]
    dsimp only [Option.elim_some]
    rw [List.take_add_one, hstep, hq]
    rfl
  case first =>
    intro q' hq'
    rw [hsealed] at hq'
    rcases List.mem_append.mp hq' with hq' | hq'
    · exact h.first q' hq'
    · rw [List.mem_singleton.mp hq', hq]
      exact fun hne => if_neg hne
  case stamped =>
    intro q' hq'
    rw [hsealed] at hq'
    rcases List.mem_append.mp hq' with hq' | hq'
    · exact h.stamped q' hq'
    · rw [List.mem_singleton.mp hq', htaken, hnumber]
      exact h.buffered
  case buffered =>
    unfold writesFor
    dsimp only
    rw [hleft, List.filter_eq_nil_iff.mpr, List.map_nil]
    -- nothing has been written for the new number yet
    intro x hx heq
    have hle := h.reached x hx
    rw [of_decide_eq_true heq, Timestamp.le_def, hnext] at hle
    omega
  case reached =>
    intro x hx
    refine (h.reached x hx).trans ?_
    rw [Timestamp.le_def, hnext]
    exact Nat.le_succ _
  case sealing =>
    rintro s' ⟨⟩
    exact ⟨hmore, fun _ => hleft⟩

/-- A call begins before its first snapshot. -/
theorem begin (h : d.Steady) (hidle : d.sealing = none) (startTime : T) (dt : S)
    (stepCount : UInt32) :
    Steady { d with sealing := some { startTime, dt, stepCount, sealed := 0 } } := by
  refine { h with calls := ?calls, sealing := ?sealing }
  case calls =>
    have hcalls := h.calls
    rw [hidle] at hcalls
    exact hcalls
  case sealing =>
    rintro s ⟨⟩
    exact ⟨Nat.zero_le _, fun hpos => absurd hpos (Nat.lt_irrefl 0)⟩

/-- A call ends when it has sealed all its snapshots. -/
theorem finish (h : d.Steady) {s : Sealing S T} (hs : d.sealing = some s)
    (hlast : ¬ s.sealed < s.stepCount.toNat) :
    Steady { d with sealing := none, calls := d.calls ++ [s.stepCount] } := by
  refine { h with calls := ?calls, sealing := ?sealing }
  case calls =>
    have hall : (stepsOf s.stepCount).length ≤ s.sealed := by
      unfold stepsOf
      rw [List.length_map, List.length_range]
      omega
    have hcalls := h.calls
    rw [hs, Option.elim_some, List.take_of_length_le hall] at hcalls
    dsimp only
    rw [Option.elim_none, List.append_nil, List.flatMap_append, List.flatMap_singleton]
    exact hcalls
  case sealing =>
    rintro s ⟨⟩

variable [Scalar S] [Scalar T] [Timeline S T]

/-- Every event leaves it so, and seals one snapshot at most. -/
theorem perform (h : d.Steady) (event : Event S T) :
    Ends (d.perform event)
      (fun f => f = .timestampOverflow ∧ ¬ d.outbox.nextTimestamp < .largest)
      fun after => after.Steady ∧ after.sealed.length ≤ d.sealed.length + 1 := by
  unfold Dispatch.perform
  cases event with
  | push delta =>
    dsimp only
    split
    case isFalse => exact .ok ⟨h, Nat.le_succ _⟩
    case isTrue hidle =>
      exact .ok ⟨h.push (Option.isNone_iff_eq_none.mp hidle) delta, Nat.le_succ _⟩
  | begin startTime dt stepCount =>
    dsimp only
    split
    case isFalse => exact .ok ⟨h, Nat.le_succ _⟩
    case isTrue hidle =>
      exact .ok ⟨h.begin (Option.isNone_iff_eq_none.mp hidle) startTime dt stepCount, Nat.le_succ _⟩
  | step =>
    dsimp only
    cases hs : d.sealing with
    | none => exact .ok ⟨h, Nat.le_succ _⟩
    | some s =>
      dsimp only
      split
      case isFalse hlast => exact .ok ⟨h.finish hs hlast, Nat.le_succ _⟩
      -- this is where a number is taken, and the only fault is that none is left
      case isTrue hmore =>
        refine (Outbox.sealEach_singleton_ends h.ordered h.next_pos s.startTime s.dt s.stepCount
          (UInt32.ofNat s.sealed)).bind ?_
        rintro ⟨sent, outbox, channel⟩ ⟨rfl, houtbox, hqueue, _, hordered⟩
        refine .pure ⟨h.sealNext hs hmore houtbox hqueue hordered, ?_⟩
        unfold sealed
        dsimp only
        rw [hqueue, ← List.append_assoc, List.length_append]
        exact Nat.le_refl _
  | receive =>
    cases hqueue : d.channel.queue with
    | nil =>
      dsimp only
      rw [h.ordered.receive_nil hqueue]
      have hsame : d.received ++ [] ++ d.channel.queue = d.sealed := by
        rw [List.append_nil]
        rfl
      exact .ok ⟨h.receive h.ordered hsame,
        Nat.le_succ_of_le (Nat.le_of_eq (congrArg List.length hsame))⟩
    | cons q rest =>
      rcases h.ordered.receive hqueue with ⟨channel, hreceive, hrest, _, hordered⟩
      dsimp only
      rw [hreceive]
      have hsame : d.received ++ [q] ++ channel.queue = d.sealed := by
        unfold sealed
        rw [hrest, hqueue, List.append_assoc]
        rfl
      exact .ok ⟨h.receive hordered hsame,
        Nat.le_succ_of_le (Nat.le_of_eq (congrArg List.length hsame))⟩
  | drain =>
    rcases h.ordered.drain with ⟨channel, hdrain, hrest, hordered, _⟩
    dsimp only
    rw [hdrain]
    have hsame : d.received ++ d.channel.queue ++ channel.queue = d.sealed := by
      rw [hrest, List.append_nil]
      rfl
    exact .ok ⟨h.receive hordered hsame,
      Nat.le_succ_of_le (Nat.le_of_eq (congrArg List.length hsame))⟩

theorem conserved (h : d.Steady) : d.Conserved := by
  refine { h with undisturbed := foldlM_seal, returned := ?returned }
  intro startTime dt stepCount
  exact (Outbox.sealSteps_ends h.ordered h.next_pos startTime dt stepCount).weaken
    fun _ hends => hends.1

end Steady

/-- Whenever the other side receives, every write arrives once and in order, with the snapshot whose
number was next when it was made. Only after the largest number there is nothing to go on with. -/
theorem run_conserved (events : List (Event S T)) :
    Ends (run events)
      (fun f => f = .timestampOverflow ∧ Timestamp.largest.ticks ≤ events.length)
      Conserved := by
  unfold run
  refine (Ends.foldlM (I := fun done d => d.Steady ∧ d.sealed.length ≤ done.length)
    ⟨steady_start, Nat.le_refl 0⟩ ?_).weaken fun d h => h.1.conserved
  rintro done event rest d hevents ⟨h, hlength⟩
  refine (h.perform event).mono ?_ ?_
  · rintro f ⟨rfl, hlast⟩
    refine ⟨rfl, ?_⟩
    rw [Timestamp.lt_def, h.next] at hlast
    rw [hevents, List.length_append, List.length_cons]
    omega
  · rintro after ⟨hafter, hmore⟩
    refine ⟨hafter, ?_⟩
    rw [List.length_append, List.length_singleton]
    exact Nat.le_trans hmore (Nat.succ_le_succ hlength)

end Dispatch

end TetheredParticles
