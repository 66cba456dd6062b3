import TetheredParticles.Proofs.Snapshot.Channel
/-!
# When sealing is refused

A call seals the snapshots of an advance one by one, and the first refused one ends it. The receiving
half may act before each of them. What was accepted before is numbered without a gap and carries
all writes; but the buffer is emptied when its first snapshot is made, so that the writes are gone
if it is the first one that is refused.

* `Channel.Act`, `Outbox.sealAmid` — sealing while the receiving half acts.
* `Outbox.sealAmid_quiet` — if it does not act, this is sealing all at once.
* `Outbox.Used` — the buffers and channels that come from new ones.
* `Outbox.Refused`, `Outbox.sealSteps_refused` — what a refused call leaves behind.
-/

namespace TetheredParticles

/-! ## The receiving half -/

namespace Channel

/-- What the receiving half may do. -/
inductive Act where
  | receive
  | dropReceiver
deriving DecidableEq

variable {α : Type} [Stamped α]

/-- The channel after something that the receiving half has done. -/
def act (c : Channel α) : Act → Channel α
  | .receive => c.receive.2
  | .dropReceiver => c.dropReceiver

/-- The sending half does not notice. -/
theorem lastSent_act (c : Channel α) (a : Act) : (c.act a).lastSent = c.lastSent := by
  cases a with
  | dropReceiver => rfl
  | receive =>
    change c.receive.2.lastSent = _
    unfold Channel.receive
    split
    · dsimp only
      split
      · rfl
      · rfl
    · rfl

theorem lastSent_acts (c : Channel α) (acts : List Act) :
    (acts.foldl act c).lastSent = c.lastSent := by
  induction acts generalizing c with
  | nil => rfl
  | cons a rest ih => rw [List.foldl_cons, ih, lastSent_act]

end Channel

/-! ## Sealing amid acts -/

namespace Outbox

variable {S T : Type} [Scalar S] [Scalar T] [Timeline S T]

/-- Seals the snapshots of the given steps in order, where the receiving half acts before each of
them, and collects those that are accepted. -/
def sealEachAmid (startTime : T) (dt : S) (count : UInt32) :
    List (UInt32 × List Channel.Act) → Outbox S → Channel (PushSnapshot S T) →
      Except Fault (Except ChannelError Unit × Outbox S × Channel (PushSnapshot S T) ×
        List (PushSnapshot S T))
  | [], o, channel => .ok (.ok (), o, channel, [])
  | (step, acts) :: rest, o, channel => do
    let (sent, next, inbox) ← sealEach startTime dt count [step] o (acts.foldl Channel.act channel)
    match sent with
    | .error e => return (.error e, next, inbox, [])
    | .ok () =>
      let (sent, last, inbox, accepted) ← sealEachAmid startTime dt count rest next inbox
      return (sent, last, inbox, o.snapshot startTime dt count step :: accepted)

/-- Seals one snapshot per step, where the receiving half acts before each of them. -/
def sealAmid (o : Outbox S) (channel : Channel (PushSnapshot S T)) (startTime : T) (dt : S)
    (steps : UInt32) (acts : Nat → List Channel.Act) :
    Except Fault (Except ChannelError Timestamp × Outbox S × Channel (PushSnapshot S T) ×
      List (PushSnapshot S T)) := do
  let (sent, o, channel, accepted) ← sealEachAmid startTime dt steps
    ((List.range steps.toNat).map fun i => (UInt32.ofNat i, acts i)) o channel
  return (sent.map fun _ => o.sealedTimestamp, o, channel, accepted)

theorem sealEachAmid_quiet (startTime : T) (dt : S) (count : UInt32) (steps : List UInt32)
    (o : Outbox S) (channel : Channel (PushSnapshot S T)) :
    (fun r => (r.1, r.2.1, r.2.2.1)) <$>
        sealEachAmid startTime dt count (steps.map fun step => (step, [])) o channel =
      sealEach startTime dt count steps o channel := by
  induction steps generalizing o channel with
  | nil => rfl
  | cons step rest ih =>
    rw [sealEach_cons, List.map_cons, sealEachAmid, List.foldl_nil]
    cases sealEach startTime dt count [step] o channel with
    | error f => rfl
    | ok result =>
      rcases result with ⟨sent, next, inbox⟩
      cases sent with
      | error e => rfl
      | ok _ =>
        refine Eq.trans ?_ (ih next inbox)
        dsimp only [bind, Except.bind]
        cases sealEachAmid startTime dt count (rest.map fun step => (step, [])) next inbox with
        | error f => rfl
        | ok result => rfl

/-- If the receiving half does nothing meanwhile, all snapshots are sealed at once. -/
theorem sealAmid_quiet (o : Outbox S) (channel : Channel (PushSnapshot S T)) (startTime : T)
    (dt : S) (steps : UInt32) :
    (fun r => (r.1, r.2.1, r.2.2.1)) <$> o.sealAmid channel startTime dt steps (fun _ => []) =
      o.sealSteps channel startTime dt steps := by
  have hquiet := sealEachAmid_quiet startTime dt steps
    ((List.range steps.toNat).map UInt32.ofNat) o channel
  rw [List.map_map] at hquiet
  unfold sealAmid sealSteps
  rw [← hquiet]
  change _ <$> (sealEachAmid startTime dt steps ((List.range steps.toNat).map
    ((fun step => (step, [])) ∘ UInt32.ofNat)) o channel >>= _) = _
  cases sealEachAmid startTime dt steps ((List.range steps.toNat).map
    ((fun step => (step, [])) ∘ UInt32.ofNat)) o channel with
  | error f => rfl
  | ok result => rfl

/-- The first snapshot is refused, and then only the buffer has been taken; or it is sent and
counted, and the others follow. -/
theorem sealEachAmid_cons_cases {startTime : T} {dt : S} {count step : UInt32}
    {acts : List Channel.Act} {rest : List (UInt32 × List Channel.Act)} {o after : Outbox S}
    {channel inbox : Channel (PushSnapshot S T)} {sent : Except ChannelError Unit}
    {accepted : List (PushSnapshot S T)}
    (h : sealEachAmid startTime dt count ((step, acts) :: rest) o channel =
      .ok (sent, after, inbox, accepted)) :
    (∃ e, (acts.foldl Channel.act channel).send (o.snapshot startTime dt count step) = .error e ∧
      sent = .error e ∧ after = o.taken step ∧ inbox = acts.foldl Channel.act channel ∧
      accepted = []) ∨
    ∃ middle others,
      (acts.foldl Channel.act channel).send (o.snapshot startTime dt count step) = .ok middle ∧
      sealEachAmid startTime dt count rest ⟨(o.taken step).deltas, ⟨o.nextTimestamp.ticks + 1⟩⟩
        middle = .ok (sent, after, inbox, others) ∧
      accepted = o.snapshot startTime dt count step :: others := by
  rw [sealEachAmid, sealEach] at h
  dsimp only at h
  cases hsend : (acts.foldl Channel.act channel).send (o.snapshot startTime dt count step) with
  | error e =>
    rw [hsend] at h
    cases h
    exact .inl ⟨e, rfl, rfl, rfl, rfl, rfl⟩
  | ok middle =>
    rw [hsend, nextTimestamp_taken] at h
    unfold Timestamp.next at h
    dsimp only at h
    split at h
    case isFalse => cases h
    case isTrue =>
      dsimp only [bind, Except.bind, sealEach] at h
      split at h
      case h_1 => cases h
      case h_2 result hrest =>
        cases h
        exact .inr ⟨middle, _, rfl, hrest, rfl⟩

/-! ## What a call does until it ends -/

/-- How far a call has come when it ends, be it refused or not. -/
structure Progress (o : Outbox S) (channel : Channel (PushSnapshot S T)) (after : Outbox S)
    (inbox : Channel (PushSnapshot S T)) (accepted : List (PushSnapshot S T)) : Prop where
  /-- The accepted snapshots are numbered from the next number on. -/
  numbered : Numbered o.nextTimestamp accepted
  /-- Each of them has been counted. -/
  next : after.nextTimestamp.ticks = o.nextTimestamp.ticks + accepted.length
  /-- The channel remembers the last one. -/
  sent : inbox.lastSent = (accepted.getLast?.map (·.timestamp)).or channel.lastSent
  /-- The first one carries all writes. -/
  carried : ∀ first rest, accepted = first :: rest →
    first.deltas = o.deltas ∧ ∀ q ∈ rest, q.deltas = []

namespace Progress

variable {o next after : Outbox S} {channel inbox last : Channel (PushSnapshot S T)}
  {accepted : List (PushSnapshot S T)}

omit [Scalar S] [Scalar T] [Timeline S T]

/-- Nothing has been accepted. -/
theorem nil (hnext : after.nextTimestamp = o.nextTimestamp)
    (hsent : inbox.lastSent = channel.lastSent) : Progress o channel after inbox [] where
  numbered := trivial
  next := congrArg Timestamp.ticks hnext
  sent := hsent
  carried := by rintro first rest ⟨⟩

/-- One snapshot has been accepted before the others. -/
theorem cons (h : Progress next inbox after last accepted) {q : PushSnapshot S T}
    (htime : q.timestamp = o.nextTimestamp) (hdeltas : q.deltas = o.deltas)
    (hnext : next = ⟨[], ⟨o.nextTimestamp.ticks + 1⟩⟩) (hsent : inbox.lastSent = some q.timestamp) :
    Progress o channel after last (q :: accepted) where
  numbered := by
    refine ⟨htime, ?_⟩
    have hnumbered := h.numbered
    rw [hnext] at hnumbered
    exact hnumbered
  next := by
    rw [h.next, hnext, List.length_cons]
    dsimp only
    omega
  sent := by
    rw [h.sent, hsent, List.getLast?_cons]
    cases accepted.getLast? with
    | none => rfl
    | some q => rfl
  carried := by
    rintro first rest ⟨⟩
    refine ⟨hdeltas, ?_⟩
    cases accepted with
    | nil => exact fun q hq => absurd hq List.not_mem_nil
    | cons second rest =>
      -- the buffer was empty when the second snapshot was made
      have hrest := h.carried second rest rfl
      rw [hnext] at hrest
      exact List.forall_mem_cons.mpr hrest

end Progress

/-- However the receiving half acts, a call makes progress until it ends: when all snapshots have
been accepted, or with the first refused one. -/
theorem sealEachAmid_progress {startTime : T} {dt : S} {count : UInt32}
    {steps : List (UInt32 × List Channel.Act)} {o after : Outbox S}
    {channel inbox : Channel (PushSnapshot S T)} {sent : Except ChannelError Unit}
    {accepted : List (PushSnapshot S T)}
    (hfirst : ∀ x ∈ steps.head?, x.1 ≠ 0 → o.deltas = [])
    (h : sealEachAmid startTime dt count steps o channel = .ok (sent, after, inbox, accepted)) :
    Progress o channel after inbox accepted ∧ (steps ≠ [] → after.deltas = []) ∧
      (sent = .ok () ∧ accepted.length = steps.length ∨
        (∃ e, sent = .error e) ∧ accepted.length < steps.length) := by
  induction steps generalizing o channel accepted with
  | nil =>
    cases h
    exact ⟨.nil rfl rfl, fun hne => absurd rfl hne, .inl ⟨rfl, rfl⟩⟩
  | cons x rest ih =>
    rcases x with ⟨step, acts⟩
    rcases deltas_snapshot (hfirst (step, acts) rfl) startTime dt count with ⟨hcarried, htaken⟩
    rcases sealEachAmid_cons_cases h with
      ⟨e, _, rfl, rfl, rfl, rfl⟩ | ⟨middle, others, hsend, hrest, rfl⟩
    · exact ⟨.nil (nextTimestamp_taken o step) (channel.lastSent_acts acts), fun _ => htaken,
        .inr ⟨⟨e, rfl⟩, Nat.succ_pos _⟩⟩
    · -- the others find the buffer empty, whatever their steps
      rcases Channel.send_eq_ok.mp hsend with ⟨_, _, rfl⟩
      rw [htaken] at hrest
      rcases ih (fun _ _ _ => rfl) hrest with ⟨hprogress, hdeltas, hend⟩
      refine ⟨hprogress.cons rfl hcarried rfl rfl, fun _ => ?_,
        hend.imp (And.imp_right (congrArg (· + 1))) (And.imp_right Nat.succ_lt_succ)⟩
      cases rest with
      | nil =>
        cases hrest
        rfl
      | cons y rest => exact hdeltas (List.cons_ne_nil y rest)

/-! ## Calls that nothing comes between -/

/-- The next snapshot will be accepted. -/
def Ready (o : Outbox S) (channel : Channel (PushSnapshot S T)) : Prop :=
  channel.hasReceiver = true ∧ ∀ l ∈ channel.lastSent, l < o.nextTimestamp

/-- Once a snapshot can be sent, so can all that follow it. -/
theorem sealEachAmid_ready {startTime : T} {dt : S} {count : UInt32}
    {steps : List (UInt32 × List Channel.Act)} {o after : Outbox S}
    {channel inbox : Channel (PushSnapshot S T)} {sent : Except ChannelError Unit}
    {accepted : List (PushSnapshot S T)} (hready : o.Ready channel)
    (hquiet : ∀ x ∈ steps, x.2 = [])
    (h : sealEachAmid startTime dt count steps o channel = .ok (sent, after, inbox, accepted)) :
    sent = .ok () := by
  induction steps generalizing o channel accepted with
  | nil =>
    cases h
    rfl
  | cons x rest ih =>
    rcases x with ⟨step, acts⟩
    cases (List.forall_mem_cons.mp hquiet).1
    have haccepts : channel.send (o.snapshot startTime dt count step) = _ :=
      Channel.send_eq_ok.mpr ⟨hready.1, hready.2, rfl⟩
    rcases sealEachAmid_cons_cases h with ⟨e, hrefused, _⟩ | ⟨middle, others, hsend, hrest, _⟩
    · rw [List.foldl_nil, haccepts] at hrefused
      cases hrefused
    · rw [List.foldl_nil, haccepts] at hsend
      cases hsend
      refine ih ?_ (List.forall_mem_cons.mp hquiet).2 hrest
      refine ⟨hready.1, ?_⟩
      rintro l ⟨⟩
      exact Nat.lt_succ_self _

/-- Without acts of the receiving half, only the first snapshot can be refused. -/
theorem sealEachAmid_undisturbed {startTime : T} {dt : S} {count : UInt32}
    {steps : List (UInt32 × List Channel.Act)} {o after : Outbox S}
    {channel inbox : Channel (PushSnapshot S T)} {e : ChannelError}
    {accepted : List (PushSnapshot S T)} (hquiet : ∀ x ∈ steps, x.2 = [])
    (h : sealEachAmid startTime dt count steps o channel =
      .ok (.error e, after, inbox, accepted)) : accepted = [] ∧ inbox = channel := by
  cases steps with
  | nil => cases h
  | cons x rest =>
    rcases x with ⟨step, acts⟩
    cases (List.forall_mem_cons.mp hquiet).1
    rcases sealEachAmid_cons_cases h with ⟨_, _, _, _, rfl, rfl⟩ | ⟨_, _, hsend, _⟩
    · exact ⟨rfl, rfl⟩
    · -- the first snapshot was accepted, so all of them are
      rcases Channel.send_eq_ok.mp hsend with ⟨hreceiver, hfollows, _⟩
      cases sealEachAmid_ready ⟨hreceiver, hfollows⟩ hquiet h

/-! ## Refused calls -/

/-- The next number is one more than that of the last snapshot that was accepted. -/
def Follows (o : Outbox S) (channel : Channel (PushSnapshot S T)) : Prop :=
  o.nextTimestamp.ticks = channel.lastSent.elim 0 (·.ticks) + 1

/-- The buffers and channels that come from new ones, whatever the two halves do. -/
inductive Used : Outbox S → Channel (PushSnapshot S T) → Prop where
  | fresh : Used .empty .empty
  | push {o : Outbox S} {channel : Channel (PushSnapshot S T)} (h : Used o channel)
      (delta : Delta S) : Used (o.push delta) channel
  | act {o : Outbox S} {channel : Channel (PushSnapshot S T)} (h : Used o channel)
      (a : Channel.Act) : Used o (channel.act a)
  | ended {o after : Outbox S} {channel inbox : Channel (PushSnapshot S T)}
      {accepted : List (PushSnapshot S T)} (h : Used o channel) {startTime : T} {dt : S}
      {steps : UInt32} {acts : Nat → List Channel.Act} {sent : Except ChannelError Timestamp}
      (hseal : o.sealAmid channel startTime dt steps acts = .ok (sent, after, inbox, accepted)) :
      Used after inbox

/-- What `sealAmid` gives comes from sealing the snapshots one by one. -/
theorem exists_of_sealAmid {startTime : T} {dt : S} {steps : UInt32}
    {acts : Nat → List Channel.Act} {o after : Outbox S}
    {channel inbox : Channel (PushSnapshot S T)} {result : Except ChannelError Timestamp}
    {accepted : List (PushSnapshot S T)}
    (h : o.sealAmid channel startTime dt steps acts = .ok (result, after, inbox, accepted)) :
    ∃ sent, result = sent.map (fun _ => after.sealedTimestamp) ∧
      sealEachAmid startTime dt steps
        ((List.range steps.toNat).map fun i => (UInt32.ofNat i, acts i)) o channel =
          .ok (sent, after, inbox, accepted) := by
  unfold sealAmid at h
  cases hall : sealEachAmid startTime dt steps
      ((List.range steps.toNat).map fun i => (UInt32.ofNat i, acts i)) o channel with
  | error f =>
    rw [hall] at h
    cases h
  | ok all =>
    rw [hall] at h
    cases h
    exact ⟨_, rfl, rfl⟩

/-- However a call ends, it has made progress, and unless it was asked for no steps, the buffer is
empty. -/
theorem sealAmid_progress {startTime : T} {dt : S} {steps : UInt32}
    {acts : Nat → List Channel.Act} {o after : Outbox S}
    {channel inbox : Channel (PushSnapshot S T)} {result : Except ChannelError Timestamp}
    {accepted : List (PushSnapshot S T)}
    (h : o.sealAmid channel startTime dt steps acts = .ok (result, after, inbox, accepted)) :
    Progress o channel after inbox accepted ∧ (steps ≠ 0 → after.deltas = []) ∧
      ∀ e, result = .error e → accepted.length < steps.toNat := by
  rcases exists_of_sealAmid h with ⟨sent, hresult, hall⟩
  have hfirst : ∀ x ∈ ((List.range steps.toNat).map fun i =>
      (UInt32.ofNat i, acts i)).head?, x.1 ≠ 0 → o.deltas = [] := by
    cases steps.toNat with
    | zero => simp
    | succ n =>
      rw [List.range_succ_eq_map, List.map_cons, List.head?_cons]
      rintro _ ⟨⟩ hne
      exact absurd rfl hne
  rcases sealEachAmid_progress hfirst hall with ⟨hprogress, hempty, hend⟩
  rw [List.length_map, List.length_range] at hend
  refine ⟨hprogress, fun hsteps => hempty ?_, ?_⟩
  · have hpos : steps.toNat ≠ 0 := fun hzero => hsteps (UInt32.toNat_inj.mp hzero)
    simpa using hpos
  · rintro e rfl
    rcases hend with ⟨rfl, _⟩ | ⟨_, hlt⟩
    · cases hresult
    · exact hlt

section

omit [Scalar S] [Scalar T] [Timeline S T]

/-- Snapshots that are numbered one after the other end with the number that their count gives. -/
theorem Numbered.last {accepted : List (PushSnapshot S T)} {start : Timestamp}
    (h : Numbered start accepted) {q : PushSnapshot S T} (hq : q ∈ accepted.getLast?) :
    q.timestamp.ticks + 1 = start.ticks + accepted.length := by
  induction accepted generalizing start with
  | nil => cases hq
  | cons first rest ih =>
    rw [List.length_cons]
    cases rest with
    | nil =>
      rw [List.getLast?_singleton] at hq
      cases hq
      rw [h.1]
      rfl
    | cons second rest =>
      have hlast := ih h.2 hq
      dsimp only at hlast
      omega

theorem Progress.last {o after : Outbox S} {channel inbox : Channel (PushSnapshot S T)}
    {accepted : List (PushSnapshot S T)} (h : Progress o channel after inbox accepted)
    {q : PushSnapshot S T} (hq : q ∈ accepted.getLast?) :
    after.nextTimestamp.ticks = q.timestamp.ticks + 1 := by
  rw [h.next, h.numbered.last hq]

theorem Progress.follows {o after : Outbox S} {channel inbox : Channel (PushSnapshot S T)}
    {accepted : List (PushSnapshot S T)} (h : Progress o channel after inbox accepted)
    (hfollows : o.Follows channel) : after.Follows inbox := by
  unfold Follows at hfollows ⊢
  rw [h.sent]
  cases hlast : accepted.getLast? with
  | none =>
    rw [List.getLast?_eq_none_iff.mp hlast] at h
    -- nothing was accepted, so neither number has changed
    rw [Option.map_none, Option.none_or, ← hfollows]
    exact h.next
  | some q => exact h.last hlast

/-- The writes are all accepted if something was accepted. -/
theorem Progress.flatMap_deltas {o after : Outbox S} {channel inbox : Channel (PushSnapshot S T)}
    {accepted : List (PushSnapshot S T)} (h : Progress o channel after inbox accepted) :
    accepted.flatMap (·.deltas) = if accepted = [] then [] else o.deltas := by
  cases accepted with
  | nil => rfl
  | cons first rest =>
    rcases h.carried first rest rfl with ⟨hfirst, hrest⟩
    rw [List.flatMap_cons, hfirst, List.flatMap_eq_nil_iff.mpr hrest, List.append_nil,
      if_neg (List.cons_ne_nil _ _)]

end

/-- Whatever the two halves do, the next number follows the last one that was accepted. -/
theorem Used.follows {o : Outbox S} {channel : Channel (PushSnapshot S T)} (h : Used o channel) :
    o.Follows channel := by
  induction h with
  | fresh => rfl
  | push _ _ ih => exact ih
  | act _ a ih =>
    unfold Follows
    rw [Channel.lastSent_act]
    exact ih
  | ended _ hseal ih => exact (sealAmid_progress hseal).1.follows ih

/-- What a refused call leaves behind, when `accepted` is what was accepted before. -/
structure Refused (o : Outbox S) (channel : Channel (PushSnapshot S T)) (steps : UInt32)
    (acts : Nat → List Channel.Act) (after : Outbox S) (inbox : Channel (PushSnapshot S T))
    (accepted : List (PushSnapshot S T)) : Prop
    extends Progress o channel after inbox accepted where
  /-- Some snapshot is missing. -/
  short : accepted.length < steps.toNat
  /-- The next number follows the last one that this call has got accepted. -/
  last : ∀ q ∈ accepted.getLast?, after.nextTimestamp.ticks = q.timestamp.ticks + 1
  /-- It follows the last one that any call has got accepted. -/
  follows : Used o channel → after.Follows inbox
  /-- Nothing is buffered any more. -/
  emptied : after.deltas = []
  /-- The writes are lost exactly if there were any and nothing was accepted. -/
  conserved : accepted.flatMap (·.deltas) ++ after.deltas = o.deltas ↔
    accepted ≠ [] ∨ o.deltas = []
  /-- Unless the receiving half acts meanwhile, it is the first snapshot that is refused, and the
  channel is as it was. -/
  undisturbed : (∀ i, acts i = []) → accepted = [] ∧ inbox = channel

/-- Sealing is refused at any of its snapshots. Those before it are accepted and numbered, and the
first of them carries all writes; but if it is the very first one that is refused, the writes are
lost. -/
theorem sealSteps_refused (o : Outbox S) (channel : Channel (PushSnapshot S T)) (startTime : T)
    (dt : S) (steps : UInt32) :
    o.sealSteps channel startTime dt steps =
      (fun r => (r.1, r.2.1, r.2.2.1)) <$> o.sealAmid channel startTime dt steps (fun _ => []) ∧
    ∀ acts e after inbox accepted,
      o.sealAmid channel startTime dt steps acts = .ok (.error e, after, inbox, accepted) →
      o.Refused channel steps acts after inbox accepted := by
  refine ⟨(o.sealAmid_quiet channel startTime dt steps).symm, ?_⟩
  intro acts e after inbox accepted h
  rcases sealAmid_progress h with ⟨hprogress, hempty, hshort⟩
  have hsteps : steps ≠ 0 := by
    rintro rfl
    exact absurd (hshort e rfl) (Nat.not_lt_zero _)
  refine { hprogress with
    short := hshort e rfl
    last := fun q hq => hprogress.last hq
    follows := fun hused => hprogress.follows hused.follows
    emptied := hempty hsteps
    conserved := ?conserved
    undisturbed := ?undisturbed }
  case conserved =>
    rw [hempty hsteps, List.append_nil, hprogress.flatMap_deltas]
    by_cases hnil : accepted = []
    · simp [hnil, eq_comm]
    · simp [hnil]
  case undisturbed =>
    intro hquiet
    rcases exists_of_sealAmid h with ⟨sent, hresult, hall⟩
    cases sent with
    | ok _ => cases hresult
    | error e' =>
      refine sealEachAmid_undisturbed ?_ hall
      intro x hx
      rcases List.mem_map.mp hx with ⟨i, _, rfl⟩
      exact hquiet i

/-- A buffered write. -/
def farewell : Outbox Float32 := Outbox.empty.push ⟨⟨0, 0⟩, .destroy⟩

/-- The receiving half is dropped before the second of three snapshots. -/
def hangUp : Nat → List Channel.Act
  | 1 => [.receive, .dropReceiver]
  | _ => []

/-- The write has been accepted when the receiving half is dropped. -/
theorem farewell_heard : ∃ after inbox accepted,
    farewell.sealAmid (T := Float) .empty 0 1 3 hangUp =
      .ok (.error .disconnected, after, inbox, accepted) ∧
    farewell.Refused (T := Float) .empty 3 hangUp after inbox accepted :=
  ⟨_, _, _, rfl, (sealSteps_refused farewell .empty 0 1 3).2 hangUp _ _ _ _ rfl⟩

/-- The receiving half is gone before the call: the write is in no snapshot, and in the buffer no
longer. -/
theorem farewell_unheard : ∃ after inbox,
    farewell.sealSteps (T := Float) (Channel.empty.act .dropReceiver) 0 1 1 =
      .ok (.error .disconnected, after, inbox) ∧
    ¬ ∀ d ∈ farewell.deltas, d ∈ after.deltas ∨ ∃ q ∈ inbox.queue, d ∈ q.deltas := by
  refine ⟨_, _, rfl, fun hall => ?_⟩
  rcases hall ⟨⟨0, 0⟩, .destroy⟩ (List.mem_singleton_self _) with h | ⟨q, hq, _⟩
  · cases h
  · cases hq

end Outbox

end TetheredParticles
