import TetheredParticles.Proofs.Session.Course
/-!
# Steps keep in lockstep with snapshots

Every snapshot that is sealed is answered by exactly one step, in the order of the numbers. Whoever
runs a step finds a snapshot, since the snapshots that are pending are as many as the steps that
are still to be run. Hence the number of the last step tells which snapshots have been answered,
and a token knows when all of its own have been.

* `Course.InLockstep` — what this means.
* `Course.Settled`, `Course.Steady` — the invariant, without and with the steps to come.
* `Course.Settled.step` — what a step does to it.
* `Course.Steady.perform` — every move keeps it.
* `Course.run_inLockstep` — sealing and stepping keep in lockstep in all courses.
-/

namespace TetheredParticles

/-- The numbers from one up to a number. -/
def Timestamp.upTo (t : Timestamp) : List Timestamp := (List.range' 1 t.ticks).map Timestamp.mk

namespace Timestamp

theorem mem_upTo {t u : Timestamp} : u ∈ t.upTo ↔ 0 < u.ticks ∧ u ≤ t := by
  unfold upTo
  rw [List.mem_map, le_def]
  constructor
  · rintro ⟨k, hk, rfl⟩
    rw [List.mem_range'_1] at hk
    dsimp only
    omega
  · rintro ⟨hpos, hle⟩
    refine ⟨u.ticks, ?_, rfl⟩
    rw [List.mem_range'_1]
    omega

/-- The next number comes behind the others. -/
theorem upTo_succ {t u : Timestamp} (h : u.ticks = t.ticks + 1) : u.upTo = t.upTo ++ [u] := by
  have hu : u = ⟨1 + 1 * t.ticks⟩ := by
    rw [show u = ⟨u.ticks⟩ from rfl, h]
    exact congrArg mk (by omega)
  unfold upTo
  rw [h, List.range'_concat, List.map_append, List.map_singleton, ← hu]

/-- A number is the last one up to it. -/
theorem getLast?_upTo (t : Timestamp) : t.upTo.getLast?.getD zero = t := by
  rcases t with ⟨ticks⟩
  cases ticks with
  | zero => rfl
  | succ k =>
    rw [upTo_succ (t := ⟨k⟩) rfl, List.getLast?_append]
    rfl

end Timestamp

variable {S T : Type} [Scalar S]

namespace Course

/-- Whether a step of the background or of the call under way is still to be run. -/
def StepsLeft (c : Course S T) : Prop :=
  (∃ left, c.session.inFlight = some (left + 1)) ∨ ∃ left target, c.phase = .running (left + 1) target

/-- The steps and the snapshots keep in lockstep. -/
structure InLockstep (c : Course S T) [Scalar T] [Timeline S T] : Prop where
  /-- The snapshots that are pending are those of the advance in flight, and those that the call
  under way has sealed. -/
  pending : c.session.engine.inbox.queue.length = c.session.inFlight.getD 0 + c.phase.ahead
  /-- An advance runs its steps itself only when none is in flight. -/
  exclusive : ∀ left target, c.phase = .running left target → c.session.inFlight = none
  /-- Whoever runs a step finds the next snapshot. -/
  fed : c.StepsLeft → ∃ q ∈ c.session.engine.inbox.queue.head?,
    q.timestamp.ticks = c.session.progress.ticks + 1
  /-- Nobody has run a step without one. -/
  missed : c.missed = 0
  /-- The steps were run in the order of the numbers. -/
  ran : c.ran = c.session.progress.upTo
  /-- The progress is the number of the last step. -/
  progress : c.session.progress = c.ran.getLast?.getD .zero
  /-- The answers that were taken and those that wait are numbered from one on. -/
  answered : c.collected ++ c.session.engine.outbox.queue.map (·.timestamp) =
    c.session.progress.upTo
  /-- A token is complete when every step up to its target has run. -/
  complete : ∀ target ∈ c.tokens, c.session.isComplete target = true ↔
    ∀ number : Timestamp, 0 < number.ticks → number ≤ target → number ∈ c.ran
  /-- Every token is complete once the advance in flight has run its steps. -/
  reached : ∀ target ∈ c.tokens, target.ticks ≤ c.session.progress.ticks + c.session.inFlight.getD 0
  /-- Where advances run their steps themselves, every token is complete when they return. -/
  returned : c.session.config.threading = .singleThread → c.phase = .idle →
    ∀ target ∈ c.tokens, c.session.isComplete target = true
  /-- When a call that waits has returned, every token is complete. -/
  joined : ∀ errand after, c.phase = .joining errand → errand.Reclaims → c.proceed = .ok after →
    after.phase = .idle → ∀ target ∈ after.tokens, after.session.isComplete target = true
  /-- A call that nothing comes between does what it does at once. -/
  undisturbed : c.phase = .idle → ∀ event : Session.Event S, event.IsCall →
    ∃ moves : List (Move S), (∀ move ∈ moves, ∀ other, move ≠ .call other) ∧
      (fun after => (after.phase, after.session)) <$> (.call event :: moves).foldlM perform c =
        (fun s => (.idle, s)) <$> c.session.perform event

/-! ## The invariant -/

/-- Both sides are consistent, and every step up to the last one has run once. -/
structure Settled (c : Course S T) : Prop where
  consistent : ∃ since, c.session.Consistent since
  progress : c.session.engine.world.latest = c.session.progress
  ran : c.ran = c.session.progress.upTo
  answered : c.collected ++ c.session.engine.outbox.queue.map (·.timestamp) =
    c.session.progress.upTo
  missed : c.missed = 0

/-- What holds of the call under way. -/
def Underway (c : Course S T) : Phase S → Prop
  | .idle => True
  | .sealing plan sealed =>
    sealed ≤ plan.steps.toNat ∧ (0 < sealed → c.session.outbox.deltas = [])
  | .joining (.dispatch _ target) => target = c.session.outbox.sealedTimestamp
  | .joining _ => True
  | .running _ target =>
    target = c.session.outbox.sealedTimestamp ∧ c.session.inFlight = none

/-- Besides, the pending snapshots are accounted for. -/
structure Steady (c : Course S T) : Prop extends c.Settled where
  pending : c.session.engine.inbox.queue.length = c.session.inFlight.getD 0 + c.phase.ahead
  reached : ∀ target ∈ c.tokens, target.ticks ≤ c.session.progress.ticks + c.session.inFlight.getD 0
  alone : c.session.config.threading = .singleThread →
    c.session.inFlight = none ∨ ∃ config, c.phase = .joining (.configure config)
  underway : c.Underway c.phase

theorem steady_start [Scalar T] (config : Config S) : (start config : Course S T).Steady where
  consistent := ⟨fun _ => .zero, Session.consistent_start config _⟩
  progress := rfl
  ran := rfl
  answered := rfl
  missed := rfl
  pending := rfl
  reached := fun _ htarget => absurd htarget List.not_mem_nil
  alone := fun _ => .inl rfl
  underway := trivial

/-! ## Steps -/

namespace Settled

variable {c : Course S T}

/-- The last sealed snapshot is as far from the last step as snapshots are pending. -/
theorem sealed_ticks (h : c.Settled) : c.session.outbox.sealedTimestamp.ticks =
    c.session.progress.ticks + c.session.engine.inbox.queue.length := by
  rcases h.consistent with ⟨since, hconsistent⟩
  rw [hconsistent.agreed.sealed_ticks, h.progress]

/-- The next snapshot has the next number. -/
theorem next_ticks (h : c.Settled) {q : PushSnapshot S T} {rest : List (PushSnapshot S T)}
    (hq : c.session.engine.inbox.queue = q :: rest) :
    q.timestamp.ticks = c.session.progress.ticks + 1 := by
  rcases h.consistent with ⟨since, hconsistent⟩
  have hchained := hconsistent.agreed.chained
  rw [hq] at hchained
  rw [hchained.1, h.progress]

/-- A step answers the next snapshot. Nothing else changes. -/
theorem step [LawfulZero S] [Scalar T] [Timeline S T] (h : c.Settled) {q : PushSnapshot S T}
    {rest : List (PushSnapshot S T)} (hq : c.session.engine.inbox.queue = q :: rest) :
    Ends c.step Session.Overflow fun after => after.Settled ∧
      ∃ engine, engine.inbox.queue = rest ∧ after = { c with
        session := { c.session with engine, progress := q.timestamp }
        ran := c.ran ++ [q.timestamp] } := by
  rcases h.consistent with ⟨since, hconsistent⟩
  have hnumber := h.next_ticks hq
  have hupTo := Timestamp.upTo_succ hnumber
  unfold Course.step
  refine ((hconsistent.stepNext hq).mono (fun _ hf => .inr hf.1) fun _ hnext => hnext).bind_eq ?_
  rintro ⟨number, engine⟩ hnext ⟨rfl, before, hstepped⟩
  have hs := hstepped q.timestamp
  have hrun : c.session.runStep = .ok { c.session with engine, progress := q.timestamp } := by
    unfold Session.runStep
    rw [hnext]
    rfl
  refine .pure ⟨?_, engine, hs.inbox, rfl⟩
  constructor
  case consistent => exact ⟨since, (hconsistent.runStep.holds_of_eq hrun).1⟩
  case progress =>
    rw [hs.world]
    rfl
  case ran =>
    dsimp only [Option.toList_some, Option.getD_some]
    rw [hupTo, h.ran]
  case answered =>
    have hqueue := hs.outbox
    dsimp only at hqueue
    dsimp only [Option.getD_some]
    rw [hqueue, List.map_append, ← List.append_assoc, h.answered, hupTo]
    rfl
  case missed => exact h.missed

/-- What nobody but the producer sees does not matter. -/
theorem congr (h : c.Settled) {after : Course S T}
    (hconsistent : ∃ since, after.session.Consistent since)
    (hprogress : after.session.progress = c.session.progress)
    (hlatest : after.session.engine.world.latest = c.session.engine.world.latest)
    (houtbox : after.session.engine.outbox = c.session.engine.outbox) (hran : after.ran = c.ran)
    (hcollected : after.collected = c.collected) (hmissed : after.missed = c.missed) :
    after.Settled where
  consistent := hconsistent
  progress := hlatest.trans (h.progress.trans hprogress.symm)
  ran := by rw [hran, hprogress, h.ran]
  answered := by rw [hcollected, houtbox, hprogress, h.answered]
  missed := hmissed.trans h.missed

end Settled

omit [Scalar S] in
/-- No errand runs a step. -/
theorem progress_carryOut (c : Course S T) (errand : Errand S) :
    (c.carryOut errand).session.progress = c.session.progress := by
  unfold carryOut
  split
  case h_5 =>
    split
    · rfl
    · rfl
  all_goals rfl

/-- A move keeps the invariant, and the progress does not decrease. -/
def Onward (c after : Course S T) : Prop := after.Steady ∧ c.session.progress ≤ after.session.progress

namespace Steady

variable {c : Course S T} [Scalar T] [Timeline S T]

/-! ## Moves -/

/-- The background runs a step of the advance in flight, for which a snapshot is pending. -/
theorem background [LawfulZero S] (h : c.Steady) : Ends c.background Session.Overflow c.Onward := by
  unfold Course.background
  split
  case h_2 => exact .ok ⟨h, le_refl c.session.progress.ticks⟩
  case h_1 left hflight =>
    have hpending := h.pending
    rw [hflight, Option.getD_some] at hpending
    cases hq : c.session.engine.inbox.queue with
    | nil =>
      rw [hq, List.length_nil] at hpending
      omega
    | cons q rest =>
      rw [hq, List.length_cons] at hpending
      have hnumber := h.next_ticks hq
      rcases h.consistent with ⟨since, hconsistent⟩
      have hsettled : Settled { c with session := { c.session with inFlight := some left } } :=
        h.toSettled.congr ⟨since, hconsistent.congr rfl rfl rfl rfl rfl rfl⟩ rfl rfl rfl rfl rfl rfl
      refine (hsettled.step hq).weaken ?_
      rintro after ⟨hafter, engine, hrest, rfl⟩
      constructor
      case left =>
        refine { hafter with
          pending := ?pending, reached := ?reached, alone := ?alone, underway := ?underway }
        case pending =>
          show engine.inbox.queue.length = left + c.phase.ahead
          rw [hrest]
          omega
        case reached =>
          intro target htarget
          have hreached := h.reached target htarget
          rw [hflight, Option.getD_some] at hreached
          show target.ticks ≤ q.timestamp.ticks + left
          omega
        case alone =>
          intro hthreading
          rcases h.alone hthreading with hnone | hconfigure
          · rw [hflight] at hnone
            cases hnone
          · exact .inr hconfigure
        case underway =>
          have hunderway := h.underway
          show Course.Underway _ c.phase
          cases hphase : c.phase with
          | idle => trivial
          | sealing plan sealed =>
            rw [hphase] at hunderway
            exact hunderway
          | joining errand =>
            rw [hphase] at hunderway
            cases errand with
            | dispatch count target => exact hunderway
            | look | configure _ | install _ | collect => trivial
          | running left target =>
            rw [hphase] at hunderway
            -- a call that runs steps itself has nothing in flight
            rw [hunderway.2] at hflight
            cases hflight
      case right =>
        show c.session.progress.ticks ≤ q.timestamp.ticks
        omega

/-- The call under way runs a step itself. -/
theorem runNext [LawfulZero S] (h : c.Steady) {left : Nat} {target : Timestamp}
    (hphase : c.phase = .running (left + 1) target) :
    Ends (step { c with phase := .running left target }) Session.Overflow c.Onward := by
  have hunderway := h.underway
  rw [hphase] at hunderway
  rcases hunderway with ⟨htarget, hflight⟩
  have hpending := h.pending
  rw [hflight, hphase] at hpending
  change _ = 0 + (left + 1) at hpending
  cases hq : c.session.engine.inbox.queue with
  | nil =>
    rw [hq, List.length_nil] at hpending
    omega
  | cons q rest =>
    rw [hq, List.length_cons] at hpending
    have hnumber := h.next_ticks hq
    have hsettled : Settled { c with phase := .running left target } :=
      h.toSettled.congr h.consistent rfl rfl rfl rfl rfl rfl
    refine (hsettled.step hq).weaken ?_
    rintro after ⟨hafter, engine, hrest, rfl⟩
    constructor
    case left =>
      refine { hafter with
        pending := ?pending, reached := ?reached, alone := ?alone, underway := ?underway }
      case pending =>
        show engine.inbox.queue.length = c.session.inFlight.getD 0 + left
        rw [hrest, hflight, Option.getD_none]
        omega
      case reached =>
        intro token htoken
        have hreached := h.reached token htoken
        show token.ticks ≤ q.timestamp.ticks + c.session.inFlight.getD 0
        omega
      case alone => exact fun _ => .inl hflight
      case underway => exact ⟨htarget, hflight⟩
    case right =>
      show c.session.progress.ticks ≤ q.timestamp.ticks
      omega

omit [Scalar T] [Timeline S T] in
/-- A token is issued for the last sealed snapshot, once everything pending is in flight. -/
theorem issue (h : c.Settled) {target : Timestamp}
    (htarget : target = c.session.outbox.sealedTimestamp)
    (hpending : c.session.engine.inbox.queue.length = c.session.inFlight.getD 0)
    (hreached : ∀ token ∈ c.tokens,
      token.ticks ≤ c.session.progress.ticks + c.session.inFlight.getD 0)
    (halone : c.session.config.threading = .singleThread → c.session.inFlight = none) :
    (c.issue target).Steady := by
  have hsettled : (c.issue target).Settled :=
    h.congr h.consistent rfl rfl rfl rfl rfl rfl
  refine { hsettled with
    pending := hpending, reached := ?reached, alone := fun hsingle => .inl (halone hsingle)
    underway := trivial }
  case reached =>
    intro token htoken
    rcases List.mem_append.mp htoken with htoken | htoken
    · exact hreached token htoken
    · rw [List.mem_singleton.mp htoken, htarget, h.sealed_ticks, hpending]
      exact le_refl _

omit [Scalar T] [Timeline S T] in
/-- A call carries its errand out when the background has finished. -/
theorem carryOut (h : c.Settled) {errand : Errand S} (hflight : c.session.inFlight = none)
    (hpending : c.session.engine.inbox.queue.length = (Phase.joining errand).ahead)
    (hreached : ∀ token ∈ c.tokens, token.ticks ≤ c.session.progress.ticks)
    (hunderway : c.Underway (.joining errand)) : (c.carryOut errand).Steady := by
  rcases h.consistent with ⟨since, hconsistent⟩
  have hempty : c.session.engine.inbox.queue.length = 0 →
      c.session.engine.inbox.queue.length = c.session.inFlight.getD 0 + 0 := by
    intro hzero
    rw [hzero, hflight]
    rfl
  have hreached' : ∀ token ∈ c.tokens,
      token.ticks ≤ c.session.progress.ticks + c.session.inFlight.getD 0 :=
    fun token htoken => Nat.le_add_right_of_le (hreached token htoken)
  cases errand with
  | look =>
    have hsettled : (c.carryOut .look).Settled :=
      h.congr h.consistent rfl rfl rfl rfl rfl rfl
    exact { hsettled with
      pending := hempty hpending, reached := hreached', alone := fun _ => .inl hflight
      underway := trivial }
  | configure config =>
    have hsettled : (c.carryOut (.configure config)).Settled :=
      h.congr ⟨since, hconsistent.configured config⟩ rfl rfl rfl rfl rfl rfl
    exact { hsettled with
      pending := hempty hpending, reached := hreached', alone := fun _ => .inl hflight
      underway := trivial }
  | install hook =>
    have hsettled : (c.carryOut (.install hook)).Settled :=
      h.congr ⟨since, hconsistent.congr rfl rfl rfl rfl rfl rfl⟩ rfl rfl rfl rfl rfl rfl
    exact { hsettled with
      pending := hempty hpending, reached := hreached', alone := fun _ => .inl hflight
      underway := trivial }
  | collect =>
    have hsettled : (c.carryOut .collect).Settled :=
      h.congr ⟨since, hconsistent.congr rfl rfl rfl rfl rfl rfl⟩ rfl rfl rfl rfl rfl rfl
    exact { hsettled with
      pending := hempty hpending, reached := hreached', alone := fun _ => .inl hflight
      underway := trivial }
  | dispatch count target =>
    unfold Course.carryOut
    dsimp only
    cases hthreading : c.session.config.threading with
    | taskPool =>
      have hsettled : Settled { c with session := { c.session with inFlight := some count } } :=
        h.congr ⟨since, hconsistent.congr rfl rfl rfl rfl rfl rfl⟩ rfl rfl rfl rfl rfl rfl
      refine issue hsettled hunderway hpending ?_ ?_
      · exact fun token htoken => Nat.le_add_right_of_le (hreached token htoken)
      · intro hsingle
        rw [show c.session.config.threading = .singleThread from hsingle] at hthreading
        cases hthreading
    | singleThread =>
      have hsettled : Settled { c with phase := .running count target } :=
        h.congr h.consistent rfl rfl rfl rfl rfl rfl
      refine { hsettled with
        pending := ?pending, reached := hreached', alone := fun _ => .inl hflight
        underway := ⟨hunderway, hflight⟩ }
      case pending =>
        show _ = c.session.inFlight.getD 0 + count
        rw [hflight, Option.getD_none, Nat.zero_add]
        exact hpending

omit [Scalar T] [Timeline S T] in
/-- On a single thread nothing is in flight while snapshots are sealed. -/
theorem inFlight_of_sealing (h : c.Steady) {plan : StepPlan S} {sealed : Nat}
    (hphase : c.phase = .sealing plan sealed)
    (hsingle : c.session.config.threading = .singleThread) : c.session.inFlight = none := by
  rcases h.alone hsingle with hnone | ⟨config, hconfigure⟩
  · exact hnone
  · rw [hphase] at hconfigure
    cases hconfigure

/-- The call under way seals one more snapshot, which takes all writes along if it is the first
one. -/
theorem sealOne (h : c.Steady) {plan : StepPlan S} {sealed : Nat}
    (hphase : c.phase = .sealing plan sealed) (hmore : sealed < plan.steps.toNat) :
    Ends (c.sealNext plan sealed) Session.Overflow c.Onward := by
  rcases h.consistent with ⟨since, hconsistent⟩
  have hunderway := h.underway
  have hpending := h.pending
  rw [hphase] at hunderway hpending
  change _ = c.session.inFlight.getD 0 + sealed at hpending
  unfold Course.sealNext
  dsimp only
  rw [if_pos hmore]
  have hnext : 0 < c.session.outbox.nextTimestamp.ticks := by
    rw [← hconsistent.agreed.numbered]
    exact Nat.succ_pos _
  refine Ends.bind (Ends.mono (Outbox.sealEach_singleton_ends hconsistent.inbox hnext
    c.session.externalTime plan.dt plan.steps (UInt32.ofNat sealed))
    (fun f hf => .inl hf.1) fun _ h => h) ?_
  rintro ⟨sent, outbox, inbox⟩ ⟨rfl, rfl, hqueue, _, hordered⟩
  have hempty : UInt32.ofNat sealed ≠ 0 → c.session.outbox.deltas = [] := fun hne =>
    hunderway.2 (Nat.pos_of_ne_zero fun hzero => hne ((Outbox.ofNat_eq_zero hmore).mpr hzero))
  rcases Outbox.deltas_snapshot hempty c.session.externalTime plan.dt plan.steps with
    ⟨hdeltas, hleft⟩
  have hagreed : Agreed c.session.registry since c.session.engine.world.latest inbox.queue
      ⟨(c.session.outbox.taken (UInt32.ofNat sealed)).deltas,
        ⟨c.session.outbox.nextTimestamp.ticks + 1⟩⟩ := by
    rw [hqueue]
    exact hconsistent.agreed.sealed hdeltas (fun q hq => absurd hq List.not_mem_nil) hleft
      ⟨rfl, trivial⟩ rfl
  refine .pure ⟨?_, le_refl c.session.progress.ticks⟩
  have hsettled : Settled { c with
      session := { c.session with
        outbox := ⟨(c.session.outbox.taken (UInt32.ofNat sealed)).deltas,
          ⟨c.session.outbox.nextTimestamp.ticks + 1⟩⟩
        engine := { c.session.engine with inbox } }
      phase := .sealing plan (sealed + 1) } :=
    h.toSettled.congr ⟨since, hagreed, hconsistent.world, hconsistent.valid, hconsistent.holds,
      hordered, hconsistent.outbox, hconsistent.applied, hconsistent.counts⟩
      rfl rfl rfl rfl rfl rfl
  refine { hsettled with
    pending := ?pending, reached := h.reached
    alone := fun hsingle => .inl (h.inFlight_of_sealing hphase hsingle)
    underway := ⟨hmore, fun _ => hleft⟩ }
  case pending =>
    show inbox.queue.length = c.session.inFlight.getD 0 + (sealed + 1)
    rw [hqueue, List.length_append, List.length_singleton, hpending]
    omega

/-- The call under way seals its next snapshot. After the last one it waits for the advance in
flight. -/
theorem sealNext (h : c.Steady) {plan : StepPlan S} {sealed : Nat}
    (hphase : c.phase = .sealing plan sealed) :
    Ends (c.sealNext plan sealed) Session.Overflow c.Onward := by
  by_cases hmore : sealed < plan.steps.toNat
  · exact h.sealOne hphase hmore
  · rcases h.consistent with ⟨since, hconsistent⟩
    have hunderway := h.underway
    have hpending := h.pending
    rw [hphase] at hunderway hpending
    change _ = c.session.inFlight.getD 0 + sealed at hpending
    have hall : sealed = plan.steps.toNat := Nat.le_antisymm hunderway.1 (Nat.le_of_not_lt hmore)
    have halone := h.inFlight_of_sealing hphase
    have hsettled : ∀ (time : T) (phase : Phase S), Settled { c with
        session := { c.session with externalTime := time }, phase } := fun time phase =>
      h.toSettled.congr ⟨since, hconsistent.congr rfl rfl rfl rfl rfl rfl⟩ rfl rfl rfl rfl rfl rfl
    unfold Course.sealNext
    dsimp only
    rw [if_neg hmore]
    by_cases hzero : plan.steps = 0
    · rw [if_pos hzero]
      have hnone : sealed = 0 := by
        rw [hall, hzero]
        rfl
      refine .pure ⟨issue (hsettled _ c.phase) rfl ?_ h.reached halone,
        le_refl c.session.progress.ticks⟩
      rw [hnone] at hpending
      exact hpending
    · rw [if_neg hzero]
      refine .pure ⟨?_, le_refl c.session.progress.ticks⟩
      refine { hsettled _ _ with
        pending := ?_, reached := h.reached, alone := fun hsingle => .inl (halone hsingle)
        underway := rfl }
      show _ = c.session.inFlight.getD 0 + plan.steps.toNat
      rw [← hall]
      exact hpending

/-- The call under way goes on. -/
theorem proceed [LawfulZero S] (h : c.Steady) : Ends c.proceed Session.Overflow c.Onward := by
  unfold Course.proceed
  have hunderway := h.underway
  have hpending := h.pending
  cases hphase : c.phase with
  | idle => exact .ok ⟨h, le_refl c.session.progress.ticks⟩
  | sealing plan sealed => exact h.sealNext hphase
  | joining errand =>
    rw [hphase] at hunderway hpending
    -- an errand waits for the advance in flight, and is carried out once nothing of it is left
    have hcarried : c.session.inFlight.getD 0 = 0 → Onward c
        (Course.carryOut { c with session := { c.session with inFlight := none } } errand) := by
      intro hnone
      rcases h.consistent with ⟨since, hconsistent⟩
      have hsettled : Settled { c with session := { c.session with inFlight := none } } :=
        h.toSettled.congr ⟨since, hconsistent.congr rfl rfl rfl rfl rfl rfl⟩ rfl rfl rfl rfl rfl rfl
      have hreached := h.reached
      rw [hnone] at hreached hpending
      refine ⟨carryOut hsettled rfl (hpending.trans (Nat.zero_add _)) hreached ?_, ?_⟩
      · cases errand with
        | dispatch count target => exact hunderway
        | look | configure _ | install _ | collect => trivial
      · have hsame := progress_carryOut
          { c with session := { c.session with inFlight := none } } errand
        exact hsame.ge
    cases hflight : c.session.inFlight with
    | none =>
      rw [hflight] at hcarried
      exact .ok (hcarried rfl)
    | some left =>
      rw [hflight] at hcarried
      cases left with
      | zero => exact .ok (hcarried rfl)
      | succ left => exact .ok ⟨h, le_refl c.session.progress.ticks⟩
  | running left target =>
    cases left with
    | succ left => exact h.runNext hphase
    | zero =>
      rw [hphase] at hunderway hpending
      refine .ok ⟨issue h.toSettled hunderway.1 hpending h.reached fun _ => hunderway.2,
        le_refl c.session.progress.ticks⟩

omit [Scalar T] [Timeline S T] in
/-- Where no call is under way, nobody runs steps in single-threaded mode. -/
theorem inFlight_of_idle (h : c.Steady) (hidle : c.phase = .idle)
    (hsingle : c.session.config.threading = .singleThread) : c.session.inFlight = none := by
  rcases h.alone hsingle with hnone | ⟨config, hconfigure⟩
  · exact hnone
  · rw [hidle] at hconfigure
    cases hconfigure

omit [Scalar T] [Timeline S T] in
/-- What the producer asks of its registry does not concern the engine. -/
theorem requested (h : c.Steady) (hidle : c.phase = .idle) {after : Session S T}
    (hbuffers : c.session.Buffers after) (hconsistent : ∃ since, after.Consistent since) :
    c.Onward { c with session := after } := by
  rcases hbuffers with ⟨registry, deltas, rfl⟩
  refine ⟨?_, le_refl c.session.progress.ticks⟩
  refine ⟨h.toSettled.congr hconsistent rfl rfl rfl rfl rfl rfl, h.pending, h.reached, h.alone, ?_⟩
  show Course.Underway _ c.phase
  rw [hidle]
  trivial

omit [Timeline S T] in
/-- A pull takes all answers that wait. -/
theorem pull [Timeline S T] (h : c.Steady) (hidle : c.phase = .idle) : c.Onward { c with
    session := c.session.pull.2
    collected := c.collected ++
      (c.session.engine.outbox.drain.1.toOption.getD []).map (·.timestamp) } := by
  rcases h.consistent with ⟨since, hconsistent⟩
  rcases hconsistent.outbox.drain with ⟨channel, hdrain, hempty, _, _⟩
  have houtbox : c.session.pull.2.engine.outbox = channel :=
    (Playback.receive_of_drain (p := c.session.playback) hdrain).1
  refine ⟨?_, le_refl c.session.progress.ticks⟩
  refine {
    consistent := ⟨since, hconsistent.pull.1⟩, progress := h.progress, ran := h.ran
    answered := ?answered, missed := h.missed, pending := h.pending, reached := h.reached
    alone := h.alone, underway := ?underway }
  case answered =>
    dsimp only
    rw [houtbox, hempty, hdrain, List.map_nil, List.append_nil]
    exact h.answered
  case underway =>
    show Course.Underway _ c.phase
    rw [hidle]
    trivial

/-- A call begins. -/
theorem begin [LawfulZero S] (h : c.Steady) (hidle : c.phase = .idle) (event : Session.Event S) :
    Ends (c.begin event) Session.Overflow c.Onward := by
  rcases h.consistent with ⟨since, hconsistent⟩
  have hpending := h.pending
  rw [hidle] at hpending
  -- a call that waits leaves everything as it is
  have hjoining : ∀ {errand : Errand S}, (Phase.joining errand).ahead = 0 →
      c.Underway (.joining errand) → c.Onward { c with phase := .joining errand } := by
    intro errand hahead hunderway
    refine ⟨?_, le_refl c.session.progress.ticks⟩
    refine ⟨h.toSettled.congr h.consistent rfl rfl rfl rfl rfl rfl, ?_, h.reached,
      fun hsingle => .inl (h.inFlight_of_idle hidle hsingle), hunderway⟩
    show _ = c.session.inFlight.getD 0 + (Phase.joining errand).ahead
    rw [hahead]
    exact hpending
  have hrequest : event.IsRequest → Ends (do
      return { c with session := ← c.session.perform event } : Except Fault (Course S T))
      Session.Overflow c.Onward := by
    intro hevent
    rcases Session.perform_request c.session hevent with ⟨after, hafter, hbuffers⟩
    have hkept := (hconsistent.perform event).holds_of_eq hafter
    rw [hafter]
    exact .pure (h.requested hidle hbuffers ⟨_, hkept⟩)
  cases event with
  | advance dt =>
    refine .ok ⟨?_, le_refl c.session.progress.ticks⟩
    exact ⟨h.toSettled.congr ⟨since, hconsistent.congr rfl rfl rfl rfl rfl rfl⟩ rfl rfl rfl rfl rfl rfl,
      hpending, h.reached, fun hsingle => .inl (h.inFlight_of_idle hidle hsingle),
      Nat.zero_le _, fun hpos => absurd hpos (Nat.lt_irrefl 0)⟩
  | setConfig config =>
    unfold Course.begin
    dsimp only
    split
    · exact .ok ⟨h, le_refl c.session.progress.ticks⟩
    · refine .ok ⟨?_, le_refl c.session.progress.ticks⟩
      exact ⟨h.toSettled.congr ⟨since, hconsistent.congr rfl rfl rfl rfl rfl rfl⟩ rfl rfl rfl rfl rfl rfl,
        hpending, h.reached, fun _ => .inr ⟨config, rfl⟩, trivial⟩
  | installHook hook => exact .ok (hjoining rfl trivial)
  | takeJournal => exact .ok (hjoining rfl trivial)
  | waitForPending => exact .ok (hjoining rfl trivial)
  | pull => exact .ok (h.pull hidle)
  | setPaused paused =>
    refine .ok ⟨?_, le_refl c.session.progress.ticks⟩
    refine ⟨h.toSettled.congr ⟨since, hconsistent.congr rfl rfl rfl rfl rfl rfl⟩ rfl rfl rfl rfl rfl rfl,
      h.pending, h.reached, h.alone, ?_⟩
    show Course.Underway _ c.phase
    rw [hidle]
    trivial
  | tick | handOver _ | step => exact .ok ⟨h, le_refl c.session.progress.ticks⟩
  | register _ _ | unregister _ | unregisterOwner _ | setPosition _ _ _ | setVelocity _ _ _
  | setKinematicTarget _ _ _ | addForce _ _ _ | setInverseMass _ _ _ | setTetherStiffness _ _
  | setSuspensionTarget _ _ | setJointRestLength _ _ => exact hrequest trivial

/-- Every move keeps the invariant, and the progress does not decrease. -/
theorem perform [LawfulZero S] (h : c.Steady) (move : Move S) :
    Ends (c.perform move) Session.Overflow c.Onward := by
  cases move with
  | call event =>
    unfold Course.perform
    dsimp only
    split
    case h_1 hidle => exact h.begin hidle event
    case h_2 => exact .ok ⟨h, le_refl c.session.progress.ticks⟩
  | proceed => exact h.proceed
  | background => exact h.background

/-- So do all moves. -/
theorem foldlM_perform [LawfulZero S] (h : c.Steady) (moves : List (Move S)) :
    Ends (moves.foldlM Course.perform c) Session.Overflow c.Onward := by
  refine Ends.foldlM_keeps (I := c.Onward) ⟨h, le_refl c.session.progress.ticks⟩ ?_
  rintro d move _ ⟨hd, hle⟩
  refine (hd.perform move).weaken ?_
  rintro after ⟨hafter, hmore⟩
  exact ⟨hafter, le_trans hle hmore⟩

/-! ## What follows -/

omit [Scalar T] [Timeline S T] in
/-- With nothing in flight, every token is complete. -/
theorem isComplete (h : c.Steady) (hflight : c.session.inFlight = none) {target : Timestamp}
    (htarget : target ∈ c.tokens) : c.session.isComplete target = true := by
  have hreached := h.reached target htarget
  rw [hflight, Option.getD_none, Nat.add_zero] at hreached
  exact decide_eq_true hreached

/-- A call that has waited leaves nothing in flight. -/
theorem joined [LawfulZero S] (h : c.Steady) {errand : Errand S} {after : Course S T}
    (hphase : c.phase = .joining errand) (hreclaims : errand.Reclaims)
    (hproceed : c.proceed = .ok after) (hidle : after.phase = .idle) {target : Timestamp}
    (htarget : target ∈ after.tokens) : after.session.isComplete target = true := by
  have hafter := (h.proceed.holds_of_eq hproceed).1
  refine hafter.isComplete ?_ htarget
  unfold Course.proceed at hproceed
  rw [hphase] at hproceed
  dsimp only at hproceed
  split at hproceed
  case h_1 =>
    -- it still waits
    cases hproceed
    rw [hphase] at hidle
    cases hidle
  case h_2 =>
    cases hproceed
    cases errand with
    | dispatch count target => exact hreclaims.elim
    | look | configure _ | install _ | collect => rfl

theorem inLockstep [LawfulZero S] (h : c.Steady) : c.InLockstep where
  pending := h.pending
  exclusive := by
    intro left target hphase
    have hunderway := h.underway
    rw [hphase] at hunderway
    exact hunderway.2
  fed := by
    intro hleft
    have hpending := h.pending
    -- as many snapshots are pending as steps are left
    cases hq : c.session.engine.inbox.queue with
    | nil =>
      rw [hq, List.length_nil] at hpending
      rcases hleft with ⟨left, hflight⟩ | ⟨left, target, hphase⟩
      · rw [hflight, Option.getD_some] at hpending
        omega
      · rw [hphase] at hpending
        change 0 = _ + (left + 1) at hpending
        omega
    | cons q rest => exact ⟨q, rfl, h.next_ticks hq⟩
  missed := h.missed
  ran := h.ran
  progress := by rw [h.ran, Timestamp.getLast?_upTo]
  answered := h.answered
  complete := by
    intro target _
    unfold Session.isComplete
    rw [decide_eq_true_eq, h.ran]
    constructor
    · intro hle number hpos hnumber
      exact Timestamp.mem_upTo.mpr ⟨hpos, le_trans hnumber hle⟩
    · intro hall
      rcases Nat.eq_zero_or_pos target.ticks with hzero | hpos
      · rw [Timestamp.le_def, hzero]
        exact Nat.zero_le _
      · exact (Timestamp.mem_upTo.mp (hall target hpos (le_refl target))).2
  reached := h.reached
  returned := fun hsingle hidle target htarget =>
    h.isComplete (h.inFlight_of_idle hidle hsingle) htarget
  joined := fun errand after hphase hreclaims hproceed hidle target htarget =>
    h.joined hphase hreclaims hproceed hidle htarget
  undisturbed := fun hidle event hcall => Course.undisturbed hidle hcall

end Steady

/-- Whatever is called and whenever the background runs, in either mode, the steps and the snapshots
keep in lockstep, and the progress never decreases. A course only ends early when numbers or sizes
no longer fit their words. -/
theorem run_inLockstep [LawfulZero S] [Scalar T] [Timeline S T] (config : Config S)
    (moves : List (Move S)) :
    Ends (run config moves : Except Fault (Course S T)) Session.Overflow fun c =>
      c.InLockstep ∧ ∀ later : List (Move S), Ends (later.foldlM perform c) Session.Overflow
        fun after => after.InLockstep ∧ c.session.progress ≤ after.session.progress := by
  refine ((steady_start config).foldlM_perform moves).weaken ?_
  rintro c ⟨hc, _⟩
  refine ⟨hc.inLockstep, fun later => ?_⟩
  refine (hc.foldlM_perform later).weaken ?_
  rintro after ⟨hafter, hle⟩
  exact ⟨hafter.inLockstep, hle⟩

/-- An advance of four steps is handed to the background, which runs two of them while another one
seals its snapshots. -/
def overlap : List (Move Float32) :=
  .call (.advance 1) :: List.replicate 6 .proceed ++
    [.background, .call (.advance 1), .proceed, .background, .proceed]

theorem overlap_inLockstep : ∃ c : Course Float32 Float, run .standard overlap = .ok c ∧
    c.InLockstep ∧ ∀ later : List (Move Float32), Ends (later.foldlM perform c) Session.Overflow
      fun after => after.InLockstep ∧ c.session.progress ≤ after.session.progress := by
  have hends : (run .standard overlap : Except Fault (Course Float32 Float)).isOk = true := by
    decide +kernel
  exact (run_inLockstep .standard overlap).exists_of_isOk hends

end Course

end TetheredParticles
