import TetheredParticles.Proofs.Session.Requests
/-!
# The course of a session

While the producer is in a call, the background may run steps of the advance in flight. Here a call
is split where that matters: it seals one snapshot after the other, it waits for the advance in
flight before it uses the engine, and it may run steps itself. Everything else happens at once.

* `Course` — a session, the call under way, and a history of both sides.
* `Course.perform`, `Course.run` — calls, their stages, and steps of the background.
* `Course.undisturbed` — a call does what it does when nothing comes between its stages.
-/

namespace TetheredParticles

/-- What a call does as soon as it has the engine. -/
inductive Errand (S : Type) where
  | look
  | configure (config : Config S)
  | install (hook : Hook)
  | collect
  /-- It has the sealed snapshots answered, up to a target. -/
  | dispatch (count : Nat) (target : Timestamp)

/-- Whether a call returns with the engine in hand. -/
def Errand.Reclaims {S : Type} : Errand S → Prop
  | .look | .configure _ | .install _ | .collect => True
  | .dispatch .. => False

/-- Where the call under way is. -/
inductive Phase (S : Type) where
  | idle
  /-- An advance has sealed some of its snapshots. -/
  | sealing (plan : StepPlan S) (sealed : Nat)
  /-- A call waits for the advance in flight. -/
  | joining (errand : Errand S)
  /-- An advance runs its steps itself, and has some left. -/
  | running (left : Nat) (target : Timestamp)

/-- The snapshots that the call under way has sealed and nobody runs a step for yet. -/
def Phase.ahead {S : Type} : Phase S → Nat
  | .idle => 0
  | .sealing _ sealed => sealed
  | .joining (.dispatch count _) => count
  | .joining _ => 0
  | .running left _ => left

/-- A session with the call under way and what has happened so far. -/
structure Course (S T : Type) where
  session : Session S T
  phase : Phase S
  /-- The targets of all tokens, oldest first. -/
  tokens : List Timestamp
  /-- The numbers of the snapshots that steps have been run for, oldest first. -/
  ran : List Timestamp
  /-- How many steps have found no snapshot. -/
  missed : Nat
  /-- The numbers of the answers that pulls have taken, oldest first. -/
  collected : List Timestamp

/-- The events that are calls of the producer. -/
def Session.Event.IsCall {S : Type} : Session.Event S → Prop
  | .tick | .handOver _ | .step => False
  | _ => True

namespace Course

variable {S T : Type} [Scalar S] [Scalar T] [Timeline S T]

/-- A new session. -/
def start (config : Config S) : Course S T := ⟨.start config, .idle, [], [], 0, []⟩

/-- The call under way returns a token. -/
def issue (c : Course S T) (target : Timestamp) : Course S T :=
  { c with phase := .idle, tokens := c.tokens ++ [target] }

/-- The next step is run, by whoever has the engine. -/
def step (c : Course S T) : Except Fault (Course S T) := do
  let (number, engine) ← c.session.engine.stepNext
  return { c with
    session := { c.session with engine, progress := number.getD c.session.progress }
    ran := c.ran ++ number.toList
    missed := if number.isSome then c.missed else c.missed + 1 }

/-- A call begins. What needs no engine is done at once. -/
def begin (c : Course S T) : Session.Event S → Except Fault (Course S T)
  | .advance dt =>
    let (plan, clock) := c.session.clock.plan c.session.config dt c.session.paused
    .ok { c with session := { c.session with clock }, phase := .sealing plan 0 }
  | .setConfig config =>
    match config.check with
    | .error _ => .ok c
    | .ok () =>
      .ok { c with session := { c.session with config }, phase := .joining (.configure config) }
  | .installHook hook => .ok { c with phase := .joining (.install hook) }
  | .takeJournal => .ok { c with phase := .joining .collect }
  | .waitForPending => .ok { c with phase := .joining .look }
  | .pull =>
    let received := c.session.engine.outbox.drain.1.toOption.getD []
    .ok { c with
      session := c.session.pull.2
      collected := c.collected ++ received.map (·.timestamp) }
  -- these are no calls
  | .tick | .handOver _ | .step => .ok c
  | request => do return { c with session := ← c.session.perform request }

/-- An advance seals its next snapshot. After the last one it goes for the engine. -/
def sealNext (c : Course S T) (plan : StepPlan S) (sealed : Nat) : Except Fault (Course S T) := do
  let s := c.session
  if sealed < plan.steps.toNat then
    let (sent, outbox, inbox) ← Outbox.sealEach s.externalTime plan.dt plan.steps
      [UInt32.ofNat sealed] s.outbox s.engine.inbox
    let c := { c with session := { s with outbox, engine := { s.engine with inbox } } }
    match sent with
    | .error _ => return c.issue outbox.sealedTimestamp
    | .ok () => return { c with phase := .sealing plan (sealed + 1) }
  else
    let target := s.outbox.sealedTimestamp
    let c := { c with session := { s with
      externalTime := s.externalTime + Timeline.widen plan.dt * Scalar.ofCount plan.steps } }
    if plan.steps = 0 then return c.issue target
    return { c with phase := .joining (.dispatch plan.steps.toNat target) }

/-- A call has the engine, and no advance is in flight. -/
def carryOut (c : Course S T) : Errand S → Course S T
  | .look => { c with phase := .idle }
  | .configure config =>
    let engine := { c.session.engine with world := c.session.engine.world.setConfig config }
    { c with session := { c.session with engine }, phase := .idle }
  | .install hook =>
    { c with session := { c.session with engine := c.session.engine.install hook }, phase := .idle }
  | .collect =>
    { c with session := { c.session with engine := c.session.engine.takeJournal.2 }, phase := .idle }
  | .dispatch count target =>
    match c.session.config.threading with
    | .taskPool => issue { c with session := { c.session with inFlight := some count } } target
    | .singleThread => { c with phase := .running count target }

/-- The call under way goes on. It cannot while it waits for steps of the background. -/
def proceed (c : Course S T) : Except Fault (Course S T) :=
  match c.phase with
  | .idle => .ok c
  | .sealing plan sealed => c.sealNext plan sealed
  | .joining errand =>
    match c.session.inFlight with
    | some (_ + 1) => .ok c
    | _ => .ok (carryOut { c with session := { c.session with inFlight := none } } errand)
  | .running (left + 1) target => step { c with phase := .running left target }
  | .running 0 target => .ok (c.issue target)

/-- The background runs a step of the advance in flight. -/
def background (c : Course S T) : Except Fault (Course S T) :=
  match c.session.inFlight with
  | some (left + 1) => step { c with session := { c.session with inFlight := some left } }
  | _ => .ok c

/-- What may happen next. -/
inductive Move (S : Type) where
  | call (event : Session.Event S)
  | proceed
  | background

/-- The course after a move. -/
def perform (c : Course S T) : Move S → Except Fault (Course S T)
  | .call event =>
    match c.phase with
    | .idle => c.begin event
    | _ => .ok c
  | .proceed => c.proceed
  | .background => c.background

/-- What has become of a new session after moves in order. -/
def run (config : Config S) (moves : List (Move S)) : Except Fault (Course S T) :=
  moves.foldlM perform (start config)

/-! ## Steps -/

/-- A step does to the session what a step does. -/
theorem step_bind {α : Type} (c : Course S T) (k : Session S T → Except Fault α) :
    (c.step >>= fun after => k after.session) = c.session.runStep >>= k := by
  unfold step Session.runStep
  cases c.session.engine.stepNext with
  | error f => rfl
  | ok stepped =>
    rcases stepped with ⟨number, engine⟩
    cases number with
    | none => rfl
    | some timestamp => rfl

/-- A step does not change the advance in flight, nor where the call under way is. -/
theorem step_keeps {c after : Course S T} (h : c.step = .ok after) :
    after.phase = c.phase ∧ after.session.inFlight = c.session.inFlight := by
  unfold step at h
  rcases exists_of_bind_ok h with ⟨⟨number, engine⟩, _, h⟩
  cases h
  exact ⟨rfl, rfl⟩

/-- A step does not depend on the advance in flight. -/
theorem runStep_inFlight (s : Session S T) (inFlight : Option Nat) :
    Session.runStep { s with inFlight } = (fun after => { after with inFlight }) <$> s.runStep := by
  unfold Session.runStep
  dsimp only
  cases s.engine.stepNext with
  | error f => rfl
  | ok stepped =>
    rcases stepped with ⟨number, engine⟩
    cases number with
    | none => rfl
    | some timestamp => rfl

/-! ## Calls that nothing comes between -/

/-- Without another call, the course may go on until the call under way has ended with a result. -/
def Becomes (c : Course S T) (result : Except Fault (Session S T)) : Prop :=
  ∃ moves : List (Move S), (∀ move ∈ moves, ∀ event, move ≠ .call event) ∧
    (fun after => (after.phase, after.session)) <$> moves.foldlM perform c =
      (fun s => (.idle, s)) <$> result

namespace Becomes

variable {c : Course S T}

theorem of_idle (h : c.phase = .idle) : c.Becomes (.ok c.session) := by
  refine ⟨[], fun move hmove => absurd hmove List.not_mem_nil, ?_⟩
  show Except.ok (c.phase, c.session) = .ok (.idle, c.session)
  rw [h]

/-- One move, and what comes of the course after it. -/
theorem move (move : Move S) (hmove : ∀ event, move ≠ .call event)
    {k : Course S T → Except Fault (Session S T)}
    (h : ∀ after, c.perform move = .ok after → after.Becomes (k after)) :
    c.Becomes (c.perform move >>= k) := by
  cases hperform : c.perform move with
  | error f =>
    refine ⟨[move], ?_, ?_⟩
    · intro m hm
      rw [List.mem_singleton.mp hm]
      exact hmove
    · rw [List.foldlM_cons, hperform]
      rfl
  | ok after =>
    rcases h after hperform with ⟨moves, hmoves, hresult⟩
    refine ⟨move :: moves, ?_, ?_⟩
    · intro m hm
      rcases List.mem_cons.mp hm with rfl | hm
      · exact hmove
      · exact hmoves m hm
    · rw [List.foldlM_cons, hperform]
      exact hresult

/-- The call under way goes on at once. -/
theorem proceed {after : Course S T} {result : Except Fault (Session S T)}
    (hproceed : c.proceed = .ok after) (h : after.Becomes result) : c.Becomes result := by
  have hperform : c.perform .proceed = .ok after := hproceed
  have hmove := move (c := c) .proceed (fun _ => nofun) (k := fun _ => result) fun d hd => by
    cases hperform.symm.trans hd
    exact h
  rw [hperform] at hmove
  exact hmove

end Becomes

/-- An advance runs the steps that it has left. -/
theorem becomes_runSteps {c : Course S T} {left : Nat} {target : Timestamp}
    (h : c.phase = .running left target) : c.Becomes (c.session.runSteps left) := by
  induction left generalizing c with
  | zero =>
    have hproceed : c.proceed = .ok (c.issue target) := by
      unfold proceed
      rw [h]
    exact .proceed hproceed (.of_idle rfl)
  | succ left ih =>
    have hproceed : c.perform .proceed = step { c with phase := .running left target } := by
      unfold perform proceed
      rw [h]
    have hsteps : c.session.runSteps (left + 1) =
        c.perform .proceed >>= fun after => after.session.runSteps left := by
      rw [hproceed, step_bind]
      rfl
    rw [hsteps]
    refine .move .proceed (fun _ => nofun) fun after hafter => ih ?_
    rw [hproceed] at hafter
    exact (step_keeps hafter).1

/-- A call that waits has the background finish, and carries its errand out. -/
theorem becomes_joined {c : Course S T} {errand : Errand S} (h : c.phase = .joining errand)
    {k : Session S T → Except Fault (Session S T)}
    (hk : ∀ d : Course S T, (d.carryOut errand).Becomes (k d.session)) :
    c.Becomes (c.session.waitForPending >>= k) := by
  -- on how many steps the background has left
  suffices hleft : ∀ left (c : Course S T), c.phase = .joining errand → c.session.inFlight = some left →
      c.Becomes (c.session.waitForPending >>= k) by
    cases hflight : c.session.inFlight with
    | some left => exact hleft left c h hflight
    | none =>
      have hproceed : c.proceed =
          .ok (carryOut { c with session := { c.session with inFlight := none } } errand) := by
        unfold proceed
        rw [h, hflight]
      have hnone : { c.session with inFlight := none } = c.session := by
        rw [← hflight]
      have hwait : c.session.waitForPending = .ok { c.session with inFlight := none } := by
        unfold Session.waitForPending
        rw [hflight, hnone]
      rw [hwait]
      exact .proceed hproceed (hk _)
  intro left
  induction left with
  | zero =>
    intro c h hflight
    have hproceed : c.proceed =
        .ok (carryOut { c with session := { c.session with inFlight := none } } errand) := by
      unfold proceed
      rw [h, hflight]
    have hwait : c.session.waitForPending = .ok { c.session with inFlight := none } := by
      unfold Session.waitForPending
      rw [hflight]
      rfl
    rw [hwait]
    exact .proceed hproceed (hk _)
  | succ left ih =>
    intro c h hflight
    have hbackground : c.perform .background =
        step { c with session := { c.session with inFlight := some left } } := by
      unfold perform background
      rw [hflight]
    have hwait : c.session.waitForPending =
        Session.runStep { c.session with inFlight := some left } >>= Session.waitForPending := by
      unfold Session.waitForPending
      rw [hflight, runStep_inFlight, bind_map_left]
      dsimp only
      unfold Session.runSteps
      rw [repeatAction, runStep_inFlight, bind_map_left]
    have hsteps : c.session.waitForPending >>= k =
        c.perform .background >>= fun after => after.session.waitForPending >>= k := by
      rw [hwait, bind_assoc, hbackground, step_bind _ fun s => s.waitForPending >>= k]
    rw [hsteps]
    have hmove : ∀ event : Session.Event S, Move.background ≠ .call event := by
      rintro event ⟨⟩
    refine .move .background hmove fun after hafter => ?_
    rw [hbackground] at hafter
    rcases step_keeps hafter with ⟨hphase, hsame⟩
    exact ih after (hphase.trans h) hsame

/-- What an advance does with a session that has sealed its snapshots. -/
def dispatched (plan : StepPlan S) (s : Session S T) : Except Fault (Session S T) := do
  let s := { s with
    externalTime := s.externalTime + Timeline.widen plan.dt * Scalar.ofCount plan.steps }
  if plan.steps = 0 then return s
  let s ← s.waitForPending
  match s.config.threading with
  | .taskPool => return { s with inFlight := some plan.steps.toNat }
  | .singleThread => s.runSteps plan.steps.toNat

/-- An advance with nothing left to seal has its snapshots answered. -/
theorem becomes_dispatched {c : Course S T} {plan : StepPlan S} {sealed : Nat}
    (h : c.phase = .sealing plan sealed) (hlast : ¬ sealed < plan.steps.toNat) :
    c.Becomes (dispatched plan c.session) := by
  unfold dispatched
  by_cases hzero : plan.steps = 0
  · have hproceed : c.proceed = .ok (issue { c with session := { c.session with
        externalTime := c.session.externalTime +
          Timeline.widen plan.dt * Scalar.ofCount plan.steps } }
        c.session.outbox.sealedTimestamp) := by
      unfold proceed
      rw [h]
      dsimp only
      unfold sealNext
      dsimp only
      rw [if_neg hlast, if_pos hzero]
      rfl
    dsimp only
    rw [if_pos hzero]
    exact .proceed hproceed (.of_idle rfl)
  · have hproceed : c.proceed = .ok { c with
        session := { c.session with
          externalTime := c.session.externalTime +
            Timeline.widen plan.dt * Scalar.ofCount plan.steps }
        phase := .joining (.dispatch plan.steps.toNat c.session.outbox.sealedTimestamp) } := by
      unfold proceed
      rw [h]
      dsimp only
      unfold sealNext
      dsimp only
      rw [if_neg hlast, if_neg hzero]
      rfl
    dsimp only
    rw [if_neg hzero]
    refine .proceed hproceed (becomes_joined rfl fun d => ?_)
    unfold carryOut
    dsimp only
    cases hthreading : d.session.config.threading with
    | taskPool => exact .of_idle rfl
    | singleThread => exact becomes_runSteps rfl

/-- An advance seals what it has left to seal, and has it answered unless a snapshot is refused. -/
theorem becomes_sealed {c : Course S T} {plan : StepPlan S} {sealed : Nat}
    (h : c.phase = .sealing plan sealed) {count : Nat} (hcount : sealed + count = plan.steps.toNat) :
    c.Becomes (do
      let (sent, outbox, inbox) ← Outbox.sealEach c.session.externalTime plan.dt plan.steps
        ((List.range' sealed count).map UInt32.ofNat) c.session.outbox c.session.engine.inbox
      let s := { c.session with outbox, engine := { c.session.engine with inbox } }
      match sent with
      | .error _ => return s
      | .ok () => dispatched plan s) := by
  -- on how many snapshots are left to seal
  induction count generalizing c sealed with
  | zero => exact becomes_dispatched h (by omega)
  | succ count ih =>
    have hmore : sealed < plan.steps.toNat := by omega
    have hproceed : c.perform .proceed = c.sealNext plan sealed := by
      unfold perform proceed
      rw [h]
    unfold sealNext at hproceed
    dsimp only at hproceed
    rw [if_pos hmore] at hproceed
    rw [List.range'_succ, List.map_cons, Outbox.sealEach_cons]
    cases hseal : Outbox.sealEach c.session.externalTime plan.dt plan.steps [UInt32.ofNat sealed]
        c.session.outbox c.session.engine.inbox with
    | error f =>
      rw [hseal] at hproceed
      have hmove := Becomes.move (c := c) .proceed (fun _ => nofun)
        (k := fun after => .ok after.session) fun d hd => by
          rw [hproceed] at hd
          cases hd
      rw [hproceed] at hmove
      exact hmove
    | ok result =>
      rcases result with ⟨sent, outbox, inbox⟩
      rw [hseal] at hproceed
      cases sent with
      | error e => exact .proceed hproceed (.of_idle rfl)
      | ok _ =>
        refine .proceed hproceed ?_
        have hleft : sealed + 1 + count = plan.steps.toNat := by omega
        exact ih (c := { c with
          session := { c.session with outbox, engine := { c.session.engine with inbox } }
          phase := .sealing plan (sealed + 1) }) rfl hleft

/-- An advance seals its snapshots and has them answered. -/
theorem advance_eq_sealEach (s : Session S T) (dt : S) : (·.2) <$> s.advance dt = (do
    let plan := (s.clock.plan s.config dt s.paused).1
    let s := { s with clock := (s.clock.plan s.config dt s.paused).2 }
    let (sent, outbox, inbox) ← Outbox.sealEach s.externalTime plan.dt plan.steps
      ((List.range' 0 plan.steps.toNat).map UInt32.ofNat) s.outbox s.engine.inbox
    let s := { s with outbox, engine := { s.engine with inbox } }
    match sent with
    | .error _ => return s
    | .ok () => dispatched plan s) := by
  unfold Session.advance Outbox.sealSteps dispatched
  dsimp only
  rw [List.range_eq_range']
  cases Outbox.sealEach s.externalTime (s.clock.plan s.config dt s.paused).1.dt
      (s.clock.plan s.config dt s.paused).1.steps
      ((List.range' 0 (s.clock.plan s.config dt s.paused).1.steps.toNat).map UInt32.ofNat)
      s.outbox s.engine.inbox with
  | error f => rfl
  | ok result =>
    rcases result with ⟨sent, outbox, inbox⟩
    cases sent with
    | error e => rfl
    | ok _ =>
      simp only [ok_bind, pure_bind, Except.map]
      split
      · rfl
      · rw [map_bind]
        refine bind_congr fun waited => ?_
        cases waited.config.threading with
        | taskPool => rfl
        | singleThread =>
          dsimp only
          rw [map_bind]
          exact bind_pure _

/-- What becomes of a call once it has begun. -/
theorem exists_moves {c begun : Course S T} {event : Session.Event S}
    {result : Except Fault (Session S T)} (hidle : c.phase = .idle)
    (hbegin : c.begin event = .ok begun) (h : begun.Becomes result) :
    ∃ moves : List (Move S), (∀ move ∈ moves, ∀ event, move ≠ .call event) ∧
      (fun after => (after.phase, after.session)) <$> (.call event :: moves).foldlM perform c =
        (fun s => (.idle, s)) <$> result := by
  rcases h with ⟨moves, hmoves, hresult⟩
  refine ⟨moves, hmoves, ?_⟩
  have hperform : c.perform (.call event) = .ok begun := by
    unfold perform
    rw [hidle]
    exact hbegin
  rw [List.foldlM_cons, hperform]
  exact hresult

/-- The configuration is changed at once, and the engine is told when no steps are in flight. -/
theorem undisturbed_setConfig {c : Course S T} (hidle : c.phase = .idle) (config : Config S) :
    ∃ moves : List (Move S), (∀ move ∈ moves, ∀ event, move ≠ .call event) ∧
      (fun after => (after.phase, after.session)) <$>
        (.call (.setConfig config) :: moves).foldlM perform c =
        (fun s => (.idle, s)) <$> c.session.perform (.setConfig config) := by
  cases hcheck : config.check with
  | error e =>
    have hbegin : c.begin (.setConfig config) = .ok c := by
      unfold begin
      dsimp only
      rw [hcheck]
    have hperform : c.session.perform (.setConfig config) = .ok c.session := by
      unfold Session.perform Session.setConfig
      dsimp only
      rw [hcheck]
      rfl
    rw [hperform]
    exact exists_moves hidle hbegin (.of_idle hidle)
  | ok _ =>
    have hbegin : c.begin (.setConfig config) = .ok { c with
        session := { c.session with config }, phase := .joining (.configure config) } := by
      unfold begin
      dsimp only
      rw [hcheck]
    have hperform : c.session.perform (.setConfig config) =
        Session.waitForPending { c.session with config } >>= fun s => .ok { s with
          engine := { s.engine with world := s.engine.world.setConfig config } } := by
      unfold Session.perform Session.setConfig
      dsimp only
      rw [hcheck]
      dsimp only
      rw [map_bind]
      rfl
    rw [hperform]
    exact exists_moves hidle hbegin (becomes_joined rfl fun d => .of_idle rfl)

/-- A call does what it does when nothing comes between its stages, other than steps that it waits
for. -/
theorem undisturbed {c : Course S T} (hidle : c.phase = .idle) {event : Session.Event S}
    (hcall : event.IsCall) :
    ∃ moves : List (Move S), (∀ move ∈ moves, ∀ event, move ≠ .call event) ∧
      (fun after => (after.phase, after.session)) <$> (.call event :: moves).foldlM perform c =
        (fun s => (.idle, s)) <$> c.session.perform event := by
  have hrequest : event.IsRequest → c.begin event = (do
      return { c with session := ← c.session.perform event }) →
      ∃ moves : List (Move S), (∀ move ∈ moves, ∀ event, move ≠ .call event) ∧
        (fun after => (after.phase, after.session)) <$> (.call event :: moves).foldlM perform c =
          (fun s => (.idle, s)) <$> c.session.perform event := by
    intro h hbegin
    rcases Session.perform_request c.session h with ⟨after, hafter, _⟩
    rw [hafter] at hbegin ⊢
    exact exists_moves hidle hbegin (.of_idle hidle)
  cases event with
  | advance dt =>
    have hperform := advance_eq_sealEach c.session dt
    rw [← show c.session.perform (.advance dt) = (·.2) <$> c.session.advance dt from rfl] at hperform
    rw [hperform]
    exact exists_moves hidle rfl (becomes_sealed rfl (Nat.zero_add _))
  | setConfig config => exact undisturbed_setConfig hidle config
  | installHook hook => exact exists_moves hidle rfl (becomes_joined rfl fun d => .of_idle rfl)
  | takeJournal =>
    have hperform : c.session.perform .takeJournal = c.session.waitForPending >>= fun s =>
        .ok { s with engine := s.engine.takeJournal.2 } := by
      unfold Session.perform Session.takeJournal
      rw [map_bind]
      rfl
    rw [hperform]
    exact exists_moves hidle rfl (becomes_joined rfl fun d => .of_idle rfl)
  | waitForPending =>
    have hperform : c.session.perform .waitForPending =
        c.session.waitForPending >>= fun s => .ok s := (bind_pure _).symm
    rw [hperform]
    exact exists_moves hidle rfl (becomes_joined rfl fun d => .of_idle rfl)
  | pull => exact exists_moves hidle rfl (.of_idle hidle)
  | setPaused paused => exact exists_moves hidle rfl (.of_idle hidle)
  | tick | handOver _ | step => exact hcall.elim
  | register _ _ | unregister _ | unregisterOwner _ | setPosition _ _ _ | setVelocity _ _ _
  | setKinematicTarget _ _ _ | addForce _ _ _ | setInverseMass _ _ _ | setTetherStiffness _ _
  | setSuspensionTarget _ _ | setJointRestLength _ _ => exact hrequest trivial rfl

/-- The background does what a background step does. -/
theorem background_session (c : Course S T) : (·.session) <$> c.background = c.session.tick := by
  unfold background Session.tick
  cases c.session.inFlight with
  | none => rfl
  | some left =>
    cases left with
    | zero => rfl
    | succ left => exact (step_bind _ pure).trans (bind_pure _)

end Course

end TetheredParticles
