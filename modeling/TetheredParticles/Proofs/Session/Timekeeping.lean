import Mathlib
import TetheredParticles.Proofs.Clock.Exact
import TetheredParticles.Proofs.Session.Requests
import TetheredParticles.Proofs.Snapshot.Tiling
/-!
# Keeping time

A session turns the time of its frames into steps. Over exact numbers and with a configuration that
stays the same, its steps never get ahead of the frames, the snapshots it seals cover the time of
its steps without gaps, and the time that its results are for only ever moves forwards.

* `Session.SameTime` — what is no frame does not touch the clock.
* `Session.Advanced`, `Session.advanced_of_frame` — what a frame does to the times of a session.
* `Chronicle`, `Chronicle.run` — a session, and a record of its frames.
* `Chronicle.Timely`, `Chronicle.run_timely` — the account of time balances.
* `Chronicle.resultsTime_le` — results do not go back in time.
-/

namespace TetheredParticles

namespace Session

/-- The configuration and the clock are as they were. -/
structure SameTime (s after : Session Rat Rat) : Prop where
  config : after.config = s.config
  clock : after.clock = s.clock
  externalTime : after.externalTime = s.externalTime

/-- The frame time that an event passes on, if it is a frame. -/
def Event.frame? {S : Type} : Event S → Option S
  | .advance dt | .handOver dt => some dt
  | _ => none

/-- How the next frame would be stepped. -/
def planned (s : Session Rat Rat) (dt : Rat) : StepPlan Rat :=
  (s.clock.plan s.config dt s.paused).1

/-- The snapshots that the next frame would seal. -/
def sealedBy (s : Session Rat Rat) (dt : Rat) : List (PushSnapshot Rat Rat) :=
  match s.outbox.sealSteps s.engine.inbox s.externalTime (s.planned dt).dt (s.planned dt).steps with
  | .ok (_, _, inbox) => inbox.queue.drop s.engine.inbox.queue.length
  | .error _ => []

/-- A frame hands its plan to the clock, and seals one snapshot for each step of it. -/
structure Advanced (s : Session Rat Rat) (dt : Rat) (after : Session Rat Rat) : Prop where
  config : after.config = s.config
  clock : after.clock = (s.clock.plan s.config dt s.paused).2
  externalTime : after.externalTime = s.externalTime + (s.planned dt).span
  sizes : (s.sealedBy dt).map (·.dt) = List.replicate (s.planned dt).steps.toNat (s.planned dt).dt
  tiled : Tiles s.externalTime (s.sealedBy dt) after.externalTime

/-! ## What is no frame -/

namespace SameTime

variable {s after last : Session Rat Rat}

theorem refl (s : Session Rat Rat) : s.SameTime s := ⟨rfl, rfl, rfl⟩

theorem trans (h : s.SameTime after) (hlast : after.SameTime last) : s.SameTime last :=
  ⟨hlast.config.trans h.config, hlast.clock.trans h.clock,
    hlast.externalTime.trans h.externalTime⟩

theorem of_buffers (h : s.Buffers after) : s.SameTime after := by
  rcases h with ⟨registry, deltas, rfl⟩
  exact ⟨rfl, rfl, rfl⟩

end SameTime

/-- However it ends, a step leaves the clock alone. -/
theorem sameTime_runStep (s : Session Rat Rat) : Ends s.runStep (fun _ => True) s.SameTime := by
  unfold runStep
  cases s.engine.stepNext with
  | error f => exact .error trivial
  | ok next =>
    rcases next with ⟨_ | timestamp, engine⟩
    · exact .pure ⟨rfl, rfl, rfl⟩
    · exact .pure ⟨rfl, rfl, rfl⟩

theorem sameTime_stepsKeep (s : Session Rat Rat) : StepsKeep (fun _ => True) s.SameTime where
  step := fun after h => (sameTime_runStep after).weaken fun _ hlast => h.trans hlast
  flight := fun _ _ h => ⟨h.config, h.clock, h.externalTime⟩

/-- Only frames and new configurations have to do with time. -/
theorem sameTime_of_not_frame (s : Session Rat Rat) {event : Event Rat}
    (hframe : event.frame? = none) (hconfig : ∀ config, event ≠ .setConfig config) :
    Ends (s.perform event) (fun _ => True) s.SameTime := by
  have hwait := (sameTime_stepsKeep s).waitForPending (.refl s)
  by_cases hrequest : event.IsRequest
  · rcases perform_request s hrequest with ⟨after, hafter, hbuffers⟩
    exact .of_eq_ok hafter (.of_buffers hbuffers)
  · cases event with
    | setPaused paused => exact .ok ⟨rfl, rfl, rfl⟩
    | setConfig config => exact absurd rfl (hconfig config)
    | installHook hook =>
      refine hwait.bind fun waited h => ?_
      exact .pure ⟨h.config, h.clock, h.externalTime⟩
    | takeJournal =>
      refine .map (hwait.bind fun waited h => ?_)
      exact .pure ⟨h.config, h.clock, h.externalTime⟩
    | waitForPending => exact hwait
    | pull => exact .ok ⟨rfl, rfl, rfl⟩
    | tick => exact (sameTime_stepsKeep s).tick (.refl s)
    | step => exact sameTime_runStep s
    | advance dt => cases hframe
    | handOver dt => cases hframe
    | _ => exact absurd trivial hrequest

/-! ## Frames -/

variable {s : Session Rat Rat} {since : ProxyId → Timestamp}

theorem Advanced.sameTime {dt : Rat} {after last : Session Rat Rat} (h : s.Advanced dt after)
    (hlast : after.SameTime last) : s.Advanced dt last where
  config := hlast.config.trans h.config
  clock := hlast.clock.trans h.clock
  externalTime := hlast.externalTime.trans h.externalTime
  sizes := h.sizes
  tiled := hlast.externalTime ▸ h.tiled

/-- The snapshots of a consistent session are accepted. -/
theorem advanced_handOver (h : s.Consistent since) (dt : Rat) :
    Ends (s.handOver dt) (fun _ => True) fun (_, _, after) => s.Advanced dt after := by
  unfold handOver
  dsimp only
  refine ((h.sealSteps_cases _ _).mono (fun _ _ => trivial) fun _ hseal => hseal).bind_eq ?_
  rintro ⟨sent, outbox, inbox⟩ hseal ⟨hsent, _⟩
  subst hsent
  rcases Outbox.sealSteps_tiles hseal with ⟨sealed, hqueue, hsizes, htiles⟩
  -- snapshots are appended to the queue, so that what is new is what comes after the old ones
  have hsealed : s.sealedBy dt = sealed := by
    unfold sealedBy planned
    rw [hseal]
    dsimp only
    rw [hqueue, List.drop_left]
  have hadvanced : ∀ after : Session Rat Rat, after.config = s.config →
      after.clock = (s.clock.plan s.config dt s.paused).2 →
      after.externalTime = s.externalTime + (s.planned dt).span → s.Advanced dt after := by
    intro after hconfig hclock htime
    refine ⟨hconfig, hclock, htime, ?_, ?_⟩
    · rw [hsealed]
      exact hsizes
    · rw [hsealed, htime]
      exact htiles
  dsimp only
  split
  case isTrue => exact .pure (hadvanced _ rfl rfl rfl)
  case isFalse =>
    refine ((sameTime_stepsKeep _).waitForPending (.refl _)).bind fun waited hwaited => ?_
    exact .pure (hadvanced waited hwaited.config hwaited.clock hwaited.externalTime)

theorem advanced_advance (h : s.Consistent since) (dt : Rat) :
    Ends (s.advance dt) (fun _ => True) fun (_, after) => s.Advanced dt after := by
  rw [advance_eq]
  refine (advanced_handOver h dt).bind ?_
  rintro ⟨count, target, handed⟩ hhanded
  dsimp only at hhanded ⊢
  split
  case isTrue => exact .pure hhanded
  case isFalse =>
    split
    · exact .pure (hhanded.sameTime ⟨rfl, rfl, rfl⟩)
    · refine ((sameTime_stepsKeep handed).runSteps (.refl handed) count).bind fun after hafter => ?_
      exact .pure (hhanded.sameTime hafter)

theorem advanced_of_frame (h : s.Consistent since) {event : Event Rat} {dt : Rat}
    (hframe : event.frame? = some dt) :
    Ends (s.perform event) (fun _ => True) (s.Advanced dt) := by
  cases event with
  | advance dt =>
    cases hframe
    exact .map (advanced_advance h dt)
  | handOver dt =>
    cases hframe
    exact .map (advanced_handOver h dt)
  | _ => cases hframe

end Session

/-! ## The record of a session -/

/-- A session over exact numbers, and a record of its frames. -/
structure Chronicle where
  session : Session Rat Rat
  /-- The time that has passed in frames while the session was not paused. -/
  elapsed : Rat
  /-- How each frame was stepped. -/
  plans : List (StepPlan Rat)
  /-- How many steps each frame covered, before the number was made to fit. -/
  covered : List Int
  /-- The snapshots that were sealed. -/
  sealed : List (PushSnapshot Rat Rat)

namespace Chronicle

/-- A session without frames. -/
def start (config : Config Rat) : Chronicle := ⟨.start config, 0, [], [], []⟩

/-- A frame is added to the record. -/
def framed (c : Chronicle) (dt : Rat) (after : Session Rat Rat) : Chronicle where
  session := after
  elapsed := c.elapsed + StepClock.frameTime dt c.session.paused
  plans := c.plans ++ [c.session.planned dt]
  covered := c.covered ++ [c.session.clock.covers c.session.config dt c.session.paused]
  sealed := c.sealed ++ c.session.sealedBy dt

/-- The session and its record after an event. -/
def perform (c : Chronicle) (event : Session.Event Rat) : Except Fault Chronicle := do
  let after ← c.session.perform event
  match event.frame? with
  | some dt => return c.framed dt after
  | none => return { c with session := after }

/-- What has become of a session after events in order. -/
def run (config : Config Rat) (events : List (Session.Event Rat)) : Except Fault Chronicle :=
  events.foldlM perform (start config)

/-- No frame covered so many steps that their number does not fit a word. -/
def Counted (c : Chronicle) : Prop := ∀ steps ∈ c.covered, steps < UInt32.size - 1

instance (c : Chronicle) : Decidable c.Counted :=
  inferInstanceAs (Decidable (∀ steps ∈ c.covered, steps < UInt32.size - 1))

/-- The account of time. -/
structure Timely (config : Config Rat) (c : Chronicle) : Prop where
  /-- What is stepped or carried over is no more than what has passed. -/
  behind : c.session.externalTime + c.session.accumulatedTime ≤ c.elapsed
  /-- Less than a step is carried over. -/
  settled : c.session.clock.Settled config
  /-- Steps are allowed in number and size. -/
  plans : ∀ plan ∈ c.plans,
    plan.steps ≤ config.maxSubsteps ∧ 0 ≤ plan.dt ∧ plan.dt ≤ config.longestStep
  /-- Every step has its snapshot. -/
  sizes : c.sealed.map (·.dt) =
    c.plans.flatMap fun plan => List.replicate plan.steps.toNat plan.dt
  /-- The snapshots cover the time of the steps without gaps. -/
  tiled : Tiles 0 c.sealed c.session.externalTime

/-- What the account of time rests on. -/
structure Kept (config : Config Rat) (c : Chronicle) : Prop where
  consistent : ∃ since, c.session.Consistent since
  configured : c.session.config = config
  timely : c.Counted → c.Timely config

variable {config : Config Rat} {c : Chronicle}

theorem timely_start (hc : config.Timed) : (start config).Timely config where
  behind := (add_zero (0 : Rat)).le
  settled := StepClock.settled_start hc
  plans := fun _ hplan => absurd hplan List.not_mem_nil
  sizes := rfl
  tiled := rfl

theorem kept_start (hc : config.Timed) : Kept config (start config) where
  consistent := ⟨fun _ => .zero, Session.consistent_start config _⟩
  configured := rfl
  timely := fun _ => timely_start hc

theorem Timely.sameTime (h : c.Timely config) {after : Session Rat Rat}
    (hsame : c.session.SameTime after) : Timely config { c with session := after } where
  behind := by
    unfold Session.accumulatedTime
    dsimp only
    rw [hsame.externalTime, hsame.clock]
    exact h.behind
  settled := hsame.clock.symm ▸ h.settled
  plans := h.plans
  sizes := h.sizes
  tiled := hsame.externalTime.symm ▸ h.tiled

/-- A frame keeps the account balanced. -/
theorem Timely.framed (h : c.Timely config) {dt : Rat} {after : Session Rat Rat}
    (hadvanced : c.session.Advanced dt after)
    (hbalanced : StepClock.Balanced config c.session.clock
      (StepClock.frameTime dt c.session.paused) (c.session.planned dt) after.clock) :
    (c.framed dt after).Timely config where
  behind := by
    have hbehind : c.session.externalTime + c.session.clock.accumulated ≤ c.elapsed := h.behind
    have hspan := hbalanced.span_le
    unfold Chronicle.framed Session.accumulatedTime
    dsimp only
    rw [hadvanced.externalTime]
    linarith
  settled := hbalanced.settled
  plans := by
    intro plan hplan
    rcases List.mem_append.mp hplan with hold | hnew
    · exact h.plans plan hold
    · rw [List.mem_singleton.mp hnew]
      exact ⟨hbalanced.steps_le, hbalanced.dt_nonneg, hbalanced.dt_le⟩
  sizes := by
    unfold Chronicle.framed
    dsimp only
    rw [List.map_append, List.flatMap_append, h.sizes, hadvanced.sizes, List.flatMap_singleton]
  tiled := h.tiled.append hadvanced.tiled

/-- Nothing that happens to a session upsets the account or sends its results back in time. -/
theorem Kept.perform (hc : config.Timed) (h : Kept config c) {event : Session.Event Rat}
    (hevent : ∀ other, event ≠ .setConfig other) :
    Ends (c.perform event) Session.Overflow fun after => Kept config after ∧
      (after.Counted → c.session.resultsTime ≤ after.session.resultsTime) := by
  rcases h.consistent with ⟨since, hconsistent⟩
  have hkept := hconsistent.perform event
  unfold Chronicle.perform
  cases hframe : event.frame? with
  | none =>
    have hsame := Session.sameTime_of_not_frame c.session hframe hevent
    refine (hkept.and hsame).bind ?_
    rintro after ⟨hafter, hsame⟩
    refine .pure ⟨⟨⟨_, hafter⟩, hsame.config.trans h.configured, fun hcounted => ?_⟩, fun _ => ?_⟩
    · exact (h.timely hcounted).sameTime hsame
    · unfold Session.resultsTime
      dsimp only
      rw [hsame.config, hsame.clock, hsame.externalTime]
  | some dt =>
    refine (hkept.and (Session.advanced_of_frame hconsistent hframe)).bind ?_
    rintro after ⟨hafter, hadvanced⟩
    -- if all frames up to this one could be counted, so could those before it
    have hbalanced : (c.framed dt after).Counted → c.Timely config ∧
        StepClock.Balanced config c.session.clock (StepClock.frameTime dt c.session.paused)
          (c.session.planned dt) after.clock := by
      intro hcounted
      have htimely := h.timely fun steps hsteps => hcounted steps (List.mem_append_left _ hsteps)
      have hcovers := hcounted _ (List.mem_append_right _ (List.mem_singleton_self _))
      rw [h.configured] at hcovers
      have hplan := StepClock.plan_balanced hc htimely.settled hcovers
      rw [hadvanced.clock]
      unfold Session.planned
      rw [h.configured]
      exact ⟨htimely, hplan⟩
    refine .pure ⟨⟨⟨_, hafter⟩, hadvanced.config.trans h.configured, fun hcounted => ?_⟩,
      fun hcounted => ?_⟩
    · exact (hbalanced hcounted).1.framed hadvanced (hbalanced hcounted).2
    · have hspan := (hbalanced hcounted).2.le_span
      show c.session.resultsTime ≤ after.resultsTime
      unfold Session.resultsTime
      dsimp only
      rw [hadvanced.config, hadvanced.externalTime]
      show c.session.externalTime + c.session.clock.accumulated - _ ≤
        c.session.externalTime + _ + after.clock.accumulated - _
      linarith

theorem run_kept (hc : config.Timed) {events : List (Session.Event Rat)}
    (hevents : ∀ event ∈ events, ∀ other, event ≠ .setConfig other) :
    Ends (run config events) Session.Overflow (Kept config) :=
  Ends.foldlM_keeps (kept_start hc) fun _ event hevent h =>
    (h.perform hc (hevents event hevent)).weaken fun _ hafter => hafter.1

/-- Whatever is asked of a session with a configuration that stays the same, its account of time
balances. -/
theorem run_timely (hc : config.check = .ok ()) {events : List (Session.Event Rat)}
    (hevents : ∀ event ∈ events, ∀ other, event ≠ .setConfig other) :
    Ends (run config events) Session.Overflow fun c => c.Counted → c.Timely config :=
  (run_kept (Config.timed_of_check hc) hevents).weaken fun _ h => h.timely

/-- A frame that is cut down to four steps, one that leaves a part of a step over, one while paused,
and a negative one, which turns what was left over into a step. -/
def frames : List (Session.Event Rat) :=
  [.advance 1, .advance (1 / 25), .setPaused true, .advance 1, .setPaused false, .advance (-1)]

theorem standard_check : (Config.standard : Config Rat).check = .ok () := by cbv

theorem frames_timely : ∃ c, run .standard frames = .ok c ∧ c.Counted ∧ c.Timely .standard := by
  have hcounted : Ends (run .standard frames) never Counted := by decide_cbv
  have hevents : ∀ event ∈ frames, ∀ other, event ≠ .setConfig other := by
    intro event hevent other
    rintro rfl
    simp [frames] at hevent
  have htimely := run_timely standard_check hevents
  rcases hcounted.exists_ok fun _ h => h with ⟨c, hrun, hcounted⟩
  exact ⟨c, hrun, hcounted, htimely.holds_of_eq hrun hcounted⟩

/-- Whatever has been asked of a session with a configuration that stays the same, what is asked
next does not send its results back in time. -/
theorem resultsTime_le (hc : config.check = .ok ()) {events : List (Session.Event Rat)}
    (hevents : ∀ event ∈ events, ∀ other, event ≠ .setConfig other) {next : Session.Event Rat}
    (hnext : ∀ other, next ≠ .setConfig other) :
    Ends (run config events) Session.Overflow fun c =>
      Ends (c.perform next) Session.Overflow fun after =>
        after.Counted → c.session.resultsTime ≤ after.session.resultsTime := by
  have htimed := Config.timed_of_check hc
  refine (run_kept htimed hevents).weaken fun c h => ?_
  exact (h.perform htimed hnext).weaken fun _ hafter => hafter.2

/-- What is left over is as much part of the time of results before it is made a step as after. -/
theorem leftover_resultsTime_le : ∃ c after, run .standard [.advance 1, .advance (1 / 25)] = .ok c ∧
    c.perform (.advance (-1)) = .ok after ∧ after.Counted ∧
    c.session.resultsTime ≤ after.session.resultsTime := by
  have hcounted : Ends (run .standard [.advance 1, .advance (1 / 25)]) never fun c =>
      Ends (c.perform (.advance (-1))) never Counted := by decide_cbv
  have hevents : ∀ event ∈ [Session.Event.advance 1, .advance (1 / 25 : Rat)],
      ∀ other, event ≠ .setConfig other := by
    intro event hevent other
    rintro rfl
    simp at hevent
  have hnext : ∀ other, Session.Event.advance (-1 : Rat) ≠ .setConfig other := by
    rintro other ⟨⟩
  have hle := resultsTime_le standard_check hevents hnext
  rcases hcounted.exists_ok fun _ h => h with ⟨c, hrun, hnext⟩
  rcases hnext.exists_ok fun _ h => h with ⟨after, hperform, hcounted⟩
  exact ⟨c, after, hrun, hperform, hcounted,
    (hle.holds_of_eq hrun).holds_of_eq hperform hcounted⟩

end Chronicle

end TetheredParticles
