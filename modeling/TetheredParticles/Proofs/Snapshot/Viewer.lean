import TetheredParticles.Proofs.Snapshot.Playback
/-!
# Pulls after any run

Between two pulls the producer may write, register, unregister and collect garbage as it likes, and
snapshots arrive. A result may wait long after the write or the destruction that outdates it; when
it is pulled at last it is not used.

* `Viewer` — a registry, and the results on their way to it.
* `Viewer.Informed` — whatever waits has arrived, in order.
* `Viewer.pull_faithful` — what a pull does after any run.
-/

namespace TetheredParticles

variable {S T : Type}

/-- A registry, and the results on their way to it. -/
structure Viewer (S T : Type) where
  registry : Registry S
  /-- The results that have arrived. -/
  channel : Channel (PullSnapshot S T)
  /-- The results that wait to be used. -/
  playback : Playback S T
  /-- Every snapshot that has arrived, oldest first. -/
  heard : List (PullSnapshot S T)

namespace Viewer

/-- Nothing has happened yet. -/
def start : Viewer S T := ⟨.empty, .empty, .empty, []⟩

/-- What may happen. -/
inductive Event (S T : Type) where
  | call (call : Registry.Call S)
  /-- A snapshot arrives; one that does not follow those before it is refused. -/
  | arrive (snapshot : PullSnapshot S T)
  | pullLatest
  | pullAt (time : T)

/-- Everything on its way has arrived at some time, and arrivals are in order. -/
structure Informed (v : Viewer S T) : Prop where
  playback : v.playback.Sourced v.heard
  queue : ∀ s ∈ v.channel.queue, s ∈ v.heard
  sent : ∀ s ∈ v.heard, ∃ t ∈ v.channel.lastSent, s.timestamp ≤ t
  ascending : v.heard.Pairwise fun a b => a.timestamp < b.timestamp

theorem informed_start : (start : Viewer S T).Informed := by
  refine ⟨Playback.sourced_empty, ?_, ?_, .nil⟩
  · intro s hs
    cases hs
  · intro s hs
    cases hs

variable [Scalar S] [Scalar T] [Timeline S T]

/-- What a pull reports and leaves behind: the plain one, or the one at a time. -/
def pulled (v : Viewer S T) (time : Option T) : Pulled S T :=
  let playback := (v.playback.receive v.channel).1
  match time with
  | none => playback.pullLatest v.registry
  | some time => playback.pullAt time v.registry

/-- The viewer after a pull. -/
def pull (v : Viewer S T) (time : Option T) : Viewer S T where
  registry := (v.pulled time).registry
  channel := (v.playback.receive v.channel).2
  playback := (v.pulled time).playback
  heard := v.heard

/-- The viewer after an event. -/
def perform (v : Viewer S T) : Event S T → Viewer S T
  | .call call => { v with registry := v.registry.perform call }
  | .arrive snapshot =>
    match v.channel.send snapshot with
    | .ok channel => { v with channel, heard := v.heard ++ [snapshot] }
    | .error _ => v
  | .pullLatest => v.pull none
  | .pullAt time => v.pull (some time)

/-- What has become of the viewer after events in order. -/
def run (events : List (Event S T)) : Viewer S T := events.foldl perform start

namespace Informed

variable {v : Viewer S T}

/-- An arrival is behind all those before it, or refused. -/
theorem arrive (h : v.Informed) (snapshot : PullSnapshot S T) :
    (v.perform (.arrive snapshot)).Informed := by
  unfold perform
  dsimp only
  split
  case h_2 => exact h
  case h_1 channel hsend =>
    rcases Channel.send_ok hsend with ⟨hlater, hqueue, hlast⟩
    have hmore : ∀ s ∈ v.heard, s ∈ v.heard ++ [snapshot] := fun s hs =>
      List.mem_append_left _ hs
    -- the channel refuses what is not behind the last number sent
    have hbefore : ∀ s ∈ v.heard, s.timestamp < snapshot.timestamp := by
      intro s hs
      rcases h.sent s hs with ⟨t, ht, hle⟩
      exact lt_of_le_of_lt hle (hlater t ht)
    constructor
    case playback => exact h.playback.mono hmore
    case queue =>
      intro s hs
      dsimp only at hs ⊢
      rw [hqueue] at hs
      rcases List.mem_append.mp hs with hs | hs
      · exact hmore s (h.queue s hs)
      · exact List.mem_append_right _ hs
    case sent =>
      intro s hs
      refine ⟨snapshot.timestamp, hlast, ?_⟩
      rcases List.mem_append.mp hs with hs | hs
      · exact (hbefore s hs).le
      · rw [List.mem_singleton.mp hs]
    case ascending =>
      refine List.pairwise_append.mpr ⟨h.ascending, List.pairwise_singleton _ _, ?_⟩
      intro a ha b hb
      rw [List.mem_singleton.mp hb]
      exact hbefore a ha

/-- What a pull reports comes from what has arrived. -/
theorem reported (h : v.Informed) (time : Option T) :
    Reported v.registry v.heard (v.pulled time) ∧ (v.pulled time).playback.Sourced v.heard := by
  have hreceived := (h.playback.receive h.queue).1
  cases time with
  | none => exact hreceived.pullLatest v.registry
  | some time => exact hreceived.pullAt time v.registry

theorem pull (h : v.Informed) (time : Option T) : (v.pull time).Informed := by
  refine ⟨(h.reported time).2, (h.playback.receive h.queue).2, ?_, h.ascending⟩
  intro s hs
  rcases h.sent s hs with ⟨t, ht, hle⟩
  refine ⟨t, ?_, hle⟩
  show t ∈ (v.playback.receive v.channel).2.lastSent
  rw [Playback.lastSent_receive]
  exact ht

/-- Every event leaves it so. -/
theorem perform (h : v.Informed) (event : Event S T) : (v.perform event).Informed := by
  cases event with
  | call call => exact ⟨h.playback, h.queue, h.sent, h.ascending⟩
  | arrive snapshot => exact h.arrive snapshot
  | pullLatest => exact h.pull none
  | pullAt time => exact h.pull (some time)

end Informed

theorem informed_run (events : List (Event S T)) : (run events).Informed := by
  suffices hall : ∀ v : Viewer S T, v.Informed → (events.foldl perform v).Informed from
    hall start informed_start
  intro v hv
  induction events generalizing v with
  | nil => exact hv
  | cons event rest ih => exact ih (v.perform event) (hv.perform event)

/-- Whatever has happened before, a pull changes only live proxies that it reports, each of them
once, in order, and to states drawn from snapshots no older than the latest write to the proxy;
and what has arrived has done so in order. -/
theorem pull_faithful (events : List (Event S T)) (time : Option T) :
    (run events).heard.Pairwise (fun a b => a.timestamp < b.timestamp) ∧
      Reported (run events).registry (run events).heard ((run events).pulled time) :=
  ⟨(informed_run events).ascending, ((informed_run events).reported time).1⟩

end Viewer

end TetheredParticles
