import Mathlib.Tactic.Ring
import TetheredParticles.Proofs.Scalar.Exact
import TetheredParticles.Proofs.Snapshot.Channel
/-!
# The times that snapshots cover

Every push snapshot belongs to an interval of time: it has a start time, and covers one step from
there. The snapshots that an advance seals follow each other without gaps, as long as times are not
rounded.

* `PushSnapshot.interval`, `Outbox.sealSteps_intervals` — the intervals of an advance.
* `Tiles` — the intervals of a list of snapshots, one after the other, fill a span of time.
* `Outbox.sealSteps_tiles` — those of an advance do.
-/

namespace TetheredParticles

variable {S T : Type}

/-- Where the step of a snapshot starts, and how long it is. -/
def PushSnapshot.interval (q : PushSnapshot S T) : T × S := (q.startTime, q.dt)

namespace Outbox

variable [Scalar S] [Scalar T] [Timeline S T]

/-- The step with a number starts after that many steps of the same size. -/
theorem interval_snapshot (o : Outbox S) (startTime : T) (dt : S) (count step : UInt32) :
    (o.snapshot startTime dt count step).interval =
      (startTime + Scalar.ofCount step * Timeline.widen dt, dt) := rfl

theorem sealEach_intervals {startTime : T} {dt : S} {count : UInt32} {steps : List UInt32}
    {o after : Outbox S} {channel inbox : Channel (PushSnapshot S T)}
    (h : sealEach startTime dt count steps o channel = .ok (.ok (), after, inbox)) :
    ∃ sealed, inbox.queue = channel.queue ++ sealed ∧ sealed.map PushSnapshot.interval =
      steps.map fun step => (startTime + Scalar.ofCount step * Timeline.widen dt, dt) := by
  induction steps generalizing o channel with
  | nil =>
    unfold sealEach at h
    cases h
    exact ⟨[], (List.append_nil _).symm, rfl⟩
  | cons step rest ih =>
    unfold sealEach at h
    dsimp only at h
    cases hsend : channel.send (o.snapshot startTime dt count step) with
    | error e =>
      rw [hsend] at h
      cases h
    | ok sent =>
      rw [hsend] at h
      rcases exists_of_bind_ok h with ⟨next, _, hrest⟩
      rcases ih hrest with ⟨sealed, hqueue, hintervals⟩
      rw [(Channel.send_eq_ok.mp hsend).2.2, List.append_assoc] at hqueue
      refine ⟨o.snapshot startTime dt count step :: sealed, hqueue, ?_⟩
      rw [List.map_cons, List.map_cons, hintervals, interval_snapshot]

/-- The snapshots that an advance adds to the queue, and the interval of each. -/
theorem sealSteps_intervals {startTime : T} {dt : S} {steps : UInt32} {target : Timestamp}
    {o after : Outbox S} {channel inbox : Channel (PushSnapshot S T)}
    (h : o.sealSteps channel startTime dt steps = .ok (.ok target, after, inbox)) :
    ∃ sealed, inbox.queue = channel.queue ++ sealed ∧ sealed.map PushSnapshot.interval =
      (List.range steps.toNat).map fun i =>
        (startTime + Scalar.ofCount (UInt32.ofNat i) * Timeline.widen dt, dt) := by
  unfold sealSteps at h
  rcases exists_of_bind_ok h with ⟨⟨sent, _, _⟩, hseal, hend⟩
  cases sent with
  | error e => cases hend
  | ok _ =>
    cases hend
    rcases sealEach_intervals hseal with ⟨sealed, hqueue, hintervals⟩
    rw [List.map_map] at hintervals
    exact ⟨sealed, hqueue, hintervals⟩

end Outbox

/-! ## Exact times -/

/-- Each snapshot starts where the one before it ends, the first one at `start`, and the last one
ends at `finish`. -/
def Tiles : Rat → List (PushSnapshot Rat Rat) → Rat → Prop
  | start, [], finish => start = finish
  | start, q :: rest, finish => q.startTime = start ∧ Tiles (q.startTime + q.dt) rest finish

namespace Tiles

variable {start middle finish : Rat} {done rest : List (PushSnapshot Rat Rat)}

theorem append (h : Tiles start done middle) (hrest : Tiles middle rest finish) :
    Tiles start (done ++ rest) finish := by
  induction done generalizing start with
  | nil =>
    cases h
    exact hrest
  | cons q done ih => exact ⟨h.1, ih h.2⟩

/-- Steps of one size fill the time they take together. -/
theorem of_intervals {dt : Rat} {first count : Nat} {sealed : List (PushSnapshot Rat Rat)}
    (h : sealed.map PushSnapshot.interval =
      (List.range' first count).map fun i : Nat => (start + i * dt, dt)) :
    Tiles (start + first * dt) sealed (start + (first + count : Nat) * dt) := by
  induction count generalizing first sealed with
  | zero =>
    rw [List.range'_zero, List.map_nil, List.map_eq_nil_iff] at h
    subst h
    exact rfl
  | succ count ih =>
    rw [List.range'_succ, List.map_cons] at h
    rcases List.map_eq_cons_iff.mp h with ⟨q, rest, rfl, hq, hrest⟩
    have hstart : q.startTime = start + first * dt := congrArg Prod.fst hq
    have hdt : q.dt = dt := congrArg Prod.snd hq
    have hnext : q.startTime + q.dt = start + (first + 1 : Nat) * dt := by
      rw [hstart, hdt]
      push_cast
      ring
    refine ⟨hstart, ?_⟩
    rw [hnext, ← Nat.add_assoc, Nat.add_right_comm]
    exact ih hrest

end Tiles

/-- The snapshots of an advance fill the time of its steps, from where it starts. -/
theorem Outbox.sealSteps_tiles {startTime dt : Rat} {steps : UInt32} {target : Timestamp}
    {o after : Outbox Rat} {channel inbox : Channel (PushSnapshot Rat Rat)}
    (h : o.sealSteps channel startTime dt steps = .ok (.ok target, after, inbox)) :
    ∃ sealed, inbox.queue = channel.queue ++ sealed ∧
      sealed.map (·.dt) = List.replicate steps.toNat dt ∧
      Tiles startTime sealed (startTime + dt * Scalar.ofCount steps) := by
  rcases sealSteps_intervals h with ⟨sealed, hqueue, hintervals⟩
  have hcounts : sealed.map PushSnapshot.interval =
      (List.range' 0 steps.toNat).map fun i : Nat => (startTime + i * dt, dt) := by
    rw [hintervals, List.range_eq_range']
    refine List.map_congr_left fun i hi => ?_
    have hlt := (List.mem_range'_1.mp hi).2
    have hsize := steps.toNat_lt
    have hi : (UInt32.ofNat i).toNat = i := by
      rw [UInt32.toNat_ofNat', Nat.mod_eq_of_lt (by omega)]
    show (startTime + ((UInt32.ofNat i).toNat : Rat) * dt, dt) = _
    rw [hi]
  refine ⟨sealed, hqueue, ?_, ?_⟩
  · have hsizes := congrArg (List.map Prod.snd) hcounts
    rw [List.map_map, List.map_map] at hsizes
    refine hsizes.trans ?_
    rw [List.eq_replicate_iff]
    refine ⟨by rw [List.length_map, List.length_range'], fun size hsize => ?_⟩
    rcases List.mem_map.mp hsize with ⟨i, _, rfl⟩
    rfl
  · have htiles := Tiles.of_intervals hcounts
    rw [Nat.cast_zero, zero_mul, add_zero, Nat.zero_add, mul_comm] at htiles
    exact htiles

end TetheredParticles
