import TetheredParticles.Snapshot.Channel
import TetheredParticles.Scalar
/-!
# Sealing

The producer's writes are buffered until the next advance. An advance seals one push snapshot for
each of its steps, numbered without gaps; the first one takes the buffered writes along.

* `Outbox.push` — buffers a write.
* `Outbox.sealSteps` — seals the snapshots of an advance and sends them.
-/

namespace TetheredParticles

/-- The producer's buffer. -/
structure Outbox (S : Type) where
  /-- The writes since the last advance, in order. -/
  deltas : List (Delta S) := []
  nextTimestamp : Timestamp := ⟨1⟩

namespace Outbox

variable {S T : Type}

/-- The empty buffer; the first snapshot will be number one. -/
def empty : Outbox S := {}

/-- Buffers a write. -/
def push (o : Outbox S) (delta : Delta S) : Outbox S :=
  { o with deltas := o.deltas ++ [delta] }

/-- The number of the last sealed snapshot. -/
def sealedTimestamp (o : Outbox S) : Timestamp := ⟨o.nextTimestamp.ticks - 1⟩

/-- The snapshot of one step. Only the first step of an advance carries writes. -/
def snapshot [Scalar S] [Scalar T] [Timeline S T] (o : Outbox S) (startTime : T) (dt : S)
    (stepCount step : UInt32) : PushSnapshot S T where
  timestamp := o.nextTimestamp
  startTime := startTime + Scalar.ofCount step * Timeline.widen dt
  dt := dt
  step := step
  stepCount := stepCount
  deltas := if step = 0 then o.deltas else []

/-- The buffer after the snapshot of a step has been taken from it. -/
def taken (o : Outbox S) (step : UInt32) : Outbox S :=
  if step = 0 then { o with deltas := [] } else o

/-- Seals the snapshots of the given steps in order. The first refused one ends it; its writes are
lost. -/
def sealEach [Scalar S] [Scalar T] [Timeline S T] (startTime : T) (dt : S)
    (stepCount : UInt32) :
    List UInt32 → Outbox S → Channel (PushSnapshot S T) →
      Except Fault (Except ChannelError Unit × Outbox S × Channel (PushSnapshot S T))
  | [], o, channel => .ok (.ok (), o, channel)
  | step :: rest, o, channel =>
    let snapshot := o.snapshot startTime dt stepCount step
    let o := o.taken step
    match channel.send snapshot with
    | .error e => .ok (.error e, o, channel)
    | .ok channel => do
      let next ← o.nextTimestamp.next
      sealEach startTime dt stepCount rest { o with nextTimestamp := next } channel

/-- Seals one snapshot per step and sends them. Without steps the writes stay buffered. -/
def sealSteps [Scalar S] [Scalar T] [Timeline S T] (o : Outbox S)
    (channel : Channel (PushSnapshot S T)) (startTime : T) (dt : S) (steps : UInt32) :
    Except Fault (Except ChannelError Timestamp × Outbox S × Channel (PushSnapshot S T)) := do
  let (sent, o, channel) ←
    sealEach startTime dt steps ((List.range steps.toNat).map UInt32.ofNat) o channel
  return (sent.map fun _ => o.sealedTimestamp, o, channel)

end Outbox

end TetheredParticles
