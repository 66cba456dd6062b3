import TetheredParticles.Snapshot
/-!
# Snapshot channels

A channel passes snapshots on in the order of their numbers. It has a sending and a receiving
half, either of which may be dropped. What was sent before the sender was dropped is still
delivered; once it has been, the receiver is told that the channel is disconnected.

* `send`, `receive`, `drain` — refused calls change nothing but what they say.
* `dropSender`, `dropReceiver`.
-/

namespace TetheredParticles

/-- Why a channel refuses a call. -/
inductive ChannelError where
  | nonMonotonic (previous timestamp : Timestamp)
  | disconnected
deriving DecidableEq, Repr

/-- The name of the kind of error. -/
def ChannelError.name : ChannelError → String
  | .nonMonotonic .. => "NonMonotonic"
  | .disconnected => "Disconnected"

/-- What is wrong, in words. -/
def ChannelError.message : ChannelError → String
  | .nonMonotonic previous timestamp =>
    "snapshot " ++ timestamp.text ++ " does not follow " ++ previous.text
  | .disconnected => "the snapshot channel is disconnected"

/-- A queue of snapshots and its two halves. -/
structure Channel (α : Type) where
  /-- Sent and not received yet, oldest first. -/
  queue : List α := []
  lastSent : Option Timestamp := none
  lastReceived : Option Timestamp := none
  hasSender : Bool := true
  hasReceiver : Bool := true

namespace Channel

variable {α : Type}

/-- The channel through which nothing has passed. -/
def empty : Channel α := {}

/-- The previous number, if the given one does not follow it. -/
def blocking (previous : Option Timestamp) (timestamp : Timestamp) : Option Timestamp :=
  previous.filter (timestamp ≤ ·)

/-- Sends a snapshot behind all others. -/
def send [Stamped α] (c : Channel α) (snapshot : α) : Except ChannelError (Channel α) :=
  let timestamp := Stamped.timestamp snapshot
  match blocking c.lastSent timestamp with
  | some previous => .error (.nonMonotonic previous timestamp)
  | none =>
    if c.hasReceiver then
      .ok { c with queue := c.queue ++ [snapshot], lastSent := some timestamp }
    else .error .disconnected

/-- Takes the oldest snapshot from the queue. A snapshot that does not follow the one received
before is lost. -/
def receive [Stamped α] (c : Channel α) : Except ChannelError (Option α) × Channel α :=
  match c.queue with
  | snapshot :: rest =>
    let timestamp := Stamped.timestamp snapshot
    match blocking c.lastReceived timestamp with
    | some previous => (.error (.nonMonotonic previous timestamp), { c with queue := rest })
    | none => (.ok (some snapshot), { c with queue := rest, lastReceived := some timestamp })
  | [] => (if c.hasSender then .ok none else .error .disconnected, c)

/-- Receives at most `count` snapshots, behind those already collected in reverse order. -/
def collect [Stamped α] (c : Channel α) (collected : List α) :
    Nat → Except ChannelError (List α) × Channel α
  | 0 => (.ok collected.reverse, c)
  | count + 1 =>
    match c.receive with
    | (.ok (some snapshot), c) => c.collect (snapshot :: collected) count
    | (.ok none, c) => (.ok collected.reverse, c)
    | (.error .disconnected, c) =>
      (if collected.isEmpty then .error .disconnected else .ok collected.reverse, c)
    | (.error e, c) => (.error e, c)

/-- Receives everything that is pending. A dropped sender is only an error when nothing is left to
be received. -/
def drain [Stamped α] (c : Channel α) : Except ChannelError (List α) × Channel α :=
  c.collect [] (c.queue.length + 1)

/-- The channel without its sending half. -/
def dropSender (c : Channel α) : Channel α := { c with hasSender := false }

/-- The channel without its receiving half; what was pending is lost. -/
def dropReceiver (c : Channel α) : Channel α :=
  { c with queue := [], hasReceiver := false }

end Channel

end TetheredParticles
