import TetheredParticles.Snapshot.Channel
import TetheredParticles.Registry
/-!
# Playback

Playback hands the answers of steps back to the producer. A plain pull gives each proxy its latest
result. An interpolated pull keeps a window over the answers: everything before the window is
merged into one previous result per proxy, the window ends with one snapshot, and each proxy is
put between the two.

A result is not used if the producer has written to the proxy since, and an unregistered proxy
gets none.

* `receive` — takes everything out of the channel.
* `pullLatest` — the plain pull.
* `advanceWindow`, `blend`, `pullAt` — the interpolated pull at a time.
-/

namespace TetheredParticles

/-- A result and the number of the snapshot it came with. -/
abbrev StampedResult (S : Type) := Timestamp × ResultData S

/-- Results by proxy. -/
abbrev ResultMap (S : Type) := Std.TreeMap ProxyId (StampedResult S)

/-- The map with the results of a snapshot put over older ones. -/
def ResultMap.merge {S T : Type} (results : ResultMap S) (snapshot : PullSnapshot S T) :
    ResultMap S :=
  snapshot.results.foldl (fun m r => m.insert r.proxy (snapshot.timestamp, r.data)) results

/-- The answers on their way to the producer. -/
structure Playback (S T : Type) where
  /-- Received and not used yet, oldest first. -/
  pending : List (PullSnapshot S T)
  /-- The latest result of each proxy before the window's last snapshot. -/
  previous : ResultMap S
  /-- The last snapshot of the window. -/
  next : Option (PullSnapshot S T)
  /-- The counts of the newest received snapshot. -/
  counts : StepCounts

/-- The proxies a pull has reported, and what it has left behind. -/
structure Pulled (S T : Type) where
  /-- The reported proxies in order, with their new states. -/
  reported : List (Proxy S)
  registry : Registry S
  playback : Playback S T

/-- Puts a result into the producer's view. -/
def Proxy.write {S : Type} (data : ResultData S) (proxy : Proxy S) : Proxy S :=
  match data with
  | .particles positions velocities =>
    { proxy with state := { proxy.state with positions, velocities } }
  | .constraint force => { proxy with state := { proxy.state with force } }

/-- The producer's view of the particles, as a result. -/
def Proxy.currentData {S : Type} (proxy : Proxy S) : ResultData S :=
  .particles proxy.state.positions proxy.state.velocities

/-- Writes the results that a rule finds for proxies, in order, and collects the proxies that got
one. Unregistered proxies get none. -/
def Registry.writeResults {S : Type} (rule : Proxy S → Option (ResultData S)) :
    List ProxyId → Registry S → List (Proxy S) × Registry S
  | [], r => ([], r)
  | id :: rest, r =>
    match (r.get? id).filter (!·.isPending) with
    | none => r.writeResults rule rest
    | some proxy =>
      match rule proxy with
      | none => r.writeResults rule rest
      | some data =>
        let (reported, final) := (r.modify id (Proxy.write data)).writeResults rule rest
        (proxy.write data :: reported, final)

namespace Playback

variable {S T : Type}

/-- Nothing has been received. -/
def empty : Playback S T := ⟨[], ∅, none, {}⟩

/-- Takes everything out of the channel. -/
def receive (p : Playback S T) (channel : Channel (PullSnapshot S T)) :
    Playback S T × Channel (PullSnapshot S T) :=
  match channel.drain with
  | (.ok snapshots, channel) =>
    ({ p with
      pending := p.pending ++ snapshots
      counts := (snapshots.getLast?.map (·.counts)).getD p.counts }, channel)
  | (.error _, channel) => (p, channel)

/-- The number of the newest received snapshot. -/
def consumed (channel : Channel (PullSnapshot S T)) : Timestamp :=
  channel.lastReceived.getD .zero

/-- The time between which and which the window's last snapshot lies. -/
def nextInterval (p : Playback S T) : Option (T × T) :=
  p.next.map fun next => (next.startTime, next.endTime)

/-- The latest result of a proxy, unless the producer has written to it since. -/
def latestData (latest : ResultMap S) (proxy : Proxy S) : Option (ResultData S) :=
  (latest[proxy.id]?.filter fun (timestamp, _) => proxy.syncTimestamp ≤ timestamp).map (·.2)

/-- Gives every proxy its latest result and empties the window. -/
def pullLatest (p : Playback S T) (registry : Registry S) : Pulled S T :=
  let latest := p.pending.foldl ResultMap.merge (∅ : ResultMap S)
  let (reported, registry) := registry.writeResults (latestData latest) latest.keys
  { reported, registry, playback := { p with pending := [], previous := ∅, next := none } }

variable [Scalar S] [Scalar T] [Timeline S T]

/-- Moves snapshots from the pending ones into the window until the last one ends no earlier than
the given time. -/
def advanceWindow (time : T) (previous : ResultMap S) (next : Option (PullSnapshot S T)) :
    List (PullSnapshot S T) → List (PullSnapshot S T) × ResultMap S × Option (PullSnapshot S T)
  | [] => ([], previous, next)
  | snapshot :: rest =>
    match next with
    | none => advanceWindow time previous (some snapshot) rest
    | some last =>
      if last.endTime < time then
        advanceWindow time (previous.merge last) (some snapshot) rest
      else (snapshot :: rest, previous, next)

/-- How far a time is on the way from the start to the end of a snapshot, between zero and one. -/
def fraction (time : T) (next : PullSnapshot S T) : S :=
  let span := next.endTime - next.startTime
  if 0 < span then Timeline.narrow (Scalar.clamp ((time - next.startTime) / span) 0 1) else 1

/-- What a proxy becomes, between its previous result and the window's last snapshot. Results from
before the producer's latest write are not used; without a previous one the producer's own view
takes its place. Forces are not blended. -/
def blend (alpha : S) (previous : ResultMap S) (next : PullSnapshot S T) (results : ResultMap S)
    (proxy : Proxy S) : Option (ResultData S) :=
  let before := previous[proxy.id]?.filter fun (timestamp, _) => proxy.syncTimestamp ≤ timestamp
  match results[proxy.id]? with
  | some (_, data) =>
    if next.timestamp < proxy.syncTimestamp then none
    else
      match data, before with
      | .constraint _, _ => some data
      | _, some (_, earlier) => some (earlier.lerp data alpha)
      | _, none => some (proxy.currentData.lerp data alpha)
  | none => before.map (·.2)

/-- The proxies of either map, in order. -/
def mentioned (a b : ResultMap S) : List ProxyId :=
  (b.keys.foldl (fun s id => s.insert id)
    (a.keys.foldl (fun s id => s.insert id) (∅ : Std.TreeSet ProxyId))).toList

/-- Puts every proxy where it is at the given time. -/
def pullAt (p : Playback S T) (time : T) (registry : Registry S) : Pulled S T :=
  let known := p.previous.filter fun id _ => (registry.get? id).isSome
  let (pending, previous, next) := advanceWindow time known p.next p.pending
  let playback := { p with pending, previous, next }
  match next with
  | none => { reported := [], registry, playback }
  | some snapshot =>
    let results := ResultMap.merge (∅ : ResultMap S) snapshot
    let (reported, registry) := registry.writeResults
      (blend (fraction time snapshot) previous snapshot results) (mentioned previous results)
    { reported, registry, playback }

end Playback

end TetheredParticles
