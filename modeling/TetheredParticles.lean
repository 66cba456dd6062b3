import TetheredParticles.BitSet
import TetheredParticles.Clock
import TetheredParticles.Cloth
import TetheredParticles.Compliance
import TetheredParticles.Config
import TetheredParticles.Decimal.Shortest
import TetheredParticles.Diagnostics
import TetheredParticles.Fault
import TetheredParticles.Graph
import TetheredParticles.Graph.Islands
import TetheredParticles.Handle
import TetheredParticles.Handle.Pool
import TetheredParticles.Integration
import TetheredParticles.Island.Workspace
import TetheredParticles.Joint
import TetheredParticles.Particle
import TetheredParticles.Particle.Store
import TetheredParticles.Proofs.BitSet
import TetheredParticles.Proofs.BitSet.Contents
import TetheredParticles.Proofs.Clock.Exact
import TetheredParticles.Proofs.Clock.Single
import TetheredParticles.Proofs.Compliance.Finite
import TetheredParticles.Proofs.Compliance.Settled
import TetheredParticles.Proofs.Config
import TetheredParticles.Proofs.Engine
import TetheredParticles.Proofs.Graph.Components
import TetheredParticles.Proofs.Graph.Merged
import TetheredParticles.Proofs.Graph.Partition
import TetheredParticles.Proofs.Graph.Symmetric
import TetheredParticles.Proofs.Graph.Undirected
import TetheredParticles.Proofs.Handle
import TetheredParticles.Proofs.Handle.Ledger
import TetheredParticles.Proofs.Handle.Pool
import TetheredParticles.Proofs.Island.Anchored
import TetheredParticles.Proofs.Island.Fading
import TetheredParticles.Proofs.Island.Passes
import TetheredParticles.Proofs.Island.Program
import TetheredParticles.Proofs.Island.Simulation
import TetheredParticles.Proofs.Island.Total
import TetheredParticles.Proofs.Island.Visits
import TetheredParticles.Proofs.Maps
import TetheredParticles.Proofs.Outcome
import TetheredParticles.Proofs.Particle.Columns
import TetheredParticles.Proofs.Particle.Store
import TetheredParticles.Proofs.Registry.Calls
import TetheredParticles.Proofs.Registry.Changes
import TetheredParticles.Proofs.Registry.Coherence
import TetheredParticles.Proofs.Registry.InPlace
import TetheredParticles.Proofs.Registry.Lookups
import TetheredParticles.Proofs.Registry.Rosters
import TetheredParticles.Proofs.Registry.Sound
import TetheredParticles.Proofs.Roster
import TetheredParticles.Proofs.Scalar
import TetheredParticles.Proofs.Scalar.Anchors
import TetheredParticles.Proofs.Scalar.Bounds
import TetheredParticles.Proofs.Scalar.Exact
import TetheredParticles.Proofs.Scalar.Lengths
import TetheredParticles.Proofs.Scalar.Order
import TetheredParticles.Proofs.Scalar.Pulls
import TetheredParticles.Proofs.Scalar.Real
import TetheredParticles.Proofs.Scalar.Rounding
import TetheredParticles.Proofs.Scalar.Sign
import TetheredParticles.Proofs.Scalar.Signed
import TetheredParticles.Proofs.Scalar.Single
import TetheredParticles.Proofs.Scalar.Sums
import TetheredParticles.Proofs.Session.Agreement
import TetheredParticles.Proofs.Session.Consistency
import TetheredParticles.Proofs.Session.Course
import TetheredParticles.Proofs.Session.Events
import TetheredParticles.Proofs.Session.Fitting
import TetheredParticles.Proofs.Session.Lockstep
import TetheredParticles.Proofs.Session.Mirror
import TetheredParticles.Proofs.Session.Reflection
import TetheredParticles.Proofs.Session.Refusals
import TetheredParticles.Proofs.Session.Requests
import TetheredParticles.Proofs.Session.Timekeeping
import TetheredParticles.Proofs.Session.Views
import TetheredParticles.Proofs.Snapshot.Channel
import TetheredParticles.Proofs.Snapshot.Delivery
import TetheredParticles.Proofs.Snapshot.Dispatch
import TetheredParticles.Proofs.Snapshot.Latest
import TetheredParticles.Proofs.Snapshot.Playback
import TetheredParticles.Proofs.Snapshot.Refusal
import TetheredParticles.Proofs.Snapshot.Repetition
import TetheredParticles.Proofs.Snapshot.Tiling
import TetheredParticles.Proofs.Snapshot.Traffic
import TetheredParticles.Proofs.Snapshot.Viewer
import TetheredParticles.Proofs.Snapshot.Window
import TetheredParticles.Proofs.Tether.Batches
import TetheredParticles.Proofs.Tether.Frontier
import TetheredParticles.Proofs.Tether.Geodesic
import TetheredParticles.Proofs.Tether.Grouping
import TetheredParticles.Proofs.Tether.Layout
import TetheredParticles.Proofs.Tether.Parallel
import TetheredParticles.Proofs.Tether.Pull
import TetheredParticles.Proofs.Tether.Ranks
import TetheredParticles.Proofs.Tether.Reach
import TetheredParticles.Proofs.Tether.Relaxation
import TetheredParticles.Proofs.Tether.Shortest
import TetheredParticles.Proofs.Tether.Termination
import TetheredParticles.Proofs.Tether.Ties
import TetheredParticles.Proofs.Tether.Ways
import TetheredParticles.Proofs.Vec3
import TetheredParticles.Proofs.World.Answers
import TetheredParticles.Proofs.World.Bounds
import TetheredParticles.Proofs.World.Carried
import TetheredParticles.Proofs.World.Confirmation
import TetheredParticles.Proofs.World.Congruent
import TetheredParticles.Proofs.World.Containment
import TetheredParticles.Proofs.World.Creation
import TetheredParticles.Proofs.World.Distinct
import TetheredParticles.Proofs.World.Distribution
import TetheredParticles.Proofs.World.Edits
import TetheredParticles.Proofs.World.Effects
import TetheredParticles.Proofs.World.Enclosure
import TetheredParticles.Proofs.World.Frame
import TetheredParticles.Proofs.World.InPlace
import TetheredParticles.Proofs.World.Independence
import TetheredParticles.Proofs.World.Invariant
import TetheredParticles.Proofs.World.Kinds
import TetheredParticles.Proofs.World.Leftovers
import TetheredParticles.Proofs.World.Matched
import TetheredParticles.Proofs.World.Memory
import TetheredParticles.Proofs.World.Motion
import TetheredParticles.Proofs.World.Noninterference
import TetheredParticles.Proofs.World.Pauses
import TetheredParticles.Proofs.World.Program
import TetheredParticles.Proofs.World.Rebuild
import TetheredParticles.Proofs.World.Records
import TetheredParticles.Proofs.World.Regrouped
import TetheredParticles.Proofs.World.Reports
import TetheredParticles.Proofs.World.Restriction
import TetheredParticles.Proofs.World.Roster
import TetheredParticles.Proofs.World.Runs
import TetheredParticles.Proofs.World.Schedules
import TetheredParticles.Proofs.World.Settled
import TetheredParticles.Proofs.World.Stages
import TetheredParticles.Proofs.World.Standing
import TetheredParticles.Proofs.World.Step
import TetheredParticles.Proofs.World.Targets
import TetheredParticles.Proofs.World.Tenancy
import TetheredParticles.Proofs.World.Tidy
import TetheredParticles.Proofs.World.Twins
import TetheredParticles.Proofs.World.Workspaces
import TetheredParticles.Proxy
import TetheredParticles.Registry
import TetheredParticles.Scalar
import TetheredParticles.Scalar.Binary
import TetheredParticles.Scene
import TetheredParticles.Session
import TetheredParticles.Snapshot
import TetheredParticles.Snapshot.Channel
import TetheredParticles.Snapshot.Playback
import TetheredParticles.Snapshot.Sealing
import TetheredParticles.Suspension
import TetheredParticles.Tether
import TetheredParticles.Tether.Batches
import TetheredParticles.Tether.Geodesic
import TetheredParticles.Tether.Layout
import TetheredParticles.Tether.Projection
import TetheredParticles.Timestamp
import TetheredParticles.Vec3
import TetheredParticles.World
import TetheredParticles.World.Delta
import TetheredParticles.World.Engine
import TetheredParticles.World.Step
import TetheredParticles.World.Topology
