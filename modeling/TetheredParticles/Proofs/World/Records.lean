import TetheredParticles.Proofs.World.Step
/-!
# What commands do to records

Clusters, joints, suspensions and forces are recorded under the names of proxies. A command enters
at most one record, and only for the proxy it is addressed to. Only a destruction takes something
out: what is recorded under the name of the proxy, and the force under that name in any case.

* `World.Records`, `World.Entered`, `World.Expunged` — records, and what commands do to them.
* `World.entered_applyCommand` — commands that destroy nothing.
* `World.expunged_destroy` — destructions.
-/

namespace TetheredParticles

variable {S : Type} [Scalar S]

namespace World

variable {w after : World S} {proxy : ProxyId}

/-- What is recorded by proxy, the lists of particles apart. -/
structure Records (S : Type) where
  clusters : Std.TreeMap ProxyId (Cluster S)
  joints : Std.TreeMap ProxyId (JointRecord S)
  suspensions : Std.TreeMap ProxyId (SuspensionRecord S)
  forces : Std.TreeMap ProxyId (Vec3 S)

/-- The records of a world. -/
def records (w : World S) : Records S := ⟨w.clusters, w.joints, w.suspensions, w.forces⟩

/-- At most one record is entered. A cluster is new and has a rest position for each particle, or it
takes the place of one with the same particles and rest positions. -/
inductive Entered (w : World S) (proxy : ProxyId) (after : World S) : Prop where
  | nothing (same : after.records = w.records)
  | cluster (c : Cluster S)
      (entered : after.records = { w.records with clusters := w.clusters.insert proxy c })
      (sized : c.restPositions.size = c.particles.size ∨ ∃ d, w.clusters[proxy]? = some d ∧
        c.particles = d.particles ∧ c.restPositions = d.restPositions)
  | joint (j : JointRecord S)
      (entered : after.records = { w.records with joints := w.joints.insert proxy j })
  | suspension (s : SuspensionRecord S)
      (entered : after.records = { w.records with suspensions := w.suspensions.insert proxy s })

/-- What is recorded for a proxy is taken out, the force under its name in any case. -/
structure Expunged (w : World S) (proxy : ProxyId) (after : World S) : Prop where
  clusters : after.clusters = w.clusters ∨ after.clusters = w.clusters.erase proxy
  joints : after.joints = w.joints ∨ after.joints = w.joints.erase proxy
  suspensions : after.suspensions = w.suspensions ∨ after.suspensions = w.suspensions.erase proxy
  forces : after.forces = w.forces.erase proxy

omit [Scalar S] in
/-- No force changes unless something is destroyed. -/
theorem Entered.forces (h : w.Entered proxy after) : after.forces = w.forces := by
  cases h with
  | nothing same => exact congrArg Records.forces same
  | cluster c entered sized => exact congrArg Records.forces entered
  | joint j entered => exact congrArg Records.forces entered
  | suspension s entered => exact congrArg Records.forces entered

/-! ## Writes to particles -/

theorem records_write {particle : ParticleHandle}
    {change : ParticleStore S → Option (ParticleStore S)}
    (hw : w.writeParticle? proxy particle change = some after) : after.records = w.records := by
  unfold writeParticle? at hw
  split at hw
  case isFalse => cases hw
  case isTrue =>
    rcases Option.map_eq_some_iff.mp hw with ⟨store, _, rfl⟩
    rfl

theorem records_insertParticles {handles : List ParticleHandle} {particles : List (Particle S)}
    (hw : w.insertParticles? proxy handles particles = some after) :
    after.records = w.records := by
  unfold insertParticles? at hw
  split at hw
  case isTrue => cases hw
  case isFalse =>
    cases hw
    rfl

/-! ## Commands -/

theorem entered_addParts {creation : Creation S} (hw : w.addParts? proxy creation = some after) :
    w.Entered proxy after := by
  cases creation with
  | particle handle particle => exact .nothing (records_insertParticles hw)
  | cluster handles particles adjacency stiffness =>
    simp only [addParts?] at hw
    split at hw
    case isFalse => cases hw
    case isTrue hlength =>
      rcases Option.map_eq_some_iff.mp hw with ⟨inserted, hinserted, rfl⟩
      have hsame := records_insertParticles hinserted
      refine .cluster
        { particles := handles.toArray, restPositions := (particles.map (·.position)).toArray,
          adjacency, stiffness := Scalar.clamp stiffness 0 1, tethers := [] } ?_ (.inl ?_)
      · unfold records at hsame ⊢
        injection hsame with hclusters hjoints hsuspensions hforces
        rw [hclusters, hjoints, hsuspensions, hforces]
      · simpa using hlength.symm
  | joint handle first second restLength compliance =>
    simp only [addParts?] at hw
    split at hw
    case isFalse => cases hw
    case isTrue =>
      cases hw
      exact .joint _ rfl
  | suspension handle particle target restLength compliance =>
    simp only [addParts?] at hw
    split at hw
    case isFalse => cases hw
    case isTrue =>
      cases hw
      exact .suspension _ rfl

theorem entered_create {creation : Creation S} (hw : w.create? proxy creation = some after) :
    w.Entered proxy after := by
  unfold create? at hw
  split at hw
  case isTrue => cases hw
  case isFalse =>
    rcases Option.map_eq_some_iff.mp hw with ⟨parts, hparts, rfl⟩
    -- that the topology has to be laid out anew is no record
    cases entered_addParts hparts with
    | nothing same => exact .nothing same
    | cluster c entered sized => exact .cluster c entered sized
    | joint j entered => exact .joint j entered
    | suspension s entered => exact .suspension s entered

omit [Scalar S] in
theorem entered_accept {result : Option (World S)}
    (hresult : ∀ after, result = some after → w.Entered proxy after) :
    w.Entered proxy (w.accept result).2 := by
  unfold accept
  cases result with
  | none => exact .nothing rfl
  | some after => exact hresult after rfl

/-- A command that destroys nothing enters at most one record. -/
theorem entered_applyCommand {command : Command S} (hcommand : command ≠ .destroy) :
    w.Entered proxy (w.applyCommand proxy command).2 := by
  cases command with
  | create creation => exact entered_accept fun _ hw => entered_create hw
  | destroy => exact absurd rfl hcommand
  | setPosition particle position => exact entered_accept fun _ hw => .nothing (records_write hw)
  | setVelocity particle velocity => exact entered_accept fun _ hw => .nothing (records_write hw)
  | setKinematicTarget particle target =>
    exact entered_accept fun _ hw => .nothing (records_write hw)
  | addForce particle force => exact entered_accept fun _ hw => .nothing (records_write hw)
  | setInverseMass particle inverseMass =>
    refine entered_accept fun after hw => ?_
    rcases Option.map_eq_some_iff.mp hw with ⟨changed, hchanged, rfl⟩
    have hsame : changed.records = w.records := records_write hchanged
    exact .nothing hsame
  | setTetherStiffness stiffness =>
    refine entered_accept fun after hw => ?_
    rcases Option.map_eq_some_iff.mp hw with ⟨c, hc, rfl⟩
    exact .cluster _ rfl (.inr ⟨c, hc, rfl, rfl⟩)
  | setSuspensionTarget handle target =>
    refine entered_accept fun after hw => ?_
    rcases Option.map_eq_some_iff.mp hw with ⟨s, _, rfl⟩
    exact .suspension _ rfl
  | setJointRestLength handle restLength =>
    refine entered_accept fun after hw => ?_
    rcases Option.map_eq_some_iff.mp hw with ⟨j, _, rfl⟩
    exact .joint _ rfl

/-- What is destroyed takes the force under its name along. -/
theorem expunged_destroy (w : World S) (proxy : ProxyId) :
    w.Expunged proxy (w.destroy proxy).2 := by
  unfold World.destroy remove?
  dsimp only
  cases w.members[proxy]? with
  | some handles => exact ⟨.inr rfl, .inl rfl, .inl rfl, rfl⟩
  | none =>
    dsimp only
    cases w.joints.contains proxy with
    | true => exact ⟨.inl rfl, .inr rfl, .inl rfl, rfl⟩
    | false =>
      cases w.suspensions.contains proxy with
      | true => exact ⟨.inl rfl, .inl rfl, .inr rfl, rfl⟩
      | false => exact ⟨.inl rfl, .inl rfl, .inl rfl, rfl⟩

end World

end TetheredParticles
