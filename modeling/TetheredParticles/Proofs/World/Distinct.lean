import TetheredParticles.Proofs.World.Carried
import TetheredParticles.Proofs.World.Memory
/-!
# Keeping tethers apart

The order of the tethers in a cluster does not matter as long as no two of them have one tip. This
lasts if new clusters come with different slots, through whatever is asked of the world.

* `Creation.Apart` — what is asked of new clusters.
* `World.Distinct` — the tethers of a cluster have different tips.
* `World.Distinct.updated`, `World.Distinct.rebuilt` — through the stages of a step.
-/

namespace TetheredParticles

variable {S T : Type} [Scalar S]

/-- The particles of a new cluster have different slots. -/
def Creation.Apart : Creation S → Prop
  | .cluster handles .. => (handles.map (·.index)).Nodup
  | _ => True

/-- Only new clusters have slots to keep apart. -/
def Command.Apart : Command S → Prop
  | .create creation => creation.Apart
  | _ => True

/-- Every new cluster of a snapshot has particles with different slots. -/
def PushSnapshot.Apart (snapshot : PushSnapshot S T) : Prop :=
  ∀ d ∈ snapshot.deltas, d.command.Apart

namespace World

/-! ## Tethers -/

/-- No two tethers of a cluster end at the same particle, and the particles of a cluster have
different slots. -/
structure Distinct (w : World S) : Prop where
  slots : ∀ (proxy : ProxyId) (c : Cluster S), w.clusters[proxy]? = some c →
    (c.particles.toList.map (·.index)).Nodup
  tips : ∀ (proxy : ProxyId) (c : Cluster S), w.clusters[proxy]? = some c →
    (c.tethers.map (·.tip)).Nodup

namespace Distinct

variable {w after : World S}

omit [Scalar S] in
theorem empty (config : Config S) : (empty config).Distinct := by
  refine ⟨?_, ?_⟩
  · intro proxy c hc
    rw [World.empty, Std.TreeMap.getElem?_emptyc] at hc
    cases hc
  · intro proxy c hc
    rw [World.empty, Std.TreeMap.getElem?_emptyc] at hc
    cases hc

omit [Scalar S] in
/-- No cluster is new, and clusters have the particles and tethers they had. -/
theorem of_le (h : w.Distinct)
    (hclusters : ∀ (proxy : ProxyId) (d : Cluster S), after.clusters[proxy]? = some d →
      ∃ c, w.clusters[proxy]? = some c ∧ d.particles = c.particles ∧ d.tethers = c.tethers) :
    after.Distinct := by
  refine ⟨?_, ?_⟩
  · intro proxy d hd
    rcases hclusters proxy d hd with ⟨c, hc, hparticles, _⟩
    rw [hparticles]
    exact h.slots proxy c hc
  · intro proxy d hd
    rcases hclusters proxy d hd with ⟨c, hc, _, htethers⟩
    rw [htethers]
    exact h.tips proxy c hc

omit [Scalar S] in
/-- Only clusters matter. -/
theorem of_eq (h : w.Distinct) (hclusters : after.clusters = w.clusters) : after.Distinct := by
  refine h.of_le ?_
  intro proxy d hd
  exact ⟨d, hclusters ▸ hd, rfl, rfl⟩

theorem insertParticles {proxy : ProxyId} {handles : List ParticleHandle}
    {particles : List (Particle S)} (h : w.Distinct)
    (hw : w.insertParticles? proxy handles particles = some after) : after.Distinct := by
  unfold insertParticles? at hw
  split at hw
  · cases hw
  · cases hw
    exact h.of_eq rfl

theorem create {proxy : ProxyId} {creation : Creation S} (h : w.Distinct)
    (hapart : creation.Apart) (hw : w.create? proxy creation = some after) : after.Distinct := by
  unfold create? at hw
  split at hw
  case isTrue => cases hw
  case isFalse =>
    rcases Option.map_eq_some_iff.mp hw with ⟨parts, hparts, rfl⟩
    refine of_eq (w := parts) ?_ rfl
    cases creation with
    | particle handle particle => exact h.insertParticles hparts
    | cluster handles particles adjacency stiffness =>
      simp only [addParts?] at hparts
      split at hparts
      case isFalse => cases hparts
      case isTrue =>
        rcases Option.map_eq_some_iff.mp hparts with ⟨inserted, hinserted, rfl⟩
        have hbefore := h.insertParticles hinserted
        refine ⟨?_, ?_⟩
        · intro owner c hc
          dsimp only at hc
          rw [Maps.getElem?_insert] at hc
          split at hc
          · cases hc
            exact hapart
          · exact hbefore.slots owner c hc
        · intro owner c hc
          dsimp only at hc
          rw [Maps.getElem?_insert] at hc
          split at hc
          · cases hc
            exact .nil
          · exact hbefore.tips owner c hc
    | joint handle first second restLength compliance =>
      simp only [addParts?] at hparts
      split at hparts
      case isFalse => cases hparts
      case isTrue =>
        cases hparts
        exact h.of_eq rfl
    | suspension handle particle target restLength compliance =>
      simp only [addParts?] at hparts
      split at hparts
      case isFalse => cases hparts
      case isTrue =>
        cases hparts
        exact h.of_eq rfl

theorem remove {proxy : ProxyId} (h : w.Distinct) (hw : w.remove? proxy = some after) :
    after.Distinct := by
  unfold remove? at hw
  split at hw
  case h_1 handles hm =>
    cases hw
    refine h.of_le ?_
    intro owner d hd
    dsimp only at hd
    rw [Maps.getElem?_erase] at hd
    split at hd
    · cases hd
    · exact ⟨d, hd, rfl, rfl⟩
  case h_2 =>
    split at hw
    case isTrue =>
      cases hw
      exact h.of_eq rfl
    case isFalse =>
      split at hw
      case isTrue =>
        cases hw
        exact h.of_eq rfl
      case isFalse => cases hw

theorem destroy (h : w.Distinct) (proxy : ProxyId) : (w.destroy proxy).2.Distinct := by
  unfold World.destroy
  dsimp only
  split
  case h_1 after hw => exact (h.remove hw).of_eq rfl
  case h_2 => exact h.of_eq rfl

theorem write {proxy : ProxyId} {particle : ParticleHandle}
    {change : ParticleStore S → Option (ParticleStore S)} (h : w.Distinct)
    (hw : w.writeParticle? proxy particle change = some after) : after.Distinct := by
  unfold writeParticle? at hw
  split at hw
  case isFalse => cases hw
  case isTrue =>
    rcases Option.map_eq_some_iff.mp hw with ⟨store, _, rfl⟩
    exact h.of_eq rfl

theorem setInverseMass {proxy : ProxyId} {particle : ParticleHandle} {inverseMass : S}
    (h : w.Distinct) (hw : w.setInverseMass? proxy particle inverseMass = some after) :
    after.Distinct := by
  unfold setInverseMass? at hw
  rcases Option.map_eq_some_iff.mp hw with ⟨changed, hchanged, rfl⟩
  exact (h.write hchanged).of_eq rfl

theorem setTetherStiffness {proxy : ProxyId} {stiffness : S} (h : w.Distinct)
    (hw : w.setTetherStiffness? proxy stiffness = some after) : after.Distinct := by
  unfold setTetherStiffness? at hw
  rcases Option.map_eq_some_iff.mp hw with ⟨c, hc, rfl⟩
  refine h.of_le ?_
  intro owner d hd
  dsimp only at hd
  rw [Maps.getElem?_insert] at hd
  split at hd
  case isTrue heq =>
    cases hd
    exact ⟨c, heq ▸ hc, rfl, rfl⟩
  case isFalse => exact ⟨d, hd, rfl, rfl⟩

theorem setJointRestLength {proxy : ProxyId} {handle : ConstraintHandle} {restLength : S}
    (h : w.Distinct) (hw : w.setJointRestLength? proxy handle restLength = some after) :
    after.Distinct := by
  unfold setJointRestLength? at hw
  rcases Option.map_eq_some_iff.mp hw with ⟨j, hj, rfl⟩
  exact h.of_eq rfl

omit [Scalar S] in
theorem setSuspensionTarget {proxy : ProxyId} {handle : ConstraintHandle} {target : Vec3 S}
    (h : w.Distinct) (hw : w.setSuspensionTarget? proxy handle target = some after) :
    after.Distinct := by
  unfold setSuspensionTarget? at hw
  rcases Option.map_eq_some_iff.mp hw with ⟨s, hs, rfl⟩
  exact h.of_eq rfl

omit [Scalar S] in
theorem accept (h : w.Distinct) {result : Option (World S)}
    (hresult : ∀ after, result = some after → after.Distinct) : (w.accept result).2.Distinct := by
  unfold World.accept
  cases result with
  | none => exact h
  | some after => exact hresult after rfl

theorem applyCommand (h : w.Distinct) (proxy : ProxyId) {command : Command S}
    (hapart : command.Apart) : (w.applyCommand proxy command).2.Distinct := by
  cases command with
  | create creation => exact h.accept fun _ hw => h.create hapart hw
  | destroy => exact h.destroy proxy
  | setPosition particle position => exact h.accept fun _ hw => h.write hw
  | setVelocity particle velocity => exact h.accept fun _ hw => h.write hw
  | setKinematicTarget particle target => exact h.accept fun _ hw => h.write hw
  | addForce particle force => exact h.accept fun _ hw => h.write hw
  | setInverseMass particle inverseMass => exact h.accept fun _ hw => h.setInverseMass hw
  | setTetherStiffness stiffness => exact h.accept fun _ hw => h.setTetherStiffness hw
  | setSuspensionTarget handle target => exact h.accept fun _ hw => h.setSuspensionTarget hw
  | setJointRestLength handle restLength => exact h.accept fun _ hw => h.setJointRestLength hw

/-- Deltas of which all new clusters have particles with different slots keep tethers apart. -/
theorem updated (h : w.Distinct) {deltas : List (Delta S)}
    (hapart : ∀ d ∈ deltas, d.command.Apart) : (w.updated deltas).Distinct := by
  refine applyDeltas_keeps (P := Distinct) (w := { w with touched := ∅ }) (h.of_eq rfl) ?_ ?_
  · intro v touched hv
    exact hv.of_eq rfl
  · intro v d hd hv
    exact hv.applyCommand d.proxy (hapart d hd)

/-- Clusters whose particles have different slots get tethers with different tips. -/
theorem rebuilt (h : w.Distinct) (hsound : w.Sound) (hr : w.Rebuilt after) : after.Distinct := by
  refine ⟨?_, ?_⟩
  · intro proxy d hd
    rcases hr.exists_laid hsound hd with ⟨c, hc, tethers, rfl, _⟩
    exact h.slots proxy c hc
  · intro proxy d hd
    rcases hr.exists_laid hsound hd with ⟨c, hc, tethers, rfl, hlaid⟩
    exact hlaid.tips (h.slots proxy c hc)

end Distinct

end World

end TetheredParticles
