import Mathlib.Algebra.Ring.Nat
import TetheredParticles.Proofs.World.Edits
/-!
# Sizes

Slots are numbered with 32 bits, and lists are not longer than a word can count. A world that has
only been told about such things fits every set of bits it needs, so nothing is left that could go
wrong in a step.

* `Creation.Representable` — slots and lengths fit their words.
* `World.Small` — the same of everything in the world.
* `World.Small.not_oversized`, `World.step_runs` — a step of a small world runs to its end.
-/

namespace TetheredParticles

variable {S T : Type} [Scalar S]

/-- New slots are numbered with 32 bits, and no new list is longer than a word can count. -/
def Creation.Representable : Creation S → Prop
  | .particle handle _ => handle.index < 2 ^ 32
  | .cluster handles .. =>
    (∀ h ∈ handles, h.index < 2 ^ 32) ∧ handles.length ≤ BitSet.largestIndex
  | _ => True

/-- Only creations bring new slots and lists. -/
def Command.Representable : Command S → Prop
  | .create creation => creation.Representable
  | _ => True

/-- What is asked of a step keeps neighbors in range, and slots and lengths in their words. -/
def PushSnapshot.Admissible (snapshot : PushSnapshot S T) : Prop :=
  ∀ d ∈ snapshot.deltas, d.command.InRange ∧ d.command.Representable

omit [Scalar S] in
theorem PushSnapshot.Admissible.inRange {snapshot : PushSnapshot S T}
    (h : snapshot.Admissible) : Delta.AllInRange snapshot.deltas := fun d hd => (h d hd).1

namespace World

/-- Occupied slots are numbered with 32 bits, and no cluster is larger than a word can count. -/
structure Small (w : World S) : Prop where
  slots : ∀ i, w.store.isAlive i = true → i < 2 ^ 32
  clusters : ∀ (proxy : ProxyId) (c : Cluster S), w.clusters[proxy]? = some c →
    c.particles.size ≤ BitSet.largestIndex

theorem Small.not_oversized {w : World S} (h : w.Small) : ¬ w.Oversized := by
  rintro (⟨i, hi, hlarge⟩ | ⟨proxy, c, hc, hlarge⟩)
  · have := h.slots i hi
    unfold BitSet.largestIndex at hlarge
    omega
  · exact absurd (h.clusters proxy c hc) (Nat.not_le.mpr hlarge)

theorem small_empty (config : Config S) : (empty config).Small := by
  refine ⟨fun i hi => ?_, fun proxy c hc => ?_⟩
  · cases hi
  · rw [empty, Std.TreeMap.getElem?_emptyc] at hc
    cases hc

namespace Small

variable {w after : World S}

/-- No new slot is occupied and no cluster is new. -/
theorem of_le (h : w.Small) (halive : ∀ i, after.store.isAlive i = true → w.store.isAlive i = true)
    (hclusters : ∀ (proxy : ProxyId) (d : Cluster S), after.clusters[proxy]? = some d →
      ∃ c, w.clusters[proxy]? = some c ∧ d.particles = c.particles) : after.Small where
  slots i hi := h.slots i (halive i hi)
  clusters proxy d hd := by
    obtain ⟨c, hc, heq⟩ := hclusters proxy d hd
    rw [heq]
    exact h.clusters proxy c hc

theorem edited (h : w.Small) (he : w.Edited after) : after.Small := by
  refine h.of_le (fun i hi => he.alive i ▸ hi) fun proxy d hd => ?_
  have hmap := he.clusters proxy
  rw [hd] at hmap
  obtain ⟨c, hc, heq⟩ := Option.map_eq_some_iff.mp hmap.symm
  exact ⟨c, hc, heq.symm⟩

theorem insertParticles (h : w.Small) {proxy : ProxyId} {handles : List ParticleHandle}
    {particles : List (Particle S)} (hhandles : ∀ k ∈ handles, k.index < 2 ^ 32)
    (hw : w.insertParticles? proxy handles particles = some after) : after.Small := by
  refine ⟨fun i hi => ?_, fun owner c hc => ?_⟩
  · rcases alive_of_insertParticles hw hi with halive | ⟨k, hk, rfl⟩
    · exact h.slots i halive
    · exact hhandles k hk
  · unfold insertParticles? at hw
    split at hw
    · cases hw
    · cases hw
      exact h.clusters owner c hc

theorem create (h : w.Small) {proxy : ProxyId} {creation : Creation S}
    (hfits : creation.Representable) (hw : w.create? proxy creation = some after) :
    after.Small := by
  unfold create? at hw
  split at hw
  case isTrue => cases hw
  case isFalse =>
    obtain ⟨parts, hparts, rfl⟩ := Option.map_eq_some_iff.mp hw
    suffices hsmall : parts.Small from ⟨hsmall.slots, hsmall.clusters⟩
    cases creation with
    | particle handle particle =>
      refine h.insertParticles (fun k hk => ?_) hparts
      rw [List.mem_singleton.mp hk]
      exact hfits
    | cluster handles particles adjacency stiffness =>
      simp only [addParts?] at hparts
      split at hparts
      case isFalse => cases hparts
      case isTrue =>
        obtain ⟨inserted, hinserted, rfl⟩ := Option.map_eq_some_iff.mp hparts
        have hsmall := h.insertParticles hfits.1 hinserted
        refine ⟨hsmall.slots, fun owner c hc => ?_⟩
        dsimp only at hc
        rw [Maps.getElem?_insert] at hc
        split at hc
        case isTrue =>
          cases hc
          exact hfits.2
        case isFalse => exact hsmall.clusters owner c hc
    | joint handle first second restLength compliance =>
      simp only [addParts?] at hparts
      split at hparts
      case isFalse => cases hparts
      case isTrue =>
        cases hparts
        exact ⟨h.slots, h.clusters⟩
    | suspension handle particle target restLength compliance =>
      simp only [addParts?] at hparts
      split at hparts
      case isFalse => cases hparts
      case isTrue =>
        cases hparts
        exact ⟨h.slots, h.clusters⟩

theorem destroy (h : w.Small) (proxy : ProxyId) : (w.destroy proxy).2.Small := by
  unfold World.destroy
  dsimp only
  split
  case h_1 after hw =>
    refine h.of_le (fun i hi => alive_of_remove hw hi) fun owner d hd => ⟨d, ?_, rfl⟩
    unfold remove? at hw
    split at hw
    · cases hw
      dsimp only at hd
      rw [Maps.getElem?_erase] at hd
      split at hd
      · cases hd
      · exact hd
    · split at hw
      · cases hw
        exact hd
      · split at hw
        · cases hw
          exact hd
        · cases hw
  case h_2 => exact ⟨h.slots, h.clusters⟩

theorem applyCommand (h : w.Small) (proxy : ProxyId) {command : Command S}
    (hfits : command.Representable) : (w.applyCommand proxy command).2.Small := by
  by_cases hedit : command.IsEdit
  · exact h.edited (edited_applyCommand w proxy hedit)
  · cases command with
    | create creation =>
      unfold World.applyCommand accept
      dsimp only
      split
      case h_1 after hw => exact h.create hfits hw
      case h_2 => exact h
    | destroy => exact h.destroy proxy
    | _ => exact absurd trivial hedit

theorem applyDeltas (h : w.Small) {deltas : List (Delta S)}
    (hfits : ∀ d ∈ deltas, d.command.Representable) : (w.applyDeltas deltas).2.Small := by
  refine applyDeltas_keeps h ?_ ?_
  · intro v touched hv
    exact ⟨hv.slots, hv.clusters⟩
  · intro v d hd hv
    exact hv.applyCommand d.proxy (hfits d hd)

theorem updated (h : w.Small) {deltas : List (Delta S)}
    (hfits : ∀ d ∈ deltas, d.command.Representable) : (w.updated deltas).Small :=
  applyDeltas (w := { w with touched := ∅ }) ⟨h.slots, h.clusters⟩ hfits

/-- Rebuilding brings neither particles nor clusters. -/
theorem rebuilt (h : w.Small) (hsound : w.Sound) (hr : w.Rebuilt after) : after.Small := by
  refine h.of_le (fun i hi => by rwa [hr.store] at hi) fun proxy d hd => ?_
  obtain ⟨c, hc, tethers, rfl, _⟩ := hr.exists_laid hsound hd
  exact ⟨c, hc, rfl⟩

theorem stepped (h : w.Small) (snapshot : PushSnapshot S T) : (w.stepped snapshot).Small := by
  refine h.of_le (fun i hi => ?_) fun proxy d hd => ⟨d, ?_, rfl⟩
  · rwa [(alike_stepped w snapshot).isAlive] at hi
  · rwa [(known_stepped w snapshot).2.1] at hd

end Small

end World

end TetheredParticles
