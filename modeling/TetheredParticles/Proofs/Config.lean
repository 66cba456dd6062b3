import Mathlib.Tactic.Common
import TetheredParticles.Config
import TetheredParticles.Proofs.Outcome
/-!
# What an accepted configuration promises

Proofs about steps need some of what `Config.check` looks at. It is read off the checks here once.

* `Config.Timed` — the settings that have to do with the length and the number of steps are in
  range.
* `Config.timed_of_check` — they are in every configuration that is accepted.
-/

namespace TetheredParticles.Config

variable {S : Type} [Scalar S]

/-- There is at least one step, steps have a positive length, and the lengths of frames that are
stepped are not out of order. -/
structure Timed (c : Config S) : Prop where
  fixedStep : ∀ step ∈ c.fixedStep, 0 < step ∧ Scalar.isFinite step = true
  maxSubsteps : 0 < c.maxSubsteps.toNat
  maxDeltaTime : 0 < c.maxDeltaTime
  minDeltaTime : 0 ≤ c.minDeltaTime
  minDeltaTime_le : c.minDeltaTime ≤ c.maxDeltaTime

theorem fixedStep_of_checkFixedStep {c : Config S} (h : c.checkFixedStep = .ok ()) :
    ∀ step ∈ c.fixedStep, 0 < step ∧ Scalar.isFinite step = true := by
  intro step hstep
  unfold checkFixedStep at h
  rw [show c.fixedStep = some step from hstep] at h
  dsimp only at h
  by_contra hout
  rw [if_neg hout] at h
  cases h

theorem timed_of_check {c : Config S} (h : c.check = .ok ()) : c.Timed := by
  unfold check at h
  rcases exists_of_bind_ok h with ⟨⟨⟩, hfixed, h⟩
  -- what is still to be checked after each check, from the last one on
  extract_lets _ _ _ _ _ afterIslands afterSubsteps at h
  split at h
  case isTrue => cases h
  case isFalse hsubsteps =>
    unfold afterSubsteps at h
    split at h
    case isTrue => cases h
    case isFalse =>
      unfold afterIslands at h
      split at h
      case isFalse => cases h
      case isTrue hrange =>
        have hpos : 0 < c.maxSubsteps.toNat :=
          Nat.pos_of_ne_zero fun hzero => hsubsteps (UInt32.toNat_inj.mp hzero)
        exact ⟨fixedStep_of_checkFixedStep hfixed, hpos, hrange.1, hrange.2.1, hrange.2.2⟩

end TetheredParticles.Config
