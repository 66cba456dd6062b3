import TetheredParticles.Proofs.Island.Visits
import TetheredParticles.Proofs.Scalar.Anchors
/-!
# Anchors

Visits do not move a particle without inverse mass. Tethers move their tips only, suspensions do not
pull at what weighs nothing, and a joint that changes its multiplier by a finite number multiplies a
finite impulse with zero. A joint whose multiplier overflows would take its anchors along.

* `Visit.Tame`, `Visit.AllTame` — joints change their multipliers by finite numbers.
* `Visit.runAll_anchored` — visits in order leave anchors where they are, up to the signs of zeros.
-/

namespace TetheredParticles

variable {S : Type} [Scalar S]

omit [Scalar S] in
/-- What constraints remember does not move anything. -/
theorem Motion.position_remember (σ : Motion S) {c : Cell} (hc : ∀ slot, c ≠ .slot slot)
    (value : Vec3 S × S) (slot : Nat) :
    Motion.position (Function.update σ c value) slot = Motion.position σ slot :=
  congrArg Prod.fst (Function.update_of_ne (hc slot).symm value σ)

/-- A particle stays if it is not moved, or is moved by nothing. -/
theorem Motion.coincide_move (σ : Motion S) {slot i : Nat} {change : Vec3 S → Vec3 S}
    (h : i = slot → (Motion.position σ i).Coincide (change (Motion.position σ i))) :
    (Motion.position σ i).Coincide (Motion.position (Motion.move σ slot change) i) := by
  rw [Motion.position_move]
  split
  case isTrue hi => exact hi ▸ h hi
  case isFalse => exact .refl _

namespace Visit

variable {masses : Nat → S} {dt : S} {σ : Motion S}

/-- If a joint is visited, it changes its multiplier by a finite number. -/
def Tame (masses : Nat → S) (dt : S) (σ : Motion S) : Visit S → Prop
  | .joint owner j => ∀ x ∈ j.update? (masses j.first) (masses j.second) dt
      (Motion.position σ j.first) (Motion.position σ j.second) (σ (.joint owner)).2,
    Scalar.isFinite x.2 = true
  | _ => True

/-- All joints that are visited change their multipliers by finite numbers. -/
def AllTame (masses : Nat → S) (dt : S) : List (Visit S) → Motion S → Prop
  | [], _ => True
  | v :: rest, σ => v.Tame masses dt σ ∧ AllTame masses dt rest (run masses dt σ v)

instance (v : Visit S) : Decidable (v.Tame masses dt σ) :=
  match v with
  | .joint .. => inferInstanceAs (Decidable (∀ x ∈ _, _))
  | .tether .. | .suspension .. => .isTrue trivial

instance decidableAllTame : ∀ (visits : List (Visit S)) (σ : Motion S),
    Decidable (AllTame masses dt visits σ)
  | [], _ => .isTrue trivial
  | v :: rest, σ =>
    have := decidableAllTame rest (run masses dt σ v)
    inferInstanceAs (Decidable (v.Tame masses dt σ ∧ _))

variable [LawfulAnchors S]

/-- A visit leaves anchors where they are. -/
theorem run_anchored {v : Visit S} (htame : v.Tame masses dt σ) {i : Nat}
    (hi : (masses i == 0) = true)
    (htip : ∀ owner layer rule t, v = .tether owner layer rule t → t.tip ≠ i) :
    (Motion.position σ i).Coincide (Motion.position (run masses dt σ v) i) := by
  cases v with
  | tether owner layer rule t =>
    have hmemory : ∀ slot, Cell.tether owner layer t.tip ≠ .slot slot := fun _ => nofun
    unfold run
    dsimp only
    rw [Motion.position_remember _ hmemory]
    exact Motion.coincide_move σ fun htipped => absurd htipped.symm (htip owner layer rule t rfl)
  | joint owner j =>
    have hmemory : ∀ slot, Cell.joint owner ≠ .slot slot := fun _ => nofun
    unfold Tame Joint.update? at htame
    unfold run Joint.update?
    dsimp only at htame ⊢
    split at htame
    case isTrue hnone =>
      rw [if_pos hnone]
      exact .refl _
    case isFalse hsome =>
      have hfinite := htame _ rfl
      rw [if_neg hsome]
      dsimp only
      rw [Motion.position_remember _ hmemory]
      -- first the one end moves and then the other, and either may be the anchor
      refine Vec3.Coincide.trans (Motion.coincide_move σ fun hfirst => ?_)
        (Motion.coincide_move _ fun hsecond => ?_)
      · exact Vec3.coincide_sub _ (LawfulAnchors.impulse_zero _ _ _ hfinite (hfirst ▸ hi))
      · exact Vec3.coincide_add _ (LawfulAnchors.impulse_zero _ _ _ hfinite (hsecond ▸ hi))
  | suspension owner s =>
    have hmemory : ∀ slot, Cell.suspension owner ≠ .slot slot := fun _ => nofun
    unfold run Suspension.update?
    dsimp only
    split
    case h_1 => exact .refl _
    case h_2 direction update hsome =>
      split at hsome
      case isTrue => cases hsome
      case isFalse =>
        cases hsome
        rw [Motion.position_remember _ hmemory]
        refine Motion.coincide_move σ fun hparticle => ?_
        rw [hparticle] at hi
        -- a suspension has no grip on what weighs nothing
        refine Vec3.coincide_add _ (LawfulAnchors.impulse_zero _ _ _ ?_ hi)
        unfold Compliance.update
        rw [if_pos (.inl (LawfulAnchors.total_zero _ hi))]
        exact LawfulAnchors.isFinite_zero

/-- Visits in order leave anchors where they are. -/
theorem runAll_anchored {visits : List (Visit S)} (htame : AllTame masses dt visits σ) {i : Nat}
    (hi : (masses i == 0) = true)
    (htip : ∀ owner layer rule t, .tether owner layer rule t ∈ visits → t.tip ≠ i) :
    (Motion.position σ i).Coincide (Motion.position (runAll masses dt visits σ) i) := by
  induction visits generalizing σ with
  | nil => exact .refl _
  | cons v rest ih =>
    have hone := run_anchored htame.1 hi fun owner layer rule t hv =>
      htip owner layer rule t (hv ▸ List.mem_cons_self)
    exact hone.trans (ih htame.2 fun owner layer rule t ht =>
      htip owner layer rule t (List.mem_cons_of_mem v ht))

end Visit

end TetheredParticles
