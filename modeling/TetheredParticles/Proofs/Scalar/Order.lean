import TetheredParticles.Proofs.Scalar.Rounding
/-!
# The order of scalars

Numbers are ordered, and what is no number is beside the order. That holds of exact and of rounded
scalars, where zeros of both signs are in one place.

* `LawfulOrder` — the two orders and `==` tell where numbers are.
* `Single.place`, `Single.compare_eq` — single precision numbers lie in a linear order.
-/

namespace TetheredParticles

/-- Numbers are linearly ordered, up to numbers that equal each other. -/
class LawfulOrder (S : Type) [Scalar S] : Prop extends LawfulZero S where
  le_trans : ∀ a b c : S, a ≤ b → b ≤ c → a ≤ c
  le_total : ∀ a b : S, Scalar.isNumber a = true → Scalar.isNumber b = true → a ≤ b ∨ b ≤ a
  isNumber_of_le : ∀ a b : S, a ≤ b → Scalar.isNumber a = true ∧ Scalar.isNumber b = true
  lt_iff : ∀ a b : S, a < b ↔ a ≤ b ∧ ¬ b ≤ a
  beq_iff : ∀ a b : S, (a == b) = true ↔ a ≤ b ∧ b ≤ a

namespace Scalar

variable {S : Type} [Scalar S] [LawfulOrder S] {a b c : S}

theorem le_trans (hab : a ≤ b) (hbc : b ≤ c) : a ≤ c := LawfulOrder.le_trans a b c hab hbc

theorem isNumber_left (h : a ≤ b) : isNumber a = true := (LawfulOrder.isNumber_of_le a b h).1

theorem isNumber_right (h : a ≤ b) : isNumber b = true := (LawfulOrder.isNumber_of_le a b h).2

theorem lt_iff : a < b ↔ a ≤ b ∧ ¬ b ≤ a := LawfulOrder.lt_iff a b

theorem beq_iff : (a == b) = true ↔ a ≤ b ∧ b ≤ a := LawfulOrder.beq_iff a b

theorem le_of_lt (h : a < b) : a ≤ b := (lt_iff.mp h).1

theorem le_refl (h : isNumber a = true) : a ≤ a := (LawfulOrder.le_total a a h h).elim id id

/-- If a number is not smaller than another one, the other one does not exceed it. -/
theorem le_of_not_lt (ha : isNumber a = true) (hb : isNumber b = true) (h : ¬ a < b) : b ≤ a := by
  rcases LawfulOrder.le_total a b ha hb with hab | hba
  · by_contra hba
    exact h (lt_iff.mpr ⟨hab, hba⟩)
  · exact hba

end Scalar

instance {S : Type} [Scalar S] [LawfulOrder S] : LawfulSign S where
  nonneg_of_zero _ h := (Scalar.beq_iff.mp h).2
  nonneg_of_pos _ h := Scalar.le_of_lt h
  isNumber_of_nonneg _ h := Scalar.isNumber_right h

instance : LawfulOrder Rat where
  le_trans _ _ _ hab hbc := le_trans hab hbc
  le_total a b _ _ := le_total a b
  isNumber_of_le _ _ _ := ⟨beq_self_eq_true _, beq_self_eq_true _⟩
  lt_iff _ _ := lt_iff_le_not_ge
  beq_iff _ _ := beq_iff_eq.trans le_antisymm_iff

namespace Single

open Float.Model Float.Model.UnpackedFloat

/-- Where a number lies among the others: by its sign, then by its exponent, then by its
mantissa. -/
def place : UnpackedFloat → Int ×ₗ Int ×ₗ Int
  | .notANumber | .zero _ => toLex (0, toLex (0, 0))
  | .infinity .positive => toLex (2, toLex (0, 0))
  | .infinity .negative => toLex (-2, toLex (0, 0))
  | .finite .positive m e _ => toLex (1, toLex (e, m))
  | .finite .negative m e _ => toLex (-1, toLex (-e, -m))

theorem compare_then_compare (m n : Nat) (e f : Int) :
    (compare e f).then (compare m n) =
      if e < f ∨ e = f ∧ m < n then .lt else if e = f ∧ m = n then .eq else .gt := by
  rcases lt_trichotomy e f with h | rfl | h
  · rw [compare_lt_iff_lt.mpr h, if_pos (.inl h)]
    rfl
  · rw [Std.ReflOrd.compare_self, Ordering.eq_then]
    rcases lt_trichotomy m n with h | rfl | h
    · rw [compare_lt_iff_lt.mpr h, if_pos (.inr ⟨rfl, h⟩)]
    · rw [Std.ReflOrd.compare_self, if_neg (by omega), if_pos ⟨rfl, rfl⟩]
    · rw [compare_gt_iff_gt.mpr h, if_neg (by omega), if_neg (by omega)]
  · rw [compare_gt_iff_gt.mpr h, if_neg (by omega), if_neg (by omega)]
    rfl

/-- Numbers are compared by where they lie. -/
theorem compare_eq {u v : UnpackedFloat} (hu : u ≠ .notANumber) (hv : v ≠ .notANumber) :
    u.compare v = some (if place u < place v then .lt else if place u = place v then .eq else .gt) := by
  match u, v, hu, hv with
  | .infinity s, .infinity t, _, _ => cases s <;> cases t <;> rfl
  | .infinity s, .zero _, _, _ => cases s <;> rfl
  | .zero _, .infinity t, _, _ => cases t <;> rfl
  | .zero _, .zero _, _, _ => rfl
  | .infinity s, .finite t _ _ _, _, _ | .zero s, .finite t _ _ _, _, _
  | .finite s _ _ _, .infinity t, _, _ | .finite s _ _ _, .zero t, _, _ =>
    cases s <;> cases t <;> simp [UnpackedFloat.compare, place, Prod.Lex.toLex_lt_toLex]
  | .finite s m e _, .finite t n f _, _, _ =>
    cases s <;> cases t <;>
      simp [UnpackedFloat.compare, place, Prod.Lex.toLex_lt_toLex, compare_then_compare]
    -- the order of negative numbers is reversed
    split_ifs <;> first | rfl | omega

variable {a b : Float32}

theorem isNumber_iff : Scalar.isNumber a = true ↔ unpack a ≠ .notANumber := by
  refine beq_iff.trans ?_
  constructor
  · intro h hu
    rw [hu] at h
    cases h
  · intro hu
    rw [compare_eq hu hu, if_neg (lt_irrefl _), if_pos rfl]

/-- Both operands of a comparison that succeeds are numbers. -/
theorem isNumber_of_compare {o : Ordering} (h : (unpack a).compare (unpack b) = some o) :
    unpack a ≠ .notANumber ∧ unpack b ≠ .notANumber := by
  constructor
  · intro hu
    rw [hu] at h
    cases h
  · intro hv
    rw [hv] at h
    cases hu : unpack a <;> rw [hu] at h <;> cases h

theorem compare_eq_some_iff {o : Ordering} : (unpack a).compare (unpack b) = some o ↔
    unpack a ≠ .notANumber ∧ unpack b ≠ .notANumber ∧
      (if place (unpack a) < place (unpack b) then .lt
        else if place (unpack a) = place (unpack b) then .eq else .gt) = o := by
  constructor
  · intro h
    rcases isNumber_of_compare h with ⟨hu, hv⟩
    rw [compare_eq hu hv] at h
    exact ⟨hu, hv, Option.some.inj h⟩
  · rintro ⟨hu, hv, h⟩
    rw [compare_eq hu hv, h]

theorem le_iff_place : a ≤ b ↔
    unpack a ≠ .notANumber ∧ unpack b ≠ .notANumber ∧ place (unpack a) ≤ place (unpack b) := by
  rw [le_iff, Option.any_eq_true]
  simp only [compare_eq_some_iff]
  constructor
  · rintro ⟨o, ⟨hu, hv, rfl⟩, ho⟩
    refine ⟨hu, hv, ?_⟩
    split_ifs at ho with hlt heq
    · exact hlt.le
    · exact heq.le
    · cases ho
  · rintro ⟨hu, hv, hle⟩
    refine ⟨_, ⟨hu, hv, rfl⟩, ?_⟩
    rcases hle.lt_or_eq with hlt | heq
    · rw [if_pos hlt]
      rfl
    · rw [if_neg heq.not_lt, if_pos heq]
      rfl

theorem lt_iff_place : a < b ↔
    unpack a ≠ .notANumber ∧ unpack b ≠ .notANumber ∧ place (unpack a) < place (unpack b) := by
  rw [lt_iff, compare_eq_some_iff]
  refine and_congr_right fun _ => and_congr_right fun _ => ?_
  split_ifs with hlt heq <;> simp [hlt]

theorem beq_iff_place : (a == b) = true ↔
    unpack a ≠ .notANumber ∧ unpack b ≠ .notANumber ∧ place (unpack a) = place (unpack b) := by
  rw [beq_iff, compare_eq_some_iff]
  refine and_congr_right fun _ => and_congr_right fun _ => ?_
  split_ifs with hlt heq
  · simp [hlt.ne]
  · simp [heq]
  · simp [heq]

end Single

instance : LawfulOrder Float32 where
  le_trans a b c hab hbc := by
    rw [Single.le_iff_place] at hab hbc ⊢
    exact ⟨hab.1, hbc.2.1, hab.2.2.trans hbc.2.2⟩
  le_total a b ha hb := by
    rw [Single.isNumber_iff] at ha hb
    rw [Single.le_iff_place, Single.le_iff_place]
    exact (le_total (Single.place (Single.unpack a)) (Single.place (Single.unpack b))).imp
      (fun h => ⟨ha, hb, h⟩) fun h => ⟨hb, ha, h⟩
  isNumber_of_le a b h := by
    rw [Single.le_iff_place] at h
    exact ⟨Single.isNumber_iff.mpr h.1, Single.isNumber_iff.mpr h.2.1⟩
  lt_iff a b := by
    rw [Single.lt_iff_place, Single.le_iff_place, Single.le_iff_place]
    constructor
    · rintro ⟨ha, hb, hlt⟩
      exact ⟨⟨ha, hb, hlt.le⟩, fun h => absurd h.2.2 hlt.not_ge⟩
    · rintro ⟨⟨ha, hb, _⟩, h⟩
      exact ⟨ha, hb, not_le.mp fun hle => h ⟨hb, ha, hle⟩⟩
  beq_iff a b := by
    rw [Single.beq_iff_place, Single.le_iff_place, Single.le_iff_place]
    constructor
    · rintro ⟨ha, hb, heq⟩
      exact ⟨⟨ha, hb, heq.le⟩, hb, ha, heq.ge⟩
    · rintro ⟨⟨ha, hb, hab⟩, _, _, hba⟩
      exact ⟨ha, hb, le_antisymm hab hba⟩

end TetheredParticles
