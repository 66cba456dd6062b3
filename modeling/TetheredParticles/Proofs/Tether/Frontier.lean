import Mathlib.Data.List.Sort
import TetheredParticles.Proofs.Scalar.Order
import TetheredParticles.Proofs.Tether.Ways
/-!
# The order of ways

Ways to one point are compared by their lengths, and then by their anchors. The frontier lists them
in that order, so that its first entry is on a shortest way, unless the length is no number.

* `AtMost`, `Better` — the order of ways and the strict one, which `Geodesic.improves` decides.
* `Geodesic.pairwise_insert` — the frontier stays in order.
-/

namespace TetheredParticles

variable {S : Type} [Scalar S]

/-- A way is at most as long as another one, and from no higher anchor if it is as long. -/
def AtMost (x y : Nat × S) : Prop := x.2 ≤ y.2 ∧ (y.2 ≤ x.2 → x.1 ≤ y.1)

/-- A way is shorter than another one, or as long and from a lower anchor. -/
def Better (x y : Nat × S) : Prop := x.2 ≤ y.2 ∧ (y.2 ≤ x.2 → x.1 < y.1)

variable [LawfulOrder S] {x y z : Nat × S}

namespace AtMost

omit [LawfulOrder S] in
theorem le (h : AtMost x y) : x.2 ≤ y.2 := h.1

theorem refl (h : Scalar.isNumber x.2 = true) : AtMost x x := ⟨Scalar.le_refl h, fun _ => le_rfl⟩

theorem trans (hxy : AtMost x y) (hyz : AtMost y z) : AtMost x z :=
  ⟨Scalar.le_trans hxy.1 hyz.1, fun hzx => Nat.le_trans (hxy.2 (Scalar.le_trans hyz.1 hzx))
    (hyz.2 (Scalar.le_trans hzx hxy.1))⟩

omit [LawfulOrder S] in
/-- What is at most another way is not improved by it. -/
theorem not_better (hxy : AtMost x y) : ¬ Better y x := fun hyx =>
  absurd (hyx.2 hxy.1) (Nat.not_lt.mpr (hxy.2 hyx.1))

end AtMost

namespace Better

omit [LawfulOrder S] in
theorem atMost (h : Better x y) : AtMost x y := ⟨h.1, fun hyx => (h.2 hyx).le⟩

theorem trans_atMost (hxy : Better x y) (hyz : AtMost y z) : Better x z :=
  ⟨Scalar.le_trans hxy.1 hyz.1, fun hzx => Nat.lt_of_lt_of_le (hxy.2 (Scalar.le_trans hyz.1 hzx))
    (hyz.2 (Scalar.le_trans hzx hxy.1))⟩

end Better

/-- Of two numbers, one that is not exceeded by the other exceeds it. -/
theorem atMost_of_not_better (hx : Scalar.isNumber x.2 = true) (hy : Scalar.isNumber y.2 = true)
    (h : ¬ Better y x) : AtMost x y := by
  have hle : x.2 ≤ y.2 := by
    rcases LawfulOrder.le_total x.2 y.2 hx hy with hle | hge
    · exact hle
    · by_contra hle
      exact h ⟨hge, fun hle' => absurd hle' hle⟩
  exact ⟨hle, fun hge => Nat.not_lt.mp fun hlt => h ⟨hge, fun _ => hlt⟩⟩

namespace Geodesic

/-- A way is better than the one known if it is the better one. -/
theorem improves_iff {a : Nat} {d : S} : improves a d (some y) = true ↔ Better (a, d) y := by
  rcases y with ⟨b, k⟩
  unfold improves Better
  rw [Bool.or_eq_true, Bool.and_eq_true, decide_eq_true_eq, decide_eq_true_eq, Scalar.lt_iff,
    Scalar.beq_iff]
  tauto

theorem isCurrent_iff {entry : Frontier S} : isCurrent entry (some x) = true ↔
    x.1 = entry.anchor ∧ x.2 ≤ entry.distance ∧ entry.distance ≤ x.2 := by
  unfold isCurrent
  rw [Bool.and_eq_true, Scalar.beq_iff, beq_iff_eq]

end Geodesic

namespace Frontier

variable {a b c : Frontier S}

/-- Entries of one length from one anchor are ordered by their points. -/
theorem before_iff : a.before b = true ↔ (Scalar.isNumber a.distance = true →
    a.distance ≤ b.distance ∧ (b.distance ≤ a.distance →
      a.anchor < b.anchor ∨ a.anchor = b.anchor ∧ a.point ≤ b.point)) := by
  unfold before
  simp only [Bool.or_eq_true, Bool.and_eq_true, Bool.not_eq_true', decide_eq_true_eq, beq_iff_eq,
    Scalar.lt_iff, Scalar.beq_iff (a := a.distance)]
  cases Scalar.isNumber a.distance
  · simp
  · simp only [reduceCtorEq, false_or, forall_const]
    tauto

theorem before_trans (hab : a.before b = true) (hbc : b.before c = true) : a.before c = true := by
  rw [before_iff] at hab hbc ⊢
  intro ha
  rcases hab ha with ⟨hle, htie⟩
  rcases hbc (Scalar.isNumber_right hle) with ⟨hle', htie'⟩
  refine ⟨Scalar.le_trans hle hle', fun hge => ?_⟩
  have hlex := htie (Scalar.le_trans hle' hge)
  have hlex' := htie' (Scalar.le_trans hge hle)
  omega

theorem before_total (a b : Frontier S) : a.before b = true ∨ b.before a = true := by
  rw [before_iff, before_iff]
  by_cases ha : Scalar.isNumber a.distance = true
  · by_cases hb : Scalar.isNumber b.distance = true
    · by_cases hle : a.distance ≤ b.distance
      · by_cases hge : b.distance ≤ a.distance
        · have hlex : (a.anchor < b.anchor ∨ a.anchor = b.anchor ∧ a.point ≤ b.point) ∨
              (b.anchor < a.anchor ∨ b.anchor = a.anchor ∧ b.point ≤ a.point) := by omega
          exact hlex.imp (fun h _ => ⟨hle, fun _ => h⟩) fun h _ => ⟨hge, fun _ => h⟩
        · exact .inl fun _ => ⟨hle, fun h => absurd h hge⟩
      · have hge := (LawfulOrder.le_total _ _ ha hb).resolve_left hle
        exact .inr fun _ => ⟨hge, fun h => absurd h hle⟩
    · -- an entry whose length is no number is before all others
      exact .inr fun h => absurd h hb
  · exact .inl fun h => absurd h ha

/-- The first of two entries is on a way that is at most the other one. -/
theorem atMost_of_before (ha : Scalar.isNumber a.distance = true) (h : a.before b = true) :
    AtMost a.way b.way := by
  rcases before_iff.mp h ha with ⟨hle, htie⟩
  refine ⟨hle, fun hge => ?_⟩
  show a.anchor ≤ b.anchor
  have hlex := htie hge
  omega

end Frontier

namespace Geodesic

variable {entry : Frontier S} {frontier : List (Frontier S)}

omit [LawfulOrder S] in
theorem insert_eq_orderedInsert (entry : Frontier S) (frontier : List (Frontier S)) :
    insert entry frontier = frontier.orderedInsert (fun e f => e.before f = true) entry := by
  induction frontier with
  | nil => rfl
  | cons e rest ih =>
    rw [insert, List.orderedInsert_cons, ih]

/-- Putting an entry into an ordered frontier keeps it in order. -/
theorem pairwise_insert (h : frontier.Pairwise fun e f => e.before f = true) :
    (insert entry frontier).Pairwise fun e f => e.before f = true := by
  have _ : Std.Total fun e f : Frontier S => e.before f = true := ⟨Frontier.before_total⟩
  have _ : IsTrans (Frontier S) fun e f => e.before f = true :=
    ⟨fun _ _ _ => Frontier.before_trans⟩
  rw [insert_eq_orderedInsert]
  exact h.orderedInsert entry frontier

omit [LawfulOrder S] in
theorem insert_perm (entry : Frontier S) (frontier : List (Frontier S)) :
    (insert entry frontier).Perm (entry :: frontier) := by
  rw [insert_eq_orderedInsert]
  exact List.perm_orderedInsert _ entry frontier

end Geodesic

end TetheredParticles
