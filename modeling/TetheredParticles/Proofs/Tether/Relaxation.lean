import TetheredParticles.Proofs.Scalar.Real
import TetheredParticles.Proofs.Tether.Pull
/-!
# Passes that only relax tethers

By a fraction of its violation a tether pulls its tip closer, and no other tether of a pass undoes that:
tips are different, and anchors are not moved. With real numbers no violation is therefore larger after
a pass than before, and if the whole violation is taken, none is left. Another pass then finds nothing
to do.

* `Total.visit_tip`, `Total.visit_still` — what a pass does to tips, and to everything else.
* `Tether.span`, `Ideal.span_pull` — the distance of the ends before and after a pull.
* `Tether.Untangled` — tethers of which no two have the same tip.
* `Tether.Relaxed`, `Tether.Closed` — violations after a pass.
* `TetherSet.apply_relaxes` — passes by a fraction, and rigid passes.
-/

namespace TetheredParticles

/-! ## Passes over tethers with different tips -/

namespace Total

variable {S : Type} [Scalar S] {rule : TetherRule S} {load : List (Tether S × S)}

/-- What is no tip is not moved. -/
theorem visit_still {i : Nat} (h : ∀ x ∈ load, x.1.tip ≠ i) (positions : Array (Vec3 S)) :
    (visit rule load positions).2[i]? = positions[i]? := by
  induction load generalizing positions with
  | nil => rfl
  | cons x rest ih =>
    rw [List.forall_mem_cons] at h
    exact (ih h.2 _).trans (getElem?_modify_of_ne positions h.1 _)

/-- A tether with other ends finds what it found before. -/
theorem correction_correct {tip : Nat} {t : Tether S} (htip : tip ≠ t.tip) (hanchor : tip ≠ t.anchor)
    (positions : Array (Vec3 S)) (move : Vec3 S) (multiplier : S) :
    correction rule (TetherRule.correct positions tip move) t multiplier =
      correction rule positions t multiplier := by
  unfold correction TetherRule.correct
  rw [getD_modify_of_ne positions htip, getD_modify_of_ne positions hanchor]

section Apart

variable (hnodup : (load.map (·.1.tip)).Nodup)
variable (hanchors : ∀ x ∈ load, ∀ y ∈ load, x.1.tip ≠ y.1.anchor)

include hnodup hanchors

/-- A tip is moved by its own tether only, and that finds both ends where they were before the pass. -/
theorem visit_tip {t : Tether S} {multiplier : S} (ht : (t, multiplier) ∈ load)
    {positions : Array (Vec3 S)} (hsize : t.tip < positions.size) :
    (visit rule load positions).2.getD t.tip 0 =
      positions.getD t.tip 0 + (correction rule positions t multiplier).1 := by
  induction load generalizing positions with
  | nil => cases ht
  | cons x rest ih =>
    rw [List.map_cons, List.nodup_cons] at hnodup
    have hrest : ∀ y ∈ rest, x.1.tip ≠ y.1.tip := fun y hy heq =>
      hnodup.1 (heq ▸ List.mem_map_of_mem hy)
    rcases List.mem_cons.mp ht with rfl | hmem
    · -- the tethers behind leave the tip alone
      rw [Array.getD_eq_getD_getElem?]
      refine (congrArg (·.getD 0) (visit_still (fun y hy => (hrest y hy).symm) _)).trans ?_
      rw [← Array.getD_eq_getD_getElem?]
      exact getD_modify_self positions hsize _ 0
    · -- the tether in front moves neither end
      have hanchor := hanchors x List.mem_cons_self _ (List.mem_cons_of_mem _ hmem)
      have hih := ih hnodup.2
        (fun y hy z hz => hanchors y (List.mem_cons_of_mem _ hy) z (List.mem_cons_of_mem _ hz)) hmem
        ((size_correct positions x.1.tip (correction rule positions x.1 x.2).1).symm ▸ hsize)
      refine hih.trans ?_
      rw [correction_correct (hrest _ hmem) hanchor]
      exact congrArg (· + _) (getD_modify_of_ne positions (hrest _ hmem) _ 0)

end Apart

end Total

/-! ## Lengths of tethers -/

namespace Tether

variable {S : Type} [Scalar S] {masses : Array S} {t : Tether S}

/-- How far the ends are from each other. -/
def span (t : Tether S) (positions : Array (Vec3 S)) : S :=
  (positions.getD t.anchor 0).distance (positions.getD t.tip 0)

/-- The offset of a tether between particles is what its span has in excess. -/
theorem offset_eq (h : t.Fits masses) {positions : Array (Vec3 S)}
    (hsize : positions.size = masses.size) : t.offset positions = .ok (t.excess (t.span positions)) := by
  rcases h with ⟨⟨wa, hwa, _⟩, wt, hwt, _⟩
  have hanchor : t.anchor < positions.size := hsize ▸ (Array.getElem?_eq_some_iff.mp hwa).1
  have htip : t.tip < positions.size := hsize ▸ (Array.getElem?_eq_some_iff.mp hwt).1
  unfold offset
  rw [Fault.entry_of_lt 0 hanchor, Fault.entry_of_lt 0 htip]
  rfl

/-- No tether starts where another one ends. -/
theorem Fits.tip_ne_anchor [LawfulOrder S] {u : Tether S} (ht : t.Fits masses) (hu : u.Fits masses) :
    t.tip ≠ u.anchor := by
  rcases ht.tip with ⟨w, hw, hpos⟩
  rcases hu.anchor with ⟨z, hz, hzero⟩
  intro heq
  have hsame : w = z := Option.some.inj (hw.symm.trans (heq ▸ hz))
  exact (Scalar.lt_iff.mp hpos).2 (hsame ▸ (Scalar.beq_iff.mp hzero).1)

end Tether

namespace Ideal

variable {t : Tether ℝ} {d : ℝ} {before after : Array (Vec3 ℝ)}

theorem excess_eq (t : Tether ℝ) (distance : ℝ) :
    t.excess distance = max (distance - t.referenceLength) 0 := maxNum_eq ..

theorem excess_nonneg (t : Tether ℝ) (distance : ℝ) : 0 ≤ t.excess distance := by
  rw [excess_eq]
  exact le_max_right ..

theorem excess_mono (t : Tether ℝ) {d e : ℝ} (h : d ≤ e) : t.excess d ≤ t.excess e := by
  rw [excess_eq, excess_eq]
  exact max_le_max_right 0 (sub_le_sub_right h _)

/-- A tether is not violated when it is no longer than it should be. -/
theorem excess_eq_zero {distance : ℝ} (h : distance ≤ t.referenceLength) : t.excess distance = 0 := by
  rw [excess_eq]
  exact max_eq_right (sub_nonpos.mpr h)

/-- A visit finds all of the violation of a tether that has a direction, -/
theorem violation_of_lt (h : Scalar.epsilon < t.span before) :
    t.violation before = t.excess (t.span before) := by
  unfold Tether.violation Tether.reach
  rw [directionAndLength_of_lt h]
  rfl

/-- and none where there is no direction. -/
theorem violation_of_le (ht : 0 ≤ t.referenceLength) (h : t.span before ≤ Scalar.epsilon) :
    t.violation before = 0 := by
  unfold Tether.violation Tether.reach
  rw [directionAndLength_of_le h]
  exact excess_eq_zero ht

theorem violation_nonneg (t : Tether ℝ) (positions : Array (Vec3 ℝ)) : 0 ≤ t.violation positions :=
  excess_nonneg ..

/-- A pull by a part of the violation shortens a tether by as much. -/
theorem span_pull (ht : 0 ≤ t.referenceLength) (hd : 0 ≤ d) (hle : d ≤ t.violation before)
    (hanchor : after.getD t.anchor 0 = before.getD t.anchor 0)
    (htip : after.getD t.tip 0 = before.getD t.tip 0 + (t.reach before).1 * d) :
    t.span after = t.span before - d := by
  obtain ⟨v, hv⟩ : ∃ v, v = before.getD t.anchor 0 - before.getD t.tip 0 := ⟨_, rfl⟩
  have hspan : t.span before = v.length := hv ▸ rfl
  rcases lt_or_ge Scalar.epsilon (t.span before) with hlt | hge
  case inl =>
    have hdirection : (t.reach before).1 = v / v.length := by
      unfold Tether.reach
      rw [← hv, directionAndLength_of_lt (hspan ▸ hlt)]
    have hviolation : t.violation before ≤ v.length := by
      rw [violation_of_lt hlt, hspan, excess_eq]
      exact max_le (sub_le_self _ ht) (length_nonneg v)
    have hleft : after.getD t.anchor 0 - after.getD t.tip 0 = v + v / v.length * (-d) := by
      rw [hanchor, htip, hdirection, hv]
      have hcomponent : ∀ a b c : ℝ, a - (b + c * d) = a - b + c * -d := fun a b c => by ring
      exact eq_of_components (hcomponent _ _ _) (hcomponent _ _ _) (hcomponent _ _ _)
    have hpos : 0 < v.length := hspan ▸ epsilon_pos.trans hlt
    rw [hspan]
    exact (congrArg Vec3.length hleft).trans (length_along hpos (by linarith))
  case inr =>
    -- without a direction there is no violation to take a part of
    have hnone : d = 0 := le_antisymm (hle.trans_eq (violation_of_le ht hge)) hd
    have hstill : after.getD t.tip 0 = before.getD t.tip 0 := by
      rw [htip, hnone, mul_zero_eq, add_zero_eq]
    unfold Tether.span
    rw [hanchor, hstill, hnone, sub_zero]

end Ideal

/-! ## Passes by a fraction -/

namespace Tether

/-- Tethers from anchored particles to free ones, of which each is held by at most one. -/
structure Untangled (masses : Array ℝ) (tethers : List (Tether ℝ)) : Prop where
  lengths : ∀ t ∈ tethers, 0 ≤ t.referenceLength
  fits : ∀ t ∈ tethers, t.Fits masses
  tips : (tethers.map (·.tip)).Nodup

/-- No violation is larger than before, and of all particles only tips have moved. -/
structure Relaxed (tethers : List (Tether ℝ)) (before after : Array (Vec3 ℝ)) : Prop where
  size : after.size = before.size
  still : ∀ i, (∀ t ∈ tethers, t.tip ≠ i) → after[i]? = before[i]?
  offset : ∀ t ∈ tethers, ∃ had left, t.offset before = .ok had ∧ t.offset after = .ok left ∧
    left ≤ had

/-- Whether a tether is too long to be passed over: its ends are apart, before a pass or after it, or
would be with a violation. -/
def Reaching (t : Tether ℝ) (before after : Array (Vec3 ℝ)) : Prop :=
  Scalar.epsilon < t.span before ∨ Scalar.epsilon < t.span after ∨
    Scalar.epsilon ≤ t.referenceLength

/-- No violation is left of any such tether. -/
def Closed (tethers : List (Tether ℝ)) (before after : Array (Vec3 ℝ)) : Prop :=
  ∀ t ∈ tethers, t.Reaching before after → t.offset after = .ok 0

end Tether

namespace Ideal

variable {tethers : List (Tether ℝ)} (stiffness : ℝ) {s : ℝ} {masses : Array ℝ}
variable {positions : Array (Vec3 ℝ)}

/-- A pass takes the same fraction of all violations. -/
theorem span_project (h : Tether.Untangled masses tethers) (hs : 0 ≤ s) (hone : s ≤ 1)
    (hsize : positions.size = masses.size) {t : Tether ℝ} (ht : t ∈ tethers) :
    t.span (Total.project (.ofTethers tethers stiffness) s positions) =
      t.span positions - s * t.violation positions := by
  obtain ⟨batches, hbatches⟩ : ∃ batches, batches = TetherBatches.ofTethers tethers stiffness :=
    ⟨_, rfl⟩
  have hperm : batches.tethers.Perm tethers := hbatches ▸ Tether.flatten_batches_perm tethers
  have hfirst : (batches.tethers.zip (List.replicate batches.size (0 : ℝ))).map Prod.fst =
      batches.tethers := List.map_fst_zip (List.length_replicate ..).ge
  have hmem : ∀ x ∈ batches.tethers.zip (List.replicate batches.size (0 : ℝ)), x.1 ∈ tethers :=
    fun x hx => hperm.mem_iff.mp (List.of_mem_zip hx).1
  have hnodup : ((batches.tethers.zip (List.replicate batches.size (0 : ℝ))).map (·.1.tip)).Nodup := by
    have htips := (hperm.map (·.tip)).nodup_iff.mpr h.tips
    rw [← hfirst, List.map_map] at htips
    exact htips
  rw [← hbatches]
  unfold Total.project
  split
  case isTrue hnone =>
    rw [le_antisymm hnone hs, zero_mul, sub_zero]
  case isFalse =>
    obtain ⟨x, hx, rfl⟩ := List.mem_map.mp (hfirst.symm ▸ hperm.mem_iff.mpr ht)
    have hanchors : ∀ y ∈ batches.tethers.zip (List.replicate batches.size (0 : ℝ)),
        ∀ z ∈ batches.tethers.zip (List.replicate batches.size (0 : ℝ)), y.1.tip ≠ z.1.anchor :=
      fun y hy z hz => (h.fits _ (hmem y hy)).tip_ne_anchor (h.fits _ (hmem z hz))
    refine span_pull (h.lengths _ ht) (mul_nonneg hs (violation_nonneg ..))
      (mul_le_of_le_one_left (violation_nonneg ..) hone) ?_ ?_
    · rw [Array.getD_eq_getD_getElem?, Total.visit_still fun y hy => hanchors y hy x hx,
        ← Array.getD_eq_getD_getElem?]
    · rcases (h.fits _ ht).tip with ⟨w, hw, _⟩
      exact Total.visit_tip hnodup hanchors hx (hsize ▸ (Array.getElem?_eq_some_iff.mp hw).1)

theorem relaxed_project (h : Tether.Untangled masses tethers) (hs : 0 ≤ s) (hone : s ≤ 1)
    (hsize : positions.size = masses.size) :
    Tether.Relaxed tethers positions
      (Total.project (.ofTethers tethers stiffness) s positions) := by
  have hmoved := Total.size_project (.ofTethers tethers stiffness) s positions
  refine ⟨hmoved, fun i hi => ?_, fun t ht => ⟨_, _, Tether.offset_eq (h.fits t ht) hsize,
    Tether.offset_eq (h.fits t ht) (hmoved.trans hsize), excess_mono t ?_⟩⟩
  · unfold Total.project
    split
    · rfl
    · exact Total.visit_still (fun x hx =>
        hi _ ((Tether.flatten_batches_perm tethers).mem_iff.mp (List.of_mem_zip hx).1)) positions
  · rw [span_project stiffness h hs hone hsize ht]
    exact sub_le_self _ (mul_nonneg hs (violation_nonneg ..))

/-- A whole violation that is taken leaves none. -/
theorem excess_project (h : Tether.Untangled masses tethers) (hsize : positions.size = masses.size)
    {t : Tether ℝ} (ht : t ∈ tethers)
    (hreaching : t.Reaching positions (Total.project (.ofTethers tethers stiffness) 1 positions)) :
    t.excess (t.span (Total.project (.ofTethers tethers stiffness) 1 positions)) = 0 := by
  have hspan := span_project stiffness h zero_le_one le_rfl hsize ht
  rw [one_mul] at hspan
  have hviolation := violation_nonneg t positions
  refine excess_eq_zero ?_
  rcases lt_or_ge Scalar.epsilon (t.span positions) with hlt | hge
  · -- what exceeds the reference length has been taken
    rw [hspan, violation_of_lt hlt, excess_eq]
    have hle := le_max_left (t.span positions - t.referenceLength) 0
    linarith
  · rcases hreaching with hbefore | hafter | hlength
    · exact absurd hge (not_le.mpr hbefore)
    · linarith
    · linarith

/-- When no violation is left, a pass changes nothing. -/
theorem visit_closed {load : List (Tether ℝ × ℝ)} (hlengths : ∀ x ∈ load, 0 ≤ x.1.referenceLength)
    (hclosed : ∀ x ∈ load, Scalar.epsilon < x.1.span positions →
      x.1.excess (x.1.span positions) = 0) :
    (Total.visit (.plain s) load positions).2 = positions := by
  induction load with
  | nil => rfl
  | cons x rest ih =>
    rw [List.forall_mem_cons] at hlengths hclosed
    have hnone : x.1.violation positions = 0 := by
      rcases lt_or_ge Scalar.epsilon (x.1.span positions) with hlt | hge
      · exact (violation_of_lt hlt).trans (hclosed.1 hlt)
      · exact violation_of_le hlengths.1 hge
    have hstill : TetherRule.correct positions x.1.tip
        ((x.1.reach positions).1 * (s * x.1.violation positions)) = positions := by
      rw [hnone, mul_zero, mul_zero_eq]
      exact modify_still positions x.1.tip add_zero_eq
    exact (congrArg (fun moved => (Total.visit (.plain s) rest moved).2) hstill).trans
      (ih hlengths.2 hclosed.2)

theorem project_again (h : Tether.Untangled masses tethers) (hsize : positions.size = masses.size) :
    Total.project (.ofTethers tethers stiffness) 1
        (Total.project (.ofTethers tethers stiffness) 1 positions) =
      Total.project (.ofTethers tethers stiffness) 1 positions := by
  obtain ⟨moved, hmoved⟩ : ∃ moved, moved =
    Total.project (.ofTethers tethers stiffness) 1 positions := ⟨_, rfl⟩
  have hmem : ∀ x ∈ (TetherBatches.ofTethers tethers stiffness).tethers.zip
      (List.replicate (TetherBatches.ofTethers tethers stiffness).size (0 : ℝ)), x.1 ∈ tethers :=
    fun x hx => (Tether.flatten_batches_perm tethers).mem_iff.mp (List.of_mem_zip hx).1
  rw [← hmoved]
  unfold Total.project
  rw [if_neg (not_le.mpr zero_lt_one)]
  refine visit_closed (fun x hx => h.lengths _ (hmem x hx)) fun x hx hlt => ?_
  rw [hmoved] at hlt ⊢
  exact excess_project stiffness h hsize (hmem x hx) (.inr (.inl hlt))

theorem closed_project (h : Tether.Untangled masses tethers) (hsize : positions.size = masses.size) :
    Tether.Closed tethers positions (Total.project (.ofTethers tethers stiffness) 1 positions) := by
  intro t ht hreaching
  rw [Tether.offset_eq (h.fits t ht) ((Total.size_project ..).trans hsize),
    excess_project stiffness h hsize ht hreaching]

end Ideal

namespace TetherSet

variable {tethers : List (Tether ℝ)} {stiffness : ℝ} {masses : Array ℝ} {positions : Array (Vec3 ℝ)}

theorem project_eq_total (hfits : ∀ t ∈ tethers, t.Fits masses) (hsize : positions.size = masses.size)
    (s : ℝ) (schedule : Schedule) :
    project (.ofTethers tethers stiffness) s schedule masses positions =
      .ok (Total.project (.ofTethers tethers stiffness) s positions) := by
  have hgrouped : (TetherBatches.ofTethers tethers stiffness).batches = Tether.batches tethers := rfl
  have hall : ∀ t ∈ (TetherBatches.ofTethers tethers stiffness).tethers, t.Fits masses :=
    fun t ht => hfits t ((Tether.flatten_batches_perm tethers).mem_iff.mp ht)
  rw [project_eq_serial hgrouped]
  exact Total.project_eq hall hsize s

/-- Whatever the stiffness and the positions, a pass by a fraction enlarges no violation and moves tips
only. A pass by all of it, and so every rigid one, closes all violations, and does nothing more when it
is repeated. -/
theorem apply_relaxes (h : Tether.Untangled masses tethers) (hnonneg : 0 ≤ stiffness)
    (hone : stiffness ≤ 1) (hsize : positions.size = masses.size) :
    ∃ moved pushed,
      (∀ dt schedule, (pbd (.ofTethers tethers stiffness)).apply dt schedule masses positions =
        .ok (pbd (.ofTethers tethers stiffness), moved)) ∧
      Tether.Relaxed tethers positions moved ∧
      (stiffness = 1 → Tether.Closed tethers positions moved ∧
        ∀ dt schedule, (pbd (.ofTethers tethers stiffness)).apply dt schedule masses moved =
          .ok (pbd (.ofTethers tethers stiffness), moved)) ∧
      (∀ set : TetherSet ℝ, set.batches = .ofTethers tethers stiffness → ∀ schedule,
        set.applyRigid schedule masses positions = .ok pushed ∧
        set.applyRigid schedule masses pushed = .ok pushed) ∧
      Tether.Relaxed tethers positions pushed ∧ Tether.Closed tethers positions pushed := by
  have hclamp : (TetherBatches.ofTethers tethers stiffness).stiffness = stiffness := by
    show Scalar.clamp stiffness 0 1 = stiffness
    unfold Scalar.clamp
    rw [if_neg (not_lt.mpr hnonneg), if_neg (not_lt.mpr hone)]
  have happly : ∀ (dt : ℝ) (schedule : Schedule) (ps : Array (Vec3 ℝ)), ps.size = masses.size →
      (pbd (.ofTethers tethers stiffness)).apply dt schedule masses ps =
        .ok (pbd (.ofTethers tethers stiffness),
          Total.project (.ofTethers tethers stiffness) stiffness ps) := by
    intro dt schedule ps hps
    unfold apply
    dsimp only
    rw [hclamp, project_eq_total h.fits hps]
    rfl
  have hagain := Ideal.project_again stiffness h hsize
  refine ⟨Total.project (.ofTethers tethers stiffness) stiffness positions,
    Total.project (.ofTethers tethers stiffness) 1 positions,
    fun dt schedule => happly dt schedule positions hsize,
    Ideal.relaxed_project _ h hnonneg hone hsize, ?_, ?_,
    Ideal.relaxed_project _ h zero_le_one le_rfl hsize, Ideal.closed_project _ h hsize⟩
  · rintro rfl
    refine ⟨Ideal.closed_project _ h hsize, fun dt schedule => ?_⟩
    rw [happly dt schedule _ ((Total.size_project ..).trans hsize), hagain]
  · intro set hset schedule
    unfold applyRigid
    rw [hset, project_eq_total h.fits hsize,
      project_eq_total h.fits ((Total.size_project ..).trans hsize), hagain]
    exact ⟨rfl, rfl⟩

/-- A tether of length five from the first of two particles to the second. -/
noncomputable def cord : Tether ℝ := ⟨0, 1, 5⟩

theorem cord_untangled : Tether.Untangled #[0, 1] [cord] := by
  refine ⟨?_, ?_, List.nodup_singleton _⟩
  · rw [List.forall_mem_singleton]
    show (0 : ℝ) ≤ 5
    norm_num
  · rw [List.forall_mem_singleton]
    exact ⟨⟨0, rfl, beq_self_eq_true _⟩, 1, rfl, zero_lt_one⟩

/-- Passes over the tether when it is twice as long as it should be. -/
theorem cord_relaxes :
    ∃ moved pushed,
      Tether.Relaxed [cord] #[0, ⟨10, 0, 0⟩] moved ∧
      (pbd (.ofTethers [cord] (1 / 2))).apply 1 .serial #[0, 1] #[0, ⟨10, 0, 0⟩] =
        .ok (pbd (.ofTethers [cord] (1 / 2)), moved) ∧
      Tether.Closed [cord] #[0, ⟨10, 0, 0⟩] pushed ∧
      (pbd (.ofTethers [cord] (1 / 2))).applyRigid .serial #[0, 1] #[0, ⟨10, 0, 0⟩] = .ok pushed := by
  have hnonneg : (0 : ℝ) ≤ 1 / 2 := by norm_num
  have hone : (1 / 2 : ℝ) ≤ 1 := by norm_num
  have hsize : (#[0, ⟨10, 0, 0⟩] : Array (Vec3 ℝ)).size = (#[0, 1] : Array ℝ).size := rfl
  rcases apply_relaxes cord_untangled hnonneg hone hsize with
    ⟨moved, pushed, happly, hrelaxed, _, hrigid, _, hclosed⟩
  exact ⟨moved, pushed, hrelaxed, happly 1 .serial, hclosed, (hrigid _ rfl .serial).1⟩

end TetherSet

end TetheredParticles
