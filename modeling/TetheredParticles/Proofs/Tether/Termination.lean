import TetheredParticles.Proofs.Scalar.Lengths
import TetheredParticles.Proofs.Tether.Geodesic
/-!
# Searches terminate

A search ends for all graphs and all positions. Lengths that are no numbers do no harm, because entries
with such a length are never expanded. Rounding does no harm either: a way that goes on by an edge that
is too short to count is as long as before, so that it still does not leave the frontier before the
way it comes from. A graph may even list neighbors that are no points. Nothing is known of them, and
their entries are dropped one by one; in between, the search goes on as if they were anchored.

* `Geodesic.inner`, `Geodesic.inner_followAll` — a search without the entries for what is no point.
* `Geodesic.Bounded`, `Bounded.step` — every round uses up an entry or the edges of a point.
* `Geodesic.search_terminates` — a search takes finitely many rounds, and no more than it is given.
-/

namespace TetheredParticles

namespace Geodesic

variable {S : Type} [Scalar S] {positions : Array (Vec3 S)} {g : Graph} {anchored : Nat → Bool}
  {entry : Frontier S} {s : Geodesic S}

/-! ## What is no point -/

/-- A search without the entries for what is no point. -/
def inner (s : Geodesic S) : Geodesic S :=
  ⟨s.best, s.frontier.filter fun e => e.point < s.best.size⟩

/-- Anchored points are not entered, and neither is what is no point. -/
def barred (count : Nat) (anchored : Nat → Bool) (q : Nat) : Bool := anchored q || decide (count ≤ q)

theorem barred_of_lt {count q : Nat} (h : q < count) : barred count anchored q = anchored q := by
  unfold barred
  rw [decide_eq_false (Nat.not_le.mpr h), Bool.or_false]

theorem barred_of_ge {count q : Nat} (h : count ≤ q) : barred count anchored q = true := by
  unfold barred
  rw [decide_eq_true h, Bool.or_true]

theorem lt_of_not_barred {count q : Nat} (h : barred count anchored q = false) : q < count := by
  by_contra hge
  exact Bool.false_ne_true (h.symm.trans (barred_of_ge (Nat.not_lt.mp hge)))

/-- An ordered frontier may be filtered before or after an entry is put into it. -/
theorem filter_insert [LawfulOrder S] (keep : Frontier S → Bool) {frontier : List (Frontier S)}
    (h : frontier.Pairwise fun e f => e.before f = true) :
    (insert entry frontier).filter keep =
      if keep entry then insert entry (frontier.filter keep) else frontier.filter keep := by
  simp only [insert_eq_orderedInsert]
  induction frontier with
  | nil =>
    rw [List.orderedInsert_nil, List.filter_cons]
    rfl
  | cons e rest ih =>
    rw [List.pairwise_cons] at h
    by_cases hbefore : entry.before e = true
    · -- then it comes before all entries that are kept
      have hfront : (List.filter keep (e :: rest)).orderedInsert (fun e f => e.before f = true) entry =
          entry :: List.filter keep (e :: rest) := by
        have hall : ∀ f ∈ List.filter keep (e :: rest), entry.before f = true := by
          intro f hf
          rcases List.mem_cons.mp (List.mem_of_mem_filter hf) with rfl | hf
          · exact hbefore
          · exact Frontier.before_trans hbefore (h.1 f hf)
        cases hfilter : List.filter keep (e :: rest) with
        | nil => rfl
        | cons f _ =>
          exact List.orderedInsert_cons_of_le _ _ (hall f (hfilter ▸ List.mem_cons_self))
      rw [List.orderedInsert_cons, if_pos hbefore, List.filter_cons, hfront]
    · rw [List.orderedInsert_cons, if_neg hbefore, List.filter_cons, List.filter_cons, ih h.2]
      by_cases hkeep : keep entry = true
      · rw [if_pos hkeep, if_pos hkeep]
        by_cases hkeep' : keep e = true
        · rw [if_pos hkeep', if_pos hkeep', List.orderedInsert_cons, if_neg hbefore]
        · rw [if_neg hkeep', if_neg hkeep']
      · rw [if_neg hkeep, if_neg hkeep]

section Inner

variable [LawfulOrder S]

theorem inner_reach (h : s.frontier.Pairwise fun e f => e.before f = true)
    (hlt : entry.point < s.best.size) : (s.reach entry).inner = s.inner.reach entry := by
  unfold inner reach
  dsimp only
  rw [Array.size_setIfInBounds, filter_insert _ h, if_pos (decide_eq_true hlt)]

/-- Nothing is recorded for what is no point. -/
theorem inner_reach_of_ge (h : s.frontier.Pairwise fun e f => e.before f = true)
    (hge : s.best.size ≤ entry.point) : (s.reach entry).inner = s.inner := by
  unfold inner reach
  dsimp only
  rw [Array.size_setIfInBounds, filter_insert _ h, Array.setIfInBounds_eq_of_size_le hge,
    if_neg (by simpa using hge)]

/-- An edge is followed in the same way without the entries for what is no point. -/
theorem inner_follow (h : s.frontier.Pairwise fun e f => e.before f = true) (q : Nat) :
    (follow positions anchored entry s q).inner =
      follow positions (barred s.best.size anchored) entry s.inner q := by
  by_cases hlt : q < s.best.size
  · unfold follow
    rw [barred_of_lt hlt, apply_ite inner, apply_ite inner, inner_reach h hlt]
    rfl
  · have hge := Nat.not_lt.mp hlt
    -- what is no point is recorded nowhere, so that its entry is all that comes of it
    have hbarred : follow positions (barred s.best.size anchored) entry s.inner q = s.inner :=
      if_pos (barred_of_ge hge)
    rw [hbarred]
    rcases follow_cases positions anchored entry s q with ⟨_, heq⟩ | ⟨_, heq⟩ <;> rw [heq]
    exact inner_reach_of_ge h hge

theorem pairwise_follow (h : s.frontier.Pairwise fun e f => e.before f = true) (q : Nat) :
    (follow positions anchored entry s q).frontier.Pairwise (fun e f => e.before f = true) ∧
      (follow positions anchored entry s q).best.size = s.best.size := by
  rcases follow_cases positions anchored entry s q with ⟨_, heq⟩ | ⟨_, heq⟩ <;> rw [heq]
  · exact ⟨h, rfl⟩
  · exact ⟨pairwise_insert h, size_reach⟩

/-- All edges of a point are followed in the same way without the entries for what is no point. -/
theorem inner_followAll (positions : Array (Vec3 S)) (anchored : Nat → Bool) (entry : Frontier S)
    (s : Geodesic S) (h : s.frontier.Pairwise fun e f => e.before f = true) (qs : List Nat) :
    (qs.foldl (follow positions anchored entry) s).inner =
        qs.foldl (follow positions (barred s.best.size anchored) entry) s.inner ∧
      (qs.foldl (follow positions anchored entry) s).frontier.Pairwise
        fun e f => e.before f = true := by
  induction qs generalizing s with
  | nil => exact ⟨rfl, h⟩
  | cons q rest ih =>
    rcases pairwise_follow h q with ⟨hsorted, hsize⟩
    rcases ih _ hsorted with ⟨hinner, hlast⟩
    rw [List.foldl_cons, List.foldl_cons, ← inner_follow h q]
    exact ⟨hsize ▸ hinner, hlast⟩

end Inner

/-! ## Rounds -/

/-- A search that is kept, but for what is no point. -/
structure Bounded [LawfulOrder S] (positions : Array (Vec3 S)) (g : Graph) (anchored : Nat → Bool)
    (expanded : List Nat) (floor : Nat × S) (s : Geodesic S) : Prop where
  sorted : s.frontier.Pairwise fun e f => e.before f = true
  kept : s.inner.Kept positions g (barred positions.size anchored) expanded [] floor

/-- What a search may still need, in rounds: one for each entry, and one for each edge of the points
that have not been expanded. -/
def credit (g : Graph) (expanded : List Nat) (s : Geodesic S) : Nat :=
  s.frontier.length + remaining g expanded

/-- Going on does not make a way shorter, however long the edge is and if it has a length at all. -/
theorem growing [LawfulLengths S] [LawfulTerms S] (positions : Array (Vec3 S)) (g : Graph) :
    Growing positions g := by
  intro p q _ d hd hnumber
  have hedge : Scalar.isNumber (edgeLength positions p q) = true :=
    LawfulTerms.isNumber_of_add _ _ hnumber
  exact Scalar.le_add hd (Vec3.distance_nonneg hedge)

variable {expanded : List Nat} {floor : Nat × S}

/-- A round uses up an entry or the edges of a point. -/
theorem Bounded.step [LawfulOrder S] (h : s.Bounded positions g anchored expanded floor)
    (hgrowing : Growing positions g) (hne : s.frontier ≠ []) :
    ∃ expanded' floor', (s.step positions g anchored).Bounded positions g anchored expanded' floor' ∧
      credit g expanded' (s.step positions g anchored) < credit g expanded s := by
  rcases s with ⟨best, frontier⟩
  cases frontier with
  | nil => exact absurd rfl hne
  | cons entry rest =>
    have hsorted := (List.pairwise_cons.mp h.sorted).2
    have hsize : best.size = positions.size := h.kept.size
    have hdropped : credit g expanded (⟨best, rest⟩ : Geodesic S) <
        credit g expanded ⟨best, entry :: rest⟩ :=
      Nat.add_lt_add_right (Nat.lt_succ_self _) _
    rw [step_cons]
    by_cases hlt : entry.point < best.size
    · -- the same round happens without the entries for what is no point
      have hinner : (⟨best, entry :: rest⟩ : Geodesic S).inner =
          ⟨best, entry :: (inner ⟨best, rest⟩).frontier⟩ :=
        congrArg (Geodesic.mk best) (List.filter_cons_of_pos (decide_eq_true hlt))
      have hkept := hinner ▸ h.kept
      by_cases hcurrent : isCurrent entry (best.getD entry.point none) = true
      · rw [if_pos hcurrent]
        rcases hkept.current hcurrent with ⟨hway, _, hfresh⟩
        rcases inner_followAll positions anchored entry ⟨best, rest⟩ hsorted
          (g.neighbors entry.point) with ⟨hfollow, hlast⟩
        have hnext := (hkept.expand hcurrent).followAll _ hgrowing
          (fun q hq => ⟨hq, lt_of_not_barred⟩) List.mem_cons_self hway
        -- the edges of the point pay for the new entries, and they are used up
        have hlength := length_followAll_le positions anchored entry (g.neighbors entry.point)
          ⟨best, rest⟩
        have hedges := remaining_cons g hfresh
        dsimp only at hfollow hlength
        rw [hsize] at hfollow
        refine ⟨_, _, ⟨hlast, hfollow ▸ hnext⟩, ?_⟩
        unfold credit
        rw [List.length_cons]
        omega
      · rw [if_neg hcurrent]
        exact ⟨expanded, floor, ⟨hsorted, hkept.drop (Bool.eq_false_iff.mpr hcurrent)⟩, hdropped⟩
    · -- nothing is known of what is no point
      have hnone : best.getD entry.point none = none := by
        rw [Array.getD_eq_getD_getElem?, Array.getElem?_eq_none (Nat.not_lt.mp hlt)]
        rfl
      have hstale : ¬ isCurrent entry (best.getD entry.point none) = true := by
        rw [hnone]
        exact Bool.false_ne_true
      have hinner : (⟨best, entry :: rest⟩ : Geodesic S).inner = inner ⟨best, rest⟩ :=
        congrArg (Geodesic.mk best) (List.filter_cons_of_neg (by simpa using hlt))
      rw [if_neg hstale]
      exact ⟨expanded, floor, ⟨hsorted, hinner ▸ h.kept⟩, hdropped⟩

/-- After finitely many rounds the frontier is empty for the first time, and runs that are long enough
stop there. -/
theorem Bounded.exists_round [LawfulOrder S] (bound : Nat)
    (h : s.Bounded positions g anchored expanded floor) (hgrowing : Growing positions g)
    (hbound : credit g expanded s ≤ bound) :
    ∃ n ≤ bound, ((Geodesic.step positions g anchored)^[n] s).frontier = [] ∧
      (∀ m < n, ((Geodesic.step positions g anchored)^[m] s).frontier ≠ []) ∧
      s.run positions g anchored bound = (Geodesic.step positions g anchored)^[n] s := by
  -- by induction on the rounds that are left, for whatever search a round leads to
  induction bound generalizing s expanded floor with
  | zero =>
    have hlength : s.frontier.length ≤ 0 := (Nat.le_add_right _ _).trans hbound
    exact ⟨0, le_rfl, List.eq_nil_of_length_eq_zero (Nat.le_zero.mp hlength), nofun, rfl⟩
  | succ bound ih =>
    unfold run
    by_cases hempty : s.frontier = []
    · exact ⟨0, Nat.zero_le _, hempty, nofun, if_pos (List.isEmpty_iff.mpr hempty)⟩
    · rcases h.step hgrowing hempty with ⟨expanded', floor', hnext, hless⟩
      rcases ih hnext (by omega) with ⟨n, hn, hlast, hfirst, hrun⟩
      refine ⟨n + 1, by omega, hlast, fun m hm => ?_, ?_⟩
      · cases m with
        | zero => exact hempty
        | succ m => exact hfirst m (Nat.lt_of_succ_lt_succ hm)
      · rw [if_neg fun hnil => hempty (List.isEmpty_iff.mp hnil), hrun]
        rfl

/-- Searches start within bounds. -/
theorem bounded_start [LawfulOrder S] (positions : Array (Vec3 S)) (g : Graph)
    (anchored : Nat → Bool) :
    (start positions.size anchored).Bounded positions g anchored [] (0, 0) ∧
      credit g [] (start (S := S) positions.size anchored) ≤ rounds positions.size g := by
  have hsame : start (S := S) positions.size (barred positions.size anchored) =
      start positions.size anchored := by
    unfold start
    rw [List.filter_congr fun p hp => barred_of_lt (List.mem_range.mp hp)]
  rcases kept_start positions g (barred positions.size anchored) with ⟨hkept, hlength⟩
  rw [hsame] at hkept hlength
  -- anchors are points
  have hpoints : (start (S := S) positions.size anchored).Holds fun p _ => p < positions.size :=
    Holds.start fun p hp _ => hp
  have hinner : (start (S := S) positions.size anchored).inner =
      start positions.size anchored := by
    unfold inner
    rw [hkept.size, List.filter_eq_self.mpr fun e he => decide_eq_true (hpoints.frontier e he)]
  refine ⟨⟨hkept.sorted, hinner.symm ▸ hkept⟩, ?_⟩
  have hedges : remaining g [] ≤ g.edges.length := List.length_filter_le ..
  unfold credit rounds
  omega

/-- A search ends after finitely many rounds, not more than it is given, with an empty frontier. -/
theorem search_terminates [LawfulLengths S] [LawfulTerms S] (positions : Array (Vec3 S)) (g : Graph)
    (anchored : Nat → Bool) :
    ∃ n ≤ rounds positions.size g,
      ((step positions g anchored)^[n] (start positions.size anchored)).frontier = [] ∧
      (∀ m < n, ((step positions g anchored)^[m] (start positions.size anchored)).frontier ≠ []) ∧
      search positions g anchored =
        ((step positions g anchored)^[n] (start positions.size anchored)).best := by
  rcases bounded_start positions g anchored with ⟨hstart, hcredit⟩
  rcases hstart.exists_round _ (growing positions g) hcredit with ⟨n, hn, hempty, hfirst, hrun⟩
  exact ⟨n, hn, hempty, hfirst, congrArg Geodesic.best hrun⟩

/-- Points in the same place, one that is infinitely far away and one that is nowhere. -/
def scattered : Array (Vec3 Float32) :=
  #[⟨0, 0, 0⟩, ⟨0, 0, 0⟩, ⟨1 / 0, 0, 0⟩, ⟨0 / 0, 0, 0⟩]

/-- Edges in a circle, and one that leads to no point. -/
def circle : Graph := .ofEdges [(0, 1), (1, 2), (2, 3), (3, 0), (1, 7), (1, 0)]

/-- A search over them terminates. -/
theorem scattered_terminates :
    ∃ n ≤ rounds scattered.size circle,
      ((step scattered circle (· == 0))^[n] (start scattered.size (· == 0))).frontier = [] ∧
      (∀ m < n,
        ((step scattered circle (· == 0))^[m] (start scattered.size (· == 0))).frontier ≠ []) ∧
      search scattered circle (· == 0) =
        ((step scattered circle (· == 0))^[n] (start scattered.size (· == 0))).best :=
  search_terminates scattered circle (· == 0)

end Geodesic

end TetheredParticles
