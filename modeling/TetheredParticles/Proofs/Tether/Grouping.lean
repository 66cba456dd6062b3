import Std.Data.TreeMap
import TetheredParticles.Proofs.Tether.Parallel
import TetheredParticles.Proofs.Tether.Ranks
/-!
# Grouping tethers by counting

Instead of looking for a batch that has no tether with its tip, one may count how often each tip has
occurred so far, sort the tethers by these numbers, and cut the sorted list where the numbers change.
This comes to the same batches: the numbers are the ranks, a stable sort keeps tethers of one rank in
their order, and no rank is left out, so that a range which is not there yet is always the next one.

* `Tether.numbered`, `Tether.cut` — numbers from a table of counts, and ranges from numbers.
* `Tether.numbered_eq_ranked`, `Tether.sort_ranked`, `Tether.cut_layered` — what they come to.
* `TetherBatches.Covers`, `TetherBatches.covered` — ranges, and what they cover.
* `TetherBatches.Ranked` — what batches are to the tethers that they group.
* `TetherBatches.ofTethers_ranked` — all groupings are like this.
-/

namespace TetheredParticles

variable {S : Type}

namespace ByNumber

/-! ## Sorting by a number -/

variable {α : Type}

theorem mem_iff_of_filter_eq {xs ys : List (Nat × α)}
    (h : ∀ k, xs.filter (·.1 == k) = ys.filter (·.1 == k)) (z : Nat × α) : z ∈ xs ↔ z ∈ ys := by
  have hz := congrArg (z ∈ ·) (h z.1)
  simpa using hz

/-- A list that is sorted by a number is determined by its parts of equal numbers. -/
theorem eq_of_filter_eq {xs ys : List (Nat × α)} (hxs : xs.Pairwise (·.1 ≤ ·.1))
    (hys : ys.Pairwise (·.1 ≤ ·.1)) (h : ∀ k, xs.filter (·.1 == k) = ys.filter (·.1 == k)) :
    xs = ys := by
  have hmem := mem_iff_of_filter_eq h
  induction xs generalizing ys with
  | nil =>
    symm
    rw [List.eq_nil_iff_forall_not_mem]
    intro z hz
    exact absurd ((hmem z).mpr hz) List.not_mem_nil
  | cons x xs ih =>
    cases ys with
    | nil => exact absurd ((hmem x).mp List.mem_cons_self) List.not_mem_nil
    | cons y ys =>
      rw [List.pairwise_cons] at hxs hys
      have hle : x.1 ≤ y.1 := by
        rcases List.mem_cons.mp ((hmem y).mpr List.mem_cons_self) with rfl | hy
        · exact Nat.le_refl _
        · exact hxs.1 y hy
      have hge : y.1 ≤ x.1 := by
        rcases List.mem_cons.mp ((hmem x).mp List.mem_cons_self) with rfl | hx
        · exact Nat.le_refl _
        · exact hys.1 x hx
      have hkey : y.1 = x.1 := Nat.le_antisymm hge hle
      -- both lists start with the first element of this number
      have hfirst := h x.1
      simp only [List.filter_cons, hkey, beq_self_eq_true, if_true, List.cons.injEq] at hfirst
      rcases hfirst with ⟨rfl, _⟩
      have hrest : ∀ k, xs.filter (·.1 == k) = ys.filter (·.1 == k) := by
        intro k
        have hk := h k
        rw [List.filter_cons, List.filter_cons] at hk
        split at hk
        · exact (List.cons.inj hk).2
        · exact hk
      rw [ih hxs.2 hys.2 hrest (mem_iff_of_filter_eq hrest)]

/-- Sorts by a number, and keeps the order of what has equal numbers. -/
def sort (xs : List (Nat × α)) : List (Nat × α) :=
  xs.mergeSort fun a b => a.1 ≤ b.1

theorem le_trans (a b c : Nat × α) (hab : decide (a.1 ≤ b.1) = true)
    (hbc : decide (b.1 ≤ c.1) = true) : decide (a.1 ≤ c.1) = true := by
  simp only [decide_eq_true_eq] at *
  omega

theorem le_total (a b : Nat × α) : (decide (a.1 ≤ b.1) || decide (b.1 ≤ a.1)) = true := by
  simp only [Bool.or_eq_true, decide_eq_true_eq]
  omega

theorem pairwise_sort (xs : List (Nat × α)) : (sort xs).Pairwise (·.1 ≤ ·.1) := by
  have hsorted := List.pairwise_mergeSort le_trans le_total xs
  exact hsorted.imp of_decide_eq_true

theorem filter_sort (xs : List (Nat × α)) (k : Nat) :
    (sort xs).filter (·.1 == k) = xs.filter (·.1 == k) := by
  have hequal : (xs.filter (·.1 == k)).Pairwise fun a b => decide (a.1 ≤ b.1) = true := by
    refine List.pairwise_of_forall_mem_list fun a ha b hb => ?_
    simp only [List.mem_filter, beq_iff_eq] at ha hb
    simp [ha.2, hb.2]
  have hsublist : (xs.filter (·.1 == k)).Sublist (sort xs) :=
    List.sublist_mergeSort le_trans le_total hequal List.filter_sublist
  have hfilter := hsublist.filter (·.1 == k)
  rw [List.filter_filter] at hfilter
  simp only [Bool.and_self] at hfilter
  refine (hfilter.eq_of_length ?_).symm
  exact ((List.mergeSort_perm xs _).filter _).length_eq.symm

end ByNumber

namespace Tether

/-! ## Counting -/

/-- Tethers, each with how often its tip has occurred before, from a table of what has occurred so
far. -/
def numbered (counts : Std.TreeMap Nat Nat) : List (Tether S) → List (Nat × Tether S)
  | [] => []
  | t :: rest =>
    let count := counts.getD t.tip 0
    (count, t) :: numbered (counts.insert t.tip (count + 1)) rest

/-- Numbers are ranks if the table counts what has been seen. -/
theorem numbered_eq (seen : List (Tether S)) {counts : Std.TreeMap Nat Nat}
    (h : ∀ tip, counts.getD tip 0 = sharing tip seen) (tethers : List (Tether S)) :
    numbered counts tethers =
      tethers.mapIdx fun i t => (sharing t.tip (seen ++ tethers.take i), t) := by
  induction tethers generalizing seen counts with
  | nil => rfl
  | cons t rest ih =>
    have hcounts : ∀ tip, (counts.insert t.tip (counts.getD t.tip 0 + 1)).getD tip 0 =
        sharing tip (seen ++ [t]) := by
      intro tip
      rw [Std.TreeMap.getD_insert, sharing_concat, h, h]
      by_cases htip : t.tip = tip <;> simp [htip]
    rw [numbered, ih (seen ++ [t]) hcounts, List.mapIdx_cons, h]
    simp

theorem numbered_eq_ranked (tethers : List (Tether S)) : numbered ∅ tethers = ranked tethers :=
  numbered_eq [] (fun tip => by simp [sharing]) tethers

/-- The tethers of one number of layers are those of one batch. -/
theorem filter_layered (start k : Nat) (bs : List (List (Tether S))) :
    (layered start bs).filter (·.1 == start + k) = (bs.getD k []).map (start + k, ·) := by
  induction bs generalizing start k with
  | nil => rfl
  | cons batch rest ih =>
    rw [layered, List.filter_append]
    cases k with
    | zero =>
      have hlater : (layered (start + 1) rest).filter (·.1 == start + 0) = [] := by
        rw [List.filter_eq_nil_iff]
        intro x hx
        have hle := le_of_layered hx
        simp only [beq_iff_eq]
        omega
      rw [hlater]
      simp [List.filter_map, Function.comp_def]
    | succ k =>
      have hrest := ih (start + 1) k
      rw [Nat.add_assoc, Nat.add_comm 1 k] at hrest
      rw [hrest]
      simp [List.filter_map, Function.comp_def]

theorem pairwise_layered (start : Nat) (bs : List (List (Tether S))) :
    (layered start bs).Pairwise (·.1 ≤ ·.1) := by
  induction bs generalizing start with
  | nil => exact .nil
  | cons batch rest ih =>
    rw [layered, List.pairwise_append]
    refine ⟨?_, ih (start + 1), fun x hx y hy => ?_⟩
    · rw [List.pairwise_map]
      exact List.pairwise_of_forall fun _ _ => Nat.le_refl start
    · rcases List.mem_map.mp hx with ⟨t, _, rfl⟩
      exact Nat.le_of_succ_le (le_of_layered hy)

theorem filter_ranked (tethers : List (Tether S)) (k : Nat) :
    (ranked tethers).filter (·.1 == k) = (ofRank tethers k).map (k, ·) := by
  have hsame : ∀ x ∈ (ranked tethers).filter (·.1 == k), (k, x.2) = x := by
    intro x hx
    rw [← beq_iff_eq.mp (List.mem_filter.mp hx).2]
  unfold ofRank
  rw [List.map_map]
  exact ((List.map_congr_left hsame).trans (List.map_id _)).symm

/-- Sorted by rank, tethers stand batch after batch. -/
theorem sort_ranked (tethers : List (Tether S)) :
    ByNumber.sort (ranked tethers) = layered 0 (batches tethers) := by
  refine ByNumber.eq_of_filter_eq (ByNumber.pairwise_sort _) (pairwise_layered 0 _) fun k => ?_
  have hlayered := filter_layered 0 k (batches tethers)
  rw [Nat.zero_add] at hlayered
  rw [ByNumber.filter_sort, filter_ranked, hlayered, getD_batches]

/-! ## Cutting -/

/-- Ranges of equal numbers, where `i` entries have gone before: an entry extends the range of its
number, or is the first of a new range if there is none yet. -/
def cut (ranges : List (Nat × Nat)) (i : Nat) : List Nat → List (Nat × Nat)
  | [] => ranges
  | number :: rest =>
    if number < ranges.length then
      cut (ranges.modify number fun range => (range.1, i + 1)) (i + 1) rest
    else cut (ranges ++ [(i, i + 1)]) (i + 1) rest

/-- Entries of one number extend one range. -/
theorem cut_replicate (ranges : List (Nat × Nat)) (start i n : Nat) (rest : List Nat) :
    cut (ranges ++ [(start, i)]) i (List.replicate n ranges.length ++ rest) =
      cut (ranges ++ [(start, i + n)]) (i + n) rest := by
  induction n generalizing i with
  | zero => rfl
  | succ n ih =>
    have hlast : (ranges ++ [(start, i)]).modify ranges.length (fun range => (range.1, i + 1)) =
        ranges ++ [(start, i + 1)] := by
      simp [List.modify_eq_take_drop]
    rw [List.replicate_succ, List.cons_append, cut, if_pos (by simp), hlast, ih, Nat.add_assoc,
      Nat.add_comm 1 n]

/-- Cutting where numbers change comes to the ranges of the batches. -/
theorem cut_layered {bs : List (List (Tether S))} (h : ∀ batch ∈ bs, batch ≠ [])
    (ranges : List (Nat × Nat)) (i : Nat) :
    cut ranges i ((layered ranges.length bs).map (·.1)) =
      ranges ++ TetherBatches.consecutive i (bs.map List.length) := by
  induction bs generalizing ranges i with
  | nil => exact (List.append_nil _).symm
  | cons batch rest ih =>
    rw [List.forall_mem_cons] at h
    have hnumbers : (layered ranges.length (batch :: rest)).map (·.1) =
        List.replicate batch.length ranges.length ++
          (layered (ranges.length + 1) rest).map (·.1) := by
      simp [layered, Function.comp_def]
    obtain ⟨n, hn⟩ := Nat.exists_eq_add_one_of_ne_zero (mt List.length_eq_zero_iff.mp h.1)
    -- the first entry of a batch starts a range, because its number is the next one
    have hrest := ih h.2 (ranges ++ [(i, i + 1 + n)]) (i + 1 + n)
    rw [List.length_append, List.length_singleton] at hrest
    rw [hnumbers, hn, List.replicate_succ, List.cons_append, cut, if_neg (Nat.lt_irrefl _),
      cut_replicate, hrest, List.append_assoc, List.map_cons, TetherBatches.consecutive, hn,
      Nat.add_assoc, Nat.add_comm 1 n]
    rfl

end Tether

namespace TetherBatches

/-! ## Ranges -/

/-- Ranges that are not empty lead from `start` to `stop`, each one starting where the one before it
stops. -/
def Covers : Nat → List (Nat × Nat) → Nat → Prop
  | start, [], stop => start = stop
  | start, range :: rest, stop => range.1 = start ∧ range.1 < range.2 ∧ Covers range.2 rest stop

theorem covers_consecutive {lengths : List Nat} (h : ∀ n ∈ lengths, n ≠ 0) (start : Nat) :
    Covers start (consecutive start lengths) (start + lengths.sum) := by
  induction lengths generalizing start with
  | nil => exact rfl
  | cons n rest ih =>
    rw [List.forall_mem_cons] at h
    have hrest := ih h.2 (start + n)
    rw [Nat.add_assoc] at hrest
    exact ⟨rfl, Nat.lt_add_of_pos_right (Nat.pos_of_ne_zero h.1), hrest⟩

/-- Ranges of the lengths of lists find these lists in all of them together. -/
theorem map_consecutive {α : Type} (before : List α) (lists : List (List α)) :
    (consecutive before.length (lists.map List.length)).map
      (fun range => ((before ++ lists.flatten).drop range.1).take (range.2 - range.1)) = lists := by
  induction lists generalizing before with
  | nil => rfl
  | cons first rest ih =>
    have hrest := ih (before ++ first)
    rw [List.length_append, List.append_assoc] at hrest
    rw [List.map_cons, consecutive, List.map_cons, List.flatten_cons, hrest]
    simp

/-- The tethers in a range. -/
def covered (b : TetherBatches S) (range : Nat × Nat) : List (Tether S) :=
  (b.tethers.drop range.1).take (range.2 - range.1)

/-- A batch is what its range covers. -/
theorem map_covered (b : TetherBatches S) : b.ranges.map b.covered = b.batches :=
  map_consecutive [] b.batches

theorem size_eq_sum (b : TetherBatches S) : b.size = (b.batches.map List.length).sum :=
  List.length_flatten

end TetherBatches

namespace TetherRule

/-! ## Visiting -/

variable [Scalar S]

theorem visit_append (rule : TetherRule S) (masses : Array S) (first second : List (Tether S × S))
    (positions : Array (Vec3 S)) :
    rule.visit masses (first ++ second) positions = (do
      let (multipliers, positions) ← rule.visit masses first positions
      let (others, positions) ← rule.visit masses second positions
      return (multipliers ++ others, positions)) := by
  induction first generalizing positions with
  | nil => simp [visit]
  | cons x rest ih =>
    rcases x with ⟨t, multiplier⟩
    simp [visit, ih]

/-- Visiting batch after batch is visiting one tether after the other. -/
theorem passBy_visit (rule : TetherRule S) (masses : Array S) (batches : List (List (Tether S)))
    (multipliers : List S) (positions : Array (Vec3 S)) :
    passBy (rule.visit masses) batches multipliers positions =
      rule.visit masses (batches.flatten.zip multipliers) positions := by
  induction batches generalizing multipliers positions with
  | nil => rfl
  | cons batch rest ih =>
    rw [List.flatten_cons, Total.zip_append, visit_append, passBy]
    simp only [ih]

/-- A pass over grouped tethers visits one after the other, whatever the schedule. -/
theorem pass_batches [LawfulOrder S] (rule : TetherRule S) (schedule : Schedule) (masses : Array S)
    (tethers : List (Tether S)) (multipliers : List S) (positions : Array (Vec3 S)) :
    rule.pass schedule masses (Tether.batches tethers) multipliers positions =
      rule.visit masses ((Tether.batches tethers).flatten.zip multipliers) positions := by
  rw [pass_eq, ← passBy_visit]
  refine passBy_congr (fun batch hnodup => ?_) (Tether.nodup_tips_of_batches tethers) _ _
  funext positions
  exact visitBatch_eq_visit rule schedule masses hnodup positions

end TetherRule

namespace TetherBatches

/-! ## All groupings -/

variable [Scalar S]

/-- What batches are to the tethers that they group. -/
structure Ranked (b : TetherBatches S) (tethers : List (Tether S)) : Prop where
  /-- No tether is lost and none is added. -/
  perm : b.tethers.Perm tethers
  /-- The ranges lead from the first tether to the last one, and none is empty. -/
  covers : Covers 0 b.ranges b.size
  /-- In each range there is a batch. -/
  covered : b.ranges.map b.covered = b.batches
  /-- A batch holds the tethers of its rank in the order of the input, -/
  rank : ∀ k, b.batches.getD k [] = Tether.ofRank tethers k
  /-- no two of them with one tip. -/
  nodup : ∀ batch ∈ b.batches, (batch.map (·.tip)).Nodup
  /-- No batch is larger than one before it. -/
  sizes : (b.batches.map List.length).Pairwise (· ≥ ·)
  /-- The number of batches is the largest number of tethers that share a tip. -/
  most : (∀ tip, Tether.sharing tip tethers ≤ b.batches.length) ∧
    ∃ tip, Tether.sharing tip tethers = b.batches.length
  /-- Tethers with one tip stand in the order of the input, -/
  order : ∀ tip, b.tethers.filter (·.tip == tip) = tethers.filter (·.tip == tip)
  /-- and are visited as they stand, one after the other. -/
  visits : ∀ (rule : TetherRule S) (schedule : Schedule) (masses : Array S) (multipliers : List S)
    (positions : Array (Vec3 S)),
    rule.pass schedule masses b.batches multipliers positions =
      rule.visit masses (b.tethers.zip multipliers) positions
  /-- Counting and sorting comes to the same tethers, -/
  sorted : b.tethers = (ByNumber.sort (Tether.numbered ∅ tethers)).map (·.2)
  /-- and cutting where the counts change to the same ranges. -/
  cut : b.ranges = Tether.cut [] 0 ((ByNumber.sort (Tether.numbered ∅ tethers)).map (·.1))

/-- All groupings are like this. -/
theorem ofTethers_ranked [LawfulOrder S] (tethers : List (Tether S)) (stiffness : S) :
    (ofTethers tethers stiffness).Ranked tethers := by
  have hne := Tether.ne_nil_of_mem_batches tethers
  constructor
  case perm => exact Tether.flatten_batches_perm tethers
  case covers =>
    have hlengths : ∀ n ∈ (Tether.batches tethers).map List.length, n ≠ 0 := by
      intro n hn
      rcases List.mem_map.mp hn with ⟨batch, hbatch, rfl⟩
      exact mt List.length_eq_zero_iff.mp (hne batch hbatch)
    have hcovers := covers_consecutive hlengths 0
    rw [Nat.zero_add] at hcovers
    rw [size_eq_sum]
    exact hcovers
  case covered => exact map_covered _
  case rank => exact Tether.getD_batches tethers
  case nodup => exact Tether.nodup_tips_of_batches tethers
  case sizes => exact Tether.pairwise_length_batches tethers
  case most => exact ⟨Tether.sharing_le_length tethers, Tether.exists_sharing_eq tethers⟩
  case order => exact Tether.filter_flatten_batches tethers
  case visits =>
    intro rule schedule masses
    exact TetherRule.pass_batches rule schedule masses tethers
  case sorted =>
    rw [Tether.numbered_eq_ranked, Tether.sort_ranked, Tether.map_snd_layered]
    rfl
  case cut =>
    rw [Tether.numbered_eq_ranked, Tether.sort_ranked]
    exact (Tether.cut_layered hne [] 0).symm

/-- Three tethers that share one tip, and two that share another. -/
def crossed : List (Tether Float32) := [⟨0, 1, 1⟩, ⟨0, 2, 1⟩, ⟨3, 1, 1⟩, ⟨4, 1, 1⟩, ⟨3, 2, 1⟩]

/-- They are grouped into three batches. -/
theorem crossed_ranked : (ofTethers crossed 2).ranges = [(0, 2), (2, 4), (4, 5)] ∧
    (ofTethers crossed 2).Ranked crossed :=
  ⟨rfl, ofTethers_ranked crossed 2⟩

end TetherBatches

end TetheredParticles
