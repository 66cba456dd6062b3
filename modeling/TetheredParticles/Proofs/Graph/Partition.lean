import Mathlib.Data.List.Nodup
import TetheredParticles.Proofs.Graph.Components
/-!
# Islands of a partition

Merging two parts of separated points leaves them separated, and numbering the parts changes
nothing but their order. A partition therefore has all that searching establishes, and never more
islands than the bound allows.

* `Separated.merge`, `Partition.mergeSmallest_separated` — merging parts.
* `Partition.Valid` — what a partition says about its points.
* `Partition.compute_ends` — every computed partition is valid.
-/

namespace TetheredParticles

namespace Separated

variable {joined : Nat → Nat → Prop} {inside : Nat → Prop} {parts : List (List Nat)}

theorem perm {others : List (List Nat)} (h : Separated joined inside parts)
    (hp : others.Perm parts) : Separated joined inside others where
  nonempty part hpart := h.nonempty part (hp.mem_iff.mp hpart)
  ascending part hpart := h.ascending part (hp.mem_iff.mp hpart)
  disjoint := (hp.pairwise_iff List.disjoint_symm).mpr h.disjoint
  covers p := by
    rw [← h.covers]
    exact exists_congr fun part => and_congr_left fun _ => hp.mem_iff
  closed part hpart := h.closed part (hp.mem_iff.mp hpart)

/-- Two parts may be merged into one. -/
theorem merge {a b : List Nat} {rest : List (List Nat)}
    (h : Separated joined inside (a :: b :: rest)) :
    Separated joined inside (a.merge b :: rest) := by
  obtain ⟨hne, hasc, hdisj, hcov, hclosed⟩ := h
  simp only [List.pairwise_cons, List.forall_mem_cons] at hne hasc hdisj hclosed
  obtain ⟨⟨hab, harest⟩, hbrest, hrest⟩ := hdisj
  refine ⟨?_, ?_, ?_, fun p => ?_, ?_⟩
  · refine List.forall_mem_cons.mpr ⟨fun hnil => hne.1 ?_, hne.2.2⟩
    refine List.eq_nil_iff_forall_not_mem.mpr fun p hp => ?_
    exact List.not_mem_nil (hnil ▸ List.mem_merge_left _ hp)
  · refine List.forall_mem_cons.mpr ⟨?_, hasc.2.2⟩
    have hle : (a.merge b).Pairwise fun x y => decide (x ≤ y) = true :=
      List.pairwise_merge (fun _ _ _ hxy hyz => by simp at hxy hyz ⊢; omega)
        (fun x y => by simp; omega) a b (hasc.1.imp fun hxy => by simp; omega)
        (hasc.2.1.imp fun hxy => by simp; omega)
    -- both parts ascend strictly and share no point, so that the merge does as well
    have hnodup : (a.merge b).Nodup := by
      rw [(List.merge_perm_append _).nodup_iff, List.nodup_append]
      refine ⟨hasc.1.imp Nat.ne_of_lt, hasc.2.1.imp Nat.ne_of_lt, ?_⟩
      rintro x hx y hy rfl
      exact hab hx hy
    exact hle.imp₂ (fun x y hxy hne => Nat.lt_of_le_of_ne (by simpa using hxy) hne) hnodup
  · refine List.pairwise_cons.mpr ⟨fun part hpart p hp hp' => ?_, hrest⟩
    rcases List.mem_merge.mp hp with hp | hp
    · exact harest part hpart hp hp'
    · exact hbrest part hpart hp hp'
  · rw [← hcov]
    simp only [List.exists_mem_cons_iff, List.mem_merge, or_assoc]
  · refine List.forall_mem_cons.mpr ⟨fun x hx y hxy => ?_, hclosed.2.2⟩
    rcases List.mem_merge.mp hx with hx | hx
    · exact List.mem_merge_left _ (hclosed.1 x hx y hxy)
    · exact List.mem_merge_right _ (hclosed.2.1 x hx y hxy)

theorem mem_flatten (h : Separated joined inside parts) {p : Nat} :
    p ∈ parts.flatten ↔ inside p := by
  rw [List.mem_flatten, h.covers]

theorem nodup_flatten (h : Separated joined inside parts) : parts.flatten.Nodup :=
  List.nodup_flatten.mpr
    ⟨fun part hpart => (h.ascending part hpart).imp Nat.ne_of_lt, h.disjoint⟩

/-- The parts that hold a point are one part. -/
theorem part_unique (h : Separated joined inside parts) {i j : Nat} {a b : List Nat} {p : Nat}
    (hi : parts[i]? = some a) (hj : parts[j]? = some b) (ha : p ∈ a) (hb : p ∈ b) : i = j := by
  obtain ⟨hi', rfl⟩ := List.getElem?_eq_some_iff.mp hi
  obtain ⟨hj', rfl⟩ := List.getElem?_eq_some_iff.mp hj
  rcases Nat.lt_trichotomy i j with hlt | heq | hlt
  · exact absurd hb (List.pairwise_iff_getElem.mp h.disjoint i j hi' hj' hlt ha)
  · exact heq
  · exact absurd ha (List.pairwise_iff_getElem.mp h.disjoint j i hj' hi' hlt hb)

end Separated

namespace Partition

variable {joined : Nat → Nat → Prop} {inside : Nat → Prop}

/-! ## Merging -/

theorem mergeSmallest_separated (bound : Nat) (parts : List (List Nat))
    (h : Separated joined inside parts) :
    Separated joined inside (mergeSmallest bound parts) := by
  fun_induction mergeSmallest bound parts with
  | case1 => exact h
  | case2 parts _ a b rest hsort ih => exact ih (h.perm (hsort ▸ List.mergeSort_perm _ _)).merge
  | case3 => exact h

/-- Parts are merged one by one, and only while there are too many. -/
theorem length_mergeSmallest {bound : Nat} (hbound : 0 < bound) (parts : List (List Nat)) :
    (mergeSmallest bound parts).length = min parts.length bound := by
  fun_induction mergeSmallest bound parts with
  | case1 parts hle => exact (min_eq_left hle).symm
  | case2 parts hmany a b rest hsort ih =>
    have hlength : (parts.mergeSort smaller).length = parts.length := List.length_mergeSort parts
    rw [hsort, List.length_cons, List.length_cons] at hlength
    rw [ih, List.length_cons]
    omega
  | case3 parts hmany hshort =>
    -- more parts than the bound are at least two
    have hlength : (parts.mergeSort smaller).length = parts.length := List.length_mergeSort parts
    match hsort : parts.mergeSort smaller with
    | a :: b :: rest => exact absurd hsort (hshort a b rest)
    | [] => simp [hsort] at hlength; omega
    | [a] => simp [hsort] at hlength; omega

/-- Parts within the bound are left alone. -/
theorem mergeSmallest_of_le {bound : Nat} {parts : List (List Nat)} (h : parts.length ≤ bound) :
    mergeSmallest bound parts = parts := by
  unfold mergeSmallest
  exact if_pos h

/-! ## Numbering -/

theorem getElem?_foldl_insert (island : List Nat) (i p : Nat) (index : Std.TreeMap Nat Nat) :
    (island.foldl (fun index p => index.insert p i) index)[p]? =
      if p ∈ island then some i else index[p]? := by
  induction island generalizing index with
  | nil => simp
  | cons q rest ih =>
    rw [List.foldl_cons, ih, Std.TreeMap.getElem?_insert]
    by_cases hrest : p ∈ rest
    · simp [hrest]
    · by_cases hq : q = p
      · simp [hq]
      · simp [hrest, hq, Ne.symm hq]

/-- A point is listed with the number of its island. -/
theorem getElem?_indexed (islands : List (List Nat)) (h : islands.Pairwise List.Disjoint)
    (start p i : Nat) (index : Std.TreeMap Nat Nat) (hp : index[p]? = none) :
    ((islands.zipIdx start).foldl
      (fun index (points, i) => points.foldl (fun index p => index.insert p i) index)
      index)[p]? = some i ↔
      start ≤ i ∧ ∃ island, islands[i - start]? = some island ∧ p ∈ island := by
  -- for the induction, an index that may hold points of earlier parts already
  suffices hgen : ∀ (index : Std.TreeMap Nat Nat), (∀ island ∈ islands, p ∈ island → index[p]? = none) →
      (((islands.zipIdx start).foldl
        (fun index (points, i) => points.foldl (fun index p => index.insert p i) index)
        index)[p]? = some i ↔
        index[p]? = some i ∨
          start ≤ i ∧ ∃ island, islands[i - start]? = some island ∧ p ∈ island) by
    rw [hgen index fun _ _ _ => hp, hp]
    simp
  clear hp index
  induction islands generalizing start with
  | nil => simp
  | cons island rest ih =>
    intro index hindex
    obtain ⟨hisland, hrest⟩ := List.pairwise_cons.mp h
    rw [List.zipIdx_cons, List.foldl_cons, ih hrest (start + 1), getElem?_foldl_insert]
    · by_cases hp : p ∈ island
      -- later parts do not overwrite the entry, as they are disjoint from this one
      · have hno : ¬ ∃ other, rest[i - (start + 1)]? = some other ∧ p ∈ other := by
          rintro ⟨other, hother, hp'⟩
          exact hisland other (List.mem_of_getElem? hother) hp hp'
        rw [if_pos hp, hindex island (List.mem_cons_self ..) hp]
        constructor
        · rintro (heq | ⟨_, h⟩)
          · cases heq
            exact .inr ⟨Nat.le_refl _, island, by simp, hp⟩
          · exact absurd h hno
        · rintro (heq | ⟨hle, other, hother, hp'⟩)
          · cases heq
          · rcases Nat.eq_or_lt_of_le hle with rfl | hlt
            · exact .inl rfl
            · refine absurd ⟨other, ?_, hp'⟩ hno
              rwa [show i - start = (i - (start + 1)) + 1 by omega, List.getElem?_cons_succ]
                at hother
      · rw [if_neg hp]
        refine or_congr_right ⟨?_, ?_⟩
        · rintro ⟨hle, other, hother, hp'⟩
          refine ⟨by omega, other, ?_, hp'⟩
          rwa [show i - start = (i - (start + 1)) + 1 by omega, List.getElem?_cons_succ]
        · rintro ⟨hle, other, hother, hp'⟩
          rcases Nat.eq_or_lt_of_le hle with rfl | hlt
          · simp only [Nat.sub_self, List.getElem?_cons_zero, Option.some.injEq] at hother
            exact absurd (hother ▸ hp') hp
          · refine ⟨hlt, other, ?_, hp'⟩
            rwa [show i - start = (i - (start + 1)) + 1 by omega, List.getElem?_cons_succ]
              at hother
    · intro other hother hp
      rw [getElem?_foldl_insert, if_neg fun hp' => hisland other hother hp' hp]
      exact hindex other (List.mem_cons_of_mem _ hother) hp

/-- The islands separate the points, every point is listed with the island that holds it, and
there are no more islands than the bound allows. -/
structure Valid (joined : Nat → Nat → Prop) (inside : Nat → Prop) (bound : Nat)
    (p : Partition) : Prop where
  separated : Separated joined inside p.islands.toList
  islandOf : ∀ point i,
    p.islandOf? point = some i ↔ ∃ island, p.islands[i]? = some island ∧ point ∈ island
  size_le : p.islands.size ≤ bound

theorem ofComponents_valid {parts : List (List Nat)} {bound : Nat}
    (h : Separated joined inside parts) (hbound : parts.length ≤ bound) :
    Valid joined inside bound (ofComponents parts) := by
  have hsep := h.perm (List.mergeSort_perm parts fun a b => decide (a.headD 0 ≤ b.headD 0))
  refine ⟨by simpa [ofComponents] using hsep, fun point i => ?_, by simpa [ofComponents]⟩
  unfold islandOf? ofComponents
  rw [getElem?_indexed _ hsep.disjoint 0 point i ∅ Std.TreeMap.getElem?_emptyc]
  simp

/-- Less may be required to be joined. -/
theorem Valid.ofJoined {p : Partition} {bound : Nat} {fewer : Nat → Nat → Prop}
    (h : p.Valid joined inside bound) (hfewer : ∀ a b, fewer a b → a = b ∨ joined a b) :
    p.Valid fewer inside bound where
  separated := by
    have hsep := h.separated
    refine ⟨hsep.nonempty, hsep.ascending, hsep.disjoint, hsep.covers, ?_⟩
    intro part hpart a ha b hab
    rcases hfewer a b hab with rfl | hjoined
    · exact ha
    · exact hsep.closed part hpart a ha b hjoined
  islandOf := h.islandOf
  size_le := h.size_le

/-- What is inside may be said in another way. -/
theorem Valid.ofInside {p : Partition} {bound : Nat} {within : Nat → Prop}
    (h : p.Valid joined inside bound) (hiff : ∀ a, inside a ↔ within a) :
    p.Valid joined within bound where
  separated := by
    have hsep := h.separated
    exact ⟨hsep.nonempty, hsep.ascending, hsep.disjoint,
      fun a => (hsep.covers a).trans (hiff a), hsep.closed⟩
  islandOf := h.islandOf
  size_le := h.size_le

/-- Points that are joined lie in one island. -/
theorem Valid.islandOf_joined {p : Partition} {bound a b i : Nat}
    (h : p.Valid joined inside bound) (hab : joined a b) (ha : p.islandOf? a = some i) :
    p.islandOf? b = some i := by
  obtain ⟨island, hi, hmem⟩ := (h.islandOf a i).mp ha
  refine (h.islandOf b i).mpr ⟨island, hi, h.separated.closed island ?_ a hmem b hab⟩
  exact Array.mem_toList_iff.mpr (Array.mem_of_getElem? hi)

/-- Every point lies in an island. -/
theorem Valid.exists_islandOf {p : Partition} {bound a : Nat}
    (h : p.Valid joined inside bound) (ha : inside a) :
    ∃ i island, p.islandOf? a = some i ∧ p.islands[i]? = some island ∧ a ∈ island := by
  obtain ⟨island, hisland, hmem⟩ := (h.separated.covers a).mpr ha
  obtain ⟨i, hi⟩ := List.mem_iff_getElem?.mp hisland
  have hi' : p.islands[i]? = some island := by simpa using hi
  exact ⟨i, island, (h.islandOf a i).mpr ⟨island, hi', hmem⟩, hi', hmem⟩

/-- Partitions are computed, unless a point is too large to be marked. -/
theorem compute_ends (points : Points) (g : Graph) (kinematic : Nat → Bool) (maxIslands : Nat) :
    Ends (compute points g kinematic maxIslands)
      (fun f => f = .lengthOverflow ∧ ∃ p ∈ points, BitSet.largestIndex ≤ p)
      (Valid (g.Joined points) (· ∈ points) (max maxIslands 1)) := by
  unfold compute
  refine (components_ends points g kinematic).bind fun parts h => .pure ?_
  refine ofComponents_valid (mergeSmallest_separated _ _ h.1) ?_
  rw [length_mergeSmallest (by omega)]
  exact Nat.min_le_right ..

end Partition

end TetheredParticles
