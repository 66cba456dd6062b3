import Mathlib.Data.List.GetD
import Mathlib.Data.List.Perm.Basic
import Mathlib.Data.List.Sort
import TetheredParticles.Proofs.Graph.Merged
/-!
# Partitions of undirected graphs

The components of a graph are determined by which points are joined, but for their order, and
merging does not depend on the order: components without common points are never tied, because
their first points differ. So neither the points at which searches begin nor the ends at which
edges are listed leave a trace in a partition.

* `Separated.perm_of_linked` — components are determined but for their order.
* `Partition.mergeInPlace`, `Partition.mergeInPlace_perm` — merging within a list whose order every
  round changes.
* `Partition.compute_undirected` — graphs with the same edges have the same partition, or both have
  none because a point is too large.
-/

namespace TetheredParticles

/-- Lists of neighbors ascend, and so are determined by what they hold. -/
theorem Graph.neighbors_eq {g h : Graph} {a : Nat}
    (hsame : ∀ b, b ∈ g.neighbors a ↔ b ∈ h.neighbors a) : g.neighbors a = h.neighbors a :=
  (g.neighbors_ascending a).eq_of_mem_iff (h.neighbors_ascending a) hsame

/-- At which ends edges are listed makes no difference to the symmetrized graph. -/
theorem Graph.neighbors_symmetrize_ofEdges {points : Points} {edges turned : List (Nat × Nat)}
    (hsame : ∀ a b, (a, b) ∈ edges ∨ (b, a) ∈ edges ↔ (a, b) ∈ turned ∨ (b, a) ∈ turned) (a : Nat) :
    ((ofEdges edges).symmetrize points).neighbors a =
      ((ofEdges turned).symmetrize points).neighbors a := by
  refine neighbors_eq fun b => ?_
  rw [mem_neighbors_symmetrize, mem_neighbors_symmetrize]
  unfold Joined
  rw [mem_neighbors_ofEdges, mem_neighbors_ofEdges, mem_neighbors_ofEdges, mem_neighbors_ofEdges,
    hsame]

namespace Separated

variable {joined : Nat → Nat → Prop} {inside : Nat → Prop} {parts others : List (List Nat)}

/-- Every part has a point, which no other part has. -/
theorem nodup (h : Separated joined inside parts) : parts.Nodup := by
  refine h.disjoint.imp_of_mem fun {a b} ha _ hab heq => ?_
  rcases List.exists_mem_of_ne_nil a (h.nonempty a ha) with ⟨p, hp⟩
  exact hab hp (heq ▸ hp)

/-- Parts whose points are linked are determined, but for their order. -/
theorem perm_of_linked (h : Separated joined inside parts) (hl : Linked joined parts)
    (k : Separated joined inside others) (kl : Linked joined others) : parts.Perm others := by
  have hsub : ∀ {parts others : List (List Nat)}, Separated joined inside parts →
      Linked joined parts → Separated joined inside others → Linked joined others →
      ∀ part ∈ parts, part ∈ others := by
    intro parts others h hl k kl part hpart
    rcases List.exists_mem_of_ne_nil part (h.nonempty part hpart) with ⟨a, ha⟩
    rcases (k.covers a).mpr ((h.covers a).mp ⟨part, hpart, ha⟩) with ⟨other, hother, ha'⟩
    -- both consist of what is linked with one point
    have hmem : ∀ p, p ∈ part ↔ p ∈ other := fun p =>
      ⟨fun hp => k.mem_of_reflTransGen hother ha' (hl part hpart a ha p hp),
        fun hp => h.mem_of_reflTransGen hpart ha (kl other hother a ha' p hp)⟩
    have hsame : part = other :=
      (h.ascending part hpart).eq_of_mem_iff (k.ascending other hother) hmem
    exact hsame ▸ hother
  exact (List.perm_ext_iff_of_nodup h.nodup k.nodup).mpr fun part =>
    ⟨hsub h hl k kl part, hsub k kl h hl part⟩

/-- The first points of parts tell them apart. -/
theorem eq_of_headD (h : Separated joined inside parts) {a b : List Nat} (ha : a ∈ parts)
    (hb : b ∈ parts) (heq : a.headD 0 = b.headD 0) : a = b := by
  have hhead : ∀ part ∈ parts, part.headD 0 ∈ part := by
    intro part hpart
    cases part with
    | nil => exact absurd rfl (h.nonempty _ hpart)
    | cons p rest => exact List.mem_cons_self
  rcases List.mem_iff_getElem?.mp ha with ⟨i, hi⟩
  rcases List.mem_iff_getElem?.mp hb with ⟨j, hj⟩
  obtain rfl : i = j := h.part_unique hi hj (hhead a ha) (heq ▸ hhead b hb)
  exact Option.some.inj (hi.symm.trans hj)

end Separated

namespace Partition

variable {joined : Nat → Nat → Prop} {inside : Nat → Prop} {parts others : List (List Nat)}

/-! ## The order of components -/

theorem smaller_iff {a b : List Nat} : smaller a b = true ↔
    a.length < b.length ∨ a.length = b.length ∧ a.headD 0 ≤ b.headD 0 := by
  simp [smaller]

theorem smaller_trans (a b c : List Nat) (hab : smaller a b = true) (hbc : smaller b c = true) :
    smaller a c = true := by
  rw [smaller_iff] at hab hbc ⊢
  omega

theorem smaller_total (a b : List Nat) : (smaller a b || smaller b a) = true := by
  rw [Bool.or_eq_true, smaller_iff, smaller_iff]
  omega

/-- Separated parts are never tied. -/
theorem smaller_antisymm (h : Separated joined inside parts) {a b : List Nat} (ha : a ∈ parts)
    (hb : b ∈ parts) (hab : smaller a b = true) (hba : smaller b a = true) : a = b := by
  rw [smaller_iff] at hab hba
  exact h.eq_of_headD ha hb (by omega)

/-- Parts have one order by size. -/
theorem mergeSort_smaller_eq (h : Separated joined inside parts) (hp : others.Perm parts)
    (hsorted : others.Pairwise fun a b => smaller a b = true) :
    parts.mergeSort smaller = others := by
  have hperm := List.mergeSort_perm parts smaller
  refine (hperm.trans hp.symm).eq_of_pairwise (fun a b ha hb => ?_)
    (List.pairwise_mergeSort smaller_trans smaller_total parts) hsorted
  exact smaller_antisymm h (hperm.mem_iff.mp ha) (hp.mem_iff.mp hb)

/-- While there are too many components, at least two of them can be merged. -/
theorem exists_two {α : Type} {order : List α} {bound count : Nat} (hbound : 0 < bound)
    (hmany : bound < count) (hlength : order.length = count) :
    ∃ a b rest, order = a :: b :: rest := by
  match order with
  | a :: b :: rest => exact ⟨a, b, rest, rfl⟩
  | [] =>
    rw [List.length_nil] at hlength
    omega
  | [a] =>
    rw [List.length_singleton] at hlength
    omega

/-- One round of merging. -/
theorem mergeSmallest_of_lt {bound : Nat} {a b : List Nat} {rest : List (List Nat)}
    (hmany : bound < parts.length) (hsort : parts.mergeSort smaller = a :: b :: rest) :
    mergeSmallest bound parts = mergeSmallest bound (a.merge b :: rest) := by
  rw [mergeSmallest, if_neg (Nat.not_le.mpr hmany)]
  split
  · rename_i a' b' rest' hsort'
    cases hsort.symm.trans hsort'
    rfl
  · rename_i hshort
    exact absurd hsort (hshort a b rest)

/-- What is left after merging depends on the order of the parts only if nothing is merged. -/
theorem mergeSmallest_perm {bound : Nat} (hbound : 0 < bound) (h : Separated joined inside parts)
    (hp : others.Perm parts) : (mergeSmallest bound others).Perm (mergeSmallest bound parts) := by
  rcases Nat.lt_or_ge bound parts.length with hmany | hfew
  · rcases exists_two hbound hmany (List.length_mergeSort parts) with ⟨a, b, rest, hsort⟩
    have hothers : others.mergeSort smaller = a :: b :: rest := by
      rw [← hsort]
      exact (mergeSort_smaller_eq h ((List.mergeSort_perm _ _).trans hp)
        (List.pairwise_mergeSort smaller_trans smaller_total others)).symm
    rw [mergeSmallest_of_lt hmany hsort, mergeSmallest_of_lt (hp.length_eq ▸ hmany) hothers]
  · rw [mergeSmallest_of_le hfew, mergeSmallest_of_le (hp.length_eq ▸ hfew)]
    exact hp

/-- Numbering forgets the order of the parts. -/
theorem ofComponents_perm (h : Separated joined inside parts) (hp : others.Perm parts) :
    ofComponents others = ofComponents parts := by
  have _ : IsTrans (List Nat) fun a b => a.headD 0 ≤ b.headD 0 := ⟨fun _ _ _ => Nat.le_trans⟩
  have _ : Std.Total fun a b : List Nat => a.headD 0 ≤ b.headD 0 := ⟨fun _ _ => Nat.le_total ..⟩
  have hsort : (others.mergeSort fun a b => decide (a.headD 0 ≤ b.headD 0)) =
      parts.mergeSort fun a b => decide (a.headD 0 ≤ b.headD 0) := by
    have hothers := List.mergeSort_perm others fun a b => decide (a.headD 0 ≤ b.headD 0)
    have hparts := List.mergeSort_perm parts fun a b => decide (a.headD 0 ≤ b.headD 0)
    refine ((hothers.trans hp).trans hparts.symm).eq_of_pairwise (fun a b ha hb hab hba => ?_)
      (List.pairwise_mergeSort' _ others) (List.pairwise_mergeSort' _ parts)
    exact h.eq_of_headD ((hothers.trans hp).mem_iff.mp ha) (hparts.mem_iff.mp hb)
      (Nat.le_antisymm hab hba)
  unfold ofComponents
  rw [hsort]

/-! ## Merging in place -/

/-- The indices of components, the smallest component first. -/
def bySize (components : List (List Nat)) : List Nat :=
  (List.range components.length).mergeSort fun i j =>
    smaller (components.getD i []) (components.getD j [])

/-- The list without the component at an index; the last component moves there. -/
def takeOut (components : List (List Nat)) (i : Nat) : List (List Nat) :=
  (components.set i (components.getLastD [])).dropLast

/-- Of two components the earlier one takes in the later one. -/
def absorb (components : List (List Nat)) (i j : Nat) : List (List Nat) :=
  (takeOut components (max i j)).modify (min i j)
    fun points => (points ++ components.getD (max i j) []).mergeSort

@[simp]
theorem length_absorb (components : List (List Nat)) (i j : Nat) :
    (absorb components i j).length = components.length - 1 := by
  simp [absorb, takeOut]

theorem bySize_perm (components : List (List Nat)) :
    (bySize components).Perm (List.range components.length) := List.mergeSort_perm ..

/-- Merges the two smallest components until at most `bound` are left. Components stay where they
are, but for the later one of the two and the last one. -/
def mergeInPlace (bound : Nat) (components : List (List Nat)) : List (List Nat) :=
  if components.length ≤ bound then components
  else
    match bySize components with
    | i :: j :: _ => mergeInPlace bound (absorb components i j)
    | _ => components
termination_by components.length
decreasing_by
  simp only [length_absorb]
  omega

/-- Read in order of size, the components are sorted. -/
theorem map_bySize {components : List (List Nat)} (h : Separated joined inside components) :
    (bySize components).map (components.getD · []) = components.mergeSort smaller := by
  have hrange : (List.range components.length).map (components.getD · []) = components := by
    refine List.ext_getElem (by simp) fun i hi hi' => ?_
    simp [hi']
  have hperm := (bySize_perm components).map (components.getD · [])
  rw [hrange] at hperm
  refine (mergeSort_smaller_eq h hperm ?_).symm
  rw [List.pairwise_map]
  have htrans : ∀ i j k : Nat, smaller (components.getD i []) (components.getD j []) = true →
      smaller (components.getD j []) (components.getD k []) = true →
      smaller (components.getD i []) (components.getD k []) = true :=
    fun _ _ _ => smaller_trans _ _ _
  exact List.pairwise_mergeSort htrans (fun _ _ => smaller_total _ _) _

theorem takeOut_concat (init : List (List Nat)) (last : List Nat) (i : Nat) :
    takeOut (init ++ [last]) i = if i < init.length then init.set i last else init := by
  unfold takeOut
  rw [List.getLastD_concat]
  split
  · rename_i hlt
    rw [List.set_append_left i last hlt, List.dropLast_concat]
  · rename_i hge
    rw [List.set_append_right i last (Nat.not_lt.mp hge)]
    cases i - init.length <;> exact List.dropLast_concat

/-- Taking a component out loses no other. -/
theorem takeOut_perm {components : List (List Nat)} {i : Nat} (hi : i < components.length) :
    (components.getD i [] :: takeOut components i).Perm components := by
  rcases List.eq_nil_or_concat' components with rfl | ⟨init, last, rfl⟩
  · cases hi
  rw [takeOut_concat]
  split
  · rename_i hlt
    rw [List.getD_append _ _ _ _ hlt, List.getD_eq_getElem _ _ hlt]
    have hset : (init[i] :: init.set i last).Perm (init[i] :: last :: init.eraseIdx i) :=
      (List.set_perm_cons_eraseIdx hlt last).cons _
    have hback : (last :: init[i] :: init.eraseIdx i).Perm (last :: init) :=
      (List.getElem_cons_eraseIdx_perm hlt).cons _
    exact (hset.trans (.swap ..)).trans (hback.trans (List.perm_append_singleton last init).symm)
  · rename_i hge
    rw [List.length_append, List.length_singleton] at hi
    obtain rfl : i = init.length := by omega
    rw [List.getD_append_right _ _ _ _ le_rfl, Nat.sub_self]
    exact (List.perm_append_singleton last init).symm

/-- Components before the one that is taken out stay where they are. -/
theorem getD_takeOut {components : List (List Nat)} {i k : Nat} (hi : i < components.length)
    (hk : k < i) : (takeOut components i)[k]? = some (components.getD k []) := by
  rcases List.eq_nil_or_concat' components with rfl | ⟨init, last, rfl⟩
  · cases hi
  rw [List.length_append, List.length_singleton] at hi
  have hlt : k < init.length := by omega
  rw [takeOut_concat, List.getD_append _ _ _ _ hlt, List.getD_eq_getElem _ _ hlt]
  split
  · rw [List.getElem?_set_ne (Nat.ne_of_gt hk), List.getElem?_eq_getElem hlt]
  · exact List.getElem?_eq_getElem hlt

/-- Sorting the points of two components together merges them. -/
theorem mergeSort_append_eq_merge {a b points : List Nat} (ha : a.Pairwise (· < ·))
    (hb : b.Pairwise (· < ·)) (hp : points.Perm (a ++ b)) : points.mergeSort = a.merge b := by
  have hperm : points.mergeSort.Perm (a.merge b) :=
    (List.mergeSort_perm points _).trans (hp.trans (List.merge_perm_append _).symm)
  exact hperm.eq_of_pairwise' (List.pairwise_mergeSort' (· ≤ ·) points)
    ((ha.imp Nat.le_of_lt).merge (hb.imp Nat.le_of_lt))

/-- Two components are replaced by their common points, and the others stay. -/
theorem absorb_spec {components : List (List Nat)} {i j : Nat} (hi : i < components.length)
    (hj : j < components.length) (hne : i ≠ j) :
    ∃ others, (components.getD i [] :: components.getD j [] :: others).Perm components ∧
      (absorb components i j).Perm
        ((components.getD (min i j) [] ++ components.getD (max i j) []).mergeSort :: others) := by
  have hlast : max i j < components.length := Nat.max_lt.mpr ⟨hi, hj⟩
  have hget := getD_takeOut hlast (by omega : min i j < max i j)
  rcases List.getElem?_eq_some_iff.mp hget with ⟨hlt, hvalue⟩
  refine ⟨(takeOut components (max i j)).eraseIdx (min i j), ?_, ?_⟩
  · -- the later one is taken out first, which leaves the earlier one in its place
    have hout := takeOut_perm hlast
    have herase := (List.getElem_cons_eraseIdx_perm hlt).cons (components.getD (max i j) [])
    rw [hvalue] at herase
    refine .trans ?_ (herase.trans hout)
    rcases Nat.lt_or_gt_of_ne hne with hlt | hgt
    · rw [Nat.max_eq_right hlt.le, Nat.min_eq_left hlt.le]
      exact .swap ..
    · rw [Nat.max_eq_left hgt.le, Nat.min_eq_right hgt.le]
  · unfold absorb
    rw [List.modify_eq_set_getElem?, hget]
    exact List.set_perm_cons_eraseIdx hlt _

/-- One round in place merges the two smallest components and keeps the others. -/
theorem absorb_perm {components rest : List (List Nat)} {a b : List Nat} {i j : Nat}
    {order : List Nat} (h : Separated joined inside components)
    (horder : bySize components = i :: j :: order)
    (hsort : components.mergeSort smaller = a :: b :: rest) :
    (absorb components i j).Perm (a.merge b :: rest) := by
  have hindices := bySize_perm components
  rw [horder] at hindices
  have hi : i < components.length := List.mem_range.mp (hindices.mem_iff.mp (by simp))
  have hj : j < components.length := List.mem_range.mp (hindices.mem_iff.mp (by simp))
  have hne : i ≠ j := by
    rintro rfl
    have hnodup := hindices.nodup_iff.mpr List.nodup_range
    exact (List.nodup_cons.mp hnodup).1 List.mem_cons_self
  -- the first two in order of size are the ones at these indices
  have hmap := map_bySize h
  rw [horder, hsort, List.map_cons, List.map_cons, List.cons.injEq, List.cons.injEq] at hmap
  rcases hmap with ⟨rfl, rfl, _⟩
  have hperm := List.mergeSort_perm components smaller
  rw [hsort] at hperm
  have hascending : ∀ k, k = i ∨ k = j → (components.getD k []).Pairwise (· < ·) := by
    intro k hk
    refine h.ascending _ (hperm.mem_iff.mp ?_)
    rcases hk with rfl | rfl <;> simp
  rcases absorb_spec hi hj hne with ⟨others, hall, hone⟩
  have hothers : others.Perm rest := (hall.trans hperm.symm).cons_inv.cons_inv
  have hmerge : (components.getD (min i j) [] ++ components.getD (max i j) []).mergeSort =
      (components.getD i []).merge (components.getD j []) := by
    refine mergeSort_append_eq_merge (hascending i (.inl rfl)) (hascending j (.inr rfl)) ?_
    rcases Nat.lt_or_gt_of_ne hne with hlt | hgt
    · rw [Nat.max_eq_right hlt.le, Nat.min_eq_left hlt.le]
    · rw [Nat.max_eq_left hgt.le, Nat.min_eq_right hgt.le]
      exact List.perm_append_comm
  rw [hmerge] at hone
  exact hone.trans (hothers.cons _)

/-- Merging in place leaves the same components, in some order. -/
theorem mergeInPlace_perm {bound : Nat} (hbound : 0 < bound) (components : List (List Nat))
    (h : Separated joined inside components) :
    (mergeInPlace bound components).Perm (mergeSmallest bound components) := by
  fun_induction mergeInPlace bound components with
  | case1 components hfew => rw [mergeSmallest_of_le hfew]
  | case2 components hmany i j order horder ih =>
    have hmany := Nat.lt_of_not_le hmany
    rcases exists_two hbound hmany (List.length_mergeSort components) with ⟨a, b, rest, hsort⟩
    have hmerged : Separated joined inside (a.merge b :: rest) :=
      (h.perm (hsort ▸ List.mergeSort_perm components smaller)).merge
    have habsorb := absorb_perm h horder hsort
    rw [mergeSmallest_of_lt hmany hsort]
    exact (ih (hmerged.perm habsorb)).trans (mergeSmallest_perm hbound hmerged habsorb)
  | case3 components hmany hshort =>
    have hlength := (bySize_perm components).length_eq
    rw [List.length_range] at hlength
    rcases exists_two hbound (Nat.lt_of_not_le hmany) hlength with ⟨i, j, order, horder⟩
    exact absurd horder (hshort i j order)

/-! ## Partitions -/

/-- No marks reach as far as a point with the largest index. -/
theorem components_of_large {points : Points} {p : Nat} (hp : p ∈ points)
    (hlarge : BitSet.largestIndex ≤ p) (g : Graph) (kinematic : Nat → Bool) :
    components points g kinematic = .error .lengthOverflow := by
  unfold components
  cases hmax : points.max? with
  | none =>
    rw [Std.TreeSet.max?_eq_none_iff] at hmax
    rw [Std.TreeSet.mem_iff_contains, Std.TreeSet.contains_of_isEmpty hmax] at hp
    cases hp
  | some last =>
    rw [Std.TreeSet.max?_eq_some_iff_mem_and_forall] at hmax
    have hle : p ≤ last := Nat.isLE_compare.mp (hmax.2 p hp)
    have hcovering : BitSet.covering last = .error .lengthOverflow :=
      if_neg (Nat.not_lt.mpr (hlarge.trans hle))
    dsimp only
    rw [hcovering]
    rfl

/-- Without components there is no partition. -/
theorem compute_of_large {points : Points} {p : Nat} (hp : p ∈ points)
    (hlarge : BitSet.largestIndex ≤ p) (g : Graph) (kinematic : Nat → Bool) (maxIslands : Nat) :
    compute points g kinematic maxIslands = .error .lengthOverflow := by
  unfold compute
  rw [components_of_large hp hlarge]
  rfl

/-- Which points are joined decides how a partition ends: in one fault if a point is too large to be
marked, and otherwise in one partition, wherever searches begin, at whichever end edges are listed,
in whatever order components are found, and also when they are merged in place. -/
theorem compute_undirected (points : Points) {g h : Graph}
    (hsame : ∀ a, (g.symmetrize points).neighbors a = (h.symmetrize points).neighbors a)
    (kinematic anchored : Nat → Bool) (maxIslands : Nat) :
    compute points g kinematic maxIslands = compute points h anchored maxIslands ∧
      ((∀ p ∈ points, p < BitSet.largestIndex) →
        ∃ parts p, components points g kinematic = .ok parts ∧
          compute points g kinematic maxIslands = .ok p ∧
          ∀ found : List (List Nat), found.Perm parts →
            p = ofComponents (mergeInPlace (max maxIslands 1) found)) ∧
      ((∃ p ∈ points, BitSet.largestIndex ≤ p) →
        compute points g kinematic maxIslands = .error .lengthOverflow ∧
          compute points h anchored maxIslands = .error .lengthOverflow) := by
  have hjoined : g.Joined points = h.Joined points := by
    funext a b
    rw [← propext (Graph.mem_neighbors_symmetrize (g := g)), hsame,
      propext Graph.mem_neighbors_symmetrize]
  have hbound : 0 < max maxIslands 1 := Nat.lt_of_lt_of_le Nat.one_pos (le_max_right ..)
  by_cases hlarge : ∃ p ∈ points, BitSet.largestIndex ≤ p
  · rcases hlarge with ⟨p, hp, hle⟩
    have hg := compute_of_large hp hle g kinematic maxIslands
    have hh := compute_of_large hp hle h anchored maxIslands
    exact ⟨hg.trans hh.symm, fun hsmall => absurd (hsmall p hp) (Nat.not_lt.mpr hle),
      fun _ => ⟨hg, hh⟩⟩
  · unfold compute
    have hnever : ∀ f, ¬ (f = Fault.lengthOverflow ∧ ∃ p ∈ points, BitSet.largestIndex ≤ p) :=
      fun _ hf => hlarge hf.2
    rcases (components_ends points g kinematic).exists_ok hnever with
      ⟨parts, hparts, hsep, hlinked, _⟩
    rcases (components_ends points h anchored).exists_ok hnever with
      ⟨others, hothers, hsep', hlinked', _⟩
    rw [← hjoined] at hsep' hlinked'
    have hperm : others.Perm parts := hsep'.perm_of_linked hlinked' hsep hlinked
    have hmerged := mergeSmallest_separated (max maxIslands 1) parts hsep
    rw [hparts, hothers]
    refine ⟨?_, fun _ => ⟨parts, _, rfl, rfl, fun found hfound => ?_⟩,
      fun hfault => absurd hfault hlarge⟩
    · have hone := ofComponents_perm hmerged (mergeSmallest_perm hbound hsep hperm)
      exact congrArg Except.ok hone.symm
    · have hinPlace := mergeInPlace_perm hbound found (hsep.perm hfound)
      have hone := ofComponents_perm hmerged
        (hinPlace.trans (mergeSmallest_perm hbound hsep hfound))
      exact hone.symm

/-- Six points of which two are joined: by an edge listed at one end or at the other, and with edges
that do not count. Merging them down to two islands breaks ties twice. -/
theorem pair_undirected :
    (∀ a, ((Graph.ofEdges [(2, 3)]).symmetrize (Graph.firstPoints 6)).neighbors a =
      ((Graph.ofEdges [(3, 2), (2, 3)]).symmetrize (Graph.firstPoints 6)).neighbors a) ∧
    compute (Graph.firstPoints 6) (.ofEdges [(2, 3)]) (· == 5) 2 =
      compute (Graph.firstPoints 6) (.ofEdges [(3, 2), (2, 3)]) (· == 0) 2 := by
  have hsame : ∀ a b : Nat, (a, b) ∈ [(2, 3)] ∨ (b, a) ∈ [(2, 3)] ↔
      (a, b) ∈ [(3, 2), (2, 3)] ∨ (b, a) ∈ [(3, 2), (2, 3)] := by
    intro a b
    simp only [List.mem_cons, List.not_mem_nil, or_false, Prod.mk.injEq]
    tauto
  exact ⟨Graph.neighbors_symmetrize_ofEdges hsame,
    (compute_undirected _ (Graph.neighbors_symmetrize_ofEdges hsame) (· == 5) (· == 0) 2).1⟩

/-- Two points, one of them the largest index. -/
def endPoints : Points := [0, BitSet.largestIndex].foldl (fun points p => points.insert p) ∅

/-- An edge joins the two whichever end lists it, but they have no partition. -/
theorem largest_not_partitioned :
    (∀ a, ((Graph.ofEdges [(0, BitSet.largestIndex)]).symmetrize endPoints).neighbors a =
      ((Graph.ofEdges [(BitSet.largestIndex, 0)]).symmetrize endPoints).neighbors a) ∧
    ¬ ∃ p, compute endPoints (.ofEdges [(0, BitSet.largestIndex)]) (· == 0) 1 = .ok p ∧
      compute endPoints (.ofEdges [(BitSet.largestIndex, 0)]) (· == 0) 1 = .ok p := by
  have hsame : ∀ a b : Nat,
      (a, b) ∈ [(0, BitSet.largestIndex)] ∨ (b, a) ∈ [(0, BitSet.largestIndex)] ↔
        (a, b) ∈ [(BitSet.largestIndex, 0)] ∨ (b, a) ∈ [(BitSet.largestIndex, 0)] := by
    intro a b
    simp only [List.mem_singleton, Prod.mk.injEq]
    tauto
  refine ⟨Graph.neighbors_symmetrize_ofEdges hsame, ?_⟩
  rintro ⟨p, hp, _⟩
  have hlargest : BitSet.largestIndex ∈ endPoints := Maps.mem_foldl_insert.mpr (.inl (by simp))
  rw [compute_of_large hlargest le_rfl] at hp
  cases hp

end Partition

end TetheredParticles
