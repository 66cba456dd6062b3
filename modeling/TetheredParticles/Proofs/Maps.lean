import Mathlib.Data.List.Forall2
import Mathlib.Data.List.Nodup
import Std.Data.TreeMap
import Std.Data.TreeSet
/-!
# Finite maps as lists

A map is read through lookups. The list of its entries is determined by them, so that maps built in
different ways can be compared entry by entry.

* `toList_eq_of_lookups` — equal lookups give equal lists.
* `value_of_mem` — entries hold what lookups give.
* `toList_insert_existing` — replacing the value of a key keeps the place of its entry.
-/

namespace TetheredParticles.Maps

variable {K V : Type} [Ord K] [Std.TransOrd K] [Std.LawfulEqOrd K]

/-- Every entry has a key of its own. -/
theorem pairwise_toList (m : Std.TreeMap K V) : m.toList.Pairwise fun x y => x.1 ≠ y.1 := by
  refine m.distinct_keys_toList.imp ?_
  intro a b hne heq
  refine hne ?_
  rw [heq]
  exact Std.ReflCmp.compare_self

theorem nodup_toList (m : Std.TreeMap K V) : m.toList.Nodup :=
  (pairwise_toList m).imp fun hne heq => hne (congrArg Prod.fst heq)

/-- Equal lookups give equal lists of entries. -/
theorem toList_eq_of_lookups {m n : Std.TreeMap K V} (h : ∀ k : K, m[k]? = n[k]?) :
    m.toList = n.toList := by
  have hperm : m.toList.Perm n.toList := by
    refine (List.perm_ext_iff_of_nodup (nodup_toList m) (nodup_toList n)).mpr ?_
    rintro ⟨k, v⟩
    rw [Std.TreeMap.mem_toList_iff_getElem?_eq_some, Std.TreeMap.mem_toList_iff_getElem?_eq_some, h]
  exact (Std.TreeMap.Equiv.of_toList_perm hperm).toList_eq

/-- Maps that correspond key by key have corresponding lists of entries. -/
theorem forall₂_toList {W : Type} {R : V → W → Prop} {m : Std.TreeMap K V} {n : Std.TreeMap K W}
    (h : ∀ k : K, Option.Rel R m[k]? n[k]?) :
    List.Forall₂ (fun x y => x.1 = y.1 ∧ R x.2 y.2) m.toList n.toList := by
  -- both have the same keys
  have hkeys : m.toList.map (·.1) = n.toList.map (·.1) := by
    have hunit : (m.map fun _ _ => ()).toList = (n.map fun _ _ => ()).toList := by
      refine toList_eq_of_lookups ?_
      intro k
      have hrel := h k
      rw [Std.TreeMap.getElem?_map, Std.TreeMap.getElem?_map]
      generalize m[k]? = a at hrel
      generalize n[k]? = b at hrel
      cases hrel with
      | none => rfl
      | some _ => rfl
    rw [Std.TreeMap.toList_map, Std.TreeMap.toList_map] at hunit
    have hnames := congrArg (List.map (·.1)) hunit
    rw [List.map_map, List.map_map] at hnames
    exact hnames
  have hvalues : ∀ x ∈ m.toList, ∀ y ∈ n.toList, x.1 = y.1 → R x.2 y.2 := by
    rintro ⟨k, a⟩ hx ⟨l, b⟩ hy heq
    have ha := Std.TreeMap.mem_toList_iff_getElem?_eq_some.mp hx
    have hb := Std.TreeMap.mem_toList_iff_getElem?_eq_some.mp hy
    have hrel := h k
    rw [ha, show k = l from heq, hb] at hrel
    cases hrel with
    | some hab => exact hab
  generalize m.toList = xs at hkeys hvalues
  generalize n.toList = ys at hkeys hvalues
  induction xs generalizing ys with
  | nil =>
    cases ys with
    | nil => exact .nil
    | cons y ys => cases hkeys
  | cons x xs ih =>
    cases ys with
    | nil => cases hkeys
    | cons y ys =>
      rw [List.map_cons, List.map_cons, List.cons.injEq] at hkeys
      refine .cons ⟨hkeys.1, hvalues x List.mem_cons_self y List.mem_cons_self hkeys.1⟩ ?_
      exact ih ys hkeys.2 fun a ha b hb =>
        hvalues a (List.mem_cons_of_mem x ha) b (List.mem_cons_of_mem y hb)

theorem getElem?_insert [DecidableEq K] {m : Std.TreeMap K V} {k a : K} {v : V} :
    (m.insert k v)[a]? = if a = k then some v else m[a]? := by
  rw [Std.TreeMap.getElem?_insert]
  by_cases h : a = k
  · rw [if_pos h, if_pos (h ▸ Std.ReflCmp.compare_self)]
  · rw [if_neg h, if_neg fun heq => h (Std.LawfulEqCmp.eq_of_compare heq).symm]

theorem contains_insert [DecidableEq K] {m : Std.TreeMap K V} {k a : K} {v : V} :
    (m.insert k v).contains a = (decide (a = k) || m.contains a) := by
  rw [Std.TreeMap.contains_eq_isSome_getElem?, Std.TreeMap.contains_eq_isSome_getElem?,
    getElem?_insert]
  by_cases h : a = k
  · rw [if_pos h, decide_eq_true h]
    rfl
  · rw [if_neg h, decide_eq_false h]
    rfl

theorem getElem?_erase [DecidableEq K] {m : Std.TreeMap K V} {k a : K} :
    (m.erase k)[a]? = if a = k then none else m[a]? := by
  rw [Std.TreeMap.getElem?_erase]
  by_cases h : a = k
  · rw [if_pos h, if_pos (h ▸ Std.ReflCmp.compare_self)]
  · rw [if_neg h, if_neg fun heq => h (Std.LawfulEqCmp.eq_of_compare heq).symm]

/-- Adding the elements of a list to a set. -/
theorem mem_foldl_insert {keys : List K} {found : Std.TreeSet K} {a : K} :
    a ∈ keys.foldl (fun s k => s.insert k) found ↔ a ∈ keys ∨ a ∈ found := by
  induction keys generalizing found with
  | nil => exact (or_iff_right List.not_mem_nil).symm
  | cons k rest ih =>
    rw [List.foldl_cons, ih, Std.TreeSet.mem_insert, Std.compare_eq_iff_eq, List.mem_cons,
      eq_comm (a := k), or_left_comm, or_assoc]

/-- Entries without a key do not change what is found under it. -/
theorem getElem?_foldl_insert_of_not_mem [DecidableEq K] {entries : List (K × V)}
    {m : Std.TreeMap K V} {k : K} (h : ∀ v, (k, v) ∉ entries) :
    (entries.foldl (fun m x => m.insert x.1 x.2) m)[k]? = m[k]? := by
  induction entries generalizing m with
  | nil => rfl
  | cons x rest ih =>
    rw [List.foldl_cons, ih fun v hv => h v (List.mem_cons_of_mem x hv), getElem?_insert, if_neg]
    rintro rfl
    exact h x.2 List.mem_cons_self

/-- Entries of which all with a key have one value put this value under the key. -/
theorem getElem?_foldl_insert_of_mem [DecidableEq K] {entries : List (K × V)}
    {m : Std.TreeMap K V} {k : K} {v : V} (hmem : (k, v) ∈ entries)
    (h : ∀ u, (k, u) ∈ entries → u = v) :
    (entries.foldl (fun m x => m.insert x.1 x.2) m)[k]? = some v := by
  induction entries generalizing m with
  | nil => cases hmem
  | cons x rest ih =>
    rw [List.foldl_cons]
    by_cases hrest : (k, v) ∈ rest
    · exact ih hrest fun u hu => h u (List.mem_cons_of_mem x hu)
    · -- the last entry with the key is the first one of the list
      have hx : (k, v) = x := (List.mem_cons.mp hmem).resolve_right hrest
      rw [getElem?_foldl_insert_of_not_mem, ← hx, getElem?_insert, if_pos rfl]
      intro u hu
      rw [h u (List.mem_cons_of_mem x hu)] at hu
      exact hrest hu

/-- The entry of a key holds the value that lookups give. -/
theorem value_of_mem {m : Std.TreeMap K V} {k : K} {v : V} {x : K × V} (hx : x ∈ m.toList)
    (hk : x.1 = k) (h : m[k]? = some v) : x.2 = v := by
  obtain ⟨a, b⟩ := x
  have hb := Std.TreeMap.mem_toList_iff_getElem?_eq_some.mp hx
  rw [← hk, hb] at h
  exact Option.some.inj h

/-- Replacing the value of a key keeps the place of its entry. -/
theorem toList_insert_existing [DecidableEq K] {m : Std.TreeMap K V} {k : K} {v w : V}
    (h : m[k]? = some v) :
    (m.insert k w).toList = m.toList.map fun x => (x.1, if x.1 = k then w else x.2) := by
  have hmap : (m.insert k w).toList = (m.map fun a x => if a = k then w else x).toList := by
    refine toList_eq_of_lookups fun a => ?_
    rw [getElem?_insert, Std.TreeMap.getElem?_map]
    by_cases ha : a = k
    · rw [ha, h]
      simp
    · simp [ha]
  rw [hmap, Std.TreeMap.toList_map]

/-! ## Related lookups -/

section Related

variable {A B : Type} {R : A → B → Prop} {a : Option A} {b : Option B}

theorem exists_before (h : Option.Rel R a b) {y : B} (hb : b = some y) : ∃ x, a = some x ∧ R x y := by
  subst hb
  cases h with
  | some hxy => exact ⟨_, rfl, hxy⟩

theorem exists_after (h : Option.Rel R a b) {x : A} (ha : a = some x) : ∃ y, b = some y ∧ R x y := by
  subst ha
  cases h with
  | some hxy => exact ⟨_, rfl, hxy⟩

theorem rel_imp {Q : A → B → Prop} (h : Option.Rel R a b) (hRQ : ∀ x y, R x y → Q x y) :
    Option.Rel Q a b := by
  cases h with
  | none => exact .none
  | some hxy => exact .some (hRQ _ _ hxy)

end Related

end TetheredParticles.Maps
