import TetheredParticles.Proofs.Handle
import TetheredParticles.Proofs.Handle.Pool
import TetheredParticles.Proofs.Maps
/-!
# Lookups in the registry

The registry is read through two lookups: the proxy of a handle, and the proxies that are attached
to a proxy. Every change of the registry is described by what they give afterwards.

* `Registry.Placed` — proxies are found where their handles say.
* `Registry.get?_place`, `Registry.get?_modify`, `Registry.get?_release` — the proxy of a handle.
* `Registry.Attached` — one proxy is listed with another one.
-/

namespace TetheredParticles

namespace Registry

variable {S : Type} {r : Registry S}

/-! ## Lookups -/

/-- A proxy is listed with another one. -/
def Attached (r : Registry S) (id parent : ProxyId) : Prop := id ∈ r.dependents.getD parent ∅

/-- The proxies of occupied slots have handles of these slots. -/
def Placed (r : Registry S) : Prop :=
  ∀ (i : Nat) (p : Proxy S), r.proxies[i]? = some (some p) → p.id.index = i

theorem get?_eq_some {id : ProxyId} {p : Proxy S} :
    r.get? id = some p ↔ r.proxies[id.index]? = some (some p) ∧ p.id = id := by
  unfold get?
  rw [Option.filter_eq_some_iff, beq_iff_eq, Array.getD_eq_getD_getElem?]
  refine and_congr_left fun _ => ?_
  cases r.proxies[id.index]? with
  | none => simp
  | some entry => simp

theorem id_of_get? {id : ProxyId} {p : Proxy S} (h : r.get? id = some p) : p.id = id :=
  (get?_eq_some.mp h).2

theorem mem_toList (h : r.Placed) {p : Proxy S} : p ∈ r.toList ↔ r.get? p.id = some p := by
  unfold toList
  rw [get?_eq_some, List.mem_filterMap]
  constructor
  · rintro ⟨entry, hentry, heq⟩
    rcases List.getElem_of_mem hentry with ⟨i, hi, hget⟩
    have hi' : r.proxies[i]? = some (some p) := by
      rw [← Array.getElem?_toList, List.getElem?_eq_getElem hi, hget]
      exact congrArg some heq
    rw [h i p hi']
    exact ⟨hi', rfl⟩
  · rintro ⟨hslot, _⟩
    rw [← Array.getElem?_toList] at hslot
    exact ⟨some p, List.mem_of_getElem? hslot, rfl⟩

/-- No two proxies of the registry have the same handle. -/
theorem nodup_ids_toList (h : r.Placed) : (r.toList.map (·.id)).Nodup := by
  unfold toList
  rw [List.map_filterMap, List.Nodup, List.pairwise_filterMap, List.pairwise_iff_getElem]
  intro i j hi hj hlt a ha b hb heq
  have hslot : ∀ k (hk : k < r.proxies.toList.length) (c : ProxyId),
      Option.map (·.id) (id r.proxies.toList[k]) = some c → c.index = k := by
    intro k hk c hc
    rcases Option.map_eq_some_iff.mp hc with ⟨p, hp, rfl⟩
    refine h k p ?_
    rw [← Array.getElem?_toList, List.getElem?_eq_getElem hk]
    exact congrArg some hp
  have hone := hslot i hi a ha
  have htwo := hslot j hj b hb
  rw [heq] at hone
  omega

/-! ## Changes of slots -/

theorem getD_proxies_place (r : Registry S) (proxy : Proxy S) (i : Nat) :
    (r.place proxy).proxies.getD i none =
      if i = proxy.id.index then some proxy else r.proxies.getD i none := by
  unfold place
  simp only [Array.getD_eq_getD_getElem?, Array.getElem?_setIfInBounds, Array.size_append,
    Array.size_replicate, Array.getElem?_append, Array.getElem?_replicate]
  by_cases hi : i = proxy.id.index
  · rw [if_pos hi.symm, if_pos hi, if_pos (by omega), Option.getD_some]
  · rw [if_neg (Ne.symm hi), if_neg hi]
    split
    · rfl
    · rw [Array.getElem?_eq_none (by omega)]
      split
      · rfl
      · rfl

/-- Putting a proxy into a slot that no proxy has. -/
theorem get?_place {proxy : Proxy S}
    (hfree : ∀ id : ProxyId, id.index = proxy.id.index → r.get? id = none) (id : ProxyId) :
    (r.place proxy).get? id = if id = proxy.id then some proxy else r.get? id := by
  unfold get?
  rw [getD_proxies_place]
  by_cases hindex : id.index = proxy.id.index
  · rw [if_pos hindex]
    by_cases hid : id = proxy.id
    · rw [if_pos hid, hid]
      simp [Option.filter]
    · have hnone := hfree id hindex
      unfold get? at hnone
      rw [if_neg hid, hnone]
      simp [Option.filter, Ne.symm hid]
  · have hid : id ≠ proxy.id := fun heq => hindex (congrArg Handle.index heq)
    rw [if_neg hindex, if_neg hid]

/-- Whatever slot a proxy is put into, only the one that had it before is lost. -/
theorem get?_of_get?_place {proxy p : Proxy S} {id : ProxyId}
    (h : (r.place proxy).get? id = some p) : p = proxy ∨ r.get? id = some p := by
  unfold get? at h ⊢
  rw [getD_proxies_place] at h
  split at h
  · left
    exact (Option.some.inj (Option.filter_eq_some_iff.mp h).1).symm
  · exact .inr h

theorem placed_place {proxy : Proxy S} (h : r.Placed) : (r.place proxy).Placed := by
  intro i p hp
  unfold place at hp
  simp only [Array.getElem?_setIfInBounds, Array.size_append, Array.size_replicate,
    Array.getElem?_append, Array.getElem?_replicate] at hp
  split at hp
  case isTrue hi =>
    split at hp
    · cases hp
      exact hi
    · cases hp
  case isFalse =>
    split at hp
    · exact h i p hp
    · split at hp
      · cases hp
      · cases hp

/-- Changing a proxy without its handle. -/
theorem get?_modify {id : ProxyId} {change : Proxy S → Proxy S}
    (hchange : ∀ p, (change p).id = p.id) (a : ProxyId) :
    (r.modify id change).get? a = if a = id then (r.get? a).map change else r.get? a := by
  unfold modify
  split
  case isFalse hnone =>
    -- nothing to change
    have hnone : r.get? id = none := by simpa using hnone
    by_cases ha : a = id
    · rw [if_pos ha, ha, hnone, Option.map_none]
    · rw [if_neg ha]
  case isTrue hsome =>
    rcases Option.isSome_iff_exists.mp hsome with ⟨p, hp⟩
    rcases get?_eq_some.mp hp with ⟨hslot, hpid⟩
    have hget : ∀ i, (r.proxies.modify id.index (·.map change)).getD i none =
        if i = id.index then some (change p) else r.proxies.getD i none := by
      intro i
      simp only [Array.getD_eq_getD_getElem?, Array.getElem?_modify]
      by_cases hi : i = id.index
      · rw [if_pos hi.symm, if_pos hi, hi, hslot]
        rfl
      · rw [if_neg (Ne.symm hi), if_neg hi]
    unfold get?
    dsimp only
    rw [hget]
    by_cases hindex : a.index = id.index
    · rw [if_pos hindex, hindex, Array.getD_eq_getD_getElem?, hslot, Option.getD_some]
      by_cases ha : a = id
      · rw [if_pos ha, ha]
        simp [Option.filter, hchange, hpid]
      · rw [if_neg ha]
        simp [Option.filter, hchange, hpid, Ne.symm ha]
    · have ha : a ≠ id := fun heq => hindex (congrArg Handle.index heq)
      rw [if_neg hindex, if_neg ha]

/-- Whatever relates a proxy to itself and to what it is changed into relates lookups before and
after. -/
theorem rel_modify {id : ProxyId} {change : Proxy S → Proxy S} (hids : ∀ p, (change p).id = p.id)
    {R : Proxy S → Proxy S → Prop} (hrefl : ∀ p, R p p) (hchange : ∀ p, R p (change p))
    (a : ProxyId) : Option.Rel R (r.get? a) ((r.modify id change).get? a) := by
  rw [get?_modify hids]
  cases r.get? a with
  | none =>
    split
    · exact .none
    · exact .none
  | some p =>
    split
    · exact .some (hchange p)
    · exact .some (hrefl p)

/-- What is found after a change has been changed, or the change was to something else. -/
theorem get?_of_get?_modify {id a : ProxyId} {change : Proxy S → Proxy S} {p : Proxy S}
    (h : (r.modify id change).get? a = some p) (hchange : ∀ p, (change p).id = p.id) :
    a = id ∧ (∃ q, r.get? a = some q ∧ p = change q) ∨ a ≠ id ∧ r.get? a = some p := by
  rw [get?_modify hchange] at h
  split at h
  case isTrue ha =>
    rcases Option.map_eq_some_iff.mp h with ⟨q, hq, rfl⟩
    exact .inl ⟨ha, q, hq, rfl⟩
  case isFalse ha => exact .inr ⟨ha, h⟩

theorem placed_modify {id : ProxyId} {change : Proxy S → Proxy S}
    (hchange : ∀ p, (change p).id = p.id) (h : r.Placed) : (r.modify id change).Placed := by
  intro i p hp
  unfold modify at hp
  split at hp
  · dsimp only at hp
    rw [Array.getElem?_modify] at hp
    split at hp
    · rcases Option.map_eq_some_iff.mp hp with ⟨entry, hentry, heq⟩
      rcases Option.map_eq_some_iff.mp heq with ⟨q, rfl, rfl⟩
      rw [hchange]
      exact h i q hentry
    · exact h i p hp
  · exact h i p hp

/-- Changing a proxy changes slots only. -/
theorem modify_rest (r : Registry S) (id : ProxyId) (change : Proxy S → Proxy S) :
    (r.modify id change).proxyPool = r.proxyPool ∧
      (r.modify id change).particlePool = r.particlePool ∧
      (r.modify id change).constraintPool = r.constraintPool ∧
      (r.modify id change).owners = r.owners ∧
      (r.modify id change).dependents = r.dependents := by
  unfold modify
  split
  · exact ⟨rfl, rfl, rfl, rfl, rfl⟩
  · exact ⟨rfl, rfl, rfl, rfl, rfl⟩

/-- Emptying the slot of a proxy. -/
theorem get?_release {proxy : Proxy S} (hp : r.get? proxy.id = some proxy) (a : ProxyId) :
    (r.release proxy).get? a = if a = proxy.id then none else r.get? a := by
  have hslot := (get?_eq_some.mp hp).1
  have hlt := (Array.getElem?_eq_some_iff.mp hslot).1
  have hget : ∀ i, (r.release proxy).proxies.getD i none =
      if i = proxy.id.index then none else r.proxies.getD i none := by
    intro i
    unfold release
    simp only [Array.getD_eq_getD_getElem?, Array.getElem?_setIfInBounds]
    by_cases hi : i = proxy.id.index
    · rw [if_pos hi.symm, if_pos hi, if_pos hlt, Option.getD_some]
    · rw [if_neg (Ne.symm hi), if_neg hi]
  unfold get?
  rw [hget]
  by_cases hindex : a.index = proxy.id.index
  · rw [if_pos hindex, hindex, Array.getD_eq_getD_getElem?, hslot, Option.getD_some]
    by_cases ha : a = proxy.id
    · rw [if_pos ha]
      rfl
    · rw [if_neg ha]
      simp [Option.filter, Ne.symm ha]
  · have ha : a ≠ proxy.id := fun heq => hindex (congrArg Handle.index heq)
    rw [if_neg hindex, if_neg ha]

/-- Whatever slot is emptied, no other proxy comes up. -/
theorem get?_of_get?_release {proxy p : Proxy S} {id : ProxyId}
    (h : (r.release proxy).get? id = some p) : r.get? id = some p := by
  unfold get? release at h
  unfold get?
  simp only [Array.getD_eq_getD_getElem?, Array.getElem?_setIfInBounds] at h ⊢
  split at h
  · split at h
    · cases h
    · cases h
  · exact h

theorem placed_release {proxy : Proxy S} (h : r.Placed) : (r.release proxy).Placed := by
  intro i p hp
  unfold release at hp
  dsimp only at hp
  rw [Array.getElem?_setIfInBounds] at hp
  split at hp
  · split at hp
    · cases hp
    · cases hp
  · exact h i p hp

/-! ## Changes of lists -/

theorem mem_getD_insert {d : Std.TreeMap ProxyId (Std.TreeSet ProxyId)} {parent id a b : ProxyId} :
    a ∈ (d.insert parent ((d.getD parent ∅).insert id)).getD b ∅ ↔
      a ∈ d.getD b ∅ ∨ a = id ∧ b = parent := by
  rw [Std.TreeMap.getD_insert]
  by_cases hb : b = parent
  · subst hb
    rw [if_pos Std.ReflCmp.compare_self, Std.TreeSet.mem_insert, Std.compare_eq_iff_eq]
    constructor
    · rintro (h | h)
      · exact .inr ⟨h.symm, rfl⟩
      · exact .inl h
    · rintro (h | ⟨h, _⟩)
      · exact .inr h
      · exact .inl h.symm
  · rw [if_neg fun heq => hb (Std.compare_eq_iff_eq.mp heq).symm]
    exact (or_iff_left fun h => hb h.2).symm

theorem mem_getD_modify_erase {d : Std.TreeMap ProxyId (Std.TreeSet ProxyId)}
    {parent id a b : ProxyId} :
    a ∈ (d.modify parent (·.erase id)).getD b ∅ ↔ a ∈ d.getD b ∅ ∧ ¬ (a = id ∧ b = parent) := by
  rw [Std.TreeMap.getD_modify]
  by_cases hb : b = parent
  · subst hb
    rw [if_pos Std.ReflCmp.compare_self, Std.TreeMap.getD_eq_getD_getElem?]
    cases d[b]? with
    | none => simp [Std.TreeSet.not_mem_emptyc]
    | some s =>
      rw [Option.map_some, Option.getD_some, Option.getD_some, Std.TreeSet.mem_erase, ne_eq,
        Std.compare_eq_iff_eq]
      simp only [and_true]
      rw [and_comm, eq_comm]
  · rw [if_neg fun heq => hb (Std.compare_eq_iff_eq.mp heq).symm]
    exact (and_iff_left fun h => hb h.2).symm

/-- A proxy becomes attached to its parents. -/
theorem attached_attach {id : ProxyId} {parents : List ProxyId} {a b : ProxyId} :
    (r.attach id parents).Attached a b ↔ r.Attached a b ∨ a = id ∧ b ∈ parents := by
  unfold Attached attach
  dsimp only
  generalize r.dependents = d
  induction parents generalizing d with
  | nil => simp
  | cons parent rest ih =>
    rw [List.foldl_cons, ih, mem_getD_insert, List.mem_cons, or_assoc, and_or_left]

/-- A proxy is no longer attached to its parents. -/
theorem mem_foldl_erase {d : Std.TreeMap ProxyId (Std.TreeSet ProxyId)} {id : ProxyId}
    {parents : List ProxyId} {a b : ProxyId} :
    a ∈ (parents.foldl (fun d parent => d.modify parent (·.erase id)) d).getD b ∅ ↔
      a ∈ d.getD b ∅ ∧ ¬ (a = id ∧ b ∈ parents) := by
  induction parents generalizing d with
  | nil => simp
  | cons parent rest ih =>
    rw [List.foldl_cons, ih, mem_getD_modify_erase, List.mem_cons, and_assoc, and_or_left, not_or]

theorem mem_getD_erase {d : Std.TreeMap ProxyId (Std.TreeSet ProxyId)} {id a b : ProxyId} :
    a ∈ (d.erase id).getD b ∅ ↔ a ∈ d.getD b ∅ ∧ b ≠ id := by
  rw [Std.TreeMap.getD_erase]
  by_cases hb : b = id
  · subst hb
    rw [if_pos Std.ReflCmp.compare_self]
    simp [Std.TreeSet.not_mem_emptyc]
  · rw [if_neg fun heq => hb (Std.compare_eq_iff_eq.mp heq).symm]
    exact (and_iff_left hb).symm

end Registry

end TetheredParticles
