import Mathlib.Data.List.Nodup
import Mathlib.Data.List.Perm.Basic
import TetheredParticles.Proofs.Handle
import TetheredParticles.Registry
/-!
# What a pool has given out

A pool never gives out a handle whose slot is in use, and taking a handle back takes away that one
handle only.

* `HandlePool.Sound` — free slots are exactly the slots that are not in use.
* `HandlePool.alloc_spec`, `HandlePool.allocMany_spec` — what is given out.
* `HandlePool.free_spec` — what is taken back.
-/

namespace TetheredParticles

namespace HandlePool

variable {kind : HandleKind} {pool : HandlePool kind}

/-- Whether a slot is in use. -/
def inUse (pool : HandlePool kind) (slot : Nat) : Bool := pool.alive.getD slot false

/-- Every slot has a generation, and it is free exactly if it is not in use. -/
structure Sound (pool : HandlePool kind) : Prop where
  sizes : pool.alive.size = pool.generations.size
  free : ∀ slot, slot ∈ pool.freeSlots ↔ slot < pool.generations.size ∧ pool.inUse slot = false
  nodup : pool.freeSlots.Nodup

theorem sound_empty : (empty : HandlePool kind).Sound := by
  constructor
  · rfl
  · intro slot
    simp [empty]
  · exact List.nodup_nil

theorem contains_iff {h : Handle kind} : pool.contains h = true ↔
    pool.inUse h.index = true ∧ pool.generations.getD h.index 0 = h.generation := by
  unfold contains inUse
  rw [Bool.and_eq_true, beq_iff_eq]

/-- There is only one handle for a slot in use. -/
theorem eq_of_contains {a b : Handle kind} (ha : pool.contains a = true)
    (hb : pool.contains b = true) (hindex : a.index = b.index) : a = b := by
  refine Handle.eq_of_parts hindex ?_
  rw [← (contains_iff.mp ha).2, ← (contains_iff.mp hb).2, hindex]

theorem lt_of_inUse (h : pool.Sound) {slot : Nat} (hs : pool.inUse slot = true) :
    slot < pool.generations.size := by
  rw [← h.sizes]
  by_contra hge
  unfold inUse at hs
  simp [Array.getD, hge] at hs

/-! ## Giving out -/

/-- A free slot is given out, or a new one if none is free. -/
theorem alloc_cases (pool : HandlePool kind) :
    (pool.freeSlots = pool.alloc.1.index :: pool.alloc.2.freeSlots ∧
        pool.alloc.2.slotCount = pool.slotCount) ∨
      (pool.freeSlots = [] ∧ pool.alloc.2.freeSlots = [] ∧ pool.alloc.1.index = pool.slotCount ∧
        pool.alloc.2.slotCount = pool.slotCount + 1) := by
  unfold alloc
  split
  case h_1 hfree => exact .inl ⟨hfree, rfl⟩
  case h_2 hfree => exact .inr ⟨hfree, hfree, rfl, Array.size_push ..⟩

/-- A handle is given out with the generation of its slot, and generations stay. -/
theorem generations_alloc (pool : HandlePool kind) :
    pool.alloc.1.generation = pool.generations.getD pool.alloc.1.index 0 ∧
      ∀ slot, pool.alloc.2.generations.getD slot 0 = pool.generations.getD slot 0 := by
  unfold alloc
  split
  case h_1 => exact ⟨rfl, fun _ => rfl⟩
  case h_2 =>
    refine ⟨by simp, fun slot => ?_⟩
    simp only [Array.getD_eq_getD_getElem?, Array.getElem?_push]
    split
    case isTrue hslot =>
      rw [hslot, Array.getElem?_eq_none (Nat.le_refl _)]
      rfl
    case isFalse => rfl

theorem inUse_index_alloc (h : pool.Sound) : pool.inUse pool.alloc.1.index = false := by
  rcases alloc_cases pool with ⟨hfree, _⟩ | ⟨_, _, hindex, _⟩
  · refine ((h.free _).mp ?_).2
    rw [hfree]
    exact List.mem_cons_self
  · rw [← Bool.not_eq_true]
    intro hused
    exact Nat.lt_irrefl _ (hindex ▸ lt_of_inUse h hused)

/-- The slot of the handle that is given out is in use from now on. -/
theorem inUse_alloc (h : pool.Sound) (slot : Nat) :
    pool.alloc.2.inUse slot = if slot = pool.alloc.1.index then true else pool.inUse slot := by
  have hunused := inUse_index_alloc h
  unfold alloc at hunused ⊢
  split
  case h_1 lowest rest hfree =>
    have hlt : lowest < pool.alive.size := by
      rw [h.sizes]
      exact ((h.free lowest).mp (hfree ▸ List.mem_cons_self)).1
    unfold inUse
    simp only [Array.getD_eq_getD_getElem?, Array.getElem?_setIfInBounds]
    by_cases hslot : lowest = slot
    · subst hslot
      simp [hlt]
    · rw [if_neg hslot, if_neg (Ne.symm hslot)]
  case h_2 =>
    unfold inUse
    rw [← h.sizes]
    simp only [Array.getD_eq_getD_getElem?, Array.getElem?_push]
    split
    · rfl
    · rfl

theorem sound_alloc (h : pool.Sound) : pool.alloc.2.Sound := by
  have hused := inUse_alloc h
  constructor
  case sizes =>
    unfold alloc
    split
    · exact (Array.size_setIfInBounds ..).trans h.sizes
    · show (pool.alive.push true).size = (pool.generations.push 0).size
      rw [Array.size_push, Array.size_push, h.sizes]
  case free =>
    intro slot
    have hslot := h.free slot
    rw [hused]
    rcases alloc_cases pool with ⟨hfree, hcount⟩ | ⟨hfree, hnone, hindex, hcount⟩
    · -- the first of the free slots is no longer one
      have hnodup := h.nodup
      rw [hfree, List.nodup_cons] at hnodup
      rw [hfree, List.mem_cons] at hslot
      unfold slotCount at hcount
      rw [hcount]
      by_cases heq : slot = pool.alloc.1.index
      · subst heq
        simp [hnodup.1]
      · rw [if_neg heq, ← hslot, or_iff_right heq]
    · unfold slotCount at hcount hindex
      rw [hfree] at hslot
      rw [hnone, hcount, hindex]
      by_cases heq : slot = pool.generations.size
      · simp [heq]
      · rw [if_neg heq, hslot, Nat.lt_succ_iff_lt_or_eq, or_iff_left heq]
  case nodup =>
    rcases alloc_cases pool with ⟨hfree, _⟩ | ⟨_, hnone, _⟩
    · have hnodup := h.nodup
      rw [hfree] at hnodup
      exact hnodup.of_cons
    · rw [hnone]
      exact List.nodup_nil

theorem contains_alloc (h : pool.Sound) (a : Handle kind) :
    pool.alloc.2.contains a = true ↔ a = pool.alloc.1 ∨ pool.contains a = true := by
  rcases generations_alloc pool with ⟨hgeneration, hgenerations⟩
  rw [contains_iff, contains_iff, inUse_alloc h, hgenerations]
  by_cases hindex : a.index = pool.alloc.1.index
  · -- the slot had no handle before, and has one of this generation now
    rw [if_pos hindex, hindex, ← hgeneration, inUse_index_alloc h]
    constructor
    · rintro ⟨_, heq⟩
      exact .inl (Handle.eq_of_parts hindex heq.symm)
    · rintro (rfl | ⟨hno, _⟩)
      · exact ⟨rfl, rfl⟩
      · cases hno
  · rw [if_neg hindex]
    refine (or_iff_right ?_).symm
    rintro rfl
    exact hindex rfl

/-- The slot of the handle that is given out was not in use, and nothing else changes. -/
theorem alloc_spec (h : pool.Sound) :
    pool.alloc.2.Sound ∧ pool.inUse pool.alloc.1.index = false ∧
      (∀ a, pool.alloc.2.contains a = true ↔ a = pool.alloc.1 ∨ pool.contains a = true) ∧
      pool.alloc.1.index < pool.generations.size + 1 ∧
      pool.alloc.2.generations.size ≤ pool.generations.size + 1 := by
  refine ⟨sound_alloc h, inUse_index_alloc h, contains_alloc h, ?_⟩
  rcases alloc_cases pool with ⟨hfree, hcount⟩ | ⟨_, _, hindex, hcount⟩
  · have hlt := ((h.free _).mp (hfree ▸ List.mem_cons_self)).1
    exact ⟨Nat.lt_succ_of_lt hlt, Nat.le_succ_of_le (Nat.le_of_eq hcount)⟩
  · exact ⟨hindex ▸ Nat.lt_succ_self _, Nat.le_of_eq hcount⟩

/-- Several handles are given out for different slots, none of which was in use. -/
theorem allocMany_spec (count : Nat) (h : pool.Sound) :
    (pool.allocMany count).2.Sound ∧ (pool.allocMany count).1.length = count ∧
      ((pool.allocMany count).1.map (·.index)).Nodup ∧
      (∀ a ∈ (pool.allocMany count).1, pool.inUse a.index = false) ∧
      ∀ a, (pool.allocMany count).2.contains a = true ↔
        a ∈ (pool.allocMany count).1 ∨ pool.contains a = true := by
  induction count generalizing pool with
  | zero =>
    unfold allocMany
    refine ⟨h, rfl, List.nodup_nil, ?_, ?_⟩
    · intro a ha
      exact absurd ha List.not_mem_nil
    · intro a
      simp
  | succ count ih =>
    rcases alloc_spec h with ⟨hsound, hfree, hcontains, _⟩
    rcases ih hsound with ⟨hrest, hlength, hnodup, hunused, hmany⟩
    have hused : pool.alloc.2.inUse pool.alloc.1.index = true :=
      (contains_iff.mp ((hcontains _).mpr (.inl rfl))).1
    unfold allocMany
    refine ⟨hrest, congrArg (· + 1) hlength, ?_, ?_, ?_⟩
    · -- the slot of the first handle is in use when the others are given out
      rw [List.map_cons, List.nodup_cons]
      refine ⟨?_, hnodup⟩
      intro hmem
      rcases List.mem_map.mp hmem with ⟨a, ha, hindex⟩
      have := hunused a ha
      rw [hindex, hused] at this
      cases this
    · intro a ha
      rcases List.mem_cons.mp ha with rfl | ha
      · exact hfree
      · have hdead := hunused a ha
        rw [← Bool.not_eq_true] at hdead ⊢
        intro halive
        -- a slot that is in use before the first handle is given out stays so
        have hold : pool.contains ⟨a.index, pool.generations.getD a.index 0⟩ = true :=
          contains_iff.mpr ⟨halive, rfl⟩
        exact hdead (contains_iff.mp ((hcontains _).mpr (.inr hold))).1
    · intro a
      dsimp only
      rw [hmany, hcontains, List.mem_cons]
      constructor
      · rintro (ha | rfl | ha)
        · exact .inl (.inr ha)
        · exact .inl (.inl rfl)
        · exact .inr ha
      · rintro ((rfl | ha) | ha)
        · exact .inr (.inl rfl)
        · exact .inl ha
        · exact .inr (.inr ha)

/-! ## Taking back -/

@[simp]
theorem mem_insertSlot {slot i : Nat} {slots : List Nat} :
    i ∈ insertSlot slot slots ↔ i = slot ∨ i ∈ slots := by
  induction slots with
  | nil => exact List.mem_cons
  | cons s rest ih =>
    unfold insertSlot
    split
    · exact List.mem_cons
    · rw [List.mem_cons, ih, List.mem_cons]
      exact or_left_comm

theorem nodup_insertSlot {slot : Nat} {slots : List Nat} (h : slots.Nodup) (hs : slot ∉ slots) :
    (insertSlot slot slots).Nodup := by
  induction slots with
  | nil => exact List.nodup_singleton slot
  | cons s rest ih =>
    have hcons := List.nodup_cons.mp h
    rw [List.mem_cons, not_or] at hs
    unfold insertSlot
    split
    · refine List.nodup_cons.mpr ⟨?_, h⟩
      rw [List.mem_cons, not_or]
      exact hs
    · refine List.nodup_cons.mpr ⟨?_, ih hcons.2 hs.2⟩
      rw [mem_insertSlot, not_or]
      exact ⟨Ne.symm hs.1, hcons.1⟩

theorem free_of_not_contains {h : Handle kind} (hno : pool.contains h = false) :
    pool.free h = pool := by
  unfold free free?
  rw [hno]
  rfl

/-- A handle that is taken back frees its slot for the next generation. -/
theorem free_of_contains (h : pool.Sound) {a : Handle kind} (hyes : pool.contains a = true) :
    (pool.free a).freeSlots = insertSlot a.index pool.freeSlots ∧
      (pool.free a).slotCount = pool.slotCount ∧
      ∀ slot, (pool.free a).generations.getD slot 0 =
        if slot = a.index then pool.generations.getD slot 0 + 1
        else pool.generations.getD slot 0 := by
  have hlt := lt_of_inUse h (contains_iff.mp hyes).1
  unfold free free?
  rw [hyes]
  refine ⟨rfl, Array.size_modify .., fun slot => ?_⟩
  show (pool.generations.modify a.index (· + 1)).getD slot 0 = _
  simp only [Array.getD_eq_getD_getElem?, Array.getElem?_modify]
  by_cases hslot : slot = a.index
  · subst hslot
    rw [if_pos rfl, if_pos rfl, Array.getElem?_eq_getElem hlt]
    rfl
  · rw [if_neg (Ne.symm hslot), if_neg hslot]

theorem inUse_free (h : pool.Sound) {a : Handle kind} (ha : pool.contains a = true) (slot : Nat) :
    (pool.free a).inUse slot = if slot = a.index then false else pool.inUse slot := by
  have hlt : a.index < pool.alive.size := h.sizes ▸ lt_of_inUse h (contains_iff.mp ha).1
  unfold free free?
  rw [ha]
  show (pool.alive.setIfInBounds a.index false).getD slot false = _
  unfold inUse
  simp only [Array.getD_eq_getD_getElem?, Array.getElem?_setIfInBounds]
  by_cases hslot : a.index = slot
  · subst hslot
    simp [hlt]
  · rw [if_neg hslot, if_neg (Ne.symm hslot)]

theorem sound_free (h : pool.Sound) (a : Handle kind) : (pool.free a).Sound := by
  cases ha : pool.contains a with
  | false =>
    rw [free_of_not_contains ha]
    exact h
  | true =>
    rcases free_of_contains h ha with ⟨hfree, hcount, _⟩
    have hused := (contains_iff.mp ha).1
    have hlt := lt_of_inUse h hused
    have hout : a.index ∉ pool.freeSlots := by
      intro hmem
      rw [((h.free _).mp hmem).2] at hused
      cases hused
    constructor
    case sizes =>
      unfold free free?
      rw [ha]
      show (pool.alive.setIfInBounds a.index false).size = (pool.generations.modify a.index (· + 1)).size
      rw [Array.size_setIfInBounds, Array.size_modify, h.sizes]
    case free =>
      intro slot
      unfold slotCount at hcount
      rw [hfree, mem_insertSlot, h.free, hcount, inUse_free h ha]
      by_cases hslot : slot = a.index
      · subst hslot
        simp [hlt]
      · rw [if_neg hslot, or_iff_right hslot]
    case nodup =>
      rw [hfree]
      exact nodup_insertSlot h.nodup hout

theorem contains_free (h : pool.Sound) (a b : Handle kind) :
    (pool.free a).contains b = true ↔ pool.contains b = true ∧ b ≠ a := by
  cases ha : pool.contains a with
  | false =>
    rw [free_of_not_contains ha]
    refine (and_iff_left_of_imp ?_).symm
    rintro hb rfl
    rw [ha] at hb
    cases hb
  | true =>
    rw [contains_iff, inUse_free h ha, (free_of_contains h ha).2.2]
    by_cases hindex : b.index = a.index
    · -- only the handle that is taken back had the slot
      rw [if_pos hindex]
      constructor
      · rintro ⟨hno, _⟩
        cases hno
      · rintro ⟨hb, hne⟩
        exact absurd (eq_of_contains hb ha hindex) hne
    · have hne : b ≠ a := fun heq => hindex (congrArg Handle.index heq)
      rw [if_neg hindex, if_neg hindex, ← contains_iff, and_iff_left hne]

/-- Taking a handle back takes away this handle and leaves all others. -/
theorem free_spec (h : pool.Sound) (a : Handle kind) :
    (pool.free a).Sound ∧
      ∀ b, (pool.free a).contains b = true ↔ pool.contains b = true ∧ b ≠ a :=
  ⟨sound_free h a, contains_free h a⟩

end HandlePool

end TetheredParticles
