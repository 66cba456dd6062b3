import Mathlib.Tactic.Common
import TetheredParticles.Proofs.Scalar
import TetheredParticles.Particle.Store
import TetheredParticles.Integration
/-!
# The particle store, slot by slot

A store is read through `ParticleStore.slot`. What an operation does to the store is said for every
slot at once; slots that an operation does not name are the same before and after.

* `slot_insert`, `slot_remove`, `slot_of_write` — the operations.
* `ParticleSlot.Weighed` — the marks of a particle agree with its inverse mass.
* `ParticleStore.Alike`, `ParticleStore.Steady` — stores that differ at most in how particles
  move, and perhaps in what they weigh.
-/

namespace TetheredParticles

namespace ParticleStore

variable {S : Type} [Scalar S]

/-! ## Reading -/

theorem lt_slotCount {store : ParticleStore S} {i : Nat} (h : store.isAlive i = true) :
    i < store.slotCount := by
  by_contra hge
  unfold isAlive slot at h
  rw [Array.getD_eq_getD_getElem?, Array.getElem?_eq_none (by unfold slotCount at hge; omega)] at h
  cases h

theorem mem_aliveSlots {store : ParticleStore S} {i : Nat} :
    i ∈ store.aliveSlots ↔ store.isAlive i = true := by
  unfold aliveSlots
  rw [List.mem_filter, List.mem_range]
  exact and_iff_right_of_imp lt_slotCount

theorem contains_iff {store : ParticleStore S} {h : ParticleHandle} :
    store.contains h = true ↔
      store.isAlive h.index = true ∧ (store.slot h.index).generation = h.generation := by
  unfold contains
  rw [Bool.and_eq_true, beq_iff_eq]

theorem owner?_eq_some {store : ParticleStore S} {h : ParticleHandle} {owner : ProxyId} :
    store.owner? h = some owner ↔
      store.contains h = true ∧ (store.slot h.index).owner = some owner := by
  unfold owner? get?
  by_cases hc : store.contains h = true
  · simp [hc]
  · simp [hc]

/-- Stores are equal if they agree on every slot. -/
theorem ext_slot {store after : ParticleStore S} (hcount : store.slotCount = after.slotCount)
    (halive : store.aliveCount = after.aliveCount) (h : ∀ i, store.slot i = after.slot i) :
    store = after := by
  rcases store with ⟨slots, count⟩
  rcases after with ⟨slots', count'⟩
  have hslots : slots = slots' := by
    refine Array.ext hcount ?_
    intro i hi hi'
    have hslot := h i
    unfold slot at hslot
    simp only [Array.getD_eq_getD_getElem?, Array.getElem?_eq_getElem hi,
      Array.getElem?_eq_getElem hi', Option.getD_some] at hslot
    exact hslot
  subst hslots
  dsimp only at halive
  rw [halive]

/-! ## Operations -/

theorem slot_modify (store : ParticleStore S) (index : Nat)
    (change : ParticleSlot S → ParticleSlot S) (i : Nat) (hi : index < store.slotCount) :
    (store.modify index change).slot i =
      if i = index then change (store.slot i) else store.slot i := by
  unfold modify slot
  simp only [Array.getD_eq_getD_getElem?, Array.getElem?_modify]
  by_cases h : i = index
  · subst h
    rw [if_pos rfl, if_pos rfl]
    unfold slotCount at hi
    simp [hi]
  · rw [if_neg (Ne.symm h), if_neg h]

omit [Scalar S] in
@[simp]
theorem slotCount_modify (store : ParticleStore S) (index : Nat)
    (change : ParticleSlot S → ParticleSlot S) :
    (store.modify index change).slotCount = store.slotCount := by
  unfold modify slotCount
  exact Array.size_modify ..

/-- A slot that is not occupied becomes occupied, and no other slot changes. -/
theorem slot_insert {store : ParticleStore S} {h : ParticleHandle} (p : Particle S)
    (owner : ProxyId) (hfree : store.isAlive h.index = false) (i : Nat) :
    (store.insert h p owner).slot i =
      if i = h.index then .occupied p owner h.generation else store.slot i := by
  unfold insert insert?
  rw [if_neg (by simp [hfree]), Option.getD_some]
  unfold slot grow
  simp only [Array.getD_eq_getD_getElem?, Array.getElem?_setIfInBounds, Array.size_append,
    Array.size_replicate, Array.getElem?_append, Array.getElem?_replicate]
  by_cases hi : i = h.index
  · subst hi
    rw [if_pos rfl, if_pos rfl, if_pos (by omega), Option.getD_some]
  · rw [if_neg (Ne.symm hi), if_neg hi]
    by_cases hlt : i < store.slots.size
    · rw [if_pos hlt]
    · rw [if_neg hlt, Array.getElem?_eq_none (by omega), Option.getD_none]
      split
      · rw [Option.getD_some]
      · rw [Option.getD_none]

theorem insert_of_isAlive {store : ParticleStore S} {h : ParticleHandle} (p : Particle S)
    (owner : ProxyId) (halive : store.isAlive h.index = true) :
    store.insert h p owner = store := by
  unfold insert insert?
  rw [if_pos halive, Option.getD_none]

/-- The particle of a handle is removed if there is one, and no other slot changes. -/
theorem slot_remove (store : ParticleStore S) (h : ParticleHandle) (i : Nat) :
    (store.remove h).slot i =
      if store.contains h = true ∧ i = h.index then (store.slot i).vacated else store.slot i := by
  unfold remove remove?
  by_cases hc : store.contains h = true
  · rw [if_pos hc, Option.getD_some]
    have hlt : h.index < store.slotCount := lt_slotCount (contains_iff.mp hc).1
    have := slot_modify store h.index .vacated i hlt
    unfold modify slot at this
    simp only [hc, true_and]
    exact this
  · rw [if_neg hc, Option.getD_none, if_neg fun h => hc h.1]

theorem contains_congr {store after : ParticleStore S} {h : ParticleHandle}
    (hslot : after.slot h.index = store.slot h.index) : after.contains h = store.contains h := by
  unfold contains isAlive
  rw [hslot]

/-- Particles go into their slots one after the other; a slot that is occupied already, be it by
one of them, stays as it is. -/
theorem slot_insertAll (owner : ProxyId) (pairs : List (ParticleHandle × Particle S))
    (store : ParticleStore S) (i : Nat) :
    (store.isAlive i = false ∧ ∃ x ∈ pairs, x.1.index = i ∧
      (pairs.foldl (fun store (h, p) => store.insert h p owner) store).slot i =
        .occupied x.2 owner x.1.generation) ∨
    ((store.isAlive i = true ∨ ∀ x ∈ pairs, x.1.index ≠ i) ∧
      (pairs.foldl (fun store (h, p) => store.insert h p owner) store).slot i = store.slot i) := by
  induction pairs generalizing store with
  | nil => exact .inr ⟨.inr fun x hx => absurd hx List.not_mem_nil, rfl⟩
  | cons x rest ih =>
    obtain ⟨h, p⟩ := x
    simp only [List.foldl_cons]
    cases halive : store.isAlive h.index with
    | true =>
      rw [insert_of_isAlive p owner halive]
      rcases ih store with ⟨hfree, y, hy, hrest⟩ | ⟨hor, hslot⟩
      · exact .inl ⟨hfree, y, List.mem_cons_of_mem _ hy, hrest⟩
      · refine .inr ⟨?_, hslot⟩
        by_cases hi : h.index = i
        · exact .inl (hi ▸ halive)
        · exact hor.imp_right fun hne => List.forall_mem_cons.mpr ⟨hi, hne⟩
    | false =>
      have hone := slot_insert p owner halive i
      by_cases hi : i = h.index
      · -- the first particle for a slot occupies it for the others
        rw [if_pos hi] at hone
        rcases ih (store.insert h p owner) with ⟨hfree, _⟩ | ⟨_, hslot⟩
        · unfold isAlive at hfree
          rw [hone] at hfree
          cases hfree
        · exact .inl ⟨hi ▸ halive, (h, p), by simp, hi.symm, hslot.trans hone⟩
      · rw [if_neg hi] at hone
        have hsame : (store.insert h p owner).isAlive i = store.isAlive i := by
          unfold isAlive
          rw [hone]
        rcases ih (store.insert h p owner) with ⟨hfree, y, hy, hrest⟩ | ⟨hor, hslot⟩
        · exact .inl ⟨hsame ▸ hfree, y, List.mem_cons_of_mem _ hy, hrest⟩
        · refine .inr ⟨?_, hslot.trans hone⟩
          rw [hsame] at hor
          exact hor.imp_right fun hne => List.forall_mem_cons.mpr ⟨Ne.symm hi, hne⟩

/-- Lists of the same length are paired up completely. -/
theorem exists_mem_zip {A B : Type} {xs : List A} {ys : List B} (hlength : xs.length = ys.length)
    {x : A} (hx : x ∈ xs) : ∃ y, (x, y) ∈ xs.zip ys := by
  rcases List.getElem_of_mem hx with ⟨i, hi, rfl⟩
  have hi' : i < (xs.zip ys).length := by
    rw [List.length_zip, ← hlength, Nat.min_self]
    exact hi
  have hmem := List.getElem_mem hi'
  rw [List.getElem_zip] at hmem
  exact ⟨_, hmem⟩

/-- A free slot that a particle is listed for is taken by a particle of the owner. -/
theorem slot_insertAll_of_mem (owner : ProxyId) {handles : List ParticleHandle}
    {particles : List (Particle S)} (hlength : handles.length = particles.length)
    (store : ParticleStore S) {k : ParticleHandle} (hk : k ∈ handles)
    (hfree : store.isAlive k.index = false) :
    ∃ p generation, ((handles.zip particles).foldl (fun store (h, p) => store.insert h p owner)
      store).slot k.index = .occupied p owner generation := by
  rcases slot_insertAll owner (handles.zip particles) store k.index with
    ⟨_, x, _, _, hslot⟩ | ⟨halive | hnone, _⟩
  · exact ⟨x.2, x.1.generation, hslot⟩
  · rw [hfree] at halive
    cases halive
  · rcases exists_mem_zip hlength hk with ⟨p, hp⟩
    exact absurd rfl (hnone _ hp)

/-- Removing particles vacates exactly the slots that one of the handles reaches. -/
theorem slot_removeAll (handles : List ParticleHandle) (store : ParticleStore S) (i : Nat) :
    ((∃ h ∈ handles, h.index = i ∧ store.contains h = true) ∧
      (handles.foldl (fun store h => store.remove h) store).slot i = (store.slot i).vacated) ∨
    ((∀ h ∈ handles, h.index = i → store.contains h = false) ∧
      (handles.foldl (fun store h => store.remove h) store).slot i = store.slot i) := by
  induction handles generalizing store with
  | nil => exact .inr ⟨fun h hh => absurd hh List.not_mem_nil, rfl⟩
  | cons h rest ih =>
    rw [List.foldl_cons]
    have hone := slot_remove store h i
    by_cases hi : store.contains h = true ∧ i = h.index
    · rw [if_pos hi] at hone
      refine .inl ⟨⟨h, by simp, hi.2.symm, hi.1⟩, ?_⟩
      rcases ih (store.remove h) with ⟨⟨k, _, hki, hk⟩, _⟩ | ⟨_, hslot⟩
      · -- a vacated slot is reached by no handle
        have hdead := (contains_iff.mp hk).1
        unfold isAlive at hdead
        rw [hki, hone] at hdead
        cases hdead
      · exact hslot.trans hone
    · rw [if_neg hi] at hone
      have hsame : ∀ k : ParticleHandle, k.index = i →
          (store.remove h).contains k = store.contains k :=
        fun k hk => contains_congr (by rw [hk, hone])
      rcases ih (store.remove h) with ⟨⟨k, hk, hki, hkc⟩, hslot⟩ | ⟨hnone, hslot⟩
      · exact .inl ⟨⟨k, List.mem_cons_of_mem _ hk, hki, hsame k hki ▸ hkc⟩, hone ▸ hslot⟩
      · refine .inr ⟨fun k hk hki => ?_, hslot.trans hone⟩
        rcases List.mem_cons.mp hk with rfl | hk
        · exact Bool.eq_false_iff.mpr fun hc => hi ⟨hc, hki.symm⟩
        · exact hsame k hki ▸ hnone k hk hki

/-- A write changes the slot of its handle and no other. -/
theorem slot_of_write {store after : ParticleStore S} {h : ParticleHandle}
    {change : ParticleSlot S → ParticleSlot S} (hw : store.write? h change = some after) :
    store.contains h = true ∧ after.slotCount = store.slotCount ∧
      ∀ i, after.slot i = if i = h.index then (change (store.slot i)).touched else store.slot i := by
  unfold write? at hw
  split at hw
  case isFalse => cases hw
  case isTrue hc =>
    cases hw
    have hlt := lt_slotCount (contains_iff.mp hc).1
    exact ⟨hc, slotCount_modify store h.index _, fun i => slot_modify store h.index _ i hlt⟩

/-- Every slot that is changed alike. -/
theorem slot_map (store : ParticleStore S) (change : ParticleSlot S → ParticleSlot S)
    (hvacant : change .vacant = .vacant) (i : Nat) :
    ({ store with slots := store.slots.map change } : ParticleStore S).slot i =
      change (store.slot i) := by
  unfold slot
  simp only [Array.getD_eq_getD_getElem?, Array.getElem?_map]
  cases store.slots[i]? with
  | none => exact hvacant.symm
  | some s => rfl

theorem slot_clearStepData (store : ParticleStore S) (i : Nat) :
    store.clearStepData.slot i = (store.slot i).settled :=
  slot_map store _ rfl i

theorem slot_predict (store : ParticleStore S) (gravity : Vec3 S) (damping dt : S) (i : Nat) :
    (store.predict gravity damping dt).slot i =
      if store.isAlive i then (store.slot i).predict gravity damping dt else store.slot i :=
  slot_map store _ rfl i

@[simp]
theorem slotCount_predict (store : ParticleStore S) (gravity : Vec3 S) (damping dt : S) :
    (store.predict gravity damping dt).slotCount = store.slotCount := by
  unfold predict slotCount
  exact Array.size_map ..

@[simp]
theorem slotCount_clearStepData (store : ParticleStore S) :
    store.clearStepData.slotCount = store.slotCount := by
  unfold clearStepData slotCount
  exact Array.size_map ..

end ParticleStore

/-! ## Weights -/

section Weights

variable {S : Type} [Scalar S]

/-- A particle is marked as kinematic exactly if its inverse mass equals zero, and any other
inverse mass is positive. -/
structure ParticleSlot.Weighed (s : ParticleSlot S) : Prop where
  kinematic : s.flags.kinematic = (s.inverseMass == 0)
  cases : (s.inverseMass == 0) = true ∨ 0 < s.inverseMass

theorem ParticleSlot.Weighed.pos {s : ParticleSlot S} (h : s.Weighed)
    (hk : s.flags.kinematic = false) : 0 < s.inverseMass := by
  rcases h.cases with hzero | hpos
  · rw [h.kinematic, hzero] at hk
    cases hk
  · exact hpos

theorem ParticleSlot.Weighed.zero {s : ParticleSlot S} (h : s.Weighed)
    (hk : s.flags.kinematic = true) : (s.inverseMass == 0) = true := by
  rw [← h.kinematic, hk]

theorem ParticleSlot.weighed_occupied [LawfulZero S] (p : Particle S) (owner : ProxyId)
    (generation : UInt32) : (occupied p owner generation).Weighed :=
  ⟨rfl, Scalar.maxNum_zero _⟩

/-- Every particle of the store is weighed. -/
def ParticleStore.Weighed (store : ParticleStore S) : Prop :=
  ∀ i, store.isAlive i = true → (store.slot i).Weighed

/-! ## Alike stores -/

/-- What stays of a slot as long as its particle neither leaves nor changes its kind. -/
structure ParticleSlot.Alike (s t : ParticleSlot S) : Prop where
  alive : t.flags.alive = s.flags.alive
  kinematic : t.flags.kinematic = s.flags.kinematic
  owner : t.owner = s.owner
  generation : t.generation = s.generation

/-- The same particles of the same kinds in the same slots. -/
structure ParticleStore.Alike (store after : ParticleStore S) : Prop where
  slotCount : after.slotCount = store.slotCount
  slot : ∀ i, (store.slot i).Alike (after.slot i)

namespace ParticleStore.Alike

variable {store after last : ParticleStore S}

theorem refl (store : ParticleStore S) : store.Alike store :=
  ⟨rfl, fun _ => ⟨rfl, rfl, rfl, rfl⟩⟩

theorem trans (h : store.Alike after) (k : after.Alike last) : store.Alike last where
  slotCount := k.slotCount.trans h.slotCount
  slot i := by
    have hi := h.slot i
    have ki := k.slot i
    exact ⟨ki.alive.trans hi.alive, ki.kinematic.trans hi.kinematic, ki.owner.trans hi.owner,
      ki.generation.trans hi.generation⟩

theorem isAlive (h : store.Alike after) (i : Nat) : after.isAlive i = store.isAlive i :=
  (h.slot i).alive

theorem contains (h : store.Alike after) (handle : ParticleHandle) :
    after.contains handle = store.contains handle := by
  unfold ParticleStore.contains
  rw [h.isAlive, (h.slot handle.index).generation]

theorem ofWrite {h : ParticleHandle} {change : ParticleSlot S → ParticleSlot S}
    (hw : store.write? h change = some after)
    (hchange : (store.slot h.index).Alike (change (store.slot h.index)).touched) :
    store.Alike after := by
  obtain ⟨_, hcount, hslot⟩ := slot_of_write hw
  refine ⟨hcount, fun i => ?_⟩
  rw [hslot]
  by_cases hi : i = h.index
  · rw [if_pos hi, hi]
    exact hchange
  · rw [if_neg hi]
    exact ⟨rfl, rfl, rfl, rfl⟩

end ParticleStore.Alike

/-! ## Steady stores -/

/-- The same particles of the same masses in the same slots. -/
structure ParticleStore.Steady (store after : ParticleStore S) : Prop where
  alike : store.Alike after
  inverseMass : ∀ i, (after.slot i).inverseMass = (store.slot i).inverseMass

namespace ParticleStore.Steady

variable {store after last : ParticleStore S}

theorem refl (store : ParticleStore S) : store.Steady store := ⟨.refl store, fun _ => rfl⟩

theorem trans (h : store.Steady after) (k : after.Steady last) : store.Steady last :=
  ⟨h.alike.trans k.alike, fun i => (k.inverseMass i).trans (h.inverseMass i)⟩

theorem weighed (h : store.Steady after) (hw : store.Weighed) : after.Weighed := by
  intro i hi
  have hweighed := hw i (h.alike.isAlive i ▸ hi)
  refine ⟨?_, ?_⟩
  · rw [(h.alike.slot i).kinematic, h.inverseMass, hweighed.kinematic]
  · rw [h.inverseMass]
    exact hweighed.cases

/-- A step predicts where particles go. -/
theorem predict (store : ParticleStore S) (gravity : Vec3 S) (damping dt : S) :
    store.Steady (store.predict gravity damping dt) := by
  have hslot : ∀ s : ParticleSlot S, s.Alike (s.predict gravity damping dt) ∧
      (s.predict gravity damping dt).inverseMass = s.inverseMass := by
    intro s
    unfold ParticleSlot.predict
    split
    · split
      · exact ⟨⟨rfl, rfl, rfl, rfl⟩, rfl⟩
      · exact ⟨⟨rfl, rfl, rfl, rfl⟩, rfl⟩
    · exact ⟨⟨rfl, rfl, rfl, rfl⟩, rfl⟩
  refine ⟨⟨slotCount_predict .., fun i => ?_⟩, fun i => ?_⟩
  · rw [slot_predict]
    split
    · exact (hslot _).1
    · exact ⟨rfl, rfl, rfl, rfl⟩
  · rw [slot_predict]
    split
    · exact (hslot _).2
    · rfl

/-- A step ends by forgetting what was meant for it. -/
theorem clearStepData (store : ParticleStore S) : store.Steady store.clearStepData := by
  refine ⟨⟨slotCount_clearStepData store, fun i => ?_⟩, fun i => ?_⟩
  · rw [slot_clearStepData]
    exact ⟨rfl, rfl, rfl, rfl⟩
  · rw [slot_clearStepData]
    rfl

/-- A slot is changed without touching what has to stay. -/
theorem modify (store : ParticleStore S) (index : Nat)
    {change : ParticleSlot S → ParticleSlot S}
    (hchange : ∀ s, s.Alike (change s) ∧ (change s).inverseMass = s.inverseMass) :
    store.Steady (store.modify index change) := by
  have hslot : ∀ i, (store.modify index change).slot i = store.slot i ∨
      (store.modify index change).slot i = change (store.slot i) := by
    intro i
    by_cases hlt : index < store.slotCount
    · rw [slot_modify store index change i hlt]
      split
      · exact .inr rfl
      · exact .inl rfl
    · left
      unfold ParticleStore.modify slot slotCount at *
      simp only [Array.getD_eq_getD_getElem?, Array.getElem?_modify]
      by_cases hi : index = i
      · rw [if_pos hi, Array.getElem?_eq_none (by omega)]
        rfl
      · rw [if_neg hi]
  refine ⟨⟨slotCount_modify .., fun i => ?_⟩, fun i => ?_⟩
  · rcases hslot i with h | h
    · rw [h]
      exact ⟨rfl, rfl, rfl, rfl⟩
    · rw [h]
      exact (hchange _).1
  · rcases hslot i with h | h
    · rw [h]
    · rw [h]
      exact (hchange _).2

end ParticleStore.Steady

end Weights

end TetheredParticles
