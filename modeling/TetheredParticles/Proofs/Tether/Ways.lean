import Mathlib.Data.List.Basic
import TetheredParticles.Tether.Geodesic
/-!
# Ways found by a search

A search knows ways from anchors to points. Each one is an anchor on its own, or goes on from a way
that was known before by an edge to a point that is not anchored. So what holds of anchors and stays
true while ways go on holds of all ways, and anchors never lose their own ones.

* `Frontier.onward`, `Geodesic.follow_cases` — what following an edge does.
* `Geodesic.Holds`, `Geodesic.search_holds` — what holds of all ways.
* `Geodesic.getD_search_of_anchored` — the ways to anchors.
-/

namespace TetheredParticles

variable {S : Type} [Scalar S]

/-- The length of the edge between two points. -/
def Geodesic.edgeLength (positions : Array (Vec3 S)) (a b : Nat) : S :=
  (positions.getD a 0).distance (positions.getD b 0)

namespace Frontier

/-- The way of an entry, as it is recorded for its point. -/
def way (entry : Frontier S) : Nat × S := (entry.anchor, entry.distance)

/-- The way that goes on to a neighbor. -/
def onward (positions : Array (Vec3 S)) (entry : Frontier S) (neighbor : Nat) : Frontier S :=
  ⟨entry.distance + Geodesic.edgeLength positions entry.point neighbor, entry.anchor, neighbor⟩

end Frontier

namespace Geodesic

variable {positions : Array (Vec3 S)} {g : Graph} {anchored : Nat → Bool} {s : Geodesic S}
  {entry : Frontier S} {p q : Nat}

/-! ## Single edges -/

theorem mem_insert {e : Frontier S} {frontier : List (Frontier S)} :
    e ∈ insert entry frontier ↔ e = entry ∨ e ∈ frontier := by
  induction frontier with
  | nil => simp [insert]
  | cons f rest ih =>
    unfold insert
    split
    · exact List.mem_cons
    · rw [List.mem_cons, ih, List.mem_cons]
      tauto

@[simp]
theorem size_reach : (s.reach entry).best.size = s.best.size := Array.size_setIfInBounds

theorem getD_reach_self (h : entry.point < s.best.size) :
    (s.reach entry).best.getD entry.point none = some entry.way := by
  unfold reach
  rw [Array.getD_eq_getD_getElem?, Array.getElem?_setIfInBounds_self_of_lt h]
  rfl

theorem getD_reach_of_ne (h : entry.point ≠ p) :
    (s.reach entry).best.getD p none = s.best.getD p none := by
  unfold reach
  rw [Array.getD_eq_getD_getElem?, Array.getElem?_setIfInBounds_ne h, Array.getD_eq_getD_getElem?]

/-- A way to a point outside is not recorded. -/
theorem getD_reach_eq_some {way : Nat × S} (h : (s.reach entry).best.getD p none = some way) :
    entry.point = p ∧ entry.way = way ∨ s.best.getD p none = some way := by
  by_cases hp : entry.point = p
  · subst hp
    by_cases hlt : entry.point < s.best.size
    · rw [getD_reach_self hlt, Option.some.injEq] at h
      exact .inl ⟨rfl, h⟩
    · -- there is no place outside to record a way in
      have hsize : (s.reach entry).best.size = s.best.size := size_reach
      rw [Array.getD_eq_getD_getElem?, Array.getElem?_eq_none (hsize ▸ Nat.not_lt.mp hlt)] at h
      cases h
  · exact .inr (getD_reach_of_ne hp ▸ h)

/-- An edge is followed, unless it leads to an anchor or the way on is not better than the one
known. -/
theorem follow_cases (positions : Array (Vec3 S)) (anchored : Nat → Bool) (entry : Frontier S)
    (s : Geodesic S) (q : Nat) :
    (anchored q = true ∨
        improves entry.anchor (entry.onward positions q).distance (s.best.getD q none) = false) ∧
      follow positions anchored entry s q = s ∨
    (anchored q = false ∧
        improves entry.anchor (entry.onward positions q).distance (s.best.getD q none) = true) ∧
      follow positions anchored entry s q = s.reach (entry.onward positions q) := by
  unfold follow
  by_cases hanchored : anchored q = true
  · exact .inl ⟨.inl hanchored, if_pos hanchored⟩
  · rw [if_neg hanchored]
    rw [Bool.not_eq_true] at hanchored
    by_cases himproves : improves entry.anchor (entry.onward positions q).distance
        (s.best.getD q none) = true
    · exact .inr ⟨⟨hanchored, himproves⟩, if_pos himproves⟩
    · exact .inl ⟨.inr (Bool.not_eq_true _ ▸ himproves), if_neg himproves⟩

/-! ## Rounds -/

/-- The state of a search after the first entry of its frontier has been taken. -/
theorem step_cons (positions : Array (Vec3 S)) (g : Graph) (anchored : Nat → Bool)
    (best : Array (Reached S)) (entry : Frontier S) (rest : List (Frontier S)) :
    step positions g anchored ⟨best, entry :: rest⟩ =
      if isCurrent entry (best.getD entry.point none) then
        (g.neighbors entry.point).foldl (follow positions anchored entry) ⟨best, rest⟩
      else ⟨best, rest⟩ := rfl

/-- What every step keeps is kept by runs. -/
theorem run_keeps {I : Geodesic S → Prop}
    (hstep : ∀ s, I s → I (s.step positions g anchored)) (rounds : Nat) (hs : I s) :
    I (s.run positions g anchored rounds) := by
  induction rounds generalizing s with
  | zero => exact hs
  | succ rounds ih =>
    unfold run
    split
    · exact hs
    · exact ih (hstep s hs)

/-! ## What holds of all ways -/

/-- All ways to points have a property. -/
structure Holds (P : Nat → Nat × S → Prop) (s : Geodesic S) : Prop where
  best : ∀ p way, s.best.getD p none = some way → P p way
  frontier : ∀ e ∈ s.frontier, P e.point e.way

namespace Holds

variable {P : Nat → Nat × S → Prop}

theorem reach (h : s.Holds P) (hentry : P entry.point entry.way) : (s.reach entry).Holds P := by
  refine ⟨fun p way hp => ?_, fun e he => ?_⟩
  · rcases getD_reach_eq_some hp with ⟨rfl, rfl⟩ | hp
    · exact hentry
    · exact h.best p way hp
  · rcases mem_insert.mp he with rfl | he
    · exact hentry
    · exact h.frontier e he

theorem start {count : Nat} (hstart : ∀ p < count, anchored p = true → P p (p, 0)) :
    (start (S := S) count anchored).Holds P := by
  have hall : ∀ p ∈ (List.range count).filter anchored, P p (p, 0) := by
    intro p hp
    rcases List.mem_filter.mp hp with ⟨hrange, hanchored⟩
    exact hstart p (List.mem_range.mp hrange) hanchored
  have hnone : Holds P (⟨Array.replicate count none, []⟩ : Geodesic S) := by
    refine ⟨fun p way hp => ?_, nofun⟩
    rw [Array.getD_eq_getD_getElem?, Array.getElem?_replicate] at hp
    split at hp <;> cases hp
  unfold Geodesic.start
  -- by induction on the anchors that are still to be reached
  generalize (List.range count).filter anchored = anchors at hall
  generalize (⟨Array.replicate count none, []⟩ : Geodesic S) = s at hnone
  induction anchors generalizing s with
  | nil => exact hnone
  | cons p rest ih =>
    rw [List.forall_mem_cons] at hall
    exact ih hall.2 _ (hnone.reach hall.1)

theorem step (hon : ∀ p way q, P p way → q ∈ g.neighbors p → anchored q = false →
      P q (way.1, way.2 + edgeLength positions p q)) (h : s.Holds P) :
    (s.step positions g anchored).Holds P := by
  rcases s with ⟨best, frontier⟩
  cases frontier with
  | nil => exact h
  | cons entry rest =>
    have hrest : Holds P (⟨best, rest⟩ : Geodesic S) :=
      ⟨h.best, fun e he => h.frontier e (List.mem_cons_of_mem _ he)⟩
    have hentry := h.frontier entry List.mem_cons_self
    rw [step_cons]
    split
    · refine List.foldlRecOn (motive := Holds P) _ _ hrest fun s hs q hq => ?_
      rcases follow_cases positions anchored entry s q with ⟨_, heq⟩ | ⟨⟨hfree, _⟩, heq⟩
      · rw [heq]
        exact hs
      · rw [heq]
        exact hs.reach (hon entry.point entry.way q hentry hq hfree)
    · exact hrest

end Holds

/-- What holds of anchors, and of ways that go on if it held before, holds of all ways found. -/
theorem search_holds {P : Nat → Nat × S → Prop}
    (hstart : ∀ p < positions.size, anchored p = true → P p (p, 0))
    (hon : ∀ p way q, P p way → q ∈ g.neighbors p → anchored q = false →
      P q (way.1, way.2 + edgeLength positions p q))
    {way : Nat × S} (h : (search positions g anchored).getD p none = some way) : P p way :=
  (run_keeps (fun _ hs => hs.step hon) _ (Holds.start hstart)).best p way h

/-- The nearest anchor of a point is anchored. -/
theorem search_anchored {anchor : Nat} {d : S}
    (h : (search positions g anchored).getD p none = some (anchor, d)) :
    anchored anchor = true :=
  search_holds (P := fun _ way => anchored way.1 = true) (fun _ _ hp => hp)
    (fun _ _ _ hp _ _ => hp) h

/-! ## Ways to anchors -/

/-- Steps do not enter anchored points. -/
theorem getD_step_of_anchored (hp : anchored p = true) :
    (s.step positions g anchored).best.getD p none = s.best.getD p none := by
  rcases s with ⟨best, frontier⟩
  cases frontier with
  | nil => rfl
  | cons entry rest =>
    rw [step_cons]
    split
    · refine List.foldlRecOn (motive := fun s : Geodesic S => s.best.getD p none = best.getD p none)
        _ _ rfl fun s hs q _ => ?_
      rcases follow_cases positions anchored entry s q with ⟨_, heq⟩ | ⟨⟨hfree, _⟩, heq⟩
      · rw [heq, hs]
      · have hne : (entry.onward positions q).point ≠ p := by
          rintro rfl
          exact Bool.false_ne_true (hfree.symm.trans hp)
        rw [heq, getD_reach_of_ne hne, hs]
    · rfl

/-- Searches start from all anchors. -/
theorem getD_start {count : Nat} (hlt : p < count) (hp : anchored p = true) :
    (start (S := S) count anchored).best.getD p none = some (p, 0) := by
  unfold start
  have hmem : p ∈ (List.range count).filter anchored :=
    List.mem_filter.mpr ⟨List.mem_range.mpr hlt, hp⟩
  have hsize : p < (⟨Array.replicate count none, []⟩ : Geodesic S).best.size := by
    rw [Array.size_replicate]
    exact hlt
  generalize (List.range count).filter anchored = anchors at hmem
  generalize (⟨Array.replicate count none, []⟩ : Geodesic S) = s at hsize
  -- the anchor is reached in its turn, and reaching others does not take its place
  suffices hfold : p ∈ anchors ∨ s.best.getD p none = some (p, 0) →
      (anchors.foldl (fun s p => s.reach ⟨0, p, p⟩) s).best.getD p none = some (p, 0) from
    hfold (.inl hmem)
  clear hmem
  induction anchors generalizing s with
  | nil => exact fun h => h.resolve_left List.not_mem_nil
  | cons q rest ih =>
    intro h
    refine ih _ ?_ ?_
    · rw [size_reach]
      exact hsize
    · by_cases hq : q = p
      · subst hq
        exact .inr (getD_reach_self hsize)
      · rw [getD_reach_of_ne hq]
        exact h.imp_left fun h => (List.mem_cons.mp h).resolve_left fun heq => hq heq.symm

/-- Anchors are reached on no way but their own. -/
theorem getD_search_of_anchored (hlt : p < positions.size) (hp : anchored p = true) :
    (search positions g anchored).getD p none = some (p, 0) := by
  refine run_keeps (I := fun s => s.best.getD p none = some (p, 0)) (fun s hs => ?_) _ ?_
  · rw [getD_step_of_anchored hp, hs]
  · exact getD_start hlt hp

end Geodesic

end TetheredParticles
