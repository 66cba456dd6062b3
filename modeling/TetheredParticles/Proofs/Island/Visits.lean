import Mathlib.Data.List.Perm.Basic
import Mathlib.Logic.Function.Basic
import TetheredParticles.Proofs.Island.Total
/-!
# Visits

Solving comes down to visits: each looks at one constraint, moves the particles at its ends and
changes what the constraint remembers. A visit reads and writes few cells, and what happens to other
cells does not concern it. Visits to different islands therefore do not see each other, and visits
of which none writes what another one reads may be made in any order.

* `Cell`, `Motion` — everything that visits read and write.
* `Visit.run`, `Visit.runAll` — one visit, and visits in order.
* `Visit.runAll_filter` — only visits within a set of cells matter to it.
* `Visit.runAll_perm` — visits that leave each other alone may change places.
-/

namespace TetheredParticles

/-- What a visit may read or write. -/
inductive Cell where
  | slot (index : Nat)
  /-- What the tether of a cluster in a batch to a tip remembers. -/
  | tether (owner : ProxyId) (layer tip : Nat)
  | joint (owner : ProxyId)
  | suspension (owner : ProxyId)
deriving DecidableEq

/-- The contents of all cells: the position of a particle, or the direction and the multiplier of a
constraint. -/
abbrev Motion (S : Type) := Cell → Vec3 S × S

/-- A constraint to be visited, between slots. -/
inductive Visit (S : Type) where
  /-- A tether of a cluster in a batch, with the rule it is projected by. -/
  | tether (owner : ProxyId) (layer : Nat) (rule : TetherRule S) (tether : Tether S)
  | joint (owner : ProxyId) (joint : Joint S)
  | suspension (owner : ProxyId) (suspension : Suspension S)

variable {S : Type} [Scalar S]

/-- How far the tip of a tether moves, and the new multiplier. -/
def Tether.pull (t : Tether S) (rule : TetherRule S) (anchor tip : Vec3 S) (multiplier : S) :
    Vec3 S × S :=
  let (direction, length) := (anchor - tip).directionAndLength
  let (distance, multiplier) := rule (t.excess length) multiplier
  (direction * distance, multiplier)

/-- The direction of a joint and the update of its multiplier, if its particles are apart. -/
def Joint.update? (j : Joint S) (wa wb dt : S) (a b : Vec3 S) (multiplier : S) :
    Option (Vec3 S × S) :=
  let (direction, distance) := (b - a).directionAndLength
  if direction == 0 then none
  else some (direction,
    Compliance.update multiplier (distance - j.restLength) [wa, wb] j.compliance dt)

/-- The direction of a suspension and the update of its multiplier, if its particle is not at the
target. -/
def Suspension.update? (s : Suspension S) (w dt : S) (position : Vec3 S) (multiplier : S) :
    Option (Vec3 S × S) :=
  let (direction, distance) := (position - s.target).directionAndLength
  if direction == 0 then none
  else some (direction,
    Compliance.update multiplier (distance - s.restLength) [w] s.compliance dt)

namespace Motion

/-- Where the particle in a slot is. -/
def position (σ : Motion S) (slot : Nat) : Vec3 S := (σ (.slot slot)).1

/-- Moves the particle in a slot. -/
def move (σ : Motion S) (slot : Nat) (change : Vec3 S → Vec3 S) : Motion S :=
  Function.update σ (.slot slot) (change (σ (.slot slot)).1, (σ (.slot slot)).2)

omit [Scalar S] in
@[simp]
theorem position_move (σ : Motion S) (slot other : Nat) (change : Vec3 S → Vec3 S) :
    position (move σ slot change) other =
      if other = slot then change (position σ slot) else position σ other := by
  unfold position move
  by_cases h : other = slot
  · rw [h, Function.update_self, if_pos rfl]
  · rw [Function.update_of_ne, if_neg h]
    intro heq
    cases heq
    exact h rfl

omit [Scalar S] in
theorem move_of_ne {c : Cell} {slot : Nat} (h : c ≠ .slot slot) (σ : Motion S)
    (change : Vec3 S → Vec3 S) : move σ slot change c = σ c :=
  Function.update_of_ne h _ _

end Motion

namespace Visit

/-- The cells that a visit writes. -/
def writes : Visit S → List Cell
  | .tether owner layer _ t => [.slot t.tip, .tether owner layer t.tip]
  | .joint owner j => [.slot j.first, .slot j.second, .joint owner]
  | .suspension owner s => [.slot s.particle, .suspension owner]

/-- The cells that a visit reads. -/
def reads : Visit S → List Cell
  | .tether owner layer _ t => [.slot t.anchor, .slot t.tip, .tether owner layer t.tip]
  | .joint owner j => [.slot j.first, .slot j.second, .joint owner]
  | .suspension owner s => [.slot s.particle, .suspension owner]

/-- One visit, given the inverse masses of the particles and the size of the step. -/
def run (masses : Nat → S) (dt : S) (σ : Motion S) : Visit S → Motion S
  | .tether owner layer rule t =>
    let (move, multiplier) := t.pull rule (Motion.position σ t.anchor) (Motion.position σ t.tip)
      (σ (.tether owner layer t.tip)).2
    Function.update (Motion.move σ t.tip (· + move)) (.tether owner layer t.tip) (0, multiplier)
  | .joint owner j =>
    match j.update? (masses j.first) (masses j.second) dt (Motion.position σ j.first)
      (Motion.position σ j.second) (σ (.joint owner)).2 with
    | none => σ
    | some (direction, update) =>
      let impulse := direction * update
      let moved := Motion.move (Motion.move σ j.first (· - impulse * masses j.first)) j.second
        (· + impulse * masses j.second)
      Function.update moved (.joint owner) (direction, (σ (.joint owner)).2 + update)
  | .suspension owner s =>
    match s.update? (masses s.particle) dt (Motion.position σ s.particle)
      (σ (.suspension owner)).2 with
    | none => σ
    | some (direction, update) =>
      Function.update (Motion.move σ s.particle (· + direction * update * masses s.particle))
        (.suspension owner) (direction, (σ (.suspension owner)).2 + update)

/-- Visits in order. -/
def runAll (masses : Nat → S) (dt : S) (visits : List (Visit S)) (σ : Motion S) : Motion S :=
  visits.foldl (run masses dt) σ

variable {masses : Nat → S} {dt : S} {σ τ : Motion S} {v u : Visit S}

omit [Scalar S] in
theorem reads_of_writes {c : Cell} (h : c ∈ v.writes) : c ∈ v.reads := by
  cases v with
  | tether owner layer rule t => exact List.mem_cons_of_mem _ h
  | joint owner j => exact h
  | suspension owner s => exact h

/-! ## One visit -/

/-- A visit leaves all cells alone that it does not write. -/
theorem run_frame {c : Cell} (h : c ∉ v.writes) : run masses dt σ v c = σ c := by
  cases v with
  | tether owner layer rule t =>
    rcases not_or.mp (mt List.mem_cons.mpr h) with ⟨hslot, h⟩
    have hmemory := mt List.mem_singleton.mpr h
    unfold run
    dsimp only
    rw [Function.update_of_ne hmemory, Motion.move_of_ne hslot]
  | joint owner j =>
    rcases not_or.mp (mt List.mem_cons.mpr h) with ⟨hfirst, h⟩
    rcases not_or.mp (mt List.mem_cons.mpr h) with ⟨hsecond, h⟩
    have hmemory := mt List.mem_singleton.mpr h
    unfold run
    dsimp only
    cases j.update? _ _ _ _ _ _ with
    | none => rfl
    | some result =>
      exact (Function.update_of_ne hmemory _ _).trans
        ((Motion.move_of_ne hsecond _ _).trans (Motion.move_of_ne hfirst _ _))
  | suspension owner s =>
    rcases not_or.mp (mt List.mem_cons.mpr h) with ⟨hslot, h⟩
    have hmemory := mt List.mem_singleton.mpr h
    unfold run
    dsimp only
    cases s.update? _ _ _ _ with
    | none => rfl
    | some result =>
      exact (Function.update_of_ne hmemory _ _).trans (Motion.move_of_ne hslot _ _)

omit [Scalar S] in
theorem move_congr {c : Cell} (slot : Nat) (change : Vec3 S → Vec3 S) (h : σ c = τ c) :
    Motion.move σ slot change c = Motion.move τ slot change c := by
  by_cases hc : c = .slot slot
  · subst hc
    unfold Motion.move
    rw [Function.update_self, Function.update_self, h]
  · rw [Motion.move_of_ne hc, Motion.move_of_ne hc, h]

/-- What a visit does depends on the cells it reads only. -/
theorem run_congr (h : ∀ c ∈ v.reads, σ c = τ c) {c : Cell} (hc : σ c = τ c) :
    run masses dt σ v c = run masses dt τ v c := by
  -- a cell gets the same content in both, unless it got the same before
  have hupdate : ∀ {σ' τ' : Motion S} (own : Cell) (value : Vec3 S × S), σ' c = τ' c →
      Function.update σ' own value c = Function.update τ' own value c := by
    intro σ' τ' own value hsame
    by_cases hown : c = own
    · rw [hown, Function.update_self, Function.update_self]
    · rw [Function.update_of_ne hown, Function.update_of_ne hown, hsame]
  cases v with
  | tether owner layer rule t =>
    have hanchor := h (.slot t.anchor) (by simp [reads])
    have htip := h (.slot t.tip) (by simp [reads])
    have hmemory := h (.tether owner layer t.tip) (by simp [reads])
    unfold run Motion.position
    dsimp only
    rw [hanchor, htip, hmemory]
    exact hupdate _ _ (move_congr _ _ hc)
  | joint owner j =>
    have hfirst := h (.slot j.first) (by simp [reads])
    have hsecond := h (.slot j.second) (by simp [reads])
    have hmemory := h (.joint owner) (by simp [reads])
    unfold run Motion.position
    dsimp only
    rw [hfirst, hsecond, hmemory]
    cases j.update? _ _ _ _ _ _ with
    | none => exact hc
    | some result => exact hupdate _ _ (move_congr _ _ (move_congr _ _ hc))
  | suspension owner s =>
    have hslot := h (.slot s.particle) (by simp [reads])
    have hmemory := h (.suspension owner) (by simp [reads])
    unfold run Motion.position
    dsimp only
    rw [hslot, hmemory]
    cases s.update? _ _ _ _ with
    | none => exact hc
    | some result => exact hupdate _ _ (move_congr _ _ hc)

/-- Neither visit writes what the other one reads. -/
def Apart (v u : Visit S) : Prop := (∀ c ∈ v.writes, c ∉ u.reads) ∧ ∀ c ∈ u.writes, c ∉ v.reads

/-- Visits that leave each other alone may change places. -/
theorem run_comm (h : v.Apart u) :
    run masses dt (run masses dt σ v) u = run masses dt (run masses dt σ u) v := by
  have hside : ∀ {a b : Visit S}, (∀ c ∈ b.writes, c ∉ a.reads) → ∀ {c : Cell}, c ∉ b.writes →
      run masses dt (run masses dt σ a) b c = run masses dt (run masses dt σ b) a c := by
    intro a b hab c hc
    rw [run_frame hc]
    refine run_congr ?_ (run_frame hc).symm
    intro d hd
    refine (run_frame ?_).symm
    intro hwrites
    exact hab d hwrites hd
  funext c
  by_cases hc : c ∈ u.writes
  · refine (hside h.1 ?_).symm
    intro hv
    exact h.1 c hv (reads_of_writes hc)
  · exact hside h.2 hc

/-! ## Visits in order -/

theorem runAll_append (first second : List (Visit S)) :
    runAll masses dt (first ++ second) σ =
      runAll masses dt second (runAll masses dt first σ) := List.foldl_append

theorem runAll_frame {visits : List (Visit S)} {c : Cell} (h : ∀ v ∈ visits, c ∉ v.writes) :
    runAll masses dt visits σ c = σ c := by
  induction visits generalizing σ with
  | nil => rfl
  | cons v rest ih =>
    refine (ih fun u hu => h u (List.mem_cons_of_mem v hu)).trans ?_
    exact run_frame (h v List.mem_cons_self)

/-- A list of visits, several times over. -/
theorem runAll_replicate (visits : List (Visit S)) (n : Nat) :
    runAll masses dt (List.replicate n visits).flatten σ = (runAll masses dt visits)^[n] σ := by
  induction n generalizing σ with
  | zero => rfl
  | succ n ih =>
    rw [List.replicate_succ, List.flatten_cons, runAll_append, ih, Function.iterate_succ_apply]

/-- For the cells of a set only the visits matter that stay within the set, as long as the others
stay out of it. -/
theorem runAll_filter {inside : Cell → Prop} {keep : Visit S → Bool} {visits : List (Visit S)}
    (h : ∀ v ∈ visits, keep v = true ∧ (∀ c ∈ v.reads, inside c) ∨
      keep v = false ∧ ∀ c ∈ v.writes, ¬ inside c)
    (hsame : ∀ c, inside c → σ c = τ c) {c : Cell} (hc : inside c) :
    runAll masses dt visits σ c = runAll masses dt (visits.filter keep) τ c := by
  induction visits generalizing σ τ with
  | nil => exact hsame c hc
  | cons v rest ih =>
    have hrest : ∀ u ∈ rest, _ := fun u hu => h u (List.mem_cons_of_mem v hu)
    rcases h v List.mem_cons_self with ⟨hkeep, hreads⟩ | ⟨hkeep, hwrites⟩
    · rw [List.filter_cons_of_pos hkeep]
      refine ih hrest ?_
      intro d hd
      refine run_congr ?_ (hsame d hd)
      intro e he
      exact hsame e (hreads e he)
    · rw [List.filter_cons_of_neg (Bool.eq_false_iff.mp hkeep)]
      refine ih hrest ?_
      intro d hd
      refine (run_frame ?_).trans (hsame d hd)
      intro hw
      exact hwrites d hw hd

/-- Visits that leave each other alone may be made in any order. -/
theorem runAll_perm {visits others : List (Visit S)} (h : visits.Perm others)
    (hapart : ∀ v ∈ visits, ∀ u ∈ visits, v ≠ u → v.Apart u) :
    runAll masses dt visits σ = runAll masses dt others σ := by
  refine h.foldl_eq' ?_ σ
  intro v hv u hu ρ
  by_cases heq : v = u
  · rw [heq]
  · exact run_comm (hapart v hv u hu heq)

end Visit

end TetheredParticles
