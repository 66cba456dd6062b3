import Mathlib.Logic.Function.Iterate
import TetheredParticles.Proofs.Outcome
import TetheredParticles.World.Step
/-!
# Solving without faults

Constraints that fit the particles of their island are solved without a fault. Every stage then
equals a total function, in which nothing is checked and nothing can fail.

* `Tether.Fits`, `TetherSet.Fits`, `Workspace.Fits` — constraints that fit.
* `Total.visit`, `Total.pass`, `Total.island`, … — the stages as total functions.
* `Total.island_eq` — a fitting island is solved as the total functions say, and still fits.
-/

namespace TetheredParticles

variable {S : Type} [Scalar S]

/-! ## Fitting constraints -/

/-- A tether that runs from a particle with inverse mass zero to one with a positive one. -/
structure Tether.Fits (inverseMasses : Array S) (t : Tether S) : Prop where
  anchor : ∃ w, inverseMasses[t.anchor]? = some w ∧ (w == 0) = true
  tip : ∃ w, inverseMasses[t.tip]? = some w ∧ 0 < w

/-- Fitting tethers, with one multiplier for each if there are any. -/
structure TetherSet.Fits (inverseMasses : Array S) (set : TetherSet S) : Prop where
  tethers : ∀ t ∈ set.batches.tethers, t.Fits inverseMasses
  multipliers : ∀ ms, set.multipliers? = some ms → ms.length = set.batches.size

/-- Every particle has a position and an inverse mass, and all constraints fit. -/
structure Workspace.Fits (w : Workspace S) : Prop where
  positions : w.positions.size = w.particles.size
  inverseMasses : w.inverseMasses.size = w.particles.size
  tethers : ∀ x ∈ w.tethers, x.2.Fits w.inverseMasses
  joints : ∀ x ∈ w.joints, x.2.first < w.particles.size ∧ x.2.second < w.particles.size
  suspensions : ∀ x ∈ w.suspensions, x.2.particle < w.particles.size

omit [Scalar S] in
theorem Fault.entry_eq {α : Type} {entries : Array α} {index : Nat} {a : α}
    (h : entries[index]? = some a) : Fault.entry entries index = .ok a := by
  obtain ⟨hlt, rfl⟩ := Array.getElem?_eq_some_iff.mp h
  unfold Fault.entry
  rw [dif_pos hlt]

theorem Fault.entry_of_lt {α : Type} {entries : Array α} {index : Nat} (fallback : α)
    (h : index < entries.size) : Fault.entry entries index = .ok (entries.getD index fallback) := by
  refine Fault.entry_eq ?_
  rw [Array.getD_eq_getD_getElem?, Array.getElem?_eq_getElem h, Option.getD_some]

theorem repeatAction_eq {α : Type} {action : α → Except Fault α} {total : α → α}
    {I : α → Prop} (h : ∀ a, I a → action a = .ok (total a) ∧ I (total a)) (n : Nat) {a : α}
    (ha : I a) : repeatAction action n a = .ok (total^[n] a) ∧ I (total^[n] a) := by
  induction n generalizing a with
  | zero => exact ⟨rfl, ha⟩
  | succ n ih =>
    obtain ⟨heq, hinv⟩ := h a ha
    rw [repeatAction, heq, Function.iterate_succ_apply]
    exact ih hinv

namespace Total

/-! ## Tethers -/

/-- The correction of one tether and its new multiplier. -/
def correction (rule : TetherRule S) (positions : Array (Vec3 S)) (t : Tether S)
    (multiplier : S) : Vec3 S × S :=
  let (direction, length) :=
    (positions.getD t.anchor 0 - positions.getD t.tip 0).directionAndLength
  let (distance, multiplier) := rule (t.excess length) multiplier
  (direction * distance, multiplier)

/-- Visits tethers one after the other. -/
def visit (rule : TetherRule S) :
    List (Tether S × S) → Array (Vec3 S) → List S × Array (Vec3 S)
  | [], positions => ([], positions)
  | (t, multiplier) :: rest, positions =>
    let (move, multiplier) := correction rule positions t multiplier
    let (multipliers, positions) := visit rule rest (TetherRule.correct positions t.tip move)
    (multiplier :: multipliers, positions)

/-- A pass by a fraction of the violations. -/
def project (batches : TetherBatches S) (stiffness : S) (positions : Array (Vec3 S)) :
    Array (Vec3 S) :=
  if stiffness ≤ 0 then positions
  else (visit (.plain stiffness) (batches.tethers.zip (List.replicate batches.size 0)) positions).2

/-- One projection pass over a set. -/
def apply (set : TetherSet S) (dt : S) (positions : Array (Vec3 S)) :
    TetherSet S × Array (Vec3 S) :=
  match set with
  | .pbd batches => (set, project batches batches.stiffness positions)
  | .xpbd batches multipliers =>
    match TetherSet.alpha? batches dt with
    | none => (set, positions)
    | some alpha =>
      let (multipliers, positions) :=
        visit (.compliant alpha) (batches.tethers.zip multipliers) positions
      (.xpbd batches multipliers, positions)

theorem correction_eq {rule : TetherRule S} {inverseMasses : Array S} {positions : Array (Vec3 S)}
    {t : Tether S} (ht : t.Fits inverseMasses) (hsize : positions.size = inverseMasses.size)
    (multiplier : S) :
    rule.correction inverseMasses positions t multiplier =
      .ok (correction rule positions t multiplier) := by
  obtain ⟨⟨wa, hwa, hzero⟩, wt, hwt, hpos⟩ := ht
  have hanchor : t.anchor < positions.size :=
    hsize ▸ (Array.getElem?_eq_some_iff.mp hwa).1
  have htip : t.tip < positions.size := hsize ▸ (Array.getElem?_eq_some_iff.mp hwt).1
  unfold TetherRule.correction Tether.delta
  rw [Fault.entry_eq hwa, Fault.entry_eq hwt, Fault.entry_of_lt 0 hanchor,
    Fault.entry_of_lt 0 htip]
  simp only [ok_bind, hzero, hpos, if_true]
  rfl

@[simp]
theorem size_correct (positions : Array (Vec3 S)) (index : Nat) (move : Vec3 S) :
    (TetherRule.correct positions index move).size = positions.size :=
  Array.size_modify ..

theorem size_visit (rule : TetherRule S) (tethers : List (Tether S × S))
    (positions : Array (Vec3 S)) :
    (visit rule tethers positions).2.size = positions.size ∧
      (visit rule tethers positions).1.length = tethers.length := by
  induction tethers generalizing positions with
  | nil => exact ⟨rfl, rfl⟩
  | cons x rest ih =>
    obtain ⟨hsize, hlength⟩ := ih
      (TetherRule.correct positions x.1.tip (correction rule positions x.1 x.2).1)
    refine ⟨hsize.trans (size_correct ..), ?_⟩
    rw [List.length_cons, ← hlength]
    rfl

theorem visit_eq {rule : TetherRule S} {inverseMasses : Array S} {tethers : List (Tether S × S)}
    {positions : Array (Vec3 S)} (ht : ∀ x ∈ tethers, x.1.Fits inverseMasses)
    (hsize : positions.size = inverseMasses.size) :
    rule.visit inverseMasses tethers positions = .ok (visit rule tethers positions) := by
  induction tethers generalizing positions with
  | nil => rfl
  | cons x rest ih =>
    obtain ⟨t, multiplier⟩ := x
    rw [TetherRule.visit, correction_eq (ht (t, multiplier) (by simp)) hsize]
    simp only [ok_bind]
    rw [ih (fun y hy => ht y (by simp [hy])) ((size_correct ..).trans hsize)]
    rfl

theorem visit_append (rule : TetherRule S) (first second : List (Tether S × S))
    (positions : Array (Vec3 S)) :
    visit rule (first ++ second) positions =
      ((visit rule first positions).1 ++
        (visit rule second (visit rule first positions).2).1,
        (visit rule second (visit rule first positions).2).2) := by
  induction first generalizing positions with
  | nil => rfl
  | cons x rest ih =>
    simp only [List.cons_append, visit, ih]

/-- What belongs to two lists, one after the other, is cut where the first one ends. -/
theorem zip_append {α β : Type} (first second : List α) (others : List β) :
    (first ++ second).zip others =
      first.zip (others.take first.length) ++ second.zip (others.drop first.length) := by
  rw [← List.take_append_drop first.length ((first ++ second).zip others)]
  simp only [List.zip, List.take_zipWith, List.drop_zipWith, List.take_left, List.drop_left]

/-- A pass in order visits the tethers batch by batch. -/
theorem pass_eq {rule : TetherRule S} {inverseMasses : Array S} {batches : List (List (Tether S))}
    {multipliers : List S} {positions : Array (Vec3 S)}
    (ht : ∀ t ∈ batches.flatten, t.Fits inverseMasses)
    (hlength : multipliers.length = batches.flatten.length)
    (hsize : positions.size = inverseMasses.size) :
    rule.pass .serial inverseMasses batches multipliers positions =
      .ok (visit rule (batches.flatten.zip multipliers) positions) := by
  induction batches generalizing multipliers positions with
  | nil => rfl
  | cons batch rest ih =>
    rw [List.flatten_cons] at ht hlength ⊢
    rw [List.length_append] at hlength
    have hfirst : ∀ x ∈ batch.zip (multipliers.take batch.length), x.1.Fits inverseMasses :=
      fun x hx => ht x.1 (List.mem_append_left _ (List.of_mem_zip hx).1)
    rw [TetherRule.pass, TetherRule.visitBatch, visit_eq hfirst hsize]
    simp only [ok_bind]
    rw [ih (fun t h => ht t (List.mem_append_right _ h)) (by rw [List.length_drop]; omega)
      ((size_visit ..).1.trans hsize), zip_append, visit_append]
    rfl

@[simp]
theorem size_project (batches : TetherBatches S) (stiffness : S) (positions : Array (Vec3 S)) :
    (project batches stiffness positions).size = positions.size := by
  unfold project
  split
  · rfl
  · exact (size_visit ..).1

theorem project_eq {batches : TetherBatches S} {inverseMasses : Array S}
    {positions : Array (Vec3 S)} (ht : ∀ t ∈ batches.tethers, t.Fits inverseMasses)
    (hsize : positions.size = inverseMasses.size) (stiffness : S) :
    TetherSet.project batches stiffness .serial inverseMasses positions =
      .ok (project batches stiffness positions) := by
  unfold TetherSet.project project
  split
  · rfl
  · rw [pass_eq ht (by rw [List.length_replicate]; rfl) hsize]
    rfl

theorem apply_eq {set : TetherSet S} {inverseMasses : Array S} {positions : Array (Vec3 S)}
    (hset : set.Fits inverseMasses) (hsize : positions.size = inverseMasses.size) (dt : S) :
    set.apply dt .serial inverseMasses positions = .ok (apply set dt positions) := by
  unfold TetherSet.apply apply
  cases set with
  | pbd batches =>
    have ht : ∀ t ∈ batches.tethers, t.Fits inverseMasses := hset.tethers
    dsimp only
    rw [project_eq ht hsize]
    rfl
  | xpbd batches multipliers =>
    have ht : ∀ t ∈ batches.tethers, t.Fits inverseMasses := hset.tethers
    dsimp only
    cases TetherSet.alpha? batches dt with
    | none => rfl
    | some alpha =>
      dsimp only
      rw [pass_eq ht (hset.multipliers _ rfl) hsize]
      rfl

@[simp]
theorem size_apply (set : TetherSet S) (dt : S) (positions : Array (Vec3 S)) :
    (apply set dt positions).2.size = positions.size := by
  unfold apply
  cases set with
  | pbd batches => exact size_project ..
  | xpbd batches multipliers =>
    dsimp only
    cases TetherSet.alpha? batches dt with
    | none => rfl
    | some alpha => exact (size_visit ..).1

theorem fits_apply {set : TetherSet S} {inverseMasses : Array S} (hset : set.Fits inverseMasses)
    (dt : S) (positions : Array (Vec3 S)) : (apply set dt positions).1.Fits inverseMasses := by
  unfold apply
  cases set with
  | pbd batches => exact hset
  | xpbd batches multipliers =>
    dsimp only
    cases TetherSet.alpha? batches dt with
    | none => exact hset
    | some alpha =>
      refine ⟨hset.tethers, fun ms hms => ?_⟩
      cases hms
      have hlength := hset.multipliers multipliers rfl
      rw [(size_visit ..).2, List.length_zip, hlength]
      exact Nat.min_self _

/-! ## Joints and suspensions -/

/-- One projection of a joint. -/
def joint (j : Joint S) (inverseMasses : Array S) (dt : S) (positions : Array (Vec3 S)) :
    Joint S × Array (Vec3 S) :=
  let wa := inverseMasses.getD j.first 0
  let wb := inverseMasses.getD j.second 0
  let (direction, distance) :=
    (positions.getD j.second 0 - positions.getD j.first 0).directionAndLength
  if direction == 0 then (j, positions)
  else
    let update :=
      Compliance.update j.multiplier (distance - j.restLength) [wa, wb] j.compliance dt
    let impulse := direction * update
    ({ j with multiplier := j.multiplier + update, direction := direction },
      (positions.modify j.first (· - impulse * wa)).modify j.second (· + impulse * wb))

/-- One projection of a suspension. -/
def suspension (s : Suspension S) (inverseMasses : Array S) (dt : S)
    (positions : Array (Vec3 S)) : Suspension S × Array (Vec3 S) :=
  let w := inverseMasses.getD s.particle 0
  let (direction, distance) := (positions.getD s.particle 0 - s.target).directionAndLength
  if direction == 0 then (s, positions)
  else
    let update := Compliance.update s.multiplier (distance - s.restLength) [w] s.compliance dt
    ({ s with multiplier := s.multiplier + update, direction := direction },
      positions.modify s.particle (· + direction * update * w))

theorem joint_eq {j : Joint S} {inverseMasses : Array S} {positions : Array (Vec3 S)} (dt : S)
    (hfirst : j.first < positions.size) (hsecond : j.second < positions.size)
    (hsize : positions.size = inverseMasses.size) :
    j.solve inverseMasses dt positions = .ok (joint j inverseMasses dt positions) := by
  unfold Joint.solve joint
  rw [Fault.entry_of_lt 0 (hsize ▸ hfirst), Fault.entry_of_lt 0 (hsize ▸ hsecond),
    Fault.entry_of_lt 0 hfirst, Fault.entry_of_lt 0 hsecond]
  simp only [ok_bind]
  rw [apply_ite Except.ok]
  rfl

theorem suspension_eq {s : Suspension S} {inverseMasses : Array S} {positions : Array (Vec3 S)}
    (dt : S) (hparticle : s.particle < positions.size)
    (hsize : positions.size = inverseMasses.size) :
    s.solve inverseMasses dt positions = .ok (suspension s inverseMasses dt positions) := by
  unfold Suspension.solve suspension
  rw [Fault.entry_of_lt 0 (hsize ▸ hparticle), Fault.entry_of_lt 0 hparticle]
  simp only [ok_bind]
  rw [apply_ite Except.ok]
  rfl

/-- A joint keeps its particles, its length and its compliance. -/
theorem joint_keeps (j : Joint S) (inverseMasses : Array S) (dt : S)
    (positions : Array (Vec3 S)) :
    (joint j inverseMasses dt positions).2.size = positions.size ∧
      ∃ multiplier direction, (joint j inverseMasses dt positions).1 =
        { j with multiplier, direction } := by
  unfold joint
  dsimp only
  split
  · exact ⟨rfl, _, _, rfl⟩
  · exact ⟨by rw [Array.size_modify, Array.size_modify], _, _, rfl⟩

/-- A suspension keeps its particle, its target, its length and its compliance. -/
theorem suspension_keeps (s : Suspension S) (inverseMasses : Array S) (dt : S)
    (positions : Array (Vec3 S)) :
    (suspension s inverseMasses dt positions).2.size = positions.size ∧
      ∃ multiplier direction, (suspension s inverseMasses dt positions).1 =
        { s with multiplier, direction } := by
  unfold suspension
  dsimp only
  split
  · exact ⟨rfl, _, _, rfl⟩
  · exact ⟨Array.size_modify .., _, _, rfl⟩

/-! ## Whole islands -/

/-- Visits constraints in order. -/
def visitOwned {C P : Type} (visit : C → P → C × P) :
    List (ProxyId × C) → P → List (ProxyId × C) × P
  | [], positions => ([], positions)
  | (owner, c) :: rest, positions =>
    let (c, positions) := visit c positions
    let (others, positions) := visitOwned visit rest positions
    ((owner, c) :: others, positions)

/-- One projection of every tether. -/
def applyTethers (dt : S) (w : Workspace S) : Workspace S :=
  let (tethers, positions) :=
    visitOwned (fun set positions => apply set dt positions) w.tethers w.positions
  { w with tethers, positions }

/-- One projection of every joint, then of every suspension. -/
def solveJoints (dt : S) (w : Workspace S) : Workspace S :=
  let (joints, positions) :=
    visitOwned (fun j ps => joint j w.inverseMasses dt ps) w.joints w.positions
  let (suspensions, positions) :=
    visitOwned (fun s ps => suspension s w.inverseMasses dt ps) w.suspensions positions
  { w with joints, suspensions, positions }

/-- One pass over all constraints. -/
def pass (config : Config S) (dt : S) (w : Workspace S) : Workspace S :=
  (solveJoints dt)^[config.jointIterations.toNat] (applyTethers dt w)

/-- All projection passes. -/
def solve (config : Config S) (dt : S) (w : Workspace S) : Workspace S :=
  let w := (pass config dt)^[config.positionIterations.toNat] w.restart
  { w with solved := w.positions }

/-- One rigid pass over every tether. -/
def rigidPass (w : Workspace S) : Workspace S :=
  { w with
    positions := w.tethers.foldl (fun positions x => project x.2.batches 1 positions) w.positions }

/-- Everything a step does to an island. -/
def island (config : Config S) (store : ParticleStore S) (dt : S) (w : Workspace S) :
    Workspace S :=
  rigidPass^[config.pushOutIterations.toNat] (solve config dt (w.gather store))

theorem visitOwned_eq {C P : Type} {V : C → P → Except Fault (C × P)}
    {total : C → P → C × P} {F : C → Prop} {I : P → Prop}
    (h : ∀ c p, F c → I p → V c p = .ok (total c p) ∧ I (total c p).2)
    {owned : List (ProxyId × C)} {p : P} (hfits : ∀ x ∈ owned, F x.2) (hp : I p) :
    TetheredParticles.visitOwned V owned p = .ok (visitOwned total owned p) ∧
      I (visitOwned total owned p).2 := by
  induction owned generalizing p with
  | nil => exact ⟨rfl, hp⟩
  | cons x rest ih =>
    obtain ⟨owner, c⟩ := x
    obtain ⟨heq, hinv⟩ := h c p (hfits (owner, c) (by simp)) hp
    obtain ⟨hrest, hlast⟩ := ih (fun y hy => hfits y (List.mem_cons_of_mem _ hy)) hinv
    refine ⟨?_, hlast⟩
    rw [TetheredParticles.visitOwned, heq]
    simp only [ok_bind]
    rw [hrest]
    rfl

theorem mem_visitOwned {C P : Type} {total : C → P → C × P} {F : C → Prop}
    (h : ∀ c p, F c → F (total c p).1) {owned : List (ProxyId × C)} {p : P}
    (hfits : ∀ x ∈ owned, F x.2) : ∀ x ∈ (visitOwned total owned p).1, F x.2 := by
  induction owned generalizing p with
  | nil => exact hfits
  | cons y rest ih =>
    intro x hx
    rcases List.mem_cons.mp hx with rfl | hx
    · exact h y.2 p (hfits y (by simp))
    · exact ih (fun z hz => hfits z (List.mem_cons_of_mem _ hz)) x hx

theorem map_visitOwned {C P : Type} {total : C → P → C × P} {blank : C → C}
    (h : ∀ c p, blank (total c p).1 = blank c) (owned : List (ProxyId × C)) (p : P) :
    (visitOwned total owned p).1.map (Prod.map id blank) = owned.map (Prod.map id blank) := by
  induction owned generalizing p with
  | nil => rfl
  | cons x rest ih =>
    rw [List.map_cons, ← ih (total x.2 p).2, visitOwned, List.map_cons]
    exact congrArg (· :: _) (Prod.ext rfl (h x.2 p))

end Total

/-! ## What solving keeps -/

/-- The joint before it was solved for the first time. -/
def Joint.blank (j : Joint S) : Joint S := { j with multiplier := 0, direction := 0 }

/-- The suspension before it was solved for the first time. -/
def Suspension.blank (s : Suspension S) : Suspension S := { s with multiplier := 0, direction := 0 }

/-- The workspace before it was solved for the first time. -/
def Workspace.blank (w : Workspace S) : Workspace S where
  particles := w.particles
  tethers := w.tethers.map (Prod.map id TetherSet.restart)
  joints := w.joints.map (Prod.map id Joint.blank)
  suspensions := w.suspensions.map (Prod.map id Suspension.blank)

/-- A workspace that fits and has the constraints and inverse masses of another one. -/
structure Workspace.Continues (start w : Workspace S) : Prop where
  fits : w.Fits
  blank : w.blank = start.blank
  inverseMasses : w.inverseMasses = start.inverseMasses

theorem Workspace.Fits.continues {w : Workspace S} (h : w.Fits) : w.Continues w := ⟨h, rfl, rfl⟩

theorem Workspace.Continues.particles {start w : Workspace S} (h : start.Continues w) :
    w.particles = start.particles := by
  show w.blank.particles = start.blank.particles
  rw [h.blank]

/-- Workspaces that differ at most in what they remember have constraints of the same owners. -/
theorem Workspace.owners_of_blank {a b : Workspace S} (h : a.blank = b.blank) :
    a.tethers.map (·.1) = b.tethers.map (·.1) ∧ a.joints.map (·.1) = b.joints.map (·.1) ∧
      a.suspensions.map (·.1) = b.suspensions.map (·.1) := by
  have hblank : ∀ w : Workspace S, w.blank.tethers.map (·.1) = w.tethers.map (·.1) ∧
      w.blank.joints.map (·.1) = w.joints.map (·.1) ∧
      w.blank.suspensions.map (·.1) = w.suspensions.map (·.1) :=
    fun w => ⟨List.map_map, List.map_map, List.map_map⟩
  rcases hblank a with ⟨hone, htwo, hthree⟩
  rw [← hone, ← htwo, ← hthree, h]
  exact hblank b

theorem Joint.blank_joint (j : Joint S) (inverseMasses : Array S) (dt : S)
    (positions : Array (Vec3 S)) : (Total.joint j inverseMasses dt positions).1.blank = j.blank := by
  obtain ⟨_, multiplier, direction, h⟩ := Total.joint_keeps j inverseMasses dt positions
  rw [h]
  rfl

theorem Suspension.blank_suspension (s : Suspension S) (inverseMasses : Array S) (dt : S)
    (positions : Array (Vec3 S)) :
    (Total.suspension s inverseMasses dt positions).1.blank = s.blank := by
  obtain ⟨_, multiplier, direction, h⟩ := Total.suspension_keeps s inverseMasses dt positions
  rw [h]
  rfl

theorem TetherSet.batches_restart (set : TetherSet S) :
    set.restart.batches = set.batches := by
  cases set <;> rfl

theorem TetherSet.restart_restart (set : TetherSet S) : set.restart.restart = set.restart := by
  cases set <;> rfl

/-- Copying particles and resetting multipliers only touches what solving changes anyway. -/
theorem Workspace.blank_restart (w : Workspace S) : w.restart.blank = w.blank := by
  unfold Workspace.blank Workspace.restart
  simp only [List.map_map]
  congr 1
  exact List.map_congr_left fun x _ => Prod.ext rfl x.2.restart_restart

theorem TetherSet.restart_apply (set : TetherSet S) (dt : S) (positions : Array (Vec3 S)) :
    (Total.apply set dt positions).1.restart = set.restart := by
  unfold Total.apply
  cases set with
  | pbd batches => rfl
  | xpbd batches multipliers =>
    dsimp only
    cases TetherSet.alpha? batches dt with
    | none => rfl
    | some alpha => rfl

namespace Total

variable {start w : Workspace S}

theorem applyTethers_eq (h : start.Continues w) (dt : S) :
    w.applyTethers dt .serial = .ok (applyTethers dt w) ∧
      start.Continues (applyTethers dt w) := by
  obtain ⟨hfits, hblank, hmasses⟩ := h
  have hsize : w.positions.size = w.inverseMasses.size :=
    hfits.positions.trans hfits.inverseMasses.symm
  obtain ⟨heq, hpositions⟩ := visitOwned_eq
    (V := fun set positions => TetherSet.apply set dt .serial w.inverseMasses positions)
    (I := fun positions => positions.size = w.inverseMasses.size)
    (fun set positions hset hsize =>
      ⟨apply_eq hset hsize dt, (size_apply set dt positions).trans hsize⟩) hfits.tethers hsize
  refine ⟨?_, ⟨?_, hfits.inverseMasses, ?_, hfits.joints, hfits.suspensions⟩, ?_, hmasses⟩
  · unfold Workspace.applyTethers
    rw [heq]
    rfl
  · exact hpositions.trans hfits.inverseMasses
  · exact mem_visitOwned (F := fun set => TetherSet.Fits w.inverseMasses set)
      (fun set positions hset => fits_apply hset dt positions) hfits.tethers
  · rw [← hblank]
    unfold Workspace.blank applyTethers
    rw [map_visitOwned fun set positions => set.restart_apply dt positions]

theorem solveJoints_eq (h : start.Continues w) (dt : S) :
    w.solveJoints dt = .ok (solveJoints dt w) ∧ start.Continues (solveJoints dt w) := by
  obtain ⟨hfits, hblank, hmasses⟩ := h
  have hsize : w.positions.size = w.inverseMasses.size :=
    hfits.positions.trans hfits.inverseMasses.symm
  -- positions stay as many as masses through every visit, which is what indexing needs
  obtain ⟨hjoints, hpositions⟩ := visitOwned_eq
    (V := fun j positions => Joint.solve j w.inverseMasses dt positions)
    (F := fun j => j.first < w.particles.size ∧ j.second < w.particles.size)
    (I := fun positions => positions.size = w.inverseMasses.size)
    (fun j positions hj hsize => by
      have hparticles := hsize.trans hfits.inverseMasses
      exact ⟨joint_eq dt (hparticles ▸ hj.1) (hparticles ▸ hj.2) hsize,
        (joint_keeps ..).1.trans hsize⟩) hfits.joints hsize
  obtain ⟨hsuspensions, hpositions⟩ := visitOwned_eq
    (V := fun s positions => Suspension.solve s w.inverseMasses dt positions)
    (F := fun s => s.particle < w.particles.size)
    (I := fun positions => positions.size = w.inverseMasses.size)
    (fun s positions hs hsize => by
      have hparticles := hsize.trans hfits.inverseMasses
      exact ⟨suspension_eq dt (hparticles ▸ hs) hsize, (suspension_keeps ..).1.trans hsize⟩)
    hfits.suspensions hpositions
  refine ⟨?_, ⟨?_, hfits.inverseMasses, hfits.tethers, ?_, ?_⟩, ?_, hmasses⟩
  · unfold Workspace.solveJoints
    rw [hjoints]
    simp only [ok_bind]
    rw [hsuspensions]
    rfl
  · exact hpositions.trans hfits.inverseMasses
  · refine mem_visitOwned (F := fun j : Joint S =>
      j.first < w.particles.size ∧ j.second < w.particles.size) (fun j positions hj => ?_)
      hfits.joints
    obtain ⟨_, multiplier, direction, h⟩ := joint_keeps j w.inverseMasses dt positions
    rw [h]
    exact hj
  · refine mem_visitOwned (F := fun s : Suspension S => s.particle < w.particles.size)
      (fun s positions hs => ?_) hfits.suspensions
    obtain ⟨_, multiplier, direction, h⟩ := suspension_keeps s w.inverseMasses dt positions
    rw [h]
    exact hs
  · rw [← hblank]
    unfold Workspace.blank solveJoints
    rw [map_visitOwned fun j positions => j.blank_joint w.inverseMasses dt positions,
      map_visitOwned fun s positions => s.blank_suspension w.inverseMasses dt positions]

theorem passes_eq (h : start.Continues w) (config : Config S) (dt : S) :
    Workspace.pass config dt .serial w = .ok (pass config dt w) ∧
      start.Continues (pass config dt w) := by
  obtain ⟨heq, hw⟩ := applyTethers_eq h dt
  unfold Workspace.pass
  rw [heq]
  exact repeatAction_eq (I := start.Continues) (fun a ha => solveJoints_eq ha dt) _ hw

theorem solve_eq (h : w.restart.Fits) (config : Config S) (dt : S) :
    w.solve config dt .serial = .ok (solve config dt w) ∧
      w.restart.Continues (solve config dt w) ∧
        (solve config dt w).solved.size = w.particles.size := by
  obtain ⟨heq, hw⟩ := repeatAction_eq (I := w.restart.Continues)
    (fun a ha => passes_eq ha config dt)
    config.positionIterations.toNat h.continues
  have hfits := hw.fits
  refine ⟨?_, ⟨⟨hfits.positions, hfits.inverseMasses, hfits.tethers, hfits.joints,
    hfits.suspensions⟩, hw.blank, hw.inverseMasses⟩, ?_⟩
  · unfold Workspace.solve
    rw [heq]
    rfl
  · exact hfits.positions.trans (congrArg Array.size hw.particles)

theorem rigidPass_eq (h : start.Continues w) :
    Workspace.rigidPass .serial w = .ok (rigidPass w) ∧ start.Continues (rigidPass w) ∧
      (rigidPass w).solved = w.solved := by
  obtain ⟨hfits, hblank, hmasses⟩ := h
  have hfold : ∀ (sets : List (ProxyId × TetherSet S)) (positions : Array (Vec3 S)),
      (∀ x ∈ sets, x.2.Fits w.inverseMasses) → positions.size = w.inverseMasses.size →
      sets.foldlM (fun positions x => x.2.applyRigid .serial w.inverseMasses positions)
          positions =
        .ok (sets.foldl (fun positions x => project x.2.batches 1 positions) positions) ∧
      (sets.foldl (fun positions x => project x.2.batches 1 positions) positions).size =
        w.inverseMasses.size := by
    intro sets
    induction sets with
    | nil => exact fun _ _ hsize => ⟨rfl, hsize⟩
    | cons x rest ih =>
      intro positions hsets hsize
      rw [List.foldlM_cons, List.foldl_cons, TetherSet.applyRigid,
        project_eq (hsets x (by simp)).tethers hsize]
      exact ih _ (fun y hy => hsets y (List.mem_cons_of_mem _ hy)) ((size_project ..).trans hsize)
  obtain ⟨heq, hsize⟩ := hfold w.tethers w.positions hfits.tethers
    (hfits.positions.trans hfits.inverseMasses.symm)
  refine ⟨?_, ⟨⟨hsize.trans hfits.inverseMasses, hfits.inverseMasses, hfits.tethers,
    hfits.joints, hfits.suspensions⟩, hblank, hmasses⟩, rfl⟩
  unfold Workspace.rigidPass
  rw [heq]
  rfl

/-- A fitting island is solved without a fault. It keeps its particles and constraints, and every
particle has a position before and after the rigid passes. -/
theorem island_eq {config : Config S} {store : ParticleStore S} (h : (w.gather store).restart.Fits)
    (dt : S) :
    World.solveIsland config store dt w = .ok (island config store dt w) ∧
      (island config store dt w).blank = w.blank ∧
      (island config store dt w).positions.size = w.particles.size ∧
      (island config store dt w).solved.size = w.particles.size := by
  obtain ⟨hsolve, hcontinues, hsolved⟩ := solve_eq h config dt
  obtain ⟨hpush, hlast, hsame⟩ := repeatAction_eq
    (I := fun a => (w.gather store).restart.Continues a ∧
      a.solved = (solve config dt (w.gather store)).solved)
    (fun a ha => by
      obtain ⟨heq, hnext, hkeep⟩ := rigidPass_eq ha.1
      exact ⟨heq, hnext, hkeep.trans ha.2⟩) config.pushOutIterations.toNat ⟨hcontinues, rfl⟩
  have hparticles := hlast.particles
  refine ⟨?_, hlast.blank.trans ?_, ?_, ?_⟩
  · unfold World.solveIsland
    rw [hsolve]
    exact hpush
  · exact Workspace.blank_restart (w.gather store)
  · exact hlast.fits.positions.trans (congrArg Array.size hparticles)
  · exact (congrArg Array.size hsame).trans hsolved

end Total

end TetheredParticles
