import TetheredParticles.Proofs.Vec3
import TetheredParticles.Proofs.Island.Total
/-!
# Forgotten directions

A joint keeps the direction in which it pulled last, and a joint whose particles are not apart is
left as it is. The direction is then of an earlier step, and the multiplier is zero. An island that
has forgotten some directions is solved to the same places, and its forces are the same numbers.

* `Joint.Fades`, `Suspension.Fades`, `Workspace.Fades` — the same but for forgotten directions.
* `Workspace.Fades.island` — islands are solved alike.
* `Workspace.Fades.forces` — forces are the same numbers.
-/

namespace TetheredParticles

variable {S : Type} [Scalar S]

/-! ## Joints and suspensions -/

/-- No direction, or the direction of a vector. -/
def Vec3.IsDirection (d : Vec3 S) : Prop := d = 0 ∨ ∃ v : Vec3 S, d = v.directionAndLength.1

/-- The second joint is the first one, but may have forgotten a direction in which it does not
pull. -/
structure Joint.Fades (j k : Joint S) : Prop where
  same : k = { j with direction := k.direction }
  aim : j.direction.IsDirection
  direction : k.direction = j.direction ∨ k.direction = 0 ∧ j.multiplier = 0

/-- The second suspension is the first one, but may have forgotten a direction in which it does not
pull. -/
structure Suspension.Fades (s t : Suspension S) : Prop where
  same : t = { s with direction := t.direction }
  aim : s.direction.IsDirection
  direction : t.direction = s.direction ∨ t.direction = 0 ∧ s.multiplier = 0

theorem Joint.Fades.joint {j k : Joint S} (h : j.Fades k) (inverseMasses : Array S) (dt : S)
    (positions : Array (Vec3 S)) :
    (Total.joint k inverseMasses dt positions).2 = (Total.joint j inverseMasses dt positions).2 ∧
      (Total.joint j inverseMasses dt positions).1.Fades
        (Total.joint k inverseMasses dt positions).1 := by
  rcases k with ⟨first, second, restLength, compliance, multiplier, direction⟩
  rcases h with ⟨hsame, haim, hdirection⟩
  cases hsame
  unfold Total.joint
  dsimp only
  split
  case isTrue => exact ⟨rfl, rfl, haim, hdirection⟩
  case isFalse => exact ⟨rfl, rfl, .inr ⟨_, rfl⟩, .inl rfl⟩

theorem Suspension.Fades.suspension {s t : Suspension S} (h : s.Fades t)
    (inverseMasses : Array S) (dt : S) (positions : Array (Vec3 S)) :
    (Total.suspension t inverseMasses dt positions).2 =
        (Total.suspension s inverseMasses dt positions).2 ∧
      (Total.suspension s inverseMasses dt positions).1.Fades
        (Total.suspension t inverseMasses dt positions).1 := by
  rcases t with ⟨particle, target, restLength, compliance, multiplier, direction⟩
  rcases h with ⟨hsame, haim, hdirection⟩
  cases hsame
  unfold Total.suspension
  dsimp only
  split
  case isTrue => exact ⟨rfl, rfl, haim, hdirection⟩
  case isFalse => exact ⟨rfl, rfl, .inr ⟨_, rfl⟩, .inl rfl⟩

/-- A forgotten direction in which nothing pulls does not show in a force. -/
theorem Compliance.same_force [LawfulDirections S] {multiplier : S} {d e : Vec3 S} (dt : S)
    (haim : d.IsDirection) (h : e = d ∨ e = 0 ∧ multiplier = 0) :
    (Compliance.force multiplier d dt).Same (Compliance.force multiplier e dt) := by
  unfold Compliance.force
  split
  · exact .refl _
  · rcases h with rfl | ⟨rfl, rfl⟩
    · exact .refl _
    · rcases haim with rfl | ⟨v, rfl⟩
      · exact .refl _
      · exact LawfulDirections.still v dt

/-! ## Memories -/

/-- The directions of joints and of suspensions, with their owners. -/
def Workspace.memory (ws : Workspace S) : List (ProxyId × Vec3 S) × List (ProxyId × Vec3 S) :=
  (ws.joints.map fun x => (x.1, x.2.direction), ws.suspensions.map fun x => (x.1, x.2.direction))

/-- The second direction is the first one or none. -/
structure Memory.FadedEntry (x y : ProxyId × Vec3 S) : Prop where
  owner : y.1 = x.1
  aim : x.2.IsDirection
  direction : y.2 = x.2 ∨ y.2 = 0

/-- Some directions of the first memory are missing in the second one. -/
structure Memory.Faded (m n : List (ProxyId × Vec3 S) × List (ProxyId × Vec3 S)) : Prop where
  joints : List.Forall₂ Memory.FadedEntry m.1 n.1
  suspensions : List.Forall₂ Memory.FadedEntry m.2 n.2

namespace Memory

/-- Every direction of a memory is one or none. -/
def Aimed (m : List (ProxyId × Vec3 S) × List (ProxyId × Vec3 S)) : Prop :=
  ∀ x ∈ m.1 ++ m.2, x.2.IsDirection

theorem Faded.aimed {m n : List (ProxyId × Vec3 S) × List (ProxyId × Vec3 S)} (h : Faded m n) :
    Aimed m := by
  intro x hx
  rcases List.mem_append.mp hx with hx | hx
  · obtain ⟨y, _, hxy⟩ := exists_of_forall₂ h.joints hx
    exact hxy.aim
  · obtain ⟨y, _, hxy⟩ := exists_of_forall₂ h.suspensions hx
    exact hxy.aim

/-- An island that has not been solved remembers no direction. -/
theorem eq_zero_of_blank {ws : Workspace S} {x : ProxyId × Vec3 S}
    (hx : x ∈ ws.blank.memory.1 ++ ws.blank.memory.2) : x.2 = 0 := by
  rcases List.mem_append.mp hx with hx | hx
  · obtain ⟨y, hy, rfl⟩ := List.mem_map.mp hx
    obtain ⟨z, _, rfl⟩ := List.mem_map.mp hy
    rfl
  · obtain ⟨y, hy, rfl⟩ := List.mem_map.mp hx
    obtain ⟨z, _, rfl⟩ := List.mem_map.mp hy
    rfl

/-- Before an island was solved for the first time, all its directions were missing. -/
theorem faded_blank {ws : Workspace S} (h : Aimed ws.memory) : Faded ws.memory ws.blank.memory := by
  constructor
  · unfold Workspace.memory Workspace.blank
    dsimp only
    rw [List.map_map, List.forall₂_map_left_iff, List.forall₂_map_right_iff]
    refine List.forall₂_same.mpr fun x hx => ⟨rfl, ?_, .inr rfl⟩
    exact h _ (List.mem_append_left _ (List.mem_map.mpr ⟨x, hx, rfl⟩))
  · unfold Workspace.memory Workspace.blank
    dsimp only
    rw [List.map_map, List.forall₂_map_left_iff, List.forall₂_map_right_iff]
    refine List.forall₂_same.mpr fun x hx => ⟨rfl, ?_, .inr rfl⟩
    exact h _ (List.mem_append_right _ (List.mem_map.mpr ⟨x, hx, rfl⟩))

end Memory

/-! ## Whole islands -/

/-- Constraints of the same owners that are related one by one. -/
def Owned {C : Type} (R : C → C → Prop) : List (ProxyId × C) → List (ProxyId × C) → Prop :=
  List.Forall₂ fun x y => y.1 = x.1 ∧ R x.2 y.2

/-- The second island is the first one, but may have forgotten directions in which nothing
pulls. -/
structure Workspace.Fades (a b : Workspace S) : Prop where
  particles : b.particles = a.particles
  tethers : b.tethers = a.tethers
  positions : b.positions = a.positions
  inverseMasses : b.inverseMasses = a.inverseMasses
  joints : Owned Joint.Fades a.joints b.joints
  suspensions : Owned Suspension.Fades a.suspensions b.suspensions

theorem Total.visitOwned_rel {C P : Type} (total : C → P → C × P) {R : C → C → Prop}
    (h : ∀ c d p, R c d → (total d p).2 = (total c p).2 ∧ R (total c p).1 (total d p).1)
    {owned others : List (ProxyId × C)} (hrel : Owned R owned others) (p : P) :
    (visitOwned total others p).2 = (visitOwned total owned p).2 ∧
      Owned R (visitOwned total owned p).1 (visitOwned total others p).1 := by
  induction hrel generalizing p with
  | nil => exact ⟨rfl, .nil⟩
  | @cons x y xs ys hxy _ ih =>
    rcases x with ⟨owner, c⟩
    rcases y with ⟨proxy, d⟩
    rcases hxy with ⟨howner, hcd⟩
    dsimp only at howner hcd
    subst howner
    rcases h c d p hcd with ⟨hp, hfirst⟩
    rcases ih (total c p).2 with ⟨hlast, hrest⟩
    unfold visitOwned
    dsimp only
    rw [hp]
    exact ⟨hlast, .cons ⟨rfl, hfirst⟩ hrest⟩

/-- What one action keeps of two values, its repetitions keep. -/
theorem iterate_rel {A : Type} {R : A → A → Prop} {f : A → A} (h : ∀ a b, R a b → R (f a) (f b))
    (n : Nat) {a b : A} (hab : R a b) : R (f^[n] a) (f^[n] b) := by
  induction n generalizing a b with
  | zero => exact hab
  | succ n ih => exact ih (h a b hab)

namespace Workspace.Fades

variable {a b : Workspace S}

theorem applyTethers (h : a.Fades b) (dt : S) :
    (Total.applyTethers dt a).Fades (Total.applyTethers dt b) := by
  refine ⟨h.particles, ?_, ?_, h.inverseMasses, h.joints, h.suspensions⟩
  · unfold Total.applyTethers
    rw [h.tethers, h.positions]
  · unfold Total.applyTethers
    rw [h.tethers, h.positions]

theorem solveJoints (h : a.Fades b) (dt : S) :
    (Total.solveJoints dt a).Fades (Total.solveJoints dt b) := by
  obtain ⟨hmiddle, hjoints⟩ := Total.visitOwned_rel
    (fun j ps => Total.joint j a.inverseMasses dt ps)
    (fun j k ps hjk => hjk.joint a.inverseMasses dt ps) h.joints a.positions
  obtain ⟨hlast, hsuspensions⟩ := Total.visitOwned_rel
    (fun s ps => Total.suspension s a.inverseMasses dt ps)
    (fun s t ps hst => hst.suspension a.inverseMasses dt ps) h.suspensions
    (Total.visitOwned (fun j ps => Total.joint j a.inverseMasses dt ps) a.joints a.positions).2
  unfold Total.solveJoints
  rw [h.positions, h.inverseMasses]
  dsimp only
  rw [hmiddle]
  exact ⟨h.particles, h.tethers, hlast, rfl, hjoints, hsuspensions⟩

theorem pass (h : a.Fades b) (config : Config S) (dt : S) :
    (Total.pass config dt a).Fades (Total.pass config dt b) :=
  iterate_rel (fun _ _ h => h.solveJoints dt) _ (h.applyTethers dt)

theorem rigidPass (h : a.Fades b) : (Total.rigidPass a).Fades (Total.rigidPass b) := by
  refine ⟨h.particles, h.tethers, ?_, h.inverseMasses, h.joints, h.suspensions⟩
  unfold Total.rigidPass
  rw [h.tethers, h.positions]

theorem solved_rigidPasses (n : Nat) (a : Workspace S) :
    (Total.rigidPass^[n] a).solved = a.solved := by
  induction n generalizing a with
  | zero => rfl
  | succ n ih => exact ih (Total.rigidPass a)

/-- Islands that fade once they have started a step are solved alike and still fade. -/
theorem island {config : Config S} {store : ParticleStore S}
    (h : (a.gather store).restart.Fades (b.gather store).restart) (dt : S) :
    (Total.island config store dt a).Fades (Total.island config store dt b) ∧
      (Total.island config store dt b).solved = (Total.island config store dt a).solved := by
  have hpasses := iterate_rel (fun _ _ h => h.pass config dt) config.positionIterations.toNat h
  have hsolve : (Total.solve config dt (a.gather store)).Fades
      (Total.solve config dt (b.gather store)) :=
    ⟨hpasses.particles, hpasses.tethers, hpasses.positions, hpasses.inverseMasses, hpasses.joints,
      hpasses.suspensions⟩
  refine ⟨iterate_rel (fun _ _ h => h.rigidPass) _ hsolve, ?_⟩
  unfold Total.island
  rw [solved_rigidPasses, solved_rigidPasses]
  exact hpasses.positions

/-- Constraints that are the same but for what they remember are related once they have started a
step, if their directions have faded. -/
theorem owned_restart {C : Type} {blank restart : C → C} {direction : C → Vec3 S} {R : C → C → Prop}
    (h : ∀ c d, blank c = blank d → (direction c).IsDirection →
      (direction d = direction c ∨ direction d = 0) → R (restart c) (restart d))
    {xs ys : List (ProxyId × C)}
    (hsame : xs.map (Prod.map id blank) = ys.map (Prod.map id blank))
    (hmemory : List.Forall₂ Memory.FadedEntry (xs.map fun x => (x.1, direction x.2))
      (ys.map fun x => (x.1, direction x.2))) :
    Owned R (xs.map fun x => (x.1, restart x.2)) (ys.map fun x => (x.1, restart x.2)) := by
  rw [← List.forall₂_eq_eq_eq, List.forall₂_map_left_iff, List.forall₂_map_right_iff] at hsame
  rw [List.forall₂_map_left_iff, List.forall₂_map_right_iff] at hmemory
  unfold Owned
  rw [List.forall₂_map_left_iff, List.forall₂_map_right_iff]
  refine hsame.mp ?_ hmemory
  intro x y hxy hentry
  exact ⟨hentry.owner, h x.2 y.2 (congrArg Prod.snd hxy) hentry.aim hentry.direction⟩

/-- Islands with the same constraints fade once they have started a step, if their directions have
faded before. -/
theorem of_memory (hblank : b.blank = a.blank) (hmemory : Memory.Faded a.memory b.memory)
    (store : ParticleStore S) : (a.gather store).restart.Fades (b.gather store).restart := by
  have hparticles : b.particles = a.particles := by
    show b.blank.particles = a.blank.particles
    rw [hblank]
  refine ⟨hparticles, ?_, ?_, ?_, ?_, ?_⟩
  · show b.blank.tethers = a.blank.tethers
    rw [hblank]
  · show b.particles.map _ = a.particles.map _
    rw [hparticles]
  · show b.particles.map _ = a.particles.map _
    rw [hparticles]
  · refine owned_restart ?_ (congrArg Workspace.joints hblank.symm) hmemory.joints
    rintro ⟨first, second, restLength, compliance, multiplier, direction⟩ k hjk haim hdirection
    cases k
    cases hjk
    exact ⟨rfl, haim, hdirection.imp_right fun hzero => ⟨hzero, rfl⟩⟩
  · refine owned_restart ?_ (congrArg Workspace.suspensions hblank.symm) hmemory.suspensions
    rintro ⟨particle, target, restLength, compliance, multiplier, direction⟩ t hst haim hdirection
    cases t
    cases hst
    exact ⟨rfl, haim, hdirection.imp_right fun hzero => ⟨hzero, rfl⟩⟩

/-- Directions of islands that fade have faded. -/
theorem memory (h : a.Fades b) : Memory.Faded a.memory b.memory := by
  refine ⟨?_, ?_⟩
  · unfold Workspace.memory
    rw [List.forall₂_map_left_iff, List.forall₂_map_right_iff]
    exact h.joints.imp fun x y ⟨howner, hxy⟩ => ⟨howner, hxy.aim, hxy.direction.imp_right And.left⟩
  · unfold Workspace.memory
    rw [List.forall₂_map_left_iff, List.forall₂_map_right_iff]
    exact h.suspensions.imp fun x y ⟨howner, hxy⟩ =>
      ⟨howner, hxy.aim, hxy.direction.imp_right And.left⟩

/-- The forces of both islands are the same numbers. -/
theorem forces [LawfulDirections S] (h : a.Fades b) (dt : S) :
    Owned Vec3.Same (a.constraintForces dt) (b.constraintForces dt) := by
  refine List.rel_append ?_ ?_
  · rw [List.forall₂_map_left_iff, List.forall₂_map_right_iff]
    refine h.joints.imp ?_
    rintro x y ⟨howner, hsame, haim, hdirection⟩
    refine ⟨howner, ?_⟩
    show (Compliance.force x.2.multiplier x.2.direction dt).Same
      (Compliance.force y.2.multiplier y.2.direction dt)
    rw [hsame]
    exact Compliance.same_force dt haim hdirection
  · rw [List.forall₂_map_left_iff, List.forall₂_map_right_iff]
    refine h.suspensions.imp ?_
    rintro x y ⟨howner, hsame, haim, hdirection⟩
    refine ⟨howner, ?_⟩
    show (Compliance.force x.2.multiplier x.2.direction dt).Same
      (Compliance.force y.2.multiplier y.2.direction dt)
    rw [hsame]
    exact Compliance.same_force dt haim hdirection

end Workspace.Fades

end TetheredParticles
