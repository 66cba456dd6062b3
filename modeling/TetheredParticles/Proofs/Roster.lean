import Mathlib.Logic.Function.Basic
import TetheredParticles.Proofs.World.Invariant
import TetheredParticles.Proxy
/-!
# Rosters

A roster says which proxies exist and which handles they hold. Producer and world keep one each in
their own way; deltas lead from one roster to the next, if they refer to what exists.

* `Held`, `Roster` — what is held, and by whom.
* `Roster.Accepts`, `Roster.after` — whether a roster admits a delta, and where it leads.
* `Roster.Valid` — no slot is held twice, and constraints act on particles that are held.
-/

namespace TetheredParticles

variable {S : Type}

/-- The handles that a proxy holds, and those that a constraint acts on. -/
inductive Held where
  | particle (handle : ParticleHandle)
  | cluster (handles : List ParticleHandle)
  | joint (handle : ConstraintHandle) (first second : ParticleHandle)
  | suspension (handle : ConstraintHandle) (particle : ParticleHandle)
deriving DecidableEq

namespace Held

/-- The particles of a proxy, if it owns any. -/
def members? : Held → Option (List ParticleHandle)
  | .particle handle => some [handle]
  | .cluster handles => some handles
  | _ => none

/-- The particles that are held. -/
def owned (x : Held) : List ParticleHandle := x.members?.getD []

/-- The particles that a constraint acts on. -/
def uses : Held → List ParticleHandle
  | .joint _ first second => [first, second]
  | .suspension _ h => [h]
  | _ => []

/-- The handle of a constraint. -/
def constraint? : Held → Option ConstraintHandle
  | .joint handle .. => some handle
  | .suspension handle _ => some handle
  | _ => none

/-- The particles of a cluster. -/
def cluster? : Held → Option (List ParticleHandle)
  | .cluster handles => some handles
  | _ => none

/-- The handle and the particles of a joint. -/
def joint? : Held → Option (ConstraintHandle × ParticleHandle × ParticleHandle)
  | .joint handle first second => some (handle, first, second)
  | _ => none

/-- The handle and the particle of a suspension. -/
def suspension? : Held → Option (ConstraintHandle × ParticleHandle)
  | .suspension handle h => some (handle, h)
  | _ => none

end Held

/-- What a creation is going to hold. -/
def Creation.held : Creation S → Held
  | .particle handle _ => .particle handle
  | .cluster handles .. => .cluster handles
  | .joint handle first second .. => .joint handle first second
  | .suspension handle h .. => .suspension handle h

/-- The list of handles of a new cluster is as long as its list of particles. -/
def Creation.Matched : Creation S → Prop
  | .cluster handles particles .. => handles.length = particles.length
  | _ => True

/-- Whether a write edits what exists already. -/
def Command.IsEdit : Command S → Prop
  | .create _ | .destroy => False
  | _ => True

/-- The particle that a write changes, if it is one. -/
def Command.target? : Command S → Option ParticleHandle
  | .setPosition particle _ => some particle
  | .setVelocity particle _ => some particle
  | .setKinematicTarget particle _ => some particle
  | .addForce particle _ => some particle
  | .setInverseMass particle _ => some particle
  | _ => none

/-- The handles that each existing proxy holds. -/
abbrev Roster := ProxyId → Option Held

namespace Roster

/-- The roster without proxies. -/
def empty : Roster := fun _ => none

/-- A particle is held by some proxy. -/
def Owns (R : Roster) (h : ParticleHandle) : Prop := ∃ id x, R id = some x ∧ h ∈ x.owned

/-- What a write to an existing proxy has to refer to. -/
def Admits (x : Held) : Command S → Prop
  | .setTetherStiffness _ => x.cluster?.isSome = true
  | .setSuspensionTarget handle _ => ∃ particle, x = .suspension handle particle
  | .setJointRestLength handle _ => ∃ first second, x = .joint handle first second
  | command => ∃ h ∈ x.owned, command.target? = some h

/-- Whether a delta refers to what exists. A creation brings a new proxy whose particles go into
slots that are not held; a destruction leaves no constraint behind that acts on its particles. -/
def Accepts (R : Roster) (delta : Delta S) : Prop :=
  match delta.command with
  | .create creation =>
    R delta.proxy = none ∧ creation.InRange ∧ creation.Matched ∧
      (creation.held.owned.map (·.index)).Nodup ∧
      (∀ h ∈ creation.held.owned, ∀ k, R.Owns k → k.index ≠ h.index) ∧
      ∀ h ∈ creation.held.uses, R.Owns h
  | .destroy => ∃ x, R delta.proxy = some x ∧
      ∀ h ∈ x.owned, ∀ id y, R id = some y → h ∉ y.uses
  | command => ∃ x, R delta.proxy = some x ∧ Admits x command

/-- The roster that a delta leads to. -/
def after (R : Roster) (delta : Delta S) : Roster :=
  match delta.command with
  | .create creation => Function.update R delta.proxy (some creation.held)
  | .destroy => Function.update R delta.proxy none
  | _ => R

/-- Whether deltas refer to what exists, one after the other. -/
def AcceptsAll (R : Roster) : List (Delta S) → Prop
  | [] => True
  | delta :: rest => R.Accepts delta ∧ (R.after delta).AcceptsAll rest

/-- The roster that deltas lead to. -/
def afterAll (R : Roster) (deltas : List (Delta S)) : Roster := deltas.foldl after R

/-- No slot is held twice, and constraints act on particles that are held. -/
structure Valid (R : Roster) : Prop where
  nodup : ∀ id x, R id = some x → (x.owned.map (·.index)).Nodup
  slots : ∀ a b x y, R a = some x → R b = some y → ∀ h ∈ x.owned, ∀ k ∈ y.owned,
    h.index = k.index → a = b
  closed : ∀ id x, R id = some x → ∀ h ∈ x.uses, R.Owns h

theorem valid_empty : empty.Valid := by
  constructor
  · intro id x hx
    cases hx
  · intro a b x y hx
    cases hx
  · intro id x hx
    cases hx

/-! ## Edits -/

/-- An edit has to be admitted by what its proxy holds. -/
theorem accepts_edit {R : Roster} {delta : Delta S} (h : delta.command.IsEdit) :
    R.Accepts delta ↔ ∃ x, R delta.proxy = some x ∧ Admits x delta.command := by
  unfold Accepts
  cases hc : delta.command with
  | create creation =>
    rw [hc] at h
    exact h.elim
  | destroy =>
    rw [hc] at h
    exact h.elim
  | _ => exact Iff.rfl

/-- An edit leads to the same roster. -/
theorem after_edit {R : Roster} {delta : Delta S} (h : delta.command.IsEdit) :
    R.after delta = R := by
  unfold after
  cases hc : delta.command with
  | create creation =>
    rw [hc] at h
    exact h.elim
  | destroy =>
    rw [hc] at h
    exact h.elim
  | _ => rfl

/-- A write to a particle has to refer to one that is held. -/
theorem admits_target {x : Held} {command : Command S} {h : ParticleHandle}
    (ht : command.target? = some h) : command.IsEdit ∧ (Admits x command ↔ h ∈ x.owned) := by
  have hiff : (∃ k ∈ x.owned, command.target? = some k) ↔ h ∈ x.owned := by
    rw [ht]
    constructor
    · rintro ⟨k, hk, ⟨⟩⟩
      exact hk
    · intro hk
      exact ⟨h, hk, rfl⟩
  cases command with
  | create | destroy | setTetherStiffness | setSuspensionTarget | setJointRestLength => cases ht
  | _ => exact ⟨trivial, hiff⟩

/-! ## Runs of deltas -/

/-- What a roster accepts keeps neighbors in range. -/
theorem inRange_of_accepts {R : Roster} {delta : Delta S} (h : R.Accepts delta) :
    delta.command.InRange := by
  unfold Accepts at h
  cases hc : delta.command with
  | create creation =>
    rw [hc] at h
    exact h.2.1
  | _ => trivial

theorem inRange_of_acceptsAll {R : Roster} {deltas : List (Delta S)} (h : R.AcceptsAll deltas) :
    Delta.AllInRange deltas := by
  induction deltas generalizing R with
  | nil =>
    intro d hd
    exact absurd hd List.not_mem_nil
  | cons first rest ih =>
    intro d hd
    rcases List.mem_cons.mp hd with rfl | hd
    · exact inRange_of_accepts h.1
    · exact ih h.2 d hd

theorem acceptsAll_append {R : Roster} {xs ys : List (Delta S)} :
    R.AcceptsAll (xs ++ ys) ↔ R.AcceptsAll xs ∧ (R.afterAll xs).AcceptsAll ys := by
  induction xs generalizing R with
  | nil =>
    constructor
    · intro h
      exact ⟨trivial, h⟩
    · intro h
      exact h.2
  | cons delta rest ih =>
    show R.Accepts delta ∧ (R.after delta).AcceptsAll (rest ++ ys) ↔
      (R.Accepts delta ∧ (R.after delta).AcceptsAll rest) ∧
        ((R.after delta).afterAll rest).AcceptsAll ys
    rw [ih, and_assoc]

theorem afterAll_append (R : Roster) (xs ys : List (Delta S)) :
    R.afterAll (xs ++ ys) = (R.afterAll xs).afterAll ys := List.foldl_append

/-! ## Deltas keep rosters valid -/

theorem owns_update {R : Roster} {id : ProxyId} {x : Held} (hnone : R id = none)
    {h : ParticleHandle} :
    Owns (Function.update R id (some x)) h ↔ R.Owns h ∨ h ∈ x.owned := by
  constructor
  · rintro ⟨a, y, hy, hh⟩
    by_cases ha : a = id
    · subst ha
      rw [Function.update_self] at hy
      cases hy
      exact .inr hh
    · rw [Function.update_of_ne ha] at hy
      exact .inl ⟨a, y, hy, hh⟩
  · rintro (⟨a, y, hy, hh⟩ | hh)
    · have ha : a ≠ id := by
        rintro rfl
        rw [hnone] at hy
        cases hy
      exact ⟨a, y, by rw [Function.update_of_ne ha, hy], hh⟩
    · exact ⟨id, x, Function.update_self .., hh⟩

/-- A new proxy with slots of its own. -/
theorem Valid.create {R : Roster} (h : R.Valid) {id : ProxyId} {x : Held} (hnone : R id = none)
    (hnodup : (x.owned.map (·.index)).Nodup)
    (hfree : ∀ k ∈ x.owned, ∀ l, R.Owns l → l.index ≠ k.index) (huses : ∀ k ∈ x.uses, R.Owns k) :
    Valid (Function.update R id (some x)) := by
  constructor
  · intro a y hy
    by_cases ha : a = id
    · subst ha
      rw [Function.update_self] at hy
      cases hy
      exact hnodup
    · rw [Function.update_of_ne ha] at hy
      exact h.nodup a y hy
  · intro a b y z hy hz k hk l hl hindex
    by_cases ha : a = id
    · by_cases hb : b = id
      · rw [ha, hb]
      · -- the slots of the new proxy are not held by another one
        subst ha
        rw [Function.update_self] at hy
        rw [Function.update_of_ne hb] at hz
        cases hy
        exact absurd hindex.symm (hfree k hk l ⟨b, z, hz, hl⟩)
    · rw [Function.update_of_ne ha] at hy
      by_cases hb : b = id
      · subst hb
        rw [Function.update_self] at hz
        cases hz
        exact absurd hindex (hfree l hl k ⟨a, y, hy, hk⟩)
      · rw [Function.update_of_ne hb] at hz
        exact h.slots a b y z hy hz k hk l hl hindex
  · intro a y hy k hk
    rw [owns_update hnone]
    by_cases ha : a = id
    · subst ha
      rw [Function.update_self] at hy
      cases hy
      exact .inl (huses k hk)
    · rw [Function.update_of_ne ha] at hy
      exact .inl (h.closed a y hy k hk)

/-- A proxy less, with no constraint left that acts on its particles. -/
theorem Valid.destroy {R : Roster} (h : R.Valid) {id : ProxyId} {x : Held} (hx : R id = some x)
    (hunused : ∀ k ∈ x.owned, ∀ a y, R a = some y → k ∉ y.uses) :
    Valid (Function.update R id none) := by
  have hold : ∀ a y, Function.update R id none a = some y → a ≠ id ∧ R a = some y := by
    intro a y hy
    by_cases ha : a = id
    · subst ha
      rw [Function.update_self] at hy
      cases hy
    · rw [Function.update_of_ne ha] at hy
      exact ⟨ha, hy⟩
  constructor
  · intro a y hy
    exact h.nodup a y (hold a y hy).2
  · intro a b y z hy hz
    exact h.slots a b y z (hold a y hy).2 (hold b z hz).2
  · intro a y hy k hk
    rcases h.closed a y (hold a y hy).2 k hk with ⟨b, z, hz, hkz⟩
    have hb : b ≠ id := by
      rintro rfl
      rw [hx] at hz
      cases hz
      exact hunused k hkz a y (hold a y hy).2 hk
    exact ⟨b, z, by rw [Function.update_of_ne hb, hz], hkz⟩

theorem Valid.after {R : Roster} (h : R.Valid) {delta : Delta S} (ha : R.Accepts delta) :
    (R.after delta).Valid := by
  unfold Accepts at ha
  unfold Roster.after
  cases hcommand : delta.command with
  | create creation =>
    rw [hcommand] at ha
    rcases ha with ⟨hnone, _, _, hnodup, hfree, huses⟩
    exact h.create hnone hnodup hfree huses
  | destroy =>
    rw [hcommand] at ha
    rcases ha with ⟨x, hx, hunused⟩
    exact h.destroy hx hunused
  | _ => exact h

theorem Valid.afterAll {R : Roster} (h : R.Valid) {deltas : List (Delta S)}
    (ha : R.AcceptsAll deltas) : (R.afterAll deltas).Valid := by
  induction deltas generalizing R with
  | nil => exact h
  | cons delta rest ih => exact ih (h.after ha.1) ha.2

end Roster

end TetheredParticles
