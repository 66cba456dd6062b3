import TetheredParticles.Proofs.World.Containment
/-!
# What a creation of particles leaves behind

Particles are created together, and whether there is room for them is asked of the slots as they
were before the first of them moves in. Two particles of one list may therefore ask for the same
slot: the first one gets it, and the other one is lost although the creation is applied.

* `Creation.listed`, `ParticleStore.Holds` — the particles that are asked for, and one of them in
  place.
* `Creation.Compatible` — no two different particles are asked for in one slot.
* `World.applyDelta_creation` — when a creation is applied, and what the slots hold then.
-/

namespace TetheredParticles

variable {S : Type} [Scalar S]

/-! ## Lists of particles -/

/-- Two listed particles come to the same thing: one handle, and one state once it is checked that
no inverse mass is negative. -/
structure SameListed (x y : ParticleHandle × Particle S) : Prop where
  handle : x.1 = y.1
  position : x.2.position = y.2.position
  velocity : x.2.velocity = y.2.velocity
  inverseMass : Scalar.maxNum x.2.inverseMass 0 = Scalar.maxNum y.2.inverseMass 0

/-- Whether a creation brings particles, be it one or a cluster. -/
def Creation.IsPopulation : Creation S → Prop
  | .particle .. => True
  | .cluster .. => True
  | _ => False

/-- The particles that a creation brings, each with the handle that it is listed under. -/
def Creation.listed : Creation S → List (ParticleHandle × Particle S)
  | .particle h p => [(h, p)]
  | .cluster handles particles .. => handles.zip particles
  | _ => []

/-- Particles that are listed for one slot come to the same thing. -/
def Creation.Compatible (creation : Creation S) : Prop :=
  ∀ x ∈ creation.listed, ∀ y ∈ creation.listed, x.1.index = y.1.index → SameListed x y

/-- The slot of a listed particle belongs to its proxy and is reached by its handle, and the
particle is there in the state it was listed with. -/
structure ParticleStore.Holds (store : ParticleStore S) (owner : ProxyId)
    (x : ParticleHandle × Particle S) : Prop where
  contains : store.contains x.1 = true
  owner : store.owner? x.1 = some owner
  position : (store.slot x.1.index).position = x.2.position
  velocity : (store.slot x.1.index).velocity = x.2.velocity
  inverseMass : (store.slot x.1.index).inverseMass = Scalar.maxNum x.2.inverseMass 0

namespace ParticleStore

variable {store : ParticleStore S} {owner : ProxyId} {x y : ParticleHandle × Particle S}

theorem holds_of_occupied
    (h : store.slot x.1.index = .occupied x.2 owner x.1.generation) : store.Holds owner x := by
  have hcontains : store.contains x.1 = true :=
    contains_iff.mpr ⟨by unfold isAlive; rw [h]; rfl, by rw [h]; rfl⟩
  exact ⟨hcontains, owner?_eq_some.mpr ⟨hcontains, by rw [h]; rfl⟩, by rw [h]; rfl, by rw [h]; rfl,
    by rw [h]; rfl⟩

/-- What is there in place of another particle is there for both. -/
theorem Holds.congr (h : store.Holds owner y) (hsame : SameListed x y) : store.Holds owner x := by
  rcases hsame with ⟨hhandle, hposition, hvelocity, hmass⟩
  refine ⟨hhandle ▸ h.contains, hhandle ▸ h.owner, ?_, ?_, ?_⟩
  · rw [hhandle, h.position, hposition]
  · rw [hhandle, h.velocity, hvelocity]
  · rw [hhandle, h.inverseMass, hmass]

/-- A slot has room for one particle. -/
theorem Holds.same (hx : store.Holds owner x) (hy : store.Holds owner y)
    (hindex : x.1.index = y.1.index) : SameListed x y where
  handle := by
    have hgeneration : x.1.generation = y.1.generation := by
      rw [← (contains_iff.mp hx.contains).2, ← (contains_iff.mp hy.contains).2, hindex]
    rcases x with ⟨⟨i, g⟩, p⟩
    rcases y with ⟨⟨j, k⟩, q⟩
    cases hindex
    cases hgeneration
    rfl
  position := by rw [← hx.position, ← hy.position, hindex]
  velocity := by rw [← hx.velocity, ← hy.velocity, hindex]
  inverseMass := by rw [← hx.inverseMass, ← hy.inverseMass, hindex]

/-- The first particle that is listed for a vacant slot gets it. -/
theorem slot_insertAll_of_free (owner : ProxyId) (pairs : List (ParticleHandle × Particle S))
    {store : ParticleStore S} {i : Nat} (hfree : store.isAlive i = false) :
    (pairs.foldl (fun store (h, p) => store.insert h p owner) store).slot i =
      match pairs.find? (·.1.index == i) with
      | some first => .occupied first.2 owner first.1.generation
      | none => store.slot i := by
  induction pairs generalizing store with
  | nil => rfl
  | cons x rest ih =>
    obtain ⟨h, p⟩ := x
    rw [List.foldl_cons, List.find?_cons]
    by_cases hi : h.index = i
    · -- the slot is taken now, and what follows leaves it alone
      subst hi
      have hone := slot_insert p owner hfree h.index
      rw [if_pos rfl] at hone
      have htaken : (store.insert h p owner).isAlive h.index = true := by
        unfold isAlive
        rw [hone]
        rfl
      rw [show (h.index == h.index) = true from beq_self_eq_true _]
      rcases slot_insertAll owner rest (store.insert h p owner) h.index with ⟨hfree', _⟩ | ⟨_, hslot⟩
      · rw [htaken] at hfree'
        cases hfree'
      · exact hslot.trans hone
    · -- it goes into another slot or is lost, and the question is about the rest of the list
      have hother : (store.insert h p owner).slot i = store.slot i := by
        cases halive : store.isAlive h.index with
        | true => rw [insert_of_isAlive p owner halive]
        | false => rw [slot_insert p owner halive, if_neg (Ne.symm hi)]
      rw [show (h.index == i) = false from beq_eq_false_iff_ne.mpr hi, ih, hother]
      unfold isAlive
      rw [hother]
      exact hfree

end ParticleStore

/-! ## Creations -/

namespace World

variable {w : World S} {proxy : ProxyId} {creation : Creation S}

/-- There is room for the particles of a creation. -/
def Vacant (w : World S) (creation : Creation S) : Prop :=
  ∀ x ∈ creation.listed, w.store.isAlive x.1.index = false

/-- The store with the particles of a creation in it. -/
def populated (w : World S) (proxy : ProxyId) (creation : Creation S) : ParticleStore S :=
  creation.listed.foldl (fun store (h, p) => store.insert h p proxy) w.store

variable (w proxy)

/-- Particles are added if none of their slots is occupied. -/
theorem insertParticles_cases {handles : List ParticleHandle} {particles : List (Particle S)}
    (hlength : handles.length = particles.length) :
    (∃ after, w.insertParticles? proxy handles particles = some after ∧
      (∀ x ∈ handles.zip particles, w.store.isAlive x.1.index = false) ∧
      after.store =
        (handles.zip particles).foldl (fun store (h, p) => store.insert h p proxy) w.store) ∨
    (w.insertParticles? proxy handles particles = none ∧
      ¬ ∀ x ∈ handles.zip particles, w.store.isAlive x.1.index = false) := by
  cases hw : w.insertParticles? proxy handles particles with
  | some after =>
    rcases Turnover.eq_of_insertParticles hw with ⟨hfree, rfl⟩
    exact .inl ⟨_, rfl, fun x hx => hfree x.1 (List.of_mem_zip hx).1, rfl⟩
  | none =>
    refine .inr ⟨rfl, fun hfree => ?_⟩
    unfold insertParticles? at hw
    split at hw
    case isFalse => cases hw
    case isTrue htaken =>
      rcases List.any_eq_true.mp htaken with ⟨h, hh, halive⟩
      -- every handle is listed with some particle
      rw [← List.map_fst_zip hlength.le] at hh
      rcases List.mem_map.mp hh with ⟨x, hx, rfl⟩
      rw [hfree x hx] at halive
      cases halive

/-- Either every listed particle finds its slot vacant and is added, or there is nothing to add. -/
theorem addParts_cases (hkind : creation.IsPopulation) :
    (∃ after, w.addParts? proxy creation = some after ∧ creation.Matched ∧ w.Vacant creation ∧
      after.store = w.populated proxy creation) ∨
    (w.addParts? proxy creation = none ∧ ¬ (creation.Matched ∧ w.Vacant creation)) := by
  cases creation with
  | joint => exact hkind.elim
  | suspension => exact hkind.elim
  | particle handle particle =>
    have hlength : [handle].length = [particle].length := rfl
    rcases insertParticles_cases w proxy hlength with ⟨after, hw, hfree, hstore⟩ | ⟨hw, htaken⟩
    · exact .inl ⟨after, hw, trivial, hfree, hstore⟩
    · exact .inr ⟨hw, fun h => htaken h.2⟩
  | cluster handles particles adjacency stiffness =>
    simp only [addParts?]
    split
    case isFalse hlength => exact .inr ⟨rfl, fun h => hlength h.1⟩
    case isTrue hlength =>
      rcases insertParticles_cases w proxy hlength with
        ⟨after, hw, hfree, hstore⟩ | ⟨hw, htaken⟩
      · rw [hw]
        exact .inl ⟨_, rfl, hlength, hfree, hstore⟩
      · rw [hw]
        exact .inr ⟨rfl, fun h => htaken h.2⟩

/-- A creation is applied if its proxy is new, its lists match and there is room for all of its
particles, and then they are added to the store. -/
theorem applyDelta_creation_cases (hkind : creation.IsPopulation) :
    ((w.applyDelta ⟨proxy, .create creation⟩).1 = true ↔
      w.knows proxy = false ∧ creation.Matched ∧ w.Vacant creation) ∧
    ((w.applyDelta ⟨proxy, .create creation⟩).1 = true →
      (w.applyDelta ⟨proxy, .create creation⟩).2.store = w.populated proxy creation) := by
  simp only [applyDelta, applyCommand, create?]
  cases hknown : w.knows proxy with
  | true => simp [accept]
  | false =>
    rcases addParts_cases w proxy hkind with
      ⟨after, hw, hmatched, hvacant, hstore⟩ | ⟨hw, hnot⟩
    · simp [hw, accept, hmatched, hvacant, hstore]
    · simp [hw, accept, hnot]

/-- A vacant slot gets the first particle that is listed for it, and every other slot stays as it
was. -/
theorem slot_populated (hvacant : w.Vacant creation) (i : Nat) :
    (w.populated proxy creation).slot i =
      match creation.listed.find? (·.1.index == i) with
      | some first => .occupied first.2 proxy first.1.generation
      | none => w.store.slot i := by
  cases hfree : w.store.isAlive i with
  | false => exact ParticleStore.slot_insertAll_of_free proxy creation.listed hfree
  | true =>
    -- nothing is listed for an occupied slot, since all listed ones are vacant
    have hnone : creation.listed.find? (·.1.index == i) = none := by
      refine List.find?_eq_none.mpr fun x hx hi => ?_
      rw [← beq_iff_eq.mp hi, hvacant x hx] at hfree
      cases hfree
    rw [hnone]
    rcases ParticleStore.slot_insertAll proxy creation.listed w.store i with ⟨h, _⟩ | ⟨_, hslot⟩
    · rw [hfree] at h
      cases h
    · exact hslot

/-- Of the particles that are listed for one slot, the first one is there. -/
theorem holds_first (hvacant : w.Vacant creation) {x : ParticleHandle × Particle S}
    (hx : x ∈ creation.listed) :
    ∃ first ∈ creation.listed, first.1.index = x.1.index ∧
      (w.populated proxy creation).Holds proxy first := by
  cases hfind : creation.listed.find? (·.1.index == x.1.index) with
  | none => exact absurd (beq_self_eq_true _) (List.find?_eq_none.mp hfind x hx)
  | some first =>
    have hindex : first.1.index = x.1.index := by simpa using List.find?_some hfind
    refine ⟨first, List.mem_of_find?_eq_some hfind, hindex, ParticleStore.holds_of_occupied ?_⟩
    rw [slot_populated w proxy hvacant, hindex, hfind]

/-- All listed particles are there exactly if no two different ones are listed for one slot. -/
theorem holds_listed_iff (hvacant : w.Vacant creation) :
    (∀ x ∈ creation.listed, (w.populated proxy creation).Holds proxy x) ↔
      creation.Compatible := by
  constructor
  · intro hall x hx y hy hindex
    exact (hall x hx).same (hall y hy) hindex
  · intro hcompatible x hx
    rcases holds_first w proxy hvacant hx with ⟨first, hfirst, hindex, hholds⟩
    exact hholds.congr (hcompatible x hx first hfirst hindex.symm)

/-- A creation of particles is applied or dropped as a whole, but what it adds need not be
everything that it lists. It is applied exactly if its proxy is new, every particle has a handle,
and no slot that it asks for was occupied before. Then each of these slots has the first particle
that is listed for it, all other slots are as they were, and every listed particle is there exactly
if no two different ones are listed for one slot. A creation that is dropped changes nothing. -/
theorem applyDelta_creation (hkind : creation.IsPopulation) :
    ((w.applyDelta ⟨proxy, .create creation⟩).1 = true ↔
      w.knows proxy = false ∧ creation.Matched ∧
        ∀ x ∈ creation.listed, w.store.isAlive x.1.index = false) ∧
    ((w.applyDelta ⟨proxy, .create creation⟩).1 = true →
      let store := (w.applyDelta ⟨proxy, .create creation⟩).2.store
      (∀ i, store.slot i =
        match creation.listed.find? (·.1.index == i) with
        | some first => .occupied first.2 proxy first.1.generation
        | none => w.store.slot i) ∧
      (∀ x ∈ creation.listed, ∃ first ∈ creation.listed, first.1.index = x.1.index ∧
        store.Holds proxy first) ∧
      ((∀ x ∈ creation.listed, store.Holds proxy x) ↔ creation.Compatible)) ∧
    ((w.applyDelta ⟨proxy, .create creation⟩).1 = false →
      w.Unharmed (w.applyDelta ⟨proxy, .create creation⟩).2) := by
  rcases applyDelta_creation_cases w proxy hkind with ⟨happlied, hstore⟩
  refine ⟨happlied, fun h => ?_, unharmed_of_rejected⟩
  have hvacant : w.Vacant creation := (happlied.mp h).2.2
  rw [hstore h]
  exact ⟨slot_populated w proxy hvacant, fun x hx => holds_first w proxy hvacant hx,
    holds_listed_iff w proxy hvacant⟩

/-- A cluster of an anchor and a particle that hangs from it. -/
def pendant : Creation Float32 :=
  .cluster [⟨1, 0⟩, ⟨0, 4⟩] [.kinematic 0, .dynamic ⟨0, -1, 0⟩ 1] (.ofEdges [(0, 1)]) 1

/-- Both particles of the pendant are there. -/
theorem pendant_whole :
    pendant.IsPopulation ∧
    ((empty .standard).applyDelta ⟨⟨2, 0⟩, .create pendant⟩).1 = true ∧
    ∀ x ∈ pendant.listed,
      ((empty .standard).applyDelta ⟨⟨2, 0⟩, .create pendant⟩).2.store.Holds ⟨2, 0⟩ x := by
  have hkind : pendant.IsPopulation := trivial
  have hcompatible : pendant.Compatible := by
    intro x hx y hy hindex
    simp only [pendant, Creation.listed, List.zip_cons_cons, List.zip_nil_right, List.mem_cons,
      List.not_mem_nil, or_false] at hx hy
    rcases hx with rfl | rfl <;> rcases hy with rfl | rfl
    · exact ⟨rfl, rfl, rfl, rfl⟩
    · cases hindex
    · cases hindex
    · exact ⟨rfl, rfl, rfl, rfl⟩
  rcases applyDelta_creation (empty .standard) ⟨2, 0⟩ hkind with ⟨happlied, hwhole, _⟩
  have hdone := happlied.mpr ⟨by decide +kernel, rfl, by decide +kernel⟩
  exact ⟨hkind, hdone, (hwhole hdone).2.2.mpr hcompatible⟩

/-- A cluster whose two particles are listed for one slot, under handles of different
generations. -/
def doubled : Creation Float32 :=
  .cluster [⟨0, 0⟩, ⟨0, 1⟩] [.dynamic 0 1, .dynamic 0 1] (.ofEdges []) 1

/-- The doubled cluster is applied and its first particle is there, but not its second one. -/
theorem doubled_halved :
    ((empty .standard).applyDelta ⟨⟨0, 0⟩, .create doubled⟩).1 = true ∧
    ((empty .standard).applyDelta ⟨⟨0, 0⟩, .create doubled⟩).2.store.contains ⟨0, 0⟩ = true ∧
    ¬ ∀ x ∈ doubled.listed,
      ((empty .standard).applyDelta ⟨⟨0, 0⟩, .create doubled⟩).2.store.Holds ⟨0, 0⟩ x := by
  refine ⟨by decide +kernel, by decide +kernel, fun hall => ?_⟩
  have hsecond := (hall (⟨0, 1⟩, .dynamic 0 1) (.tail _ (.head _))).contains
  exact absurd hsecond (by decide +kernel)

end World

end TetheredParticles
