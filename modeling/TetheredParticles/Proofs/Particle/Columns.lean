import TetheredParticles.Proofs.Particle.Store
/-!
# The particle store, array by array

Seen from the side, the store is nine arrays, one for each field of a slot. Every operation on slots
is a number of writes to these arrays, each at the same place, and all nine grow together.

* `ParticleColumns` — the nine arrays, and the operations on them.
* `ParticleColumns.Aligned` — all of them have the same length.
* `ParticleStore.columns` — the arrays of a store; `columns_insert`, `columns_remove`,
  `columns_setPosition` and so on: operations on slots are operations on the arrays.
* `ParticleStore.Counted` — how many particles there are is the number of slots marked as occupied.
-/

namespace TetheredParticles

/-- The particles of the world, an array for each field of their slots. -/
structure ParticleColumns (S : Type) where
  positions : Array (Vec3 S)
  predicted : Array (Vec3 S)
  velocities : Array (Vec3 S)
  inverseMasses : Array S
  forces : Array (Vec3 S)
  targets : Array (Option (Vec3 S))
  owners : Array (Option ProxyId)
  flags : Array ParticleFlags
  generations : Array UInt32
  aliveCount : Nat

namespace ParticleColumns

variable {S : Type} [Scalar S]

/-- All nine arrays have the same length. -/
structure Aligned (c : ParticleColumns S) (length : Nat) : Prop where
  positions : c.positions.size = length
  predicted : c.predicted.size = length
  velocities : c.velocities.size = length
  inverseMasses : c.inverseMasses.size = length
  forces : c.forces.size = length
  targets : c.targets.size = length
  owners : c.owners.size = length
  flags : c.flags.size = length
  generations : c.generations.size = length

/-- Whether a slot is marked as occupied. -/
def isAlive (c : ParticleColumns S) (index : Nat) : Bool := (c.flags.getD index .none).alive

/-- Whether a handle names an occupied slot of its generation. -/
def contains (c : ParticleColumns S) (h : ParticleHandle) : Bool :=
  c.isAlive h.index && c.generations.getD h.index 0 == h.generation

/-- An array filled up to a length. -/
def fill {A : Type} (xs : Array A) (length : Nat) (a : A) : Array A :=
  xs ++ Array.replicate (length - xs.size) a

/-- Makes room for a slot in all arrays, if there is none in the array of marks. -/
def grow (c : ParticleColumns S) (index : Nat) : ParticleColumns S :=
  if c.flags.size ≤ index then
    { c with
      positions := fill c.positions (index + 1) 0
      predicted := fill c.predicted (index + 1) 0
      velocities := fill c.velocities (index + 1) 0
      inverseMasses := fill c.inverseMasses (index + 1) 0
      forces := fill c.forces (index + 1) 0
      targets := fill c.targets (index + 1) none
      owners := fill c.owners (index + 1) none
      flags := fill c.flags (index + 1) .none
      generations := fill c.generations (index + 1) 0 }
  else c

/-- Puts a particle into the slot of its handle. `none` if the slot is occupied. -/
def insert? (c : ParticleColumns S) (h : ParticleHandle) (p : Particle S) (owner : ProxyId) :
    Option (ParticleColumns S) :=
  if c.isAlive h.index then none
  else
    let c := c.grow h.index
    let inverseMass := Scalar.maxNum p.inverseMass 0
    some {
      positions := c.positions.setIfInBounds h.index p.position
      predicted := c.predicted.setIfInBounds h.index p.position
      velocities := c.velocities.setIfInBounds h.index p.velocity
      inverseMasses := c.inverseMasses.setIfInBounds h.index inverseMass
      forces := c.forces.setIfInBounds h.index 0
      targets := c.targets.setIfInBounds h.index none
      owners := c.owners.setIfInBounds h.index (some owner)
      flags := c.flags.setIfInBounds h.index ⟨true, inverseMass == 0, true⟩
      generations := c.generations.setIfInBounds h.index h.generation
      aliveCount := c.aliveCount + 1 }

/-- Removes the particle of a handle. `none` if there is none. -/
def remove? (c : ParticleColumns S) (h : ParticleHandle) : Option (ParticleColumns S) :=
  if c.contains h then
    some { c with
      flags := c.flags.setIfInBounds h.index .none
      owners := c.owners.setIfInBounds h.index none
      targets := c.targets.setIfInBounds h.index none
      forces := c.forces.setIfInBounds h.index 0
      aliveCount := c.aliveCount - 1 }
  else none

/-- Writes to the arrays at the slot of a handle and marks it dirty. `none` if there is no such
particle. -/
def write? (c : ParticleColumns S) (h : ParticleHandle)
    (write : ParticleColumns S → Nat → ParticleColumns S) : Option (ParticleColumns S) :=
  if c.contains h then
    let c := write c h.index
    some { c with flags := c.flags.modify h.index ({ · with dirty := true }) }
  else none

/-- Moves a particle; its predicted position follows. -/
def setPosition? (c : ParticleColumns S) (h : ParticleHandle) (position : Vec3 S) :=
  c.write? h fun c i => { c with
    positions := c.positions.setIfInBounds i position
    predicted := c.predicted.setIfInBounds i position }

/-- Changes the velocity of a particle. -/
def setVelocity? (c : ParticleColumns S) (h : ParticleHandle) (velocity : Vec3 S) :=
  c.write? h fun c i => { c with velocities := c.velocities.setIfInBounds i velocity }

/-- Asks for a particle to be at a place after the next step. -/
def setTarget? (c : ParticleColumns S) (h : ParticleHandle) (target : Vec3 S) :=
  c.write? h fun c i => { c with targets := c.targets.setIfInBounds i (some target) }

/-- Adds a force for the next step. -/
def addForce? (c : ParticleColumns S) (h : ParticleHandle) (force : Vec3 S) :=
  c.write? h fun c i => { c with forces := c.forces.modify i (· + force) }

/-- Changes the inverse mass of a particle and whether it is kinematic. -/
def setInverseMass? (c : ParticleColumns S) (h : ParticleHandle) (inverseMass : S) :=
  c.write? h fun c i =>
    let inverseMass := Scalar.maxNum inverseMass 0
    { c with
      inverseMasses := c.inverseMasses.setIfInBounds i inverseMass
      flags := c.flags.modify i ({ · with kinematic := inverseMass == 0 }) }

/-- Two arrays walked side by side, as far as both reach: what the first one holds is changed by
what stands beside it. -/
def beside {A B : Type} (xs : Array A) (ys : Array B) (change : A → B → A) : Array A :=
  xs.mapIdx fun i a => (ys[i]?.map (change a)).getD a

/-- Forgets everything that was meant for one step: marks beside forces, and targets beside the
velocities that they stop. -/
def clearStepData (c : ParticleColumns S) : ParticleColumns S :=
  { c with
    flags := beside c.flags c.forces fun flags _ => { flags with dirty := false }
    forces := beside c.forces c.flags fun _ _ => 0
    targets := beside c.targets c.velocities fun _ _ => none
    velocities := beside c.velocities c.targets fun velocity target =>
      if target.isSome then 0 else velocity }

end ParticleColumns

namespace ParticleStore

variable {S : Type} [Scalar S]

/-- The arrays of a store. -/
def columns (store : ParticleStore S) : ParticleColumns S where
  positions := store.slots.map (·.position)
  predicted := store.slots.map (·.predicted)
  velocities := store.slots.map (·.velocity)
  inverseMasses := store.slots.map (·.inverseMass)
  forces := store.slots.map (·.force)
  targets := store.slots.map (·.target)
  owners := store.slots.map (·.owner)
  flags := store.slots.map (·.flags)
  generations := store.slots.map (·.generation)
  aliveCount := store.aliveCount

omit [Scalar S] in
theorem aligned_columns (store : ParticleStore S) : store.columns.Aligned store.slotCount := by
  constructor <;> exact Array.size_map

/-! ## Arrays of fields -/

section Fields

variable {A B : Type} {xs : Array A} {i : Nat} {view : A → B}

theorem getD_map (xs : Array A) (i : Nat) (view : A → B) (a : A) :
    (xs.map view).getD i (view a) = view (xs.getD i a) := by
  rw [Array.getD_eq_getD_getElem?, Array.getD_eq_getD_getElem?, Array.getElem?_map]
  cases xs[i]? <;> rfl

/-- A change of an element that the view does not see. -/
theorem map_modify_same {change : A → A} (h : ∀ a, view (change a) = view a) :
    (xs.modify i change).map view = xs.map view := by
  refine Array.ext_getElem? fun j => ?_
  rw [Array.getElem?_map, Array.getElem?_map, Array.getElem?_modify]
  split
  · rw [Option.map_map]
    exact congrArg (fun f => Option.map f xs[j]?) (funext h)
  · rfl

/-- A change of an element is a change of what the view sees. -/
theorem map_modify {change : A → A} {changeView : B → B}
    (h : ∀ a, view (change a) = changeView (view a)) :
    (xs.modify i change).map view = (xs.map view).modify i changeView := by
  refine Array.ext_getElem? fun j => ?_
  rw [Array.getElem?_map, Array.getElem?_modify, Array.getElem?_modify, Array.getElem?_map]
  split
  · rw [Option.map_map, Option.map_map]
    exact congrArg (fun f => Option.map f xs[j]?) (funext h)
  · rfl

/-- A change after which the view sees one value whatever was there. -/
theorem map_modify_const {change : A → A} {b : B} (h : ∀ a, view (change a) = b) :
    (xs.modify i change).map view = (xs.map view).setIfInBounds i b := by
  refine Array.ext_getElem? fun j => ?_
  rw [Array.getElem?_map, Array.getElem?_modify, Array.getElem?_setIfInBounds, Array.getElem?_map]
  by_cases hj : i = j
  · subst hj
    rw [if_pos rfl, if_pos rfl, Array.size_map]
    by_cases hlt : i < xs.size
    · rw [if_pos hlt, Array.getElem?_eq_getElem hlt, Option.map_some, Option.map_some, h]
    · rw [if_neg hlt, Array.getElem?_eq_none (by omega)]
      rfl
  · rw [if_neg hj, if_neg hj]

/-- Two changes of an element, one after the other. -/
theorem modify_eq_modify_modify (first second : A → A) :
    (xs.modify i fun a => second (first a)) = (xs.modify i first).modify i second := by
  refine Array.ext_getElem? fun j => ?_
  rw [Array.getElem?_modify, Array.getElem?_modify, Array.getElem?_modify]
  split
  · rw [Option.map_map]
    rfl
  · rfl

theorem map_fill (length : Nat) (a : A) :
    (xs ++ Array.replicate (length - xs.size) a).map view =
      ParticleColumns.fill (xs.map view) length (view a) := by
  unfold ParticleColumns.fill
  rw [Array.map_append, Array.map_replicate, Array.size_map]

/-- Two views of one array stand beside each other all along. -/
theorem beside_map {C : Type} (xs : Array A) (left : A → B) (right : A → C)
    (change : B → C → B) :
    ParticleColumns.beside (xs.map left) (xs.map right) change =
      xs.map fun a => change (left a) (right a) := by
  unfold ParticleColumns.beside
  refine Array.ext_getElem? fun j => ?_
  rw [Array.getElem?_mapIdx, Array.getElem?_map, Array.getElem?_map, Array.getElem?_map]
  cases xs[j]? <;> rfl

end Fields

/-! ## Operations -/

@[simp]
theorem isAlive_columns (store : ParticleStore S) (index : Nat) :
    store.columns.isAlive index = store.isAlive index :=
  congrArg (·.alive) (getD_map store.slots index (·.flags) .vacant)

@[simp]
theorem contains_columns (store : ParticleStore S) (h : ParticleHandle) :
    store.columns.contains h = store.contains h := by
  unfold ParticleColumns.contains contains
  rw [isAlive_columns]
  exact congrArg (fun g => store.isAlive h.index && g == h.generation)
    (getD_map store.slots h.index (·.generation) .vacant)

/-- All arrays make room for a slot together. -/
theorem columns_grow (store : ParticleStore S) (index : Nat) :
    ({ store with slots := store.grow index } : ParticleStore S).columns =
      store.columns.grow index := by
  unfold ParticleColumns.grow
  split
  case isTrue =>
    unfold columns grow
    simp only [map_fill]
    rfl
  case isFalse hle =>
    have hroom : index + 1 - store.slots.size = 0 := by
      change ¬ (store.slots.map (·.flags)).size ≤ index at hle
      rw [Array.size_map] at hle
      omega
    unfold grow
    rw [hroom, Array.replicate_zero, Array.append_empty]

theorem columns_insert (store : ParticleStore S) (h : ParticleHandle) (p : Particle S)
    (owner : ProxyId) :
    (store.insert? h p owner).map columns = store.columns.insert? h p owner := by
  unfold insert? ParticleColumns.insert?
  rw [isAlive_columns, ← columns_grow]
  split
  · rfl
  · rw [Option.map_some]
    unfold columns
    simp only [Array.map_setIfInBounds]
    rfl

theorem columns_remove (store : ParticleStore S) (h : ParticleHandle) :
    (store.remove? h).map columns = store.columns.remove? h := by
  unfold remove? ParticleColumns.remove?
  rw [contains_columns]
  split
  · rw [Option.map_some]
    dsimp only [columns]
    congr 2
    case e_flags => exact map_modify_const fun _ => rfl
    case e_owners => exact map_modify_const fun _ => rfl
    case e_targets => exact map_modify_const fun _ => rfl
    case e_forces => exact map_modify_const fun _ => rfl
    all_goals exact map_modify_same fun _ => rfl
  · rfl

/-- A write to a slot is a write to the arrays, if it is one before the slot is marked. -/
theorem columns_write (store : ParticleStore S) (h : ParticleHandle)
    (change : ParticleSlot S → ParticleSlot S)
    (write : ParticleColumns S → Nat → ParticleColumns S)
    (hwrite : (store.modify h.index change).columns = write store.columns h.index) :
    (store.write? h change).map columns = store.columns.write? h write := by
  unfold write? ParticleColumns.write?
  rw [contains_columns]
  split
  · rw [Option.map_some, ← hwrite]
    dsimp only [columns, modify]
    rw [modify_eq_modify_modify]
    congr 2
    case e_flags => exact map_modify fun _ => rfl
    all_goals exact map_modify_same fun _ => rfl
  · rfl

theorem columns_setPosition (store : ParticleStore S) (h : ParticleHandle) (position : Vec3 S) :
    (store.setPosition? h position).map columns = store.columns.setPosition? h position := by
  refine columns_write store h _ _ ?_
  dsimp only [columns, modify]
  congr 1
  · exact map_modify_const fun _ => rfl
  · exact map_modify_const fun _ => rfl
  all_goals exact map_modify_same fun _ => rfl

theorem columns_setVelocity (store : ParticleStore S) (h : ParticleHandle) (velocity : Vec3 S) :
    (store.setVelocity? h velocity).map columns = store.columns.setVelocity? h velocity := by
  refine columns_write store h _ _ ?_
  dsimp only [columns, modify]
  congr 1
  case e_velocities => exact map_modify_const fun _ => rfl
  all_goals exact map_modify_same fun _ => rfl

theorem columns_setTarget (store : ParticleStore S) (h : ParticleHandle) (target : Vec3 S) :
    (store.setTarget? h target).map columns = store.columns.setTarget? h target := by
  refine columns_write store h _ _ ?_
  dsimp only [columns, modify]
  congr 1
  case e_targets => exact map_modify_const fun _ => rfl
  all_goals exact map_modify_same fun _ => rfl

theorem columns_addForce (store : ParticleStore S) (h : ParticleHandle) (force : Vec3 S) :
    (store.addForce? h force).map columns = store.columns.addForce? h force := by
  refine columns_write store h _ _ ?_
  dsimp only [columns, modify]
  congr 1
  case e_forces => exact map_modify fun _ => rfl
  all_goals exact map_modify_same fun _ => rfl

theorem columns_setInverseMass (store : ParticleStore S) (h : ParticleHandle) (inverseMass : S) :
    (store.setInverseMass? h inverseMass).map columns =
      store.columns.setInverseMass? h inverseMass := by
  refine columns_write store h _ _ ?_
  dsimp only [columns, modify]
  congr 1
  case e_inverseMasses => exact map_modify_const fun _ => rfl
  case e_flags => exact map_modify fun _ => rfl
  all_goals exact map_modify_same fun _ => rfl

theorem columns_clearStepData (store : ParticleStore S) :
    store.clearStepData.columns = store.columns.clearStepData := by
  unfold ParticleColumns.clearStepData columns clearStepData
  simp only [beside_map, Array.map_map]
  rfl

/-! ## How many particles there are -/

/-- As many slots are marked as occupied as particles are counted. -/
def Counted (store : ParticleStore S) : Prop :=
  store.aliveCount = store.columns.flags.countP (·.alive)

namespace Counted

variable {store after : ParticleStore S}

omit [Scalar S] in
theorem iff_count : store.Counted ↔
    store.aliveCount = (store.slots.map (·.flags.alive)).count true := by
  unfold Counted columns
  rw [Array.countP_map, Array.count, Array.countP_map]
  refine Eq.congr_right (Array.countP_congr fun s _ => ?_)
  change s.flags.alive = true ↔ (s.flags.alive == true) = true
  rw [beq_true]

omit [Scalar S] in
theorem empty : (ParticleStore.empty : ParticleStore S).Counted := by
  rw [iff_count, ParticleStore.empty, Array.map_empty, Array.count_empty]

/-- The same slots are occupied. -/
theorem of_alive (h : store.Counted) (hslots : after.slotCount = store.slotCount)
    (halive : ∀ i, after.isAlive i = store.isAlive i)
    (hcount : after.aliveCount = store.aliveCount) : after.Counted := by
  have hmarks : after.slots.map (·.flags.alive) = store.slots.map (·.flags.alive) := by
    refine Array.ext (by rw [Array.size_map, Array.size_map]; exact hslots) fun i hi hi' => ?_
    rw [Array.size_map] at hi hi'
    have hone := halive i
    unfold isAlive slot at hone
    rw [Array.getD_eq_getD_getElem?, Array.getD_eq_getD_getElem?, Array.getElem?_eq_getElem hi,
      Array.getElem?_eq_getElem hi', Option.getD_some, Option.getD_some] at hone
    rw [Array.getElem_map, Array.getElem_map, hone]
  rw [iff_count] at h ⊢
  rw [hcount, hmarks, h]

theorem insert (h : store.Counted) (handle : ParticleHandle) (p : Particle S) (owner : ProxyId) :
    (store.insert handle p owner).Counted := by
  cases halive : store.isAlive handle.index with
  | true => rwa [insert_of_isAlive p owner halive]
  | false =>
    unfold ParticleStore.insert insert?
    rw [if_neg (by rw [halive]; exact Bool.false_ne_true), Option.getD_some, iff_count]
    rw [iff_count] at h
    have hroom : handle.index < ((store.grow handle.index).map (·.flags.alive)).size := by
      rw [Array.size_map]
      unfold grow
      rw [Array.size_append, Array.size_replicate]
      omega
    have hfree : ((store.grow handle.index).map (·.flags.alive))[handle.index] = false := by
      have hdead : ({ store with slots := store.grow handle.index } : ParticleStore S).isAlive
          handle.index = false := by
        unfold isAlive slot at halive ⊢
        unfold grow
        rw [Array.getD_eq_getD_getElem?] at halive ⊢
        rw [Array.getElem?_append]
        split
        case isTrue => exact halive
        case isFalse =>
          rw [Array.getElem?_replicate]
          split <;> rfl
      unfold isAlive slot at hdead
      rw [Array.size_map] at hroom
      rw [Array.getElem_map]
      rwa [Array.getD_eq_getD_getElem?, Array.getElem?_eq_getElem hroom, Option.getD_some] at hdead
    have hgrown : ((store.grow handle.index).map (·.flags.alive)).count true =
        store.aliveCount := by
      rw [h]
      unfold grow
      rw [Array.map_append, Array.count_append, Array.map_replicate, Array.count_replicate]
      rfl
    dsimp only
    rw [Array.map_setIfInBounds, Array.setIfInBounds_def, dif_pos hroom, Array.count_set, hfree,
      hgrown]
    rfl

theorem remove (h : store.Counted) (handle : ParticleHandle) :
    (store.remove handle).Counted := by
  unfold ParticleStore.remove remove?
  split
  case isFalse => exact h
  case isTrue hc =>
    rw [Option.getD_some, iff_count]
    rw [iff_count] at h
    have hlive := (contains_iff.mp hc).1
    have hlt : handle.index < (store.slots.map (·.flags.alive)).size := by
      rw [Array.size_map]
      exact lt_slotCount hlive
    have hone : (store.slots.map (·.flags.alive))[handle.index] = true := by
      unfold isAlive slot at hlive
      rw [Array.size_map] at hlt
      rw [Array.getElem_map]
      rwa [Array.getD_eq_getD_getElem?, Array.getElem?_eq_getElem hlt, Option.getD_some] at hlive
    dsimp only
    rw [map_modify_const (b := false) fun _ => rfl, Array.setIfInBounds_def, dif_pos hlt,
      Array.count_set, hone, h]
    rfl

theorem write (h : store.Counted) {handle : ParticleHandle}
    {change : ParticleSlot S → ParticleSlot S} (hw : store.write? handle change = some after)
    (hchange : ∀ s, (change s).touched.flags.alive = s.flags.alive) : after.Counted := by
  rcases slot_of_write hw with ⟨hc, hslots, hslot⟩
  refine h.of_alive hslots (fun i => ?_) ?_
  · unfold isAlive
    rw [hslot]
    split
    · exact hchange _
    · rfl
  · unfold write? at hw
    rw [if_pos hc] at hw
    cases hw
    rfl

theorem insertAll (h : store.Counted) (owner : ProxyId)
    (pairs : List (ParticleHandle × Particle S)) :
    (pairs.foldl (fun store (h, p) => store.insert h p owner) store).Counted := by
  induction pairs generalizing store with
  | nil => exact h
  | cons x rest ih => exact ih (h.insert x.1 x.2 owner)

theorem removeAll (h : store.Counted) (handles : List ParticleHandle) :
    (handles.foldl (fun store h => store.remove h) store).Counted := by
  induction handles generalizing store with
  | nil => exact h
  | cons k rest ih => exact ih (h.remove k)

end Counted

end ParticleStore

end TetheredParticles
