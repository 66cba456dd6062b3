import TetheredParticles.Proofs.Registry.Calls
/-!
# The registry in place

A call changes the registry piece by piece, and what it has changed when it is refused stays
changed. It also reads lists at indices which might not exist. The calls here are written that way.
They come to the same as the others, because all checks come before the first change.

* `Attempt` — a call on a state, step by step.
* `Attempt.Yields`, `Attempt.Does` — what a call leaves, and that a refusal leaves nothing.
* `Registry.registerInPlace`, `Registry.unregisterInPlace`, `Registry.particleForWriteInPlace`, … —
  the calls of the registry, each followed by what it does.
-/

namespace TetheredParticles

/-- A call on a state. It may be refused after it has changed the state, or meet a fault. -/
abbrev Attempt (σ E α : Type) := ExceptT E (StateT σ (Except Fault)) α

namespace Attempt

variable {σ E α β : Type} {s mid after : σ}

/-- The answer of a call and the state that it leaves, if it meets no fault. -/
def run (x : Attempt σ E α) (s : σ) : Except Fault (Except E α × σ) := StateT.run (ExceptT.run x) s

/-- Goes on if a check is passed, and is refused otherwise. -/
def check (x : Except E α) : Attempt σ E α := ExceptT.mk fun s => .ok (x, s)

/-- Goes on with a result, unless there is a fault instead. -/
def demand (x : Except Fault α) : Attempt σ E α := ExceptT.mk fun s => (fun a => (.ok a, s)) <$> x

/-- Changes the state. -/
def change (f : σ → σ) : Attempt σ E Unit := modify f

/-- A call answers and leaves a state. -/
def Yields (x : Attempt σ E α) (s : σ) (a : α) (after : σ) : Prop := x.run s = .ok (.ok a, after)

/-- A call does what a computation says, and nothing if it is refused. -/
def Does (x : Attempt σ E α) (s : σ) (y : Except E (α × σ)) : Prop :=
  x.run s = .ok (match y with
    | .ok (a, after) => (.ok a, after)
    | .error e => (.error e, s))

theorem run_bind (x : Attempt σ E α) (f : α → Attempt σ E β) (s : σ) :
    run (x >>= f) s = x.run s >>= fun
      | (.ok a, mid) => (f a).run mid
      | (.error e, mid) => .ok (.error e, mid) := by
  unfold run
  rw [ExceptT.run_bind, StateT.run_bind]
  cases StateT.run (ExceptT.run x) s with
  | error f => rfl
  | ok result =>
    rcases result with ⟨_ | a, mid⟩
    · rfl
    · rfl

namespace Yields

theorem pure (a : α) (s : σ) : Yields (Pure.pure a : Attempt σ E α) s a s := rfl

theorem read (s : σ) : Yields (get : Attempt σ E σ) s s s := rfl

theorem change (f : σ → σ) (s : σ) : Yields (Attempt.change f : Attempt σ E Unit) s () (f s) := rfl

theorem demand {x : Except Fault α} {a : α} (h : x = .ok a) (s : σ) :
    Yields (Attempt.demand x : Attempt σ E α) s a s := by
  rw [h]
  rfl

theorem bind {x : Attempt σ E α} {f : α → Attempt σ E β} {a : α} {b : β} (hx : x.Yields s a mid)
    (hf : (f a).Yields mid b after) : Yields (x >>= f) s b after := by
  unfold Yields at hx hf ⊢
  rw [run_bind, hx]
  exact hf

end Yields

namespace Does

theorem ok {x : Attempt σ E α} {a : α} (h : x.Yields s a after) : x.Does s (.ok (a, after)) := h

theorem refuse (e : E) (s : σ) : Does (throw e : Attempt σ E α) s (.error e) := rfl

theorem read {f : σ → Attempt σ E β} {y : Except E (β × σ)} (h : (f s).Does s y) :
    Does (get >>= f) s y := h

/-- What comes after a check. -/
theorem check {x : Except E α} {f : α → Attempt σ E β} {y : α → Except E (β × σ)}
    (h : ∀ a, x = .ok a → (f a).Does s (y a)) : Does (Attempt.check x >>= f) s (x >>= y) := by
  cases x with
  | error e => rfl
  | ok a => exact h a rfl

/-- What comes after a call that is not refused can not be refused any more. -/
theorem bind {x : Attempt σ E α} {y : Except E (α × σ)} {f : α → Attempt σ E β}
    {g : α × σ → β × σ} (hx : x.Does s y)
    (hf : ∀ a mid, y = .ok (a, mid) → (f a).Yields mid (g (a, mid)).1 (g (a, mid)).2) :
    Does (x >>= f) s (g <$> y) := by
  cases y with
  | error e =>
    unfold Does at hx ⊢
    rw [run_bind, hx]
    rfl
  | ok result => exact Yields.bind hx (hf result.1 result.2 rfl)

end Does

end Attempt

open Attempt (change check demand)

/-! ## Pools -/

namespace HandlePool

variable {kind : HandleKind} {pool : HandlePool kind}

/-- Gives out the lowest free slot, which should have an entry in both lists. -/
def allocChecked (pool : HandlePool kind) : Except Fault (Handle kind × HandlePool kind) :=
  match pool.freeSlots with
  | slot :: rest => do
    let _ ← Fault.entry pool.alive slot
    let generation ← Fault.entry pool.generations slot
    return (⟨slot, generation⟩,
      { pool with freeSlots := rest, alive := pool.alive.setIfInBounds slot true })
  | [] =>
    return (⟨pool.generations.size, 0⟩,
      { pool with generations := pool.generations.push 0, alive := pool.alive.push true })

/-- Free slots have their entries. -/
theorem allocChecked_eq (h : pool.Sound) : pool.allocChecked = .ok pool.alloc := by
  unfold allocChecked alloc
  cases hfree : pool.freeSlots with
  | nil => rfl
  | cons slot rest =>
    have hslot := ((h.free slot).mp (hfree ▸ List.mem_cons_self)).1
    have halive : slot < pool.alive.size := h.sizes ▸ hslot
    have hgeneration : pool.generations.getD slot 0 = pool.generations[slot] := dif_pos hslot
    unfold Fault.entry
    dsimp only
    rw [dif_pos halive, dif_pos hslot, hgeneration]
    rfl

end HandlePool

namespace Registry

variable {S E : Type} {r : Registry S}

/-! ## Registering -/

/-- Gives out the handle of a proxy. -/
def giveProxy : Attempt (Registry S) E ProxyId := do
  let r ← get
  let (id, pool) ← demand r.proxyPool.allocChecked
  change ({ · with proxyPool := pool })
  return id

/-- Gives out the handle of a particle. -/
def giveParticle : Attempt (Registry S) E ParticleHandle := do
  let r ← get
  let (handle, pool) ← demand r.particlePool.allocChecked
  change ({ · with particlePool := pool })
  return handle

/-- Gives out the handles of several particles, one after the other. -/
def giveParticles : Nat → Attempt (Registry S) E (List ParticleHandle)
  | 0 => return []
  | count + 1 => do
    let handle ← giveParticle
    let handles ← giveParticles count
    return handle :: handles

/-- Gives out the handle of a constraint. -/
def giveConstraint : Attempt (Registry S) E ConstraintHandle := do
  let r ← get
  let (handle, pool) ← demand r.constraintPool.allocChecked
  change ({ · with constraintPool := pool })
  return handle

/-- Reserves the handles of a draft. -/
def reserveInPlace :
    Draft S → Attempt (Registry S) E (List ParticleHandle × Option ConstraintHandle × Creation S)
  | .particle p => do
    let handles ← giveParticles 1
    let handle ← demand (Fault.entry handles.toArray 0)
    return (handles, none, .particle handle p)
  | .cluster ps adjacency stiffness => do
    let handles ← giveParticles ps.length
    return (handles, none, .cluster handles ps adjacency stiffness)
  | .joint a b _ restLength compliance => do
    let handle ← giveConstraint
    return ([a, b], some handle, .joint handle a b restLength compliance)
  | .suspension p _ target restLength compliance => do
    let handle ← giveConstraint
    return ([p], some handle, .suspension handle p target restLength compliance)

/-- Puts a proxy into its slot, which should be there by then. -/
def placeInPlace (proxy : Proxy S) : Attempt (Registry S) E Unit := do
  change fun r => { r with
    proxies := r.proxies ++ Array.replicate (proxy.id.index + 1 - r.proxies.size) none }
  let r ← get
  let _ ← demand (Fault.entry r.proxies proxy.id.index)
  change fun r => { r with proxies := r.proxies.setIfInBounds proxy.id.index (some proxy) }
  change fun r => { r with owners := r.owners.insert proxy.owner proxy.id }

/-- Registers a proxy for an owner. -/
def registerInPlace [Scalar S] (owner : ExternalId) (blueprint : Blueprint S)
    (timestamp : Timestamp) (defaultStiffness : S) :
    Attempt (Registry S) RegistrationError (ProxyId × Creation S) := do
  let r ← get
  if let some proxy := r.owners[owner]? then throw (.alreadyRegistered owner proxy)
  let draft ← check (r.draft defaultStiffness blueprint)
  let id ← giveProxy
  let (particles, constraint, creation) ← reserveInPlace draft
  change (·.attach id draft.attachedTo)
  placeInPlace {
    id, owner, constraint
    kind := draft.kind
    particles := particles.toArray
    attachedTo := draft.attachedTo
    state := draft.state
    syncTimestamp := timestamp
    pendingDestroy := none }
  return (id, creation)

theorem yields_giveParticles (h : r.particlePool.Sound) (count : Nat) :
    (giveParticles count : Attempt (Registry S) E _).Yields r (r.particlePool.allocMany count).1
      { r with particlePool := (r.particlePool.allocMany count).2 } := by
  induction count generalizing r with
  | zero => exact .pure [] r
  | succ count ih =>
    have hone : (giveParticle : Attempt (Registry S) E _).Yields r r.particlePool.alloc.1
        { r with particlePool := r.particlePool.alloc.2 } :=
      .bind (.read r) (.bind (.demand (HandlePool.allocChecked_eq h) r)
        (.bind (.change _ r) (.pure _ _)))
    have hrest := ih (r := { r with particlePool := r.particlePool.alloc.2 })
      (HandlePool.alloc_spec h).1
    exact .bind hone (.bind hrest (.pure _ _))

theorem yields_giveConstraint (h : r.constraintPool.Sound) :
    (giveConstraint : Attempt (Registry S) E _).Yields r r.constraintPool.alloc.1
      { r with constraintPool := r.constraintPool.alloc.2 } :=
  .bind (.read r) (.bind (.demand (HandlePool.allocChecked_eq h) r)
    (.bind (.change _ r) (.pure _ _)))

/-- All handles of a draft can be given out. -/
theorem yields_reserve (hp : r.particlePool.Sound) (hc : r.constraintPool.Sound) (draft : Draft S) :
    (reserveInPlace draft : Attempt (Registry S) E _).Yields r
      ((r.reserve draft).1, (r.reserve draft).2.1, (r.reserve draft).2.2.1)
      (r.reserve draft).2.2.2 := by
  cases draft with
  | particle p =>
    exact .bind (yields_giveParticles hp 1) (.bind (.demand rfl _) (.pure _ _))
  | cluster ps adjacency stiffness =>
    exact .bind (yields_giveParticles hp ps.length) (.pure _ _)
  | joint a b owners restLength compliance =>
    exact .bind (yields_giveConstraint hc) (.pure _ _)
  | suspension p owner target restLength compliance =>
    exact .bind (yields_giveConstraint hc) (.pure _ _)

/-- Every slot can be reached. -/
theorem yields_place (r : Registry S) (proxy : Proxy S) :
    (placeInPlace proxy : Attempt (Registry S) E _).Yields r () (r.place proxy) := by
  refine .bind (.change _ r) (.bind (.read _) (.bind (.demand (dif_pos ?_) _)
    (.bind (.change _ _) (.change _ _))))
  rw [Array.size_append, Array.size_replicate]
  omega

/-- A registration that is refused changes nothing. -/
theorem does_register [Scalar S] (hr : r.proxyPool.Sound) (hp : r.particlePool.Sound)
    (hc : r.constraintPool.Sound) (owner : ExternalId) (blueprint : Blueprint S)
    (timestamp : Timestamp) (defaultStiffness : S) :
    (registerInPlace owner blueprint timestamp defaultStiffness).Does r
      ((fun (id, creation, after) => ((id, creation), after)) <$>
        r.register owner blueprint timestamp defaultStiffness) := by
  unfold registerInPlace register
  refine .read ?_
  cases r.owners[owner]? with
  | some proxy => exact .refuse _ r
  | none =>
    dsimp only
    rw [map_bind]
    refine .check fun draft _ => ?_
    have hgive : (giveProxy : Attempt (Registry S) RegistrationError _).Yields r r.proxyPool.alloc.1
        { r with proxyPool := r.proxyPool.alloc.2 } :=
      .bind (.read r) (.bind (.demand (HandlePool.allocChecked_eq hr) r)
        (.bind (.change _ r) (.pure _ _)))
    have hreserve := yields_reserve (E := RegistrationError)
      (r := { r with proxyPool := r.proxyPool.alloc.2 }) hp hc draft
    exact .ok (.bind hgive (.bind hreserve (.bind (.change _ _)
      (.bind (yields_place _ _) (.pure _ _)))))

/-! ## Unregistering -/

/-- Unregisters a proxy and every constraint attached to it: what is to be destroyed, constraints
first. -/
def unregisterInPlace (id : ProxyId) (timestamp : Timestamp) :
    Attempt (Registry S) RegistrationError (List ProxyId) := do
  let r ← get
  let proxy ← check (r.find id)
  check (requireLive proxy)
  let attached := (r.dependents.getD id ∅).toList
  change fun r => { r with dependents := r.dependents.erase id }
  let r ← get
  let destroyed := attached.filter r.isLive ++ [id]
  destroyed.forM fun id => change (mark timestamp · id)
  return destroyed

theorem yields_mark (timestamp : Timestamp) (ids : List ProxyId) (r : Registry S) :
    (ids.forM fun id => change (mark timestamp · id) : Attempt (Registry S) E _).Yields r ()
      (ids.foldl (mark timestamp) r) := by
  induction ids generalizing r with
  | nil => exact .pure _ r
  | cons id rest ih => exact .bind (.change _ r) (ih _)

/-- A proxy that may not be unregistered is left alone, and so are its constraints. -/
theorem does_unregister (r : Registry S) (id : ProxyId) (timestamp : Timestamp) :
    (unregisterInPlace id timestamp).Does r (r.unregister id timestamp) := by
  unfold unregisterInPlace unregister
  refine .read (.check fun proxy _ => .check fun _ _ => ?_)
  exact .ok (.bind (.change _ r) (.bind (.read _) (.bind (yields_mark timestamp _ _) (.pure _ _))))

/-! ## Writes -/

/-- A proxy that may be written to; it is stamped. -/
def forWriteInPlace (id : ProxyId) (timestamp : Timestamp) :
    Attempt (Registry S) RegistrationError (Proxy S) := do
  let r ← get
  let proxy ← check (r.find id)
  check (requireLive proxy)
  change (·.modify id (stamp timestamp))
  return stamp timestamp proxy

/-- A proxy of one kind that may be written to. -/
def ofKindForWriteInPlace (id : ProxyId) (kind : ProxyKind) (timestamp : Timestamp) :
    Attempt (Registry S) RegistrationError (Proxy S) := do
  let r ← get
  let proxy ← check (r.find id)
  if proxy.kind ≠ kind then throw (.wrongKind id proxy.kind)
  forWriteInPlace id timestamp

/-- A particle that may be written to. -/
def particleForWriteInPlace (id : ProxyId) (index : Nat) (timestamp : Timestamp) :
    Attempt (Registry S) RegistrationError ParticleHandle := do
  let r ← get
  let proxy ← check (r.find id)
  check (requireParticles proxy)
  let handle ← check (entryOf id proxy.particles index)
  let _ ← forWriteInPlace id timestamp
  return handle

/-- A proxy that may not be written to is not stamped. -/
theorem does_forWrite (r : Registry S) (id : ProxyId) (timestamp : Timestamp) :
    (forWriteInPlace id timestamp).Does r (r.forWrite id timestamp) := by
  unfold forWriteInPlace forWrite
  refine .read (.check fun proxy _ => .check fun _ _ => ?_)
  exact .ok (.bind (.change _ r) (.pure _ _))

theorem does_ofKindForWrite (r : Registry S) (id : ProxyId) (kind : ProxyKind)
    (timestamp : Timestamp) :
    (ofKindForWriteInPlace id kind timestamp).Does r (r.ofKindForWrite id kind timestamp) := by
  unfold ofKindForWriteInPlace ofKindForWrite
  refine .read (.check fun proxy _ => ?_)
  by_cases hkind : proxy.kind ≠ kind
  · rw [if_pos hkind, if_pos hkind]
    exact .refuse _ r
  · rw [if_neg hkind, if_neg hkind]
    exact does_forWrite r id timestamp

theorem lt_of_particleForWrite_ok {id : ProxyId} {index : Nat} {timestamp : Timestamp}
    {handle : ParticleHandle} {after : Registry S} {p : Proxy S}
    (hok : r.particleForWrite id index timestamp = .ok (handle, after)) (hp : r.get? id = some p) :
    index < p.particles.size := by
  unfold particleForWrite at hok
  rcases exists_of_bind_ok hok with ⟨q, hq, hok⟩
  rcases exists_of_bind_ok hok with ⟨_, _, hok⟩
  rcases exists_of_bind_ok hok with ⟨k, hk, _⟩
  rw [find_ok hq] at hp
  cases hp
  unfold entryOf at hk
  split at hk
  case h_1 hentry => exact (Array.getElem?_eq_some_iff.mp hentry).1
  case h_2 => cases hk

theorem does_particleForWrite (r : Registry S) (id : ProxyId) (index : Nat)
    (timestamp : Timestamp) :
    (particleForWriteInPlace id index timestamp).Does r
      (r.particleForWrite id index timestamp) := by
  unfold particleForWriteInPlace particleForWrite
  refine .read (.check fun proxy _ => .check fun _ _ => .check fun handle _ => ?_)
  have hopen := (does_forWrite r id timestamp).bind (f := fun _ => pure handle)
    (g := fun opened => (handle, opened.2)) fun _ _ _ => .pure _ _
  rw [map_eq_pure_bind] at hopen
  exact hopen

end Registry

end TetheredParticles
