import TetheredParticles.Proofs.Registry.Changes
/-!
# Runs of the registry

The producer changes the registry by four kinds of calls. A call that is refused leaves the
registry as it is.

* `Registry.Call`, `Registry.perform`, `Registry.run` — one call, and calls one after the other.
* `Registry.openFor_ok` — the three ways to a proxy that may be written to come to the same.
* `Registry.kept_or_stamped` — a live proxy is as it was before a call, or has its stamp.
-/

namespace TetheredParticles

variable {S : Type}

/-- The later of two numbers is no earlier than the second one. -/
theorem Timestamp.le_latest (a b : Timestamp) : b ≤ a.latest b := by
  unfold latest
  split
  case isTrue => exact Nat.le_refl b.ticks
  case isFalse h => exact Nat.le_of_not_le h

namespace Registry

/-- What a write requires of a proxy besides that it has not been unregistered. -/
inductive Access where
  | any
  | ofKind (kind : ProxyKind)
  /-- The proxy owns a particle. -/
  | particle (index : Nat)

/-- A call that changes the registry. -/
inductive Call (S : Type) where
  | register (owner : ExternalId) (blueprint : Blueprint S) (timestamp : Timestamp)
      (defaultStiffness : S)
  | unregister (id : ProxyId) (timestamp : Timestamp)
  /-- A proxy is written to, which changes the producer's view of it. -/
  | write (id : ProxyId) (access : Access) (timestamp : Timestamp)
      (view : ProxyState S → ProxyState S)
  /-- The handles of destroyed proxies are given back. -/
  | collectGarbage (consumed : Timestamp)

/-- The registry in which a proxy is stamped for a write. -/
def openFor (r : Registry S) (id : ProxyId) (timestamp : Timestamp) :
    Access → Except RegistrationError (Registry S)
  | .any => (·.2) <$> r.forWrite id timestamp
  | .ofKind kind => (·.2) <$> r.ofKindForWrite id kind timestamp
  | .particle index => (·.2) <$> r.particleForWrite id index timestamp

/-- Changes the producer's view of a proxy. -/
def edit (view : ProxyState S → ProxyState S) (p : Proxy S) : Proxy S :=
  { p with state := view p.state }

variable [Scalar S]

/-- The registry after a call, or why it is refused. -/
def attempt (r : Registry S) : Call S → Except RegistrationError (Registry S)
  | .register owner blueprint timestamp defaultStiffness =>
    (·.2.2) <$> r.register owner blueprint timestamp defaultStiffness
  | .unregister id timestamp => (·.2) <$> r.unregister id timestamp
  | .write id access timestamp view => (·.modify id (edit view)) <$> r.openFor id timestamp access
  | .collectGarbage consumed => .ok (r.collectGarbage consumed)

/-- The registry after a call, which is the same if it was refused. -/
def perform (r : Registry S) (call : Call S) : Registry S :=
  match r.attempt call with
  | .ok after => after
  | .error _ => r

/-- What has become of an empty registry after calls in order. -/
def run (calls : List (Call S)) : Registry S := calls.foldl perform empty

/-! ## Calls that are not refused -/

omit [Scalar S] in
theorem exists_of_map_ok {E α β : Type} {x : Except E α} {f : α → β} {b : β}
    (h : f <$> x = .ok b) : ∃ a, x = .ok a ∧ f a = b := by
  cases x with
  | error e => cases h
  | ok a =>
    cases h
    exact ⟨a, rfl, rfl⟩

omit [Scalar S] in
/-- However a proxy is got at, it has not been unregistered and is stamped. -/
theorem openFor_ok {r after : Registry S} {id : ProxyId} {timestamp : Timestamp} {access : Access}
    (h : r.openFor id timestamp access = .ok after) :
    (∃ p, r.get? id = some p ∧ p.pendingDestroy = none) ∧
      after = r.modify id (stamp timestamp) := by
  cases access with
  | any =>
    rcases exists_of_map_ok h with ⟨⟨p, registry⟩, hok, rfl⟩
    rcases forWrite_ok hok with ⟨q, hq, hlive, _, rfl⟩
    exact ⟨⟨q, hq, hlive⟩, rfl⟩
  | ofKind kind =>
    rcases exists_of_map_ok h with ⟨⟨p, registry⟩, hok, rfl⟩
    rcases ofKindForWrite_ok hok with ⟨q, hq, hlive, _, _, rfl⟩
    exact ⟨⟨q, hq, hlive⟩, rfl⟩
  | particle index =>
    rcases exists_of_map_ok h with ⟨⟨k, registry⟩, hok, rfl⟩
    rcases particleForWrite_ok hok with ⟨q, hq, _, rfl⟩
    exact ⟨⟨q, hq.1, hq.2.1⟩, rfl⟩

/-- What every call that is not refused keeps, every call keeps. -/
theorem perform_keeps {P : Registry S → Prop} {r : Registry S} {call : Call S} (h : P r)
    (hok : ∀ after, r.attempt call = .ok after → P after) : P (r.perform call) := by
  unfold perform
  split
  case h_1 after hafter => exact hok after hafter
  case h_2 => exact h

/-! ## Proxies that a call leaves alone -/

/-- The number with which a call stamps a proxy that stays live. -/
def Call.stampedAt? : Call S → Option Timestamp
  | .register _ _ timestamp _ => some timestamp
  | .write _ _ timestamp _ => some timestamp
  | _ => none

section

omit [Scalar S]

variable {r : Registry S} {id : ProxyId} {p : Proxy S}

theorem proxies_reserve (r : Registry S) (draft : Draft S) :
    (r.reserve draft).2.2.2.proxies = r.proxies := by
  cases draft with
  | particle p => rfl
  | cluster ps adjacency stiffness => rfl
  | joint a b owners restLength compliance => rfl
  | suspension k owner target restLength compliance => rfl

/-- A new proxy is stamped. -/
theorem get?_of_get?_enter [Scalar S] {owner : ExternalId} {draft : Draft S}
    {timestamp : Timestamp} (h : (r.enter owner draft timestamp).2.2.get? id = some p) :
    p.syncTimestamp = timestamp ∨ r.get? id = some p := by
  unfold enter at h
  dsimp only at h
  rcases get?_of_get?_place h with rfl | h
  · exact .inl rfl
  · refine .inr (Eq.trans ?_ h)
    unfold get? attach
    dsimp only
    rw [proxies_reserve]

/-- A proxy that is still live has not been marked. -/
theorem get?_of_get?_mark {timestamp : Timestamp} {a : ProxyId}
    (h : (mark timestamp r a).get? id = some p) (hlive : p.isPending = false) :
    r.get? id = some p := by
  unfold mark at h
  split at h
  case h_1 => exact h
  case h_2 q hq =>
    rcases get?_of_get?_modify h fun _ => rfl with ⟨_, q, _, rfl⟩ | ⟨_, hold⟩
    · cases hlive
    · exact hold

theorem get?_of_get?_unregister {a : ProxyId} {timestamp : Timestamp} {gone : List ProxyId}
    {after : Registry S} (hok : r.unregister a timestamp = .ok (gone, after))
    (h : after.get? id = some p) (hlive : p.isPending = false) : r.get? id = some p := by
  unfold unregister at hok
  rcases exists_of_bind_ok hok with ⟨_, _, hok⟩
  rcases exists_of_bind_ok hok with ⟨_, _, hok⟩
  cases hok
  generalize (r.dependents.getD a ∅).toList.filter r.isLive ++ [a] = gone at h
  suffices hall : ∀ r : Registry S, (gone.foldl (mark timestamp) r).get? id = some p →
      r.get? id = some p from hall { r with dependents := r.dependents.erase a } h
  clear h
  intro r h
  induction gone generalizing r with
  | nil => exact h
  | cons a rest ih => exact get?_of_get?_mark (ih _ h) hlive

theorem get?_of_get?_collectGarbage {consumed : Timestamp}
    (h : (r.collectGarbage consumed).get? id = some p) : r.get? id = some p := by
  unfold collectGarbage at h
  generalize r.toList.filter (isGarbage consumed) = gone at h
  induction gone generalizing r with
  | nil => exact h
  | cons q rest ih => exact get?_of_get?_release (ih h)

/-- What a write leaves of each proxy. -/
theorem get?_write (r : Registry S) (a : ProxyId) (timestamp : Timestamp)
    (view : ProxyState S → ProxyState S) (id : ProxyId) :
    ((r.modify a (stamp timestamp)).modify a fun p => { p with state := view p.state }).get? id =
      if id = a then (r.get? id).map fun p => { stamp timestamp p with state := view p.state }
      else r.get? id := by
  rw [get?_modify (fun _ => by rfl), get?_modify fun p => (stamp_keeps timestamp p).1]
  by_cases ha : id = a
  · rw [if_pos ha, if_pos ha, if_pos ha, Option.map_map]
    rfl
  · rw [if_neg ha, if_neg ha, if_neg ha]

/-- A proxy that is written to is stamped. -/
theorem get?_of_get?_write {a : ProxyId} {timestamp : Timestamp}
    {view : ProxyState S → ProxyState S}
    (h : ((r.modify a (stamp timestamp)).modify a (edit view)).get? id = some p) :
    timestamp ≤ p.syncTimestamp ∨ r.get? id = some p := by
  rcases get?_of_get?_modify h fun _ => rfl with ⟨ha, q, hq, rfl⟩ | ⟨ha, h⟩
  · rcases get?_of_get?_modify hq fun _ => rfl with ⟨_, q, _, rfl⟩ | ⟨hne, _⟩
    · exact .inl (Timestamp.le_latest _ _)
    · exact absurd ha hne
  · rcases get?_of_get?_modify h fun _ => rfl with ⟨heq, _⟩ | ⟨_, hold⟩
    · exact absurd heq ha
    · exact .inr hold

end

/-- After a call a live proxy is as it was before, or it has the stamp of the call. -/
theorem kept_or_stamped {r : Registry S} {call : Call S} {id : ProxyId} {p : Proxy S}
    (h : (r.perform call).get? id = some p) (hlive : p.isPending = false) :
    r.get? id = some p ∨ ∃ t ∈ call.stampedAt?, t ≤ p.syncTimestamp := by
  unfold perform at h
  split at h
  case h_2 => exact .inl h
  case h_1 after hok =>
    cases call with
    | register owner blueprint timestamp stiffness =>
      rcases exists_of_map_ok hok with ⟨⟨id', creation, registry⟩, hregister, rfl⟩
      unfold register at hregister
      split at hregister
      case h_1 => cases hregister
      rcases exists_of_bind_ok hregister with ⟨draft, _, hregister⟩
      cases hregister
      rcases get?_of_get?_enter h with hsync | hold
      · exact .inr ⟨timestamp, rfl, Nat.le_of_eq (congrArg Timestamp.ticks hsync.symm)⟩
      · exact .inl hold
    | unregister a timestamp =>
      rcases exists_of_map_ok hok with ⟨⟨gone, registry⟩, hunregister, rfl⟩
      exact .inl (get?_of_get?_unregister hunregister h hlive)
    | write a access timestamp view =>
      rcases exists_of_map_ok hok with ⟨registry, hopen, rfl⟩
      rcases openFor_ok hopen with ⟨_, rfl⟩
      rcases get?_of_get?_write h with hsync | hold
      · exact .inr ⟨timestamp, rfl, hsync⟩
      · exact .inl hold
    | collectGarbage consumed =>
      cases hok
      exact .inl (get?_of_get?_collectGarbage h)

end Registry

end TetheredParticles
