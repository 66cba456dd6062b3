import TetheredParticles.Proofs.World.Confirmation
import TetheredParticles.Proofs.World.Kinds
/-!
# Worlds that came about

A world comes about from the empty one by steps and new configurations. Then it is in order, every
particle of it is listed for its proxy, and to rebuild it would change nothing that shows.

* `World.run` — the world that is left after what it was asked.
* `World.Listed` — every particle belongs to a proxy that lists it.
* `World.Grown` — what holds of a world that came about.
* `World.grown_of_run` — whatever was asked.
-/

namespace TetheredParticles

variable {S T : Type} [Scalar S] [Scalar T] [Timeline S T]

namespace World

/-- The world that is left after what it was asked in order. -/
def run (w : World S) : List (Action S T) → Except Fault (World S)
  | [] => .ok w
  | .step snapshot :: rest => do (← w.step snapshot).world.run rest
  | .configure config :: rest => (w.setConfig config).run rest
  | .confirm :: rest => (w.setConfig w.config).run rest

/-! ## Owners -/

/-- Every particle belongs to a proxy that lists it. -/
def Listed (w : World S) : Prop :=
  ∀ i, w.store.isAlive i = true → ∃ owner, (w.store.slot i).owner = some owner ∧
    ∃ handles, w.members[owner]? = some handles ∧
      ∃ h ∈ handles, h.index = i ∧ w.store.contains h = true

namespace Listed

variable {w after : World S}

theorem empty (config : Config S) : (empty config).Listed := by
  intro i hi
  cases hi

/-- The same proxies with the same particles in the same slots. -/
theorem of_eq (h : w.Listed) (halive : ∀ i, after.store.isAlive i = w.store.isAlive i)
    (howner : ∀ i, (after.store.slot i).owner = (w.store.slot i).owner)
    (hcontains : ∀ k, after.store.contains k = w.store.contains k)
    (hmembers : after.members = w.members) : after.Listed := by
  intro i hi
  rcases h i (halive i ▸ hi) with ⟨owner, hown, handles, hhandles, k, hk, hindex, hkc⟩
  exact ⟨owner, (howner i).trans hown, handles, hmembers ▸ hhandles, k, hk, hindex,
    (hcontains k).trans hkc⟩

/-- Only how particles move has changed. -/
theorem alike (h : w.Listed) (hs : w.store.Alike after.store)
    (hmembers : after.members = w.members) : after.Listed :=
  h.of_eq hs.isAlive (fun i => (hs.slot i).owner) hs.contains hmembers

/-- New particles are listed for their proxy, which had none before. -/
theorem insertParticles (h : w.Listed) {proxy : ProxyId} {handles : List ParticleHandle}
    {particles : List (Particle S)} (hnew : w.members[proxy]? = none)
    (hw : w.insertParticles? proxy handles particles = some after) : after.Listed := by
  unfold insertParticles? at hw
  split at hw
  case isTrue => cases hw
  case isFalse =>
    cases hw
    intro i hi
    dsimp only at hi ⊢
    unfold ParticleStore.isAlive at hi
    rcases ParticleStore.slot_insertAll proxy (handles.zip particles) w.store i with
      ⟨_, x, hx, hindex, hslot⟩ | ⟨_, hslot⟩
    · rw [hslot]
      refine ⟨proxy, rfl, handles, ?_, x.1, (List.of_mem_zip hx).1, hindex, ?_⟩
      · rw [Maps.getElem?_insert, if_pos rfl]
      · rw [ParticleStore.contains_iff]
        unfold ParticleStore.isAlive
        rw [hindex, hslot]
        exact ⟨rfl, rfl⟩
    · rw [hslot] at hi ⊢
      rcases h i hi with ⟨owner, hown, others, hothers, k, hk, hki, hkc⟩
      refine ⟨owner, hown, others, ?_, k, hk, hki, ?_⟩
      · rw [Maps.getElem?_insert, if_neg]
        · exact hothers
        · rintro rfl
          rw [hnew] at hothers
          cases hothers
      · exact (ParticleStore.contains_congr (by rw [hki, hslot])).trans hkc

theorem addParts (h : w.Listed) {proxy : ProxyId} {creation : Creation S}
    (hnew : w.members[proxy]? = none) (hw : w.addParts? proxy creation = some after) :
    after.Listed := by
  cases creation with
  | particle handle particle => exact h.insertParticles hnew hw
  | cluster handles particles adjacency stiffness =>
    simp only [addParts?] at hw
    split at hw
    case isFalse => cases hw
    case isTrue =>
      rcases Option.map_eq_some_iff.mp hw with ⟨inserted, hinserted, rfl⟩
      have hlisted : inserted.Listed := h.insertParticles hnew hinserted
      exact hlisted
  | joint handle first second restLength compliance =>
    simp only [addParts?] at hw
    split at hw
    case isFalse => cases hw
    case isTrue =>
      cases hw
      exact h
  | suspension handle particle target restLength compliance =>
    simp only [addParts?] at hw
    split at hw
    case isFalse => cases hw
    case isTrue =>
      cases hw
      exact h

theorem create (h : w.Listed) {proxy : ProxyId} {creation : Creation S}
    (hw : w.create? proxy creation = some after) : after.Listed := by
  unfold create? at hw
  split at hw
  case isTrue => cases hw
  case isFalse hknown =>
    rcases Option.map_eq_some_iff.mp hw with ⟨parts, hparts, rfl⟩
    have hlisted : parts.Listed := h.addParts (members_eq_none hknown) hparts
    exact hlisted

/-- A proxy that is removed takes all its particles along. -/
theorem remove (h : w.Listed) {proxy : ProxyId} (hw : w.remove? proxy = some after) :
    after.Listed := by
  unfold remove? at hw
  split at hw
  case h_1 handles hhandles =>
    cases hw
    intro i hi
    dsimp only at hi ⊢
    unfold ParticleStore.isAlive at hi
    rcases ParticleStore.slot_removeAll handles w.store i with ⟨_, hslot⟩ | ⟨hnone, hslot⟩
    · rw [hslot] at hi
      cases hi
    · rw [hslot] at hi ⊢
      rcases h i hi with ⟨owner, hown, others, hothers, k, hk, hki, hkc⟩
      refine ⟨owner, hown, others, ?_, k, hk, hki, ?_⟩
      · rw [Maps.getElem?_erase, if_neg]
        · exact hothers
        · -- a particle of the proxy would have been removed
          rintro rfl
          rw [hhandles] at hothers
          cases hothers
          rw [hnone k hk hki] at hkc
          cases hkc
      · exact (ParticleStore.contains_congr (by rw [hki, hslot])).trans hkc
  case h_2 =>
    split at hw
    case isTrue =>
      cases hw
      exact h
    case isFalse =>
      split at hw
      case isTrue =>
        cases hw
        exact h
      case isFalse => cases hw

theorem destroy (h : w.Listed) (proxy : ProxyId) : (w.destroy proxy).2.Listed := by
  unfold World.destroy
  dsimp only
  split
  case h_1 after hw =>
    have hlisted : after.Listed := h.remove hw
    exact hlisted
  case h_2 => exact h

theorem applyCommand (h : w.Listed) (proxy : ProxyId) (command : Command S) :
    (w.applyCommand proxy command).2.Listed := by
  by_cases hedit : command.IsEdit
  · have hedited := edited_applyCommand w proxy hedit
    exact h.of_eq hedited.alive hedited.owner hedited.contains hedited.members
  · cases command with
    | create creation =>
      unfold World.applyCommand accept
      dsimp only
      split
      case h_1 after hw => exact h.create hw
      case h_2 => exact h
    | destroy => exact h.destroy proxy
    | _ => exact absurd trivial hedit

theorem updated (h : w.Listed) (deltas : List (Delta S)) : (w.updated deltas).Listed := by
  refine applyDeltas_keeps (P := Listed) (w := { w with touched := ∅ }) h ?_ ?_
  · intro v touched hv
    exact hv
  · intro v d _ hv
    exact hv.applyCommand d.proxy d.command

theorem rebuilt (h : w.Listed) (hr : w.Rebuilt after) : after.Listed :=
  h.alike (hr.store ▸ .refl _) hr.members

omit [Scalar T] [Timeline S T] in
theorem stepped (h : w.Listed) (snapshot : PushSnapshot S T) : (w.stepped snapshot).Listed :=
  h.alike (alike_stepped w snapshot) (known_stepped w snapshot).1

end Listed

/-! ## Steps -/

omit [Scalar T] [Timeline S T] in
theorem Unmixed.stepped {w : World S} (h : w.Unmixed) (snapshot : PushSnapshot S T) :
    (w.stepped snapshot).Unmixed := by
  rcases known_stepped w snapshot with ⟨hmembers, _, hjoints, hsuspensions⟩
  exact h.of_eq hmembers hjoints hsuspensions

/-- What holds of a world that came about. -/
structure Grown (w : World S) : Prop where
  renewed : w.Renewed w
  unmixed : w.Unmixed
  listed : w.Listed

namespace Grown

variable {w : World S}

theorem empty (config : Config S) : (empty config).Grown :=
  ⟨renewed_empty config, .empty config, .empty config⟩

theorem configure (h : w.Grown) (config : Config S) : (w.setConfig config).Grown :=
  ⟨h.renewed.configure config, h.unmixed.of_eq rfl rfl rfl, h.listed⟩

/-- A world that came about steps, and what is left came about as well. -/
theorem step [LawfulZero S] [LawfulDirections S] (h : w.Grown) {snapshot : PushSnapshot S T}
    (hs : snapshot.Admissible) :
    ∃ outcome, w.step snapshot = .ok outcome ∧ outcome.world.Grown := by
  rcases h.renewed.step hs with ⟨one, two, hone, htwo, _, hrenewed⟩
  have heq : two = one := Except.ok.inj (htwo.symm.trans hone)
  subst heq
  rcases (step_ends h.renewed.inv.1 snapshot hs.inRange).holds_of_eq hone
    with ⟨before, hprepare, _, _, hworld, _, _⟩
  rcases (prepare_ends h.renewed.inv.1 hs.inRange).holds_of_eq hprepare with ⟨_, hbefore, _⟩
  have hunmixed := h.unmixed.updated snapshot.deltas
  have hlisted := h.listed.updated snapshot.deltas
  refine ⟨two, hone, hrenewed, ?_, ?_⟩
  · rw [hworld]
    rcases hbefore with rfl | hrebuilt
    · exact hunmixed.stepped snapshot
    · exact (hunmixed.rebuilt hrebuilt).stepped snapshot
  · rw [hworld]
    rcases hbefore with rfl | hrebuilt
    · exact hlisted.stepped snapshot
    · exact (hlisted.rebuilt hrebuilt).stepped snapshot

/-- Whatever a world that came about is asked, another one comes about. -/
theorem run [LawfulZero S] [LawfulDirections S] (h : w.Grown) {actions : List (Action S T)}
    (ha : ∀ s, .step s ∈ actions → s.Admissible) :
    ∃ after, w.run actions = .ok after ∧ after.Grown := by
  induction actions generalizing w with
  | nil => exact ⟨w, rfl, h⟩
  | cons action rest ih =>
    have hrest : ∀ s, .step s ∈ rest → s.Admissible :=
      fun s hs => ha s (List.mem_cons_of_mem action hs)
    cases action with
    | step snapshot =>
      rcases h.step (ha snapshot List.mem_cons_self) with ⟨outcome, houtcome, hgrown⟩
      rcases ih hgrown hrest with ⟨after, hafter, hgrown⟩
      refine ⟨after, ?_, hgrown⟩
      unfold World.run
      rw [houtcome, ok_bind, hafter]
    | configure config => exact ih (h.configure config) hrest
    | confirm => exact ih (h.configure w.config) hrest

end Grown

/-- What is left after anything that was asked of the empty world came about. -/
theorem grown_of_run [LawfulZero S] [LawfulDirections S] {config : Config S}
    {actions : List (Action S T)} (ha : ∀ s, .step s ∈ actions → s.Admissible) {w : World S}
    (hw : (empty config).run actions = .ok w) : w.Grown := by
  rcases (Grown.empty config).run ha with ⟨after, hafter, hgrown⟩
  rw [hw] at hafter
  cases hafter
  exact hgrown

end World

end TetheredParticles
