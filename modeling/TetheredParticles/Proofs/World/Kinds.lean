import TetheredParticles.Proofs.World.Edits
/-!
# One proxy, one kind

What a proxy is known for is either particles, a joint or a suspension. A proxy that is known is not
created a second time, and no other write makes a proxy known.

* `World.Unmixed` — no proxy is of two kinds.
* `World.Unmixed.updated`, `World.Unmixed.rebuilt` — through the stages of a step.
-/

namespace TetheredParticles

variable {S : Type} [Scalar S]

namespace World

/-- No proxy is of two kinds. -/
structure Unmixed (w : World S) : Prop where
  joints : ∀ proxy : ProxyId, w.joints.contains proxy = true →
    w.members.contains proxy = false ∧ w.suspensions.contains proxy = false
  suspensions : ∀ proxy : ProxyId, w.suspensions.contains proxy = true →
    w.members.contains proxy = false

namespace Unmixed

variable {w after : World S}

omit [Scalar S] in
theorem empty (config : Config S) : (empty config).Unmixed := by
  refine ⟨?_, ?_⟩
  · intro proxy _
    exact ⟨Std.TreeMap.contains_emptyc, Std.TreeMap.contains_emptyc⟩
  · intro proxy _
    exact Std.TreeMap.contains_emptyc

omit [Scalar S] in
/-- No proxy has become known. -/
theorem of_le (h : w.Unmixed)
    (hmembers : ∀ proxy : ProxyId, after.members.contains proxy = true →
      w.members.contains proxy = true)
    (hjoints : ∀ proxy : ProxyId, after.joints.contains proxy = true →
      w.joints.contains proxy = true)
    (hsuspensions : ∀ proxy : ProxyId, after.suspensions.contains proxy = true →
      w.suspensions.contains proxy = true) : after.Unmixed := by
  have hnone : ∀ {a b : Bool}, (a = true → b = true) → b = false → a = false := by
    intro a b hab hb
    cases a with
    | false => rfl
    | true => exact absurd (hab rfl) (by rw [hb]; exact Bool.false_ne_true)
  refine ⟨?_, ?_⟩
  · intro proxy hproxy
    rcases h.joints proxy (hjoints proxy hproxy) with ⟨hmember, hsuspension⟩
    exact ⟨hnone (hmembers proxy) hmember, hnone (hsuspensions proxy) hsuspension⟩
  · intro proxy hproxy
    exact hnone (hmembers proxy) (h.suspensions proxy (hsuspensions proxy hproxy))

omit [Scalar S] in
/-- Only who is known for what matters. -/
theorem of_eq (h : w.Unmixed) (hmembers : after.members = w.members)
    (hjoints : after.joints = w.joints) (hsuspensions : after.suspensions = w.suspensions) :
    after.Unmixed := by
  refine h.of_le ?_ ?_ ?_
  · exact fun _ hproxy => hmembers ▸ hproxy
  · exact fun _ hproxy => hjoints ▸ hproxy
  · exact fun _ hproxy => hsuspensions ▸ hproxy

theorem edited (h : w.Unmixed) (he : w.Edited after) : after.Unmixed := by
  refine h.of_le (fun _ hproxy => he.members ▸ hproxy) ?_ ?_
  · intro proxy hproxy
    have hmap := congrArg Option.isSome (he.joints proxy)
    rw [Option.isSome_map, Option.isSome_map] at hmap
    rw [Std.TreeMap.contains_eq_isSome_getElem?] at hproxy ⊢
    rw [← hmap, hproxy]
  · intro proxy hproxy
    have hmap := congrArg Option.isSome (he.suspensions proxy)
    rw [Option.isSome_map, Option.isSome_map] at hmap
    rw [Std.TreeMap.contains_eq_isSome_getElem?] at hproxy ⊢
    rw [← hmap, hproxy]

omit [Scalar S] in
/-- A proxy that was not known is known for its particles. -/
theorem insertMember (h : w.Unmixed) {proxy : ProxyId} (hjoint : w.joints.contains proxy = false)
    (hsuspension : w.suspensions.contains proxy = false) (handles : List ParticleHandle)
    (hmembers : after.members = w.members.insert proxy handles) (hjoints : after.joints = w.joints)
    (hsuspensions : after.suspensions = w.suspensions) : after.Unmixed := by
  have hother : ∀ owner : ProxyId, owner ≠ proxy → w.members.contains owner = false →
      after.members.contains owner = false := by
    intro owner hne hmember
    rw [hmembers, Maps.contains_insert, hmember, decide_eq_false hne]
    rfl
  refine ⟨?_, ?_⟩
  · intro owner howner
    rw [hjoints] at howner
    rcases h.joints owner howner with ⟨hmember, hnone⟩
    refine ⟨hother owner ?_ hmember, hsuspensions ▸ hnone⟩
    rintro rfl
    rw [hjoint] at howner
    cases howner
  · intro owner howner
    rw [hsuspensions] at howner
    refine hother owner ?_ (h.suspensions owner howner)
    rintro rfl
    rw [hsuspension] at howner
    cases howner

omit [Scalar S] in
/-- A proxy that was not known otherwise is known for a joint. -/
theorem insertJoint (h : w.Unmixed) {proxy : ProxyId} (hmember : w.members.contains proxy = false)
    (hsuspension : w.suspensions.contains proxy = false) (j : JointRecord S)
    (hmembers : after.members = w.members) (hjoints : after.joints = w.joints.insert proxy j)
    (hsuspensions : after.suspensions = w.suspensions) : after.Unmixed := by
  refine ⟨?_, ?_⟩
  · intro owner howner
    rw [hmembers, hsuspensions]
    rw [hjoints, Maps.contains_insert] at howner
    rcases Bool.or_eq_true_iff.mp howner with heq | howner
    · rw [of_decide_eq_true heq]
      exact ⟨hmember, hsuspension⟩
    · exact h.joints owner howner
  · intro owner howner
    rw [hmembers]
    exact h.suspensions owner (hsuspensions ▸ howner)

omit [Scalar S] in
/-- A proxy that was not known otherwise is known for a suspension. -/
theorem insertSuspension (h : w.Unmixed) {proxy : ProxyId}
    (hmember : w.members.contains proxy = false) (hjoint : w.joints.contains proxy = false)
    (s : SuspensionRecord S) (hmembers : after.members = w.members)
    (hjoints : after.joints = w.joints)
    (hsuspensions : after.suspensions = w.suspensions.insert proxy s) : after.Unmixed := by
  refine ⟨?_, ?_⟩
  · intro owner howner
    rw [hjoints] at howner
    rcases h.joints owner howner with ⟨hnone, hother⟩
    refine ⟨hmembers ▸ hnone, ?_⟩
    rw [hsuspensions, Maps.contains_insert, hother, Bool.or_false, decide_eq_false_iff_not]
    rintro rfl
    rw [hjoint] at howner
    cases howner
  · intro owner howner
    rw [hmembers]
    rw [hsuspensions, Maps.contains_insert] at howner
    rcases Bool.or_eq_true_iff.mp howner with heq | howner
    · rw [of_decide_eq_true heq]
      exact hmember
    · exact h.suspensions owner howner

theorem addParts (h : w.Unmixed) {proxy : ProxyId} {creation : Creation S}
    (hknown : w.knows proxy = false) (hw : w.addParts? proxy creation = some after) :
    after.Unmixed := by
  unfold knows at hknown
  rcases Bool.or_eq_false_iff.mp hknown with ⟨hknown, hsuspension⟩
  rcases Bool.or_eq_false_iff.mp hknown with ⟨hmember, hjoint⟩
  have hinsert : ∀ {handles : List ParticleHandle} {particles : List (Particle S)}
      {inserted : World S}, w.insertParticles? proxy handles particles = some inserted →
      inserted.Unmixed := by
    intro handles particles inserted hinserted
    unfold insertParticles? at hinserted
    split at hinserted
    · cases hinserted
    · cases hinserted
      exact h.insertMember hjoint hsuspension handles rfl rfl rfl
  cases creation with
  | particle handle particle => exact hinsert hw
  | cluster handles particles adjacency stiffness =>
    simp only [addParts?] at hw
    split at hw
    case isFalse => cases hw
    case isTrue =>
      rcases Option.map_eq_some_iff.mp hw with ⟨inserted, hinserted, rfl⟩
      exact (hinsert hinserted).of_eq rfl rfl rfl
  | joint handle first second restLength compliance =>
    simp only [addParts?] at hw
    split at hw
    case isFalse => cases hw
    case isTrue =>
      cases hw
      exact h.insertJoint hmember hsuspension _ rfl rfl rfl
  | suspension handle particle target restLength compliance =>
    simp only [addParts?] at hw
    split at hw
    case isFalse => cases hw
    case isTrue =>
      cases hw
      exact h.insertSuspension hmember hjoint _ rfl rfl rfl

theorem create (h : w.Unmixed) {proxy : ProxyId} {creation : Creation S}
    (hw : w.create? proxy creation = some after) : after.Unmixed := by
  unfold create? at hw
  split at hw
  case isTrue => cases hw
  case isFalse hknown =>
    rcases Option.map_eq_some_iff.mp hw with ⟨parts, hparts, rfl⟩
    exact (h.addParts (Bool.eq_false_iff.mpr hknown) hparts).of_eq rfl rfl rfl

theorem destroy (h : w.Unmixed) (proxy : ProxyId) : (w.destroy proxy).2.Unmixed := by
  have herase : ∀ {V : Type} {m : Std.TreeMap ProxyId V} {owner : ProxyId},
      (m.erase proxy).contains owner = true → m.contains owner = true := by
    intro V m owner howner
    rw [Std.TreeMap.contains_erase, Bool.and_eq_true] at howner
    exact howner.2
  unfold World.destroy
  dsimp only
  split
  case h_1 after hw =>
    unfold remove? at hw
    split at hw
    case h_1 handles _ =>
      cases hw
      exact h.of_le (fun _ => herase) (fun _ => id) (fun _ => id)
    case h_2 =>
      split at hw
      case isTrue =>
        cases hw
        exact h.of_le (fun _ => id) (fun _ => herase) (fun _ => id)
      case isFalse =>
        split at hw
        case isTrue =>
          cases hw
          exact h.of_le (fun _ => id) (fun _ => id) (fun _ => herase)
        case isFalse => cases hw
  case h_2 => exact h.of_eq rfl rfl rfl

theorem applyCommand (h : w.Unmixed) (proxy : ProxyId) (command : Command S) :
    (w.applyCommand proxy command).2.Unmixed := by
  by_cases hedit : command.IsEdit
  · exact h.edited (edited_applyCommand w proxy hedit)
  · cases command with
    | create creation =>
      unfold World.applyCommand accept
      dsimp only
      split
      case h_1 after hw => exact h.create hw
      case h_2 => exact h
    | destroy => exact h.destroy proxy
    | _ => exact absurd trivial hedit

theorem updated (h : w.Unmixed) (deltas : List (Delta S)) : (w.updated deltas).Unmixed := by
  refine applyDeltas_keeps (P := Unmixed) (w := { w with touched := ∅ }) (h.of_eq rfl rfl rfl) ?_ ?_
  · intro v touched hv
    exact hv.of_eq rfl rfl rfl
  · intro v d _ hv
    exact hv.applyCommand d.proxy d.command

/-- Rebuilding makes nothing known. -/
theorem rebuilt (h : w.Unmixed) (hr : w.Rebuilt after) : after.Unmixed := by
  have hfilter : ∀ {V : Type} {m : Std.TreeMap ProxyId V} {keep : ProxyId → V → Bool}
      {owner : ProxyId}, (m.filter keep).contains owner = true → m.contains owner = true := by
    intro V m keep owner howner
    rw [Std.TreeMap.contains_eq_isSome_getElem?, Std.TreeMap.getElem?_filter'] at howner
    rw [Std.TreeMap.contains_eq_isSome_getElem?]
    exact Option.isSome_of_isSome_filter _ _ howner
  refine h.of_le ?_ ?_ ?_
  · exact fun _ hproxy => hr.members ▸ hproxy
  · exact fun _ hproxy => hfilter (hr.joints ▸ hproxy)
  · exact fun _ hproxy => hfilter (hr.suspensions ▸ hproxy)

end Unmixed

end World

end TetheredParticles
