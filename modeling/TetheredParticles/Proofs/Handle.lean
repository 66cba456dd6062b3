import TetheredParticles.Proxy
/-!
# The order of handles

Handles and owners are compared by their numbers. The order is total and handles that compare as
equal are equal, so that maps and sets of them behave as finite maps and sets.
-/

namespace TetheredParticles

open Std

/-- Handles with the same slot and generation are the same. -/
theorem Handle.eq_of_parts {kind : HandleKind} {a b : Handle kind} (hindex : a.index = b.index)
    (hgeneration : a.generation = b.generation) : a = b := by
  cases a
  cases b
  cases hindex
  cases hgeneration
  rfl

instance {kind : HandleKind} : TransOrd (Handle kind) :=
  inferInstanceAs
    (TransCmp (α := Handle kind) (compareLex (compareOn Handle.index) (compareOn Handle.generation)))

instance {kind : HandleKind} : LawfulEqOrd (Handle kind) where
  compare_self := ReflCmp.compare_self
  eq_of_compare {a b} h := by
    obtain ⟨hindex, hgeneration⟩ := Ordering.then_eq_eq.mp h
    exact Handle.eq_of_parts (LawfulEqCmp.eq_of_compare hindex)
      (LawfulEqCmp.eq_of_compare hgeneration)

instance : TransOrd ExternalId := inferInstanceAs (TransCmp (compareOn ExternalId.number))

instance : LawfulEqOrd ExternalId where
  compare_self := ReflCmp.compare_self
  eq_of_compare {a b} h := by
    cases a
    cases b
    exact congrArg ExternalId.mk (Nat.compare_eq_eq.mp h)

end TetheredParticles
