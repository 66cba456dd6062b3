/-!
# Handles

A handle names a slot and the generation of its occupant. When a slot is given to somebody else
its generation changes, so a handle of the previous occupant is recognised as stale. Handles of
different kinds are different types.

* `Handle.bits` — both parts in one word.
* `Handle.text` — how a handle is written in messages.
* The order compares slots first.
-/

namespace TetheredParticles

/-- What a handle names; constraints are joints and suspensions. -/
inductive HandleKind where
  | particle
  | proxy
  | constraint
deriving DecidableEq, Repr

/-- A slot together with the generation of its occupant, which tells how often the slot had been
freed before. A slot is unbounded here; where handles are held as words (`Handle.bits`) it has 32
bits, and both agree below `2 ^ 32` slots. -/
structure Handle (kind : HandleKind) where
  index : Nat
  generation : UInt32
deriving DecidableEq, Repr, Inhabited

/-- Names a particle of the world. -/
abbrev ParticleHandle := Handle .particle

/-- Names a registered proxy. -/
abbrev ProxyId := Handle .proxy

/-- Names a joint or a suspension. -/
abbrev ConstraintHandle := Handle .constraint

namespace Handle

variable {kind : HandleKind}

/-- Handles are ordered by slot, then by generation. -/
instance : Ord (Handle kind) where
  compare a b := (compare a.index b.index).then (compare a.generation b.generation)

/-- The generation in the upper and the slot in the lower half of a word of 64 bits. -/
def bits (h : Handle kind) : Nat := h.generation.toNat * 0x100000000 + h.index

/-- A slot and its generation as `slot v generation`, with the kind around it for everything but
particles. -/
def text (h : Handle kind) : String :=
  let plain := toString h.index ++ "v" ++ toString h.generation.toNat
  match kind with
  | .particle => plain
  | .proxy => "Proxy(" ++ plain ++ ")"
  | .constraint => "Constraint(" ++ plain ++ ")"

end Handle

end TetheredParticles
