import TetheredParticles.Proofs.World.Matched
/-!
# Worlds that are grouped differently

Two worlds that allow different numbers of islands can hold the same particles and constraints. The
islands, the order of the tethers in a cluster and whatever workspaces hold may then differ, and
nothing else.

* `Config.Regrouped`, `Cluster.Regrouped`, `World.Regrouped` — the relation.
* `World.Regrouped.updated` — writes keep it.
-/

namespace TetheredParticles

variable {S : Type}

/-- Configurations that differ at most in the number of islands they allow. -/
def Config.Regrouped (c d : Config S) : Prop := d = { c with maxIslands := d.maxIslands }

/-- Clusters that differ at most in the order of their tethers. -/
structure Cluster.Regrouped (c d : Cluster S) : Prop where
  same : d = { c with tethers := d.tethers }
  tethers : c.tethers.Perm d.tethers

theorem Cluster.Regrouped.congruence : Cluster.Congruence (S := S) Cluster.Regrouped where
  fresh _ _ := ⟨rfl, .refl _⟩
  stiffness c d stiffness h := by
    refine ⟨?_, h.tethers⟩
    rw [h.same]

namespace World

/-- The same particles and constraints under any number of islands. -/
structure Regrouped (w v : World S) : Prop extends
    Matched Cluster.Regrouped Eq false w v where
  config : w.config.Regrouped v.config

theorem regrouped_empty {c d : Config S} (h : c.Regrouped d) : (empty c).Regrouped (empty d) := by
  refine ⟨⟨rfl, rfl, ?_, fun _ => rfl, fun _ => rfl, ?_, rfl, rfl⟩, h⟩
  · intro proxy
    unfold empty
    rw [Std.TreeMap.getElem?_emptyc]
    exact .none
  · intro proxy
    unfold empty
    rw [Std.TreeMap.getElem?_emptyc]
    exact .none

namespace Regrouped

variable {w v : World S}

/-- Both worlds grant the same writes. -/
theorem updated [Scalar S] (h : w.Regrouped v) (deltas : List (Delta S)) :
    v.droppedOf deltas = w.droppedOf deltas ∧
      (w.updated deltas).Regrouped (v.updated deltas) := by
  rcases h.toMatched.updated Cluster.Regrouped.congruence deltas with ⟨hdropped, hmatched⟩
  refine ⟨hdropped, hmatched, ?_⟩
  rw [(retained_updated w deltas).config, (retained_updated v deltas).config]
  exact h.config

end Regrouped

end World

end TetheredParticles
