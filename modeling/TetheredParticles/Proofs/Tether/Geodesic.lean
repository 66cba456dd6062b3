import TetheredParticles.Proofs.Graph.Symmetric
import TetheredParticles.Proofs.Tether.Frontier
/-!
# Searches settle

If going on never makes a way shorter, ways leave the frontier in their order, and a point is
expanded once: later ways to it are not better. Each round takes an entry that was put there by an
anchor or by an edge of a point that has been expanded, so that the rounds are enough to empty the
frontier. Then no edge improves a way any more.

* `Geodesic.Growing` — when ways do not get shorter.
* `Geodesic.Kept` — what a search maintains, and `Kept.step`, which expands a point or drops an entry.
* `Geodesic.search_settled` — no edge improves the ways that are found.
-/

namespace TetheredParticles

namespace Geodesic

variable {S : Type} [Scalar S] [LawfulOrder S]

/-- Going on by an edge never makes a way shorter, if its length is a number at all. -/
def Growing (positions : Array (Vec3 S)) (g : Graph) : Prop :=
  ∀ p q, q ∈ g.neighbors p → ∀ d : S, 0 ≤ d →
    Scalar.isNumber (d + edgeLength positions p q) = true → d ≤ d + edgeLength positions p q

/-- Following an edge from a point does not improve the way known to its other end. -/
def Settled (positions : Array (Vec3 S)) (best : Array (Reached S)) (p q : Nat) : Prop :=
  ∀ way, best.getD p none = some way →
    improves way.1 (way.2 + edgeLength positions p q) (best.getD q none) = false

/-- A search whose frontier holds no way that is better than `floor`. The expanded points have ways
that no entry improves, and of the edges that leave them only those `ahead` have not been
followed. -/
structure Kept (positions : Array (Vec3 S)) (g : Graph) (anchored : Nat → Bool)
    (expanded : List Nat) (ahead : List (Nat × Nat)) (floor : Nat × S) (s : Geodesic S) : Prop where
  size : s.best.size = positions.size
  nonneg : 0 ≤ floor.2
  sorted : s.frontier.Pairwise fun e f => e.before f = true
  distinct : s.frontier.Pairwise fun e f => e.point = f.point →
    ¬ (AtMost e.way f.way ∧ AtMost f.way e.way)
  floor_le : ∀ e ∈ s.frontier, Scalar.isNumber e.distance = true → AtMost floor e.way
  known : ∀ e ∈ s.frontier, Scalar.isNumber e.distance = true →
    ∃ way, s.best.getD e.point none = some way ∧ AtMost way e.way
  waiting : ∀ p way, s.best.getD p none = some way → Scalar.isNumber way.2 = true →
    p ∈ expanded ∨ ∃ e ∈ s.frontier, e.point = p ∧ e.way = way
  done : ∀ p ∈ expanded, ∃ way, s.best.getD p none = some way ∧ AtMost way floor
  spent : ∀ e ∈ s.frontier, e.point ∈ expanded → isCurrent e (s.best.getD e.point none) = false
  closed : ∀ p ∈ expanded, ∀ q ∈ g.neighbors p, anchored q = false →
    (p, q) ∈ ahead ∨ Settled positions s.best p q

omit [LawfulOrder S] in
/-- Following edges puts at most one entry for each of them into the frontier. -/
theorem length_followAll_le (positions : Array (Vec3 S)) (anchored : Nat → Bool) (entry : Frontier S)
    (qs : List Nat) (s : Geodesic S) :
    (qs.foldl (follow positions anchored entry) s).frontier.length ≤
      s.frontier.length + qs.length := by
  induction qs generalizing s with
  | nil => exact Nat.le_refl _
  | cons q rest ih =>
    have hone : (follow positions anchored entry s q).frontier.length ≤ s.frontier.length + 1 := by
      rcases follow_cases positions anchored entry s q with ⟨_, heq⟩ | ⟨_, heq⟩ <;> rw [heq]
      · exact Nat.le_succ _
      · exact (insert_perm (entry.onward positions q) s.frontier).length_eq.le
    have hrest := ih (follow positions anchored entry s q)
    rw [List.foldl_cons, List.length_cons]
    omega

namespace Kept

variable {positions : Array (Vec3 S)} {g : Graph} {anchored : Nat → Bool} {expanded : List Nat}
  {ahead : List (Nat × Nat)} {floor : Nat × S} {s : Geodesic S}

/-- A better way to a point is recorded. The point has not been expanded, because the frontier holds
nothing that improves the ways to expanded points. -/
theorem reach {entry : Frontier S} (h : s.Kept positions g anchored expanded ahead floor)
    (hlt : entry.point < positions.size)
    (hfloor : Scalar.isNumber entry.distance = true → AtMost floor entry.way)
    (himproves : improves entry.anchor entry.distance (s.best.getD entry.point none) = true) :
    (s.reach entry).Kept positions g anchored expanded ahead floor ∧ entry.point ∉ expanded := by
  have hbetter : ∀ way, s.best.getD entry.point none = some way → Better entry.way way := by
    intro way hway
    rw [hway] at himproves
    exact improves_iff.mp himproves
  have hfresh : entry.point ∉ expanded := by
    intro hmem
    rcases h.done _ hmem with ⟨way, hway, hle⟩
    have hnumber := Scalar.isNumber_left (hbetter way hway).atMost.le
    exact (hle.trans (hfloor hnumber)).not_better (hbetter way hway)
  have hself : (s.reach entry).best.getD entry.point none = some entry.way :=
    getD_reach_self (h.size ▸ hlt)
  have hother : ∀ p, p ≠ entry.point →
      (s.reach entry).best.getD p none = s.best.getD p none :=
    fun p hp => getD_reach_of_ne hp.symm
  have hne : ∀ p ∈ expanded, p ≠ entry.point := fun p hp heq => hfresh (heq ▸ hp)
  have hmem : ∀ e, e ∈ (s.reach entry).frontier ↔ e = entry ∨ e ∈ s.frontier := fun _ => mem_insert
  refine ⟨⟨size_reach.trans h.size, h.nonneg, pairwise_insert h.sorted, ?_, ?_, ?_, ?_, ?_, ?_, ?_⟩,
    hfresh⟩
  · -- entries for the same point are longer than the way known, and so than the new one
    have hsymm : ∀ {e f : Frontier S},
        (e.point = f.point → ¬ (AtMost e.way f.way ∧ AtMost f.way e.way)) →
        f.point = e.point → ¬ (AtMost f.way e.way ∧ AtMost e.way f.way) :=
      fun hef heq hboth => hef heq.symm hboth.symm
    refine ((insert_perm entry s.frontier).pairwise_iff hsymm).mpr
      (List.pairwise_cons.mpr ⟨fun e he heq hboth => ?_, h.distinct⟩)
    rcases h.known e he (Scalar.isNumber_left hboth.2.le) with ⟨way, hway, hle⟩
    exact hboth.2.not_better ((hbetter way (heq ▸ hway)).trans_atMost hle)
  · -- the floor stays below
    intro e he hnumber
    rcases (hmem e).mp he with rfl | he
    · exact hfloor hnumber
    · exact h.floor_le e he hnumber
  · -- what was at least as long as the old way is at least as long as the new one
    intro e he hnumber
    rcases (hmem e).mp he with rfl | he
    · exact ⟨e.way, hself, .refl hnumber⟩
    · rcases h.known e he hnumber with ⟨way, hway, hle⟩
      by_cases heq : e.point = entry.point
      · rw [heq] at hway ⊢
        exact ⟨entry.way, hself, (hbetter way hway).atMost.trans hle⟩
      · exact ⟨way, (hother _ heq).trans hway, hle⟩
  · -- the new way waits with its entry
    intro p way hway hnumber
    by_cases hp : p = entry.point
    · subst hp
      rw [hself, Option.some.injEq] at hway
      exact .inr ⟨entry, (hmem entry).mpr (.inl rfl), rfl, hway⟩
    · rw [hother p hp] at hway
      refine (h.waiting p way hway hnumber).imp_right ?_
      rintro ⟨e, he, heq⟩
      exact ⟨e, (hmem e).mpr (.inr he), heq⟩
  · intro p hp
    rw [hother p (hne p hp)]
    exact h.done p hp
  · intro e he hexpanded
    rw [hother _ (hne _ hexpanded)]
    refine h.spent e (((hmem e).mp he).resolve_left ?_) hexpanded
    rintro rfl
    exact hfresh hexpanded
  · intro p hp q hq hfree
    refine (h.closed p hp q hq hfree).imp_right fun hsettled way hway => ?_
    rw [hother p (hne p hp)] at hway
    by_cases heq : q = entry.point
    · -- what does not improve a way does not improve a better one
      subst heq
      have hbefore := hsettled way hway
      rw [hself, ← Bool.not_eq_true, improves_iff]
      intro hon
      cases hold : s.best.getD entry.point none with
      | none =>
        rw [hold] at hbefore
        cases hbefore
      | some old =>
        rw [hold, ← Bool.not_eq_true, improves_iff] at hbefore
        exact hbefore (hon.trans_atMost (hbetter old hold).atMost)
    · rw [hother q heq]
      exact hsettled way hway

/-- An entry that is not current is dropped. -/
theorem drop {best : Array (Reached S)} {entry : Frontier S} {rest : List (Frontier S)}
    (h : (⟨best, entry :: rest⟩ : Geodesic S).Kept positions g anchored expanded ahead floor)
    (hcurrent : isCurrent entry (best.getD entry.point none) = false) :
    (⟨best, rest⟩ : Geodesic S).Kept positions g anchored expanded ahead floor where
  size := h.size
  nonneg := h.nonneg
  sorted := (List.pairwise_cons.mp h.sorted).2
  distinct := (List.pairwise_cons.mp h.distinct).2
  floor_le e he := h.floor_le e (List.mem_cons_of_mem _ he)
  known e he := h.known e (List.mem_cons_of_mem _ he)
  waiting p way hway hnumber := by
    refine (h.waiting p way hway hnumber).imp_right ?_
    rintro ⟨e, he, rfl, rfl⟩
    refine ⟨e, (List.mem_cons.mp he).resolve_left ?_, rfl, rfl⟩
    -- an entry that a way waits with is current
    rintro rfl
    have hle := Scalar.le_refl hnumber
    have hyes : isCurrent e (some e.way) = true := isCurrent_iff.mpr ⟨rfl, hle, hle⟩
    rw [show best.getD e.point none = some e.way from hway, hyes] at hcurrent
    cases hcurrent
  done := h.done
  spent e he := h.spent e (List.mem_cons_of_mem _ he)
  closed := h.closed

/-- A current entry is the way known to its point, and the point has not been expanded. -/
theorem current {best : Array (Reached S)} {entry : Frontier S} {rest : List (Frontier S)}
    (h : (⟨best, entry :: rest⟩ : Geodesic S).Kept positions g anchored expanded ahead floor)
    (hcurrent : isCurrent entry (best.getD entry.point none) = true) :
    best.getD entry.point none = some entry.way ∧ Scalar.isNumber entry.distance = true ∧
      entry.point ∉ expanded := by
  have hfresh : entry.point ∉ expanded := by
    intro hmem
    have hspent := h.spent entry List.mem_cons_self hmem
    exact Bool.false_ne_true (hspent.symm.trans hcurrent)
  cases hway : best.getD entry.point none with
  | none =>
    rw [hway] at hcurrent
    cases hcurrent
  | some way =>
    rw [hway, isCurrent_iff] at hcurrent
    rcases hcurrent with ⟨hanchor, hle, hge⟩
    refine ⟨?_, Scalar.isNumber_right hle, hfresh⟩
    rcases h.waiting entry.point way hway (Scalar.isNumber_left hle) with hmem | ⟨e, he, hpoint, rfl⟩
    · exact absurd hmem hfresh
    · rcases List.mem_cons.mp he with rfl | he
      · rfl
      · -- another entry for the same way is not in the frontier
        have hdistinct := (List.pairwise_cons.mp h.distinct).1 e he hpoint.symm
        exact absurd ⟨⟨hge, fun _ => hanchor.ge⟩, hle, fun _ => hanchor.le⟩ hdistinct

/-- A point whose entry is current is expanded: all its edges are ahead. -/
theorem expand {best : Array (Reached S)} {entry : Frontier S} {rest : List (Frontier S)}
    (h : (⟨best, entry :: rest⟩ : Geodesic S).Kept positions g anchored expanded [] floor)
    (hcurrent : isCurrent entry (best.getD entry.point none) = true) :
    (⟨best, rest⟩ : Geodesic S).Kept positions g anchored (entry.point :: expanded)
      ((g.neighbors entry.point).map (entry.point, ·)) entry.way := by
  rcases h.current hcurrent with ⟨hway, hnumber, _⟩
  have hfloor := h.floor_le entry List.mem_cons_self hnumber
  have hbefore := List.pairwise_cons.mp h.sorted
  have hdistinct := List.pairwise_cons.mp h.distinct
  refine ⟨h.size, Scalar.le_trans h.nonneg hfloor.le, hbefore.2, hdistinct.2, fun e he _ =>
    Frontier.atMost_of_before hnumber (hbefore.1 e he), fun e he =>
    h.known e (List.mem_cons_of_mem _ he), ?_, ?_, ?_, ?_⟩
  · -- only the way of the first entry does not wait any more
    intro p way hp hnumber
    rcases h.waiting p way hp hnumber with hmem | ⟨e, he, rfl, rfl⟩
    · exact .inl (List.mem_cons_of_mem _ hmem)
    · rcases List.mem_cons.mp he with rfl | he
      · exact .inl List.mem_cons_self
      · exact .inr ⟨e, he, rfl, rfl⟩
  · refine List.forall_mem_cons.mpr ⟨⟨entry.way, hway, .refl hnumber⟩, fun p hp => ?_⟩
    rcases h.done p hp with ⟨way, hp, hle⟩
    exact ⟨way, hp, hle.trans hfloor⟩
  · intro e he hmem
    rcases List.mem_cons.mp hmem with heq | hmem
    · -- a second current entry for the point would be for the same way
      rw [heq]
      refine Bool.eq_false_iff.mpr fun hyes => hdistinct.1 e he heq.symm ?_
      rw [hway, isCurrent_iff] at hyes
      exact ⟨⟨hyes.2.1, fun _ => hyes.1.le⟩, hyes.2.2, fun _ => hyes.1.ge⟩
    · exact h.spent e (List.mem_cons_of_mem _ he) hmem
  · refine List.forall_mem_cons.mpr ⟨fun q hq _ => .inl (List.mem_map_of_mem hq), ?_⟩
    intro p hp q hq hfree
    exact (h.closed p hp q hq hfree).imp_left List.not_mem_nil.elim

omit [LawfulOrder S] in
/-- An edge need not be ahead any more once it improves nothing. -/
theorem settle {p q : Nat}
    (h : s.Kept positions g anchored expanded ((p, q) :: ahead) floor)
    (hsettled : anchored q = true ∨ Settled positions s.best p q) :
    s.Kept positions g anchored expanded ahead floor := by
  refine ⟨h.size, h.nonneg, h.sorted, h.distinct, h.floor_le, h.known, h.waiting, h.done, h.spent,
    fun a ha b hb hfree => ?_⟩
  rcases h.closed a ha b hb hfree with hmem | hclosed
  · rcases List.mem_cons.mp hmem with heq | hmem
    · cases heq
      exact .inr (hsettled.resolve_left (Bool.eq_false_iff.mp hfree))
    · exact .inl hmem
  · exact .inr hclosed

/-- Following an edge of the point that is being expanded settles it. -/
theorem follow {entry : Frontier S} {q : Nat}
    (h : s.Kept positions g anchored expanded ((entry.point, q) :: ahead) entry.way)
    (hgrowing : Growing positions g) (hq : q ∈ g.neighbors entry.point)
    (hlt : anchored q = false → q < positions.size) (hexpanded : entry.point ∈ expanded)
    (hway : s.best.getD entry.point none = some entry.way) :
    (follow positions anchored entry s q).Kept positions g anchored expanded ahead entry.way ∧
      (follow positions anchored entry s q).best.getD entry.point none = some entry.way := by
  rcases follow_cases positions anchored entry s q with
    ⟨hnot, heq⟩ | ⟨⟨hfree, himproves⟩, heq⟩ <;> rw [heq]
  · refine ⟨h.settle (hnot.imp_right fun hnot way hp => ?_), hway⟩
    rw [hway, Option.some.injEq] at hp
    subst hp
    exact hnot
  · have hfloor : Scalar.isNumber (entry.onward positions q).distance = true →
        AtMost entry.way (entry.onward positions q).way := fun hnumber =>
      ⟨hgrowing entry.point q hq entry.distance h.nonneg hnumber, fun _ => le_rfl⟩
    rcases h.reach (hlt hfree) hfloor himproves with ⟨hkept, hfresh⟩
    -- so the edge is no loop, and the way it goes on from stays recorded
    have hne : q ≠ entry.point := fun heq => hfresh (heq ▸ hexpanded)
    have hsame : (s.reach (entry.onward positions q)).best.getD entry.point none = some entry.way :=
      (getD_reach_of_ne hne).trans hway
    refine ⟨hkept.settle (.inr fun way hp => ?_), hsame⟩
    -- no way improves itself
    rw [hsame, Option.some.injEq] at hp
    subst hp
    have hself : (s.reach (entry.onward positions q)).best.getD q none =
        some (entry.onward positions q).way := getD_reach_self (h.size ▸ hlt hfree)
    rw [hself, ← Bool.not_eq_true, improves_iff]
    intro hbetter
    exact absurd (hbetter.2 hbetter.1) (Nat.lt_irrefl _)

/-- Following all edges of a point settles them. -/
theorem followAll {entry : Frontier S} (qs : List Nat)
    (h : s.Kept positions g anchored expanded (qs.map (entry.point, ·)) entry.way)
    (hgrowing : Growing positions g)
    (hqs : ∀ q ∈ qs, q ∈ g.neighbors entry.point ∧ (anchored q = false → q < positions.size))
    (hexpanded : entry.point ∈ expanded)
    (hway : s.best.getD entry.point none = some entry.way) :
    (qs.foldl (Geodesic.follow positions anchored entry) s).Kept positions g anchored expanded []
      entry.way := by
  induction qs generalizing s with
  | nil => exact h
  | cons q rest ih =>
    rw [List.forall_mem_cons] at hqs
    rcases h.follow hgrowing hqs.1.1 hqs.1.2 hexpanded hway with ⟨hnext, hway'⟩
    exact ih hnext hqs.2 hway'

end Kept

/-! ## Rounds -/

/-- How many edges leave points that have not been expanded. -/
def remaining (g : Graph) (expanded : List Nat) : Nat :=
  (g.edges.filter fun edge => edge.1 ∉ expanded).length

/-- Expanding a point uses up the edges that leave it. -/
theorem remaining_cons (g : Graph) {expanded : List Nat} {p : Nat} (hp : p ∉ expanded) :
    (g.neighbors p).length + remaining g (p :: expanded) ≤ remaining g expanded := by
  unfold remaining
  have hnodup : ((g.neighbors p).map (p, ·)).Nodup :=
    ((g.neighbors_ascending p).imp Nat.ne_of_lt).map _ fun _ _ hne heq => hne (Prod.mk.inj heq).2
  generalize hleft : g.edges.filter (fun edge => edge.1 ∉ expanded) = left
  have hsub : (g.neighbors p).map (p, ·) ⊆ left.filter fun edge => edge.1 = p := by
    intro edge hedge
    rcases List.mem_map.mp hedge with ⟨q, hq, rfl⟩
    rw [← hleft, List.mem_filter, List.mem_filter]
    exact ⟨⟨Graph.mem_edges.mpr hq, decide_eq_true hp⟩, decide_eq_true rfl⟩
  have hlength := (hnodup.subperm hsub).length_le
  have hrest : g.edges.filter (fun edge => edge.1 ∉ p :: expanded) =
      left.filter fun edge => !decide (edge.1 = p) := by
    rw [← hleft, List.filter_filter]
    refine List.filter_congr fun edge _ => ?_
    simp [List.mem_cons]
  have hsplit := (List.filter_append_perm (fun edge : Nat × Nat => decide (edge.1 = p)) left).length_eq
  rw [List.length_append] at hsplit
  rw [List.length_map] at hlength
  rw [hrest]
  omega

variable {positions : Array (Vec3 S)} {g : Graph} {anchored : Nat → Bool} {expanded : List Nat}
  {floor : Nat × S} {s : Geodesic S}

/-- A round drops an entry or uses up the edges of a point. -/
theorem Kept.step (h : s.Kept positions g anchored expanded [] floor)
    (hgrowing : Growing positions g) (hinside : ∀ p q, q ∈ g.neighbors p → q < positions.size)
    (hne : s.frontier ≠ []) :
    ∃ expanded' floor', (s.step positions g anchored).Kept positions g anchored expanded' [] floor' ∧
      (s.step positions g anchored).frontier.length + remaining g expanded' <
        s.frontier.length + remaining g expanded := by
  rcases s with ⟨best, frontier⟩
  cases frontier with
  | nil => exact absurd rfl hne
  | cons entry rest =>
    rw [step_cons]
    by_cases hcurrent : isCurrent entry (best.getD entry.point none) = true
    · rw [if_pos hcurrent]
      rcases h.current hcurrent with ⟨hway, _, hfresh⟩
      have hkept := (h.expand hcurrent).followAll _ hgrowing
        (fun q hq => ⟨hq, fun _ => hinside _ q hq⟩) List.mem_cons_self hway
      have hlength := length_followAll_le positions anchored entry (g.neighbors entry.point)
        ⟨best, rest⟩
      have hedges := remaining_cons g hfresh
      refine ⟨_, _, hkept, ?_⟩
      rw [List.length_cons]
      dsimp only at hlength
      omega
    · rw [if_neg hcurrent]
      exact ⟨expanded, floor, h.drop (Bool.eq_false_iff.mpr hcurrent),
        Nat.add_lt_add_right (Nat.lt_succ_self _) _⟩

/-- Enough rounds empty the frontier. -/
theorem Kept.run (rounds : Nat) (h : s.Kept positions g anchored expanded [] floor)
    (hgrowing : Growing positions g) (hinside : ∀ p q, q ∈ g.neighbors p → q < positions.size)
    (hrounds : s.frontier.length + remaining g expanded ≤ rounds) :
    ∃ expanded' floor',
      (s.run positions g anchored rounds).Kept positions g anchored expanded' [] floor' ∧
        (s.run positions g anchored rounds).frontier = [] := by
  induction rounds generalizing s expanded floor with
  | zero =>
    have hlength : s.frontier.length = 0 := by omega
    exact ⟨expanded, floor, h, List.eq_nil_of_length_eq_zero hlength⟩
  | succ rounds ih =>
    unfold Geodesic.run
    split
    · rename_i hempty
      exact ⟨expanded, floor, h, List.isEmpty_iff.mp hempty⟩
    · rename_i hnonempty
      have hne : s.frontier ≠ [] := fun hnil => hnonempty (List.isEmpty_iff.mpr hnil)
      rcases h.step hgrowing hinside hne with ⟨expanded', floor', hkept, hless⟩
      exact ih hkept (by omega)

/-- Anchors that have not been reached may be reached one by one. -/
theorem Kept.reachAll (anchors : List Nat) (h : s.Kept positions g anchored [] [] (0, 0))
    (hnodup : anchors.Nodup) (hinside : ∀ p ∈ anchors, p < positions.size)
    (hnone : ∀ p ∈ anchors, s.best.getD p none = none) :
    (anchors.foldl (fun s p => s.reach ⟨0, p, p⟩) s).Kept positions g anchored [] [] (0, 0) ∧
      (anchors.foldl (fun s p => s.reach ⟨0, p, p⟩) s).frontier.length =
        s.frontier.length + anchors.length := by
  induction anchors generalizing s with
  | nil => exact ⟨h, rfl⟩
  | cons p rest ih =>
    rw [List.nodup_cons] at hnodup
    rw [List.forall_mem_cons] at hinside hnone
    have himproves : improves p (0 : S) (s.best.getD p none) = true := by
      rw [hnone.1]
      rfl
    have hfloor : AtMost (0, 0) (Frontier.way (⟨0, p, p⟩ : Frontier S)) :=
      ⟨h.nonneg, fun _ => Nat.zero_le p⟩
    have hreach : (s.reach ⟨0, p, p⟩).Kept positions g anchored [] [] (0, 0) :=
      (h.reach hinside.1 (fun _ => hfloor) himproves).1
    have hrest : ∀ q ∈ rest, (s.reach ⟨0, p, p⟩).best.getD q none = none := by
      intro q hq
      have hne : p ≠ q := fun heq => hnodup.1 (heq ▸ hq)
      exact (getD_reach_of_ne hne).trans (hnone.2 q hq)
    rcases ih hreach hnodup.2 hinside.2 hrest with ⟨hlast, hlength⟩
    refine ⟨hlast, ?_⟩
    have hone : (s.reach ⟨0, p, p⟩).frontier.length = s.frontier.length + 1 :=
      (insert_perm ⟨0, p, p⟩ s.frontier).length_eq
    rw [List.foldl_cons, hlength, hone, List.length_cons]
    omega

/-- A search starts with one entry for each anchor. -/
theorem kept_start (positions : Array (Vec3 S)) (g : Graph) (anchored : Nat → Bool) :
    (start positions.size anchored).Kept positions g anchored [] [] (0, 0) ∧
      (start (S := S) positions.size anchored).frontier.length ≤ positions.size := by
  have hnone : ∀ p, (Array.replicate positions.size (none : Reached S)).getD p none = none := by
    intro p
    rw [Array.getD_eq_getD_getElem?, Array.getElem?_replicate]
    split <;> rfl
  have hblank : (⟨Array.replicate positions.size none, []⟩ : Geodesic S).Kept positions g anchored []
      [] (0, 0) := by
    refine ⟨Array.size_replicate, Scalar.zero_le_zero, .nil, .nil, nofun, nofun,
      fun p way hp => ?_, nofun, nofun, nofun⟩
    cases (hnone p).symm.trans hp
  have hinside : ∀ p ∈ (List.range positions.size).filter anchored, p < positions.size :=
    fun p hp => List.mem_range.mp (List.mem_filter.mp hp).1
  rcases hblank.reachAll _ (List.nodup_range.filter _) hinside fun p _ => hnone p with
    ⟨hkept, hlength⟩
  refine ⟨hkept, ?_⟩
  have hfilter : ((List.range positions.size).filter anchored).length ≤ positions.size :=
    (List.length_filter_le ..).trans_eq List.length_range
  exact (hlength.trans (Nat.zero_add _)).trans_le hfilter

/-- The ways that are found cannot be improved by going on from one of them by an edge, unless that
enters an anchor. -/
theorem search_settled (positions : Array (Vec3 S)) (g : Graph) (anchored : Nat → Bool)
    (hgrowing : Growing positions g) (hinside : ∀ p q, q ∈ g.neighbors p → q < positions.size)
    {p q : Nat} {way : Nat × S} (hway : (search positions g anchored).getD p none = some way)
    (hnumber : Scalar.isNumber way.2 = true) (hq : q ∈ g.neighbors p) (hfree : anchored q = false) :
    improves way.1 (way.2 + edgeLength positions p q)
      ((search positions g anchored).getD q none) = false := by
  rcases kept_start positions g anchored with ⟨hstart, hlength⟩
  have hrounds : (start (S := S) positions.size anchored).frontier.length + remaining g [] ≤
      rounds positions.size g := by
    have hedges : remaining g [] ≤ g.edges.length := List.length_filter_le ..
    unfold rounds
    omega
  rcases hstart.run _ hgrowing hinside hrounds with ⟨expanded, floor, hkept, hempty⟩
  rcases hkept.waiting p way hway hnumber with hmem | ⟨e, he, _⟩
  · exact ((hkept.closed p hmem q hq hfree).resolve_left List.not_mem_nil) way hway
  · rw [hempty] at he
    cases he

end Geodesic

end TetheredParticles
