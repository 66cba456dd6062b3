import Mathlib.Data.List.Perm.Subperm
import Mathlib.Logic.Relation
import TetheredParticles.Proofs.BitSet
import TetheredParticles.Proofs.Graph.Symmetric
import TetheredParticles.Graph.Islands
/-!
# Searching for components

A search marks the points that it reaches and expands them one by one. Once its queue is empty,
the points that it found are closed under the edges of the graph.

* `Separated`, `Linked` — parts without common points that no edge connects, and whose points edges
  do connect.
* `Sweep.Finishes`, `Sweep.run_ends` — one search. Every round expands another point, so that as
  many rounds as there are points empty the queue.
* `Partition.components_ends` — all searches together separate the points into what is linked.
-/

namespace TetheredParticles

/-- Ascending lists without common points, none of them empty, that hold the points `inside` and
contain with each point everything that is joined to it. -/
structure Separated (joined : Nat → Nat → Prop) (inside : Nat → Prop)
    (parts : List (List Nat)) : Prop where
  nonempty : ∀ part ∈ parts, part ≠ []
  ascending : ∀ part ∈ parts, part.Pairwise (· < ·)
  disjoint : parts.Pairwise List.Disjoint
  covers : ∀ p, (∃ part ∈ parts, p ∈ part) ↔ inside p
  closed : ∀ part ∈ parts, ∀ a ∈ part, ∀ b, joined a b → b ∈ part

theorem Separated.congr {joined : Nat → Nat → Prop} {inside inside' : Nat → Prop}
    {parts : List (List Nat)} (h : Separated joined inside parts)
    (hsame : ∀ p, inside p ↔ inside' p) : Separated joined inside' parts :=
  ⟨h.nonempty, h.ascending, h.disjoint, fun p => (h.covers p).trans (hsame p), h.closed⟩

/-- A part of new points is separated from the others if edges from it lead to points that are new
as well or belong to some part. -/
theorem Separated.cons {joined : Nat → Nat → Prop} {inside : Nat → Prop} {part : List Nat}
    {parts : List (List Nat)} (h : Separated joined inside parts)
    (hsymm : ∀ a b, joined a b → joined b a) (hne : part ≠ []) (hascending : part.Pairwise (· < ·))
    (hfresh : ∀ p ∈ part, ¬ inside p)
    (hclosed : ∀ a ∈ part, ∀ b, joined a b → inside b ∨ b ∈ part) :
    Separated joined (fun p => inside p ∨ p ∈ part) (part :: parts) where
  nonempty := List.forall_mem_cons.mpr ⟨hne, h.nonempty⟩
  ascending := List.forall_mem_cons.mpr ⟨hascending, h.ascending⟩
  disjoint := by
    refine List.pairwise_cons.mpr ⟨fun other hother p hp hp' => ?_, h.disjoint⟩
    exact hfresh p hp ((h.covers p).mp ⟨other, hother, hp'⟩)
  covers p := by
    rw [List.exists_mem_cons_iff, h.covers]
    exact or_comm
  closed := by
    refine List.forall_mem_cons.mpr ⟨fun a ha b hab => ?_, h.closed⟩
    rcases hclosed a ha b hab with hb | hb
    · -- the part that holds `b` is closed and would hold `a` as well
      obtain ⟨other, hother, hb'⟩ := (h.covers b).mpr hb
      have ha' := h.closed other hother b hb' a (hsymm a b hab)
      exact absurd ((h.covers a).mp ⟨other, hother, ha'⟩) (hfresh a ha)
    · exact hb

/-- Different points in weakly ascending order ascend. -/
theorem ascending_mergeSort {part : List Nat} (h : part.Nodup) :
    part.mergeSort.Pairwise (· < ·) := by
  have hle : part.mergeSort.Pairwise (· ≤ ·) :=
    (List.pairwise_mergeSort (by simpa using fun _ _ _ => Nat.le_trans)
      (by simpa using Nat.le_total) part).imp (by simp)
  have hnodup : part.mergeSort.Nodup := (List.mergeSort_perm _ _).nodup_iff.mpr h
  exact hle.imp₂ (fun a b h hab => Nat.lt_of_le_of_ne h hab) hnodup

/-- Edges lead from each point of a part to every other. -/
def Linked (joined : Nat → Nat → Prop) (parts : List (List Nat)) : Prop :=
  ∀ part ∈ parts, ∀ a ∈ part, ∀ b ∈ part, Relation.ReflTransGen joined a b

namespace Sweep

/-! ## One search -/

/-- Without a bound on its rounds, a search goes on until its queue is empty. -/
inductive Finishes (g : Graph) : Sweep → Sweep → Prop where
  | done {s : Sweep} (h : s.queue = []) : Finishes g s s
  | round {s next last : Sweep} {point : Nat} {rest : List Nat} (h : s.queue = point :: rest)
    (hround : (g.neighbors point).foldlM reach { s with queue := rest } = .ok next)
    (hlast : Finishes g next last) : Finishes g s last

/-- A bound that leaves the queue empty was no bound. -/
theorem finishes_of_run {g : Graph} {rounds : Nat} {s last : Sweep} (h : run g s rounds = .ok last)
    (hempty : last.queue = []) : Finishes g s last := by
  induction rounds generalizing s with
  | zero =>
    cases h
    exact .done hempty
  | succ rounds ih =>
    obtain ⟨visited, component, queue⟩ := s
    cases queue with
    | nil =>
      cases h
      exact .done rfl
    | cons point rest =>
      rw [run] at h
      rcases exists_of_bind_ok h with ⟨next, hround, hlast⟩
      exact .round rfl hround (ih hlast)

/-- What a search keeps apart from expanding its points: the marks are the points marked `before`
and the points of the component, which are new, different and among the `points`. -/
structure Marked (points : Points) (before : Nat → Prop) (s : Sweep) : Prop where
  whole : s.visited.Whole
  reaches : ∀ p ∈ points, p < s.visited.length
  visited : ∀ p, s.visited.get p = true ↔ before p ∨ p ∈ s.component
  fresh : ∀ p ∈ s.component, ¬ before p
  nodup : s.component.Nodup
  inside : ∀ p ∈ s.component, p ∈ points
  queued : ∀ p ∈ s.queue, p ∈ s.component

/-- Every neighbor of an expanded point is marked. -/
def Expanded (g : Graph) (s : Sweep) : Prop :=
  ∀ a ∈ s.component, a ∉ s.queue → ∀ b ∈ g.neighbors a, s.visited.get b = true

/-- What reaching points leaves as it was: marks and queued points stay, new points of the
component are queued, and the component grows with the queue. -/
structure Grown (s t : Sweep) : Prop where
  marks : ∀ p, s.visited.get p = true → t.visited.get p = true
  queue : ∀ p ∈ s.queue, p ∈ t.queue
  component : ∀ p ∈ t.component, p ∈ s.component ∨ p ∈ t.queue
  start : ∀ p ∈ s.component, p ∈ t.component
  length : t.queue.length + s.component.length = s.queue.length + t.component.length

theorem Grown.refl (s : Sweep) : Grown s s :=
  ⟨fun _ h => h, fun _ h => h, fun _ h => .inl h, fun _ h => h, rfl⟩

theorem Grown.trans {s t u : Sweep} (h : Grown s t) (k : Grown t u) : Grown s u where
  marks p hp := k.marks p (h.marks p hp)
  queue p hp := k.queue p (h.queue p hp)
  component p hp := by
    rcases k.component p hp with ht | hu
    · exact (h.component p ht).imp_right (k.queue p)
    · exact .inr hu
  start p hp := k.start p (h.start p hp)
  length := by
    have h₁ := h.length
    have h₂ := k.length
    omega

theorem Marked.congr {points : Points} {before : Nat → Prop} {s : Sweep}
    (hs : s.Marked points before) {marks : BitSet} (hwhole : marks.Whole)
    (hlength : marks.length = s.visited.length)
    (hsame : ∀ q, marks.get q = true ↔ s.visited.get q = true) :
    Marked points before { s with visited := marks } :=
  ⟨hwhole, fun q hq => hlength ▸ hs.reaches q hq, fun q => (hsame q).trans (hs.visited q), hs.fresh,
    hs.nodup, hs.inside, hs.queued⟩

/-- A new point is marked, and it is queued. -/
theorem Marked.push {points : Points} {before : Nat → Prop} {s : Sweep}
    (hs : s.Marked points before) {p : Nat} (hp : p ∈ points) (hnew : s.visited.get p = false)
    {marks : BitSet} (hwhole : marks.Whole) (hlength : marks.length = s.visited.length)
    (hvisited : ∀ q, marks.get q = true ↔ q = p ∨ s.visited.get q = true) :
    Marked points before ⟨marks, p :: s.component, s.queue ++ [p]⟩ := by
  have hold : ¬ (before p ∨ p ∈ s.component) := by
    rw [← hs.visited p, hnew]
    exact Bool.false_ne_true
  constructor
  · exact hwhole
  · exact fun q hq => hlength ▸ hs.reaches q hq
  · intro q
    rw [hvisited, hs.visited, List.mem_cons]
    exact or_left_comm
  · exact List.forall_mem_cons.mpr ⟨fun hb => hold (.inl hb), hs.fresh⟩
  · exact List.nodup_cons.mpr ⟨fun h => hold (.inr h), hs.nodup⟩
  · exact List.forall_mem_cons.mpr ⟨hp, hs.inside⟩
  · intro q hq
    rcases List.mem_append.mp hq with hq | hq
    · exact List.mem_cons_of_mem _ (hs.queued q hq)
    · exact List.mem_cons.mpr (.inl (List.mem_singleton.mp hq))

theorem Grown.push {s : Sweep} {p : Nat} {marks : BitSet}
    (hmarks : ∀ q, s.visited.get q = true → marks.get q = true) :
    Grown s ⟨marks, p :: s.component, s.queue ++ [p]⟩ where
  marks := hmarks
  queue q hq := List.mem_append_left _ hq
  component q hq := by
    rcases List.mem_cons.mp hq with rfl | hq
    · exact .inr (List.mem_append_right _ (List.mem_singleton.mpr rfl))
    · exact .inl hq
  start q hq := List.mem_cons_of_mem _ hq
  length := by
    simp only [List.length_append, List.length_cons, List.length_nil]
    omega

theorem reach_ends {points : Points} {before : Nat → Prop} {s : Sweep} {p : Nat}
    (hs : s.Marked points before) (hp : p ∈ points) :
    Ends (s.reach p) never fun t =>
      t.Marked points before ∧ Grown s t ∧ t.visited.get p = true ∧
        ∀ q ∈ t.component, q ∈ s.component ∨ q = p := by
  unfold reach
  refine (BitSet.insert_ends hs.whole (hs.reaches p hp)).bind ?_
  rintro ⟨new, marks⟩ ⟨hnew, hwhole, hlength, hget⟩
  have hvisited : ∀ q, marks.get q = true ↔ q = p ∨ s.visited.get q = true := by
    intro q
    rw [hget, Bool.or_eq_true, decide_eq_true_eq]
  have hmarked : marks.get p = true := (hvisited p).mpr (.inl rfl)
  have hkeeps : ∀ q, s.visited.get q = true → marks.get q = true := fun q hq =>
    (hvisited q).mpr (.inr hq)
  cases hpv : s.visited.get p with
  | true =>
    -- nothing but the marks is rebuilt
    obtain rfl : new = false := by simpa [hpv] using hnew
    have hsame : ∀ q, marks.get q = true ↔ s.visited.get q = true := by
      intro q
      rw [hvisited, or_iff_right_of_imp]
      rintro rfl
      exact hpv
    refine .pure ⟨hs.congr hwhole hlength hsame, ?_, hmarked, fun _ h => .inl h⟩
    exact ⟨hkeeps, fun _ h => h, fun _ h => .inl h, fun _ h => h, rfl⟩
  | false =>
    obtain rfl : new = true := by simpa [hpv] using hnew
    exact .pure ⟨hs.push hp hpv hwhole hlength hvisited, .push hkeeps, hmarked,
      fun q hq => (List.mem_cons.mp hq).symm⟩

/-- Looking at all neighbors of a point. -/
theorem reachAll_ends {points : Points} {before : Nat → Prop} {s : Sweep} {ps : List Nat}
    (hs : s.Marked points before) (hps : ∀ p ∈ ps, p ∈ points) :
    Ends (ps.foldlM reach s) never fun t =>
      t.Marked points before ∧ Grown s t ∧ (∀ p ∈ ps, t.visited.get p = true) ∧
        ∀ q ∈ t.component, q ∈ s.component ∨ q ∈ ps := by
  refine Ends.foldlM (I := fun done t =>
    t.Marked points before ∧ Grown s t ∧ (∀ p ∈ done, t.visited.get p = true) ∧
      ∀ q ∈ t.component, q ∈ s.component ∨ q ∈ done)
    ⟨hs, .refl s, fun p hp => absurd hp List.not_mem_nil, fun _ h => .inl h⟩ ?_
  rintro done p rest t rfl ⟨ht, hgrown, hdone, hfrom⟩
  refine (reach_ends ht (hps p (by simp))).weaken fun u ⟨hu, hgrown', hp, hfrom'⟩ => ?_
  refine ⟨hu, hgrown.trans hgrown', fun q hq => ?_, fun q hq => ?_⟩
  · rcases List.mem_append.mp hq with hq | hq
    · exact hgrown'.marks q (hdone q hq)
    · rw [List.mem_singleton.mp hq]
      exact hp
  · rcases hfrom' q hq with hq | rfl
    · exact (hfrom q hq).imp_right (List.mem_append_left _)
    · exact .inr (by simp)

/-- A component never has more points than there are. -/
theorem Marked.length_le {points : Points} {before : Nat → Prop} {s : Sweep}
    (hs : s.Marked points before) : s.component.length ≤ points.size := by
  rw [← Std.TreeSet.length_toList]
  exact (hs.nodup.subperm fun p hp => Std.TreeSet.mem_toList.mpr (hs.inside p hp)).length_le

/-- A search with enough rounds left expands all its points. It only finds what edges lead to. -/
theorem run_ends {points : Points} {g : Graph} {before : Nat → Prop} {joined : Nat → Nat → Prop}
    {seed : Nat} (hg : ∀ a b, b ∈ g.neighbors a → b ∈ points ∧ joined a b) (rounds : Nat)
    {s : Sweep} (hs : s.Marked points before) (hx : s.Expanded g)
    (hseed : ∀ p ∈ s.component, Relation.ReflTransGen joined seed p)
    (hrounds : points.size + s.queue.length ≤ rounds + s.component.length) :
    Ends (run g s rounds) never fun t =>
      t.Marked points before ∧ t.queue = [] ∧ (∀ p ∈ s.component, p ∈ t.component) ∧
        (∀ p ∈ t.component, Relation.ReflTransGen joined seed p) ∧
        ∀ a ∈ t.component, ∀ b ∈ g.neighbors a, t.visited.get b = true := by
  -- on the rounds, which are enough for all points that can still be found
  induction rounds generalizing s with
  | zero =>
    have hempty : s.queue = [] := by
      have := hs.length_le
      exact List.eq_nil_of_length_eq_zero (by omega)
    exact .ok ⟨hs, hempty, fun _ h => h, hseed, fun a ha => hx a ha (by simp [hempty])⟩
  | succ rounds ih =>
    obtain ⟨visited, component, queue⟩ := s
    cases queue with
    | nil => exact .ok ⟨hs, rfl, fun _ h => h, hseed, fun a ha => hx a ha List.not_mem_nil⟩
    | cons p rest =>
      rw [run]
      have hrest : Marked points before ⟨visited, component, rest⟩ :=
        ⟨hs.whole, hs.reaches, hs.visited, hs.fresh, hs.nodup, hs.inside,
          fun q hq => hs.queued q (List.mem_cons_of_mem p hq)⟩
      refine (reachAll_ends hrest fun q hq => (hg p q hq).1).bind ?_
      rintro t ⟨ht, hgrown, hp, hfrom⟩
      have hlength := hgrown.length
      refine (ih ht ?_ ?_ ?_).weaken fun u ⟨hu, hempty, hstart, hclosed⟩ =>
        ⟨hu, hempty, fun q hq => hstart q (hgrown.start q hq), hclosed⟩
      · -- the point taken from the queue is expanded now, all others were before
        intro a ha hqueue b hb
        by_cases hap : a = p
        · subst hap
          exact hp b hb
        · rcases hgrown.component a ha with hold | hnew
          · refine hgrown.marks b (hx a hold ?_ b hb)
            rw [List.mem_cons]
            rintro (h | h)
            · exact hap h
            · exact hqueue (hgrown.queue a h)
          · exact absurd hnew hqueue
      · intro q hq
        rcases hfrom q hq with hold | hnew
        · exact hseed q hold
        · exact (hseed p (hs.queued p (List.mem_cons_self ..))).tail (hg p q hnew).2
      · simp only [List.length_cons] at hrounds hlength ⊢
        omega

end Sweep

namespace Components

/-! ## All searches -/

/-- From a seed that has not been reached before, a search goes on until its queue is empty. -/
inductive Seeded (g : Graph) (c : Components) (seed : Nat) : Components → Prop where
  | reached {visited : BitSet} (h : c.visited.insert seed = .ok (false, visited)) :
    Seeded g c seed ⟨visited, c.found⟩
  | searched {visited : BitSet} {s : Sweep} (h : c.visited.insert seed = .ok (true, visited))
    (hs : Sweep.Finishes g ⟨visited, [seed], [seed]⟩ s) :
    Seeded g c seed ⟨s.visited, s.component.mergeSort :: c.found⟩

/-- Seeds are searched from in order. -/
def AllSeeded (g : Graph) : Components → List Nat → Components → Prop
  | c, [], last => c = last
  | c, seed :: rest, last => ∃ next, Seeded g c seed next ∧ AllSeeded g next rest last

theorem AllSeeded.concat {g : Graph} {c d e : Components} {seeds : List Nat} {seed : Nat}
    (h : AllSeeded g c seeds d) (hlast : Seeded g d seed e) :
    AllSeeded g c (seeds ++ [seed]) e := by
  induction seeds generalizing c with
  | nil =>
    cases h
    exact ⟨e, hlast, rfl⟩
  | cons first rest ih =>
    rcases h with ⟨next, hfirst, hrest⟩
    exact ⟨next, hfirst, ih hrest⟩

variable {points : Points} {joined : Nat → Nat → Prop}

/-- The components found so far separate the marked points. -/
structure Inv (points : Points) (joined : Nat → Nat → Prop) (c : Components) : Prop where
  whole : c.visited.Whole
  reaches : ∀ p ∈ points, p < c.visited.length
  inside : ∀ p, c.visited.get p = true → p ∈ points
  separated : Separated joined (fun p => c.visited.get p = true) c.found
  linked : Linked joined c.found

/-- Another search separates the points it has marked from those marked before. -/
theorem Inv.add {c : Components} (hc : c.Inv points joined)
    (hsymm : ∀ a b, joined a b → joined b a) {s : Sweep}
    (hs : s.Marked points fun p => c.visited.get p = true) (hne : s.component ≠ [])
    (hclosed : ∀ a ∈ s.component, ∀ b, joined a b → s.visited.get b = true) {seed : Nat}
    (hseed : ∀ p ∈ s.component, Relation.ReflTransGen joined seed p) :
    Inv points joined ⟨s.visited, s.component.mergeSort :: c.found⟩ where
  whole := hs.whole
  reaches := hs.reaches
  inside p hp := ((hs.visited p).mp hp).elim (hc.inside p) (hs.inside p)
  separated := by
    have hmem : ∀ p, p ∈ s.component.mergeSort ↔ p ∈ s.component := fun _ => List.mem_mergeSort
    have hne' : s.component.mergeSort ≠ [] := fun h =>
      hne (List.Perm.eq_nil (h ▸ (List.mergeSort_perm _ _).symm))
    refine (hc.separated.cons hsymm hne' (ascending_mergeSort hs.nodup) (fun p hp => ?_)
      fun a ha b hab => ?_).congr fun p => ?_
    · exact hs.fresh p ((hmem p).mp hp)
    · rw [hmem]
      exact (hs.visited b).mp (hclosed a ((hmem a).mp ha) b hab)
    · rw [hmem]
      exact (hs.visited p).symm
  linked := by
    refine List.forall_mem_cons.mpr ⟨fun a ha b hb => ?_, hc.linked⟩
    -- back to the seed and on from there
    rw [List.mem_mergeSort] at ha hb
    have : Std.Symm joined := ⟨hsymm⟩
    exact (Relation.ReflTransGen.stdSymm.symm _ _ (hseed a ha)).trans (hseed b hb)

theorem seed_ends {g : Graph} {c : Components} {p : Nat} (hp : p ∈ points)
    (hg : ∀ a b, b ∈ g.neighbors a ↔ joined a b) (hsymm : ∀ a b, joined a b → joined b a)
    (hin : ∀ a b, joined a b → b ∈ points) (hc : c.Inv points joined) :
    Ends (c.seed g points.size p) never fun d =>
      d.Inv points joined ∧ (∀ q, c.visited.get q = true → d.visited.get q = true) ∧
        d.visited.get p = true ∧ c.Seeded g p d := by
  obtain ⟨visited, found⟩ := c
  unfold seed
  refine (BitSet.insert_ends hc.whole (hc.reaches p hp)).bind_eq ?_
  rintro ⟨new, marks⟩ hinsert ⟨hnew, hwhole, hlength, hget⟩
  have hvisited : ∀ q, marks.get q = true ↔ q = p ∨ visited.get q = true := by
    intro q
    rw [hget, Bool.or_eq_true, decide_eq_true_eq]
  have hreaches : ∀ q ∈ points, q < marks.length := fun q hq => hlength ▸ hc.reaches q hq
  cases hpv : visited.get p with
  -- a point that is marked already is on an earlier component
  | true =>
    obtain rfl : new = false := by simpa [hpv] using hnew
    have hsame : ∀ q, marks.get q = true ↔ visited.get q = true := by
      intro q
      rw [hvisited, or_iff_right_of_imp]
      rintro rfl
      exact hpv
    refine .pure ⟨⟨hwhole, hreaches, fun q hq => hc.inside q ((hsame q).mp hq),
      hc.separated.congr fun q => (hsame q).symm, hc.linked⟩, ?_, ?_, .reached hinsert⟩
    · exact fun q hq => (hsame q).mpr hq
    · exact (hsame p).mpr hpv
  -- any other one starts a component of its own
  | false =>
    obtain rfl : new = true := by simpa [hpv] using hnew
    have hstart : Sweep.Marked points (fun q => visited.get q = true) ⟨marks, [p], [p]⟩ := by
      refine ⟨hwhole, hreaches, fun q => ?_, ?_, by simp, by simpa using hp, fun _ h => h⟩
      · rw [hvisited, List.mem_singleton]
        exact or_comm
      · simp [hpv]
    have hneighbors : ∀ a b, b ∈ g.neighbors a → b ∈ points ∧ joined a b := fun a b h =>
      ⟨hin a b ((hg a b).mp h), (hg a b).mp h⟩
    have hfirst : ∀ q ∈ [p], Relation.ReflTransGen joined p q := by
      intro q hq
      rw [List.mem_singleton.mp hq]
    refine (Sweep.run_ends hneighbors points.size hstart ?_ hfirst ?_).bind_eq
      fun s hrun ⟨hs, hempty, hcomponent, hseed, hclosed⟩ => ?_
    · exact fun a ha hq => absurd ha hq
    · simp
    have hps : p ∈ s.component := hcomponent p (List.mem_singleton.mpr rfl)
    refine .pure ⟨hc.add hsymm hs (List.ne_nil_of_mem hps) ?_ hseed, fun q hq => ?_, ?_, ?_⟩
    · exact fun a ha b hab => hclosed a ha b ((hg a b).mpr hab)
    · exact (hs.visited q).mpr (.inl hq)
    · exact (hs.visited p).mpr (.inr hps)
    · exact .searched hinsert (Sweep.finishes_of_run hrun hempty)

theorem seeds_ends {g : Graph} {c : Components} {seeds : List Nat}
    (hseeds : ∀ p ∈ seeds, p ∈ points) (hg : ∀ a b, b ∈ g.neighbors a ↔ joined a b)
    (hsymm : ∀ a b, joined a b → joined b a) (hin : ∀ a b, joined a b → b ∈ points) (hc : c.Inv points joined) :
    Ends (seeds.foldlM (seed g points.size) c) never fun d =>
      d.Inv points joined ∧ (∀ p ∈ seeds, d.visited.get p = true) ∧ c.AllSeeded g seeds d := by
  refine Ends.foldlM (I := fun done d => d.Inv points joined ∧
    (∀ p ∈ done, d.visited.get p = true) ∧ c.AllSeeded g done d)
    ⟨hc, fun p hp => absurd hp List.not_mem_nil, rfl⟩ ?_
  rintro done p rest d rfl ⟨hd, hmarked, hseeded⟩
  have hp : p ∈ points := hseeds p (List.mem_append_right _ (List.mem_cons_self ..))
  refine (seed_ends hp hg hsymm hin hd).weaken fun e ⟨he, hkeep, hep, hlast⟩ => ?_
  refine ⟨he, fun q hq => ?_, hseeded.concat hlast⟩
  rcases List.mem_append.mp hq with hq | hq
  · exact hkeep q (hmarked q hq)
  · rw [List.mem_singleton.mp hq]
    exact hep

/-- Before any search nothing is found, and nothing marked. -/
theorem inv_blank {marks : BitSet} (hwhole : marks.Whole)
    (hreaches : ∀ p ∈ points, p < marks.length) (hget : ∀ p, marks.get p = false) :
    Inv points joined ⟨marks, []⟩ := by
  refine ⟨hwhole, hreaches, ?_, ⟨by simp, by simp, .nil, ?_, by simp⟩,
    fun part hpart => absurd hpart List.not_mem_nil⟩
  · simp [hget]
  · simp [hget]

end Components

/-- What searches find that are not bounded but end on their own. -/
def Partition.Traversed (points : Points) (g : Graph) (kinematic : Nat → Bool)
    (parts : List (List Nat)) : Prop :=
  match points.max? with
  | none => parts = []
  | some last => ∃ marks c, BitSet.covering last = .ok marks ∧
      Components.AllSeeded (g.symmetrize points) ⟨marks, []⟩
        (points.toList.filter kinematic ++ points.toList.filter (!kinematic ·)) c ∧ c.found = parts

/-- The connected components, unless a point is too large to be marked. -/
theorem Partition.components_ends (points : Points) (g : Graph) (kinematic : Nat → Bool) :
    Ends (components points g kinematic)
      (fun f => f = .lengthOverflow ∧ ∃ p ∈ points, BitSet.largestIndex ≤ p)
      fun parts => Separated (g.Joined points) (· ∈ points) parts ∧
        Linked (g.Joined points) parts ∧ Traversed points g kinematic parts := by
  unfold components Traversed
  cases hmax : points.max? with
  | none =>
    have hempty : ∀ p, p ∉ points := by
      intro p hp
      rw [Std.TreeSet.max?_eq_none_iff] at hmax
      rw [Std.TreeSet.mem_iff_contains, Std.TreeSet.contains_of_isEmpty hmax] at hp
      cases hp
    refine .pure ⟨⟨by simp, by simp, .nil, fun p => ?_, by simp⟩, ?_, rfl⟩
    · simp [hempty p]
    · exact fun part hpart => absurd hpart List.not_mem_nil
  | some last =>
    rw [Std.TreeSet.max?_eq_some_iff_mem_and_forall] at hmax
    obtain ⟨hlast, hmax⟩ := hmax
    have hle : ∀ p ∈ points, p ≤ last := by
      intro p hp
      have := hmax p hp
      rwa [Nat.isLE_compare] at this
    refine ((BitSet.covering_ends last).mono (fun f ⟨hf, hl⟩ => ⟨hf, last, hlast, hl⟩)
      fun _ h => h).bind_eq fun marks hmarks ⟨hwhole, hlength, hget⟩ => ?_
    have hreaches : ∀ p ∈ points, p < marks.length := by
      intro p hp
      have := hle p hp
      omega
    have hseeds : ∀ p, p ∈ points.toList.filter kinematic ++
        points.toList.filter (!kinematic ·) ↔ p ∈ points := by
      intro p
      rw [List.mem_append, List.mem_filter, List.mem_filter, Std.TreeSet.mem_toList]
      cases kinematic p <;> simp
    have hblank : Components.Inv points (g.Joined points) ⟨marks, []⟩ :=
      Components.inv_blank hwhole hreaches hget
    have hsearch := Components.seeds_ends (fun p => (hseeds p).mp)
      (fun _ _ => Graph.mem_neighbors_symmetrize) (fun _ _ h => h.symm) (fun _ _ h => h.2.2.1)
      hblank
    refine (Ends.ofNever hsearch).bind fun c ⟨hc, hall, hseeded⟩ => ?_
    refine .pure ⟨hc.separated.congr fun p => ?_, hc.linked, marks, c, hmarks, hseeded, rfl⟩
    exact ⟨hc.inside p, fun hp => hall p ((hseeds p).mpr hp)⟩

end TetheredParticles
