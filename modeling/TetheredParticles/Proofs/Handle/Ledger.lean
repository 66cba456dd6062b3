import Mathlib
import TetheredParticles.Proofs.Handle.Pool
/-!
# The ledger of a pool

A ledger writes down what became of every call of a pool. From its entries alone one can tell which
handles are current, which handle is given out next, and which handles are accepted back, however the
pool has been used or misused.

* `HandlePool.Ledger`, `HandlePool.Ledger.perform`, `HandlePool.Ledger.run` — a pool in use.
* `HandlePool.live`, `HandlePool.frees` — current handles, and how often a slot has been freed.
* `HandlePool.Ledger.Balanced`, `HandlePool.Ledger.Balanced.perform` — the invariant, and that calls
  keep it.
* `HandlePool.Ledger.run_honest` — what the entries tell about the pool.
-/

namespace TetheredParticles

namespace HandlePool

variable {kind : HandleKind}

/-- What a pool is called for. -/
inductive Call (kind : HandleKind) where
  | alloc
  /-- A handle is brought back, be it current or not. -/
  | free (h : Handle kind)
deriving DecidableEq, Repr

/-- What became of a call. -/
inductive Entry (kind : HandleKind) where
  | given (h : Handle kind)
  | taken (h : Handle kind)
  | refused (h : Handle kind)
deriving DecidableEq, Repr

/-- The current handles after another entry. -/
def Entry.settle (live : List (Handle kind)) : Entry kind → List (Handle kind)
  | .given h => live ++ [h]
  | .taken h => live.erase h
  | .refused _ => live

/-- Whether a handle of a slot was taken back. -/
def Entry.frees (slot : Nat) : Entry kind → Bool
  | .taken h => h.index == slot
  | _ => false

/-- The current handles: those that have been given out and not been taken back since. -/
def live (entries : List (Entry kind)) : List (Handle kind) := entries.foldl Entry.settle []

/-- How often handles of a slot have been taken back. -/
def frees (slot : Nat) (entries : List (Entry kind)) : Nat := entries.countP (·.frees slot)

/-- A pool in use. -/
structure Ledger (kind : HandleKind) where
  pool : HandlePool kind := .empty
  /-- What became of the calls so far, oldest first. -/
  entries : List (Entry kind) := []
deriving DecidableEq, Repr

namespace Ledger

/-- What becomes of a call. -/
def outcome (l : Ledger kind) : Call kind → Entry kind
  | .alloc => .given l.pool.alloc.1
  | .free h => if (l.pool.free? h).isSome then .taken h else .refused h

/-- The pool after a call, with an entry for it. -/
def perform (l : Ledger kind) (call : Call kind) : Ledger kind where
  pool := match call with
    | .alloc => l.pool.alloc.2
    | .free h => l.pool.free h
  entries := l.entries ++ [l.outcome call]

/-- What has become of a new pool after calls in order. -/
def run (calls : List (Call kind)) : Ledger kind := calls.foldl perform {}

/-- What the entries tell about the pool. -/
structure Honest (l : Ledger kind) : Prop where
  /-- In use are the current handles and no others. -/
  contains : ∀ h, l.pool.contains h = true ↔ h ∈ live l.entries
  /-- No two current handles have one slot. -/
  slots : ((live l.entries).map (·.index)).Nodup
  /-- The next handle is given out for a slot that is not in use, -/
  vacant : ∀ h ∈ live l.entries, h.index ≠ l.pool.alloc.1.index
  /-- and for the lowest one. -/
  lowest : ∀ slot < l.pool.alloc.1.index, ∃ h ∈ live l.entries, h.index = slot
  /-- Its generation tells how often the slot has been freed. -/
  generation : l.pool.alloc.1.generation.toNat =
    frees l.pool.alloc.1.index l.entries % 2 ^ 32
  /-- Two handles that have been given out are one exactly if they have one slot, and that has been
  freed a multiple of `2 ^ 32` times in between. -/
  distinct : ∀ before a between b after,
    l.entries = before ++ .given a :: (between ++ .given b :: after) →
      (a = b ↔ a.index = b.index ∧ 2 ^ 32 ∣ frees a.index between)
  /-- Current handles are taken back and no others, -/
  accepted : ∀ h, (l.pool.free? h).isSome = true ↔ h ∈ live l.entries
  /-- which change nothing. -/
  refused : ∀ h, h ∉ live l.entries → l.pool.free h = l.pool
  /-- The size is the number of current handles. -/
  size : l.pool.size = (live l.entries).length
  /-- There are as many slots as there have ever been current handles at a time. -/
  dense : ∀ n, l.pool.slotCount ≤ n ↔
    ∀ earlier, earlier <+: l.entries → (live earlier).length ≤ n
  /-- No slot is free twice. -/
  nodup : l.pool.freeSlots.Nodup

/-! ## What calls keep -/

/-- The entries account for every slot of the pool. -/
structure Balanced (l : Ledger kind) : Prop where
  sound : l.pool.Sound
  ascending : l.pool.freeSlots.Pairwise (· < ·)
  contains : ∀ h, l.pool.contains h = true ↔ h ∈ live l.entries
  slots : ((live l.entries).map (·.index)).Nodup
  generations : ∀ slot, l.pool.generations.getD slot 0 = .ofNat (frees slot l.entries)
  count : l.pool.slotCount = (live l.entries).length + l.pool.freeSlots.length
  reached : ∃ earlier, earlier <+: l.entries ∧ l.pool.slotCount = (live earlier).length
  exceeded : ∀ earlier, earlier <+: l.entries → (live earlier).length ≤ l.pool.slotCount
  given : ∀ before a after, l.entries = before ++ .given a :: after →
    a.generation = .ofNat (frees a.index before)

end Ledger

theorem live_concat (entries : List (Entry kind)) (e : Entry kind) :
    live (entries ++ [e]) = e.settle (live entries) := by
  unfold live
  rw [List.foldl_append]
  rfl

theorem frees_append (slot : Nat) (first second : List (Entry kind)) :
    frees slot (first ++ second) = frees slot first + frees slot second :=
  List.countP_append

/-- Entries but for those that free a slot do not count. -/
theorem frees_concat (slot : Nat) (entries : List (Entry kind)) (e : Entry kind) :
    frees slot (entries ++ [e]) = frees slot entries + if e.frees slot then 1 else 0 := by
  rw [frees_append]
  congr 1
  exact List.countP_singleton ..

/-! ## Giving out -/

variable {pool : HandlePool kind}

/-- All slots below the one that is given out are in use. -/
theorem inUse_of_lt_alloc (h : pool.Sound) (hascending : pool.freeSlots.Pairwise (· < ·)) {slot : Nat}
    (hlt : slot < pool.alloc.1.index) : pool.inUse slot = true := by
  have hbound : slot < pool.generations.size := by
    have hindex := (alloc_spec h).2.2.2.1
    omega
  have hused : slot ∉ pool.freeSlots := by
    intro hmem
    rcases alloc_cases pool with ⟨hfree, _⟩ | ⟨hfree, _⟩
    · -- the slot that is given out is the lowest of the free ones
      rw [hfree] at hmem hascending
      rcases List.mem_cons.mp hmem with rfl | hmem
      · exact Nat.lt_irrefl _ hlt
      · exact Nat.lt_asymm hlt ((List.pairwise_cons.mp hascending).1 slot hmem)
    · rw [hfree] at hmem
      cases hmem
  rw [h.free, not_and, Bool.not_eq_false] at hused
  exact hused hbound

/-! ## Taking back -/

theorem isSome_free? (pool : HandlePool kind) (h : Handle kind) :
    (pool.free? h).isSome = pool.contains h := by
  unfold free?
  cases hcontains : pool.contains h <;> rfl

@[simp]
theorem length_insertSlot (slot : Nat) (slots : List Nat) :
    (insertSlot slot slots).length = slots.length + 1 := by
  induction slots with
  | nil => rfl
  | cons s rest ih =>
    unfold insertSlot
    split
    · rfl
    · exact congrArg (· + 1) ih

theorem pairwise_insertSlot {slot : Nat} {slots : List Nat} (h : slots.Pairwise (· < ·))
    (hslot : slot ∉ slots) : (insertSlot slot slots).Pairwise (· < ·) := by
  induction slots with
  | nil => exact List.pairwise_singleton ..
  | cons s rest ih =>
    rw [List.mem_cons, not_or] at hslot
    rw [List.pairwise_cons] at h
    unfold insertSlot
    split
    · have hlt : slot < s := by omega
      refine List.pairwise_cons.mpr ⟨fun i hi => ?_, List.pairwise_cons.mpr h⟩
      rcases List.mem_cons.mp hi with rfl | hi
      · exact hlt
      · exact Nat.lt_trans hlt (h.1 i hi)
    · refine List.pairwise_cons.mpr ⟨fun i hi => ?_, ih h.2 hslot.2⟩
      rcases mem_insertSlot.mp hi with rfl | hi
      · omega
      · exact h.1 i hi

namespace Ledger

theorem balanced_empty : ({} : Ledger kind).Balanced where
  sound := sound_empty
  ascending := List.Pairwise.nil
  contains h := by simp [live, contains, empty]
  slots := List.nodup_nil
  generations slot := by simp [empty, frees]
  count := rfl
  reached := ⟨[], List.prefix_rfl, rfl⟩
  exceeded earlier h := by
    rw [List.prefix_nil.mp h]
    exact Nat.le_refl 0
  given before a after h := by simp at h

variable {l : Ledger kind}

omit kind in
/-- A list with one more element is cut either there or before. -/
theorem eq_or_exists_of_concat {α : Type} {entries before after : List α} {e x : α}
    (h : entries ++ [e] = before ++ x :: after) :
    (entries = before ∧ e = x) ∨ ∃ rest, entries = before ++ x :: rest := by
  rcases List.eq_nil_or_concat after with rfl | ⟨rest, last, rfl⟩
  · have hinj := List.append_inj' h rfl
    exact .inl ⟨hinj.1, List.singleton_inj.mp hinj.2⟩
  · refine .inr ⟨rest, ?_⟩
    rw [List.concat_eq_append, ← List.cons_append, ← List.append_assoc] at h
    exact (List.append_inj' h rfl).1

/-- What is true of each handle when it is given out stays true of it. -/
theorem given_concat {entries : List (Entry kind)} {e : Entry kind}
    (h : ∀ before a after, entries = before ++ .given a :: after →
      a.generation = .ofNat (frees a.index before))
    (he : ∀ a, e = .given a → a.generation = .ofNat (frees a.index entries)) :
    ∀ before a after, entries ++ [e] = before ++ .given a :: after →
      a.generation = .ofNat (frees a.index before) := by
  intro before a after hsplit
  rcases eq_or_exists_of_concat hsplit with ⟨rfl, hlast⟩ | ⟨rest, hrest⟩
  · exact he a hlast
  · exact h before a rest hrest

/-- A call either gives out a handle, takes back a current one, or changes nothing. -/
theorem perform_cases (l : Ledger kind) (call : Call kind) :
    l.perform call = ⟨l.pool.alloc.2, l.entries ++ [.given l.pool.alloc.1]⟩ ∨
      (∃ a, l.pool.contains a = true ∧ l.perform call = ⟨l.pool.free a, l.entries ++ [.taken a]⟩) ∨
      ∃ a, l.perform call = ⟨l.pool, l.entries ++ [.refused a]⟩ := by
  cases call with
  | alloc => exact .inl rfl
  | free a =>
    refine .inr ?_
    unfold perform outcome
    dsimp only
    rw [isSome_free?]
    cases hcontains : l.pool.contains a with
    | true => exact .inl ⟨a, hcontains, rfl⟩
    | false => exact .inr ⟨a, congrArg (Ledger.mk · _) (free_of_not_contains hcontains)⟩

namespace Balanced

theorem inUse (h : l.Balanced) {a : Handle kind} (ha : a ∈ live l.entries) :
    l.pool.inUse a.index = true :=
  (contains_iff.mp ((h.contains a).mpr ha)).1

/-- Giving out a handle keeps the balance. -/
theorem alloc (h : l.Balanced) :
    Balanced ⟨l.pool.alloc.2, l.entries ++ [.given l.pool.alloc.1]⟩ := by
  rcases alloc_spec h.sound with ⟨hsound, hvacant, hcontains, _⟩
  rcases generations_alloc l.pool with ⟨hgeneration, hgenerations⟩
  have hlive : live (l.entries ++ [.given l.pool.alloc.1]) = live l.entries ++ [l.pool.alloc.1] :=
    live_concat ..
  have hlength := congrArg List.length hlive
  rw [List.length_append, List.length_singleton] at hlength
  -- either a free slot is used again, or all slots are in use and there is a new one
  have hslots : l.pool.alloc.2.slotCount =
        (live (l.entries ++ [.given l.pool.alloc.1])).length + l.pool.alloc.2.freeSlots.length ∧
      l.pool.slotCount ≤ l.pool.alloc.2.slotCount ∧
      (l.pool.alloc.2.slotCount = l.pool.slotCount ∨
        l.pool.alloc.2.slotCount = (live (l.entries ++ [.given l.pool.alloc.1])).length) ∧
      l.pool.alloc.2.freeSlots.Pairwise (· < ·) := by
    have hcount := h.count
    have hascending := h.ascending
    rcases alloc_cases l.pool with ⟨hfree, hsame⟩ | ⟨hfree, hnone, _, hmore⟩
    · rw [hfree, List.length_cons] at hcount
      rw [hfree] at hascending
      exact ⟨by omega, by omega, .inl hsame, (List.pairwise_cons.mp hascending).2⟩
    · rw [hfree, List.length_nil] at hcount
      rw [hnone, List.length_nil]
      exact ⟨by omega, by omega, .inr (by omega), .nil⟩
  constructor
  case sound => exact hsound
  case ascending => exact hslots.2.2.2
  case contains =>
    intro a
    rw [hlive, List.mem_append, List.mem_singleton, ← h.contains, or_comm]
    exact hcontains a
  case slots =>
    rw [hlive, List.map_append, List.nodup_append]
    refine ⟨h.slots, List.nodup_singleton _, fun slot hslot other hother heq => ?_⟩
    rcases List.mem_map.mp hslot with ⟨a, ha, rfl⟩
    have hused := h.inUse ha
    rw [heq, List.mem_singleton.mp hother, hvacant] at hused
    cases hused
  case generations =>
    intro slot
    rw [frees_concat]
    exact (hgenerations slot).trans (h.generations slot)
  case count => exact hslots.1
  case reached =>
    rcases hslots.2.2.1 with hsame | hall
    · rcases h.reached with ⟨earlier, hprefix, hreached⟩
      exact ⟨earlier, hprefix.trans (List.prefix_append ..), hsame.trans hreached⟩
    · exact ⟨_, List.prefix_rfl, hall⟩
  case exceeded =>
    intro earlier hprefix
    rcases List.prefix_concat_iff.mp hprefix with rfl | hprefix
    · exact Nat.le.intro hslots.1.symm
    · exact Nat.le_trans (h.exceeded earlier hprefix) hslots.2.1
  case given =>
    refine given_concat h.given fun a ha => ?_
    cases ha
    exact hgeneration.trans (h.generations _)

/-- Taking back a current handle keeps the balance. -/
theorem free (h : l.Balanced) {a : Handle kind} (hyes : l.pool.contains a = true) :
    Balanced ⟨l.pool.free a, l.entries ++ [.taken a]⟩ := by
  rcases free_spec h.sound a with ⟨hsound, hcontains⟩
  rcases free_of_contains h.sound hyes with ⟨hfree, hcount, hgenerations⟩
  have hmem := (h.contains a).mp hyes
  have hlive : live (l.entries ++ [.taken a]) = (live l.entries).erase a := live_concat ..
  have hlength := congrArg List.length hlive
  rw [List.length_erase_of_mem hmem] at hlength
  have hpos := List.length_pos_of_mem hmem
  have hbalance := h.count
  have hused : a.index ∉ l.pool.freeSlots := fun hmem => by
    have hvacant := ((h.sound.free _).mp hmem).2
    rw [h.inUse ((h.contains a).mp hyes)] at hvacant
    cases hvacant
  -- one live handle less, and one free slot more
  have hslots : (l.pool.free a).slotCount =
      (live (l.entries ++ [.taken a])).length + (l.pool.free a).freeSlots.length := by
    rw [hfree, length_insertSlot]
    omega
  constructor
  case sound => exact hsound
  case ascending => exact hfree ▸ pairwise_insertSlot h.ascending hused
  case contains =>
    intro b
    rw [hlive, h.slots.of_map.mem_erase_iff, ← h.contains, and_comm]
    exact hcontains b
  case slots =>
    rw [hlive]
    exact h.slots.sublist (List.erase_sublist.map _)
  case generations =>
    intro slot
    rw [hgenerations, frees_concat, h.generations]
    by_cases hslot : slot = a.index
    · have hfrees : (Entry.taken a).frees slot = true := beq_iff_eq.mpr hslot.symm
      rw [if_pos hslot, if_pos hfrees, UInt32.ofNat_add]
      rfl
    · have hkeeps : ¬ (Entry.taken a).frees slot = true := fun heq =>
        hslot (beq_iff_eq.mp heq).symm
      rw [if_neg hslot, if_neg hkeeps, Nat.add_zero]
  case count => exact hslots
  case reached =>
    rcases h.reached with ⟨earlier, hprefix, hreached⟩
    exact ⟨earlier, hprefix.trans (List.prefix_append ..), hcount.trans hreached⟩
  case exceeded =>
    intro earlier hprefix
    rcases List.prefix_concat_iff.mp hprefix with rfl | hprefix
    · exact Nat.le.intro hslots.symm
    · exact Nat.le_trans (h.exceeded earlier hprefix) (Nat.le_of_eq hcount.symm)
  case given => exact given_concat h.given nofun

/-- Refusing a handle keeps the balance. -/
theorem refuse (h : l.Balanced) (a : Handle kind) :
    Balanced ⟨l.pool, l.entries ++ [.refused a]⟩ := by
  have hlive : live (l.entries ++ [.refused a]) = live l.entries := live_concat ..
  constructor
  case sound => exact h.sound
  case ascending => exact h.ascending
  case contains => exact hlive ▸ h.contains
  case slots => exact hlive ▸ h.slots
  case generations =>
    intro slot
    rw [frees_concat]
    exact h.generations slot
  case count => exact hlive ▸ h.count
  case reached =>
    rcases h.reached with ⟨earlier, hprefix, hreached⟩
    exact ⟨earlier, hprefix.trans (List.prefix_append ..), hreached⟩
  case exceeded =>
    intro earlier hprefix
    rcases List.prefix_concat_iff.mp hprefix with rfl | hprefix
    · rw [hlive]
      exact Nat.le.intro h.count.symm
    · exact h.exceeded earlier hprefix
  case given => exact given_concat h.given nofun

theorem perform (h : l.Balanced) (call : Call kind) : (l.perform call).Balanced := by
  rcases l.perform_cases call with heq | ⟨a, hyes, heq⟩ | ⟨a, heq⟩ <;> rw [heq]
  · exact h.alloc
  · exact h.free hyes
  · exact h.refuse a

/-- What the entries account for, they tell. -/
theorem honest (h : l.Balanced) : l.Honest := by
  rcases generations_alloc l.pool with ⟨hgeneration, _⟩
  have hcount := h.count
  have htoNat : ∀ n : Nat, (UInt32.ofNat n).toNat = n % 2 ^ 32 := fun n => UInt32.toNat_ofNat' ..
  constructor
  case contains => exact h.contains
  case slots => exact h.slots
  case vacant =>
    intro a ha heq
    have hused := h.inUse ha
    rw [heq, (alloc_spec h.sound).2.1] at hused
    cases hused
  case lowest =>
    intro slot hlt
    have hused := inUse_of_lt_alloc h.sound h.ascending hlt
    exact ⟨⟨slot, l.pool.generations.getD slot 0⟩, (h.contains _).mp (contains_iff.mpr ⟨hused, rfl⟩),
      rfl⟩
  case generation => rw [hgeneration, h.generations, htoNat]
  case distinct =>
    intro before a between b after hsplit
    have hfirst := h.given before a _ hsplit
    have hsecond := h.given (before ++ .given a :: between) b after
      (by rw [hsplit, List.append_assoc, List.cons_append])
    -- giving out the first handle frees no slot
    have hfrees : frees b.index (before ++ .given a :: between) =
        frees b.index before + frees b.index between := by
      rw [← List.singleton_append, frees_append, frees_append]
      exact congrArg _ (Nat.zero_add _)
    rw [hfrees] at hsecond
    have hsame : a.index = b.index → (a.generation = b.generation ↔ 2 ^ 32 ∣ frees a.index between) := by
      intro hindex
      rw [hfirst, hsecond, ← hindex, ← UInt32.toNat_inj, htoNat, htoNat]
      omega
    constructor
    · rintro rfl
      exact ⟨rfl, (hsame rfl).mp rfl⟩
    · rintro ⟨hindex, hdivides⟩
      exact Handle.eq_of_parts hindex ((hsame hindex).mpr hdivides)
  case accepted =>
    intro a
    rw [isSome_free?]
    exact h.contains a
  case refused =>
    intro a ha
    exact free_of_not_contains (Bool.eq_false_iff.mpr fun hyes => ha ((h.contains a).mp hyes))
  case size =>
    unfold HandlePool.size
    change l.pool.generations.size = _ at hcount
    omega
  case dense =>
    intro n
    rcases h.reached with ⟨most, hmost, hreached⟩
    exact ⟨fun hn earlier hprefix => Nat.le_trans (h.exceeded earlier hprefix) hn,
      fun hn => hreached ▸ hn most hmost⟩
  case nodup => exact h.sound.nodup

end Balanced

/-- However a pool is used, its entries tell which handles are in use, which one is given out next and
which ones are taken back. -/
theorem run_honest (calls : List (Call kind)) : (run calls).Honest := by
  have hbalanced : ∀ (calls : List (Call kind)) (l : Ledger kind), l.Balanced →
      (calls.foldl perform l).Balanced := by
    intro calls
    induction calls with
    | nil => exact fun _ h => h
    | cons call rest ih => exact fun l h => ih _ (h.perform call)
  exact (hbalanced calls {} balanced_empty).honest

end Ledger

end HandlePool

end TetheredParticles
