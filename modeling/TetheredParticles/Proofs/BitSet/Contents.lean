import Mathlib.Data.Nat.Count
import TetheredParticles.Proofs.BitSet
/-!
# Bit sets as finite sets

A bit set stands for a length and a finite set of indices below it, and everything that it answers
can be told from those two. The last word may have bits past the length. `get` never looks at them,
but they would be counted, and would tell an empty set from a new one: therefore they have to stay
unset, and what is said of the bits of a set is said of these bits as well.

* `BitSet.Call`, `BitSet.perform` — what a bit set is called for, and what comes of it.
* `BitSet.Contents`, `BitSet.Contents.perform` — the same calls for lengths and finite sets.
* `BitSet.Represents` — the invariant, and `BitSet.Represents.perform`, that calls keep it.
* `BitSet.Shows` — what can be seen of the contents.
* `BitSet.run_shows` — along all calls, both answer alike and meet the same faults.
-/

namespace TetheredParticles.BitSet

/-- What a bit set is called for. -/
inductive Call where
  | set (index : Nat)
  /-- An index is added, and the answer is whether it was absent. -/
  | insert (index : Nat)
  | unset (index : Nat)
  | get (index : Nat)
  /-- All indices are taken out. -/
  | clear
  /-- All indices are taken out, and the length is changed. -/
  | resize (length : Nat)
deriving DecidableEq, Repr

namespace Call

/-- The length that a call asks for. -/
def length? : Call → Option Nat
  | .resize length => some length
  | _ => none

/-- The length that was asked for last. -/
def lastLength (length : Nat) (calls : List Call) : Nat := (calls.filterMap length?).getLastD length

/-- The answers to calls in order, each with what the one before has left, and what is left in the
end. -/
def performAll {σ : Type} (perform : σ → Call → Except Fault (Option Bool × σ)) :
    σ → List Call → Except Fault (List (Option Bool) × σ)
  | state, [] => .ok ([], state)
  | state, call :: rest => do
    let (answer, state) ← perform state call
    let (answers, state) ← performAll perform state rest
    return (answer :: answers, state)

end Call

/-- The answer to a call, if it has one, and the set after it. -/
def perform (s : BitSet) : Call → Except Fault (Option Bool × BitSet)
  | .set index => do return (none, ← s.set index)
  | .insert index => do
    let (absent, s) ← s.insert index
    return (some absent, s)
  | .unset index => .ok (none, s.unset index)
  | .get index => .ok (some (s.get index), s)
  | .clear => .ok (none, s.clear)
  | .resize length => .ok (none, s.resize length)

/-- The answers to calls of a bit set, and the set after them. -/
def run (s : BitSet) (calls : List Call) : Except Fault (List (Option Bool) × BitSet) :=
  Call.performAll perform s calls

/-! ## Contents -/

/-- A finite set of indices below a length. -/
structure Contents where
  length : Nat
  members : Finset Nat
  below : ∀ i ∈ members, i < length

namespace Contents

/-- No indices. -/
def blank (length : Nat) : Contents := ⟨length, ∅, by simp⟩

/-- The contents with an index added, which has to be below the length. -/
def add (c : Contents) (index : Nat) : Except Fault Contents :=
  if h : index < c.length then
    .ok ⟨c.length, Insert.insert index c.members, by simpa using ⟨h, c.below⟩⟩
  else .error (.bitOutOfRange index c.length)

/-- The contents without an index. -/
def remove (c : Contents) (index : Nat) : Contents :=
  ⟨c.length, c.members.erase index, fun i hi => c.below i (Finset.mem_of_mem_erase hi)⟩

/-- The answer to a call, if it has one, and the contents after it. -/
def perform (c : Contents) : Call → Except Fault (Option Bool × Contents)
  | .set index => do return (none, ← c.add index)
  | .insert index => do return (some (decide (index ∉ c.members)), ← c.add index)
  | .unset index => .ok (none, c.remove index)
  | .get index => .ok (some (decide (index ∈ c.members)), c)
  | .clear => .ok (none, blank c.length)
  | .resize length => .ok (none, blank length)

/-- The answers to calls, and the contents after them. -/
def run (c : Contents) (calls : List Call) : Except Fault (List (Option Bool) × Contents) :=
  Call.performAll perform c calls

/-- The length is the one that was asked for last. -/
theorem length_run {c after : Contents} {calls : List Call} {answers : List (Option Bool)}
    (h : c.run calls = .ok (answers, after)) : after.length = Call.lastLength c.length calls := by
  unfold run at h
  induction calls generalizing c answers with
  | nil =>
    cases h
    rfl
  | cons call rest ih =>
    rcases exists_of_bind_ok h with ⟨⟨answer, next⟩, hcall, h⟩
    rcases exists_of_bind_ok h with ⟨⟨others, last⟩, hrest, h⟩
    cases h
    have hlength : next.length = call.length?.getD c.length := by
      cases call with
      | set index | insert index =>
        rcases exists_of_bind_ok hcall with ⟨d, hadd, hcall⟩
        cases hcall
        unfold add at hadd
        split at hadd <;> cases hadd
        rfl
      | unset | get | clear | resize =>
        cases hcall
        rfl
    rw [ih hrest, hlength]
    unfold Call.lastLength
    rw [List.filterMap_cons]
    cases call.length? with
    | none => rfl
    | some length => exact (List.getLastD_cons ..).symm

end Contents

/-- A computation on bit sets comes to the same as one on contents: to the same answer, with a set
and contents that are related, or to the same fault. -/
def Realizes {α : Type} (related : BitSet → Contents → Prop) (x : Except Fault (α × BitSet)) :
    Except Fault (α × Contents) → Prop
  | .ok (answer, c) => ∃ s, x = .ok (answer, s) ∧ related s c
  | .error fault => x = .error fault

namespace Realizes

variable {α β : Type} {related : BitSet → Contents → Prop} {x : Except Fault (α × BitSet)}
  {y : Except Fault (α × Contents)}

theorem ok {s : BitSet} {c : Contents} (answer : α) (h : related s c) :
    Realizes related (.ok (answer, s)) (.ok (answer, c)) := ⟨s, rfl, h⟩

theorem weaken {related' : BitSet → Contents → Prop} (h : Realizes related x y)
    (hr : ∀ answer s c, y = .ok (answer, c) → related s c → related' s c) :
    Realizes related' x y := by
  cases y with
  | error fault => exact h
  | ok result =>
    rcases result with ⟨answer, c⟩
    rcases h with ⟨s, hx, hs⟩
    exact ⟨s, hx, hr answer s c rfl hs⟩

theorem bind {f : α × BitSet → Except Fault (β × BitSet)}
    {g : α × Contents → Except Fault (β × Contents)} (h : Realizes related x y)
    (hf : ∀ answer s c, y = .ok (answer, c) → related s c →
      Realizes related (f (answer, s)) (g (answer, c))) :
    Realizes related (x >>= f) (y >>= g) := by
  cases y with
  | error fault =>
    change x = .error fault at h
    rw [h]
    exact rfl
  | ok result =>
    rcases result with ⟨answer, c⟩
    rcases h with ⟨s, rfl, hs⟩
    exact hf answer s c rfl hs

end Realizes

/-! ## What can be seen -/

/-- Everything that can be seen of a bit set is told by its contents. -/
structure Shows (s : BitSet) (c : Contents) : Prop where
  length : s.length = c.length
  /-- The indices are those of the contents, all of which are below the length. -/
  get : ∀ i, s.get i = true ↔ i ∈ c.members
  /-- The number of set bits is the number of indices. -/
  count : s.count = c.members.card
  /-- It is the same as a new set if and only if it has the length of that set and no index. -/
  eq_ofLength_iff : ∀ length, s = ofLength length ↔ c.length = length ∧ c.members = ∅

/-! ## What calls keep -/

/-- A bit is set if and only if its index belongs to the contents, even past the length. -/
structure Represents (s : BitSet) (c : Contents) : Prop where
  length : s.length = c.length
  whole : s.Whole
  bit : ∀ i, s.bit i = decide (i ∈ c.members)

theorem represents_ofLength (length : Nat) : (ofLength length).Represents (.blank length) where
  length := rfl
  whole := whole_ofLength length
  bit i := by simp [Contents.blank]

namespace Represents

variable {s : BitSet} {c : Contents}

theorem get (h : s.Represents c) (i : Nat) : s.get i = decide (i ∈ c.members) := by
  rw [get_eq, h.bit, h.length]
  by_cases hi : i ∈ c.members
  · simp [hi, c.below i hi]
  · simp [hi]

/-- An index is added, or meets a fault because it is not below the length. -/
theorem set {α : Type} (h : s.Represents c) (answer : α) (index : Nat) :
    Realizes Represents (do return (answer, ← s.set index)) (do return (answer, ← c.add index)) := by
  by_cases hlt : index < c.length
  · have hadd : c.add index = .ok ⟨c.length, Insert.insert index c.members, _⟩ := dif_pos hlt
    have hset := set_eq_ok.mpr ⟨h.length ▸ hlt, rfl⟩
    rcases bit_of_set h.whole hset with ⟨hwhole, hlength, hbit⟩
    rw [hset, hadd]
    refine .ok answer ⟨hlength.trans h.length, hwhole, fun i => ?_⟩
    rw [hbit, h.bit]
    simp
  · have hadd : c.add index = .error (.bitOutOfRange index c.length) := dif_neg hlt
    have hset : s.set index = .error (.bitOutOfRange index c.length) := by
      unfold BitSet.set
      rw [h.length, if_neg hlt]
    rw [hset, hadd]
    exact rfl

theorem unset (h : s.Represents c) (index : Nat) : (s.unset index).Represents (c.remove index) where
  length := by
    unfold BitSet.unset
    split <;> exact h.length
  whole := whole_unset h.whole index
  bit i := by
    by_cases hlt : index < s.length
    · rw [bit_unset h.whole hlt, h.bit]
      simp [Contents.remove]
    · -- what is not below the length is not there to be taken out
      have habsent : index ∉ c.members := fun hmem => hlt (h.length ▸ c.below index hmem)
      have hsame : s.unset index = s := if_neg hlt
      rw [hsame, h.bit]
      simp [Contents.remove, Finset.erase_eq_of_notMem habsent]

theorem clear (h : s.Represents c) : s.clear.Represents (.blank c.length) where
  length := h.length
  whole := whole_clear h.whole
  bit i := by simp [bit_clear, Contents.blank]

/-- Calls keep what a bit set stands for. -/
theorem perform (h : s.Represents c) (call : Call) :
    Realizes Represents (s.perform call) (c.perform call) := by
  cases call with
  | set index => exact h.set none index
  | insert index =>
    have hinsert : s.perform (.insert index) =
        (do return (some (decide (index ∉ c.members)), ← s.set index)) := by
      simp only [BitSet.perform, BitSet.insert, h.get]
      cases s.set index with
      | error fault => rfl
      | ok t => simp
    rw [hinsert]
    exact h.set _ index
  | unset index => exact .ok none (h.unset index)
  | get index =>
    have hget : s.perform (.get index) = .ok (some (decide (index ∈ c.members)), s) :=
      congrArg (fun found => Except.ok (some found, s)) (h.get index)
    rw [hget]
    exact .ok _ h
  | clear => exact .ok none h.clear
  | resize length => exact .ok none (represents_ofLength length)

/-- Calls in order keep what a bit set stands for. -/
theorem run (h : s.Represents c) (calls : List Call) :
    Realizes Represents (s.run calls) (c.run calls) := by
  unfold BitSet.run Contents.run
  induction calls generalizing s c with
  | nil => exact .ok [] h
  | cons call rest ih =>
    refine (h.perform call).bind fun answer s c _ h => ?_
    exact (ih h).bind fun answers s c _ h => .ok _ h

end Represents

/-! ## Counting -/

/-- The bits of words one after the other. -/
def bitOf (words : List UInt64) (i : Nat) : Bool := (words.getD (i / 64) 0).toNat.testBit (i % 64)

theorem popCount_eq_countP (word : UInt64) :
    popCount word = (List.range 64).countP (word.toNat.testBit ·) := by
  unfold popCount
  split
  case isTrue h =>
    rw [h]
    simp
  case isFalse => rfl

theorem sum_popCount (words : List UInt64) :
    (words.map popCount).sum = (List.range (64 * words.length)).countP (bitOf words) := by
  induction words with
  | nil => rfl
  | cons word rest ih =>
    have hfirst : (List.range 64).countP (bitOf (word :: rest)) =
        (List.range 64).countP (word.toNat.testBit ·) := by
      refine List.countP_congr fun i hi => ?_
      have hlt := List.mem_range.mp hi
      simp [bitOf, Nat.div_eq_of_lt hlt, Nat.mod_eq_of_lt hlt]
    have hrest : bitOf (word :: rest) ∘ (64 + ·) = bitOf rest := by
      funext i
      have hdiv : (64 + i) / 64 = i / 64 + 1 := by omega
      have hmod : (64 + i) % 64 = i % 64 := by omega
      simp only [Function.comp_apply, bitOf, hdiv, hmod, List.getD_cons_succ]
    have hlength : 64 * (word :: rest).length = 64 + 64 * rest.length := by
      rw [List.length_cons]
      omega
    rw [List.map_cons, List.sum_cons, ih, popCount_eq_countP, hlength, List.range_add,
      List.countP_append, List.countP_map, hfirst, hrest]

namespace Represents

variable {s : BitSet} {c : Contents}

/-- The bits that are counted are those of the indices, because none past the length is set. -/
theorem count (h : s.Represents c) : s.count = c.members.card := by
  have hbits : bitOf s.words.toList = fun i => decide (i ∈ c.members) := by
    funext i
    rw [← h.bit]
    simp [bitOf, BitSet.bit]
  have hmembers : (Finset.range (64 * s.words.toList.length)).filter (· ∈ c.members) = c.members := by
    rw [Finset.filter_mem_eq_inter, Finset.inter_eq_right]
    intro i hi
    have hlt : i < s.length := h.length ▸ c.below i hi
    have hword : i / 64 < s.words.size := h.whole ▸ div_lt_wordCount hlt
    rw [Finset.mem_range, Array.length_toList]
    omega
  calc
    s.count = (s.words.toList.map popCount).sum := by
      rw [BitSet.count, ← Array.foldl_toList, List.sum_eq_foldl, List.foldl_map]
    _ = (List.range (64 * s.words.toList.length)).countP (bitOf s.words.toList) := sum_popCount _
    _ = Nat.count (· ∈ c.members) (64 * s.words.toList.length) := by rw [hbits, Nat.count]
    _ = c.members.card := by rw [Nat.count_eq_card_filter_range, hmembers]

/-- A bit set is a new one if and only if it has no indices. -/
theorem eq_ofLength_iff (h : s.Represents c) (length : Nat) :
    s = ofLength length ↔ c.length = length ∧ c.members = ∅ := by
  constructor
  · intro heq
    refine ⟨h.length.symm.trans (heq ▸ rfl), Finset.eq_empty_of_forall_notMem fun i hi => ?_⟩
    have hbit := h.bit i
    rw [heq, bit_ofLength, decide_eq_true hi] at hbit
    cases hbit
  · rintro ⟨rfl, hempty⟩
    have hwords : s.words = .replicate (wordCount c.length) 0 := by
      refine Array.ext (by rw [h.whole, h.length, Array.size_replicate]) fun k hk _ => ?_
      rw [Array.getElem_replicate]
      refine eq_zero_of_testBit fun i hi => ?_
      have hdiv : (64 * k + i) / 64 = k := by omega
      have hmod : (64 * k + i) % 64 = i := by omega
      have hbit := h.bit (64 * k + i)
      simpa [BitSet.bit, hdiv, hmod, hk, hempty] using hbit
    exact congrArg₂ BitSet.mk hwords h.length

theorem shows (h : s.Represents c) : s.Shows c where
  length := h.length
  get i := by simp [h.get]
  count := h.count
  eq_ofLength_iff := h.eq_ofLength_iff

end Represents

/-- However a bit set is used, it answers as its contents do: with the same answers to the calls, and
with a set that shows what they have become. A fault is met by both or none. -/
theorem run_shows (length : Nat) (calls : List Call) :
    Realizes (fun s c => s.Shows c ∧ s.length = Call.lastLength length calls)
      ((ofLength length).run calls) ((Contents.blank length).run calls) := by
  have hrun := (represents_ofLength length).run calls
  refine hrun.weaken fun answers s c hc hs => ⟨hs.shows, ?_⟩
  rw [hs.length, Contents.length_run hc]
  rfl

/-- An index in the third word is added once and taken out again, and none past the length is there. -/
example : ((ofLength 130).run [.insert 129, .insert 129, .get 129, .unset 129, .get 129, .get 130]).map
    (·.1) = .ok [some true, some false, some true, none, some false, some false] := by decide

end TetheredParticles.BitSet
