import Mathlib.Algebra.Ring.Nat
import Mathlib.Tactic.Common
import TetheredParticles.Proofs.Outcome
import TetheredParticles.BitSet
/-!
# Bit sets as sets of indices

What an operation does to the words is said here once, bit by bit. Searches read a bit set through
`BitSet.get` alone, and only need to know which indices belong to the result. The bits past the length,
which `BitSet.get` does not show, are never set by an operation.

* `BitSet.Whole` — there is a word for every index below the length.
* `BitSet.bit`, `BitSet.bit_modify` — the bit of an index, and that changing it changes no other.
* `BitSet.bit_of_set`, `BitSet.bit_unset`, `BitSet.bit_clear` — bits after an operation.
* `BitSet.get_ofLength`, `BitSet.get_of_set` — membership after an operation.
* `BitSet.insert_ends` — an index below the length is added without a fault.
-/

namespace TetheredParticles.BitSet

/-! ## Words -/

theorem toNat_mask (index : Nat) : (mask index).toNat = 2 ^ (index % 64) := by
  have hlt : index % 64 < 64 := Nat.mod_lt _ (by decide)
  have hpow : 2 ^ (index % 64) < 2 ^ 64 := Nat.pow_lt_pow_right (by decide) hlt
  have hindex : index % 64 % 18446744073709551616 % 64 = index % 64 := by omega
  simp only [mask, UInt64.toNat_shiftLeft, UInt64.toNat_ofNat', UInt64.toNat_one,
    Nat.shiftLeft_eq, Nat.one_mul]
  rw [show (2 : Nat) ^ 64 = 18446744073709551616 from rfl, hindex]
  exact Nat.mod_eq_of_lt hpow

theorem testBit_and_mask (word : UInt64) (index k : Nat) :
    (word &&& mask index).toNat.testBit k =
      (word.toNat.testBit k && decide (index % 64 = k)) := by
  rw [UInt64.toNat_and, toNat_mask, Nat.testBit_and, Nat.testBit_two_pow]

theorem testBit_or_mask (word : UInt64) (index k : Nat) :
    (word ||| mask index).toNat.testBit k =
      (word.toNat.testBit k || decide (index % 64 = k)) := by
  rw [UInt64.toNat_or, toNat_mask, Nat.testBit_or, Nat.testBit_two_pow]

theorem testBit_and_not_mask (word : UInt64) {index k : Nat} (hk : k < 64) :
    (word &&& ~~~mask index).toNat.testBit k =
      (word.toNat.testBit k && !decide (index % 64 = k)) := by
  have hlt : 2 ^ (index % 64) < 2 ^ 64 :=
    Nat.pow_lt_pow_right (by decide) (Nat.mod_lt _ (by decide))
  have hnot : (~~~mask index).toNat = 2 ^ 64 - (2 ^ (index % 64) + 1) := by
    rw [UInt64.toNat_not, toNat_mask, Nat.sub_sub, Nat.add_comm 1]
    rfl
  rw [UInt64.toNat_and, Nat.testBit_and, hnot, Nat.testBit_two_pow_sub_succ hlt,
    Nat.testBit_two_pow]
  simp [hk]

/-- A word of which no bit is set. -/
theorem eq_zero_of_testBit {word : UInt64} (h : ∀ k < 64, word.toNat.testBit k = false) :
    word = 0 := by
  apply UInt64.toNat.inj
  apply Nat.eq_of_testBit_eq
  intro k
  rw [UInt64.toNat_zero, Nat.zero_testBit]
  by_cases hk : k < 64
  · exact h k hk
  · have hpow : 2 ^ 64 ≤ 2 ^ k := Nat.pow_le_pow_right (by decide) (by omega)
    exact Nat.testBit_lt_two_pow (Nat.lt_of_lt_of_le word.toNat_lt hpow)

/-- A mask picks one bit of a word. -/
theorem and_mask_ne_zero (word : UInt64) (index : Nat) :
    (word &&& mask index != 0) = word.toNat.testBit (index % 64) := by
  cases hbit : word.toNat.testBit (index % 64) with
  | false =>
    have hzero : word &&& mask index = 0 := by
      apply eq_zero_of_testBit
      intro k _
      rw [testBit_and_mask]
      by_cases hk : index % 64 = k
      · simp [← hk, hbit]
      · simp [hk]
    simp [hzero]
  | true =>
    have hne : word &&& mask index ≠ 0 := by
      intro h
      have hk := testBit_and_mask word index (index % 64)
      rw [h, hbit] at hk
      simp at hk
    simpa using hne

/-! ## Membership -/

/-- There is a word for every index below the length. -/
def Whole (s : BitSet) : Prop := s.words.size = wordCount s.length

theorem div_lt_wordCount {index length : Nat} (h : index < length) :
    index / 64 < wordCount length := by
  unfold wordCount
  omega

/-- The bit that belongs to an index, be the index below the length or past it. -/
def bit (s : BitSet) (index : Nat) : Bool :=
  (s.words.getD (index / 64) 0).toNat.testBit (index % 64)

theorem get_eq (s : BitSet) (index : Nat) :
    s.get index = (decide (index < s.length) && s.bit index) := by
  unfold get
  split
  · rename_i h
    simp [h, and_mask_ne_zero, bit]
  · rename_i h
    simp [h]

/-- Changing one bit in the word of an index changes the bit of this index only. -/
theorem bit_modify {s : BitSet} {index : Nat} {f : UInt64 → UInt64} {b : Bool} (hs : s.Whole)
    (hlt : index < s.length)
    (hf : ∀ word : UInt64, ∀ k < 64, (f word).toNat.testBit k =
      if index % 64 = k then b else word.toNat.testBit k) (i : Nat) :
    bit { s with words := s.words.modify (index / 64) f } i =
      if i = index then b else s.bit i := by
  have hword : index / 64 < s.words.size := hs ▸ div_lt_wordCount hlt
  unfold bit
  simp only [Array.getD_eq_getD_getElem?, Array.getElem?_modify]
  by_cases hdiv : index / 64 = i / 64
  · have hmod : index % 64 = i % 64 ↔ i = index := by omega
    rw [if_pos hdiv, ← hdiv, Array.getElem?_eq_getElem hword, Option.map_some, Option.getD_some,
      Option.getD_some, hf _ _ (Nat.mod_lt _ (by decide))]
    simp only [hmod]
  · have hi : i ≠ index := by
      rintro rfl
      exact hdiv rfl
    rw [if_neg hdiv, if_neg hi]

theorem whole_ofLength (length : Nat) : (ofLength length).Whole := by
  simp [Whole, ofLength]

@[simp]
theorem bit_ofLength (length index : Nat) : (ofLength length).bit index = false := by
  simp only [bit, ofLength, Array.getD_eq_getD_getElem?, Array.getElem?_replicate]
  split <;> simp

@[simp]
theorem get_ofLength (length index : Nat) : (ofLength length).get index = false := by
  rw [get_eq, bit_ofLength, Bool.and_false]

/-- An index is added if it is below the length. -/
theorem set_eq_ok {s t : BitSet} {index : Nat} : s.set index = .ok t ↔ index < s.length ∧
    { s with words := s.words.modify (index / 64) (· ||| mask index) } = t := by
  unfold set
  split <;> simp [*]

/-- Adding an index changes nothing else, not even past the length. -/
theorem bit_of_set {s t : BitSet} {index : Nat} (hs : s.Whole) (h : s.set index = .ok t) :
    t.Whole ∧ t.length = s.length ∧ ∀ i, t.bit i = (decide (i = index) || s.bit i) := by
  rcases set_eq_ok.mp h with ⟨hlt, rfl⟩
  refine ⟨by simpa [Whole] using hs, rfl, fun i => ?_⟩
  have hbit := bit_modify (f := (· ||| mask index)) (b := true) hs hlt
    (fun word k _ => by rw [testBit_or_mask]; by_cases hk : index % 64 = k <;> simp [hk]) i
  rw [hbit]
  by_cases hi : i = index <;> simp [hi]

theorem get_of_set {s t : BitSet} {index : Nat} (hs : s.Whole) (h : s.set index = .ok t) :
    t.Whole ∧ t.length = s.length ∧
      ∀ i, t.get i = (decide (i = index) || s.get i) := by
  rcases bit_of_set hs h with ⟨hwhole, hlength, hbit⟩
  refine ⟨hwhole, hlength, fun i => ?_⟩
  rw [get_eq, get_eq, hbit, hlength, Bool.and_or_distrib_left]
  by_cases hi : i = index
  · simp [hi, (set_eq_ok.mp h).1]
  · simp [hi]

theorem whole_unset {s : BitSet} (hs : s.Whole) (index : Nat) : (s.unset index).Whole := by
  unfold unset
  split
  · simpa [Whole] using hs
  · exact hs

/-- Taking an index out changes nothing else. -/
theorem bit_unset {s : BitSet} {index : Nat} (hs : s.Whole) (hlt : index < s.length) (i : Nat) :
    (s.unset index).bit i = (!decide (i = index) && s.bit i) := by
  have hbit := bit_modify (f := (· &&& ~~~mask index)) (b := false) hs hlt
    (fun word k hk => by rw [testBit_and_not_mask _ hk]; by_cases hk : index % 64 = k <;> simp [hk]) i
  unfold unset
  rw [if_pos hlt, hbit]
  by_cases hi : i = index <;> simp [hi]

theorem whole_clear {s : BitSet} (hs : s.Whole) : s.clear.Whole := by
  simpa [Whole, clear] using hs

theorem bit_clear (s : BitSet) (i : Nat) : s.clear.bit i = false := by
  simp only [bit, clear, Array.getD_eq_getD_getElem?, Array.getElem?_map]
  cases s.words[i / 64]? <;> simp

theorem set_ends {s : BitSet} {index : Nat} (hs : s.Whole) (h : index < s.length) :
    Ends (s.set index) never fun t =>
      t.Whole ∧ t.length = s.length ∧ ∀ i, t.get i = (decide (i = index) || s.get i) := by
  have hset := set_eq_ok.mpr ⟨h, rfl⟩
  exact .of_eq_ok hset (get_of_set hs hset)

/-- An index below the length is added, and it is told whether it was absent. -/
theorem insert_ends {s : BitSet} {index : Nat} (hs : s.Whole) (h : index < s.length) :
    Ends (s.insert index) never fun (new, t) =>
      new = !s.get index ∧ t.Whole ∧ t.length = s.length ∧
        ∀ i, t.get i = (decide (i = index) || s.get i) := by
  unfold insert
  exact (set_ends hs h).bind fun t ht => .pure ⟨rfl, ht⟩

/-- The empty set that reaches up to an index, unless the index is the largest one. -/
theorem covering_ends (index : Nat) :
    Ends (covering index) (fun f => f = .lengthOverflow ∧ largestIndex ≤ index) fun t =>
      t.Whole ∧ t.length = index + 1 ∧ ∀ i, t.get i = false := by
  unfold covering
  split
  · exact .ok ⟨whole_ofLength _, rfl, get_ofLength _⟩
  · exact .error ⟨rfl, by omega⟩

end TetheredParticles.BitSet
