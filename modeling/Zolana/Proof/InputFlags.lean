import Zolana.Pool.TreeSlot

/-!
# The packed input flags

What the circuit reads from the packed element is what the program packed: the dummy-input bit and the
tree index of every input. Each index goes above the bits written so far, so it disturbs none of them.
-/

namespace Zolana

variable {flags flags' : Bytes32} {index treeIndex : Nat} {treeIndexes : List Nat}

theorem orInputFlagsBits_eq_ok {value shift : Nat} (h : orInputFlagsBits flags value shift = .ok flags') :
    flags' = flags ||| BitVec.ofNat 256 value <<< shift := by
  unfold orInputFlagsBits at h
  dsimp only at h
  split at h
  case isTrue => cases h
  case isFalse =>
    split at h
    case isTrue => cases h
    case isFalse => exact (Except.ok.inj h).symm

theorem getLsbD_or_shift (flags : Bytes32) (value shift b : Nat) :
    (flags ||| BitVec.ofNat 256 value <<< shift).getLsbD b =
      (flags.getLsbD b || (decide (b < 256) && decide (shift ≤ b) && value.testBit (b - shift))) := by
  rw [BitVec.getLsbD_or, BitVec.getLsbD_shiftLeft, BitVec.getLsbD_ofNat]
  by_cases hb : b < 256
  · have hsub : b - shift < 256 := by omega
    by_cases hle : shift ≤ b
    · simp [hb, hle, hsub, Nat.not_lt.mpr hle]
    · simp [hb, hle, Nat.lt_of_not_le hle]
  · simp [hb]

theorem packTreeIndexes_cons (h : packTreeIndexes index flags (treeIndex :: treeIndexes) = .ok flags') :
    index < maxTransactInputs ∧ treeIndex < inputTreeSlots ∧
      packTreeIndexes (index + 1)
        (flags ||| BitVec.ofNat 256 treeIndex <<< inputFlagsTreeIndexShift index) treeIndexes
        = .ok flags' := by
  rw [packTreeIndexes] at h
  split at h
  case isTrue => cases h
  case isFalse hindex =>
    split at h
    case isTrue => cases h
    case isFalse htree =>
      cases hor : orInputFlagsBits flags treeIndex (inputFlagsTreeIndexShift index) with
      | error e =>
          rw [hor] at h
          cases h
      | ok packed =>
          rw [hor] at h
          rw [← orInputFlagsBits_eq_ok hor]
          exact ⟨Nat.lt_of_not_le hindex, Nat.lt_of_not_le htree, h⟩

theorem packTreeIndexes_getLsbD (h : packTreeIndexes index flags treeIndexes = .ok flags') {b : Nat}
    (hb : b < inputFlagsTreeIndexShift index) : flags'.getLsbD b = flags.getLsbD b := by
  induction treeIndexes generalizing index flags with
  | nil =>
      cases h
      rfl
  | cons treeIndex treeIndexes ih =>
      obtain ⟨_, _, hrest⟩ := packTreeIndexes_cons h
      have hnext : b < inputFlagsTreeIndexShift (index + 1) := by
        unfold inputFlagsTreeIndexShift at hb ⊢
        omega
      rw [ih hrest hnext, getLsbD_or_shift, decide_eq_false (Nat.not_le.mpr hb)]
      simp

theorem inputFlagsTreeIndex_eq (htree : treeIndex < 8)
    (h : ∀ j < 3, flags.getLsbD (inputFlagsTreeIndexShift index + j) = treeIndex.testBit j) :
    inputFlagsTreeIndex flags index = treeIndex := by
  apply Nat.eq_of_testBit_eq
  intro j
  rw [inputFlagsTreeIndex, show (8 : Nat) = 2 ^ 3 from rfl, Nat.testBit_mod_two_pow]
  by_cases hj : j < 3
  · rw [decide_eq_true hj, Bool.true_and, ← BitVec.getLsbD, BitVec.getLsbD_ushiftRight, h j hj]
  · have hlt : treeIndex < 2 ^ j :=
      Nat.lt_of_lt_of_le htree
        (Nat.pow_le_pow_right (n := 2) (i := 3) (by decide) (Nat.le_of_not_lt hj))
    rw [decide_eq_false hj, Bool.false_and, Nat.testBit_lt_two_pow hlt]

/-- The invariant of the loop is that no bit is written yet from its index on. -/
theorem packTreeIndexes_treeIndex (h : packTreeIndexes index flags treeIndexes = .ok flags')
    (hclear : ∀ b, inputFlagsTreeIndexShift index ≤ b → flags.getLsbD b = false) {i : Nat}
    (hi : treeIndexes[i]? = some treeIndex) : inputFlagsTreeIndex flags' (index + i) = treeIndex := by
  induction treeIndexes generalizing index flags i with
  | nil => cases hi
  | cons head treeIndexes ih =>
      obtain ⟨hindex, htree, hrest⟩ := packTreeIndexes_cons h
      have hshift : inputFlagsTreeIndexShift (index + 1) = inputFlagsTreeIndexShift index + 3 := by
        unfold inputFlagsTreeIndexShift
        omega
      have hhead : head < 8 := Nat.lt_of_lt_of_le htree (by decide)
      cases i with
      | zero =>
          obtain rfl := Option.some.inj hi
          apply inputFlagsTreeIndex_eq hhead
          intro j hj
          have hwidth : inputFlagsTreeIndexShift index + j < 256 := by
            unfold inputFlagsTreeIndexShift maxTransactInputs at *
            omega
          rw [Nat.add_zero, packTreeIndexes_getLsbD hrest (by omega), getLsbD_or_shift,
            hclear _ (Nat.le_add_right _ _), decide_eq_true hwidth,
            decide_eq_true (Nat.le_add_right _ _), Nat.add_sub_cancel_left]
          simp
      | succ i =>
          rw [show index + (i + 1) = index + 1 + i by omega]
          refine ih hrest ?_ hi
          intro b hb
          have hlt : head < 2 ^ (b - inputFlagsTreeIndexShift index) :=
            Nat.lt_of_lt_of_le hhead (Nat.pow_le_pow_right (n := 2) (i := 3) (by decide) (by omega))
          rw [getLsbD_or_shift, hclear b (by omega), Nat.testBit_lt_two_pow hlt]
          simp

section Pack

variable {allowDummyInputs : Bool} {treeIndexes : List Nat} {flags : Bytes32}

section

variable (h : packInputFlags allowDummyInputs treeIndexes = .ok flags)

include h

theorem packInputFlags_eq_ok :
    packTreeIndexes 0 (BitVec.ofNat 256 allowDummyInputs.toNat) treeIndexes = .ok flags := by
  have hfirst : orInputFlagsBits 0 allowDummyInputs.toNat 0
      = .ok (BitVec.ofNat 256 allowDummyInputs.toNat) := by
    cases allowDummyInputs <;> rfl
  rw [packInputFlags, hfirst] at h
  exact h

theorem inputFlagsAllowDummy_pack : inputFlagsAllowDummy flags = allowDummyInputs := by
  rw [inputFlagsAllowDummy, packTreeIndexes_getLsbD (packInputFlags_eq_ok h) (by decide)]
  cases allowDummyInputs <;> rfl

theorem inputFlagsTreeIndex_pack {i treeIndex : Nat} (hi : treeIndexes[i]? = some treeIndex) :
    inputFlagsTreeIndex flags i = treeIndex := by
  have hclear : ∀ b, inputFlagsTreeIndexShift 0 ≤ b →
      (BitVec.ofNat 256 allowDummyInputs.toNat).getLsbD b = false := by
    intro b hb
    have hlt : allowDummyInputs.toNat < 2 ^ b :=
      Nat.lt_of_lt_of_le (Bool.toNat_lt allowDummyInputs)
        (Nat.pow_le_pow_right (n := 2) (i := 1) (by decide) hb)
    rw [BitVec.getLsbD_ofNat, Nat.testBit_lt_two_pow hlt, Bool.and_false]
  have htree := packTreeIndexes_treeIndex (packInputFlags_eq_ok h) hclear hi
  rwa [Nat.zero_add] at htree

end

end Pack

end Zolana
