import Zolana.Proof.MergeCircuit
import Zolana.Properties.SpendCircuit

/-!
# The merge circuits

A satisfied merge spends utxos of one owner, one asset and one ring, all of them in their trees and none of
them spent there, and creates one utxo that holds the sum of their amounts.
-/

namespace Zolana

open Circuits Merge

namespace Circuits.Merge

variable {poseidon : Poseidon} {n : InputCount}

theorem MergeCircuit.constrain_of_define {c : MergeCircuit n} (h : c.define poseidon = some ()) :
    ∃ derived, c.transaction.constrain poseidon = some derived := by
  cases c with
  | default c =>
      obtain ⟨-, h⟩ := Gates.bind_unit_eq_some.mp h
      obtain ⟨derived, hderived, -⟩ := Option.bind_eq_some_iff.mp h
      exact ⟨derived, hderived⟩
  | ring c =>
      obtain ⟨-, h⟩ := Gates.bind_unit_eq_some.mp h
      obtain ⟨derived, hderived, -⟩ := Option.bind_eq_some_iff.mp h
      exact ⟨derived, hderived⟩

namespace Transaction.Satisfied

variable {t : Transaction n} {ownerHash asset outputBlinding outputHash : Fr}
  {tree : Fin n.count → Fin inputTrees} {utxoHash nullifier : Fin n.count → Fr}
  (h : t.Satisfied poseidon ownerHash asset outputBlinding outputHash tree utxoHash nullifier)

include h

theorem ne_zero_of_utxo {i : Fin n.count} (hutxo : (t.inputs i).domain = utxoDomain) :
    t.common.nullifiers i ≠ 0 :=
  fun hzero => ne_dummyDomain_of_utxo hutxo ((h.slot i).dummy_of_compact hzero)

theorem nullifier_of_utxo {i : Fin n.count} (hutxo : (t.inputs i).domain = utxoDomain) :
    nullifierCircuit poseidon (utxoHash i) (t.inputs i).blinding t.userNullifierSecret =
      some (t.common.nullifiers i) := by
  obtain ⟨utxoNullifier, dummyNullifier, hutxoNullifier, -, hnullifier⟩ := (h.slot i).nullifiers
  rw [if_neg (ne_dummyDomain_of_utxo hutxo)] at hutxoNullifier hnullifier
  rw [h.published i (h.ne_zero_of_utxo hutxo), hnullifier]
  exact hutxoNullifier

theorem val_sum_amount : (∑ i, (t.inputs i).amount).val = ∑ i, (t.inputs i).amount.val := by
  have hcount : n.count ≤ 52 := by
    have hsupported := n.supported
    simp only [supportedInputCounts, List.mem_cons, List.not_mem_nil, or_false] at hsupported
    omega
  apply val_sum_of_lt
  calc ∑ i, (t.inputs i).amount.val
      ≤ ∑ _i : Fin n.count, 2 ^ amountBits := Finset.sum_le_sum fun i _ => (h.slot i).amount_lt.le
    _ = n.count * 2 ^ amountBits := by rw [Finset.sum_const, Finset.card_univ, Fintype.card_fin, smul_eq_mul]
    _ ≤ 52 * 2 ^ amountBits := Nat.mul_le_mul_right _ hcount
    _ < fieldModulus := by norm_num [amountBits, fieldModulus]

end Transaction.Satisfied

end Circuits.Merge

/-- Merge soundness, for a Poseidon without collisions and without the digest zero. A slot is compact when it
publishes the nullifier zero. -/
theorem merge_circuit_soundness {poseidon : Poseidon} (hfree : poseidon.CollisionFree)
    (hzero : poseidon.NeverZero) :
    (∀ (n : InputCount) (c : MergeCircuit n), c.define poseidon = some () →
      ∃ (ownerHash asset : Fr) (output : UtxoCircuitFields) (tree : Fin n.count → Fin inputTrees),
        (c.transaction.inputs ⟨0, n.pos⟩).domain = utxoDomain ∧
        (∀ i, (c.transaction.inputs i).domain = utxoDomain →
          (c.transaction.inputUtxo ownerHash asset i).owner = ownerHash ∧
          (c.transaction.inputUtxo ownerHash asset i).asset = asset ∧
          (c.transaction.inputUtxo ownerHash asset i).ringProgramId = c.transaction.ringProgramId ∧
          (c.transaction.inputUtxo ownerHash asset i).dataHash = 0 ∧
          (c.transaction.inputs i).treeSlot = ((tree i).val : Fr) ∧
          (c.transaction.common.treeSlots (tree i)).utxoRoot ≠ 0 ∧
          ∃ utxoHash,
            utxoHashCircuit poseidon (c.transaction.inputUtxo ownerHash asset i)
              (c.transaction.common.treeSlots (tree i)).id = some utxoHash ∧
            Opens poseidon utxoHash (c.transaction.inputs i).statePathIndex
              (c.transaction.inputs i).statePathElements (c.transaction.common.treeSlots (tree i)).utxoRoot ∧
            (∀ leaves, IsRootOf poseidon stateTreeHeight leaves
              (c.transaction.common.treeSlots (tree i)).utxoRoot → utxoHash ∈ leaves) ∧
            nullifierCircuit poseidon utxoHash (c.transaction.inputs i).blinding
              c.transaction.userNullifierSecret = some (c.transaction.common.nullifiers i) ∧
            ∀ top elements, IndexedTree poseidon top nullifierTreeHeight elements
              (c.transaction.common.treeSlots (tree i)).nullifierRoot →
                c.transaction.common.nullifiers i ∉ elements.map Prod.fst) ∧
        (∀ i, (c.transaction.inputs i).domain = utxoDomain ∨
          (c.transaction.inputs i).domain = dummyDomain ∧ (c.transaction.inputs i).amount = 0) ∧
        (output.domain = utxoDomain ∧ output.owner = ownerHash ∧ output.asset = asset ∧
          output.ringProgramId = c.transaction.ringProgramId ∧ output.dataHash = 0 ∧
          utxoHashCircuit poseidon output c.transaction.common.outputTreeId =
            some c.transaction.common.outputHash ∧
          output.amount.val = ∑ i, (c.transaction.inputs i).amount.val ∧ output.amount.val < 2 ^ 64) ∧
        (∀ i j, i ≠ j → c.transaction.common.nullifiers i ≠ 0 →
          c.transaction.common.nullifiers i ≠ c.transaction.common.nullifiers j) ∧
        (∀ i, c.transaction.common.nullifiers i = 0 → (c.transaction.inputs i).domain = dummyDomain) ∧
        (c.transaction.common.allowDummyInputs = 0 → ∀ i, c.transaction.common.nullifiers i ≠ 0 →
          (c.transaction.inputs i).domain = utxoDomain)) ∧
    (∀ (n n' : InputCount) (c : MergeCircuit n) (c' : MergeCircuit n') (output output' : UtxoCircuitFields),
      c.define poseidon = some () → c'.define poseidon = some () →
      c.transaction.userNullifierSecret = c'.transaction.userNullifierSecret →
      c.transaction.firstNullifier = c'.transaction.firstNullifier →
      utxoHashCircuit poseidon output c.transaction.common.outputTreeId = some c.transaction.common.outputHash →
      utxoHashCircuit poseidon output' c'.transaction.common.outputTreeId =
        some c'.transaction.common.outputHash →
      output.blinding = output'.blinding) := by
  constructor
  · intro n c hdefine
    obtain ⟨derived, hconstrain⟩ := MergeCircuit.constrain_of_define hdefine
    obtain ⟨⟨ownerHash, asset, outputBlinding, outputHash, tree, utxoHash, nullifier, h⟩, -⟩ :=
      Transaction.constrain_eq_some.mp hconstrain
    generalize c.transaction = t at h
    refine ⟨ownerHash, asset, t.outputUtxo ownerHash asset (∑ i, (t.inputs i).amount) outputBlinding, tree,
      h.first, ?_, ?_, ⟨rfl, rfl, rfl, rfl, rfl, ?_, h.val_sum_amount, h.amount_lt⟩,
      fun i j => ne_of_distinct h.distinct, ?_, ?_⟩
    · intro i hutxo
      have hdummy := ne_dummyDomain_of_utxo hutxo
      have hdigest := (h.slot i).digest
      obtain ⟨root, hopens, hroot⟩ := (h.slot i).included
      rw [hroot hutxo] at hopens
      have habsent := (h.slot i).absent
      rw [← h.published i (h.ne_zero_of_utxo hutxo)] at habsent
      refine ⟨?_, ?_, ?_, ?_, (h.tree_eq i).1, (h.tree_eq i).2.1, utxoHash i, hdigest, hopens, ?_,
        h.nullifier_of_utxo hutxo, ?_⟩
      · rw [Transaction.inputUtxo, Input.utxo_eq]
        exact if_neg hdummy
      · rw [Transaction.inputUtxo, Input.utxo_eq]
        exact if_neg hdummy
      · rw [Transaction.inputUtxo, Input.utxo_eq]
        exact if_neg hdummy
      · rw [Transaction.inputUtxo, Input.utxo_eq]
      · intro leaves hleaves
        exact hopens.mem hfree hleaves (utxoHashCircuit_ne_zero hzero hdigest)
      · intro top elements htree
        exact (habsent.not_mem hfree hzero htree).1
    · intro i
      exact (h.slot i).kind.imp_right fun hdummy => ⟨hdummy, ((h.slot i).dummy hdummy).1⟩
    · rw [← h.output.published id]
      exact h.output.digest
    · intro i hi
      exact (h.slot i).dummy_of_compact hi
    · intro hallow i hi
      exact (h.slot i).kind.resolve_right fun hdummy => hi ((h.dummies hallow i).mp hdummy)
  · intro n n' c c' output output' hdefine hdefine' hsecret hfirst houtput houtput'
    obtain ⟨derived, hconstrain⟩ := MergeCircuit.constrain_of_define hdefine
    obtain ⟨derived', hconstrain'⟩ := MergeCircuit.constrain_of_define hdefine'
    obtain ⟨⟨ownerHash, asset, blinding, outputHash, tree, utxoHash, nullifier, h⟩, -⟩ :=
      Transaction.constrain_eq_some.mp hconstrain
    obtain ⟨⟨ownerHash', asset', blinding', outputHash', tree', utxoHash', nullifier', h'⟩, -⟩ :=
      Transaction.constrain_eq_some.mp hconstrain'
    rw [← h.output.published id] at houtput
    rw [← h'.output.published id] at houtput'
    obtain ⟨rfl, -⟩ := utxoHashCircuit_inj hfree houtput h.output.digest
    obtain ⟨rfl, -⟩ := utxoHashCircuit_inj hfree houtput' h'.output.digest
    have hblinding := h.outputBlinding_eq
    rw [hsecret, hfirst, h'.outputBlinding_eq] at hblinding
    exact (Option.some.inj hblinding).symm

/-! ### A merge of two utxos -/

/-- The digests of a merge of eight slots. Its two utxos are the first leaves of their tree. -/
def mergeDigests : NatLog where
  entries := [([12], 100), ([11, 100], 101), ([13, 14], 102), ([101, 24], 103), ([3, 7, 102, 9, 0, 111, 103], 104),
    ([104, 24, 12], 105), ([101, 21], 110), ([0, 0], 111),
    ([3, 7, 102, 5, 0, 111, 110], 112), ([1, 7, 0, 0, 0, 111, 111], 113), ([0, fieldModulus - 1], 114),
    ([112, 21, 12], 115), ([113, 0, 0], 116), ([0x544d444e, 12, 0, 0], 117), ([0x544d444e, 12, 115, 1], 118),
    ([0x544d444e, 12, 115, 2], 119), ([0x544d444e, 12, 115, 3], 120), ([0x544d444e, 12, 115, 4], 121),
    ([0x544d444e, 12, 115, 5], 122), ([0x544d444e, 12, 115, 6], 123), ([0x544d444e, 12, 115, 7], 124),
    ([0x544d4f42, 12, 115], 125), ([101, 125], 126), ([3, 8, 102, 14, 0, 111, 126], 127),
    ([0x54585042, 115, 12], 128), ([112, 104], 129), ([129, 127, 0, 128], 130), ([7, 1032, 3040], 131),
    ([0, 0, 0], 132), ([132, 132], 133), ([132, 133], 134), ([132, 134], 135), ([131, 135], 136),
    ([0, 0, 0, 0], 137), ([105, 0, 0, 137], 138), ([115, 0, 0, 138], 139), ([0x544d4f4b, 12, 115], 140),
    ([0x544d4f43, 140, 22, 0], 141), ([0x544d4f43, 140, 22, 1], 142), ([0x544d4f43, 140, 22, 2], 143),
    ([139, 127, 136, 8], 144), ([144, 130, 23, 1], 145), ([145, 11, 100, 22], 146), ([146, 155, 155, 157], 147),
    ([129, 0], 1002)] ++
  (List.range 30).map (fun k => ([1002 + k, 0], 1003 + k)) ++ [([113, 0], 2001)] ++
  (List.range 31).map (fun k => ([2001 + k, 0], 2002 + k)) ++ [([114, 0], 3001)] ++
  (List.range 39).map (fun k => ([3001 + k, 0], 3002 + k))
  bounds := by decide +kernel
  ascending := by decide +kernel

def eightInputs : InputCount := ⟨8, List.mem_cons_self ..⟩

def mergeOfTwo : Circuit eightInputs where
  inputs := fun i =>
    { domain := if i.val < 2 then utxoDomain else dummyDomain
      amount := slotValues [5, 9] i
      blinding := slotValues [21, 24] i
      ringDataHash := 0
      statePathElements := fun level => if level.val = 0 then slotValues [104, 112] i else 0
      statePathIndex := slotValues [0, 1] i
      treeSlot := 0
      nullifierLowValue := 0
      nullifierNextValue := -1
      nullifierLowPathElements := fun _ => 0
      nullifierLowPathIndex := 0 }
  output := ⟨0⟩
  mintChunks := ![((13 : Nat) : Fr), ((14 : Nat) : Fr)]
  ownerPkHash := (11 : Nat)
  userNullifierPk := (100 : Nat)
  userNullifierSecret := (12 : Nat)
  common :=
    { nullifiers := slotValues [115, 105]
      outputHash := (127 : Nat)
      privateTxHash := (130 : Nat)
      externalDataHash := (23 : Nat)
      allowDummyInputs := 1
      treeSlots := fun k => if k.val = 0 then ⟨(7 : Nat), (1032 : Nat), (3040 : Nat)⟩ else ⟨0, 0, 0⟩
      outputTreeId := (8 : Nat) }
  userSigningPkHash := (11 : Nat)
  outputCiphertextSalt := (22 : Nat)
  publicInputHash := (147 : Nat)

/-- The commitments of the slots, and the nullifiers they derive. -/
def mergeHashes : Fin eightInputs.count → Fr := slotValues [112, 104, 113, 113, 113, 113, 113, 113]

def mergeNullifiers : Fin eightInputs.count → Fr := slotValues [115, 105, 119, 120, 121, 122, 123, 124]

theorem opens_mergeOfTwo : Opens (.ofNatLog mergeDigests) 114 0 (fun _ : Fin nullifierTreeHeight => 0) 3040 := by
  constructor <;> decide +kernel

theorem slot_mergeOfTwo (i : Fin eightInputs.count) : Merge.SatisfiedInput (.ofNatLog mergeDigests)
    (mergeOfTwo.inputs i) (mergeOfTwo.transaction.slotContext 101 102 i) ⟨7, 1032, 3040⟩ i
    (mergeOfTwo.common.nullifiers i = 0) (mergeHashes i) (mergeNullifiers i) where
  kind := by decide +kernel +revert
  dummy_of_compact := by decide +kernel +revert
  amount_lt := by decide +kernel +revert
  dummy := by decide +kernel +revert
  digest := by decide +kernel +revert
  included := by
    refine ⟨if i.val < 2 then 1032 else 2032, ⟨?_, ?_⟩, ?_⟩ <;> decide +kernel +revert
  nullifiers := ⟨slotValues [115, 105, 116, 116, 116, 116, 116, 116] i, (117 + i.val : Nat), by decide +kernel +revert,
    by decide +kernel +revert, by decide +kernel +revert⟩
  absent := ⟨⟨114, by decide +kernel +revert, opens_mergeOfTwo⟩, by decide +kernel +revert, by decide +kernel +revert⟩

theorem satisfied_mergeOfTwo : mergeOfTwo.transaction.Satisfied (.ofNatLog mergeDigests) 101 102 125 127
    (fun _ => ⟨0, Nat.succ_pos _⟩) mergeHashes mergeNullifiers where
  owner_eq := by decide +kernel
  asset_eq := by decide +kernel
  nullifierPk_eq := by decide +kernel
  allowDummyInputs := .inr rfl
  dummies := fun h => absurd h (by decide +kernel)
  first := rfl
  tree_eq := by decide +kernel
  slot := slot_mergeOfTwo
  published := by decide +kernel
  distinct := by decide +kernel
  outputBlinding_eq := by decide +kernel
  amount_lt := by decide +kernel
  output :=
    { kind := .inl rfl
      asset_ne := fun _ => by decide +kernel
      dummy := fun h => absurd h (by decide +kernel)
      signed_of_data := fun _ h => absurd rfl h
      dummy_of_compact := False.elim
      digest := by decide +kernel
      published := fun _ => rfl }
  privateTxHash_eq := ⟨128, by decide +kernel, by decide +kernel⟩

theorem define_mergeOfTwo : mergeOfTwo.define (.ofNatLog mergeDigests) = some () := by
  refine Circuit.define_eq_some.mpr ⟨by decide +kernel,
    ⟨101, 102, 125, 127, _, _, _, satisfied_mergeOfTwo⟩, rfl,
    [139, 127, 136, 8, 130, 23, 1], ![155, 155, 157], by decide +kernel, by decide +kernel, by decide +kernel⟩

theorem merge_circuit_soundness_two : ∃ output : UtxoCircuitFields,
    utxoHashCircuit (.ofNatLog mergeDigests) output 8 = some 127 ∧ output.amount.val = 5 + 9 ∧
    ∀ output' : UtxoCircuitFields, utxoHashCircuit (.ofNatLog mergeDigests) output' 8 = some 127 →
      output'.blinding = output.blinding := by
  have hsound := @merge_circuit_soundness (.ofNatLog mergeDigests)
    (Poseidon.collisionFree_ofNatLog _) (Poseidon.neverZero_ofNatLog _)
  obtain ⟨_, _, output, _, _, _, _, ⟨-, -, -, -, -, houtput, hamount, -⟩, -⟩ :=
    hsound.1 eightInputs (.default mergeOfTwo) define_mergeOfTwo
  refine ⟨output, houtput, hamount.trans (by decide +kernel), fun output' houtput' => ?_⟩
  exact hsound.2 eightInputs eightInputs (.default mergeOfTwo) (.default mergeOfTwo) output' output
    define_mergeOfTwo define_mergeOfTwo rfl rfl houtput' houtput

end Zolana
