import Zolana.Proof.Balance
import Zolana.Properties.SpendCircuit

/-!
# Value conservation

The balance of a transaction over the integers, and that nothing of value is in padding or in no asset.
-/

namespace Zolana

open Circuits

theorem Circuits.Shape.total_lt (shape : Shape) :
    (shape.nInputs + shape.nOutputs + nPublicSlots) * 2 ^ 64 < fieldModulus := by
  have hinputs := shape.nInputs_lt
  have houtputs := shape.nOutputs_lt
  calc (shape.nInputs + shape.nOutputs + nPublicSlots) * 2 ^ 64
      ≤ 2 ^ 65 * 2 ^ 64 := Nat.mul_le_mul_right _ (by rw [nPublicSlots]; omega)
    _ < fieldModulus := by rw [← pow_add]; exact two_pow_lt_fieldModulus (by decide)

def Circuits.RailWitness.slots {shape : Shape} (w : RailWitness shape) : List (Fr × Fr) :=
  List.ofFn fun k => (w.publicAssets k, w.publicAmounts k)

theorem Circuits.SpendCircuit.balanced_of_define {env : CircuitEnv} {shape : Shape} {c : SpendCircuit shape}
    (hdefine : c.define env = some ()) :
    Balanced (List.ofFn fun i => (c.witness.inputs i).utxo) (List.ofFn c.witness.outputs) c.witness.slots := by
  obtain ⟨_, _, _, _, _, _, _, _, _, _, h⟩ := SpendCircuit.satisfied_of_define hdefine
  have hbalance := h.balance
  have hassets : List.ofFn c.witness.publicAssets = c.witness.slots.map Prod.fst := List.map_ofFn.symm
  have hamounts : List.ofFn c.witness.publicAmounts = c.witness.slots.map Prod.snd := List.map_ofFn.symm
  refine (assertBalanceConservation_eq_some ?_).mp (hassets ▸ hamounts ▸ hbalance)
  rw [List.length_ofFn, List.length_ofFn, RailWitness.slots, List.length_ofFn]
  exact shape.total_lt

/-- Residues balance exactly when integers do. In a transaction padding, addresses and the asset zero carry no
value, public or private. -/
theorem value_conservation :
    (∀ (inputs outputs : List UtxoCircuitFields) (publicAssets publicAmounts : List Fr),
      publicAssets.length = publicAmounts.length →
      (inputs.length + outputs.length + publicAssets.length) * 2 ^ 64 < fieldModulus →
      (assertBalanceConservation inputs outputs publicAssets publicAmounts = some () ↔
        (∀ u ∈ inputs ++ outputs, u.amount.val < 2 ^ 64) ∧
        (∀ amount ∈ publicAmounts, |amount.valMinAbs| ≤ 2 ^ 64 - 1) ∧
        (∀ slot ∈ publicAssets.zip publicAmounts, slot.2 = 0 → slot.1 = 0) ∧
        (publicAssets.zip publicAmounts).Pairwise
          (fun slot slot' => slot.2 ≠ 0 → slot'.2 ≠ 0 → slot.1 ≠ slot'.1) ∧
        ∀ asset, (amountOf asset inputs : ℤ) + publicAmountOf asset (publicAssets.zip publicAmounts) =
          amountOf asset outputs)) ∧
    ∀ (env : CircuitEnv) (shape : Shape) (c : SpendCircuit shape), c.define env = some () →
      (∀ i, (c.witness.inputs i).utxo.domain ≠ utxoDomain → (c.witness.inputs i).utxo.amount = 0) ∧
      (∀ i, (c.witness.outputs i).domain ≠ utxoDomain → (c.witness.outputs i).amount = 0) ∧
      (∀ i, (c.witness.inputs i).utxo.asset = 0 → (c.witness.inputs i).utxo.amount = 0) ∧
      (∀ i, (c.witness.outputs i).asset = 0 → (c.witness.outputs i).amount = 0) ∧
      ∀ k, c.witness.publicAssets k = 0 → c.witness.publicAmounts k = 0 := by
  constructor
  · intro inputs outputs publicAssets publicAmounts hlength htotal
    generalize hslots : publicAssets.zip publicAmounts = slots
    obtain rfl : publicAssets = slots.map Prod.fst := by
      rw [← hslots, List.map_fst_zip hlength.le]
    obtain rfl : publicAmounts = slots.map Prod.snd := by
      rw [← hslots, List.map_snd_zip hlength.ge]
    rw [List.length_map] at htotal
    rw [assertBalanceConservation_eq_some htotal, List.forall_mem_append, List.forall_mem_map]
    exact ⟨fun h => ⟨⟨h.inputs_lt, h.outputs_lt⟩, h.public_le, h.inactive, h.distinct, h.conserved⟩,
      fun ⟨⟨hinputs, houtputs⟩, hpublic, hinactive, hdistinct, hconserved⟩ =>
        ⟨hinputs, houtputs, hpublic, hinactive, hdistinct, hconserved⟩⟩
  · intro env shape c hdefine
    obtain ⟨_, _, _, _, _, _, _, _, _, _, h⟩ := SpendCircuit.satisfied_of_define hdefine
    obtain ⟨_, -, houtput⟩ := h.outputSlot
    have hinputs : ∀ i, (c.witness.inputs i).utxo.domain ≠ utxoDomain → (c.witness.inputs i).utxo.amount = 0 := by
      intro i hne
      rcases (h.slot i).kind with hutxo | haddress | hdummy
      · exact absurd hutxo hne
      · exact ((h.slot i).address haddress).2.1
      · exact ((h.slot i).dummy hdummy).2.2.1
    have houtputs : ∀ i, (c.witness.outputs i).domain ≠ utxoDomain → (c.witness.outputs i).amount = 0 :=
      fun i hne => ((houtput i).2.dummy ((houtput i).2.kind.resolve_left hne)).2.2.1
    have hinputsZero : ∀ i, (c.witness.inputs i).utxo.asset = 0 → (c.witness.inputs i).utxo.amount = 0 :=
      fun i hzero => hinputs i fun hutxo => (h.slot i).asset_ne hutxo hzero
    have houtputsZero : ∀ i, (c.witness.outputs i).asset = 0 → (c.witness.outputs i).amount = 0 :=
      fun i hzero => houtputs i fun hutxo => (houtput i).2.asset_ne hutxo hzero
    refine ⟨hinputs, houtputs, hinputsZero, houtputsZero, fun k hzero => ?_⟩
    have hbalanced := SpendCircuit.balanced_of_define hdefine
    by_contra hactive
    have hmem : (c.witness.publicAssets k, c.witness.publicAmounts k) ∈ c.witness.slots := List.mem_ofFn.mpr ⟨k, rfl⟩
    have hpublic := publicAmountOf_of_mem hbalanced.distinct hmem hactive
    have hconserved := hbalanced.conserved 0
    rw [amountOf_eq_zero_of (List.forall_mem_ofFn_iff.mpr hinputsZero),
      amountOf_eq_zero_of (List.forall_mem_ofFn_iff.mpr houtputsZero)] at hconserved
    rw [hzero] at hpublic
    rw [hpublic] at hconserved
    exact hactive (ZMod.valMinAbs_eq_zero _ |>.mp (by simpa using hconserved))

/-- A withdrawal of two out of five. -/
theorem value_conservation_withdrawal :
    (amountOf 31 [⟨utxoDomain, 0, 31, 5, 0, 0, 0, 0⟩] : ℤ) + publicAmountOf 31 [(31, -2)] =
      amountOf 31 [⟨utxoDomain, 0, 31, 3, 0, 0, 0, 0⟩] ∧
    ∀ k, (hiddenSpend false).publicAmounts k = 0 := by
  have hiff := value_conservation.1 [⟨utxoDomain, 0, 31, 5, 0, 0, 0, 0⟩] [⟨utxoDomain, 0, 31, 3, 0, 0, 0, 0⟩] [31] [-2]
    rfl (by norm_num [fieldModulus])
  have hpublic := value_conservation.2 (hiddenSpendEnv false) threeInTwoOut (.customAnonymous (hiddenSpend false))
    (define_hiddenSpend false)
  exact ⟨(hiff.mp (by decide +kernel)).2.2.2.2 31, fun k => hpublic.2.2.2.2 k rfl⟩

end Zolana
