import Zolana.Proof.CircuitSlots

/-!
# Balance over the integers

The circuit adds residues. Amounts are small and slots are few, so for each asset the residues balance exactly
when the integers do.
-/

namespace Zolana.Circuits

open Gates

def amountOf (asset : Fr) (utxos : List UtxoCircuitFields) : Nat :=
  (utxos.map fun u => if asset = u.asset then u.amount.val else 0).sum

def publicAmountOf (asset : Fr) (slots : List (Fr × Fr)) : ℤ :=
  (slots.map fun slot => if asset = slot.1 then slot.2.valMinAbs else 0).sum

structure Balanced (inputs outputs : List UtxoCircuitFields) (slots : List (Fr × Fr)) : Prop where
  inputs_lt : ∀ u ∈ inputs, u.amount.val < 2 ^ 64
  outputs_lt : ∀ u ∈ outputs, u.amount.val < 2 ^ 64
  public_le : ∀ slot ∈ slots, |slot.2.valMinAbs| ≤ 2 ^ 64 - 1
  inactive : ∀ slot ∈ slots, slot.2 = 0 → slot.1 = 0
  distinct : slots.Pairwise fun slot slot' => slot.2 ≠ 0 → slot'.2 ≠ 0 → slot.1 ≠ slot'.1
  conserved : ∀ asset, (amountOf asset inputs : ℤ) + publicAmountOf asset slots = amountOf asset outputs

/-! ### Range checks -/

theorem rangeCheckSigned64_eq_some {value : Fr} :
    rangeCheckSigned64 value = some () ↔ |value.valMinAbs| ≤ 2 ^ 64 - 1 := by
  have hmodulus : ((2 ^ 66 : Nat) : ℤ) < fieldModulus := Int.ofNat_lt.mpr (two_pow_lt_fieldModulus (by decide))
  have hiff : rangeCheckSigned64 value = some () ↔
      (value + ((2 ^ 64 : Nat) : Fr)).val < 2 ^ 65 ∧ value + ((2 ^ 64 : Nat) : Fr) ≠ 0 := by
    rw [rangeCheckSigned64]
    constructor
    · intro h
      obtain ⟨bits, hbits, h⟩ := of_bind_some h
      exact ⟨(toBinary_eq_some.mp hbits).1, assertIsDifferent_eq_some.mp h⟩
    · rintro ⟨hlt, hne⟩
      exact (bind_of_eq_some (toBinary_eq_some.mpr ⟨hlt, rfl⟩)).trans (assertIsDifferent_eq_some.mpr hne)
  rw [hiff]
  constructor
  · rintro ⟨hlt, hne⟩
    -- the value is its shifted residue less the shift
    generalize hshifted : value + ((2 ^ 64 : Nat) : Fr) = shifted at hlt hne
    have hpos : 0 < shifted.val := Nat.pos_of_ne_zero ((ZMod.val_ne_zero shifted).mpr hne)
    have hvalue : value = ((shifted.val - 2 ^ 64 : ℤ) : Fr) := by
      rw [Int.cast_sub, Int.cast_natCast, ZMod.natCast_zmod_val, ← hshifted]
      push_cast
      ring
    have hsmall : |(shifted.val - 2 ^ 64 : ℤ)| ≤ 2 ^ 64 - 1 := abs_le.mpr ⟨by omega, by omega⟩
    rw [hvalue, valMinAbs_intCast (by push_cast at hmodulus; linarith)]
    exact hsmall
  · intro hsmall
    obtain ⟨hlow, hhigh⟩ := abs_le.mp hsmall
    obtain ⟨shifted, hnat⟩ := Int.eq_ofNat_of_zero_le (show 0 ≤ value.valMinAbs + 2 ^ 64 by linarith)
    have hshifted : value + ((2 ^ 64 : Nat) : Fr) = (shifted : Fr) := by
      rw [← Int.cast_natCast shifted, ← hnat, Int.cast_add, ZMod.coe_valMinAbs]
      push_cast
      rfl
    have hlt : shifted < 2 ^ 65 := by omega
    have hval := val_natCast_of_lt (hlt.trans (two_pow_lt_fieldModulus (by decide)))
    rw [hshifted, hval]
    refine ⟨hlt, fun hzero => ?_⟩
    rw [hzero, ZMod.val_zero] at hval
    omega

variable {slots : List (Fr × Fr)}

theorem assertDistinctAssets_eq_some : assertDistinctAssets slots = some () ↔
    slots.Pairwise fun slot slot' => slot.2 ≠ 0 → slot'.2 ≠ 0 → slot.1 ≠ slot'.1 := by
  induction slots with
  | nil => exact iff_of_true rfl .nil
  | cons slot slots ih =>
      rw [assertDistinctAssets, bind_unit_eq_some, ih, List.pairwise_cons, forM_eq_some]
      refine and_congr_left fun _ => forall₂_congr fun slot' _ => ?_
      simp only [isZero, one_sub_bit, bit_mul_bit, assertIsEqual_eq_some, bit_eq_zero, sub_eq_zero, not_and, ne_eq]
      exact and_imp

/-! ### Sums -/

section Sums

variable (asset : Fr)

theorem amountOf_cons (u : UtxoCircuitFields) (utxos : List UtxoCircuitFields) :
    amountOf asset (u :: utxos) = (if asset = u.asset then u.amount.val else 0) + amountOf asset utxos := rfl

theorem publicAmountOf_cons (slot : Fr × Fr) (slots : List (Fr × Fr)) : publicAmountOf asset (slot :: slots) =
      (if asset = slot.1 then slot.2.valMinAbs else 0) + publicAmountOf asset slots := rfl

theorem assetSum_eq (utxos : List UtxoCircuitFields) :
    assetSum asset utxos = ((amountOf asset utxos : ℤ) : Fr) := by
  induction utxos with
  | nil => exact (Nat.cast_zero (R := Fr)).symm
  | cons u utxos ih =>
      have hcons : assetSum asset (u :: utxos) = isZero (asset - u.asset) * u.amount + assetSum asset utxos := rfl
      rw [hcons, ih, isZero_sub, bit_mul_eq_ite, amountOf_cons]
      push_cast
      rw [ZMod.natCast_zmod_val]

theorem publicSum_eq (slots : List (Fr × Fr)) : publicSum asset slots = ((publicAmountOf asset slots : ℤ) : Fr) := by
  induction slots with
  | nil => exact (Int.cast_zero (R := Fr)).symm
  | cons slot slots ih =>
      have hcons : publicSum asset (slot :: slots) = isZero (asset - slot.1) * slot.2 + publicSum asset slots := rfl
      rw [hcons, ih, isZero_sub, bit_mul_eq_ite, publicAmountOf_cons]
      push_cast
      rfl

variable {asset}

theorem amountOf_le {utxos : List UtxoCircuitFields} (h : ∀ u ∈ utxos, u.amount.val < 2 ^ 64) :
    amountOf asset utxos ≤ utxos.length * 2 ^ 64 := by
  induction utxos with
  | nil => exact Nat.zero_le _
  | cons u utxos ih =>
      obtain ⟨hu, hutxos⟩ := List.forall_mem_cons.mp h
      have hle := ih hutxos
      rw [amountOf_cons, List.length_cons]
      split <;> omega

variable {slots : List (Fr × Fr)}

theorem abs_publicAmountOf_le (h : ∀ slot ∈ slots, |slot.2.valMinAbs| ≤ 2 ^ 64 - 1) :
    |publicAmountOf asset slots| ≤ slots.length * 2 ^ 64 := by
  induction slots with
  | nil => exact le_refl _
  | cons slot slots ih =>
      obtain ⟨hslot, hslots⟩ := List.forall_mem_cons.mp h
      have hterm : |if asset = slot.1 then slot.2.valMinAbs else 0| ≤ 2 ^ 64 := by
        split
        case isTrue => linarith
        case isFalse => norm_num
      rw [publicAmountOf_cons, List.length_cons]
      calc |(if asset = slot.1 then slot.2.valMinAbs else 0) + publicAmountOf asset slots|
          ≤ |if asset = slot.1 then slot.2.valMinAbs else 0| + |publicAmountOf asset slots| := abs_add_le _ _
        _ ≤ 2 ^ 64 + slots.length * 2 ^ 64 := add_le_add hterm (ih hslots)
        _ = ((slots.length + 1 : Nat) : ℤ) * 2 ^ 64 := by push_cast; ring

theorem amountOf_eq_zero_of {utxos : List UtxoCircuitFields} (h : ∀ u ∈ utxos, u.asset = asset → u.amount = 0) :
    amountOf asset utxos = 0 := by
  induction utxos with
  | nil => rfl
  | cons u utxos ih =>
      obtain ⟨hu, hutxos⟩ := List.forall_mem_cons.mp h
      rw [amountOf_cons, ih hutxos, add_zero]
      split
      case isTrue hasset => rw [hu hasset.symm, ZMod.val_zero]
      case isFalse => rfl

theorem publicAmountOf_eq_zero_of (h : ∀ slot ∈ slots, slot.1 = asset → slot.2 = 0) :
    publicAmountOf asset slots = 0 := by
  induction slots with
  | nil => rfl
  | cons slot slots ih =>
      obtain ⟨hslot, hslots⟩ := List.forall_mem_cons.mp h
      rw [publicAmountOf_cons, ih hslots, add_zero]
      split
      case isTrue hasset => rw [hslot hasset.symm, ZMod.valMinAbs_zero]
      case isFalse => rfl

theorem publicAmountOf_of_mem
    (hdistinct : slots.Pairwise fun slot slot' => slot.2 ≠ 0 → slot'.2 ≠ 0 → slot.1 ≠ slot'.1)
    {slot : Fr × Fr} (hmem : slot ∈ slots) (hne : slot.2 ≠ 0) :
    publicAmountOf slot.1 slots = slot.2.valMinAbs := by
  induction slots with
  | nil => cases hmem
  | cons first slots ih =>
      obtain ⟨hfirst, hslots⟩ := List.pairwise_cons.mp hdistinct
      rw [publicAmountOf_cons]
      rcases List.mem_cons.mp hmem with rfl | hlater
      · rw [if_pos rfl, publicAmountOf_eq_zero_of, add_zero]
        intro later hlater hasset
        by_contra hactive
        exact hfirst later hlater hne hactive hasset.symm
      · rw [ih hslots hlater]
        have hnone : (if slot.1 = first.1 then first.2.valMinAbs else 0) = 0 := by
          split
          case isFalse => rfl
          case isTrue hasset =>
            by_contra hactive
            exact hfirst slot hlater (fun hzero => hactive (by rw [hzero, ZMod.valMinAbs_zero])) hne hasset.symm
        rw [hnone, zero_add]

end Sums

theorem sums_eq_iff {inputs outputs : List UtxoCircuitFields} {asset : Fr}
    (hinputs : ∀ u ∈ inputs, u.amount.val < 2 ^ 64) (houtputs : ∀ u ∈ outputs, u.amount.val < 2 ^ 64)
    (hslots : ∀ slot ∈ slots, |slot.2.valMinAbs| ≤ 2 ^ 64 - 1)
    (htotal : (inputs.length + outputs.length + slots.length) * 2 ^ 64 < fieldModulus) :
    assetSum asset inputs + publicSum asset slots = assetSum asset outputs ↔
      (amountOf asset inputs : ℤ) + publicAmountOf asset slots = amountOf asset outputs := by
  have hin := @amountOf_le asset _ hinputs
  have hout := @amountOf_le asset _ houtputs
  have hpublic := abs_le.mp (@abs_publicAmountOf_le asset _ hslots)
  rw [assetSum_eq, publicSum_eq, assetSum_eq, ← Int.cast_add]
  refine intCast_eq_iff (abs_lt.mpr ?_)
  zify at hin hout htotal
  constructor <;> linarith [hpublic.1, hpublic.2]

theorem assertBalanceConservation_eq_some {inputs outputs : List UtxoCircuitFields}
    (htotal : (inputs.length + outputs.length + slots.length) * 2 ^ 64 < fieldModulus) :
    assertBalanceConservation inputs outputs (slots.map Prod.fst) (slots.map Prod.snd) = some () ↔
      Balanced inputs outputs slots := by
  have hzip : (slots.map Prod.fst).zip (slots.map Prod.snd) = slots := (List.zip_of_prod rfl rfl).symm
  rw [assertBalanceConservation]
  simp only [bind_unit_eq_some, assertIsEqual_eq_some, List.length_map, true_and, hzip, forM_eq_some,
    rangeCheckSigned64_eq_some, isZero, assertZeroWhen_eq_some, assertDistinctAssets_eq_some, rangeCheck64_eq_some,
    List.mem_append]
  constructor
  · rintro ⟨hslots, hdistinct, hinputs, houtputs, hassets⟩
    have hsmall : ∀ slot ∈ slots, |slot.2.valMinAbs| ≤ 2 ^ 64 - 1 := fun slot hmem => (hslots slot hmem).1
    refine ⟨hinputs, houtputs, hsmall, fun slot hmem => (hslots slot hmem).2, hdistinct, fun asset => ?_⟩
    by_cases hlisted : (asset ∈ inputs.map (·.asset) ∨ asset ∈ outputs.map (·.asset)) ∨ asset ∈ slots.map Prod.fst
    · exact (sums_eq_iff hinputs houtputs hsmall htotal).mp (hassets asset hlisted)
    · rw [not_or, not_or] at hlisted
      rw [amountOf_eq_zero_of, amountOf_eq_zero_of, publicAmountOf_eq_zero_of, add_zero]
      · exact fun slot hmem hasset => absurd (List.mem_map.mpr ⟨slot, hmem, hasset⟩) hlisted.2
      · exact fun u hmem hasset => absurd (List.mem_map.mpr ⟨u, hmem, hasset⟩) hlisted.1.2
      · exact fun u hmem hasset => absurd (List.mem_map.mpr ⟨u, hmem, hasset⟩) hlisted.1.1
  · intro h
    exact ⟨fun slot hmem => ⟨h.public_le slot hmem, h.inactive slot hmem⟩, h.distinct, h.inputs_lt, h.outputs_lt,
      fun asset _ => (sums_eq_iff h.inputs_lt h.outputs_lt h.public_le htotal).mpr (h.conserved asset)⟩

end Zolana.Circuits
