import Zolana.Properties.PublicInputs

/-!
# Folds with a tabled suffix

The program folds fixed numbers of slots of which few are in use, and starts each fold from a table. The
fold is the one over all slots, wherever zeros stand in what is sent. Two of the folds take no empty
statement: a chain over signers has a slot, and a chain over trees has a tree.
-/

namespace Zolana

/-- Each fold that starts from a table is the plain fold over all its slots. -/
theorem tabled_folds_are_plain_folds {hashv : Hashv} (hsuffix : hashv.DerivesZeroSuffixChains)
    (hsigners : Verify.DerivesSignerZeroSuffixChains hashv) (hslots : hashv.DerivesZeroTreeSlots) :
    (∀ values : List Bytes32, values.length ≤ zeroSuffixChainMaxWidth →
      createZeroSuffixRightHashChain4 hashv values = createRightHashChain4 hashv values) ∧
    (∀ (sent : List Bytes32) (width : Nat), width ≤ zeroSuffixChainMaxWidth → sent.length ≤ width →
      createPaddedRightHashChain4 hashv sent width =
        createRightHashChain4 hashv (sent ++ List.replicate (width - sent.length) 0)) ∧
    (∀ (signers : List Bytes32) (width : Nat), width ≠ 0 →
      width ≤ Verify.signerZeroSuffixChains.length → signers.length ≤ width →
      Verify.fixedSignerHashChain hashv signers width =
        (createRightHashChain hashv (signers ++ List.replicate (width - signers.length) 0)).mapError
          fun _ => .custom .transactProofVerificationFailed) ∧
    (∀ slots : List TreeSlot, slots.length ≠ 0 → slots.length ≤ inputTreeSlots → ∀ digest,
      populatedTreeSlotsHashChain hashv slots = .ok digest ↔ TreeSlot.treeSlotsHashChain hashv
          (slots ++ List.replicate (inputTreeSlots - slots.length) unusedTreeSlot) = .ok digest) ∧
    ∀ inputCount ≤ zeroSuffixChainMaxWidth,
      emptyCachedInputFields inputCount =
        (createRightHashChain4 hashv (List.replicate inputCount 0)).map fun chain => (0, chain) := by
  refine ⟨fun values => createZeroSuffixRightHashChain4_eq hsuffix,
    fun sent width => createPaddedRightHashChain4_eq hsuffix,
    fun signers width => fixedSignerHashChain_eq hsigners, fun slots hpositive hlength digest => ?_,
    fun inputCount => emptyCachedInputFields_eq hsuffix⟩
  rw [populatedTreeSlotsHashChain_eq hslots hpositive hlength]
  apply treeSlotsHashChain_eq_ok_iff
  exact List.append_ne_nil_of_left_ne_nil (List.length_eq_zero_iff.not.mp hpositive) _

/-- The hash of the transfer, which answers everything else with a hash of its own. -/
def transferHashvOr (other : Hashv) : Hashv := fun inputs =>
  match transferEnv.tree.hashv inputs with
  | .ok digest => .ok digest
  | .error _ => other inputs

theorem le_transferHashvOr (other : Hashv) (inputs : List Bytes32) (digest : Bytes32)
    (h : transferEnv.tree.hashv inputs = .ok digest) : transferHashvOr other inputs = .ok digest := by
  rw [transferHashvOr, h]

def digitsHashv : Hashv := transferHashvOr fun inputs => .ok (inputs.foldl (10 * · + ·) 1)

theorem tabled_folds_are_plain_folds_transfer : createPaddedRightHashChain4 digitsHashv [3, 0, 4] 54 =
      createRightHashChain4 digitsHashv ([3, 0, 4] ++ List.replicate 51 0) ∧
    createPaddedRightHashChain4 digitsHashv [3, 0, 4] 54 ≠ createPaddedRightHashChain4 digitsHashv [3, 4] 54 :=
  ⟨(tabled_folds_are_plain_folds (derivesZeroSuffixChains_transferEnv.mono (le_transferHashvOr _))
    (derivesSignerZeroSuffixChains_transferEnv.mono (le_transferHashvOr _))
    (derivesZeroTreeSlots_transferEnv.mono (le_transferHashvOr _))).2.1 [3, 0, 4] 54 (by decide) (by decide),
    by decide +kernel⟩

def answeringHashv : Hashv := transferHashvOr fun _ => .ok 1

/-- No tree and no signer slot are refused, although the plain folds take them. -/
theorem empty_folds_are_refused :
    (answeringHashv.DerivesZeroSuffixChains ∧ Verify.DerivesSignerZeroSuffixChains answeringHashv ∧
      answeringHashv.DerivesZeroTreeSlots) ∧
    populatedTreeSlotsHashChain answeringHashv [] = .error (.invalidInputLength 0 5) ∧
    TreeSlot.treeSlotsHashChain answeringHashv (List.replicate 5 unusedTreeSlot) = .ok 1 ∧
    Verify.fixedSignerHashChain answeringHashv [] 0 = .error (.custom .invalidTransactShape) ∧
    createRightHashChain answeringHashv [] = .ok 0 := by
  refine ⟨⟨derivesZeroSuffixChains_transferEnv.mono (le_transferHashvOr _),
    derivesSignerZeroSuffixChains_transferEnv.mono (le_transferHashvOr _),
    derivesZeroTreeSlots_transferEnv.mono (le_transferHashvOr _)⟩, rfl, ?_, rfl, rfl⟩
  decide +kernel

end Zolana
