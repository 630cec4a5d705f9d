import Zolana.Interface.Decoders
import Zolana.Pool.Verify

/-!
# The public inputs of a merge

`instructions/merge/verify.rs`. The two merges share seven public inputs and differ in what binds the owner.
-/

namespace Zolana

/-- `append_public_inputs`: the salt right-aligned, and the ciphertext. -/
def MergeOutputEncryption.publicInputs (encryption : MergeOutputEncryption) : List Bytes32 :=
  [encryption.salt.setWidth 256, encryption.amount, encryption.mintLow, encryption.mintHigh]

namespace Verify

/-- The end of the public inputs, which also selects the verifying key. -/
inductive MergeOwnerBinding where
  | default (signingPkField nullifierPk : Bytes32) (outputEncryption : MergeOutputEncryption)
  | ring (ringProgramId outputRingDataHash : Bytes32)
  deriving DecidableEq, Repr

def MergeOwnerBinding.fields : MergeOwnerBinding → List Bytes32
  | default signingPkField nullifierPk outputEncryption =>
    [signingPkField, nullifierPk] ++ outputEncryption.publicInputs
  | ring ringProgramId outputRingDataHash => [outputRingDataHash, ringProgramId]

structure MergeProofInputs where
  treeSlot : TreeSlot
  outputTreeId : Bytes32
  externalDataHash : Bytes32
  allowDummyInputs : Bytes32
  ownerBinding : MergeOwnerBinding
  deriving DecidableEq, Repr

/-- `circuit_width`. -/
def mergeWidth (ix : MergeTransactIxData) : Except ProgramError Nat :=
  match mergeCircuitWidth ix.nullifiers.length with
  | some width => .ok width
  | none => .error (.custom .invalidMergeShape)

/-- `MergeProof::public_input_hash`: the hash of what the merges share, and then the owner binding. -/
def mergePublicInputHash (hashv : Hashv) (ix : MergeTransactIxData) (derived : MergeProofInputs) :
    Except ProgramError Bytes32 := do
  let width ← mergeWidth ix
  let nullifierChain ← hashed (createPaddedRightHashChain4 hashv ix.nullifiers width)
  let treeSlots ← hashed (populatedTreeSlotsHashChain hashv [derived.treeSlot])
  let commonHash ← hashed (createHashChain4 hashv
    [nullifierChain, ix.outputUtxoHash, treeSlots, derived.outputTreeId, ix.privateTxHash,
      derived.externalDataHash, derived.allowDummyInputs])
  hashed (createHashChain4 hashv (commonHash :: derived.ownerBinding.fields))

end Verify

end Zolana
