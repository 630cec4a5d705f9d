import Zolana.Circuits.Transaction

/-!
# The merge circuits

`spp_merge`: many utxos of one owner and one asset become one. The circuit supplies the owner, the asset
and the ring of every input, and derives what a padding slot publishes. The lengths that `ValidateLayout`
checks are those of the types, and the number of inputs is one of the supported ones.
-/

namespace Zolana.Circuits.Merge

open Gates

/-! ### `shared/derivation.go` -/

section Derivation

variable (poseidon : Poseidon)

def mergeOutputBlindingDomainV1 : Fr := 0x544d4f42

def mergeDummyNullifierDomain : Fr := 0x544d444e

def mergeOutputKeyDomain : Fr := 0x544d4f4b

def mergeOutputCiphertextDomain : Fr := 0x544d4f43

def mergeOutputBlinding (nullifierSecret firstNullifier : Fr) : Option Fr :=
  poseidon [mergeOutputBlindingDomainV1, nullifierSecret, firstNullifier]

def mergeOutputKey (nullifierSecret firstNullifier : Fr) : Option Fr :=
  poseidon [mergeOutputKeyDomain, nullifierSecret, firstNullifier]

/-- `PoseidonCtr.Encrypt` of `gadget/poseidon_ctr.go`. -/
def poseidonCtrEncrypt (domain key nonce : Fr) {n : Nat} (plaintext : Fin n → Fr) : Option (Fin n → Fr) :=
  each fun i => do
    let pad ← poseidon [domain, key, nonce, (i.val : Fr)]
    pure (plaintext i + pad)

/-- The amount and the two chunks of the mint, encrypted. -/
def mergeOutputCiphertext (nullifierSecret firstNullifier salt amount : Fr) (mint : Fin 2 → Fr) :
    Option (Fin 3 → Fr) := do
  let key ← mergeOutputKey poseidon nullifierSecret firstNullifier
  poseidonCtrEncrypt poseidon mergeOutputCiphertextDomain key salt ![amount, mint 0, mint 1]

def mergeDummyNullifier (nullifierSecret firstNullifier : Fr) (slotIndex : Nat) : Option Fr :=
  poseidon [mergeDummyNullifierDomain, nullifierSecret, firstNullifier, (slotIndex : Fr)]

end Derivation

/-! ### `shared/transaction.go`: the witness -/

def supportedInputCounts : List Nat := [8, 24, 52]

/-- `NumInputs`, one of the supported counts. -/
structure InputCount where
  count : Nat
  supported : count ∈ supportedInputCounts

theorem InputCount.pos (n : InputCount) : 0 < n.count := by
  have hsupported := n.supported
  simp only [supportedInputCounts, List.mem_cons, List.not_mem_nil, or_false] at hsupported
  omega

structure Input where
  domain : Fr
  amount : Fr
  blinding : Fr
  ringDataHash : Fr
  statePathElements : Fin stateTreeHeight → Fr
  statePathIndex : Fr
  treeSlot : Fr
  nullifierLowValue : Fr
  nullifierNextValue : Fr
  nullifierLowPathElements : Fin nullifierTreeHeight → Fr
  nullifierLowPathIndex : Fr

structure Output where
  ringDataHash : Fr

structure CommonPublicInputs (n : Nat) where
  nullifiers : Fin n → Fr
  outputHash : Fr
  privateTxHash : Fr
  externalDataHash : Fr
  allowDummyInputs : Fr
  treeSlots : Fin inputTrees → TreeSlot
  outputTreeId : Fr

/-- `CommonPublicInputs.Prefix`. -/
def CommonPublicInputs.preimage (poseidon : Poseidon) {n : Nat} (p : CommonPublicInputs n) :
    Option (List Fr) := do
  let nullifierChain ← rightHashChain4 poseidon (List.ofFn p.nullifiers)
  let treeSlotsChain ← treeSlotsHashChain poseidon p.treeSlots
  pure [nullifierChain, p.outputHash, treeSlotsChain, p.outputTreeId, p.privateTxHash,
    p.externalDataHash, p.allowDummyInputs]

/-- The common statement of the two circuits, over the witness of one of them. -/
structure Transaction (n : InputCount) where
  inputs : Fin n.count → Input
  output : Output
  mintChunks : Fin 2 → Fr
  ownerPkHash : Fr
  userNullifierPk : Fr
  userNullifierSecret : Fr
  common : CommonPublicInputs n.count
  ringProgramId : Fr

structure Derived where
  outputAmount : Fr
  firstNullifier : Fr

/-! ### `shared/inputs.go` -/

structure MergeInputContext where
  ownerHash : Fr
  nullifierSecret : Fr
  asset : Fr
  ringProgramId : Fr
  firstNullifier : Fr

/-- The utxo of a slot: what the transaction supplies, and nothing of it for a dummy. -/
def Input.utxo (input : Input) (ctx : MergeInputContext) : UtxoCircuitFields :=
  let isDummy := isZero (input.domain - dummyDomain)
  { domain := input.domain
    owner := select isDummy 0 ctx.ownerHash
    asset := select isDummy 0 ctx.asset
    amount := input.amount
    blinding := input.blinding
    dataHash := 0
    ringDataHash := input.ringDataHash
    ringProgramId := select isDummy 0 ctx.ringProgramId }

/-- The hash of the utxo and the nullifier that a slot publishes. -/
def constrainInput (poseidon : Poseidon) (input : Input) (ctx : MergeInputContext) (tree : TreeSlot)
    (slotIndex : Nat) (isCompact : Fr) : Option (Fr × Fr) := do
  let isDummy := isZero (input.domain - dummyDomain)
  let isUtxo := isZero (input.domain - utxoDomain)
  assertIsEqual (isUtxo + isDummy) 1
  assertWhen isCompact isDummy
  rangeCheck64 input.amount
  let utxo := input.utxo ctx
  let nullifierSecret := select isDummy 0 ctx.nullifierSecret
  assertWhen isDummy utxo.checkDummy
  let utxoHash ← utxoHashCircuit poseidon utxo tree.id
  let statePathIndices ← toBinary stateTreeHeight input.statePathIndex
  let stateRoot ← merkleRoot poseidon utxoHash statePathIndices (List.ofFn input.statePathElements)
  assertEqualWhen isUtxo stateRoot tree.utxoRoot
  let utxoNullifier ← nullifierCircuit poseidon utxoHash input.blinding nullifierSecret
  let dummyNullifier ← mergeDummyNullifier poseidon ctx.nullifierSecret ctx.firstNullifier slotIndex
  let nullifier := select isDummy dummyNullifier utxoNullifier
  let lowLeafHash ← indexedLeafHash poseidon input.nullifierLowValue input.nullifierNextValue
  let nfPathIndices ← toBinary nullifierTreeHeight input.nullifierLowPathIndex
  let nfRoot ← merkleRoot poseidon lowLeafHash nfPathIndices (List.ofFn input.nullifierLowPathElements)
  assertIsEqual nfRoot tree.nullifierRoot
  assertStrictlyOrdered input.nullifierLowValue nullifier input.nullifierNextValue
  pure (select isDummy 0 utxoHash, select isCompact 0 nullifier)

/-! ### `shared/outputs.go` -/

def constrainOutput (poseidon : Poseidon) (out : Output)
    (hash blinding userOwnerHash asset amount ringProgramId treeId : Fr) : Option Fr := do
  rangeCheck64 amount
  Circuits.constrainOutput poseidon
    { domain := utxoDomain
      owner := userOwnerHash
      asset
      amount
      blinding
      dataHash := 0
      ringDataHash := out.ringDataHash
      ringProgramId } hash 0 0 treeId

/-! ### `shared/transaction.go`: the constraints -/

namespace Transaction

variable (poseidon : Poseidon) {n : InputCount} (t : Transaction n)

def isCompact : Fin n.count → Fr := compactSlots t.common.nullifiers

def constrainSlot (ctx : MergeInputContext) (i : Fin n.count) : Option (Fr × Fr) := do
  let tree ← selectTreeSlot (t.inputs i).treeSlot t.common.treeSlots false
  assertIsDifferent tree.utxoRoot 0
  constrainInput poseidon (t.inputs i) ctx tree i (t.isCompact i)

def context (ownerHash asset : Fr) : MergeInputContext where
  ownerHash
  nullifierSecret := t.userNullifierSecret
  asset
  ringProgramId := t.ringProgramId
  firstNullifier := 0

/-- The first slot is constrained before its nullifier is known, the others with it. -/
def constrainSlots (ctx : MergeInputContext) : Option (Fin n.count → Fr × Fr) := do
  let first ← t.constrainSlot poseidon ctx ⟨0, n.pos⟩
  each fun i =>
    if i.val = 0 then pure first
    else t.constrainSlot poseidon { ctx with firstNullifier := first.2 } i

def constrain : Option Derived := do
  let userOwnerHash ← poseidon [t.ownerPkHash, t.userNullifierPk]
  let asset ← hashChain poseidon (List.ofFn t.mintChunks)
  let nullifierPk ← poseidon [t.userNullifierSecret]
  assertIsEqual t.userNullifierPk nullifierPk
  assertIsBoolean t.common.allowDummyInputs
  forEach fun i => do
    let isDummy := isZero ((t.inputs i).domain - dummyDomain)
    assertIsEqual ((1 - t.common.allowDummyInputs) * (isDummy - t.isCompact i)) 0
  assertIsEqual (t.inputs ⟨0, n.pos⟩).domain utxoDomain
  let slots ← t.constrainSlots poseidon (t.context userOwnerHash asset)
  let nullifiers (i : Fin n.count) : Fr := (slots i).2
  let firstNullifier := nullifiers ⟨0, n.pos⟩
  assertDistinctNullifiers nullifiers t.isCompact
  let sumInputs := ∑ i, (t.inputs i).amount
  let outputBlinding ← mergeOutputBlinding poseidon t.userNullifierSecret firstNullifier
  let outputHash ← constrainOutput poseidon t.output t.common.outputHash outputBlinding userOwnerHash
    asset sumInputs t.ringProgramId t.common.outputTreeId
  let blinding ← derivePrivateTxBlinding poseidon firstNullifier t.userNullifierSecret
  -- the address nullifiers are constant zeros
  let privateTxHash ← privateTxHashCircuit poseidon (List.ofFn fun i => (slots i).1) [outputHash] []
    blinding
  assertIsEqual privateTxHash t.common.privateTxHash
  forEach fun i => assertIsEqual (t.common.nullifiers i) (nullifiers i)
  pure ⟨sumInputs, firstNullifier⟩

end Transaction

/-! ### `default.go` -/

structure Circuit (n : InputCount) where
  inputs : Fin n.count → Input
  output : Output
  mintChunks : Fin 2 → Fr
  ownerPkHash : Fr
  userNullifierPk : Fr
  userNullifierSecret : Fr
  common : CommonPublicInputs n.count
  userSigningPkHash : Fr
  outputCiphertextSalt : Fr
  publicInputHash : Fr

def assertDefaultRing {n : Nat} (inputs : Fin n → Input) (output : Output) : Option Unit := do
  forEach fun i => assertZeroWhen (isZero ((inputs i).domain - utxoDomain)) (inputs i).ringDataHash
  assertIsEqual output.ringDataHash 0

namespace Circuit

variable (poseidon : Poseidon) {n : InputCount} (c : Circuit n)

def transaction : Transaction n where
  inputs := c.inputs
  output := c.output
  mintChunks := c.mintChunks
  ownerPkHash := c.ownerPkHash
  userNullifierPk := c.userNullifierPk
  userNullifierSecret := c.userNullifierSecret
  common := c.common
  ringProgramId := 0

def outputEncryption (derived : Derived) : Option (List Fr) := do
  let ciphertext ← mergeOutputCiphertext poseidon c.userNullifierSecret derived.firstNullifier
    c.outputCiphertextSalt derived.outputAmount c.mintChunks
  pure (c.outputCiphertextSalt :: List.ofFn ciphertext)

def define : Option Unit := do
  let tx := c.transaction
  assertDefaultRing tx.inputs tx.output
  let derived ← tx.constrain poseidon
  assertIsEqual c.userSigningPkHash c.ownerPkHash
  let fields ← c.common.preimage poseidon
  let encryption ← c.outputEncryption poseidon derived
  let publicInputHash ← hashChain4 poseidon
    (fields ++ [c.userSigningPkHash, c.userNullifierPk] ++ encryption)
  assertIsEqual c.publicInputHash publicInputHash

end Circuit

/-! ### `ring.go` -/

structure RingCircuit (n : InputCount) where
  inputs : Fin n.count → Input
  output : Output
  mintChunks : Fin 2 → Fr
  ownerPkHash : Fr
  userNullifierPk : Fr
  userNullifierSecret : Fr
  common : CommonPublicInputs n.count
  outputRingDataHash : Fr
  ringProgramId : Fr
  publicInputHash : Fr

namespace RingCircuit

variable (poseidon : Poseidon) {n : InputCount} (c : RingCircuit n)

def transaction : Transaction n where
  inputs := c.inputs
  output := c.output
  mintChunks := c.mintChunks
  ownerPkHash := c.ownerPkHash
  userNullifierPk := c.userNullifierPk
  userNullifierSecret := c.userNullifierSecret
  common := c.common
  ringProgramId := c.ringProgramId

def define : Option Unit := do
  let tx := c.transaction
  assertIsDifferent c.ringProgramId 0
  let _ ← tx.constrain poseidon
  assertIsEqual c.outputRingDataHash c.output.ringDataHash
  let fields ← c.common.preimage poseidon
  let publicInputHash ← hashChain4 poseidon (fields ++ [c.outputRingDataHash, c.ringProgramId])
  assertIsEqual c.publicInputHash publicInputHash

end RingCircuit

/-! ### Either of them -/

inductive MergeCircuit (n : InputCount) where
  | default (circuit : Circuit n)
  | ring (circuit : RingCircuit n)

namespace MergeCircuit

variable {n : InputCount}

def transaction : MergeCircuit n → Transaction n
  | default circuit => circuit.transaction
  | ring circuit => circuit.transaction

def define (poseidon : Poseidon) : MergeCircuit n → Option Unit
  | default circuit => circuit.define poseidon
  | ring circuit => circuit.define poseidon

end MergeCircuit

end Zolana.Circuits.Merge
