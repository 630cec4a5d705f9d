import Zolana.Circuits.Gadget

/-!
# The transaction every spend circuit proves

`spp_transaction/shared`. A circuit of one rail views its witness as a `Transaction`, asserts its own rules
on rings, owner tags and signers, and leaves the rest to `Transaction.constrain`. The lengths that
`ValidateLayout` checks are those of the types.
-/

namespace Zolana.Circuits

open Gates

/-! ### `transaction.go`: constants -/

def nPublicSlots : Nat := 3

def maxTransactionAddresses : Int := 64

def fixedTransactAddresses : Int := 4

def inputTrees : Nat := 5

def treeIndexBits : Nat := 3

def dummyDomain : Fr := 1

def addressDomain : Fr := (2 : Nat)

def utxoDomain : Fr := 3

def stateTreeHeight : Nat := 32

def nullifierTreeHeight : Nat := 40

/-- The counts of a circuit, which are positive and of type `int`. -/
structure Shape where
  nInputs : Nat
  nOutputs : Nat
  nInputs_pos : 0 < nInputs
  nOutputs_pos : 0 < nOutputs
  nInputs_lt : nInputs < 2 ^ 63
  nOutputs_lt : nOutputs < 2 ^ 63

def ownerSignerSlots (nInputs : Int) : Int :=
  min nInputs (maxTransactionAddresses - fixedTransactAddresses - nInputs)

def Shape.signerWidth (shape : Shape) : Int := ownerSignerSlots shape.nInputs + 1

def compactSlots {n : Nat} (values : Fin n → Fr) (i : Fin n) : Fr := isZero (values i)

/-! ### `utxo.go` -/

structure UtxoCircuitFields where
  domain : Fr
  owner : Fr
  asset : Fr
  amount : Fr
  blinding : Fr
  dataHash : Fr
  ringDataHash : Fr
  ringProgramId : Fr

def allZero (values : List Fr) : Fr := values.foldl (fun zero v => zero * isZero v) 1

namespace UtxoCircuitFields

variable (u : UtxoCircuitFields)

def isUtxo : Fr := isZero (u.domain - utxoDomain)

def isAddress : Fr := isZero (u.domain - addressDomain)

def isDummy : Fr := isZero (u.domain - dummyDomain)

def isUtxoOrAddress : Fr := 1 - u.isDummy

def assertInDefaultRing : Option Unit := do
  assertIsEqual u.ringProgramId 0
  assertIsEqual u.ringDataHash 0

def checkDummy : Fr :=
  allZero [u.owner, u.asset, u.amount, u.dataHash, u.ringDataHash, u.ringProgramId]

end UtxoCircuitFields

section Hashes

variable (poseidon : Poseidon)

def utxoHashCircuit (u : UtxoCircuitFields) (treeId : Fr) : Option Fr := do
  let ownerUtxoHash ← poseidon [u.owner, u.blinding]
  let ringHash ← poseidon [u.ringDataHash, u.ringProgramId]
  poseidon [u.domain, treeId, u.asset, u.amount, u.dataHash, ringHash, ownerUtxoHash]

/-- `nullifierPkGadget`. -/
def nullifierPkHash (nullifierSecret : Fr) : Option Fr := poseidon [nullifierSecret]

/-- `ownerHashGadget`. -/
def ownerHashCircuit (ownerKeyHash nullifierPk : Fr) : Option Fr := poseidon [ownerKeyHash, nullifierPk]

/-- `NullifierGadget`. -/
def nullifierCircuit (utxoHash blinding nullifierSecret : Fr) : Option Fr :=
  poseidon [utxoHash, blinding, nullifierSecret]

/-! ### `derivation.go` -/

def outputBlindingSeedDomainV1 : Fr := 0x54584f53

def outputBlindingDomainV1 : Fr := 0x54584f42

def privateTxBlindingDomainV1 : Fr := 0x54585042

def deriveOutputBlindingSeed (firstNullifier blindingSeed : Fr) : Option Fr :=
  poseidon [outputBlindingSeedDomainV1, firstNullifier, blindingSeed]

def deriveOutputBlinding (firstNullifier seed : Fr) (outputIndex : Nat) : Option Fr :=
  poseidon [outputBlindingDomainV1, firstNullifier, seed, outputIndex]

def derivePrivateTxBlinding (firstNullifier secret : Fr) : Option Fr :=
  poseidon [privateTxBlindingDomainV1, firstNullifier, secret]

/-! ### `private_tx_hash.go` -/

def privateTxHashCircuit (inputUtxoHashes outputUtxoHashes addressNullifiers : List Fr) (blinding : Fr) :
    Option Fr := do
  let inputChain ← nonZeroHashChain poseidon inputUtxoHashes
  let outputChain ← nonZeroHashChain poseidon outputUtxoHashes
  let addressChain ← nonZeroHashChain poseidon addressNullifiers
  poseidon [inputChain, outputChain, addressChain, blinding]

/-! ### `tree_slot.go` -/

structure TreeSlot where
  id : Fr
  utxoRoot : Fr
  nullifierRoot : Fr

def TreeSlot.hash (slot : TreeSlot) : Option Fr :=
  poseidon [slot.id, slot.utxoRoot, slot.nullifierRoot]

def treeSlotsHashChain (slots : Fin inputTrees → TreeSlot) : Option Fr := do
  let hashes ← each fun k => (slots k).hash poseidon
  rightHashChain poseidon (List.ofFn hashes)

end Hashes

def selectTreeSlot (slot : Fr) (slots : Fin inputTrees → TreeSlot) (requireStateRoot : Bool) :
    Option TreeSlot := do
  let sel (k : Fin inputTrees) : Fr := isZero (slot - (k.val : Fr))
  let hits := ∑ k, sel k
  let selected : TreeSlot :=
    ⟨∑ k, sel k * (slots k).id, ∑ k, sel k * (slots k).utxoRoot, ∑ k, sel k * (slots k).nullifierRoot⟩
  assertIsEqual hits 1
  if requireStateRoot then assertIsDifferent selected.utxoRoot 0 else pure ()
  assertIsDifferent selected.nullifierRoot 0
  pure selected

/-! ### `inputs.go` -/

structure Input where
  utxo : UtxoCircuitFields
  statePathElements : Fin stateTreeHeight → Fr
  statePathIndex : Fr
  treeSlot : Fr
  nullifierLowValue : Fr
  nullifierNextValue : Fr
  nullifierLowPathElements : Fin nullifierTreeHeight → Fr
  nullifierLowPathIndex : Fr
  nullifierSecret : Fr

structure PublicInputUtxoInputs where
  nullifier : Fr
  isCompact : Fr
  signerPk : Fr
  tree : TreeSlot
  /-- Absent for a circuit that always requires inclusion in the state tree. -/
  skipInclusion : Option Fr

def assertDistinctNullifiers {n : Nat} (nullifiers isCompact : Fin n → Fr) : Option Unit :=
  forEach fun i => forEach fun j =>
    if i < j then
      assertIsDifferent (nullifiers i - nullifiers j + isCompact i * isCompact j) 0
    else
      pure ()

namespace Input

variable (poseidon : Poseidon) (input : Input)

def checkInclusion (utxoHash utxoTreeRoot : Fr) : Option Fr := do
  let statePathIndices ← toBinary stateTreeHeight input.statePathIndex
  let stateRoot ← merkleRoot poseidon utxoHash statePathIndices (List.ofFn input.statePathElements)
  pure (isZero (stateRoot - utxoTreeRoot))

def checkAddress : Fr :=
  allZero [input.utxo.asset, input.utxo.amount, input.utxo.dataHash, input.utxo.ringDataHash,
    input.utxo.ringProgramId, input.nullifierSecret]

def checkNonInclusion (utxoHash : Fr) (signals : PublicInputUtxoInputs) : Option Unit := do
  let nullifier ← nullifierCircuit poseidon utxoHash input.utxo.blinding input.nullifierSecret
  assertEqualWhen (1 - signals.isCompact) nullifier signals.nullifier
  let lowLeafHash ← indexedLeafHash poseidon input.nullifierLowValue input.nullifierNextValue
  let nfPathIndices ← toBinary nullifierTreeHeight input.nullifierLowPathIndex
  let nfRoot ← merkleRoot poseidon lowLeafHash nfPathIndices (List.ofFn input.nullifierLowPathElements)
  assertIsEqual nfRoot signals.tree.nullifierRoot
  assertStrictlyOrdered input.nullifierLowValue nullifier input.nullifierNextValue

/-- When the commitment has to be in the state tree. -/
def requireInclusion (signals : PublicInputUtxoInputs) : Option Fr :=
  match signals.skipInclusion with
  | none => pure input.utxo.isUtxo
  | some skipInclusion => do
    let required := input.utxo.isUtxo * (1 - skipInclusion)
    assertZeroWhen required (isZero signals.tree.utxoRoot)
    pure required

end Input

/-- The input hash and the address nullifier that enter the private transaction hash. -/
def constrainInput (poseidon : Poseidon) (input : Input) (signals : PublicInputUtxoInputs) :
    Option (Fr × Fr) := do
  let isUtxo := input.utxo.isUtxo
  let isAddress := input.utxo.isAddress
  assertIsEqual (isUtxo + isAddress + input.utxo.isDummy) 1
  assertZeroWhen isUtxo (isZero input.utxo.asset)
  assertWhen signals.isCompact input.utxo.isDummy
  let utxoHash ← utxoHashCircuit poseidon input.utxo signals.tree.id
  input.checkNonInclusion poseidon utxoHash signals
  let nullifierPk ← nullifierPkHash poseidon input.nullifierSecret
  let ownerHash ← ownerHashCircuit poseidon signals.signerPk nullifierPk
  assertWhen input.utxo.isUtxoOrAddress (isZero (ownerHash - input.utxo.owner))
  let requireInclusion ← input.requireInclusion signals
  let included ← input.checkInclusion poseidon utxoHash signals.tree.utxoRoot
  assertWhen requireInclusion included
  assertWhen input.utxo.isDummy input.utxo.checkDummy
  assertZeroWhen input.utxo.isDummy input.nullifierSecret
  assertWhen isAddress input.checkAddress
  pure (select isUtxo utxoHash 0, select isAddress signals.nullifier 0)

/-! ### `outputs.go` -/

def constrainOutput (poseidon : Poseidon) (utxo : UtxoCircuitFields)
    (hash isCompact ownerSigned treeId : Fr) : Option Fr := do
  let isUtxo := utxo.isUtxo
  assertIsEqual (isUtxo + utxo.isDummy) 1
  assertZeroWhen isUtxo (isZero utxo.asset)
  assertWhen utxo.isDummy utxo.checkDummy
  let dataIsSet := 1 - isZero utxo.dataHash
  assertWhen (isUtxo * dataIsSet) ownerSigned
  assertWhen isCompact utxo.isDummy
  let utxoHash ← utxoHashCircuit poseidon utxo treeId
  assertEqualWhen (1 - isCompact) utxoHash hash
  pure (select isUtxo utxoHash 0)

/-! ### `slot_order.go` -/

def assertDummiesLast : List UtxoCircuitFields → Option Unit
  | previous :: utxo :: utxos => do
    let previousIsNotReal := (previous.domain - addressDomain) * (previous.domain - utxoDomain)
    assertIsEqual (previousIsNotReal * (utxo.domain - dummyDomain)) 0
    assertDummiesLast (utxo :: utxos)
  | _ => pure ()

/-! ### `balance.go` -/

def amountBits : Nat := 64

def signedAmountBits : Nat := amountBits + 1

def rangeCheck64 (value : Fr) : Option Unit := do
  let _ ← toBinary amountBits value

def rangeCheckSigned64 (value : Fr) : Option Unit := do
  let shifted := value + ((2 ^ amountBits : Nat) : Fr)
  let _ ← toBinary signedAmountBits shifted
  assertIsDifferent shifted 0

/-- Slots of a public asset and its amount: those in use name distinct assets. -/
def assertDistinctAssets : List (Fr × Fr) → Option Unit
  | [] => pure ()
  | (asset, amount) :: slots => do
    slots.forM fun (asset', amount') => do
      let bothActive := (1 - isZero amount) * (1 - isZero amount')
      let sameAsset := isZero (asset - asset')
      assertIsEqual (bothActive * sameAsset) 0
    assertDistinctAssets slots

def assetSum (asset : Fr) (utxos : List UtxoCircuitFields) : Fr :=
  (utxos.map fun u => isZero (asset - u.asset) * u.amount).sum

def publicSum (asset : Fr) (slots : List (Fr × Fr)) : Fr :=
  (slots.map fun slot => isZero (asset - slot.1) * slot.2).sum

/-- The builder gives up on slices of different lengths. -/
def assertBalanceConservation (inputs outputs : List UtxoCircuitFields)
    (publicAssets publicAmounts : List Fr) : Option Unit := do
  assertIsEqual publicAssets.length publicAmounts.length
  let slots := publicAssets.zip publicAmounts
  slots.forM fun (asset, amount) => do
    rangeCheckSigned64 amount
    assertZeroWhen (isZero amount) asset
  assertDistinctAssets slots
  inputs.forM fun input => rangeCheck64 input.amount
  outputs.forM fun output => rangeCheck64 output.amount
  let assets := inputs.map (·.asset) ++ outputs.map (·.asset) ++ publicAssets
  assets.forM fun asset =>
    assertIsEqual (assetSum asset inputs + publicSum asset slots) (assetSum asset outputs)

/-! ### `cache.go` -/

structure CachedInputs (nInputs : Nat) where
  treeId : Fr
  readHashChain : Fr
  readHashes : Fin nInputs → Fr
  isCached : Fin nInputs → Fr
  readIndex : Fin nInputs → Fr

/-! ### `transaction.go` -/

structure Transaction (shape : Shape) where
  /-- Absent on ring authority. -/
  cachedInputs : Option (CachedInputs shape.nInputs)
  nullifiers : Fin shape.nInputs → Fr
  outputHashes : Fin shape.nOutputs → Fr
  treeSlots : Fin inputTrees → TreeSlot
  outputTreeId : Fr
  inputs : Fin shape.nInputs → Input
  outputs : Fin shape.nOutputs → UtxoCircuitFields
  blindingSeed : Fr
  privateTxHash : Fr
  externalDataHash : Fr
  publicAssets : Fin nPublicSlots → Fr
  publicAmounts : Fin nPublicSlots → Fr
  ringProgramId : Fr
  signerPkHashChain : Fr
  inputFlags : Fr
  publicInputHash : Fr
  preimageAfterPrivateTxHash : List Fr
  preimageTail : List Fr

def selectReadHash {n : Nat} (index : Fr) (hashes : Fin n → Fr) : Option Fr := do
  let hit (k : Fin n) : Fr := isZero (index - (k.val : Fr))
  let hits := ∑ k, hit k
  let selected := ∑ k, hit k * hashes k
  assertIsEqual hits 1
  pure selected

namespace CachedInputs

variable {shape : Shape} (cached : CachedInputs shape.nInputs)

/-- The checks of `prepare`; what it sets is read off the transaction by the functions below. -/
def prepare : Option Unit := do
  forEach fun i => assertIsBoolean (cached.isCached i)
  let _ ← toBinary 16 cached.treeId

def constrain (poseidon : Poseidon) (inputs : Fin shape.nInputs → Input)
    (inputHashes inputTreeIds : Fin shape.nInputs → Fr) : Option Unit := do
  forEach fun i => do
    let isCached := cached.isCached i
    assertWhen isCached (isZero ((inputs i).utxo.domain - utxoDomain))
    assertWhen isCached (isZero (inputTreeIds i - cached.treeId))
    assertWhen isCached (1 - isZero (inputHashes i))
    let read ← selectReadHash (cached.readIndex i) cached.readHashes
    assertWhen isCached (isZero (inputHashes i - read))
  let chain ← rightHashChain4 poseidon (List.ofFn cached.readHashes)
  assertIsEqual chain cached.readHashChain

end CachedInputs

namespace Transaction

variable (poseidon : Poseidon) {shape : Shape} (t : Transaction shape)

/-- `skipInclusion`, as `CachedInputs.prepare` sets it. -/
def skipInclusion (i : Fin shape.nInputs) : Option Fr := t.cachedInputs.map fun cached => cached.isCached i

/-- The preimage tail with what `CachedInputs.prepare` appends to it. -/
def preparedTail : List Fr :=
  match t.cachedInputs with
  | none => t.preimageTail
  | some cached => t.preimageTail ++ [cached.treeId, cached.readHashChain]

/-- The slots interleaved, each asset before its amount. -/
def publicSlots : List Fr :=
  (List.finRange nPublicSlots).flatMap fun i => [t.publicAssets i, t.publicAmounts i]

def publicInputHashCircuit : Option Fr := do
  let nullifierChain ← rightHashChain4 poseidon (List.ofFn t.nullifiers)
  let outputChain ← rightHashChain4 poseidon (List.ofFn t.outputHashes)
  let treeSlotsChain ← treeSlotsHashChain poseidon t.treeSlots
  hashChain4 poseidon ([nullifierChain, outputChain, treeSlotsChain, t.outputTreeId, t.privateTxHash] ++
    t.preimageAfterPrivateTxHash ++ [t.externalDataHash] ++ t.publicSlots ++
    [t.ringProgramId, t.signerPkHashChain, t.inputFlags] ++ t.preparedTail)

def publishedTreeIndex (flagBits : List Fr) (i : Nat) : Fr :=
  fromBinary ((flagBits.drop (1 + treeIndexBits * i)).take treeIndexBits)

/-- The loop over the inputs: the hash and the address nullifier of an input, and the id of its tree. -/
def constrainSlot (signers : Fin shape.nInputs → Fr) (allowDummyInputs : Fr) (flagBits : List Fr)
    (i : Fin shape.nInputs) : Option ((Fr × Fr) × Fr) := do
  let input := t.inputs i
  let isCompact := compactSlots t.nullifiers i
  assertIsEqual ((1 - allowDummyInputs) * (1 - input.utxo.isUtxo - isCompact)) 0
  assertIsEqual input.treeSlot (publishedTreeIndex flagBits i)
  let tree ← selectTreeSlot input.treeSlot t.treeSlots t.cachedInputs.isNone
  let hashes ← constrainInput poseidon input
    ⟨t.nullifiers i, isCompact, signers i, tree, t.skipInclusion i⟩
  pure (hashes, tree.id)

def constrainOutputSlot (firstNullifier seed : Fr) (outputSigned : Fin shape.nOutputs → Fr)
    (i : Fin shape.nOutputs) : Option Fr := do
  let utxo := t.outputs i
  let blinding ← deriveOutputBlinding poseidon firstNullifier seed i
  assertIsEqual utxo.blinding blinding
  constrainOutput poseidon utxo (t.outputHashes i) (compactSlots t.outputHashes i) (outputSigned i)
    t.outputTreeId

def firstNullifier : Fr := t.nullifiers ⟨0, shape.nInputs_pos⟩

/-- The cache is prepared where there is one. -/
def prepareCached : Option Unit :=
  match t.cachedInputs with
  | none => pure ()
  | some cached => cached.prepare

/-- The cache is constrained where there is one. -/
def constrainCached (inputHashes inputTreeIds : Fin shape.nInputs → Fr) : Option Unit :=
  match t.cachedInputs with
  | none => pure ()
  | some cached => cached.constrain poseidon t.inputs inputHashes inputTreeIds

def constrain (signers : Fin shape.nInputs → Fr) (outputSigned : Fin shape.nOutputs → Fr) : Option Unit := do
  t.prepareCached
  let flagBits ← toBinary (1 + treeIndexBits * shape.nInputs) t.inputFlags
  let allowDummyInputs ← flagBits[0]?
  let slots ← each fun i => t.constrainSlot poseidon signers allowDummyInputs flagBits i
  t.constrainCached poseidon (fun i => (slots i).1.1) fun i => (slots i).2
  assertDistinctNullifiers t.nullifiers (compactSlots t.nullifiers)
  assertDummiesLast (List.ofFn fun i => (t.inputs i).utxo)
  assertIsDifferent t.firstNullifier 0
  let outputBlindingSeed ← deriveOutputBlindingSeed poseidon t.firstNullifier t.blindingSeed
  let outputHashes ← each fun i => t.constrainOutputSlot poseidon t.firstNullifier outputBlindingSeed
    outputSigned i
  assertDummiesLast (List.ofFn t.outputs)
  assertBalanceConservation (List.ofFn fun i => (t.inputs i).utxo) (List.ofFn t.outputs)
    (List.ofFn t.publicAssets) (List.ofFn t.publicAmounts)
  let blinding ← derivePrivateTxBlinding poseidon t.firstNullifier t.blindingSeed
  let privateTxHash ← privateTxHashCircuit poseidon (List.ofFn fun i => (slots i).1.1)
    (List.ofFn outputHashes) (List.ofFn fun i => (slots i).1.2) blinding
  assertIsEqual privateTxHash t.privateTxHash
  let publicInputHash ← t.publicInputHashCircuit poseidon
  assertIsEqual t.publicInputHash publicInputHash

end Transaction

end Zolana.Circuits
