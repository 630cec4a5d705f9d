import Zolana.Circuits.Transaction

/-!
# The spend circuits

The rules of `ring.go`, `signers.go` and `owner_tags.go`, and the five circuits made of them: two of the
default ring (`spp_transaction/default`) and three of a custom ring (`spp_transaction/custom`). The
Ed25519 gadget enters as a predicate on the wires of a key, a signature and a message.
-/

namespace Zolana.Circuits

open Gates

/-- What the rails call and this model leaves open: Poseidon, and `ed25519.Verify`, which returns the key it was given
when it accepts. -/
structure CircuitEnv where
  poseidon : Poseidon
  verify : (publicKey : Fin 32 → Fr) → (signature : Fin 64 → Fr) → (message : List Fr) → Bool

/-- `ed25519.Verify` decodes the key it is given, and `decodeEncoding` range checks every wire of it. -/
def CircuitEnv.VerifiesBytes (env : CircuitEnv) : Prop :=
  ∀ publicKey signature message, env.verify publicKey signature message = true → ∀ i, (publicKey i).val < 256

/-! ### `ring.go` -/

section Ring

variable {nInputs nOutputs : Nat} (inputs : Fin nInputs → Input) (outputs : Fin nOutputs → UtxoCircuitFields)

def assertInDefaultRing : Option Unit := do
  forEach fun i => (inputs i).utxo.assertInDefaultRing
  forEach fun i => (outputs i).assertInDefaultRing

def checkRingMembership (u : UtxoCircuitFields) (ringProgramId : Fr) (allowDefaultRing : Bool) : Fr :=
  let isMemberOfSigningRing := isZero (u.ringProgramId - ringProgramId)
  if !allowDefaultRing then
    isMemberOfSigningRing
  else
    let inCustomRing := 1 - isZero u.ringProgramId
    let dataSet := 1 - isZero u.ringDataHash
    let ok := select inCustomRing isMemberOfSigningRing 1
    ok * select dataSet inCustomRing 1

def assertRingMembership (ringProgramId : Fr) (allowDefaultRing : Bool) : Option Unit := do
  forEach fun i => assertWhen (inputs i).utxo.isUtxo
    (checkRingMembership (inputs i).utxo ringProgramId allowDefaultRing)
  forEach fun i => assertWhen (outputs i).isUtxo
    (checkRingMembership (outputs i) ringProgramId allowDefaultRing)

def assertRingMemberOrFree (ringProgramId : Fr) : Option Unit :=
  assertRingMembership inputs outputs ringProgramId true

def assertRingMember (ringProgramId : Fr) : Option Unit :=
  assertRingMembership inputs outputs ringProgramId false

end Ring

/-! ### `signers.go` -/

def contains (signers : List Fr) (identity : Fr) : Fr :=
  isZero (signers.map fun signer => identity - signer).prod * (1 - isZero identity)

def containsEach (signers : List Fr) {n : Nat} (identities : Fin n → Fr) (i : Fin n) : Fr :=
  contains signers (identities i)

section Signers

variable {nInputs : Nat} (inputs : Fin nInputs → Input) (ownerPkHashes : Fin nInputs → Fr)

def confidentialEddsaSigners : Option (Fin nInputs → Fr) :=
  each fun i => do
    let carriesContent := (inputs i).utxo.isUtxoOrAddress
    let pkHash := ownerPkHashes i
    assertWhen carriesContent (1 - isZero pkHash)
    pure (carriesContent * pkHash)

def authorizedEddsaInputOwners (authorized : List Fr) : Option (Fin nInputs → Fr) := do
  let owners ← confidentialEddsaSigners inputs ownerPkHashes
  forEach fun i => do
    let carriesContent := (inputs i).utxo.isUtxoOrAddress
    assertZeroWhen (1 - carriesContent) (ownerPkHashes i)
    assertWhen carriesContent (contains authorized (ownerPkHashes i))
  pure owners

def hiddenOwnerSigners (authorizedEddsa : List Fr) (hiddenOwnerPkHash hiddenSignatureValid : Fr) :
    Option (Fin nInputs → Fr) := do
  let signers ← each fun i => do
    let carriesContent := (inputs i).utxo.isUtxoOrAddress
    let isHidden := isZero (ownerPkHashes i)
    assertZeroWhen (1 - carriesContent) (ownerPkHashes i)
    let pkHash := select isHidden hiddenOwnerPkHash (ownerPkHashes i)
    assertWhen carriesContent (1 - isZero pkHash)
    assertWhen (carriesContent * isHidden) hiddenSignatureValid
    assertWhen (carriesContent * (1 - isHidden)) (contains authorizedEddsa (ownerPkHashes i))
    pure (carriesContent * pkHash)
  let hasHiddenInput := ∑ i, (inputs i).utxo.isUtxoOrAddress * isZero (ownerPkHashes i)
  assertIsDifferent hasHiddenInput 0
  pure signers

def assertDefaultHiddenOwner {nOutputs : Nat} (publishedOutputOwnerPkHashes : Fin nOutputs → Fr)
    (hiddenOwnerPkHash defaultOwnerPkHash : Fr) : Option Unit := do
  let realHidden (i : Fin nInputs) : Fr := (inputs i).utxo.isUtxo * isZero (ownerPkHashes i)
  let isDefaultRing (i : Fin nInputs) : Fr := isZero (inputs i).utxo.ringProgramId
  let hasDefaultHidden := 1 - isZero (∑ i, realHidden i * isDefaultRing i)
  let hasRingHidden := 1 - isZero (∑ i, realHidden i * (1 - isDefaultRing i))
  assertIsEqual defaultOwnerPkHash (hasDefaultHidden * hiddenOwnerPkHash)
  assertIsEqual (hasRingHidden * hasDefaultHidden) 0
  forEach fun i =>
    assertZeroWhen hasRingHidden (isZero (publishedOutputOwnerPkHashes i - hiddenOwnerPkHash))

def signerOwners (i : Fin nInputs) : Fr := (inputs i).utxo.isUtxoOrAddress * (inputs i).utxo.owner

end Signers

/-! ### `owner_tags.go` -/

section OwnerTags

variable {nOutputs : Nat} (outputs : Fin nOutputs → UtxoCircuitFields)

def assertOutputOwnerTags (poseidon : Poseidon) (ownerPkHashes nullifierPks : Fin nOutputs → Fr) :
    Option Unit :=
  forEach fun i => do
    let ownerHash ← poseidon [ownerPkHashes i, nullifierPks i]
    assertWhen (outputs i).isUtxo (isZero (ownerHash - (outputs i).owner))

def assertPublishedOutputOwners (ownerPkHashes publishedOwnerPkHashes : Fin nOutputs → Fr) : Option Unit :=
  forEach fun i => do
    let isReal := (outputs i).isUtxo
    let isDefaultRing := isZero (outputs i).ringProgramId
    let expected := isDefaultRing * ownerPkHashes i
    assertWhen isReal (isZero (publishedOwnerPkHashes i - expected))

/-- The owners that real outputs publish, and zero for the others. -/
def outputParticipants (ownerPkHashes : Fin nOutputs → Fr) : List Fr :=
  List.ofFn fun i => (outputs i).isUtxo * ownerPkHashes i

def assertMaskedDummyOutputTags (outputIsCompact publishedOwnerPkHashes : Fin nOutputs → Fr)
    (publicIdentities : List Fr) : Option Unit := do
  let participants := publicIdentities ++ outputParticipants outputs publishedOwnerPkHashes
  forEach fun i => do
    assertZeroWhen (outputIsCompact i) (publishedOwnerPkHashes i)
    let isPublished := 1 - isZero (publishedOwnerPkHashes i)
    assertWhen ((outputs i).isDummy * isPublished) (contains participants (publishedOwnerPkHashes i))

/-- Every circuit keeps its input owners private and publishes its output owners, so the slice of the one
is nil and that of the other is not. -/
def assertDummyTags (outputIsCompact outputOwnerPkHashes : Fin nOutputs → Fr) (signers : List Fr) :
    Option Unit := do
  let participants := signers ++ outputParticipants outputs outputOwnerPkHashes
  forEach fun i => do
    assertZeroWhen (outputIsCompact i) (outputOwnerPkHashes i)
    let isNonCompactDummy := (outputs i).isDummy * (1 - outputIsCompact i)
    assertWhen isNonCompactDummy (contains participants (outputOwnerPkHashes i))

end OwnerTags

/-! ### The witness of every circuit -/

structure RailWitness (shape : Shape) where
  nullifiers : Fin shape.nInputs → Fr
  outputHashes : Fin shape.nOutputs → Fr
  treeSlots : Fin inputTrees → TreeSlot
  outputTreeId : Fr
  privateTxHash : Fr
  externalDataHash : Fr
  publicAssets : Fin nPublicSlots → Fr
  publicAmounts : Fin nPublicSlots → Fr
  inputFlags : Fr
  signerPkHashes : List Fr
  publicInputHash : Fr
  inputs : Fin shape.nInputs → Input
  inputOwnerPkHashes : Fin shape.nInputs → Fr
  outputs : Fin shape.nOutputs → UtxoCircuitFields
  blindingSeed : Fr

namespace RailWitness

variable (poseidon : Poseidon) {shape : Shape} (w : RailWitness shape)

def outputIsCompact : Fin shape.nOutputs → Fr := compactSlots w.outputHashes

def toTransaction (cachedInputs : Option (CachedInputs shape.nInputs)) (ringProgramId signerPkHashChain : Fr)
    (preimageAfterPrivateTxHash preimageTail : List Fr) : Transaction shape where
  cachedInputs
  nullifiers := w.nullifiers
  outputHashes := w.outputHashes
  treeSlots := w.treeSlots
  outputTreeId := w.outputTreeId
  inputs := w.inputs
  outputs := w.outputs
  blindingSeed := w.blindingSeed
  privateTxHash := w.privateTxHash
  externalDataHash := w.externalDataHash
  publicAssets := w.publicAssets
  publicAmounts := w.publicAmounts
  ringProgramId
  signerPkHashChain
  inputFlags := w.inputFlags
  publicInputHash := w.publicInputHash
  preimageAfterPrivateTxHash
  preimageTail

def transaction (cachedInputs : Option (CachedInputs shape.nInputs)) (ringProgramId : Fr)
    (preimageAfterPrivateTxHash preimageTail : List Fr) : Option (Transaction shape) := do
  let signerPkHashChain ← rightHashChain poseidon w.signerPkHashes
  pure (w.toTransaction cachedInputs ringProgramId signerPkHashChain preimageAfterPrivateTxHash preimageTail)

def validateSigners (width : Int) : Option Unit := assertIsEqual (w.signerPkHashes.length : Int) width

end RailWitness

/-! ### `custom/anonymous_eddsa.go`: the owner's signature -/

def messageLimbBits : Nat := 128

/-- The bytes of 256 bits that come lowest first, the highest byte first. -/
def bytes32FromBits (bits : List Fr) : List Fr := ((bits.toChunks 8).map fromBinary).reverse

/-- `OwnerAuthorization`: the identity of the key, and the hash of the message. -/
def ownerAuthorization (env : CircuitEnv) (messageHashLow messageHashHigh : Fr)
    (publicKey : Fin 32 → Fr) (signature : Fin 64 → Fr) : Option (Fr × Fr) := do
  let low ← toBinary messageLimbBits messageHashLow
  let high ← toBinary messageLimbBits messageHashHigh
  let messageBytes := bytes32FromBits (low ++ high)
  if env.verify publicKey signature messageBytes then
    let identity ← solanaOwnerIdentityBounded env.poseidon publicKey
    let messageHash ← hashBoundedBytes env.poseidon messageBytes
    pure (identity, messageHash)
  else
    none

/-! ### `default/confidential_eddsa.go` -/

structure DefaultRingConfidentialEddsaCircuit (shape : Shape) extends RailWitness shape where
  cachedInputs : CachedInputs shape.nInputs
  outputOwnerPkHashes : Fin shape.nOutputs → Fr
  outputNullifierPks : Fin shape.nOutputs → Fr

namespace DefaultRingConfidentialEddsaCircuit

variable (env : CircuitEnv) {shape : Shape} (c : DefaultRingConfidentialEddsaCircuit shape)

def newTransaction : Option (Transaction shape) := do
  let ownerChain ← rightHashChain4 env.poseidon (List.ofFn c.outputOwnerPkHashes)
  c.transaction env.poseidon (some c.cachedInputs) 0 [] [ownerChain]

def define : Option Unit := do
  let tx ← c.newTransaction env
  c.validateSigners shape.signerWidth
  assertInDefaultRing c.inputs c.outputs
  let authorized := c.signerPkHashes
  let inputOwners ← authorizedEddsaInputOwners c.inputs c.inputOwnerPkHashes authorized
  assertOutputOwnerTags c.outputs env.poseidon c.outputOwnerPkHashes c.outputNullifierPks
  let outputPubkeyIsSigner := containsEach authorized c.outputOwnerPkHashes
  assertDummyTags c.outputs c.outputIsCompact c.outputOwnerPkHashes authorized
  tx.constrain env.poseidon inputOwners outputPubkeyIsSigner

end DefaultRingConfidentialEddsaCircuit

/-! ### `default/confidential_in_circuit_eddsa.go` -/

structure DefaultRingConfidentialInCircuitEddsaCircuit (shape : Shape) extends RailWitness shape where
  cachedInputs : CachedInputs shape.nInputs
  /-- At least one. -/
  nSigners : Nat
  nSigners_pos : 0 < nSigners
  messageHashLow : Fr
  messageHashHigh : Fr
  outputOwnerPkHashes : Fin shape.nOutputs → Fr
  outputNullifierPks : Fin shape.nOutputs → Fr
  ownerPublicKeys : Fin nSigners → Fin 32 → Fr
  ownerSignatures : Fin nSigners → Fin 64 → Fr

namespace DefaultRingConfidentialInCircuitEddsaCircuit

variable (env : CircuitEnv) {shape : Shape} (c : DefaultRingConfidentialInCircuitEddsaCircuit shape)

def newTransaction (owners : List Fr) (messageHash : Fr) : Option (Transaction shape) := do
  let signedOwnerChain ← rightHashChain4 env.poseidon owners
  let ownerChain ← rightHashChain4 env.poseidon (List.ofFn c.outputOwnerPkHashes)
  c.transaction env.poseidon (some c.cachedInputs) 0 [messageHash, signedOwnerChain] [ownerChain]

/-- The identity and the message hash of each signature. -/
def ownerAuthorizations : Option (Fin c.nSigners → Fr × Fr) :=
  each fun i => ownerAuthorization env c.messageHashLow c.messageHashHigh (c.ownerPublicKeys i)
    (c.ownerSignatures i)

def define : Option Unit := do
  let authorizations ← c.ownerAuthorizations env
  let owners := List.ofFn fun i => (authorizations i).1
  -- the loop leaves the hash of its last round, and every round hashes the same digest
  let messageHash := (authorizations ⟨c.nSigners - 1, Nat.sub_one_lt_of_lt c.nSigners_pos⟩).2
  let tx ← c.newTransaction env owners messageHash
  c.validateSigners shape.signerWidth
  assertInDefaultRing c.inputs c.outputs
  let authorized := c.signerPkHashes ++ owners
  let inputOwners ← authorizedEddsaInputOwners c.inputs c.inputOwnerPkHashes authorized
  assertOutputOwnerTags c.outputs env.poseidon c.outputOwnerPkHashes c.outputNullifierPks
  let outputPubkeyIsSigner := containsEach authorized c.outputOwnerPkHashes
  assertDummyTags c.outputs c.outputIsCompact c.outputOwnerPkHashes authorized
  tx.constrain env.poseidon inputOwners outputPubkeyIsSigner

end DefaultRingConfidentialInCircuitEddsaCircuit

/-! ### `custom/confidential_eddsa.go` -/

structure CustomRingConfidentialEddsaCircuit (shape : Shape) extends RailWitness shape where
  cachedInputs : CachedInputs shape.nInputs
  ringProgramId : Fr
  publishedOutputOwnerPkHashes : Fin shape.nOutputs → Fr
  outputOwnerPkHashes : Fin shape.nOutputs → Fr
  outputNullifierPks : Fin shape.nOutputs → Fr

namespace CustomRingConfidentialEddsaCircuit

variable (env : CircuitEnv) {shape : Shape} (c : CustomRingConfidentialEddsaCircuit shape)

def newTransaction : Option (Transaction shape) := do
  let ownerChain ← rightHashChain4 env.poseidon (List.ofFn c.publishedOutputOwnerPkHashes)
  c.transaction env.poseidon (some c.cachedInputs) c.ringProgramId [] [ownerChain]

def define : Option Unit := do
  let tx ← c.newTransaction env
  c.validateSigners shape.signerWidth
  assertRingMemberOrFree c.inputs c.outputs c.ringProgramId
  assertIsDifferent c.ringProgramId 0
  assertOutputOwnerTags c.outputs env.poseidon c.outputOwnerPkHashes c.outputNullifierPks
  let authorized := c.signerPkHashes
  let inputOwners ← authorizedEddsaInputOwners c.inputs c.inputOwnerPkHashes authorized
  let outputPubkeyIsSigner := containsEach authorized c.outputOwnerPkHashes
  assertPublishedOutputOwners c.outputs c.outputOwnerPkHashes c.publishedOutputOwnerPkHashes
  assertMaskedDummyOutputTags c.outputs c.outputIsCompact c.publishedOutputOwnerPkHashes authorized
  tx.constrain env.poseidon inputOwners outputPubkeyIsSigner

end CustomRingConfidentialEddsaCircuit

/-! ### `custom/anonymous_eddsa.go` -/

structure CustomRingAnonymousEddsaCircuit (shape : Shape) extends RailWitness shape where
  cachedInputs : CachedInputs shape.nInputs
  messageHashLow : Fr
  messageHashHigh : Fr
  defaultOwnerPkHash : Fr
  ringProgramId : Fr
  publishedOutputOwnerPkHashes : Fin shape.nOutputs → Fr
  outputOwnerPkHashes : Fin shape.nOutputs → Fr
  outputNullifierPks : Fin shape.nOutputs → Fr
  ownerPublicKey : Fin 32 → Fr
  ownerSignature : Fin 64 → Fr

namespace CustomRingAnonymousEddsaCircuit

variable (env : CircuitEnv) {shape : Shape} (c : CustomRingAnonymousEddsaCircuit shape)

def newTransaction (messageHash : Fr) : Option (Transaction shape) := do
  let ownerChain ← rightHashChain4 env.poseidon (List.ofFn c.publishedOutputOwnerPkHashes)
  c.transaction env.poseidon (some c.cachedInputs) c.ringProgramId [messageHash, c.defaultOwnerPkHash]
    [ownerChain]

def define : Option Unit := do
  let (hiddenOwner, messageHash) ← ownerAuthorization env c.messageHashLow c.messageHashHigh
    c.ownerPublicKey c.ownerSignature
  let tx ← c.newTransaction env messageHash
  c.validateSigners shape.signerWidth
  assertRingMemberOrFree c.inputs c.outputs c.ringProgramId
  assertIsDifferent c.ringProgramId 0
  assertOutputOwnerTags c.outputs env.poseidon c.outputOwnerPkHashes c.outputNullifierPks
  let authorizedEddsa := c.signerPkHashes
  authorizedEddsa.forM fun signer => assertIsDifferent signer hiddenOwner
  let inputOwners ← hiddenOwnerSigners c.inputs c.inputOwnerPkHashes authorizedEddsa hiddenOwner 1
  assertDefaultHiddenOwner c.inputs c.inputOwnerPkHashes c.publishedOutputOwnerPkHashes hiddenOwner
    c.defaultOwnerPkHash
  let authorized := authorizedEddsa ++ [hiddenOwner]
  let outputPubkeyIsSigner := containsEach authorized c.outputOwnerPkHashes
  assertPublishedOutputOwners c.outputs c.outputOwnerPkHashes c.publishedOutputOwnerPkHashes
  let dummyIdentities := authorizedEddsa ++ [c.defaultOwnerPkHash]
  assertMaskedDummyOutputTags c.outputs c.outputIsCompact c.publishedOutputOwnerPkHashes dummyIdentities
  tx.constrain env.poseidon inputOwners outputPubkeyIsSigner

end CustomRingAnonymousEddsaCircuit

/-! ### `custom/authority.go` -/

structure CustomRingAuthorityCircuit (shape : Shape) extends RailWitness shape where
  ringProgramId : Fr

namespace CustomRingAuthorityCircuit

variable (env : CircuitEnv) {shape : Shape} (c : CustomRingAuthorityCircuit shape)

def newTransaction : Option (Transaction shape) :=
  c.transaction env.poseidon none c.ringProgramId [] []

def define : Option Unit := do
  let tx ← c.newTransaction env
  c.validateSigners 1
  forEach fun i => assertIsDifferent (c.inputs i).utxo.domain addressDomain
  assertRingMember c.inputs c.outputs c.ringProgramId
  assertIsDifferent c.ringProgramId 0
  let signers ← confidentialEddsaSigners c.inputs c.inputOwnerPkHashes
  let owners := List.ofFn (signerOwners c.inputs)
  tx.constrain env.poseidon signers (containsEach owners fun i => (c.outputs i).owner)

end CustomRingAuthorityCircuit

/-! ### Any of them -/

/-- A circuit that proves a transaction, with its witness. -/
inductive SpendCircuit (shape : Shape) where
  | defaultConfidential (circuit : DefaultRingConfidentialEddsaCircuit shape)
  | defaultInCircuitEddsa (circuit : DefaultRingConfidentialInCircuitEddsaCircuit shape)
  | customConfidential (circuit : CustomRingConfidentialEddsaCircuit shape)
  | customAnonymous (circuit : CustomRingAnonymousEddsaCircuit shape)
  | ringAuthority (circuit : CustomRingAuthorityCircuit shape)

namespace SpendCircuit

variable {shape : Shape}

def witness : SpendCircuit shape → RailWitness shape
  | defaultConfidential circuit => circuit.toRailWitness
  | defaultInCircuitEddsa circuit => circuit.toRailWitness
  | customConfidential circuit => circuit.toRailWitness
  | customAnonymous circuit => circuit.toRailWitness
  | ringAuthority circuit => circuit.toRailWitness

def cachedInputs : SpendCircuit shape → Option (CachedInputs shape.nInputs)
  | defaultConfidential circuit => some circuit.cachedInputs
  | defaultInCircuitEddsa circuit => some circuit.cachedInputs
  | customConfidential circuit => some circuit.cachedInputs
  | customAnonymous circuit => some circuit.cachedInputs
  | ringAuthority _ => none

def isAuthority : SpendCircuit shape → Bool
  | ringAuthority _ => true
  | _ => false

/-- The output owners are masked on the rails of a ring. -/
def masksOwners : SpendCircuit shape → Bool
  | customConfidential _ | customAnonymous _ => true
  | _ => false

def publishedTags : SpendCircuit shape → Fin shape.nOutputs → Fr
  | defaultConfidential c => c.outputOwnerPkHashes
  | defaultInCircuitEddsa c => c.outputOwnerPkHashes
  | customConfidential c => c.publishedOutputOwnerPkHashes
  | customAnonymous c => c.publishedOutputOwnerPkHashes
  | ringAuthority _ => fun _ => 0

def define (env : CircuitEnv) : SpendCircuit shape → Option Unit
  | defaultConfidential circuit => circuit.define env
  | defaultInCircuitEddsa circuit => circuit.define env
  | customConfidential circuit => circuit.define env
  | customAnonymous circuit => circuit.define env
  | ringAuthority circuit => circuit.define env

end SpendCircuit

end Zolana.Circuits
