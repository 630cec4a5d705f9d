import Zolana.Pool.TransactAccounts

/-!
# The public inputs of a transact

`instructions/transact/verify.rs`: the values that the proof of a transact is checked against, how the
processor derives them from the instruction and its accounts, and the one hash they are folded into.
-/

namespace Zolana.Verify

open Fallible

/-! ### Owner identities -/

def maxOwnerHashes : Nat := maxSigners + maxOutputs

/-- The owner identities hashed so far, each with its tag. -/
structure OwnerHashCache where
  entries : List (Bytes32 × Bytes32)
  deriving DecidableEq, Repr

namespace OwnerHashCache

def entry (cache : OwnerHashCache) (ownerTag : Bytes32) : Option (Bytes32 × Bytes32) :=
  cache.entries.find? (·.1 = ownerTag)

def insert (hashv : Hashv) (cache : OwnerHashCache) (ownerTag : Bytes32) :
    Except ProgramError (Bytes32 × OwnerHashCache) :=
  match solanaOwnerIdentity hashv ownerTag with
  | .error e => .error (.hasher e)
  | .ok hash =>
    if cache.entries.length < maxOwnerHashes then
      .ok (hash, ⟨cache.entries ++ [(ownerTag, hash)]⟩)
    else
      .error (.custom .invalidTransactShape)

def outputOwnerHash (hashv : Hashv) (cache : OwnerHashCache) (ownerTag : Bytes32) :
    Except ProgramError (Bytes32 × OwnerHashCache) :=
  match cache.entry ownerTag with
  | some entry => .ok (entry.2, cache)
  | none => cache.insert hashv ownerTag

/-- The identity of an address that has not been seen as a signer. -/
def newSignerHash (hashv : Hashv) (cache : OwnerHashCache) (address : Bytes32) :
    Except ProgramError (Option Bytes32 × OwnerHashCache) :=
  match cache.entry address with
  | some _ => .ok (none, cache)
  | none => do
    let (hash, cache) ← cache.insert hashv address
    pure (some hash, cache)

end OwnerHashCache

/-- The loop of `fill_owner_signer_hashes`, with the identities found so far. -/
def signerHashes (hashv : Hashv) (cache : OwnerHashCache) (hashes : List Bytes32) :
    List Address → Except ProgramError (List Bytes32 × OwnerHashCache)
  | [] => .ok (hashes, cache)
  | signer :: signers => do
    let (hash, cache) ← cache.newSignerHash hashv signer
    match hash with
    | none => signerHashes hashv cache hashes signers
    | some hash =>
      if hashes.length < maxSigners then
        signerHashes hashv cache (hashes ++ [hash]) signers
      else
        .error (.custom .invalidTransactShape)

/-- `encrypted_output_body`: the encoding tag, the length of the body, and the scheme as its first
byte. -/
def encryptedOutputBody (data : List UInt8) (scheme : UInt8) : Option (List UInt8) :=
  match data with
  | [] => none
  | encodingTag :: rest =>
    if encodingTag ≠ 1 ∨ rest.length < 4 then
      none
    else
      match rest.drop 4 with
      | [] => none
      | schemeByte :: payload =>
        if Bytes.ofLE (rest.take 4) = (rest.drop 4).length ∧ schemeByte = scheme then
          some payload
        else
          none

def confidentialEncryptedSchemeTag : UInt8 := 3

def isConfidentialEncryptedOutput (data : List UInt8) : Bool :=
  (encryptedOutputBody data confidentialEncryptedSchemeTag).isSome

def publishesOwner (mode : OutputOwnerMode) (output : ResolvedOutput) : Bool :=
  match mode with
  | .none => false
  | .all => true
  | .confidentialMarked => output.data.any isConfidentialEncryptedOutput

/-- The loops of `fill_output_owner_pk_hashes`: an owner that is not published stays zero. -/
def outputOwnerHashes (hashv : Hashv) (mode : OutputOwnerMode) (cache : OwnerHashCache) :
    List ResolvedOutput → Except ProgramError (List Bytes32)
  | [] => .ok []
  | output :: outputs =>
    if publishesOwner mode output then do
      let (hash, cache) ← cache.outputOwnerHash hashv output.ownerTag
      let hashes ← outputOwnerHashes hashv mode cache outputs
      pure (hash :: hashes)
    else do
      let hashes ← outputOwnerHashes hashv mode cache outputs
      pure (0 :: hashes)

/-! ### Public amounts -/

def solAssetField : Bytes32 :=
  0x2098f5fb9e239eab3ceac3f27b81e481dc3124d55ffed523a839ee8446b64864#256

def signedAmount (transfer : InterfaceTransfer) : Int :=
  if transfer.isDeposit then transfer.amount.toNat else -transfer.amount.toNat

def checkedAddI128 (a b : Int) : Option Int :=
  if -2 ^ 127 ≤ a + b ∧ a + b < 2 ^ 127 then some (a + b) else none

def checkedSlotAmount (net : Int) : Except ProgramError Int :=
  if net.natAbs < 2 ^ 64 then .ok net else .error (.custom .publicAssetAmountOverflow)

def assetField (hashv : Hashv) (settlement : Settlement) : Except ProgramError Bytes32 :=
  match settlement.splAsset with
  | none => .ok solAssetField
  | some mint =>
    match hashBytes hashv mint with
    | .ok hash => .ok hash
    | .error e => .error (.hasher e)

/-- Adds an amount to the slot of an asset, or opens a slot for it. -/
def addToSlot (numPublicAssetSlots : Nat) (slots : List (Bytes32 × Int)) (asset : Bytes32)
    (amount : Int) : Except ProgramError (List (Bytes32 × Int)) :=
  match slots.findIdx? (·.1 = asset) with
  | some index =>
    match checkedAddI128 (slots.getD index (0, 0)).2 amount with
    | none => .error (.custom .publicAssetAmountOverflow)
    | some net => do
      let net ← checkedSlotAmount net
      pure (slots.set index (asset, net))
  | none =>
    if slots.length = numPublicAssetSlots then
      .error (.custom .tooManyPublicAssets)
    else do
      let net ← checkedSlotAmount amount
      pure (slots ++ [(asset, net)])

/-- The loop of `assign_public_amounts_and_assets`, with the slots used so far. -/
def aggregateLegs (hashv : Hashv) (numPublicAssetSlots : Nat) (slots : List (Bytes32 × Int)) :
    List (InterfaceTransfer × Settlement) → Except ProgramError (List (Bytes32 × Int))
  | [] => .ok slots
  | (transfer, settlement) :: legs =>
    if signedAmount transfer = 0 ∨ transfer.isDeposit ≠ settlement.isDeposit then
      .error (.custom .invalidSettlementAccounts)
    else do
      let asset ← assetField hashv settlement
      let slots ← addToSlot numPublicAssetSlots slots asset (signedAmount transfer)
      aggregateLegs hashv numPublicAssetSlots slots legs

def publicSlots (hashv : Hashv) (transfers : List InterfaceTransfer) (settlements : List Settlement)
    (numPublicAssetSlots : Nat) : Except ProgramError (List (Bytes32 × Int)) :=
  if transfers.length ≠ settlements.length ∨ nPublicSlots < numPublicAssetSlots then
    .error (.custom .invalidTransactShape)
  else do
    let slots ← aggregateLegs hashv numPublicAssetSlots [] (transfers.zip settlements)
    if slots.any (·.2 = 0) then
      .error (.custom .zeroNetInterfaceTransferAmount)
    else
      pure slots

def amountField (amount : Int) : Except ProgramError Bytes32 :=
  if amount.natAbs < 2 ^ 64 then
    let value := amount.natAbs % bn254ScalarModulusBe.toNat
    let value :=
      if amount < 0 then (bn254ScalarModulusBe.toNat - value) % bn254ScalarModulusBe.toNat else value
    .ok (BitVec.ofNat 256 value)
  else
    .error (.custom .publicAssetAmountOverflow)

/-! ### The proof inputs -/

def assignedOutputOwners : UInt8 := (1 : UInt8) <<< 0
def assignedOwnerSigners : UInt8 := (1 : UInt8) <<< 1
def assignedPublicTransfers : UInt8 := (1 : UInt8) <<< 2
def assignedInputTrees : UInt8 := (1 : UInt8) <<< 3
def assignedExternalData : UInt8 := (1 : UInt8) <<< 4
def assignedRingProgram : UInt8 := (1 : UInt8) <<< 5
def assignedOutputTree : UInt8 := (1 : UInt8) <<< 6
def assignedCachedInputs : UInt8 := (1 : UInt8) <<< 7

def allAssignments : UInt8 :=
  assignedOutputOwners ||| assignedOwnerSigners ||| assignedPublicTransfers ||| assignedInputTrees |||
    assignedExternalData ||| assignedRingProgram ||| assignedOutputTree ||| assignedCachedInputs

structure TransactProofInputs where
  treeSlots : List TreeSlot
  outputTreeId : Bytes32
  /-- The unique ones. -/
  signerPkHashes : List Bytes32
  outputOwnerPkHashes : List Bytes32
  externalDataHash : Bytes32
  publicSlotAssets : List Bytes32
  publicSlotAmounts : List Int
  ringProgramId : Bytes32
  inputFlags : Bytes32
  assignments : UInt8
  cachedInputs : Option (Bytes32 × Bytes32)
  deriving DecidableEq, Repr

namespace TransactProofInputs

/-- A rail without cached inputs or without a ring has nothing to assign for them. -/
def new (circuit : CircuitId) : TransactProofInputs where
  treeSlots := []
  outputTreeId := 0
  signerPkHashes := []
  outputOwnerPkHashes := List.replicate maxOutputs 0
  externalDataHash := 0
  publicSlotAssets := List.replicate nPublicSlots 0
  publicSlotAmounts := List.replicate nPublicSlots 0
  ringProgramId := 0
  inputFlags := 0
  assignments :=
    (if circuit.readsCache then 0 else assignedCachedInputs) |||
      (match circuit.uncached with
        | .confidentialSigner _ | .confidentialEddsa _ _ => assignedRingProgram
        | _ => 0)
  cachedInputs := none

def assignRingProgramId (ringProgramId : Bytes32) (inputs : TransactProofInputs) : TransactProofInputs :=
  { inputs with ringProgramId, assignments := inputs.assignments ||| assignedRingProgram }

def assignInputTrees (treeSlots : List TreeSlot) (inputFlags : Bytes32)
    (inputs : TransactProofInputs) : TransactProofInputs :=
  { inputs with treeSlots, inputFlags, assignments := inputs.assignments ||| assignedInputTrees }

def assignOutputTreeId (treeId : UInt16) (inputs : TransactProofInputs) : TransactProofInputs :=
  { inputs with
    outputTreeId := treeIdField treeId
    assignments := inputs.assignments ||| assignedOutputTree }

def assignExternalDataHash (externalDataHash : Bytes32) (inputs : TransactProofInputs) : TransactProofInputs :=
  { inputs with externalDataHash, assignments := inputs.assignments ||| assignedExternalData }

/-- A slot that is read holds a hash. -/
def assignCachedInputs (hashv : Hashv) (circuit : CircuitId) (cache : CacheAccount)
    (inputs : TransactProofInputs) : Except ProgramError TransactProofInputs :=
  match circuit.cacheAccess with
  | none => .error (.custom .invalidCache)
  | some selection =>
    if (selectedSlots selection.readBitmap cache.utxoHashes).any (· = 0) then
      .error (.custom .cacheSlotEmpty)
    else
      match cachedInputFields hashv selection.readBitmap cache.treeId cache.utxoHashes
          circuit.numInputs with
      | .error e => .error (.hasher e)
      | .ok fields =>
        .ok { inputs with
          cachedInputs := some fields
          assignments := inputs.assignments ||| assignedCachedInputs }

def ensureComplete (inputs : TransactProofInputs) : Except ProgramError Unit :=
  if inputs.assignments ≠ allAssignments then .error (.custom .invalidTransactShape) else .ok ()

/-- On the authority rail the payer stands in the place of the signers. -/
def fillOwnerSignerHashes (hashv : Hashv) (requiresInputSignatures : Bool) (payer : Address)
    (ownerSigners : List Address) (ownerHashes : OwnerHashCache) (inputs : TransactProofInputs) :
    Except ProgramError (TransactProofInputs × OwnerHashCache) :=
  if ownerHashes.entries ≠ [] then
    .error (.custom .invalidTransactShape)
  else do
    let signers := if requiresInputSignatures then ownerSigners else [payer]
    let (signerPkHashes, ownerHashes) ← signerHashes hashv ownerHashes [] signers
    pure ({ inputs with
      signerPkHashes
      assignments := inputs.assignments ||| assignedOwnerSigners }, ownerHashes)

def fillOutputOwnerPkHashes (hashv : Hashv) (mode : OutputOwnerMode)
    (resolvedOutputs : List ResolvedOutput) (ownerHashes : OwnerHashCache)
    (inputs : TransactProofInputs) : Except ProgramError TransactProofInputs :=
  if maxOutputs < resolvedOutputs.length then
    .error (.custom .invalidTransactShape)
  else do
    let hashes ← outputOwnerHashes hashv mode ownerHashes resolvedOutputs
    pure { inputs with
      outputOwnerPkHashes := hashes ++ List.replicate (maxOutputs - hashes.length) 0
      assignments := inputs.assignments ||| assignedOutputOwners }

def assignPublicAmountsAndAssets (hashv : Hashv) (transfers : List InterfaceTransfer)
    (settlements : List Settlement) (numPublicAssetSlots : Nat) (inputs : TransactProofInputs) :
    Except ProgramError TransactProofInputs := do
  let slots ← publicSlots hashv transfers settlements numPublicAssetSlots
  pure { inputs with
    publicSlotAssets := slots.map (·.1) ++ List.replicate (nPublicSlots - slots.length) 0
    publicSlotAmounts := slots.map (·.2) ++ List.replicate (nPublicSlots - slots.length) 0
    assignments := inputs.assignments ||| assignedPublicTransfers }

end TransactProofInputs

/-! ### The signer chain -/

/-- `SIGNER_ZERO_SUFFIX_CHAINS`: entry `k` is the chain over `k + 1` zeros. -/
def signerZeroSuffixChains : List Bytes32 := [
  0x0000000000000000000000000000000000000000000000000000000000000000#256,
  0x2098f5fb9e239eab3ceac3f27b81e481dc3124d55ffed523a839ee8446b64864#256,
  0x1530572d8faf83d47bb6400a96237d6e9d1db8f3ef40e8670888fb9d65380ac8#256,
  0x01cbcc842970c5b05d881e0f171822a7088ca3d11efd0aac745ee01303e13ee8#256,
  0x235f18006fbf4efcc6fdf3c32c8c5e913d2488ce1a06d986e9191cc9b06539a7#256,
  0x2bd89a7b00c5081812f1ddaf86331f3260787a325c8ae3ced9e4c7ee3fb59b6b#256,
  0x2a3d8e02bf0a4262e20d41c497c8f6c001f0a2c933bf13cf4c56632ea2600c9e#256,
  0x256ea2ccdbd9db3a90bb375d35825a6e10f64099830726e5754fb2f6abedeb49#256,
  0x19319f3dae9b251f799710967d1874ade7d4014bd8cd1e11e14dfcded1664e4d#256,
  0x015762931450d9ecf2aa6a99370db5d64c9b5062d3f26d6e6603bd45ff1ba2b6#256,
  0x28fa185f05ba7d366b9b6fb4790f8cc57cbf78a916cedd62e6e9756e6eaa11e2#256,
  0x20dfd401e43cbd144477826157606b1e97e144f81eee2cced0db90bb60f5ef9d#256,
  0x2c50eb61ffee84a9aedfa1c8ef70ada4ffe8f851df883bf305f10d3625f98505#256,
  0x2811f8c5b1187690a02c6044451e1532b5f20cbdd6392e1af2f7901efe614efb#256,
  0x13825e8d559c090f2ad04766c2b4a81e3c4e62cb785d8514f7c2a25c5793ab4e#256,
  0x2de9492f0f511e3da54f6a90cf5ed139a751e9b4cc735d37328ce8b01188f0cc#256,
  0x06c81a6f88da1a29091c960feb2bf67cd3903e8c433b123d3f48603644ef5f11#256,
  0x12b8fd8c9efa044662378dc95b636411683e3b656961d1557ad1de048e508018#256,
  0x21db751f759abd291a9ae51f77e182359f88518fa9b35b1f0f6c44c16952dd92#256,
  0x19c9ee3a9d027d02189418a31f70f69910d854992578467d2ec7341f6adaaeda#256,
  0x081e209a563c9d8c1922f956ad4c711fa70b332020cd65697ff02393ece32e3a#256,
  0x2f3b1090017b239c3411e3ce2f3b4be976edb14c451e1ba193721a93cb3104cf#256,
  0x1dd8f2c538ee091c3210fa473e58db85c6c204f35b8094b1924920f4d3dac1c8#256,
  0x1f63dce7f52752c1d54f14d65b714190eb9ec96817deaef9a41dc8a2e5ee669e#256,
  0x19553058d6df21ff0f785ebd5aaf6fb041a899782edea630cee4a2c6bbe581f9#256,
  0x2723a02b5d5cb820b75d2af2a5aead037d0a1925c72e2b33a0a7bba37c888953#256,
  0x10509bd896793017dfe2988bd4f299e1678d57c898155369f12a51a6080fc37b#256,
  0x301a0f5ffe0bb8a71129dcfdd94f14d53d49ea476b248f3e6883094a9e6c4325#256,
  0x1ab9fd70903c6563373e1d4155b6e8fc79089a1bcce7d7d3ee71d1e4ccae2c57#256]

/-- The table holds what it was generated from. -/
def DerivesSignerZeroSuffixChains (hashv : Hashv) : Prop :=
  ∀ k suffix chain, signerZeroSuffixChains[k]? = some suffix →
    signerZeroSuffixChains[k + 1]? = some chain → hashv [0, suffix] = .ok chain

/-- The fold of the signers from the right, onto the chain over the zeros behind them. -/
def fixedSignerHashChain (hashv : Hashv) (uniqueSignerPkHashes : List Bytes32) (width : Nat) :
    Except ProgramError Bytes32 :=
  let fold (chain : Bytes32) (hashes : List Bytes32) : Except ProgramError Bytes32 :=
    match absorbRight hashv chain hashes with
    | .ok chain => .ok chain
    | .error _ => .error (.custom .transactProofVerificationFailed)
  if width = 0 ∨ signerZeroSuffixChains.length < width ∨ width < uniqueSignerPkHashes.length then
    .error (.custom .invalidTransactShape)
  else if uniqueSignerPkHashes.length = width then
    match uniqueSignerPkHashes.reverse with
    | [] => .error (.custom .invalidTransactShape)
    | last :: hashes => fold last hashes
  else
    match signerZeroSuffixChains[width - uniqueSignerPkHashes.length - 1]? with
    | none => .error (.custom .invalidTransactShape)
    | some suffix => fold suffix uniqueSignerPkHashes.reverse

/-! ### The public input hash -/

def hashed {α : Type} (result : Except HasherError α) : Except ProgramError α :=
  match result with
  | .ok a => .ok a
  | .error e => .error (.hasher e)

/-- The digest that a signature inside the proof is over. -/
def messageFields (hashv : Hashv) (sha256 : Sha256) (ix : TransactIxData)
    (derived : TransactProofInputs) : Except ProgramError (List Bytes32) :=
  if ix.circuit.hasMessageHash then
    match sha256 (writeBytes32 ix.privateTxHash ++ writeBytes32 derived.externalDataHash) with
    | .error _ => .error (.custom .transactProofVerificationFailed)
    | .ok digest => do
      let field ← hashed (hashBytes hashv digest)
      pure [field]
  else
    pure []

/-- The owner whose signature is inside the proof. -/
def eddsaOwnerFields (hashv : Hashv) (circuit : CircuitId) : Except ProgramError (List Bytes32) :=
  match circuit.eddsaOwnerPk with
  | none => pure []
  | some ownerPk => do
    let identity ← hashed (solanaOwnerIdentity hashv ownerPk)
    pure [identity]

def defaultOwnerFields (hashv : Hashv) (circuit : CircuitId) : Except ProgramError (List Bytes32) :=
  if circuit.isAnonymous then
    match circuit.defaultOwnerTag with
    | none => pure [0]
    | some owner => do
      let identity ← hashed (solanaOwnerIdentity hashv owner)
      pure [identity]
  else
    pure []

def publicSlotFields : List (Bytes32 × Int) → Except ProgramError (List Bytes32)
  | [] => pure []
  | (asset, amount) :: slots => do
    let amount ← amountField amount
    let fields ← publicSlotFields slots
    pure (asset :: amount :: fields)

/-- A spend without a cache publishes an empty selection. -/
def cachedInputFieldsOf (circuit : CircuitId) (derived : TransactProofInputs) :
    Except ProgramError (Bytes32 × Bytes32) :=
  match derived.cachedInputs with
  | some fields => .ok fields
  | none => hashed (emptyCachedInputFields circuit.numInputs)

/-- The output owners and the cached inputs, which the authority rail does not publish. -/
def ownerFields (hashv : Hashv) (circuit : CircuitId) (derived : TransactProofInputs) :
    Except ProgramError (List Bytes32) :=
  if circuit.outputOwnerMode ≠ .none then do
    let owners ← hashed (createPaddedRightHashChain4 hashv
      (derived.outputOwnerPkHashes.take circuit.numOutputs) circuit.numOutputs)
    let cachedInputs ← cachedInputFieldsOf circuit derived
    pure [owners, cachedInputs.1, cachedInputs.2]
  else
    pure []

def signerChainWidth (circuit : CircuitId) : Nat :=
  if circuit.requiresInputSignatures then signerWidth circuit.numInputs else 1

def publicInputFields (hashv : Hashv) (sha256 : Sha256) (ix : TransactIxData)
    (derived : TransactProofInputs) : Except ProgramError (List Bytes32) := do
  let nIn := ix.circuit.numInputs
  let nOut := ix.circuit.numOutputs
  let nSlots := ix.circuit.numPublicAssetSlots
  if derived.outputOwnerPkHashes.length < nOut ∨ derived.publicSlotAssets.length < nSlots ∨
      derived.publicSlotAmounts.length < nSlots then
    .error (.custom .invalidTransactShape)
  else
    let nullifierChain ← hashed
      (createPaddedRightHashChain4 hashv (ix.inputs.map (·.nullifierHash)) nIn)
    let outputChain ← hashed (createPaddedRightHashChain4 hashv (ix.outputs.map (·.utxoHash)) nOut)
    let treeSlots ← hashed (populatedTreeSlotsHashChain hashv derived.treeSlots)
    let message ← messageFields hashv sha256 ix derived
    let eddsaOwner ← eddsaOwnerFields hashv ix.circuit
    let defaultOwner ← defaultOwnerFields hashv ix.circuit
    let slots ← publicSlotFields
      ((derived.publicSlotAssets.take nSlots).zip (derived.publicSlotAmounts.take nSlots))
    let signers ← fixedSignerHashChain hashv derived.signerPkHashes (signerChainWidth ix.circuit)
    let owners ← ownerFields hashv ix.circuit derived
    pure ([nullifierChain, outputChain, treeSlots, derived.outputTreeId, ix.privateTxHash] ++ message ++
      eddsaOwner ++ defaultOwner ++ [derived.externalDataHash] ++ slots ++
      [derived.ringProgramId, signers, derived.inputFlags] ++ owners)

def publicInputHash (hashv : Hashv) (sha256 : Sha256) (ix : TransactIxData)
    (derived : TransactProofInputs) : Except ProgramError Bytes32 := do
  let fields ← publicInputFields hashv sha256 ix derived
  hashed (createHashChain4 hashv fields)

end Zolana.Verify
