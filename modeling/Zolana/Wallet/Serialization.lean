import Zolana.Wallet.MergeOutput

/-!
# What an output publishes

`spr_event` and `serialization/`. The data of an output is plain, encrypted to a viewing key, or encrypted by the
proof of a merge, and its first byte names a scheme. The deposits are in Borsh, the transfers in Wincode.
-/

namespace Zolana.Wallet

open Codec

/-! ### Encodings and schemes -/

inductive OutputDataEncoding where
  | plaintext (blob : List UInt8)
  | encrypted (blob : List UInt8)
  | verifiablyEncrypted (blob : List UInt8)
  deriving DecidableEq, Repr

def borshBytes : Reader (List UInt8) := vec 4 byte

def OutputDataEncoding.read : Reader OutputDataEncoding := do
  let tag ← byte
  if tag = 0 then
    let blob ← borshBytes
    pure (.plaintext blob)
  else if tag = 1 then
    let blob ← borshBytes
    pure (.encrypted blob)
  else if tag = 2 then
    let blob ← borshBytes
    pure (.verifiablyEncrypted blob)
  else
    failure

def OutputDataEncoding.write : OutputDataEncoding → List UInt8
  | plaintext blob => 0 :: writeVec 4 writeByte blob
  | encrypted blob => 1 :: writeVec 4 writeByte blob
  | verifiablyEncrypted blob => 2 :: writeVec 4 writeByte blob

inductive EncryptedScheme where
  | proofless
  | anonymousRecipient
  | anonymousSender
  | confidential
  | ringConfidential
  | merge
  | plaintextTransfer
  | ringDeposit
  deriving DecidableEq, Repr

namespace EncryptedScheme

def asByte : EncryptedScheme → UInt8
  | proofless => 0
  | anonymousRecipient => 1
  | anonymousSender => 2
  | confidential => 3
  | ringConfidential => 4
  | merge => 6
  | plaintextTransfer => 7
  | ringDeposit => 8

def fromByte (byte : UInt8) : Except TransactionError EncryptedScheme :=
  if byte = 0 then .ok proofless
  else if byte = 1 then .ok anonymousRecipient
  else if byte = 2 then .ok anonymousSender
  else if byte = 3 then .ok confidential
  else if byte = 4 then .ok ringConfidential
  else if byte = 6 then .ok merge
  else if byte = 7 then .ok plaintextTransfer
  else if byte = 8 then .ok ringDeposit
  else .error (.badDiscriminator byte)

theorem fromByte_asByte (scheme : EncryptedScheme) : fromByte scheme.asByte = .ok scheme := by
  cases scheme <;> rfl

end EncryptedScheme

/-- `encode_merge_output_data`, without the prefix of a ring merge. -/
def encodeMergeOutputData (salt : BitVec 128) (ciphertext : MergeOutputCiphertext) : List UInt8 :=
  OutputDataEncoding.write (.verifiablyEncrypted
    (EncryptedScheme.merge.asByte :: writeMergeOutputBody salt ciphertext))

structure OwnerCx where
  owner : PublicKey
  assets : AssetRegistry
  ringProgramId : Option Address
  firstNullifier : Option Bytes32

def readExact {α : Type} (reader : Reader α) (bytes : List UInt8) : Except TransactionError α :=
  match whole reader bytes with
  | some value => .ok value
  | none => .error .deserialize

/-! ### Deposits -/

structure ProoflessOutput where
  owner : Bytes32
  blinding : Bytes32
  asset : Bytes32
  amount : UInt64
  dataHash : Option Bytes32
  utxoData : Option (List UInt8)
  ringProgramId : Option Bytes32
  ringDataHash : Option Bytes32
  ringData : Option (List UInt8)
  memo : Option (List UInt8)
  deriving DecidableEq, Repr

namespace ProoflessOutput

def read : Reader ProoflessOutput := do
  let owner ← readBytes32
  let blinding ← readBytes32
  let asset ← readBytes32
  let amount ← u64
  let dataHash ← option readBytes32
  let utxoData ← option borshBytes
  let ringProgramId ← option readBytes32
  let ringDataHash ← option readBytes32
  let ringData ← option borshBytes
  let memo ← option borshBytes
  pure ⟨owner, blinding, asset, amount, dataHash, utxoData, ringProgramId, ringDataHash, ringData, memo⟩

def deserialize (bytes : List UInt8) : Except TransactionError ProoflessOutput := readExact read bytes

/-- The records in their canonical order. -/
def data (output : ProoflessOutput) : Data :=
  ⟨(output.ringData.map DataRecord.ringData).toList ++ (output.utxoData.map DataRecord.utxoData).toList ++
    (output.memo.map DataRecord.memo).toList⟩

def intoUtxos (output : ProoflessOutput) (cx : OwnerCx) : Except TransactionError (List Utxo) := do
  let asset ← cx.assets.mint output.asset
  pure [{ owner := cx.owner, asset, amount := output.amount, blinding := output.blinding,
          ringProgramId := output.ringProgramId, data := output.data }]

end ProoflessOutput

/-! ### Confidential outputs -/

/-- `DataRecord` in Wincode. -/
def DataRecord.read : Reader DataRecord := do
  let tag ← byte
  if tag = 1 then
    let bytes ← vec 2 byte
    pure (.ringData bytes)
  else if tag = 2 then
    let bytes ← vec 2 byte
    pure (.utxoData bytes)
  else if tag = 3 then
    let bytes ← vec 2 byte
    pure (.memo bytes)
  else
    failure

def Data.read : Reader Data := do
  let records ← vec 1 DataRecord.read
  pure ⟨records⟩

structure ConfidentialOutputPlaintext where
  assetId : UInt64
  amount : UInt64
  blinding : Bytes32
  ringProgramId : Option Address
  data : Data
  deriving DecidableEq, Repr

namespace ConfidentialOutputPlaintext

def read : Reader ConfidentialOutputPlaintext := do
  let assetId ← u64
  let amount ← u64
  let blinding ← readBytes32
  let ringProgramId ← option readBytes32
  let data ← Data.read
  pure ⟨assetId, amount, blinding, ringProgramId, data⟩

def deserialize (bytes : List UInt8) : Except TransactionError ConfidentialOutputPlaintext := do
  let parsed ← readExact read bytes
  parsed.data.validate
  pure parsed

def intoUtxo (plaintext : ConfidentialOutputPlaintext) (owner : PublicKey) (assets : AssetRegistry) :
    Except TransactionError Utxo :=
  if plaintext.data.ringData.isSome ∧ plaintext.ringProgramId.isNone then .error .missingRingProgramId
  else do
    let asset ← assets.resolve plaintext.assetId
    pure { owner, asset, amount := plaintext.amount, blinding := plaintext.blinding,
           ringProgramId := plaintext.ringProgramId, data := plaintext.data }

def intoUtxos (plaintext : ConfidentialOutputPlaintext) (cx : OwnerCx) : Except TransactionError (List Utxo) := do
  let utxo ← plaintext.intoUtxo cx.owner cx.assets
  pure [utxo]

end ConfidentialOutputPlaintext

def splitEmbeddedPk (body : List UInt8) : Except TransactionError (X25519Pubkey × List UInt8) :=
  if body.length < x25519PubkeyLen then .error (.invalidLength x25519PubkeyLen body.length)
  else do
    let pubkey ← (X25519Pubkey.fromBytes (body.take x25519PubkeyLen)).mapError .keypair
    pure (pubkey, body.drop x25519PubkeyLen)

/-! ### Plaintext transfers -/

/-- `PublicKeySchema`, of the 34 bytes that `PublicKey::from_bytes` accepts. -/
def PublicKey.read : Reader PublicKey := do
  let tag ← byte
  let bytes ← readBytes32
  let last ← byte
  if last ≠ 0 then failure
  else if tag = 1 then pure (.key .ed25519 bytes)
  else if tag = 2 then pure (.key .pda bytes)
  else failure

structure TransferPlaintextSplChange where
  amount : UInt64
  assetId : UInt64
  deriving DecidableEq, Repr

structure TransferPlaintextSender where
  ownerPubkey : PublicKey
  spl : Option TransferPlaintextSplChange
  solAmount : Option UInt64
  splData : Data
  solData : Data
  deriving DecidableEq, Repr

structure TransferPlaintextRecipient where
  ownerPubkey : PublicKey
  assetId : UInt64
  amount : UInt64
  data : Data
  deriving DecidableEq, Repr

structure TransferPlaintextUtxos where
  typePrefix : UInt8
  blindingSeed : Bytes32
  sender : Option TransferPlaintextSender
  recipientSlots : List TransferPlaintextRecipient
  deriving DecidableEq, Repr

def TransferPlaintextSplChange.read : Reader TransferPlaintextSplChange := do
  let amount ← u64
  let assetId ← u64
  pure ⟨amount, assetId⟩

def TransferPlaintextSender.read : Reader TransferPlaintextSender := do
  let ownerPubkey ← PublicKey.read
  let spl ← option TransferPlaintextSplChange.read
  let solAmount ← option u64
  let splData ← Data.read
  let solData ← Data.read
  pure ⟨ownerPubkey, spl, solAmount, splData, solData⟩

def TransferPlaintextRecipient.read : Reader TransferPlaintextRecipient := do
  let ownerPubkey ← PublicKey.read
  let assetId ← u64
  let amount ← u64
  let data ← Data.read
  pure ⟨ownerPubkey, assetId, amount, data⟩

def domainTransactOutputBlindingV1 : Bytes32 := 0x54584f42

def deriveTransactOutputBlinding (hashv : Hashv) (firstNullifier seed : Bytes32) (outputIndex : Nat) :
    Except TransactionError Bytes32 :=
  hashed (hashv [domainTransactOutputBlindingV1, firstNullifier, seed, BitVec.ofNat 256 outputIndex])

def maxOutputSlots : Nat := 16

structure ChangeSlots where
  spl : Nat
  sol : Nat
  recipients : Nat

def changeSlots (splPresent solPresent : Bool) : ChangeSlots :=
  let sol := splPresent.toNat
  ⟨0, sol, sol + solPresent.toNat⟩

namespace TransferPlaintextSender

def changeSlots (sender : TransferPlaintextSender) : ChangeSlots :=
  Wallet.changeSlots sender.spl.isSome sender.solAmount.isSome

/-- The change in another asset than SOL. -/
def splUtxo (hashv : Hashv) (sender : TransferPlaintextSender) (firstNullifier blindingSeed : Bytes32)
    (assets : AssetRegistry) (ringProgramId : Option Address) : Except TransactionError (List Utxo) :=
  match sender.spl with
  | none => .ok []
  | some spl => do
    let asset ← assets.resolve spl.assetId
    let blinding ← deriveTransactOutputBlinding hashv firstNullifier blindingSeed sender.changeSlots.spl
    let ringProgramId ← resolveRingProgramId ringProgramId sender.splData
    pure [{ owner := sender.ownerPubkey, asset, amount := spl.amount, blinding, ringProgramId,
            data := sender.splData }]

def solUtxo (hashv : Hashv) (sender : TransferPlaintextSender) (firstNullifier blindingSeed : Bytes32)
    (ringProgramId : Option Address) : Except TransactionError (List Utxo) :=
  match sender.solAmount with
  | none => .ok []
  | some solAmount => do
    let blinding ← deriveTransactOutputBlinding hashv firstNullifier blindingSeed sender.changeSlots.sol
    let ringProgramId ← resolveRingProgramId ringProgramId sender.solData
    pure [{ owner := sender.ownerPubkey, asset := .sol, amount := solAmount, blinding, ringProgramId,
            data := sender.solData }]

/-- `into_indexed_utxos`, without the view tags. -/
def intoUtxos (hashv : Hashv) (sender : TransferPlaintextSender) (firstNullifier blindingSeed : Bytes32)
    (assets : AssetRegistry) (ringProgramId : Option Address) : Except TransactionError (List Utxo) :=
  if sender.spl.isNone ∧ !sender.splData.isEmpty then .error .dataWithoutOutput
  else if sender.solAmount.isNone ∧ !sender.solData.isEmpty then .error .dataWithoutOutput
  else do
    let _ ← sender.ownerPubkey.confidentialViewTag.mapError .keypair
    let spl ← sender.splUtxo hashv firstNullifier blindingSeed assets ringProgramId
    let sol ← sender.solUtxo hashv firstNullifier blindingSeed ringProgramId
    pure (spl ++ sol)

end TransferPlaintextSender

/-- `into_indexed_utxo`, without the view tag. -/
def TransferPlaintextRecipient.intoUtxo (recipient : TransferPlaintextRecipient) (blinding : Bytes32)
    (assets : AssetRegistry) (ringProgramId : Option Address) : Except TransactionError Utxo := do
  let _ ← recipient.ownerPubkey.confidentialViewTag.mapError .keypair
  let asset ← assets.resolve recipient.assetId
  let ringProgramId ← resolveRingProgramId ringProgramId recipient.data
  pure { owner := recipient.ownerPubkey, asset, amount := recipient.amount, blinding, ringProgramId,
         data := recipient.data }

namespace TransferPlaintextUtxos

def read : Reader TransferPlaintextUtxos := do
  let typePrefix ← byte
  let blindingSeed ← readBytes32
  let sender ← option TransferPlaintextSender.read
  let recipientSlots ← vec 1 TransferPlaintextRecipient.read
  pure ⟨typePrefix, blindingSeed, sender, recipientSlots⟩

def validate (plaintext : TransferPlaintextUtxos) : Except TransactionError Unit := do
  match plaintext.sender with
  | none => pure ()
  | some sender => do
    sender.splData.validate
    sender.solData.validate
  plaintext.recipientSlots.forM fun recipient => recipient.data.validate

def transferPlaintext : UInt8 := 4

def deserialize (bytes : List UInt8) : Except TransactionError TransferPlaintextUtxos := do
  let parsed ← readExact read bytes
  if parsed.typePrefix ≠ transferPlaintext then .error (.badDiscriminator parsed.typePrefix)
  else do
    parsed.validate
    pure parsed

def recipientUtxos (hashv : Hashv) (firstNullifier blindingSeed : Bytes32) (assets : AssetRegistry)
    (ringProgramId : Option Address) : Nat → List TransferPlaintextRecipient → Except TransactionError (List Utxo)
  | _, [] => .ok []
  | slot, recipient :: recipients =>
    if slot < maxOutputSlots then do
      let blinding ← deriveTransactOutputBlinding hashv firstNullifier blindingSeed slot
      let utxo ← recipient.intoUtxo blinding assets ringProgramId
      let utxos ← recipientUtxos hashv firstNullifier blindingSeed assets ringProgramId (slot + 1) recipients
      pure (utxo :: utxos)
    else .error .tooManyOutputs

/-- The utxos of the sender, who may have no change. -/
def senderUtxos (hashv : Hashv) (plaintext : TransferPlaintextUtxos) (firstNullifier : Bytes32)
    (assets : AssetRegistry) (ringProgramId : Option Address) : Except TransactionError (List Utxo) :=
  match plaintext.sender with
  | none => .ok []
  | some sender => sender.intoUtxos hashv firstNullifier plaintext.blindingSeed assets ringProgramId

def recipientBase (plaintext : TransferPlaintextUtxos) : Nat :=
  match plaintext.sender with
  | none => 0
  | some sender => sender.changeSlots.recipients

def intoUtxos (hashv : Hashv) (plaintext : TransferPlaintextUtxos) (cx : OwnerCx) :
    Except TransactionError (List Utxo) :=
  match cx.firstNullifier with
  | none => .error .missingFirstNullifier
  | some firstNullifier => do
    let change ← plaintext.senderUtxos hashv firstNullifier cx.assets cx.ringProgramId
    let received ← recipientUtxos hashv firstNullifier plaintext.blindingSeed cx.assets cx.ringProgramId
      plaintext.recipientBase plaintext.recipientSlots
    pure (change ++ received)

end TransferPlaintextUtxos

end Zolana.Wallet
