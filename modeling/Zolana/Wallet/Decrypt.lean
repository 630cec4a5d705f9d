import Zolana.Wallet.Serialization

/-!
# The scan of a wallet

`indexer_types.rs` and the part of `decrypt.rs` that decodes an output into utxos of the wallet.
-/

namespace Zolana.Wallet

open Codec

/-! ### What an indexer reports -/

structure OutputContext where
  hash : Bytes32
  treeId : UInt16
  leafIndex : UInt64
  deriving DecidableEq, Repr

structure OutputSlot where
  viewTag : Bytes32
  outputContext : OutputContext
  payload : List UInt8
  deriving DecidableEq, Repr

def OutputSlot.outputData (slot : OutputSlot) : Option OutputDataEncoding :=
  whole OutputDataEncoding.read slot.payload

/-- `ShieldedTransaction`, without its messages. -/
structure ShieldedTransaction where
  slot : UInt64
  /-- 64 bytes. -/
  txSignature : BitVec 512
  eventIndex : Option UInt16
  txViewingPk : Option X25519Pubkey
  /-- 16 bytes. -/
  salt : Option (BitVec 128)
  outputSlots : List OutputSlot
  nullifiers : List Bytes32
  proofless : Bool
  ringConfig : Option Address
  ringProgramId : Option Address
  deriving DecidableEq, Repr

/-! ### Decoding a slot -/

structure DecodedSlot where
  utxos : List Utxo
  dataHash : Option Bytes32
  ringDataHash : Option Bytes32
  deriving DecidableEq, Repr

/-- A plaintext that rebuilds no note skips its slot, except a registry miss. -/
def rebuilt : Except TransactionError (List Utxo) → Except TransactionError (Option (List Utxo))
  | .ok utxos => .ok (some utxos)
  | .error (.unknownAsset assetId) => .error (.unknownAsset assetId)
  | .error (.unknownMint mint) => .error (.unknownMint mint)
  | .error _ => .ok none

section Decode

variable (hashv : Hashv) (keys : ShieldedKeys) (address : ShieldedAddress) (tx : ShieldedTransaction)

/-- The arm of `EncryptedScheme::Proofless`. -/
def decodeProofless (body : List UInt8) (cx : OwnerCx) : Except TransactionError (Option DecodedSlot) :=
  match ProoflessOutput.deserialize body with
  | .error _ => .ok none
  | .ok plaintext => do
    let ownerHash ← (address.ownerHash hashv).mapError .keypair
    if plaintext.owner ≠ ownerHash then pure none
    else do
      let utxos ← rebuilt (plaintext.intoUtxos cx)
      pure (utxos.map fun utxos => ⟨utxos, plaintext.dataHash, plaintext.ringDataHash⟩)

/-- The arm of `EncryptedScheme::PlaintextTransfer`. -/
def decodePlaintextTransfer (body : List UInt8) (cx : OwnerCx) : Except TransactionError (Option DecodedSlot) :=
  match TransferPlaintextUtxos.deserialize body with
  | .error _ => .ok none
  | .ok plaintext => do
    let utxos ← rebuilt (plaintext.intoUtxos hashv cx)
    pure (utxos.map fun utxos => ⟨utxos, none, none⟩)

def trialDecrypt (requests : List DecryptRequest) : Except TransactionError (Option (List (List UInt8))) :=
  if requests.isEmpty then .ok none
  else match keys.decrypt requests with
    | .error (.keypair .nonContributoryKey) => .ok none
    | .error error => .error error
    | .ok plaintexts =>
      if plaintexts.length ≠ requests.length then
        .error (.incompleteDecryption plaintexts.length requests.length)
      else .ok (some plaintexts)

/-- The first of the plaintexts that rebuilds a note. -/
def firstConfidential (cx : OwnerCx) : List (List UInt8) → Except TransactionError (Option DecodedSlot)
  | [] => .ok none
  | bytes :: plaintexts =>
    match ConfidentialOutputPlaintext.deserialize bytes with
    | .error _ => firstConfidential cx plaintexts
    | .ok plaintext => do
      match ← rebuilt (plaintext.intoUtxos cx) with
      | none => firstConfidential cx plaintexts
      | some utxos => pure (some ⟨utxos, none, none⟩)

/-- The arms of the confidential schemes. -/
def decodeConfidential (body : List UInt8) (slotIndex : Nat) (cx : OwnerCx) :
    Except TransactionError (Option DecodedSlot) :=
  match splitEmbeddedPk body with
  | .error _ => .ok none
  | .ok (viewingPubkey, ciphertext) =>
    if viewingPubkey ∉ keys.viewingPublicKeys then .ok none
    else match tx.txViewingPk, tx.salt with
      | some txViewingPubkey, some salt => do
        match ← trialDecrypt keys [⟨ciphertext, viewingPubkey, txViewingPubkey, salt, slotIndex, .utxo⟩] with
        | none => pure none
        | some plaintexts => firstConfidential cx plaintexts
      | _, _ => .ok none

def deriveMergeOutput (firstNullifier : Bytes32) : Except TransactionError (Bytes32 × Bytes32) := do
  let derived ← keys.derive [.mergeOutputKey firstNullifier, .mergeOutputBlinding firstNullifier]
  match derived with
  | [key, blinding] => pure (key, blinding)
  | _ => .error (.incompleteDerivation derived.length 2)

/-- The end of `decode_merge`: only an output that hashes to its commitment has its mint looked up. -/
def rebuildMerge (slot : OutputSlot) (cx : OwnerCx) (ringDataHash : Option Bytes32)
    (plaintext : MergeOutputPlaintext) (blinding : Bytes32) : Except TransactionError (Option DecodedSlot) := do
  let utxo := plaintext.intoUtxo cx.owner ⟨plaintext.mint, 0⟩ blinding tx.ringProgramId
  let hash ← utxo.hash hashv address.nullifierPubkey 0 (ringDataHash.getD 0) slot.outputContext.treeId
  if hash ≠ slot.outputContext.hash then pure none
  else do
    let asset ← cx.assets.mint plaintext.mint
    pure (some ⟨[{ utxo with asset }], none, ringDataHash⟩)

def decodeMerge (slot : OutputSlot) (blob : List UInt8) (cx : OwnerCx) (ring : Bool) :
    Except TransactionError (Option DecodedSlot) :=
  match blob with
  | [] => .ok none
  | schemeByte :: body =>
    if EncryptedScheme.fromByte schemeByte ≠ .ok .merge then .ok none
    else match splitMergeOutputBody body with
      | none => .ok none
      | some (ringDataHash, encrypted) =>
        if ringDataHash.isSome ≠ ring ∨ tx.ringProgramId.isSome ≠ ring then .ok none
        else match tx.nullifiers.head? with
          | none => .ok none
          | some firstNullifier => do
            let (key, blinding) ← deriveMergeOutput keys firstNullifier
            match MergeOutputPlaintext.decrypt hashv encrypted key with
            | .error _ => pure none
            | .ok plaintext => rebuildMerge hashv address tx slot cx ringDataHash plaintext blinding

/-- The context that `decode_slot` gives every scheme. -/
def ownerCx (assets : AssetRegistry) : OwnerCx where
  owner := address.signingPubkey
  assets
  ringProgramId := none
  firstNullifier := tx.nullifiers.head?

def decodeSlot (slot : OutputSlot) (slotIndex : Nat) (assets : AssetRegistry) :
    Except TransactionError (Option DecodedSlot) :=
  let cx := ownerCx address tx assets
  match slot.outputData with
  | none => .ok none
  | some (.plaintext blob) =>
    match blob with
    | [] => .ok none
    | schemeByte :: body =>
      match EncryptedScheme.fromByte schemeByte with
      | .ok .proofless => decodeProofless hashv address body cx
      | .ok .plaintextTransfer => decodePlaintextTransfer hashv body cx
      | _ => .ok none
  | some (.encrypted blob) =>
    match blob with
    | [] => .ok none
    | schemeByte :: body =>
      match EncryptedScheme.fromByte schemeByte with
      | .ok .merge => decodeMerge hashv keys address tx slot blob cx true
      | .ok .confidential => decodeConfidential keys tx body slotIndex cx
      | .ok .ringConfidential => decodeConfidential keys tx body slotIndex cx
      | _ => .ok none
  | some (.verifiablyEncrypted blob) => decodeMerge hashv keys address tx slot blob cx false

end Decode

end Zolana.Wallet
