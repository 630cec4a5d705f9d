import Zolana.Hasher.Primitives
import Zolana.Lib.Bytes
import Zolana.Pool.Ledger

/-!
# The keys of a wallet

`sdk-libs/keypair` and `keys.rs`. A holder of keys answers batches of requests; `LocalShieldedKeys` answers
them from keys held in the process. X25519 and the cipher under the shared secret are not part of the
repository and enter as a parameter.
-/

namespace Zolana.Wallet

/-! ### Errors -/

/-- `KeypairError`, with the variants a wallet sees. Poseidon's carries the error and not its code. -/
inductive KeypairError where
  | nonContributoryKey
  | invalidPublicKey
  | invalidSignatureType (byte : UInt8)
  | poseidon (error : HasherError)
  deriving DecidableEq, Repr

/-- `TransactionError`, with the variants that the modelled functions return, and the texts left out. -/
inductive TransactionError where
  | badDiscriminator (byte : UInt8)
  | invalidLength (expected actual : Nat)
  | deserialize
  | unknownAsset (assetId : UInt64)
  | unknownMint (mint : Address)
  | reservedAssetId (assetId : UInt64)
  | duplicateAssetId (assetId : UInt64)
  | duplicateMint (mint : Address)
  | dataWithoutOutput
  | tooManyOutputs
  | duplicateDataRecord
  | nonCanonicalDataOrder
  | missingRingProgramId
  | nonCanonicalMergeCiphertext (index : Nat)
  | invalidMergeOutputPlaintext (index : Nat)
  | missingFirstNullifier
  | keypair (error : KeypairError)
  | unknownViewingKey
  | incompleteDerivation (got want : Nat)
  | incompleteDecryption (got want : Nat)
  | zeroSpendAmount
  | noSpendableBalance (asset : Address)
  | selectedBalanceOverflow
  | insufficientBalance (requested available : Nat)
  | tooManyInputTrees (got max : Nat)
  | spendNeedsMerge (amount maxInputs : Nat)
  | spendNeedsExcludedUtxos (amount : Nat)
  deriving DecidableEq, Repr

/-- `From<HasherError>`. -/
def hashed {α : Type} (result : Except HasherError α) : Except TransactionError α :=
  result.mapError fun error => .keypair (.poseidon error)

/-! ### Public keys -/

inductive Curve where
  | ed25519
  | pda
  deriving DecidableEq, Repr

/-- The 34 bytes of an owner: a curve, a key and a zero byte, or the zeros of a padding owner. -/
inductive PublicKey where
  | zeroed
  | key (curve : Curve) (bytes : Bytes32)
  deriving DecidableEq, Repr

namespace PublicKey

def confidentialViewTag : PublicKey → Except KeypairError Bytes32
  | zeroed => .error (.invalidSignatureType 0)
  | key _ bytes => .ok bytes

def ownerProofInputHash (hashv : Hashv) (pubkey : PublicKey) : Except KeypairError Bytes32 := do
  let tag ← pubkey.confidentialViewTag
  (solanaOwnerIdentity hashv tag).mapError .poseidon

end PublicKey

def ownerHash (hashv : Hashv) (signingPubkey : PublicKey) (nullifierPubkey : Bytes32) :
    Except KeypairError Bytes32 := do
  let pf ← signingPubkey.ownerProofInputHash hashv
  (hashv [pf, nullifierPubkey]).mapError .poseidon

def x25519Modulus : Nat := 2 ^ 255 - 19

/-- `0x04 || u` with a canonical little-endian `u`. -/
structure X25519Pubkey where
  u : Fin x25519Modulus
  deriving DecidableEq, Repr

def x25519KeyTag : UInt8 := 4

def x25519PubkeyLen : Nat := 33

def X25519Pubkey.fromBytes : List UInt8 → Except KeypairError X25519Pubkey
  | [] => .error .invalidPublicKey
  | tag :: u =>
    if tag ≠ x25519KeyTag then .error .invalidPublicKey
    else if h : Bytes.ofLE u < x25519Modulus then .ok ⟨⟨Bytes.ofLE u, h⟩⟩
    else .error .invalidPublicKey

structure ShieldedAddress where
  signingPubkey : PublicKey
  nullifierPubkey : Bytes32
  viewingPubkey : X25519Pubkey
  deriving DecidableEq, Repr

def ShieldedAddress.ownerHash (hashv : Hashv) (address : ShieldedAddress) : Except KeypairError Bytes32 :=
  Wallet.ownerHash hashv address.signingPubkey address.nullifierPubkey

/-! ### The nullifier key -/

structure NullifierKey where
  /-- 31 bytes. -/
  secret : BitVec 248
  deriving DecidableEq, Repr

namespace NullifierKey

variable (hashv : Hashv) (nullifierKey : NullifierKey)

/-- The secret right-aligned in a field element. -/
def secretField : Bytes32 := nullifierKey.secret.setWidth 256

def pubkey : Except KeypairError Bytes32 := (hashv [nullifierKey.secretField]).mapError .poseidon

def nullifier (utxoHash blinding : Bytes32) : Except KeypairError Bytes32 :=
  (hashv [utxoHash, blinding, nullifierKey.secretField]).mapError .poseidon

end NullifierKey

section MergeBlinding

variable (hashv : Hashv) (nullifierKey : NullifierKey) (firstNullifier : Bytes32)

def domainMergeOutputBlindingV1 : Bytes32 := 0x544d4f42

def domainMergeDummyNullifier : Bytes32 := 0x544d444e

def domainMergeOutputKey : Bytes32 := 0x544d4f4b

def domainMergeOutputCiphertext : Bytes32 := 0x544d4f43

def domainPrivateTxBlindingV1 : Bytes32 := 0x54585042

def mergeOutputKey : Except TransactionError Bytes32 :=
  hashed (hashv [domainMergeOutputKey, nullifierKey.secretField, firstNullifier])

def mergeOutputBlinding : Except TransactionError Bytes32 :=
  hashed (hashv [domainMergeOutputBlindingV1, nullifierKey.secretField, firstNullifier])

def mergePrivateTxBlinding : Except TransactionError Bytes32 :=
  hashed (hashv [domainPrivateTxBlindingV1, firstNullifier, nullifierKey.secretField])

def mergeDummyNullifier (slotIndex : UInt8) : Except TransactionError Bytes32 :=
  hashed (hashv [domainMergeDummyNullifier, nullifierKey.secretField, firstNullifier,
    BitVec.ofNat 256 slotIndex.toNat])

end MergeBlinding

/-! ### The requests of a wallet -/

inductive DecryptLabel where
  | utxo
  | ringDeposit
  deriving DecidableEq, Repr

structure DecryptRequest where
  ciphertext : List UInt8
  viewingPubkey : X25519Pubkey
  txViewingPubkey : X25519Pubkey
  /-- 16 bytes. -/
  salt : BitVec 128
  slotIndex : Nat
  label : DecryptLabel
  deriving DecidableEq, Repr

inductive DeriveRequest where
  | nullifier (utxoHash blinding : Bytes32)
  | mergeDummyNullifier (firstNullifier : Bytes32) (slotIndex : UInt8)
  | mergeOutputBlinding (firstNullifier : Bytes32)
  | mergePrivateTxBlinding (firstNullifier : Bytes32)
  | mergeOutputKey (firstNullifier : Bytes32)
  deriving DecidableEq, Repr

/-- `ShieldedKeys`, with what a scan asks. -/
structure ShieldedKeys where
  address : Except TransactionError ShieldedAddress
  viewingPublicKeys : List X25519Pubkey
  decrypt : List DecryptRequest → Except TransactionError (List (List UInt8))
  derive : List DeriveRequest → Except TransactionError (List Bytes32)

/-! ### Keys held in the process -/

/-- X25519, and the stream of the cipher that a shared secret keys. -/
structure Cipher where
  /-- The public key of a viewing secret. -/
  pubkey : Bytes32 → X25519Pubkey
  /-- The shared secret, and none where the peer contributes nothing. -/
  ecdh : Bytes32 → X25519Pubkey → Option Bytes32
  /-- The byte at a position, for a shared secret, the key of the transaction, the key of the recipient, a label,
  a salt and a slot. -/
  keystream : Bytes32 → X25519Pubkey → X25519Pubkey → DecryptLabel → BitVec 128 → Nat → Nat → UInt8

structure ViewingKey where
  secret : Bytes32
  deriving DecidableEq, Repr

namespace ViewingKey

variable (cipher : Cipher) (viewingKey : ViewingKey)

def pubkey : X25519Pubkey := cipher.pubkey viewingKey.secret

/-- `decrypt_payload`, under the label of a utxo or of a ring deposit. -/
def decryptPayload (request : DecryptRequest) : Except KeypairError (List UInt8) :=
  match cipher.ecdh viewingKey.secret request.txViewingPubkey with
  | none => .error .nonContributoryKey
  | some dh => .ok (request.ciphertext.mapIdx fun position byte =>
      byte ^^^ cipher.keystream dh request.txViewingPubkey (viewingKey.pubkey cipher) request.label request.salt
        request.slotIndex position)

end ViewingKey

/-- Keys that include the viewing key of the address, which is what `new` checks. -/
structure LocalShieldedKeys (cipher : Cipher) where
  address : ShieldedAddress
  viewing : List ViewingKey
  nullifier : NullifierKey
  holds_viewingPubkey : address.viewingPubkey ∈ viewing.map (ViewingKey.pubkey cipher)

namespace LocalShieldedKeys

variable {cipher : Cipher} (keys : LocalShieldedKeys cipher)

def viewingKey (pubkey : X25519Pubkey) : Except TransactionError ViewingKey :=
  match keys.viewing.find? fun key => key.pubkey cipher == pubkey with
  | some key => .ok key
  | none => .error .unknownViewingKey

def decryptOne (request : DecryptRequest) : Except TransactionError (List UInt8) := do
  let viewing ← keys.viewingKey request.viewingPubkey
  (viewing.decryptPayload cipher request).mapError .keypair

def deriveOne (hashv : Hashv) : DeriveRequest → Except TransactionError Bytes32
  | .nullifier utxoHash blinding => (keys.nullifier.nullifier hashv utxoHash blinding).mapError .keypair
  | .mergeDummyNullifier firstNullifier slotIndex =>
    Wallet.mergeDummyNullifier hashv keys.nullifier firstNullifier slotIndex
  | .mergeOutputBlinding firstNullifier => Wallet.mergeOutputBlinding hashv keys.nullifier firstNullifier
  | .mergePrivateTxBlinding firstNullifier => Wallet.mergePrivateTxBlinding hashv keys.nullifier firstNullifier
  | .mergeOutputKey firstNullifier => Wallet.mergeOutputKey hashv keys.nullifier firstNullifier

def shieldedKeys (hashv : Hashv) : ShieldedKeys where
  address := .ok keys.address
  viewingPublicKeys := keys.viewing.map (ViewingKey.pubkey cipher)
  decrypt := fun requests => requests.mapM keys.decryptOne
  derive := fun requests => requests.mapM (keys.deriveOne hashv)

end LocalShieldedKeys

end Zolana.Wallet
