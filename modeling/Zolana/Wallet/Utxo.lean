import Zolana.Wallet.Keys

/-!
# Utxos and assets

`data.rs`, `asset.rs` and `utxo/`. A commitment covers the mint of an asset; the payloads name it by a number
that the registry resolves.
-/

namespace Zolana.Wallet

/-! ### Data records -/

inductive DataRecord where
  | ringData (bytes : List UInt8)
  | utxoData (bytes : List UInt8)
  | memo (bytes : List UInt8)
  deriving DecidableEq, Repr

structure Data where
  records : List DataRecord
  deriving DecidableEq, Repr

namespace Data

def empty : Data := ⟨[]⟩

def isEmpty (data : Data) : Bool := data.records.isEmpty

/-- The loop of `validate`, with what it has seen. -/
def validateFrom (ringSeen utxoSeen memoSeen : Bool) : List DataRecord → Except TransactionError Unit
  | [] => .ok ()
  | .ringData _ :: records =>
    if ringSeen then .error .duplicateDataRecord
    else if utxoSeen || memoSeen then .error .nonCanonicalDataOrder
    else validateFrom true utxoSeen memoSeen records
  | .utxoData _ :: records =>
    if utxoSeen then .error .duplicateDataRecord
    else if memoSeen then .error .nonCanonicalDataOrder
    else validateFrom ringSeen true memoSeen records
  | .memo _ :: records =>
    if memoSeen then .error .duplicateDataRecord else validateFrom ringSeen utxoSeen true records

def validate (data : Data) : Except TransactionError Unit := validateFrom false false false data.records

def ringData (data : Data) : Option (List UInt8) :=
  data.records.findSome? fun
    | .ringData bytes => some bytes
    | _ => none

end Data

/-! ### Assets -/

def solAssetId : UInt64 := 1

def solMint : Address := 0

structure Mint where
  asset : Address
  assetId : UInt64
  deriving DecidableEq, Repr

def Mint.sol : Mint := ⟨solMint, solAssetId⟩

/-- Two maps that are inverse to each other. -/
structure AssetRegistry where
  byId : UInt64 → Option Address
  byMint : Address → Option UInt64
  inverse : ∀ assetId mint, byId assetId = some mint ↔ byMint mint = some assetId

namespace AssetRegistry

def resolve (registry : AssetRegistry) (assetId : UInt64) : Except TransactionError Mint :=
  match registry.byId assetId with
  | some asset => .ok ⟨asset, assetId⟩
  | none => .error (.unknownAsset assetId)

def mint (registry : AssetRegistry) (asset : Address) : Except TransactionError Mint :=
  match registry.byMint asset with
  | some assetId => .ok ⟨asset, assetId⟩
  | none => .error (.unknownMint asset)

end AssetRegistry

/-! ### Utxos -/

def utxoDomainField : Bytes32 := 3

structure Utxo where
  owner : PublicKey
  asset : Mint
  amount : UInt64
  blinding : Bytes32
  ringProgramId : Option Address
  data : Data
  deriving DecidableEq, Repr

def programIdProofInputHash (hashv : Hashv) : Option Address → Except TransactionError Bytes32
  | some id => hashed (hashBytes hashv id)
  | none => .ok 0

def ownerUtxoHash (hashv : Hashv) (ownerHash blinding : Bytes32) : Except TransactionError Bytes32 :=
  hashed (hashv [ownerHash, blinding])

def Utxo.hash (hashv : Hashv) (utxo : Utxo) (nullifierPk dataHash ringDataHash : Bytes32) (treeId : UInt16) :
    Except TransactionError Bytes32 := do
  let ownerHash ← (ownerHash hashv utxo.owner nullifierPk).mapError .keypair
  let asset ← hashed (hashBytes hashv utxo.asset.asset)
  let ringProgramId ← programIdProofInputHash hashv utxo.ringProgramId
  let ringHash ← hashed (hashv [ringDataHash, ringProgramId])
  let ownerUtxoHash ← ownerUtxoHash hashv ownerHash utxo.blinding
  hashed (hashv [utxoDomainField, treeIdField treeId, asset, u64ToBytes32 utxo.amount.toNat, dataHash, ringHash,
    ownerUtxoHash])

def resolveRingProgramId (ringProgramId : Option Address) (data : Data) :
    Except TransactionError (Option Address) :=
  if data.ringData.isNone then .ok none
  else if ringProgramId.isNone then .error .missingRingProgramId
  else .ok ringProgramId

end Zolana.Wallet
