import Zolana.Interface.Circuit
import Zolana.Lib.Codec
import Zolana.Pool.Transact

/-!
# The instruction data of a transact

`instruction_data/transact.rs`: the wire format of `transact`, `ring_transact` and
`ring_authority_transact`. The fields up to the messages are the prefix that the external data hash
commits to; the bytes of the prefix are found by the position of the first field behind it.
-/

namespace Zolana

open Codec

def readBytes32 : Reader Bytes32 := array 32

def writeBytes32 (bytes : Bytes32) : List UInt8 := writeArray 32 bytes

theorem exact_bytes32 : Exact readBytes32 writeBytes32 fun _ => True := exact_array 32

@[simp] theorem length_writeBytes32 (bytes : Bytes32) : (writeBytes32 bytes).length = 32 :=
  length_writeArray 32 bytes

def maxInterfaceTransfers : Nat := 32

/-! ### Interface transfers -/

inductive InterfaceTransfer where
  | solDeposit (amount : UInt64)
  | solWithdrawal (amount : UInt64)
  | splDeposit (amount : UInt64) (splInterfaceBump : UInt8)
  | splWithdrawal (amount : UInt64) (splInterfaceBump : UInt8)
  deriving DecidableEq, Repr

namespace InterfaceTransfer

def amount : InterfaceTransfer → UInt64
  | solDeposit amount | solWithdrawal amount | splDeposit amount _ | splWithdrawal amount _ => amount

def isDeposit : InterfaceTransfer → Bool
  | solDeposit _ | splDeposit _ _ => true
  | solWithdrawal _ | splWithdrawal _ _ => false

def settlementAccountCount : InterfaceTransfer → Nat
  | solDeposit _ | solWithdrawal _ => 2
  | splDeposit _ _ | splWithdrawal _ _ => 5

def read : Reader InterfaceTransfer := do
  let tag ← byte
  let amount ← u64
  if tag = 0 then
    pure (solDeposit amount)
  else if tag = 1 then
    pure (solWithdrawal amount)
  else if tag = 2 then
    let splInterfaceBump ← byte
    pure (splDeposit amount splInterfaceBump)
  else if tag = 3 then
    let splInterfaceBump ← byte
    pure (splWithdrawal amount splInterfaceBump)
  else
    failure

def write : InterfaceTransfer → List UInt8
  | solDeposit amount => writeByte 0 ++ writeU64 amount
  | solWithdrawal amount => writeByte 1 ++ writeU64 amount
  | splDeposit amount splInterfaceBump => writeByte 2 ++ (writeU64 amount ++ writeByte splInterfaceBump)
  | splWithdrawal amount splInterfaceBump =>
    writeByte 3 ++ (writeU64 amount ++ writeByte splInterfaceBump)

end InterfaceTransfer

def validateInterfaceTransfers (transfers : List InterfaceTransfer) : Except ShieldedPoolError Unit :=
  if maxInterfaceTransfers < transfers.length then
    .error .tooManyInterfaceTransfers
  else if transfers.any (·.amount = 0) then
    .error .zeroInterfaceTransferAmount
  else
    .ok ()

/-! ### Outputs and messages -/

/-- An owner tag is carried as it is, or as the position of an account. -/
inductive OwnerTag where
  | inline (tag : Bytes32)
  | account (index : UInt8)
  deriving DecidableEq, Repr

namespace OwnerTag

def read : Reader OwnerTag := do
  let tag ← byte
  if tag = 0 then
    let bytes ← readBytes32
    pure (inline bytes)
  else if tag = 1 then
    let index ← byte
    pure (account index)
  else
    failure

def write : OwnerTag → List UInt8
  | inline tag => writeByte 0 ++ writeBytes32 tag
  | account index => writeByte 1 ++ writeByte index

def isAccount : OwnerTag → Bool
  | inline _ => false
  | account _ => true

end OwnerTag

structure TransactOutput where
  utxoHash : Bytes32
  ownerTag : OwnerTag
  data : Option (List UInt8)
  deriving DecidableEq, Repr

namespace TransactOutput

def read : Reader TransactOutput := do
  let utxoHash ← readBytes32
  let ownerTag ← OwnerTag.read
  let data ← option (vec 2 byte)
  pure ⟨utxoHash, ownerTag, data⟩

def write (output : TransactOutput) : List UInt8 :=
  writeBytes32 output.utxoHash ++ (output.ownerTag.write ++ writeOption (writeVec 2 writeByte) output.data)

end TransactOutput

structure MessageData where
  viewTag : Bytes32
  data : List UInt8
  deriving DecidableEq, Repr

namespace MessageData

def read : Reader MessageData := do
  let viewTag ← readBytes32
  let data ← vec 2 byte
  pure ⟨viewTag, data⟩

def write (message : MessageData) : List UInt8 :=
  writeBytes32 message.viewTag ++ writeVec 2 writeByte message.data

end MessageData

/-! ### The prefix -/

/-- The fields before `private_tx_hash`. -/
structure ExternalData where
  expiryUnixTs : UInt64
  /-- 33 bytes. -/
  txViewingPk : BitVec 264
  /-- 16 bytes. -/
  salt : BitVec 128
  interfaceTransfers : List InterfaceTransfer
  dataHash : Option Bytes32
  ringDataHash : Option Bytes32
  outputs : List TransactOutput
  messages : List MessageData
  deriving DecidableEq, Repr

namespace ExternalData

def read : Reader ExternalData := do
  let expiryUnixTs ← u64
  let txViewingPk ← array 33
  let salt ← array 16
  let interfaceTransfers ← vec 1 InterfaceTransfer.read
  let dataHash ← option readBytes32
  let ringDataHash ← option readBytes32
  let outputs ← vec 1 TransactOutput.read
  let messages ← vec 1 MessageData.read
  pure ⟨expiryUnixTs, txViewingPk, salt, interfaceTransfers, dataHash, ringDataHash, outputs, messages⟩

def write (fields : ExternalData) : List UInt8 :=
  writeU64 fields.expiryUnixTs ++ (writeArray 33 fields.txViewingPk ++ (writeArray 16 fields.salt ++
    (writeVec 1 InterfaceTransfer.write fields.interfaceTransfers ++
      (writeOption writeBytes32 fields.dataHash ++ (writeOption writeBytes32 fields.ringDataHash ++
        (writeVec 1 TransactOutput.write fields.outputs ++
          writeVec 1 MessageData.write fields.messages))))))

end ExternalData

/-! ### Behind the prefix -/

structure Groth16Proof where
  a : Bytes32
  /-- 128 bytes. -/
  b : BitVec 1024
  c : Bytes32
  deriving DecidableEq, Repr

def Groth16Proof.read : Reader Groth16Proof := do
  let a ← readBytes32
  let b ← array 128
  let c ← readBytes32
  pure ⟨a, b, c⟩

def Bsb22Commitment.read : Reader Bsb22Commitment := do
  let commitment ← readBytes32
  let commitmentPok ← readBytes32
  pure ⟨commitment, commitmentPok⟩

/-- `FixedOptionOwnerTag`: the tag takes its bytes also when it is absent, and is zero then. -/
def readFixedOptionOwnerTag : Reader (Option Bytes32) := do
  let present ← byte
  let tag ← readBytes32
  if present = 0 then
    if tag = 0 then pure none else failure
  else if present = 1 then
    pure (some tag)
  else
    failure

def AnonymousRingEddsaProofData.read : Reader AnonymousRingEddsaProofData := do
  let bsb22Commitment ← Bsb22Commitment.read
  let defaultOwnerTag ← readFixedOptionOwnerTag
  pure ⟨bsb22Commitment, defaultOwnerTag⟩

def EddsaProofData.read : Reader EddsaProofData := do
  let bsb22Commitment ← Bsb22Commitment.read
  let ownerPk ← readBytes32
  pure ⟨bsb22Commitment, ownerPk⟩

def CacheWrite.read : Reader CacheWrite := do
  let output ← byte
  let slot ← byte
  pure ⟨output, slot⟩

def CacheAccess.read : Reader CacheAccess := do
  let readBitmap ← natLE 8
  let writeSlots ← vector CacheWrite.read maxCacheWrites
  pure ⟨readBitmap, writeSlots⟩

def CircuitShape.read : Reader CircuitShape := do
  let nInputs ← byte
  let nOutputs ← byte
  let nPublicAssetSlots ← byte
  pure ⟨nInputs, nOutputs, nPublicAssetSlots⟩

def CircuitId.read : Reader CircuitId := do
  let tag ← u16
  let shape ← CircuitShape.read
  if tag = 0 then
    pure (confidentialSigner shape)
  else if tag = 1 then
    pure (confidentialRingEddsa shape)
  else if tag = 2 then
    pure (ringAuthority shape)
  else if tag = 3 then
    anonymousRingEddsa shape <$> AnonymousRingEddsaProofData.read
  else if tag = 4 then
    confidentialSignerCached shape <$> CacheAccess.read
  else if tag = 5 then
    confidentialRingEddsaCached shape <$> CacheAccess.read
  else if tag = 6 then
    anonymousRingEddsaCached shape <$> AnonymousRingEddsaProofData.read <*> CacheAccess.read
  else if tag = 7 then
    confidentialEddsa shape <$> EddsaProofData.read
  else if tag = 8 then
    confidentialEddsaCached shape <$> EddsaProofData.read <*> CacheAccess.read
  else
    failure

def InputUtxo.read : Reader InputUtxo := do
  let nullifierHash ← readBytes32
  let treeIndex ← byte
  pure ⟨nullifierHash, treeIndex.toNat⟩

def TreeContext.read : Reader TreeContext := do
  let utxoTreeRootIndex ← u16
  let nullifierTreeRootIndex ← u16
  pure ⟨utxoTreeRootIndex, nullifierTreeRootIndex⟩

structure TransactIxData extends ExternalData where
  privateTxHash : Bytes32
  circuit : CircuitId
  proof : Groth16Proof
  inputs : List InputUtxo
  treeContexts : List TreeContext
  deriving DecidableEq, Repr

/-- The instruction data, and how many bytes are left where `private_tx_hash` starts. -/
def TransactIxData.read : Reader (TransactIxData × Nat) := do
  let fields ← ExternalData.read
  let left ← get
  let privateTxHash ← readBytes32
  let circuit ← CircuitId.read
  let proof ← Groth16Proof.read
  let inputs ← vec 1 InputUtxo.read
  let treeContexts ← vec 1 TreeContext.read
  pure (⟨fields, privateTxHash, circuit, proof, inputs, treeContexts⟩, left.length)

def parseWithExternalDataPrefix (data : List UInt8) : Option (TransactIxData × List UInt8) := do
  let (ix, left) ← whole TransactIxData.read data
  pure (ix, data.take (data.length - left))

end Zolana
