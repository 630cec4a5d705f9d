import Zolana.Interface.TransactData
import Zolana.Pool.Merge

/-!
# Owned and borrowed decoders

Each instruction has an owned type and a borrowed view of it, with the same fields in the same order. The
owned types give every sequence a length of their own; the byte slices of the borrowed transact take the
length of the read configuration. A borrowed value is modelled as the bytes it points to. Lengths of at
most two bytes stay below the preallocation limit of the decoder.
-/

namespace Zolana

open Codec

/-- The length prefix of `RefConfig`. -/
def refLengthWidth : Nat := 2

/-- `&[u8]` under `RefConfig`. -/
def borrowedBytes : Reader (List UInt8) := do
  let length ← natLE refLengthWidth
  take length

/-! ### Encoders behind the prefix of a transact -/

def Groth16Proof.write (proof : Groth16Proof) : List UInt8 :=
  writeBytes32 proof.a ++ (writeArray 128 proof.b ++ writeBytes32 proof.c)

def Bsb22Commitment.write (commitment : Bsb22Commitment) : List UInt8 :=
  writeBytes32 commitment.commitment ++ writeBytes32 commitment.commitmentPok

def writeFixedOptionOwnerTag : Option Bytes32 → List UInt8
  | some tag => writeByte 1 ++ writeBytes32 tag
  | none => writeByte 0 ++ writeBytes32 0

def AnonymousRingEddsaProofData.write (proofData : AnonymousRingEddsaProofData) : List UInt8 :=
  proofData.bsb22Commitment.write ++ writeFixedOptionOwnerTag proofData.defaultOwnerTag

def EddsaProofData.write (proofData : EddsaProofData) : List UInt8 :=
  proofData.bsb22Commitment.write ++ writeBytes32 proofData.ownerPk

def CacheWrite.write (entry : CacheWrite) : List UInt8 := writeByte entry.output ++ writeByte entry.slot

def CacheAccess.write (access : CacheAccess) : List UInt8 :=
  Bytes.toLE 8 access.readBitmap ++ access.writeSlots.toList.flatMap CacheWrite.write

def CircuitShape.write (shape : CircuitShape) : List UInt8 :=
  writeByte shape.nInputs ++ (writeByte shape.nOutputs ++ writeByte shape.nPublicAssetSlots)

def CircuitId.write : CircuitId → List UInt8
  | confidentialSigner shape => writeU16 0 ++ shape.write
  | confidentialRingEddsa shape => writeU16 1 ++ shape.write
  | ringAuthority shape => writeU16 2 ++ shape.write
  | anonymousRingEddsa shape proofData => writeU16 3 ++ (shape.write ++ proofData.write)
  | confidentialSignerCached shape access => writeU16 4 ++ (shape.write ++ access.write)
  | confidentialRingEddsaCached shape access => writeU16 5 ++ (shape.write ++ access.write)
  | anonymousRingEddsaCached shape proofData access =>
    writeU16 6 ++ (shape.write ++ (proofData.write ++ access.write))
  | confidentialEddsa shape proofData => writeU16 7 ++ (shape.write ++ proofData.write)
  | confidentialEddsaCached shape proofData access =>
    writeU16 8 ++ (shape.write ++ (proofData.write ++ access.write))

def InputUtxo.write (input : InputUtxo) : List UInt8 :=
  writeBytes32 input.nullifierHash ++ writeByte (UInt8.ofNat input.treeIndex)

def TreeContext.write (context : TreeContext) : List UInt8 :=
  writeU16 context.utxoTreeRootIndex ++ writeU16 context.nullifierTreeRootIndex

/-! ### Transact -/

namespace TransactIxData

def readOwned : Reader TransactIxData := do
  let fields ← ExternalData.read
  let privateTxHash ← readBytes32
  let circuit ← CircuitId.read
  let proof ← Groth16Proof.read
  let inputs ← vec 1 InputUtxo.read
  let treeContexts ← vec 1 TreeContext.read
  pure ⟨fields, privateTxHash, circuit, proof, inputs, treeContexts⟩

def write (ix : TransactIxData) : List UInt8 :=
  ix.toExternalData.write ++ (writeBytes32 ix.privateTxHash ++ (ix.circuit.write ++ (ix.proof.write ++
    (writeVec 1 InputUtxo.write ix.inputs ++ writeVec 1 TreeContext.write ix.treeContexts))))

/-- Every sequence has a length its prefix can hold. -/
def lengthsFit (ix : TransactIxData) : Bool :=
  ix.interfaceTransfers.length < 2 ^ 8 && ix.outputs.length < 2 ^ 8 &&
    ix.outputs.all (fun output => output.data.all fun data => data.length < 2 ^ 16) &&
    ix.messages.length < 2 ^ 8 && ix.messages.all (fun message => message.data.length < 2 ^ 16) &&
    ix.inputs.length < 2 ^ 8 && ix.treeContexts.length < 2 ^ 8

def serialize (ix : TransactIxData) : Option (List UInt8) :=
  match validateInterfaceTransfers ix.interfaceTransfers with
  | .error _ => none
  | .ok () => if ix.lengthsFit then some ix.write else none

def deserialize (data : List UInt8) : Option TransactIxData := whole readOwned data

end TransactIxData

/-- A `TransactOutputRef`. -/
def TransactOutput.readRef : Reader TransactOutput := do
  let utxoHash ← readBytes32
  let ownerTag ← OwnerTag.read
  let data ← option borrowedBytes
  pure ⟨utxoHash, ownerTag, data⟩

/-- An `OutputDataRef`. -/
def MessageData.readRef : Reader MessageData := do
  let viewTag ← readBytes32
  let data ← borrowedBytes
  pure ⟨viewTag, data⟩

namespace TransactIxDataRef

/-- A `TransactIxDataRef`. -/
def read : Reader TransactIxData := do
  let expiryUnixTs ← u64
  let txViewingPk ← array 33
  let salt ← array 16
  let interfaceTransfers ← vec 1 InterfaceTransfer.read
  let dataHash ← option readBytes32
  let ringDataHash ← option readBytes32
  let outputs ← vec 1 TransactOutput.readRef
  let messages ← vec 1 MessageData.readRef
  let privateTxHash ← readBytes32
  let circuit ← CircuitId.read
  let proof ← Groth16Proof.read
  let inputs ← vec 1 InputUtxo.read
  let treeContexts ← vec 1 TreeContext.read
  pure ⟨⟨expiryUnixTs, txViewingPk, salt, interfaceTransfers, dataHash, ringDataHash, outputs, messages⟩,
    privateTxHash, circuit, proof, inputs, treeContexts⟩

def fromBytes (data : List UInt8) : Option TransactIxData := whole read data

end TransactIxDataRef

/-! ### Merge -/

/-- `PoseidonCtrV1`, the only scheme. -/
structure MergeOutputEncryption where
  /-- 16 bytes. -/
  salt : BitVec 128
  amount : Bytes32
  mintLow : Bytes32
  mintHigh : Bytes32
  deriving DecidableEq, Repr

def MergeOutputEncryption.read : Reader MergeOutputEncryption := do
  let tag ← byte
  if tag = 1 then
    let salt ← array 16
    let amount ← readBytes32
    let mintLow ← readBytes32
    let mintHigh ← readBytes32
    pure ⟨salt, amount, mintLow, mintHigh⟩
  else
    failure

def MergeOutputEncryption.write (encryption : MergeOutputEncryption) : List UInt8 :=
  writeByte 1 ++ (writeArray 16 encryption.salt ++ (writeBytes32 encryption.amount ++
    (writeBytes32 encryption.mintLow ++ writeBytes32 encryption.mintHigh)))

structure MergeTransactIxData where
  expiryUnixTs : UInt64
  proof : Groth16Proof
  outputUtxoHash : Bytes32
  outputEncryption : MergeOutputEncryption
  privateTxHash : Bytes32
  nullifiers : List Bytes32
  utxoTreeRootIndex : UInt16
  nullifierTreeRootIndex : UInt16
  cacheSlot : Option UInt8
  deriving DecidableEq, Repr

namespace MergeTransactIxData

def read : Reader MergeTransactIxData := do
  let expiryUnixTs ← u64
  let proof ← Groth16Proof.read
  let outputUtxoHash ← readBytes32
  let outputEncryption ← MergeOutputEncryption.read
  let privateTxHash ← readBytes32
  let nullifiers ← vec 1 readBytes32
  let utxoTreeRootIndex ← u16
  let nullifierTreeRootIndex ← u16
  let cacheSlot ← option byte
  pure ⟨expiryUnixTs, proof, outputUtxoHash, outputEncryption, privateTxHash, nullifiers,
    utxoTreeRootIndex, nullifierTreeRootIndex, cacheSlot⟩

def write (ix : MergeTransactIxData) : List UInt8 :=
  writeU64 ix.expiryUnixTs ++ (ix.proof.write ++ (writeBytes32 ix.outputUtxoHash ++
    (ix.outputEncryption.write ++ (writeBytes32 ix.privateTxHash ++
      (writeVec 1 writeBytes32 ix.nullifiers ++ (writeU16 ix.utxoTreeRootIndex ++
        (writeU16 ix.nullifierTreeRootIndex ++ writeOption writeByte ix.cacheSlot)))))))

def serialize (ix : MergeTransactIxData) : Option (List UInt8) :=
  if ix.nullifiers.length < 2 ^ 8 then some ix.write else none

def deserialize (data : List UInt8) : Option MergeTransactIxData := whole read data

def validShape (ix : MergeTransactIxData) : Bool := (mergeCircuitWidth ix.nullifiers.length).isSome

end MergeTransactIxData

/-- `MergeTransactIxDataRef::from_bytes`, which does not look behind the value it reads. -/
def MergeTransactIxDataRef.fromBytes (data : List UInt8) : Option MergeTransactIxData :=
  match MergeTransactIxData.read.run data with
  | some (parsed, _) => if parsed.validShape then some parsed else none
  | none => none

structure MergeRingIxData where
  outputRingDataHash : Bytes32
  merge : MergeTransactIxData
  deriving DecidableEq, Repr

namespace MergeRingIxData

def read : Reader MergeRingIxData := do
  let outputRingDataHash ← readBytes32
  let merge ← MergeTransactIxData.read
  pure ⟨outputRingDataHash, merge⟩

def write (ix : MergeRingIxData) : List UInt8 := writeBytes32 ix.outputRingDataHash ++ ix.merge.write

def serialize (ix : MergeRingIxData) : Option (List UInt8) :=
  if ix.merge.nullifiers.length < 2 ^ 8 then some ix.write else none

def deserialize (data : List UInt8) : Option MergeRingIxData := whole read data

end MergeRingIxData

def MergeRingIxDataRef.fromBytes (data : List UInt8) : Option MergeRingIxData :=
  match MergeRingIxData.read.run data with
  | some (parsed, _) => if parsed.merge.validShape then some parsed else none
  | none => none

end Zolana
