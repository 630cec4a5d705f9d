import Zolana.Hasher.Field

/-!
# Circuits

`verifying_keys/circuit.rs` and `shape.rs`: the selector of a transact names a circuit, its shape, and for
a cached selector the cache slots it reads and writes. The selector decides which public inputs there are.
-/

namespace Zolana

def nPublicSlots : Nat := 3

def maxOutputs : Nat := 16

/-! ### Shapes -/

def sppSupportedShapes : List (Nat × Nat) :=
  [(1, 2), (1, 4), (1, 8), (2, 2), (2, 4), (1, 16), (2, 8), (3, 2), (3, 4), (2, 16), (3, 8), (4, 2),
    (4, 4), (4, 8), (5, 2), (5, 4), (4, 16), (5, 8), (6, 2), (6, 4), (5, 16), (6, 8), (8, 2), (8, 4),
    (8, 8), (8, 16), (12, 2), (12, 4), (12, 8), (16, 2), (16, 4), (16, 8), (24, 2), (24, 4), (32, 2),
    (40, 2), (48, 2), (49, 2)]

def confidentialEddsaShapes : List (Nat × Nat) :=
  [(2, 8), (2, 16), (4, 8), (4, 16), (8, 8), (8, 16), (16, 8), (16, 16), (24, 8), (24, 16), (48, 8),
    (48, 16)]

def ringAuthorityWidths : List Nat := [2, 4]

def maxTransactionAddresses : Nat := 64
def fixedTransactAddresses : Nat := 4

/-- One signer for each input, as far as a transaction has addresses for them. -/
def ownerSignerSlots (nInputs : Nat) : Nat :=
  min nInputs (maxTransactionAddresses - (fixedTransactAddresses + nInputs))

/-- The width of the signer vector: an owner that also pays takes no address. -/
def signerWidth (nInputs : Nat) : Nat := ownerSignerSlots nInputs + 1

def maxSigners : Nat := 29

/-! ### Cache access -/

def cacheCapacity : Nat := 36

def maxCacheWrites : Nat := 16

structure CacheWrite where
  output : UInt8
  slot : UInt8
  deriving DecidableEq, Repr

/-- `CacheWrite::NONE`, which ends the list of writes. -/
def CacheWrite.none : CacheWrite := ⟨255, 255⟩

structure CacheAccess where
  readBitmap : Nat
  writeSlots : Vector CacheWrite maxCacheWrites
  deriving DecidableEq, Repr

namespace CacheAccess

def writes (access : CacheAccess) : List CacheWrite :=
  access.writeSlots.toList.takeWhile (· ≠ .none)

def writesCache (access : CacheAccess) : Bool := access.writeSlots.toList.head?.any (· ≠ .none)

end CacheAccess

def countOnes (word : Nat) : Nat := (List.range 64).countP word.testBit

/-- The writes come first and each names an output and a slot of its own. -/
def validCacheWrites (writeSlots : Vector CacheWrite maxCacheWrites) (outputCount : Nat) : Bool :=
  let writes := writeSlots.toList.takeWhile (· ≠ .none)
  let unused := writeSlots.toList.dropWhile (· ≠ .none)
  unused.all (· = .none) &&
    writes.all (fun entry => entry.output.toNat < outputCount && entry.slot.toNat < cacheCapacity) &&
    decide (writes.Pairwise fun entry later => later.slot ≠ entry.slot ∧ later.output ≠ entry.output)

def CacheAccess.valid (access : CacheAccess) (inputCount outputCount : Nat) : Bool :=
  access.readBitmap >>> cacheCapacity = 0 && countOnes access.readBitmap ≤ inputCount &&
    (access.readBitmap ≠ 0 || access.writesCache) && validCacheWrites access.writeSlots outputCount

/-! ### The selector -/

structure Bsb22Commitment where
  commitment : Bytes32
  commitmentPok : Bytes32
  deriving DecidableEq, Repr

structure AnonymousRingEddsaProofData where
  bsb22Commitment : Bsb22Commitment
  defaultOwnerTag : Option Bytes32
  deriving DecidableEq, Repr

structure EddsaProofData where
  bsb22Commitment : Bsb22Commitment
  ownerPk : Bytes32
  deriving DecidableEq, Repr

/-- The number of inputs, outputs and public asset slots. -/
structure CircuitShape where
  nInputs : UInt8
  nOutputs : UInt8
  nPublicAssetSlots : UInt8
  deriving DecidableEq, Repr

inductive CircuitId where
  | confidentialSigner (shape : CircuitShape)
  | confidentialRingEddsa (shape : CircuitShape)
  | ringAuthority (shape : CircuitShape)
  | anonymousRingEddsa (shape : CircuitShape) (proofData : AnonymousRingEddsaProofData)
  | confidentialSignerCached (shape : CircuitShape) (access : CacheAccess)
  | confidentialRingEddsaCached (shape : CircuitShape) (access : CacheAccess)
  | anonymousRingEddsaCached (shape : CircuitShape) (proofData : AnonymousRingEddsaProofData)
      (access : CacheAccess)
  | confidentialEddsa (shape : CircuitShape) (proofData : EddsaProofData)
  | confidentialEddsaCached (shape : CircuitShape) (proofData : EddsaProofData)
      (access : CacheAccess)
  deriving DecidableEq, Repr

inductive OutputOwnerMode where
  | none
  | all
  | confidentialMarked
  deriving DecidableEq, Repr

namespace CircuitId

def cacheAccess : CircuitId → Option CacheAccess
  | confidentialSignerCached _ access | confidentialRingEddsaCached _ access
  | anonymousRingEddsaCached _ _ access | confidentialEddsaCached _ _ access => some access
  | _ => Option.none

def uncached : CircuitId → CircuitId
  | confidentialSignerCached shape _ => confidentialSigner shape
  | confidentialRingEddsaCached shape _ => confidentialRingEddsa shape
  | anonymousRingEddsaCached shape proofData _ => anonymousRingEddsa shape proofData
  | confidentialEddsaCached shape proofData _ => confidentialEddsa shape proofData
  | other => other

def shape : CircuitId → CircuitShape
  | confidentialSigner shape | confidentialRingEddsa shape | ringAuthority shape
  | anonymousRingEddsa shape _ | confidentialSignerCached shape _
  | confidentialRingEddsaCached shape _ | anonymousRingEddsaCached shape _ _
  | confidentialEddsa shape _ | confidentialEddsaCached shape _ _ => shape

def numInputs (circuit : CircuitId) : Nat := circuit.shape.nInputs.toNat

def numOutputs (circuit : CircuitId) : Nat := circuit.shape.nOutputs.toNat

def numPublicAssetSlots (circuit : CircuitId) : Nat := circuit.shape.nPublicAssetSlots.toNat

def isRing (circuit : CircuitId) : Bool :=
  match circuit.uncached with
  | confidentialRingEddsa _ | ringAuthority _ | anonymousRingEddsa _ _ => true
  | _ => false

def isAuthority : CircuitId → Bool
  | ringAuthority _ => true
  | _ => false

def isAnonymous (circuit : CircuitId) : Bool :=
  match circuit.uncached with
  | anonymousRingEddsa _ _ => true
  | _ => false

def hasMessageHash (circuit : CircuitId) : Bool :=
  match circuit.uncached with
  | anonymousRingEddsa _ _ | confidentialEddsa _ _ => true
  | _ => false

def eddsaOwnerPk : CircuitId → Option Bytes32
  | confidentialEddsa _ proofData | confidentialEddsaCached _ proofData _ => some proofData.ownerPk
  | _ => Option.none

def defaultOwnerTag : CircuitId → Option Bytes32
  | anonymousRingEddsa _ proofData | anonymousRingEddsaCached _ proofData _ =>
    proofData.defaultOwnerTag
  | _ => Option.none

def requiresInputSignatures (circuit : CircuitId) : Bool := !circuit.isAuthority

def outputOwnerMode : CircuitId → OutputOwnerMode
  | confidentialSigner _ | confidentialSignerCached _ _ | confidentialEddsa _ _
  | confidentialEddsaCached _ _ _ => .all
  | confidentialRingEddsa _ | anonymousRingEddsa _ _ | confidentialRingEddsaCached _ _
  | anonymousRingEddsaCached _ _ _ => .confidentialMarked
  | ringAuthority _ => .none

/-- A selector with a verifying key. -/
def isSupported (circuit : CircuitId) : Bool :=
  let shape := (circuit.numInputs, circuit.numOutputs)
  circuit.numPublicAssetSlots = nPublicSlots &&
    match circuit with
    | confidentialSigner _ | confidentialRingEddsa _ | anonymousRingEddsa _ _
    | confidentialSignerCached _ _ | confidentialRingEddsaCached _ _
    | anonymousRingEddsaCached _ _ _ => shape ∈ sppSupportedShapes
    | ringAuthority _ => circuit.numInputs = circuit.numOutputs && circuit.numInputs ∈ ringAuthorityWidths
    | confidentialEddsa _ _ | confidentialEddsaCached _ _ _ => shape ∈ confidentialEddsaShapes

end CircuitId

end Zolana
