import Zolana.Interface.ExternalData

/-!
# UTXO caches

`state/cache.rs`: an account of hashes that a spend may read instead of a tree, and how a spend binds the
slots it reads and the slots it writes.
-/

namespace Zolana

structure CacheAccount where
  bump : UInt8
  treeId : UInt16
  /-- An `i64`. -/
  expiresAt : Int
  rentSponsor : Address
  /-- Signs every instruction that writes the cache. -/
  writeAuthority : Address
  /-- Zero marks an empty slot. -/
  utxoHashes : Vector Bytes32 cacheCapacity
  deriving DecidableEq, Repr

def selectedSlots (readBitmap : Nat) (slots : Vector Bytes32 cacheCapacity) : List Bytes32 :=
  (slots.toList.zipIdx.filter fun (_, slot) => readBitmap.testBit slot).map (·.1)

/-- What a spend without cached inputs publishes: no tree, and the chain over empty slots. -/
def emptyCachedInputFields (inputCount : Nat) : Except HasherError (Bytes32 × Bytes32) :=
  let groups := (inputCount - 1 + 2) / 3
  match zeroSuffixChains[groups]? with
  | some chain => .ok (0, chain)
  | none => .error (.invalidInputLength zeroSuffixGroups groups)

def cachedInputFields (hashv : Hashv) (readBitmap : Nat) (treeId : UInt16)
    (slots : Vector Bytes32 cacheCapacity) (inputCount : Nat) : Except HasherError (Bytes32 × Bytes32) :=
  if readBitmap = 0 then
    emptyCachedInputFields inputCount
  else if readBitmap >>> cacheCapacity ≠ 0 ∨ inputCount < countOnes readBitmap then
    .error (.invalidInputLength inputCount (countOnes readBitmap))
  else do
    let chain ← createPaddedRightHashChain4 hashv (selectedSlots readBitmap slots) inputCount
    pure (treeIdField treeId, chain)

def cacheWriteDomain : List UInt8 :=
  [0x63, 0x61, 0x63, 0x68, 0x65, 0x5f, 0x77, 0x72, 0x69, 0x74, 0x65]

/-- Binds the cache a spend writes, when it writes one. -/
def bindCacheWrite (sha256 : Sha256) (externalDataHash : Bytes32)
    (destination : Option (Bytes32 × Vector CacheWrite maxCacheWrites)) : Except HasherError Bytes32 :=
  match destination with
  | none => .ok externalDataHash
  | some (address, writeSlots) =>
    let writes := writeSlots.toList.flatMap fun entry => [entry.output, entry.slot]
    sha256Be sha256 (cacheWriteDomain ++ writeBytes32 externalDataHash ++ writeBytes32 address ++ writes)

end Zolana
