import Zolana.Circuits.Field
import Zolana.Lib.Gates

/-!
# The gadgets

`circuits/gadget`. A gadget is a computation that fails where the builder would refuse the witness. A
slice whose length the circuit fixes is a function on its indexes, and a list where the gadget takes any.
-/

namespace Zolana.Circuits

open Gates

/-! ### `conditional_cmp.go` -/

def assertEqualWhen (cond a b : Fr) : Option Unit := assertIsEqual (cond * (a - b)) 0

def assertZeroWhen (cond v : Fr) : Option Unit := assertIsEqual (cond * v) 0

def assertWhen (cond check : Fr) : Option Unit := assertZeroWhen cond (1 - check)

/-! ### `full_field_compare.go` -/

structure FieldLimbs where
  lo : Fr
  hi : Fr
  loBits : Nat
  hiBits : Nat

def canonicalLimbs (x : Fr) : Option FieldLimbs := do
  let bits ← toBinary fieldModulus.size x
  let half := bits.length / 2
  pure ⟨fromBinary (bits.take half), fromBinary (bits.drop half), half, bits.length - half⟩

def isLessBounded (x y : Fr) (k : Nat) : Option Fr := do
  let bits ← toBinary (k + 1) (x - y + ((2 ^ k : Nat) : Fr))
  let top ← bits[k]?
  pure (1 - top)

def isLessLimbs (a b : FieldLimbs) : Option Fr := do
  let hiLess ← isLessBounded a.hi b.hi (max a.hiBits b.hiBits)
  let hiEqual := isZero (a.hi - b.hi)
  let loLess ← isLessBounded a.lo b.lo (max a.loBits b.loBits)
  pure (hiLess + hiEqual * loLess)

def assertIsLessFullField (a b : Fr) : Option Unit := do
  let less ← isLessLimbs (← canonicalLimbs a) (← canonicalLimbs b)
  assertIsEqual less 1

def assertStrictlyOrderedFullField (lo mid hi : Fr) : Option Unit := do
  assertIsLessFullField lo mid
  assertIsLessFullField mid hi

/-- `AssertStrictlyOrdered` of `inputs.go`, which decomposes each value once. -/
def assertStrictlyOrdered (lo mid hi : Fr) : Option Unit := do
  let loLimbs ← canonicalLimbs lo
  let midLimbs ← canonicalLimbs mid
  let hiLimbs ← canonicalLimbs hi
  assertIsEqual (← isLessLimbs loLimbs midLimbs) 1
  assertIsEqual (← isLessLimbs midLimbs hiLimbs) 1

section Hashes

variable (poseidon : Poseidon)

/-! ### `hashchain.go` -/

def hashChain : List Fr → Option Fr
  | [] => some 0
  | first :: inputs => inputs.foldlM (fun h input => poseidon [h, input]) first

def rightHashChain : List Fr → Option Fr
  | [] => some 0
  | [last] => some last
  | input :: inputs => do
    let h ← rightHashChain inputs
    poseidon [input, h]

def nonZeroHashChainStep (h input : Fr) : Option Fr := do
  let next ← poseidon [h, input]
  pure (select (isZero input) h (select (isZero h) input next))

/-- The inputs are wires; a constant zero adds nothing to the chain and is not among them. -/
def nonZeroHashChain : List Fr → Option Fr
  | [] => some 0
  | first :: inputs => inputs.foldlM (nonZeroHashChainStep poseidon) first

/-- The groups of `HashChain4Gadget`, the last one padded with zeros. -/
def absorbGroups (h : Fr) : List Fr → Option Fr
  | [] => some h
  | [g0] => poseidon [h, g0, 0, 0]
  | [g0, g1] => poseidon [h, g0, g1, 0]
  | g0 :: g1 :: g2 :: inputs => do
    let h ← poseidon [h, g0, g1, g2]
    absorbGroups h inputs

def hashChain4 : List Fr → Option Fr
  | [] => some 0
  | first :: inputs => absorbGroups poseidon first inputs

/-- The groups of `RightHashChain4Gadget` over the elements before the last, nearest first. -/
def absorbRightGroups (h : Fr) : List Fr → Option Fr
  | [] => some h
  | [g0] => poseidon [g0, 0, 0, h]
  | [g1, g0] => poseidon [g0, g1, 0, h]
  | g2 :: g1 :: g0 :: inputs => do
    let h ← poseidon [g0, g1, g2, h]
    absorbRightGroups h inputs

def rightHashChain4 (inputs : List Fr) : Option Fr :=
  match inputs.reverse with
  | [] => some 0
  | last :: leading => absorbRightGroups poseidon last leading

/-! ### `proof_gadgets.go` and `indexed.go` -/

def proveParentHash (bit hash sibling : Fr) : Option Fr := do
  assertIsBoolean bit
  let d1 := select bit sibling hash
  let d2 := select bit hash sibling
  poseidon [d1, d2]

/-- `MerkleRootGadget`, whose height is the length of the path. -/
def merkleRoot (hash : Fr) : (index path : List Fr) → Option Fr
  | _, [] => some hash
  | [], _ :: _ => none
  | bit :: index, sibling :: path => do
    let hash ← proveParentHash poseidon bit hash sibling
    merkleRoot hash index path

def merkleRootUpdate (oldRoot oldLeaf newLeaf : Fr) (pathIndex merkleProof : List Fr) : Option Fr := do
  let root ← merkleRoot poseidon oldLeaf pathIndex merkleProof
  assertIsEqual root oldRoot
  merkleRoot poseidon newLeaf pathIndex merkleProof

def indexedLeafHash (value nextValue : Fr) : Option Fr := poseidon [value, nextValue]

/-! ### `hash_bytes.go` and `bytes.go` -/

def bytesToField (bytes : List Fr) : Fr := bytes.foldl (fun acc b => acc * 256 + b) 0

def hashBytesChunkSize : Nat := 31

/-- `PackBytesBE` without its range checks, for bytes that are bounded elsewhere. -/
def packBoundedBytesBe (bytes : List Fr) : List Fr :=
  (bytes.toChunks hashBytesChunkSize).map bytesToField

def hashBoundedBytes (bytes : List Fr) : Option Fr := hashChain poseidon (packBoundedBytesBe bytes)

def solanaOwnerIdentityBounded (key : Fin 32 → Fr) : Option Fr :=
  hashBoundedBytes poseidon (0x53 :: List.ofFn key)

end Hashes

end Zolana.Circuits
