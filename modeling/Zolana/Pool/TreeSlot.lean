import Zolana.Hasher.RightChain
import Zolana.Pool.Ledger

/-!
# Tree slots and input flags

`tree_slot.rs` of the interface: the public-input elements that commit a spend proof to the trees its
inputs come from. One slot stands for one declared tree, and one packed element carries the dummy-input
policy and the tree index of every input.
-/

namespace Zolana

variable {HEIGHT K : Nat}

structure TreeContext where
  utxoTreeRootIndex : UInt16
  nullifierTreeRootIndex : UInt16
  deriving DecidableEq, Repr

def noUtxoRoot : UInt16 := 65535

/-- `INPUT_TREES`, the slots of a circuit. -/
def inputTreeSlots : Nat := 5

def maxInputTrees : Nat := 2

def maxTransactInputs : Nat := 49

structure TreeSlot where
  id : Bytes32
  utxoRoot : Bytes32
  nullifierRoot : Bytes32
  deriving DecidableEq, Repr

def resolveTreeSlot (context : TreeContext) (tree : TreeAccountLayout HEIGHT K) :
    Except TreeError TreeSlot := do
  let utxoRoot ← tree.getUtxoTreeRoot context.utxoTreeRootIndex
  let nullifierRoot ← tree.getNullifierTreeRoot context.nullifierTreeRootIndex
  pure ⟨treeIdField tree.treeId, utxoRoot, nullifierRoot⟩

/-! ### The chain over the slots -/

def TreeSlot.hash (hashv : Hashv) (slot : TreeSlot) : Except HasherError Bytes32 :=
  hashv [slot.id, slot.utxoRoot, slot.nullifierRoot]

def TreeSlot.treeSlotsHashChain (hashv : Hashv) (slots : List TreeSlot) : Except HasherError Bytes32 := do
  let hashes ← slots.mapM (TreeSlot.hash hashv)
  createRightHashChain hashv hashes

/-- `ZERO_TREE_SLOT_SUFFIX_CHAINS`: entry `m` is the chain over `m + 1` unused slots. -/
def zeroTreeSlotSuffixChains : List Bytes32 := [
  0x0bc188d27dcceadc1dcfb6af0a7af08fe2864eecec96c5ae7cee6db31ba599aa#256,
  0x0bb8c4e79b87e21962d496cfc7bbe6726a8d1ab8ed987416de3c54333b1f651e#256,
  0x0d996690abbda0b8aac106d15fa1c0f1e39810ee2b90ed5911b796fc2b23eedb#256,
  0x0b62216e4dd6db08ea73f29cf070f7a78af91417395f45bc7ec98e5a4d934641#256]

/-- The loop of `populated_tree_slots_hash_chain`, from the right. -/
def absorbTreeSlots (hashv : Hashv) (chain : Bytes32) : List TreeSlot → Except HasherError Bytes32
  | [] => .ok chain
  | slot :: slots => do
    let hash ← slot.hash hashv
    let chain ← hashv [hash, chain]
    absorbTreeSlots hashv chain slots

/-- The chain over a number of unused slots, and none for no slot. -/
def zeroTreeSlotSuffix : Nat → Option Bytes32
  | 0 => none
  | index + 1 => zeroTreeSlotSuffixChains[index]?

/-- The chain over the populated slots and the unused ones behind them. -/
def populatedTreeSlotsHashChain (hashv : Hashv) (populated : List TreeSlot) : Except HasherError Bytes32 := do
  if populated.length = 0 ∨ inputTreeSlots < populated.length then
    .error (.invalidInputLength populated.length inputTreeSlots)
  else
    match zeroTreeSlotSuffix (inputTreeSlots - populated.length) with
    | some suffix => absorbTreeSlots hashv suffix populated.reverse
    | none =>
      match populated.reverse with
      | [] => .error (.invalidInputLength populated.length inputTreeSlots)
      | last :: slots =>
        let chain ← last.hash hashv
        absorbTreeSlots hashv chain slots

/-- The table holds what it was generated from. -/
structure Hashv.DerivesZeroTreeSlots (hashv : Hashv) : Prop where
  first : ∃ unused, hashv [0, 0, 0] = .ok unused ∧ zeroTreeSlotSuffixChains[0]? = some unused
  next : ∀ k unused suffix chain, hashv [0, 0, 0] = .ok unused →
    zeroTreeSlotSuffixChains[k]? = some suffix → zeroTreeSlotSuffixChains[k + 1]? = some chain →
    hashv [unused, suffix] = .ok chain

/-! ### Packing -/

def inputFlagsTreeIndexShift (index : Nat) : Nat := 1 + 3 * index

/-- Ors `value << shift` into the element. The source writes the low byte and, when it is not zero, the
high byte of the shifted value, and fails when one of them lies outside the element. -/
def orInputFlagsBits (flags : Bytes32) (value shift : Nat) : Except ShieldedPoolError Bytes32 :=
  let high := (value <<< (shift % 8)) / 2 ^ 8
  if 32 < 1 + shift / 8 then
    .error .invalidTransactShape
  else if high ≠ 0 ∧ 32 = 1 + shift / 8 then
    .error .invalidTransactShape
  else
    .ok (flags ||| BitVec.ofNat 256 value <<< shift)

/-- The loop of `pack_input_flags`, from an input on. -/
def packTreeIndexes : Nat → Bytes32 → List Nat → Except ShieldedPoolError Bytes32
  | _, flags, [] => .ok flags
  | index, flags, treeIndex :: treeIndexes =>
    if maxTransactInputs ≤ index then
      .error .invalidTransactShape
    else if inputTreeSlots ≤ treeIndex then
      .error .inputTreeIndexOutOfRange
    else do
      let flags ← orInputFlagsBits flags treeIndex (inputFlagsTreeIndexShift index)
      packTreeIndexes (index + 1) flags treeIndexes

def packInputFlags (allowDummyInputs : Bool) (treeIndexes : List Nat) : Except ShieldedPoolError Bytes32 := do
  let flags ← orInputFlagsBits 0 allowDummyInputs.toNat 0
  packTreeIndexes 0 flags treeIndexes

/-- Bit 0 of the packed element, as the circuit reads it. -/
def inputFlagsAllowDummy (flags : Bytes32) : Bool := flags.getLsbD 0

/-- The three bits of an input, as the circuit reads them. -/
def inputFlagsTreeIndex (flags : Bytes32) (index : Nat) : Nat :=
  (flags >>> inputFlagsTreeIndexShift index).toNat % 8

end Zolana
