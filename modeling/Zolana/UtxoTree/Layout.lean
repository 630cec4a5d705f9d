import Zolana.Hasher.ZeroBytes
import Zolana.Lib.Fallible

/-!
# The UTXO tree

`smt.rs`: an append-only Merkle tree that keeps one node for each level, with a ring of historical roots.
All roots of one slot share a ring entry. Byte arrays that hold a number are read as the number.
-/

namespace Zolana

open Fallible

inductive TreeError where
  | invalidBufferSize
  | heightTooLarge
  | deserialize
  | nullifierInit
  | alreadyInitialized
  | invalidOwner
  | notWritable
  | invalidDiscriminator
  | paused
  | invalidRootIndex
  | borrowed
  | treeIsFull
  | invalidUpdateSlot
  | invalidCapacity
  | feeOverflow
  | feeTooHigh
  | hash
  deriving DecidableEq, Repr

def rootHistoryCapacity : Nat := 500

structure UtxoTreeLayout (HEIGHT : Nat) where
  nextIndex : Nat
  root : Bytes32
  rootHistoryCursor : UInt16
  rootHistoryLen : UInt16
  rootHistoryCapacity : UInt16
  subtreesLen : Nat
  lastUpdateSlot : Nat
  subtrees : Vector Bytes32 HEIGHT
  rootHistory : Vector Bytes32 Zolana.rootHistoryCapacity
  deriving DecidableEq, Repr

abbrev UtxoTreeM (HEIGHT : Nat) := EStateM TreeError (UtxoTreeLayout HEIGHT)

namespace UtxoTreeLayout

variable {HEIGHT : Nat}

/-- The zip with the table writes every subtree, since the table reaches above the height. -/
def init (height : Nat) : UtxoTreeM HEIGHT Unit := do
  if height ≠ HEIGHT then
    throw .heightTooLarge
  else
    let heightByte ← okOr (if height < 2 ^ 8 then some height else none) .heightTooLarge
    let capacity ← okOr
      (if Zolana.rootHistoryCapacity < 2 ^ 16 then some (UInt16.ofNat Zolana.rootHistoryCapacity)
      else none) .invalidCapacity
    let emptyRoot ← okOr zeroBytes[height]? .heightTooLarge
    modify fun tree =>
      { nextIndex := 0
        root := emptyRoot
        rootHistoryCursor := 0
        rootHistoryLen := 1
        rootHistoryCapacity := capacity
        subtreesLen := heightByte
        lastUpdateSlot := 0
        subtrees := tree.subtrees.mapIdx fun level subtree => zeroBytes.getD level subtree
        rootHistory := tree.rootHistory.setIfInBounds 0 emptyRoot }

/-- `1u64 << HEIGHT`. No initialised tree is higher than the table of empty roots. -/
def capacity (_ : UtxoTreeLayout HEIGHT) : Nat := 2 ^ HEIGHT

def currentRootIndex (tree : UtxoTreeLayout HEIGHT) : UInt16 := tree.rootHistoryCursor

def setSubtree (level : Nat) (subtree : Bytes32) (tree : UtxoTreeLayout HEIGHT) : UtxoTreeLayout HEIGHT :=
  { tree with subtrees := tree.subtrees.setIfInBounds level subtree }

/-- The first update and the first one of a new slot take the next history entry, the others write the
current one again. -/
def pushRoot (root : Bytes32) (slot : Nat) (isFirstUpdate : Bool) (tree : UtxoTreeLayout HEIGHT) :
    UtxoTreeLayout HEIGHT :=
  let cursor := tree.currentRootIndex.toNat
  if isFirstUpdate = false ∧ slot = tree.lastUpdateSlot then
    { tree with rootHistory := tree.rootHistory.setIfInBounds cursor root }
  else
    let len := tree.rootHistoryLen.toNat
    let next := (cursor + 1) % Zolana.rootHistoryCapacity
    let nextLen := min (len + 1) Zolana.rootHistoryCapacity
    { tree with
      rootHistory := tree.rootHistory.setIfInBounds next root
      rootHistoryCursor := UInt16.ofNat next
      rootHistoryLen := UInt16.ofNat nextLen
      lastUpdateSlot := slot }

/-- The loop over the levels, from `level` up: the subtrees zipped with the rest of the zero bytes. A
leaf that is not the last of its batch stops at the first level where it is a left node. -/
def climb (hashv : Hashv) (isLast : Bool) (level currentIndex : Nat) (currentLevelHash : Bytes32) :
    List Bytes32 → UtxoTreeM HEIGHT Bytes32
  | [] => pure currentLevelHash
  | zeroByte :: zeroBytes => do
    match (← get).subtrees[level]? with
    | none => pure currentLevelHash
    | some left =>
      if currentIndex % 2 = 0 then
        modify (setSubtree level currentLevelHash)
        if isLast = false then
          pure currentLevelHash
        else
          let currentLevelHash ← mapErr (fun _ => .hash) (hashv [currentLevelHash, zeroByte])
          climb hashv isLast (level + 1) (currentIndex / 2) currentLevelHash zeroBytes
      else
        let currentLevelHash ← mapErr (fun _ => .hash) (hashv [left, currentLevelHash])
        climb hashv isLast (level + 1) (currentIndex / 2) currentLevelHash zeroBytes

/-- The `if is_last` block and `set_next_index`. -/
def finishLeaf (isLast : Bool) (currentLevelHash : Bytes32) (slot : Nat) (isFirstUpdate : Bool)
    (tree : UtxoTreeLayout HEIGHT) : UtxoTreeLayout HEIGHT :=
  let tree :=
    if isLast then
      pushRoot currentLevelHash slot isFirstUpdate { tree with root := currentLevelHash }
    else
      tree
  { tree with nextIndex := tree.nextIndex + 1 }

def appendLeaves (hashv : Hashv) (slot : Nat) (isFirstUpdate : Bool) : List Bytes32 → UtxoTreeM HEIGHT Unit
  | [] => pure ()
  | leaf :: leaves => do
    let tree ← get
    if tree.capacity ≤ tree.nextIndex then
      throw .treeIsFull
    else
      let currentLevelHash ← climb hashv leaves.isEmpty 0 tree.nextIndex leaf zeroBytes
      modify (finishLeaf leaves.isEmpty currentLevelHash slot isFirstUpdate)
      appendLeaves hashv slot isFirstUpdate leaves

/-- Appends a batch and stores its final root only. What was appended before an error stays. -/
def appendBatch (hashv : Hashv) (leaves : List Bytes32) (slot : Nat) : UtxoTreeM HEIGHT Unit := do
  let tree ← get
  let isFirstUpdate : Bool := tree.nextIndex = 0
  if leaves ≠ [] ∧ isFirstUpdate = false ∧ slot < tree.lastUpdateSlot then
    throw .invalidUpdateSlot
  else
    appendLeaves hashv slot isFirstUpdate leaves

def append (hashv : Hashv) (leaf : Bytes32) (slot : Nat) : UtxoTreeM HEIGHT Unit :=
  appendBatch hashv [leaf] slot

/-- Rejects entries that hold no root and indices past the written part of the ring. -/
def rootByIndex (tree : UtxoTreeLayout HEIGHT) (index : UInt16) : Except TreeError Bytes32 :=
  let len := tree.rootHistoryLen.toNat
  let index := index.toNat
  if len = 0 ∨ Zolana.rootHistoryCapacity ≤ index then
    .error .invalidRootIndex
  else if len < Zolana.rootHistoryCapacity ∧ len ≤ index then
    .error .invalidRootIndex
  else
    match tree.rootHistory[index]? with
    | none => .error .invalidRootIndex
    | some root => if root = 0 then .error .invalidRootIndex else .ok root

def checkLayout (tree : UtxoTreeLayout HEIGHT) : Except TreeError Unit :=
  let capacity := tree.rootHistoryCapacity.toNat
  let cursor := tree.rootHistoryCursor.toNat
  let len := tree.rootHistoryLen.toNat
  if tree.subtreesLen ≠ HEIGHT ∨ capacity ≠ Zolana.rootHistoryCapacity ∨ capacity ≤ cursor ∨
      ¬ (1 ≤ len ∧ len ≤ capacity) ∨ (len < capacity ∧ cursor + 1 ≠ len) then
    .error .deserialize
  else
    .ok ()

end UtxoTreeLayout

end Zolana
