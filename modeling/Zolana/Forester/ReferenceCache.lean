import Zolana.Forester.Witness

/-!
# The carried tree

`protocol-ops/forester/src/run.rs`: the reference tree that a forester keeps between its passes, with the number of
queued values it holds. An error leaves the cache as the method left it.
-/

namespace Zolana.Forester

open Fallible

structure ReferenceCache where
  tree : Option IndexedMerkleTree
  appended : Nat
  deriving DecidableEq, Repr

inductive ReferenceCacheError where
  | reference (error : IndexedReferenceMerkleTreeError)
  | queueShorterThan (length : Nat)
  | replay (error : IndexedReferenceMerkleTreeError)
  | notReconstructed
  deriving DecidableEq, Repr

namespace ReferenceCache

/-- `ReferenceCache::default`. -/
def new : ReferenceCache := ⟨none, 0⟩

def invalidate (_cache : ReferenceCache) : ReferenceCache := new

/-- The cache behind the first lines of `advance_to`, where a tree ahead of the chain is dropped. -/
def rewound (cache : ReferenceCache) (applied : Nat) : ReferenceCache :=
  if applied < cache.appended then cache.invalidate else cache

/-- The tree of a cache, or a new one, with the values that it does not count. -/
def replay (hashv : Hashv) (values : List Bytes32) (height : UInt32) (cache : ReferenceCache) :
    Except ReferenceCacheError IndexedMerkleTree := do
  let tree ← (cache.tree.elim (referenceNullifierTree hashv height) .ok).mapError .reference
  if values.length < cache.appended then .error (.queueShorterThan cache.appended)
  else
    match (appendValues hashv ((values.drop cache.appended).map BitVec.toNat)).run tree with
    | .ok _ tree => .ok tree
    | .error error _ => .error (.replay error)

/-- The tree is taken out of the cache before anything can fail, and put back at the end. -/
def advanceTo (hashv : Hashv) (applied : Nat) (values : List Bytes32) (height : UInt32) :
    EStateM ReferenceCacheError ReferenceCache Unit := do
  modify (rewound · applied)
  let cache ← get
  set { cache with tree := none }
  let tree ← mapErr id (cache.replay hashv values height)
  set (⟨some tree, applied⟩ : ReferenceCache)

/-- Values appended through `tree_mut`. -/
def appendNext (hashv : Hashv) (values : List Bytes32) : EStateM ReferenceCacheError ReferenceCache Unit :=
  zoom tree (fun tree cache => { cache with tree := some tree }) .notReconstructed
    (within id (fun tree _ => tree) .replay (appendValues hashv (values.map BitVec.toNat)))

def root (cache : ReferenceCache) : Except ReferenceCacheError Bytes32 :=
  match cache.tree with
  | some tree => tree.root.mapError .reference
  | none => .error .notReconstructed

def advancedBy (cache : ReferenceCache) (values : Nat) : ReferenceCache :=
  { cache with appended := saturatingAdd cache.appended values }

end ReferenceCache

end Zolana.Forester
