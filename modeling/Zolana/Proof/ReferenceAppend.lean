import Zolana.Forester.Witness
import Zolana.Proof.ReferenceArray
import Zolana.Proof.ReferenceTree
import Zolana.Proof.Transcript

/-!
# Appending to the reference tree

The array and the tree agree: the leaves are the hashes of the pairs. An append of a new field element that has room
succeeds, cuts a pair and leaves the two in agreement, and no other append succeeds.
-/

namespace Zolana.Forester

open Circuits Fallible

/-- The poseidon of the crate refuses what is no field element. -/
def HashesFieldElements (hashv : Hashv) : Prop :=
  ∀ inputs digest, hashv inputs = .ok digest → ∀ input ∈ inputs, isCanonicalBn254ScalarBe input = true

def pairHash (hashv : Hashv) (pair : Nat × Nat) : Bytes32 :=
  hashv.node (BitVec.ofNat 256 pair.1) (BitVec.ofNat 256 pair.2)

variable {hashv : Hashv} {value next : Nat} {pairs : List (Nat × Nat)} {tree tree' : IndexedMerkleTree}

theorem nullifierInitNextValue_lt : nullifierInitNextValue < fieldModulus := by decide +kernel

theorem fieldModulus_lt : fieldModulus < 2 ^ 256 := by decide +kernel

theorem toNat_ofNat_of_lt (h : value < fieldModulus) : (BitVec.ofNat 256 value).toNat = value := by
  rw [BitVec.toNat_ofNat, Nat.mod_eq_of_lt (h.trans fieldModulus_lt)]

theorem canonical_ofNat (h : value < fieldModulus) : isCanonicalBn254ScalarBe (BitVec.ofNat 256 value) = true := by
  rwa [isCanonicalBn254ScalarBe_iff, toNat_ofNat_of_lt h]

theorem fieldOf_ofNat (h : value < fieldModulus) : fieldOf (BitVec.ofNat 256 value) = (value : Fr) := by
  rw [fieldOf, toNat_ofNat_of_lt h]

theorem bigintToBeBytesArray_of_lt (h : value < fieldModulus) :
    bigintToBeBytesArray value = .ok (BitVec.ofNat 256 value) := if_pos (h.trans fieldModulus_lt)

section Total

variable (hHashv : hashv.Total)

include hHashv

theorem hashv_pair (hvalue : value < fieldModulus) (hnext : next < fieldModulus) :
    hashv [BitVec.ofNat 256 value, BitVec.ofNat 256 next] = .ok (pairHash hashv (value, next)) ∧
      isCanonicalBn254ScalarBe (pairHash hashv (value, next)) = true :=
  hHashv.node (canonical_ofNat hvalue) (canonical_ofNat hnext)

theorem hash_eq {element : IndexedElement} (hvalue : element.value < fieldModulus) (hnext : next < fieldModulus) :
    element.hash hashv next = .ok (pairHash hashv (element.value, next)) := by
  rw [IndexedElement.hash, bigintToBeBytesArray_of_lt hvalue, bigintToBeBytesArray_of_lt hnext]
  change (hashv [BitVec.ofNat 256 element.value, BitVec.ofNat 256 next]).mapError _ = _
  rw [(hashv_pair hHashv hvalue hnext).1]
  rfl

end Total

theorem lt_of_hash_eq_ok (hfields : HashesFieldElements hashv) {element : IndexedElement} {digest : Bytes32}
    (h : element.hash hashv value = .ok digest) : value < fieldModulus := by
  obtain ⟨_, -, h⟩ := of_bind_ok h
  obtain ⟨bytes, hbytes, h⟩ := of_bind_ok h
  have hcanonical := hfields _ _ (mapError_eq_ok.mp h) bytes (by simp)
  have hbytes := mapError_eq_ok.mp hbytes
  unfold bigintToBeBytesArray at hbytes
  split at hbytes
  case isTrue hlt =>
    obtain rfl := Except.ok.inj hbytes
    rwa [isCanonicalBn254ScalarBe_iff, BitVec.toNat_ofNat, Nat.mod_eq_of_lt hlt] at hcanonical
  case isFalse => cases hbytes

namespace IndexedMerkleTree

/-- The array and the tree hold these pairs. -/
structure Tracks (hashv : Hashv) (tree : IndexedMerkleTree) (pairs : List (Nat × Nat)) : Prop where
  linked : tree.indexedArray.Linked pairs
  highest : tree.indexedArray.highestValue = nullifierInitNextValue
  holds : tree.merkleTree.Holds hashv (pairs.map (pairHash hashv))
  below : ∀ pair ∈ pairs, pair.1 < fieldModulus ∧ pair.2 < fieldModulus

def inserted (hashv : Hashv) (tree : IndexedMerkleTree) (pairs : List (Nat × Nat)) (low : IndexedElement)
    (value next : Nat) : IndexedMerkleTree where
  merkleTree := (tree.merkleTree.written hashv ((pairs.set low.index (low.value, value)).map (pairHash hashv))).written
    hashv ((IndexedList.insert pairs low.index low.value value next).map (pairHash hashv))
  indexedArray := tree.indexedArray.insertBundle low.index low (tree.indexedArray.bundleOf value next low)

theorem run_onArray_ok {α : Type} {act : EStateM IndexedArrayError IndexedArray α} {a : α} {array : IndexedArray}
    (h : act.run tree.indexedArray = .ok a array) :
    (onArray act).run tree = .ok a { tree with indexedArray := array } :=
  run_within_ok h

theorem run_onTree_eq_ok_iff {α : Type} {act : EStateM ReferenceMerkleTreeError MerkleTree α} {a : α} :
    (onTree act).run tree = .ok a tree' ↔
      ∃ merkle, act.run tree.merkleTree = .ok a merkle ∧ tree' = { tree with merkleTree := merkle } :=
  run_within_eq_ok_iff

theorem run_onArray_eq_ok_iff {α : Type} {act : EStateM IndexedArrayError IndexedArray α} {a : α} :
    (onArray act).run tree = .ok a tree' ↔
      ∃ array, act.run tree.indexedArray = .ok a array ∧ tree' = { tree with indexedArray := array } :=
  run_within_eq_ok_iff

theorem run_update_ok {merkle middle after : MerkleTree} {array : IndexedArray} {newLow new : IndexedElement}
    {lowLeaf leaf : Bytes32} (hlow : newLow.hash hashv new.value = .ok lowLeaf)
    (hupdate : (MerkleTree.update hashv lowLeaf newLow.index).run merkle = .ok () middle)
    (hnew : new.hash hashv next = .ok leaf) (happend : (MerkleTree.append hashv leaf).run middle = .ok () after) :
    (update hashv newLow new next).run ⟨merkle, array⟩ = .ok () ⟨after, array⟩ := by
  rw [update, hlow, hnew]
  simp only [mapErr_ok, pure_bind]
  exact (run_bind_of_ok (run_within_ok hupdate)).trans (run_within_ok happend)

namespace Tracks

variable (h : tree.Tracks hashv pairs)

include h

theorem root : tree.root = .ok (Merkle.root hashv.node 0 tree.merkleTree.height (pairs.map (pairHash hashv))) := by
  rw [IndexedMerkleTree.root, h.holds.root]
  rfl

theorem rightmostIndex : tree.merkleTree.rightmostIndex = pairs.length := by
  rw [h.holds.rightmostIndex, List.length_map]

theorem length_lt : pairs.length < 2 ^ 64 := by
  have hfits := h.holds.fits
  rw [List.length_map] at hfits
  exact hfits.trans_lt (Nat.pow_lt_pow_right one_lt_two (h.holds.height_le.trans_lt (by omega)))

section Append

variable (hHashv : hashv.Total) (hZero : hashv.DerivesZeroBytes)

include hHashv hZero

theorem run_append {low : IndexedElement} (hfinds : tree.indexedArray.Finds pairs value low next)
    (hvalue : value ∉ pairs.map Prod.fst) (hlt : value < fieldModulus)
    (hfit : pairs.length < 2 ^ tree.merkleTree.height) :
    (append hashv value).run tree = .ok () (inserted hashv tree pairs low value next) ∧
      (inserted hashv tree pairs low value next).Tracks hashv
        (IndexedList.insert pairs low.index low.value value next) := by
  have hpair : low.value < fieldModulus ∧ next < fieldModulus := h.below _ (List.mem_of_getElem? hfinds.pair)
  have harray := run_onArray_ok (hfinds.run_append h.linked h.length_lt)
  obtain ⟨hupdate, hmiddle⟩ := h.holds.run_update hHashv hZero (hashv_pair hHashv hpair.1 hlt).2
    (by rw [List.length_map]; exact hfinds.index_lt)
  have hmap : (pairs.map (pairHash hashv)).set low.index (pairHash hashv (low.value, value)) =
      (pairs.set low.index (low.value, value)).map (pairHash hashv) := (List.map_set ..).symm
  rw [hmap] at hupdate hmiddle
  obtain ⟨happend, hafter⟩ := hmiddle.run_append hHashv hZero (hashv_pair hHashv hlt hpair.2).2
    (by rw [List.length_map, List.length_set]; exact hfit)
  have hsnoc : (pairs.set low.index (low.value, value)).map (pairHash hashv) ++ [pairHash hashv (value, next)] =
      (IndexedList.insert pairs low.index low.value value next).map (pairHash hashv) := by
    rw [IndexedList.insert, List.map_append, List.map_singleton]
  rw [hsnoc] at happend hafter
  constructor
  · rw [append, run_bind_of_ok harray]
    exact run_update_ok (hash_eq hHashv hpair.1 hlt) hupdate (hash_eq hHashv hlt hpair.2) happend
  · refine ⟨hfinds.linked_insert h.linked hvalue, h.highest, hafter, ?_⟩
    intro pair hmem
    obtain ⟨j, hget⟩ := List.mem_iff_getElem?.mp hmem
    obtain ⟨-, rfl⟩ | ⟨-, rfl⟩ | ⟨-, hget⟩ := (IndexedList.getElem?_insert_eq_some hfinds.index_lt).mp hget
    · exact ⟨hpair.1, hlt⟩
    · exact ⟨hlt, hpair.2⟩
    · exact h.below pair (List.mem_of_getElem? hget)

theorem of_run_append (hfields : HashesFieldElements hashv) (hrun : (append hashv value).run tree = .ok () tree') :
    value ∉ pairs.map Prod.fst ∧ 0 < value ∧ value < fieldModulus ∧ pairs.length < 2 ^ tree.merkleTree.height := by
  obtain ⟨bundle, middle, hfirst, hrest⟩ := of_run_bind hrun
  obtain ⟨array, harray, rfl⟩ := run_onArray_eq_ok_iff.mp hfirst
  have hvalue : value ∉ pairs.map Prod.fst := by
    intro hmem
    rw [IndexedArray.append] at harray
    simp only [EStateM.run_bind, EStateM.run_get, IndexedArray.findLowElementIndexForNonexistent,
      if_pos (h.linked.any_byValue.mpr hmem), run_mapErr_error] at harray
    cases harray
  have hpos : 0 < value := by
    obtain ⟨next₀, hzero⟩ := h.linked.first
    refine Nat.pos_of_ne_zero ?_
    rintro rfl
    exact hvalue (List.mem_map.mpr ⟨_, List.mem_of_getElem? hzero, rfl⟩)
  obtain ⟨low, next, hfinds⟩ := h.linked.exists_finds hvalue hpos
  have hpair : low.value < fieldModulus ∧ next < fieldModulus := h.below _ (List.mem_of_getElem? hfinds.pair)
  obtain ⟨rfl, rfl⟩ := EStateM.Result.ok.inj ((hfinds.run_append h.linked h.length_lt).symm.trans harray)
  -- the value is hashed
  obtain ⟨lowLeaf, hlow, hrest⟩ := of_run_mapErr_bind hrest
  have hlt : value < fieldModulus := lt_of_hash_eq_ok hfields hlow
  have hhash : (tree.indexedArray.bundleOf value next low).newLowElement.hash hashv value =
      .ok (pairHash hashv (low.value, value)) := hash_eq hHashv hpair.1 hlt
  obtain rfl := Except.ok.inj (hhash.symm.trans hlow)
  -- and a leaf is appended
  obtain ⟨_, _, hupdate, hrest⟩ := of_run_bind hrest
  obtain ⟨merkle, hmerkle, rfl⟩ := run_onTree_eq_ok_iff.mp hupdate
  obtain ⟨hupdated, hholds⟩ := h.holds.run_update hHashv hZero (hashv_pair hHashv hpair.1 hlt).2
    (by rw [List.length_map]; exact hfinds.index_lt)
  obtain ⟨-, rfl⟩ := EStateM.Result.ok.inj (hupdated.symm.trans hmerkle)
  obtain ⟨newLeaf, -, happend⟩ := of_run_mapErr_bind hrest
  obtain ⟨_, hlast, -⟩ := run_onTree_eq_ok_iff.mp happend
  have hroom := hholds.lt_of_run_append hlast
  rw [List.length_set, List.length_map] at hroom
  exact ⟨hvalue, hpos, hlt, hroom⟩

end Append

end Tracks

inductive Reached (hashv : Hashv) (height : UInt32) : IndexedMerkleTree → Prop
  | start {tree : IndexedMerkleTree} : referenceNullifierTree hashv height = .ok tree → Reached hashv height tree
  | append {tree tree' : IndexedMerkleTree} {value : Nat} : Reached hashv height tree →
      (append hashv value).run tree = .ok () tree' → Reached hashv height tree'

theorem tracks_start {height : UInt32} (hHashv : hashv.Total) (hZero : hashv.DerivesZeroBytes)
    (h : referenceNullifierTree hashv height = .ok tree) :
    tree.merkleTree.height = height.toNat ∧ tree.Tracks hashv [(0, nullifierInitNextValue)] := by
  have hlt := nullifierInitNextValue_lt
  have hhash : (⟨0, 0, 0⟩ : IndexedElement).hash hashv nullifierInitNextValue =
      .ok (pairHash hashv (0, nullifierInitNextValue)) := hash_eq hHashv (Nat.zero_lt_of_lt hlt) hlt
  rw [referenceNullifierTree, newWithNextValue] at h
  obtain ⟨merkle, hmerkle, h⟩ := of_bind_ok h
  have hnew := mapError_eq_ok.mp hmerkle
  obtain ⟨first, hfirst, h⟩ := of_bind_ok h
  obtain rfl : ⟨0, 0, 0⟩ = first := Except.ok.inj (mapError_eq_ok.mp hfirst)
  obtain ⟨leaf, hleaf, h⟩ := of_bind_ok h
  obtain rfl := Except.ok.inj (hhash.symm.trans (mapError_eq_ok.mp hleaf))
  have hpos : 0 < height.toNat := by
    refine Nat.pos_of_ne_zero fun hzero => ?_
    rw [hzero] at hnew
    rw [MerkleTree.run_append_of_height_zero hnew] at h
    cases h
  obtain ⟨hheight, hholds⟩ := MerkleTree.holds_new hZero hpos hnew
  obtain ⟨hrun, hholds'⟩ := hholds.run_append hHashv hZero
    (hashv_pair hHashv (Nat.zero_lt_of_lt hlt) hlt).2 (Nat.two_pow_pos _)
  rw [hrun] at h
  obtain rfl := Except.ok.inj h
  refine ⟨hheight, IndexedArray.linked_new nullifierInitNextValue, rfl, hholds', ?_⟩
  intro pair hmem
  obtain rfl := List.mem_singleton.mp hmem
  exact ⟨Nat.zero_lt_of_lt hlt, hlt⟩

theorem Reached.tracks {height : UInt32} (hHashv : hashv.Total) (hZero : hashv.DerivesZeroBytes)
    (hfields : HashesFieldElements hashv) (h : Reached hashv height tree) :
    tree.merkleTree.height = height.toNat ∧ ∃ pairs, tree.Tracks hashv pairs := by
  induction h with
  | start h =>
      obtain ⟨hheight, htracks⟩ := tracks_start hHashv hZero h
      exact ⟨hheight, _, htracks⟩
  | append _ hrun ih =>
      obtain ⟨hheight, pairs, htracks⟩ := ih
      obtain ⟨hvalue, hpos, hlt, hfit⟩ := htracks.of_run_append hHashv hZero hfields hrun
      obtain ⟨low, next, hfinds⟩ := htracks.linked.exists_finds hvalue hpos
      obtain ⟨hrun', htracks'⟩ := htracks.run_append hHashv hZero hfinds hvalue hlt hfit
      obtain ⟨-, rfl⟩ := EStateM.Result.ok.inj (hrun'.symm.trans hrun)
      exact ⟨hheight, _, htracks'⟩

end IndexedMerkleTree

end Zolana.Forester
