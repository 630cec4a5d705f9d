import Zolana.Forester.MerkleTree
import Zolana.Lib.MerklePath
import Zolana.Lib.Results
import Zolana.Proof.UtxoAppend

/-!
# The reference tree

The layers are those of the leaves and the last root is the one of the perfect tree over them, after an append and after
an update.
-/

namespace Zolana.Forester

open Fallible LayeredTree

variable {hashv : Hashv} {leaves : List Bytes32} {leaf : Bytes32} {i : Nat} {tree : MerkleTree}

namespace MerkleTree

structure Holds (hashv : Hashv) (tree : MerkleTree) (leaves : List Bytes32) : Prop where
  height_pos : 0 < tree.height
  height_le : tree.height ≤ 40
  capacity : tree.capacity = 2 ^ tree.height
  layers : tree.layers = layersOf hashv.node 0 tree.height leaves
  roots : tree.roots.getLast? = some (Merkle.root hashv.node 0 tree.height leaves)
  rightmostIndex : tree.rightmostIndex = leaves.length
  fits : leaves.length ≤ 2 ^ tree.height
  canonical : ∀ leaf ∈ leaves, isCanonicalBn254ScalarBe leaf = true

theorem layer_of_getElem? {level : Nat} {below : List Bytes32} (h : tree.layers[level]? = some below) :
    tree.layer level = .ok below := by
  rw [layer, h]

theorem Holds.root (h : tree.Holds hashv leaves) :
    tree.root = .ok (Merkle.root hashv.node 0 tree.height leaves) := by
  rw [MerkleTree.root, h.roots]

theorem Holds.layer_zero (h : tree.Holds hashv leaves) : tree.layer 0 = .ok leaves := by
  refine layer_of_getElem? ?_
  rw [h.layers, getElem?_layersOf h.height_pos, layerOf_zero]

/-- The tree behind a method that left these leaves. -/
def written (hashv : Hashv) (tree : MerkleTree) (leaves : List Bytes32) : MerkleTree :=
  { tree with
    layers := layersOf hashv.node 0 tree.height leaves
    roots := tree.roots ++ [Merkle.root hashv.node 0 tree.height leaves]
    rightmostIndex := leaves.length
    sequenceNumber := tree.sequenceNumber + 1 }

theorem Holds.holds_written (h : tree.Holds hashv leaves) {leaves' : List Bytes32}
    (hfits : leaves'.length ≤ 2 ^ tree.height)
    (hcanonical : ∀ leaf ∈ leaves', isCanonicalBn254ScalarBe leaf = true) :
    (tree.written hashv leaves').Holds hashv leaves' :=
  ⟨h.height_pos, h.height_le, h.capacity, rfl, List.getLast?_concat .., rfl, hfits, hcanonical⟩

section Hashing

variable (hHashv : hashv.Total) (hZero : hashv.DerivesZeroBytes)

include hHashv hZero

theorem hashChildren_eq {level : Nat} (hlevel : level < 40)
    (hcanonical : ∀ leaf ∈ leaves, isCanonicalBn254ScalarBe leaf = true)
    (hlayer : tree.layers[level]? = some (layerOf hashv.node 0 leaves level)) (i : Nat) :
    tree.hashChildren hashv level i =
      .ok (Merkle.nodeAt hashv.node (Merkle.padded 0 leaves) (level + 1) i) := by
  have hempty := hZero.emptyRoots le_rfl
  have hnode := UtxoTreeLayout.nodeAt_canonical hHashv hcanonical level
  rw [hashChildren, bind_of_eq_ok (layer_of_getElem? hlayer)]
  dsimp only
  rw [getD_layerOf hempty hlevel.le, getD_layerOf hempty hlevel.le, (hHashv.node (hnode _) (hnode _)).1, Merkle.nodeAt,
    Nat.mul_comm i 2]
  rfl

theorem run_updateLevels {x : Bytes32} (hi : i ≤ leaves.length)
    (hcanonical : ∀ leaf ∈ setOrPush leaves i x, isCanonicalBn254ScalarBe leaf = true) {count done : Nat}
    (hheight : done + 1 + count = tree.height) (hbound : tree.height ≤ 40)
    (hlayers : tree.layers = layersBelow hashv.node 0 tree.height leaves (setOrPush leaves i x) (done + 1)) :
    (updateLevels hashv (List.range' (done + 1) count) (i / 2 ^ done)).run tree =
      .ok () { tree with layers := layersOf hashv.node 0 tree.height (setOrPush leaves i x) } := by
  induction count generalizing done tree with
  | zero =>
      rw [Nat.add_zero] at hheight
      rw [hheight, layersBelow_height] at hlayers
      rw [← hlayers]
      rfl
  | succ count ih =>
      have hbelow : tree.layers[done]? = some (layerOf hashv.node 0 (setOrPush leaves i x) done) := by
        rw [hlayers, getElem?_layersBelow (by omega), if_pos (Nat.lt_succ_self done)]
      have hlevel : tree.layers[done + 1]? = some (layerOf hashv.node 0 leaves (done + 1)) := by
        rw [hlayers, getElem?_layersBelow (by omega), if_neg (lt_irrefl _)]
      have hposition : i / 2 ^ done / 2 = i / 2 ^ (done + 1) := (Merkle.div_two_pow_succ i done).symm
      rw [List.range'_succ, updateLevels]
      simp only [EStateM.run_bind, EStateM.run_get, Nat.add_sub_cancel, hposition]
      rw [hashChildren_eq hHashv hZero (by omega) hcanonical hbelow, layer_of_getElem? hlevel]
      simp only [mapErr_ok, EStateM.run_pure, EStateM.run_set]
      rw [layerOf_setOrPush hi]
      refine ih ?_ ?_ ?_
      · change done + 1 + 1 + count = tree.height
        omega
      · exact hbound
      · change tree.layers.set (done + 1) _ = _
        rw [hlayers, set_layersBelow]

/-- A leaf that is written, in the leaves alone so far, reaches the root. -/
theorem run_updateUpperLayers (tree : MerkleTree) {x : Bytes32} (hi : i ≤ leaves.length)
    (hcanonical : ∀ leaf ∈ setOrPush leaves i x, isCanonicalBn254ScalarBe leaf = true)
    (hpos : 0 < tree.height) (hbound : tree.height ≤ 40)
    (hlayers : tree.layers = (layersOf hashv.node 0 tree.height leaves).set 0 (setOrPush leaves i x)) :
    (updateUpperLayers hashv i).run tree = .ok () { tree with
      layers := layersOf hashv.node 0 tree.height (setOrPush leaves i x)
      roots := tree.roots ++ [Merkle.root hashv.node 0 tree.height (setOrPush leaves i x)] } := by
  have hstart : tree.layers = layersBelow hashv.node 0 tree.height leaves (setOrPush leaves i x) (0 + 1) := by
    rw [hlayers, ← set_layersBelow, layersBelow_zero, layerOf_zero]
  have hloop := run_updateLevels hHashv hZero hi hcanonical (by omega : 0 + 1 + (tree.height - 1) = tree.height)
    hbound hstart
  rw [pow_zero, Nat.div_one, Nat.zero_add] at hloop
  have hroot : Merkle.nodeAt hashv.node (Merkle.padded 0 (setOrPush leaves i x)) (tree.height - 1 + 1) 0 =
      Merkle.root hashv.node 0 tree.height (setOrPush leaves i x) := by
    rw [Nat.sub_add_cancel hpos, Merkle.root]
  rw [updateUpperLayers]
  simp only [EStateM.run_bind, EStateM.run_get, hloop]
  rw [hashChildren_eq hHashv hZero (by omega) hcanonical (getElem?_layersOf (by omega)), hroot]
  rfl

theorem Holds.run_append (h : tree.Holds hashv leaves) (hleaf : isCanonicalBn254ScalarBe leaf = true)
    (hfit : leaves.length < 2 ^ tree.height) :
    (append hashv leaf).run tree = .ok () (tree.written hashv (leaves ++ [leaf])) ∧
      (tree.written hashv (leaves ++ [leaf])).Holds hashv (leaves ++ [leaf]) := by
  have hcanonical := forall_mem_setOrPush h.canonical hleaf leaves.length
  have hroom : leaves.length ≠ tree.capacity := by
    rw [h.capacity]
    exact hfit.ne
  have hupper := run_updateUpperLayers hHashv hZero
    { tree with layers := tree.layers.set 0 (leaves ++ [leaf]), rightmostIndex := leaves.length + 1 }
    (le_refl leaves.length) hcanonical h.height_pos h.height_le (by rw [setOrPush_length, ← h.layers])
  rw [setOrPush_length] at hcanonical hupper
  refine ⟨?_, h.holds_written (by rwa [List.length_append, List.length_singleton]) hcanonical⟩
  rw [append]
  simp only [EStateM.run_bind, EStateM.run_get, h.layer_zero, mapErr_ok, EStateM.run_pure, EStateM.run_set,
    if_neg hroom, EStateM.run_modify, h.rightmostIndex, hupper]
  rw [written, List.length_append, List.length_singleton]

theorem Holds.run_update (h : tree.Holds hashv leaves) (hleaf : isCanonicalBn254ScalarBe leaf = true)
    (hi : i < leaves.length) :
    (update hashv leaf i).run tree = .ok () (tree.written hashv (leaves.set i leaf)) ∧
      (tree.written hashv (leaves.set i leaf)).Holds hashv (leaves.set i leaf) := by
  have hcanonical := forall_mem_setOrPush h.canonical hleaf i
  have hupper := run_updateUpperLayers hHashv hZero { tree with layers := tree.layers.set 0 (leaves.set i leaf) }
    hi.le hcanonical h.height_pos h.height_le (by rw [setOrPush_of_lt hi, ← h.layers])
  rw [setOrPush_of_lt hi] at hcanonical hupper
  refine ⟨?_, h.holds_written (by rw [List.length_set]; exact h.fits) hcanonical⟩
  rw [update]
  simp only [EStateM.run_bind, EStateM.run_get, h.layer_zero, mapErr_ok, EStateM.run_pure, EStateM.run_set,
    if_neg (not_le.mpr hi), EStateM.run_modify, hupper]
  rw [written, List.length_set, ← h.rightmostIndex]

end Hashing

theorem Holds.lt_of_run_append (h : tree.Holds hashv leaves) {tree' : MerkleTree}
    (hrun : (append hashv leaf).run tree = .ok () tree') : leaves.length < 2 ^ tree.height := by
  refine lt_of_le_of_ne h.fits ?_
  intro hfull
  have hroom : leaves.length = tree.capacity := by rw [h.capacity, hfull]
  rw [append] at hrun
  simp only [EStateM.run_bind, EStateM.run_get, h.layer_zero, mapErr_ok, EStateM.run_pure, EStateM.run_set,
    h.rightmostIndex, if_pos hroom, run_throw] at hrun
  cases hrun

theorem holds_new {height : Nat} (hZero : hashv.DerivesZeroBytes) (hpos : 0 < height)
    (h : MerkleTree.new height = .ok tree) : tree.height = height ∧ tree.Holds hashv [] := by
  unfold MerkleTree.new at h
  split at h
  case h_1 => cases h
  case h_2 root hroot =>
    have hheight : height ≤ 40 := by
      have := (List.getElem?_eq_some_iff.mp hroot).1
      rw [length_zeroBytes] at this
      omega
    obtain rfl := Except.ok.inj h
    refine ⟨rfl, hpos, hheight, rfl, ?_, ?_, rfl, Nat.zero_le _, by simp⟩
    · refine (List.eq_replicate_iff.mpr ⟨by simp [layersOf], ?_⟩).symm
      intro layer hmem
      obtain ⟨level, -, rfl⟩ := List.mem_map.mp hmem
      simp [layerOf, width]
    · rw [getElem?_zeroBytes hheight] at hroot
      rw [(hZero.emptyRoots hheight).root_nil, ← Option.some.inj hroot]
      rfl

theorem run_append_of_height_zero (h : MerkleTree.new 0 = .ok tree) :
    (append hashv leaf).run tree = .error .panicked tree := by
  obtain rfl := Except.ok.inj h
  rfl

/-! ### Proofs -/

theorem siblingIndex_eq (index : Nat) :
    (if index % 2 = 0 then index + 1 else index - 1) = MerklePath.sibling index := by
  unfold MerklePath.sibling
  split <;> split <;> omega

section Paths

variable {β : Type} {node : β → β → Option β} {read : Bytes32 → β} {leaf' : Nat → β}
  (hread : ∀ level j, MerklePath.nodeAt node leaf' level j =
    some (read (Merkle.nodeAt hashv.node (Merkle.padded 0 leaves) level j)))

include hread

/-- The loop collects the siblings on the way up, whether they are there or empty. -/
theorem proofLevels_eq (hZero : hashv.DerivesZeroBytes) {level count : Nat} (hheight : level + count ≤ 40)
    (hlayers : ∀ l, l < level + count → tree.layers[l]? = some (layerOf hashv.node 0 leaves l)) (index : Nat) :
    ∃ proof, tree.proofLevels (List.range' level count) index = .ok proof ∧ proof.length = count ∧
      MerklePath.IsPath node leaf' level index (proof.map read) := by
  induction count generalizing level index with
  | zero => exact ⟨[], rfl, rfl, trivial⟩
  | succ count ih =>
      have hheight' : level + 1 + count ≤ 40 := by omega
      obtain ⟨proof, hproof, hlength, hpath⟩ := ih hheight' (fun l hl => hlayers l (by omega)) (index / 2)
      have hlayer := layer_of_getElem? (hlayers level (by omega))
      refine ⟨Merkle.nodeAt hashv.node (Merkle.padded 0 leaves) level (MerklePath.sibling index) :: proof, ?_, ?_, ?_⟩
      · rw [List.range'_succ, proofLevels, bind_of_eq_ok hlayer, bind_of_eq_ok hproof, siblingIndex_eq,
          getD_layerOf (hZero.emptyRoots le_rfl) (by omega)]
        rfl
      · rw [List.length_cons, hlength]
      · exact ⟨hread level _, hpath⟩

theorem Holds.getProofOfLeaf_eq (hZero : hashv.DerivesZeroBytes) (h : tree.Holds hashv leaves) (index : Nat) :
    ∃ proof, tree.getProofOfLeaf index = .ok proof ∧ proof.length = tree.height ∧
      MerklePath.IsPath node leaf' 0 index (proof.map read) := by
  rw [getProofOfLeaf, List.range_eq_range']
  have hheight := h.height_le
  refine proofLevels_eq hread hZero (by omega) ?_ index
  intro l hl
  rw [h.layers, getElem?_layersOf (by omega)]

end Paths

end MerkleTree

end Zolana.Forester
