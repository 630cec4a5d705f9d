import Zolana.Proof.ForesterWitness
import Zolana.Properties.UtxoTree

/-!
# The forester's witnesses

Successive calls of `build_inputs` on one reference tree each give a witness of the batch append circuit, and together
append their values one by one, however these are cut into batches.
-/

namespace Zolana.Forester

open Circuits BatchAddressTreeAppendCircuit Fallible

structure BatchWitness (hashv : Hashv) (poseidon : Poseidon) (height : UInt32) (tree : IndexedMerkleTree)
    (batch : List Bytes32) (result : BatchAddressAppendInputs × Bytes32) (tree' : IndexedMerkleTree) : Prop where
  appended : (appendValues hashv (batch.map BitVec.toNat)).run tree = .ok () tree'
  newRoot : tree'.root = .ok result.2
  newElementValues : result.1.newElementValues = batch.map BitVec.toNat
  batchSize : result.1.batchSize.toNat = batch.length
  treeHeight : result.1.treeHeight = height
  satisfied : batch ≠ [] → result.1.circuit.define poseidon = some ()

/-- What successive calls give, each on the tree that the one before left. -/
inductive WitnessChain (hashv : Hashv) (poseidon : Poseidon) (height : UInt32) : IndexedMerkleTree →
    List (List Bytes32) → List (BatchAddressAppendInputs × Bytes32) → IndexedMerkleTree → Prop
  | nil (tree : IndexedMerkleTree) : WitnessChain hashv poseidon height tree [] [] tree
  | cons {tree middle tree' : IndexedMerkleTree} {batch : List Bytes32} {batches : List (List Bytes32)}
      {result : BatchAddressAppendInputs × Bytes32} {results : List (BatchAddressAppendInputs × Bytes32)} :
      BatchWitness hashv poseidon height tree batch result middle →
      WitnessChain hashv poseidon height middle batches results tree' →
      WitnessChain hashv poseidon height tree (batch :: batches) (result :: results) tree'

variable {hashv : Hashv} {poseidon : Poseidon} {height : UInt32} {tree tree' : IndexedMerkleTree}
  {pairs : List (Nat × Nat)}

theorem circuit_ofRows (rows : List WitnessRow) (batchSize treeHeight : UInt32) (startIndex : Nat)
    (oldRoot newRoot leavesHashChain publicInputHash : Bytes32) :
    (BatchAddressAppendInputs.ofRows rows batchSize treeHeight startIndex oldRoot newRoot leavesHashChain
      publicInputHash).circuit =
      ofRows (rows.map WitnessRow.appendRow) batchSize treeHeight startIndex (fieldOf oldRoot) (fieldOf newRoot)
        (fieldOf leavesHashChain) (fieldOf publicInputHash) := by
  simp only [BatchAddressAppendInputs.circuit, BatchAddressAppendInputs.ofRows, ofRows, List.map_map]
  rfl

theorem define_circuit_ofRows (himplements : hashv.Implements poseidon) {rows : List WitnessRow} {batchSize : UInt32}
    {startIndex : Nat} {oldRoot newRoot chain digest : Bytes32} {batch : List Bytes32} (hbatch : batchSize ≠ 0)
    (hheight : height ≠ 0) (hlength : rows.length = batchSize.toNat)
    (hproofs : ∀ row ∈ rows, row.appendRow.lowProof.length = height.toNat ∧
      row.appendRow.newProof.length = height.toNat)
    (hrounds : Rounds poseidon height.toNat startIndex (rows.map WitnessRow.appendRow) (fieldOf oldRoot)
      (fieldOf newRoot))
    (hstart : startIndex < fieldModulus) (hnew : rows.map WitnessRow.newElementValue = batch.map BitVec.toNat)
    (hchain : createHashChain4 hashv batch = .ok chain)
    (hdigest : createHashChain4 hashv [oldRoot, newRoot, chain, u64ToBytes32 startIndex] = .ok digest) :
    (BatchAddressAppendInputs.ofRows rows batchSize height startIndex oldRoot newRoot chain digest).circuit.define
      poseidon = some () := by
  have hlength' : (rows.map WitnessRow.appendRow).length = batchSize.toNat := by rw [List.length_map, hlength]
  have hvalues : (rows.map WitnessRow.appendRow).map AppendRow.newValue = batch.map fieldOf := by
    have hcast := congrArg (List.map (Nat.cast : Nat → Fr)) hnew
    rw [map_cast_toNat, List.map_map] at hcast
    rw [List.map_map, ← hcast]
    rfl
  rw [circuit_ofRows]
  refine define_ofRows hbatch hheight hlength' (List.forall_mem_map.mpr hproofs) hrounds ?_ ?_
  · have hleaves := createHashChain4_fieldOf himplements hchain
    rwa [← hvalues] at hleaves
  · have hinputs := createHashChain4_fieldOf himplements hdigest
    rwa [List.map_cons, List.map_cons, List.map_cons, List.map_singleton, u64ToBytes32, fieldOf_ofNat hstart] at hinputs

section Calls

variable (hHashv : hashv.Total) (hZero : hashv.DerivesZeroBytes) (himplements : hashv.Implements poseidon)

theorem canonical_of_fresh {batch : List Bytes32} (hfresh : Fresh height.toNat pairs (batch.map BitVec.toNat)) :
    ∀ value ∈ batch, isCanonicalBn254ScalarBe value = true := by
  intro value hmem
  rw [isCanonicalBn254ScalarBe_iff]
  exact (hfresh.between _ (List.mem_map_of_mem hmem)).2.trans nullifierInitNextValue_lt

include hHashv in
theorem canonical_rootOf (h : tree.Tracks hashv pairs) : isCanonicalBn254ScalarBe (tree.rootOf hashv pairs) = true :=
  UtxoTreeLayout.nodeAt_canonical hHashv h.holds.canonical _ 0

include hHashv hZero himplements in
theorem run_buildInputs (h : tree.Tracks hashv pairs) (hheight : tree.merkleTree.height = height.toNat)
    {batch : List Bytes32} (hfresh : Fresh height.toNat pairs (batch.map BitVec.toNat))
    (hsize : batch.length < 2 ^ 32) {chain : Bytes32} (hchain : createHashChain4 hashv batch = .ok chain)
    (hcanonical : isCanonicalBn254ScalarBe chain = true) :
    ∃ inputs tree' pairs', Grows hashv (batch.map BitVec.toNat) tree pairs tree' pairs' ∧
      (buildInputs hashv pairs.length height chain (tree.rootOf hashv pairs) batch).run tree =
        .ok (inputs, tree'.rootOf hashv pairs') tree' ∧
      BatchWitness hashv poseidon height tree batch (inputs, tree'.rootOf hashv pairs') tree' := by
  obtain ⟨rows, tree', pairs', hrows, hgrows, hnew, hproofs, hrounds⟩ :=
    run_buildRows hHashv hZero himplements h (hheight.symm ▸ hfresh) (Nat.add_zero pairs.length)
  have hroot : tree.rootOf hashv pairs' = tree'.rootOf hashv pairs' := by
    rw [IndexedMerkleTree.rootOf, IndexedMerkleTree.rootOf, hgrows.height]
  rw [hroot] at hrounds
  have hposition : pairs.length < fieldModulus := by
    have hfits := hfresh.fits
    have hsmall := two_pow_lt_fieldModulus (hheight ▸ h.holds.height_le.trans (by omega))
    omega
  have hpublic : ∀ input ∈ [tree.rootOf hashv pairs, tree'.rootOf hashv pairs', chain, u64ToBytes32 pairs.length],
      isCanonicalBn254ScalarBe input = true := by
    intro input hmem
    simp only [List.mem_cons, List.not_mem_nil, or_false] at hmem
    obtain rfl | rfl | rfl | rfl := hmem
    · exact canonical_rootOf hHashv h
    · exact canonical_rootOf hHashv hgrows.tracks
    · exact hcanonical
    · exact canonical_ofNat hposition
  obtain ⟨digest, hdigest, -⟩ := createHashChain4_total hHashv hpublic
  have hbatchSize : (UInt32.ofNat batch.length).toNat = batch.length := by
    rw [UInt32.toNat_ofNat', Nat.mod_eq_of_lt hsize]
  have hlength : rows.length = batch.length := by simpa using congrArg List.length hnew
  refine ⟨.ofRows rows (UInt32.ofNat batch.length) height pairs.length (tree.rootOf hashv pairs)
    (tree'.rootOf hashv pairs') chain digest, tree', pairs', hgrows, ?_, hgrows.append, hgrows.tracks.root, hnew,
    hbatchSize, rfl, ?_⟩
  · have hroot : tree.root = .ok (tree.rootOf hashv pairs) := h.root
    have hroot' : tree'.root = .ok (tree'.rootOf hashv pairs') := hgrows.tracks.root
    rw [buildInputs]
    simp only [EStateM.run_bind, EStateM.run_get, if_neg (not_le.mpr hsize), hheight, h.rightmostIndex, ne_eq,
      not_true_eq_false, or_self, if_false, EStateM.run_pure, hroot, mapErr_ok, hrows, hroot', hdigest]
  · intro hne
    have hbatch : UInt32.ofNat batch.length ≠ 0 := by
      intro hzero
      rw [hzero] at hbatchSize
      exact hne (List.length_eq_zero_iff.mp hbatchSize.symm)
    have hheight_ne : height ≠ 0 := by
      rintro rfl
      exact absurd h.holds.height_pos (by rw [hheight]; exact lt_irrefl 0)
    rw [hheight] at hproofs hrounds
    exact define_circuit_ofRows himplements hbatch hheight_ne (hlength.trans hbatchSize.symm) hproofs hrounds hposition
      hnew hchain hdigest

include hHashv hZero himplements in
theorem run_buildBatches (h : tree.Tracks hashv pairs) (hheight : tree.merkleTree.height = height.toNat)
    {batches : List (List Bytes32)} (hfresh : Fresh height.toNat pairs (batches.flatten.map BitVec.toNat))
    (hsizes : ∀ batch ∈ batches, batch.length < 2 ^ 32) :
    ∃ results tree' pairs', Grows hashv (batches.flatten.map BitVec.toNat) tree pairs tree' pairs' ∧
      (buildBatches hashv height pairs.length (tree.rootOf hashv pairs) batches).run tree = .ok results tree' ∧
      WitnessChain hashv poseidon height tree batches results tree' := by
  induction batches generalizing tree pairs with
  | nil => exact ⟨[], tree, pairs, .refl h, rfl, .nil tree⟩
  | cons batch batches ih =>
      obtain ⟨hsize, hsizes⟩ := List.forall_mem_cons.mp hsizes
      rw [List.flatten_cons, List.map_append] at hfresh ⊢
      obtain ⟨chain, hchain, hcanonical⟩ := createHashChain4_total hHashv (canonical_of_fresh hfresh.left)
      obtain ⟨inputs, middle, pairs₁, hgrows, hrun, hwitness⟩ :=
        run_buildInputs hHashv hZero himplements h hheight hfresh.left hsize hchain hcanonical
      obtain ⟨results, tree', pairs₂, hgrows', hruns, hchained⟩ :=
        ih hgrows.tracks (hgrows.height.trans hheight) (hfresh.right hgrows.values) hsizes
      refine ⟨(inputs, middle.rootOf hashv pairs₁) :: results, tree', pairs₂, hgrows.trans hgrows', ?_,
        .cons hwitness hchained⟩
      rw [hgrows.length_eq, List.length_map] at hruns
      rw [buildBatches, hchain, mapErr_ok, pure_bind, run_bind_of_ok hrun]
      dsimp only
      rw [run_bind_of_ok hruns]
      rfl

end Calls

theorem IndexedArray.Linked.map_value {array : IndexedArray} (h : array.Linked pairs) :
    array.elements.map IndexedElement.value = pairs.map Prod.fst := by
  refine List.ext_getElem? fun j => ?_
  rw [List.getElem?_map, List.getElem?_map]
  cases hget : pairs[j]? with
  | none => rw [List.getElem?_eq_none (h.length.trans_le (List.getElem?_eq_none_iff.mp hget))]; rfl
  | some pair =>
      obtain ⟨nextIndex, helement, -⟩ := h.element hget
      rw [helement]
      rfl

theorem run_buildInputs_mismatch {root : Bytes32} (hroot : tree.root = .ok root) {nextIndex : Nat} {oldRoot : Bytes32}
    (h : tree.merkleTree.height ≠ height.toNat ∨ tree.merkleTree.rightmostIndex ≠ nextIndex ∨ root ≠ oldRoot)
    (leavesHashChain : Bytes32) (batch : List Bytes32) :
    (buildInputs hashv nextIndex height leavesHashChain oldRoot batch).run tree =
      .error (if 2 ^ 32 ≤ batch.length then .batchSize else .mismatch) tree := by
  rw [buildInputs]
  by_cases hsize : 2 ^ 32 ≤ batch.length
  · simp only [EStateM.run_bind, if_pos hsize, run_throw]
  · by_cases hdescribes : tree.merkleTree.height ≠ height.toNat ∨ tree.merkleTree.rightmostIndex ≠ nextIndex
    · simp only [EStateM.run_bind, EStateM.run_get, if_neg hsize, if_pos hdescribes, run_throw]
    · have hother : root ≠ oldRoot := by tauto
      simp only [EStateM.run_bind, EStateM.run_get, EStateM.run_pure, if_neg hsize, if_neg hdescribes, hroot, mapErr_ok,
        if_pos hother, run_throw]

/-- Values that are new to a reference tree and fit it can be cut into batches in any way, of fewer than `2 ^ 32` values
each. The calls succeed and lead to the tree behind single appends, and every batch with values has a witness that
satisfies the circuit. A call for another height, index or root changes nothing. -/
theorem forester_witnesses_chain (hHashv : hashv.Total) (hZero : hashv.DerivesZeroBytes)
    (hfields : HashesFieldElements hashv) (himplements : hashv.Implements poseidon)
    (hreached : tree.Reached hashv height) : ∃ root, tree.root = .ok root ∧
      (∀ values : List Bytes32, values.Nodup →
        (∀ value ∈ values, 0 < value.toNat ∧ value.toNat < nullifierInitNextValue ∧
          value.toNat ∉ tree.indexedArray.elements.map IndexedElement.value) →
        tree.merkleTree.rightmostIndex + values.length ≤ 2 ^ height.toNat →
        ∃ tree', (appendValues hashv (values.map BitVec.toNat)).run tree = .ok () tree' ∧
          ∀ batches : List (List Bytes32), batches.flatten = values → (∀ batch ∈ batches, batch.length < 2 ^ 32) →
            ∃ results,
              (buildBatches hashv height tree.merkleTree.rightmostIndex root batches).run tree = .ok results tree' ∧
              WitnessChain hashv poseidon height tree batches results tree') ∧
      ∀ nextIndex (height' : UInt32) leavesHashChain oldRoot batch,
        tree.merkleTree.height ≠ height'.toNat ∨ tree.merkleTree.rightmostIndex ≠ nextIndex ∨ root ≠ oldRoot →
        (buildInputs hashv nextIndex height' leavesHashChain oldRoot batch).run tree =
          .error (if 2 ^ 32 ≤ batch.length then .batchSize else .mismatch) tree := by
  obtain ⟨hheight, pairs, htracks⟩ := hreached.tracks hHashv hZero hfields
  have hroot : tree.root = .ok (tree.rootOf hashv pairs) := htracks.root
  refine ⟨_, hroot, ?_, ?_⟩
  · intro values hnodup hvalues hfit
    rw [htracks.rightmostIndex] at hfit ⊢
    have hfresh : Fresh height.toNat pairs (values.map BitVec.toNat) := by
      refine ⟨hnodup.map fun _ _ => BitVec.eq_of_toNat_eq, ?_, ?_, by rwa [List.length_map]⟩
      · refine List.forall_mem_map.mpr fun value hmem => ?_
        rw [← htracks.linked.map_value]
        exact (hvalues value hmem).2.2
      · exact List.forall_mem_map.mpr fun value hmem => ⟨(hvalues value hmem).1, (hvalues value hmem).2.1⟩
    obtain ⟨-, tree', pairs', -, hgrows, -⟩ := run_buildRows hHashv hZero himplements htracks (hheight.symm ▸ hfresh)
      (Nat.add_zero pairs.length)
    refine ⟨tree', hgrows.append, ?_⟩
    rintro batches rfl hsizes
    obtain ⟨results, reached, pairs'', hgrows', hrun, hchained⟩ :=
      run_buildBatches hHashv hZero himplements htracks hheight hfresh hsizes
    obtain ⟨-, rfl⟩ := EStateM.Result.ok.inj (hgrows.append.symm.trans hgrows'.append)
    exact ⟨results, hrun, hchained⟩
  · intro nextIndex height' leavesHashChain oldRoot batch hother
    exact run_buildInputs_mismatch hroot hother leavesHashChain batch

/-! ### Batches without a witness -/

theorem exists_referenceNullifierTree (hHashv : hashv.Total) (hZero : hashv.DerivesZeroBytes)
    (hpos : 0 < height.toNat) (hle : height.toNat ≤ 40) : ∃ tree, referenceNullifierTree hashv height = .ok tree := by
  have hlt := nullifierInitNextValue_lt
  have hhash : (⟨0, 0, 0⟩ : IndexedElement).hash hashv nullifierInitNextValue =
      .ok (pairHash hashv (0, nullifierInitNextValue)) := hash_eq hHashv (Nat.zero_lt_of_lt hlt) hlt
  obtain ⟨merkle, hnew⟩ : ∃ merkle, MerkleTree.new height.toNat = .ok merkle := by
    rw [MerkleTree.new, getElem?_zeroBytes hle]
    exact ⟨_, rfl⟩
  obtain ⟨-, hholds⟩ := MerkleTree.holds_new hZero hpos hnew
  obtain ⟨hrun, -⟩ := hholds.run_append hHashv hZero (hashv_pair hHashv (Nat.zero_lt_of_lt hlt) hlt).2
    (Nat.two_pow_pos _)
  refine ⟨⟨merkle.written hashv [pairHash hashv (0, nullifierInitNextValue)],
    IndexedArray.new 0 nullifierInitNextValue⟩, ?_⟩
  rw [referenceNullifierTree, IndexedMerkleTree.newWithNextValue, bind_of_eq_ok (mapError_eq_ok.mpr hnew)]
  change ((IndexedElement.hash hashv ⟨0, 0, 0⟩ nullifierInitNextValue).mapError _ >>= _) = _
  rw [bind_of_eq_ok (mapError_eq_ok.mpr hhash), hrun]
  rfl

theorem define_of_batchSize_zero {c : BatchAddressTreeAppendCircuit} (h : c.batchSize = 0) :
    c.define poseidon = none := by
  have hlayout : c.validateLayout = false := by simp [validateLayout, h]
  rw [define, hlayout]
  rfl

/-- The numbers from one on. -/
def ascending (count : Nat) : List Bytes32 := (List.range count).map fun i => BitVec.ofNat 256 (i + 1)

theorem toNat_of_mem_ascending {count : Nat} (hcount : count ≤ 2 ^ 32) {value : Bytes32} (h : value ∈ ascending count) :
    0 < value.toNat ∧ value.toNat < nullifierInitNextValue := by
  obtain ⟨i, hi, rfl⟩ := List.mem_map.mp h
  have hi' := List.mem_range.mp hi
  have hsentinel : 2 ^ 32 < nullifierInitNextValue := by decide +kernel
  rw [toNat_ofNat_of_lt (by have := nullifierInitNextValue_lt; omega)]
  omega

theorem nodup_ascending {count : Nat} (hcount : count ≤ 2 ^ 32) : (ascending count).Nodup := by
  refine List.Nodup.map_on ?_ List.nodup_range
  intro i hi j hj heq
  have hi' := List.mem_range.mp hi
  have hj' := List.mem_range.mp hj
  have hsmall : 2 ^ 32 < fieldModulus := two_pow_lt_fieldModulus (by omega)
  have hnat := congrArg BitVec.toNat heq
  rw [toNat_ofNat_of_lt (by omega), toNat_ofNat_of_lt (by omega)] at hnat
  omega

theorem hashesFieldElements_digits : HashesFieldElements Hashv.digits := by
  intro inputs digest h
  unfold Hashv.digits at h
  split at h
  case isTrue hall => exact List.all_eq_true.mp hall
  case isFalse => cases h

theorem implements_digits : Hashv.digits.Implements Hashv.digits.toPoseidon :=
  Hashv.implements_toPoseidon hashesFieldElements_digits

/-- An empty batch is accepted, and its witness satisfies no circuit. A batch of `2 ^ 32` values that fits the tree is
refused. -/
theorem forester_batch_sizes : Hashv.digits.Total ∧ Hashv.digits.DerivesZeroBytes ∧ HashesFieldElements Hashv.digits ∧
    Hashv.digits.Implements Hashv.digits.toPoseidon ∧
    ∃ tree root, referenceNullifierTree Hashv.digits 40 = .ok tree ∧ tree.root = .ok root ∧
      (∃ inputs, (buildBatches Hashv.digits 40 tree.merkleTree.rightmostIndex root [[]]).run tree =
          .ok [(inputs, root)] tree ∧
        inputs.circuit.define Hashv.digits.toPoseidon = none) ∧
      (ascending (2 ^ 32)).Nodup ∧
      (∀ value ∈ ascending (2 ^ 32), 0 < value.toNat ∧ value.toNat < nullifierInitNextValue ∧
        value.toNat ∉ tree.indexedArray.elements.map IndexedElement.value) ∧
      tree.merkleTree.rightmostIndex + (ascending (2 ^ 32)).length ≤ 2 ^ 40 ∧
      (buildBatches Hashv.digits 40 tree.merkleTree.rightmostIndex root [ascending (2 ^ 32)]).run tree =
        .error .batchSize tree := by
  have hheight : (40 : UInt32).toNat = 40 := rfl
  obtain ⟨tree, htree⟩ := exists_referenceNullifierTree total_digits derivesZeroBytes_digits
    (show 0 < (40 : UInt32).toNat by decide) hheight.le
  obtain ⟨hheightTree, htracks⟩ := IndexedMerkleTree.tracks_start total_digits derivesZeroBytes_digits htree
  have hroot : tree.root = .ok (tree.rootOf Hashv.digits [(0, nullifierInitNextValue)]) := htracks.root
  have hlength : (ascending (2 ^ 32)).length = 2 ^ 32 := by rw [ascending, List.length_map, List.length_range]
  have hvalues := fun value => @toNat_of_mem_ascending (2 ^ 32) le_rfl value
  refine ⟨total_digits, derivesZeroBytes_digits, hashesFieldElements_digits, implements_digits,
    tree, _, htree, hroot, ?_, nodup_ascending le_rfl, ?_, ?_, ?_⟩
  · have hempty : Fresh (40 : UInt32).toNat [(0, nullifierInitNextValue)] (([[]] : List (List Bytes32)).flatten.map
        BitVec.toNat) := ⟨List.nodup_nil, by simp, by simp, by decide⟩
    obtain ⟨results, tree', pairs', hgrows, hrun, hchained⟩ := run_buildBatches total_digits
      derivesZeroBytes_digits implements_digits htracks hheightTree hempty (by simp)
    obtain _ | ⟨hwitness, ⟨⟩⟩ := hchained
    rename_i result
    obtain ⟨-, rfl⟩ := EStateM.Result.ok.inj hwitness.appended
    have hsame := Except.ok.inj (hroot.symm.trans hwitness.newRoot)
    refine ⟨result.1, ?_, define_of_batchSize_zero (UInt32.toNat_inj.mp hwitness.batchSize)⟩
    rw [htracks.rightmostIndex, hsame]
    rwa [hsame] at hrun
  · intro value hmem
    obtain ⟨hpos, hlt⟩ := hvalues value hmem
    refine ⟨hpos, hlt, ?_⟩
    rw [htracks.linked.map_value, List.map_singleton, List.mem_singleton]
    exact hpos.ne'
  · rw [hlength, htracks.rightmostIndex]
    decide
  · obtain ⟨chain, hchain, -⟩ := createHashChain4_total total_digits fun value hmem =>
      isCanonicalBn254ScalarBe_iff.mpr ((hvalues value hmem).2.trans nullifierInitNextValue_lt)
    rw [buildBatches, hchain, mapErr_ok, pure_bind]
    refine run_bind_of_error ?_
    rw [buildInputs]
    simp only [EStateM.run_bind, if_pos hlength.ge, run_throw]

theorem forester_witnesses_chain_three :
    ∃ tree root tree' results, tree.Reached Hashv.digits 40 ∧ tree.root = .ok root ∧
      (buildBatches Hashv.digits 40 tree.merkleTree.rightmostIndex root [[1#256, 5#256], [3#256]]).run tree =
        .ok results tree' ∧
      WitnessChain Hashv.digits Hashv.digits.toPoseidon 40 tree [[1#256, 5#256], [3#256]] results tree' := by
  obtain ⟨tree, htree⟩ := exists_referenceNullifierTree total_digits derivesZeroBytes_digits
    (show 0 < (40 : UInt32).toNat by decide) (show (40 : UInt32).toNat ≤ 40 by decide)
  obtain ⟨-, htracks⟩ := IndexedMerkleTree.tracks_start total_digits derivesZeroBytes_digits htree
  obtain ⟨root, hroot, hvalues, -⟩ := forester_witnesses_chain total_digits derivesZeroBytes_digits
    hashesFieldElements_digits implements_digits (.start htree)
  obtain ⟨tree', -, hbatches⟩ := hvalues [1#256, 5#256, 3#256] (by decide) (by
    rw [htracks.linked.map_value]
    simp [nullifierInitNextValue]) (by
    rw [htracks.rightmostIndex]
    decide +kernel)
  obtain ⟨results, hrun, hchained⟩ := hbatches [[1#256, 5#256], [3#256]] rfl (by decide)
  exact ⟨tree, root, tree', results, .start htree, hroot, hrun, hchained⟩

end Zolana.Forester
