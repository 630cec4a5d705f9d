import Zolana.Proof.BatchAppend
import Zolana.Proof.HashChain
import Zolana.Proof.ReferenceAppend

/-!
# The rows of a witness

A round of the loop appends its value, and what it took from the tree before and after satisfies a round of the circuit
between the two roots.
-/

namespace Zolana.Forester

open Circuits Fallible LayeredTree MerklePath

/-- The row as the circuit reads it. -/
def WitnessRow.appendRow (row : WitnessRow) : AppendRow where
  lowValue := row.lowElementValue
  newValue := row.newElementValue
  nextValue := row.lowElementNextValue
  lowIndex := row.lowElementIndex
  lowProof := row.lowElementProof.map Nat.cast
  newProof := row.newElementProof.map Nat.cast

variable {hashv : Hashv} {poseidon : Poseidon} {leaves : List Bytes32} {tree tree' : IndexedMerkleTree}
  {pairs : List (Nat × Nat)}

def leafField (leaves : List Bytes32) (i : Nat) : Fr := fieldOf (Merkle.padded 0 leaves i)

theorem leafField_setOrPush {i : Nat} (hi : i ≤ leaves.length) (x : Bytes32) :
    leafField (setOrPush leaves i x) = Function.update (leafField leaves) i (fieldOf x) := by
  unfold leafField
  rw [padded_setOrPush hi]
  exact Function.comp_update fieldOf (Merkle.padded 0 leaves) i x

theorem leafField_of_getElem? {i : Nat} {x : Bytes32} (h : leaves[i]? = some x) : leafField leaves i = fieldOf x := by
  rw [leafField, Merkle.padded, List.getD_eq_getElem?_getD, h, Option.getD_some]

theorem leafField_length (leaves : List Bytes32) : leafField leaves leaves.length = zeroLeaf := by
  rw [leafField, Merkle.padded_of_le le_rfl]
  exact fieldOf_zero

theorem leafField_set {i : Nat} (hi : i < pairs.length) (pair : Nat × Nat) :
    leafField ((pairs.set i pair).map (pairHash hashv)) =
      Function.update (leafField (pairs.map (pairHash hashv))) i (fieldOf (pairHash hashv pair)) := by
  have hi' : i < (pairs.map (pairHash hashv)).length := by rwa [List.length_map]
  rw [List.map_set, ← setOrPush_of_lt hi', leafField_setOrPush hi'.le]

theorem leafField_snoc (pairs : List (Nat × Nat)) (pair : Nat × Nat) :
    leafField ((pairs ++ [pair]).map (pairHash hashv)) =
      Function.update (leafField (pairs.map (pairHash hashv))) pairs.length (fieldOf (pairHash hashv pair)) := by
  have hupdate := leafField_setOrPush (le_refl (pairs.map (pairHash hashv)).length) (pairHash hashv pair)
  rwa [setOrPush_length, List.length_map, ← List.map_singleton, ← List.map_append] at hupdate

theorem map_cast_toNat (nodes : List Bytes32) : (nodes.map BitVec.toNat).map (Nat.cast : Nat → Fr) = nodes.map fieldOf := by
  rw [List.map_map]
  rfl

def IndexedMerkleTree.rootOf (hashv : Hashv) (tree : IndexedMerkleTree) (pairs : List (Nat × Nat)) : Bytes32 :=
  Merkle.root hashv.node 0 tree.merkleTree.height (pairs.map (pairHash hashv))

section Bridge

variable (hHashv : hashv.Total) (himplements : hashv.Implements poseidon)

include hHashv himplements

theorem nodeAt_leafField (hcanonical : ∀ leaf ∈ leaves, isCanonicalBn254ScalarBe leaf = true) (level i : Nat) :
    nodeAt (nodeHash poseidon) (leafField leaves) level i =
      some (fieldOf (Merkle.nodeAt hashv.node (Merkle.padded 0 leaves) level i)) := by
  induction level generalizing i with
  | zero => rfl
  | succ level ih =>
      have hnode := UtxoTreeLayout.nodeAt_canonical hHashv hcanonical level
      rw [nodeAt, ih, ih]
      exact himplements _ _ (hHashv.node (hnode (2 * i)) (hnode (2 * i + 1))).1

theorem poseidon_pair {value next : Nat} (hvalue : value < fieldModulus) (hnext : next < fieldModulus) :
    poseidon [(value : Fr), (next : Fr)] = some (fieldOf (pairHash hashv (value, next))) := by
  have hdigest := himplements _ _ (hashv_pair hHashv hvalue hnext).1
  rwa [List.map_cons, List.map_singleton, fieldOf_ofNat hvalue, fieldOf_ofNat hnext] at hdigest

end Bridge

section Row

variable (hHashv : hashv.Total) (hZero : hashv.DerivesZeroBytes) (himplements : hashv.Implements poseidon)

include hHashv hZero himplements

theorem exists_proof {merkle : MerkleTree} (hholds : merkle.Holds hashv leaves) {index : Nat}
    (hindex : index < 2 ^ merkle.height) :
    ∃ proof, merkle.getProofOfLeaf index = .ok proof ∧ proof.length = merkle.height ∧
      ∀ x, climb (nodeHash poseidon) x index (proof.map fieldOf) =
        nodeAt (nodeHash poseidon) (Function.update (leafField leaves) index x) merkle.height 0 := by
  obtain ⟨proof, hproof, hlength, hpath⟩ :=
    hholds.getProofOfLeaf_eq (nodeAt_leafField hHashv himplements hholds.canonical) hZero index
  exact ⟨proof, hproof, hlength, climb_update hpath (by rw [List.length_map, hlength]) hindex⟩

theorem round_of_finds (h : tree.Tracks hashv pairs) {value next : Nat} {low : IndexedElement}
    (hfinds : tree.indexedArray.Finds pairs value low next) (hlt : value < fieldModulus) (hnext : value < next)
    (hfit : pairs.length < 2 ^ tree.merkleTree.height)
    (htracks : (tree.inserted hashv pairs low value next).Tracks hashv
      (IndexedList.insert pairs low.index low.value value next)) :
    ∃ lowProof newProof, tree.merkleTree.getProofOfLeaf low.index = .ok lowProof ∧
      (tree.inserted hashv pairs low value next).merkleTree.getProofOfLeaf pairs.length = .ok newProof ∧
      Round poseidon tree.merkleTree.height
        ⟨low.value, value, next, low.index, lowProof.map fieldOf, newProof.map fieldOf⟩ (pairs.length : Nat)
        (fieldOf (tree.rootOf hashv pairs))
        (fieldOf (tree.rootOf hashv (IndexedList.insert pairs low.index low.value value next))) := by
  have hlow := hfinds.index_lt
  have hpair : low.value < fieldModulus ∧ next < fieldModulus := h.below _ (List.mem_of_getElem? hfinds.pair)
  have hsmall : 2 ^ tree.merkleTree.height < fieldModulus :=
    two_pow_lt_fieldModulus (h.holds.height_le.trans (by omega))
  have hindex : ((low.index : Nat) : Fr).val = low.index := val_natCast_of_lt (by omega)
  have hposition : ((pairs.length : Nat) : Fr).val = pairs.length := val_natCast_of_lt (by omega)
  obtain ⟨lowProof, hlowProof, hlowLength, hclimbLow⟩ :=
    exists_proof hHashv hZero himplements h.holds (hlow.trans hfit)
  obtain ⟨newProof, hnewProof, hnewLength, hclimbNew⟩ :=
    exists_proof hHashv hZero himplements htracks.holds (show pairs.length < 2 ^ tree.merkleTree.height from hfit)
  refine ⟨lowProof, newProof, hlowProof, hnewProof, ?_⟩
  -- the leaves with the low element's new successor, and those with the new element behind them
  have hleaf : leafField (pairs.map (pairHash hashv)) low.index = fieldOf (pairHash hashv (low.value, next)) :=
    leafField_of_getElem? (by rw [List.getElem?_map, hfinds.pair, Option.map_some])
  have hmiddle : leafField ((pairs.set low.index (low.value, value)).map (pairHash hashv)) = _ := leafField_set hlow _
  have hafter : leafField ((IndexedList.insert pairs low.index low.value value next).map (pairHash hashv)) = _ :=
    leafField_snoc (pairs.set low.index (low.value, value)) (value, next)
  rw [List.length_set] at hafter
  have hempty := leafField_length ((pairs.set low.index (low.value, value)).map (pairHash hashv))
  rw [List.length_map, List.length_set] at hempty
  have hcanonical : ∀ leaf ∈ (pairs.set low.index (low.value, value)).map (pairHash hashv),
      isCanonicalBn254ScalarBe leaf = true := by
    intro leaf hmem
    refine htracks.holds.canonical leaf ?_
    rw [IndexedList.insert, List.map_append]
    exact List.mem_append_left _ hmem
  refine ⟨?_, ?_, ?_, ?_, ?_, ?_, _, _, _, fieldOf (tree.rootOf hashv (pairs.set low.index (low.value, value))),
    poseidon_pair hHashv himplements hpair.1 hpair.2, poseidon_pair hHashv himplements hpair.1 hlt,
    poseidon_pair hHashv himplements hlt hpair.2, ?_, ?_, ?_, ?_⟩
  · rw [val_natCast_of_lt hpair.1, val_natCast_of_lt hlt]
    exact hfinds.lt
  · rwa [val_natCast_of_lt hlt, val_natCast_of_lt hpair.2]
  · rw [hindex]
    exact hlow.trans hfit
  · rwa [hposition]
  · rw [List.length_map, hlowLength]
  · rw [List.length_map]
    exact hnewLength
  · rw [hindex, hclimbLow, ← hleaf, Function.update_eq_self]
    exact nodeAt_leafField hHashv himplements h.holds.canonical _ 0
  · rw [hindex, hclimbLow, ← hmiddle]
    exact nodeAt_leafField hHashv himplements hcanonical _ 0
  · rw [hposition, hclimbNew, hafter, Function.update_idem, ← hempty, Function.update_eq_self]
    exact nodeAt_leafField hHashv himplements hcanonical _ 0
  · rw [hposition, hclimbNew, hafter, Function.update_idem, ← hafter]
    exact nodeAt_leafField hHashv himplements htracks.holds.canonical _ 0

end Row

/-! ### Values that are new -/

/-- Values that a tree over pairs can take. -/
structure Fresh (height : Nat) (pairs : List (Nat × Nat)) (values : List Nat) : Prop where
  nodup : values.Nodup
  absent : ∀ value ∈ values, value ∉ pairs.map Prod.fst
  between : ∀ value ∈ values, 0 < value ∧ value < nullifierInitNextValue
  fits : pairs.length + values.length ≤ 2 ^ height

/-- A tree and the one behind values that were appended one by one. -/
structure Grows (hashv : Hashv) (values : List Nat) (tree : IndexedMerkleTree) (pairs : List (Nat × Nat))
    (tree' : IndexedMerkleTree) (pairs' : List (Nat × Nat)) : Prop where
  append : (appendValues hashv values).run tree = .ok () tree'
  tracks : tree'.Tracks hashv pairs'
  values : pairs'.map Prod.fst = pairs.map Prod.fst ++ values
  height : tree'.merkleTree.height = tree.merkleTree.height

variable {pairs' : List (Nat × Nat)} {values values' : List Nat} {height : Nat}

theorem run_appendValues_append {middle : IndexedMerkleTree}
    (h : (appendValues hashv values).run tree = .ok () middle) :
    (appendValues hashv (values ++ values')).run tree = (appendValues hashv values').run middle := by
  induction values generalizing tree with
  | nil =>
      obtain ⟨-, rfl⟩ := EStateM.Result.ok.inj h
      rfl
  | cons value values ih =>
      obtain ⟨_, next, hvalue, h⟩ := of_run_bind h
      rw [List.cons_append, appendValues, run_bind_of_ok hvalue]
      exact ih h

theorem Fresh.left (h : Fresh height pairs (values ++ values')) : Fresh height pairs values := by
  have hfits := h.fits
  rw [List.length_append] at hfits
  exact ⟨h.nodup.of_append_left, fun value hmem => h.absent value (List.mem_append_left _ hmem),
    fun value hmem => h.between value (List.mem_append_left _ hmem), by omega⟩

theorem Fresh.right (h : Fresh height pairs (values ++ values'))
    (hvalues : pairs'.map Prod.fst = pairs.map Prod.fst ++ values) : Fresh height pairs' values' := by
  have hfits := h.fits
  have hlength : pairs'.length = pairs.length + values.length := by simpa using congrArg List.length hvalues
  rw [List.length_append] at hfits
  refine ⟨h.nodup.of_append_right, ?_, fun value hmem => h.between value (List.mem_append_right _ hmem), by omega⟩
  intro value hmem hold
  rw [hvalues, List.mem_append] at hold
  obtain hold | hnew := hold
  · exact h.absent value (List.mem_append_right _ hmem) hold
  · exact (List.disjoint_of_nodup_append h.nodup) hnew hmem

namespace Grows

theorem length_eq (h : Grows hashv values tree pairs tree' pairs') :
    pairs'.length = pairs.length + values.length := by
  simpa using congrArg List.length h.values

theorem refl (h : tree.Tracks hashv pairs) : Grows hashv [] tree pairs tree pairs :=
  ⟨rfl, h, (List.append_nil _).symm, rfl⟩

theorem trans {tree'' : IndexedMerkleTree} {pairs'' : List (Nat × Nat)}
    (h : Grows hashv values tree pairs tree' pairs') (h' : Grows hashv values' tree' pairs' tree'' pairs'') :
    Grows hashv (values ++ values') tree pairs tree'' pairs'' := by
  refine ⟨?_, h'.tracks, ?_, h'.height.trans h.height⟩
  · rw [run_appendValues_append h.append, h'.append]
  · rw [h'.values, h.values, List.append_assoc]

section Total

variable (hHashv : hashv.Total) (hZero : hashv.DerivesZeroBytes)

include hHashv hZero

theorem singleton (h : tree.Tracks hashv pairs) {value next : Nat} {low : IndexedElement}
    (hfinds : tree.indexedArray.Finds pairs value low next) (hvalue : value ∉ pairs.map Prod.fst)
    (hlt : value < fieldModulus) (hfit : pairs.length < 2 ^ tree.merkleTree.height) :
    Grows hashv [value] tree pairs (tree.inserted hashv pairs low value next)
      (IndexedList.insert pairs low.index low.value value next) := by
  obtain ⟨hrun, htracks⟩ := h.run_append hHashv hZero hfinds hvalue hlt hfit
  refine ⟨?_, htracks, IndexedList.map_fst_insert hfinds.pair, rfl⟩
  rw [appendValues, run_bind_of_ok hrun]
  rfl

/-- Values that are new and fit are appended. -/
theorem exists_of_new (h : tree.Tracks hashv pairs) (hnodup : values.Nodup)
    (hvalues : ∀ value ∈ values, 0 < value ∧ value < fieldModulus ∧ value ∉ pairs.map Prod.fst)
    (hfits : pairs.length + values.length ≤ 2 ^ tree.merkleTree.height) :
    ∃ tree' pairs', Grows hashv values tree pairs tree' pairs' := by
  induction values generalizing tree pairs with
  | nil => exact ⟨tree, pairs, .refl h⟩
  | cons value values ih =>
      obtain ⟨hnotin, hnodup⟩ := List.nodup_cons.mp hnodup
      obtain ⟨⟨hpos, hlt, hvalue⟩, hvalues⟩ := List.forall_mem_cons.mp hvalues
      rw [List.length_cons] at hfits
      obtain ⟨low, next, hfinds⟩ := h.linked.exists_finds hvalue hpos
      have hgrows := singleton hHashv hZero h hfinds hvalue hlt (by omega)
      have hlength := hgrows.length_eq
      rw [List.length_singleton] at hlength
      obtain ⟨tree', pairs', hgrows'⟩ := ih hgrows.tracks hnodup (fun other hmem => by
        obtain ⟨hpos, hlt, habsent⟩ := hvalues other hmem
        refine ⟨hpos, hlt, ?_⟩
        rw [hgrows.values, List.mem_append, List.mem_singleton]
        rintro (hold | rfl)
        · exact habsent hold
        · exact hnotin hmem) (by rw [hgrows.height, hlength]; omega)
      exact ⟨tree', pairs', hgrows.trans hgrows'⟩

theorem of_run (hfields : HashesFieldElements hashv) (h : tree.Tracks hashv pairs)
    (hrun : (appendValues hashv values).run tree = .ok () tree') :
    ∃ pairs', Grows hashv values tree pairs tree' pairs' := by
  induction values generalizing tree pairs with
  | nil =>
      obtain ⟨-, rfl⟩ := EStateM.Result.ok.inj hrun
      exact ⟨pairs, .refl h⟩
  | cons value values ih =>
      obtain ⟨_, middle, hfirst, hrest⟩ := of_run_bind hrun
      obtain ⟨hvalue, hpos, hlt, hfit⟩ := h.of_run_append hHashv hZero hfields hfirst
      obtain ⟨low, next, hfinds⟩ := h.linked.exists_finds hvalue hpos
      have hgrows := singleton hHashv hZero h hfinds hvalue hlt hfit
      obtain ⟨-, rfl⟩ := EStateM.Result.ok.inj
        ((h.run_append hHashv hZero hfinds hvalue hlt hfit).1.symm.trans hfirst)
      obtain ⟨pairs', hgrows'⟩ := ih hgrows.tracks hrest
      exact ⟨pairs', hgrows.trans hgrows'⟩

end Total

end Grows

/-! ### The rounds -/

section Rounds

variable (hHashv : hashv.Total) (hZero : hashv.DerivesZeroBytes) (himplements : hashv.Implements poseidon)

theorem getNonInclusionProof_eq (h : tree.Tracks hashv pairs) {value next : Nat} {low : IndexedElement}
    (hfinds : tree.indexedArray.Finds pairs value low next) (hlt : value < fieldModulus) {proof : List Bytes32}
    (hproof : tree.merkleTree.getProofOfLeaf low.index = .ok proof) :
    tree.getNonInclusionProof value = .ok {
      root := tree.rootOf hashv pairs
      value := BitVec.ofNat 256 value
      leafLowerRangeValue := BitVec.ofNat 256 low.value
      leafHigherRangeValue := BitVec.ofNat 256 next
      leafIndex := low.index
      nextIndex := low.nextIndex
      merkleProof := proof } := by
  have hpair : low.value < fieldModulus ∧ next < fieldModulus := h.below _ (List.mem_of_getElem? hfinds.pair)
  have hfind : tree.indexedArray.findLowElementForNonexistent value = .ok (low, next) := by
    rw [IndexedArray.findLowElementForNonexistent, bind_of_eq_ok hfinds.index,
      bind_of_eq_ok (IndexedArray.element_of_getElem? hfinds.element), bind_of_eq_ok hfinds.nextValue]
    rfl
  have hbytes : ∀ {x : Nat}, x < fieldModulus → IndexedMerkleTree.toBytes x = .ok (BitVec.ofNat 256 x) := by
    intro x hx
    rw [IndexedMerkleTree.toBytes, bigintToBeBytesArray_of_lt hx]
    rfl
  rw [IndexedMerkleTree.getNonInclusionProof, bind_of_eq_ok (mapError_eq_ok.mpr hfind)]
  dsimp only
  rw [bind_of_eq_ok (mapError_eq_ok.mpr hproof), bind_of_eq_ok (mapError_eq_ok.mpr hfinds.nextValue),
    bind_of_eq_ok h.root, bind_of_eq_ok (hbytes hlt), bind_of_eq_ok (hbytes hpair.1), bind_of_eq_ok (hbytes hpair.2)]
  rfl

include hHashv hZero himplements

theorem run_buildRow (h : tree.Tracks hashv pairs) {valueBytes : Bytes32}
    (hfresh : Fresh tree.merkleTree.height pairs [valueBytes.toNat]) {firstIndex offset : Nat}
    (hindex : firstIndex + offset = pairs.length) :
    ∃ row tree' pairs', (buildRow hashv firstIndex offset valueBytes).run tree = .ok row tree' ∧
      Grows hashv [valueBytes.toNat] tree pairs tree' pairs' ∧ row.newElementValue = valueBytes.toNat ∧
      Round poseidon tree.merkleTree.height row.appendRow (pairs.length : Nat)
        (fieldOf (tree.rootOf hashv pairs)) (fieldOf (tree.rootOf hashv pairs')) := by
  have hvalue := hfresh.absent _ (List.mem_singleton_self _)
  obtain ⟨hpos, hhigh⟩ := hfresh.between _ (List.mem_singleton_self _)
  have hfit : pairs.length < 2 ^ tree.merkleTree.height := hfresh.fits
  have hlt := hhigh.trans nullifierInitNextValue_lt
  obtain ⟨low, next, hfinds⟩ := h.linked.exists_finds hvalue hpos
  have hnext : valueBytes.toNat < next := by
    obtain ⟨-, rfl⟩ | ⟨-, hless, -⟩ := hfinds.link
    · rwa [h.highest]
    · exact hless
  obtain ⟨hrun, htracks⟩ := h.run_append hHashv hZero hfinds hvalue hlt hfit
  obtain ⟨lowProof, newProof, hlowProof, hnewProof, hround⟩ :=
    round_of_finds hHashv hZero himplements h hfinds hlt hnext hfit htracks
  have hpair : low.value < fieldModulus ∧ next < fieldModulus := h.below _ (List.mem_of_getElem? hfinds.pair)
  refine ⟨⟨low.value, low.index, next, lowProof.map BitVec.toNat, valueBytes.toNat, newProof.map BitVec.toNat⟩,
    _, _, ?_, .singleton hHashv hZero h hfinds hvalue hlt hfit, rfl, ?_⟩
  · have hwithin : (within id (fun tree _ => tree) BuildError.appendNullifier
        (IndexedMerkleTree.append hashv valueBytes.toNat)).run tree = .ok () _ := run_within_ok hrun
    have hadd : checkedAdd firstIndex offset = some pairs.length := by
      rw [checkedAdd_of_lt (hindex ▸ h.length_lt), hindex]
    rw [buildRow]
    simp only [EStateM.run_bind, EStateM.run_get, getNonInclusionProof_eq h hfinds hlt hlowProof, mapErr_ok,
      EStateM.run_pure, hwithin, hadd, okOr_some, hnewProof, toNat_ofNat_of_lt hpair.1, toNat_ofNat_of_lt hpair.2]
  · rw [WitnessRow.appendRow, map_cast_toNat, map_cast_toNat]
    exact hround

/-- The loop appends its values and satisfies the rounds of the circuit. -/
theorem run_buildRows {valuesBytes : List Bytes32} (h : tree.Tracks hashv pairs)
    (hfresh : Fresh tree.merkleTree.height pairs (valuesBytes.map BitVec.toNat)) {firstIndex offset : Nat}
    (hindex : firstIndex + offset = pairs.length) :
    ∃ rows tree' pairs', (buildRows hashv firstIndex offset valuesBytes).run tree = .ok rows tree' ∧
      Grows hashv (valuesBytes.map BitVec.toNat) tree pairs tree' pairs' ∧
      rows.map WitnessRow.newElementValue = valuesBytes.map BitVec.toNat ∧
      (∀ row ∈ rows, row.appendRow.lowProof.length = tree.merkleTree.height ∧
        row.appendRow.newProof.length = tree.merkleTree.height) ∧
      Rounds poseidon tree.merkleTree.height (pairs.length : Nat) (rows.map WitnessRow.appendRow)
        (fieldOf (tree.rootOf hashv pairs)) (fieldOf (tree.rootOf hashv pairs')) := by
  induction valuesBytes generalizing tree pairs offset with
  | nil => exact ⟨[], tree, pairs, rfl, .refl h, rfl, by simp, rfl⟩
  | cons valueBytes valuesBytes ih =>
      rw [List.map_cons, ← List.singleton_append] at hfresh
      obtain ⟨row, middle, pairs₁, hrow, hgrows, hnew, hround⟩ :=
        run_buildRow hHashv hZero himplements h hfresh.left hindex
      have hheight := hgrows.height
      have hlength := hgrows.length_eq
      rw [List.length_singleton] at hlength
      obtain ⟨rows, tree', pairs₂, hrows, hgrows', hnews, hproofs, hrounds⟩ := ih hgrows.tracks
        (hheight ▸ hfresh.right hgrows.values) (by omega : firstIndex + (offset + 1) = pairs₁.length)
      have hroot : ∀ pairs, middle.rootOf hashv pairs = tree.rootOf hashv pairs := by
        intro pairs
        rw [IndexedMerkleTree.rootOf, hheight, IndexedMerkleTree.rootOf]
      rw [hheight] at hproofs hrounds
      rw [hroot, hroot, hlength, Nat.cast_succ] at hrounds
      refine ⟨row :: rows, tree', pairs₂, ?_, hgrows.trans hgrows', ?_, ?_, _, hround, hrounds⟩
      · rw [buildRows, run_bind_of_ok hrow, run_bind_of_ok hrows]
        rfl
      · rw [List.map_cons, List.map_cons, hnew, hnews]
      · exact List.forall_mem_cons.mpr ⟨⟨hround.length_lowProof, hround.length_newProof⟩, hproofs⟩

end Rounds

end Zolana.Forester
