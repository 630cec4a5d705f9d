import Zolana.Proof.IndexedTree

/-!
# The rounds of the batch append

The loop is read as rounds over the rows of the witness. A round that is satisfied on the tree of a sorted
set leads to the tree of the set with one value more, and for a value between the ends that is not in the set
there is a row that satisfies a round.
-/

namespace Zolana.Circuits

open Gates MerklePath

/-- What the witness holds for one value. -/
structure AppendRow where
  lowValue : Fr
  newValue : Fr
  nextValue : Fr
  lowIndex : Fr
  lowProof : List Fr
  newProof : List Fr

structure Round (poseidon : Poseidon) (height : Nat) (row : AppendRow) (position root root' : Fr) : Prop where
  low_lt : row.lowValue.val < row.newValue.val
  lt_next : row.newValue.val < row.nextValue.val
  lowIndex_lt : row.lowIndex.val < 2 ^ height
  position_lt : position.val < 2 ^ height
  length_lowProof : row.lowProof.length = height
  length_newProof : row.newProof.length = height
  roots : ∃ oldLow newLow newLeaf middle,
    poseidon [row.lowValue, row.nextValue] = some oldLow ∧
    poseidon [row.lowValue, row.newValue] = some newLow ∧
    poseidon [row.newValue, row.nextValue] = some newLeaf ∧
    climb (nodeHash poseidon) oldLow row.lowIndex.val row.lowProof = some root ∧
    climb (nodeHash poseidon) newLow row.lowIndex.val row.lowProof = some middle ∧
    climb (nodeHash poseidon) zeroLeaf position.val row.newProof = some middle ∧
    climb (nodeHash poseidon) newLeaf position.val row.newProof = some root'

def Rounds (poseidon : Poseidon) (height : Nat) : (position : Fr) → List AppendRow → (root root' : Fr) → Prop
  | _, [], root, root' => root = root'
  | position, row :: rows, root, root' => ∃ middle,
    Round poseidon height row position root middle ∧ Rounds poseidon height (position + 1) rows middle root'

variable {poseidon : Poseidon} {height : Nat} {row : AppendRow} {rows : List AppendRow}
  {top position root root' : Fr} {elements : List (Fr × Fr)}

/-! ### What the rounds do to the tree -/

section Sound

variable (hfree : poseidon.CollisionFree) (hzero : poseidon.NeverZero)

include hfree hzero

theorem Round.sound (hround : Round poseidon height row (elements.length : Nat) root root')
    (htree : IndexedTree poseidon top height elements root) :
    elements.length < 2 ^ height ∧ row.newValue.val < top.val ∧ ∃ elements', elements'.map Prod.fst =
      elements.map Prod.fst ++ [row.newValue] ∧ IndexedTree poseidon top height elements' root' := by
  obtain ⟨oldLow, newLow, newLeaf, middle, holdLow, hnewLow, hnewLeaf, hclimbOld, hclimbLow, hclimbEmpty,
    hclimbNew⟩ := hround.roots
  obtain ⟨chain, hchain⟩ := htree.indexed
  obtain ⟨leaf, hleaves, hroot⟩ := htree.leaves
  obtain ⟨hleaf, hpath⟩ := leaf_of_climb hfree.nodeHash hround.length_lowProof hround.lowIndex_lt hroot hclimbOld
  have hget := hleaves.getElem?_eq hfree hzero (hleaf.symm ▸ holdLow)
  obtain ⟨hlow, -⟩ := List.getElem?_eq_some_iff.mp hget
  -- the tree with the low element's new successor
  rw [climb_update hpath hround.length_lowProof hround.lowIndex_lt] at hclimbLow
  have hleavesLow := hleaves.set hlow hnewLow
  obtain ⟨hempty, hpathNew⟩ :=
    leaf_of_climb hfree.nodeHash hround.length_newProof hround.position_lt hclimbLow hclimbEmpty
  -- the position does not wrap: below the elements no leaf is empty
  have hposition : ((elements.length : Nat) : Fr).val = elements.length := by
    have hle := hleavesLow.length_le hzero hempty
    rw [List.length_set] at hle
    refine le_antisymm ?_ hle
    rw [ZMod.val_natCast]
    exact Nat.mod_le _ _
  have hlt := hround.position_lt
  rw [climb_update hpathNew hround.length_newProof hround.position_lt] at hclimbNew
  rw [hposition] at hlt hclimbNew
  have hleavesNew := hleavesLow.snoc hnewLeaf
  rw [List.length_set] at hleavesNew
  exact ⟨hlt, hchain.lt_top (List.mem_of_getElem? hget) hround.low_lt hround.lt_next,
    IndexedList.insert elements row.lowIndex.val row.lowValue row.newValue row.nextValue,
    IndexedList.map_fst_insert hget, hchain.insert hget hround.low_lt hround.lt_next,
    _, hleavesNew, hclimbNew⟩

theorem Rounds.sound (hrounds : Rounds poseidon height (elements.length : Nat) rows root root')
    (htree : IndexedTree poseidon top height elements root) :
    (rows ≠ [] → elements.length + rows.length ≤ 2 ^ height) ∧
      (∀ row ∈ rows, 0 < row.newValue.val ∧ row.newValue.val < top.val) ∧ ∃ elements',
      elements'.map Prod.fst = elements.map Prod.fst ++ rows.map AppendRow.newValue ∧
        IndexedTree poseidon top height elements' root' := by
  induction rows generalizing elements root with
  | nil =>
      obtain rfl : root = root' := hrounds
      exact ⟨fun h => absurd rfl h, by simp, elements, (List.append_nil _).symm, htree⟩
  | cons row rows ih =>
      obtain ⟨middle, hround, hrounds⟩ := hrounds
      obtain ⟨hlt, htop, elements', hvalues, htree'⟩ := hround.sound hfree hzero htree
      have hlength : elements'.length = elements.length + 1 := by
        simpa using congrArg List.length hvalues
      have hposition : ((elements.length : Nat) : Fr) + 1 = (elements'.length : Nat) := by
        rw [hlength, Nat.cast_succ]
      rw [hposition] at hrounds
      obtain ⟨hfit, hbetween, elements'', hvalues', htree''⟩ := ih hrounds htree'
      refine ⟨fun _ => ?_, ?_, elements'', ?_, htree''⟩
      · cases rows with
        | nil => exact hlt
        | cons next rows =>
            have := hfit (List.cons_ne_nil _ _)
            rw [List.length_cons]
            omega
      · exact List.forall_mem_cons.mpr ⟨⟨(Nat.zero_le _).trans_lt hround.low_lt, htop⟩, hbetween⟩
      · rw [hvalues', hvalues, List.append_assoc, List.map_cons, List.singleton_append]

end Sound

/-! ### Rows for values -/

section Complete

variable (htotal : poseidon.Total)

include htotal

theorem Poseidon.Total.nodeHash (left right : Fr) : ∃ hash, nodeHash poseidon left right = some hash :=
  htotal [left, right] (List.cons_ne_nil _ _) (by simp)

theorem exists_round (htree : IndexedTree poseidon top height elements root) {value : Fr}
    (hvalue : value ∉ elements.map Prod.fst) (hlow : 0 < value.val) (hhigh : value.val < top.val)
    (hfit : elements.length < 2 ^ height) : ∃ row root' elements', row.newValue = value ∧
      Round poseidon height row (elements.length : Nat) root root' ∧
      elements'.map Prod.fst = elements.map Prod.fst ++ [value] ∧
      IndexedTree poseidon top height elements' root' := by
  obtain ⟨chain, hchain⟩ := htree.indexed
  obtain ⟨leaf, hleaves, hroot⟩ := htree.leaves
  have hnew : value ∉ chain := by
    rw [hchain.mem_chain_iff, not_or]
    refine ⟨hvalue, ?_⟩
    rintro rfl
    exact lt_irrefl _ hhigh
  obtain ⟨low, next, hlink, hlt, hgt⟩ := IndexedList.exists_between (ZMod.val_injective fieldModulus)
    hchain.head hchain.last (by rwa [ZMod.val_zero]) hhigh hnew
  obtain ⟨i, hget⟩ := List.mem_iff_getElem?.mp (hchain.mem_of_mem_links hlink)
  obtain ⟨hi, -⟩ := List.getElem?_eq_some_iff.mp hget
  -- the elements and the new value are distinct elements of the field
  have hsmall : elements.length < fieldModulus := by
    have hnodup : (value :: elements.map Prod.fst).Nodup := List.nodup_cons.mpr ⟨hvalue, htree.nodup⟩
    have hcard := hnodup.length_le_card
    rw [ZMod.card, List.length_cons, List.length_map] at hcard
    exact hcard
  have hindex : ((i : Nat) : Fr).val = i := val_natCast_of_lt (hi.trans hsmall)
  have hposition : ((elements.length : Nat) : Fr).val = elements.length := val_natCast_of_lt hsmall
  have hdigest := hleaves.digest i low next hget
  obtain ⟨newLow, hnewLow⟩ := htotal.nodeHash low value
  obtain ⟨newLeaf, hnewLeaf⟩ := htotal.nodeHash value next
  have hleavesLow := hleaves.set hi hnewLow
  have hleavesNew := hleavesLow.snoc hnewLeaf
  rw [List.length_set] at hleavesNew
  obtain ⟨lowProof, hlowProof, hclimbOld, hclimbLow⟩ := exists_path hroot (hi.trans hfit)
  obtain ⟨middle, hmiddle⟩ := nodeAt_total htotal.nodeHash (Function.update leaf i newLow) height 0
  obtain ⟨newProof, hnewProof, hclimbEmpty, hclimbNew⟩ := exists_path hmiddle hfit
  obtain ⟨root', hroot'⟩ := nodeAt_total htotal.nodeHash
    (Function.update (Function.update leaf i newLow) elements.length newLeaf) height 0
  rw [hleavesLow.empty _ (List.length_set ..).le] at hclimbEmpty
  refine ⟨⟨low, value, next, (i : Nat), lowProof, newProof⟩, root',
    IndexedList.insert elements i low value next, rfl, ?_, IndexedList.map_fst_insert hget,
    hchain.insert hget hlt hgt, _, hleavesNew, hroot'⟩
  refine ⟨hlt, hgt, hindex.trans_lt (hi.trans hfit), hposition.trans_lt hfit, hlowProof, hnewProof,
    leaf i, newLow, newLeaf, middle, hdigest, hnewLow, hnewLeaf, ?_, ?_, ?_, ?_⟩
  · rwa [hindex]
  · rw [hindex, hclimbLow, hmiddle]
  · rwa [hposition]
  · rw [hposition, hclimbNew, hroot']

theorem exists_rounds (htree : IndexedTree poseidon top height elements root) {values : List Fr}
    (hnodup : values.Nodup) (hvalues : ∀ value ∈ values, value ∉ elements.map Prod.fst)
    (hlow : ∀ value ∈ values, 0 < value.val) (hhigh : ∀ value ∈ values, value.val < top.val)
    (hfit : elements.length + values.length ≤ 2 ^ height) : ∃ rows root', rows.map AppendRow.newValue = values ∧
      (∀ row ∈ rows, row.lowProof.length = height ∧ row.newProof.length = height) ∧
      Rounds poseidon height (elements.length : Nat) rows root root' := by
  induction values generalizing elements root with
  | nil => exact ⟨[], root, rfl, by simp, rfl⟩
  | cons value values ih =>
      obtain ⟨hnew, hvalues⟩ := List.forall_mem_cons.mp hvalues
      obtain ⟨hpos, hlow⟩ := List.forall_mem_cons.mp hlow
      obtain ⟨hlt, hhigh⟩ := List.forall_mem_cons.mp hhigh
      obtain ⟨hother, hnodup⟩ := List.nodup_cons.mp hnodup
      rw [List.length_cons] at hfit
      obtain ⟨row, middle, elements', hrow, hround, hinsert, htree'⟩ :=
        exists_round htotal htree hnew hpos hlt (by omega)
      have hlength : elements'.length = elements.length + 1 := by
        simpa using congrArg List.length hinsert
      have habsent : ∀ value' ∈ values, value' ∉ elements'.map Prod.fst := by
        intro value' hmem hmem'
        rw [hinsert, List.mem_append, List.mem_singleton] at hmem'
        rcases hmem' with hold | rfl
        · exact hvalues value' hmem hold
        · exact hother hmem
      obtain ⟨rows, root', hrows, hproofs, hrounds⟩ := ih htree' hnodup habsent hlow hhigh (by omega)
      refine ⟨row :: rows, root', ?_, ?_, middle, hround, ?_⟩
      · rw [List.map_cons, hrow, hrows]
      · exact List.forall_mem_cons.mpr ⟨⟨hround.length_lowProof, hround.length_newProof⟩, hproofs⟩
      · rwa [← Nat.cast_add_one, ← hlength]

end Complete

/-! ### The loop -/

namespace BatchAddressTreeAppendCircuit

variable (c : BatchAddressTreeAppendCircuit)

/-- The row of the witness at an index. -/
structure HasRow (i : Nat) (row : AppendRow) : Prop where
  lowValue : c.lowElementValues[i]? = some row.lowValue
  newValue : c.newElementValues[i]? = some row.newValue
  nextValue : c.lowElementNextValues[i]? = some row.nextValue
  lowIndex : c.lowElementIndices[i]? = some row.lowIndex
  lowProof : c.lowElementProofs[i]? = some row.lowProof
  newProof : c.newElementProofs[i]? = some row.newProof

variable {c}

theorem appendElement_eq_some {i : Nat} (hrow : c.HasRow i row) (hlow : row.lowProof.length = c.treeHeight.toNat)
    (hnew : row.newProof.length = c.treeHeight.toNat) : c.appendElement poseidon root i = some root' ↔
      Round poseidon c.treeHeight.toNat row (c.startIndex + (i : Fr)) root root' := by
  rw [appendElement, bind_of_eq_some hrow.lowValue, bind_of_eq_some hrow.newValue,
    bind_of_eq_some hrow.nextValue, bind_unit_eq_some, assertStrictlyOrderedFullField_eq_some]
  constructor
  · rintro ⟨⟨hlt, hgt⟩, h⟩
    obtain ⟨oldLow, holdLow, h⟩ := of_bind_some h
    obtain ⟨newLow, hnewLow, h⟩ := of_bind_some h
    rw [bind_of_eq_some hrow.lowIndex, bind_of_eq_some hrow.lowProof] at h
    obtain ⟨lowBits, hlowBits, h⟩ := of_bind_some h
    obtain ⟨hlowIndex, rfl⟩ := toBinary_eq_some.mp hlowBits
    obtain ⟨middle, hmiddle, h⟩ := of_bind_some h
    obtain ⟨hclimbOld, hclimbLow⟩ := (merkleRootUpdate_eq_some hlow).mp hmiddle
    obtain ⟨newLeaf, hnewLeaf, h⟩ := of_bind_some h
    rw [bind_of_eq_some hrow.newProof] at h
    obtain ⟨bits, hbits, h⟩ := of_bind_some h
    obtain ⟨hposition, rfl⟩ := toBinary_eq_some.mp hbits
    obtain ⟨hclimbEmpty, hclimbNew⟩ := (merkleRootUpdate_eq_some hnew).mp h
    exact ⟨hlt, hgt, hlowIndex, hposition, hlow, hnew, oldLow, newLow, newLeaf, middle, holdLow, hnewLow,
      hnewLeaf, hclimbOld, hclimbLow, hclimbEmpty, hclimbNew⟩
  · intro h
    obtain ⟨oldLow, newLow, newLeaf, middle, holdLow, hnewLow, hnewLeaf, hclimbOld, hclimbLow, hclimbEmpty,
      hclimbNew⟩ := h.roots
    refine ⟨⟨h.low_lt, h.lt_next⟩, ?_⟩
    rw [indexedLeafHash, bind_of_eq_some holdLow, bind_of_eq_some hnewLow, bind_of_eq_some hrow.lowIndex,
      bind_of_eq_some hrow.lowProof, bind_of_eq_some (toBinary_eq_some.mpr ⟨h.lowIndex_lt, rfl⟩),
      bind_of_eq_some ((merkleRootUpdate_eq_some hlow).mpr ⟨hclimbOld, hclimbLow⟩),
      bind_of_eq_some hnewLeaf, bind_of_eq_some hrow.newProof,
      bind_of_eq_some (toBinary_eq_some.mpr ⟨h.position_lt, rfl⟩)]
    exact (merkleRootUpdate_eq_some hnew).mpr ⟨hclimbEmpty, hclimbNew⟩

/-- The loop over the indexes from `k` on is the rounds over the rows there. -/
theorem foldlM_appendElement {k : Nat} (hrows : ∀ i row, rows[i]? = some row → c.HasRow (k + i) row)
    (hproofs : ∀ row ∈ rows, row.lowProof.length = c.treeHeight.toNat ∧
      row.newProof.length = c.treeHeight.toNat) :
    (List.range' k rows.length).foldlM (c.appendElement poseidon) root = some root' ↔
      Rounds poseidon c.treeHeight.toNat (c.startIndex + (k : Fr)) rows root root' := by
  induction rows generalizing k root with
  | nil => exact Option.some_inj
  | cons row rows ih =>
      obtain ⟨⟨hlow, hnew⟩, hproofs⟩ := List.forall_mem_cons.mp hproofs
      have hrow : c.HasRow k row := hrows 0 row rfl
      have hrest : ∀ i row', rows[i]? = some row' → c.HasRow (k + 1 + i) row' := by
        intro i row' hget
        rw [Nat.add_assoc, Nat.add_comm 1 i]
        exact hrows (i + 1) row' hget
      rw [List.length_cons, List.range'_succ, List.foldlM_cons, Option.bind_eq_bind,
        Option.bind_eq_some_iff]
      refine exists_congr fun middle => and_congr (appendElement_eq_some hrow hlow hnew) ?_
      rw [ih hrest hproofs, Nat.cast_add_one, add_assoc]

variable (c) in
/-- The lengths that the compiler fixes. -/
structure Layout : Prop where
  batchSize_ne : c.batchSize ≠ 0
  treeHeight_ne : c.treeHeight ≠ 0
  lowElementValues : c.lowElementValues.length = c.batchSize.toNat
  lowElementNextValues : c.lowElementNextValues.length = c.batchSize.toNat
  lowElementIndices : c.lowElementIndices.length = c.batchSize.toNat
  lowElementProofs : c.lowElementProofs.length = c.batchSize.toNat
  newElementValues : c.newElementValues.length = c.batchSize.toNat
  newElementProofs : c.newElementProofs.length = c.batchSize.toNat
  lowProof : ∀ proof ∈ c.lowElementProofs, proof.length = c.treeHeight.toNat
  newProof : ∀ proof ∈ c.newElementProofs, proof.length = c.treeHeight.toNat

theorem validateLayout_eq_true : c.validateLayout = true ↔ c.Layout := by
  simp only [validateLayout, Bool.and_eq_true, decide_eq_true_eq, List.all_eq_true]
  constructor
  · rintro ⟨⟨⟨⟨⟨⟨⟨⟨⟨h1, h2⟩, h3⟩, h4⟩, h5⟩, h6⟩, h7⟩, h8⟩, h9⟩, h10⟩
    exact ⟨h1, h2, h3, h4, h5, h6, h7, h8, h9, h10⟩
  · rintro ⟨h1, h2, h3, h4, h5, h6, h7, h8, h9, h10⟩
    exact ⟨⟨⟨⟨⟨⟨⟨⟨⟨h1, h2⟩, h3⟩, h4⟩, h5⟩, h6⟩, h7⟩, h8⟩, h9⟩, h10⟩

theorem Layout.exists_rows (h : c.Layout) : ∃ rows : List AppendRow, rows.length = c.batchSize.toNat ∧
      ∀ i row, rows[i]? = some row → c.HasRow i row := by
  refine ⟨(List.range c.batchSize.toNat).map fun i => ⟨c.lowElementValues.getD i 0,
    c.newElementValues.getD i 0, c.lowElementNextValues.getD i 0, c.lowElementIndices.getD i 0,
    c.lowElementProofs.getD i [], c.newElementProofs.getD i []⟩, by simp, ?_⟩
  intro i row hget
  rw [List.getElem?_map, Option.map_eq_some_iff] at hget
  obtain ⟨i', hi', rfl⟩ := hget
  obtain ⟨hi, hi'⟩ := List.getElem?_eq_some_iff.mp hi'
  rw [List.getElem_range] at hi'
  subst hi'
  rw [List.length_range] at hi
  have hcolumn : ∀ {α : Type} {column : List α} (default : α), column.length = c.batchSize.toNat →
      column[i]? = some (column.getD i default) := by
    intro α column default hlength
    rw [List.getD_eq_getElem?_getD, List.getElem?_eq_getElem (hlength ▸ hi), Option.getD_some]
  exact ⟨hcolumn 0 h.lowElementValues, hcolumn 0 h.newElementValues, hcolumn 0 h.lowElementNextValues,
    hcolumn 0 h.lowElementIndices, hcolumn [] h.lowElementProofs, hcolumn [] h.newElementProofs⟩

theorem map_newValue_eq (hlength : rows.length = c.newElementValues.length)
    (hrows : ∀ i row, rows[i]? = some row → c.HasRow i row) :
    rows.map AppendRow.newValue = c.newElementValues := by
  refine List.ext_getElem (by rw [List.length_map, hlength]) ?_
  intro i hi hi'
  rw [List.length_map] at hi
  have hrow := (hrows i _ (List.getElem?_eq_getElem hi)).newValue
  rw [List.getElem?_eq_getElem hi'] at hrow
  rw [List.getElem_map]
  exact (Option.some.inj hrow).symm

theorem define_eq_some (hlayout : c.Layout) (hlength : rows.length = c.batchSize.toNat)
    (hrows : ∀ i row, rows[i]? = some row → c.HasRow i row) : c.define poseidon = some () ↔
      Rounds poseidon c.treeHeight.toNat c.startIndex rows c.oldRoot c.newRoot ∧
      hashChain4 poseidon c.newElementValues = some c.hashchainHash ∧
      c.computePublicInputHash poseidon = some c.publicInputHash := by
  have hproofs : ∀ row ∈ rows, row.lowProof.length = c.treeHeight.toNat ∧
      row.newProof.length = c.treeHeight.toNat := by
    intro row hmem
    obtain ⟨i, hget⟩ := List.mem_iff_getElem?.mp hmem
    have hrow := hrows i row hget
    exact ⟨hlayout.lowProof _ (List.mem_of_getElem? hrow.lowProof),
      hlayout.newProof _ (List.mem_of_getElem? hrow.newProof)⟩
  have hloop : ∀ root', (List.range c.batchSize.toNat).foldlM (c.appendElement poseidon) c.oldRoot = some root' ↔
      Rounds poseidon c.treeHeight.toNat c.startIndex rows c.oldRoot root' := by
    intro root'
    rw [List.range_eq_range', ← hlength, foldlM_appendElement (by simpa using hrows) hproofs, Nat.cast_zero,
      add_zero]
  rw [define, bind_unit_eq_some, assertIsEqual_eq_some, validateLayout_eq_true, and_iff_right hlayout]
  constructor
  · intro h
    obtain ⟨root', hroot', h⟩ := of_bind_some h
    obtain ⟨hnew, h⟩ := of_bind_unit h
    obtain ⟨chain, hchain, h⟩ := of_bind_some h
    obtain ⟨hhash, h⟩ := of_bind_unit h
    obtain ⟨inputs, hinputs, h⟩ := of_bind_some h
    rw [assertIsEqual_eq_some.mp hnew, assertIsEqual_eq_some.mp hhash, assertIsEqual_eq_some.mp h]
    exact ⟨(hloop root').mp hroot', hchain, hinputs⟩
  · rintro ⟨hrounds, hchain, hinputs⟩
    rw [bind_of_eq_some ((hloop c.newRoot).mpr hrounds), bind_unit_eq_some, bind_of_eq_some hchain,
      bind_unit_eq_some, bind_of_eq_some hinputs]
    simp

def ofRows (rows : List AppendRow) (batchSize treeHeight : UInt32) (startIndex oldRoot newRoot hashchainHash
    publicInputHash : Fr) : BatchAddressTreeAppendCircuit where
  publicInputHash := publicInputHash
  oldRoot := oldRoot
  newRoot := newRoot
  hashchainHash := hashchainHash
  startIndex := startIndex
  lowElementValues := rows.map AppendRow.lowValue
  lowElementNextValues := rows.map AppendRow.nextValue
  lowElementIndices := rows.map AppendRow.lowIndex
  lowElementProofs := rows.map AppendRow.lowProof
  newElementValues := rows.map AppendRow.newValue
  newElementProofs := rows.map AppendRow.newProof
  batchSize := batchSize
  treeHeight := treeHeight

section OfRows

variable {batchSize treeHeight : UInt32} {startIndex oldRoot newRoot hashchainHash publicInputHash : Fr}

theorem hasRow_ofRows {i : Nat} (hget : rows[i]? = some row) :
    (ofRows rows batchSize treeHeight startIndex oldRoot newRoot hashchainHash publicInputHash).HasRow i row := by
  constructor <;> exact (List.getElem?_map ..).trans (congrArg (Option.map _) hget)

theorem layout_ofRows (hbatch : batchSize ≠ 0) (hheight : treeHeight ≠ 0)
    (hlength : rows.length = batchSize.toNat)
    (hproofs : ∀ row ∈ rows, row.lowProof.length = treeHeight.toNat ∧
      row.newProof.length = treeHeight.toNat) :
    (ofRows rows batchSize treeHeight startIndex oldRoot newRoot hashchainHash publicInputHash).Layout := by
  have hcolumn : ∀ {α : Type} (column : AppendRow → α), (rows.map column).length = batchSize.toNat := by
    intro α column
    rw [List.length_map, hlength]
  refine ⟨hbatch, hheight, hcolumn _, hcolumn _, hcolumn _, hcolumn _, hcolumn _, hcolumn _, ?_, ?_⟩
  · exact List.forall_mem_map.mpr fun row hmem => (hproofs row hmem).1
  · exact List.forall_mem_map.mpr fun row hmem => (hproofs row hmem).2

theorem define_ofRows (hbatch : batchSize ≠ 0) (hheight : treeHeight ≠ 0) (hlength : rows.length = batchSize.toNat)
    (hproofs : ∀ row ∈ rows, row.lowProof.length = treeHeight.toNat ∧ row.newProof.length = treeHeight.toNat)
    (hrounds : Rounds poseidon treeHeight.toNat startIndex rows oldRoot newRoot)
    (hchain : hashChain4 poseidon (rows.map AppendRow.newValue) = some hashchainHash)
    (hinputs : hashChain4 poseidon [oldRoot, newRoot, hashchainHash, startIndex] = some publicInputHash) :
    (ofRows rows batchSize treeHeight startIndex oldRoot newRoot hashchainHash publicInputHash).define poseidon =
      some () :=
  (define_eq_some (layout_ofRows hbatch hheight hlength hproofs) hlength fun _ _ => hasRow_ofRows).mpr
    ⟨hrounds, hchain, hinputs⟩

end OfRows

end BatchAddressTreeAppendCircuit

/-! ### The chains -/

theorem Poseidon.Total.absorbGroups (htotal : poseidon.Total) (h : Fr) (inputs : List Fr) :
    ∃ digest, absorbGroups poseidon h inputs = some digest := by
  fun_induction Circuits.absorbGroups poseidon h inputs with
  | case1 h => exact ⟨h, rfl⟩
  | case2 h g0 => exact htotal _ (List.cons_ne_nil _ _) (by simp)
  | case3 h g0 g1 => exact htotal _ (List.cons_ne_nil _ _) (by simp)
  | case4 h g0 g1 g2 inputs ih =>
      obtain ⟨next, hnext⟩ := htotal [h, g0, g1, g2] (List.cons_ne_nil _ _) (by simp)
      obtain ⟨digest, hdigest⟩ := ih next
      exact ⟨digest, (bind_of_eq_some hnext).trans hdigest⟩

theorem Poseidon.Total.hashChain4 (htotal : poseidon.Total) (inputs : List Fr) :
    ∃ digest, hashChain4 poseidon inputs = some digest := by
  cases inputs with
  | nil => exact ⟨0, rfl⟩
  | cons first inputs => exact htotal.absorbGroups first inputs

end Zolana.Circuits
