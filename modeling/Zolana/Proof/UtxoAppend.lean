import Zolana.Lib.Merkle
import Zolana.UtxoTree.Layout

/-!
# Appending to the UTXO tree

What `append_batch` writes. Its effect on the root, the cursor and the history is `afterBatch` whatever
the subtrees hold, and under the two facts assumed of the hash the subtrees hold what `Merkle.Stored`
asks for, so the root is the one of the perfect tree over all leaves.
-/

namespace Zolana

open Fallible

/-- The hash of two nodes. The default is never met: nodes of a tree are field elements. -/
def Hashv.node (hashv : Hashv) (left right : Bytes32) : Bytes32 :=
  match hashv [left, right] with
  | .ok digest => digest
  | .error _ => 0

theorem Hashv.Total.node {hashv : Hashv} (h : hashv.Total) {left right : Bytes32}
    (hleft : isCanonicalBn254ScalarBe left = true) (hright : isCanonicalBn254ScalarBe right = true) :
    hashv [left, right] = .ok (hashv.node left right) ∧
      isCanonicalBn254ScalarBe (hashv.node left right) = true := by
  obtain ⟨digest, hdigest, hcanonical⟩ := h [left, right] (by simp) (by simp) (by simp [hleft, hright])
  have hnode : hashv.node left right = digest := by rw [Hashv.node, hdigest]
  rw [hnode]
  exact ⟨hdigest, hcanonical⟩

theorem Hashv.DerivesZeroBytes.emptyRoots {hashv : Hashv} (h : hashv.DerivesZeroBytes) {height : Nat}
    (hheight : height ≤ 40) : Merkle.EmptyRoots hashv.node 0 zeroByte height := by
  constructor
  · rfl
  · intro level hlevel
    have hhash := h level _ _ (getElem?_zeroBytes (by omega)) (getElem?_zeroBytes (by omega))
    rw [Hashv.node, hhash]

namespace UtxoTreeLayout

variable {HEIGHT : Nat} {hashv : Hashv}

/-! ### The effect on root, cursor and history -/

/-- A batch of `count` leaves: what the climbs left in the subtrees, and its final root. -/
def afterBatch (subtrees : Vector Bytes32 HEIGHT) (root : Bytes32) (count slot : Nat)
    (isFirstUpdate : Bool) (tree : UtxoTreeLayout HEIGHT) : UtxoTreeLayout HEIGHT :=
  pushRoot root slot isFirstUpdate
    { tree with subtrees, root, nextIndex := tree.nextIndex + count }

section AfterBatch

variable {subtrees : Vector Bytes32 HEIGHT} {root : Bytes32} {count slot : Nat} {isFirstUpdate : Bool}
  {tree : UtxoTreeLayout HEIGHT}

@[simp] theorem nextIndex_afterBatch :
    (afterBatch subtrees root count slot isFirstUpdate tree).nextIndex = tree.nextIndex + count := by
  unfold afterBatch pushRoot
  split <;> rfl

@[simp] theorem root_afterBatch : (afterBatch subtrees root count slot isFirstUpdate tree).root = root := by
  unfold afterBatch pushRoot
  split <;> rfl

@[simp] theorem subtrees_afterBatch :
    (afterBatch subtrees root count slot isFirstUpdate tree).subtrees = subtrees := by
  unfold afterBatch pushRoot
  split <;> rfl

@[simp] theorem lastUpdateSlot_afterBatch :
    (afterBatch subtrees root count slot isFirstUpdate tree).lastUpdateSlot = slot := by
  unfold afterBatch pushRoot
  split
  case isTrue h => exact h.2.symm
  case isFalse => rfl

theorem afterBatch_same (hslot : slot = tree.lastUpdateSlot) : afterBatch subtrees root count slot false tree =
      { tree with
        subtrees
        root
        nextIndex := tree.nextIndex + count
        rootHistory := tree.rootHistory.setIfInBounds tree.rootHistoryCursor.toNat root } := by
  rw [afterBatch, pushRoot, if_pos ⟨rfl, hslot⟩]
  rfl

theorem afterBatch_next (hslot : ¬ (isFirstUpdate = false ∧ slot = tree.lastUpdateSlot)) :
    afterBatch subtrees root count slot isFirstUpdate tree =
      { tree with
        subtrees
        root
        nextIndex := tree.nextIndex + count
        rootHistory := tree.rootHistory.setIfInBounds
          ((tree.rootHistoryCursor.toNat + 1) % Zolana.rootHistoryCapacity) root
        rootHistoryCursor :=
          UInt16.ofNat ((tree.rootHistoryCursor.toNat + 1) % Zolana.rootHistoryCapacity)
        rootHistoryLen :=
          UInt16.ofNat (min (tree.rootHistoryLen.toNat + 1) Zolana.rootHistoryCapacity)
        lastUpdateSlot := slot } := by
  rw [afterBatch, pushRoot, if_neg hslot]
  rfl

end AfterBatch

theorem finishLeaf_last (digest : Bytes32) (slot : Nat) (isFirstUpdate : Bool)
    (subtrees : Vector Bytes32 HEIGHT) (tree : UtxoTreeLayout HEIGHT) :
    finishLeaf true digest slot isFirstUpdate { tree with subtrees } =
      afterBatch subtrees digest 1 slot isFirstUpdate tree := by
  simp only [finishLeaf, afterBatch, pushRoot, currentRootIndex, if_true]
  split <;> rfl

theorem afterBatch_more (subtrees subtrees' : Vector Bytes32 HEIGHT) (root : Bytes32)
    (count slot : Nat) (isFirstUpdate : Bool) (tree : UtxoTreeLayout HEIGHT) :
    afterBatch subtrees root count slot isFirstUpdate
        { tree with subtrees := subtrees', nextIndex := tree.nextIndex + 1 } =
      afterBatch subtrees root (count + 1) slot isFirstUpdate tree := by
  simp only [afterBatch, Nat.add_assoc, Nat.add_comm 1 count]

/-! ### One step of a loop -/

variable {isLast : Bool} {level currentIndex slot : Nat} {digest zero : Bytes32}
  {zeros leaves : List Bytes32} {tree : UtxoTreeLayout HEIGHT}

theorem run_climb_end (hlevel : HEIGHT ≤ level) :
    (climb hashv isLast level currentIndex digest (zero :: zeros)).run tree = .ok digest tree := by
  have hnone : tree.subtrees[level]? = none := Vector.getElem?_eq_none hlevel
  simp only [climb, EStateM.run_bind, EStateM.run_get, hnone, EStateM.run_pure]

theorem run_climb_left (hlevel : level < HEIGHT) (heven : currentIndex % 2 = 0) :
    (climb hashv isLast level currentIndex digest (zero :: zeros)).run tree =
      if isLast = false then .ok digest (setSubtree level digest tree)
      else
        match hashv [digest, zero] with
        | .ok digest' =>
          (climb hashv isLast (level + 1) (currentIndex / 2) digest' zeros).run
            (setSubtree level digest tree)
        | .error _ => .error .hash (setSubtree level digest tree) := by
  have hsome : tree.subtrees[level]? = some tree.subtrees[level] := Vector.getElem?_eq_getElem hlevel
  simp only [climb, EStateM.run_bind, EStateM.run_get, hsome, if_pos heven, EStateM.run_modify]
  cases isLast with
  | false => rfl
  | true => cases hashv [digest, zero] <;> rfl

theorem run_climb_right {left : Bytes32} (hleft : tree.subtrees[level]? = some left)
    (hodd : currentIndex % 2 = 1) : (climb hashv isLast level currentIndex digest (zero :: zeros)).run tree =
      match hashv [left, digest] with
      | .ok digest' => (climb hashv isLast (level + 1) (currentIndex / 2) digest' zeros).run tree
      | .error _ => .error .hash tree := by
  have hne : ¬ currentIndex % 2 = 0 := by omega
  simp only [climb, EStateM.run_bind, EStateM.run_get, hleft, if_neg hne]
  cases hashv [left, digest] <;> rfl

/-- A climb writes subtrees only, and fails only in the hash. -/
theorem climb_cases (isLast : Bool) (level currentIndex : Nat) (digest : Bytes32)
    (zeros : List Bytes32) (tree : UtxoTreeLayout HEIGHT) : ∃ subtrees,
      (∃ digest', (climb hashv isLast level currentIndex digest zeros).run tree =
        .ok digest' { tree with subtrees }) ∨
      (climb hashv isLast level currentIndex digest zeros).run tree = .error .hash { tree with subtrees } := by
  induction zeros generalizing level currentIndex digest tree with
  | nil => exact ⟨tree.subtrees, .inl ⟨digest, rfl⟩⟩
  | cons zero zeros ih =>
      by_cases hlevel : level < HEIGHT
      · obtain heven | hodd := Nat.mod_two_eq_zero_or_one currentIndex
        · rw [run_climb_left hlevel heven]
          split
          · exact ⟨_, .inl ⟨digest, rfl⟩⟩
          · cases hashv [digest, zero] with
            | ok digest' => exact ih (level + 1) (currentIndex / 2) digest' (setSubtree level digest tree)
            | error e => exact ⟨_, .inr rfl⟩
        · rw [run_climb_right (Vector.getElem?_eq_getElem hlevel) hodd]
          cases hashv [tree.subtrees[level], digest] with
          | ok digest' => exact ih (level + 1) (currentIndex / 2) digest' tree
          | error e => exact ⟨_, .inr rfl⟩
      · rw [run_climb_end (by omega)]
        exact ⟨tree.subtrees, .inl ⟨digest, rfl⟩⟩

theorem run_appendLeaves_full {isFirstUpdate : Bool} {leaf : Bytes32} (hfull : 2 ^ HEIGHT ≤ tree.nextIndex) :
    (appendLeaves hashv slot isFirstUpdate (leaf :: leaves)).run tree = .error .treeIsFull tree := by
  have hcapacity : tree.capacity ≤ tree.nextIndex := hfull
  simp only [appendLeaves, EStateM.run_bind, EStateM.run_get, if_pos hcapacity, run_throw]

theorem run_appendLeaves_cons {isFirstUpdate : Bool} {leaf : Bytes32} (hroom : tree.nextIndex < 2 ^ HEIGHT) :
    (appendLeaves hashv slot isFirstUpdate (leaf :: leaves)).run tree =
      match (climb hashv leaves.isEmpty 0 tree.nextIndex leaf zeroBytes).run tree with
      | .ok digest tree =>
        (appendLeaves hashv slot isFirstUpdate leaves).run
          (finishLeaf leaves.isEmpty digest slot isFirstUpdate tree)
      | .error e tree => .error e tree := by
  have hcapacity : ¬ tree.capacity ≤ tree.nextIndex := by
    rw [capacity]
    omega
  simp only [appendLeaves, EStateM.run_bind, EStateM.run_get, if_neg hcapacity, EStateM.run_modify]
  cases (climb hashv leaves.isEmpty 0 tree.nextIndex leaf zeroBytes).run tree <;> rfl

section Leaf

variable {slot : Nat} {isFirstUpdate : Bool} {leaf digest : Bytes32} {tree : UtxoTreeLayout HEIGHT}
  {subtrees : Vector Bytes32 HEIGHT}

theorem run_appendLeaves_last (hroom : tree.nextIndex < 2 ^ HEIGHT)
    (hclimb : (climb hashv true 0 tree.nextIndex leaf zeroBytes).run tree =
      .ok digest { tree with subtrees }) :
    (appendLeaves hashv slot isFirstUpdate [leaf]).run tree =
      .ok () (afterBatch subtrees digest 1 slot isFirstUpdate tree) := by
  rw [run_appendLeaves_cons hroom, List.isEmpty_nil, hclimb, ← finishLeaf_last]
  rfl

theorem run_appendLeaves_more {next : Bytes32} {leaves : List Bytes32} (hroom : tree.nextIndex < 2 ^ HEIGHT)
    (hclimb : (climb hashv false 0 tree.nextIndex leaf zeroBytes).run tree =
      .ok digest { tree with subtrees }) :
    (appendLeaves hashv slot isFirstUpdate (leaf :: next :: leaves)).run tree =
      (appendLeaves hashv slot isFirstUpdate (next :: leaves)).run
        { tree with subtrees, nextIndex := tree.nextIndex + 1 } := by
  rw [run_appendLeaves_cons hroom, List.isEmpty_cons, hclimb]
  rfl

end Leaf

/-- The outcomes of the loop over the leaves, whatever the hash does. -/
theorem appendLeaves_cases (hashv : Hashv) (slot : Nat) (isFirstUpdate : Bool)
    (hleaves : leaves ≠ []) (tree : UtxoTreeLayout HEIGHT) :
    (∃ subtrees root, tree.nextIndex + leaves.length ≤ 2 ^ HEIGHT ∧
      (appendLeaves hashv slot isFirstUpdate leaves).run tree =
        .ok () (afterBatch subtrees root leaves.length slot isFirstUpdate tree)) ∨
    (∃ subtrees nextIndex, 2 ^ HEIGHT ≤ nextIndex ∧
      (appendLeaves hashv slot isFirstUpdate leaves).run tree =
        .error .treeIsFull { tree with subtrees, nextIndex }) ∨
    (∃ tree', (appendLeaves hashv slot isFirstUpdate leaves).run tree = .error .hash tree') := by
  induction leaves generalizing tree with
  | nil => exact absurd rfl hleaves
  | cons leaf leaves ih =>
      by_cases hroom : tree.nextIndex < 2 ^ HEIGHT
      · obtain ⟨subtrees, ⟨digest, hclimb⟩ | hclimb⟩ :=
          climb_cases leaves.isEmpty 0 tree.nextIndex leaf zeroBytes tree
        · cases leaves with
          | nil => exact .inl ⟨subtrees, digest, hroom, run_appendLeaves_last hroom hclimb⟩
          | cons next leaves =>
              rw [run_appendLeaves_more hroom hclimb]
              -- The remaining leaves start from the tree with one leaf more.
              obtain ⟨subtrees', root, hfits, hrun⟩ | ⟨subtrees', nextIndex, hfull, hrun⟩ | hhash :=
                ih (by simp) { tree with subtrees, nextIndex := tree.nextIndex + 1 }
              · rw [hrun, afterBatch_more]
                refine .inl ⟨subtrees', root, ?_, rfl⟩
                simp only [List.length_cons] at hfits ⊢
                omega
              · exact .inr (.inl ⟨subtrees', nextIndex, hfull, hrun⟩)
              · exact .inr (.inr hhash)
        · rw [run_appendLeaves_cons hroom, hclimb]
          exact .inr (.inr ⟨_, rfl⟩)
      · rw [run_appendLeaves_full (by omega)]
        exact .inr (.inl ⟨tree.subtrees, tree.nextIndex, by omega, rfl⟩)

/-! ### The Merkle tree -/

/-- The leaves appended so far, in what the next append reads. -/
structure Appended (hashv : Hashv) (tree : UtxoTreeLayout HEIGHT) (leaves : List Bytes32) : Prop where
  nextIndex : tree.nextIndex = leaves.length
  stored : Merkle.Stored hashv.node 0 tree.subtrees leaves
  canonical : ∀ leaf ∈ leaves, isCanonicalBn254ScalarBe leaf = true

section Merkle

variable {leaves : List Bytes32} {tree : UtxoTreeLayout HEIGHT} (hHashv : hashv.Total)
  (hZero : hashv.DerivesZeroBytes) (hheight : HEIGHT ≤ 40)

include hHashv in
theorem nodeAt_canonical (hcanonical : ∀ leaf ∈ leaves, isCanonicalBn254ScalarBe leaf = true) (level i : Nat) :
    isCanonicalBn254ScalarBe
      (Merkle.nodeAt hashv.node (Merkle.padded 0 leaves) level i) = true := by
  apply Merkle.nodeAt_of_forall fun x => isCanonicalBn254ScalarBe x = true
  · intro k
    by_cases hk : k < leaves.length
    · rw [Merkle.padded, List.getD_eq_getElem _ _ hk]
      exact hcanonical _ (List.getElem_mem hk)
    · rw [Merkle.padded_of_le (by omega)]
      exact isCanonicalBn254ScalarBe_zero
  · intro a b ha hb
    exact (hHashv.node ha hb).2

include hHashv hZero hheight in
theorem run_climb {n : Nat} (hn : leaves.length = n + 1) (hroom : n < 2 ^ HEIGHT)
    (hcanonical : ∀ leaf ∈ leaves, isCanonicalBn254ScalarBe leaf = true) (isLast : Bool)
    {level : Nat} (hlevel : level ≤ HEIGHT)
    (hstored : ∀ l, level ≤ l → l < HEIGHT → n / 2 ^ l % 2 = 1 → tree.subtrees[l]? =
      some (Merkle.nodeAt hashv.node (Merkle.padded 0 leaves) l (n / 2 ^ l - 1))) :
    ∃ digest subtrees,
      (climb hashv isLast level (n / 2 ^ level)
        (Merkle.nodeAt hashv.node (Merkle.padded 0 leaves) level (n / 2 ^ level))
        (zeroBytes.drop level)).run tree = .ok digest { tree with subtrees } ∧
      Merkle.Climbed hashv.node (Merkle.padded 0 leaves) n isLast level tree.subtrees subtrees ∧
      (isLast = true → digest = Merkle.root hashv.node 0 HEIGHT leaves) := by
  have hnode := nodeAt_canonical hHashv hcanonical
  have hempty := hZero.emptyRoots hheight
  rw [drop_zeroBytes (by omega)]
  induction hk : HEIGHT - level generalizing level tree with
  | zero =>
      have heq : level = HEIGHT := by omega
      subst heq
      refine ⟨_, tree.subtrees, run_climb_end le_rfl, Merkle.Climbed.top, ?_⟩
      intro _
      rw [Nat.div_eq_of_lt hroom, Merkle.root]
  | succ k ih =>
      have hlt : level < HEIGHT := by omega
      obtain heven | hodd := Nat.mod_two_eq_zero_or_one (n / 2 ^ level)
      · rw [run_climb_left hlt heven]
        cases isLast with
        | false =>
            refine ⟨_, _, if_pos rfl, Merkle.Climbed.stop hlt heven, ?_⟩
            intro hlast
            exact absurd hlast (by simp)
        | true =>
            obtain ⟨hhash, _⟩ := hHashv.node (hnode level (n / 2 ^ level)) (zeroByte_canonical level)
            rw [if_neg (by simp), hhash, ← hempty.nodeAt_left hn hlt heven, ← Merkle.div_two_pow_succ,
              drop_zeroBytes (by omega)]
            have hstored' : ∀ l, level + 1 ≤ l → l < HEIGHT → n / 2 ^ l % 2 = 1 →
                (setSubtree level (Merkle.nodeAt hashv.node (Merkle.padded 0 leaves) level
                  (n / 2 ^ level)) tree).subtrees[l]? =
                some (Merkle.nodeAt hashv.node (Merkle.padded 0 leaves) l (n / 2 ^ l - 1)) := by
              intro l hle hl hset
              rw [← hstored l (by omega) hl hset]
              exact Vector.getElem?_setIfInBounds_ne (by omega)
            obtain ⟨digest, subtrees, hrun, hclimbed, hroot⟩ := ih (by omega) hstored' (by omega)
            exact ⟨digest, subtrees, hrun, hclimbed.left hlt heven, hroot⟩
      · have hleft := hstored level le_rfl hlt hodd
        obtain ⟨hhash, _⟩ := hHashv.node (hnode level (n / 2 ^ level - 1)) (hnode level (n / 2 ^ level))
        have hparent : hashv.node _ _ = Merkle.nodeAt hashv.node (Merkle.padded 0 leaves) _ _ :=
          (Merkle.nodeAt_right hodd).symm
        rw [run_climb_right hleft hodd, hhash, hparent, ← Merkle.div_two_pow_succ,
          drop_zeroBytes (by omega)]
        have hstored' : ∀ l, level + 1 ≤ l → l < HEIGHT → n / 2 ^ l % 2 = 1 → tree.subtrees[l]? =
            some (Merkle.nodeAt hashv.node (Merkle.padded 0 leaves) l (n / 2 ^ l - 1)) := by
          intro l hle
          exact hstored l (by omega)
        obtain ⟨digest, subtrees, hrun, hclimbed, hroot⟩ := ih (by omega) hstored' (by omega)
        exact ⟨digest, subtrees, hrun, hclimbed.right hodd, hroot⟩

include hHashv hZero hheight in
theorem Appended.run_climb {leaf : Bytes32} (h : Appended hashv tree leaves)
    (hroom : leaves.length < 2 ^ HEIGHT) (hleaf : isCanonicalBn254ScalarBe leaf = true) (isLast : Bool) :
    ∃ digest subtrees,
      (climb hashv isLast 0 tree.nextIndex leaf zeroBytes).run tree = .ok digest { tree with subtrees } ∧
      Merkle.Stored hashv.node 0 subtrees (leaves ++ [leaf]) ∧
      (isLast = true → digest = Merkle.root hashv.node 0 HEIGHT (leaves ++ [leaf])) := by
  have hcanonical : ∀ x ∈ leaves ++ [leaf], isCanonicalBn254ScalarBe x = true :=
    List.forall_mem_append.mpr ⟨h.canonical, List.forall_mem_singleton.mpr hleaf⟩
  obtain ⟨digest, subtrees, hrun, hclimbed, hroot⟩ :=
    UtxoTreeLayout.run_climb hHashv hZero hheight (by simp) hroom hcanonical isLast HEIGHT.zero_le
      fun l _ hl hodd => h.stored.nodeAt_snoc leaf hl hodd
  rw [pow_zero, Nat.div_one, Merkle.nodeAt, Merkle.padded_snoc_length, List.drop_zero,
    ← h.nextIndex] at hrun
  exact ⟨digest, subtrees, hrun, h.stored.snoc hclimbed, hroot⟩

theorem Appended.snoc {leaf : Bytes32} {subtrees : Vector Bytes32 HEIGHT}
    (h : Appended hashv tree leaves) (hleaf : isCanonicalBn254ScalarBe leaf = true)
    (hstored : Merkle.Stored hashv.node 0 subtrees (leaves ++ [leaf])) :
    Appended hashv { tree with subtrees, nextIndex := tree.nextIndex + 1 } (leaves ++ [leaf]) := by
  refine ⟨?_, hstored, ?_⟩
  · simp [h.nextIndex]
  · exact List.forall_mem_append.mpr ⟨h.canonical, List.forall_mem_singleton.mpr hleaf⟩

theorem Appended.batch {appended : List Bytes32} {subtrees : Vector Bytes32 HEIGHT}
    (h : Appended hashv tree appended) (hcanonical : ∀ leaf ∈ leaves, isCanonicalBn254ScalarBe leaf = true)
    (hstored : Merkle.Stored hashv.node 0 subtrees (appended ++ leaves)) (root : Bytes32) (slot : Nat)
    (isFirstUpdate : Bool) :
    Appended hashv (afterBatch subtrees root leaves.length slot isFirstUpdate tree) (appended ++ leaves) := by
  refine ⟨?_, ?_, List.forall_mem_append.mpr ⟨h.canonical, hcanonical⟩⟩
  · rw [nextIndex_afterBatch, h.nextIndex, List.length_append]
  · rwa [subtrees_afterBatch]

include hHashv hZero hheight in
theorem Appended.run_appendLeaves {appended : List Bytes32} (h : Appended hashv tree appended)
    (slot : Nat) (isFirstUpdate : Bool) (hleaves : leaves ≠ [])
    (hcanonical : ∀ leaf ∈ leaves, isCanonicalBn254ScalarBe leaf = true)
    (hfits : appended.length + leaves.length ≤ 2 ^ HEIGHT) : ∃ subtrees,
      (appendLeaves hashv slot isFirstUpdate leaves).run tree =
        .ok () (afterBatch subtrees (Merkle.root hashv.node 0 HEIGHT (appended ++ leaves))
          leaves.length slot isFirstUpdate tree) ∧
      Merkle.Stored hashv.node 0 subtrees (appended ++ leaves) := by
  induction leaves generalizing tree appended with
  | nil => exact absurd rfl hleaves
  | cons leaf leaves ih =>
      rw [List.length_cons] at hfits
      have hleaf := hcanonical leaf List.mem_cons_self
      have hroom : tree.nextIndex < 2 ^ HEIGHT := by
        rw [h.nextIndex]
        omega
      obtain ⟨digest, subtrees, hclimb, hstored, hroot⟩ :=
        h.run_climb hHashv hZero hheight (by omega) hleaf leaves.isEmpty
      cases leaves with
      | nil =>
          refine ⟨subtrees, ?_, hstored⟩
          rw [← hroot rfl]
          exact run_appendLeaves_last hroom hclimb
      | cons next leaves =>
          rw [run_appendLeaves_more hroom hclimb]
          obtain ⟨subtrees', hrun, hrest⟩ :=
            ih (h.snoc hleaf hstored) (by simp) (List.forall_mem_cons.mp hcanonical).2
              (by rw [List.length_append, List.length_singleton]; omega)
          rw [List.append_cons]
          refine ⟨subtrees', ?_, hrest⟩
          rw [hrun, afterBatch_more]
          rfl

include hHashv hZero hheight in
theorem Appended.run_appendLeaves_full {appended : List Bytes32} (h : Appended hashv tree appended)
    (slot : Nat) (isFirstUpdate : Bool) (hcanonical : ∀ leaf ∈ leaves, isCanonicalBn254ScalarBe leaf = true)
    (hroom : appended.length ≤ 2 ^ HEIGHT) (hfull : 2 ^ HEIGHT < appended.length + leaves.length) :
    ∃ subtrees, (appendLeaves hashv slot isFirstUpdate leaves).run tree =
      .error .treeIsFull { tree with subtrees, nextIndex := 2 ^ HEIGHT } := by
  induction leaves generalizing tree appended with
  | nil =>
      rw [List.length_nil] at hfull
      omega
  | cons leaf leaves ih =>
      rw [List.length_cons] at hfull
      have hleaf := hcanonical leaf List.mem_cons_self
      by_cases hlt : appended.length < 2 ^ HEIGHT
      · obtain ⟨digest, subtrees, hclimb, hstored, -⟩ :=
          h.run_climb hHashv hZero hheight hlt hleaf leaves.isEmpty
        cases leaves with
        | nil =>
            rw [List.length_nil] at hfull
            omega
        | cons next leaves =>
            rw [run_appendLeaves_more (by rw [h.nextIndex]; exact hlt) hclimb]
            exact ih (h.snoc hleaf hstored) (List.forall_mem_cons.mp hcanonical).2
              (by rw [List.length_append, List.length_singleton]; omega)
              (by rw [List.length_append, List.length_singleton]; omega)
      · have heq : 2 ^ HEIGHT = tree.nextIndex := by
          rw [h.nextIndex]
          omega
        rw [UtxoTreeLayout.run_appendLeaves_full heq.le, heq]
        exact ⟨tree.subtrees, rfl⟩

/-- The subtrees hold the leaves, or there is no room for more. -/
def Intact (hashv : Hashv) (tree : UtxoTreeLayout HEIGHT) : Prop :=
  (∃ leaves, Appended hashv tree leaves ∧ leaves.length ≤ 2 ^ HEIGHT) ∨ 2 ^ HEIGHT ≤ tree.nextIndex

include hHashv hZero hheight in
/-- The hash answers field elements, so the loop over them fails on a full tree only. -/
theorem Intact.appendLeaves_cases (h : Intact hashv tree) (slot : Nat) (isFirstUpdate : Bool) (hleaves : leaves ≠ [])
    (hcanonical : ∀ leaf ∈ leaves, isCanonicalBn254ScalarBe leaf = true) :
    (∃ subtrees root, tree.nextIndex + leaves.length ≤ 2 ^ HEIGHT ∧
      (appendLeaves hashv slot isFirstUpdate leaves).run tree =
        .ok () (afterBatch subtrees root leaves.length slot isFirstUpdate tree) ∧
      Intact hashv (afterBatch subtrees root leaves.length slot isFirstUpdate tree)) ∨
    ∃ subtrees nextIndex, 2 ^ HEIGHT ≤ nextIndex ∧
      (appendLeaves hashv slot isFirstUpdate leaves).run tree =
        .error .treeIsFull { tree with subtrees, nextIndex } := by
  obtain ⟨appended, happended, hroom⟩ | hfull := h
  · by_cases hfits : appended.length + leaves.length ≤ 2 ^ HEIGHT
    · obtain ⟨subtrees, hrun, hstored⟩ :=
        happended.run_appendLeaves hHashv hZero hheight slot isFirstUpdate hleaves hcanonical hfits
      refine .inl ⟨subtrees, _, by rwa [happended.nextIndex], hrun, .inl ⟨appended ++ leaves, ?_, ?_⟩⟩
      · exact happended.batch hcanonical hstored _ slot isFirstUpdate
      · rwa [List.length_append]
    · obtain ⟨subtrees, hrun⟩ := happended.run_appendLeaves_full hHashv hZero hheight slot isFirstUpdate hcanonical
        hroom (not_le.mp hfits)
      exact .inr ⟨subtrees, _, le_rfl, hrun⟩
  · obtain ⟨leaf, leaves, rfl⟩ := List.exists_cons_of_ne_nil hleaves
    exact .inr ⟨tree.subtrees, tree.nextIndex, hfull, run_appendLeaves_full hfull⟩

end Merkle

/-! ### One call -/

theorem run_appendBatch_nil (slot : Nat) (tree : UtxoTreeLayout HEIGHT) :
    (appendBatch hashv [] slot).run tree = .ok () tree := by
  simp [appendBatch, appendLeaves]

theorem run_appendBatch_stale (hleaves : leaves ≠ []) (hnonempty : tree.nextIndex ≠ 0)
    (hslot : slot < tree.lastUpdateSlot) :
    (appendBatch hashv leaves slot).run tree = .error .invalidUpdateSlot tree := by
  simp [appendBatch, hleaves, hnonempty, hslot]

theorem run_appendBatch (hslot : tree.nextIndex = 0 ∨ tree.lastUpdateSlot ≤ slot) :
    (appendBatch hashv leaves slot).run tree =
      (appendLeaves hashv slot (decide (tree.nextIndex = 0)) leaves).run tree := by
  have hguard : ¬ (leaves ≠ [] ∧ decide (tree.nextIndex = 0) = false ∧ slot < tree.lastUpdateSlot) := by
    rintro ⟨-, hnonempty, hlt⟩
    have := of_decide_eq_false hnonempty
    omega
  simp only [appendBatch, EStateM.run_bind, EStateM.run_get, if_neg hguard]

theorem nextIndex_appendBatch {tree' : UtxoTreeLayout HEIGHT}
    (h : (appendBatch hashv leaves slot).run tree = .ok () tree') :
    tree'.nextIndex = tree.nextIndex + leaves.length ∧
      (tree.nextIndex ≤ 2 ^ HEIGHT → tree'.nextIndex ≤ 2 ^ HEIGHT) := by
  by_cases hleaves : leaves = []
  · subst hleaves
    rw [run_appendBatch_nil] at h
    cases h
    exact ⟨rfl, id⟩
  · by_cases hslot : tree.nextIndex = 0 ∨ tree.lastUpdateSlot ≤ slot
    · rw [run_appendBatch hslot] at h
      obtain ⟨subtrees, root, hfits, hrun⟩ | ⟨subtrees, nextIndex, _, hrun⟩ | ⟨failed, hrun⟩ :=
        appendLeaves_cases hashv slot (decide (tree.nextIndex = 0)) hleaves tree
      · rw [hrun] at h
        cases h
        rw [nextIndex_afterBatch]
        exact ⟨rfl, fun _ => hfits⟩
      · rw [hrun] at h
        cases h
      · rw [hrun] at h
        cases h
    · obtain ⟨hnonempty, hstale⟩ := not_or.mp hslot
      rw [run_appendBatch_stale hleaves hnonempty (Nat.lt_of_not_le hstale)] at h
      cases h

theorem run_init {height : Nat} {blank : UtxoTreeLayout HEIGHT} (h : (init height).run blank = .ok () tree) :
    HEIGHT ≤ 40 ∧
      tree =
        { nextIndex := 0
          root := zeroByte HEIGHT
          rootHistoryCursor := 0
          rootHistoryLen := 1
          rootHistoryCapacity := 500
          subtreesLen := HEIGHT
          lastUpdateSlot := 0
          subtrees := blank.subtrees.mapIdx fun level subtree => zeroBytes.getD level subtree
          rootHistory := blank.rootHistory.setIfInBounds 0 (zeroByte HEIGHT) } := by
  have hcapacity : Zolana.rootHistoryCapacity < 2 ^ 16 := by decide
  by_cases hne : height = HEIGHT
  · subst hne
    by_cases hheight : height ≤ 40
    · have hbyte : height < 2 ^ 8 := by omega
      have hempty : zeroBytes[height]? = some (zeroByte height) := getElem?_zeroBytes hheight
      simp only [init, ne_eq, not_true_eq_false, if_false, if_pos hbyte, if_pos hcapacity, hempty,
        okOr_some, pure_bind] at h
      refine ⟨hheight, ?_⟩
      injection h with _ htree
      exact htree.symm
    · have hnone : zeroBytes[height]? = none := by
        rw [List.getElem?_eq_none_iff, length_zeroBytes]
        omega
      by_cases hbyte : height < 2 ^ 8
      · simp only [init, ne_eq, not_true_eq_false, if_false, if_pos hbyte, if_pos hcapacity, hnone] at h
        exact absurd h (by simp)
      · simp only [init, ne_eq, not_true_eq_false, if_false, if_neg hbyte] at h
        exact absurd h (by simp)
  · simp only [init, ne_eq, hne, not_false_eq_true, if_true] at h
    exact absurd h (by simp)

theorem appended_init {height : Nat} {blank : UtxoTreeLayout HEIGHT} (h : (init height).run blank = .ok () tree) :
    Appended hashv tree [] := by
  obtain ⟨-, rfl⟩ := run_init h
  exact ⟨rfl, Merkle.Stored.nil _, nofun⟩

end UtxoTreeLayout

end Zolana
