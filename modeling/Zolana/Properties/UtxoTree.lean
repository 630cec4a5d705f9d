import Zolana.Proof.UtxoHistory

/-!
# The UTXO tree refines a Merkle tree

However its leaves are split into batches, the tree has the root of the perfect tree over them, and the
history accepts the final root of each of the last slots.
-/

namespace Zolana

open UtxoTreeLayout

variable {HEIGHT : Nat} {hashv : Hashv}

/-! ### Sequences of appends -/

/-- The tree between two calls. -/
structure Represents (hashv : Hashv) (tree : UtxoTreeLayout HEIGHT) (leaves : List Bytes32) : Prop
    extends Appended hashv tree leaves where
  root : tree.root = Merkle.root hashv.node 0 HEIGHT leaves

/-- Calls a caller can make in order: field elements, and slots that do not go back. -/
structure AppendCall.Ordered (calls : List AppendCall) : Prop where
  canonical : ∀ call ∈ calls, ∀ leaf ∈ call.leaves, isCanonicalBn254ScalarBe leaf = true
  slots : (calls.map (·.slot)).Pairwise (· ≤ ·)

/-- Calls whose slots do not go back behind the tree's last update either. -/
structure Follows (tree : UtxoTreeLayout HEIGHT) (calls : List AppendCall) : Prop
    extends AppendCall.Ordered calls where
  lastUpdateSlot_le : ∀ call ∈ calls, tree.lastUpdateSlot ≤ call.slot

theorem Follows.tail {tree tree' : UtxoTreeLayout HEIGHT} {call : AppendCall} {calls : List AppendCall}
    (h : Follows tree (call :: calls)) (hslot : tree'.lastUpdateSlot ≤ call.slot) : Follows tree' calls := by
  have hslots := h.slots
  rw [List.map_cons, List.pairwise_cons] at hslots
  refine ⟨⟨(List.forall_mem_cons.mp h.canonical).2, hslots.2⟩, ?_⟩
  intro next hnext
  exact hslot.trans (hslots.1 next.slot (List.mem_map_of_mem hnext))

theorem AppendCall.Ordered.follows_init {height : Nat} {blank tree : UtxoTreeLayout HEIGHT}
    {calls : List AppendCall} (h : AppendCall.Ordered calls)
    (hinit : (init height).run blank = .ok () tree) : Follows tree calls := by
  obtain ⟨-, rfl⟩ := UtxoTreeLayout.run_init hinit
  exact ⟨h, fun call _ => Nat.zero_le call.slot⟩

section Refinement

variable (hHashv : hashv.Total) (hZero : hashv.DerivesZeroBytes)

include hZero in
theorem represents_init {height : Nat} {blank tree : UtxoTreeLayout HEIGHT}
    (hinit : (init height).run blank = .ok () tree) : Represents hashv tree [] := by
  refine ⟨appended_init hinit, ?_⟩
  obtain ⟨hheight, rfl⟩ := UtxoTreeLayout.run_init hinit
  rw [(hZero.emptyRoots hheight).root_nil]

include hHashv hZero in
theorem Represents.run_appendBatch {tree : UtxoTreeLayout HEIGHT} {appended leaves : List Bytes32}
    (h : Represents hashv tree appended) (hheight : HEIGHT ≤ 40) {slot : Nat}
    (hcanonical : ∀ leaf ∈ leaves, isCanonicalBn254ScalarBe leaf = true)
    (hslot : tree.lastUpdateSlot ≤ slot) (hfits : (appended ++ leaves).length ≤ 2 ^ HEIGHT) :
    ∃ tree', (appendBatch hashv leaves slot).run tree = .ok () tree' ∧
      Represents hashv tree' (appended ++ leaves) ∧ tree'.lastUpdateSlot ≤ slot := by
  by_cases hleaves : leaves = []
  · subst hleaves
    rw [List.append_nil]
    exact ⟨tree, run_appendBatch_nil slot tree, h, hslot⟩
  · rw [List.length_append] at hfits
    obtain ⟨subtrees, hrun, hstored⟩ :=
      h.run_appendLeaves hHashv hZero hheight slot (decide (tree.nextIndex = 0)) hleaves hcanonical
        hfits
    refine ⟨_, (UtxoTreeLayout.run_appendBatch (.inr hslot)).trans hrun, ⟨?_, root_afterBatch⟩, ?_⟩
    · exact h.toAppended.batch hcanonical hstored _ slot _
    · rw [lastUpdateSlot_afterBatch]

include hHashv hZero in
theorem Represents.run_appendBatches {tree : UtxoTreeLayout HEIGHT} {appended : List Bytes32}
    (h : Represents hashv tree appended) (hheight : HEIGHT ≤ 40) {calls rest : List AppendCall}
    (hcalls : Follows tree (calls ++ rest))
    (hfits : (appended ++ AppendCall.allLeaves calls).length ≤ 2 ^ HEIGHT) :
    ∃ tree', (appendBatches hashv calls).run tree = .ok () tree' ∧
      Represents hashv tree' (appended ++ AppendCall.allLeaves calls) ∧ Follows tree' rest := by
  induction calls generalizing tree appended with
  | nil =>
      rw [AppendCall.allLeaves, List.flatMap_nil, List.append_nil]
      exact ⟨tree, rfl, h, hcalls⟩
  | cons call calls ih =>
      rw [AppendCall.allLeaves, List.flatMap_cons, ← List.append_assoc] at hfits ⊢
      obtain ⟨tree', hrun, h', hslot⟩ :=
        h.run_appendBatch hHashv hZero hheight (hcalls.canonical call (by simp))
          (hcalls.lastUpdateSlot_le call (by simp))
          ((List.sublist_append_left _ _).length_le.trans hfits)
      obtain ⟨tree'', hruns, h'', hrest⟩ := ih h' (hcalls.tail hslot) hfits
      refine ⟨tree'', ?_, h'', hrest⟩
      rw [appendBatches, Fallible.run_bind_of_ok hrun]
      exact hruns

end Refinement

/-- Appends from `init` that fit the tree all succeed, and the tree counts and commits to all leaves, however
they were batched. A call that does not fit fails with `TreeIsFull`, and so does every nonempty call after
it. -/
theorem utxo_tree_refinement {height : Nat} {blank tree : UtxoTreeLayout HEIGHT}
    (hHashv : hashv.Total) (hZero : hashv.DerivesZeroBytes) (hinit : (init height).run blank = .ok () tree) :
    (∀ calls, AppendCall.Ordered calls → (AppendCall.allLeaves calls).length ≤ 2 ^ HEIGHT →
      ∃ tree', (appendBatches hashv calls).run tree = .ok () tree' ∧
        tree'.nextIndex = (AppendCall.allLeaves calls).length ∧
        tree'.root = Merkle.root hashv.node 0 HEIGHT (AppendCall.allLeaves calls)) ∧
    (∀ calls calls' suffix, AppendCall.allLeaves calls = AppendCall.allLeaves calls' →
      AppendCall.Ordered (calls ++ suffix) → AppendCall.Ordered (calls' ++ suffix) →
      (AppendCall.allLeaves (calls ++ suffix)).length ≤ 2 ^ HEIGHT →
      ∃ tree₁ tree₂, (appendBatches hashv (calls ++ suffix)).run tree = .ok () tree₁ ∧
        (appendBatches hashv (calls' ++ suffix)).run tree = .ok () tree₂ ∧
        tree₁.root = tree₂.root ∧ tree₁.nextIndex = tree₂.nextIndex) ∧
    (∀ calls call, AppendCall.Ordered (calls ++ [call]) →
      (AppendCall.allLeaves calls).length ≤ 2 ^ HEIGHT →
      2 ^ HEIGHT < (AppendCall.allLeaves (calls ++ [call])).length →
      ∃ tree' full, (appendBatches hashv calls).run tree = .ok () tree' ∧
        (appendBatch hashv call.leaves call.slot).run tree' = .error .treeIsFull full ∧
        ∀ leaves slot, leaves ≠ [] → full.lastUpdateSlot ≤ slot →
          (appendBatch hashv leaves slot).run full = .error .treeIsFull full) := by
  have hheight := (UtxoTreeLayout.run_init hinit).1
  have hstart := represents_init hZero hinit
  have hrun : ∀ calls rest, AppendCall.Ordered (calls ++ rest) →
      (AppendCall.allLeaves calls).length ≤ 2 ^ HEIGHT →
      ∃ tree', (appendBatches hashv calls).run tree = .ok () tree' ∧
        Represents hashv tree' (AppendCall.allLeaves calls) ∧ Follows tree' rest := by
    intro calls rest hcalls hfits
    exact hstart.run_appendBatches hHashv hZero hheight (hcalls.follows_init hinit) hfits
  refine ⟨?_, ?_, ?_⟩
  · intro calls hcalls hfits
    obtain ⟨tree', hok, h, -⟩ := hrun calls [] (by rwa [List.append_nil]) hfits
    exact ⟨tree', hok, h.nextIndex, h.root⟩
  · intro calls calls' suffix hleaves hcalls hcalls' hfits
    have hsuffix : AppendCall.allLeaves (calls ++ suffix) = AppendCall.allLeaves (calls' ++ suffix) := by
      simp only [AppendCall.allLeaves, List.flatMap_append] at hleaves ⊢
      rw [hleaves]
    obtain ⟨tree₁, hok₁, h₁, -⟩ := hrun (calls ++ suffix) [] (by rwa [List.append_nil]) hfits
    obtain ⟨tree₂, hok₂, h₂, -⟩ :=
      hrun (calls' ++ suffix) [] (by rwa [List.append_nil]) (hsuffix ▸ hfits)
    refine ⟨tree₁, tree₂, hok₁, hok₂, ?_, ?_⟩
    · rw [h₁.root, h₂.root, hsuffix]
    · rw [h₁.nextIndex, h₂.nextIndex, hsuffix]
  · intro calls call hcalls hfits hfull
    obtain ⟨tree', hok, h, hnext⟩ := hrun calls [call] hcalls hfits
    have hslot := hnext.lastUpdateSlot_le call (by simp)
    rw [AppendCall.allLeaves, List.flatMap_append, List.flatMap_singleton, List.length_append] at hfull
    obtain ⟨subtrees, herr⟩ := h.run_appendLeaves_full hHashv hZero hheight call.slot
      (decide (tree'.nextIndex = 0)) (hnext.canonical call (by simp)) hfits hfull
    refine ⟨tree', _, hok, (run_appendBatch (.inr hslot)).trans herr, ?_⟩
    intro leaves slot hleaves hle
    rw [run_appendBatch (.inr hle)]
    obtain ⟨leaf, leaves, rfl⟩ := List.exists_cons_of_ne_nil hleaves
    exact run_appendLeaves_full le_rfl

/-! ### A hash in which the leaves show -/

/-- A hash of field elements. Two copies of an empty root hash to the next one, as the table says, and other
inputs to a number that they are the decimal digits of, as long as they are digits. -/
def Hashv.digits : Hashv := fun inputs =>
  if inputs.all isCanonicalBn254ScalarBe then
    match (List.range 40).find? fun level => inputs = [zeroByte level, zeroByte level] with
    | some level => .ok (zeroByte (level + 1))
    | none => .ok (inputs.foldl (fun digits input => 10 * digits + input) 1 % bn254ScalarModulusBe)
  else
    .error (.poseidonSyscall .inputLargerThanModulus)

theorem total_digits : Hashv.digits.Total := by
  intro inputs _ _ hinputs
  rw [Hashv.digits, if_pos (List.all_eq_true.mpr hinputs)]
  split
  case h_1 level _ => exact ⟨_, rfl, zeroByte_canonical (level + 1)⟩
  case h_2 => exact ⟨_, rfl, decide_eq_true (BitVec.umod_lt _ (by decide))⟩

theorem derivesZeroBytes_digits : Hashv.digits.DerivesZeroBytes := by
  have htable : (List.range 40).all fun level =>
      Hashv.digits [zeroByte level, zeroByte level] = .ok (zeroByte (level + 1)) := by decide +kernel
  intro level zero next hzero hnext
  have hlevel : level < 40 := by
    have := (List.getElem?_eq_some_iff.mp hnext).1
    rw [length_zeroBytes] at this
    omega
  rw [getElem?_zeroBytes (by omega)] at hzero hnext
  have hentry := List.all_eq_true.mp htable level (List.mem_range.mpr hlevel)
  rw [← Option.some.inj hzero, ← Option.some.inj hnext]
  exact of_decide_eq_true hentry

def utxoBlank : UtxoTreeLayout 2 := ⟨0, 0, 0, 0, 0, 0, 0, Vector.replicate 2 0, Vector.replicate 500 0⟩

def utxoStart : UtxoTreeLayout 2 :=
  { utxoBlank with
    root := zeroByte 2
    rootHistoryLen := 1
    rootHistoryCapacity := 500
    subtreesLen := 2
    subtrees := #v[zeroByte 0, zeroByte 1]
    rootHistory := utxoBlank.rootHistory.setIfInBounds 0 (zeroByte 2) }

theorem run_init_utxoStart : (init 2).run utxoBlank = .ok () utxoStart := rfl

theorem AppendCall.canonical_of_all {calls : List AppendCall}
    (h : (calls.all fun call => call.leaves.all isCanonicalBn254ScalarBe) = true) :
    ∀ call ∈ calls, ∀ leaf ∈ call.leaves, isCanonicalBn254ScalarBe leaf = true := fun call hcall =>
  List.all_eq_true.mp (List.all_eq_true.mp h call hcall)

def threeLeaves : List AppendCall := [⟨[1], 5⟩, ⟨[], 5⟩, ⟨[2, 3], 7⟩]

/-- Three leaves in three calls, one of them empty. The nodes above them are 112 and 130. -/
theorem utxo_tree_refinement_threeLeaves :
    ∃ tree, (appendBatches Hashv.digits threeLeaves).run utxoStart = .ok () tree ∧ tree.nextIndex = 3 ∧
      tree.root = 1350 := by
  have hordered : AppendCall.Ordered threeLeaves := ⟨AppendCall.canonical_of_all (by decide +kernel), by decide⟩
  have hroot : Merkle.root Hashv.digits.node 0 2 (AppendCall.allLeaves threeLeaves) = 1350 := by decide +kernel
  obtain ⟨tree, hrun, hnext, hroot'⟩ :=
    (utxo_tree_refinement total_digits derivesZeroBytes_digits run_init_utxoStart).1 threeLeaves hordered
      (by decide)
  exact ⟨tree, hrun, hnext, hroot'.trans hroot⟩

/-! ### The root history -/

/-- After any calls with field elements from `init`: the accepted roots are the final ones of the last slots with an
update, and the empty root until they fill the ring. A batch writes over the entry of an earlier one of its slot and
leaves the others, so the root it replaces is accepted only where a final root has the same value. -/
theorem utxo_root_history {height : Nat} {blank tree : UtxoTreeLayout HEIGHT} {run : UtxoRun HEIGHT}
    (hHashv : hashv.Total) (hZero : hashv.DerivesZeroBytes) (hinit : (init height).run blank = .ok () tree)
    (calls : List AppendCall)
    (hleaves : ∀ call ∈ calls, ∀ leaf ∈ call.leaves, isCanonicalBn254ScalarBe leaf = true)
    (hrun : run = UtxoRun.calls hashv ⟨tree, []⟩ calls) (hempty : zeroByte HEIGHT ≠ 0)
    (hroots : ∀ update ∈ run.updates, update.root ≠ 0) :
    (∀ leaves slot, leaves ≠ [] → run.tree.nextIndex ≠ 0 → slot < run.tree.lastUpdateSlot →
      (appendBatch hashv leaves slot).run run.tree = .error .invalidUpdateSlot run.tree) ∧
    (finalUpdates run.updates).map (·.slot) = (run.updates.map (·.slot)).dedup ∧
    (∀ root, (∃ index, run.tree.rootByIndex index = .ok root) ↔
      (∃ update ∈ (finalUpdates run.updates).drop
          ((finalUpdates run.updates).length - rootHistoryCapacity), update.root = root) ∨
        ((finalUpdates run.updates).length < rootHistoryCapacity ∧ root = zeroByte HEIGHT)) ∧
    (∀ earlier update later, run.updates = earlier ++ update :: later →
      (∃ next ∈ later, next.slot = update.slot) →
      (∀ final ∈ finalUpdates run.updates, final.root ≠ update.root) →
      update.root ≠ zeroByte HEIGHT → ∀ index, run.tree.rootByIndex index ≠ .ok update.root) ∧
    (∀ leaves tree', leaves ≠ [] → run.tree.nextIndex ≠ 0 →
      (appendBatch hashv leaves run.tree.lastUpdateSlot).run run.tree = .ok () tree' →
      tree'.rootHistory = run.tree.rootHistory.setIfInBounds run.tree.currentRootIndex.toNat tree'.root ∧
        tree'.currentRootIndex = run.tree.currentRootIndex ∧
        tree'.rootHistoryLen = run.tree.rootHistoryLen) ∧
    run.tree.rootByIndex run.tree.currentRootIndex = .ok run.tree.root ∧
    run.tree.checkLayout = .ok () := by
  have h : History run.tree run.updates := by
    have hintact : Intact hashv tree := .inl ⟨[], appended_init hinit, Nat.zero_le _⟩
    exact hrun ▸ (History.initial hinit).calls hHashv hZero (UtxoTreeLayout.run_init hinit).1 hintact hleaves
  have haccepted (root : Bytes32) : (∃ index, run.tree.rootByIndex index = .ok root) ↔ _ :=
    (h.exists_rootByIndex_iff.trans (and_congr_right' History.mem_drop_historyLog)).trans <| and_iff_right_of_imp <| by
      rintro (⟨update, hfinal, rfl⟩ | ⟨-, rfl⟩)
      · exact hroots update (mem_of_mem_finalUpdates (List.mem_of_mem_drop hfinal))
      · exact hempty
  refine ⟨?_, slots_finalUpdates run.updates, haccepted, ?_, ?_, ?_, h.checkLayout⟩
  · intro leaves slot hleaves hnonempty hslot
    exact run_appendBatch_stale hleaves hnonempty hslot
  · intro earlier update later _ _ hfinals hne index hindex
    obtain ⟨final, hmem, heq⟩ | ⟨-, heq⟩ := (haccepted update.root).mp ⟨index, hindex⟩
    · exact hfinals final (List.mem_of_mem_drop hmem) heq
    · exact hne heq
  · intro leaves tree' hleaves hnonempty hok
    rw [run_appendBatch (.inr le_rfl), decide_eq_false hnonempty] at hok
    obtain ⟨subtrees, root, -, hok'⟩ | ⟨_, _, -, herr⟩ | ⟨_, herr⟩ :=
      appendLeaves_cases hashv run.tree.lastUpdateSlot false hleaves run.tree
    · rw [hok] at hok'
      injection hok' with _ htree'
      rw [htree', afterBatch_same rfl]
      exact ⟨rfl, rfl, rfl⟩
    · rw [hok] at herr
      exact absurd herr (by simp)
    · rw [hok] at herr
      exact absurd herr (by simp)
  · apply h.rootByIndex_currentRootIndex
    obtain hroot | ⟨update, hmem, hroot⟩ := h.root_mem
    · rwa [hroot]
    · rw [← hroot]
      exact hroots update hmem

/-- Two batches in one slot, a stale one, one in a later slot that fills the tree, and one that finds it full. -/
def historyCalls : List AppendCall := [⟨[1, 2], 5⟩, ⟨[3], 5⟩, ⟨[9], 3⟩, ⟨[4], 8⟩, ⟨[9], 9⟩]

def historyRun : UtxoRun 2 := UtxoRun.calls Hashv.digits ⟨utxoStart, []⟩ historyCalls

/-- The root of the first batch is gone, and the final roots of both slots are there. -/
theorem utxo_root_history_two : (finalUpdates historyRun.updates).map (·.slot) = [5, 8] ∧
      (∀ root, (∃ index, historyRun.tree.rootByIndex index = .ok root) ↔
        root = 1350 ∨ root = 1354 ∨ root = zeroByte 2) ∧
      historyRun.updates.head?.map (·.root) = some (Hashv.digits.node 112 (zeroByte 1)) ∧
      ∀ index, historyRun.tree.rootByIndex index ≠ .ok (Hashv.digits.node 112 (zeroByte 1)) := by
  have hroots : historyRun.updates.all (fun update => update.root ≠ 0) = true := by decide +kernel
  obtain ⟨-, -, haccepted, -⟩ :=
    utxo_root_history total_digits derivesZeroBytes_digits run_init_utxoStart historyCalls
      (AppendCall.canonical_of_all (by decide +kernel)) (show historyRun = _ from rfl) (by decide +kernel)
      fun update hmem => of_decide_eq_true (List.all_eq_true.mp hroots update hmem)
  have hfinals : finalUpdates historyRun.updates = [⟨5, 1350⟩, ⟨8, 1354⟩] := by decide +kernel
  have hall : ∀ root, (∃ index, historyRun.tree.rootByIndex index = .ok root) ↔
      root = 1350 ∨ root = 1354 ∨ root = zeroByte 2 := by
    intro root
    rw [haccepted, hfinals]
    simp [rootHistoryCapacity, eq_comm, or_assoc]
  refine ⟨by rw [hfinals]; rfl, hall, by decide +kernel, ?_⟩
  intro index hindex
  have hlost : ¬(Hashv.digits.node 112 (zeroByte 1) = 1350 ∨ Hashv.digits.node 112 (zeroByte 1) = 1354 ∨
      Hashv.digits.node 112 (zeroByte 1) = zeroByte 2) := by decide +kernel
  exact hlost ((hall _).mp ⟨index, hindex⟩)

/-- A first batch that fails behind its first leaf, and one of the same leaf in the slot that `init` stores. -/
def lostCalls : List AppendCall := [⟨[1, bn254ScalarModulusBe], 0⟩, ⟨[1], 0⟩]

def lostRun : UtxoRun 2 := UtxoRun.calls Hashv.digits ⟨utxoStart, []⟩ lostCalls

/-- The failed batch has counted its first leaf, so the second batch is no first update and writes over the empty
root. -/
theorem failed_first_batch_loses_the_empty_root : Hashv.digits.Total ∧ Hashv.digits.DerivesZeroBytes ∧
    (init 2).run utxoBlank = .ok () utxoStart ∧
    (∃ tree, (appendBatch Hashv.digits [1, bn254ScalarModulusBe] 0).run utxoStart = .error .hash tree ∧
      tree.nextIndex = 1) ∧
    lostRun.updates.map (·.slot) = [0] ∧ (∀ update ∈ lostRun.updates, update.root ≠ 0) ∧ zeroByte 2 ≠ 0 ∧
    ∀ index, lostRun.tree.rootByIndex index ≠ .ok (zeroByte 2) := by
  refine ⟨total_digits, derivesZeroBytes_digits, run_init_utxoStart, ?_, by decide +kernel, by decide +kernel,
    by decide +kernel, ?_⟩
  · have hfails : (match (appendBatch Hashv.digits [1, bn254ScalarModulusBe] 0).run utxoStart with
        | .error .hash tree => decide (tree.nextIndex = 1)
        | _ => false) = true := by decide +kernel
    split at hfails
    case h_1 tree htree => exact ⟨tree, htree, of_decide_eq_true hfails⟩
    case h_2 => cases hfails
  · intro index hindex
    -- one entry is written, and it holds another root
    have hlen : lostRun.tree.rootHistoryLen.toNat = 1 := by decide +kernel
    by_cases hfirst : index = 0
    · subst hfirst
      revert hindex
      decide +kernel
    · have hpos : 1 ≤ index.toNat := Nat.pos_of_ne_zero fun hzero => hfirst (UInt16.toNat_inj.mp hzero)
      rw [rootByIndex, hlen] at hindex
      split at hindex
      case isTrue => cases hindex
      case isFalse =>
        rw [if_pos ⟨by decide, hpos⟩] at hindex
        cases hindex

end Zolana
