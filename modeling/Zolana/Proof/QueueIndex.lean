import Zolana.Event.Reconstruct
import Zolana.Lib.Rank
import Zolana.Proof.Accounting

/-!
# Queue indexes

A queue index is computed three times: by the tree when it queues a nullifier, by the program when it
writes the nullifier's PDA, and by an indexer that only sees the event and the instruction. All three are
the first index of the tree and the rank of the input among the inputs of its tree.
-/

namespace Zolana

open Fallible

variable {HEIGHT K : Nat} {env : PoolEnv} {ledger ledger' : Ledger HEIGHT K}

/-! ### The index the tree returns -/

section Insert

open NullifierTreeLayout

variable {hashv : Hashv} {tree tree' : NullifierTreeLayout K}

theorem keeps_withCurrentBatch {α : Type} (act : BatchM K α) :
    Keeps NullifierTreeLayout.queueNextIndex (withCurrentBatch act : TreeM K α) :=
  .zoom fun _ _ => rfl

theorem keeps_incrementCurrentlyProcessingBatchIndexIfFull : Keeps NullifierTreeLayout.queueNextIndex
      (incrementCurrentlyProcessingBatchIndexIfFull : TreeM K Unit) := by
  refine .bind (keeps_withCurrentBatch _) ?_
  intro state
  exact .ite (.update fun _ => rfl) (.pure _)

theorem run_insertNullifierIntoQueue_index {nullifier : Bytes32} {index : Nat}
    (h : (insertNullifierIntoQueue hashv nullifier).run tree = .ok index tree') :
    index = tree.queueNextIndex ∧ tree'.queueNextIndex = tree.queueNextIndex + 1 := by
  unfold insertNullifierIntoQueue at h
  obtain ⟨-, h⟩ := of_run_check h
  obtain ⟨queueIndex, _, hindex, h⟩ := of_run_bind h
  replace hindex := of_run_get_bind hindex
  obtain ⟨-, hindex⟩ := of_run_check hindex
  cases hindex
  replace h := of_run_get_bind h
  obtain ⟨_, filled, hfill, h⟩ := of_run_bind h
  obtain ⟨_, advanced, hadvance, h⟩ := of_run_bind h
  obtain ⟨_, counted, hcount, hpure⟩ := of_run_bind h
  cases hpure
  replace hcount := of_run_get_bind hcount
  obtain ⟨next, hsome, hset⟩ := of_run_okOr_bind hcount
  obtain ⟨_, rfl⟩ := checkedAdd_eq_some_iff.mp hsome
  cases hset
  have hkept : advanced.queueNextIndex = tree.queueNextIndex :=
    (keeps_incrementCurrentlyProcessingBatchIndexIfFull hadvance).trans
      (keeps_withCurrentBatch _ hfill)
  exact ⟨rfl, congrArg (· + 1) hkept⟩

def returnedIndexes (hashv : Hashv) (nullifiers : List Bytes32) : TreeM K (List Nat) :=
  nullifiers.mapM (insertNullifierIntoQueue hashv)

theorem returnedIndexes_cons (hashv : Hashv) (nullifier : Bytes32) (nullifiers : List Bytes32) :
    (returnedIndexes hashv (nullifier :: nullifiers) : TreeM K (List Nat)) = (do
      let index ← insertNullifierIntoQueue hashv nullifier
      let rest ← returnedIndexes hashv nullifiers
      pure (index :: rest)) :=
  List.mapM_cons

theorem insertNullifiers_eq_returnedIndexes (hashv : Hashv) (nullifiers : List Bytes32) :
    (insertNullifiers hashv nullifiers : TreeM K Unit)
      = (do let _ ← returnedIndexes hashv nullifiers; pure ()) := by
  induction nullifiers with
  | nil => rfl
  | cons nullifier nullifiers ih =>
      rw [insertNullifiers, ih, returnedIndexes_cons]
      simp only [bind_assoc, pure_bind]

theorem run_returnedIndexes_eq {nullifiers : List Bytes32} {indexes : List Nat}
    (h : (returnedIndexes hashv nullifiers).run tree = .ok indexes tree') :
    indexes = List.range' tree.queueNextIndex nullifiers.length ∧
      tree'.queueNextIndex = tree.queueNextIndex + nullifiers.length := by
  induction nullifiers generalizing tree indexes with
  | nil =>
      cases h
      exact ⟨rfl, rfl⟩
  | cons nullifier nullifiers ih =>
      rw [returnedIndexes_cons] at h
      obtain ⟨index, inserted, hinsert, h⟩ := of_run_bind h
      obtain ⟨rest, _, hrest, hpure⟩ := of_run_bind h
      cases hpure
      obtain ⟨rfl, hnext⟩ := run_insertNullifierIntoQueue_index hinsert
      obtain ⟨rfl, hlast⟩ := ih hrest
      rw [hnext] at hlast ⊢
      rw [List.length_cons, List.range'_succ]
      exact ⟨rfl, by omega⟩

theorem run_insertNullifiers_returned {nullifiers : List Bytes32}
    (h : (insertNullifiers hashv nullifiers).run tree = .ok () tree') :
    (returnedIndexes hashv nullifiers).run tree
        = .ok (List.range' tree.queueNextIndex nullifiers.length) tree' ∧
      tree'.queueNextIndex = tree.queueNextIndex + nullifiers.length := by
  rw [insertNullifiers_eq_returnedIndexes] at h
  obtain ⟨indexes, _, hreturned, hpure⟩ := of_run_bind h
  cases hpure
  obtain ⟨rfl, hnext⟩ := run_returnedIndexes_eq hreturned
  exact ⟨hreturned, hnext⟩

end Insert

/-! ### The index in the PDA -/

section Pdas

variable {runtime : Runtime} {inputTree : InputTreeResult} {nullifierPdas : List (Address × Bytes32)} {k : Nat}
  {nullifierPda : Address} {nullifier : Bytes32}

theorem run_createPdas_addresses {treeMinimum position : Nat}
    (h : (createPdas runtime treeMinimum inputTree position nullifierPdas).run ledger = .ok () ledger')
    (hk : nullifierPdas[k]? = some (nullifierPda, nullifier)) :
    runtime.nullifierPdaAddress inputTree.tree nullifier = some nullifierPda ∧
      inputTree.firstInputQueueSeq + (position + k) < 2 ^ 64 := by
  induction nullifierPdas generalizing position ledger k with
  | nil => cases hk
  | cons entry nullifierPdas ih =>
      obtain ⟨queueIndex, hadd, h⟩ := of_run_okOr_bind h
      obtain ⟨hlt, rfl⟩ := checkedAdd_eq_some_iff.mp hadd
      obtain ⟨_, opened, hinit, h⟩ := of_run_bind h
      obtain ⟨_, funded, _, hrest⟩ := of_run_bind h
      cases k with
      | zero =>
          obtain rfl := Option.some.inj hk
          exact ⟨(run_initNullifierPda_ok hinit).1, hlt⟩
      | succ k =>
          rw [show position + (k + 1) = position + 1 + k by omega]
          exact ih hrest hk

theorem run_createNullifierPdas_records {payer : Address}
    (h : (createNullifierPdas runtime payer nullifierPdas inputTree).run ledger = .ok () ledger')
    (hk : nullifierPdas[k]? = some (nullifierPda, nullifier)) :
    runtime.nullifierPdaAddress inputTree.tree nullifier = some nullifierPda ∧
      inputTree.firstInputQueueSeq + k < 2 ^ 64 ∧
      ledger'.nullifierPda nullifierPda = some ⟨inputTree.firstInputQueueSeq + k, inputTree.treeId⟩ := by
  obtain ⟨_, hcreates⟩ := run_createNullifierPdas_ok h
  obtain ⟨address, haddress, _, hrecord⟩ := hcreates.created k nullifier (by simp [hk])
  obtain ⟨treeMinimum, _, h⟩ := of_run_okOr_bind h
  obtain ⟨_, collected, _, hcreate⟩ := of_run_bind h
  obtain ⟨hderived, hlt⟩ := run_createPdas_addresses hcreate hk
  rw [Nat.zero_add] at hlt
  obtain rfl := Option.some.inj (hderived.symm.trans haddress)
  exact ⟨hderived, hlt, hrecord⟩

end Pdas

/-! ### One input tree -/

/-- What the queueing of one tree's inputs leaves behind: the indexes the tree returned, counted from the
first free one, and the same indexes in the PDAs. -/
structure Indexed (env : PoolEnv) (address : Address) (nullifierPdas : List (Address × Bytes32))
    (tree : TreeAccountLayout HEIGHT K) (pda : Address → Option NullifierPda) : Prop where
  returned : ∃ nullifier,
    (returnedIndexes env.tree.hashv (nullifierPdas.map (·.2))).run tree.nullifier
      = .ok (List.range' tree.nullifier.queueNextIndex nullifierPdas.length) nullifier
  records : ∀ k nullifierPda nullifier, nullifierPdas[k]? = some (nullifierPda, nullifier) →
    env.runtime.nullifierPdaAddress address nullifier = some nullifierPda ∧
      tree.nullifier.queueNextIndex + k < 2 ^ 64 ∧
      pda nullifierPda = some ⟨tree.nullifier.queueNextIndex + k, tree.treeId⟩

theorem Indexed.mono {address : Address} {nullifierPdas : List (Address × Bytes32)}
    {tree : TreeAccountLayout HEIGHT K} {pda pda' : Address → Option NullifierPda}
    (h : Indexed env address nullifierPdas tree pda)
    (hkept : ∀ a record, pda a = some record → pda' a = some record) :
    Indexed env address nullifierPdas tree pda' where
  returned := h.returned
  records k nullifierPda nullifier hk := by
    obtain ⟨haddress, hlt, hrecord⟩ := h.records k nullifierPda nullifier hk
    exact ⟨haddress, hlt, hkept nullifierPda _ hrecord⟩

section InputTree

variable {address payer : Address} {resolve : TreeAccountLayout HEIGHT K → Except TreeError TreeSlot}
variable {nullifierPdas : List (Address × Bytes32)} {count : Nat} {queued : QueuedInputs}
variable {mid : Ledger HEIGHT K}

/-- One pass of the loop: the tree is indexed, and the accounts of the other trees and the existing PDAs
are as before. -/
theorem run_queue_indexed
    (hqueue : (withTree treeError address (queueInputs env.tree.hashv address resolve
      (nullifierPdas.map (·.2)) count)).run ledger = .ok queued mid)
    (hcreate : (createNullifierPdas env.runtime payer nullifierPdas queued.result).run mid
      = .ok () ledger') :
    (∃ tree, ledger.tree address = some tree ∧
      (queued.result.tree, queued.result.firstInputQueueSeq) = (address, tree.nullifier.queueNextIndex) ∧
      Indexed env address nullifierPdas tree ledger'.nullifierPda) ∧
    (∀ a, a ≠ address → ledger'.tree a = ledger.tree a) ∧
    ∀ a record, ledger.nullifierPda a = some record → ledger'.nullifierPda a = some record := by
  obtain ⟨_, _, _, hrun, rfl⟩ := run_withTree_ok hqueue
  obtain ⟨tree, nullifier, collected, htree, hinserted, hresult, hmoved, -, hfunds, hafter⟩ :=
    run_queue_funds hqueue hcreate
  obtain ⟨_, hcreates⟩ := run_createNullifierPdas_ok hcreate
  rw [Ledger.spendView_setData_tree htree] at hcreates
  refine ⟨⟨tree, htree, ?_, ?_, ?_⟩, ?_, hcreates.kept⟩
  · rw [hresult]
  · obtain ⟨hreturned, _⟩ := run_insertNullifiers_returned hinserted
    rw [List.length_map] at hreturned
    exact ⟨nullifier, hreturned⟩
  · intro k nullifierPda value hk
    have hrecord := run_createNullifierPdas_records hcreate hk
    rwa [hresult] at hrecord
  · intro a ha
    rw [hafter, if_neg ha]

end InputTree

/-! ### The trees of a transact -/

section Transact

variable {inputs : List InputUtxo} {nullifierPdas : List Address}

theorem run_applyTrees_indexed {payer : Address} {treeIndex : Nat}
    {trees : List (Address × TreeContext × Nat)} {queued : List QueuedInputs}
    (hpdas : nullifierPdas.length = inputs.length) (hnodup : (trees.map (·.1)).Nodup)
    (h : (applyTrees env payer inputs nullifierPdas treeIndex trees).run ledger
      = .ok queued ledger') :
    (∀ (j : Nat) address context, trees[j]? = some (address, context) →
      ∃ tree, ledger.tree address = some tree ∧
        (queued.map fun entry => (entry.result.tree, entry.result.firstInputQueueSeq))[j]?
          = some (address, tree.nullifier.queueNextIndex) ∧
        Indexed env address (treeNullifierPdas nullifierPdas inputs (treeIndex + j)) tree
          ledger'.nullifierPda) ∧
    ∀ a record, ledger.nullifierPda a = some record → ledger'.nullifierPda a = some record := by
  induction trees generalizing treeIndex queued ledger with
  | nil =>
      cases h
      refine ⟨?_, fun a record hrecord => hrecord⟩
      intro j address context hj
      cases hj
  | cons entry trees ih =>
      obtain ⟨address, context, count⟩ := entry
      obtain ⟨first, queuedLedger, hqueue, h⟩ := of_run_bind h
      obtain ⟨_, mid, hcreate, h⟩ := of_run_bind h
      obtain ⟨rest, _, hrest, hpure⟩ := of_run_bind h
      cases hpure
      rw [← map_snd_treeNullifierPdas hpdas treeIndex] at hqueue
      obtain ⟨⟨tree, htree, hfirst, hindexed⟩, hothers, hkept⟩ := run_queue_indexed hqueue hcreate
      obtain ⟨hnotMem, hnodupRest⟩ := List.nodup_cons.mp hnodup
      obtain ⟨hindexedRest, hkeptRest⟩ := ih hnodupRest hrest
      refine ⟨?_, fun a record hrecord => hkeptRest a record (hkept a record hrecord)⟩
      intro j other context' hj
      cases j with
      | zero =>
          obtain ⟨rfl, _⟩ := Prod.mk.inj (Option.some.inj hj)
          exact ⟨tree, htree, congrArg some hfirst, hindexed.mono hkeptRest⟩
      | succ j =>
          obtain ⟨tree', htree', hfirst', hindexed'⟩ := hindexedRest j other context' hj
          -- The declared trees are distinct, so this one is still as it was before the instruction.
          have hne : other ≠ address := by
            rintro rfl
            exact hnotMem (List.mem_map.mpr ⟨_, List.mem_of_getElem? hj, rfl⟩)
          rw [hothers other hne] at htree'
          rw [show treeIndex + 1 + j = treeIndex + (j + 1) by omega] at hindexed'
          exact ⟨tree', htree', hfirst', hindexed'⟩

/-- The inputs of a tree, as the filters of the program pick them out. -/
def ofTreeIndex (treeIndex : Nat) (input : InputUtxo) : Bool := input.treeIndex = treeIndex

theorem length_treeNullifiers_take (treeIndex i : Nat) :
    (treeNullifiers (inputs.take i) treeIndex).length = inputs.rank (ofTreeIndex treeIndex) i := by
  rw [treeNullifiers, List.length_map, List.rank, List.countP_eq_length_filter]
  rfl

variable {input : InputUtxo} {counts : List Nat}

theorem getElem?_treeNullifierPdas (hpdas : nullifierPdas.length = inputs.length) {i : Nat}
    {nullifierPda : Address} (hinput : inputs[i]? = some input) (hpda : nullifierPdas[i]? = some nullifierPda) :
    (treeNullifierPdas nullifierPdas inputs input.treeIndex)[
        inputs.rank (ofTreeIndex input.treeIndex) i]?
      = some (nullifierPda, input.nullifierHash) := by
  have hzip : (nullifierPdas.zip inputs)[i]? = some (nullifierPda, input) :=
    List.getElem?_zip_eq_some.mpr ⟨hpda, hinput⟩
  have hsnd : (nullifierPdas.zip inputs).map Prod.snd = inputs :=
    List.map_snd_zip (Nat.le_of_eq hpdas.symm)
  have hrank : inputs.rank (ofTreeIndex input.treeIndex) i
      = (nullifierPdas.zip inputs).rank (ofTreeIndex input.treeIndex ∘ Prod.snd) i := by
    rw [← List.rank_map, hsnd]
  have hentry := List.getElem?_filter_rank (p := ofTreeIndex input.treeIndex ∘ Prod.snd) hzip
    (decide_eq_true rfl)
  rw [hrank, treeNullifierPdas, List.getElem?_map]
  exact congrArg (Option.map _) hentry

theorem countInputs_treeIndex_lt {counts' : List Nat} (h : countInputs counts inputs = .ok counts')
    (hmem : input ∈ inputs) : input.treeIndex < counts.length := by
  induction inputs generalizing counts with
  | nil => cases hmem
  | cons head inputs ih =>
      rw [countInputs] at h
      split at h
      case isFalse => cases h
      case isTrue hlt =>
        rcases List.mem_cons.mp hmem with rfl | htail
        · exact hlt
        · have hrest := ih h htail
          rwa [List.length_modify] at hrest

theorem validateInputTreeContexts_ne_nil {treeContexts : List TreeContext}
    (h : validateInputTreeContexts inputs treeContexts = .ok counts) : treeContexts ≠ [] := by
  intro hnil
  rw [validateInputTreeContexts, if_pos (.inl hnil)] at h
  cases h

theorem validateInputTreeContexts_treeIndex_lt {treeContexts : List TreeContext}
    (h : validateInputTreeContexts inputs treeContexts = .ok counts) (hmem : input ∈ inputs) :
    input.treeIndex < treeContexts.length := by
  have hlt := countInputs_treeIndex_lt (countInputs_of_validateInputTreeContexts h).1 hmem
  rwa [List.length_replicate] at hlt

theorem packTreeIndexes_length_le {index : Nat} {flags flags' : Bytes32} {treeIndexes : List Nat}
    (h : packTreeIndexes index flags treeIndexes = .ok flags') (hindex : index ≤ maxTransactInputs) :
    index + treeIndexes.length ≤ maxTransactInputs := by
  induction treeIndexes generalizing index flags with
  | nil => exact hindex
  | cons treeIndex treeIndexes ih =>
      obtain ⟨hlt, _, hrest⟩ := packTreeIndexes_cons h
      have htail := ih hrest hlt
      rw [List.length_cons]
      omega

end Transact

/-! ### The index an indexer rebuilds -/

namespace Event

variable {inputTrees : List (Address × Nat)} {inputs : List InputUtxo}

/-- The queue index of an input: the inputs counted before, and those that come before it in the list. -/
def inputSeq (spent : Nat → Nat) (inputs : List InputUtxo) (i : Nat) (input : InputUtxo) : Nat :=
  spent input.treeIndex + inputs.rank (ofTreeIndex input.treeIndex) i

theorem inputSeq_cons_succ (spent : Nat → Nat) (head : InputUtxo) (inputs : List InputUtxo) (i : Nat)
    (input : InputUtxo) : inputSeq spent (head :: inputs) (i + 1) input
      = inputSeq (Function.update spent head.treeIndex (spent head.treeIndex + 1)) inputs i input := by
  rw [inputSeq, inputSeq, List.rank_cons_succ]
  by_cases hsame : head.treeIndex = input.treeIndex
  · have hkind : ofTreeIndex input.treeIndex head = true := decide_eq_true hsame
    rw [if_pos hkind, hsame, Function.update_self]
    omega
  · have hkind : ofTreeIndex input.treeIndex head ≠ true := fun h => hsame (of_decide_eq_true h)
    rw [if_neg hkind, Function.update_of_ne (Ne.symm hsame)]
    omega

/-- The counters are per tree, so the inputs may come in any order. -/
theorem countInputQueueSeqs_eq_ok {spentPerTree : List Nat} {spent : Nat → Nat}
    (hspent : ∀ j < inputTrees.length, spentPerTree[j]? = some (spent j))
    (hinputs : ∀ (i : Nat) input, inputs[i]? = some input → ∃ entry, inputTrees[input.treeIndex]? = some entry ∧
      entry.2 + inputSeq spent inputs i input < 2 ^ 64 ∧ inputSeq spent inputs i input + 1 < 2 ^ 64) :
    ∃ rebuilt : List Input, countInputQueueSeqs inputTrees spentPerTree inputs = .ok rebuilt ∧
      rebuilt.length = inputs.length ∧
      ∀ (i : Nat) input entry, inputs[i]? = some input → inputTrees[input.treeIndex]? = some entry →
        rebuilt[i]? = some ⟨entry.1, entry.2 + inputSeq spent inputs i input, input.nullifierHash⟩ := by
  induction inputs generalizing spentPerTree spent with
  | nil =>
      refine ⟨[], rfl, rfl, ?_⟩
      intro i input entry hi
      cases hi
  | cons head inputs ih =>
      obtain ⟨entry, hentry, hseq, hnext⟩ := hinputs 0 head rfl
      have hlt : head.treeIndex < inputTrees.length := (List.getElem?_eq_some_iff.mp hentry).1
      have hhead : inputSeq spent (head :: inputs) 0 head = spent head.treeIndex := by
        rw [inputSeq, List.rank_zero, Nat.add_zero]
      rw [hhead] at hseq hnext
      have hset : ∀ j < inputTrees.length, (spentPerTree.set head.treeIndex (spent head.treeIndex + 1))[j]?
            = some (Function.update spent head.treeIndex (spent head.treeIndex + 1) j) := by
        intro j hj
        by_cases hsame : head.treeIndex = j
        · subst hsame
          have hbound := (List.getElem?_eq_some_iff.mp (hspent head.treeIndex hlt)).1
          rw [Function.update_self, List.getElem?_set_self hbound]
        · rw [Function.update_of_ne (Ne.symm hsame), List.getElem?_set_ne hsame, hspent j hj]
      obtain ⟨rest, hrest, hlength, hcounted⟩ := ih hset (by
        intro i input hi
        rw [← inputSeq_cons_succ spent head]
        exact hinputs (i + 1) input hi)
      refine ⟨⟨entry.1, entry.2 + spent head.treeIndex, head.nullifierHash⟩ :: rest, ?_, ?_, ?_⟩
      · simp only [countInputQueueSeqs, hentry, hspent head.treeIndex hlt, checkedAdd_of_lt hseq,
          checkedAdd_of_lt hnext, hrest]
      · rw [List.length_cons, List.length_cons, hlength]
      · intro i input other hi hother
        cases i with
        | zero =>
            obtain rfl := Option.some.inj hi
            obtain rfl := Option.some.inj (hentry.symm.trans hother)
            rw [hhead]
            rfl
        | succ i =>
            rw [inputSeq_cons_succ]
            exact hcounted i input other hi hother

theorem inputsFromNullifiers_eq_ok {tree : Address × Nat} {position : Nat} {nullifiers : List Bytes32}
    (h : ∀ k < nullifiers.length, tree.2 + (position + k) < 2 ^ 64) :
    ∃ rebuilt : List Input, inputsFromNullifiers tree position nullifiers = .ok rebuilt ∧
      rebuilt.length = nullifiers.length ∧
      ∀ (k : Nat) nullifier, nullifiers[k]? = some nullifier →
        rebuilt[k]? = some ⟨tree.1, tree.2 + (position + k), nullifier⟩ := by
  induction nullifiers generalizing position with
  | nil =>
      refine ⟨[], rfl, rfl, ?_⟩
      intro k nullifier hk
      cases hk
  | cons head nullifiers ih =>
      have hhead : tree.2 + position < 2 ^ 64 := h 0 (Nat.zero_lt_succ _)
      have htail : ∀ k < nullifiers.length, tree.2 + (position + 1 + k) < 2 ^ 64 := by
        intro k hk
        rw [show position + 1 + k = position + (k + 1) by omega]
        exact h (k + 1) (Nat.succ_lt_succ hk)
      obtain ⟨rest, hrest, hlength, hcounted⟩ := ih htail
      refine ⟨⟨tree.1, tree.2 + position, head⟩ :: rest, ?_, ?_, ?_⟩
      · simp only [inputsFromNullifiers, checkedAdd_of_lt hhead, hrest]
      · rw [List.length_cons, List.length_cons, hlength]
      · intro k nullifier hk
        cases k with
        | zero =>
            obtain rfl := Option.some.inj hk
            rfl
        | succ k =>
            rw [show position + (k + 1) = position + 1 + k by omega]
            exact hcounted k nullifier hk

end Event

end Zolana
