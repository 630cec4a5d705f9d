import Zolana.Proof.QueueIndex
import Zolana.Properties.DoubleSpend

/-!
# Queue indexes agree

For every input of an accepted spend, the index its tree returned, the index its PDA holds and the index
an indexer rebuilds from the event and the instruction are one number, and they are about one tree.
-/

namespace Zolana

open Fallible

variable {HEIGHT K : Nat} {env : PoolEnv} {ledger ledger' : Ledger HEIGHT K}

/-- An accepted spend, with the event it emits. -/
inductive Emits (env : PoolEnv) (ledger : Ledger HEIGHT K) : Instruction → SpendEvent → Ledger HEIGHT K → Prop
  | transact {accounts : TransactAccounts} {ix : TransactIx} {clock : Clock} {event : SpendEvent}
      {proof : SpendProof} {ledger' : Ledger HEIGHT K}
      (h : (processTransact env accounts ix clock).run ledger = .ok (event, proof) ledger') :
      Emits env ledger (.transact accounts ix clock) event ledger'
  | merge {accounts : MergeAccounts} {ix : MergeIx} {clock : Clock} {event : SpendEvent}
      {proof : SpendProof} {ledger' : Ledger HEIGHT K}
      (h : (processMerge env accounts ix clock).run ledger = .ok (event, proof) ledger') :
      Emits env ledger (.merge accounts ix clock) event ledger'

def Instruction.inputCount : Instruction → Nat
  | .transact _ ix _ => ix.inputs.length
  | .merge _ ix _ => ix.nullifiers.length
  | .batchUpdateNullifierTree _ _ _ | .closeNullifierPdas _ _ _ => 0

def Instruction.inputPdas : Instruction → List Address
  | .transact accounts _ _ => accounts.nullifierPdas
  | .merge accounts _ _ => accounts.nullifierPdas
  | .batchUpdateNullifierTree _ _ _ | .closeNullifierPdas _ _ _ => []

/-- What `insert_nullifier_into_queue` returned for a spend. A tree queues its nullifiers in input order
and is loaded once, so it is the tree of the ledger before the instruction. -/
def returnedIndex (hashv : Hashv) (ledger : Ledger HEIGHT K) (spends : List (Address × Bytes32))
    (i : Nat) : Option Nat := do
  let (address, _) ← spends[i]?
  let tree ← ledger.tree address
  match (returnedIndexes hashv (ofTree address spends)).run tree.nullifier with
  | .ok indexes _ => indexes[(ofTree address (spends.take i)).length]?
  | .error _ _ => none

/-- All that is known of one input after the instruction. -/
structure IndexAgrees (env : PoolEnv) (ledger ledger' : Ledger HEIGHT K) (instruction : Instruction)
    (rebuilt : List Event.Input) (i : Nat) (tree : Address) (nullifier : Bytes32) (queueIndex : Nat) :
    Prop where
  spend : instruction.spends[i]? = some (tree, nullifier)
  returned : returnedIndex env.tree.hashv ledger instruction.spends i = some queueIndex
  recorded : ∃ nullifierPda treeId, instruction.inputPdas[i]? = some nullifierPda ∧
    env.runtime.nullifierPdaAddress tree nullifier = some nullifierPda ∧
    (ledger.tree tree).map (·.treeId) = some treeId ∧
    ledger'.nullifierPda nullifierPda = some ⟨queueIndex, treeId⟩
  rebuilt : rebuilt[i]? = some ⟨tree, queueIndex, nullifier⟩

theorem Indexed.returnedIndex_eq {address : Address} {nullifierPdas : List (Address × Bytes32)}
    {tree : TreeAccountLayout HEIGHT K} {pda : Address → Option NullifierPda}
    (h : Indexed env address nullifierPdas tree pda) (htree : ledger.tree address = some tree)
    {spends : List (Address × Bytes32)} (hspends : ofTree address spends = nullifierPdas.map (·.2))
    {i : Nat} {nullifier : Bytes32} (hi : spends[i]? = some (address, nullifier))
    (hrank : (ofTree address (spends.take i)).length < nullifierPdas.length) :
    returnedIndex env.tree.hashv ledger spends i
      = some (tree.nullifier.queueNextIndex + (ofTree address (spends.take i)).length) := by
  obtain ⟨after, hreturned⟩ := h.returned
  simp only [returnedIndex, hi, htree, hspends, hreturned, Option.bind_eq_bind, Option.bind_some]
  rw [List.getElem?_range' hrank, Nat.one_mul]

/-! ### Transact -/

section Transact

variable {accounts : TransactAccounts} {ix : TransactIx} (clock : Clock)

section

variable (hrange : ∀ input ∈ ix.inputs, input.treeIndex < accounts.inputTrees.length)

include hrange

theorem spends_transact_eq_map : Instruction.spends (.transact accounts ix clock)
      = ix.inputs.map fun input => (accounts.inputTrees.getD input.treeIndex 0, input.nullifierHash) := by
  rw [← List.filterMap_eq_map]
  refine List.filterMap_congr ?_
  intro input hmem
  rw [List.getElem?_eq_getElem (hrange input hmem)]
  simp [List.getD, hrange input hmem]

theorem getElem?_spends_transact {i : Nat} {input : InputUtxo} {address : Address}
    (hinput : ix.inputs[i]? = some input) (htree : accounts.inputTrees[input.treeIndex]? = some address) :
    (Instruction.spends (.transact accounts ix clock))[i]? = some (address, input.nullifierHash) := by
  rw [spends_transact_eq_map clock hrange, List.getElem?_map, hinput]
  simp [List.getD, htree]

theorem take_spends_transact (i : Nat) : (Instruction.spends (.transact accounts ix clock)).take i
      = Instruction.spends (.transact accounts { ix with inputs := ix.inputs.take i } clock) := by
  rw [spends_transact_eq_map clock hrange, spends_transact_eq_map clock fun input hmem =>
    hrange input (List.mem_of_mem_take hmem), List.map_take]

theorem length_ofTree_take_spends (hnodup : accounts.inputTrees.Nodup) {treeIndex : Nat}
    {address : Address} (htree : accounts.inputTrees[treeIndex]? = some address) (i : Nat) :
    (ofTree address ((Instruction.spends (.transact accounts ix clock)).take i)).length
      = ix.inputs.rank (ofTreeIndex treeIndex) i := by
  have hmem := List.mem_of_getElem? htree
  have hindex := (getElem?_eq_some_iff_of_nodup hnodup hmem treeIndex).mp htree
  rw [take_spends_transact clock hrange, ofTree_spends hnodup, if_pos hmem, ← hindex]
  exact length_treeNullifiers_take treeIndex i

end

variable {clock : Clock}

/-- One input of an accepted transact, with the tree it is declared for and the tree's part of the event
and of the PDAs. -/
structure InputIndexed (env : PoolEnv) (accounts : TransactAccounts) (ix : TransactIx)
    (event : SpendEvent) (ledger ledger' : Ledger HEIGHT K) (i : Nat) (input : InputUtxo)
    (address : Address) (tree : TreeAccountLayout HEIGHT K) : Prop where
  declared : accounts.inputTrees[input.treeIndex]? = some address
  loaded : ledger.tree address = some tree
  emitted : event.inputTrees[input.treeIndex]? = some (address, tree.nullifier.queueNextIndex)
  entry : ∃ nullifierPda, accounts.nullifierPdas[i]? = some nullifierPda ∧
    (treeNullifierPdas accounts.nullifierPdas ix.inputs input.treeIndex)[
        ix.inputs.rank (ofTreeIndex input.treeIndex) i]? = some (nullifierPda, input.nullifierHash)
  indexed : Indexed env address
    (treeNullifierPdas accounts.nullifierPdas ix.inputs input.treeIndex) tree ledger'.nullifierPda

/-- The parts of an accepted transact that decide its queue indexes. -/
structure TransactIndexed (env : PoolEnv) (accounts : TransactAccounts) (ix : TransactIx)
    (event : SpendEvent) (ledger ledger' : Ledger HEIGHT K) : Prop where
  nodup : accounts.inputTrees.Nodup
  trees : event.inputTrees ≠ []
  range : ∀ input ∈ ix.inputs, input.treeIndex < accounts.inputTrees.length
  count : ix.inputs.length ≤ maxTransactInputs
  pdas : accounts.nullifierPdas.length = ix.inputs.length
  input : ∀ (i : Nat) input, ix.inputs[i]? = some input →
    ∃ address tree, InputIndexed env accounts ix event ledger ledger' i input address tree

theorem run_processTransact_indexed {event : SpendEvent} {proof : SpendProof}
    (h : (processTransact env accounts ix clock).run ledger = .ok (event, proof) ledger') :
    TransactIndexed env accounts ix event ledger ledger' := by
  obtain ⟨counts, queued, flags, applied, write, fee, appended, proofInputs, hcounts, hnodup, hinputs,
    houtput, hfee, _, _, rfl, _⟩ := run_processTransact_ok h
  obtain ⟨trees, hfst, _, hpdas, hlengths, happly, hpack⟩ := run_applyInputTrees_cases hcounts hinputs
  obtain ⟨hlength, _, _⟩ := run_applyInputTrees_ok hcounts hinputs
  obtain ⟨hindexed, _⟩ := run_applyTrees_indexed hpdas (hfst ▸ hnodup) happly
  have hpdaView : ledger'.nullifierPda = applied.nullifierPda :=
    congrArg SpendView.pda
      ((lamportFree_spendView.collectTreeFee _ _ _ hfee).trans (keeps_applyOutputTree _ _ _ _ _ houtput))
  have hrange : ∀ input ∈ ix.inputs, input.treeIndex < accounts.inputTrees.length := by
    intro input hmem
    rw [hlengths]
    exact validateInputTreeContexts_treeIndex_lt hcounts hmem
  refine ⟨hnodup, ?_, hrange, ?_, hpdas, ?_⟩
  · intro hnone
    rw [List.map_eq_nil_iff] at hnone
    rw [hnone, hlengths] at hlength
    exact validateInputTreeContexts_ne_nil hcounts (List.length_eq_zero_iff.mp hlength.symm)
  · have hle := packTreeIndexes_length_le (packInputFlags_eq_ok hpack) (Nat.zero_le _)
    rwa [Nat.zero_add, List.length_map] at hle
  · intro i input hi
    obtain ⟨hilt, _⟩ := List.getElem?_eq_some_iff.mp hi
    have hlt := hrange input (List.mem_of_getElem? hi)
    rw [← hfst, List.length_map] at hlt
    have hentry := List.getElem?_eq_getElem hlt
    obtain ⟨tree, htree, hfirst, htreeIndexed⟩ := hindexed input.treeIndex _ _ hentry
    have hpda := List.getElem?_eq_getElem (hpdas.symm ▸ hilt : i < accounts.nullifierPdas.length)
    rw [Nat.zero_add, ← hpdaView] at htreeIndexed
    refine ⟨_, tree, ?_, htree, hfirst, ⟨_, hpda, getElem?_treeNullifierPdas hpdas hi hpda⟩,
      htreeIndexed⟩
    rw [← hfst, List.getElem?_map, hentry]
    rfl

theorem indexAgrees_transact {event : SpendEvent} {proof : SpendProof}
    (h : (processTransact env accounts ix clock).run ledger = .ok (event, proof) ledger') :
    ∃ rebuilt : List Event.Input,
      Event.reconstructInputs event (.transact accounts ix clock) = .ok rebuilt ∧
      rebuilt.length = ix.inputs.length ∧
      ∀ i < ix.inputs.length, ∃ tree nullifier queueIndex,
        IndexAgrees env ledger ledger' (.transact accounts ix clock) rebuilt i tree nullifier
          queueIndex := by
  have hindexed := run_processTransact_indexed h
  have hzero : ∀ j < event.inputTrees.length,
      (List.replicate event.inputTrees.length 0)[j]? = some ((fun _ => 0 : Nat → Nat) j) := by
    intro j hj
    rw [List.getElem?_replicate, if_pos hj]
  have hseq : ∀ i input, Event.inputSeq (fun _ => 0) ix.inputs i input
      = ix.inputs.rank (ofTreeIndex input.treeIndex) i := by
    intro i input
    rw [Event.inputSeq, Nat.zero_add]
  obtain ⟨rebuilt, hrebuilt, hlength, hcounted⟩ := Event.countInputQueueSeqs_eq_ok hzero (by
    intro i input hi
    obtain ⟨address, tree, hinput⟩ := hindexed.input i input hi
    obtain ⟨nullifierPda, _, hentry⟩ := hinput.entry
    obtain ⟨_, hlt, _⟩ := hinput.indexed.records _ _ _ hentry
    rw [hseq]
    have hrank : ix.inputs.rank (ofTreeIndex input.treeIndex) i ≤ ix.inputs.length :=
      Nat.le_trans List.countP_le_length (List.length_take_le' _ _)
    have hcount := hindexed.count
    unfold maxTransactInputs at hcount
    exact ⟨_, hinput.emitted, hlt, by omega⟩)
  refine ⟨rebuilt, ?_, hlength, ?_⟩
  · rw [Event.reconstructInputs, Event.inputsFromTreeIndexes, if_neg hindexed.trees]
    exact hrebuilt
  · intro i hi
    obtain ⟨address, tree, hinput⟩ := hindexed.input i _ (List.getElem?_eq_getElem hi)
    obtain ⟨nullifierPda, hpda, hentry⟩ := hinput.entry
    obtain ⟨haddress, _, hrecord⟩ := hinput.indexed.records _ _ _ hentry
    have hspend := getElem?_spends_transact clock hindexed.range
      (List.getElem?_eq_getElem hi) hinput.declared
    have hrank := length_ofTree_take_spends clock hindexed.range hindexed.nodup hinput.declared i
    have hall : ofTree address (Instruction.spends (.transact accounts ix clock))
        = (treeNullifierPdas accounts.nullifierPdas ix.inputs ix.inputs[i].treeIndex).map (·.2) := by
      have hmem := List.mem_of_getElem? hinput.declared
      rw [map_snd_treeNullifierPdas hindexed.pdas, ofTree_spends hindexed.nodup, if_pos hmem,
        ← (getElem?_eq_some_iff_of_nodup hindexed.nodup hmem _).mp hinput.declared]
    refine ⟨address, ix.inputs[i].nullifierHash, _, hspend, ?_,
      ⟨nullifierPda, tree.treeId, hpda, haddress, by rw [hinput.loaded]; rfl, hrecord⟩, ?_⟩
    · rw [hinput.indexed.returnedIndex_eq hinput.loaded hall hspend, hrank]
      rw [hrank]
      exact (List.getElem?_eq_some_iff.mp hentry).1
    · rw [← hseq]
      exact hcounted i _ _ (List.getElem?_eq_getElem hi) hinput.emitted

end Transact

/-! ### Merge -/

section Merge

variable {accounts : MergeAccounts} {ix : MergeIx} {clock : Clock}

theorem indexAgrees_merge {event : SpendEvent} {proof : SpendProof}
    (h : (processMerge env accounts ix clock).run ledger = .ok (event, proof) ledger') :
    ∃ rebuilt : List Event.Input,
      Event.reconstructInputs event (.merge accounts ix clock) = .ok rebuilt ∧
      rebuilt.length = ix.nullifiers.length ∧
      ∀ i < ix.nullifiers.length, ∃ tree nullifier queueIndex,
        IndexAgrees env ledger ledger' (.merge accounts ix clock) rebuilt i tree nullifier
          queueIndex := by
  obtain ⟨queued, queuedLedger, created, write, fee, appended, proofInputs, hpdas, hqueue, hcreate,
    houtput, hfee, _, _, rfl, _⟩ := run_processMerge_ok h
  have hsnd : (accounts.nullifierPdas.zip ix.nullifiers).map (·.2) = ix.nullifiers :=
    List.map_snd_zip (Nat.le_of_eq hpdas.symm)
  have hzip : (accounts.nullifierPdas.zip ix.nullifiers).length = ix.nullifiers.length := by
    rw [List.length_zip, hpdas, Nat.min_self]
  have hpdaView : ledger'.nullifierPda = created.nullifierPda :=
    congrArg SpendView.pda
      ((lamportFree_spendView.collectTreeFee _ _ _ hfee).trans (keeps_applyMergeOutput _ _ _ _ _ houtput))
  nth_rewrite 1 [← hsnd] at hqueue
  obtain ⟨⟨tree, htree, hfirst, hindexed⟩, _, _⟩ := run_queue_indexed hqueue hcreate
  rw [← hpdaView] at hindexed
  have hentry : ∀ i (hi : i < ix.nullifiers.length), (accounts.nullifierPdas.zip ix.nullifiers)[i]?
        = some (accounts.nullifierPdas[i], ix.nullifiers[i]) := by
    intro i hi
    rw [List.getElem?_eq_getElem (hzip.symm ▸ hi), List.getElem_zip]
  have hbound : ∀ k < ix.nullifiers.length,
      (accounts.inputTree, tree.nullifier.queueNextIndex).2 + (0 + k) < 2 ^ 64 := by
    intro k hk
    rw [Nat.zero_add]
    exact (hindexed.records _ _ _ (hentry k hk)).2.1
  obtain ⟨rebuilt, hrebuilt, hlength, hcounted⟩ := Event.inputsFromNullifiers_eq_ok hbound
  refine ⟨rebuilt, ?_, hlength, ?_⟩
  · rw [Event.reconstructInputs, hfirst]
    exact hrebuilt
  · intro i hi
    obtain ⟨haddress, _, hrecord⟩ := hindexed.records _ _ _ (hentry i hi)
    have hspends : Instruction.spends (.merge accounts ix clock)
        = ix.nullifiers.map fun nullifier => (accounts.inputTree, nullifier) := rfl
    have hspend : (Instruction.spends (.merge accounts ix clock))[i]?
        = some (accounts.inputTree, ix.nullifiers[i]) := by
      rw [hspends, List.getElem?_map, List.getElem?_eq_getElem hi]
      rfl
    -- Every spend is from the one tree, so the rank of an input is its position.
    have hrank : (ofTree accounts.inputTree
        ((Instruction.spends (.merge accounts ix clock)).take i)).length = i := by
      rw [hspends, ← List.map_take, ofTree_map_pair, if_pos rfl, List.length_take]
      omega
    have hall : ofTree accounts.inputTree (Instruction.spends (.merge accounts ix clock))
        = (accounts.nullifierPdas.zip ix.nullifiers).map (·.2) := by
      rw [hspends, ofTree_map_pair, if_pos rfl, hsnd]
    refine ⟨accounts.inputTree, ix.nullifiers[i], _, hspend, ?_,
      ⟨accounts.nullifierPdas[i], tree.treeId, List.getElem?_eq_getElem _, haddress,
        by rw [htree]; rfl, hrecord⟩, ?_⟩
    · rw [hindexed.returnedIndex_eq htree hall hspend, hrank]
      rw [hrank, hzip]
      exact hi
    · have hsame := hcounted i _ (List.getElem?_eq_getElem hi)
      rwa [Nat.zero_add] at hsame

end Merge

/-- The tree, the PDA and the indexer agree on the queue index of every input. -/
theorem queue_indexes_agree {instruction : Instruction} {event : SpendEvent}
    (h : Emits env ledger instruction event ledger') :
    ∃ rebuilt, Event.reconstructInputs event instruction = .ok rebuilt ∧
      rebuilt.length = instruction.inputCount ∧
      ∀ i < instruction.inputCount, ∃ tree nullifier queueIndex,
        IndexAgrees env ledger ledger' instruction rebuilt i tree nullifier queueIndex := by
  cases h with
  | transact h => exact indexAgrees_transact h
  | merge h => exact indexAgrees_merge h

/-- The sample tree at address 1, a second one at address 3, and a payer. -/
def twoTreesLedger : Ledger 32 1 := fun address =>
  if address = 1 then ⟨1000, .tree sampleTree⟩
  else if address = 2 then ⟨100, .unused⟩
  else if address = 3 then ⟨1000, .tree { sampleTree with treeId := 4 }⟩
  else ⟨0, .unused⟩

def interleavedAccounts : TransactAccounts := ⟨2, [1, 3], 1, [1021, 1022, 1023]⟩

/-- Three inputs whose trees alternate. -/
def interleavedIx : TransactIx :=
  ⟨100, [⟨21, 1⟩, ⟨22, 0⟩, ⟨23, 1⟩], [⟨noUtxoRoot, 0⟩, ⟨noUtxoRoot, 0⟩], [], 0, []⟩

theorem queue_indexes_agree_interleaved : ∃ event ledger' rebuilt,
    Emits sampleEnv twoTreesLedger (.transact interleavedAccounts interleavedIx ⟨7, 50⟩) event ledger' ∧
      Event.reconstructInputs event (.transact interleavedAccounts interleavedIx ⟨7, 50⟩) = .ok rebuilt ∧
      ∀ i < 3, ∃ tree nullifier queueIndex, IndexAgrees sampleEnv twoTreesLedger ledger'
        (.transact interleavedAccounts interleavedIx ⟨7, 50⟩) rebuilt i tree nullifier queueIndex := by
  have haccepted : succeeds (processTransact sampleEnv interleavedAccounts interleavedIx ⟨7, 50⟩)
      twoTreesLedger (fun _ _ => true) = true := by
    decide +kernel
  obtain ⟨⟨event, proof⟩, after, hrun, _⟩ := exists_of_succeeds haccepted
  obtain ⟨rebuilt, hrebuilt, _, hagrees⟩ := queue_indexes_agree (.transact hrun)
  exact ⟨event, after, rebuilt, .transact hrun, hrebuilt, hagrees⟩

end Zolana
