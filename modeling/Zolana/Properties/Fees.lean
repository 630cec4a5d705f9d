import Zolana.Proof.Fees
import Zolana.Properties.QueueIndex

/-!
# One fee for each written tree

Whatever trees an accepted spend names, and however its output tree overlaps with its input trees, each
tree it queues a nullifier in or appends a leaf to is paid its fee once, by the payer, and no other tree
is.
-/

namespace Zolana

open Fallible

variable {HEIGHT K : Nat} {env : PoolEnv} {ledger ledger' : Ledger HEIGHT K}

/-- The trees and leaves an instruction appends, in order. -/
def Instruction.appends : Instruction → List (Address × Bytes32)
  | .transact accounts ix _ => ix.outputs.map fun output => (accounts.outputTree, output)
  | .merge accounts ix _ => [(accounts.outputTree, ix.outputUtxoHash)]
  | .batchUpdateNullifierTree _ _ _ | .closeNullifierPdas _ _ _ => []

def Instruction.payer : Instruction → Option Address
  | .transact accounts _ _ => some accounts.payer
  | .merge accounts _ _ => some accounts.payer
  | .batchUpdateNullifierTree _ _ _ | .closeNullifierPdas _ _ _ => none

/-- The trees an instruction queues a nullifier in or appends a leaf to. -/
def Instruction.writtenTrees (instruction : Instruction) : Finset Address :=
  ((instruction.spends ++ instruction.appends).map (·.1)).toFinset

theorem mem_map_fst_iff_ofTree {α : Type} (a : Address) (entries : List (Address × α)) :
    a ∈ entries.map (·.1) ↔ ofTree a entries ≠ [] := by
  simp [ofTree]

theorem Instruction.mem_writtenTrees (instruction : Instruction) (a : Address) : a ∈ instruction.writtenTrees ↔
      ofTree a instruction.spends ≠ [] ∨ ofTree a instruction.appends ≠ [] := by
  rw [writtenTrees, List.mem_toFinset, List.map_append, List.mem_append, mem_map_fst_iff_ofTree,
    mem_map_fst_iff_ofTree]

theorem paidWrites_transact {accounts : TransactAccounts} {ix : TransactIx} {clock : Clock}
    {event : SpendEvent} {proof : SpendProof}
    (h : (processTransact env accounts ix clock).run ledger = .ok (event, proof) ledger')
    (hsigns : Signs env.runtime ledger accounts.payer) :
    PaidWrites accounts.payer (Instruction.writtenTrees (.transact accounts ix clock))
      (fun a => (ofTree a (Instruction.spends (.transact accounts ix clock))).length)
      (fun a => (ofTree a (Instruction.appends (.transact accounts ix clock))).length)
      ledger ledger' := by
  obtain ⟨counts, queued, flags, applied, write, fee, appended, proofInputs, hcounts, hnodup, hinputs,
    houtput, hfee, _, _, _, _⟩ := run_processTransact_ok h
  obtain ⟨trees, hfst, _, _, hlengths, happly, _⟩ := run_applyInputTrees_cases hcounts hinputs
  have hqueued := paidWrites_applyTrees (hfst ▸ hnodup) hsigns happly
  rw [hfst] at hqueued
  obtain ⟨tree, utxo, htree, happend, hfeeEq, _, rfl⟩ := run_applyOutputTree_ok houtput
  have happended := paidWrites_output ⟨hsigns.notPda, hqueued.noTree _ hsigns.notTree⟩ htree happend
    hfeeEq hfee
  have hdisjoint : Disjoint accounts.inputTrees.toFinset
      (if chargesOutput ix.outputs (decide (accounts.outputTree ∈ accounts.inputTrees)) then
        {accounts.outputTree} else ∅) := by
    by_cases hmem : accounts.outputTree ∈ accounts.inputTrees
    · simp [chargesOutput, hmem]
    · split
      · simpa using hmem
      · simp
  -- Every declared tree is referenced by some input.
  have hspent : ∀ a, ofTree a (Instruction.spends (.transact accounts ix clock)) ≠ [] ↔
      a ∈ accounts.inputTrees := by
    intro a
    rw [ofTree_spends hnodup]
    by_cases hmem : a ∈ accounts.inputTrees
    · rw [if_pos hmem]
      have hlt := List.idxOf_lt_length_iff.mpr hmem
      rw [hlengths] at hlt
      exact iff_of_true (treeNullifiers_ne_nil hcounts hlt) hmem
    · rw [if_neg hmem]
      exact iff_of_false (fun h => h rfl) hmem
  convert hqueued.trans happended hdisjoint using 1
  · ext a
    rw [Instruction.mem_writtenTrees, hspent, Instruction.appends, ofTree_map_pair, Finset.mem_union,
      List.mem_toFinset]
    by_cases ha : accounts.outputTree = a
    · subst ha
      by_cases hmem : accounts.outputTree ∈ accounts.inputTrees
      · simp [hmem]
      · cases ix.outputs <;> simp [hmem, chargesOutput]
    · have hout : a ∉ (if chargesOutput ix.outputs (decide (accounts.outputTree ∈ accounts.inputTrees))
          then {accounts.outputTree} else ∅ : Finset Address) := by
        split <;> simp [Ne.symm ha]
      simp [ha, hout]
  · funext a
    rw [ofTree_spends hnodup, queuedFrom, Nat.zero_add]
    by_cases hmem : a ∈ accounts.inputTrees <;> simp [hmem]
  · funext a
    rw [Instruction.appends, ofTree_map_pair]
    by_cases ha : accounts.outputTree = a
    · simp [ha]
    · simp [ha, Ne.symm ha]

theorem paidWrites_merge {accounts : MergeAccounts} {ix : MergeIx} {clock : Clock}
    {event : SpendEvent} {proof : SpendProof}
    (h : (processMerge env accounts ix clock).run ledger = .ok (event, proof) ledger')
    (hsigns : Signs env.runtime ledger accounts.payer) (hinputs : ix.nullifiers ≠ []) :
    PaidWrites accounts.payer (Instruction.writtenTrees (.merge accounts ix clock))
      (fun a => (ofTree a (Instruction.spends (.merge accounts ix clock))).length)
      (fun a => (ofTree a (Instruction.appends (.merge accounts ix clock))).length)
      ledger ledger' := by
  obtain ⟨queued, queuedLedger, created, write, fee, appended, proofInputs, _, hqueue, hcreate,
    houtput, hfee, _, _, _, _⟩ := run_processMerge_ok h
  have hqueued := paidWrites_queue hsigns hqueue hcreate
  obtain ⟨tree, utxo, htree, happend, hfeeEq, _, rfl⟩ := run_applyMergeOutput_ok houtput
  have happended := paidWrites_output ⟨hsigns.notPda, hqueued.noTree _ hsigns.notTree⟩ htree happend
    hfeeEq hfee
  have hspends : Instruction.spends (.merge accounts ix clock)
      = ix.nullifiers.map fun nullifier => (accounts.inputTree, nullifier) := rfl
  have happends : Instruction.appends (.merge accounts ix clock)
      = [ix.outputUtxoHash].map fun output => (accounts.outputTree, output) := rfl
  have hdisjoint : Disjoint ({accounts.inputTree} : Finset Address)
      (if chargesOutput [ix.outputUtxoHash] (decide (accounts.outputTree = accounts.inputTree)) then
        {accounts.outputTree} else ∅) := by
    by_cases hsame : accounts.outputTree = accounts.inputTree
    · simp [chargesOutput, hsame]
    · simp [chargesOutput, hsame, Ne.symm hsame]
  convert hqueued.trans happended hdisjoint using 1
  · ext a
    rw [Instruction.mem_writtenTrees, hspends, happends, ofTree_map_pair, ofTree_map_pair,
      Finset.mem_union, Finset.mem_singleton]
    by_cases hin : accounts.inputTree = a
    · simp [hin, hinputs]
    · by_cases hsame : accounts.outputTree = accounts.inputTree
      · simp [hin, Ne.symm hin, hsame, chargesOutput]
      · by_cases hout : accounts.outputTree = a
        · simp [hin, Ne.symm hin, hout, chargesOutput]
        · simp [hin, Ne.symm hin, hsame, hout, Ne.symm hout, chargesOutput]
  · funext a
    rw [hspends, ofTree_map_pair]
    by_cases ha : accounts.inputTree = a
    · simp [ha]
    · simp [ha, Ne.symm ha]
  · funext a
    rw [happends, ofTree_map_pair]
    by_cases ha : accounts.outputTree = a
    · simp [ha]
    · simp [ha, Ne.symm ha]

/-- Every written tree is credited its own fee once, no other tree is credited, and the payer pays the
sum. -/
theorem one_fee_per_written_tree {instruction : Instruction} {event : SpendEvent} {payer : Address}
    (h : Emits env ledger instruction event ledger') (hpayer : instruction.payer = some payer)
    (hsigns : Signs env.runtime ledger payer) :
    PaidWrites payer instruction.writtenTrees (fun a => (ofTree a instruction.spends).length)
      (fun a => (ofTree a instruction.appends).length) ledger ledger' := by
  cases h with
  | transact h =>
      obtain rfl := Option.some.inj hpayer
      exact paidWrites_transact h hsigns
  | merge h =>
      obtain rfl := Option.some.inj hpayer
      exact paidWrites_merge h hsigns (run_processMerge_nullifiers h)

/-- The sample environment, with no PDA at the payer's address. -/
def feesEnv : PoolEnv :=
  { sampleEnv with
    runtime :=
      ⟨fun _ nullifier => if nullifier + 1000 = 2 then none else some (nullifier + 1000), 500, 10⟩ }

theorem signs_feesEnv : Signs feesEnv.runtime twoTreesLedger 2 where
  notPda tree nullifier h := by
    dsimp only [feesEnv] at h
    split at h
    case isTrue => cases h
    case isFalse hne => exact hne (Option.some.inj h)
  notTree := rfl

/-- Inputs from two trees and an output to one of them. -/
def overlappingTransact : Instruction :=
  .transact interleavedAccounts { interleavedIx with outputs := [77] } ⟨7, 50⟩

/-- The payer pays two fees, not three. -/
theorem one_fee_per_written_tree_overlapping : ∃ event ledger',
    Emits feesEnv twoTreesLedger overlappingTransact event ledger' ∧
    PaidWrites 2 overlappingTransact.writtenTrees
      (fun a => (ofTree a overlappingTransact.spends).length)
      (fun a => (ofTree a overlappingTransact.appends).length) twoTreesLedger ledger' ∧
    overlappingTransact.writtenTrees = {1, 3} ∧ ledger'.lamports 2 = 90 := by
  have haccepted : succeeds (processTransact feesEnv interleavedAccounts
      { interleavedIx with outputs := [77] } ⟨7, 50⟩) twoTreesLedger
      (fun _ ledger' => decide (ledger'.lamports 2 = 90)) = true := by
    decide +kernel
  obtain ⟨⟨event, proof⟩, after, hrun, hlamports⟩ := exists_of_succeeds haccepted
  exact ⟨event, after, .transact hrun, one_fee_per_written_tree (.transact hrun) rfl signs_feesEnv,
    by decide, of_decide_eq_true hlamports⟩

end Zolana
