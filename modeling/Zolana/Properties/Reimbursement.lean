import Zolana.Proof.Adequacy
import Zolana.Properties.Solvency

/-!
# The reimbursement reserve

A tree counts its open nullifier PDAs exactly. While its fee balance is at or above the reserve, the
forester is paid in full for all the work that is queued, in whatever order it does it.
-/

namespace Zolana

open Fallible

variable {HEIGHT K : Nat} {env : SystemEnv HEIGHT K} {run : SystemRun HEIGHT K}

theorem feeBalanceReserve_releaseFeeSurplus {tree : TreeAccountLayout HEIGHT K}
    (h : tree.feeBalanceReserve ≤ tree.feeBalance) :
    tree.releaseFeeSurplus.feeBalanceReserve ≤ tree.releaseFeeSurplus.feeBalance := by
  change tree.feeBalanceReserve ≤ tree.feeBalance - (tree.feeBalance - tree.feeBalanceReserve)
  omega

/-- The count of open PDAs is exact and covers the queue, and a claim of a surplus stops at the reserve.
From a balance at or above it, after any batch updates and closes, each further update pays the append
rate for every ZKP batch it applies, and each close the close rate for every PDA. -/
theorem reserve_pays_in_full (h : SystemReachable env run) :
    (∀ address tree, run.system.ledger.tree address = some tree →
      tree.liveNullifierPdas = (openPdas run.system.ledger.nullifierPda tree.treeId).ncard ∧
      tree.nullifier.queueNextIndex - tree.nullifier.nextIndex ≤ tree.liveNullifierPdas) ∧
    (∀ address recipient tree ledger', run.system.ledger.tree address = some tree →
      tree.feeBalanceReserve ≤ tree.feeBalance →
      (processClaimTreeLamports env.pool.runtime address recipient).run run.system.ledger = .ok () ledger' →
      ∃ tree', ledger'.tree address = some tree' ∧ tree'.feeBalanceReserve ≤ tree'.feeBalance) ∧
    ∀ address tree, run.system.ledger.tree address = some tree →
      tree.feeBalanceReserve ≤ tree.feeBalance →
      ∀ instructions : List Instruction, (∀ instruction ∈ instructions, instruction.Forester) →
      ∀ recipient ledger',
        (∀ data event, (processBatchUpdateNullifierTree env.pool address recipient data).run
            (run.continue env instructions).system.ledger = .ok (some event) ledger' →
          ledger'.lamports recipient = (run.continue env instructions).system.ledger.lamports recipient
              + tree.fees.appendReimbursement * event.numUpdate) ∧
        ∀ nullifierPdas, (processCloseNullifierPdas env.pool address recipient nullifierPdas).run
            (run.continue env instructions).system.ledger = .ok () ledger' →
          ledger'.lamports recipient = (run.continue env instructions).system.ledger.lamports recipient
              + tree.fees.closeReimbursement * nullifierPdas.length := by
  have hbooks := h.books
  refine ⟨?_, ?_, ?_⟩
  · intro address tree htree
    have hlive := (hbooks.tree address tree htree).live
    have hpending := hbooks.traced.pending_le htree
    rw [← hlive] at hpending
    exact ⟨hlive, hpending⟩
  · intro address recipient tree ledger' htree hreserve hclaim
    obtain ⟨before, reserve, paid, hbefore, _, _, _, hmoved⟩ := run_processClaim_ok hclaim
    obtain rfl := Option.some.inj (htree.symm.trans hbefore)
    refine ⟨tree.releaseFeeSurplus, ?_, feeBalanceReserve_releaseFeeSurplus hreserve⟩
    rw [hmoved.tree, Ledger.tree_setData, if_pos rfl]
  · intro address tree htree hreserve instructions hforester recipient ledger'
    obtain ⟨hreachable, now, hnow, hcovered⟩ :=
      (Covered.of_reserve hbooks htree hreserve).continue h htree hforester
    refine ⟨?_, ?_⟩
    · intro data event hupdate
      obtain ⟨before, cascade, nullifier, hbefore, hne, hcascade, hevent, hmoved⟩ :=
        run_processBatchUpdate_ok hupdate
      obtain rfl := Option.some.inj (hnow.symm.trans hbefore)
      have hpaid := (hcovered.update hreachable.books hnow hcascade).1
      have hcount : cascade.numUpdate = event.numUpdate := by
        rw [NullifierTreeLayout.Cascade.numUpdate, ← hevent]
      rw [hmoved.lamports_receiver hne, Ledger.lamports_setData, hpaid, hcount]
    · intro nullifierPdas hclose
      obtain ⟨before, closed, hbefore, hne, hnotPda, hcloses, hmoved⟩ := run_processClose_ok hclose
      obtain rfl := Option.some.inj (hnow.symm.trans hbefore)
      have hpaid := (hcovered.close hreachable.books hnow
        (run_processClose_length_le hreachable.books hclose hnow)).1
      rw [hmoved.lamports_receiver hne, hpaid, hcloses.others recipient hne hnotPda,
        Ledger.lamports_setData]

/-! ### A claim before the forester's work -/

/-- A spend of tree 0 without outputs. -/
def reserveSpend (nullifiers : List Bytes32) : SystemInstruction :=
  .pool (.transact ⟨2, [100], 100, nullifiers.map (· + 1000)⟩
    ⟨100, nullifiers.map (⟨·, 0⟩), [⟨noUtxoRoot, 0⟩], [], 0, []⟩ ⟨7, 50⟩)

/-- Ten nullifiers are queued with three fees of five, and a claim leaves ten closes and one append. -/
def reserveInstructions : List SystemInstruction :=
  [.createTree 2 0 100 creationData, .createTree 2 0 100 creationData,
    reserveSpend [1, 2, 3, 4], reserveSpend [5, 6, 7], reserveSpend [8, 9, 10],
    .transfer 2 100 1000, .claimTreeLamports 100 2]

def reserveRun : SystemRun 32 1 :=
  reserveInstructions.foldl (SystemRun.step creationEnv) ⟨emptySystem, []⟩

theorem reachable_reserveRun : SystemReachable creationEnv reserveRun :=
  reachable_foldl_system (.genesis genesis_emptySystem) reserveInstructions

/-- The batch update that the sample verifier knows, paid to account 3. -/
theorem reserve_pays_in_full_reserveRun : (reserveRun.system.ledger.tree 100).map
        (fun tree => (tree.feeBalanceReserve, tree.feeBalance, tree.liveNullifierPdas))
      = some (12, 12, 10) ∧
    ∃ event ledger', (processBatchUpdateNullifierTree creationEnv.pool 100 3
        ⟨101, nullifierTreeInitRoot40, 0, ⟨0, 0, 0⟩⟩).run reserveRun.system.ledger
          = .ok (some event) ledger' ∧
      ledger'.lamports 3 = reserveRun.system.ledger.lamports 3 + 2 * event.numUpdate := by
  have hbooks : (reserveRun.system.ledger.tree 100).map (fun tree =>
      (tree.feeBalanceReserve, tree.feeBalance, tree.liveNullifierPdas)) = some (12, 12, 10) := by
    decide +kernel
  have hrate : (reserveRun.system.ledger.tree 100).map (·.fees.appendReimbursement) = some 2 := by
    decide +kernel
  obtain ⟨tree, htree, hcounts⟩ := Option.map_eq_some_iff.mp hbooks
  rw [htree] at hrate
  have happend : tree.fees.appendReimbursement = 2 := Option.some.inj hrate
  simp only [Prod.mk.injEq] at hcounts
  have hreserve : tree.feeBalanceReserve ≤ tree.feeBalance := by
    rw [hcounts.1, hcounts.2.1]
  refine ⟨hbooks, ?_⟩
  have haccepted : succeeds (processBatchUpdateNullifierTree creationEnv.pool 100 3
      ⟨101, nullifierTreeInitRoot40, 0, ⟨0, 0, 0⟩⟩) reserveRun.system.ledger
      (fun event _ => event.isSome) = true := by
    decide +kernel
  obtain ⟨_, after, hrun, hsome⟩ := exists_of_succeeds haccepted
  obtain ⟨event, rfl⟩ := Option.isSome_iff_exists.mp hsome
  refine ⟨event, after, hrun, ?_⟩
  have hpays := (reserve_pays_in_full reachable_reserveRun).2.2 100 tree htree hreserve []
    (fun _ hmem => (List.not_mem_nil hmem).elim) 3 after
  rw [SystemRun.continue_nil, happend] at hpays
  exact hpays.1 _ event hrun

end Zolana
