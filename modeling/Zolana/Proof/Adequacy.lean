import Zolana.Proof.Books

/-!
# What the reserve covers

Every nullifier that is queued and not yet applied has its PDA open, so the open PDAs bound the closes
and, in ZKP batches, the appends that are left. A balance at the reserve covers all of them. Each batch
update and each close takes its share off both sides, so the balance covers the rest whatever order they
come in.
-/

namespace Zolana

open Fallible NullifierTreeLayout

variable {HEIGHT K : Nat} {env : SystemEnv HEIGHT K} {ledger ledger' : Ledger HEIGHT K}
variable {address recipient : Address} {tree tree' : TreeAccountLayout HEIGHT K}

/-! ### Open PDAs bound what is left -/

theorem ncard_Ico (a b : Nat) : (Set.Ico a b).ncard = b - a := by
  rw [← Finset.coe_Ico, Set.ncard_coe_finset, Nat.card_Ico]

theorem Traced.pending_le {env : PoolEnv} (h : Traced env ledger.spendView)
    (htree : ledger.tree address = some tree) : tree.nullifier.queueNextIndex - tree.nullifier.nextIndex
      ≤ (openPdas ledger.nullifierPda tree.treeId).ncard := by
  obtain ⟨events, hconsistent, _⟩ := h
  have hside := Ledger.spendView_side htree
  obtain ⟨applied, hbefore⟩ := hconsistent.consistent address tree.side hside
  have hqueue := hbefore.queueNextIndex
  have hindex := hbefore.nextIndex
  have hclose := hbefore.closeBeforeIndex
  have hwatermark := watermark_le K tree.side.nullifier.zkpBatchSize applied.length
  dsimp only [TreeAccountLayout.side] at hqueue hindex hclose hwatermark
  let index (pda : Address) : Nat := ((ledger.nullifierPda pda).map (·.queueIndex)).getD 0
  have hsubset : Set.Ico tree.nullifier.nextIndex tree.nullifier.queueNextIndex
      ⊆ index '' openPdas ledger.nullifierPda tree.treeId := by
    rintro j ⟨hlo, hhi⟩
    obtain ⟨i, rfl⟩ : ∃ i, j = i + 1 := ⟨j - 1, by omega⟩
    have hi : i < (queuedIn address events).length := by omega
    rcases hconsistent.guarded address tree.side i _ hside (List.getElem?_eq_getElem hi) with
      hbelow | ⟨pda, _, hpda⟩
    · dsimp only [TreeAccountLayout.side] at hbelow
      omega
    · have hrecord : ledger.nullifierPda pda = some ⟨i + 1, tree.treeId⟩ := hpda
      refine ⟨pda, ⟨_, hrecord, rfl⟩, ?_⟩
      simp [index, hrecord]
  calc tree.nullifier.queueNextIndex - tree.nullifier.nextIndex
      = (Set.Ico tree.nullifier.nextIndex tree.nullifier.queueNextIndex).ncard := (ncard_Ico _ _).symm
    _ ≤ (index '' openPdas ledger.nullifierPda tree.treeId).ncard :=
        Set.ncard_le_ncard hsubset (Set.toFinite _)
    _ ≤ (openPdas ledger.nullifierPda tree.treeId).ncard := Set.ncard_image_le (Set.toFinite _)

theorem Traced.zkpBatchSize_pos {env : PoolEnv} (h : Traced env ledger.spendView)
    (htree : ledger.tree address = some tree) : 0 < tree.nullifier.zkpBatchSize := by
  obtain ⟨events, hconsistent, _⟩ := h
  obtain ⟨applied, hbefore⟩ := hconsistent.consistent address tree.side (Ledger.spendView_side htree)
  obtain ⟨start, hqueue⟩ := hbefore.queue
  exact hqueue.window.zkpBatchSize_pos

/-- Far below the limit of a `u64`. -/
theorem Books.feeBalance_lt (h : Books env ledger) (htree : ledger.tree address = some tree) :
    tree.feeBalance < 2 ^ 64 - 1 := by
  have hbooks := h.tree address tree htree
  have hqueue := h.traced.queue_le htree
  have hleaves : tree.utxo.nextIndex ≤ 2 ^ 40 :=
    Nat.le_trans hbooks.leaves_le (Nat.pow_le_pow_right (by decide) hbooks.height_le)
  have hbalance := hbooks.balance_le
  simp only [maxFeePerTree] at hbalance
  omega

/-! ### The cover -/

/-- The balance covers a close of every open PDA and an append of every full ZKP batch in the queue. -/
structure Covered (fees : TreeFeeSchedule) (tree : TreeAccountLayout HEIGHT K) : Prop where
  schedule : tree.fees = fees
  covers : tree.liveNullifierPdas * fees.closeReimbursement
    + (tree.nullifier.queueNextIndex - tree.nullifier.nextIndex) / tree.nullifier.zkpBatchSize
      * fees.appendReimbursement ≤ tree.feeBalance

theorem TreeAccountLayout.feeBalanceReserve_eq (hpos : 0 < tree.nullifier.zkpBatchSize) : tree.feeBalanceReserve
      = saturatingAdd (saturatingMul tree.liveNullifierPdas tree.fees.closeReimbursement)
          (saturatingMul
            ((tree.liveNullifierPdas + tree.nullifier.zkpBatchSize - 1) / tree.nullifier.zkpBatchSize)
            tree.fees.appendReimbursement) := by
  unfold feeBalanceReserve
  split
  case h_1 hzero => omega
  case h_2 => rfl

theorem Covered.of_reserve (h : Books env ledger) (htree : ledger.tree address = some tree)
    (hreserve : tree.feeBalanceReserve ≤ tree.feeBalance) : Covered tree.fees tree := by
  have hpending := h.traced.pending_le htree
  rw [← (h.tree address tree htree).live] at hpending
  have hbalance := h.feeBalance_lt htree
  have hpos := h.traced.zkpBatchSize_pos htree
  refine ⟨rfl, ?_⟩
  have happends : (tree.nullifier.queueNextIndex - tree.nullifier.nextIndex)
        / tree.nullifier.zkpBatchSize
      ≤ (tree.liveNullifierPdas + tree.nullifier.zkpBatchSize - 1) / tree.nullifier.zkpBatchSize :=
    Nat.div_le_div_right (by omega)
  have happendsPaid := Nat.mul_le_mul_right tree.fees.appendReimbursement happends
  -- A saturated reserve is above every balance, so this one is exact.
  rw [TreeAccountLayout.feeBalanceReserve_eq hpos, saturatingAdd, saturatingMul, saturatingMul]
    at hreserve
  omega

theorem TreeAccountLayout.reimbursement_of_le {rate count : Nat}
    (h : rate * count ≤ tree.feeBalance) (hlt : tree.feeBalance < 2 ^ 64 - 1) :
    tree.reimbursement rate count = rate * count := by
  unfold reimbursement saturatingMul
  omega

theorem TreeAccountLayout.updateReimbursement_eq (tree : TreeAccountLayout HEIGHT K) (cascade : Cascade) :
    tree.updateReimbursement cascade = tree.reimbursement tree.fees.appendReimbursement cascade.numUpdate := by
  unfold updateReimbursement Cascade.numUpdate
  cases cascade.event with
  | none => simp [reimbursement, saturatingMul]
  | some event => rfl

variable {fees : TreeFeeSchedule}

theorem Covered.update (h : Covered fees tree) (hbooks : Books env ledger)
    (htree : ledger.tree address = some tree) {data : InstructionDataBatchNullifyInputs}
    {cascade : Cascade} {nullifier : NullifierTreeLayout K}
    (hrun : (updateTreeFromQueue env.pool.tree address data).run tree.nullifier = .ok cascade nullifier) :
    tree.updateReimbursement cascade = fees.appendReimbursement * cascade.numUpdate ∧
      Covered fees ({ tree with nullifier }.afterPaying (tree.updateReimbursement cascade)) := by
  obtain ⟨hqueue, hsize, hindex, hle⟩ := hbooks.traced.update htree hrun
  have hpos := hbooks.traced.zkpBatchSize_pos htree
  have hcovers := h.covers
  have hmul : tree.nullifier.zkpBatchSize * cascade.numUpdate
      ≤ tree.nullifier.queueNextIndex - tree.nullifier.nextIndex := by
    rw [Nat.mul_comm]
    omega
  have hcount : cascade.numUpdate ≤ (tree.nullifier.queueNextIndex - tree.nullifier.nextIndex)
      / tree.nullifier.zkpBatchSize := by
    rw [Nat.le_div_iff_mul_le hpos, Nat.mul_comm]
    exact hmul
  have hrest : (nullifier.queueNextIndex - nullifier.nextIndex) / nullifier.zkpBatchSize
      = (tree.nullifier.queueNextIndex - tree.nullifier.nextIndex) / tree.nullifier.zkpBatchSize
        - cascade.numUpdate := by
    rw [hqueue, hindex, hsize, ← Nat.sub_sub, Nat.mul_comm cascade.numUpdate, Nat.sub_mul_div]
  have hpaid := Nat.mul_le_mul_right fees.appendReimbursement hcount
  have hamount : tree.updateReimbursement cascade = fees.appendReimbursement * cascade.numUpdate := by
    rw [tree.updateReimbursement_eq, h.schedule]
    refine TreeAccountLayout.reimbursement_of_le ?_ (hbooks.feeBalance_lt htree)
    rw [Nat.mul_comm]
    omega
  refine ⟨hamount, h.schedule, ?_⟩
  dsimp only [TreeAccountLayout.afterPaying]
  rw [hamount, hrest, Nat.sub_mul, Nat.mul_comm fees.appendReimbursement]
  omega

theorem Covered.close (h : Covered fees tree) (hbooks : Books env ledger)
    (htree : ledger.tree address = some tree) {closed : Nat} (hclosed : closed ≤ tree.liveNullifierPdas) :
    tree.reimbursement tree.fees.closeReimbursement closed = fees.closeReimbursement * closed ∧
      Covered fees (tree.afterClose closed) := by
  have hcovers := h.covers
  have hpaid := Nat.mul_le_mul_right fees.closeReimbursement hclosed
  have hamount : tree.reimbursement tree.fees.closeReimbursement closed = fees.closeReimbursement * closed := by
    rw [h.schedule]
    refine TreeAccountLayout.reimbursement_of_le ?_ (hbooks.feeBalance_lt htree)
    rw [Nat.mul_comm]
    omega
  refine ⟨hamount, h.schedule, ?_⟩
  change (tree.liveNullifierPdas - closed) * fees.closeReimbursement
      + (tree.nullifier.queueNextIndex - tree.nullifier.nextIndex) / tree.nullifier.zkpBatchSize
        * fees.appendReimbursement
    ≤ tree.feeBalance - tree.reimbursement tree.fees.closeReimbursement closed
  rw [hamount, Nat.sub_mul, Nat.mul_comm fees.closeReimbursement]
  omega

/-! ### Continuations -/

def Instruction.Forester : Instruction → Prop
  | .batchUpdateNullifierTree _ _ _ | .closeNullifierPdas _ _ _ => True
  | .transact _ _ _ | .merge _ _ _ => False

/-- A run that goes on with instructions of the pool. -/
def SystemRun.continue (env : SystemEnv HEIGHT K) (run : SystemRun HEIGHT K)
    (instructions : List Instruction) : SystemRun HEIGHT K :=
  instructions.foldl (fun run instruction => run.step env (.pool instruction)) run

theorem SystemRun.continue_nil (env : SystemEnv HEIGHT K) (run : SystemRun HEIGHT K) :
    run.continue env [] = run := rfl

theorem run_processClose_length_le {env : SystemEnv HEIGHT K} (h : Books env ledger)
    {nullifierPdas : List Address}
    (hrun : (processCloseNullifierPdas env.pool address recipient nullifierPdas).run ledger
      = .ok () ledger') (htree : ledger.tree address = some tree) :
    nullifierPdas.length ≤ tree.liveNullifierPdas := by
  obtain ⟨found, hfound, _, hopens⟩ := run_processClose_closes hrun
  obtain rfl := Option.some.inj (htree.symm.trans hfound)
  rw [(h.tree address tree htree).live, hopens.ncard]
  exact Nat.le_add_left _ _

/-- Instructions of the forester for this or any other tree. -/
theorem Covered.process (h : Covered fees tree) (hbooks : Books env ledger)
    (htree : ledger.tree address = some tree) {instruction : Instruction}
    (hforester : instruction.Forester) {proof : Option SpendProof}
    (hrun : (process env.pool instruction).run ledger = .ok proof ledger') :
    ∃ tree', ledger'.tree address = some tree' ∧ Covered fees tree' := by
  cases instruction with
  | transact accounts ix clock => exact hforester.elim
  | merge accounts ix clock => exact hforester.elim
  | batchUpdateNullifierTree updated recipient data =>
      obtain ⟨event, _, hupdate, hpure⟩ := of_run_bind hrun
      cases hpure
      obtain ⟨before, cascade, nullifier, hbefore, _, hcascade, _, hmoved⟩ :=
        run_processBatchUpdate_ok hupdate
      rw [hmoved.tree, Ledger.tree_setData]
      by_cases haddress : address = updated
      · subst haddress
        obtain rfl := Option.some.inj (htree.symm.trans hbefore)
        exact ⟨_, if_pos rfl, (h.update hbooks htree hcascade).2⟩
      · exact ⟨tree, (if_neg haddress).trans htree, h⟩
  | closeNullifierPdas closing recipient nullifierPdas =>
      obtain ⟨_, _, hclose, hpure⟩ := of_run_bind hrun
      cases hpure
      obtain ⟨before, hbefore, hafter, _⟩ := run_processClose_closes hclose
      rw [hafter]
      by_cases haddress : address = closing
      · subst haddress
        obtain rfl := Option.some.inj (htree.symm.trans hbefore)
        exact ⟨_, if_pos rfl, (h.close hbooks htree (run_processClose_length_le hbooks hclose htree)).2⟩
      · exact ⟨tree, (if_neg haddress).trans htree, h⟩

theorem Covered.continue {run : SystemRun HEIGHT K} (h : Covered fees tree)
    (hreachable : SystemReachable env run) (htree : run.system.ledger.tree address = some tree)
    {instructions : List Instruction} (hforester : ∀ instruction ∈ instructions, instruction.Forester) :
    SystemReachable env (run.continue env instructions) ∧
      ∃ tree', (run.continue env instructions).system.ledger.tree address = some tree' ∧
        Covered fees tree' := by
  induction instructions generalizing run tree with
  | nil => exact ⟨hreachable, tree, htree, h⟩
  | cons instruction instructions ih =>
      obtain ⟨hfirst, hrest⟩ := List.forall_mem_cons.mp hforester
      have hstep : ∃ tree', (run.step env (.pool instruction)).system.ledger.tree address = some tree' ∧
          Covered fees tree' := by
        unfold SystemRun.step
        split
        case h_1 call system hprocess =>
          obtain ⟨_, _, hact, hpure⟩ := of_run_bind hprocess
          cases hpure
          obtain ⟨after, hrun, rfl⟩ := run_onLedger_ok hact
          exact h.process hreachable.books htree hfirst hrun
        case h_2 => exact ⟨tree, htree, h⟩
      obtain ⟨tree', htree', hcovered⟩ := hstep
      exact ih hcovered (hreachable.step _) htree' hrest

end Zolana
