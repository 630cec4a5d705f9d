import Zolana.Proof.LedgerInvariant

/-!
# Solvency

A tree account holds its rent and its recorded fee balance. Within an instruction this fails for a while,
since a fee is credited before it is collected and a reimbursement is taken before it is paid. It holds
again after each group of steps that belong together, and those are what is proved here.
-/

namespace Zolana

open Fallible

variable {HEIGHT K : Nat} {env : PoolEnv} {ledger ledger' : Ledger HEIGHT K} {rent : Nat}

def Solvent (rent : Nat) (ledger : Ledger HEIGHT K) : Prop :=
  ∀ a tree, ledger.tree a = some tree → rent + tree.feeBalance ≤ ledger.lamports a

theorem Solvent.of_tree {address : Address} {tree' : TreeAccountLayout HEIGHT K} (h : Solvent rent ledger)
    (hafter : ∀ a, ledger'.tree a = if a = address then some tree' else ledger.tree a)
    (hothers : ∀ a tree, a ≠ address → ledger.tree a = some tree → ledger.lamports a ≤ ledger'.lamports a)
    (hself : rent + tree'.feeBalance ≤ ledger'.lamports address) : Solvent rent ledger' := by
  intro a tree htree
  rw [hafter] at htree
  split at htree
  case isTrue ha =>
    obtain rfl := Option.some.inj htree
    rwa [ha]
  case isFalse ha => exact Nat.le_trans (h a tree htree) (hothers a tree ha htree)

section Fees

variable {payer address : Address} {amount : Nat} {tree : TreeAccountLayout HEIGHT K}

/-- A tree cannot send: its account has data. -/
theorem Moved.lamports_tree (h : Moved payer address amount ledger ledger')
    (hunused : amount ≠ 0 → (ledger payer).data = .unused) {a : Address} (htree : ledger.tree a = some tree) :
    ledger'.lamports a = ledger.lamports a + if a = address then amount else 0 := by
  by_cases hzero : amount = 0
  · rw [h.lamports, hzero]
    simp
  · have hne : a ≠ payer := by
      rintro rfl
      have hdata := Ledger.tree_eq_some.mp htree
      rw [hunused hzero] at hdata
      cases hdata
    rw [h.lamports, if_neg hne, Nat.sub_zero]

theorem Solvent.moved (h : Solvent rent ledger) (hmoved : Moved payer address amount ledger ledger')
    (hunused : amount ≠ 0 → (ledger payer).data = .unused) : Solvent rent ledger' := by
  intro a tree htree
  rw [hmoved.tree] at htree
  rw [hmoved.lamports_tree hunused htree]
  exact Nat.le_trans (h a tree htree) (Nat.le_add_right _ _)

end Fees

theorem spendInvariant_solvent (env : PoolEnv) :
    SpendInvariant env (Solvent env.runtime.treeRentMinimum : Ledger HEIGHT K → Prop) where
  queue {payer address resolve nullifierPdas queued ledger mid ledger'} _ _ hqueue hcreate h := by
    obtain ⟨tree, nullifier, collected, htree, -, -, hmoved, hunused, hfunds, hafter⟩ :=
      run_queue_funds hqueue hcreate
    refine h.of_tree hafter (fun a other ha hother => ?_) ?_
    · have hmid := (Ledger.tree_setData address (tree.afterQueue nullifier nullifierPdas.length) ledger a).trans
        ((if_neg ha).trans hother)
      have hnotPda : a ∉ nullifierPdas.map (·.1) := by
        intro hmem
        have hdata := hfunds.unused a hmem
        rw [Ledger.tree_eq_some.mp ((hmoved.tree a).trans hmid)] at hdata
        cases hdata
      rw [hfunds.others a ha hnotPda, hmoved.lamports_tree hunused hmid, if_neg ha, Ledger.lamports_setData,
        Nat.add_zero]
    · have hloaded := Ledger.tree_setData address (tree.afterQueue nullifier nullifierPdas.length) ledger address
      have hcollected := hmoved.lamports_tree hunused (hloaded.trans (if_pos rfl))
      rw [if_pos rfl, Ledger.lamports_setData] at hcollected
      have hbefore := h address tree htree
      simp only [TreeAccountLayout.afterQueue]
      rcases hfunds.minimum with hsame | hminimum
      · omega
      · exact hminimum
  output {payer address tree utxo outputs slot isInputTree ledger ledger'} htree _ hcollect h := by
    obtain ⟨hmoved, hunused⟩ := run_collectTreeFee_ok hcollect
    have hset := Ledger.tree_setData address
      (tree.afterAppend utxo (outputFee tree outputs isInputTree)) ledger
    refine h.of_tree (fun a => (hmoved.tree a).trans (hset a)) (fun a other ha hother => ?_) ?_
    · have hlamports := hmoved.lamports_tree hunused ((hset a).trans ((if_neg ha).trans hother))
      rw [if_neg ha, Ledger.lamports_setData] at hlamports
      omega
    · have hlamports := hmoved.lamports_tree hunused ((hset address).trans (if_pos rfl))
      rw [if_pos rfl, Ledger.lamports_setData] at hlamports
      have hbefore := h address tree htree
      simp only [TreeAccountLayout.afterAppend]
      omega

/-! ### Payments to a recipient -/

section Payments

variable {address recipient : Address} {tree tree' : TreeAccountLayout HEIGHT K} {paid : Nat}

theorem Solvent.pay {mid : Ledger HEIGHT K} (h : Solvent rent ledger)
    (htree : ledger.tree address = some tree) (hbalance : tree'.feeBalance + paid ≤ tree.feeBalance)
    (hne : recipient ≠ address) (htrees : ∀ a, mid.tree a = if a = address then some tree' else ledger.tree a)
    (hlamports : ∀ a other, mid.tree a = some other → ledger.lamports a ≤ mid.lamports a)
    (hmoved : Moved address recipient paid mid ledger') : Solvent rent ledger' := by
  refine h.of_tree (fun a => (hmoved.tree a).trans (htrees a)) (fun a other ha hother => ?_) ?_
  · exact Nat.le_trans (hlamports a other ((htrees a).trans ((if_neg ha).trans hother))) (hmoved.le_lamports ha)
  · have hle := hlamports address tree' ((htrees address).trans (if_pos rfl))
    have hbefore := h address tree htree
    rw [hmoved.lamports_sender hne.symm]
    omega

/-! ### Payments do not fail for lack of lamports -/

/-- Any error but the one of a tree without the lamports for a payment. -/
def NotInsufficient (e : ProgramError) : Prop := e ≠ .custom .insufficientForesterFeeBalance

theorem NotInsufficient.treeError (e : TreeError) : NotInsufficient (treeError e) := by
  cases e <;> simp [NotInsufficient, Zolana.treeError]

theorem NotInsufficient.ofTreeError (e : TreeError) :
    NotInsufficient ((ProgramError.custom ∘ ShieldedPoolError.ofTreeError) e) := by
  cases e <;> simp [NotInsufficient, ShieldedPoolError.ofTreeError]

theorem NotInsufficient.nullifierTreeError (e : NullifierTreeError) :
    NotInsufficient (nullifierTreeError e) := by
  cases e <;> simp [NotInsufficient, Zolana.nullifierTreeError]

theorem raises_checkReimbursementRecipient (recipient : Address) :
    Raises NotInsufficient (checkReimbursementRecipient recipient : PoolM HEIGHT K Unit) := by
  refine .bind .get ?_
  intro ledger
  cases (ledger recipient).data with
  | unused => exact .pure _
  | tree tree => exact .throw (by simp [NotInsufficient])
  | nullifierPda record => exact .throw (by simp [NotInsufficient])
  | other owned =>
      cases owned with
      | true => exact .throw (by simp [NotInsufficient])
      | false => exact .pure _

theorem raisesFrom_payReimbursement {runtime : Runtime}
    (h : runtime.treeRentMinimum + paid ≤ ledger.lamports address) : RaisesFrom NotInsufficient ledger
      (payReimbursement runtime address recipient paid : PoolM HEIGHT K Unit) := by
  intro e after hrun
  unfold payReimbursement at hrun
  split at hrun
  case isTrue => cases hrun
  case isFalse =>
    rcases run_bind_eq_error_iff.mp hrun with hget | ⟨_, _, hget, hrun⟩
    · cases hget
    · cases hget
      split at hrun
      case isTrue hguard =>
        simp only [Ledger.lamports] at h
        omega
      case isFalse =>
        refine RaisesFrom.bind (P := NotInsufficient) (.of_raises (.okOr _ ?_) _) ?_ hrun
        · simp [NotInsufficient]
        · intro balance t _
          exact .of_raises (.bind (.update _) fun _ => .update _) t

theorem raises_updateNullifierTree (env : Env) (address : Address) (data : InstructionDataBatchNullifyInputs) :
    Raises NotInsufficient (updateNullifierTree env address data :
      EStateM ProgramError (TreeAccountLayout HEIGHT K) _) := by
  refine .bind (.within .nullifierTreeError _) ?_
  intro cascade
  cases cascade.event with
  | none => exact .pure _
  | some event => exact .bind (.within .treeError _) fun _ => .pure _

theorem raisesFrom_processBatchUpdate {data : InstructionDataBatchNullifyInputs}
    (h : Solvent env.runtime.treeRentMinimum ledger) : RaisesFrom NotInsufficient ledger
      (processBatchUpdateNullifierTree env address recipient data : PoolM HEIGHT K _) := by
  refine .bind_keeps (keeps_checkReimbursementRecipient recipient)
    (raises_checkReimbursementRecipient recipient) fun _ => ?_
  refine .bind (.of_raises (.bind (raises_checkTreeAccount .ofTreeError address) fun _ =>
    .zoom (by simp [NotInsufficient]) (raises_updateNullifierTree _ _ _)) ledger) ?_
  intro result updated hupdate
  obtain ⟨tree, tree', htree, hrun, rfl⟩ := run_withTree_ok hupdate
  obtain ⟨cascade, nullifier, _, rfl, _⟩ := run_updateNullifierTree_books hrun
  cases cascade.event with
  | none => exact .of_raises (.pure _) _
  | some event =>
      refine .bind (raisesFrom_payReimbursement ?_) fun _ t _ => .of_raises (.pure _) t
      have hpaid := tree.updateReimbursement_le cascade
      have hsolvent := h address tree htree
      rw [Ledger.lamports_setData]
      omega

theorem raises_closePdas (treeId : UInt16) (closeBeforeIndex : Nat) (address : Address)
    (nullifierPdas : List Address) : Raises NotInsufficient
      (closePdas treeId closeBeforeIndex address nullifierPdas : PoolM HEIGHT K Unit) := by
  induction nullifierPdas with
  | nil => exact .pure _
  | cons nullifierPda nullifierPdas ih =>
      refine .bind (.bind ?_ ?_) fun _ => ih
      · refine .bind .get ?_
        intro ledger
        cases ledger.nullifierPda nullifierPda with
        | none => exact .throw (by simp [NotInsufficient])
        | some record =>
            exact .ite (.throw (by simp [NotInsufficient]))
              (.ite (.throw (by simp [NotInsufficient])) (.pure _))
      · intro record
        refine .ite (.throw (by simp [NotInsufficient])) (.bind .get ?_)
        intro ledger
        refine .bind (.okOr _ (by simp [NotInsufficient])) fun _ => ?_
        exact .bind (.update _) fun _ => .bind (.update _) fun _ => .update _

theorem raisesFrom_processClose {nullifierPdas : List Address}
    (h : Solvent env.runtime.treeRentMinimum ledger) : RaisesFrom NotInsufficient ledger
      (processCloseNullifierPdas env address recipient nullifierPdas : PoolM HEIGHT K Unit) := by
  refine .bind_keeps (keeps_checkReimbursementRecipient recipient)
    (raises_checkReimbursementRecipient recipient) fun _ => ?_
  intro e after hrun
  split at hrun
  case isTrue =>
    cases hrun
    simp [NotInsufficient]
  case isFalse =>
    have htakes : Raises NotInsufficient (takeClose nullifierPdas.length :
        EStateM ProgramError (TreeAccountLayout HEIGHT K) _) :=
      .bind .get fun _ => .bind (.update _) fun _ => .bind (.within .treeError _) fun _ => .pure _
    refine RaisesFrom.bind (.of_raises (.bind (raises_checkTreeAccount .treeError address) fun _ =>
      .zoom (by simp [NotInsufficient]) htakes) ledger) ?_ hrun
    intro result taken htake
    obtain ⟨treeId, closeBeforeIndex, paid⟩ := result
    obtain ⟨tree, tree', htree, hrunTake, rfl⟩ := run_withTree_ok htake
    cases hrunTake
    refine .bind (.of_raises (raises_closePdas _ _ _ _) _) ?_
    intro _ closed hclose
    have hloaded : (ledger.setData address (.tree (tree.afterClose nullifierPdas.length))).tree address
        = some (tree.afterClose nullifierPdas.length) := by
      rw [Ledger.tree_setData, if_pos rfl]
    have hcloses := run_closePdas_closes hloaded hclose
    have hnotPda : address ∉ nullifierPdas := by
      intro hmem
      obtain ⟨record, hrecord, _⟩ := hcloses.wasPda address hmem
      rw [Ledger.nullifierPda, Ledger.setData_self] at hrecord
      cases hrecord
    refine raisesFrom_payReimbursement ?_
    have hpaid := tree.reimbursement_le tree.fees.closeReimbursement nullifierPdas.length
    have hsolvent := h address tree htree
    have hle := hcloses.lamports_le address hnotPda
    rw [Ledger.lamports_setData] at hle
    have howed : env.runtime.treeRentMinimum
        + tree.reimbursement tree.fees.closeReimbursement nullifierPdas.length
          ≤ closed.lamports address := by
      omega
    exact howed

/-! ### Fee and pause instructions -/

theorem Solvent.setData (h : Solvent rent ledger) (htree : ledger.tree address = some tree)
    (hbalance : tree'.feeBalance ≤ tree.feeBalance) : Solvent rent (ledger.setData address (.tree tree')) := by
  refine h.of_tree (Ledger.tree_setData _ _ _) (fun a other _ _ => ?_) ?_
  · rw [Ledger.lamports_setData]
  · rw [Ledger.lamports_setData]
    exact Nat.le_trans (Nat.add_le_add_left hbalance rent) (h address tree htree)

end Payments

/-! ### Tree creation -/

theorem treeCreationLamports_ge {params : NullifierTreeInitParams} {treeRent pdaRent lamports : Nat}
    (h : treeCreationLamports params treeRent pdaRent = some lamports) : treeRent ≤ lamports := by
  obtain ⟨workingCapital, _, hadd⟩ := Option.bind_eq_some_iff.mp h
  obtain ⟨_, rfl⟩ := checkedAdd_eq_some_iff.mp hadd
  exact Nat.le_add_right _ _

theorem Solvent.setOther (h : Solvent rent ledger) (address : Address) :
    Solvent rent (ledger.setData address (.other true)) := by
  intro a tree htree
  rw [Ledger.lamports_setData]
  by_cases ha : a = address
  · subst ha
    rw [Ledger.tree, Ledger.setData_self] at htree
    cases htree
  · rw [Ledger.tree, Ledger.setData_of_ne ha] at htree
    exact h a tree htree

/-! ### Runs -/

theorem ledgerInvariant_solvent (env : SystemEnv HEIGHT K) :
    LedgerInvariant env (Solvent env.pool.runtime.treeRentMinimum) where
  spends := spendInvariant_solvent env.pool
  batchUpdate address recipient data := by
    intro ledger event ledger' hrun h
    obtain ⟨tree, cascade, nullifier, htree, hne, _, _, hmoved⟩ := run_processBatchUpdate_ok hrun
    have hpaid := tree.updateReimbursement_le cascade
    refine h.pay htree ?_ hne (Ledger.tree_setData _ _ _) ?_ hmoved
    · exact Nat.le_of_eq (Nat.sub_add_cancel hpaid)
    · intro a other _
      rw [Ledger.lamports_setData]
  close address recipient nullifierPdas := by
    intro ledger _ ledger' hrun h
    obtain ⟨tree, closed, htree, hne, _, hcloses, hmoved⟩ := run_processClose_ok hrun
    have hpaid := tree.reimbursement_le tree.fees.closeReimbursement nullifierPdas.length
    refine h.pay htree ?_ hne (fun a => (hcloses.trees a).trans (Ledger.tree_setData _ _ _ a)) ?_ hmoved
    · exact Nat.le_of_eq (Nat.sub_add_cancel hpaid)
    · intro a other hother
      have hnotPda : a ∉ nullifierPdas := by
        intro hmem
        have hdata := hcloses.unused a hmem
        rw [Ledger.tree_eq_some.mp hother] at hdata
        cases hdata
      have hle := hcloses.lamports_le a hnotPda
      rwa [Ledger.lamports_setData] at hle
  setTreeFees address fees := by
    intro ledger _ ledger' hrun h
    obtain ⟨tree, htree, _, rfl⟩ := run_processSetTreeFees_ok hrun
    exact h.setData htree (Nat.le_refl _)
  claimTreeLamports address recipient := by
    intro ledger _ ledger' hrun h
    obtain ⟨tree, reserve, paid, htree, hne, hcovers, hminimum, hmoved⟩ := run_processClaim_ok hrun
    refine h.of_tree (fun a => (hmoved.tree a).trans (Ledger.tree_setData _ _ _ a)) (fun a other ha _ => ?_)
      (Nat.le_trans hcovers hminimum)
    have hle := hmoved.le_lamports ha
    rwa [Ledger.lamports_setData] at hle
  pauseTree address paused := by
    intro ledger _ ledger' hrun h
    obtain ⟨tree, htree, rfl⟩ := run_processPauseTree_ok hrun
    exact h.setData htree (Nat.le_refl _)
  transfer sender receiver lamports := by
    intro ledger _ ledger' hrun h
    obtain ⟨hunused, hmoved⟩ := run_transfer_ok hrun
    exact h.moved hmoved fun _ => hunused
  createTree {payer authority address ixData result system system'} hrun _ h := by
    obtain ⟨data, lamports, mid, _, _, hlamports, hbegin, hfinish⟩ := run_processCreateTree_ok hrun
    have hmid : Solvent env.create.treeRentMinimum mid.ledger ∧ (mid.ledger address).data ≠ .unused := by
      rcases hbegin with ⟨hbegins, _⟩ | ⟨hcontinues, _⟩
      · obtain ⟨amount, hmoved, hunused⟩ := hbegins.ledger
        refine ⟨(h.setOther address).moved hmoved hunused, ?_⟩
        rw [hmoved.data, Ledger.data_setData, if_pos rfl]
        nofun
      · rw [hcontinues.ledger]
        refine ⟨h, ?_⟩
        rw [hcontinues.owned]
        nofun
    rcases run_finishTree_ok hfinish with ⟨_, rfl, _⟩ | ⟨bytes, layout, funded, _, hfinishes⟩
    · exact hmid.1
    · obtain ⟨amount, hmoved, hunused⟩ := hfinishes.funds
      rw [hfinishes.result]
      refine (hmid.1.moved hmoved hunused).of_tree (Ledger.tree_setData _ _ _) (fun a other _ _ => ?_) ?_
      · rw [Ledger.lamports_setData]
      · rw [(run_treeInit_ok hfinishes.init).feeBalance, Ledger.lamports_setData, Nat.add_zero]
        exact Nat.le_trans (treeCreationLamports_ge hlamports) (hfinishes.lamports hmid.2)

theorem SystemReachable.solvent {env : SystemEnv HEIGHT K} {run : SystemRun HEIGHT K}
    (h : SystemReachable env run) : Solvent env.pool.runtime.treeRentMinimum run.system.ledger := by
  refine (ledgerInvariant_solvent env).reachable ?_ h
  intro system hgenesis a tree htree
  rw [hgenesis.tree a] at htree
  cases htree

end Zolana
