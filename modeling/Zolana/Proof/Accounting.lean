import Zolana.Pool.Admin
import Zolana.Proof.PoolProcess

/-!
# Who pays and who is paid

What the steps of a processor do to the lamports of every account and to the fees of a tree. Each lemma
states the whole effect of its step, so that solvency, the fees of a spend and the reimbursements all
come from the same description.
-/

namespace Zolana

open Fallible

variable {HEIGHT K : Nat} {ledger ledger' : Ledger HEIGHT K}

/-! ### Lamports of an account -/

namespace Ledger

def lamports (ledger : Ledger HEIGHT K) (address : Address) : Nat := (ledger address).lamports

theorem lamports_setLamports (address : Address) (amount : Nat) (ledger : Ledger HEIGHT K) (a : Address) :
    (ledger.setLamports address amount).lamports a = if a = address then amount else ledger.lamports a := by
  by_cases ha : a = address
  · subst ha
    simp [lamports, setLamports]
  · simp [lamports, setLamports, ha]

@[simp] theorem data_setLamports (address : Address) (amount : Nat) (ledger : Ledger HEIGHT K)
    (a : Address) : ((ledger.setLamports address amount) a).data = (ledger a).data := by
  by_cases ha : a = address
  · subst ha
    simp [setLamports]
  · simp [setLamports, ha]

@[simp] theorem lamports_setData (address : Address) (data : AccountData HEIGHT K)
    (ledger : Ledger HEIGHT K) (a : Address) :
    (ledger.setData address data).lamports a = ledger.lamports a := by
  by_cases ha : a = address
  · subst ha
    simp [lamports, setData]
  · simp [lamports, setData, ha]

theorem data_setData (address : Address) (data : AccountData HEIGHT K) (ledger : Ledger HEIGHT K)
    (a : Address) : ((ledger.setData address data) a).data = if a = address then data else (ledger a).data := by
  by_cases ha : a = address
  · subst ha
    simp [setData]
  · simp [setData, ha]

theorem tree_congr {a : Address} (h : (ledger' a).data = (ledger a).data) : ledger'.tree a = ledger.tree a := by
  rw [tree, tree, h]

theorem tree_setData (address : Address) (layout : TreeAccountLayout HEIGHT K)
    (ledger : Ledger HEIGHT K) (a : Address) : (ledger.setData address (.tree layout)).tree a
      = if a = address then some layout else ledger.tree a := by
  by_cases ha : a = address
  · subst ha
    simp [tree, setData]
  · simp [tree, setData, ha]

end Ledger

/-- Lamports that moved from one account to another, with every account's data as it was. -/
structure Moved (sender receiver : Address) (amount : Nat) (ledger ledger' : Ledger HEIGHT K) : Prop where
  data : ∀ a, (ledger' a).data = (ledger a).data
  enough : amount ≤ ledger.lamports sender
  lamports : ∀ a, ledger'.lamports a
    = ledger.lamports a - (if a = sender then amount else 0) + (if a = receiver then amount else 0)

namespace Moved

variable {sender receiver : Address} {amount : Nat}

theorem zero (sender receiver : Address) (ledger : Ledger HEIGHT K) :
    Moved sender receiver 0 ledger ledger where
  data _ := rfl
  enough := Nat.zero_le _
  lamports a := by simp

section

variable (h : Moved sender receiver amount ledger ledger')

include h

theorem tree (a : Address) : ledger'.tree a = ledger.tree a :=
  Ledger.tree_congr (h.data a)

theorem lamports_of_ne {a : Address} (hsender : a ≠ sender) (hreceiver : a ≠ receiver) :
    ledger'.lamports a = ledger.lamports a := by
  rw [h.lamports, if_neg hsender, if_neg hreceiver]
  omega

theorem lamports_receiver (hne : receiver ≠ sender) :
    ledger'.lamports receiver = ledger.lamports receiver + amount := by
  rw [h.lamports, if_neg hne, if_pos rfl]
  omega

theorem lamports_sender (hne : sender ≠ receiver) :
    ledger'.lamports sender = ledger.lamports sender - amount := by
  rw [h.lamports, if_pos rfl, if_neg hne]
  omega

theorem le_lamports {a : Address} (hne : a ≠ sender) : ledger.lamports a ≤ ledger'.lamports a := by
  rw [h.lamports, if_neg hne]
  omega

end

end Moved

theorem run_transfer_ok {sender receiver : Address} {amount : Nat}
    (h : (transfer sender receiver amount).run ledger = .ok () ledger') :
    (ledger sender).data = .unused ∧ Moved sender receiver amount ledger ledger' := by
  replace h := of_run_get_bind h
  obtain ⟨hguard, h⟩ := of_run_check h
  obtain ⟨hunused, henough⟩ := not_or.mp hguard
  cases h
  refine ⟨not_not.mp hunused, ?_, Nat.le_of_not_lt henough, ?_⟩
  · intro a
    rw [Ledger.data_setLamports, Ledger.data_setLamports]
  · intro a
    have hsame : ∀ b, ((ledger.setLamports sender ((ledger sender).lamports - amount)) b).lamports
        = if b = sender then (ledger sender).lamports - amount else (ledger b).lamports :=
      Ledger.lamports_setLamports _ _ _
    rw [Ledger.lamports_setLamports, Ledger.lamports_setLamports, hsame]
    simp only [Ledger.lamports]
    by_cases hreceiver : a = receiver <;> by_cases hsender : a = sender <;>
      simp_all

theorem run_collectTreeFee_ok {payer tree : Address} {amount : Nat}
    (h : (collectTreeFee payer tree amount).run ledger = .ok () ledger') :
    Moved payer tree amount ledger ledger' ∧ (amount ≠ 0 → (ledger payer).data = .unused) := by
  unfold collectTreeFee at h
  split at h
  case isTrue hzero =>
    cases h
    rw [hzero]
    exact ⟨.zero payer tree ledger, fun hne => absurd rfl hne⟩
  case isFalse =>
    obtain ⟨hunused, hmoved⟩ := run_transfer_ok h
    exact ⟨hmoved, fun _ => hunused⟩

theorem run_payReimbursementWithRentMinimum_ok {tree recipient : Address} {paid rentMinimum : Nat}
    (hne : recipient ≠ tree)
    (h : (payReimbursementWithRentMinimum tree recipient paid rentMinimum).run ledger
      = .ok () ledger') :
    Moved tree recipient paid ledger ledger' ∧ rentMinimum ≤ ledger'.lamports tree := by
  replace h := of_run_get_bind h
  obtain ⟨hguard, h⟩ := of_run_check h
  obtain ⟨henough, hminimum⟩ := not_or.mp hguard
  obtain ⟨balance, hadd, h⟩ := of_run_okOr_bind h
  obtain ⟨_, rfl⟩ := checkedAdd_eq_some_iff.mp hadd
  cases h
  refine ⟨⟨?_, Nat.le_of_not_lt henough, ?_⟩, ?_⟩
  · intro a
    rw [Ledger.data_setLamports, Ledger.data_setLamports]
  · intro a
    rw [Ledger.lamports_setLamports, Ledger.lamports_setLamports]
    simp only [Ledger.lamports]
    by_cases hrecipient : a = recipient <;> by_cases htree : a = tree <;> simp_all
  · rw [Ledger.lamports_setLamports, if_neg hne.symm, Ledger.lamports_setLamports, if_pos rfl]
    exact Nat.le_of_not_lt hminimum

theorem payReimbursement_eq (runtime : Runtime) (tree recipient : Address) (paid : Nat) :
    (payReimbursement runtime tree recipient paid : PoolM HEIGHT K Unit) = if paid = 0 then pure ()
        else payReimbursementWithRentMinimum tree recipient paid runtime.treeRentMinimum := rfl

theorem run_payReimbursement_ok {runtime : Runtime} {tree recipient : Address} {paid : Nat}
    (hne : recipient ≠ tree) (h : (payReimbursement runtime tree recipient paid).run ledger = .ok () ledger') :
    Moved tree recipient paid ledger ledger' := by
  rw [payReimbursement_eq] at h
  split at h
  case isTrue hzero =>
    cases h
    rw [hzero]
    exact .zero tree recipient ledger
  case isFalse => exact (run_payReimbursementWithRentMinimum_ok hne h).1

/-! ### Funding the PDAs -/

theorem run_topUp_ok {runtime : Runtime} {treeMinimum : Nat} {tree nullifierPda : Address}
    (hne : nullifierPda ≠ tree)
    (h : (topUp runtime treeMinimum tree nullifierPda).run ledger = .ok () ledger') :
    ∃ missing, Moved tree nullifierPda missing ledger ledger' ∧
      (missing = 0 ∨ treeMinimum ≤ ledger'.lamports tree) := by
  replace h := of_run_get_bind h
  dsimp only at h
  split at h
  case isTrue =>
    cases h
    exact ⟨0, .zero tree nullifierPda ledger, .inl rfl⟩
  case isFalse hmissing =>
    obtain ⟨hguard, h⟩ := of_run_check h
    obtain ⟨henough, hminimum⟩ := not_or.mp hguard
    cases h
    refine ⟨runtime.nullifierPdaRentMinimum - (ledger nullifierPda).lamports,
      ⟨?_, Nat.le_of_not_lt henough, ?_⟩, .inr ?_⟩
    · intro a
      rw [Ledger.data_setLamports, Ledger.data_setLamports]
    · intro a
      rw [Ledger.lamports_setLamports, Ledger.lamports_setLamports]
      simp only [Ledger.lamports]
      by_cases hpda : a = nullifierPda
      · subst hpda
        rw [if_pos rfl, if_neg hne, if_pos rfl]
        omega
      · rw [if_neg hpda, if_neg hpda]
        by_cases htree : a = tree <;> simp [htree]
    · rw [Ledger.lamports_setLamports, if_neg hne.symm, Ledger.lamports_setLamports,
        if_pos rfl]
      exact Nat.le_of_not_lt hminimum

/-- The rent of new PDAs: it comes from their tree, and leaves the tree its minimum. -/
structure FundsPdas (tree : Address) (treeMinimum : Nat) (pdas : List Address)
    (ledger ledger' : Ledger HEIGHT K) : Prop where
  trees : ∀ a, ledger'.tree a = ledger.tree a
  others : ∀ a, a ≠ tree → a ∉ pdas → ledger'.lamports a = ledger.lamports a
  unused : ∀ pda ∈ pdas, (ledger pda).data = .unused
  kept : ∀ a, a ∉ pdas → (ledger' a).data = (ledger a).data
  nodup : pdas.Nodup
  minimum : ledger'.lamports tree = ledger.lamports tree ∨ treeMinimum ≤ ledger'.lamports tree

theorem run_createPdas_funds {runtime : Runtime} {treeMinimum position : Nat}
    {inputTree : InputTreeResult} {nullifierPdas : List (Address × Bytes32)}
    {layout : TreeAccountLayout HEIGHT K} (htree : ledger.tree inputTree.tree = some layout)
    (h : (createPdas runtime treeMinimum inputTree position nullifierPdas).run ledger
      = .ok () ledger') :
    FundsPdas inputTree.tree treeMinimum (nullifierPdas.map (·.1)) ledger ledger' := by
  induction nullifierPdas generalizing position ledger with
  | nil =>
      cases h
      exact ⟨fun _ => rfl, fun _ _ _ => rfl, fun _ hmem => (List.not_mem_nil hmem).elim,
        fun _ _ => rfl, List.nodup_nil, .inl rfl⟩
  | cons entry nullifierPdas ih =>
      obtain ⟨nullifierPda, nullifier⟩ := entry
      obtain ⟨queueIndex, _, h⟩ := of_run_okOr_bind h
      obtain ⟨_, opened, hinit, h⟩ := of_run_bind h
      obtain ⟨_, funded, htopUp, hrest⟩ := of_run_bind h
      obtain ⟨_, hunused, rfl⟩ := run_initNullifierPda_ok hinit
      have hne : nullifierPda ≠ inputTree.tree := by
        rintro rfl
        rw [Ledger.tree_eq_some.mp htree] at hunused
        cases hunused
      obtain ⟨missing, hmoved, hminimum⟩ := run_topUp_ok hne htopUp
      -- Neither the new record nor its rent touches a tree account.
      have hdata : ∀ a, a ≠ nullifierPda → (funded a).data = (ledger a).data := by
        intro a ha
        rw [hmoved.data, Ledger.data_setData, if_neg ha]
      have htrees : ∀ a, funded.tree a = ledger.tree a := by
        intro a
        by_cases ha : a = nullifierPda
        · subst ha
          rw [hmoved.tree, Ledger.tree, Ledger.tree, Ledger.setData_self, hunused]
        · exact Ledger.tree_congr (hdata a ha)
      have hfunds := ih ((htrees inputTree.tree).trans htree) hrest
      refine ⟨?_, ?_, ?_, ?_, ?_, ?_⟩
      · intro a
        rw [hfunds.trees, htrees]
      · intro a hother hmem
        rw [List.map_cons, List.mem_cons, not_or] at hmem
        rw [hfunds.others a hother hmem.2, hmoved.lamports_of_ne hother hmem.1,
          Ledger.lamports_setData]
      · intro pda hmem
        rcases List.mem_cons.mp hmem with rfl | hmem
        · exact hunused
        · have hlater := hfunds.unused pda hmem
          by_cases hsame : pda = nullifierPda
          · subst hsame
            exact hunused
          · rwa [hdata pda hsame] at hlater
      · intro a hmem
        rw [List.map_cons, List.mem_cons, not_or] at hmem
        rw [hfunds.kept a hmem.2, hdata a hmem.1]
      · refine List.nodup_cons.mpr ⟨?_, hfunds.nodup⟩
        intro hmem
        have hlater := hfunds.unused nullifierPda hmem
        rw [hmoved.data, Ledger.setData_self] at hlater
        cases hlater
      · rcases hfunds.minimum with hsame | hmin
        · rw [hsame]
          rcases hminimum with rfl | hmin
          · left
            rw [hmoved.lamports_sender hne.symm, Ledger.lamports_setData]
            rfl
          · exact .inr hmin
        · exact .inr hmin

/-- The fee goes from the payer to the tree before the tree pays any rent. -/
theorem run_createNullifierPdas_funds {runtime : Runtime} {payer : Address}
    {inputTree : InputTreeResult} {nullifierPdas : List (Address × Bytes32)}
    {layout : TreeAccountLayout HEIGHT K} (htree : ledger.tree inputTree.tree = some layout)
    (h : (createNullifierPdas runtime payer nullifierPdas inputTree).run ledger = .ok () ledger') :
    ∃ collected, Moved payer inputTree.tree inputTree.treeFee ledger collected ∧
      (inputTree.treeFee ≠ 0 → (ledger payer).data = .unused) ∧
      FundsPdas inputTree.tree (runtime.treeRentMinimum + inputTree.feeBalance)
        (nullifierPdas.map (·.1)) collected ledger' := by
  obtain ⟨treeMinimum, hadd, h⟩ := of_run_okOr_bind h
  obtain ⟨_, rfl⟩ := checkedAdd_eq_some_iff.mp hadd
  obtain ⟨_, collected, hfee, hcreate⟩ := of_run_bind h
  obtain ⟨hmoved, hunused⟩ := run_collectTreeFee_ok hfee
  exact ⟨collected, hmoved, hunused,
    run_createPdas_funds ((hmoved.tree inputTree.tree).trans htree) hcreate⟩

/-! ### A loaded tree -/

section Tree

variable {tree tree' : TreeAccountLayout HEIGHT K}

theorem run_creditTreeFee_ok {fee : Nat} (h : TreeAccountLayout.creditTreeFee.run tree = .ok fee tree') :
    fee = tree.fees.feePerTree ∧ tree.feeBalance + fee < 2 ^ 64 ∧
      tree' = { tree with feeBalance := tree.feeBalance + fee } := by
  replace h := of_run_get_bind h
  obtain ⟨feeBalance, hsome, h⟩ := of_run_okOr_bind h
  obtain ⟨hlt, rfl⟩ := checkedAdd_eq_some_iff.mp hsome
  cases h
  exact ⟨rfl, hlt, rfl⟩

theorem run_treeMethod_ok {ε α : Type} {mapError : ε → ProgramError}
    {method : EStateM ε (TreeAccountLayout HEIGHT K) α} {a : α}
    (h : (treeMethod mapError method).run tree = .ok a tree') : method.run tree = .ok a tree' := by
  obtain ⟨_, hmethod, rfl⟩ := run_within_eq_ok_iff.mp h
  exact hmethod

/-- A tree after its inputs were queued. -/
def TreeAccountLayout.afterQueue (tree : TreeAccountLayout HEIGHT K)
    (nullifier : NullifierTreeLayout K) (count : Nat) : TreeAccountLayout HEIGHT K :=
  { tree with
    nullifier
    feeBalance := tree.feeBalance + tree.fees.feePerTree
    liveNullifierPdas := saturatingAdd tree.liveNullifierPdas count }

theorem run_queueInputs_books {hashv : Hashv} {address : Address} {nullifiers : List Bytes32}
    {count : Nat} {resolve : TreeAccountLayout HEIGHT K → Except TreeError TreeSlot} {queued : QueuedInputs}
    (h : (queueInputs hashv address resolve nullifiers count).run tree = .ok queued tree') :
    ∃ nullifier, (insertNullifiers hashv nullifiers).run tree.nullifier = .ok () nullifier ∧
      tree.feeBalance + tree.fees.feePerTree < 2 ^ 64 ∧
      tree' = tree.afterQueue nullifier count ∧
      queued.result = ⟨address, tree.nullifier.queueNextIndex, tree.fees.feePerTree,
        tree.feeBalance + tree.fees.feePerTree, tree.treeId⟩ := by
  replace h := of_run_get_bind h
  obtain ⟨headroom, _, h⟩ := of_run_mapErr_bind h
  obtain ⟨slot, _, h⟩ := of_run_mapErr_bind h
  obtain ⟨_, inserted, hinsert, h⟩ := of_run_bind h
  obtain ⟨nullifier, hinserted, rfl⟩ := run_within_eq_ok_iff.mp hinsert
  obtain ⟨treeFee, credited, hcredit, h⟩ := of_run_bind h
  obtain ⟨rfl, hlt, rfl⟩ := run_creditTreeFee_ok (run_treeMethod_ok hcredit)
  cases h
  exact ⟨nullifier, hinserted, hlt, rfl, rfl⟩

theorem run_queue_funds {env : PoolEnv} {payer address : Address} {nullifiers : List Bytes32} {count : Nat}
    {resolve : TreeAccountLayout HEIGHT K → Except TreeError TreeSlot} {queued : QueuedInputs}
    {nullifierPdas : List (Address × Bytes32)} {mid : Ledger HEIGHT K}
    (hqueue : (withTree treeError address
      (queueInputs env.tree.hashv address resolve nullifiers count)).run ledger = .ok queued mid)
    (hcreate : (createNullifierPdas env.runtime payer nullifierPdas queued.result).run mid = .ok () ledger') :
    ∃ tree nullifier collected, ledger.tree address = some tree ∧
      (insertNullifiers env.tree.hashv nullifiers).run tree.nullifier = .ok () nullifier ∧
      queued.result = ⟨address, tree.nullifier.queueNextIndex, tree.fees.feePerTree,
        tree.feeBalance + tree.fees.feePerTree, tree.treeId⟩ ∧
      Moved payer address tree.fees.feePerTree
        (ledger.setData address (.tree (tree.afterQueue nullifier count))) collected ∧
      (tree.fees.feePerTree ≠ 0 →
        (ledger.setData address (.tree (tree.afterQueue nullifier count)) payer).data = .unused) ∧
      FundsPdas address (env.runtime.treeRentMinimum + (tree.feeBalance + tree.fees.feePerTree))
        (nullifierPdas.map (·.1)) collected ledger' ∧
      ∀ a, ledger'.tree a = if a = address then some (tree.afterQueue nullifier count) else ledger.tree a := by
  obtain ⟨tree, tree', htree, hrun, rfl⟩ := run_withTree_ok hqueue
  obtain ⟨nullifier, hinserted, _, rfl, hresult⟩ := run_queueInputs_books hrun
  rw [hresult] at hcreate
  have hloaded := (Ledger.tree_setData address (tree.afterQueue nullifier count) ledger address).trans (if_pos rfl)
  obtain ⟨collected, hmoved, hunused, hfunds⟩ := run_createNullifierPdas_funds hloaded hcreate
  refine ⟨tree, nullifier, collected, htree, hinserted, hresult, hmoved, hunused, hfunds, fun a => ?_⟩
  rw [hfunds.trees, hmoved.tree, Ledger.tree_setData]

/-- A tree after its outputs were appended, with the fee that was credited. -/
def TreeAccountLayout.afterAppend (tree : TreeAccountLayout HEIGHT K) (utxo : UtxoTreeLayout HEIGHT)
    (fee : Nat) : TreeAccountLayout HEIGHT K :=
  { tree with utxo, feeBalance := tree.feeBalance + fee }

theorem run_creditOutputTreeFee_ok {isInputTree : Bool} {fee : Nat}
    (h : (creditOutputTreeFee isInputTree).run tree = .ok fee tree') :
    fee = (if isInputTree then 0 else tree.fees.feePerTree) ∧ (fee = 0 ∨ tree.feeBalance + fee < 2 ^ 64) ∧
      tree' = { tree with feeBalance := tree.feeBalance + fee } := by
  unfold creditOutputTreeFee at h
  split at h
  case isTrue hinput =>
    cases h
    rw [if_pos hinput]
    exact ⟨rfl, .inl rfl, rfl⟩
  case isFalse hinput =>
    obtain ⟨rfl, hlt, rfl⟩ := run_creditTreeFee_ok (run_treeMethod_ok h)
    rw [if_neg hinput]
    exact ⟨rfl, .inr hlt, rfl⟩

/-- The fee an output tree takes: once for each written tree. -/
def outputFee (tree : TreeAccountLayout HEIGHT K) (outputs : List Bytes32) (isInputTree : Bool) : Nat :=
  if outputs = [] ∨ isInputTree then 0 else tree.fees.feePerTree

end Tree

theorem run_applyOutputTree_ok {hashv : Hashv} {outputTree : Address} {outputs : List Bytes32}
    {slot fee : Nat} {isInputTree : Bool} {write : TreeWrite}
    (h : (applyOutputTree hashv outputTree outputs slot isInputTree).run ledger
      = .ok (write, fee) ledger') :
    ∃ tree utxo, ledger.tree outputTree = some tree ∧
      (UtxoTreeLayout.appendBatch hashv outputs slot).run tree.utxo = .ok () utxo ∧
      fee = outputFee tree outputs isInputTree ∧
      write = ⟨tree.utxo.nextIndex, tree.treeId⟩ ∧
      ledger' = ledger.setData outputTree (.tree (tree.afterAppend utxo fee)) := by
  obtain ⟨tree, tree', htree, hrun, rfl⟩ := run_withTree_ok h
  replace hrun := of_run_get_bind hrun
  obtain ⟨_, appended, happend, hrun⟩ := of_run_bind hrun
  obtain ⟨utxo, hutxo, rfl⟩ := run_within_eq_ok_iff.mp happend
  split at hrun
  case isTrue hnone =>
    cases hrun
    refine ⟨tree, utxo, htree, hutxo, ?_, rfl, rfl⟩
    rw [outputFee, if_pos (.inl hnone)]
  case isFalse hsome =>
    obtain ⟨treeFee, credited, hcredit, hrun⟩ := of_run_bind hrun
    obtain ⟨rfl, _, rfl⟩ := run_creditOutputTreeFee_ok hcredit
    cases hrun
    refine ⟨tree, utxo, htree, hutxo, ?_, rfl, rfl⟩
    simp [outputFee, hsome]

theorem run_applyMergeOutput_ok {hashv : Hashv} {outputTree : Address} {outputUtxoHash : Bytes32}
    {slot fee : Nat} {isInputTree : Bool} {write : MergeTreeWrite}
    (h : (applyMergeOutput hashv outputTree outputUtxoHash slot isInputTree).run ledger
      = .ok (write, fee) ledger') :
    ∃ tree utxo, ledger.tree outputTree = some tree ∧
      (UtxoTreeLayout.append hashv outputUtxoHash slot).run tree.utxo = .ok () utxo ∧
      fee = outputFee tree [outputUtxoHash] isInputTree ∧
      write = ⟨tree.utxo.nextIndex, tree.treeId⟩ ∧
      ledger' = ledger.setData outputTree (.tree (tree.afterAppend utxo fee)) := by
  obtain ⟨tree, tree', htree, hrun, rfl⟩ := run_withTree_ok h
  replace hrun := of_run_get_bind hrun
  replace hrun := of_run_get_bind hrun
  obtain ⟨_, appended, happend, hrun⟩ := of_run_bind hrun
  obtain ⟨utxo, hutxo, rfl⟩ := run_within_eq_ok_iff.mp happend
  obtain ⟨treeFee, credited, hcredit, hrun⟩ := of_run_bind hrun
  obtain ⟨rfl, _, rfl⟩ := run_creditOutputTreeFee_ok hcredit
  cases hrun
  refine ⟨tree, utxo, htree, hutxo, ?_, rfl, rfl⟩
  simp [outputFee]

/-! ### Reimbursements -/

section Reimbursements

variable {env : PoolEnv} {address recipient : Address}

/-- A reimbursement is what is owed, up to the fee balance. -/
def TreeAccountLayout.reimbursement (tree : TreeAccountLayout HEIGHT K) (rate count : Nat) : Nat :=
  min (saturatingMul rate count) tree.feeBalance

def TreeAccountLayout.afterPaying (tree : TreeAccountLayout HEIGHT K) (paid : Nat) :
    TreeAccountLayout HEIGHT K :=
  { tree with feeBalance := tree.feeBalance - paid }

theorem TreeAccountLayout.reimbursement_le (tree : TreeAccountLayout HEIGHT K) (rate count : Nat) :
    tree.reimbursement rate count ≤ tree.feeBalance :=
  Nat.min_le_right _ _

/-- What a batch update pays: an append for each ZKP batch of its cascade. -/
def TreeAccountLayout.updateReimbursement (tree : TreeAccountLayout HEIGHT K)
    (cascade : NullifierTreeLayout.Cascade) : Nat :=
  match cascade.event with
  | none => 0
  | some event => tree.reimbursement tree.fees.appendReimbursement event.numUpdate

theorem TreeAccountLayout.updateReimbursement_le (tree : TreeAccountLayout HEIGHT K)
    (cascade : NullifierTreeLayout.Cascade) : tree.updateReimbursement cascade ≤ tree.feeBalance := by
  unfold updateReimbursement
  split
  · exact Nat.zero_le _
  · exact tree.reimbursement_le _ _

theorem run_checkReimbursementRecipient_ok
    (h : (checkReimbursementRecipient recipient).run ledger = .ok () ledger') :
    ledger.tree recipient = none ∧ ledger.nullifierPda recipient = none ∧ ledger = ledger' := by
  replace h := of_run_get_bind h
  split at h
  case h_1 => cases h
  case h_2 => cases h
  case h_3 => cases h
  case h_4 hdata =>
    cases h
    simp [Ledger.tree, Ledger.nullifierPda, hdata]
  case h_5 hdata =>
    cases h
    simp [Ledger.tree, Ledger.nullifierPda, hdata]

theorem run_updateNullifierTree_books {data : InstructionDataBatchNullifyInputs}
    {tree tree' : TreeAccountLayout HEIGHT K} {result : Option (NullifierTreeUpdateEvent × Nat)}
    (h : (updateNullifierTree env.tree address data).run tree = .ok result tree') : ∃ cascade nullifier,
      (NullifierTreeLayout.updateTreeFromQueue env.tree address data).run tree.nullifier
        = .ok cascade nullifier ∧
      result = cascade.event.map (fun event => (event, tree.updateReimbursement cascade)) ∧
      tree' = { tree with nullifier }.afterPaying (tree.updateReimbursement cascade) := by
  obtain ⟨cascade, updated, hupdate, h⟩ := of_run_bind h
  obtain ⟨nullifier, hrun, rfl⟩ := run_within_eq_ok_iff.mp hupdate
  refine ⟨cascade, nullifier, hrun, ?_⟩
  cases hevent : cascade.event with
  | none =>
      rw [hevent] at h
      cases h
      simp [TreeAccountLayout.updateReimbursement, TreeAccountLayout.afterPaying, hevent]
  | some event =>
      rw [hevent] at h
      obtain ⟨paid, taken, htake, hpure⟩ := of_run_bind h
      cases hpure
      cases run_treeMethod_ok htake
      simp only [TreeAccountLayout.updateReimbursement, hevent]
      exact ⟨rfl, rfl⟩

/-- An accepted batch update: the update, and the payment of its reimbursement. -/
theorem run_processBatchUpdate_ok {data : InstructionDataBatchNullifyInputs}
    {event : Option NullifierTreeUpdateEvent}
    (h : (processBatchUpdateNullifierTree env address recipient data).run ledger
      = .ok event ledger') :
    ∃ tree cascade nullifier, ledger.tree address = some tree ∧ recipient ≠ address ∧
      (NullifierTreeLayout.updateTreeFromQueue env.tree address data).run tree.nullifier
        = .ok cascade nullifier ∧ event = cascade.event ∧
      Moved address recipient (tree.updateReimbursement cascade)
        (ledger.setData address
          (.tree ({ tree with nullifier }.afterPaying (tree.updateReimbursement cascade)))) ledger' := by
  obtain ⟨_, _, hrecipient, h⟩ := of_run_bind h
  obtain ⟨hnotTree, _, rfl⟩ := run_checkReimbursementRecipient_ok hrecipient
  obtain ⟨result, updated, hupdate, h⟩ := of_run_bind h
  obtain ⟨tree, tree', htree, hrun, rfl⟩ := run_withTree_ok hupdate
  obtain ⟨cascade, nullifier, hcascade, rfl, rfl⟩ := run_updateNullifierTree_books hrun
  have hne : recipient ≠ address := by
    rintro rfl
    rw [htree] at hnotTree
    cases hnotTree
  refine ⟨tree, cascade, nullifier, htree, hne, hcascade, ?_⟩
  cases hevent : cascade.event with
  | none =>
      rw [hevent] at h
      cases h
      have hzero : tree.updateReimbursement cascade = 0 := by
        rw [TreeAccountLayout.updateReimbursement, hevent]
      rw [hzero]
      exact ⟨rfl, .zero address recipient _⟩
  | some event =>
      rw [hevent] at h
      obtain ⟨_, reimbursed, hpay, hpure⟩ := of_run_bind h
      cases hpure
      exact ⟨rfl, run_payReimbursement_ok hne hpay⟩

/-- Closed PDAs of a tree: their lamports go to the tree, and nothing else moves. -/
structure ClosesPdas (treeId : UInt16) (tree : Address) (pdas : List Address)
    (ledger ledger' : Ledger HEIGHT K) : Prop where
  trees : ∀ a, ledger'.tree a = ledger.tree a
  lamports_le : ∀ a, a ∉ pdas → ledger.lamports a ≤ ledger'.lamports a
  others : ∀ a, a ≠ tree → a ∉ pdas → ledger'.lamports a = ledger.lamports a
  kept : ∀ a, a ∉ pdas → (ledger' a).data = (ledger a).data
  wasPda : ∀ pda ∈ pdas, ∃ record, ledger.nullifierPda pda = some record ∧ record.treeId = treeId
  unused : ∀ pda ∈ pdas, (ledger' pda).data = .unused
  nodup : pdas.Nodup

namespace ClosesPdas

variable {treeId : UInt16} {tree : Address} {pdas pdas' : List Address}

theorem nil (treeId : UInt16) (tree : Address) (ledger : Ledger HEIGHT K) :
    ClosesPdas treeId tree [] ledger ledger where
  trees _ := rfl
  lamports_le _ _ := Nat.le_refl _
  others _ _ _ := rfl
  kept _ _ := rfl
  wasPda _ hmem := (List.not_mem_nil hmem).elim
  unused _ hmem := (List.not_mem_nil hmem).elim
  nodup := List.nodup_nil

/-- A closed account is no PDA any more, so it is not closed again. -/
theorem disjoint {mid : Ledger HEIGHT K} (h : ClosesPdas treeId tree pdas ledger mid)
    (h' : ClosesPdas treeId tree pdas' mid ledger') : pdas.Disjoint pdas' := by
  intro pda hmem hmem'
  obtain ⟨record, hrecord, _⟩ := h'.wasPda pda hmem'
  have hdata := h.unused pda hmem
  rw [Ledger.nullifierPda_eq_some.mp hrecord] at hdata
  cases hdata

theorem append {mid : Ledger HEIGHT K} (h : ClosesPdas treeId tree pdas ledger mid)
    (h' : ClosesPdas treeId tree pdas' mid ledger') : ClosesPdas treeId tree (pdas ++ pdas') ledger ledger' where
  trees a := (h'.trees a).trans (h.trees a)
  lamports_le a hmem := by
    rw [List.mem_append, not_or] at hmem
    exact Nat.le_trans (h.lamports_le a hmem.1) (h'.lamports_le a hmem.2)
  others a ha hmem := by
    rw [List.mem_append, not_or] at hmem
    rw [h'.others a ha hmem.2, h.others a ha hmem.1]
  kept a hmem := by
    rw [List.mem_append, not_or] at hmem
    rw [h'.kept a hmem.2, h.kept a hmem.1]
  wasPda pda hmem := by
    by_cases hfirst : pda ∈ pdas
    · exact h.wasPda pda hfirst
    · obtain ⟨record, hrecord, hid⟩ := h'.wasPda pda ((List.mem_append.mp hmem).resolve_left hfirst)
      refine ⟨record, Ledger.nullifierPda_eq_some.mpr ?_, hid⟩
      rw [← h.kept pda hfirst]
      exact Ledger.nullifierPda_eq_some.mp hrecord
  unused pda hmem := by
    by_cases hlast : pda ∈ pdas'
    · exact h'.unused pda hlast
    · rw [h'.kept pda hlast]
      exact h.unused pda ((List.mem_append.mp hmem).resolve_right hlast)
  nodup := h.nodup.append h'.nodup (h.disjoint h')

end ClosesPdas

theorem run_closeNullifierPda_closes {treeId : UInt16} {closeBeforeIndex : Nat} {nullifierPda : Address}
    {layout : TreeAccountLayout HEIGHT K} (htree : ledger.tree address = some layout)
    (h : (closeNullifierPda treeId closeBeforeIndex address nullifierPda).run ledger
      = .ok () ledger') :
    ClosesPdas treeId address [nullifierPda] ledger ledger' := by
  obtain ⟨record, _, hload, h⟩ := of_run_bind h
  obtain ⟨hrecord, hid, rfl⟩ := run_loadNullifierPda_ok hload
  have hpda := Ledger.nullifierPda_eq_some.mp hrecord
  have hne : nullifierPda ≠ address := by
    rintro rfl
    rw [Ledger.tree_eq_some.mp htree] at hpda
    cases hpda
  obtain ⟨-, h⟩ := of_run_check h
  replace h := of_run_get_bind h
  obtain ⟨balance, hadd, h⟩ := of_run_okOr_bind h
  obtain ⟨_, rfl⟩ := checkedAdd_eq_some_iff.mp hadd
  cases h
  refine ⟨?_, ?_, ?_, ?_, ?_, ?_, List.nodup_singleton _⟩
  · intro a
    by_cases ha : a = nullifierPda
    · subst ha
      rw [Ledger.tree, Ledger.tree, Ledger.setData_self, hpda]
    · apply Ledger.tree_congr
      rw [Ledger.data_setData, if_neg ha, Ledger.data_setLamports, Ledger.data_setLamports]
  · intro a hmem
    rw [List.mem_singleton] at hmem
    rw [Ledger.lamports_setData, Ledger.lamports_setLamports, if_neg hmem,
      Ledger.lamports_setLamports]
    by_cases ha : a = address
    · subst ha
      rw [if_pos rfl]
      exact Nat.le_add_right _ _
    · rw [if_neg ha]
  · intro a ha hmem
    rw [List.mem_singleton] at hmem
    rw [Ledger.lamports_setData, Ledger.lamports_setLamports, if_neg hmem,
      Ledger.lamports_setLamports, if_neg ha]
  · intro a hmem
    rw [List.mem_singleton] at hmem
    rw [Ledger.data_setData, if_neg hmem, Ledger.data_setLamports, Ledger.data_setLamports]
  · intro pda hmem
    exact ⟨record, List.mem_singleton.mp hmem ▸ hrecord, hid⟩
  · intro pda hmem
    obtain rfl := List.mem_singleton.mp hmem
    rw [Ledger.data_setData, if_pos rfl]

theorem run_closePdas_closes {treeId : UInt16} {closeBeforeIndex : Nat} {nullifierPdas : List Address}
    {layout : TreeAccountLayout HEIGHT K} (htree : ledger.tree address = some layout)
    (h : (closePdas treeId closeBeforeIndex address nullifierPdas).run ledger = .ok () ledger') :
    ClosesPdas treeId address nullifierPdas ledger ledger' := by
  induction nullifierPdas generalizing ledger with
  | nil =>
      cases h
      exact .nil treeId address _
  | cons nullifierPda nullifierPdas ih =>
      obtain ⟨_, closed, hfirst, hrest⟩ := of_run_bind h
      have hone := run_closeNullifierPda_closes htree hfirst
      exact hone.append (ih ((hone.trees address).trans htree) hrest)

/-- A tree after its record of `closed` PDAs, with the reimbursement taken. -/
def TreeAccountLayout.afterClose (tree : TreeAccountLayout HEIGHT K) (closed : Nat) :
    TreeAccountLayout HEIGHT K :=
  (recordNullifierPdasClosed closed tree).afterPaying
    (tree.reimbursement tree.fees.closeReimbursement closed)

/-- An accepted close: the PDAs, and the payment of the reimbursement. -/
theorem run_processClose_ok {nullifierPdas : List Address}
    (h : (processCloseNullifierPdas env address recipient nullifierPdas).run ledger
      = .ok () ledger') :
    ∃ tree closed, ledger.tree address = some tree ∧ recipient ≠ address ∧
      recipient ∉ nullifierPdas ∧
      ClosesPdas tree.treeId address nullifierPdas
        (ledger.setData address (.tree (tree.afterClose nullifierPdas.length))) closed ∧
      Moved address recipient (tree.reimbursement tree.fees.closeReimbursement nullifierPdas.length)
        closed ledger' := by
  obtain ⟨_, _, hrecipient, h⟩ := of_run_bind h
  obtain ⟨hnotTree, hnotPda, rfl⟩ := run_checkReimbursementRecipient_ok hrecipient
  obtain ⟨-, h⟩ := of_run_check h
  obtain ⟨⟨treeId, closeBeforeIndex, paid⟩, taken, htake, h⟩ := of_run_bind h
  obtain ⟨_, closed, hclose, hpay⟩ := of_run_bind h
  obtain ⟨tree, tree', htree, hrun, rfl⟩ := run_withTree_ok htake
  have hne : recipient ≠ address := by
    rintro rfl
    rw [htree] at hnotTree
    cases hnotTree
  cases hrun
  have hloaded : (ledger.setData address (.tree (tree.afterClose nullifierPdas.length))).tree address
      = some (tree.afterClose nullifierPdas.length) := by
    rw [Ledger.tree_setData, if_pos rfl]
  have hcloses := run_closePdas_closes hloaded hclose
  refine ⟨tree, closed, htree, hne, ?_, hcloses, run_payReimbursement_ok hne hpay⟩
  intro hmem
  obtain ⟨record, hrecord, _⟩ := hcloses.wasPda recipient hmem
  have hdata := Ledger.nullifierPda_eq_some.mp hrecord
  rw [Ledger.data_setData, if_neg hne] at hdata
  rw [Ledger.nullifierPda_eq_some.mpr hdata] at hnotPda
  cases hnotPda

/-! ### Fee and pause instructions -/

theorem run_withTreeAllowPaused_ok {α : Type} {mapError : TreeError → ProgramError}
    {act : EStateM ProgramError (TreeAccountLayout HEIGHT K) α} {a : α}
    (h : (withTreeAllowPaused mapError address act).run ledger = .ok a ledger') :
    ∃ tree tree', ledger.tree address = some tree ∧ act.run tree = .ok a tree' ∧
      ledger' = ledger.setData address (.tree tree') := by
  obtain ⟨_, mid, hcheck, hact⟩ := of_run_bind h
  rw [(keeps_loadChecked mapError address).state_eq hcheck] at hact
  exact run_zoom_eq_ok_iff.mp hact

theorem run_processSetTreeFees_ok {fees : TreeFeeSchedule}
    (h : (processSetTreeFees address fees).run ledger = .ok () ledger') :
    ∃ tree, ledger.tree address = some tree ∧ fees.validate = .ok () ∧
      ledger' = ledger.setData address (.tree { tree with fees }) := by
  obtain ⟨tree, tree', htree, hset, rfl⟩ := run_withTreeAllowPaused_ok h
  obtain ⟨_, _, hvalid, hset⟩ := of_run_bind (run_treeMethod_ok hset)
  obtain ⟨hschedule, rfl⟩ := run_mapErr_eq_ok_iff.mp hvalid
  cases hset
  exact ⟨tree, htree, hschedule, rfl⟩

theorem run_processPauseTree_ok {paused : Bool}
    (h : (processPauseTree address paused).run ledger = .ok () ledger') :
    ∃ tree, ledger.tree address = some tree ∧
      ledger' = ledger.setData address (.tree (tree.setPaused paused)) := by
  obtain ⟨tree, tree', htree, hset, rfl⟩ := run_withTreeAllowPaused_ok h
  cases hset
  exact ⟨tree, htree, rfl⟩

theorem run_claimReserve_ok {runtime : Runtime} {reserve : Nat}
    (h : (claimReserve runtime).run tree = .ok reserve tree') :
    tree' = tree.releaseFeeSurplus ∧ runtime.treeRentMinimum + tree'.feeBalance ≤ reserve := by
  obtain ⟨_, _, hrelease, h⟩ := of_run_bind h
  cases hrelease
  replace h := of_run_get_bind h
  obtain ⟨workingCapital, _, h⟩ := of_run_okOr_bind h
  obtain ⟨covered, hadd, h⟩ := of_run_okOr_bind h
  obtain ⟨_, rfl⟩ := checkedAdd_eq_some_iff.mp hadd
  obtain ⟨htotal, rfl⟩ := run_okOr_eq_ok_iff.mp h
  obtain ⟨_, rfl⟩ := checkedAdd_eq_some_iff.mp htotal
  exact ⟨rfl, Nat.le_add_right _ _⟩

/-- An accepted claim: the surplus is released, and everything above the reserve is paid. -/
theorem run_processClaim_ok {runtime : Runtime}
    (h : (processClaimTreeLamports runtime address recipient).run ledger = .ok () ledger') :
    ∃ tree reserve paid, ledger.tree address = some tree ∧ recipient ≠ address ∧
      runtime.treeRentMinimum + tree.releaseFeeSurplus.feeBalance ≤ reserve ∧
      reserve ≤ ledger'.lamports address ∧
      Moved address recipient paid (ledger.setData address (.tree tree.releaseFeeSurplus)) ledger' := by
  obtain ⟨_, _, hrecipient, h⟩ := of_run_bind h
  obtain ⟨hnotTree, _, rfl⟩ := run_checkReimbursementRecipient_ok hrecipient
  obtain ⟨reserve, released, hreserve, h⟩ := of_run_bind h
  obtain ⟨tree, tree', htree, hrun, rfl⟩ := run_withTreeAllowPaused_ok hreserve
  obtain ⟨rfl, hcovers⟩ := run_claimReserve_ok hrun
  replace h := of_run_get_bind h
  have hne : recipient ≠ address := by
    rintro rfl
    rw [htree] at hnotTree
    cases hnotTree
  dsimp only at h
  obtain ⟨-, h⟩ := of_run_check h
  obtain ⟨hmoved, hminimum⟩ := run_payReimbursementWithRentMinimum_ok hne h
  exact ⟨tree, reserve, _, htree, hne, hcovers, hminimum, hmoved⟩

end Reimbursements

end Zolana
