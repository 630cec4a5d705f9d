import Zolana.Lib.Effects
import Zolana.Pool.Protocol

/-!
# The ledger steps and the spend view

Which steps of a processor change the spend view, and how. Lamports never do, so fees, rent and
reimbursements drop out; a loaded tree changes one entry, and so does a PDA that is opened or closed.
-/

namespace Zolana

open Fallible

variable {HEIGHT K : Nat} {ledger ledger' : Ledger HEIGHT K}

/-! ### Writes to one account -/

theorem Ledger.spendView_setLamports (address : Address) (lamports : Nat)
    (ledger : Ledger HEIGHT K) : (ledger.setLamports address lamports).spendView = ledger.spendView := by
  have hdata : ∀ a, ((ledger.setLamports address lamports) a).data = (ledger a).data := by
    intro a
    by_cases ha : a = address
    · subst ha
      simp [setLamports]
    · simp [setLamports, ha]
  unfold spendView
  congr 1
  · funext a
    simp only [tree, hdata]
  · funext a
    simp only [nullifierPda, hdata]

theorem Ledger.setData_self (address : Address) (data : AccountData HEIGHT K)
    (ledger : Ledger HEIGHT K) : (ledger.setData address data address).data = data := by
  simp [setData]

variable {address : Address} {tree : TreeAccountLayout HEIGHT K} {α : Type}

theorem Ledger.setData_of_ne {a : Address} (h : a ≠ address) (data : AccountData HEIGHT K)
    (ledger : Ledger HEIGHT K) : ledger.setData address data a = ledger a := by
  simp [setData, h]

theorem Ledger.tree_eq_some : ledger.tree address = some tree ↔ (ledger address).data = .tree tree := by
  unfold Ledger.tree
  cases (ledger address).data <;> simp

theorem Ledger.nullifierPda_eq_some {record : NullifierPda} :
    ledger.nullifierPda address = some record ↔ (ledger address).data = .nullifierPda record := by
  unfold Ledger.nullifierPda
  cases (ledger address).data <;> simp

theorem Ledger.spendView_setData (ledger : Ledger HEIGHT K) (address : Address) (data : AccountData HEIGHT K) :
    (ledger.setData address data).spendView =
      ⟨Function.update ledger.spendView.side address ((ledger.setData address data).spendView.side address),
        Function.update ledger.spendView.pda address ((ledger.setData address data).spendView.pda address)⟩ := by
  unfold spendView
  congr 1
  · funext a
    by_cases ha : a = address
    · rw [ha, Function.update_self]
    · simp [Ledger.tree, Ledger.setData_of_ne ha, ha]
  · funext a
    by_cases ha : a = address
    · rw [ha, Function.update_self]
    · simp [Ledger.nullifierPda, Ledger.setData_of_ne ha, ha]

theorem Ledger.spendView_setData_tree (h : ledger.tree address = some tree)
    (tree' : TreeAccountLayout HEIGHT K) : (ledger.setData address (.tree tree')).spendView
      = ⟨Function.update ledger.spendView.side address (some tree'.side), ledger.spendView.pda⟩ := by
  rw [spendView_setData]
  congr 1
  · simp [spendView, Ledger.tree, Ledger.setData_self]
  · simp [spendView, Ledger.nullifierPda, Ledger.setData_self, Ledger.tree_eq_some.mp h]

theorem Ledger.spendView_setData_pda (h : (ledger address).data = .unused) (record : NullifierPda) :
    (ledger.setData address (.nullifierPda record)).spendView
      = ⟨ledger.spendView.side, Function.update ledger.spendView.pda address (some record)⟩ := by
  rw [spendView_setData]
  congr 1
  · simp [spendView, Ledger.tree, Ledger.setData_self, h]
  · simp [spendView, Ledger.nullifierPda, Ledger.setData_self]

theorem Ledger.spendView_setData_unused {record : NullifierPda}
    (h : ledger.nullifierPda address = some record) : (ledger.setData address .unused).spendView
      = ⟨ledger.spendView.side, Function.update ledger.spendView.pda address none⟩ := by
  rw [spendView_setData]
  congr 1
  · simp [spendView, Ledger.tree, Ledger.setData_self, Ledger.nullifierPda_eq_some.mp h]
  · simp [spendView, Ledger.nullifierPda, Ledger.setData_self]

/-! ### Lamports -/

def LamportFree {υ : Type} (view : Ledger HEIGHT K → υ) : Prop :=
  ∀ address lamports ledger, view (ledger.setLamports address lamports) = view ledger

theorem lamportFree_spendView : LamportFree (Ledger.spendView : Ledger HEIGHT K → SpendView K) :=
  Ledger.spendView_setLamports

namespace LamportFree

variable {υ : Type} {view : Ledger HEIGHT K → υ}

theorem transfer (h : LamportFree view) (sender receiver : Address) (lamports : Nat) :
    Keeps view (Zolana.transfer sender receiver lamports) := by
  apply Keeps.bind .get
  intro ledger
  apply Keeps.ite (.throw _)
  apply Keeps.bind (.update fun s => h _ _ s)
  intro _
  exact .update fun s => h _ _ s

theorem collectTreeFee (h : LamportFree view) (payer tree : Address) (amount : Nat) :
    Keeps view (Zolana.collectTreeFee payer tree amount) :=
  .ite (.pure _) (h.transfer payer tree amount)

theorem topUp (h : LamportFree view) (runtime : Runtime) (treeMinimum : Nat) (tree nullifierPda : Address) :
    Keeps view (Zolana.topUp runtime treeMinimum tree nullifierPda) := by
  apply Keeps.bind .get
  intro ledger
  apply Keeps.ite (.pure _)
  apply Keeps.ite (.throw _)
  apply Keeps.bind (.update fun s => h _ _ s)
  intro _
  exact .update fun s => h _ _ s

theorem payReimbursement (h : LamportFree view) (runtime : Runtime) (tree recipient : Address)
    (paid : Nat) : Keeps view (Zolana.payReimbursement runtime tree recipient paid) := by
  apply Keeps.ite (.pure _)
  apply Keeps.bind .get
  intro ledger
  apply Keeps.ite (.throw _)
  apply Keeps.bind (.okOr _ _)
  intro recipientBalance
  apply Keeps.bind (.update fun s => h _ _ s)
  intro _
  exact .update fun s => h _ _ s

end LamportFree

/-! ### Checks -/

theorem keeps_loadChecked (mapError : TreeError → ProgramError) (address : Address) :
    Keeps id (loadChecked mapError address : PoolM HEIGHT K _) := by
  apply Keeps.bind .get
  intro ledger
  split
  · exact .throw _
  · exact .throw _
  · exact .throw _
  · exact .throw _
  · exact .bind (.mapErr _ _) fun _ => .pure _

theorem keeps_checkTreeAccount (mapError : TreeError → ProgramError) (address : Address) :
    Keeps id (checkTreeAccount mapError address : PoolM HEIGHT K Unit) :=
  .bind (keeps_loadChecked mapError address) fun _ => .ite (.throw _) (.pure _)

variable {mapError : TreeError → ProgramError}

theorem raises_checkTreeAccount {P : ProgramError → Prop} (h : ∀ e, P (mapError e))
    (address : Address) : Raises P (checkTreeAccount mapError address : PoolM HEIGHT K Unit) := by
  refine .bind (.bind .get ?_) fun _ => .ite (.throw (h _)) (.pure _)
  intro ledger
  cases (ledger address).data with
  | unused => exact .throw (h _)
  | tree tree => exact .bind (.mapErr h _) fun _ => .pure _
  | nullifierPda record => exact .throw (h _)
  | other owned =>
      cases owned with
      | true => exact .throw (h _)
      | false => exact .throw (h _)

theorem keeps_checkReimbursementRecipient (recipient : Address) :
    Keeps id (checkReimbursementRecipient recipient : PoolM HEIGHT K Unit) := by
  apply Keeps.bind .get
  intro ledger
  split
  · exact .throw _
  · exact .throw _
  · exact .throw _
  · exact .pure _
  · exact .pure _

theorem keeps_checkFieldElements (values : List Bytes32) (error : ShieldedPoolError) :
    Keeps id (checkFieldElements values error : PoolM HEIGHT K Unit) :=
  .ite (.pure _) (.throw _)

theorem keeps_checkNonzeroFieldElements (values : List Bytes32) (error : ShieldedPoolError) :
    Keeps id (checkNonzeroFieldElements values error : PoolM HEIGHT K Unit) :=
  .ite (.throw _) (.pure _)

theorem keeps_checkNotExpired (expiryUnixTs : Nat) (clock : Clock) :
    Keeps id (checkNotExpired expiryUnixTs clock : PoolM HEIGHT K Unit) :=
  .ite (.throw _) (.pure _)

/-! ### A loaded tree -/

theorem run_withTree_ok {act : EStateM ProgramError (TreeAccountLayout HEIGHT K) α} {a : α}
    (h : (withTree mapError address act).run ledger = .ok a ledger') :
    ∃ tree tree', ledger.tree address = some tree ∧ act.run tree = .ok a tree' ∧
      ledger' = ledger.setData address (.tree tree') := by
  obtain ⟨_, mid, hcheck, hact⟩ := of_run_bind h
  rw [(keeps_checkTreeAccount mapError address).state_eq hcheck] at hact
  exact run_zoom_eq_ok_iff.mp hact

theorem keeps_withTree {act : EStateM ProgramError (TreeAccountLayout HEIGHT K) α}
    (hact : Keeps TreeAccountLayout.side act) : Keeps Ledger.spendView (withTree mapError address act) := by
  intro ledger a ledger' h
  obtain ⟨tree, tree', htree, hrun, rfl⟩ := run_withTree_ok h
  have hside : ledger.spendView.side address = some tree.side := by
    simp [Ledger.spendView, htree]
  rw [Ledger.spendView_setData_tree htree, hact hrun, ← hside, Function.update_eq_self]

/-- What `TreeAccount::init` checks and leaves behind. -/
structure TreeInit (height : Nat) (treeId : UInt16) (params : NullifierTreeInitParams)
    (fees : TreeFeeSchedule) (blank tree : TreeAccountLayout HEIGHT K) : Prop where
  validParams : params.validate K = .ok ()
  validFees : fees.validate = .ok ()
  id : tree.treeId = treeId
  schedule : tree.fees = fees
  feeBalance : tree.feeBalance = 0
  liveNullifierPdas : tree.liveNullifierPdas = 0
  utxo : (UtxoTreeLayout.init height).run blank.utxo = .ok () tree.utxo
  nullifier : (NullifierTreeLayout.init false params.inputQueueBatchSize params.inputQueueZkpBatchSize
    params.height).run blank.nullifier = .ok () tree.nullifier

theorem run_treeInit_ok {height : Nat} {treeId : UInt16} {params : NullifierTreeInitParams}
    {fees : TreeFeeSchedule} {blank : TreeAccountLayout HEIGHT K}
    (h : (TreeAccountLayout.init height treeId params fees).run blank = .ok () tree) :
    TreeInit height treeId params fees blank tree := by
  unfold TreeAccountLayout.init at h
  obtain ⟨-, h⟩ := of_run_check h
  obtain ⟨_, hvalid, h⟩ := of_run_mapErr_bind h
  obtain ⟨_, hschedule, h⟩ := of_run_mapErr_bind h
  replace h := of_run_get_bind h
  obtain ⟨-, h⟩ := of_run_check h
  obtain ⟨_, _, hmodify, h⟩ := of_run_bind h
  cases hmodify
  replace h := of_run_get_bind h
  split at h
  case h_1 hutxo hnullifier =>
    cases h
    exact ⟨hvalid, hschedule, rfl, rfl, rfl, rfl, hutxo, hnullifier⟩
  case h_2 => cases h
  case h_3 => cases h

theorem keeps_creditTreeFee :
    Keeps TreeAccountLayout.side (TreeAccountLayout.creditTreeFee : TreeAccountM HEIGHT K Nat) := by
  intro tree fee tree' h
  simp only [TreeAccountLayout.creditTreeFee] at h
  obtain ⟨tree₀, _, hget, h⟩ := of_run_bind h
  cases hget
  obtain ⟨feeBalance, _, h⟩ := of_run_okOr_bind h
  cases h
  rfl

theorem keeps_treeMethod {ε : Type} {mapError : ε → ProgramError}
    {method : EStateM ε (TreeAccountLayout HEIGHT K) α} (h : Keeps TreeAccountLayout.side method) :
    Keeps TreeAccountLayout.side (treeMethod mapError method) := by
  intro tree a tree' hrun
  obtain ⟨tree'', hmethod, rfl⟩ := run_within_eq_ok_iff.mp hrun
  exact h hmethod

theorem keeps_creditOutputTreeFee (isInputTree : Bool) : Keeps TreeAccountLayout.side
      (creditOutputTreeFee isInputTree :
        EStateM ProgramError (TreeAccountLayout HEIGHT K) Nat) :=
  .ite (.pure _) (keeps_treeMethod keeps_creditTreeFee)

theorem keeps_takeReimbursement (rate count : Nat) : Keeps TreeAccountLayout.side
      (TreeAccountLayout.takeReimbursement rate count : TreeAccountM HEIGHT K Nat) := by
  intro tree paid tree' h
  cases h
  rfl

theorem keeps_utxoMethod (method : UtxoTreeM HEIGHT α) : Keeps TreeAccountLayout.side
      (utxoMethod method : EStateM ProgramError (TreeAccountLayout HEIGHT K) α) :=
  .within fun _ _ => rfl

theorem keeps_applyOutputTree (hashv : Hashv) (outputTree : Address) (outputs : List Bytes32)
    (slot : Nat) (isInputTree : Bool) : Keeps Ledger.spendView
      (applyOutputTree hashv outputTree outputs slot isInputTree :
        PoolM HEIGHT K (TreeWrite × Nat)) := by
  apply keeps_withTree
  apply Keeps.bind .get
  intro tree
  apply Keeps.bind (keeps_utxoMethod _)
  intro _
  have hwrite : ∀ treeFee, Keeps TreeAccountLayout.side (do
      let outputTreeId := (← get).treeId
      pure (⟨tree.utxo.nextIndex, outputTreeId⟩, treeFee) :
        EStateM ProgramError (TreeAccountLayout HEIGHT K) (TreeWrite × Nat)) :=
    fun _ => Keeps.bind .get fun _ => .pure _
  exact .ite (.bind (.pure _) hwrite) (.bind (keeps_creditOutputTreeFee isInputTree) hwrite)

theorem keeps_applyMergeOutput (hashv : Hashv) (outputTree : Address) (outputUtxoHash : Bytes32)
    (slot : Nat) (isInputTree : Bool) : Keeps Ledger.spendView
      (applyMergeOutput hashv outputTree outputUtxoHash slot isInputTree :
        PoolM HEIGHT K (MergeTreeWrite × Nat)) := by
  apply keeps_withTree
  apply Keeps.bind .get
  intro tree
  apply Keeps.bind .get
  intro tree'
  apply Keeps.bind (keeps_utxoMethod _)
  intro _
  exact Keeps.bind (keeps_creditOutputTreeFee isInputTree) fun _ => .pure _

end Zolana
