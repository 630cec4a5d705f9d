import Zolana.Pool.System
import Zolana.Proof.Creation

/-!
# The kind of an account

Only tree creation makes an account a tree, or takes one for the program without being a nullifier PDA.
Every other instruction leaves the kind of every account as it is, whatever it writes into it.
-/

namespace Zolana

open Fallible

variable {HEIGHT K : Nat} {env : PoolEnv} {ledger ledger' : Ledger HEIGHT K}

inductive AccountKind where
  | tree
  /-- Owned by the program, with neither discriminator. -/
  | program
  | plain
  deriving DecidableEq, Repr

/-- A nullifier PDA comes from an unused account and goes back to one. -/
def AccountData.kind : AccountData HEIGHT K → AccountKind
  | .tree _ => .tree
  | .other true => .program
  | .unused | .nullifierPda _ | .other false => .plain

def Ledger.kinds (ledger : Ledger HEIGHT K) (address : Address) : AccountKind :=
  (ledger address).data.kind

theorem AccountData.kind_eq_program {data : AccountData HEIGHT K} :
    data.kind = .program ↔ data = .other true := by
  cases data with
  | other owned => cases owned <;> simp [kind]
  | _ => simp [kind]

theorem Ledger.kinds_eq_tree {address : Address} :
    ledger.kinds address = .tree ↔ (ledger.tree address).isSome := by
  unfold kinds tree
  cases (ledger address).data with
  | other owned => cases owned <;> simp [AccountData.kind]
  | _ => simp [AccountData.kind]

theorem lamportFree_kinds : LamportFree (Ledger.kinds : Ledger HEIGHT K → _) := by
  intro address lamports ledger
  funext a
  by_cases ha : a = address
  · subst ha
    simp [Ledger.kinds, Ledger.setLamports]
  · simp [Ledger.kinds, Ledger.setLamports, ha]

theorem Ledger.kinds_setData {address : Address} {data : AccountData HEIGHT K}
    (h : data.kind = ledger.kinds address) : (ledger.setData address data).kinds = ledger.kinds := by
  funext a
  rw [kinds, data_setData]
  split
  case isTrue ha =>
    subst ha
    exact h
  case isFalse => rfl

theorem Moved.kinds {sender receiver : Address} {amount : Nat}
    (h : Moved sender receiver amount ledger ledger') : ledger'.kinds = ledger.kinds := by
  funext a
  rw [Ledger.kinds, h.data, Ledger.kinds]

/-! ### Steps -/

section Steps

variable {α : Type} {mapError : TreeError → ProgramError} {address : Address}
variable {act : EStateM ProgramError (TreeAccountLayout HEIGHT K) α}

theorem Ledger.kinds_setData_tree {tree : TreeAccountLayout HEIGHT K}
    (h : ledger.tree address = some tree) (tree' : TreeAccountLayout HEIGHT K) :
    (ledger.setData address (.tree tree')).kinds = ledger.kinds := by
  refine kinds_setData ?_
  rw [AccountData.kind, eq_comm, kinds_eq_tree, h]
  rfl

theorem keepsKinds_withTree : Keeps Ledger.kinds (withTree mapError address act) := by
  intro ledger a ledger' h
  obtain ⟨tree, tree', htree, _, rfl⟩ := run_withTree_ok h
  exact Ledger.kinds_setData_tree htree tree'

theorem keepsKinds_withTreeAllowPaused : Keeps Ledger.kinds (withTreeAllowPaused mapError address act) := by
  intro ledger a ledger' h
  obtain ⟨tree, tree', htree, _, rfl⟩ := run_withTreeAllowPaused_ok h
  exact Ledger.kinds_setData_tree htree tree'

variable {runtime : Runtime}

theorem keepsKinds_createPdas (treeMinimum : Nat) (inputTree : InputTreeResult) (position : Nat)
    (nullifierPdas : List (Address × Bytes32)) : Keeps Ledger.kinds
      (createPdas runtime treeMinimum inputTree position nullifierPdas : PoolM HEIGHT K Unit) := by
  induction nullifierPdas generalizing position with
  | nil => exact .pure _
  | cons entry nullifierPdas ih =>
      obtain ⟨nullifierPda, nullifier⟩ := entry
      refine .bind (.okOr _ _) fun queueIndex => ?_
      refine .bind ?_ fun _ => .bind (lamportFree_kinds.topUp _ _ _ _) fun _ => ih _
      intro ledger _ ledger' h
      obtain ⟨_, hunused, rfl⟩ := run_initNullifierPda_ok h
      refine Ledger.kinds_setData ?_
      rw [Ledger.kinds, hunused]
      rfl

theorem keepsKinds_createNullifierPdas (payer : Address) (nullifierPdas : List (Address × Bytes32))
    (inputTree : InputTreeResult) : Keeps Ledger.kinds
      (createNullifierPdas runtime payer nullifierPdas inputTree : PoolM HEIGHT K Unit) :=
  .bind (.okOr _ _) fun _ => .bind (lamportFree_kinds.collectTreeFee _ _ _) fun _ =>
    keepsKinds_createPdas _ _ _ _

theorem keepsKinds_applyTrees (payer : Address) (inputs : List InputUtxo) (nullifierPdas : List Address)
    (treeIndex : Nat) (trees : List (Address × TreeContext × Nat)) : Keeps Ledger.kinds
      (applyTrees env payer inputs nullifierPdas treeIndex trees : PoolM HEIGHT K _) := by
  induction trees generalizing treeIndex with
  | nil => exact .pure _
  | cons entry trees ih =>
      obtain ⟨address, context, count⟩ := entry
      refine .bind keepsKinds_withTree fun queued => ?_
      refine .bind (keepsKinds_createNullifierPdas _ _ _) fun _ => ?_
      exact .bind (ih _) fun _ => .pure _

theorem keepsKinds_closePdas (treeId : UInt16) (closeBeforeIndex : Nat) (tree : Address)
    (nullifierPdas : List Address) : Keeps Ledger.kinds
      (closePdas treeId closeBeforeIndex tree nullifierPdas : PoolM HEIGHT K Unit) := by
  induction nullifierPdas with
  | nil => exact .pure _
  | cons nullifierPda nullifierPdas ih =>
      refine .bind ?_ fun _ => ih
      intro ledger _ ledger' h
      obtain ⟨record, _, hload, h⟩ := of_run_bind h
      obtain ⟨hrecord, _, _, rfl⟩ := run_loadNullifierPda_ok hload
      obtain ⟨-, h⟩ := of_run_check h
      replace h := of_run_get_bind h
      obtain ⟨balance, _, h⟩ := of_run_okOr_bind h
      cases h
      have hkinds : ((ledger.setLamports tree balance).setLamports nullifierPda 0).kinds = ledger.kinds := by
        rw [lamportFree_kinds, lamportFree_kinds]
      rw [Ledger.kinds_setData ?_, hkinds]
      rw [hkinds, Ledger.kinds, Ledger.nullifierPda_eq_some.mp hrecord]
      rfl

end Steps

/-! ### Instructions -/

theorem keepsKinds_processTransact (accounts : TransactAccounts) (ix : TransactIx) (clock : Clock) :
    Keeps Ledger.kinds (processTransact env accounts ix clock : PoolM HEIGHT K _) := by
  intro ledger result ledger' hrun
  obtain ⟨event, proof⟩ := result
  obtain ⟨counts, queued, flags, applied, write, fee, appended, proofInputs, hcounts, _, hinputs,
    houtput, hfee, _, _, _, _⟩ := run_processTransact_ok hrun
  obtain ⟨trees, _, _, _, _, happly, _⟩ := run_applyInputTrees_cases hcounts hinputs
  rw [lamportFree_kinds.collectTreeFee _ _ _ hfee, keepsKinds_withTree houtput,
    keepsKinds_applyTrees _ _ _ _ _ happly]

theorem keepsKinds_processMerge (accounts : MergeAccounts) (ix : MergeIx) (clock : Clock) :
    Keeps Ledger.kinds (processMerge env accounts ix clock : PoolM HEIGHT K _) := by
  intro ledger result ledger' hrun
  obtain ⟨event, proof⟩ := result
  obtain ⟨queued, queuedLedger, created, write, fee, appended, proofInputs, _, hqueue, hcreate,
    houtput, hfee, _, _, _, _⟩ := run_processMerge_ok hrun
  rw [lamportFree_kinds.collectTreeFee _ _ _ hfee, keepsKinds_withTree houtput,
    keepsKinds_createNullifierPdas _ _ _ hcreate, keepsKinds_withTree hqueue]

theorem keepsKinds_process (instruction : Instruction) :
    Keeps Ledger.kinds (process env instruction : PoolM HEIGHT K _) := by
  cases instruction with
  | transact accounts ix clock => exact .bind (keepsKinds_processTransact _ _ _) fun _ => .pure _
  | merge accounts ix clock => exact .bind (keepsKinds_processMerge _ _ _) fun _ => .pure _
  | batchUpdateNullifierTree tree recipient data =>
      refine .bind ?_ fun _ => .pure _
      intro ledger event ledger' hrun
      obtain ⟨before, cascade, nullifier, htree, _, _, _, hmoved⟩ := run_processBatchUpdate_ok hrun
      rw [hmoved.kinds, Ledger.kinds_setData_tree htree]
  | closeNullifierPdas tree recipient nullifierPdas =>
      refine .bind ?_ fun _ => .pure _
      intro ledger _ ledger' hrun
      obtain ⟨_, mid, hrecipient, hrest⟩ := of_run_bind hrun
      rw [(keeps_checkReimbursementRecipient recipient).state_eq hrecipient] at hrest
      obtain ⟨-, hrest⟩ := of_run_check hrest
      obtain ⟨taken, _, htake, hrest⟩ := of_run_bind hrest
      obtain ⟨_, _, hclose, hpay⟩ := of_run_bind hrest
      rw [lamportFree_kinds.payReimbursement _ _ _ _ hpay, keepsKinds_closePdas _ _ _ _ hclose,
        keepsKinds_withTree htake]

theorem keepsKinds_processClaim (runtime : Runtime) (tree recipient : Address) : Keeps Ledger.kinds
      (processClaimTreeLamports runtime tree recipient : PoolM HEIGHT K Unit) := by
  intro ledger _ ledger' hrun
  obtain ⟨before, reserve, paid, htree, _, _, _, hmoved⟩ := run_processClaim_ok hrun
  rw [hmoved.kinds, Ledger.kinds_setData_tree htree]

end Zolana
