import Zolana.Proof.InputFlags
import Zolana.Proof.PoolLedger

/-!
# Spends follow the protocol

An accepted transact or merge is a sequence of queue events of the spend protocol, one for each input
tree, that queue exactly the nullifiers of the instruction and that its verified proof covers.
-/

namespace Zolana

open Fallible

variable {HEIGHT K : Nat} {env : PoolEnv} {ledger ledger' : Ledger HEIGHT K}

/-! ### Nullifier PDAs -/

section Pdas

variable {runtime : Runtime} {tree : Address} {treeId : UInt16} {first : Nat}

theorem CreatesPdas.nil (pda : Address → Option NullifierPda) :
    CreatesPdas runtime tree treeId first [] pda pda where
  nodup := List.nodup_nil
  created k nullifier h := by cases h
  kept _ _ h := h

theorem CreatesPdas.cons {nullifier : Bytes32} {nullifiers : List Bytes32} {address : Address}
    {pda pda' : Address → Option NullifierPda}
    (haddress : runtime.nullifierPdaAddress tree nullifier = some address) (hfresh : pda address = none)
    (hrest : CreatesPdas runtime tree treeId (first + 1) nullifiers
      (Function.update pda address (some ⟨first, treeId⟩)) pda') :
    CreatesPdas runtime tree treeId first (nullifier :: nullifiers) pda pda' where
  nodup := by
    refine List.nodup_cons.mpr ⟨?_, hrest.nodup⟩
    intro hmem
    -- A second occurrence would derive the address that was just taken.
    obtain ⟨k, hk⟩ := List.mem_iff_getElem?.mp hmem
    obtain ⟨address', haddress', hunused, _⟩ := hrest.created k nullifier hk
    obtain rfl := Option.some.inj (haddress.symm.trans haddress')
    simp at hunused
  created k value hk := by
    cases k with
    | zero =>
        obtain rfl := Option.some.inj hk
        refine ⟨address, haddress, hfresh, ?_⟩
        exact hrest.kept address _ (Function.update_self address _ pda)
    | succ k =>
        obtain ⟨address', haddress', hunused, hcreated⟩ := hrest.created k value hk
        have hne : address' ≠ address := by
          rintro rfl
          simp at hunused
        rw [Function.update_of_ne hne] at hunused
        rw [show first + 1 + k = first + (k + 1) by omega] at hcreated
        exact ⟨address', haddress', hunused, hcreated⟩
  kept address' record h := by
    have hne : address' ≠ address := by
      rintro rfl
      rw [hfresh] at h
      cases h
    apply hrest.kept
    rwa [Function.update_of_ne hne]

theorem run_initNullifierPda_ok {nullifierPda : Address} {nullifier : Bytes32} {record : NullifierPda}
    (h : (initNullifierPda runtime tree nullifierPda nullifier record).run ledger = .ok () ledger') :
    runtime.nullifierPdaAddress tree nullifier = some nullifierPda ∧
      (ledger nullifierPda).data = .unused ∧
      ledger' = ledger.setData nullifierPda (.nullifierPda record) := by
  obtain ⟨_, mid, hload, hset⟩ := of_run_bind h
  cases hset
  unfold loadUnusedNullifierPda at hload
  obtain ⟨haddress, hload⟩ := of_run_check hload
  obtain ⟨current, _, hget, hunused⟩ := of_run_bind hload
  cases hget
  obtain ⟨hdata, hunused⟩ := of_run_check hunused
  cases hunused
  exact ⟨not_not.mp haddress, not_not.mp hdata, rfl⟩

theorem run_createPdas_ok {treeMinimum position : Nat} {inputTree : InputTreeResult}
    {nullifierPdas : List (Address × Bytes32)}
    (h : (createPdas runtime treeMinimum inputTree position nullifierPdas).run ledger
      = .ok () ledger') :
    ledger'.spendView.side = ledger.spendView.side ∧
      CreatesPdas runtime inputTree.tree inputTree.treeId (inputTree.firstInputQueueSeq + position)
        (nullifierPdas.map (·.2)) ledger.spendView.pda ledger'.spendView.pda := by
  induction nullifierPdas generalizing position ledger with
  | nil =>
      cases h
      exact ⟨rfl, .nil _⟩
  | cons entry nullifierPdas ih =>
      obtain ⟨nullifierPda, nullifier⟩ := entry
      obtain ⟨queueIndex, hadd, h⟩ := of_run_okOr_bind h
      obtain ⟨_, rfl⟩ := checkedAdd_eq_some_iff.mp hadd
      obtain ⟨_, opened, hinit, h⟩ := of_run_bind h
      obtain ⟨_, funded, htopUp, hrest⟩ := of_run_bind h
      obtain ⟨haddress, hunused, rfl⟩ := run_initNullifierPda_ok hinit
      have hview := lamportFree_spendView.topUp _ _ _ _ htopUp
      rw [Ledger.spendView_setData_pda hunused] at hview
      have hfresh : ledger.spendView.pda nullifierPda = none := by
        simp [Ledger.spendView, Ledger.nullifierPda, hunused]
      obtain ⟨hside, hcreates⟩ := ih hrest
      rw [hview] at hside hcreates
      exact ⟨hside, .cons haddress hfresh hcreates⟩

theorem run_createNullifierPdas_ok {payer : Address} {inputTree : InputTreeResult}
    {nullifierPdas : List (Address × Bytes32)}
    (h : (createNullifierPdas runtime payer nullifierPdas inputTree).run ledger = .ok () ledger') :
    ledger'.spendView.side = ledger.spendView.side ∧
      CreatesPdas runtime inputTree.tree inputTree.treeId inputTree.firstInputQueueSeq
        (nullifierPdas.map (·.2)) ledger.spendView.pda ledger'.spendView.pda := by
  obtain ⟨treeMinimum, _, h⟩ := of_run_okOr_bind h
  obtain ⟨_, collected, hfee, hcreate⟩ := of_run_bind h
  have hview := lamportFree_spendView.collectTreeFee _ _ _ hfee
  have hcreated := run_createPdas_ok hcreate
  rwa [hview] at hcreated

end Pdas

/-! ### One input tree -/

/-- What the spends rely on in how they resolve the roots of a tree. -/
def ResolvesSlot (resolve : TreeAccountLayout HEIGHT K → Except TreeError TreeSlot) : Prop :=
  ∀ tree slot, resolve tree = .ok slot → slot.id = treeIdField tree.treeId ∧
    ∃ index, tree.nullifier.rootByIndex index = some slot.nullifierRoot

theorem getNullifierTreeRoot_eq_ok {tree : TreeAccountLayout HEIGHT K} {index : UInt16}
    {root : Bytes32} (h : tree.getNullifierTreeRoot index = .ok root) :
    tree.nullifier.rootByIndex index = some root := by
  unfold TreeAccountLayout.getNullifierTreeRoot at h
  split at h
  case h_1 found hfound =>
    obtain rfl := Except.ok.inj h
    exact hfound
  case h_2 => cases h

theorem resolvesSlot_resolveTreeSlot (context : TreeContext) :
    ResolvesSlot (resolveTreeSlot context : TreeAccountLayout HEIGHT K → _) := by
  intro tree slot h
  cases hutxo : tree.getUtxoTreeRoot context.utxoTreeRootIndex with
  | error e =>
      simp only [resolveTreeSlot, hutxo] at h
      cases h
  | ok utxoRoot =>
      cases hroot : tree.getNullifierTreeRoot context.nullifierTreeRootIndex with
      | error e =>
          simp only [resolveTreeSlot, hutxo, hroot] at h
          cases h
      | ok nullifierRoot =>
          simp only [resolveTreeSlot, hutxo, hroot] at h
          cases h
          exact ⟨rfl, context.nullifierTreeRootIndex, getNullifierTreeRoot_eq_ok hroot⟩

theorem resolvesSlot_resolveInputTreeSlot (context : TreeContext) :
    ResolvesSlot (resolveInputTreeSlot context : TreeAccountLayout HEIGHT K → _) := by
  intro tree slot h
  unfold resolveInputTreeSlot at h
  split at h
  case isTrue => exact resolvesSlot_resolveTreeSlot context tree slot h
  case isFalse =>
    cases hroot : tree.getNullifierTreeRoot context.nullifierTreeRootIndex with
    | error e =>
        rw [hroot] at h
        cases h
    | ok nullifierRoot =>
        rw [hroot] at h
        cases h
        exact ⟨rfl, context.nullifierTreeRootIndex, getNullifierTreeRoot_eq_ok hroot⟩

theorem dummyInputHeadroom_eq_ok {tree : TreeAccountLayout HEIGHT K} {headroom : Nat}
    (h : tree.dummyInputHeadroom = .ok headroom) :
    headroom = tree.nullifier.capacity - tree.nullifier.queueNextIndex - 2 ^ HEIGHT := by
  unfold TreeAccountLayout.dummyInputHeadroom NullifierTreeLayout.remainingQueueCapacity checkedSub
    at h
  split at h
  case h_1 remaining hremaining =>
    cases h
    split at hremaining
    case h_1 hsub =>
      cases hremaining
      split at hsub <;> cases hsub
      rfl
    case h_2 => cases hremaining
  case h_2 => cases h

section InputTree

variable {hashv : Hashv} {address : Address} {nullifiers : List Bytes32} {count : Nat}
variable {resolve : TreeAccountLayout HEIGHT K → Except TreeError TreeSlot}
variable {tree tree' : TreeAccountLayout HEIGHT K} {queued : QueuedInputs}

theorem run_queueInputs_ok
    (h : (queueInputs hashv address resolve nullifiers count).run tree = .ok queued tree') :
    (insertNullifiers hashv nullifiers).run tree.nullifier = .ok () tree'.nullifier ∧
      tree'.treeId = tree.treeId ∧ resolve tree = .ok queued.slot ∧
      queued.result.tree = address ∧ queued.result.treeId = tree.treeId ∧
      queued.result.firstInputQueueSeq = tree.nullifier.queueNextIndex ∧
      queued.allowDummyInputs
        = decide (count ≤ tree.nullifier.capacity - tree.nullifier.queueNextIndex - 2 ^ HEIGHT) := by
  replace h := of_run_get_bind h
  obtain ⟨headroom, hheadroom, h⟩ := of_run_mapErr_bind h
  obtain ⟨slot, hslot, h⟩ := of_run_mapErr_bind h
  obtain ⟨_, inserted, hinsert, h⟩ := of_run_bind h
  obtain ⟨nullifier, hinserted, rfl⟩ := run_within_eq_ok_iff.mp hinsert
  obtain ⟨treeFee, credited, hcredit, h⟩ := of_run_bind h
  have hside := keeps_treeMethod keeps_creditTreeFee hcredit
  cases h
  have hnullifier : credited.nullifier = nullifier := congrArg NullifierSide.nullifier hside
  have htreeId : credited.treeId = tree.treeId := congrArg NullifierSide.treeId hside
  refine ⟨?_, htreeId, hslot, rfl, htreeId, rfl, ?_⟩
  · rw [hinserted, ← hnullifier]
    rfl
  · rw [← dummyInputHeadroom_eq_ok hheadroom]

theorem poolStep_queue {payer : Address} {nullifierPdas : List (Address × Bytes32)}
    {mid : Ledger HEIGHT K} (hresolve : ResolvesSlot resolve)
    (hpdas : nullifierPdas.map (·.2) = nullifiers) (hcount : count = nullifiers.length)
    (hqueue : (withTree treeError address
      (queueInputs env.tree.hashv address resolve nullifiers count)).run ledger = .ok queued mid)
    (hcreate : (createNullifierPdas env.runtime payer nullifierPdas queued.result).run mid
      = .ok () ledger') :
    PoolStep env (2 ^ HEIGHT) ledger.spendView
      (.queue ⟨address, nullifiers, queued.slot, queued.allowDummyInputs⟩) ledger'.spendView := by
  obtain ⟨tree, tree', htree, hrun, rfl⟩ := run_withTree_ok hqueue
  obtain ⟨hinserted, htreeId, hslot, haddress, hresultId, hfirst, hallow⟩ := run_queueInputs_ok hrun
  obtain ⟨hside, hcreates⟩ := run_createNullifierPdas_ok hcreate
  obtain ⟨hslotId, hroot⟩ := hresolve tree queued.slot hslot
  rw [Ledger.spendView_setData_tree htree] at hside hcreates
  rw [haddress, hresultId, hfirst, hpdas] at hcreates
  have hbefore : ledger.spendView.side address = some tree.side := by
    simp [Ledger.spendView, htree]
  have hview : ledger'.spendView
      = ⟨Function.update ledger.spendView.side address (some tree'.side), ledger'.spendView.pda⟩ :=
    congrArg (SpendView.mk · ledger'.spendView.pda) hside
  rw [hview]
  refine .queue hbefore ⟨hinserted, htreeId, hslotId, hroot, ?_, hcreates⟩
  intro htrue
  rw [hallow] at htrue
  rw [← hcount]
  exact of_decide_eq_true htrue

end InputTree

end Zolana
