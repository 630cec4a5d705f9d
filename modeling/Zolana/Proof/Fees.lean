import Mathlib.Algebra.BigOperators.Group.Finset.Basic
import Zolana.Proof.QueueIndex
import Zolana.Proof.UtxoAppend

/-!
# Fees of a spend

Input trees are credited while their nullifiers are queued and the output tree when its leaves are
appended, in different functions and with the transfers in between. Each step is a set of trees that
were written and paid for. A spend puts such steps together over disjoint sets of trees.
-/

namespace Zolana

open Fallible

variable {HEIGHT K : Nat} {env : PoolEnv} {ledger ledger' : Ledger HEIGHT K}

def Ledger.feePerTree (ledger : Ledger HEIGHT K) (address : Address) : Nat :=
  match ledger.tree address with
  | some tree => tree.fees.feePerTree
  | none => 0

/-- A tree after some of its nullifiers were queued and some leaves appended, for a fee. -/
structure TreeWritten (fee queued appended : Nat) (tree tree' : TreeAccountLayout HEIGHT K) : Prop where
  fees : tree'.fees = tree.fees
  feeBalance : tree'.feeBalance = tree.feeBalance + fee
  queueNextIndex : tree'.nullifier.queueNextIndex = tree.nullifier.queueNextIndex + queued
  nextIndex : tree'.utxo.nextIndex = tree.utxo.nextIndex + appended

theorem TreeWritten.refl (tree : TreeAccountLayout HEIGHT K) : TreeWritten 0 0 0 tree tree :=
  ⟨rfl, rfl, rfl, rfl⟩

theorem TreeWritten.trans {fee fee' queued queued' appended appended' : Nat}
    {first second third : TreeAccountLayout HEIGHT K} (h : TreeWritten fee queued appended first second)
    (h' : TreeWritten fee' queued' appended' second third) :
    TreeWritten (fee + fee') (queued + queued') (appended + appended') first third where
  fees := h'.fees.trans h.fees
  feeBalance := by rw [h'.feeBalance, h.feeBalance, Nat.add_assoc]
  queueNextIndex := by rw [h'.queueNextIndex, h.queueNextIndex, Nat.add_assoc]
  nextIndex := by rw [h'.nextIndex, h.nextIndex, Nat.add_assoc]

/-- The trees of a set are written and their fees are paid, once each. -/
structure PaidWrites (payer : Address) (paid : Finset Address) (queued appended : Address → Nat)
    (ledger ledger' : Ledger HEIGHT K) : Prop where
  written : ∀ a tree, ledger.tree a = some tree → ∃ tree', ledger'.tree a = some tree' ∧
    TreeWritten (if a ∈ paid then tree.fees.feePerTree else 0) (queued a) (appended a) tree tree'
  noTree : ∀ a, ledger.tree a = none → ledger'.tree a = none
  payer : ledger.lamports payer = ledger'.lamports payer + ∑ a ∈ paid, ledger.feePerTree a

namespace PaidWrites

variable {payer : Address} {paid paid' : Finset Address} {queued queued' appended appended' : Address → Nat}

theorem refl (payer : Address) (ledger : Ledger HEIGHT K) :
    PaidWrites payer ∅ (fun _ => 0) (fun _ => 0) ledger ledger where
  written _ tree htree := ⟨tree, htree, .refl tree⟩
  noTree _ h := h
  payer := rfl

theorem feePerTree_eq (h : PaidWrites payer paid queued appended ledger ledger') (a : Address) :
    ledger'.feePerTree a = ledger.feePerTree a := by
  unfold Ledger.feePerTree
  cases htree : ledger.tree a with
  | none => rw [h.noTree a htree]
  | some tree =>
      obtain ⟨tree', htree', hwritten⟩ := h.written a tree htree
      rw [htree']
      exact congrArg TreeFeeSchedule.feePerTree hwritten.fees

theorem trans {mid : Ledger HEIGHT K} (h : PaidWrites payer paid queued appended ledger mid)
    (h' : PaidWrites payer paid' queued' appended' mid ledger') (hdisjoint : Disjoint paid paid') :
    PaidWrites payer (paid ∪ paid') (fun a => queued a + queued' a) (fun a => appended a + appended' a)
      ledger ledger' where
  written a tree htree := by
    obtain ⟨middle, hmiddle, hfirst⟩ := h.written a tree htree
    obtain ⟨tree', htree', hsecond⟩ := h'.written a middle hmiddle
    refine ⟨tree', htree', ?_⟩
    have hfee : (if a ∈ paid ∪ paid' then tree.fees.feePerTree else 0)
        = (if a ∈ paid then tree.fees.feePerTree else 0)
          + (if a ∈ paid' then middle.fees.feePerTree else 0) := by
      rw [hfirst.fees]
      by_cases hin : a ∈ paid
      · have hout : a ∉ paid' := Finset.disjoint_left.mp hdisjoint hin
        simp [hin, hout]
      · simp [hin]
    rw [hfee]
    exact hfirst.trans hsecond
  noTree a htree := h'.noTree a (h.noTree a htree)
  payer := by
    have hsame : ∑ a ∈ paid', mid.feePerTree a = ∑ a ∈ paid', ledger.feePerTree a :=
      Finset.sum_congr rfl fun a _ => h.feePerTree_eq a
    rw [h.payer, h'.payer, Finset.sum_union hdisjoint, hsame]
    omega

theorem single (charged : Bool) {address : Address} {tree tree' : TreeAccountLayout HEIGHT K}
    {queuedHere appendedHere : Nat} (htree : ledger.tree address = some tree)
    (hafter : ∀ a, ledger'.tree a = if a = address then some tree' else ledger.tree a)
    (hwritten : TreeWritten (if charged then tree.fees.feePerTree else 0) queuedHere appendedHere tree
      tree')
    (hpayer : ledger.lamports payer
      = ledger'.lamports payer + if charged then tree.fees.feePerTree else 0) :
    PaidWrites payer (if charged then {address} else ∅) (fun a => if a = address then queuedHere else 0)
      (fun a => if a = address then appendedHere else 0) ledger ledger' where
  written a before hbefore := by
    by_cases ha : a = address
    · subst ha
      obtain rfl := Option.some.inj (htree.symm.trans hbefore)
      refine ⟨tree', (hafter a).trans (if_pos rfl), ?_⟩
      rw [if_pos rfl, if_pos rfl]
      cases charged <;> simpa using hwritten
    · refine ⟨before, ((hafter a).trans (if_neg ha)).trans hbefore, ?_⟩
      have hout : a ∉ (if charged then {address} else ∅ : Finset Address) := by
        cases charged <;> simp [ha]
      rw [if_neg hout, if_neg ha, if_neg ha]
      exact .refl before
  noTree a hnone := by
    have ha : a ≠ address := by
      rintro rfl
      rw [htree] at hnone
      cases hnone
    rw [hafter, if_neg ha, hnone]
  payer := by
    have hfee : ledger.feePerTree address = tree.fees.feePerTree := by
      rw [Ledger.feePerTree, htree]
    rw [hpayer]
    cases charged <;> simp [hfee]

end PaidWrites

/-- An account that can sign and pay: no key signs for an address the program derives, and a tree
account is at such an address. -/
structure Signs (runtime : Runtime) (ledger : Ledger HEIGHT K) (payer : Address) : Prop where
  notPda : ∀ tree nullifier, runtime.nullifierPdaAddress tree nullifier ≠ some payer
  notTree : ledger.tree payer = none

/-! ### The steps -/

section Steps

variable {address payer : Address} {mid : Ledger HEIGHT K}

theorem Signs.ne_tree (hsigns : Signs env.runtime ledger payer) {tree : TreeAccountLayout HEIGHT K}
    (htree : ledger.tree address = some tree) : payer ≠ address := by
  rintro rfl
  rw [hsigns.notTree] at htree
  cases htree

theorem paidWrites_queue {resolve : TreeAccountLayout HEIGHT K → Except TreeError TreeSlot}
    {nullifiers : List Bytes32} {nullifierPdas : List (Address × Bytes32)} {count : Nat}
    {queued : QueuedInputs} (hsigns : Signs env.runtime ledger payer)
    (hqueue : (withTree treeError address
      (queueInputs env.tree.hashv address resolve nullifiers count)).run ledger = .ok queued mid)
    (hcreate : (createNullifierPdas env.runtime payer nullifierPdas queued.result).run mid
      = .ok () ledger') :
    PaidWrites payer {address} (fun a => if a = address then nullifiers.length else 0)
      (fun a => if a = address then 0 else 0) ledger ledger' := by
  obtain ⟨tree, nullifier, collected, htree, hinserted, -, hmoved, -, hfunds, hafter⟩ :=
    run_queue_funds hqueue hcreate
  obtain ⟨_, hnext⟩ := run_insertNullifiers_returned hinserted
  have hpayerPda : payer ∉ nullifierPdas.map (·.1) := by
    intro hmem
    obtain ⟨⟨pda, value⟩, hentry, rfl⟩ := List.mem_map.mp hmem
    obtain ⟨k, hk⟩ := List.mem_iff_getElem?.mp hentry
    exact hsigns.notPda _ _ (run_createNullifierPdas_records hcreate hk).1
  have hne := hsigns.ne_tree htree
  refine PaidWrites.single true htree hafter ⟨rfl, rfl, hnext, rfl⟩ ?_
  have henough := hmoved.enough
  rw [Ledger.lamports_setData] at henough
  rw [hfunds.others payer hne hpayerPda, hmoved.lamports_sender hne, Ledger.lamports_setData]
  exact (Nat.sub_add_cancel henough).symm

/-- An output tree is charged for when it takes a leaf and is not paid for already. -/
def chargesOutput (outputs : List Bytes32) (isInputTree : Bool) : Bool := !outputs.isEmpty && !isInputTree

theorem outputFee_eq (tree : TreeAccountLayout HEIGHT K) (outputs : List Bytes32) (isInputTree : Bool) :
    outputFee tree outputs isInputTree
      = if chargesOutput outputs isInputTree then tree.fees.feePerTree else 0 := by
  cases isInputTree <;> cases outputs <;> rfl

theorem paidWrites_output {tree : TreeAccountLayout HEIGHT K} {utxo : UtxoTreeLayout HEIGHT}
    {hashv : Hashv} {outputs : List Bytes32} {slot fee : Nat} {isInputTree : Bool}
    (hsigns : Signs env.runtime ledger payer) (htree : ledger.tree address = some tree)
    (happend : (UtxoTreeLayout.appendBatch hashv outputs slot).run tree.utxo = .ok () utxo)
    (hfee : fee = outputFee tree outputs isInputTree)
    (hcollect : (collectTreeFee payer address fee).run
      (ledger.setData address (.tree (tree.afterAppend utxo fee))) = .ok () ledger') :
    PaidWrites payer (if chargesOutput outputs isInputTree then {address} else ∅)
      (fun a => if a = address then 0 else 0) (fun a => if a = address then outputs.length else 0)
      ledger ledger' := by
  obtain ⟨hmoved, _⟩ := run_collectTreeFee_ok hcollect
  obtain ⟨hnext, _⟩ := UtxoTreeLayout.nextIndex_appendBatch happend
  have hne := hsigns.ne_tree htree
  rw [outputFee_eq] at hfee
  have hafter : ∀ a, ledger'.tree a
      = if a = address then some (tree.afterAppend utxo fee) else ledger.tree a := by
    intro a
    rw [hmoved.tree, Ledger.tree_setData]
  refine PaidWrites.single _ htree hafter ⟨rfl, ?_, rfl, hnext⟩ ?_
  · rw [← hfee]
    rfl
  · have henough := hmoved.enough
    rw [Ledger.lamports_setData] at henough
    rw [← hfee, hmoved.lamports_sender hne, Ledger.lamports_setData]
    exact (Nat.sub_add_cancel henough).symm

end Steps

/-! ### The trees of a transact -/

section Transact

variable {inputs : List InputUtxo} {nullifierPdas : List Address} {payer : Address}

def queuedFrom (inputs : List InputUtxo) (treeIndex : Nat) (trees : List Address) (a : Address) : Nat :=
  if a ∈ trees then (treeNullifiers inputs (treeIndex + trees.idxOf a)).length else 0

theorem queuedFrom_cons {tree : Address} {trees : List Address} (hnotMem : tree ∉ trees)
    (treeIndex : Nat) (a : Address) : queuedFrom inputs treeIndex (tree :: trees) a
      = (if a = tree then (treeNullifiers inputs treeIndex).length else 0)
        + queuedFrom inputs (treeIndex + 1) trees a := by
  unfold queuedFrom
  by_cases ha : a = tree
  · subst ha
    simp [hnotMem]
  · rw [List.idxOf_cons_ne _ (Ne.symm ha), if_neg ha, Nat.zero_add,
      show treeIndex + (trees.idxOf a + 1) = treeIndex + 1 + trees.idxOf a by omega]
    simp [ha]

theorem paidWrites_applyTrees {treeIndex : Nat} {trees : List (Address × TreeContext × Nat)}
    {queued : List QueuedInputs} (hnodup : (trees.map (·.1)).Nodup) (hsigns : Signs env.runtime ledger payer)
    (h : (applyTrees env payer inputs nullifierPdas treeIndex trees).run ledger
      = .ok queued ledger') :
    PaidWrites payer (trees.map (·.1)).toFinset (queuedFrom inputs treeIndex (trees.map (·.1)))
      (fun _ => 0) ledger ledger' := by
  induction trees generalizing treeIndex queued ledger with
  | nil =>
      cases h
      exact .refl payer _
  | cons entry trees ih =>
      obtain ⟨address, context, count⟩ := entry
      obtain ⟨first, queuedLedger, hqueue, h⟩ := of_run_bind h
      obtain ⟨_, mid, hcreate, h⟩ := of_run_bind h
      obtain ⟨rest, _, hrest, hpure⟩ := of_run_bind h
      cases hpure
      obtain ⟨hnotMem, hnodupRest⟩ := List.nodup_cons.mp hnodup
      have hfirst := paidWrites_queue hsigns hqueue hcreate
      have hsignsRest : Signs env.runtime mid payer :=
        ⟨hsigns.notPda, hfirst.noTree payer hsigns.notTree⟩
      have hdisjoint : Disjoint {address} (trees.map (·.1)).toFinset := by
        rw [Finset.disjoint_singleton_left, List.mem_toFinset]
        exact hnotMem
      have hall := hfirst.trans (ih hnodupRest hsignsRest hrest) hdisjoint
      rw [List.map_cons, List.toFinset_cons, Finset.insert_eq]
      convert hall using 1
      · funext a
        exact queuedFrom_cons hnotMem treeIndex a
      · funext a
        split <;> rfl

end Transact

end Zolana
