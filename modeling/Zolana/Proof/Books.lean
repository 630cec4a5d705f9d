import Zolana.Proof.LedgerInvariant
import Zolana.Proof.PoolInvariant
import Zolana.Proof.QueueIndex
import Zolana.Proof.UtxoAppend

/-!
# The books of a tree

What a tree counts against what is there: its number of open nullifier PDAs, and its fee balance against
the writes that were paid for. The counters saturate, but never get near their limit, since every PDA and
every fee goes with a place in one of the two trees.
-/

namespace Zolana

open Fallible NullifierTreeLayout

variable {HEIGHT K reserve : Nat}

/-! ### Traces with new trees -/

section Traces

variable {env : PoolEnv} {view view' : SpendView K} {event : PoolEvent} {events : List PoolEvent}

/-- The trees and the PDAs come from a trace of the spend protocol, in which new trees may have
appeared. -/
def Traced (env : PoolEnv) (view : SpendView K) : Prop :=
  ∃ events, PoolConsistent env events view ∧
    ∀ address, view.side address = none → queuedIn address events = [] ∧ submittedTo address events = []

theorem PoolStep.untouched (hstep : PoolStep env reserve view event view') {address : Address}
    (hnone : view'.side address = none) :
    view.side address = none ∧ event.queued address = [] ∧ event.submitted address = [] := by
  have hbefore : view.side address = none := by
    cases hside : view.side address with
    | none => rfl
    | some side =>
        obtain ⟨side', hside'⟩ := hstep.side_kept hside
        rw [hnone] at hside'
        cases hside'
  refine ⟨hbefore, ?_⟩
  cases hstep with
  | @queue group before after pda hside _ =>
      refine ⟨if_neg ?_, rfl⟩
      rintro rfl
      rw [hbefore] at hside
      cases hside
  | @update updated before data cascade tree hside _ =>
      refine ⟨rfl, if_neg ?_⟩
      rintro rfl
      rw [hbefore] at hside
      cases hside
  | close _ _ _ _ => exact ⟨rfl, rfl⟩

theorem Traced.step (h : Traced env view) (hstep : PoolStep env reserve view event view') :
    Traced env view' := by
  obtain ⟨events, hconsistent, huntouched⟩ := h
  refine ⟨events ++ [event], hconsistent.step hstep, ?_⟩
  intro address hnone
  obtain ⟨hbefore, hqueued, hsubmitted⟩ := hstep.untouched hnone
  obtain ⟨hnoQueue, hnoSubmit⟩ := huntouched address hbefore
  rw [queuedIn_snoc, submittedTo_snoc, hqueued, hsubmitted, hnoQueue, hnoSubmit]
  exact ⟨rfl, rfl⟩

theorem Traced.trace (h : Traced env view) (htrace : PoolTrace env reserve view events view') :
    Traced env view' := by
  induction htrace with
  | start => exact h
  | step _ hstep ih => exact ih.step hstep

theorem Traced.create (h : Traced env view) {address : Address} {side : NullifierSide K}
    (hnone : view.side address = none)
    (hside : ∃ (hK : 0 < K) (Z : Nat), 0 < Z ∧ side.nullifier = initialised hK Z 40)
    (hid : ∀ a other, view.side a = some other → other.treeId ≠ side.treeId) :
    Traced env ⟨Function.update view.side address (some side), view.pda⟩ := by
  obtain ⟨events, hconsistent, huntouched⟩ := h
  obtain ⟨hqueued, hsubmitted⟩ := huntouched address hnone
  obtain ⟨hK, Z, hZ, hinitialised⟩ := hside
  have hcases : ∀ {a found}, Function.update view.side address (some side) a = some found →
      (a = address ∧ found = side) ∨ (a ≠ address ∧ view.side a = some found) := by
    intro a found hfound
    by_cases ha : a = address
    · subst ha
      rw [Function.update_self] at hfound
      exact .inl ⟨rfl, (Option.some.inj hfound).symm⟩
    · rw [Function.update_of_ne ha] at hfound
      exact .inr ⟨ha, hfound⟩
  refine ⟨events, ⟨?_, ?_, ?_, ?_⟩, ?_⟩
  · intro a found hfound
    rcases hcases hfound with ⟨rfl, rfl⟩ | ⟨_, hold⟩
    · rw [hinitialised, hqueued, hsubmitted]
      exact ⟨[], consistent_initial env.tree hK hZ (by decide)⟩
    · exact hconsistent.consistent a found hold
  · intro a found hfound
    rcases hcases hfound with ⟨rfl, rfl⟩ | ⟨_, hold⟩
    · rw [hinitialised]
      rfl
    · exact hconsistent.capacity a found hold
  · intro a b sideA sideB ha hb heq
    rcases hcases ha with ⟨rfl, rfl⟩ | ⟨_, hold⟩
    · rcases hcases hb with ⟨rfl, rfl⟩ | ⟨_, hold'⟩
      · rfl
      · exact absurd heq.symm (hid b sideB hold')
    · rcases hcases hb with ⟨rfl, rfl⟩ | ⟨_, hold'⟩
      · exact absurd heq (hid a sideA hold)
      · exact hconsistent.treeId a b sideA sideB hold hold' heq
  · intro a found i nullifier hfound hi
    rcases hcases hfound with ⟨rfl, rfl⟩ | ⟨_, hold⟩
    · rw [hqueued] at hi
      cases hi
    · exact hconsistent.guarded a found i nullifier hold hi
  · intro a hfound
    dsimp only at hfound
    by_cases ha : a = address
    · subst ha
      rw [Function.update_self] at hfound
      cases hfound
    · rw [Function.update_of_ne ha] at hfound
      exact huntouched a hfound

end Traces

/-! ### Open PDAs -/

section OpenPdas

variable {pda pda' : Address → Option NullifierPda} {treeId : UInt16} {opened : List Address}

def openPdas (pda : Address → Option NullifierPda) (treeId : UInt16) : Set Address :=
  {address | ∃ record, pda address = some record ∧ record.treeId = treeId}

/-- PDAs of one tree that were opened. Read backwards, they were closed. -/
structure Opens (treeId : UInt16) (opened : List Address) (pda pda' : Address → Option NullifierPda) :
    Prop where
  nodup : opened.Nodup
  absent : ∀ address ∈ opened, pda address = none
  present : ∀ address ∈ opened, ∃ record, pda' address = some record ∧ record.treeId = treeId
  kept : ∀ address ∉ opened, pda' address = pda address

theorem Opens.openPdas_of_ne (h : Opens treeId opened pda pda') {other : UInt16} (hne : other ≠ treeId) :
    openPdas pda' other = openPdas pda other := by
  ext address
  by_cases hmem : address ∈ opened
  · obtain ⟨record, hrecord, hid⟩ := h.present address hmem
    simp only [openPdas, Set.mem_ofPred_eq, h.absent address hmem, hrecord, Option.some.injEq,
      reduceCtorEq, false_and, exists_false, iff_false]
    rintro ⟨_, rfl, hother⟩
    exact hne (hother.symm.trans hid)
  · simp only [openPdas, Set.mem_ofPred_eq, h.kept address hmem]

instance finite_address : Finite Address := Finite.of_injective BitVec.toFin fun _ _ h => BitVec.eq_of_toFin_eq h

theorem Opens.ncard (h : Opens treeId opened pda pda') :
    (openPdas pda' treeId).ncard = (openPdas pda treeId).ncard + opened.length := by
  have hunion : openPdas pda' treeId = openPdas pda treeId ∪ (opened.toFinset : Set Address) := by
    ext address
    by_cases hmem : address ∈ opened
    · simp [openPdas, hmem, h.present address hmem]
    · simp [openPdas, hmem, h.kept address hmem]
  have hdisjoint : Disjoint (openPdas pda treeId) (opened.toFinset : Set Address) := by
    rw [Set.disjoint_left]
    rintro address ⟨record, hrecord, _⟩ hmem
    rw [h.absent address (List.mem_toFinset.mp hmem)] at hrecord
    cases hrecord
  rw [hunion, Set.ncard_union_eq hdisjoint (Set.toFinite _) (Set.toFinite _), Set.ncard_coe_finset,
    List.toFinset_card_of_nodup h.nodup]

end OpenPdas

/-! ### The invariant -/

section Books

variable {env : SystemEnv HEIGHT K} {ledger ledger' : Ledger HEIGHT K} {address : Address}
variable {tree tree' : TreeAccountLayout HEIGHT K}

structure TreeBooks (pda : Address → Option NullifierPda) (tree : TreeAccountLayout HEIGHT K) : Prop
    where
  live : tree.liveNullifierPdas = (openPdas pda tree.treeId).ncard
  live_lt : tree.liveNullifierPdas < tree.nullifier.queueNextIndex
  fee_le : tree.fees.feePerTree ≤ maxFeePerTree
  /-- A fee goes with a queued nullifier or an appended leaf. -/
  balance_le : tree.feeBalance
    ≤ maxFeePerTree * (tree.nullifier.queueNextIndex + tree.utxo.nextIndex)
  leaves_le : tree.utxo.nextIndex ≤ 2 ^ HEIGHT
  height_le : HEIGHT ≤ 40

structure Books (env : SystemEnv HEIGHT K) (ledger : Ledger HEIGHT K) : Prop where
  traced : Traced env.pool ledger.spendView
  address : ∀ a tree, ledger.tree a = some tree → env.treeAddress tree.treeId = some a
  owner : ∀ pda record, ledger.nullifierPda pda = some record →
    ∃ a tree, ledger.tree a = some tree ∧ tree.treeId = record.treeId
  tree : ∀ a tree, ledger.tree a = some tree → TreeBooks ledger.nullifierPda tree

theorem Ledger.spendView_side (htree : ledger.tree address = some tree) :
    ledger.spendView.side address = some tree.side := by
  simp [Ledger.spendView, htree]

theorem Traced.queue_le {env : PoolEnv} (h : Traced env ledger.spendView)
    (htree : ledger.tree address = some tree) : tree.nullifier.queueNextIndex ≤ 2 ^ 40 := by
  obtain ⟨events, hconsistent, _⟩ := h
  have hside := Ledger.spendView_side htree
  obtain ⟨applied, htreeConsistent⟩ := hconsistent.consistent address tree.side hside
  rw [← hconsistent.capacity address tree.side hside]
  exact htreeConsistent.queue_le

theorem Books.write (h : Books env ledger) (htraced : Traced env.pool ledger'.spendView)
    (htree : ledger.tree address = some tree)
    (hafter : ∀ a, ledger'.tree a = if a = address then some tree' else ledger.tree a)
    (hid : tree'.treeId = tree.treeId)
    (hpdas : ∀ id, id ≠ tree.treeId →
      openPdas ledger'.nullifierPda id = openPdas ledger.nullifierPda id)
    (hbooks : TreeBooks ledger'.nullifierPda tree') : Books env ledger' where
  traced := htraced
  address a found hfound := by
    rw [hafter] at hfound
    split at hfound
    case isTrue ha =>
      obtain rfl := Option.some.inj hfound
      rw [hid, ha]
      exact h.address address tree htree
    case isFalse => exact h.address a found hfound
  owner pda record hrecord := by
    by_cases hown : record.treeId = tree.treeId
    · refine ⟨address, tree', ?_, hid.trans hown.symm⟩
      rw [hafter, if_pos rfl]
    · have hmem : pda ∈ openPdas ledger'.nullifierPda record.treeId := ⟨record, hrecord, rfl⟩
      rw [hpdas record.treeId hown] at hmem
      obtain ⟨before, hbefore, hsame⟩ := hmem
      obtain ⟨a, found, hfound, hfoundId⟩ := h.owner pda before hbefore
      refine ⟨a, found, ?_, hfoundId.trans hsame⟩
      rw [hafter, if_neg, hfound]
      rintro rfl
      rw [htree] at hfound
      obtain rfl := Option.some.inj hfound
      exact hown (hsame.symm.trans hfoundId.symm)
  tree a found hfound := by
    rw [hafter] at hfound
    split at hfound
    case isTrue =>
      obtain rfl := Option.some.inj hfound
      exact hbooks
    case isFalse ha =>
      have hbefore := h.tree a found hfound
      have hne : found.treeId ≠ tree.treeId := by
        intro heq
        have haddress := h.address a found hfound
        rw [heq, h.address address tree htree] at haddress
        exact ha (Option.some.inj haddress).symm
      refine { hbefore with live := ?_ }
      rw [hpdas found.treeId hne]
      exact hbefore.live

theorem Books.set (h : Books env ledger) (htree : ledger.tree address = some tree)
    (hafter : ∀ a, ledger'.tree a = if a = address then some tree' else ledger.tree a)
    (hside : tree'.side = tree.side) (hlive : tree'.liveNullifierPdas = tree.liveNullifierPdas)
    (hpda : ledger'.nullifierPda = ledger.nullifierPda) (hfee : tree'.fees.feePerTree ≤ maxFeePerTree)
    (hbalance : tree'.feeBalance
      ≤ maxFeePerTree * (tree.nullifier.queueNextIndex + tree'.utxo.nextIndex))
    (hleaves : tree'.utxo.nextIndex ≤ 2 ^ HEIGHT) : Books env ledger' := by
  have hnullifier : tree'.nullifier = tree.nullifier := congrArg NullifierSide.nullifier hside
  have hid : tree'.treeId = tree.treeId := congrArg NullifierSide.treeId hside
  have hview : ledger'.spendView = ledger.spendView := by
    simp only [Ledger.spendView, hpda]
    congr 1
    funext a
    rw [hafter]
    split
    case isTrue ha =>
      subst ha
      rw [htree, Option.map_some, Option.map_some, hside]
    case isFalse => rfl
  have hbefore := h.tree address tree htree
  refine h.write (hview ▸ h.traced) htree hafter hid (fun _ _ => by rw [hpda]) ⟨?_, ?_, hfee, ?_,
    hleaves, hbefore.height_le⟩
  · rw [hlive, hid, hpda]
    exact hbefore.live
  · rw [hlive, hnullifier]
    exact hbefore.live_lt
  · rwa [hnullifier]

/-! ### Spends -/

theorem Ledger.nullifierPda_setData_tree (htree : ledger.tree address = some tree)
    (layout : TreeAccountLayout HEIGHT K) :
    (ledger.setData address (.tree layout)).nullifierPda = ledger.nullifierPda :=
  congrArg SpendView.pda (Ledger.spendView_setData_tree htree layout)

theorem Ledger.nullifierPda_congr {a : Address} (h : (ledger' a).data = (ledger a).data) :
    ledger'.nullifierPda a = ledger.nullifierPda a := by
  simp only [Ledger.nullifierPda, h]

variable {sender receiver recipient : Address} {fees : TreeFeeSchedule}

theorem Moved.nullifierPda {amount : Nat} (h : Moved sender receiver amount ledger ledger') :
    ledger'.nullifierPda = ledger.nullifierPda := by
  funext a
  exact Ledger.nullifierPda_congr (h.data a)

theorem saturatingAdd_of_lt {a b : Nat} (h : a + b < 2 ^ 64) : saturatingAdd a b = a + b :=
  Nat.min_eq_left (Nat.le_sub_one_of_lt h)

theorem spendInvariant_books (env : SystemEnv HEIGHT K) :
    SpendInvariant env.pool (Books env : Ledger HEIGHT K → Prop) where
  queue {payer address resolve nullifierPdas queued ledger mid ledger'} hsome hresolve hqueue hcreate
      h := by
    have htraced : Traced env.pool ledger'.spendView :=
      h.traced.step (poolStep_queue hresolve rfl (List.length_map _).symm hqueue hcreate)
    obtain ⟨tree, nullifier, collected, htree, hinserted, hresult, hmoved, -, hfunds, hafter⟩ :=
      run_queue_funds hqueue hcreate
    have hpda : collected.nullifierPda = ledger.nullifierPda :=
      hmoved.nullifierPda.trans (Ledger.nullifierPda_setData_tree htree _)
    have hopens : Opens tree.treeId (nullifierPdas.map (·.1)) ledger.nullifierPda ledger'.nullifierPda := by
      refine ⟨hfunds.nodup, ?_, ?_, ?_⟩
      · intro pda hmem
        rw [← hpda, Ledger.nullifierPda, hfunds.unused pda hmem]
      · intro pda hmem
        obtain ⟨⟨found, value⟩, hentry, rfl⟩ := List.mem_map.mp hmem
        obtain ⟨k, hk⟩ := List.mem_iff_getElem?.mp hentry
        obtain ⟨_, _, hrecord⟩ := run_createNullifierPdas_records hcreate hk
        exact ⟨_, hrecord, congrArg (·.treeId) hresult⟩
      · intro pda hmem
        rw [← hpda]
        exact Ledger.nullifierPda_congr (hfunds.kept pda hmem)
    obtain ⟨_, hnext⟩ := run_insertNullifiers_returned hinserted
    rw [List.length_map] at hnext
    have hbefore := h.tree address tree htree
    have hpos : 0 < nullifierPdas.length := List.length_pos_iff.mpr hsome
    have hbound : nullifier.queueNextIndex ≤ 2 ^ 40 :=
      htraced.queue_le ((hafter address).trans (if_pos rfl))
    have hlt := hbefore.live_lt
    have hlive : saturatingAdd tree.liveNullifierPdas nullifierPdas.length
        = tree.liveNullifierPdas + nullifierPdas.length := saturatingAdd_of_lt (by omega)
    refine h.write htraced htree hafter rfl (fun id hne => hopens.openPdas_of_ne hne) ⟨?_, ?_,
      hbefore.fee_le, ?_, hbefore.leaves_le, hbefore.height_le⟩
    · simp only [TreeAccountLayout.afterQueue]
      rw [hlive, hopens.ncard, List.length_map, hbefore.live]
    · simp only [TreeAccountLayout.afterQueue]
      omega
    · have hbalance := hbefore.balance_le
      have hfee := hbefore.fee_le
      simp only [TreeAccountLayout.afterQueue, hnext, maxFeePerTree] at hbalance hfee ⊢
      omega
  output {payer address tree utxo outputs slot isInputTree ledger ledger'} htree happend hcollect h := by
    obtain ⟨hmoved, _⟩ := run_collectTreeFee_ok hcollect
    obtain ⟨hnext, hfits⟩ := UtxoTreeLayout.nextIndex_appendBatch happend
    have hbefore := h.tree address tree htree
    refine h.set htree (fun a => (hmoved.tree a).trans (Ledger.tree_setData _ _ _ a)) rfl rfl
      (hmoved.nullifierPda.trans (Ledger.nullifierPda_setData_tree htree _)) hbefore.fee_le ?_ ?_
    · have hbalance := hbefore.balance_le
      have hfee := hbefore.fee_le
      have houtputs : outputFee tree outputs isInputTree ≤ maxFeePerTree * outputs.length := by
        unfold outputFee
        split
        case isTrue => exact Nat.zero_le _
        case isFalse hsome =>
          have hpos : 0 < outputs.length := List.length_pos_iff.mpr (not_or.mp hsome).1
          exact Nat.le_trans hfee (Nat.le_mul_of_pos_right _ hpos)
      simp only [TreeAccountLayout.afterAppend, hnext, maxFeePerTree] at hbalance houtputs ⊢
      omega
    · exact hfits hbefore.leaves_le

/-! ### The forester -/

/-- The updates a cascade applied, as its event counts them. -/
def NullifierTreeLayout.Cascade.numUpdate (cascade : Cascade) : Nat :=
  match cascade.event with
  | none => 0
  | some event => event.numUpdate

theorem numUpdate_foldl (merkleTreePubkey : Bytes32) (Z : Nat) (new : List AppliedUpdate)
    (event : Option NullifierTreeUpdateEvent) (applied : List AppliedUpdate) :
    (Cascade.mk (new.foldl (recordUpdate merkleTreePubkey Z) event) applied).numUpdate
      = (Cascade.mk event applied).numUpdate + new.length := by
  induction new generalizing event with
  | nil => rfl
  | cons update new ih =>
      rw [List.foldl_cons, ih, List.length_cons]
      cases event with
      | none =>
          simp only [recordUpdate, Cascade.numUpdate, Option.getD_none]
          omega
      | some event =>
          simp only [recordUpdate, Cascade.numUpdate, Option.getD_some]
          omega

variable {data : InstructionDataBatchNullifyInputs}

theorem Consistent.numUpdate_eq {env : Env} {Z : Nat} {run : Run K} (h : Consistent env Z run)
    {merkleTreePubkey : Bytes32} {cascade : Cascade} {nullifier : NullifierTreeLayout K}
    (hrun : (updateTreeFromQueue env merkleTreePubkey data).run run.tree = .ok cascade nullifier) :
    cascade.numUpdate = cascade.applied.length := by
  obtain ⟨start, hqueue⟩ := h.queue
  obtain ⟨batch, hbatch⟩ := hqueue.exists_pending
  rcases h.run_update merkleTreePubkey data hqueue hbatch with
    ⟨_, new, _, _, _, _, _, hupdate⟩ | ⟨_, hupdate⟩ | ⟨_, e, hupdate⟩
  · rw [hupdate] at hrun
    cases hrun
    rw [numUpdate_foldl]
    exact Nat.zero_add _
  · rw [hupdate] at hrun
    cases hrun
    rfl
  · rw [hupdate] at hrun
    cases hrun

theorem Consistent.applied_le {env : Env} {Z : Nat} {run : Run K} (h : Consistent env Z run) :
    run.applied.length * Z ≤ run.queued.length := by
  rcases List.eq_nil_or_concat run.applied with hnil | ⟨applied, last, happlied⟩
  · rw [hnil, List.length_nil, Nat.zero_mul]
    exact Nat.zero_le _
  · have hlast : run.applied[applied.length]? = some last := by simp [happlied]
    have hwindow := (h.log applied.length last hlast).window_le
    rwa [happlied, List.length_concat, Nat.succ_mul]

theorem Traced.update {env : PoolEnv} (h : Traced env ledger.spendView)
    (htree : ledger.tree address = some tree) {cascade : Cascade} {nullifier : NullifierTreeLayout K}
    (hrun : (updateTreeFromQueue env.tree address data).run tree.nullifier = .ok cascade nullifier) :
    nullifier.queueNextIndex = tree.nullifier.queueNextIndex ∧
      nullifier.zkpBatchSize = tree.nullifier.zkpBatchSize ∧
      nullifier.nextIndex = tree.nullifier.nextIndex + cascade.numUpdate * tree.nullifier.zkpBatchSize ∧
      nullifier.nextIndex ≤ nullifier.queueNextIndex := by
  obtain ⟨events, hconsistent, _⟩ := h
  obtain ⟨applied, hbefore⟩ := hconsistent.consistent address tree.side (Ledger.spendView_side htree)
  have hafter := hbefore.call (.update address data)
  have hcount := hbefore.numUpdate_eq hrun
  have hcall : (Run.mk tree.side.nullifier (queuedIn address events) applied
      (submittedTo address events)).call env.tree (.update address data)
      = ⟨nullifier, queuedIn address events, applied ++ cascade.applied,
        submittedTo address events ++ [data]⟩ := by
    rw [Run.call]
    dsimp only [TreeAccountLayout.side]
    rw [hrun]
  rw [hcall] at hafter
  have hle := hafter.applied_le
  have hqueue := hbefore.queueNextIndex
  have hqueue' := hafter.queueNextIndex
  have hindex := hbefore.nextIndex
  have hindex' := hafter.nextIndex
  dsimp only [TreeAccountLayout.side] at hqueue hqueue' hindex hindex' hle
  refine ⟨hqueue'.trans hqueue.symm, hafter.zkpBatchSize, ?_, ?_⟩
  · rw [hindex', hindex, hcount, List.length_append, Nat.add_mul]
    omega
  · rw [hindex', hqueue']
    omega

theorem run_processClose_closes {env : PoolEnv} {nullifierPdas : List Address}
    (h : (processCloseNullifierPdas env address recipient nullifierPdas).run ledger = .ok () ledger') :
    ∃ tree, ledger.tree address = some tree ∧
      (∀ a, ledger'.tree a
        = if a = address then some (tree.afterClose nullifierPdas.length) else ledger.tree a) ∧
      Opens tree.treeId nullifierPdas ledger'.nullifierPda ledger.nullifierPda := by
  obtain ⟨tree, closed, htree, _, _, hcloses, hmoved⟩ := run_processClose_ok h
  have hpda := Ledger.nullifierPda_setData_tree htree (tree.afterClose nullifierPdas.length)
  refine ⟨tree, htree, ?_, hcloses.nodup, ?_, ?_, ?_⟩
  · intro a
    rw [hmoved.tree, hcloses.trees, Ledger.tree_setData]
  · intro pda hmem
    rw [hmoved.nullifierPda, Ledger.nullifierPda, hcloses.unused pda hmem]
  · intro pda hmem
    rw [← hpda]
    exact hcloses.wasPda pda hmem
  · intro pda hmem
    rw [hmoved.nullifierPda, ← hpda]
    exact (Ledger.nullifierPda_congr (hcloses.kept pda hmem)).symm

/-! ### Fees, pauses and transfers -/

theorem feePerTree_le_of_validate (h : fees.validate = .ok ()) : fees.feePerTree ≤ maxFeePerTree := by
  unfold TreeFeeSchedule.validate at h
  split at h
  case isTrue => cases h
  case isFalse hle => exact Nat.le_of_not_lt hle

theorem Books.congr (h : Books env ledger) (htrees : ∀ a, ledger'.tree a = ledger.tree a)
    (hpda : ledger'.nullifierPda = ledger.nullifierPda) : Books env ledger' := by
  have htree : ledger'.tree = ledger.tree := funext htrees
  have hview : ledger'.spendView = ledger.spendView := by simp only [Ledger.spendView, htree, hpda]
  refine ⟨hview ▸ h.traced, ?_, ?_, ?_⟩
  · rw [htree]
    exact h.address
  · rw [htree, hpda]
    exact h.owner
  · rw [htree, hpda]
    exact h.tree

theorem Books.moved {amount : Nat} (h : Books env ledger)
    (hmoved : Moved sender receiver amount ledger ledger') : Books env ledger' :=
  h.congr hmoved.tree hmoved.nullifierPda

/-! ### New trees -/

theorem Books.create (h : Books env ledger) {treeId : UInt16} {params : NullifierTreeInitParams}
    (hdata : (ledger address).data = .other true) (haddress : env.treeAddress treeId = some address)
    (hinit : TreeInit HEIGHT treeId params fees (.zeroed HEIGHT K) tree)
    (hside : ∃ (hK : 0 < K) (Z : Nat), 0 < Z ∧ tree.nullifier = initialised hK Z 40) :
    Books env (ledger.setData address (.tree tree)) := by
  have hnone : ledger.tree address = none := by simp [Ledger.tree, hdata]
  have hfresh : ∀ a found, ledger.tree a = some found → found.treeId ≠ treeId := by
    rintro a found hfound rfl
    rw [h.address a found hfound] at haddress
    obtain rfl := Option.some.inj haddress
    rw [hnone] at hfound
    cases hfound
  have hpda : (ledger.setData address (.tree tree)).nullifierPda = ledger.nullifierPda := by
    funext a
    by_cases ha : a = address
    · subst ha
      simp [Ledger.nullifierPda, Ledger.setData_self, hdata]
    · exact Ledger.nullifierPda_congr (congrArg Account.data (Ledger.setData_of_ne ha _ _))
  have hafter : ∀ a, (ledger.setData address (.tree tree)).tree a
      = if a = address then some tree else ledger.tree a := fun a => Ledger.tree_setData _ _ _ a
  have hview : (ledger.setData address (.tree tree)).spendView
      = ⟨Function.update ledger.spendView.side address (some tree.side), ledger.spendView.pda⟩ := by
    simp only [Ledger.spendView, hpda]
    congr 1
    funext a
    rw [hafter]
    by_cases ha : a = address
    · subst ha
      rw [if_pos rfl, Function.update_self, Option.map_some]
    · rw [if_neg ha, Function.update_of_ne ha]
  have hempty : openPdas ledger.nullifierPda tree.treeId = ∅ := by
    rw [Set.eq_empty_iff_forall_notMem]
    rintro pda ⟨record, hrecord, hid⟩
    obtain ⟨a, found, hfound, hfoundId⟩ := h.owner pda record hrecord
    exact hfresh a found hfound ((hfoundId.trans hid).trans hinit.id)
  obtain ⟨hheight, hutxo⟩ := UtxoTreeLayout.run_init hinit.utxo
  have hleaves : tree.utxo.nextIndex = 0 := by rw [hutxo]
  refine ⟨?_, ?_, ?_, ?_⟩
  · rw [hview]
    refine h.traced.create ?_ hside ?_
    · simp [Ledger.spendView, hnone]
    · intro a other hother
      obtain ⟨found, hfound, rfl⟩ := Option.map_eq_some_iff.mp hother
      intro heq
      exact hfresh a found hfound (heq.trans hinit.id)
  · intro a found hfound
    rw [hafter] at hfound
    split at hfound
    case isTrue ha =>
      obtain rfl := Option.some.inj hfound
      rw [hinit.id, ha, haddress]
    case isFalse => exact h.address a found hfound
  · intro pda record hrecord
    rw [hpda] at hrecord
    obtain ⟨a, found, hfound, hid⟩ := h.owner pda record hrecord
    refine ⟨a, found, ?_, hid⟩
    rw [hafter, if_neg, hfound]
    rintro rfl
    rw [hnone] at hfound
    cases hfound
  · intro a found hfound
    rw [hpda]
    rw [hafter] at hfound
    split at hfound
    case isTrue =>
      obtain rfl := Option.some.inj hfound
      obtain ⟨hK, Z, _, hinitialised⟩ := hside
      refine ⟨?_, ?_, ?_, ?_, ?_, hheight⟩
      · rw [hempty, Set.ncard_empty, hinit.liveNullifierPdas]
      · rw [hinit.liveNullifierPdas, hinitialised]
        exact Nat.one_pos
      · rw [hinit.schedule]
        exact feePerTree_le_of_validate hinit.validFees
      · rw [hinit.feeBalance]
        exact Nat.zero_le _
      · rw [hleaves]
        exact Nat.zero_le _
    case isFalse => exact h.tree a found hfound

end Books

/-! ### Runs -/

theorem ledgerInvariant_books (env : SystemEnv HEIGHT K) :
    LedgerInvariant env (Books env : Ledger HEIGHT K → Prop) where
  spends := spendInvariant_books env
  batchUpdate address recipient data := by
    intro ledger event ledger' hrun h
    have htraced := h.traced.step (processBatchUpdate_simulates hrun)
    obtain ⟨tree, cascade, nullifier, htree, _, hcascade, _, hmoved⟩ := run_processBatchUpdate_ok hrun
    obtain ⟨hqueue, _, _, _⟩ := h.traced.update htree hcascade
    have hbefore := h.tree address tree htree
    have hpda : ledger'.nullifierPda = ledger.nullifierPda :=
      hmoved.nullifierPda.trans (Ledger.nullifierPda_setData_tree htree _)
    refine h.write htraced htree (fun a => (hmoved.tree a).trans (Ledger.tree_setData _ _ _ a)) rfl
      (fun _ _ => by rw [hpda]) ⟨?_, ?_, hbefore.fee_le, ?_, hbefore.leaves_le, hbefore.height_le⟩
    · rw [hpda]
      exact hbefore.live
    · dsimp only [TreeAccountLayout.afterPaying]
      rw [hqueue]
      exact hbefore.live_lt
    · dsimp only [TreeAccountLayout.afterPaying]
      rw [hqueue]
      exact Nat.le_trans (Nat.sub_le _ _) hbefore.balance_le
  close address recipient nullifierPdas := by
    intro ledger _ ledger' hrun h
    have htraced := h.traced.trace (processClose_simulates hrun)
    obtain ⟨tree, htree, hafter, hopens⟩ := run_processClose_closes hrun
    have hbefore := h.tree address tree htree
    have hcount := hopens.ncard
    rw [← hbefore.live] at hcount
    have hlt := hbefore.live_lt
    refine h.write htraced htree hafter rfl (fun id hne => (hopens.openPdas_of_ne hne).symm) ⟨?_, ?_,
      hbefore.fee_le, ?_, hbefore.leaves_le, hbefore.height_le⟩
    · change tree.liveNullifierPdas - nullifierPdas.length = (openPdas ledger'.nullifierPda tree.treeId).ncard
      omega
    · change tree.liveNullifierPdas - nullifierPdas.length < tree.nullifier.queueNextIndex
      omega
    · exact Nat.le_trans (Nat.sub_le _ _) hbefore.balance_le
  setTreeFees address fees := by
    intro ledger _ ledger' hrun h
    obtain ⟨tree, htree, hvalid, rfl⟩ := run_processSetTreeFees_ok hrun
    have hbefore := h.tree address tree htree
    refine h.set htree (fun a => Ledger.tree_setData _ _ _ a) rfl rfl
      (Ledger.nullifierPda_setData_tree htree _) ?_ hbefore.balance_le hbefore.leaves_le
    exact feePerTree_le_of_validate hvalid
  claimTreeLamports address recipient := by
    intro ledger _ ledger' hrun h
    obtain ⟨tree, reserve, paid, htree, _, _, _, hmoved⟩ := run_processClaim_ok hrun
    have hbefore := h.tree address tree htree
    exact h.set htree (fun a => (hmoved.tree a).trans (Ledger.tree_setData _ _ _ a)) rfl rfl
      (hmoved.nullifierPda.trans (Ledger.nullifierPda_setData_tree htree _)) hbefore.fee_le
      (Nat.le_trans (Nat.sub_le _ _) hbefore.balance_le) hbefore.leaves_le
  pauseTree address paused := by
    intro ledger _ ledger' hrun h
    obtain ⟨tree, htree, rfl⟩ := run_processPauseTree_ok hrun
    have hbefore := h.tree address tree htree
    exact h.set htree (fun a => Ledger.tree_setData _ _ _ a) rfl rfl
      (Ledger.nullifierPda_setData_tree htree _) hbefore.fee_le hbefore.balance_le hbefore.leaves_le
  transfer _ _ _ _ _ _ hrun h := h.moved (run_transfer_ok hrun).2
  createTree {payer authority address ixData result system system'} hrun hzeros h := by
    obtain ⟨parsed, lamports, mid, _, haddress, _, hhalf, hfinish⟩ := run_processCreateTree_ok hrun
    have hmid : Books env mid.ledger ∧ (mid.ledger address).data = .other true := by
      rcases hhalf with ⟨hbegins, _⟩ | ⟨hcontinues, _⟩
      · obtain ⟨amount, hmoved, _⟩ := hbegins.ledger
        refine ⟨Books.moved (h.congr ?_ ?_) hmoved, ?_⟩
        · intro a
          by_cases ha : a = address
          · subst ha
            simp [Ledger.tree, Ledger.setData_self, hbegins.unused]
          · exact Ledger.tree_congr (congrArg Account.data (Ledger.setData_of_ne ha _ _))
        · funext a
          by_cases ha : a = address
          · subst ha
            simp [Ledger.nullifierPda, Ledger.setData_self, hbegins.unused]
          · exact Ledger.nullifierPda_congr (congrArg Account.data (Ledger.setData_of_ne ha _ _))
        · rw [hmoved.data, Ledger.setData_self]
      · rw [hcontinues.ledger]
        exact ⟨h, hcontinues.owned⟩
    rcases run_finishTree_ok hfinish with ⟨_, rfl, _⟩ | ⟨bytes, layout, funded, hsome, hfinishes⟩
    · exact hmid.1
    · obtain ⟨amount, hmoved, _⟩ := hfinishes.funds
      have hinit := hfinishes.init
      rw [hzeros bytes hsome, env.create.codec.decode_zeros] at hinit
      rw [hfinishes.result]
      refine (hmid.1.moved hmoved).create ?_ haddress (run_treeInit_ok hinit) (initialised_of_init hinit)
      rw [hmoved.data]
      exact hmid.2

theorem SystemReachable.books {env : SystemEnv HEIGHT K} {run : SystemRun HEIGHT K}
    (h : SystemReachable env run) : Books env run.system.ledger := by
  refine (ledgerInvariant_books env).reachable ?_ h
  intro system hgenesis
  have hview : ∀ address side, system.ledger.spendView.side address ≠ some side := by
    intro address side
    simp [Ledger.spendView, hgenesis.tree address]
  have htree : ∀ a tree, system.ledger.tree a ≠ some tree := by simp [hgenesis.tree]
  refine ⟨⟨[], ⟨?_, ?_, ?_, ?_⟩, fun _ _ => ⟨rfl, rfl⟩⟩, ?_, ?_, ?_⟩
  · exact fun a side hside => absurd hside (hview a side)
  · exact fun a side hside => absurd hside (hview a side)
  · exact fun a _ side _ hside => absurd hside (hview a side)
  · exact fun a side _ _ hside => absurd hside (hview a side)
  · exact fun a tree hsome => absurd hsome (htree a tree)
  · simp [hgenesis.nullifierPda]
  · exact fun a tree hsome => absurd hsome (htree a tree)

end Zolana
