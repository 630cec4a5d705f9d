import Zolana.Proof.PoolTransact

/-!
# Instructions follow the protocol

Every accepted instruction is a trace of the spend protocol, and so is every run of the pool. The trace
queues what the run accepted and submits what the run submitted, and each of its groups is covered by a
proof the run verified.
-/

namespace Zolana

open Fallible

variable {HEIGHT K : Nat} {env : PoolEnv} {ledger ledger' : Ledger HEIGHT K}

/-! ### Merge -/

theorem boolField_ne_zero (value : Bool) : decide (boolField value ≠ 0) = value := by
  cases value <;> decide

theorem keeps_validateMerge (ix : MergeIx) : Keeps id (validateMerge ix : PoolM HEIGHT K Unit) := by
  apply Keeps.ite (.throw _)
  apply Keeps.bind (keeps_checkFieldElements _ _)
  intro _
  apply Keeps.bind (keeps_checkNonzeroFieldElements _ _)
  intro _
  exact Keeps.bind (keeps_checkFieldElements _ _) fun _ => keeps_checkFieldElements _ _

variable {accounts : MergeAccounts} {ix : MergeIx} {clock : Clock} {address : Address}
  {treeId : UInt16} {closeBeforeIndex : Nat} {α : Type}

theorem run_processMerge_ok {event : SpendEvent} {proof : SpendProof}
    (h : (processMerge env accounts ix clock).run ledger = .ok (event, proof) ledger') :
    ∃ queued queuedLedger created write fee appended proofInputs,
      accounts.nullifierPdas.length = ix.nullifiers.length ∧
      (withTree treeError accounts.inputTree (queueInputs env.tree.hashv accounts.inputTree
        (resolveTreeSlot ix.context) ix.nullifiers ix.nullifiers.length)).run ledger
          = .ok queued queuedLedger ∧
      (createNullifierPdas env.runtime accounts.payer (accounts.nullifierPdas.zip ix.nullifiers)
        queued.result).run queuedLedger = .ok () created ∧
      (applyMergeOutput env.tree.hashv accounts.outputTree ix.outputUtxoHash clock.slot
        (accounts.outputTree = accounts.inputTree)).run created = .ok (write, fee) appended ∧
      (collectTreeFee accounts.payer accounts.outputTree fee).run appended = .ok () ledger' ∧
      proofInputs = (⟨ix.nullifiers, ix.outputUtxoHash, queued.slot, treeIdField write.outputTreeId,
        ix.privateTxHash, boolField queued.allowDummyInputs⟩ : MergeProofInputs) ∧
      env.verifyMerge proofInputs ix.proof = .ok () ∧
      event = ⟨[(queued.result.tree, queued.result.firstInputQueueSeq)], accounts.outputTree,
        write.outputLeafIndex⟩ ∧
      proof = .merge proofInputs ix.proof := by
  obtain ⟨_, _, hvalidate, h⟩ := of_run_bind h
  rw [(keeps_validateMerge ix).state_eq hvalidate] at h
  obtain ⟨_, _, hexpiry, h⟩ := of_run_bind h
  rw [(keeps_checkNotExpired _ _).state_eq hexpiry] at h
  obtain ⟨hpdas, h⟩ := of_run_check h
  obtain ⟨queued, queuedLedger, hqueue, h⟩ := of_run_bind h
  obtain ⟨_, created, hcreate, h⟩ := of_run_bind h
  obtain ⟨⟨write, fee⟩, appended, houtput, h⟩ := of_run_bind h
  obtain ⟨_, collected, hfee, h⟩ := of_run_bind h
  obtain ⟨_, hverify, hpure⟩ := of_run_mapErr_bind h
  cases hpure
  exact ⟨queued, queuedLedger, created, write, fee, appended, _, not_not.mp hpdas, hqueue, hcreate,
    houtput, hfee, rfl, hverify, rfl, rfl⟩

theorem run_processMerge_nullifiers {result : SpendEvent × SpendProof}
    (h : (processMerge env accounts ix clock).run ledger = .ok result ledger') : ix.nullifiers ≠ [] := by
  obtain ⟨_, _, hvalidate, _⟩ := of_run_bind h
  unfold validateMerge at hvalidate
  obtain ⟨hwidth, hvalidate⟩ := of_run_check hvalidate
  intro hnil
  rw [hnil] at hwidth
  exact hwidth rfl

theorem processMerge_simulates {event : SpendEvent} {proof : SpendProof}
    (h : (processMerge env accounts ix clock).run ledger = .ok (event, proof) ledger') :
    ∃ group, PoolStep env (2 ^ HEIGHT) ledger.spendView (.queue group) ledger'.spendView ∧
      group.tree = accounts.inputTree ∧ group.nullifiers = ix.nullifiers ∧
      Justifies env proof group := by
  obtain ⟨queued, queuedLedger, created, write, fee, appended, proofInputs, hpdas, hqueue, hcreate,
    houtput, hfee, rfl, hverify, rfl, rfl⟩ := run_processMerge_ok h
  have hview : ledger'.spendView = created.spendView :=
    (lamportFree_spendView.collectTreeFee _ _ _ hfee).trans (keeps_applyMergeOutput _ _ _ _ _ houtput)
  have hsnd : (accounts.nullifierPdas.zip ix.nullifiers).map (·.2) = ix.nullifiers :=
    List.map_snd_zip (Nat.le_of_eq hpdas.symm)
  refine ⟨⟨accounts.inputTree, ix.nullifiers, queued.slot, queued.allowDummyInputs⟩, ?_, rfl, rfl,
    hverify, ?_, ?_⟩
  · rw [hview]
    exact poolStep_queue (resolvesSlot_resolveTreeSlot ix.context) hsnd rfl hqueue hcreate
  · intro nullifier hmem
    exact ⟨hmem, rfl⟩
  · intro hallows
    rwa [SpendProof.allowsDummyInputs, boolField_ne_zero] at hallows

/-! ### Batch updates -/

theorem run_updateNullifierTree_ok {data : InstructionDataBatchNullifyInputs}
    {tree tree' : TreeAccountLayout HEIGHT K} {result : Option (NullifierTreeUpdateEvent × Nat)}
    (h : (updateNullifierTree env.tree address data).run tree = .ok result tree') :
    ∃ cascade, (NullifierTreeLayout.updateTreeFromQueue env.tree address data).run tree.nullifier
        = .ok cascade tree'.nullifier ∧
      tree'.treeId = tree.treeId := by
  obtain ⟨cascade, updated, hupdate, h⟩ := of_run_bind h
  obtain ⟨nullifier, hrun, rfl⟩ := run_within_eq_ok_iff.mp hupdate
  cases hevent : cascade.event with
  | none =>
      rw [hevent] at h
      cases h
      exact ⟨cascade, hrun, rfl⟩
  | some event =>
      rw [hevent] at h
      obtain ⟨paid, taken, htake, hpure⟩ := of_run_bind h
      cases hpure
      have htaken : Keeps TreeAccountLayout.side
          (TreeAccountLayout.takeAppendReimbursement event.numUpdate : TreeAccountM HEIGHT K Nat) :=
        Keeps.bind .get fun _ => keeps_takeReimbursement _ _
      have hside := keeps_treeMethod htaken htake
      have hnullifier : tree'.nullifier = nullifier := congrArg NullifierSide.nullifier hside
      rw [← hnullifier] at hrun
      exact ⟨cascade, hrun, congrArg NullifierSide.treeId hside⟩

theorem processBatchUpdate_simulates {recipient : Address}
    {data : InstructionDataBatchNullifyInputs} {event : Option NullifierTreeUpdateEvent}
    (h : (processBatchUpdateNullifierTree env address recipient data).run ledger = .ok event ledger') :
    PoolStep env (2 ^ HEIGHT) ledger.spendView (.update address data) ledger'.spendView := by
  obtain ⟨_, _, hrecipient, h⟩ := of_run_bind h
  rw [(keeps_checkReimbursementRecipient recipient).state_eq hrecipient] at h
  obtain ⟨result, updated, hupdate, h⟩ := of_run_bind h
  obtain ⟨tree, tree', htree, hrun, rfl⟩ := run_withTree_ok hupdate
  obtain ⟨cascade, hcascade, htreeId⟩ := run_updateNullifierTree_ok hrun
  have hview : ledger'.spendView = (ledger.setData address (.tree tree')).spendView := by
    cases result with
    | none =>
        cases h
        rfl
    | some paid =>
        obtain ⟨_, reimbursed, hpay, hpure⟩ := of_run_bind h
        cases hpure
        exact lamportFree_spendView.payReimbursement _ _ _ _ hpay
  have hbefore : ledger.spendView.side address = some tree.side := by
    simp [Ledger.spendView, htree]
  have hafter : tree'.side = { tree.side with nullifier := tree'.nullifier } := by
    rw [TreeAccountLayout.side, htreeId]
    rfl
  rw [hview, Ledger.spendView_setData_tree htree, hafter]
  exact .update hbefore hcascade

/-! ### Closing PDAs -/

theorem run_loadNullifierPda_ok {nullifierPda : Address} {record : NullifierPda}
    (h : (loadNullifierPda nullifierPda treeId).run ledger = .ok record ledger') :
    ledger.nullifierPda nullifierPda = some record ∧ record.treeId = treeId ∧ ledger = ledger' := by
  replace h := of_run_get_bind h
  split at h
  case h_1 => cases h
  case h_2 found hfound =>
    obtain ⟨-, h⟩ := of_run_check h
    obtain ⟨hid, h⟩ := of_run_check h
    cases h
    exact ⟨hfound, not_not.mp hid, rfl⟩

theorem poolStep_close (env : PoolEnv) {nullifierPda : Address} {side : NullifierSide K}
    (hside : ledger.spendView.side address = some side) (hid : side.treeId = treeId)
    (hclose : side.nullifier.closeBeforeIndex = closeBeforeIndex)
    (h : (closeNullifierPda treeId closeBeforeIndex address nullifierPda).run ledger = .ok () ledger') :
    PoolStep env (2 ^ HEIGHT) ledger.spendView (.close nullifierPda) ledger'.spendView := by
  obtain ⟨record, _, hload, h⟩ := of_run_bind h
  obtain ⟨hrecord, hrecordId, rfl⟩ := run_loadNullifierPda_ok hload
  obtain ⟨hclosable, h⟩ := of_run_check h
  replace h := of_run_get_bind h
  obtain ⟨balance, _, h⟩ := of_run_okOr_bind h
  cases h
  have hlt : record.queueIndex < side.nullifier.closeBeforeIndex := by
    rw [hclose]
    exact of_decide_eq_true (Bool.of_not_eq_false hclosable)
  have hview : ∀ current : Ledger HEIGHT K, current.spendView = ledger.spendView →
      (current.setData nullifierPda .unused).spendView
        = ⟨ledger.spendView.side, Function.update ledger.spendView.pda nullifierPda none⟩ := by
    intro current hcurrent
    have hpda : current.nullifierPda nullifierPda = some record :=
      (congrFun (congrArg SpendView.pda hcurrent) nullifierPda).trans hrecord
    rw [Ledger.spendView_setData_unused hpda, hcurrent]
  rw [hview _ ((Ledger.spendView_setLamports _ _ _).trans (Ledger.spendView_setLamports _ _ _))]
  exact .close hside hrecord (hrecordId.trans hid.symm) hlt

theorem run_closePdas_ok (env : PoolEnv) {nullifierPdas : List Address} {side : NullifierSide K}
    (hside : ledger.spendView.side address = some side) (hid : side.treeId = treeId)
    (hclose : side.nullifier.closeBeforeIndex = closeBeforeIndex)
    (h : (closePdas treeId closeBeforeIndex address nullifierPdas).run ledger = .ok () ledger') :
    PoolTrace env (2 ^ HEIGHT) ledger.spendView (nullifierPdas.map .close) ledger'.spendView := by
  induction nullifierPdas generalizing ledger with
  | nil =>
      cases h
      exact .start
  | cons nullifierPda nullifierPdas ih =>
      obtain ⟨_, closed, hfirst, hrest⟩ := of_run_bind h
      have hstep := poolStep_close env hside hid hclose hfirst
      have hkept : closed.spendView.side = ledger.spendView.side := by
        generalize hclosed : closed.spendView = after at hstep
        cases hstep
        rfl
      exact (PoolTrace.single hstep).append (ih (by rw [hkept, hside]) hrest)

theorem run_takeClose_ok {closed paid : Nat} {tree tree' : TreeAccountLayout HEIGHT K}
    (h : (takeClose closed).run tree = .ok (treeId, closeBeforeIndex, paid) tree') :
    tree.treeId = treeId ∧ tree.nullifier.closeBeforeIndex = closeBeforeIndex ∧
      tree'.side = tree.side := by
  cases h
  exact ⟨rfl, rfl, rfl⟩

theorem processClose_simulates {recipient : Address} {nullifierPdas : List Address}
    (h : (processCloseNullifierPdas env address recipient nullifierPdas).run ledger = .ok () ledger') :
    PoolTrace env (2 ^ HEIGHT) ledger.spendView (nullifierPdas.map .close) ledger'.spendView := by
  obtain ⟨_, _, hrecipient, h⟩ := of_run_bind h
  rw [(keeps_checkReimbursementRecipient recipient).state_eq hrecipient] at h
  obtain ⟨-, h⟩ := of_run_check h
  obtain ⟨⟨treeId, closeBeforeIndex, paid⟩, taken, htake, h⟩ := of_run_bind h
  obtain ⟨_, closed, hclose, hpay⟩ := of_run_bind h
  obtain ⟨tree, tree', htree, hrun, rfl⟩ := run_withTree_ok htake
  have hbefore : ledger.spendView.side address = some tree.side := by
    simp [Ledger.spendView, htree]
  obtain ⟨htreeId, hcloseBefore, hside⟩ := run_takeClose_ok hrun
  have hview : (ledger.setData address (.tree tree')).spendView = ledger.spendView := by
    rw [Ledger.spendView_setData_tree htree, hside, ← hbefore, Function.update_eq_self]
  have hafter := hbefore
  rw [← hview] at hafter
  have htrace := run_closePdas_ok env hafter htreeId hcloseBefore hclose
  rw [hview] at htrace
  rw [lamportFree_spendView.payReimbursement _ _ _ _ hpay]
  exact htrace

/-! ### Runs -/

theorem ofTree_append (address : Address) (first second : List (Address × α)) :
    ofTree address (first ++ second) = ofTree address first ++ ofTree address second := by
  simp [ofTree]

theorem ofTree_map_pair (address tree : Address) (values : List α) :
    ofTree address (values.map fun value => (tree, value)) = if tree = address then values else [] := by
  unfold ofTree
  rw [List.filter_map, List.map_map]
  by_cases h : tree = address
  · simp [Function.comp_def, h]
  · simp [Function.comp_def, h]

theorem queuedIn_append (address : Address) (first second : List PoolEvent) :
    queuedIn address (first ++ second) = queuedIn address first ++ queuedIn address second :=
  List.flatMap_append

theorem submittedTo_append (address : Address) (first second : List PoolEvent) :
    submittedTo address (first ++ second) = submittedTo address first ++ submittedTo address second :=
  List.flatMap_append

/-- A trace with the instructions it stands for: what they spend, what they submit, and the proofs they
verified. -/
structure PoolFollows (env : PoolEnv) (reserve : Nat) (before after : SpendView K) (events : List PoolEvent)
    (spends : List (Address × Bytes32))
    (updates : List (Address × InstructionDataBatchNullifyInputs)) (proofs : List SpendProof) : Prop where
  trace : PoolTrace env reserve before events after
  queued : ∀ address, queuedIn address events = ofTree address spends
  submitted : ∀ address, submittedTo address events = ofTree address updates
  justified : ∀ group, .queue group ∈ events → ∃ proof ∈ proofs, Justifies env proof group

theorem PoolFollows.append {reserve : Nat} {first second third : SpendView K}
    {events events' : List PoolEvent} {spends spends' : List (Address × Bytes32)}
    {updates updates' : List (Address × InstructionDataBatchNullifyInputs)} {proofs proofs' : List SpendProof}
    (h : PoolFollows env reserve first second events spends updates proofs)
    (h' : PoolFollows env reserve second third events' spends' updates' proofs') :
    PoolFollows env reserve first third (events ++ events') (spends ++ spends') (updates ++ updates')
      (proofs ++ proofs') where
  trace := h.trace.append h'.trace
  queued address := by rw [queuedIn_append, ofTree_append, h.queued, h'.queued]
  submitted address := by rw [submittedTo_append, ofTree_append, h.submitted, h'.submitted]
  justified group hgroup := by
    rcases List.mem_append.mp hgroup with hgroup | hgroup
    · obtain ⟨proof, hmem, hjustifies⟩ := h.justified group hgroup
      exact ⟨proof, List.mem_append_left _ hmem, hjustifies⟩
    · obtain ⟨proof, hmem, hjustifies⟩ := h'.justified group hgroup
      exact ⟨proof, List.mem_append_right _ hmem, hjustifies⟩

theorem flatMap_close (nullifierPdas : List Address) {f : PoolEvent → List α}
    (hf : ∀ nullifierPda, f (.close nullifierPda) = []) :
    (nullifierPdas.map PoolEvent.close).flatMap f = [] := by
  induction nullifierPdas with
  | nil => rfl
  | cons nullifierPda nullifierPdas ih =>
      rw [List.map_cons, List.flatMap_cons, hf, ih]
      rfl

theorem process_follows {instruction : Instruction} {proof : Option SpendProof}
    (h : (process env instruction).run ledger = .ok proof ledger') :
    ∃ events, PoolFollows env (2 ^ HEIGHT) ledger.spendView ledger'.spendView events instruction.spends
      instruction.updates proof.toList := by
  cases instruction with
  | transact accounts ix clock =>
      obtain ⟨⟨event, verified⟩, _, hrun, hpure⟩ := of_run_bind h
      cases hpure
      obtain ⟨events, htrace, hqueued, hsubmitted, hjustified⟩ := processTransact_simulates hrun
      refine ⟨events, htrace, hqueued, hsubmitted, ?_⟩
      intro group hgroup
      exact ⟨verified, List.mem_singleton_self verified, hjustified group hgroup⟩
  | merge accounts ix clock =>
      obtain ⟨⟨event, verified⟩, _, hrun, hpure⟩ := of_run_bind h
      cases hpure
      obtain ⟨group, hstep, htree, hnullifiers, hjustifies⟩ := processMerge_simulates hrun
      refine ⟨[.queue group], .single hstep, ?_, fun _ => rfl, ?_⟩
      · intro address
        rw [queuedIn, List.flatMap_singleton, PoolEvent.queued, htree, hnullifiers]
        exact (ofTree_map_pair address accounts.inputTree ix.nullifiers).symm
      · intro group' hgroup
        cases List.mem_singleton.mp hgroup
        exact ⟨verified, List.mem_singleton_self verified, hjustifies⟩
  | batchUpdateNullifierTree tree recipient data =>
      obtain ⟨event, _, hrun, hpure⟩ := of_run_bind h
      cases hpure
      refine ⟨[.update tree data], .single (processBatchUpdate_simulates hrun), fun _ => rfl, ?_, ?_⟩
      · intro address
        rw [submittedTo, List.flatMap_singleton, PoolEvent.submitted]
        exact (ofTree_map_pair address tree [data]).symm
      · intro group hgroup
        cases List.mem_singleton.mp hgroup
  | closeNullifierPdas tree recipient nullifierPdas =>
      obtain ⟨_, _, hrun, hpure⟩ := of_run_bind h
      cases hpure
      refine ⟨nullifierPdas.map .close, processClose_simulates hrun, ?_, ?_, ?_⟩
      · intro address
        exact flatMap_close nullifierPdas fun _ => rfl
      · intro address
        exact flatMap_close nullifierPdas fun _ => rfl
      · intro group hgroup
        obtain ⟨_, _, hclose⟩ := List.mem_map.mp hgroup
        cases hclose

/-- The pool refines the protocol: every run is a trace from its genesis. -/
theorem PoolReachable.follows {run : PoolRun HEIGHT K} (h : PoolReachable env run) :
    ∃ (genesis : Ledger HEIGHT K) (events : List PoolEvent), Genesis genesis ∧
      PoolFollows env (2 ^ HEIGHT) genesis.spendView run.ledger.spendView events run.accepted
        run.submitted run.verified := by
  induction h with
  | @genesis ledger hgenesis =>
      refine ⟨ledger, [], hgenesis, .start, fun _ => rfl, fun _ => rfl, ?_⟩
      intro group hgroup
      cases hgroup
  | @step run _ instruction ih =>
      obtain ⟨genesis, events, hgenesis, hfollows⟩ := ih
      cases hrun : (process env instruction).run run.ledger with
      | error e failed =>
          rw [PoolRun.step, hrun]
          exact ⟨genesis, events, hgenesis, hfollows⟩
      | ok proof ledger =>
          rw [PoolRun.step, hrun]
          obtain ⟨new, hnew⟩ := process_follows hrun
          exact ⟨genesis, events ++ new, hgenesis, hfollows.append hnew⟩

end Zolana
