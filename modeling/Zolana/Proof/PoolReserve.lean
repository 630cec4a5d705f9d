import Zolana.Proof.PoolInvariant

/-!
# The reserve of the nullifier tree

A spend with dummy inputs is only let through while its nullifiers fit above the reserve, and any other
spend queues real nullifiers only. So the reserve shrinks by real nullifiers alone, and those that are not
queued yet always fit.
-/

namespace Zolana

open NullifierTreeLayout Fallible

variable {HEIGHT K reserve : Nat} {env : PoolEnv}

/-! ### Along a trace -/

section Trace

variable {view view' start : SpendView K} {event : PoolEvent} {events : List PoolEvent}

variable {address : Address} {side : NullifierSide K}

theorem PoolStep.queued_cases (hstep : PoolStep env reserve view event view')
    (hside : view.side address = some side) :
    event.queued address = [] ∨ ∃ group after pda, event = .queue group ∧ group.tree = address ∧
      Queues env reserve group side after view.pda pda := by
  cases hstep with
  | @queue group before after pda hbefore hqueues =>
      by_cases htree : group.tree = address
      · subst htree
        obtain rfl := Option.some.inj (hside.symm.trans hbefore)
        exact .inr ⟨group, after, pda, rfl, rfl, hqueues⟩
      · exact .inl (if_neg htree)
  | update _ _ => exact .inl rfl
  | close _ _ _ _ => exact .inl rfl

theorem PoolConsistent.queueNextIndex (h : PoolConsistent env events view)
    (hside : view.side address = some side) :
    side.nullifier.queueNextIndex = (queuedIn address events).length + 1 ∧
      side.nullifier.queueNextIndex ≤ side.nullifier.capacity := by
  obtain ⟨applied, hconsistent⟩ := h.consistent address side hside
  exact ⟨hconsistent.queueNextIndex, hconsistent.queue_le⟩

theorem PoolTrace.reserve_le {real : Bytes32 → Bytes32 → Bool}
    (h : PoolTrace env reserve start events view) (hstart : InitialView start) (hreserve : reserve < 2 ^ 40)
    (hreal : ∀ group, .queue group ∈ events →
      group.allowDummyInputs = true ∨ ∀ nullifier ∈ group.nullifiers, real group.slot.id nullifier)
    (hside : view.side address = some side) :
    reserve ≤ (queuedIn address events).countP (real (treeIdField side.treeId)) +
      (side.nullifier.capacity - side.nullifier.queueNextIndex) := by
  induction h generalizing side with
  | start =>
      obtain ⟨hK, Z, _, hinitialised⟩ := hstart.initialised address side hside
      rw [hinitialised]
      change reserve ≤ 0 + (2 ^ 40 - 1)
      omega
  | @step events event view view' htrace hstep ih =>
      have hconsistent := htrace.consistent hstart
      obtain ⟨before, hbefore, hsideStep⟩ := hconsistent.sideStep hstep hside
      have hold := ih (fun group hgroup => hreal group (List.mem_append_left _ hgroup)) hbefore
      obtain ⟨hnext, _⟩ := hconsistent.queueNextIndex hbefore
      obtain ⟨hnext', _⟩ := (hconsistent.step hstep).queueNextIndex hside
      rw [queuedIn_snoc, List.length_append] at hnext'
      rw [queuedIn_snoc, List.countP_append, hsideStep.treeId, hsideStep.capacity, hnext']
      rcases hstep.queued_cases hbefore with hnothing | ⟨group, after, pda, rfl, rfl, hqueues⟩
      · rw [hnothing, List.countP_nil, List.length_nil]
        omega
      · have hqueued : (PoolEvent.queue group).queued group.tree = group.nullifiers := if_pos rfl
        rw [hqueued]
        rcases hreal group (by simp) with hallow | hall
        · have hroom := hqueues.allow hallow
          omega
        · rw [hqueues.slotId] at hall
          rw [List.countP_eq_length.mpr hall]
          omega

end Trace

/-! ### The insertions of a spend -/

theorem Consistent.insertNullifiers_ne_treeIsFull {env : Env} {Z : Nat} {run : Run K}
    {nullifiers : List Bytes32} {e : NullifierTreeError} {tree : NullifierTreeLayout K}
    (h : Consistent env Z run) (hroom : run.tree.queueNextIndex + nullifiers.length ≤ run.tree.capacity)
    (hrun : (insertNullifiers env.hashv nullifiers).run run.tree = .error e tree) : e ≠ .treeIsFull := by
  induction nullifiers generalizing run with
  | nil => cases hrun
  | cons nullifier nullifiers ih =>
      rw [List.length_cons] at hroom
      rcases h.run_insert nullifier with ⟨tree', hinsert, _, _, _, hcapacity, hconsistent⟩ |
        ⟨e', hrejects, hinsert⟩
      · rcases run_bind_eq_error_iff.mp hrun with hfirst | ⟨index, mid, hfirst, hrest⟩
        · rw [hinsert] at hfirst
          cases hfirst
        · rw [hinsert] at hfirst
          cases hfirst
          refine ih hconsistent ?_ hrest
          have hnext : tree'.queueNextIndex = (run.queued ++ [nullifier]).length + 1 :=
            hconsistent.queueNextIndex
          rw [List.length_append, List.length_singleton, ← h.queueNextIndex] at hnext
          change tree'.queueNextIndex + nullifiers.length ≤ tree'.capacity
          omega
      · rcases run_bind_eq_error_iff.mp hrun with hfirst | ⟨index, mid, hfirst, hrest⟩
        · rw [hinsert] at hfirst
          cases hfirst
          rintro rfl
          cases hrejects with
          | treeIsFull hfull => omega
        · rw [hinsert] at hfirst
          cases hfirst

/-- Any error but the one of a spend whose nullifiers do not fit the nullifier tree. -/
def NotTreeIsFull (e : ProgramError) : Prop := e ≠ .causedBy .nullifierTreeUpdateFailed .treeIsFull

theorem NotTreeIsFull.custom (e : ShieldedPoolError) : NotTreeIsFull (.custom e) := by
  simp [NotTreeIsFull]

theorem NotTreeIsFull.arithmeticOverflow : NotTreeIsFull .arithmeticOverflow := by
  simp [NotTreeIsFull]

theorem NotTreeIsFull.treeError (e : TreeError) : NotTreeIsFull (treeError e) := by
  cases e <;> exact .custom _

section Errors

/-! ### Every other step of a spend -/

variable {values : List Bytes32} {error : ShieldedPoolError} {clock : Clock} {runtime : Runtime}
variable {payer tree nullifierPda : Address} {nullifierPdas : List (Address × Bytes32)}
variable {inputTree : InputTreeResult} {treeMinimum : Nat}

theorem raises_checkFieldElements :
    Raises NotTreeIsFull (checkFieldElements values error : PoolM HEIGHT K Unit) :=
  .ite (.pure _) (.throw (.custom _))

theorem raises_checkNonzeroFieldElements :
    Raises NotTreeIsFull (checkNonzeroFieldElements values error : PoolM HEIGHT K Unit) :=
  .ite (.throw (.custom _)) (.pure _)

theorem raises_checkNotExpired {expiryUnixTs : Nat} :
    Raises NotTreeIsFull (checkNotExpired expiryUnixTs clock : PoolM HEIGHT K Unit) :=
  .ite (.throw (.custom _)) (.pure _)

theorem raises_collectTreeFee {amount : Nat} :
    Raises NotTreeIsFull (collectTreeFee payer tree amount : PoolM HEIGHT K Unit) := by
  refine .ite (.pure _) (.bind .get ?_)
  intro ledger
  refine .ite (.throw (by simp [NotTreeIsFull])) (.bind (.update _) ?_)
  exact fun _ => .update _

theorem raises_initNullifierPda {nullifier : Bytes32} {record : NullifierPda} : Raises NotTreeIsFull
      (initNullifierPda runtime tree nullifierPda nullifier record : PoolM HEIGHT K Unit) := by
  refine .bind ?_ fun _ => .update _
  refine .ite (.throw (.custom _)) (.bind .get ?_)
  exact fun ledger => .ite (.throw (.custom _)) (.pure _)

theorem raises_topUp :
    Raises NotTreeIsFull (topUp runtime treeMinimum tree nullifierPda : PoolM HEIGHT K Unit) := by
  refine .bind .get ?_
  intro ledger
  refine .ite (.pure _) (.ite (.throw (.custom _)) (.bind (.update _) ?_))
  exact fun _ => .update _

theorem raises_createPdas {position : Nat} : Raises NotTreeIsFull
      (createPdas runtime treeMinimum inputTree position nullifierPdas : PoolM HEIGHT K Unit) := by
  induction nullifierPdas generalizing position with
  | nil => exact .pure _
  | cons entry nullifierPdas ih =>
      refine .bind (.okOr _ .arithmeticOverflow) ?_
      intro queueIndex
      refine .bind raises_initNullifierPda ?_
      intro _
      exact .bind raises_topUp fun _ => ih

theorem raises_createNullifierPdas : Raises NotTreeIsFull
      (createNullifierPdas runtime payer nullifierPdas inputTree : PoolM HEIGHT K Unit) := by
  refine .bind (.okOr _ .arithmeticOverflow) ?_
  intro treeMinimum
  exact .bind raises_collectTreeFee fun _ => raises_createPdas

variable {address : Address}

theorem raises_withTree {α : Type} {act : EStateM ProgramError (TreeAccountLayout HEIGHT K) α}
    (hact : Raises NotTreeIsFull act) : Raises NotTreeIsFull (withTree treeError address act) :=
  .bind (raises_checkTreeAccount .treeError address) fun _ => .zoom (.custom _) hact

variable {hashv : Hashv} {outputTree : Address} {slot : Nat} {isInputTree : Bool}

theorem raises_creditOutputTreeFee : Raises NotTreeIsFull
      (creditOutputTreeFee isInputTree : EStateM ProgramError (TreeAccountLayout HEIGHT K) Nat) :=
  .ite (.pure _) (.within .treeError _)

theorem raises_applyOutputTree {outputs : List Bytes32} : Raises NotTreeIsFull
      (applyOutputTree hashv outputTree outputs slot isInputTree :
        PoolM HEIGHT K (TreeWrite × Nat)) := by
  refine raises_withTree (.bind .get ?_)
  intro tree
  refine .bind (.within .treeError _) ?_
  intro _
  have hwrite : ∀ treeFee, Raises NotTreeIsFull (do
      pure (⟨tree.utxo.nextIndex, (← get).treeId⟩, treeFee) :
        EStateM ProgramError (TreeAccountLayout HEIGHT K) (TreeWrite × Nat)) :=
    fun _ => .bind .get fun _ => .pure _
  exact .ite (.bind (.pure _) hwrite) (.bind (raises_creditOutputTreeFee) hwrite)

theorem raises_applyMergeOutput {outputUtxoHash : Bytes32} : Raises NotTreeIsFull
      (applyMergeOutput hashv outputTree outputUtxoHash slot isInputTree :
        PoolM HEIGHT K (MergeTreeWrite × Nat)) := by
  refine raises_withTree (.bind .get ?_)
  intro tree
  refine .bind .get ?_
  intro tree'
  refine .bind (.within .treeError _) ?_
  exact fun _ => .bind (raises_creditOutputTreeFee) fun _ => .pure _

/-! ### The queueing of a tree's inputs -/

variable {ledger ledger' : Ledger HEIGHT K}

/-- A tree, if there is one, has room for a number of nullifiers. -/
def HasRoom (env : PoolEnv) (view : SpendView K) (address : Address) (count : Nat) : Prop :=
  ∀ side, view.side address = some side →
    (∃ Z queued applied submitted, Consistent env.tree Z ⟨side.nullifier, queued, applied, submitted⟩) ∧
      side.nullifier.queueNextIndex + count ≤ side.nullifier.capacity

theorem raisesFrom_queueInputs {nullifiers : List Bytes32} {count : Nat}
    {resolve : TreeAccountLayout HEIGHT K → Except TreeError TreeSlot}
    (hroom : HasRoom env ledger.spendView address nullifiers.length) :
    RaisesFrom NotTreeIsFull ledger (withTree treeError address
      (queueInputs env.tree.hashv address resolve nullifiers count)) := by
  refine .bind_keeps (keeps_checkTreeAccount treeError address)
    (raises_checkTreeAccount .treeError address) ?_
  intro _
  refine .zoom (.custom _) ?_
  intro tree htree
  obtain ⟨⟨Z, queued, applied, submitted, hconsistent⟩, hfits⟩ :=
    hroom tree.side (by simp [Ledger.spendView, htree])
  refine .bind_keeps .get .get ?_
  intro loaded
  refine .bind_keeps (.mapErr _ _) (.mapErr .treeError _) ?_
  intro headroom
  refine .bind_keeps (.mapErr _ _) (.mapErr .treeError _) ?_
  intro slot
  refine .bind (.within ?_) ?_
  · intro e after hinsert hfull
    exact hconsistent.insertNullifiers_ne_treeIsFull hfits hinsert
      (ProgramError.causedBy.inj hfull).2
  · intro _ inserted _
    refine .of_raises (.bind (.within .treeError _) ?_) inserted
    exact fun treeFee => .bind (.update _) fun _ => .bind .get fun _ => .pure _

theorem HasRoom.of_queue {other : Address} {nullifiers : List Bytes32} {count room : Nat}
    {queued : QueuedInputs} {resolve : TreeAccountLayout HEIGHT K → Except TreeError TreeSlot} {mid : Ledger HEIGHT K}
    (hroom : HasRoom env ledger.spendView other room) (hne : other ≠ address)
    (hqueue : (withTree treeError address (queueInputs env.tree.hashv address resolve nullifiers count)).run ledger =
      .ok queued mid)
    (hcreate : (createNullifierPdas env.runtime payer nullifierPdas queued.result).run mid = .ok () ledger') :
    HasRoom env ledger'.spendView other room := by
  obtain ⟨tree, tree', htree, _, rfl⟩ := run_withTree_ok hqueue
  obtain ⟨hside, _⟩ := run_createNullifierPdas_ok hcreate
  intro side hother
  rw [hside, Ledger.spendView_setData_tree htree] at hother
  exact hroom side ((Function.update_of_ne hne ..).symm.trans hother)

theorem raisesFrom_applyTrees {inputs : List InputUtxo} {nullifierPdas : List Address} {treeIndex : Nat}
    {trees : List (Address × TreeContext × Nat)} (hnodup : (trees.map (·.1)).Nodup)
    (hroom : ∀ i entry, trees[i]? = some entry →
      HasRoom env ledger.spendView entry.1 (treeNullifiers inputs (treeIndex + i)).length) :
    RaisesFrom NotTreeIsFull ledger (applyTrees env payer inputs nullifierPdas treeIndex trees) := by
  induction trees generalizing treeIndex ledger with
  | nil => exact .of_raises (.pure _) ledger
  | cons entry trees ih =>
      obtain ⟨tree, context, count⟩ := entry
      obtain ⟨hnotMem, hrest⟩ := List.nodup_cons.mp hnodup
      refine .bind (raisesFrom_queueInputs (hroom 0 _ rfl)) ?_
      intro queued mid hqueue
      refine .bind (.of_raises raises_createNullifierPdas mid) ?_
      intro _ created hcreate
      refine .bind (ih hrest ?_) fun rest after _ => .of_raises (.pure _) after
      intro i entry hentry
      have hne : entry.1 ≠ tree := by
        intro heq
        exact hnotMem (List.mem_map.mpr ⟨entry, List.mem_of_getElem? hentry, heq⟩)
      have hlater := hroom (i + 1) entry hentry
      rw [show treeIndex + (i + 1) = treeIndex + 1 + i by omega] at hlater
      exact hlater.of_queue hne hqueue hcreate

theorem raisesFrom_applyInputTrees {accounts : TransactAccounts} {ix : TransactIx}
    {counts : List Nat} (hnodup : accounts.inputTrees.Nodup)
    (hroom : ∀ i address, accounts.inputTrees[i]? = some address →
      HasRoom env ledger.spendView address (treeNullifiers ix.inputs i).length) :
    RaisesFrom NotTreeIsFull ledger (applyInputTrees env accounts ix counts) := by
  unfold applyInputTrees
  split
  · exact .of_raises (.throw (.custom _)) ledger
  · split
    · exact .of_raises (.throw (.custom _)) ledger
    · refine .bind (raisesFrom_applyTrees ?_ ?_) ?_
      · rw [List.zip_eq_zip_take_min, List.map_fst_zip (by simp)]
        exact hnodup.sublist (List.take_sublist _ _)
      · intro i entry hentry
        rw [Nat.zero_add]
        exact hroom i entry.1 (List.getElem?_zip_eq_some.mp hentry).1
      · intro queued applied _
        exact .of_raises (.bind (.mapErr .custom _) fun _ => .pure _) applied

/-! ### Instructions -/

/-- Every tree has room for what an instruction spends from it. -/
def Instruction.Fits (env : PoolEnv) (view : SpendView K) (instruction : Instruction) : Prop :=
  ∀ address, HasRoom env view address (ofTree address instruction.spends).length

theorem raises_validateTransact {ix : TransactIx} :
    Raises NotTreeIsFull (validateTransact ix : PoolM HEIGHT K Unit) := by
  refine .ite (.throw (.custom _)) (.bind raises_checkFieldElements ?_)
  intro _
  refine .bind raises_checkFieldElements ?_
  intro _
  refine .bind raises_checkNonzeroFieldElements ?_
  exact fun _ => .bind raises_checkNonzeroFieldElements fun _ => raises_checkFieldElements

theorem raises_validateMerge {ix : MergeIx} :
    Raises NotTreeIsFull (validateMerge ix : PoolM HEIGHT K Unit) := by
  refine .ite (.throw (.custom _)) (.bind raises_checkFieldElements ?_)
  intro _
  refine .bind raises_checkNonzeroFieldElements ?_
  exact fun _ => .bind raises_checkFieldElements fun _ => raises_checkFieldElements

theorem raisesFrom_processTransact {accounts : TransactAccounts} {ix : TransactIx}
    (hfits : (Instruction.transact accounts ix clock).Fits env ledger.spendView) :
    RaisesFrom NotTreeIsFull ledger (processTransact env accounts ix clock) := by
  refine .bind_keeps (keeps_validateTransact ix) raises_validateTransact ?_
  intro _
  refine .bind_keeps (.mapErr _ _) (.mapErr .custom _) ?_
  intro counts
  refine .bind_keeps (keeps_checkNotExpired _ _) raises_checkNotExpired ?_
  intro _
  split
  case isTrue => exact .of_raises (.throw (.custom _)) ledger
  case isFalse hduplicate =>
    have hnodup : accounts.inputTrees.Nodup := not_not.mp hduplicate
    refine .bind (raisesFrom_applyInputTrees hnodup ?_) ?_
    · intro i address hi
      have hmem : address ∈ accounts.inputTrees := List.mem_of_getElem? hi
      have hroom := hfits address
      rw [ofTree_spends hnodup, if_pos hmem] at hroom
      rwa [(getElem?_eq_some_iff_of_nodup hnodup hmem i).mp hi]
    · intro ⟨queued, inputFlags⟩ applied _
      refine .of_raises (.bind raises_applyOutputTree ?_) applied
      intro ⟨treeWrite, outputTreeFee⟩
      refine .bind raises_collectTreeFee ?_
      exact fun _ => .bind (.mapErr .custom _) fun _ => .pure _

theorem raisesFrom_processMerge {accounts : MergeAccounts} {ix : MergeIx}
    (hfits : (Instruction.merge accounts ix clock).Fits env ledger.spendView) :
    RaisesFrom NotTreeIsFull ledger (processMerge env accounts ix clock) := by
  refine .bind_keeps (keeps_validateMerge ix) raises_validateMerge ?_
  intro _
  refine .bind_keeps (keeps_checkNotExpired _ _) raises_checkNotExpired ?_
  intro _
  split
  case isTrue => exact .of_raises (.throw (.custom _)) ledger
  case isFalse =>
    have hroom := hfits accounts.inputTree
    rw [Instruction.spends, ofTree_map_pair, if_pos rfl] at hroom
    refine .bind (raisesFrom_queueInputs hroom) ?_
    intro queued mid _
    refine .of_raises (.bind raises_createNullifierPdas ?_) mid
    intro _
    refine .bind raises_applyMergeOutput ?_
    intro ⟨treeWrite, outputTreeFee⟩
    refine .bind raises_collectTreeFee ?_
    exact fun _ => .bind (.mapErr .custom _) fun _ => .pure _

theorem raisesFrom_process {instruction : Instruction} (hspends : instruction.spends ≠ [])
    (hfits : instruction.Fits env ledger.spendView) :
    RaisesFrom NotTreeIsFull ledger (process env instruction) := by
  cases instruction with
  | transact accounts ix clock =>
      exact .bind (raisesFrom_processTransact hfits) fun _ after _ => .of_raises (.pure _) after
  | merge accounts ix clock =>
      exact .bind (raisesFrom_processMerge hfits) fun _ after _ => .of_raises (.pure _) after
  | batchUpdateNullifierTree tree recipient data => exact absurd rfl hspends
  | closeNullifierPdas tree recipient nullifierPdas => exact absurd rfl hspends

end Errors

end Zolana
