import Zolana.Proof.Commitment
import Zolana.Proof.PoolProcess

/-!
# The invariant of the spend protocol

Each tree stays consistent with the values queued in it. A queued value is guarded twice over: as long
as its queue index is not below the close watermark its PDA exists, and below the watermark every root
a spend can name commits it. So no value is ever queued again.
-/

namespace Zolana

open NullifierTreeLayout

variable {K reserve : Nat} {env : PoolEnv} {view view' start : SpendView K}
variable {event : PoolEvent} {events : List PoolEvent}

/-! ### The start -/

/-- The view of a ledger before its first spend. -/
structure InitialView (view : SpendView K) : Prop where
  initialised : ∀ address side, view.side address = some side →
    ∃ (hK : 0 < K) (Z : Nat), 0 < Z ∧ side.nullifier = Zolana.initialised hK Z 40
  treeId : ∀ a b side side', view.side a = some side → view.side b = some side' →
    side.treeId = side'.treeId → a = b

theorem validateParams_height {params : NullifierTreeInitParams} (h : params.validate K = .ok ()) :
    params.height = 40 := by
  unfold NullifierTreeInitParams.validate at h
  split at h
  case isTrue => cases h
  case isFalse hparams => exact not_not.mp (not_or.mp hparams).1

theorem initialised_of_init {HEIGHT height : Nat} {treeId : UInt16} {params : NullifierTreeInitParams}
    {fees : TreeFeeSchedule} {tree : TreeAccountLayout HEIGHT K}
    (h : (TreeAccountLayout.init height treeId params fees).run (.zeroed HEIGHT K) = .ok () tree) :
    ∃ (hK : 0 < K) (Z : Nat), 0 < Z ∧ tree.nullifier = initialised hK Z 40 := by
  have hinit := run_treeInit_ok h
  obtain ⟨hK, hZ, _, _, hinitialised⟩ := run_init hinit.nullifier
  rw [validateParams_height hinit.validParams] at hinitialised
  exact ⟨hK, params.inputQueueZkpBatchSize, hZ, hinitialised⟩

theorem Genesis.initialView {HEIGHT : Nat} {ledger : Ledger HEIGHT K} (h : Genesis ledger) :
    InitialView ledger.spendView where
  initialised address side hside := by
    obtain ⟨tree, htree, rfl⟩ := Option.map_eq_some_iff.mp hside
    obtain ⟨height, treeId, params, fees, hinit⟩ := h.init address tree htree
    exact initialised_of_init hinit
  treeId a b side side' ha hb hid := by
    obtain ⟨tree, htree, rfl⟩ := Option.map_eq_some_iff.mp ha
    obtain ⟨tree', htree', rfl⟩ := Option.map_eq_some_iff.mp hb
    exact h.treeId a b tree tree' htree htree' hid

/-! ### The invariant -/

structure PoolConsistent (env : PoolEnv) (events : List PoolEvent) (view : SpendView K) : Prop where
  consistent : ∀ address side, view.side address = some side →
    ∃ applied, Consistent env.tree side.nullifier.zkpBatchSize
      ⟨side.nullifier, queuedIn address events, applied, submittedTo address events⟩
  capacity : ∀ address side, view.side address = some side → side.nullifier.capacity = 2 ^ 40
  treeId : ∀ a b side side', view.side a = some side → view.side b = some side' →
    side.treeId = side'.treeId → a = b
  /-- A queued value is below the watermark or has its PDA. -/
  guarded : ∀ address side i nullifier, view.side address = some side →
    (queuedIn address events)[i]? = some nullifier →
    i + 1 < side.nullifier.closeBeforeIndex ∨
      ∃ pda, env.runtime.nullifierPdaAddress address nullifier = some pda ∧
        view.pda pda = some ⟨i + 1, side.treeId⟩

theorem InitialView.poolConsistent (env : PoolEnv) (h : InitialView view) : PoolConsistent env [] view where
  consistent address side hside := by
    obtain ⟨hK, Z, hZ, hinitialised⟩ := h.initialised address side hside
    rw [hinitialised]
    exact ⟨[], consistent_initial env.tree hK hZ (by decide)⟩
  capacity address side hside := by
    obtain ⟨hK, Z, _, hinitialised⟩ := h.initialised address side hside
    rw [hinitialised]
    rfl
  treeId := h.treeId
  guarded address side i nullifier _ hqueued := by cases hqueued

/-! ### One tree -/

section Tree

variable {Z : Nat} {run : Run K}

theorem Consistent.run_insertNullifiers {env : Env} {nullifiers : List Bytes32}
    {tree : NullifierTreeLayout K} (h : Consistent env Z run)
    (hrun : (insertNullifiers env.hashv nullifiers).run run.tree = .ok () tree) :
    Consistent env Z { run with tree, queued := run.queued ++ nullifiers } ∧
      tree.capacity = run.tree.capacity := by
  induction nullifiers generalizing run with
  | nil =>
      cases hrun
      rw [List.append_nil]
      exact ⟨h, rfl⟩
  | cons nullifier nullifiers ih =>
      obtain ⟨index, mid, hfirst, hrest⟩ := Fallible.of_run_bind hrun
      rcases h.run_insert nullifier with ⟨tree', hinsert, _, _, _, hcapacity, hconsistent⟩ |
        ⟨e, _, hinsert⟩
      · rw [hinsert] at hfirst
        cases hfirst
        obtain ⟨hall, hcapacity'⟩ := ih hconsistent hrest
        rw [List.append_assoc] at hall
        exact ⟨hall, hcapacity'.trans hcapacity⟩
      · rw [hinsert] at hfirst
        cases hfirst

/-- What a side keeps along a step, and what the step does to its run. -/
structure SideStep (env : PoolEnv) (events : List PoolEvent) (address : Address)
    (side side' : NullifierSide K) : Prop where
  treeId : side'.treeId = side.treeId
  capacity : side'.nullifier.capacity = side.nullifier.capacity
  zkpBatchSize : side'.nullifier.zkpBatchSize = side.nullifier.zkpBatchSize
  closeBeforeIndex : side.nullifier.closeBeforeIndex ≤ side'.nullifier.closeBeforeIndex
  consistent : ∃ applied, Consistent env.tree side'.nullifier.zkpBatchSize
    ⟨side'.nullifier, queuedIn address events, applied, submittedTo address events⟩

end Tree

theorem queuedIn_snoc (address : Address) (events : List PoolEvent) (event : PoolEvent) :
    queuedIn address (events ++ [event]) = queuedIn address events ++ event.queued address := by
  rw [queuedIn_append, queuedIn, queuedIn, List.flatMap_singleton]

theorem submittedTo_snoc (address : Address) (events : List PoolEvent) (event : PoolEvent) :
    submittedTo address (events ++ [event]) = submittedTo address events ++ event.submitted address := by
  rw [submittedTo_append, submittedTo, submittedTo, List.flatMap_singleton]

namespace PoolConsistent

variable {address : Address} {side : NullifierSide K}

section

variable (h : PoolConsistent env events view)

include h

theorem sideStep_refl (hside : view.side address = some side) (hqueued : event.queued address = [])
    (hsubmitted : event.submitted address = []) : SideStep env (events ++ [event]) address side side where
  treeId := rfl
  capacity := rfl
  zkpBatchSize := rfl
  closeBeforeIndex := Nat.le_refl _
  consistent := by
    rw [queuedIn_snoc, submittedTo_snoc, hqueued, hsubmitted, List.append_nil, List.append_nil]
    exact h.consistent address side hside

theorem sideStep_queue {group : SpendGroup} {before after : NullifierSide K}
    {pda : Address → Option NullifierPda} (hside : view.side group.tree = some before)
    (hqueues : Queues env reserve group before after view.pda pda) :
    SideStep env (events ++ [.queue group]) group.tree before after := by
  obtain ⟨applied, hconsistent⟩ := h.consistent group.tree before hside
  obtain ⟨hinserted, hcapacity⟩ := hconsistent.run_insertNullifiers hqueues.inserted
  have hsize := hinserted.zkpBatchSize
  refine ⟨hqueues.treeId, hcapacity, hsize, ?_, applied, ?_⟩
  · exact Nat.le_of_eq (hconsistent.closeBeforeIndex.trans hinserted.closeBeforeIndex.symm)
  · rw [hsize, queuedIn_snoc, submittedTo_snoc]
    simpa [PoolEvent.queued, PoolEvent.submitted] using hinserted

theorem sideStep_update {data : InstructionDataBatchNullifyInputs} {before : NullifierSide K}
    {cascade : Cascade} {tree : NullifierTreeLayout K} (hside : view.side address = some before)
    (hupdate : (updateTreeFromQueue env.tree address data).run before.nullifier = .ok cascade tree) :
    SideStep env (events ++ [.update address data]) address before
      { before with nullifier := tree } := by
  obtain ⟨applied, hconsistent⟩ := h.consistent address before hside
  have hmono := @Run.applied_le_call K env.tree
    ⟨before.nullifier, queuedIn address events, applied, submittedTo address events⟩
    (.update address data)
  obtain ⟨hcall, hcapacity⟩ := hconsistent.call_capacity (.update address data)
  rw [Run.call, hupdate] at hcall hcapacity hmono
  have hsize : tree.zkpBatchSize = before.nullifier.zkpBatchSize := hcall.zkpBatchSize
  refine ⟨rfl, hcapacity, hsize, ?_, applied ++ cascade.applied, ?_⟩
  · rw [hconsistent.closeBeforeIndex, hcall.closeBeforeIndex]
    exact watermark_mono K _ hmono
  · rw [hsize, queuedIn_snoc, submittedTo_snoc]
    simpa [PoolEvent.queued, PoolEvent.submitted] using hcall

theorem sideStep (hstep : PoolStep env reserve view event view') {side' : NullifierSide K}
    (hside' : view'.side address = some side') :
    ∃ side, view.side address = some side ∧ SideStep env (events ++ [event]) address side side' := by
  cases hstep with
  | @queue group before after pda hside hqueues =>
      dsimp only at hside'
      by_cases haddress : address = group.tree
      · subst haddress
        rw [Function.update_self] at hside'
        cases hside'
        exact ⟨before, hside, h.sideStep_queue hside hqueues⟩
      · rw [Function.update_of_ne haddress] at hside'
        refine ⟨side', hside', h.sideStep_refl hside' (if_neg ?_) rfl⟩
        exact fun heq => haddress heq.symm
  | @update updated before data cascade tree hside hupdate =>
      dsimp only at hside'
      by_cases haddress : address = updated
      · subst haddress
        rw [Function.update_self] at hside'
        cases hside'
        exact ⟨before, hside, h.sideStep_update hside hupdate⟩
      · rw [Function.update_of_ne haddress] at hside'
        refine ⟨side', hside', h.sideStep_refl hside' rfl (if_neg ?_)⟩
        exact fun heq => haddress heq.symm
  | close hside hrecord hid hclosable => exact ⟨side', hside', h.sideStep_refl hside' rfl rfl⟩

/-- A value that was guarded stays guarded: a PDA goes away only below the watermark of its own tree,
which the tree id in its record names. -/
theorem guarded_step (hstep : PoolStep env reserve view event view')
    (hside : view.side address = some side) {i : Nat} {nullifier : Bytes32}
    (hqueued : (queuedIn address events)[i]? = some nullifier) : i + 1 < side.nullifier.closeBeforeIndex ∨
      ∃ pda, env.runtime.nullifierPdaAddress address nullifier = some pda ∧
        view'.pda pda = some ⟨i + 1, side.treeId⟩ := by
  rcases h.guarded address side i nullifier hside hqueued with hbelow | ⟨pda, haddress, hpda⟩
  · exact .inl hbelow
  · cases hstep with
    | queue _ hqueues => exact .inr ⟨pda, haddress, hqueues.pdas.kept pda _ hpda⟩
    | update _ _ => exact .inr ⟨pda, haddress, hpda⟩
    | @close closing nullifierPda closingSide record hclosing hrecord hid hclosable =>
        by_cases hclosed : pda = nullifierPda
        · subst hclosed
          rw [hpda] at hrecord
          cases hrecord
          obtain rfl := h.treeId address closing side closingSide hside hclosing hid
          obtain rfl := Option.some.inj (hside.symm.trans hclosing)
          exact .inl hclosable
        · exact .inr ⟨pda, haddress, (Function.update_of_ne hclosed ..).trans hpda⟩

theorem guarded_new (hstep : PoolStep env reserve view event view')
    (hside : view.side address = some side) {k : Nat} {nullifier : Bytes32}
    (hqueued : (event.queued address)[k]? = some nullifier) :
    ∃ pda, env.runtime.nullifierPdaAddress address nullifier = some pda ∧ view.pda pda = none ∧
      view'.pda pda = some ⟨(queuedIn address events).length + k + 1, side.treeId⟩ := by
  cases hstep with
  | @queue group before after pda hbefore hqueues =>
      simp only [PoolEvent.queued] at hqueued
      split at hqueued
      case isTrue htree =>
        subst htree
        obtain rfl := Option.some.inj (hside.symm.trans hbefore)
        obtain ⟨created, haddress, hfresh, hcreated⟩ := hqueues.pdas.created k nullifier hqueued
        obtain ⟨applied, hconsistent⟩ := h.consistent group.tree side hside
        have hnext : side.nullifier.queueNextIndex = (queuedIn group.tree events).length + 1 :=
          hconsistent.queueNextIndex
        refine ⟨created, haddress, hfresh, hcreated.trans ?_⟩
        rw [hnext, Nat.add_right_comm]
      case isFalse => cases hqueued
  | update _ _ => cases hqueued
  | close _ _ _ _ => cases hqueued

theorem step (hstep : PoolStep env reserve view event view') :
    PoolConsistent env (events ++ [event]) view' where
  consistent address side' hside' := by
    obtain ⟨side, _, hsideStep⟩ := h.sideStep hstep hside'
    exact hsideStep.consistent
  capacity address side' hside' := by
    obtain ⟨side, hside, hsideStep⟩ := h.sideStep hstep hside'
    rw [hsideStep.capacity, h.capacity address side hside]
  treeId a b sideA sideB ha hb hid := by
    obtain ⟨beforeA, hbeforeA, hstepA⟩ := h.sideStep hstep ha
    obtain ⟨beforeB, hbeforeB, hstepB⟩ := h.sideStep hstep hb
    rw [hstepA.treeId, hstepB.treeId] at hid
    exact h.treeId a b beforeA beforeB hbeforeA hbeforeB hid
  guarded address side' i nullifier hside' hqueued := by
    obtain ⟨side, hside, hsideStep⟩ := h.sideStep hstep hside'
    rw [hsideStep.treeId]
    rw [queuedIn_snoc] at hqueued
    by_cases hi : i < (queuedIn address events).length
    · rw [List.getElem?_append_left hi] at hqueued
      rcases h.guarded_step hstep hside hqueued with hbelow | hpda
      · exact .inl (Nat.lt_of_lt_of_le hbelow hsideStep.closeBeforeIndex)
      · exact .inr hpda
    · rw [List.getElem?_append_right (Nat.le_of_not_lt hi)] at hqueued
      obtain ⟨pda, haddress, _, hpda⟩ := h.guarded_new hstep hside hqueued
      refine .inr ⟨pda, haddress, ?_⟩
      rw [hpda]
      congr 2
      omega

end

end PoolConsistent

theorem PoolTrace.consistent (h : PoolTrace env reserve start events view)
    (hstart : InitialView start) : PoolConsistent env events view := by
  induction h with
  | start => exact hstart.poolConsistent env
  | step _ hstep ih => exact ih.step hstep

/-! ### No value twice -/

/-- The batch proofs of every tree are sound for the values queued in it. -/
def BatchProofsSound (env : PoolEnv) (commits : Bytes32 → Set Bytes32) (events : List PoolEvent)
    (view : SpendView K) : Prop :=
  ∀ address side, view.side address = some side →
    Run.BatchProofsSound env.tree side.nullifier.zkpBatchSize commits
      ⟨side.nullifier, queuedIn address events, [], submittedTo address events⟩

variable {commits : Bytes32 → Set Bytes32}

theorem Run.BatchProofsSound.of_append {env : Env} {Z : Nat} {tree tree' : NullifierTreeLayout K}
    {applied applied' : List AppliedUpdate} {queued values : List Bytes32}
    {submitted data : List InstructionDataBatchNullifyInputs}
    (h : Run.BatchProofsSound env Z commits ⟨tree', queued ++ values, applied', submitted ++ data⟩) :
    Run.BatchProofsSound env Z commits ⟨tree, queued, applied, submitted⟩ := by
  intro instruction hmem n hn haccepts
  have hwindow := queueWindow_append values hn
  have hsound := h instruction (List.mem_append_left data hmem) n
    (Nat.le_trans hn (by rw [List.length_append]; exact Nat.le_add_right _ _))
  rw [hwindow] at hsound
  exact hsound haccepts

theorem PoolStep.side_kept (hstep : PoolStep env reserve view event view') {address : Address}
    {side : NullifierSide K} (hside : view.side address = some side) : ∃ side', view'.side address = some side' := by
  cases hstep with
  | @queue group before after pda _ _ =>
      by_cases haddress : address = group.tree
      · subst haddress
        exact ⟨after, Function.update_self ..⟩
      · exact ⟨side, (Function.update_of_ne haddress ..).trans hside⟩
  | @update updated before data cascade tree _ _ =>
      by_cases haddress : address = updated
      · subst haddress
        exact ⟨_, Function.update_self ..⟩
      · exact ⟨side, (Function.update_of_ne haddress ..).trans hside⟩
  | close _ _ _ _ => exact ⟨side, hside⟩

theorem BatchProofsSound.of_step (hconsistent : PoolConsistent env events view)
    (hstep : PoolStep env reserve view event view')
    (h : BatchProofsSound env commits (events ++ [event]) view') :
    BatchProofsSound env commits events view := by
  intro address side hside
  obtain ⟨side', hside'⟩ := hstep.side_kept hside
  obtain ⟨before, hbefore, hsideStep⟩ := hconsistent.sideStep hstep hside'
  obtain rfl := Option.some.inj (hside.symm.trans hbefore)
  have hsound := h address side' hside'
  rw [queuedIn_snoc, submittedTo_snoc, hsideStep.zkpBatchSize] at hsound
  exact hsound.of_append

theorem PoolConsistent.not_mem_queuedIn {group : SpendGroup} {before after : NullifierSide K}
    {pda : Address → Option NullifierPda} (h : PoolConsistent env events view)
    (hsound : BatchProofsSound env commits events view) (hside : view.side group.tree = some before)
    (hqueues : Queues env reserve group before after view.pda pda) {nullifier : Bytes32}
    (hmem : nullifier ∈ group.nullifiers) (habsent : nullifier ∉ commits group.slot.nullifierRoot) :
    nullifier ∉ queuedIn group.tree events := by
  intro hqueued
  obtain ⟨i, hi⟩ := List.mem_iff_getElem?.mp hqueued
  rcases h.guarded group.tree before i nullifier hside hi with hbelow | ⟨address, haddress, hpda⟩
  · obtain ⟨applied, hconsistent⟩ := h.consistent group.tree before hside
    obtain ⟨index, hroot⟩ := hqueues.root
    exact habsent (hconsistent.commits_of_rootByIndex (hsound group.tree before hside) hroot hbelow hi)
  · obtain ⟨k, hk⟩ := List.mem_iff_getElem?.mp hmem
    obtain ⟨created, hcreated, hfresh, _⟩ := hqueues.pdas.created k nullifier hk
    obtain rfl := Option.some.inj (haddress.symm.trans hcreated)
    rw [hfresh] at hpda
    cases hpda

theorem PoolTrace.nodup_queuedIn (h : PoolTrace env reserve start events view)
    (hstart : InitialView start) (hsound : BatchProofsSound env commits events view)
    (habsent : ∀ group, .queue group ∈ events →
      ∀ nullifier ∈ group.nullifiers, nullifier ∉ commits group.slot.nullifierRoot)
    (address : Address) : (queuedIn address events).Nodup := by
  induction h with
  | start => exact List.nodup_nil
  | @step events event view view' htrace hstep ih =>
      have hconsistent := htrace.consistent hstart
      have hsoundBefore := hsound.of_step hconsistent hstep
      have hbefore := ih hsoundBefore fun group hgroup =>
        habsent group (List.mem_append_left _ hgroup)
      rw [queuedIn_snoc]
      cases hstep with
      | @queue group before after pda hside hqueues =>
          by_cases htree : group.tree = address
          · subst htree
            rw [PoolEvent.queued, if_pos rfl]
            refine List.Nodup.append hbefore hqueues.pdas.nodup ?_
            intro nullifier hold hnew
            have hgroup : .queue group ∈ events ++ [.queue group] := by simp
            exact hconsistent.not_mem_queuedIn hsoundBefore hside hqueues hnew
              (habsent group hgroup nullifier hnew) hold
          · rwa [PoolEvent.queued, if_neg htree, List.append_nil]
      | update _ _ => rwa [PoolEvent.queued, List.append_nil]
      | close _ _ _ _ => rwa [PoolEvent.queued, List.append_nil]

end Zolana
