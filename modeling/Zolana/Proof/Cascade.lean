import Zolana.Proof.Apply
import Zolana.Proof.Insert

/-!
# The apply loop

The loop ends after at most as many iterations as the pending queue batch has ZKP batches left, and one
more, so its fuel is never used up and more fuel changes nothing. `Cascades` is what it leaves behind.
-/

namespace Zolana

open Fallible NullifierTreeLayout

variable {K Z : Nat} {env : Env} {start : Nat → Nat} {tree : NullifierTreeLayout K}
  {batch : Batch K} {run : Run K}

structure Cascades (env : Env) (Z : Nat) (run : Run K) (new : List AppliedUpdate)
    (tree : NullifierTreeLayout K) : Prop where
  consistent : Consistent env Z { run with tree, applied := run.applied ++ new }
  capacity : tree.capacity = run.tree.capacity
  /-- A cascade stays inside one queue batch. -/
  length_le : new.length + run.applied.length % K ≤ K
  idle : new ≠ [] → new.length + run.applied.length % K = K → Idle tree
  unchanged : new = [] → forgetCache tree = forgetCache run.tree
  /-- An update in the next slot that starts from the current root is applied. -/
  progress : ∀ batch cached, run.tree.getBatch run.tree.pendingBatchIndex = some batch →
    batch.cachedTreeUpdate batch.numInsertedZkpBatches = some cached →
    run.tree.getRoot = some cached.oldRoot → new ≠ []
  stays : ∀ batch, run.tree.getBatch run.tree.pendingBatchIndex = some batch →
    batch.cachedTreeUpdate batch.numInsertedZkpBatches = none → new = [] ∧ tree = run.tree

variable {tree' : NullifierTreeLayout K}

theorem run_applyLoop_none {merkleTreePubkey : Bytes32} {cascade : Cascade} {fuel : Nat}
    (hfuel : 0 < fuel) (h : applyNextCachedUpdate.run tree = .ok none tree') :
    (applyLoop merkleTreePubkey Z fuel cascade).run tree = .ok cascade tree' := by
  obtain ⟨fuel, rfl⟩ := Nat.exists_eq_succ_of_ne_zero (Nat.ne_of_gt hfuel)
  rw [applyLoop, run_bind_of_ok h]
  rfl

theorem run_applyLoop_some {merkleTreePubkey : Bytes32} {cascade : Cascade} {fuel : Nat}
    {update : AppliedUpdate} (h : applyNextCachedUpdate.run tree = .ok (some update) tree') :
    (applyLoop merkleTreePubkey Z (fuel + 1) cascade).run tree
      = (applyLoop merkleTreePubkey Z fuel
          ⟨recordUpdate merkleTreePubkey Z cascade.event update, cascade.applied ++ [update]⟩).run
          tree' := by
  rw [applyLoop, run_bind_of_ok h]

theorem Cascades.cons {update : AppliedUpdate} {new : List AppliedUpdate}
    (hfirst : Cascades env Z run [update] tree)
    (hrest : Cascades env Z { run with tree, applied := run.applied ++ [update] } new tree')
    (hmore : run.applied.length % K + 1 ≠ K) : Cascades env Z run (update :: new) tree' := by
  have hmod := Nat.mod_lt run.applied.length hfirst.consistent.K_pos
  have hnext : (run.applied ++ [update]).length % K = run.applied.length % K + 1 := by
    rw [List.length_append, List.length_singleton, Ring.next_slot hfirst.consistent.K_pos hmore]
  have hle := hrest.length_le
  have hidle := hrest.idle
  dsimp only at hle hidle
  rw [hnext] at hle hidle
  refine ⟨?_, hrest.capacity.trans hfirst.capacity, ?_, ?_, fun hnil => absurd hnil (by simp),
    fun _ _ _ _ _ => by simp, ?_⟩
  · have hconsistent := hrest.consistent
    rwa [List.append_assoc, List.singleton_append] at hconsistent
  · rw [List.length_cons]
    omega
  · intro _ hcomplete
    rw [List.length_cons] at hcomplete
    apply hidle
    · rintro rfl
      rw [List.length_nil] at hcomplete
      omega
    · omega
  · intro batch hbatch hempty
    exact absurd (hfirst.stays batch hbatch hempty).1 (by simp)

namespace Consistent

theorem applyNext_cases (h : Consistent env Z run) :
    (∃ tree, applyNextCachedUpdate.run run.tree = .ok none tree ∧ Cascades env Z run [] tree) ∨
    (∃ update tree, applyNextCachedUpdate.run run.tree = .ok (some update) tree ∧
      Cascades env Z run [update] tree) := by
  obtain ⟨start, hqueue⟩ := h.queue
  obtain ⟨batch, hbatch⟩ := hqueue.exists_pending
  have hmod := Nat.mod_lt run.applied.length h.K_pos
  cases hcached : batch.cachedTreeUpdate batch.numInsertedZkpBatches with
  | none =>
      refine .inl ⟨run.tree, run_applyNext_none hbatch hcached, ?_⟩
      refine ⟨?_, rfl, ?_, fun hne => absurd rfl hne, fun _ => rfl, ?_, fun _ _ _ => ⟨rfl, rfl⟩⟩
      · rw [List.append_nil]
        exact h
      · rw [List.length_nil]
        omega
      · intro other cached hother hoccupied
        rw [← Option.some.inj (hbatch.symm.trans hother), hcached] at hoccupied
        exact absurd hoccupied (by simp)
  | some cached =>
      obtain ⟨_, _, hready, _⟩ := hqueue.cache _ batch _ cached hbatch hcached
      have hslot : batch.numInsertedZkpBatches < K :=
        Nat.lt_of_lt_of_le hready (hqueue.window.slice _ batch hbatch).numFull_le
      obtain ⟨root, hroot⟩ := h.exists_root
      by_cases hmatches : cached.oldRoot = root
      · rw [← hmatches] at hroot
        refine .inr ⟨_, _, h.run_applyNext hqueue hbatch hcached hroot hslot, ?_⟩
        obtain ⟨turn, _, hposition⟩ := hqueue.position hbatch hslot
        have hposition' := position_mod hposition hslot
        refine ⟨h.append hqueue hbatch hcached hroot hslot, rfl, ?_, ?_, fun hnil => ?_,
          fun _ _ _ _ _ => by simp, ?_⟩
        · rw [List.length_singleton]
          omega
        · intro _ hcomplete
          rw [List.length_singleton, hposition'] at hcomplete
          exact hqueue.idle_of_complete hbatch hslot (by omega)
        · exact absurd hnil (by simp)
        · intro other hother hempty
          rw [← Option.some.inj (hbatch.symm.trans hother), hcached] at hempty
          exact absurd hempty (by simp)
      · refine .inl ⟨_, run_applyNext_evict hbatch hcached hroot hmatches hslot, ?_⟩
        refine ⟨?_, rfl, ?_, fun hne => absurd rfl hne, fun _ => forgetCache_setBatch hbatch rfl, ?_,
          ?_⟩
        · rw [List.append_nil]
          exact { h with queue := ⟨start, hqueue.evict hbatch hslot⟩ }
        · rw [List.length_nil]
          omega
        · intro other found hother hoccupied hcurrent
          rw [← Option.some.inj (hbatch.symm.trans hother), hcached] at hoccupied
          rw [← Option.some.inj hoccupied, hroot] at hcurrent
          exact absurd (Option.some.inj hcurrent).symm hmatches
        · intro other hother hempty
          rw [← Option.some.inj (hbatch.symm.trans hother), hcached] at hempty
          exact absurd hempty (by simp)

theorem applyNext_idle (h : Consistent env Z run) (hidle : Idle run.tree) :
    applyNextCachedUpdate.run run.tree = .ok none run.tree := by
  obtain ⟨start, hqueue⟩ := h.queue
  obtain ⟨batch, hbatch⟩ := hqueue.exists_pending
  exact run_applyNext_none hbatch (hidle _ batch _ hbatch)

/-- The loop, for any fuel above the number of ZKP batches left in the queue batch. -/
theorem run_applyLoop (h : Consistent env Z run) (merkleTreePubkey : Bytes32) (cascade : Cascade) :
    ∃ new tree, Cascades env Z run new tree ∧
      ∀ fuel, K - run.applied.length % K < fuel →
        (applyLoop merkleTreePubkey Z fuel cascade).run run.tree
          = .ok ⟨new.foldl (recordUpdate merkleTreePubkey Z) cascade.event, cascade.applied ++ new⟩
              tree := by
  -- Induction on the number of ZKP batches left; the last one leaves no update to apply.
  induction hleft : K - run.applied.length % K generalizing run cascade with
  | zero =>
      have hmod := Nat.mod_lt run.applied.length h.K_pos
      omega
  | succ left ih =>
      rcases h.applyNext_cases with ⟨tree, hrun, hcascades⟩ | ⟨update, tree, hrun, hcascades⟩
      · refine ⟨[], tree, hcascades, fun fuel hfuel => ?_⟩
        rw [run_applyLoop_none (by omega) hrun, List.append_nil, List.foldl_nil]
      · have hlen : (run.applied ++ [update]).length = run.applied.length + 1 := by simp
        by_cases hlast : run.applied.length % K + 1 = K
        · have hidle := hcascades.idle (by simp) (by rw [List.length_singleton]; omega)
          have hstop : applyNextCachedUpdate.run tree = .ok none tree :=
            hcascades.consistent.applyNext_idle hidle
          refine ⟨[update], tree, hcascades, fun fuel hfuel => ?_⟩
          obtain ⟨fuel, rfl⟩ := Nat.exists_eq_succ_of_ne_zero (show fuel ≠ 0 by omega)
          rw [run_applyLoop_some hrun, run_applyLoop_none (by omega) hstop]
          rfl
        · have hmod := Nat.mod_lt run.applied.length h.K_pos
          have hnext := Ring.next_slot h.K_pos hlast
          obtain ⟨new, tree', hcascades', hloop⟩ := ih hcascades.consistent
            ⟨recordUpdate merkleTreePubkey Z cascade.event update, cascade.applied ++ [update]⟩
            (by rw [hlen, hnext]; omega)
          refine ⟨update :: new, tree', hcascades.cons hcascades' hlast, fun fuel hfuel => ?_⟩
          obtain ⟨fuel, rfl⟩ := Nat.exists_eq_succ_of_ne_zero (show fuel ≠ 0 by omega)
          rw [run_applyLoop_some hrun, hloop fuel (by omega), List.append_assoc]
          rfl

/-- The apply loop never fails. -/
theorem run_applyCachedTreeUpdates (h : Consistent env Z run) (merkleTreePubkey : Bytes32) :
    ∃ new tree, Cascades env Z run new tree ∧
      (applyCachedTreeUpdates merkleTreePubkey).run run.tree
        = .ok ⟨new.foldl (recordUpdate merkleTreePubkey Z) none, new⟩ tree := by
  obtain ⟨new, tree, hcascades, hloop⟩ := h.run_applyLoop merkleTreePubkey ⟨none, []⟩
  refine ⟨new, tree, hcascades, ?_⟩
  have hK := h.K_pos
  rw [applyCachedTreeUpdates]
  simp only [EStateM.run_bind, EStateM.run_get, h.zkpBatchSize]
  exact hloop (numBatches * K + 1) (by rw [numBatches]; omega)

/-! ### The update method -/

section

variable (h : Consistent env Z run)

include h

theorem queued_lt : run.queued.length < 2 ^ 64 := by
  have hnext := h.queueNextIndex
  have hle := h.queue_le
  have hcapacity := h.capacity_lt
  omega

/-- What an update call does: it caches an accepted proof and runs the loop, or changes nothing. -/
theorem run_update (merkleTreePubkey : Bytes32) (data : InstructionDataBatchNullifyInputs)
    (hqueue : Queue env Z run.queued run.submitted (run.applied.length * Z) start run.tree)
    (hbatch : run.tree.getBatch run.tree.pendingBatchIndex = some batch) :
    (∃ hslot new tree, isCanonicalBn254ScalarBe data.oldRoot = true ∧
      isCanonicalBn254ScalarBe data.newRoot = true ∧
      Accepted env Z run.queued (start run.tree.pendingBatchIndex) batch data ∧
      Cascades env Z { run with
        tree := run.tree.setBatch run.tree.pendingBatchIndex (withCached batch data hslot)
        submitted := run.submitted ++ [data] } new tree ∧
      (updateTreeFromQueue env merkleTreePubkey data).run run.tree
        = .ok ⟨new.foldl (recordUpdate merkleTreePubkey Z) none, new⟩ tree) ∨
    (data.zkpBatchIndex.toNat < batch.numInsertedZkpBatches ∧
      (updateTreeFromQueue env merkleTreePubkey data).run run.tree = .ok ⟨none, []⟩ run.tree) ∨
    ((isCanonicalBn254ScalarBe data.oldRoot = true → isCanonicalBn254ScalarBe data.newRoot = true →
        ¬ Accepted env Z run.queued (start run.tree.pendingBatchIndex) batch data) ∧
      ∃ e, (updateTreeFromQueue env merkleTreePubkey data).run run.tree = .error e run.tree) := by
  by_cases hcanonical : isCanonicalBn254ScalarBe data.oldRoot = false ∨
      isCanonicalBn254ScalarBe data.newRoot = false
  · refine .inr (.inr ⟨fun holdRoot hnewRoot => ?_, .nonCanonicalFieldElement, ?_⟩)
    · rw [holdRoot, hnewRoot] at hcanonical
      exact absurd hcanonical (by simp)
    · rw [updateTreeFromQueue, if_pos hcanonical, run_throw]
  · have hbound := h.queued_lt
    obtain ⟨holdRoot, hnewRoot⟩ := not_or.mp hcanonical
    rw [updateTreeFromQueue, if_neg hcanonical]
    rcases hqueue.run_verifyProofCacheUpdate h.zkpBatchSize hbound rfl hbatch data with
      ⟨haccepted, hslot, hverify⟩ | ⟨hdone, hverify⟩ | ⟨hrejected, e, hverify⟩
    · have hcached := h.submit data rfl ⟨start, hqueue.cacheAccepted rfl hbatch haccepted hslot⟩
      obtain ⟨new, tree, hcascades, hloop⟩ := hcached.run_applyCachedTreeUpdates merkleTreePubkey
      refine .inl ⟨hslot, new, tree, by simpa using holdRoot, by simpa using hnewRoot, haccepted,
        hcascades, ?_⟩
      rw [run_bind_of_ok hverify]
      exact hloop
    · refine .inr (.inl ⟨hdone, ?_⟩)
      rw [run_bind_of_ok hverify]
      rfl
    · refine .inr (.inr ⟨fun _ _ => hrejected, e, ?_⟩)
      rw [run_bind_of_error hverify]

theorem submit_unchanged (data : InstructionDataBatchNullifyInputs) :
    Consistent env Z { run with submitted := run.submitted ++ [data] } := by
  obtain ⟨start, hqueue⟩ := h.queue
  exact h.submit data rfl ⟨start, hqueue.submit data⟩

theorem call_capacity (call : Call) : Consistent env Z (run.call env call) ∧
      (run.call env call).tree.capacity = run.tree.capacity := by
  cases call with
  | insert nullifier =>
      rcases h.run_insert nullifier with ⟨tree, hrun, _, _, _, hcapacity, hconsistent⟩ | ⟨e, _, hrun⟩
      · rw [Run.call, hrun]
        exact ⟨hconsistent, hcapacity⟩
      · rw [Run.call, hrun]
        exact ⟨h, rfl⟩
  | update merkleTreePubkey data =>
      obtain ⟨start, hqueue⟩ := h.queue
      obtain ⟨batch, hbatch⟩ := hqueue.exists_pending
      rcases h.run_update merkleTreePubkey data hqueue hbatch with
        ⟨hslot, new, tree, _, _, _, hcascades, hrun⟩ | ⟨_, hrun⟩ | ⟨_, e, hrun⟩
      · rw [Run.call, hrun]
        exact ⟨hcascades.consistent, hcascades.capacity⟩
      · simp only [Run.call, hrun, List.append_nil]
        exact ⟨h.submit_unchanged data, trivial⟩
      · rw [Run.call, hrun]
        exact ⟨h.submit_unchanged data, rfl⟩

theorem call (call : Call) : Consistent env Z (run.call env call) :=
  (h.call_capacity call).1

theorem calls (calls : List Call) : Consistent env Z (run.calls env calls) ∧
      (run.calls env calls).tree.capacity = run.tree.capacity := by
  induction calls generalizing run with
  | nil => exact ⟨h, rfl⟩
  | cons call calls ih =>
      obtain ⟨hcall, hcapacity⟩ := h.call_capacity call
      obtain ⟨hcalls, hrest⟩ := ih hcall
      exact ⟨hcalls, hrest.trans hcapacity⟩

end

end Consistent

theorem Reachable.consistent {testOnly : Bool} {batchSize zkpBatchSize height : Nat}
    (h : Reachable env testOnly batchSize zkpBatchSize height run) : Consistent env zkpBatchSize run := by
  induction h with
  | init hinit =>
      obtain ⟨hK, hZ, _, hheight, rfl⟩ := run_init hinit
      exact consistent_initial env hK hZ hheight
  | call _ call ih => exact ih.call call

theorem Reachable.configuration {testOnly : Bool} {batchSize zkpBatchSize height : Nat}
    (h : Reachable env testOnly batchSize zkpBatchSize height run) :
    0 < K ∧ 0 < zkpBatchSize ∧ batchSize = K * zkpBatchSize := by
  induction h with
  | init hinit =>
      obtain ⟨hK, hZ, hsize, _⟩ := run_init hinit
      exact ⟨hK, hZ, hsize⟩
  | call _ _ ih => exact ih

end Zolana
