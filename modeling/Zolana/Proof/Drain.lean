import Zolana.Proof.Cascade

/-!
# Draining a queue batch

Submitting the remaining proofs of the pending queue batch in order, along the true roots, applies all of
them whatever is cached. A cached update that starts from the current root was verified for the same values
and only saves a submission; any other is evicted or overwritten. Once the batch is complete, the rest is
checked against the other batch, where it cannot reach the first slot.
-/

namespace Zolana

open Fallible NullifierTreeLayout

variable {K Z : Nat} {env : Env} {run now : Run K} {batch : Batch K}

/-- Proofs for the ZKP batches of a queue batch that are left to apply, along the roots the tree goes
through. The roots are the true ones: no proof submitted so far leads from one of them elsewhere. -/
structure HonestProofs (env : Env) (Z : Nat) (run : Run K) (batch : Batch K) (roots : Nat → Bytes32)
    (proofs : Nat → InstructionDataBatchNullifyInputs) : Prop where
  currentRoot : run.tree.getRoot = some (roots batch.numInsertedZkpBatches)
  canonical : ∀ j, batch.numInsertedZkpBatches ≤ j → j ≤ K →
    isCanonicalBn254ScalarBe (roots j) = true
  zkpBatchIndex : ∀ j, batch.numInsertedZkpBatches ≤ j → j < K → (proofs j).zkpBatchIndex.toNat = j
  oldRoot : ∀ j, batch.numInsertedZkpBatches ≤ j → j < K → (proofs j).oldRoot = roots j
  newRoot : ∀ j, batch.numInsertedZkpBatches ≤ j → j < K → (proofs j).newRoot = roots (j + 1)
  accepts : ∀ j, batch.numInsertedZkpBatches ≤ j → j < K →
    env.Accepts (roots j) (roots (j + 1))
      (queueWindow run.queued (batch.startIndex - 1 + j * Z) Z) (batch.startIndex + j * Z)
      (proofs j).proof
  true_roots : ∀ other ∈ run.submitted, ∀ j, batch.numInsertedZkpBatches ≤ j → j < K →
    other.zkpBatchIndex.toNat = j → other.oldRoot = roots j →
    env.Accepts (roots j) other.newRoot
      (queueWindow run.queued (batch.startIndex - 1 + j * Z) Z) (batch.startIndex + j * Z)
      other.proof →
    other.newRoot = roots (j + 1)

theorem Consistent.pending_of_lt (h : Consistent env Z run) (hlt : run.applied.length * Z < run.queued.length) :
    ∃ start batch, Queue env Z run.queued run.submitted (run.applied.length * Z) start run.tree ∧
      run.tree.getBatch run.tree.pendingBatchIndex = some batch ∧
      batch.numInsertedZkpBatches = run.applied.length % K ∧
      start run.tree.pendingBatchIndex = run.applied.length / K * (K * Z) := by
  obtain ⟨start, hqueue⟩ := h.queue
  obtain ⟨batch, hbatch⟩ := hqueue.exists_pending
  obtain ⟨hp, hcursor⟩ := hqueue.pending
  have hqueued := hqueue.window.queued_le
  have hmin := hqueue.window.start_le_of_lt hp
  have hslice := hqueue.window.slice _ batch hbatch
  have hslot := hslice.numInsertedZkp_lt (by omega) h.K_pos
  obtain ⟨turn, hstart, hposition⟩ := hqueue.position hbatch hslot
  refine ⟨start, batch, hqueue, hbatch, (position_mod hposition hslot).symm, ?_⟩
  rw [hstart, position_div hposition hslot]

/-- The state after the proofs below `j` were submitted. The queue batch starts at ZKP batch `base`. -/
structure Draining (env : Env) (Z : Nat) (run : Run K) (batch : Batch K) (base : Nat)
    (proofs : Nat → InstructionDataBatchNullifyInputs) (j : Nat) (now : Run K) : Prop where
  consistent : Consistent env Z now
  queued : now.queued = run.queued
  extended : ∃ new, now.applied = run.applied ++ new
  submitted : ∀ data ∈ now.submitted, data ∈ run.submitted ∨
    ∃ i, batch.numInsertedZkpBatches ≤ i ∧ i < K ∧ data = proofs i
  lower : base + j ≤ now.applied.length
  upper : now.applied.length ≤ base + K
  started : now.applied.length = base + K → batch.numInsertedZkpBatches < j
  idle : now.applied.length = base + K → ∀ pending : Batch K,
    now.tree.getBatch now.tree.pendingBatchIndex = some pending → pending.cachedTreeUpdate 0 = none

/-- A queue batch from ZKP batch `base` on that is pending while the queue is two batches ahead of its
start. -/
structure PendingFull (Z : Nat) (run : Run K) (batch : Batch K) (base : Nat) : Prop where
  aligned : ∃ q, base = q * K
  applied : run.applied.length = base + batch.numInsertedZkpBatches
  slot_lt : batch.numInsertedZkpBatches < K
  startIndex : batch.startIndex = base * Z + 1
  queued : run.queued.length = base * Z + 2 * (K * Z)

theorem rootLog_append (applied new : List AppliedUpdate) :
    rootLog (applied ++ new) = rootLog applied ++ new.map AppliedUpdate.newRoot := by
  simp [rootLog]

section

variable {base j : Nat} {roots : Nat → Bytes32} {proofs : Nat → InstructionDataBatchNullifyInputs}

theorem PendingFull.window (h : PendingFull Z run batch base) (j : Nat) :
    batch.startIndex - 1 + j * Z = (base + j) * Z ∧ batch.startIndex + j * Z = (base + j) * Z + 1 := by
  rw [h.startIndex, Nat.add_mul]
  omega

section

variable (h : Draining env Z run batch base proofs j now)

include h

theorem Draining.root (hfull : PendingFull Z run batch base) (hconsistent : Consistent env Z run)
    (hhonest : HonestProofs env Z run batch roots proofs) {n : Nat} (hlo : run.applied.length ≤ n)
    (hhi : n ≤ now.applied.length) : (rootLog now.applied)[n]? = some (roots (n - base)) := by
  have hposition := hfull.applied
  have hupper := h.upper
  induction n, hlo using Nat.le_induction with
  | base =>
      obtain ⟨new, hnew⟩ := h.extended
      have hlen := length_rootLog run.applied
      rw [hnew, rootLog_append, List.getElem?_append_left (by omega), ← hconsistent.getRoot,
        hhonest.currentRoot, hposition, Nat.add_sub_cancel_left]
  | succ n hlo ih =>
      have hcurrent := ih (by omega)
      obtain ⟨update, hupdate⟩ : ∃ update, now.applied[n]? = some update :=
        ⟨_, List.getElem?_eq_getElem (by omega)⟩
      have hat := h.consistent.log n update hupdate
      obtain ⟨data, hmem, holdRoot, hnewRoot, hindex, haccepts⟩ := hat.verified
      obtain ⟨q, hq⟩ := hfull.aligned
      have hmod : n % K = n - base := by
        have hn : n = q * K + (n - base) := by omega
        exact position_mod hn (by omega)
      have hold : update.oldRoot = roots (n - base) := by
        have heq := hat.oldRoot.symm.trans hcurrent
        exact Option.some.inj heq
      have hwindow := hfull.window (n - base)
      rw [show base + (n - base) = n by omega] at hwindow
      have hnext : data.newRoot = roots (n - base + 1) := by
        rcases h.submitted data hmem with hsubmitted | ⟨i, hi, hiK, rfl⟩
        · refine hhonest.true_roots data hsubmitted (n - base) (by omega) (by omega)
            (by rw [hindex, hmod]) (by rw [holdRoot, hold]) ?_
          rw [hwindow.1, hwindow.2, ← hold, hnewRoot, ← h.queued]
          exact haccepts
        · rw [hhonest.zkpBatchIndex i hi hiK, hmod] at hindex
          rw [hhonest.newRoot i hi hiK, hindex]
      rw [rootLog, List.getElem?_cons_succ, List.getElem?_map, hupdate, Option.map_some, ← hnewRoot,
        hnext]
      congr 2
      omega

/-- The other batch is complete in the queue, so there is always something left to apply. -/
theorem Draining.queued_left (hfull : PendingFull Z run batch base)
    (hconsistent : Consistent env Z run) : now.applied.length * Z < now.queued.length := by
  obtain ⟨_, hqueue⟩ := hconsistent.queue
  have hpos : 0 < K * Z := Nat.mul_pos hconsistent.K_pos hqueue.window.zkpBatchSize_pos
  have hmul := Nat.mul_le_mul_right Z h.upper
  rw [Nat.add_mul] at hmul
  rw [h.queued, hfull.queued]
  omega

theorem Draining.submitted_snoc (hj : batch.numInsertedZkpBatches ≤ j) (hjK : j < K) :
    ∀ data ∈ now.submitted ++ [proofs j], data ∈ run.submitted ∨
      ∃ i, batch.numInsertedZkpBatches ≤ i ∧ i < K ∧ data = proofs i := by
  intro data hmem
  rcases List.mem_append.mp hmem with hold | hnew
  · exact h.submitted data hold
  · exact .inr ⟨j, hj, hjK, List.mem_singleton.mp hnew⟩

theorem Draining.skip (hj : batch.numInsertedZkpBatches ≤ j) (hjK : j < K)
    (hlower : base + (j + 1) ≤ now.applied.length) : Draining env Z run batch base proofs (j + 1)
      { now with submitted := now.submitted ++ [proofs j] } where
  consistent := h.consistent.submit_unchanged (proofs j)
  queued := h.queued
  extended := h.extended
  submitted := h.submitted_snoc hj hjK
  lower := hlower
  upper := h.upper
  started := fun _ => Nat.lt_succ_of_le hj
  idle := h.idle

section

variable (hj : batch.numInsertedZkpBatches ≤ j) (hjK : j < K) {pending : Batch K}
  (hpending : now.tree.getBatch now.tree.pendingBatchIndex = some pending)
  (hindex : (proofs j).zkpBatchIndex.toNat = j) {hslot : (proofs j).zkpBatchIndex.toNat < K}
  {new : List AppliedUpdate} {tree : NullifierTreeLayout K} (hcascades : Cascades env Z { now with
    tree := now.tree.setBatch now.tree.pendingBatchIndex (withCached pending (proofs j) hslot)
    submitted := now.submitted ++ [proofs j] } new tree)

include hj hjK hpending hindex hcascades

/-- Once the batch is complete, a proof can only go into a later slot of the other batch. -/
theorem Draining.cacheAside (hend : now.applied.length = base + K) (hzero : pending.numInsertedZkpBatches = 0) :
    Draining env Z run batch base proofs (j + 1) { now with
      tree := tree
      applied := now.applied ++ new
      submitted := now.submitted ++ [proofs j] } := by
  have hstarted := h.started hend
  have hempty : (withCached pending (proofs j) hslot).cachedTreeUpdate 0 = none := by
    rw [cachedTreeUpdate_withCached, if_neg (by omega)]
    exact h.idle hend pending hpending
  have hget := getBatch_setBatch hpending (withCached pending (proofs j) hslot)
  have hstays := hcascades.stays (withCached pending (proofs j) hslot) hget (by
    show (withCached pending (proofs j) hslot).cachedTreeUpdate pending.numInsertedZkpBatches = none
    rwa [hzero])
  obtain ⟨rfl, rfl⟩ := hstays
  have hconsistent := hcascades.consistent
  rw [List.append_nil] at hconsistent ⊢
  refine ⟨hconsistent, h.queued, h.extended, h.submitted_snoc hj hjK, ?_, h.upper,
    fun _ => Nat.lt_succ_of_le hj, ?_⟩
  · show base + (j + 1) ≤ now.applied.length
    omega
  · intro _ other hother
    rwa [← Option.some.inj (hget.symm.trans hother)]

/-- The proof of the next ZKP batch is applied, and with it whatever was cached behind it. -/
theorem Draining.applyNext (hat : now.applied.length = base + j) (hmod : now.applied.length % K = j)
    (hcount : pending.numInsertedZkpBatches = j) (hroot : now.tree.getRoot = some (proofs j).oldRoot) :
    Draining env Z run batch base proofs (j + 1) { now with
      tree := tree
      applied := now.applied ++ new
      submitted := now.submitted ++ [proofs j] } := by
  have hget := getBatch_setBatch hpending (withCached pending (proofs j) hslot)
  have hcached : (withCached pending (proofs j) hslot).cachedTreeUpdate
      (withCached pending (proofs j) hslot).numInsertedZkpBatches
        = some ⟨(proofs j).oldRoot, (proofs j).newRoot, 1⟩ := by
    rw [cachedTreeUpdate_withCached]
    exact if_pos (hindex.trans hcount.symm)
  have hnew := hcascades.progress _ _ hget hcached hroot
  have hlength := List.length_pos_of_ne_nil hnew
  have hle : new.length + now.applied.length % K ≤ K := hcascades.length_le
  have hlen : (now.applied ++ new).length = now.applied.length + new.length := List.length_append
  refine ⟨hcascades.consistent, h.queued, ?_, h.submitted_snoc hj hjK, ?_, ?_,
    fun _ => Nat.lt_succ_of_le hj, ?_⟩
  · obtain ⟨before, hbefore⟩ := h.extended
    exact ⟨before ++ new, by rw [hbefore, List.append_assoc]⟩
  · show base + (j + 1) ≤ (now.applied ++ new).length
    omega
  · show (now.applied ++ new).length ≤ base + K
    omega
  · intro hlast other hother
    rw [hlen] at hlast
    refine hcascades.idle hnew ?_ _ other 0 hother
    show new.length + now.applied.length % K = K
    omega

end

/-- The proof of ZKP batch `j` leaves it applied. -/
theorem Draining.step (hfull : PendingFull Z run batch base) (hconsistent : Consistent env Z run)
    (hhonest : HonestProofs env Z run batch roots proofs) (hj : batch.numInsertedZkpBatches ≤ j)
    (hjK : j < K) (merkleTreePubkey : Bytes32) : Draining env Z run batch base proofs (j + 1)
      (now.call env (.update merkleTreePubkey (proofs j))) := by
  have hK := hconsistent.K_pos
  have hlower := h.lower
  have hupper := h.upper
  have hindex := hhonest.zkpBatchIndex j hj hjK
  have holdRoot := hhonest.oldRoot j hj hjK
  have hnewRoot := hhonest.newRoot j hj hjK
  obtain ⟨q, hq⟩ := hfull.aligned
  have hleft := h.queued_left hfull hconsistent
  obtain ⟨start, pending, hqueue, hpending, hcount, hstart⟩ := h.consistent.pending_of_lt hleft
  have hslice := hqueue.window.slice _ pending hpending
  -- Before the batch is complete, the pending slot is at `now.applied.length - base`.
  have hinside : now.applied.length < base + K →
      now.applied.length % K = now.applied.length - base ∧ now.applied.length / K = q := by
    intro hlt
    have hn : now.applied.length = q * K + (now.applied.length - base) := by omega
    exact ⟨position_mod hn (by omega), position_div hn (by omega)⟩
  have hcomplete : now.applied.length = base + K → now.applied.length % K = 0 := by
    intro hend
    rw [hend, hq, Nat.add_mod_right, Nat.mul_mod_left]
  rcases h.consistent.run_update merkleTreePubkey (proofs j) hqueue hpending with
    ⟨hslot, new, tree, _, _, haccepted, hcascades, hrun⟩ | ⟨hdone, hrun⟩ | ⟨hrejected, e, hrun⟩
  · simp only [Run.call, hrun]
    have hunapplied := haccepted.unapplied
    rw [hindex, hcount] at hunapplied
    by_cases hend : now.applied.length = base + K
    · exact h.cacheAside hj hjK hpending hindex hcascades hend (hcount.trans (hcomplete hend))
    · obtain ⟨hmod, hdiv⟩ := hinside (by omega)
      have hat : now.applied.length = base + j := by omega
      have hmod' : now.applied.length % K = j := by omega
      have hroot := h.root hfull hconsistent hhonest (n := base + j)
        (by rw [hfull.applied]; omega) (by omega)
      rw [Nat.add_sub_cancel_left, ← hat, ← h.consistent.getRoot, ← holdRoot] at hroot
      exact h.applyNext hj hjK hpending hindex hcascades hat hmod' (hcount.trans hmod') hroot
  · simp only [Run.call, hrun, List.append_nil]
    rw [hindex, hcount] at hdone
    refine h.skip hj hjK ?_
    by_cases hend : now.applied.length = base + K
    · omega
    · have hmod := (hinside (by omega)).1
      omega
  · simp only [Run.call, hrun]
    refine h.skip hj hjK ?_
    by_contra hshort
    have hat : now.applied.length = base + j := by omega
    apply hrejected
    · rw [holdRoot]
      exact hhonest.canonical j hj (by omega)
    · rw [hnewRoot]
      exact hhonest.canonical (j + 1) (by omega) (by omega)
    · obtain ⟨hmod, hdiv⟩ := hinside (by omega)
      have hbatch : start now.tree.pendingBatchIndex = base * Z := by
        rw [hstart, hdiv, hq, Nat.mul_assoc]
      have hlast := (hslice.numFull_eq (by rw [hbatch, h.queued, hfull.queued]; omega)).1
      obtain ⟨hposition, hleaf⟩ := hfull.window j
      have haccepts := hhonest.accepts j hj hjK
      rw [hposition, hleaf] at haccepts
      refine ⟨?_, ?_, ?_⟩
      · rw [hindex, hcount, hmod]
        omega
      · rw [hindex, hlast]
        exact hjK
      · rw [hindex, hbatch, ← Nat.add_mul, holdRoot, hnewRoot, h.queued]
        exact haccepts

theorem Draining.submitAll (hfull : PendingFull Z run batch base)
    (hconsistent : Consistent env Z run) (hhonest : HonestProofs env Z run batch roots proofs)
    (hj : batch.numInsertedZkpBatches ≤ j) (merkleTreePubkey : Bytes32) {count : Nat} (hcount : j + count ≤ K) :
    Draining env Z run batch base proofs (j + count) (now.calls env
      ((List.range' j count).map fun i => .update merkleTreePubkey (proofs i))) := by
  induction count generalizing j now with
  | zero => exact h
  | succ count ih =>
      have hstep := h.step hfull hconsistent hhonest hj (by omega) merkleTreePubkey
      have hrest := ih hstep (by omega) (by omega)
      rw [List.range'_succ, List.map_cons, show j + (count + 1) = j + 1 + count by omega]
      exact hrest

end

end

end Zolana
