import Zolana.Proof.Drain
import Zolana.Properties.Watermark

/-!
# No wedge

Applying cached updates never fails, an insertion fails only when the tree or the current batch is full,
and a full current batch can always be drained.
-/

namespace Zolana

open Fallible NullifierTreeLayout

variable {K Z : Nat} {env : Env} {run : Run K} {batch : Batch K}

/-! ### Insertion -/

theorem tryGetState_full (h : batch.tryGetState = some .full) : batch.state = BatchState.full.toU64 := by
  unfold Batch.tryGetState at h
  split at h <;> simp_all [BatchState.toU64]

theorem Consistent.absorbs (h : Consistent env Z run) (htotal : env.hashv.Total)
    (hbatch : run.tree.getBatch run.tree.currentlyProcessingBatchIndex = some batch)
    (hopen : batch.numFullZkpBatches < K) (hfirst : batch.numInserted ≠ 0) {value : Bytes32}
    (hvalue : isCanonicalBn254ScalarBe value = true) :
    ∃ digest, env.hashv (absorbInputs batch.hashChains[batch.numFullZkpBatches]
      batch.pendingValues batch.numPending value) = .ok digest := by
  obtain ⟨start, hqueue⟩ := h.queue
  have hslice := hqueue.window.slice _ batch hbatch
  have hfilled := hslice.filled
  have hle : start run.tree.currentlyProcessingBatchIndex + batch.numFullZkpBatches * Z
      + batch.numInserted ≤ run.queued.length := by omega
  have hlen := length_queueWindow hle
  have hcanonical : ∀ input ∈ queueWindow run.queued
      (start run.tree.currentlyProcessingBatchIndex + batch.numFullZkpBatches * Z)
      batch.numInserted, isCanonicalBn254ScalarBe input = true := by
    intro input hmem
    exact h.canonical input (List.mem_of_mem_drop (List.mem_of_mem_take hmem))
  have htotal' := (hslice.partly hopen hfirst).closing_total htotal hcanonical hvalue
  rwa [hlen] at htotal'

theorem Consistent.insert_fails_iff (h : Consistent env Z run) (htotal : env.hashv.Total)
    {value : Bytes32} (hvalue : isCanonicalBn254ScalarBe value = true) :
    (∃ e tree, (insertNullifierIntoQueue env.hashv value).run run.tree = .error e tree) ↔
      run.tree.capacity ≤ run.tree.queueNextIndex ∨
        ∃ batch, run.tree.getBatch run.tree.currentlyProcessingBatchIndex = some batch ∧
          batch.tryGetState = some .full := by
  rcases h.run_insert value with ⟨tree, hrun, _, hroom, hnotFull, _⟩ | ⟨e, hrejects, hrun⟩
  · constructor
    · rintro ⟨e, tree', herror⟩
      rw [hrun] at herror
      exact absurd herror (by simp)
    · rintro (hfull | ⟨batch, hbatch, hfull⟩)
      · omega
      · exact absurd (tryGetState_full hfull) (hnotFull batch hbatch)
  · refine ⟨fun _ => ?_, fun _ => ⟨e, _, hrun⟩⟩
    cases hrejects with
    | nonCanonical hbad => exact absurd (hbad.symm.trans hvalue) (by simp)
    | treeIsFull hfull => exact .inl hfull
    | batchNotReady hbatch hfull => exact .inr ⟨_, hbatch, tryGetState_eq hfull⟩
    | hasher hbatch hopen hfirst hdigest =>
        obtain ⟨digest, hok⟩ := h.absorbs htotal hbatch hopen hfirst hvalue
        exact absurd (hok.symm.trans hdigest) (by simp)

/-! ### A full current batch -/

theorem Consistent.pendingFull (h : Consistent env Z run)
    (hbatch : run.tree.getBatch run.tree.currentlyProcessingBatchIndex = some batch)
    (hfull : batch.tryGetState = some .full) :
    run.tree.currentlyProcessingBatchIndex = run.tree.pendingBatchIndex ∧
      batch.numFullZkpBatches = K ∧
      ∃ base, PendingFull Z run batch base := by
  obtain ⟨start, hqueue⟩ := h.queue
  have hK := h.K_pos
  have hslice := hqueue.window.slice _ batch hbatch
  have hpos : 0 < K * Z := Nat.mul_pos hK hslice.zkpBatchSize_pos
  have hstate := tryGetState_full hfull
  obtain ⟨hend, happlied⟩ : run.queued.length = start run.tree.currentlyProcessingBatchIndex + 2 * (K * Z) ∧
      run.applied.length * Z < start run.tree.currentlyProcessingBatchIndex + K * Z := by
    rcases hqueue.current_cases hK rfl hbatch with ⟨_, _, hfill⟩ | ⟨hend, happlied, _⟩ |
      ⟨_, _, hinserted⟩
    · exact absurd (hstate.symm.trans hfill) (by decide)
    · exact ⟨hend, happlied⟩
    · exact absurd (hstate.symm.trans hinserted) (by decide)
  have hpending : run.tree.currentlyProcessingBatchIndex = run.tree.pendingBatchIndex := by
    by_contra hne
    obtain ⟨hp, hcursor⟩ := hqueue.pending
    have hother := hqueue.window.other hqueue.current.1 hp (Ne.symm hne)
    have hqueued := hqueue.window.queued_le
    have hmin := hqueue.window.start_le_of_lt hp
    omega
  have hslot := hslice.numInsertedZkp_lt happlied hK
  refine ⟨hpending, (hslice.numFull_eq (by omega)).1, ?_⟩
  rw [hpending] at hbatch hslice hend
  obtain ⟨turn, hstart, hposition⟩ := hqueue.position hbatch hslot
  refine ⟨(2 * turn + run.tree.pendingBatchIndex) * K, ⟨_, rfl⟩, hposition, hslot, ?_, ?_⟩
  · rw [hslice.startIndex, hstart, Nat.mul_assoc]
  · rw [hend, hstart, Nat.mul_assoc]

/-! ### Draining -/

/-- The calls that submit the remaining proofs of a batch in order. -/
def drainCalls (batch : Batch K) (merkleTreePubkey : Bytes32)
    (proofs : Nat → InstructionDataBatchNullifyInputs) : List Call :=
  (List.range' batch.numInsertedZkpBatches (K - batch.numInsertedZkpBatches)).map
    fun j => .update merkleTreePubkey (proofs j)

section

variable {base : Nat} {roots : Nat → Bytes32} {proofs : Nat → InstructionDataBatchNullifyInputs}

section

variable (h : PendingFull Z run batch base) (hconsistent : Consistent env Z run)

include h hconsistent

theorem PendingFull.draining : Draining env Z run batch base proofs batch.numInsertedZkpBatches run where
  consistent := hconsistent
  queued := rfl
  extended := ⟨[], (List.append_nil _).symm⟩
  submitted := fun _ hmem => .inl hmem
  lower := Nat.le_of_eq h.applied.symm
  upper := by
    have hslot := h.slot_lt
    rw [h.applied]
    omega
  started := by
    have hslot := h.slot_lt
    rw [h.applied]
    omega
  idle := by
    have hslot := h.slot_lt
    rw [h.applied]
    omega

theorem PendingFull.drained (hhonest : HonestProofs env Z run batch roots proofs) (merkleTreePubkey : Bytes32) :
    Draining env Z run batch base proofs K
      (run.calls env (drainCalls batch merkleTreePubkey proofs)) := by
  have hslot := h.slot_lt
  have hall := (h.draining hconsistent).submitAll h hconsistent hhonest (Nat.le_refl _)
    merkleTreePubkey (Nat.le_of_eq (Nat.add_sub_of_le (Nat.le_of_lt hslot)))
  rwa [Nat.add_sub_of_le (Nat.le_of_lt hslot)] at hall

theorem PendingFull.applied_drained (hhonest : HonestProofs env Z run batch roots proofs)
    {now : Run K} (hnow : Draining env Z run batch base proofs K now) :
    ∃ new, now.applied = run.applied ++ new ∧ new.length = K - batch.numInsertedZkpBatches ∧
      ∀ i update, new[i]? = some update →
        update.zkpBatchIndex = batch.numInsertedZkpBatches + i ∧
        update.oldRoot = roots (batch.numInsertedZkpBatches + i) ∧
        update.newRoot = roots (batch.numInsertedZkpBatches + i + 1) := by
  obtain ⟨new, hnew⟩ := hnow.extended
  have hlower := hnow.lower
  have hupper := hnow.upper
  have hslot := h.slot_lt
  have hposition := h.applied
  have hlen : now.applied.length = run.applied.length + new.length := by
    rw [hnew, List.length_append]
  refine ⟨new, hnew, by omega, ?_⟩
  intro i update hi
  have hlt : i < new.length := (List.getElem?_eq_some_iff.mp hi).1
  have hat := hnow.consistent.log (run.applied.length + i) update (by
    rw [hnew, List.getElem?_append_right (by omega), Nat.add_sub_cancel_left]
    exact hi)
  have hold := hnow.root h hconsistent hhonest (n := run.applied.length + i) (by omega) (by omega)
  have hnext := hnow.root h hconsistent hhonest (n := run.applied.length + i + 1) (by omega)
    (by omega)
  rw [hat.oldRoot, hposition, Nat.add_assoc, Nat.add_sub_cancel_left] at hold
  refine ⟨?_, Option.some.inj hold, ?_⟩
  · obtain ⟨q, hq⟩ := h.aligned
    have hn : run.applied.length + i = q * K + (batch.numInsertedZkpBatches + i) := by omega
    rw [hat.zkpBatchIndex, position_mod hn (by omega)]
  · rw [hnew, rootLog, List.getElem?_cons_succ, List.getElem?_map,
      List.getElem?_append_right (by omega), Nat.add_sub_cancel_left, hi, Option.map_some] at hnext
    rw [Option.some.inj hnext]
    congr 1
    omega

theorem PendingFull.insert_drained {now : Run K} (hnow : Draining env Z run batch base proofs K now)
    (hroom : now.tree.queueNextIndex < now.tree.capacity) {value : Bytes32}
    (hvalue : isCanonicalBn254ScalarBe value = true) :
    ∃ index tree, (insertNullifierIntoQueue env.hashv value).run now.tree = .ok index tree := by
  rcases hnow.consistent.run_insert value with ⟨tree, hrun, _⟩ | ⟨e, hrejects, hrun⟩
  · exact ⟨_, tree, hrun⟩
  · exfalso
    obtain ⟨q, hq⟩ := h.aligned
    have hlower := hnow.lower
    have hupper := hnow.upper
    have hqueued : now.queued.length = base * Z + 2 * (K * Z) := by rw [hnow.queued, h.queued]
    have hpos : 0 < K * Z := by
      obtain ⟨_, hqueue⟩ := hconsistent.queue
      exact Nat.mul_pos hconsistent.K_pos hqueue.window.zkpBatchSize_pos
    cases hrejects with
    | nonCanonical hbad => exact absurd (hbad.symm.trans hvalue) (by simp)
    | treeIsFull hfull => omega
    | batchNotReady hbatch hfull =>
        -- A full current batch would start where the drained one ends.
        obtain ⟨_, _, base', hfull'⟩ := hnow.consistent.pendingFull hbatch (tryGetState_eq hfull)
        obtain ⟨q', hq'⟩ := hfull'.aligned
        have happlied := hfull'.applied
        have hslot := hfull'.slot_lt
        have hq'' : q' = q + 1 := by
          have hn : now.applied.length = q' * K + _ := hq' ▸ happlied
          have hdiv := position_div hn hslot
          rw [show now.applied.length = (q + 1) * K by rw [Nat.succ_mul]; omega,
            Nat.mul_div_cancel _ hconsistent.K_pos] at hdiv
          exact hdiv.symm
        have hlater : base' * Z = base * Z + K * Z := by
          rw [hq', hq'', hq, Nat.succ_mul, Nat.add_mul]
        have hqueued' := hfull'.queued
        omega
    | hasher hbatch hopen hfirst _ =>
        -- The queue ends where a batch ends, so no ZKP batch is open.
        obtain ⟨start, hqueue⟩ := hnow.consistent.queue
        have hslice := hqueue.window.slice _ _ hbatch
        obtain ⟨hc, hcursor⟩ := hqueue.current
        obtain ⟨turn, hturn⟩ := hqueue.window.aligned _ hc
        have hfilled := hslice.filled
        rcases hcursor with ⟨hlo, hhi⟩ | hend
        · have hn : now.queued.length = (q + 2) * (K * Z) := by
            rw [hqueued, hq, Nat.add_mul, Nat.mul_assoc]
          rw [hturn, hn] at hlo hhi
          rw [← Nat.succ_mul] at hhi
          have hle := Nat.le_of_mul_le_mul_right hlo hpos
          have hlt := Nat.lt_of_mul_lt_mul_right hhi
          have hsame : 2 * turn + now.tree.currentlyProcessingBatchIndex = q + 2 := by omega
          rw [hturn, hn, hsame] at hfilled
          omega
        · exact hfirst (hslice.numFull_eq (by omega)).2

end

end

/-- Applying cached updates never fails, and an insertion fails only at the capacity or where the current
batch is full. Then that batch is the pending one, and whatever is cached, submitting the proofs of its
remaining ZKP batches in order along the true roots applies them all and makes insertion succeed again. -/
theorem no_wedge {testOnly : Bool} {batchSize height : Nat}
    (h : Reachable env testOnly batchSize Z height run) :
    (∀ merkleTreePubkey, ∃ cascade tree,
      (applyCachedTreeUpdates merkleTreePubkey).run run.tree = .ok cascade tree) ∧
    (∀ data merkleTreePubkey cached, (verifyProofCacheUpdate env data).run run.tree = .ok true cached →
      ∃ cascade tree, (applyCachedTreeUpdates merkleTreePubkey).run cached = .ok cascade tree) ∧
    (env.hashv.Total → ∀ value, isCanonicalBn254ScalarBe value = true →
      ((∃ e tree, (insertNullifierIntoQueue env.hashv value).run run.tree = .error e tree) ↔
        run.tree.capacity ≤ run.tree.queueNextIndex ∨
          ∃ batch, run.tree.getBatch run.tree.currentlyProcessingBatchIndex = some batch ∧
            batch.tryGetState = some .full)) ∧
    (∀ batch, run.tree.getBatch run.tree.currentlyProcessingBatchIndex = some batch →
      batch.tryGetState = some .full →
      run.tree.currentlyProcessingBatchIndex = run.tree.pendingBatchIndex ∧
      batch.numInsertedZkpBatches < batch.numFullZkpBatches ∧
      ∀ roots proofs merkleTreePubkey, HonestProofs env Z run batch roots proofs →
        (∃ new, (run.calls env (drainCalls batch merkleTreePubkey proofs)).applied
            = run.applied ++ new ∧
          new.length = K - batch.numInsertedZkpBatches ∧
          ∀ i update, new[i]? = some update →
            update.zkpBatchIndex = batch.numInsertedZkpBatches + i ∧
            update.oldRoot = roots (batch.numInsertedZkpBatches + i) ∧
            update.newRoot = roots (batch.numInsertedZkpBatches + i + 1)) ∧
        (run.tree.queueNextIndex < run.tree.capacity → ∀ value,
          isCanonicalBn254ScalarBe value = true → ∃ index tree,
            (insertNullifierIntoQueue env.hashv value).run
              (run.calls env (drainCalls batch merkleTreePubkey proofs)).tree = .ok index tree)) := by
  have hconsistent := h.consistent
  refine ⟨?_, ?_, ?_, ?_⟩
  · intro merkleTreePubkey
    obtain ⟨new, tree, _, hrun⟩ := hconsistent.run_applyCachedTreeUpdates merkleTreePubkey
    exact ⟨_, tree, hrun⟩
  · intro data merkleTreePubkey cached hverify
    obtain ⟨start, hqueue⟩ := hconsistent.queue
    obtain ⟨batch, hbatch⟩ := hqueue.exists_pending
    rcases hqueue.run_verifyProofCacheUpdate hconsistent.zkpBatchSize hconsistent.queued_lt rfl
        hbatch data with ⟨haccepted, hslot, hrun⟩ | ⟨_, hrun⟩ | ⟨_, e, hrun⟩
    · obtain ⟨_, rfl⟩ := EStateM.Result.ok.inj (hrun.symm.trans hverify)
      have hcached := hconsistent.submit data rfl
        ⟨start, hqueue.cacheAccepted rfl hbatch haccepted hslot⟩
      obtain ⟨new, tree, _, happly⟩ := hcached.run_applyCachedTreeUpdates merkleTreePubkey
      exact ⟨_, tree, happly⟩
    · exact absurd (hrun.symm.trans hverify) (by simp)
    · exact absurd (hrun.symm.trans hverify) (by simp)
  · intro htotal value hvalue
    exact hconsistent.insert_fails_iff htotal hvalue
  · intro batch hbatch hstate
    obtain ⟨hpending, hlast, base, hfull⟩ := hconsistent.pendingFull hbatch hstate
    refine ⟨hpending, by rw [hlast]; exact hfull.slot_lt, ?_⟩
    intro roots proofs merkleTreePubkey hhonest
    have hdrained := hfull.drained hconsistent hhonest merkleTreePubkey
    refine ⟨hfull.applied_drained hconsistent hhonest hdrained, ?_⟩
    intro hroom value hvalue
    refine hfull.insert_drained hconsistent hdrained ?_ hvalue
    rw [(hconsistent.calls _).2, hdrained.consistent.queueNextIndex, hdrained.queued,
      ← hconsistent.queueNextIndex]
    exact hroom

/-- Eight values fill both batches of the small tree. -/
def fullQueue : Run 2 := smallRun.calls Env.lenient ([1, 2, 3, 4, 5, 6, 7, 8].map .insert)

def fullBatch : Batch 2 := getElem fullQueue.tree.batches 0 Nat.zero_lt_two

def drainRoots (j : Nat) : Bytes32 := if j = 0 then nullifierTreeInitRoot40 else BitVec.ofNat 256 (100 + j)

def drainProofs (j : Nat) : InstructionDataBatchNullifyInputs :=
  ⟨drainRoots (j + 1), drainRoots j, UInt16.ofNat j, ⟨0, 0, 0⟩⟩

theorem honestProofs_fullQueue : HonestProofs Env.lenient 2 fullQueue fullBatch drainRoots drainProofs where
  currentRoot := by decide +kernel
  canonical := by
    intro j _ hj
    interval_cases j <;> decide +kernel
  zkpBatchIndex := by
    intro j _ hj
    interval_cases j <;> rfl
  oldRoot := fun _ _ _ => rfl
  newRoot := fun _ _ _ => rfl
  accepts := by
    intro j _ hj
    interval_cases j
    · exact ⟨3, nullifierTreeInitRoot40 + 105, by decide +kernel, by decide +kernel, rfl⟩
    · exact ⟨7, 213, by decide +kernel, by decide +kernel, rfl⟩
  true_roots := by
    have hsubmitted : fullQueue.submitted = [] := by decide +kernel
    rw [hsubmitted]
    intro other hmem
    exact absurd hmem List.not_mem_nil

theorem no_wedge_fullQueue : fullBatch.tryGetState = some .full ∧
    (fullQueue.calls Env.lenient (drainCalls fullBatch 0 drainProofs)).applied.length = 2 ∧
    ∃ index tree, (insertNullifierIntoQueue Env.lenient.hashv 11).run
      (fullQueue.calls Env.lenient (drainCalls fullBatch 0 drainProofs)).tree = .ok index tree := by
  have hfull : fullBatch.tryGetState = some .full := by decide +kernel
  have hbatch : fullQueue.tree.getBatch fullQueue.tree.currentlyProcessingBatchIndex
      = some fullBatch := by decide +kernel
  have hreachable : Reachable Env.lenient true 4 2 4 fullQueue := (reachable_smallRun Env.lenient).calls _
  have hwedge := (no_wedge hreachable).2.2.2 fullBatch hbatch hfull
  obtain ⟨⟨new, happlied, hlength, -⟩, hinsert⟩ := hwedge.2.2 _ _ 0 honestProofs_fullQueue
  refine ⟨hfull, ?_, hinsert (by decide +kernel) 11 (by decide)⟩
  rw [happlied, List.length_append, hlength]
  decide +kernel

end Zolana
