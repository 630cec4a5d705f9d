import Zolana.Proof.Invariant

/-!
# Queue insertion keeps the invariant

An insertion either appends the value to the queue or fails and leaves the account as it was. The hash
of a value is the only call that can fail after the batch may have been reset, and the first value of a
batch is not hashed.
-/

namespace Zolana

open Fallible NullifierTreeLayout

variable {K Z : Nat} {env : Env} {queued : List Bytes32}
  {submitted : List InstructionDataBatchNullifyInputs} {applied : Nat} {start : Nat → Nat}
  {tree : NullifierTreeLayout K} {batch : Batch K}

theorem Batch.cachedTreeUpdate_counted (batch : Batch K) (j : Nat) :
    batch.counted.cachedTreeUpdate j = batch.cachedTreeUpdate j := by
  unfold Batch.counted
  split <;> rfl

theorem Batch.numInsertedZkpBatches_counted (batch : Batch K) :
    batch.counted.numInsertedZkpBatches = batch.numInsertedZkpBatches := by
  unfold Batch.counted
  split <;> rfl

theorem Batch.le_numFullZkpBatches_counted (batch : Batch K) :
    batch.numFullZkpBatches ≤ batch.counted.numFullZkpBatches := by
  unfold Batch.counted
  split
  · exact Nat.le_succ _
  · exact Nat.le_refl _

/-! ### The queue before and after a value -/

namespace Queue

section

variable (h : Queue env Z queued submitted applied start tree) (hK : 0 < K)

include h hK

/-- The current batch has room, or the queue is two batches ahead of its start and it is `Full` or
`Inserted`. -/
theorem current_cases {c : Nat} (hc : tree.currentlyProcessingBatchIndex = c)
    (hbatch : tree.getBatch c = some batch) :
    (start c ≤ queued.length ∧ queued.length < start c + K * Z ∧
      batch.state = BatchState.fill.toU64) ∨
    (queued.length = start c + 2 * (K * Z) ∧ applied < start c + K * Z ∧
      batch.state = BatchState.full.toU64) ∨
    (queued.length = start c + 2 * (K * Z) ∧ start c + K * Z ≤ applied ∧
      batch.state = BatchState.inserted.toU64) := by
  obtain ⟨_, hcursor⟩ := h.current
  rw [hc] at hcursor
  have hslice := h.window.slice c batch hbatch
  rcases hcursor with ⟨hlo, hhi⟩ | hend
  · exact .inl ⟨hlo, hhi, hslice.state_fill h.window.applied_le hhi hK⟩
  · right
    by_cases happlied : applied < start c + K * Z
    · exact .inl ⟨hend, happlied, hslice.state_full (by omega) happlied hK⟩
    · exact .inr ⟨hend, by omega, hslice.state_inserted (by omega)⟩

theorem reuse {c : Nat} (hbatch : tree.getBatch c = some batch) (hend : queued.length = start c + 2 * (K * Z))
    (happlied : start c + K * Z ≤ applied) :
    Queue env Z queued submitted applied (Function.update start c (start c + 2 * (K * Z)))
      (tree.setBatch c
        (batch.reset batch.batchSize batch.zkpBatchSize (start c + 2 * (K * Z) + 1))) := by
  have hlt := index_lt hbatch
  refine ⟨h.window.reuse hK hbatch hend happlied, ?_, ?_, ?_⟩
  · have hlast : start c + K * Z ≤ queued.length := by omega
    exact h.current.reuse h.window hK hlt hend hlast (Nat.le_refl _)
  · exact h.pending.reuse h.window hK hlt hend happlied h.window.applied_le
  · intro i other j update hother hupdate
    rcases batch_of_set hother with ⟨rfl, rfl⟩ | ⟨hne, hother⟩
    · -- The batch was applied to its end, so nothing is cached in it.
      have hslice := h.window.slice i batch hbatch
      obtain ⟨_, hlo, hhi, _⟩ := h.cache i batch j update hbatch hupdate
      have hfull := hslice.numFull_le
      rw [hslice.numInsertedZkp_eq happlied] at hlo
      omega
    · rw [Function.update_of_ne hne]
      exact h.cache i other j update hother hupdate

theorem insert {c : Nat} (hbatch : tree.getBatch c = some batch) (hlo : start c ≤ queued.length)
    (hhi : queued.length < start c + K * Z) {value : Bytes32} {hashChains : Vector Bytes32 K}
    {pendingValues : Vector Bytes32 2}
    (htakes : batch.TakesUp env.hashv value hashChains pendingValues) {current : Nat}
    (hcurrent : current = if queued.length + 1 = start c + K * Z then (c + 1) % 2 else c) :
    Queue env Z (queued ++ [value]) submitted applied start
      { tree.setBatch c (Batch.counted { batch with hashChains, pendingValues }) with
        currentlyProcessingBatchIndex := current } := by
  have hlen : (queued ++ [value]).length = queued.length + 1 := by simp
  refine ⟨h.window.insert hK hbatch hlo hhi htakes, ?_, h.pending, ?_⟩
  · rw [hlen]
    dsimp only
    rw [hcurrent]
    exact Cursor.advance h.window (index_lt hbatch) hlo hK (by omega)
  · intro i other j update hother hupdate
    rcases batch_of_set hother with ⟨rfl, rfl⟩ | ⟨hne, hother⟩
    · rw [Batch.cachedTreeUpdate_counted] at hupdate
      obtain ⟨hpending, hfrom, hto, hverified⟩ := h.cache i batch j update hbatch hupdate
      have hle := Batch.le_numFullZkpBatches_counted { batch with hashChains, pendingValues }
      refine ⟨hpending, ?_, Nat.lt_of_lt_of_le hto hle, ?_⟩
      · rw [Batch.numInsertedZkpBatches_counted]
        exact hfrom
      · exact hverified.insert value ((h.window.slice i batch hbatch).window_le hto)
    · obtain ⟨hpending, hfrom, hto, hverified⟩ := h.cache i other j update hother hupdate
      refine ⟨hpending, hfrom, hto, ?_⟩
      exact hverified.insert value ((h.window.slice i other hother).window_le hto)

end

end Queue

/-! ### The method -/

/-- Why an insertion is rejected. -/
inductive Rejects (hashv : Hashv) (tree : NullifierTreeLayout K) (value : Bytes32) : NullifierTreeError → Prop
  | nonCanonical (h : isCanonicalBn254ScalarBe value = false) :
      Rejects hashv tree value .nonCanonicalFieldElement
  | treeIsFull (h : tree.capacity ≤ tree.queueNextIndex) : Rejects hashv tree value .treeIsFull
  | batchNotReady {batch : Batch K}
      (hbatch : tree.getBatch tree.currentlyProcessingBatchIndex = some batch)
      (hfull : batch.state = BatchState.full.toU64) : Rejects hashv tree value .batchNotReady
  | hasher {batch : Batch K} {e : HasherError}
      (hbatch : tree.getBatch tree.currentlyProcessingBatchIndex = some batch)
      (hopen : batch.numFullZkpBatches < K) (hfirst : batch.numInserted ≠ 0)
      (hdigest : hashv (absorbInputs batch.hashChains[batch.numFullZkpBatches] batch.pendingValues
        batch.numPending value) = .error e) : Rejects hashv tree value (.hasher e)

namespace Queue

theorem run_fill (h : Queue env Z queued submitted applied start tree) (hK : 0 < K)
    (hbound : queued.length + 1 < 2 ^ 64) {c : Nat} (hc : tree.currentlyProcessingBatchIndex = c)
    (hbatch : tree.getBatch c = some batch) (value : Bytes32) :
    (∃ ready start' hashChains pendingValues,
      Queue env Z queued submitted applied start' (tree.setBatch c ready) ∧
      start' c ≤ queued.length ∧ queued.length < start' c + K * Z ∧
      batch.state ≠ BatchState.full.toU64 ∧
      ready.TakesUp env.hashv value hashChains pendingValues ∧
      (do Batch.ensureReadyToFill (K * Z); Batch.addToHashChain env.hashv value).run batch
        = .ok () (Batch.counted { ready with hashChains, pendingValues })) ∨
    (∃ e, Rejects env.hashv tree value e ∧
      (do Batch.ensureReadyToFill (K * Z); Batch.addToHashChain env.hashv value).run batch
        = .error e batch) := by
  have hslice := h.window.slice c batch hbatch
  have hZ := hslice.zkpBatchSize_pos
  rcases h.current_cases hK hc hbatch with ⟨hlo, hhi, hstate⟩ | ⟨hend, hfull, hstate⟩ |
    ⟨hend, happlied, hstate⟩
  · rw [run_bind_of_ok (Batch.run_ensureReadyToFill_fill hstate)]
    have hfilled := hslice.filled
    have hle : batch.numFullZkpBatches * 1 ≤ batch.numFullZkpBatches * Z :=
      Nat.mul_le_mul_left _ hZ
    have hopen := hslice.numFull_lt hhi hK
    rcases Batch.run_addToHashChain env.hashv value hstate hopen (by omega) (by omega) with
      ⟨hashChains, pendingValues, htakes, hrun⟩ | ⟨e, hfirst, hdigest, hrun⟩
    · refine .inl ⟨batch, start, hashChains, pendingValues, ?_, hlo, hhi, ?_, htakes, hrun⟩
      · rwa [setBatch_of_getBatch hbatch]
      · rw [hstate]
        decide
    · subst hc
      exact .inr ⟨_, .hasher hbatch hopen hfirst hdigest, hrun⟩
  · subst hc
    refine .inr ⟨_, .batchNotReady hbatch hstate, ?_⟩
    rw [run_bind_of_error (Batch.run_ensureReadyToFill_full hstate)]
  · have hstart := hslice.startIndex
    have hnext : batch.startIndex + K * Z * numBatches = start c + 2 * (K * Z) + 1 := by
      rw [hstart, numBatches]
      omega
    have hready : (Batch.ensureReadyToFill (K * Z)).run batch = .ok ()
        (batch.reset batch.batchSize batch.zkpBatchSize (start c + 2 * (K * Z) + 1)) := by
      rw [← hnext]
      exact Batch.run_ensureReadyToFill_inserted hstate (by omega)
    rw [run_bind_of_ok hready]
    have hreuse := h.reuse hK hbatch hend happlied
    have hpos : 0 < K * Z := Nat.mul_pos hK hZ
    have hempty : (batch.reset batch.batchSize batch.zkpBatchSize
        (start c + 2 * (K * Z) + 1)).state = BatchState.fill.toU64 := rfl
    rcases Batch.run_addToHashChain env.hashv value hempty hK (Nat.one_lt_two_pow (by decide))
        (Nat.one_lt_two_pow (by decide)) with
      ⟨hashChains, pendingValues, htakes, hrun⟩ | ⟨e, hfirst, _, _⟩
    · refine .inl ⟨_, _, hashChains, pendingValues, hreuse, ?_, ?_, ?_, htakes, hrun⟩
      · rw [Function.update_self]
        omega
      · rw [Function.update_self]
        omega
      · rw [hstate]
        decide
    · exact absurd rfl hfirst

end Queue

theorem run_incrementCurrentlyProcessingBatchIndexIfFull {state : BatchState} {c : Nat}
    (hc : tree.currentlyProcessingBatchIndex = c) (hbatch : tree.getBatch c = some batch)
    (hstate : batch.state = state.toU64) : incrementCurrentlyProcessingBatchIndexIfFull.run tree
      = .ok () { tree with
          currentlyProcessingBatchIndex := if state = .full then (c + 1) % 2 else c } := by
  subst hc
  have hrun : (withCurrentBatch Batch.checkedState).run tree = .ok state tree := by
    rw [run_withCurrentBatch_ok hbatch (Batch.run_checkedState hstate),
      setBatch_of_getBatch hbatch]
  rw [incrementCurrentlyProcessingBatchIndexIfFull, run_bind_of_ok hrun]
  by_cases hfull : state = .full
  · simp [hfull, numBatches]
  · simp [hfull]

theorem Queue.run_advance (h : Queue env Z queued submitted applied start tree) (hK : 0 < K) {c : Nat}
    (hc : tree.currentlyProcessingBatchIndex = c) (hbatch : tree.getBatch c = some batch)
    (hlo : start c ≤ queued.length) (hhi : queued.length < start c + K * Z) {value : Bytes32}
    {hashChains : Vector Bytes32 K} {pendingValues : Vector Bytes32 2}
    (htakes : batch.TakesUp env.hashv value hashChains pendingValues) {tree' : NullifierTreeLayout K}
    (htree : tree' = tree.setBatch c (Batch.counted { batch with hashChains, pendingValues })) :
    ∃ current, incrementCurrentlyProcessingBatchIndexIfFull.run tree'
        = .ok () { tree' with currentlyProcessingBatchIndex := current } ∧
      Queue env Z (queued ++ [value]) submitted applied start
        { tree' with currentlyProcessingBatchIndex := current } := by
  subst htree
  have hlen : (queued ++ [value]).length = queued.length + 1 := by simp
  have happlied := h.window.applied_le
  have hslice := (h.window.slice c batch hbatch).snoc hK happlied hlo hhi htakes
  have hget := getBatch_setBatch hbatch (Batch.counted { batch with hashChains, pendingValues })
  by_cases hlast : queued.length + 1 = start c + K * Z
  · have hstate := hslice.state_full (by omega) (by omega) hK
    refine ⟨_, run_incrementCurrentlyProcessingBatchIndexIfFull hc hget hstate, ?_⟩
    exact h.insert hK hbatch hlo hhi htakes (by rw [if_pos rfl, if_pos hlast])
  · have hstate := hslice.state_fill (by omega) (by omega) hK
    refine ⟨_, run_incrementCurrentlyProcessingBatchIndexIfFull hc hget hstate, ?_⟩
    exact h.insert hK hbatch hlo hhi htakes (by rw [if_neg (by decide), if_neg hlast])

theorem run_incrementQueueNextIndex (hbound : tree.queueNextIndex + 1 < 2 ^ 64) :
    incrementQueueNextIndex.run tree = .ok () { tree with queueNextIndex := tree.queueNextIndex + 1 } := by
  have hadd : (addU64 tree.queueNextIndex 1).run tree = .ok (tree.queueNextIndex + 1) tree :=
    run_addU64 hbound
  simp [incrementQueueNextIndex, hadd]

namespace Consistent

variable {run : Run K}

theorem insert (h : Consistent env Z run) {value : Bytes32} {tree : NullifierTreeLayout K}
    (hcanonical : isCanonicalBn254ScalarBe value = true)
    (hroom : run.tree.queueNextIndex < run.tree.capacity) {batches : Vector (Batch K) numBatches}
    {current : Nat} (htree : tree = { run.tree with
      batches := batches
      currentlyProcessingBatchIndex := current
      queueNextIndex := run.tree.queueNextIndex + 1 })
    (hqueue : ∃ start, Queue env Z (run.queued ++ [value]) run.submitted (run.applied.length * Z) start tree) :
    Consistent env Z { run with tree, queued := run.queued ++ [value] } where
  K_pos := h.K_pos
  batchSize := by rw [htree]; exact h.batchSize
  zkpBatchSize := by rw [htree]; exact h.zkpBatchSize
  capacity_lt := by rw [htree]; exact h.capacity_lt
  queueNextIndex := by
    rw [htree, List.length_append]
    exact congrArg (· + 1) h.queueNextIndex
  queue_le := by rw [htree]; exact hroom
  nextIndex := by rw [htree]; exact h.nextIndex
  sequenceNumber := by rw [htree]; exact h.sequenceNumber
  canonical := by
    intro other hmem
    rcases List.mem_append.mp hmem with hold | hnew
    · exact h.canonical other hold
    · rwa [List.mem_singleton.mp hnew]
  roots := by rw [htree]; exact h.roots
  currentIndex := by rw [htree]; exact h.currentIndex
  closeBeforeIndex := by rw [htree]; exact h.closeBeforeIndex
  log := by
    intro n update hn
    have hat := h.log n update hn
    refine { hat with window_le := ?_, verified := hat.verified.insert value hat.window_le }
    rw [List.length_append]
    exact Nat.le_add_right_of_le hat.window_le
  queue := hqueue

theorem run_insert (h : Consistent env Z run) (value : Bytes32) :
    (∃ tree, (insertNullifierIntoQueue env.hashv value).run run.tree
        = .ok run.tree.queueNextIndex tree ∧
      isCanonicalBn254ScalarBe value = true ∧ run.tree.queueNextIndex < run.tree.capacity ∧
      (∀ batch, run.tree.getBatch run.tree.currentlyProcessingBatchIndex = some batch →
        batch.state ≠ BatchState.full.toU64) ∧
      tree.capacity = run.tree.capacity ∧
      Consistent env Z { run with tree, queued := run.queued ++ [value] }) ∨
    (∃ e, Rejects env.hashv run.tree value e ∧
      (insertNullifierIntoQueue env.hashv value).run run.tree = .error e run.tree) := by
  cases hcanonical : isCanonicalBn254ScalarBe value with
  | false =>
      refine .inr ⟨_, .nonCanonical hcanonical, ?_⟩
      simp [insertNullifierIntoQueue, hcanonical]
  | true =>
      by_cases hfull : run.tree.capacity ≤ run.tree.queueNextIndex
      · refine .inr ⟨_, .treeIsFull hfull, ?_⟩
        simp [insertNullifierIntoQueue, hcanonical, checkedNextQueueIndex, hfull]
      · have hroom : run.tree.queueNextIndex < run.tree.capacity := by omega
        obtain ⟨start, hqueue⟩ := h.queue
        obtain ⟨batch, hbatch⟩ := hqueue.exists_current
        have hnext := h.queueNextIndex
        have hcapacity := h.capacity_lt
        have hindex : checkedNextQueueIndex.run run.tree = .ok run.tree.queueNextIndex run.tree := by
          simp [checkedNextQueueIndex, hfull]
        have hbegin : (insertNullifierIntoQueue env.hashv value).run run.tree =
            ((withCurrentBatch (do
                Batch.ensureReadyToFill (K * Z)
                Batch.addToHashChain env.hashv value)) >>= fun _ => do
              incrementCurrentlyProcessingBatchIndexIfFull
              incrementQueueNextIndex
              pure run.tree.queueNextIndex).run run.tree := by
          rw [insertNullifierIntoQueue, if_neg (by simp [hcanonical]), run_bind_of_ok hindex,
            EStateM.run_bind, EStateM.run_get]
          dsimp only
          rw [h.batchSize]
        rcases hqueue.run_fill h.K_pos (by omega) rfl hbatch value with
          ⟨ready, start', hashChains, pendingValues, hready, hlo, hhi, hnotFull, htakes, hrun⟩ |
          ⟨e, hrejects, hrun⟩
        · have hget := getBatch_setBatch hbatch ready
          have hset := setBatch_setBatch run.tree run.tree.currentlyProcessingBatchIndex ready
            (Batch.counted { ready with hashChains, pendingValues })
          obtain ⟨current, hcurrent, hqueue'⟩ :=
            hready.run_advance h.K_pos rfl hget hlo hhi htakes hset.symm
          refine .inl ⟨_, ?_, rfl, hroom, ?_, ?_, h.insert hcanonical hroom rfl
            ⟨start', hqueue'.window, hqueue'.current, hqueue'.pending, hqueue'.cache⟩⟩
          · rw [hbegin, run_bind_of_ok (run_withCurrentBatch_ok hbatch hrun),
              run_bind_of_ok hcurrent, run_bind_of_ok (run_incrementQueueNextIndex ?_)]
            · rfl
            · show run.tree.queueNextIndex + 1 < 2 ^ 64
              omega
          · intro other hother
            rwa [← Option.some.inj (hbatch.symm.trans hother)]
          · rfl
        · refine .inr ⟨e, hrejects, ?_⟩
          rw [hbegin, run_bind_of_error (run_withCurrentBatch_error hbatch hrun),
            setBatch_of_getBatch hbatch]

end Consistent

end Zolana
