import Zolana.Proof.Invariant

/-!
# Caching a verified update

A proof is accepted for exactly the queue values its ZKP batch stands for, since the stored hash chain
is theirs. It then waits in the slot of its ZKP batch, and an accepted proof for the same slot takes its
place.
-/

namespace Zolana

open Fallible NullifierTreeLayout

variable {K Z : Nat} {env : Env} {queued : List Bytes32}
  {submitted : List InstructionDataBatchNullifyInputs} {applied start' : Nat} {start : Nat → Nat}
  {tree : NullifierTreeLayout K} {batch : Batch K} {run : Run K}

/-! ### Cache slots -/

theorem Batch.cachedTreeUpdate_set {batch' : Batch K} {slot j : Nat} {hslot : slot < K}
    {update : CachedTreeUpdate} (h : batch'.cachedTreeUpdates = batch.cachedTreeUpdates.set slot update hslot) :
    batch'.cachedTreeUpdate j = if slot = j then (some update).filter CachedTreeUpdate.isOccupied
        else batch.cachedTreeUpdate j := by
  rw [Batch.cachedTreeUpdate, h]
  by_cases hj : slot = j
  · subst hj
    rw [Vector.getElem?_set_self, if_pos rfl]
  · rw [Vector.getElem?_set_ne hslot hj, if_neg hj, Batch.cachedTreeUpdate]

theorem Batch.cachedTreeUpdate_clear (batch : Batch K) {batch' : Batch K} {slot j : Nat}
    (hslot : slot < K) {update : CachedTreeUpdate}
    (h : batch'.cachedTreeUpdates = batch.cachedTreeUpdates.set slot .zeroed hslot)
    (hupdate : batch'.cachedTreeUpdate j = some update) :
    j ≠ slot ∧ batch.cachedTreeUpdate j = some update := by
  rw [Batch.cachedTreeUpdate_set h] at hupdate
  split at hupdate
  case isTrue =>
    have hempty : (some CachedTreeUpdate.zeroed).filter CachedTreeUpdate.isOccupied = none := rfl
    rw [hempty] at hupdate
    exact absurd hupdate (by simp)
  case isFalse hne => exact ⟨Ne.symm hne, hupdate⟩

/-! ### Verification -/

/-- The instruction proves the update of a complete ZKP batch that is not applied yet. -/
structure Accepted (env : Env) (Z : Nat) (queued : List Bytes32) (start : Nat) (batch : Batch K)
    (data : InstructionDataBatchNullifyInputs) : Prop where
  unapplied : batch.numInsertedZkpBatches ≤ data.zkpBatchIndex.toNat
  complete : data.zkpBatchIndex.toNat < batch.numFullZkpBatches
  accepts : env.Accepts data.oldRoot data.newRoot
    (queueWindow queued (start + data.zkpBatchIndex.toNat * Z) Z)
    (start + data.zkpBatchIndex.toNat * Z + 1) data.proof

/-- The pending batch with the update of an instruction in its slot. -/
def withCached (batch : Batch K) (data : InstructionDataBatchNullifyInputs)
    (hslot : data.zkpBatchIndex.toNat < K) : Batch K :=
  { batch with
    cachedTreeUpdates := batch.cachedTreeUpdates.set data.zkpBatchIndex.toNat
      ⟨data.oldRoot, data.newRoot, 1⟩ }

theorem cachedTreeUpdate_withCached (batch : Batch K) (data : InstructionDataBatchNullifyInputs)
    (hslot : data.zkpBatchIndex.toNat < K) (j : Nat) : (withCached batch data hslot).cachedTreeUpdate j
      = if data.zkpBatchIndex.toNat = j then some ⟨data.oldRoot, data.newRoot, 1⟩
        else batch.cachedTreeUpdate j := by
  have hset : (withCached batch data hslot).cachedTreeUpdates = batch.cachedTreeUpdates.set
    data.zkpBatchIndex.toNat ⟨data.oldRoot, data.newRoot, 1⟩ := rfl
  rw [Batch.cachedTreeUpdate_set hset]
  rfl

/-- The stored chain is the one of the queue values, so the check made is the one for them. -/
theorem Slice.accepts_iff (h : Slice env.hashv Z queued applied start' batch) {j : Nat} (hj : j < K)
    (hlo : batch.numInsertedZkpBatches ≤ j) (hhi : j < batch.numFullZkpBatches)
    (oldRoot newRoot : Bytes32) (proof : NullifierTreeProof) :
    env.Accepts oldRoot newRoot (queueWindow queued (start' + j * Z) Z) (start' + j * Z + 1) proof ↔
      ∃ publicInputHash, env.hashv [oldRoot, newRoot, batch.hashChains[j],
          u64ToBytes32 (batch.startIndex + j * Z)] = .ok publicInputHash ∧
        env.verifyBatchUpdate Z publicInputHash proof = .ok () := by
  have hchain := h.complete j hj hlo hhi
  have hlen := length_queueWindow (h.window_le hhi)
  have hstart : batch.startIndex + j * Z = start' + j * Z + 1 := by
    rw [h.startIndex]
    omega
  rw [Env.Accepts, hlen, hchain, hstart]
  constructor
  · rintro ⟨chain, publicInputHash, hok, hhash, hverify⟩
    rw [← Except.ok.inj hok] at hhash
    exact ⟨publicInputHash, hhash, hverify⟩
  · rintro ⟨publicInputHash, hhash, hverify⟩
    exact ⟨_, publicInputHash, rfl, hhash, hverify⟩

namespace Queue

section

variable (h : Queue env Z queued submitted applied start tree)

include h

theorem run_verifyProofCacheUpdate (hzkp : tree.zkpBatchSize = Z) (hbound : queued.length < 2 ^ 64)
    {p : Nat} (hp : tree.pendingBatchIndex = p) (hbatch : tree.getBatch p = some batch)
    (data : InstructionDataBatchNullifyInputs) :
    (Accepted env Z queued (start p) batch data ∧ ∃ hslot,
      (verifyProofCacheUpdate env data).run tree
        = .ok true (tree.setBatch p (withCached batch data hslot))) ∨
    (data.zkpBatchIndex.toNat < batch.numInsertedZkpBatches ∧
      (verifyProofCacheUpdate env data).run tree = .ok false tree) ∨
    (¬ Accepted env Z queued (start p) batch data ∧
      ∃ e, (verifyProofCacheUpdate env data).run tree = .error e tree) := by
  subst hp hzkp
  have hslice := h.window.slice _ batch hbatch
  have hfull := hslice.numFull_le
  have hget : (getPendingBatch (K := K)).run tree = .ok batch tree := run_getPendingBatch hbatch
  by_cases hslot : data.zkpBatchIndex.toNat < K
  · have hchain : batch.hashChain data.zkpBatchIndex.toNat
        = some batch.hashChains[data.zkpBatchIndex.toNat] := Vector.getElem?_eq_getElem hslot
    by_cases hready : batch.numFullZkpBatches ≤ data.zkpBatchIndex.toNat
    · refine .inr (.inr ⟨fun haccepted => absurd haccepted.complete (by omega),
        .hashChainNotReady, ?_⟩)
      simp only [verifyProofCacheUpdate, EStateM.run_bind, EStateM.run_get, hget, hchain, okOr_some,
        EStateM.run_pure, if_pos hready, run_throw]
    · by_cases hdone : data.zkpBatchIndex.toNat < batch.getNumInsertedZkps
      · refine .inr (.inl ⟨hdone, ?_⟩)
        simp only [verifyProofCacheUpdate, EStateM.run_bind, EStateM.run_get, hget, hchain,
          okOr_some, EStateM.run_pure, if_neg hready, if_pos hdone]
      · have hlo : batch.numInsertedZkpBatches ≤ data.zkpBatchIndex.toNat := by
          simpa [Batch.getNumInsertedZkps] using hdone
        have hhi : data.zkpBatchIndex.toNat < batch.numFullZkpBatches := by omega
        have hwindow := hslice.window_le hhi
        have hZ := hslice.zkpBatchSize_pos
        have hindex : (checkedMul data.zkpBatchIndex.toNat tree.zkpBatchSize).bind
            (checkedAdd batch.startIndex)
              = some (batch.startIndex + data.zkpBatchIndex.toNat * tree.zkpBatchSize) := by
          have hstart := hslice.startIndex
          rw [checkedMul_of_lt (by omega), Option.bind_some, checkedAdd_of_lt (by omega)]
        have haccepts := hslice.accepts_iff hslot hlo hhi data.oldRoot data.newRoot data.proof
        have hput : (withPendingBatch (Batch.cacheTreeUpdate data.zkpBatchIndex.toNat
            ⟨data.oldRoot, data.newRoot, 1⟩)).run tree
              = .ok () (tree.setBatch tree.pendingBatchIndex (withCached batch data hslot)) :=
          run_withPendingBatch_ok hbatch (Batch.run_cacheTreeUpdate hslot)
        cases hhash : env.hashv [data.oldRoot, data.newRoot,
            batch.hashChains[data.zkpBatchIndex.toNat],
            u64ToBytes32 (batch.startIndex + data.zkpBatchIndex.toNat * tree.zkpBatchSize)] with
        | error e =>
            refine .inr (.inr ⟨fun haccepted => ?_, .hasher e, ?_⟩)
            · obtain ⟨publicInputHash, hok, _⟩ := haccepts.mp haccepted.accepts
              rw [hhash] at hok
              exact absurd hok (by simp)
            · simp only [verifyProofCacheUpdate, EStateM.run_bind, EStateM.run_get, hget, hchain,
                okOr_some, EStateM.run_pure, if_neg hready, if_neg hdone, hindex, hhash,
                run_mapErr_error]
        | ok publicInputHash =>
            cases hverify : env.verifyBatchUpdate tree.zkpBatchSize publicInputHash data.proof with
            | error e =>
                refine .inr (.inr ⟨fun haccepted => ?_, e, ?_⟩)
                · obtain ⟨other, hok, hverified⟩ := haccepts.mp haccepted.accepts
                  rw [hhash] at hok
                  rw [← Except.ok.inj hok, hverify] at hverified
                  exact absurd hverified (by simp)
                · simp only [verifyProofCacheUpdate, EStateM.run_bind, EStateM.run_get, hget,
                    hchain, okOr_some, EStateM.run_pure, if_neg hready, if_neg hdone, hindex, hhash,
                    mapErr_ok, hverify, run_mapErr_error, id]
            | ok u =>
                refine .inl ⟨⟨hlo, hhi, haccepts.mpr ⟨publicInputHash, hhash, hverify⟩⟩, hslot, ?_⟩
                simp only [verifyProofCacheUpdate, EStateM.run_bind, EStateM.run_get, hget, hchain,
                  okOr_some, EStateM.run_pure, if_neg hready, if_neg hdone, hindex, hhash,
                  mapErr_ok, hverify, hput]
  · have hchain : batch.hashChain data.zkpBatchIndex.toNat = none :=
      Vector.getElem?_eq_none (by omega)
    refine .inr (.inr ⟨fun haccepted => absurd haccepted.complete (by omega),
      .zkpBatchIndexOutOfRange, ?_⟩)
    simp only [verifyProofCacheUpdate, EStateM.run_bind, EStateM.run_get, hget, hchain,
      run_okOr_none]

theorem cacheAccepted {p : Nat} (hp : tree.pendingBatchIndex = p)
    (hbatch : tree.getBatch p = some batch) {data : InstructionDataBatchNullifyInputs}
    (haccepted : Accepted env Z queued (start p) batch data) (hslot : data.zkpBatchIndex.toNat < K) :
    Queue env Z queued (submitted ++ [data]) applied start
      (tree.setBatch p (withCached batch data hslot)) := by
  have hslice := h.window.slice p batch hbatch
  have hslice' : Slice env.hashv Z queued applied (start p) (withCached batch data hslot) :=
    { hslice with }
  have hwindow := h.window.replace hslice' (fun i other _ hother => h.window.slice i other hother)
    h.window.start_le h.window.applied_le h.window.queued_le
  refine ⟨hwindow, h.current, h.pending, ?_⟩
  intro i other j update hother hupdate
  rcases batch_of_set hother with ⟨rfl, rfl⟩ | ⟨_, hother⟩
  · rw [cachedTreeUpdate_withCached] at hupdate
    split at hupdate
    case isTrue hj =>
      subst hj
      obtain rfl := Option.some.inj hupdate
      refine ⟨hp.symm, haccepted.unapplied, haccepted.complete, ?_⟩
      exact ⟨data, List.mem_append_right submitted (List.mem_singleton_self data), rfl, rfl, rfl,
        haccepted.accepts⟩
    case isFalse =>
      obtain ⟨hpending, hlo, hhi, hverified⟩ := h.cache i batch j update hbatch hupdate
      exact ⟨hpending, hlo, hhi, hverified.submit data⟩
  · obtain ⟨hpending, hlo, hhi, hverified⟩ := h.cache i other j update hother hupdate
    exact ⟨hpending, hlo, hhi, hverified.submit data⟩

theorem submit (data : InstructionDataBatchNullifyInputs) :
    Queue env Z queued (submitted ++ [data]) applied start tree := by
  refine { h with cache := ?_ }
  intro i other j update hother hupdate
  obtain ⟨hpending, hlo, hhi, hverified⟩ := h.cache i other j update hother hupdate
  exact ⟨hpending, hlo, hhi, hverified.submit data⟩

end

end Queue

theorem Consistent.submit (h : Consistent env Z run) (data : InstructionDataBatchNullifyInputs)
    {tree : NullifierTreeLayout K} {batches : Vector (Batch K) numBatches}
    (htree : tree = { run.tree with batches := batches })
    (hqueue : ∃ start, Queue env Z run.queued (run.submitted ++ [data]) (run.applied.length * Z)
      start tree) :
    Consistent env Z { run with tree, submitted := run.submitted ++ [data] } where
  K_pos := h.K_pos
  batchSize := by rw [htree]; exact h.batchSize
  zkpBatchSize := by rw [htree]; exact h.zkpBatchSize
  capacity_lt := by rw [htree]; exact h.capacity_lt
  queueNextIndex := by rw [htree]; exact h.queueNextIndex
  queue_le := by rw [htree]; exact h.queue_le
  nextIndex := by rw [htree]; exact h.nextIndex
  sequenceNumber := by rw [htree]; exact h.sequenceNumber
  canonical := h.canonical
  roots := by rw [htree]; exact h.roots
  currentIndex := by rw [htree]; exact h.currentIndex
  closeBeforeIndex := by rw [htree]; exact h.closeBeforeIndex
  log := by
    intro n update hn
    have hat := h.log n update hn
    exact { hat with verified := hat.verified.submit data }
  queue := hqueue

end Zolana
