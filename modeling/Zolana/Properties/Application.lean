import Zolana.Properties.Representation

/-!
# Ordered, exactly-once application

Whatever is submitted and in whatever order, the updates applied to the tree are those of ZKP batches
0, 1, 2, … of the queue, each verified for the values of its ZKP batch and starting from the root the
one before it left.
-/

namespace Zolana

open NullifierTreeLayout

variable {K Z : Nat} {env : Env} {run : Run K}

/-- The root the `n`-th update has to start from. -/
def rootBefore (applied : List AppliedUpdate) : Nat → Option Bytes32
  | 0 => some nullifierTreeInitRoot40
  | n + 1 => applied[n]?.map AppliedUpdate.newRoot

theorem rootBefore_eq (applied : List AppliedUpdate) (n : Nat) :
    rootBefore applied n = (rootLog applied)[n]? := by
  cases n with
  | zero => rfl
  | succ n => rw [rootBefore, rootLog, List.getElem?_cons_succ, List.getElem?_map]

/-- The `n`-th applied update is the one of ZKP batch `n`, with queue indices `1 + n * Z` to
`(n + 1) * Z`: it starts from the root of the update before it and was verified with the hash chain of
exactly those values, at the index the tree had when it was applied. Every cached update was verified
for the range its batch has now, so none outlives a reset of its batch. -/
theorem ordered_exactly_once_application {testOnly : Bool} {batchSize height : Nat}
    (h : Reachable env testOnly batchSize Z height run) :
    (∀ n update, run.applied[n]? = some update →
      update.batchIndex = n / K % 2 ∧ update.zkpBatchIndex = n % K ∧
      update.oldNextIndex = 1 + n * Z ∧
      some update.oldRoot = rootBefore run.applied n ∧
      (queueWindow run.queued (n * Z) Z).length = Z ∧
      ∃ data ∈ run.submitted, data.oldRoot = update.oldRoot ∧ data.newRoot = update.newRoot ∧
        env.Accepts update.oldRoot update.newRoot (queueWindow run.queued (n * Z) Z) (1 + n * Z)
          data.proof) ∧
    run.tree.nextIndex = 1 + run.applied.length * Z ∧
    run.tree.getRoot = rootBefore run.applied run.applied.length ∧
    (∀ i batch j update, run.tree.getBatch i = some batch →
      batch.cachedTreeUpdate j = some update → ∃ start, batch.startIndex = start + 1 ∧
        start + j * Z + Z ≤ run.queued.length ∧
        ∃ data ∈ run.submitted, data.oldRoot = update.oldRoot ∧ data.newRoot = update.newRoot ∧
          env.Accepts update.oldRoot update.newRoot (queueWindow run.queued (start + j * Z) Z)
            (batch.startIndex + j * Z) data.proof) := by
  have hconsistent := h.consistent
  obtain ⟨start, hqueue⟩ := hconsistent.queue
  refine ⟨?_, ?_, ?_, ?_⟩
  · intro n update hn
    have hat := hconsistent.log n update hn
    obtain ⟨data, hmem, holdRoot, hnewRoot, _, haccepts⟩ := hat.verified
    rw [rootBefore_eq, hat.oldRoot, Nat.add_comm 1 (n * Z)]
    exact ⟨hat.batchIndex, hat.zkpBatchIndex, hat.oldNextIndex, rfl,
      length_queueWindow hat.window_le, data, hmem, holdRoot, hnewRoot, haccepts⟩
  · rw [hconsistent.nextIndex, Nat.add_comm]
  · rw [rootBefore_eq, hconsistent.getRoot]
  · intro i batch j update hbatch hupdate
    have hslice := hqueue.window.slice i batch hbatch
    obtain ⟨_, _, hhi, data, hmem, holdRoot, hnewRoot, _, haccepts⟩ :=
      hqueue.cache i batch j update hbatch hupdate
    refine ⟨start i, hslice.startIndex, hslice.window_le hhi, data, hmem, holdRoot, hnewRoot, ?_⟩
    rwa [hslice.startIndex, Nat.add_right_comm]

theorem ordered_exactly_once_application_fullRun : fullRun.applied.length = 1 ∧
    fullRun.tree.nextIndex = 1 + fullRun.applied.length * 2 :=
  ⟨by decide +kernel, (ordered_exactly_once_application reachable_fullRun).2.1⟩

end Zolana
