import Zolana.Proof.Commitment
import Zolana.Properties.Representation

/-!
# Watermark safety

A nullifier PDA below the close watermark can be closed because every root a later spend can name
commits its nullifier.
-/

namespace Zolana

open NullifierTreeLayout

variable {K Z : Nat} {env : Env} {run : Run K}

/-- Every root `root_by_index` returns commits every value queued below `close_before_index`, and that
watermark never decreases and never exceeds `next_index`. The value with queue index `p + 1` is at
position `p` of the queue. -/
theorem watermark_safety {commits : Bytes32 → Set Bytes32} {testOnly : Bool} {batchSize height : Nat}
    (h : Reachable env testOnly batchSize Z height run) (hsound : run.BatchProofsSound env Z commits) :
    (∀ index root p value, run.tree.rootByIndex index = some root →
      p + 1 < run.tree.closeBeforeIndex → run.queued[p]? = some value → value ∈ commits root) ∧
    (∀ call, run.tree.closeBeforeIndex ≤ (run.call env call).tree.closeBeforeIndex) ∧
    run.tree.closeBeforeIndex ≤ run.tree.nextIndex := by
  have hconsistent := h.consistent
  refine ⟨?_, ?_, ?_⟩
  · intro index root p value hroot hp hvalue
    exact hconsistent.commits_of_rootByIndex hsound hroot hp hvalue
  · intro call
    rw [hconsistent.closeBeforeIndex, (hconsistent.call call).closeBeforeIndex]
    exact watermark_mono K Z (run.applied_le_call call)
  · rw [hconsistent.closeBeforeIndex, hconsistent.nextIndex]
    exact watermark_le K Z run.applied.length

/-! ### Two values, one at a time -/

/-- Knows the public inputs of two updates: from the initial root to 101 with the value 7, and from 101
to 102 with the value 9. -/
def Env.twoUpdates : Env where
  hashv inputs :=
    if inputs = [nullifierTreeInitRoot40, 101, 7, u64ToBytes32 1] then .ok 1
    else if inputs = [101, 102, 9, u64ToBytes32 2] then .ok 2
    else .error .invalidNumFields
  verifyBatchUpdate _ _ _ := .ok ()

def twoUpdates : List InstructionDataBatchNullifyInputs :=
  [⟨101, nullifierTreeInitRoot40, 0, ⟨0, 0, 0⟩⟩, ⟨102, 101, 0, ⟨0, 0, 0⟩⟩]

def twoInserts : List Call := [.insert 7, .insert 9]

def twoStart : Run 1 := ⟨initialised (by decide) 1 4, [], [], []⟩

def twoCommits (root : Bytes32) : Set Bytes32 :=
  if root = 101 then {7} else if root = 102 then {7, 9} else ∅

def twoQueue : Run 1 := twoStart.calls Env.twoUpdates twoInserts

theorem reachable_twoQueue : Reachable Env.twoUpdates true 1 1 4 twoQueue :=
  (Reachable.init rfl).calls twoInserts

def twoRun : Run 1 := twoQueue.calls Env.twoUpdates (twoUpdates.map (.update 0))

theorem reachable_twoRun : Reachable Env.twoUpdates true 1 1 4 twoRun :=
  reachable_twoQueue.calls (twoUpdates.map (.update 0))

theorem batchProofsSound_twoRun : twoRun.BatchProofsSound Env.twoUpdates 1 twoCommits := by
  have hsubmitted : twoRun.submitted = twoUpdates := by decide +kernel
  have hqueued : twoRun.queued = [7, 9] := by decide +kernel
  intro data hmem n hn haccepts
  rw [hsubmitted] at hmem
  rw [hqueued] at hn haccepts ⊢
  obtain ⟨chain, publicInputHash, hchain, hhash, _⟩ := haccepts
  have hcases : n = 0 ∨ n = 1 := by
    simp only [List.length_cons, List.length_nil] at hn
    omega
  -- An update is only known for its own value, so the mixed cases have no digest.
  rcases List.mem_cons.mp hmem with rfl | hmem
  · rcases hcases with rfl | rfl
    · simp [twoCommits, queueWindow, nullifierTreeInitRoot40]
    · obtain rfl := Except.ok.inj hchain
      have hunknown : Env.twoUpdates.hashv [nullifierTreeInitRoot40, 101, 9, u64ToBytes32 2]
          = .error .invalidNumFields := by decide +kernel
      exact absurd (hunknown.symm.trans hhash) (by simp)
  · obtain rfl := List.mem_singleton.mp hmem
    rcases hcases with rfl | rfl
    · obtain rfl := Except.ok.inj hchain
      have hunknown : Env.twoUpdates.hashv [101, 102, 7, u64ToBytes32 1]
          = .error .invalidNumFields := by decide +kernel
      exact absurd (hunknown.symm.trans hhash) (by simp)
    · simp [twoCommits, queueWindow, Set.pair_comm]

theorem watermark_safety_twoRun : twoRun.tree.rootByIndex 0 = some 102 ∧
    twoRun.tree.closeBeforeIndex = 2 ∧ 7 ∈ twoCommits 102 :=
  ⟨by decide +kernel, by decide +kernel,
    (watermark_safety reachable_twoRun batchProofsSound_twoRun).1 0 102 0 7 (by decide +kernel)
      (by decide +kernel) (by decide +kernel)⟩

end Zolana
