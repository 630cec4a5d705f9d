import Zolana.Proof.Batch
import Zolana.NullifierTree.Layout

/-!
# The two batches of the account

Reading and writing one of them, and running a batch method on the one a cursor names.
-/

namespace Zolana

open Fallible NullifierTreeLayout

variable {K : Nat} {tree : NullifierTreeLayout K} {batch : Batch K}
  {batches : Vector (Batch K) numBatches}

theorem exists_batch (batches : Vector (Batch K) numBatches) {i : Nat} (hi : i < 2) :
    ∃ batch, batches[i]? = some batch := by
  have hi' : i < numBatches := hi
  exact ⟨batches[i], Vector.getElem?_eq_getElem hi'⟩

theorem index_lt {batch : Batch K} {i : Nat} (h : batches[i]? = some batch) : i < 2 :=
  (Vector.getElem?_eq_some_iff.mp h).1

theorem batch_of_set {batch batch' : Batch K} {c i : Nat}
    (h : (batches.setIfInBounds c batch')[i]? = some batch) :
    (i = c ∧ batch = batch') ∨ (i ≠ c ∧ batches[i]? = some batch) := by
  by_cases hic : i = c
  · subst hic
    have hlt : i < numBatches := index_lt h
    rw [Vector.getElem?_setIfInBounds_self, if_pos hlt] at h
    exact .inl ⟨rfl, (Option.some.inj h).symm⟩
  · rw [Vector.getElem?_setIfInBounds_ne (Ne.symm hic)] at h
    exact .inr ⟨hic, h⟩

theorem setBatch_of_getBatch {i : Nat} (h : tree.getBatch i = some batch) : tree.setBatch i batch = tree := by
  have hbatches : tree.batches.setIfInBounds i batch = tree.batches := by
    refine Vector.ext fun j hj => ?_
    by_cases hij : i = j
    · subst hij
      rw [Vector.getElem_setIfInBounds_self]
      exact ((Vector.getElem?_eq_some_iff.mp h).2).symm
    · exact Vector.getElem_setIfInBounds_ne hj hij
  rw [setBatch, hbatches]

theorem getBatch_setBatch {i : Nat} (h : tree.getBatch i = some batch) (batch' : Batch K) :
    (tree.setBatch i batch').getBatch i = some batch' := by
  have hi : i < numBatches := index_lt h
  rw [getBatch, setBatch, Vector.getElem?_setIfInBounds_self, if_pos hi]

theorem setBatch_setBatch (tree : NullifierTreeLayout K) (i : Nat) (first second : Batch K) :
    (tree.setBatch i first).setBatch i second = tree.setBatch i second := by
  simp only [setBatch, Vector.setIfInBounds_setIfInBounds]

/-! ### A batch method -/

section Methods

variable {α : Type} {act : BatchM K α} {a : α} {batch' : Batch K} {e : NullifierTreeError}

theorem run_withCurrentBatch_ok (hbatch : tree.getBatch tree.currentlyProcessingBatchIndex = some batch)
    (hact : act.run batch = .ok a batch') : (withCurrentBatch act).run tree
      = .ok a (tree.setBatch tree.currentlyProcessingBatchIndex batch') := by
  unfold withCurrentBatch
  exact run_zoom_ok (s := tree) hbatch hact

theorem run_withCurrentBatch_error (hbatch : tree.getBatch tree.currentlyProcessingBatchIndex = some batch)
    (hact : act.run batch = .error e batch') : (withCurrentBatch act).run tree
      = .error e (tree.setBatch tree.currentlyProcessingBatchIndex batch') := by
  unfold withCurrentBatch
  exact run_zoom_error (s := tree) hbatch hact

theorem run_getPendingBatch (hbatch : tree.getBatch tree.pendingBatchIndex = some batch) :
    getPendingBatch.run tree = .ok batch tree := by
  simp [getPendingBatch, hbatch]

theorem run_withPendingBatch_ok (hbatch : tree.getBatch tree.pendingBatchIndex = some batch)
    (hact : act.run batch = .ok a batch') :
    (withPendingBatch act).run tree = .ok a (tree.setBatch tree.pendingBatchIndex batch') := by
  unfold withPendingBatch
  exact run_zoom_ok (s := tree) hbatch hact

end Methods

end Zolana
