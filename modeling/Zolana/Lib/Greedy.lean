import Mathlib.Algebra.GroupWithZero.Nat
import Mathlib.Algebra.BigOperators.Group.List.Basic
import Mathlib.Algebra.Order.BigOperators.Group.List
import Zolana.Lib.Sorting

/-!
# The largest first

Of the elements of a list, no few weigh more than as many of the largest.
-/

namespace Greedy

variable {α : Type} {weight : α → Nat}

/-- The elements by weight, the largest first. Equal ones keep their order. -/
def largestFirst (weight : α → Nat) (l : List α) : List α :=
  Sorting.sortBy (fun a => OrderDual.toDual (weight a)) l

def total (weight : α → Nat) (l : List α) : Nat := (l.map weight).sum

@[simp] theorem total_nil : total weight [] = 0 := rfl

@[simp] theorem total_cons (a : α) (l : List α) : total weight (a :: l) = weight a + total weight l := rfl

theorem total_perm {l l' : List α} (h : l.Perm l') : total weight l = total weight l' := (h.map weight).sum_eq

theorem largestFirst_perm (weight : α → Nat) (l : List α) : (largestFirst weight l).Perm l := List.mergeSort_perm ..

theorem sorted_largestFirst (l : List α) : ((largestFirst weight l).map weight).Pairwise (· ≥ ·) := by
  have hsorted : (largestFirst weight l).Pairwise
      fun a b => OrderDual.toDual (weight a) ≤ OrderDual.toDual (weight b) := Sorting.pairwise_sortBy
  exact List.pairwise_map.mpr hsorted

theorem largestFirst_of_sorted {l : List α} (h : (l.map weight).Pairwise (· ≥ ·)) : largestFirst weight l = l :=
  List.mergeSort_of_pairwise ((List.pairwise_map.mp h).imp fun hle => by simpa using hle)

theorem map_largestFirst_congr {l l' : List α} (h : l.Perm l') :
    (largestFirst weight l).map weight = (largestFirst weight l').map weight := by
  have hperm := (((largestFirst_perm weight l).trans h).trans (largestFirst_perm weight l').symm).map weight
  exact hperm.eq_of_pairwise (fun _ _ _ _ hab hba => Nat.le_antisymm hba hab) (sorted_largestFirst l)
    (sorted_largestFirst l')

theorem sum_take_succ_le {l : List Nat} {a : Nat} (h : ∀ b ∈ l, b ≤ a) (k : Nat) :
    (l.take (k + 1)).sum ≤ a + (l.take k).sum := by
  rw [List.take_add_one, List.sum_append, Nat.add_comm]
  refine Nat.add_le_add_right ?_ _
  cases hk : l[k]? with
  | none => exact Nat.zero_le a
  | some b => simpa using h b (List.mem_of_getElem? hk)

theorem sum_le_sum_take {l s : List Nat} (hl : l.Pairwise (· ≥ ·)) (hs : s.Sublist l) {k : Nat}
    (hk : s.length ≤ k) : s.sum ≤ (l.take k).sum := by
  induction hs generalizing k with
  | slnil => simp
  | cons a _ ih =>
      obtain ⟨hfirst, hrest⟩ := List.pairwise_cons.mp hl
      cases k with
      | zero => exact ih hrest hk
      | succ k => exact (ih hrest hk).trans (sum_take_succ_le hfirst k)
  | cons_cons a _ ih =>
      obtain ⟨-, hrest⟩ := List.pairwise_cons.mp hl
      cases k with
      | zero => exact absurd hk (Nat.not_succ_le_zero _)
      | succ k => exact Nat.add_le_add_left (ih hrest (Nat.le_of_succ_le_succ hk)) a

theorem total_le_take {l s : List α} (hs : s.Subperm l) {k : Nat} (hk : s.length ≤ k) :
    total weight s ≤ total weight ((largestFirst weight l).take k) := by
  obtain ⟨s', hperm, hsub⟩ := hs.trans (largestFirst_perm weight l).symm.subperm
  rw [← total_perm hperm, total, total, List.map_take]
  apply sum_le_sum_take (sorted_largestFirst l) (hsub.map weight)
  rwa [List.length_map, hperm.length_eq]

end Greedy
