import Mathlib.Data.List.Sort

/-!
# Stable sorting and repetitions

A stable sort keeps the order of elements that compare as equal. Removing neighbours that repeat leaves a sorted list
without repetitions.
-/

namespace Sorting

variable {α : Type}

section Dedup

variable [DecidableEq α]

/-- Of neighbours that are equal, the last one stays. -/
def dedup : List α → List α
  | [] => []
  | [a] => [a]
  | a :: b :: l => if a = b then dedup (b :: l) else a :: dedup (b :: l)

@[simp] theorem mem_dedup {l : List α} {a : α} : a ∈ dedup l ↔ a ∈ l := by
  fun_induction dedup l with
  | case1 => rfl
  | case2 => rfl
  | case3 a l ih => simp [ih]
  | case4 a b l hne ih => simp [ih]

theorem pairwise_dedup {r : α → α → Prop} {l : List α} (h : l.Pairwise r)
    (hantisymm : ∀ a ∈ l, ∀ b ∈ l, r a b → r b a → a = b) : (dedup l).Pairwise fun a b => r a b ∧ a ≠ b := by
  fun_induction dedup l with
  | case1 => exact .nil
  | case2 => simp
  | case3 a l ih =>
      exact ih (List.pairwise_cons.mp h).2 fun x hx y hy =>
        hantisymm x (List.mem_cons_of_mem _ hx) y (List.mem_cons_of_mem _ hy)
  | case4 a b l hne ih =>
      obtain ⟨hfirst, hrest⟩ := List.pairwise_cons.mp h
      refine List.pairwise_cons.mpr ⟨?_, ih hrest fun x hx y hy =>
        hantisymm x (List.mem_cons_of_mem _ hx) y (List.mem_cons_of_mem _ hy)⟩
      intro x hx
      rw [mem_dedup] at hx
      refine ⟨hfirst x hx, ?_⟩
      rintro rfl
      obtain rfl | hmem := List.mem_cons.mp hx
      · exact hne rfl
      · have hba : r b a := (List.pairwise_cons.mp hrest).1 a hmem
        exact hne (hantisymm a (List.mem_cons_self ..) b (by simp) (hfirst b (by simp)) hba)

end Dedup

/-! ### Sorting by a key -/

section Keys

variable {β : Type} [LinearOrder β] (f : α → β)

/-- In the order of a key, which is stable. -/
def sortBy (l : List α) : List α := l.mergeSort fun a b => f a ≤ f b

variable {f} {l l' : List α}

@[simp] theorem mem_sortBy {a : α} : a ∈ sortBy f l ↔ a ∈ l := List.mem_mergeSort

theorem pairwise_sortBy : (sortBy f l).Pairwise fun a b => f a ≤ f b := by
  refine (List.pairwise_mergeSort (fun a b c hab hbc => ?_) (fun a b => ?_) l).imp (by simp)
  · simp only [decide_eq_true_eq] at hab hbc ⊢
    exact hab.trans hbc
  · simpa using le_total (f a) (f b)

theorem strict_sortBy (h : (l.map f).Nodup) : (sortBy f l).Pairwise fun a b => f a < f b := by
  have hnodup : ((sortBy f l).map f).Nodup := (((List.mergeSort_perm ..).map f).nodup_iff).mpr h
  rw [List.Nodup, List.pairwise_map] at hnodup
  exact (pairwise_sortBy.and hnodup).imp fun h => lt_of_le_of_ne h.1 h.2

theorem eq_of_strict (h : l.Pairwise fun a b => f a < f b) (h' : l'.Pairwise fun a b => f a < f b)
    (hmem : ∀ a, a ∈ l ↔ a ∈ l') : l = l' := by
  have hirrefl : Std.Irrefl fun a b : α => f a < f b := ⟨fun a => lt_irrefl (f a)⟩
  have hantisymm : Std.Antisymm fun a b : α => f a < f b := ⟨fun a b hab hba => absurd (hab.trans hba) (lt_irrefl _)⟩
  exact h.eq_of_mem_iff h' hmem

theorem filter_le_getLast {t : α} (h : (l ++ l').Pairwise fun a b => f a < f b) (hlast : l.getLast? = some t) :
    (l ++ l').filter (fun a => f a ≤ f t) = l := by
  obtain ⟨hl, -, hcross⟩ := List.pairwise_append.mp h
  obtain ⟨init, rfl⟩ := List.getLast?_eq_some_iff.mp hlast
  have hkept : (init ++ [t]).filter (fun a => decide (f a ≤ f t)) = init ++ [t] := by
    refine List.filter_eq_self.mpr fun a ha => ?_
    rw [decide_eq_true_eq]
    obtain ha | ha := List.mem_append.mp ha
    · exact ((List.pairwise_append.mp hl).2.2 a ha t (by simp)).le
    · rw [List.mem_singleton.mp ha]
  have hdropped : l'.filter (fun a => decide (f a ≤ f t)) = [] := by
    refine List.filter_eq_nil_iff.mpr fun a ha => ?_
    simpa using hcross t (by simp) a ha
  rw [List.filter_append, hkept, hdropped, List.append_nil]

/-- The elements of a list once each, in the order of a key. -/
def distinct [DecidableEq α] (f : α → β) (l : List α) : List α := dedup (sortBy f l)

@[simp] theorem mem_distinct [DecidableEq α] {a : α} : a ∈ distinct f l ↔ a ∈ l := by
  rw [distinct, mem_dedup, mem_sortBy]

theorem strict_distinct [DecidableEq α] (hf : Function.Injective f) :
    (distinct f l).Pairwise fun a b => f a < f b := by
  refine (pairwise_dedup pairwise_sortBy fun a _ b _ hab hba => hf (le_antisymm hab hba)).imp fun h => ?_
  exact lt_of_le_of_ne h.1 fun heq => h.2 (hf heq)

end Keys

end Sorting
