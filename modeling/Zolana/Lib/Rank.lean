import Mathlib.Tactic

/-!
# Ranks

The rank of a position is the number of earlier entries of its kind. It is the entry's position among
the entries of its kind, whichever way these are picked out.
-/

namespace List

variable {α β : Type}

/-- The entries before a position that satisfy `p`. -/
def rank (p : α → Bool) (xs : List α) (i : Nat) : Nat := (xs.take i).countP p

@[simp] theorem rank_zero (p : α → Bool) (xs : List α) : xs.rank p 0 = 0 := rfl

theorem rank_cons_succ (p : α → Bool) (x : α) (xs : List α) (i : Nat) :
    (x :: xs).rank p (i + 1) = (if p x then 1 else 0) + xs.rank p i := by
  rw [rank, take_succ_cons, countP_cons, rank, Nat.add_comm]

theorem rank_map (f : α → β) (p : β → Bool) (xs : List α) (i : Nat) :
    (xs.map f).rank p i = xs.rank (p ∘ f) i := by
  rw [rank, ← map_take, countP_map, rank]

theorem getElem?_filter_rank {p : α → Bool} {xs : List α} {i : Nat} {x : α} (h : xs[i]? = some x)
    (hp : p x = true) : (xs.filter p)[xs.rank p i]? = some x := by
  induction xs generalizing i with
  | nil => cases h
  | cons y ys ih =>
      cases i with
      | zero =>
          obtain rfl := Option.some.inj h
          rw [filter_cons_of_pos hp]
          rfl
      | succ i =>
          have hrest := ih h
          rw [rank_cons_succ]
          by_cases hy : p y = true
          · rw [filter_cons_of_pos hy, if_pos hy, Nat.add_comm 1, getElem?_cons_succ]
            exact hrest
          · rw [filter_cons_of_neg hy, if_neg hy, Nat.zero_add]
            exact hrest

end List
