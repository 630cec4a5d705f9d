import Zolana.Circuits.BatchAppend
import Zolana.Lib.IndexedList
import Zolana.Proof.Gadgets

/-!
# The indexed tree

The nullifier tree keeps a sorted set: its leaves are the digests of the pairs of neighbours, in the order in
which the values came, and empty leaves behind them. The empty leaf is zero, so that a tree says which of its
leaves are taken rests on zero being no digest.
-/

namespace Zolana.Circuits

open MerklePath

/-- The leaves below the number of elements are their digests, the others are empty. -/
structure LeavesOf (poseidon : Poseidon) (elements : List (Fr × Fr)) (leaf : Nat → Fr) : Prop where
  digest : ∀ j value next, elements[j]? = some (value, next) → poseidon [value, next] = some (leaf j)
  empty : ∀ j, elements.length ≤ j → leaf j = zeroLeaf

/-- The root of a tree over the elements of a sorted set that ends with `top`. -/
structure IndexedTree (poseidon : Poseidon) (top : Fr) (height : Nat) (elements : List (Fr × Fr))
    (root : Fr) : Prop where
  indexed : ∃ chain, IndexedList.Indexes ZMod.val 0 top chain elements
  leaves : ∃ leaf, LeavesOf poseidon elements leaf ∧
    nodeAt (nodeHash poseidon) leaf height 0 = some root

namespace LeavesOf

variable {poseidon : Poseidon} {elements : List (Fr × Fr)} {leaf : Nat → Fr} {j : Nat}
  {value next digest : Fr}

section

variable (h : LeavesOf poseidon elements leaf)

include h

theorem getElem?_eq (hfree : poseidon.CollisionFree) (hzero : poseidon.NeverZero)
    (hdigest : poseidon [value, next] = some (leaf j)) : elements[j]? = some (value, next) := by
  cases hget : elements[j]? with
  | none =>
      rw [h.empty j (List.getElem?_eq_none_iff.mp hget)] at hdigest
      exact absurd hdigest (hzero _)
  | some element =>
      have heq := hfree _ _ _ hdigest (h.digest j element.1 element.2 hget)
      simp only [List.cons.injEq, and_true] at heq
      rw [heq.1, heq.2]

theorem length_le (hzero : poseidon.NeverZero) (hempty : leaf j = zeroLeaf) : elements.length ≤ j := by
  by_contra hlt
  have hdigest := h.digest j _ _ (List.getElem?_eq_getElem (not_le.mp hlt))
  rw [hempty] at hdigest
  exact hzero _ hdigest

theorem set (hj : j < elements.length) (hdigest : poseidon [value, next] = some digest) :
    LeavesOf poseidon (elements.set j (value, next)) (Function.update leaf j digest) := by
  constructor
  · intro k value' next' hget
    by_cases hk : k = j
    · subst hk
      rw [List.getElem?_set_self hj] at hget
      obtain ⟨rfl, rfl⟩ := Prod.mk.inj (Option.some.inj hget)
      rwa [Function.update_self]
    · rw [List.getElem?_set_ne (Ne.symm hk)] at hget
      rw [Function.update_of_ne hk]
      exact h.digest k value' next' hget
  · intro k hk
    rw [List.length_set] at hk
    rw [Function.update_of_ne (by omega)]
    exact h.empty k hk

theorem snoc (hdigest : poseidon [value, next] = some digest) :
    LeavesOf poseidon (elements ++ [(value, next)]) (Function.update leaf elements.length digest) := by
  constructor
  · intro k value' next' hget
    rcases lt_trichotomy k elements.length with hlt | rfl | hgt
    · rw [List.getElem?_append_left hlt] at hget
      rw [Function.update_of_ne hlt.ne]
      exact h.digest k value' next' hget
    · rw [List.getElem?_concat_length] at hget
      obtain ⟨rfl, rfl⟩ := Prod.mk.inj (Option.some.inj hget)
      rwa [Function.update_self]
    · rw [List.getElem?_eq_none (by simp; omega)] at hget
      cases hget
  · intro k hk
    rw [List.length_append, List.length_singleton] at hk
    rw [Function.update_of_ne (by omega)]
    exact h.empty k (by omega)

end

end LeavesOf

namespace IndexedTree

variable {poseidon : Poseidon} {top root : Fr} {height : Nat} {elements : List (Fr × Fr)}

theorem nodup (h : IndexedTree poseidon top height elements root) : (elements.map Prod.fst).Nodup := by
  obtain ⟨chain, hchain⟩ := h.indexed
  exact hchain.nodup_map_fst

end IndexedTree

end Zolana.Circuits
