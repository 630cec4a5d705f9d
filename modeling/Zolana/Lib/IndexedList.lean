import Mathlib.Data.List.Perm.Basic
import Mathlib.Data.List.Nodup
import Mathlib.Tactic

/-!
# Sorted sets kept as linked pairs

A strictly increasing chain of values is kept as the pairs of its neighbours, in any order. A value strictly
between the two of a pair is not in the chain, and it enters the chain by changing that pair and adding one.
-/

namespace IndexedList

variable {α β : Type} [LinearOrder β] (rank : α → β)

/-- The pairs of neighbours. -/
def links : List α → List (α × α)
  | value :: next :: chain => (value, next) :: links (next :: chain)
  | _ => []

/-- The elements are the pairs of neighbours of an increasing chain, in some order. The pair that leads from
the last value back to the first may be one of them. -/
structure Indexes (bottom top : α) (chain : List α) (elements : List (α × α)) : Prop where
  sorted : chain.Pairwise fun value next => rank value < rank next
  head : chain.head? = some bottom
  last : chain.getLast? = some top
  perm : ∃ closing, (closing = [] ∨ closing = [(top, bottom)]) ∧ elements.Perm (links chain ++ closing)

/-- The elements with a value between the two of one of them. -/
def insert (elements : List (α × α)) (i : Nat) (low new high : α) : List (α × α) :=
  elements.set i (low, new) ++ [(new, high)]

@[simp]
theorem length_insert (elements : List (α × α)) (i : Nat) (low new high : α) :
    (insert elements i low new high).length = elements.length + 1 := by
  simp [insert]

@[simp]
theorem links_cons_cons (value next : α) (chain : List α) :
    links (value :: next :: chain) = (value, next) :: links (next :: chain) := rfl

theorem links_append (left right : List α) (value : α) :
    links (left ++ value :: right) = links (left ++ [value]) ++ links (value :: right) := by
  induction left with
  | nil => rfl
  | cons first left ih =>
      cases left with
      | nil => rfl
      | cons second left =>
          simp only [List.cons_append, links_cons_cons] at ih ⊢
          rw [ih]

theorem mem_links_iff {chain : List α} {low high : α} :
    (low, high) ∈ links chain ↔ ∃ left right, chain = left ++ low :: high :: right := by
  constructor
  · intro hmem
    fun_induction links chain with
    | case1 value next chain ih =>
        obtain heq | hmem := List.mem_cons.mp hmem
        · obtain ⟨rfl, rfl⟩ := Prod.mk.inj heq
          exact ⟨[], chain, rfl⟩
        · obtain ⟨left, right, hchain⟩ := ih hmem
          exact ⟨value :: left, right, by rw [hchain, List.cons_append]⟩
    | case2 => simp at hmem
  · rintro ⟨left, right, rfl⟩
    rw [links_append]
    exact List.mem_append_right _ (List.mem_cons_self ..)

theorem map_fst_links (chain : List α) : (links chain).map Prod.fst = chain.dropLast := by
  fun_induction links chain with
  | case1 value next chain ih => simp [ih]
  | case2 chain hshort =>
      cases chain with
      | nil => rfl
      | cons value chain =>
          cases chain with
          | nil => rfl
          | cons next chain => exact absurd rfl (hshort value next chain)

variable {rank} {bottom top low new high : α} {chain left right : List α} {elements : List (α × α)}

section

variable (hsorted : (left ++ low :: high :: right).Pairwise fun x y => rank x < rank y)

include hsorted

theorem sides_of_sorted :
    (∀ x ∈ left ++ [low], rank x ≤ rank low) ∧ ∀ x ∈ high :: right, rank high ≤ rank x := by
  obtain ⟨-, hcut, hcross⟩ := List.pairwise_append.mp hsorted
  obtain ⟨hlow, hhigh⟩ := List.pairwise_cons.mp hcut
  obtain ⟨hhigh, -⟩ := List.pairwise_cons.mp hhigh
  constructor
  · intro x hx
    obtain hx | hx := List.mem_append.mp hx
    · exact (hcross x hx low (List.mem_cons_self ..)).le
    · exact (congrArg rank (List.mem_singleton.mp hx)).le
  · intro x hx
    obtain rfl | hx := List.mem_cons.mp hx
    · exact le_rfl
    · exact (hhigh x hx).le

theorem not_mem_of_between (hlow : rank low < rank new) (hhigh : rank new < rank high) :
    new ∉ left ++ low :: high :: right := by
  obtain ⟨hleft, hright⟩ := sides_of_sorted hsorted
  intro hmem
  rw [List.append_cons, List.mem_append] at hmem
  obtain hmem | hmem := hmem
  · exact absurd (hleft new hmem) (not_le.mpr hlow)
  · exact absurd (hright new hmem) (not_le.mpr hhigh)

theorem sorted_insert (hlow : rank low < rank new) (hhigh : rank new < rank high) :
    (left ++ low :: new :: high :: right).Pairwise fun x y => rank x < rank y := by
  obtain ⟨hleft, hright⟩ := sides_of_sorted hsorted
  rw [List.append_cons] at hsorted ⊢
  obtain ⟨hsortedLeft, hsortedRight, hcross⟩ := List.pairwise_append.mp hsorted
  refine List.pairwise_append.mpr ⟨hsortedLeft, List.pairwise_cons.mpr ⟨?_, hsortedRight⟩, ?_⟩
  · intro x hx
    exact hhigh.trans_le (hright x hx)
  · intro x hx y hy
    obtain rfl | hy := List.mem_cons.mp hy
    · exact (hleft x hx).trans_lt hlow
    · exact hcross x hx y hy

end

theorem exists_between (hrank : Function.Injective rank) (hhead : chain.head? = some bottom)
    (hlast : chain.getLast? = some top) (hlow : rank bottom < rank new) (hhigh : rank new < rank top)
    (hnew : new ∉ chain) :
    ∃ low high, (low, high) ∈ links chain ∧ rank low < rank new ∧ rank new < rank high := by
  fun_induction links chain generalizing bottom with
  | case1 value next chain ih =>
      obtain rfl : value = bottom := Option.some.inj hhead
      obtain hbelow | hsame | habove := lt_trichotomy (rank new) (rank next)
      · exact ⟨value, next, List.mem_cons_self .., hlow, hbelow⟩
      · obtain rfl := hrank hsame
        exact absurd (List.mem_cons_of_mem _ (List.mem_cons_self ..)) hnew
      · obtain ⟨low, high, hmem, hbetween⟩ := ih rfl (by simpa using hlast) habove
          (fun hmem => hnew (List.mem_cons_of_mem _ hmem))
        exact ⟨low, high, List.mem_cons_of_mem _ hmem, hbetween⟩
  | case2 chain hshort =>
      cases chain with
      | nil => cases hhead
      | cons value chain =>
          cases chain with
          | nil =>
              obtain rfl : value = bottom := Option.some.inj hhead
              obtain rfl : value = top := Option.some.inj hlast
              exact absurd (hlow.trans hhigh) (lt_irrefl _)
          | cons next chain => exact absurd rfl (hshort value next chain)

theorem perm_set {elements rest : List (α × α)} {i : Nat} {old : α × α} (hget : elements[i]? = some old)
    (hperm : elements.Perm (old :: rest)) (new : α × α) : (elements.set i new).Perm (new :: rest) := by
  obtain ⟨hi, rfl⟩ := List.getElem?_eq_some_iff.mp hget
  have hsplit : elements.Perm (elements[i] :: (elements.take i ++ elements.drop (i + 1))) := by
    conv_lhs => rw [← List.take_append_drop i elements, List.drop_eq_getElem_cons hi]
    exact List.perm_middle
  have hrest := (hsplit.symm.trans hperm).cons_inv
  rw [List.set_eq_take_append_cons_drop, if_pos hi]
  exact List.perm_middle.trans (hrest.cons new)

theorem map_fst_insert {i : Nat} (hget : elements[i]? = some (low, high)) :
    (insert elements i low new high).map Prod.fst = elements.map Prod.fst ++ [new] := by
  obtain ⟨hi, hget⟩ := List.getElem?_eq_some_iff.mp hget
  have hi' : i < (elements.map Prod.fst).length := by rwa [List.length_map]
  have hvalue : (elements.map Prod.fst)[i] = low := by rw [List.getElem_map, hget]
  have hsame : (elements.map Prod.fst).set i low = elements.map Prod.fst := by
    rw [← hvalue, List.set_getElem_self]
  rw [insert, List.map_append, List.map_set, hsame]
  rfl

theorem getElem?_insert_eq_some {i j : Nat} {pair : α × α} (hi : i < elements.length) :
    (insert elements i low new high)[j]? = some pair ↔
      (j = i ∧ pair = (low, new)) ∨ (j = elements.length ∧ pair = (new, high)) ∨
        (j ≠ i ∧ elements[j]? = some pair) := by
  rw [insert, List.getElem?_append, List.length_set]
  split
  case isTrue hlt =>
    by_cases heq : j = i
    · subst heq
      rw [List.getElem?_set_self hi]
      simp [hi.ne, eq_comm]
    · rw [List.getElem?_set_ne (Ne.symm heq)]
      simp [heq, hlt.ne]
  case isFalse hge =>
    have hnone : elements[j]? = none := List.getElem?_eq_none (not_lt.mp hge)
    have hne : j ≠ i := by omega
    rw [hnone, List.getElem?_singleton]
    have hiff : j - elements.length = 0 ↔ j = elements.length := by omega
    simp [hne, hiff, eq_comm]

theorem exists_getElem?_insert {i j : Nat} {value next : α} (hget : elements[i]? = some (low, high))
    (h : elements[j]? = some (value, next)) : ∃ next', (insert elements i low new high)[j]? = some (value, next') := by
  have hi := (List.getElem?_eq_some_iff.mp hget).1
  by_cases heq : j = i
  · subst heq
    obtain ⟨rfl, -⟩ := Prod.mk.inj (Option.some.inj (hget.symm.trans h))
    exact ⟨new, (getElem?_insert_eq_some hi).mpr (.inl ⟨rfl, rfl⟩)⟩
  · exact ⟨next, (getElem?_insert_eq_some hi).mpr (.inr (.inr ⟨heq, h⟩))⟩

namespace Indexes

variable (h : Indexes rank bottom top chain elements)

include h

theorem eq_dropLast_append : chain = chain.dropLast ++ [top] :=
  (List.dropLast_append_getLast? top h.last).symm

theorem le_top {x : α} (hmem : x ∈ chain) : rank x ≤ rank top := by
  have hsorted := h.sorted
  rw [h.eq_dropLast_append] at hsorted hmem
  obtain hmem | hmem := List.mem_append.mp hmem
  · exact ((List.pairwise_append.mp hsorted).2.2 x hmem top (List.mem_singleton_self top)).le
  · exact (congrArg rank (List.mem_singleton.mp hmem)).le

theorem bottom_le_top : rank bottom ≤ rank top := h.le_top (List.mem_of_head? h.head)

theorem mem_links (hmem : (low, high) ∈ elements) (hlt : rank low < rank high) : (low, high) ∈ links chain := by
  obtain ⟨closing, hclosing, hperm⟩ := h.perm
  obtain hmem | hmem := List.mem_append.mp (hperm.mem_iff.mp hmem)
  · exact hmem
  · obtain rfl | rfl := hclosing
    · cases hmem
    · obtain ⟨rfl, rfl⟩ := Prod.mk.inj (List.mem_singleton.mp hmem)
      exact absurd h.bottom_le_top (not_le.mpr hlt)

theorem mem_of_mem_links (hmem : (low, high) ∈ links chain) : (low, high) ∈ elements := by
  obtain ⟨closing, -, hperm⟩ := h.perm
  exact hperm.mem_iff.mpr (List.mem_append_left closing hmem)

theorem map_fst_perm : (elements.map Prod.fst).Perm chain.dropLast ∨ (elements.map Prod.fst).Perm chain := by
  obtain ⟨closing, hclosing, hperm⟩ := h.perm
  have hmap := hperm.map Prod.fst
  rw [List.map_append, map_fst_links] at hmap
  obtain rfl | rfl := hclosing
  · exact .inl (by simpa using hmap)
  · refine .inr ?_
    rwa [List.map_singleton, ← h.eq_dropLast_append] at hmap

theorem nodup_chain : chain.Nodup := h.sorted.imp fun hlt heq => absurd (congrArg rank heq) hlt.ne

theorem nodup_map_fst : (elements.map Prod.fst).Nodup := by
  obtain hperm | hperm := h.map_fst_perm
  · exact hperm.nodup_iff.mpr (h.nodup_chain.sublist (List.dropLast_sublist chain))
  · exact hperm.nodup_iff.mpr h.nodup_chain

theorem mem_chain_iff {x : α} : x ∈ chain ↔ x ∈ elements.map Prod.fst ∨ x = top := by
  have hsplit : x ∈ chain ↔ x ∈ chain.dropLast ∨ x = top := by
    conv_lhs => rw [h.eq_dropLast_append, List.mem_append, List.mem_singleton]
  obtain hperm | hperm := h.map_fst_perm
  · rw [hsplit, hperm.mem_iff]
  · rw [hperm.mem_iff, iff_self_or]
    rintro rfl
    exact List.mem_of_getLast? h.last

theorem not_mem_chain (hmem : (low, high) ∈ elements) (hlow : rank low < rank new)
    (hhigh : rank new < rank high) : new ∉ chain := by
  obtain ⟨left, right, rfl⟩ := mem_links_iff.mp (h.mem_links hmem (hlow.trans hhigh))
  exact not_mem_of_between h.sorted hlow hhigh

theorem lt_top (hmem : (low, high) ∈ elements) (hlow : rank low < rank new) (hhigh : rank new < rank high) :
    rank new < rank top := by
  obtain ⟨left, right, rfl⟩ := mem_links_iff.mp (h.mem_links hmem (hlow.trans hhigh))
  exact hhigh.trans_le (h.le_top (by simp))

theorem insert {i : Nat} (hget : elements[i]? = some (low, high)) (hlow : rank low < rank new)
    (hhigh : rank new < rank high) :
    ∃ chain', Indexes rank bottom top chain' (insert elements i low new high) := by
  have hmem : (low, high) ∈ elements := List.mem_of_getElem? hget
  obtain ⟨left, right, rfl⟩ := mem_links_iff.mp (h.mem_links hmem (hlow.trans hhigh))
  obtain ⟨closing, hclosing, hperm⟩ := h.perm
  refine ⟨left ++ low :: new :: high :: right, sorted_insert h.sorted hlow hhigh, ?_, ?_,
    closing, hclosing, ?_⟩
  · rw [← h.head]
    cases left <;> rfl
  · rw [← h.last]
    simp
  · rw [links_append, List.append_assoc, links_cons_cons, List.cons_append] at hperm
    have hset := perm_set hget (hperm.trans List.perm_middle) (low, new)
    rw [links_append, links_cons_cons, links_cons_cons, List.append_assoc]
    refine (hset.append_right [(new, high)]).trans ?_
    refine List.Perm.trans ?_ List.perm_middle.symm
    refine List.Perm.cons (low, new) (List.perm_append_singleton (new, high) _ |>.trans ?_)
    exact List.perm_middle.symm

end Indexes

end IndexedList
