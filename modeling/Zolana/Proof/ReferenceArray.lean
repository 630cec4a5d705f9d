import Zolana.Forester.IndexedArray
import Zolana.Lib.IndexedList
import Zolana.Lib.Results

/-!
# The elements of the reference tree

The array is read as the pairs of a value and the next one, in the order of the indexes. An append finds the pair that a
new value falls into and cuts it in two.
-/

namespace Zolana.Forester

open Fallible

namespace IndexedArray

/-- The pairs of an array. A pair points to the value of another one, or past the last. -/
structure Linked (array : IndexedArray) (pairs : List (Nat × Nat)) : Prop where
  length : array.elements.length = pairs.length
  current : array.currentNodeIndex + 1 = pairs.length
  element : ∀ {j value next : Nat}, pairs[j]? = some (value, next) → ∃ nextIndex,
    array.elements[j]? = some ⟨j, value, nextIndex⟩ ∧
      ((nextIndex = 0 ∧ next = array.highestValue) ∨
        (nextIndex ≠ 0 ∧ value < next ∧ ∃ next', pairs[nextIndex]? = some (next, next')))
  key : ∀ {value j : Nat}, (value, j) ∈ array.byValue ↔ ∃ next, pairs[j]? = some (value, next)
  first : ∃ next, pairs[0]? = some (0, next)

structure Finds (array : IndexedArray) (pairs : List (Nat × Nat)) (value : Nat) (low : IndexedElement)
    (next : Nat) : Prop where
  index : array.findLowElementIndexForNonexistent value = .ok low.index
  element : array.elements[low.index]? = some low
  pair : pairs[low.index]? = some (low.value, next)
  nextValue : array.nextValue low = .ok next
  lt : low.value < value
  link : (low.nextIndex = 0 ∧ next = array.highestValue) ∨
    (low.nextIndex ≠ 0 ∧ value < next ∧ ∃ next', pairs[low.nextIndex]? = some (next, next'))

variable {array : IndexedArray} {pairs : List (Nat × Nat)} {value next : Nat} {low : IndexedElement}

theorem element_of_getElem? {index : Nat} {element : IndexedElement} (h : array.elements[index]? = some element) :
    array.element index = .ok element := by
  rw [IndexedArray.element, h]

theorem nextValue_of_zero {element : IndexedElement} (h : element.nextIndex = 0) :
    array.nextValue element = .ok array.highestValue := if_pos h

theorem nextValue_of_ne {element found : IndexedElement} (h : element.nextIndex ≠ 0)
    (hfound : array.elements[element.nextIndex]? = some found) (hvalue : found.value = value) :
    array.nextValue element = .ok value := by
  rw [nextValue, if_neg h, element_of_getElem? hfound, ← hvalue]
  rfl

theorem linked_new (next : Nat) : (IndexedArray.new 0 next).Linked [(0, next)] := by
  constructor
  case length => rfl
  case current => rfl
  case first => exact ⟨next, rfl⟩
  case key =>
    intro value j
    rw [List.getElem?_singleton]
    by_cases hj : j = 0
    · simp [IndexedArray.new, hj, eq_comm]
    · simp [IndexedArray.new, hj]
  case element =>
    intro j value next' hget
    rw [List.getElem?_singleton] at hget
    split at hget
    case isTrue hj =>
      subst hj
      obtain ⟨rfl, rfl⟩ := Prod.mk.inj (Option.some.inj hget)
      exact ⟨0, rfl, .inl ⟨rfl, rfl⟩⟩
    case isFalse => cases hget

namespace Linked

variable (h : array.Linked pairs)

include h

theorem mem_byValue_iff : (∃ j, (value, j) ∈ array.byValue) ↔ value ∈ pairs.map Prod.fst := by
  simp only [h.key, List.mem_map]
  constructor
  · rintro ⟨j, next, hget⟩
    exact ⟨(value, next), List.mem_of_getElem? hget, rfl⟩
  · rintro ⟨⟨found, next⟩, hmem, rfl⟩
    obtain ⟨j, hget⟩ := List.mem_iff_getElem?.mp hmem
    exact ⟨j, next, hget⟩

theorem any_byValue : array.byValue.any (fun entry => entry.1 = value) = true ↔ value ∈ pairs.map Prod.fst := by
  rw [← h.mem_byValue_iff, List.any_eq_true]
  constructor
  · rintro ⟨⟨found, j⟩, hmem, heq⟩
    obtain rfl : found = value := of_decide_eq_true heq
    exact ⟨j, hmem⟩
  · rintro ⟨j, hmem⟩
    exact ⟨(value, j), hmem, decide_eq_true rfl⟩

theorem exists_finds (hvalue : value ∉ pairs.map Prod.fst) (hpos : 0 < value) :
    ∃ low next, array.Finds pairs value low next := by
  obtain ⟨next₀, hfirst⟩ := h.first
  have hentry : ((0 : Nat), (0 : Nat)) ∈ array.byValue.filter fun entry => entry.1 < value := by
    rw [List.mem_filter, h.key]
    exact ⟨⟨next₀, hfirst⟩, decide_eq_true hpos⟩
  obtain ⟨⟨lowValue, j⟩, hmax⟩ := Option.ne_none_iff_exists'.mp
    (List.argmax_eq_none.not.mpr (List.ne_nil_of_mem hentry) : List.argmax Prod.fst _ ≠ none)
  obtain ⟨hkey, hlt⟩ := List.mem_filter.mp (List.argmax_mem hmax)
  obtain ⟨next, hpair⟩ := h.key.mp hkey
  obtain ⟨nextIndex, helement, hlink⟩ := h.element hpair
  have hgreatest : ∀ (other : Nat × Nat) (j' : Nat), pairs[j']? = some other → other.1 < value → other.1 ≤ lowValue := by
    intro other j' hget hother
    have hmem : (other.1, j') ∈ array.byValue.filter fun entry => entry.1 < value :=
      List.mem_filter.mpr ⟨h.key.mpr ⟨other.2, hget⟩, decide_eq_true hother⟩
    exact List.le_of_mem_argmax hmem hmax
  refine ⟨⟨j, lowValue, nextIndex⟩, next, ?_, helement, hpair, ?_, of_decide_eq_true hlt, ?_⟩
  · rw [findLowElementIndexForNonexistent, if_neg (h.any_byValue.not.mpr hvalue), hmax]
    rfl
  · obtain ⟨hzero, rfl⟩ | ⟨hne, -, next', hnext⟩ := hlink
    · exact nextValue_of_zero hzero
    · obtain ⟨nextIndex', hfound, -⟩ := h.element hnext
      exact nextValue_of_ne hne hfound rfl
  · refine hlink.imp_right fun ⟨hne, hless, next', hnext⟩ => ⟨hne, ?_, next', hnext⟩
    -- the next value is a key, so that it is not between the two
    by_contra hle
    have hbelow : next < value := by
      refine lt_of_le_of_ne (not_lt.mp hle) ?_
      rintro rfl
      exact hvalue (List.mem_map.mpr ⟨_, List.mem_of_getElem? hnext, rfl⟩)
    exact absurd (hgreatest _ _ hnext hbelow) (not_le.mpr hless)

end Linked

/-- What an append returns, and the array behind it. -/
def bundleOf (array : IndexedArray) (value next : Nat) (low : IndexedElement) : IndexedElementBundle :=
  ⟨{ low with nextIndex := array.currentNodeIndex + 1 }, ⟨array.currentNodeIndex + 1, value, low.nextIndex⟩, next⟩

theorem Finds.run_append (h : array.Linked pairs) (hfinds : array.Finds pairs value low next)
    (hfit : pairs.length < 2 ^ 64) : (append value).run array = .ok (array.bundleOf value next low)
      (array.insertBundle low.index low (array.bundleOf value next low)) := by
  have hcheck : array.checkRange low value = .ok () := by
    rw [checkRange, if_neg (not_le.mpr hfinds.lt)]
    obtain ⟨hzero, -⟩ | ⟨hne, hlt, next', hnext⟩ := hfinds.link
    · rw [if_pos hzero]
    · obtain ⟨nextIndex, hfound, -⟩ := h.element hnext
      rw [if_neg hne, bind_of_eq_ok (element_of_getElem? hfound), if_neg (not_le.mpr hlt)]
  have hbundle : array.newElementWithLowElementIndex low.index value = .ok (array.bundleOf value next low) := by
    have hnext : array.nextValue ⟨array.currentNodeIndex + 1, value, low.nextIndex⟩ = .ok next := hfinds.nextValue
    have hcurrent := h.current
    rw [newElementWithLowElementIndex, bind_of_eq_ok (element_of_getElem? hfinds.element),
      checkedAdd_of_lt (by omega)]
    dsimp only
    rw [bind_of_eq_ok hnext]
    rfl
  rw [append]
  simp only [EStateM.run_bind, EStateM.run_get, hfinds.index, mapErr_ok, EStateM.run_pure]
  rw [appendWithLowElementIndex]
  simp only [EStateM.run_bind, EStateM.run_get, element_of_getElem? hfinds.element, hcheck, hbundle, mapErr_ok,
    EStateM.run_pure, EStateM.run_set]

theorem Finds.index_lt (hfinds : array.Finds pairs value low next) : low.index < pairs.length :=
  (List.getElem?_eq_some_iff.mp hfinds.pair).1

section Insert

variable (h : array.Linked pairs) (hfinds : array.Finds pairs value low next)

include h hfinds

theorem Finds.elements_insertBundle :
    (array.insertBundle low.index low (array.bundleOf value next low)).elements =
      array.elements.set low.index { low with nextIndex := pairs.length } ++
        [⟨pairs.length, value, low.nextIndex⟩] := by
  have hlt := hfinds.index_lt
  rw [← h.length] at hlt
  rw [insertBundle, bundleOf, h.current, List.set_append_left _ _ hlt]

theorem Finds.byValue_insertBundle (hvalue : value ∉ pairs.map Prod.fst) :
    (array.insertBundle low.index low (array.bundleOf value next low)).byValue =
      array.byValue ++ [(value, pairs.length)] := by
  have hkept : array.byValue.filter (fun entry => entry.1 ≠ value) = array.byValue := by
    refine List.filter_eq_self.mpr fun entry hmem => decide_eq_true ?_
    rintro rfl
    exact hvalue (h.mem_byValue_iff.mp ⟨entry.2, hmem⟩)
  rw [insertBundle, bundleOf, h.current, hkept]

theorem Finds.linked_insert (hvalue : value ∉ pairs.map Prod.fst) :
    (array.insertBundle low.index low (array.bundleOf value next low)).Linked
      (IndexedList.insert pairs low.index low.value value next) := by
  have hlt := hfinds.index_lt
  have helements := hfinds.elements_insertBundle h
  constructor
  case length =>
    rw [helements, IndexedList.length_insert, List.length_append, List.length_set, h.length, List.length_singleton]
  case current =>
    rw [IndexedList.length_insert, ← h.current]
    rfl
  case first =>
    obtain ⟨next₀, hfirst⟩ := h.first
    exact IndexedList.exists_getElem?_insert hfinds.pair hfirst
  case key =>
    intro value' j
    rw [hfinds.byValue_insertBundle h hvalue, List.mem_append, List.mem_singleton, h.key, Prod.mk.injEq]
    constructor
    · rintro (⟨next', hget⟩ | ⟨rfl, rfl⟩)
      · exact IndexedList.exists_getElem?_insert hfinds.pair hget
      · exact ⟨next, (IndexedList.getElem?_insert_eq_some hlt).mpr (.inr (.inl ⟨rfl, rfl⟩))⟩
    · rintro ⟨next', hget⟩
      obtain ⟨rfl, heq⟩ | ⟨rfl, heq⟩ | ⟨-, hget⟩ := (IndexedList.getElem?_insert_eq_some hlt).mp hget
      · obtain ⟨rfl, -⟩ := Prod.mk.inj heq
        exact .inl ⟨next, hfinds.pair⟩
      · exact .inr ⟨(Prod.mk.inj heq).1, rfl⟩
      · exact .inl ⟨next', hget⟩
  case element =>
    intro j value' next' hget
    rw [helements]
    -- the low element, the new one, and one that stays
    obtain ⟨rfl, heq⟩ | ⟨rfl, heq⟩ | ⟨hne, hget⟩ := (IndexedList.getElem?_insert_eq_some hlt).mp hget
    · obtain ⟨rfl, rfl⟩ := Prod.mk.inj heq
      refine ⟨pairs.length, ?_, .inr ⟨by omega, hfinds.lt, next, ?_⟩⟩
      · rw [List.getElem?_append_left (by rwa [List.length_set, h.length]),
          List.getElem?_set_self (by rwa [h.length])]
      · exact (IndexedList.getElem?_insert_eq_some hlt).mpr (.inr (.inl ⟨rfl, rfl⟩))
    · obtain ⟨rfl, rfl⟩ := Prod.mk.inj heq
      refine ⟨low.nextIndex, ?_, ?_⟩
      · rw [List.getElem?_append_right (by rw [List.length_set, h.length]), List.length_set, h.length, Nat.sub_self]
        rfl
      · refine hfinds.link.imp_right fun ⟨hne, hless, next'', hnext⟩ => ⟨hne, hless, ?_⟩
        exact IndexedList.exists_getElem?_insert hfinds.pair hnext
    · obtain ⟨nextIndex, helement, hlink⟩ := h.element hget
      have hj := (List.getElem?_eq_some_iff.mp helement).1
      refine ⟨nextIndex, ?_, ?_⟩
      · rw [List.getElem?_append_left (by rwa [List.length_set]), List.getElem?_set_ne (Ne.symm hne), helement]
      · refine hlink.imp_right fun ⟨hne, hless, next'', hnext⟩ => ⟨hne, hless, ?_⟩
        exact IndexedList.exists_getElem?_insert hfinds.pair hnext

end Insert

end IndexedArray

end Zolana.Forester
