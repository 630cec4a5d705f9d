import Mathlib.Logic.Function.Basic
import Zolana.Lib.Merkle

/-!
# Trees kept layer by layer

A perfect tree over padded leaves is kept as its layers, each cut behind the last node that has a leaf below it. The
layers are a function of the leaves, and one leaf that is written changes one node of each.
-/

namespace LayeredTree

open Merkle

variable {α : Type}

/-- The element overwritten, or added where the list ends. -/
def setOrPush (layer : List α) (i : Nat) (x : α) : List α :=
  if i < layer.length then layer.set i x else layer ++ [x]

/-- The number of nodes of a level that have one of `n` leaves below them. -/
def width (n level : Nat) : Nat := (n + (2 ^ level - 1)) / 2 ^ level

/-- The nodes of a level that have leaves below them. -/
def layerOf (node : α → α → α) (pad : α) (leaves : List α) (level : Nat) : List α :=
  (List.range (width leaves.length level)).map (nodeAt node (padded pad leaves) level)

/-- The layers below the root. -/
def layersOf (node : α → α → α) (pad : α) (height : Nat) (leaves : List α) : List (List α) :=
  (List.range height).map (layerOf node pad leaves)

/-- The layers on the way from some leaves to others: those below a level are new. -/
def layersBelow (node : α → α → α) (pad : α) (height : Nat) (leaves leaves' : List α) (done : Nat) : List (List α) :=
  (List.range height).map fun level => layerOf node pad (if level < done then leaves' else leaves) level

/-! ### Writing to a list -/

section SetOrPush

variable {leaves : List α} {i : Nat}

theorem setOrPush_of_lt (hi : i < leaves.length) (x : α) : setOrPush leaves i x = leaves.set i x := if_pos hi

theorem setOrPush_length (leaves : List α) (x : α) : setOrPush leaves leaves.length x = leaves ++ [x] :=
  if_neg (lt_irrefl _)

theorem length_setOrPush (hi : i ≤ leaves.length) (x : α) :
    (setOrPush leaves i x).length = max leaves.length (i + 1) := by
  unfold setOrPush
  split
  · rw [List.length_set]
    omega
  · rw [List.length_append, List.length_singleton]
    omega

theorem forall_mem_setOrPush {P : α → Prop} {x : α} (h : ∀ leaf ∈ leaves, P leaf) (hx : P x) (i : Nat) :
    ∀ leaf ∈ setOrPush leaves i x, P leaf := by
  intro leaf hmem
  unfold setOrPush at hmem
  split at hmem
  · exact (List.mem_or_eq_of_mem_set hmem).elim (h leaf) fun heq => heq ▸ hx
  · exact (List.mem_append.mp hmem).elim (h leaf) fun hlast => List.mem_singleton.mp hlast ▸ hx

theorem padded_setOrPush (hi : i ≤ leaves.length) (pad x : α) :
    padded pad (setOrPush leaves i x) = Function.update (padded pad leaves) i x := by
  funext k
  obtain hlt | rfl := hi.lt_or_eq
  · rw [setOrPush_of_lt hlt]
    by_cases hk : k = i
    · subst hk
      rw [Function.update_self, padded, List.getD_eq_getElem?_getD, List.getElem?_set_self hlt, Option.getD_some]
    · rw [Function.update_of_ne hk, padded, padded, List.getD_eq_getElem?_getD, List.getElem?_set_ne (Ne.symm hk),
        List.getD_eq_getElem?_getD]
  · rw [setOrPush_length]
    obtain hlt | rfl | hgt := lt_trichotomy k leaves.length
    · rw [Function.update_of_ne hlt.ne, padded_append hlt]
    · rw [Function.update_self, padded_snoc_length]
    · rw [Function.update_of_ne hgt.ne', padded_of_le hgt.le, padded_of_le]
      rw [List.length_append, List.length_singleton]
      exact hgt

end SetOrPush

/-! ### The layers -/

theorem lt_width_iff {n level j : Nat} : j < width n level ↔ j * 2 ^ level < n := by
  have hpos := Nat.two_pow_pos level
  rw [width, Nat.lt_iff_add_one_le, Nat.le_div_iff_mul_le hpos, Nat.add_mul, Nat.one_mul]
  omega

theorem width_max (n i level : Nat) : width (max n (i + 1)) level = max (width n level) (i / 2 ^ level + 1) := by
  refine eq_of_forall_lt_iff fun j => ?_
  rw [lt_max_iff, lt_width_iff, lt_width_iff, lt_max_iff, Nat.lt_add_one_iff, Nat.lt_add_one_iff,
    Nat.le_div_iff_mul_le (Nat.two_pow_pos level)]

theorem div_le_width {n i : Nat} (hi : i ≤ n) (level : Nat) : i / 2 ^ level ≤ width n level := by
  refine Nat.div_le_div_right ?_
  omega

variable {node : α → α → α} {pad : α} {leaves : List α} {i level : Nat}

@[simp]
theorem length_layerOf (level : Nat) : (layerOf node pad leaves level).length = width leaves.length level := by
  rw [layerOf, List.length_map, List.length_range]

theorem getElem?_layerOf {j : Nat} (hj : j < width leaves.length level) :
    (layerOf node pad leaves level)[j]? = some (nodeAt node (padded pad leaves) level j) := by
  rw [layerOf, List.getElem?_map, List.getElem?_range hj, Option.map_some]

theorem layerOf_zero : layerOf node pad leaves 0 = leaves := by
  refine List.ext_getElem? fun j => ?_
  have hwidth : width leaves.length 0 = leaves.length := by simp [width]
  by_cases hj : j < leaves.length
  · rw [getElem?_layerOf (hwidth.symm ▸ hj), nodeAt, padded, List.getD_eq_getElem _ _ hj, List.getElem?_eq_getElem hj]
  · rw [List.getElem?_eq_none (by rw [length_layerOf]; omega), List.getElem?_eq_none (by omega)]

theorem getD_layerOf {height : Nat} {empty : Nat → α} (hempty : EmptyRoots node pad empty height)
    (hlevel : level ≤ height) (j : Nat) :
    (layerOf node pad leaves level).getD j (empty level) = nodeAt node (padded pad leaves) level j := by
  by_cases hj : j < width leaves.length level
  · rw [List.getD_eq_getElem?_getD, getElem?_layerOf hj, Option.getD_some]
  · rw [List.getD_eq_default _ _ (by rw [length_layerOf]; omega), hempty.nodeAt_eq hlevel]
    intro k hk
    have hbehind := lt_width_iff.not.mp hj
    exact padded_of_le (by omega)

theorem nodeAt_setOrPush_of_ne (hi : i ≤ leaves.length) (x : α) {j : Nat} (hj : j ≠ i / 2 ^ level) :
    nodeAt node (padded pad (setOrPush leaves i x)) level j = nodeAt node (padded pad leaves) level j := by
  apply nodeAt_congr
  intro k hlow hhigh
  rw [padded_setOrPush hi, Function.update_of_ne]
  rintro rfl
  exact hj (Nat.div_eq_of_lt_le hlow hhigh).symm

theorem layerOf_setOrPush (hi : i ≤ leaves.length) (x : α) (level : Nat) :
    setOrPush (layerOf node pad leaves level) (i / 2 ^ level)
      (nodeAt node (padded pad (setOrPush leaves i x)) level (i / 2 ^ level)) =
      layerOf node pad (setOrPush leaves i x) level := by
  have hposition : i / 2 ^ level ≤ (layerOf node pad leaves level).length := by
    rw [length_layerOf]
    exact div_le_width hi level
  have hwidth : width (setOrPush leaves i x).length level =
      max (width leaves.length level) (i / 2 ^ level + 1) := by
    rw [length_setOrPush hi, width_max]
  refine List.ext_getElem ?_ ?_
  · rw [length_setOrPush hposition, length_layerOf, length_layerOf, hwidth]
  · intro j hj hj'
    have hgetD : ∀ {l : List α} (h : j < l.length), l[j] = padded pad l j := by
      intro l h
      rw [padded, List.getD_eq_getElem _ _ h]
    rw [length_layerOf] at hj'
    rw [hgetD, padded_setOrPush hposition, ← Option.some_inj, ← List.getElem?_eq_getElem, getElem?_layerOf hj',
      Option.some_inj]
    by_cases hpath : j = i / 2 ^ level
    · rw [hpath, Function.update_self]
    · have hlt : j < width leaves.length level := by
        have hle := div_le_width hi level
        rw [hwidth, lt_max_iff] at hj'
        omega
      rw [Function.update_of_ne hpath, padded, List.getD_eq_getElem?_getD, getElem?_layerOf hlt, Option.getD_some,
        nodeAt_setOrPush_of_ne hi x hpath]

/-! ### All layers -/

variable {height done : Nat} {leaves' : List α}

theorem getElem?_layersBelow (hlevel : level < height) :
    (layersBelow node pad height leaves leaves' done)[level]? =
      some (layerOf node pad (if level < done then leaves' else leaves) level) := by
  rw [layersBelow, List.getElem?_map, List.getElem?_range hlevel, Option.map_some]

theorem getElem?_layersOf (hlevel : level < height) :
    (layersOf node pad height leaves)[level]? = some (layerOf node pad leaves level) := by
  rw [layersOf, List.getElem?_map, List.getElem?_range hlevel, Option.map_some]

theorem layersBelow_zero : layersBelow node pad height leaves leaves' 0 = layersOf node pad height leaves := rfl

theorem layersBelow_height : layersBelow node pad height leaves leaves' height = layersOf node pad height leaves' := by
  refine List.map_congr_left fun level hmem => ?_
  rw [if_pos (List.mem_range.mp hmem)]

theorem set_layersBelow (done : Nat) :
    (layersBelow node pad height leaves leaves' done).set done (layerOf node pad leaves' done) =
      layersBelow node pad height leaves leaves' (done + 1) := by
  refine List.ext_getElem (by simp [layersBelow]) ?_
  intro level hlevel _
  rw [List.getElem_set]
  by_cases heq : done = level
  · subst heq
    simp [layersBelow]
  · rw [if_neg heq]
    have hiff : level < done + 1 ↔ level < done := by omega
    simp only [layersBelow, List.getElem_map, List.getElem_range, hiff]

end LayeredTree
