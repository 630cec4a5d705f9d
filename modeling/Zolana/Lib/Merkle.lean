import Mathlib.Data.List.GetD
import Mathlib.Tactic

/-!
# Appending to a perfect binary tree

A perfect tree of a fixed height over a list of leaves, padded on the right, and what is remembered of it
to append one more leaf: at each level where the number of leaves has its bit set, the node that was
completed last. `Stored` says that. The new leaf climbs to the root through `nodeAt_left` and
`nodeAt_right`, and `Climbed` says what the climb writes on its way.
-/

namespace Merkle

variable {α : Type} (node : α → α → α) {height : Nat}

/-- The node at a level, counted from the leaves, and a position within the level. -/
def nodeAt (leaf : Nat → α) : Nat → Nat → α
  | 0, i => leaf i
  | level + 1, i => node (nodeAt leaf level (2 * i)) (nodeAt leaf level (2 * i + 1))

def padded (pad : α) (leaves : List α) (i : Nat) : α := leaves.getD i pad

/-- The root of the perfect tree of a height over the padded leaves. -/
def root (pad : α) (height : Nat) (leaves : List α) : α :=
  nodeAt node (padded pad leaves) height 0

/-- The roots of the trees that hold padding only, up to a height. -/
structure EmptyRoots (pad : α) (empty : Nat → α) (height : Nat) : Prop where
  zero : empty 0 = pad
  succ : ∀ level, level < height → node (empty level) (empty level) = empty (level + 1)

/-- What an append needs of the tree: the last node completed at each level whose bit is set in the
number of leaves. -/
def Stored (pad : α) (subtrees : Vector α height) (leaves : List α) : Prop :=
  ∀ level, level < height → leaves.length / 2 ^ level % 2 = 1 →
    subtrees[level]? = some (nodeAt node (padded pad leaves) level (leaves.length / 2 ^ level - 1))

variable {pad : α} {leaves : List α} {i level n : Nat} {leaf empty : Nat → α}
  {subtrees : Vector α height}

theorem padded_of_le (h : leaves.length ≤ i) : padded pad leaves i = pad :=
  List.getD_eq_default leaves pad h

theorem padded_append (h : i < leaves.length) (x : α) : padded pad (leaves ++ [x]) i = padded pad leaves i :=
  List.getD_append leaves [x] pad i h

theorem padded_snoc_length (pad : α) (leaves : List α) (x : α) :
    padded pad (leaves ++ [x]) leaves.length = x := by
  rw [padded, List.getD_append_right _ _ _ _ le_rfl, Nat.sub_self, List.getD_cons_zero]

variable {node}

theorem nodeAt_congr {leaf' : Nat → α}
    (h : ∀ k, i * 2 ^ level ≤ k → k < (i + 1) * 2 ^ level → leaf k = leaf' k) :
    nodeAt node leaf level i = nodeAt node leaf' level i := by
  induction level generalizing i with
  | zero => exact h i (by simp) (by simp)
  | succ level ih =>
      have hpow : 2 ^ (level + 1) = 2 * 2 ^ level := pow_succ' 2 level
      have hleft : nodeAt node leaf level (2 * i) = nodeAt node leaf' level (2 * i) := by
        apply ih
        intro k hlow hhigh
        apply h k
        · rw [hpow]
          linarith
        · rw [hpow]
          nlinarith [Nat.two_pow_pos level]
      have hright : nodeAt node leaf level (2 * i + 1) = nodeAt node leaf' level (2 * i + 1) := by
        apply ih
        intro k hlow hhigh
        apply h k
        · rw [hpow]
          nlinarith [Nat.two_pow_pos level]
        · rw [hpow]
          linarith
      rw [nodeAt, nodeAt, hleft, hright]

theorem nodeAt_of_forall (P : α → Prop) (hleaf : ∀ i, P (leaf i))
    (hnode : ∀ a b, P a → P b → P (node a b)) (level i : Nat) : P (nodeAt node leaf level i) := by
  induction level generalizing i with
  | zero => exact hleaf i
  | succ level ih => exact hnode _ _ (ih (2 * i)) (ih (2 * i + 1))

theorem EmptyRoots.nodeAt_eq (h : EmptyRoots node pad empty height) (hlevel : level ≤ height)
    (hpad : ∀ k, i * 2 ^ level ≤ k → leaf k = pad) : nodeAt node leaf level i = empty level := by
  induction level generalizing i with
  | zero => rw [h.zero, nodeAt, hpad i (by simp)]
  | succ level ih =>
      have hpow : 2 ^ (level + 1) = 2 * 2 ^ level := pow_succ' 2 level
      have hchild : ∀ j, 2 * i ≤ j → nodeAt node leaf level j = empty level := by
        intro j hj
        apply ih (by omega)
        intro k hk
        apply hpad k
        rw [hpow]
        nlinarith [Nat.mul_le_mul_right (2 ^ level) hj]
      rw [nodeAt, hchild _ le_rfl, hchild _ (by omega), h.succ level (by omega)]

/-! ### The path of the next leaf

The leaf at position `n` is below the node at position `n / 2 ^ level` of each level. -/

theorem div_two_pow_succ (n level : Nat) : n / 2 ^ (level + 1) = n / 2 ^ level / 2 := by
  rw [pow_succ, Nat.div_div_eq_div_mul]

theorem sub_add_cancel_of_odd {m : Nat} (hodd : m % 2 = 1) : m - 1 + 1 = m := by omega

/-- An even position: the right sibling holds padding only. -/
theorem EmptyRoots.nodeAt_left (h : EmptyRoots node pad empty height) (hn : leaves.length = n + 1)
    (hlevel : level < height) (heven : n / 2 ^ level % 2 = 0) :
    nodeAt node (padded pad leaves) (level + 1) (n / 2 ^ (level + 1)) =
      node (nodeAt node (padded pad leaves) level (n / 2 ^ level)) (empty level) := by
  have hindex : 2 * (n / 2 ^ (level + 1)) = n / 2 ^ level := by
    rw [div_two_pow_succ]
    omega
  have hsibling : nodeAt node (padded pad leaves) level (n / 2 ^ level + 1) = empty level := by
    apply h.nodeAt_eq hlevel.le
    intro k hk
    have hlt : n < (n / 2 ^ level + 1) * 2 ^ level := by
      rw [mul_comm]
      exact Nat.lt_mul_div_succ n (Nat.two_pow_pos level)
    exact padded_of_le (by omega)
  rw [nodeAt, hindex, hsibling]

theorem nodeAt_right (hodd : n / 2 ^ level % 2 = 1) : nodeAt node leaf (level + 1) (n / 2 ^ (level + 1)) =
      node (nodeAt node leaf level (n / 2 ^ level - 1)) (nodeAt node leaf level (n / 2 ^ level)) := by
  have hleft : 2 * (n / 2 ^ (level + 1)) = n / 2 ^ level - 1 := by
    rw [div_two_pow_succ]
    omega
  rw [nodeAt, hleft, sub_add_cancel_of_odd hodd]

theorem nodeAt_snoc (x : α) (h : (i + 1) * 2 ^ level ≤ leaves.length) :
    nodeAt node (padded pad (leaves ++ [x])) level i = nodeAt node (padded pad leaves) level i := by
  apply nodeAt_congr
  intro k _ hhigh
  exact padded_append (by omega) x

theorem Stored.nodeAt_snoc (h : Stored node pad subtrees leaves) (x : α) (hlevel : level < height)
    (hodd : leaves.length / 2 ^ level % 2 = 1) : subtrees[level]? =
      some (nodeAt node (padded pad (leaves ++ [x])) level (leaves.length / 2 ^ level - 1)) := by
  rw [h level hlevel hodd, Merkle.nodeAt_snoc x]
  rw [sub_add_cancel_of_odd hodd]
  exact Nat.div_mul_le_self _ _

/-- Counting one more leaf turns on the bit of a level only if the bits below were all set. -/
theorem bit_cases (hodd : (n + 1) / 2 ^ level % 2 = 1) :
    (n / 2 ^ level % 2 = 1 ∧ (n + 1) / 2 ^ level = n / 2 ^ level) ∨
      (n / 2 ^ level % 2 = 0 ∧ (n + 1) / 2 ^ level = n / 2 ^ level + 1 ∧
        ∀ k, k < level → n / 2 ^ k % 2 = 1) := by
  rw [Nat.succ_div] at hodd ⊢
  by_cases hdvd : 2 ^ level ∣ n + 1
  · rw [if_pos hdvd] at hodd ⊢
    refine .inr ⟨by omega, rfl, ?_⟩
    intro k hk
    have hstep : (n + 1) / 2 ^ k = n / 2 ^ k + 1 := by
      rw [Nat.succ_div, if_pos ((pow_dvd_pow 2 hk.le).trans hdvd)]
    have heven : 2 ∣ (n + 1) / 2 ^ k := by
      apply Nat.dvd_div_of_mul_dvd
      rw [← pow_succ]
      exact (pow_dvd_pow 2 hk).trans hdvd
    omega
  · rw [if_neg hdvd] at hodd ⊢
    exact .inl ⟨hodd, rfl⟩

/-- What the climb of the leaf at position `n` does to the stored nodes from a level up: the levels with
their bit set stay, and the node on the path is written at the first level with its bit clear. A `whole`
climb, one that goes on to the root, writes it at every level with its bit clear. -/
structure Climbed (node : α → α → α) (leaf : Nat → α) (n : Nat) (whole : Bool) (level : Nat)
    (before after : Vector α height) : Prop where
  kept : ∀ l, l < level ∨ n / 2 ^ l % 2 = 1 → after[l]? = before[l]?
  written : ∀ l, level ≤ l → l < height → n / 2 ^ l % 2 = 0 →
    (whole = true ∨ ∀ k, level ≤ k → k < l → n / 2 ^ k % 2 = 1) →
    after[l]? = some (nodeAt node leaf l (n / 2 ^ l))

section Climb

variable {leaf : Nat → α} {n level : Nat} {whole : Bool} {before after : Vector α height}

theorem Climbed.top : Climbed node leaf n whole height before before := by
  constructor
  · intro l _
    rfl
  · intro l hle hlt
    omega

theorem Climbed.stop (hlevel : level < height) (heven : n / 2 ^ level % 2 = 0) :
    Climbed node leaf n false level before
      (before.setIfInBounds level (nodeAt node leaf level (n / 2 ^ level))) := by
  constructor
  · intro l hl
    have hne : level ≠ l := by
      rintro rfl
      omega
    exact Vector.getElem?_setIfInBounds_ne hne
  · intro l hle hlt _ hbelow
    have heq : level = l := by
      by_contra hne
      have := hbelow.resolve_left (by simp) level le_rfl (by omega)
      omega
    subst heq
    exact Vector.getElem?_setIfInBounds_self_of_lt hlevel

theorem Climbed.left (hlevel : level < height) (heven : n / 2 ^ level % 2 = 0)
    (h : Climbed node leaf n true (level + 1)
      (before.setIfInBounds level (nodeAt node leaf level (n / 2 ^ level))) after) :
    Climbed node leaf n true level before after := by
  constructor
  · intro l hl
    have hne : level ≠ l := by
      rintro rfl
      omega
    rw [h.kept l (hl.imp_left Nat.lt_succ_of_lt), Vector.getElem?_setIfInBounds_ne hne]
  · intro l hle hlt hclear _
    by_cases heq : level = l
    · subst heq
      rw [h.kept level (.inl level.lt_succ_self), Vector.getElem?_setIfInBounds_self_of_lt hlevel]
    · exact h.written l (by omega) hlt hclear (.inl rfl)

theorem Climbed.right (hodd : n / 2 ^ level % 2 = 1) (h : Climbed node leaf n whole (level + 1) before after) :
    Climbed node leaf n whole level before after := by
  constructor
  · intro l hl
    exact h.kept l (hl.imp_left Nat.lt_succ_of_lt)
  · intro l hle hlt hclear hbelow
    have hne : level ≠ l := by
      rintro rfl
      omega
    refine h.written l (by omega) hlt hclear (hbelow.imp_right ?_)
    intro hset k hk
    exact hset k (by omega)

end Climb

theorem Stored.snoc {subtrees' : Vector α height} {x : α} {whole : Bool} (h : Stored node pad subtrees leaves)
    (hclimb : Climbed node (padded pad (leaves ++ [x])) leaves.length whole 0 subtrees subtrees') :
    Stored node pad subtrees' (leaves ++ [x]) := by
  intro level hlevel hodd
  rw [List.length_append, List.length_singleton] at hodd ⊢
  obtain ⟨hset, hsame⟩ | ⟨hclear, hnext, hbelow⟩ := bit_cases hodd
  · rw [hclimb.kept level (.inr hset), h.nodeAt_snoc x hlevel hset, hsame]
  · rw [hclimb.written level level.zero_le hlevel hclear (.inr fun k _ hk => hbelow k hk), hnext,
      Nat.add_sub_cancel]

theorem Stored.nil (subtrees : Vector α height) : Stored node pad subtrees [] := by
  intro level _ hodd
  simp at hodd

theorem EmptyRoots.root_nil (h : EmptyRoots node pad empty height) :
    root node pad height [] = empty height := by
  apply h.nodeAt_eq le_rfl
  intro k _
  exact padded_of_le (Nat.zero_le k)

end Merkle
