import Mathlib.Logic.Function.Basic
import Mathlib.Tactic

/-!
# Paths in a perfect binary tree

The hash of a pair is a function that need not answer every pair. `IsPath` says that a list holds the
siblings met on the way up from a position. Along such a list any value climbs to the root of the tree with
that value in its place, and when the hash has no collisions nothing else climbs to the root of the tree.
-/

namespace MerklePath

variable {α : Type} (node : α → α → Option α)

/-- The node at a level, counted from the leaves, and a position within the level. -/
def nodeAt (leaf : Nat → α) : (level i : Nat) → Option α
  | 0, i => some (leaf i)
  | level + 1, i => do
    let left ← nodeAt leaf level (2 * i)
    let right ← nodeAt leaf level (2 * i + 1)
    node left right

/-- The other child of the position above. -/
def sibling (i : Nat) : Nat := if i % 2 = 1 then i - 1 else i + 1

/-- The node above a value at a position, given its sibling. -/
def parent (x : α) (i : Nat) (other : α) : Option α := if i % 2 = 1 then node other x else node x other

/-- Up the path from a value at a position. -/
def climb (x : α) (i : Nat) : (path : List α) → Option α
  | [] => some x
  | other :: path => do
    let above ← parent node x i other
    climb above (i / 2) path

/-- The siblings on the way up from a position. -/
def IsPath (leaf : Nat → α) : (level i : Nat) → (path : List α) → Prop
  | _, _, [] => True
  | level, i, other :: path =>
    nodeAt node leaf level (sibling i) = some other ∧ IsPath leaf (level + 1) (i / 2) path

/-- No two pairs with one hash. -/
def CollisionFree : Prop :=
  ∀ a b a' b' hash, node a b = some hash → node a' b' = some hash → a = a' ∧ b = b'

variable {node} {leaf leaf' : Nat → α}

theorem sibling_ne (i : Nat) : sibling i ≠ i := by
  unfold sibling
  split <;> omega

theorem nodeAt_above (level i : Nat) :
    nodeAt node leaf (level + 1) (i / 2) = (nodeAt node leaf level i).bind fun x =>
      (nodeAt node leaf level (sibling i)).bind fun other => parent node x i other := by
  rw [nodeAt]
  by_cases hodd : i % 2 = 1
  · have hright : 2 * (i / 2) + 1 = i := by omega
    have hleft : 2 * (i / 2) = i - 1 := by omega
    rw [hright, hleft, sibling, if_pos hodd]
    cases nodeAt node leaf level (i - 1) <;> cases nodeAt node leaf level i <;> simp [parent, hodd]
  · have hleft : 2 * (i / 2) = i := by omega
    rw [hleft, sibling, if_neg hodd]
    cases nodeAt node leaf level (i + 1) <;> cases nodeAt node leaf level i <;> simp [parent, hodd]

variable {level i : Nat} {hash : α} {path : List α}

theorem nodeAt_above_eq_some :
    nodeAt node leaf (level + 1) (i / 2) = some hash ↔ ∃ x other, nodeAt node leaf level i = some x ∧
      nodeAt node leaf level (sibling i) = some other ∧ parent node x i other = some hash := by
  rw [nodeAt_above]
  simp only [Option.bind_eq_some_iff]
  constructor
  · rintro ⟨x, hx, other, hother, hparent⟩
    exact ⟨x, other, hx, hother, hparent⟩
  · rintro ⟨x, other, hx, hother, hparent⟩
    exact ⟨x, hx, other, hother, hparent⟩

theorem climb_cons_eq_some {x other : α} : climb node x i (other :: path) = some hash ↔
      ∃ above, parent node x i other = some above ∧ climb node above (i / 2) path = some hash :=
  Option.bind_eq_some_iff

theorem nodeAt_total (htotal : ∀ a b, ∃ hash, node a b = some hash) (leaf : Nat → α) (level i : Nat) :
    ∃ hash, nodeAt node leaf level i = some hash := by
  induction level generalizing i with
  | zero => exact ⟨leaf i, rfl⟩
  | succ level ih =>
      obtain ⟨left, hleft⟩ := ih (2 * i)
      obtain ⟨right, hright⟩ := ih (2 * i + 1)
      obtain ⟨hash, hhash⟩ := htotal left right
      refine ⟨hash, ?_⟩
      rw [nodeAt, hleft, hright]
      exact hhash

theorem div_two_div_pow (i count : Nat) : i / 2 / 2 ^ count = i / 2 ^ (count + 1) := by
  rw [Nat.div_div_eq_div_mul, ← pow_succ']

theorem exists_isPath {count : Nat} (hnode : nodeAt node leaf (level + count) (i / 2 ^ count) = some hash) :
    ∃ x path, nodeAt node leaf level i = some x ∧ path.length = count ∧ IsPath node leaf level i path := by
  induction count generalizing level i with
  | zero => exact ⟨hash, [], by simpa using hnode, rfl, trivial⟩
  | succ count ih =>
      rw [← Nat.add_assoc, Nat.add_right_comm, ← div_two_div_pow] at hnode
      obtain ⟨above, path, habove, hlength, hpath⟩ := ih hnode
      obtain ⟨x, other, hx, hother, -⟩ := nodeAt_above_eq_some.mp habove
      exact ⟨x, other :: path, hx, by rw [List.length_cons, hlength], hother, hpath⟩

/-- Along the path of a position, what stands there in a tree that differs there only climbs to the node of
that tree. -/
theorem climb_of_isPath (hpath : IsPath node leaf level i path)
    (hsame : ∀ j, j ≠ i → nodeAt node leaf' level j = nodeAt node leaf level j) :
    ((nodeAt node leaf' level i).bind fun x => climb node x i path) =
      nodeAt node leaf' (level + path.length) (i / 2 ^ path.length) := by
  induction path generalizing level i with
  | nil => simp [climb]
  | cons other path ih =>
      obtain ⟨hother, hpath⟩ := hpath
      have hsame' : ∀ j, j ≠ i / 2 →
          nodeAt node leaf' (level + 1) j = nodeAt node leaf (level + 1) j := by
        intro j hj
        rw [nodeAt, nodeAt, hsame _ (by omega), hsame _ (by omega)]
      rw [List.length_cons, ← Nat.add_assoc, Nat.add_right_comm, ← div_two_div_pow, ← ih hpath hsame',
        nodeAt_above, hsame _ (sibling_ne i), hother, Option.bind_assoc]
      rfl

theorem climb_update {height : Nat} (hpath : IsPath node leaf 0 i path)
    (hlength : path.length = height) (hi : i < 2 ^ height) (x : α) :
    climb node x i path = nodeAt node (Function.update leaf i x) height 0 := by
  have hsame : ∀ j, j ≠ i → nodeAt node (Function.update leaf i x) 0 j = nodeAt node leaf 0 j :=
    fun j hj => congrArg some (Function.update_of_ne hj x leaf)
  have hclimb := climb_of_isPath hpath hsame
  rw [hlength, Nat.zero_add, Nat.div_eq_of_lt hi] at hclimb
  rw [← hclimb, nodeAt, Function.update_self]
  rfl

theorem isPath_const {z other : α} (hnode : ∀ j, nodeAt node (fun _ => z) level j = some other)
    (hchain : List.IsChain (fun below above => node below below = some above) (other :: path)) :
    IsPath node (fun _ => z) level i (other :: path) := by
  induction path generalizing other level i with
  | nil => exact ⟨hnode _, trivial⟩
  | cons above path ih =>
      obtain ⟨habove, hchain⟩ := List.isChain_cons_cons.mp hchain
      refine ⟨hnode _, ih (fun j => ?_) hchain⟩
      rw [nodeAt, hnode, hnode]
      exact habove

theorem exists_path {height : Nat} {root : α} (hroot : nodeAt node leaf height 0 = some root)
    (hi : i < 2 ^ height) : ∃ path, path.length = height ∧ climb node (leaf i) i path = some root ∧
      ∀ x, climb node x i path = nodeAt node (Function.update leaf i x) height 0 := by
  have hnode : nodeAt node leaf (0 + height) (i / 2 ^ height) = some root := by
    rwa [Nat.zero_add, Nat.div_eq_of_lt hi]
  obtain ⟨-, path, -, hlength, hpath⟩ := exists_isPath hnode
  have hclimb := climb_update hpath hlength hi
  refine ⟨path, hlength, ?_, hclimb⟩
  rw [hclimb, Function.update_eq_self, hroot]

section Sound

variable (hfree : CollisionFree node)

include hfree

theorem parent_injective {x x' other other' hash : α} {i : Nat} (h : parent node x i other = some hash)
    (h' : parent node x' i other' = some hash) : x = x' ∧ other = other' := by
  unfold parent at h h'
  split at h
  · exact (hfree _ _ _ _ _ h (by simpa [*] using h')).symm
  · exact hfree _ _ _ _ _ h (by simpa [*] using h')

theorem isPath_of_climb {x hash : α} {level i : Nat} {path : List α}
    (hnode : nodeAt node leaf (level + path.length) (i / 2 ^ path.length) = some hash)
    (hclimb : climb node x i path = some hash) :
    nodeAt node leaf level i = some x ∧ IsPath node leaf level i path := by
  induction path generalizing x level i with
  | nil =>
      obtain rfl := Option.some.inj hclimb
      exact ⟨by simpa using hnode, trivial⟩
  | cons other path ih =>
      obtain ⟨above, hparent, hclimb⟩ := climb_cons_eq_some.mp hclimb
      rw [List.length_cons, ← Nat.add_assoc, Nat.add_right_comm, ← div_two_div_pow] at hnode
      obtain ⟨habove, hpath⟩ := ih hnode hclimb
      obtain ⟨x', other', hx', hother', hparent'⟩ := nodeAt_above_eq_some.mp habove
      obtain ⟨rfl, rfl⟩ := parent_injective hfree hparent hparent'
      exact ⟨hx', hother', hpath⟩

theorem leaf_of_climb {x root : α} {i height : Nat} {path : List α} (hlength : path.length = height)
    (hi : i < 2 ^ height) (hroot : nodeAt node leaf height 0 = some root)
    (hclimb : climb node x i path = some root) : leaf i = x ∧ IsPath node leaf 0 i path := by
  subst hlength
  have hnode : nodeAt node leaf (0 + path.length) (i / 2 ^ path.length) = some root := by
    rwa [Nat.zero_add, Nat.div_eq_of_lt hi]
  obtain ⟨hleaf, hpath⟩ := isPath_of_climb hfree hnode hclimb
  exact ⟨Option.some.inj hleaf, hpath⟩

end Sound

end MerklePath
