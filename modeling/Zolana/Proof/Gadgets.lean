import Zolana.Circuits.Gadget
import Zolana.Lib.MerklePath
import Zolana.Lib.Oracle

/-!
# What the gadgets compute

One fact for each gadget, so that the circuits are read without opening it: the conditional assertions are
implications, the comparisons compare the canonical values, and a Merkle root is a climb along the path.
-/

namespace Zolana.Circuits

open Gates

/-! ### Conditions -/

section Conditions

variable {P Q : Prop} [Decidable P] [Decidable Q]

@[simp] theorem assertEqualWhen_eq_some {a b : Fr} : assertEqualWhen (bit P) a b = some () ↔ (P → a = b) := by
  rw [assertEqualWhen, assertIsEqual_eq_some, bit_mul_eq_zero, sub_eq_zero]

@[simp] theorem assertZeroWhen_eq_some {v : Fr} : assertZeroWhen (bit P) v = some () ↔ (P → v = 0) := by
  rw [assertZeroWhen, assertIsEqual_eq_some, bit_mul_eq_zero]

@[simp] theorem assertWhen_eq_some : assertWhen (bit P) (bit Q) = some () ↔ (P → Q) := by
  rw [assertWhen, one_sub_bit, assertZeroWhen_eq_some, bit_eq_zero, not_not]

end Conditions

/-! ### Comparisons -/

section Comparisons

variable {x y lo mid hi : Fr}

theorem val_lt_two_pow (x : Fr) : x.val < 2 ^ 254 := (ZMod.val_lt x).trans (by norm_num [fieldModulus])

theorem canonicalLimbs_eq (x : Fr) :
    canonicalLimbs x = some ⟨(x.val % 2 ^ 127 : Nat), (x.val / 2 ^ 127 : Nat), 127, 127⟩ := by
  have hx := val_lt_two_pow x
  have hhigh : x.val / 2 ^ 127 < 2 ^ 127 := by
    rw [Nat.div_lt_iff_lt_mul (by decide), ← pow_add]
    exact hx
  rw [canonicalLimbs, size_fieldModulus, toBinary_eq_some.mpr ⟨hx, rfl⟩]
  simp only [Option.bind_eq_bind, Option.bind_some, length_bitsOf, Option.pure_def, Nat.reduceDiv,
    Nat.reduceSub]
  rw [take_bitsOf (by decide), drop_bitsOf (by decide), fromBinary_bitsOf]
  simp only [Nat.reduceSub]
  rw [fromBinary_bitsOf_of_lt hhigh]

theorem isLessBounded_eq {a b k : Nat} (hk : k + 1 ≤ 253) (ha : a < 2 ^ k) (hb : b < 2 ^ k) :
    isLessBounded (a : Fr) b k = some (bit (a < b)) := by
  have hshift : (a : Fr) - b + (2 ^ k : Nat) = ((2 ^ k + a - b : Nat) : Fr) := by
    rw [Nat.cast_sub (by omega)]
    push_cast
    ring
  have hwide : 2 ^ k + a - b < 2 ^ (k + 1) := by
    rw [pow_succ]
    omega
  have hval := val_natCast_of_lt (hwide.trans (two_pow_lt_fieldModulus hk))
  have htop : (2 ^ k + a - b) / 2 ^ k % 2 = 1 ↔ ¬ a < b := by
    rcases lt_or_ge a b with hlt | hge
    · rw [Nat.div_eq_of_lt (by omega)]
      exact iff_of_false (by decide) (not_not.mpr hlt)
    · rw [Nat.add_sub_assoc hge, Nat.add_div_left _ (Nat.two_pow_pos k), Nat.div_eq_of_lt (by omega)]
      exact iff_of_true rfl (not_lt.mpr hge)
  rw [isLessBounded, hshift, toBinary_eq_some.mpr ⟨hval.trans_lt hwide, rfl⟩, hval]
  simp only [Option.bind_eq_bind, Option.bind_some, getElem?_bitsOf (Nat.lt_succ_self k), Option.pure_def]
  rw [one_sub_bit, bit_congr (not_congr htop), bit_congr not_not]

theorem isLessLimbs_eq {a b : Nat} (ha : a < 2 ^ 254) (hb : b < 2 ^ 254) :
    isLessLimbs ⟨(a % 2 ^ 127 : Nat), (a / 2 ^ 127 : Nat), 127, 127⟩
      ⟨(b % 2 ^ 127 : Nat), (b / 2 ^ 127 : Nat), 127, 127⟩ = some (bit (a < b)) := by
  have hhigh : ∀ n, n < 2 ^ 254 → n / 2 ^ 127 < 2 ^ 127 := by
    intro n hn
    rw [Nat.div_lt_iff_lt_mul (by decide), ← pow_add]
    exact hn
  have hlow : ∀ n, n % 2 ^ 127 < 2 ^ 127 := fun n => Nat.mod_lt n (by decide)
  have heq : ((a / 2 ^ 127 : Nat) : Fr) = (b / 2 ^ 127 : Nat) ↔ a / 2 ^ 127 = b / 2 ^ 127 := by
    have hsmall : 2 ^ 127 < fieldModulus := two_pow_lt_fieldModulus (by decide)
    constructor
    · intro h
      rw [← val_natCast_of_lt ((hhigh a ha).trans hsmall), h,
        val_natCast_of_lt ((hhigh b hb).trans hsmall)]
    · exact congrArg Nat.cast
  rw [isLessLimbs]
  simp only [max_self]
  rw [isLessBounded_eq (by decide) (hhigh a ha) (hhigh b hb),
    isLessBounded_eq (by decide) (hlow a) (hlow b), isZero_sub, bit_congr heq]
  simp only [Option.bind_eq_bind, Option.bind_some, Option.pure_def, bit_mul_bit, Option.some.injEq]
  have hasplit := Nat.div_add_mod a (2 ^ 127)
  have hbsplit := Nat.div_add_mod b (2 ^ 127)
  have halow := hlow a
  have hblow := hlow b
  generalize a / 2 ^ 127 = aHigh at *
  generalize a % 2 ^ 127 = aLow at *
  generalize b / 2 ^ 127 = bHigh at *
  generalize b % 2 ^ 127 = bLow at *
  rcases lt_trichotomy aHigh bHigh with hlt | rfl | hgt
  · rw [bit_of_pos hlt, bit_of_neg fun h => hlt.ne h.1, bit_of_pos (by nlinarith), add_zero]
  · rw [bit_of_neg (lt_irrefl _), zero_add]
    exact bit_congr (by omega)
  · rw [bit_of_neg hgt.not_gt, bit_of_neg fun h => hgt.ne' h.1, bit_of_neg (by nlinarith), add_zero]

theorem assertIsLessFullField_eq_some : assertIsLessFullField x y = some () ↔ x.val < y.val := by
  rw [assertIsLessFullField, bind_of_eq_some (canonicalLimbs_eq x), bind_of_eq_some (canonicalLimbs_eq y),
    bind_of_eq_some (isLessLimbs_eq (val_lt_two_pow x) (val_lt_two_pow y)), assertIsEqual_eq_some, bit_eq_one]

theorem assertStrictlyOrderedFullField_eq_some :
    assertStrictlyOrderedFullField lo mid hi = some () ↔ lo.val < mid.val ∧ mid.val < hi.val := by
  rw [assertStrictlyOrderedFullField, bind_unit_eq_some, assertIsLessFullField_eq_some,
    assertIsLessFullField_eq_some]

theorem assertStrictlyOrdered_eq_some :
    assertStrictlyOrdered lo mid hi = some () ↔ lo.val < mid.val ∧ mid.val < hi.val := by
  rw [assertStrictlyOrdered, bind_of_eq_some (canonicalLimbs_eq lo), bind_of_eq_some (canonicalLimbs_eq mid),
    bind_of_eq_some (canonicalLimbs_eq hi),
    bind_of_eq_some (isLessLimbs_eq (val_lt_two_pow lo) (val_lt_two_pow mid)), bind_unit_eq_some,
    bind_of_eq_some (isLessLimbs_eq (val_lt_two_pow mid) (val_lt_two_pow hi)), assertIsEqual_eq_some,
    assertIsEqual_eq_some, bit_eq_one, bit_eq_one]

end Comparisons

/-! ### Merkle roots -/

section Merkle

variable (poseidon : Poseidon)

/-- The hash of a pair of nodes. -/
def nodeHash (left right : Fr) : Option Fr := poseidon [left, right]

variable {poseidon}

theorem Poseidon.CollisionFree.nodeHash (hfree : poseidon.CollisionFree) :
    MerklePath.CollisionFree (nodeHash poseidon) := by
  intro a b a' b' digest h h'
  have heq := hfree _ _ _ h h'
  simp only [List.cons.injEq, and_true] at heq
  exact heq

theorem proveParentHash_bit (i : Nat) (hash sibling : Fr) :
    proveParentHash poseidon (bit (i % 2 = 1)) hash sibling =
      MerklePath.parent (nodeHash poseidon) hash i sibling := by
  rw [proveParentHash, assertIsBoolean_eq_some.mpr bit_eq_zero_or_one, select_bit, select_bit,
    MerklePath.parent]
  by_cases hodd : i % 2 = 1
  · simp only [if_pos hodd]
    rfl
  · simp only [if_neg hodd]
    rfl

theorem merkleRoot_bitsOf (hash : Fr) (i : Nat) (path : List Fr) :
    merkleRoot poseidon hash (bitsOf path.length i) path =
      MerklePath.climb (nodeHash poseidon) hash i path := by
  induction path generalizing hash i with
  | nil => rfl
  | cons sibling path ih =>
      rw [List.length_cons, bitsOf, merkleRoot, proveParentHash_bit, MerklePath.climb]
      simp only [ih]

theorem merkleRootUpdate_eq_some {oldRoot oldLeaf newLeaf newRoot : Fr} {i height : Nat} {path : List Fr}
    (hlength : path.length = height) :
    merkleRootUpdate poseidon oldRoot oldLeaf newLeaf (bitsOf height i) path = some newRoot ↔
      MerklePath.climb (nodeHash poseidon) oldLeaf i path = some oldRoot ∧
        MerklePath.climb (nodeHash poseidon) newLeaf i path = some newRoot := by
  subst hlength
  rw [merkleRootUpdate, merkleRoot_bitsOf, merkleRoot_bitsOf]
  constructor
  · intro h
    obtain ⟨root, hroot, h⟩ := of_bind_some h
    obtain ⟨heq, h⟩ := of_bind_unit h
    rw [assertIsEqual_eq_some.mp heq] at hroot
    exact ⟨hroot, h⟩
  · rintro ⟨hold, hnew⟩
    rw [hold]
    exact bind_unit_eq_some.mpr ⟨assertIsEqual_eq_some.mpr rfl, hnew⟩

end Merkle

/-! ### Poseidon where it was asked -/

/-- Questions with increasing answers, so that no two have the same one. No answer is zero. -/
structure NatLog where
  entries : List (List Nat × Nat)
  bounds : ∀ entry ∈ entries, 0 < entry.2 ∧ entry.2 < fieldModulus
  ascending : (entries.map Prod.snd).IsChain (· < ·)

theorem NatLog.nodup (log : NatLog) : (log.entries.map Prod.snd).Nodup :=
  (List.isChain_iff_pairwise.mp log.ascending).imp Nat.ne_of_lt

namespace Poseidon

def ofNatLog (log : NatLog) : Poseidon :=
  fun inputs => (Oracle.logged log.entries (inputs.map ZMod.val)).map Nat.cast

theorem mem_of_ofNatLog {log : NatLog} {inputs : List Fr} {digest : Fr} (h : ofNatLog log inputs = some digest) :
    (inputs.map ZMod.val, digest.val) ∈ log.entries := by
  obtain ⟨value, hlogged, rfl⟩ := Option.map_eq_some_iff.mp h
  have hmem := Oracle.mem_of_logged hlogged
  rwa [val_natCast_of_lt (log.bounds _ hmem).2]

theorem collisionFree_ofNatLog (log : NatLog) : (ofNatLog log).CollisionFree := by
  intro inputs inputs' digest hdigest hdigest'
  have hentry := List.inj_on_of_nodup_map log.nodup (mem_of_ofNatLog hdigest) (mem_of_ofNatLog hdigest') rfl
  exact List.map_injective_iff.mpr (ZMod.val_injective fieldModulus) (congrArg Prod.fst hentry)

theorem neverZero_ofNatLog (log : NatLog) : (ofNatLog log).NeverZero := by
  intro inputs hdigest
  have hpos := (log.bounds _ (mem_of_ofNatLog hdigest)).1
  rw [ZMod.val_zero] at hpos
  exact hpos.false

end Poseidon

end Zolana.Circuits
