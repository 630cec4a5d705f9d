import Mathlib.Data.Nat.Size
import Mathlib.Data.ZMod.Basic
import Mathlib.Tactic

/-!
# Gates over a prime field

What a circuit builder offers beside the operations of the field. An assertion fails or lets the circuit
go on. A gate is given as the function its equations define: the inner wires that whoever proves supplies for
them are not modelled. A condition is a wire that is one or zero, and the lemmas on `bit` turn the arithmetic of
such wires into logic.
-/

namespace Gates

/-! ### Conditions -/

section Conditions

variable {F : Type} [CommRing F]

/-- The wire of a condition. -/
def bit (P : Prop) [Decidable P] : F := if P then 1 else 0

variable {P Q : Prop} [Decidable P] [Decidable Q]

theorem bit_of_pos (h : P) : (bit P : F) = 1 := if_pos h

theorem bit_of_neg (h : ¬ P) : (bit P : F) = 0 := if_neg h

theorem bit_congr (h : P ↔ Q) : (bit P : F) = bit Q := by
  by_cases hP : P
  · rw [bit_of_pos hP, bit_of_pos (h.mp hP)]
  · rw [bit_of_neg hP, bit_of_neg (mt h.mpr hP)]

@[simp] theorem bit_eq_one [Nontrivial F] : (bit P : F) = 1 ↔ P := by
  by_cases hP : P
  · exact iff_of_true (bit_of_pos hP) hP
  · rw [bit_of_neg hP]
    exact iff_of_false zero_ne_one hP

@[simp] theorem bit_eq_zero [Nontrivial F] : (bit P : F) = 0 ↔ ¬ P := by
  by_cases hP : P
  · rw [bit_of_pos hP]
    exact iff_of_false one_ne_zero (not_not.mpr hP)
  · exact iff_of_true (bit_of_neg hP) hP

@[simp] theorem bit_inj [Nontrivial F] : (bit P : F) = bit Q ↔ (P ↔ Q) := by
  refine ⟨fun h => ?_, bit_congr⟩
  have hiff : (bit P : F) = 1 ↔ (bit Q : F) = 1 := by rw [h]
  rwa [bit_eq_one, bit_eq_one] at hiff

@[simp] theorem one_sub_bit : 1 - (bit P : F) = bit ¬ P := by
  by_cases hP : P
  · rw [bit_of_pos hP, bit_of_neg (not_not.mpr hP), sub_self]
  · rw [bit_of_neg hP, bit_of_pos hP, sub_zero]

@[simp] theorem bit_mul_bit : (bit P : F) * bit Q = bit (P ∧ Q) := by
  by_cases hP : P
  · rw [bit_of_pos hP, one_mul, bit_congr (and_iff_right hP).symm]
  · rw [bit_of_neg hP, zero_mul, bit_of_neg fun h => hP h.1]

@[simp] theorem bit_mul_eq_zero {x : F} : bit P * x = 0 ↔ (P → x = 0) := by
  by_cases hP : P
  · rw [bit_of_pos hP, one_mul, forall_prop_of_true hP]
  · rw [bit_of_neg hP, zero_mul]
    exact iff_of_true rfl fun h => absurd h hP

theorem bit_mul_eq_ite (x : F) : bit P * x = if P then x else 0 := by
  by_cases hP : P
  · rw [bit_of_pos hP, if_pos hP, one_mul]
  · rw [bit_of_neg hP, if_neg hP, zero_mul]

theorem bit_eq_zero_or_one : (bit P : F) = 0 ∨ (bit P : F) = 1 := by
  by_cases hP : P
  · exact .inr (bit_of_pos hP)
  · exact .inl (bit_of_neg hP)

/-- The first value where the condition holds, the second where it does not. -/
def select (condition onTrue onFalse : F) : F := condition * (onTrue - onFalse) + onFalse

@[simp] theorem select_bit (x y : F) : select (bit P) x y = if P then x else y := by
  by_cases hP : P
  · rw [select, bit_of_pos hP, if_pos hP, one_mul, sub_add_cancel]
  · rw [select, bit_of_neg hP, if_neg hP, zero_mul, zero_add]

variable [DecidableEq F]

def isZero (x : F) : F := bit (x = 0)

theorem isZero_sub (x y : F) : isZero (x - y) = bit (x = y) := bit_congr sub_eq_zero

end Conditions

/-! ### Assertions -/

section Assertions

variable {F : Type} [DecidableEq F]

def assertIsEqual (x y : F) : Option Unit := if x = y then some () else none

def assertIsDifferent (x y : F) : Option Unit := if x = y then none else some ()

def assertIsBoolean [CommRing F] (x : F) : Option Unit := if x = 0 ∨ x = 1 then some () else none

@[simp] theorem assertIsEqual_eq_some {x y : F} : assertIsEqual x y = some () ↔ x = y := by
  simp [assertIsEqual]

@[simp] theorem assertIsDifferent_eq_some {x y : F} : assertIsDifferent x y = some () ↔ x ≠ y := by
  simp [assertIsDifferent]

@[simp] theorem assertIsBoolean_eq_some [CommRing F] {x : F} : assertIsBoolean x = some () ↔ x = 0 ∨ x = 1 := by
  rw [assertIsBoolean]
  split
  case isTrue h => simp [h]
  case isFalse h => simp [h]

variable {α β : Type}

theorem of_bind_some {x : Option α} {f : α → Option β} {b : β} (h : (x >>= f) = some b) :
    ∃ a, x = some a ∧ f a = some b := Option.bind_eq_some_iff.mp h

theorem bind_unit_eq_some {check : Option Unit} {next : Unit → Option α} {a : α} :
    (check >>= next) = some a ↔ check = some () ∧ next () = some a := by
  cases check with
  | none => simp
  | some u => simp

theorem of_bind_unit {check : Option Unit} {next : Unit → Option α} {a : α} (h : (check >>= next) = some a) :
    check = some () ∧ next () = some a := bind_unit_eq_some.mp h

theorem bind_of_eq_some {gate : Option α} {next : α → Option β} {a : α} (h : gate = some a) :
    (gate >>= next) = next a := by
  rw [h]
  rfl

def forEach {n : Nat} (check : Fin n → Option Unit) : Option Unit := (List.finRange n).forM check

theorem forM_eq_some {items : List α} {check : α → Option Unit} :
    items.forM check = some () ↔ ∀ item ∈ items, check item = some () := by
  induction items with
  | nil => simp
  | cons item items ih =>
      change (check item >>= fun _ => items.forM check) = some () ↔ _
      rw [bind_unit_eq_some, ih, List.forall_mem_cons]

@[simp] theorem forEach_eq_some {n : Nat} {check : Fin n → Option Unit} :
    forEach check = some () ↔ ∀ i, check i = some () := by
  rw [forEach, forM_eq_some]
  simp

def each : {n : Nat} → (Fin n → Option α) → Option (Fin n → α)
  | 0, _ => some Fin.elim0
  | _ + 1, value => do
    let first ← value 0
    let rest ← each fun i => value i.succ
    pure (Fin.cons first rest)

@[simp] theorem each_eq_some {n : Nat} {value : Fin n → Option α} {values : Fin n → α} :
    each value = some values ↔ ∀ i, value i = some (values i) := by
  induction n with
  | zero =>
      refine ⟨fun _ i => i.elim0, fun _ => congrArg some ?_⟩
      funext i
      exact i.elim0
  | succ n ih =>
      rw [Fin.forall_fin_succ]
      constructor
      · intro h
        obtain ⟨first, hfirst, h⟩ := of_bind_some h
        obtain ⟨rest, hrest, h⟩ := of_bind_some h
        obtain rfl := Option.some.inj h
        exact ⟨hfirst, ih.mp hrest⟩
      · rintro ⟨hfirst, hrest⟩
        rw [each, hfirst, ih.mpr hrest]
        exact congrArg some (Fin.cons_self_tail values)

end Assertions

/-! ### One hot selection -/

section OneHot

variable {p n : Nat} [Fact p.Prime] {x : ZMod p}

theorem natCast_fin_inj (hn : n ≤ p) {j k : Fin n} (h : (j.val : ZMod p) = (k.val : ZMod p)) : j = k := by
  rw [ZMod.natCast_eq_natCast_iff', Nat.mod_eq_of_lt (j.isLt.trans_le hn),
    Nat.mod_eq_of_lt (k.isLt.trans_le hn)] at h
  exact Fin.ext h

theorem sum_isZero_mul (hn : n ≤ p) {k : Fin n} (hx : x = (k.val : ZMod p)) (f : Fin n → ZMod p) :
    ∑ j : Fin n, isZero (x - (j.val : ZMod p)) * f j = f k := by
  rw [Finset.sum_eq_single k]
  · rw [isZero_sub, bit_of_pos hx, one_mul]
  · intro j _ hj
    rw [isZero_sub, bit_of_neg, zero_mul]
    rintro rfl
    exact hj (natCast_fin_inj hn hx)
  · intro hk
    exact absurd (Finset.mem_univ k) hk

theorem sum_isZero_eq_one (hn : n ≤ p) :
    ∑ j : Fin n, isZero (x - (j.val : ZMod p)) = 1 ↔ ∃ k : Fin n, x = (k.val : ZMod p) := by
  constructor
  · intro hsum
    by_contra hnone
    have hzero : ∀ j : Fin n, isZero (x - (j.val : ZMod p)) = 0 := by
      intro j
      rw [isZero_sub]
      exact bit_of_neg fun hx => hnone ⟨j, hx⟩
    rw [Finset.sum_congr rfl fun j _ => hzero j, Finset.sum_const_zero] at hsum
    exact zero_ne_one hsum
  · rintro ⟨k, hx⟩
    have hone := sum_isZero_mul hn hx fun _ => 1
    simpa using hone

theorem sum_bit_eq_zero (hn : n < p) {P : Fin n → Prop} [DecidablePred P] :
    ∑ i, (bit (P i) : ZMod p) = 0 ↔ ∀ i, ¬ P i := by
  have hcount : ∑ i, (bit (P i) : ZMod p) = ((Finset.univ.filter P).card : ZMod p) := by
    rw [Finset.card_filter, Nat.cast_sum]
    refine Finset.sum_congr rfl fun i _ => ?_
    rw [Nat.cast_ite, Nat.cast_one, Nat.cast_zero]
    rfl
  have hle : (Finset.univ.filter P).card < p :=
    ((Finset.card_filter_le _ _).trans_eq (Finset.card_fin n)).trans_lt hn
  rw [hcount, ZMod.natCast_eq_zero_iff, Nat.dvd_iff_mod_eq_zero, Nat.mod_eq_of_lt hle, Finset.card_eq_zero,
    Finset.filter_eq_empty_iff]
  exact ⟨fun h i => h (Finset.mem_univ i), fun h i _ => h i⟩

end OneHot

/-! ### Integers as residues -/

section Integers

variable {p : Nat}

theorem intCast_eq_iff {a b : ℤ} (h : |a - b| < p) : (a : ZMod p) = b ↔ a = b := by
  refine ⟨fun heq => ?_, congrArg Int.cast⟩
  have hdvd := (ZMod.intCast_eq_intCast_iff_dvd_sub b a p).mp heq.symm
  exact sub_eq_zero.mp (Int.eq_zero_of_abs_lt_dvd hdvd h)

theorem valMinAbs_intCast [NeZero p] {z : ℤ} (h : 2 * |z| < p) : (z : ZMod p).valMinAbs = z := by
  refine (ZMod.valMinAbs_spec _ _).mpr ⟨rfl, ?_⟩
  have hle := le_abs_self z
  have hneg := neg_abs_le z
  exact ⟨by linarith, by linarith⟩

end Integers

/-! ### Binary decomposition -/

section Binary

variable {p : Nat}

/-- The low `width` bits of a number, the lowest first. -/
def bitsOf : (width value : Nat) → List (ZMod p)
  | 0, _ => []
  | width + 1, value => bit (value % 2 = 1) :: bitsOf width (value / 2)

def fromBinary : List (ZMod p) → ZMod p
  | [] => 0
  | b :: bits => b + 2 * fromBinary bits

def toBinary (width : Nat) (x : ZMod p) : Option (List (ZMod p)) :=
  if x.val < 2 ^ width then some (bitsOf width x.val) else none

variable {width : Nat} {bits : List (ZMod p)}

theorem toBinary_eq_some {x : ZMod p} :
    toBinary width x = some bits ↔ x.val < 2 ^ width ∧ bits = bitsOf width x.val := by
  unfold toBinary
  split
  case isTrue h => simp [h, eq_comm]
  case isFalse h => simp [h]

@[simp] theorem length_bitsOf (width value : Nat) : (bitsOf width value : List (ZMod p)).length = width := by
  induction width generalizing value with
  | zero => rfl
  | succ width ih => rw [bitsOf, List.length_cons, ih]

theorem bitsOf_add (low high value : Nat) :
    (bitsOf (low + high) value : List (ZMod p)) = bitsOf low value ++ bitsOf high (value / 2 ^ low) := by
  induction low generalizing value with
  | zero => simp [bitsOf]
  | succ low ih =>
      rw [Nat.add_right_comm, bitsOf, bitsOf, ih, List.cons_append, Nat.div_div_eq_div_mul, pow_succ']

theorem bitsOf_mod (width value : Nat) : (bitsOf width (value % 2 ^ width) : List (ZMod p)) = bitsOf width value := by
  induction width generalizing value with
  | zero => rfl
  | succ width ih =>
      have hhalf : value % 2 ^ (width + 1) / 2 = value / 2 % 2 ^ width := by
        rw [pow_succ', Nat.mod_mul_right_div_self]
      rw [bitsOf, bitsOf, hhalf, ih, Nat.mod_mod_of_dvd _ (Dvd.intro_left _ (pow_succ 2 width).symm)]

theorem take_bitsOf {low : Nat} (h : low ≤ width) (value : Nat) :
    (bitsOf width value : List (ZMod p)).take low = bitsOf low value := by
  obtain ⟨high, rfl⟩ := Nat.exists_eq_add_of_le h
  rw [bitsOf_add, List.take_left' (length_bitsOf low value)]

theorem drop_bitsOf {low : Nat} (h : low ≤ width) (value : Nat) :
    (bitsOf width value : List (ZMod p)).drop low = bitsOf (width - low) (value / 2 ^ low) := by
  obtain ⟨high, rfl⟩ := Nat.exists_eq_add_of_le h
  rw [bitsOf_add, List.drop_left' (length_bitsOf low value), Nat.add_sub_cancel_left]

theorem getElem?_bitsOf {i : Nat} (h : i < width) (value : Nat) :
    (bitsOf width value : List (ZMod p))[i]? = some (bit (value / 2 ^ i % 2 = 1)) := by
  induction i generalizing width value with
  | zero =>
      cases width with
      | zero => cases h
      | succ width => simp [bitsOf]
  | succ i ih =>
      cases width with
      | zero => cases h
      | succ width =>
          rw [bitsOf, List.getElem?_cons_succ, ih (Nat.lt_of_succ_lt_succ h), Nat.div_div_eq_div_mul,
            ← pow_succ']

theorem bit_mod_two (value : Nat) : (bit (value % 2 = 1) : ZMod p) = ((value % 2 : Nat) : ZMod p) := by
  rcases Nat.mod_two_eq_zero_or_one value with h | h
  · rw [h, bit_of_neg (by decide), Nat.cast_zero]
  · rw [h, bit_of_pos rfl, Nat.cast_one]

theorem fromBinary_bitsOf (width value : Nat) :
    fromBinary (bitsOf width value) = ((value % 2 ^ width : Nat) : ZMod p) := by
  induction width generalizing value with
  | zero => simp [bitsOf, fromBinary, Nat.mod_one]
  | succ width ih =>
      rw [bitsOf, fromBinary, ih, bit_mod_two, pow_succ', Nat.mod_mul]
      push_cast
      ring

theorem fromBinary_bitsOf_of_lt {value : Nat} (h : value < 2 ^ width) :
    fromBinary (bitsOf width value) = (value : ZMod p) := by
  rw [fromBinary_bitsOf, Nat.mod_eq_of_lt h]

end Binary

end Gates
