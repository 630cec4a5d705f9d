import Mathlib.AlgebraicGeometry.EllipticCurve.Affine.Point
import Mathlib.Tactic

/-!
# The group law by slopes

On `y² = x³ + a x + b` a line that meets two points has its third one at the square of its slope, less the
first coordinates of the two. A circuit that is handed a slope checks the equation of the line; the lemmas
here turn such an equation into a sum of the group.
-/

namespace ShortWeierstrass

variable {F : Type} [Field F]

/-- `y² = x³ + a x + b`. -/
def curve (a b : F) : WeierstrassCurve.Affine F := ⟨0, 0, 0, a, b⟩

/-- How far a pair is from the curve. -/
def curveResidual (a b x y : F) : F := y * y - (x * x * x + a * x + b)

/-- Neither a cusp nor a node. -/
def Smooth (a b : F) : Prop := 4 * a ^ 3 + 27 * b ^ 2 ≠ 0

variable {a b x y x₁ y₁ x₂ y₂ l : F}

theorem equation_iff : (curve a b).Equation x y ↔ curveResidual a b x y = 0 := by
  rw [WeierstrassCurve.Affine.equation_iff, curveResidual, sub_eq_zero]
  simp only [curve, zero_mul, add_zero]
  constructor
  · intro h
    linear_combination h
  · intro h
    linear_combination h

theorem Smooth.tangent_ne_zero (hsmooth : Smooth a b) (h : curveResidual a b x 0 = 0) : 3 * (x * x) + a ≠ 0 := by
  intro hx
  have ha : a = -3 * x ^ 2 := by linear_combination hx
  have hb : b = 2 * x ^ 3 := by
    rw [curveResidual, ha] at h
    linear_combination -h
  refine hsmooth ?_
  rw [ha, hb]
  ring

/-- The pair is the affine point `P`. -/
def At (x y : F) (P : (curve a b).Point) : Prop := ∃ h, P = .some x y h

variable {P Q : (curve a b).Point}

theorem At.curveResidual_eq_zero (hP : At x y P) : curveResidual a b x y = 0 := by
  obtain ⟨h, -⟩ := hP
  exact equation_iff.mp h.left

theorem At.unique (hP : At x y P) (hQ : At x y Q) : P = Q := by
  obtain ⟨hP, rfl⟩ := hP
  obtain ⟨hQ, rfl⟩ := hQ
  rfl

theorem exists_at_iff (htwo : (2 : F) ≠ 0) (hsmooth : Smooth a b) :
    (∃ P : (curve a b).Point, At x y P) ↔ curveResidual a b x y = 0 := by
  constructor
  · rintro ⟨P, hP⟩
    exact hP.curveResidual_eq_zero
  · intro h
    have hnonsingular : (curve a b).Nonsingular x y := by
      refine (WeierstrassCurve.Affine.nonsingular_iff' _ _).mpr ⟨equation_iff.mpr h, ?_⟩
      by_cases hy : y = 0
      · subst hy
        left
        intro hzero
        refine hsmooth.tangent_ne_zero h ?_
        simp only [curve] at hzero
        linear_combination -hzero
      · right
        simpa [curve] using ⟨htwo, hy⟩
    exact ⟨.some x y hnonsingular, hnonsingular, rfl⟩

/-! ### Sums -/

variable [DecidableEq F]

theorem At.add_of_slope (hP : At x₁ y₁ P) (hQ : At x₂ y₂ Q) (hne : ¬(x₁ = x₂ ∧ y₁ = (curve a b).negY x₂ y₂))
    (hslope : (curve a b).slope x₁ x₂ y₁ y₂ = l) :
    At (l * l - x₁ - x₂) (l * (x₁ - (l * l - x₁ - x₂)) - y₁) (P + Q) := by
  obtain ⟨hP, rfl⟩ := hP
  obtain ⟨hQ, rfl⟩ := hQ
  have haddX : (curve a b).addX x₁ x₂ l = l * l - x₁ - x₂ := by
    rw [WeierstrassCurve.Affine.addX, curve]
    ring
  have haddY : (curve a b).addY x₁ x₂ y₁ l = l * (x₁ - (l * l - x₁ - x₂)) - y₁ := by
    rw [WeierstrassCurve.Affine.addY, WeierstrassCurve.Affine.negAddY, haddX, WeierstrassCurve.Affine.negY, curve]
    ring
  have hadd := @WeierstrassCurve.Affine.Point.add_some F _ (curve a b) _ x₁ x₂ y₁ y₂ hne hP hQ
  simp only [hslope, haddX, haddY] at hadd
  exact ⟨_, hadd⟩

theorem At.add_of_chord (hP : At x₁ y₁ P) (hQ : At x₂ y₂ Q) (hx : x₁ ≠ x₂) (hl : l * (x₂ - x₁) = y₂ - y₁) :
    At (l * l - x₁ - x₂) (l * (x₁ - (l * l - x₁ - x₂)) - y₁) (P + Q) := by
  refine hP.add_of_slope hQ (fun h => hx h.1) ?_
  rw [WeierstrassCurve.Affine.slope_of_X_ne hx, div_eq_iff (sub_ne_zero.mpr hx)]
  linear_combination hl

theorem At.add_self_of_tangent (htwo : (2 : F) ≠ 0) (hP : At x y P) (hy : y ≠ 0)
    (hl : 2 * (l * y) = 3 * (x * x) + a) : At (l * l - x - x) (l * (x - (l * l - x - x)) - y) (P + P) := by
  have hne : y ≠ (curve a b).negY x y := by
    rw [WeierstrassCurve.Affine.negY, curve]
    intro heq
    refine mul_ne_zero htwo hy ?_
    linear_combination heq
  refine hP.add_of_slope hP (fun h => hne h.2) ?_
  rw [WeierstrassCurve.Affine.slope_of_Y_ne rfl hne, div_eq_iff (sub_ne_zero.mpr hne)]
  simp only [WeierstrassCurve.Affine.negY, curve]
  linear_combination -hl

end ShortWeierstrass
