import Zolana.Circuits.Field
import Zolana.Lib.Gates

/-!
# The fused ladder step

`quadrupleAddChecked` of `crypto/ed25519/short.go` and `quadrupleAndAddLazy` of `crypto/x25519/ladder.go`: from an
accumulator and an entry of the table, four times the one and the other once. The three slopes are hints. The emulated
arithmetic is read as that of its field, in which `AssertZeroProjected` is an equation and `Lazy` a value; only the
guard looks at integers.
-/

namespace Zolana.Circuits.Crypto

open Gates

/-- `montPoint` and `point`: a pair, on the curve or not. -/
structure CurvePoint (F : Type) where
  x : F
  y : F
  deriving DecidableEq, Repr

/-- The slopes that the prover hints: `l0`, `l1` and `mu`. -/
structure Slopes (F : Type) where
  tangent : F
  chord : F
  second : F
  deriving DecidableEq, Repr

section Field

variable {F : Type} [Field F] [DecidableEq F]

/-- What `AssertSlopeGuard` says of the slopes modulo `p`. -/
def assertSlopeGuard (lambda mu : F) : Option Unit := assertIsDifferent (mu * (mu + 2 • lambda)) 0

def quadrupleAddChecked (a : F) (slopes : Slopes F) (p t : CurvePoint F) : Option (CurvePoint F) := do
  let l0 := slopes.tangent
  assertIsEqual (2 • (l0 * p.y) - 3 • (p.x * p.x) - a) 0
  let xd := l0 * l0 - 2 • p.x
  let yd := l0 * (p.x - xd) - p.y
  let l1 := slopes.chord
  let diff := t.x - xd
  assertIsEqual (l1 * diff - t.y + yd) 0
  let x2 := l1 * l1 - xd - t.x
  let mu := slopes.second
  assertIsEqual (mu * (x2 - xd) + 2 • (l1 * diff) - 2 • t.y) 0
  assertSlopeGuard l1 mu
  let sum := mu + l1
  let x := sum * sum - l1 * l1 + t.x
  let y := (l1 + mu) * (x - xd) + l1 * diff - t.y
  pure ⟨x, y⟩

/-- `tangent` of `x25519/curve.go`. -/
def assertTangent (a lambda : F) (p : CurvePoint F) : Option Unit :=
  assertIsEqual (2 • (lambda * p.y) - 3 • (p.x * p.x) - a) 0

def quadrupleAndAddLazy (a : F) (slopes : Slopes F) (p t : CurvePoint F) : Option (CurvePoint F) := do
  let lambda0 := slopes.tangent
  assertTangent a lambda0 p
  let xD := lambda0 * lambda0 - 2 • p.x
  let tMinusD := t.x - xD
  let lambda1 := slopes.chord
  let yChord := lambda1 * tMinusD
  assertIsEqual (yChord + lambda0 * (p.x - xD) - p.y - t.y) 0
  let x2 := lambda1 * lambda1 - xD - t.x
  let mu := slopes.second
  assertIsEqual (mu * (x2 - xD) + 2 • (lambda1 * tMinusD) - 2 • t.y) 0
  assertSlopeGuard lambda1 mu
  let eta := lambda1 + mu
  let x3 := eta * eta - lambda1 * lambda1 + t.x
  let y3 := eta * (x3 - xD) + yChord - t.y
  pure ⟨x3, y3⟩

/-- The loop of `shortVerify` and of `scalarMulLadder`: one step for each entry that the digits select. -/
def ladder (a : F) (acc : CurvePoint F) (entries : List (Slopes F × CurvePoint F)) : Option (CurvePoint F) :=
  entries.foldlM (fun acc entry => quadrupleAddChecked a entry.1 acc entry.2) acc

end Field

/-! ### The guard -/

/-- `AssertSlopeGuard` of `crypto/curve25519/distinct.go` over the native field, on the integers that the balanced limbs
of the slopes compose to. -/
def assertNativeSlopeGuard (p : Nat) (lambda mu : ℤ) : Option Unit :=
  let m : Fr := mu
  let s : Fr := m + (lambda * 2 : ℤ)
  assertIsDifferent (m * s * (s * s - (p : Fr) * p)) 0

/-- What the builder requires of the bound on balanced slopes, else it panics. -/
def SlopeBound (p maximum : Nat) : Prop := maximum < p ∧ maximum * 3 < 2 * p

end Zolana.Circuits.Crypto
