import Zolana.Circuits.Crypto.Ladder
import Zolana.Lib.ShortWeierstrass

/-!
# The fused ladder step fixes its slopes

Nothing in a step says that the accumulator is on the curve, and where the doubled accumulator meets the entry of the
table any chord will do. What a step does is to scale the distance from the curve: the distance of the accumulator
times the guard is that of the output times the width of the chord. So an output on the curve leaves none to the
accumulator, and by the end of a ladder every accumulator before it is the sum it stands for.
-/

namespace Zolana

open Circuits.Crypto Gates ShortWeierstrass

namespace Circuits.Crypto

variable {F : Type} [Field F] {a b : F} {slopes : Slopes F} {p t out : CurvePoint F}

/-- The equations of a step, with its doubled accumulator and the first coordinate of the sum with the entry. -/
structure FusedStep (a : F) (slopes : Slopes F) (p t out : CurvePoint F) (xd yd x2 : F) : Prop where
  tangent : 2 * (slopes.tangent * p.y) = 3 * (p.x * p.x) + a
  xd_eq : xd = slopes.tangent * slopes.tangent - 2 * p.x
  yd_eq : yd = slopes.tangent * (p.x - xd) - p.y
  chord : slopes.chord * (t.x - xd) = t.y - yd
  x2_eq : x2 = slopes.chord * slopes.chord - xd - t.x
  second : slopes.second * (x2 - xd) = 2 * yd
  guard : slopes.second * (slopes.second + 2 * slopes.chord) ≠ 0
  x_eq : out.x = slopes.second * (slopes.second + 2 * slopes.chord) + t.x
  y_eq : out.y = (slopes.chord + slopes.second) * (out.x - xd) - yd

theorem assertSlopeGuard_eq_some [DecidableEq F] {lambda mu : F} :
    assertSlopeGuard lambda mu = some () ↔ mu * (mu + 2 * lambda) ≠ 0 := by
  rw [assertSlopeGuard, assertIsDifferent_eq_some, two_nsmul, ← two_mul]

theorem exists_fusedStep [DecidableEq F] (h : quadrupleAddChecked a slopes p t = some out) :
    ∃ xd yd x2, FusedStep a slopes p t out xd yd x2 := by
  obtain ⟨htangent, h⟩ := of_bind_unit h
  obtain ⟨hchord, h⟩ := of_bind_unit h
  obtain ⟨hsecond, h⟩ := of_bind_unit h
  obtain ⟨hguard, h⟩ := of_bind_unit h
  obtain rfl := Option.some.inj h
  rw [assertIsEqual_eq_some] at htangent hchord hsecond
  refine ⟨slopes.tangent * slopes.tangent - 2 * p.x, _, _, ?_, rfl, rfl, ?_, rfl, ?_, assertSlopeGuard_eq_some.mp hguard, ?_, ?_⟩
  · linear_combination htangent
  · linear_combination hchord
  · linear_combination hsecond - 2 * hchord
  · ring
  · linear_combination hchord

theorem quadrupleAndAddLazy_eq [DecidableEq F] (a : F) (slopes : Slopes F) (p t : CurvePoint F) :
    quadrupleAndAddLazy a slopes p t = quadrupleAddChecked a slopes p t := by
  have hchord (l0 l1 xd : F) : l1 * (t.x - xd) + l0 * (p.x - xd) - p.y - t.y =
      l1 * (t.x - xd) - t.y + (l0 * (p.x - xd) - p.y) := by ring
  simp only [quadrupleAndAddLazy, quadrupleAddChecked, assertTangent, hchord, add_comm slopes.second slopes.chord]

/-- The slope of what is left of the curve's cubic on the chord, once the three points it should meet are taken
out. -/
def chordDefect (a l1 xd yd tx : F) : F :=
  a - 2 • (l1 * (yd - l1 * xd)) - (xd * tx + (xd + tx) * (l1 * l1 - xd - tx))

namespace FusedStep

variable {xd yd x2 : F} (h : FusedStep a slopes p t out xd yd x2)

include h

theorem residual_double : curveResidual a b xd yd = curveResidual a b p.x p.y := by
  rw [h.yd_eq, h.xd_eq, curveResidual, curveResidual]
  linear_combination (slopes.tangent * slopes.tangent - 3 * p.x) * h.tangent

theorem residual_chord :
    chordDefect a slopes.chord xd yd t.x * (t.x - xd) = curveResidual a b xd yd - curveResidual a b t.x t.y := by
  have hy : t.y = slopes.chord * (t.x - xd) + yd := by linear_combination -h.chord
  rw [hy, chordDefect, curveResidual, curveResidual]
  ring

theorem residual_out :
    curveResidual a b out.x out.y = curveResidual a b xd yd - chordDefect a slopes.chord xd yd t.x * (out.x - xd) := by
  have hsecond := h.second
  rw [h.x2_eq] at hsecond
  rw [h.y_eq, h.x_eq, chordDefect, curveResidual, curveResidual]
  linear_combination ((2 * slopes.chord + slopes.second) *
    (slopes.second * (slopes.second + 2 * slopes.chord) + t.x - xd)) * hsecond

theorem out_ne : out.x - t.x ≠ 0 := by
  rw [h.x_eq, add_sub_cancel_right]
  exact h.guard

theorem residual_mul : curveResidual a b out.x out.y * (xd - t.x) =
    curveResidual a b p.x p.y * (out.x - t.x) - curveResidual a b t.x t.y * (out.x - xd) := by
  have hchord := h.residual_chord (b := b)
  rw [← h.residual_double, h.residual_out]
  linear_combination (out.x - xd) * hchord

theorem residual_eq_zero (ht : curveResidual a b t.x t.y = 0) (hout : curveResidual a b out.x out.y = 0) :
    curveResidual a b p.x p.y = 0 := by
  by_cases hx : t.x = xd
  · -- The chord has no width, and the doubled accumulator is the entry.
    have hy : t.y = yd := by
      have hchord := h.chord
      rw [hx, sub_self, mul_zero] at hchord
      exact sub_eq_zero.mp hchord.symm
    rw [← h.residual_double, ← hx, ← hy]
    exact ht
  · have hmul := h.residual_mul (b := b)
    rw [ht, hout, zero_mul, zero_mul, sub_zero] at hmul
    exact (mul_eq_zero.mp hmul.symm).resolve_right h.out_ne

/-- Then the chord meets its three points, of whatever slope it was. -/
theorem chordDefect_eq_zero (ht : curveResidual a b t.x t.y = 0) (hout : curveResidual a b out.x out.y = 0) :
    chordDefect a slopes.chord xd yd t.x = 0 := by
  have hdouble : curveResidual a b xd yd = 0 := h.residual_double.trans (h.residual_eq_zero ht hout)
  by_cases hx : t.x = xd
  · have hresidual := h.residual_out (b := b)
    rw [hout, hdouble, zero_sub] at hresidual
    refine (mul_eq_zero.mp (neg_eq_zero.mp hresidual.symm)).resolve_right ?_
    rw [← hx]
    exact h.out_ne
  · have hchord := h.residual_chord (b := b)
    rw [hdouble, ht, sub_zero] at hchord
    exact (mul_eq_zero.mp hchord).resolve_right (sub_ne_zero.mpr hx)

/-- A point of order two has no tangent, so the accumulator is none, and neither is its double. -/
theorem y_ne_zero (hsmooth : Smooth a b) (hp : curveResidual a b p.x p.y = 0) : p.y ≠ 0 := by
  intro hy
  rw [hy] at hp
  refine hsmooth.tangent_ne_zero hp ?_
  rw [← h.tangent, hy, mul_zero, mul_zero]

theorem yd_ne_zero (hsmooth : Smooth a b) (ht : curveResidual a b t.x t.y = 0)
    (hout : curveResidual a b out.x out.y = 0) : yd ≠ 0 := by
  intro hy
  have hdouble : curveResidual a b xd yd = 0 := h.residual_double.trans (h.residual_eq_zero ht hout)
  have hdefect := h.chordDefect_eq_zero ht hout
  have hsecond := h.second
  rw [hy, mul_zero] at hsecond
  have hx2 : x2 - xd = 0 := (mul_eq_zero.mp hsecond).resolve_left (left_ne_zero_of_mul h.guard)
  rw [h.x2_eq] at hx2
  rw [hy] at hdouble
  refine hsmooth.tangent_ne_zero hdouble ?_
  rw [chordDefect, hy] at hdefect
  linear_combination hdefect + (t.x - xd) * hx2

theorem x2_ne (htwo : (2 : F) ≠ 0) (hyd : yd ≠ 0) : xd ≠ x2 := by
  rintro rfl
  have hsecond := h.second
  rw [sub_self, mul_zero] at hsecond
  exact mul_ne_zero htwo hyd hsecond.symm

end FusedStep

/-! ### A step in the group -/

section Group

variable [DecidableEq F] (htwo : (2 : F) ≠ 0) (hsmooth : Smooth a b)

include htwo hsmooth

theorem FusedStep.at_out {xd yd x2 : F} (h : FusedStep a slopes p t out xd yd x2) {T : (curve a b).Point}
    (hT : At t.x t.y T) (hout : curveResidual a b out.x out.y = 0) :
    ∃ P : (curve a b).Point, At p.x p.y P ∧ At out.x out.y (4 • P + T) := by
  have ht := hT.curveResidual_eq_zero
  have hp := h.residual_eq_zero ht hout
  have hyd := h.yd_ne_zero hsmooth ht hout
  obtain ⟨P, hP⟩ := (exists_at_iff htwo hsmooth).mpr hp
  refine ⟨P, hP, ?_⟩
  have hD : At xd yd (P + P) := by
    have hdouble := hP.add_self_of_tangent htwo (h.y_ne_zero hsmooth hp) h.tangent
    have hx : slopes.tangent * slopes.tangent - p.x - p.x = xd := by
      rw [h.xd_eq]
      ring
    rw [hx, ← h.yd_eq] at hdouble
    exact hdouble
  have hS : At x2 (slopes.chord * (xd - x2) - yd) (P + P + T) := by
    rw [h.x2_eq]
    by_cases hx : xd = t.x
    · -- The chord is the tangent of the double.
      have hy : t.y = yd := by
        have hchord := h.chord
        rw [hx, sub_self, mul_zero] at hchord
        exact sub_eq_zero.mp hchord.symm
      rw [← hx, hy] at hT
      have hdefect := h.chordDefect_eq_zero ht hout
      rw [hT.unique hD, ← hx]
      refine hD.add_self_of_tangent htwo hyd ?_
      rw [chordDefect, ← hx] at hdefect
      linear_combination -hdefect
    · exact hD.add_of_chord hT hx h.chord
  have hsum := hD.add_of_chord hS (h.x2_ne htwo hyd) (l := -(slopes.chord + slopes.second)) (by
    linear_combination -h.second)
  have hx : -(slopes.chord + slopes.second) * -(slopes.chord + slopes.second) - xd - x2 = out.x := by
    rw [h.x_eq, h.x2_eq]
    ring
  have hy : -(slopes.chord + slopes.second) * (xd - out.x) - yd = out.y := by
    rw [h.y_eq]
    ring
  have hgroup : P + P + (P + P + T) = 4 • P + T := by abel
  rw [hx, hy, hgroup] at hsum
  exact hsum

theorem quadrupleAddChecked_at {T : (curve a b).Point} (hT : At t.x t.y T)
    (h : quadrupleAddChecked a slopes p t = some out) (hout : curveResidual a b out.x out.y = 0) :
    ∃ P : (curve a b).Point, At p.x p.y P ∧ At out.x out.y (4 • P + T) := by
  obtain ⟨xd, yd, x2, hstep⟩ := exists_fusedStep h
  exact hstep.at_out htwo hsmooth hT hout

omit htwo hsmooth in
theorem ladder_append (acc : CurvePoint F) (entries rest : List (Slopes F × CurvePoint F)) :
    ladder a acc (entries ++ rest) = ladder a acc entries >>= fun acc => ladder a acc rest :=
  List.foldlM_append

/-- The value of a ladder that starts at `P` and adds the entries `Ts`. -/
def ladderValue (P : (curve a b).Point) (Ts : List (curve a b).Point) : (curve a b).Point :=
  Ts.foldl (fun acc T => 4 • acc + T) P

theorem ladder_at {entries : List (Slopes F × CurvePoint F)} {Ts : List (curve a b).Point}
    (hentries : List.Forall₂ (fun entry T => At entry.2.x entry.2.y T) entries Ts) {acc : CurvePoint F}
    (h : ladder a acc entries = some out) (hout : curveResidual a b out.x out.y = 0) :
    ∃ P : (curve a b).Point, At acc.x acc.y P ∧ At out.x out.y (ladderValue P Ts) := by
  induction hentries generalizing acc with
  | nil =>
      obtain rfl := Option.some.inj h
      obtain ⟨P, hP⟩ := (exists_at_iff htwo hsmooth).mpr hout
      exact ⟨P, hP, hP⟩
  | @cons entry T entries Ts hT _ ih =>
      obtain ⟨next, hnext, h⟩ := of_bind_some (List.foldlM_cons.symm.trans h)
      obtain ⟨N, hN, hvalue⟩ := ih h
      obtain ⟨P, hP, hstep⟩ := quadrupleAddChecked_at htwo hsmooth hT hnext hN.curveResidual_eq_zero
      refine ⟨P, hP, ?_⟩
      rw [hN.unique hstep] at hvalue
      exact hvalue

theorem ladder_take_at {entries : List (Slopes F × CurvePoint F)} {Ts : List (curve a b).Point}
    (hentries : List.Forall₂ (fun entry T => At entry.2.x entry.2.y T) entries Ts) {acc : CurvePoint F}
    (h : ladder a acc entries = some out) (hout : curveResidual a b out.x out.y = 0) {P : (curve a b).Point}
    (hP : At acc.x acc.y P) (k : Nat) :
    ∃ next, ladder a acc (entries.take k) = some next ∧ At next.x next.y (ladderValue P (Ts.take k)) := by
  rw [← List.take_append_drop k entries, ladder_append] at h
  obtain ⟨next, hnext, hrest⟩ := of_bind_some h
  obtain ⟨N, hN, -⟩ := ladder_at htwo hsmooth (List.forall₂_drop k hentries) hrest hout
  obtain ⟨P', hP', hvalue⟩ := ladder_at htwo hsmooth (List.forall₂_take k hentries) hnext hN.curveResidual_eq_zero
  rw [hP'.unique hP] at hvalue
  exact ⟨next, hnext, hvalue⟩

end Group

/-! ### The guard on integers -/

theorem assertSlopeGuard_of_native {p maximum : Nat} [Fact p.Prime] {lambda mu : ℤ} (hbound : SlopeBound p maximum)
    (hlambda : |lambda| ≤ maximum) (hmu : |mu| ≤ maximum) (h : assertNativeSlopeGuard p lambda mu = some ()) :
    assertSlopeGuard (lambda : ZMod p) (mu : ZMod p) = some () := by
  have hnative := assertIsDifferent_eq_some.mp h
  have hprod : mu * (mu + lambda * 2) * ((mu + lambda * 2) * (mu + lambda * 2) - p * p) ≠ 0 := by
    intro hzero
    refine hnative ?_
    have hcast := congrArg (Int.cast : ℤ → Fr) hzero
    push_cast at hcast ⊢
    exact hcast
  obtain ⟨hmaximum, hthree⟩ := hbound
  obtain ⟨hlow, hhigh⟩ := abs_le.mp hmu
  obtain ⟨hlow', hhigh'⟩ := abs_le.mp hlambda
  rw [assertSlopeGuard_eq_some]
  refine mul_ne_zero ?_ ?_
  · intro hzero
    have hdvd := (ZMod.intCast_zmod_eq_zero_iff_dvd mu p).mp hzero
    have hmuZero : mu = 0 := Int.eq_zero_of_abs_lt_dvd hdvd (by omega)
    exact hprod (by rw [hmuZero]; ring)
  · intro hzero
    have hcast : ((mu + 2 * lambda : ℤ) : ZMod p) = 0 := by
      push_cast
      exact hzero
    obtain ⟨k, hk⟩ := (ZMod.intCast_zmod_eq_zero_iff_dvd _ p).mp hcast
    have hsum : mu + lambda * 2 = p * k := by rw [← hk]; ring
    -- Below `2 p` a multiple of `p` is zero or one of `p` and `-p`.
    have hlt : -2 < k ∧ k < 2 := by
      constructor <;> nlinarith
    refine hprod ?_
    rw [hsum]
    obtain rfl | rfl | rfl : k = -1 ∨ k = 0 ∨ k = 1 := by omega
    all_goals ring

end Circuits.Crypto

/-- A fused ladder fixes every slope: an output on the curve has the accumulator on it too and is `4 P + T`, whether or
not the double of `P` is `T`, and the end of a ladder pins every accumulator before it. The order of `P` does not
matter. -/
theorem fused_ladder_fixes_slopes {F : Type} [Field F] [DecidableEq F] {a b : F} (htwo : (2 : F) ≠ 0)
    (hsmooth : Smooth a b) :
    (∀ (slopes : Slopes F) (p t out : CurvePoint F), curveResidual a b t.x t.y = 0 →
      quadrupleAddChecked a slopes p t = some out ∨ quadrupleAndAddLazy a slopes p t = some out →
      curveResidual a b out.x out.y = 0 →
      curveResidual a b p.x p.y = 0 ∧ ∀ P T : (curve a b).Point, At p.x p.y P → At t.x t.y T →
        At out.x out.y (4 • P + T)) ∧
    (∀ (acc out : CurvePoint F) (entries : List (Slopes F × CurvePoint F)) (Ts : List (curve a b).Point),
      List.Forall₂ (fun entry T => At entry.2.x entry.2.y T) entries Ts → ladder a acc entries = some out →
      curveResidual a b out.x out.y = 0 →
      ∃ P : (curve a b).Point, At acc.x acc.y P ∧
        ∀ k, ∃ next, ladder a acc (entries.take k) = some next ∧ At next.x next.y (ladderValue P (Ts.take k))) ∧
    ∀ (p maximum : Nat) (lambda mu : ℤ), p.Prime → SlopeBound p maximum → |lambda| ≤ maximum → |mu| ≤ maximum →
      assertNativeSlopeGuard p lambda mu = some () → ((mu : ZMod p) * (mu + 2 * lambda)) ≠ 0 := by
  refine ⟨?_, ?_, ?_⟩
  · intro slopes p t out ht hstep hout
    have hchecked : quadrupleAddChecked a slopes p t = some out := by
      rcases hstep with hstep | hstep
      · exact hstep
      · rw [← quadrupleAndAddLazy_eq]
        exact hstep
    obtain ⟨T, hT⟩ := (exists_at_iff htwo hsmooth).mpr ht
    obtain ⟨P, hP, hvalue⟩ := quadrupleAddChecked_at htwo hsmooth hT hchecked hout
    refine ⟨hP.curveResidual_eq_zero, ?_⟩
    intro P' T' hP' hT'
    rw [hP'.unique hP, hT'.unique hT]
    exact hvalue
  · intro acc out entries Ts hentries hladder hout
    obtain ⟨P, hP, -⟩ := ladder_at htwo hsmooth hentries hladder hout
    exact ⟨P, hP, ladder_take_at htwo hsmooth hentries hladder hout hP⟩
  · intro p maximum lambda mu hprime hbound hlambda hmu hguard
    have : Fact p.Prime := ⟨hprime⟩
    exact assertSlopeGuard_eq_some.mp (assertSlopeGuard_of_native hbound hlambda hmu hguard)

instance factPrimeSeven : Fact (Nat.Prime 7) := ⟨by norm_num⟩

/-- A step in which the double of the accumulator is the entry. -/
theorem fused_ladder_fixes_slopes_coincident :
    ∃ P : (curve (0 : ZMod 7) 3).Point, At 1 2 P ∧ At 6 3 (P + P) ∧ At 5 3 (4 • P + (P + P)) := by
  have htwo : (2 : ZMod 7) ≠ 0 := by decide
  have hsmooth : Smooth (0 : ZMod 7) 3 := by
    unfold Smooth
    decide
  obtain ⟨P, hP⟩ := (@exists_at_iff (ZMod 7) _ 0 3 1 2 htwo hsmooth).mpr (by decide)
  have hdouble : At (6 * 6 - 1 - 1) (6 * (1 - (6 * 6 - 1 - 1)) - 2) (P + P) :=
    hP.add_self_of_tangent htwo (by decide) (by decide)
  refine ⟨P, hP, hdouble, ?_⟩
  exact ((fused_ladder_fixes_slopes htwo hsmooth).1 ⟨6, 4, 4⟩ ⟨1, 2⟩ ⟨6, 3⟩ ⟨5, 3⟩ (by decide) (.inl (by decide))
    (by decide)).2 P (P + P) hP hdouble

end Zolana
