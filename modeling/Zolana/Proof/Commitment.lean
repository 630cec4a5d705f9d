import Zolana.Proof.Cascade

/-!
# What the roots of a run commit to

`commits` is any reading of roots as sets of values under which the batch proofs of the run are sound. Then
the root after `n` applied ZKP batches commits the first `n * Z` queued values. One queue batch fills the
root history, so the roots still accepted come after the start of the last complete queue batch, where the
close watermark is.
-/

namespace Zolana

open NullifierTreeLayout

variable {K Z : Nat} {env : Env} {run : Run K} {commits : Bytes32 → Set Bytes32}

/-- The batch proofs submitted in a run are sound: one accepted for a ZKP batch of its queue proves that
the new root commits exactly what the old one commits and the values of the ZKP batch. -/
def Run.BatchProofsSound (env : Env) (Z : Nat) (commits : Bytes32 → Set Bytes32) (run : Run K) : Prop :=
  ∀ data ∈ run.submitted, ∀ n, n * Z + Z ≤ run.queued.length →
    env.Accepts data.oldRoot data.newRoot (queueWindow run.queued (n * Z) Z) (n * Z + 1) data.proof →
    commits data.newRoot = commits data.oldRoot ∪ {value | value ∈ queueWindow run.queued (n * Z) Z}

/-! ### The watermark -/

theorem watermark_le (K Z n : Nat) : watermark K Z n ≤ n * Z + 1 := by
  unfold watermark
  split
  case isTrue => exact Nat.zero_le _
  case isFalse =>
    have hdiv : n / K * K ≤ n := Nat.div_mul_le_self n K
    calc (n / K - 1) * (K * Z) + 1 ≤ n / K * (K * Z) + 1 :=
          Nat.succ_le_succ (Nat.mul_le_mul_right _ (Nat.sub_le _ _))
      _ = n / K * K * Z + 1 := by rw [Nat.mul_assoc]
      _ ≤ n * Z + 1 := Nat.succ_le_succ (Nat.mul_le_mul_right Z hdiv)

theorem watermark_mono (K Z : Nat) {m n : Nat} (h : m ≤ n) : watermark K Z m ≤ watermark K Z n := by
  unfold watermark
  split
  case isTrue => exact Nat.zero_le _
  case isFalse hm =>
    rw [if_neg (by omega)]
    have hdiv : m / K ≤ n / K := Nat.div_le_div_right h
    exact Nat.succ_le_succ (Nat.mul_le_mul_right _ (by omega))

theorem lt_of_lt_watermark {n i p : Nat} (hK : 0 < K) (hp : p + 1 < watermark K Z n)
    (hi : n + 1 ≤ i + K) : p < i * Z := by
  unfold watermark at hp
  split at hp
  case isTrue => omega
  case isFalse hn =>
    have hq : 1 ≤ n / K := (Nat.one_le_div_iff hK).mpr (by omega)
    have hdiv : n / K * K ≤ n := Nat.div_mul_le_self n K
    have hmul : (n / K - 1) * K + K = n / K * K := by
      rw [← Nat.succ_mul]
      congr 1
      omega
    calc p < (n / K - 1) * (K * Z) := by omega
      _ = (n / K - 1) * K * Z := by rw [Nat.mul_assoc]
      _ ≤ i * Z := Nat.mul_le_mul_right Z (by omega)

/-! ### Roots -/

theorem mem_queueWindow {queued : List Bytes32} {start count p : Nat} {value : Bytes32}
    (hp : queued[p]? = some value) (hlo : start ≤ p) (hhi : p < start + count) :
    value ∈ queueWindow queued start count := by
  refine List.mem_of_getElem? (i := p - start) ?_
  rw [queueWindow, List.getElem?_take_of_lt (by omega), List.getElem?_drop]
  rw [show start + (p - start) = p by omega, hp]

namespace Consistent

theorem commits_of_lt (h : Consistent env Z run) (hsound : run.BatchProofsSound env Z commits)
    {i : Nat} {root : Bytes32} (hroot : (rootLog run.applied)[i]? = some root) {p : Nat}
    {value : Bytes32} (hp : p < i * Z) (hvalue : run.queued[p]? = some value) : value ∈ commits root := by
  induction i generalizing root with
  | zero => omega
  | succ i ih =>
      rw [rootLog, List.getElem?_cons_succ, List.getElem?_map] at hroot
      obtain ⟨update, hupdate, rfl⟩ := Option.map_eq_some_iff.mp hroot
      have hat := h.log i update hupdate
      obtain ⟨data, hmem, holdRoot, hnewRoot, _, haccepts⟩ := hat.verified
      rw [← holdRoot, ← hnewRoot] at haccepts
      rw [← hnewRoot, hsound data hmem i hat.window_le haccepts, holdRoot]
      rw [Nat.succ_mul] at hp
      by_cases hold : p < i * Z
      · exact .inl (ih hat.oldRoot hold)
      · exact .inr (mem_queueWindow hvalue (by omega) hp)

theorem commits_of_rootByIndex (h : Consistent env Z run)
    (hsound : run.BatchProofsSound env Z commits) {index : UInt16} {root : Bytes32}
    (hroot : run.tree.rootByIndex index = some root) {p : Nat} {value : Bytes32}
    (hp : p + 1 < run.tree.closeBeforeIndex) (hvalue : run.queued[p]? = some value) : value ∈ commits root := by
  unfold rootByIndex at hroot
  split at hroot
  case h_1 => exact absurd hroot (by simp)
  case h_2 stored hstored =>
    split at hroot
    case isTrue => exact absurd hroot (by simp)
    case isFalse hne =>
      obtain rfl := Option.some.inj hroot
      rcases h.roots.slot_cases hstored with ⟨i, hi, hwindow, hlog⟩ | hblank
      · rw [length_rootLog] at hwindow
        rw [h.closeBeforeIndex] at hp
        exact h.commits_of_lt hsound hlog (lt_of_lt_watermark h.K_pos hp hwindow) hvalue
      · exact absurd hblank hne

end Consistent

theorem Run.applied_le_call (run : Run K) (call : Call) :
    run.applied.length ≤ (run.call env call).applied.length := by
  cases call with
  | insert nullifier =>
      unfold Run.call
      dsimp only
      split <;> exact Nat.le_refl _
  | update merkleTreePubkey data =>
      unfold Run.call
      dsimp only
      split
      · rw [List.length_append]
        exact Nat.le_add_right _ _
      · exact Nat.le_refl _

end Zolana
