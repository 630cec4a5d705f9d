import Mathlib.Data.List.Forall2
import Zolana.Lib.Fallible

/-!
# Loops of results

A loop that returns the first error succeeds when every step does. What a loop collects is what its steps give, one
for each element.
-/

namespace Fallible

variable {ε ε' α β : Type}

variable {result : Except ε α} {e : ε} {items : List α}

theorem mapError_eq_ok {wrap : ε → ε'} {a : α} : result.mapError wrap = .ok a ↔ result = .ok a := by
  cases result <;> simp [Except.mapError]

theorem bind_of_eq_ok {next : α → Except ε β} {a : α} (h : result = .ok a) : result >>= next = next a := by
  rw [h]
  rfl

theorem bind_of_eq_error {next : α → Except ε β} (h : result = .error e) : result >>= next = .error e := by
  rw [h]
  rfl

theorem forM_eq_ok_iff {check : α → Except ε Unit} :
    items.forM check = .ok () ↔ ∀ item ∈ items, check item = .ok () := by
  induction items with
  | nil => simp [pure, Except.pure]
  | cons item items ih =>
      change (check item >>= fun _ => items.forM check) = _ ↔ _
      rw [bind_eq_ok_iff, List.forall_mem_cons]
      constructor
      · rintro ⟨_, hitem, hitems⟩
        exact ⟨hitem, ih.mp hitems⟩
      · rintro ⟨hitem, hitems⟩
        exact ⟨(), hitem, ih.mpr hitems⟩

/-- The error of a loop is the error of one of its steps. -/
theorem exists_of_forM_eq_error {check : α → Except ε Unit} (h : items.forM check = .error e) :
    ∃ item ∈ items, check item = .error e := by
  induction items with
  | nil => cases h
  | cons item items ih =>
      change (check item >>= fun _ => items.forM check) = _ at h
      cases hitem : check item with
      | error e' =>
          rw [hitem] at h
          cases h
          exact ⟨item, List.mem_cons_self .., hitem⟩
      | ok u =>
          rw [hitem] at h
          obtain ⟨found, hmem, hfound⟩ := ih h
          exact ⟨found, List.mem_cons_of_mem _ hmem, hfound⟩

theorem mapM_eq_ok_iff {f : α → Except ε β} {results : List β} :
    items.mapM f = .ok results ↔ List.Forall₂ (fun item result => f item = .ok result) items results := by
  induction items generalizing results with
  | nil =>
      rw [List.mapM_nil, List.forall₂_nil_left_iff]
      exact ⟨fun h => (Except.ok.inj h).symm, fun h => congrArg Except.ok h.symm⟩
  | cons item items ih =>
      rw [List.mapM_cons, bind_eq_ok_iff, List.forall₂_cons_left_iff]
      constructor
      · rintro ⟨result, hitem, h⟩
        obtain ⟨results', hitems, h⟩ := of_bind_ok h
        exact ⟨result, results', hitem, ih.mp hitems, (Except.ok.inj h).symm⟩
      · rintro ⟨result, results', hitem, hitems, rfl⟩
        exact ⟨result, hitem, bind_eq_ok_iff.mpr ⟨results', ih.mpr hitems, rfl⟩⟩

end Fallible
