import Mathlib.Tactic

/-!
# A cyclic history

A fixed number of slots written in turn holds the last entries of an unbounded log. `Holds` says which
entry is where, and two operations keep it: writing the slot after the last one adds an entry, writing
the last slot again replaces the last entry. A history may store the index of the last entry or of the next.
-/

namespace Ring

variable {α : Type} {N : Nat}

/-- Entry `i` of the log is at slot `i % N` until entry `i + N` overwrites it. -/
def Recent (slots : Vector α N) (log : List α) : Prop :=
  ∀ i, i < log.length → log.length ≤ i + N → slots[i % N]? = log[i]?

/-- The slots hold the recent entries, and a slot no entry has reached is blank. -/
structure Holds (blank : α) (slots : Vector α N) (log : List α) : Prop where
  recent : Recent slots log
  unwritten : ∀ j, j < N → log.length ≤ j → slots[j]? = some blank

structure Writes (slots slots' : Vector α N) (j : Nat) (x : α) : Prop where
  written : slots'[j]? = some x
  kept : ∀ k, j ≠ k → slots'[k]? = slots[k]?

variable {j : Nat} {slots slots' : Vector α N} {log : List α} {x : α}

theorem Writes.set (slots : Vector α N) (hj : j < N) (x : α) : Writes slots (slots.set j x) j x := by
  constructor
  · exact Vector.getElem?_set_self hj
  · intro k hne
    exact Vector.getElem?_set_ne hj hne

theorem Writes.setIfInBounds (slots : Vector α N) (hj : j < N) (x : α) :
    Writes slots (slots.setIfInBounds j x) j x := by
  constructor
  · exact Vector.getElem?_setIfInBounds_self_of_lt hj
  · intro k hne
    exact Vector.getElem?_setIfInBounds_ne hne

theorem mod_ne_mod {i : Nat} (hlt : i < j) (hwindow : j < i + N) : i % N ≠ j % N := by
  intro heq
  have hdvd : N ∣ j - i := (Nat.modEq_iff_dvd' hlt.le).mp heq
  have := Nat.le_of_dvd (by omega) hdvd
  omega

theorem next_slot {n : Nat} (hN : 0 < N) (hmore : n % N + 1 ≠ N) : (n + 1) % N = n % N + 1 := by
  have hlt := Nat.mod_lt n hN
  rw [← Nat.mod_add_mod]
  exact Nat.mod_eq_of_lt (by omega)

theorem previous_slot (n : Nat) (hN : 0 < N) : ((n + 1) % N + N - 1) % N = n % N := by
  rw [Nat.add_sub_assoc hN, Nat.mod_add_mod, show n + 1 + (N - 1) = n + N by omega,
    Nat.add_mod_right]

theorem Holds.nil (blank : α) : Holds blank (Vector.replicate N blank) [] := by
  constructor
  · intro i hi
    simp at hi
  · intro j hj _
    simp [hj]

theorem Recent.write {log' : List α} (h : Recent slots (log ++ log')) (hlog' : log'.length ≤ 1)
    (hwrites : Writes slots slots' (log.length % N) x) : Recent slots' (log ++ [x]) := by
  intro i hi hwindow
  rw [List.length_append, List.length_singleton] at hi hwindow
  by_cases hlast : i = log.length
  · rw [hlast, hwrites.written, List.getElem?_concat_length]
  · have hold : i < log.length := by omega
    have hne : log.length % N ≠ i % N := (mod_ne_mod hold (by omega)).symm
    rw [hwrites.kept _ hne, List.getElem?_append_left hold, ← List.getElem?_append_left hold]
    exact h i (by rw [List.length_append]; omega) (by rw [List.length_append]; omega)

theorem Recent.push (h : Recent slots log) (hwrites : Writes slots slots' (log.length % N) x) :
    Recent slots' (log ++ [x]) := by
  rw [← List.append_nil log] at h
  exact h.write (by simp) hwrites

theorem Recent.replace {y : α} (h : Recent slots (log ++ [y]))
    (hwrites : Writes slots slots' (log.length % N) x) : Recent slots' (log ++ [x]) :=
  h.write (by simp) hwrites

theorem Holds.push {blank : α} (h : Holds blank slots log) (x : α) (hslot : log.length % N < N) :
    Holds blank (slots.set (log.length % N) x) (log ++ [x]) := by
  constructor
  · exact h.recent.push (Writes.set slots hslot x)
  · intro j hj hlen
    rw [List.length_append, List.length_singleton] at hlen
    have hne : log.length % N ≠ j := by
      have := Nat.mod_le log.length N
      omega
    rw [Vector.getElem?_set_ne hslot hne]
    exact h.unwritten j hj (by omega)

theorem exists_entry {length : Nat} (hj : j < N) (hwritten : j < length) :
    ∃ i, i < length ∧ length ≤ i + N ∧ i % N = j := by
  have hdiv := Nat.div_add_mod (length - 1 - j) N
  have hmod := Nat.mod_lt (length - 1 - j) (Nat.zero_lt_of_lt hj)
  refine ⟨j + N * ((length - 1 - j) / N), by omega, by omega, ?_⟩
  rw [Nat.add_mul_mod_self_left, Nat.mod_eq_of_lt hj]

/-- A slot some entry has reached holds one of the last `N` entries, and each of them is in a slot. -/
theorem Recent.mem_slots (h : Recent slots log) : (∃ j, j < log.length ∧ slots[j]? = some x) ↔
      ∃ i, i < log.length ∧ log.length ≤ i + N ∧ log[i]? = some x := by
  constructor
  · rintro ⟨j, hwritten, hx⟩
    have hj : j < N := by
      by_contra hge
      rw [Vector.getElem?_eq_none (by omega)] at hx
      exact absurd hx (by simp)
    obtain ⟨i, hi, hwindow, hmod⟩ := exists_entry hj hwritten
    refine ⟨i, hi, hwindow, ?_⟩
    rw [← h i hi hwindow, hmod, hx]
  · rintro ⟨i, hi, hwindow, hx⟩
    refine ⟨i % N, ?_, ?_⟩
    · exact (Nat.mod_le i N).trans_lt hi
    · rw [h i hi hwindow, hx]

theorem mem_last_iff :
    x ∈ log.drop (log.length - N) ↔ ∃ i, i < log.length ∧ log.length ≤ i + N ∧ log[i]? = some x := by
  rw [List.mem_iff_getElem?]
  constructor
  · rintro ⟨i, hi⟩
    rw [List.getElem?_drop] at hi
    have hlt := (List.getElem?_eq_some_iff.mp hi).1
    exact ⟨_, hlt, by omega, hi⟩
  · rintro ⟨i, hlt, hwindow, hi⟩
    refine ⟨i - (log.length - N), ?_⟩
    rw [List.getElem?_drop, Nat.add_sub_cancel' (by omega), hi]

/-- Every slot is either blank or one of the last `N` entries. -/
theorem Holds.slot_cases {blank : α} (h : Holds blank slots log) (hx : slots[j]? = some x) :
    (∃ i, i < log.length ∧ log.length ≤ i + N ∧ log[i]? = some x) ∨ x = blank := by
  by_cases hwritten : j < log.length
  · exact .inl (h.recent.mem_slots.mp ⟨j, hwritten, hx⟩)
  · right
    have hj : j < N := by
      by_contra hge
      rw [Vector.getElem?_eq_none (by omega)] at hx
      exact absurd hx (by simp)
    have hblank := h.unwritten j hj (by omega)
    rw [hx] at hblank
    exact Option.some.inj hblank

end Ring
