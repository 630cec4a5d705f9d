import Mathlib.Tactic

/-!
# Chunks of a list

`List.toChunks` keeps two accumulators. A list that begins with a whole chunk splits behind it.
-/

namespace Chunks

open List

variable {α : Type} {n : Nat}

theorem go_eq_append (elements : List α) (chunk : Array α) (chunks : Array (List α)) :
    toChunks.go n elements chunk chunks = chunks.toList ++ toChunks.go n elements chunk #[] := by
  induction elements generalizing chunk chunks with
  | nil => simp [toChunks.go]
  | cons a elements ih =>
      rw [toChunks.go, toChunks.go]
      split
      · rw [ih _ (chunks.push _), ih _ (#[].push _)]
        simp
      · exact ih _ chunks

theorem go_append (elements rest : List α) (chunk : Array α) (h : chunk.size + elements.length ≤ n) :
    toChunks.go n (elements ++ rest) chunk #[] = toChunks.go n rest (chunk ++ elements) #[] := by
  induction elements generalizing chunk with
  | nil => simp
  | cons a elements ih =>
      rw [length_cons] at h
      have hroom : ¬(chunk.size == n) = true := by
        rw [beq_iff_eq]
        omega
      rw [cons_append, toChunks.go, if_neg hroom, ih (chunk.push a) (by rw [Array.size_push]; omega)]
      simp

theorem toChunks_cons (hn : 0 < n) (a : α) (rest : List α) :
    (a :: rest).toChunks n = toChunks.go n rest #[a] #[] := by
  cases n with
  | zero => cases hn
  | succ n => rfl

theorem toChunks_of_length_le {elements : List α} (hne : elements ≠ []) (h : elements.length ≤ n) :
    elements.toChunks n = [elements] := by
  cases elements with
  | nil => exact absurd rfl hne
  | cons a elements =>
      rw [length_cons] at h
      have hgo := go_append elements [] #[a] (n := n) (by simpa [Nat.add_comm] using h)
      rw [append_nil] at hgo
      rw [toChunks_cons (by omega), hgo]
      simp [toChunks.go]

theorem toChunks_append {chunk : List α} (hn : 0 < n) (h : chunk.length = n) (rest : List α) :
    (chunk ++ rest).toChunks n = chunk :: rest.toChunks n := by
  cases rest with
  | nil =>
      have hne : chunk ≠ [] := by
        rintro rfl
        rw [length_nil] at h
        omega
      rw [append_nil, toChunks_of_length_le hne h.le]
      rfl
  | cons b rest =>
      cases chunk with
      | nil =>
          rw [length_nil] at h
          omega
      | cons a chunk =>
          rw [length_cons] at h
          rw [cons_append, toChunks_cons hn, toChunks_cons hn,
            go_append chunk (b :: rest) #[a] (by simp; omega), toChunks.go, if_pos (by simp; omega),
            go_eq_append]
          simp

end Chunks
