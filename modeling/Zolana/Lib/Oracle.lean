import Mathlib.Data.List.Basic
import Mathlib.Data.List.Nodup

/-!
# Oracles that answered finitely many questions

A hash that was asked finitely often is known on those questions only. What is assumed of it, that no two
questions have one answer, can then be checked in the log of the answers.
-/

namespace Oracle

variable {ε α β γ : Type} [DecidableEq α]

/-- The logged answer, if the question was asked. -/
def logged (log : List (α × β)) (question : α) : Option β := log.lookup question

/-- The logged answer, or an error for a question that was never asked. -/
def answer (log : List (α × β)) (unasked : ε) (question : α) : Except ε β :=
  match log.lookup question with
  | some reply => .ok reply
  | none => .error unasked

variable {log : List (α × β)} {unasked : ε} {question question' : α} {reply reply' : β}

theorem mem_of_logged (h : logged log question = some reply) : (question, reply) ∈ log := by
  obtain ⟨before, after, rfl, _⟩ := List.lookup_eq_some_iff.mp h
  simp

theorem mem_of_answer (h : answer log unasked question = .ok reply) : (question, reply) ∈ log := by
  unfold answer at h
  split at h
  case h_1 found hfound =>
    cases h
    exact mem_of_logged hfound
  case h_2 => cases h

theorem answer_of_logged (h : logged log question = some reply) : answer log unasked question = .ok reply := by
  unfold logged at h
  rw [answer, h]

theorem answer_append (extra : List (α × β)) (h : answer log unasked question = .ok reply) :
    answer (log ++ extra) unasked question = .ok reply := by
  unfold answer at h ⊢
  split at h
  case h_1 found hfound =>
    rw [List.lookup_append, hfound]
    exact h
  case h_2 => cases h

theorem answer_inj (part : β → γ) (hnodup : (log.map fun entry => part entry.2).Nodup)
    (h : answer log unasked question = .ok reply) (h' : answer log unasked question' = .ok reply')
    (heq : part reply = part reply') : question = question' :=
  congrArg Prod.fst (List.inj_on_of_nodup_map hnodup (mem_of_answer h) (mem_of_answer h') heq)

end Oracle
