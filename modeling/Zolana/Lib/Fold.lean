import Zolana.Lib.Fallible

/-!
# Chains of fallible steps

A chain takes up one element after another, and a step may fail. When a step determines what went into
it, a chain over a known number of elements determines them. When the chains over blanks are tabled, the
blanks that a chain would take up first can be skipped.
-/

namespace Fold

open Fallible

variable {ε α β : Type} {step : α → β → Except ε β}

/-- Takes up the elements in order. -/
def absorb (step : α → β → Except ε β) (chain : β) : List α → Except ε β
  | [] => .ok chain
  | a :: rest => do
    let next ← step a chain
    absorb step next rest

variable {chain result : β} {elements elements' : List α} {blank : α} {table : List β} {count : Nat}

theorem absorb_append {first second : List α} : absorb step chain (first ++ second)
      = (absorb step chain first >>= fun middle => absorb step middle second) := by
  induction first generalizing chain with
  | nil => rfl
  | cons a first ih =>
      rw [List.cons_append, absorb, absorb]
      cases step a chain with
      | error e => rfl
      | ok next => exact ih

/-- A step determines the element and the chain before it. -/
def Injective (step : α → β → Except ε β) : Prop :=
  ∀ a a' chain chain' next, step a chain = .ok next → step a' chain' = .ok next → a = a' ∧ chain = chain'

theorem absorb_inj (hstep : Injective step) {chain' : β}
    (hlength : elements.length = elements'.length) (h : absorb step chain elements = .ok result)
    (h' : absorb step chain' elements' = .ok result) : chain = chain' ∧ elements = elements' := by
  induction elements generalizing chain chain' elements' with
  | nil =>
      obtain rfl := List.length_eq_zero_iff.mp hlength.symm
      cases h
      cases h'
      exact ⟨rfl, rfl⟩
  | cons a elements ih =>
      cases elements' with
      | nil => cases hlength
      | cons a' elements' =>
          obtain ⟨next, hnext, hrest⟩ := of_bind_ok h
          obtain ⟨next', hnext', hrest'⟩ := of_bind_ok h'
          obtain ⟨rfl, rfl⟩ := ih (Nat.succ.inj hlength) hrest hrest'
          obtain ⟨rfl, rfl⟩ := hstep _ _ _ _ _ hnext hnext'
          exact ⟨rfl, rfl⟩

/-- A chain that starts from the last element and takes up the leading ones, nearest first. -/
def fromRight (chainOf : α → List α → Except ε β) (empty : Except ε β) (elements : List α) : Except ε β :=
  match elements.reverse with
  | [] => empty
  | last :: leading => chainOf last leading

theorem fromRight_inj {chainOf : α → List α → Except ε β} {empty : Except ε β}
    (hchain : ∀ last last' leading leading', leading.length = leading'.length →
      chainOf last leading = .ok result → chainOf last' leading' = .ok result →
      last = last' ∧ leading = leading')
    (hlength : elements.length = elements'.length) (h : fromRight chainOf empty elements = .ok result)
    (h' : fromRight chainOf empty elements' = .ok result) : elements = elements' := by
  apply List.reverse_injective
  rw [← List.length_reverse, ← elements'.length_reverse] at hlength
  unfold fromRight at h h'
  cases hleft : elements.reverse with
  | nil =>
      rw [hleft] at hlength
      exact (List.length_eq_zero_iff.mp hlength.symm).symm
  | cons last leading =>
      rw [hleft] at hlength h
      cases hright : elements'.reverse with
      | nil =>
          rw [hright] at hlength
          cases hlength
      | cons last' leading' =>
          rw [hright] at hlength h'
          obtain ⟨rfl, rfl⟩ := hchain _ _ _ _ (Nat.succ.inj hlength) h h'
          rfl

/-- Each entry of the table is the chain over one more blank. -/
def Tabled (step : α → β → Except ε β) (blank : α) (table : List β) : Prop :=
  ∀ k chain next, table[k]? = some chain → table[k + 1]? = some next → step blank chain = .ok next

theorem tabled_of_zip [DecidableEq (Except ε β)]
    (h : (table.zip table.tail).all (fun entry => decide (step blank entry.1 = .ok entry.2)) = true) :
    Tabled step blank table := by
  intro k chain next hchain hnext
  have hmem : (chain, next) ∈ table.zip table.tail := by
    refine List.mem_iff_getElem?.mpr ⟨k, ?_⟩
    rw [List.getElem?_zip_eq_some, List.getElem?_tail]
    exact ⟨hchain, hnext⟩
  exact of_decide_eq_true (List.all_eq_true.mp h _ hmem)

theorem absorb_replicate (htable : Tabled step blank table) {k : Nat}
    (hchain : table[k]? = some chain) (hresult : table[k + count]? = some result) :
    absorb step chain (List.replicate count blank) = .ok result := by
  induction count generalizing k chain with
  | zero =>
      rw [Nat.add_zero, hchain] at hresult
      cases hresult
      rfl
  | succ count ih =>
      have hlt : k + 1 < table.length := by
        have := (List.getElem?_eq_some_iff.mp hresult).1
        omega
      have hnext : table[k + 1]? = some table[k + 1] := List.getElem?_eq_getElem hlt
      rw [List.replicate_succ, absorb, htable k chain _ hchain hnext]
      exact ih hnext (by rwa [Nat.add_assoc, Nat.add_comm 1])

theorem absorb_replicate_first (htable : Tabled step blank table) {first : β}
    (hfirst : table[0]? = some first) (hcount : count < table.length) :
    absorb step first (List.replicate count blank) = .ok table[count] := by
  apply absorb_replicate htable hfirst
  rw [Nat.zero_add]
  exact List.getElem?_eq_getElem hcount

theorem append_replicate_inj {count' : Nat} (hblank : blank ∉ elements) (hblank' : blank ∉ elements')
    (h : elements ++ List.replicate count blank = elements' ++ List.replicate count' blank) :
    elements = elements' := by
  induction elements generalizing elements' with
  | nil =>
      cases elements' with
      | nil => rfl
      | cons a' elements' =>
          have hmem : a' ∈ List.replicate count blank := by
            rw [List.nil_append] at h
            rw [h]
            simp
          exact absurd (List.eq_of_mem_replicate hmem ▸ List.mem_cons_self) hblank'
  | cons a elements ih =>
      cases elements' with
      | nil =>
          have hmem : a ∈ List.replicate count' blank := by
            rw [List.nil_append] at h
            rw [← h]
            simp
          exact absurd (List.eq_of_mem_replicate hmem ▸ List.mem_cons_self) hblank
      | cons a' elements' =>
          obtain ⟨rfl, hrest⟩ := List.cons.inj h
          rw [ih (List.not_mem_of_not_mem_cons hblank) (List.not_mem_of_not_mem_cons hblank') hrest]

end Fold
