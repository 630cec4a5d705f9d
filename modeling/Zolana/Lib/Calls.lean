import Mathlib.Tactic

/-!
# Call trees and their logs

A call tree is logged flat: every call in the order the calls start, each at its depth. The caller of a
logged call is the last entry before it that is one level up, whatever the callers of the tree are.
-/

namespace Zolana

/-- The calls one caller makes, in order, each with the calls it makes itself. -/
inductive Calls (α : Type) where
  | done
  | call (callee : α) (inner later : Calls α)

/-- One call of a tree. The depth is the caller's. -/
structure Invocation (α : Type) where
  caller : α
  depth : Nat
  callee : α

namespace Calls

variable {α β : Type}

/-- The calls of a tree in the order they start. -/
def invocations (caller : α) (depth : Nat) : Calls α → List (Invocation α)
  | done => []
  | call callee inner later =>
      ⟨caller, depth, callee⟩ ::
        (inner.invocations callee (depth + 1) ++ later.invocations caller depth)

/-- The log of the calls a caller at `depth` makes. `place` writes one entry. -/
def log (place : Nat → α → β) (depth : Nat) : Calls α → List β
  | done => []
  | call callee inner later =>
      place (depth + 1) callee :: (inner.log place (depth + 1) ++ later.log place depth)

/-- The last entry at a height. -/
def nearest (height : β → Nat) (depth : Nat) (entries : List β) : Option β :=
  entries.reverse.find? (height · = depth)

/-- For each entry, the last one before it that is one level up. -/
def parents (height : β → Nat) (before : List β) : List β → List (Option β)
  | [] => []
  | entry :: entries =>
      nearest height (height entry - 1) before :: parents height (before ++ [entry]) entries

section Log

variable {place : Nat → α → β}

theorem map_callee_invocations (caller : α) (depth : Nat) (calls : Calls α) :
    (calls.invocations caller depth).map (fun call => place (call.depth + 1) call.callee) =
      calls.log place depth := by
  induction calls generalizing caller depth with
  | done => rfl
  | call callee inner later ihInner ihLater =>
      rw [invocations, log, List.map_cons, List.map_append, ihInner, ihLater]

theorem getElem?_log (caller : α) (depth : Nat) (calls : Calls α) (i : Nat) : (calls.log place depth)[i]? =
      (calls.invocations caller depth)[i]?.map fun call => place (call.depth + 1) call.callee := by
  rw [← map_callee_invocations caller depth calls, List.getElem?_map]

end Log

variable {height : β → Nat}

theorem nearest_append_singleton (depth : Nat) (entries : List β) (entry : β) :
    nearest height depth (entries ++ [entry]) =
      if height entry = depth then some entry else nearest height depth entries := by
  unfold nearest
  rw [List.reverse_append, List.reverse_singleton, List.singleton_append, List.find?_cons]
  split
  case h_1 hentry => rw [if_pos (of_decide_eq_true hentry)]
  case h_2 hentry => rw [if_neg (of_decide_eq_false hentry)]

theorem nearest_append_of_lt {depth : Nat} {entries below : List β}
    (hbelow : ∀ entry ∈ below, depth < height entry) :
    nearest height depth (entries ++ below) = nearest height depth entries := by
  unfold nearest
  rw [List.reverse_append, List.find?_append, List.find?_eq_none.mpr, Option.none_or]
  intro entry hentry
  have hlt := hbelow entry (List.mem_reverse.mp hentry)
  simp only [decide_eq_true_eq]
  omega

theorem parents_append (before entries entries' : List β) : parents height before (entries ++ entries') =
      parents height before entries ++ parents height (before ++ entries) entries' := by
  induction entries generalizing before with
  | nil => rw [List.nil_append, parents, List.nil_append, List.append_nil]
  | cons entry entries ih =>
      rw [List.cons_append, parents, ih, parents, List.cons_append, List.append_assoc,
        List.singleton_append]

theorem getElem?_parents (before entries : List β) (i : Nat) : (parents height before entries)[i]? =
      entries[i]?.map fun entry => nearest height (height entry - 1) (before ++ entries.take i) := by
  induction entries generalizing before i with
  | nil => rfl
  | cons entry entries ih =>
      cases i with
      | zero => simp [parents]
      | succ i => simp [parents, ih]

variable {place : Nat → α → β} (hplace : ∀ depth callee, height (place depth callee) = depth)
include hplace

theorem lt_height_of_mem_log {depth : Nat} {calls : Calls α} {entry : β}
    (hentry : entry ∈ calls.log place depth) : depth < height entry := by
  induction calls generalizing depth with
  | done => cases hentry
  | call callee inner later ihInner ihLater =>
      rw [log, List.mem_cons, List.mem_append] at hentry
      rcases hentry with rfl | hinner | hlater
      · rw [hplace]
        omega
      · exact Nat.lt_of_succ_lt (ihInner hinner)
      · exact ihLater hlater

theorem parents_log {caller : α} {depth : Nat} {before : List β} (calls : Calls α)
    (hcaller : nearest height depth before = some (place depth caller)) :
    parents height before (calls.log place depth) =
      (calls.invocations caller depth).map fun call => some (place call.depth call.caller) := by
  induction calls generalizing caller depth before with
  | done => rfl
  | call callee inner later ihInner ihLater =>
      have hcallee : nearest height (depth + 1) (before ++ [place (depth + 1) callee]) =
          some (place (depth + 1) callee) := by
        rw [nearest_append_singleton, if_pos (hplace _ _)]
      -- The calls of the callee are all further down, so they leave the caller in sight.
      have hlater : nearest height depth
          (before ++ [place (depth + 1) callee] ++ inner.log place (depth + 1)) =
            some (place depth caller) := by
        rw [List.append_assoc, nearest_append_of_lt, hcaller]
        intro entry hentry
        rcases List.mem_append.mp hentry with hentry | hentry
        · rw [List.mem_singleton.mp hentry, hplace]
          omega
        · exact Nat.lt_of_succ_lt (lt_height_of_mem_log hplace hentry)
      rw [log, parents, parents_append, ihInner hcallee, ihLater hlater, hplace, Nat.add_sub_cancel,
        hcaller, invocations, List.map_cons, List.map_append]

theorem nearest_log {caller : α} {depth : Nat} {before : List β} (calls : Calls α)
    (hcaller : nearest height depth before = some (place depth caller)) (i : Nat) :
    ((calls.log place depth)[i]?.bind fun entry =>
        nearest height (height entry - 1) (before ++ (calls.log place depth).take i)) =
      (calls.invocations caller depth)[i]?.map fun call => place call.depth call.caller := by
  have hparent := congrArg (·[i]?) (parents_log hplace calls hcaller)
  rw [getElem?_parents, List.getElem?_map] at hparent
  cases hentry : (calls.log place depth)[i]? with
  | none =>
      rw [hentry, Option.map_none, eq_comm, Option.map_eq_none_iff] at hparent
      rw [hparent]
      rfl
  | some entry =>
      rw [hentry, Option.map_some, eq_comm, Option.map_eq_some_iff] at hparent
      obtain ⟨call, hcall, hnearest⟩ := hparent
      rw [hcall, Option.bind_some, ← hnearest, Option.map_some]

end Calls

end Zolana
