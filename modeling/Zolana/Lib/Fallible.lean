import Mathlib.Tactic

/-!
# Fallible updates in place

A method that takes a mutable reference and returns a `Result` is an `EStateM` computation: an error
carries the state as the method left it, with whatever was written before the failing call. This file
adds fixed-width arithmetic, an option read as a result, and a method of a component run inside the whole,
with the rules the proofs step through them by.
-/

namespace Fallible

variable {ε σ τ α β : Type}

/-! ### Sixty-four bit arithmetic on naturals -/

def checkedAdd (a b : Nat) : Option Nat := if a + b < 2 ^ 64 then some (a + b) else none

def checkedSub (a b : Nat) : Option Nat := if b ≤ a then some (a - b) else none

def checkedMul (a b : Nat) : Option Nat := if a * b < 2 ^ 64 then some (a * b) else none

/-- `1 << shift`, defined below the word width. -/
def checkedShl (shift : Nat) : Option Nat := if shift < 64 then some (2 ^ shift) else none

def saturatingAdd (a b : Nat) : Nat := min (a + b) (2 ^ 64 - 1)

def saturatingMul (a b : Nat) : Nat := min (a * b) (2 ^ 64 - 1)

theorem checkedAdd_of_lt {a b : Nat} (h : a + b < 2 ^ 64) : checkedAdd a b = some (a + b) := if_pos h

theorem checkedMul_of_lt {a b : Nat} (h : a * b < 2 ^ 64) : checkedMul a b = some (a * b) := if_pos h

theorem checkedAdd_eq_some_iff {a b c : Nat} : checkedAdd a b = some c ↔ a + b < 2 ^ 64 ∧ c = a + b := by
  unfold checkedAdd
  split <;> simp_all [eq_comm]

theorem checkedShl_eq_some_iff {shift c : Nat} : checkedShl shift = some c ↔ shift < 64 ∧ c = 2 ^ shift := by
  unfold checkedShl
  split <;> simp_all [eq_comm]

/-! ### Reading options and pure results -/

/-- `option.ok_or(error)?`. -/
def okOr (option : Option α) (error : ε) : EStateM ε σ α :=
  match option with
  | some a => pure a
  | none => throw error

@[simp] theorem okOr_some (a : α) (error : ε) : (okOr (some a) error : EStateM ε σ α) = pure a := rfl

@[simp] theorem run_okOr_none (error : ε) (s : σ) :
    (okOr none error : EStateM ε σ α).run s = .error error s := rfl

/-- `result.map_err(wrap)?`. -/
def mapErr {ε' : Type} (wrap : ε' → ε) (result : Except ε' α) : EStateM ε σ α :=
  match result with
  | .ok a => pure a
  | .error e => throw (wrap e)

variable {ε' : Type} {s s' : σ} {put : τ → σ → σ} {missing : ε} {t : τ}

@[simp] theorem mapErr_ok (wrap : ε' → ε) (a : α) : (mapErr wrap (.ok a) : EStateM ε σ α) = pure a := rfl

@[simp] theorem run_mapErr_error (wrap : ε' → ε) (e : ε') (s : σ) :
    (mapErr wrap (.error e) : EStateM ε σ α).run s = .error (wrap e) s := rfl

@[simp] theorem run_throw (e : ε) (s : σ) : (throw e : EStateM ε σ α).run s = .error e s := rfl

variable {a : α} {wrap : ε' → ε} {look : σ → Option τ} {e : ε} {x : EStateM ε σ α} {c : Prop}

theorem run_okOr_eq_ok_iff {option : Option α} {error : ε} :
    (okOr option error).run s = .ok a s' ↔ option = some a ∧ s = s' := by
  cases option <;> simp [okOr]

theorem run_mapErr_eq_ok_iff {result : Except ε' α} :
    (mapErr wrap result).run s = .ok a s' ↔ result = .ok a ∧ s = s' := by
  cases result <;> simp [mapErr]

/-! ### A method of a component -/

/-- Runs a method of a component of the state. What the method wrote to the component stays written
when it fails. -/
def zoom (look : σ → Option τ) (put : τ → σ → σ) (missing : ε) (act : EStateM ε τ α) : EStateM ε σ α := fun s =>
  match look s with
  | none => .error missing s
  | some t =>
    match act.run t with
    | .ok a t' => .ok a (put t' s)
    | .error e t' => .error e (put t' s)

theorem run_zoom {act : EStateM ε τ α} (h : look s = some t) : (zoom look put missing act).run s =
      match act.run t with
      | .ok a t' => .ok a (put t' s)
      | .error e t' => .error e (put t' s) := by
  simp only [zoom, EStateM.run, h]

theorem run_zoom_ok {act : EStateM ε τ α} {t' : τ} (h : look s = some t)
    (hact : act.run t = .ok a t') : (zoom look put missing act).run s = .ok a (put t' s) := by
  rw [run_zoom h, hact]

theorem run_zoom_error {act : EStateM ε τ α} {t' : τ} (h : look s = some t)
    (hact : act.run t = .error e t') : (zoom look put missing act).run s = .error e (put t' s) := by
  rw [run_zoom h, hact]

theorem run_zoom_eq_ok_iff {act : EStateM ε τ α} : (zoom look put missing act).run s = .ok a s' ↔
      ∃ t t', look s = some t ∧ act.run t = .ok a t' ∧ s' = put t' s := by
  cases hlook : look s with
  | none => simp [zoom, EStateM.run, hlook]
  | some t =>
      rw [run_zoom hlook]
      cases hact : act.run t <;> simp [hact, eq_comm]

/-- Runs a method of a component that is always there, with its own errors. -/
def within {ε' : Type} (look : σ → τ) (put : τ → σ → σ) (wrap : ε' → ε) (act : EStateM ε' τ α) :
    EStateM ε σ α := fun s =>
  match act.run (look s) with
  | .ok a t => .ok a (put t s)
  | .error e t => .error (wrap e) (put t s)

theorem run_within_ok {look : σ → τ} {act : EStateM ε' τ α} (h : act.run (look s) = .ok a t) :
    (within look put wrap act).run s = .ok a (put t s) := by
  simp only [within, EStateM.run] at h ⊢
  rw [h]

theorem run_within_eq_ok_iff {look : σ → τ} {act : EStateM ε' τ α} :
    (within look put wrap act).run s = .ok a s' ↔ ∃ t, act.run (look s) = .ok a t ∧ s' = put t s := by
  simp only [within, EStateM.run]
  cases act (look s) <;> simp [eq_comm]

/-! ### Stepping through a sequence -/

theorem run_bind_of_ok {f : α → EStateM ε σ β} (h : x.run s = .ok a s') : (x >>= f).run s = (f a).run s' := by
  rw [EStateM.run_bind, h]

theorem run_bind_of_error {f : α → EStateM ε σ β} (h : x.run s = .error e s') :
    (x >>= f).run s = .error e s' := by
  rw [EStateM.run_bind, h]

theorem of_run_bind {f : α → EStateM ε σ β} {b : β} (h : (x >>= f).run s = .ok b s') :
    ∃ a t, x.run s = .ok a t ∧ (f a).run t = .ok b s' := by
  rw [EStateM.run_bind] at h
  cases hrun : x.run s with
  | error e t =>
      rw [hrun] at h
      cases h
  | ok a t =>
      rw [hrun] at h
      exact ⟨a, t, rfl, h⟩

theorem of_run_get_bind {f : σ → EStateM ε σ α} (h : (get >>= f : EStateM ε σ α).run s = .ok a s') :
    (f s).run s = .ok a s' := h

theorem of_run_okOr_bind {option : Option α} {error : ε} {f : α → EStateM ε σ β} {b : β}
    (h : (okOr option error >>= f).run s = .ok b s') : ∃ a, option = some a ∧ (f a).run s = .ok b s' := by
  obtain ⟨a, _, ha, h⟩ := of_run_bind h
  obtain ⟨hsome, rfl⟩ := run_okOr_eq_ok_iff.mp ha
  exact ⟨a, hsome, h⟩

theorem of_run_mapErr_bind {result : Except ε' α} {f : α → EStateM ε σ β} {b : β}
    (h : (mapErr wrap result >>= f).run s = .ok b s') : ∃ a, result = .ok a ∧ (f a).run s = .ok b s' := by
  obtain ⟨a, _, ha, h⟩ := of_run_bind h
  obtain ⟨hok, rfl⟩ := run_mapErr_eq_ok_iff.mp ha
  exact ⟨a, hok, h⟩

theorem of_run_check [Decidable c] {act : EStateM ε σ α}
    (h : (if c then throw e else act : EStateM ε σ α).run s = .ok a s') : ¬c ∧ act.run s = .ok a s' := by
  split at h
  case isTrue => cases h
  case isFalse hc => exact ⟨hc, h⟩

/-! ### Results without a state -/

theorem of_check_eq_ok [Decidable c] {rest : Except ε α}
    (h : (if c then .error e else rest) = .ok a) : ¬c ∧ rest = .ok a := by
  split at h
  case isTrue => cases h
  case isFalse hc => exact ⟨hc, h⟩

theorem bind_eq_ok_iff {x : Except ε α} {f : α → Except ε β} {b : β} :
    x >>= f = .ok b ↔ ∃ a, x = .ok a ∧ f a = .ok b := by
  cases x <;> simp [bind, Except.bind]

theorem of_bind_ok {x : Except ε α} {f : α → Except ε β} {b : β} (h : x >>= f = .ok b) :
    ∃ a, x = .ok a ∧ f a = .ok b := bind_eq_ok_iff.mp h

/-- A loop that can fail collects what the same loop without failures does. -/
theorem filterMapM_eq_ok_iff {f : α → Except ε (Option β)} {g : α → Option β}
    (hf : ∀ a b, f a = .ok b → b = g a) {inputs : List α} {outputs : List β} :
    inputs.filterMapM f = .ok outputs ↔ (∀ a ∈ inputs, f a = .ok (g a)) ∧ outputs = inputs.filterMap g := by
  induction inputs generalizing outputs with
  | nil =>
      rw [List.filterMapM_nil, List.filterMap_nil]
      exact ⟨fun h => ⟨fun _ hmem => (List.not_mem_nil hmem).elim, (Except.ok.inj h).symm⟩,
        fun h => h.2 ▸ rfl⟩
  | cons a inputs ih =>
      rw [List.filterMapM_cons, List.forall_mem_cons]
      cases hfa : f a with
      | error e => exact ⟨fun h => (nomatch h), fun h => (nomatch h.1.1)⟩
      | ok b =>
          have hga := (hf a b hfa).symm
          cases b with
          | none =>
              change inputs.filterMapM f = _ ↔ _
              simp [ih, hga]
          | some b =>
              change (do
                let rest ← inputs.filterMapM f
                pure (b :: rest)) = _ ↔ _
              simp only [bind_eq_ok_iff, ih, List.filterMap_cons, hga, true_and]
              exact ⟨fun ⟨_, ⟨hall, hrest⟩, heq⟩ => ⟨hall, hrest ▸ (Except.ok.inj heq).symm⟩,
                fun ⟨hall, heq⟩ => ⟨_, ⟨hall, rfl⟩, heq ▸ rfl⟩⟩

/-- The run succeeds, and what it gives passes a check. -/
def succeeds (act : EStateM ε σ α) (s : σ) (check : α → σ → Bool) : Bool :=
  match act.run s with
  | .ok a s' => check a s'
  | .error _ _ => false

theorem exists_of_succeeds {act : EStateM ε σ α} {check : α → σ → Bool}
    (h : succeeds act s check = true) : ∃ a s', act.run s = .ok a s' ∧ check a s' = true := by
  unfold succeeds at h
  split at h
  case h_1 a s' hrun => exact ⟨a, s', hrun, h⟩
  case h_2 => cases h

end Fallible
