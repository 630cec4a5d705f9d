import Zolana.Lib.Fallible

/-!
# What a fallible update leaves alone

Properties of an `EStateM` computation that hold from every state: `Keeps view` when a successful run
does not change a view of the state, `Maintains P` when it ends with `P` if it starts with it, and
`Raises P` when every error satisfies `P`. A long sequence is taken apart along its steps.
-/

namespace Fallible

variable {ε ε' σ τ υ α β : Type}

theorem run_bind_eq_error_iff {x : EStateM ε σ α} {f : α → EStateM ε σ β} {s s' : σ} {e : ε} :
    (x >>= f).run s = .error e s' ↔
      x.run s = .error e s' ∨ ∃ a t, x.run s = .ok a t ∧ (f a).run t = .error e s' := by
  rw [EStateM.run_bind]
  cases x.run s <;> simp

/-! ### Views that stay -/

def Keeps (view : σ → υ) (act : EStateM ε σ α) : Prop :=
  ∀ ⦃s a s'⦄, act.run s = .ok a s' → view s' = view s

namespace Keeps

variable {view : σ → υ}

theorem state_eq {act : EStateM ε σ α} (h : Keeps id act) {s s' : σ} {a : α}
    (hrun : act.run s = .ok a s') : s' = s := h hrun

theorem pure (a : α) : Keeps view (Pure.pure a : EStateM ε σ α) := by
  intro s b s' h
  cases h
  rfl

theorem throw (e : ε) : Keeps view (MonadExcept.throw e : EStateM ε σ α) := by
  intro s a s' h
  cases h

theorem get : Keeps view (MonadState.get : EStateM ε σ σ) := by
  intro s a s' h
  cases h
  rfl

theorem update {f : σ → σ} (h : ∀ s, view (f s) = view s) : Keeps view (modify f : EStateM ε σ PUnit) := by
  intro s a s' hrun
  cases hrun
  exact h s

theorem bind {x : EStateM ε σ α} {f : α → EStateM ε σ β} (hx : Keeps view x)
    (hf : ∀ a, Keeps view (f a)) : Keeps view (x >>= f) := by
  intro s b s' h
  obtain ⟨a, t, hfirst, hrest⟩ := of_run_bind h
  rw [hf a hrest, hx hfirst]

theorem ite {c : Prop} [Decidable c] {x y : EStateM ε σ α} (hx : Keeps view x)
    (hy : Keeps view y) : Keeps view (if c then x else y) := by
  by_cases hc : c
  · rw [if_pos hc]
    exact hx
  · rw [if_neg hc]
    exact hy

theorem okOr (option : Option α) (error : ε) : Keeps view (Fallible.okOr option error : EStateM ε σ α) := by
  cases option with
  | none => exact throw error
  | some a => exact pure a

theorem mapErr (wrap : ε' → ε) (result : Except ε' α) :
    Keeps view (Fallible.mapErr wrap result : EStateM ε σ α) := by
  cases result with
  | error e => exact throw (wrap e)
  | ok a => exact pure a

theorem within {look : σ → τ} {put : τ → σ → σ} {wrap : ε' → ε} {act : EStateM ε' τ α}
    (h : ∀ t s, view (put t s) = view s) : Keeps view (Fallible.within look put wrap act) := by
  intro s a s' hrun
  obtain ⟨t, _, rfl⟩ := run_within_eq_ok_iff.mp hrun
  exact h t s

theorem zoom {look : σ → Option τ} {put : τ → σ → σ} {missing : ε} {act : EStateM ε τ α}
    (h : ∀ t s, view (put t s) = view s) : Keeps view (Fallible.zoom look put missing act) := by
  intro s a s' hrun
  obtain ⟨_, t, _, _, rfl⟩ := run_zoom_eq_ok_iff.mp hrun
  exact h t s

end Keeps

/-! ### Properties that stay -/

/-- A successful run from a state with `P` ends in a state with `P`. -/
def Maintains (P : σ → Prop) (act : EStateM ε σ α) : Prop :=
  ∀ ⦃s a s'⦄, act.run s = .ok a s' → P s → P s'

namespace Maintains

variable {P : σ → Prop}

theorem pure (a : α) : Maintains P (Pure.pure a : EStateM ε σ α) := by
  intro s b s' h hbefore
  cases h
  exact hbefore

theorem throw (e : ε) : Maintains P (MonadExcept.throw e : EStateM ε σ α) := by
  intro s a s' h
  cases h

theorem bind {x : EStateM ε σ α} {f : α → EStateM ε σ β} (hx : Maintains P x)
    (hf : ∀ a, Maintains P (f a)) : Maintains P (x >>= f) := by
  intro s b s' h hbefore
  obtain ⟨a, t, hfirst, hrest⟩ := of_run_bind h
  exact hf a hrest (hx hfirst hbefore)

theorem ite {c : Prop} [Decidable c] {x y : EStateM ε σ α} (hx : Maintains P x)
    (hy : Maintains P y) : Maintains P (if c then x else y) := by
  by_cases hc : c
  · rw [if_pos hc]
    exact hx
  · rw [if_neg hc]
    exact hy

theorem within {look : σ → τ} {put : τ → σ → σ} {wrap : ε' → ε} {act : EStateM ε' τ α} {Q : τ → Prop}
    (hput : ∀ t s, look (put t s) = t) (h : Maintains Q act) :
    Maintains (fun s => Q (look s)) (Fallible.within look put wrap act) := by
  intro s a s' hrun hbefore
  obtain ⟨t, hact, rfl⟩ := run_within_eq_ok_iff.mp hrun
  rw [hput]
  exact h hact hbefore

end Maintains

/-! ### Errors that are possible -/

def Raises (P : ε → Prop) (act : EStateM ε σ α) : Prop :=
  ∀ ⦃s e s'⦄, act.run s = .error e s' → P e

namespace Raises

variable {P : ε → Prop}

theorem pure (a : α) : Raises P (Pure.pure a : EStateM ε σ α) := by
  intro s e s' h
  cases h

theorem throw {e : ε} (h : P e) : Raises P (MonadExcept.throw e : EStateM ε σ α) := by
  intro s e' s' hrun
  cases hrun
  exact h

theorem get : Raises P (MonadState.get : EStateM ε σ σ) := by
  intro s e s' h
  cases h

theorem update (f : σ → σ) : Raises P (modify f : EStateM ε σ PUnit) := by
  intro s e s' h
  cases h

theorem bind {x : EStateM ε σ α} {f : α → EStateM ε σ β} (hx : Raises P x)
    (hf : ∀ a, Raises P (f a)) : Raises P (x >>= f) := by
  intro s e s' h
  rcases run_bind_eq_error_iff.mp h with hfirst | ⟨a, t, _, hrest⟩
  · exact hx hfirst
  · exact hf a hrest

theorem ite {c : Prop} [Decidable c] {x y : EStateM ε σ α} (hx : Raises P x)
    (hy : Raises P y) : Raises P (if c then x else y) := by
  by_cases hc : c
  · rw [if_pos hc]
    exact hx
  · rw [if_neg hc]
    exact hy

theorem okOr (option : Option α) {error : ε} (h : P error) :
    Raises P (Fallible.okOr option error : EStateM ε σ α) := by
  cases option with
  | none => exact throw h
  | some a => exact pure a

theorem mapErr {wrap : ε' → ε} (h : ∀ e, P (wrap e)) (result : Except ε' α) :
    Raises P (Fallible.mapErr wrap result : EStateM ε σ α) := by
  cases result with
  | error e => exact throw (h e)
  | ok a => exact pure a

end Raises

/-- Every error of a run from one state satisfies `P`. -/
def RaisesFrom (P : ε → Prop) (s : σ) (act : EStateM ε σ α) : Prop :=
  ∀ ⦃e s'⦄, act.run s = .error e s' → P e

namespace RaisesFrom

variable {P : ε → Prop} {s : σ}

theorem of_raises {act : EStateM ε σ α} (h : Raises P act) (s : σ) : RaisesFrom P s act :=
  fun _ _ hrun => h hrun

theorem bind {x : EStateM ε σ α} {f : α → EStateM ε σ β} (hx : RaisesFrom P s x)
    (hf : ∀ a t, x.run s = .ok a t → RaisesFrom P t (f a)) : RaisesFrom P s (x >>= f) := by
  intro e s' h
  rcases run_bind_eq_error_iff.mp h with hfirst | ⟨a, t, hfirst, hrest⟩
  · exact hx hfirst
  · exact hf a t hfirst hrest

theorem bind_keeps {x : EStateM ε σ α} {f : α → EStateM ε σ β} (hkeeps : Keeps id x)
    (hx : Raises P x) (hf : ∀ a, RaisesFrom P s (f a)) : RaisesFrom P s (x >>= f) := by
  refine bind (.of_raises hx s) ?_
  intro a t hfirst
  rw [hkeeps.state_eq hfirst]
  exact hf a

theorem zoom {look : σ → Option τ} {put : τ → σ → σ} {missing : ε} {act : EStateM ε τ α}
    (hmissing : P missing) (hact : ∀ t, look s = some t → RaisesFrom P t act) :
    RaisesFrom P s (Fallible.zoom look put missing act) := by
  intro e s' hrun
  cases hlook : look s with
  | none =>
      simp only [Fallible.zoom, EStateM.run, hlook, EStateM.Result.error.injEq] at hrun
      exact hrun.1 ▸ hmissing
  | some t =>
      rw [run_zoom hlook] at hrun
      cases hcomponent : act.run t with
      | ok a t' => simp [hcomponent] at hrun
      | error e' t' =>
          simp only [hcomponent, EStateM.Result.error.injEq] at hrun
          exact hrun.1 ▸ hact t hlook hcomponent

theorem within {look : σ → τ} {put : τ → σ → σ} {wrap : ε' → ε} {act : EStateM ε' τ α}
    (h : RaisesFrom (fun e => P (wrap e)) (look s) act) :
    RaisesFrom P s (Fallible.within look put wrap act) := by
  intro e s' hrun
  simp only [Fallible.within, EStateM.run] at hrun
  cases hact : act (look s) with
  | ok a t => simp [hact] at hrun
  | error e' t =>
      simp only [hact, EStateM.Result.error.injEq] at hrun
      exact hrun.1 ▸ h hact

end RaisesFrom

theorem Raises.within {P : ε → Prop} {look : σ → τ} {put : τ → σ → σ} {wrap : ε' → ε}
    (h : ∀ e, P (wrap e)) (act : EStateM ε' τ α) : Raises P (Fallible.within look put wrap act) :=
  fun _ _ _ hrun => RaisesFrom.within (fun e _ _ => h e) hrun

theorem Raises.zoom {P : ε → Prop} {look : σ → Option τ} {put : τ → σ → σ} {missing : ε}
    {act : EStateM ε τ α} (hmissing : P missing) (hact : Raises P act) :
    Raises P (Fallible.zoom look put missing act) :=
  fun _ _ _ hrun => RaisesFrom.zoom hmissing (fun t _ => .of_raises hact t) hrun

end Fallible
