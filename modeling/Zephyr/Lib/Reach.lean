import Mathlib.Logic.Basic

namespace StateMachine

variable {σ : Type}

-- The states a transition system reaches from its initial states.
inductive Reachable (init : σ → Prop) (step : σ → σ → Prop) : σ → Prop where
  | init {s : σ} : init s → Reachable init step s
  | step {s s' : σ} : Reachable init step s → step s s' → Reachable init step s'

-- An inductive invariant holds in every reachable state.
theorem Reachable.inv {init : σ → Prop} {step : σ → σ → Prop} (P : σ → Prop)
    (h0 : ∀ s, init s → P s) (hs : ∀ s s', P s → step s s' → P s') {s : σ}
    (h : Reachable init step s) : P s := by
  induction h with
  | init hi => exact h0 _ hi
  | step _ hst ih => exact hs _ _ ih hst

-- A system with fewer steps reaches fewer states.
theorem Reachable.mono {init : σ → Prop} {step step' : σ → σ → Prop}
    (hs : ∀ s s', step s s' → step' s s') {s : σ} (h : Reachable init step s) :
    Reachable init step' s := by
  induction h with
  | init hi => exact .init hi
  | step _ hst ih => exact .step ih (hs _ _ hst)

end StateMachine
