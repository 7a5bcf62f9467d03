import Mathlib.Logic.Basic

namespace Zephyr.Lib

variable {ε σ α β : Type} {Q Q' : α → σ → Prop} {E E' : σ → Prop} {s : σ}

-- What holds once x has run from s: Q of its value and final state on a return,
-- E of the final state on an error.
def Wp (x : ExceptT ε (StateM σ) α) (Q : α → σ → Prop) (E : σ → Prop) (s : σ) : Prop :=
  match x.run.run s with
  | (.ok a, s') => Q a s'
  | (.error _, s') => E s'

@[simp] theorem wp_pure (a : α) : Wp (pure a : ExceptT ε (StateM σ) α) Q E s = Q a s := rfl

@[simp] theorem wp_bind (x : ExceptT ε (StateM σ) α) (f : α → ExceptT ε (StateM σ) β) {Q : β → σ → Prop} :
    Wp (x >>= f) Q E s = Wp x (fun a s' => Wp (f a) Q E s') E s := by
  simp only [Wp, ExceptT.run_bind, StateT.run_bind]
  rcases x.run.run s with ⟨_ | a, s'⟩ <;> rfl

@[simp] theorem wp_throw (e : ε) : Wp (throw e : ExceptT ε (StateM σ) α) Q E s = E s := rfl

@[simp] theorem wp_get {Q : σ → σ → Prop} : Wp (get : ExceptT ε (StateM σ) σ) Q E s = Q s s := rfl

@[simp] theorem wp_set (s' : σ) {Q : Unit → σ → Prop} :
    Wp (set s' : ExceptT ε (StateM σ) Unit) Q E s = Q () s' := rfl

@[simp] theorem wp_modify (f : σ → σ) {Q : Unit → σ → Prop} :
    Wp (modify f : ExceptT ε (StateM σ) Unit) Q E s = Q () (f s) := rfl

@[simp] theorem wp_ite (c : Prop) [Decidable c] (x y : ExceptT ε (StateM σ) α) :
    Wp (if c then x else y) Q E s = if c then Wp x Q E s else Wp y Q E s := by
  split <;> rfl

theorem Wp.mono {x : ExceptT ε (StateM σ) α} (h : Wp x Q E s) (hq : ∀ a s, Q a s → Q' a s)
    (he : ∀ s, E s → E' s) : Wp x Q' E' s := by
  unfold Wp at h ⊢
  split at h <;> simp_all

theorem Wp.of_ok {x : ExceptT ε (StateM σ) α} {a : α} {s' : σ} (h : Wp x Q E s)
    (hr : x.run.run s = (.ok a, s')) : Q a s' := by
  unfold Wp at h
  rw [hr] at h
  exact h

theorem Wp.of_error {x : ExceptT ε (StateM σ) α} {e : ε} {s' : σ} (h : Wp x Q E s)
    (hr : x.run.run s = (.error e, s')) : E s' := by
  unfold Wp at h
  rw [hr] at h
  exact h

theorem Wp.run_snd {x : ExceptT ε (StateM σ) α} {R : σ → Prop} {r : Except ε α × σ}
    (h : Wp x (fun _ => R) R s) (hr : x.run.run s = r) : R r.2 := by
  unfold Wp at h
  rw [hr] at h
  rcases r with ⟨_ | _, _⟩ <;> exact h

-- x keeps the invariant-like pair: from a state with P it returns into Q or fails into E.
def Triple (P : σ → Prop) (x : ExceptT ε (StateM σ) α) (Q : α → σ → Prop) (E : σ → Prop) : Prop :=
  ∀ s, P s → Wp x Q E s

theorem Triple.wp {P : σ → Prop} {x : ExceptT ε (StateM σ) α} (h : Triple P x Q E) (hs : P s)
    (hq : ∀ a s, Q a s → Q' a s) (he : ∀ s, E s → E' s) : Wp x Q' E' s :=
  (h s hs).mono hq he

end Zephyr.Lib
