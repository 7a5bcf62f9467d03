import Mathlib.Logic.Basic

namespace Zephyr.Lib

variable {S α E : Type}

-- A loop that runs `step` on each element of its input in turn and stops at the
-- first error, with the state the failing step left.
def runStream (step : S → α → Option E × S) : S → List α → Option E × S
  | s, [] => (none, s)
  | s, a :: as =>
    match step s a with
    | (some e, s') => (some e, s')
    | (none, s') => runStream step s' as

variable {step : S → α → Option E × S}

@[simp] theorem runStream_nil (s : S) : runStream step s [] = (none, s) := rfl

theorem runStream_cons_of_ok {s s' : S} {a : α} (h : step s a = (none, s')) (as : List α) :
    runStream step s (a :: as) = runStream step s' as := by
  simp [runStream, h]

theorem runStream_append (s : S) (as bs : List α) :
    runStream step s (as ++ bs) =
      match runStream step s as with
      | (some e, s') => (some e, s')
      | (none, s') => runStream step s' bs := by
  induction as generalizing s with
  | nil => rfl
  | cons a as ih =>
    simp only [List.cons_append, runStream]
    rcases step s a with ⟨_ | e, s'⟩
    · exact ih s'
    · rfl

theorem runStream_append_of_ok {s s' : S} {as : List α} (h : runStream step s as = (none, s')) (bs : List α) :
    runStream step s (as ++ bs) = runStream step s' bs := by
  rw [runStream_append, h]

-- A run over a concatenation ends well exactly when both halves do, the second
-- from where the first stopped.
theorem runStream_append_eq_ok {s t : S} {as bs : List α} :
    runStream step s (as ++ bs) = (none, t) ↔ ∃ s', runStream step s as = (none, s') ∧ runStream step s' bs = (none, t) := by
  rw [runStream_append]
  constructor
  · rcases hr : runStream step s as with ⟨_ | e, s'⟩
    · exact fun h => ⟨s', rfl, h⟩
    · simp
  · rintro ⟨s', hs, ht⟩
    rw [hs]
    exact ht

-- An invariant of the input read so far and the state: preserved by every step
-- without error, it holds after the whole run, which ends without error.
theorem runStream_invariant (R : List α → S → Prop)
    (hstep : ∀ p s a, R p s → (step s a).1 = none ∧ R (p ++ [a]) (step s a).2) :
    ∀ (as p : List α) (s : S), R p s → (runStream step s as).1 = none ∧ R (p ++ as) (runStream step s as).2 := by
  intro as
  induction as with
  | nil => simp
  | cons a as ih =>
    intro p s hR
    obtain ⟨hok, hR'⟩ := hstep p s a hR
    have hs : step s a = (none, (step s a).2) := Prod.ext hok rfl
    rw [runStream_cons_of_ok hs]
    simpa using ih (p ++ [a]) _ hR'

end Zephyr.Lib
