import Mathlib.Tactic.Common

/-! # Computations that may abort

Inversion rules for `Except` in `do` notation: what it means that a sequence or a loop
ended normally, and where it stopped when it did not. -/

namespace Aborts

universe u v w

variable {ε : Type u} {α : Type v} {β : Type v} {ι : Type w}

theorem bind_eq_ok {x : Except ε α} {f : α → Except ε β} {b : β} :
    (x >>= f) = .ok b ↔ ∃ a, x = .ok a ∧ f a = .ok b := by
  cases x with
  | ok a => simp [bind, Except.bind]
  | error e => simp [bind, Except.bind]

theorem bind_eq_error {x : Except ε α} {f : α → Except ε β} {e : ε} :
    (x >>= f) = .error e ↔ x = .error e ∨ ∃ a, x = .ok a ∧ f a = .error e := by
  cases x with
  | ok a => simp [bind, Except.bind]
  | error e' => simp [bind, Except.bind]

@[simp] theorem pure_eq_ok {a b : α} : (pure a : Except ε α) = .ok b ↔ a = b := by
  simp [pure, Except.pure]

@[simp] theorem pure_ne_error {a : α} {e : ε} : (pure a : Except ε α) ≠ .error e := by
  simp [pure, Except.pure]

/-- The loop rule: `P done b` speaks of the elements already processed. -/
theorem foldlM_ok {f : β → ι → Except ε β} {P : List ι → β → Prop}
    (step : ∀ done i b b', P done b → f b i = .ok b' → P (done ++ [i]) b') :
    ∀ {l done : List ι} {b b' : β}, P done b → l.foldlM f b = .ok b' → P (done ++ l) b'
  | [], done, b, b', holds, looped => by
    rw [List.foldlM_nil, pure_eq_ok] at looped
    rw [List.append_nil]
    exact looped ▸ holds
  | i :: l, done, b, b', holds, looped => by
    rw [List.foldlM_cons, bind_eq_ok] at looped
    obtain ⟨middle, stepped, rest⟩ := looped
    have := foldlM_ok step (step done i b middle holds stepped) rest
    simpa using this

/-- A loop that aborted did so at some element, after the ones before it went through. -/
theorem foldlM_error {f : β → ι → Except ε β} {b : β} {l : List ι} {e : ε}
    (looped : l.foldlM f b = .error e) :
    ∃ done i rest b', l = done ++ i :: rest ∧ done.foldlM f b = .ok b' ∧ f b' i = .error e := by
  induction l generalizing b with
  | nil => simp at looped
  | cons i l inductionHypothesis =>
    rw [List.foldlM_cons, bind_eq_error] at looped
    rcases looped with aborted | ⟨middle, stepped, rest⟩
    · exact ⟨[], i, l, b, rfl, rfl, aborted⟩
    · obtain ⟨done, j, tail, b', rfl, prefixLooped, aborted⟩ := inductionHypothesis rest
      refine ⟨i :: done, j, tail, b', rfl, ?_, aborted⟩
      rw [List.foldlM_cons, bind_eq_ok]
      exact ⟨middle, stepped, prefixLooped⟩

end Aborts
