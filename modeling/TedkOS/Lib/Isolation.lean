/-
  Isolation of the users of a shared machine.

  Several users share one machine, and each looks at it through a VIEW.  A user is isolated if its
  view after a run is what it would be had nobody else done anything: the run is PURGED of the
  events of the others, and both end in states that look the same.

  The two conditions to check are about single steps (`Unwinding`):
  * an event of the user is possible in every state that looks the same, and leads to states that
    look the same;
  * an event of somebody else leaves the view alone.

  Runs are recorded with their events (`Run`), since it is the events that are purged.
-/
import Mathlib.Data.List.Basic
import TedkOS.Lib.Runs

namespace Isolation

open Runs

variable {σ ε ν : Type} {M : Machine σ ε} {ok : σ → ε → Prop} {s₀ s : σ} {es : List ε}

/-- A run from `s₀` whose events are `es`, each allowed where it happens. -/
inductive Run (M : Machine σ ε) (ok : σ → ε → Prop) (s₀ : σ) : List ε → σ → Prop
  | nil : Run M ok s₀ [] s₀
  | snoc {es : List ε} {e : ε} {s s' : σ} :
      Run M ok s₀ es s → ok s e → M.step s e s' → Run M ok s₀ (es ++ [e]) s'

/-- **The invariant rule**, for a property of the events so far and the state. -/
theorem Run.invariant {I : List ε → σ → Prop} (h₀ : I [] s₀)
    (hstep : ∀ es s e s', I es s → ok s e → M.step s e s' → I (es ++ [e]) s')
    (hr : Run M ok s₀ es s) :
    I es s := by
  induction hr with
  | nil => exact h₀
  | snoc _ hok hs ih => exact hstep _ _ _ _ ih hok hs

/-- The conditions under which the user of the events `mine`, who sees `view`, is isolated from the
    others, in the states with `I`. -/
structure Unwinding (M : Machine σ ε) (ok : σ → ε → Prop) (I : σ → Prop) (mine : ε → Bool)
    (view : σ → ν) :
    Prop where
  keeps : ∀ s e s', I s → ok s e → M.step s e s' → I s'
  respects : ∀ s t e s', I s → I t → mine e = true → view t = view s → ok s e → M.step s e s' →
    ∃ t', ok t e ∧ M.step t e t' ∧ view t' = view s'
  ignores : ∀ s e s', I s → mine e = false → ok s e → M.step s e s' → view s' = view s

/-- **Isolation.**  The view after a run is the view after the run purged of everybody else's
    events. -/
theorem Unwinding.purge {I : σ → Prop} {mine : ε → Bool} {view : σ → ν}
    (h : Unwinding M ok I mine view) (h₀ : I s₀) (hr : Run M ok s₀ es s) :
    ∃ t, Run M ok s₀ (es.filter mine) t ∧ view t = view s := by
  have hkeep : ∀ {es s}, Run M ok s₀ es s → I s := fun hr =>
    hr.invariant (I := fun _ s => I s) h₀ fun _ s e s' => h.keeps s e s'
  induction hr with
  | nil => exact ⟨s₀, .nil, rfl⟩
  | @snoc es e s s' hr hok hs ih =>
    obtain ⟨t, ht, hview⟩ := ih
    rw [List.filter_append]
    cases hmine : mine e with
    | true =>
      obtain ⟨t', hok', hs', hview'⟩ := h.respects s t e s' (hkeep hr) (hkeep ht) hmine hview hok hs
      refine ⟨t', ?_, hview'⟩
      rw [List.filter_cons_of_pos hmine, List.filter_nil]
      exact ht.snoc hok' hs'
    | false =>
      refine ⟨t, ?_, hview.trans (h.ignores s e s' (hkeep hr) hmine hok hs).symm⟩
      rw [List.filter_cons_of_neg (by rw [hmine]; exact Bool.false_ne_true), List.filter_nil,
        List.append_nil]
      exact ht

end Isolation
