/-
  Runs of a guarded machine: reachability, the invariant rule and the simulation rule.

  A component of a system is driven by CALLS: in a state `s` somebody issues a call `a`, and the
  component moves to a next state.  Which calls may be issued is a property of the CALLER, not of
  the component, so it is kept apart as a GUARD `ok : σ → α → Prop` ("in state `s` the call `a` is
  one the environment is allowed to make").  Weakening or strengthening the guard is how the same
  component is studied under different promises of its callers: `Reach.mono` transports every
  reachable state from a stronger guard to a weaker one, so an invariant is proved once, for the
  weakest guard under which it holds.

  The two induction rules:
  * `Reach.invariant`  — initial + preserved by one guarded step  ⟹  holds in every reached state;
  * `Reach.simulates`  — a relation to an abstract machine kept by one guarded step  ⟹  every run
    is matched by an abstract run.

  A run that is given call by call is evaluated by a function that carries out one call
  (`Reach.foldlM`), so what such a run comes to can be computed.

  Nothing here names a program: states and calls are arbitrary types.
-/
import Mathlib.Logic.Basic

namespace Runs

/-- A machine: its initial states and, for each call, the steps it can make. -/
structure Machine (σ α : Type) where
  /-- The states a run may start from. -/
  init : σ → Prop
  /-- `step s a s'`: the call `a`, issued in `s`, can end in `s'`. -/
  step : σ → α → σ → Prop

/-- The machine of a step FUNCTION started in one state. -/
def Machine.ofFn {σ α : Type} (s₀ : σ) (f : σ → α → σ) : Machine σ α where
  init s := s = s₀
  step s a s' := s' = f s a

/-- The same machine, started in one state: its runs go on from there. -/
def Machine.startedIn {σ α : Type} (M : Machine σ α) (s₀ : σ) : Machine σ α where
  init s := s = s₀
  step := M.step

/-- The states a run can reach when every call obeys the guard `ok`. -/
inductive Reach {σ α : Type} (M : Machine σ α) (ok : σ → α → Prop) : σ → Prop
  | init {s : σ} : M.init s → Reach M ok s
  | step {s s' : σ} {a : α} : Reach M ok s → ok s a → M.step s a s' → Reach M ok s'

section Rules

variable {σ τ α : Type} {M : Machine σ α} {ok ok' : σ → α → Prop}

/-- **The invariant rule.**  What holds initially and survives every guarded step holds in every
    reached state. -/
theorem Reach.invariant {I : σ → Prop} (h0 : ∀ s, M.init s → I s)
    (hstep : ∀ s a s', I s → ok s a → M.step s a s' → I s') {s : σ} (hr : Reach M ok s) : I s := by
  induction hr with
  | init h => exact h0 _ h
  | step _ hok hs ih => exact hstep _ _ _ ih hok hs

/-- A weaker guard reaches at least as many states. -/
theorem Reach.mono (hok : ∀ s a, ok s a → ok' s a) {s : σ} (hr : Reach M ok s) :
    Reach M ok' s := by
  induction hr with
  | init h => exact .init h
  | step _ ho hs ih => exact .step ih (hok _ _ ho) hs

/-- **The simulation rule.**  If `R` relates the initial states and every guarded step of `M` is
    matched by a step of the abstract machine `A`, then every run of `M` is matched by a run of
    `A`. -/
theorem Reach.simulates {A : Machine τ α} {R : σ → τ → Prop}
    (h0 : ∀ s, M.init s → ∃ t, A.init t ∧ R s t)
    (hstep : ∀ s t a s', R s t → ok s a → M.step s a s' → ∃ t', A.step t a t' ∧ R s' t')
    {s : σ} (hr : Reach M ok s) : ∃ t, Reach A (fun _ _ => True) t ∧ R s t := by
  induction hr with
  | init h =>
    obtain ⟨t, ht, hR⟩ := h0 _ h
    exact ⟨t, .init ht, hR⟩
  | step _ ho hs ih =>
    obtain ⟨t, ht, hR⟩ := ih
    obtain ⟨t', hA, hR'⟩ := hstep _ _ _ _ hR ho hs
    exact ⟨t', .step ht trivial hA, hR'⟩

/-- **A list of calls**, carried out by a function one after the other, as far as each is a guarded
    step: what it comes to is reached. -/
theorem Reach.foldlM {exec : σ → α → Option σ}
    (hexec : ∀ s a s', exec s a = some s' → ok s a ∧ M.step s a s') :
    ∀ (calls : List α) {s s' : σ}, Reach M ok s → calls.foldlM exec s = some s' → Reach M ok s'
  | [], _, _, hr, hs => Option.some.inj hs ▸ hr
  | a :: calls, s, _, hr, hs => by
    rw [List.foldlM_cons] at hs
    obtain ⟨s₁, hs₁, hs⟩ := Option.bind_eq_some_iff.mp hs
    obtain ⟨hok, hstep⟩ := hexec s a s₁ hs₁
    exact Reach.foldlM hexec calls (hr.step hok hstep) hs

/-- One more call of a machine given by a function. -/
theorem Reach.ofFn_step {s₀ : σ} {f : σ → α → σ} {s : σ} {a : α}
    (hr : Reach (Machine.ofFn s₀ f) ok s) (ho : ok s a) :
    Reach (Machine.ofFn s₀ f) ok (f s a) :=
  .step hr ho rfl

/-- The invariant rule for a machine given by a function. -/
theorem Reach.ofFn_invariant {s₀ : σ} {f : σ → α → σ} {I : σ → Prop} (h0 : I s₀)
    (hstep : ∀ s a, I s → ok s a → I (f s a)) {s : σ} (hr : Reach (Machine.ofFn s₀ f) ok s) :
    I s := by
  refine hr.invariant (I := I) ?_ ?_
  · rintro s rfl
    exact h0
  · rintro s a s' h ho rfl
    exact hstep s a h ho

end Rules

end Runs
