/-
  Rules of reasoning for computations that can stop with an error.

  `Ensures ok x Q` says of a computation `x : Except ε α` what may come out of it: a value with `Q`,
  or one of the errors `ok` tolerates.  It is the triple of a Hoare logic, with the errors the
  program is allowed to end in as a parameter, so "no error" is `ok := fun _ => False`.

  * `Ensures.bind`   — the sequencing rule;
  * `Ensures.mono`   — the rule of consequence;
  * `Ensures.value`, `Ensures.error` — what a triple says once the outcome is known.

  `Exactly x p a` says more: `x` succeeds under the condition `p` and no other, and then with `a`.
  Its sequencing rule collects the conditions on the way, so a long computation of checks and reads
  ends up with the condition under which it runs through.

  Nothing here names a program.
-/
import Mathlib.Logic.Basic

namespace Checked

variable {ε α β : Type} {ok : ε → Prop}

/-- Whatever comes out of `x` is a value with `Q` or a tolerated error. -/
def Ensures (ok : ε → Prop) (x : Except ε α) (Q : α → Prop) : Prop :=
  match x with
  | .ok a => Q a
  | .error e => ok e

/-- A value is handed on. -/
@[simp] theorem ok_bind (a : α) (f : α → Except ε β) : ((.ok a : Except ε α) >>= f) = f a := rfl

/-- A value comes out of a sequence when one comes out of each part. -/
theorem bind_eq_ok {x : Except ε α} {f : α → Except ε β} {b : β} :
    (x >>= f) = .ok b ↔ ∃ a, x = .ok a ∧ f a = .ok b := by
  cases x with
  | ok a => exact ⟨fun h => ⟨a, rfl, h⟩, fun ⟨_, ha, hb⟩ => Except.ok.inj ha ▸ hb⟩
  | error e => exact ⟨fun h => (nomatch h), fun ⟨_, ha, _⟩ => (nomatch ha)⟩

/-- What is left when the errors are forgotten. -/
theorem toOption_eq_some {x : Except ε α} {a : α} : x.toOption = some a ↔ x = .ok a := by
  cases x with
  | ok b => exact ⟨fun h => congrArg Except.ok (Option.some.inj h),
    fun h => congrArg some (Except.ok.inj h)⟩
  | error e => exact ⟨fun h => (nomatch h), fun h => (nomatch h)⟩

namespace Ensures

variable {x : Except ε α} {P Q : α → Prop}

theorem pure {a : α} (h : Q a) : Ensures ok (Pure.pure a : Except ε α) Q := h

theorem fail {e : ε} (h : ok e) : Ensures ok (.error e : Except ε α) Q := h

/-- **Sequencing.** -/
theorem bind {f : α → Except ε β} {R : β → Prop} (hx : Ensures ok x P)
    (hf : ∀ a, P a → Ensures ok (f a) R) : Ensures ok (x >>= f) R := by
  cases x with
  | ok a => exact hf a hx
  | error e => exact hx

/-- **Branching.** -/
theorem ite {c : Prop} [Decidable c] {y : Except ε α} (hx : c → Ensures ok x Q)
    (hy : ¬c → Ensures ok y Q) :
    Ensures ok (if c then x else y) Q := by
  by_cases hc : c
  · rw [if_pos hc]
    exact hx hc
  · rw [if_neg hc]
    exact hy hc

/-- **Consequence.** -/
theorem mono (hx : Ensures ok x P) (h : ∀ a, P a → Q a) : Ensures ok x Q := by
  cases x with
  | ok a => exact h a hx
  | error e => exact hx

/-- More errors may be tolerated. -/
theorem weaken {ok' : ε → Prop} (hx : Ensures ok x Q) (h : ∀ e, ok e → ok' e) :
    Ensures ok' x Q := by
  cases x with
  | ok a => exact hx
  | error e => exact h e hx

/-- Two triples about one computation. -/
theorem and (hx : Ensures ok x P) (hy : Ensures ok x Q) : Ensures ok x fun a => P a ∧ Q a := by
  cases x with
  | ok a => exact ⟨hx, hy⟩
  | error e => exact hx

theorem map {f : α → β} {R : β → Prop} (hx : Ensures ok x fun a => R (f a)) :
    Ensures ok (f <$> x) R := by
  cases x with
  | ok a => exact hx
  | error e => exact hx

/-- A computation known to succeed. -/
theorem of_eq {a : α} (hx : x = .ok a) (h : Q a) : Ensures ok x Q := by
  subst hx
  exact h

theorem value (h : Ensures ok x Q) {a : α} (hx : x = .ok a) : Q a := by
  subst hx
  exact h

theorem error (h : Ensures ok x Q) {e : ε} (hx : x = .error e) : ok e := by
  subst hx
  exact h

/-- A triple that tolerates no error promises a value. -/
theorem exists_ok (h : Ensures (fun _ : ε => False) x Q) : ∃ a, x = .ok a ∧ Q a := by
  cases x with
  | ok a => exact ⟨a, rfl, h⟩
  | error e => exact absurd h id

end Ensures

-- The rules above are all there is to know; unfolding a triple would run the program.
attribute [irreducible] Ensures

/-- `x` succeeds exactly under the condition `p`, with value `a`. -/
structure Exactly (x : Except ε α) (p : Prop) (a : α) : Prop where
  succeeds : p → x = .ok a
  fails : ¬ p → ∃ e, x = .error e

/-- Go on if `p`, stop with `e` if not. -/
def check (p : Prop) [Decidable p] (e : ε) : Except ε Unit := if p then .ok () else .error e

namespace Exactly

variable {x : Except ε α} {p q : Prop} {a : α}

/-- A computation known to succeed. -/
theorem of_eq (h : x = .ok a) : Exactly x True a := ⟨fun _ => h, fun hp => absurd trivial hp⟩

theorem check [Decidable p] (e : ε) : Exactly (check p e) p () := by
  constructor
  · intro hp
    exact if_pos hp
  · intro hp
    exact ⟨e, if_neg hp⟩

theorem congr (h : Exactly x p a) (hpq : p ↔ q) : Exactly x q a :=
  ⟨fun hq => h.succeeds (hpq.mpr hq), fun hq => h.fails fun hp => hq (hpq.mp hp)⟩

/-- **Sequencing.**  What follows runs only if the first part did. -/
theorem bind {f : α → Except ε β} {b : β} (hx : Exactly x p a) (hf : p → Exactly (f a) q b) :
    Exactly (x >>= f) (p ∧ q) b := by
  constructor
  · rintro ⟨hp, hq⟩
    rw [hx.succeeds hp]
    exact (hf hp).succeeds hq
  · intro hpq
    by_cases hp : p
    · rw [hx.succeeds hp]
      exact (hf hp).fails fun hq => hpq ⟨hp, hq⟩
    · obtain ⟨e, he⟩ := hx.fails hp
      rw [he]
      exact ⟨e, rfl⟩

/-- What follows cannot fail. -/
theorem bind_ok {f : α → Except ε β} {b : β} (hx : Exactly x p a) (hf : f a = .ok b) :
    Exactly (x >>= f) p b :=
  (hx.bind fun _ => of_eq hf).congr (and_iff_left trivial)

/-- The first part cannot fail. -/
theorem ok_bind {f : α → Except ε β} {b : β} (hx : x = .ok a) (hf : Exactly (f a) q b) :
    Exactly (x >>= f) q b := by
  rw [hx]
  exact hf

theorem map {f : α → β} (hx : Exactly x p a) : Exactly (f <$> x) p (f a) := by
  constructor
  · intro hp
    rw [hx.succeeds hp]
    rfl
  · intro hp
    obtain ⟨e, he⟩ := hx.fails hp
    exact ⟨e, by rw [he]; rfl⟩

theorem ok_iff (h : Exactly x p a) {b : α} : x = .ok b ↔ p ∧ b = a := by
  constructor
  · intro hx
    by_cases hp : p
    · rw [h.succeeds hp] at hx
      exact ⟨hp, (Except.ok.inj hx).symm⟩
    · obtain ⟨e, he⟩ := h.fails hp
      rw [he] at hx
      exact absurd hx (by simp)
  · rintro ⟨hp, rfl⟩
    exact h.succeeds hp

/-- Whether it succeeds at all. -/
theorem exists_ok_iff (h : Exactly x p a) : (∃ b, x = .ok b) ↔ p := by
  constructor
  · rintro ⟨b, hb⟩
    exact (h.ok_iff.mp hb).1
  · intro hp
    exact ⟨a, h.succeeds hp⟩

/-- What follows cannot fail, so the first part decides. -/
theorem exists_bind_iff {f : α → Except ε β} (hx : Exactly x p a) (hf : ∃ b, f a = .ok b) :
    (∃ b, x >>= f = .ok b) ↔ p := by
  obtain ⟨b, hb⟩ := hf
  exact (hx.bind_ok hb).exists_ok_iff

end Exactly

end Checked
