/-
  The first run of cells that have a property.

  A run of `num` cells is looked for among the cells `0, …, n - 1` in one pass, from left to right.
  The pass remembers how many of the last cells had the property, and where the first of these was;
  a cell without it starts the count again.

  `Upto` is what the pass knows at cell `i`: the last cells with the property, no more of them to
  the left, and no run so far.  Each round keeps it or has found the first run (`search_firstRun`).

  Arbitrary properties; nothing here names a program.
-/
import Mathlib.Order.Basic

namespace RunSearch

variable {p : Nat → Bool} {num n i : Nat}

/-- The `num` cells from `start` on have the property. -/
def Run (p : Nat → Bool) (num start : Nat) : Prop := ∀ k, start ≤ k → k < start + num → p k = true

/-- The outcome of a search for the first run of `num` of `n` cells. -/
def FirstRun (p : Nat → Bool) (num n : Nat) : Option Nat → Prop
  | some s => s + num ≤ n ∧ Run p num s ∧ ∀ s' < s, ¬ Run p num s'
  | none => ∀ s, s + num ≤ n → ¬ Run p num s

/-- The pass at cell `i`, with `left` cells to go: the last `count` cells have the property, from
    `start` on if there are any. -/
def search (p : Nat → Bool) (num : Nat) : Nat → Nat → Nat → Nat → Bool → Option Nat
  | 0, _, _, _, _ => none
  | left + 1, i, count, start, found =>
    if p i then
      let start := if found then start else i
      if count + 1 ≥ num then some start
      else search p num left (i + 1) (count + 1) start true
    else search p num left (i + 1) 0 start false

/-- What the pass knows at cell `i`. -/
structure Upto (p : Nat → Bool) (num i count start : Nat) (found : Bool) : Prop where
  none : found = false → count = 0
  some : found = true → start + count = i
  le : count ≤ i
  last : ∀ k, i - count ≤ k → k < i → p k = true
  more : count < i → p (i - count - 1) = false
  short : ∀ s, s + num ≤ i → ¬ Run p num s

namespace Upto

variable {count start : Nat} {found : Bool}

theorem first (hnum : 1 ≤ num) : Upto p num 0 0 start false where
  none _ := rfl
  some h := by cases h
  le := Nat.le_refl 0
  last k _ hk := absurd hk (Nat.not_lt_zero k)
  more h := absurd h (Nat.lt_irrefl 0)
  short s hs := by omega

/-- Where the last cells with the property begin, if cell `i` is one more of them. -/
theorem start_eq (h : Upto p num i count start found) :
    (if found then start else i) + count = i := by
  cases found with
  | true => exact h.some rfl
  | false =>
    have hcount := h.none rfl
    show i + count = i
    omega

/-- A run that starts left of the last cells with the property is over before they begin. -/
theorem not_run (h : Upto p num i count start found) {s : Nat} (hs : s < i - count) :
    ¬ Run p num s := by
  intro hrun
  by_cases hfit : s + num ≤ i
  · exact h.short s hfit hrun
  · have hup := h.more (by omega)
    rw [hrun (i - count - 1) (by omega) (by omega)] at hup
    cases hup

/-- A round that finds nothing: cell `i` has the property. -/
theorem down (h : Upto p num i count start found) (hp : p i = true) (hlt : count + 1 < num) :
    Upto p num (i + 1) (count + 1) (if found then start else i) true where
  none h := by cases h
  some _ := by
    have hstart := h.start_eq
    omega
  le := Nat.succ_le_succ h.le
  last k hk hki := by
    rcases Nat.lt_or_eq_of_le (Nat.le_of_lt_succ hki) with hlt | rfl
    · exact h.last k (by omega) hlt
    · exact hp
  more hlt' := by
    have hmore := h.more (by omega)
    rwa [show i + 1 - (count + 1) - 1 = i - count - 1 by omega]
  short s hs := by
    have hle := h.le
    exact h.not_run (by omega)

/-- A round that starts the count again. -/
theorem up (h : Upto p num i count start found) (hp : p i = false) (hnum : 1 ≤ num) :
    Upto p num (i + 1) 0 start false where
  none _ := rfl
  some h := by cases h
  le := Nat.zero_le _
  last k hk hki := by omega
  more _ := hp
  short s hs hrun := by
    by_cases hfit : s + num ≤ i
    · exact h.short s hfit hrun
    · rw [hrun i (by omega) (by omega)] at hp
      cases hp

/-- The round that finds the run. -/
theorem finds (h : Upto p num i count start found) (hp : p i = true) (hge : num ≤ count + 1)
    (hshort : count < num) :
    (if found then start else i) + num = i + 1 ∧ Run p num (if found then start else i) ∧
      ∀ s < (if found then start else i), ¬ Run p num s := by
  have hstart := h.start_eq
  generalize (if found then start else i) = s at hstart ⊢
  have heq : num = count + 1 := by omega
  refine ⟨by omega, fun k hk hki => ?_, fun s' hs' => h.not_run (by omega)⟩
  rcases Nat.lt_or_eq_of_le (show k ≤ i by omega) with hlt | rfl
  · exact h.last k (by omega) hlt
  · exact hp

end Upto

/-- **The pass finds the first run.** -/
theorem search_upto (hnum : 1 ≤ num) {left count start : Nat} {found : Bool}
    (h : Upto p num i count start found) (hshort : count < num) :
    FirstRun p num (i + left) (search p num left i count start found) := by
  induction left generalizing i count start found with
  | zero => exact h.short
  | succ left ih =>
    rw [search, show i + (left + 1) = i + 1 + left by omega]
    by_cases hp : p i = true
    · rw [if_pos hp]
      by_cases hge : count + 1 ≥ num
      · obtain ⟨hend, hrun, hfirst⟩ := h.finds hp hge hshort
        rw [if_pos hge]
        exact ⟨by omega, hrun, hfirst⟩
      · rw [if_neg hge]
        exact ih (h.down hp (by omega)) (by omega)
    · rw [if_neg hp]
      exact ih (h.up (eq_false_of_ne_true hp) hnum) hnum

theorem search_firstRun (hnum : 1 ≤ num) : FirstRun p num n (search p num n 0 0 0 false) := by
  have h : FirstRun p num (0 + n) (search p num n 0 0 0 false) :=
    search_upto hnum (Upto.first hnum) hnum
  rwa [Nat.zero_add] at h

/-- There is one first run, or none. -/
theorem FirstRun.unique {r r' : Option Nat} (h : FirstRun p num n r) (h' : FirstRun p num n r') :
    r = r' := by
  cases r with
  | none =>
    cases r' with
    | none => rfl
    | some s => exact absurd h'.2.1 (h s h'.1)
  | some s =>
    cases r' with
    | none => exact absurd h.2.1 (h' s h.1)
    | some s' =>
      rcases Nat.lt_trichotomy s s' with hlt | rfl | hgt
      · exact absurd h.2.1 (h'.2.2 s hlt)
      · rfl
      · exact absurd h'.2.1 (h.2.2 s' hgt)

end RunSearch
