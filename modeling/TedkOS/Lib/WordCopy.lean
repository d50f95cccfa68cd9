/-
  Copying an array within a memory, element by element, lowest first.

  Element `i` of the array at `addr` is at `addr + k * i`.  Where the target does not start inside
  the source, every element is read before it is overwritten, and the copy is what the source was
  (`copied_element`); all that is not an element of the target stays as it was (`copied_other`).  An
  array copied onto itself stays as it was, too (`copied_self`).

  Nothing here names a program.
-/
import Mathlib.Logic.Function.Basic

namespace WordCopy

variable {α : Type*} {k dst src n : Nat} {mem : Nat → α}

/-- Memory after the first `n` elements are copied from `src` to `dst`. -/
def copied (k dst src : Nat) (mem : Nat → α) : Nat → Nat → α
  | 0 => mem
  | n + 1 => Function.update (copied k dst src mem n) (dst + k * n)
    (copied k dst src mem n (src + k * n))

theorem copied_succ : copied k dst src mem (n + 1) =
    Function.update (copied k dst src mem n) (dst + k * n) (copied k dst src mem n (src + k * n)) :=
  rfl

/-- **FRAME.** -/
theorem copied_other {a : Nat} (h : ∀ i, i < n → a ≠ dst + k * i) :
    copied k dst src mem n a = mem a := by
  induction n with
  | zero => rfl
  | succ n ih =>
    rw [copied_succ, Function.update_of_ne (h n (Nat.lt_succ_self n))]
    exact ih fun i hi => h i (Nat.lt_succ_of_lt hi)

/-- Elements lie in the order of their indices. -/
theorem element_lt (hk : 0 < k) (addr : Nat) {i j : Nat} (h : i < j) :
    addr + k * i < addr + k * j :=
  Nat.add_lt_add_left (Nat.mul_lt_mul_of_pos_left h hk) addr

/-- **COPY**, to below the source, to its place, or to behind its end. -/
theorem copied_element (hk : 0 < k) (h : dst ≤ src ∨ src + k * n ≤ dst) {i : Nat} (hi : i < n) :
    copied k dst src mem n (dst + k * i) = mem (src + k * i) := by
  induction n with
  | zero => exact absurd hi (Nat.not_lt_zero i)
  | succ n ih =>
    have hov : dst ≤ src ∨ src + k * n ≤ dst := by
      rw [Nat.mul_succ] at h
      omega
    rw [copied_succ]
    rcases Nat.lt_succ_iff_lt_or_eq.mp hi with hlt | rfl
    · rw [Function.update_of_ne (Nat.ne_of_lt (element_lt hk dst hlt))]
      exact ih hov hlt
    · -- nothing that was copied so far is behind element `i` of the target, or in the source
      rw [Function.update_self]
      refine copied_other fun j hj => ?_
      have hlt := element_lt hk dst hj
      rw [Nat.mul_succ] at h
      omega

theorem copied_self : copied k src src mem n = mem := by
  induction n with
  | zero => rfl
  | succ n ih => rw [copied_succ, ih, Function.update_eq_self]

end WordCopy
