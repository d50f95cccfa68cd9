/-
  Handles: is everything that was opened closed once?

  Handles are numbered as they are given out.  `Balanced h held` says that each of them was closed
  exactly once, but for the one that is held, which was not closed at all.  A component that holds
  at most one handle at a time keeps it by opening when it holds none and closing what it holds
  (`acquire`, `release`).  There are two ways to lose it: to forget the handle held
  (`not_forgotten`), or to close one that is not held (`not_closed_again`).

  Nothing here names a program.
-/
import Mathlib.Logic.Function.Basic

/-- The handles given out, and how often each was closed. -/
structure Handles where
  opened : Nat
  closes : Nat → Nat

namespace Handles

def start : Handles := ⟨0, fun _ => 0⟩

/-- The next handle is given out; it is `h.opened`. -/
def acquire (h : Handles) : Handles := { h with opened := h.opened + 1 }

def release (h : Handles) (id : Nat) : Handles :=
  { h with closes := Function.update h.closes id (h.closes id + 1) }

/-- Each handle was closed once, but for the one that is held. -/
structure Balanced (h : Handles) (held : Option Nat) : Prop where
  closes : ∀ id, id < h.opened → h.closes id = if held = some id then 0 else 1
  unopened : ∀ id, h.opened ≤ id → h.closes id = 0
  held : ∀ id, held = some id → id < h.opened

variable {h : Handles} {id : Nat}

theorem Balanced.start : Balanced Handles.start none :=
  ⟨fun _ hid => absurd hid (Nat.not_lt_zero _), fun _ _ => rfl, fun _ e => by cases e⟩

/-- **Opening**, with nothing held. -/
theorem Balanced.acquire (hb : h.Balanced none) : h.acquire.Balanced (some h.opened) := by
  refine ⟨fun id hid => ?_, fun id hid => hb.unopened id (Nat.le_of_succ_le hid), ?_⟩
  · show h.closes id = _
    rcases Nat.lt_or_eq_of_le (Nat.le_of_lt_succ hid) with hlt | rfl
    · have hne : ¬ some h.opened = some id := fun e => Nat.ne_of_gt hlt (Option.some.inj e)
      rw [hb.closes id hlt, if_neg (by simp), if_neg hne]
    · rw [hb.unopened _ (Nat.le_refl _), if_pos rfl]
  · rintro id e
    rw [← Option.some.inj e]
    exact Nat.lt_succ_self _

/-- **Closing what is held.** -/
theorem Balanced.release (hb : h.Balanced (some id)) : (h.release id).Balanced none := by
  have hlt : id < h.opened := hb.held id rfl
  refine ⟨fun j hj => ?_, fun j hj => ?_, fun _ e => by cases e⟩
  · show Function.update h.closes id (h.closes id + 1) j = _
    by_cases he : j = id
    · subst he
      rw [Function.update_self, hb.closes j hlt, if_pos rfl, if_neg (by simp)]
    · have hne : ¬ some id = some j := fun e => he (Option.some.inj e).symm
      rw [Function.update_of_ne he, hb.closes j hj, if_neg hne, if_neg (by simp)]
  · show Function.update h.closes id (h.closes id + 1) j = 0
    rw [Function.update_of_ne (Nat.ne_of_gt (Nat.lt_of_lt_of_le hlt hj))]
    exact hb.unopened j hj

/-- A handle that is held cannot be forgotten. -/
theorem Balanced.not_forgotten (hb : h.Balanced (some id)) : ¬ h.Balanced none := by
  intro hb'
  have hlt := hb.held id rfl
  have hzero := hb.closes id hlt
  rw [hb'.closes id hlt, if_pos rfl, if_neg (by simp)] at hzero
  cases hzero

/-- A handle that is not held cannot be closed again. -/
theorem Balanced.not_closed_again (hb : h.Balanced none) (hid : id < h.opened) (held : Option Nat) :
    ¬ (h.release id).Balanced held := by
  intro hb'
  have htwice := hb'.closes id hid
  have hclosed : (h.release id).closes id = h.closes id + 1 := Function.update_self _ _ _
  rw [hclosed, hb.closes id hid, if_neg (by simp)] at htwice
  split at htwice <;> cases htwice

end Handles
