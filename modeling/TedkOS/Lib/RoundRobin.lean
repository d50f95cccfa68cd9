/-
  Queues that take turns.

  A queue is TURNED when the first of its elements that may be served is served and goes to the
  back, and those before it, which may not, go there too, in their order.  So a turn rotates the
  queue, and who is served is behind everybody else.

  An element that may be served is overtaken by none behind it: as long as it is not served itself,
  it stays before them and none of them is served (`Turn.waits`).  Elements that join at the back
  change nothing about that, nor does who else may be served (`Step.waits`), so the same holds of a
  whole run (`Interval.served`).

  Nothing here names a program.
-/
import Mathlib.Data.List.Rotate

namespace RoundRobin

variable {α : Type} {p : α → Prop} {q q' served : List α} {r t x : α}

/-- `r` stands before `t` in `q`. -/
abbrev Before (q : List α) (r t : α) : Prop := [r, t].Sublist q

/-- `x` is the first in `q` with `p`, and `q'` the queue turned past it. -/
def Turn (p : α → Prop) (q : List α) (x : α) (q' : List α) : Prop :=
  ∃ skipped rest, q = skipped ++ x :: rest ∧ (∀ y ∈ skipped, ¬ p y) ∧ p x ∧
    q' = rest ++ skipped ++ [x]

namespace Turn

/-- Nobody is skipped when the first may be served. -/
theorem head (h : p x) : Turn p (x :: q) x (q ++ [x]) :=
  ⟨[], q, rfl, fun _ hy => absurd hy List.not_mem_nil, h, by rw [List.append_nil]⟩

/-- One that may not be served is skipped. -/
theorem skip {y : α} (hy : ¬ p y) (h : Turn p (q ++ [y]) x q') : Turn p (y :: q) x q' := by
  obtain ⟨skipped, rest, hq, hskipped, hx, rfl⟩ := h
  rcases List.eq_nil_or_concat rest with rfl | ⟨rest, z, rfl⟩
  · obtain ⟨-, hlast⟩ := List.append_inj' hq rfl
    obtain rfl : y = x := List.head_eq_of_cons_eq hlast
    exact absurd hx hy
  · rw [List.concat_eq_append, ← List.cons_append, ← List.append_assoc] at hq
    obtain ⟨rfl, hlast⟩ := List.append_inj' hq rfl
    obtain rfl : y = z := List.head_eq_of_cons_eq hlast
    refine ⟨y :: skipped, rest, rfl, ?_, hx, by simp⟩
    rintro w (_ | ⟨_, hw⟩)
    · exact hy
    · exact hskipped w hw

theorem isRotated (h : Turn p q x q') : q' ~r q := by
  obtain ⟨skipped, rest, rfl, -, -, rfl⟩ := h
  have hsplit : skipped ++ x :: rest = (skipped ++ [x]) ++ rest := by
    rw [List.append_assoc]
    rfl
  rw [hsplit, List.append_assoc]
  exact List.isRotated_append

/-- Who was served is behind everybody else. -/
theorem behind (h : Turn p q x q') (hr : r ∈ q') (hne : r ≠ x) : Before q' r x := by
  obtain ⟨skipped, rest, -, -, -, rfl⟩ := h
  have hfront : r ∈ rest ++ skipped := by
    rcases List.mem_append.mp hr with hfront | hback
    · exact hfront
    · exact absurd (List.mem_singleton.mp hback) hne
  exact (List.singleton_sublist.mpr hfront).append (List.Sublist.refl [x])

/-- **Who may be served and is not** stays before those behind, and none of them is served. -/
theorem waits (h : Turn p q x q') (hnodup : q.Nodup) (hp : p r) (hbefore : Before q r t)
    (hne : x ≠ r) :
    x ≠ t ∧ Before q' r t := by
  obtain ⟨skipped, rest, rfl, hskipped, -, rfl⟩ := h
  -- `r` is not skipped, so both are behind `x`
  have hrest : Before rest r t := by
    have hfront : Before (x :: rest) r t := by
      obtain ⟨l₁, l₂, hsplit, hl₁, hl₂⟩ := List.sublist_append_iff.mp hbefore
      cases l₁ with
      | nil =>
        obtain rfl : l₂ = [r, t] := hsplit.symm
        exact hl₂
      | cons y l₁ =>
        obtain rfl : r = y := List.head_eq_of_cons_eq hsplit
        exact absurd hp (hskipped r (hl₁.subset List.mem_cons_self))
    cases hfront with
    | cons _ h => exact h
    | cons_cons _ _ => exact absurd rfl hne
  refine ⟨?_, ?_⟩
  · rintro rfl
    have hin : x ∈ rest := hrest.subset (List.mem_cons_of_mem r List.mem_cons_self)
    exact (List.nodup_cons.mp (List.nodup_append.mp hnodup).2.1).1 hin
  · rw [List.append_assoc]
    exact hrest.trans (List.sublist_append_left _ _)

end Turn

/-- A step of a queue without duplicates: somebody is served, or some join. -/
inductive Step (p : α → Prop) : List α → List α → List α → Prop
  | serve {q q' : List α} {x : α} : Turn p q x q' → Step p q [x] q'
  | join {q new : List α} : (q ++ new).Nodup → Step p q [] (q ++ new)

theorem Step.nodup (h : Step p q served q') (hnodup : q.Nodup) : q'.Nodup := by
  cases h with
  | serve hturn => exact hturn.isRotated.perm.nodup_iff.mpr hnodup
  | join hnew => exact hnew

theorem Step.waits (h : Step p q served q') (hnodup : q.Nodup) (hp : p r) (hbefore : Before q r t) :
    served = [r] ∨ t ∉ served ∧ Before q' r t := by
  cases h with
  | serve hturn =>
    rename_i x
    by_cases hne : x = r
    · exact Or.inl (congrArg (fun y => [y]) hne)
    · obtain ⟨hother, hkept⟩ := hturn.waits hnodup hp hbefore hne
      exact Or.inr ⟨fun hmem => hother (List.mem_singleton.mp hmem).symm, hkept⟩
  | join _ => exact Or.inr ⟨List.not_mem_nil, hbefore.trans (List.sublist_append_left q _)⟩

/-- A run in which `r` may be served all the time, and who is served in it. -/
inductive Interval (r : α) : List α → List α → List α → Prop
  | nil (q : List α) : Interval r q [] q
  | step {p : α → Prop} {q served q' served' q'' : List α} : p r → Step p q served q' →
      Interval r q' served' q'' → Interval r q (served ++ served') q''

/-- **First come, first served**: if `t` is served in the run, `r` was served before. -/
theorem Interval.served_before (h : Interval r q served q') (hnodup : q.Nodup)
    (hbefore : Before q r t) (hmem : t ∈ served) :
    ∃ sel sel', served = sel ++ sel' ∧ r ∈ sel ∧ t ∉ sel := by
  induction h with
  | nil q => exact absurd hmem List.not_mem_nil
  | @step _ q served _ served' _ hp hstep _ ih =>
    rcases hstep.waits hnodup hp hbefore with rfl | ⟨hother, hkept⟩
    · have hne : r ≠ t := by
        rintro rfl
        exact absurd (hnodup.sublist hbefore) (by simp)
      exact ⟨[r], served', rfl, List.mem_singleton_self r,
        fun h => hne (List.mem_singleton.mp h).symm⟩
    · have hlater : t ∈ served' := (List.mem_append.mp hmem).resolve_left hother
      obtain ⟨sel, sel', rfl, hr, ht⟩ := ih (hstep.nodup hnodup) hkept hlater
      refine ⟨served ++ sel, sel', (List.append_assoc served sel sel').symm,
        List.mem_append_right _ hr, ?_⟩
      exact fun h => (List.mem_append.mp h).elim hother ht

/-- Between two times that `t` is served, `r` is. -/
theorem Interval.served_between (h : Interval r q (served ++ [t]) q') (hnodup : q.Nodup)
    (hbefore : Before q r t) : r ∈ served := by
  obtain ⟨sel, sel', hsplit, hr, ht⟩ := h.served_before hnodup hbefore
    (List.mem_append_right served (List.mem_singleton_self t))
  rcases List.eq_nil_or_concat sel' with rfl | ⟨front, z, rfl⟩
  · rw [List.append_nil] at hsplit
    exact absurd (hsplit ▸ List.mem_append_right served (List.mem_singleton_self t)) ht
  · rw [List.concat_eq_append, ← List.append_assoc] at hsplit
    obtain ⟨rfl, -⟩ := List.append_inj' hsplit rfl
    exact List.mem_append_left front hr

end RoundRobin
