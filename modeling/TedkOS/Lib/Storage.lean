/-
  A heap shared by several owners.

  An owner keeps a list of values in the heap, each in a cell of its own.

  * `Stores heap ps l` — the cells `ps` are distinct and contain `l`;
  * `Moves heap heap' ps ps'` — from `heap` to `heap'` an owner has gone from the cells `ps` to the
    cells `ps'`: new ones were free, those given up are free now, and nothing else has changed;
  * `Apart heap own lists` — every owner stores its list, and no cell has two owners.

  **The frame rule** `Apart.move`: when one owner moves, the lists of the others stay.

  Nothing here names a program.
-/
import Mathlib.Data.List.InsertIdx
import Mathlib.Data.List.Nodup
import Mathlib.Logic.Function.Basic

namespace Storage

variable {α β ι : Type} {heap heap' heap'' : α → Option β} {ps ps' ps'' : List α} {l l' : List β}
  {p q : α} {x : β} {i : Nat}

/-- The cells `ps` are distinct and contain `l`. -/
structure Stores (heap : α → Option β) (ps : List α) (l : List β) : Prop where
  /-- No cell is there twice, -/
  nodup : ps.Nodup
  /-- and the `i`-th cell contains the `i`-th value. -/
  points : ps.map heap = l.map some

/-- An owner goes from the cells `ps` to the cells `ps'`. -/
structure Moves (heap heap' : α → Option β) (ps ps' : List α) : Prop where
  /-- A cell that is neither given up nor taken stays as it is, -/
  outside : ∀ q, q ∉ ps → q ∉ ps' → heap' q = heap q
  /-- one that is given up is free afterwards, -/
  freed : ∀ q ∈ ps, q ∉ ps' → heap' q = none
  /-- and one that is taken was free before. -/
  fresh : ∀ q ∈ ps', q ∉ ps → heap q = none

/-! ## One owner

  Two relations of one owner with the heap: what it stores, and how it goes from one set of cells
  to another.  Moves compose, and give and take are inserted into them one cell at a time. -/

namespace Stores

theorem nil : Stores heap [] [] := ⟨List.nodup_nil, rfl⟩

theorem length (h : Stores heap ps l) : ps.length = l.length := by
  have hlen := congrArg List.length h.points
  rwa [List.length_map, List.length_map] at hlen

/-- A cell of the list contains the value at its place. -/
theorem get (h : Stores heap ps l) (hp : ps[i]? = some p) : heap p = l[i]? := by
  have hi := congrArg (fun m => m[i]?) h.points
  simp only [List.getElem?_map, hp, Option.map_some] at hi
  cases hl : l[i]? with
  | none => rw [hl] at hi; exact absurd hi (by simp)
  | some x => rw [hl] at hi; exact Option.some.inj hi

/-- A cell in use is not free. -/
theorem ne_none (h : Stores heap ps l) (hq : q ∈ ps) : heap q ≠ none := by
  intro hnone
  obtain ⟨i, hi⟩ := List.mem_iff_getElem?.mp hq
  have hget := h.get hi
  rw [hnone, eq_comm, List.getElem?_eq_none_iff, ← h.length] at hget
  obtain ⟨hlt, -⟩ := List.getElem?_eq_some_iff.mp hi
  omega

/-- Only the cells matter. -/
theorem congr (h : Stores heap ps l) (hsame : ∀ q ∈ ps, heap' q = heap q) : Stores heap' ps l :=
  ⟨h.nodup, (List.map_congr_left hsame).trans h.points⟩

/-- One more cell in front. -/
theorem cons (h : Stores heap ps l) (hp : p ∉ ps) (hx : heap p = some x) :
    Stores heap (p :: ps) (x :: l) :=
  ⟨List.nodup_cons.mpr ⟨hp, h.nodup⟩, by rw [List.map_cons, List.map_cons, hx, h.points]⟩

/-- The cell that is taken out is not among the rest. -/
theorem mem_eraseIdx_ne (h : Stores heap ps l) (hq : ps[i]? = some q) :
    ∀ r ∈ ps.eraseIdx i, r ≠ q := by
  rintro r hr rfl
  obtain ⟨j, hji, hj⟩ := List.mem_eraseIdx_iff_getElem?.mp hr
  obtain ⟨hlt, -⟩ := List.getElem?_eq_some_iff.mp hj
  exact hji ((List.getElem?_inj hlt h.nodup).mp (hj.trans hq.symm))

section Cells

variable [DecidableEq α]

/-- A store in a free cell changes none of those in use. -/
theorem points_update (h : ps.map heap = l.map some) (hfree : heap p = none) :
    ps.map (Function.update heap p (some x)) = l.map some := by
  rw [← h]
  refine List.map_congr_left fun q hq => Function.update_of_ne ?_ _ _
  rintro rfl
  obtain ⟨y, -, hy⟩ := List.mem_map.mp (h ▸ List.mem_map_of_mem hq)
  rw [hfree] at hy
  exact absurd hy (Option.some_ne_none y)

/-- One cell more. -/
theorem insert (h : Stores heap ps l) (hi : i ≤ l.length) (hfree : heap p = none) :
    Stores (Function.update heap p (some x)) (ps.insertIdx i p) (l.insertIdx i x) := by
  have hlen := h.length
  have hout : p ∉ ps := fun hin => h.ne_none hin hfree
  constructor
  case nodup =>
    rw [(List.perm_insertIdx p ps (by omega)).nodup_iff, List.nodup_cons]
    exact ⟨hout, h.nodup⟩
  case points =>
    rw [List.map_insertIdx, List.map_insertIdx, Function.update_self, points_update h.points hfree]

/-- One cell less. -/
theorem erase (h : Stores heap ps l) (hq : ps[i]? = some q) :
    Stores (Function.update heap q none) (ps.eraseIdx i) (l.eraseIdx i) := by
  constructor
  case nodup => exact h.nodup.eraseIdx i
  case points =>
    have hsame : (ps.eraseIdx i).map (Function.update heap q none) = (ps.eraseIdx i).map heap :=
      List.map_congr_left fun r hr => Function.update_of_ne (h.mem_eraseIdx_ne hq r hr) _ _
    rw [hsame, ← List.eraseIdx_map, h.points, List.eraseIdx_map]

end Cells

end Stores

namespace Moves

/-- Staying where one is. -/
theorem refl : Moves heap heap ps ps where
  outside := fun _ _ _ => rfl
  freed := fun _ hq hout => absurd hq hout
  fresh := fun _ hq hout => absurd hq hout

/-- Two moves in a row. -/
theorem trans (h : Moves heap heap' ps ps') (h' : Moves heap' heap'' ps' ps'') :
    Moves heap heap'' ps ps'' := by
  constructor
  case outside =>
    intro q hq hq''
    by_cases hq' : q ∈ ps'
    · rw [h'.freed q hq' hq'', h.fresh q hq' hq]
    · rw [h'.outside q hq' hq'', h.outside q hq hq']
  case freed =>
    intro q hq hq''
    by_cases hq' : q ∈ ps'
    · exact h'.freed q hq' hq''
    · rw [h'.outside q hq' hq'', h.freed q hq hq']
  case fresh =>
    intro q hq'' hq
    by_cases hq' : q ∈ ps'
    · exact h.fresh q hq' hq
    · rw [← h.outside q hq hq', h'.fresh q hq'' hq']

/-- A store in a free cell, and then a move to other cells. -/
theorem store [DecidableEq α] (h : Moves (Function.update heap p (some x)) heap' [] ps)
    (hfree : ∀ q ∈ p :: ps, heap q = none) : Moves heap heap' [] (p :: ps) := by
  constructor
  case outside =>
    intro q _ hq
    rw [List.mem_cons, not_or] at hq
    rw [h.outside q List.not_mem_nil hq.2]
    exact Function.update_of_ne hq.1 _ _
  case freed => exact fun q hq => absurd hq List.not_mem_nil
  case fresh => exact fun q hq _ => hfree q hq

/-- What is not a cell of the owner after the move was free, or has not changed. -/
theorem eq_none (h : Moves heap heap' ps ps') (hq : q ∉ ps') (hfree : heap q = none) :
    heap' q = none := by
  by_cases hin : q ∈ ps
  · exact h.freed q hin hq
  · rw [h.outside q hin hq, hfree]

section Cells

variable [DecidableEq α]

/-- A value is put in: one cell is taken. -/
theorem insert (hi : i ≤ ps.length) (hfree : heap p = none) :
    Moves heap (Function.update heap p (some x)) ps (ps.insertIdx i p) := by
  constructor
  case outside =>
    intro q _ hq
    rw [List.mem_insertIdx hi, not_or] at hq
    exact Function.update_of_ne hq.1 _ _
  case freed =>
    intro q hin hq
    rw [List.mem_insertIdx hi, not_or] at hq
    exact absurd hin hq.2
  case fresh =>
    intro q hq hout
    rw [List.mem_insertIdx hi] at hq
    rw [hq.resolve_right hout, hfree]

/-- A value is taken out: its cell is given up. -/
theorem erase (hq : ps[i]? = some q) :
    Moves heap (Function.update heap q none) ps (ps.eraseIdx i) := by
  constructor
  case outside =>
    intro r hr _
    refine Function.update_of_ne ?_ _ _
    rintro rfl
    exact hr (List.mem_of_getElem? hq)
  case freed =>
    intro r hr hout
    obtain ⟨j, hj⟩ := List.mem_iff_getElem?.mp hr
    obtain rfl : j = i := Classical.byContradiction fun hji =>
      hout (List.mem_eraseIdx_iff_getElem?.mpr ⟨j, hji, hj⟩)
    rw [Option.some.inj (hj.symm.trans hq), Function.update_self]
  case fresh => exact fun r hr hout => absurd (List.mem_of_mem_eraseIdx hr) hout

end Cells

end Moves

/-! ## Several owners

  Their cells are disjoint, which is all that is needed for the frame rule: what one of them may
  touch, no other reads. -/

/-- Every owner stores its list, no cell has two owners, and a cell without an owner is free. -/
structure Apart (heap : α → Option β) (own : ι → List α) (lists : ι → List β) : Prop where
  /-- Every owner stores its list; -/
  stores : ∀ o, Stores heap (own o) (lists o)
  /-- two owners share no cell; -/
  apart : ∀ o o', o ≠ o' → ∀ q ∈ own o, q ∉ own o'
  /-- a cell in use is somebody's. -/
  owned : ∀ q, heap q ≠ none → ∃ o, q ∈ own o

namespace Apart

variable {own : ι → List α} {lists : ι → List β} {o : ι}

/-- At the start all cells are free and all lists empty. -/
theorem free (hfree : ∀ q, heap q = none) : Apart heap (fun _ : ι => []) (fun _ => []) where
  stores := fun _ => Stores.nil
  apart := fun _ _ _ _ _ => List.not_mem_nil
  owned := fun q hq => absurd (hfree q) hq

/-- **The frame rule.**  One owner moves; the others keep their cells and their lists. -/
theorem move [DecidableEq ι] (h : Apart heap own lists) (hm : Moves heap heap' (own o) ps')
    (hs : Stores heap' ps' l') :
    Apart heap' (Function.update own o ps') (Function.update lists o l') := by
  -- the cells of another owner are in use, so they are neither given up nor new
  have hother : ∀ o', o' ≠ o → ∀ q ∈ own o', q ∉ own o ∧ q ∉ ps' := by
    intro o' ho q hq
    refine ⟨h.apart o' o ho q hq, fun hq' => ?_⟩
    exact (h.stores o').ne_none hq (hm.fresh q hq' (h.apart o' o ho q hq))
  constructor
  case stores =>
    intro o'
    by_cases ho : o' = o
    · subst ho
      rw [Function.update_self, Function.update_self]
      exact hs
    · rw [Function.update_of_ne ho, Function.update_of_ne ho]
      exact (h.stores o').congr fun q hq => hm.outside q (hother o' ho q hq).1 (hother o' ho q hq).2
  case apart =>
    intro o₁ o₂ hne q hq hq'
    by_cases h₁ : o₁ = o
    · subst h₁
      rw [Function.update_self] at hq
      rw [Function.update_of_ne hne.symm] at hq'
      exact (hother o₂ hne.symm q hq').2 hq
    · rw [Function.update_of_ne h₁] at hq
      by_cases h₂ : o₂ = o
      · subst h₂
        rw [Function.update_self] at hq'
        exact (hother o₁ h₁ q hq).2 hq'
      · rw [Function.update_of_ne h₂] at hq'
        exact h.apart o₁ o₂ hne q hq hq'
  case owned =>
    intro q hq
    by_cases hnew : q ∈ ps'
    · exact ⟨o, by rwa [Function.update_self]⟩
    · have hold : heap q ≠ none := fun hfree => hq (hm.eq_none hnew hfree)
      obtain ⟨o', ho'⟩ := h.owned q hold
      by_cases ho : o' = o
      · subst ho
        exact absurd (hm.freed q ho' hnew) hq
      · exact ⟨o', by rwa [Function.update_of_ne ho]⟩

end Apart

end Storage
