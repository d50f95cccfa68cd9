/-
  Free lists: a list that stores a SET of free items, each exactly once.

  Allocators keep the items they may hand out on a list (a stack, a queue, a chain).  What such a
  list means is a set: the items that are free.  `Tracks l F` says that the list `l` stores the
  set `F` without repetition, and the lemmas below say what each list operation does to the set:
  pushing a free item adds it, popping removes the item popped, erasing removes it wherever it
  stands.  With these an allocator's correctness is a statement about sets; the list disappears.

  Arbitrary item types; nothing here names a program.
-/
import Mathlib.Data.List.Nodup
import Mathlib.Data.List.Perm.Subperm
import Mathlib.Data.Set.Insert

namespace FreeList

variable {α : Type}

/-- `l` stores the set `F`, each member exactly once. -/
structure Tracks (l : List α) (F : Set α) : Prop where
  nodup : l.Nodup
  mem_iff : ∀ a, a ∈ l ↔ a ∈ F

namespace Tracks

variable {l l' : List α} {F G : Set α} {a : α}

theorem nil : Tracks ([] : List α) ∅ :=
  ⟨List.nodup_nil, fun _ => by simp⟩

/-- The set stored is determined by the list. -/
theorem congr (h : Tracks l F) (hFG : ∀ a, a ∈ F ↔ a ∈ G) : Tracks l G :=
  ⟨h.nodup, fun a => (h.mem_iff a).trans (hFG a)⟩

/-- PUSH at the far end: a new item joins the set. -/
theorem push (h : Tracks l F) (ha : a ∉ F) : Tracks (l ++ [a]) (insert a F) := by
  refine ⟨?_, fun b => ?_⟩
  · rw [List.nodup_append]
    refine ⟨h.nodup, List.nodup_singleton a, ?_⟩
    intro b hb c hc hbc
    rw [List.mem_singleton] at hc
    subst hc
    subst hbc
    exact ha ((h.mem_iff b).mp hb)
  · rw [List.mem_append, List.mem_singleton, h.mem_iff b, Set.mem_insert_iff]
    exact or_comm

/-- POP from the far end: the popped item was free, and leaves the set. -/
theorem pop (h : Tracks (l ++ [a]) F) : a ∈ F ∧ Tracks l (F \ {a}) := by
  have hnd := h.nodup
  rw [List.nodup_append] at hnd
  obtain ⟨hl, _, hdisj⟩ := hnd
  refine ⟨(h.mem_iff a).mp (by simp), hl, fun b => ?_⟩
  rw [Set.mem_sdiff, Set.mem_singleton_iff, ← h.mem_iff b, List.mem_append, List.mem_singleton]
  constructor
  · intro hb
    exact ⟨Or.inl hb, fun hba => hdisj b hb a (List.mem_singleton.mpr rfl) hba⟩
  · rintro ⟨hb | hb, hne⟩
    · exact hb
    · exact absurd hb hne

/-- ERASE BY POSITION: the item at the position leaves the set. -/
theorem eraseIdx (h : Tracks l F) {i : Nat} (hi : l[i]? = some a) :
    a ∈ F ∧ Tracks (l.eraseIdx i) (F \ {a}) := by
  obtain ⟨hlt, hget⟩ := List.getElem?_eq_some_iff.mp hi
  have hmem : a ∈ l := hget ▸ List.getElem_mem hlt
  refine ⟨(h.mem_iff a).mp hmem, h.nodup.eraseIdx i, fun b => ?_⟩
  rw [Set.mem_sdiff, Set.mem_singleton_iff, ← h.mem_iff b, List.mem_eraseIdx_iff_getElem?]
  constructor
  · rintro ⟨j, hji, hj⟩
    refine ⟨List.mem_of_getElem? hj, fun hba => hji ?_⟩
    subst hba
    exact (List.getElem?_inj (List.getElem?_eq_some_iff.mp hj).1 h.nodup).mp (hj.trans hi.symm)
  · rintro ⟨hb, hne⟩
    obtain ⟨j, hj⟩ := List.mem_iff_getElem?.mp hb
    refine ⟨j, fun hji => hne ?_, hj⟩
    subst hji
    exact Option.some.inj (hj.symm.trans hi)

/-- **A full free list holds everything**: as long as its universe, it stores all of it. -/
theorem full (h : Tracks l F) {U : List α} (hU : ∀ a ∈ F, a ∈ U) (hlen : U.length ≤ l.length) :
    ∀ a ∈ U, a ∈ F := by
  intro a ha
  have hsub := h.nodup.subperm fun a ha => hU a ((h.mem_iff a).mp ha)
  exact (h.mem_iff a).mp ((hsub.perm_of_length_le hlen).mem_iff.mpr ha)

/-- A free list that misses a member of its universe is strictly shorter. -/
theorem length_lt (h : Tracks l F) {U : List α} (hU : ∀ a ∈ F, a ∈ U) (ha : a ∈ U)
    (hna : a ∉ F) : l.length < U.length := by
  rcases Nat.lt_or_ge l.length U.length with hlt | hge
  · exact hlt
  · exact absurd (h.full hU hge a ha) hna

/-- An empty free list stores nothing. -/
theorem eq_empty (h : Tracks ([] : List α) F) : ∀ a, a ∉ F := fun a ha =>
  List.not_mem_nil ((h.mem_iff a).mpr ha)

end Tracks

end FreeList
