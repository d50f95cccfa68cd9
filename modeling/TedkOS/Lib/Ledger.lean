/-
  Ledgers: who owns which item of a fixed stock.

  An item is free, or one owner has it on its list.  Owners take free items and give back their own,
  one at a time (`Move`); whatever the order, `Sound` stays true and neither the items of the ledger
  (`Has`) nor their number (`count`) change.  So an allocator with many owners is accounted for by
  saying which moves its operations are.

  The lists matter up to order only: a move says how the new list is made up, not where the item
  stands.

  Nothing here names a program.
-/
import Mathlib.Algebra.BigOperators.Group.Finset.Basic
import Mathlib.Data.Finset.Card
import Mathlib.Data.Fintype.BigOperators
import Mathlib.Logic.Relation

/-- The free items, and those of each owner. -/
structure Ledger (ι F : Type) where
  free : Finset F
  owned : ι → List F

namespace Ledger

open Finset

variable {ι F : Type} [DecidableEq ι] [DecidableEq F]

/-- No item is in two places. -/
structure Sound (L : Ledger ι F) : Prop where
  /-- An owner has no item twice, -/
  nodup : ∀ i, (L.owned i).Nodup
  /-- two owners have none in common, -/
  apart : ∀ i j x, x ∈ L.owned i → x ∈ L.owned j → i = j
  /-- and what is owned is not free. -/
  notFree : ∀ i x, x ∈ L.owned i → x ∉ L.free

/-- An owner takes a free item, or gives one back. -/
inductive Move (L : Ledger ι F) : Ledger ι F → Prop
  | take (i : ι) (x : F) (l : List F) : x ∈ L.free → l.Perm (x :: L.owned i) →
    Move L ⟨L.free.erase x, Function.update L.owned i l⟩
  | give (i : ι) (x : F) (l : List F) : (L.owned i).Perm (x :: l) →
    Move L ⟨insert x L.free, Function.update L.owned i l⟩

/-- Any number of moves. -/
abbrev Moves : Ledger ι F → Ledger ι F → Prop := Relation.ReflTransGen Move

variable {L L' : Ledger ι F} {i j : ι} {x : F} {l : List F}

/-! ## Soundness

  A free item that is taken was on no list, and one that is given back is on no list any more.
  The lists of the others are not looked at. -/

omit [DecidableEq F] in
/-- What an owner has after its list was replaced. -/
theorem mem_update {y : F} : y ∈ Function.update L.owned i l j ↔
    (j = i ∧ y ∈ l) ∨ (j ≠ i ∧ y ∈ L.owned j) := by
  by_cases h : j = i
  · subst h
    rw [Function.update_self]
    simp
  · rw [Function.update_of_ne h]
    simp [h]

/-- Taking a free item, -/
theorem Sound.take (h : L.Sound) (hx : x ∈ L.free) (hl : l.Perm (x :: L.owned i)) :
    Sound ⟨L.free.erase x, Function.update L.owned i l⟩ := by
  have hnew : ∀ j, x ∉ L.owned j := fun j hj => h.notFree j x hj hx
  -- whoever has an item after the move has it now, or it is the item taken
  have hwas : ∀ j y, y ∈ Function.update L.owned i l j → (j = i ∧ y = x) ∨ y ∈ L.owned j := by
    intro j y hy
    rcases mem_update.mp hy with ⟨rfl, hin⟩ | ⟨-, hold⟩
    · rcases List.mem_cons.mp (hl.mem_iff.mp hin) with rfl | hold
      · exact Or.inl ⟨rfl, rfl⟩
      · exact Or.inr hold
    · exact Or.inr hold
  refine ⟨fun j => ?_, fun j j' y hj hj' => ?_, fun j y hj => ?_⟩
  · show (Function.update L.owned i l j).Nodup
    by_cases hji : j = i
    · subst hji
      rw [Function.update_self]
      exact hl.nodup_iff.mpr (List.nodup_cons.mpr ⟨hnew j, h.nodup j⟩)
    · rw [Function.update_of_ne hji]
      exact h.nodup j
  · rcases hwas j y hj with ⟨rfl, rfl⟩ | hy
    · rcases hwas j' y hj' with ⟨rfl, -⟩ | hy'
      · rfl
      · exact absurd hy' (hnew j')
    · rcases hwas j' y hj' with ⟨rfl, rfl⟩ | hy'
      · exact absurd hy (hnew j)
      · exact h.apart j j' y hy hy'
  · show y ∉ L.free.erase x
    rw [mem_erase]
    rintro ⟨hne, hfree⟩
    rcases hwas j y hj with ⟨-, rfl⟩ | hy
    · exact hne rfl
    · exact h.notFree j y hy hfree

/-- or giving one back, leaves every item in one place; -/
theorem Sound.give (h : L.Sound) (hl : (L.owned i).Perm (x :: l)) :
    Sound ⟨insert x L.free, Function.update L.owned i l⟩ := by
  have hmem : x ∈ L.owned i := hl.mem_iff.mpr List.mem_cons_self
  obtain ⟨hout, hnodup⟩ := List.nodup_cons.mp (hl.nodup_iff.mp (h.nodup i))
  have hwas : ∀ j y, y ∈ Function.update L.owned i l j → y ≠ x ∧ y ∈ L.owned j := by
    intro j y hy
    rcases mem_update.mp hy with ⟨rfl, hin⟩ | ⟨hne, hold⟩
    · exact ⟨fun e => hout (e ▸ hin), hl.mem_iff.mpr (List.mem_cons_of_mem x hin)⟩
    · exact ⟨fun e => hne (h.apart j i x (e ▸ hold) hmem), hold⟩
  refine ⟨fun j => ?_, fun j j' y hj hj' => ?_, fun j y hj => ?_⟩
  · show (Function.update L.owned i l j).Nodup
    by_cases hji : j = i
    · subst hji
      rw [Function.update_self]
      exact hnodup
    · rw [Function.update_of_ne hji]
      exact h.nodup j
  · exact h.apart j j' y (hwas j y hj).2 (hwas j' y hj').2
  · show y ∉ insert x L.free
    rw [mem_insert, not_or]
    exact ⟨(hwas j y hj).1, h.notFree j y (hwas j y hj).2⟩

/-- **Moves keep a ledger sound.** -/
theorem Sound.move (h : L.Sound) (hm : Move L L') : L'.Sound := by
  cases hm with
  | take i x l hx hl => exact h.take hx hl
  | give i x l hl => exact h.give hl

/-- so do any number of moves. -/
theorem Sound.moves (h : L.Sound) (hm : Moves L L') : L'.Sound := by
  induction hm with
  | refl => exact h
  | tail _ hstep ih => exact ih.move hstep

/-! ## What moves do not change

  A move takes an item from one place and puts it in another, so the items are the same ones, and
  as many. -/

/-- The items of the ledger, wherever they are. -/
def Has (L : Ledger ι F) (x : F) : Prop := x ∈ L.free ∨ ∃ i, x ∈ L.owned i

/-- **A move loses no item and brings in none.** -/
theorem has_move (hm : Move L L') (y : F) : L'.Has y ↔ L.Has y := by
  cases hm with
  | take i x l hx hl =>
    constructor
    · rintro (hfree | ⟨j, hj⟩)
      · exact .inl (mem_of_mem_erase hfree)
      · rcases mem_update.mp hj with ⟨rfl, hin⟩ | ⟨-, hold⟩
        · rcases List.mem_cons.mp (hl.mem_iff.mp hin) with rfl | hold
          · exact .inl hx
          · exact .inr ⟨j, hold⟩
        · exact .inr ⟨j, hold⟩
    · rintro (hfree | ⟨j, hj⟩)
      · by_cases hyx : y = x
        · exact .inr ⟨i, mem_update.mpr (.inl ⟨rfl, hl.mem_iff.mpr (hyx ▸ List.mem_cons_self)⟩)⟩
        · exact .inl (mem_erase.mpr ⟨hyx, hfree⟩)
      · by_cases hji : j = i
        · exact .inr
            ⟨i, mem_update.mpr (.inl ⟨rfl, hl.mem_iff.mpr (List.mem_cons_of_mem x (hji ▸ hj))⟩)⟩
        · exact .inr ⟨j, mem_update.mpr (.inr ⟨hji, hj⟩)⟩
  | give i x l hl =>
    constructor
    · rintro (hfree | ⟨j, hj⟩)
      · rcases mem_insert.mp hfree with rfl | hfree
        · exact .inr ⟨i, hl.mem_iff.mpr List.mem_cons_self⟩
        · exact .inl hfree
      · rcases mem_update.mp hj with ⟨rfl, hin⟩ | ⟨-, hold⟩
        · exact .inr ⟨j, hl.mem_iff.mpr (List.mem_cons_of_mem x hin)⟩
        · exact .inr ⟨j, hold⟩
    · rintro (hfree | ⟨j, hj⟩)
      · exact .inl (mem_insert_of_mem hfree)
      · by_cases hji : j = i
        · rcases List.mem_cons.mp (hl.mem_iff.mp (hji ▸ hj)) with rfl | hold
          · exact .inl (mem_insert_self y L.free)
          · exact .inr ⟨i, mem_update.mpr (.inl ⟨rfl, hold⟩)⟩
        · exact .inr ⟨j, mem_update.mpr (.inr ⟨hji, hj⟩)⟩

/-- No item is lost in them, and none appears. -/
theorem has_moves (hm : Moves L L') (y : F) : L'.Has y ↔ L.Has y := by
  induction hm with
  | refl => exact Iff.rfl
  | tail _ hstep ih => exact (has_move hstep y).trans ih

section Count

variable [Fintype ι]

/-- How many items are owned. -/
def ownedCount (L : Ledger ι F) : Nat := ∑ i, (L.owned i).length

/-- How many items there are. -/
def count (L : Ledger ι F) : Nat := L.free.card + L.ownedCount

omit [DecidableEq F] in
/-- One list is replaced, and the sum changes by the difference. -/
theorem ownedCount_update (free : Finset F) :
    ownedCount ⟨free, Function.update L.owned i l⟩ + (L.owned i).length =
      L.ownedCount + l.length := by
  show (∑ j, (Function.update L.owned i l j).length) + _ = (∑ j, (L.owned j).length) + _
  rw [← add_sum_erase univ (fun j => (Function.update L.owned i l j).length) (mem_univ i),
    ← add_sum_erase univ (fun j => (L.owned j).length) (mem_univ i)]
  have hothers : ∑ j ∈ univ.erase i, (Function.update L.owned i l j).length =
      ∑ j ∈ univ.erase i, (L.owned j).length := by
    refine sum_congr rfl fun j hj => ?_
    rw [Function.update_of_ne (ne_of_mem_erase hj)]
  simp only [Function.update_self]
  rw [hothers]
  omega

omit [DecidableEq F] in
/-- One more is owned, -/
theorem ownedCount_take (free : Finset F) (hl : l.Perm (x :: L.owned i)) :
    ownedCount ⟨free, Function.update L.owned i l⟩ = L.ownedCount + 1 := by
  have hsum := ownedCount_update (L := L) (i := i) (l := l) free
  have hlen := hl.length_eq
  rw [List.length_cons] at hlen
  omega

omit [DecidableEq F] in
/-- or one less; -/
theorem ownedCount_give (free : Finset F) (hl : (L.owned i).Perm (x :: l)) :
    ownedCount ⟨free, Function.update L.owned i l⟩ + 1 = L.ownedCount := by
  have hsum := ownedCount_update (L := L) (i := i) (l := l) free
  have hlen := hl.length_eq
  rw [List.length_cons] at hlen
  omega

/-- with the free ones they are as many as before. -/
theorem Sound.count_move (h : L.Sound) (hm : Move L L') : L'.count = L.count := by
  cases hm with
  | take i x l hx hl =>
    have hpos : 0 < L.free.card := card_pos.mpr ⟨x, hx⟩
    unfold count
    rw [ownedCount_take _ hl, card_erase_of_mem hx]
    omega
  | give i x l hl =>
    have hout := h.notFree i x (hl.mem_iff.mpr List.mem_cons_self)
    have hgive := ownedCount_give (insert x L.free) hl
    unfold count
    rw [card_insert_of_notMem hout]
    omega

/-- **Moves conserve the number of items.** -/
theorem Sound.count_moves (h : L.Sound) (hm : Moves L L') : L'.count = L.count := by
  induction hm with
  | refl => rfl
  | tail hmoves hstep ih => exact ((h.moves hmoves).count_move hstep).trans ih

omit [DecidableEq ι] [DecidableEq F] in
/-- Where no owner has more or fewer items than before, as many are free as before. -/
theorem card_free_of_count {L L' : Ledger ι F} (h : L'.count = L.count)
    (howned : ∀ i, (L'.owned i).length = (L.owned i).length) : L'.free.card = L.free.card := by
  have hsum : L'.ownedCount = L.ownedCount := sum_congr rfl fun i _ => howned i
  unfold count at h
  omega

end Count

end Ledger
