/-
  The frames of the allocator as a ledger: which are free to be handed out, and who holds the
  others.

  A frame is handed out only when it is on the stack AND its bit is up, so those are the free ones
  (`freeFrames`); whatever else is on the stack is passed over.  The allocator does not know who
  holds a frame.  `Held o owned` says that `owned` is a record of it that agrees with the allocator:
  the frames held are apart from each other and from the free ones, and the stack has room for all
  of them to come back.  `allocPage` and `freePage` then are moves of the ledger, on whatever the
  constructor left.
-/
import TedkOS.Lib.Ledger
import TedkOS.Palloc.PhysPagesRuns

namespace TedkOS.PhysPages

open Ledger PhysPageManager

/-- The frames `allocPage` can return: on the stack, and their bit is up. -/
def freeFrames {n : Nat} (o : PhysPageManager n) : Finset Nat :=
  o.freePhysAddr.items.toFinset.filter fun x => o.isPhysAddrFree.test x = true

section Frames

variable {n : Nat} {o o' : PhysPageManager n} {b : Bool} {x : Nat}

theorem mem_freeFrames : x ∈ freeFrames o ↔
    x ∈ o.freePhysAddr.items ∧ o.isPhysAddrFree.test x = true := by
  rw [freeFrames, Finset.mem_filter, List.mem_toFinset]

/-- The stack is shorter by the frame that is returned. -/
theorem items_allocPage (h : o.allocPage b = (some x, o')) :
    o.freePhysAddr.items = o'.freePhysAddr.items ++ [x] := by
  unfold allocPage at h
  split at h
  · cases h
  · next hempty =>
    have hitems := Stack.items_pop o.freePhysAddr (Bool.eq_false_iff.mpr hempty)
    rcases hpop : o.freePhysAddr.pop with ⟨top, rest⟩
    rw [hpop] at h hitems
    cases ht : o.isPhysAddrFree.test top with
    | false => simp only [ht] at h; cases h
    | true =>
      simp only [ht] at h
      obtain ⟨hp, rfl⟩ := Prod.mk.inj h
      cases Option.some.inj hp
      exact hitems

/-- **A frame that is returned** was free, and is the only one that no longer is. -/
theorem freeFrames_allocPage (h : o.allocPage b = (some x, o')) :
    x ∈ freeFrames o ∧ freeFrames o' = (freeFrames o).erase x := by
  obtain ⟨hup, hbits⟩ := allocPage_some h
  have hitems := items_allocPage h
  refine ⟨mem_freeFrames.mpr ⟨?_, hup⟩, ?_⟩
  · rw [hitems]
    exact List.mem_append_right _ (List.mem_singleton_self x)
  · ext y
    rw [Finset.mem_erase, mem_freeFrames, mem_freeFrames, hitems, hbits, List.mem_append,
      List.mem_singleton, BitSet.test_clear]
    by_cases hy : y = x
    · simp [hy]
    · simp [hy]

/-- **A frame that goes back** is free again, and nothing else changes. -/
theorem freeFrames_freePage (hdown : o.isPhysAddrFree.test x = false) (hx : x < n)
    (hroom : o.freePhysAddr.items.length < n) :
    freeFrames (o.freePage x) = insert x (freeFrames o) ∧
      (o.freePage x).freePhysAddr.items = o.freePhysAddr.items ++ [x] ∧
      ∀ y, (o.freePage x).isPhysAddrFree.test y = true ↔ o.isPhysAddrFree.test y = true ∨
      y = x := by
  have hfree : o.freePage x = { o with
      isPhysAddrFree := o.isPhysAddrFree.set x
      isCommonPage := o.isCommonPage.clear x
      freePhysAddr := o.freePhysAddr.push x } := by
    unfold freePage
    rw [if_neg (by rw [hdown]; decide)]
  have hitems : (o.freePage x).freePhysAddr.items = o.freePhysAddr.items ++ [x] := by
    rw [hfree]
    exact Stack.items_push _ _ hroom
  have hbits : ∀ y, (o.freePage x).isPhysAddrFree.test y = true ↔
      o.isPhysAddrFree.test y = true ∨ y = x := by
    intro y
    rw [hfree]
    show (o.isPhysAddrFree.set x).test y = true ↔ _
    rw [BitSet.test_set]
    by_cases hy : y = x
    · simp [hy, hx]
    · simp [hy]
  refine ⟨?_, hitems, hbits⟩
  ext y
  rw [Finset.mem_insert, mem_freeFrames, mem_freeFrames, hitems, hbits, List.mem_append,
    List.mem_singleton]
  by_cases hy : y = x
  · simp [hy]
  · simp [hy]

end Frames

/-! ## Who holds which frame -/

section Holders

variable {n : Nat} {ι : Type} [DecidableEq ι] [Fintype ι] {o o' : PhysPageManager n}
  {owned : ι → List Nat} {i : ι} {x : Nat} {l : List Nat}

/-- The ledger of an allocator and a record of who holds what. -/
def book (o : PhysPageManager n) (owned : ι → List Nat) : Ledger ι Nat := ⟨freeFrames o, owned⟩

/-- The record agrees with the allocator. -/
structure Held (o : PhysPageManager n) (owned : ι → List Nat) : Prop where
  sound : (book o owned).Sound
  down : ∀ i x, x ∈ owned i → o.isPhysAddrFree.test x = false ∧ x < n
  room : o.freePhysAddr.items.length + (book o owned).ownedCount ≤ n

omit [DecidableEq ι] in
/-- Nobody holds anything at first, whatever the allocator is like. -/
theorem held_nobody (o : PhysPageManager n) : Held o fun _ : ι => [] where
  sound := ⟨fun _ => List.nodup_nil, fun _ _ _ h => absurd h List.not_mem_nil,
    fun _ _ h => absurd h List.not_mem_nil⟩
  down _ _ h := absurd h List.not_mem_nil
  room := by
    have hzero : (book o fun _ : ι => []).ownedCount = 0 := Finset.sum_eq_zero fun _ _ => rfl
    have hbounded := o.freePhysAddr.bounded
    omega

/-- Nobody holds more frames than there are. -/
theorem Held.length_le (h : Held o owned) (i : ι) : (owned i).length ≤ n := by
  have hsum : (owned i).length + _ = (book o owned).ownedCount :=
    Finset.add_sum_erase Finset.univ (fun i => (owned i).length) (Finset.mem_univ i)
  have hroom := h.room
  omega

/-- **`allocPage` is a move**: whoever asked holds the frame. -/
theorem Held.take {b : Bool} (h : Held o owned) (halloc : o.allocPage b = (some x, o'))
    (hl : l.Perm (x :: owned i)) : Held o' (Function.update owned i l) ∧
      Move (book o owned) (book o' (Function.update owned i l)) := by
  obtain ⟨hfree, heq⟩ := freeFrames_allocPage halloc
  obtain ⟨hup, hbits⟩ := allocPage_some halloc
  have hmove : Move (book o owned) (book o' (Function.update owned i l)) := by
    unfold book
    rw [heq]
    exact Move.take i x l hfree hl
  refine ⟨⟨h.sound.move hmove, ?_, ?_⟩, hmove⟩
  · intro j y hy
    rw [hbits, BitSet.test_clear]
    by_cases hyx : y = x
    · rw [if_pos hyx, hyx]
      exact ⟨rfl, BitSet.lt_of_test hup⟩
    · rw [if_neg hyx]
      rcases (mem_update (L := book o owned)).mp hy with ⟨rfl, hin⟩ | ⟨-, hold⟩
      · exact h.down j y ((List.mem_cons.mp (hl.mem_iff.mp hin)).resolve_left hyx)
      · exact h.down j y hold
  · have hcount := ownedCount_take (L := book o owned) (freeFrames o') hl
    have hroom := h.room
    have hitems := congrArg List.length (items_allocPage halloc)
    rw [List.length_append, List.length_singleton] at hitems
    show _ + ownedCount ⟨freeFrames o', Function.update (book o owned).owned i l⟩ ≤ n
    omega

/-- **`freePage` of a frame one holds is a move.** -/
theorem Held.give (h : Held o owned) (hl : (owned i).Perm (x :: l)) :
    Held (o.freePage x) (Function.update owned i l) ∧
      Move (book o owned) (book (o.freePage x) (Function.update owned i l)) := by
  have hmem : x ∈ owned i := hl.mem_iff.mpr List.mem_cons_self
  obtain ⟨hdown, hx⟩ := h.down i x hmem
  have hcount := ownedCount_give (L := book o owned) (freeFrames (o.freePage x)) hl
  have hroom := h.room
  obtain ⟨heq, hitems, hbits⟩ := freeFrames_freePage hdown hx (by omega)
  have hmove : Move (book o owned) (book (o.freePage x) (Function.update owned i l)) := by
    unfold book
    rw [heq]
    exact Move.give i x l hl
  have hsound := h.sound.move hmove
  refine ⟨⟨hsound, ?_, ?_⟩, hmove⟩
  · intro j y hy
    have hold : y ∈ owned j := by
      rcases (mem_update (L := book o owned)).mp hy with ⟨rfl, hin⟩ | ⟨-, hold⟩
      · exact hl.mem_iff.mpr (List.mem_cons_of_mem x hin)
      · exact hold
    refine ⟨?_, (h.down j y hold).2⟩
    -- the frame given back is on nobody's list any more
    have hne : y ≠ x := by
      rintro rfl
      refine hsound.notFree j y hy ?_
      show y ∈ freeFrames (o.freePage y)
      rw [heq]
      exact Finset.mem_insert_self y _
    rw [Bool.eq_false_iff, Ne, hbits]
    rintro (hup | he)
    · rw [(h.down j y hold).1] at hup
      cases hup
    · exact hne he
  · rw [hitems, List.length_append, List.length_singleton]
    show _ + ownedCount ⟨freeFrames (o.freePage x), Function.update (book o owned).owned i l⟩ ≤ n
    omega

/-- Frames given back one after another. -/
theorem Held.giveAll : ∀ (xs : List Nat) {o : PhysPageManager n} {owned : ι → List Nat},
    Held o owned → owned i = xs ++ l →
      let o' := xs.foldl (fun o x => o.freePage x) o
      Held o' (Function.update owned i l) ∧
        Moves (book o owned) (book o' (Function.update owned i l)) ∧
        freeFrames o' = freeFrames o ∪ xs.toFinset := by
  intro xs
  induction xs with
  | nil =>
    intro o owned h hl
    have hsame : Function.update owned i l = owned := by
      rw [show l = owned i from hl.symm, Function.update_eq_self]
    rw [hsame, List.toFinset_nil, Finset.union_empty]
    exact ⟨h, Relation.ReflTransGen.refl, rfl⟩
  | cons x xs ih =>
    intro o owned h hl
    have hperm : (owned i).Perm (x :: (xs ++ l)) := hl ▸ List.Perm.refl _
    obtain ⟨hheld, hmove⟩ := h.give hperm
    obtain ⟨hheld', hmoves, hfree⟩ := ih hheld (Function.update_self i (xs ++ l) owned)
    rw [Function.update_idem] at hheld' hmoves
    obtain ⟨hdown, hx⟩ := h.down i x (hperm.mem_iff.mpr List.mem_cons_self)
    have hcount := ownedCount_give (L := book o owned) (freeFrames o) hperm
    have hroom := h.room
    obtain ⟨heq, -, -⟩ := freeFrames_freePage hdown hx (by omega)
    refine ⟨hheld', Relation.ReflTransGen.head hmove hmoves, ?_⟩
    show freeFrames (xs.foldl _ (o.freePage x)) = _
    rw [hfree, heq, List.toFinset_cons, Finset.union_insert, Finset.insert_union]

end Holders

end TedkOS.PhysPages
