/-
  The descriptor table of a process (`FileDescArr`, proc/tasks.cpp) as a set of open descriptors.

  What a descriptor is worth is kept in three places: the files themselves (`content`), a bitmap of
  the free descriptors and a stack of them.  `TableRight t opened` says that the three agree, with
  each other and with a record `opened` of the descriptors from 2 upward that are open; each
  operation on the table is one on the record.  A slot may be taken and have no file; such a slot is
  on no record.

  The stack and the bitmap are a free list with its set (`Tracks`): `alloc` pops, `recycle` pushes.
  The descriptors 0 and 1 are never free, and `alloc` never hands them out for that reason alone.
-/
import TedkOS.Proc.Tasks

namespace TedkOS.Proc

open Fs FreeList

/-- The three parts of the table agree with each other and with the record. -/
structure TableRight (t : FileDescArr) (opened : List (BitVec 32)) : Prop where
  /-- 0 and 1 are taken from the start, so that the stack never has them. -/
  fixed : t.isFDfree.test 0 = false ∧ t.isFDfree.test 1 = false
  /-- The stack has each descriptor that the bitmap calls free, once. -/
  free : Tracks t.freeFDs.items {i | t.isFDfree.test i = true}
  nodup : opened.Nodup
  /-- From 2 upward the files are those on record. -/
  files : ∀ fd : BitVec 32, 2 ≤ fd.toNat → fd.toNat < FD_ARRAY_LENGTH →
    ((t.content fd.toNat).isSome = true ↔ fd ∈ opened)
  /-- A descriptor on record is taken.  The converse does not hold: a slot whose file could not
      be opened stays taken. -/
  used : ∀ fd ∈ opened, 2 ≤ fd.toNat ∧ fd.toNat < FD_ARRAY_LENGTH ∧ t.isFDfree.test fd.toNat = false

section Table

variable {t : FileDescArr} {opened : List (BitVec 32)} {fd : BitVec 32} {slot : Nat}

/-- What `isValid` computes: a number of the table, taken, and with a file. -/
theorem FileDescArr.isValid_iff : t.isValid fd = true ↔ fd.toNat < FD_ARRAY_LENGTH ∧
    t.isFDfree.test fd.toNat = false ∧ (t.content fd.toNat).isSome = true := by
  unfold FileDescArr.isValid
  by_cases hlt : fd.toNat ≥ FD_ARRAY_LENGTH
  · rw [if_pos hlt]
    exact ⟨fun hc => absurd hc (by decide), fun hc => absurd hc.1 (by omega)⟩
  · rw [if_neg hlt]
    cases hfree : t.isFDfree.test fd.toNat with
    | true => simp
    | false =>
      simp only [Bool.false_eq_true, if_false, true_and]
      exact ⟨fun hs => ⟨by omega, hs⟩, fun hs => hs.2⟩

/-- **What the check lets through**: an open file at 0 or 1, and the descriptors of the record. -/
theorem TableRight.isValid_iff (h : TableRight t opened) (h0 : (t.content 0).isSome = true)
    (h1 : (t.content 1).isSome = true) : t.isValid fd = true ↔ fd = 0 ∨ fd = 1 ∨ fd ∈ opened := by
  rw [FileDescArr.isValid_iff]
  constructor
  · rintro ⟨hlt, -, hsome⟩
    by_cases h2 : 2 ≤ fd.toNat
    · exact Or.inr (Or.inr ((h.files fd h2 hlt).mp hsome))
    · rcases Nat.lt_or_ge fd.toNat 1 with hz | ho
      · exact Or.inl (BitVec.eq_of_toNat_eq (by show fd.toNat = 0; omega))
      · exact Or.inr (Or.inl (BitVec.eq_of_toNat_eq (by show fd.toNat = 1; omega)))
  · rintro (rfl | rfl | hin)
    · exact ⟨by decide, h.fixed.1, h0⟩
    · exact ⟨by decide, h.fixed.2, h1⟩
    · obtain ⟨h2, hlt, hdown⟩ := h.used fd hin
      exact ⟨hlt, hdown, (h.files fd h2 hlt).mpr hin⟩

/-- A new table has nothing open, and all descriptors from 2 upward are free. -/
theorem tableRight_new : TableRight FileDescArr.new [] where
  fixed := by decide +kernel
  free := by
    have hitems : FileDescArr.new.freeFDs.items = List.range' 2 126 := by decide +kernel
    -- the bitmap and the stack are two computations, from 2 to 127
    have hbits : ∀ i : Fin 128, FileDescArr.new.isFDfree.test i = decide (2 ≤ i.val) := by
      decide +kernel
    rw [hitems]
    refine ⟨List.nodup_range', fun i => ?_⟩
    rw [List.mem_range'_1, Set.mem_ofPred_eq]
    constructor
    · rintro ⟨h2, hlt⟩
      rw [hbits ⟨i, by omega⟩]
      exact decide_eq_true h2
    · intro hup
      have hlt : i < 128 := BitSet.lt_of_test hup
      rw [hbits ⟨i, hlt⟩] at hup
      have h2 : 2 ≤ i := of_decide_eq_true hup
      omega
  nodup := List.nodup_nil
  files fd h2 hlt := by
    have hnone : ∀ i : Fin 128, FileDescArr.new.content i = none := by decide +kernel
    rw [hnone ⟨fd.toNat, hlt⟩]
    simp
  used fd h := absurd h List.not_mem_nil

/-- Another file at a descriptor that has one. -/
theorem TableRight.store (h : TableRight t opened) (fd : BitVec 32)
    (hfd : fd.toNat < 2 ∨ fd ∈ opened) (file : File) :
    TableRight (t.store fd.toNat (some file)) opened where
  fixed := h.fixed
  free := h.free
  nodup := h.nodup
  files fd' h2 hlt := by
    show (Function.update t.content fd.toNat (some file) fd'.toNat).isSome = true ↔ _
    by_cases he : fd'.toNat = fd.toNat
    · rw [he, Function.update_self]
      rcases hfd with hlow | hin
      · omega
      · rw [BitVec.eq_of_toNat_eq he]
        exact ⟨fun _ => hin, fun _ => rfl⟩
    · rw [Function.update_of_ne he]
      exact h.files fd' h2 hlt
  used := h.used

/-- **A slot is taken**: it was free, and nobody holds it. -/
theorem TableRight.alloc (h : TableRight t opened) (halloc : t.alloc.1 = some slot) :
    2 ≤ slot ∧ slot < FD_ARRAY_LENGTH ∧ BitVec.ofNat 32 slot ∉ opened ∧
      t.freeFDs.items.length = t.alloc.2.freeFDs.items.length + 1 ∧
      t.alloc.2.isFDfree.test slot = false ∧ TableRight t.alloc.2 opened := by
  cases hempty : t.freeFDs.empty with
  | true =>
    unfold FileDescArr.alloc at halloc
    rw [hempty, if_pos rfl] at halloc
    cases halloc
  | false =>
    have heq : t.alloc = (some t.freeFDs.pop.1,
        { t with freeFDs := t.freeFDs.pop.2, isFDfree := t.isFDfree.clear t.freeFDs.pop.1 }) := by
      unfold FileDescArr.alloc
      rw [hempty, if_neg (by decide)]
    have hitems := Stack.items_pop t.freeFDs hempty
    rw [heq] at halloc ⊢
    generalize t.freeFDs.pop = popped at halloc hitems ⊢
    obtain ⟨top, rest⟩ := popped
    obtain rfl : top = slot := Option.some.inj halloc
    have htracks := h.free
    rw [hitems] at htracks
    obtain ⟨hup, hrest⟩ := htracks.pop
    simp only at hitems hup hrest ⊢
    have hlt : top < FD_ARRAY_LENGTH := BitSet.lt_of_test hup
    have h2 : 2 ≤ top := by
      by_contra hlow
      obtain rfl | rfl : top = 0 ∨ top = 1 := by omega
      · rw [Set.mem_ofPred_eq, h.fixed.1] at hup
        cases hup
      · rw [Set.mem_ofPred_eq, h.fixed.2] at hup
        cases hup
    have hslot : (BitVec.ofNat 32 top).toNat = top := by
      rw [BitVec.toNat_ofNat]
      have h128 : FD_ARRAY_LENGTH = 128 := rfl
      omega
    -- a descriptor on record is down in the bitmap, and this one was up
    have hout : BitVec.ofNat 32 top ∉ opened := by
      intro hin
      have hdown := (h.used _ hin).2.2
      rw [hslot, show t.isFDfree.test top = true from hup] at hdown
      cases hdown
    refine ⟨h2, hlt, hout, ?_, BitSet.test_clear_self t.isFDfree top, ?_⟩
    · rw [hitems, List.length_append, List.length_singleton]
    · refine ⟨⟨?_, ?_⟩, ?_, h.nodup, h.files, fun fd hin => ?_⟩
      · show (t.isFDfree.clear top).test 0 = false
        rw [BitSet.test_clear_ne _ (by omega)]
        exact h.fixed.1
      · show (t.isFDfree.clear top).test 1 = false
        rw [BitSet.test_clear_ne _ (by omega)]
        exact h.fixed.2
      · -- what is left on the stack is what the bitmap still calls free
        refine hrest.congr fun i => ?_
        rw [Set.mem_sdiff, Set.mem_singleton_iff, Set.mem_ofPred_eq, Set.mem_ofPred_eq,
          BitSet.test_clear]
        by_cases hi : i = top
        · simp [hi]
        · simp [hi]
      · obtain ⟨h2', hlt', hdown⟩ := h.used fd hin
        refine ⟨h2', hlt', ?_⟩
        show (t.isFDfree.clear top).test fd.toNat = false
        rw [BitSet.test_clear]
        split
        · rfl
        · exact hdown

/-- **The slot gets its file** and is on record. -/
theorem TableRight.opening (h : TableRight t opened) (h2 : 2 ≤ slot) (hlt : slot < FD_ARRAY_LENGTH)
    (hout : BitVec.ofNat 32 slot ∉ opened) (hdown : t.isFDfree.test slot = false) (file : File) :
    TableRight (t.store slot (some file)) (BitVec.ofNat 32 slot :: opened) := by
  have hslot : (BitVec.ofNat 32 slot).toNat = slot := by
    rw [BitVec.toNat_ofNat]
    have h128 : FD_ARRAY_LENGTH = 128 := rfl
    omega
  refine ⟨h.fixed, h.free, List.nodup_cons.mpr ⟨hout, h.nodup⟩, fun fd h2' hlt' => ?_,
    fun fd hin => ?_⟩
  · show (Function.update t.content slot (some file) fd.toNat).isSome = true ↔ _
    rw [List.mem_cons]
    by_cases he : fd.toNat = slot
    · rw [he, Function.update_self]
      exact ⟨fun _ => Or.inl (BitVec.eq_of_toNat_eq (he.trans hslot.symm)), fun _ => rfl⟩
    · rw [Function.update_of_ne he, h.files fd h2' hlt']
      exact ⟨Or.inr, fun hor => hor.resolve_left fun e => he (e ▸ hslot)⟩
  · rcases List.mem_cons.mp hin with rfl | hin
    · rw [hslot]
      exact ⟨h2, hlt, hdown⟩
    · exact h.used fd hin

/-- **A file is closed**: its slot is free again. -/
theorem TableRight.closing (h : TableRight t opened) (hin : fd ∈ opened) :
    TableRight ((t.store fd.toNat none).recycle fd.toNat) (opened.erase fd) ∧
      ((t.store fd.toNat none).recycle fd.toNat).freeFDs.items.length = t.freeFDs.items.length + 1 ∧
      (opened.erase fd).length + 1 = opened.length := by
  obtain ⟨h2, hlt, hdown⟩ := h.used fd hin
  have hrecycle : (t.store fd.toNat none).recycle fd.toNat =
      ⟨Function.update t.content fd.toNat none, t.freeFDs.push fd.toNat,
        t.isFDfree.set fd.toNat⟩ := by
    unfold FileDescArr.recycle
    rw [if_neg (by rw [show (t.store fd.toNat none).isFDfree = t.isFDfree from rfl, hdown]; decide)]
    rfl
  have hnew : fd.toNat ∉ {i | t.isFDfree.test i = true} := by
    rw [Set.mem_ofPred_eq, hdown]
    decide
  -- the stack has room, for it has free descriptors only, and this one is none
  have hroom := h.free.length_lt (U := List.range FD_ARRAY_LENGTH) (a := fd.toNat)
    (fun i hi => List.mem_range.mpr (BitSet.lt_of_test hi)) (List.mem_range.mpr hlt) hnew
  rw [List.length_range] at hroom
  have hpush := Stack.items_push t.freeFDs fd.toNat hroom
  rw [hrecycle]
  refine ⟨⟨⟨?_, ?_⟩, ?_, h.nodup.erase fd, fun fd' h2' hlt' => ?_, fun fd' hin' => ?_⟩, ?_, ?_⟩
  · show (t.isFDfree.set fd.toNat).test 0 = false
    rw [BitSet.test_set, if_neg (by omega)]
    exact h.fixed.1
  · show (t.isFDfree.set fd.toNat).test 1 = false
    rw [BitSet.test_set, if_neg (by omega)]
    exact h.fixed.2
  · -- the bitmap has one free descriptor more, and the stack the same one
    show Tracks (t.freeFDs.push fd.toNat).items _
    rw [hpush]
    refine (h.free.push hnew).congr fun i => ?_
    rw [Set.mem_insert_iff, Set.mem_ofPred_eq, Set.mem_ofPred_eq, BitSet.test_set]
    by_cases hi : i = fd.toNat
    · rw [if_pos ⟨hi, hlt⟩]
      simp [hi]
    · rw [if_neg fun hc => hi hc.1]
      simp [hi]
  · show (Function.update t.content fd.toNat none fd'.toNat).isSome = true ↔ _
    rw [h.nodup.mem_erase_iff]
    by_cases he : fd'.toNat = fd.toNat
    · rw [he, Function.update_self, BitVec.eq_of_toNat_eq he]
      simp
    · rw [Function.update_of_ne he, h.files fd' h2' hlt']
      exact ⟨fun hold => ⟨fun e => he (congrArg BitVec.toNat e), hold⟩, And.right⟩
  · obtain ⟨hne, hold⟩ := h.nodup.mem_erase_iff.mp hin'
    obtain ⟨h2', hlt', hdown'⟩ := h.used fd' hold
    refine ⟨h2', hlt', ?_⟩
    show (t.isFDfree.set fd.toNat).test fd'.toNat = false
    rw [BitSet.test_set, if_neg fun hc => hne (BitVec.eq_of_toNat_eq hc.1)]
    exact hdown'
  · show (t.freeFDs.push fd.toNat).items.length = _
    rw [hpush, List.length_append, List.length_singleton]
  · have hpos := List.length_pos_of_mem hin
    rw [List.length_erase_of_mem hin]
    omega

end Table

end TedkOS.Proc
