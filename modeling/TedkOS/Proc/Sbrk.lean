/-
  The heap of a process: `ProcessDesc::sbrk` (proc/tasks.cpp).

  `sbrk` changes the size first and then appends or frees 4 MB pages until they fit it, so a call
  that fails keeps what it has changed by then.  A page that is appended goes into the map of the
  process and on `heapPhysicalPages`; a page that is freed is looked up in the LOADED map and must
  be the one on top of `heapPhysicalPages`.

  Sizes and addresses are `size_t`, `numHeapPages` is `uint16_t`.  The first loop takes a frame a
  round, so it gets as many rounds as there are frames and one to see that there are none; the
  second counts `numHeapPages` down and gets as many as that can count.
-/
import TedkOS.Palloc.PhysPagesLedger
import TedkOS.Proc.SchedSteps

namespace TedkOS.Proc

open Checked Ledger Palloc PhysPages

/-- The entry of a page of a process. -/
def userPage (idx : Nat) : PhysAddr :=
  PhysAddr.ofIndex (BitVec.ofNat 16 idx) (PG_WRITABLE ||| PG_USER)

/-- `numHeapPages--` in 16 bits. -/
def pred16 (m : Nat) : Nat := (m + 65535) % 65536

namespace ProcessDesc

/-- `(heapStartingPageIdx + numHeapPages) * 4_MB`. -/
def heapEnd (p : ProcessDesc) : VirtAddr :=
  ⟨BitVec.ofNat 32 (p.heapStartingPageIdx + p.numHeapPages) * SmallestPageSize⟩

/-- `numHeapPages * 4_MB`. -/
def heapRoom (p : ProcessDesc) : BitVec 32 := BitVec.ofNat 32 p.numHeapPages * SmallestPageSize

/-- The first loop of `sbrk`: whether it got through, and what it has changed. -/
def growLoop : Nat → ProcessDesc → PhysPageManager numPhysPages →
    Except Fault (Bool × ProcessDesc × PhysPageManager numPhysPages)
  | 0, _, _ => .error .diverges
  | rounds + 1, p, physPages =>
    if p.heapSize > p.heapRoom then
      -- append a page
      match physPages.allocPage true with
      | (none, physPages) => .ok (false, p, physPages)
      | (some physAddr, physPages) =>
        let added := p.memmap.add p.heapEnd (userPage physAddr)
        if !added.1 then .ok (false, p, physPages)
        else
          growLoop rounds { p with
            memmap := added.2
            heapPhysicalPages := p.heapPhysicalPages.push physAddr
            numHeapPages := (p.numHeapPages + 1) % 65536 } physPages
    else .ok (true, p, physPages)

/-- The second loop of `sbrk`. -/
def shrinkLoop (loaded : MemMap) : Nat → ProcessDesc → PhysPageManager numPhysPages →
    Except Fault (Bool × ProcessDesc × PhysPageManager numPhysPages)
  | 0, _, _ => .error .diverges
  | rounds + 1, p, physPages =>
    if p.heapSize + SmallestPageSize ≤ p.heapRoom then
      -- free top most page
      let p := { p with numHeapPages := pred16 p.numHeapPages }
      let virtAddr := p.heapEnd
      let physAddr := loaded.translate virtAddr
      let ourPhysAddr := userPage p.heapPhysicalPages.pop.1
      let p := { p with heapPhysicalPages := p.heapPhysicalPages.pop.2 }
      -- physical addresses don't match up
      if !physAddr.same ourPhysAddr then .ok (false, p, physPages)
      else
        shrinkLoop loaded rounds { p with memmap := (p.memmap.remove virtAddr physAddr).2 }
          (physPages.freePage physAddr.index)
    else .ok (true, p, physPages)

end ProcessDesc

open ProcessDesc

/-- `sbrk(delta)` of the process `pid`; `none` stands for `NULL`. -/
def Kernel.sbrk (pid : Pid) (delta : BitVec 32) (vidmap : Option (BitVec 32)) (k : Kernel) :
    Except Fault (Option (BitVec 32) × Kernel) := do
  let p ← k.table.thread pid
  let oldHeapSize := p.heapSize
  -- Contracting heap beyond its starting address?
  if delta.slt 0 && decide (p.heapSize < -delta) then return (none, k)
  let (grown, p, physPages) ←
    growLoop (numPhysPages + 1) { p with heapSize := p.heapSize + delta } k.physPages
  if !grown then return (none, { k with table := k.table.assign pid (some p), physPages })
  let (shrunk, p, physPages) ← shrinkLoop k.cpu0_memmap.loaded 65536 p physPages
  let k := { k with table := k.table.assign pid (some p), physPages }
  if !shrunk then return (none, k)
  let (loaded, cpu0_memmap) := k.cpu0_memmap.loadProcessMap ⟨p.memmap, vidmap⟩
  let k := { k with cpu0_memmap }
  if !loaded then return (none, k)
  return (some (BitVec.ofNat 32 p.heapStartingPageIdx * SmallestPageSize + oldHeapSize), k)

/-! ## The frames of a process

  One for its program and one for each page of its heap.  The first is not recorded anywhere; the
  destructor finds it by looking the page of the program up in the loaded map (`programPage`), so
  what is said of it depends on that map. -/

/-- The frame of the program, in the map of its process. -/
def programPage (t : TinyMemMap) : Option Nat :=
  (t.pdStack.items.find? fun val => val.virt.vidx == code_page_vaddr_base.vidx).map
    fun val => val.phys.index

/-- The frames a process owns: those of its heap, the last one first, and the one of its program. -/
def framesOf (p : ProcessDesc) : List Nat :=
  p.heapPhysicalPages.items.reverse ++ (programPage p.memmap).toList

/-- What `execute` sets up and `sbrk` keeps. -/
structure UserImage (p : ProcessDesc) : Prop where
  /-- There is a frame for the program, -/
  program : (programPage p.memmap).isSome = true
  /-- and its page is taken in the map, so that no other frame is put there. -/
  used : p.memmap.isVirtAddrUsed.test code_page_vaddr_base.vidx = true
  /-- The heap begins two pages after the program. -/
  start : p.heapStartingPageIdx = code_page_vaddr_base.vidx + 2
  /-- The count is that of the frames. -/
  pages : p.numHeapPages = p.heapPhysicalPages.items.length

section Maps

variable {t : TinyMemMap} {virt : VirtAddr} {phys : PhysAddr} {x : Nat}

/-- The index that is put into the entry is the one that is read from it. -/
theorem index_userPage (hx : x < 1024) : (userPage x).index = x := by
  -- by evaluation, index by index
  have hall : ∀ x : Fin 1024, (userPage x).index = x := by decide +kernel
  exact hall ⟨x, hx⟩

/-- The comparison of two entries covers the bits of the index. -/
theorem index_of_same {a b : PhysAddr} (h : a.same b = true) : a.index = b.index := by
  unfold PhysAddr.index
  rw [and_eq_of_same h 0xffc00000 (by decide), and_eq_of_same h 0x00006000 (by decide)]

/-- The program is at virtual page 32. -/
theorem vidx_code_page : code_page_vaddr_base.vidx = 32 := by decide

/-- The page of a 4 MB address. -/
theorem vidx_page (m : Nat) :
    (VirtAddr.mk (BitVec.ofNat 32 m * SmallestPageSize)).vidx = m % 1024 := by
  have hsz : SmallestPageSize.toNat = 4 * 1024 * 1024 := by decide
  show ((BitVec.ofNat 32 m * SmallestPageSize) >>> 22).toNat = m % 1024
  rw [BitVec.toNat_ushiftRight, Nat.shiftRight_eq_div_pow, BitVec.toNat_mul,
    BitVec.toNat_ofNat, hsz]
  omega

/-- A mapping at another page changes nothing about the program. -/
theorem programPage_add {t' : TinyMemMap}
    (hused : t.isVirtAddrUsed.test code_page_vaddr_base.vidx = true)
    (hadd : t.add virt phys = (true, t')) :
    t'.isVirtAddrUsed.test code_page_vaddr_base.vidx = true ∧ programPage t' = programPage t := by
  unfold TinyMemMap.add at hadd
  simp only at hadd
  split at hadd
  · cases hadd
  · next hvacant =>
    obtain ⟨-, rfl⟩ := Prod.mk.inj hadd
    have hne : virt.vidx ≠ code_page_vaddr_base.vidx := fun e => hvacant (e ▸ hused)
    refine ⟨?_, ?_⟩
    · show (t.isVirtAddrUsed.set virt.vidx).test _ = true
      rw [BitSet.test_set, if_neg fun hc => hne hc.1.symm]
      exact hused
    · show Option.map _ ((t.pdStack.push ⟨phys, virt⟩).items.find? _) = _
      rcases Nat.lt_or_ge t.pdStack.items.length 1024 with hroom | hfull
      · rw [Stack.items_push _ _ hroom, List.find?_append, List.find?_singleton,
          if_neg (by rw [beq_iff_eq]; exact hne), Option.or_none]
        rfl
      · rw [Stack.items_push_full _ _ hfull]
        rfl

/-- A search does not notice that another item is gone. -/
theorem find?_eraseIdx {α : Type} (f : α → Bool) :
    ∀ (l : List α) (j : Nat) (b : α), l[j]? = some b → l.find? f ≠ some b →
    (l.eraseIdx j).find? f = l.find? f := by
  intro l
  induction l with
  | nil => intro j b hj; cases hj
  | cons a l ih =>
    intro j b hj hb
    cases j with
    | zero =>
      obtain rfl : a = b := Option.some.inj hj
      show l.find? f = _
      rw [List.find?_cons]
      cases hf : f a with
      | true => exact absurd (List.find?_cons_of_pos hf) hb
      | false => rfl
    | succ j =>
      show (a :: l.eraseIdx j).find? f = _
      rw [List.find?_cons, List.find?_cons]
      cases hf : f a with
      | true => rfl
      | false =>
        refine ih j b hj fun hc => hb ?_
        rw [List.find?_cons_of_neg (by rw [hf]; decide)]
        exact hc

/-- Taking another frame out of the map changes nothing about the program. -/
theorem programPage_remove (hused : t.isVirtAddrUsed.test code_page_vaddr_base.vidx = true)
    (hvirt : virt.vidx ≠ code_page_vaddr_base.vidx) (hphys : programPage t ≠ some phys.index) :
    (t.remove virt phys).2.isVirtAddrUsed.test code_page_vaddr_base.vidx = true ∧
      programPage (t.remove virt phys).2 = programPage t := by
  unfold TinyMemMap.remove
  simp only
  split
  · refine ⟨?_, ?_⟩
    · show (t.isVirtAddrUsed.clear virt.vidx).test _ = true
      rw [BitSet.test_clear_ne _ (Ne.symm hvirt)]
      exact hused
    · show Option.map _ ((t.pdStack.dropFirst _).2.items.find? _) = Option.map _ _
      unfold Stack.dropFirst
      split
      · next j hj =>
        obtain ⟨b, hb, hsame, -⟩ := Stack.firstIdx_some hj
        show Option.map _ ((t.pdStack.items.eraseIdx j).find? _) = _
        rw [find?_eraseIdx _ _ j b hb fun hc => hphys ?_]
        show Option.map _ _ = some phys.index
        rw [hc, Option.map_some, index_of_same hsame]
      · rfl
  · exact ⟨hused, rfl⟩

end Maps

/-! ## A round of each loop

  Whatever the loops are for, a round of them appends a page to the heap or drops the topmost
  one. `Stage` says what is true of the process between two rounds. -/

section Rounds

variable {ι : Type} [DecidableEq ι] [Fintype ι] {i : ι} {owned : ι → List Nat}
  {o o' : PhysPageManager numPhysPages} {p p' : ProcessDesc} {x : Nat}

/-- A user process, and `i` is its place in the record of who holds which frame. -/
structure Stage (i : ι) (owned : ι → List Nat) (o : PhysPageManager numPhysPages)
    (p : ProcessDesc) :
    Prop where
  /-- No frame is free and owned, or owned twice. -/
  held : Held o owned
  /-- What `i` owns is what the process has. -/
  frames : owned i = framesOf p
  /-- The process is a user process. -/
  image : UserImage p

/-- The process has taken frames and given some back, and has changed in nothing but its heap. -/
structure Resized (i : ι) (owned : ι → List Nat) (o : PhysPageManager numPhysPages)
    (p : ProcessDesc) (o' : PhysPageManager numPhysPages) (p' : ProcessDesc) : Prop where
  /-- The process still has what `i` owns; -/
  stage : Stage i (Function.update owned i (framesOf p')) o' p'
  /-- the frames went between it and the allocator, one at a time; -/
  moves : Moves (book o owned) (book o' (Function.update owned i (framesOf p')))
  /-- and the rest of the process is as it was. -/
  same : p' = { p with
    memmap := p'.memmap, heapPhysicalPages := p'.heapPhysicalPages, numHeapPages :=
      p'.numHeapPages }

/-- Nothing has been taken. -/
theorem Resized.refl (h : Stage i owned o p) : Resized i owned o p o p := by
  have hsame : Function.update owned i (framesOf p) = owned := by
    rw [← h.frames, Function.update_eq_self]
  refine ⟨?_, ?_, rfl⟩
  · rw [hsame]
    exact h
  · rw [hsame]

/-- First one, and then the other. -/
theorem Resized.trans {o'' : PhysPageManager numPhysPages} {p'' : ProcessDesc}
    (h : Resized i owned o p o' p')
    (h' : Resized i (Function.update owned i (framesOf p')) o' p' o'' p'') :
    Resized i owned o p o'' p'' := by
  have hstage := h'.stage
  have hmoves := h'.moves
  rw [Function.update_idem] at hstage hmoves
  refine ⟨hstage, Relation.ReflTransGen.trans h.moves hmoves, ?_⟩
  rw [h'.same, h.same]

/-- A heap has no more pages than there are frames, since it owns them all. -/
theorem Stage.heap_le (h : Stage i owned o p) :
    p.heapPhysicalPages.items.length ≤ numPhysPages := by
  have hle := h.held.length_le i
  rw [h.frames, framesOf, List.length_append, List.length_reverse] at hle
  omega

/-- **A page is appended.** -/
theorem Stage.append (h : Stage i owned o p) (halloc : o.allocPage true = (some x, o'))
    {memmap : TinyMemMap} (hadd : p.memmap.add p.heapEnd (userPage x) = (true, memmap)) :
    Resized i owned o p o' { p with
      memmap
      heapPhysicalPages := p.heapPhysicalPages.push x
      numHeapPages := (p.numHeapPages + 1) % 65536 } := by
  have hn : numPhysPages = 1020 := by decide
  have hle := h.heap_le
  obtain ⟨hused, hprogram⟩ := programPage_add h.image.used hadd
  have hpush : (p.heapPhysicalPages.push x).items = p.heapPhysicalPages.items ++ [x] :=
    Stack.items_push _ _ (by omega)
  have hframes : framesOf { p with
      memmap
      heapPhysicalPages := p.heapPhysicalPages.push x
      numHeapPages := (p.numHeapPages + 1) % 65536 } = x :: owned i := by
    unfold framesOf
    rw [hpush, hprogram, h.frames, List.reverse_append]
    rfl
  obtain ⟨hheld, hmove⟩ := h.held.take halloc (i := i) (l := x :: owned i) (List.Perm.refl _)
  refine ⟨⟨?_, Function.update_self _ _ _, ?_, hused, h.image.start, ?_⟩, ?_, rfl⟩
  · rw [hframes]
    exact hheld
  · show (programPage memmap).isSome = true
    rw [hprogram]
    exact h.image.program
  · show (p.numHeapPages + 1) % 65536 = (p.heapPhysicalPages.push x).items.length
    rw [hpush, List.length_append, List.length_singleton, h.image.pages]
    omega
  · rw [hframes]
    exact Relation.ReflTransGen.single hmove

/-- The count is not zero, so it does not wrap around. -/
theorem pred16_eq {m : Nat} (hpos : 1 ≤ m) (hlt : m < 65536) : pred16 m = m - 1 := by
  unfold pred16
  omega

/-- **The top page is freed**, if it is the one the loaded map has there. -/
theorem Stage.dropTop (h : Stage i owned o p) (hpos : 1 ≤ p.numHeapPages) {phys : PhysAddr}
    (hsame : phys.same (userPage p.heapPhysicalPages.pop.1) = true) {virt : VirtAddr}
    (hvirt : heapEnd { p with numHeapPages := pred16 p.numHeapPages } = virt) :
    Resized i owned o p (o.freePage phys.index) { p with
      memmap := (p.memmap.remove virt phys).2
      heapPhysicalPages := p.heapPhysicalPages.pop.2
      numHeapPages := pred16 p.numHeapPages } := by
  have hn : numPhysPages = 1020 := by decide
  have hle := h.heap_le
  have hpages := h.image.pages
  -- there is a page on top
  have hempty : p.heapPhysicalPages.empty = false := by
    rw [Bool.eq_false_iff, Ne, Stack.empty_iff]
    intro hnil
    rw [hnil, List.length_nil] at hpages
    omega
  have hitems := Stack.items_pop p.heapPhysicalPages hempty
  generalize hpop : p.heapPhysicalPages.pop = popped at hsame hitems ⊢
  obtain ⟨top, rest⟩ := popped
  simp only at hsame hitems ⊢
  have hown : owned i = top :: (rest.items.reverse ++ (programPage p.memmap).toList) := by
    rw [h.frames, framesOf, hitems, List.reverse_append]
    rfl
  have htop : top < numPhysPages := (h.held.down i top (by rw [hown]; exact List.mem_cons_self)).2
  have hindex : phys.index = top := by
    rw [index_of_same hsame, index_userPage (by omega)]
  -- the frame on top is not the program's: nobody owns a frame twice
  have hother : programPage p.memmap ≠ some phys.index := by
    intro hc
    have hnodup := h.held.sound.nodup i
    change (owned i).Nodup at hnodup
    rw [hown, List.nodup_cons, hc, hindex] at hnodup
    exact hnodup.1 (List.mem_append_right _ List.mem_cons_self)
  -- nor is its address: the heap has at most 1020 pages, from page 34 on
  have hvidx : virt.vidx ≠ code_page_vaddr_base.vidx := by
    rw [← hvirt, heapEnd, vidx_page, vidx_code_page]
    show (p.heapStartingPageIdx + pred16 p.numHeapPages) % 1024 ≠ 32
    rw [h.image.start, vidx_code_page, pred16_eq hpos (by omega)]
    omega
  obtain ⟨hused, hprogram⟩ := programPage_remove h.image.used hvidx hother
  have hframes : framesOf { p with
      memmap := (p.memmap.remove virt phys).2
      heapPhysicalPages := rest
      numHeapPages := pred16 p.numHeapPages } =
      rest.items.reverse ++ (programPage p.memmap).toList := by
    unfold framesOf
    rw [hprogram]
  obtain ⟨hheld, hmove⟩ := h.held.give (i := i) (x := top)
    (l := rest.items.reverse ++ (programPage p.memmap).toList) (by rw [hown])
  refine ⟨⟨?_, Function.update_self _ _ _, ?_, hused, h.image.start, ?_⟩, ?_, rfl⟩
  · rw [hframes, hindex]
    exact hheld
  · show (programPage (p.memmap.remove virt phys).2).isSome = true
    rw [hprogram]
    exact h.image.program
  · show pred16 p.numHeapPages = rest.items.length
    rw [hitems, List.length_append, List.length_singleton] at hpages hle
    rw [pred16_eq hpos (by omega)]
    omega
  · rw [hframes, hindex]
    exact Relation.ReflTransGen.single hmove

/-! ## The loops

  Two proofs look at the loops with different statements in mind, one about the frames and one
  about the whole heap.  `HeapRule` is what such a statement must satisfy: each round keeps it.
  The loops, and their end, are dealt with once. -/

/-- The size of as many pages as there are does not wrap around. -/
theorem toNat_pages {m : Nat} (h : m ≤ numPhysPages) :
    (BitVec.ofNat 32 m * SmallestPageSize).toNat = m * 0x400000 := by
  have hn : numPhysPages = 1020 := by decide
  have hsz : SmallestPageSize.toNat = 0x400000 := by decide
  rw [BitVec.toNat_mul, BitVec.toNat_ofNat, hsz]
  omega

/-- What a round of either loop keeps of an allocator and a process. -/
structure HeapRule (Inv : PhysPageManager numPhysPages → ProcessDesc → Prop) : Prop where
  /-- There are not more pages than frames, so that no size of them wraps around. -/
  pages : ∀ o p, Inv o p → p.numHeapPages ≤ numPhysPages
  /-- A round of the first loop keeps it, -/
  append : ∀ o p x o' memmap, Inv o p → o.allocPage true = (some x, o') →
    p.memmap.add p.heapEnd (userPage x) = (true, memmap) → Inv o' { p with
      memmap
      heapPhysicalPages := p.heapPhysicalPages.push x
      numHeapPages := (p.numHeapPages + 1) % 65536 }
  /-- and so does a round of the second. -/
  dropTop : ∀ o p phys, Inv o p → 1 ≤ p.numHeapPages →
    phys.same (userPage p.heapPhysicalPages.pop.1) = true → Inv (o.freePage phys.index) { p with
      memmap := (p.memmap.remove (heapEnd { p with numHeapPages := pred16 p.numHeapPages }) phys).2
      heapPhysicalPages := p.heapPhysicalPages.pop.2
      numHeapPages := pred16 p.numHeapPages }

/-- **The first loop** comes to its end; when it got through, the heap has room for its size, and
    whatever appending a page keeps is kept. -/
theorem HeapRule.growLoop_ends {Inv : PhysPageManager numPhysPages → ProcessDesc → Prop}
    (hrule : HeapRule Inv) :
    ∀ (rounds : Nat) {o : PhysPageManager numPhysPages} {p : ProcessDesc}, Inv o p →
      o.freePhysAddr.items.length < rounds → Ensures NoFault (growLoop rounds p o) fun r =>
        r.1 = true → Inv r.2.2 r.2.1 ∧ r.2.1.heapSize ≤ r.2.1.heapRoom := by
  intro rounds
  induction rounds with
  | zero =>
    intro o p _ hlt
    omega
  | succ rounds ih =>
    intro o p h hlt
    unfold growLoop
    by_cases hsize : p.heapSize > p.heapRoom
    · rw [if_pos hsize]
      cases halloc : o.allocPage true with
      | mk page o' =>
        cases page with
        | none => exact Ensures.pure fun hc => absurd hc Bool.false_ne_true
        | some x =>
          have hitems := congrArg List.length (items_allocPage halloc)
          rw [List.length_append, List.length_singleton] at hitems
          simp only
          generalize hadd : p.memmap.add p.heapEnd (userPage x) = r
          obtain ⟨added, memmap⟩ := r
          cases added with
          | false => exact Ensures.pure fun hc => absurd hc Bool.false_ne_true
          | true => exact ih (hrule.append o p x o' memmap h halloc hadd) (by omega)
    · rw [if_neg hsize]
      exact Ensures.pure fun _ => ⟨h, BitVec.not_lt.mp hsize⟩

/-- With a page to spare, one less still holds the size. -/
theorem one_less_fits {size m : Nat} (h : size + 0x400000 ≤ m * 0x400000) :
    1 ≤ m ∧ size ≤ (m - 1) * 0x400000 := by
  omega

/-- **The second loop** comes to its end, when the heap has room for its size; when it got through
    there is no page too many, and whatever freeing the top page keeps is kept. -/
theorem HeapRule.shrinkLoop_ends {Inv : PhysPageManager numPhysPages → ProcessDesc → Prop}
    (hrule : HeapRule Inv) (loaded : MemMap) :
    ∀ (rounds : Nat) {o : PhysPageManager numPhysPages} {p : ProcessDesc}, Inv o p →
      p.heapSize ≤ p.heapRoom → p.numHeapPages < rounds →
      Ensures NoFault (shrinkLoop loaded rounds p o) fun r => r.1 = true → Inv r.2.2 r.2.1 ∧
        r.2.1.heapSize.toNat ≤ r.2.1.numHeapPages * 0x400000 ∧
        r.2.1.numHeapPages * 0x400000 < r.2.1.heapSize.toNat + 0x400000 := by
  intro rounds
  induction rounds with
  | zero =>
    intro o p _ _ hlt
    omega
  | succ rounds ih =>
    intro o p h hroom hlt
    have hn : numPhysPages = 1020 := by decide
    have hle := hrule.pages o p h
    have hsz : SmallestPageSize.toNat = 0x400000 := by decide
    have hroomNat : p.heapRoom.toNat = p.numHeapPages * 0x400000 := toNat_pages hle
    rw [BitVec.le_def, hroomNat] at hroom
    -- nothing wraps around
    have hsum : (p.heapSize + SmallestPageSize).toNat = p.heapSize.toNat + 0x400000 := by
      rw [BitVec.toNat_add, hsz, Nat.mod_eq_of_lt (by omega)]
    unfold shrinkLoop
    by_cases hsize : p.heapSize + SmallestPageSize ≤ p.heapRoom
    · rw [if_pos hsize]
      rw [BitVec.le_def, hroomNat, hsum] at hsize
      obtain ⟨hpos, hfits⟩ := one_less_fits hsize
      have hless : p.numHeapPages - 1 ≤ numPhysPages := by omega
      have hdown : p.numHeapPages - 1 < rounds := by omega
      have hpred : pred16 p.numHeapPages = p.numHeapPages - 1 := pred16_eq hpos (by omega)
      have hround := hrule.dropTop o p
        (loaded.translate (heapEnd { p with numHeapPages := pred16 p.numHeapPages })) h hpos
      simp only
      generalize heapEnd { p with numHeapPages := pred16 p.numHeapPages } = virt at hround ⊢
      generalize loaded.translate virt = phys at hround ⊢
      cases hsame : phys.same (userPage p.heapPhysicalPages.pop.1) with
      | false =>
        rw [if_pos (by rfl)]
        exact Ensures.pure fun hc => absurd hc Bool.false_ne_true
      | true =>
        rw [if_neg (by decide)]
        refine ih (hround hsame) ?_ ?_
        · show p.heapSize.toNat ≤ (BitVec.ofNat 32 (pred16 p.numHeapPages) * SmallestPageSize).toNat
          rw [hpred, toNat_pages hless]
          exact hfits
        · show pred16 p.numHeapPages < rounds
          rw [hpred]
          exact hdown
    · rw [if_neg hsize]
      rw [BitVec.le_def, hroomNat, hsum, Nat.not_le] at hsize
      exact Ensures.pure fun _ => ⟨h, hroom, hsize⟩

/-- **`sbrk`** comes to its end.  When it succeeds the heap has as many pages as its size needs,
    whatever the rounds of the loops keep is kept, and the map of the process is loaded. -/
theorem sbrk_rule {Inv : PhysPageManager numPhysPages → ProcessDesc → Prop} (hrule : HeapRule Inv)
    {k : Kernel} {pid : Pid} (hp : k.table.all_processes pid.toNat = some p) (delta : BitVec 32)
    (h : Inv k.physPages { p with heapSize := p.heapSize + delta }) (vidmap : Option (BitVec 32)) :
    Ensures NoFault (k.sbrk pid delta vidmap) fun r => r.1.isSome = true →
      ∃ p', Inv r.2.physPages p' ∧ (p'.heapSize.toNat ≤ p'.numHeapPages * 0x400000 ∧
        p'.numHeapPages * 0x400000 < p'.heapSize.toNat + 0x400000) ∧
        r.2 = { k with
          table := k.table.assign pid (some p')
          physPages := r.2.physPages
          cpu0_memmap := (k.cpu0_memmap.loadProcessMap ⟨p'.memmap, vidmap⟩).2 } := by
  have hbound := k.physPages.freePhysAddr.bounded
  have hn : numPhysPages = 1020 := by decide
  refine Ensures.bind (Ensures.of_eq (TableInv.thread_eq hp) rfl) ?_
  rintro _ rfl
  simp only
  split
  · exact Ensures.pure fun hc => absurd hc Bool.false_ne_true
  · -- a call that succeeds has come through both loops and the loading of the map
    refine Ensures.bind (hrule.growLoop_ends _ h (by omega)) ?_
    rintro ⟨grown, p₁, o₁⟩ hgrow
    cases grown with
    | false => exact Ensures.pure fun hc => absurd hc Bool.false_ne_true
    | true =>
      obtain ⟨hchange, hroom⟩ := hgrow rfl
      simp only at hchange hroom
      have hpages := hrule.pages _ _ hchange
      have hrounds : p₁.numHeapPages < 65536 := by omega
      refine Ensures.bind (hrule.shrinkLoop_ends _ _ hchange hroom hrounds) ?_
      rintro ⟨shrunk, p₂, o₂⟩ hshrink
      cases shrunk with
      | false => exact Ensures.pure fun hc => absurd hc Bool.false_ne_true
      | true =>
        obtain ⟨hchange', hfits⟩ := hshrink rfl
        simp only [Bool.not_true, Bool.false_eq_true, if_false]
        split
        · exact Ensures.pure fun hc => absurd hc Bool.false_ne_true
        · exact Ensures.pure fun _ => ⟨p₂, hchange', hfits, rfl⟩

/-- What the frames are resized to is kept by the rounds, so it is the loops' too. -/
theorem Resized.rule (i : ι) (owned : ι → List Nat) (o : PhysPageManager numPhysPages)
    (p : ProcessDesc) :
    HeapRule (Resized i owned o p) where
  pages o' p' hr := by
    rw [hr.stage.image.pages]
    exact hr.stage.heap_le
  append o' p' x o'' memmap hr halloc hadd := hr.trans (hr.stage.append halloc hadd)
  dropTop o' p' phys hr hpos hsame := hr.trans (hr.stage.dropTop hpos hsame rfl)

/-- **`sbrk` of a user process** comes to its end.  When it succeeds, the process has taken frames
    and given some back, its heap and its size are all that changed, and its map is loaded. -/
theorem sbrk_done {k : Kernel} {pid : Pid} (hp : k.table.all_processes pid.toNat = some p)
    (h : Stage i owned k.physPages p) (delta : BitVec 32) (vidmap : Option (BitVec 32)) :
    Ensures NoFault (k.sbrk pid delta vidmap) fun r => r.1.isSome = true →
      ∃ p', Resized i owned k.physPages { p with heapSize := p.heapSize + delta } r.2.physPages p' ∧
        r.2 = { k with
          table := k.table.assign pid (some p')
          physPages := r.2.physPages
          cpu0_memmap := (k.cpu0_memmap.loadProcessMap ⟨p'.memmap, vidmap⟩).2 } := by
  have hresized : Stage i owned k.physPages { p with heapSize := p.heapSize + delta } :=
    ⟨h.held, h.frames, h.image.program, h.image.used, h.image.start, h.image.pages⟩
  refine (sbrk_rule (Resized.rule i owned _ _) hp delta (Resized.refl hresized) vidmap).mono
    fun r hr hsome => ?_
  obtain ⟨p', hchange, -, he⟩ := hr hsome
  exact ⟨p', hchange, he⟩

end Rounds

end TedkOS.Proc
