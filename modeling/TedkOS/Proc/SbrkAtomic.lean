/-
  When a call of `sbrk` is all or nothing.

  The size changes first, then the pages, one by one, then the map is loaded; where one of these
  fails, what was done before stays done.

  1. **Pages** — `Grown`, `Shrunk`, `Stuck`: the rounds the two loops make, counted.  Pages are
     counted in 16 bits and their sizes in 32, so 1024 pages are as many as none.

  2. **Specification** — `Atomic`: the call moves the break by `delta`, or changes nothing.

  3. **Correctness** — `sbrk_atomic_iff`: the calls that are refused, that go through, or that ask
     for nothing and fail before they have done anything.  It holds in ANY state, so what a call
     that failed has left behind is a state like the others.
-/
import TedkOS.Proc.SbrkHeap

namespace TedkOS.Proc

open Checked Palloc PhysPages

/-! ## The rounds of the loops

  A loop of `sbrk` can end in three ways, and a relation counts its rounds for each: it has taken
  frames until the pages suffice (`Grown`), given back the topmost until none is too many
  (`Shrunk`), or come to a page that is not where it should be (`Stuck`). -/

namespace ProcessDesc

variable (p : ProcessDesc)

/-- A page has to be appended. -/
def TooSmall : Prop := p.heapSize > p.heapRoom

instance : Decidable p.TooSmall := inferInstanceAs (Decidable (p.heapSize > p.heapRoom))

/-- The top page has to be freed. -/
def TooLarge : Prop := p.heapSize + SmallestPageSize ≤ p.heapRoom

instance : Decidable p.TooLarge :=
  inferInstanceAs (Decidable (p.heapSize + SmallestPageSize ≤ p.heapRoom))

/-- The process with another heap. -/
def withHeap (memmap : TinyMemMap) (heapPhysicalPages : Stack Nat 1024) (numHeapPages : Nat) :
    ProcessDesc :=
  { p with memmap, heapPhysicalPages, numHeapPages }

section WithHeap

variable (memmap : TinyMemMap) (heapPhysicalPages : Stack Nat 1024) (numHeapPages : Nat)

@[simp] theorem heapSize_withHeap :
    (p.withHeap memmap heapPhysicalPages numHeapPages).heapSize = p.heapSize := (rfl)

@[simp] theorem heapStartingPageIdx_withHeap :
    (p.withHeap memmap heapPhysicalPages numHeapPages).heapStartingPageIdx =
      p.heapStartingPageIdx := (rfl)

@[simp] theorem heapPhysicalPages_withHeap :
    (p.withHeap memmap heapPhysicalPages numHeapPages).heapPhysicalPages = heapPhysicalPages :=
  (rfl)

@[simp] theorem numHeapPages_withHeap :
    (p.withHeap memmap heapPhysicalPages numHeapPages).numHeapPages = numHeapPages := (rfl)

end WithHeap

/-- The process with frame `physAddr` on top of its heap. -/
def withPage (physAddr : Nat) : ProcessDesc :=
  p.withHeap (p.memmap.add p.heapEnd (userPage physAddr)).2 (p.heapPhysicalPages.push physAddr)
    ((p.numHeapPages + 1) % 65536)

/-- The address of the top page. -/
def topAddr : VirtAddr := heapEnd { p with numHeapPages := pred16 p.numHeapPages }

/-- The loaded map has the frame on top of the heap at the top page. -/
def TopMatches (loaded : MemMap) : Prop :=
  (loaded.translate p.topAddr).same (userPage p.heapPhysicalPages.pop.1) = true

/-- The process when the top page has been counted down, and nothing else done about it. -/
def popTop : ProcessDesc := p.withHeap p.memmap p.heapPhysicalPages.pop.2 (pred16 p.numHeapPages)

/-- The process without its top page. -/
def withoutTop (loaded : MemMap) : ProcessDesc :=
  p.withHeap (p.memmap.remove p.topAddr (loaded.translate p.topAddr)).2 p.heapPhysicalPages.pop.2
    (pred16 p.numHeapPages)

end ProcessDesc

open ProcessDesc

/-- `g` pages are appended, each with a frame that was free at a page that was vacant, and then the
    heap has room for its size. -/
inductive Grown : Nat → ProcessDesc → PhysPageManager numPhysPages → ProcessDesc →
    PhysPageManager numPhysPages → Prop
  | done {p o} : ¬ p.TooSmall → Grown 0 p o p o
  | page {g p o x o₁ p' o'} : p.TooSmall → o.allocPage true = (some x, o₁) →
      (p.memmap.add p.heapEnd (userPage x)).1 = true → Grown g (p.withPage x) o₁ p' o' →
      Grown (g + 1) p o p' o'

/-- `j` pages are freed, each being where the loaded map has it, and then there is no page too
    many. -/
inductive Shrunk (loaded : MemMap) : Nat → ProcessDesc → PhysPageManager numPhysPages →
    ProcessDesc → PhysPageManager numPhysPages → Prop
  | done {p o} : ¬ p.TooLarge → Shrunk loaded 0 p o p o
  | page {j p o p' o'} : p.TooLarge → p.TopMatches loaded →
      Shrunk loaded j (p.withoutTop loaded) (o.freePage (loaded.translate p.topAddr).index) p' o' →
      Shrunk loaded (j + 1) p o p' o'

/-- `j` pages are freed, and the next is not where the loaded map has it. -/
inductive Stuck (loaded : MemMap) : Nat → ProcessDesc → PhysPageManager numPhysPages → ProcessDesc →
    PhysPageManager numPhysPages → Prop
  | here {p o} : p.TooLarge → ¬ p.TopMatches loaded → Stuck loaded 0 p o p.popTop o
  | later {j p o p' o'} : p.TooLarge → p.TopMatches loaded →
      Stuck loaded j (p.withoutTop loaded) (o.freePage (loaded.translate p.topAddr).index) p' o' →
      Stuck loaded (j + 1) p o p' o'

section Loops

variable {p p' : ProcessDesc} {o o' o₁ : PhysPageManager numPhysPages} {loaded : MemMap}
    {rounds g j x : Nat}

/-! ### The first loop

  A round takes a frame and maps it behind the heap.  `GrownBy` is what any number of rounds
  does: pages are counted in 16 bits, so the count is known modulo 65536 only, and it is the
  frames that are gone which tell how many rounds it were. -/

/-- A round of the first loop with room enough, -/
theorem growLoop_done (h : ¬ p.TooSmall) : growLoop (rounds + 1) p o = .ok (true, p, o) := if_neg h

/-- one without a frame, -/
theorem growLoop_full (h : p.TooSmall) (halloc : o.allocPage true = (none, o₁)) :
    growLoop (rounds + 1) p o = .ok (false, p, o₁) := by
  rw [growLoop, if_pos (show p.heapSize > p.heapRoom from h), halloc]

/-- one whose page is taken in the map, -/
theorem growLoop_taken (h : p.TooSmall) (halloc : o.allocPage true = (some x, o₁))
    (hadd : (p.memmap.add p.heapEnd (userPage x)).1 = false) :
    growLoop (rounds + 1) p o = .ok (false, p, o₁) := by
  rw [growLoop, if_pos (show p.heapSize > p.heapRoom from h), halloc]
  simp only [hadd, Bool.not_false, if_true]

/-- and one that appends a page. -/
theorem growLoop_page (h : p.TooSmall) (halloc : o.allocPage true = (some x, o₁))
    (hadd : (p.memmap.add p.heapEnd (userPage x)).1 = true) :
    growLoop (rounds + 1) p o = growLoop rounds (p.withPage x) o₁ := by
  rw [growLoop, if_pos (show p.heapSize > p.heapRoom from h), halloc]
  simp only [hadd, Bool.not_true, Bool.false_eq_true, if_false]
  rfl

/-- With a round for each page and one more, the loop is through. -/
theorem Grown.loop (h : Grown g p o p' o') :
    ∀ {rounds}, g < rounds → growLoop rounds p o = .ok (true, p', o') := by
  induction h with
  | done hdone =>
    intro rounds hlt
    cases rounds with
    | zero => exact absurd hlt (Nat.not_lt_zero _)
    | succ rounds => exact growLoop_done hdone
  | page hsmall halloc hadd _ ih =>
    intro rounds hlt
    cases rounds with
    | zero => exact absurd hlt (Nat.not_lt_zero _)
    | succ rounds =>
      rw [growLoop_page hsmall halloc hadd]
      exact ih (Nat.lt_of_succ_lt_succ hlt)

/-- A frame that is handed out is no longer among the free ones. -/
theorem length_allocPage (h : o.allocPage true = (some x, o₁)) :
    o₁.freePhysAddr.items.length + 1 = o.freePhysAddr.items.length := by
  rw [items_allocPage h, List.length_append, List.length_singleton]

/-- Where no frame is handed out there is none, or the top of the stack is lost. -/
theorem allocPage_none (h : o.allocPage true = (none, o₁)) :
    (o.freePhysAddr.empty = true ∧ o₁ = o) ∨
    o₁.freePhysAddr.items.length < o.freePhysAddr.items.length := by
  cases hempty : o.freePhysAddr.empty with
  | true =>
    rw [PhysPageManager.allocPage, if_pos hempty] at h
    exact Or.inl ⟨rfl, (Prod.mk.inj h).2.symm⟩
  | false =>
    right
    have hitems := congrArg List.length (Stack.items_pop o.freePhysAddr hempty)
    rw [List.length_append, List.length_singleton] at hitems
    rw [PhysPageManager.allocPage, if_neg (by rw [hempty]; exact Bool.false_ne_true)] at h
    generalize o.freePhysAddr.pop = popped at h hitems
    obtain ⟨top, rest⟩ := popped
    simp only at h hitems
    split at h
    · obtain ⟨-, rfl⟩ := Prod.mk.inj h
      show rest.items.length < o.freePhysAddr.items.length
      omega
    · cases h

/-- What the first loop comes to, when it has a round for each free frame and one more. -/
theorem growLoop_cases (rounds : Nat) : ∀ {p : ProcessDesc} {o : PhysPageManager numPhysPages},
    o.freePhysAddr.items.length < rounds →
    (∃ g p' o', Grown g p o p' o' ∧ growLoop rounds p o = .ok (true, p', o')) ∨
    ∃ p' o', growLoop rounds p o = .ok (false, p', o') ∧ p'.heapSize = p.heapSize ∧
      ((p.TooSmall ∧ o.freePhysAddr.empty = true ∧ o' = o) ∨
        o'.freePhysAddr.items.length < o.freePhysAddr.items.length) := by
  induction rounds with
  | zero => intro p o hlt; exact absurd hlt (Nat.not_lt_zero _)
  | succ rounds ih =>
    intro p o hlt
    by_cases hsmall : p.TooSmall
    · rcases halloc : o.allocPage true with ⟨_ | x, o₁⟩
      · right
        refine ⟨p, o₁, growLoop_full hsmall halloc, rfl, ?_⟩
        exact (allocPage_none halloc).imp_left fun hempty => ⟨hsmall, hempty⟩
      · have hlen := length_allocPage halloc
        cases hadd : (p.memmap.add p.heapEnd (userPage x)).1 with
        | false =>
          right
          exact ⟨p, o₁, growLoop_taken hsmall halloc hadd, rfl, Or.inr (by omega)⟩
        | true =>
          rw [growLoop_page hsmall halloc hadd]
          rcases ih (p := p.withPage x) (o := o₁) (by omega) with ⟨g, p', o', hgrown, hloop⟩ |
            ⟨p', o', hloop, hsize, hwhy⟩
          · exact Or.inl ⟨g + 1, p', o', Grown.page hsmall halloc hadd hgrown, hloop⟩
          · right
            rw [withPage, heapSize_withHeap] at hsize
            refine ⟨p', o', hloop, hsize, Or.inr ?_⟩
            rcases hwhy with ⟨-, -, rfl⟩ | hless
            · omega
            · omega
    · exact Or.inl ⟨0, p, o, Grown.done hsmall, growLoop_done hsmall⟩

/-- What a growth has counted. -/
structure GrownBy (g : Nat) (p : ProcessDesc) (o : PhysPageManager numPhysPages) (p' : ProcessDesc)
    (o' : PhysPageManager numPhysPages) : Prop where
  size : p'.heapSize = p.heapSize
  start : p'.heapStartingPageIdx = p.heapStartingPageIdx
  count : p'.numHeapPages = (p.numHeapPages + g) % 65536
  frames : o'.freePhysAddr.items.length + g = o.freePhysAddr.items.length
  room : ¬ p'.TooSmall
  /-- Without the last page there was not room enough. -/
  needed : 0 < g →
    p.heapSize > BitVec.ofNat 32 ((p.numHeapPages + (g - 1)) % 65536) * SmallestPageSize

/-- Each round adds one to the count, and takes one frame.  What was needed before the last round
    is still the size of the heap, since that does not change. -/
theorem Grown.counted (h : Grown g p o p' o') : p.numHeapPages < 65536 → GrownBy g p o p' o' := by
  induction h with
  | @done p o hdone =>
    intro hn
    exact ⟨rfl, rfl, (Nat.mod_eq_of_lt hn).symm, rfl, hdone,
      fun hpos => absurd hpos (Nat.lt_irrefl 0)⟩
  | @page g p o x o₁ p' o' hsmall halloc _ _ ih =>
    intro hn
    have hlen := length_allocPage halloc
    have h' := ih (by rw [withPage, numHeapPages_withHeap]; omega)
    obtain ⟨hsize, hstart, hcount, hframes, hroom, hneeded⟩ := h'
    simp only [withPage, heapSize_withHeap, heapStartingPageIdx_withHeap, numHeapPages_withHeap]
      at hsize hstart hcount hneeded
    refine ⟨hsize, hstart, by omega, by omega, hroom, fun _ => ?_⟩
    cases g with
    | zero =>
      rw [Nat.add_sub_cancel, Nat.add_zero, Nat.mod_eq_of_lt hn]
      exact hsmall
    | succ g =>
      have hmod : (p.numHeapPages + (g + 1 + 1 - 1)) % 65536 =
          ((p.numHeapPages + 1) % 65536 + (g + 1 - 1)) % 65536 := by omega
      rw [hmod]
      exact hneeded (Nat.succ_pos g)

/-- The count is in 16 bits. -/
theorem GrownBy.count_lt (h : GrownBy g p o p' o') : p'.numHeapPages < 65536 := by
  rw [h.count]
  exact Nat.mod_lt _ (by decide)

/-- A growth by no page changes nothing. -/
theorem Grown.zero (h : Grown 0 p o p' o') : p' = p ∧ o' = o ∧ ¬ p.TooSmall := by
  cases h with
  | done hdone => exact ⟨rfl, rfl, hdone⟩

/-! ### The second loop

  A round gives the topmost page back, if the page that the loaded map has there is the one on
  top of the stack.  `Stuck` is the first round where it is not: the page has been popped by
  then, and the call leaves it at that. -/

/-- A round of the second loop with no page too many. -/
theorem shrinkLoop_done (h : ¬ p.TooLarge) :
    shrinkLoop loaded (rounds + 1) p o = .ok (true, p, o) := if_neg h

/-- A round that has a page to free. -/
theorem shrinkLoop_round (h : p.TooLarge) :
    shrinkLoop loaded (rounds + 1) p o =
      if !(loaded.translate p.topAddr).same (userPage p.heapPhysicalPages.pop.1)
        then .ok (false, p.popTop, o)
      else shrinkLoop loaded rounds (p.withoutTop loaded)
        (o.freePage (loaded.translate p.topAddr).index) := by
  rw [shrinkLoop, if_pos (show p.heapSize + SmallestPageSize ≤ p.heapRoom from h)]
  unfold popTop withoutTop topAddr withHeap
  -- as a variable: nothing is to be found out about it
  generalize pred16 p.numHeapPages = m
  rfl

/-- A round whose top page is not where the map has it: the page has been counted down and its
    frame popped already. -/
theorem shrinkLoop_stuck (h : p.TooLarge) (htop : ¬ p.TopMatches loaded) :
    shrinkLoop loaded (rounds + 1) p o = .ok (false, p.popTop, o) := by
  rw [shrinkLoop_round h, Bool.eq_false_iff.mpr htop]
  rfl

/-- A round that frees the top page. -/
theorem shrinkLoop_page (h : p.TooLarge) (htop : p.TopMatches loaded) :
    shrinkLoop loaded (rounds + 1) p o =
      shrinkLoop loaded rounds (p.withoutTop loaded)
        (o.freePage (loaded.translate p.topAddr).index) := by
  rw [shrinkLoop_round h, show _ = true from htop]
  rfl

/-- With a round for each page and one more, the loop is through. -/
theorem Shrunk.loop (h : Shrunk loaded j p o p' o') :
    ∀ {rounds}, j < rounds → shrinkLoop loaded rounds p o = .ok (true, p', o') := by
  induction h with
  | done hdone =>
    intro rounds hlt
    cases rounds with
    | zero => exact absurd hlt (Nat.not_lt_zero _)
    | succ rounds => exact shrinkLoop_done hdone
  | page hlarge htop _ ih =>
    intro rounds hlt
    cases rounds with
    | zero => exact absurd hlt (Nat.not_lt_zero _)
    | succ rounds =>
      rw [shrinkLoop_page hlarge htop]
      exact ih (Nat.lt_of_succ_lt_succ hlt)

/-- What the second loop comes to. -/
theorem shrinkLoop_cases (loaded : MemMap) (rounds : Nat) :
    ∀ {p : ProcessDesc} {o : PhysPageManager numPhysPages},
    (∃ j p' o', j < rounds ∧ Shrunk loaded j p o p' o' ∧
      shrinkLoop loaded rounds p o = .ok (true, p', o')) ∨
    (∃ j p' o', j < rounds ∧ Stuck loaded j p o p' o' ∧
      shrinkLoop loaded rounds p o = .ok (false, p', o')) ∨
    shrinkLoop loaded rounds p o = .error .diverges := by
  induction rounds with
  | zero => intro p o; exact Or.inr (Or.inr rfl)
  | succ rounds ih =>
    intro p o
    by_cases hlarge : p.TooLarge
    · by_cases htop : p.TopMatches loaded
      · rw [shrinkLoop_page hlarge htop]
        rcases ih (p := p.withoutTop loaded) (o := o.freePage (loaded.translate p.topAddr).index)
          with
          ⟨j, p', o', hlt, hshrunk, hloop⟩ | ⟨j, p', o', hlt, hstuck, hloop⟩ | hloop
        · exact Or.inl ⟨j + 1, p', o', Nat.succ_lt_succ hlt, Shrunk.page hlarge htop hshrunk, hloop⟩
        · exact Or.inr
            (Or.inl ⟨j + 1, p', o', Nat.succ_lt_succ hlt, Stuck.later hlarge htop hstuck, hloop⟩)
        · exact Or.inr (Or.inr hloop)
      · exact Or.inr
          (Or.inl ⟨0, _, _, Nat.succ_pos _, Stuck.here hlarge htop, shrinkLoop_stuck hlarge htop⟩)
    · exact Or.inl ⟨0, p, o, Nat.succ_pos _, Shrunk.done hlarge, shrinkLoop_done hlarge⟩

/-- Freeing a page leaves the size, -/
theorem heapSize_withoutTop : (p.withoutTop loaded).heapSize = p.heapSize := by
  rw [withoutTop, heapSize_withHeap]

/-- and counts one down. -/
theorem numHeapPages_withoutTop : (p.withoutTop loaded).numHeapPages = pred16 p.numHeapPages := by
  rw [withoutTop, numHeapPages_withHeap]

/-- The count is in 16 bits. -/
theorem pred16_lt (m : Nat) : pred16 m < 65536 := Nat.mod_lt _ (by decide)

/-- Counting down once more. -/
theorem pred16_add (m j : Nat) :
    (pred16 m + 65535 * j) % 65536 = (m + 65535 * (j + 1)) % 65536 := by
  unfold pred16
  omega

/-- The room of the heap is that of its pages modulo 1024. -/
theorem toNat_room (m : Nat) :
    (BitVec.ofNat 32 m * SmallestPageSize).toNat = m % 1024 * 0x400000 := by
  have hsz : SmallestPageSize.toNat = 0x400000 := by decide
  rw [BitVec.toNat_mul, BitVec.toNat_ofNat, hsz]
  omega

/-- Where the size and a page more wrap around there is always a page too many. -/
theorem tooLarge_of_wrap (h : p.heapSize + SmallestPageSize = 0) : p.TooLarge := by
  unfold TooLarge
  rw [h, BitVec.le_def]
  exact Nat.zero_le _

/-- What a shrinking has counted. -/
structure ShrunkBy (j : Nat) (p : ProcessDesc) (o : PhysPageManager numPhysPages) (p' : ProcessDesc)
    (o' : PhysPageManager numPhysPages) : Prop where
  size : p'.heapSize = p.heapSize
  start : p'.heapStartingPageIdx = p.heapStartingPageIdx
  count : p'.numHeapPages = (p.numHeapPages + 65535 * j) % 65536
  fits : ¬ p'.TooLarge
  /-- No page is counted down that there is not. -/
  le : j ≤ p.numHeapPages

/-- Each round takes one from the count, and gives back one frame if that was in use. -/
theorem Shrunk.counted (h : Shrunk loaded j p o p' o') :
    p.numHeapPages < 65536 → ShrunkBy j p o p' o' := by
  induction h with
  | @done p o hdone =>
    intro hn
    exact ⟨rfl, rfl, (Nat.mod_eq_of_lt hn).symm, hdone, Nat.zero_le _⟩
  | @page j p o p' o' hlarge htop _ ih =>
    intro hn
    obtain ⟨hsize, hstart, hcount, hfits, hle⟩ :=
      ih (by rw [numHeapPages_withoutTop]; exact pred16_lt _)
    rw [heapSize_withoutTop] at hsize
    rw [numHeapPages_withoutTop] at hcount hle
    rw [withoutTop, heapStartingPageIdx_withHeap] at hstart
    have hpos : p.numHeapPages ≠ 0 := by
      intro h0
      refine hfits (tooLarge_of_wrap ?_)
      have hroom : p.heapSize + SmallestPageSize ≤ p.heapRoom := hlarge
      rw [heapRoom, h0, BitVec.le_def, toNat_room] at hroom
      rw [hsize]
      exact BitVec.eq_of_toNat_eq (Nat.le_zero.mp hroom)
    rw [pred16_add] at hcount
    rw [pred16_eq (by omega) hn] at hle
    exact ⟨hsize, hstart, hcount, hfits, by omega⟩

/-- A shrinking by no page changes nothing. -/
theorem Shrunk.zero (h : Shrunk loaded 0 p o p' o') : p' = p ∧ o' = o ∧ ¬ p.TooLarge := by
  cases h with
  | done hdone => exact ⟨rfl, rfl, hdone⟩

/-- What a shrinking that gets stuck has counted. -/
structure StuckBy (j : Nat) (p : ProcessDesc) (o : PhysPageManager numPhysPages) (p' : ProcessDesc)
    (o' : PhysPageManager numPhysPages) : Prop where
  /-- The size is as it was, -/
  size : p'.heapSize = p.heapSize
  /-- the pages freed are counted down, and the one that was not freed too; -/
  count : p'.numHeapPages = (p.numHeapPages + 65535 * (j + 1)) % 65536
  /-- its frame is popped like theirs, -/
  popped : p'.heapPhysicalPages.items.length = p.heapPhysicalPages.items.length - (j + 1)
  /-- and only theirs can have become free. -/
  frames : o'.freePhysAddr.items.length ≤ o.freePhysAddr.items.length + j

/-- Popping takes one away, if there is one. -/
theorem length_pop (s : Stack Nat 1024) : s.pop.2.items.length = s.items.length - 1 :=
  List.length_dropLast

/-- A frame that goes back is one more at most. -/
theorem length_freePage (x : Nat) :
    (o.freePage x).freePhysAddr.items.length ≤ o.freePhysAddr.items.length + 1 := by
  unfold PhysPageManager.freePage
  split
  · exact Nat.le_succ _
  · show (o.freePhysAddr.push x).items.length ≤ _
    rcases Nat.lt_or_ge o.freePhysAddr.items.length numPhysPages with hroom | hfull
    · rw [Stack.items_push _ _ hroom, List.length_append, List.length_singleton]
    · rw [Stack.items_push_full _ _ hfull]
      exact Nat.le_succ _

/-- The rounds before the last are those of a shrinking. -/
theorem Stuck.counted (h : Stuck loaded j p o p' o') : StuckBy j p o p' o' := by
  induction h with
  | @here p o hlarge htop =>
    refine ⟨?_, ?_, ?_, Nat.le_refl _⟩
    · rw [popTop, heapSize_withHeap]
    · rw [popTop, numHeapPages_withHeap, pred16, Nat.zero_add, Nat.mul_one]
    · rw [popTop, heapPhysicalPages_withHeap, length_pop]
  | @later j p o p' o' hlarge htop _ ih =>
    obtain ⟨hsize, hcount, hpopped, hframes⟩ := ih
    have hfree := length_freePage (o := o) (loaded.translate p.topAddr).index
    rw [heapSize_withoutTop] at hsize
    rw [numHeapPages_withoutTop, pred16_add] at hcount
    rw [withoutTop, heapPhysicalPages_withHeap, length_pop] at hpopped
    exact ⟨hsize, hcount, by omega, by omega⟩

/-- The loaded map has frame `x` at page `m` of the heap. -/
def HasFrame (loaded : MemMap) (start m x : Nat) : Prop :=
  (loaded.translate ⟨BitVec.ofNat 32 (start + m) * SmallestPageSize⟩).same (userPage x) = true

/-- Pages that are 1024 apart are the same page. -/
theorem HasFrame.congr {start m m' : Nat} (h : m % 1024 = m' % 1024) :
    HasFrame loaded start m x ↔ HasFrame loaded start m' x := by
  have haddr : BitVec.ofNat 32 (start + m) * SmallestPageSize =
      BitVec.ofNat 32 (start + m') * SmallestPageSize := by
    apply BitVec.eq_of_toNat_eq
    rw [toNat_room, toNat_room]
    omega
  unfold HasFrame
  rw [haddr]

/-- With no frame on the heap the value popped is the default, and so the map is asked for frame
    0. -/
theorem topMatches_iff (hempty : p.heapPhysicalPages.items = []) :
    p.TopMatches loaded ↔
    HasFrame loaded p.heapStartingPageIdx (pred16 p.numHeapPages) default := by
  have htop : p.heapPhysicalPages.pop.1 = default := by
    show p.heapPhysicalPages.items.getLastD default = default
    rw [hempty]
    rfl
  unfold TopMatches HasFrame topAddr heapEnd
  rw [htop]

/-- With no frame left on `heapPhysicalPages` all pages are held against the same frame: those up to
    the last are where they should be, and the last is not. -/
theorem Stuck.hasFrame (h : Stuck loaded j p o p' o') : p.heapPhysicalPages.items = [] →
    (∀ i < j, HasFrame loaded p.heapStartingPageIdx ((p.numHeapPages + 65535 * (i + 1)) % 65536)
      default) ∧
    ¬ HasFrame loaded p.heapStartingPageIdx ((p.numHeapPages + 65535 * (j + 1)) % 65536)
      default := by
  induction h with
  | @here p o hlarge htop =>
    intro hempty
    refine ⟨fun i hi => absurd hi (Nat.not_lt_zero i), ?_⟩
    rw [← pred16_add, Nat.mul_zero, Nat.add_zero, Nat.mod_eq_of_lt (pred16_lt _)]
    exact mt (topMatches_iff hempty).mpr htop
  | @later j p o p' o' hlarge htop _ ih =>
    intro hempty
    obtain ⟨hbefore, hlast⟩ := ih (by
      rw [withoutTop, heapPhysicalPages_withHeap]
      exact congrArg List.dropLast hempty)
    rw [numHeapPages_withoutTop, withoutTop, heapStartingPageIdx_withHeap, pred16_add] at hlast
    rw [numHeapPages_withoutTop, withoutTop, heapStartingPageIdx_withHeap] at hbefore
    refine ⟨fun i hi => ?_, hlast⟩
    rw [← pred16_add]
    cases i with
    | zero =>
      rw [Nat.mul_zero, Nat.add_zero, Nat.mod_eq_of_lt (pred16_lt _)]
      exact (topMatches_iff hempty).mp htop
    | succ i => exact hbefore i (Nat.lt_of_succ_lt_succ hi)

/-- When all pages have been counted down and the counter is where it was, each page has been held
    against what is on the empty `heapPhysicalPages`, many times over: none is the first that does
    not agree. -/
theorem Stuck.lt (h : Stuck loaded j p o p' o') (hempty : p.heapPhysicalPages.items = []) :
    j < 1024 := by
  by_contra hge
  obtain ⟨hbefore, hlast⟩ := h.hasFrame hempty
  refine hlast ((HasFrame.congr ?_).mp (hbefore (j - 1024) (by omega)))
  omega

end Loops

/-! ## The call

  What `sbrk` leaves in each of the ways it can end (`Leaves`), before anything is said about
  which of them are all or nothing.  The result is `NULL` in all of them but one. -/

/-- The process when `sbrk` has changed its size. -/
def ProcessDesc.resize (delta : BitVec 32) (p : ProcessDesc) : ProcessDesc :=
  { p with heapSize := p.heapSize + delta }

/-- The heap would be contracted beyond its starting address. -/
def Refused (delta : BitVec 32) (p : ProcessDesc) : Prop :=
  (delta.slt 0 && decide (p.heapSize < -delta)) = true

instance (delta : BitVec 32) (p : ProcessDesc) : Decidable (Refused delta p) :=
  inferInstanceAs (Decidable (_ = true))

/-- What a call that returns `NULL` must leave as it was. -/
structure Untouched (p : ProcessDesc) (o : PhysPageManager numPhysPages) (p' : ProcessDesc)
    (o' : PhysPageManager numPhysPages) : Prop where
  heapSize : p'.heapSize = p.heapSize
  numHeapPages : p'.numHeapPages = p.numHeapPages
  heapPhysicalPages : p'.heapPhysicalPages = p.heapPhysicalPages
  memmap : p'.memmap = p.memmap
  physPages : o' = o

/-- `sbrk` returns the old break, and the size has changed by `delta`; or it returns `NULL`, and
    nothing has changed. -/
def Atomic (k : Kernel) (pid : Pid) (p : ProcessDesc) (delta : BitVec 32)
    (vidmap : Option (BitVec 32)) : Prop :=
  ∃ ret k' p', k.sbrk pid delta vidmap = .ok (ret, k') ∧
    k'.table.all_processes pid.toNat = some p' ∧
        ((ret = some (BitVec.ofNat 32 p.heapStartingPageIdx * SmallestPageSize + p.heapSize) ∧
        (p'.heapSize.toNat : Int) = p.heapSize.toNat + delta.toInt) ∨
      (ret = none ∧ Untouched p k.physPages p' k'.physPages))

/-- The new size is a size, each page to append has a frame and is vacant, each page to free is
    where the loaded map has it, and the map can be loaded. -/
def GoesThrough (k : Kernel) (p : ProcessDesc) (delta : BitVec 32) (vidmap : Option (BitVec 32)) :
    Prop :=
  (p.heapSize.toNat + delta.toInt < 2 ^ 32) ∧ ∃ g p₁ o₁ j p₂ o₂,
    Grown g (p.resize delta) k.physPages p₁ o₁ ∧ Shrunk k.cpu0_memmap.loaded j p₁ o₁ p₂ o₂ ∧
      (k.cpu0_memmap.loadProcessMap ⟨p₂.memmap, vidmap⟩).1 = true

/-- The call is for nothing, and fails before it has done anything: there is a page to append and no
    frame, or there is no page to append or to free and the map cannot be loaded. -/
def FailsAtOnce (k : Kernel) (p : ProcessDesc) (delta : BitVec 32) (vidmap : Option (BitVec 32)) :
    Prop :=
  delta = 0#32 ∧ ((p.TooSmall ∧ k.physPages.freePhysAddr.empty = true) ∨
    (¬ p.TooSmall ∧ ¬ p.TooLarge ∧ (k.cpu0_memmap.loadProcessMap ⟨p.memmap, vidmap⟩).1 = false))

section Call

variable {k : Kernel} {pid : Pid} {p p₁ p₂ : ProcessDesc} {o o₁ o₂ : PhysPageManager numPhysPages}
  {delta : BitVec 32} {vidmap : Option (BitVec 32)} {loaded : MemMap} {g j : Nat}

/-- What is left to do after the second loop. -/
def afterShrink (k : Kernel) (pid : Pid) (vidmap : Option (BitVec 32)) (oldHeapSize : BitVec 32) :
    Bool × ProcessDesc × PhysPageManager numPhysPages → Except Fault (Option (BitVec 32) × Kernel)
  | (false, p, physPages) => .ok (none, { k with table := k.table.assign pid (some p), physPages })
  | (true, p, physPages) =>
    let (loaded, cpu0_memmap) := k.cpu0_memmap.loadProcessMap ⟨p.memmap, vidmap⟩
    let k := { k with table := k.table.assign pid (some p), physPages, cpu0_memmap }
    if !loaded then .ok (none, k)
    else .ok (some (BitVec.ofNat 32 p.heapStartingPageIdx * SmallestPageSize + oldHeapSize), k)

/-- What is left to do after the first loop, the second having so many rounds. -/
def afterGrow (rounds : Nat) (k : Kernel) (pid : Pid) (vidmap : Option (BitVec 32))
    (oldHeapSize : BitVec 32) :
    Bool × ProcessDesc × PhysPageManager numPhysPages → Except Fault (Option (BitVec 32) × Kernel)
  | (false, p, physPages) => .ok (none, { k with table := k.table.assign pid (some p), physPages })
  | (true, p, physPages) =>
    shrinkLoop k.cpu0_memmap.loaded rounds p physPages >>= afterShrink k pid vidmap oldHeapSize

/-- A call that is refused does nothing. -/
theorem sbrk_refused (hp : k.table.all_processes pid.toNat = some p) (h : Refused delta p) :
    k.sbrk pid delta vidmap = .ok (none, k) := by
  unfold Kernel.sbrk
  rw [TableInv.thread_eq hp]
  exact if_pos h

/-- A call that is not refused. -/
theorem sbrk_eq (hp : k.table.all_processes pid.toNat = some p) (h : ¬ Refused delta p) :
    k.sbrk pid delta vidmap =
      growLoop (numPhysPages + 1) (p.resize delta) k.physPages >>= afterGrow 65536 k pid vidmap
        p.heapSize := by
  unfold Kernel.sbrk
  rw [TableInv.thread_eq hp, Checked.ok_bind]
  simp only
  rw [if_neg (show ¬ (delta.slt 0 && decide (p.heapSize < -delta)) = true from h)]
  generalize (65536 : Nat) = rounds
  refine congrArg (_ >>= ·) (funext fun r => ?_)
  obtain ⟨grown, p₁, o₁⟩ := r
  cases grown with
  | false => rfl
  | true =>
    refine congrArg (_ >>= ·) (funext fun r => ?_)
    obtain ⟨shrunk, p₂, o₂⟩ := r
    cases shrunk with
    | false => rfl
    | true =>
      simp only [afterShrink]
      generalize k.cpu0_memmap.loadProcessMap ⟨p₂.memmap, vidmap⟩ = r
      obtain ⟨loaded, cpu0_memmap⟩ := r
      cases loaded <;> rfl

/-- The call comes to an end, and leaves `p'` and `o'`. -/
def Leaves (k : Kernel) (pid : Pid) (delta : BitVec 32) (vidmap ret : Option (BitVec 32))
    (p' : ProcessDesc) (o' : PhysPageManager numPhysPages) : Prop :=
  ∃ k', k.sbrk pid delta vidmap = .ok (ret, k') ∧ k'.table.all_processes pid.toNat = some p' ∧
    k'.physPages = o'

/-- A call whose first loop fails leaves what that has done. -/
theorem leaves_notGrown (hp : k.table.all_processes pid.toNat = some p) (h : ¬ Refused delta p)
    (hgrow : growLoop (numPhysPages + 1) (p.resize delta) k.physPages = .ok (false, p₁, o₁)) :
    Leaves k pid delta vidmap none p₁ o₁ := by
  refine ⟨{ k with table := k.table.assign pid (some p₁), physPages := o₁ }, ?_,
    assign_self _ pid _, rfl⟩
  rw [sbrk_eq hp h, hgrow, Checked.ok_bind]
  rfl

section Grew

variable (hp : k.table.all_processes pid.toNat = some p) (h : ¬ Refused delta p)
  (hgrow : growLoop (numPhysPages + 1) (p.resize delta) k.physPages = .ok (true, p₁, o₁))

include hp h hgrow

/-- After the first loop the call goes on with the second. -/
theorem sbrk_grown : k.sbrk pid delta vidmap =
    shrinkLoop k.cpu0_memmap.loaded 65536 p₁ o₁ >>= afterShrink k pid vidmap p.heapSize := by
  rw [sbrk_eq hp h, hgrow, Checked.ok_bind, afterGrow]

/-- If that never ends then neither does the call. -/
theorem sbrk_diverges (hshrink : shrinkLoop k.cpu0_memmap.loaded 65536 p₁ o₁ = .error .diverges) :
    k.sbrk pid delta vidmap = .error .diverges := by
  rw [sbrk_grown hp h hgrow, hshrink]
  rfl

/-- A call whose second loop fails leaves what both have done, -/
theorem leaves_notShrunk
    (hshrink : shrinkLoop k.cpu0_memmap.loaded 65536 p₁ o₁ = .ok (false, p₂, o₂)) :
    Leaves k pid delta vidmap none p₂ o₂ := by
  refine ⟨{ k with table := k.table.assign pid (some p₂), physPages := o₂ }, ?_,
    assign_self _ pid _, rfl⟩
  rw [sbrk_grown hp h hgrow, hshrink, Checked.ok_bind, afterShrink]

/-- and so does one whose map cannot be loaded. -/
theorem leaves_notLoaded
    (hshrink : shrinkLoop k.cpu0_memmap.loaded 65536 p₁ o₁ = .ok (true, p₂, o₂))
    (hload : (k.cpu0_memmap.loadProcessMap ⟨p₂.memmap, vidmap⟩).1 = false) :
    Leaves k pid delta vidmap none p₂ o₂ := by
  refine ⟨{ k with
    table := k.table.assign pid (some p₂)
    physPages := o₂
    cpu0_memmap := (k.cpu0_memmap.loadProcessMap ⟨p₂.memmap, vidmap⟩).2 }, ?_,
      assign_self _ pid _, rfl⟩
  rw [sbrk_grown hp h hgrow, hshrink, Checked.ok_bind, afterShrink]
  simp only [hload, Bool.not_false, if_true]

/-- A call that goes through returns the old break. -/
theorem leaves_loaded (hshrink : shrinkLoop k.cpu0_memmap.loaded 65536 p₁ o₁ = .ok (true, p₂, o₂))
    (hload : (k.cpu0_memmap.loadProcessMap ⟨p₂.memmap, vidmap⟩).1 = true) :
    Leaves k pid delta vidmap
      (some (BitVec.ofNat 32 p₂.heapStartingPageIdx * SmallestPageSize + p.heapSize)) p₂ o₂ := by
  refine ⟨{ k with
    table := k.table.assign pid (some p₂)
    physPages := o₂
    cpu0_memmap := (k.cpu0_memmap.loadProcessMap ⟨p₂.memmap, vidmap⟩).2 }, ?_,
      assign_self _ pid _, rfl⟩
  rw [sbrk_grown hp h hgrow, hshrink, Checked.ok_bind, afterShrink]
  simp only [hload, Bool.not_true, Bool.false_eq_true, if_false]

end Grew

/-! ### Sizes as integers

  The code compares and adds in 32 bits, and the specification is about integers; the two are
  tied together here, once. -/

/-- A call is refused when the size would go below zero. -/
theorem refused_iff : Refused delta p ↔ (p.heapSize.toNat : Int) + delta.toInt < 0 := by
  have hsize := p.heapSize.isLt
  have hdelta := delta.isLt
  rw [Refused, Bool.and_eq_true, decide_eq_true_iff, BitVec.slt_iff_toInt_lt,
    show BitVec.toInt (0 : BitVec 32) = 0 from rfl, BitVec.lt_def, BitVec.toNat_neg,
      BitVec.toInt_eq_toNat_cond]
  split <;> omega

/-- A size in range is the sum as an integer. -/
theorem toNat_resize (hlow : 0 ≤ (p.heapSize.toNat : Int) + delta.toInt)
    (hhigh : (p.heapSize.toNat : Int) + delta.toInt < 2 ^ 32) :
    ((p.resize delta).heapSize.toNat : Int) = p.heapSize.toNat + delta.toInt := by
  show ((p.heapSize + delta).toNat : Int) = _
  have hsize := p.heapSize.isLt
  have hdelta := delta.isLt
  rw [BitVec.toInt_eq_toNat_cond] at hlow hhigh ⊢
  rw [BitVec.toNat_add]
  split at hlow <;> omega

/-- A size that is kept has been asked to be kept. -/
theorem delta_eq_zero (h : (p.resize delta).heapSize = p.heapSize) : delta = 0#32 := by
  have h' : p.heapSize + delta = p.heapSize + 0#32 := by
    rw [BitVec.add_zero]
    exact h
  exact (BitVec.add_right_inj p.heapSize).mp h'

/-- Asking for nothing leaves the size. -/
theorem resize_zero (p : ProcessDesc) : p.resize 0#32 = p := by
  unfold resize
  rw [BitVec.add_zero]

/-! ### What undoes itself

  A call that fails late could still be atomic, if what it did were taken back on the way: frames
  taken by the first loop and given back by the second.  It cannot be.  Where a page that was
  appended is one too many again, the size wraps around, and no number of pages is small enough;
  and a loop that is stuck has popped a page. -/

/-- When a page that was appended is one too many, the size and a page more wrap around. -/
theorem GrownBy.wraps (h : GrownBy g p o p₁ o₁) (hpos : 0 < g) (hlarge : p₁.TooLarge) :
    p₁.heapSize + SmallestPageSize = 0 := by
  have hsz : SmallestPageSize.toNat = 0x400000 := by decide
  have hneeded := h.needed hpos
  have hroom : p₁.heapSize ≤ p₁.heapRoom := BitVec.not_lt.mp h.room
  have hlarge' : p₁.heapSize + SmallestPageSize ≤ p₁.heapRoom := hlarge
  have hcount := h.count
  rw [← h.size, gt_iff_lt, BitVec.lt_def, toNat_room] at hneeded
  rw [heapRoom, BitVec.le_def, toNat_room] at hroom hlarge'
  rw [BitVec.toNat_add, hsz] at hlarge'
  apply BitVec.eq_of_toNat_eq
  rw [BitVec.toNat_add, hsz]
  show _ = 0
  omega

/-- What was grown and shrunk and is as it was has been neither grown nor shrunk. -/
theorem not_grown_not_shrunk (hgrown : Grown g p o p₁ o₁) (hshrunk : Shrunk loaded j p₁ o₁ p₂ o₂)
    (hn : p.numHeapPages < 65536) (h : Untouched p o p₂ o₂) :
    p₂ = p ∧ ¬ p.TooSmall ∧ ¬ p.TooLarge := by
  have hby := hgrown.counted hn
  have hby' := hshrunk.counted hby.count_lt
  have hj : ¬ p₁.TooLarge → j = 0 := by
    intro hfits
    cases hshrunk with
    | done => rfl
    | page hlarge => exact absurd hlarge hfits
  rcases Nat.eq_zero_or_pos g with rfl | hpos
  · obtain ⟨rfl, rfl, hsmall⟩ := hgrown.zero
    have hcount := hby'.count
    rw [h.numHeapPages] at hcount
    have hle := hby'.le
    obtain rfl : j = 0 := by omega
    obtain ⟨rfl, -, hlarge⟩ := hshrunk.zero
    exact ⟨rfl, hsmall, hlarge⟩
  · by_cases hlarge : p₁.TooLarge
    · -- then there is always a page too many
      refine absurd (tooLarge_of_wrap ?_) hby'.fits
      rw [hby'.size]
      exact hby.wraps hpos hlarge
    · obtain rfl := hj hlarge
      obtain ⟨-, rfl, -⟩ := hshrunk.zero
      have hframes := hby.frames
      rw [h.physPages] at hframes
      omega

/-- What was grown and shrunk until it got stuck is not as it was. -/
theorem stuck_touches (hgrown : Grown g p o p₁ o₁) (hstuck : Stuck loaded j p₁ o₁ p₂ o₂)
    (hj : j < 65536) (hn : p.numHeapPages < 65536) : ¬ Untouched p o p₂ o₂ := by
  intro h
  have hby := hgrown.counted hn
  have hby' := hstuck.counted
  have hcount := hby'.count
  rw [h.numHeapPages, hby.count] at hcount
  rcases Nat.eq_zero_or_pos g with rfl | hpos
  · -- the counter has gone all the way round
    obtain ⟨rfl, rfl, -⟩ := hgrown.zero
    have hpopped := hby'.popped
    rw [h.heapPhysicalPages] at hpopped
    have hempty : p₁.heapPhysicalPages.items = [] := List.eq_nil_of_length_eq_zero (by omega)
    have hlt := hstuck.lt hempty
    omega
  · have hframes := hby.frames
    have hframes' := hby'.frames
    rw [h.physPages] at hframes'
    omega

/-! ### The specification

  Each way to end is atomic or not, whatever the state before; `sbrk_atomic_iff` collects them. -/

/-- What an atomic call leaves is what it is known to leave: with `NULL`, what was there, -/
theorem Leaves.untouched (h : Leaves k pid delta vidmap none p₁ o₁)
    (hatomic : Atomic k pid p delta vidmap) :
    Untouched p k.physPages p₁ o₁ := by
  obtain ⟨k₁, hrun, hp₁, rfl⟩ := h
  obtain ⟨ret, k', p', hrun', hp', hret⟩ := hatomic
  obtain ⟨rfl, rfl⟩ := Prod.mk.inj (Except.ok.inj (hrun.symm.trans hrun'))
  obtain rfl : p₁ = p' := Option.some.inj (hp₁.symm.trans hp')
  rcases hret with ⟨hc, -⟩ | ⟨-, huntouched⟩
  · cases hc
  · exact huntouched

/-- and otherwise a break that has moved by `delta`. -/
theorem Leaves.size {a : BitVec 32} (h : Leaves k pid delta vidmap (some a) p₁ o₁)
    (hatomic : Atomic k pid p delta vidmap) :
    (p₁.heapSize.toNat : Int) = p.heapSize.toNat + delta.toInt := by
  obtain ⟨k₁, hrun, hp₁, -⟩ := h
  obtain ⟨ret, k', p', hrun', hp', hret⟩ := hatomic
  obtain ⟨rfl, rfl⟩ := Prod.mk.inj (Except.ok.inj (hrun.symm.trans hrun'))
  obtain rfl : p₁ = p' := Option.some.inj (hp₁.symm.trans hp')
  rcases hret with ⟨-, hsize⟩ | ⟨hc, -⟩
  · exact hsize
  · cases hc

/-- Leaving everything as it was is atomic. -/
theorem atomic_of_untouched (h : Leaves k pid delta vidmap none p k.physPages) :
    Atomic k pid p delta vidmap := by
  obtain ⟨k', hrun, hp', ho⟩ := h
  exact ⟨none, k', p, hrun, hp', Or.inr ⟨rfl, rfl, rfl, rfl, rfl, ho⟩⟩

/-- A call that is refused is atomic; -/
theorem atomic_refused (hp : k.table.all_processes pid.toNat = some p) (h : Refused delta p) :
    Atomic k pid p delta vidmap :=
  atomic_of_untouched ⟨k, sbrk_refused hp h, hp, rfl⟩

/-- one that goes through is, since the loops change the pages and not the size; -/
theorem atomic_through (hp : k.table.all_processes pid.toNat = some p) (hn : p.numHeapPages < 65536)
    (h : ¬ Refused delta p) (hthrough : GoesThrough k p delta vidmap) :
    Atomic k pid p delta vidmap := by
  obtain ⟨hhigh, g, p₁, o₁, j, p₂, o₂, hgrown, hshrunk, hload⟩ := hthrough
  have hby := hgrown.counted hn
  have hby' := hshrunk.counted hby.count_lt
  have hg : g < numPhysPages + 1 := by
    have hframes := hby.frames
    have hbound := k.physPages.freePhysAddr.bounded
    omega
  have hj : j < 65536 := Nat.lt_of_le_of_lt hby'.le hby.count_lt
  obtain ⟨k', hrun, hp', -⟩ := leaves_loaded hp h (hgrown.loop hg) (hshrunk.loop hj) hload
  refine ⟨_, k', p₂, hrun, hp', Or.inl ⟨?_, ?_⟩⟩
  · rw [hby'.start, hby.start]
    rfl
  · rw [hby'.size, hby.size]
    exact toNat_resize (Int.not_lt.mp (mt refused_iff.mpr h)) hhigh

/-- asking for nothing is not refused; -/
theorem not_refused_zero : ¬ Refused 0#32 p := by
  rw [refused_iff]
  exact Int.not_lt.mpr (Int.natCast_nonneg _)

/-- and a call that asks for nothing and fails in the first round has not done anything. -/
theorem atomic_failsAtOnce (hp : k.table.all_processes pid.toNat = some p)
    (h : FailsAtOnce k p delta vidmap) : Atomic k pid p delta vidmap := by
  obtain ⟨rfl, ⟨hsmall, hempty⟩ | ⟨hsmall, hlarge, hload⟩⟩ := h
  · have halloc : k.physPages.allocPage true = (none, k.physPages) := if_pos hempty
    refine atomic_of_untouched (leaves_notGrown hp not_refused_zero ?_)
    rw [resize_zero]
    exact growLoop_full hsmall halloc
  · refine atomic_of_untouched
      (leaves_notLoaded hp not_refused_zero ?_ (shrinkLoop_done hlarge) hload)
    rw [resize_zero]
    exact growLoop_done hsmall

/-- **Which calls of `sbrk` are atomic**: those that are refused, those that go through, and those
    for nothing that fail at once.  All others change the size at least, and return `NULL` or a
    break that wrapped around, or do not return. -/
theorem sbrk_atomic_iff (hp : k.table.all_processes pid.toNat = some p)
    (hn : p.numHeapPages < 65536) :
    Atomic k pid p delta vidmap ↔ (p.heapSize.toNat : Int) + delta.toInt < 0 ∨
      GoesThrough k p delta vidmap ∨ FailsAtOnce k p delta vidmap := by
  rw [← refused_iff]
  constructor
  · intro hatomic
    by_cases h : Refused delta p
    · exact Or.inl h
    right
    have hrounds : k.physPages.freePhysAddr.items.length < numPhysPages + 1 :=
      Nat.lt_succ_of_le k.physPages.freePhysAddr.bounded
    rcases growLoop_cases (numPhysPages + 1) (p := p.resize delta) hrounds with
      ⟨g, p₁, o₁, hgrown, hgrow⟩ | ⟨p₁, o₁, hgrow, hsize, hwhy⟩
    · have hby := hgrown.counted (show (p.resize delta).numHeapPages < 65536 from hn)
      rcases shrinkLoop_cases k.cpu0_memmap.loaded 65536 (p := p₁) (o := o₁) with
        ⟨j, p₂, o₂, hj, hshrunk, hshrink⟩ | ⟨j, p₂, o₂, hj, hstuck, hshrink⟩ | hdiverges
      · -- both loops are through, so it is up to the map
        have hsize := (hshrunk.counted hby.count_lt).size.trans hby.size
        cases hload : (k.cpu0_memmap.loadProcessMap ⟨p₂.memmap, vidmap⟩).1 with
        | false =>
          have huntouched := (leaves_notLoaded hp h hgrow hshrink hload).untouched hatomic
          obtain rfl := delta_eq_zero (hsize.symm.trans huntouched.heapSize)
          rw [resize_zero] at hgrown
          obtain ⟨rfl, hsmall, hlarge⟩ := not_grown_not_shrunk hgrown hshrunk hn huntouched
          exact Or.inr ⟨rfl, Or.inr ⟨hsmall, hlarge, hload⟩⟩
        | true =>
          have hsum := (leaves_loaded hp h hgrow hshrink hload).size hatomic
          have hlt := p₂.heapSize.isLt
          exact Or.inl ⟨by omega, g, p₁, o₁, j, p₂, o₂, hgrown, hshrunk, hload⟩
      · -- the second loop fails, after it has changed something
        have huntouched := (leaves_notShrunk hp h hgrow hshrink).untouched hatomic
        obtain rfl :=
          delta_eq_zero ((hstuck.counted.size.trans hby.size).symm.trans huntouched.heapSize)
        rw [resize_zero] at hgrown
        exact absurd huntouched (stuck_touches hgrown hstuck hj hn)
      · obtain ⟨ret, k', p', hrun, -⟩ := hatomic
        rw [sbrk_diverges hp h hgrow hdiverges] at hrun
        cases hrun
    · -- the first loop fails, which is atomic only if it was for nothing and took no frame
      have huntouched := (leaves_notGrown hp h hgrow).untouched hatomic
      obtain rfl := delta_eq_zero (hsize.symm.trans huntouched.heapSize)
      rw [resize_zero] at hwhy
      rcases hwhy with ⟨hsmall, hempty, -⟩ | hless
      · exact Or.inr ⟨rfl, Or.inl ⟨hsmall, hempty⟩⟩
      · rw [huntouched.physPages] at hless
        exact absurd hless (Nat.lt_irrefl _)
  · rintro (h | h | h)
    · exact atomic_refused hp h
    · by_cases hrefused : Refused delta p
      · exact atomic_refused hp hrefused
      · exact atomic_through hp hn hrefused h
    · exact atomic_failsAtOnce hp h

end Call

/-! ## The first byte -/

/-- A heap of no bytes, right behind the program. -/
def emptyHeap : ProcessDesc := { ProcessDesc.new 7 .USER_PROCESS with heapStartingPageIdx := 34 }

/-- A machine with these frames left. -/
def framesLeft (frames : List Nat) : Kernel where
  table := ⟨8, fun _ => some emptyHeap⟩
  rrQueue := []
  wantToSwitchTo := -1
  currentlyRunning := -1
  isFallbackTerm := false
  current := 7
  physPages := frames.foldl (fun o x => o.addFree x) (PhysPageManager.blank _)
  cpu0_memmap := (MemMapManager.construct fun _ => 0).start

/-- The first byte of a heap, with one frame left for its page. -/
theorem sbrk_atomic_iff_firstByte : Atomic (framesLeft [5]) 7 emptyHeap 1#32 none := by
  have halloc : ((framesLeft [5]).physPages.allocPage true).1 = some 5 := by decide +kernel
  have hadd : ((emptyHeap.resize 1#32).memmap.add (emptyHeap.resize 1#32).heapEnd (userPage 5)).1 =
      true := by
    decide +kernel
  have hload : ((framesLeft [5]).cpu0_memmap.loadProcessMap
      ⟨((emptyHeap.resize 1#32).withPage 5).memmap, none⟩).1 = true := by decide +kernel
  refine (sbrk_atomic_iff rfl (by decide)).mpr (Or.inr (Or.inl ⟨by decide, ?_⟩))
  exact ⟨1, _, _, 0, _, _,
    Grown.page (by decide) (Prod.ext halloc rfl) hadd (Grown.done (by decide +kernel)),
    Shrunk.done (by decide +kernel), hload⟩

/-- With no frame left the first byte is not given, and the size says that it was. -/
theorem sbrk_noFrame : ¬ ∀ (k : Kernel) (pid : Pid) (p : ProcessDesc) (delta : BitVec 32)
    (vidmap : Option (BitVec 32)), k.table.all_processes pid.toNat = some p →
    p.numHeapPages < 65536 →
      Atomic k pid p delta vidmap := by
  intro h
  have hfull : (framesLeft []).physPages.allocPage true = (none, (framesLeft []).physPages) := rfl
  have hsmall : (emptyHeap.resize 1#32).TooSmall := by decide
  have hleaves :
      Leaves (framesLeft []) 7 1#32 none none (emptyHeap.resize 1#32) (framesLeft []).physPages :=
    leaves_notGrown rfl (by decide) (growLoop_full hsmall hfull)
  have hsize := (hleaves.untouched (h _ 7 emptyHeap 1#32 none rfl (by decide))).heapSize
  exact absurd hsize (by decide)

end TedkOS.Proc
