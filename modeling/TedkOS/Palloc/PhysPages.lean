/-
  The physical page allocator (`PhysPageManager`, inc/klibs/palloc.h).

  Memory is handed out in 4 MB pages, named by their index.  Which pages are free is kept TWICE: as
  a bitmap `isPhysAddrFree` and as a stack `freePhysAddr`.  The constructor fills both from what the
  boot loader reports, on one of two paths, and then takes the pages of the boot modules out:

  * with a memory map, every page of every usable region is added to both;
  * without one, the stack is filled by a loop of its own;
  * for every module, the bits of its pages are cleared.

  Machine words are `BitVec 32`; page indices are `uint16_t` and kept as numbers below 65536.

  Three spots of the constructor look like slips and are kept as written:
  * the loop without a memory map counts UP from the last page, around the 16-bit corner, and sets
    no bits;
  * a region that reaches past 4 GB is cut at index `0xffc`, four times the number of pages there
    are;
  * the module loop counts `ceil(end - start)` pages from the page of `start`, one short when the
    module starts inside a page, and leaves the stack as it is.
-/
import TedkOS.Klibs.BitSet
import TedkOS.Klibs.Stack

namespace TedkOS.PhysPages

/-- `memory_map_t`: one region of the boot loader's memory map.  (`size` only leads the loop to the
    next entry; the map is the list of the entries visited.) -/
structure MemoryMap where
  base_addr_low : BitVec 32
  base_addr_high : BitVec 32
  length_low : BitVec 32
  length_high : BitVec 32
  type : BitVec 32

/-- `module_t`: a file the boot loader put at `[mod_start, mod_end)`. -/
structure Module where
  mod_start : BitVec 32
  mod_end : BitVec 32

/-- `multiboot_info_t`, with the tables `mmap_addr` and `mods_addr` point to. -/
structure MultibootInfo where
  flags : BitVec 32
  mmap : List MemoryMap
  mods : List Module

/-- `CHECK_FLAG(flags, bit)`. -/
def CHECK_FLAG (flags : BitVec 32) (bit : Nat) : Bool := flags &&& (1#32 <<< bit) != 0

/-- `4_MB`. -/
def SmallestPageSize : BitVec 32 := 4 * 1024 * 1024

/-- `memory::ceil(len, blkSize)`. -/
def ceil (len blkSize : BitVec 32) : BitVec 32 :=
  if len % blkSize > 0 then len / blkSize + 1 else len / blkSize

/-- `[start_idx, end_idx)` of an entry, or `none` where the loop `continue`s. -/
def MemoryMap.region (mmap : MemoryMap) : Option (Nat × Nat) :=
  let start_low := mmap.base_addr_low
  let start_high := mmap.base_addr_high
  if start_high > 0 then none
  else if mmap.length_high > 0xffffffff - start_high then none
  else
    let end_high := start_high + mmap.length_high
    let end_high := if mmap.length_low > 0xffffffff - start_low then end_high + 1 else end_high
    let end_low := start_low + mmap.length_low
    let start_idx := (start_low >>> 22) ||| (start_high <<< 10)
    -- the mask is meant to be the high bits; in 32 bits it is the single bit 22
    if ((1#32 - (1#32 <<< 10)) <<< 22) &&& end_high ≠ 0 then none
    else
      let end_idx := if end_high = 0 then (end_low >>> 22) ||| (end_high <<< 10) else 0xffc
      some (start_idx.toNat, end_idx.toNat)

/-- The indices the inner loop adds, `0` and `1` left out. -/
def MemoryMap.indices (mmap : MemoryMap) : List Nat :=
  match mmap.region with
  | some (start_idx, end_idx) =>
    if mmap.type = 1 then
      (List.range' start_idx (end_idx - start_idx)).filter fun idx => idx != 0 && idx != 1
    else []
  | none => []

/-- The indices whose bits the module loop clears. -/
def Module.pages (mod : Module) : List Nat :=
  let numPages := ceil (mod.mod_end - mod.mod_start) SmallestPageSize
  (List.range numPages.toNat).map fun j =>
    ((mod.mod_start + BitVec.ofNat 32 j * SmallestPageSize) >>> 22).toNat

/-- `PhysPageManager<MaxMemory>`, by its number of pages. -/
structure PhysPageManager (MaxNumElements : Nat) where
  /-- A bit for every page, up if it is free. -/
  isPhysAddrFree : BitSet MaxNumElements
  /-- The free pages. -/
  freePhysAddr : Stack Nat MaxNumElements
  /-- Which of those in use are common to all processes. -/
  isCommonPage : BitSet MaxNumElements

namespace PhysPageManager

variable {MaxNumElements : Nat}

/-- No page is free. -/
def blank (MaxNumElements : Nat) : PhysPageManager MaxNumElements :=
  ⟨BitSet.new _, Stack.new _ _, BitSet.new _⟩

/-- The body of the inner loop over a region.  (`push` takes a `uint16_t`.) -/
def addFree (o : PhysPageManager MaxNumElements) (idx : Nat) : PhysPageManager MaxNumElements :=
  if !o.isPhysAddrFree.test idx then
    { o with
      isPhysAddrFree := o.isPhysAddrFree.set idx
      freePhysAddr := o.freePhysAddr.push (idx % 65536) }
  else o

/-- `for (uint16_t i = MaxNumElements - 1; i >= 2; i++) freePhysAddr.push(i);` with `left` rounds
    at most.  The counter goes up, so the loop ends when it wraps to 0: within 65536 rounds. -/
def noMmapLoop : Nat → Nat → Stack Nat MaxNumElements → Stack Nat MaxNumElements
  | 0, _, s => s
  | left + 1, i, s => if i ≥ 2 then noMmapLoop left ((i + 1) % 65536) (s.push i) else s

/-- The two paths of the constructor. -/
def scan (mbi : MultibootInfo) : PhysPageManager MaxNumElements :=
  if CHECK_FLAG mbi.flags 6 then
    mbi.mmap.foldl (fun o mmap => mmap.indices.foldl addFree o) (blank _)
  else
    { blank _ with
      freePhysAddr := noMmapLoop 65536 ((MaxNumElements - 1) % 65536) (Stack.new _ _) }

/-- Takes a page out of the bitmap, and leaves the stack. -/
def clearFree (o : PhysPageManager MaxNumElements) (idx : Nat) : PhysPageManager MaxNumElements :=
  { o with isPhysAddrFree := o.isPhysAddrFree.clear idx }

/-- `PhysPageManager(mbi)`. -/
def construct (mbi : MultibootInfo) : PhysPageManager MaxNumElements :=
  mbi.mods.foldl (fun o mod => mod.pages.foldl clearFree o) (((scan mbi).clearFree 0).clearFree 1)

/-- `allocPage(isCommonPage)`. -/
def allocPage (isCommonPage : Bool) (o : PhysPageManager MaxNumElements) :
    Option Nat × PhysPageManager MaxNumElements :=
  if o.freePhysAddr.empty then (none, o)
  else
    let (top, freePhysAddr) := o.freePhysAddr.pop
    if !o.isPhysAddrFree.test top then (none, { o with freePhysAddr })
    else
      (some top, { o with
        freePhysAddr
        isPhysAddrFree := o.isPhysAddrFree.clear top
        isCommonPage := if isCommonPage then o.isCommonPage.set top else o.isCommonPage })

/-- `markPageAsUsed(pageIndex)`. -/
def markPageAsUsed (pageIndex : Nat) (o : PhysPageManager MaxNumElements) :
    PhysPageManager MaxNumElements :=
  if o.isPhysAddrFree.test pageIndex = false then o
  else
    { o with
      isPhysAddrFree := o.isPhysAddrFree.clear pageIndex
      freePhysAddr := (o.freePhysAddr.dropFirst fun _pageIndex => pageIndex == _pageIndex).2 }

/-- `freePage(pageIndex)`. -/
def freePage (pageIndex : Nat) (o : PhysPageManager MaxNumElements) :
    PhysPageManager MaxNumElements :=
  if o.isPhysAddrFree.test pageIndex then o
  else
    { o with
      isPhysAddrFree := o.isPhysAddrFree.set pageIndex
      isCommonPage := o.isCommonPage.clear pageIndex
      freePhysAddr := o.freePhysAddr.push pageIndex }

end PhysPageManager

/-- The number of pages of `physPages`, `PhysPageManager<0xff000000>`. -/
def numPhysPages : Nat := 0xff000000 / (4 * 1024 * 1024)

/-! ## The module loop

  The pages of a module, as the source counts them, in 32 bits. -/

/-- The pages for a length, without a sum that could wrap. -/
theorem toNat_ceil_eq (len blkSize : BitVec 32) (hblk : 1 < blkSize.toNat) :
    (ceil len blkSize).toNat =
      len.toNat / blkSize.toNat + if len.toNat % blkSize.toNat = 0 then 0 else 1 := by
  have hmod : (len % blkSize > 0) ↔ 0 < len.toNat % blkSize.toNat := by
    rw [gt_iff_lt, BitVec.lt_def, BitVec.toNat_umod]; rfl
  unfold ceil
  by_cases h : len % blkSize > 0
  · have h' := hmod.mp h
    have hsmall : len.toNat / blkSize.toNat ≤ len.toNat / 2 :=
      Nat.div_le_div_left (by omega) (by omega)
    have hlt := len.isLt
    have h1 : (1 : BitVec 32).toNat = 1 := rfl
    rw [if_pos h, if_neg (by omega), BitVec.toNat_add, BitVec.toNat_udiv, h1]
    apply Nat.mod_eq_of_lt
    omega
  · have h' := mt hmod.mpr h
    rw [if_neg h, if_pos (by omega), BitVec.toNat_udiv, Nat.add_zero]

/-- In pages of 4 MB. -/
theorem toNat_ceil (len : BitVec 32) :
    (ceil len SmallestPageSize).toNat =
      (len.toNat + (4 * 1024 * 1024 - 1)) / (4 * 1024 * 1024) := by
  have hsz : SmallestPageSize.toNat = 4 * 1024 * 1024 := by decide
  rw [toNat_ceil_eq len SmallestPageSize (by decide), hsz]
  split <;> omega

/-- **The pages the module loop clears**: as many as the LENGTH of the module takes up, counted from
    the page of its start. -/
theorem mem_pages {mod : Module} (h : mod.mod_start.toNat ≤ mod.mod_end.toNat) (p : Nat) :
    p ∈ mod.pages ↔ mod.mod_start.toNat / (4 * 1024 * 1024) ≤ p ∧
      p < mod.mod_start.toNat / (4 * 1024 * 1024) +
        (mod.mod_end.toNat - mod.mod_start.toNat + (4 * 1024 * 1024 - 1)) / (4 * 1024 * 1024) := by
  have hs := mod.mod_start.isLt
  have he := mod.mod_end.isLt
  have hlen : (mod.mod_end - mod.mod_start).toNat = mod.mod_end.toNat - mod.mod_start.toNat :=
    BitVec.toNat_sub_of_le (BitVec.le_def.mpr h)
  have hsz : SmallestPageSize.toNat = 4 * 1024 * 1024 := by decide
  -- the page cleared in round `j`: no address of the loop passes `mod_end`
  have hround : ∀ j, j < (mod.mod_end.toNat - mod.mod_start.toNat + (4 * 1024 * 1024 - 1)) /
      (4 * 1024 * 1024) →
      ((mod.mod_start + BitVec.ofNat 32 j * SmallestPageSize) >>> 22).toNat =
        mod.mod_start.toNat / (4 * 1024 * 1024) + j := by
    intro j hj
    rw [BitVec.toNat_ushiftRight, Nat.shiftRight_eq_div_pow, BitVec.toNat_add, BitVec.toNat_mul,
      BitVec.toNat_ofNat, hsz]
    omega
  unfold Module.pages
  simp only [List.mem_map, List.mem_range, toNat_ceil, hlen]
  constructor
  · rintro ⟨j, hj, rfl⟩
    rw [hround j hj]
    omega
  · rintro ⟨h1, h2⟩
    refine ⟨p - mod.mod_start.toNat / (4 * 1024 * 1024), by omega, ?_⟩
    rw [hround _ (by omega)]
    omega

/-! ## What the constructor leaves in the bitmap

  The bits are set by one loop and taken down by another.  So a bit is up if the page is in a
  usable region of the map and not one of those the module loop counts (`test_construct`). -/

/-- The pages the memory map makes available. -/
def MultibootInfo.available (mbi : MultibootInfo) : List Nat :=
  if CHECK_FLAG mbi.flags 6 then mbi.mmap.flatMap MemoryMap.indices else []

/-- The pages the module loop clears. -/
def MultibootInfo.cleared (mbi : MultibootInfo) : List Nat := mbi.mods.flatMap Module.pages

/-- A region never gives pages 0 and 1, -/
theorem mem_indices {mmap : MemoryMap} {i : Nat} (h : i ∈ mmap.indices) : i ≠ 0 ∧ i ≠ 1 := by
  unfold MemoryMap.indices at h
  split at h
  · split at h
    · simpa using (List.mem_filter.mp h).2
    · exact absurd h List.not_mem_nil
  · exact absurd h List.not_mem_nil

/-- so no region does. -/
theorem available_ne {mbi : MultibootInfo} {i : Nat} (h : i ∈ mbi.available) : i ≠ 0 ∧ i ≠ 1 := by
  unfold MultibootInfo.available at h
  split at h
  · obtain ⟨mmap, _, hi⟩ := List.mem_flatMap.mp h
    exact mem_indices hi
  · exact absurd h List.not_mem_nil

section Constructor

variable {n : Nat} (o : PhysPageManager n) (mbi : MultibootInfo)

open PhysPageManager

/-- Adding a page brings its bit up, -/
theorem test_addFree (idx j : Nat) :
    (o.addFree idx).isPhysAddrFree.test j = true ↔
      o.isPhysAddrFree.test j = true ∨ (j = idx ∧ idx < n) := by
  unfold addFree
  cases ht : o.isPhysAddrFree.test idx with
  | true =>
    refine ⟨Or.inl, ?_⟩
    rintro (h | ⟨rfl, _⟩)
    · exact h
    · exact ht
  | false =>
    show (o.isPhysAddrFree.set idx).test j = true ↔ _
    rw [BitSet.test_set]
    by_cases h : j = idx ∧ idx < n
    · rw [if_pos h]; simp [h]
    · rw [if_neg h]; simp [h]

/-- and adding many brings theirs up. -/
theorem test_foldl_addFree (j : Nat) : ∀ (l : List Nat) (o : PhysPageManager n),
    (l.foldl addFree o).isPhysAddrFree.test j = true ↔
      o.isPhysAddrFree.test j = true ∨ (j ∈ l ∧ j < n) := by
  intro l
  induction l with
  | nil => intro o; simp
  | cons x l ih =>
    intro o
    rw [List.foldl_cons, ih, test_addFree, List.mem_cons]
    constructor
    · rintro ((h | ⟨rfl, hx⟩) | ⟨h, hj⟩)
      · exact Or.inl h
      · exact Or.inr ⟨Or.inl rfl, hx⟩
      · exact Or.inr ⟨Or.inr h, hj⟩
    · rintro (h | ⟨rfl | h, hj⟩)
      · exact Or.inl (Or.inl h)
      · exact Or.inl (Or.inr ⟨rfl, hj⟩)
      · exact Or.inr ⟨h, hj⟩

/-- With a memory map the constructor adds the available pages, -/
theorem scan_eq_foldl (h : CHECK_FLAG mbi.flags 6 = true) :
    (scan mbi : PhysPageManager n) = mbi.available.foldl addFree (blank n) := by
  rw [scan, if_pos h, MultibootInfo.available, if_pos h, List.foldl_flatMap]

/-- and so their bits are up, if there are such pages. -/
theorem test_scan (j : Nat) :
    (scan mbi : PhysPageManager n).isPhysAddrFree.test j = true ↔ j ∈ mbi.available ∧ j < n := by
  by_cases h : CHECK_FLAG mbi.flags 6 = true
  · rw [scan_eq_foldl mbi h, test_foldl_addFree]
    simp [blank]
  · rw [scan, if_neg h, MultibootInfo.available, if_neg h]
    simp [blank]

/-- The module loop clears bits and does nothing else. -/
theorem foldl_clearFree (l : List Nat) : ∀ o : PhysPageManager n,
    (l.foldl clearFree o).freePhysAddr = o.freePhysAddr ∧
    ∀ j, (l.foldl clearFree o).isPhysAddrFree.test j = true ↔
      o.isPhysAddrFree.test j = true ∧ j ∉ l := by
  induction l with
  | nil => intro o; exact ⟨rfl, fun j => by simp⟩
  | cons x l ih =>
    intro o
    obtain ⟨hs, hb⟩ := ih (o.clearFree x)
    refine ⟨hs, fun j => ?_⟩
    rw [List.foldl_cons, hb j, List.mem_cons, not_or]
    show (o.isPhysAddrFree.clear x).test j = true ∧ _ ↔ _
    rw [BitSet.test_clear]
    by_cases hjx : j = x
    · rw [if_pos hjx]; simp [hjx]
    · rw [if_neg hjx]; simp [hjx]

/-- Then it takes out pages 0 and 1 and those of the modules, -/
theorem construct_eq : (construct mbi : PhysPageManager n) =
    (0 :: 1 :: mbi.cleared).foldl clearFree (scan mbi) := by
  rw [construct, MultibootInfo.cleared, List.foldl_cons, List.foldl_cons, List.foldl_flatMap]

/-- of the bitmap only. -/
theorem freePhysAddr_construct :
    (construct mbi : PhysPageManager n).freePhysAddr = (scan mbi).freePhysAddr := by
  rw [construct_eq]
  exact (foldl_clearFree _ _).1

/-- **The bitmap after the constructor**: the available pages, less those a module loop cleared. -/
theorem test_construct (j : Nat) :
    (construct mbi : PhysPageManager n).isPhysAddrFree.test j = true ↔
      j ∈ mbi.available ∧ j < n ∧ j ∉ mbi.cleared := by
  rw [construct_eq, (foldl_clearFree _ _).2, test_scan, List.mem_cons, List.mem_cons]
  constructor
  · rintro ⟨⟨h1, h2⟩, h3⟩
    exact ⟨h1, h2, fun hc => h3 (Or.inr (Or.inr hc))⟩
  · rintro ⟨h1, h2, h3⟩
    refine ⟨⟨h1, h2⟩, ?_⟩
    rintro (h | h | h)
    · exact (available_ne h1).1 h
    · exact (available_ne h1).2 h
    · exact h3 h

end Constructor

/-! ## What the constructor leaves on the stack

  `Consistent` compares the stack with the bits.  Adding a page keeps it, if the page exists; and
  if one does not, an index that is no page ends up on the stack (`overrun_pushed`).  The loop
  without a memory map pushes pages and sets no bit, and the module loop takes down bits and
  leaves the stack.  So each of the three conditions of `Clean` is needed. -/

section FreeStack

variable {n : Nat}

open PhysPageManager FreeList

/-- The bitmap and the stack say the same: each free page is on the stack once, and nothing else
    is. -/
def Consistent (o : PhysPageManager n) : Prop :=
  Tracks o.freePhysAddr.items {i | o.isPhysAddrFree.test i = true}

/-- The stack has room for a page that is not free. -/
theorem Consistent.room {o : PhysPageManager n} (h : Consistent o) {i : Nat} (hi : i < n)
    (hfree : o.isPhysAddrFree.test i = false) : o.freePhysAddr.items.length < n := by
  have := h.length_lt (U := List.range n) (a := i)
    (fun a ha => List.mem_range.mpr (BitSet.lt_of_test ha)) (List.mem_range.mpr hi)
    (fun hc => by rw [Set.mem_ofPred_eq, hfree] at hc; exact absurd hc (by decide))
  rwa [List.length_range] at this

/-- Setting the bit of a page and pushing it keeps the two in step. -/
theorem Consistent.give {o : PhysPageManager n} (h : Consistent o) {i : Nat} (hi : i < n)
    (hfree : o.isPhysAddrFree.test i = false) :
    Tracks (o.freePhysAddr.push i).items {j | (o.isPhysAddrFree.set i).test j = true} := by
  rw [Stack.items_push _ _ (h.room hi hfree)]
  refine (h.push fun hc => ?_).congr fun j => ?_
  · rw [Set.mem_ofPred_eq, hfree] at hc; exact absurd hc (by decide)
  · rw [Set.mem_insert_iff, Set.mem_ofPred_eq, Set.mem_ofPred_eq, BitSet.test_set]
    by_cases hji : j = i
    · rw [if_pos ⟨hji, hi⟩]; simp [hji]
    · rw [if_neg fun hc => hji hc.1]; simp [hji]

/-- Clearing a bit and taking the page off the stack keeps the two in step. -/
theorem Consistent.take {o : PhysPageManager n} {l : List Nat} {i : Nat}
    (h : Tracks l ({j | o.isPhysAddrFree.test j = true} \ {i})) :
    Tracks l {j | (o.isPhysAddrFree.clear i).test j = true} := by
  refine h.congr fun j => ?_
  rw [Set.mem_sdiff, Set.mem_singleton_iff, Set.mem_ofPred_eq, Set.mem_ofPred_eq,
    BitSet.test_clear]
  by_cases hji : j = i
  · rw [if_pos hji]; simp [hji]
  · rw [if_neg hji]; simp [hji]

/-- Without a page both are empty. -/
theorem consistent_blank : Consistent (blank n) :=
  Tracks.nil.congr fun i => by simp [blank]

/-- Adding a page adds it to both. -/
theorem Consistent.addFree {o : PhysPageManager n} (h : Consistent o) {idx : Nat} (hidx : idx < n)
    (h16 : idx < 65536) : Consistent (o.addFree idx) := by
  unfold PhysPageManager.addFree
  cases ht : o.isPhysAddrFree.test idx with
  | true => exact h
  | false =>
    rw [Nat.mod_eq_of_lt h16]
    exact h.give hidx ht

/-- A region below the last page is added consistently. -/
theorem Consistent.foldl_addFree (hn : n ≤ 65536) : ∀ (l : List Nat) (o : PhysPageManager n),
    Consistent o → (∀ i ∈ l, i < n) → Consistent (l.foldl PhysPageManager.addFree o) := by
  intro l
  induction l with
  | nil => intro o h _; exact h
  | cons x l ih =>
    intro o h hl
    have hx := hl x List.mem_cons_self
    exact ih _ (h.addFree hx (by omega)) fun i hi => hl i (List.mem_cons_of_mem x hi)

/-- Nothing is taken off the stack while regions are added. -/
theorem mem_foldl_addFree (a : Nat) : ∀ (l : List Nat) (o : PhysPageManager n),
    a ∈ o.freePhysAddr.items → a ∈ (l.foldl PhysPageManager.addFree o).freePhysAddr.items := by
  intro l
  induction l with
  | nil => intro o h; exact h
  | cons x l ih =>
    intro o h
    refine ih _ ?_
    unfold PhysPageManager.addFree
    split
    · exact Stack.mem_push h
    · exact h

/-- **The first index past the last page lands on the stack**: before it the two agree, page `0` is
    not free, so there is room. -/
theorem overrun_pushed (h0 : 0 < n) : ∀ (l : List Nat) (o : PhysPageManager n),
    Consistent o → o.isPhysAddrFree.test 0 = false → (∀ i ∈ l, i ≠ 0 ∧ i < 65536) →
      (∃ i ∈ l, n ≤ i) →
      ∃ i, n ≤ i ∧ i ∈ (l.foldl PhysPageManager.addFree o).freePhysAddr.items := by
  intro l
  induction l with
  | nil => rintro o _ _ _ ⟨i, hi, _⟩; exact absurd hi List.not_mem_nil
  | cons x l ih =>
    intro o h hz hl hover
    obtain ⟨hx0, hx16⟩ := hl x List.mem_cons_self
    rcases Nat.lt_or_ge x n with hx | hx
    · refine ih _ (h.addFree hx hx16) ?_ (fun i hi => hl i (List.mem_cons_of_mem x hi)) ?_
      · cases hc : (o.addFree x).isPhysAddrFree.test 0 with
        | false => rfl
        | true =>
          rcases (test_addFree o x 0).mp hc with hc | ⟨hc, _⟩
          · rw [hz] at hc; exact absurd hc (by decide)
          · exact absurd hc.symm hx0
      · obtain ⟨i, hi, hni⟩ := hover
        rcases List.mem_cons.mp hi with rfl | hi
        · omega
        · exact ⟨i, hi, hni⟩
    · refine ⟨x, hx, mem_foldl_addFree x l _ ?_⟩
      unfold PhysPageManager.addFree
      rw [BitSet.test_of_ge _ hx, Nat.mod_eq_of_lt hx16]
      show x ∈ (o.freePhysAddr.push x).items
      rw [Stack.items_push _ _ (h.room h0 hz)]
      simp

/-- A region ends at most at the cut. -/
theorem region_end_lt {mmap : MemoryMap} {start_idx end_idx : Nat}
    (h : mmap.region = some (start_idx, end_idx)) : end_idx < 65536 := by
  unfold MemoryMap.region at h
  simp only at h
  generalize (if mmap.length_low > 0xffffffff - mmap.base_addr_low
    then mmap.base_addr_high + mmap.length_high + 1
    else mmap.base_addr_high + mmap.length_high) = end_high at h
  split at h
  · cases h
  split at h
  · cases h
  split at h
  · cases h
  obtain ⟨_, rfl⟩ := Prod.mk.inj (Option.some.inj h)
  split
  · rename_i hz
    have hor : (0 : BitVec 32) <<< 10 = 0#32 := by decide
    rw [hz, hor, BitVec.or_zero, BitVec.toNat_ushiftRight]
    have := (mmap.base_addr_low + mmap.length_low).isLt
    rw [Nat.shiftRight_eq_div_pow]
    omega
  · decide

/-- Indices of regions fit the 16 bits they are stored in. -/
theorem indices_lt {mmap : MemoryMap} {i : Nat} (h : i ∈ mmap.indices) : i < 65536 := by
  unfold MemoryMap.indices at h
  split at h
  · rename_i start_idx end_idx hreg
    split at h
    · have hi := List.mem_range'_1.mp (List.mem_filter.mp h).1
      have hend := region_end_lt hreg
      omega
    · exact absurd h List.not_mem_nil
  · exact absurd h List.not_mem_nil

/-- An index fits 16 bits. -/
theorem available_lt {mbi : MultibootInfo} {i : Nat} (h : i ∈ mbi.available) : i < 65536 := by
  unfold MultibootInfo.available at h
  split at h
  · obtain ⟨mmap, _, hi⟩ := List.mem_flatMap.mp h
    exact indices_lt hi
  · exact absurd h List.not_mem_nil

/-- The loop without a memory map keeps what it has pushed. -/
theorem mem_noMmapLoop (a : Nat) : ∀ (left i : Nat) (s : Stack Nat n), a ∈ s.items →
    a ∈ (noMmapLoop left i s).items := by
  intro left
  induction left with
  | zero => intro i s h; exact h
  | succ left ih =>
    intro i s h
    rw [noMmapLoop]
    split
    · exact ih _ _ (Stack.mem_push h)
    · exact h

/-- What the boot loader must report for the two structures to agree: a memory map, no usable
    region past the last page, and no module on a page the map makes available. -/
structure Clean (n : Nat) (mbi : MultibootInfo) : Prop where
  /-- There is a memory map, -/
  hasMap : CHECK_FLAG mbi.flags 6 = true
  /-- without pages past the last, -/
  inRange : ∀ i ∈ mbi.available, i < n
  /-- and no module lies on one of its pages. -/
  noModule : ∀ i ∈ mbi.available, i ∉ mbi.cleared

/-- With a memory map inside the pages, the scan keeps bitmap and stack in step. -/
theorem consistent_scan (hn : n ≤ 65536) {mbi : MultibootInfo}
    (hmap : CHECK_FLAG mbi.flags 6 = true) (hrange : ∀ i ∈ mbi.available, i < n) :
    Consistent (scan mbi : PhysPageManager n) := by
  rw [scan_eq_foldl mbi hmap]
  exact Consistent.foldl_addFree hn _ _ consistent_blank hrange

/-- Without a memory map the last page is pushed. -/
theorem last_mem_scan (h3 : 3 ≤ n) (hn : n ≤ 65536) {mbi : MultibootInfo}
    (hf : ¬ CHECK_FLAG mbi.flags 6 = true) :
    n - 1 ∈ (scan mbi : PhysPageManager n).freePhysAddr.items := by
  rw [scan, if_neg hf]
  show n - 1 ∈ (noMmapLoop (65535 + 1) ((n - 1) % 65536) (Stack.new Nat n)).items
  rw [Nat.mod_eq_of_lt (by omega), noMmapLoop, if_pos (by omega)]
  apply mem_noMmapLoop
  rw [Stack.items_push _ _ (by simp; omega)]
  simp

/-- **The constructor leaves bitmap and stack in step exactly for a clean report.** -/
theorem consistent_construct_iff (h3 : 3 ≤ n) (hn : n ≤ 65536) (mbi : MultibootInfo) :
    Consistent (construct mbi : PhysPageManager n) ↔ Clean n mbi := by
  constructor
  · intro h
    unfold Consistent at h
    rw [freePhysAddr_construct] at h
    have hmem : ∀ i, i ∈ (scan mbi : PhysPageManager n).freePhysAddr.items ↔
        i ∈ mbi.available ∧ i < n ∧ i ∉ mbi.cleared := fun i =>
      (h.mem_iff i).trans (test_construct mbi i)
    have hmap : CHECK_FLAG mbi.flags 6 = true := by
      by_contra hf
      have hav := ((hmem _).mp (last_mem_scan h3 hn hf)).1
      rw [MultibootInfo.available, if_neg hf] at hav
      exact absurd hav List.not_mem_nil
    have hrange : ∀ i ∈ mbi.available, i < n := by
      intro i hi
      by_contra hge
      obtain ⟨j, hj, hjm⟩ := overrun_pushed (by omega) mbi.available (blank n)
        consistent_blank (by simp [blank])
        (fun k hk => ⟨(available_ne hk).1, available_lt hk⟩) ⟨i, hi, Nat.le_of_not_lt hge⟩
      rw [← scan_eq_foldl mbi hmap] at hjm
      have hlt := ((hmem j).mp hjm).2.1
      omega
    refine ⟨hmap, hrange, fun i hi hc => ?_⟩
    -- an available page is on the stack, so its bit must be up
    have hon := ((consistent_scan hn hmap hrange).mem_iff i).mpr
      ((test_scan mbi i).mpr ⟨hi, hrange i hi⟩)
    exact ((hmem i).mp hon).2.2 hc
  · intro h
    unfold Consistent
    rw [freePhysAddr_construct]
    refine Tracks.congr (consistent_scan hn h.hasMap h.inRange) fun i => ?_
    rw [Set.mem_ofPred_eq, Set.mem_ofPred_eq, test_scan, test_construct]
    exact ⟨fun ⟨h1, h2⟩ => ⟨h1, h2, h.noModule i h1⟩, fun ⟨h1, h2, _⟩ => ⟨h1, h2⟩⟩

end FreeStack

end TedkOS.PhysPages
