/-
  The free pages against the memory map of the boot loader.

  An entry is 64 bits wide, base and length, in halves of 32 bits each; the constructor adds the
  halves with a carry of its own, and rounds both ends DOWN to 4 MB.

  1. **Arithmetic** — `mem_indices_iff` says in whole numbers which pages an entry gives: those from
     the page its base lies in to the one its end lies in, the last excluded, and for an entry that
     crosses 4 GB all up to index 4091.

  2. **The free list** — `onFreeList_iff` says for which maps every page on the list exists and lies
     in an available entry: the first page of an entry that starts inside a page is taken whole, and
     nothing keeps indices from `MaxNumElements` on away.
-/
import TedkOS.Palloc.PhysPages

namespace TedkOS.PhysPages

open FreeList PhysPageManager

/-! ## Entries -/

/-- Where the entry begins. -/
def MemoryMap.base (mmap : MemoryMap) : Nat :=
  mmap.base_addr_high.toNat * 0x100000000 + mmap.base_addr_low.toNat

/-- Where the entry ends, which may be past 64 bits. -/
def MemoryMap.limit (mmap : MemoryMap) : Nat :=
  mmap.base + (mmap.length_high.toNat * 0x100000000 + mmap.length_low.toNat)

/-- The whole page `i` lies in the entry, and the entry is available memory. -/
def MemoryMap.Covers (mmap : MemoryMap) (i : Nat) : Prop :=
  mmap.type = 1 ∧ mmap.base ≤ i * (4 * 1024 * 1024) ∧ (i + 1) * (4 * 1024 * 1024) ≤ mmap.limit

/-- The memory map, if there is one. -/
def MultibootInfo.entries (mbi : MultibootInfo) : List MemoryMap :=
  if CHECK_FLAG mbi.flags 6 then mbi.mmap else []

def MultibootInfo.Covers (mbi : MultibootInfo) (i : Nat) : Prop :=
  ∃ mmap ∈ mbi.entries, mmap.Covers i

/-- A free list is in the map: its pages are not the kernel's, exist, and are available memory. -/
def FreeListInMap {n : Nat} (mbi : MultibootInfo) (o : PhysPageManager n) : Prop :=
  ∀ i ∈ o.freePhysAddr.items, 2 ≤ i ∧ i < n ∧ mbi.Covers i

/-! ## Arithmetic in halves

  The source adds two 64-bit numbers in halves.  The carry is found by a comparison, and of the
  upper half of the sum it matters whether it is 0, and one bit; in whole numbers that is a
  division (`region_eq`). -/

/-- The test against `0xffffffff - x` is the carry of `x + y`. -/
theorem carry_iff (x y : BitVec 32) : y > 0xffffffff - x ↔ 0x100000000 ≤ x.toNat + y.toNat := by
  have hx := x.isLt
  have hy := y.isLt
  have hmax : (0xffffffff : BitVec 32).toNat = 0xffffffff := rfl
  rw [gt_iff_lt, BitVec.lt_def, BitVec.toNat_sub_of_le (BitVec.le_def.mpr (by rw [hmax]; omega)),
    hmax]
  omega

/-- The mask that is meant to be the high bits is the bit 22. -/
theorem mask_ne_zero_iff (x : BitVec 32) :
    ((1#32 - (1#32 <<< 10)) <<< 22) &&& x ≠ 0 ↔ x.toNat / 0x400000 % 2 = 1 := by
  have hmask : (1#32 - (1#32 <<< 10)) <<< 22 = BitVec.twoPow 32 22 := by decide
  have hbit : x.getLsbD 22 = decide (x.toNat / 0x400000 % 2 = 1) := Nat.testBit_eq_decide_div_mod_eq
  rw [hmask, BitVec.twoPow_and, hbit]
  by_cases h : x.toNat / 0x400000 % 2 = 1
  · rw [decide_eq_true h, if_pos rfl]
    exact iff_of_true (by decide) h
  · rw [decide_eq_false h, if_neg Bool.false_ne_true]
    exact iff_of_false (fun h0 => h0 rfl) h

/-- The sum of the halves, with the carry. -/
theorem toNat_end_high (mmap : MemoryMap) (hbase : mmap.base_addr_high = 0) :
    (if mmap.length_low > 0xffffffff - mmap.base_addr_low
      then mmap.base_addr_high + mmap.length_high + 1
      else mmap.base_addr_high + mmap.length_high).toNat = mmap.limit / 0x100000000 % 0x100000000 ∧
    (mmap.base_addr_low + mmap.length_low).toNat = mmap.limit % 0x100000000 := by
  have hlow := mmap.base_addr_low.isLt
  have hlen := mmap.length_low.isLt
  have hhigh := mmap.length_high.isLt
  have hzero : (0 : BitVec 32).toNat = 0 := rfl
  have hone : (1 : BitVec 32).toNat = 1 := rfl
  rw [MemoryMap.limit, MemoryMap.base, hbase, hzero]
  constructor
  · by_cases hcarry : mmap.length_low > 0xffffffff - mmap.base_addr_low
    · rw [if_pos hcarry, BitVec.toNat_add, BitVec.toNat_add, hzero, hone]
      rw [carry_iff] at hcarry
      omega
    · rw [if_neg hcarry, BitVec.toNat_add, hzero]
      rw [carry_iff] at hcarry
      omega
  · rw [BitVec.toNat_add]
    omega

/-- **The pages between two ends, in halves**: an entry below 4 GB gives the pages from that of its
    base to that of its end; one that crosses 4 GB goes on to 4092, unless bit 22 of the high half
    is set. -/
theorem region_eq (mmap : MemoryMap) : mmap.region =
    if 0x100000000 ≤ mmap.base ∨ mmap.limit / 0x100000000 % 0x100000000 / 0x400000 % 2 = 1 then none
    else some (mmap.base / (4 * 1024 * 1024),
      if mmap.limit / 0x100000000 % 0x100000000 = 0
        then mmap.limit % 0x100000000 / (4 * 1024 * 1024)
      else 4092) := by
  have hlow := mmap.base_addr_low.isLt
  have hzero : (0 : BitVec 32).toNat = 0 := rfl
  have hbase : mmap.base = mmap.base_addr_high.toNat * 0x100000000 + mmap.base_addr_low.toNat := rfl
  rw [MemoryMap.region]
  dsimp only
  by_cases hstart : mmap.base_addr_high > 0
  · have hpos : 0 < mmap.base_addr_high.toNat := hstart
    rw [if_pos hstart, if_pos (.inl (by omega))]
  have hhigh : mmap.base_addr_high = 0 := by
    apply BitVec.eq_of_toNat_eq
    have hpos : ¬ 0 < mmap.base_addr_high.toNat := hstart
    omega
  -- with a base below 4 GB the sum of the high halves cannot overflow
  have hnever : ¬ mmap.length_high > 0xffffffff - mmap.base_addr_high := by
    rw [carry_iff, hhigh, hzero]
    have hlen := mmap.length_high.isLt
    omega
  rw [if_neg hstart, if_neg hnever]
  obtain ⟨hend, hend_low⟩ := toNat_end_high mmap hhigh
  generalize (if mmap.length_low > 0xffffffff - mmap.base_addr_low
    then mmap.base_addr_high + mmap.length_high + 1
    else mmap.base_addr_high + mmap.length_high) = end_high at hend
  rw [hhigh, hzero] at hbase
  -- the shift of the mask leaves bit 22 of it only
  by_cases hmask : ((1#32 - (1#32 <<< 10)) <<< 22) &&& end_high ≠ 0
  · rw [if_pos hmask, if_pos (.inr (by rw [← hend]; exact (mask_ne_zero_iff end_high).mp hmask))]
  have hshift : (0 : BitVec 32) <<< 10 = 0#32 := by decide
  have hstart_idx : ((mmap.base_addr_low >>> 22) ||| (mmap.base_addr_high <<< 10)).toNat =
      mmap.base / (4 * 1024 * 1024) := by
    rw [hhigh, hshift, BitVec.or_zero, BitVec.toNat_ushiftRight, Nat.shiftRight_eq_div_pow]
    omega
  have hend_iff : end_high = 0 ↔ mmap.limit / 0x100000000 % 0x100000000 = 0 := by
    rw [← hend]
    exact ⟨fun h => by rw [h]; rfl, fun h => BitVec.eq_of_toNat_eq h⟩
  have hgoes : ¬ (0x100000000 ≤ mmap.base ∨
      mmap.limit / 0x100000000 % 0x100000000 / 0x400000 % 2 = 1) := by
    rintro (hbig | hbit)
    · omega
    · rw [← hend] at hbit
      exact hmask ((mask_ne_zero_iff end_high).mpr hbit)
  rw [if_neg hmask, if_neg hgoes, hstart_idx]
  by_cases hend0 : end_high = 0
  · rw [if_pos hend0, if_pos (hend_iff.mp hend0), hend0, hshift, BitVec.or_zero,
      BitVec.toNat_ushiftRight, Nat.shiftRight_eq_div_pow, hend_low]
  · rw [if_neg hend0, if_neg (mt hend_iff.mpr hend0)]
    rfl

/-- **Which pages an entry gives.** -/
theorem mem_indices_iff (mmap : MemoryMap) (i : Nat) : i ∈ mmap.indices ↔
    mmap.type = 1 ∧ 2 ≤ i ∧ mmap.base < 0x100000000 ∧ mmap.base / (4 * 1024 * 1024) ≤ i ∧
    ((mmap.limit < 0x100000000 ∧ i < mmap.limit / (4 * 1024 * 1024)) ∨
      (0x100000000 ≤ mmap.limit ∧ mmap.limit < 0x10000000000000000 ∧
        mmap.limit / 0x40000000000000 % 2 = 0 ∧ i < 4092)) := by
  have hlow := mmap.base_addr_low.isLt
  have hlen := mmap.length_low.isLt
  have hhigh := mmap.length_high.isLt
  have hlimit :
      mmap.limit = mmap.base + (mmap.length_high.toNat * 0x100000000 + mmap.length_low.toNat) := rfl
  have hmem : ∀ first last,
      i ∈ (List.range' first (last - first)).filter (fun idx => idx != 0 && idx != 1) ↔
      2 ≤ i ∧ first ≤ i ∧ i < last := by
    intro first last
    rw [List.mem_filter, List.mem_range'_1, Bool.and_eq_true, bne_iff_ne, bne_iff_ne]
    omega
  rw [MemoryMap.indices, region_eq]
  by_cases hskip : 0x100000000 ≤ mmap.base ∨
    mmap.limit / 0x100000000 % 0x100000000 / 0x400000 % 2 = 1
  · rw [if_pos hskip]
    refine iff_of_false List.not_mem_nil ?_
    omega
  rw [if_neg hskip]
  dsimp only
  by_cases htype : mmap.type = 1
  · have hbelow : mmap.limit < mmap.base + 0x10000000000000000 := by omega
    have hbit : mmap.limit / 0x40000000000000 = mmap.limit / 0x100000000 / 0x400000 :=
      (Nat.div_div_eq_div_mul mmap.limit 0x100000000 0x400000).symm
    rw [if_pos htype, hmem, and_iff_right htype]
    -- the high half of the end is that of a 64-bit number, or it has wrapped around
    rcases Nat.lt_or_ge mmap.limit 0x100000000 with hsmall | hlarge
    · have hquot : mmap.limit / 0x100000000 = 0 := Nat.div_eq_of_lt hsmall
      rw [hquot, if_pos rfl, Nat.mod_eq_of_lt hsmall]
      omega
    rcases Nat.lt_or_ge mmap.limit 0x10000000000000000 with hword | hwrap
    · have hquot : mmap.limit / 0x100000000 % 0x100000000 = mmap.limit / 0x100000000 :=
        Nat.mod_eq_of_lt (by omega)
      rw [hquot, if_neg (by omega)]
      rw [hquot] at hskip
      omega
    · have hquot : mmap.limit / 0x100000000 = 0x100000000 := by omega
      have hlast : mmap.limit % 0x100000000 / (4 * 1024 * 1024) ≤ mmap.base / (4 * 1024 * 1024) :=
        Nat.div_le_div_right (by omega)
      rw [hquot, if_pos (Nat.mod_self _)]
      omega
  · rw [if_neg htype]
    exact iff_of_false List.not_mem_nil fun h => htype h.1

/-! ## The free list

  Which pages an entry gives is an interval, so it is enough to compare its ends with those of
  the entry.  The first page counts as usable if its beginning is, in this entry or in another
  one. -/

/-- What the free list is right for, of an available entry below 4 GB: it ends below 4 GB (or is one
    the constructor passes over, because its end has bit 54 set, or wraps around 64 bits), and if it
    reaches the end of a page after the kernel's, it ends before the page `n + 1` does and does not
    start inside a page that lies in no available entry. -/
structure MemoryMap.Fits (n : Nat) (mbi : MultibootInfo) (mmap : MemoryMap) : Prop where
  below4GB : mmap.limit < 0x100000000 ∨ 0x10000000000000000 ≤ mmap.limit ∨
    mmap.limit / 0x40000000000000 % 2 = 1
  wholePages : mmap.limit < 0x100000000 → 2 < mmap.limit / (4 * 1024 * 1024) →
    mmap.base / (4 * 1024 * 1024) < mmap.limit / (4 * 1024 * 1024) →
    mmap.limit / (4 * 1024 * 1024) ≤ n ∧
    (mmap.base % (4 * 1024 * 1024) = 0 ∨ mmap.base / (4 * 1024 * 1024) < 2 ∨
      mbi.Covers (mmap.base / (4 * 1024 * 1024)))

/-- There is a memory map, and its entries fit. -/
structure MultibootInfo.Fits (n : Nat) (mbi : MultibootInfo) : Prop where
  hasMap : CHECK_FLAG mbi.flags 6 = true
  entries : ∀ mmap ∈ mbi.mmap, mmap.type = 1 → mmap.base < 0x100000000 → mmap.Fits n mbi

section FreeListPages

variable {n : Nat} {mbi : MultibootInfo} {mmap : MemoryMap} {i : Nat}

/-- A page of an entry after its first lies in the entry. -/
theorem covers_of_mem (h : i ∈ mmap.indices) (hlimit : mmap.limit < 0x100000000)
    (hfirst : mmap.base % (4 * 1024 * 1024) = 0 ∨ mmap.base / (4 * 1024 * 1024) < i) :
    mmap.Covers i := by
  obtain ⟨htype, -, -, hbase, hend⟩ := (mem_indices_iff mmap i).mp h
  refine ⟨htype, ?_, ?_⟩
  · omega
  · omega

/-- The pages of an entry that fits are pages there are, and available. -/
theorem MemoryMap.Fits.indices (h : mmap.Fits n mbi) (hmem : mmap ∈ mbi.entries)
    (hi : i ∈ mmap.indices) :
    i < n ∧ mbi.Covers i := by
  obtain ⟨htype, htwo, hbase, hfirst, hend⟩ := (mem_indices_iff mmap i).mp hi
  have hlimit : mmap.limit < 0x100000000 := by
    rcases h.below4GB with hlt | hge | hbit
    · exact hlt
    · omega
    · omega
  obtain ⟨hn, hstart⟩ := h.wholePages hlimit (by omega) (by omega)
  refine ⟨by omega, ?_⟩
  by_cases hi0 : i = mmap.base / (4 * 1024 * 1024)
  · rcases hstart with haligned | hkernel | hcovers
    · exact ⟨mmap, hmem, covers_of_mem hi hlimit (.inl haligned)⟩
    · omega
    · rw [hi0]
      exact hcovers
  · exact ⟨mmap, hmem, covers_of_mem hi hlimit (.inr (by omega))⟩

/-- An entry whose pages exist and are available fits. -/
theorem MemoryMap.fits_of_indices (hn : n ≤ 4091) (htype : mmap.type = 1)
    (hbase : mmap.base < 0x100000000) (h : ∀ i ∈ mmap.indices, i < n ∧ mbi.Covers i) :
    mmap.Fits n mbi := by
  constructor
  case below4GB =>
    by_contra hcross
    -- the entry gives index 4091
    have hlast : 4091 ∈ mmap.indices := (mem_indices_iff mmap 4091).mpr
      ⟨htype, by omega, hbase, by omega, .inr ⟨by omega, by omega, by omega, by omega⟩⟩
    have hlt := (h 4091 hlast).1
    omega
  case wholePages =>
    intro hlimit htwo hlt
    constructor
    · have hlast : mmap.limit / (4 * 1024 * 1024) - 1 ∈ mmap.indices := (mem_indices_iff mmap _).mpr
        ⟨htype, by omega, hbase, by omega, .inl ⟨hlimit, by omega⟩⟩
      have hlt := (h _ hlast).1
      omega
    · by_cases hkernel : mmap.base / (4 * 1024 * 1024) < 2
      · exact .inr (.inl hkernel)
      · have hfirst : mmap.base / (4 * 1024 * 1024) ∈ mmap.indices := (mem_indices_iff mmap _).mpr
          ⟨htype, by omega, hbase, le_refl _, .inl ⟨hlimit, hlt⟩⟩
        exact .inr (.inr (h _ hfirst).2)

/-- The pages an entry of the map gives. -/
theorem mem_available_iff (hmap : CHECK_FLAG mbi.flags 6 = true) :
    i ∈ mbi.available ↔ ∃ mmap ∈ mbi.entries, i ∈ mmap.indices := by
  rw [MultibootInfo.available, if_pos hmap, MultibootInfo.entries, if_pos hmap, List.mem_flatMap]

/-- **The map fits** exactly if every page it gives exists and is available. -/
theorem fits_iff (hn : n ≤ 4091) (hmap : CHECK_FLAG mbi.flags 6 = true) :
    mbi.Fits n ↔ ∀ i ∈ mbi.available, i < n ∧ mbi.Covers i := by
  have hentries : mbi.entries = mbi.mmap := if_pos hmap
  constructor
  · intro h i hi
    obtain ⟨mmap, hmem, hi⟩ := (mem_available_iff hmap).mp hi
    obtain ⟨htype, -, hbase, -⟩ := (mem_indices_iff mmap i).mp hi
    exact (h.entries mmap (hentries ▸ hmem) htype hbase).indices hmem hi
  · intro h
    refine ⟨hmap, fun mmap hmem htype hbase => MemoryMap.fits_of_indices hn htype hbase
      fun i hi => ?_⟩
    exact h i ((mem_available_iff hmap).mpr ⟨mmap, hentries.symm ▸ hmem, hi⟩)

theorem fits_of_freeListInMap (h3 : 3 ≤ n) (hn : n ≤ 0x400)
    (h : FreeListInMap mbi (construct mbi : PhysPageManager n)) : mbi.Fits n := by
  rw [FreeListInMap, freePhysAddr_construct] at h
  have hmap : CHECK_FLAG mbi.flags 6 = true := by
    by_contra hno
    -- without a map the last page is on the list, and nothing is available
    obtain ⟨mmap, hmem, -⟩ := (h (n - 1) (last_mem_scan h3 (by omega) hno)).2.2
    rw [MultibootInfo.entries, if_neg hno] at hmem
    cases hmem
  -- an index past the last page would be on the list
  have hrange : ∀ i ∈ mbi.available, i < n := by
    intro i hi
    by_contra hge
    obtain ⟨j, hj, hmem⟩ := overrun_pushed (by omega) mbi.available (blank n) consistent_blank
      (by simp [blank]) (fun k hk => ⟨(available_ne hk).1, available_lt hk⟩)
        ⟨i, hi, Nat.le_of_not_lt hge⟩
    rw [← scan_eq_foldl mbi hmap] at hmem
    have hlt := (h j hmem).2.1
    omega
  refine (fits_iff (by omega) hmap).mpr fun i hi => ?_
  have hmem := ((consistent_scan (by omega) hmap hrange).mem_iff i).mpr
    ((test_scan mbi i).mpr ⟨hi, hrange i hi⟩)
  exact (h i hmem).2

theorem MultibootInfo.Fits.freeListInMap (h : mbi.Fits n) (hn : n ≤ 0x400) :
    FreeListInMap mbi (construct mbi : PhysPageManager n) := by
  have hpages := (fits_iff (by omega) h.hasMap).mp h
  rw [FreeListInMap, freePhysAddr_construct]
  intro i hi
  have hscan := consistent_scan (by omega) h.hasMap fun j hj => (hpages j hj).1
  obtain ⟨hav, hlt⟩ := (test_scan mbi i).mp ((hscan.mem_iff i).mp hi)
  have hne := available_ne hav
  exact ⟨by omega, hpages i hav⟩

/-- **When the free list is right**: exactly if there is a memory map whose entries fit. -/
theorem freeListInMap_iff (h3 : 3 ≤ n) (hn : n ≤ 0x400) (mbi : MultibootInfo) :
    FreeListInMap mbi (construct mbi : PhysPageManager n) ↔ mbi.Fits n :=
  ⟨fits_of_freeListInMap h3 hn, fun h => h.freeListInMap hn⟩

end FreeListPages

/-- The memory of a machine of 128 MB: below 640 KB, from 1 MB on, and what the firmware keeps. -/
def usualReport : MultibootInfo where
  flags := 0x40
  mmap := [⟨0, 0, 0x9fc00, 0, 1⟩, ⟨0x9fc00, 0, 0x400, 0, 2⟩, ⟨0x100000, 0, 0x7ee0000, 0, 1⟩,
    ⟨0xfffc0000, 0, 0x40000, 0, 2⟩]
  mods := []

theorem usualReport_fits : usualReport.Fits numPhysPages := by
  refine ⟨by decide, fun mmap hmem _ _ => ?_⟩
  have hlimits : ∀ mmap ∈ usualReport.mmap, mmap.type = 1 → mmap.limit < 0x100000000 ∧
      mmap.limit / (4 * 1024 * 1024) ≤ numPhysPages ∧ mmap.base / (4 * 1024 * 1024) < 2 := by decide
  obtain ⟨hlimit, hend, hstart⟩ := hlimits mmap hmem ‹_›
  exact ⟨.inl hlimit, fun _ _ _ => ⟨hend, .inr (.inl hstart)⟩⟩

/-- Such a machine gets a free list of available pages. -/
theorem freeListInMap_iff_usual :
    FreeListInMap usualReport (construct usualReport : PhysPageManager numPhysPages) :=
  (freeListInMap_iff (by decide) (by decide) usualReport).mpr usualReport_fits

/-- Available memory from 9 MB to 16 MB: page 2 is on the list, though its first MB is not
    available. -/
def midPageReport : MultibootInfo where
  flags := 0x40
  mmap := [⟨0x900000, 0, 0x700000, 0, 1⟩]
  mods := []

theorem freeList_not_inMap :
    ¬ FreeListInMap midPageReport (construct midPageReport : PhysPageManager numPhysPages) := by
  intro h
  have hfits := fits_of_freeListInMap (by decide) (by decide) h
  have hentry := hfits.entries ⟨0x900000, 0, 0x700000, 0, 1⟩ List.mem_cons_self rfl (by decide)
  rcases (hentry.wholePages (by decide) (by decide) (by decide)).2 with haligned | hkernel | hcovers
  · exact absurd haligned (by decide)
  · exact absurd hkernel (by decide)
  · obtain ⟨mmap, hmem, -, hbase, -⟩ := hcovers
    rw [List.mem_singleton.mp hmem] at hbase
    exact absurd hbase (by decide)

end TedkOS.PhysPages
