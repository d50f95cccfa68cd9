/-
  Page mappings as objects (`VirtAddr`, `PhysAddr`, `MemMap` of klibs/palloc.cpp and
  inc/klibs/palloc.h).

  A `MemMap` maps 4 MB pages and keeps the mapping in both directions: `virt2phys`, which is a page
  directory the CPU can load, and `phys2virt`, from the index of a physical page back to the index
  of its virtual page.  A 0 entry means "not there".  Two pages are fixed: virtual page 0 is not
  present, and virtual page 1 is the kernel, mapped to physical page 1.

  The header asks for a ONE-TO-ONE mapping ("we do not allow multi to one, one to multi, or multi to
  multi mapping"), with one exception the code makes on purpose: other virtual pages may be mapped
  to the kernel page, and `phys2virt` does not record them.  `OneToOne` states it.

  Three operations can break it, each in one situation, and `Good` names the situations:

  * `add` of the kernel page skips the check that the virtual page is vacant;
  * `-=` of a virtual page that aliases the kernel page erases the entry of the KERNEL page in
    `phys2virt`;
  * `+=` compares virtual pages only, so a physical page mapped in both maps is mapped twice.

  Page directory entries are `BitVec 32`; the tables are functions of the index.
-/
import Mathlib.Logic.Function.Basic
import Mathlib.Data.List.Induction

namespace TedkOS.Palloc

/-! ## Page directory entries -/

def PAGING_PRESENT : BitVec 32 := 0x1
def PG_4MB_BASE : BitVec 32 := 0x081
def PG_4KB_BASE : BitVec 32 := 0x001
def PG_GLOABL : BitVec 32 := 0x100
def PG_NOT_DIRTY : BitVec 32 := 0xffffffbf
def PG_NOT_ACCESSED : BitVec 32 := 0xffffffdf
def PG_USER : BitVec 32 := 0x004
def PG_WRITABLE : BitVec 32 := 0x002
def PD_NUM_ENTRIES : Nat := 0x0400

/-- `HAS_FLAG<FLAG>(x)`. -/
def HAS_FLAG (FLAG x : BitVec 32) : Bool := x &&& FLAG == FLAG

/-- `pde & PAGING_PRESENT` as a condition. -/
def present (pde : BitVec 32) : Bool := pde &&& PAGING_PRESENT != 0

/-- A virtual address. -/
structure VirtAddr where
  addr : BitVec 32
  deriving DecidableEq

/-- The index of the 4 MB page: `addr >> 22`. -/
def VirtAddr.vidx (virt : VirtAddr) : Nat := (virt.addr >>> 22).toNat

/-- A physical page, as the page directory entry that maps it. -/
structure PhysAddr where
  pde : BitVec 32
  deriving DecidableEq

namespace PhysAddr

/-- `PhysAddr(pageIndex, flags)`: up to 16 GB of physical memory, a 12-bit index in two pieces. -/
def ofIndex (pageIndex : BitVec 16) (flags : BitVec 32) : PhysAddr :=
  ⟨PG_4MB_BASE ||| ((pageIndex &&& 0x3ff).setWidth 32 <<< 22) |||
    ((pageIndex &&& 0xc00).setWidth 32 <<< 3) ||| flags⟩

/-- `index()`. -/
def index (phys : PhysAddr) : Nat :=
  (((phys.pde &&& 0xffc00000) >>> 22) ||| ((phys.pde &&& 0x00006000) >>> 3)).toNat

/-- `operator ==`: "CPU may touch the access or dirty bit". -/
def same (phys other : PhysAddr) : Bool :=
  phys.pde &&& PG_NOT_ACCESSED &&& PG_NOT_DIRTY == other.pde &&& PG_NOT_ACCESSED &&& PG_NOT_DIRTY

end PhysAddr

/-- The entry of the kernel page: 4 MB to 8 MB, mapped to itself. -/
def kernelEntry : BitVec 32 := (PhysAddr.ofIndex 1 PG_GLOABL).pde

/-- `MemMap`. -/
structure MemMap where
  phys2virt : Nat → Nat
  virt2phys : Nat → BitVec 32

namespace MemMap

/-- `resetVPage0And1()`. -/
def resetVPage0And1 (m : MemMap) : MemMap where
  virt2phys := Function.update (Function.update m.virt2phys 0 0) 1 kernelEntry
  phys2virt := Function.update m.phys2virt 1 1

/-- `clear()`, which is also what the constructor leaves. -/
def clear : MemMap := resetVPage0And1 ⟨fun _ => 0, fun _ => 0⟩

/-- `translate(PhysAddr)`. -/
def translatePhys (m : MemMap) (phys : PhysAddr) : VirtAddr :=
  ⟨BitVec.ofNat 32 (m.phys2virt phys.index) <<< 22⟩

/-- `translate(VirtAddr)`. -/
def translate (m : MemMap) (virt : VirtAddr) : PhysAddr := ⟨m.virt2phys virt.vidx⟩

/-- `add(virt, phys)`. -/
def add (virt : VirtAddr) (phys : PhysAddr) (m : MemMap) : Bool × MemMap :=
  let vidx := virt.vidx
  -- special handling for double-mapping the kernel page
  if phys.index ≠ 1 ∧ (present (m.virt2phys vidx) = true ∨ m.phys2virt phys.index ≠ 0) then
    (false, m)
  else if vidx = 0 ∨ vidx = 1 then (false, m)
  else
    (true, {
      phys2virt := if phys.index ≠ 1 then Function.update m.phys2virt phys.index vidx
        else m.phys2virt
      virt2phys := Function.update m.virt2phys vidx phys.pde })

/-- `operator -= (VirtAddr)`. -/
def subVirt (addr : VirtAddr) (m : MemMap) : Bool × MemMap :=
  let vidx := addr.vidx
  if !present (m.virt2phys vidx) then (false, m)
  else
    let pidx := (PhysAddr.mk (m.virt2phys vidx)).index
    if vidx = 0 ∨ vidx = 1 then (false, m)
    else
      (true, {
        virt2phys := Function.update m.virt2phys vidx 0
        phys2virt := Function.update m.phys2virt pidx 0 })

/-- `operator -= (PhysAddr)`. -/
def subPhys (addr : PhysAddr) (m : MemMap) : Bool × MemMap :=
  let pidx := addr.index
  if m.phys2virt pidx = 0 then (false, m)
  else
    let vidx := m.phys2virt pidx
    if vidx = 0 ∨ vidx = 1 then (false, m)
    else
      (true, {
        virt2phys := Function.update m.virt2phys vidx 0
        phys2virt := Function.update m.phys2virt pidx 0 })

/-- `for (uint16_t i = 2; i < PD_NUM_ENTRIES; i++)`. -/
def userIndices : List Nat := List.range' 2 (PD_NUM_ENTRIES - 2)

/-- The body of the second loop of `+=`. -/
def mergeEntry (that m : MemMap) (i : Nat) : MemMap :=
  if present (that.virt2phys i) then
    let pidx := (PhysAddr.mk (that.virt2phys i)).index
    { virt2phys := Function.update m.virt2phys i (that.virt2phys i)
      phys2virt := Function.update m.phys2virt pidx (that.phys2virt pidx) }
  else m

/-- `operator +=`. -/
def addMap (m that : MemMap) : Bool × MemMap :=
  if userIndices.any fun i => present (m.virt2phys i) && present (that.virt2phys i) then (false, m)
  else (true, userIndices.foldl (mergeEntry that) m)

end MemMap

open MemMap

/-! ## Indices -/

theorem vidx_lt (virt : VirtAddr) : virt.vidx < PD_NUM_ENTRIES := by
  have := virt.addr.isLt
  rw [VirtAddr.vidx, BitVec.toNat_ushiftRight, Nat.shiftRight_eq_div_pow, PD_NUM_ENTRIES]
  omega

theorem mem_userIndices {i : Nat} : i ∈ userIndices ↔ 2 ≤ i ∧ i < PD_NUM_ENTRIES := by
  rw [userIndices, PD_NUM_ENTRIES, List.mem_range'_1]

theorem index_kernelEntry : (PhysAddr.mk kernelEntry).index = 1 := by decide

/-! ## What `+=` merges

  The loop over the virtual pages, entry by entry: a page that both maps have stops it before it
  starts (`Collide`), and otherwise each is copied. -/

section Merge

variable (that : MemMap)

/-- The merged page directory: the other map's entry where it has one. -/
theorem virt2phys_foldl_mergeEntry (v : Nat) : ∀ (l : List Nat) (m : MemMap),
    (l.foldl (mergeEntry that) m).virt2phys v =
      if v ∈ l ∧ present (that.virt2phys v) = true then that.virt2phys v else m.virt2phys v := by
  intro l
  induction l with
  | nil => intro m; simp
  | cons i l ih =>
    intro m
    rw [List.foldl_cons, ih]
    by_cases hp : present (that.virt2phys v) = true
    · by_cases hl : v ∈ l
      · rw [if_pos ⟨hl, hp⟩, if_pos ⟨List.mem_cons_of_mem i hl, hp⟩]
      · rw [if_neg fun hc => hl hc.1]
        by_cases hvi : v = i
        · subst hvi
          rw [if_pos ⟨List.mem_cons_self, hp⟩, mergeEntry, if_pos hp]
          exact Function.update_self _ _ _
        · rw [if_neg fun hc => (List.mem_cons.mp hc.1).elim hvi hl, mergeEntry]
          split
          · exact Function.update_of_ne hvi _ _
          · rfl
    · rw [if_neg fun hc => hp hc.2, if_neg fun hc => hp hc.2, mergeEntry]
      split
      · rename_i hi
        exact Function.update_of_ne (fun e => hp (by rw [e]; exact hi)) _ _
      · rfl

/-- The merged reverse table: the other map's entry for the pages it maps. -/
theorem phys2virt_foldl_mergeEntry (p : Nat) : ∀ (l : List Nat) (m : MemMap),
    (∃ i ∈ l, present (that.virt2phys i) = true ∧ (PhysAddr.mk (that.virt2phys i)).index = p) →
      (l.foldl (mergeEntry that) m).phys2virt p = that.phys2virt p := by
  intro l
  -- from the end: the last entry for `p` decides, and all of them write the same
  induction l using List.reverseRecOn with
  | nil => rintro m ⟨i, hi, _⟩; exact absurd hi List.not_mem_nil
  | append_singleton l j ih =>
    rintro m ⟨i, hi, hp, hidx⟩
    rw [List.foldl_append, List.foldl_cons, List.foldl_nil, mergeEntry]
    have hrec : i ∈ l → (l.foldl (mergeEntry that) m).phys2virt p = that.phys2virt p :=
      fun hl => ih m ⟨i, hl, hp, hidx⟩
    split
    · show Function.update _ _ _ p = _
      by_cases hpj : p = (PhysAddr.mk (that.virt2phys j)).index
      · rw [hpj, Function.update_self]
      · rw [Function.update_of_ne hpj]
        refine hrec ?_
        rcases List.mem_append.mp hi with hl | hj
        · exact hl
        · cases List.mem_singleton.mp hj
          exact absurd hidx.symm hpj
    · rename_i hj
      rcases List.mem_append.mp hi with hl | hij
      · exact hrec hl
      · cases List.mem_singleton.mp hij
        exact absurd hp hj

theorem phys2virt_foldl_mergeEntry_ne (p : Nat) : ∀ (l : List Nat) (m : MemMap),
    (∀ i ∈ l, present (that.virt2phys i) = true → (PhysAddr.mk (that.virt2phys i)).index ≠ p) →
      (l.foldl (mergeEntry that) m).phys2virt p = m.phys2virt p := by
  intro l
  induction l with
  | nil => intro m _; rfl
  | cons i l ih =>
    intro m h
    rw [List.foldl_cons, ih _ fun j hj => h j (List.mem_cons_of_mem i hj), mergeEntry]
    split
    · rename_i hi
      exact Function.update_of_ne (fun e => h i List.mem_cons_self hi e.symm) _ _
    · rfl

end Merge

/-- Two maps that have an entry for the same page above the kernel. -/
def Collide (m that : MemMap) : Prop :=
  ∃ v, 2 ≤ v ∧ v < PD_NUM_ENTRIES ∧ present (m.virt2phys v) = true ∧
    present (that.virt2phys v) = true

theorem addMap_of_collide {m that : MemMap} (h : Collide m that) : m.addMap that = (false, m) := by
  obtain ⟨v, h2, hv, hm, ht⟩ := h
  rw [addMap, if_pos]
  exact List.any_eq_true.mpr ⟨v, mem_userIndices.mpr ⟨h2, hv⟩, by rw [hm, ht]; rfl⟩

theorem addMap_of_not_collide {m that : MemMap} (h : ¬ Collide m that) :
    m.addMap that = (true, userIndices.foldl (mergeEntry that) m) := by
  rw [addMap, if_neg]
  intro hc
  obtain ⟨v, hv, hb⟩ := List.any_eq_true.mp hc
  obtain ⟨h2, hlt⟩ := mem_userIndices.mp hv
  obtain ⟨hm, ht⟩ := Bool.and_eq_true_iff.mp hb
  exact h ⟨v, h2, hlt, hm, ht⟩

end TedkOS.Palloc
