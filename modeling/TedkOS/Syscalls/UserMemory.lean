/-
  User memory: which bytes a user process may touch, and the check the kernel makes
  (`validUserPointer` of syscalls/syscalls.cpp).

  The page directory in use (`global_cr3val`) maps 4 MB of addresses per entry, either as one page
  or through a table of 4 KB pages.  A byte belongs to the user when every entry on the way to it is
  present and carries the user bit (`userAccessible`).

  The check is the same thing for ONE address, with NULL excluded (`validUserPointer_iff`).  Whether
  a whole range is the user's depends on its first byte and on the pages that BEGIN inside it
  (`range_iff`): a byte has the same answer as the start of its 4 KB page.
-/
import TedkOS.Palloc.MemMap

namespace TedkOS.Syscalls

open Palloc

def PT_BASE : BitVec 32 := 0x001
def PT_USER : BitVec 32 := 0x004
def ALIGN_4KB_ADDR : BitVec 32 := 0xfffff000
def EXTRACT_PTE : BitVec 32 := ~~~0xffc00000 &&& ALIGN_4KB_ADDR

/-- The bit of `PG_4MB_BASE` that tells a 4 MB page from a page table. -/
def PG_SIZE : BitVec 32 := 0x080

/-- The page directory in use, and the page tables in memory, by address and index. -/
structure AddressSpace where
  global_cr3val : Nat → BitVec 32
  pageTable : BitVec 32 → Nat → BitVec 32

namespace AddressSpace

variable (m : AddressSpace)

/-- `global_cr3val[ptr >> 22]`. -/
def pde (ptr : BitVec 32) : BitVec 32 := m.global_cr3val (ptr >>> 22).toNat

/-- `((uint32_t*) (pde & ALIGN_4KB_ADDR))[(ptr & EXTRACT_PTE) >> 12]`. -/
def pte (ptr : BitVec 32) : BitVec 32 :=
  m.pageTable (m.pde ptr &&& ALIGN_4KB_ADDR) ((ptr &&& EXTRACT_PTE) >>> 12).toNat

/-- What the processor asks of an access in user mode. -/
def userAccessible (ptr : BitVec 32) : Bool :=
  HAS_FLAG PAGING_PRESENT (m.pde ptr) && HAS_FLAG PG_USER (m.pde ptr) &&
    (HAS_FLAG PG_SIZE (m.pde ptr) ||
      (HAS_FLAG PAGING_PRESENT (m.pte ptr) && HAS_FLAG PG_USER (m.pte ptr)))

end AddressSpace

/-- `validUserPointer(ptr)`, for a thread of the kernel or of a user process. -/
def validUserPointer (isKernel : Bool) (m : AddressSpace) (ptr : BitVec 32) : Bool :=
  if ptr = 0 then false
  else if isKernel then true
  else
    if HAS_FLAG (PG_4MB_BASE ||| PG_USER) (m.pde ptr) then true
    else if HAS_FLAG (PT_BASE ||| PT_USER) (m.pde ptr) then
      HAS_FLAG (PG_4KB_BASE ||| PG_USER) (m.pte ptr)
    else false

/-! ## One byte

  The two entries are looked at bit by bit, as the source does. -/

/-- Two sets of flags at once. -/
theorem hasFlag_or (f g x : BitVec 32) : HAS_FLAG (f ||| g) x = (HAS_FLAG f x && HAS_FLAG g x) := by
  have habs : ∀ a b c : BitVec 32, c &&& (a ||| b) = a ||| b → c &&& a = a := by
    intro a b c h
    have ha : (a ||| b) &&& a = a := by
      ext i hi
      simp only [BitVec.getElem_and, BitVec.getElem_or]
      cases a[i] <;> simp
    rw [← ha, ← BitVec.and_assoc, h]
  unfold HAS_FLAG
  rw [Bool.eq_iff_iff, Bool.and_eq_true, beq_iff_eq, beq_iff_eq, beq_iff_eq]
  constructor
  · intro h
    refine ⟨habs f g x h, habs g f x ?_⟩
    rw [BitVec.or_comm g f]; exact h
  · rintro ⟨hf, hg⟩
    have hdist : x &&& (f ||| g) = (x &&& f) ||| (x &&& g) := by
      ext i hi
      simp only [BitVec.getElem_and, BitVec.getElem_or]
      cases x[i] <;> simp
    rw [hdist, hf, hg]

/-- **The check answers for its one address**: not NULL, and accessible to the user. -/
theorem validUserPointer_iff (m : AddressSpace) (ptr : BitVec 32) :
    validUserPointer false m ptr = true ↔ ptr ≠ 0 ∧ m.userAccessible ptr = true := by
  have h4mb : PG_4MB_BASE = PAGING_PRESENT ||| PG_SIZE := by decide
  have hpt : PT_BASE = PAGING_PRESENT := rfl
  have hptu : PT_USER = PG_USER := rfl
  have h4kb : PG_4KB_BASE = PAGING_PRESENT := rfl
  unfold validUserPointer AddressSpace.userAccessible
  by_cases h0 : ptr = 0
  · simp [h0]
  · rw [if_neg h0, h4mb, hpt, hptu, h4kb]
    simp only [hasFlag_or, ne_eq, h0, not_false_eq_true, true_and]
    cases HAS_FLAG PAGING_PRESENT (m.pde ptr) <;> cases HAS_FLAG PG_USER (m.pde ptr) <;>
      cases HAS_FLAG PG_SIZE (m.pde ptr) <;> simp

/-! ## A range of bytes

  The answer is the same for a whole page of 4 KB, so a range is covered by its first byte and
  the pages that begin in it. -/

section Range

variable (m : AddressSpace)

/-- All bytes of a 4 KB page have the same answer. -/
theorem userAccessible_page {a b : BitVec 32} (h : a.toNat / 4096 = b.toNat / 4096) :
    m.userAccessible a = m.userAccessible b := by
  have h12 : a >>> 12 = b >>> 12 := by
    apply BitVec.eq_of_toNat_eq
    rw [BitVec.toNat_ushiftRight, BitVec.toNat_ushiftRight, Nat.shiftRight_eq_div_pow,
      Nat.shiftRight_eq_div_pow]
    omega
  have h22 : a >>> 22 = b >>> 22 := by
    have hsplit : ∀ x : BitVec 32, x >>> 22 = x >>> 12 >>> 10 := fun x =>
      BitVec.shiftRight_add x 12 10
    rw [hsplit a, hsplit b, h12]
  have hpte : (a &&& EXTRACT_PTE) >>> 12 = (b &&& EXTRACT_PTE) >>> 12 := by
    rw [BitVec.ushiftRight_and_distrib, BitVec.ushiftRight_and_distrib, h12]
  have e1 : m.pde a = m.pde b := by unfold AddressSpace.pde; rw [h22]
  have e2 : m.pte a = m.pte b := by unfold AddressSpace.pte; rw [e1, hpte]
  unfold AddressSpace.userAccessible
  rw [e1, e2]

/-- Every page that begins strictly inside `[buf, buf + n)` is accessible to the user. -/
def PageStartsAccessible (buf : BitVec 32) (n : Nat) : Prop :=
  ∀ i, 0 < i → i < n → (buf.toNat + i) % 4096 = 0 →
    m.userAccessible (buf + BitVec.ofNat 32 i) = true

/-- **A range belongs to the user when its first byte and the pages that begin inside it do.** -/
theorem range_iff {buf : BitVec 32} (hbuf : m.userAccessible buf = true) (n : Nat) :
    (∀ i, i < n → m.userAccessible (buf + BitVec.ofNat 32 i) = true) ↔
      PageStartsAccessible m buf n := by
  constructor
  · intro h i _ hi _
    exact h i hi
  · intro h i hi
    have hlt := buf.isLt
    -- the start of the page that holds the byte, or the start of the range before it
    by_cases hpage : (buf.toNat + i) % 4096 < i
    · have hj := h (i - (buf.toNat + i) % 4096) (by omega) (by omega) (by omega)
      rw [← hj]
      apply userAccessible_page
      rw [BitVec.toNat_add, BitVec.toNat_add, BitVec.toNat_ofNat, BitVec.toNat_ofNat]
      omega
    · rw [← hbuf]
      apply userAccessible_page
      rw [BitVec.toNat_add, BitVec.toNat_ofNat]
      omega

end Range

end TedkOS.Syscalls
