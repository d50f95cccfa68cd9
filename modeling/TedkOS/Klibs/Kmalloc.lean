/-
  The kernel heap (klibs/kmalloc.cpp, inc/klibs/kmalloc.h): `new` and `delete` of the kernel.

  Memory comes in 4 MB POOLS.  A pool serves blocks of one element size, and its bookkeeping object
  (`ObjectPool`) lives at the start of the pool's own page: a bitmap `freeMap` and a stack
  `freeStack` of free block addresses.  Each of the five element sizes has a slot, a stack of
  pointers to its pools.  An allocation takes a block from the first pool of its slot that has one;
  when there is none it re-dedicates an EMPTY pool of some slot (`findAndReleaseFreePool`), and only
  then asks for a new page.

  Addresses are the numbers a `void *` holds (`Nat`).  The heap maps the address of a page to the
  object built there last: a slot stores pointers, the objects live in memory, and rebuilding a page
  as a pool of another element size overwrites the old object.

  Two spots of the source look like slips and are kept as written:
  * `release` CLEARS the map bit of the block it takes back, where the constructor marks free
    blocks by SETTING it;
  * the path that re-dedicates a pool counts it down (`totalNumPools--`) but not up again.
-/
import TedkOS.Klibs.BitSet
import TedkOS.Klibs.Stack

namespace TedkOS.KMemory

/-- The element sizes a pool can be instantiated at. -/
inductive SizeClass
  | b16 | b256 | k8 | k256 | m1
  deriving DecidableEq, Repr

namespace SizeClass

/-- `ElementSize`, in bytes. -/
def ElementSize : SizeClass → Nat
  | b16 => 16
  | b256 => 256
  | k8 => 8 * 1024
  | k256 => 256 * 1024
  | m1 => 1024 * 1024

/-- `PageSizeOf<ElementSize>`: 4 MB for every element size. -/
def PageSizeOf (_ : SizeClass) : Nat := 4 * 1024 * 1024

/-- `MaxNumElements = PoolSize / ElementSize`. -/
def MaxNumElements (c : SizeClass) : Nat := c.PageSizeOf / c.ElementSize

/-- `sizeof(ObjectPool)`: `uint32_t array[n]`, `void *arr[n]` and `idx`, `numValidElements`. -/
def sizeofObjectPool (c : SizeClass) : Nat :=
  4 * c.MaxNumElements + (4 * c.MaxNumElements + 4) + 4

/-- `align<N, x> = ~(N - 1) & (x - 1 + N)` of inc/klibs/memory.h. -/
def align (N x : BitVec 32) : BitVec 32 := ~~~(N - 1) &&& (x - 1 + N)

/-- `ourNumElements`: how many leading elements the pool object itself takes up. -/
def ourNumElements (c : SizeClass) : Nat :=
  (align (BitVec.ofNat 32 c.ElementSize) (BitVec.ofNat 32 c.sizeofObjectPool)).toNat / c.ElementSize

end SizeClass

open SizeClass

/-- `ObjectPool<ElementSize, PageSizeOf<ElementSize>>`. -/
structure ObjectPool (c : SizeClass) where
  freeMap : BitSet c.MaxNumElements
  freeStack : Stack Nat c.MaxNumElements
  numValidElements : Nat

namespace ObjectPool

variable {c : SizeClass}

/-- `toMapIndex(addr)`, of the pool at address `this`. -/
def toMapIndex (c : SizeClass) (this addr : Nat) : Nat :=
  if addr < this then c.MaxNumElements + 1 else (addr - this) / c.ElementSize

/-- `get()`. -/
def get (this : Nat) (o : ObjectPool c) : Option Nat × ObjectPool c :=
  if o.freeStack.empty then (none, o)
  else
    let (addr, freeStack) := o.freeStack.pop
    (some addr, { o with freeStack, freeMap := o.freeMap.clear (toMapIndex c this addr) })

/-- `empty()`: no block of the pool is handed out. -/
def empty (o : ObjectPool c) : Bool := o.freeStack.size == o.numValidElements

/-- `release(addr)`. -/
def release (this addr : Nat) (o : ObjectPool c) : Bool × ObjectPool c :=
  let idx := toMapIndex c this addr
  if idx ≥ c.MaxNumElements then (false, o)
  else if !o.freeMap.test idx then
    -- `clear`, not `set`: the bit stays down after the block is free again
    (true, { o with freeMap := o.freeMap.clear idx, freeStack := o.freeStack.push addr })
  else (false, o)

/-- The constructor's second loop, for one element. -/
def addElement (this : Nat) (o : ObjectPool c) (i : Nat) : ObjectPool c :=
  { o with
    freeMap := o.freeMap.set i
    freeStack := o.freeStack.push (this + c.ElementSize * i) }

/-- `ObjectPool()`, built at address `this`: the leading elements are the object itself. -/
def build (c : SizeClass) (this : Nat) : ObjectPool c :=
  let blank : ObjectPool c := ⟨BitSet.new _, Stack.new _ _, 0⟩
  let marked := (List.range c.ourNumElements).foldl
    (fun o i => { o with freeMap := o.freeMap.clear i }) blank
  let filled := (List.range' c.ourNumElements (c.MaxNumElements - c.ourNumElements)).foldl
    (addElement this) marked
  { filled with numValidElements := c.MaxNumElements - c.ourNumElements }

end ObjectPool

def MaxPoolNumInSingleSlot : Nat := 30
def MaxPoolNumInAllSlots : BitVec 32 := 30

/-- The allocator's globals and the pool objects in memory. -/
structure KMem where
  /-- The object last built at an address. -/
  heap : Nat → Option (Sigma ObjectPool)
  /-- `pools16`, `pools256`, `pools8K`, `pools256K`, `pools1M`. -/
  slots : SizeClass → Stack Nat MaxPoolNumInSingleSlot
  totalNumPools : BitVec 32

namespace KMem

/-- Before any call: the slots are empty. -/
def init : KMem := ⟨fun _ => none, fun _ => Stack.new _ _, 0⟩

/-- `*pool` for a pointer of type `PoolType<ElementSize> *`.  (Reading a page at an element size it
    was not built for gives an unspecified object; `Inv.pools` rules it out.) -/
def pool (m : KMem) (c : SizeClass) (p : Nat) : ObjectPool c :=
  match m.heap p with
  | some ⟨d, o⟩ => if h : d = c then h ▸ o else ⟨BitSet.new _, Stack.new _ _, 0⟩
  | none => ⟨BitSet.new _, Stack.new _ _, 0⟩

/-- `*pool = o`. -/
def setPool (m : KMem) (c : SizeClass) (p : Nat) (o : ObjectPool c) : KMem :=
  { m with heap := Function.update m.heap p (some ⟨c, o⟩) }

def setSlot (m : KMem) (c : SizeClass) (s : Stack Nat MaxPoolNumInSingleSlot) : KMem :=
  { m with slots := Function.update m.slots c s }

end KMem

/-- What the page allocators answer during one call of `paraAllocate`. -/
structure PageSupply where
  /-- `physPages.allocPage(true)`. -/
  physAddr : Option Nat
  /-- `virtLast1G.allocPage(true)`. -/
  virtAddr : Option Nat
  /-- `cpu0_memmap.addCommonPage(VirtAddr(+virtAddr), PhysAddr(+physAddr, PG_WRITABLE))`. -/
  mapped : Bool

/-- `paraFindAndReleaseFreePool<ElementSize>()`: drop the first empty pool of the slot. -/
def paraFindAndReleaseFreePool (c : SizeClass) (m : KMem) : Option (Nat × KMem) :=
  match (m.slots c).firstIdx fun p => (m.pool c p).empty with
  | some idx =>
    (m.slots c).items[idx]?.map fun x =>
      (x, { m.setSlot c ((m.slots c).drop idx) with totalNumPools := m.totalNumPools - 1 })
  | none => none

/-- `findAndReleaseFreePool()`: the slots are tried in this order; the 1 MB slot is not. -/
def findAndReleaseFreePool (m : KMem) : Option (Nat × KMem) :=
  (paraFindAndReleaseFreePool .b16 m).or <|
    (paraFindAndReleaseFreePool .b256 m).or <|
      (paraFindAndReleaseFreePool .k8 m).or <|
        paraFindAndReleaseFreePool .k256 m

/-- The closure `pool->get()` of `paraAllocate`, on the memory the pools live in. -/
def getFrom (c : SizeClass) (p : Nat) (m : KMem) : Option Nat × KMem :=
  match (m.pool c p).get p with
  | (some a, o) => (some a, m.setPool c p o)
  | (none, _) => (none, m)

/-- `auto newPool = new (page) PoolType<ElementSize>(); slot->push(newPool);` -/
def installPool (c : SizeClass) (page : Nat) (m : KMem) : KMem :=
  (m.setPool c page (ObjectPool.build c page)).setSlot c ((m.slots c).push page)

/-- `paraAllocate<ElementSize>()`. -/
def paraAllocate (c : SizeClass) (src : PageSupply) (m : KMem) : Option Nat × KMem :=
  match (m.slots c).first (getFrom c) m with
  | (some (_, addr), m') => (some addr, m')
  | (none, _) =>
    if (m.slots c).full then (none, m)
    else
      match findAndReleaseFreePool m with
      | some (page, m') => getFrom c page (installPool c page m')
      | none =>
        if m.totalNumPools = MaxPoolNumInAllSlots then (none, m)
        else
          match src.physAddr, src.virtAddr, src.mapped with
          | some _, some page, true =>
            getFrom c page { installPool c page m with totalNumPools := m.totalNumPools + 1 }
          | _, _, _ => (none, m)

/-- The closure `pool->release(addr)` of `paraFree`. -/
def releaseTo (c : SizeClass) (addr p : Nat) (m : KMem) : Option Unit × KMem :=
  match (m.pool c p).release p addr with
  | (true, o) => (some (), m.setPool c p o)
  | (false, _) => (none, m)

/-- `paraFree<ElementSize>(addr)`.  (What follows a successful `firstTrue` in the source is
    commented out.) -/
def paraFree (c : SizeClass) (addr : Nat) (m : KMem) : Bool × KMem :=
  match (m.slots c).first (releaseTo c addr) m with
  | (some _, m') => (true, m')
  | (none, m') => (false, m')

/-- The `if` chain on `size` that `allocImpl` and the sized `freeImpl` share. -/
def sizeClass (size : Nat) : Option SizeClass :=
  if size ≤ 16 then some .b16
  else if size ≤ 256 then some .b256
  else if size ≤ 8 * 1024 then some .k8
  else if size ≤ 256 * 1024 then some .k256
  else if size ≤ 1024 * 1024 then some .m1
  else none

/-- `allocImpl(size)`. -/
def allocImpl (size : Nat) (src : PageSupply) (m : KMem) : Option Nat × KMem :=
  match sizeClass size with
  | some c => paraAllocate c src m
  | none => (none, m)

/-- `freeImpl(addr)`: the slots are tried in turn; `false` is `trigger_exception<25>()`. -/
def freeImpl (addr : Nat) (m : KMem) : Bool × KMem :=
  let rec tryAll : List SizeClass → KMem → Bool × KMem
    | [], m => (false, m)
    | c :: rest, m =>
      match paraFree c addr m with
      | (true, m') => (true, m')
      | (false, m') => tryAll rest m'
  tryAll [.b16, .b256, .k8, .k256, .m1] m

/-- `freeImpl(addr, size)`. -/
def freeImplSized (addr : Nat) (size : Nat) (m : KMem) : Bool × KMem :=
  match sizeClass size with
  | some c => paraFree c addr m
  | none => (false, m)

/-! ## Memory accesses -/

namespace KMem

variable (m : KMem) {c d : SizeClass} {p q : Nat}

@[simp] theorem pool_setPool (o : ObjectPool c) : (m.setPool c p o).pool c p = o := by
  simp [pool, setPool]

theorem pool_setPool_ne (o : ObjectPool c) (h : q ≠ p) :
    (m.setPool c p o).pool d q = m.pool d q := by
  simp [pool, setPool, Function.update_of_ne h]

@[simp] theorem slots_setPool (o : ObjectPool c) : (m.setPool c p o).slots = m.slots := rfl

@[simp] theorem totalNumPools_setPool (o : ObjectPool c) :
    (m.setPool c p o).totalNumPools = m.totalNumPools := rfl

@[simp] theorem pool_setSlot (s : Stack Nat MaxPoolNumInSingleSlot) :
    (m.setSlot c s).pool d q = m.pool d q := rfl

@[simp] theorem slots_setSlot (s : Stack Nat MaxPoolNumInSingleSlot) :
    (m.setSlot c s).slots c = s := by
  simp [setSlot]

theorem slots_setSlot_ne (s : Stack Nat MaxPoolNumInSingleSlot) (h : d ≠ c) :
    (m.setSlot c s).slots d = m.slots d := by
  simp [setSlot, Function.update_of_ne h]

end KMem

/-! ## The sizes of a pool -/

theorem ElementSize_pos (c : SizeClass) : 0 < c.ElementSize := by cases c <;> decide

theorem ElementSize_dvd_page (c : SizeClass) : c.ElementSize * c.MaxNumElements = c.PageSizeOf := by
  cases c <;> decide

/-- A pool object never fills its page: at least one element is left to hand out. -/
theorem ourNumElements_lt (c : SizeClass) : c.ourNumElements < c.MaxNumElements := by
  cases c <;> decide

/-- **The header lies below the first element.** -/
theorem sizeofObjectPool_le (c : SizeClass) :
    c.sizeofObjectPool ≤ c.ElementSize * c.ourNumElements := by
  cases c <;> decide

/-- The request fits the element size of its class. -/
theorem le_ElementSize {size : Nat} {c : SizeClass} (h : sizeClass size = some c) :
    size ≤ c.ElementSize := by
  unfold sizeClass at h
  split at h
  · cases h; assumption
  split at h
  · cases h; assumption
  split at h
  · cases h; assumption
  split at h
  · cases h; assumption
  split at h
  · cases h; assumption
  · cases h

/-- Exactly the requests up to 1 MB have a class. -/
theorem sizeClass_isSome (size : Nat) : (sizeClass size).isSome ↔ size ≤ 1024 * 1024 := by
  unfold sizeClass
  repeat' split
  all_goals simp
  all_goals omega

end TedkOS.KMemory
