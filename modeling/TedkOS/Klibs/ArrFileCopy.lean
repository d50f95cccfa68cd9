/-
  Copies of a file of arrays (klibs/arrFile.cpp): the copy constructor and `operator =`.

  Both call `copy`, which allocates as many elements as the object it fills says it has, copies as
  many, and never takes the length over.  `operator =` has given the two arrays back by then, which
  is too early where an object is assigned to itself.

  1. **Program** — objects, their arrays and the heap; a read of what is no element of an array in
     use stops it.

  2. **Purpose** — `CopiesRight`: the copy has the length and the arrays of the original.

  3. **Crux** — `copy_eq`: with room, and elements enough to read, `copy` leaves two copied arrays.

  4. **Correctness** — `arrFileCopies_iff`: the length is right already; and where an object is
     assigned to itself, the block that comes back for the pointers holds them.

  5. **Invariant** — `Good`: `getInstance`, the copy constructor and `operator =` leave each object
     with two arrays of its own, of the length it says.
-/
import TedkOS.Klibs.ArrFile
import TedkOS.Klibs.KmallocRuns
import TedkOS.Lib.WordCopy

namespace TedkOS.Klibs.ArrFileCopy

open Checked KMemory

/-! ## The program -/

/-- An object in memory. -/
structure Obj where
  /-- How many arrays there are, -/
  _length : BitVec 32
  /-- and that of the pointers to them. -/
  _subArrLength : Nat
  _subArr : Nat

/-- The heap, the words its blocks hold by address, and the objects by address. -/
structure World where
  heap : HeapState
  words : Nat → BitVec 32
  objs : Nat → Obj

namespace World

/-- An object in memory becomes `o`. -/
def setObj (this : Nat) (o : Obj) (w : World) : World :=
  { w with objs := Function.update w.objs this o }

/-- The array at `addr` is a block in use, and has an element `i`. -/
def hasElement (w : World) (addr i : Nat) : Bool :=
  w.heap.live.any fun b => b.addr == addr && decide (4 * i + 4 ≤ b.size)

/-- Reads an element of an array in use. -/
def load (addr i : Nat) (w : World) : Except Stop (BitVec 32) :=
  if w.hasElement addr i then .ok (w.words (addr + 4 * i))
    else .error (.badIndex (BitVec.ofNat 32 i))

/-- Writes one. -/
def store (addr i : Nat) (v : BitVec 32) (w : World) : Except Stop World :=
  if w.hasElement addr i then .ok { w with words := Function.update w.words (addr + 4 * i) v }
  else .error (.badIndex (BitVec.ofNat 32 i))

/-- `new uint32_t[n]` and `new void*[n]`. -/
def newArray (n : BitVec 32) (src : PageSupply) (w : World) : Except Stop (Nat × World) := do
  let (addr, mem) ← operatorNew (ArrFile.arraySize n) src w.heap.mem
  return (addr, { w with heap := ⟨mem, ⟨addr, ArrFile.arraySize n⟩ :: w.heap.live⟩ })

/-- `delete [] addr`. -/
def deleteArray (addr : Nat) (w : World) : Except Stop World := do
  let mem ← operatorDelete addr w.heap.mem
  return { w with heap := ⟨mem, without w.heap.live addr⟩ }

/-- `memcpy` of the first elements of an array, lowest first. -/
def copyElements (dst src : Nat) : Nat → World → Except Stop World
  | 0, w => .ok w
  | n + 1, w => do
    let w ← copyElements dst src n w
    let v ← load src n w
    store dst n v w

/-- How many elements the `sizeof(size_t) * _length` bytes are that are copied. -/
def copyCount (_length : BitVec 32) : Nat := (4 * _length).toNat / 4

/-- `copy(rhs)`; `src` is what the page allocators answer to the two `new`s. -/
def copy (this rhs : Nat) (src : Nat → PageSupply) (w : World) : Except Stop World := do
  let (addr, w) ← newArray (w.objs this)._length (src 0) w
  let w := w.setObj this { w.objs this with _subArrLength := addr }
  let (addr, w) ← newArray (w.objs this)._length (src 1) w
  let w := w.setObj this { w.objs this with _subArr := addr }
  let w ← copyElements (w.objs this)._subArrLength (w.objs rhs)._subArrLength
    (copyCount (w.objs this)._length) w
  copyElements (w.objs this)._subArr (w.objs rhs)._subArr (copyCount (w.objs this)._length) w

def freeAll (this : Nat) (w : World) : Except Stop World := do
  let w ← deleteArray (w.objs this)._subArrLength w
  deleteArray (w.objs this)._subArr w

/-- `ArrFile(rhs)`, into memory that holds anything. -/
def copyConstruct (this rhs : Nat) (src : Nat → PageSupply) (w : World) : Except Stop World :=
  copy this rhs src w

/-- `operator =`. -/
def assign (this rhs : Nat) (src : Nat → PageSupply) (w : World) : Except Stop World := do
  let w ← freeAll this w
  copy this rhs src w

def length (this : Nat) (w : World) : BitVec 32 := (w.objs this)._length

/-- `operator[]`. -/
def index (this : Nat) (idx : BitVec 32) (w : World) : Except Stop (BitVec 32) :=
  if (w.objs this)._length - 1 < idx then .ok 0 else load (w.objs this)._subArr idx.toNat w

/-! ## Objects that are whole

  What a constructor that has returned leaves: two arrays in use, of the length that is stored.
  Of two objects no array is the same one (`Good`), or giving one back would take it from the
  other. -/

/-- The arrays of an object are in use, and as long as it says. -/
structure Whole (w : World) (x : Nat) : Prop where
  /-- The block of the lengths, -/
  lengths : ⟨(w.objs x)._subArrLength, ArrFile.arraySize (w.objs x)._length⟩ ∈ w.heap.live
  /-- and that of the pointers. -/
  subArrs : ⟨(w.objs x)._subArr, ArrFile.arraySize (w.objs x)._length⟩ ∈ w.heap.live

/-- Where the arrays of an object are. -/
def arrays (w : World) (x : Nat) : List Nat := [(w.objs x)._subArrLength, (w.objs x)._subArr]

/-- The heap is in order, and each object has two arrays of its own. -/
structure Good (w : World) (objects : List Nat) : Prop where
  /-- The heap is in order; -/
  heap : Inv w.heap.mem w.heap.live
  /-- every object has its two arrays, -/
  whole : ∀ x ∈ objects, w.Whole x
  /-- in two blocks, -/
  own : ∀ x ∈ objects, (w.objs x)._subArrLength ≠ (w.objs x)._subArr
  /-- that no other object has. -/
  apart : ∀ x ∈ objects, ∀ t ∈ objects, t ≠ x → ∀ addr ∈ w.arrays x, addr ∉ w.arrays t

/-! ## The purpose -/

/-- `o` gives now what `x` gave before. -/
structure SameAs (w' : World) (o : Nat) (w : World) (x : Nat) : Prop where
  /-- It has as many arrays, -/
  length : w'.length o = w.length x
  /-- and the same ones. -/
  index : ∀ idx, w'.index o idx = w.index x idx

/-- The call returns, has read what is in use only, and has made `o` the same as `x` was. -/
def Right (call : World → Except Stop World) (o : Nat) (w : World) (x : Nat) : Prop :=
  ∃ w', call w = .ok w' ∧ w'.SameAs o w x

/-- The copy of `x` that is built at `this`, and `t` after `t = x`, are the same as `x`. -/
structure CopiesRight (w : World) (x t this : Nat) (src src' : Nat → PageSupply) : Prop where
  /-- The copy constructor, -/
  construct : Right (copyConstruct this x src) this w x
  /-- and `operator =`. -/
  assign : Right (assign t x src') t w x

end World

/-- The heap has room for two arrays of `n`. -/
def HasRoom (n : BitVec 32) (src : Nat → PageSupply) (m : KMem) : Prop :=
  ∃ a m₁ b m₂, allocImpl (ArrFile.arraySize n) (src 0) m = (some a, m₁) ∧
    allocImpl (ArrFile.arraySize n) (src 1) m₁ = (some b, m₂)

/-- The pages that may come with these requests, one after the other, are in use by nobody. -/
def PagesFresh : List (Nat × PageSupply) → KMem → Prop
  | [], _ => True
  | (size, src) :: rest, m =>
    SupplyFresh m src ∧ ∀ a m', allocImpl size src m = (some a, m') → PagesFresh rest m'

/-- The requests for two arrays of `n`. -/
def arrayRequests (n : BitVec 32) (src : Nat → PageSupply) : List (Nat × PageSupply) :=
  [(ArrFile.arraySize n, src 0), (ArrFile.arraySize n, src 1)]

/-- The second of two blocks that come back from the heap once it has taken the arrays of `o`. -/
def reissued (o : Obj) (src : Nat → PageSupply) (m : KMem) : Option Nat :=
  let m := (freeImpl o._subArrLength m).2
  let m := (freeImpl o._subArr m).2
  let m := (allocImpl (ArrFile.arraySize o._length) (src 0) m).2
  (allocImpl (ArrFile.arraySize o._length) (src 1) m).1

/-! ## Elements

  A loop over elements stops at the first that is not there.  With all of them there it copies
  them all, and the rest of memory stays (`copyElements_eq`). -/

namespace World

section Elements

variable {w w' : World} {addr i n : Nat} {len : BitVec 32}

/-- An array of `len` has `len` elements. -/
theorem hasElement_eq (hinv : Inv w.heap.mem w.heap.live)
    (hlive : ⟨addr, ArrFile.arraySize len⟩ ∈ w.heap.live) :
    w.hasElement addr i = decide (i < len.toNat) := by
  rw [Bool.eq_iff_iff, decide_eq_true_iff]
  unfold hasElement
  rw [List.any_eq_true]
  constructor
  · rintro ⟨b, hb, hele⟩
    rw [Bool.and_eq_true, beq_iff_eq, decide_eq_true_iff] at hele
    obtain rfl : b = ⟨addr, ArrFile.arraySize len⟩ :=
      List.inj_on_of_nodup_map hinv.liveNodup hb hlive hele.1
    have hsize : 4 * i + 4 ≤ 4 * len.toNat := hele.2
    omega
  · intro hi
    refine ⟨_, hlive, ?_⟩
    rw [Bool.and_eq_true, beq_iff_eq, decide_eq_true_iff]
    refine ⟨rfl, ?_⟩
    show 4 * i + 4 ≤ 4 * len.toNat
    omega

/-- A read of an array of `len`. -/
theorem load_eq (hinv : Inv w.heap.mem w.heap.live)
    (hlive : ⟨addr, ArrFile.arraySize len⟩ ∈ w.heap.live) :
    load addr i w = if i < len.toNat then .ok (w.words (addr + 4 * i))
      else .error (.badIndex (BitVec.ofNat 32 i)) := by
  unfold load
  rw [hasElement_eq hinv hlive]
  simp only [decide_eq_true_eq]

/-- **The copied elements**, where all of them are there. -/
theorem copyElements_eq {dst src : Nat} (hsrc : ∀ i, i < n → w.hasElement src i = true)
    (hdst : ∀ i, i < n → w.hasElement dst i = true) :
    copyElements dst src n w = .ok { w with words := WordCopy.copied 4 dst src w.words n } := by
  induction n with
  | zero => rfl
  | succ n ih =>
    rw [copyElements,
      ih (fun i hi => hsrc i (Nat.lt_succ_of_lt hi)) fun i hi => hdst i (Nat.lt_succ_of_lt hi)]
    have hload : load src n { w with words := WordCopy.copied 4 dst src w.words n } =
        .ok (WordCopy.copied 4 dst src w.words n (src + 4 * n)) :=
        if_pos (hsrc n (Nat.lt_succ_self n))
    rw [ok_bind, hload, ok_bind]
    exact if_pos (hdst n (Nat.lt_succ_self n))

/-- Copying elements changes words only. -/
theorem copyElements_ok {dst src : Nat} (h : copyElements dst src n w = .ok w') :
    w'.heap = w.heap ∧ w'.objs = w.objs := by
  induction n generalizing w' with
  | zero =>
    obtain rfl := Except.ok.inj h
    exact ⟨rfl, rfl⟩
  | succ n ih =>
    obtain ⟨w₁, hw₁, h⟩ := bind_eq_ok.mp h
    obtain ⟨v, -, h⟩ := bind_eq_ok.mp h
    have hsame := ih hw₁
    unfold store at h
    split at h
    · obtain rfl := Except.ok.inj h
      exact hsame
    · cases h

end Elements

/-! ## Copies

  `copy` alone, as both entry points call it: two allocations and two loops, of as many elements
  as the object it FILLS says it has.  `copy_eq` gives the memory afterwards in full; what is
  right about it is read off there (`sameAs_iff`). -/

section Copies

variable {w w' : World} {this rhs a b : Nat} {n : BitVec 32} {src : Nat → PageSupply} {m₁ m₂ : KMem}

/-- The object at `this` with two new arrays. -/
def withArrays (w : World) (this a b : Nat) (m : KMem) : World where
  heap := ⟨m, ⟨b, ArrFile.arraySize (w.objs this)._length⟩ ::
    ⟨a, ArrFile.arraySize (w.objs this)._length⟩ ::
    w.heap.live⟩
  words := w.words
  objs := Function.update w.objs this ⟨(w.objs this)._length, a, b⟩

/-- `new` succeeds as the allocator does, and the block is in use from then on. -/
theorem newArray_ok {s : PageSupply} {addr : Nat} : newArray n s w = .ok (addr, w') ↔
    ∃ m, allocImpl (ArrFile.arraySize n) s w.heap.mem = (some addr, m) ∧
      { w with heap := ⟨m, ⟨addr, ArrFile.arraySize n⟩ :: w.heap.live⟩ } = w' := by
  unfold newArray
  rw [bind_eq_ok]
  constructor
  · rintro ⟨⟨addr', m⟩, hnew, hret⟩
    obtain ⟨rfl, rfl⟩ := Prod.mk.inj (Except.ok.inj hret)
    exact ⟨m, ArrFile.operatorNew_ok.mp hnew, rfl⟩
  · rintro ⟨m, halloc, rfl⟩
    exact ⟨(addr, m), ArrFile.operatorNew_ok.mpr halloc, rfl⟩

/-- **How `copy` returns**: there was room for both arrays, and the elements were there. -/
theorem copy_ok : copy this rhs src w = .ok w' ↔ ∃ a m₁ b m₂ w₁,
    allocImpl (ArrFile.arraySize (w.objs this)._length) (src 0) w.heap.mem = (some a, m₁) ∧
    allocImpl (ArrFile.arraySize (w.objs this)._length) (src 1) m₁ = (some b, m₂) ∧
    copyElements a ((w.withArrays this a b m₂).objs rhs)._subArrLength
      (copyCount (w.objs this)._length)
      (w.withArrays this a b m₂) = .ok w₁ ∧
    copyElements b ((w.withArrays this a b m₂).objs rhs)._subArr (copyCount (w.objs this)._length)
      w₁ = .ok w' := by
  unfold copy
  simp only [bind_eq_ok, Prod.exists, newArray_ok]
  constructor
  · rintro ⟨a, _, ⟨m₁, ha, rfl⟩, b, _, ⟨m₂, hb, rfl⟩, w₁, hlengths, hsubArrs⟩
    simp only [setObj, Function.update_self, Function.update_idem] at hb hlengths
    have hobjs := (copyElements_ok hlengths).2
    rw [hobjs] at hsubArrs
    simp only [Function.update_self] at hsubArrs
    exact ⟨a, m₁, b, m₂, w₁, ha, hb, hlengths, hsubArrs⟩
  · rintro ⟨a, m₁, b, m₂, w₁, ha, hb, hlengths, hsubArrs⟩
    refine ⟨a, _, ⟨m₁, ha, rfl⟩, b, _, ⟨m₂, ?_, rfl⟩, w₁, ?_⟩
    · simp only [setObj, Function.update_self]
      exact hb
    · simp only [setObj, Function.update_self, Function.update_idem]
      have hobjs := (copyElements_ok hlengths).2
      refine ⟨hlengths, ?_⟩
      rw [hobjs]
      simp only [withArrays, Function.update_self]
      exact hsubArrs

/-- `copy` leaves the length as it was. -/
theorem length_copy (h : copy this rhs src w = .ok w') : w'.length this = w.length this := by
  obtain ⟨a, m₁, b, m₂, w₁, -, -, hlengths, hsubArrs⟩ := copy_ok.mp h
  unfold length
  rw [(copyElements_ok hsubArrs).2, (copyElements_ok hlengths).2]
  simp only [withArrays, Function.update_self]

/-- What was allocated is small enough for its size not to wrap. -/
theorem copyCount_eq {s : PageSupply} {m m' : KMem}
    (h : allocImpl (ArrFile.arraySize n) s m = (some a, m')) : copyCount n = n.toNat := by
  have hle := ArrFile.operatorNew_le (ArrFile.operatorNew_ok.mpr h)
  unfold ArrFile.arraySize at hle
  unfold copyCount
  rw [BitVec.toNat_mul]
  show 4 * n.toNat % 0x100000000 / 4 = _
  omega

/-- Words after both arrays of `n` are copied. -/
def copiedWords (words : Nat → BitVec 32) (a lengths b subArrs n : Nat) : Nat → BitVec 32 :=
  WordCopy.copied 4 b subArrs (WordCopy.copied 4 a lengths words n) n

/-- What there is after the arrays of an object like `r` are copied. -/
def afterCopy (w : World) (this a b : Nat) (m : KMem) (r : Obj) : World :=
  { w.withArrays this a b m with
    words := copiedWords w.words a r._subArrLength b r._subArr (w.objs this)._length.toNat }

/-- **What `copy` does**, with room, and with as many elements at `rhs` as are copied. -/
theorem copy_eq
    (ha : allocImpl (ArrFile.arraySize (w.objs this)._length) (src 0) w.heap.mem = (some a, m₁))
    (hb : allocImpl (ArrFile.arraySize (w.objs this)._length) (src 1) m₁ = (some b, m₂)) {r : Obj}
    (hr : (w.withArrays this a b m₂).objs rhs = r)
    (hinv : Inv m₂ (w.withArrays this a b m₂).heap.live)
    (hlengths : ⟨r._subArrLength, ArrFile.arraySize (w.objs this)._length⟩ ∈
      (w.withArrays this a b m₂).heap.live)
    (hsubArrs : ⟨r._subArr, ArrFile.arraySize (w.objs this)._length⟩ ∈
      (w.withArrays this a b m₂).heap.live) :
    copy this rhs src w = .ok (w.afterCopy this a b m₂ r) := by
  have hele : ∀ addr,
      ⟨addr, ArrFile.arraySize (w.objs this)._length⟩ ∈ (w.withArrays this a b m₂).heap.live →
      ∀ i, i < (w.objs this)._length.toNat →
      (w.withArrays this a b m₂).hasElement addr i = true := by
    intro addr hlive i hi
    rw [hasElement_eq hinv hlive]
    exact decide_eq_true hi
  refine copy_ok.mpr ⟨a, m₁, b, m₂, { w.withArrays this a b m₂ with
    words := WordCopy.copied 4 a r._subArrLength w.words (w.objs this)._length.toNat }, ha,
      hb, ?_, ?_⟩
  · rw [hr, copyCount_eq ha]
    exact copyElements_eq (hele _ hlengths) (hele a (List.mem_cons_of_mem _ List.mem_cons_self))
  · rw [hr, copyCount_eq ha]
    exact copyElements_eq (hele _ hsubArrs) (hele b List.mem_cons_self)

/-- **The same as** an object is one with its length, and its pointers. -/
theorem sameAs_iff {o x : Nat} (hinv' : Inv w'.heap.mem w'.heap.live) (ho : w'.Whole o)
    (hinv : Inv w.heap.mem w.heap.live) (hx : w.Whole x) : w'.SameAs o w x ↔
    (w'.objs o)._length = (w.objs x)._length ∧ ∀ i, i < (w.objs x)._length.toNat →
      w'.words ((w'.objs o)._subArr + 4 * i) = w.words ((w.objs x)._subArr + 4 * i) := by
  have hindex : ∀ idx, w.index x idx = if (w.objs x)._length - 1 < idx then .ok 0
      else if idx.toNat < (w.objs x)._length.toNat
        then .ok (w.words ((w.objs x)._subArr + 4 * idx.toNat))
      else .error (.badIndex (BitVec.ofNat 32 idx.toNat)) := by
    intro idx
    unfold index
    rw [load_eq hinv hx.subArrs]
  have hindex' : ∀ idx, w'.index o idx = if (w'.objs o)._length - 1 < idx then .ok 0
      else if idx.toNat < (w'.objs o)._length.toNat
        then .ok (w'.words ((w'.objs o)._subArr + 4 * idx.toNat))
      else .error (.badIndex (BitVec.ofNat 32 idx.toNat)) := by
    intro idx
    unfold index
    rw [load_eq hinv' ho.subArrs]
  constructor
  · intro h
    have hlen : (w'.objs o)._length = (w.objs x)._length := h.length
    refine ⟨hlen, fun i hi => ?_⟩
    have hlt := (w.objs x)._length.isLt
    have htoNat : (BitVec.ofNat 32 i).toNat = i := by
      rw [BitVec.toNat_ofNat]
      omega
    -- an index below the length passes the check of `index`, also if the length is 0, when there
    -- is none
    have hin : ¬ (w.objs x)._length - 1 < BitVec.ofNat 32 i := by
      rw [BitVec.lt_def, htoNat, BitVec.toNat_sub]
      show ¬ (0x100000000 - 1 + (w.objs x)._length.toNat) % 0x100000000 < i
      omega
    have heq := h.index (BitVec.ofNat 32 i)
    rw [hindex, hindex', hlen, if_neg hin, if_neg hin, htoNat, if_pos hi, if_pos hi] at heq
    exact Except.ok.inj heq
  · rintro ⟨hlen, hwords⟩
    refine ⟨hlen, fun idx => ?_⟩
    rw [hindex, hindex', hlen]
    split
    · rfl
    · split
      · next hi => rw [hwords _ hi]
      · rfl

end Copies

/-! ## The heap during a call -/

section Heap

variable {m : KMem} {live : List Block} {lengths subArrs size : Nat}

/-- A block that was allocated is in use. -/
theorem allocImpl_some (h : Inv m live) {s : PageSupply} (hfresh : SupplyFresh m s) {a : Nat}
    {m' : KMem} (halloc : allocImpl size s m = (some a, m')) : Inv m' (⟨a, size⟩ :: live) := by
  rcases allocImpl_spec h hfresh size with ⟨a', m'', heq, hinv, -⟩ | heq
  · obtain ⟨hsome, rfl⟩ := Prod.mk.inj (halloc.symm.trans heq)
    obtain rfl := Option.some.inj hsome
    exact hinv
  · cases halloc.symm.trans heq

/-- **Blocks that are taken back come back**: two requests of their size are served without a
    page. -/
theorem reissue (h : Inv m live) (hlengths : ⟨lengths, size⟩ ∈ live)
    (hsubArrs : ⟨subArrs, size⟩ ∈ live) (hne : lengths ≠ subArrs) (src : Nat → PageSupply) :
    ∃ m₁ m₂ a m₃ b m₄, freeImpl lengths m = (true, m₁) ∧ freeImpl subArrs m₁ = (true, m₂) ∧
    Inv m₂ (without (without live lengths) subArrs) ∧
    allocImpl size (src 0) m₂ = (some a, m₃) ∧ allocImpl size (src 1) m₃ = (some b, m₄) ∧
    Inv m₄ (⟨b, size⟩ :: ⟨a, size⟩ :: without (without live lengths) subArrs) := by
  obtain ⟨c, p, hsz, hp, hel⟩ := h.owned _ hlengths
  obtain ⟨d, q, hsz', hq, hel'⟩ := h.owned _ hsubArrs
  obtain rfl : c = d := Option.some.inj (hsz.symm.trans hsz')
  obtain ⟨m₁, hfree₁, hinv₁⟩ := freeImpl_live h ⟨_, hlengths, rfl⟩
  have hsubArrs₁ : subArrs ∈ starts (without live lengths) :=
    ⟨_, mem_without.mpr ⟨hsubArrs, fun heq => hne heq.symm⟩, rfl⟩
  obtain ⟨m₂, hfree₂, hinv₂⟩ := freeImpl_live hinv₁ hsubArrs₁
  have hslots : m₂.slots = m.slots := by
    have hfst := slots_freeImpl lengths m
    have hsnd := slots_freeImpl subArrs m₁
    rw [hfree₁] at hfst
    rw [hfree₂] at hsnd
    exact hsnd.trans hfst
  -- neither block is in use now
  have hnl : lengths ∉ starts (without (without live lengths) subArrs) := by
    rw [starts_without, starts_without]
    exact fun hin => hin.1.2 rfl
  have hnl' : subArrs ∉ starts (without (without live lengths) subArrs) := by
    rw [starts_without]
    exact fun hin => hin.2 rfl
  obtain ⟨a, m₃, ha, hinv₃, -, hslots₃⟩ :=
    allocImpl_of_free hinv₂ (src 0) hsz (by rw [hslots]; exact hp) hel hnl
  have hsecond : ∃ b m₄, allocImpl size (src 1) m₃ = (some b, m₄) ∧
      Inv m₄ (⟨b, size⟩ :: ⟨a, size⟩ :: without (without live lengths) subArrs) := by
    by_cases hal : a = lengths
    · have hnot : subArrs ∉ starts (⟨a, size⟩ :: without (without live lengths) subArrs) := by
        rw [starts_cons, Set.mem_insert_iff]
        rintro (heq | hin)
        · exact hne (heq.trans hal).symm
        · exact hnl' hin
      obtain ⟨b, m₄, hb, hinv₄, -⟩ :=
        allocImpl_of_free hinv₃ (src 1) hsz (by rw [hslots₃, hslots]; exact hq) hel' hnot
      exact ⟨b, m₄, hb, hinv₄⟩
    · have hnot : lengths ∉ starts (⟨a, size⟩ :: without (without live lengths) subArrs) := by
        rw [starts_cons, Set.mem_insert_iff]
        rintro (heq | hin)
        · exact hal heq.symm
        · exact hnl hin
      obtain ⟨b, m₄, hb, hinv₄, -⟩ :=
        allocImpl_of_free hinv₃ (src 1) hsz (by rw [hslots₃, hslots]; exact hp) hel hnot
      exact ⟨b, m₄, hb, hinv₄⟩
  obtain ⟨b, m₄, hb, hinv₄⟩ := hsecond
  exact ⟨m₁, m₂, a, m₃, b, m₄, hfree₁, hfree₂, hinv₂, ha, hb, hinv₄⟩

end Heap

/-! ## The two entry points

  A new object takes whatever length its memory held, and an assigned one the length it had.  So
  both are right exactly if that is the length of the original (`copyConstruct_right_iff`,
  `assign_right_iff`).  An object that is assigned to itself has the right length, but copies
  from blocks that it has given back, and the heap has just handed them out again (`reissue`). -/

section Calls

variable {w : World} {objects : List Nat} {x t this a b : Nat} {src : Nat → PageSupply}
    {m₁ m₂ : KMem}

/-- `copy` sets the two addresses and leaves the length. -/
theorem objs_afterCopy (r : Obj) :
    (w.afterCopy this a b m₂ r).objs this = ⟨(w.objs this)._length, a, b⟩ :=
  Function.update_self ..

/-- The new arrays of an object are its own. -/
theorem whole_afterCopy (r : Obj) : (w.afterCopy this a b m₂ r).Whole this := by
  constructor
  · rw [objs_afterCopy]
    exact List.mem_cons_of_mem _ List.mem_cons_self
  · rw [objs_afterCopy]
    exact List.mem_cons_self

/-- Two new blocks are different ones, and none of those there were. -/
theorem ne_of_inv {m : KMem} {live : List Block} {blk blk' : Block}
    (h : Inv m (blk' :: blk :: live)) :
    blk.addr ≠ blk'.addr ∧ ∀ addr ∈ starts live, addr ≠ blk.addr ∧ addr ≠ blk'.addr := by
  have hnodup := h.liveNodup
  rw [List.map_cons, List.nodup_cons, List.map_cons, List.nodup_cons, List.mem_cons, not_or]
    at hnodup
  obtain ⟨⟨hne, hnew'⟩, hnew, -⟩ := hnodup
  refine ⟨fun heq => hne heq.symm, ?_⟩
  rintro _ ⟨old, hold, rfl⟩
  have hmem : old.addr ∈ live.map Block.addr := List.mem_map_of_mem hold
  exact ⟨fun heq => hnew (heq ▸ hmem), fun heq => hnew' (heq ▸ hmem)⟩

/-- **A copy of an object of the same length** is right, once it is made. -/
theorem copy_right (hinv : Inv w.heap.mem w.heap.live) (hx : w.Whole x) (hne : this ≠ x)
    (hlen : (w.objs this)._length = (w.objs x)._length)
    (ha : allocImpl (ArrFile.arraySize (w.objs this)._length) (src 0) w.heap.mem = (some a, m₁))
    (hb : allocImpl (ArrFile.arraySize (w.objs this)._length) (src 1) m₁ = (some b, m₂))
    (hinv' : Inv m₂ (w.withArrays this a b m₂).heap.live) :
    Right (copy this x src) this w x := by
  have hobj : (w.withArrays this a b m₂).objs x = w.objs x := Function.update_of_ne hne.symm ..
  have hlengths :
      ⟨(w.objs x)._subArrLength, ArrFile.arraySize (w.objs this)._length⟩ ∈ w.heap.live := by
    rw [hlen]
    exact hx.lengths
  have hsubArrs : ⟨(w.objs x)._subArr, ArrFile.arraySize (w.objs this)._length⟩ ∈ w.heap.live := by
    rw [hlen]
    exact hx.subArrs
  have hold : ∀ blk ∈ w.heap.live, blk ∈ (w.withArrays this a b m₂).heap.live :=
    fun blk hblk => List.mem_cons_of_mem _ (List.mem_cons_of_mem _ hblk)
  refine ⟨_, copy_eq ha hb hobj hinv' (hold _ hlengths) (hold _ hsubArrs), ?_⟩
  refine (sameAs_iff hinv' (whole_afterCopy _) hinv hx).mpr ⟨?_, fun i hi => ?_⟩
  · rw [objs_afterCopy]
    exact hlen
  -- neither new array overlaps the pointers that are copied
  have hmema :
      (⟨a, ArrFile.arraySize (w.objs this)._length⟩ : Block) ∈
        (w.withArrays this a b m₂).heap.live :=
    List.mem_cons_of_mem _ List.mem_cons_self
  obtain ⟨hnea, hneb⟩ := (ne_of_inv hinv').2 _ ⟨_, hsubArrs, rfl⟩
  have haparta := hinv'.blocks_apart hmema (hold _ hsubArrs) hnea.symm
  have hapartb := hinv'.blocks_apart List.mem_cons_self (hold _ hsubArrs) hneb.symm
  unfold Apart ArrFile.arraySize at haparta hapartb
  dsimp only at haparta hapartb
  rw [← hlen] at hi
  rw [objs_afterCopy]
  show copiedWords w.words a (w.objs x)._subArrLength b (w.objs x)._subArr
    (w.objs this)._length.toNat (b + 4 * i) = _
  unfold copiedWords
  rw [WordCopy.copied_element (by decide) (by omega) hi]
  exact WordCopy.copied_other fun j hj => by omega

/-- The heap stays in order when two arrays are allocated. -/
theorem inv_withArrays (hinv : Inv w.heap.mem w.heap.live)
    (hfresh : PagesFresh (arrayRequests (w.objs this)._length src) w.heap.mem)
    (ha : allocImpl (ArrFile.arraySize (w.objs this)._length) (src 0) w.heap.mem = (some a, m₁))
    (hb : allocImpl (ArrFile.arraySize (w.objs this)._length) (src 1) m₁ = (some b, m₂)) :
    Inv m₂ (w.withArrays this a b m₂).heap.live :=
  allocImpl_some (allocImpl_some hinv hfresh.1 ha) (hfresh.2 a m₁ ha).1 hb

/-- **The copy constructor**: right if the memory it builds in happens to hold the length, and there
    is room. -/
theorem copyConstruct_right_iff (hinv : Inv w.heap.mem w.heap.live) (hx : w.Whole x)
    (hne : this ≠ x) (hfresh : PagesFresh (arrayRequests (w.objs this)._length src) w.heap.mem) :
    Right (copyConstruct this x src) this w x ↔ (w.objs this)._length = (w.objs x)._length ∧
    HasRoom (w.objs x)._length src w.heap.mem := by
  constructor
  · rintro ⟨w', hcopy, hsame⟩
    have hlen : (w.objs this)._length = (w.objs x)._length :=
      (length_copy hcopy).symm.trans hsame.length
    obtain ⟨a, m₁, b, m₂, -, ha, hb, -⟩ := copy_ok.mp hcopy
    refine ⟨hlen, a, m₁, b, m₂, ?_, ?_⟩
    · rw [← hlen]
      exact ha
    · rw [← hlen]
      exact hb
  · rintro ⟨hlen, a, m₁, b, m₂, ha, hb⟩
    rw [← hlen] at ha hb
    exact copy_right hinv hx hne hlen ha hb (inv_withArrays hinv hfresh ha hb)

/-- Deleting what is in use. -/
theorem deleteArray_ok {addr : Nat} {m : KMem} (h : freeImpl addr w.heap.mem = (true, m)) :
    deleteArray addr w = .ok { w with heap := ⟨m, without w.heap.live addr⟩ } := by
  unfold deleteArray
  rw [ArrFile.operatorDelete_ok.mpr h, ok_bind]
  rfl

/-- The world without the arrays of the object at `this`. -/
def withoutArrays (w : World) (this : Nat) (m : KMem) : World :=
  { w with heap :=
    ⟨m, without (without w.heap.live (w.objs this)._subArrLength) (w.objs this)._subArr⟩ }

/-- **What `operator =` does first**: both arrays are given back, and two come back for the
    copies. -/
theorem freeAll_ok (hinv : Inv w.heap.mem w.heap.live) (ht : w.Whole t)
    (hne : (w.objs t)._subArrLength ≠ (w.objs t)._subArr) (src : Nat → PageSupply) : ∃ m a m₁ b m₂,
    freeAll t w = .ok (w.withoutArrays t m) ∧ Inv m (w.withoutArrays t m).heap.live ∧
    allocImpl (ArrFile.arraySize (w.objs t)._length) (src 0) m = (some a, m₁) ∧
    allocImpl (ArrFile.arraySize (w.objs t)._length) (src 1) m₁ = (some b, m₂) ∧
    Inv m₂ ((w.withoutArrays t m).withArrays t a b m₂).heap.live ∧
    reissued (w.objs t) src w.heap.mem = some b := by
  obtain ⟨m₁, m₂, a, m₃, b, m₄, hfree₁, hfree₂, hinv₂, ha, hb, hinv₄⟩ :=
    reissue hinv ht.lengths ht.subArrs hne src
  refine ⟨m₂, a, m₃, b, m₄, ?_, hinv₂, ha, hb, hinv₄, ?_⟩
  · unfold freeAll
    rw [deleteArray_ok hfree₁, ok_bind]
    exact deleteArray_ok hfree₂
  · simp only [reissued, hfree₁, hfree₂, ha, hb]

/-- `t = x` leaves the length of `t` as it was. -/
theorem length_assign {w' : World} (h : assign t x src w = .ok w') : w'.length t = w.length t := by
  obtain ⟨w₁, hfree, hcopy⟩ := bind_eq_ok.mp h
  obtain ⟨w₀, hw₀, hfree⟩ := bind_eq_ok.mp hfree
  obtain ⟨m, -, hm⟩ := bind_eq_ok.mp hw₀
  obtain ⟨m', -, hm'⟩ := bind_eq_ok.mp hfree
  obtain rfl := Except.ok.inj hm
  obtain rfl := Except.ok.inj hm'
  have hlen := length_copy hcopy
  exact hlen

/-- An object keeps its arrays when those of another are given back. -/
theorem Good.whole_withoutArrays (hgood : w.Good objects) (hx : x ∈ objects) (ht : t ∈ objects)
    (hne : t ≠ x) {m : KMem} : (w.withoutArrays t m).Whole x := by
  have hkeep : ∀ addr ∈ w.arrays x, ∀ size, ⟨addr, size⟩ ∈ w.heap.live →
      ⟨addr, size⟩ ∈ (w.withoutArrays t m).heap.live := by
    intro addr haddr size hlive
    have hnot := hgood.apart x hx t ht hne addr haddr
    refine mem_without.mpr ⟨mem_without.mpr ⟨hlive, ?_⟩, ?_⟩
    · rintro rfl
      exact hnot List.mem_cons_self
    · rintro rfl
      exact hnot (List.mem_cons_of_mem _ List.mem_cons_self)
  have hwhole := hgood.whole x hx
  exact ⟨hkeep _ List.mem_cons_self _ hwhole.lengths,
    hkeep _ (List.mem_cons_of_mem _ List.mem_cons_self) _ hwhole.subArrs⟩

/-- **`t = x`** for two objects: right if they are of one length. -/
theorem assign_right_iff (hgood : w.Good objects) (hx : x ∈ objects) (ht : t ∈ objects)
    (hne : t ≠ x) :
    Right (assign t x src) t w x ↔ (w.objs t)._length = (w.objs x)._length := by
  constructor
  · rintro ⟨w', hassign, hsame⟩
    exact (length_assign hassign).symm.trans hsame.length
  · intro hlen
    have hwhole := hgood.whole x hx
    obtain ⟨m, a, m₁, b, m₂, hfree, hinv, ha, hb, hinv', -⟩ :=
      freeAll_ok hgood.heap (hgood.whole t ht) (hgood.own t ht) src
    have hwhole' : (w.withoutArrays t m).Whole x := hgood.whole_withoutArrays hx ht hne
    obtain ⟨w', hcopy, hsame⟩ := copy_right hinv hwhole' hne hlen ha hb hinv'
    refine ⟨w', bind_eq_ok.mpr ⟨_, hfree, hcopy⟩, hsame.length, fun idx => ?_⟩
    rw [hsame.index idx]
    unfold index
    rw [load_eq hinv hwhole'.subArrs, load_eq hgood.heap hwhole.subArrs]
    rfl

/-- **`x = x`**: right if the block that comes back for the pointers holds them. -/
theorem assign_self_right_iff (hgood : w.Good objects) (hx : x ∈ objects) :
    Right (assign x x src) x w x ↔ ∃ b, reissued (w.objs x) src w.heap.mem = some b ∧
      ∀ i, i < (w.objs x)._length.toNat →
      w.words (b + 4 * i) = w.words ((w.objs x)._subArr + 4 * i) := by
  have hwhole := hgood.whole x hx
  obtain ⟨m, a, m₁, b, m₂, hfree, hinv, ha, hb, hinv', hre⟩ :=
    freeAll_ok hgood.heap hwhole (hgood.own x hx) src
  have hobj : ((w.withoutArrays x m).withArrays x a b m₂).objs x = ⟨(w.objs x)._length, a, b⟩ :=
    Function.update_self ..
  have hcopied : copy x x src (w.withoutArrays x m) =
      .ok ((w.withoutArrays x m).afterCopy x a b m₂ ⟨(w.objs x)._length, a, b⟩) :=
    copy_eq (w := w.withoutArrays x m) ha hb hobj hinv' (List.mem_cons_of_mem _ List.mem_cons_self)
      List.mem_cons_self
  have hcopy :
      assign x x src w =
        .ok ((w.withoutArrays x m).afterCopy x a b m₂ ⟨(w.objs x)._length, a, b⟩) :=
    bind_eq_ok.mpr ⟨_, hfree, hcopied⟩
  -- the arrays are copied onto themselves
  have hwords :
      ((w.withoutArrays x m).afterCopy x a b m₂ ⟨(w.objs x)._length, a, b⟩).words = w.words := by
    show copiedWords w.words a a b b _ = w.words
    unfold copiedWords
    rw [WordCopy.copied_self, WordCopy.copied_self]
  have hsame :=
    sameAs_iff (o := x) hinv' (whole_afterCopy ⟨(w.objs x)._length, a, b⟩) hgood.heap hwhole
  rw [objs_afterCopy, hwords] at hsame
  constructor
  · rintro ⟨w', hassign, hright⟩
    obtain rfl := Except.ok.inj (hcopy.symm.trans hassign)
    exact ⟨b, hre, (hsame.mp hright).2⟩
  · rintro ⟨b', hb', hpointers⟩
    obtain rfl := Option.some.inj (hre.symm.trans hb')
    exact ⟨_, hcopy, hsame.mpr ⟨rfl, hpointers⟩⟩

/-- **Copies are right** exactly if the length that the target happens to hold is right, there is
    room for the copy, and where `t` is `x` the block that comes back for the pointers holds
    them. -/
theorem arrFileCopies_iff {src' : Nat → PageSupply} (hgood : w.Good objects) (hx : x ∈ objects)
    (ht : t ∈ objects) (hthis : this ∉ objects)
    (hfresh : PagesFresh (arrayRequests (w.objs this)._length src) w.heap.mem) :
    w.CopiesRight x t this src src' ↔
      ((w.objs this)._length = (w.objs x)._length ∧ HasRoom (w.objs x)._length src w.heap.mem) ∧
      (t ≠ x → (w.objs t)._length = (w.objs x)._length) ∧
      (t = x → ∃ b, reissued (w.objs x) src' w.heap.mem = some b ∧
        ∀ i, i < (w.objs x)._length.toNat →
        w.words (b + 4 * i) = w.words ((w.objs x)._subArr + 4 * i)) := by
  have hne : this ≠ x := by
    rintro rfl
    exact hthis hx
  have hconstruct := copyConstruct_right_iff hgood.heap (hgood.whole x hx) hne hfresh
  constructor
  · rintro ⟨hright, hassign⟩
    refine ⟨hconstruct.mp hright, fun hne => (assign_right_iff hgood hx ht hne).mp hassign, ?_⟩
    rintro rfl
    exact (assign_self_right_iff hgood hx).mp hassign
  · rintro ⟨hright, hother, hself⟩
    refine ⟨hconstruct.mpr hright, ?_⟩
    by_cases heq : t = x
    · obtain rfl := heq
      exact (assign_self_right_iff hgood hx).mpr (hself rfl)
    · exact (assign_right_iff hgood hx ht heq).mpr (hother heq)

end Calls

/-! ## What the calls keep

  `Good` through each of the calls.  A call that returns has allocated what it stores, so the
  arrays are new ones and no other object has them. -/

section Keep

variable {w w' : World} {objects objects' : List Nat} {x t this a b : Nat} {src : Nat → PageSupply}
    {m m₁ m₂ : KMem}

/-- The arrays of an object are in use. -/
theorem Whole.starts (h : w.Whole x) : ∀ addr ∈ w.arrays x, addr ∈ starts w.heap.live := by
  intro addr haddr
  simp only [arrays, List.mem_cons, List.not_mem_nil, or_false] at haddr
  rcases haddr with rfl | rfl
  · exact ⟨_, h.lengths, rfl⟩
  · exact ⟨_, h.subArrs, rfl⟩

/-- **FRAME**: objects that are not touched are as good as before. -/
theorem Good.frame (h : w.Good objects) (hinv : Inv w'.heap.mem w'.heap.live)
    (hlive : ∀ blk ∈ w.heap.live, blk ∈ w'.heap.live)
    (hobjs : ∀ x ∈ objects, w'.objs x = w.objs x) :
    w'.Good objects := by
  refine ⟨hinv, fun x hx => ?_, fun x hx => ?_, fun x hx t ht hne => ?_⟩
  · constructor
    · rw [hobjs x hx]
      exact hlive _ (h.whole x hx).lengths
    · rw [hobjs x hx]
      exact hlive _ (h.whole x hx).subArrs
  · rw [hobjs x hx]
    exact h.own x hx
  · unfold arrays
    rw [hobjs x hx, hobjs t ht]
    exact h.apart x hx t ht hne

/-- Fewer objects have their arrays to themselves all the more. -/
theorem Good.mono (h : w.Good objects) (hsub : ∀ x ∈ objects', x ∈ objects) : w.Good objects' :=
  ⟨h.heap, fun x hx => h.whole x (hsub x hx), fun x hx => h.own x (hsub x hx),
    fun x hx t ht => h.apart x (hsub x hx) t (hsub t ht)⟩

/-- An object with two new arrays joins those there are. -/
theorem Good.withArrays (h : w.Good objects) (hthis : this ∉ objects)
    (hinv : Inv m₂ (w.withArrays this a b m₂).heap.live) :
    (w.withArrays this a b m₂).Good (this :: objects) := by
  have hobj : (w.withArrays this a b m₂).objs this = ⟨(w.objs this)._length, a, b⟩ :=
    Function.update_self ..
  have hother : ∀ x ∈ objects, (w.withArrays this a b m₂).objs x = w.objs x := by
    intro x hx
    refine Function.update_of_ne ?_ ..
    rintro rfl
    exact hthis hx
  have hold : (w.withArrays this a b m₂).Good objects :=
    h.frame hinv (fun blk hblk => List.mem_cons_of_mem _ (List.mem_cons_of_mem _ hblk)) hother
  obtain ⟨hne, hnew⟩ := ne_of_inv hinv
  have harrays : (w.withArrays this a b m₂).arrays this = [a, b] := by
    unfold arrays
    rw [hobj]
  -- the arrays of the others were in use before
  have hapart : ∀ x ∈ objects, ∀ addr ∈ (w.withArrays this a b m₂).arrays x, addr ∉ [a, b] := by
    intro x hx addr haddr hin
    unfold arrays at haddr
    rw [hother x hx] at haddr
    obtain ⟨hnea, hneb⟩ := hnew addr ((h.whole x hx).starts addr haddr)
    rw [List.mem_cons, List.mem_singleton] at hin
    exact hin.elim hnea hneb
  constructor
  case heap => exact hinv
  case whole =>
    intro x hx
    rcases List.mem_cons.mp hx with rfl | hx
    · exact ⟨(whole_afterCopy ⟨0, 0, 0⟩).lengths, (whole_afterCopy ⟨0, 0, 0⟩).subArrs⟩
    · exact hold.whole x hx
  case own =>
    intro x hx
    rcases List.mem_cons.mp hx with rfl | hx
    · rw [hobj]
      exact hne
    · exact hold.own x hx
  case apart =>
    intro x hx t ht hxt addr haddr
    rcases List.mem_cons.mp hx with heq | hx'
    · rcases List.mem_cons.mp ht with heq' | ht'
      · exact absurd (heq'.trans heq.symm) hxt
      · rw [heq, harrays] at haddr
        exact fun hin => hapart t ht' addr hin haddr
    · rcases List.mem_cons.mp ht with heq' | ht'
      · rw [heq', harrays]
        exact hapart x hx' addr haddr
      · exact hold.apart x hx' t ht' hxt addr haddr

/-- The other objects keep their arrays when those of `t` are given back. -/
theorem Good.withoutArrays (h : w.Good objects) (ht : t ∈ objects)
    (hinv : Inv m (w.withoutArrays t m).heap.live) :
    (w.withoutArrays t m).Good (objects.filter (· ≠ t)) := by
  have hmem : ∀ x ∈ objects.filter (· ≠ t), x ∈ objects ∧ x ≠ t := by
    intro x hx
    simpa using hx
  refine ⟨hinv, fun x hx => ?_, fun x hx => h.own x (hmem x hx).1,
    fun x hx y hy => h.apart x (hmem x hx).1 y (hmem y hy).1⟩
  obtain ⟨hx, hne⟩ := hmem x hx
  exact h.whole_withoutArrays hx ht hne.symm

/-- A copy is an object like the others. -/
theorem Good.copy (h : w.Good objects) (hthis : this ∉ objects)
    (hcopy : copy this x src w = .ok w') (hinv : ∀ a m₁ b m₂,
      allocImpl (ArrFile.arraySize (w.objs this)._length) (src 0) w.heap.mem = (some a, m₁) →
      allocImpl (ArrFile.arraySize (w.objs this)._length) (src 1) m₁ = (some b, m₂) →
      Inv m₂ (w.withArrays this a b m₂).heap.live) : w'.Good (this :: objects) := by
  obtain ⟨a, m₁, b, m₂, w₁, ha, hb, hlengths, hsubArrs⟩ := copy_ok.mp hcopy
  obtain ⟨hheap₁, hobjs₁⟩ := copyElements_ok hlengths
  obtain ⟨hheap, hobjs⟩ := copyElements_ok hsubArrs
  have hgood := h.withArrays hthis (hinv a m₁ b m₂ ha hb)
  refine hgood.frame ?_ (fun blk hblk => ?_) fun x _ => ?_
  · rw [hheap, hheap₁]
    exact hgood.heap
  · rw [hheap, hheap₁]
    exact hblk
  · rw [hobjs, hobjs₁]

/-- An object of `n` that `getInstance` builds, whatever it stores in its arrays. -/
def instanceOf (w : World) (this lengths subArrs : Nat) (n : BitVec 32) (m : KMem)
    (words : Nat → BitVec 32) : World where
  heap := ⟨m, ⟨subArrs, ArrFile.arraySize n⟩ :: ⟨lengths, ArrFile.arraySize n⟩ ::
    ⟨this, ArrFile.sizeofArrFile⟩ ::
    w.heap.live⟩
  words := words
  objs := Function.update w.objs this ⟨n, lengths, subArrs⟩

/-- The object before it has arrays. -/
def bareInstance (w : World) (this : Nat) (n : BitVec 32) (m : KMem) (words : Nat → BitVec 32) :
    World where
  heap := ⟨m, ⟨this, ArrFile.sizeofArrFile⟩ :: w.heap.live⟩
  words := words
  objs := Function.update w.objs this ⟨n, 0, 0⟩

/-- **`getInstance` builds a whole object**, and keeps the others. -/
theorem Good.getInstance (h : w.Good objects) {mem : ByteMemory.Memory 32} {ptr : BitVec 32}
    {pages : Fin 3 → PageSupply} {obj : ArrFile}
    (hcall : ArrFile.getInstance mem ptr pages w.heap.mem = .ok (some obj, m))
    (hfresh : PagesFresh
      [(ArrFile.sizeofArrFile, pages 0), (ArrFile.arraySize obj._length, pages 1),
      (ArrFile.arraySize obj._length, pages 2)] w.heap.mem) :
    ∃ this lengths subArrs, this ∉ objects →
      ∀ words, (w.instanceOf this lengths subArrs obj._length m words).Good (this :: objects) := by
  rcases ArrFile.getInstance_ok.mp hcall with
    ⟨-, hnone, -⟩ | ⟨-, n, -, lengths, subArrs, m₂, halloc, hloop⟩
  · cases hnone
  rcases hloop with ⟨es, -, -, hobj, rfl⟩ | ⟨-, hnone, -⟩
  · obtain rfl := Option.some.inj hobj
    obtain ⟨this, m₀, m₁, hthis, hlengths, hsubArrs⟩ := halloc
    refine ⟨this, lengths, subArrs, fun hnew words => ?_⟩
    have hinv₀ := allocImpl_some h.heap hfresh.1 hthis
    have hinv₁ := allocImpl_some hinv₀ (hfresh.2 _ _ hthis).1 hlengths
    have hinv₂ := allocImpl_some hinv₁ ((hfresh.2 _ _ hthis).2 _ _ hlengths).1 hsubArrs
    have hbare : (w.bareInstance this n m₀ words).Good objects := by
      refine h.frame hinv₀ (fun blk hblk => List.mem_cons_of_mem _ hblk) fun x hx => ?_
      refine Function.update_of_ne ?_ ..
      rintro rfl
      exact hnew hx
    have hwith : (w.bareInstance this n m₀ words).withArrays this lengths subArrs m =
        w.instanceOf this lengths subArrs n m words := by
      simp only [World.withArrays, instanceOf, bareInstance, Function.update_idem,
        Function.update_self]
    have hinv : Inv m
        ((w.bareInstance this n m₀ words).withArrays this lengths subArrs m).heap.live := by
      rw [hwith]
      exact hinv₂
    have hgood := hbare.withArrays hnew hinv
    rw [hwith] at hgood
    exact hgood
  · cases hnone

/-- **The copy constructor keeps all objects whole.** -/
theorem Good.copyConstruct (h : w.Good objects) (hthis : this ∉ objects)
    (hfresh : PagesFresh (arrayRequests (w.objs this)._length src) w.heap.mem)
    (hcopy : copyConstruct this x src w = .ok w') : w'.Good (this :: objects) :=
  h.copy hthis hcopy fun _ _ _ _ ha hb => inv_withArrays h.heap hfresh ha hb

/-- **`operator =` keeps all objects whole.** -/
theorem Good.assign (h : w.Good objects) (ht : t ∈ objects) (hassign : assign t x src w = .ok w') :
    w'.Good objects := by
  obtain ⟨m, a, m₁, b, m₂, hfree, hinv, ha, hb, hinv', -⟩ :=
    freeAll_ok h.heap (h.whole t ht) (h.own t ht) src
  obtain ⟨w₁, hw₁, hcopy⟩ := bind_eq_ok.mp hassign
  obtain rfl := Except.ok.inj (hfree.symm.trans hw₁)
  have hgone : t ∉ objects.filter (· ≠ t) := by simp
  have hgood := (h.withoutArrays ht hinv).copy hgone hcopy ?_
  · refine hgood.mono fun y hy => ?_
    by_cases heq : y = t
    · exact heq ▸ List.mem_cons_self
    · exact List.mem_cons_of_mem _ (by simpa using ⟨hy, heq⟩)
  · intro a' m₁' b' m₂' ha' hb'
    obtain ⟨hsome, rfl⟩ := Prod.mk.inj (ha.symm.trans ha')
    obtain rfl := Option.some.inj hsome
    obtain ⟨hsome, rfl⟩ := Prod.mk.inj (hb.symm.trans hb')
    obtain rfl := Option.some.inj hsome
    exact hinv'

end Keep

/-! ## Files of one array -/

/-- What the object at `x` holds. -/
def view (w : World) (x : Nat) : ArrFile where
  _length := (w.objs x)._length
  _subArrLength := (List.range (w.objs x)._length.toNat).map fun i =>
    w.words ((w.objs x)._subArrLength + 4 * i)
  _subArr := (List.range (w.objs x)._length.toNat).map fun i => w.words ((w.objs x)._subArr + 4 * i)

/-- The object at `x` holds what `getInstance` has found in a file. -/
def FromFile (w : World) (x : Nat) : Prop :=
  ∃ mem ptr src m m', ArrFile.getInstance mem ptr src m = .ok (some (w.view x), m')

end World

/-- A heap with one pool, of the smallest blocks. -/
def smallPool : KMem := installPool .b16 0xc0000000 KMem.init

/-- No pages. -/
def noPage : Nat → PageSupply := fun _ => ⟨none, none, false⟩

/-- Where no page is to be had, none is used twice. -/
theorem pagesFresh_noPage {n : BitVec 32} {m : KMem} : PagesFresh (arrayRequests n noPage) m :=
  ⟨fun _ hpage => (nomatch hpage),
    fun _ _ _ => ⟨fun _ hpage => (nomatch hpage), fun _ _ _ => trivial⟩⟩

section Small

variable {m : KMem} {live : List Block} {size : Nat}

/-- The heap is in order, and its pool is there. -/
structure Small (m : KMem) (live : List Block) : Prop where
  /-- The invariant of the heap holds, -/
  inv : Inv m live
  /-- and there is a pool to take from. -/
  pool : 0xc0000000 ∈ (m.slots .b16).items

/-- A pool of small blocks, all of them free. -/
theorem small_smallPool : Small smallPool [] := by
  obtain ⟨hinv, hpool⟩ := inv_init.install (c := .b16) (p := 0xc0000000)
    ⟨by decide, by decide, fun _ => List.not_mem_nil⟩ (by decide)
  exact ⟨hinv, hpool⟩

/-- The pool serves small requests. -/
theorem Small.alloc (h : Small m live) (hsize : size ≤ 16) (hlt : live.length < 100)
    (src : PageSupply) :
    ∃ a m', allocImpl size src m = (some a, m') ∧ Small m' (⟨a, size⟩ :: live) := by
  have hmany : 100 < SizeClass.b16.MaxNumElements - SizeClass.b16.ourNumElements := by decide
  obtain ⟨a, hel, hnl⟩ := exists_free 0xc0000000 live (Nat.lt_trans hlt hmany)
  obtain ⟨b, m', halloc, hinv, -, hslots⟩ :=
    allocImpl_of_free h.inv src (show sizeClass size = some .b16 from if_pos hsize) h.pool hel hnl
  refine ⟨b, m', halloc, hinv, ?_⟩
  rw [hslots]
  exact h.pool

open World

/-- An object at 0 that was made of the file of one array, an object of `n` at 1, and nothing at
    2. -/
def fileAndOther (n : BitVec 32) (heap : HeapState) (xl xs tl ts : Nat) : World where
  heap := heap
  words addr := if addr = xs then 0x100000 + 13 + 4 + 4 else 1
  objs o := if o = 0 then ⟨1, xl, xs⟩ else if o = 1 then ⟨n, tl, ts⟩ else ⟨1, 0, 0⟩

/-- The first of the two comes from a file. -/
theorem fromFile_fileAndOther {n : BitVec 32} {heap : HeapState} {xl xs tl ts : Nat}
    (hne : xl ≠ xs) :
    (fileAndOther n heap xl xs tl ts).FromFile 0 := by
  have hview : (fileAndOther n heap xl xs tl ts).view 0 = ArrFile.decoded 0x100000 [[0x11]] := by
    show (⟨1, [if xl = xs then 0x100000 + 13 + 4 + 4 else 1],
      [if xs = xs then 0x100000 + 13 + 4 + 4 else 1]⟩ :
      ArrFile) = _
    rw [if_neg hne, if_pos rfl]
    rfl
  obtain ⟨lengths, subArrs, m', halloc⟩ := ArrFile.hasRoom_threeBlocks (n := 1) (Or.inr rfl)
  have hholds : ArrFile.Holds (ByteMemory.buffer 0x100000 (ArrFile.encode [[0x11]])) 0x100000
      (ArrFile.encode [[0x11]]) := ArrFile.holds_buffer (by decide)
  exact ⟨_, _, _, _, _, (ArrFile.getInstance_encode hholds).mpr ⟨hview, lengths, subArrs, halloc⟩⟩

/-- There is such a world, with room for one more object of one array. -/
theorem exists_fileAndOther (n : BitVec 32) (hn : n.toNat ≤ 4) : ∃ heap xl xs tl ts,
    (fileAndOther n heap xl xs tl ts).Good [0, 1] ∧ (fileAndOther n heap xl xs tl ts).FromFile 0 ∧
      HasRoom 1 noPage heap.mem := by
  have hone : ArrFile.arraySize 1 ≤ 16 := by decide
  have hsize : ArrFile.arraySize n ≤ 16 := by
    unfold ArrFile.arraySize
    omega
  -- two arrays for each of the two objects, and two more that are still to be had
  obtain ⟨xl, m₁, -, h₁⟩ := small_smallPool.alloc hone (by simp) (noPage 0)
  obtain ⟨xs, m₂, -, h₂⟩ := h₁.alloc hone (by simp) (noPage 0)
  obtain ⟨tl, m₃, -, h₃⟩ := h₂.alloc hsize (by simp) (noPage 0)
  obtain ⟨ts, m₄, -, h₄⟩ := h₃.alloc hsize (by simp) (noPage 0)
  obtain ⟨a, m₅, ha, h₅⟩ := h₄.alloc hone (by simp) (noPage 0)
  obtain ⟨b, m₆, hb, -⟩ := h₅.alloc hone (by simp) (noPage 1)
  have hnodup := h₄.inv.liveNodup
  simp only [List.map_cons, List.map_nil, List.nodup_cons, List.mem_cons, List.not_mem_nil,
    or_false, not_or]
    at hnodup
  obtain ⟨⟨hts, htsx, htsl⟩, ⟨htlx, htll⟩, hxs, -⟩ := hnodup
  refine ⟨⟨m₄, _⟩, xl, xs, tl, ts, ⟨h₄.inv, ?_, ?_, ?_⟩,
    fromFile_fileAndOther fun heq => hxs heq.symm, a, m₅, b, m₆, ha, hb⟩
  case refine_1 =>
    intro x hx
    simp only [List.mem_cons, List.not_mem_nil, or_false] at hx
    rcases hx with rfl | rfl
    · exact ⟨by simp [fileAndOther], by simp [fileAndOther]⟩
    · exact ⟨by simp [fileAndOther], by simp [fileAndOther]⟩
  case refine_2 =>
    intro x hx
    simp only [List.mem_cons, List.not_mem_nil, or_false] at hx
    rcases hx with rfl | rfl
    · exact fun heq => hxs heq.symm
    · exact fun heq => hts heq.symm
  case refine_3 =>
    intro x hx t ht hne
    simp only [List.mem_cons, List.not_mem_nil, or_false] at hx ht
    rcases hx with rfl | rfl <;> rcases ht with rfl | rfl
    · exact absurd rfl hne
    · simp [arrays, fileAndOther]
      omega
    · simp [arrays, fileAndOther]
      omega
    · exact absurd rfl hne

end Small

namespace World

/-- A copy, and an assignment to an object of the same length. -/
theorem arrFileCopies_iff_same :
    ∃ w : World, w.Good [0, 1] ∧ w.FromFile 0 ∧ w.CopiesRight 0 1 2 noPage noPage := by
  obtain ⟨heap, xl, xs, tl, ts, hgood, hfile, hroom⟩ := exists_fileAndOther 1 (by decide)
  exact ⟨_, hgood, hfile,
    (arrFileCopies_iff hgood (by decide) (by decide) (by decide) pagesFresh_noPage).mpr
    ⟨⟨rfl, hroom⟩, fun _ => rfl, fun heq => nomatch heq⟩⟩

/-- An object of two arrays keeps its length when it is assigned one of one array. -/
theorem assign_keeps_length : ¬ ∀ (w : World) (objects : List Nat) (x t this : Nat)
    (src src' : Nat → PageSupply), w.Good objects → x ∈ objects → w.FromFile x → t ∈ objects →
    this ∉ objects → PagesFresh (arrayRequests (w.objs this)._length src) w.heap.mem →
    w.CopiesRight x t this src src' := by
  intro hall
  obtain ⟨heap, xl, xs, tl, ts, hgood, hfile, -⟩ := exists_fileAndOther 2 (by decide)
  have hright :=
    hall _ [0, 1] 0 1 2 noPage noPage hgood (by decide) hfile (by decide)
      (by decide) pagesFresh_noPage
  have hlen := (assign_right_iff hgood (by decide) (by decide) (by decide)).mp hright.assign
  exact absurd hlen (show (2 : BitVec 32) ≠ 1 by decide)

end World

end TedkOS.Klibs.ArrFileCopy
