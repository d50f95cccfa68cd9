/-
  Files of arrays (klibs/arrFile.cpp, inc/klibs/arrFile.h).

  A file begins with `magic` and the number of its arrays; then comes each array, with its length
  before it and `ending` after it.  `getInstance` is given the address of a file in memory, and no
  size.

  1. **Program** — `getInstance` over memory of which some bytes may be read; a read of another byte
     stops it, and so does an exception of the heap.

  2. **Specification** — `encode`: what the format says.

  3. **Round trip** — `getInstance_encode` and `getInstance_index_iff`: a file that is there is
     read, and the arrays are found again by their index, but in a file of no arrays.
-/
import TedkOS.Lib.ByteMemory
import TedkOS.Lib.Checked
import TedkOS.Klibs.Kmalloc
import TedkOS.Klibs.Lib

namespace TedkOS.Klibs

open ByteMemory KMemory

/-! ## Reading -/

/-- How a call ends that does not return. -/
inductive Stop where
  /-- A byte is read that is not part of the file. -/
  | outside (addr : BitVec 32)
  /-- `_subArr[idx]`, with no such element. -/
  | badIndex (idx : BitVec 32)
  /-- `trigger_exception<n>()`. -/
  | exception (n : Nat)
deriving DecidableEq

section Reading

variable (mem : Memory 32)

/-- Reads one byte, if there is memory. -/
def readByte (ptr : BitVec 32) : Except Stop (BitVec 8) :=
  match mem ptr with
  | some b => .ok b
  | none => .error (.outside ptr)

/-- `*((uint32_t *) ptr)`. -/
def readWord (ptr : BitVec 32) : Except Stop (BitVec 32) := do
  let b0 ← readByte mem ptr
  let b1 ← readByte mem (ptr + 1)
  let b2 ← readByte mem (ptr + 1 + 1)
  let b3 ← readByte mem (ptr + 1 + 1 + 1)
  return b3 ++ b2 ++ b1 ++ b0

/-- `strncmp(s1, ptr, n)` with the first `n` characters of `s1`; it reads up to the first
    difference. -/
def strncmpAt : List (BitVec 8) → BitVec 32 → Except Stop (BitVec 32)
  | [], _ => .ok 0
  | c :: s1, ptr => do
    let b ← readByte mem ptr
    if c ≠ b ∨ c = 0 then return c.signExtend 32 - b.signExtend 32
    else strncmpAt s1 (ptr + 1)

end Reading

/-! ## The heap -/

/-- `operator new`, and `new[]`. -/
def operatorNew (size : Nat) (src : PageSupply) (m : KMem) : Except Stop (Nat × KMem) :=
  match allocImpl size src m with
  | (some addr, m) => .ok (addr, m)
  | (none, _) => .error (.exception 24)

/-- `operator delete[]`. -/
def operatorDelete (addr : Nat) (m : KMem) : Except Stop KMem :=
  match freeImpl addr m with
  | (true, m) => .ok m
  | (false, _) => .error (.exception 25)

/-! ## The program -/

/-- `"\1carray\1file\1"`, without its NUL. -/
def magic : List (BitVec 8) :=
  [0x01, 0x63, 0x61, 0x72, 0x72, 0x61, 0x79, 0x01, 0x66, 0x69, 0x6c, 0x65, 0x01]

/-- `"\x55\xaa"`, without its NUL. -/
def ending : List (BitVec 8) := [0x55, 0xaa]

/-- The two arrays of an object are what they hold. -/
structure ArrFile where
  /-- How many arrays there are, -/
  _length : BitVec 32
  /-- and where they are. -/
  _subArrLength : List (BitVec 32)
  _subArr : List (BitVec 32)

namespace ArrFile

/-- Three words. -/
def sizeofArrFile : Nat := 12

/-- The size `new uint32_t[n]` and `new void*[n]` ask for.  (Where it does not fit into 32 bits,
    they ask for the largest that does, which is as much too large.) -/
def arraySize (n : BitVec 32) : Nat := 4 * n.toNat

/-- The loop of `getInstance`; there is no object where an ending is missing. -/
def readSubArrs (mem : Memory 32) : Nat → BitVec 32 → ArrFile → Except Stop (Option ArrFile)
  | 0, _, obj => .ok (some obj)
  | left + 1, ptr, obj => do
    let len ← readWord mem ptr
    let ptr := ptr + 4
    let obj := { obj with
      _subArrLength := obj._subArrLength ++ [len]
      _subArr := obj._subArr ++ [if len = 0 then 0 else ptr] }
    let ptr := ptr + len
    let cmp ← strncmpAt mem ending ptr
    if cmp ≠ 0 then return none
    else readSubArrs mem left (ptr + 2) obj

/-- `getInstance(ptr)`; `src` is what the page allocators answer to the three `new`s. -/
def getInstance (mem : Memory 32) (ptr : BitVec 32) (src : Fin 3 → PageSupply) (m : KMem) :
    Except Stop (Option ArrFile × KMem) := do
  let cmp ← strncmpAt mem magic ptr
  if cmp ≠ 0 then return (none, m)
  else
    let (_, m) ← operatorNew sizeofArrFile (src 0) m
    let ptr := ptr + BitVec.ofNat 32 magic.length
    let _length ← readWord mem ptr
    let (lengths, m) ← operatorNew (arraySize _length) (src 1) m
    let (subArrs, m) ← operatorNew (arraySize _length) (src 2) m
    match ← readSubArrs mem _length.toNat (ptr + 4) ⟨_length, [], []⟩ with
    | some obj => return (some obj, m)
    | none =>
      -- obj->freeAll()
      let m ← operatorDelete lengths m
      let m ← operatorDelete subArrs m
      return (none, m)

/-- `operator[]`. -/
def index (obj : ArrFile) (idx : BitVec 32) : Except Stop (BitVec 32) :=
  if obj._length - 1 < idx then .ok 0
  else
    match obj._subArr[idx.toNat]? with
    | some p => .ok p
    | none => .error (.badIndex idx)

def length (obj : ArrFile) : BitVec 32 := obj._length

/-! ## The format -/

/-- An array, with its length before it and `ending` after it. -/
def encodeArray (arr : List (BitVec 8)) : List (BitVec 8) :=
  wordBytes (BitVec.ofNat 32 arr.length) ++ arr ++ ending

/-- The file of these arrays. -/
def encode (arrs : List (List (BitVec 8))) : List (BitVec 8) :=
  magic ++ wordBytes (BitVec.ofNat 32 arrs.length) ++ arrs.flatMap encodeArray

/-! ## The heap during a call -/

/-- The heap gives the object and the two arrays of a file of `n`; the arrays are at `lengths` and
    `subArrs`. -/
def Allocates (src : Fin 3 → PageSupply) (n : BitVec 32) (m : KMem) (lengths subArrs : Nat)
    (m' : KMem) : Prop :=
  ∃ a m₀ m₁, allocImpl sizeofArrFile (src 0) m = (some a, m₀) ∧
    allocImpl (arraySize n) (src 1) m₀ = (some lengths, m₁) ∧
    allocImpl (arraySize n) (src 2) m₁ = (some subArrs, m')

/-- The heap takes the two arrays back. -/
def Frees (m : KMem) (lengths subArrs : Nat) (m' : KMem) : Prop :=
  ∃ m₁, freeImpl lengths m = (true, m₁) ∧ freeImpl subArrs m₁ = (true, m')

/-- The heap has room for a file of `n`. -/
def HasRoom (src : Fin 3 → PageSupply) (n : BitVec 32) (m : KMem) : Prop :=
  ∃ lengths subArrs m', Allocates src n m lengths subArrs m'

end ArrFile

/-! ## Reading what is there

  Of a byte that may be read, reading gives it.  A comparison stops at the first byte that
  differs, so it needs no byte beyond that one. -/

section Reading

variable {mem : Memory 32} {ptr : BitVec 32} {w : BitVec 32} {pat : List (BitVec 8)}

/-- A byte is read if it is there. -/
theorem readByte_ok {b : BitVec 8} : readByte mem ptr = .ok b ↔ mem ptr = some b := by
  unfold readByte
  cases mem ptr with
  | some c => simp
  | none => simp

/-- The four bytes of a word. -/
theorem wordBytes_eq {b0 b1 b2 b3 : BitVec 8} :
    wordBytes w = [b0, b1, b2, b3] ↔ b3 ++ b2 ++ b1 ++ b0 = w := by
  constructor
  · intro h
    simp only [wordBytes, List.cons.injEq, and_true] at h
    obtain ⟨rfl, rfl, rfl, rfl⟩ := h
    rw [BitVec.extractLsb'_append_extractLsb'_eq_extractLsb' (rfl : 24 = 16 + 8),
      BitVec.extractLsb'_append_extractLsb'_eq_extractLsb' (rfl : 16 = 8 + 8),
      BitVec.extractLsb'_append_extractLsb'_eq_extractLsb' (rfl : 8 = 0 + 8)]
    exact BitVec.extractLsb'_eq_self
  · rintro rfl
    simp only [wordBytes, List.cons.injEq, and_true]
    refine ⟨?_, ?_, ?_, ?_⟩
    · exact BitVec.extractLsb'_append_eq_right
    · rw [BitVec.extractLsb'_append_eq_of_le (by decide)]
      exact BitVec.extractLsb'_append_eq_right
    · rw [BitVec.extractLsb'_append_eq_of_le (by decide),
        BitVec.extractLsb'_append_eq_of_le (by decide)]
      exact BitVec.extractLsb'_append_eq_right
    · rw [BitVec.extractLsb'_append_eq_of_le (by decide),
        BitVec.extractLsb'_append_eq_of_le (by decide)]
      exact BitVec.extractLsb'_append_eq_left

/-- A word is read if its four bytes are there. -/
theorem readWord_ok : readWord mem ptr = .ok w ↔ At mem ptr (wordBytes w) := by
  simp only [readWord, Checked.bind_eq_ok, readByte_ok]
  constructor
  · rintro ⟨b0, h0, b1, h1, b2, h2, b3, h3, hw⟩
    rw [wordBytes_eq.mpr (Except.ok.inj hw)]
    exact ⟨h0, h1, h2, h3, trivial⟩
  · rintro ⟨h0, h1, h2, h3, -⟩
    exact ⟨_, h0, _, h1, _, h2, _, h3, congrArg Except.ok (wordBytes_eq.mp rfl)⟩

/-- A comparison finds no difference where the characters are. -/
theorem strncmpAt_same (h : At mem ptr pat) : strncmpAt mem pat ptr = .ok 0 := by
  induction pat generalizing ptr with
  | nil => rfl
  | cons c pat ih =>
    obtain ⟨hc, hrest⟩ := h
    rw [strncmpAt, readByte_ok.mpr hc, Checked.ok_bind]
    split
    · exact congrArg Except.ok (BitVec.sub_self _)
    · exact ih hrest

/-- A comparison with a string finds the difference that there is. -/
theorem strncmpAt_differs (hnul : (0 : BitVec 8) ∉ pat) (h : Differs mem ptr pat) :
    ∃ r, r ≠ 0 ∧ strncmpAt mem pat ptr = .ok r := by
  induction pat generalizing ptr with
  | nil => exact absurd h id
  | cons c pat ih =>
    rw [strncmpAt]
    rcases h with ⟨b, hb, hne⟩ | ⟨hc, hrest⟩
    · rw [readByte_ok.mpr hb, Checked.ok_bind, if_pos (Or.inl hne.symm)]
      exact ⟨_, fun hzero => hne (signExtend_sub_eq_zero.mp hzero).symm, rfl⟩
    · rw [readByte_ok.mpr hc, Checked.ok_bind, if_neg]
      · exact ih (fun hmem => hnul (List.mem_cons_of_mem c hmem)) hrest
      · rintro (hne | rfl)
        · exact hne rfl
        · exact hnul List.mem_cons_self

/-- A comparison that comes to an end has seen enough. -/
theorem strncmpAt_ok (hnul : (0 : BitVec 8) ∉ pat) {r : BitVec 32}
    (h : strncmpAt mem pat ptr = .ok r) :
    (r = 0 ∧ At mem ptr pat) ∨ (r ≠ 0 ∧ Differs mem ptr pat) := by
  induction pat generalizing ptr with
  | nil => exact Or.inl ⟨(Except.ok.inj h).symm, trivial⟩
  | cons c pat ih =>
    obtain ⟨b, hb, hr⟩ := Checked.bind_eq_ok.mp h
    rw [readByte_ok] at hb
    have hc : c ≠ 0 := fun hzero => hnul (hzero ▸ List.mem_cons_self)
    split at hr
    · next hstop =>
      have hne : c ≠ b := hstop.resolve_right hc
      refine Or.inr ⟨?_, Or.inl ⟨b, hb, hne.symm⟩⟩
      rw [← Except.ok.inj hr]
      exact fun hzero => hne (signExtend_sub_eq_zero.mp hzero)
    · next hgo =>
      obtain rfl : c = b := not_not.mp fun hne => hgo (Or.inl hne)
      rcases ih (fun hmem => hnul (List.mem_cons_of_mem c hmem)) hr with
        ⟨hzero, hat⟩ | ⟨hne, hdiffers⟩
      · exact Or.inl ⟨hzero, hb, hat⟩
      · exact Or.inr ⟨hne, Or.inr ⟨hb, hdiffers⟩⟩

end Reading

namespace ArrFile

variable {mem : Memory 32} {ptr len : BitVec 32} {obj obj' : ArrFile} {left : Nat}

/-! ## The loop

  The records lie one behind another, each as long as it says, so where one begins depends on all
  before it.  `Parsed` and `Rejected` follow them without saying what is in between; the loop
  does the one or the other, by induction on the records left (`readSubArrs_some`,
  `readSubArrs_none`). -/

/-- What the loop stores for the records from `ptr` on: lengths and pointers. -/
inductive Parsed (mem : Memory 32) : BitVec 32 → List (BitVec 32 × BitVec 32) → Prop
  | nil {ptr : BitVec 32} : Parsed mem ptr []
  | cons {ptr len : BitVec 32} {es : List (BitVec 32 × BitVec 32)} : At mem ptr (wordBytes len) →
      At mem (ptr + 4 + len) ending → Parsed mem (ptr + 4 + len + 2) es →
      Parsed mem ptr ((len, if len = 0 then 0 else ptr + 4) :: es)

/-- The loop comes, within what may be read, to one of `left` records that does not end in
    `ending`. -/
inductive Rejected (mem : Memory 32) : BitVec 32 → Nat → Prop
  | here {ptr len : BitVec 32} {left : Nat} : At mem ptr (wordBytes len) →
      Differs mem (ptr + 4 + len) ending → Rejected mem ptr (left + 1)
  | later {ptr len : BitVec 32} {left : Nat} : At mem ptr (wordBytes len) →
      At mem (ptr + 4 + len) ending → Rejected mem (ptr + 4 + len + 2) left →
      Rejected mem ptr (left + 1)

/-- An object with these entries more. -/
def store (obj : ArrFile) (es : List (BitVec 32 × BitVec 32)) : ArrFile :=
  { obj with
    _subArrLength := obj._subArrLength ++ es.map Prod.fst
    _subArr := obj._subArr ++ es.map Prod.snd }

/-- Nothing is stored, -/
theorem store_nil : obj.store [] = obj := by
  rw [store, List.map_nil, List.map_nil, List.append_nil, List.append_nil]

/-- or one entry after the other. -/
theorem store_cons {e : BitVec 32 × BitVec 32} {es : List (BitVec 32 × BitVec 32)} :
    obj.store (e :: es) = (obj.store [e]).store es := by
  simp [store]

/-- A file of zeros ends no array -/
theorem zero_not_ending : (0 : BitVec 8) ∉ ending := by decide

/-- and begins no file. -/
theorem zero_not_magic : (0 : BitVec 8) ∉ magic := by decide

/-- One round of the loop. -/
theorem readSubArrs_succ {r : Option ArrFile} :
    readSubArrs mem (left + 1) ptr obj = .ok r ↔ ∃ len, At mem ptr (wordBytes len) ∧
      ((Differs mem (ptr + 4 + len) ending ∧ r = none) ∨
       (At mem (ptr + 4 + len) ending ∧ readSubArrs mem left (ptr + 4 + len + 2)
          (obj.store [(len, if len = 0 then 0 else ptr + 4)]) = .ok r)) := by
  simp only [readSubArrs, Checked.bind_eq_ok, readWord_ok]
  constructor
  · rintro ⟨len, hlen, cmp, hcmp, hr⟩
    refine ⟨len, hlen, ?_⟩
    rcases strncmpAt_ok zero_not_ending hcmp with ⟨rfl, hat⟩ | ⟨hne, hdiffers⟩
    · rw [if_neg (not_not.mpr rfl)] at hr
      exact Or.inr ⟨hat, hr⟩
    · rw [if_pos hne] at hr
      exact Or.inl ⟨hdiffers, (Except.ok.inj hr).symm⟩
  · rintro ⟨len, hlen, ⟨hdiffers, rfl⟩ | ⟨hat, hr⟩⟩
    · obtain ⟨cmp, hne, hcmp⟩ := strncmpAt_differs zero_not_ending hdiffers
      exact ⟨len, hlen, cmp, hcmp, if_pos hne⟩
    · refine ⟨len, hlen, 0, strncmpAt_same hat, ?_⟩
      rw [if_neg (not_not.mpr rfl)]
      exact hr

/-- **The loop accepts** what is parsed. -/
theorem readSubArrs_some : readSubArrs mem left ptr obj = .ok (some obj') ↔
    ∃ es, es.length = left ∧ Parsed mem ptr es ∧ obj' = obj.store es := by
  induction left generalizing ptr obj with
  | zero =>
    constructor
    · intro h
      exact ⟨[], rfl, .nil, store_nil.symm ▸ (Option.some.inj (Except.ok.inj h)).symm⟩
    · rintro ⟨es, hes, -, rfl⟩
      rw [List.length_eq_zero_iff.mp hes, store_nil]
      rfl
  | succ left ih =>
    rw [readSubArrs_succ]
    constructor
    · rintro ⟨len, hlen, ⟨-, hnone⟩ | ⟨hat, hrest⟩⟩
      · cases hnone
      · obtain ⟨es, rfl, hparsed, rfl⟩ := ih.mp hrest
        exact ⟨_, rfl, .cons hlen hat hparsed, store_cons.symm⟩
    · rintro ⟨es, hes, hparsed, rfl⟩
      cases hparsed with
      | nil => cases hes
      | cons hlen hat hrest =>
        refine ⟨_, hlen, Or.inr ⟨hat, ih.mpr ⟨_, Nat.succ.inj hes, hrest, store_cons⟩⟩⟩

/-- **The loop rejects** at the first ending that is not there. -/
theorem readSubArrs_none : readSubArrs mem left ptr obj = .ok none ↔ Rejected mem ptr left := by
  induction left generalizing ptr obj with
  | zero => exact ⟨fun h => (nomatch h), fun h => (nomatch h)⟩
  | succ left ih =>
    rw [readSubArrs_succ]
    constructor
    · rintro ⟨len, hlen, ⟨hdiffers, -⟩ | ⟨hat, hrest⟩⟩
      · exact .here hlen hdiffers
      · exact .later hlen hat (ih.mp hrest)
    · intro h
      cases h with
      | here hlen hdiffers => exact ⟨_, hlen, Or.inl ⟨hdiffers, rfl⟩⟩
      | later hlen hat hrest => exact ⟨_, hlen, Or.inr ⟨hat, ih.mpr hrest⟩⟩

/-! ## The whole call

  With a heap that gives the three blocks, `getInstance` is the test of the header and then the
  loop. -/

section Call

variable {src : Fin 3 → PageSupply} {m m' : KMem} {r : Option ArrFile}

/-- `new` succeeds as the allocator does, -/
theorem operatorNew_ok {size addr : Nat} {s : PageSupply} :
    operatorNew size s m = .ok (addr, m') ↔ allocImpl size s m = (some addr, m') := by
  unfold operatorNew
  split
  · next addr' m'' h => rw [h, Except.ok.injEq, Prod.mk.injEq, Prod.mk.injEq, Option.some.injEq]
  · next m'' h => simp [h]

/-- A block that `new` hands out has at most 1 MB. -/
theorem operatorNew_le {size : Nat} {s : PageSupply} {res : Nat × KMem}
    (h : operatorNew size s m = .ok res) :
    size ≤ 1024 * 1024 := by
  have halloc := operatorNew_ok.mp h
  rw [← sizeClass_isSome]
  unfold allocImpl at halloc
  cases hclass : sizeClass size with
  | none =>
    rw [hclass] at halloc
    cases halloc
  | some c => rfl

/-- and `delete` too. -/
theorem operatorDelete_ok {addr : Nat} : operatorDelete addr m = .ok m' ↔
    freeImpl addr m = (true, m') := by
  unfold operatorDelete
  split
  · next m'' h => rw [h, Except.ok.injEq, Prod.mk.injEq, and_iff_right rfl]
  · next m'' h => simp [h]

/-- **How a call returns**: it has seen that the file does not begin with the magic; or the heap had
    room, and the loop accepted or rejected. -/
theorem getInstance_ok : getInstance mem ptr src m = .ok (r, m') ↔
    (Differs mem ptr magic ∧ r = none ∧ m' = m) ∨
    (At mem ptr magic ∧ ∃ n, At mem (ptr + 13) (wordBytes n) ∧ ∃ lengths subArrs m₂,
      Allocates src n m lengths subArrs m₂ ∧
        ((∃ es, es.length = n.toNat ∧ Parsed mem (ptr + 13 + 4) es ∧
         r = some (store ⟨n, [], []⟩ es) ∧ m' = m₂) ∨
         (Rejected mem (ptr + 13 + 4) n.toNat ∧ r = none ∧ Frees m₂ lengths subArrs m'))) := by
  simp only [getInstance, Checked.bind_eq_ok]
  constructor
  · rintro ⟨cmp, hcmp, hr⟩
    rcases strncmpAt_ok zero_not_magic hcmp with ⟨rfl, hat⟩ | ⟨hne, hdiffers⟩
    · rw [if_neg (not_not.mpr rfl)] at hr
      refine Or.inr ⟨hat, ?_⟩
      simp only [Checked.bind_eq_ok, readWord_ok] at hr
      obtain ⟨⟨a, m₀⟩, ha, n, hn, ⟨lengths, m₁⟩, hlengths, ⟨subArrs, m₂⟩, hsubArrs, found,
          hloop, hr⟩ := hr
      refine ⟨n, hn, lengths, subArrs, m₂,
        ⟨a, m₀, m₁, operatorNew_ok.mp ha, operatorNew_ok.mp hlengths, operatorNew_ok.mp hsubArrs⟩,
        ?_⟩
      cases found with
      | some obj =>
        obtain ⟨es, hes, hparsed, rfl⟩ := readSubArrs_some.mp hloop
        obtain ⟨rfl, rfl⟩ := Prod.mk.inj (Except.ok.inj hr)
        exact Or.inl ⟨es, hes, hparsed, rfl, rfl⟩
      | none =>
        simp only [Checked.bind_eq_ok] at hr
        obtain ⟨m₃, hm₃, m₄, hm₄, hr⟩ := hr
        obtain ⟨rfl, rfl⟩ := Prod.mk.inj (Except.ok.inj hr)
        exact Or.inr ⟨readSubArrs_none.mp hloop, rfl, m₃, operatorDelete_ok.mp hm₃,
          operatorDelete_ok.mp hm₄⟩
    · rw [if_pos hne] at hr
      obtain ⟨rfl, rfl⟩ := Prod.mk.inj (Except.ok.inj hr)
      exact Or.inl ⟨hdiffers, rfl, rfl⟩
  · rintro (⟨hdiffers, rfl, rfl⟩ | ⟨hat, n, hn, lengths, subArrs, m₂,
        ⟨a, m₀, m₁, ha, hlengths, hsubArrs⟩, hloop⟩)
    · -- the other way round, the same steps are put together
      obtain ⟨cmp, hne, hcmp⟩ := strncmpAt_differs zero_not_magic hdiffers
      exact ⟨cmp, hcmp, if_pos hne⟩
    · refine ⟨0, strncmpAt_same hat, ?_⟩
      rw [if_neg (not_not.mpr rfl)]
      simp only [Checked.bind_eq_ok, readWord_ok]
      refine ⟨(a, m₀), operatorNew_ok.mpr ha, n, hn, (lengths, m₁), operatorNew_ok.mpr hlengths,
        (subArrs, m₂), operatorNew_ok.mpr hsubArrs, ?_⟩
      rcases hloop with ⟨es, hes, hparsed, rfl, rfl⟩ | ⟨hrejected, rfl, m₃, hm₃, hm₄⟩
      · exact ⟨_, readSubArrs_some.mpr ⟨es, hes, hparsed, rfl⟩, rfl⟩
      · refine ⟨_, readSubArrs_none.mpr hrejected, ?_⟩
        simp only [Checked.bind_eq_ok]
        exact ⟨m₃, operatorDelete_ok.mpr hm₃, m', operatorDelete_ok.mpr hm₄, rfl⟩

end Call

/-! ## The round trip

  The records that `encode` writes are the entries that the loop finds (`parsed_entries`), and
  the pointers lead to where the bytes of the arrays are (`at_array`).  Lengths and addresses are
  words, so all that is added up has to stay below 2^32 (`Holds`). -/

section RoundTrip

variable {arrs : List (List (BitVec 8))} {arr : List (BitVec 8)} {src : Fin 3 → PageSupply}
    {m : KMem}

/-- The bytes are in memory from `ptr` on, and memory does not end before they do. -/
def Holds (mem : Memory 32) (ptr : BitVec 32) (bytes : List (BitVec 8)) : Prop :=
  ptr.toNat + bytes.length ≤ 2 ^ 32 ∧ At mem ptr bytes

/-- Where array `i` begins in the file. -/
def offset (arrs : List (List (BitVec 8))) (i : Nat) : Nat :=
  magic.length + 4 + ((arrs.take i).flatMap encodeArray).length + 4

/-- The object gives the arrays back: those of no bytes as null pointers, the others where they
    are. -/
structure Decodes (mem : Memory 32) (ptr : BitVec 32) (arrs : List (List (BitVec 8)))
    (obj : ArrFile) :
    Prop where
  /-- As many arrays; -/
  length : obj.length.toNat = arrs.length
  /-- each is found at its place in the file, and an empty one at no address; -/
  arrays : ∀ (idx : BitVec 32) arr, arrs[idx.toNat]? = some arr → ∃ p, obj.index idx = .ok p ∧
    (arr = [] → p = 0) ∧
    (arr ≠ [] → p ≠ 0 ∧ p = ptr + BitVec.ofNat 32 (offset arrs idx.toNat) ∧ At mem p arr)
  /-- and there are no others. -/
  beyond : ∀ idx : BitVec 32, arrs.length ≤ idx.toNat → obj.index idx = .ok 0

/-- What the loop stores for these arrays. -/
def entries : BitVec 32 → List (List (BitVec 8)) → List (BitVec 32 × BitVec 32)
  | _, [] => []
  | ptr, arr :: arrs =>
    (BitVec.ofNat 32 arr.length, if BitVec.ofNat 32 arr.length = 0 then 0 else ptr + 4) ::
      entries (ptr + BitVec.ofNat 32 (encodeArray arr).length) arrs

@[simp] theorem length_wordBytes (w : BitVec 32) : (wordBytes w).length = 4 := rfl

/-- An array with its length before it and the ending after it. -/
theorem length_encodeArray : (encodeArray arr).length = 4 + arr.length + 2 := by
  rw [encodeArray, List.length_append, List.length_append]
  rfl

@[simp] theorem length_entries : (entries ptr arrs).length = arrs.length := by
  induction arrs generalizing ptr with
  | nil => rfl
  | cons arr arrs ih => rw [entries, List.length_cons, List.length_cons, ih]

/-- The cursor behind an array. -/
theorem next_eq :
    ptr + 4 + BitVec.ofNat 32 arr.length + 2 = ptr + BitVec.ofNat 32 (encodeArray arr).length := by
  rw [length_encodeArray, BitVec.ofNat_add, BitVec.ofNat_add, ← BitVec.add_assoc,
    ← BitVec.add_assoc]
  rfl

/-- It is there if its three parts are. -/
theorem at_encodeArray : At mem ptr (encodeArray arr) ↔
    At mem ptr (wordBytes (BitVec.ofNat 32 arr.length)) ∧ At mem (ptr + 4) arr ∧
    At mem (ptr + 4 + BitVec.ofNat 32 arr.length) ending := by
  rw [encodeArray, List.append_assoc, at_append, at_append]
  rfl

/-- The loop finds the arrays that are there. -/
theorem parsed_entries (h : At mem ptr (arrs.flatMap encodeArray)) :
    Parsed mem ptr (entries ptr arrs) := by
  induction arrs generalizing ptr with
  | nil => exact .nil
  | cons arr arrs ih =>
    rw [List.flatMap_cons, at_append] at h
    obtain ⟨hword, -, hending⟩ := at_encodeArray.mp h.1
    refine .cons hword hending ?_
    rw [next_eq]
    exact ih h.2

/-- Entry `i` is the length and the place of array `i`. -/
theorem getElem?_entries {i : Nat} (harr : arrs[i]? = some arr) :
    (entries ptr arrs)[i]? =
      some (BitVec.ofNat 32 arr.length, if BitVec.ofNat 32 arr.length = 0 then 0
      else ptr + BitVec.ofNat 32 ((arrs.take i).flatMap encodeArray).length + 4) := by
  induction arrs generalizing ptr i with
  | nil => cases harr
  | cons arr' arrs ih =>
    cases i with
    | zero =>
      obtain rfl := Option.some.inj harr
      rw [entries, List.getElem?_cons_zero, List.take_zero, List.flatMap_nil, List.length_nil,
        show BitVec.ofNat 32 0 = 0#32 from rfl, BitVec.add_zero]
    | succ i =>
      rw [entries, List.getElem?_cons_succ, ih harr, List.take_succ_cons, List.flatMap_cons,
        List.length_append, BitVec.ofNat_add, BitVec.add_assoc ptr]

/-- The file around array `i`. -/
theorem flatMap_split {i : Nat} (harr : arrs[i]? = some arr) : arrs.flatMap encodeArray =
    (arrs.take i).flatMap encodeArray ++
      (encodeArray arr ++ (arrs.drop (i + 1)).flatMap encodeArray) := by
  obtain ⟨hi, rfl⟩ := List.getElem?_eq_some_iff.mp harr
  rw [← List.flatMap_cons, ← List.drop_eq_getElem_cons hi, ← List.flatMap_append,
    List.take_append_drop]

/-- Array `i` is at its offset. -/
theorem at_array {i : Nat} (h : At mem ptr (arrs.flatMap encodeArray))
    (harr : arrs[i]? = some arr) :
    At mem (ptr + BitVec.ofNat 32 ((arrs.take i).flatMap encodeArray).length + 4) arr := by
  rw [flatMap_split harr, at_append, at_append] at h
  exact (at_encodeArray.mp h.2.1).2.1

/-- The length of a file. -/
theorem length_encode :
    (encode arrs).length = magic.length + 4 + (arrs.flatMap encodeArray).length := by
  rw [encode, List.length_append, List.length_append]
  rfl

/-- Every array ends within it. -/
theorem offset_add_le {i : Nat} (harr : arrs[i]? = some arr) :
    offset arrs i + arr.length + 2 ≤ (encode arrs).length := by
  rw [offset, length_encode, flatMap_split harr, List.length_append, List.length_append,
    length_encodeArray]
  omega

/-- A file has more bytes than arrays. -/
theorem length_lt_encode : arrs.length < (encode arrs).length := by
  have hle : arrs.length ≤ (arrs.flatMap encodeArray).length := by
    induction arrs with
    | nil => exact Nat.le_refl 0
    | cons arr arrs ih =>
      rw [List.flatMap_cons, List.length_append, List.length_cons, length_encodeArray]
      omega
  rw [length_encode]
  exact Nat.lt_of_le_of_lt hle (Nat.lt_add_of_pos_left (by decide))

/-- The three parts of a file that is there. -/
theorem at_encode (h : At mem ptr (encode arrs)) : At mem ptr magic ∧
    At mem (ptr + 13) (wordBytes (BitVec.ofNat 32 arrs.length)) ∧
    At mem (ptr + 13 + 4) (arrs.flatMap encodeArray) := by
  rw [encode, List.append_assoc, at_append, at_append] at h
  exact h

/-- The object `getInstance` makes of these arrays. -/
def decoded (ptr : BitVec 32) (arrs : List (List (BitVec 8))) : ArrFile :=
  store ⟨BitVec.ofNat 32 arrs.length, [], []⟩ (entries (ptr + 13 + 4) arrs)

/-- The `i`-th address is that of the `i`-th array. -/
theorem getElem?_decoded {i : Nat} :
    (decoded ptr arrs)._subArr[i]? = ((entries (ptr + 13 + 4) arrs)[i]?).map Prod.snd := by
  exact List.getElem?_map

/-- What is parsed is in memory. -/
theorem parsed_unique {es es' : List (BitVec 32 × BitVec 32)} (h : Parsed mem ptr es)
    (h' : Parsed mem ptr es') (hlen : es.length = es'.length) : es = es' := by
  induction h generalizing es' with
  | nil => exact (List.length_eq_zero_iff.mp hlen.symm).symm
  | cons hword _ _ ih =>
    cases h' with
    | nil => cases hlen
    | cons hword' _ hrest =>
      obtain rfl := Except.ok.inj ((readWord_ok.mpr hword).symm.trans (readWord_ok.mpr hword'))
      rw [ih hrest (Nat.succ.inj hlen)]

/-- The number of arrays fits a word, since the file fits the memory. -/
theorem length_toNat (h : Holds mem ptr (encode arrs)) :
    (BitVec.ofNat 32 arrs.length).toNat = arrs.length := by
  have hlt := @length_lt_encode arrs
  have hfits := h.1
  rw [BitVec.toNat_ofNat, Nat.mod_eq_of_lt (by omega)]

/-- **A file that is there is read**, as long as there is room for its object. -/
theorem getInstance_encode (h : Holds mem ptr (encode arrs)) {obj : ArrFile} {m' : KMem} :
    getInstance mem ptr src m = .ok (some obj, m') ↔ obj = decoded ptr arrs ∧
      ∃ lengths subArrs, Allocates src (BitVec.ofNat 32 arrs.length) m lengths subArrs m' := by
  obtain ⟨hmagic, hlength, harrays⟩ := at_encode h.2
  have hparsed := parsed_entries harrays
  rw [getInstance_ok]
  constructor
  · rintro (⟨-, hnone, -⟩ | ⟨-, n, hn, lengths, subArrs, m₂, halloc, hloop⟩)
    · cases hnone
    · obtain rfl : n = BitVec.ofNat 32 arrs.length :=
        Except.ok.inj ((readWord_ok.mpr hn).symm.trans (readWord_ok.mpr hlength))
      rcases hloop with ⟨es, hes, hparsed', hobj, rfl⟩ | ⟨-, hnone, -⟩
      · rw [length_toNat h] at hes
        obtain rfl : es = entries (ptr + 13 + 4) arrs :=
          parsed_unique hparsed' hparsed (by rw [hes, length_entries])
        exact ⟨Option.some.inj hobj, lengths, subArrs, halloc⟩
      · cases hnone
  · rintro ⟨rfl, lengths, subArrs, halloc⟩
    refine Or.inr ⟨hmagic, _, hlength, lengths, subArrs, m', halloc,
      Or.inl ⟨_, ?_, hparsed, rfl, rfl⟩⟩
    rw [length_entries, length_toNat h]

/-- The address of array `i`. -/
theorem address_eq {i : Nat} :
    ptr + 13 + 4 + BitVec.ofNat 32 ((arrs.take i).flatMap encodeArray).length + 4 =
    ptr + BitVec.ofNat 32 (offset arrs i) := by
  rw [offset, BitVec.ofNat_add, BitVec.ofNat_add, BitVec.ofNat_add, ← BitVec.add_assoc,
    ← BitVec.add_assoc, ← BitVec.add_assoc]
  rfl

/-- The last index of an object that has one. -/
theorem toNat_last (h : Holds mem ptr (encode arrs)) (hne : arrs ≠ []) :
    (BitVec.ofNat 32 arrs.length - 1).toNat = arrs.length - 1 := by
  have hcount := length_toNat h
  have hpos : 0 < arrs.length := List.length_pos_iff.mpr hne
  rw [BitVec.toNat_sub_of_le, hcount]
  · rfl
  · rw [BitVec.le_def, hcount]
    exact hpos

/-- The pointer to array `idx`. -/
theorem index_decoded (h : Holds mem ptr (encode arrs)) (hne : arrs ≠ []) {idx : BitVec 32}
    {arr : List (BitVec 8)} (harr : arrs[idx.toNat]? = some arr) :
    (decoded ptr arrs).index idx = .ok (if BitVec.ofNat 32 arr.length = 0 then 0
      else ptr + BitVec.ofNat 32 (offset arrs idx.toNat)) := by
  have hi : idx.toNat < arrs.length := (List.getElem?_eq_some_iff.mp harr).1
  have hsub := @getElem?_decoded ptr arrs idx.toNat
  rw [getElem?_entries harr, address_eq] at hsub
  have hin : ¬ (decoded ptr arrs)._length - 1 < idx := by
    show ¬ BitVec.ofNat 32 arrs.length - 1 < idx
    rw [BitVec.lt_def, toNat_last h hne]
    omega
  rw [index, if_neg hin, hsub]
  rfl

/-- The file ends before the address space does, so no pointer into it has wrapped around. -/
theorem pointer_ne_zero (h : Holds mem ptr (encode arrs)) {i : Nat} {arr : List (BitVec 8)}
    (harr : arrs[i]? = some arr) (hbytes : 0 < arr.length) :
    ptr + BitVec.ofNat 32 (offset arrs i) ≠ 0 := by
  intro hzero
  have hle := offset_add_le harr
  have hfits := h.1
  have htoNat := congrArg BitVec.toNat hzero
  have hoff : 0 < offset arrs i := Nat.succ_pos _
  rw [BitVec.toNat_add, BitVec.toNat_ofNat, Nat.mod_eq_of_lt (a := offset arrs i) (by omega),
    Nat.mod_eq_of_lt (by omega)] at htoNat
  have hzero' : ptr.toNat + offset arrs i = 0 := htoNat
  omega

/-- The object of some arrays gives them back. -/
theorem decodes_decoded (h : Holds mem ptr (encode arrs)) (hne : arrs ≠ []) :
    Decodes mem ptr arrs (decoded ptr arrs) := by
  constructor
  case length => exact length_toNat h
  case arrays =>
    intro idx arr harr
    refine ⟨_, index_decoded h hne harr, ?_, fun hbytes => ?_⟩
    · rintro rfl
      exact if_pos rfl
    · have hlen : 0 < arr.length := List.length_pos_iff.mpr hbytes
      have hnonzero : BitVec.ofNat 32 arr.length ≠ 0 := by
        intro hzero
        have hle := offset_add_le harr
        have hfits := h.1
        have htoNat := congrArg BitVec.toNat hzero
        rw [BitVec.toNat_ofNat, Nat.mod_eq_of_lt (by omega)] at htoNat
        exact absurd htoNat (Nat.ne_of_gt hlen)
      rw [if_neg hnonzero]
      refine ⟨pointer_ne_zero h harr hlen, rfl, ?_⟩
      rw [← address_eq]
      exact at_array (at_encode h.2).2.2 harr
  case beyond =>
    intro idx hidx
    rw [index, if_pos]
    show BitVec.ofNat 32 arrs.length - 1 < idx
    rw [BitVec.lt_def, toNat_last h hne]
    have hpos : 0 < arrs.length := List.length_pos_iff.mpr hne
    omega

/-- **A file of arrays gives the arrays back** exactly if there are any, and room for them: of a
    file of no array every index is taken for one. -/
theorem decode_encode_iff (h : Holds mem ptr (encode arrs)) :
    (∃ obj m', getInstance mem ptr src m = .ok (some obj, m') ∧ Decodes mem ptr arrs obj) ↔
      arrs ≠ [] ∧ HasRoom src (BitVec.ofNat 32 arrs.length) m := by
  constructor
  · rintro ⟨obj, m', hobj, hdecodes⟩
    obtain ⟨rfl, hroom⟩ := (getInstance_encode h).mp hobj
    refine ⟨?_, ?_⟩
    · rintro rfl
      have hindex := hdecodes.beyond 0 (Nat.zero_le _)
      cases hindex
    · obtain ⟨lengths, subArrs, halloc⟩ := hroom
      exact ⟨lengths, subArrs, m', halloc⟩
  · rintro ⟨hne, lengths, subArrs, m', halloc⟩
    exact ⟨_, m', (getInstance_encode h).mpr ⟨rfl, lengths, subArrs, halloc⟩, decodes_decoded h hne⟩

end RoundTrip

/-- A heap whose smallest blocks are three, in one pool. -/
def threeBlocks : KMem where
  heap p := if p = 0xc0000000 then
    some ⟨.b16, ⟨BitSet.new _, ⟨[0xc0200030, 0xc0200040, 0xc0200050], by decide⟩, 3⟩⟩ else none
  slots c := if c = .b16 then ⟨[0xc0000000], by decide⟩ else Stack.new _ _
  totalNumPools := 1

/-- No page is to be had. -/
def noPages : Fin 3 → PageSupply := fun _ => ⟨none, none, false⟩

/-- Three blocks are enough for the object and its two arrays. -/
theorem hasRoom_threeBlocks {n : BitVec 32} (h : n = 0 ∨ n = 1) :
    HasRoom noPages n threeBlocks := by
  rcases h with rfl | rfl
  · exact ⟨_, _, _, _, _, _, rfl, rfl, rfl⟩
  · exact ⟨_, _, _, _, _, _, rfl, rfl, rfl⟩

/-- A short file, in memory at one megabyte. -/
theorem holds_buffer {bytes : List (BitVec 8)} (h : bytes.length < 0x1000) :
    Holds (buffer 0x100000 bytes) 0x100000 bytes := by
  have hfits : (0x100000 : BitVec 32).toNat + bytes.length < 2 ^ 32 := by
    show 0x100000 + bytes.length < 2 ^ 32
    omega
  exact ⟨Nat.le_of_lt hfits, buffer_self hfits⟩

/-- The file of one array of one byte. -/
theorem decode_encode_iff_one : ∃ obj m',
    getInstance (buffer 0x100000 (encode [[0x11]])) 0x100000 noPages threeBlocks =
      .ok (some obj, m') ∧ Decodes (buffer 0x100000 (encode [[0x11]])) 0x100000 [[0x11]] obj :=
  (decode_encode_iff (holds_buffer (by decide))).mpr ⟨by decide, hasRoom_threeBlocks (Or.inr rfl)⟩

/-- In the file of no array, index 0 is taken for one. -/
theorem decode_encode_empty :
    ¬ ∀ (mem : Memory 32) (ptr : BitVec 32) (arrs : List (List (BitVec 8)))
    (src : Fin 3 → PageSupply) (m : KMem), Holds mem ptr (encode arrs) →
    HasRoom src (BitVec.ofNat 32 arrs.length) m →
    ∃ obj m', getInstance mem ptr src m = .ok (some obj, m') ∧ Decodes mem ptr arrs obj := by
  intro hall
  have hholds : Holds (buffer 0x100000 (encode [])) 0x100000 (encode []) := holds_buffer (by decide)
  obtain ⟨obj, m', hobj, hdecodes⟩ :=
    hall _ _ [] noPages threeBlocks hholds (hasRoom_threeBlocks (Or.inl rfl))
  obtain ⟨rfl, -⟩ := (getInstance_encode hholds).mp hobj
  have hindex := hdecodes.beyond 0 (Nat.zero_le _)
  cases hindex

end ArrFile

end TedkOS.Klibs
