/-
  `ringbuf_t` (klibs/ringbuf.cpp, inc/klibs/ringbuf.h): a buffer of at most `RINGBUF_SIZE` items, in
  which a push drops the oldest item if there is no room.

  1. **Program** — the macro and the functions.  The members are `int32_t` and their arithmetic
     wraps; `data` is an array of bytes to the functions, whatever the items are.  An access outside
     the `RINGBUF_SIZE` items has the outcome `none`.

  2. **Layout** — `Laid N ts buf front l`: the buffer holds the items `l` from slot `front` on.
     Full and empty both have `tail` at `front`; `head` is -1 if there are no items.

  3. **Refinement** — in every run the buffer is the list, if there are at most 2^30 items.  Beyond,
     `tail + RINGBUF_SIZE - 1` does not fit an `int32_t` (`ringbuf_refines_iff`).

  A push into a full buffer moves `front` on by one slot and writes where the oldest item was, so
  the items are still one behind the other; the layout says so for both cases, and `Laid` is kept
  by every call (`Ring` has the arithmetic of the slots).
-/
import TedkOS.Lib.Ring
import TedkOS.Lib.Runs
import TedkOS.Klibs.Lib

namespace TedkOS.Klibs

/-! ## Program -/

/-- A result of `int32_t` arithmetic. -/
def int32_t (n : Int) : Int := (n + 0x80000000) % 0x100000000 - 0x80000000

/-- The bytes of an item. -/
abbrev Item := List (BitVec 8)

/-- `ringbuf_t`; the sizes are those the macro was used with. -/
structure Ringbuf where
  _macro_ringbuf_size : Int
  _macro_ringbuf_type_size : Int
  /-- The slot of the oldest item, or -1. -/
  head : Int
  /-- The slot behind the newest one. -/
  tail : Int
  len : Int
  /-- The slots, as bytes. -/
  data : Nat → BitVec 8

namespace Ringbuf

/-- `RINGBUF_INIT`; `data` is what the memory contained. -/
def RINGBUF_INIT (RINGBUF_SIZE sizeof_RINGBUF_TYPE : Nat) (data : Nat → BitVec 8) : Ringbuf where
  _macro_ringbuf_size := RINGBUF_SIZE
  _macro_ringbuf_type_size := sizeof_RINGBUF_TYPE
  head := -1
  tail := 0
  len := 0
  data := data

/-- `index * buf->_macro_ringbuf_type_size`. -/
def offset (buf : Ringbuf) (index : Int) : Int := int32_t (index * buf._macro_ringbuf_type_size)

/-- The item at `buf->data + off` lies within `data`. -/
def within (buf : Ringbuf) (off : Int) : Option Nat :=
  if 0 ≤ off ∧
    off + buf._macro_ringbuf_type_size ≤ buf._macro_ringbuf_size * buf._macro_ringbuf_type_size then
    some off.toNat
  else none

/-- `memcpy(result, buf->data + off, buf->_macro_ringbuf_type_size)`. -/
def load (buf : Ringbuf) (off : Int) : Option Item := do
  let i ← buf.within off
  some (bytesFrom buf.data i buf._macro_ringbuf_type_size.toNat)

/-- `memcpy(buf->data + off, item, buf->_macro_ringbuf_type_size)`. -/
def store (buf : Ringbuf) (off : Int) (item : Item) : Option Ringbuf := do
  let i ← buf.within off
  some { buf with
    data := contents buf.data (memcpy i (item.take buf._macro_ringbuf_type_size.toNat)) }

def ringbuf_length (buf : Ringbuf) : Int := buf.len

def ringbuf_is_empty (buf : Ringbuf) : Bool := buf.head == -1

/-- What `ringbuf_push` does before it copies the item. -/
def makeRoom (buf : Ringbuf) : Ringbuf :=
  if buf.head = -1 then { buf with head := buf.tail }
  else if buf.tail = buf.head then
    { buf with
      head := (int32_t (buf.head + 1)).tmod buf._macro_ringbuf_size
      len := int32_t (buf.len - 1) }
  else buf

/-- `ringbuf_push(buf, item)`: into a full buffer at the place of the oldest item. -/
def ringbuf_push (buf : Ringbuf) (item : Item) : Option Ringbuf := do
  let buf := buf.makeRoom
  let buf ← buf.store (buf.offset buf.tail) item
  some { buf with
    tail := (int32_t (buf.tail + 1)).tmod buf._macro_ringbuf_size
    len := int32_t (buf.len + 1) }

/-- The item copied to `result`; `none` if -1 is returned. -/
def ringbuf_front (buf : Ringbuf) : Option (Option Item) :=
  if buf.head = -1 then some none else (buf.load (buf.offset buf.head)).map some

/-- The offset of the pointer in `data`; `none` if `NULL` is returned. -/
def ringbuf_front_nocp (buf : Ringbuf) : Option Int :=
  if buf.head = -1 then none else some (buf.offset buf.head)

/-- `if(buf->len==0) buf->head = -1;`. -/
def noteEmpty (buf : Ringbuf) : Ringbuf := if buf.len = 0 then { buf with head := -1 } else buf

/-- `ringbuf_pop_front(buf)`. -/
def ringbuf_pop_front (buf : Ringbuf) : Ringbuf :=
  if buf.head = -1 then buf
  else
    { buf with
      head := (int32_t (buf.head + 1)).tmod buf._macro_ringbuf_size
      len := int32_t (buf.len - 1) }.noteEmpty

/-- `(buf->tail + buf->_macro_ringbuf_size - 1) % buf->_macro_ringbuf_size`. -/
def endSlot (buf : Ringbuf) : Int :=
  (int32_t (int32_t (buf.tail + buf._macro_ringbuf_size) - 1)).tmod buf._macro_ringbuf_size

/-- The item copied to `result`; `none` if -1 is returned. -/
def ringbuf_back (buf : Ringbuf) : Option (Option Item) :=
  if buf.head = -1 then some none else (buf.load (buf.offset buf.endSlot)).map some

/-- The offset of the pointer in `data`; `none` if `NULL` is returned. -/
def ringbuf_back_nocp (buf : Ringbuf) : Option Int :=
  if buf.head = -1 then none else some (buf.offset buf.endSlot)

/-- `ringbuf_pop_back(buf)`. -/
def ringbuf_pop_back (buf : Ringbuf) : Ringbuf :=
  if buf.head = -1 then buf
  else { buf with tail := buf.endSlot, len := int32_t (buf.len - 1) }.noteEmpty

/-! ## Layout

  Items are stretches of `ts` bytes, and item `i` of the list is in slot `(front + i) % N`.  The
  layout says where the members point and what the slots hold; what the rest of `data` holds it
  leaves open. -/

/-- The item in slot `i`, when items have `ts` bytes. -/
def cell (data : Nat → BitVec 8) (ts i : Nat) : Item := bytesFrom data (i * ts) ts

/-- The items `l` stand in the slots from `front` on; nothing is said about `head`. -/
structure Filled (N ts : Nat) (buf : Ringbuf) (front : Nat) (l : List Item) : Prop where
  /-- The sizes are those of the macro. -/
  size : buf._macro_ringbuf_size = N
  type_size : buf._macro_ringbuf_type_size = ts
  /-- `tail` is behind the last item, -/
  tail : buf.tail = Ring.slot N front l.length
  /-- `len` counts them, -/
  len : buf.len = l.length
  /-- the first is in the array, -/
  front_lt : front < N
  /-- there is room for all, -/
  room : l.length ≤ N
  /-- and the `i`-th stands `i` slots on. -/
  holds : Ring.Holds (cell buf.data ts) N front l

/-- The buffer holds the items `l` from slot `front` on. -/
structure Laid (N ts : Nat) (buf : Ringbuf) (front : Nat) (l : List Item) : Prop
    extends Filled N ts buf front l where
  head : buf.head = if l = [] then -1 else (front : Int)

section Layout

variable {N ts front i : Nat} {buf : Ringbuf} {l : List Item} {item x : Item}
    {data : Nat → BitVec 8}

/-! ### `int32_t` arithmetic -/

/-- What fits an `int32_t` is not changed. -/
theorem int32_t_of_lt {n : Int} (hlo : -0x80000000 ≤ n) (hhi : n < 0x80000000) : int32_t n = n := by
  rw [int32_t]
  omega

/-- `%` of a sum that fits. -/
theorem tmod_size (hi : i < 0x80000000) : (int32_t i).tmod (N : Int) = (i % N : Nat) := by
  rw [int32_t_of_lt (by omega) (by omega), ← Int.ofNat_tmod]

/-! ### Slots and bytes

  Two slots have no byte in common, so a store into one of them keeps the items in the others. -/

/-- A slot lies within `data`. -/
theorem slot_end_le (ts : Nat) (hi : i < N) : i * ts + ts ≤ N * ts := by
  rw [← Nat.succ_mul]
  exact Nat.mul_le_mul_right ts hi

/-- A slot of the array is inside `data`, -/
theorem within_offset (hsize : buf._macro_ringbuf_size = N)
    (htype : buf._macro_ringbuf_type_size = ts) (hfit : N * ts < 0x80000000) (hi : i < N) :
    buf.within (buf.offset i) = some (i * ts) := by
  have hend := slot_end_le ts hi
  have hoff : buf.offset i = (i * ts : Nat) := by
    rw [offset, htype, Int.natCast_mul]
    exact int32_t_of_lt (by rw [← Int.natCast_mul]; omega) (by rw [← Int.natCast_mul]; omega)
  rw [within, hoff, hsize, htype, ← Int.natCast_mul, if_pos (by omega), Int.toNat_natCast]

/-- and so its item is loaded. -/
theorem load_offset (hsize : buf._macro_ringbuf_size = N)
    (htype : buf._macro_ringbuf_type_size = ts) (hfit : N * ts < 0x80000000) (hi : i < N) :
    buf.load (buf.offset i) = some (cell buf.data ts i) := by
  rw [load, within_offset hsize htype hfit hi, htype, Int.toNat_natCast]
  rfl

/-- Copying an item into a slot fills that slot and no other. -/
theorem cell_memcpy (hitem : item.length = ts) :
    cell (contents data (memcpy (i * ts) item)) ts = Function.update (cell data ts) i item := by
  funext j
  apply List.ext_getElem
  · by_cases hji : j = i
    · rw [hji, Function.update_self, cell, length_bytesFrom, hitem]
    · rw [Function.update_of_ne hji, cell, cell, length_bytesFrom, length_bytesFrom]
  · intro k hk hk'
    rw [cell, length_bytesFrom] at hk
    rcases Nat.lt_trichotomy j i with hji | rfl | hij
    · have hend := slot_end_le ts hji
      simp only [Function.update_of_ne (Nat.ne_of_lt hji), cell, bytesFrom, List.getElem_map,
        List.getElem_range]
      exact contents_of_lt _ _ (by omega)
    · simp only [Function.update_self, cell, bytesFrom, List.getElem_map, List.getElem_range]
      exact contents_memcpy _ _ (List.getElem?_eq_getElem (by omega))
    · have hend := slot_end_le ts hij
      simp only [Function.update_of_ne (Nat.ne_of_gt hij), cell, bytesFrom, List.getElem_map,
        List.getElem_range]
      exact contents_beyond _ _ (by omega)

/-! ### The operations

  One lemma for each, with the layout before and after it.  A call on an empty buffer is told
  apart by `head`, not by the number of items. -/

/-- The macro makes an empty buffer. -/
theorem init_laid (data : Nat → BitVec 8) (hN : 0 < N) :
    Laid N ts (RINGBUF_INIT N ts data) 0 [] where
  size := rfl
  type_size := rfl
  tail := by
    rw [List.length_nil, Ring.slot_zero hN]
    rfl
  len := rfl
  front_lt := hN
  room := Nat.zero_le N
  holds := Ring.Holds.nil
  head := rfl

namespace Filled

/-- What is in the `i`-th slot from `front` on. -/
theorem load_slot (h : Filled N ts buf front l) (hfit : N * ts < 0x80000000) (hx : l[i]? = some x) :
    buf.load (buf.offset (Ring.slot N front i : Nat)) = some x := by
  have hpos := h.front_lt
  rw [load_offset h.size h.type_size hfit (Ring.slot_lt (by omega)), h.holds i x hx]

/-- The oldest item leaves. -/
theorem dropFirst (h : Filled N ts buf front (x :: l)) (hN : N < 0x80000000) {head : Int} :
    Filled N ts { buf with head := head, len := int32_t (buf.len - 1) } ((front + 1) % N) l := by
  have hroom := h.room
  rw [List.length_cons] at hroom
  constructor
  case size => exact h.size
  case type_size => exact h.type_size
  case tail =>
    show buf.tail = _
    rw [h.tail, List.length_cons, Ring.slot_next]
  case len =>
    show int32_t (buf.len - 1) = l.length
    rw [h.len, List.length_cons, int32_t_of_lt (by omega) (by omega)]
    omega
  case front_lt => exact Nat.mod_lt _ (by omega)
  case room => omega
  case holds => exact h.holds.tail

/-- The newest item leaves. -/
theorem dropLast (h : Filled N ts buf front (l ++ [x])) (hN : N < 0x80000000) {tail : Int}
    (htail : tail = (Ring.slot N front l.length : Nat)) :
    Filled N ts { buf with tail := tail, len := int32_t (buf.len - 1) } front l := by
  have hroom := h.room
  rw [List.length_append, List.length_singleton] at hroom
  constructor
  case size => exact h.size
  case type_size => exact h.type_size
  case tail => exact htail
  case len =>
    show int32_t (buf.len - 1) = l.length
    rw [h.len, List.length_append, List.length_singleton, int32_t_of_lt (by omega) (by omega)]
    omega
  case front_lt => exact h.front_lt
  case room => omega
  case holds => exact h.holds.init

/-- An item is copied in where there is room. -/
theorem copyIn (h : Filled N ts buf front l) (hfit : N * ts < 0x80000000) (hN : N < 0x80000000)
    (hitem : item.length = ts) (hroom : l.length < N) :
    ∃ buf', buf.store (buf.offset buf.tail) item = some buf' ∧ buf'.head = buf.head ∧
      Filled N ts { buf' with
        tail := (int32_t (buf'.tail + 1)).tmod buf'._macro_ringbuf_size
        len := int32_t (buf'.len + 1) } front (l ++ [item]) := by
  have hslot : Ring.slot N front l.length < N := Ring.slot_lt (by omega)
  have hstore : buf.store (buf.offset buf.tail) item = some { buf with
      data := contents buf.data (memcpy (Ring.slot N front l.length * ts) item) } := by
    have htake : item.take ts = item := List.take_of_length_le (Nat.le_of_eq hitem)
    rw [store, h.tail, within_offset h.size h.type_size hfit hslot, h.type_size,
      Int.toNat_natCast, htake]
    rfl
  refine ⟨_, hstore, rfl, ?_⟩
  constructor
  case size => exact h.size
  case type_size => exact h.type_size
  case tail =>
    show (int32_t (buf.tail + 1)).tmod buf._macro_ringbuf_size = _
    rw [h.tail, h.size, ← Int.natCast_succ, tmod_size (by omega), List.length_append,
      List.length_singleton, Ring.slot_succ]
  case len =>
    show int32_t (buf.len + 1) = _
    rw [h.len, int32_t_of_lt (by omega) (by omega), List.length_append, List.length_singleton,
      Int.natCast_succ]
  case front_lt => exact h.front_lt
  case room =>
    rw [List.length_append, List.length_singleton]
    exact hroom
  case holds =>
    show Ring.Holds (cell (contents buf.data _) ts) N front (l ++ [item])
    rw [cell_memcpy hitem]
    exact h.holds.snoc hroom

/-- `head` after a pop. -/
theorem noteEmpty (h : Filled N ts buf front l) (hhead : buf.head = front) :
    Laid N ts buf.noteEmpty front l := by
  rw [Ringbuf.noteEmpty]
  by_cases hnil : l = []
  · have hlen : buf.len = 0 := by rw [h.len, hnil]; rfl
    rw [if_pos hlen]
    exact ⟨⟨h.size, h.type_size, h.tail, h.len, h.front_lt, h.room, h.holds⟩, (if_pos hnil).symm⟩
  · have hpos := List.length_pos_iff.mpr hnil
    have hlen : buf.len ≠ 0 := by rw [h.len]; omega
    rw [if_neg hlen]
    exact ⟨h, by rw [if_neg hnil, hhead]⟩

end Filled

namespace Laid

/-- With an item in it, `head` is the slot of the first. -/
theorem head_of_ne (h : Laid N ts buf front l) (hne : l ≠ []) : buf.head = front := by
  rw [h.head, if_neg hne]

/-- `head` is -1 exactly if there are no items. -/
theorem head_iff (h : Laid N ts buf front l) : buf.head = -1 ↔ l = [] := by
  rw [h.head]
  constructor
  · intro hhead
    by_contra hne
    rw [if_neg hne] at hhead
    omega
  · intro hnil
    rw [if_pos hnil]

/-- Where there is room, only `head` is set. -/
theorem makeRoom_of_lt (h : Laid N ts buf front l) (hroom : l.length < N) :
    Filled N ts buf.makeRoom front l ∧ buf.makeRoom.head = front := by
  rw [makeRoom]
  by_cases hnil : l = []
  · rw [if_pos (h.head_iff.mpr hnil)]
    refine ⟨⟨h.size, h.type_size, h.tail, h.len, h.front_lt, h.room, h.holds⟩, ?_⟩
    show buf.tail = front
    rw [h.tail, hnil, List.length_nil, Ring.slot_zero h.front_lt]
  · have hpos := List.length_pos_iff.mpr hnil
    have hapart : buf.tail ≠ buf.head := by
      rw [h.tail, h.head_of_ne hnil]
      intro heq
      have hslot : Ring.slot N front l.length = Ring.slot N front 0 := by
        rw [Ring.slot_zero h.front_lt]
        exact Int.ofNat.inj heq
      have hzero := Ring.slot_inj hroom (by omega) hslot
      omega
    rw [if_neg (fun hhead => hnil (h.head_iff.mp hhead)), if_neg hapart]
    exact ⟨h.toFilled, h.head_of_ne hnil⟩

/-- A full buffer drops its oldest item. -/
theorem makeRoom_full (h : Laid N ts buf front (x :: l)) (hN : N < 0x80000000)
    (hfull : l.length + 1 = N) :
    Filled N ts buf.makeRoom ((front + 1) % N) l ∧ buf.makeRoom.head = ((front + 1) % N : Nat) := by
  have hne : x :: l ≠ [] := List.cons_ne_nil x l
  have hfront := h.front_lt
  have hmeet : buf.tail = buf.head := by
    rw [h.tail, h.head_of_ne hne, List.length_cons, hfull, Ring.slot, Nat.add_mod_right,
      Nat.mod_eq_of_lt h.front_lt]
  rw [makeRoom, if_neg (fun hhead => hne (h.head_iff.mp hhead)), if_pos hmeet]
  refine ⟨h.toFilled.dropFirst hN, ?_⟩
  show (int32_t (buf.head + 1)).tmod buf._macro_ringbuf_size = _
  rw [h.head_of_ne hne, h.size, ← Int.natCast_succ, tmod_size (by omega)]

end Laid

/-- The list after a push. -/
def pushed (N : Nat) (l : List Item) (item : Item) : List Item :=
  (if l.length = N then l.tail else l) ++ [item]

/-- The copy of a push. -/
theorem Filled.push (h : Filled N ts buf.makeRoom front l) (hhead : buf.makeRoom.head = front)
    (hfit : N * ts < 0x80000000) (hN : N < 0x80000000) (hitem : item.length = ts)
    (hroom : l.length < N) :
    ∃ buf', buf.ringbuf_push item = some buf' ∧ Laid N ts buf' front (l ++ [item]) := by
  obtain ⟨buf', hstore, hkeep, hfilled⟩ := h.copyIn hfit hN hitem hroom
  refine ⟨_, ?_, hfilled, ?_⟩
  · rw [ringbuf_push, hstore]
    rfl
  · show buf'.head = _
    rw [if_neg (by simp), hkeep, hhead]

/-- A push where there is room. -/
theorem Laid.push_of_lt (h : Laid N ts buf front l) (hfit : N * ts < 0x80000000)
    (hN : N < 0x80000000) (hitem : item.length = ts) (hroom : l.length < N) :
    ∃ buf', buf.ringbuf_push item = some buf' ∧ Laid N ts buf' front (l ++ [item]) := by
  obtain ⟨hfilled, hhead⟩ := h.makeRoom_of_lt hroom
  exact hfilled.push hhead hfit hN hitem hroom

/-- **`ringbuf_push`.** -/
theorem Laid.push (h : Laid N ts buf front l) (hfit : N * ts < 0x80000000) (hN : N < 0x80000000)
    (hitem : item.length = ts) :
    ∃ buf' front', buf.ringbuf_push item = some buf' ∧ Laid N ts buf' front' (pushed N l item) := by
  rw [pushed]
  by_cases hfull : l.length = N
  · rw [if_pos hfull]
    have hpos := h.front_lt
    obtain ⟨x, l, rfl⟩ : ∃ x l', l = x :: l' := List.exists_cons_of_length_pos (by omega)
    rw [List.length_cons] at hfull
    obtain ⟨hfilled, hhead⟩ := h.makeRoom_full hN hfull
    obtain ⟨buf', hpush, hlaid⟩ := hfilled.push hhead hfit hN hitem (by omega)
    exact ⟨buf', _, hpush, hlaid⟩
  · rw [if_neg hfull]
    have hroom := h.room
    obtain ⟨buf', hpush, hlaid⟩ := h.push_of_lt hfit hN hitem (by omega)
    exact ⟨buf', front, hpush, hlaid⟩

/-- **`ringbuf_pop_front`.** -/
theorem Laid.pop_front (h : Laid N ts buf front l) (hN : N < 0x80000000) :
    ∃ front', Laid N ts buf.ringbuf_pop_front front' l.tail := by
  rw [ringbuf_pop_front]
  cases l with
  | nil =>
    rw [if_pos (h.head_iff.mpr rfl)]
    exact ⟨front, h⟩
  | cons x l =>
    have hne : x :: l ≠ [] := List.cons_ne_nil x l
    have hfront := h.front_lt
    rw [if_neg (fun hhead => hne (h.head_iff.mp hhead))]
    refine ⟨_, (h.toFilled.dropFirst hN).noteEmpty ?_⟩
    show (int32_t (buf.head + 1)).tmod buf._macro_ringbuf_size = _
    rw [h.head_of_ne hne, h.size, ← Int.natCast_succ, tmod_size (by omega)]

/-- The slot of the newest item, if `tail + RINGBUF_SIZE` fits. -/
theorem Filled.endSlot (h : Filled N ts buf front (l ++ [x])) (hN : N ≤ 0x40000000) :
    buf.endSlot = (Ring.slot N front l.length : Nat) := by
  have hpos := h.front_lt
  have hlt : Ring.slot N front (l.length + 1) < N := Ring.slot_lt (by omega)
  rw [Ringbuf.endSlot, h.tail, h.size, List.length_append, List.length_singleton,
    int32_t_of_lt (n := _ + _) (by omega) (by omega)]
  have hpred : ((Ring.slot N front (l.length + 1) : Nat) : Int) + N - 1 =
      (Ring.slot N front (l.length + 1) + N - 1 : Nat) := by omega
  rw [hpred, tmod_size (by omega), Ring.slot_pred (by omega)]

/-- **`ringbuf_pop_back`.** -/
theorem Laid.pop_back (h : Laid N ts buf front l) (hN : N ≤ 0x40000000) :
    Laid N ts buf.ringbuf_pop_back front l.dropLast := by
  rw [ringbuf_pop_back]
  rcases List.eq_nil_or_concat l with rfl | ⟨l, x, rfl⟩
  · rw [if_pos (h.head_iff.mpr rfl)]
    exact h
  · rw [List.concat_eq_append] at h ⊢
    have hne : l ++ [x] ≠ [] := by simp
    rw [if_neg (fun hhead => hne (h.head_iff.mp hhead)), List.dropLast_concat]
    exact (h.toFilled.dropLast (by omega) (h.toFilled.endSlot hN)).noteEmpty (h.head_of_ne hne)

end Layout

/-! ## Refinement

  One lemma for each call, and the induction over the run.  Above 2^30 items a buffer can be
  filled so far that an index is computed beyond 2^31, comes out negative, and the access is out
  of the array (`not_refines`). -/

/-- The calls that change a buffer. -/
inductive Call where
  | push (item : Item)
  | pop_front
  | pop_back

/-- What a call does to a buffer; `none` if memory outside `data` is accessed. -/
def call (buf : Ringbuf) : Call → Option Ringbuf
  | .push item => buf.ringbuf_push item
  | .pop_front => some buf.ringbuf_pop_front
  | .pop_back => some buf.ringbuf_pop_back

/-- What a call does to a list of at most `N` items. -/
def onList (N : Nat) (l : List Item) : Call → List Item
  | .push item => pushed N l item
  | .pop_front => l.tail
  | .pop_back => l.dropLast

/-- A buffer for `N` items of `ts` bytes, and the list beside it. -/
def machine (N ts : Nat) : Runs.Machine (Option Ringbuf × List Item) Call where
  init s := ∃ data, s = (some (RINGBUF_INIT N ts data), [])
  step s a s' := s' = (s.1.bind fun buf => buf.call a, onList N s.2 a)

/-- The items pushed are of the type of the buffer. -/
def Typed (ts : Nat) (_ : Option Ringbuf × List Item) : Call → Prop
  | .push item => item.length = ts
  | _ => True

/-- A buffer shows the list `l`. -/
structure Shows (N : Nat) (buf : Ringbuf) (l : List Item) : Prop where
  bounded : l.length ≤ N
  length : buf.ringbuf_length = l.length
  is_empty : buf.ringbuf_is_empty = true ↔ l = []
  front : buf.ringbuf_front = some l.head?
  front_nocp : buf.ringbuf_front_nocp.map buf.load = l.head?.map some
  back : buf.ringbuf_back = some l.getLast?
  back_nocp : buf.ringbuf_back_nocp.map buf.load = l.getLast?.map some
  /-- The items stand one behind the other, around the end of `data`. -/
  stored : ∃ front : Nat, (l ≠ [] → buf.head = front) ∧
    ∀ i x, l[i]? = some x → buf.load (buf.offset (Ring.slot N front i : Nat)) = some x

/-- In every run, no access is outside `data`, and the buffer shows the list. -/
def Refines (N ts : Nat) : Prop :=
  ∀ s, Runs.Reach (machine N ts) (Typed ts) s → ∃ buf, s.1 = some buf ∧ Shows N buf s.2

section Refinement

variable {N ts front : Nat} {buf : Ringbuf} {l : List Item} {s : Option Ringbuf × List Item}

/-- What the two readers of an end say: the one that copies its item, and the one that points to
    it. -/
theorem Laid.reads (h : Laid N ts buf front l) {item : Option Item} (off : Int)
    (hempty : item = none ↔ l = []) (hload : ∀ x, item = some x → buf.load off = some x) :
    (if buf.head = -1 then some none else (buf.load off).map some) = some item ∧
    (if buf.head = -1 then none else some off).map buf.load = item.map some := by
  cases hx : item with
  | none =>
    have hhead := h.head_iff.mpr (hempty.mp hx)
    rw [if_pos hhead, if_pos hhead]
    exact ⟨rfl, rfl⟩
  | some x =>
    have hne : l ≠ [] := fun hnil => by rw [hempty.mpr hnil] at hx; cases hx
    have hhead : buf.head ≠ -1 := fun hhead => hne (h.head_iff.mp hhead)
    rw [if_neg hhead, if_neg hhead, Option.map_some, hload x hx]
    exact ⟨rfl, rfl⟩

/-- What the functions say of a buffer that is laid out is what the list says. -/
theorem Laid.shows (h : Laid N ts buf front l) (hfit : N * ts < 0x80000000) (hN : N ≤ 0x40000000) :
    Shows N buf l := by
  have hfront := h.reads (buf.offset buf.head) List.head?_eq_none_iff fun x hx => by
    have hne : l ≠ [] := by
      rintro rfl
      exact absurd hx (by simp)
    rw [List.head?_eq_getElem?] at hx
    have hload := h.load_slot hfit hx
    rwa [Ring.slot_zero h.front_lt, ← h.head_of_ne hne] at hload
  have hback := h.reads (buf.offset buf.endSlot) List.getLast?_eq_none_iff fun x hx => by
    obtain ⟨l, rfl⟩ := List.getLast?_eq_some_iff.mp hx
    rw [h.toFilled.endSlot hN]
    exact h.load_slot hfit (by simp)
  constructor
  case bounded => exact h.room
  case length => exact h.len
  case is_empty => rw [ringbuf_is_empty, beq_iff_eq, h.head_iff]
  case front => exact hfront.1
  case front_nocp => exact hfront.2
  case back => exact hback.1
  case back_nocp => exact hback.2
  case stored => exact ⟨front, h.head_of_ne, fun i x hx => h.load_slot hfit hx⟩

/-- **One call.** -/
theorem Laid.call (h : Laid N ts buf front l) (hfit : N * ts < 0x80000000) (hN : N ≤ 0x40000000)
    {a : Call} (hok : Typed ts (some buf, l) a) :
    ∃ buf' front', buf.call a = some buf' ∧ Laid N ts buf' front' (onList N l a) := by
  cases a with
  | push item => exact h.push hfit (by omega) hok
  | pop_front =>
    obtain ⟨front', hlaid⟩ := h.pop_front (by omega)
    exact ⟨_, front', rfl, hlaid⟩
  | pop_back => exact ⟨_, front, rfl, h.pop_back hN⟩

/-- In every run the buffer is laid out. -/
theorem laid_of_reach (hpos : 0 < N) (hfit : N * ts < 0x80000000) (hN : N ≤ 0x40000000)
    (hr : Runs.Reach (machine N ts) (Typed ts) s) :
    ∃ buf front, s.1 = some buf ∧ Laid N ts buf front s.2 := by
  refine hr.invariant (I := fun s => ∃ buf front, s.1 = some buf ∧ Laid N ts buf front s.2) ?_ ?_
  · rintro s ⟨data, rfl⟩
    exact ⟨_, 0, rfl, init_laid data hpos⟩
  · rintro ⟨_, l⟩ a s' ⟨buf, front, rfl, h⟩ hok rfl
    obtain ⟨buf', front', hcall, h'⟩ := h.call hfit hN hok
    exact ⟨buf', front', hcall, h'⟩

/-! ### More than 2^30 items

  The failing run is constructed here: pushes of one byte each, until `tail` is so large that
  what `endSlot` adds to it overflows. -/

/-- A push into a buffer with room is a step of a run. -/
theorem reach_push (hr : Runs.Reach (machine N ts) (Typed ts) (some buf, l)) {buf' : Ringbuf}
    {item : Item} (hitem : item.length = ts) (hpush : buf.ringbuf_push item = some buf')
    (hroom : l.length ≠ N) :
    Runs.Reach (machine N ts) (Typed ts) (some buf', l ++ [item]) := by
  have hstep : (machine N ts).step (some buf, l) (.push item) (some buf', pushed N l item) := by
    show _ = (buf.ringbuf_push item, pushed N l item)
    rw [hpush]
  rw [pushed, if_neg hroom] at hstep
  exact hr.step (a := .push item) hitem hstep

/-- One item and `k` others, pushed into a new buffer. -/
theorem reach_pushes (hfit : N * ts < 0x80000000) (hN : N < 0x80000000) (first item : Item)
    (hfirst : first.length = ts) (hitem : item.length = ts) (k : Nat) (hk : k + 1 ≤ N) :
    ∃ buf, Runs.Reach (machine N ts) (Typed ts) (some buf, first :: List.replicate k item) ∧
      Laid N ts buf 0 (first :: List.replicate k item) := by
  induction k with
  | zero =>
    have hr : Runs.Reach (machine N ts) (Typed ts) (some (RINGBUF_INIT N ts fun _ => 0), []) :=
      .init ⟨_, rfl⟩
    obtain ⟨buf, hpush, hlaid⟩ :=
      (init_laid (fun _ => 0) (by omega)).push_of_lt hfit hN hfirst (show 0 < N by omega)
    exact ⟨buf, reach_push hr hfirst hpush (show 0 ≠ N by omega), hlaid⟩
  | succ k ih =>
    obtain ⟨buf, hr, hl⟩ := ih (by omega)
    have hlen : (first :: List.replicate k item).length = k + 1 := by
      rw [List.length_cons, List.length_replicate]
    obtain ⟨buf', hpush, hlaid⟩ := hl.push_of_lt hfit hN hitem (by omega)
    have hr' := reach_push hr hitem hpush (by omega)
    rw [List.cons_append, ← List.replicate_succ'] at hlaid hr'
    exact ⟨buf', hr', hlaid⟩

/-- `tail + RINGBUF_SIZE - 1` wraps, and its remainder is not positive. -/
theorem endSlot_nonpos (hbig : 0x40000000 < N) (hN : N < 0x80000000)
    (hsize : buf._macro_ringbuf_size = N) (htail : buf.tail = (N - 1 : Nat)) :
    -(N : Int) < buf.endSlot ∧ buf.endSlot ≤ 0 := by
  have hwrap :
      int32_t (int32_t (((N - 1 : Nat) : Int) + N) - 1) = -((0x100000002 - 2 * N : Nat) : Int) := by
    rw [int32_t, int32_t]
    omega
  rw [endSlot, htail, hsize, hwrap]
  refine ⟨Int.lt_tmod_of_pos _ (by omega), ?_⟩
  rw [Int.neg_tmod, ← Int.ofNat_tmod]
  omega

/-- In front of `data` there is nothing to load. -/
theorem load_neg {off : Int} (hoff : off < 0) : buf.load off = none := by
  rw [load, within, if_neg (by omega)]
  rfl

/-- The newest of `N - 1` items is not found: the first one is, or the access is outside `data`. -/
theorem not_refines (hts : 0 < ts) (hfit : N * ts < 0x80000000) (hbig : 0x40000000 < N) :
    ¬ Refines N ts := by
  intro href
  have hN : N < 0x80000000 := Nat.lt_of_le_of_lt (Nat.le_mul_of_pos_right N hts) hfit
  -- an array of so many items fits only if each is one byte
  obtain rfl : ts = 1 := by
    by_contra hne
    have htwo := Nat.mul_le_mul_left N (show 2 ≤ ts by omega)
    omega
  -- one item that is different, and then so many that the last of them is in slot `N - 2`
  obtain ⟨buf, hr, hl⟩ := reach_pushes hfit hN [0] [1] rfl rfl (N - 2) (by omega)
  have hne : [0] :: List.replicate (N - 2) [1] ≠ ([] : List Item) := List.cons_ne_nil _ _
  have htail : buf.tail = (N - 1 : Nat) := by
    rw [hl.tail, List.length_cons, List.length_replicate, Ring.slot, Nat.zero_add,
      Nat.mod_eq_of_lt (by omega)]
    omega
  obtain ⟨hlo, hhi⟩ := endSlot_nonpos hbig hN hl.size htail
  have hload : buf.load (buf.offset buf.endSlot) = some [1] := by
    obtain ⟨_, hsame, hshows⟩ := href _ hr
    obtain rfl := Option.some.inj hsame
    have hback := hshows.back
    have hlast : ([0] :: List.replicate (N - 2) [1] : List Item).getLast? = some [1] := by
      rw [show N - 2 =
        N - 3 + 1 by omega, List.replicate_succ', ← List.cons_append, List.getLast?_concat]
    rw [ringbuf_back, if_neg (fun hhead => hne (hl.head_iff.mp hhead)), hlast] at hback
    cases hitem : buf.load (buf.offset buf.endSlot) with
    | none =>
      rw [hitem] at hback
      exact absurd hback (by simp)
    | some x =>
      rw [hitem] at hback
      exact Option.some.inj hback
  have hfirst : buf.load (buf.offset (0 : Nat)) = some [0] := by
    have hslot := hl.load_slot hfit (i := 0) rfl
    rwa [Ring.slot_zero (by omega)] at hslot
  by_cases hzero : buf.endSlot = 0
  · rw [hzero] at hload
    exact absurd (hload.symm.trans hfirst) (by decide)
  · have hneg : buf.offset buf.endSlot < 0 := by
      rw [offset, hl.type_size, int32_t_of_lt (by omega) (by omega)]
      omega
    rw [load_neg hneg] at hload
    exact absurd hload (by simp)

end Refinement

/-- **The ring buffer refines a bounded list**, whatever is called, in every run: exactly if it is
    for at most 2^30 items. -/
theorem ringbuf_refines_iff (N ts : Nat) (hN : 2 ≤ N) (hts : 1 ≤ ts) (hfit : N * ts < 0x80000000) :
    Refines N ts ↔ N ≤ 0x40000000 := by
  constructor
  · intro href
    by_contra hbig
    exact not_refines hts hfit (by omega) href
  · intro hsmall s hr
    obtain ⟨buf, front, hbuf, hlaid⟩ := laid_of_reach (by omega) hfit hsmall hr
    exact ⟨buf, hbuf, hlaid.shows hfit hsmall⟩

/-- A buffer for 128 items of 4 bytes. -/
theorem ringbuf_refines_128 : Refines 128 4 :=
  (ringbuf_refines_iff 128 4 (by decide) (by decide) (by decide)).mpr (by decide)

/-- A buffer for 2^30 + 1 bytes does not. -/
theorem ringbuf_overflows : ¬ ∀ N ts, 2 ≤ N → 1 ≤ ts → N * ts < 0x80000000 → Refines N ts := by
  intro h
  exact not_refines (N := 0x40000001) (by decide) (by decide) (by decide)
    (h 0x40000001 1 (by decide) (by decide) (by decide))

end Ringbuf

end TedkOS.Klibs
