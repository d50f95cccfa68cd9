/-
  `Deque<T>` (inc/klibs/deque.h): a double-ended queue in a ring of pointers, which grows when it is
  full and shrinks when it is half empty.

  1. **Program** — the members and the operations.  What `new T` returns (`p`) and what a new array
     contains (`raw`) are arguments: a run allows any address not in use, and any contents.  `elems`
     is the part of the heap that belongs to the deque: what `new T` made and `delete` has not
     freed.

  2. **Layout** — `Laid d ps`: the ring holds the pointers `ps`, from the slot `mFront` on and past
     the end of the array if need be.  One lemma per operation says what becomes of `ps`, in the
     words of lists: `push_back` appends, `push_front` puts in front, `insert` inserts, the pops
     drop an end.  Growing and shrinking leave `ps` as it is, and lay it out from slot 0.

  3. **The loops** — re-basing on a resize (`copyLoop_holds`), the shift of `insert`
     (`moveLoop_gap`) and `clear` (`nullifyLoop_apply`) go round the ring; each is an induction on
     the pointers that are still to be visited.

  Indices and sizes are `size_t`.  The source steps back by adding 2^32 - 1 and then the capacity;
  below a capacity of 2^31 that does not wrap where it should not (`step_back`), which is why
  `Laid` bounds it.
-/
import Mathlib.Data.List.InsertIdx
import TedkOS.Lib.Ring

namespace TedkOS.Klibs

/-- An address. -/
abbrev Ptr := Nat

def NULL : Ptr := 0

/-- A result of `size_t` arithmetic. -/
def size_t (n : Nat) : Nat := n % 0x100000000

/-- `Deque<T>`; `mFront` and `mBack` are the slots of the two ends. -/
structure Deque (T : Type) where
  mCapacity : Nat
  mSize : Nat
  mFront : Nat
  mBack : Nat
  mContents : Nat → Ptr
  /-- What `new T` made and `delete` has not freed. -/
  elems : Ptr → Option T

namespace Deque

variable {T : Type}

def sInitialCapacity : Nat := 2

/-- `_init()`; `memset` clears the new array. -/
def _init (elems : Ptr → Option T) : Deque T where
  mCapacity := sInitialCapacity
  mSize := 0
  mFront := 0xFFFFFFFF
  mBack := 0xFFFFFFFF
  mContents := fun _ => NULL
  elems := elems

/-- `Deque()`. -/
def new (T : Type) : Deque T := _init fun _ => none

/-- The loop of `nullifyContent()`, on the elements; the array is deleted next. -/
def nullifyLoop (mCapacity : Nat) (mContents : Nat → Ptr) : Nat → Nat → (Ptr → Option T) →
    Ptr → Option T
  | 0, _, elems => elems
  | rounds + 1, item, elems =>
    nullifyLoop mCapacity (Function.update mContents item NULL) rounds
      (size_t (item + 1) % mCapacity)
      (Function.update elems (mContents item) none)

/-- `clear()`: `_clear(); _init();`. -/
def clear (d : Deque T) : Deque T :=
  _init (nullifyLoop d.mCapacity d.mContents d.mSize d.mFront d.elems)

/-- The loop of `resetCap`, from index `i` of the new array on. -/
def copyLoop (mCapacity : Nat) (mContents : Nat → Ptr) : Nat → Nat → Nat → (Nat → Ptr) → Nat → Ptr
  | 0, _, _, newArr => newArr
  | rounds + 1, i, item, newArr =>
    copyLoop mCapacity mContents rounds (i + 1) (size_t (item + 1) % mCapacity)
      (Function.update newArr i (mContents item))

/-- `resetCap(newCap)`: the elements are moved to a new ring, from its first slot on. -/
def resetCap (d : Deque T) (newCap : Nat) (raw : Nat → Ptr) : Deque T :=
  if newCap ≤ d.mSize then d
  else
    { d with
      mContents := copyLoop d.mCapacity d.mContents d.mSize 0 d.mFront raw
      mFront := 0
      mBack := size_t (d.mSize + 0xFFFFFFFF)
      mCapacity := newCap }

/-- `if(mSize == mCapacity) resetCap(2 * mCapacity);`. -/
def grow (d : Deque T) (raw : Nat → Ptr) : Deque T :=
  if d.mSize = d.mCapacity then d.resetCap (size_t (2 * d.mCapacity)) raw else d

/-- `if(mSize <= mCapacity/2) resetCap(mCapacity/2);`. -/
def shrink (d : Deque T) (raw : Nat → Ptr) : Deque T :=
  if d.mSize ≤ d.mCapacity / 2 then d.resetCap (d.mCapacity / 2) raw else d

/-- The branch `if(mSize == 0)` of `push_back`, `push_front` and `insert`. -/
def pushFirst (d : Deque T) (val : T) (p : Ptr) : Deque T :=
  { d with
    mContents := Function.update d.mContents 0 p
    elems := Function.update d.elems p (some val)
    mBack := 0
    mFront := 0
    mSize := size_t (d.mSize + 1) }

/-- `push_back(val)`, with `p` from `new T`. -/
def push_back (d : Deque T) (val : T) (p : Ptr) (raw : Nat → Ptr) : Deque T :=
  if d.mSize = 0 then d.pushFirst val p
  else
    let d := d.grow raw
    let pos := size_t (d.mBack + 1) % d.mCapacity
    { d with
      mSize := size_t (d.mSize + 1)
      mContents := Function.update d.mContents pos p
      elems := Function.update d.elems p (some val)
      mBack := pos }

/-- `push_front(val)`. -/
def push_front (d : Deque T) (val : T) (p : Ptr) (raw : Nat → Ptr) : Deque T :=
  if d.mSize = 0 then d.pushFirst val p
  else
    let d := d.grow raw
    let pos := size_t (size_t (d.mFront + 0xFFFFFFFF) + d.mCapacity) % d.mCapacity
    { d with
      mSize := size_t (d.mSize + 1)
      mContents := Function.update d.mContents pos p
      elems := Function.update d.elems p (some val)
      mFront := pos }

/-- The loop of `insert`. -/
def moveLoop (mCapacity : Nat) : Nat → Nat → (Nat → Ptr) → Nat → Ptr
  | 0, _, mContents => mContents
  | toMove + 1, i, mContents =>
    moveLoop mCapacity toMove (size_t (size_t (i + 0xFFFFFFFF) + mCapacity) % mCapacity)
      (Function.update mContents (size_t (i + 1) % mCapacity) (mContents i))

/-- `insert(val, index)`: what is behind the index moves on by one slot. -/
def insert (d : Deque T) (val : T) (index : Nat) (p : Ptr) (raw : Nat → Ptr) : Deque T :=
  if index = d.mSize then d.push_back val p raw
  else if index = 0 then d.push_front val p raw
  else if d.mSize = 0 then d.pushFirst val p
  else
    let d := d.grow raw
    let mSize := size_t (d.mSize + 1)
    let pos := size_t (d.mFront + index) % d.mCapacity
    let toMove := size_t (mSize + 0x100000000 - index)
    { d with
      mSize := mSize
      mContents := Function.update (moveLoop d.mCapacity toMove d.mBack d.mContents) pos p
      elems := Function.update d.elems p (some val)
      mBack := size_t (d.mBack + 1) % d.mCapacity }

/-- `pop_back()`; a ring that is half empty is made smaller. -/
def pop_back (d : Deque T) (raw : Nat → Ptr) : Deque T :=
  if d.mSize = 0 then d
  else
    let d :=
      { d with
        elems := Function.update d.elems (d.mContents d.mBack) none
        mContents := Function.update d.mContents d.mBack NULL
        mBack := size_t (size_t (d.mBack + 0xFFFFFFFF) + d.mCapacity) % d.mCapacity
        mSize := size_t (d.mSize + 0xFFFFFFFF) }
    d.shrink raw

/-- `pop_front()`. -/
def pop_front (d : Deque T) (raw : Nat → Ptr) : Deque T :=
  if d.mSize = 0 then d
  else
    let d :=
      { d with
        elems := Function.update d.elems (d.mContents d.mFront) none
        mContents := Function.update d.mContents d.mFront NULL
        mFront := size_t (d.mFront + 1) % d.mCapacity
        mSize := size_t (d.mSize + 0xFFFFFFFF) }
    d.shrink raw

def size (d : Deque T) : Nat := d.mSize

def empty (d : Deque T) : Bool := d.mSize == 0

/-- `operator[]`; the value is `none` if the pointer does not point to an element. -/
def get (d : Deque T) (pos : Nat) : Except String (Option T) :=
  if pos ≥ d.mSize then .error "Exception: Deque Access Out of Bound!\n"
  else .ok (d.elems (d.mContents (size_t (d.mFront + pos) % d.mCapacity)))

def front (d : Deque T) : Ptr := if d.mSize = 0 then NULL else d.mContents d.mFront

def back (d : Deque T) : Ptr := if d.mSize = 0 then NULL else d.mContents d.mBack

/-! ## Layout -/

section Layout

open Ring

/-- The ring holds the pointers `ps`. -/
structure Laid (d : Deque T) (ps : List Ptr) : Prop where
  size : d.mSize = ps.length
  room : ps.length ≤ d.mCapacity
  cap_pos : 0 < d.mCapacity
  /-- With this, no sum of an index and the capacity reaches 2^32, and doubling the capacity does
      not. -/
  cap_lt : d.mCapacity < 0x80000000
  holds : Holds d.mContents d.mCapacity d.mFront ps
  /-- In an empty deque the ends mean nothing, and are 2^32 - 1 at first. -/
  front : ps ≠ [] → d.mFront < d.mCapacity
  back : ps ≠ [] → d.mBack = slot d.mCapacity d.mFront (ps.length - 1)

variable {d : Deque T} {ps : List Ptr} {p q : Ptr} {raw c : Nat → Ptr} {val : T} {index i cap : Nat}

/-! ### `size_t` arithmetic below 2^31 -/

/-- Below 2^32 nothing is lost. -/
theorem size_t_of_lt {n : Nat} (h : n < 0x100000000) : size_t n = n := Nat.mod_eq_of_lt h

/-- Adding 2^32 - 1 is subtracting 1. -/
theorem size_t_pred {n : Nat} (h : 0 < n) (hlt : n < 0x100000000) :
    size_t (n + 0xFFFFFFFF) = n - 1 := by
  rw [size_t]
  omega

/-- A step forward on the ring. -/
theorem step_forward (hcap : cap < 0x80000000) (hi : i < cap) :
    size_t (i + 1) % cap = (i + 1) % cap := by
  rw [size_t_of_lt (by omega)]

/-- A step back, past 0 and through the wrap of `size_t`. -/
theorem step_back (hcap : cap < 0x80000000) (hi : i < cap) :
    size_t (size_t (i + 0xFFFFFFFF) + cap) % cap = (i + cap - 1) % cap := by
  have hsum : size_t (size_t (i + 0xFFFFFFFF) + cap) = i + cap - 1 := by
    rw [size_t, size_t]
    omega
  rw [hsum]

/-- The test for an empty deque. -/
theorem Laid.mSize_eq_zero (h : Laid d ps) : d.mSize = 0 ↔ ps = [] := by
  rw [h.size, List.length_eq_zero_iff]

/-- The back of a deque that is not empty is a slot. -/
theorem Laid.back_lt (h : Laid d ps) (hne : ps ≠ []) : d.mBack < d.mCapacity := by
  rw [h.back hne]
  exact slot_lt h.cap_pos

/-- A deque starts empty. -/
theorem _init_laid (elems : Ptr → Option T) : Laid (_init elems) [] where
  size := rfl
  room := Nat.zero_le _
  cap_pos := Nat.zero_lt_two
  cap_lt := show 2 < 0x80000000 by decide
  holds := Holds.nil
  front := fun h => absurd rfl h
  back := fun h => absurd rfl h

/-! ### Resizing

  The ring is copied to a new array from slot 0 on, if that has more slots than there are
  elements.  So nothing is lost, and the order stays. -/

/-- The loop of `resetCap` lays the rest of the ring out behind what it has copied (`pre`).  By
    induction on the rest; the new array is filled from slot 0, so that nothing wraps there. -/
theorem copyLoop_holds {newCap : Nat} (hcap : cap < 0x80000000) (ps pre : List Ptr) {item : Nat}
    {newArr : Nat → Ptr} (hps : Holds c cap item ps) (hitem : ps ≠ [] → item < cap)
    (hpre : Holds newArr newCap 0 pre) (hroom : pre.length + ps.length ≤ newCap) :
    Holds (copyLoop cap c ps.length pre.length item newArr) newCap 0 (pre ++ ps) := by
  induction ps generalizing pre item newArr with
  | nil => rwa [List.append_nil]
  | cons p ps ih =>
    have hlt := hitem (List.cons_ne_nil p ps)
    rw [List.length_cons] at hroom
    have hread : c item = p := by
      have h0 := hps 0 p rfl
      rwa [slot_zero hlt] at h0
    have hslot : slot newCap 0 pre.length = pre.length := by
      rw [slot, Nat.zero_add, Nat.mod_eq_of_lt (by omega)]
    have hsnoc := hpre.snoc (x := p) (by omega)
    rw [hslot] at hsnoc
    rw [List.length_cons, copyLoop, hread, step_forward hcap hlt]
    have hrest := ih _ hps.tail (fun _ => Nat.mod_lt _ (by omega)) hsnoc
      (by rw [List.length_append, List.length_singleton]; omega)
    rwa [List.length_append, List.length_singleton, List.append_assoc, List.singleton_append]
      at hrest

/-- A resize frees no element. -/
theorem elems_resetCap {newCap : Nat} : (d.resetCap newCap raw).elems = d.elems := by
  rw [resetCap]
  split
  · rfl
  · rfl

/-- **A resize** to a capacity that leaves room keeps the pointers in their order; to any other
    it does nothing. -/
theorem Laid.resetCap (h : Laid d ps) {newCap : Nat} (hlt : newCap < 0x80000000) :
    Laid (d.resetCap newCap raw) ps := by
  rw [Deque.resetCap]
  rcases le_or_gt newCap d.mSize with hle | hlt'
  · rw [if_pos hle]
    exact h
  · rw [if_neg (Nat.not_le_of_lt hlt')]
    have hroom : ps.length < newCap := h.size ▸ hlt'
    constructor
    case size => exact h.size
    case room => exact Nat.le_of_lt hroom
    case cap_pos => show 0 < newCap; omega
    case cap_lt => exact hlt
    case holds =>
      show Holds (copyLoop d.mCapacity d.mContents d.mSize 0 d.mFront raw) newCap 0 ps
      rw [h.size]
      exact copyLoop_holds h.cap_lt ps [] h.holds h.front Holds.nil
        (by simpa using Nat.le_of_lt hroom)
    case front => intro _; show 0 < newCap; omega
    case back =>
      intro hne
      have hpos := List.length_pos_iff.mpr hne
      show size_t (d.mSize + 0xFFFFFFFF) = slot newCap 0 (ps.length - 1)
      rw [h.size, size_t_pred hpos (by omega), slot, Nat.zero_add, Nat.mod_eq_of_lt (by omega)]

/-- Growing frees no element. -/
theorem elems_grow : (d.grow raw).elems = d.elems := by
  rw [grow]
  split
  · exact elems_resetCap
  · rfl

/-- Shrinking frees no element. -/
theorem elems_shrink : (d.shrink raw).elems = d.elems := by
  rw [shrink]
  split
  · exact elems_resetCap
  · rfl

/-- **Growing makes room**, as long as the new capacity is within the bound. -/
theorem Laid.grow (h : Laid d ps) (hcap : (d.grow raw).mCapacity < 0x80000000) :
    Laid (d.grow raw) ps ∧ ps.length < (d.grow raw).mCapacity := by
  by_cases hfull : d.mSize = d.mCapacity
  · -- a full deque: the capacity is doubled, and does not overflow
    have hpos := h.cap_pos
    have hlt := h.cap_lt
    have hdouble : size_t (2 * d.mCapacity) = 2 * d.mCapacity := size_t_of_lt (by omega)
    have hgrow : d.grow raw = d.resetCap (2 * d.mCapacity) raw := by
      rw [Deque.grow, if_pos hfull, hdouble]
    have hnew : (d.resetCap (2 * d.mCapacity) raw).mCapacity = 2 * d.mCapacity := by
      rw [Deque.resetCap, if_neg (by omega)]
    rw [hgrow, hnew] at hcap
    rw [hgrow, hnew]
    refine ⟨h.resetCap hcap, ?_⟩
    rw [← h.size]
    omega
  · have hsame : d.grow raw = d := by rw [Deque.grow, if_neg hfull]
    rw [hsame]
    refine ⟨h, ?_⟩
    have hroom := h.room
    rw [← h.size] at hroom ⊢
    omega

/-- **Shrinking** leaves the pointers as they are.  When the deque is exactly half full, half the
    capacity leaves no room, and `resetCap` declines. -/
theorem Laid.shrink (h : Laid d ps) : Laid (d.shrink raw) ps := by
  rw [Deque.shrink]
  split
  · have hlt := h.cap_lt
    exact h.resetCap (by omega)
  · exact h

/-! ### The operations

  Each is followed by the arithmetic of its index: a slot forward or back, around the end.
  `insert` moves the elements behind the gap one slot on, from the last one down, so that none is
  overwritten before it has been moved. -/

/-- The first element is put into slot 0, wherever the ends were. -/
theorem pushFirst_laid (h : Laid d []) : Laid (d.pushFirst val p) [p] := by
  have hpos := h.cap_pos
  constructor
  case size =>
    show size_t (d.mSize + 1) = 1
    rw [h.size]
    rfl
  case room => exact hpos
  case cap_pos => exact hpos
  case cap_lt => exact h.cap_lt
  case holds =>
    show Holds (Function.update d.mContents 0 p) d.mCapacity 0 [p]
    rw [Holds.singleton_iff, slot_zero hpos, Function.update_self]
  case front => exact fun _ => hpos
  case back =>
    intro _
    show 0 = slot d.mCapacity 0 0
    rw [slot_zero hpos]

/-- One more element is counted without overflow. -/
theorem Laid.size_succ (h : Laid d ps) (hroom : ps.length < d.mCapacity) :
    size_t (d.mSize + 1) = ps.length + 1 := by
  have hlt := h.cap_lt
  rw [h.size, size_t_of_lt (by omega)]

/-- **`push_back`** appends. -/
theorem Laid.push_back (h : Laid d ps) (hcap : (d.push_back val p raw).mCapacity < 0x80000000) :
    Laid (d.push_back val p raw) (ps ++ [p]) := by
  by_cases hne : ps = []
  · subst hne
    rw [Deque.push_back, if_pos (h.mSize_eq_zero.mpr rfl)]
    exact pushFirst_laid h
  · have hsize : ¬ d.mSize = 0 := fun h0 => hne (h.mSize_eq_zero.mp h0)
    rw [Deque.push_back, if_neg hsize] at hcap ⊢
    obtain ⟨hg, hroom⟩ := h.grow hcap
    generalize d.grow raw = g at hg hroom
    have hpos := List.length_pos_iff.mpr hne
    -- the new back is the slot behind the old one, which is the first behind all pointers
    have hslot : size_t (g.mBack + 1) % g.mCapacity = slot g.mCapacity g.mFront ps.length := by
      rw [step_forward hg.cap_lt (hg.back_lt hne), hg.back hne, slot_succ, Nat.sub_add_cancel hpos]
    dsimp only
    rw [hslot]
    constructor
    case size =>
      rw [List.length_append]
      exact hg.size_succ hroom
    case room =>
      rw [List.length_append]
      exact hroom
    case cap_pos => exact hg.cap_pos
    case cap_lt => exact hg.cap_lt
    case holds => exact hg.holds.snoc hroom
    case front => exact fun _ => hg.front hne
    case back =>
      intro _
      rw [List.length_append, List.length_singleton, Nat.add_sub_cancel]

/-- **`push_front`** puts in front: the slots of all pointers count one more from the new front. -/
theorem Laid.push_front (h : Laid d ps) (hcap : (d.push_front val p raw).mCapacity < 0x80000000) :
    Laid (d.push_front val p raw) (p :: ps) := by
  by_cases hne : ps = []
  · subst hne
    rw [Deque.push_front, if_pos (h.mSize_eq_zero.mpr rfl)]
    exact pushFirst_laid h
  · have hsize : ¬ d.mSize = 0 := fun h0 => hne (h.mSize_eq_zero.mp h0)
    rw [Deque.push_front, if_neg hsize] at hcap ⊢
    obtain ⟨hg, hroom⟩ := h.grow hcap
    generalize d.grow raw = g at hg hroom
    have hpos := List.length_pos_iff.mpr hne
    have hlt := hg.front hne
    dsimp only
    rw [step_back hg.cap_lt hlt]
    constructor
    case size => exact hg.size_succ hroom
    case room => exact hroom
    case cap_pos => exact hg.cap_pos
    case cap_lt => exact hg.cap_lt
    case holds => exact hg.holds.cons hroom hlt rfl
    case front => exact fun _ => Nat.mod_lt _ hg.cap_pos
    case back =>
      intro _
      show g.mBack = slot g.mCapacity ((g.mFront + g.mCapacity - 1) % g.mCapacity) ps.length
      rw [hg.back hne, ← slot_prev hlt rfl, Nat.sub_add_cancel hpos]

/-- The loop of `insert`, one round more than there are elements behind the gap: the last round
    writes the gap itself.  A round moves the last pointer before the gap (`l`) into it, so that
    the gap goes back by one and the pointers behind it (`l'`) are one more; by induction on the
    rounds. -/
theorem moveLoop_gap {front k : Nat} {l l' : List Ptr} (hcap : cap < 0x80000000)
    (hgap : Holds.Gap c cap front l l') (hlen : l.length + l'.length < cap) (hk : k < l.length)
    (hi : i = slot cap front (l.length - 1)) :
    Holds.Gap (moveLoop cap (k + 1) i c) cap front (l.take (l.length - k))
      (l.drop (l.length - k) ++ l') := by
  induction k generalizing l l' i c with
  | zero =>
    rw [moveLoop, moveLoop, step_forward hcap (hi ▸ slot_lt (by omega)), hi, slot_succ,
      Nat.sub_add_cancel hk, Nat.sub_zero, List.take_length, List.drop_length, List.nil_append]
    exact hgap.update hlen
  | succ k ih =>
    obtain ⟨l, x, rfl⟩ := List.eq_nil_or_concat l |>.resolve_left (by rintro rfl; simp at hk)
    rw [List.concat_eq_append] at *
    rw [List.length_append, List.length_singleton] at hlen hk hi ⊢
    rw [Nat.add_sub_cancel] at hi
    have hx : c i = x := by
      rw [hi]
      exact hgap.1 l.length x (by simp)
    rw [moveLoop, hx, step_forward hcap (hi ▸ slot_lt (by omega)),
      step_back hcap (hi ▸ slot_lt (by omega)), hi, slot_succ, Nat.add_sub_add_right,
      List.take_append_of_le_length (by omega), List.drop_append_of_le_length (by omega),
      List.append_assoc, List.singleton_append]
    apply ih (hgap.move hlen)
    · rw [List.length_cons]
      omega
    · omega
    · have hprev :
          (slot cap front (l.length - 1 + 1) + cap - 1) % cap = slot cap front (l.length - 1) :=
        slot_pred (by omega)
      rwa [Nat.sub_add_cancel (by omega)] at hprev

/-- Inserting at the end of the first part. -/
theorem insertIdx_append {α : Type} (l l' : List α) (x : α) :
    (l ++ l').insertIdx l.length x = l ++ x :: l' := by
  induction l with
  | nil => exact List.insertIdx_zero
  | cons a l ih =>
    rw [List.cons_append, List.length_cons, List.insertIdx_succ_cons, ih, List.cons_append]

/-- **`insert`** inserts.  At the ends it is a push; inside, the pointers behind the index are
    moved to the back by one, and the gap is filled. -/
theorem Laid.insert (h : Laid d ps) (hindex : index ≤ ps.length)
    (hcap : (d.insert val index p raw).mCapacity < 0x80000000) :
    Laid (d.insert val index p raw) (ps.insertIdx index p) := by
  rw [Deque.insert] at hcap ⊢
  by_cases hlast : index = d.mSize
  · rw [if_pos hlast] at hcap ⊢
    rw [hlast, h.size, List.insertIdx_length_self]
    exact h.push_back hcap
  by_cases hfirst : index = 0
  · rw [if_neg hlast, if_pos hfirst] at hcap ⊢
    rw [hfirst, List.insertIdx_zero]
    exact h.push_front hcap
  have hinside : index < ps.length := by
    rw [h.size] at hlast
    omega
  have hne : ps ≠ [] := List.length_pos_iff.mp (by omega)
  have hsize : ¬ d.mSize = 0 := fun h0 => hne (h.mSize_eq_zero.mp h0)
  rw [if_neg hlast, if_neg hfirst, if_neg hsize] at hcap ⊢
  obtain ⟨hg, hroom⟩ := h.grow hcap
  generalize d.grow raw = g at hg hroom
  have hlt := hg.cap_lt
  have hback := hg.back_lt hne
  -- `mSize + 1 - index` rounds, computed in `size_t`
  have hmove : size_t (size_t (g.mSize + 1) + 0x100000000 - index) = ps.length - index + 1 := by
    rw [hg.size_succ hroom, size_t]
    omega
  have hpos : size_t (g.mFront + index) % g.mCapacity = slot g.mCapacity g.mFront index := by
    have hfront := hg.front hne
    rw [size_t_of_lt (by omega), slot]
  dsimp only
  rw [hmove, hpos]
  constructor
  case size =>
    rw [List.length_insertIdx_of_le_length hindex]
    exact hg.size_succ hroom
  case room =>
    rw [List.length_insertIdx_of_le_length hindex]
    exact hroom
  case cap_pos => exact hg.cap_pos
  case cap_lt => exact hlt
  case holds =>
    -- before the loop the gap is the free slot behind the back, after it the one at the index
    have hgap :=
      moveLoop_gap hlt hg.holds.gap (by simpa using hroom) (k := ps.length - index) (by omega)
        (hg.back hne)
    rw [Nat.sub_sub_self hindex, List.append_nil] at hgap
    have htake : (ps.take index).length = index := List.length_take_of_le hindex
    have hfill :=
      hgap.fill (x := p) (by rw [← List.length_append, List.take_append_drop]; exact hroom)
    rw [← insertIdx_append, List.take_append_drop, htake] at hfill
    exact hfill
  case front => exact fun _ => hg.front hne
  case back =>
    intro _
    show size_t (g.mBack + 1) % g.mCapacity =
      slot g.mCapacity g.mFront ((ps.insertIdx index p).length - 1)
    rw [step_forward hlt hback, hg.back hne, slot_succ, List.length_insertIdx_of_le_length hindex]
    congr 1
    omega

/-- `nullifyContent` frees the elements, and nothing else; by induction on the pointers that are
    left. -/
theorem nullifyLoop_apply (elems : Ptr → Option T) (hcap : cap < 0x80000000) (h : Holds c cap i ps)
    (hroom : ps.length ≤ cap) (hi : ps ≠ [] → i < cap) (q : Ptr) :
    nullifyLoop cap c ps.length i elems q = if q ∈ ps then none else elems q := by
  induction ps generalizing c i elems with
  | nil => exact (if_neg List.not_mem_nil).symm
  | cons p ps ih =>
    have hlt := hi (List.cons_ne_nil p ps)
    have hread : c i = p := by
      have h0 := h 0 p rfl
      rwa [slot_zero hlt] at h0
    rw [List.length_cons] at hroom
    rw [List.length_cons, nullifyLoop, hread, step_forward hcap hlt]
    refine (ih _ (h.uncons hroom hlt) (by omega) fun _ => Nat.mod_lt _ (by omega)).trans ?_
    by_cases hq : q ∈ ps
    · rw [if_pos hq, if_pos (List.mem_cons_of_mem p hq)]
    · rw [if_neg hq]
      by_cases hqp : q = p
      · rw [hqp, Function.update_self, if_pos List.mem_cons_self]
      · rw [Function.update_of_ne hqp,
          if_neg fun hin => hq ((List.mem_cons.mp hin).resolve_left hqp)]

/-- **`pop_back`** drops the last pointer and frees its element. -/
theorem Laid.pop_back (h : Laid d (ps ++ [q])) : Laid (d.pop_back raw) ps ∧
    (d.pop_back raw).elems = Function.update d.elems q none := by
  have hne : ps ++ [q] ≠ [] := by simp
  have hsize : ¬ d.mSize = 0 := fun h0 => hne (h.mSize_eq_zero.mp h0)
  have hroom := h.room
  have hlt := h.cap_lt
  have hlen := h.size
  have hback := h.back hne
  rw [List.length_append, List.length_singleton] at hroom hlen hback
  rw [Nat.add_sub_cancel] at hback
  have hread : d.mContents d.mBack = q := by
    rw [hback]
    exact h.holds ps.length q (by simp)
  rw [Deque.pop_back, if_neg hsize]
  dsimp only
  rw [hread, elems_shrink]
  refine ⟨Laid.shrink ?_, rfl⟩
  constructor
  case size =>
    show size_t (d.mSize + 0xFFFFFFFF) = ps.length
    rw [size_t_pred (by omega) (by omega)]
    omega
  case room => exact Nat.le_of_succ_le hroom
  case cap_pos => exact h.cap_pos
  case cap_lt => exact hlt
  case holds =>
    show Holds (Function.update d.mContents d.mBack NULL) d.mCapacity d.mFront ps
    rw [hback]
    exact h.holds.unsnoc hroom
  case front => exact fun _ => h.front hne
  case back =>
    intro hps
    have hpos := List.length_pos_iff.mpr hps
    -- the new back is the slot before the old one
    have hprev : (slot d.mCapacity d.mFront (ps.length - 1 + 1) + d.mCapacity - 1) % d.mCapacity =
        slot d.mCapacity d.mFront (ps.length - 1) := slot_pred h.cap_pos
    rw [Nat.sub_add_cancel hpos] at hprev
    show size_t (size_t (d.mBack + 0xFFFFFFFF) + d.mCapacity) % d.mCapacity = _
    rw [step_back hlt (h.back_lt hne), hback, hprev]

/-- **`pop_front`** drops the first pointer and frees its element: the others count from the next
    slot. -/
theorem Laid.pop_front (h : Laid d (q :: ps)) : Laid (d.pop_front raw) ps ∧
    (d.pop_front raw).elems = Function.update d.elems q none := by
  have hne : q :: ps ≠ [] := List.cons_ne_nil q ps
  have hsize : ¬ d.mSize = 0 := fun h0 => hne (h.mSize_eq_zero.mp h0)
  have hroom := h.room
  have hlt := h.cap_lt
  have hlen := h.size
  have hfront := h.front hne
  have hback := h.back hne
  rw [List.length_cons] at hroom hlen hback
  have hread : d.mContents d.mFront = q := by
    have h0 := h.holds 0 q rfl
    rwa [slot_zero hfront] at h0
  rw [Deque.pop_front, if_neg hsize]
  dsimp only
  rw [hread, elems_shrink, step_forward hlt hfront]
  refine ⟨Laid.shrink ?_, rfl⟩
  constructor
  case size =>
    show size_t (d.mSize + 0xFFFFFFFF) = ps.length
    rw [size_t_pred (by omega) (by omega)]
    omega
  case room => exact Nat.le_of_succ_le hroom
  case cap_pos => exact h.cap_pos
  case cap_lt => exact hlt
  case holds => exact h.holds.uncons hroom hfront
  case front => exact fun _ => Nat.mod_lt _ h.cap_pos
  case back =>
    intro hps
    have hpos := List.length_pos_iff.mpr hps
    show d.mBack = slot d.mCapacity ((d.mFront + 1) % d.mCapacity) (ps.length - 1)
    rw [slot_next, hback, Nat.sub_add_cancel hpos, Nat.add_sub_cancel]

end Layout

end Deque

end TedkOS.Klibs
