/-
  A deque and the list built by the same calls.

  1. **Elements** — `Owns elems ps l`: the pointers are distinct, nothing else is allocated, and
     they point to `l`.

  2. **Refinement** — `Represents d l`: the ring holds some pointers, and they point to `l`.  A call
     changes the storage of the deque and nothing else (`Laid.goes`), and is the call on the list,
     so the deque represents the list in every run (`represents_of_reach`).

  3. **Views** — what a user sees of the deque then agrees with the list (`deque_refines`).
-/
import Mathlib.Data.List.Nodup
import TedkOS.Lib.Runs
import TedkOS.Lib.Storage
import TedkOS.Klibs.Deque

namespace TedkOS.Klibs

namespace Deque

open Storage

variable {T : Type}

/-! ## Elements

  What a deque owns in the heap, and the values there. -/

/-- The addresses `ps` are distinct, nothing else is allocated, and they point to `l`. -/
structure Owns (elems : Ptr → Option T) (ps : List Ptr) (l : List T) : Prop where
  /-- No address is there twice; -/
  nodup : ps.Nodup
  /-- null is not one of them; -/
  null : elems NULL = none
  /-- the `i`-th points to the `i`-th element; -/
  points : ps.map elems = l.map some
  /-- and nothing else is allocated. -/
  only : ∀ q, elems q ≠ none → q ∈ ps

namespace Owns

variable {elems elems' : Ptr → Option T} {ps ps' : List Ptr} {l l' : List T} {p q : Ptr} {i : Nat}

theorem stores (h : Owns elems ps l) : Stores elems ps l := ⟨h.nodup, h.points⟩

theorem length (h : Owns elems ps l) : ps.length = l.length := h.stores.length

theorem get (h : Owns elems ps l) (hp : ps[i]? = some p) : elems p = l[i]? := h.stores.get hp

/-- What is allocated is what the addresses are. -/
theorem mem_iff (h : Owns elems ps l) : q ∈ ps ↔ elems q ≠ none := ⟨h.stores.ne_none, h.only q⟩

/-- Nothing is allocated. -/
theorem empty (h : ∀ q, elems q = none) : Owns elems [] [] :=
  ⟨List.nodup_nil, h NULL, rfl, fun q hq => absurd (h q) hq⟩

/-- **A move** of the only owner. -/
theorem move (h : Owns elems ps l) (hm : Moves elems elems' ps ps') (hs : Stores elems' ps' l')
    (hnull : NULL ∉ ps') : Owns elems' ps' l' where
  nodup := hs.nodup
  null := hm.eq_none hnull h.null
  points := hs.points
  only := fun q hq => Classical.byContradiction fun hout =>
    hq (hm.eq_none hout
      (Classical.byContradiction fun hold => hq (hm.freed q (h.only q hold) hout)))

end Owns

/-! ## Refinement

  Of each call it is known what it does to the pointers (`Laid`) and what to the elements;
  together that is what it ought to do to the list. -/

/-- A call, with the value it is given. -/
inductive Call (T : Type) where
  | push_back (val : T)
  | push_front (val : T)
  | insert (val : T) (index : Nat)
  | pop_back
  | pop_front
  | clear

/-- What a call does to a list. -/
def onList (l : List T) : Call T → List T
  | .push_back val => l ++ [val]
  | .push_front val => val :: l
  | .insert val index => l.insertIdx index val
  | .pop_back => l.dropLast
  | .pop_front => l.tail
  | .clear => []

/-- What a call does to a deque, when `new T` returns `p` and a new array contains `raw`. -/
def call (d : Deque T) (p : Ptr) (raw : Nat → Ptr) : Call T → Deque T
  | .push_back val => d.push_back val p raw
  | .push_front val => d.push_front val p raw
  | .insert val index => d.insert val index p raw
  | .pop_back => d.pop_back raw
  | .pop_front => d.pop_front raw
  | .clear => d.clear

/-- A deque and a list beside it, which see the same calls.  `new` succeeds with an address not in
    use, and the capacity stays below 2^31. -/
def machine (T : Type) : Runs.Machine (Deque T × List T) (Call T) where
  init s := s = (new T, [])
  step s a s' := ∃ p raw, p ≠ NULL ∧ s.1.elems p = none ∧ s'.1 = s.1.call p raw a ∧
    s'.1.mCapacity < 0x80000000 ∧ s'.2 = onList s.2 a

/-- One more call in a run. -/
theorem machine_step {ok : Deque T × List T → Call T → Prop} {d : Deque T} {l : List T} {a : Call T}
    (hr : Runs.Reach (machine T) ok (d, l)) (hok : ok (d, l) a) (p : Ptr) (raw : Nat → Ptr)
    (hp : p ≠ NULL) (hfree : d.elems p = none) (hcap : (d.call p raw a).mCapacity < 0x80000000) :
    Runs.Reach (machine T) ok (d.call p raw a, onList l a) :=
  hr.step hok ⟨p, raw, hp, hfree, rfl, hcap, rfl⟩

/-- `insert` is called with an index up to `size()`. -/
def Allowed (s : Deque T × List T) : Call T → Prop
  | .insert _ index => index ≤ s.1.size
  | _ => True

/-- The deque represents the list. -/
def Represents (d : Deque T) (l : List T) : Prop := ∃ ps, Laid d ps ∧ Owns d.elems ps l

section Steps

variable {d : Deque T} {ps : List Ptr} {l : List T} {p : Ptr} {raw : Nat → Ptr} {val : T}
    {index : Nat}

/-- A call that adds an element stores it at the new address, -/
theorem elems_push_back : (d.push_back val p raw).elems = Function.update d.elems p (some val) := by
  rw [push_back]
  split
  · rfl
  · dsimp only
    rw [elems_grow]

/-- at either end -/
theorem elems_push_front :
    (d.push_front val p raw).elems = Function.update d.elems p (some val) := by
  rw [push_front]
  split
  · rfl
  · dsimp only
    rw [elems_grow]

/-- or within. -/
theorem elems_insert : (d.insert val index p raw).elems = Function.update d.elems p (some val) := by
  rw [insert]
  split
  · exact elems_push_back
  split
  · exact elems_push_front
  split
  · rfl
  · dsimp only
    rw [elems_grow]

/-- A new deque is empty. -/
theorem new_represents : Represents (new T) [] := ⟨[], _init_laid _, Owns.empty fun _ => rfl⟩

/-- The deque `d`, laid out in `ps`, goes over into `d'`, which holds `l'`.  No address but `p` is
    added. -/
def Goes (d d' : Deque T) (ps : List Ptr) (p : Ptr) (l' : List T) : Prop :=
  ∃ ps', Laid d' ps' ∧ Stores d'.elems ps' l' ∧ Moves d.elems d'.elems ps ps' ∧ ∀ q ∈ ps',
    q ∈ ps ∨ q = p

/-- `new`; `push_back` and `push_front` are insertions at the ends. -/
theorem goes_insertIdx {d' : Deque T} (hs : Stores d.elems ps l) (hi : index ≤ l.length)
    (hfree : d.elems p = none) (hl : Laid d' (ps.insertIdx index p))
    (helems : d'.elems = Function.update d.elems p (some val)) :
    Goes d d' ps p (l.insertIdx index val) := by
  have hlen := hs.length
  refine ⟨_, hl, helems ▸ hs.insert hi hfree, helems ▸ Moves.insert (by omega) hfree,
    fun q hq => ?_⟩
  rw [List.mem_insertIdx (by omega)] at hq
  exact hq.symm

/-- `delete`. -/
theorem goes_eraseIdx {d' : Deque T} {q : Ptr} (hs : Stores d.elems ps l) (hq : ps[index]? = some q)
    (hl : Laid d' (ps.eraseIdx index)) (helems : d'.elems = Function.update d.elems q none) :
    Goes d d' ps p (l.eraseIdx index) :=
  ⟨_, hl, helems ▸ hs.erase hq, helems ▸ Moves.erase hq,
    fun _ hr => Or.inl (List.mem_of_mem_eraseIdx hr)⟩

namespace Laid

/-- `push_back` takes one address and appends the element, -/
theorem goes_push_back (h : Laid d ps) (hs : Stores d.elems ps l) (hfree : d.elems p = none)
    (hcap : (d.push_back val p raw).mCapacity < 0x80000000) :
    Goes d (d.push_back val p raw) ps p (l ++ [val]) := by
  have hlaid := h.push_back hcap
  rw [← List.insertIdx_length_self, hs.length] at hlaid
  rw [← List.insertIdx_length_self]
  exact goes_insertIdx hs (Nat.le_refl _) hfree hlaid elems_push_back

/-- `push_front` puts it in front, -/
theorem goes_push_front (h : Laid d ps) (hs : Stores d.elems ps l) (hfree : d.elems p = none)
    (hcap : (d.push_front val p raw).mCapacity < 0x80000000) :
    Goes d (d.push_front val p raw) ps p (val :: l) := by
  have hlaid := h.push_front hcap
  rw [← List.insertIdx_zero] at hlaid
  rw [← List.insertIdx_zero]
  exact goes_insertIdx hs (Nat.zero_le _) hfree hlaid elems_push_front

/-- `insert` in between; -/
theorem goes_insert (h : Laid d ps) (hs : Stores d.elems ps l) (hfree : d.elems p = none)
    (hi : index ≤ d.size) (hcap : (d.insert val index p raw).mCapacity < 0x80000000) :
    Goes d (d.insert val index p raw) ps p (l.insertIdx index val) := by
  have hle : index ≤ ps.length := by rwa [Deque.size, h.size] at hi
  exact goes_insertIdx hs (hs.length ▸ hle) hfree (h.insert hle hcap) elems_insert

/-- `pop_back` and `pop_front` of an empty deque do nothing. -/
theorem goes_empty (h : Laid d []) (hs : Stores d.elems [] l) :
    l = [] ∧ d.mSize = 0 ∧ Goes d d [] p [] := by
  have hnil : l = [] := List.length_eq_zero_iff.mp hs.length.symm
  refine ⟨hnil, h.mSize_eq_zero.mpr rfl, [], h, hnil ▸ hs, Moves.refl, fun _ hq => Or.inl hq⟩

/-- `pop_back` gives up the last address -/
theorem goes_pop_back (h : Laid d ps) (hs : Stores d.elems ps l) :
    Goes d (d.pop_back raw) ps p l.dropLast := by
  rcases List.eq_nil_or_concat ps with rfl | ⟨ps, q, rfl⟩
  · obtain ⟨rfl, hzero, hgoes⟩ := h.goes_empty hs
    rw [Deque.pop_back, if_pos hzero]
    exact hgoes
  · rw [List.concat_eq_append] at h hs ⊢
    obtain ⟨hlaid, helems⟩ : Laid (d.pop_back raw) ps ∧ _ := h.pop_back
    have hlen := hs.length
    rw [List.length_append, List.length_singleton] at hlen
    have hlast : Laid (d.pop_back raw) ((ps ++ [q]).eraseIdx ps.length) := by
      rw [List.eraseIdx_append_of_length_le (Nat.le_refl _), Nat.sub_self, List.eraseIdx_cons_zero,
        List.append_nil]
      exact hlaid
    rw [← List.eraseIdx_eq_dropLast hlen]
    exact goes_eraseIdx hs (by simp) hlast helems

/-- and `pop_front` the first; -/
theorem goes_pop_front (h : Laid d ps) (hs : Stores d.elems ps l) :
    Goes d (d.pop_front raw) ps p l.tail := by
  cases ps with
  | nil =>
    obtain ⟨rfl, hzero, hgoes⟩ := h.goes_empty hs
    rw [Deque.pop_front, if_pos hzero]
    exact hgoes
  | cons q ps =>
    obtain ⟨hlaid, helems⟩ : Laid (d.pop_front raw) ps ∧ _ := h.pop_front
    rw [← List.eraseIdx_zero]
    exact goes_eraseIdx hs rfl hlaid helems

/-- The elements are freed, and nothing else is. -/
theorem moves_nullifyLoop (h : Laid d ps) :
    Moves d.elems (nullifyLoop d.mCapacity d.mContents d.mSize d.mFront d.elems) ps [] := by
  rw [h.size]
  constructor
  case outside =>
    intro q hq _
    rw [nullifyLoop_apply _ h.cap_lt h.holds h.room h.front, if_neg hq]
  case freed =>
    intro q hq _
    rw [nullifyLoop_apply _ h.cap_lt h.holds h.room h.front, if_pos hq]
  case fresh => exact fun q hq _ => absurd hq List.not_mem_nil

/-- `clear` gives up all. -/
theorem goes_clear (h : Laid d ps) : Goes d d.clear ps p [] :=
  ⟨[], _init_laid _, Stores.nil, h.moves_nullifyLoop, fun _ hq => absurd hq List.not_mem_nil⟩

/-- **One call** changes the storage of the deque and nothing else. -/
theorem goes (h : Laid d ps) (hs : Stores d.elems ps l) (a : Call T) (hfree : d.elems p = none)
    (hok : Allowed (d, l) a) (hcap : (d.call p raw a).mCapacity < 0x80000000) :
    Goes d (d.call p raw a) ps p (onList l a) := by
  cases a with
  | push_back val => exact h.goes_push_back hs hfree hcap
  | push_front val => exact h.goes_push_front hs hfree hcap
  | insert val index => exact h.goes_insert hs hfree hok hcap
  | pop_back => exact h.goes_pop_back hs
  | pop_front => exact h.goes_pop_front hs
  | clear => exact h.goes_clear

end Laid

/-- **One call**, of a deque that owns the heap. -/
theorem Represents.call (h : Represents d l) (a : Call T) (hp : p ≠ NULL) (hfree : d.elems p = none)
    (hok : Allowed (d, l) a) (hcap : (d.call p raw a).mCapacity < 0x80000000) :
    Represents (d.call p raw a) (onList l a) := by
  obtain ⟨ps, hl, ho⟩ := h
  obtain ⟨ps', hl', hs', hm, hadded⟩ := hl.goes ho.stores a hfree hok hcap
  refine ⟨ps', hl', ho.move hm hs' fun hnull => ?_⟩
  rcases hadded NULL hnull with hin | hfresh
  · exact ho.stores.ne_none hin ho.null
  · exact hp hfresh.symm

/-- **The simulation.**  In every run the deque represents the list. -/
theorem represents_of_reach {s : Deque T × List T} (hr : Runs.Reach (machine T) Allowed s) :
    Represents s.1 s.2 := by
  refine hr.invariant (I := fun s => Represents s.1 s.2) ?_ ?_
  · rintro s rfl
    exact new_represents
  · rintro s a s' h hok ⟨p, raw, hp, hfree, hd, hcap, hl⟩
    rw [hd] at hcap
    rw [hd, hl]
    exact h.call a hp hfree hok hcap

end Steps

/-- What a user of the deque sees of the list `l`, and how the ring is kept. -/
structure Agrees (d : Deque T) (l : List T) : Prop where
  size : d.size = l.length
  empty : d.empty = true ↔ l = []
  get : ∀ i x, l[i]? = some x → d.get i = .ok (some x)
  front_null : l = [] → d.front = NULL
  front : ∀ x, l.head? = some x → d.elems d.front = some x
  back_null : l = [] → d.back = NULL
  back : ∀ x, l.getLast? = some x → d.elems d.back = some x
  /-- The live slots fit, and end at `mBack`. -/
  room : d.mSize ≤ d.mCapacity
  last : 0 < d.mSize → d.mFront < d.mCapacity ∧
    d.mBack = Ring.slot d.mCapacity d.mFront (d.mSize - 1)
  /-- The live slots hold distinct addresses, those of the elements. -/
  distinct : ∀ i j, i < d.mSize → j < d.mSize →
    d.mContents (Ring.slot d.mCapacity d.mFront i) =
      d.mContents (Ring.slot d.mCapacity d.mFront j) → i = j
  owned : ∀ q, d.elems q ≠ none ↔
    ∃ i, i < d.mSize ∧ d.mContents (Ring.slot d.mCapacity d.mFront i) = q

section Views

variable {d : Deque T} {l : List T}

/-- `get` reads the element of the list. -/
theorem Represents.get (h : Represents d l) {i : Nat} {x : T} (hx : l[i]? = some x) :
    d.get i = .ok (some x) := by
  obtain ⟨ps, hl, ho⟩ := h
  obtain ⟨hi, -⟩ := List.getElem?_eq_some_iff.mp hx
  have hip : i < ps.length := ho.length ▸ hi
  have hne : ps ≠ [] := List.length_pos_iff.mp (by omega)
  have hfront := hl.front hne
  have hcap := hl.cap_lt
  have hroom := hl.room
  have hget := hl.holds i ps[i] (List.getElem?_eq_getElem hip)
  rw [Ring.slot] at hget
  rw [Deque.get, if_neg (by rw [hl.size]; omega), size_t_of_lt (by omega), hget,
    ho.get (List.getElem?_eq_getElem hip), hx]

/-- All that can be seen of the deque is of the list. -/
theorem Represents.agrees (h : Represents d l) : Agrees d l := by
  have hget := @Represents.get T d l h
  obtain ⟨ps, hl, ho⟩ := h
  have hlen := ho.length
  have hnil : d.mSize = 0 ↔ l = [] := by rw [hl.size, hlen, List.length_eq_zero_iff]
  have hpos : l ≠ [] → 0 < ps.length := fun hne => hlen ▸ List.length_pos_iff.mpr hne
  constructor
  case size => exact hl.size.trans hlen
  case empty => rw [Deque.empty, beq_iff_eq, hnil]
  case get => exact fun i x => hget
  case front_null =>
    intro h0
    rw [Deque.front, if_pos (hnil.mpr h0)]
  case front =>
    intro x hx
    have hpos := hpos fun hnil => by rw [hnil] at hx; cases hx
    have h0 := hl.holds.get hpos
    rw [Ring.slot_zero (hl.front (List.length_pos_iff.mp hpos))] at h0
    rw [Deque.front, if_neg (by rw [hl.size]; omega), h0,
      ho.get (List.getElem?_eq_getElem hpos), ← List.head?_eq_getElem?, hx]
  case back_null =>
    intro h0
    rw [Deque.back, if_pos (hnil.mpr h0)]
  case back =>
    intro x hx
    have hpos := hpos fun hnil => by rw [hnil] at hx; cases hx
    have hlast : ps.length - 1 < ps.length := by omega
    rw [Deque.back, if_neg (by rw [hl.size]; omega), hl.back (List.length_pos_iff.mp hpos),
      hl.holds.get hlast, ho.get (List.getElem?_eq_getElem hlast), hlen,
      ← List.getLast?_eq_getElem?, hx]
  -- the rest is about the ring: within the array, and every cell named by one slot
  case room =>
    rw [hl.size]
    exact hl.room
  case last =>
    intro hpos
    rw [hl.size] at hpos ⊢
    have hne := List.length_pos_iff.mp hpos
    exact ⟨hl.front hne, hl.back hne⟩
  case distinct =>
    intro i j hi hj hij
    rw [hl.size] at hi hj
    rw [hl.holds.get hi, hl.holds.get hj] at hij
    exact (List.Nodup.getElem_inj_iff ho.nodup).mp hij
  case owned =>
    intro q
    rw [← ho.mem_iff, hl.size, List.mem_iff_getElem]
    constructor
    · rintro ⟨i, hi, rfl⟩
      exact ⟨i, hi, hl.holds.get hi⟩
    · rintro ⟨i, hi, rfl⟩
      exact ⟨i, hi, (hl.holds.get hi).symm⟩

end Views

/-- **A deque refines a list**: whatever is called, in every run. -/
theorem deque_refines (T : Type) (s : Deque T × List T) (hr : Runs.Reach (machine T) Allowed s) :
    Agrees s.1 s.2 := (represents_of_reach hr).agrees

/-- A run that inserts in the middle. -/
theorem deque_refines_insert : ∃ d : Deque Nat, Agrees d [1, 3, 2] := by
  have h0 : Runs.Reach (machine Nat) Allowed (new Nat, []) := .init rfl
  let raw : Nat → Ptr := fun _ => 7
  have h1 := machine_step h0 (a := .push_back 1) trivial 8 raw (by decide) rfl (by decide)
  have h2 := machine_step h1 (a := .push_back 2) trivial 16 raw (by decide) (by decide) (by decide)
  have h3 := machine_step h2 (a := .insert 3 1) (show 1 ≤ 2 by decide) 24 raw (by decide)
    (by decide) (by decide)
  exact ⟨_, deque_refines Nat _ h3⟩

end Deque

end TedkOS.Klibs
