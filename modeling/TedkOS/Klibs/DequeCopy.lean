/-
  Several deques in one heap: construction, copies, assignment and destruction.

  1. **Program** — `_clear`, `_copy`, the constructors, the destructor and `operator=`
     (inc/klibs/deque.h).  A deque object is named by what stands for its address, so `*this` and
     `other` may be one object: all reads and writes go to the objects as they are at that point.
     Reading an element that is not there is the outcome `none`.

  2. **Runs** — any number of deques, each beside the list it represents.  `Separate` says that
     every deque represents its list with elements of its own.

  3. **Copies** — a copy construction, and an assignment to another object, go right; so does every
     run of proper events.  `operator=` deletes the elements before it copies them, so the
     assignment of a deque to itself goes right only if the deque is empty (`copiesRight_iff`).

  The invariant is `Good`: the rings are laid out, and the elements of all deques together are the
  cells in use, each owned by one deque (`Apart`).  An event changes the ring of one deque and
  moves that owner from some cells to others, new ones free before and old ones free afterwards;
  so the frame rule of the storage (`Apart.move`) leaves the lists of the others as they are.
  Assigning a deque to itself is no such move: the cells that are read have just been given up.
-/
import TedkOS.Klibs.DequeRuns

namespace TedkOS.Klibs

open Storage

/-! ## Program -/

/-- The members of a deque. -/
structure Object where
  mCapacity : Nat
  mSize : Nat
  mFront : Nat
  mBack : Nat
  /-- The pointers in the ring. -/
  mContents : Nat → Ptr

/-- A deque, if `elems` is its part of the heap. -/
def Object.deque {T : Type} (o : Object) (elems : Ptr → Option T) : Deque T :=
  ⟨o.mCapacity, o.mSize, o.mFront, o.mBack, o.mContents, elems⟩

/-- The members of a deque, without its elements. -/
def Deque.object {T : Type} (d : Deque T) : Object :=
  ⟨d.mCapacity, d.mSize, d.mFront, d.mBack, d.mContents⟩

/-- The pointers in the ring. -/
def Object.pointers (o : Object) : List Ptr :=
  (List.range o.mSize).map fun i => o.mContents (Ring.slot o.mCapacity o.mFront i)

/-- The deques of a program, and the heap with their elements. -/
structure Deques (ι T : Type) where
  objs : ι → Object
  heap : Ptr → Option T

namespace Deques

variable {ι T : Type} [DecidableEq ι]

/-- One deque, with the elements it points to. -/
def deque (w : Deques ι T) (a : ι) : Deque T := (w.objs a).deque w.heap

/-- What an operation on `a` leaves. -/
def put (w : Deques ι T) (a : ι) (d : Deque T) : Deques ι T where
  objs := Function.update w.objs a d.object
  heap := d.elems

/-- `Deque()`. -/
def construct (w : Deques ι T) (a : ι) : Deques ι T := w.put a (Deque._init w.heap)

/-- `push_back` and so on. -/
def call (w : Deques ι T) (a : ι) (c : Deque.Call T) (p : Ptr) (raw : Nat → Ptr) : Deques ι T :=
  w.put a ((w.deque a).call p raw c)

/-- `_clear()`. -/
def _clear (w : Deques ι T) (a : ι) : Deques ι T :=
  let o := w.objs a
  { objs := Function.update w.objs a { o with mContents := fun _ => NULL }
    heap := Deque.nullifyLoop o.mCapacity o.mContents o.mSize o.mFront w.heap }

/-- `mContents[item] = new T(x);` of `a`, where `new` returns `p`. -/
def storeElem (w : Deques ι T) (a : ι) (item : Nat) (p : Ptr) (x : T) : Deques ι T :=
  let o := w.objs a
  { objs := Function.update w.objs a { o with mContents := Function.update o.mContents item p }
    heap := Function.update w.heap p (some x) }

/-- The loop of `_copy`; `new T` returns the addresses `news` one after the other. -/
def copyElems (a other : ι) : Nat → Nat → List Ptr → Deques ι T → Option (Deques ι T)
  | 0, _, _, w => some w
  | _ + 1, _, [], _ => none
  | rounds + 1, item, p :: news, w => do
    let x ← w.heap ((w.objs other).mContents item)
    copyElems a other rounds (size_t (item + 1) % (w.objs a).mCapacity) news
      (w.storeElem a item p x)

/-- `_copy(other)`; the new array contains `raw`. -/
def _copy (w : Deques ι T) (a other : ι) (news : List Ptr) (raw : Nat → Ptr) :
    Option (Deques ι T) :=
  let o : Object :=
    { mSize := (w.objs other).mSize
      mCapacity := (w.objs other).mCapacity
      mFront := (w.objs other).mFront
      mBack := (w.objs other).mBack
      mContents := raw }
  copyElems a other o.mSize o.mFront news { w with objs := Function.update w.objs a o }

/-- `Deque(const Deque<T>& other)`. -/
def copyConstruct (w : Deques ι T) (a other : ι) (news : List Ptr) (raw : Nat → Ptr) :
    Option (Deques ι T) :=
  w._copy a other news raw

/-- `operator=`. -/
def assign (w : Deques ι T) (a other : ι) (news : List Ptr) (raw : Nat → Ptr) :
    Option (Deques ι T) :=
  (w._clear a)._copy a other news raw

/-- `~Deque()`. -/
def destroy (w : Deques ι T) (a : ι) : Deques ι T := w._clear a

/-! ## Runs

  A state has the list beside each deque, and an event does to the list what it is meant to do to
  the deque.  So correctness is an invariant of the pair (`Separate`).  `Proper` are the events
  of a program that uses objects it has, and does not assign a deque with elements to itself. -/

/-- The deques, and the list beside each; `none` if there is no object. -/
abbrev State (ι T : Type) := Deques ι T × (ι → Option (List T))

/-- `n` addresses that `new` may return one after the other. -/
structure Fresh (heap : Ptr → Option T) (news : List Ptr) (n : Nat) : Prop where
  /-- As many as are asked for, -/
  length : news.length = n
  /-- each once, -/
  nodup : news.Nodup
  /-- and none of them null -/
  not_null : NULL ∉ news
  /-- or in use. -/
  free : ∀ p ∈ news, heap p = none

/-- What happens to the deques of a program. -/
inductive Event (ι T : Type) where
  | construct (a : ι)
  | copyConstruct (a other : ι)
  | assign (a other : ι)
  | call (a : ι) (c : Deque.Call T)
  | destroy (a : ι)

/-- What an event does to the deques and to the lists. -/
def step (s : State ι T) : Event ι T → State ι T → Prop
  | .construct a, s' => s' = (s.1.construct a, Function.update s.2 a (some []))
  | .copyConstruct a other, s' => ∃ news raw, Fresh s.1.heap news (s.1.objs other).mSize ∧
      s.1.copyConstruct a other news raw = some s'.1 ∧ s'.2 = Function.update s.2 a (s.2 other)
  | .assign a other, s' =>
      ∃ news raw, Fresh (s.1._clear a).heap news ((s.1._clear a).objs other).mSize ∧
      s.1.assign a other news raw = some s'.1 ∧ s'.2 = Function.update s.2 a (s.2 other)
  | .call a c, s' => ∃ p raw, p ≠ NULL ∧ s.1.heap p = none ∧ s'.1 = s.1.call a c p raw ∧
      (s'.1.objs a).mCapacity < 0x80000000 ∧
      s'.2 = Function.update s.2 a ((s.2 a).map fun l => Deque.onList l c)
  | .destroy a, s' => s' = (s.1.destroy a, Function.update s.2 a none)

/-- At first there are no deques, and nothing is allocated. -/
def machine (ι T : Type) [DecidableEq ι] : Runs.Machine (State ι T) (Event ι T) where
  init s := s.1.heap = (fun _ => none) ∧ s.2 = fun _ => none
  step := step

/-- Objects are used between construction and destruction, `insert` is called with an index up to
    `size()`, and a deque that is not empty is not assigned to itself. -/
def Proper (s : State ι T) : Event ι T → Prop
  | .construct a => s.2 a = none
  | .copyConstruct a other => s.2 a = none ∧ s.2 other ≠ none
  | .assign a other => s.2 a ≠ none ∧ s.2 other ≠ none ∧ (a ≠ other ∨ (s.1.objs other).mSize = 0)
  | .call a c => ∃ l, s.2 a = some l ∧ Deque.Allowed (s.1.deque a, l) c
  | .destroy a => s.2 a ≠ none

/-- The object `a` with the elements in its ring. -/
def own (w : Deques ι T) (a : ι) : Deque T :=
  (w.objs a).deque fun q => if q ∈ (w.objs a).pointers then w.heap q else none

/-- Every deque represents its list, with elements of its own. -/
structure Separate (s : State ι T) : Prop where
  /-- Each represents its list, -/
  represents : ∀ a l, s.2 a = some l → Deque.Represents (s.1.own a) l
  /-- and no two share an element. -/
  apart : ∀ a b, a ≠ b → s.2 a ≠ none → s.2 b ≠ none →
    ∀ q ∈ (s.1.objs a).pointers, q ∉ (s.1.objs b).pointers

/-- In `s` and in whatever it is turned into later. -/
def StaysSeparate (s : State ι T) : Prop :=
  ∀ s', Runs.Reach ((machine ι T).startedIn s) Proper s' → Separate s'

/-! ### The invariant

  `held` are the cells that each deque has, read off its ring.  `Good.change` is the one place
  where the lists of the OTHER deques are looked at: an event that moves the cells of one deque
  keeps what they store. -/

section Invariant

omit [DecidableEq ι]

variable {w w' : Deques ι T} {s : State ι T} {a b : ι} {ps ps' qs news : List Ptr} {l : List T}
  {o : Option (List T)} {raw : Nat → Ptr}

/-- The pointers of a ring that is laid out. -/
theorem pointers_eq {d : Deque T} (h : Deque.Laid d ps) : d.object.pointers = ps := by
  refine List.ext_getElem ?_ fun i hi hi' => ?_
  · rw [Object.pointers, List.length_map, List.length_range]
    exact h.size
  · simp only [Object.pointers, List.getElem_map, List.getElem_range]
    exact h.holds.get hi'

/-- The layout is a matter of the object. -/
theorem laid_of_object {d d' : Deque T} (h : Deque.Laid d ps) (ho : d'.object = d.object) :
    Deque.Laid d' ps := by
  obtain ⟨cap, size, front, back, contents, elems⟩ := d
  obtain ⟨cap', size', front', back', contents', elems'⟩ := d'
  obtain ⟨rfl, rfl, rfl, rfl, rfl⟩ := Object.mk.inj ho
  exact ⟨h.size, h.room, h.cap_pos, h.cap_lt, h.holds, h.front, h.back⟩

/-- The elements of `a`, if there is such an object. -/
def held (s : State ι T) (a : ι) : List Ptr := (s.2 a).elim [] fun _ => (s.1.objs a).pointers

/-- **The invariant.**  Every ring is laid out, and the elements are apart. -/
structure Good (s : State ι T) : Prop where
  /-- The ring of a live deque is laid out; -/
  laid : ∀ a, s.2 a ≠ none → Deque.Laid (s.1.deque a) (s.1.objs a).pointers
  /-- the elements of all of them are apart, and store what the lists say. -/
  apart : Apart s.1.heap (held s) fun a => (s.2 a).getD []
  /-- Nothing is at the null pointer, -/
  null : s.1.heap NULL = none
  /-- and there is always an address left for `new`. -/
  bound : ∃ n : Nat, ∀ q : Nat, n ≤ q → s.1.heap q = none

/-- A deque that is not live holds nothing; -/
theorem held_none (ha : s.2 a = none) : held s a = [] := by
  rw [held, ha, Option.elim_none]

/-- a live one holds its ring's elements. -/
theorem held_some (ha : s.2 a ≠ none) : held s a = (s.1.objs a).pointers := by
  obtain ⟨l, hl⟩ := Option.ne_none_iff_exists'.mp ha
  rw [held, hl, Option.elim_some]

/-- What an object that is there stores. -/
theorem Good.stores (h : Good s) (ha : s.2 a = some l) :
    Stores s.1.heap (s.1.objs a).pointers l := by
  have hne : s.2 a ≠ none := by rw [ha]; exact Option.some_ne_none l
  have hs := h.apart.stores a
  rwa [held_some hne, ha] at hs

/-- A list of addresses ends somewhere. -/
theorem exists_above (ps : List Nat) : ∃ n, ∀ q ∈ ps, q < n := by
  induction ps with
  | nil => exact ⟨0, fun q hq => absurd hq List.not_mem_nil⟩
  | cons p ps ih =>
    obtain ⟨n, hn⟩ := ih
    refine ⟨max n (p + 1), fun q hq => ?_⟩
    rcases List.mem_cons.mp hq with rfl | hq
    · omega
    · have hlt := hn q hq
      omega

/-- **An event** that changes one object, and in the heap no more than its elements. -/
theorem Good.change [DecidableEq ι] (h : Good s) (ps' : List Ptr)
    (hobjs : ∀ b, b ≠ a → w'.objs b = s.1.objs b) (hlaid : o ≠ none → Deque.Laid (w'.deque a) ps')
    (hnone : o = none → ps' = []) (hs : Stores w'.heap ps' (o.getD []))
    (hm : Moves s.1.heap w'.heap (held s a) ps') (hnull : NULL ∉ ps') :
    Good (w', Function.update s.2 a o) := by
  constructor
  case laid =>
    intro b (hb : Function.update s.2 a o b ≠ none)
    by_cases hba : b = a
    · subst hba
      rw [Function.update_self] at hb
      have hl := hlaid hb
      exact (pointers_eq hl).symm ▸ hl
    · rw [Function.update_of_ne hba] at hb
      show Deque.Laid (w'.deque b) (w'.objs b).pointers
      rw [hobjs b hba]
      exact laid_of_object (h.laid b hb)
        (congrArg (fun o : Object => (o.deque w'.heap).object) (hobjs b hba))
  case apart =>
    -- the cells held are those from before, but for the object that changed; likewise the lists
    have hheld : held (w', Function.update s.2 a o) = Function.update (held s) a ps' := by
      funext b
      by_cases hba : b = a
      · subst hba
        rw [Function.update_self]
        cases o with
        | none => rw [held_none (Function.update_self ..), hnone rfl]
        | some l =>
          have hne : Function.update s.2 b (some l) b ≠ none := by
            rw [Function.update_self]
            exact Option.some_ne_none l
          rw [held_some hne]
          exact pointers_eq (hlaid (Option.some_ne_none l))
      · rw [Function.update_of_ne hba, held, held]
        dsimp only
        rw [Function.update_of_ne hba, hobjs b hba]
    have hlists : (fun b => (Function.update s.2 a o b).getD []) =
        Function.update (fun b => (s.2 b).getD []) a (o.getD []) := by
      funext b
      by_cases hba : b = a
      · subst hba
        rw [Function.update_self, Function.update_self]
      · rw [Function.update_of_ne hba, Function.update_of_ne hba]
    have hapart := h.apart.move hm hs
    rw [← hheld, ← hlists] at hapart
    exact hapart
  case null => exact hm.eq_none hnull h.null
  case bound =>
    obtain ⟨n, hn⟩ := h.bound
    obtain ⟨m, hps⟩ := exists_above ps'
    refine ⟨max n m, fun q hq => hm.eq_none (fun hin => ?_) (hn q (by omega))⟩
    have hlt := hps q hin
    omega

end Invariant

/-! ### Copying

  `_copy` takes over the indices of the other ring and then fills the slots, one element after
  another.  The new cells were free, so no store changes an element still to be read.  Where a
  deque is assigned to itself the first read finds nothing: its elements have been deleted. -/

section Copying

variable {w : Deques ι T} {a b : ι} {ps qs news : List Ptr} {l : List T} {raw : Nat → Ptr}
  {cap front item : Nat}

/-- Storing an element changes the ring it goes into, -/
theorem storeElem_self (w : Deques ι T) (a : ι) (item : Nat) (p : Ptr) (x : T) :
    (w.storeElem a item p x).objs a =
    { w.objs a with mContents := Function.update (w.objs a).mContents item p } :=
  Function.update_self ..

/-- and no other. -/
theorem storeElem_of_ne {x : T} {p : Ptr} (hb : b ≠ a) :
    (w.storeElem a item p x).objs b = w.objs b :=
  Function.update_of_ne hb _ _

omit [DecidableEq ι] in
/-- The cells that are left for the other copies. -/
theorem Fresh.rest {heap : Ptr → Option T} {p : Ptr} {x : T} {n : Nat}
    (h : Fresh heap (p :: news) (n + 1)) :
    Fresh (Function.update heap p (some x)) news n := by
  obtain ⟨hout, hnodup⟩ := List.nodup_cons.mp h.nodup
  constructor
  case length => exact Nat.succ.inj h.length
  case nodup => exact hnodup
  case not_null => exact fun hin => h.not_null (List.mem_cons_of_mem p hin)
  case free =>
    intro r hr
    have hne : r ≠ p := by
      rintro rfl
      exact hout hr
    rw [Function.update_of_ne hne]
    exact h.free r (List.mem_cons_of_mem p hr)

/-- The loop of `_copy` lays out the copies at the positions of the originals. -/
theorem copyElems_spec (hab : a ≠ b) (hcap : cap < 0x80000000) (ps : List Ptr)
    (hthis : (w.objs a).mCapacity = cap) (hps : Ring.Holds (w.objs a).mContents cap front ps)
    (hitem : item = Ring.slot cap front ps.length)
    (hqs : Ring.Holds (w.objs b).mContents cap item qs) (hroom : ps.length + qs.length ≤ cap)
    (hl : qs.map w.heap = l.map some) (hnews : Fresh w.heap news qs.length) :
    ∃ w' c, copyElems a b qs.length item news w = some w' ∧
      w'.objs = Function.update w.objs a { w.objs a with mContents := c } ∧
      Ring.Holds c cap front (ps ++ news) ∧ Stores w'.heap news l ∧
      Moves w.heap w'.heap [] news := by
  induction qs generalizing w item news l ps with
  | nil =>
    obtain rfl := List.length_eq_zero_iff.mp hnews.length
    obtain rfl : l = [] := by simpa using hl.symm
    refine ⟨w, (w.objs a).mContents, rfl, (Function.update_eq_self a w.objs).symm, ?_, Stores.nil,
      Moves.refl⟩
    rwa [List.append_nil]
  | cons q qs ih =>
    obtain ⟨p, news, rfl⟩ : ∃ p news', news = p :: news' :=
      List.exists_cons_of_length_eq_add_one hnews.length
    obtain ⟨x, l, rfl⟩ : ∃ x l', l = x :: l' := by
      cases l with
      | nil => exact absurd hl (by simp)
      | cons x l => exact ⟨x, l, rfl⟩
    rw [List.map_cons, List.map_cons, List.cons.injEq] at hl
    rw [List.length_cons] at hroom
    have hout : p ∉ news := (List.nodup_cons.mp hnews.nodup).1
    have hlt : item < cap := hitem ▸ Ring.slot_lt (by omega)
    -- the round reads the first element that is left, and stores a copy of it in a new cell
    have hread : (w.objs b).mContents item = q := by
      have h0 := hqs 0 q rfl
      rwa [Ring.slot_zero hlt] at h0
    have hself := storeElem_self w a item p x
    have hstep : size_t (item + 1) % cap = (item + 1) % cap := Deque.step_forward hcap hlt
    -- one position further on, in both rings; the copy that was just made is the last of `ps`
    have hrest : ∃ w' c,
        copyElems a b qs.length (size_t (item + 1) % cap) news (w.storeElem a item p x) = some w' ∧
        w'.objs = Function.update (w.storeElem a item p x).objs a
          { (w.storeElem a item p x).objs a with mContents := c } ∧
        Ring.Holds c cap front (ps ++ [p] ++ news) ∧ Stores w'.heap news l ∧
        Moves (w.storeElem a item p x).heap w'.heap [] news := by
      apply ih
      case hthis =>
        rw [hself]
        exact hthis
      case hps =>
        rw [hself, hitem]
        exact hps.snoc (by omega)
      case hitem => rw [hstep, hitem, Ring.slot_succ, List.length_append, List.length_singleton]
      -- `b` is another object, so its slots are what they were
      case hqs =>
        rw [storeElem_of_ne hab.symm, hstep]
        exact hqs.tail
      case hroom =>
        rw [List.length_append, List.length_singleton]
        omega
      -- and the cell was free, so its elements are too
      case hl => exact Stores.points_update hl.2 (hnews.free p List.mem_cons_self)
      case hnews => exact hnews.rest
    obtain ⟨w', c, hrun, hobjs, hc, hs, hm⟩ := hrest
    refine ⟨w', c, ?_, ?_, ?_, ?_, ?_⟩
    · rw [List.length_cons, copyElems, hread, hl.1, ← hrun, ← hthis]
      rfl
    · rw [hobjs, hself, storeElem, Function.update_idem]
    · rwa [List.append_assoc, List.singleton_append] at hc
    · refine hs.cons hout ?_
      rw [hm.outside p List.not_mem_nil hout]
      exact Function.update_self ..
    · exact hm.store hnews.free

omit [DecidableEq ι] in
/-- Other pointers at the same positions. -/
theorem laid_positions {d : Deque T} (c : Nat → Ptr) (elems : Ptr → Option T) (h : Deque.Laid d qs)
    (hlen : news.length = qs.length) (hc : Ring.Holds c d.mCapacity d.mFront news) :
    Deque.Laid { d with mContents := c, elems := elems } news := by
  have hne : news ≠ [] → qs ≠ [] := by
    intro hnews hqs
    rw [hqs, List.length_nil, List.length_eq_zero_iff] at hlen
    exact hnews hlen
  constructor
  case size => exact h.size.trans hlen.symm
  case room => exact hlen ▸ h.room
  case cap_pos => exact h.cap_pos
  case cap_lt => exact h.cap_lt
  case holds => exact hc
  case front => exact fun hnews => h.front (hne hnews)
  case back => exact fun hnews => hlen ▸ h.back (hne hnews)

/-- **`_copy`**, from another object or from an empty one. -/
theorem _copy_spec (raw : Nat → Ptr) (hab : a ≠ b ∨ (w.objs b).mSize = 0)
    (h : Deque.Laid (w.deque b) qs) (hs : Stores w.heap qs l)
    (hnews : Fresh w.heap news (w.objs b).mSize) :
    ∃ w', w._copy a b news raw = some w' ∧ (∀ c, c ≠ a → w'.objs c = w.objs c) ∧
      Deque.Laid (w'.deque a) news ∧ Stores w'.heap news l ∧ Moves w.heap w'.heap [] news := by
  have hsize : (w.objs b).mSize = qs.length := h.size
  have hlen : news.length = qs.length := hnews.length.trans hsize
  rw [_copy]
  by_cases hzero : (w.objs b).mSize = 0
  · -- nothing to copy, and so nothing to read: this is the one case in which `a` may be `b`
    obtain rfl : qs = [] := List.length_eq_zero_iff.mp (hsize ▸ hzero)
    obtain rfl : news = [] := List.length_eq_zero_iff.mp hlen
    obtain rfl : l = [] := List.length_eq_zero_iff.mp hs.length.symm
    dsimp only
    rw [hzero, copyElems]
    refine ⟨_, rfl, fun c hc => Function.update_of_ne hc _ _, ?_, Stores.nil, Moves.refl⟩
    refine laid_of_object (laid_positions raw w.heap h rfl Ring.Holds.nil) ?_
    show Function.update w.objs a
      ⟨(w.objs b).mCapacity, 0, (w.objs b).mFront, (w.objs b).mBack, raw⟩ a = _
    rw [Function.update_self, ← hzero]
    rfl
  · have hother := hab.resolve_right hzero
    have hfront : (w.objs b).mFront < (w.objs b).mCapacity :=
      h.front (List.length_pos_iff.mp (by omega))
    let o : Object := { w.objs b with mContents := raw }
    have hthis : Function.update w.objs a o a = o := Function.update_self ..
    -- the loop starts with the indices of `b` and a ring that holds nothing yet
    have hloop : ∃ w' c, copyElems a b qs.length (w.objs b).mFront news
          { w with objs := Function.update w.objs a o } = some w' ∧
        w'.objs = Function.update (Function.update w.objs a o) a
          { Function.update w.objs a o a with mContents := c } ∧
        Ring.Holds c (w.objs b).mCapacity (w.objs b).mFront ([] ++ news) ∧ Stores w'.heap news l ∧
        Moves w.heap w'.heap [] news := by
      apply copyElems_spec hother h.cap_lt []
      case hthis =>
        show (Function.update w.objs a o a).mCapacity = (w.objs b).mCapacity
        rw [hthis]
      case hps => exact Ring.Holds.nil
      case hitem => exact (Ring.slot_zero hfront).symm
      case hqs =>
        show Ring.Holds (Function.update w.objs a o b).mContents _ _ _
        rw [Function.update_of_ne hother.symm]
        exact h.holds
      case hroom => simpa using h.room
      case hl => exact hs.points
      case hnews => exact hsize ▸ hnews
    obtain ⟨w', c, hrun, hobjs, hc, hs', hm⟩ := hloop
    rw [hthis, Function.update_idem] at hobjs
    refine ⟨w', ?_, fun c hc => ?_, ?_, hs', hm⟩
    · rw [← hsize] at hrun
      exact hrun
    · rw [hobjs, Function.update_of_ne hc]
    · refine laid_of_object (laid_positions c w.heap h hlen hc) ?_
      rw [deque, hobjs, Function.update_self]
      rfl

end Copying

/-! ### Events

  One lemma for each: its moves, and the list it leaves.  Clearing gives all cells of a deque
  back, and an assignment is clearing and then copying. -/

section Events

variable {s s' : State ι T} {a b : ι} {news : List Ptr} {l : List T} {raw : Nat → Ptr} {p : Ptr}

/-- At the start no deque is live. -/
theorem good_init (hs : (machine ι T).init s) : Good s := by
  obtain ⟨⟨objs, heap⟩, lists⟩ := s
  obtain ⟨rfl, rfl⟩ : heap = (fun _ => none) ∧ lists = fun _ => none := hs
  constructor
  case laid => exact fun a ha => absurd rfl ha
  case apart => exact Apart.free fun _ => rfl
  case null => rfl
  case bound => exact ⟨0, fun _ _ => rfl⟩

/-- A call of one deque leaves the members of the others, -/
theorem put_of_ne {w : Deques ι T} {d : Deque T} (hb : b ≠ a) : (w.put a d).objs b = w.objs b :=
  Function.update_of_ne hb _ _

/-- and its own are what the call makes them. -/
theorem object_put (w : Deques ι T) (a : ι) (d : Deque T) :
    ((w.put a d).deque a).object = d.object := by
  show Function.update w.objs a d.object a = d.object
  exact Function.update_self ..

/-- `Deque()`. -/
theorem Good.construct (h : Good s) (ha : s.2 a = none) :
    Good (s.1.construct a, Function.update s.2 a (some [])) := by
  apply h.change [] fun b hb => put_of_ne hb
  case hlaid => exact fun _ => laid_of_object (Deque._init_laid s.1.heap) (object_put s.1 a _)
  case hnone => exact fun _ => rfl
  case hs => exact Stores.nil
  case hm =>
    rw [held_none ha]
    exact Moves.refl
  case hnull => exact List.not_mem_nil

/-- A call on one of the deques. -/
theorem Good.call (h : Good s) {c : Deque.Call T} (ha : s.2 a = some l)
    (hok : Deque.Allowed (s.1.deque a, l) c) (hp : p ≠ NULL) (hfree : s.1.heap p = none)
    (hcap : ((s.1.call a c p raw).objs a).mCapacity < 0x80000000) :
    Good (s.1.call a c p raw, Function.update s.2 a (some (Deque.onList l c))) := by
  have hne : s.2 a ≠ none := by rw [ha]; exact Option.some_ne_none l
  have hobj : ((s.1.call a c p raw).objs a) = ((s.1.deque a).call p raw c).object :=
    Function.update_self ..
  rw [hobj] at hcap
  obtain ⟨ps', hl', hs', hm, hadded⟩ := (h.laid a hne).goes (h.stores ha) c hfree hok hcap
  apply h.change ps' fun b hb => put_of_ne hb
  case hlaid => exact fun _ => laid_of_object hl' (object_put s.1 a _)
  case hnone => exact fun hnone => absurd hnone (Option.some_ne_none _)
  case hs => exact hs'
  case hm =>
    rw [held_some hne]
    exact hm
  case hnull =>
    intro hnull
    rcases hadded NULL hnull with hin | hfresh
    · exact (h.stores ha).ne_none hin h.null
    · exact hp hfresh.symm

/-- `_clear()` frees the elements of the object. -/
theorem Good.moves_clear (h : Good s) (ha : s.2 a ≠ none) :
    Moves s.1.heap (s.1._clear a).heap (held s a) [] := by
  rw [held_some ha]
  exact (h.laid a ha).moves_nullifyLoop

/-- So does clearing one. -/
theorem _clear_of_ne {w : Deques ι T} (hb : b ≠ a) : (w._clear a).objs b = w.objs b :=
  Function.update_of_ne hb _ _

/-- `~Deque()`. -/
theorem Good.destroy (h : Good s) (ha : s.2 a ≠ none) :
    Good (s.1.destroy a, Function.update s.2 a none) := by
  apply h.change [] fun b hb => _clear_of_ne hb
  case hlaid => exact fun hne => absurd rfl hne
  case hnone => exact fun _ => rfl
  case hs => exact Stores.nil
  case hm => exact h.moves_clear ha
  case hnull => exact List.not_mem_nil

/-- **Copy construction.** -/
theorem Good.copyConstruct (h : Good s) (raw : Nat → Ptr) (ha : s.2 a = none) (hb : s.2 b = some l)
    (hnews : Fresh s.1.heap news (s.1.objs b).mSize) :
    ∃ w', s.1.copyConstruct a b news raw = some w' ∧ Good (w', Function.update s.2 a (s.2 b)) := by
  have hbne : s.2 b ≠ none := by rw [hb]; exact Option.some_ne_none l
  have hab : a ≠ b := by
    rintro rfl
    exact hbne ha
  obtain ⟨w', hrun, hobjs, hl', hs', hm⟩ :=
    _copy_spec raw (Or.inl hab) (h.laid b hbne) (h.stores hb) hnews
  refine ⟨w', hrun,
    h.change news hobjs (fun _ => hl') (fun hnone => absurd hnone hbne) ?_ ?_ hnews.not_null⟩
  · rw [hb]
    exact hs'
  · rw [held_none ha]
    exact hm

/-- After the `_clear()` of an assignment the source is still what it was, unless it is the target;
    then it was empty. -/
theorem Good.after_clear (h : Good s) (ha : s.2 a ≠ none) (hb : s.2 b = some l)
    (hab : a ≠ b ∨ (s.1.objs b).mSize = 0) :
    ((s.1._clear a).objs b).mSize = (s.1.objs b).mSize ∧
    Deque.Laid ((s.1._clear a).deque b) (s.1.objs b).pointers ∧
    Stores (s.1._clear a).heap (s.1.objs b).pointers l := by
  have hbne : s.2 b ≠ none := by rw [hb]; exact Option.some_ne_none l
  by_cases hne : b = a
  · subst hne
    have hzero := hab.resolve_left fun hself => hself rfl
    have hl := h.laid b hbne
    have hnil : (s.1.objs b).pointers = [] := hl.mSize_eq_zero.mp hzero
    have hobj : (s.1._clear b).objs b = { s.1.objs b with mContents := fun _ => NULL } :=
      Function.update_self ..
    have hs := h.stores hb
    rw [hnil] at hl hs ⊢
    obtain rfl : l = [] := List.length_eq_zero_iff.mp hs.length.symm
    refine ⟨by rw [hobj], ?_, Stores.nil⟩
    exact laid_of_object (laid_positions (fun _ => NULL) s.1.heap hl rfl Ring.Holds.nil) hobj
  · have hobj : (s.1._clear a).objs b = s.1.objs b := _clear_of_ne hne
    refine ⟨congrArg Object.mSize hobj, laid_of_object (h.laid b hbne) hobj, ?_⟩
    refine (h.stores hb).congr fun q hq => (h.moves_clear ha).outside q ?_ List.not_mem_nil
    exact h.apart.apart b a hne q (held_some hbne ▸ hq)

/-- **Assignment**, unless a deque that is not empty is assigned to itself. -/
theorem Good.assign (h : Good s) (raw : Nat → Ptr) (ha : s.2 a ≠ none) (hb : s.2 b = some l)
    (hab : a ≠ b ∨ (s.1.objs b).mSize = 0)
    (hnews : Fresh (s.1._clear a).heap news ((s.1._clear a).objs b).mSize) :
    ∃ w', s.1.assign a b news raw = some w' ∧ Good (w', Function.update s.2 a (s.2 b)) := by
  have hbne : s.2 b ≠ none := by rw [hb]; exact Option.some_ne_none l
  obtain ⟨hsize, hl, hs⟩ := h.after_clear ha hb hab
  obtain ⟨w', hrun, hobjs, hl', hs', hm⟩ :=
    _copy_spec raw (hab.imp_right hsize.trans) hl hs hnews
  refine ⟨w', hrun, h.change news (fun c hc => (hobjs c hc).trans (_clear_of_ne hc)) (fun _ => hl')
    (fun hnone => absurd hnone hbne) ?_ ((h.moves_clear ha).trans hm) hnews.not_null⟩
  rw [hb]
  exact hs'

/-- **One proper event.** -/
theorem Good.step {e : Event ι T} (h : Good s) (hok : Proper s e) (hs : (machine ι T).step s e s') :
    Good s' := by
  obtain ⟨w', lists'⟩ := s'
  cases e with
  | construct a =>
    obtain ⟨rfl, rfl⟩ := Prod.mk.inj hs
    exact h.construct hok
  | copyConstruct a b =>
    obtain ⟨ha, hb⟩ := hok
    obtain ⟨l, hl⟩ := Option.ne_none_iff_exists'.mp hb
    obtain ⟨news, raw, hnews, hrun, rfl⟩ := hs
    obtain ⟨w'', hrun', hgood⟩ := h.copyConstruct raw ha hl hnews
    obtain rfl : w'' = w' := Option.some.inj (hrun'.symm.trans hrun)
    exact hgood
  | assign a b =>
    obtain ⟨ha, hb, hab⟩ := hok
    obtain ⟨l, hl⟩ := Option.ne_none_iff_exists'.mp hb
    obtain ⟨news, raw, hnews, hrun, rfl⟩ := hs
    obtain ⟨w'', hrun', hgood⟩ := h.assign raw ha hl hab hnews
    obtain rfl : w'' = w' := Option.some.inj (hrun'.symm.trans hrun)
    exact hgood
  | call a c =>
    obtain ⟨l, ha, hallowed⟩ := hok
    obtain ⟨p, raw, hp, hfree, rfl, hcap, rfl⟩ := hs
    rw [ha]
    exact h.call ha hallowed hp hfree hcap
  | destroy a =>
    obtain ⟨rfl, rfl⟩ := Prod.mk.inj hs
    exact h.destroy hok

/-- The invariant of every run of proper events. -/
theorem good_of_reach (hr : Runs.Reach (machine ι T) Proper s) : Good s :=
  hr.invariant (I := Good) (fun _ => good_init) fun _ _ _ h hok hs => h.step hok hs

omit [DecidableEq ι] in
/-- It says what the deques represent, -/
theorem Good.separate (h : Good s) : Separate s := by
  constructor
  case represents =>
    intro a l ha
    have hne : s.2 a ≠ none := by rw [ha]; exact Option.some_ne_none l
    have hs := h.stores ha
    refine ⟨(s.1.objs a).pointers, laid_of_object (h.laid a hne) rfl, ?_⟩
    have hown : ∀ q ∈ (s.1.objs a).pointers, (s.1.own a).elems q = s.1.heap q :=
      fun q hq => if_pos hq
    constructor
    case nodup => exact hs.nodup
    case null =>
      by_cases hq : NULL ∈ (s.1.objs a).pointers
      · rw [hown NULL hq, h.null]
      · exact if_neg hq
    case points => exact (hs.congr hown).points
    case only =>
      intro q hq
      exact Classical.byContradiction fun hout => hq (if_neg hout)
  case apart =>
    intro a b hab ha hb q hq
    have hapart := h.apart.apart a b hab q
    rw [held_some ha, held_some hb] at hapart
    exact hapart hq

/-- and that a further proper event keeps it so. -/
theorem Good.staysSeparate (h : Good s) : StaysSeparate s := by
  intro s' hr
  have hgood : Good s' := by
    refine hr.invariant (M := (machine ι T).startedIn s) (I := Good) ?_ ?_
    · rintro s'' rfl
      exact h
    · exact fun _ _ _ h hok hs => h.step hok hs
  exact hgood.separate

end Events

/-! ## Copies -/

section Copies

variable {s : State ι T} {a b : ι} {l : List T}

/-- The copy construction of `a` from `b` succeeds, and `a` represents then and later the list of
    `b`. -/
def ConstructsRight (s : State ι T) (a b : ι) : Prop :=
  ∀ news raw, Fresh s.1.heap news (s.1.objs b).mSize →
    ∃ w', s.1.copyConstruct a b news raw = some w' ∧
    StaysSeparate (w', Function.update s.2 a (s.2 b))

/-- The assignment `a = b` succeeds, and `a` represents then and later the list that `b`
    represented. -/
def AssignsRight (s : State ι T) (a b : ι) : Prop :=
  ∀ news raw, Fresh (s.1._clear a).heap news ((s.1._clear a).objs b).mSize →
    ∃ w', s.1.assign a b news raw = some w' ∧ StaysSeparate (w', Function.update s.2 a (s.2 b))

omit [DecidableEq ι] in
/-- There is always something to allocate. -/
theorem exists_fresh {heap : Ptr → Option T} (hbound : ∃ n : Nat, ∀ q : Nat, n ≤ q → heap q = none)
    (m : Nat) :
    ∃ news, Fresh heap news m := by
  obtain ⟨n, hn⟩ := hbound
  refine ⟨List.range' (n + 1) m, List.length_range', List.nodup_range', fun hnull => ?_,
    fun p hp => ?_⟩
  · have hle := (List.mem_range'_1.mp hnull).1
    exact absurd hle (Nat.not_succ_le_zero n)
  · have hle := (List.mem_range'_1.mp hp).1
    exact hn p (by omega)

/-- Nothing is copied from where there is no element. -/
theorem copyElems_none {w : Deques ι T} {rounds item : Nat} {news : List Ptr} (hrounds : rounds ≠ 0)
    (hread : w.heap ((w.objs b).mContents item) = none) :
    copyElems a b rounds item news w = none := by
  obtain ⟨rounds, rfl⟩ := Nat.exists_eq_succ_of_ne_zero hrounds
  cases news with
  | nil => rfl
  | cons p news =>
    rw [copyElems, hread]
    rfl

/-- **Self-assignment.**  The new array is read instead of the old one, which is gone. -/
theorem Good.assign_self (h : Good s) (ha : s.2 a ≠ none) (hsize : (s.1.objs a).mSize ≠ 0)
    {news : List Ptr} : s.1.assign a a news (fun _ => NULL) = none := by
  have hnull : (s.1._clear a).heap NULL = none := (h.moves_clear ha).eq_none List.not_mem_nil h.null
  have hobj : (s.1._clear a).objs a = { s.1.objs a with mContents := fun _ => NULL } :=
    Function.update_self ..
  rw [Deques.assign, _copy, hobj]
  refine copyElems_none hsize ?_
  dsimp only
  rw [Function.update_self]
  exact hnull

/-- **Copies of a deque.**  In every run of proper events: the copy construction from `b` and the
    assignment `a = b` go right, whatever memory they are given and whatever properly happens later,
    exactly if `a` and `b` are different objects or `b` is empty. -/
theorem copiesRight_iff (s : State ι T) (hr : Runs.Reach (machine ι T) Proper s) (a b : ι)
    (ha : s.2 a ≠ none) (hb : s.2 b ≠ none) :
    ((∀ c, s.2 c = none → ConstructsRight s c b) ∧ AssignsRight s a b) ↔
      a ≠ b ∨ (s.1.objs b).mSize = 0 := by
  have h := good_of_reach hr
  obtain ⟨l, hl⟩ := Option.ne_none_iff_exists'.mp hb
  constructor
  · rintro ⟨-, hassign⟩
    by_contra hcon
    rw [not_or, not_not] at hcon
    obtain ⟨rfl, hsize⟩ := hcon
    have hbound : ∃ n : Nat, ∀ q : Nat, n ≤ q → (s.1._clear a).heap q = none := by
      obtain ⟨n, hn⟩ := h.bound
      exact ⟨n, fun q hq => (h.moves_clear ha).eq_none List.not_mem_nil (hn q hq)⟩
    obtain ⟨news, hnews⟩ := exists_fresh hbound ((s.1._clear a).objs a).mSize
    obtain ⟨w', hrun, -⟩ := hassign news (fun _ => NULL) hnews
    rw [h.assign_self ha hsize] at hrun
    exact absurd hrun.symm (Option.some_ne_none w')
  · intro hab
    refine ⟨fun c hc news raw hnews => ?_, fun news raw hnews => ?_⟩
    · obtain ⟨w', hrun, hgood⟩ := h.copyConstruct raw hc hl hnews
      exact ⟨w', hrun, hgood.staysSeparate⟩
    · obtain ⟨w', hrun, hgood⟩ := h.assign raw ha hl hab hnews
      exact ⟨w', hrun, hgood.staysSeparate⟩

end Copies

/-! ### Two deques, one of them with an element -/

/-- A program with two names for deques, and none constructed; -/
def noDeques : Deques Bool Nat where
  objs := fun _ => ⟨0, 0, 0, 0, fun _ => NULL⟩
  heap := fun _ => none

/-- the first is constructed, -/
def oneDeque : State Bool Nat :=
  (noDeques.construct false, Function.update (fun _ => none) false (some []))

/-- gets an element, -/
def oneElement : State Bool Nat :=
  (oneDeque.1.call false (.push_back 5) 8 fun _ => 7, Function.update oneDeque.2 false (some [5]))

/-- and is copied to the second. -/
def twoDeques : State Bool Nat :=
  (oneElement.1.construct true, Function.update oneElement.2 true (some []))

/-- They come in that order. -/
theorem twoDeques_reach : Runs.Reach (machine Bool Nat) Proper twoDeques := by
  have h0 : Runs.Reach (machine Bool Nat) Proper (noDeques, fun _ => none) := .init ⟨rfl, rfl⟩
  have h1 : Runs.Reach (machine Bool Nat) Proper oneDeque := h0.step (a := .construct false) rfl rfl
  have h2 : Runs.Reach (machine Bool Nat) Proper oneElement := by
    refine h1.step (a := .call false (.push_back 5)) ⟨[], rfl, trivial⟩ ?_
    exact ⟨8, fun _ => 7, by decide, rfl, rfl, by decide, rfl⟩
  exact h2.step (a := .construct true) rfl rfl

/-- The copies between the two. -/
theorem copiesRight_twoDeques :
    (∀ c, twoDeques.2 c = none → ConstructsRight twoDeques c false) ∧
    AssignsRight twoDeques true false :=
  (copiesRight_iff twoDeques twoDeques_reach true false (by decide) (by decide)).mpr
    (Or.inl (by decide))

/-- The deque with the element is assigned to itself: the element is deleted, and what is copied in
    its place is whatever the new array points to. -/
theorem selfAssign_lost :
    Runs.Reach (machine Bool Nat) Proper twoDeques ∧ twoDeques.2 false = some [5] ∧
    ¬ AssignsRight twoDeques false false := by
  refine ⟨twoDeques_reach, rfl, fun hright => ?_⟩
  have hnews :
      Fresh (twoDeques.1._clear false).heap [16] ((twoDeques.1._clear false).objs false).mSize :=
    ⟨rfl, by decide, by decide, by decide⟩
  obtain ⟨w', hrun, -⟩ := hright [16] (fun _ => NULL) hnews
  have hnone : twoDeques.1.assign false false [16] (fun _ => NULL) = none := rfl
  rw [hnone] at hrun
  exact absurd hrun.symm (Option.some_ne_none w')

end Deques

end TedkOS.Klibs
