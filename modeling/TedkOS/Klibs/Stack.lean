/-
  `util::Stack<T, Num>` (inc/klibs/stack.h): a bounded array used as a stack, and also searched
  from the bottom and thinned out in the middle.

  The live part `arr[0 .. idx)` is the list `items`, bottom first, so `arr[i]` is `items[i]` and the
  top is the LAST item; `idx` is its length, and the bound `idx ≤ Num` is a field, so no operation
  has to re-prove it.  `push` on a full stack loses the value and `pop` on an empty one returns
  `T()`, as in the source.

  `first` and `firstTrue` run a closure on the items from the bottom until it succeeds.  Some
  callers' closures change the items they visit (a pool that hands out or takes back a block), so
  the search carries the closure's state.
-/
import TedkOS.Lib.FreeList

namespace TedkOS

/-- `Stack<T, Num>`: the live part of the array, bottom first. -/
structure Stack (α : Type) (Num : Nat) where
  items : List α
  bounded : items.length ≤ Num

namespace Stack

variable {α σ β : Type} {Num : Nat}

/-- `Stack() : arr(), idx(0) { }`. -/
def new (α : Type) (Num : Nat) : Stack α Num := ⟨[], Nat.zero_le _⟩

def empty (s : Stack α Num) : Bool := s.items.length == 0

def full (s : Stack α Num) : Bool := s.items.length == Num

def size (s : Stack α Num) : Nat := s.items.length

/-- `pop()`: the top, or `T()` when there is none. -/
def pop [Inhabited α] (s : Stack α Num) : α × Stack α Num :=
  (s.items.getLastD default,
    ⟨s.items.dropLast, by rw [List.length_dropLast]; exact Nat.le_trans (Nat.sub_le _ _) s.bounded⟩)

/-- `push(val)`: lost when the stack is full. -/
def push (s : Stack α Num) (val : α) : Stack α Num :=
  if h : s.items.length ≥ Num then s
  else ⟨s.items ++ [val], by rw [List.length_append]; simp; omega⟩

/-- `drop(killIdx)`, for the indices its callers have just found: the items above move down. -/
def drop (s : Stack α Num) (killIdx : Nat) : Stack α Num :=
  ⟨s.items.eraseIdx killIdx, Nat.le_trans (List.length_eraseIdx_le _ _) s.bounded⟩

/-- The loop of `first`, at index `i`. -/
def firstLoop (fn : α → σ → Option β × σ) : List α → Nat → σ → Option (Nat × β) × σ
  | [], _, st => (none, st)
  | x :: rest, i, st =>
    match fn x st with
    | (some r, st') => (some (i, r), st')
    | (none, st') => firstLoop fn rest (i + 1) st'

/-- `first(in_idx, fn)`: the index and the result of the first item `fn` accepts. -/
def first (s : Stack α Num) (fn : α → σ → Option β × σ) (st : σ) : Option (Nat × β) × σ :=
  firstLoop fn s.items 0 st

/-- The index of the first item that satisfies `p`, for closures that change nothing. -/
def firstIdx (s : Stack α Num) (p : α → Bool) : Option Nat :=
  (s.first (fun x (_ : Unit) => (if p x then some () else none, ())) ()).1.map (·.1)

/-- `dropFirst(fn)`: drop the first item that satisfies `fn`. -/
def dropFirst (s : Stack α Num) (fn : α → Bool) : Option α × Stack α Num :=
  match s.firstIdx fn with
  | some in_idx => (s.items[in_idx]?, s.drop in_idx)
  | none => (none, s)

/-! ## `push` and `pop` as list operations

  The top is at the end of the list. -/

@[simp] theorem items_new : (new α Num).items = [] := rfl

/-- A push puts the value at the end, if there is room, -/
theorem items_push (s : Stack α Num) (val : α) (h : s.items.length < Num) :
    (s.push val).items = s.items ++ [val] := by
  rw [push, dif_neg (Nat.not_le.mpr h)]

/-- and does nothing if there is not. -/
theorem items_push_full (s : Stack α Num) (val : α) (h : Num ≤ s.items.length) :
    s.push val = s := by
  rw [push, dif_pos h]

theorem mem_push {s : Stack α Num} {val a : α} (h : a ∈ s.items) : a ∈ (s.push val).items := by
  rcases Nat.lt_or_ge s.items.length Num with hlt | hge
  · rw [items_push _ _ hlt]; exact List.mem_append.mpr (Or.inl h)
  · rw [items_push_full _ _ hge]; exact h

/-- Items pushed one after another, when there is room for all of them. -/
theorem items_foldl_push : ∀ (l : List α) (s : Stack α Num), s.items.length + l.length ≤ Num →
    (l.foldl (fun s x => s.push x) s).items = s.items ++ l := by
  intro l
  induction l with
  | nil => intro s _; exact (List.append_nil _).symm
  | cons x l ih =>
    intro s h
    rw [List.length_cons] at h
    have hpush := items_push s x (by omega)
    have hlen : (s.push x).items.length = s.items.length + 1 := by
      rw [hpush, List.length_append, List.length_singleton]
    rw [List.foldl_cons, ih _ (by omega), hpush, List.append_assoc, List.singleton_append]

theorem empty_iff (s : Stack α Num) : s.empty = true ↔ s.items = [] := by
  rw [empty, beq_iff_eq, List.length_eq_zero_iff]

/-- A non-empty stack is what `pop` leaves, with what `pop` returns on top. -/
theorem items_pop [Inhabited α] (s : Stack α Num) (h : s.empty = false) :
    s.items = s.pop.2.items ++ [s.pop.1] := by
  have hne : s.items ≠ [] := fun h0 => by
    rw [(empty_iff s).mpr h0] at h; exact absurd h (by decide)
  show s.items = s.items.dropLast ++ [s.items.getLastD default]
  rw [List.getLastD_eq_getLast?, List.getLast?_eq_some_getLast hne, Option.getD_some,
    List.dropLast_append_getLast hne]

/-! ## What the searches find

  The first item at which the closure succeeds, with what it has done to the items before. -/

/-- A search succeeds at some item: the closure rejected every item before it, in turn, and
    accepted this one. -/
theorem firstLoop_some {fn : α → σ → Option β × σ}
    (hfail : ∀ x st, (fn x st).1 = none → (fn x st).2 = st) :
    ∀ (l : List α) (i : Nat) (st st' : σ) (j : Nat) (r : β),
      firstLoop fn l i st = (some (j, r), st') →
        ∃ k x, l[k]? = some x ∧ j = i + k ∧ fn x st = (some r, st') ∧
          ∀ y ∈ l.take k, (fn y st).1 = none := by
  intro l
  induction l with
  | nil => intro i st st' j r h; simp [firstLoop] at h
  | cons x rest ih =>
    intro i st st' j r h
    rw [firstLoop] at h
    rcases hx : fn x st with ⟨ox, stx⟩
    rw [hx] at h
    cases ox with
    | some r' =>
      obtain ⟨hp, rfl⟩ := Prod.mk.inj h
      obtain ⟨rfl, rfl⟩ := Prod.mk.inj (Option.some.inj hp)
      exact ⟨0, x, rfl, rfl, hx, fun y hy => by simp at hy⟩
    | none =>
      have hst : stx = st := by
        have := hfail x st (by rw [hx])
        rw [hx] at this; exact this
      subst hst
      obtain ⟨k, y, hk, hj, hy, hrej⟩ := ih (i + 1) stx st' j r h
      refine ⟨k + 1, y, hk, by omega, hy, ?_⟩
      intro z hz
      rw [List.take_succ_cons] at hz
      rcases List.mem_cons.mp hz with rfl | hz
      · rw [hx]
      · exact hrej z hz

/-- A search fails: the closure rejected every item, and the state is untouched. -/
theorem firstLoop_none {fn : α → σ → Option β × σ}
    (hfail : ∀ x st, (fn x st).1 = none → (fn x st).2 = st) :
    ∀ (l : List α) (i : Nat) (st st' : σ),
      firstLoop fn l i st = (none, st') → st' = st ∧ ∀ x ∈ l, (fn x st).1 = none := by
  intro l
  induction l with
  | nil =>
    intro i st st' h
    exact ⟨(Prod.mk.inj h).2.symm, fun x hx => absurd hx List.not_mem_nil⟩
  | cons x rest ih =>
    intro i st st' h
    rw [firstLoop] at h
    rcases hx : fn x st with ⟨ox, stx⟩
    rw [hx] at h
    cases ox with
    | some r' => exact absurd (Prod.mk.inj h).1 (by simp)
    | none =>
      have hst : stx = st := by
        have := hfail x st (by rw [hx])
        rw [hx] at this; exact this
      subst hst
      obtain ⟨rfl, hrej⟩ := ih (i + 1) stx st' h
      refine ⟨rfl, fun y hy => ?_⟩
      rcases List.mem_cons.mp hy with rfl | hy
      · rw [hx]
      · exact hrej y hy

/-- What a search without side effects finds. -/
theorem firstIdx_some {s : Stack α Num} {p : α → Bool} {i : Nat} (h : s.firstIdx p = some i) :
    ∃ x, s.items[i]? = some x ∧ p x = true ∧ ∀ y ∈ s.items.take i, p y = false := by
  rw [firstIdx, Option.map_eq_some_iff] at h
  obtain ⟨⟨j, r⟩, hj, rfl⟩ := h
  obtain ⟨k, x, hk, hjk, hx, hrej⟩ := @firstLoop_some α Unit Unit
    (fun x _ => (if p x then some () else none, ())) (fun _ _ _ => rfl)
    s.items 0 () () j r (Prod.ext hj rfl)
  have hjk' : j = k := by omega
  subst hjk'
  refine ⟨x, hk, ?_, fun y hy => ?_⟩
  · by_cases hp : p x = true
    · exact hp
    · simp [hp] at hx
  · have := hrej y hy
    by_cases hp : p y = true
    · simp [hp] at this
    · simpa using hp

/-- A search that finds nothing has looked at every item. -/
theorem firstIdx_none {s : Stack α Num} {p : α → Bool} (h : s.firstIdx p = none) :
    ∀ x ∈ s.items, p x = false := by
  rw [firstIdx, Option.map_eq_none_iff] at h
  obtain ⟨_, hrej⟩ := @firstLoop_none α Unit Unit
    (fun x _ => (if p x then some () else none, ())) (fun _ _ _ => rfl)
    s.items 0 () () (Prod.ext h rfl)
  intro x hx
  have := hrej x hx
  by_cases hp : p x = true
  · simp [hp] at this
  · simpa using hp

/-- `dropFirst` drops the first item that satisfies `fn`. -/
theorem dropFirst_at {s : Stack α Num} {fn : α → Bool} {l₁ l₂ : List α} {b : α}
    (hitems : s.items = l₁ ++ b :: l₂) (hfn : fn b = true) (hbefore : ∀ a ∈ l₁, fn a = false) :
    (s.dropFirst fn).1 = some b ∧ (s.dropFirst fn).2.items = l₁ ++ l₂ := by
  unfold dropFirst
  split
  · next i hi =>
    obtain ⟨a, ha, hfa, hrej⟩ := firstIdx_some hi
    have hil : i = l₁.length := by
      rcases Nat.lt_trichotomy i l₁.length with hlt | heq | hgt
      · rw [hitems, List.getElem?_append_left hlt] at ha
        rw [hbefore a (List.mem_of_getElem? ha)] at hfa
        exact absurd hfa Bool.false_ne_true
      · exact heq
      · have hb : b ∈ s.items.take i := by
          rw [hitems, List.take_append, List.mem_append]
          refine Or.inr ?_
          obtain ⟨k, hk⟩ := Nat.exists_eq_succ_of_ne_zero (Nat.sub_ne_zero_of_lt hgt)
          rw [hk, List.take_succ_cons]
          exact List.mem_cons_self
        rw [hrej b hb] at hfn
        exact absurd hfn Bool.false_ne_true
    refine ⟨?_, ?_⟩
    · show s.items[i]? = some b
      rw [hitems, hil, List.getElem?_append_right (Nat.le_refl _), Nat.sub_self]
      rfl
    · show s.items.eraseIdx i = l₁ ++ l₂
      rw [hitems, hil, List.eraseIdx_append_of_length_le (Nat.le_refl _), Nat.sub_self]
      rfl
  · next hnone =>
    have hb : b ∈ s.items := by
      rw [hitems]
      exact List.mem_append_right _ List.mem_cons_self
    rw [firstIdx_none hnone b hb] at hfn
    exact absurd hfn Bool.false_ne_true

/-- `dropFirst` drops nothing if no item satisfies `fn`. -/
theorem dropFirst_none {s : Stack α Num} {fn : α → Bool} (h : ∀ a ∈ s.items, fn a = false) :
    s.dropFirst fn = (none, s) := by
  unfold dropFirst
  split
  · next i hi =>
    obtain ⟨a, ha, hfa, -⟩ := firstIdx_some hi
    rw [h a (List.mem_of_getElem? ha)] at hfa
    exact absurd hfa Bool.false_ne_true
  · rfl

/-- `dropFirst`, when only the last item satisfies `fn`. -/
theorem dropFirst_last {s : Stack α Num} {fn : α → Bool} {l : List α} {b : α}
    (hitems : s.items = l ++ [b]) (hlast : fn b = true) (hothers : ∀ a ∈ l, fn a = false) :
    (s.dropFirst fn).2.items = l := by
  rw [(dropFirst_at hitems hlast hothers).2, List.append_nil]

end Stack

end TedkOS
