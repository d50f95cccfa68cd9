/-
  The array of the handler list: in every run, an add appends to the stored actions and a removal
  erases the one it is given.

  The pointers matter to that in one place.  `remove_action` moves cells down as long as it is below
  the cell the tail pointer names, so the tail has to lie at the last stored cell or beyond, and
  after a removal of the tail the new tail is whatever the old one's `prev` says.  The invariant
  (`Sound`): the `prev` of a stored cell jumps back by at most one cell and a `next` forward by at
  most one, with the small slack of cells that are stored no more.  It holds although the links
  themselves break.
-/
import TedkOS.Pic.List

namespace TedkOS.Pic

/-- The actions the list stores, in the order they were added. -/
def stored (list : IrqActionList) : List Action :=
  (List.range list.size).map fun i => (list.data i).toAction

/-! ## The pointers a removal relies on

  `Sound` between the calls, and `Moving` between the rounds of a removal, where the cells below
  the gap are in place already, the one behind it is known, and the rest is as it was. -/

/-- What every run keeps of the pointers.  None of it says that the links are those of a list,
    and after some removals they are not: it bounds how far a pointer may be off. -/
structure Sound (list : IrqActionList) : Prop where
  /-- A list that stores nothing has no head and no tail. -/
  empty : list.size = 0 → list.head = none ∧ list.tail = none
  /-- The tail is the last stored cell or lies beyond: the cells from a removed one up to the
      tail include all that have to move down. -/
  tail : 0 < list.size → ∃ t, list.tail = some t ∧ list.size ≤ t + 1
  /-- A stored cell behind the first has a `prev`, which becomes the tail if the cell was it. -/
  prev : ∀ i, 0 < i → i < list.size → ∃ q, (list.data i).prev = some q ∧ i ≤ q + 1
  /-- A cell that is stored no more may be off by one more. -/
  prev_any : ∀ i q, (list.data i).prev = some q → i ≤ q + 2
  next : ∀ i x, (list.data i).next = some x → x ≤ i + 1
  /-- The tail does not point beyond itself, so that no cell behind it is touched when it moves. -/
  tail_next : ∀ t x, list.tail = some t → (list.data t).next = some x → x ≤ t
  /-- If the tail is the last stored cell, the chain ends there, or runs in a circle of that one
      cell. -/
  last_next : ∀ t, list.tail = some t → list.size = t + 1 →
    (list.data t).next = none ∨ (list.data t).prev = some t

/-- A stored cell points back at most to the cell below it. -/
theorem Sound.le_prev {list : IrqActionList} {i q : Nat} (h : Sound list) (hi : i < list.size)
    (hq : (list.data i).prev = some q) : i ≤ q + 1 := by
  rcases Nat.eq_zero_or_pos i with rfl | h0
  · omega
  · obtain ⟨q', hq', hle⟩ := h.prev i h0 hi
    rw [hq] at hq'
    have := Option.some.inj hq'
    omega

/-- The same while a removal moves the cells from `clobber + 1` to `tail` down.  The cell below
    `clobber` may still point one cell too far; the round to come repairs that, as the cell it moves
    points back. -/
structure Moving (size tail clobber : Nat) (data : Nat → IrqAction) : Prop where
  /-- The cells that have been moved. -/
  below : ∀ i, 0 < i → i < clobber → i + 1 < size → ∃ q, (data i).prev = some q ∧ i ≤ q + 1
  /-- The cells that have not. -/
  above : ∀ i, clobber + 1 < i → i < size → ∃ q, (data i).prev = some q ∧ i ≤ q + 1
  /-- The cell that is moved next: it points back to the place it is moved to, or further on. -/
  source : 0 < clobber → clobber + 1 < size →
    ∃ q, (data (clobber + 1)).prev = some q ∧ clobber ≤ q + 1
  prev_any : ∀ i q, (data i).prev = some q → i ≤ q + 2
  /-- One forward pointer may go two cells on, that to the cell moved next. -/
  next : ∀ i x, (data i).next = some x → x ≤ i + 1 ∨
    (clobber < tail ∧ i + 1 = clobber ∧ x = clobber + 1 ∧ (data (clobber + 1)).prev = some i)
  tail_next : ∀ x, (data tail).next = some x → x ≤ tail

section Move

variable {size tail clobber : Nat} {data : Nat → IrqAction}

/-- The cell that is moved points at most one cell beyond itself. -/
theorem Moving.source_next (h : Moving size tail clobber data) {x : Nat}
    (hx : (data (clobber + 1)).next = some x) : x ≤ clobber + 2 := by
  rcases h.next _ _ hx with h' | h' <;> omega

/-- It points back at most to the cell below `clobber`. -/
theorem Moving.source_prev (h : Moving size tail clobber data) {q : Nat}
    (hq : (data (clobber + 1)).prev = some q) : clobber ≤ q + 1 := by
  have := h.prev_any _ _ hq
  omega

/-- Forward pointers after a round: where one points a cell too far, the next round repairs it. -/
theorem Moving.next_moveDown (h : Moving size tail clobber data) (hlt : clobber < tail) {i x : Nat}
    (hx : (Pic.moveDown data clobber i).next = some x) :
    x ≤ i + 1 ∨ (clobber + 1 < tail ∧ i + 1 = clobber + 1 ∧
      x = clobber + 1 + 1 ∧ (Pic.moveDown data clobber (clobber + 1 + 1)).prev = some i) := by
  revert hx
  rw [moveDown_next]
  split
  · next e =>
    intro hx
    have := h.source_prev e
    have := Option.some.inj hx
    omega
  · next hne =>
    split
    · next e =>
      subst e
      intro hx
      have hle := h.source_next hx
      -- a pointer over two cells: the cell it names is moved next, and then points back here
      by_cases hfar : x = i + 2
      · subst hfar
        have htail : i + 1 ≠ tail := by
          intro e
          have := h.tail_next (i + 2) (by rw [← e]; exact hx)
          omega
        refine Or.inr ⟨by omega, rfl, rfl, ?_⟩
        rw [moveDown_prev, if_pos hx]
      · exact Or.inl (by omega)
    · intro hx
      rcases h.next i x hx with h' | ⟨_, _, _, hq⟩
      · exact Or.inl h'
      · exact absurd hq hne

/-- **One round** of a removal keeps it: cell `clobber + 1` is copied to `clobber`, and the
    neighbours it names are told of its new place. -/
theorem Moving.moveDown (h : Moving size tail clobber data) (hlt : clobber < tail) :
    Moving size tail (clobber + 1) (moveDown data clobber) := by
  constructor
  case below =>
    intro i h0 hi hs
    rw [moveDown_prev]
    split
    · exact ⟨clobber, rfl, by omega⟩
    · split
      · next e => subst e; exact h.source h0 hs
      · exact h.below i h0 (by omega) hs
  -- behind the cells moved so far nothing changes, but for the neighbour of the cell copied,
  -- whose `prev` is set to where it lies now
  case above =>
    intro i hi hs
    rw [moveDown_prev]
    split
    · next e => have := h.source_next e; omega
    · rw [if_neg (by omega)]
      exact h.above i (by omega) hs
  case source =>
    intro _ hs
    rw [moveDown_prev]
    split
    · exact ⟨clobber, rfl, by omega⟩
    · rw [if_neg (by omega)]
      obtain ⟨q, hq, hle⟩ := h.above (clobber + 1 + 1) (by omega) hs
      exact ⟨q, hq, by omega⟩
  case prev_any =>
    intro i q
    rw [moveDown_prev]
    split
    · next e =>
      intro hq
      have := h.source_next e
      have := Option.some.inj hq
      omega
    · split
      · next e =>
        intro hq
        have := h.source_prev hq
        omega
      · exact h.prev_any i q
  case next => exact fun i x hx => h.next_moveDown hlt hx
  case tail_next =>
    intro x
    rw [moveDown_next]
    split
    · intro hx
      have := Option.some.inj hx
      omega
    · rw [if_neg (by omega)]
      exact h.tail_next x

end Move

/-- **All rounds**, by induction on the cells that are left: in the end `clobber` is the tail,
    and no pointer is excused any more. -/
theorem Moving.moveLoop {size tail : Nat} (left : Nat) : ∀ (clobber : Nat) (data : Nat → IrqAction),
    Moving size tail clobber data → clobber + left = tail →
    Moving size tail tail (moveLoop left clobber data) := by
  induction left with
  | zero =>
    intro clobber data h e
    obtain rfl : clobber = tail := by omega
    exact h
  | succ left ih =>
    intro clobber data h e
    exact ih (clobber + 1) _ (h.moveDown (by omega)) (by omega)

/-- A cell points back no further after another is taken out of the chain. -/
theorem Sound.detach_prev_any {list : IrqActionList} {item i q : Nat} (h : Sound list)
    (hi : item < list.size) : (detach list.data item i).prev = some q → i ≤ q + 2 := by
  rw [detach_prev]
  split
  · simp
  · split
    · next e =>
      intro hq
      have := h.le_prev hi hq
      have := h.next item i e
      omega
    · exact h.prev_any i q

/-- Taking a cell below the tail out of the chain: its neighbours point over it now, which is the
    state a removal starts to move cells in. -/
theorem Sound.detach_below {list : IrqActionList} {item t : Nat} (h : Sound list)
    (hi : item < list.size) (ht : list.tail = some t) (hlt : item < t) :
    Moving list.size t item (detach list.data item) := by
  have hback : ∀ q, (list.data item).prev = some q → item ≤ q + 1 := fun q => h.le_prev hi
  have hnext : ∀ x, (list.data item).next = some x → x ≤ item + 1 := h.next item
  constructor
  case below =>
    intro i h0 hlo _
    rw [detach_prev, if_neg (by omega)]
    split
    · obtain ⟨q, hq, hle⟩ := h.prev item (by omega) hi
      exact ⟨q, hq, by omega⟩
    · exact h.prev i h0 (by omega)
  case above =>
    intro i hlo hs
    rw [detach_prev, if_neg (by omega), if_neg (fun e => absurd (hnext i e) (by omega))]
    exact h.prev i (by omega) hs
  -- the cell that the first round copies is the one behind `item`; if that was the neighbour, it
  -- points over `item` now, as `item` itself did
  case source =>
    intro h0 hs
    rw [detach_prev, if_neg (by omega)]
    split
    · exact h.prev item h0 hi
    · obtain ⟨q, hq, hle⟩ := h.prev (item + 1) (by omega) hs
      exact ⟨q, hq, by omega⟩
  case prev_any => exact fun _ _ => h.detach_prev_any hi
  case next =>
    intro i x
    rw [detach_next]
    split
    · simp
    · next hne =>
      split
      · next e =>
        intro hx
        have := hback i e
        have hle := hnext x hx
        -- a link over `item` may reach two cells on, until the round that copies the cell there
        by_cases hfar : x = i + 2
        · obtain rfl : item = i + 1 := by omega
          subst hfar
          refine Or.inr ⟨hlt, rfl, rfl, ?_⟩
          rw [detach_prev, if_neg (by omega), if_pos hx]
          exact e
        · exact Or.inl (by omega)
      · intro hx
        exact Or.inl (h.next i x hx)
  case tail_next =>
    intro x
    rw [detach_next, if_neg (by omega)]
    split
    · intro hx
      have := hnext x hx
      omega
    · exact h.tail_next t x ht

/-- Taking the last stored cell, the tail, out of the chain: no cell moves, and the cell behind it
    becomes the tail. -/
theorem Sound.detach_last {list : IrqActionList} {item q : Nat} (h : Sound list) (h0 : 0 < item)
    (hs : list.size = item + 1) (ht : list.tail = some item) (hq : (list.data item).prev = some q) :
    Sound ⟨item, detach list.data item, list.head, some q⟩ := by
  have hle : item ≤ q + 1 := h.le_prev (by omega) hq
  -- a chain that goes on behind the last cell comes from the cell itself
  have hend : ∀ x, (list.data item).next = some x → q = item := by
    intro x hx
    rcases h.last_next item ht hs with h' | h'
    · rw [h'] at hx; cases hx
    · rw [hq] at h'; exact Option.some.inj h'
  constructor
  case empty => exact fun e => absurd (show item = 0 from e) (by omega)
  case tail => exact fun _ => ⟨q, rfl, hle⟩
  case prev =>
    intro i hi0 hi
    have hlt : i < item := hi
    show ∃ q, (detach list.data item i).prev = some q ∧ i ≤ q + 1
    rw [detach_prev, if_neg (by omega)]
    split
    · exact ⟨q, hq, by omega⟩
    · exact h.prev i hi0 (by omega)
  case prev_any => exact fun _ _ => h.detach_prev_any (by omega)
  case next =>
    intro i x
    show (detach list.data item i).next = some x → x ≤ i + 1
    rw [detach_next]
    split
    · simp
    · next hne =>
      split
      · next e =>
        intro hx
        rw [hq] at e
        exact absurd (hend x hx) fun e' => hne (by rw [← Option.some.inj e, e'])
      · exact h.next i x
  case tail_next =>
    intro t x et
    obtain rfl : q = t := Option.some.inj et
    show (detach list.data item q).next = some x → x ≤ q
    rw [detach_next]
    split
    · simp
    · next hne =>
      intro hx
      exact absurd (hend x hx) hne
  case last_next =>
    intro t et _
    obtain rfl : q = t := Option.some.inj et
    refine Or.inl ?_
    show (detach list.data item q).next = none
    rw [detach_next]
    split
    · rfl
    · next hne =>
      exact Option.eq_none_iff_forall_ne_some.mpr fun x hx => hne (hend x hx)

/-! ## The operations

  Each keeps `Sound`: an add by the cell it appends and the one it links to it, a removal through
  `Moving`. -/

/-- The head plays no part in what a removal relies on, as long as an empty list has none. -/
theorem Sound.with_head {size : Nat} {data : Nat → IrqAction} {head head' tail : Option Nat}
    (h : Sound ⟨size, data, head, tail⟩) (h0 : 0 < size) : Sound ⟨size, data, head', tail⟩ :=
  ⟨fun e => absurd (show size = 0 from e) (by omega), h.tail, h.prev, h.prev_any, h.next,
    h.tail_next, h.last_next⟩

/-- A list starts empty, in cells that point nowhere. -/
theorem Sound.init {data : Nat → IrqAction} (hnext : ∀ i, (data i).next = none)
    (hprev : ∀ i, (data i).prev = none) : Sound (init_list data) where
  empty _ := ⟨rfl, rfl⟩
  tail h := absurd h (Nat.lt_irrefl 0)
  prev i _ h := absurd h (Nat.not_lt_zero i)
  prev_any i q h := by
    have h' : (data i).prev = some q := h
    rw [hprev i] at h'
    cases h'
  next i x h := by
    have h' : (data i).next = some x := h
    rw [hnext i] at h'
    cases h'
  tail_next t x h := by cases h
  last_next t h := by cases h

theorem Sound.remove_action {list : IrqActionList} {item : Nat} (h : Sound list)
    (hi : item < list.size) : Sound (remove_action list item) := by
  obtain ⟨t, ht, hle⟩ := h.tail (by omega)
  unfold Pic.remove_action
  rw [if_neg (by omega)]
  split
  · -- the only action is removed: the list is empty
    exact ⟨fun _ => ⟨rfl, rfl⟩, fun e => absurd e (Nat.lt_irrefl 0),
      fun i _ e => absurd e (Nat.not_lt_zero i), h.prev_any, h.next, fun t x e => (by cases e),
      fun t e => (by cases e)⟩
  · next h1 =>
    simp only [ht]
    by_cases hlt : item < t
    · -- cells move down; the tail pointer stays, now beyond the last stored cell
      have hm := (h.detach_below hi ht hlt).moveLoop (t - item) item _ (by omega)
      rw [if_neg (fun e => absurd (Option.some.inj e) (by omega))]
      refine ⟨fun e => absurd (show list.size - 1 = 0 from e) (by omega),
        fun _ => ⟨t, rfl, (by show list.size - 1 ≤ t + 1; omega)⟩, ?_, hm.prev_any, ?_, ?_, ?_⟩
      · intro i h0 hs
        have hs' : i < list.size - 1 := hs
        exact hm.below i h0 (by omega) (by omega)
      · intro i x hx
        rcases hm.next i x hx with h' | h'
        · exact h'
        · exact absurd h'.1 (Nat.lt_irrefl t)
      · intro t' x et
        obtain rfl : t = t' := Option.some.inj et
        exact hm.tail_next x
      · intro t' et es
        obtain rfl : t = t' := Option.some.inj et
        have : list.size - 1 = t + 1 := es
        omega
    · -- the last stored cell is removed, which is the tail: no cell moves
      obtain rfl : t = item := by omega
      obtain ⟨q, hq, -⟩ := h.prev t (by omega) hi
      rw [if_pos rfl, hq, Nat.sub_self]
      have hs : list.size - 1 = t := by omega
      rw [hs]
      exact (h.detach_last (by omega) (by omega) ht hq).with_head (by omega)

/-- What an add to a list with a tail does. -/
theorem add_action_next {list : IrqActionList} {oldtail : Nat} (action : Action)
    (hs : list.size ≠ _PIC_ACTION_LIST_SIZE) (ht : list.tail = some oldtail) :
    add_action list action = (0, { size := list.size + 1
                                   data := setPrev (setNext
                                     (Function.update list.data list.size ⟨action, none, none⟩)
                                     (some oldtail) (some list.size)) (some list.size)
                                     (some oldtail)
                                   head := list.head, tail := some list.size }) := by
  unfold add_action
  rw [if_neg hs]
  simp only [ht]
  rw [setPrev_fill action none _ none]

/-- The cells after an add to a list with a tail. -/
theorem add_action_cells {list : IrqActionList} {t : Nat} (action : Action)
    (hs : list.size ≠ _PIC_ACTION_LIST_SIZE) (ht : list.tail = some t) :
    ∃ data, add_action list action =
        (0, { size := list.size + 1, data, head := list.head, tail := some list.size }) ∧
      (∀ i, (data i).toAction = if i = list.size then action else (list.data i).toAction) ∧
      (∀ i, (data i).next =
        if i = t then some list.size else if i = list.size then none else (list.data i).next) ∧
      ∀ i, (data i).prev = if i = list.size then some t else (list.data i).prev := by
  refine ⟨_, add_action_next action hs ht, fun i => ?_, fun i => ?_, fun i => ?_⟩
  · simp only [setPrev_toAction, setNext_toAction]
    by_cases h : i = list.size
    · subst h; rw [Function.update_self, if_pos rfl]
    · rw [Function.update_of_ne h, if_neg h]
  · simp only [setPrev_next, setNext_next, Option.some.injEq, eq_comm (a := t)]
    by_cases h : i = list.size
    · subst h; rw [Function.update_self, if_pos rfl]
    · rw [Function.update_of_ne h, if_neg h]
  · simp only [setPrev_prev, setNext_prev, Option.some.injEq, eq_comm (a := list.size)]
    by_cases h : i = list.size
    · rw [if_pos h, if_pos h]
    · rw [Function.update_of_ne h]

/-- What an add to a list without one does. -/
theorem add_action_first {list : IrqActionList} (action : Action)
    (hs : list.size ≠ _PIC_ACTION_LIST_SIZE) (ht : list.tail = none) :
    add_action list action = (0, { size := list.size + 1
                                   data := Function.update list.data list.size ⟨action, none, none⟩
                                   head := some list.size, tail := some list.size }) := by
  unfold add_action
  rw [if_neg hs]
  simp only [ht]

/-- A list without a tail is empty. -/
theorem Sound.tail_none {list : IrqActionList} (h : Sound list) (ht : list.tail = none) :
    list.size = 0 := by
  by_contra hne
  obtain ⟨t, ht', -⟩ := h.tail (by omega)
  rw [ht] at ht'
  cases ht'

/-- No stored cell is above the tail. -/
theorem Sound.size_le {list : IrqActionList} (h : Sound list) {t : Nat} (ht : list.tail = some t) :
    list.size ≤ t + 1 := by
  by_cases h0 : list.size = 0
  · omega
  · obtain ⟨t', ht', hle⟩ := h.tail (by omega)
    rw [ht] at ht'
    rwa [Option.some.inj ht']

/-- An add to a list without a tail. -/
theorem Sound.add_first {list : IrqActionList} (h : Sound list) (action : Action)
    (hs : list.size ≠ _PIC_ACTION_LIST_SIZE) (ht : list.tail = none) :
    Sound (add_action list action).2 := by
  rw [add_action_first action hs ht, h.tail_none ht]
  constructor
  case empty => exact fun e => absurd e (by simp)
  case tail => exact fun _ => ⟨0, rfl, (by simp)⟩
  case prev =>
    intro i hi0 hi
    have : i < 0 + 1 := hi
    omega
  case prev_any =>
    intro i q
    by_cases hi : i = 0
    · subst hi; simp
    · simp only [Function.update_of_ne hi]
      exact h.prev_any i q
  case next =>
    intro i x
    by_cases hi : i = 0
    · subst hi; simp
    · simp only [Function.update_of_ne hi]
      exact h.next i x
  case tail_next =>
    intro t x et
    obtain rfl : 0 = t := Option.some.inj et
    simp
  case last_next =>
    intro t et _
    obtain rfl : 0 = t := Option.some.inj et
    simp

/-- An add to a list with a tail.  The new cell is behind the last stored one, which need not be
    the tail: its `prev` may lie further on, and then points to the cell itself. -/
theorem Sound.add_next {list : IrqActionList} {t : Nat} (h : Sound list) (action : Action)
    (hs : list.size ≠ _PIC_ACTION_LIST_SIZE) (ht : list.tail = some t) :
    Sound (add_action list action).2 := by
  have hle := h.size_le ht
  obtain ⟨data, e, -, hnext, hprev⟩ := add_action_cells action hs ht
  rw [e]
  constructor
  case empty => exact fun e => absurd e (by simp)
  case tail => exact fun _ => ⟨list.size, rfl, Nat.le_refl _⟩
  case prev =>
    intro i hi0 hi
    have hi' : i < list.size + 1 := hi
    show ∃ q, (data i).prev = some q ∧ i ≤ q + 1
    rw [hprev]
    split
    · exact ⟨t, rfl, by omega⟩
    · exact h.prev i hi0 (by omega)
  case prev_any =>
    intro i q
    show (data i).prev = some q → i ≤ q + 2
    rw [hprev]
    split
    · intro eq
      have := Option.some.inj eq
      omega
    · exact h.prev_any i q
  case next =>
    intro i x
    show (data i).next = some x → x ≤ i + 1
    rw [hnext]
    split
    · intro ex
      have := Option.some.inj ex
      omega
    · split
      · simp
      · exact h.next i x
  -- the tail is the new cell now; where the old one named it, the links of the two meet there
  case tail_next =>
    intro t' x et
    obtain rfl : list.size = t' := Option.some.inj et
    show (data list.size).next = some x → x ≤ list.size
    rw [hnext]
    split
    · intro ex
      exact Nat.le_of_eq (Option.some.inj ex).symm
    · rw [if_pos rfl]
      simp
  case last_next =>
    intro t' et _
    obtain rfl : list.size = t' := Option.some.inj et
    show (data list.size).next = none ∨ (data list.size).prev = some list.size
    rw [hnext, hprev, if_pos rfl, if_pos rfl]
    split
    · next e => exact Or.inr (congrArg some e.symm)
    · exact Or.inl rfl

/-- **An add** keeps the pointers sound. -/
theorem Sound.add_action {list : IrqActionList} (h : Sound list) (action : Action) :
    Sound (add_action list action).2 := by
  by_cases hs : list.size = _PIC_ACTION_LIST_SIZE
  · unfold Pic.add_action
    rw [if_pos hs]
    exact h
  cases ht : list.tail with
  | none => exact h.add_first action hs ht
  | some t => exact h.add_next action hs ht

/-! ## What the operations do to the stored actions -/

/-- The size says how many actions are stored. -/
theorem stored_length (list : IrqActionList) : (stored list).length = list.size := by
  simp [stored]

/-- The actions are stored from cell 0 on. -/
theorem stored_getElem? {list : IrqActionList} {i : Nat} (hi : i < list.size) :
    (stored list)[i]? = some (list.data i).toAction := by
  simp [stored, hi]

/-- **An add appends**, unless the array is full. -/
theorem stored_add_action (list : IrqActionList) (action : Action) :
    stored (add_action list action).2 =
      if list.size = _PIC_ACTION_LIST_SIZE then stored list else stored list ++ [action] := by
  split
  · next hs => simp only [add_action, if_pos hs]
  · next hs =>
    have key : ∀ data : Nat → IrqAction,
        (∀ i, (data i).toAction = if i = list.size then action else (list.data i).toAction) →
        (List.range (list.size + 1)).map (fun i => (data i).toAction) =
          stored list ++ [action] := by
      intro data hd
      rw [List.range_succ, List.map_append]
      congr 1
      · apply List.map_congr_left
        intro i hi
        rw [hd, if_neg (Nat.ne_of_lt (List.mem_range.mp hi))]
      · simp [hd]
    cases ht : list.tail with
    | none =>
      rw [add_action_first action hs ht]
      apply key
      intro i
      show (Function.update list.data list.size ⟨action, none, none⟩ i).toAction = _
      by_cases hi : i = list.size
      · subst hi; rw [Function.update_self, if_pos rfl]
      · rw [Function.update_of_ne hi, if_neg hi]
    | some t =>
      obtain ⟨data, e, hact, -, -⟩ := add_action_cells action hs ht
      rw [e]
      exact key data hact

/-- **A removal erases** the action of the cell it is given, in a list with sound pointers. -/
theorem stored_remove_action {list : IrqActionList} {item : Nat} (h : Sound list)
    (hi : item < list.size) : stored (remove_action list item) = (stored list).eraseIdx item := by
  obtain ⟨t, ht, hle⟩ := h.tail (by omega)
  unfold remove_action
  rw [if_neg (by omega)]
  split
  · next h1 =>
    obtain rfl : item = 0 := by omega
    simp [stored, h1]
  · simp only [ht]
    apply List.ext_getElem?
    intro i
    rw [List.getElem?_eraseIdx]
    rcases Nat.lt_or_ge i (list.size - 1) with his | hpast
    · rw [stored_getElem? his]
      -- below the removed cell nothing has moved, from there on everything by one, up to the
      -- tail, which is the last stored cell or lies beyond
      simp only [moveLoop_toAction, detach_toAction]
      split
      · rw [if_neg (by omega), stored_getElem? (by omega)]
      · rw [if_pos (by omega), stored_getElem? (by omega)]
    · have hnone : ∀ j, list.size ≤ j → (stored list)[j]? = none := by
        intro j hj
        exact List.getElem?_eq_none (by rw [stored_length]; exact hj)
      rw [List.getElem?_eq_none (by rw [stored_length]; exact hpast)]
      rw [if_neg (by omega), hnone _ (by omega)]

end TedkOS.Pic
