/-
  The links of the handler list (pic/list.cpp) and the loop that follows them (`handle_level_irq`).

  A run is any sequence of adds and removals of stored actions, from an initialised list; beside the
  list it carries the actions that ought to be in it.  The list is WELL FORMED when `next` visits
  the stored cells in the order of these actions, `prev` visits them backwards from the tail, and
  both ends are NULL exactly in the empty list.

  Removing the last action keeps that.  Removing any other moves cells below the tail but not the
  tail pointer, which then names a cell that is not stored: the next add links that cell to itself,
  and a dispatch that reaches it never ends.
-/
import TedkOS.Lib.Runs
import TedkOS.Pic.ListArray

namespace TedkOS.Pic

open Runs

/-! ## Following pointers -/

/-- Following `link` from the pointer `p` visits exactly these cells and comes to NULL. -/
inductive Visits (link : Nat → Option Nat) : Option Nat → List Nat → Prop
  | null : Visits link none []
  | cell {i : Nat} {cells : List Nat} : Visits link (link i) cells →
    Visits link (some i) (i :: cells)

/-- A call of a handler: its address, and the device it is told about. -/
abbrev HandlerCall := Handler × BitVec 32

/-- What the handler of an action is called with. -/
def Action.call (action : Action) : HandlerCall := (action.handler, action.dev_id)

/-- The loop of `handle_level_irq` from the pointer `action` on: the handlers it calls, in order. -/
def dispatchLoop (data : Nat → IrqAction) : Nat → Option Nat → Option (List HandlerCall)
  | 0, _ => none
  | _ + 1, none => some []
  | fuel + 1, some i => (dispatchLoop data fuel (data i).next).map ((data i).toAction.call :: ·)

/-- The loop of `handle_level_irq` ends, and calls the handlers of these actions, each once. -/
def Dispatches (list : IrqActionList) (actions : List Action) : Prop :=
  ∃ fuel, dispatchLoop list.data fuel (first_action list) = some (actions.map Action.call)

/-- The list is a doubly linked list of these actions. -/
structure WellFormed (list : IrqActionList) (actions : List Action) : Prop where
  /-- The links go through the stored cells, forwards and backwards, in the order of the actions; -/
  links : ∃ cells, Visits (fun i => (list.data i).next) list.head cells ∧
    Visits (fun i => (list.data i).prev) list.tail cells.reverse ∧
    cells.map (fun i => (list.data i).toAction) = actions ∧
    cells.Nodup ∧ ∀ i, i ∈ cells ↔ i < list.size
  /-- and the ends are NULL just in the empty list. -/
  head : list.head = none ↔ list.size = 0
  tail : list.tail = none ↔ list.size = 0

/-- A walk visits the cell it starts at. -/
theorem Visits.start_mem {link : Nat → Option Nat} {i : Nat} {cells : List Nat}
    (h : Visits link (some i) cells) : i ∈ cells := by
  cases h with
  | cell _ => exact List.mem_cons_self

/-- A visit that comes to NULL is a dispatch that ends. -/
theorem Visits.dispatches {data : Nat → IrqAction} {p : Option Nat} {cells : List Nat}
    (h : Visits (fun i => (data i).next) p cells) :
    dispatchLoop data (cells.length + 1) p =
      some ((cells.map fun i => (data i).toAction).map Action.call) := by
  induction h with
  | null => rfl
  | cell _ ih =>
    rw [List.length_cons, dispatchLoop, ih]
    rfl

/-- The dispatcher follows `next`, so it calls the handlers in order and ends. -/
theorem WellFormed.dispatches {list : IrqActionList} {actions : List Action}
    (h : WellFormed list actions) : Dispatches list actions := by
  obtain ⟨cells, hnext, -, hact, -, -⟩ := h.links
  refine ⟨cells.length + 1, ?_⟩
  rw [← hact]
  exact hnext.dispatches

/-- The tail is a stored cell. -/
theorem WellFormed.tail_lt {list : IrqActionList} {actions : List Action} {t : Nat}
    (h : WellFormed list actions) (ht : list.tail = some t) : t < list.size := by
  obtain ⟨cells, -, hprev, -, -, hmem⟩ := h.links
  rw [ht] at hprev
  exact (hmem t).mp (List.mem_reverse.mp hprev.start_mem)

/-! ## The list in array order -/

/-- What a run that removes only last actions keeps: the links follow the array. -/
structure InOrder (list : IrqActionList) (actions : List Action) : Prop where
  /-- The first cell of the array is the head, -/
  head : list.head = if list.size = 0 then none else some 0
  /-- the last one that stores something is the tail, -/
  tail : list.tail = if list.size = 0 then none else some (list.size - 1)
  /-- each is linked to the next -/
  next : ∀ i, i < list.size → (list.data i).next = if i + 1 < list.size then some (i + 1) else none
  /-- and back, -/
  prev : ∀ i, i < list.size → (list.data i).prev = if i = 0 then none else some (i - 1)
  /-- and they store the actions. -/
  actions : stored list = actions

section InOrder

variable {list : IrqActionList} {actions : List Action}

/-- So `next` visits the cells from any one on, -/
theorem InOrder.visits_next (h : InOrder list actions) (left : Nat) :
    ∀ i, i + left = list.size → Visits (fun i => (list.data i).next)
      (if i < list.size then some i else none) (List.range' i left) := by
  induction left with
  | zero =>
    intro i e
    rw [if_neg (by omega)]
    exact .null
  | succ left ih =>
    intro i e
    rw [if_pos (by omega), List.range'_succ]
    apply Visits.cell
    show Visits _ (list.data i).next _
    rw [h.next i (by omega)]
    exact ih (i + 1) (by omega)

/-- `prev` those below any one, -/
theorem InOrder.visits_prev (h : InOrder list actions) (count : Nat) :
    count ≤ list.size → Visits (fun i => (list.data i).prev)
      (if count = 0 then none else some (count - 1)) (List.range count).reverse := by
  induction count with
  | zero => exact fun _ => .null
  | succ count ih =>
    intro hle
    rw [if_neg (by omega), List.range_succ, List.reverse_append]
    apply Visits.cell
    show Visits _ (list.data count).prev _
    rw [h.prev count (by omega)]
    exact ih (by omega)

/-- and the list is well formed. -/
theorem InOrder.wellFormed (h : InOrder list actions) : WellFormed list actions where
  links := by
    refine ⟨List.range list.size, ?_, ?_, h.actions, List.nodup_range, fun i => List.mem_range⟩
    · have hv := h.visits_next list.size 0 (by omega)
      rw [h.head, List.range_eq_range']
      by_cases h0 : list.size = 0
      · rw [if_pos h0]; rwa [if_neg (by omega)] at hv
      · rw [if_neg h0]; rwa [if_pos (by omega)] at hv
    · rw [h.tail]
      exact h.visits_prev list.size (Nat.le_refl _)
  head := by
    rw [h.head]
    split <;> simp_all
  tail := by
    rw [h.tail]
    split <;> simp_all

/-- An initialised list stores nothing. -/
theorem InOrder.init (data : Nat → IrqAction) : InOrder (init_list data) [] :=
  ⟨rfl, rfl, fun i hi => absurd hi (Nat.not_lt_zero i), fun i hi => absurd hi (Nat.not_lt_zero i),
    rfl⟩

/-- A new action goes into the next cell of the array, if there is one. -/
theorem InOrder.add_action (h : InOrder list actions) (action : Action) :
    InOrder (add_action list action).2
      (if actions.length = _PIC_ACTION_LIST_SIZE then actions else actions ++ [action]) := by
  have hlen : actions.length = list.size := by rw [← h.actions, stored_length]
  have hstored := stored_add_action list action
  rw [h.actions] at hstored
  rw [hlen]
  by_cases hs : list.size = _PIC_ACTION_LIST_SIZE
  · rw [if_pos hs]
    unfold Pic.add_action
    rw [if_pos hs]
    exact h
  · rw [if_neg hs] at hstored ⊢
    by_cases h0 : list.size = 0
    · have ht : list.tail = none := by rw [h.tail, if_pos h0]
      rw [add_action_first action hs ht] at hstored ⊢
      refine ⟨by simp [h0], by simp [h0], ?_, ?_, hstored⟩
      · intro i hi
        have hi' : i < list.size + 1 := hi
        obtain rfl : i = list.size := by omega
        simp
      · intro i hi
        have hi' : i < list.size + 1 := hi
        obtain rfl : i = list.size := by omega
        simp [h0]
    · -- besides the new cell only the one that was the last has a new link
      have ht : list.tail = some (list.size - 1) := by rw [h.tail, if_neg h0]
      obtain ⟨data, e, -, hnext, hprev⟩ := add_action_cells action hs ht
      rw [e] at hstored ⊢
      refine ⟨by simp [h.head, h0], by simp, ?_, ?_, hstored⟩
      · intro i hi
        have hi' : i < list.size + 1 := hi
        show (data i).next = if i + 1 < list.size + 1 then some (i + 1) else none
        rw [hnext]
        by_cases hlast : i = list.size
        · rw [if_neg (by omega), if_pos hlast, if_neg (by omega)]
        · by_cases hold : i = list.size - 1
          · rw [if_pos hold, if_pos (by omega), show list.size = i + 1 by omega]
          · rw [if_neg hold, if_neg hlast, if_pos (by omega), h.next i (by omega),
              if_pos (by omega)]
      · intro i hi
        have hi' : i < list.size + 1 := hi
        show (data i).prev = if i = 0 then none else some (i - 1)
        rw [hprev]
        by_cases hlast : i = list.size
        · rw [if_pos hlast, if_neg (by omega), hlast]
        · rw [if_neg hlast, h.prev i (by omega)]

/-- **Removing the last action** only cuts the chain behind the new last cell. -/
theorem InOrder.remove_last (h : InOrder list actions) {item : Nat} (hi : item + 1 = list.size) :
    InOrder (remove_action list item) (actions.eraseIdx item) := by
  have ht : list.tail = some item := by rw [h.tail, if_neg (by omega), ← hi]; rfl
  have hact : actions.eraseIdx item = (List.range item).map fun i => (list.data i).toAction := by
    rw [← h.actions, stored, ← hi, List.range_succ, List.map_append,
      List.eraseIdx_append_of_length_le (by simp)]
    simp
  rw [hact]
  unfold remove_action
  rw [if_neg (by omega)]
  split
  · obtain rfl : item = 0 := by omega
    exact ⟨rfl, rfl, fun i hi => absurd hi (Nat.not_lt_zero i),
      fun i hi => absurd hi (Nat.not_lt_zero i),
      rfl⟩
  · have h0 : 0 < item := by omega
    have hprev : (list.data item).prev = some (item - 1) := by
      rw [h.prev item (by omega), if_neg (by omega)]
    have hnext : (list.data item).next = none := by rw [h.next item (by omega), if_neg (by omega)]
    have hhead : list.head = some 0 := by rw [h.head, if_neg (by omega)]
    simp only [ht, hhead, hprev, Nat.sub_self, moveLoop, Option.some.injEq]
    have hs : list.size - 1 = item := by omega
    rw [hs, if_neg (by omega)]
    refine ⟨by simp; omega, by simp; omega, ?_, ?_, by simp [stored]⟩
    · intro i hi
      have hlt : i < item := hi
      show (detach list.data item i).next = if i + 1 < item then some (i + 1) else none
      rw [detach_next, if_neg (by omega), hprev, hnext]
      by_cases hlast : i + 1 = item
      · rw [if_pos (by rw [← hlast]; rfl), if_neg (by omega)]
      · rw [if_neg (by simp; omega), h.next i (by omega), if_pos (by omega), if_pos (by omega)]
    · intro i hi
      have hlt : i < item := hi
      show (detach list.data item i).prev = if i = 0 then none else some (i - 1)
      rw [detach_prev, if_neg (by omega), hnext, if_neg (by simp), h.prev i (by omega)]

/-- A removal of any other action leaves the tail on a cell that is no longer stored. -/
theorem InOrder.remove_tail (h : InOrder list actions) {item : Nat} (hi : item + 1 < list.size) :
    (remove_action list item).tail = some (remove_action list item).size := by
  have ht : list.tail = some (list.size - 1) := by rw [h.tail, if_neg (by omega)]
  unfold remove_action
  rw [if_neg (by omega), if_neg (by omega)]
  simp only [ht, Option.some.injEq]
  rw [if_neg (by omega)]

end InOrder

/-! ## Runs -/

/-- The two calls that change a list. -/
inductive ListCall
  | add (action : Action)
  | remove (item : Nat)

/-- A call on the list, and on the actions that ought to be in it. -/
def listStep (s : IrqActionList × List Action) : ListCall → IrqActionList × List Action
  | .add action => ((add_action s.1 action).2,
      if s.2.length = _PIC_ACTION_LIST_SIZE then s.2 else s.2 ++ [action])
  | .remove item => (remove_action s.1 item, s.2.eraseIdx item)

/-- Runs from an initialised list, whatever its array holds. -/
def listMachine (data : Nat → IrqAction) : Machine (IrqActionList × List Action) ListCall :=
  .ofFn (init_list data, []) listStep

/-- Every item removed is stored. -/
def RemovesStored (s : IrqActionList × List Action) (call : ListCall) : Prop :=
  ∀ item, call = .remove item → item < s.1.size

/-- Every item removed is the last one stored. -/
def RemovesLast (s : IrqActionList × List Action) (call : ListCall) : Prop :=
  ∀ item, call = .remove item → item + 1 = s.1.size

/-- In a run that removes only last actions the links follow the array. -/
theorem listMachine_inOrder {data : Nat → IrqAction} {s : IrqActionList × List Action}
    (hr : Reach (listMachine data) RemovesLast s) : InOrder s.1 s.2 := by
  refine Reach.ofFn_invariant (I := fun s => InOrder s.1 s.2) (.init data)
    (fun s call ih hok => ?_) hr
  cases call with
  | add action => exact ih.add_action action
  | remove item => exact ih.remove_last (hok item rfl)

/-- **The handler list**: in every run that removes only last actions it is a well-formed doubly
    linked list of the actions that ought to be in it, and a dispatch ends and calls each of their
    handlers once; and there the removal of any other stored action breaks it. -/
theorem listMachine_wellFormed (data : Nat → IrqAction) (s : IrqActionList × List Action)
    (hr : Reach (listMachine data) RemovesLast s) :
    WellFormed s.1 s.2 ∧ Dispatches s.1 s.2 ∧
      ∀ item, item < s.1.size →
        (WellFormed (remove_action s.1 item) (s.2.eraseIdx item) ↔ item + 1 = s.1.size) := by
  have h := listMachine_inOrder hr
  refine ⟨h.wellFormed, h.wellFormed.dispatches, fun item hi => ⟨fun hw => ?_, fun hlast => ?_⟩⟩
  · by_contra hne
    have := hw.tail_lt (h.remove_tail (by omega))
    omega
  · exact (h.remove_last hlast).wellFormed

/-- An array nobody has written to. -/
def blankCells (_ : Nat) : IrqAction := ⟨⟨0, 0, 0, 0⟩, none, none⟩

/-- A handler at some address, for the device given. -/
def handlerOf (dev_id : BitVec 32) : Action := ⟨0x1000, 0, 0, dev_id⟩

/-- Two handlers of one line, the second of them removed again. -/
theorem listMachine_wellFormed_two :
    WellFormed (listStep (listStep (listStep (init_list blankCells, []) (.add (handlerOf 1)))
      (.add (handlerOf 2))) (.remove 1)).1 [handlerOf 1] := by
  refine (listMachine_wellFormed blankCells _ ?_).1
  refine .ofFn_step (.ofFn_step (.ofFn_step (.init rfl) ?_) ?_) ?_
  · intro item e; cases e
  · intro item e; cases e
  · intro item e; cases e; rfl

/-- Two handlers of one line, the first of them removed, and another one added: the list consists of
    one cell that points to itself, so a dispatch never ends. -/
theorem listMachine_breaks : ¬ ∀ (data : Nat → IrqAction) (s : IrqActionList × List Action),
    Reach (listMachine data) RemovesStored s → WellFormed s.1 s.2 ∧ Dispatches s.1 s.2 := by
  intro h
  let s := listStep (listStep (listStep (listStep (init_list blankCells, []) (.add (handlerOf 1)))
    (.add (handlerOf 2))) (.remove 0)) (.add (handlerOf 3))
  have hr : Reach (listMachine blankCells) RemovesStored s := by
    refine .ofFn_step (.ofFn_step (.ofFn_step (.ofFn_step (.init rfl) ?_) ?_) ?_) ?_
    · intro item e; cases e
    · intro item e; cases e
    · intro item e; cases e; decide
    · intro item e; cases e
  obtain ⟨-, fuel, hd⟩ := h blankCells s hr
  have hloop : ∀ fuel, dispatchLoop s.1.data fuel (some 1) = none := by
    intro fuel
    induction fuel with
    | zero => rfl
    | succ fuel ih =>
      have hself : (s.1.data 1).next = some 1 := rfl
      rw [dispatchLoop, hself, ih]
      rfl
  rw [show first_action s.1 = some 1 from rfl, hloop] at hd
  cases hd

end TedkOS.Pic
