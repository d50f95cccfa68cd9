/-
  The list of interrupt handlers of one line (pic/list.cpp, pic/list.h).

  The actions stand in the first `size` cells of an array, in the order they were added, and are
  linked by `next` and `prev` as well; a pointer is the index of the cell it points to, and `none`
  is NULL.

  `remove_action` closes the gap by moving the cells above the removed one down by one, up to the
  cell the TAIL POINTER names, and fixes the pointers into every cell it moves.  The new head and
  tail are chosen before that and not fixed afterwards.

  What the operations do to the ARRAY (the stored actions) and to the LINKS is told apart in the two
  modules that follow: the array is right in every run, the links only as long as nothing but the
  last action is removed.
-/
import Mathlib.Logic.Function.Basic

namespace TedkOS.Pic

def _PIC_ACTION_LIST_SIZE : Nat := 256

/-- `irq_good_handler_t`, as the address of the function; 0 is NULL. -/
abbrev Handler := BitVec 32

/-- What the caller of `add_action` passes. -/
structure Action where
  handler : Handler
  policy_flags : BitVec 32
  mask : BitVec 32
  dev_id : BitVec 32
deriving DecidableEq

/-- `irqaction`. -/
structure IrqAction extends Action where
  next : Option Nat
  prev : Option Nat

/-- `irqaction_list`. -/
structure IrqActionList where
  size : Nat
  data : Nat → IrqAction
  head : Option Nat
  tail : Option Nat

/-- `p->next = v`, unless `p` is NULL. -/
def setNext (data : Nat → IrqAction) (p v : Option Nat) : Nat → IrqAction :=
  match p with
  | some i => Function.update data i { data i with next := v }
  | none => data

/-- `p->prev = v`, unless `p` is NULL. -/
def setPrev (data : Nat → IrqAction) (p v : Option Nat) : Nat → IrqAction :=
  match p with
  | some i => Function.update data i { data i with prev := v }
  | none => data

/-- `init_list(list)`: the array keeps what it holds. -/
def init_list (data : Nat → IrqAction) : IrqActionList := ⟨0, data, none, none⟩

/-- `add_action(list, handler, policy_flags, mask, dev_id)`. -/
def add_action (list : IrqActionList) (action : Action) : BitVec 32 × IrqActionList :=
  if list.size = _PIC_ACTION_LIST_SIZE then (-1, list)
  else
    let added := list.size
    match list.tail with
    | some oldtail =>
      let data := Function.update list.data added ⟨action, none, (list.data added).prev⟩
      let data := setNext data (some oldtail) (some added)
      let data := setPrev data (some added) (some oldtail)
      (0, { list with size := list.size + 1, data, tail := some added })
    | none =>
      -- The list was originally empty
      let data := Function.update list.data added ⟨action, none, none⟩
      (0, { size := list.size + 1, data, head := some added, tail := some added })

def first_action (list : IrqActionList) : Option Nat := list.head

/-- The loop of `find_action` from cell `i` on.  Device ids are unsigned, so the test for a negative
    one never holds. -/
def findLoop (data : Nat → IrqAction) (deviceId_to_find : BitVec 32) (handler_to_find : Handler) :
    Nat → Nat → Option Nat
  | 0, _ => none
  | left + 1, i =>
    if (deviceId_to_find < 0 ∨ (data i).dev_id = deviceId_to_find) ∧
        (handler_to_find = 0 ∨ (data i).handler = handler_to_find) then some i
    else findLoop data deviceId_to_find handler_to_find left (i + 1)

def find_action (list : IrqActionList) (deviceId_to_find : BitVec 32) (handler_to_find : Handler) :
    Option Nat :=
  findLoop list.data deviceId_to_find handler_to_find list.size 0

/-- The second step of `remove_action`: the item leaves the chain. -/
def detach (data : Nat → IrqAction) (item : Nat) : Nat → IrqAction :=
  let origPrev := (data item).prev
  let origNext := (data item).next
  let data := setNext data origPrev origNext
  let data := setPrev data origNext origPrev
  setNext (setPrev data (some item) none) (some item) none

/-- One round of the third step: the cell above `clobber` moves down. -/
def moveDown (data : Nat → IrqAction) (clobber : Nat) : Nat → IrqAction :=
  let src := data (clobber + 1)
  let data := Function.update data clobber src
  -- adjust the pointers after moving the node to different addr. in mem.
  let data := setNext data src.prev (some clobber)
  setPrev data src.next (some clobber)

/-- The rounds left of the third step, from `clobber` on. -/
def moveLoop : Nat → Nat → (Nat → IrqAction) → Nat → IrqAction
  | 0, _, data => data
  | left + 1, clobber, data => moveLoop left (clobber + 1) (moveDown data clobber)

/-- `remove_action(list, item)`. -/
def remove_action (list : IrqActionList) (item : Nat) : IrqActionList :=
  if list.size = 0 ∨ item ≥ list.size then list
  else if list.size = 1 then { list with size := 0, head := none, tail := none }
  else
    let newHead := if list.head = some item then (list.data item).next else list.head
    let newTail := if list.tail = some item then (list.data item).prev else list.tail
    -- a NULL tail is below every cell
    let rounds := match list.tail with
      | some tail => tail - item
      | none => 0
    { size := list.size - 1
      data := moveLoop rounds item (detach list.data item)
      head := newHead
      tail := newTail }

/-! ## One cell -/

section Cells

variable {data : Nat → IrqAction} {p v : Option Nat} {i j : Nat}

/-- What the change of a cell keeps is kept in every cell. -/
theorem update_keeps {β : Type} (keep : IrqAction → β) (φ : IrqAction → IrqAction)
    (hφ : ∀ x, keep (φ x) = keep x) :
    keep (Function.update data j (φ (data j)) i) = keep (data i) := by
  by_cases h : i = j
  · rw [h, Function.update_self, hφ]
  · rw [Function.update_of_ne h]

/-- What the change of a cell sets is set in that cell only. -/
theorem update_sets {β : Type} (field : IrqAction → β) {φ : IrqAction → IrqAction} {w : β}
    (hφ : ∀ x, field (φ x) = w) : field (Function.update data j (φ (data j)) i) =
      if some j = some i then w else field (data i) := by
  by_cases h : i = j
  · rw [h, Function.update_self, if_pos rfl, hφ]
  · rw [Function.update_of_ne h, if_neg fun e => h (Option.some.inj e).symm]

@[simp] theorem setNext_toAction : (setNext data p v i).toAction = (data i).toAction := by
  cases p with
  | none => rfl
  | some j => exact update_keeps IrqAction.toAction (fun x => { x with next := v }) fun _ => rfl

@[simp] theorem setPrev_toAction : (setPrev data p v i).toAction = (data i).toAction := by
  cases p with
  | none => rfl
  | some j => exact update_keeps IrqAction.toAction (fun x => { x with prev := v }) fun _ => rfl

theorem setNext_next : (setNext data p v i).next = if p = some i then v else (data i).next := by
  cases p with
  | none => rw [if_neg nofun]; rfl
  | some j => exact update_sets IrqAction.next fun _ => rfl

@[simp] theorem setNext_prev : (setNext data p v i).prev = (data i).prev := by
  cases p with
  | none => rfl
  | some j => exact update_keeps IrqAction.prev (fun x => { x with next := v }) fun _ => rfl

theorem setPrev_prev : (setPrev data p v i).prev = if p = some i then v else (data i).prev := by
  cases p with
  | none => rw [if_neg nofun]; rfl
  | some j => exact update_sets IrqAction.prev fun _ => rfl

@[simp] theorem setPrev_next : (setPrev data p v i).next = (data i).next := by
  cases p with
  | none => rfl
  | some j => exact update_keeps IrqAction.next (fun x => { x with prev := v }) fun _ => rfl

/-- What a new cell points back to is set after it is filled, so that what it is filled with does
    not matter. -/
theorem setPrev_fill (action : Action) (next prev prev' w : Option Nat) :
    setPrev (setNext (Function.update data i ⟨action, next, prev⟩) p v) (some i) w =
      setPrev (setNext (Function.update data i ⟨action, next, prev'⟩) p v) (some i) w := by
  funext k
  by_cases hk : k = i
  · subst hk
    cases p with
    | none => simp [setPrev, setNext]
    | some j =>
      by_cases hj : k = j
      · subst hj
        simp [setPrev, setNext]
      · simp [setPrev, setNext, Function.update_of_ne hj]
  · cases p with
    | none => simp [setPrev, setNext, Function.update_of_ne hk]
    | some j =>
      by_cases hj : k = j
      · subst hj
        simp [setPrev, setNext, Function.update_of_ne hk]
      · simp [setPrev, setNext, Function.update_of_ne hk, Function.update_of_ne hj]

@[simp] theorem detach_toAction : (detach data i j).toAction = (data j).toAction := by
  simp [detach]

/-- What one round does to the actions: the one above comes down. -/
theorem moveDown_toAction (clobber : Nat) : (moveDown data clobber i).toAction =
    if i = clobber then (data (clobber + 1)).toAction else (data i).toAction := by
  simp only [moveDown, setPrev_toAction, setNext_toAction]
  by_cases h : i = clobber
  · subst h; rw [Function.update_self, if_pos rfl]
  · rw [Function.update_of_ne h, if_neg h]

/-- What all rounds do to the actions. -/
theorem moveLoop_toAction (left : Nat) : ∀ (clobber : Nat) (data : Nat → IrqAction),
    (moveLoop left clobber data i).toAction =
      if clobber ≤ i ∧ i < clobber + left then (data (i + 1)).toAction else (data i).toAction := by
  induction left with
  | zero =>
    intro clobber data
    rw [moveLoop, if_neg (by omega)]
  | succ left ih =>
    intro clobber data
    rw [moveLoop, ih]
    by_cases hin : clobber + 1 ≤ i ∧ i < clobber + 1 + left
    · rw [if_pos hin, if_pos (by omega), moveDown_toAction, if_neg (by omega)]
    · rw [if_neg hin, moveDown_toAction]
      by_cases hi : i = clobber
      · subst hi; rw [if_pos rfl, if_pos (by omega)]
      · rw [if_neg hi, if_neg (by omega)]

theorem detach_next : (detach data j i).next =
    if i = j then none else if (data j).prev = some i then (data j).next else (data i).next := by
  simp only [detach, setNext_next, setPrev_next, Option.some.injEq, eq_comm (a := j)]

theorem detach_prev : (detach data j i).prev =
    if i = j then none else if (data j).next = some i then (data j).prev else (data i).prev := by
  simp only [detach, setPrev_prev, setNext_prev, Option.some.injEq, eq_comm (a := j)]

theorem moveDown_next (clobber : Nat) : (moveDown data clobber i).next =
    if (data (clobber + 1)).prev = some i then some clobber
    else if i = clobber then (data (clobber + 1)).next else (data i).next := by
  simp only [moveDown, setPrev_next, setNext_next]
  by_cases h : i = clobber
  · subst h; rw [Function.update_self, if_pos rfl]
  · rw [Function.update_of_ne h, if_neg h]

theorem moveDown_prev (clobber : Nat) : (moveDown data clobber i).prev =
    if (data (clobber + 1)).next = some i then some clobber
    else if i = clobber then (data (clobber + 1)).prev else (data i).prev := by
  simp only [moveDown, setPrev_prev, setNext_prev]
  by_cases h : i = clobber
  · subst h; rw [Function.update_self, if_pos rfl]
  · rw [Function.update_of_ne h, if_neg h]

end Cells

end TedkOS.Pic
