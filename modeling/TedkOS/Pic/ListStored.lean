/-
  The array of the handler list over runs, whatever the array held at the start.

  1. **Watermark.**  The cells below `W` are those that have ever been used.  Their pointers stay
     below `W`, and so does the tail, so no operation reads what a cell held before its first use.
  2. **Twins.**  So the list runs like one whose array was blank at the start: the two agree below
     `W` (`Twins`).  For the blank one the pointers a removal relies on are sound (`Sound`), and the
     stored actions are right.
  3. **Accesses.**  Every cell the moving loop of `remove_action` touches is below `W`, and `W` is
     at most the size of the array (`Twins.loopAccesses`).
-/
import TedkOS.Pic.ListRuns

namespace TedkOS.Pic

open Runs

/-! ## The cells the loop touches -/

/-- The cells one round of the moving loop reads or writes: the one moved and where it goes, and
    those its pointers name. -/
def moveAccesses (data : Nat → IrqAction) (clobber : Nat) : List Nat :=
  clobber :: (clobber + 1) :: ((data (clobber + 1)).prev.toList ++ (data (clobber + 1)).next.toList)

/-- All rounds. -/
def loopAccesses : Nat → Nat → (Nat → IrqAction) → List Nat
  | 0, _, _ => []
  | left + 1, clobber, data =>
    moveAccesses data clobber ++ loopAccesses left (clobber + 1) (moveDown data clobber)

/-- The cells the moving loop of `remove_action(list, item)` reads or writes. -/
def removeAccesses (list : IrqActionList) (item : Nat) : List Nat :=
  if list.size = 0 ∨ item ≥ list.size then []
  else if list.size = 1 then []
  else
    let rounds := match list.tail with
      | some tail => tail - item
      | none => 0
    loopAccesses rounds item (detach list.data item)

/-! ## Pointers below the watermark -/

/-- A pointer is NULL or names a cell below `W`. -/
def Below (W : Nat) (p : Option Nat) : Prop := ∀ x, p = some x → x < W

/-- Below `W` the two arrays agree, and their pointers stay below. -/
structure TwinCells (W : Nat) (data data' : Nat → IrqAction) : Prop where
  /-- The cells are the same, -/
  agree : ∀ i, i < W → data i = data' i
  /-- and what they point to is among them. -/
  next : ∀ i, i < W → Below W (data i).next
  prev : ∀ i, i < W → Below W (data i).prev

/-- NULL names no cell. -/
theorem below_none (W : Nat) : Below W none := fun _ h => by cases h

/-- A pointer to a cell. -/
theorem below_some {W i : Nat} : Below W (some i) ↔ i < W :=
  ⟨fun h => h i rfl, fun h _ hx => Option.some.inj hx ▸ h⟩

/-- The watermark may go up. -/
theorem Below.mono {W W' : Nat} {p : Option Nat} (hp : Below W p) (hle : W ≤ W') : Below W' p :=
  fun x hx => Nat.lt_of_lt_of_le (hp x hx) hle

/-- A cell that agrees does so after the same change of one cell. -/
theorem update_congr {data data' : Nat → IrqAction} (φ : IrqAction → IrqAction) {i j : Nat}
    (h : data i = data' i) :
    Function.update data j (φ (data j)) i = Function.update data' j (φ (data' j)) i := by
  by_cases hij : i = j
  · rw [← hij, Function.update_self, Function.update_self, h]
  · rw [Function.update_of_ne hij, Function.update_of_ne hij, h]

namespace TwinCells

variable {W : Nat} {data data' : Nat → IrqAction} (h : TwinCells W data data')
include h

/-- Linking a cell to one below the watermark, -/
theorem setNext {p v : Option Nat} (hv : Below W v) :
    TwinCells W (setNext data p v) (setNext data' p v) := by
  constructor
  case agree =>
    intro i hi
    cases p with
    | none => exact h.agree i hi
    | some j => exact update_congr (fun x => { x with next := v }) (h.agree i hi)
  case next =>
    intro i hi
    rw [setNext_next]
    split
    · exact hv
    · exact h.next i hi
  case prev =>
    intro i hi
    rw [setNext_prev]
    exact h.prev i hi

/-- and linking it back. -/
theorem setPrev {p v : Option Nat} (hv : Below W v) :
    TwinCells W (setPrev data p v) (setPrev data' p v) := by
  constructor
  case agree =>
    intro i hi
    cases p with
    | none => exact h.agree i hi
    | some j => exact update_congr (fun x => { x with prev := v }) (h.agree i hi)
  case next =>
    intro i hi
    rw [setPrev_next]
    exact h.next i hi
  case prev =>
    intro i hi
    rw [setPrev_prev]
    split
    · exact hv
    · exact h.prev i hi

/-- A cell below the watermark is copied to another. -/
theorem copy {i j : Nat} (hj : j < W) :
    TwinCells W (Function.update data i (data j)) (Function.update data' i (data' j)) := by
  constructor
  case agree =>
    intro k hk
    by_cases hki : k = i
    · rw [hki, Function.update_self, Function.update_self, h.agree j hj]
    · rw [Function.update_of_ne hki, Function.update_of_ne hki, h.agree k hk]
  case next =>
    intro k hk
    by_cases hki : k = i
    · rw [hki, Function.update_self]
      exact h.next j hj
    · rw [Function.update_of_ne hki]
      exact h.next k hk
  case prev =>
    intro k hk
    by_cases hki : k = i
    · rw [hki, Function.update_self]
      exact h.prev j hj
    · rw [Function.update_of_ne hki]
      exact h.prev k hk

/-- A cell is filled, the only one between the old watermark and the new. -/
theorem fill {W' cell : Nat} (hle : W ≤ W') (hbefore : ∀ {i}, i < W' → i ≠ cell → i < W)
    (action : IrqAction) (hnext : Below W' action.next) (hprev : Below W' action.prev) :
    TwinCells W' (Function.update data cell action) (Function.update data' cell action) := by
  constructor
  case agree =>
    intro i hi
    by_cases hic : i = cell
    · rw [hic, Function.update_self, Function.update_self]
    · rw [Function.update_of_ne hic, Function.update_of_ne hic, h.agree i (hbefore hi hic)]
  case next =>
    intro i hi
    by_cases hic : i = cell
    · rw [hic, Function.update_self]
      exact hnext
    · rw [Function.update_of_ne hic]
      exact (h.next i (hbefore hi hic)).mono hle
  case prev =>
    intro i hi
    by_cases hic : i = cell
    · rw [hic, Function.update_self]
      exact hprev
    · rw [Function.update_of_ne hic]
      exact (h.prev i (hbefore hi hic)).mono hle

/-- Taking a cell out of the chain only links its neighbours, which are below the watermark as it
    is. -/
theorem detach {item : Nat} (hi : item < W) :
    TwinCells W (detach data item) (detach data' item) := by
  rw [Pic.detach, Pic.detach, ← h.agree item hi]
  exact (((h.setNext (h.next item hi)).setPrev (h.prev item hi)).setPrev (below_none W)).setNext
    (below_none W)

/-- Moving a cell down links it from where it was linked. -/
theorem moveDown {clobber : Nat} (hc : clobber + 1 < W) :
    TwinCells W (moveDown data clobber) (moveDown data' clobber) := by
  have hcopy := h.copy (i := clobber) hc
  rw [Pic.moveDown, Pic.moveDown, ← h.agree (clobber + 1) hc]
  rw [← h.agree (clobber + 1) hc] at hcopy
  exact (hcopy.setNext (below_some.mpr (by omega))).setPrev (below_some.mpr (by omega))

/-- And so do all the rounds, up to the last cell. -/
theorem moveLoop {left clobber : Nat} (hc : clobber + left < W) :
    TwinCells W (moveLoop left clobber data) (moveLoop left clobber data') := by
  induction left generalizing clobber data data' with
  | zero => exact h
  | succ left ih => exact ih (h.moveDown (by omega)) (by omega)

/-- **The loop stays below the watermark.** -/
theorem loopAccesses {left clobber : Nat} (hc : clobber + left < W) :
    ∀ i ∈ loopAccesses left clobber data, i < W := by
  induction left generalizing clobber data data' with
  | zero => exact fun i hi => absurd hi List.not_mem_nil
  | succ left ih =>
    intro i hi
    rcases List.mem_append.mp hi with hi | hi
    · rw [moveAccesses, List.mem_cons, List.mem_cons, List.mem_append, Option.mem_toList,
        Option.mem_toList] at hi
      rcases hi with rfl | rfl | hi | hi
      · omega
      · omega
      · exact h.prev (clobber + 1) (by omega) i hi
      · exact h.next (clobber + 1) (by omega) i hi
    · exact ih (h.moveDown (by omega)) (by omega) i hi

end TwinCells

/-! ## Lists that agree below the watermark -/

/-- The two lists agree in all that is stored and linked, and lie below `W` with their tail. -/
structure Twins (W : Nat) (list twin : IrqActionList) : Prop where
  /-- The same number of actions, -/
  size : list.size = twin.size
  /-- with the same head -/
  head : list.head = twin.head
  /-- and the same tail, -/
  tail : list.tail = twin.tail
  /-- in the same cells. -/
  cells : TwinCells W list.data twin.data
  /-- The tail is a cell that has been used, -/
  tail_below : Below W list.tail
  /-- and so are all that store an action; -/
  size_le : list.size ≤ W
  /-- none of them is outside the array. -/
  fits : W ≤ _PIC_ACTION_LIST_SIZE

namespace Twins

variable {W : Nat} {list twin : IrqActionList} (h : Twins W list twin)
include h

/-- So they store the same. -/
theorem stored_eq : stored list = stored twin := by
  rw [stored, stored, ← h.size]
  apply List.map_congr_left
  intro i hi
  have := h.size_le
  rw [h.cells.agree i (by have := List.mem_range.mp hi; omega)]

/-- A removal reads and writes below the watermark. -/
theorem remove_action {item : Nat} (hi : item < list.size) :
    Twins W (remove_action list item) (remove_action twin item) := by
  have hsize := h.size_le
  have hitem := h.cells.agree item (by omega)
  have hvalid : ¬ (list.size = 0 ∨ item ≥ list.size) := by omega
  unfold Pic.remove_action
  rw [← h.size, ← h.head, ← h.tail, ← hitem, if_neg hvalid, if_neg hvalid]
  by_cases h1 : list.size = 1
  · rw [if_pos h1, if_pos h1]
    exact ⟨rfl, rfl, rfl, h.cells, below_none W, Nat.zero_le W, h.fits⟩
  · rw [if_neg h1, if_neg h1]
    have hdetach := h.cells.detach (show item < W by omega)
    have htail : Below W (if list.tail = some item then (list.data item).prev else list.tail) := by
      split
      · exact h.cells.prev item (by omega)
      · exact h.tail_below
    refine ⟨rfl, rfl, rfl, ?_, htail, show list.size - 1 ≤ W by omega, h.fits⟩
    cases ht : list.tail with
    | none => exact hdetach
    | some t =>
      have hlt := h.tail_below t ht
      exact hdetach.moveLoop (show item + (t - item) < W by omega)

/-- The moving loop runs up to the tail, so it stays in the array. -/
theorem removeAccesses {item : Nat} (hi : item < list.size) :
    ∀ i ∈ removeAccesses list item, i < _PIC_ACTION_LIST_SIZE := by
  have hsize := h.size_le
  have hfits := h.fits
  intro i
  unfold Pic.removeAccesses
  rw [if_neg (by omega)]
  split
  · exact fun hmem => absurd hmem List.not_mem_nil
  · intro hmem
    have hdetach := h.cells.detach (show item < W by omega)
    apply Nat.lt_of_lt_of_le _ hfits
    cases ht : list.tail with
    | none =>
      rw [ht] at hmem
      exact absurd hmem List.not_mem_nil
    | some t =>
      have hlt := h.tail_below t ht
      rw [ht] at hmem
      exact hdetach.loopAccesses (show item + (t - item) < W by omega) i hmem

/-- An add uses one cell more, which it fills. -/
theorem add_action (action : Action) :
    ∃ W', Twins W' (add_action list action).2 (add_action twin action).2 := by
  have hle := h.size_le
  have hfits := h.fits
  by_cases hs : list.size = _PIC_ACTION_LIST_SIZE
  · refine ⟨W, ?_⟩
    unfold Pic.add_action
    rw [← h.size, if_pos hs, if_pos hs]
    exact h
  · have hs' : twin.size ≠ _PIC_ACTION_LIST_SIZE := h.size ▸ hs
    have hmax : W ≤ max W (list.size + 1) := Nat.le_max_left _ _
    have hnew : Below (max W (list.size + 1)) (some list.size) := below_some.mpr (by omega)
    have hbefore : ∀ {i}, i < max W (list.size + 1) → i ≠ list.size → i < W := by
      intro i hi hne
      omega
    have hfill := h.cells.fill hmax hbefore ⟨action, none, none⟩ (below_none _) (below_none _)
    refine ⟨max W (list.size + 1), ?_⟩
    cases ht : list.tail with
    | none =>
      have ht' : twin.tail = none := h.tail ▸ ht
      rw [add_action_first action hs ht, add_action_first action hs' ht', ← h.size]
      exact ⟨rfl, rfl, rfl, hfill, hnew, Nat.le_max_right _ _, by omega⟩
    | some oldtail =>
      have ht' : twin.tail = some oldtail := h.tail ▸ ht
      have hold : oldtail < W := h.tail_below oldtail ht
      have hback : Below (max W (list.size + 1)) (some oldtail) := below_some.mpr (by omega)
      rw [add_action_next action hs ht, add_action_next action hs' ht', ← h.size, ← h.head]
      have hcells := (hfill.setNext (p := some oldtail) hnew).setPrev (p := some list.size) hback
      exact ⟨rfl, rfl, rfl, hcells, hnew, Nat.le_max_right _ _, by omega⟩

end Twins

/-! ## Runs -/

/-- What every run keeps: the list agrees with one whose pointers are sound and whose stored actions
    are those that ought to be in it. -/
def KeepsActions (s : IrqActionList × List Action) : Prop :=
  ∃ W twin, Twins W s.1 twin ∧ Sound twin ∧ stored twin = s.2

/-- An empty list keeps nothing, whatever its array holds. -/
theorem KeepsActions.init (data : Nat → IrqAction) : KeepsActions (init_list data, []) := by
  refine ⟨0, init_list blankCells, ?_, .init (fun _ => rfl) fun _ => rfl, rfl⟩
  have hcells : TwinCells 0 data blankCells := by
    constructor
    case agree => exact fun i hi => absurd hi (Nat.not_lt_zero i)
    case next => exact fun i hi => absurd hi (Nat.not_lt_zero i)
    case prev => exact fun i hi => absurd hi (Nat.not_lt_zero i)
  exact ⟨rfl, rfl, rfl, hcells, below_none 0, Nat.le_refl 0, Nat.zero_le _⟩

/-- A call keeps the actions in order, and the list below the watermark. -/
theorem KeepsActions.step {s : IrqActionList × List Action} (h : KeepsActions s) {call : ListCall}
    (hok : RemovesStored s call) : KeepsActions (listStep s call) := by
  obtain ⟨W, twin, htwins, hsound, hstored⟩ := h
  cases call with
  | add action =>
    obtain ⟨W', htwins'⟩ := htwins.add_action action
    refine ⟨W', _, htwins', hsound.add_action action, ?_⟩
    have hlen : s.2.length = twin.size := by rw [← hstored, stored_length]
    show stored (add_action twin action).2 = if s.2.length = _PIC_ACTION_LIST_SIZE then s.2
      else s.2 ++ [action]
    rw [stored_add_action, hlen, hstored]
  | remove item =>
    have hi := hok item rfl
    have hi' : item < twin.size := htwins.size ▸ hi
    refine ⟨W, _, htwins.remove_action hi, hsound.remove_action hi', ?_⟩
    show stored (remove_action twin item) = s.2.eraseIdx item
    rw [stored_remove_action hsound hi', hstored]

/-- **The stored actions**, in every run whose removals are of stored actions, whatever the array
    held at the start: the first cells hold those added and not yet removed, in the order they were
    added, and a removal moves cells inside the array only. -/
theorem listMachine_stored (data : Nat → IrqAction) (s : IrqActionList × List Action)
    (hr : Reach (listMachine data) RemovesStored s) :
    stored s.1 = s.2 ∧ ∀ item, item < s.1.size →
      ∀ i ∈ removeAccesses s.1 item, i < _PIC_ACTION_LIST_SIZE := by
  have hkeeps : KeepsActions s :=
    Reach.ofFn_invariant (I := KeepsActions) (.init data) (fun _ _ ih hok => ih.step hok) hr
  obtain ⟨W, twin, htwins, -, hstored⟩ := hkeeps
  exact ⟨htwins.stored_eq.trans hstored, fun item hi => htwins.removeAccesses hi⟩

/-- Three handlers, the second of them removed. -/
theorem listMachine_stored_three :
    stored (listStep (listStep (listStep (listStep (init_list blankCells, []) (.add (handlerOf 1)))
      (.add (handlerOf 2))) (.add (handlerOf 3))) (.remove 1)).1 = [handlerOf 1, handlerOf 3] := by
  refine (listMachine_stored blankCells _ ?_).1
  refine .ofFn_step (.ofFn_step (.ofFn_step (.ofFn_step (.init rfl) ?_) ?_) ?_) ?_
  · intro item e; cases e
  · intro item e; cases e
  · intro item e; cases e
  · intro item e; cases e; decide

end TedkOS.Pic
