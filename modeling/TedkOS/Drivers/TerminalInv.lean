/-
  A terminal stays on its screen.

  1. **The trail** — the items of `term_buf` remember how the cursor came to where it is: going back
     item by item, `x_offset` and `y_offset` lead from each column to the one before (`Trail`).  An
     item is at most 4 columns wide and a wrap starts at column 0, so the line typed has at most 7
     wraps (`Trail.wraps_le`).

  2. **The invariant** — `OnScreen`: the coordinates and the buffer position are in range, there are
     no more wraps in the buffer than lines above, and whatever was asked of the painter or stored
     is in range.  One lemma per handler.

  3. **Runs** — keys, output, reads and owner changes in any order (`terminal_onScreen`).

  The wraps in the buffer are what may be taken back by backspace; when the screen scrolls, their
  number grows and `next_char_y` does not, so the bound on them keeps the row from going below 0:
  with at most 7 wraps on 25 rows, the line typed never fills the screen, and its beginning is never
  scrolled away.
-/
import Mathlib.Data.List.Range
import TedkOS.Lib.Runs
import TedkOS.Drivers.Terminal

namespace TedkOS.Drivers

open Runs Syscalls

/-! ## The trail

  The buffer is read from its end: the cursor is at column `x` because the last item has moved it
  there from column `x₀`, and it was there because of the items before.  What is typed and what
  is erased change the end only, and what lies above the end does not count (`Trail.congr`). -/

/-- The item `rec`, typed at column `x₀`, has moved the cursor to column `x`: on the same line by
    the offset the item keeps, or over the right edge, to column 0 of the next.  In the second
    case the offset leads back from the width of the screen. -/
structure Typed (x₀ : Nat) (rec : term_buf_item) (x : Nat) : Prop where
  start : x₀ < SCREEN_WIDTH
  within : rec.y_offset = 0 → x = x₀ + rec.x_offset ∧ x < SCREEN_WIDTH ∧ rec.x_offset ≤ 4
  wrapped : rec.y_offset ≠ 0 → x = 0 ∧ rec.x_offset = SCREEN_WIDTH - x₀ ∧ SCREEN_WIDTH ≤ x₀ + 4

/-- The first `n` items of the buffer lead to column `x`. -/
def Trail (buf : Nat → term_buf_item) : Nat → Nat → Prop
  | 0, x => x < SCREEN_WIDTH
  | n + 1, x => ∃ x₀, Trail buf n x₀ ∧ Typed x₀ (buf n) x

/-- How many of the first `n` items began a new line. -/
def wraps (buf : Nat → term_buf_item) (n : Nat) : Nat :=
  (List.range n).countP fun i => (buf i).y_offset != 0

section Trail

variable {buf : Nat → term_buf_item} {rec : term_buf_item} {n x : Nat}

/-- One more item may have begun a line. -/
theorem wraps_succ : wraps buf (n + 1) = wraps buf n + if (buf n).y_offset = 0 then 0 else 1 := by
  rw [wraps, List.range_succ, List.countP_append, wraps, List.countP_singleton]
  by_cases h : (buf n).y_offset = 0
  · simp [h]
  · simp [h]

/-- A trail ends on the screen. -/
theorem Trail.lt (h : Trail buf n x) : x < SCREEN_WIDTH := by
  cases n with
  | zero => exact h
  | succ n =>
    obtain ⟨x₀, -, ht⟩ := h
    by_cases hy : (buf n).y_offset = 0
    · exact (ht.within hy).2.1
    · rw [(ht.wrapped hy).1]
      decide

/-- **A bounded number of wraps.**  Between two wraps there are at least 20 items, for an item is
    4 columns wide at most: an item moves the cursor by 4 at most, also over the edge.  By
    induction on the items. -/
theorem Trail.wraps_le (h : Trail buf n x) : 80 * wraps buf n + x ≤ 4 * n + 79 := by
  induction n generalizing x with
  | zero =>
    have hx : x < 80 := h
    show 80 * 0 + x ≤ _
    omega
  | succ n ih =>
    obtain ⟨x₀, h₀, ht⟩ := h
    have hbound := ih h₀
    rw [wraps_succ]
    by_cases hy : (buf n).y_offset = 0
    · obtain ⟨hx, -, hwide⟩ := ht.within hy
      rw [if_pos hy]
      omega
    · obtain ⟨hx, -, hfar⟩ := ht.wrapped hy
      have hfar : 80 ≤ x₀ + 4 := hfar
      rw [if_neg hy]
      omega

/-- The trail is in the items below `n`. -/
theorem Trail.congr {buf' : Nat → term_buf_item} (hsame : ∀ i, i < n → buf' i = buf i)
    (h : Trail buf n x) :
    Trail buf' n x := by
  induction n generalizing x with
  | zero => exact h
  | succ n ih =>
    obtain ⟨x₀, h₀, ht⟩ := h
    refine ⟨x₀, ih (fun i hi => hsame i (by omega)) h₀, ?_⟩
    rw [hsame n (by omega)]
    exact ht

/-- So are the wraps. -/
theorem wraps_congr {buf' : Nat → term_buf_item} (hsame : ∀ i, i < n → buf' i = buf i) :
    wraps buf' n = wraps buf n := by
  refine List.countP_congr fun i hi => ?_
  rw [hsame i (List.mem_range.mp hi)]

/-- A new item leaves those below it alone. -/
theorem update_below {i : Nat} (hi : i < n) : Function.update buf n rec i = buf i :=
  Function.update_of_ne (by omega) _ _

/-- One more item. -/
theorem Trail.snoc {x₀ : Nat} (h : Trail buf n x₀) (ht : Typed x₀ rec x) :
    Trail (Function.update buf n rec) (n + 1) x := by
  refine ⟨x₀, h.congr fun i => update_below, ?_⟩
  rw [Function.update_self]
  exact ht

/-- The wraps with one more item. -/
theorem wraps_snoc : wraps (Function.update buf n rec) (n + 1) =
    wraps buf n + if rec.y_offset = 0 then 0 else 1 := by
  rw [wraps_succ, Function.update_self, wraps_congr fun i => update_below]

end Trail

/-! ## The invariant

  Every handler ends in one of a few ways: the buffer is empty again (`of_empty`, `cleared`), or
  it is one item longer or shorter.  So most of the lemmas below are about a movement of the
  cursor with one of these. -/

/-- A call that names a cell, names one of the screen; a store is inside the buffer. -/
def Effect.InRange : Effect → Prop
  | showChar x y _ => x < SCREEN_WIDTH ∧ y < SCREEN_HEIGHT
  | clearLine y => y < SCREEN_HEIGHT
  | setCursor x y => x < SCREEN_WIDTH ∧ y < SCREEN_HEIGHT
  | store index _ => index ≤ TERM_BUFFER_SIZE - 1
  | _ => True

/-- What is true of a terminal between two events. -/
structure OnScreen (t : Term) : Prop where
  row : t.next_char_y < SCREEN_HEIGHT
  /-- One place of the buffer is kept for the end of the line. -/
  pos : t.term_buf_pos ≤ TERM_BUFFER_SIZE - 1
  trail : Trail t.term_buf t.term_buf_pos t.next_char_x
  /-- Backspace can take all wraps back without leaving the screen. -/
  wraps : wraps t.term_buf t.term_buf_pos ≤ t.next_char_y
  /-- Whoever waits has given a buffer, so that Enter can end the read. -/
  waiting : t.UserWaitingRead = true → t.UserWaitingBuffer ≠ 0
  /-- Whatever has been asked of the painter so far. -/
  log : ∀ e ∈ t.log, e.InRange

namespace OnScreen

variable {t : Term} {e : Effect} {rec : term_buf_item}

/-- The cursor is in a column of the screen. -/
theorem column (h : OnScreen t) : t.next_char_x < SCREEN_WIDTH := h.trail.lt

/-- The next column does not wrap around. -/
theorem next_column (h : OnScreen t) : uint32_t (t.next_char_x + 1) = t.next_char_x + 1 := by
  have hx : t.next_char_x < 80 := h.column
  unfold uint32_t
  omega

/-- Nor does the next tab stop. -/
theorem next_tab (h : OnScreen t) : uint32_t (t.next_char_x + (4 - t.next_char_x % TAB_WIDTH)) =
    t.next_char_x + (4 - t.next_char_x % 4) := by
  have hx : t.next_char_x < 80 := h.column
  unfold uint32_t TAB_WIDTH
  omega

/-- A terminal starts in the corner, with an empty buffer. -/
theorem new : OnScreen Term.new where
  row := by decide
  pos := by decide
  trail := show 0 < SCREEN_WIDTH by decide
  wraps := Nat.le_refl 0
  waiting := fun h => absurd h Bool.false_ne_true
  log := fun e he => absurd he List.not_mem_nil

/-- One more call to the painter is in range if it is. -/
theorem mem_emit (hlog : ∀ e ∈ t.log, e.InRange) (he : e.InRange) :
    ∀ e' ∈ (t.emit e).log, e'.InRange := by
  intro e' hin
  rcases List.mem_append.mp hin with hin | hin
  · exact hlog e' hin
  · rw [List.mem_singleton.mp hin]
    exact he

/-- Asking the painter changes the log only. -/
theorem emit (h : OnScreen t) (he : e.InRange) : OnScreen (t.emit e) :=
  { h with log := mem_emit h.log he }

/-- The cursor is set where it is. -/
theorem moveCursor (h : OnScreen t) : OnScreen t.moveCursor := h.emit ⟨h.column, h.row⟩

/-- Nothing is in the buffer: there are no wraps, and the trail is the column alone. -/
theorem of_empty (hx : t.next_char_x < SCREEN_WIDTH) (hy : t.next_char_y < SCREEN_HEIGHT)
    (hpos : t.term_buf_pos = 0) (hwait : t.UserWaitingRead = true → t.UserWaitingBuffer ≠ 0)
    (hlog : ∀ e ∈ t.log, e.InRange) : OnScreen t where
  row := hy
  pos := hpos ▸ Nat.zero_le _
  trail := hpos ▸ hx
  wraps := hpos ▸ Nat.zero_le _
  waiting := hwait
  log := hlog

/-- An empty buffer, and the cursor somewhere on the screen. -/
theorem cleared (h : OnScreen t) {x y : Nat} (hx : x < SCREEN_WIDTH) (hy : y < SCREEN_HEIGHT) :
    OnScreen { t with next_char_x := x, next_char_y := y, term_buf_pos := 0 } :=
  of_empty hx hy rfl h.waiting h.log

/-- Another owner, or another reader with a buffer. -/
theorem withReader (h : OnScreen t) {pid buf len : BitVec 32} {waits : Bool}
    (hbuf : waits = true → buf ≠ 0) :
    OnScreen { t with
      OwnedByPid := pid
      UserWaitingRead := waits
      UserWaitingBuffer := buf
      UserWaitingLen := len } :=
  ⟨h.row, h.pos, h.trail, h.wraps, hbuf, h.log⟩

/-! ### A line down -/

/-- A line down ends on the screen: on the last row the screen scrolls instead. -/
theorem lineDown_row (hy : t.next_char_y < SCREEN_HEIGHT) :
    t.lineDown.next_char_y < SCREEN_HEIGHT := by
  rw [Term.lineDown]
  split
  · show uint32_t (t.next_char_y + 1) < SCREEN_HEIGHT
    unfold uint32_t SCREEN_HEIGHT at *
    omega
  · exact hy

/-- The row is not above where it was, and one below if there was room. -/
theorem lineDown_le {w : Nat} (hy : t.next_char_y < SCREEN_HEIGHT) (hw : w ≤ t.next_char_y)
    (hfew : w + 1 < SCREEN_HEIGHT) : w + 1 ≤ t.lineDown.next_char_y := by
  rw [Term.lineDown]
  split
  · show w + 1 ≤ uint32_t (t.next_char_y + 1)
    unfold uint32_t SCREEN_HEIGHT at *
    omega
  · show w + 1 ≤ t.next_char_y
    unfold SCREEN_HEIGHT at *
    omega

/-- The painter is asked to scroll at most. -/
theorem lineDown_log (hlog : ∀ e ∈ t.log, e.InRange) : ∀ e ∈ t.lineDown.log, e.InRange := by
  rw [Term.lineDown]
  split
  · exact hlog
  · exact mem_emit hlog trivial

/-- A line down changes the row, and nothing that was typed. -/
theorem lineDown_same : t.lineDown.next_char_x = t.next_char_x ∧ t.lineDown.term_buf = t.term_buf ∧
    t.lineDown.term_buf_pos = t.term_buf_pos ∧ t.lineDown.UserWaitingRead = t.UserWaitingRead ∧
    t.lineDown.UserWaitingBuffer = t.UserWaitingBuffer := by
  rw [Term.lineDown]
  split
  · exact ⟨rfl, rfl, rfl, rfl, rfl⟩
  · exact ⟨rfl, rfl, rfl, rfl, rfl⟩

/-- A line down at the left edge, with nothing in the buffer. -/
theorem lineDown (h : OnScreen t) {x : Nat} (hx : x < SCREEN_WIDTH) (hempty : t.term_buf_pos = 0) :
    OnScreen { t with next_char_x := x }.lineDown := by
  obtain ⟨hcol, -, hpos, hwait, hbuf⟩ := lineDown_same (t := { t with next_char_x := x })
  refine of_empty ?_ (lineDown_row h.row) ?_ ?_ (lineDown_log h.log)
  · rw [hcol]; exact hx
  · rw [hpos]; exact hempty
  · rw [hwait, hbuf]; exact h.waiting

/-! ### Typing

  An item within its line moves the column and adds no wrap.  An item over the edge goes a line
  down and adds one; if that line was the last, the screen scrolls instead and the row stays, but
  with at most 7 wraps there are 17 lines above the line typed. -/

/-- An item is typed: `t` has moved the cursor, and the buffer is still as in `t₀`.  What the
    mover has to show is that the item tells how (`Typed`), and that a wrap has a line above it. -/
theorem push {t₀ : Term} (h : OnScreen t₀) (hroom : t₀.term_buf_pos < TERM_BUFFER_SIZE - 1)
    (hbuf : t.term_buf = t₀.term_buf) (hpos : t.term_buf_pos = t₀.term_buf_pos)
    (hrow : t.next_char_y < SCREEN_HEIGHT)
    (hwait : t.UserWaitingRead = true → t.UserWaitingBuffer ≠ 0) (hlog : ∀ e ∈ t.log, e.InRange)
    (htyped : Typed t₀.next_char_x rec t.next_char_x)
    (hwraps : Drivers.wraps t₀.term_buf t₀.term_buf_pos + (if rec.y_offset = 0 then 0 else 1) ≤
      t.next_char_y) :
    OnScreen (t.push rec) := by
  have hnext : uint32_t (t₀.term_buf_pos + 1) = t₀.term_buf_pos + 1 := by
    unfold uint32_t TERM_BUFFER_SIZE at *
    omega
  have hpos' : (t.push rec).term_buf_pos = t₀.term_buf_pos + 1 := by
    rw [← hnext, ← hpos]
    rfl
  have hbuf' : (t.push rec).term_buf = Function.update t₀.term_buf t₀.term_buf_pos rec := by
    rw [← hbuf, ← hpos]
    rfl
  constructor
  case row => exact hrow
  case pos => rw [hpos']; exact hroom
  case trail =>
    rw [hpos', hbuf']
    exact h.trail.snoc htyped
  case wraps =>
    rw [hpos', hbuf', wraps_snoc]
    exact hwraps
  case waiting => exact hwait
  case log =>
    refine mem_emit hlog ?_
    show t.term_buf_pos ≤ TERM_BUFFER_SIZE - 1
    rw [hpos]
    exact Nat.le_of_lt hroom

/-- There is room for one more wrap: 127 items have at most 7. -/
theorem few_wraps (h : OnScreen t) :
    Drivers.wraps t.term_buf t.term_buf_pos + 1 < SCREEN_HEIGHT := by
  have hbound := h.trail.wraps_le
  have hpos : t.term_buf_pos ≤ 127 := h.pos
  show _ < 25
  omega

/-- The cursor runs over the right edge: the item wraps. -/
theorem push_wrapped {t₀ : Term} (h : OnScreen t₀) (hroom : t₀.term_buf_pos < TERM_BUFFER_SIZE - 1)
    (ht : t = { t₀ with log := t.log }) (hlog : ∀ e ∈ t.log, e.InRange) (c : BitVec 8)
    (hfar : SCREEN_WIDTH ≤ t₀.next_char_x + 4) :
    OnScreen ({ t with next_char_x := 0 }.lineDown.push
      ⟨c, uint32_t (SCREEN_WIDTH + 0x100000000 - t₀.next_char_x), 1⟩) := by
  obtain ⟨hcol, hbuf, hpos, hwait, hptr⟩ := lineDown_same (t := { t with next_char_x := 0 })
  have hx : t₀.next_char_x < 80 := h.column
  have hrow : t.next_char_y = t₀.next_char_y := by rw [ht]
  refine push h hroom ?_ ?_ ?_ ?_ ?_ ?_ ?_
  · rw [hbuf, ht]
  · rw [hpos, ht]
  · refine lineDown_row ?_
    show t.next_char_y < _
    rw [hrow]
    exact h.row
  · rw [hwait, hptr]
    show t.UserWaitingRead = true → t.UserWaitingBuffer ≠ 0
    rw [ht]
    exact h.waiting
  · exact lineDown_log hlog
  · rw [hcol]
    constructor
    case start => exact h.column
    case within => intro h0; exact absurd h0 Nat.one_ne_zero
    case wrapped =>
      intro _
      refine ⟨rfl, ?_, hfar⟩
      show (80 + 0x100000000 - t₀.next_char_x) % 0x100000000 = 80 - t₀.next_char_x
      omega
  · -- the wrap is one more, and the row one below, or the last one, which is far below the wraps
    -- there are
    rw [if_neg Nat.one_ne_zero]
    refine lineDown_le ?_ ?_ h.few_wraps
    · show t.next_char_y < _
      rw [hrow]
      exact h.row
    · show _ ≤ t.next_char_y
      rw [hrow]
      exact h.wraps

/-- The item stays on the line. -/
theorem push_within {t₀ : Term} (h : OnScreen t₀) (hroom : t₀.term_buf_pos < TERM_BUFFER_SIZE - 1)
    (ht : t = { t₀ with log := t.log }) (hlog : ∀ e ∈ t.log, e.InRange) (c : BitVec 8) {x : Nat}
    (hge : t₀.next_char_x ≤ x) (hwide : x ≤ t₀.next_char_x + 4) (hlt : x < SCREEN_WIDTH) :
    OnScreen ({ t with next_char_x := x }.push
      ⟨c, uint32_t (x + 0x100000000 - t₀.next_char_x), 0⟩) := by
  have hlt' : x < 80 := hlt
  have hoffset : uint32_t (x + 0x100000000 - t₀.next_char_x) = x - t₀.next_char_x := by
    unfold uint32_t
    omega
  have hrow : t.next_char_y = t₀.next_char_y := by rw [ht]
  rw [hoffset]
  refine push h hroom ?_ ?_ ?_ ?_ hlog ?_ ?_
  · show t.term_buf = _
    rw [ht]
  · show t.term_buf_pos = _
    rw [ht]
  · show t.next_char_y < _
    rw [hrow]
    exact h.row
  · show t.UserWaitingRead = true → t.UserWaitingBuffer ≠ 0
    rw [ht]
    exact h.waiting
  · constructor
    case start => exact h.column
    case within =>
      intro _
      refine ⟨?_, hlt, ?_⟩
      · show x = t₀.next_char_x + (x - t₀.next_char_x)
        omega
      · show x - t₀.next_char_x ≤ 4
        omega
    case wrapped => intro h0; exact absurd rfl h0
  · rw [if_pos rfl]
    show _ ≤ t.next_char_y
    rw [hrow]
    exact h.wraps

/-- **A character typed**, unless the buffer is full. -/
theorem typeChar (h : OnScreen t) (c : BitVec 8) : OnScreen (t.typeChar c) := by
  rw [Term.typeChar]
  split
  case isFalse => exact h
  case isTrue hroom =>
    have hx : t.next_char_x < 80 := h.column
    have hlog := mem_emit (e := .showChar t.next_char_x t.next_char_y c) h.log ⟨h.column, h.row⟩
    have hnext : uint32_t ((t.emit (.showChar t.next_char_x t.next_char_y c)).next_char_x + 1) =
        t.next_char_x + 1 := h.next_column
    dsimp only
    rw [hnext]
    split
    -- from the last column the cursor goes to the next line
    case isTrue hedge =>
      refine push_wrapped h hroom rfl hlog c ?_
      rw [← hedge]
      omega
    case isFalse hinside =>
      have hinside : ¬ t.next_char_x + 1 = 80 := hinside
      refine push_within h hroom rfl hlog c (by omega) (by omega) ?_
      show _ < 80
      omega

/-- **A tab typed**, one item of up to 4 columns. -/
theorem tab (h : OnScreen t) : OnScreen t.nolock_tab_handler := by
  rw [Term.nolock_tab_handler]
  split
  case isTrue => exact h
  case isFalse hroom =>
    have hx : t.next_char_x < 80 := h.column
    have hroom : t.term_buf_pos < TERM_BUFFER_SIZE - 1 := by omega
    dsimp only
    rw [h.next_tab]
    split
    case isTrue hedge =>
      have hedge : 80 ≤ t.next_char_x + (4 - t.next_char_x % 4) := hedge
      refine push_wrapped h hroom rfl h.log _ ?_
      show 80 ≤ _
      omega
    case isFalse hinside =>
      exact push_within h hroom rfl h.log _ (by omega) (by omega) (by omega)

/-! ### Backspace -/

/-- Blanks are cells of the cursor's row. -/
theorem showBlanks_log (hlog : ∀ e ∈ t.log, e.InRange) (hy : t.next_char_y < SCREEN_HEIGHT)
    (first : Nat) {last : Nat} (hlast : last < SCREEN_WIDTH) :
    ∃ log, t.showBlanks first last = { t with log } ∧ ∀ e ∈ log, e.InRange := by
  have hcells : ∀ j ∈ (List.range (last + 1 - first)).map (first + ·), j ≤ last := by
    intro j hj
    obtain ⟨k, hk, rfl⟩ := List.mem_map.mp hj
    have hk := List.mem_range.mp hk
    omega
  rw [Term.showBlanks]
  generalize (List.range (last + 1 - first)).map (first + ·) = cells at hcells
  induction cells generalizing t with
  | nil => exact ⟨t.log, rfl, hlog⟩
  | cons j cells ih =>
    have hj := hcells j List.mem_cons_self
    obtain ⟨log, hsame, hrange⟩ := ih (t := t.emit (.showChar j t.next_char_y 0x20))
      (mem_emit hlog ⟨Nat.lt_of_le_of_lt hj hlast, hy⟩) hy fun i hi =>
      hcells i (List.mem_cons_of_mem j hi)
    exact ⟨log, by rw [List.foldl_cons, hsame]; rfl, hrange⟩

/-- The last item is taken back, and the cursor is where the item was typed: the trail ends one
    item earlier. -/
theorem pop {n x y : Nat} {log : List Effect} (h : OnScreen t) (hn : t.term_buf_pos = n + 1)
    (htrail : Trail t.term_buf n x) (hrow : y < SCREEN_HEIGHT)
    (hwraps : Drivers.wraps t.term_buf n ≤ y) (hlog : ∀ e ∈ log, e.InRange) :
    OnScreen { t with
      next_char_x := x
      next_char_y := y
      log := log
      term_buf_pos := uint32_t (t.term_buf_pos + 0xFFFFFFFF) } := by
  have hpos : t.term_buf_pos ≤ 127 := h.pos
  have hback : uint32_t (t.term_buf_pos + 0xFFFFFFFF) = n := by
    rw [hn]
    unfold uint32_t
    omega
  rw [hback]
  constructor
  case row => exact hrow
  case pos =>
    show n ≤ 127
    omega
  case trail => exact htrail
  case wraps => exact hwraps
  case waiting => exact h.waiting
  case log => exact hlog

/-- **Backspace** goes back the way the last item came, as the trail says; a wrap taken back has
    a line above. -/
theorem backspace (h : OnScreen t) : OnScreen t.nolock_backspace_handler := by
  rw [Term.nolock_backspace_handler]
  split
  case isFalse => exact h
  case isTrue hpos =>
    obtain ⟨n, hn⟩ : ∃ n, t.term_buf_pos = n + 1 := ⟨t.term_buf_pos - 1, by omega⟩
    have hlast : t.term_buf_pos - 1 = n := by omega
    have htrail := h.trail
    have hwraps := h.wraps
    rw [hn, wraps_succ] at hwraps
    rw [hn] at htrail
    obtain ⟨x₀, htrail, htyped⟩ := htrail
    have hx₀ : x₀ < 80 := htyped.start
    have hrow : t.next_char_y < 25 := h.row
    rw [hlast]
    dsimp only
    split
    -- the item has begun the line: back to the line above, of which there is one
    case isTrue hy =>
      obtain ⟨-, hoffset, -⟩ := htyped.wrapped hy
      rw [if_neg hy] at hwraps
      have hcol : uint32_t (SCREEN_WIDTH + 0x100000000 - (t.term_buf n).x_offset) = x₀ := by
        rw [hoffset]
        show (80 + 0x100000000 - (80 - x₀)) % 0x100000000 = x₀
        omega
      have hup : uint32_t (t.next_char_y + 0xFFFFFFFF) = t.next_char_y - 1 := by
        unfold uint32_t
        omega
      have hup' : t.next_char_y - 1 < SCREEN_HEIGHT := Nat.lt_of_le_of_lt (Nat.sub_le _ _) hrow
      rw [hcol]
      obtain ⟨log, hsame, hlog⟩ := showBlanks_log (t := { t.emit (.clearLine t.next_char_y) with
        next_char_y := uint32_t (t.next_char_y + 0xFFFFFFFF), next_char_x := x₀ })
        (mem_emit h.log h.row) (hup ▸ hup') x₀ (show SCREEN_WIDTH - 1 < SCREEN_WIDTH by decide)
      have hpop := pop h hn htrail hup' (by omega) hlog
      rw [← hup] at hpop
      exact (congrArg (fun t' : Term => OnScreen { t' with
        term_buf_pos := uint32_t (t'.term_buf_pos + 0xFFFFFFFF) }) hsame).mpr hpop
    -- the item is on this line
    case isFalse hy =>
      have hy := not_not.mp hy
      obtain ⟨hx, -, hwide⟩ := htyped.within hy
      rw [if_pos hy] at hwraps
      have hcol : uint32_t (t.next_char_x + 0x100000000 - (t.term_buf n).x_offset) = x₀ := by
        rw [hx]
        unfold uint32_t
        omega
      rw [hcol]
      obtain ⟨log, hsame, hlog⟩ :=
        showBlanks_log (t := { t with next_char_x := x₀ }) h.log h.row x₀ h.column
      rw [hsame]
      have hpop := pop h hn htrail h.row hwraps hlog
      exact hpop

/-! ### Reading and Enter

  A read takes the line and empties the buffer.  Nothing is left to be erased, so the bound on
  the wraps holds whatever the row is. -/

/-- The end of a read empties the buffer. -/
theorem helpFinishRead (h : OnScreen t) (buffer nbytes : BitVec 32) :
    OnScreen (t.helpFinishRead buffer nbytes).2 := by
  rw [Term.helpFinishRead]
  split
  · exact h
  · exact (h.cleared h.column h.row).emit trivial

/-- A reader of the terminal waits, with its buffer, or is served. -/
theorem readOwned (h : OnScreen t) (pid nbytes : BitVec 32) {buf : BitVec 32} (hbuf : buf ≠ 0) :
    OnScreen (t.readOwned pid buf nbytes).2 := by
  rw [Term.readOwned]
  split
  · exact (h.withReader fun _ => hbuf).emit trivial
  · exact h.helpFinishRead buf nbytes

/-- **`read`**, by whoever has passed the check of its buffer. -/
theorem read (h : OnScreen t) (pid nbytes : BitVec 32) {buf : BitVec 32} (hbuf : buf ≠ 0) :
    OnScreen (t.read pid buf nbytes).2 := by
  have hnew : OnScreen { t with OwnedByPid := pid, UserWaitingRead := false } :=
    h.withReader fun h0 => absurd h0 Bool.false_ne_true
  rw [Term.read]
  split
  · exact hnew.readOwned pid nbytes hbuf
  split
  · exact h
  · exact h.readOwned pid nbytes hbuf

/-- A new owner does not wait. -/
theorem setOwner (h : OnScreen t) (upid : BitVec 32) : OnScreen (t.setOwner upid) :=
  h.withReader fun h0 => absurd h0 Bool.false_ne_true

/-- Enter empties the buffer, whoever waits: the buffer it was promised is not NULL. -/
theorem enter (h : OnScreen t) (raw : Raw) : OnScreen (t.nolock_enter_handler raw) := by
  obtain ⟨hcol, -, hpos, hwait, hptr⟩ := lineDown_same (t := { t with next_char_x := 0 })
  have hrow := lineDown_row (t := { t with next_char_x := 0 }) h.row
  have hlog := lineDown_log (t := { t with next_char_x := 0 }) h.log
  rw [Term.nolock_enter_handler]
  generalize { t with next_char_x := 0 }.lineDown = d at *
  generalize { raw.newLine with displayed_char := 0x0A } = newLine
  have hx : (d.push newLine).next_char_x < SCREEN_WIDTH := by
    show d.next_char_x < SCREEN_WIDTH
    rw [hcol]
    exact Nat.zero_lt_succ 79
  have hwait : (d.push newLine).UserWaitingRead = true →
      (d.push newLine).UserWaitingBuffer ≠ 0 := by
    show d.UserWaitingRead = true → d.UserWaitingBuffer ≠ 0
    rw [hwait, hptr]
    exact h.waiting
  have hlog : ∀ e ∈ (d.push newLine).log, e.InRange := by
    refine mem_emit hlog ?_
    show d.term_buf_pos ≤ TERM_BUFFER_SIZE - 1
    rw [hpos]
    exact h.pos
  have hrow : (d.push newLine).next_char_y < SCREEN_HEIGHT := hrow
  generalize d.push newLine = p at *
  dsimp only
  split
  case isTrue hread =>
    rw [Term.helpFinishRead, if_neg (hwait hread)]
    refine OnScreen.emit (of_empty hx hrow rfl ?_ (mem_emit hlog trivial)) trivial
    intro h0
    exact absurd h0 Bool.false_ne_true
  case isFalse hread => exact of_empty hx hrow rfl hwait hlog

/-! ### Output -/

/-- **A character put out** empties the buffer, so that the row has nothing to keep up with. -/
theorem putc (h : OnScreen t) (c : BitVec 8) : OnScreen (t.nolock_putc c) := by
  have h₀ : OnScreen { t with term_buf_pos := 0 } := h.cleared h.column h.row
  have hx : t.next_char_x < 80 := h.column
  rw [Term.nolock_putc]
  refine OnScreen.moveCursor ?_
  dsimp only
  split
  case isTrue => exact h₀
  split
  case isTrue => exact h₀.lineDown (by decide) rfl
  split
  case isTrue =>
    rw [h.next_tab]
    split
    case isTrue => exact h₀.lineDown (Nat.mod_lt _ (by decide)) rfl
    case isFalse hinside => exact h.cleared (Nat.lt_of_not_le hinside) h.row
  case isFalse =>
    have hshown := h₀.emit (e := .showChar t.next_char_x t.next_char_y c) ⟨h.column, h.row⟩
    have hnext := h.next_column
    split
    case isTrue => exact hshown.lineDown (by decide) rfl
    case isFalse hinside =>
      have hinside : ¬ uint32_t (t.next_char_x + 1) = 80 := hinside
      refine hshown.cleared ?_ h.row
      show uint32_t (t.next_char_x + 1) < 80
      omega

/-- **`write`**, character by character. -/
theorem writeLoop (h : OnScreen t) (cbuf : Nat → BitVec 8) (rounds i : Nat) :
    OnScreen (Term.writeLoop cbuf rounds i t).2 := by
  induction rounds generalizing i t with
  | zero => exact h
  | succ rounds ih =>
    rw [Term.writeLoop]
    split
    · exact h
    · exact ih (h.putc (cbuf i)) (i + 1)

/-- **Clearing the screen.** -/
theorem cls (h : OnScreen t) : OnScreen t.nolock_cls := by
  have hclear : OnScreen { t with next_char_x := 0, next_char_y := 0, term_buf_pos := 0 } :=
    h.cleared (by decide) (by decide)
  exact (hclear.emit (e := .clearScreen) trivial).moveCursor

/-! ### Keys -/

/-- **A key**, by the handler it goes to. -/
theorem key (h : OnScreen t) (raw : Raw) (kkc : BitVec 32) (capslock : Bool) :
    OnScreen (t.key raw kkc capslock) := by
  rw [Term.key]
  refine OnScreen.moveCursor ?_
  split
  case isFalse => exact h.typeChar _
  split
  case isTrue =>
    split
    · have hclear : OnScreen { t with next_char_x := 0, next_char_y := 0, term_buf_pos := 0 } :=
        h.cleared (by decide) (by decide)
      exact hclear.emit (e := .clearScreen) trivial
    · exact h
  split
  · exact h.backspace
  split
  · exact h.tab
  split
  · exact h.enter raw
  · exact h

end OnScreen

/-! ## Runs -/

/-- What happens to a terminal. -/
inductive Event where
  | key (raw : Raw) (kkc : BitVec 32) (capslock : Bool)
  | putc (c : BitVec 8)
  | write (cbuf : Nat → BitVec 8) (nbytes : BitVec 32)
  | cls
  /-- The system call `read` on `/dev/keyb`, by a process of this terminal. -/
  | read (isKernel : Bool) (mem : AddressSpace) (pid buf nbytes : BitVec 32)
  | setOwner (upid : BitVec 32)

def Term.event (t : Term) : Event → Term
  | .key raw kkc capslock => t.key raw kkc capslock
  | .putc c => t.nolock_putc c
  | .write cbuf nbytes => (t.write cbuf nbytes).2
  | .cls => t.nolock_cls
  | .read isKernel mem pid buf nbytes =>
    if validUserPointer isKernel mem buf then (t.read pid buf nbytes).2 else t
  | .setOwner upid => t.setOwner upid

/-- The check of a system call refuses NULL. -/
theorem ne_zero_of_validUserPointer {isKernel : Bool} {mem : AddressSpace} {buf : BitVec 32}
    (h : validUserPointer isKernel mem buf = true) : buf ≠ 0 := by
  rintro rfl
  rw [validUserPointer, if_pos rfl] at h
  exact absurd h Bool.false_ne_true

/-- **One event.** -/
theorem OnScreen.event {t : Term} (h : OnScreen t) (e : Event) : OnScreen (t.event e) := by
  cases e with
  | key raw kkc capslock => exact h.key raw kkc capslock
  | putc c => exact h.putc c
  | write cbuf nbytes => exact h.writeLoop cbuf _ 0
  | cls => exact h.cls
  | read isKernel mem pid buf nbytes =>
    rw [Term.event]
    split
    case isTrue hvalid => exact h.read pid nbytes (ne_zero_of_validUserPointer hvalid)
    case isFalse => exact h
  | setOwner upid => exact h.setOwner upid

/-- A terminal, from its construction on. -/
def terminal : Machine Term Event := Machine.ofFn Term.new Term.event

/-- **Every reachable state** is on the screen. -/
theorem onScreen_of_reach {t : Term} (hr : Reach terminal (fun _ _ => True) t) : OnScreen t :=
  Reach.ofFn_invariant OnScreen.new (fun _ e h _ => h.event e) hr

/-- **The screen and the buffer are never left.**  In every reachable state the cursor is on the
    screen, the buffer has room for the end of the line, no more items than lines above have
    wrapped, and all that was ever asked of the painter, or stored in the buffer, was in range. -/
theorem terminal_onScreen (t : Term) (hr : Reach terminal (fun _ _ => True) t) :
    t.next_char_x < SCREEN_WIDTH ∧ t.next_char_y < SCREEN_HEIGHT ∧ t.term_buf_pos ≤ 127 ∧
    wraps t.term_buf t.term_buf_pos ≤ t.next_char_y ∧
    (0 < t.term_buf_pos → (t.term_buf (t.term_buf_pos - 1)).y_offset ≠ 0 → 0 < t.next_char_y) ∧
    ∀ e ∈ t.log, e.InRange := by
  have h := onScreen_of_reach hr
  refine ⟨h.column, h.row, h.pos, h.wraps, fun hpos hlast => ?_, h.log⟩
  have hwraps := h.wraps
  obtain ⟨n, hn⟩ : ∃ n, t.term_buf_pos = n + 1 := ⟨t.term_buf_pos - 1, by omega⟩
  rw [hn, Nat.add_sub_cancel] at hlast
  rw [hn, wraps_succ, if_neg hlast] at hwraps
  omega

/-- A letter, a tab and a backspace. -/
theorem terminal_onScreen_typed :
    (((Term.new.event (.key ⟨⟨0, 0, 0⟩, fun _ => 0⟩ 0x61 false)).event
      (.key ⟨⟨0, 0, 0⟩, fun _ => 0⟩ KKC_TAB false)).event
      (.key ⟨⟨0, 0, 0⟩, fun _ => 0⟩ KKC_BACKSPACE false)).next_char_x < SCREEN_WIDTH :=
  (terminal_onScreen _ ((((Reach.init rfl).step trivial rfl).step trivial rfl).step trivial rfl)).1

end TedkOS.Drivers
