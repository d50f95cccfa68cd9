/-
  Backspace takes back the last item.

  1. **A console** — a terminal and its screen: what the terminal asks of its painter is done to the
     cells, and a program that has called `vidmap` may store to them whatever it likes.

  2. **Behind the cursor** — what a terminal itself does leaves the cells from its cursor on blank,
     whichever way the cursor moves (`Clean`): characters are shown where the cursor was, a new line
     is below everything or scrolled in, and backspace blanks what it goes back over.

  3. **Undoing** — an item as it is typed (`Typing`), and as it is erased (`erase_within`,
     `erase_wrapped`); the two agree about the column at which the item stops, also at the right
     edge and on the bottom line.  There an item that wraps scrolls the screen, and the line it was
     typed on is one higher when it is erased.

  4. **Correctness** — `backspace_undoes_iff`: erasing an item that stays on its line blanks one
     cell more, the one the cursor is on.  That is blank anyway, unless a program has drawn there.

  A terminal does not look at the cells, so what it asks for depends on its own state alone; it is
  the log that is followed, and the cells are computed from it (`Shows`).
-/
import TedkOS.Drivers.TerminalLine
import TedkOS.Drivers.TextCells

namespace TedkOS.Drivers

open Runs

/-! ## A console

  The terminal is the one of the other modules, with its log.  A `Console` adds what is on the
  screen; it is computed from the log, and a program that draws changes it behind the terminal's
  back. -/

/-- A terminal, and the screen its painter keeps for it. -/
structure Console where
  term : Term
  screen : Screen

namespace Console

def grid (c : Console) : Grid := c.screen.cells.grid

/-- The terminal becomes `term`, and the painter does what it has been asked for meanwhile. -/
def become (term : Term) (c : Console) : Option Console :=
  (c.screen.performAll (term.log.drop c.term.log.length)).map fun screen => ⟨term, screen⟩

inductive Event where
  | term (e : Drivers.Event)
  /-- A program stores to the screen through `vidmap`. -/
  | stores (cells : Cells)

def step (c : Console) : Event → Option Console
  | .term e => c.become (c.term.event e)
  | .stores cells => some { c with screen := { c.screen with cells } }

/-- `TextTerm()`: its painter clears the screen. -/
def Constructed (c : Console) : Prop :=
  c.term = Term.new ∧ ∃ raw, Screen.perform .clearScreen ⟨raw, 0, 0⟩ = some c.screen

end Console

/-- A terminal, from its construction on. -/
def console : Machine Console Console.Event where
  init := Console.Constructed
  step c e c' := c.step e = some c'

/-! ## Behind the cursor

  `Clean log g log' n` says of the calls a log has grown by that the screen they lead to is blank
  from cell `n` on, if `g` is blank where it has to be.  The lemmas below follow the log, one for
  each thing a terminal asks for, and never look at the terminal's other fields. -/

/-- All cells from the `n`th on are blank. -/
def Grid.BlankFrom (n : Nat) (g : Grid) : Prop :=
  ∀ x y, x < SCREEN_WIDTH → y < SCREEN_HEIGHT → n ≤ SCREEN_WIDTH * y + x → g x y = blank

/-- The cell the next character goes to. -/
def Term.cursor (t : Term) : Nat := SCREEN_WIDTH * t.next_char_y + t.next_char_x

/-- A program leaves alone what is at the cursor and behind it. -/
def Console.Considerate (c : Console) : Console.Event → Prop
  | .stores cells => cells.grid.BlankFrom c.term.cursor
  | .term _ => True

def Effect.isScrollDown : Effect → Bool
  | .scrollDown => true
  | _ => false

/-- From `log₀` to `log` the painter was asked to make `g'` of `g`, and to scroll so many times. -/
def Shows (log₀ : List Effect) (g : Grid) (log : List Effect) (scrolls : Nat) (g' : Grid) : Prop :=
  ∃ es, log = log₀ ++ es ∧ es.countP Effect.isScrollDown = scrolls ∧ paintAll es g = g'

/-- From `log₀` to `log` the painter was asked to make something of `g` that is blank from the `n`th
    cell on. -/
def Clean (log₀ : List Effect) (g : Grid) (log : List Effect) (n : Nat) : Prop :=
  ∃ scrolls g', Shows log₀ g log scrolls g' ∧ g'.BlankFrom n

section Shows

variable {log₀ log : List Effect} {g g' : Grid} {e : Effect} {t : Term} {rec : term_buf_item}
    {scrolls n m : Nat}

/-- Nothing has been asked for. -/
theorem Shows.refl : Shows log g log 0 g := ⟨[], (List.append_nil log).symm, rfl, rfl⟩

/-- One thing more has been asked for. -/
theorem Shows.emit (h : Shows log₀ g log scrolls g') :
    Shows log₀ g (log ++ [e]) (scrolls + [e].countP Effect.isScrollDown) (e.paint g') := by
  obtain ⟨es, hlog, hcount, hpaint⟩ := h
  refine ⟨es ++ [e], ?_, ?_, ?_⟩
  · rw [hlog, List.append_assoc]
  · rw [List.countP_append, hcount]
  · rw [paintAll_append, hpaint]
    rfl

/-- The line below, or the one that has been scrolled in. -/
theorem Shows.lineDown (h : Shows log₀ g t.log scrolls g') :
    (t.next_char_y < SCREEN_HEIGHT - 1 ∧ t.lineDown.next_char_y = t.next_char_y + 1 ∧
      Shows log₀ g t.lineDown.log scrolls g') ∨
    (SCREEN_HEIGHT - 1 ≤ t.next_char_y ∧ t.lineDown.next_char_y = t.next_char_y ∧
      Shows log₀ g t.lineDown.log (scrolls + 1) (Effect.scrollDown.paint g')) := by
  rw [Term.lineDown]
  split
  case isTrue hroom =>
    refine Or.inl ⟨hroom, ?_, h⟩
    show uint32_t (t.next_char_y + 1) = _
    unfold uint32_t SCREEN_HEIGHT at *
    omega
  case isFalse hlast => exact Or.inr ⟨Nat.le_of_not_lt hlast, rfl, h.emit⟩

/-- Blanks in some columns of a line. -/
def blanks (y : Nat) (columns : List Nat) : List Effect := columns.map fun j => .showChar j y 0x20

/-- `showBlanks` asks for blanks in its columns. -/
theorem log_showBlanks (first last : Nat) : (t.showBlanks first last).log =
    t.log ++ blanks t.next_char_y ((List.range (last + 1 - first)).map (first + ·)) := by
  rw [Term.showBlanks]
  generalize (List.range (last + 1 - first)).map (first + ·) = columns
  induction columns generalizing t with
  | nil => exact (List.append_nil _).symm
  | cons j columns ih =>
    rw [List.foldl_cons, ih]
    exact List.append_assoc _ [_] _

/-- Blanks are painted where they were asked for, and nowhere else. -/
theorem paint_blanks (y₀ : Nat) (columns : List Nat) (g : Grid) : paintAll (blanks y₀ columns) g =
    fun x y => if y = y₀ ∧ x ∈ columns then blank else g x y := by
  induction columns generalizing g with
  | nil =>
    funext x y
    exact (if_neg fun h => List.not_mem_nil h.2).symm
  | cons j columns ih =>
    funext x y
    refine (congrFun (congrFun (ih _) x) y).trans ?_
    show (if y = y₀ ∧ x ∈ columns then blank else if x = j ∧ y = y₀ then blank else g x y) = _
    by_cases hrest : y = y₀ ∧ x ∈ columns
    · rw [if_pos hrest, if_pos ⟨hrest.1, List.mem_cons_of_mem j hrest.2⟩]
    · rw [if_neg hrest]
      refine if_congr ?_ rfl rfl
      rw [List.mem_cons]
      tauto

/-- They scroll nothing. -/
theorem count_blanks (y₀ : Nat) (columns : List Nat) :
    (blanks y₀ columns).countP Effect.isScrollDown = 0 := by
  rw [List.countP_eq_zero]
  intro e he
  obtain ⟨j, -, rfl⟩ := List.mem_map.mp he
  exact Bool.false_ne_true

/-- Blanks are shown from column `first` to column `last`. -/
theorem Shows.showBlanks (h : Shows log₀ g t.log scrolls g') (first last : Nat) :
    Shows log₀ g (t.showBlanks first last).log scrolls fun x y =>
      if y = t.next_char_y ∧ first ≤ x ∧ x ≤ last then blank else g' x y := by
  obtain ⟨es, hlog, hcount, hpaint⟩ := h
  refine ⟨_, by rw [log_showBlanks, hlog, List.append_assoc], ?_, ?_⟩
  · rw [List.countP_append, count_blanks, hcount, Nat.add_zero]
  · rw [paintAll_append, hpaint, paint_blanks]
    funext x y
    refine if_congr (and_congr_right fun _ => ?_) rfl rfl
    rw [List.mem_map]
    constructor
    · rintro ⟨k, hk, rfl⟩
      have hk := List.mem_range.mp hk
      omega
    · intro hx
      exact ⟨x - first, List.mem_range.mpr (by omega), by omega⟩

/-! ### What a terminal leaves blank

  One lemma for each function of the terminal, from the single calls up to `clean_event`.  A
  character is drawn in the cell that the cursor leaves; a new line begins below all that is
  drawn; and what backspace goes back over, it blanks. -/

/-- A screen that is blank there. -/
theorem Clean.refl (h : g.BlankFrom n) : Clean log g log n := ⟨0, g, Shows.refl, h⟩

/-- A screen is blank from any later cell on, too. -/
theorem Clean.mono (h : Clean log₀ g log n) (hle : n ≤ m) : Clean log₀ g log m := by
  obtain ⟨scrolls, g', hshows, hblank⟩ := h
  exact ⟨scrolls, g', hshows, fun x y hx hy hm => hblank x y hx hy (Nat.le_trans hle hm)⟩

/-- Something is asked for that is not done to the cells. -/
theorem Clean.emit (h : Clean log₀ g log n) (he : ∀ g, e.paint g = g) :
    Clean log₀ g (log ++ [e]) n := by
  obtain ⟨scrolls, g', hshows, hblank⟩ := h
  have hnext := hshows.emit (e := e)
  rw [he] at hnext
  exact ⟨_, g', hnext, hblank⟩

/-- A character at the cursor. -/
theorem Clean.showChar (h : Clean log₀ g log t.cursor) (c : BitVec 8) :
    Clean log₀ g (log ++ [.showChar t.next_char_x t.next_char_y c]) (t.cursor + 1) := by
  obtain ⟨scrolls, g', hshows, hblank⟩ := h
  refine ⟨_, _, hshows.emit, fun x y hx' hy' hn => ?_⟩
  unfold Term.cursor at hn hblank
  refine (if_neg ?_).trans (hblank x y hx' hy' (by omega))
  rintro ⟨rfl, rfl⟩
  omega

/-- A cleared screen. -/
theorem Clean.clearScreen (h : Clean log₀ g log n) : Clean log₀ g (log ++ [.clearScreen]) 0 := by
  obtain ⟨scrolls, g', hshows, -⟩ := h
  exact ⟨_, _, hshows.emit, fun x y _ _ _ => rfl⟩

/-- A line down, to any column. -/
theorem Clean.lineDown (h : Clean log₀ g t.log n) (hn : n ≤ SCREEN_WIDTH * (t.next_char_y + 1))
    (hy : t.next_char_y < SCREEN_HEIGHT) :
    Clean log₀ g t.lineDown.log (SCREEN_WIDTH * t.lineDown.next_char_y) := by
  obtain ⟨scrolls, g', hshows, hblank⟩ := h
  rcases hshows.lineDown with ⟨-, hrow, hshows⟩ | ⟨hlast, hrow, hshows⟩
  · refine ⟨_, _, hshows, fun x y hx' hy' hm => hblank x y hx' hy' ?_⟩
    rw [hrow] at hm
    omega
  · refine ⟨_, _, hshows, fun x y hx' hy' hm => if_pos ?_⟩
    rw [hrow] at hm
    unfold SCREEN_HEIGHT SCREEN_WIDTH at *
    omega

/-- The cursor is put at column `x` of the line below. -/
theorem Clean.lineDownAt (h : Clean log₀ g t.log n) (hn : n ≤ SCREEN_WIDTH * (t.next_char_y + 1))
    (hy : t.next_char_y < SCREEN_HEIGHT) (x : Nat) :
    Clean log₀ g { t with next_char_x := x }.lineDown.log
      { t with next_char_x := x }.lineDown.cursor :=
  (Clean.lineDown (t := { t with next_char_x := x }) h hn hy).mono (Nat.le_add_right _ _)

/-- An item is put into the buffer. -/
theorem Clean.push (h : Clean log₀ g t.log t.cursor) (rec : term_buf_item) :
    Clean log₀ g (t.push rec).log (t.push rec).cursor :=
  h.emit fun _ => rfl

/-- The cursor is set. -/
theorem Clean.moveCursor (h : Clean log₀ g t.log t.cursor) :
    Clean log₀ g t.moveCursor.log t.moveCursor.cursor := h.emit fun _ => rfl

/-- The cursor is not beyond its line. -/
theorem cursor_lt_line (h : OnScreen t) : t.cursor ≤ SCREEN_WIDTH * (t.next_char_y + 1) := by
  have hx : t.next_char_x < SCREEN_WIDTH := h.column
  unfold Term.cursor SCREEN_WIDTH at *
  omega

/-- A character is shown, and the cursor moves on. -/
theorem Clean.advance (h : OnScreen t) (hc : Clean log₀ g t.log t.cursor) (c : BitVec 8) :
    let t' := t.emit (.showChar t.next_char_x t.next_char_y c)
    (uint32_t (t.next_char_x + 1) = SCREEN_WIDTH →
      Clean log₀ g { t' with next_char_x := 0 }.lineDown.log
        { t' with next_char_x := 0 }.lineDown.cursor) ∧
    (uint32_t (t.next_char_x + 1) ≠ SCREEN_WIDTH →
      Clean log₀ g t'.log { t' with next_char_x := uint32_t (t.next_char_x + 1) }.cursor) := by
  have hx : t.next_char_x < 80 := h.column
  have hshown :
      Clean log₀ g (t.emit (.showChar t.next_char_x t.next_char_y c)).log (t.cursor + 1) :=
    hc.showChar c
  refine ⟨fun _ => ?_, fun _ => ?_⟩
  · refine hshown.lineDownAt ?_ h.row 0
    show t.cursor + 1 ≤ SCREEN_WIDTH * (t.next_char_y + 1)
    unfold Term.cursor SCREEN_WIDTH
    omega
  · rw [h.next_column]
    exact hshown

/-- A character typed. -/
theorem clean_typeChar (h : OnScreen t) (hc : Clean log₀ g t.log t.cursor) (c : BitVec 8) :
    Clean log₀ g (t.typeChar c).log (t.typeChar c).cursor := by
  obtain ⟨hwraps, hstays⟩ := hc.advance h c
  rw [Term.typeChar]
  split
  case isFalse => exact hc
  case isTrue =>
    dsimp only
    split
    case isTrue hedge => exact (hwraps hedge).push _
    case isFalse hinside => exact Clean.push (hstays hinside) _

/-- A tab typed: the cells it passes were blank. -/
theorem clean_tab (h : OnScreen t) (hc : Clean log₀ g t.log t.cursor) :
    Clean log₀ g t.nolock_tab_handler.log t.nolock_tab_handler.cursor := by
  rw [Term.nolock_tab_handler]
  split
  case isTrue => exact hc
  case isFalse =>
    dsimp only
    rw [h.next_tab]
    split
    case isTrue => exact (hc.lineDownAt (cursor_lt_line h) h.row 0).push _
    case isFalse =>
      refine Clean.push ?_ _
      exact hc.mono (Nat.add_le_add_left (Nat.le_add_right _ _) _)

/-- A new line. -/
theorem clean_enter (h : OnScreen t) (hc : Clean log₀ g t.log t.cursor) (raw : Raw) :
    Clean log₀ g (t.nolock_enter_handler raw).log (t.nolock_enter_handler raw).cursor := by
  have hline :=
    (hc.lineDownAt (cursor_lt_line h) h.row 0).push { raw.newLine with displayed_char := 0x0A }
  rw [Term.nolock_enter_handler]
  generalize { t with next_char_x := 0 }.lineDown.push { raw.newLine with displayed_char := 0x0A } =
    p at hline ⊢
  dsimp only
  split
  case isTrue =>
    rw [Term.helpFinishRead]
    split
    · exact hline.emit fun _ => rfl
    · exact (hline.emit fun _ => rfl).emit fun _ => rfl
  case isFalse => exact hline

/-- A character put out. -/
theorem clean_putc (h : OnScreen t) (hc : Clean log₀ g t.log t.cursor) (c : BitVec 8) :
    Clean log₀ g (t.nolock_putc c).log (t.nolock_putc c).cursor := by
  have h₀ : OnScreen { t with term_buf_pos := 0 } := h.cleared h.column h.row
  have hc₀ : Clean log₀ g { t with term_buf_pos := 0 : Term }.log
      { t with term_buf_pos := 0 : Term }.cursor := hc
  obtain ⟨hwraps, hstays⟩ := hc₀.advance h₀ c
  rw [Term.nolock_putc]
  refine Clean.moveCursor ?_
  dsimp only
  split
  case isTrue => exact hc
  split
  case isTrue => exact hc₀.lineDownAt (cursor_lt_line h₀) h₀.row 0
  split
  case isTrue =>
    split
    case isTrue => exact hc₀.lineDownAt (cursor_lt_line h₀) h₀.row _
    case isFalse =>
      refine hc.mono ?_
      have hx : t.next_char_x < 80 := h.column
      unfold Term.cursor
      show SCREEN_WIDTH * t.next_char_y + t.next_char_x ≤ SCREEN_WIDTH * t.next_char_y + uint32_t _
      unfold uint32_t
      omega
  case isFalse =>
    split
    case isTrue hedge => exact hwraps hedge
    case isFalse hinside => exact hstays hinside

/-- From `t` to `t'` the items from the `n`th on have been given up, and the cursor has gone to a
    column of a line. -/
structure Back (t t' : Term) (n x y : Nat) : Prop where
  pos : t'.term_buf_pos = n
  buf : t'.term_buf = t.term_buf
  column : t'.next_char_x = x
  row : t'.next_char_y = y

/-- The cells are blanked, and the item is given up. -/
def Term.blankOut (first last : Nat) (t : Term) : Term :=
  { t.showBlanks first last with
    term_buf_pos := uint32_t ((t.showBlanks first last).term_buf_pos + 0xFFFFFFFF) }

/-- What that does: the item before is the last one, and the cells are blank. -/
theorem blankOut_spec {u : Term} (hpos : u.term_buf_pos = n + 1) (hle : u.term_buf_pos ≤ 127)
    (hbuf : u.term_buf = t.term_buf) (hs : Shows log₀ g u.log scrolls g') (first last : Nat) :
    Back t (u.blankOut first last) n u.next_char_x u.next_char_y ∧
    Shows log₀ g (u.blankOut first last).log scrolls fun x y =>
      if y = u.next_char_y ∧ first ≤ x ∧ x ≤ last then blank else g' x y := by
  have hblanks := hs.showBlanks first last
  have hback : uint32_t (u.term_buf_pos + 0xFFFFFFFF) = n := by
    unfold uint32_t
    omega
  obtain ⟨log', hsame⟩ := showBlanks_same (t := u) first last
  rw [hsame] at hblanks
  rw [Term.blankOut, hsame]
  dsimp only at hblanks ⊢
  rw [hback]
  exact ⟨⟨rfl, hbuf, rfl, rfl⟩, hblanks⟩

/-- An item that had wrapped: its line is cleared from where it began, and so is the line below. -/
theorem erase_wrapped (h : OnScreen t) (hn : t.term_buf_pos = n + 1)
    (hy : (t.term_buf n).y_offset ≠ 0) {x₀ : Nat} (hx₀ : x₀ < SCREEN_WIDTH)
    (hx : (t.term_buf n).x_offset = SCREEN_WIDTH - x₀) (hs : Shows log₀ g t.log scrolls g') :
    Back t t.nolock_backspace_handler n x₀ (t.next_char_y - 1) ∧
    Shows log₀ g t.nolock_backspace_handler.log scrolls fun x y =>
      if y = t.next_char_y - 1 ∧ x₀ ≤ x ∧ x ≤ SCREEN_WIDTH - 1 then blank
      else if y = t.next_char_y then blank else g' x y := by
  have hcol : uint32_t (SCREEN_WIDTH + 0x100000000 - (t.term_buf n).x_offset) = x₀ := by
    rw [hx]
    unfold uint32_t SCREEN_WIDTH at *
    omega
  -- there is a line above for each item that has wrapped
  have hup : uint32_t (t.next_char_y + 0xFFFFFFFF) = t.next_char_y - 1 := by
    have hwraps := h.wraps
    have hrow : t.next_char_y < 25 := h.row
    rw [hn, wraps_succ, if_neg hy] at hwraps
    unfold uint32_t
    omega
  have heq : t.nolock_backspace_handler =
      Term.blankOut x₀ (SCREEN_WIDTH - 1) { t.emit (.clearLine t.next_char_y) with
        next_char_y := t.next_char_y - 1
        next_char_x := x₀ } := by
    rw [Term.nolock_backspace_handler, if_pos (show t.term_buf_pos > 0 by omega)]
    dsimp only
    rw [hn, Nat.add_sub_cancel, if_pos hy, hcol]
    show Term.blankOut x₀ (SCREEN_WIDTH - 1) { t.emit (.clearLine t.next_char_y) with
      next_char_y := uint32_t (t.next_char_y + 0xFFFFFFFF), next_char_x := x₀ } = _
    rw [hup]
  rw [heq]
  exact blankOut_spec (t := t) (u := { t.emit (.clearLine t.next_char_y) with
    next_char_y := t.next_char_y - 1, next_char_x := x₀ }) hn h.pos rfl hs.emit x₀
      (SCREEN_WIDTH - 1)

/-- An item that had not: its line is cleared from where it began up to the cursor, and the cell
    under the cursor with it. -/
theorem erase_within (h : OnScreen t) (hn : t.term_buf_pos = n + 1)
    (hy : (t.term_buf n).y_offset = 0) {x₀ : Nat}
    (hx : t.next_char_x = x₀ + (t.term_buf n).x_offset) (hs : Shows log₀ g t.log scrolls g') :
    Back t t.nolock_backspace_handler n x₀ t.next_char_y ∧
    Shows log₀ g t.nolock_backspace_handler.log scrolls fun x y =>
      if y = t.next_char_y ∧ x₀ ≤ x ∧ x ≤ t.next_char_x then blank else g' x y := by
  have hcol : uint32_t (t.next_char_x + 0x100000000 - (t.term_buf n).x_offset) = x₀ := by
    have hlt : t.next_char_x < 80 := h.column
    unfold uint32_t
    omega
  have heq : t.nolock_backspace_handler =
      { t with next_char_x := x₀ }.blankOut x₀ t.next_char_x := by
    rw [Term.nolock_backspace_handler, if_pos (show t.term_buf_pos > 0 by omega)]
    dsimp only
    rw [hn, Nat.add_sub_cancel, if_neg (not_not.mpr hy), hcol]
    rfl
  rw [heq]
  exact blankOut_spec (t := t) (u := { t with next_char_x := x₀ }) hn h.pos rfl hs x₀ t.next_char_x

/-- Backspace: the cursor goes back, and what is between is blanked, in both cases. -/
theorem clean_backspace (h : OnScreen t) (hc : Clean log₀ g t.log t.cursor) :
    Clean log₀ g t.nolock_backspace_handler.log t.nolock_backspace_handler.cursor := by
  obtain ⟨scrolls, g', hshows, hblank⟩ := hc
  rcases Nat.eq_zero_or_pos t.term_buf_pos with hzero | hpos
  · rw [Term.nolock_backspace_handler, if_neg (by omega)]
    exact ⟨scrolls, g', hshows, hblank⟩
  obtain ⟨n, hn⟩ : ∃ n, t.term_buf_pos = n + 1 := ⟨t.term_buf_pos - 1, by omega⟩
  have htrail := h.trail
  rw [hn] at htrail
  obtain ⟨x₀, -, htyped⟩ := htrail
  by_cases hy : (t.term_buf n).y_offset = 0
  · -- the item is on this line: from where it began to the cursor all is blanked
    obtain ⟨hback, hshows'⟩ := erase_within h hn hy (htyped.within hy).1 hshows
    refine ⟨_, _, hshows', fun x y hx' hy' hm => ?_⟩
    rw [Term.cursor, hback.column, hback.row] at hm
    have hcol := h.column
    by_cases hin : y = t.next_char_y ∧ x₀ ≤ x ∧ x ≤ t.next_char_x
    · exact if_pos hin
    · refine (if_neg hin).trans (hblank x y hx' hy' ?_)
      unfold Term.cursor SCREEN_WIDTH at *
      omega
  · -- it began on the line above, whose end is blanked, as this line is
    obtain ⟨hcol, hoffset, -⟩ := htyped.wrapped hy
    obtain ⟨hback, hshows'⟩ := erase_wrapped h hn hy htyped.start hoffset hshows
    refine ⟨_, _, hshows', fun x y hx' hy' hm => ?_⟩
    rw [Term.cursor, hback.column, hback.row] at hm
    have hx₀ := htyped.start
    by_cases hin : y = t.next_char_y - 1 ∧ x₀ ≤ x ∧ x ≤ SCREEN_WIDTH - 1
    · exact if_pos hin
    refine (if_neg hin).trans ?_
    by_cases hline : y = t.next_char_y
    · exact if_pos hline
    · refine (if_neg hline).trans (hblank x y hx' hy' ?_)
      unfold Term.cursor SCREEN_WIDTH at *
      omega

/-- A key, by the handler it goes to. -/
theorem clean_key (h : OnScreen t) (hc : Clean log₀ g t.log t.cursor) (raw : Raw) (kkc : BitVec 32)
    (capslock : Bool) :
    Clean log₀ g (t.key raw kkc capslock).log (t.key raw kkc capslock).cursor := by
  rw [Term.key]
  refine Clean.moveCursor ?_
  split
  case isFalse => exact clean_typeChar h hc _
  split
  case isTrue =>
    split
    · exact hc.clearScreen
    · exact hc
  split
  · exact clean_backspace h hc
  split
  · exact clean_tab h hc
  split
  · exact clean_enter h hc raw
  · exact hc

/-- `write`, character by character. -/
theorem clean_writeLoop (h : OnScreen t) (hc : Clean log₀ g t.log t.cursor) (cbuf : Nat → BitVec 8)
    (rounds i : Nat) :
    Clean log₀ g (Term.writeLoop cbuf rounds i t).2.log
      (Term.writeLoop cbuf rounds i t).2.cursor := by
  induction rounds generalizing i t with
  | zero => exact hc
  | succ rounds ih =>
    rw [Term.writeLoop]
    split
    · exact hc
    · exact ih (h.putc (cbuf i)) (clean_putc h hc (cbuf i)) (i + 1)

/-- A read draws nothing. -/
theorem clean_read (hc : Clean log₀ g t.log t.cursor) (pid buf nbytes : BitVec 32) :
    Clean log₀ g (t.read pid buf nbytes).2.log (t.read pid buf nbytes).2.cursor := by
  have howned : ∀ u : Term, Clean log₀ g u.log u.cursor →
      Clean log₀ g (u.readOwned pid buf nbytes).2.log (u.readOwned pid buf nbytes).2.cursor := by
    intro u hu
    rw [Term.readOwned]
    split
    · exact hu.emit fun _ => rfl
    · rw [Term.helpFinishRead]
      split
      · exact hu
      · exact hu.emit fun _ => rfl
  rw [Term.read]
  split
  · exact howned _ hc
  split
  · exact hc
  · exact howned t hc

/-- **One event** of a terminal leaves the cells from its cursor on blank. -/
theorem clean_event (h : OnScreen t) (hc : Clean log₀ g t.log t.cursor) (e : Event) :
    Clean log₀ g (t.event e).log (t.event e).cursor := by
  cases e with
  | key raw kkc capslock => exact clean_key h hc raw kkc capslock
  | putc c => exact clean_putc h hc c
  | write cbuf nbytes => exact clean_writeLoop h hc cbuf _ 0
  | cls => exact Clean.moveCursor hc.clearScreen
  | read isKernel mem pid buf nbytes =>
    rw [Term.event]
    split
    · exact clean_read hc pid buf nbytes
    · exact hc
  | setOwner upid => exact hc

end Shows

/-! ### Consoles -/

namespace Console

variable {c c' : Console} {es : List Effect}

/-- What the terminal has asked for since is done to the screen. -/
theorem become_spec {t : Term} (h : OnScreen t) (hlog : t.log = c.term.log ++ es) :
    ∃ c', c.become t = some c' ∧ c'.term = t ∧ c'.grid.Same (paintAll es c.grid) := by
  have hes : t.log.drop c.term.log.length = es := by rw [hlog, List.drop_left]
  obtain ⟨v, hv, hsame⟩ := Screen.performAll_paints es c.screen fun e he =>
    h.log e (by rw [hlog]; exact List.mem_append_right _ he)
  refine ⟨⟨t, v⟩, ?_, rfl, hsame⟩
  rw [become, hes, hv]
  rfl

/-- The terminal is the one it has become. -/
theorem term_of_become {t : Term} (h : c.become t = some c') : c'.term = t := by
  obtain ⟨v, -, rfl⟩ := Option.map_eq_some_iff.mp h
  rfl

/-- In every state the terminal is on its screen. -/
theorem onScreen {ok : Console → Console.Event → Prop} (hr : Reach console ok c) :
    OnScreen c.term := by
  refine hr.invariant (I := fun c => OnScreen c.term) ?_ ?_
  · intro c hc
    rw [hc.1]
    exact OnScreen.new
  · intro c e c' h _ hs
    cases e with
    | term e =>
      rw [term_of_become hs]
      exact h.event e
    | stores cells =>
      cases hs
      exact h

/-- A terminal that has left its cells blank has left the screen blank, as the screen is what it
    asked for. -/
theorem clean_blankFrom {n : Nat} {t : Term} {g : Grid} (hlog : t.log = c.term.log ++ es)
    (hclean : Clean c.term.log c.grid t.log n) (hsame : g.Same (paintAll es c.grid)) :
    g.BlankFrom n := by
  obtain ⟨scrolls, g', ⟨es', hlog', -, rfl⟩, hblank⟩ := hclean
  obtain rfl : es = es' := List.append_cancel_left (hlog.symm.trans hlog')
  exact fun x y hx hy hn => (hsame x y hx hy).trans (hblank x y hx hy hn)

/-- **While no program draws behind the cursor** all is blank there. -/
theorem blankFrom (hr : Reach console Considerate c) : c.grid.BlankFrom c.term.cursor := by
  have hinv : OnScreen c.term ∧ c.grid.BlankFrom c.term.cursor := by
    refine hr.invariant (I := fun c => OnScreen c.term ∧ c.grid.BlankFrom c.term.cursor) ?_ ?_
    · rintro c ⟨hterm, raw, hraw⟩
      have hcleared := Screen.perform_paints (e := .clearScreen) trivial hraw
      rw [hterm]
      exact ⟨OnScreen.new, fun x y hx hy _ => hcleared x y hx hy⟩
    · intro c e c' ⟨h, hblank⟩ hok hs
      cases e with
      | stores cells =>
        cases hs
        exact ⟨h, hok⟩
      | term e =>
        have hclean := clean_event h (Clean.refl hblank) e
        obtain ⟨-, -, ⟨es, hlog, -, -⟩, -⟩ := hclean
        obtain ⟨c₁, hc₁, hterm, hsame⟩ := become_spec (h.event e) hlog
        obtain rfl : c₁ = c' := Option.some.inj (hc₁.symm.trans hs)
        rw [hterm]
        exact ⟨h.event e, clean_blankFrom hlog (clean_event h (Clean.refl hblank) e) hsame⟩
  exact hinv.2

end Console

/-! ## Undoing

  An item is what one key types: a character or a tab.  It is typed by moving the cursor and
  remembering the movement, and erased by the movement that is remembered.  `Undoes` says that
  the second takes back the first, up to the scrolling that an item over the end of the last line
  has caused. -/

/-- What can be typed. -/
inductive Item where
  | char (c : BitVec 8) (shift : Bool)
  | tab

def Item.kkc : Item → BitVec 32
  | char c shift => charKey c shift
  | tab => KKC_TAB

/-- The column at which an item typed at column `x` stops. -/
def Item.stop (x : Nat) : Item → Nat
  | char _ _ => x + 1
  | tab => x + (4 - x % TAB_WIDTH)

/-- An item has been typed, from the cursor of `t` up to column `stop`: the painter was asked to
    make `g₁` of `g`, and to scroll by `up` lines. -/
structure Typing (t t₁ : Term) (stop : Nat) (g g₁ : Grid) (up : Nat) : Prop where
  pos : t₁.term_buf_pos = t.term_buf_pos + 1
  /-- The items typed before are still there. -/
  before : ∀ i < t.term_buf_pos, t₁.term_buf i = t.term_buf i
  /-- The item knows how far back it began. -/
  width : (t₁.term_buf t.term_buf_pos).x_offset = stop - t.next_char_x
  within : stop < SCREEN_WIDTH → (t₁.term_buf t.term_buf_pos).y_offset = 0 ∧ t₁.next_char_x = stop ∧
    t₁.next_char_y = t.next_char_y ∧ up = 0
  /-- At the right edge the cursor goes to the next line, which may have been scrolled in. -/
  wrapped : stop = SCREEN_WIDTH → (t₁.term_buf t.term_buf_pos).y_offset ≠ 0 ∧ t₁.next_char_x = 0 ∧
    (t₁.next_char_y = t.next_char_y + 1 ∧ up = 0 ∨
      t₁.next_char_y = t.next_char_y ∧ t.next_char_y = SCREEN_HEIGHT - 1 ∧ up = 1)
  shows : Shows t.log g t₁.log up g₁
  /-- All other cells are as before, a line higher if the screen has been scrolled. -/
  cells : ∀ x y, y + up < SCREEN_HEIGHT →
    ¬ (y + up = t.next_char_y ∧ t.next_char_x ≤ x ∧ x < stop) → g₁ x y = g x (y + up)

section Items

variable {t t₁ : Term} {log : List Effect} {g g₁ : Grid} {stop up : Nat}

/-- Setting the cursor afterwards changes nothing of that. -/
theorem Typing.moveCursor (h : Typing t t₁ stop g g₁ up) : Typing t t₁.moveCursor stop g g₁ up :=
  { h with shows := h.shows.emit }

/-- When the item is given up the items before it are there. -/
theorem Typing.kept {t₂ : Term} {n x y : Nat} (h : Typing t t₁ stop g g₁ up)
    (hback : Back t₁ t₂ n x y) :
    ∀ i < t.term_buf_pos, t₂.term_buf i = t.term_buf i := by
  intro i hi
  rw [hback.buf]
  exact h.before i hi

/-- Another item is in the buffer. -/
theorem push_spec {u : Term} (hpos : u.term_buf_pos = t.term_buf_pos)
    (hbuf : u.term_buf = t.term_buf) (hle : t.term_buf_pos ≤ 127) (rec : term_buf_item) :
    (u.push rec).term_buf_pos = t.term_buf_pos + 1 ∧
    (∀ i < t.term_buf_pos, (u.push rec).term_buf i = t.term_buf i) ∧
    (u.push rec).term_buf t.term_buf_pos = rec := by
  have hbuf' : (u.push rec).term_buf = Function.update t.term_buf t.term_buf_pos rec := by
    rw [← hpos, ← hbuf]
    rfl
  refine ⟨?_, fun i hi => ?_, ?_⟩
  · show uint32_t (u.term_buf_pos + 1) = _
    unfold uint32_t
    omega
  · rw [hbuf']
    exact update_below hi
  · rw [hbuf']
    exact Function.update_self _ _ _

/-- The item stays on its line. -/
theorem typing_within (h : OnScreen t) (hs : Shows t.log g log 0 g₁)
    (hcells : ∀ x y, ¬ (y = t.next_char_y ∧ t.next_char_x ≤ x ∧ x < stop) → g₁ x y = g x y)
    (hlt : t.next_char_x < stop) (hstop : stop < SCREEN_WIDTH) (c : BitVec 8) :
    Typing t ({ t with next_char_x := stop, log := log }.push
      ⟨c, uint32_t (stop + 0x100000000 - t.next_char_x), 0⟩) stop g g₁ 0 := by
  have hoffset : uint32_t (stop + 0x100000000 - t.next_char_x) = stop - t.next_char_x := by
    unfold uint32_t SCREEN_WIDTH at *
    omega
  rw [hoffset]
  obtain ⟨hpos, hbelow, hitem⟩ :=
    push_spec (t := t) (u := { t with next_char_x := stop, log := log }) rfl rfl h.pos
      ⟨c, stop - t.next_char_x, 0⟩
  constructor
  case pos => exact hpos
  case before => exact hbelow
  case width => rw [hitem]
  case within =>
    intro _
    rw [hitem]
    exact ⟨rfl, rfl, rfl, rfl⟩
  case wrapped => exact fun hedge => absurd hedge (Nat.ne_of_lt hstop)
  case shows => exact hs.emit
  case cells => exact fun x y _ hout => hcells x y hout

/-- The item goes up to the right edge, and the cursor to the line below or to one that is scrolled
    in. -/
theorem typing_wrapped (h : OnScreen t) (hs : Shows t.log g log 0 g₁)
    (hcells : ∀ x y, ¬ (y = t.next_char_y ∧ t.next_char_x ≤ x ∧ x < SCREEN_WIDTH) → g₁ x y = g x y)
    (c : BitVec 8) : ∃ g₂ up, Typing t ({ t with next_char_x := 0, log := log }.lineDown.push
      ⟨c, uint32_t (SCREEN_WIDTH + 0x100000000 - t.next_char_x), 1⟩) SCREEN_WIDTH g g₂ up := by
  have hx : t.next_char_x < SCREEN_WIDTH := h.column
  have hoffset :
      uint32_t (SCREEN_WIDTH + 0x100000000 - t.next_char_x) = SCREEN_WIDTH - t.next_char_x := by
    unfold uint32_t SCREEN_WIDTH at *
    omega
  rw [hoffset]
  obtain ⟨hcol, hbuf, hpos, -, -⟩ :=
    OnScreen.lineDown_same (t := { t with next_char_x := 0, log := log })
  obtain ⟨hpos', hbelow, hitem⟩ :=
    push_spec (t := t) hpos hbuf h.pos ⟨c, SCREEN_WIDTH - t.next_char_x, 1⟩
  -- whether or not the screen is scrolled, the item is the same
  have hbuild : ∀ {g₂ : Grid} {up : Nat},
      ({ t with next_char_x := 0, log := log }.lineDown.next_char_y = t.next_char_y + 1 ∧ up = 0 ∨
        { t with next_char_x := 0, log := log }.lineDown.next_char_y = t.next_char_y ∧
          t.next_char_y = SCREEN_HEIGHT - 1 ∧ up = 1) →
      Shows t.log g { t with next_char_x := 0, log := log }.lineDown.log up g₂ →
      (∀ x y, y + up < SCREEN_HEIGHT →
        ¬ (y + up = t.next_char_y ∧ t.next_char_x ≤ x ∧ x < SCREEN_WIDTH) → g₂ x y = g x (y + up)) →
      Typing t ({ t with next_char_x := 0, log := log }.lineDown.push
        ⟨c, SCREEN_WIDTH - t.next_char_x, 1⟩)
        SCREEN_WIDTH g g₂ up := by
    intro g₂ up hrow hshows hcells'
    constructor
    case pos => exact hpos'
    case before => exact hbelow
    case width => rw [hitem]
    case within => exact fun hc => absurd hc (Nat.lt_irrefl _)
    case wrapped =>
      intro _
      rw [hitem]
      exact ⟨Nat.one_ne_zero, hcol, hrow⟩
    case shows => exact hshows.emit
    case cells => exact hcells'
  rcases Shows.lineDown (t := { t with next_char_x := 0, log := log }) hs with
    ⟨-, hdown, hshows⟩ | ⟨hlast, hdown, hshows⟩
  · exact ⟨g₁, 0, hbuild (Or.inl ⟨hdown, rfl⟩) hshows fun x y _ hout => hcells x y hout⟩
  · have hbottom : t.next_char_y = SCREEN_HEIGHT - 1 :=
      Nat.le_antisymm (Nat.le_pred_of_lt h.row) hlast
    refine ⟨_, 1, hbuild (Or.inr ⟨hdown, hbottom, rfl⟩) hshows fun x y hy hout => ?_⟩
    refine (if_neg ?_).trans (hcells x (y + 1) hout)
    unfold SCREEN_HEIGHT at *
    omega

/-- A character is typed. -/
theorem typing_char (h : OnScreen t) (hroom : t.term_buf_pos < 127) (c : BitVec 8) (g : Grid) :
    ∃ g₁ up, Typing t (t.typeChar c) (t.next_char_x + 1) g g₁ up := by
  have hx : t.next_char_x < 80 := h.column
  have hnext : uint32_t ((t.emit (.showChar t.next_char_x t.next_char_y c)).next_char_x + 1) =
      t.next_char_x + 1 := h.next_column
  have hlt : t.next_char_x < t.next_char_x + 1 := Nat.lt_succ_self _
  have hshown : Shows t.log g (t.log ++ [.showChar t.next_char_x t.next_char_y c]) 0
      (Effect.paint (.showChar t.next_char_x t.next_char_y c) g) := Shows.refl.emit
  have hcells : ∀ {stop : Nat}, t.next_char_x < stop → ∀ x y,
      ¬ (y = t.next_char_y ∧ t.next_char_x ≤ x ∧ x < stop) →
      (Effect.paint (.showChar t.next_char_x t.next_char_y c) g) x y = g x y := by
    intro stop hlt x y hout
    refine if_neg ?_
    rintro ⟨rfl, rfl⟩
    exact hout ⟨rfl, Nat.le_refl _, hlt⟩
  rw [Term.typeChar, if_pos (show t.term_buf_pos < TERM_BUFFER_SIZE - 1 from hroom)]
  dsimp only
  rw [hnext]
  split
  case isTrue hedge =>
    rw [hedge]
    exact typing_wrapped h hshown (hcells h.column) c
  case isFalse hinside =>
    refine ⟨_, 0, typing_within h hshown (hcells hlt) hlt ?_ c⟩
    unfold SCREEN_WIDTH at *
    omega

/-- A tab is typed, which draws nothing. -/
theorem typing_tab (h : OnScreen t) (hroom : t.term_buf_pos < 127) (g : Grid) :
    ∃ g₁ up, Typing t t.nolock_tab_handler (t.next_char_x + (4 - t.next_char_x % 4)) g g₁ up := by
  have hx : t.next_char_x < 80 := h.column
  have hcells : ∀ {stop : Nat} x y, ¬ (y = t.next_char_y ∧ t.next_char_x ≤ x ∧ x < stop) →
      g x y = g x y :=
    fun _ _ _ => rfl
  rw [Term.nolock_tab_handler,
    if_neg (show ¬ t.term_buf_pos ≥ TERM_BUFFER_SIZE - 1 from Nat.not_le_of_lt hroom)]
  dsimp only
  rw [h.next_tab]
  by_cases hedge : t.next_char_x + (4 - t.next_char_x % 4) ≥ SCREEN_WIDTH
  · -- a multiple of four that is not below 80 and at most four above a column
    have hstop : t.next_char_x + (4 - t.next_char_x % 4) = SCREEN_WIDTH := by
      unfold SCREEN_WIDTH at *
      omega
    rw [if_pos hedge, hstop]
    exact typing_wrapped h Shows.refl hcells 0x09
  · rw [if_neg hedge]
    refine ⟨g, 0, typing_within h Shows.refl hcells ?_ (Nat.lt_of_not_le hedge) 0x09⟩
    omega

end Items

namespace Console

/-- A key is pressed. -/
def key (raw : Raw) (kkc : BitVec 32) (capslock : Bool) (c : Console) : Option Console :=
  c.step (.term (.key raw kkc capslock))

section Undone

variable (c c₁ c₂ : Console)

/-- By how many lines the screen has been scrolled from `c` to `c₁`. -/
def scrolled : Nat := (c₁.term.log.drop c.term.log.length).countP Effect.isScrollDown

/-- The column at which the item typed from `c` to `c₁` stops. -/
def stop : Nat := if c₁.term.next_char_x = 0 then SCREEN_WIDTH else c₁.term.next_char_x

/-- The cells of `c₂` that the item typed from `c` to `c₁` has occupied. -/
def Occupied (x y : Nat) : Prop := y = c₂.term.next_char_y ∧ c.term.next_char_x ≤ x ∧ x < c₁.stop

/-- The item typed from `c` to `c₁` is undone in `c₂`: everything is as it was in `c`, but that the
    screen may have been scrolled and the line the cursor wrapped to been cleared. -/
structure Undone : Prop where
  pos : c₂.term.term_buf_pos = c.term.term_buf_pos
  items : ∀ i < c.term.term_buf_pos, c₂.term.term_buf i = c.term.term_buf i
  column : c₂.term.next_char_x = c.term.next_char_x
  row : c₂.term.next_char_y + c.scrolled c₁ = c.term.next_char_y
  erased : ∀ x y, x < SCREEN_WIDTH → y < SCREEN_HEIGHT → c.Occupied c₁ c₂ x y → c₂.grid x y = blank
  wrappedTo : c₁.term.next_char_x = 0 → ∀ x, x < SCREEN_WIDTH →
    c₂.grid x c₁.term.next_char_y = blank
  others : ∀ x y, x < SCREEN_WIDTH → y < SCREEN_HEIGHT → ¬ c.Occupied c₁ c₂ x y →
    ¬ (c₁.term.next_char_x = 0 ∧ y = c₁.term.next_char_y) →
    c₂.grid x y = c.grid x (y + c.scrolled c₁)

end Undone

/-- The item, and then backspace: the item is undone. -/
def Undoes (c : Console) (item : Item) (raw raw' : Raw) (capslock capslock' : Bool) : Prop :=
  ∃ c₁ c₂, c.key raw item.kkc capslock = some c₁ ∧ c₁.key raw' KKC_BACKSPACE capslock' = some c₂ ∧
    c.Undone c₁ c₂

/-- The item wraps, or nothing is drawn where the cursor comes to stand. -/
def Clear (c : Console) (item : Item) : Prop :=
  item.stop c.term.next_char_x = SCREEN_WIDTH ∨
    c.grid (item.stop c.term.next_char_x) c.term.next_char_y = blank

/-! ## Correctness

  Two ways of erasing: an item that has stayed on its line (`undone_within`) and one that has
  gone over the right edge (`undone_wrapped`).  Only the first blanks the cell that the cursor
  was on as well, so only there it matters what is in it (`Clear`). -/

section Correctness

variable {c c₁ c₂ : Console} {item : Item} {g₁ : Grid} {up : Nat}

/-- **The item is typed.** -/
theorem key_item (h : OnScreen c.term) (hroom : c.term.term_buf_pos < 127) (item : Item) (raw : Raw)
    (capslock : Bool) : ∃ c₁ g₁ up, c.key raw item.kkc capslock = some c₁ ∧ OnScreen c₁.term ∧
      Typing c.term c₁.term (item.stop c.term.next_char_x) c.grid g₁ up ∧ c₁.grid.Same g₁ ∧
      c.scrolled c₁ = up := by
  have htyping :
    ∃ g₁ up, Typing c.term (c.term.key raw item.kkc capslock) (item.stop c.term.next_char_x) c.grid
      g₁ up := by
    cases item with
    | char ch shift =>
      obtain ⟨g₁, up, htyping⟩ :=
        typing_char h hroom (Term.typedChar raw (charKey ch shift) capslock) c.grid
      refine ⟨g₁, up, ?_⟩
      rw [Item.kkc, key_char]
      exact htyping.moveCursor
    | tab =>
      obtain ⟨g₁, up, htyping⟩ := typing_tab h hroom c.grid
      refine ⟨g₁, up, ?_⟩
      rw [Item.kkc, key_tab]
      exact htyping.moveCursor
  obtain ⟨g₁, up, htyping⟩ := htyping
  obtain ⟨es, hlog, hcount, hpaint⟩ := htyping.shows
  have hscreen := h.key raw item.kkc capslock
  obtain ⟨c₁, hc₁, hterm, hsame⟩ := become_spec hscreen hlog
  rw [hpaint] at hsame
  rw [← hterm] at hscreen htyping hlog
  refine ⟨c₁, g₁, up, hc₁, hscreen, htyping, hsame, ?_⟩
  rw [scrolled, hlog, List.drop_left, hcount]

/-- **The item is erased.** -/
theorem key_backspace_item (h : OnScreen c₁.term) {n x y : Nat} {g₂ : Grid}
    (hback : Back c₁.term c₁.term.nolock_backspace_handler n x y)
    (hshows : Shows c₁.term.log c₁.grid c₁.term.nolock_backspace_handler.log 0 g₂) (raw : Raw)
    (capslock : Bool) :
    ∃ c₂, c₁.key raw KKC_BACKSPACE capslock = some c₂ ∧ Back c₁.term c₂.term n x y ∧
    c₂.grid.Same g₂ := by
  have hscreen := h.key raw KKC_BACKSPACE capslock
  have hkey : c₁.term.key raw KKC_BACKSPACE capslock =
      c₁.term.nolock_backspace_handler.moveCursor :=
    key_backspace capslock
  obtain ⟨es, hlog, -, hpaint⟩ :
      Shows c₁.term.log c₁.grid (c₁.term.key raw KKC_BACKSPACE capslock).log 0 g₂ := by
    rw [hkey]
    exact hshows.emit
  obtain ⟨c₂, hc₂, hterm, hsame⟩ := become_spec hscreen hlog
  rw [hpaint] at hsame
  refine ⟨c₂, hc₂, ?_, hsame⟩
  rw [hterm, hkey]
  exact ⟨hback.pos, hback.buf, hback.column, hback.row⟩

/-- An item that stays on its line is undone if nothing is drawn where it stops. -/
theorem undone_within (h₁ : OnScreen c₁.term) {stop : Nat} (hlt : c.term.next_char_x < stop)
    (hstop : stop < SCREEN_WIDTH) (hy : c.term.next_char_y < SCREEN_HEIGHT)
    (htyping : Typing c.term c₁.term stop c.grid g₁ up) (hsame : c₁.grid.Same g₁)
    (hup : c.scrolled c₁ = up) (raw : Raw) (capslock : Bool) :
    ∃ c₂, c₁.key raw KKC_BACKSPACE capslock = some c₂ ∧
      (c.Undone c₁ c₂ ↔ c.grid stop c.term.next_char_y = blank) := by
  obtain ⟨hoffset, hcol, hrow, rfl⟩ := htyping.within hstop
  have hx : c₁.term.next_char_x = c.term.next_char_x +
      (c₁.term.term_buf c.term.term_buf_pos).x_offset := by
    rw [hcol, htyping.width]
    omega
  obtain ⟨hback, hshows⟩ := erase_within h₁ htyping.pos hoffset hx Shows.refl
  obtain ⟨c₂, hc₂, hback, hsame₂⟩ := key_backspace_item h₁ hback hshows raw capslock
  have hne : c₁.term.next_char_x ≠ 0 := by omega
  have hstop₁ : c₁.stop = stop := (if_neg hne).trans hcol
  refine ⟨c₂, hc₂, ⟨fun hundone => ?_, fun hblank => ?_⟩⟩
  · -- backspace has blanked the cell at `stop`, so it was blank if it is as before
    have hout : ¬ c.Occupied c₁ c₂ stop c.term.next_char_y := by
      rintro ⟨-, -, hlt'⟩
      rw [hstop₁] at hlt'
      exact absurd hlt' (Nat.lt_irrefl _)
    have hkept := hundone.others stop c.term.next_char_y hstop hy hout fun hc => hne hc.1
    rw [hup, Nat.add_zero] at hkept
    refine hkept.symm.trans ((hsame₂ stop c.term.next_char_y hstop hy).trans (if_pos ?_))
    exact ⟨hrow.symm, Nat.le_of_lt hlt, Nat.le_of_eq hcol.symm⟩
  · constructor
    case pos => exact hback.pos
    case items => exact htyping.kept hback
    case column => exact hback.column
    case row => rw [hback.row, hup, hrow, Nat.add_zero]
    case erased =>
      rintro x y hx hy ⟨hline, hfrom, hto⟩
      rw [hstop₁] at hto
      rw [hback.row] at hline
      exact (hsame₂ x y hx hy).trans (if_pos ⟨hline, hfrom, by omega⟩)
    case wrappedTo => exact fun hc => absurd hc hne
    case others =>
      intro x y hx hy hout _
      refine (hsame₂ x y hx hy).trans ?_
      rw [Occupied, hstop₁, hback.row] at hout
      rw [hup, Nat.add_zero]
      by_cases hin : y = c₁.term.next_char_y ∧ c.term.next_char_x ≤ x ∧ x ≤ c₁.term.next_char_x
      · -- the one cell more
        obtain rfl : x = stop := by omega
        obtain rfl : y = c.term.next_char_y := hin.1.trans hrow
        exact (if_pos hin).trans hblank.symm
      · exact (if_neg hin).trans ((hsame x y hx hy).trans (htyping.cells x y hy (by omega)))

/-- An item that wraps is undone. -/
theorem undone_wrapped (h₁ : OnScreen c₁.term) (hlt : c.term.next_char_x < SCREEN_WIDTH)
    (htyping : Typing c.term c₁.term SCREEN_WIDTH c.grid g₁ up) (hsame : c₁.grid.Same g₁)
    (hup : c.scrolled c₁ = up) (raw : Raw) (capslock : Bool) :
    ∃ c₂, c₁.key raw KKC_BACKSPACE capslock = some c₂ ∧ c.Undone c₁ c₂ := by
  obtain ⟨hoffset, hcol, hrow⟩ := htyping.wrapped rfl
  obtain ⟨hback, hshows⟩ := erase_wrapped h₁ htyping.pos hoffset hlt htyping.width Shows.refl
  obtain ⟨c₂, hc₂, hback, hsame₂⟩ := key_backspace_item h₁ hback hshows raw capslock
  have hstop₁ : c₁.stop = SCREEN_WIDTH := if_pos hcol
  have hline₁ := h₁.row
  -- the line the item was typed on is above the cursor; it has moved up if the screen has
  -- scrolled
  have hrow₂ : c₁.term.next_char_y - 1 + up = c.term.next_char_y := by
    unfold SCREEN_HEIGHT at hrow
    omega
  refine ⟨c₂, hc₂, ?_⟩
  constructor
  case pos => exact hback.pos
  case items => exact htyping.kept hback
  case column => exact hback.column
  case row => rw [hback.row, hup, hrow₂]
  case erased =>
    rintro x y hx hy ⟨hline, hfrom, -⟩
    rw [hback.row] at hline
    exact (hsame₂ x y hx hy).trans (if_pos ⟨hline, hfrom, Nat.le_pred_of_lt hx⟩)
  case wrappedTo =>
    intro _ x hx
    refine (hsame₂ x c₁.term.next_char_y hx hline₁).trans ?_
    dsimp only
    split
    · rfl
    · exact if_pos rfl
  case others =>
    intro x y hx hy hout hline
    have hline : y ≠ c₁.term.next_char_y := fun hc => hline ⟨hcol, hc⟩
    -- outside both lines nothing is blanked, and typing had only moved the cells up
    rw [Occupied, hstop₁, hback.row] at hout
    have hin : ¬ (y = c₁.term.next_char_y - 1 ∧ c.term.next_char_x ≤ x ∧ x ≤ SCREEN_WIDTH - 1) := by
      omega
    rw [hup]
    refine (hsame₂ x y hx hy).trans
      ((if_neg hin).trans ((if_neg hline).trans ((hsame x y hx hy).trans ?_)))
    refine htyping.cells x y ?_ ?_
    · unfold SCREEN_HEIGHT at *
      omega
    · omega

/-- An item stops behind where it starts, and on its line. -/
theorem stop_le {x : Nat} (hx : x < SCREEN_WIDTH) (item : Item) :
    x < item.stop x ∧ item.stop x ≤ SCREEN_WIDTH := by
  unfold SCREEN_WIDTH at *
  cases item with
  | char ch shift => exact ⟨Nat.lt_succ_self x, hx⟩
  | tab =>
    show x < x + (4 - x % 4) ∧ x + (4 - x % 4) ≤ 80
    omega

/-- Backspace after an item undoes it if and only if nothing is drawn where the cursor has come to
    stand. -/
theorem undoes_iff (h : OnScreen c.term) (hroom : c.term.term_buf_pos < 127) (item : Item)
    (raw raw' : Raw) (capslock capslock' : Bool) : c.Undoes item raw raw' capslock capslock' ↔
    c.Clear item := by
  obtain ⟨c₁, g₁, up, hc₁, h₁, htyping, hsame, hup⟩ := key_item h hroom item raw capslock
  have hx : c.term.next_char_x < SCREEN_WIDTH := h.column
  obtain ⟨hlt, hle⟩ := stop_le hx item
  rcases Nat.lt_or_eq_of_le hle with hwithin | hedge
  · obtain ⟨c₂, hc₂, hiff⟩ := undone_within h₁ hlt hwithin h.row htyping hsame hup raw' capslock'
    constructor
    · rintro ⟨c₁', c₂', hc₁', hc₂', hundone⟩
      obtain rfl : c₁ = c₁' := Option.some.inj (hc₁.symm.trans hc₁')
      obtain rfl : c₂ = c₂' := Option.some.inj (hc₂.symm.trans hc₂')
      exact Or.inr (hiff.mp hundone)
    · rintro (hedge | hblank)
      · exact absurd hedge (Nat.ne_of_lt hwithin)
      · exact ⟨c₁, c₂, hc₁, hc₂, hiff.mpr hblank⟩
  · rw [hedge] at htyping
    obtain ⟨c₂, hc₂, hundone⟩ := undone_wrapped h₁ hx htyping hsame hup raw' capslock'
    exact ⟨fun _ => Or.inl hedge, fun _ => ⟨c₁, c₂, hc₁, hc₂, hundone⟩⟩

/-- Where the cells behind the cursor are blank, nothing is drawn where it comes to stand. -/
theorem clear_of_blankFrom (h : OnScreen c.term) (hblank : c.grid.BlankFrom c.term.cursor)
    (item : Item) :
    c.Clear item := by
  obtain ⟨hlt, hle⟩ := stop_le h.column item
  rcases Nat.lt_or_eq_of_le hle with hwithin | hedge
  · exact Or.inr (hblank _ _ hwithin h.row (Nat.add_le_add_left (Nat.le_of_lt hlt) _))
  · exact Or.inl hedge

end Correctness

/-- **Backspace undoes the last item** in every state in which the item wraps or nothing is drawn
    where it stops, and in no other; that is in every state as long as no program draws behind the
    cursor. -/
theorem backspace_undoes_iff (c : Console) (hr : Reach console (fun _ _ => True) c)
    (hroom : c.term.term_buf_pos < 127) (item : Item) (raw raw' : Raw) (capslock capslock' : Bool) :
    (c.Undoes item raw raw' capslock capslock' ↔ c.Clear item) ∧
    (Reach console Considerate c → c.Undoes item raw raw' capslock capslock') := by
  have h := onScreen hr
  have hiff := undoes_iff h hroom item raw raw' capslock capslock'
  exact ⟨hiff, fun hr' => hiff.mpr (clear_of_blankFrom h (blankFrom hr') item)⟩

theorem constructed_exists : ∃ c, Constructed c := by
  obtain ⟨v, hv⟩ := Screen.perform_some ⟨fun _ => 0, 0, 0⟩ (e := .clearScreen) trivial
  exact ⟨⟨Term.new, v⟩, rfl, _, hv⟩

/-- The first letter, on a screen that nobody has drawn on. -/
theorem backspace_undoes_iff_first :
    ∃ c, Reach console Considerate c ∧
      c.Undoes (.char 0x61 false) ⟨⟨0, 0, 0⟩, fun _ => 0⟩ ⟨⟨0, 0, 0⟩, fun _ => 0⟩ false false := by
  obtain ⟨c, hc⟩ := constructed_exists
  have hr : Reach console Considerate c := .init hc
  have hroom : c.term.term_buf_pos < 127 := by
    rw [hc.1]
    decide
  exact ⟨c, hr,
    (backspace_undoes_iff c (hr.mono fun _ _ _ => trivial) hroom (.char 0x61 false) _ _ false
    false).2 hr⟩

/-- A program fills the screen, and the letter that is taken back takes its neighbour with it. -/
theorem backspace_erases_drawing : ¬ ∀ (c : Console), Reach console (fun _ _ => True) c →
    c.term.term_buf_pos < 127 → ∀ (item : Item) (raw raw' : Raw) (capslock capslock' : Bool),
      c.Undoes item raw raw' capslock capslock' := by
  intro hall
  obtain ⟨c, hc⟩ := constructed_exists
  have hr : Reach console (fun _ _ => True)
      { c with screen := { c.screen with cells := fun _ => 0x58 } } :=
    (Reach.init hc).step (a := .stores fun _ => 0x58) trivial rfl
  have hroom : c.term.term_buf_pos < 127 := by
    rw [hc.1]
    decide
  have hundoes :=
    hall _ hr hroom (.char 0x61 false) ⟨⟨0, 0, 0⟩, fun _ => 0⟩ ⟨⟨0, 0, 0⟩, fun _ => 0⟩ false false
  rcases (undoes_iff (onScreen hr) hroom _ _ _ _ _).mp hundoes with hedge | hblank
  · rw [hc.1] at hedge
    exact absurd hedge (by decide)
  · have hdrawn : Cells.grid (fun _ => 0x58) 1 0 ≠ blank := by decide
    rw [hc.1] at hblank
    exact hdrawn hblank

end Console

end TedkOS.Drivers
