/-
  The text terminals do not interfere.

  1. **A screen** — what a terminal is for: cells and a cursor, with its operations
     (`Screen.perform`).  A painter's screen is in the text memory or in its buffer, and every
     method does to the one or the other what the operation does to the screen (`perform_screen`).

  2. **Switching** — `show` and `hide` move a screen and leave it as it is; at most one is in the
     text memory, so what is done to the text memory concerns no other.  `Shown` is the invariant of
     that: the painter that believes to be loaded is the current terminal's, and the cursor of the
     display is its cursor.  The flag `isLoadedInVmem` of each painter is a variable of its own, and
     `currClient` is another; the screens of two loaded painters would be one.

  3. **Runs** — the two conditions of isolation hold of every terminal (`unwinding`), whatever the
     others do and whenever the display is switched: an event that is not a call of the terminal
     leaves its screen as it is, and a call does the same to its screen in any two states in which
     the screens are equal.
-/
import TedkOS.Lib.Isolation
import TedkOS.Drivers.TerminalInv
import TedkOS.Drivers.TextMode

namespace TedkOS.Drivers

open Runs Isolation

/-! ## A screen

  The text memory of a painter that is shown, or its buffer when it is not: both hold 80 times 25
  cells, and `screen` is what they hold.  Each method is followed through both cases
  (`draw_shown`, `draw_hidden` and the like) to one statement about the screen, and a `Frame`
  says what else it leaves alone. -/

namespace Cells

variable {src m : Cells} {n : Nat}

/-- A byte of the screen is loaded as it is. -/
theorem load_val (src : Cells) (i : Fin SCREEN_BYTES) : src.load i.val = src i := dif_pos i.isLt

/-- One dword more. -/
theorem movsd_succ : movsd (n + 1) src m = copyDword src (4 * n) (4 * n) (movsd n src m) := by
  rw [movsd, List.range_succ, List.foldl_append, List.foldl_cons, List.foldl_nil, movsd]

/-- The bytes of the first `n` dwords are the source's. -/
theorem movsd_apply (i : Fin SCREEN_BYTES) (hi : i.val < 4 * n) : movsd n src m i = src i := by
  induction n with
  | zero => omega
  | succ n ih =>
    rw [movsd_succ]
    -- the byte is of the last dword, or of one before
    by_cases hlast : 4 * n ≤ i.val
    · rw [copyDword, if_pos ⟨hlast, by omega⟩, ← load_val src i]
      congr 1
      omega
    · rw [copyDword, if_neg (fun h => hlast h.1)]
      exact ih (by omega)

/-- A screen is copied whole. -/
theorem movsd_all : movsd (SCREEN_HEIGHT * SCREEN_WIDTH * 2 / 4) src m = src := by
  funext i
  exact movsd_apply i i.isLt

end Cells

/-- A terminal's screen and cursor. -/
structure Screen where
  cells : Cells
  cursorX : Nat
  cursorY : Nat

namespace Screen

def draw (f : Cells → Option Cells) (v : Screen) : Option Screen :=
  (f v.cells).map fun m => { v with cells := m }

/-- The operations of a terminal that has the screen to itself. -/
def perform : Effect → Screen → Option Screen
  | .showChar x y c, v => v.draw (Cells.showChar x y c)
  | .clearLine y, v => v.draw (Cells.clearLine y)
  | .scrollDown, v => v.draw Cells.scrollDown
  | .clearScreen, v => (v.draw Cells.clear).map fun v => { v with cursorX := 0, cursorY := 0 }
  | .setCursor x y, v => some { v with cursorX := x, cursorY := y }
  | _, v => some v

variable {e : Effect} {v v' : Screen} {f : Cells → Option Cells}

/-- The cursor is on the screen. -/
def CursorInRange (v : Screen) : Prop := v.cursorX < SCREEN_WIDTH ∧ v.cursorY < SCREEN_HEIGHT

/-- The cell of a place on the screen is in the text memory: no offset wraps, and none is behind
    the end. -/
theorem showChar_some {x y : Nat} {c : BitVec 8} (m : Cells) (hx : x < SCREEN_WIDTH)
    (hy : y < SCREEN_HEIGHT) :
    ∃ m', m.showChar x y c = some m' := by
  have hx : x < 80 := hx
  have hy : y < 25 := hy
  have hoff : uint32_t (uint32_t (SCREEN_WIDTH * y + x) * 2) + 1 < SCREEN_BYTES := by
    show (80 * y + x) % 0x100000000 * 2 % 0x100000000 + 1 < 4000
    have hcell : (80 * y + x) % 0x100000000 = 80 * y + x := Nat.mod_eq_of_lt (by omega)
    rw [hcell, Nat.mod_eq_of_lt (by omega)]
    omega
  exact ⟨_, if_pos hoff⟩

/-- So is every line of the screen. -/
theorem clearLine_some {y : Nat} (m : Cells) (hy : y < SCREEN_HEIGHT) :
    ∃ m', m.clearLine y = some m' := by
  have hy : y < 25 := hy
  have hoff : uint32_t (y * SCREEN_WIDTH * 2) + 2 * SCREEN_WIDTH ≤ SCREEN_BYTES := by
    show y * 80 * 2 % 0x100000000 + 2 * 80 ≤ 4000
    rw [Nat.mod_eq_of_lt (by omega)]
    omega
  exact ⟨_, if_pos hoff⟩

/-- A call that names cells of the screen stores to cells of the screen. -/
theorem perform_some (v : Screen) (he : e.InRange) : ∃ v', v.perform e = some v' := by
  cases e with
  | showChar x y c =>
    obtain ⟨m, hm⟩ := showChar_some (c := c) v.cells he.1 he.2
    exact ⟨_, Option.map_eq_some_iff.mpr ⟨m, hm, rfl⟩⟩
  | clearLine y =>
    obtain ⟨m, hm⟩ := clearLine_some v.cells he
    exact ⟨_, Option.map_eq_some_iff.mpr ⟨m, hm, rfl⟩⟩
  | scrollDown => exact ⟨_, rfl⟩
  | clearScreen => exact ⟨_, rfl⟩
  | _ => exact ⟨_, rfl⟩

/-- A store to the cells leaves the cursor alone. -/
theorem draw_cursor (h : v.draw f = some v') : v'.cursorX = v.cursorX ∧ v'.cursorY = v.cursorY := by
  obtain ⟨m, -, rfl⟩ := Option.map_eq_some_iff.mp h
  exact ⟨rfl, rfl⟩

/-- **The cursor stays on the screen**, as a terminal sets it to places there only. -/
theorem perform_cursor (he : e.InRange) (h : v.perform e = some v') (hv : v.CursorInRange) :
    v'.CursorInRange := by
  have hdraw : ∀ {f : Cells → Option Cells}, v.draw f = some v' → v'.CursorInRange := by
    intro f hf
    obtain ⟨hx, hy⟩ := draw_cursor hf
    rw [CursorInRange, hx, hy]
    exact hv
  cases e with
  | showChar x y c => exact hdraw h
  | clearLine y => exact hdraw h
  | scrollDown => exact hdraw h
  | clearScreen =>
    rw [perform] at h
    obtain ⟨w, -, rfl⟩ := Option.map_eq_some_iff.mp h
    exact ⟨show 0 < SCREEN_WIDTH by decide, show 0 < SCREEN_HEIGHT by decide⟩
  | setCursor x y =>
    cases h
    exact he
  | _ =>
    cases h
    exact hv

end Screen

namespace Display

variable {d : Display} {x y : Nat}

/-- Setting the cursor of the display changes its place at most. -/
theorem helpSetCursor_eq (d : Display) (x y : Nat) :
    ∃ location, d.helpSetCursor x y = { d with location := location } := by
  rw [helpSetCursor]
  split
  · exact ⟨d.location, rfl⟩
  · split
    · exact ⟨d.location, rfl⟩
    · exact ⟨_, rfl⟩

/-- A place on the screen is set as it is, and fits the two registers. -/
theorem helpSetCursor_of_lt (hx : x < SCREEN_WIDTH) (hy : y < SCREEN_HEIGHT) :
    d.helpSetCursor x y = { d with location := SCREEN_WIDTH * y + x } := by
  have hx' : x < 80 := hx
  have hy' : y < 25 := hy
  have hsmall : (SCREEN_WIDTH * y + x) % 0x10000 = SCREEN_WIDTH * y + x := by
    show (80 * y + x) % 0x10000 = 80 * y + x
    omega
  rw [helpSetCursor, if_neg (by omega), if_neg (by omega), hsmall]

end Display

namespace TextModePainter

variable {p : TextModePainter} {d : Display} {r : TextModePainter × Display} {e : Effect}

/-- The logical screen: video memory if loaded, the buffer otherwise. -/
def screen (p : TextModePainter) (d : Display) : Screen where
  cells := if p.isLoadedInVmem then d.vmem else p.backupBuffer
  cursorX := p.cursorX
  cursorY := p.cursorY

/-- What the painter's methods leave as it is: who may draw where, and the display unless it is
    theirs. -/
structure Frame (p : TextModePainter) (d : Display) (r : TextModePainter × Display) : Prop where
  bufferAddr : r.1.bufferAddr = p.bufferAddr
  loaded : r.1.isLoadedInVmem = p.isLoadedInVmem
  enabled : r.1.bIsVidmapEnabled = p.bIsVidmapEnabled
  owner : r.1.vidmapOwner = p.vidmapOwner
  /-- A hidden painter does not touch the display; one that is shown stores to the text memory
      and sets the cursor. -/
  display : ∃ vmem location, r.2 = { d with vmem := vmem, location := location } ∧
    (p.isLoadedInVmem = false → vmem = d.vmem ∧ location = d.location)

/-- To do nothing is within the frame. -/
theorem Frame.refl : Frame p d (p, d) where
  bufferAddr := rfl
  loaded := rfl
  enabled := rfl
  owner := rfl
  display := ⟨_, _, rfl, fun _ => ⟨rfl, rfl⟩⟩

/-- A painter that is shown draws on the text memory. -/
theorem draw_shown {f : Cells → Option Cells} (hpage : d.virtOfPage0 = true)
    (hloaded : p.isLoadedInVmem = true) :
    p.draw f d = (f d.vmem).map fun m => (p, { d with vmem := m }) := by
  have hmem : p.videoMem d = some .vmem := by
    rw [videoMem, hpage, hloaded]
    rfl
  rw [draw, hmem]

/-- A painter that is hidden draws on its buffer. -/
theorem draw_hidden {f : Cells → Option Cells} (hpage : d.virtOfPage0 = true)
    (hhidden : p.isLoadedInVmem = false) :
    p.draw f d = (f p.backupBuffer).map fun m => ({ p with backupBuffer := m }, d) := by
  have hmem : p.videoMem d = some .backup := by
    rw [videoMem, hpage, hhidden]
    rfl
  rw [draw, hmem]

/-- Drawing is within the frame. -/
theorem draw_frame {f : Cells → Option Cells} (h : p.draw f d = some r) : Frame p d r := by
  cases hpage : d.virtOfPage0 with
  | false =>
    rw [draw, videoMem, hpage] at h
    exact absurd h (Option.some_ne_none r).symm
  | true =>
    cases hloaded : p.isLoadedInVmem with
    | true =>
      rw [draw_shown hpage hloaded] at h
      obtain ⟨m, -, rfl⟩ := Option.map_eq_some_iff.mp h
      refine ⟨rfl, rfl, rfl, rfl, m, d.location, rfl, fun hhidden => ?_⟩
      exact absurd (hhidden.symm.trans hloaded) Bool.false_ne_true
    | false =>
      rw [draw_hidden hpage hloaded] at h
      obtain ⟨m, -, rfl⟩ := Option.map_eq_some_iff.mp h
      exact ⟨rfl, rfl, rfl, rfl, d.vmem, d.location, rfl, fun _ => ⟨rfl, rfl⟩⟩

/-- The screen of a painter that is shown. -/
theorem screen_shown (hloaded : p.isLoadedInVmem = true) :
    p.screen d = ⟨d.vmem, p.cursorX, p.cursorY⟩ := by
  rw [screen, hloaded]
  rfl

/-- The screen of one that is hidden. -/
theorem screen_hidden (hhidden : p.isLoadedInVmem = false) :
    p.screen d = ⟨p.backupBuffer, p.cursorX, p.cursorY⟩ := by
  rw [screen, hhidden]
  rfl

/-- Drawing through `videoMem()` is drawing on the screen. -/
theorem draw_screen (f : Cells → Option Cells) (hpage : d.virtOfPage0 = true) :
    (p.draw f d).map (fun r => r.1.screen r.2) = (p.screen d).draw f := by
  cases hloaded : p.isLoadedInVmem with
  | true =>
    rw [draw_shown hpage hloaded, Option.map_map, screen_shown hloaded]
    show (f d.vmem).map _ = (f d.vmem).map _
    congr 1
    funext m
    exact screen_shown hloaded
  | false =>
    rw [draw_hidden hpage hloaded, Option.map_map, screen_hidden hloaded]
    show (f p.backupBuffer).map _ = (f p.backupBuffer).map _
    congr 1
    funext m
    exact screen_hidden hloaded

/-- A painter that is shown sets the cursor of the display, too. -/
theorem setCursor_shown {x y : Nat} (hloaded : p.isLoadedInVmem = true) :
    p.setCursor x y d = ({ p with cursorX := x, cursorY := y }, d.helpSetCursor x y) := by
  rw [setCursor]
  dsimp only
  rw [hloaded]
  rfl

/-- A painter that is hidden sets its own only. -/
theorem setCursor_hidden {x y : Nat} (hhidden : p.isLoadedInVmem = false) :
    p.setCursor x y d = ({ p with cursorX := x, cursorY := y }, d) := by
  rw [setCursor]
  dsimp only
  rw [hhidden]
  rfl

/-- Setting the cursor is within the frame. -/
theorem setCursor_frame {x y : Nat} : Frame p d (p.setCursor x y d) := by
  cases hloaded : p.isLoadedInVmem with
  | true =>
    obtain ⟨location, hd⟩ := d.helpSetCursor_eq x y
    rw [setCursor_shown hloaded, hd]
    refine ⟨rfl, rfl, rfl, rfl, d.vmem, location, rfl, fun hhidden => ?_⟩
    exact absurd (hhidden.symm.trans hloaded) Bool.false_ne_true
  | false =>
    rw [setCursor_hidden hloaded]
    exact ⟨rfl, rfl, rfl, rfl, d.vmem, d.location, rfl, fun _ => ⟨rfl, rfl⟩⟩

/-- It is the operation on the screen, shown or hidden. -/
theorem setCursor_screen {x y : Nat} :
    (p.setCursor x y d).1.screen (p.setCursor x y d).2 =
      { p.screen d with cursorX := x, cursorY := y } := by
  cases hloaded : p.isLoadedInVmem with
  | true =>
    obtain ⟨location, hd⟩ := d.helpSetCursor_eq x y
    rw [setCursor_shown hloaded, hd, screen_shown hloaded]
    exact screen_shown hloaded
  | false =>
    rw [setCursor_hidden hloaded, screen_hidden hloaded]
    exact screen_hidden hloaded

/-- Two methods, one after the other. -/
theorem Frame.trans {r' : TextModePainter × Display} (h : Frame p d r) (h' : Frame r.1 r.2 r') :
    Frame p d r' := by
  obtain ⟨m, location, hd, hkept⟩ := h.display
  obtain ⟨m', location', hd', hkept'⟩ := h'.display
  refine ⟨h'.bufferAddr.trans h.bufferAddr, h'.loaded.trans h.loaded, h'.enabled.trans h.enabled,
    h'.owner.trans h.owner, m', location', ?_, fun hhidden => ?_⟩
  · rw [hd', hd]
  · obtain ⟨hm, hl⟩ := hkept hhidden
    obtain ⟨hm', hl'⟩ := hkept' (h.loaded.trans hhidden)
    rw [hm', hl', hd]
    exact ⟨hm, hl⟩

/-- Clearing the screen draws and sets the cursor. -/
theorem clearScreen_frame (h : p.clearScreenNolock d = some r) : Frame p d r := by
  obtain ⟨q, hq, rfl⟩ := Option.map_eq_some_iff.mp h
  exact (draw_frame hq).trans setCursor_frame

/-- It is the operation on the screen. -/
theorem clearScreen_screen (hpage : d.virtOfPage0 = true) :
    (p.clearScreenNolock d).map (fun r => r.1.screen r.2) = (p.screen d).perform .clearScreen := by
  rw [clearScreenNolock, Option.map_map, Screen.perform, ← draw_screen Cells.clear hpage,
    Option.map_map]
  congr 1
  funext q
  exact setCursor_screen

/-- **Every method** stays within the frame; those of the painter that a call of a terminal does
    not name do nothing. -/
theorem perform_frame (h : p.perform e d = some r) : Frame p d r := by
  cases e with
  | showChar x y c => exact draw_frame h
  | clearLine y => exact draw_frame h
  | scrollDown => exact draw_frame h
  | clearScreen => exact clearScreen_frame h
  | setCursor x y =>
    cases h
    exact setCursor_frame
  | _ =>
    cases h
    exact Frame.refl

/-- **One method.**  It does to the screen what the operation does. -/
theorem perform_screen (hpage : d.virtOfPage0 = true) :
    (p.perform e d).map (fun r => r.1.screen r.2) = (p.screen d).perform e := by
  cases e with
  | showChar x y c => exact draw_screen _ hpage
  | clearLine y => exact draw_screen _ hpage
  | scrollDown => exact draw_screen _ hpage
  | clearScreen => exact clearScreen_screen hpage
  | setCursor x y => exact congrArg some setCursor_screen
  | _ => rfl

/-- A painter whose screen is shown, shows its cursor. -/
def CursorShown (p : TextModePainter) (d : Display) : Prop :=
  p.isLoadedInVmem = true → d.location = SCREEN_WIDTH * p.cursorY + p.cursorX

/-- Drawing does not move the cursor. -/
theorem draw_cursorShown {f : Cells → Option Cells} (hpage : d.virtOfPage0 = true)
    (h : p.draw f d = some r) (hp : p.CursorShown d) : r.1.CursorShown r.2 := by
  intro hloaded
  rw [(draw_frame h).loaded] at hloaded
  rw [draw_shown hpage hloaded] at h
  obtain ⟨m, -, rfl⟩ := Option.map_eq_some_iff.mp h
  exact hp hloaded

/-- Setting it shows it. -/
theorem setCursor_cursorShown {x y : Nat} (hx : x < SCREEN_WIDTH) (hy : y < SCREEN_HEIGHT) :
    (p.setCursor x y d).1.CursorShown (p.setCursor x y d).2 := by
  intro hloaded
  rw [setCursor_frame.loaded] at hloaded
  rw [setCursor_shown hloaded, Display.helpSetCursor_of_lt hx hy]

/-- **Every method** keeps the cursor shown. -/
theorem perform_cursorShown (hpage : d.virtOfPage0 = true) (he : e.InRange)
    (h : p.perform e d = some r) (hp : p.CursorShown d) : r.1.CursorShown r.2 := by
  cases e with
  | showChar x y c => exact draw_cursorShown hpage h hp
  | clearLine y => exact draw_cursorShown hpage h hp
  | scrollDown => exact draw_cursorShown hpage h hp
  | clearScreen =>
    obtain ⟨q, -, rfl⟩ := Option.map_eq_some_iff.mp h
    exact setCursor_cursorShown (by decide) (by decide)
  | setCursor x y =>
    cases h
    exact setCursor_cursorShown he.1 he.2
  | _ =>
    cases h
    exact hp

/-! ## Switching

  `show` copies the buffer to the text memory and `hide` copies it back, so the screen of the
  painter is the same before and after.  What needs the invariant is that the OTHER screens are
  untouched: none of them is in the text memory at that moment (`Shown.others`). -/

/-- Mapping the text memory for a program changes its page entries at most. -/
theorem tryMapVidmap_frame (pcb : BitVec 32) : ∃ userEntry firstEntry,
    p.tryMapVidmapNolock pcb d = { d with userEntry := userEntry, firstEntry := firstEntry } := by
  rw [tryMapVidmapNolock]
  split
  · exact ⟨d.userEntry, d.firstEntry, rfl⟩
  · split
    · exact ⟨d.userEntry, d.firstEntry, rfl⟩
    · split
      · exact ⟨_, _, rfl⟩
      · exact ⟨d.userEntry, 0, rfl⟩

/-- To show a painter that is shown does nothing. -/
theorem show_of_shown (hloaded : p.isLoadedInVmem = true) : p.show d = (p, d) := by
  rw [«show», hloaded]
  rfl

/-- To hide a painter that is hidden does nothing. -/
theorem hide_of_hidden (hhidden : p.isLoadedInVmem = false) : p.hide d = (p, d) := by
  rw [hide, hhidden]
  rfl

/-- What `show` does: the buffer is copied to the text memory, and the cursor of the display is
    set. -/
theorem show_hidden (hpage : d.virtOfPage0 = true) (hhidden : p.isLoadedInVmem = false) :
    p.show d = ({ p with isLoadedInVmem := true },
      ({ p with isLoadedInVmem := true } : TextModePainter).tryMapVidmapNolock d.current
        (({ d with vmem := p.backupBuffer } : Display).helpSetCursor p.cursorX p.cursorY)) := by
  rw [«show», if_neg (by rw [hhidden]; exact Bool.false_ne_true),
    if_neg (by rw [hpage]; exact Bool.false_ne_true)]
  dsimp only
  rw [Cells.movsd_all]

/-- What `hide` does: the text memory is copied to the buffer. -/
theorem hide_shown (hpage : d.virtOfPage0 = true) (hloaded : p.isLoadedInVmem = true) :
    p.hide d = ({ p with backupBuffer := d.vmem, isLoadedInVmem := false },
      ({ p with backupBuffer := d.vmem, isLoadedInVmem := false } :
        TextModePainter).tryMapVidmapNolock
        d.current d) := by
  rw [hide, if_neg (by rw [hloaded]; exact Bool.false_ne_true),
    if_neg (by rw [hpage]; exact Bool.false_ne_true)]
  dsimp only
  rw [Cells.movsd_all]

/-- A painter's screen is moved to the text memory as it is. -/
theorem show_spec (hpage : d.virtOfPage0 = true) (hhidden : p.isLoadedInVmem = false)
    (hcursor : (p.screen d).CursorInRange) :
    (p.show d).1.isLoadedInVmem = true ∧ (p.show d).2.virtOfPage0 = true ∧
      (p.show d).1.screen (p.show d).2 = p.screen d ∧ (p.show d).1.CursorShown (p.show d).2 := by
  obtain ⟨hx, hy⟩ : p.cursorX < SCREEN_WIDTH ∧ p.cursorY < SCREEN_HEIGHT := hcursor
  rw [show_hidden hpage hhidden, Display.helpSetCursor_of_lt hx hy]
  obtain ⟨userEntry, firstEntry, hd⟩ := tryMapVidmap_frame (p := { p with isLoadedInVmem := true })
    (d := { d with vmem := p.backupBuffer, location := SCREEN_WIDTH * p.cursorY + p.cursorX })
      d.current
  rw [hd]
  refine ⟨rfl, hpage, ?_, fun _ => rfl⟩
  rw [screen_hidden hhidden]
  rfl

/-- A painter's screen is moved to its buffer as it is; the text memory keeps what it shows. -/
theorem hide_spec (hpage : d.virtOfPage0 = true) (hloaded : p.isLoadedInVmem = true) :
    (p.hide d).1.isLoadedInVmem = false ∧ (p.hide d).2.virtOfPage0 = true ∧
      (p.hide d).2.vmem = d.vmem ∧ (p.hide d).1.screen (p.hide d).2 = p.screen d := by
  rw [hide_shown hpage hloaded]
  obtain ⟨userEntry, firstEntry, hd⟩ := tryMapVidmap_frame
    (p := { p with backupBuffer := d.vmem, isLoadedInVmem := false }) (d := d) d.current
  rw [hd]
  refine ⟨rfl, hpage, rfl, ?_⟩
  rw [screen_shown hloaded]
  rfl

/-- A hidden screen is not on the display. -/
theorem screen_congr {d' : Display} (h : p.isLoadedInVmem = true → d'.vmem = d.vmem) :
    p.screen d' = p.screen d := by
  cases hloaded : p.isLoadedInVmem with
  | true => rw [screen_shown hloaded, screen_shown hloaded, h hloaded]
  | false => rw [screen_hidden hloaded, screen_hidden hloaded]

end TextModePainter

namespace KbClients

variable {s s' : KbClients} {i j : Fin numTextTerms} {r : TextModePainter × Display} {e : Effect}

def screen (i : Fin numTextTerms) (s : KbClients) : Screen := (s.painters i).screen s.display

/-- The painter that a method has changed. -/
theorem put_self : (s.put i r).painters i = r.1 := Function.update_self _ _ _

/-- The other painters. -/
theorem put_of_ne (h : j ≠ i) : (s.put i r).painters j = s.painters j := Function.update_of_ne h _ _

/-- At most the current terminal is shown, and where it is its cursor is. -/
structure Shown (s : KbClients) : Prop where
  page0 : s.display.virtOfPage0 = true
  /-- Two painters are never loaded: their flags name the one current terminal. -/
  only : ∀ i, (s.painters i).isLoadedInVmem = true → i = s.currClient
  /-- No cursor has left its screen, so that the two registers can hold it when it is shown. -/
  inRange : ∀ i, (s.screen i).CursorInRange
  cursor : ∀ i, (s.painters i).CursorShown s.display

/-- What another painter has done to the display is nothing to a shown screen. -/
theorem Shown.others (h : Shown s) (hf : TextModePainter.Frame (s.painters i) s.display r)
    (hne : j ≠ i) (hloaded : (s.painters j).isLoadedInVmem = true) :
    r.2.vmem = s.display.vmem ∧ r.2.location = s.display.location := by
  obtain ⟨m, location, hd, hkept⟩ := hf.display
  have hhidden : (s.painters i).isLoadedInVmem = false := by
    refine Bool.eq_false_iff.mpr fun hi => hne ?_
    rw [h.only j hloaded, h.only i hi]
  rw [hd]
  exact hkept hhidden

/-- **One call.**  It is the operation on the caller's screen, and no other screen changes. -/
theorem Shown.call_spec (h : Shown s) (hcall : s.call i e = some s') :
    (s.screen i).perform e = some (s'.screen i) ∧ ∀ j, j ≠ i → s'.screen j = s.screen j := by
  obtain ⟨r, hr, rfl⟩ := Option.map_eq_some_iff.mp hcall
  constructor
  · show (TextModePainter.screen _ _).perform e =
      some (TextModePainter.screen ((s.put i r).painters i) r.2)
    rw [put_self, ← TextModePainter.perform_screen h.page0, hr]
    rfl
  · intro j hne
    show TextModePainter.screen ((s.put i r).painters j) r.2 = _
    rw [put_of_ne hne]
    exact TextModePainter.screen_congr fun hloaded =>
      (h.others (TextModePainter.perform_frame hr) hne hloaded).1

/-- **A call keeps the invariant**, as it changes no flag, and the display only if the caller is
    shown. -/
theorem Shown.call (h : Shown s) (he : e.InRange) (hcall : s.call i e = some s') : Shown s' := by
  obtain ⟨hself, hother⟩ := h.call_spec hcall
  obtain ⟨r, hr, rfl⟩ := Option.map_eq_some_iff.mp hcall
  have hf := TextModePainter.perform_frame hr
  constructor
  case page0 =>
    obtain ⟨m, location, hd, -⟩ := hf.display
    show r.2.virtOfPage0 = true
    rw [hd]
    exact h.page0
  case only =>
    intro j hloaded
    by_cases hne : j = i
    · subst hne
      rw [put_self, hf.loaded] at hloaded
      exact h.only j hloaded
    · rw [put_of_ne hne] at hloaded
      exact h.only j hloaded
  case inRange =>
    intro j
    by_cases hne : j = i
    · subst hne
      exact Screen.perform_cursor he hself (h.inRange j)
    · rw [hother j hne]
      exact h.inRange j
  case cursor =>
    intro j
    by_cases hne : j = i
    · subst hne
      rw [put_self]
      exact TextModePainter.perform_cursorShown h.page0 he hr (h.cursor j)
    · rw [put_of_ne hne]
      -- another painter is shown, so the caller is hidden
      intro hloaded
      exact (h.others hf hne hloaded).2.trans (h.cursor j hloaded)

/-- An in-range call has a result. -/
theorem Shown.call_some (h : Shown s) (he : e.InRange) : ∃ s', s.call i e = some s' := by
  obtain ⟨v, hv⟩ := Screen.perform_some (s.screen i) he
  have hmap := TextModePainter.perform_screen (p := s.painters i) (e := e) h.page0
  rw [show (s.painters i).screen s.display = s.screen i from rfl, hv] at hmap
  obtain ⟨r, hr, -⟩ := Option.map_eq_some_iff.mp hmap
  exact ⟨_, Option.map_eq_some_iff.mpr ⟨r, hr, rfl⟩⟩

/-- `hide` of the current terminal: nothing is shown, and every screen is as it was. -/
theorem Shown.hide (h : Shown s) : (s.hide s.currClient).display.virtOfPage0 = true ∧
    (∀ i, ((s.hide s.currClient).painters i).isLoadedInVmem = false) ∧
    ∀ i, (s.hide s.currClient).screen i = s.screen i := by
  have hothers : ∀ j, j ≠ s.currClient → (s.painters j).isLoadedInVmem = false := fun j hne =>
    Bool.eq_false_iff.mpr fun hj => hne (h.only j hj)
  have hself : ((s.painters s.currClient).hide s.display).1.isLoadedInVmem = false ∧
      ((s.painters s.currClient).hide s.display).2.virtOfPage0 = true ∧
      ((s.painters s.currClient).hide s.display).1.screen
        ((s.painters s.currClient).hide s.display).2 =
        s.screen s.currClient := by
    cases hloaded : (s.painters s.currClient).isLoadedInVmem with
    | true =>
      obtain ⟨hhid, hpage, -, hscreen⟩ := TextModePainter.hide_spec h.page0 hloaded
      exact ⟨hhid, hpage, hscreen⟩
    | false =>
      rw [TextModePainter.hide_of_hidden hloaded]
      exact ⟨hloaded, h.page0, rfl⟩
  obtain ⟨hhid, hpage, hscreen⟩ := hself
  refine ⟨hpage, fun i => ?_, fun i => ?_⟩
  · by_cases hi : i = s.currClient
    · rw [hi, KbClients.hide, put_self]
      exact hhid
    · rw [KbClients.hide, put_of_ne hi]
      exact hothers i hi
  · by_cases hi : i = s.currClient
    · rw [hi, screen, KbClients.hide, put_self]
      exact hscreen
    · rw [screen, KbClients.hide, put_of_ne hi]
      exact TextModePainter.screen_congr fun hloaded =>
        absurd (hothers i hi ▸ hloaded) Bool.false_ne_true

/-- `show`, when nothing is shown: every screen is as it was. -/
theorem show_spec (hpage : s.display.virtOfPage0 = true)
    (hhidden : ∀ i, (s.painters i).isLoadedInVmem = false)
    (hrange : ∀ i, (s.screen i).CursorInRange) : (s.show i).display.virtOfPage0 = true ∧
    (∀ j, ((s.show i).painters j).isLoadedInVmem = true ↔ j = i) ∧
    (∀ j, (s.show i).screen j = s.screen j) ∧ ∀ j,
    ((s.show i).painters j).CursorShown (s.show i).display := by
  obtain ⟨hloaded, hpage', hscreen, hcursor⟩ :=
    TextModePainter.show_spec hpage (hhidden i) (hrange i)
  have hother : ∀ j, j ≠ i → ((s.show i).painters j).isLoadedInVmem = false := fun j hne => by
    rw [KbClients.show, put_of_ne hne]
    exact hhidden j
  refine ⟨hpage', fun j => ⟨fun hj => ?_, fun hj => ?_⟩, fun j => ?_, fun j => ?_⟩
  · by_contra hne
    exact absurd (hother j hne ▸ hj) Bool.false_ne_true
  · rw [hj, KbClients.show, put_self]
    exact hloaded
  · by_cases hne : j = i
    · rw [hne, screen, KbClients.show, put_self]
      exact hscreen
    · rw [screen, KbClients.show, put_of_ne hne]
      exact TextModePainter.screen_congr fun hj => absurd (hhidden j ▸ hj) Bool.false_ne_true
  · by_cases hne : j = i
    · rw [hne, KbClients.show, put_self]
      exact hcursor
    · intro hj
      exact absurd (hother j hne ▸ hj) Bool.false_ne_true

/-- **A switch.**  The terminal asked for is shown, and every screen is as it was. -/
theorem Shown.showClient (h : Shown s) (hne : i ≠ s.currClient) : Shown (s.showClient i) ∧
    ((s.showClient i).painters i).isLoadedInVmem = true ∧ ∀ j,
    (s.showClient i).screen j = s.screen j := by
  obtain ⟨hpage, hhidden, hscreen⟩ := h.hide
  obtain ⟨hpage', hloaded, hscreen', hcursor⟩ := show_spec (i := i) hpage hhidden fun j => by
    rw [hscreen]
    exact h.inRange j
  rw [KbClients.showClient, if_neg hne]
  refine ⟨⟨hpage', fun j => (hloaded j).mp, fun j => ?_, hcursor⟩, (hloaded i).mpr rfl,
    fun j => (hscreen' j).trans (hscreen j)⟩
  show ((s.hide s.currClient).show i |>.screen j).CursorInRange
  rw [hscreen', hscreen]
  exact h.inRange j

/-- The terminal asked for is the current one afterwards. -/
theorem showClient_currClient : (s.showClient i).currClient = i := by
  rw [KbClients.showClient]
  split
  · next hcurr => exact hcurr.symm
  · rfl

/-- The first show, while the first terminal is the current one. -/
theorem Shown.firstShow (h : Shown s) (hcurr : s.currClient = getFirstTextTerm) :
    Shown (s.show getFirstTextTerm) ∧
    ((s.show getFirstTextTerm).painters getFirstTextTerm).isLoadedInVmem = true ∧
    ∀ j, (s.show getFirstTextTerm).screen j = s.screen j := by
  cases hloaded : (s.painters getFirstTextTerm).isLoadedInVmem with
  | true =>
    have hsame : s.show getFirstTextTerm = s := by
      rw [KbClients.show, TextModePainter.show_of_shown hloaded, put, Function.update_eq_self]
    rw [hsame]
    exact ⟨h, hloaded, fun _ => rfl⟩
  | false =>
    have hhidden : ∀ i, (s.painters i).isLoadedInVmem = false := fun i => by
      refine Bool.eq_false_iff.mpr fun hi => ?_
      rw [h.only i hi, hcurr, hloaded] at hi
      exact Bool.false_ne_true hi
    obtain ⟨hpage, hshown, hscreen, hcursor⟩ :=
      show_spec (i := getFirstTextTerm) h.page0 hhidden h.inRange
    refine ⟨⟨hpage, fun j hj => ?_, fun j => ?_, hcursor⟩, (hshown _).mpr rfl, hscreen⟩
    · rw [(hshown j).mp hj]
      exact hcurr.symm
    · rw [hscreen]
      exact h.inRange j

/-- Another thread runs: nothing of it can be seen. -/
theorem loadProcessMap_screen (pcb : BitVec 32) (currTerm : Option (Fin numTextTerms)) :
    ∃ userEntry firstEntry, s.loadProcessMap pcb currTerm =
      { s with display :=
        { s.display with userEntry := userEntry, firstEntry := firstEntry, current := pcb } } := by
  cases currTerm with
  | none => exact ⟨s.display.userEntry, 0, rfl⟩
  | some i =>
    obtain ⟨userEntry, firstEntry, hd⟩ := TextModePainter.tryMapVidmap_frame (p := s.painters i)
      (d := { s.display with firstEntry := 0 }) pcb
    refine ⟨userEntry, firstEntry, ?_⟩
    show KbClients.mk
      { (s.painters i).tryMapVidmapNolock pcb { s.display with firstEntry := 0 } with
      current := pcb } _ _ = _
    rw [hd]

/-! ## Runs

  The conditions of an isolation argument, for the terminal that is watched: what others do is
  not seen (`Shown.step_other`), and what it does itself depends on its own screen only.
  `unwinding` carries the two through a run of any length. -/

/-- What happens to the text terminals. -/
inductive Event where
  /-- Terminal `i` asks something of its painter. -/
  | call (i : Fin numTextTerms) (e : Effect)
  /-- `init_main`: `getFirstTextTerm()->show()`. -/
  | firstShow
  | showClient (id : Fin numTextTerms)
  /-- The process of thread `pcb`, with its terminal, is switched to. -/
  | schedule (pcb : BitVec 32) (currTerm : Option (Fin numTextTerms))

def step : Event → KbClients → Option KbClients
  | .call i e, s => s.call i e
  | .firstShow, s => some (s.show getFirstTextTerm)
  | .showClient id, s => some (s.showClient id)
  | .schedule pcb currTerm, s => some (s.loadProcessMap pcb currTerm)

/-- Terminals name cells of their screen, and the first show is before anybody switches
    terminals. -/
def Possible (s : KbClients) : Event → Prop
  | .call _ e => e.InRange
  | .firstShow => s.currClient = getFirstTextTerm
  | _ => True

/-- The event shows a terminal, unless it is shown. -/
def Event.Shows : Event → Prop
  | .firstShow => True
  | .showClient id => id ≠ getFirstTextTerm
  | _ => False

def Event.isCallOf (i : Fin numTextTerms) : Event → Bool
  | .call j _ => j = i
  | _ => false

def textTerms : Machine KbClients Event where
  init := Constructed
  step s e s' := s.step e = some s'

/-- An event of somebody else leaves the screen alone. -/
theorem Shown.step_other (h : Shown s) {ev : Event} (hmine : ev.isCallOf i = false)
    (hok : s.Possible ev) (hs : s.step ev = some s') : s'.screen i = s.screen i := by
  cases ev with
  | call j e =>
    have hne : i ≠ j := fun hij => of_decide_eq_false hmine hij.symm
    exact (h.call_spec hs).2 i hne
  | firstShow =>
    cases hs
    exact (h.firstShow hok).2.2 i
  | showClient id =>
    cases hs
    by_cases hid : id = s.currClient
    · rw [KbClients.showClient, if_pos hid]
    · exact (h.showClient hid).2.2 i
  | schedule pcb currTerm =>
    cases hs
    obtain ⟨userEntry, firstEntry, hd⟩ := loadProcessMap_screen (s := s) pcb currTerm
    rw [hd]
    rfl

/-- A further event keeps the invariant. -/
theorem Shown.step (h : Shown s) {ev : Event} (hok : s.Possible ev) (hs : s.step ev = some s') :
    Shown s' := by
  cases ev with
  | call j e => exact h.call hok hs
  | firstShow =>
    cases hs
    exact (h.firstShow hok).1
  | showClient id =>
    cases hs
    by_cases hid : id = s.currClient
    · rw [KbClients.showClient, if_pos hid]
      exact h
    · exact (h.showClient hid).1
  | schedule pcb currTerm =>
    cases hs
    obtain ⟨userEntry, firstEntry, hd⟩ := loadProcessMap_screen (s := s) pcb currTerm
    rw [hd]
    exact ⟨h.page0, h.only, h.inRange, h.cursor⟩

/-- A possible event has a result. -/
theorem Shown.step_some (h : Shown s) {ev : Event} (hok : s.Possible ev) :
    ∃ s', s.step ev = some s' := by
  cases ev with
  | call j e => exact h.call_some hok
  | _ => exact ⟨_, rfl⟩

/-- A constructed painter is hidden, with its cursor in the corner. -/
theorem Constructed.painter (h : Constructed s) (hpage : s.display.virtOfPage0 = true)
    (i : Fin numTextTerms) :
    (s.painters i).isLoadedInVmem = false ∧ (s.screen i).CursorInRange := by
  obtain ⟨raw, addr, hclear⟩ := h.2 i
  have hscreen := TextModePainter.clearScreen_screen (p := .members raw addr) hpage
  rw [show TextModePainter.clearScreenNolock _ _ = _ from hclear] at hscreen
  refine ⟨(TextModePainter.clearScreen_frame hclear).loaded, ?_⟩
  exact Screen.perform_cursor (e := .clearScreen) trivial hscreen.symm
    ⟨show 0 < SCREEN_WIDTH by decide, show 0 < SCREEN_HEIGHT by decide⟩

/-- There is a state to start from. -/
theorem exists_constructed (d : Display) (hpage : d.virtOfPage0 = true) :
    ∃ s : KbClients, s.Constructed ∧ s.display = d := by
  have hclear : ∃ p, (TextModePainter.members (fun _ => 0) 0).clearScreen d = some (p, d) := by
    have hscreen := TextModePainter.clearScreen_screen (p := .members (fun _ => 0) 0) hpage
    obtain ⟨v, hv⟩ := Screen.perform_some (e := .clearScreen)
      ((TextModePainter.members (fun _ => 0) 0).screen d) trivial
    rw [hv] at hscreen
    obtain ⟨⟨p, d'⟩, hr, -⟩ := Option.map_eq_some_iff.mp hscreen
    obtain ⟨m, location, hd, hkept⟩ := (TextModePainter.clearScreen_frame hr).display
    obtain ⟨rfl, rfl⟩ := hkept rfl
    obtain rfl : d' = d := hd
    exact ⟨p, hr⟩
  obtain ⟨p, hp⟩ := hclear
  exact ⟨⟨d, fun _ => p, getFirstTextTerm⟩, ⟨rfl, fun _ => ⟨_, _, hp⟩⟩, rfl⟩

/-- The invariant holds when the painters are constructed: none is loaded. -/
theorem Constructed.shown (h : Constructed s) (hpage : s.display.virtOfPage0 = true) : Shown s where
  page0 := hpage
  only i hi := absurd ((h.painter hpage i).1 ▸ hi) Bool.false_ne_true
  inRange i := (h.painter hpage i).2
  cursor i hi := absurd ((h.painter hpage i).1 ▸ hi) Bool.false_ne_true

/-- The conditions of isolation hold of every terminal. -/
theorem unwinding (i : Fin numTextTerms) :
    Unwinding textTerms Possible Shown (Event.isCallOf i) (screen i) where
  keeps s ev s' h hok hs := h.step hok hs
  respects s t ev s' hS hT hmine hview hok hs := by
    cases ev with
    | call j e =>
      obtain rfl : j = i := of_decide_eq_true hmine
      -- the same call has a result in the other state, and the operation on equal screens gives
      -- equal screens
      obtain ⟨t', ht⟩ := hT.call_some (i := j) hok
      refine ⟨t', hok, ht, ?_⟩
      have hself := (hT.call_spec ht).1
      rw [hview, (hS.call_spec hs).1] at hself
      exact (Option.some.inj hself).symm
    | _ => exact absurd hmine Bool.false_ne_true
  ignores s ev s' h hmine hok hs := h.step_other hmine hok hs

/-- An event that shows a terminal is among these. -/
def SomeShown (es : List Event) : Prop := ∃ ev ∈ es, ev.Shows

/-- Another event shows a terminal, or one before has. -/
theorem someShown_snoc {es : List Event} {ev : Event} :
    SomeShown (es ++ [ev]) ↔ SomeShown es ∨ ev.Shows := by
  constructor
  · rintro ⟨ev', hmem, hev⟩
    rcases List.mem_append.mp hmem with hes | hlast
    · exact .inl ⟨ev', hes, hev⟩
    · rw [List.mem_singleton.mp hlast] at hev
      exact .inr hev
  · rintro (⟨ev', hmem, hev⟩ | hev)
    · exact ⟨ev', List.mem_append_left _ hmem, hev⟩
    · exact ⟨ev, List.mem_append_right _ (List.mem_singleton_self ev), hev⟩

/-- The current terminal is shown from the first event that shows one on; until then it is the
    first. -/
structure ShownSince (es : List Event) (s : KbClients) : Prop where
  shown : Shown s
  since : (s.painters s.currClient).isLoadedInVmem = true ↔ SomeShown es
  before : ¬ SomeShown es → s.currClient = getFirstTextTerm

/-- An event after which terminal and flag are as before. -/
theorem ShownSince.same {es : List Event} (h : ShownSince es s) {ev : Event} (hok : s.Possible ev)
    (hs : s.step ev = some s') (hquiet : ev.Shows → SomeShown es)
    (hcurr : s'.currClient = s.currClient)
    (hflag : (s'.painters s.currClient).isLoadedInVmem = (s.painters s.currClient).isLoadedInVmem) :
    ShownSince (es ++ [ev]) s' := by
  have hes : SomeShown (es ++ [ev]) ↔ SomeShown es := by
    rw [someShown_snoc]
    exact ⟨fun hor => hor.elim id hquiet, .inl⟩
  constructor
  case shown => exact h.shown.step hok hs
  case since => rw [hcurr, hflag, hes, h.since]
  case before =>
    rw [hcurr, hes]
    exact h.before

/-- An event after which the current terminal is shown. -/
theorem ShownSince.showing {es : List Event} (h : ShownSince es s) {ev : Event}
    (hok : s.Possible ev) (hs : s.step ev = some s') (hshows : SomeShown es ∨ ev.Shows)
    (hflag : (s'.painters s'.currClient).isLoadedInVmem = true) : ShownSince (es ++ [ev]) s' := by
  have hes : SomeShown (es ++ [ev]) := someShown_snoc.mpr hshows
  exact ⟨h.shown.step hok hs, iff_of_true hflag hes, fun hnone => absurd hes hnone⟩

/-- **A further event.**  Calls and the scheduler show nothing; a switch to the terminal that is
    current does nothing, and that is the first one as long as nothing has been shown. -/
theorem ShownSince.snoc {es : List Event} (h : ShownSince es s) {ev : Event} (hok : s.Possible ev)
    (hs : s.step ev = some s') : ShownSince (es ++ [ev]) s' := by
  cases ev with
  | call i e =>
    obtain ⟨r, hr, hput⟩ := Option.map_eq_some_iff.mp hs
    refine h.same hok hs False.elim ?_ ?_
    · rw [← hput]
      rfl
    · rw [← hput]
      by_cases hi : s.currClient = i
      · subst hi
        rw [put_self, (TextModePainter.perform_frame hr).loaded]
      · rw [put_of_ne hi]
  | firstShow =>
    refine h.showing hok hs (.inr trivial) ?_
    cases hs
    have hcurr : s.currClient = getFirstTextTerm := hok
    show ((s.show getFirstTextTerm).painters s.currClient).isLoadedInVmem = true
    rw [hcurr]
    exact (h.shown.firstShow hcurr).2.1
  | showClient id =>
    have hmoved : id ≠ getFirstTextTerm → id = s.currClient → SomeShown es := fun hid hcurr => by
      by_contra hnone
      exact hid (hcurr.trans (h.before hnone))
    by_cases hid : id = s.currClient
    · have hsame : s' = s := by
        cases hs
        rw [KbClients.showClient, if_pos hid]
      subst hsame
      exact h.same hok hs (fun hshows => hmoved hshows hid) rfl rfl
    · -- a switch away from the current terminal: it is to another than the first, or not the
      -- first switch
      refine h.showing hok hs ?_ ?_
      · by_cases hfirst : id = getFirstTextTerm
        · refine .inl (by_contra fun hnone => ?_)
          exact hid (hfirst.trans (h.before hnone).symm)
        · exact .inr hfirst
      · cases hs
        rw [showClient_currClient]
        exact (h.shown.showClient hid).2.1
  | schedule pcb currTerm =>
    obtain ⟨userEntry, firstEntry, hd⟩ := loadProcessMap_screen (s := s) pcb currTerm
    have hs' : s' = _ := (Option.some.inj hs).symm.trans hd
    refine h.same hok hs False.elim ?_ ?_
    · rw [hs']
    · rw [hs']

/-- Nothing is shown at first, and the first terminal is the current one. -/
theorem Constructed.shownSince (h : Constructed s) (hpage : s.display.virtOfPage0 = true) :
    ShownSince [] s := by
  have hnone : ¬ SomeShown [] := fun ⟨_, hmem, _⟩ => absurd hmem List.not_mem_nil
  refine ⟨h.shown hpage, iff_of_false ?_ hnone, fun _ => h.1⟩
  rw [(h.painter hpage _).1]
  exact Bool.false_ne_true

/-- **No interference.**  After the first show the current terminal and no other is shown, with its
    cursor; and each terminal's screen and cursor are those of the run in which only its own calls
    are made. -/
theorem textTerms_isolated {s₀ s : KbClients} {es : List Event} (h₀ : s₀.Constructed)
    (hpage : s₀.display.virtOfPage0 = true) (hr : Run textTerms Possible s₀ es s) :
    (∀ i, (s.painters i).isLoadedInVmem = true ↔ SomeShown es ∧ i = s.currClient) ∧
    (∀ i, (s.painters i).isLoadedInVmem = true →
      s.display.location = SCREEN_WIDTH * (s.painters i).cursorY + (s.painters i).cursorX) ∧
    (∀ i, ∃ alone, Run textTerms Possible s₀ (es.filter (Event.isCallOf i)) alone ∧
      alone.screen i = s.screen i) ∧
    ∀ ev, s.Possible ev → ∃ s', s.step ev = some s' := by
  have h : ShownSince es s := hr.invariant (I := ShownSince) (h₀.shownSince hpage)
    fun _ _ _ _ h hok hs => h.snoc hok hs
  refine ⟨fun i => ⟨fun hi => ?_, ?_⟩, h.shown.cursor, fun i => ?_, fun ev => h.shown.step_some⟩
  · have hcurr := h.shown.only i hi
    exact ⟨h.since.mp (hcurr ▸ hi), hcurr⟩
  · rintro ⟨hes, rfl⟩
    exact h.since.mpr hes
  · exact (unwinding i).purge (h₀.shown hpage) hr

/-- Boot, a character on the first terminal, and a switch to the second: that one is shown. -/
theorem textTerms_isolated_switch :
    ∃ s : KbClients, (s.painters ⟨1, by decide⟩).isLoadedInVmem = true := by
  obtain ⟨s₀, h₀, hd⟩ := exists_constructed ⟨true, fun _ => 0, 0, 0, 0, 0, 0, true, true, false⟩ rfl
  have hpage : s₀.display.virtOfPage0 = true := by rw [hd]
  have hinRange : (Effect.showChar 0 0 0x41).InRange := ⟨by decide, by decide⟩
  obtain ⟨s₁, h₁⟩ := (h₀.shown hpage).call_some (i := getFirstTextTerm) hinRange
  have hr₁ : Run textTerms Possible s₀ ([] ++ [.call getFirstTextTerm (.showChar 0 0 0x41)]) s₁ :=
    Run.nil.snoc hinRange h₁
  have hr₂ : Run textTerms Possible s₀ _ (s₁.showClient ⟨1, by decide⟩) :=
    hr₁.snoc (show s₁.Possible (.showClient ⟨1, by decide⟩) from trivial) rfl
  have hshows :
      SomeShown ([] ++ [.call getFirstTextTerm (.showChar 0 0 0x41)] ++
        [.showClient ⟨1, by decide⟩]) :=
    someShown_snoc.mpr (.inr (show (⟨1, _⟩ : Fin numTextTerms) ≠ getFirstTextTerm by decide))
  exact ⟨_, ((textTerms_isolated h₀ hpage hr₂).1 _).mpr ⟨hshows, showClient_currClient.symm⟩⟩

end KbClients

end TedkOS.Drivers
