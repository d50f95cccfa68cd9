/-
  What the painter's loops do to the cells of a screen.

  1. **Cells** — a cell is two bytes, a character and its style; the bytes of a screen are its
     cells, line by line (`Cells.grid`).  What the string instructions do, cell by cell;
     `scrollDown` moves the lines within one screen, and reads each dword before it is overwritten.

  2. **Operations** — `Effect.paint`: what each operation of the painter is to the grid, which is
     what it does to the bytes (`perform_paints`), and so is a sequence of them
     (`performAll_paints`).
-/
import TedkOS.Drivers.TextScreens

namespace TedkOS.Drivers

/-- A character and its style. -/
abbrev Cell := BitVec 8 × BitVec 8

/-- What is in the cells that are cleared. -/
def blank : Cell := (0x20, TEXT_STYLE)

/-- Cells by column and line. -/
abbrev Grid := Nat → Nat → Cell

/-! ## Cells

  Character and style of a cell are two bytes next to each other.  Each string instruction writes
  whole cells, so after it the cell at `(x, y)` is known from the cells before. -/

namespace Cells

variable {m m' : Cells} {c : BitVec 8} {n k count : Nat}

/-- The `n`th cell. -/
def cellAt (n : Nat) (m : Cells) : Cell := (m.load (2 * n), m.load (2 * n + 1))

/-- Cell `x` of line `y`. -/
def grid (m : Cells) : Grid := fun x y => m.cellAt (SCREEN_WIDTH * y + x)

/-- A dword that is stored is loaded again, and the others stay. -/
theorem load_store {o i : Nat} (hi : i < SCREEN_BYTES) :
    (m.store o c).load i = if i = o then c else m.load i := by
  rw [load, dif_pos hi, store, load, dif_pos hi]

/-- A word of two bytes is stored at a cell. -/
theorem cellAt_store {style : BitVec 8} (hn : n < 2000) :
    ((m.store (2 * k) c).store (2 * k + 1) style).cellAt n = if n = k then (c, style)
      else m.cellAt n := by
  have hlow : 2 * n < SCREEN_BYTES := by
    unfold SCREEN_BYTES
    omega
  have hhigh : 2 * n + 1 < SCREEN_BYTES := by
    unfold SCREEN_BYTES
    omega
  rw [cellAt, load_store hlow, load_store hlow, load_store hhigh, load_store hhigh]
  by_cases hk : n = k
  · rw [if_neg (by omega), if_pos (by omega), if_pos (by omega), if_pos hk]
  · rw [if_neg (by omega), if_neg (by omega), if_neg (by omega), if_neg (by omega),
      if_neg hk, cellAt]

/-- `showChar` writes one cell, -/
theorem showChar_cellAt {x y : Nat} (hx : x < SCREEN_WIDTH) (hy : y < SCREEN_HEIGHT)
    (h : m.showChar x y c = some m') (hn : n < 2000) :
    m'.cellAt n = if n = SCREEN_WIDTH * y + x then (c, TEXT_STYLE) else m.cellAt n := by
  have hoff : uint32_t (uint32_t (SCREEN_WIDTH * y + x) * 2) = 2 * (SCREEN_WIDTH * y + x) := by
    unfold uint32_t SCREEN_WIDTH SCREEN_HEIGHT at *
    omega
  unfold showChar at h
  rw [hoff] at h
  simp only at h
  split at h
  · obtain rfl := Option.some.inj h
    exact cellAt_store hn
  · cases h

/-- `rep stosw` clears as many cells. -/
theorem stosw_cellAt (h : m.stosw (2 * k) count = some m') (hn : n < 2000) :
    m'.cellAt n = if k ≤ n ∧ n < k + count then blank else m.cellAt n := by
  unfold stosw at h
  split at h
  case isFalse => cases h
  case isTrue hroom =>
    obtain rfl := Option.some.inj h
    clear h
    induction count with
    | zero => exact (if_neg (by omega)).symm
    | succ count ih =>
      have hbefore := ih (by omega)
      rw [List.range_succ, List.foldl_append, List.foldl_cons, List.foldl_nil,
        show 2 * k + 2 * count = 2 * (k + count) by omega, cellAt_store hn]
      by_cases hlast : n = k + count
      · rw [if_pos hlast, if_pos (by omega)]
        rfl
      · rw [if_neg hlast, hbefore]
        by_cases hin : k ≤ n ∧ n < k + count
        · rw [if_pos hin, if_pos (by omega)]
        · rw [if_neg hin, if_neg (by omega)]

/-- The lines are moved up from the first dword on: what is still to be read has not been
    overwritten. -/
theorem load_movsdWithin {i : Nat} (hn : 4 * n + 160 ≤ SCREEN_BYTES) (hi : i < SCREEN_BYTES) :
    (m.movsdWithin n 160 0).load i = if i < 4 * n then m.load (i + 160) else m.load i := by
  induction n generalizing i with
  | zero => exact (if_neg (by omega)).symm
  | succ n ih =>
    rw [movsdWithin, List.range_succ, List.foldl_append, List.foldl_cons, List.foldl_nil,
      ← movsdWithin]
    rw [load, dif_pos hi]
    show (if 0 + 4 * n ≤ i ∧ i < 0 + 4 * n + 4 then
      (m.movsdWithin n 160 0).load (160 + 4 * n + (i - (0 + 4 * n)))
        else m.movsdWithin n 160 0 ⟨i, hi⟩) = _
    by_cases hthis : 0 + 4 * n ≤ i ∧ i < 0 + 4 * n + 4
    · rw [if_pos hthis, if_pos (by omega), ih (by omega) (by omega), if_neg (by omega)]
      congr 1
      omega
    · rw [if_neg hthis]
      have hih := ih (i := i) (by omega) hi
      rw [load, dif_pos hi] at hih
      rw [hih]
      by_cases hdone : i < 4 * n
      · rw [if_pos hdone, if_pos (by omega)]
      · rw [if_neg hdone, if_neg (by omega)]

/-- `clearLine` the cells of a line, -/
theorem clearLine_cellAt {y : Nat} (hy : y < SCREEN_HEIGHT) (h : m.clearLine y = some m')
    (hn : n < 2000) :
    m'.cellAt n = if SCREEN_WIDTH * y ≤ n ∧ n < SCREEN_WIDTH * y + SCREEN_WIDTH then blank
      else m.cellAt n := by
  have hoff : uint32_t (y * SCREEN_WIDTH * 2) = 2 * (SCREEN_WIDTH * y) := by
    unfold uint32_t SCREEN_WIDTH SCREEN_HEIGHT at *
    omega
  rw [clearLine, hoff] at h
  exact stosw_cellAt h hn

/-- `scrollDown` takes each cell from the line below, and blanks the last, -/
theorem scrollDown_cellAt (h : m.scrollDown = some m') (hn : n < 2000) :
    m'.cellAt n = if 1920 ≤ n then blank else m.cellAt (n + SCREEN_WIDTH) := by
  have hmoved : ∀ i, i < SCREEN_BYTES → (m.movsdWithin 960 160 0).load i =
      if i < 4 * 960 then m.load (i + 160) else m.load i := fun i hi =>
    load_movsdWithin (by decide) hi
  rw [stosw_cellAt (k := 1920) h hn]
  by_cases hlast : 1920 ≤ n
  · rw [if_pos ⟨hlast, hn⟩, if_pos hlast]
  · rw [if_neg (fun hc => hlast hc.1), if_neg hlast]
    show ((m.movsdWithin 960 160 0).load (2 * n), (m.movsdWithin 960 160 0).load (2 * n + 1)) =
      (m.load (2 * (n + 80)), m.load (2 * (n + 80) + 1))
    rw [hmoved _ (by unfold SCREEN_BYTES; omega), hmoved _ (by unfold SCREEN_BYTES; omega),
      if_pos (by omega), if_pos (by omega)]
    rw [show 2 * (n + 80) = 2 * n + 160 by omega, show 2 * n + 160 + 1 = 2 * n + 1 + 160 by omega]

/-- and `clear` blanks all. -/
theorem clear_cellAt (h : m.clear = some m') (hn : n < 2000) : m'.cellAt n = blank := by
  rw [stosw_cellAt (k := 0) h hn]
  exact if_pos ⟨Nat.zero_le n, by unfold SCREEN_WIDTH SCREEN_HEIGHT; omega⟩

end Cells

/-! ## Operations

  A terminal asks its painter for five things only.  What each of them does to the bytes of a
  screen is a function of grids, `Effect.paint`, when the bytes are seen as cells. -/

/-- The grids agree on the screen. -/
def Grid.Same (g g' : Grid) : Prop := ∀ x y, x < SCREEN_WIDTH → y < SCREEN_HEIGHT → g x y = g' x y

/-- What an operation of the painter is to the grid. -/
def Effect.paint : Effect → Grid → Grid
  | .showChar x y c, g => fun x' y' => if x' = x ∧ y' = y then (c, TEXT_STYLE) else g x' y'
  | .clearLine y, g => fun x' y' => if y' = y then blank else g x' y'
  | .scrollDown, g => fun x y => if y = SCREEN_HEIGHT - 1 then blank else g x (y + 1)
  | .clearScreen, _ => fun _ _ => blank
  | _, g => g

/-- One operation after the other, on the grid. -/
def paintAll (es : List Effect) (g : Grid) : Grid := es.foldl (fun g e => e.paint g) g

/-- Operations one after the other. -/
def Screen.performAll : List Effect → Screen → Option Screen
  | [], v => some v
  | e :: es, v => (v.perform e).bind (performAll es)

section Paint

variable {e : Effect} {es : List Effect} {g g' : Grid} {v v' : Screen}

/-- The same as what is the same. -/
theorem Grid.Same.trans {g'' : Grid} (h : g.Same g') (h' : g'.Same g'') : g.Same g'' :=
  fun x y hx hy => (h x y hx hy).trans (h' x y hx hy)

/-- What is painted on grids that are the same on the screen is the same there, -/
theorem Effect.paint_same (h : g.Same g') : (e.paint g).Same (e.paint g') := by
  intro x y hx hy
  cases e with
  | showChar x₀ y₀ c =>
    show (if x = x₀ ∧ y = y₀ then _ else g x y) = if x = x₀ ∧ y = y₀ then _ else g' x y
    rw [h x y hx hy]
  | clearLine y₀ =>
    show (if y = y₀ then _ else g x y) = if y = y₀ then _ else g' x y
    rw [h x y hx hy]
  | scrollDown =>
    show (if y = SCREEN_HEIGHT - 1 then _ else g x (y + 1)) = if y = SCREEN_HEIGHT - 1 then _
      else g' x (y + 1)
    by_cases hlast : y = SCREEN_HEIGHT - 1
    · rw [if_pos hlast, if_pos hlast]
    · rw [if_neg hlast, if_neg hlast]
      refine h x (y + 1) hx ?_
      unfold SCREEN_HEIGHT at *
      omega
  | clearScreen => rfl
  | _ => exact h x y hx hy

/-- and so is all that follows. -/
theorem paintAll_same : ∀ (es : List Effect) {g g' : Grid}, g.Same g' →
    (paintAll es g).Same (paintAll es g') := by
  intro es
  induction es with
  | nil => exact fun h => h
  | cons e es ih => exact fun h => ih (Effect.paint_same h)

/-- First the one, and then the other. -/
theorem paintAll_append (es es' : List Effect) (g : Grid) :
    paintAll (es ++ es') g = paintAll es' (paintAll es g) := List.foldl_append

/-- The cells of a line are those from its first to its last. -/
theorem line_iff {x y y₀ : Nat} (hx : x < SCREEN_WIDTH) :
    (SCREEN_WIDTH * y₀ ≤ SCREEN_WIDTH * y + x ∧
      SCREEN_WIDTH * y + x < SCREEN_WIDTH * y₀ + SCREEN_WIDTH) ↔ y = y₀ := by
  unfold SCREEN_WIDTH at *
  omega

/-- **One operation** does to the cells what it is to the grid. -/
theorem Screen.perform_paints (he : e.InRange) (h : v.perform e = some v') :
    v'.cells.grid.Same (e.paint v.cells.grid) := by
  intro x y hx hy
  have hn : SCREEN_WIDTH * y + x < 2000 := by
    unfold SCREEN_WIDTH SCREEN_HEIGHT at *
    omega
  cases e with
  | showChar x₀ y₀ c =>
    obtain ⟨m, hm, rfl⟩ := Option.map_eq_some_iff.mp h
    have hx₀ := he.1
    have hcell : SCREEN_WIDTH * y + x = SCREEN_WIDTH * y₀ + x₀ ↔ x = x₀ ∧ y = y₀ := by
      unfold SCREEN_WIDTH at *
      omega
    exact (Cells.showChar_cellAt he.1 he.2 hm hn).trans (if_congr hcell rfl rfl)
  | clearLine y₀ =>
    obtain ⟨m, hm, rfl⟩ := Option.map_eq_some_iff.mp h
    exact (Cells.clearLine_cellAt he hm hn).trans (if_congr (line_iff hx) rfl rfl)
  | scrollDown =>
    rw [perform, draw] at h
    obtain ⟨m, hm, rfl⟩ := Option.map_eq_some_iff.mp h
    have hlast : 1920 ≤ SCREEN_WIDTH * y + x ↔ y = SCREEN_HEIGHT - 1 := by
      unfold SCREEN_WIDTH SCREEN_HEIGHT at *
      omega
    refine (Cells.scrollDown_cellAt hm hn).trans (if_congr hlast rfl ?_)
    show Cells.cellAt _ _ = Cells.cellAt (SCREEN_WIDTH * (y + 1) + x) _
    congr 1
    unfold SCREEN_WIDTH
    omega
  | clearScreen =>
    rw [perform, draw] at h
    obtain ⟨w, hw, rfl⟩ := Option.map_eq_some_iff.mp h
    obtain ⟨m, hm, rfl⟩ := Option.map_eq_some_iff.mp hw
    exact Cells.clear_cellAt hm hn
  | _ =>
    cases h
    rfl

/-- **A sequence of operations** on cells of the screen has a result, which is what they are to the
    grid. -/
theorem Screen.performAll_paints : ∀ (es : List Effect) (v : Screen), (∀ e ∈ es, e.InRange) →
    ∃ v', v.performAll es = some v' ∧ v'.cells.grid.Same (paintAll es v.cells.grid) := by
  intro es
  induction es with
  | nil => exact fun v _ => ⟨v, rfl, fun _ _ _ _ => rfl⟩
  | cons e es ih =>
    intro v hes
    have he := hes e List.mem_cons_self
    obtain ⟨v₁, hv₁⟩ := perform_some v he
    obtain ⟨v₂, hv₂, hsame⟩ := ih v₁ fun e' he' => hes e' (List.mem_cons_of_mem e he')
    refine ⟨v₂, ?_, hsame.trans (paintAll_same es (perform_paints he hv₁))⟩
    rw [performAll, hv₁]
    exact hv₂

end Paint

end TedkOS.Drivers
