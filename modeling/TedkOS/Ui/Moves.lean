/-
  The pixels that a move goes over (`updateLocation` of inc/ui/container.h).

  Two draws follow a move: everything on the element's old rectangle, and the element on its new
  one, but not on the old one again.  This module is about the rectangles only: which pixels the
  loops of the two draws come to, when there is something to draw.

  1. **A draw** — the pixels `drawSingle` comes to are those of its rectangle, without the right and
     the bottom edge, that do not lie in the difference, which has all its edges (`mem_pixels`).

  2. **Two draws** — so the right and the bottom edge of the old rectangle are in neither, and
     `coversMove_iff` says when they matter: when the new rectangle has a pixel of them on the
     screen.
-/
import TedkOS.Ui.Compositor
import TedkOS.Ui.Widgets

namespace TedkOS.Ui

/-! ## A draw

  The loops run over the rectangle cut to the screen, and leave out what the difference has. -/

section Loops

variable {a b x y : int32_t} {rect diff : Rectangle}

theorem exists_toInt {v : Int} (h0 : 0 ≤ v) (hlt : v < 0x80000000) :
    ∃ x : int32_t, x.toInt = v := by
  refine ⟨BitVec.ofInt 32 v, ?_⟩
  rw [BitVec.toInt_ofInt]
  exact Int.bmod_eq_of_le (by omega) (by omega)

/-- The loop counts up without a wrap. -/
theorem toInt_add_ofNat {i : Nat} (h : a.toInt + i < b.toInt) :
    (a + BitVec.ofNat 32 i).toInt = a.toInt + i := by
  have hle := BitVec.le_toInt a
  have hlt := BitVec.toInt_lt (x := b)
  rw [BitVec.toInt_add, BitVec.toInt_ofNat', Int.add_bmod_bmod]
  exact Int.bmod_eq_of_le (by omega) (by omega)

theorem mem_upTo : x ∈ upTo a b ↔ a.toInt ≤ x.toInt ∧ x.toInt < b.toInt := by
  rw [upTo, List.mem_map]
  constructor
  · rintro ⟨i, hi, rfl⟩
    have hlt : a.toInt + i < b.toInt := by
      have := List.mem_range.mp hi
      omega
    rw [toInt_add_ofNat hlt]
    omega
  · rintro ⟨hle, hlt⟩
    refine ⟨(x.toInt - a.toInt).toNat, List.mem_range.mpr (by omega), BitVec.eq_of_toInt_eq ?_⟩
    rw [toInt_add_ofNat (b := b) (by omega)]
    omega

/-- **The pixels of a draw.** -/
theorem mem_pixels :
    (x, y) ∈ pixels rect diff ↔ ((rect.x1.toInt ≤ x.toInt ∧ x.toInt < rect.x2.toInt) ∧
    rect.y1.toInt ≤ y.toInt ∧ y.toInt < rect.y2.toInt) ∧ diff.hasPoint x y = false := by
  rw [pixels, List.mem_flatMap]
  constructor
  · rintro ⟨y', hy', hmem⟩
    obtain ⟨x', hx', heq⟩ := List.mem_map.mp hmem
    obtain ⟨rfl, rfl⟩ := Prod.mk.inj heq
    obtain ⟨hx', hdiff⟩ := List.mem_filter.mp hx'
    exact ⟨⟨mem_upTo.mp hx', mem_upTo.mp hy'⟩, by simpa using hdiff⟩
  · rintro ⟨⟨hx, hy⟩, hdiff⟩
    refine ⟨y, mem_upTo.mpr hy,
      List.mem_map.mpr ⟨x, List.mem_filter.mpr ⟨mem_upTo.mpr hx, ?_⟩, rfl⟩⟩
    rw [hdiff]
    rfl

end Loops

/-- The rectangles of a call of `drawSingle`. -/
structure Draw where
  _rect : Rectangle
  _diff : Rectangle

/-- The loops come to the pixel, with each element that is drawn.  Whether one is drawn is another
    question. -/
def Draw.ComesTo (d : Draw) (x y : int32_t) : Prop := (x, y) ∈ pixels d._rect.bound d._diff

section Draw

variable {e : Element} {diff : Rectangle} {x y : int32_t}

/-- A draw on an element's rectangle comes to the pixels of the element that are on the screen. -/
theorem comesTo_iff (h : OnScreen x y) : (⟨e.getBoundingRectangle, diff⟩ : Draw).ComesTo x y ↔
    e.isPixelInRange x y = true ∧ diff.hasPoint x y = false := by
  obtain ⟨hx0, hx, hy0, hy⟩ := h
  rw [Draw.ComesTo, mem_pixels]
  refine and_congr_left' ?_
  show ((Rectangle.boundTo ScreenWidth e.absX).toInt ≤ x.toInt ∧
      x.toInt < (Rectangle.boundTo ScreenWidth (e.absX + e.width)).toInt) ∧
    (Rectangle.boundTo ScreenHeight e.absY).toInt ≤ y.toInt ∧
      y.toInt < (Rectangle.boundTo ScreenHeight (e.absY + e.height)).toInt ↔ _
  rw [Rectangle.boundTo_iff hx0 hx, Rectangle.boundTo_iff hy0 hy, Element.isPixelInRange_iff,
    and_assoc]

/-- The pixels of an element lie in its rectangle. -/
theorem hasPoint_of_inRange (h : e.isPixelInRange x y = true) :
    e.getBoundingRectangle.hasPoint x y = true := by
  obtain ⟨hx1, hx2, hy1, hy2⟩ := Element.isPixelInRange_iff.mp h
  exact Rectangle.hasPoint_iff.mpr ⟨hx1, Int.le_of_lt hx2, hy1, Int.le_of_lt hy2⟩

/-- `EmptyRectangle` has no pixel. -/
theorem hasPoint_empty : EmptyRectangle.hasPoint x y = false := by
  rw [Rectangle.hasPoint, decide_eq_false_iff_not]
  rintro ⟨hle, hge, -, -⟩
  have h1 : EmptyRectangle.x1.toInt = -1000 := rfl
  have h2 : EmptyRectangle.x2.toInt = -2000 := rfl
  omega

end Draw

/-! ## Two draws

  A pixel of either rectangle that neither draw comes to is on an edge of the old one.  On the
  screen, and in the new rectangle, there may or may not be such pixels, and that can be told
  from the corners of the two. -/

/-- The draws of `updateLocation(newX, newY)`: `redraw(oldRectangle)`, and
    `drawSingle(this, …, oldRectangle)`. -/
def Element.moveDraws (e : Element) (newX newY : int32_t) : List Draw :=
  let oldRectangle := e.getBoundingRectangle
  [⟨oldRectangle, EmptyRectangle⟩, ⟨(e.moveTo newX newY).getBoundingRectangle, oldRectangle⟩]

/-- The loops of the draws come to every pixel of the screen where the element was or is now. -/
def CoversMove (e : Element) (newX newY : int32_t) : Prop :=
  ∀ x y, OnScreen x y → e.isPixelInRange x y = true ∨
    (e.moveTo newX newY).isPixelInRange x y = true → ∃ d ∈ e.moveDraws newX newY, d.ComesTo x y

/-- The edge at `old2` of an interval from `old1` is on the screen, and in the interval from `new1`
    up to `new2`. -/
def EdgeShows (size old1 old2 new1 new2 : int32_t) : Prop :=
  (0 ≤ old2.toInt ∧ old2.toInt < size.toInt) ∧ old1.toInt ≤ old2.toInt ∧
    new1.toInt ≤ old2.toInt ∧ old2.toInt < new2.toInt

/-- Two intervals, one with and one without its end, have a point of the screen in common. -/
def Meet (size old1 old2 new1 new2 : int32_t) : Prop :=
  max 0 (max old1.toInt new1.toInt) ≤ min old2.toInt (min (new2.toInt - 1) (size.toInt - 1))

/-- The new rectangle has a pixel of the right edge of the old one. -/
def RightEdgeShows (old new : Rectangle) : Prop :=
  EdgeShows ScreenWidth old.x1 old.x2 new.x1 new.x2 ∧ Meet ScreenHeight old.y1 old.y2 new.y1 new.y2

/-- The new rectangle has a pixel of the bottom edge of the old one. -/
def BottomEdgeShows (old new : Rectangle) : Prop :=
  EdgeShows ScreenHeight old.y1 old.y2 new.y1 new.y2 ∧ Meet ScreenWidth old.x1 old.x2 new.x1 new.x2

section Move

variable {e : Element} {newX newY : int32_t}

/-- What the two draws miss: what is in the new rectangle, and in the old one only with its
    edges. -/
theorem coversMove_points : CoversMove e newX newY ↔ ∀ x y, OnScreen x y →
    (e.moveTo newX newY).isPixelInRange x y = true → e.getBoundingRectangle.hasPoint x y = true →
      e.isPixelInRange x y = true := by
  have hdraws : ∀ x y, OnScreen x y → ((∃ d ∈ e.moveDraws newX newY, d.ComesTo x y) ↔
      e.isPixelInRange x y = true ∨
        ((e.moveTo newX newY).isPixelInRange x y = true ∧
          e.getBoundingRectangle.hasPoint x y = false)) := by
    intro x y hscreen
    simp only [Element.moveDraws, List.mem_cons, List.not_mem_nil, or_false, exists_eq_or_imp,
      exists_eq_left, comesTo_iff hscreen, hasPoint_empty, and_true]
  constructor
  · intro h x y hscreen hnew hpoint
    rcases (hdraws x y hscreen).mp (h x y hscreen (Or.inr hnew)) with hold | ⟨-, hout⟩
    · exact hold
    · rw [hpoint] at hout
      cases hout
  · intro h x y hscreen hrange
    refine (hdraws x y hscreen).mpr ?_
    rcases hrange with hold | hnew
    · exact Or.inl hold
    · cases hpoint : e.getBoundingRectangle.hasPoint x y with
      | true => exact Or.inl (h x y hscreen hnew hpoint)
      | false => exact Or.inr ⟨hnew, rfl⟩

/-- A point of the screen that two intervals have in common. -/
theorem Meet.exists_point {size old1 old2 new1 new2 : int32_t} (h : Meet size old1 old2 new1 new2) :
    ∃ x : int32_t, (0 ≤ x.toInt ∧ x.toInt < size.toInt) ∧
      (old1.toInt ≤ x.toInt ∧ x.toInt ≤ old2.toInt) ∧ new1.toInt ≤ x.toInt ∧
      x.toInt < new2.toInt := by
  have hsize := BitVec.toInt_lt (x := size)
  rw [Meet] at h
  obtain ⟨x, hx⟩ := exists_toInt (v := max 0 (max old1.toInt new1.toInt)) (by omega) (by omega)
  exact ⟨x, by omega, by omega, by omega⟩

end Move

/-- **The draws cover every pixel** of the old and of the new place, exactly if the new place shows
    nothing of the right and of the bottom edge of the old rectangle. -/
theorem coversMove_iff (e : Element) (newX newY : int32_t) : CoversMove e newX newY ↔
    ¬ RightEdgeShows e.getBoundingRectangle (e.moveTo newX newY).getBoundingRectangle ∧
      ¬ BottomEdgeShows e.getBoundingRectangle (e.moveTo newX newY).getBoundingRectangle := by
  simp only [coversMove_points, Element.isPixelInRange_iff, Rectangle.hasPoint_iff]
  constructor
  · intro h
    constructor
    · rintro ⟨⟨⟨h0, hlt⟩, hold, hnew1, hnew2⟩, hmeet⟩
      obtain ⟨y, hscreen, hy, hynew⟩ := hmeet.exists_point
      have hrange :=
        h (e.absX + e.width) y ⟨h0, hlt, hscreen⟩ ⟨hnew1, hnew2, hynew⟩ ⟨hold, Int.le_refl _, hy⟩
      exact absurd hrange.2.1 (Int.lt_irrefl _)
    · rintro ⟨⟨⟨h0, hlt⟩, hold, hnew1, hnew2⟩, hmeet⟩
      obtain ⟨x, hscreen, hx, hxnew⟩ := hmeet.exists_point
      have hrange :=
        h x (e.absY + e.height) ⟨hscreen.1, hscreen.2, h0, hlt⟩ ⟨hxnew.1, hxnew.2, hnew1, hnew2⟩
          ⟨hx.1, hx.2, hold, Int.le_refl _⟩
      exact absurd hrange.2.2.2 (Int.lt_irrefl _)
  · rintro ⟨hright, hbottom⟩ x y ⟨hx0, hx, hy0, hy⟩ hnew hold
    simp only [RightEdgeShows, BottomEdgeShows, EdgeShows, Meet, Element.getBoundingRectangle]
      at hright hbottom hold
    -- a point of the rectangle with its edges is on an edge or inside
    rcases Int.lt_or_eq_of_le hold.2.1 with hin | hedge
    · rcases Int.lt_or_eq_of_le hold.2.2.2 with hin' | hedge'
      · exact ⟨hold.1, hin, hold.2.2.1, hin'⟩
      · refine absurd ⟨⟨⟨?_, ?_⟩, ?_, ?_, ?_⟩, ?_⟩ hbottom <;> omega
    · refine absurd ⟨⟨⟨?_, ?_⟩, ?_, ?_, ?_⟩, ?_⟩ hright <;> omega

end TedkOS.Ui
