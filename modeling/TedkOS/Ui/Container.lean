/-
  Rectangles and the elements on the screen (ui/rectangle.cpp, inc/ui/container.h,
  inc/ui/drawable.h).

  Coordinates are `int32_t`, and their arithmetic wraps.  An element covers the points from its
  corner up to but not including the opposite one (`isPixelInRange`), while the comparisons of
  rectangles include both corners (`hasPoint`, `overlapsWith`).

  An element and its children are a tree.  Its classes differ here in what is drawable, in who gets
  a new child, and in who is moved.
-/
import TedkOS.Lib.TreeWalk

namespace TedkOS.Ui

open RoseTree

/-- `int32_t`. -/
abbrev int32_t := BitVec 32

def ScreenWidth : int32_t := 1024

def ScreenHeight : int32_t := 768

/-! ## Rectangles -/

structure Rectangle where
  x1 : int32_t
  y1 : int32_t
  x2 : int32_t
  y2 : int32_t
deriving DecidableEq

/-- `EmptyRectangle`. -/
def EmptyRectangle : Rectangle := ⟨-1000, -1000, -2000, -2000⟩

namespace Rectangle

/-- `BoundX` and `BoundY`, with the size of the screen. -/
def boundTo (size input : int32_t) : int32_t :=
  if input.toInt < 0 then 0 else if size.toInt < input.toInt then size else input

def BoundX (input : int32_t) : int32_t := boundTo ScreenWidth input

def BoundY (input : int32_t) : int32_t := boundTo ScreenHeight input

def bound (r : Rectangle) : Rectangle := ⟨BoundX r.x1, BoundY r.y1, BoundX r.x2, BoundY r.y2⟩

def hasPoint (r : Rectangle) (x y : int32_t) : Bool :=
  decide (r.x1.toInt ≤ x.toInt ∧ x.toInt ≤ r.x2.toInt ∧ r.y1.toInt ≤ y.toInt ∧ y.toInt ≤ r.y2.toInt)

def overlapsWith (r r2 : Rectangle) : Bool :=
  if r2.x2.toInt < r.x1.toInt ∨ r.x2.toInt < r2.x1.toInt then false
  else if r2.y2.toInt < r.y1.toInt ∨ r.y2.toInt < r2.y1.toInt then false
  else true

end Rectangle

/-! ## Elements -/

/-- The classes that differ in what is modelled: a window has its body, by its address. -/
inductive Class where
  | Container
  | Drawable
  | Desktop
  | Window (body : Nat)
  | TitleBar
deriving DecidableEq

/-- The members of an element but its children; `id` is its address. -/
structure Element where
  id : Nat
  cls : Class
  width : int32_t
  height : int32_t
  absX : int32_t
  absY : int32_t
  relX : int32_t
  relY : int32_t
  visible : Bool
  /-- What `pixelBuffer` has at an index. -/
  pixelBuffer : int32_t → BitVec 8

instance : Inhabited Element := ⟨⟨0, .Container, 0, 0, 0, 0, 0, 0, false, fun _ => 0⟩⟩

/-- An element with its children, which are elements with children again. -/
abbrev Container := RoseTree Element

namespace Element

/-- `Container(_width, _height, _x, _y)`, of the class and at the address that are given. -/
def construct (id : Nat) (cls : Class) (width height x y : int32_t)
    (pixelBuffer : int32_t → BitVec 8) : Element where
  id := id
  cls := cls
  width := width
  height := height
  absX := x
  absY := y
  relX := x
  relY := y
  visible := false
  pixelBuffer := pixelBuffer

def isDrawable (e : Element) : Bool :=
  match e.cls with
  | .Container => false
  | .Drawable => true
  | .Desktop => true
  | .Window _ => false
  | .TitleBar => true

def getBoundingRectangle (e : Element) : Rectangle :=
  ⟨e.absX, e.absY, e.absX + e.width, e.absY + e.height⟩

def isPixelInRange (e : Element) (tx ty : int32_t) : Bool :=
  if tx.toInt < e.absX.toInt then false
  else if (e.absX + e.width).toInt ≤ tx.toInt then false
  else if ty.toInt < e.absY.toInt then false
  else if (e.absY + e.height).toInt ≤ ty.toInt then false
  else true

/-- `getRed`, `getGreen`, `getBlue` and `getAlpha` are channels 0, 1, 2 and 3. -/
def getChannel (e : Element) (channel : Nat) (tx ty : int32_t) : BitVec 8 :=
  e.pixelBuffer ((ty * e.width + tx) * 4 + BitVec.ofNat 32 channel)

end Element

/-! ## Points -/

theorem Rectangle.hasPoint_iff {r : Rectangle} {x y : int32_t} : r.hasPoint x y = true ↔
    r.x1.toInt ≤ x.toInt ∧ x.toInt ≤ r.x2.toInt ∧ r.y1.toInt ≤ y.toInt ∧ y.toInt ≤ r.y2.toInt := by
  rw [hasPoint, decide_eq_true_iff]

theorem Element.isPixelInRange_iff {e : Element} {x y : int32_t} : e.isPixelInRange x y = true ↔
    e.absX.toInt ≤ x.toInt ∧ x.toInt < (e.absX + e.width).toInt ∧
      e.absY.toInt ≤ y.toInt ∧ y.toInt < (e.absY + e.height).toInt := by
  unfold isPixelInRange
  split
  · simp only [Bool.false_eq_true, false_iff]
    omega
  · split
    · simp only [Bool.false_eq_true, false_iff]
      omega
    · split
      · simp only [Bool.false_eq_true, false_iff]
        omega
      · split
        · simp only [Bool.false_eq_true, false_iff]
          omega
        · simp only [true_iff]
          omega

/-- A point of the screen. -/
def OnScreen (x y : int32_t) : Prop :=
  0 ≤ x.toInt ∧ x.toInt < ScreenWidth.toInt ∧ 0 ≤ y.toInt ∧ y.toInt < ScreenHeight.toInt

/-- Cutting an interval to the screen leaves its points on the screen. -/
theorem Rectangle.boundTo_iff {size a b x : int32_t} (h0 : 0 ≤ x.toInt)
    (hsize : x.toInt < size.toInt) :
    ((boundTo size a).toInt ≤ x.toInt ∧ x.toInt < (boundTo size b).toInt) ↔
    (a.toInt ≤ x.toInt ∧ x.toInt < b.toInt) := by
  have hzero : (0 : int32_t).toInt = 0 := rfl
  unfold boundTo
  split <;> split <;> (repeat' split) <;> omega

end TedkOS.Ui
