/-
  What is to be seen on the screen (ui/compositor.cpp).

  A draw blends its elements over the build buffer, one after the other and all over its rectangle.
  So a pixel has the colour of layers that lie over each other (`Layers.paint`).

  1. **A draw** — `drawSingle` changes exactly the pixels of its rectangle that are on the screen
     and not in the difference, and paints on each of them, in the order of the walk, the drawables
     that it visits (`drawSingle_paints`).

  2. **The picture** — what a tree of elements looks like: its drawables that are visible with all
     their ancestors, parents below children and earlier siblings below later ones.

  3. **Correctness** — a draw of a rectangle shows the picture there, as far as every element lies
     within its parent, although it passes over what is below an element that does not reach into
     the rectangle (`drawSingle_picture`).
-/
import TedkOS.Lib.Layers
import TedkOS.Ui.Moves

namespace TedkOS.Ui

open RoseTree Klibs Layers

/-! ## A draw

  From the loops over rows and columns to one statement about each pixel.  A pixel occurs once in
  the loops, so nothing is blended twice; and a store changes the pixel it is for, so the pixels
  can be looked at one by one. -/

/-- What the build buffer has of a pixel. -/
structure Colour where
  red : BitVec 8
  green : BitVec 8
  blue : BitVec 8

/-- A column and a line. -/
abbrev Pixel := int32_t × int32_t

def Pixel.OnScreen (p : Pixel) : Prop := Ui.OnScreen p.1 p.2

/-- What the build buffer has for a pixel. -/
def colourAt (buildBuffer : Nat → BitVec 8) (p : Pixel) : Colour :=
  let i := 3 * pixelAt p.1.toNat p.2.toNat
  ⟨buildBuffer (i + 0), buildBuffer (i + 1), buildBuffer (i + 2)⟩

/-- The colour of a pixel when the element is drawn over it. -/
def Element.over (alphaBlending : BitVec 8 → BitVec 8 → BitVec 8 → BitVec 8) (e : Element)
    (p : Pixel) (c : Colour) :
    Colour :=
  let channel := fun z => e.getChannel z (p.1 - e.absX) (p.2 - e.absY)
  if e.isPixelInRange p.1 p.2 then
    ⟨alphaBlending c.red (channel 0) (channel 3), alphaBlending c.green (channel 1) (channel 3),
      alphaBlending c.blue (channel 2) (channel 3)⟩
  else c

section Pixels

variable {a b : int32_t} {rect diff : Rectangle} {p q : Pixel}

theorem toNat_of_nonneg {x : int32_t} (h : 0 ≤ x.toInt) : (x.toNat : Int) = x.toInt := by
  have hlt := x.isLt
  rw [BitVec.toInt_eq_toNat_cond] at h ⊢
  split
  · rfl
  · next hge =>
    rw [if_neg hge] at h
    omega

/-- A pixel of the screen, by its column and line in the build buffer. -/
theorem Pixel.OnScreen.toNat (hp : p.OnScreen) : (p.1.toNat : Int) = p.1.toInt ∧ p.1.toNat < 1024 ∧
    (p.2.toNat : Int) = p.2.toInt ∧ p.2.toNat < 768 := by
  obtain ⟨hx0, hx, hy0, hy⟩ := hp
  have hwidth : ScreenWidth.toInt = 1024 := rfl
  have hheight : ScreenHeight.toInt = 768 := rfl
  have htoX := toNat_of_nonneg hx0
  have htoY := toNat_of_nonneg hy0
  exact ⟨htoX, by omega, htoY, by omega⟩

/-- Two pixels of the screen do not share a place. -/
theorem Pixel.OnScreen.ext (hp : p.OnScreen) (hq : q.OnScreen)
    (h : pixelAt p.1.toNat p.2.toNat = pixelAt q.1.toNat q.2.toNat) : p = q := by
  obtain ⟨-, hx, -, hy⟩ := hp.toNat
  obtain ⟨-, hx', -, hy'⟩ := hq.toNat
  have hwidth : ScreenWidth.toNat = 1024 := rfl
  rw [pixelAt, pixelAt, hwidth] at h
  exact Prod.ext (BitVec.eq_of_toNat_eq (by omega)) (BitVec.eq_of_toNat_eq (by omega))

/-- The loops count up, so that they come to no coordinate twice. -/
theorem nodup_upTo : (upTo a b).Nodup := by
  refine List.nodup_range.map_on fun i hi j hj heq => ?_
  have hi := List.mem_range.mp hi
  have hj := List.mem_range.mp hj
  have htoInt := congrArg BitVec.toInt heq
  rw [toInt_add_ofNat (b := b) (by omega), toInt_add_ofNat (b := b) (by omega)] at htoInt
  omega

/-- A draw comes to a pixel once. -/
theorem nodup_pixels : (pixels rect diff).Nodup := by
  refine List.nodup_flatMap.mpr ⟨fun y _ => ?_, nodup_upTo.imp fun hne => ?_⟩
  · exact (nodup_upTo.filter _).map fun x x' heq => (Prod.mk.inj heq).1
  · intro p hp hp'
    obtain ⟨x, -, rfl⟩ := List.mem_map.mp hp
    obtain ⟨x', -, heq⟩ := List.mem_map.mp hp'
    exact hne (Prod.mk.inj heq).2.symm

/-- The pixels of a draw are on the screen. -/
theorem onScreen_of_mem_pixels (h : p ∈ pixels rect.bound diff) : p.OnScreen := by
  obtain ⟨⟨⟨hx1, hx2⟩, hy1, hy2⟩, -⟩ := mem_pixels.mp h
  have hbound : ∀ size input : int32_t, 0 ≤ size.toInt →
      0 ≤ (Rectangle.boundTo size input).toInt ∧
      (Rectangle.boundTo size input).toInt ≤ size.toInt := by
    intro size input hsize
    have hzero : (0 : int32_t).toInt = 0 := rfl
    unfold Rectangle.boundTo
    split
    · omega
    · split
      · omega
      · omega
  have hwidth := hbound ScreenWidth
  have hheight := hbound ScreenHeight
  exact ⟨Int.le_trans (hwidth rect.x1 (by decide)).1 hx1,
    Int.lt_of_lt_of_le hx2 (hwidth rect.x2 (by decide)).2,
    Int.le_trans (hheight rect.y1 (by decide)).1 hy1,
    Int.lt_of_lt_of_le hy2 (hheight rect.y2 (by decide)).2⟩

end Pixels

section Draw

variable {alphaBlending : BitVec 8 → BitVec 8 → BitVec 8 → BitVec 8} {rect diff : Rectangle}
    {e : Element} {p q : Pixel}

/-- The colours of the pixels have changed by `f`, and those of the others of the screen have
    not. -/
abbrev Recolours : List Pixel → (Pixel → Colour → Colour) → (Nat → BitVec 8) →
    (Nat → BitVec 8) → Prop :=
  Changes colourAt Pixel.OnScreen

/-- **One round** changes one pixel. -/
theorem drawPixel_recolours (buildBuffer : Nat → BitVec 8) (hp : p.OnScreen) :
    Recolours [p] (e.over alphaBlending) buildBuffer
      (drawPixel alphaBlending e buildBuffer p.1 p.2) := by
  intro q hq
  constructor
  · intro heq
    rw [List.mem_singleton.mp heq]
    cases hrange : e.isPixelInRange p.1 p.2 with
    | true => simp [colourAt, drawPixel, contents, Element.over, hrange]
    | false => simp [colourAt, drawPixel, contents, Element.over, hrange]
  · intro hne
    have hplace : pixelAt p.1.toNat p.2.toNat ≠ pixelAt q.1.toNat q.2.toNat :=
      fun heq => hne (List.mem_singleton.mpr (hp.ext hq heq).symm)
    have hbyte : ∀ z, z < 3 →
        drawPixel alphaBlending e buildBuffer p.1 p.2 (3 * pixelAt q.1.toNat q.2.toNat + z) =
        buildBuffer (3 * pixelAt q.1.toNat q.2.toNat + z) := by
      intro z hz
      refine contents_of_not_mem fun s hs heq => hplace ?_
      simp only [List.mem_cons, List.not_mem_nil, or_false] at hs
      rcases hs with rfl | rfl | rfl
      · omega
      · omega
      · omega
    simp only [colourAt, hbyte 0 (by omega), hbyte 1 (by omega), hbyte 2 (by omega)]

/-- **The loops over the pixels** draw an element once over each of them. -/
theorem drawPixels_recolours (buildBuffer : Nat → BitVec 8) :
    Recolours (pixels rect.bound diff) (e.over alphaBlending) buildBuffer
      (drawPixels alphaBlending rect.bound diff e buildBuffer) :=
  changes_points (fun buildBuffer _ hp => drawPixel_recolours buildBuffer hp) nodup_pixels
    (fun _ => onScreen_of_mem_pixels) buildBuffer

/-- Of the elements a walk visits, those are drawn that show in the rectangle and are drawable. -/
theorem drawAll_eq (es : List Element) (buildBuffer : Nat → BitVec 8) :
    drawAll alphaBlending rect diff es buildBuffer =
      (es.filter fun e => e.shows rect && e.isDrawable).foldl
      (fun buildBuffer e => drawPixels alphaBlending rect diff e buildBuffer) buildBuffer := by
  induction es generalizing buildBuffer with
  | nil => rfl
  | cons e es ih =>
    rw [drawAll, ih, List.filter_cons]
    split
    · rfl
    · rfl

/-- **A draw paints what it visits**, in order, on its pixels, and no other pixel of the screen
    changes. -/
theorem drawSingle_paints (alphaBlending : BitVec 8 → BitVec 8 → BitVec 8 → BitVec 8)
    (s : Compositor) (d : Container) (rect diff : Rectangle) :
    ∃ visited s', s.drawSingle alphaBlending d rect diff = some (visited, s') ∧
      visited = visits (Element.shows rect.bound) 20 0 d ∧
      Recolours (pixels rect.bound diff)
        (paint (Element.over alphaBlending)
          (visited.filter fun e => e.shows rect.bound && e.isDrawable))
        s.buildBuffer s'.buildBuffer := by
  have hwalk : walk (Element.shows rect.bound) 20 d.size [d] =
      some (visitsStack (Element.shows rect.bound) 20 [d]) :=
    walk_eq_visits (Nat.succ_le_succ (Nat.zero_le 19)) (Nat.le_of_eq (Nat.add_zero _))
  rw [Compositor.drawSingle, drawLoop_eq, TreeIterator.pending_new, hwalk]
  refine ⟨_, _, rfl, ?_, ?_⟩
  · exact (List.nil_append _).trans (List.append_nil _)
  · rw [drawAll_eq]
    exact changes_layers (fun buildBuffer e => drawPixels_recolours buildBuffer) _ _

end Draw

/-! ## The picture

  The specification: painting everything that is visible, from the bottom up, without asking
  where it lies. -/

/-- The drawables that are visible with all their ancestors, from the lowest to the highest. -/
def drawn (d : Container) : List Element :=
  (preorder Element.visible d).filter fun e => e.visible && e.isDrawable

/-- What the elements make of the colours of the screen. -/
def picture (alphaBlending : BitVec 8 → BitVec 8 → BitVec 8 → BitVec 8) (d : Container) :
    Pixel → Colour → Colour :=
  paint (Element.over alphaBlending) (drawn d)

/-- An element has the pixel only if its parent has it. -/
def NestedAt (p : Pixel) (d : Container) : Prop :=
  Edges (fun parent e => e.isPixelInRange p.1 p.2 = true → parent.isPixelInRange p.1 p.2 = true) d

/-- Every element lies within its parent, as far as that is on the screen. -/
def Nested (d : Container) : Prop := ∀ p : Pixel, p.OnScreen → NestedAt p d

/-! ## Correctness

  The draw leaves out what does not overlap with its rectangle, and all below it.  In a nested
  tree what is below lies within what was left out, so it would not have painted a pixel of the
  rectangle (`drawn_inRange`). -/

section Correctness

variable {alphaBlending : BitVec 8 → BitVec 8 → BitVec 8 → BitVec 8} {rect diff : Rectangle}
    {e : Element} {p : Pixel}
  {d : Container} {c : Colour}

/-- An element does not paint outside its rectangle. -/
theorem over_of_not_inRange (h : e.isPixelInRange p.1 p.2 = false) :
    e.over alphaBlending p c = c := by
  rw [Element.over, h]
  exact if_neg Bool.false_ne_true

/-- Only the elements that have the pixel matter for its colour. -/
theorem paint_inRange (es : List Element) :
    paint (Element.over alphaBlending) (es.filter fun e => e.isPixelInRange p.1 p.2) p c =
      paint (Element.over alphaBlending) es p c :=
  paint_filter (fun _ _ hout _ => over_of_not_inRange hout) c

/-- Two rectangles overlap if both their intervals do, the ends included. -/
theorem overlapsWith_iff {r r2 : Rectangle} : r.overlapsWith r2 = true ↔
    (r.x1.toInt ≤ r2.x2.toInt ∧ r2.x1.toInt ≤ r.x2.toInt) ∧ r.y1.toInt ≤ r2.y2.toInt ∧
    r2.y1.toInt ≤ r.y2.toInt := by
  unfold Rectangle.overlapsWith
  split
  · simp only [Bool.false_eq_true, false_iff]
    omega
  · split
    · simp only [Bool.false_eq_true, false_iff]
      omega
    · simp only [true_iff]
      omega

/-- An element that has a pixel of a rectangle overlaps it. -/
theorem shows_of_inRange (hp : p ∈ pixels rect diff) (h : e.isPixelInRange p.1 p.2 = true) :
    e.shows rect = e.visible := by
  have hoverlaps : e.getBoundingRectangle.overlapsWith rect = true := by
    obtain ⟨⟨⟨hx1, hx2⟩, hy1, hy2⟩, -⟩ := mem_pixels.mp hp
    obtain ⟨hex1, hex2, hey1, hey2⟩ := Element.isPixelInRange_iff.mp h
    refine overlapsWith_iff.mpr ⟨⟨?_, ?_⟩, ?_, ?_⟩
    · exact Int.le_of_lt (Int.lt_of_le_of_lt hex1 hx2)
    · exact Int.le_of_lt (Int.lt_of_le_of_lt hx1 hex2)
    · exact Int.le_of_lt (Int.lt_of_le_of_lt hey1 hy2)
    · exact Int.le_of_lt (Int.lt_of_le_of_lt hy1 hey2)
  rw [Element.shows, hoverlaps, Bool.and_true]

/-- **The elements that have a pixel** are the same for a draw and in the picture. -/
theorem drawn_inRange (hp : p ∈ pixels rect.bound diff) (hcrowd : Uncrowded rect d)
    (hnested : Nested d) :
    ((visits (Element.shows rect.bound) 20 0 d).filter
        fun e => e.shows rect.bound && e.isDrawable).filter
        (fun e => e.isPixelInRange p.1 p.2) =
      (drawn d).filter fun e => e.isPixelInRange p.1 p.2 := by
  have hvisible : (visits (Element.shows rect.bound) 20 0 d).filter Element.visible =
      (preorder (Element.shows rect.bound) d).filter Element.visible :=
    (filter_visits_iff visible_of_shows 0 d).mpr hcrowd
  have henter : (preorder (Element.shows rect.bound) d).filter (fun e => e.isPixelInRange p.1 p.2) =
      (preorder Element.visible d).filter fun e => e.isPixelInRange p.1 p.2 :=
    filter_preorder_congr (fun _ => shows_of_inRange hp) d (hnested p (onScreen_of_mem_pixels hp))
  calc ((visits (Element.shows rect.bound) 20 0 d).filter
        fun e => e.shows rect.bound && e.isDrawable).filter
        (fun e => e.isPixelInRange p.1 p.2)
      = ((visits (Element.shows rect.bound) 20 0 d).filter Element.visible).filter
          (fun e => e.isDrawable && e.isPixelInRange p.1 p.2) := by
        simp only [List.filter_filter]
        refine List.filter_congr fun e _ => ?_
        cases hrange : e.isPixelInRange p.1 p.2 with
        | false => simp
        | true => rw [shows_of_inRange hp hrange, Bool.and_comm e.visible]; simp
    _ = (((preorder (Element.shows rect.bound) d).filter fun e => e.isPixelInRange p.1 p.2).filter
        Element.visible).filter
          Element.isDrawable := by
        rw [hvisible]
        simp only [List.filter_filter]
        refine List.filter_congr fun e _ => ?_
        cases e.visible <;> simp
    _ = (drawn d).filter fun e => e.isPixelInRange p.1 p.2 := by
        rw [henter, drawn]
        simp only [List.filter_filter]
        refine List.filter_congr fun e _ => ?_
        cases e.visible <;> cases e.isDrawable <;> simp

/-- **A draw shows the picture** on its pixels, and leaves the others of the screen as they are. -/
theorem drawSingle_picture (s : Compositor) (hcrowd : Uncrowded rect d) (hnested : Nested d) :
    ∃ visited s', s.drawSingle alphaBlending d rect diff = some (visited, s') ∧
      Recolours (pixels rect.bound diff) (picture alphaBlending d) s.buildBuffer
        s'.buildBuffer := by
  obtain ⟨visited, s', hdraw, rfl, hpaints⟩ := drawSingle_paints alphaBlending s d rect diff
  refine ⟨_, s', hdraw, fun p hp => ⟨fun hmem => ?_, (hpaints p hp).2⟩⟩
  rw [(hpaints p hp).1 hmem, picture, ← paint_inRange, drawn_inRange hmem hcrowd hnested,
    paint_inRange]

end Correctness

/-- A white desktop with its mouse. -/
def whiteDesktop (visible : Bool) (mouse : Element) : Container :=
  .node { Element.construct 0 .Desktop ScreenWidth ScreenHeight 0 0 (fun _ => 255) with
    visible := visible }
    [.node mouse []]

theorem nested_whiteDesktop (visible : Bool) (mouse : Element) :
    Nested (whiteDesktop visible mouse) := by
  intro p hp
  refine edges_node.mpr fun c hc => ?_
  rw [List.mem_singleton.mp hc]
  refine ⟨fun _ => Element.isPixelInRange_iff.mpr ?_,
    edges_node.mpr fun _ hc => absurd hc List.not_mem_nil⟩
  obtain ⟨hx0, hx, hy0, hy⟩ := hp
  exact ⟨hx0, hx, hy0, hy⟩

end TedkOS.Ui
