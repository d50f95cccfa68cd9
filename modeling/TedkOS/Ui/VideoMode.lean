/-
  What the video memory has in video mode (ui/compositor.cpp, ui/vbe.cpp).

  `drawSingle` copies its rectangle to the video memory, with what it left out as the difference,
  and `enterVideoMode` copies the whole screen.  Nothing else changes the build buffer, so the two
  do not come apart (`reach_mirrors`), however the draws overlap and whatever happens in between in
  text mode.

  The formats differ: of `RGBO` not even one draw copies all (`copiesRegion_iff`).
-/
import TedkOS.Ui.Screen

namespace TedkOS.Ui

open RoseTree Klibs Layers Runs

/-- In video mode, the video memory has every pixel of the screen as `put` would store it. -/
def Compositor.Mirrors (format : PixelFormat) (s : Compositor) : Prop :=
  s.video = true → ∀ p : Pixel, p.OnScreen →
    ShowsPixel format s.videoMemory s.buildBuffer (pixelAt p.1.toNat p.2.toNat)

section Mirrors

variable {alphaBlending : BitVec 8 → BitVec 8 → BitVec 8 → BitVec 8} {s s' : Compositor}
    {d : Container}
  {rect diff : Rectangle} {p : Pixel} {visited : List Element}

/-- A coordinate brought into the screen is not negative and not past the edge. -/
theorem toNat_boundTo {size input : int32_t} (h : 0 ≤ size.toInt) :
    0 ≤ (Rectangle.boundTo size input).toInt ∧
    (Rectangle.boundTo size input).toNat ≤ size.toNat := by
  have hzero : (0 : int32_t).toInt = 0 := rfl
  unfold Rectangle.boundTo
  split
  · exact ⟨Int.le_refl _, Nat.zero_le _⟩
  · split
    · exact ⟨h, Nat.le_refl _⟩
    · next h0 hle =>
      have hinput := toNat_of_nonneg (Int.not_lt.mp h0)
      have hsize := toNat_of_nonneg h
      exact ⟨Int.not_lt.mp h0, by omega⟩

/-- The rectangle that is copied. -/
def Rectangle.region (r : Rectangle) : Region where
  xfrom := r.bound.x1.toNat
  xto := r.bound.x2.toNat
  yfrom := r.bound.y1.toNat
  yto := r.bound.y2.toNat
  xto_le := (toNat_boundTo (by decide)).2
  yto_le := (toNat_boundTo (by decide)).2

/-- A draw comes to no pixel that it does not copy. -/
theorem region_of_mem_pixels (h : p ∈ pixels rect.bound diff) :
    rect.region.Has p.1.toNat p.2.toNat := by
  obtain ⟨⟨⟨hx1, hx2⟩, hy1, hy2⟩, -⟩ := mem_pixels.mp h
  obtain ⟨hpx, -, hpy, -⟩ := (onScreen_of_mem_pixels h).toNat
  have hbound : ∀ size input : int32_t, 0 ≤ size.toInt →
      ((Rectangle.boundTo size input).toNat : Int) = (Rectangle.boundTo size input).toInt :=
    fun size input hsize => toNat_of_nonneg (toNat_boundTo hsize).1
  have hx1' := hbound ScreenWidth rect.x1 (by decide)
  have hx2' := hbound ScreenWidth rect.x2 (by decide)
  have hy1' := hbound ScreenHeight rect.y1 (by decide)
  have hy2' := hbound ScreenHeight rect.y2 (by decide)
  simp only [Rectangle.bound, Rectangle.BoundX, Rectangle.BoundY] at hx1 hx2 hy1 hy2
  simp only [Region.Has, Rectangle.region, Rectangle.bound, Rectangle.BoundX, Rectangle.BoundY]
  omega

/-- A pixel that is as it was, in both memories. -/
theorem showsPixel_congr {vmem vmem' buildBuffer buildBuffer' : Nat → BitVec 8}
    (h : ShowsPixel .BGR vmem buildBuffer (pixelAt p.1.toNat p.2.toNat))
    (hcolour : colourAt buildBuffer' p = colourAt buildBuffer p)
    (hvmem : ∀ i, 3 * pixelAt p.1.toNat p.2.toNat ≤ i → i < 3 * pixelAt p.1.toNat p.2.toNat + 3 →
      vmem' i = vmem i) :
    ShowsPixel .BGR vmem' buildBuffer' (pixelAt p.1.toNat p.2.toNat) := by
  -- the three stores of the pixel have the same values, and they are read where nothing changed
  obtain ⟨hred, hgreen, hblue⟩ := Colour.mk.inj hcolour
  intro store hstore
  have hstore' :
      store ∈ putAt 3 (pixelAt p.1.toNat p.2.toNat) (buildBuffer (3 * pixelAt p.1.toNat p.2.toNat))
      (buildBuffer (3 * pixelAt p.1.toNat p.2.toNat + 1))
        (buildBuffer (3 * pixelAt p.1.toNat p.2.toNat + 2)) := by
    rw [← hgreen, ← hblue, ← Nat.add_zero (3 * pixelAt p.1.toNat p.2.toNat), ← hred]
    exact hstore
  rw [hvmem store.1 ?_ ?_]
  · exact h store hstore'
  all_goals
    simp only [putAt, List.mem_cons, List.not_mem_nil, or_false] at hstore'
    rcases hstore' with rfl | rfl | rfl <;> dsimp only <;> omega

/-- **A draw** keeps the video memory like the build buffer. -/
theorem drawSingle_mirrors (hmirrors : s.Mirrors .BGR) (hbgr : s.drawHelper = HelpBGR)
    (h : s.drawSingle alphaBlending d rect diff = some (visited, s')) :
    s'.Mirrors .BGR ∧ s'.drawHelper = HelpBGR := by
  obtain ⟨visited', s₁, hdraw, -, hpaints⟩ := drawSingle_paints alphaBlending s d rect diff
  rw [hdraw] at h
  obtain ⟨-, rfl⟩ := Prod.mk.inj (Option.some.inj h)
  obtain ⟨⟨visited₂, buildBuffer⟩, -, heq⟩ := Option.map_eq_some_iff.mp hdraw
  obtain ⟨-, rfl⟩ := Prod.mk.inj heq
  refine ⟨fun hvideo p hp => ?_, hbgr⟩
  have hvideo : s.video = true := hvideo
  have hmemory :
      (if s.video then
      contents s.videoMemory (s.drawHelper.copyRegion buildBuffer rect.bound.x1.toNat
      rect.bound.x2.toNat rect.bound.y1.toNat rect.bound.y2.toNat) else s.videoMemory) =
        contents s.videoMemory (PixelFormat.BGR.copyRegion buildBuffer rect.region) := by
    rw [if_pos hvideo, hbgr]
    rfl
  show ShowsPixel .BGR (if s.video then _ else _) buildBuffer _
  rw [hmemory]
  -- a pixel of the rectangle is copied now; any other one keeps its colour and its bytes
  by_cases hin : rect.region.Has p.1.toNat p.2.toNat
  · exact copiesRegion_BGR.shows s.videoMemory _ _ hin
  · refine showsPixel_congr (hmirrors hvideo p hp)
      ((hpaints p hp).2 fun hmem => hin (region_of_mem_pixels hmem))
      fun i hle hlt => copiesRegion_BGR.outside s.videoMemory i ?_
    rintro ⟨x, y, hhas, hle', hlt'⟩
    have hle' : 3 * pixelAt x y ≤ i := hle'
    have hlt' : i < 3 * pixelAt x y + 3 := hlt'
    -- a byte belongs to one pixel
    have hx := Nat.lt_of_lt_of_le hhas.1.2 rect.region.xto_le
    obtain ⟨-, hpx, -, -⟩ := hp.toNat
    have hwidth : ScreenWidth.toNat = 1024 := rfl
    simp only [pixelAt, hwidth] at hle hlt hle' hlt' hx
    obtain rfl : x = p.1.toNat := by omega
    obtain rfl : y = p.2.toNat := by omega
    exact hin hhas

/-- Entering video mode copies the whole screen, so it does not matter what the memory had
    before. -/
theorem enterVideoMode_mirrors (hmirrors : s.Mirrors .BGR) (hbgr : s.drawHelper = HelpBGR) :
    s.enterVideoMode.Mirrors .BGR ∧ s.enterVideoMode.drawHelper = HelpBGR := by
  rw [Compositor.enterVideoMode]
  split
  · exact ⟨hmirrors, hbgr⟩
  · refine ⟨fun _ p hp => ?_, hbgr⟩
    obtain ⟨-, hx, -, hy⟩ := hp.toNat
    have hscreen : s.drawHelper.copyRegion s.buildBuffer 0 ScreenWidth.toNat 0 ScreenHeight.toNat =
        PixelFormat.BGR.copyRegion s.buildBuffer Region.screen := by
      rw [hbgr]
      rfl
    show ShowsPixel .BGR
      (contents _ (s.drawHelper.copyRegion s.buildBuffer 0 ScreenWidth.toNat 0 ScreenHeight.toNat))
      _ _
    rw [hscreen]
    exact copiesRegion_BGR.shows _ _ _ ⟨⟨Nat.zero_le _, hx⟩, Nat.zero_le _, hy⟩

end Mirrors

section Runs

variable {alphaBlending : BitVec 8 → BitVec 8 → BitVec 8 → BitVec 8} {s s' : Screen}
    {rect : Rectangle}

/-- A rectangle drawn again with nothing left out. -/
theorem redraw_mirrors (h : s.redraw alphaBlending rect = some s')
    (hmirrors : s.compositor.Mirrors .BGR) (hbgr : s.compositor.drawHelper = HelpBGR) :
    s'.compositor.Mirrors .BGR ∧ s'.compositor.drawHelper = HelpBGR := by
  obtain ⟨⟨visited, comp⟩, hdraw, rfl⟩ := Option.map_eq_some_iff.mp h
  exact drawSingle_mirrors hmirrors hbgr hdraw

/-- **One call** keeps the video memory like the build buffer. -/
theorem exec_mirrors {call : ScreenCall} (h : s.exec alphaBlending call = some s')
    (hmirrors : s.compositor.Mirrors .BGR) (hbgr : s.compositor.drawHelper = HelpBGR) :
    s'.compositor.Mirrors .BGR ∧ s'.compositor.drawHelper = HelpBGR := by
  cases call with
  | redraw rect => exact redraw_mirrors h hmirrors hbgr
  | showElement path =>
    obtain ⟨x, -, h⟩ := Option.bind_eq_some_iff.mp h
    exact redraw_mirrors h hmirrors hbgr
  | hideElement path =>
    obtain ⟨x, -, h⟩ := Option.bind_eq_some_iff.mp h
    exact redraw_mirrors h hmirrors hbgr
  | addChild path d =>
    obtain ⟨x, -, h⟩ := Option.bind_eq_some_iff.mp h
    obtain ⟨⟨C, t⟩, -, h⟩ := Option.bind_eq_some_iff.mp h
    dsimp only at h
    split at h
    · obtain rfl := Option.some.inj h
      exact ⟨hmirrors, hbgr⟩
    · obtain ⟨⟨visited, comp⟩, hdraw, rfl⟩ := Option.map_eq_some_iff.mp h
      exact drawSingle_mirrors hmirrors hbgr hdraw
  | updateLocation path newX newY =>
    obtain ⟨x, -, h⟩ := Option.bind_eq_some_iff.mp h
    obtain ⟨y, -, h⟩ := Option.bind_eq_some_iff.mp h
    -- a move draws twice: the old place, and then the new one without it
    obtain ⟨s₁, hredraw, h⟩ := Option.bind_eq_some_iff.mp h
    obtain ⟨⟨visited, comp⟩, hdraw, rfl⟩ := Option.map_eq_some_iff.mp h
    obtain ⟨hmirrors₁, hbgr₁⟩ := redraw_mirrors hredraw hmirrors hbgr
    exact drawSingle_mirrors hmirrors₁ hbgr₁ hdraw
  | enterVideoMode =>
    obtain rfl := Option.some.inj h
    exact enterVideoMode_mirrors hmirrors hbgr
  | enterTextMode =>
    obtain rfl := Option.some.inj h
    exact ⟨fun hvideo => Bool.noConfusion hvideo, hbgr⟩

end Runs

/-- **In every run** from text mode, with a screen in BGR, the video memory has what the build
    buffer has whenever the screen is in video mode. -/
theorem reach_mirrors {alphaBlending : BitVec 8 → BitVec 8 → BitVec 8 → BitVec 8} {s₀ s : Screen}
    (htext : s₀.compositor.video = false) (hbgr : s₀.compositor.drawHelper = HelpBGR)
    (h : Reach ((Screen.machine alphaBlending).startedIn s₀) (fun _ _ => True) s) :
    s.compositor.Mirrors .BGR := by
  refine And.left (h.invariant
    (I := fun s => s.compositor.Mirrors .BGR ∧ s.compositor.drawHelper = HelpBGR) ?_ ?_)
  · rintro s rfl
    exact ⟨fun hvideo => Bool.noConfusion (htext.symm.trans hvideo), hbgr⟩
  · exact fun s call s' hs _ hstep => exec_mirrors hstep hs.1 hs.2

/-- A desktop that is shown, and then video mode. -/
theorem reach_mirrors_desktop :
    ∃ s : Screen, s.compositor.video = true ∧ s.rootContainer.label.visible = true ∧
    s.compositor.Mirrors .BGR := by
  let comp : Compositor := ⟨fun _ => 0, fun _ => 0, false, HelpBGR⟩
  let mouse := Element.construct 1 .Drawable 30 44 512 384 fun _ => 255
  obtain ⟨comp₁, h₁⟩ := @redraw_isSome opaqueBlending ⟨whiteDesktop true mouse, comp⟩
    (whiteDesktop true mouse).label.getBoundingRectangle
  have hshow : Screen.exec opaqueBlending ⟨whiteDesktop false mouse, comp⟩ (.showElement []) =
      some ⟨whiteDesktop true mouse, comp₁⟩ :=
    (changeVisible_eq (C := []) (t := whiteDesktop false mouse) rfl).trans h₁
  have hmirrors : comp₁.enterVideoMode.Mirrors .BGR :=
    @reach_mirrors opaqueBlending _ ⟨whiteDesktop true mouse, comp₁.enterVideoMode⟩ rfl rfl
      (.step (a := .enterVideoMode) (.step (.init rfl) trivial hshow) trivial rfl)
  refine ⟨⟨whiteDesktop true mouse, comp₁.enterVideoMode⟩, ?_, rfl, hmirrors⟩
  show comp₁.enterVideoMode.video = true
  rw [Compositor.enterVideoMode]
  split
  · next hvideo => exact hvideo
  · rfl

end TedkOS.Ui
