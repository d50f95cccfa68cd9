/-
  The screen over a run of the user interface (ui/compositor.cpp, inc/ui/container.h,
  ui/desktop.cpp, ui/window.cpp).

  There is one tree of elements, below `rootContainer`.  Whoever changes it also calls for a draw,
  of the part of the screen that it thinks has changed.

  1. **Program** — `show`, `hide`, `addChild`, `updateLocation` and `redraw` of an element that is
     given by its path, `enterVideoMode` and `enterTextMode`.

  2. **A change of one element** — the picture changes at the pixels of the element only, before or
     after (`picture_plug`), so a draw of its rectangle is enough.

  3. **A move** — `moved_colours` says what every pixel of the screen shows after a move, if it
     showed the picture before.

  4. **Runs** — the screen shows the picture after every call (`reach_shows`), and in video mode the
     video memory has it (`reach_mirrors`).

  What is kept is that the build buffer shows the picture: every pixel has the colour that
  painting the whole tree would give it, whatever was there before, since some element is opaque
  all over the screen (`Sound`).  A draw brings the pixels of its rectangle to the picture of the
  tree as it is then.  So after a change it is enough to draw where the picture has changed; for
  `updateLocation`, whose second draw leaves out the old place, the two draws together have to
  come to all of it (`MovesWell`).
-/
import TedkOS.Lib.TreeContext
import TedkOS.Ui.Painting

namespace TedkOS.Ui

open RoseTree Klibs Layers Runs

/-! ## Program -/

/-- `rootContainer`, and the compositor. -/
structure Screen where
  /-- The tree, with the desktop and the windows. -/
  rootContainer : Container
  /-- The build buffer, and the video memory. -/
  compositor : Compositor

/-- The element that moves: `TitleBar::updateLocation` passes the call to the parent. -/
def passUp : Context Element → Container → Option (Context Element × Container)
  | [], t => if t.label.cls = .TitleBar then none else some ([], t)
  | f :: C, t => if t.label.cls = .TitleBar then passUp C (f.fill t) else some (f :: C, t)

/-- The element that gets a child: `Window::addChild` calls that of its body. -/
def passDown (C : Context Element) (t : Container) : Option (Context Element × Container) :=
  match t.label.cls with
  | .Window body => (t.children.findIdx? fun c => c.label.id == body).bind fun i => locate [i] C t
  | _ => some (C, t)

/-- What the user interface asks for; an element is given by its path from the root. -/
inductive ScreenCall where
  | redraw (_rect : Rectangle)
  | showElement (path : List Nat)
  | hideElement (path : List Nat)
  | addChild (path : List Nat) (d : Container)
  | updateLocation (path : List Nat) (newX newY : int32_t)
  | enterVideoMode
  | enterTextMode

namespace Compositor

/-- `enterVideoMode()`, but for the change of the mode. -/
def enterVideoMode (s : Compositor) : Compositor :=
  if s.video then s
  else
    { s with
      video := true
      videoMemory := contents (contents s.videoMemory (s.drawHelper.cls 0))
        (s.drawHelper.copyRegion s.buildBuffer 0 ScreenWidth.toNat 0 ScreenHeight.toNat) }

/-- `enterTextMode`: the video memory is no longer copied to. -/
def enterTextMode (s : Compositor) : Compositor := { s with video := false }

end Compositor

namespace Screen

section Program

variable (alphaBlending : BitVec 8 → BitVec 8 → BitVec 8 → BitVec 8)

/-- `redraw(_rect)`. -/
def redraw (s : Screen) (_rect : Rectangle) : Option Screen :=
  (s.compositor.drawSingle alphaBlending s.rootContainer _rect EmptyRectangle).map fun (_, c) =>
    ⟨s.rootContainer, c⟩

/-- `show()` and `hide()`. -/
def changeVisible (s : Screen) (path : List Nat) (visible : Bool) : Option Screen := do
  let (C, t) ← locate path [] s.rootContainer
  let t := setVisible visible t
  redraw alphaBlending ⟨plug C t, s.compositor⟩ t.label.getBoundingRectangle

/-- `addChild(d)`: only `Container::addChild` draws. -/
def addChild (s : Screen) (path : List Nat) (d : Container) : Option Screen := do
  let (C, t) ← locate path [] s.rootContainer
  let (C, t) ← passDown C t
  let root := plug C (Ui.addChild d t)
  match t.label.cls with
  | .Desktop => some ⟨root, s.compositor⟩
  | _ =>
    let d := setParent t.label d
    (s.compositor.drawSingle alphaBlending d d.label.getBoundingRectangle EmptyRectangle).map
      fun (_, c) => ⟨root, c⟩

/-- `updateLocation(newX, newY)`. -/
def updateLocation (s : Screen) (path : List Nat) (newX newY : int32_t) : Option Screen := do
  let (C, t) ← locate path [] s.rootContainer
  let (C, t) ← passUp C t
  let oldRectangle := t.label.getBoundingRectangle
  let t := Ui.updateLocation newX newY t
  let s ← redraw alphaBlending ⟨plug C t, s.compositor⟩ oldRectangle
  (s.compositor.drawSingle alphaBlending t t.label.getBoundingRectangle oldRectangle).map
    fun (_, c) =>
    ⟨s.rootContainer, c⟩

/-- A call, if its path leads to an element and the draws come to their end. -/
def exec (s : Screen) : ScreenCall → Option Screen
  | .redraw _rect => s.redraw alphaBlending _rect
  | .showElement path => s.changeVisible alphaBlending path true
  | .hideElement path => s.changeVisible alphaBlending path false
  | .addChild path d => s.addChild alphaBlending path d
  | .updateLocation path newX newY => s.updateLocation alphaBlending path newX newY
  | .enterVideoMode => some ⟨s.rootContainer, s.compositor.enterVideoMode⟩
  | .enterTextMode => some ⟨s.rootContainer, s.compositor.enterTextMode⟩

end Program

end Screen

/-! ## A change of one element

  An element that is somewhere else, or hidden, changes what is drawn of it and of what is below
  it: all inside its rectangle, since the tree is nested.  The elements before it in the painting
  order are under it and those behind it cover it, and both are what they were (`drawn_plug`). -/

section Plug

variable {alphaBlending : BitVec 8 → BitVec 8 → BitVec 8 → BitVec 8} {C : Context Element}
    {t t' : Container}
  {e : Element} {p : Pixel} {c : Colour}

/-- The drawables that lie below what is in the hole. -/
def drawnBelow (C : Context Element) : List Element :=
  (Context.lower Element.visible C).filter fun e => e.visible && e.isDrawable

/-- The drawables that lie above what is in the hole. -/
def drawnAbove (C : Context Element) : List Element :=
  (Context.upper Element.visible C).filter fun e => e.visible && e.isDrawable

/-- All the ancestors are visible. -/
def Seen (C : Context Element) : Prop := Context.enters Element.visible C = true

/-- What is drawn: what is below the place, what is there if all its ancestors are visible, and
    what is above. -/
theorem drawn_plug : drawn (plug C t) =
    drawnBelow C ++ (if Context.enters Element.visible C then drawn t else []) ++ drawnAbove C := by
  rw [drawn, preorder_plug, List.filter_append, List.filter_append, drawnBelow, drawnAbove]
  split
  · rfl
  · rfl

/-- What is not visible is not drawn, nor what is below it. -/
theorem drawn_hidden (h : t.label.visible = false) : drawn t = [] := by
  obtain ⟨e, children⟩ := t
  have h : e.visible = false := h
  simp [drawn, preorder, h]

/-- A tree does not change a pixel that its root does not have. -/
theorem picture_outside (hp : p.OnScreen) (hnested : Nested t)
    (h : t.label.isPixelInRange p.1 p.2 = false) :
    picture alphaBlending t p c = c := by
  refine paint_of_none (fun e he c => over_of_not_inRange ?_) c
  have hnone : (preorder Element.visible t).filter (fun e => e.isPixelInRange p.1 p.2) = [] :=
    filter_preorder_of_edges t (hnested p hp) h
  exact Bool.eq_false_iff.mpr (List.filter_eq_nil_iff.mp hnone e (List.mem_of_mem_filter he))

/-- **The picture of a tree in a context**: what is in the hole goes on what is below it. -/
theorem picture_plug : picture alphaBlending (plug C t) p c =
    paint (Element.over alphaBlending) (drawnAbove C) p
      (if Context.enters Element.visible C then
        picture alphaBlending t p (paint (Element.over alphaBlending) (drawnBelow C) p c)
      else paint (Element.over alphaBlending) (drawnBelow C) p c) := by
  rw [picture, drawn_plug, paint_append, paint_append]
  split
  · rfl
  · rfl

/-- A part of a nested tree is nested. -/
theorem nested_of_plug (h : Nested (plug C t)) : Nested t := fun p hp => (edges_plug.mp (h p hp)).2

/-- **A change of one element** changes the picture at most where the element is, before or
    after. -/
theorem picture_change (hp : p.OnScreen) (ht : Nested t) (ht' : Nested t')
    (h : t.label.isPixelInRange p.1 p.2 = false) (h' : t'.label.isPixelInRange p.1 p.2 = false) :
    picture alphaBlending (plug C t') p c = picture alphaBlending (plug C t) p c := by
  rw [picture_plug, picture_plug, picture_outside hp ht h, picture_outside hp ht' h']

/-- **An element that comes to a pixel** goes over the picture there, if it is not visible or
    nothing lies above. -/
theorem picture_over (hp : p.OnScreen) (ht : Nested t) (h : t.label.isPixelInRange p.1 p.2 = false)
    (htop : t'.label.visible = true → Seen C ∧ ∀ a ∈ drawnAbove C,
      a.isPixelInRange p.1 p.2 = false) :
    picture alphaBlending (plug C t') p c =
      picture alphaBlending t' p (picture alphaBlending (plug C t) p c) := by
  rw [picture_plug, picture_plug, picture_outside hp ht h, ite_self]
  cases hvisible : t'.label.visible with
  | false =>
    have hnone : ∀ c, picture alphaBlending t' p c = c := fun c => by
      rw [picture, drawn_hidden hvisible]; rfl
    rw [hnone, hnone, ite_self]
  | true =>
    obtain ⟨hseen, hclear⟩ := htop hvisible
    have habove : ∀ c, paint (Element.over alphaBlending) (drawnAbove C) p c = c :=
      paint_of_none fun a ha c => over_of_not_inRange (hclear a ha)
    rw [habove, habove]
    exact if_pos hseen

/-- And if the element is not visible, nowhere. -/
theorem picture_hidden (h : t.label.visible = false) (h' : t'.label.visible = false) :
    picture alphaBlending (plug C t') = picture alphaBlending (plug C t) := by
  rw [picture, picture, drawn_plug, drawn_plug, drawn_hidden h, drawn_hidden h']

end Plug

/-! ## The screen shows the picture

  A pixel has the colour of the picture or it has not.  A draw gives it to all pixels of a
  rectangle and leaves the others, so a screen that shows the picture of the tree before a change
  shows that of the tree after it, if the rectangle has all the pixels at which the two differ. -/

/-- The build buffer has the picture, whatever is below it. -/
def Screen.Shows (alphaBlending : BitVec 8 → BitVec 8 → BitVec 8 → BitVec 8) (s : Screen) : Prop :=
  ∀ p : Pixel, p.OnScreen → ∀ c,
    colourAt s.compositor.buildBuffer p = picture alphaBlending s.rootContainer p c

/-- A tree that the draws can show: elements within their parents, not too many of them pending, and
    one of them hides all that is below it. -/
structure Sound (alphaBlending : BitVec 8 → BitVec 8 → BitVec 8 → BitVec 8) (d : Container) :
    Prop where
  /-- Children lie within their parents, -/
  nested : Nested d
  /-- no rectangle has more elements than a draw keeps on its stack, -/
  roomy : ∀ rect, Uncrowded rect d
  /-- and some element is opaque all over the screen. -/
  backed : ∃ e ∈ drawn d, ∀ p : Pixel, p.OnScreen → Hides (Element.over alphaBlending) e p

section Shows

variable {alphaBlending : BitVec 8 → BitVec 8 → BitVec 8 → BitVec 8} {s s' : Screen}
    {C : Context Element}
  {t d : Container} {rect : Rectangle} {e : Element} {p : Pixel} {newX newY : int32_t}

/-- With such an element the picture does not depend on what was there before. -/
theorem Sound.picture_eq (h : Sound alphaBlending d) (hp : p.OnScreen) (c c' : Colour) :
    picture alphaBlending d p c = picture alphaBlending d p c' := by
  obtain ⟨e, he, hides⟩ := h.backed
  exact paint_of_hides he (hides p hp) c c'

/-- On the screen, the pixels drawn for an element are those in its range. -/
theorem mem_pixels_bound (hp : p.OnScreen) :
    p ∈ pixels e.getBoundingRectangle.bound EmptyRectangle ↔ e.isPixelInRange p.1 p.2 = true :=
  (comesTo_iff hp).trans (and_iff_left hasPoint_empty)

/-- A redraw brings the pixels of its rectangle to the picture, and leaves the others. -/
theorem redraw_picture (h : s.redraw alphaBlending rect = some s')
    (hsound : Sound alphaBlending s.rootContainer) :
    s'.rootContainer = s.rootContainer ∧ Recolours (pixels rect.bound EmptyRectangle)
      (picture alphaBlending s.rootContainer) s.compositor.buildBuffer
        s'.compositor.buildBuffer := by
  obtain ⟨visited, c, hdraw, hpicture⟩ :=
    @drawSingle_picture alphaBlending rect EmptyRectangle s.rootContainer s.compositor
      (hsound.roomy rect) hsound.nested
  rw [Screen.redraw, hdraw] at h
  obtain rfl := Option.some.inj h
  exact ⟨rfl, hpicture⟩

/-- **A redraw** of all that is not yet right makes everything right. -/
theorem redraw_shows (h : s.redraw alphaBlending rect = some s')
    (hsound : Sound alphaBlending s.rootContainer)
    (hrest : ∀ p : Pixel, p.OnScreen → p ∉ pixels rect.bound EmptyRectangle → ∀ c,
      colourAt s.compositor.buildBuffer p = picture alphaBlending s.rootContainer p c) :
    s'.Shows alphaBlending := by
  obtain ⟨hroot, hrecolours⟩ := redraw_picture h hsound
  intro p hp c
  rw [hroot]
  by_cases hmem : p ∈ pixels rect.bound EmptyRectangle
  · rw [(hrecolours p hp).1 hmem]
    exact hsound.picture_eq hp _ c
  · rw [(hrecolours p hp).2 hmem]
    exact hrest p hp hmem c

/-! ## A move

  Two draws: the old rectangle, and the new one without the old.  The old one is wider by a row
  and a column when it is left out than when it is drawn, so the pixels of the new place on that
  edge (`Missed`) show what they have shown before.  `moved_colours` says so of any move, and
  that all other pixels show the new picture. -/

/-- The pixels that no draw comes to: on the right or the bottom edge of the old rectangle, and in
    the new place. -/
def Missed (e : Element) (newX newY : int32_t) (p : Pixel) : Prop :=
  (e.moveTo newX newY).isPixelInRange p.1 p.2 = true ∧
    e.getBoundingRectangle.hasPoint p.1 p.2 = true ∧ e.isPixelInRange p.1 p.2 = false

/-- An element is to be seen all over: its ancestors are visible, and nothing lies above it. -/
structure Topmost (C : Context Element) (e : Element) : Prop where
  /-- Its ancestors are visible, -/
  seen : Seen C
  /-- and nothing above it is on the same pixel. -/
  clear : ∀ a ∈ drawnAbove C, ∀ p : Pixel, p.OnScreen → e.isPixelInRange p.1 p.2 = true →
    a.isPixelInRange p.1 p.2 = false

/-- Looking at the parent leaves the tree. -/
theorem plug_passUp {C' : Context Element} {t' : Container} (h : passUp C t = some (C', t')) :
    plug C' t' = plug C t := by
  induction C generalizing t with
  | nil =>
    obtain ⟨-, h⟩ := Option.ite_none_left_eq_some.mp h
    obtain ⟨rfl, rfl⟩ := Prod.mk.inj (Option.some.inj h)
    rfl
  | cons f C ih =>
    rw [passUp] at h
    split at h
    · exact ih h
    · obtain ⟨rfl, rfl⟩ := Prod.mk.inj (Option.some.inj h)
      rfl

/-- The element that moves is in the tree. -/
theorem plug_mover {path : List Nat}
    (h : (locate path [] s.rootContainer).bind (fun x => passUp x.1 x.2) = some (C, t)) :
    plug C t = s.rootContainer := by
  obtain ⟨⟨C₀, t₀⟩, hlocated, hpass⟩ := Option.bind_eq_some_iff.mp h
  rw [plug_passUp hpass, plug_locate hlocated]
  rfl

/-- A move moves the element itself by its label. -/
theorem label_updateLocation :
    (Ui.updateLocation newX newY t).label = t.label.moveTo newX newY := by
  obtain ⟨e, children⟩ := t
  rfl

/-- `updateLocation` is two draws. -/
theorem updateLocation_eq {path : List Nat}
    (h : (locate path [] s.rootContainer).bind (fun x => passUp x.1 x.2) = some (C, t)) :
    s.updateLocation alphaBlending path newX newY =
      (Screen.redraw alphaBlending ⟨plug C (Ui.updateLocation newX newY t), s.compositor⟩
        t.label.getBoundingRectangle).bind fun s₁ =>
          (s₁.compositor.drawSingle alphaBlending (Ui.updateLocation newX newY t)
            (t.label.moveTo newX newY).getBoundingRectangle t.label.getBoundingRectangle).map
              fun x => ⟨s₁.rootContainer, x.2⟩ := by
  obtain ⟨⟨C₀, t₀⟩, hlocated, hpass⟩ := Option.bind_eq_some_iff.mp h
  dsimp only at hpass
  simp only [Screen.updateLocation, hlocated, Option.bind_eq_bind, Option.bind_some, hpass,
    label_updateLocation]

/-- **After a move** every pixel of the screen shows the new picture, but for those missed, which
    show the old one. -/
theorem moved_colours {path : List Nat} (hshows : s.Shows alphaBlending)
    (h : s.updateLocation alphaBlending path newX newY = some s')
    (hlocate : (locate path [] s.rootContainer).bind (fun x => passUp x.1 x.2) = some (C, t))
    (hold : Nested s.rootContainer)
    (hsound : Sound alphaBlending (plug C (Ui.updateLocation newX newY t)))
    (hroomy : ∀ rect, Uncrowded rect (Ui.updateLocation newX newY t))
    (htop : t.label.visible = true → Topmost C (t.label.moveTo newX newY)) :
    s'.rootContainer = plug C (Ui.updateLocation newX newY t) ∧ ∀ p : Pixel, p.OnScreen → ∀ c,
      (Missed t.label newX newY p →
        colourAt s'.compositor.buildBuffer p = picture alphaBlending s.rootContainer p c) ∧
      (¬ Missed t.label newX newY p →
        colourAt s'.compositor.buildBuffer p = picture alphaBlending s'.rootContainer p c) := by
  rw [updateLocation_eq hlocate] at h
  obtain ⟨s₁, hredraw, hdraw⟩ := Option.bind_eq_some_iff.mp h
  obtain ⟨hroot₁, hfirst⟩ := redraw_picture hredraw hsound
  have hnested : Nested (Ui.updateLocation newX newY t) := nested_of_plug hsound.nested
  obtain ⟨visited, comp, hsingle, hsecond⟩ :=
    @drawSingle_picture alphaBlending _ t.label.getBoundingRectangle _
      s₁.compositor (hroomy (t.label.moveTo newX newY).getBoundingRectangle) hnested
  rw [hsingle] at hdraw
  obtain rfl := Option.some.inj hdraw
  refine ⟨hroot₁, fun p hp c => ?_⟩
  have hplug := plug_mover hlocate
  have hnested' : Nested t := by
    rw [← hplug] at hold
    exact nested_of_plug hold
  have hmem : p ∈ pixels (t.label.moveTo newX newY).getBoundingRectangle.bound
      t.label.getBoundingRectangle ↔ (t.label.moveTo newX newY).isPixelInRange p.1 p.2 = true ∧
        t.label.getBoundingRectangle.hasPoint p.1 p.2 = false := comesTo_iff hp
  show (_ → colourAt comp.buildBuffer p = _) ∧
    (_ → colourAt comp.buildBuffer p = picture _ s₁.rootContainer p c)
  rw [hroot₁]
  cases hin : t.label.isPixelInRange p.1 p.2 with
  | true =>
    -- the first draw comes here, and the second does not
    have hpoint := hasPoint_of_inRange hin
    have hnot : p ∉ pixels (t.label.moveTo newX newY).getBoundingRectangle.bound
        t.label.getBoundingRectangle := by
      rw [hmem, hpoint]
      exact fun hboth => Bool.noConfusion hboth.2
    refine ⟨fun hmissed => Bool.noConfusion (hin.symm.trans hmissed.2.2), fun _ => ?_⟩
    rw [(hsecond p hp).2 hnot, (hfirst p hp).1 ((mem_pixels_bound hp).mpr hin)]
    exact hsound.picture_eq hp _ c
  | false =>
    have hfirst' : colourAt s₁.compositor.buildBuffer p = picture alphaBlending (plug C t) p c := by
      rw [(hfirst p hp).2
        (fun hmem => Bool.noConfusion (hin.symm.trans ((mem_pixels_bound hp).mp hmem))), hplug]
      exact hshows p hp c
    cases hnew : (t.label.moveTo newX newY).isPixelInRange p.1 p.2 with
    | false =>
      -- the element is not here, before or after
      have hnot : p ∉ pixels (t.label.moveTo newX newY).getBoundingRectangle.bound
          t.label.getBoundingRectangle := by
        rw [hmem, hnew]
        exact fun hboth => Bool.noConfusion hboth.1
      refine ⟨fun hmissed => Bool.noConfusion (hnew.symm.trans hmissed.1), fun _ => ?_⟩
      rw [(hsecond p hp).2 hnot, hfirst']
      exact (picture_change hp hnested' hnested hin (by rw [label_updateLocation]; exact hnew)).symm
    | true =>
      cases hpoint : t.label.getBoundingRectangle.hasPoint p.1 p.2 with
      | true =>
        have hnot : p ∉ pixels (t.label.moveTo newX newY).getBoundingRectangle.bound
            t.label.getBoundingRectangle := by
          rw [hmem, hpoint]
          exact fun hboth => Bool.noConfusion hboth.2
        refine ⟨fun _ => ?_, fun hmissed => absurd ⟨hnew, hpoint, hin⟩ hmissed⟩
        rw [(hsecond p hp).2 hnot, hfirst', hplug]
      | false =>
        refine ⟨fun hmissed => Bool.noConfusion (hpoint.symm.trans hmissed.2.1), fun _ => ?_⟩
        rw [(hsecond p hp).1 (hmem.mpr ⟨hnew, hpoint⟩), hfirst']
        refine (picture_over hp hnested' hin fun hvisible => ?_).symm
        rw [label_updateLocation] at hvisible
        have htop := htop hvisible
        exact ⟨htop.seen, fun a ha => htop.clear a ha p hp hnew⟩

end Shows

/-! ## Runs

  Each call is a change of one element followed by the draws it asks for.  For all but
  `updateLocation` these cover the change; for that one it is the condition of the run
  (`MovesWell`). -/

/-- The screen, by its calls. -/
def Screen.machine (alphaBlending : BitVec 8 → BitVec 8 → BitVec 8 → BitVec 8) :
    Machine Screen ScreenCall where
  init s := s.compositor.video = false
  step s call s' := s.exec alphaBlending call = some s'

/-- A move that leaves nothing behind. -/
structure MovesWell (C : Context Element) (t : Container) (newX newY : int32_t) : Prop where
  /-- At its new place the element is to be seen all over, -/
  top : Topmost C (t.label.moveTo newX newY)
  /-- and its two draws come to every pixel of the old place. -/
  covers : CoversMove t.label newX newY

/-- The calls after which the screen shows the picture, if it did before: the tree stays sound, what
    is added is not yet visible, and what moves, if it is visible, moves well. -/
def Screen.Steady (alphaBlending : BitVec 8 → BitVec 8 → BitVec 8 → BitVec 8) (s : Screen)
    (call : ScreenCall) : Prop :=
  (∀ s', s.exec alphaBlending call = some s' → Sound alphaBlending s'.rootContainer) ∧
    match call with
    | .addChild _ d => d.label.visible = false
    | .updateLocation path newX newY => ∀ C t,
        (locate path [] s.rootContainer).bind (fun x => passUp x.1 x.2) = some (C, t) →
          (∀ rect, Uncrowded rect (Ui.updateLocation newX newY t)) ∧
            (t.label.visible = true → MovesWell C t newX newY)
    | _ => True

section Runs

variable {alphaBlending : BitVec 8 → BitVec 8 → BitVec 8 → BitVec 8} {s s' : Screen}
    {C : Context Element}
  {t d : Container} {rect : Rectangle} {e : Element} {p : Pixel} {newX newY : int32_t}
    {path : List Nat}

/-- Showing or hiding an element does not move it. -/
theorem label_setVisible {visible : Bool} (x y : int32_t) :
    (setVisible visible t).label.isPixelInRange x y = t.label.isPixelInRange x y := by
  obtain ⟨e, children⟩ := t
  rfl

/-- A draw is of the tree as it is. -/
theorem redraw_root (h : s.redraw alphaBlending rect = some s') :
    s'.rootContainer = s.rootContainer := by
  obtain ⟨x, -, rfl⟩ := Option.map_eq_some_iff.mp h
  rfl

/-- A redraw always comes to its end. -/
theorem redraw_isSome (s : Screen) (rect : Rectangle) :
    ∃ comp, s.redraw alphaBlending rect = some ⟨s.rootContainer, comp⟩ := by
  obtain ⟨comp, hdraw⟩ :=
    @drawSingle_visits alphaBlending rect EmptyRectangle s.compositor s.rootContainer
  rw [Screen.redraw, hdraw]
  exact ⟨comp, rfl⟩

/-- `show` and `hide` set the flag and redraw the rectangle of the element. -/
theorem changeVisible_eq {visible : Bool} (h : locate path [] s.rootContainer = some (C, t)) :
    s.changeVisible alphaBlending path visible = Screen.redraw alphaBlending
      ⟨plug C (setVisible visible t), s.compositor⟩
        (setVisible visible t).label.getBoundingRectangle := by
  rw [Screen.changeVisible, h]
  rfl

/-- Showing or hiding: the picture changes at the pixels of the element only, and these are
    drawn. -/
theorem changeVisible_shows {visible : Bool} (hshows : s.Shows alphaBlending)
    (h : s.changeVisible alphaBlending path visible = some s') (hold : Nested s.rootContainer)
    (hsound : Sound alphaBlending s'.rootContainer) : s'.Shows alphaBlending := by
  obtain ⟨⟨C, t⟩, hlocate, hredraw⟩ := Option.bind_eq_some_iff.mp h
  dsimp only at hredraw
  have hplug : plug C t = s.rootContainer := plug_locate hlocate
  have hroot : s'.rootContainer = plug C (setVisible visible t) := redraw_root hredraw
  rw [hroot] at hsound
  refine redraw_shows hredraw hsound fun p hp hmem c => ?_
  have hout : (setVisible visible t).label.isPixelInRange p.1 p.2 = false :=
    Bool.eq_false_iff.mpr fun hin => hmem ((mem_pixels_bound hp).mpr hin)
  rw [← hplug] at hold
  show colourAt s.compositor.buildBuffer p = _
  rw [hshows p hp c, ← hplug]
  exact (picture_change hp (nested_of_plug hold) (nested_of_plug hsound.nested)
    ((label_setVisible p.1 p.2).symm.trans hout) hout).symm

/-- An element that is not visible may come in anywhere. -/
theorem drawn_addChild (hd : d.label.visible = false) : drawn (Ui.addChild d t) = drawn t := by
  obtain ⟨e, children⟩ := t
  have hnone : drawn (setParent e d) = [] := by
    obtain ⟨e', children'⟩ := d
    exact drawn_hidden hd
  have hinsert :
      ∀ i, drawn (.node e (children.insertIdx i (setParent e d))) = drawn (.node e children) := by
    intro i
    rw [drawn, drawn, preorder, preorder, List.filter_cons, List.filter_cons]
    cases e.visible with
    | false => rfl
    | true =>
      rw [if_pos rfl, if_pos rfl, filter_preorderAll_insertIdx hnone]
  have happend : drawn (Container.addChild d (.node e children)) = drawn (.node e children) := by
    rw [Container.addChild, ← List.insertIdx_length_self]
    exact hinsert _
  rw [Ui.addChild]
  split
  · rw [Desktop.addChild]
    split
    · exact hinsert _
    · exact happend
  · exact happend

/-- A draw of an element that is not visible draws nothing. -/
theorem drawSingle_hidden {diff : Rectangle} (comp : Compositor) (hd : d.label.visible = false) :
    ∃ visited comp', comp.drawSingle alphaBlending d rect diff = some (visited, comp') ∧
      ∀ p : Pixel, p.OnScreen → colourAt comp'.buildBuffer p = colourAt comp.buildBuffer p := by
  obtain ⟨visited, comp', hdraw, rfl, hpaints⟩ := drawSingle_paints alphaBlending comp d rect diff
  refine ⟨_, comp', hdraw, fun p hp => ?_⟩
  obtain ⟨e, children⟩ := d
  have hshows : e.shows rect.bound = false := by
    have hd : e.visible = false := hd
    rw [Element.shows, hd, Bool.false_and]
  by_cases hmem : p ∈ pixels rect.bound diff
  · rw [(hpaints p hp).1 hmem]
    simp [visits, hshows, paint]
  · exact (hpaints p hp).2 hmem

/-- Looking at a child leaves the tree. -/
theorem plug_passDown {C' : Context Element} {t' : Container} (h : passDown C t = some (C', t')) :
    plug C' t' = plug C t := by
  rw [passDown] at h
  split at h
  · obtain ⟨i, -, h⟩ := Option.bind_eq_some_iff.mp h
    exact plug_locate h
  · obtain ⟨rfl, rfl⟩ := Prod.mk.inj (Option.some.inj h)
    rfl

/-- A new child is hidden, so the picture stays; what is drawn is what was there. -/
theorem addChild_shows (hshows : s.Shows alphaBlending)
    (h : s.addChild alphaBlending path d = some s') (hd : d.label.visible = false) :
    s'.Shows alphaBlending := by
  obtain ⟨⟨C₀, t₀⟩, hlocate, h⟩ := Option.bind_eq_some_iff.mp h
  obtain ⟨⟨C, t⟩, hpass, h⟩ := Option.bind_eq_some_iff.mp h
  dsimp only at hpass h
  have hplug : plug C t = s.rootContainer := (plug_passDown hpass).trans (plug_locate hlocate)
  have hpicture :
      picture alphaBlending (plug C (Ui.addChild d t)) = picture alphaBlending s.rootContainer := by
    rw [← hplug, picture, picture, drawn_plug, drawn_plug, drawn_addChild hd]
  have hkeeps : ∀ comp : Compositor, (∀ p : Pixel, p.OnScreen →
      colourAt comp.buildBuffer p = colourAt s.compositor.buildBuffer p) →
        Screen.Shows alphaBlending ⟨plug C (Ui.addChild d t), comp⟩ := by
    intro comp hcomp p hp c
    show colourAt comp.buildBuffer p = picture alphaBlending (plug C (Ui.addChild d t)) p c
    rw [hcomp p hp, hpicture, hshows p hp c]
  split at h
  · obtain rfl := Option.some.inj h
    exact hkeeps _ fun _ _ => rfl
  · have hd' : (setParent t.label d).label.visible = false := by
      obtain ⟨e, children⟩ := d
      exact hd
    obtain ⟨visited, comp, hdraw, hsame⟩ := @drawSingle_hidden alphaBlending _
      (setParent t.label d).label.getBoundingRectangle EmptyRectangle s.compositor hd'
    rw [hdraw] at h
    obtain rfl := Option.some.inj h
    exact hkeeps _ hsame

/-- A move of a hidden element changes nothing; of a visible one, the old place is drawn without
    it and the new place with it, and if it moves well then that is all that changes. -/
theorem updateLocation_shows (hshows : s.Shows alphaBlending)
    (h : s.updateLocation alphaBlending path newX newY = some s') (hold : Nested s.rootContainer)
    (hsound : Sound alphaBlending s'.rootContainer)
    (hmoves : ∀ C t, (locate path [] s.rootContainer).bind (fun x => passUp x.1 x.2) = some (C, t) →
      (∀ rect, Uncrowded rect (Ui.updateLocation newX newY t)) ∧
        (t.label.visible = true → MovesWell C t newX newY)) : s'.Shows alphaBlending := by
  obtain ⟨C, t, hlocate, hroot⟩ : ∃ C t,
      (locate path [] s.rootContainer).bind (fun x => passUp x.1 x.2) = some (C, t) ∧
        s'.rootContainer = plug C (Ui.updateLocation newX newY t) := by
    obtain ⟨⟨C₀, t₀⟩, hlocate, h⟩ := Option.bind_eq_some_iff.mp h
    obtain ⟨⟨C, t⟩, hpass, h⟩ := Option.bind_eq_some_iff.mp h
    obtain ⟨s₁, hredraw, h⟩ := Option.bind_eq_some_iff.mp h
    obtain ⟨y, -, rfl⟩ := Option.map_eq_some_iff.mp h
    exact ⟨C, t, by rw [hlocate]; exact hpass, redraw_root hredraw⟩
  obtain ⟨hroomy, hmoves⟩ := hmoves C t hlocate
  have hcolours :=
    (moved_colours hshows h hlocate hold (hroot ▸ hsound) hroomy
      fun hvisible => (hmoves hvisible).top).2
  intro p hp c
  by_cases hmissed : Missed t.label newX newY p
  · cases hvisible : t.label.visible with
    | true =>
      have hin := coversMove_points.mp (hmoves hvisible).covers p.1 p.2 hp hmissed.1 hmissed.2.1
      exact Bool.noConfusion (hin.symm.trans hmissed.2.2)
    | false =>
      -- nothing to be seen of the element
      rw [(hcolours p hp c).1 hmissed, hroot, ← plug_mover hlocate]
      have hvisible' : (Ui.updateLocation newX newY t).label.visible = false := by
        rw [label_updateLocation]
        exact hvisible
      rw [picture_hidden hvisible hvisible']
  · exact (hcolours p hp c).2 hmissed

/-- **One call** after which the tree is sound keeps the picture on the screen. -/
theorem exec_shows {call : ScreenCall} (hshows : s.Shows alphaBlending)
    (hold : Sound alphaBlending s.rootContainer) (hsteady : s.Steady alphaBlending call)
    (h : s.exec alphaBlending call = some s') :
    s'.Shows alphaBlending ∧ Sound alphaBlending s'.rootContainer := by
  obtain ⟨htree, hcall⟩ := hsteady
  have hsound := htree s' h
  refine ⟨?_, hsound⟩
  cases call with
  | redraw rect => exact redraw_shows h hold fun p hp _ c => hshows p hp c
  | showElement path => exact changeVisible_shows hshows h hold.nested hsound
  | hideElement path => exact changeVisible_shows hshows h hold.nested hsound
  | addChild path d => exact addChild_shows hshows h hcall
  | updateLocation path newX newY => exact updateLocation_shows hshows h hold.nested hsound hcall
  | enterVideoMode =>
    obtain rfl := Option.some.inj h
    show Screen.Shows alphaBlending ⟨s.rootContainer, s.compositor.enterVideoMode⟩
    rw [Compositor.enterVideoMode]
    split
    · exact hshows
    · exact hshows
  | enterTextMode =>
    obtain rfl := Option.some.inj h
    exact hshows

/-- The root of a sound tree has every pixel of the screen. -/
theorem Sound.root_inRange (h : Sound alphaBlending d) (hp : p.OnScreen) :
    d.label.isPixelInRange p.1 p.2 = true := by
  cases hin : d.label.isPixelInRange p.1 p.2 with
  | true => rfl
  | false =>
    have hsame := h.picture_eq hp ⟨0, 0, 0⟩ ⟨1, 0, 0⟩
    rw [picture_outside hp h.nested hin, picture_outside hp h.nested hin, Colour.mk.injEq] at hsame
    exact absurd hsame.1 (by decide)

/-- **To show the root** draws the whole picture, whatever there was before. -/
theorem showRoot_shows (h : s.changeVisible alphaBlending [] true = some s')
    (hsound : Sound alphaBlending s'.rootContainer) : s'.Shows alphaBlending := by
  have hredraw : Screen.redraw alphaBlending ⟨setVisible true s.rootContainer, s.compositor⟩
      (setVisible true s.rootContainer).label.getBoundingRectangle = some s' := h
  have hroot : s'.rootContainer = setVisible true s.rootContainer := redraw_root hredraw
  rw [hroot] at hsound
  exact redraw_shows hredraw hsound fun p hp hmem =>
    absurd ((mem_pixels_bound hp).mpr (hsound.root_inRange hp)) hmem

end Runs

/-- **In every run of steady calls** from when the root is shown, the screen shows the picture,
    whatever there was on it before. -/
theorem reach_shows {alphaBlending : BitVec 8 → BitVec 8 → BitVec 8 → BitVec 8} {s₀ s₁ s : Screen}
    (hfirst : s₀.changeVisible alphaBlending [] true = some s₁)
    (hsound : Sound alphaBlending s₁.rootContainer)
    (h : Reach ((Screen.machine alphaBlending).startedIn s₁) (Screen.Steady alphaBlending) s) :
    s.Shows alphaBlending := by
  refine And.left
    (h.invariant (I := fun s => s.Shows alphaBlending ∧ Sound alphaBlending s.rootContainer) ?_ ?_)
  · rintro s rfl
    exact ⟨showRoot_shows hfirst hsound, hsound⟩
  · exact fun s call s' hs hsteady hstep => exec_shows hs.1 hs.2 hsteady hstep

/-- A blending in which 255 is opaque and the rest is transparent. -/
def opaqueBlending (p1 p2 alpha : BitVec 8) : BitVec 8 := if alpha = 255 then p2 else p1

/-- The desktop is opaque all over, and there are only two elements. -/
theorem sound_whiteDesktop (mouse : Element) : Sound opaqueBlending (whiteDesktop true mouse) where
  nested := nested_whiteDesktop true mouse
  roomy rect := uncrowded_of_size_le (by simp [whiteDesktop, size, sizeAll])
  backed := by
    refine ⟨_, List.mem_filter.mpr ⟨List.mem_cons_self, rfl⟩, fun p hp c c' => ?_⟩
    have hin : Element.isPixelInRange
      { Element.construct 0 .Desktop ScreenWidth ScreenHeight 0 0 (fun _ => 255) with
        visible := true } p.1 p.2 = true := Element.isPixelInRange_iff.mpr hp
    simp only [Element.over, hin, if_true]
    rfl

/-- A mouse that is shown and moved. -/
theorem reach_shows_mouse : ∃ s : Screen, s.Shows opaqueBlending ∧
    s.rootContainer.children.map (fun c => c.label.absX) = [612] := by
  let comp : Compositor := ⟨fun _ => 0, fun _ => 0, false, HelpBGR⟩
  let mouse := Element.construct 1 .Drawable 30 44 512 384 fun _ => 255
  let shown := { mouse with visible := true }
  let moved := shown.moveTo 612 484
  obtain ⟨comp₁, h₁⟩ := @redraw_isSome opaqueBlending ⟨whiteDesktop true mouse, comp⟩
    (whiteDesktop true mouse).label.getBoundingRectangle
  obtain ⟨comp₂, h₂⟩ := @redraw_isSome opaqueBlending ⟨whiteDesktop true shown, comp₁⟩
    mouse.getBoundingRectangle
  obtain ⟨comp₃, h₃⟩ := @redraw_isSome opaqueBlending ⟨whiteDesktop true moved, comp₂⟩
    shown.getBoundingRectangle
  obtain ⟨comp₄, h₄⟩ :=
    @drawSingle_visits opaqueBlending moved.getBoundingRectangle shown.getBoundingRectangle comp₃
      (.node moved [])
  have hfirst : Screen.changeVisible opaqueBlending ⟨whiteDesktop false mouse, comp⟩ [] true =
      some ⟨whiteDesktop true mouse, comp₁⟩ :=
    (changeVisible_eq (C := []) (t := whiteDesktop false mouse) rfl).trans h₁
  have hshow : Screen.exec opaqueBlending ⟨whiteDesktop true mouse, comp₁⟩ (.showElement [0]) =
      some ⟨whiteDesktop true shown, comp₂⟩ :=
    (changeVisible_eq (C := [⟨(whiteDesktop true mouse).label, [], []⟩]) (t := .node mouse [])
      rfl).trans h₂
  have hmove :
    Screen.exec opaqueBlending ⟨whiteDesktop true shown, comp₂⟩ (.updateLocation [0] 612 484) =
      some ⟨whiteDesktop true moved, comp₄⟩ := by
    refine (updateLocation_eq (C := [⟨(whiteDesktop true mouse).label, [], []⟩])
      (t := .node shown []) rfl).trans ?_
    refine (congrArg (Option.bind · _) h₃).trans ?_
    rw [Option.bind_some]
    refine (congrArg (Option.map _) h₄).trans rfl
  refine ⟨⟨whiteDesktop true moved, comp₄⟩, reach_shows hfirst (sound_whiteDesktop _)
    (.step (.step (.init rfl) ⟨?_, trivial⟩ hshow) ⟨?_, ?_⟩ hmove), rfl⟩
  · rintro s' hs'
    rw [← Option.some.inj (hshow.symm.trans hs')]
    exact sound_whiteDesktop _
  · rintro s' hs'
    rw [← Option.some.inj (hmove.symm.trans hs')]
    exact sound_whiteDesktop _
  · -- the new place does not meet an edge of the old one
    rintro C t hlocate
    obtain ⟨rfl, rfl⟩ := Prod.mk.inj (Option.some.inj hlocate)
    refine ⟨fun rect => uncrowded_of_size_le (by decide), fun _ => ⟨⟨rfl, fun a ha => ?_⟩, ?_⟩⟩
    · exact absurd ha List.not_mem_nil
    · refine (coversMove_iff _ _ _).mpr ⟨?_, ?_⟩
      · rintro ⟨⟨-, -, h, -⟩, -⟩
        exact absurd h (by decide)
      · rintro ⟨⟨-, -, h, -⟩, -⟩
        exact absurd h (by decide)

end TedkOS.Ui
