/-
  The mouse (drivers/mouse.cpp, ui/mouse.cpp).

  The mouse sends packets of three bytes.  The driver adds up the movements, within the screen, and
  tells the mouse on the screen of its left button: when that goes down, the mouse takes what is
  under it, with the place at which it has taken it, and from then on that is put where this place
  is under the mouse again.

  1. **Program** — the handler, on the bytes that an interrupt reads, and the methods of `Mouse`.
     Elements are pointers here, so they are searched for by their address.

  2. **A move** — of one element is a translation of all that is below it (`moves_plug`).

  3. **The invariant** — `Good`, kept by every interrupt and by everything else that happens:

     * `desk`: the elements are a desk (`Desk`), one desktop with a mouse on it and windows whose
       elements are where their offsets say.  It is what makes pointers work: an address leads to
       ONE element (`find_of_mem`), and to move that is to translate what is below it
       (`moves_plug`).
     * `pointer`: the mouse is on the screen, so that a coordinate and a movement never overflow
       (`toInt_moved`), and a packet without a movement leaves the mouse where it is.
     * `pressed`: something is dragged exactly while the driver thinks the button is down.  The
       mouse keeps the one and the driver the other, and passes a release on because of its own.
     * `grips`: what is dragged is under the mouse at the place where it has been taken.  So the
       place that `drag` computes from the offsets is the old one, moved as the mouse has moved.

     A packet breaks `grips` by `moveMouse`, which moves the mouse alone, and mends it by `drag`;
     in between `Grips` says by how much the element is behind (`Good.grips_moved`, `dragged_spec`).

  4. **Packets** — whatever has happened before, a packet moves the mouse, and the element that is
     held with its window, by the same amount, and nothing else (`reach_packet`).
-/
import TedkOS.Ui.HitTest
import TedkOS.Ui.Screen

namespace TedkOS.Ui

open RoseTree Runs

/-! ## Program -/

def LEFT_BUTTON : BitVec 8 := 1
def RIGHT_BUTTON : BitVec 8 := 2
def MOVEMENT_ONE : BitVec 8 := 8
def X_SIGN : BitVec 8 := 16
def Y_SIGN : BitVec 8 := 32
def X_OVERFLOW : BitVec 8 := 64
def Y_OVERFLOW : BitVec 8 := 128

def ClickPointOffsetX : int32_t := 6
def ClickPointOffsetY : int32_t := 8

/-- `isMovable()`; the mouse, which is movable too, is never under itself. -/
def Element.isMovable (e : Element) : Bool :=
  match e.cls with
  | .Window _ => true
  | .TitleBar => true
  | _ => false

/-- The elements, the mouse among them, and what the driver keeps. -/
structure MouseState where
  rootContainer : Container
  theMouse : Nat
  /-- `Nothing`, or a pointer, which may be null. -/
  isDragging : Option (Option Nat)
  dragOffsetX : int32_t
  dragOffsetY : int32_t
  left_botton_pressed : Bool
  right_botton_pressed : Bool
  mouse_moved : Bool

namespace MouseState

/-- What is at an address, with what is around it. -/
def find (id : Nat) (s : MouseState) : Option (Context Element × Container) :=
  search (fun e => e.id == id) [] s.rootContainer

/-- The element at an address. -/
def element (id : Nat) (s : MouseState) : Option Element := (s.find id).map fun r => r.2.label

/-- `updateLocation(newX, newY)` of an element, but for what it draws. -/
def updateLocation (id : Nat) (newX newY : int32_t) (s : MouseState) : Option MouseState :=
  ((s.find id).bind fun r => passUp r.1 r.2).map fun r =>
    { s with rootContainer := plug r.1 (Ui.updateLocation newX newY r.2) }

/-- A coordinate of the mouse, with the point it clicks at on the screen. -/
def clamp (size offset new : int32_t) : int32_t :=
  let new := if new.toInt < (-offset).toInt then -offset else new
  if (size - offset).toInt < new.toInt then size - offset else new

/-- `moveMouse(dx, dy)`; up is negative on the screen and positive for the mouse. -/
def moveMouse (dx dy : int32_t) (s : MouseState) : Option MouseState :=
  (s.element s.theMouse).bind fun m =>
    s.updateLocation s.theMouse (clamp ScreenWidth ClickPointOffsetX (m.absX + dx))
      (clamp ScreenHeight ClickPointOffsetY (m.absY - dy))

/-- The mouse `m` takes an element, or the null pointer. -/
def take (m : Element) (elem : Option Element) (s : MouseState) : MouseState :=
  match elem with
  | none => { s with isDragging := some none }
  | some elem =>
    { s with
      isDragging := some (some elem.id)
      dragOffsetX := m.absX - elem.absX
      dragOffsetY := m.absY - elem.absY }

/-- `leftClick`: the mouse takes what is under it, unless it holds something already. -/
def leftClick (s : MouseState) : Option MouseState :=
  if s.isDragging.isSome then some s
  else (s.element s.theMouse).bind fun m =>
    (getElementAtPosition s.theMouse m.absX m.absY s.rootContainer).map fun elem => s.take m elem

/-- `leftRelease`. -/
def leftRelease (s : MouseState) : MouseState := { s with isDragging := none }

/-- What is dragged by the mouse `m`: if there is nothing yet, what is under it. -/
def dragged (m : Element) (s : MouseState) : Option (Option Nat) :=
  match s.isDragging with
  | some elem => some elem
  | none => (getElementAtPosition s.theMouse m.absX m.absY s.rootContainer).map
    (Option.map Element.id)

/-- The rest of `drag`, about that element. -/
def pull (m : Element) (elem : Option Nat) (s : MouseState) : Option MouseState :=
  match elem with
  | none => some s
  | some id => (s.element id).bind fun elem =>
      if elem.isMovable then s.updateLocation id (m.absX - s.dragOffsetX) (m.absY - s.dragOffsetY)
        else some s

/-- `drag`: what is held is put where it has been taken, if it can be moved. -/
def drag (s : MouseState) : Option MouseState :=
  (s.element s.theMouse).bind fun m => (s.dragged m).bind fun elem =>
    pull m elem { s with isDragging := some elem }

/-- What the handler does about the left button. -/
def leftButton (flags : BitVec 8) (s : MouseState) : Option MouseState :=
  if flags &&& LEFT_BUTTON ≠ 0 then
    (leftClick { s with left_botton_pressed := true }).bind fun s =>
      if s.mouse_moved then s.drag else some s
  else if s.left_botton_pressed then some (leftRelease { s with left_botton_pressed := false })
  else some s

/-- What it does about a packet. -/
def packet (flags : BitVec 8) (deltax deltay : int32_t) (s : MouseState) : Option MouseState :=
  (s.moveMouse deltax deltay).bind fun s =>
    (leftButton flags { s with mouse_moved := deltax ≠ 0 || deltay ≠ 0 }).map fun s =>
      { s with right_botton_pressed := if flags &&& RIGHT_BUTTON ≠ 0 then true else false }

/-- A movement: a byte, with its sign among the flags. -/
def delta (flags sign byte : BitVec 8) : int32_t :=
  if flags &&& sign ≠ 0 then byte.setWidth 32 ||| 0xFFFFFF00 else byte.setWidth 32

/-- The bytes are those of a packet, and not an acknowledgement, nor of a movement that
    overflows. -/
def isPacket (flags : BitVec 8) : Bool :=
  flags ≠ 0xFA &&
    (flags &&& MOVEMENT_ONE ≠ 0 && flags &&& X_OVERFLOW = 0 && flags &&& Y_OVERFLOW = 0)

/-- `mouse_handler`: what is left of the bytes the mouse sends, and the state.  Inside a packet the
    handler waits for the next byte. -/
def mouse_handler (bytes : List (BitVec 8)) (s : MouseState) :
    Option (List (BitVec 8) × MouseState) :=
  match bytes with
  | [] => some ([], s)
  | flags :: rest =>
    if isPacket flags then
      match rest with
      | x :: y :: rest =>
        (s.packet flags (delta flags X_SIGN x) (delta flags Y_SIGN y)).map fun s => (rest, s)
      | _ => none
    else some (rest, s)

/-! ### What else happens

  Windows and texts are added, and elements are shown and hidden; nothing else changes the tree.
  A new element must have an address of its own (`fresh`), or a pointer would lead to two of
  them. -/

/-- No element is at one of the addresses, which are different ones. -/
def fresh (ids : List Nat) (s : MouseState) : Bool :=
  decide ids.Nodup && (elements s.rootContainer).all fun e => !ids.contains e.id

/-- `addChild(d)` of the element at an address, but for what it draws. -/
def addChild (parent : Nat) (d : Container) (s : MouseState) : Option MouseState :=
  (s.find parent).bind fun r => (passDown r.1 r.2).map fun r =>
    { s with rootContainer := plug r.1 (Ui.addChild d r.2) }

/-- `show()` and `hide()`, but for what they draw. -/
def changeVisible (id : Nat) (visible : Bool) (s : MouseState) : Option MouseState :=
  (s.find id).map fun r => { s with rootContainer := plug r.1 (setVisible visible r.2) }

/-- The desktop, when the driver has started; the offsets have no value yet. -/
def booted (id mouse : Nat) (pixels : int32_t → BitVec 8) (dragOffsetX dragOffsetY : int32_t) :
    MouseState where
  rootContainer := Desktop.construct id mouse pixels
  theMouse := mouse
  isDragging := none
  dragOffsetX := dragOffsetX
  dragOffsetY := dragOffsetY
  left_botton_pressed := false
  right_botton_pressed := false
  mouse_moved := false

end MouseState

/-- It is the container of a window. -/
def Element.isWindow (e : Element) : Bool :=
  match e.cls with
  | .Window _ => true
  | _ => false

/-- An interrupt reads some bytes; programs create windows (`createWindow`) with elements in them
    (`createButton` and `createImage`, whose elements have no size), and the compositor puts text on
    the desktop (`addText`). -/
inductive MouseEvent where
  | interrupt (bytes : List (BitVec 8))
  | createWindow (id body bar : Nat) (width height x y : int32_t) (pixels : int32_t → BitVec 8)
  | addText (id : Nat) (txtX txtY : int32_t) (pixels : int32_t → BitVec 8)
  | addInWindow (window id : Nat) (x y : int32_t) (pixels : int32_t → BitVec 8)
  | changeVisible (id : Nat) (visible : Bool)

namespace MouseState

/-- What one event does; an interrupt has to read three bytes, and addresses that are given out
    have to be new. -/
def exec (s : MouseState) : MouseEvent → Option MouseState
  | .interrupt bytes =>
    match s.mouse_handler bytes with
    | some ([], s) => some s
    | _ => none
  | .createWindow id body bar width height x y pixels =>
    if s.fresh [id, body, bar] then
      s.addChild s.rootContainer.label.id (Window.construct id body bar width height x y pixels)
    else none
  | .addText id txtX txtY pixels =>
    if s.fresh [id] then
      s.addChild s.rootContainer.label.id
        (.node (Element.construct id .Drawable (20 * 40) 42 (txtX * 20) (txtY * 42) pixels) [])
    else none
  | .addInWindow window id x y pixels =>
    if s.fresh [id] && (s.element window).any Element.isWindow then
      s.addChild window (.node (Element.construct id .Drawable 0 0 x y pixels) [])
    else none
  | .changeVisible id visible => s.changeVisible id visible

end MouseState

/-- The desktop with its mouse, from the start on. -/
def mouseMachine : Machine MouseState MouseEvent where
  init s := ∃ id mouse pixels dragOffsetX dragOffsetY,
    id ≠ mouse ∧ s = MouseState.booted id mouse pixels dragOffsetX dragOffsetY
  step s event s' := s.exec event = some s'

/-! ## A move

  `updateLocation` changes the element itself and recomputes everything below it from the
  offsets. On a desk every offset is right already (`Layout`), so the whole group goes on by the
  same amount (`Goes`) and the desk is a desk again (`Desk.moved`).  By induction on the tree
  (`following_goes`, `updateChildren_goes`), an element before its children. -/

/-- Of the group, an element goes on by `(dx, dy)`; the others stay. -/
structure Goes (group : List Nat) (dx dy : int32_t) (e e' : Element) : Prop where
  /-- It is the same element, -/
  id : e'.id = e.id
  /-- of the same class, -/
  cls : e'.cls = e.cls
  /-- at its new place. -/
  absX : e'.absX = if e.id ∈ group then e.absX + dx else e.absX
  absY : e'.absY = if e.id ∈ group then e.absY + dy else e.absY

/-- From `d` to `d'` the elements of the group have gone on by `(dx, dy)`. -/
def Moves (group : List Nat) (dx dy : int32_t) (d d' : Container) : Prop :=
  List.Forall₂ (Goes group dx dy) (elements d) (elements d')

/-- What an element is to its parent on a desk.  It is stated of the two alone, so that a move has
    to keep it at each edge of the tree only, and a new child has to have it at one. -/
structure Layout (theMouse : Nat) (parent e : Element) : Prop where
  /-- The element is at its offset from the parent. -/
  follows : Follows parent e
  /-- A title bar is at the corner of a window: who moves the window instead of the bar puts the
      window where the bar was to be. -/
  bar : e.cls = .TitleBar → (e.relX = 0 ∧ e.relY = 0) ∧ ∃ body, parent.cls = .Window body
  /-- The mouse is on the desktop, so that no window takes it along. -/
  mouse : e.id = theMouse → parent.cls = .Desktop
  desktop : e.cls ≠ .Desktop
  /-- Nothing is below the mouse, so that it moves alone. -/
  alone : parent.id ≠ theMouse

/-- A desktop with windows, and a mouse. -/
structure Desk (theMouse : Nat) (d : Container) : Prop where
  layout : Edges (Layout theMouse) d
  root : d.label.cls = .Desktop ∧ d.label.id ≠ theMouse
  /-- The desktop is never moved: where a window is constructed, it is on the screen. -/
  origin : d.label.absX = 0 ∧ d.label.absY = 0
  /-- An address is that of one element: a pointer says which one is meant. -/
  ids : ((elements d).map Element.id).Nodup
  mouse : ∃ m ∈ elements d, m.id = theMouse ∧ m.cls = .Drawable

section Move

variable {theMouse : Nat} {d d' t : Container} {C : Context Element} {e e' : Element}
  {group : List Nat} {dx dy newX newY : int32_t}

/-- Address and class stay. -/
def Same (e e' : Element) : Prop := e'.id = e.id ∧ e'.cls = e.cls

mutual

/-- Below a parent that has moved, the layout stays.  The induction is the source's recursion, over
    an element and over its children; of the parent it needs the address and the class alone, for
    the elements are put at their offsets from where the parent is now. -/
theorem following_layout {parent parent' : Element} (hparent : Same parent parent') :
    ∀ t : Container, Layout theMouse parent t.label → Edges (Layout theMouse) t →
    Layout theMouse parent' (updateLocationFollowingParent parent'.absX parent'.absY t).label ∧
      Edges (Layout theMouse) (updateLocationFollowingParent parent'.absX parent'.absY t)
  | .node e children, h, hedges => by
    refine ⟨⟨⟨rfl, rfl⟩, fun hbar => ?_, fun hmouse => ?_, h.desktop, ?_⟩, ?_⟩
    · obtain ⟨hrel, body, hwindow⟩ := h.bar hbar
      exact ⟨hrel, body, hparent.2.trans hwindow⟩
    · exact hparent.2.trans (h.mouse hmouse)
    · rw [hparent.1]
      exact h.alone
    · have hsame : Same e { e with absX := parent'.absX + e.relX, absY := parent'.absY + e.relY } :=
        ⟨rfl, rfl⟩
      exact updateChildren_layout hsame children hedges

theorem updateChildren_layout {parent parent' : Element} (hparent : Same parent parent') :
    ∀ children : List Container, EdgesAll (Layout theMouse) parent children →
      EdgesAll (Layout theMouse) parent' (updateChildren parent'.absX parent'.absY children)
  | [], _ => trivial
  | c :: children, ⟨⟨hc, hedges⟩, hrest⟩ =>
    ⟨following_layout hparent c hc hedges, updateChildren_layout hparent children hrest⟩

end

mutual

/-- Below a parent that has moved by `(dx, dy)`, everything has: the new place of an element comes
    from its offset, which together with the parent's old place gave the element's old one. -/
theorem following_goes {parent : Element} : ∀ t : Container, Follows parent t.label →
    Edges Follows t → (∀ e ∈ elements t, e.id ∈ group) →
    List.Forall₂ (Goes group dx dy) (elements t)
      (elements (updateLocationFollowingParent (parent.absX + dx) (parent.absY + dy) t))
  | .node e children, h, hedges, hgroup => by
    obtain ⟨hx, hy⟩ : e.absX = parent.absX + e.relX ∧ e.absY = parent.absY + e.relY := h
    rw [elements, preorder, if_pos rfl, List.forall_mem_cons] at hgroup
    -- the parent of the children has moved by the same amount again
    have hx' : parent.absX + dx + e.relX = e.absX + dx := by rw [hx]; bv_omega
    have hy' : parent.absY + dy + e.relY = e.absY + dy := by rw [hy]; bv_omega
    rw [elements, preorder, if_pos rfl, updateLocationFollowingParent, hx', hy', preorder,
      if_pos rfl]
    exact .cons ⟨rfl, rfl, (if_pos hgroup.1).symm, (if_pos hgroup.1).symm⟩
      (updateChildren_goes children hedges hgroup.2)

theorem updateChildren_goes {parent : Element} :
    ∀ children : List Container, EdgesAll Follows parent children →
    (∀ e ∈ preorderAll (fun _ => true) children, e.id ∈ group) →
      List.Forall₂ (Goes group dx dy) (preorderAll (fun _ => true) children)
      (preorderAll (fun _ => true) (updateChildren (parent.absX + dx) (parent.absY + dy) children))
  | [], _, _ => .nil
  | c :: children, ⟨⟨hc, hedges⟩, hrest⟩, hgroup => by
    rw [preorderAll, List.forall_mem_append] at hgroup
    exact List.rel_append (following_goes c hc hedges hgroup.1)
      (updateChildren_goes children hrest hgroup.2)

end

/-- A container is among its elements. -/
theorem label_mem_elements (t : Container) : t.label ∈ elements t := by
  obtain ⟨e, children⟩ := t
  exact List.mem_cons_self

/-- The elements of the tree: those before the place, those there, and those after. -/
theorem elements_plug (C : Context Element) (t : Container) : elements (plug C t) =
    Context.lower (fun _ => true) C ++ elements t ++ Context.upper (fun _ => true) C :=
  preorder_plug_all C t

/-- A move gives no element another address. -/
theorem Moves.ids (h : Moves group dx dy d d') :
    (elements d').map Element.id = (elements d).map Element.id := by
  unfold Moves at h
  generalize elements d = es at h ⊢
  generalize elements d' = es' at h ⊢
  induction h with
  | nil => rfl
  | cons hgo _ ih => rw [List.map_cons, List.map_cons, hgo.id, ih]

/-- An element afterwards. -/
theorem Moves.element (h : Moves group dx dy d d') (he : e ∈ elements d) :
    ∃ e' ∈ elements d', Goes group dx dy e e' := by
  unfold Moves at h
  generalize elements d = es at h he
  generalize elements d' = es' at h ⊢
  induction h with
  | nil => cases he
  | cons hgo _ ih =>
    rcases List.mem_cons.mp he with rfl | he
    · exact ⟨_, List.mem_cons_self, hgo⟩
    · obtain ⟨e', he', hgo'⟩ := ih he
      exact ⟨e', List.mem_cons_of_mem _ he', hgo'⟩

/-- It moves the root as it moves the others. -/
theorem Moves.root (h : Moves group dx dy d d') : Goes group dx dy d.label d'.label := by
  obtain ⟨e, children⟩ := d
  obtain ⟨e', children'⟩ := d'
  cases h with
  | cons hgo _ => exact hgo

/-- A desk after a move that leaves the desktop itself alone: what a desk says of single elements
    is about addresses, classes and the place of the desktop. -/
theorem Desk.moved (h : Desk theMouse d) (hmoves : Moves group dx dy d d')
    (hlayout : Edges (Layout theMouse) d') (hroot : d.label.id ∉ group) : Desk theMouse d' where
  layout := hlayout
  root := ⟨hmoves.root.cls.trans h.root.1, hmoves.root.id ▸ h.root.2⟩
  origin := ⟨(hmoves.root.absX.trans (if_neg hroot)).trans h.origin.1,
    (hmoves.root.absY.trans (if_neg hroot)).trans h.origin.2⟩
  ids := by
    rw [hmoves.ids]
    exact h.ids
  mouse := by
    obtain ⟨m, hm, hid, hcls⟩ := h.mouse
    obtain ⟨m', hm', hgo⟩ := hmoves.element hm
    exact ⟨m', hm', hgo.id.trans hid, hgo.cls.trans hcls⟩

/-- There is one element at an address. -/
theorem Desk.unique (h : Desk theMouse d) (he : e ∈ elements d) (he' : e' ∈ elements d)
    (hid : e'.id = e.id) : e' = e :=
  List.inj_on_of_nodup_map h.ids he' he hid

/-- The addresses around a hole are others than those in it. -/
theorem Desk.around (h : Desk theMouse (plug C t)) (he : e ∈ elements t) :
    (∀ b ∈ Context.lower (fun _ => true) C, b.id ≠ e.id) ∧ ∀ b ∈ Context.upper (fun _ => true) C,
    b.id ≠ e.id := by
  have hids := h.ids
  rw [elements_plug, List.map_append, List.map_append, List.nodup_append, List.nodup_append] at hids
  obtain ⟨⟨-, -, hlower⟩, -, hupper⟩ := hids
  have hmem := List.mem_map_of_mem (f := Element.id) he
  refine ⟨fun b hb => hlower _ (List.mem_map_of_mem hb) _ hmem, fun b hb heq => ?_⟩
  exact hupper _ (List.mem_append_right _ hmem) _ (List.mem_map_of_mem hb) heq.symm

/-- No desktop is below anything. -/
theorem not_desktop (h : Edges (Layout theMouse) t) (he : e ∈ elements t)
    (hcls : e.cls = .Desktop) : e = t.label := by
  rcases h.parent he with rfl | ⟨parent, -, hlayout⟩
  · rfl
  · exact absurd hcls hlayout.desktop

/-- The mouse is below the desktop. -/
theorem not_mouse (h : Edges (Layout theMouse) t) (he : e ∈ elements t) (hid : e.id = theMouse) :
    e = t.label ∨ t.label.cls = .Desktop := by
  rcases h.parent he with rfl | ⟨parent, hparent, hlayout⟩
  · exact Or.inl rfl
  · have hcls := hlayout.mouse hid
    rw [not_desktop h hparent hcls] at hcls
    exact Or.inr hcls

/-- **A move** of an element: everything below it goes on by the same amount, and all else stays.
    A title bar is excluded, for it would leave the corner of its window, and the desktop, for it
    would leave the origin. -/
theorem moves_plug (h : Desk theMouse (plug C t)) (hbar : t.label.cls ≠ .TitleBar)
    (hdesktop : t.label.cls ≠ .Desktop) (newX newY : int32_t) :
    Desk theMouse (plug C (Ui.updateLocation newX newY t)) ∧
    Moves ((elements t).map Element.id) (newX - t.label.absX) (newY - t.label.absY) (plug C t)
      (plug C (Ui.updateLocation newX newY t)) := by
  obtain ⟨hcontext, hedges⟩ := edges_plug.mp h.layout
  have haround := fun e he => h.around (e := e) he
  have hstay : ∀ {b : Element}, (∀ e ∈ elements t, b.id ≠ e.id) →
      Goes ((elements t).map Element.id) (newX - t.label.absX) (newY - t.label.absY) b b := by
    intro b hb
    have hnot : b.id ∉ (elements t).map Element.id := fun hmem => by
      obtain ⟨e, he, hid⟩ := List.mem_map.mp hmem
      exact hb e he hid.symm
    exact ⟨rfl, rfl, (if_neg hnot).symm, (if_neg hnot).symm⟩
  have hmoves :
      Moves ((elements t).map Element.id) (newX - t.label.absX) (newY - t.label.absY) (plug C t)
      (plug C (Ui.updateLocation newX newY t)) := by
    rw [Moves, elements_plug, elements_plug]
    -- the elements around the hole, which are not in the group, on both sides of those in it
    refine List.rel_append (List.rel_append ?_ ?_) ?_
    · exact List.forall₂_same.mpr fun b hb => hstay fun e he => (haround e he).1 b hb
    · obtain ⟨e, children⟩ := t
      have hx : e.absX + (newX - e.absX) = newX := by bv_omega
      have hy : e.absY + (newY - e.absY) = newY := by bv_omega
      have hgroup : ∀ a ∈ elements (.node e children),
          a.id ∈ (elements (.node e children)).map Element.id :=
        fun a ha => List.mem_map_of_mem ha
      have hbelow : List.Forall₂ (Goes _ (newX - e.absX) (newY - e.absY)) _ _ :=
        updateChildren_goes children (Edges.imp (fun _ _ h => h.follows) hedges)
          fun a ha => hgroup a (List.mem_cons_of_mem e ha)
      rw [hx, hy] at hbelow
      refine .cons ⟨rfl, rfl, ?_, ?_⟩ hbelow
      · rw [if_pos (hgroup e List.mem_cons_self)]
        exact hx.symm
      · rw [if_pos (hgroup e List.mem_cons_self)]
        exact hy.symm
    · exact List.forall₂_same.mpr fun b hb => hstay fun e he => (haround e he).2 b hb
  -- the desktop is not in the hole, or it would be all of it
  have hroot : (plug C t).label.id ∉ (elements t).map Element.id := fun hmem => by
    obtain ⟨e, he, hid⟩ := List.mem_map.mp hmem
    have he' : e ∈ elements (plug C t) := by
      rw [elements_plug]
      exact List.mem_append_left _ (List.mem_append_right _ he)
    obtain rfl : e = (plug C t).label := h.unique (label_mem_elements _) he' hid
    rw [not_desktop hedges he h.root.1] at hid
    exact hdesktop (not_desktop hedges he h.root.1 ▸ h.root.1)
  refine ⟨h.moved hmoves (edges_plug.mpr ⟨?_, ?_⟩) hroot, hmoves⟩
  · -- the edge above: the source gives the element the offset of its new place
    cases C with
    | nil => trivial
    | cons f C =>
      obtain ⟨hlayout, hrest⟩ := hcontext
      obtain ⟨e, children⟩ := t
      exact ⟨⟨updateLocation_follows hlayout.follows, fun hcls => absurd hcls hbar, hlayout.mouse,
        hlayout.desktop, hlayout.alone⟩, hrest⟩
  · obtain ⟨e, children⟩ := t
    have hsame : Same e (e.moveTo newX newY) := ⟨rfl, rfl⟩
    exact updateChildren_layout hsame children hedges

end Move

/-! ## Pointers

  The driver keeps addresses.  As they are all different, the search gives the element that is
  meant wherever it is in the tree, and a change at an address is a change at one place
  (`find_plug`). `passUp` is what `isMovable` and `updateLocation` do with a part of a title bar:
  the window that is moved is an ancestor. -/

namespace MouseState

/-- The element that moves when the one at an address is moved, with what is around it. -/
def mover (id : Nat) (s : MouseState) : Option (Context Element × Container) :=
  (s.find id).bind fun r => passUp r.1 r.2

/-- What moves with the element at an address. -/
def group (id : Nat) (s : MouseState) : List Nat :=
  ((s.mover id).map fun r => (elements r.2).map Element.id).getD []

/-- What goes where the mouse goes. -/
def held (s : MouseState) : List Nat :=
  match s.isDragging with
  | some (some id) => if (s.element id).any Element.isMovable then s.group id else []
  | _ => []

variable {s s' : MouseState} {t : Container} {C : Context Element} {e : Element} {theMouse : Nat}
  {newX newY : int32_t}

/-- The search for an address finds the hole in which its element is, and no other. -/
theorem find_plug (h : Desk theMouse (plug C t)) (hs : s.rootContainer = plug C t) :
    s.find t.label.id = some (C, t) := by
  have haround := h.around (label_mem_elements t)
  have hmissed : Context.Missed (fun e => e.id == t.label.id) C :=
    missed_of (fun b hb => beq_eq_false_iff_ne.mpr (haround.1 b hb))
      fun b hb => beq_eq_false_iff_ne.mpr (haround.2 b hb)
  rw [find, hs]
  exact search_plug hmissed (beq_self_eq_true _)

/-- A pointer to an element leads to it. -/
theorem find_of_mem (h : Desk theMouse s.rootContainer) (he : e ∈ elements s.rootContainer) :
    ∃ C t, s.find e.id = some (C, t) ∧ plug C t = s.rootContainer ∧ t.label = e := by
  have hsome : (s.find e.id).isSome := search_isSome he (beq_self_eq_true _)
  obtain ⟨⟨C, t⟩, hfound⟩ := Option.isSome_iff_exists.mp hsome
  obtain ⟨hplug, hhit⟩ := search_some hfound
  have hmem : t.label ∈ elements s.rootContainer := by
    rw [show s.rootContainer = plug C t from hplug.symm, elements_plug]
    exact List.mem_append_left _ (List.mem_append_right _ (label_mem_elements t))
  exact ⟨C, t, hfound, hplug, h.unique he hmem (beq_iff_eq.mp hhit)⟩

/-- So a pointer to an element gives that element. -/
theorem element_of_mem (h : Desk theMouse s.rootContainer) (he : e ∈ elements s.rootContainer) :
    s.element e.id = some e := by
  obtain ⟨C, t, hfound, -, hlabel⟩ := find_of_mem h he
  rw [element, hfound]
  exact congrArg some hlabel

/-- Only a title bar passes a move on to its parent. -/
theorem passUp_self (h : t.label.cls ≠ .TitleBar) : passUp C t = some (C, t) := by
  cases C with
  | nil => exact if_neg h
  | cons f C => exact if_neg h

/-- The desktop cannot be moved. -/
theorem not_desktop_of_movable (h : e.isMovable = true) : e.cls ≠ .Desktop := by
  intro hcls
  rw [Element.isMovable, hcls] at h
  exact Bool.false_ne_true h

/-- The children before and after one of them are moved as the children. -/
theorem updateChildren_append (absX absY : int32_t) (children children' : List Container) :
    updateChildren absX absY (children ++ children') =
      updateChildren absX absY children ++ updateChildren absX absY children' := by
  induction children with
  | nil => rfl
  | cons c children ih =>
    rw [List.cons_append, updateChildren, ih, updateChildren, List.cons_append]

/-- **Who is moved**: the element itself, or the window, if it is a title bar; that is at the same
    place, and it is the same one after a move.  The last part is what a drag over many packets
    needs: each packet searches for the element again, in a tree that has changed. -/
theorem mover_spec (h : Desk theMouse s.rootContainer) (he : e ∈ elements s.rootContainer)
    (hdesktop : e.cls ≠ .Desktop) :
    ∃ C t, s.mover e.id = some (C, t) ∧ plug C t = s.rootContainer ∧
      (t.label.cls ≠ .TitleBar ∧ t.label.cls ≠ .Desktop) ∧ e ∈ elements t ∧
      (t.label.absX = e.absX ∧ t.label.absY = e.absY) ∧
      (t.label = e ∨ e.cls = .TitleBar ∧ ∃ body, t.label.cls = .Window body) ∧
      ∀ (newX newY : int32_t) (s' : MouseState),
        s'.rootContainer = plug C (Ui.updateLocation newX newY t) →
        s'.mover e.id = some (C, Ui.updateLocation newX newY t) := by
  obtain ⟨C, t, hfound, hplug, rfl⟩ := find_of_mem h he
  rw [← hplug] at h
  by_cases hbar : t.label.cls = .TitleBar
  · -- a title bar: the window around it is moved
    obtain ⟨hcontext, hedges⟩ := edges_plug.mp h.layout
    cases C with
    | nil => exact absurd (h.root.1.symm.trans hbar) (by decide)
    | cons f C =>
      obtain ⟨⟨hx, hy⟩, body, hwindow⟩ := hcontext.1.bar hbar
      obtain ⟨hfx, hfy⟩ := hcontext.1.follows
      have hcls : f.label.cls ≠ .TitleBar ∧ f.label.cls ≠ .Desktop := by
        rw [hwindow]
        exact ⟨(fun h => nomatch h), (fun h => nomatch h)⟩
      have hmem : t.label ∈ elements (f.fill t) := by
        rw [show f.fill t = plug [f] t from rfl, elements_plug]
        exact List.mem_append_left _ (List.mem_append_right _ (label_mem_elements t))
      have hpass : ∀ (g : Frame Element) (u : Container), u.label.cls = .TitleBar →
          g.label.cls ≠ .TitleBar → passUp (g :: C) u = some (C, g.fill u) := fun g u hu hg => by
        rw [passUp, if_pos hu]
        exact passUp_self hg
      refine ⟨C, f.fill t, ?_, hplug, hcls, hmem, ⟨?_, ?_⟩, Or.inr ⟨hbar, body, hwindow⟩,
        fun newX newY s' hs' => ?_⟩
      · rw [mover, hfound]
        exact hpass f t hbar hcls.1
      · rw [hfx, hx]
        exact (BitVec.add_zero _).symm
      · rw [hfy, hy]
        exact (BitVec.add_zero _).symm
      · -- the bar's frame has moved
        let g : Frame Element := ⟨f.label.moveTo newX newY, updateChildren newX newY f.before,
          updateChildren newX newY f.after⟩
        have hfill :
            Ui.updateLocation newX newY (f.fill t) =
              g.fill (updateLocationFollowingParent newX newY t) := by
          rw [Frame.fill, Ui.updateLocation, updateChildren_append, updateChildren]
          rfl
        have hlabel : (updateLocationFollowingParent newX newY t).label.id = t.label.id ∧
            (updateLocationFollowingParent newX newY t).label.cls = t.label.cls := by
          obtain ⟨e, children⟩ := t
          exact ⟨rfl, rfl⟩
        have hdesk := (moves_plug (C := C) (t := f.fill t) h hcls.1 hcls.2 newX newY).1
        rw [hfill] at hdesk hs' ⊢
        rw [mover, ← hlabel.1, find_plug (C := g :: C) hdesk hs']
        exact hpass g _ (hlabel.2.trans hbar) hcls.1
  · -- anything else: it is moved itself
    refine ⟨C, t, ?_, hplug, ⟨hbar, hdesktop⟩, label_mem_elements t, ⟨rfl, rfl⟩, Or.inl rfl,
      fun newX newY s' hs' => ?_⟩
    · rw [mover, hfound]
      exact passUp_self hbar
    · have hdesk := (moves_plug h hbar hdesktop newX newY).1
      have hfind := find_plug hdesk hs'
      rw [label_updateLocation] at hfind
      rw [mover, show t.label.id = (t.label.moveTo newX newY).id from rfl, hfind]
      refine passUp_self ?_
      rw [label_updateLocation]
      exact hbar

/-- **`updateLocation`** has a result: the group of the element goes on, and it is the same
    group. -/
theorem updateLocation_spec (h : Desk theMouse s.rootContainer) (he : e ∈ elements s.rootContainer)
    (hdesktop : e.cls ≠ .Desktop) (newX newY : int32_t) :
    ∃ d', s.updateLocation e.id newX newY = some { s with rootContainer := d' } ∧
      Desk theMouse d' ∧ Moves (s.group e.id) (newX - e.absX) (newY - e.absY) s.rootContainer d' ∧
      (∀ s' : MouseState, s'.rootContainer = d' → s'.group e.id = s.group e.id) ∧
      e.id ∈ s.group e.id := by
  obtain ⟨C, t, hmover, hplug, ⟨hbar, hnot⟩, hmem, ⟨hx, hy⟩, -, hafter⟩ := mover_spec h he hdesktop
  have hgroup : s.group e.id = (elements t).map Element.id := by rw [group, hmover]; rfl
  rw [← hplug] at h
  obtain ⟨hdesk, hmoves⟩ := moves_plug h hbar hnot newX newY
  refine ⟨plug C (Ui.updateLocation newX newY t), ?_, hdesk, ?_, fun s' hs' => ?_, ?_⟩
  · rw [updateLocation, ← mover, hmover]
    rfl
  · rw [hgroup, ← hplug, ← hx, ← hy]
    exact hmoves
  · -- a move keeps the list of the addresses, around the hole too, hence in it
    rw [group, hafter newX newY s' hs', hgroup]
    show (elements (Ui.updateLocation newX newY t)).map Element.id = _
    have hids := hmoves.ids
    rw [elements_plug, elements_plug, List.map_append, List.map_append, List.map_append,
      List.map_append] at hids
    exact List.append_cancel_left (List.append_cancel_right hids)
  · rw [hgroup]
    exact List.mem_map_of_mem hmem

/-! ## Packets -/

section Groups

variable {m : Element}

/-- What is at an address, as long as the elements are a desk. -/
theorem element_iff (h : Desk theMouse s.rootContainer) {id : Nat} :
    s.element id = some e ↔ e ∈ elements s.rootContainer ∧ e.id = id := by
  constructor
  · intro helement
    obtain ⟨⟨C, t⟩, hfound, rfl⟩ := Option.map_eq_some_iff.mp helement
    obtain ⟨hplug, hhit⟩ := search_some hfound
    refine ⟨?_, beq_iff_eq.mp hhit⟩
    rw [show s.rootContainer = plug C t from hplug.symm, elements_plug]
    exact List.mem_append_left _ (List.mem_append_right _ (label_mem_elements t))
  · rintro ⟨he, rfl⟩
    exact element_of_mem h he

/-- The mouse moves alone: it is no title bar, and it is nobody's parent. -/
theorem group_mouse (h : Desk s.theMouse s.rootContainer) (hm : s.element s.theMouse = some m) :
    s.group s.theMouse = [s.theMouse] := by
  obtain ⟨hmem, hid⟩ := (element_iff h).mp hm
  obtain ⟨m', hm', hid', hcls⟩ := h.mouse
  obtain rfl : m' = m := h.unique hmem hm' (hid'.trans hid.symm)
  have hdrawable : m'.cls ≠ .Desktop := by
    rw [hcls]
    exact fun h => nomatch h
  obtain ⟨C, t, hmover, hplug, -, -, -, hlabel, -⟩ := mover_spec h hmem hdrawable
  rcases hlabel with rfl | ⟨hbar, -⟩
  · rw [hid] at hmover
    rw [group, hmover]
    rw [← hplug] at h
    obtain ⟨e, children⟩ := t
    have hedges := (edges_plug.mp h.layout).2
    cases children with
    | nil => exact congrArg (fun id => [id]) hid
    | cons c children => exact absurd hid hedges.1.1.alone
  · exact absurd (hcls.symm.trans hbar) (fun h => nomatch h)

/-- No other element takes the mouse along: what can be moved is a window or the bar of one, so a
    window moves, and the mouse is on the desktop. -/
theorem mouse_not_mem_group (h : Desk theMouse s.rootContainer) (he : e ∈ elements s.rootContainer)
    (hmovable : e.isMovable = true) : theMouse ∉ s.group e.id := by
  obtain ⟨C, t, hmover, hplug, ⟨hbar, -⟩, -, -, hlabel, -⟩ :=
    mover_spec h he (not_desktop_of_movable hmovable)
  have hwindow : ∃ body, t.label.cls = .Window body := by
    rcases hlabel with hlabel | ⟨-, hwindow⟩
    · rw [← hlabel] at hmovable
      unfold Element.isMovable at hmovable
      split at hmovable
      · next body hcls => exact ⟨body, hcls⟩
      · next hcls => exact absurd hcls hbar
      · exact absurd hmovable Bool.false_ne_true
    · exact hwindow
  obtain ⟨body, hcls⟩ := hwindow
  rw [group, hmover]
  intro hmem
  obtain ⟨a, ha, hid⟩ := List.mem_map.mp hmem
  rw [← hplug] at h
  obtain ⟨m, hm, hmid, hmcls⟩ := h.mouse
  have ha' : a ∈ elements (plug C t) := by
    rw [elements_plug]
    exact List.mem_append_left _ (List.mem_append_right _ ha)
  obtain rfl : a = m := h.unique hm ha' (hid.trans hmid.symm)
  rcases not_mouse (edges_plug.mp h.layout).2 ha hid with rfl | hdesktop
  · exact absurd (hmcls.symm.trans hcls) fun h => nomatch h
  · exact absurd (hdesktop.symm.trans hcls) fun h => nomatch h

/-- Where the element at an address is after a move. -/
theorem element_moved (s' : MouseState) {group : List Nat} {dx dy : int32_t} {d' : Container}
    (h : Desk theMouse s.rootContainer) (hdesk : Desk theMouse d')
    (hmoves : Moves group dx dy s.rootContainer d') (hs : s'.rootContainer = d')
    {id : Nat} (he : s.element id = some e) :
    ∃ e', s'.element id = some e' ∧ Goes group dx dy e e' := by
  obtain ⟨hmem, rfl⟩ := (element_iff h).mp he
  obtain ⟨e', he', hgo⟩ := hmoves.element hmem
  subst hs
  exact ⟨e', (element_iff hdesk).mpr ⟨he', hgo.id⟩, hgo⟩

end Groups

/-! ### The movements

  A coordinate is between -8 and 1018 and a movement between -256 and 255, so that neither the
  sum nor the comparisons of `clamp` overflow an `int32_t`. -/

section Movements

variable {size offset : int32_t}

/-- The mouse stays on the screen, if the bounds themselves do not overflow. -/
theorem toInt_clamp (hsize : (size - offset).toInt = size.toInt - offset.toInt)
    (hoffset : (-offset).toInt = -offset.toInt) (hle : -offset.toInt ≤ size.toInt - offset.toInt)
    (new : int32_t) :
    (clamp size offset new).toInt =
      max (-offset.toInt) (min (size.toInt - offset.toInt) new.toInt) := by
  rw [clamp]
  split <;> split <;> omega

/-- A coordinate and a movement do not overflow: here the bounds of `Good` are needed. -/
theorem toInt_moved {x d : int32_t} (hx : -8 ≤ x.toInt ∧ x.toInt ≤ 1018)
    (hd : -256 ≤ d.toInt ∧ d.toInt ≤ 255) :
    (x + d).toInt = x.toInt + d.toInt ∧ (x - d).toInt = x.toInt - d.toInt := by
  rw [BitVec.toInt_add, BitVec.toInt_sub]
  exact ⟨Int.bmod_eq_of_le (by omega) (by omega), Int.bmod_eq_of_le (by omega) (by omega)⟩

/-- A movement has nine bits. -/
theorem toInt_delta (flags sign byte : BitVec 8) :
    (delta flags sign byte).toInt = byte.toNat - if flags &&& sign ≠ 0 then 256 else 0 := by
  rw [delta]
  split
  · revert byte
    decide +kernel
  · revert byte
    decide +kernel

/-- The range of a movement. -/
theorem range_delta (flags sign byte : BitVec 8) :
    -256 ≤ (delta flags sign byte).toInt ∧ (delta flags sign byte).toInt ≤ 255 := by
  have hbyte := byte.isLt
  rw [toInt_delta]
  split
  · omega
  · omega

end Movements

/-! ### A packet

  The handler moves the mouse, and then looks at the button: while it is down the mouse takes
  what is under it, unless it has something, and drags that if the packet was a movement; when it
  goes up the mouse lets go.  One lemma says what each part does to a desk (`moveMouse_spec`,
  `leftClick_spec`, `dragged_spec`, `leftButton_spec`), and `packet_spec` puts them together. -/

/-- What is dragged was taken at the offsets that the driver keeps, and the mouse, now at `m`, has
    gone on by `(dx, dy)` since.  About an element that cannot be moved it says nothing but that
    the element is there: `drag` never moves it. -/
def Grips (s : MouseState) (m : Element) (dx dy : int32_t) : Prop :=
  ∀ id, s.isDragging = some (some id) → ∃ e ∈ elements s.rootContainer, e.id = id ∧
    (e.isMovable = true → m.absX - e.absX = s.dragOffsetX + dx ∧
      m.absY - e.absY = s.dragOffsetY + dy)

/-- **The invariant** between two events: what the mouse takes stays under it at the same place, as
    long as the button is down. -/
structure Good (s : MouseState) : Prop where
  desk : Desk s.theMouse s.rootContainer
  /-- The mouse is on the screen, with the point it clicks at. -/
  pointer : ∀ m, s.element s.theMouse = some m →
    (-6 ≤ m.absX.toInt ∧ m.absX.toInt ≤ 1018) ∧ -8 ≤ m.absY.toInt ∧ m.absY.toInt ≤ 760
  /-- Something is dragged, be it the null pointer, while the button is down. -/
  pressed : s.isDragging.isSome = s.left_botton_pressed
  /-- What is dragged is not behind the mouse. -/
  grips : ∀ m, s.element s.theMouse = some m → Grips s m 0 0

section Packet

variable {m : Element} {dx dy : int32_t}

/-- The mouse has moved by a movement, within the screen. -/
structure Pointed (m m' : Element) (dx dy : int32_t) : Prop where
  absX : m'.absX.toInt = max (-6) (min 1018 (m.absX.toInt + dx.toInt))
  absY : m'.absY.toInt = max (-8) (min 760 (m.absY.toInt - dy.toInt))

/-- **The mouse is moved**, and nothing else. -/
theorem moveMouse_spec (h : Good s) (hdx : -256 ≤ dx.toInt ∧ dx.toInt ≤ 255)
    (hdy : -256 ≤ dy.toInt ∧ dy.toInt ≤ 255) (hm : s.element s.theMouse = some m) :
    ∃ d' m', s.moveMouse dx dy = some { s with rootContainer := d' } ∧ Desk s.theMouse d' ∧
    Moves [s.theMouse] (m'.absX - m.absX) (m'.absY - m.absY) s.rootContainer d' ∧
    MouseState.element s.theMouse { s with rootContainer := d' } = some m' ∧
    Pointed m m' dx dy := by
  obtain ⟨⟨hx0, hx1⟩, hy0, hy1⟩ := h.pointer m hm
  obtain ⟨hmem, hid⟩ := (element_iff h.desk).mp hm
  have hgroup := group_mouse h.desk hm
  -- the mouse is an element of its own, with nothing below it, and not the desktop
  have hdrawable : m.cls ≠ .Desktop := by
    obtain ⟨m', hm', hid', hcls⟩ := h.desk.mouse
    obtain rfl : m' = m := h.desk.unique hmem hm' (hid'.trans hid.symm)
    rw [hcls]
    exact fun h => nomatch h
  obtain ⟨d', hupdate, hdesk, hmoves, -, -⟩ := updateLocation_spec h.desk hmem hdrawable
    (clamp ScreenWidth ClickPointOffsetX (m.absX + dx))
      (clamp ScreenHeight ClickPointOffsetY (m.absY - dy))
  rw [hid] at hupdate hmoves
  rw [hgroup] at hmoves
  obtain ⟨m', hm', hgo⟩ := element_moved { s with rootContainer := d' } h.desk hdesk hmoves rfl hm
  have hx : m'.absX = clamp ScreenWidth ClickPointOffsetX (m.absX + dx) := by
    rw [hgo.absX, if_pos (by rw [hid]; exact List.mem_singleton_self _)]
    bv_omega
  have hy : m'.absY = clamp ScreenHeight ClickPointOffsetY (m.absY - dy) := by
    rw [hgo.absY, if_pos (by rw [hid]; exact List.mem_singleton_self _)]
    bv_omega
  refine ⟨d', m', ?_, hdesk, ?_, hm', ?_, ?_⟩
  · rw [moveMouse, hm]
    exact hupdate
  · rw [hx, hy]
    exact hmoves
  · rw [hx, toInt_clamp (by decide) (by decide) (by decide),
      (toInt_moved ⟨by omega, by omega⟩ hdx).1]
    rfl
  · rw [hy, toInt_clamp (by decide) (by decide) (by decide),
      (toInt_moved ⟨by omega, by omega⟩ hdy).2]
    rfl

/-- To leave the elements alone is a move, of nothing or to nowhere. -/
theorem moves_stay {group : List Nat} {d : Container} (h : group = [] ∨ dx = 0 ∧ dy = 0) :
    Moves group dx dy d d := by
  refine List.forall₂_same.mpr fun e _ => ?_
  rcases h with rfl | ⟨rfl, rfl⟩
  · exact ⟨rfl, rfl, rfl, rfl⟩
  · have hzero : ∀ x : int32_t, x + 0 = x := BitVec.add_zero
    exact ⟨rfl, rfl, by rw [hzero, ite_self], by rw [hzero, ite_self]⟩

/-- An element that can be moved is held with all that moves with it. -/
theorem held_movable {id : Nat} (hdrag : s.isDragging = some (some id)) (he : s.element id = some e)
    (hmovable : e.isMovable = true) : s.held = s.group id := by
  rw [held, hdrag]
  dsimp only
  rw [he, Option.any_some, hmovable, if_pos rfl]

/-- What is held in a state: the group of an element that can be moved, or nothing; the latter if
    the mouse drags the null pointer, or an element that stays. -/
theorem held_of {el : Option Nat} (h : Desk theMouse s.rootContainer)
    (hdrag : s.isDragging = some el) :
    (∃ id e, el = some id ∧ s.element id = some e ∧ e.isMovable = true ∧ s.held = s.group id ∧
      theMouse ∉ s.held) ∨ s.held = [] ∧ ∀ id e, el = some id → s.element id = some e →
      e.isMovable = false := by
  cases el with
  | none =>
    rw [held, hdrag]
    exact Or.inr ⟨rfl, fun _ _ h => nomatch h⟩
  | some id =>
    cases he : s.element id with
    | none =>
      rw [held, hdrag]
      dsimp only
      rw [he]
      refine Or.inr ⟨rfl, fun id' e hid he' => ?_⟩
      obtain rfl := Option.some.inj hid
      exact absurd (he.symm.trans he') (fun h => nomatch h)
    | some e =>
      cases hmovable : e.isMovable with
      | true =>
        obtain ⟨hmem, hid⟩ := (element_iff h).mp he
        have hheld := held_movable hdrag he hmovable
        refine Or.inl ⟨id, e, rfl, he, hmovable, hheld, ?_⟩
        rw [hheld, ← hid]
        exact mouse_not_mem_group h hmem hmovable
      | false =>
        rw [held, hdrag]
        dsimp only
        rw [he, Option.any_some, hmovable, if_neg Bool.false_ne_true]
        refine Or.inr ⟨rfl, fun id' e' hid he' => ?_⟩
        obtain rfl := Option.some.inj hid
        obtain rfl := Option.some.inj (he.symm.trans he')
        exact hmovable

/-- **What is held follows the mouse**, which has gone on by `(dx, dy)` since it was last put under
    it: where `drag` puts the element is computed from the offsets, and by `Grips` that is its old
    place moved by `(dx, dy)`. -/
theorem drag_spec {el : Option Nat} (h : Desk s.theMouse s.rootContainer)
    (hm : s.element s.theMouse = some m) (hdrag : s.isDragging = some el)
    (hgrip : ∀ id, el = some id → ∃ e ∈ elements s.rootContainer, e.id = id ∧ (e.isMovable = true →
      m.absX - e.absX = s.dragOffsetX + dx ∧ m.absY - e.absY = s.dragOffsetY + dy)) :
    ∃ d', s.drag = some { s with rootContainer := d' } ∧ Desk s.theMouse d' ∧
      Moves (MouseState.held { s with rootContainer := d' }) dx dy s.rootContainer d' ∧
      s.theMouse ∉ MouseState.held { s with rootContainer := d' } := by
  have hdragged : s.drag = s.pull m el := by
    have hself : { s with isDragging := some el } = s := by rw [← hdrag]
    have htarget : s.dragged m = some el := by rw [dragged, hdrag]
    rw [drag, hm, Option.bind_some, htarget, Option.bind_some, hself]
  rcases held_of h hdrag with ⟨id, e, rfl, he, hmovable, hheld, hnot⟩ | ⟨hheld, hfixed⟩
  · obtain ⟨hmem, hid⟩ := (element_iff h).mp he
    obtain ⟨e', hmem', hid', hoffset⟩ := hgrip id rfl
    obtain rfl : e' = e := h.unique hmem hmem' (hid'.trans hid.symm)
    obtain ⟨hx, hy⟩ := hoffset hmovable
    obtain ⟨d', hupdate, hdesk, hmoves, hgroup, -⟩ := updateLocation_spec h hmem
      (not_desktop_of_movable hmovable) (m.absX - s.dragOffsetX) (m.absY - s.dragOffsetY)
    have hdx : m.absX - s.dragOffsetX - e'.absX = dx := by bv_omega
    have hdy : m.absY - s.dragOffsetY - e'.absY = dy := by bv_omega
    rw [hid, hdx, hdy] at hmoves
    rw [hid] at hupdate hgroup
    have hheld' : MouseState.held { s with rootContainer := d' } = s.group id := by
      obtain ⟨e₁, he₁, hgo⟩ := element_moved { s with rootContainer := d' } h hdesk hmoves rfl he
      have hmovable₁ : e₁.isMovable = true := by
        rw [Element.isMovable, hgo.cls]
        exact hmovable
      rw [held_movable (s := { s with rootContainer := d' }) hdrag he₁ hmovable₁]
      exact hgroup _ rfl
    refine ⟨d', ?_, hdesk, ?_, ?_⟩
    · rw [hdragged, pull, he, Option.bind_some, if_pos hmovable]
      exact hupdate
    · rw [hheld']
      exact hmoves
    · rw [hheld', ← hheld]
      exact hnot
  · -- nothing can be moved, and `drag` changes nothing
    refine ⟨s.rootContainer, ?_, h, moves_stay (Or.inl hheld), ?_⟩
    · rw [hdragged]
      cases el with
      | none => rfl
      | some id =>
        obtain ⟨e, hmem, hid, -⟩ := hgrip id rfl
        have he := (element_iff h).mpr ⟨hmem, hid⟩
        rw [pull, he, Option.bind_some, hfixed id e rfl he, if_neg Bool.false_ne_true]
    · show s.theMouse ∉ s.held
      rw [hheld]
      exact List.not_mem_nil

/-- The element under the mouse is one of the desk. -/
theorem mem_of_getElementAtPosition {x y : int32_t} {d : Container}
    (h : getElementAtPosition theMouse x y d = some (some e)) :
    e ∈ elements d := by
  rw [getElementAtPosition_eq] at h
  have hmem := (List.mem_filter.mp (List.mem_of_getLast? (Option.some.inj h))).1
  exact (preorder_sublist d).subset ((visits_sublist 0 d).subset hmem)

/-- What is taken has the grip that is kept: the offsets are set to the distance there is. -/
theorem leftClick_spec (hm : s.element s.theMouse = some m) (hnothing : s.isDragging = none) :
    ∃ el x y, s.leftClick =
      some { s with isDragging := some el, dragOffsetX := x, dragOffsetY := y } ∧
      ∀ id, el = some id → ∃ e ∈ elements s.rootContainer, e.id = id ∧ m.absX - e.absX = x ∧
      m.absY - e.absY = y := by
  obtain ⟨answer, hanswer⟩ :
      ∃ answer, getElementAtPosition s.theMouse m.absX m.absY s.rootContainer = some answer :=
    ⟨_, getElementAtPosition_eq _ _ _ _⟩
  rw [leftClick, hnothing, if_neg (by decide), hm, Option.bind_some, hanswer]
  cases answer with
  | none => exact ⟨none, s.dragOffsetX, s.dragOffsetY, rfl, fun _ h => nomatch h⟩
  | some e =>
    refine ⟨some e.id, _, _, rfl, fun id hid => ?_⟩
    exact ⟨e, mem_of_getElementAtPosition hanswer, Option.some.inj hid, rfl, rfl⟩

/-- A group that goes nowhere stays. -/
theorem moves_nowhere {group : List Nat} {d d' : Container} (h : Moves group 0 0 d d') :
    Moves [] dx dy d d' := by
  refine List.Forall₂.imp (fun e e' hgo => ?_) h
  have hzero : ∀ x : int32_t, x + 0 = x := BitVec.add_zero
  obtain ⟨hid, hcls, hx, hy⟩ := hgo
  rw [hzero, ite_self] at hx hy
  exact ⟨hid, hcls, hx, hy⟩

/-- What the handler has done about the left button, from `s` to `s'`, with the mouse at `m`: it has
    moved the group, which the mouse is not in, by what the mouse was ahead of it, and now `Good`
    holds but for the place of the mouse. -/
structure Dragged (s s' : MouseState) (m : Element) (group : List Nat) (dx dy : int32_t)
    (pressed : Bool) : Prop where
  theMouse : s'.theMouse = s.theMouse
  /-- It is a desk still, -/
  desk : Desk s.theMouse s'.rootContainer
  /-- on which the group has moved, -/
  moves : Moves group dx dy s.rootContainer s'.rootContainer
  /-- without the mouse; -/
  mouse : s.theMouse ∉ group
  /-- the button is as it was, -/
  pressed : s'.left_botton_pressed = pressed ∧ s'.isDragging.isSome = pressed
  /-- and what is held is under the mouse. -/
  grips : Grips s' m 0 0

/-- The element is dragged, if the mouse has moved; if not, it is not behind. -/
theorem dragged_spec {el : Option Nat} (dx dy : int32_t) (h : Desk s.theMouse s.rootContainer)
    (hm : s.element s.theMouse = some m) (hdrag : s.isDragging = some el)
    (hpressed : s.left_botton_pressed = true) (hgrips : Grips s m dx dy)
    (hmoved : s.mouse_moved = false → dx = 0 ∧ dy = 0) :
    ∃ s', (if s.mouse_moved then s.drag else some s) = some s' ∧
    Dragged s s' m s'.held dx dy true := by
  have hboth : s.left_botton_pressed = true ∧ s.isDragging.isSome = true :=
    ⟨hpressed, by rw [hdrag]; rfl⟩
  cases hmove : s.mouse_moved with
  | false =>
    have hzero := hmoved hmove
    refine ⟨s, if_neg Bool.false_ne_true, rfl, h, moves_stay (Or.inr hzero), ?_, hboth,
      fun id hid => ?_⟩
    rotate_left
    · have hgrip := hgrips id hid
      rw [hzero.1, hzero.2] at hgrip
      exact hgrip
    rcases held_of h hdrag with ⟨-, -, -, -, -, -, hnot⟩ | ⟨hheld, -⟩
    · exact hnot
    · rw [hheld]
      exact List.not_mem_nil
  | true =>
    rw [if_pos rfl]
    obtain ⟨d', hd', hdesk, hmoves, hnot⟩ :=
      drag_spec h hm hdrag fun id hid => hgrips id (hid ▸ hdrag)
    refine ⟨{ s with rootContainer := d' }, hd', rfl, hdesk, hmoves, hnot, hboth, fun id hid => ?_⟩
    obtain ⟨e, hmem, rfl, hoffset⟩ := hgrips id hid
    obtain ⟨e', hmem', hgo⟩ := hmoves.element hmem
    refine ⟨e', hmem', hgo.id, fun hmovable => ?_⟩
    have hmovable₀ : e.isMovable = true := by
      rw [Element.isMovable, ← hgo.cls]
      exact hmovable
    obtain ⟨hx, hy⟩ := hoffset hmovable₀
    -- an element that can be moved is in its own group
    have hin : e.id ∈ MouseState.held { s with rootContainer := d' } := by
      have he' := (element_iff (s := { s with rootContainer := d' }) hdesk).mpr ⟨hmem', hgo.id⟩
      rw [held_movable (s := { s with rootContainer := d' }) hid he' hmovable]
      obtain ⟨-, -, -, -, -, hself⟩ :=
        updateLocation_spec (s := { s with rootContainer := d' }) hdesk hmem'
          (not_desktop_of_movable hmovable) 0 0
      rw [hgo.id] at hself
      exact hself
    rw [hgo.absX, hgo.absY, if_pos hin, if_pos hin]
    constructor
    · show m.absX - (e.absX + dx) = s.dragOffsetX + 0
      bv_omega
    · show m.absY - (e.absY + dy) = s.dragOffsetY + 0
      bv_omega

/-- **The left button**, with the mouse at `m`, which has gone on by `(dx, dy)`.  What was pressed
    before decides what moves: an element that is taken now is under the mouse already. -/
theorem leftButton_spec (flags : BitVec 8) (dx dy : int32_t) (h : Desk s.theMouse s.rootContainer)
    (hm : s.element s.theMouse = some m) (hpressed : s.isDragging.isSome = s.left_botton_pressed)
    (hgrips : Grips s m dx dy) (hmoved : s.mouse_moved = false → dx = 0 ∧ dy = 0) :
    ∃ s', s.leftButton flags = some s' ∧
      Dragged s s' m (if s.left_botton_pressed then s'.held else []) dx dy
        (decide (flags &&& LEFT_BUTTON ≠ 0)) := by
  rw [leftButton]
  by_cases hleft : flags &&& LEFT_BUTTON ≠ 0
  · rw [if_pos hleft, decide_eq_true hleft]
    rcases Option.eq_none_or_eq_some s.isDragging with hdrag | ⟨el, hdrag⟩
    · -- the button has gone down: the grip is made, and nothing is behind it
      rw [hdrag, Option.isSome_none] at hpressed
      rw [← hpressed]
      obtain ⟨el, x, y, hclick, htaken⟩ :=
        leftClick_spec (s := { s with left_botton_pressed := true }) hm hdrag
      rw [hclick, Option.bind_some]
      have hzero : ∀ x : int32_t, x + 0 = x := BitVec.add_zero
      obtain ⟨s', hs', hdragged⟩ := dragged_spec
        (s := { s with
          left_botton_pressed := true, isDragging := some el, dragOffsetX := x, dragOffsetY := y })
        0 0 h hm rfl rfl (fun id hid => by
          obtain ⟨e, hmem, hid, hx, hy⟩ := htaken id (Option.some.inj hid)
          refine ⟨e, hmem, hid, fun _ => ?_⟩
          rw [hzero, hzero]
          exact ⟨hx, hy⟩) fun _ => ⟨rfl, rfl⟩
      exact ⟨s', hs', hdragged.theMouse, hdragged.desk, moves_nowhere hdragged.moves,
        List.not_mem_nil, hdragged.pressed, hdragged.grips⟩
    · -- it was down: the click is ignored, and what was taken follows
      rw [hdrag, Option.isSome_some] at hpressed
      rw [← hpressed]
      have hclick : leftClick { s with left_botton_pressed := true } =
          some { s with left_botton_pressed := true } := by
        rw [leftClick, if_pos (by rw [hdrag]; rfl)]
      rw [hclick, Option.bind_some]
      obtain ⟨s', hs', hdragged⟩ :=
        dragged_spec (s := { s with left_botton_pressed := true }) dx dy h hm hdrag rfl
          hgrips hmoved
      exact ⟨s', hs', hdragged.theMouse, hdragged.desk, hdragged.moves, hdragged.mouse,
        hdragged.pressed, hdragged.grips⟩
  · -- it is up, and if it was down until now, everything is let go
    rw [if_neg hleft, decide_eq_false hleft]
    cases hp : s.left_botton_pressed with
    | true =>
      refine ⟨_, rfl, rfl, h, ?_, ?_, ⟨rfl, rfl⟩, fun _ hid => nomatch hid⟩
      · exact moves_stay (Or.inl rfl)
      · exact List.not_mem_nil
    | false =>
      rw [hp] at hpressed
      have hnone := Option.isSome_eq_false_iff.mp hpressed
      rw [Option.isNone_iff_eq_none] at hnone
      refine ⟨s, if_neg Bool.false_ne_true, rfl, h, moves_stay (Or.inl rfl), List.not_mem_nil,
        ⟨hp, hpressed⟩, ?_⟩
      intro id hid
      rw [hnone] at hid
      exact nomatch hid

/-- **What is dragged stays in the grip** when the mouse alone is moved: its place under the mouse
    goes on by as much as the mouse.  The element that is dragged is not moved along, for it is none
    that holds the mouse. -/
theorem Good.grips_moved (h : Good s) {m₁ : Element} {d₁ : Container}
    (hm : s.element s.theMouse = some m)
    (hmoves : Moves [s.theMouse] (m₁.absX - m.absX) (m₁.absY - m.absY) s.rootContainer d₁) :
    Grips { s with rootContainer := d₁ } m₁ (m₁.absX - m.absX) (m₁.absY - m.absY) := by
  intro id hid
  obtain ⟨e, hmem, rfl, hoffset⟩ := h.grips m hm id hid
  obtain ⟨e₁, hmem₁, hgo⟩ := hmoves.element hmem
  refine ⟨e₁, hmem₁, hgo.id, fun hmovable₁ => ?_⟩
  have hmovable : e.isMovable = true := by
    rw [Element.isMovable, ← hgo.cls]
    exact hmovable₁
  have hother : e.id ∉ [s.theMouse] := by
    intro hself
    obtain ⟨-, -, -, -, -, hin⟩ :=
      updateLocation_spec h.desk hmem (not_desktop_of_movable hmovable) 0 0
    rw [List.mem_singleton.mp hself] at hin
    have hnot := mouse_not_mem_group h.desk hmem hmovable
    rw [List.mem_singleton.mp hself] at hnot
    exact hnot hin
  obtain ⟨hex, hey⟩ := hoffset hmovable
  rw [hgo.absX, hgo.absY, if_neg hother, if_neg hother]
  constructor
  · show m₁.absX - e.absX = s.dragOffsetX + (m₁.absX - m.absX)
    bv_omega
  · show m₁.absY - e.absY = s.dragOffsetY + (m₁.absY - m.absY)
    bv_omega

/-- A packet without a movement leaves the mouse where it is, for it is on the screen already. -/
theorem Pointed.still {m₁ : Element} (hpointed : Pointed m m₁ dx dy)
    (hx : -6 ≤ m.absX.toInt ∧ m.absX.toInt ≤ 1018) (hy : -8 ≤ m.absY.toInt ∧ m.absY.toInt ≤ 760)
    (hzero : (decide (dx ≠ 0) || decide (dy ≠ 0)) = false) :
    m₁.absX - m.absX = 0 ∧ m₁.absY - m.absY = 0 := by
  obtain ⟨hx0, hy0⟩ := Bool.or_eq_false_iff.mp hzero
  have hdx0 : dx = 0 := not_not.mp (of_decide_eq_false hx0)
  have hdy0 : dy = 0 := not_not.mp (of_decide_eq_false hy0)
  have hsame : m₁.absX = m.absX ∧ m₁.absY = m.absY := by
    obtain ⟨hpx, hpy⟩ := hpointed
    rw [hdx0] at hpx
    rw [hdy0] at hpy
    have h0 : (0 : int32_t).toInt = 0 := rfl
    exact ⟨BitVec.eq_of_toInt_eq (by omega), BitVec.eq_of_toInt_eq (by omega)⟩
  rw [hsame.1, hsame.2]
  exact ⟨BitVec.sub_self _, BitVec.sub_self _⟩

/-- **What the handler leaves is good** again, as it has not moved the mouse `m` itself. -/
theorem Dragged.good {m₂ : Element} {group : List Nat} {pressed : Bool}
    (h : Dragged s s' m group dx dy pressed) (hm₂ : s'.element s.theMouse = some m₂)
    (hplace : m₂.absX = m.absX ∧ m₂.absY = m.absY) (hx : -6 ≤ m.absX.toInt ∧ m.absX.toInt ≤ 1018)
    (hy : -8 ≤ m.absY.toInt ∧ m.absY.toInt ≤ 760) :
    Good s' := by
  have hunique : ∀ m', s'.element s'.theMouse = some m' → m'.absX = m.absX ∧ m'.absY = m.absY := by
    intro m' hm'
    rw [h.theMouse, hm₂] at hm'
    obtain rfl := Option.some.inj hm'
    exact hplace
  constructor
  case desk =>
    rw [h.theMouse]
    exact h.desk
  case pointer =>
    intro m' hm'
    obtain ⟨hx', hy'⟩ := hunique m' hm'
    rw [hx', hy']
    exact ⟨hx, hy⟩
  case pressed => exact h.pressed.2.trans h.pressed.1.symm
  case grips =>
    intro m' hm' id hid
    obtain ⟨hx', hy'⟩ := hunique m' hm'
    obtain ⟨e, hmem, hid, hoffset⟩ := h.grips id hid
    refine ⟨e, hmem, hid, fun hmovable => ?_⟩
    rw [hx', hy']
    exact hoffset hmovable

/-- **A packet** moves the mouse, and what is held by the same amount: first `moveMouse` moves the
    mouse alone, then the handler of the left button moves the group alone. -/
theorem packet_spec (h : Good s) (flags : BitVec 8) (hdx : -256 ≤ dx.toInt ∧ dx.toInt ≤ 255)
    (hdy : -256 ≤ dy.toInt ∧ dy.toInt ≤ 255) (hm : s.element s.theMouse = some m) :
    ∃ s' m', s.packet flags dx dy = some s' ∧ Good s' ∧ s'.theMouse = s.theMouse ∧
      s'.element s.theMouse = some m' ∧ Pointed m m' dx dy ∧
      s'.left_botton_pressed = decide (flags &&& LEFT_BUTTON ≠ 0) ∧
      ∀ id e, s.element id = some e → id ≠ s.theMouse → ∃ e', s'.element id = some e' ∧
        Goes (if s.left_botton_pressed then s'.held else []) (m'.absX - m.absX)
          (m'.absY - m.absY) e e' := by
  obtain ⟨hx, hy⟩ := h.pointer m hm
  obtain ⟨d₁, m₁, hmove, hdesk₁, hmoves₁, hm₁, hpointed⟩ := moveMouse_spec h hdx hdy hm
  obtain ⟨s₂, hs₂, hdragged⟩ := leftButton_spec
    (s := { s with rootContainer := d₁, mouse_moved := decide (dx ≠ 0) || decide (dy ≠ 0) }) flags
    (m₁.absX - m.absX) (m₁.absY - m.absY) hdesk₁ hm₁
    h.pressed (h.grips_moved hm hmoves₁) (hpointed.still hx hy)
  have htheMouse : s₂.theMouse = s.theMouse := hdragged.theMouse
  obtain ⟨m₂, hm₂, hgo⟩ := element_moved s₂ hdesk₁ hdragged.desk hdragged.moves rfl hm₁
  have hid : m₁.id = s.theMouse := ((element_iff hdesk₁).mp hm₁).2
  have hmouse₁ : m₁.id ∉ if s.left_botton_pressed then s₂.held else [] := by
    rw [hid]
    exact hdragged.mouse
  have hx₂ : m₂.absX = m₁.absX := hgo.absX.trans (if_neg hmouse₁)
  have hy₂ : m₂.absY = m₁.absY := hgo.absY.trans (if_neg hmouse₁)
  have hgood : Good s₂ := by
    obtain ⟨hpx, hpy⟩ := hpointed
    exact hdragged.good hm₂ ⟨hx₂, hy₂⟩ (by omega) (by omega)
  refine ⟨{ s₂ with right_botton_pressed := if flags &&& RIGHT_BUTTON ≠ 0 then true else false },
    m₂, ?_, ⟨hgood.desk, hgood.pointer, hgood.pressed, hgood.grips⟩, htheMouse, hm₂, ⟨?_, ?_⟩,
    hdragged.pressed.1, fun id e he hother => ?_⟩
  · rw [packet, hmove, Option.bind_some]
    show (leftButton flags
      { s with rootContainer := d₁, mouse_moved := decide (dx ≠ 0) || decide (dy ≠ 0) }).map _ = _
    rw [hs₂]
    rfl
  · rw [hx₂]
    exact hpointed.absX
  · rw [hy₂]
    exact hpointed.absY
  · -- an element other than the mouse has made the second move only
    obtain ⟨e₁, he₁, hgo₁⟩ :=
      element_moved { s with rootContainer := d₁ } h.desk hdesk₁ hmoves₁ rfl he
    obtain ⟨e₂, he₂, hgo₂⟩ := element_moved s₂ hdesk₁ hdragged.desk hdragged.moves rfl he₁
    have hid₁ : e.id = id := ((element_iff h.desk).mp he).2
    have hnot : e.id ∉ [s.theMouse] := by
      rw [hid₁, List.mem_singleton]
      exact hother
    refine ⟨e₂, he₂, hgo₂.id.trans hgo₁.id, hgo₂.cls.trans hgo₁.cls, ?_, ?_⟩
    · rw [hgo₂.absX, hgo₁.id, hgo₁.absX, if_neg hnot, hx₂]
      rfl
    · rw [hgo₂.absY, hgo₁.id, hgo₁.absY, if_neg hnot, hy₂]
      rfl

end Packet

/-! ## Runs

  Every event keeps `Good`: a packet by `packet_spec`, a new window because a window that has
  been constructed is laid out (`window_layout`), and showing a window because its place stays.
  So the invariant holds in every state that can be reached (`good_of_reach`). -/

section Runs

variable {d : Container} {p : Element}

/-- A new parent changes places, and no addresses. -/
theorem elements_setParent :
    (elements (setParent p d)).map Element.id = (elements d).map Element.id := by
  obtain ⟨e, children⟩ := d
  rfl

/-- A child more, among the elements. -/
theorem elements_addChild :
    (elements (Ui.addChild d t)).Perm (elements (setParent t.label d) ++ elements t) := by
  obtain ⟨e, children⟩ := t
  have hinsert : ∀ i ≤ children.length,
      (elements (.node e (children.insertIdx i (setParent e d)))).Perm
      (elements (setParent e d) ++ elements (.node e children)) := fun i hi => by
    have hnode : ∀ cs, elements (.node e cs) = e :: preorderAll (fun _ => true) cs := fun cs => rfl
    rw [hnode, hnode]
    exact ((perm_preorderAll_insertIdx i children hi).cons e).trans List.perm_middle.symm
  have happend : (elements (Container.addChild d (.node e children))).Perm
      (elements (setParent e d) ++ elements (.node e children)) := by
    rw [Container.addChild, ← List.insertIdx_length_self]
    exact hinsert _ le_rfl
  rw [Ui.addChild]
  split
  · rw [Desktop.addChild]
    split
    · exact hinsert _ (Nat.sub_le _ _)
    · exact happend
  · exact happend

/-- The parent itself does not change. -/
theorem label_addChild : (Ui.addChild d t).label = t.label := by
  obtain ⟨e, children⟩ := t
  rw [Ui.addChild]
  split
  · rw [Desktop.addChild]
    split
    · rfl
    · rfl
  · rfl

/-- The layout, with a child more. -/
theorem layout_addChild (h : Edges (Layout theMouse) t)
    (hlabel : Layout theMouse t.label (setParent t.label d).label)
    (hd : Edges (Layout theMouse) (setParent t.label d)) :
    Edges (Layout theMouse) (Ui.addChild d t) := by
  obtain ⟨e, children⟩ := t
  have hboth : ∀ children', (∀ c ∈ children', c = setParent e d ∨ c ∈ children) →
      Edges (Layout theMouse) (.node e children') := fun children' hmem => by
    refine edges_node.mpr fun c hc => ?_
    rcases hmem c hc with rfl | hc
    · exact ⟨hlabel, hd⟩
    · exact edges_node.mp h c hc
  have happend : Edges (Layout theMouse) (Container.addChild d (.node e children)) := by
    refine hboth _ fun c hc => ?_
    rcases List.mem_append.mp hc with hc | hc
    · exact Or.inr hc
    · exact Or.inl (List.mem_singleton.mp hc)
  rw [Ui.addChild]
  split
  · rw [Desktop.addChild]
    split
    · exact hboth _ fun c hc => (List.mem_insertIdx (Nat.sub_le _ _)).mp hc
    · exact happend
  · exact happend

/-- **A desk with a child more**, with addresses of its own. -/
theorem desk_addChild (h : Desk theMouse (plug C t))
    (hlabel : Layout theMouse t.label (setParent t.label d).label)
    (hd : Edges (Layout theMouse) (setParent t.label d))
    (hids : ((elements d).map Element.id).Nodup)
    (hfresh : ∀ e ∈ elements (plug C t), e.id ∉ (elements d).map Element.id) :
    Desk theMouse (plug C (Ui.addChild d t)) ∧ ∀ e ∈ elements (plug C t),
    e ∈ elements (plug C (Ui.addChild d t)) := by
  have hperm :
      (elements (plug C (Ui.addChild d t))).Perm
        (elements (setParent t.label d) ++ elements (plug C t)) := by
    rw [elements_plug, elements_plug, ← List.append_assoc, ← List.append_assoc]
    refine List.Perm.append_right _ (((elements_addChild).append_left _).trans ?_)
    rw [← List.append_assoc]
    exact List.perm_append_comm.append_right _
  have hkeeps : ∀ e ∈ elements (plug C t), e ∈ elements (plug C (Ui.addChild d t)) :=
    fun e he => hperm.mem_iff.mpr (List.mem_append_right _ he)
  have hroot : (plug C (Ui.addChild d t)).label = (plug C t).label := label_plug C label_addChild
  obtain ⟨hcontext, hedges⟩ := edges_plug.mp h.layout
  refine ⟨⟨edges_plug.mpr ⟨?_, layout_addChild hedges hlabel hd⟩, ?_, ?_, ?_, ?_⟩, hkeeps⟩
  · rw [label_addChild]
    exact hcontext
  · rw [hroot]
    exact h.root
  · rw [hroot]
    exact h.origin
  · rw [(hperm.map Element.id).nodup_iff, List.map_append, elements_setParent, List.nodup_append']
    refine ⟨hids, h.ids, fun id hid hmem => ?_⟩
    obtain ⟨e, he, rfl⟩ := List.mem_map.mp hmem
    exact hfresh e he hid
  · obtain ⟨m, hm, hmouse⟩ := h.mouse
    exact ⟨m, hkeeps m hm, hmouse⟩

/-- What is good stays so if every element is where it was, whatever others there are now: the
    mouse and what it drags are among the old ones. -/
theorem Good.changed (h : Good s) (hdesk : Desk s.theMouse d)
    (hstay : ∀ e ∈ elements s.rootContainer, ∃ e' ∈ elements d, Goes [] 0 0 e e') :
    Good { s with rootContainer := d } := by
  have hmouse : ∀ m', MouseState.element s.theMouse { s with rootContainer := d } = some m' →
      ∃ m, s.element s.theMouse = some m ∧ m'.absX = m.absX ∧ m'.absY = m.absY := fun m' hm' => by
    obtain ⟨hmem', hid'⟩ := (element_iff (s := { s with rootContainer := d }) hdesk).mp hm'
    obtain ⟨m, hm, hid, -⟩ := h.desk.mouse
    obtain ⟨m₁, hm₁, hgo⟩ := hstay m hm
    obtain rfl : m₁ = m' := hdesk.unique hmem' hm₁ (hgo.id.trans (hid.trans hid'.symm))
    exact ⟨m, (element_iff h.desk).mpr ⟨hm, hid⟩, hgo.absX, hgo.absY⟩
  refine ⟨hdesk, fun m' hm' => ?_, h.pressed, fun m' hm' id hid => ?_⟩
  · obtain ⟨m, hm, hx, hy⟩ := hmouse m' hm'
    rw [hx, hy]
    exact h.pointer m hm
  · obtain ⟨m, hm, hx, hy⟩ := hmouse m' hm'
    obtain ⟨e, hmem, rfl, hoffset⟩ := h.grips m hm id hid
    obtain ⟨e', hmem', hgo⟩ := hstay e hmem
    refine ⟨e', hmem', hgo.id, fun hmovable => ?_⟩
    rw [hx, hy, show e'.absX = e.absX from hgo.absX, show e'.absY = e.absY from hgo.absY]
    rw [Element.isMovable, hgo.cls] at hmovable
    exact hoffset hmovable

/-- The class of a window. -/
theorem isWindow_cls (h : e.isWindow = true) : ∃ body, e.cls = .Window body := by
  obtain ⟨id, cls⟩ := e
  cases cls with
  | Window body => exact ⟨body, rfl⟩
  | Container => cases h
  | Drawable => cases h
  | Desktop => cases h
  | TitleBar => cases h

/-- Who gets a new child: the desktop, or the body of a window, to which the window passes it on.
    In neither case it is the mouse. -/
theorem addChild_target (h : Good s) (hadd : s.addChild e.id d = some s')
    (he : e ∈ elements s.rootContainer) (hcls : e.cls = .Desktop ∨ e.isWindow = true) :
    ∃ C t, plug C t = s.rootContainer ∧
      s' = { s with rootContainer := plug C (Ui.addChild d t) } ∧ t.label.id ≠ s.theMouse ∧
      (e.cls = .Desktop → t.label = e) := by
  obtain ⟨C₀, t₀, hfind, hplug₀, rfl⟩ := find_of_mem h.desk he
  rw [addChild, hfind] at hadd
  obtain ⟨⟨C, t⟩, hpass, rfl⟩ := Option.map_eq_some_iff.mp hadd
  refine ⟨C, t, (plug_passDown hpass).trans hplug₀, rfl, ?_, ?_⟩
  · intro hid
    rcases hcls with hcls | hcls
    · -- the desktop is the root
      rw [passDown, hcls] at hpass
      obtain ⟨rfl, rfl⟩ := Prod.mk.inj (Option.some.inj hpass)
      rw [not_desktop h.desk.layout he hcls] at hid
      exact h.desk.root.2 hid
    · obtain ⟨body, hwindow⟩ := isWindow_cls hcls
      obtain ⟨e, children⟩ := t₀
      rw [passDown, hwindow] at hpass
      obtain ⟨i, -, hlocate⟩ := Option.bind_eq_some_iff.mp hpass
      rw [locate] at hlocate
      cases hc : children[i]? with
      | none =>
        rw [hc] at hlocate
        cases hlocate
      | some c =>
        rw [hc] at hlocate
        obtain ⟨rfl, rfl⟩ := Prod.mk.inj (Option.some.inj hlocate)
        have hdesk := h.desk
        rw [← hplug₀] at hdesk
        have hlayout := (edges_node.mp (edges_plug.mp hdesk.layout).2 c (List.mem_of_getElem? hc)).1
        cases hwindow.symm.trans (hlayout.mouse hid)
  · intro hdesktop
    rw [passDown, hdesktop] at hpass
    obtain ⟨rfl, rfl⟩ := Prod.mk.inj (Option.some.inj hpass)
    rfl

/-- **A child more** leaves everything where it is. -/
theorem addChild_good (h : Good s) (hadd : s.addChild e.id d = some s')
    (he : e ∈ elements s.rootContainer) (hcls : e.cls = .Desktop ∨ e.isWindow = true)
    (hd : d.label.cls ≠ .TitleBar ∧ d.label.cls ≠ .Desktop)
    (hlayout : ∀ p, (e.cls = .Desktop → p = e) → Edges (Layout s.theMouse) (setParent p d))
    (hids : ((elements d).map Element.id).Nodup)
    (hfresh : ∀ e ∈ elements s.rootContainer, e.id ∉ (elements d).map Element.id) : Good s' := by
  obtain ⟨C, t, hplug, rfl, hmouse, htarget⟩ := addChild_target h hadd he hcls
  obtain ⟨m, hm, hid, -⟩ := h.desk.mouse
  have hlabel : Layout s.theMouse t.label (setParent t.label d).label := by
    refine ⟨setParent_follows, ?_, ?_, ?_, hmouse⟩
    · intro hbar
      exact absurd hbar (by obtain ⟨e', children⟩ := d; exact hd.1)
    · intro hself
      have hself : d.label.id = m.id := by
        rw [hid]
        obtain ⟨e', children⟩ := d
        exact hself
      exact absurd (hself ▸ List.mem_map_of_mem (label_mem_elements d)) (hfresh m hm)
    · obtain ⟨e', children⟩ := d
      exact hd.2
  have hdesk := h.desk
  rw [← hplug] at hdesk hfresh
  obtain ⟨hdesk', hkeeps⟩ := desk_addChild hdesk hlabel (hlayout _ htarget) hids hfresh
  refine h.changed hdesk' fun e' he' =>
    ⟨e', hkeeps e' (by rw [hplug]; exact he'), rfl, rfl, rfl, rfl⟩

/-- A window is laid out on the desktop. -/
theorem window_layout {id body bar : Nat} {width height x y : int32_t} {pixels : int32_t → BitVec 8}
    (horigin : p.absX = 0 ∧ p.absY = 0) (hmouse : theMouse ∉ [id, body, bar]) :
    Edges (Layout theMouse)
      (setParent p (Window.construct id body bar width height x y pixels)) := by
  rw [List.mem_cons, List.mem_cons, List.mem_singleton, not_or, not_or] at hmouse
  obtain ⟨hid, hbody, hbar⟩ := hmouse
  have hplace : p.absX + x = x ∧ p.absY + y = y := by
    rw [horigin.1, horigin.2]
    exact ⟨BitVec.zero_add x, BitVec.zero_add y⟩
  refine edges_node.mpr fun c hc => ?_
  rcases List.mem_cons.mp hc with rfl | hc
  · refine ⟨⟨⟨?_, ?_⟩, fun hcls => (nomatch hcls), fun hself => absurd hself.symm hbody,
      fun hcls => (nomatch hcls), Ne.symm hid⟩, trivial⟩
    · exact congrArg (· + 2) hplace.1.symm
    · exact congrArg (· + (DecoratorHeight - 4)) hplace.2.symm
  · rw [List.mem_singleton.mp hc]
    refine ⟨⟨⟨?_, ?_⟩, fun _ => ⟨⟨rfl, rfl⟩, body, rfl⟩, fun hself => absurd hself.symm hbar,
      fun hcls => (nomatch hcls), Ne.symm hid⟩, trivial⟩
    · exact congrArg (· + 0) hplace.1.symm
    · exact congrArg (· + 0) hplace.2.symm

/-- An element that is shown or hidden stays where it is. -/
theorem changeVisible_good {id : Nat} {visible : Bool} (h : Good s)
    (hs : s.changeVisible id visible = some s') :
    Good s' := by
  obtain ⟨⟨C, t⟩, hfind, rfl⟩ := Option.map_eq_some_iff.mp hs
  have hplug : plug C t = s.rootContainer := (search_some hfind).1
  have hdesk := h.desk
  rw [← hplug] at hdesk
  obtain ⟨e, children⟩ := t
  have hmoves :
      Moves [] 0 0 (plug C (.node e children))
        (plug C (setVisible visible (.node e children))) := by
    rw [Moves, elements_plug, elements_plug]
    have hsame : ∀ es : List Element, List.Forall₂ (Goes [] 0 0) es es :=
      fun es => List.forall₂_same.mpr fun _ _ => ⟨rfl, rfl, rfl, rfl⟩
    have hhole : List.Forall₂ (Goes [] 0 0) (elements (.node e children))
        (elements (setVisible visible (.node e children))) := .cons ⟨rfl, rfl, rfl, rfl⟩ (hsame _)
    exact List.rel_append (List.rel_append (hsame _) hhole) (hsame _)
  obtain ⟨hcontext, hedges⟩ := edges_plug.mp hdesk.layout
  have hlayout : Edges (Layout s.theMouse) (plug C (setVisible visible (.node e children))) := by
    refine edges_plug.mpr ⟨?_, edges_node.mpr fun c hc => ?_⟩
    · cases C with
      | nil => trivial
      | cons f C =>
        obtain ⟨⟨hfollows, hbar, hmouse, hdesktop, halone⟩, hrest⟩ := hcontext
        exact ⟨⟨hfollows, hbar, hmouse, hdesktop, halone⟩, hrest⟩
    · obtain ⟨⟨hfollows, hbar, hmouse, hdesktop, halone⟩, hc⟩ := edges_node.mp hedges c hc
      exact ⟨⟨hfollows, hbar, hmouse, hdesktop, halone⟩, hc⟩
  refine h.changed (hdesk.moved hmoves hlayout List.not_mem_nil) fun e' he' => ?_
  rw [← hplug] at he'
  exact hmoves.element he'

/-- Addresses that nothing is at are none of those in use. -/
theorem not_mem_of_fresh {ids : List Nat} (h : s.fresh ids = true) :
    ids.Nodup ∧ ∀ e ∈ elements s.rootContainer, e.id ∉ ids := by
  obtain ⟨hids, hall⟩ := Bool.and_eq_true_iff.mp h
  refine ⟨of_decide_eq_true hids, fun e he hmem => ?_⟩
  have hnot := List.all_eq_true.mp hall e he
  rw [Bool.not_eq_true', ← Bool.not_eq_true, List.contains_iff_mem] at hnot
  exact hnot hmem

/-- Bytes of a packet, and of anything else, which changes nothing.  A packet that is not complete
    has no result: the handler waits for its bytes, and the event is the interrupt as a whole. -/
theorem handler_good {bytes rest : List (BitVec 8)} (h : Good s)
    (hs : s.mouse_handler bytes = some (rest, s')) :
    Good s' := by
  rw [mouse_handler.eq_def] at hs
  split at hs
  · obtain ⟨-, rfl⟩ := Prod.mk.inj (Option.some.inj hs)
    exact h
  · next flags bytes =>
    split at hs
    · split at hs
      · next x y rest =>
        obtain ⟨m, hm, hid, -⟩ := h.desk.mouse
        obtain ⟨s₁, m₁, hpacket, hgood, -⟩ :=
          packet_spec h flags (range_delta flags X_SIGN x) (range_delta flags Y_SIGN y)
            ((element_iff h.desk).mpr ⟨hm, hid⟩)
        rw [hpacket] at hs
        obtain ⟨-, rfl⟩ := Prod.mk.inj (Option.some.inj hs)
        exact hgood
      · exact nomatch hs
    · obtain ⟨-, rfl⟩ := Prod.mk.inj (Option.some.inj hs)
      exact h

/-- The driver starts with the mouse in the middle of the screen, and nothing dragged. -/
theorem booted_good {id mouse : Nat} {pixels : int32_t → BitVec 8} {x y : int32_t}
    (hne : id ≠ mouse) :
    Good (booted id mouse pixels x y) := by
  have hdesk : Desk mouse (Desktop.construct id mouse pixels) := by
    refine ⟨⟨⟨⟨⟨rfl, rfl⟩, fun hcls => (nomatch hcls), fun _ => rfl, fun hcls => (nomatch hcls),
      hne⟩, trivial⟩, trivial⟩, ⟨rfl, hne⟩, ⟨rfl, rfl⟩, ?_, ?_⟩
    · exact List.nodup_cons.mpr
        ⟨fun hmem => hne (List.mem_singleton.mp hmem), List.nodup_singleton _⟩
    · exact ⟨_, List.mem_cons_of_mem _ (List.mem_singleton_self _), rfl, rfl⟩
  refine ⟨hdesk, fun m hm => ?_, rfl, fun _ _ _ hid => nomatch hid⟩
  obtain ⟨hmem, hid⟩ := (element_iff (s := booted id mouse pixels x y) hdesk).mp hm
  rcases List.mem_cons.mp hmem with rfl | hmem
  · exact absurd hid hne
  · rw [List.mem_singleton.mp hmem]
    exact ⟨(by decide : -6 ≤ (512 : int32_t).toInt ∧ (512 : int32_t).toInt ≤ 1018),
      (by decide : -8 ≤ (384 : int32_t).toInt ∧ (384 : int32_t).toInt ≤ 760)⟩

/-- **In every run** the mouse keeps its grip.  Programs and the compositor add elements and show
    and hide them; only packets move any. -/
theorem good_of_reach (hr : Reach mouseMachine (fun _ _ => True) s) : Good s := by
  refine hr.invariant (I := Good) ?_ fun s event s' h _ hs => ?_
  · rintro _ ⟨id, mouse, pixels, x, y, hne, rfl⟩
    exact booted_good hne
  · have hroot := label_mem_elements s.rootContainer
    obtain ⟨m, hm, hid, -⟩ := h.desk.mouse
    cases event with
    | interrupt bytes =>
      have hs : (match s.mouse_handler bytes with
        | some ([], s) => some s
        | _ => none) = some s' := hs
      split at hs
      · next s₁ hhandler =>
        obtain rfl := Option.some.inj hs
        exact handler_good h hhandler
      · exact nomatch hs
    | createWindow id body bar width height x y pixels =>
      -- a window is constructed where it is on the screen, and the desktop is at the origin of that
      obtain ⟨hfresh, hadd⟩ := Option.ite_none_right_eq_some.mp hs
      obtain ⟨hids, hnot⟩ := not_mem_of_fresh hfresh
      have hnodup :
          ((elements (Window.construct id body bar width height x y pixels)).map
            Element.id).Nodup := hids
      refine addChild_good h hadd hroot (Or.inl h.desk.root.1)
        ⟨(fun h => nomatch h), (fun h => nomatch h)⟩
        (fun p hp => ?_) hnodup hnot
      rw [hp h.desk.root.1]
      exact window_layout h.desk.origin (hid ▸ hnot m hm)
    | addText id txtX txtY pixels =>
      obtain ⟨hfresh, hadd⟩ := Option.ite_none_right_eq_some.mp hs
      obtain ⟨hids, hnot⟩ := not_mem_of_fresh hfresh
      exact addChild_good h hadd hroot (Or.inl h.desk.root.1)
        ⟨(fun h => nomatch h), (fun h => nomatch h)⟩
        (fun _ _ => trivial) hids hnot
    | addInWindow window id x y pixels =>
      obtain ⟨hguard, hadd⟩ := Option.ite_none_right_eq_some.mp hs
      obtain ⟨hfresh, hwindow⟩ := Bool.and_eq_true_iff.mp hguard
      obtain ⟨hids, hnot⟩ := not_mem_of_fresh hfresh
      obtain ⟨e, he, hcls⟩ := (Option.any_eq_true _ _).mp hwindow
      obtain ⟨hmem, rfl⟩ := (element_iff h.desk).mp he
      exact addChild_good h hadd hmem (Or.inr hcls) ⟨(fun h => nomatch h), (fun h => nomatch h)⟩
        (fun _ _ => trivial) hids hnot
    | changeVisible id visible => exact changeVisible_good h hs

/-- **Every packet**, in every run, moves the mouse within the screen.  What has been held goes on
    by as much as the mouse, and everything else stays.

    `isDragging` is set exactly while the left button is down.  That includes the null pointer of a
    click with nothing under the mouse: `held` is empty then. -/
theorem reach_packet (s : MouseState) (hr : Reach mouseMachine (fun _ _ => True) s)
    (flags x y : BitVec 8) (hpacket : isPacket flags = true) :
    ∃ s' m m', s.mouse_handler [flags, x, y] = some ([], s') ∧ s'.theMouse = s.theMouse ∧
    s.element s.theMouse = some m ∧ s'.element s.theMouse = some m' ∧
    m'.absX.toInt =
      max (-6) (min 1018 (m.absX.toInt + (x.toNat - if flags &&& X_SIGN ≠ 0 then 256 else 0))) ∧
    m'.absY.toInt =
      max (-8) (min 760 (m.absY.toInt - (y.toNat - if flags &&& Y_SIGN ≠ 0 then 256 else 0))) ∧
    s'.isDragging.isSome = decide (flags &&& LEFT_BUTTON ≠ 0) ∧
    ∀ id e, s.element id = some e → id ≠ s.theMouse → ∃ e', s'.element id = some e' ∧
      Goes (if s.isDragging.isSome then s'.held else []) (m'.absX - m.absX)
        (m'.absY - m.absY) e e' := by
  have h := good_of_reach hr
  obtain ⟨m, hmem, hid, -⟩ := h.desk.mouse
  have hm := (element_iff h.desk).mpr ⟨hmem, hid⟩
  obtain ⟨s', m', hs', hgood, hmouse, hm', ⟨hx, hy⟩, hpressed, hgoes⟩ :=
    packet_spec h flags (range_delta flags X_SIGN x) (range_delta flags Y_SIGN y) hm
  rw [toInt_delta] at hx hy
  refine ⟨s', m, m', ?_, hmouse, hm, hm', hx, hy, hgood.pressed.trans hpressed, ?_⟩
  · rw [mouse_handler, if_pos hpacket, hs']
    rfl
  · rw [h.pressed]
    exact hgoes

/-- A window is held by its title bar. -/
theorem reach_packet_drag : ∃ s : MouseState, s.isDragging = some (some 4) ∧ s.held = [2, 3, 4] ∧
    ∃ (s' : MouseState) (m m' : Element), s.mouse_handler [9, 5, 0] = some ([], s') ∧
      s'.theMouse = s.theMouse ∧ s.element s.theMouse = some m ∧ s'.element s.theMouse = some m' ∧
      m'.absX.toInt = max (-6) (min 1018 (m.absX.toInt + 5)) ∧
      m'.absY.toInt = max (-8) (min 760 (m.absY.toInt - 0)) ∧ s'.isDragging.isSome = true ∧
      ∀ id e, s.element id = some e → id ≠ s.theMouse → ∃ e', s'.element id = some e' ∧
        Goes (if s.isDragging.isSome then s'.held else []) (m'.absX - m.absX)
          (m'.absY - m.absY) e e' := by
  let events : List MouseEvent :=
    [.createWindow 2 3 4 300 300 50 50 fun _ => 0, .changeVisible 0 true, .changeVisible 2 true,
      .interrupt [24, 0, 255], .interrupt [8, 0, 70], .interrupt [9, 0, 0]]
  let start := booted 0 1 (fun _ => 0) 0 0
  have hruns :
      ((events.foldlM exec start).any
        fun s => s.isDragging == some (some 4) && s.held == [2, 3, 4]) = true := by
    decide +kernel
  obtain ⟨s, hs, hheld⟩ := (Option.any_eq_true _ _).mp hruns
  obtain ⟨hdragging, hheld⟩ := Bool.and_eq_true_iff.mp hheld
  have hr : Reach mouseMachine (fun _ _ => True) s :=
    Reach.foldlM (fun _ _ _ hexec => ⟨trivial, hexec⟩) events
      (.init ⟨0, 1, fun _ => 0, 0, 0, by decide, rfl⟩) hs
  exact ⟨s, beq_iff_eq.mp hdragging, beq_iff_eq.mp hheld, reach_packet s hr 9 5 0 (by decide)⟩

end Runs

end MouseState

end TedkOS.Ui
