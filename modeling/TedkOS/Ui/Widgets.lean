/-
  The positions of elements (inc/ui/container.h, ui/desktop.cpp, ui/window.cpp).

  An element has its position twice: on the screen, and relative to its parent.  `updateLocation`
  moves an element and all that is below it; `addChild` gives the new child its position on the
  screen, and leaves the children of the child where they are.

  1. **Program** — constructors, `addChild` and `updateLocation`, and the trees they build: a window
     and a desktop come with children, a window passes a new child to its body, a title bar passes
     its moves to its parent.

  2. **Placed** — the two positions agree at every element that has a parent.

  3. **Runs** — every call keeps that but one that adds an element with children somewhere else
     (`reach_placed`).
-/
import TedkOS.Lib.Runs
import TedkOS.Ui.Container

namespace TedkOS.Ui

open RoseTree Runs

/-! ## Program -/

mutual

def updateLocationFollowingParent (parentAbsX parentAbsY : int32_t) : Container → Container
  | .node e children =>
    let absX := parentAbsX + e.relX
    let absY := parentAbsY + e.relY
    .node { e with absX := absX, absY := absY } (updateChildren absX absY children)

/-- The loop over the children. -/
def updateChildren (absX absY : int32_t) : List Container → List Container
  | [] => []
  | c :: children => updateLocationFollowingParent absX absY c :: updateChildren absX absY children

end

/-- The members `updateLocation` changes. -/
def Element.moveTo (e : Element) (newX newY : int32_t) : Element :=
  { e with
    absX := newX
    absY := newY
    relX := e.relX + (newX - e.absX)
    relY := e.relY + (newY - e.absY) }

/-- `Container::updateLocation(newX, newY)`, but for what it draws. -/
def updateLocation (newX newY : int32_t) : Container → Container
  | .node e children => .node (e.moveTo newX newY) (updateChildren newX newY children)

/-- `setParent(_parent)`. -/
def setParent (parent : Element) : Container → Container
  | .node e children =>
    .node { e with absX := parent.absX + e.relX, absY := parent.absY + e.relY } children

/-- `Container::addChild(d)`. -/
def Container.addChild (d : Container) : Container → Container
  | .node e children => .node e (children ++ [setParent e d])

/-- `Desktop::addChild(d)`: below the mouse, which is the last child. -/
def Desktop.addChild (d : Container) : Container → Container
  | .node e children =>
    if children.length > 0 then .node e (children.insertIdx (children.length - 1) (setParent e d))
    else .node e (children ++ [setParent e d])

/-- `addChild(d)` of an element that keeps its children itself. -/
def addChild (d t : Container) : Container :=
  match t.label.cls with
  | .Desktop => Desktop.addChild d t
  | _ => Container.addChild d t

/-- The element that gets the children: `Window::addChild` calls its body's. -/
def Element.childOwner (e : Element) : Nat :=
  match e.cls with
  | .Window body => body
  | _ => e.id

/-- `visible = …`, which is `show()` and `hide()` but for what they draw. -/
def setVisible (visible : Bool) : Container → Container
  | .node e children => .node { e with visible := visible } children

/-- `DecoratorHeight`. -/
def DecoratorHeight : int32_t := 31

/-- `Window(width, height, x, y)`, with the addresses of its parts.  It shows them, and is itself
    hidden until its creator shows it. -/
def Window.construct (id body bar : Nat) (width height x y : int32_t)
    (pixels : int32_t → BitVec 8) : Container :=
  let bar := Element.construct bar .TitleBar width DecoratorHeight 0 0 pixels
  let body := Element.construct body .Drawable (width - 4) (height - bar.height - 4) 2
    (bar.height - 4) pixels
  Container.addChild (setVisible true (.node bar []))
    (Container.addChild (setVisible true (.node body []))
      (.node (Element.construct id (.Window body.id) width height x y pixels) []))

/-- `Desktop()`, with the address of its mouse, which it shows. -/
def Desktop.construct (id mouse : Nat) (pixels : int32_t → BitVec 8) : Container :=
  Container.addChild
    (setVisible true (.node (Element.construct mouse .Drawable 30 44 512 384 pixels) []))
    (.node (Element.construct id .Desktop ScreenWidth ScreenHeight 0 0 pixels) [])

/-- The trees of elements. -/
abbrev Widgets := List Container

def elements : Container → List Element := preorder fun _ => true

mutual

/-- The element that `updateLocation` of element `id` moves: a title bar passes the call to its
    parent. -/
def mover (id : Nat) (parent : Option Nat) : Container → Option Nat
  | .node e children =>
    let self := match e.cls with
      | .TitleBar => parent
      | _ => some e.id
    if e.id = id then self else moverAll id self children

def moverAll (id : Nat) (parent : Option Nat) : List Container → Option Nat
  | [] => none
  | c :: children => (mover id parent c).or (moverAll id parent children)

end

inductive Call where
  | construct (id : Nat) (cls : Class) (width height x y : int32_t) (pixels : int32_t → BitVec 8)
  | constructWindow (id body bar : Nat) (width height x y : int32_t) (pixels : int32_t → BitVec 8)
  | constructDesktop (id mouse : Nat) (pixels : int32_t → BitVec 8)
  | addChild (parent d : Nat)
  | updateLocation (id : Nat) (newX newY : int32_t)

namespace Widgets

/-- No element is at one of the addresses. -/
def fresh (s : Widgets) (ids : List Nat) : Bool := s.all fun t => (elements t).all fun e =>
    !ids.contains e.id

/-- The tree that is added, the others, and the element that gets it: `d` has no parent, and is not
    above the element. -/
def attach (s : Widgets) (parent d : Nat) : Option (Container × Widgets × Nat) := do
  let t ← s.find? fun t => t.label.id == d
  let others := s.eraseP fun t => t.label.id == d
  let e ← others.findSome? fun t => (elements t).find? fun e => e.id == parent
  some (t, others, e.childOwner)

/-- What a call does to the trees, if there are the elements it names. -/
def exec (s : Widgets) : Call → Option Widgets
  | .construct id cls width height x y pixels =>
    if s.fresh [id] then some (s ++ [.node (Element.construct id cls width height x y pixels) []])
      else none
  | .constructWindow id body bar width height x y pixels =>
    if s.fresh [id, body, bar]
      then some (s ++ [Window.construct id body bar width height x y pixels]) else none
  | .constructDesktop id mouse pixels =>
    if s.fresh [id, mouse] then some (s ++ [Desktop.construct id mouse pixels]) else none
  | .addChild parent d =>
    (s.attach parent d).map fun (t, others, owner) =>
      others.map (modify (fun e => e.id == owner) (Ui.addChild t))
  | .updateLocation id newX newY =>
    (s.findSome? (mover id none)).map fun target =>
      s.map (modify (fun e => e.id == target) (Ui.updateLocation newX newY))

end Widgets

/-- The widgets, from none on. -/
def machine : Machine Widgets Call where
  init s := s = []
  step s call s' := s.exec call = some s'

/-! ## Placed

  `updateLocation` computes the positions of all that is below an element anew, so afterwards
  they are right whatever they were before (`updateLocation_placed`).  `addChild` does so for the
  child alone; the children of the child are right only if it has not been moved by that
  (`Settles`). -/

/-- The position on the screen is that of the parent and the relative one. -/
def Follows (parent e : Element) : Prop :=
  e.absX = parent.absX + e.relX ∧ e.absY = parent.absY + e.relY

/-- Every element that has a parent is where its relative position says. -/
def Placed (s : Widgets) : Prop := ∀ t ∈ s, Edges Follows t

/-- An element that comes below `parent` has no children, or its place on the screen stays the
    same. -/
def Settles (parent : Element) (d : Container) : Prop :=
  d.children = [] ∨ parent.absX + d.label.relX = d.label.absX ∧
    parent.absY + d.label.relY = d.label.absY

/-- The calls that keep everything in its place. -/
def Steady (s : Widgets) : Call → Prop
  | .addChild parent d => ∀ t others owner, s.attach parent d = some (t, others, owner) →
      ∀ t' ∈ others, Hits (fun e => e.id == owner) (fun t' => Settles t'.label t) t'
  | _ => True

section Placed

variable {t d : Container} {e parent : Element} {newX newY : int32_t} {s s' : Widgets}

mutual

/-- Following the parent puts an element, and all below it, in place. -/
theorem updateLocationFollowingParent_placed (parent : Element) : ∀ t : Container,
    Follows parent (updateLocationFollowingParent parent.absX parent.absY t).label ∧
      Edges Follows (updateLocationFollowingParent parent.absX parent.absY t)
  | .node e children =>
    ⟨⟨rfl, rfl⟩, updateChildren_placed
      { e with absX := parent.absX + e.relX, absY := parent.absY + e.relY } children⟩

theorem updateChildren_placed (parent : Element) : ∀ children : List Container,
    EdgesAll Follows parent (updateChildren parent.absX parent.absY children)
  | [] => trivial
  | c :: children =>
    ⟨updateLocationFollowingParent_placed parent c, updateChildren_placed parent children⟩

end

/-- **A move** leaves a tree in place, wherever its elements were. -/
theorem updateLocation_placed (newX newY : int32_t) (t : Container) :
    Edges Follows (updateLocation newX newY t) := by
  obtain ⟨e, children⟩ := t
  exact updateChildren_placed (e.moveTo newX newY) children

/-- The element itself stays in place below its own parent. -/
theorem updateLocation_follows (h : Follows parent t.label) :
    Follows parent (updateLocation newX newY t).label := by
  obtain ⟨e, children⟩ := t
  obtain ⟨hx, hy⟩ : e.absX = parent.absX + e.relX ∧ e.absY = parent.absY + e.relY := h
  show newX = parent.absX + (e.relX + (newX - e.absX)) ∧
    newY = parent.absY + (e.relY + (newY - e.absY))
  constructor
  · bv_omega
  · bv_omega

/-- **An element that gets a parent** is in place itself, and its children are if it settles. -/
theorem setParent_placed (hd : Edges Follows d) : Edges Follows (setParent parent d) ↔
    Settles parent d := by
  obtain ⟨e, children⟩ := d
  rw [setParent, edges_node]
  rw [edges_node] at hd
  constructor
  · intro hnew
    cases children with
    | nil => exact Or.inl rfl
    | cons c children =>
      obtain ⟨hx, hy⟩ := (hd c List.mem_cons_self).1
      obtain ⟨hx', hy'⟩ : c.label.absX = parent.absX + e.relX + c.label.relX ∧
        c.label.absY = parent.absY + e.relY + c.label.relY := (hnew c List.mem_cons_self).1
      refine Or.inr ⟨?_, ?_⟩
      · show parent.absX + e.relX = e.absX
        bv_omega
      · show parent.absY + e.relY = e.absY
        bv_omega
  · rintro (hnil | ⟨hx, hy⟩) c hc
    · obtain rfl : children = [] := hnil
      cases hc
    · obtain ⟨⟨hcx, hcy⟩, hedges⟩ := hd c hc
      refine ⟨⟨?_, ?_⟩, hedges⟩
      · rw [hcx]
        exact congrArg (· + c.label.relX) hx.symm
      · rw [hcy]
        exact congrArg (· + c.label.relY) hy.symm

theorem setParent_follows : Follows parent (setParent parent d).label := by
  obtain ⟨e, children⟩ := d
  exact ⟨rfl, rfl⟩

/-- Who a new child stands beside does not matter. -/
theorem edges_children {children children' : List Container} {c : Container}
    (hmem : ∀ x, x ∈ children' ↔ x = c ∨ x ∈ children) :
    Edges Follows (.node e children') ↔ (Follows e c.label ∧ Edges Follows c) ∧
    Edges Follows (.node e children) := by
  simp only [edges_node, hmem, forall_eq_or_imp]

/-- **A new child** leaves a tree in place exactly if it settles. -/
theorem addChild_placed (hd : Edges Follows d) (ht : Edges Follows t) :
    Edges Follows (addChild d t) ↔ Settles t.label d := by
  obtain ⟨e, children⟩ := t
  have hboth : (Follows e (setParent e d).label ∧ Edges Follows (setParent e d)) ∧
    Edges Follows (.node e children) ↔
      Settles e d := by
    rw [setParent_placed hd, and_iff_left ht, and_iff_right setParent_follows]
  have happend : Edges Follows (Container.addChild d (.node e children)) ↔ Settles e d := by
    refine Iff.trans (edges_children fun x => ?_) hboth
    rw [List.mem_append, List.mem_singleton, or_comm]
  rw [addChild]
  split
  · rw [Desktop.addChild]
    split
    · refine Iff.trans (edges_children fun x => ?_) hboth
      rw [List.mem_insertIdx (Nat.sub_le _ _)]
    · exact happend
  · exact happend

/-- A parent keeps its own place when it gets a child. -/
theorem addChild_follows (h : Follows parent t.label) : Follows parent (addChild d t).label := by
  obtain ⟨e, children⟩ := t
  rw [addChild]
  split
  · rw [Desktop.addChild]
    split
    · exact h
    · exact h
  · exact h

/-- Nothing is below an element without children. -/
theorem leaf_placed : Edges Follows (.node e []) :=
  edges_node.mpr fun _ hc => absurd hc List.not_mem_nil

/-- An element without children settles anywhere. -/
theorem addChild_leaf (ht : Edges Follows t) :
    Edges Follows (Container.addChild (.node e []) t) := by
  obtain ⟨p, children⟩ := t
  have hleaf : Edges Follows (setParent p (.node e [])) :=
    (setParent_placed leaf_placed).mpr (Or.inl rfl)
  refine (edges_children fun x => ?_).mpr ⟨⟨setParent_follows, hleaf⟩, ht⟩
  rw [List.mem_append, List.mem_singleton, or_comm]

/-- A window is constructed with its body and its bar where they belong. -/
theorem construct_placed {id body bar : Nat} {width height x y : int32_t}
    {pixels : int32_t → BitVec 8} :
    Edges Follows (Window.construct id body bar width height x y pixels) := by
  unfold Window.construct
  exact addChild_leaf (addChild_leaf leaf_placed)

/-! ## Runs

  A call changes one element and what is below it, in one of several trees, and the positions
  elsewhere are what they were. -/

theorem placed_snoc (hs : Placed s) (ht : Edges Follows t) : Placed (s ++ [t]) := by
  intro t' ht'
  rcases List.mem_append.mp ht' with hmem | hmem
  · exact hs t' hmem
  · rw [List.mem_singleton.mp hmem]
    exact ht

/-- Where the trees of `attach` come from. -/
theorem attach_mem {p i owner : Nat} {others : Widgets}
    (h : s.attach p i = some (t, others, owner)) :
    t ∈ s ∧ ∀ t' ∈ others, t' ∈ s := by
  obtain ⟨t', ht', h⟩ := Option.bind_eq_some_iff.mp h
  obtain ⟨e, -, h⟩ := Option.bind_eq_some_iff.mp h
  obtain ⟨rfl, rfl, -⟩ : t' = t ∧ s.eraseP (fun t => t.label.id == i) = others ∧
      e.childOwner = owner := by
    simpa using h
  exact ⟨List.mem_of_find?_eq_some ht', fun _ hmem => List.mem_of_mem_eraseP hmem⟩

/-- **One call** keeps everything in place exactly if it is steady. -/
theorem exec_placed (hs : Placed s) {call : Call} (h : s.exec call = some s') :
    Placed s' ↔ Steady s call := by
  cases call with
  | construct id cls width height x y pixels =>
    refine iff_of_true ?_ trivial
    obtain ⟨-, hs'⟩ := Option.ite_none_right_eq_some.mp h
    rw [← Option.some.inj hs']
    exact placed_snoc hs leaf_placed
  | constructWindow id body bar width height x y pixels =>
    refine iff_of_true ?_ trivial
    obtain ⟨-, hs'⟩ := Option.ite_none_right_eq_some.mp h
    rw [← Option.some.inj hs']
    exact placed_snoc hs construct_placed
  | constructDesktop id mouse pixels =>
    refine iff_of_true ?_ trivial
    obtain ⟨-, hs'⟩ := Option.ite_none_right_eq_some.mp h
    rw [← Option.some.inj hs']
    exact placed_snoc hs (addChild_leaf leaf_placed)
  | addChild p i =>
    -- the owner gets a child: the edges below it are right exactly if the child settles there
    obtain ⟨⟨t, others, owner⟩, hattach, rfl⟩ := Option.map_eq_some_iff.mp h
    obtain ⟨ht, hothers⟩ := attach_mem hattach
    have hmodify : ∀ t' ∈ others, (Edges Follows (modify (fun e => e.id == owner) (addChild t) t') ↔
        Hits (fun e => e.id == owner) (fun t' => Settles t'.label t) t') := fun t' ht' =>
      edges_modify (fun _ _ => addChild_follows) (fun _ => addChild_placed (hs t ht))
        (hs t' (hothers t' ht'))
    constructor
    · intro hplaced t₁ others₁ owner₁ hattach₁ t' ht'
      rw [hattach] at hattach₁
      obtain ⟨rfl, rfl, rfl⟩ : t = t₁ ∧ others = others₁ ∧ owner = owner₁ := by simpa using hattach₁
      exact (hmodify t' ht').mp (hplaced _ (List.mem_map_of_mem ht'))
    · intro hsteady t'' ht''
      obtain ⟨t', ht', rfl⟩ := List.mem_map.mp ht''
      exact (hmodify t' ht').mpr (hsteady t others owner hattach t' ht')
  | updateLocation id newX newY =>
    refine iff_of_true ?_ trivial
    obtain ⟨target, -, rfl⟩ := Option.map_eq_some_iff.mp h
    intro t'' ht''
    obtain ⟨t', ht', rfl⟩ := List.mem_map.mp ht''
    exact (edges_modify (fun _ _ => updateLocation_follows)
      (fun t _ => iff_of_true (updateLocation_placed newX newY t) trivial) (hs t' ht')).mpr
      (hits_true t')

end Placed

/-- **In every run of steady calls** every element that has a parent is in its place, and the next
    call keeps that exactly if it is steady. -/
theorem reach_placed {s : Widgets} (h : Reach machine Steady s) :
    Placed s ∧ ∀ call s', s.exec call = some s' → (Placed s' ↔ Steady s call) := by
  have hplaced : Placed s := by
    refine h.invariant ?_ fun s call s' hs hok hstep => (exec_placed hs hstep).mpr hok
    rintro s rfl t ht
    cases ht
  exact ⟨hplaced, fun call s' hexec => exec_placed hplaced hexec⟩

/-- A window on the desktop, which is at the origin. -/
theorem reach_placed_desktop :
    Placed [addChild (Window.construct 2 3 4 300 300 50 50 fun _ => 0)
      (Desktop.construct 0 1 fun _ => 0)] := by
  have hdesktop : Reach machine Steady [Desktop.construct 0 1 fun _ => 0] :=
    .step (a := .constructDesktop 0 1 fun _ => 0) (.init rfl) trivial rfl
  have hwindow :
      Reach machine Steady
        [Desktop.construct 0 1 fun _ => 0, Window.construct 2 3 4 300 300 50 50 fun _ => 0] :=
    .step (a := .constructWindow 2 3 4 300 300 50 50 fun _ => 0) hdesktop trivial rfl
  refine (reach_placed (.step (a := .addChild 0 2) hwindow ?_ rfl)).1
  intro t others owner hattach t' ht'
  obtain ⟨rfl, rfl, rfl⟩ : Window.construct 2 3 4 300 300 50 50 (fun _ => 0) = t ∧
      [Desktop.construct 0 1 fun _ => 0] = others ∧ 0 = owner := by
    have h := Option.some.inj hattach
    exact ⟨congrArg Prod.fst h, congrArg (fun x => x.2.1) h, congrArg (fun x => x.2.2) h⟩
  rw [List.mem_singleton.mp ht']
  exact Or.inr ⟨rfl, rfl⟩

/-- A window in a container that is not at the origin: its title bar stays behind. -/
theorem reach_not_placed : ¬ ∀ s, Reach machine (fun _ _ => True) s → Placed s := by
  intro hall
  have hcontainer : Reach machine (fun _ _ => True)
      [.node (Element.construct 0 .Container 500 500 100 100 fun _ => 0) []] :=
    .step (a := .construct 0 .Container 500 500 100 100 fun _ => 0) (.init rfl) trivial rfl
  have hwindow : Reach machine (fun _ _ => True)
      [.node (Element.construct 0 .Container 500 500 100 100 fun _ => 0) [],
        Window.construct 1 2 3 300 300 50 50 fun _ => 0] :=
    .step (a := .constructWindow 1 2 3 300 300 50 50 fun _ => 0) hcontainer trivial rfl
  have hadd : Reach machine (fun _ _ => True)
      [addChild (Window.construct 1 2 3 300 300 50 50 fun _ => 0)
        (.node (Element.construct 0 .Container 500 500 100 100 fun _ => 0) [])] :=
    .step (a := .addChild 0 1) hwindow trivial rfl
  have hplaced := (edges_node.mp (hall _ hadd _ List.mem_cons_self) _ List.mem_cons_self).2
  obtain ⟨⟨hx, -⟩, -⟩ := edges_node.mp hplaced _ (List.mem_cons_of_mem _ List.mem_cons_self)
  exact absurd hx (by decide)

end TedkOS.Ui
