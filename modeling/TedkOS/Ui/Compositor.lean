/-
  Drawing the elements on the screen (ui/compositor.cpp).

  `drawSingle` draws an element and what is below it, as far as that shows in a rectangle.  It walks
  the tree with a `TreeIterator`, which has a stack of 20 elements.

  1. **Program** — `TreeIterator` and `drawSingle`, with the elements that `iterate` returns on
     record.  Blending is arithmetic of floats, so what it makes of two colours and an alpha is a
     parameter.

  2. **The walk** — `drawSingle` returns, and what it visits is a walk in preorder with a bounded
     stack (`RoseTree.walk`).

  3. **Correctness** — an element with too many pending elements behind it is not drawn;
     `visitsAll_iff` says when nothing is lost.
-/
import TedkOS.Klibs.Stack
import TedkOS.Ui.Vbe

namespace TedkOS.Ui

open RoseTree Klibs

/-! ## Program -/

/-- `util::Stack<const Container *, 20>`. -/
structure TreeIterator where
  stack : Stack Container 20

namespace TreeIterator

/-- `TreeIterator(root)`. -/
def new (root : Container) : TreeIterator := ⟨(Stack.new _ _).push root⟩

/-- `iterate()`, with the iterator after it. -/
def iterate (itr : TreeIterator) : Option (Container × TreeIterator) :=
  if itr.stack.empty then none else some (itr.stack.pop.1, ⟨itr.stack.pop.2⟩)

/-- `descend(c)`: the children are pushed from the last to the first. -/
def descend (itr : TreeIterator) (c : Container) : TreeIterator :=
  ⟨c.children.foldr (fun child stack => stack.push child) itr.stack⟩

end TreeIterator

/-- `for (int32_t i = a; i < b; i++)`. -/
def upTo (a b : int32_t) : List int32_t := (List.range (b.toInt - a.toInt).toNat).map fun i =>
    a + BitVec.ofNat 32 i

/-- The pixels the loops of `drawSingle` come to, but for those they skip. -/
def pixels (rect diff : Rectangle) : List (int32_t × int32_t) :=
  (upTo rect.y1 rect.y2).flatMap fun y =>
    ((upTo rect.x1 rect.x2).filter fun x => !diff.hasPoint x y).map fun x => (x, y)

section Program

-- `alphaBlending(p1, p2, alpha / 255.0F)`, as a byte
variable (alphaBlending : BitVec 8 → BitVec 8 → BitVec 8 → BitVec 8)

/-- One round of the loops: `buildBuffer[y][x]` with element `c` drawn over it. -/
def drawPixel (c : Element) (buildBuffer : Nat → BitVec 8) (x y : int32_t) : Nat → BitVec 8 :=
  let i := 3 * pixelAt x.toNat y.toNat
  let relX := x - c.absX
  let relY := y - c.absY
  let channel := fun z =>
    if c.isPixelInRange x y then
      alphaBlending (buildBuffer (i + z)) (c.getChannel z relX relY) (c.getChannel 3 relX relY)
    else buildBuffer (i + z)
  contents buildBuffer [(i + 0, channel 0), (i + 1, channel 1), (i + 2, channel 2)]

/-- The loops over the pixels. -/
def drawPixels (rect diff : Rectangle) (c : Element) (buildBuffer : Nat → BitVec 8) :
    Nat → BitVec 8 :=
  (pixels rect diff).foldl (fun buildBuffer p => drawPixel alphaBlending c buildBuffer p.1 p.2)
    buildBuffer

/-- The `while` loop of `drawSingle`, if it takes at most `n` rounds; with the elements it was
    given. -/
def drawLoop (rect diff : Rectangle) : Nat → TreeIterator → List Element → (Nat → BitVec 8) →
    Option (List Element × (Nat → BitVec 8))
  | n, itr, visited, buildBuffer =>
    match itr.iterate with
    | none => some (visited, buildBuffer)
    | some (c, itr) =>
      match n with
      | 0 => none
      | n + 1 =>
        let visited := visited ++ [c.label]
        if c.label.visible = false then drawLoop rect diff n itr visited buildBuffer
        else if c.label.getBoundingRectangle.overlapsWith rect = false then
          drawLoop rect diff n itr visited buildBuffer
        else
          let buildBuffer :=
            if c.label.isDrawable then drawPixels alphaBlending rect diff c.label buildBuffer
              else buildBuffer
          drawLoop rect diff n (itr.descend c) visited buildBuffer

/-- What the compositor draws on; `displayMode` is `Video` or not. -/
structure Compositor where
  buildBuffer : Nat → BitVec 8
  videoMemory : Nat → BitVec 8
  video : Bool
  drawHelper : VBEMemHelp

/-- `drawSingle(d, _rect, _diff)`, with the elements visited. -/
def Compositor.drawSingle (s : Compositor) (d : Container) (_rect _diff : Rectangle) :
    Option (List Element × Compositor) :=
  let rect := _rect.bound
  (drawLoop alphaBlending rect _diff d.size (TreeIterator.new d) [] s.buildBuffer).map
    fun (visited, buildBuffer) =>
    (visited, { s with
      buildBuffer := buildBuffer
      videoMemory :=
        if s.video then
          contents s.videoMemory
            (s.drawHelper.copyRegion buildBuffer rect.x1.toNat rect.x2.toNat rect.y1.toNat
            rect.y2.toNat)
        else s.videoMemory })

end Program

/-! ## The walk

  The iterator keeps its stack in an array, and `pending` is that as a list.  A call of `iterate`
  with `descend` after it is one step of the walk, by the definitions of the two; the loop ends
  because no step puts back what it took. -/

/-- An element that is drawn, if it is drawable, and whose children are. -/
def Element.shows (rect : Rectangle) (e : Element) : Bool :=
  e.visible && e.getBoundingRectangle.overlapsWith rect

/-- The trees on the stack, from the top. -/
def TreeIterator.pending (itr : TreeIterator) : List Container := itr.stack.items.reverse

namespace TreeIterator

variable {itr : TreeIterator} {root c : Container}

theorem pending_new : (new root).pending = [root] := rfl

theorem iterate_eq : itr.iterate = match itr.pending with
    | [] => none
    | c :: _ => some (c, ⟨itr.stack.pop.2⟩) := by
  rw [iterate]
  cases hempty : itr.stack.empty with
  | true => rw [pending, (Stack.empty_iff _).mp hempty, List.reverse_nil, if_pos rfl]
  | false =>
    rw [pending, Stack.items_pop _ hempty, List.reverse_append, if_neg Bool.false_ne_true]
    rfl

/-- `iterate` takes the top. -/
theorem pending_pop {rest : List Container} (h : itr.pending = c :: rest) :
    (⟨itr.stack.pop.2⟩ : TreeIterator).pending = rest := by
  have hempty : itr.stack.empty = false := by
    refine Bool.eq_false_iff.mpr fun hempty => ?_
    rw [pending, (Stack.empty_iff _).mp hempty] at h
    cases h
  rw [pending, Stack.items_pop _ hempty, List.reverse_append] at h
  exact (List.cons.inj h).2

/-- `push` puts an element on top, if there is room. -/
theorem pending_push {stack : Stack Container 20} :
    (⟨stack.push c⟩ : TreeIterator).pending = push 20 (⟨stack⟩ : TreeIterator).pending c := by
  rw [push, pending, pending, List.length_reverse]
  split
  · next hfull => rw [Stack.items_push_full _ _ hfull]
  · next hroom =>
      rw [Stack.items_push _ _ (Nat.lt_of_not_le hroom), List.reverse_append,
      List.reverse_singleton, List.singleton_append]

theorem pending_descend : (itr.descend c).pending = RoseTree.descend 20 c.children itr.pending := by
  rw [descend, RoseTree.descend]
  induction c.children with
  | nil => rfl
  | cons child children ih => rw [List.foldr_cons, List.foldr_cons, pending_push, ih]

end TreeIterator

section Walk

variable {alphaBlending : BitVec 8 → BitVec 8 → BitVec 8 → BitVec 8} {rect diff : Rectangle}

/-- The elements that are drawn, one over the other. -/
def drawAll (alphaBlending : BitVec 8 → BitVec 8 → BitVec 8 → BitVec 8) (rect diff : Rectangle) :
    List Element → (Nat → BitVec 8) → Nat → BitVec 8
  | [], buildBuffer => buildBuffer
  | e :: es, buildBuffer =>
    drawAll alphaBlending rect diff es
      (if e.shows rect && e.isDrawable then drawPixels alphaBlending rect diff e buildBuffer
        else buildBuffer)

/-- **The loop is a walk**, and draws what it visits. -/
theorem drawLoop_eq (n : Nat) (itr : TreeIterator) (visited : List Element)
    (buildBuffer : Nat → BitVec 8) :
    drawLoop alphaBlending rect diff n itr visited buildBuffer =
      (walk (Element.shows rect) 20 n itr.pending).map fun es =>
        (visited ++ es, drawAll alphaBlending rect diff es buildBuffer) := by
  induction n generalizing itr visited buildBuffer with
  | zero =>
    rw [drawLoop, TreeIterator.iterate_eq]
    cases itr.pending with
    | nil => simp [walk, drawAll]
    | cons c rest => rfl
  | succ n ih =>
    rw [drawLoop, TreeIterator.iterate_eq]
    cases hpending : itr.pending with
    | nil => simp [walk, drawAll]
    | cons c rest =>
      dsimp only
      rw [walk, Option.map_map]
      have hpop := TreeIterator.pending_pop hpending
      by_cases hvisible : c.label.visible = false
      · have hshows : c.label.shows rect = false := by rw [Element.shows, hvisible, Bool.false_and]
        rw [if_pos hvisible, ih, hpop, hshows, if_neg Bool.false_ne_true]
        simp [drawAll, hshows, Function.comp_def]
      · rw [if_neg hvisible]
        by_cases hoverlaps : c.label.getBoundingRectangle.overlapsWith rect = false
        · have hshows : c.label.shows rect = false := by
            rw [Element.shows, hoverlaps, Bool.and_false]
          rw [if_pos hoverlaps, ih, hpop, hshows, if_neg Bool.false_ne_true]
          simp [drawAll, hshows, Function.comp_def]
        · have hshows : c.label.shows rect = true := by
            rw [Element.shows, Bool.eq_true_of_not_eq_false hvisible,
              Bool.eq_true_of_not_eq_false hoverlaps]
            rfl
          rw [if_neg hoverlaps, ih, TreeIterator.pending_descend, hpop, hshows, if_pos rfl]
          simp [drawAll, hshows, Function.comp_def]

/-- **`drawSingle` returns**, and this is what it visits. -/
theorem drawSingle_visits (s : Compositor) (d : Container) : ∃ s',
    s.drawSingle alphaBlending d rect diff =
      some (visits (Element.shows rect.bound) 20 0 d, s') := by
  have hwalk : walk (Element.shows rect.bound) 20 d.size [d] =
      some (visitsStack (Element.shows rect.bound) 20 [d]) :=
    walk_eq_visits (Nat.succ_le_succ (Nat.zero_le 19)) (Nat.le_of_eq (Nat.add_zero _))
  rw [Compositor.drawSingle, drawLoop_eq, TreeIterator.pending_new, hwalk]
  exact ⟨_, congrArg (fun l => some (l, _))
    (by rw [visitsStack, visitsStack, List.append_nil, List.nil_append]; rfl)⟩

end Walk

/-! ## Correctness

  What ought to be drawn (`due`) is the preorder, restricted to the elements that are visible.
  The general theory of the walk says exactly when that is found. -/

/-- The elements to be visited: the visible ones all of whose ancestors are visible and overlap the
    rectangle, parents before children, and an earlier sibling with all that is below it before a
    later one. -/
def due (rect : Rectangle) (d : Container) : List Element :=
  (preorder (Element.shows rect.bound) d).filter Element.visible

/-- `drawSingle` returns, and of the visible elements has visited those due, each once, and in
    order. -/
def VisitsAll (alphaBlending : BitVec 8 → BitVec 8 → BitVec 8 → BitVec 8) (s : Compositor)
    (d : Container) (rect diff : Rectangle) : Prop :=
  ∃ visited s', s.drawSingle alphaBlending d rect diff = some (visited, s') ∧
    visited.filter Element.visible = due rect d

/-- Wherever the walk comes, the children that find 20 elements pending are not visible. -/
def Uncrowded (rect : Rectangle) (d : Container) : Prop :=
  Keeps (Element.shows rect.bound) Element.visible 20 0 d

theorem visible_of_shows {rect : Rectangle} (e : Element) (h : e.shows rect = true) :
    e.visible = true :=
  (Bool.and_eq_true_iff.mp h).1

/-- What is due, against what the walk finds. -/
theorem visitsAll_walk {alphaBlending : BitVec 8 → BitVec 8 → BitVec 8 → BitVec 8} {s : Compositor}
    {d : Container} {rect diff : Rectangle} : VisitsAll alphaBlending s d rect diff ↔
      (visits (Element.shows rect.bound) 20 0 d).filter Element.visible = due rect d := by
  obtain ⟨s', hs'⟩ := @drawSingle_visits alphaBlending rect diff s d
  constructor
  · rintro ⟨visited, s'', hs'', hdue⟩
    rw [hs'] at hs''
    obtain ⟨rfl, -⟩ := Prod.mk.inj (Option.some.inj hs'')
    exact hdue
  · exact fun hdue => ⟨_, s', hs', hdue⟩

/-- **Every element due is visited**, in order and once, exactly if no visible one meets a full
    stack. -/
theorem visitsAll_iff (alphaBlending : BitVec 8 → BitVec 8 → BitVec 8 → BitVec 8) (s : Compositor)
    (d : Container) (rect diff : Rectangle) : VisitsAll alphaBlending s d rect diff ↔
    Uncrowded rect d := by
  rw [visitsAll_walk, Uncrowded, due]
  exact filter_visits_iff visible_of_shows 0 d

/-- A tree of 21 elements is not too large, whatever its shape. -/
theorem uncrowded_of_size_le {rect : Rectangle} {d : Container} (h : d.size ≤ 21) :
    Uncrowded rect d :=
  keeps_of_size_le d (by omega)

/-- A desktop with 21 cells of text. -/
def fullDesktop : Container :=
  .node { Element.construct 0 .Desktop ScreenWidth ScreenHeight 0 0 (fun _ => 0) with
    visible := true }
    ((List.range 21).map fun i =>
      .node { Element.construct (i + 1) .Drawable 20 42 (BitVec.ofNat 32 (20 * i)) 0 (fun _ => 0)
        with visible := true } [])

/-- The first cell is not drawn. -/
theorem visitsAll_fullDesktop :
    ¬ ∀ (alphaBlending : BitVec 8 → BitVec 8 → BitVec 8 → BitVec 8) (s : Compositor)
    (d : Container) (rect diff : Rectangle), VisitsAll alphaBlending s d rect diff := by
  intro hall
  have h := hall (fun p _ _ => p) ⟨fun _ => 0, fun _ => 0, false, HelpBGR⟩ fullDesktop
    ⟨0, 0, ScreenWidth, ScreenHeight⟩ EmptyRectangle
  have hkeeps := (filter_visits_iff visible_of_shows 0 fullDesktop).mp (visitsAll_walk.mp h)
  have hvisible : true = false := (hkeeps rfl).1
  cases hvisible

end TedkOS.Ui
