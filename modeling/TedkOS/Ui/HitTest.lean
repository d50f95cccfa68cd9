/-
  What is under the mouse (`getElementAtPosition` of ui/compositor.cpp).

  The loop walks the tree as `drawSingle` does, and goes on below an element only if the element has
  the point.  Every element that has it becomes the candidate, so the last one found is the answer.

  1. **Program** — `getElementAtPosition`, which never selects the mouse.

  2. **The walk** — it returns, with the last element of a walk with a bounded stack.

  3. **Correctness** — the answer is the uppermost of the elements that are visible with all their
     ancestors and have the point (`getElementAtPosition_topmost`), so nothing but the mouse is
     drawn over it there (`getElementAtPosition_seen`).
-/
import TedkOS.Ui.Painting

namespace TedkOS.Ui

open RoseTree Klibs Layers

/-! ## Program -/

section Program

variable (theMouse : Nat) (absX absY : int32_t)

/-- The `while` loop of `getElementAtPosition`, if it takes at most `n` rounds. -/
def hitLoop : Nat → TreeIterator → Option Element → Option (Option Element)
  | n, itr, candidate =>
    match itr.iterate with
    | none => some candidate
    | some (c, itr) =>
      match n with
      | 0 => none
      | n + 1 =>
        if c.label.id = theMouse then hitLoop n itr candidate
        else if c.label.visible = false then hitLoop n itr candidate
        else if c.label.isPixelInRange absX absY then hitLoop n (itr.descend c) (some c.label)
        else hitLoop n itr candidate

/-- `getElementAtPosition(absX, absY)`; the null pointer is `some none`. -/
def getElementAtPosition (rootContainer : Container) : Option (Option Element) :=
  hitLoop theMouse absX absY rootContainer.size (TreeIterator.new rootContainer) none

end Program

/-! ## The walk

  The candidate is replaced each time the walk comes to an element that has the point, so it is
  the last of these.  That is `lastHit` of the list of elements visited. -/

/-- A visible element that is not the mouse. -/
def Element.selectable (theMouse : Nat) (e : Element) : Bool := e.id != theMouse && e.visible

/-- An element that becomes the candidate. -/
def Element.hit (theMouse : Nat) (absX absY : int32_t) (e : Element) : Bool :=
  e.selectable theMouse && e.isPixelInRange absX absY

section Walk

variable {theMouse : Nat} {absX absY : int32_t} {rootContainer : Container}

/-- The last candidate of a list, or the one before. -/
def lastHit (theMouse : Nat) (absX absY : int32_t) (candidate : Option Element)
    (es : List Element) : Option Element :=
  (es.filter (Element.hit theMouse absX absY)).getLast?.or candidate

theorem lastHit_cons_hit {candidate : Option Element} {e : Element} {es : List Element}
    (h : e.hit theMouse absX absY = true) :
    lastHit theMouse absX absY candidate (e :: es) = lastHit theMouse absX absY (some e) es := by
  rw [lastHit, lastHit, List.filter_cons, if_pos h, List.getLast?_cons]
  cases (es.filter (Element.hit theMouse absX absY)).getLast? with
  | none => rfl
  | some e' => rfl

theorem lastHit_cons_miss {candidate : Option Element} {e : Element} {es : List Element}
    (h : e.hit theMouse absX absY = false) :
    lastHit theMouse absX absY candidate (e :: es) = lastHit theMouse absX absY candidate es := by
  rw [lastHit, lastHit, List.filter_cons, h, if_neg Bool.false_ne_true]

/-- **The loop is a walk**, and keeps the last candidate. -/
theorem hitLoop_eq (n : Nat) (itr : TreeIterator) (candidate : Option Element) :
    hitLoop theMouse absX absY n itr candidate =
      (walk (Element.hit theMouse absX absY) 20 n itr.pending).map
        (lastHit theMouse absX absY candidate) := by
  induction n generalizing itr candidate with
  | zero =>
    rw [hitLoop, TreeIterator.iterate_eq]
    cases itr.pending with
    | nil => simp [walk, lastHit]
    | cons c rest => rfl
  | succ n ih =>
    rw [hitLoop, TreeIterator.iterate_eq]
    cases hpending : itr.pending with
    | nil => simp [walk, lastHit]
    | cons c rest =>
      dsimp only
      rw [walk, Option.map_map]
      have hpop := TreeIterator.pending_pop hpending
      cases hhit : c.label.hit theMouse absX absY with
      | true =>
        obtain ⟨hselectable, hrange⟩ := Bool.and_eq_true_iff.mp hhit
        obtain ⟨hid, hvisible⟩ := Bool.and_eq_true_iff.mp hselectable
        rw [if_neg (by simpa using hid), if_neg (by simp [hvisible]), if_pos hrange, ih,
          TreeIterator.pending_descend, hpop, if_pos rfl]
        exact congrArg (Option.map · _) (funext fun es => (lastHit_cons_hit hhit).symm)
      | false =>
        have hmiss :
            (walk (Element.hit theMouse absX absY) 20 n rest).map
            (lastHit theMouse absX absY candidate) =
            (walk (Element.hit theMouse absX absY) 20 n rest).map
              (lastHit theMouse absX absY candidate ∘ (c.label :: ·)) :=
          congrArg (Option.map · _) (funext fun es => (lastHit_cons_miss hhit).symm)
        -- the mouse, a hidden element, or one that does not have the point: nothing is pushed
        rw [if_neg Bool.false_ne_true, ← hmiss]
        split
        · rw [ih, hpop]
        · split
          · rw [ih, hpop]
          · next hid hvisible =>
            have hrange : c.label.isPixelInRange absX absY = false := by
              cases hrange : c.label.isPixelInRange absX absY with
              | false => rfl
              | true => simp [Element.hit, Element.selectable, hid, hvisible, hrange] at hhit
            rw [hrange, if_neg Bool.false_ne_true, ih, hpop]

/-- **`getElementAtPosition` returns**, and this is its answer. -/
theorem getElementAtPosition_eq (theMouse : Nat) (absX absY : int32_t) (rootContainer : Container) :
    getElementAtPosition theMouse absX absY rootContainer =
      some ((visits (Element.hit theMouse absX absY) 20 0 rootContainer).filter
        (Element.hit theMouse absX absY)).getLast? := by
  have hwalk : walk (Element.hit theMouse absX absY) 20 rootContainer.size [rootContainer] =
      some (visitsStack (Element.hit theMouse absX absY) 20 [rootContainer]) :=
    walk_eq_visits (Nat.succ_le_succ (Nat.zero_le 19)) (Nat.le_of_eq (Nat.add_zero _))
  rw [getElementAtPosition, hitLoop_eq, TreeIterator.pending_new, hwalk]
  refine congrArg some ?_
  rw [lastHit, Option.or_none, visitsStack, visitsStack, List.append_nil]
  rfl

end Walk

/-! ## Correctness

  Preorder is also the order in which a draw paints, so the last one is the one on top.  A
  drawable that would lie over it would have the point as well, and come later. -/

/-- The elements that are visible with all their ancestors, but for the mouse: from the lowest to
    the highest. -/
def selectables (theMouse : Nat) (d : Container) : List Element :=
  (preorder (Element.selectable theMouse) d).filter (Element.selectable theMouse)

/-- Wherever the walk comes, no child that finds 20 elements pending has the point. -/
def UncrowdedAt (theMouse : Nat) (p : Pixel) (d : Container) : Prop :=
  Keeps (Element.hit theMouse p.1 p.2) (Element.hit theMouse p.1 p.2) 20 0 d

/-- The mouse has no children. -/
def MouseAlone (theMouse : Nat) (d : Container) : Prop :=
  Edges (fun parent _ => parent.id ≠ theMouse) d

section Correctness

variable {theMouse : Nat} {p : Pixel} {d : Container} {e : Element}

/-- The hits of the walk are all the elements that could be selected and have the point, in
    order. -/
theorem hits_eq (hnested : NestedAt p d) (hroom : UncrowdedAt theMouse p d) :
    (visits (Element.hit theMouse p.1 p.2) 20 0 d).filter (Element.hit theMouse p.1 p.2) =
      (selectables theMouse d).filter fun e => e.isPixelInRange p.1 p.2 := by
  have henter :
      (preorder (Element.hit theMouse p.1 p.2) d).filter (fun e => e.isPixelInRange p.1 p.2) =
      (preorder (Element.selectable theMouse) d).filter fun e => e.isPixelInRange p.1 p.2 :=
    filter_preorder_congr (fun e he => by rw [Element.hit, he, Bool.and_true]) d hnested
  calc (visits (Element.hit theMouse p.1 p.2) 20 0 d).filter (Element.hit theMouse p.1 p.2)
      = (preorder (Element.hit theMouse p.1 p.2) d).filter (Element.hit theMouse p.1 p.2) :=
        (filter_visits_iff (fun _ h => h) 0 d).mpr hroom
    _ = ((preorder (Element.hit theMouse p.1 p.2) d).filter
          fun e => e.isPixelInRange p.1 p.2).filter
          (Element.selectable theMouse) := by
        rw [List.filter_filter]
        rfl
    _ = (selectables theMouse d).filter fun e => e.isPixelInRange p.1 p.2 := by
        rw [henter, selectables, List.filter_filter, List.filter_filter]
        exact List.filter_congr fun e _ => Bool.and_comm _ _

/-- **The uppermost element** that has the point is found, or none if none has it. -/
theorem getElementAtPosition_topmost (hnested : NestedAt p d) (hroom : UncrowdedAt theMouse p d) :
    getElementAtPosition theMouse p.1 p.2 d =
      some ((selectables theMouse d).filter fun e => e.isPixelInRange p.1 p.2).getLast? := by
  rw [getElementAtPosition_eq, hits_eq hnested hroom]

theorem selectables_eq (halone : MouseAlone theMouse d) :
    selectables theMouse d = (preorder Element.visible d).filter (Element.selectable theMouse) := by
  have hedges : Edges (fun a _ => Element.selectable theMouse a = Element.visible a) d :=
    halone.imp fun a _ hne => by rw [Element.selectable, bne_iff_ne.mpr hne, Bool.true_and]
  rw [selectables, preorder_congr d hedges]

/-- The last element of a list with a property. -/
theorem getLast?_filter_eq_some {q : Element → Bool} {es : List Element}
    (h : (es.filter q).getLast? = some e) :
    ∃ below above, es = below ++ e :: above ∧ q e = true ∧ ∀ a ∈ above, q a = false := by
  obtain ⟨front, hfront⟩ := List.getLast?_eq_some_iff.mp h
  obtain ⟨below, rest, rfl, -, hrest⟩ := List.filter_eq_append_iff.mp hfront
  obtain ⟨skipped, above, rfl, -, hq, habove⟩ := List.filter_eq_cons_iff.mp hrest
  refine ⟨below ++ skipped, above, (List.append_assoc _ _ _).symm, hq, fun a ha => ?_⟩
  exact Bool.eq_false_iff.mpr (List.filter_eq_nil_iff.mp habove a ha)

end Correctness

/-- **What is clicked is what is seen**: nothing but the mouse is drawn over the answer at the
    point, and without an answer nothing but the mouse is there. -/
theorem getElementAtPosition_seen (theMouse : Nat) (p : Pixel) (d : Container)
    (hnested : NestedAt p d) (hroom : UncrowdedAt theMouse p d) (halone : MouseAlone theMouse d) :
    ∃ answer, getElementAtPosition theMouse p.1 p.2 d = some answer ∧
      match answer with
      | none => ∀ e ∈ preorder Element.visible d, e.visible = true →
        e.isPixelInRange p.1 p.2 = true → e.id = theMouse
      | some e => ∃ below above, preorder Element.visible d = below ++ e :: above ∧
          (e.id ≠ theMouse ∧ e.visible = true ∧ e.isPixelInRange p.1 p.2 = true) ∧
          ∀ a ∈ above, a.visible = true → a.isPixelInRange p.1 p.2 = true → a.id = theMouse := by
  refine ⟨_, getElementAtPosition_topmost hnested hroom, ?_⟩
  rw [selectables_eq halone, List.filter_filter]
  have hmouse : ∀ e : Element, (e.isPixelInRange p.1 p.2 && e.selectable theMouse) = false →
      e.visible = true → e.isPixelInRange p.1 p.2 = true → e.id = theMouse := by
    intro e hnot hvisible hrange
    simpa [Element.selectable, hvisible, hrange] using hnot
  split
  · next hnone =>
    intro e he
    exact hmouse e
      (Bool.eq_false_iff.mpr (List.filter_eq_nil_iff.mp (List.getLast?_eq_none_iff.mp hnone) e he))
  · next e hsome =>
    obtain ⟨below, above, hes, hq, habove⟩ := getLast?_filter_eq_some hsome
    obtain ⟨hrange, hselectable⟩ := Bool.and_eq_true_iff.mp hq
    obtain ⟨hid, hvisible⟩ := Bool.and_eq_true_iff.mp hselectable
    exact ⟨below, above, hes, ⟨bne_iff_ne.mp hid, hvisible, hrange⟩,
      fun a ha => hmouse a (habove a ha)⟩

/-- On the white desktop, under its mouse. -/
theorem getElementAtPosition_seen_desktop : ∃ answer, getElementAtPosition 1 512 384
    (whiteDesktop true { Element.construct 1 .Drawable 30 44 512 384 (fun _ => 255) with
      visible := true }) =
      some answer ∧ answer.map Element.id = some 0 := by
  obtain ⟨answer, h, -⟩ := getElementAtPosition_seen 1 (512, 384)
    (whiteDesktop true { Element.construct 1 .Drawable 30 44 512 384 (fun _ => 255) with
      visible := true })
    (nested_whiteDesktop _ _ _ ⟨by decide, by decide, by decide, by decide⟩)
      (keeps_of_size_le _ (by decide))
    ⟨⟨by decide, trivial⟩, trivial⟩
  refine ⟨answer, h, ?_⟩
  rw [← Option.some.inj h]
  rfl

end TedkOS.Ui
