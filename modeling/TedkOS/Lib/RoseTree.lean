/-
  Trees whose nodes have a label and any number of subtrees.

  `Edges R t` says that `R` holds between every node and each of its children.  It is what a tree
  keeps if the nodes store something about their parents.

  `modify hit f` replaces every topmost tree whose root is hit.  If the new root stands to a parent
  as the old one did, all depends on the trees put in (`edges_modify`).

  Arbitrary labels; nothing here names a program.
-/
import Mathlib.Data.List.Basic

inductive RoseTree (α : Type) where
  | node (label : α) (children : List (RoseTree α))

namespace RoseTree

variable {α : Type}

def label : RoseTree α → α
  | node a _ => a

def children : RoseTree α → List (RoseTree α)
  | node _ cs => cs

instance [Inhabited α] : Inhabited (RoseTree α) := ⟨node default []⟩

mutual

/-- The number of nodes. -/
def size : RoseTree α → Nat
  | node _ cs => sizeAll cs + 1

def sizeAll : List (RoseTree α) → Nat
  | [] => 0
  | c :: cs => size c + sizeAll cs

end

theorem size_pos (t : RoseTree α) : 0 < t.size := by
  cases t
  exact Nat.succ_pos _

theorem length_le_sizeAll : ∀ cs : List (RoseTree α), cs.length ≤ sizeAll cs
  | [] => Nat.le_refl 0
  | c :: cs => by
    have hpos := c.size_pos
    have hle := length_le_sizeAll cs
    rw [List.length_cons, sizeAll]
    omega

/-! ## Edges

  Between a node and its children, all the way down.  It says nothing of the root of the tree, so
  a tree may be put somewhere else as it is. -/

section Edges

variable (R : α → α → Prop)

mutual

/-- `R` holds between every node and its children. -/
def Edges : RoseTree α → Prop
  | node a cs => EdgesAll a cs

/-- `R` holds between `a` and the roots, and in the trees. -/
def EdgesAll (a : α) : List (RoseTree α) → Prop
  | [] => True
  | c :: cs => (R a c.label ∧ Edges c) ∧ EdgesAll a cs

end

variable {R} {a : α} {cs : List (RoseTree α)}

theorem edgesAll_iff : EdgesAll R a cs ↔ ∀ c ∈ cs, R a c.label ∧ Edges R c := by
  induction cs with
  | nil => exact iff_of_true trivial (fun c hc => absurd hc List.not_mem_nil)
  | cons c cs ih => rw [EdgesAll, ih, List.forall_mem_cons]

theorem edges_node : Edges R (node a cs) ↔ ∀ c ∈ cs, R a c.label ∧ Edges R c := edgesAll_iff

mutual

/-- A weaker relation holds along the same edges. -/
theorem Edges.imp {S : α → α → Prop} (h : ∀ a b, R a b → S a b) :
    ∀ {t : RoseTree α}, Edges R t → Edges S t
  | node _ _, hedges => EdgesAll.imp h hedges

theorem EdgesAll.imp {S : α → α → Prop} (h : ∀ a b, R a b → S a b) {a : α} :
    ∀ {cs : List (RoseTree α)}, EdgesAll R a cs → EdgesAll S a cs
  | [], _ => trivial
  | _ :: _, ⟨⟨hc, hedges⟩, hrest⟩ => ⟨⟨h _ _ hc, Edges.imp h hedges⟩, EdgesAll.imp h hrest⟩

end

end Edges

/-! ## Replacing trees

  What is below a node that is hit is not searched any more. -/

section Modify

variable (hit : α → Bool) (f : RoseTree α → RoseTree α) (P : RoseTree α → Prop)

mutual

/-- The topmost trees whose root is hit are replaced. -/
def modify : RoseTree α → RoseTree α
  | node a cs => if hit a then f (node a cs) else node a (modifyAll cs)

def modifyAll : List (RoseTree α) → List (RoseTree α)
  | [] => []
  | c :: cs => modify c :: modifyAll cs

end

mutual

/-- `P` holds of the trees that `modify` replaces. -/
def Hits : RoseTree α → Prop
  | node a cs => if hit a then P (node a cs) else HitsAll cs

def HitsAll : List (RoseTree α) → Prop
  | [] => True
  | c :: cs => Hits c ∧ HitsAll cs

end

end Modify

section Modify

variable {hit : α → Bool} {f : RoseTree α → RoseTree α} {P : RoseTree α → Prop} {R : α → α → Prop}

/-- The root of a tree with something replaced stands to a parent as it did. -/
theorem label_modify (hf : ∀ t a, R a t.label → R a (f t).label) {t : RoseTree α} {a : α}
    (h : R a t.label) :
    R a (t.modify hit f).label := by
  obtain ⟨b, cs⟩ := t
  rw [modify]
  split
  · exact hf _ a h
  · exact h

mutual

/-- **Edges after a replacement**: they are in order if and only if they are in the trees put in. -/
theorem edges_modify (hf : ∀ t a, R a t.label → R a (f t).label)
    (hP : ∀ t, Edges R t → (Edges R (f t) ↔ P t)) :
    ∀ {t : RoseTree α}, Edges R t → (Edges R (t.modify hit f) ↔ Hits hit P t)
  | node a cs, h => by
    rw [modify, Hits]
    split
    · exact hP _ h
    · exact edgesAll_modifyAll hf hP h

/-- The same of a list of trees below one parent. -/
theorem edgesAll_modifyAll (hf : ∀ t a, R a t.label → R a (f t).label)
    (hP : ∀ t, Edges R t → (Edges R (f t) ↔ P t)) {a : α} :
    ∀ {cs : List (RoseTree α)}, EdgesAll R a cs →
    (EdgesAll R a (modifyAll hit f cs) ↔ HitsAll hit P cs)
  | [], _ => Iff.rfl
  | c :: cs, h => by
    obtain ⟨⟨hc, hedges⟩, hrest⟩ := h
    rw [modifyAll, EdgesAll, HitsAll, edges_modify hf hP hedges, edgesAll_modifyAll hf hP hrest]
    exact and_congr_left' (and_iff_right (label_modify hf hc))

end

mutual

theorem hits_true : ∀ t : RoseTree α, Hits hit (fun _ => True) t
  | node a cs => by
    rw [Hits]
    split
    · trivial
    · exact hitsAll_true cs

theorem hitsAll_true : ∀ cs : List (RoseTree α), HitsAll hit (fun _ => True) cs
  | [] => trivial
  | c :: cs => ⟨hits_true c, hitsAll_true cs⟩

end

end Modify

end RoseTree
