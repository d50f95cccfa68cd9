/-
  Walking a tree with a stack of bounded size.

  A tree is walked in preorder, and only a node that is ENTERED has its subtrees walked.  `preorder`
  says so by recursion.  `walk` does it with a stack: it takes the top tree, and puts the subtrees
  of the node on the stack, the last one first.  The stack holds at most `cap` trees and loses what
  is pushed beyond.

  1. **With a stack** — what a walk finds (`visits`): a subtree is lost if `cap` trees are pending
     before it, and how many are pending is known from the tree (`walk_eq_visits`).

  2. **Without loss** — the walk finds every node of interest, in order, if and only if no lost
     subtree begins with one (`filter_visits_iff`).

  3. **Another way in** — if what is of interest lies below what is of interest, it does not matter
     who else is entered (`filter_preorder_congr`).

  Arbitrary labels; nothing here names a program.
-/
import TedkOS.Lib.RoseTree

namespace RoseTree

variable {α : Type} (enter : α → Bool)

mutual

/-- The nodes whose ancestors are all entered, parents before children and earlier siblings
    first. -/
def preorder : RoseTree α → List α
  | node a cs => a :: if enter a then preorderAll cs else []

def preorderAll : List (RoseTree α) → List α
  | [] => []
  | c :: cs => preorder c ++ preorderAll cs

end

/-! ## With a stack

  The stack may be followed without following the walk: when the walk comes to a tree, what is
  pending is known from the siblings to its right and from those of its ancestors.  `visits`
  computes what is found with so many pending, by recursion on the tree alone. -/

section Walk

variable (cap : Nat)

/-- A tree is put on the stack, if there is room. -/
def push (s : List (RoseTree α)) (c : RoseTree α) : List (RoseTree α) :=
  if cap ≤ s.length then s else c :: s

/-- The subtrees are put on the stack, the last one first. -/
def descend (cs : List (RoseTree α)) (s : List (RoseTree α)) : List (RoseTree α) :=
  cs.foldr (fun c s => push cap s c) s

/-- The walk, if it takes at most `n` rounds. -/
def walk : Nat → List (RoseTree α) → Option (List α)
  | _, [] => some []
  | 0, _ :: _ => none
  | n + 1, t :: s =>
    (walk n (if enter t.label then descend cap t.children s else s)).map (t.label :: ·)

mutual

/-- What a walk finds in a tree, with `k` trees pending behind it. -/
def visits (k : Nat) : RoseTree α → List α
  | node a cs => a :: if enter a then visitsAll k cs else []

/-- What it finds in subtrees, with `k` trees pending behind the last of them. -/
def visitsAll (k : Nat) : List (RoseTree α) → List α
  | [] => []
  | c :: cs => (if k + cs.length < cap then visits (k + cs.length) c else []) ++ visitsAll k cs

end

/-- What it finds from a stack. -/
def visitsStack : List (RoseTree α) → List α
  | [] => []
  | t :: s => visits enter cap s.length t ++ visitsStack s

end Walk

section Walk

variable {enter : α → Bool} {cap : Nat} {s cs : List (RoseTree α)}

/-- The stack after a node: what fits of the rest and of its subtrees. -/
theorem length_descend (hs : s.length ≤ cap) :
    (descend cap cs s).length = min cap (s.length + cs.length) := by
  induction cs with
  | nil =>
    show s.length = min cap (s.length + 0)
    omega
  | cons c cs ih =>
    show (push cap (descend cap cs s) c).length = min cap (s.length + (cs.length + 1))
    rw [push]
    split
    · omega
    · show (descend cap cs s).length + 1 = _
      omega

/-- A node less is on the stack, so the walk comes to its end. -/
theorem sizeAll_descend_le : sizeAll (descend cap cs s) ≤ sizeAll cs + sizeAll s := by
  induction cs with
  | nil => exact Nat.le_add_left _ _
  | cons c cs ih =>
    show sizeAll (push cap (descend cap cs s) c) ≤ c.size + sizeAll cs + sizeAll s
    rw [push]
    split
    · omega
    · show c.size + sizeAll (descend cap cs s) ≤ _
      omega

/-- The subtrees that fit are visited, and then the rest of the stack. -/
theorem visitsStack_descend (hs : s.length ≤ cap) :
    visitsStack enter cap (descend cap cs s) = visitsAll enter cap s.length cs ++
      visitsStack enter cap s := by
  induction cs with
  | nil => rfl
  | cons c cs ih =>
    have hlength : (descend cap cs s).length = min cap (s.length + cs.length) := length_descend hs
    show visitsStack enter cap (push cap (descend cap cs s) c) = _
    rw [push, visitsAll]
    by_cases hroom : s.length + cs.length < cap
    · rw [if_neg (by omega), if_pos hroom, visitsStack, hlength,
        Nat.min_eq_right (Nat.le_of_lt hroom), ih, List.append_assoc]
    · rw [if_pos (by omega), if_neg hroom, ih, List.nil_append]

/-- **A walk ends**, in as many rounds as there are nodes, and this is what it finds. -/
theorem walk_eq_visits {n : Nat} (hs : s.length ≤ cap) (hn : sizeAll s ≤ n) :
    walk enter cap n s = some (visitsStack enter cap s) := by
  induction n generalizing s with
  | zero =>
    cases s with
    | nil => rfl
    | cons t s =>
      have hpos := t.size_pos
      rw [sizeAll] at hn
      omega
  | succ n ih =>
    cases s with
    | nil => rfl
    | cons t s =>
      obtain ⟨a, cs⟩ := t
      have hle : s.length ≤ cap := Nat.le_of_succ_le hs
      have hsize : sizeAll cs + 1 + sizeAll s ≤ n + 1 := hn
      show (walk enter cap n (if enter a then descend cap cs s else s)).map (a :: ·) =
        some ((a :: if enter a then visitsAll enter cap s.length cs else []) ++
          visitsStack enter cap s)
      split
      · have hdescend : sizeAll (descend cap cs s) ≤ sizeAll cs + sizeAll s := sizeAll_descend_le
        have hlength : (descend cap cs s).length = min cap (s.length + cs.length) :=
          length_descend hle
        rw [ih (by omega) (by omega), visitsStack_descend hle]
        rfl
      · rw [ih hle (by omega)]
        rfl

end Walk

/-! ## Without loss

  What the walk finds is a part of the preorder.  It is all of it, as far as the filter goes,
  exactly if each subtree that is lost begins with nothing of interest (`Keeps`); a small tree
  loses none (`keeps_of_size_le`). -/

section Loss

variable (p : α → Bool) (cap : Nat)

mutual

/-- No subtree that is lost begins with a node of interest. -/
def Keeps (k : Nat) : RoseTree α → Prop
  | node a cs => enter a = true → KeepsAll k cs

def KeepsAll (k : Nat) : List (RoseTree α) → Prop
  | [] => True
  | c :: cs => (if k + cs.length < cap then Keeps (k + cs.length) c else p c.label = false) ∧
    KeepsAll k cs

end

end Loss

section Loss

variable {enter p : α → Bool} {cap : Nat}

mutual

/-- A bounded walk visits some of the preorder, in its order. -/
theorem visits_sublist (k : Nat) :
    ∀ t : RoseTree α, (visits enter cap k t).Sublist (preorder enter t)
  | node a cs => by
    rw [visits, preorder]
    refine List.Sublist.cons_cons a ?_
    split
    · exact visitsAll_sublist k cs
    · exact List.nil_sublist _

theorem visitsAll_sublist (k : Nat) :
    ∀ cs : List (RoseTree α), (visitsAll enter cap k cs).Sublist (preorderAll enter cs)
  | [] => List.Sublist.refl _
  | c :: cs => by
    rw [visitsAll, preorderAll]
    refine List.Sublist.append ?_ (visitsAll_sublist k cs)
    split
    · exact visits_sublist _ c
    · exact List.nil_sublist _

end

mutual

/-- A walk that enters less finds less. -/
theorem preorder_sublist : ∀ t : RoseTree α, (preorder enter t).Sublist (preorder (fun _ => true) t)
  | node a cs => by
    rw [preorder, preorder, if_pos rfl]
    refine List.Sublist.cons_cons a ?_
    split
    · exact preorderAll_sublist cs
    · exact List.nil_sublist _

theorem preorderAll_sublist : ∀ cs : List (RoseTree α),
    (preorderAll enter cs).Sublist (preorderAll (fun _ => true) cs)
  | [] => List.Sublist.refl _
  | c :: cs => List.Sublist.append (preorder_sublist c) (preorderAll_sublist cs)

end

mutual

/-- Nothing is lost of a tree with no more nodes than there is room for. -/
theorem keeps_of_size_le {k : Nat} : ∀ t : RoseTree α, k + t.size ≤ cap + 1 → Keeps enter p cap k t
  | node a cs => by
    intro h _
    rw [size] at h
    exact keepsAll_of_sizeAll_le cs (by omega)

/-- Trees that fit the stack all together lose nothing. -/
theorem keepsAll_of_sizeAll_le {k : Nat} : ∀ cs : List (RoseTree α), k + sizeAll cs ≤ cap →
    KeepsAll enter p cap k cs
  | [], _ => trivial
  | c :: cs, h => by
    have hpos := c.size_pos
    have hle := length_le_sizeAll cs
    rw [sizeAll] at h
    rw [KeepsAll, if_pos (by omega)]
    exact ⟨keeps_of_size_le c (by omega), keepsAll_of_sizeAll_le cs (by omega)⟩

end

/-- Two parts are complete if the whole is. -/
theorem append_eq_iff {l₁ l₂ m₁ m₂ : List α} (h₁ : l₁.Sublist m₁) (h₂ : l₂.Sublist m₂) :
    l₁ ++ l₂ = m₁ ++ m₂ ↔ l₁ = m₁ ∧ l₂ = m₂ := by
  constructor
  · intro h
    have hlength := congrArg List.length h
    rw [List.length_append, List.length_append] at hlength
    have hle₁ := h₁.length_le
    have hle₂ := h₂.length_le
    exact List.append_inj h (by omega)
  · rintro ⟨rfl, rfl⟩
    rfl

/-- A node that is not of interest is not entered, so nothing below it is found. -/
theorem filter_preorder_eq_nil (hp : ∀ a, enter a = true → p a = true) {t : RoseTree α} :
    (preorder enter t).filter p = [] ↔ p t.label = false := by
  obtain ⟨a, cs⟩ := t
  show (a :: if enter a then preorderAll enter cs else []).filter p = [] ↔ p a = false
  cases ha : p a with
  | true => simp [ha]
  | false =>
    have henter : enter a = false := by
      cases henter : enter a with
      | false => rfl
      | true =>
        rw [hp a henter] at ha
        cases ha
    simp [ha, henter]

mutual

/-- **A walk finds every node of interest**, and in order, exactly if no lost subtree begins with
    one. -/
theorem filter_visits_iff (hp : ∀ a, enter a = true → p a = true) (k : Nat) : ∀ t : RoseTree α,
    (visits enter cap k t).filter p = (preorder enter t).filter p ↔ Keeps enter p cap k t
  | node a cs => by
    rw [visits, preorder, Keeps, List.filter_cons, List.filter_cons]
    cases henter : enter a with
    | false => simp
    | true =>
      rw [hp a henter, if_pos rfl, if_pos rfl, if_pos rfl, if_pos rfl, List.cons.injEq,
        and_iff_right rfl, filter_visitsAll_iff hp k cs]
      exact ⟨fun h _ => h, fun h => h rfl⟩

theorem filter_visitsAll_iff (hp : ∀ a, enter a = true → p a = true) (k : Nat) :
    ∀ cs : List (RoseTree α),
    (visitsAll enter cap k cs).filter p = (preorderAll enter cs).filter p ↔
    KeepsAll enter p cap k cs
  | [] => iff_of_true rfl trivial
  | c :: cs => by
    rw [visitsAll, preorderAll, KeepsAll, List.filter_append, List.filter_append]
    have hrest : ((visitsAll enter cap k cs).filter p).Sublist ((preorderAll enter cs).filter p) :=
      (visitsAll_sublist k cs).filter p
    by_cases hroom : k + cs.length < cap
    · rw [if_pos hroom, if_pos hroom, append_eq_iff ((visits_sublist _ c).filter p) hrest,
        filter_visits_iff hp (k + cs.length) c, filter_visitsAll_iff hp k cs]
    · rw [if_neg hroom, if_neg hroom, append_eq_iff ((List.nil_sublist _).filter p) hrest,
        filter_visitsAll_iff hp k cs, ← filter_preorder_eq_nil hp]
      exact and_congr_left' eq_comm

end

end Loss

/-! ## Another way in

  Two walks that enter different nodes differ in subtrees only, and if something of interest lies
  only below what both enter then they find the same. -/

section Edges

variable {enter enter' q : α → Bool}

mutual

/-- Nothing of interest lies below a node that is not. -/
theorem filter_preorder_of_edges : ∀ t : RoseTree α, Edges (fun a b => q b = true → q a = true) t →
    q t.label = false → (preorder enter t).filter q = []
  | node a cs, h, ha => by
    have ha : q a = false := ha
    rw [preorder, List.filter_cons, ha, if_neg Bool.false_ne_true]
    split
    · exact filter_preorderAll_of_edges a cs h ha
    · rfl

theorem filter_preorderAll_of_edges (a : α) : ∀ cs : List (RoseTree α),
    EdgesAll (fun a b => q b = true → q a = true) a cs → q a = false →
    (preorderAll enter cs).filter q = []
  | [], _, _ => rfl
  | c :: cs, ⟨⟨hc, hedges⟩, hrest⟩, ha => by
    have hlabel : q c.label = false := by
      cases hq : q c.label with
      | false => rfl
      | true => exact absurd (hc hq) (Bool.eq_false_iff.mp ha)
    rw [preorderAll, List.filter_append, filter_preorder_of_edges c hedges hlabel,
      filter_preorderAll_of_edges a cs hrest ha, List.append_nil]

end

mutual

/-- **Who else is entered** does not matter. -/
theorem filter_preorder_congr (henter : ∀ a, q a = true → enter a = enter' a) : ∀ t : RoseTree α,
    Edges (fun a b => q b = true → q a = true) t →
    (preorder enter t).filter q = (preorder enter' t).filter q
  | node a cs, h => by
    cases ha : q a with
    | false => rw [filter_preorder_of_edges _ h ha, filter_preorder_of_edges _ h ha]
    | true =>
      rw [preorder, preorder, henter a ha, List.filter_cons, List.filter_cons, ha, if_pos rfl,
        if_pos rfl]
      refine congrArg (a :: ·) ?_
      split
      · exact filter_preorderAll_congr henter a cs h
      · rfl

theorem filter_preorderAll_congr (henter : ∀ a, q a = true → enter a = enter' a) (a : α) :
    ∀ cs : List (RoseTree α), EdgesAll (fun a b => q b = true → q a = true) a cs →
      (preorderAll enter cs).filter q = (preorderAll enter' cs).filter q
  | [], _ => rfl
  | c :: cs, ⟨⟨_, hedges⟩, hrest⟩ => by
    rw [preorderAll, preorderAll, List.filter_append, List.filter_append,
      filter_preorder_congr henter c hedges, filter_preorderAll_congr henter a cs hrest]

end

/-- The preorder of two lists of trees. -/
theorem preorderAll_append (cs cs' : List (RoseTree α)) :
    preorderAll enter (cs ++ cs') = preorderAll enter cs ++ preorderAll enter cs' := by
  induction cs with
  | nil => rfl
  | cons c cs ih => rw [List.cons_append, preorderAll, preorderAll, ih, List.append_assoc]

mutual

/-- It does not matter either who is entered that has nothing below. -/
theorem preorder_congr : ∀ t : RoseTree α, Edges (fun a _ => enter a = enter' a) t →
    preorder enter t = preorder enter' t
  | node a [], _ => by
    rw [preorder, preorder, preorderAll, preorderAll, ite_self, ite_self]
  | node a (c :: cs), h => by
    have ha : enter a = enter' a := h.1.1
    rw [preorder, preorder, ha, preorderAll_congr a (c :: cs) h]

theorem preorderAll_congr (a : α) :
    ∀ cs : List (RoseTree α), EdgesAll (fun a _ => enter a = enter' a) a cs →
    preorderAll enter cs = preorderAll enter' cs
  | [], _ => rfl
  | c :: cs, ⟨⟨_, hedges⟩, hrest⟩ => by
    rw [preorderAll, preorderAll, preorder_congr c hedges, preorderAll_congr a cs hrest]

end

/-- Another subtree with nothing of interest, wherever it is put. -/
theorem filter_preorderAll_insertIdx {d : RoseTree α}
    (h : (preorder enter d).filter q = []) (i : Nat) (cs : List (RoseTree α)) :
    (preorderAll enter (cs.insertIdx i d)).filter q = (preorderAll enter cs).filter q := by
  induction i generalizing cs with
  | zero => rw [List.insertIdx_zero, preorderAll, List.filter_append, h, List.nil_append]
  | succ i ih =>
    cases cs with
    | nil => rfl
    | cons c cs =>
      rw [List.insertIdx_succ_cons, preorderAll, preorderAll, List.filter_append,
        List.filter_append, ih]

/-- A subtree more, wherever it is put. -/
theorem perm_preorderAll_insertIdx {d : RoseTree α} :
    ∀ (i : Nat) (cs : List (RoseTree α)), i ≤ cs.length →
    (preorderAll enter (cs.insertIdx i d)).Perm (preorder enter d ++ preorderAll enter cs)
  | 0, cs, _ => by rw [List.insertIdx_zero, preorderAll]
  | i + 1, c :: cs, h => by
    rw [List.insertIdx_succ_cons, preorderAll, preorderAll]
    exact ((perm_preorderAll_insertIdx i cs (Nat.le_of_succ_le_succ h)).append_left _).trans (by
      rw [← List.append_assoc, ← List.append_assoc]
      exact List.perm_append_comm.append_right _)

end Edges

/-! ## Parents -/

section Parents

variable {α : Type} {R : α → α → Prop} {b : α}

mutual

/-- Every label but that of the root has its parent in the tree. -/
theorem Edges.parent : ∀ {t : RoseTree α}, Edges R t → b ∈ preorder (fun _ => true) t →
    b = t.label ∨ ∃ a ∈ preorder (fun _ => true) t, R a b
  | node a cs, h, hb => by
    rw [preorder, if_pos rfl] at hb ⊢
    rcases List.mem_cons.mp hb with rfl | hb
    · exact Or.inl rfl
    · obtain ⟨a', ha', hR⟩ := EdgesAll.parent h hb
      exact Or.inr ⟨a', ha', hR⟩

theorem EdgesAll.parent {a : α} : ∀ {cs : List (RoseTree α)}, EdgesAll R a cs →
    b ∈ preorderAll (fun _ => true) cs → ∃ a' ∈ a :: preorderAll (fun _ => true) cs, R a' b
  | c :: cs, ⟨⟨hc, hedges⟩, hrest⟩, hb => by
    rw [preorderAll] at hb ⊢
    rcases List.mem_append.mp hb with hb | hb
    · rcases Edges.parent hedges hb with rfl | ⟨a', ha', hR⟩
      · exact ⟨a, List.mem_cons_self, hc⟩
      · exact ⟨a', List.mem_cons_of_mem _ (List.mem_append_left _ ha'), hR⟩
    · obtain ⟨a', ha', hR⟩ := EdgesAll.parent hrest hb
      refine ⟨a', ?_, hR⟩
      rcases List.mem_cons.mp ha' with rfl | ha'
      · exact List.mem_cons_self
      · exact List.mem_cons_of_mem _ (List.mem_append_right _ ha')

end

end Parents

end RoseTree
