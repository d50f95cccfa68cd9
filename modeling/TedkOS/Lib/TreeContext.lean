/-
  A tree with a hole.

  A `Frame` is a node with the place of one of its subtrees left open, and a context is a list of
  frames, the innermost first.  `plug` puts a tree into the hole, and `locate` finds the context of
  a subtree by its path, `search` by the label of its root; where only one label is hit, that is the
  only subtree it can find (`search_plug`).

  In preorder, what is in the hole comes in one piece, between what comes before it and what comes
  after it (`preorder_plug`).  Edges are those of the context, and those of the tree with the one
  above it (`edges_plug`).

  Arbitrary labels; nothing here names a program.
-/
import TedkOS.Lib.TreeWalk

namespace RoseTree

/-- A node, and its subtrees before and after the hole. -/
structure Frame (α : Type) where
  label : α
  before : List (RoseTree α)
  after : List (RoseTree α)

namespace Frame

variable {α : Type}

/-- The node with a tree in its hole. -/
def fill (f : Frame α) (t : RoseTree α) : RoseTree α := node f.label (f.before ++ t :: f.after)

end Frame

/-- The frames around a hole, from the inside. -/
abbrev Context (α : Type) := List (Frame α)

variable {α : Type}

/-- The tree with another one in the hole. -/
def plug : Context α → RoseTree α → RoseTree α
  | [], t => t
  | f :: C, t => plug C (f.fill t)

/-- The subtree at a path, which says what subtree to go to from the root on, with its context. -/
def locate : List Nat → Context α → RoseTree α → Option (Context α × RoseTree α)
  | [], C, t => some (C, t)
  | i :: path, C, node a cs =>
    match cs[i]? with
    | none => none
    | some c => locate path (⟨a, cs.take i, cs.drop (i + 1)⟩ :: C) c

/-- The root keeps its label if the hole does. -/
theorem label_plug : ∀ (C : Context α) {t t' : RoseTree α}, t.label = t'.label →
    (plug C t).label = (plug C t').label
  | [], _, _, h => h
  | f :: C, t, t', _ => label_plug C (show (f.fill t).label = (f.fill t').label from rfl)

/-- What is located is in its place. -/
theorem plug_locate {path : List Nat} {C C' : Context α} {t t' : RoseTree α}
    (h : locate path C t = some (C', t')) :
    plug C' t' = plug C t := by
  induction path generalizing C t with
  | nil =>
    obtain ⟨rfl, rfl⟩ := Prod.mk.inj (Option.some.inj h)
    rfl
  | cons i path ih =>
    obtain ⟨a, cs⟩ := t
    rw [locate] at h
    split at h
    · cases h
    · next c hc =>
      obtain ⟨hlt, hget⟩ := List.getElem?_eq_some_iff.mp hc
      rw [ih h, plug, Frame.fill, ← hget, ← List.drop_eq_getElem_cons hlt, List.take_append_drop]

/-! ## Preorder

  What is before the hole comes from the ancestors and the subtrees to the left of the way down,
  what is behind it from those to the right; and whether the hole is walked at all, from the
  ancestors. -/

section Preorder

variable (enter : α → Bool)

/-- The way to the hole is open. -/
def Context.enters (C : Context α) : Bool := C.all fun f => enter f.label

/-- What comes before the hole. -/
def Context.lower : Context α → List α
  | [] => []
  | f :: C => lower C ++ if Context.enters enter C then
      f.label :: (if enter f.label then preorderAll enter f.before else []) else []

/-- What comes after the hole. -/
def Context.upper : Context α → List α
  | [] => []
  | f :: C => (if Context.enters enter (f :: C) then preorderAll enter f.after else []) ++ upper C

end Preorder

section Preorder

variable {enter : α → Bool}

theorem Context.enters_cons {f : Frame α} {C : Context α} :
    Context.enters enter (f :: C) = (enter f.label && Context.enters enter C) := rfl

/-- **In preorder** what is in the hole comes in one piece. -/
theorem preorder_plug (C : Context α) (t : RoseTree α) : preorder enter (plug C t) =
    Context.lower enter C ++ (if Context.enters enter C then preorder enter t else []) ++
      Context.upper enter C := by
  induction C generalizing t with
  | nil =>
    show preorder enter t = [] ++ preorder enter t ++ []
    rw [List.nil_append, List.append_nil]
  | cons f C ih =>
    rw [plug, ih, Frame.fill, preorder, preorderAll_append, preorderAll, Context.lower,
      Context.upper, Context.enters_cons]
    cases Context.enters enter C with
    | false => simp
    | true =>
      cases enter f.label with
      | false => simp
      | true => simp

theorem Context.enters_all (C : Context α) : Context.enters (fun _ => true) C = true :=
  List.all_eq_true.mpr fun _ _ => rfl

/-- All the nodes of a tree in a context. -/
theorem preorder_plug_all (C : Context α) (t : RoseTree α) : preorder (fun _ => true) (plug C t) =
    Context.lower (fun _ => true) C ++ preorder (fun _ => true) t ++
      Context.upper (fun _ => true) C := by
  rw [preorder_plug, Context.enters_all, if_pos rfl]

end Preorder

/-! ## Searching

  A search goes through the tree in preorder and stops at the first root that is hit.  If the
  context has none before the hole (`Missed`), it finds what is in the hole. -/

section Search

variable (hit : α → Bool)

mutual

/-- The first subtree in preorder whose root is hit, with its context. -/
def search (C : Context α) : RoseTree α → Option (Context α × RoseTree α)
  | node a cs => if hit a then some (C, node a cs) else searchAll C a [] cs

def searchAll (C : Context α) (a : α) (before : List (RoseTree α)) : List (RoseTree α) →
    Option (Context α × RoseTree α)
  | [] => none
  | c :: cs => (search (⟨a, before, cs⟩ :: C) c).or (searchAll C a (before ++ [c]) cs)

end

end Search

section Search

variable {hit : α → Bool} {C C' : Context α} {a : α} {t t' : RoseTree α}

mutual

/-- What is found is hit, and in its place. -/
theorem search_some : ∀ {t : RoseTree α} {C : Context α}, search hit C t = some (C', t') →
    plug C' t' = plug C t ∧ hit t'.label = true
  | node a cs, C, h => by
    rw [search] at h
    split at h
    · next ha =>
      obtain ⟨hC, ht⟩ := Prod.mk.inj (Option.some.inj h)
      rw [← hC, ← ht]
      exact ⟨rfl, ha⟩
    · exact searchAll_some h

theorem searchAll_some : ∀ {cs before : List (RoseTree α)} {C : Context α} {a : α},
    searchAll hit C a before cs = some (C', t') → plug C' t' = plug C (node a (before ++ cs)) ∧
    hit t'.label = true
  | c :: cs, before, C, a, h => by
    rw [searchAll] at h
    rcases Option.or_eq_some_iff.mp h with h | ⟨-, h⟩
    · exact search_some (C := ⟨a, before, cs⟩ :: C) h
    · obtain ⟨hplug, hhit⟩ := searchAll_some h
      rw [List.append_assoc] at hplug
      exact ⟨hplug, hhit⟩

end

mutual

/-- In a tree with a hit something is found. -/
theorem search_isSome : ∀ {t : RoseTree α} {C : Context α} {b : α}, b ∈ preorder (fun _ => true) t →
    hit b = true → (search hit C t).isSome
  | node a cs, C, b, hb, hhit => by
    rw [search]
    split
    · rfl
    · next ha =>
      rw [preorder, if_pos rfl, List.mem_cons] at hb
      rcases hb with rfl | hb
      · exact absurd hhit ha
      · exact searchAll_isSome hb hhit

theorem searchAll_isSome : ∀ {cs before : List (RoseTree α)} {C : Context α} {a b : α},
    b ∈ preorderAll (fun _ => true) cs → hit b = true → (searchAll hit C a before cs).isSome
  | c :: cs, before, C, a, b, hb, hhit => by
    rw [preorderAll, List.mem_append] at hb
    rw [searchAll, Option.isSome_or, Bool.or_eq_true]
    rcases hb with hb | hb
    · exact Or.inl (search_isSome hb hhit)
    · exact Or.inr (searchAll_isSome hb hhit)

end

mutual

/-- Nothing is found in a tree without a hit. -/
theorem search_none :
    ∀ {t : RoseTree α} {C : Context α}, (∀ a ∈ preorder (fun _ => true) t, hit a = false) →
    search hit C t = none
  | node a cs, C, h => by
    rw [preorder, if_pos rfl, List.forall_mem_cons] at h
    rw [search, h.1, if_neg Bool.false_ne_true]
    exact searchAll_none h.2

theorem searchAll_none : ∀ {cs before : List (RoseTree α)} {C : Context α} {a : α},
    (∀ b ∈ preorderAll (fun _ => true) cs, hit b = false) → searchAll hit C a before cs = none
  | [], _, _, _, _ => rfl
  | c :: cs, before, C, a, h => by
    rw [preorderAll, List.forall_mem_append] at h
    rw [searchAll, search_none h.1, searchAll_none h.2]
    rfl

end

/-- Before the subtree that has the hits, nothing is found. -/
theorem searchAll_append {cs : List (RoseTree α)} : ∀ {before before₀ : List (RoseTree α)},
    (∀ b ∈ preorderAll (fun _ => true) before, hit b = false) →
    searchAll hit C a before₀ (before ++ cs) = searchAll hit C a (before₀ ++ before) cs
  | [], before₀, _ => by rw [List.nil_append, List.append_nil]
  | c :: before, before₀, h => by
    rw [preorderAll, List.forall_mem_append] at h
    rw [List.cons_append, searchAll, search_none h.1, Option.none_or, searchAll_append h.2,
      List.append_assoc, List.singleton_append]

/-- No label of a context is hit. -/
def Context.Missed (hit : α → Bool) : Context α → Prop
  | [] => True
  | f :: C => (hit f.label = false ∧ (∀ b ∈ preorderAll (fun _ => true) f.before, hit b = false) ∧
      ∀ b ∈ preorderAll (fun _ => true) f.after, hit b = false) ∧ Missed hit C

/-- **The search goes into the hole** of a context that is not hit. -/
theorem search_context (hC : Context.Missed hit C) (hfound : (search hit C t).isSome) :
    search hit [] (plug C t) = search hit C t := by
  induction C generalizing t with
  | nil => rfl
  | cons f C ih =>
    obtain ⟨⟨ha, hbefore, hafter⟩, hC⟩ := hC
    have hfill : search hit C (f.fill t) = search hit (f :: C) t := by
      rw [Frame.fill, search, ha, if_neg Bool.false_ne_true, searchAll_append hbefore,
        List.nil_append, searchAll, searchAll_none hafter, Option.or_none]
    rw [plug, ih hC (by rw [hfill]; exact hfound), hfill]

/-- **The only hit** is found. -/
theorem search_plug (hC : Context.Missed hit C) (ht : hit t.label = true) :
    search hit [] (plug C t) = some (C, t) := by
  have hfound : search hit C t = some (C, t) := by
    obtain ⟨b, cs⟩ := t
    exact if_pos ht
  rw [search_context hC (by rw [hfound]; rfl), hfound]

theorem missed_of (hlower : ∀ b ∈ Context.lower (fun _ => true) C, hit b = false)
    (hupper : ∀ b ∈ Context.upper (fun _ => true) C, hit b = false) : Context.Missed hit C := by
  induction C with
  | nil => trivial
  | cons f C ih =>
    rw [Context.lower, Context.enters_all, if_pos rfl, if_pos rfl, List.forall_mem_append,
      List.forall_mem_cons]
      at hlower
    rw [Context.upper, Context.enters_all, if_pos rfl, List.forall_mem_append] at hupper
    exact ⟨⟨hlower.2.1, hlower.2.2, hupper.1⟩, ih hlower.1 hupper.2⟩

end Search

/-! ## Edges

  Of the context, except the one into the hole, which depends on the root that is put in. -/

section Edges

variable (R : α → α → Prop)

/-- `R` holds on the edges of a context, with a label for what is in the hole. -/
def Context.Edges : Context α → α → Prop
  | [], _ => True
  | f :: C, a => R f.label a ∧ (∀ c ∈ f.before ++ f.after, R f.label c.label ∧ RoseTree.Edges R c) ∧
    Edges C f.label

variable {R}

/-- **The edges** of a tree in a context. -/
theorem edges_plug {C : Context α} {t : RoseTree α} :
    RoseTree.Edges R (plug C t) ↔ Context.Edges R C t.label ∧ RoseTree.Edges R t := by
  induction C generalizing t with
  | nil => exact (and_iff_right trivial).symm
  | cons f C ih =>
    have hfill : RoseTree.Edges R (f.fill t) ↔
        (R f.label t.label ∧ RoseTree.Edges R t) ∧ ∀ c ∈ f.before ++ f.after, R f.label c.label ∧
        RoseTree.Edges R c := by
      rw [Frame.fill, edges_node]
      simp only [List.mem_append, List.mem_cons, or_imp, forall_and, forall_eq]
      tauto
    rw [plug, ih, hfill, Context.Edges]
    show Context.Edges R C f.label ∧ _ ↔ _
    tauto

end Edges

end RoseTree
