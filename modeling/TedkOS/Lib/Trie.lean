/-
  Tries over a heap: nodes are pointers, and the edges are labelled with the letters of the words
  stored.

  The node of a word is found by walking down from the root, letter by letter (`walk`); what is
  stored under the word is the value at that node (`stored`).  A graph of pointers is a TREE if no
  node is found by two words (`Tree`).  On a tree the two changes an insertion makes are local:
    1. a fresh node hung below another gives one more word a node, and no word a value
       (`walk_hang`, `stored_hang`);
    2. a value set at a node is stored under the word of that node alone (`stored_setValue`).

  `scan` is the search for the longest word that is a prefix of a given one: it walks down as far as
  the edges go and keeps the last value seen.  `scan_longest` says that it finds the longest such
  word there is.

  Nothing here names a program.
-/
import Mathlib.Data.List.Infix
import Mathlib.Logic.Function.Basic

/-- The nodes of a heap: the edges that leave a node, and the value it holds. -/
structure Trie (P α ν : Type) where
  child : P → α → Option P
  value : P → Option ν

namespace Trie

variable {P α ν : Type} (h : Trie P α ν)

/-- The node a word leads to. -/
def walk : P → List α → Option P
  | p, [] => some p
  | p, a :: w => (h.child p a).bind fun q => walk q w

/-- What is stored under a word. -/
def stored (root : P) (w : List α) : Option ν := (h.walk root w).bind h.value

/-- No node is found by two words. -/
def Tree (root : P) : Prop := ∀ u w p, h.walk root u = some p → h.walk root w = some p → u = w

/-- The node `q`, empty, is hung below `p`. -/
def hang [DecidableEq P] [DecidableEq α] (p : P) (a : α) (q : P) : Trie P α ν where
  child := fun p' b => if p' = p ∧ b = a then some q else if p' = q then none else h.child p' b
  value := fun p' => if p' = q then none else h.value p'

/-- A value is set at the node `p`. -/
def setValue [DecidableEq P] (p : P) (v : ν) : Trie P α ν where
  child := h.child
  value := Function.update h.value p (some v)

/-! ## Walking down

  The lemmas of the two changes.  Hanging a node somewhere else than in a tree could give many
  words a node at once; in a tree the node above it has one word, and so has the new one. -/

theorem walk_append (p : P) (u w : List α) :
    h.walk p (u ++ w) = (h.walk p u).bind fun q => h.walk q w := by
  induction u generalizing p with
  | nil => rfl
  | cons a u ih =>
    rw [List.cons_append, walk, walk]
    cases h.child p a with
    | none => rfl
    | some q => exact ih q

/-- One letter more. -/
theorem walk_snoc (p : P) (w : List α) (a : α) :
    h.walk p (w ++ [a]) = (h.walk p w).bind fun q => h.child q a := by
  rw [walk_append]
  cases h.walk p w with
  | none => rfl
  | some q => exact Option.bind_fun_some _

/-- What starts a word that has a node has a node. -/
theorem walk_of_prefix {h : Trie P α ν} {p : P} {u w : List α} (huw : u <+: w)
    (hw : h.walk p w ≠ none) : h.walk p u ≠ none := by
  obtain ⟨rest, rfl⟩ := huw
  intro hu
  apply hw
  rw [walk_append, hu]
  rfl

@[simp] theorem walk_setValue [DecidableEq P] (p r : P) (v : ν) (u : List α) :
    (h.setValue p v).walk r u = h.walk r u := by
  induction u generalizing r with
  | nil => rfl
  | cons b u ih =>
    show (h.child r b).bind _ = (h.child r b).bind _
    congr 1
    funext r'
    exact ih r'

theorem Tree.setValue [DecidableEq P] {h : Trie P α ν} {root : P} (htree : h.Tree root) (p : P)
    (v : ν) : (h.setValue p v).Tree root := by
  intro u u' r hu hu'
  rw [walk_setValue] at hu hu'
  exact htree u u' r hu hu'

section Changes

variable [DecidableEq P] [DecidableEq α] {h} {root p q : P} {w : List α} {a : α}

/-- **A fresh node below the node of `w`** is the node of one more word. -/
theorem walk_hang (htree : h.Tree root) (hp : h.walk root w = some p) (ha : h.child p a = none)
    (hq : ∀ u, h.walk root u ≠ some q) (u : List α) :
    (h.hang p a q).walk root u = if u = w ++ [a] then some q else h.walk root u := by
  have hnew : h.walk root (w ++ [a]) = none := by
    rw [walk_snoc, hp]
    exact ha
  have hpq : p ≠ q := fun heq => hq w (heq ▸ hp)
  induction u using List.reverseRecOn with
  | nil =>
    rw [if_neg (by simp)]
    rfl
  | append_singleton u b ih =>
    rw [walk_snoc, ih]
    by_cases hu : u = w ++ [a]
    · -- nothing hangs below the new node
      rw [if_pos hu, if_neg (fun heq => by simp [hu] at heq), hu, walk_snoc, hnew]
      show (if q = p ∧ b = a then some q else if q = q then none else h.child q b) = none
      rw [if_neg (fun heq => hpq heq.1.symm), if_pos rfl]
    · rw [if_neg hu, walk_snoc]
      cases hold : h.walk root u with
      | none =>
        rw [if_neg (fun heq => by
          have heq' := (List.append_inj' heq rfl).1
          rw [heq', hp] at hold
          cases hold)]
        rfl
      | some r =>
        show (if r = p ∧ b = a then some q else if r = q then none else h.child r b) = _
        have hrq : r ≠ q := fun heq => hq u (heq ▸ hold)
        by_cases hrp : r = p
        · -- the walk passes the node the new one hangs below
          have huw : u = w := htree u w p (hrp ▸ hold) hp
          subst huw hrp
          by_cases hb : b = a
          · rw [if_pos ⟨rfl, hb⟩, if_pos (by rw [hb])]
          · rw [if_neg (fun heq => hb heq.2), if_neg hrq,
              if_neg (fun heq => hb (by simpa using heq))]
            rfl
        · rw [if_neg (fun heq => hrp heq.1), if_neg hrq, if_neg (fun heq => by
            have heq' := (List.append_inj' heq rfl).1
            rw [heq', hp] at hold
            exact hrp (Option.some.inj hold).symm)]
          rfl

theorem Tree.hang (htree : h.Tree root) (hp : h.walk root w = some p) (ha : h.child p a = none)
    (hq : ∀ u, h.walk root u ≠ some q) : (h.hang p a q).Tree root := by
  intro u u' r hu hu'
  rw [walk_hang htree hp ha hq] at hu hu'
  split at hu
  · next huw =>
    split at hu'
    · next huw' => exact huw.trans huw'.symm
    · rw [← hu] at hu'
      exact absurd hu' (hq u')
  · split at hu'
    · rw [← hu'] at hu
      exact absurd hu (hq u)
    · exact htree u u' r hu hu'

/-- The new node holds nothing. -/
theorem stored_hang (htree : h.Tree root) (hp : h.walk root w = some p) (ha : h.child p a = none)
    (hq : ∀ u, h.walk root u ≠ some q) : (h.hang p a q).stored root = h.stored root := by
  funext u
  rw [stored, walk_hang htree hp ha hq, stored]
  by_cases hu : u = w ++ [a]
  · rw [if_pos hu, hu, walk_snoc, hp]
    show (if q = q then none else h.value q) = ((h.child p a).bind h.value)
    rw [if_pos rfl, ha]
    rfl
  · rw [if_neg hu]
    cases hr : h.walk root u with
    | none => rfl
    | some r => exact if_neg fun heq : r = q => hq u (heq ▸ hr)

/-- **A value set at the node of `w`** is stored under `w` and under no other word. -/
theorem stored_setValue (htree : h.Tree root) (hp : h.walk root w = some p) (v : ν) :
    (h.setValue p v).stored root = Function.update (h.stored root) w (some v) := by
  funext u
  rw [stored, walk_setValue]
  by_cases hu : u = w
  · rw [hu, hp, Function.update_self]
    exact Function.update_self ..
  · rw [Function.update_of_ne hu, stored]
    cases hr : h.walk root u with
    | none => rfl
    | some r =>
      have hrp : r ≠ p := fun heq => hu (htree u w p (heq ▸ hr) hp)
      exact Function.update_of_ne hrp _ _

end Changes

/-! ## The longest prefix

  The scan is at the node of a prefix and has the value of the longest one so far that has any.
  When it cannot go on, no longer prefix has a node. -/

/-- Down from the node `p`, `n` letters below the root, along the word; `best` is the last value
    seen, with the length of its word. -/
def scan : P → List α → Nat → ν × Nat → ν × Nat
  | _, [], _, best => best
  | p, a :: w, n, best =>
    match h.child p a with
    | none => best
    | some q =>
      match h.value q with
      | none => scan q w (n + 1) best
      | some v => scan q w (n + 1) (v, n + 1)

/-- A length the scan reports is one it was given or that of a letter it passed. -/
theorem scan_pos (w : List α) (p : P) (n : Nat) (best : ν × Nat) (hbest : 0 < best.2) :
    0 < (h.scan p w n best).2 := by
  induction w generalizing p n best with
  | nil => exact hbest
  | cons a w ih =>
    rw [scan]
    cases h.child p a with
    | none => exact hbest
    | some q =>
      dsimp only
      cases h.value q with
      | none => exact ih q (n + 1) best hbest
      | some v => exact ih q (n + 1) (v, n + 1) (Nat.succ_pos n)

/-- `w` is the longest word stored that starts `q`, and `v` its value. -/
structure IsLongest (stored : List α → Option ν) (q w : List α) (v : ν) : Prop where
  starts : w <+: q
  value : stored w = some v
  longest : ∀ u, u <+: q → stored u ≠ none → u.length ≤ w.length

variable {h} {root : P}

theorem stored_ne_none {u : List α} (hu : h.stored root u ≠ none) : h.walk root u ≠ none := by
  intro hnone
  apply hu
  rw [stored, hnone]
  rfl

/-- From a node on: the scan keeps what it has if no longer word is stored, and else finds the
    longest. -/
theorem scan_spec (rest pre : List α) {p : P} (hp : h.walk root pre = some p) (best : ν × Nat) :
    (h.scan p rest pre.length best = best ∧
      ∀ u, u <+: pre ++ rest → pre.length < u.length → h.stored root u = none) ∨
    ∃ w v, pre.length < w.length ∧ IsLongest (h.stored root) (pre ++ rest) w v ∧
      h.scan p rest pre.length best = (v, w.length) := by
  induction rest generalizing pre p best with
  | nil =>
    refine .inl ⟨rfl, fun u hu hlt => ?_⟩
    have := hu.length_le
    rw [List.append_nil] at this
    omega
  | cons a rest ih =>
    have hsplit : pre ++ a :: rest = (pre ++ [a]) ++ rest := by rw [List.append_assoc]; rfl
    have hlen : (pre ++ [a]).length = pre.length + 1 := List.length_append
    -- a longer prefix starts with this letter
    have hlonger : ∀ u, u <+: pre ++ a :: rest → pre.length < u.length → pre ++ [a] <+: u := by
      intro u hu hlt
      apply List.prefix_of_prefix_length_le _ hu (by omega)
      rw [hsplit]
      exact List.prefix_append _ _
    rw [scan]
    cases hchild : h.child p a with
    | none =>
      refine .inl ⟨rfl, fun u hu hlt => ?_⟩
      by_contra hne
      have hstart := walk_of_prefix (hlonger u hu hlt) (stored_ne_none hne)
      rw [walk_snoc, hp] at hstart
      exact hstart hchild
    | some q =>
      have hq : h.walk root (pre ++ [a]) = some q := by
        rw [walk_snoc, hp]
        exact hchild
      have hstored : h.stored root (pre ++ [a]) = h.value q := by
        rw [stored, hq]
        rfl
      -- longer than `pre`: the next prefix, or longer than that
      have hnext : ∀ u, u <+: pre ++ a :: rest → pre.length < u.length →
          u = pre ++ [a] ∨ (pre ++ [a]).length < u.length := by
        intro u hu hlt
        rcases Nat.lt_or_ge (pre ++ [a]).length u.length with h1 | h1
        · exact .inr h1
        · exact .inl ((hlonger u hu hlt).eq_of_length_le h1).symm
      dsimp only
      cases hv : h.value q with
      | none =>
        have hscan := ih (pre ++ [a]) hq best
        rw [← hsplit, hlen] at hscan
        rcases hscan with ⟨heq, hnone⟩ | ⟨w, v, hlt, hlong, heq⟩
        · refine .inl ⟨heq, fun u hu hlt => ?_⟩
          rcases hnext u hu hlt with rfl | hgt
          · rw [hstored, hv]
          · exact hnone u hu (by omega)
        · exact .inr ⟨w, v, by omega, hlong, heq⟩
      | some v =>
        have hscan := ih (pre ++ [a]) hq (v, pre.length + 1)
        rw [← hsplit, hlen] at hscan
        rcases hscan with ⟨heq, hnone⟩ | ⟨w, v', hlt, hlong, heq⟩
        · refine .inr ⟨pre ++ [a], v, by omega, ⟨?_, by rw [hstored, hv], fun u hu hne => ?_⟩, ?_⟩
          · rw [hsplit]
            exact List.prefix_append _ _
          · apply Nat.le_of_not_lt
            intro hgt
            exact hne (hnone u hu (by omega))
          · rw [hlen]
            exact heq
        · exact .inr ⟨w, v', by omega, hlong, heq⟩

/-- **The scan finds the longest word stored that starts the given one**, or keeps what it was
    given. -/
theorem scan_longest (q : List α) (best : ν × Nat) (hroot : h.value root = none) :
    (h.scan root q 0 best = best ∧ ∀ u, u <+: q → h.stored root u = none) ∨
    ∃ w v, IsLongest (h.stored root) q w v ∧ h.scan root q 0 best = (v, w.length) := by
  rcases @scan_spec _ _ _ h root q [] root rfl best with ⟨heq, hnone⟩ | ⟨w, v, -, hlong, heq⟩
  · refine .inl ⟨heq, fun u hu => ?_⟩
    rcases List.eq_nil_or_concat u with rfl | ⟨u', b, rfl⟩
    · exact hroot
    · exact hnone _ hu (by simp)
  · exact .inr ⟨w, v, hlong, heq⟩

end Trie
