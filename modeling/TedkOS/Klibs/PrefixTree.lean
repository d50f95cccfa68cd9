/-
  The prefix tree of inc/klibs/prefix_tree.h, with its nodes from the pool of
  inc/klibs/fixedmemorypool.h.

  1. **Index.**  A node has 256 children, and the code indexes them with a `char`, which is SIGNED:
     a byte from 128 on is a negative index, out of the array (`childIndex`).
  2. **Invariant.**  The nodes in use are a trie (`Lib.Trie`) whose words are the prefixes of the
     keys inserted; the pool hands out its nodes from the top, so the next one is below all nodes in
     use (`Built`).
  3. **Insertion** hangs a node below the last one found for each letter that has none, and sets the
     value at the end (`insert_built`).
  4. **Search** is the trie's `scan`, as long as every byte it looks up is an index
     (`searchLoop_exactly`).

  So a search is right exactly if no byte from 128 on is looked up, by it or by an insertion
  (`searchesRight_iff`).

  `Built` is kept by an insertion because the next node of the pool is not in use, so hanging it
  somewhere gives one word a node and changes what no other word leads to.  There is always such a
  node: the words with nodes are prefixes of keys, and all of these together are at most 100.
-/
import TedkOS.Klibs.Lib
import TedkOS.Lib.Checked
import TedkOS.Lib.Trie
import TedkOS.Lib.Updates
import Mathlib.Data.List.Dedup
import Mathlib.Data.List.Perm.Subperm

namespace TedkOS.Klibs

open Checked

/-- `MemoryPool`; a pointer into `memory` is its index there. -/
structure MemoryPool (T : Type) where
  unusedIndex : Int
  memory : Nat → T
  unusedMemory : Nat → Nat

namespace MemoryPool

/-- The constructor, for `capacity` elements. -/
def init {T : Type} (capacity : Nat) (fresh : T) : MemoryPool T where
  unusedIndex := capacity - 1
  memory _ := fresh
  unusedMemory i := i

/-- `get()`; `none` is the null pointer. -/
def get {T : Type} (pool : MemoryPool T) : Option (Nat × MemoryPool T) :=
  if pool.unusedIndex < 0 then none
  else some (pool.unusedMemory pool.unusedIndex.toNat,
    { pool with unusedIndex := pool.unusedIndex - 1 })

end MemoryPool

/-- `PrefixTreeNode`; a null child is `none`. -/
structure PrefixTreeNode (T : Type) where
  value : T
  children : Nat → Option Nat
  hasValue : Bool

/-- What an access can go wrong with. -/
inductive TreeFault where
  /-- `children[index]` lies outside the array. -/
  | children (index : Int)
  /-- A node is built at the null pointer. -/
  | poolEmpty
deriving DecidableEq

/-- `ValAndLength`. -/
structure ValAndLength (T : Type) where
  val : T
  len : Nat
deriving DecidableEq

/-- `PrefixTree`. -/
structure PrefixTree (T : Type) where
  count : BitVec 32
  root : Nat
  pool : MemoryPool (PrefixTreeNode T)

/-- `index = key[level]`, and the access with it. -/
def childIndex (c : BitVec 8) : Except TreeFault Nat := do
  check (0 ≤ c.toInt) (.children c.toInt)
  return c.toInt.toNat

section Node

variable {T : Type} [Inhabited T]

/-- `PrefixTreeNode<T>()`. -/
def PrefixTreeNode.fresh : PrefixTreeNode T := ⟨default, fun _ => none, false⟩

/-- `new (pool) PrefixTreeNode<T>()`. -/
def newNode (pool : MemoryPool (PrefixTreeNode T)) :
    Except TreeFault (Nat × MemoryPool (PrefixTreeNode T)) :=
  match pool.get with
  | none => .error .poolEmpty
  | some (p, pool) => .ok (p, { pool with memory := Function.update pool.memory p .fresh })

/-- `pCrawl->children[index] = q`. -/
def setChild (pool : MemoryPool (PrefixTreeNode T)) (pCrawl index q : Nat) :
    MemoryPool (PrefixTreeNode T) :=
  let node := pool.memory pCrawl
  let node := { node with children := Function.update node.children index (some q) }
  { pool with memory := Function.update pool.memory pCrawl node }

/-- `pCrawl->hasValue = true; pCrawl->value = val`. -/
def setNodeValue (pool : MemoryPool (PrefixTreeNode T)) (pCrawl : Nat) (val : T) :
    MemoryPool (PrefixTreeNode T) :=
  let node := { pool.memory pCrawl with hasValue := true, value := val }
  { pool with memory := Function.update pool.memory pCrawl node }

/-- The loop of `insert`, with the number of levels left: where it ends. -/
def insertLoop (key : Nat → BitVec 8) : Nat → Nat → Nat → MemoryPool (PrefixTreeNode T) →
    Except TreeFault (Nat × MemoryPool (PrefixTreeNode T))
  | 0, _, pCrawl, pool => return (pCrawl, pool)
  | n + 1, level, pCrawl, pool => do
    let index ← childIndex (key level)
    match (pool.memory pCrawl).children index with
    | some q => insertLoop key n (level + 1) q pool
    | none =>
      let (q, pool) ← newNode pool
      insertLoop key n (level + 1) q (setChild pool pCrawl index q)

/-- The loop of `search`, with the number of levels left: `lastVal` and `lastLevel` at its end. -/
def searchLoop (memory : Nat → PrefixTreeNode T) (key : Nat → BitVec 8) :
    Nat → Nat → Nat → T → Nat → Except TreeFault (T × Nat)
  | 0, _, _, lastVal, lastLevel => return (lastVal, lastLevel)
  | n + 1, level, pCrawl, lastVal, lastLevel => do
    let index ← childIndex (key level)
    match (memory pCrawl).children index with
    | none => return (lastVal, lastLevel)
    | some q =>
      if (memory q).hasValue then searchLoop memory key n (level + 1) q (memory q).value level
      else searchLoop memory key n (level + 1) q lastVal lastLevel

namespace PrefixTree

/-- The constructor. -/
def construct : Except TreeFault (PrefixTree T) := do
  let (root, pool) ← newNode (MemoryPool.init 100 .fresh)
  return ⟨0, root, pool⟩

/-- `insert(key, val)`; `length` is an `int`. -/
def insert (t : PrefixTree T) (key : Nat → BitVec 8) (val : T) : Except TreeFault (PrefixTree T) :=
  do
  let length := (BitVec.ofNat 32 (strlen key)).toInt
  let (pCrawl, pool) ← insertLoop key length.toNat 0 t.root t.pool
  return ⟨t.count + 1, t.root, setNodeValue pool pCrawl val⟩

/-- `search(key)`. -/
def search (t : PrefixTree T) (key : Nat → BitVec 8) : Except TreeFault (ValAndLength T) := do
  let (lastVal, lastLevel) ← searchLoop t.pool.memory key (strlen key) 0 t.root default 0
  return ⟨lastVal, lastLevel + 1⟩

/-- Insertions one after the other. -/
def insertAll (t : PrefixTree T) : List ((Nat → BitVec 8) × T) → Except TreeFault (PrefixTree T)
  | [] => return t
  | kv :: kvs => do
    let t ← t.insert kv.1 kv.2
    insertAll t kvs

/-- A new tree with these keys. -/
def build (kvs : List ((Nat → BitVec 8) × T)) : Except TreeFault (PrefixTree T) := do
  let t ← construct
  t.insertAll kvs

end PrefixTree

end Node

/-! ## What a search ought to find

  A node is a word: the letters on the way to it.  So the specification is about words only.  The
  answer is the value of the longest prefix of the query that is a key, with its length; of keys
  inserted twice the later value counts. -/

section Spec

variable {T : Type}

/-- The value a key was last inserted with. -/
def lastInserted (kvs : List ((Nat → BitVec 8) × T)) : List (BitVec 8) → Option T :=
  Updates.lastValue string kvs

/-- The words that have nodes: the root's, and the prefixes of the keys. -/
def treeWords (kvs : List ((Nat → BitVec 8) × T)) : List (List (BitVec 8)) :=
  [] :: kvs.flatMap fun kv => (string kv.1).inits

/-- The number of nodes. -/
def treeNodes (kvs : List ((Nat → BitVec 8) × T)) : Nat := (treeWords kvs).dedup.length

/-- The longest key that is a prefix of `q`, with its value and length; or the default value. -/
def FindsLongest [Inhabited T] (kvs : List ((Nat → BitVec 8) × T)) (q : Nat → BitVec 8)
    (r : ValAndLength T) : Prop :=
  (∃ w v, Trie.IsLongest (lastInserted kvs) (string q) w v ∧ r = ⟨v, w.length⟩) ∨
    (∀ kv ∈ kvs, ¬ string kv.1 <+: string q) ∧ r.val = default

/-- The keys go in, and the search gets through and finds the longest. -/
def SearchesRight [Inhabited T] (kvs : List ((Nat → BitVec 8) × T)) (q : Nat → BitVec 8) : Prop :=
  ∃ t r, PrefixTree.build kvs = .ok t ∧ t.search q = .ok r ∧ FindsLongest kvs q r

/-- `q` is followed from the root as far as it goes on like a key, and every byte looked up is below
    128. -/
def LooksUpLow (kvs : List ((Nat → BitVec 8) × T)) (q : Nat → BitVec 8) : Prop :=
  ∀ i, i < strlen q → bytesFrom q 0 i ∈ treeWords kvs → (q i).toNat < 128

end Spec

/-! ## Indices -/

/-- The access is inside the array exactly if the byte is below 128. -/
theorem childIndex_exactly (c : BitVec 8) : Exactly (childIndex c) (c.toNat < 128) c.toNat := by
  have hint : c.toInt = if 2 * c.toNat < 2 ^ 8 then (c.toNat : Int)
      else (c.toNat : Int) - (2 ^ 8 : Nat) :=
    BitVec.toInt_eq_toNat_cond c
  have hlt := c.isLt
  have hiff : 0 ≤ c.toInt ↔ c.toNat < 128 := by
    rw [hint]
    split <;> omega
  have hcheck : Exactly (childIndex c) (0 ≤ c.toInt) c.toInt.toNat :=
    (Exactly.check (TreeFault.children c.toInt)).bind_ok rfl
  have hindex : c.toNat < 128 → c.toInt.toNat = c.toNat := by
    intro hlow
    rw [hint]
    split <;> omega
  constructor
  · intro hlow
    exact (hcheck.succeeds (hiff.mpr hlow)).trans (congrArg Except.ok (hindex hlow))
  · intro hhigh
    exact (hcheck.congr hiff).fails hhigh

/-! ## The trie of the nodes

  The pool is a graph of nodes by their index, and `trieOf` reads it as a trie.  Hanging a node
  that is not in use gives one word a node (`trieOf_hang`), and setting a value changes what is
  stored for one word. -/

/-- The value of a node that has one. -/
def PrefixTreeNode.stored {T : Type} (node : PrefixTreeNode T) : Option T :=
  if node.hasValue then some node.value else none

/-- The nodes, as a trie whose letters are bytes. -/
def trieOf {T : Type} (memory : Nat → PrefixTreeNode T) : Trie Nat (BitVec 8) T where
  child p c := (memory p).children c.toNat
  value p := (memory p).stored

/-- Storing a value at a node is storing it there in the trie. -/
theorem trieOf_setValue {T : Type} (pool : MemoryPool (PrefixTreeNode T)) (p : Nat) (val : T) :
    trieOf (setNodeValue pool p val).memory = (trieOf pool.memory).setValue p val := by
  unfold trieOf Trie.setValue setNodeValue
  congr 1
  · funext p' b
    dsimp only
    by_cases hp' : p' = p
    · rw [hp', Function.update_self]
    · rw [Function.update_of_ne hp']
  · funext p'
    dsimp only
    by_cases hp' : p' = p
    · rw [hp', Function.update_self, Function.update_self]
      rfl
    · rw [Function.update_of_ne hp', Function.update_of_ne hp']

/-- A word whose prefixes are all among 100 words is shorter than that. -/
theorem length_lt_of_prefixes (total : List (List (BitVec 8))) {l : List (BitVec 8)}
    (hin : ∀ u, u <+: l → u ∈ total) (hroom : total.dedup.length ≤ 100) : l.length < 100 := by
  have hlengths : l.inits.map List.length = List.range (l.length + 1) := by
    apply List.ext_getElem
    · rw [List.length_map, List.length_inits, List.length_range]
    · intro i hi hi'
      rw [List.length_range] at hi'
      rw [List.getElem_map, List.getElem_inits, List.length_take, List.getElem_range]
      omega
  have hnodup : l.inits.Nodup := by
    apply List.Nodup.of_map List.length
    rw [hlengths]
    exact List.nodup_range
  have hsubset : l.inits ⊆ total.dedup :=
    fun u hu => List.mem_dedup.mpr (hin u ((List.mem_inits u l).mp hu))
  have hle := (List.subperm_of_subset hnodup hsubset).length_le
  rw [List.length_inits] at hle
  omega

/-- A key has a node for each of its prefixes, so with 100 nodes for all of them it has fewer
    than 100 letters. -/
theorem strlen_lt_of_treeNodes {T : Type} {kvs : List ((Nat → BitVec 8) × T)}
    (hroom : treeNodes kvs ≤ 100) {kv : (Nat → BitVec 8) × T} (hkv : kv ∈ kvs) :
    strlen kv.1 < 100 := by
  rw [← length_string]
  apply length_lt_of_prefixes (treeWords kvs) _ hroom
  intro u hu
  exact List.mem_cons_of_mem _ (List.mem_flatMap.mpr ⟨kv, hkv, (List.mem_inits _ _).mpr hu⟩)

section Steps

variable {T : Type} [Inhabited T]

/-- A new node that is linked at once. -/
theorem trieOf_hang (pool : MemoryPool (PrefixTreeNode T)) {p q : Nat} (hpq : p ≠ q)
    (c : BitVec 8) :
    trieOf (setChild { pool with memory := Function.update pool.memory q .fresh } p c.toNat
      q).memory =
      (trieOf pool.memory).hang p c q := by
  have hp : Function.update pool.memory q PrefixTreeNode.fresh p = pool.memory p :=
    Function.update_of_ne hpq _ _
  unfold trieOf Trie.hang setChild
  congr 1
  · funext p' b
    dsimp only
    by_cases hp' : p' = p
    · subst hp'
      rw [Function.update_self, hp]
      by_cases hb : b = c
      · rw [hb, if_pos ⟨rfl, rfl⟩]
        exact Function.update_self ..
      · rw [if_neg (fun heq => hb heq.2), if_neg hpq]
        exact Function.update_of_ne (fun heq => hb (BitVec.eq_of_toNat_eq heq)) _ _
    · rw [Function.update_of_ne hp', if_neg (fun heq => hp' heq.1)]
      by_cases hq : p' = q
      · rw [hq, Function.update_self, if_pos rfl]
        rfl
      · rw [Function.update_of_ne hq, if_neg hq]
  · funext p'
    dsimp only
    by_cases hp' : p' = p
    · subst hp'
      rw [Function.update_self, hp, if_neg hpq]
      rfl
    · rw [Function.update_of_ne hp']
      by_cases hq : p' = q
      · rw [hq, Function.update_self, if_pos rfl]
        rfl
      · rw [Function.update_of_ne hq, if_neg hq]

/-! ## Insertion

  The loop goes one letter down in each round, below a node that is there or below a new one.  By
  induction on the letters left, with `Built` for the words that have nodes by then
  (`insertLoop_built`); if one of the letters is no index, the loop stops there
  (`insertLoop_fails`). -/

/-- What holds of a tree between insertions: `words` have nodes, and `m` is what is stored under
    them. -/
structure Built (root : Nat) (words : List (List (BitVec 8))) (m : List (BitVec 8) → Option T)
    (pool : MemoryPool (PrefixTreeNode T)) : Prop where
  /-- Every node in use is reached by one word only. -/
  tree : (trieOf pool.memory).Tree root
  /-- The words that lead somewhere are these, -/
  nodes : ∀ w, (trieOf pool.memory).walk root w ≠ none ↔ w ∈ words
  /-- each counted once. -/
  nodup : words.Nodup
  /-- What is stored at the end of a word. -/
  stored : (trieOf pool.memory).stored root = m
  /-- The pool hands its nodes out in the order of their indices, from the last one down, -/
  unusedMemory : ∀ i, pool.unusedMemory i = i
  /-- and has handed out one for each word. -/
  unusedIndex : pool.unusedIndex = 99 - words.length
  /-- The nodes handed out lie above the next one. -/
  inUse : ∀ w p, (trieOf pool.memory).walk root w = some p → pool.unusedIndex < p

variable {root : Nat} {words total : List (List (BitVec 8))} {m : List (BitVec 8) → Option T}
  {pool : MemoryPool (PrefixTreeNode T)}

/-- Words of the whole tree: there is room for another. -/
theorem length_lt_of_subset (hnodup : words.Nodup) {w : List (BitVec 8)} (hw : w ∉ words)
    (hsub : ∀ u ∈ words, u ∈ total) (hin : w ∈ total) : words.length < total.dedup.length := by
  have hcons : (w :: words).Nodup := List.nodup_cons.mpr ⟨hw, hnodup⟩
  have hsubset : w :: words ⊆ total.dedup := by
    intro u hu
    apply List.mem_dedup.mpr
    rcases List.mem_cons.mp hu with rfl | hu
    · exact hin
    · exact hsub u hu
  exact (List.subperm_of_subset hcons hsubset).length_le

/-- **One level without a child.**  A node comes from the pool and hangs below the last one. -/
theorem Built.grow (hb : Built root words m pool) (hroom : words.length < 100)
    {pre : List (BitVec 8)} {p : Nat} (hp : (trieOf pool.memory).walk root pre = some p)
    {c : BitVec 8} (hc : (pool.memory p).children c.toNat = none) :
    ∃ q pool', newNode pool = .ok (q, pool') ∧
      Built root ((pre ++ [c]) :: words) m (setChild pool' p c.toNat q) ∧
      (trieOf (setChild pool' p c.toNat q).memory).walk root (pre ++ [c]) = some q := by
  have hindex := hb.unusedIndex
  have hget : pool.get =
      some (pool.unusedIndex.toNat, { pool with unusedIndex := pool.unusedIndex - 1 }) := by
    rw [MemoryPool.get, if_neg (by omega), hb.unusedMemory]
  -- the next node of the pool is not in use
  have hfresh : ∀ u, (trieOf pool.memory).walk root u ≠ some pool.unusedIndex.toNat := by
    intro u hu
    have := hb.inUse u _ hu
    omega
  have hpq : p ≠ pool.unusedIndex.toNat := fun heq => hfresh pre (heq ▸ hp)
  have hwalk := Trie.walk_hang hb.tree hp hc hfresh
  have htrie := trieOf_hang { pool with unusedIndex := pool.unusedIndex - 1 } hpq c
  refine ⟨pool.unusedIndex.toNat, _, by rw [newNode, hget], ?_, ?_⟩
  · constructor
    case tree =>
      rw [htrie]
      exact hb.tree.hang hp hc hfresh
    case nodes =>
      intro w
      rw [htrie, hwalk, List.mem_cons, ← hb.nodes w]
      by_cases hw : w = pre ++ [c]
      · rw [if_pos hw]
        exact ⟨fun _ => .inl hw, fun _ => Option.some_ne_none _⟩
      · rw [if_neg hw]
        exact ⟨.inr, fun h => h.resolve_left hw⟩
    case nodup =>
      apply List.nodup_cons.mpr ⟨fun hin => ?_, hb.nodup⟩
      apply (hb.nodes _).mpr hin
      rw [Trie.walk_snoc, hp]
      exact hc
    case stored =>
      rw [htrie, ← hb.stored]
      exact Trie.stored_hang hb.tree hp hc hfresh
    case unusedMemory => exact hb.unusedMemory
    case unusedIndex =>
      show pool.unusedIndex - 1 = 99 - ((words.length + 1 : Nat) : Int)
      omega
    case inUse =>
      intro w r hr
      rw [htrie, hwalk] at hr
      show pool.unusedIndex - 1 < (r : Int)
      split at hr
      · have hrq := Option.some.inj hr
        omega
      · have := hb.inUse w r hr
        omega
  · rw [htrie, hwalk, if_pos rfl]

/-- **The loop.**  From the node of `pre` on it ends at the node of `pre` with the rest of the
    key. -/
theorem insertLoop_built (key : Nat → BitVec 8) (n level : Nat) (hb : Built root words m pool)
    {pre : List (BitVec 8)} {p : Nat} (hp : (trieOf pool.memory).walk root pre = some p)
    (hlow : ∀ c ∈ bytesFrom key level n, c.toNat < 128)
    (hsub : ∀ u ∈ words, u ∈ total) (hin : ∀ u, u <+: pre ++ bytesFrom key level n → u ∈ total)
    (hroom : total.dedup.length ≤ 100) :
    ∃ p' pool' words', insertLoop key n level p pool = .ok (p', pool') ∧ Built root words' m pool' ∧
      (trieOf pool'.memory).walk root (pre ++ bytesFrom key level n) = some p' ∧
      ∀ w, w ∈ words' ↔ w ∈ words ∨ w <+: pre ++ bytesFrom key level n := by
  induction n generalizing level p pre pool words with
  | zero =>
    refine ⟨p, pool, words, rfl, hb, ?_, fun w => ⟨.inl, fun hw => ?_⟩⟩
    · rw [show bytesFrom key level 0 = [] from rfl, List.append_nil]
      exact hp
    · rcases hw with hw | hw
      · exact hw
      · rw [show bytesFrom key level 0 = [] from rfl, List.append_nil] at hw
        apply (hb.nodes w).mp
        apply Trie.walk_of_prefix hw
        rw [hp]
        exact Option.some_ne_none p
  | succ n ih =>
    rw [bytesFrom_succ] at hlow hin ⊢
    have hsplit : pre ++ key level :: bytesFrom key (level + 1) n =
        (pre ++ [key level]) ++ bytesFrom key (level + 1) n := by
      rw [List.append_assoc]
      rfl
    have hrest : ∀ c ∈ bytesFrom key (level + 1) n, c.toNat < 128 :=
      fun c hc => hlow c (List.mem_cons_of_mem _ hc)
    rw [insertLoop, (childIndex_exactly (key level)).succeeds (hlow _ List.mem_cons_self), ok_bind]
    rw [hsplit] at hin ⊢
    dsimp only
    cases hchild : (pool.memory p).children (key level).toNat with
    | some q =>
      -- there is a node for this letter: nothing is changed
      have hq : (trieOf pool.memory).walk root (pre ++ [key level]) = some q := by
        rw [Trie.walk_snoc, hp]
        exact hchild
      exact ih (level + 1) hb hq hrest hsub hin
    | none =>
      -- there is none: the pool has one to hang, because the words with nodes are some of
      -- `total`, and this word is not among them yet
      have hnext : pre ++ [key level] ∈ total := hin _ (List.prefix_append _ _)
      have hnew : pre ++ [key level] ∉ words := by
        intro hmem
        apply (hb.nodes _).mpr hmem
        rw [Trie.walk_snoc, hp]
        exact hchild
      have hlt := length_lt_of_subset hb.nodup hnew hsub hnext
      obtain ⟨q, pool', hget, hb', hq⟩ := hb.grow (by omega) hp hchild
      rw [hget, ok_bind]
      obtain ⟨p', pool'', words', hloop, hbuilt, hwalk, hwords⟩ := ih (level + 1) hb' hq hrest
        (fun u hu => (List.mem_cons.mp hu).elim (fun heq => heq ▸ hnext) (hsub u)) hin
      refine ⟨p', pool'', words', hloop, hbuilt, hwalk, fun w => ?_⟩
      rw [hwords, List.mem_cons]
      constructor
      · rintro ((rfl | hw) | hw)
        · exact .inr (List.prefix_append _ _)
        · exact .inl hw
        · exact .inr hw
      · rintro (hw | hw)
        · exact .inl (.inr hw)
        · exact .inr hw

/-- A byte from 128 on stops the loop, wherever it stands. -/
theorem insertLoop_fails (key : Nat → BitVec 8) (n level p : Nat)
    (pool : MemoryPool (PrefixTreeNode T)) (hhigh : ∃ c ∈ bytesFrom key level n, ¬ c.toNat < 128) :
    ∃ e, insertLoop key n level p pool = .error e := by
  induction n generalizing level p pool with
  | zero =>
    obtain ⟨c, hc, -⟩ := hhigh
    exact absurd hc List.not_mem_nil
  | succ n ih =>
    obtain ⟨c, hc, hhigh⟩ := hhigh
    rw [bytesFrom_succ] at hc
    rw [insertLoop]
    by_cases hlevel : (key level).toNat < 128
    · have hrest : ∃ c ∈ bytesFrom key (level + 1) n, ¬ c.toNat < 128 := by
        rcases List.mem_cons.mp hc with rfl | hc
        · exact absurd hlevel hhigh
        · exact ⟨c, hc, hhigh⟩
      rw [(childIndex_exactly (key level)).succeeds hlevel, ok_bind]
      dsimp only
      cases (pool.memory p).children (key level).toNat with
      | some q => exact ih (level + 1) q pool hrest
      | none =>
        cases newNode pool with
        | error e => exact ⟨e, rfl⟩
        | ok r => exact ih (level + 1) r.1 _ hrest
    · obtain ⟨e, he⟩ := (childIndex_exactly (key level)).fails hlevel
      rw [he]
      exact ⟨e, rfl⟩

/-- A key that fits in the tree has as many levels as characters. -/
theorem length_toInt {n : Nat} (hn : n < 100) : (BitVec.ofNat 32 n).toInt.toNat = n := by
  rw [BitVec.toInt_eq_toNat_cond, BitVec.toNat_ofNat, Nat.mod_eq_of_lt (by omega),
    if_pos (by omega)]
  rfl

/-- The length of a short key is not changed by going through an `int`. -/
theorem PrefixTree.insert_eq (t : PrefixTree T) {key : Nat → BitVec 8} (val : T)
    (hlen : strlen key < 100) :
    t.insert key val = do
      let (pCrawl, pool) ← insertLoop key (strlen key) 0 t.root t.pool
      return ⟨t.count + 1, t.root, setNodeValue pool pCrawl val⟩ := by
  rw [PrefixTree.insert, length_toInt hlen]

/-- **Insertion.**  The prefixes of the key have nodes, and the value is stored under it. -/
theorem PrefixTree.insert_built {t : PrefixTree T} (hb : Built t.root words m t.pool)
    {key : Nat → BitVec 8} (hlow : ∀ c ∈ string key, c.toNat < 128) (hsub : ∀ u ∈ words, u ∈ total)
    (hin : ∀ u, u <+: string key → u ∈ total) (hroom : total.dedup.length ≤ 100) (val : T) :
    ∃ t' words', t.insert key val = .ok t' ∧ t'.root = t.root ∧
      Built t.root words' (Function.update m (string key) (some val)) t'.pool ∧
      ∀ w, w ∈ words' ↔ w ∈ words ∨ w <+: string key := by
  have hlen := length_lt_of_prefixes total hin hroom
  rw [length_string] at hlen
  obtain ⟨p, pool, words', hloop, hbuilt, hwalk, hwords⟩ :=
    @insertLoop_built _ _ t.root words total m t.pool key (strlen key) 0 hb
      [] _ rfl hlow hsub hin hroom
  have hp : (trieOf pool.memory).walk t.root (string key) = some p := hwalk
  rw [t.insert_eq val hlen, hloop]
  refine ⟨_, words', rfl, rfl, ?_, hwords⟩
  constructor
  case tree =>
    show (trieOf (setNodeValue pool p val).memory).Tree t.root
    rw [trieOf_setValue]
    exact hbuilt.tree.setValue p val
  case nodes =>
    intro w
    show (trieOf (setNodeValue pool p val).memory).walk t.root w ≠ none ↔ _
    rw [trieOf_setValue, Trie.walk_setValue]
    exact hbuilt.nodes w
  case nodup => exact hbuilt.nodup
  case stored =>
    show (trieOf (setNodeValue pool p val).memory).stored t.root = _
    rw [trieOf_setValue, ← hbuilt.stored]
    exact Trie.stored_setValue hbuilt.tree hp val
  case unusedMemory => exact hbuilt.unusedMemory
  case unusedIndex => exact hbuilt.unusedIndex
  case inUse =>
    intro w r hr
    have hr' : (trieOf (setNodeValue pool p val).memory).walk t.root w = some r := hr
    rw [trieOf_setValue, Trie.walk_setValue] at hr'
    exact hbuilt.inUse w r hr'

/-- A key with a byte from 128 on is looked up with a negative index. -/
theorem PrefixTree.insert_fails (t : PrefixTree T) {key : Nat → BitVec 8} (val : T)
    (hlen : strlen key < 100) (hhigh : ∃ c ∈ string key, ¬ c.toNat < 128) :
    ∃ e, t.insert key val = .error e := by
  obtain ⟨e, he⟩ := insertLoop_fails key (strlen key) 0 t.root t.pool hhigh
  rw [t.insert_eq val hlen, he]
  exact ⟨e, rfl⟩

/-- Insertions one after the other. -/
theorem PrefixTree.insertAll_built (kvs : List ((Nat → BitVec 8) × T))
    (total : List (List (BitVec 8))) {t : PrefixTree T}
    (hb : Built t.root words m t.pool) (hlow : ∀ kv ∈ kvs, ∀ c ∈ string kv.1, c.toNat < 128)
    (hsub : ∀ u ∈ words, u ∈ total) (hin : ∀ kv ∈ kvs, ∀ u, u <+: string kv.1 → u ∈ total)
    (hroom : total.dedup.length ≤ 100) :
    ∃ t' words', t.insertAll kvs = .ok t' ∧ t'.root = t.root ∧
      Built t.root words' (Updates.assign string m kvs) t'.pool ∧
      ∀ w, w ∈ words' ↔ w ∈ words ∨ ∃ kv ∈ kvs, w <+: string kv.1 := by
  induction kvs generalizing t words m with
  | nil =>
    refine ⟨t, words, rfl, rfl, hb, fun w => ⟨.inl, fun h => h.resolve_right ?_⟩⟩
    rintro ⟨kv, hkv, -⟩
    exact absurd hkv List.not_mem_nil
  | cons kv kvs ih =>
    obtain ⟨t', words', hinsert, hroot, hb', hwords'⟩ := PrefixTree.insert_built hb
      (hlow kv List.mem_cons_self) hsub (hin kv List.mem_cons_self) hroom kv.2
    rw [← hroot] at hb'
    obtain ⟨t'', words'', hall, hroot', hb'', hwords''⟩ := ih hb'
      (fun kv' h => hlow kv' (List.mem_cons_of_mem _ h))
      (fun u hu => ((hwords' u).mp hu).elim (hsub u) (hin kv List.mem_cons_self u))
      (fun kv' h => hin kv' (List.mem_cons_of_mem _ h))
    rw [hroot] at hb''
    refine ⟨t'', words'', ?_, hroot'.trans hroot, hb'', fun w => ?_⟩
    · rw [PrefixTree.insertAll, hinsert, ok_bind]
      exact hall
    · rw [hwords'', hwords', or_assoc]
      apply or_congr_right
      constructor
      · rintro (hw | ⟨kv', hkv', hw⟩)
        · exact ⟨kv, List.mem_cons_self, hw⟩
        · exact ⟨kv', List.mem_cons_of_mem _ hkv', hw⟩
      · rintro ⟨kv', hkv', hw⟩
        rcases List.mem_cons.mp hkv' with rfl | hkv'
        · exact .inl hw
        · exact .inr ⟨kv', hkv', hw⟩

/-- So does a list with such a key in it, since the insertions before it get through or fail
    themselves. -/
theorem PrefixTree.insertAll_fails (kvs : List ((Nat → BitVec 8) × T)) (t : PrefixTree T)
    (hlens : ∀ kv ∈ kvs, strlen kv.1 < 100)
    (hhigh : ∃ kv ∈ kvs, ∃ c ∈ string kv.1, ¬ c.toNat < 128) :
    ∃ e, t.insertAll kvs = .error e := by
  induction kvs generalizing t with
  | nil =>
    obtain ⟨kv, hkv, -⟩ := hhigh
    exact absurd hkv List.not_mem_nil
  | cons kv kvs ih =>
    rw [PrefixTree.insertAll]
    by_cases hkv : ∃ c ∈ string kv.1, ¬ c.toNat < 128
    · obtain ⟨e, he⟩ := t.insert_fails kv.2 (hlens kv List.mem_cons_self) hkv
      rw [he]
      exact ⟨e, rfl⟩
    · obtain ⟨kv', hkv', hhigh⟩ := hhigh
      cases t.insert kv.1 kv.2 with
      | error e => exact ⟨e, rfl⟩
      | ok t' =>
        apply ih t' fun kv h => hlens kv (List.mem_cons_of_mem _ h)
        rcases List.mem_cons.mp hkv' with rfl | hkv'
        · exact absurd hhigh hkv
        · exact ⟨kv', hkv', hhigh⟩

/-- A new tree has its root and nothing in it. -/
theorem PrefixTree.construct_built : ∃ t : PrefixTree T, construct = .ok t ∧
    Built t.root [[]] (fun _ => none) t.pool := by
  refine ⟨⟨0, 99, ⟨98, fun _ => .fresh, fun i => i⟩⟩, ?_, ?_⟩
  · show Except.ok
      (⟨0, 99, ⟨98, Function.update (fun _ => PrefixTreeNode.fresh) 99 .fresh, fun i => i⟩⟩ :
      PrefixTree T) = _
    rw [Function.update_eq_self]
  show Built 99 [[]] (fun _ => none) ⟨98, fun _ => .fresh, fun i => i⟩
  have hwalk : ∀ w, (trieOf (T := T) fun _ => PrefixTreeNode.fresh).walk 99 w =
      if w = [] then some 99 else none := by
    intro w
    cases w with
    | nil => rfl
    | cons c w => exact (if_neg (List.cons_ne_nil c w)).symm
  constructor
  case tree =>
    intro u w p hu hw
    rw [hwalk] at hu hw
    split at hu
    · next hnil =>
      split at hw
      · next hnil' => exact hnil.trans hnil'.symm
      · cases hw
    · cases hu
  case nodes =>
    intro w
    rw [hwalk, List.mem_singleton]
    split <;> simp_all
  case nodup => exact List.nodup_singleton []
  case stored =>
    funext w
    rw [Trie.stored, hwalk]
    split <;> rfl
  case unusedMemory => exact fun i => rfl
  case unusedIndex => rfl
  case inUse =>
    intro w p hp
    rw [hwalk] at hp
    split at hp
    · rw [← Option.some.inj hp]
      show (98 : Int) < 99
      decide
    · cases hp

/-- **Building a tree** succeeds exactly if all bytes of the keys are below 128. -/
theorem PrefixTree.build_built (kvs : List ((Nat → BitVec 8) × T)) (hroom : treeNodes kvs ≤ 100)
    (hlow : ∀ kv ∈ kvs, ∀ c ∈ string kv.1, c.toNat < 128) :
    ∃ t words, build kvs = .ok t ∧ Built t.root words (lastInserted kvs) t.pool ∧
      ∀ w, w ∈ words ↔ w ∈ treeWords kvs := by
  obtain ⟨t, hnew, hb⟩ := construct_built (T := T)
  obtain ⟨t', words, hall, hroot, hb', hwords⟩ := insertAll_built kvs (treeWords kvs) hb hlow
    (fun u hu => List.mem_singleton.mp hu ▸ List.mem_cons_self)
    (fun kv hkv u hu =>
      List.mem_cons_of_mem _ (List.mem_flatMap.mpr ⟨kv, hkv, (List.mem_inits _ _).mpr hu⟩))
    hroom
  rw [← hroot] at hb'
  refine ⟨t', words, ?_, hb', fun w => ?_⟩
  · rw [build, hnew, ok_bind]
    exact hall
  · rw [hwords, treeWords, List.mem_singleton, List.mem_cons, List.mem_flatMap]
    apply or_congr_right
    constructor
    · rintro ⟨kv, hkv, hw⟩
      exact ⟨kv, hkv, (List.mem_inits _ _).mpr hw⟩
    · rintro ⟨kv, hkv, hw⟩
      exact ⟨kv, hkv, (List.mem_inits _ _).mp hw⟩

/-- And a tree with such a key is not built. -/
theorem PrefixTree.build_fails (kvs : List ((Nat → BitVec 8) × T)) (hroom : treeNodes kvs ≤ 100)
    (hhigh : ∃ kv ∈ kvs, ∃ c ∈ string kv.1, ¬ c.toNat < 128) : ∃ e, build kvs = .error e := by
  obtain ⟨t, hnew, -⟩ := construct_built (T := T)
  rw [build, hnew, ok_bind]
  exact insertAll_fails kvs t (fun kv hkv => strlen_lt_of_treeNodes hroom hkv) hhigh

end Steps

/-! ## Search

  The loop remembers the last value it has come by, and so does `scan`.  What it answers is the
  longest key because every key has its node, by `Built`. -/

/-- **The loop is the scan of the trie**, exactly if no byte from 128 on is looked up. -/
theorem searchLoop_exactly {T : Type} (memory : Nat → PrefixTreeNode T) (key : Nat → BitVec 8)
    (n level p : Nat) (lastVal : T) (lastLevel : Nat) :
    Exactly (searchLoop memory key n level p lastVal lastLevel)
      (∀ i, i < n → (trieOf memory).walk p (bytesFrom key level i) ≠ none →
        (key (level + i)).toNat < 128)
      (((trieOf memory).scan p (bytesFrom key level n) level (lastVal, lastLevel + 1)).1,
        ((trieOf memory).scan p (bytesFrom key level n) level (lastVal, lastLevel + 1)).2 - 1) := by
  induction n generalizing level p lastVal lastLevel with
  | zero =>
    exact (Exactly.of_eq rfl).congr ⟨fun _ i hi => absurd hi (Nat.not_lt_zero i), fun _ => trivial⟩
  | succ n ih =>
    rw [searchLoop, bytesFrom_succ, Trie.scan]
    -- the lookups are this one, and those from the child on
    have hsplit : (∀ i, i < n + 1 → (trieOf memory).walk p (bytesFrom key level i) ≠ none →
          (key (level + i)).toNat < 128) ↔
        (key level).toNat < 128 ∧ ∀ i, i < n →
          (trieOf memory).walk p (bytesFrom key level (i + 1)) ≠ none →
            (key (level + 1 + i)).toNat < 128 := by
      constructor
      · intro h
        refine ⟨h 0 (Nat.succ_pos n) (Option.some_ne_none p), fun i hi hne => ?_⟩
        rw [show level + 1 + i = level + (i + 1) by omega]
        exact h (i + 1) (by omega) hne
      · rintro ⟨h0, hsucc⟩ i hi hne
        cases i with
        | zero => exact h0
        | succ i =>
          rw [show level + (i + 1) = level + 1 + i by omega]
          exact hsucc i (by omega) hne
    refine Exactly.congr (Exactly.bind (childIndex_exactly (key level)) fun _ => ?_) hsplit.symm
    have hwalk : ∀ i, (trieOf memory).walk p (bytesFrom key level (i + 1)) =
        ((memory p).children (key level).toNat).bind fun q =>
          (trieOf memory).walk q (bytesFrom key (level + 1) i) := by
      intro i
      rw [bytesFrom_succ]
      rfl
    have hchild : (trieOf memory).child p (key level) = (memory p).children (key level).toNat := rfl
    rw [hchild]
    cases hq : (memory p).children (key level).toNat with
    | none =>
      refine (Exactly.of_eq rfl).congr ⟨fun _ i _ hne => ?_, fun _ => trivial⟩
      rw [hwalk, hq] at hne
      exact absurd rfl hne
    | some q =>
      have hcond : ∀ i, ((trieOf memory).walk p (bytesFrom key level (i + 1)) ≠ none ↔
          (trieOf memory).walk q (bytesFrom key (level + 1) i) ≠ none) := by
        intro i
        rw [hwalk, hq]
        rfl
      have hvalue : (trieOf memory).value q = if (memory q).hasValue then some (memory q).value
          else none := rfl
      dsimp only
      rw [hvalue]
      by_cases hhas : (memory q).hasValue = true
      · rw [if_pos hhas, if_pos hhas]
        exact (ih (level + 1) q _ level).congr (by simp only [hcond])
      · rw [if_neg hhas, if_neg hhas]
        exact (ih (level + 1) q lastVal lastLevel).congr (by simp only [hcond])

section Search

variable {T : Type} [Inhabited T]

/-- The search on a tree gets through exactly if the bytes it looks up are below 128. -/
theorem PrefixTree.search_exactly {t : PrefixTree T} {words : List (List (BitVec 8))}
    {m : List (BitVec 8) → Option T} (hb : Built t.root words m t.pool) (q : Nat → BitVec 8) :
    Exactly (t.search q) (∀ i, i < strlen q → bytesFrom q 0 i ∈ words → (q i).toNat < 128)
      ⟨((trieOf t.pool.memory).scan t.root (string q) 0 (default, 1)).1,
        ((trieOf t.pool.memory).scan t.root (string q) 0 (default, 1)).2⟩ := by
  have hpos := (trieOf t.pool.memory).scan_pos (string q) t.root 0 (default, 1) Nat.one_pos
  have hloop := searchLoop_exactly t.pool.memory q (strlen q) 0 t.root default 0
  refine Exactly.congr (Exactly.bind_ok hloop ?_) ?_
  · have hlen := Nat.sub_add_cancel hpos
    exact congrArg (fun n => Except.ok (ValAndLength.mk
      ((trieOf t.pool.memory).scan t.root (string q) 0 (default, 1)).1 n)) hlen
  · simp only [hb.nodes, Nat.zero_add]

/-- The words with nodes are the empty one and the prefixes of the keys. -/
theorem mem_treeWords {T : Type} {kvs : List ((Nat → BitVec 8) × T)} {w : List (BitVec 8)} :
    w ∈ treeWords kvs ↔ w = [] ∨ ∃ kv ∈ kvs, w <+: string kv.1 := by
  rw [treeWords, List.mem_cons, List.mem_flatMap]
  simp only [List.mem_inits]

/-- What the scan of a built tree finds. -/
theorem Built.findsLongest {root : Nat} {words : List (List (BitVec 8))}
    {pool : MemoryPool (PrefixTreeNode T)} {kvs : List ((Nat → BitVec 8) × T)}
    (hb : Built root words (lastInserted kvs) pool) (hkeys : ∀ kv ∈ kvs, strlen kv.1 ≠ 0)
    (q : Nat → BitVec 8) :
    FindsLongest kvs q ⟨((trieOf pool.memory).scan root (string q) 0 (default, 1)).1,
      ((trieOf pool.memory).scan root (string q) 0 (default, 1)).2⟩ := by
  have hroot : (trieOf pool.memory).value root = none := by
    show (trieOf pool.memory).stored root [] = none
    rw [hb.stored]
    by_contra hne
    obtain ⟨kv, hkv, hnil⟩ := Updates.lastValue_ne_none_iff.mp hne
    apply hkeys kv hkv
    rw [← length_string, hnil]
    rfl
  have hlongest := Trie.scan_longest (string q) (default, 1) hroot
  rw [hb.stored] at hlongest
  rcases hlongest with ⟨hscan, hnone⟩ | ⟨w, v, hlong, hscan⟩
  · refine .inr ⟨fun kv hkv hprefix => ?_, by rw [hscan]⟩
    exact Updates.lastValue_ne_none_iff.mpr ⟨kv, hkv, rfl⟩ (hnone _ hprefix)
  · exact .inl ⟨w, v, hlong, by rw [hscan]⟩

/-- **The prefix tree.**  A search finds the longest key exactly if neither the insertions nor the
    search look up a byte from 128 on. -/
theorem searchesRight_iff (kvs : List ((Nat → BitVec 8) × T)) (hkeys : ∀ kv ∈ kvs, strlen kv.1 ≠ 0)
    (hroom : treeNodes kvs ≤ 100) (q : Nat → BitVec 8) :
    SearchesRight kvs q ↔ (∀ kv ∈ kvs, ∀ c ∈ string kv.1, c.toNat < 128) ∧ LooksUpLow kvs q := by
  by_cases hlow : ∀ kv ∈ kvs, ∀ c ∈ string kv.1, c.toNat < 128
  · obtain ⟨t, words, hbuild, hb, hwords⟩ := PrefixTree.build_built kvs hroom hlow
    have hsearch := PrefixTree.search_exactly hb q
    constructor
    · rintro ⟨t', r, hbuild', hr, -⟩
      rw [hbuild] at hbuild'
      rw [← Except.ok.inj hbuild'] at hr
      refine ⟨hlow, fun i hi hin => ?_⟩
      exact (hsearch.ok_iff.mp hr).1 i hi ((hwords _).mpr hin)
    · rintro ⟨-, hq⟩
      exact ⟨t, _, hbuild, hsearch.succeeds (fun i hi hin => hq i hi ((hwords _).mp hin)),
        hb.findsLongest hkeys q⟩
  · constructor
    · rintro ⟨t, r, hbuild, -, -⟩
      have hhigh : ∃ kv ∈ kvs, ∃ c ∈ string kv.1, ¬ c.toNat < 128 := by
        by_contra hne
        apply hlow
        intro kv hkv c hc
        by_contra hc'
        exact hne ⟨kv, hkv, c, hc, hc'⟩
      obtain ⟨e, he⟩ := PrefixTree.build_fails kvs hroom hhigh
      rw [he] at hbuild
      cases hbuild
    · rintro ⟨h, -⟩
      exact absurd h hlow

/-- `"/"` and `"/dev/"`, mounted as 1 and 2. -/
def mounts : List ((Nat → BitVec 8) × Nat) :=
  [(cstring [0x2f], 1), (cstring [0x2f, 0x64, 0x65, 0x76, 0x2f], 2)]

/-- `"/dev/rtc"` is found. -/
theorem searchesRight_mounts :
    SearchesRight mounts (cstring [0x2f, 0x64, 0x65, 0x76, 0x2f, 0x72, 0x74, 0x63]) := by
  apply (searchesRight_iff mounts (by decide +kernel) (by decide +kernel) _).mpr
  constructor
  · decide +kernel
  · unfold LooksUpLow
    decide +kernel

/-- The user looks for a name that starts with the byte 0xff. -/
theorem highByte_lookedUp : ¬ SearchesRight mounts (cstring [0x2f, 0xff]) := by
  rintro ⟨t, r, hbuild, hr, -⟩
  obtain ⟨t', words, hbuild', hb, hwords⟩ :=
    PrefixTree.build_built mounts (by decide +kernel) (by decide +kernel)
  rw [hbuild] at hbuild'
  rw [← Except.ok.inj hbuild'] at hb
  have hlow := ((PrefixTree.search_exactly hb _).ok_iff.mp hr).1 1 (by decide +kernel)
    ((hwords _).mpr (by decide +kernel))
  exact absurd hlow (by decide +kernel)

end Search

end TedkOS.Klibs
