/-
  The invariant of the kernel heap, and what each elementary move does to it.

  Whatever `allocImpl` and `freeImpl` do to memory is one of four MOVES on pools:

  * TAKE     a block is popped from a pool's free stack (`getFrom`);
  * RELEASE  a pool takes a block back (`releaseTo`);
  * DROP     an empty pool leaves its slot (`paraFindAndReleaseFreePool`);
  * INSTALL  a page nobody uses becomes a new pool of some slot (`installPool`).

  The invariant `Inv m live` ties the memory to the GHOST list `live` of the blocks handed out and
  not taken back.  Per pool it is one statement about sets: the free stack stores exactly the
  elements of the pool that are not live (`FreeList.Tracks`); the pools occupy distinct 4 MB pages;
  and every live block is an element of a pool of its own size class.  About `freeMap` only one
  direction is kept, "bit up ⟹ free", because `release` loses the other one.
-/
import TedkOS.Klibs.Kmalloc

namespace TedkOS.KMemory

open SizeClass FreeList

/-! ## Elements of a pool

  A pool lies at the start of its page and its elements are the multiples of the element size
  behind the header.  An address within a page belongs to one pool, and the index that the source
  computes from it is that of the element (`toMapIndex_element`). -/

/-- `a` is the address of an element the pool at `p` may hand out. -/
def IsElement (c : SizeClass) (p a : Nat) : Prop :=
  ∃ i, c.ourNumElements ≤ i ∧ i < c.MaxNumElements ∧ a = p + c.ElementSize * i

/-- All of them, in the order the constructor pushes them. -/
def elements (c : SizeClass) (p : Nat) : List Nat :=
  (List.range' c.ourNumElements (c.MaxNumElements - c.ourNumElements)).map
    fun i => p + c.ElementSize * i

/-- The list has just the elements of the pool. -/
theorem mem_elements {c : SizeClass} {p a : Nat} : a ∈ elements c p ↔ IsElement c p a := by
  have hlt := ourNumElements_lt c
  simp only [elements, List.mem_map, List.mem_range'_1, IsElement]
  constructor
  · rintro ⟨i, ⟨h1, h2⟩, rfl⟩
    exact ⟨i, h1, by omega, rfl⟩
  · rintro ⟨i, h1, h2, rfl⟩
    exact ⟨i, ⟨h1, by omega⟩, rfl⟩

/-- There are as many as the page holds, without those that the header lies on. -/
theorem length_elements (c : SizeClass) (p : Nat) :
    (elements c p).length = c.MaxNumElements - c.ourNumElements := by
  simp [elements]

/-- And each is there once. -/
theorem nodup_elements (c : SizeClass) (p : Nat) : (elements c p).Nodup := by
  refine List.Nodup.map ?_ List.nodup_range'
  intro i j hij
  have hE := ElementSize_pos c
  exact Nat.eq_of_mul_eq_mul_left hE (Nat.add_left_cancel hij)

/-- An element starts behind the header and ends inside the page. -/
theorem IsElement.bounds {c : SizeClass} {p a : Nat} (h : IsElement c p a) :
    p + c.sizeofObjectPool ≤ a ∧ a + c.ElementSize ≤ p + c.PageSizeOf := by
  obtain ⟨i, hlo, hhi, rfl⟩ := h
  have hhdr := sizeofObjectPool_le c
  have h1 : c.ElementSize * c.ourNumElements ≤ c.ElementSize * i := Nat.mul_le_mul_left _ hlo
  have h2 : c.ElementSize * (i + 1) ≤ c.ElementSize * c.MaxNumElements :=
    Nat.mul_le_mul_left _ hhi
  rw [ElementSize_dvd_page, Nat.mul_add, Nat.mul_one] at h2
  omega

/-- The index of an element is the one it was pushed with. -/
theorem toMapIndex_element (c : SizeClass) (p i : Nat) :
    ObjectPool.toMapIndex c p (p + c.ElementSize * i) = i := by
  rw [ObjectPool.toMapIndex, if_neg (by omega), Nat.add_sub_cancel_left,
    Nat.mul_div_cancel_left _ (ElementSize_pos c)]

/-- **An address has a map index exactly in the pool whose page it lies on.** -/
theorem toMapIndex_lt_iff (c : SizeClass) (p a : Nat) :
    ObjectPool.toMapIndex c p a < c.MaxNumElements ↔ p ≤ a ∧ a < p + c.PageSizeOf := by
  unfold ObjectPool.toMapIndex
  by_cases hlt : a < p
  · rw [if_pos hlt]
    constructor
    · intro h; omega
    · intro h; omega
  · rw [if_neg hlt, Nat.div_lt_iff_lt_mul (ElementSize_pos c), Nat.mul_comm, ElementSize_dvd_page]
    omega

/-- An element has an index in the map of its pool. -/
theorem toMapIndex_lt_of_element {c : SizeClass} {p a : Nat} (h : IsElement c p a) :
    ObjectPool.toMapIndex c p a < c.MaxNumElements := by
  obtain ⟨i, _, hi, rfl⟩ := h
  rw [toMapIndex_element]; exact hi

/-- Two aligned pages that share an address are the same page. -/
theorem page_unique {c d : SizeClass} {p q a : Nat} (hp : p % c.PageSizeOf = 0)
    (hq : q % d.PageSizeOf = 0) (hpa : p ≤ a ∧ a < p + c.PageSizeOf)
    (hqa : q ≤ a ∧ a < q + d.PageSizeOf) : p = q := by
  simp only [PageSizeOf] at *
  omega

/-! ## The pool the constructor builds

  Its first loop takes down the bits of the slots under the header, and its second puts every
  other element on the free stack. -/

/-- What the second loop of the constructor adds, over a run of indices. -/
theorem foldl_addElement (c : SizeClass) (p : Nat) :
    ∀ (k s : Nat) (o : ObjectPool c), o.freeStack.items.length + k ≤ c.MaxNumElements →
      let o' := (List.range' s k).foldl (ObjectPool.addElement p) o
      o'.freeStack.items = o.freeStack.items ++ (List.range' s k).map
        (fun i => p + c.ElementSize * i) ∧
      ∀ j, o'.freeMap.test j = true → o.freeMap.test j = true ∨ (s ≤ j ∧ j < s + k) := by
  intro k
  induction k with
  | zero =>
    intro s o _
    exact ⟨by simp, fun j hj => Or.inl hj⟩
  | succ k ih =>
    intro s o hlen
    rw [List.range'_succ, List.foldl_cons, List.map_cons]
    have hpush : (ObjectPool.addElement p o s).freeStack.items =
        o.freeStack.items ++ [p + c.ElementSize * s] :=
      Stack.items_push _ _ (by omega)
    obtain ⟨hitems, hbits⟩ := ih (s + 1) (ObjectPool.addElement p o s)
      (by rw [hpush, List.length_append]; simp; omega)
    refine ⟨by rw [hitems, hpush]; simp, fun j hj => ?_⟩
    rcases hbits j hj with h | h
    · have h' : (o.freeMap.set s).test j = true := h
      rw [BitSet.test_set] at h'
      by_cases hjs : j = s
      · exact Or.inr ⟨by omega, by omega⟩
      · rw [if_neg (fun hc => hjs hc.1)] at h'
        exact Or.inl h'
    · exact Or.inr ⟨by omega, by omega⟩

/-- The first loop of the constructor leaves a blank pool blank. -/
theorem foldl_clear (c : SizeClass) : ∀ (l : List Nat) (o : ObjectPool c),
    (∀ j, o.freeMap.test j = false) →
      let o' := l.foldl (fun o i => { o with freeMap := o.freeMap.clear i }) o
      o'.freeStack = o.freeStack ∧ ∀ j, o'.freeMap.test j = false := by
  intro l
  induction l with
  | nil => intro o h; exact ⟨rfl, h⟩
  | cons i l ih =>
    intro o h
    obtain ⟨hs, hb⟩ := ih { o with freeMap := o.freeMap.clear i } (fun j => by
      show (o.freeMap.clear i).test j = false
      rw [BitSet.test_clear, h j]; simp)
    exact ⟨hs, hb⟩

/-- **A new pool has all its elements free.** -/
theorem build_spec (c : SizeClass) (p : Nat) :
    (ObjectPool.build c p).freeStack.items = elements c p ∧
    (ObjectPool.build c p).numValidElements = c.MaxNumElements - c.ourNumElements ∧
    ∀ j, (ObjectPool.build c p).freeMap.test j = true →
      c.ourNumElements ≤ j ∧ j < c.MaxNumElements := by
  have hlt := ourNumElements_lt c
  obtain ⟨hst, hbl⟩ := foldl_clear c (List.range c.ourNumElements)
    (⟨BitSet.new _, Stack.new _ _, 0⟩ : ObjectPool c) (fun j => BitSet.test_new j)
  obtain ⟨hitems, hbits⟩ := foldl_addElement c p (c.MaxNumElements - c.ourNumElements)
    c.ourNumElements ((List.range c.ourNumElements).foldl
      (fun o i => { o with freeMap := o.freeMap.clear i }) ⟨BitSet.new _, Stack.new _ _, 0⟩)
    (by rw [hst]; simp)
  refine ⟨?_, rfl, fun j hj => ?_⟩
  · have : (ObjectPool.build c p).freeStack.items = _ := hitems
    rw [this, hst]; simp [elements]
  · rcases hbits j hj with h | h
    · rw [hbl j] at h; exact absurd h (by decide)
    · exact ⟨h.1, by omega⟩

/-! ## The invariant

  Below it, one lemma for each of the four moves (`Inv.take`, `Inv.give`, `Inv.dropPool`,
  `Inv.install`).  A move changes one pool, so `Inv.setPool` carries the others over. -/

/-- A block handed out: where it starts and how many bytes were asked for. -/
structure Block where
  addr : Nat
  size : Nat
  deriving DecidableEq

/-- The start addresses of the live blocks. -/
def starts (live : List Block) : Set Nat := {a | ∃ b ∈ live, b.addr = a}

/-- One pool: its page, and its free stack as the set of its elements that are not live. -/
structure PoolInv (c : SizeClass) (p : Nat) (o : ObjectPool c) (live : List Block) : Prop where
  /-- The pool is at the start of a page, -/
  aligned : p % c.PageSizeOf = 0
  /-- and the page ends within the address space. -/
  fits : p + c.PageSizeOf ≤ 0x100000000
  /-- It counts the elements behind its header. -/
  valid : o.numValidElements = c.MaxNumElements - c.ourNumElements
  /-- The free stack has every element that is not live, once, and nothing else. -/
  free : Tracks o.freeStack.items {a | IsElement c p a ∧ a ∉ starts live}
  /-- A bit that is up belongs to a free element. -/
  bits : ∀ i, o.freeMap.test i = true → p + c.ElementSize * i ∈ o.freeStack.items

/-- **The heap invariant.** -/
structure Inv (m : KMem) (live : List Block) : Prop where
  /-- A slot has a pool once, -/
  slotsNodup : ∀ c, (m.slots c).items.Nodup
  /-- and two slots have none in common. -/
  slotsApart : ∀ c d p, p ∈ (m.slots c).items → p ∈ (m.slots d).items → c = d
  /-- Every pool in a slot is in order. -/
  pools : ∀ c p, p ∈ (m.slots c).items → PoolInv c p (m.pool c p) live
  /-- No two live blocks start at the same address. -/
  liveNodup : (live.map Block.addr).Nodup
  /-- A live block is an element of a pool of its size's class. -/
  owned : ∀ b ∈ live, ∃ c p, sizeClass b.size = some c ∧ p ∈ (m.slots c).items ∧
    IsElement c p b.addr

/-- A page that could become a pool: aligned, addressable, and in no slot. -/
def PageFree (m : KMem) (p : Nat) : Prop :=
  p % (4 * 1024 * 1024) = 0 ∧ p + 4 * 1024 * 1024 ≤ 0x100000000 ∧ ∀ c, p ∉ (m.slots c).items

/-- Before the first call there is no pool and no block. -/
theorem inv_init : Inv KMem.init [] where
  slotsNodup _ := List.nodup_nil
  slotsApart _ _ _ h := absurd h List.not_mem_nil
  pools _ _ h := absurd h List.not_mem_nil
  liveNodup := List.nodup_nil
  owned _ h := absurd h List.not_mem_nil

/-- The count of pools is not looked at. -/
theorem Inv.congr_total {m : KMem} {live : List Block} (h : Inv m live) (t : BitVec 32) :
    Inv { m with totalNumPools := t } live :=
  ⟨h.slotsNodup, h.slotsApart, h.pools, h.liveNodup, h.owned⟩

section Moves

variable {m : KMem} {live : List Block} {c d : SizeClass} {p q a : Nat}

/-- The pool whose page holds an address is unique, and so is its slot. -/
theorem Inv.pool_unique (h : Inv m live) (hp : p ∈ (m.slots c).items) (hq : q ∈ (m.slots d).items)
    (hpa : p ≤ a ∧ a < p + c.PageSizeOf) (hqa : q ≤ a ∧ a < q + d.PageSizeOf) :
    p = q ∧ c = d := by
  have hpq := page_unique (h.pools c p hp).aligned (h.pools d q hq).aligned hpa hqa
  subst hpq
  exact ⟨rfl, h.slotsApart c d p hp hq⟩

/-- An element lies on the page of its pool. -/
theorem IsElement.in_page (h : IsElement c p a) : p ≤ a ∧ a < p + c.PageSizeOf := by
  have hE := ElementSize_pos c
  obtain ⟨h1, h2⟩ := h.bounds
  omega

/-- An element of one pool is no element of another. -/
theorem Inv.element_unique (h : Inv m live) (hp : p ∈ (m.slots c).items)
    (hq : q ∈ (m.slots d).items) (hpa : IsElement c p a) (hqa : IsElement d q a) :
    p = q ∧ c = d :=
  h.pool_unique hp hq hpa.in_page hqa.in_page

/-- The start of a new block is one more start. -/
theorem starts_cons (b : Block) (live : List Block) :
    starts (b :: live) = insert b.addr (starts live) := by
  ext x
  simp only [starts, Set.mem_ofPred_eq, Set.mem_insert_iff, List.mem_cons, exists_eq_or_imp]
  exact or_congr_left eq_comm

/-- One pool and the live blocks change together: elsewhere the same blocks are live as before. -/
theorem Inv.setPool (h : Inv m live) (hp : p ∈ (m.slots c).items) {o : ObjectPool c}
    {live' : List Block} (hpool : PoolInv c p o live')
    (hother : ∀ x, ¬ IsElement c p x → (x ∈ starts live' ↔ x ∈ starts live))
    (hnodup : (live'.map Block.addr).Nodup)
    (howned : ∀ b ∈ live', b ∈ live ∨ (sizeClass b.size = some c ∧ IsElement c p b.addr)) :
    Inv (m.setPool c p o) live' where
  slotsNodup := h.slotsNodup
  slotsApart := h.slotsApart
  pools d q hq := by
    -- another pool shares no element with this one, so its free stack is still right
    by_cases hqp : q = p
    · subst hqp
      cases h.slotsApart d c q hq hp
      rw [KMem.pool_setPool]
      exact hpool
    · have hQ := h.pools d q hq
      rw [KMem.pool_setPool_ne _ _ hqp]
      refine ⟨hQ.aligned, hQ.fits, hQ.valid, hQ.free.congr fun x => ?_, hQ.bits⟩
      refine and_congr_right fun hx => not_congr (hother x fun hel => hqp ?_).symm
      exact (h.element_unique hq hp hx hel).1
  liveNodup := hnodup
  owned b hb := by
    rcases howned b hb with hold | ⟨hsz, hel⟩
    · exact h.owned b hold
    · exact ⟨c, p, hsz, hp, hel⟩

/-- What a pool hands out is one of its elements and was not live; with it live, the pool is in
    order again. -/
theorem PoolInv.get {o o' : ObjectPool c} (h : PoolInv c p o live) (hget : o.get p = (some a, o')) :
    IsElement c p a ∧ a ∉ starts live ∧ ∀ size, PoolInv c p o' (⟨a, size⟩ :: live) := by
  unfold ObjectPool.get at hget
  split at hget
  · cases hget
  · rename_i hne
    have hitems := Stack.items_pop o.freeStack (by simpa using hne)
    rcases hpop : o.freeStack.pop with ⟨top, rest⟩
    rw [hpop] at hget hitems
    obtain ⟨htop, rfl⟩ := Prod.mk.inj hget
    cases Option.some.inj htop
    have hfree := h.free
    rw [hitems] at hfree
    obtain ⟨⟨hel, hnl⟩, hrest⟩ := hfree.pop
    refine ⟨hel, hnl, fun size => ⟨h.aligned, h.fits, h.valid, hrest.congr fun x => ?_,
      fun i hi => ?_⟩⟩
    · -- the popped element moves from the free set to the live set
      rw [starts_cons]
      simp only [Set.mem_sdiff, Set.mem_ofPred_eq, Set.mem_singleton_iff,
        Set.mem_insert_iff, not_or]
      exact ⟨fun ⟨⟨h1, h2⟩, h3⟩ => ⟨h1, h3, h2⟩, fun ⟨h1, h3, h2⟩ => ⟨⟨h1, h2⟩, h3⟩⟩
    · obtain ⟨k, hk1, hk2, rfl⟩ := hel
      rw [toMapIndex_element] at hi
      have hik : i ≠ k := fun e => by
        subst e; simp at hi
      have hold : o.freeMap.test i = true := by
        rw [← BitSet.test_clear_ne _ hik]; exact hi
      have hmem := h.bits i hold
      rw [hitems, List.mem_append, List.mem_singleton] at hmem
      rcases hmem with hmem | heq
      · exact hmem
      · exact absurd (Nat.eq_of_mul_eq_mul_left (ElementSize_pos c)
          (Nat.add_left_cancel heq)) hik

/-- **TAKE.**  A block popped from a pool is an element of the pool that was not live; with it
    added to the live blocks the invariant holds again. -/
theorem Inv.take (h : Inv m live) (hp : p ∈ (m.slots c).items) {m' : KMem} {size : Nat}
    (hsz : sizeClass size = some c) (hget : getFrom c p m = (some a, m')) :
    Inv m' (⟨a, size⟩ :: live) ∧ a ∉ starts live ∧ m'.slots = m.slots := by
  unfold getFrom at hget
  rcases hg : (m.pool c p).get p with ⟨oa, o⟩
  rw [hg] at hget
  cases oa with
  | none => cases hget
  | some a' =>
    obtain ⟨ha, rfl⟩ := Prod.mk.inj hget
    cases Option.some.inj ha
    obtain ⟨hel, hnl, hpool⟩ := (h.pools c p hp).get hg
    refine ⟨h.setPool hp (hpool size) (fun x hx => ?_) ?_ fun b hb => ?_, hnl, rfl⟩
    · rw [starts_cons, Set.mem_insert_iff]
      exact or_iff_right fun e => hx (e ▸ hel)
    · rw [List.map_cons, List.nodup_cons]
      refine ⟨fun hc => hnl ?_, h.liveNodup⟩
      obtain ⟨b, hb, hba⟩ := List.mem_map.mp hc
      exact ⟨b, hb, hba⟩
    · rcases List.mem_cons.mp hb with rfl | hb
      · exact Or.inr ⟨hsz, hel⟩
      · exact Or.inl hb

/-- A pool that has an element left hands one out. -/
theorem getFrom_isSome (hne : (m.pool c p).freeStack.items ≠ []) :
    ∃ a m', getFrom c p m = (some a, m') := by
  have he : (m.pool c p).freeStack.empty = false := by
    cases he : (m.pool c p).freeStack.empty with
    | false => rfl
    | true => exact absurd ((Stack.empty_iff _).mp he) hne
  rcases hpop : (m.pool c p).freeStack.pop with ⟨top, rest⟩
  unfold getFrom ObjectPool.get
  rw [he, hpop]
  exact ⟨_, _, rfl⟩

/-- A pool that hands nothing out changes nothing. -/
theorem getFrom_none (h : (getFrom c p m).1 = none) : (getFrom c p m).2 = m := by
  unfold getFrom at h ⊢
  rcases hg : (m.pool c p).get p with ⟨oa, o⟩
  rw [hg] at h
  cases oa with
  | none => rfl
  | some a => cases h

/-- **An empty pool owns no live block**: its free stack is as long as the pool has elements. -/
theorem PoolInv.no_live_of_empty {o : ObjectPool c} (h : PoolInv c p o live) (he : o.empty = true)
    (hel : IsElement c p a) : a ∉ starts live := by
  have hlen : o.freeStack.items.length = o.numValidElements := by
    simpa [ObjectPool.empty, Stack.size] using he
  have hfull := h.free.full (U := elements c p) (fun x hx => mem_elements.mpr hx.1)
    (by rw [length_elements, hlen, h.valid])
  exact (hfull a (mem_elements.mpr hel)).2

/-- **DROP.**  An empty pool leaves its slot and its page is free. -/
theorem Inv.dropPool (h : Inv m live) {idx : Nat} (hidx : (m.slots c).items[idx]? = some p)
    (he : (m.pool c p).empty = true) :
    Inv (m.setSlot c ((m.slots c).drop idx)) live ∧
      PageFree (m.setSlot c ((m.slots c).drop idx)) p := by
  have hp : p ∈ (m.slots c).items := List.mem_of_getElem? hidx
  have hP := h.pools c p hp
  -- the slot as a set of pointers: it loses exactly `p`
  have hslot : Tracks (m.slots c).items {q | q ∈ (m.slots c).items} :=
    ⟨h.slotsNodup c, fun _ => Iff.rfl⟩
  have hdrop := (hslot.eraseIdx hidx).2
  have hmem : ∀ d q, q ∈ ((m.setSlot c ((m.slots c).drop idx)).slots d).items ↔
      q ∈ (m.slots d).items ∧ q ≠ p := by
    intro d q
    by_cases hdc : d = c
    · subst hdc
      rw [KMem.slots_setSlot]
      have := hdrop.mem_iff q
      simpa [Stack.drop] using this
    · rw [KMem.slots_setSlot_ne _ _ hdc]
      refine ⟨fun hq => ⟨hq, fun e => hdc ?_⟩, And.left⟩
      subst e
      exact h.slotsApart d c q hq hp
  refine ⟨⟨?_, ?_, ?_, h.liveNodup, ?_⟩, ?_, ?_, ?_⟩
  · intro d
    by_cases hdc : d = c
    · subst hdc
      rw [KMem.slots_setSlot]
      exact hdrop.nodup
    · rw [KMem.slots_setSlot_ne _ _ hdc]; exact h.slotsNodup d
  · intro d e q hd he'
    exact h.slotsApart d e q ((hmem d q).mp hd).1 ((hmem e q).mp he').1
  · intro d q hq
    exact h.pools d q ((hmem d q).mp hq).1
  · intro b hb
    obtain ⟨d, q, hsz, hq, hel⟩ := h.owned b hb
    refine ⟨d, q, hsz, (hmem d q).mpr ⟨hq, fun e => ?_⟩, hel⟩
    subst e
    cases h.slotsApart d c q hq hp
    exact hP.no_live_of_empty he hel ⟨b, hb, rfl⟩
  · exact hP.aligned
  · exact hP.fits
  · intro d hd
    exact ((hmem d p).mp hd).2 rfl

/-- **INSTALL.**  A free page becomes a pool all of whose elements are free. -/
theorem Inv.install (h : Inv m live) (hpage : PageFree m p) (hroom : (m.slots c).full = false) :
    Inv (installPool c p m) live ∧ p ∈ ((installPool c p m).slots c).items := by
  obtain ⟨hal, hfit, hnew⟩ := hpage
  have hlt : (m.slots c).items.length < MaxPoolNumInSingleSlot := by
    have hb := (m.slots c).bounded
    simp only [Stack.full, beq_eq_false_iff_ne] at hroom
    omega
  have hpush : ((m.slots c).push p).items = (m.slots c).items ++ [p] := Stack.items_push _ _ hlt
  have hslotc : (installPool c p m).slots c = (m.slots c).push p := KMem.slots_setSlot _ _
  have hmem : ∀ d q, q ∈ ((installPool c p m).slots d).items ↔
      q ∈ (m.slots d).items ∨ (d = c ∧ q = p) := by
    intro d q
    by_cases hdc : d = c
    · subst hdc
      rw [hslotc, hpush]; simp
    · rw [installPool, KMem.slots_setSlot_ne _ _ hdc]
      simp [hdc]
  have hpool : ∀ d q, q ≠ p → (installPool c p m).pool d q = m.pool d q := by
    intro d q hqp
    rw [installPool, KMem.pool_setSlot, KMem.pool_setPool_ne _ _ hqp]
  refine ⟨⟨?_, ?_, ?_, h.liveNodup, ?_⟩, (hmem c p).mpr (Or.inr ⟨rfl, rfl⟩)⟩
  · intro d
    by_cases hdc : d = c
    · subst hdc
      rw [hslotc, hpush]
      exact (Tracks.push ⟨h.slotsNodup d, fun _ => Iff.rfl⟩ (hnew d)).nodup
    · rw [installPool, KMem.slots_setSlot_ne _ _ hdc]; exact h.slotsNodup d
  · intro d e q hd he
    rcases (hmem d q).mp hd with hd | ⟨rfl, rfl⟩
    · rcases (hmem e q).mp he with he | ⟨_, hqp⟩
      · exact h.slotsApart d e q hd he
      · exact absurd (hqp ▸ hd) (hnew d)
    · rcases (hmem e q).mp he with he | ⟨rfl, _⟩
      · exact absurd he (hnew e)
      · rfl
  · intro d q hq
    rcases (hmem d q).mp hq with hq | ⟨rfl, rfl⟩
    · have hqp : q ≠ p := fun e => hnew d (e ▸ hq)
      rw [hpool d q hqp]
      exact h.pools d q hq
    · -- the new pool: no live block lies on its page, so every element is free
      have hbuild : (installPool d q m).pool d q = ObjectPool.build d q := by
        rw [installPool, KMem.pool_setSlot, KMem.pool_setPool]
      obtain ⟨hitems, hvalid, hbits⟩ := build_spec d q
      rw [hbuild]
      refine ⟨hal, hfit, hvalid, ⟨hitems ▸ nodup_elements d q, fun x => ?_⟩, fun i hi => ?_⟩
      · rw [hitems, mem_elements]
        refine ⟨fun hx => ⟨hx, ?_⟩, And.left⟩
        rintro ⟨b, hb, rfl⟩
        obtain ⟨e, r, _, hr, hel⟩ := h.owned b hb
        have hrq : r = q := page_unique (h.pools e r hr).aligned (c := e) (d := d) hal
          hel.in_page hx.in_page
        exact hnew e (hrq ▸ hr)
      · rw [hitems, mem_elements]
        exact ⟨i, (hbits i hi).1, (hbits i hi).2, rfl⟩
  · intro b hb
    obtain ⟨d, q, hsz, hq, hel⟩ := h.owned b hb
    exact ⟨d, q, hsz, (hmem d q).mpr (Or.inl hq), hel⟩

/-- `release` accepts an address exactly when its index is in range and its map bit is down. -/
theorem release_fst (o : ObjectPool c) :
    (o.release p a).1 = true ↔ ObjectPool.toMapIndex c p a < c.MaxNumElements ∧
      o.freeMap.test (ObjectPool.toMapIndex c p a) = false := by
  unfold ObjectPool.release
  by_cases hidx : ObjectPool.toMapIndex c p a ≥ c.MaxNumElements
  · rw [if_pos hidx]; simp; omega
  · rw [if_neg hidx]
    have hlt : ObjectPool.toMapIndex c p a < c.MaxNumElements := Nat.lt_of_not_le hidx
    cases ht : o.freeMap.test (ObjectPool.toMapIndex c p a) with
    | false => simp [hlt]
    | true => simp

/-- What is released goes on the free stack, and its bit is cleared. -/
theorem release_snd {o : ObjectPool c} (h : (o.release p a).1 = true) :
    (o.release p a).2 = { o with
      freeMap := o.freeMap.clear (ObjectPool.toMapIndex c p a)
      freeStack := o.freeStack.push a } := by
  obtain ⟨hidx, ht⟩ := (release_fst o).mp h
  unfold ObjectPool.release
  rw [if_neg (by omega), ht]
  rfl

/-- A pool accepts every live block of its own. -/
theorem PoolInv.release_live {o : ObjectPool c} (h : PoolInv c p o live) (hel : IsElement c p a)
    (hl : a ∈ starts live) : (o.release p a).1 = true := by
  rw [release_fst]
  refine ⟨toMapIndex_lt_of_element hel, ?_⟩
  cases ht : o.freeMap.test (ObjectPool.toMapIndex c p a) with
  | false => rfl
  | true =>
    have hmem := h.bits _ ht
    obtain ⟨i, _, _, rfl⟩ := hel
    rw [toMapIndex_element] at hmem
    exact absurd hl ((h.free.mem_iff _).mp hmem).2

/-- The live blocks after the block at `a` is gone. -/
def without (live : List Block) (a : Nat) : List Block := live.filter fun b => b.addr ≠ a

/-- The blocks that do not start there. -/
theorem mem_without {b : Block} : b ∈ without live a ↔ b ∈ live ∧ b.addr ≠ a := by
  simp [without]

/-- Their starts are the others. -/
theorem starts_without (live : List Block) (a : Nat) :
    starts (without live a) = starts live \ {a} := by
  ext x
  simp only [starts, Set.mem_sdiff, Set.mem_ofPred_eq, Set.mem_singleton_iff, mem_without]
  constructor
  · rintro ⟨b, ⟨hb, hne⟩, rfl⟩
    exact ⟨⟨b, hb, rfl⟩, hne⟩
  · rintro ⟨⟨b, hb, rfl⟩, hne⟩
    exact ⟨b, ⟨hb, hne⟩, rfl⟩

/-- A pool that takes back a live block of its own is in order without it. -/
theorem PoolInv.release {o : ObjectPool c} (h : PoolInv c p o live) (hel : IsElement c p a)
    (hl : a ∈ starts live) : PoolInv c p (o.release p a).2 (without live a) := by
  rw [release_snd (h.release_live hel hl)]
  have hnf : a ∉ {x | IsElement c p x ∧ x ∉ starts live} := fun hx => hx.2 hl
  have hroom : o.freeStack.items.length < c.MaxNumElements := by
    have hlt := h.free.length_lt (U := elements c p) (fun x hx => mem_elements.mpr hx.1)
      (mem_elements.mpr hel) hnf
    rw [length_elements] at hlt
    omega
  refine ⟨h.aligned, h.fits, h.valid, ?_, fun i hi => ?_⟩
  · show Tracks (o.freeStack.push a).items _
    rw [Stack.items_push o.freeStack a hroom, starts_without]
    refine (h.free.push hnf).congr fun x => ?_
    simp only [Set.mem_insert_iff, Set.mem_ofPred_eq, Set.mem_sdiff, Set.mem_singleton_iff]
    by_cases hxa : x = a
    · simp [hxa, hel]
    · simp [hxa]
  · have hi' : (o.freeMap.clear (ObjectPool.toMapIndex c p a)).test i = true := hi
    rw [BitSet.test_clear] at hi'
    split at hi'
    · exact absurd hi' (by decide)
    · exact Stack.mem_push (h.bits i hi')

/-- **RELEASE.**  A live block taken back by its pool is free again, and live no longer. -/
theorem Inv.give (h : Inv m live) (hp : p ∈ (m.slots c).items) (hel : IsElement c p a)
    (hl : a ∈ starts live) :
    Inv (m.setPool c p ((m.pool c p).release p a).2) (without live a) := by
  refine h.setPool hp ((h.pools c p hp).release hel hl) (fun x hx => ?_) ?_ fun b hb => ?_
  · rw [starts_without, Set.mem_sdiff, Set.mem_singleton_iff]
    exact and_iff_left fun e => hx (e ▸ hel)
  · exact h.liveNodup.sublist (List.filter_sublist.map _)
  · exact Or.inl (mem_without.mp hb).1

end Moves

end TedkOS.KMemory
