/-
  Runs of the kernel heap.

  A run is a sequence of `allocImpl`, `freeImpl(addr)` and `freeImpl(addr, size)` calls from empty
  slots.  The state carries the ghost list of live blocks next to the memory: an allocation that
  returns an address adds a block, a release that is accepted removes the block that starts at the
  address, if there is one.

  What the callers promise is the guard of the run.  `WellBehaved` callers free live blocks only.
  `Careful` callers may also pass addresses the allocator can still tell apart from live blocks:
  those that lie in no pool, or in a block whose map bit is still up because it has not been handed
  out since its pool was built.

  * `kmalloc_blocks_separated` — under well-behaved callers the blocks returned are aligned, lie in
    one pool page behind its header, and overlap neither each other nor any header;
  * `freeImpl_rejects_iff_unissued` — under careful callers an address that starts no live block is
    rejected EXACTLY when it is unissued: everything that was once handed out and taken back is
    accepted again, because `release` clears the map bit it should set.

  Both follow from the invariant of the heap (`Inv`), which a run keeps because each call is made
  of moves that do.  The first needs no more: live blocks are elements of pools, different pools
  are different pages, and different elements of a pool share no byte.
-/
import TedkOS.Lib.Runs
import TedkOS.Klibs.KmallocInv

namespace TedkOS.KMemory

open SizeClass FreeList Runs

/-! ## What one call does

  An allocation takes an element of a pool that has one free, or puts an empty pool into service
  for the size, or builds a new one on a page; the page comes from outside, and what is asked of
  it is that nothing else uses it (`SupplyFresh`).  A release finds the pool of the address, and
  is accepted exactly if the map bit of the element is down. -/

section Calls

variable {m m' : KMem} {live : List Block} {c : SizeClass} {a p : Nat}

/-- The pages the page allocators supply during a call are in use by nobody. -/
def SupplyFresh (m : KMem) (src : PageSupply) : Prop :=
  ∀ page, src.virtAddr = some page → PageFree m page

/-- A slot that had room has room when a pool was dropped from some slot. -/
theorem paraFindAndReleaseFreePool_keepsRoom (hf : paraFindAndReleaseFreePool c m = some (p, m'))
    (d : SizeClass) (hd : (m.slots d).full = false) : (m'.slots d).full = false := by
  unfold paraFindAndReleaseFreePool at hf
  split at hf
  · rename_i idx hidx
    obtain ⟨x, hx, _, _⟩ := Stack.firstIdx_some hidx
    rw [hx] at hf
    cases hf
    show ((m.setSlot c ((m.slots c).drop idx)).slots d).full = false
    by_cases hdc : d = c
    · subst hdc
      have hlt : idx < (m.slots d).items.length := (List.getElem?_eq_some_iff.mp hx).1
      have hb := (m.slots d).bounded
      rw [KMem.slots_setSlot]
      simp only [Stack.full, Stack.drop, List.length_eraseIdx, if_pos hlt, beq_eq_false_iff_ne]
      omega
    · rw [KMem.slots_setSlot_ne _ _ hdc]; exact hd
  · cases hf

/-- An empty pool that leaves its slot leaves the invariant, and its page is free. -/
theorem paraFindAndReleaseFreePool_spec (h : Inv m live)
    (hf : paraFindAndReleaseFreePool c m = some (p, m')) :
    Inv m' live ∧ PageFree m' p ∧ ∀ d, (m.slots d).full = false → (m'.slots d).full = false := by
  refine and_assoc.mp ⟨?_, paraFindAndReleaseFreePool_keepsRoom hf⟩
  unfold paraFindAndReleaseFreePool at hf
  split at hf
  · rename_i idx hidx
    obtain ⟨x, hx, hempty, _⟩ := Stack.firstIdx_some hidx
    rw [hx] at hf
    cases hf
    obtain ⟨hinv, hfree⟩ := h.dropPool hx hempty
    exact ⟨hinv.congr_total _, hfree⟩
  · cases hf

/-- The search of the four slots drops a pool from one of them. -/
theorem findAndReleaseFreePool_para (hf : findAndReleaseFreePool m = some (p, m')) :
    ∃ d, d ≠ .m1 ∧ paraFindAndReleaseFreePool d m = some (p, m') := by
  rcases Option.or_eq_some_iff.mp hf with hf | ⟨_, hf⟩
  · exact ⟨_, by decide, hf⟩
  rcases Option.or_eq_some_iff.mp hf with hf | ⟨_, hf⟩
  · exact ⟨_, by decide, hf⟩
  rcases Option.or_eq_some_iff.mp hf with hf | ⟨_, hf⟩
  · exact ⟨_, by decide, hf⟩
  · exact ⟨_, by decide, hf⟩

theorem findAndReleaseFreePool_spec (h : Inv m live)
    (hf : findAndReleaseFreePool m = some (p, m')) :
    Inv m' live ∧ PageFree m' p ∧ ∀ d, (m.slots d).full = false → (m'.slots d).full = false := by
  obtain ⟨d, _, hd⟩ := findAndReleaseFreePool_para hf
  exact paraFindAndReleaseFreePool_spec h hd

/-- A pool that was just installed hands out a block. -/
theorem getFrom_installPool (c : SizeClass) (page : Nat) (m : KMem) (t : BitVec 32) :
    ∃ a m', getFrom c page { installPool c page m with totalNumPools := t } = (some a, m') := by
  refine getFrom_isSome ?_
  have hpool : KMem.pool { installPool c page m with totalNumPools := t } c page =
      ObjectPool.build c page := by
    show (installPool c page m).pool c page = _
    rw [installPool, KMem.pool_setSlot, KMem.pool_setPool]
  rw [hpool, (build_spec c page).1]
  intro h0
  have hlen := length_elements c page
  have hlt := ourNumElements_lt c
  rw [h0] at hlen
  simp at hlen
  omega

/-- The three ways `paraAllocate` ends: an existing pool had a block; a page (re-dedicated or new)
    became a pool and gave its first block; or there was no memory and nothing happened. -/
theorem paraAllocate_cases (h : Inv m live) {src : PageSupply} (hsup : SupplyFresh m src) :
    (∃ p a m', p ∈ (m.slots c).items ∧ getFrom c p m = (some a, m') ∧
      paraAllocate c src m = (some a, m')) ∨
    (∃ page a m₁ t m', Inv m₁ live ∧ PageFree m₁ page ∧ (m₁.slots c).full = false ∧
      getFrom c page { installPool c page m₁ with totalNumPools := t } = (some a, m') ∧
      paraAllocate c src m = (some a, m')) ∨
    paraAllocate c src m = (none, m) := by
  unfold paraAllocate
  rcases hfirst : (m.slots c).first (getFrom c) m with ⟨r, m'⟩
  cases r with
  | some r =>
    obtain ⟨i, a⟩ := r
    obtain ⟨k, p, hk, _, hget, _⟩ :=
      Stack.firstLoop_some (fun _ _ => getFrom_none) _ _ _ _ _ _ hfirst
    exact Or.inl ⟨p, a, m', List.mem_of_getElem? hk, hget, rfl⟩
  | none =>
    refine Or.inr ?_
    simp only
    by_cases hfull : (m.slots c).full = true
    · rw [if_pos hfull]; exact Or.inr rfl
    rw [if_neg hfull]
    have hroom : (m.slots c).full = false := by simpa using hfull
    rcases hfind : findAndReleaseFreePool m with _ | ⟨page, m₁⟩
    · simp only
      by_cases htot : m.totalNumPools = MaxPoolNumInAllSlots
      · rw [if_pos htot]; exact Or.inr rfl
      rw [if_neg htot]
      split
      · rename_i phys page _ hvirt _
        obtain ⟨a, m', hget⟩ := getFrom_installPool c page m (m.totalNumPools + 1)
        exact Or.inl ⟨page, a, m, _, m', h, hsup page hvirt, hroom, hget, hget⟩
      · exact Or.inr rfl
    · obtain ⟨hinv, hfree, hkeep⟩ := findAndReleaseFreePool_spec h hfind
      obtain ⟨a, m', hget⟩ := getFrom_installPool c page m₁ (installPool c page m₁).totalNumPools
      exact Or.inl ⟨page, a, m₁, _, m', hinv, hfree, hkeep c hroom, hget, hget⟩

/-- **What `allocImpl` does**: it returns a block that was not live, keeping the invariant, or it
    changes nothing. -/
theorem allocImpl_spec (h : Inv m live) {src : PageSupply} (hsup : SupplyFresh m src) (size : Nat) :
    (∃ a m', allocImpl size src m = (some a, m') ∧ Inv m' (⟨a, size⟩ :: live) ∧ a ∉ starts live) ∨
    allocImpl size src m = (none, m) := by
  unfold allocImpl
  rcases hsz : sizeClass size with _ | c
  · exact Or.inr rfl
  simp only
  rcases paraAllocate_cases (c := c) h hsup with ⟨p, a, m', hp, hget, heq⟩ |
    ⟨page, a, m₁, t, m', hinv, hfree, hroom, hget, heq⟩ | heq
  · obtain ⟨hinv', hnl, _⟩ := h.take hp hsz hget
    exact Or.inl ⟨a, m', heq, hinv', hnl⟩
  · obtain ⟨hinst, hmem⟩ := hinv.install hfree hroom
    obtain ⟨hinv', hnl, _⟩ := (hinst.congr_total t).take hmem hsz hget
    exact Or.inl ⟨a, m', heq, hinv', hnl⟩
  · exact Or.inr heq

/-- **A pool with a block left serves a request of its class**, whatever the page allocators
    answer. -/
theorem allocImpl_of_free (h : Inv m live) (src : PageSupply) {size : Nat}
    (hsz : sizeClass size = some c) (hp : p ∈ (m.slots c).items) (hel : IsElement c p a)
    (hnl : a ∉ starts live) :
    ∃ b m', allocImpl size src m = (some b, m') ∧ Inv m' (⟨b, size⟩ :: live) ∧ b ∉ starts live ∧
      m'.slots = m.slots := by
  rcases hfirst : (m.slots c).first (getFrom c) m with ⟨r, m'⟩
  cases r with
  | some r =>
    obtain ⟨i, b⟩ := r
    obtain ⟨k, q, hk, _, hget, _⟩ :=
      Stack.firstLoop_some (fun _ _ => getFrom_none) _ _ _ _ _ _ hfirst
    refine ⟨b, m', ?_, h.take (List.mem_of_getElem? hk) hsz hget⟩
    simp only [allocImpl, hsz, paraAllocate, hfirst]
  | none =>
    -- the pool of `a` has not been asked in vain
    have hnone := (Stack.firstLoop_none (fun _ _ => getFrom_none) _ _ _ _ hfirst).2 p hp
    have hfree : a ∈ (m.pool c p).freeStack.items :=
      ((h.pools c p hp).free.mem_iff a).mpr ⟨hel, hnl⟩
    obtain ⟨b, m'', hget⟩ := getFrom_isSome (List.ne_nil_of_mem hfree)
    rw [hget] at hnone
    cases hnone

/-- A pool of more elements than there are live blocks has one left. -/
theorem exists_free (p : Nat) (live : List Block)
    (hlt : live.length < c.MaxNumElements - c.ourNumElements) :
    ∃ a, IsElement c p a ∧ a ∉ starts live := by
  by_contra hnone
  have hsub : elements c p ⊆ live.map Block.addr := by
    intro a ha
    by_contra hnl
    exact hnone ⟨a, mem_elements.mp ha, fun ⟨b, hb, hba⟩ => hnl (List.mem_map.mpr ⟨b, hb, hba⟩)⟩
  have hle := ((nodup_elements c p).subperm hsub).length_le
  rw [length_elements, List.length_map] at hle
  omega

theorem releaseTo_none (h : (releaseTo c a p m).1 = none) : (releaseTo c a p m).2 = m := by
  unfold releaseTo at h ⊢
  rcases hr : (m.pool c p).release p a with ⟨ok, o⟩
  rw [hr] at h
  cases ok with
  | false => rfl
  | true => cases h

/-- The two ways `paraFree` ends: a pool of the slot accepted the address, or all rejected it and
    nothing changed. -/
theorem paraFree_cases (c : SizeClass) (a : Nat) (m : KMem) :
    (∃ p ∈ (m.slots c).items, ((m.pool c p).release p a).1 = true ∧
      paraFree c a m = (true, m.setPool c p ((m.pool c p).release p a).2)) ∨
    ((∀ p ∈ (m.slots c).items, ((m.pool c p).release p a).1 = false) ∧
      paraFree c a m = (false, m)) := by
  unfold paraFree
  rcases hfirst : (m.slots c).first (releaseTo c a) m with ⟨r, m'⟩
  cases r with
  | some r =>
    obtain ⟨i, u⟩ := r
    obtain ⟨k, p, hk, _, hrel, _⟩ :=
      Stack.firstLoop_some (fun _ _ => releaseTo_none) _ _ _ _ _ _ hfirst
    refine Or.inl ⟨p, List.mem_of_getElem? hk, ?_⟩
    unfold releaseTo at hrel
    rcases hr : (m.pool c p).release p a with ⟨ok, o⟩
    rw [hr] at hrel
    cases ok with
    | false => cases hrel
    | true => cases hrel; exact ⟨rfl, rfl⟩
  | none =>
    obtain ⟨hm, hrej⟩ := Stack.firstLoop_none (fun _ _ => releaseTo_none) _ _ _ _ hfirst
    subst hm
    refine Or.inr ⟨fun p hp => ?_, rfl⟩
    have := hrej p hp
    unfold releaseTo at this
    rcases hr : (m'.pool c p).release p a with ⟨ok, o⟩
    rw [hr] at this
    cases ok with
    | false => rfl
    | true => cases this

theorem tryAll_cases (a : Nat) : ∀ (l : List SizeClass) (m : KMem),
    (∃ c ∈ l, ∃ m', paraFree c a m = (true, m') ∧ freeImpl.tryAll a l m = (true, m')) ∨
    ((∀ c ∈ l, paraFree c a m = (false, m)) ∧ freeImpl.tryAll a l m = (false, m)) := by
  intro l
  induction l with
  | nil => intro m; exact Or.inr ⟨fun c hc => absurd hc List.not_mem_nil, rfl⟩
  | cons c rest ih =>
    intro m
    rcases paraFree_cases c a m with ⟨p, _, _, heq⟩ | ⟨_, heq⟩
    · exact Or.inl ⟨c, List.mem_cons_self, _, heq, by rw [freeImpl.tryAll, heq]⟩
    · rw [freeImpl.tryAll, heq]
      rcases ih m with ⟨d, hd, m', hpar, htry⟩ | ⟨hall, htry⟩
      · exact Or.inl ⟨d, List.mem_cons_of_mem c hd, m', hpar, htry⟩
      · refine Or.inr ⟨fun d hd => ?_, htry⟩
        rcases List.mem_cons.mp hd with rfl | hd
        · exact heq
        · exact hall d hd

theorem mem_allClasses (c : SizeClass) : c ∈ [SizeClass.b16, .b256, .k8, .k256, .m1] := by
  cases c <;> decide

/-- The two ways `freeImpl` ends. -/
theorem freeImpl_cases (a : Nat) (m : KMem) :
    (∃ c, ∃ p ∈ (m.slots c).items, ((m.pool c p).release p a).1 = true ∧
      freeImpl a m = (true, m.setPool c p ((m.pool c p).release p a).2)) ∨
    ((∀ c, ∀ p ∈ (m.slots c).items, ((m.pool c p).release p a).1 = false) ∧
      freeImpl a m = (false, m)) := by
  rcases tryAll_cases a [.b16, .b256, .k8, .k256, .m1] m with ⟨c, _, m', hpar, htry⟩ | ⟨hall, htry⟩
  · rcases paraFree_cases c a m with ⟨p, hp, hacc, heq⟩ | ⟨_, heq⟩
    · rw [hpar] at heq
      obtain ⟨_, rfl⟩ := Prod.mk.inj heq
      exact Or.inl ⟨c, p, hp, hacc, htry⟩
    · rw [hpar] at heq; cases heq
  · refine Or.inr ⟨fun c => ?_, htry⟩
    have hc := hall c (mem_allClasses c)
    rcases paraFree_cases c a m with ⟨p, _, _, heq⟩ | ⟨hrej, _⟩
    · rw [hc] at heq; cases heq
    · exact hrej

/-- A release changes no slot. -/
theorem slots_freeImpl (a : Nat) (m : KMem) : (freeImpl a m).2.slots = m.slots := by
  rcases freeImpl_cases a m with ⟨c, p, _, _, heq⟩ | ⟨_, heq⟩
  · rw [heq]
    exact KMem.slots_setPool m _
  · rw [heq]

/-- A pool that accepts a live address is the pool that owns the block. -/
theorem Inv.accepts_live (h : Inv m live) (hl : a ∈ starts live) (hp : p ∈ (m.slots c).items)
    (hacc : ((m.pool c p).release p a).1 = true) :
    IsElement c p a ∧ ∀ b ∈ live, b.addr = a → sizeClass b.size = some c := by
  have hpage := (toMapIndex_lt_iff c p a).mp ((release_fst _).mp hacc).1
  have key : ∀ b ∈ live, b.addr = a → sizeClass b.size = some c ∧ IsElement c p a := by
    intro b hb hba
    obtain ⟨d, q, hsz, hq, hel⟩ := h.owned b hb
    rw [hba] at hel
    obtain ⟨rfl, rfl⟩ := h.pool_unique hp hq hpage hel.in_page
    exact ⟨hsz, hel⟩
  obtain ⟨b, hb, hba⟩ := hl
  exact ⟨(key b hb hba).2, fun b hb hba => (key b hb hba).1⟩

/-- **`freeImpl(addr)` of a live block succeeds**, and the block is live no longer. -/
theorem freeImpl_live (h : Inv m live) (hl : a ∈ starts live) :
    ∃ m', freeImpl a m = (true, m') ∧ Inv m' (without live a) := by
  rcases freeImpl_cases a m with ⟨c, p, hp, hacc, heq⟩ | ⟨hrej, _⟩
  · exact ⟨_, heq, h.give hp (h.accepts_live hl hp hacc).1 hl⟩
  · obtain ⟨b, hb, rfl⟩ := hl
    obtain ⟨c, p, _, hp, hel⟩ := h.owned b hb
    have := (h.pools c p hp).release_live hel ⟨b, hb, rfl⟩
    rw [hrej c p hp] at this
    exact absurd this (by decide)

/-- `freeImpl(addr, size)` of a live block: accepted when `size` has the block's class, rejected
    otherwise. -/
theorem freeImplSized_live (h : Inv m live) (hl : a ∈ starts live) (size : Nat) :
    (∃ m', freeImplSized a size m = (true, m') ∧ Inv m' (without live a)) ∨
    (freeImplSized a size m = (false, m) ∧ ∀ b ∈ live, b.addr = a →
      sizeClass b.size ≠ sizeClass size) := by
  unfold freeImplSized
  rcases hsz : sizeClass size with _ | c
  · refine Or.inr ⟨rfl, fun b hb _ hc => ?_⟩
    obtain ⟨d, _, hd, _⟩ := h.owned b hb
    rw [hd] at hc; cases hc
  simp only
  rcases paraFree_cases c a m with ⟨p, hp, hacc, heq⟩ | ⟨hrej, heq⟩
  · exact Or.inl ⟨_, heq, h.give hp (h.accepts_live hl hp hacc).1 hl⟩
  · refine Or.inr ⟨heq, fun b hb hba hc => ?_⟩
    obtain ⟨d, p, hd, hp, hel⟩ := h.owned b hb
    rw [hd] at hc
    cases Option.some.inj hc
    rw [hba] at hel
    have := (h.pools c p hp).release_live hel hl
    rw [hrej p hp] at this
    exact absurd this (by decide)

/-- The allocator can still tell that the address is not live: it lies in no pool, or in a block
    whose map bit is up (the block was not handed out since its pool was built). -/
def Unissued (m : KMem) (a : Nat) : Prop :=
  ∀ c, ∀ p ∈ (m.slots c).items, ObjectPool.toMapIndex c p a < c.MaxNumElements →
    (m.pool c p).freeMap.test (ObjectPool.toMapIndex c p a) = true

/-- An address whose bit is up is not taken by its pool, -/
theorem release_of_unissued (h : Unissued m a) (hp : p ∈ (m.slots c).items) :
    ((m.pool c p).release p a).1 = false := by
  cases hr : ((m.pool c p).release p a).1 with
  | false => rfl
  | true =>
    obtain ⟨hidx, hbit⟩ := (release_fst _).mp hr
    rw [h c p hp hidx] at hbit
    exact absurd hbit (by decide)

/-- so `freeImpl` rejects it, -/
theorem freeImpl_unissued (h : Unissued m a) : freeImpl a m = (false, m) := by
  rcases freeImpl_cases a m with ⟨c, p, hp, hacc, _⟩ | ⟨_, heq⟩
  · rw [release_of_unissued h hp] at hacc; exact absurd hacc (by decide)
  · exact heq

/-- with a size too. -/
theorem freeImplSized_unissued (h : Unissued m a) (size : Nat) :
    freeImplSized a size m = (false, m) := by
  unfold freeImplSized
  rcases sizeClass size with _ | c
  · rfl
  rcases paraFree_cases c a m with ⟨p, hp, hacc, _⟩ | ⟨_, heq⟩
  · rw [release_of_unissued h hp] at hacc; exact absurd hacc (by decide)
  · exact heq

/-- Whatever a pool accepts has its map bit down, so an address `freeImpl` rejects is unissued. -/
theorem unissued_of_rejected (h : (freeImpl a m).1 = false) : Unissued m a := by
  intro c p hp hidx
  rcases freeImpl_cases a m with ⟨_, _, _, _, heq⟩ | ⟨hrej, _⟩
  · rw [heq] at h; cases h
  · cases hbit : (m.pool c p).freeMap.test (ObjectPool.toMapIndex c p a) with
    | true => rfl
    | false =>
      have hacc := (release_fst (m.pool c p)).mpr ⟨hidx, hbit⟩
      rw [hrej c p hp] at hacc
      exact absurd hacc (by decide)

end Calls

/-! ## Runs -/

/-- The memory and the blocks its users hold. -/
structure HeapState where
  /-- The slots and the pools, -/
  mem : KMem
  /-- and the blocks handed out. -/
  live : List Block

/-- The calls of the kernel heap. -/
inductive Call
  | alloc (size : Nat) (src : PageSupply)
  | free (addr : Nat)
  | freeSized (addr size : Nat)

namespace HeapState

/-- No pools and no blocks. -/
def init : HeapState := ⟨KMem.init, []⟩

/-- A block taken back is live no longer. -/
def released (s : HeapState) (addr : Nat) : Bool × KMem → HeapState
  | (true, m') => ⟨m', without s.live addr⟩
  | (false, m') => ⟨m', s.live⟩

/-- A call, and what it does to the blocks. -/
def step (s : HeapState) : Call → HeapState
  | .alloc size src =>
    match allocImpl size src s.mem with
    | (some a, m') => ⟨m', ⟨a, size⟩ :: s.live⟩
    | (none, m') => ⟨m', s.live⟩
  | .free a => s.released a (freeImpl a s.mem)
  | .freeSized a size => s.released a (freeImplSized a size s.mem)

/-- Callers that free live blocks only, and with the size the block was allocated with. -/
def WellBehaved (s : HeapState) : Call → Prop
  | .alloc _ src => SupplyFresh s.mem src
  | .free a => a ∈ starts s.live
  | .freeSized a size => ⟨a, size⟩ ∈ s.live

/-- Callers that may also free what the allocator can still recognise as not live. -/
def Careful (s : HeapState) : Call → Prop
  | .alloc _ src => SupplyFresh s.mem src
  | .free a => a ∈ starts s.live ∨ Unissued s.mem a
  | .freeSized a _ => a ∈ starts s.live ∨ Unissued s.mem a

/-- Any callers at all. -/
def Anyhow (s : HeapState) : Call → Prop
  | .alloc _ src => SupplyFresh s.mem src
  | _ => True

/-- The runs from empty slots. -/
abbrev Reached (ok : HeapState → Call → Prop) : HeapState → Prop :=
  Reach (Machine.ofFn init step) ok

/-- Who frees live blocks only is careful. -/
theorem careful_of_wellBehaved (s : HeapState) (a : Call) (h : WellBehaved s a) : Careful s a := by
  cases a with
  | alloc size src => exact h
  | free a => exact Or.inl h
  | freeSized a size => exact Or.inl ⟨_, h, rfl⟩

/-- **One call keeps the invariant**, whatever it is. -/
theorem inv_step {s : HeapState} (h : Inv s.mem s.live) (call : Call) (ok : Careful s call) :
    Inv (s.step call).mem (s.step call).live := by
  cases call with
  | alloc size src =>
    rcases allocImpl_spec h ok size with ⟨a, m', heq, hinv, _⟩ | heq
    · simp only [step, heq]; exact hinv
    · simp only [step, heq]; exact h
  | free a =>
    rcases ok with hl | hu
    · obtain ⟨m', heq, hinv⟩ := freeImpl_live h hl
      simp only [step, released, heq]; exact hinv
    · simp only [step, released, freeImpl_unissued hu]; exact h
  | freeSized a size =>
    rcases ok with hl | hu
    · rcases freeImplSized_live h hl size with ⟨m', heq, hinv⟩ | ⟨heq, _⟩
      · simp only [step, released, heq]; exact hinv
      · simp only [step, released, heq]; exact h
    · simp only [step, released, freeImplSized_unissued hu]; exact h

/-- The invariant holds in every state a careful run reaches. -/
theorem inv_reached {s : HeapState} (hr : Reached Careful s) : Inv s.mem s.live :=
  Reach.ofFn_invariant (I := fun s => Inv s.mem s.live) inv_init
    (fun _ call hi ok => inv_step hi call ok) hr

end HeapState

open HeapState

/-! ## Blocks do not overlap -/

/-- Two byte ranges `[a, a + n)` and `[b, b + k)` share no byte. -/
def Apart (a n b k : Nat) : Prop := a + n ≤ b ∨ b + k ≤ a

/-- The bytes a block occupies: one element of its class. -/
def Block.bytes (b : Block) : Nat := (sizeClass b.size).elim 0 ElementSize

/-- What users of the heap rely on. -/
structure Separated (s : HeapState) : Prop where
  /-- A block is aligned to its class and lies in one pool page, behind the pool's header. -/
  placed : ∀ b ∈ s.live, ∃ c p, sizeClass b.size = some c ∧ b.size ≤ c.ElementSize ∧
    b.addr % c.ElementSize = 0 ∧ p ∈ (s.mem.slots c).items ∧ p % (4 * 1024 * 1024) = 0 ∧
    p + c.sizeofObjectPool ≤ b.addr ∧ b.addr + c.ElementSize ≤ p + 4 * 1024 * 1024
  /-- Live blocks share no byte. -/
  blocks : s.live.Pairwise fun b b' => Apart b.addr b.bytes b'.addr b'.bytes
  /-- No live block overlaps the header of any pool. -/
  headers : ∀ b ∈ s.live, ∀ c, ∀ p ∈ (s.mem.slots c).items,
    Apart b.addr b.bytes p c.sizeofObjectPool

section Separation

variable {m : KMem} {live : List Block} {c d : SizeClass} {p q a a' : Nat}

/-- A pool is aligned for its elements. -/
theorem ElementSize_dvd_pool (c : SizeClass) (h : p % (4 * 1024 * 1024) = 0) :
    p % c.ElementSize = 0 := by
  have hd : c.ElementSize ∣ 4 * 1024 * 1024 := ⟨c.MaxNumElements, (ElementSize_dvd_page c).symm⟩
  exact Nat.mod_eq_zero_of_dvd (Nat.dvd_trans hd (Nat.dvd_of_mod_eq_zero h))

/-- Elements of one pool are apart or the same. -/
theorem IsElement.apart (h : IsElement c p a) (h' : IsElement c p a') (hne : a ≠ a') :
    Apart a c.ElementSize a' c.ElementSize := by
  obtain ⟨i, _, _, rfl⟩ := h
  obtain ⟨j, _, _, rfl⟩ := h'
  have hij : i ≠ j := fun e => hne (by rw [e])
  rcases Nat.lt_or_gt_of_ne hij with hlt | hlt
  · have := Nat.mul_le_mul_left c.ElementSize (Nat.succ_le_of_lt hlt)
    rw [Nat.mul_succ] at this
    exact Or.inl (by omega)
  · have := Nat.mul_le_mul_left c.ElementSize (Nat.succ_le_of_lt hlt)
    rw [Nat.mul_succ] at this
    exact Or.inr (by omega)

/-- Distinct pool pages share no byte. -/
theorem Inv.pages_apart (h : Inv m live) (hp : p ∈ (m.slots c).items) (hq : q ∈ (m.slots d).items)
    (hne : p ≠ q) : p + c.PageSizeOf ≤ q ∨ q + d.PageSizeOf ≤ p := by
  have h1 := (h.pools c p hp).aligned
  have h2 := (h.pools d q hq).aligned
  simp only [PageSizeOf] at *
  omega

/-- **The invariant separates the blocks.** -/
theorem Inv.separated {s : HeapState} (h : Inv s.mem s.live) : Separated s := by
  have hbytes : ∀ b : Block, ∀ c, sizeClass b.size = some c → b.bytes = c.ElementSize := by
    intro b c hc
    rw [Block.bytes, hc]; rfl
  refine ⟨fun b hb => ?_, ?_, fun b hb d q hq => ?_⟩
  · obtain ⟨c, p, hsz, hp, hel⟩ := h.owned b hb
    obtain ⟨hlo, hhi⟩ := hel.bounds
    have hal : p % (4 * 1024 * 1024) = 0 := (h.pools c p hp).aligned
    refine ⟨c, p, hsz, le_ElementSize hsz, ?_, hp, hal, hlo, hhi⟩
    obtain ⟨i, _, _, hi⟩ := hel
    rw [hi, Nat.add_mul_mod_self_left]
    exact ElementSize_dvd_pool c hal
  · have hne : s.live.Pairwise fun b b' => b.addr ≠ b'.addr := List.pairwise_map.mp h.liveNodup
    refine hne.imp_of_mem fun {b b'} hb hb' hbb => ?_
    obtain ⟨c, p, hsz, hp, hel⟩ := h.owned b hb
    obtain ⟨d, q, hsz', hq, hel'⟩ := h.owned b' hb'
    rw [hbytes b c hsz, hbytes b' d hsz']
    by_cases hpq : p = q
    · subst hpq
      cases h.slotsApart c d p hp hq
      exact hel.apart hel' hbb
    · have h1 := hel.bounds
      have h2 := hel'.bounds
      rcases h.pages_apart hp hq hpq with h3 | h3
      · exact Or.inl (by omega)
      · exact Or.inr (by omega)
  · obtain ⟨c, p, hsz, hp, hel⟩ := h.owned b hb
    rw [hbytes b c hsz]
    obtain ⟨hlo, hhi⟩ := hel.bounds
    by_cases hpq : p = q
    · -- the block's own pool: the block lies behind the header
      subst hpq
      cases h.slotsApart c d p hp hq
      exact Or.inr hlo
    · have hle : d.sizeofObjectPool ≤ d.PageSizeOf := by
        have h1 := sizeofObjectPool_le d
        have h2 := Nat.mul_le_mul_left d.ElementSize (Nat.le_of_lt (ourNumElements_lt d))
        rw [ElementSize_dvd_page] at h2
        omega
      rcases h.pages_apart hp hq hpq with h3 | h3
      · exact Or.inl (by omega)
      · exact Or.inr (by omega)

/-- The bytes asked for in different blocks are apart. -/
theorem Inv.blocks_apart (h : Inv m live) {b b' : Block} (hb : b ∈ live) (hb' : b' ∈ live)
    (hne : b.addr ≠ b'.addr) : Apart b.addr b.size b'.addr b'.size := by
  have hsep := Inv.separated (s := ⟨m, live⟩) h
  have hsize : ∀ b ∈ live, b.size ≤ b.bytes := by
    intro b hb
    obtain ⟨c, _, hsz, hle, _⟩ := hsep.placed b hb
    rw [Block.bytes, hsz]
    exact hle
  have hapart : Apart b.addr b.bytes b'.addr b'.bytes := by
    refine List.Pairwise.forall_of_forall_of_flip (R := fun b b' : Block => b.addr ≠ b'.addr →
      Apart b.addr b.bytes b'.addr b'.bytes) (fun x _ hx => absurd rfl hx) ?_ ?_ hb hb' hne
    · apply hsep.blocks.imp
      intro x y hxy _
      exact hxy
    · apply hsep.blocks.imp
      intro x y hxy _
      exact hxy.symm
  have hle := hsize b hb
  have hle' := hsize b' hb'
  unfold Apart at hapart ⊢
  omega

end Separation

/-- **Blocks are aligned, lie behind the header of their pool, and overlap nothing** — after every
    run of callers that free live blocks only. -/
theorem kmalloc_blocks_separated {s : HeapState} (hr : Reached WellBehaved s) : Separated s :=
  (inv_reached (hr.mono careful_of_wellBehaved)).separated

/-- A page for the first pool, and the first allocation. -/
def firstPage : PageSupply := ⟨some 0x800000, some 0xc0000000, true⟩

/-- The first block of a megabyte. -/
def firstAlloc : Call := .alloc (1024 * 1024) firstPage

/-- At the start every page is free. -/
theorem supplyFresh_init : SupplyFresh HeapState.init.mem firstPage := by
  rintro page h
  cases h
  exact ⟨by decide, by decide, fun _ => List.not_mem_nil⟩

/-- A page for a pool of another class. -/
def secondPage : PageSupply := ⟨some 0xc00000, some 0xc0400000, true⟩

/-- A megabyte, 100000 bytes, and another megabyte, for which no page is needed. -/
def threeAllocs : HeapState :=
  ((HeapState.init.step firstAlloc).step (.alloc 100000 secondPage)).step
    (.alloc (1024 * 1024) ⟨none, none, false⟩)

/-- Two blocks of one pool, and one of another. -/
theorem kmalloc_blocks_separated_three :
    threeAllocs.live =
        [⟨0xc0200000, 1024 * 1024⟩, ⟨0xc07c0000, 100000⟩, ⟨0xc0300000, 1024 * 1024⟩] ∧
      Separated threeAllocs := by
  have hsecond : SupplyFresh (HeapState.init.step firstAlloc).mem secondPage := by
    rintro page h
    cases h
    refine ⟨by decide, by decide, fun c => ?_⟩
    cases c <;> decide +kernel
  have hnoPage : SupplyFresh ((HeapState.init.step firstAlloc).step (.alloc 100000 secondPage)).mem
      ⟨none, none, false⟩ := by
    rintro page h
    cases h
  exact ⟨by decide +kernel, kmalloc_blocks_separated
    (.ofFn_step (.ofFn_step (.ofFn_step (.init rfl) supplyFresh_init) hsecond) hnoPage)⟩

/-! ## What a careless `free` is answered

  The bit of an element is up from when its pool is built until it is handed out for the first
  time.  So for an address at which no live block starts, the answer tells only whether the
  element was ever handed out. -/

/-- What the heap promises about addresses that start no live block. -/
structure Defended (s : HeapState) : Prop where
  /-- `freeImpl(addr)` is rejected and changes nothing exactly when the address is unissued. -/
  rejects : ∀ a, a ∉ starts s.live → (freeImpl a s.mem = (false, s.mem) ↔ Unissued s.mem a)
  /-- No address is on a free stack twice. -/
  nodup : ∀ c, ∀ p ∈ (s.mem.slots c).items, (s.mem.pool c p).freeStack.items.Nodup
  /-- No address that is still live is returned. -/
  notLive : ∀ size src a m', SupplyFresh s.mem src → allocImpl size src s.mem = (some a, m') →
    a ∉ starts s.live

/-- **Rejected exactly when unissued**: as long as every address freed starts a live block or is
    unissued, no free stack stores an address twice and no live address is returned; and an address
    that starts no live block is rejected if and only if it is unissued. -/
theorem freeImpl_rejects_iff_unissued {s : HeapState} (hr : Reached Careful s) : Defended s := by
  have h := inv_reached hr
  refine ⟨fun a _ => ⟨fun heq => ?_, freeImpl_unissued⟩, fun c p hp => ?_,
    fun size src a m' hsup heq => ?_⟩
  · exact unissued_of_rejected (by rw [heq])
  · exact (h.pools c p hp).free.nodup
  · rcases allocImpl_spec h hsup size with ⟨b, m₁, heq', _, hnl⟩ | heq'
    · rw [heq] at heq'
      cases heq'
      exact hnl
    · rw [heq] at heq'; cases heq'

/-- One block allocated and freed. -/
theorem freeImpl_rejects_iff_unissued_freed :
    Defended ((HeapState.init.step firstAlloc).step (.free 0xc0300000)) :=
  freeImpl_rejects_iff_unissued
    (.ofFn_step (.ofFn_step (.init rfl) supplyFresh_init)
      (Or.inl ⟨⟨0xc0300000, 1024 * 1024⟩, by decide, rfl⟩))

/-- **A second `free` of the same block is accepted.** -/
theorem freeImpl_accepts_twice :
    ¬ ∀ s, Reached Anyhow s → ∀ a, a ∉ starts s.live → freeImpl a s.mem = (false, s.mem) := by
  intro hall
  have hr : Reached Anyhow ((HeapState.init.step firstAlloc).step (.free 0xc0300000)) :=
    .ofFn_step (.ofFn_step (.init rfl) supplyFresh_init) trivial
  have hlive : ((HeapState.init.step firstAlloc).step (.free 0xc0300000)).live = [] := by decide
  have hrej := hall _ hr 0xc0300000 (by rw [hlive]; rintro ⟨b, hb, _⟩; exact List.not_mem_nil hb)
  have hacc : (freeImpl 0xc0300000
      ((HeapState.init.step firstAlloc).step (.free 0xc0300000)).mem).1 = true := by decide
  rw [hrej] at hacc
  exact absurd hacc (by decide)

/-! ## The two ways to delete -/

/-- **The sized and the unsized `delete` agree** on a live block: the search of all pools ends in
    the pool that the size leads to. -/
theorem freeImplSized_agrees {s : HeapState} (hr : Reached WellBehaved s) {a size : Nat}
    (hb : ⟨a, size⟩ ∈ s.live) :
    (freeImplSized a size s.mem).1 = true ∧ freeImplSized a size s.mem = freeImpl a s.mem := by
  have h := inv_reached (hr.mono careful_of_wellBehaved)
  have hl : a ∈ starts s.live := ⟨_, hb, rfl⟩
  obtain ⟨c, p, hsz, hp, hel⟩ := h.owned _ hb
  have haccepts := (h.pools c p hp).release_live hel hl
  have hsized :
      freeImplSized a size s.mem = (true, s.mem.setPool c p ((s.mem.pool c p).release p a).2) := by
    simp only [freeImplSized, show sizeClass size = some c from hsz]
    rcases paraFree_cases c a s.mem with ⟨q, hq, hacc, heq⟩ | ⟨hrej, _⟩
    · obtain ⟨rfl, _⟩ := h.element_unique hp hq hel (h.accepts_live hl hq hacc).1
      exact heq
    · rw [hrej p hp] at haccepts
      exact absurd haccepts Bool.false_ne_true
  have hunsized :
      freeImpl a s.mem = (true, s.mem.setPool c p ((s.mem.pool c p).release p a).2) := by
    rcases freeImpl_cases a s.mem with ⟨d, q, hq, hacc, heq⟩ | ⟨hrej, _⟩
    · obtain ⟨rfl, rfl⟩ := h.element_unique hp hq hel (h.accepts_live hl hq hacc).1
      exact heq
    · rw [hrej c p hp] at haccepts
      exact absurd haccepts Bool.false_ne_true
  exact ⟨by rw [hsized], hsized.trans hunsized.symm⟩

/-- The megabyte of the first pool. -/
theorem freeImplSized_agrees_first :
    (freeImplSized 0xc0300000 (1024 * 1024) (HeapState.init.step firstAlloc).mem).1 = true ∧
      freeImplSized 0xc0300000 (1024 * 1024) (HeapState.init.step firstAlloc).mem =
        freeImpl 0xc0300000 (HeapState.init.step firstAlloc).mem :=
  freeImplSized_agrees (.ofFn_step (a := firstAlloc) (.init rfl) supplyFresh_init) (by decide)

end TedkOS.KMemory
