/-
  `totalNumPools` of the kernel heap (klibs/kmalloc.cpp) against the pools in the slots.

  Only an allocation changes the slots, in one of two ways:
  * a page from the page allocators becomes a pool, which is counted;
  * an empty pool leaves its slot, which is counted too (`totalNumPools--`), and comes back into the
    slot of the request (`slot->push(newPool)`), which is not.

  So the counter is right up to the first re-dedication and wrong right after it
  (`countsPools_iff`).
-/
import TedkOS.Klibs.KmallocRuns

namespace TedkOS.KMemory

open SizeClass Runs

/-- The pools in the five slots. -/
def KMem.numPools (m : KMem) : Nat :=
  (m.slots .b16).size + (m.slots .b256).size + (m.slots .k8).size + (m.slots .k256).size +
    (m.slots .m1).size

/-- `totalNumPools` is the number of pools. -/
structure CountsPools (m : KMem) : Prop where
  /-- The counter says how many pools there are in the slots, -/
  counts : m.totalNumPools.toNat = m.numPools
  /-- and has not reached the limit of the source. -/
  bounded : m.totalNumPools.toNat ≤ MaxPoolNumInAllSlots.toNat

/-- A request of class `c` is served by re-dedicating a pool: no pool of its slot has a block left,
    the slot has room, and one of the slots that are searched has a pool of which no block is handed
    out. -/
structure Reuses (m : KMem) (c : SizeClass) : Prop where
  /-- The pools of the slot have nothing left, -/
  exhausted : ∀ p ∈ (m.slots c).items, (m.pool c p).freeStack.empty = true
  /-- the slot has room for one more, -/
  room : (m.slots c).full = false
  /-- and another slot has an empty pool. -/
  idle : ∃ d, d ≠ .m1 ∧ ∃ p ∈ (m.slots d).items, (m.pool d p).empty = true

/-- The call does not re-dedicate a pool. -/
def NeverReuses (s : HeapState) : Call → Prop
  | .alloc size _ => ∀ c, sizeClass size = some c → ¬ Reuses s.mem c
  | _ => True

/-! ## The moves

  Most of them change no slot and do not touch the counter (`SameTotals`).  Two do: a page that
  becomes a pool, and a pool that changes its slot. -/

section Moves

variable {m m' : KMem} {c d : SizeClass} {p a : Nat}

/-- A slot that changes changes the number of pools by as much. -/
theorem numPools_setSlot (m : KMem) (c : SizeClass) (s : Stack Nat MaxPoolNumInSingleSlot) :
    (m.setSlot c s).numPools + (m.slots c).size = m.numPools + s.size := by
  cases c
  all_goals
    simp only [KMem.numPools, KMem.slots_setSlot, KMem.slots_setSlot_ne, ne_eq, reduceCtorEq,
      not_false_eq_true]
    omega

/-- Slots and counter are the same. -/
structure SameTotals (m m' : KMem) : Prop where
  /-- No pool has come or gone, -/
  slots : m'.slots = m.slots
  /-- and the counter is as it was. -/
  total : m'.totalNumPools = m.totalNumPools

/-- So there are as many pools, -/
theorem SameTotals.numPools (h : SameTotals m m') : m'.numPools = m.numPools := by
  rw [KMem.numPools, KMem.numPools, h.slots]

/-- and the counter is right as before. -/
theorem SameTotals.countsPools (h : SameTotals m m') : CountsPools m' ↔ CountsPools m := by
  constructor
  · intro hc
    exact ⟨by rw [← h.total, ← h.numPools]; exact hc.counts, by rw [← h.total]; exact hc.bounded⟩
  · intro hc
    exact ⟨by rw [h.total, h.numPools]; exact hc.counts, by rw [h.total]; exact hc.bounded⟩

/-- Taking a block from a pool does not concern the slots, -/
theorem sameTotals_getFrom (c : SizeClass) (p : Nat) (m : KMem) :
    SameTotals m (getFrom c p m).2 := by
  rw [getFrom]
  split
  · exact ⟨rfl, rfl⟩
  · exact ⟨rfl, rfl⟩

/-- nor does giving one back, -/
theorem sameTotals_freeImpl (a : Nat) (m : KMem) : SameTotals m (freeImpl a m).2 := by
  rcases freeImpl_cases a m with ⟨c, p, _, _, heq⟩ | ⟨_, heq⟩
  · rw [heq]; exact ⟨rfl, rfl⟩
  · rw [heq]; exact ⟨rfl, rfl⟩

/-- with its size or without. -/
theorem sameTotals_freeImplSized (a size : Nat) (m : KMem) :
    SameTotals m (freeImplSized a size m).2 := by
  rw [freeImplSized]
  rcases sizeClass size with _ | c
  · exact ⟨rfl, rfl⟩
  · rcases paraFree_cases c a m with ⟨p, _, _, heq⟩ | ⟨_, heq⟩
    · simp only [heq]; exact ⟨rfl, rfl⟩
    · simp only [heq]; exact ⟨rfl, rfl⟩

/-- A pool that is installed is one pool more, and not counted. -/
theorem installPool_totals (hroom : (m.slots c).full = false) :
    (installPool c p m).numPools = m.numPools + 1 ∧
    (installPool c p m).totalNumPools = m.totalNumPools := by
  refine ⟨?_, rfl⟩
  have hlt : (m.slots c).items.length < MaxPoolNumInSingleSlot := by
    have hb := (m.slots c).bounded
    simp only [Stack.full, beq_eq_false_iff_ne] at hroom
    omega
  have hsize : ((m.slots c).push p).size = (m.slots c).size + 1 := by
    rw [Stack.size, Stack.items_push _ _ hlt, List.length_append, List.length_singleton, Stack.size]
  have hset := numPools_setSlot (m.setPool c p (ObjectPool.build c p)) c ((m.slots c).push p)
  rw [hsize, KMem.slots_setPool] at hset
  have hsame : (m.setPool c p (ObjectPool.build c p)).numPools = m.numPools := rfl
  rw [installPool]
  omega

/-- A pool that is released is one pool less, and counted as one less. -/
theorem paraFindAndReleaseFreePool_totals (hf : paraFindAndReleaseFreePool c m = some (p, m')) :
    m'.numPools + 1 = m.numPools ∧ m'.totalNumPools = m.totalNumPools - 1 := by
  rw [paraFindAndReleaseFreePool] at hf
  split at hf
  · rename_i idx hidx
    obtain ⟨x, hx, _, _⟩ := Stack.firstIdx_some hidx
    have hlt : idx < (m.slots c).items.length := (List.getElem?_eq_some_iff.mp hx).1
    rw [hx] at hf
    cases hf
    refine ⟨?_, rfl⟩
    have hset := numPools_setSlot m c ((m.slots c).drop idx)
    have hsize : ((m.slots c).drop idx).size + 1 = (m.slots c).size := by
      rw [Stack.size, Stack.drop, List.length_eraseIdx, if_pos hlt, Stack.size]
      omega
    show (m.setSlot c ((m.slots c).drop idx)).numPools + 1 = m.numPools
    omega
  · cases hf

/-- A slot has no empty pool exactly if none is found. -/
theorem paraFindAndReleaseFreePool_none_iff :
    paraFindAndReleaseFreePool c m = none ↔ ∀ p ∈ (m.slots c).items,
    (m.pool c p).empty = false := by
  rw [paraFindAndReleaseFreePool]
  split
  · rename_i idx hidx
    obtain ⟨x, hx, hempty, _⟩ := Stack.firstIdx_some hidx
    rw [hx]
    refine ⟨fun h => (by cases h), fun h => ?_⟩
    rw [h x (List.mem_of_getElem? hx)] at hempty
    exact absurd hempty Bool.false_ne_true
  · rename_i hidx
    exact ⟨fun _ => Stack.firstIdx_none hidx, fun _ => rfl⟩

/-- The search of all slots fails exactly if none of the four has an empty pool. -/
theorem findAndReleaseFreePool_none_iff : findAndReleaseFreePool m = none ↔
    ¬ ∃ d, d ≠ .m1 ∧ ∃ p ∈ (m.slots d).items, (m.pool d p).empty = true := by
  simp only [findAndReleaseFreePool, Option.or_eq_none_iff, paraFindAndReleaseFreePool_none_iff]
  constructor
  · rintro ⟨h16, h256, h8, h256k⟩ ⟨d, hd, p, hp, hempty⟩
    have hfalse : (m.pool d p).empty = false := by
      cases d with
      | b16 => exact h16 p hp
      | b256 => exact h256 p hp
      | k8 => exact h8 p hp
      | k256 => exact h256k p hp
      | m1 => exact absurd rfl hd
    rw [hfalse] at hempty
    exact Bool.false_ne_true hempty
  · intro h
    have hall : ∀ d, d ≠ .m1 → ∀ p ∈ (m.slots d).items, (m.pool d p).empty = false :=
      fun d hd p hp =>
      Bool.eq_false_iff.mpr fun hempty => h ⟨d, hd, p, hp, hempty⟩
    exact ⟨hall _ (by decide), hall _ (by decide), hall _ (by decide), hall _ (by decide)⟩

/-- A pool hands out nothing exactly if its free stack is empty. -/
theorem getFrom_none_iff : (getFrom c p m).1 = none ↔ (m.pool c p).freeStack.empty = true := by
  rw [getFrom, ObjectPool.get]
  by_cases hempty : (m.pool c p).freeStack.empty = true
  · rw [if_pos hempty]
    exact ⟨fun _ => hempty, fun _ => rfl⟩
  · rw [if_neg hempty]
    exact ⟨fun h => (by cases h), fun h => absurd h hempty⟩

end Moves

/-! ## One call

  An allocation is one of the moves, depending on which pools have a free element.  A release is
  none: it leaves a pool in its slot when that becomes empty. -/

section Calls

variable {m : KMem} {c : SizeClass}

/-- What an allocation does to slots and counter: nothing; or one pool more, counted, below the
    limit; or, on a re-dedication, as many pools as before, and one less counted. -/
theorem paraAllocate_totals (c : SizeClass) (src : PageSupply) (m : KMem) :
    (¬ Reuses m c ∧ SameTotals m (paraAllocate c src m).2) ∨
    (¬ Reuses m c ∧ m.totalNumPools ≠ MaxPoolNumInAllSlots ∧
      (paraAllocate c src m).2.numPools = m.numPools + 1 ∧
      (paraAllocate c src m).2.totalNumPools = m.totalNumPools + 1) ∨
    (Reuses m c ∧ (paraAllocate c src m).2.numPools = m.numPools ∧
      (paraAllocate c src m).2.totalNumPools = m.totalNumPools - 1) := by
  rw [paraAllocate]
  rcases hfirst : (m.slots c).first (getFrom c) m with ⟨r, m'⟩
  cases r with
  | some r =>
    -- a pool of the slot has a block
    obtain ⟨i, a⟩ := r
    obtain ⟨k, p, hk, _, hget, _⟩ :=
      Stack.firstLoop_some (fun _ _ => getFrom_none) _ _ _ _ _ _ hfirst
    have hsome : (getFrom c p m).1 ≠ none := by rw [hget]; exact Option.some_ne_none a
    refine Or.inl ⟨fun h => hsome ?_, ?_⟩
    · exact getFrom_none_iff.mpr (h.exhausted p (List.mem_of_getElem? hk))
    · have hsame := sameTotals_getFrom c p m
      rw [hget] at hsame
      exact hsame
  | none =>
    obtain ⟨_, hexhausted⟩ := Stack.firstLoop_none (fun _ _ => getFrom_none) _ _ _ _ hfirst
    by_cases hfull : (m.slots c).full = true
    · rw [if_pos hfull]
      exact Or.inl ⟨fun h => Bool.false_ne_true (h.room.symm.trans hfull), ⟨rfl, rfl⟩⟩
    have hroom : (m.slots c).full = false := Bool.eq_false_iff.mpr hfull
    rw [if_neg hfull]
    rcases hfind : findAndReleaseFreePool m with _ | ⟨page, m₁⟩
    · have hnot : ¬ Reuses m c := fun h => findAndReleaseFreePool_none_iff.mp hfind h.idle
      by_cases htot : m.totalNumPools = MaxPoolNumInAllSlots
      · simp only [if_pos htot]
        exact Or.inl ⟨hnot, ⟨rfl, rfl⟩⟩
      simp only [if_neg htot]
      split
      · -- a new page
        rename_i phys page _ _ _
        have hget := sameTotals_getFrom c page
          { installPool c page m with totalNumPools := m.totalNumPools + 1 }
        refine Or.inr (Or.inl ⟨hnot, htot, ?_, hget.total⟩)
        rw [hget.numPools]
        exact (installPool_totals hroom).1
      · exact Or.inl ⟨hnot, ⟨rfl, rfl⟩⟩
    · -- a re-dedicated pool
      have hidle : ∃ d, d ≠ .m1 ∧ ∃ p ∈ (m.slots d).items, (m.pool d p).empty = true := by
        apply Classical.byContradiction
        intro hno
        rw [findAndReleaseFreePool_none_iff.mpr hno] at hfind
        cases hfind
      obtain ⟨d, _, hdrop⟩ := findAndReleaseFreePool_para hfind
      obtain ⟨hnum, htotal⟩ := paraFindAndReleaseFreePool_totals hdrop
      have hkept : (m₁.slots c).full = false := paraFindAndReleaseFreePool_keepsRoom hdrop c hroom
      obtain ⟨hinst, hcount⟩ := installPool_totals (p := page) hkept
      have hget := sameTotals_getFrom c page (installPool c page m₁)
      refine Or.inr
        (Or.inr ⟨⟨fun p hp => getFrom_none_iff.mp (hexhausted p hp), hroom, hidle⟩, ?_, ?_⟩)
      · show (getFrom c page (installPool c page m₁)).2.numPools = m.numPools
        rw [hget.numPools, hinst, hnum]
      · show (getFrom c page (installPool c page m₁)).2.totalNumPools = m.totalNumPools - 1
        rw [hget.total, hcount, htotal]

/-- **One call.**  The counter stays right exactly if no pool is re-dedicated. -/
theorem countsPools_step_iff {s : HeapState} (h : CountsPools s.mem) (call : Call) :
    CountsPools (s.step call).mem ↔ NeverReuses s call := by
  cases call with
  | alloc size src =>
    have hmem : (s.step (.alloc size src)).mem = (allocImpl size src s.mem).2 := by
      rw [HeapState.step]
      split
      · next heq => rw [heq]
      · next heq => rw [heq]
    rw [hmem, NeverReuses, allocImpl]
    rcases hsize : sizeClass size with _ | c
    · exact iff_of_true h fun _ hc => (by cases hc)
    have hiff : (∀ d, some c = some d → ¬ Reuses s.mem d) ↔ ¬ Reuses s.mem c :=
      ⟨fun hall => hall c rfl, fun hnot d hd => Option.some.inj hd ▸ hnot⟩
    rw [hiff]
    have hcount := h.counts
    have hbound := h.bounded
    have hmax : MaxPoolNumInAllSlots.toNat = 30 := rfl
    rcases paraAllocate_totals c src s.mem with ⟨hnot, hsame⟩ | ⟨hnot, hne, hnum, htotal⟩ |
      ⟨hreuse, hnum, htotal⟩
    · exact iff_of_true (hsame.countsPools.mpr h) hnot
    · have hlt : s.mem.totalNumPools.toNat ≠ 30 := fun e => hne (BitVec.eq_of_toNat_eq e)
      refine iff_of_true ⟨?_, ?_⟩ hnot
      · show (paraAllocate c src s.mem).2.totalNumPools.toNat = _
        rw [htotal, hnum]
        bv_omega
      · show (paraAllocate c src s.mem).2.totalNumPools.toNat ≤ _
        rw [htotal]
        bv_omega
    · -- a pool has changed its slot: one less is counted, and as many are there
      refine iff_of_false (fun hc => ?_) (not_not_intro hreuse)
      have hcounts := hc.counts
      have hbounded := hc.bounded
      simp only [htotal, hnum] at hcounts hbounded
      bv_omega
  | free a =>
    have hmem : (s.step (.free a)).mem = (freeImpl a s.mem).2 := by
      rw [HeapState.step]
      rcases freeImpl a s.mem with ⟨_ | _, m'⟩ <;> rfl
    rw [hmem]
    exact iff_of_true ((sameTotals_freeImpl a s.mem).countsPools.mpr h) trivial
  | freeSized a size =>
    have hmem : (s.step (.freeSized a size)).mem = (freeImplSized a size s.mem).2 := by
      rw [HeapState.step]
      rcases freeImplSized a size s.mem with ⟨_ | _, m'⟩ <;> rfl
    rw [hmem]
    exact iff_of_true ((sameTotals_freeImplSized a size s.mem).countsPools.mpr h) trivial

end Calls

/-! ## Runs -/

/-- There is no pool at the start. -/
theorem countsPools_init : CountsPools KMem.init := ⟨rfl, by decide⟩

/-- **The counter is right as long as no pool is re-dedicated**, and wrong right after the first
    time one is. -/
theorem kmalloc_countsPools {s : HeapState} (hr : HeapState.Reached NeverReuses s) :
    CountsPools s.mem ∧ ∀ call, CountsPools (s.step call).mem ↔ NeverReuses s call := by
  have h : CountsPools s.mem :=
    Reach.ofFn_invariant (I := fun s => CountsPools s.mem) countsPools_init
      (fun _ call hi ok => (countsPools_step_iff hi call).mpr ok) hr
  exact ⟨h, countsPools_step_iff h⟩

/-- And none that could change slots. -/
theorem neverReuses_init (call : Call) : NeverReuses HeapState.init call := by
  cases call with
  | alloc size src =>
    rintro c _ ⟨_, _, d, _, p, hp, _⟩
    exact absurd hp List.not_mem_nil
  | free a => trivial
  | freeSized a size => trivial

/-- The first megabyte: one pool. -/
theorem kmalloc_countsPools_first :
    (HeapState.init.step firstAlloc).mem.numPools = 1 ∧
    CountsPools (HeapState.init.step firstAlloc).mem :=
  ⟨by decide, (kmalloc_countsPools (.ofFn_step (.init rfl) (neverReuses_init firstAlloc))).1⟩

/-- A block of 256 KB comes and goes. -/
def comeAndGone : HeapState :=
  (HeapState.init.step (.alloc (256 * 1024) firstPage)).step (.free 0xc03c0000)

/-- **The megabyte that follows gets the pool, and the counter is 0.** -/
theorem kmalloc_miscounts : ¬ ∀ s, HeapState.Reached HeapState.Anyhow s → CountsPools s.mem := by
  intro h
  have hr : HeapState.Reached HeapState.Anyhow
      (comeAndGone.step (.alloc (1024 * 1024) ⟨none, none, false⟩)) :=
    .ofFn_step (.ofFn_step (.ofFn_step (.init rfl) supplyFresh_init) trivial) fun _ hpage => by
      cases hpage
  have hzero : (comeAndGone.step (.alloc (1024 * 1024) ⟨none, none, false⟩)).mem.totalNumPools =
      0 := by decide
  have hone : (comeAndGone.step (.alloc (1024 * 1024) ⟨none, none, false⟩)).mem.numPools = 1 := by
    decide
  have hcounts := (h _ hr).counts
  rw [hzero, hone] at hcounts
  exact absurd hcounts (by decide)

end TedkOS.KMemory
