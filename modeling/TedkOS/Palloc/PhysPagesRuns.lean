/-
  Runs of the physical page allocator.

  A run starts from the constructor and makes `allocPage`, `markPageAsUsed` and `freePage` calls.
  The state remembers which pages are ALLOCATED (returned and not freed) and which were ever MARKED.
  Callers free allocated pages only (`FreesAllocated`).

  Two results, of different strength, about what the two copies of the free set are worth:

  * `physPages_sound_iff` — bitmap and stack agree in every reachable state EXACTLY when the boot
    loader's report is clean.  The operations keep the agreement; the constructor may miss it.
  * `allocPage_avoids` — whether they agree or not, a page that is returned had its bit UP, and this
    alone keeps it apart from pages 0 and 1, from allocated and marked pages, and from the modules
    as far as the module loop covered them.

  The invariant of the first is `InStep`, the agreement together with the range of the allocated
  pages, so that what is given back is a page.  That of the second is `BitsDown`: the bit of a
  reserved, allocated or marked page is down.  It needs no agreement, because `allocPage` looks at
  the bit of what it takes off the stack.
-/
import TedkOS.Lib.Runs
import TedkOS.Palloc.PhysPages

namespace TedkOS.PhysPages

open Runs FreeList PhysPageManager

/-! ## Runs -/

/-- The allocator, the pages handed out, and the pages ever marked. -/
structure PhysState (n : Nat) where
  /-- The two copies of the free set, -/
  mgr : PhysPageManager n
  /-- the pages handed out and not given back, -/
  allocated : List Nat
  /-- and those that were ever marked. -/
  marked : List Nat

/-- The calls of the kernel. -/
inductive PhysCall
  | allocPage (isCommonPage : Bool)
  | markPageAsUsed (pageIndex : Nat)
  | freePage (pageIndex : Nat)

namespace PhysState

variable {n : Nat}

/-- After the constructor. -/
def init (n : Nat) (mbi : MultibootInfo) : PhysState n := ⟨construct mbi, [], []⟩

/-- A call, and what it adds to the record. -/
def step (s : PhysState n) : PhysCall → PhysState n
  | .allocPage b =>
    match s.mgr.allocPage b with
    | (some p, mgr) => { s with mgr, allocated := p :: s.allocated }
    | (none, mgr) => { s with mgr }
  | .markPageAsUsed p => { s with mgr := s.mgr.markPageAsUsed p, marked := p :: s.marked }
  | .freePage p =>
    { s with mgr := s.mgr.freePage p, allocated := s.allocated.filter (· != p) }

/-- Only allocated pages are freed. -/
def FreesAllocated (s : PhysState n) : PhysCall → Prop
  | .freePage p => p ∈ s.allocated
  | _ => True

/-- Only allocated pages are freed, and none that was marked as used. -/
def FreesUnmarked (s : PhysState n) : PhysCall → Prop
  | .freePage p => p ∈ s.allocated ∧ p ∉ s.marked
  | _ => True

/-- The states of a run whose calls are all `ok`. -/
abbrev Reached (n : Nat) (mbi : MultibootInfo) (ok : PhysState n → PhysCall → Prop) :
    PhysState n → Prop :=
  Reach (Machine.ofFn (init n mbi) step) ok

end PhysState

open PhysState

/-! ## What one operation does to the bitmap

  It takes one bit down or sets one; `allocPage` goes on until it comes to a page whose bit is
  up. -/

section Operations

variable {n : Nat} {o o' : PhysPageManager n} {b : Bool} {p : Nat}

/-- **A page that is returned was free**, and is free no longer. -/
theorem allocPage_some (h : o.allocPage b = (some p, o')) :
    o.isPhysAddrFree.test p = true ∧ o'.isPhysAddrFree = o.isPhysAddrFree.clear p := by
  unfold allocPage at h
  split at h
  · cases h
  · rcases hpop : o.freePhysAddr.pop with ⟨top, rest⟩
    rw [hpop] at h
    cases ht : o.isPhysAddrFree.test top with
    | false => simp only [ht] at h; cases h
    | true =>
      simp only [ht] at h
      obtain ⟨hp, rfl⟩ := Prod.mk.inj h
      cases Option.some.inj hp
      exact ⟨ht, rfl⟩

/-- Where no page is returned no bit has changed. -/
theorem allocPage_none (h : o.allocPage b = (none, o')) : o'.isPhysAddrFree = o.isPhysAddrFree := by
  unfold allocPage at h
  split at h
  · cases h; rfl
  · rcases hpop : o.freePhysAddr.pop with ⟨top, rest⟩
    rw [hpop] at h
    cases ht : o.isPhysAddrFree.test top with
    | false =>
      simp only [ht] at h
      obtain ⟨_, rfl⟩ := Prod.mk.inj h
      rfl
    | true => simp only [ht] at h; cases h

/-- Marking takes the bit of its page down, -/
theorem test_markPageAsUsed (i : Nat) :
    (o.markPageAsUsed p).isPhysAddrFree.test i = true ↔
      o.isPhysAddrFree.test i = true ∧ i ≠ p := by
  unfold markPageAsUsed
  split
  · rename_i hp
    refine ⟨fun h => ⟨h, fun e => ?_⟩, And.left⟩
    rw [e, hp] at h
    exact absurd h (by decide)
  · show (o.isPhysAddrFree.clear p).test i = true ↔ _
    rw [BitSet.test_clear]
    by_cases hip : i = p
    · rw [if_pos hip]; simp [hip]
    · rw [if_neg hip]; simp [hip]

/-- and freeing brings up that of its page only. -/
theorem test_freePage {i : Nat} (h : (o.freePage p).isPhysAddrFree.test i = true) :
    o.isPhysAddrFree.test i = true ∨ i = p := by
  unfold freePage at h
  split at h
  · exact Or.inl h
  · have h' : (o.isPhysAddrFree.set p).test i = true := h
    rw [BitSet.test_set] at h'
    by_cases hip : i = p ∧ p < n
    · exact Or.inr hip.1
    · rw [if_neg hip] at h'
      exact Or.inl h'

end Operations

/-! ## Bitmap and stack in step

  What the constructor leaves decides.  From there on an operation changes both copies in the
  same way, so the agreement is kept, and without it at the start it does not hold in the first
  state. -/

section InStep

variable {n : Nat} {o : PhysPageManager n} {p : Nat}

/-- What the two structures promise together. -/
structure Sound (o : PhysPageManager n) : Prop where
  /-- A free page is on the stack exactly once, any other not at all. -/
  once : ∀ i, o.freePhysAddr.items.count i = if o.isPhysAddrFree.test i then 1 else 0
  /-- Every index on the stack is a page. -/
  inRange : ∀ i ∈ o.freePhysAddr.items, i < n
  /-- Nothing is returned only when no page is free. -/
  nothing : ∀ b, (o.allocPage b).1 = none → ∀ i, o.isPhysAddrFree.test i = false

/-- With the two in step, `allocPage` takes a page off both. -/
theorem Consistent.allocPage (h : Consistent o) (b : Bool) :
    (∃ q o', o.allocPage b = (some q, o') ∧ Consistent o') ∨
    (o.allocPage b = (none, o) ∧ ∀ i, o.isPhysAddrFree.test i = false) := by
  cases he : o.freePhysAddr.empty with
  | true =>
    refine Or.inr ⟨by rw [PhysPageManager.allocPage, he]; rfl, fun i => ?_⟩
    have hnil := (Stack.empty_iff _).mp he
    cases hi : o.isPhysAddrFree.test i with
    | false => rfl
    | true =>
      have := (h.mem_iff i).mpr hi
      rw [hnil] at this
      exact absurd this List.not_mem_nil
  | false =>
    have hitems := Stack.items_pop o.freePhysAddr he
    rcases hpop : o.freePhysAddr.pop with ⟨top, rest⟩
    rw [hpop] at hitems
    unfold Consistent at h
    rw [hitems] at h
    obtain ⟨htop, hrest⟩ := h.pop
    have htop' : o.isPhysAddrFree.test top = true := htop
    refine Or.inl ⟨top, { o with
      freePhysAddr := rest
      isPhysAddrFree := o.isPhysAddrFree.clear top
      isCommonPage := if b then o.isCommonPage.set top else o.isCommonPage },
      ?_, Consistent.take hrest⟩
    rw [PhysPageManager.allocPage, he, hpop]
    simp [htop']

/-- Marking takes the page off the stack too, -/
theorem Consistent.markPageAsUsed (h : Consistent o) (p : Nat) :
    Consistent (o.markPageAsUsed p) := by
  unfold PhysPageManager.markPageAsUsed
  split
  · exact h
  · rename_i hp
    have hfree : o.isPhysAddrFree.test p = true := by simpa using hp
    refine Consistent.take ?_
    unfold Stack.dropFirst
    cases hidx : o.freePhysAddr.firstIdx fun q => p == q with
    | none =>
      have := Stack.firstIdx_none hidx p ((h.mem_iff p).mpr hfree)
      exact absurd this (by simp)
    | some i =>
      obtain ⟨q, hq, hpq, _⟩ := Stack.firstIdx_some hidx
      cases (beq_iff_eq.mp hpq : p = q)
      exact (FreeList.Tracks.eraseIdx h hq).2

/-- and freeing puts it there. -/
theorem Consistent.freePage (h : Consistent o) (hp : p < n) : Consistent (o.freePage p) := by
  unfold PhysPageManager.freePage
  cases ht : o.isPhysAddrFree.test p with
  | true => exact h
  | false => exact h.give hp ht

/-- **Sound and in step are the same.** -/
theorem sound_iff_consistent (o : PhysPageManager n) : Sound o ↔ Consistent o := by
  constructor
  · intro h
    refine ⟨List.nodup_iff_count_le_one.mpr fun i => ?_, fun i => ?_⟩
    · rw [h.once i]; split <;> omega
    · rw [← List.count_pos_iff, h.once i, Set.mem_ofPred_eq]
      cases o.isPhysAddrFree.test i <;> simp
  · intro h
    refine ⟨fun i => ?_, fun i hi => BitSet.lt_of_test ((h.mem_iff i).mp hi), fun b hb => ?_⟩
    · rw [h.nodup.count]
      cases hi : o.isPhysAddrFree.test i with
      | true => simp [(h.mem_iff i).mpr hi]
      | false =>
        have : i ∉ o.freePhysAddr.items := fun hc => by
          have := (h.mem_iff i).mp hc
          rw [Set.mem_ofPred_eq, hi] at this
          exact absurd this (by decide)
        simp [this]
    · rcases h.allocPage b with ⟨q, o', heq, _⟩ | ⟨_, hnone⟩
      · rw [heq] at hb; cases hb
      · exact hnone

/-- The two are in step, and allocated pages are pages. -/
def InStep (s : PhysState n) : Prop := Consistent s.mgr ∧ ∀ p ∈ s.allocated, p < n

/-- Every call keeps the two in step. -/
theorem inStep_step {s : PhysState n} (h : InStep s) (call : PhysCall)
    (ok : FreesAllocated s call) :
    InStep (s.step call) := by
  obtain ⟨hc, hal⟩ := h
  cases call with
  | allocPage b =>
    rcases hc.allocPage b with ⟨q, o', heq, hc'⟩ | ⟨heq, _⟩
    · have hq := BitSet.lt_of_test (allocPage_some heq).1
      simp only [PhysState.step, heq]
      refine ⟨hc', fun p hp => ?_⟩
      rcases List.mem_cons.mp hp with rfl | hp
      · exact hq
      · exact hal p hp
    · simp only [PhysState.step, heq]
      exact ⟨hc, hal⟩
  | markPageAsUsed p => exact ⟨hc.markPageAsUsed p, hal⟩
  | freePage p =>
    exact ⟨hc.freePage (hal p ok), fun q hq => hal q (List.mem_of_mem_filter hq)⟩

end InStep

/-- **Bitmap and stack agree in every run exactly for a clean report**: one with a memory map, whose
    usable regions end at the last page, and whose modules lie on none of the pages it makes
    available. -/
theorem physPages_sound_iff (mbi : MultibootInfo) :
    (∀ s, Reached numPhysPages mbi FreesAllocated s → Sound s.mgr) ↔ Clean numPhysPages mbi := by
  have hiff := consistent_construct_iff (n := numPhysPages) (by decide) (by decide) mbi
  constructor
  · intro h
    exact hiff.mp ((sound_iff_consistent _).mp (h _ (.init rfl)))
  · intro h s hr
    have hin : InStep s := Reach.ofFn_invariant (I := InStep)
      ⟨hiff.mpr h, fun _ hp => absurd hp List.not_mem_nil⟩
      (fun _ call hi ok => inStep_step hi call ok) hr
    exact (sound_iff_consistent _).mpr hin.1

/-- Memory from 8 MB to 16 MB, and a module at its start: the usual report. -/
def moduleReport : MultibootInfo where
  flags := 0x40
  mmap := [⟨0x800000, 0, 0x800000, 0, 1⟩]
  mods := [⟨0x800000, 0x801000⟩]

/-- **The module's page is off the bitmap but still on the stack.** -/
theorem physPages_not_sound :
    ¬ ∀ mbi s, Reached numPhysPages mbi FreesAllocated s → Sound s.mgr := by
  intro h
  have hsound := h moduleReport _ (.init rfl)
  have hclean := (consistent_construct_iff (n := numPhysPages) (by decide) (by decide) _).mp
    ((sound_iff_consistent _).mp hsound)
  exact hclean.noModule 2 (by decide) (by decide)

/-! ## The pages that are returned

  A bit that is down stays down until the page is given back, so a page that nobody may have is
  not returned, whatever is on the stack. -/

/-- The byte range of the module reaches into page `p`. -/
def Module.Overlaps (mod : Module) (p : Nat) : Prop :=
  ∃ x, mod.mod_start.toNat ≤ x ∧ x < mod.mod_end.toNat ∧ x / (4 * 1024 * 1024) = p

/-- Every available page a module reaches into is cleared by some module's loop. -/
def ModulesCovered (n : Nat) (mbi : MultibootInfo) : Prop :=
  ∀ mod ∈ mbi.mods, ∀ p, mod.Overlaps p → p < n → p ∈ mbi.available → p ∈ mbi.cleared

/-- **The page the loop misses**: the last one, when the length takes up fewer pages than the range
    reaches into. -/
theorem overlaps_not_mem_pages_iff (mod : Module) (p : Nat) :
    (mod.Overlaps p ∧ p ∉ mod.pages) ↔
      mod.mod_start.toNat < mod.mod_end.toNat ∧ p = (mod.mod_end.toNat - 1) / (4 * 1024 * 1024) ∧
      p = mod.mod_start.toNat / (4 * 1024 * 1024) +
        (mod.mod_end.toNat - mod.mod_start.toNat + (4 * 1024 * 1024 - 1)) / (4 * 1024 * 1024) := by
  constructor
  · rintro ⟨⟨x, hlo, hhi, rfl⟩, hp⟩
    rw [mem_pages (by omega)] at hp
    omega
  · rintro ⟨hlt, hp, hp'⟩
    refine ⟨⟨mod.mod_end.toNat - 1, by omega, by omega, hp.symm⟩, ?_⟩
    rw [mem_pages (by omega)]
    omega

/-- The loop misses nothing of a module that starts at a page. -/
theorem pages_of_aligned {mod : Module} (h : mod.mod_start.toNat % (4 * 1024 * 1024) = 0) {p : Nat}
    (hov : mod.Overlaps p) : p ∈ mod.pages := by
  by_contra hp
  obtain ⟨h1, h2, h3⟩ := (overlaps_not_mem_pages_iff mod p).mp ⟨hov, hp⟩
  omega

/-- Modules that start on a page boundary, where boot loaders put them, are covered. -/
theorem modulesCovered_of_aligned {n : Nat} {mbi : MultibootInfo}
    (h : ∀ mod ∈ mbi.mods, mod.mod_start.toNat % (4 * 1024 * 1024) = 0) : ModulesCovered n mbi :=
  fun mod hmod _ hov _ _ => List.mem_flatMap.mpr ⟨mod, hmod, pages_of_aligned (h mod hmod) hov⟩

/-- What users of the allocator rely on when they are given page `p`. -/
structure Avoids {n : Nat} (mbi : MultibootInfo) (s : PhysState n) (p : Nat) : Prop where
  /-- It is not the page of the null pointer, or the kernel's, -/
  kernel : p ≠ 0 ∧ p ≠ 1
  /-- it is nobody else's, -/
  notAllocated : p ∉ s.allocated
  /-- it was not marked, -/
  notMarked : p ∉ s.marked
  /-- and no module reaches into it. -/
  noModule : ∀ mod ∈ mbi.mods, ¬ mod.Overlaps p

section Avoidance

variable {n : Nat} {mbi : MultibootInfo}

/-- Pages nobody may be given. -/
def Reserved (mbi : MultibootInfo) (p : Nat) : Prop :=
  p = 0 ∨ p = 1 ∨ ∃ mod ∈ mbi.mods, mod.Overlaps p

/-- Reserved, allocated and marked pages have their bit down. -/
structure BitsDown (mbi : MultibootInfo) (s : PhysState n) : Prop where
  /-- The constructor leaves these down, -/
  reserved : ∀ p, Reserved mbi p → s.mgr.isPhysAddrFree.test p = false
  /-- `allocPage` takes the bit of its page down, and never returns a reserved one, -/
  allocated : ∀ p ∈ s.allocated, s.mgr.isPhysAddrFree.test p = false ∧ ¬ Reserved mbi p
  /-- and marking does so too. -/
  marked : ∀ p ∈ s.marked, s.mgr.isPhysAddrFree.test p = false

/-- At the start only reserved pages matter, and the module loop has cleared them. -/
theorem bitsDown_init (h : ModulesCovered n mbi) : BitsDown mbi (PhysState.init n mbi) where
  reserved p hp := by
    cases ht : (PhysState.init n mbi).mgr.isPhysAddrFree.test p with
    | false => rfl
    | true =>
      obtain ⟨hav, hlt, hcl⟩ := (test_construct mbi p).mp ht
      rcases hp with rfl | rfl | ⟨mod, hmod, hov⟩
      · exact absurd rfl (available_ne hav).1
      · exact absurd rfl (available_ne hav).2
      · exact absurd (h mod hmod p hov hlt hav) hcl
  allocated _ hp := absurd hp List.not_mem_nil
  marked _ hp := absurd hp List.not_mem_nil

/-- A page with its bit up may be given away. -/
theorem BitsDown.not_reserved {s : PhysState n} (h : BitsDown mbi s) {p : Nat}
    (hp : s.mgr.isPhysAddrFree.test p = true) : ¬ Reserved mbi p := by
  intro hr
  rw [h.reserved p hr] at hp
  exact absurd hp (by decide)

/-- A page with its bit up is none of those. -/
theorem BitsDown.avoids {s : PhysState n} (h : BitsDown mbi s) {p : Nat}
    (hp : s.mgr.isPhysAddrFree.test p = true) : Avoids mbi s p := by
  have hdown : s.mgr.isPhysAddrFree.test p ≠ false := by rw [hp]; decide
  have hfree := h.not_reserved hp
  exact ⟨⟨fun e => hfree (Or.inl e), fun e => hfree (Or.inr (Or.inl e))⟩,
    fun hc => hdown (h.allocated p hc).1, fun hc => hdown (h.marked p hc),
    fun mod hmod hov => hfree (Or.inr (Or.inr ⟨mod, hmod, hov⟩))⟩

/-! Which bits each operation leaves down. -/

section Down

variable {o : PhysPageManager n} {p q : Nat}

/-- A bit that is down stays down in an `allocPage`, -/
theorem down_allocPage {b : Bool} {o' : PhysPageManager n} (heq : o.allocPage b = (some q, o'))
    (h : o.isPhysAddrFree.test p = false) : o'.isPhysAddrFree.test p = false := by
  rw [(allocPage_some heq).2, BitSet.test_clear]
  split
  · rfl
  · exact h

/-- when a page is marked, -/
theorem down_markPageAsUsed (h : o.isPhysAddrFree.test p = false ∨ p = q) :
    (o.markPageAsUsed q).isPhysAddrFree.test p = false := by
  cases ht : (o.markPageAsUsed q).isPhysAddrFree.test p with
  | false => rfl
  | true =>
    obtain ⟨hup, hne⟩ := (test_markPageAsUsed p).mp ht
    rcases h with h | h
    · rw [h] at hup; exact absurd hup (by decide)
    · exact absurd h hne

/-- and when another page is freed. -/
theorem down_freePage (h : o.isPhysAddrFree.test p = false) (hne : p ≠ q) :
    (o.freePage q).isPhysAddrFree.test p = false := by
  cases ht : (o.freePage q).isPhysAddrFree.test p with
  | false => rfl
  | true =>
    rcases test_freePage ht with hup | heq
    · rw [h] at hup; exact absurd hup (by decide)
    · exact absurd heq hne

end Down

/-- Bits only go down, except for a page that is freed. -/
theorem bitsDown_step {s : PhysState n} (h : BitsDown mbi s) (call : PhysCall)
    (ok : FreesUnmarked s call) : BitsDown mbi (s.step call) := by
  cases call with
  | allocPage b =>
    rcases heq : s.mgr.allocPage b with ⟨_ | q, o'⟩
    · simp only [PhysState.step, heq]
      have hbits := allocPage_none heq
      exact ⟨fun p hp => by rw [hbits]; exact h.reserved p hp,
        fun p hp => by rw [hbits]; exact h.allocated p hp,
        fun p hp => by rw [hbits]; exact h.marked p hp⟩
    · obtain ⟨hq, hbits⟩ := allocPage_some heq
      simp only [PhysState.step, heq]
      refine ⟨fun p hp => down_allocPage heq (h.reserved p hp), fun p hp => ?_,
        fun p hp => down_allocPage heq (h.marked p hp)⟩
      rcases List.mem_cons.mp hp with rfl | hp
      · exact ⟨by rw [hbits]; exact BitSet.test_clear_self _ _, h.not_reserved hq⟩
      · exact ⟨down_allocPage heq (h.allocated p hp).1, (h.allocated p hp).2⟩
  | markPageAsUsed q =>
    refine ⟨fun p hp => down_markPageAsUsed (Or.inl (h.reserved p hp)), fun p hp =>
      ⟨down_markPageAsUsed (Or.inl (h.allocated p hp).1), (h.allocated p hp).2⟩, fun p hp => ?_⟩
    rcases List.mem_cons.mp hp with hp | hp
    · exact down_markPageAsUsed (Or.inr hp)
    · exact down_markPageAsUsed (Or.inl (h.marked p hp))
  | freePage q =>
    -- the page freed was allocated, so it is not reserved, and it is not marked
    obtain ⟨hal, hmk⟩ := ok
    refine ⟨fun p hp => down_freePage (h.reserved p hp) fun e => (h.allocated q hal).2 (e ▸ hp),
      fun p hp => ?_, fun p hp => down_freePage (h.marked p hp) fun e => hmk (e ▸ hp)⟩
    obtain ⟨hp, hpq⟩ := List.mem_filter.mp hp
    have hpq' : p ≠ q := by simpa using hpq
    exact ⟨down_freePage (h.allocated p hp).1 hpq', (h.allocated p hp).2⟩

end Avoidance

/-- **A page that is returned is nobody else's**: not page 0 or 1, not allocated, not marked as
    used, and touched by no module — if the module loop covered the modules and no marked page is
    ever freed. -/
theorem allocPage_avoids {n : Nat} {mbi : MultibootInfo} (hmods : ModulesCovered n mbi)
    {s : PhysState n} (hr : Reached n mbi FreesUnmarked s) {b : Bool} {p : Nat}
    {o' : PhysPageManager n} (ha : s.mgr.allocPage b = (some p, o')) : Avoids mbi s p := by
  have hdown : BitsDown mbi s := Reach.ofFn_invariant (I := BitsDown mbi) (bitsDown_init hmods)
    (fun _ call hi ok => bitsDown_step hi call ok) hr
  exact hdown.avoids (allocPage_some ha).1

/-- A module of one page: the page is cleared, and the next one is returned. -/
theorem allocPage_avoids_moduleReport :
    Avoids moduleReport (PhysState.init numPhysPages moduleReport) 3 := by
  have hcov : ModulesCovered numPhysPages moduleReport :=
    modulesCovered_of_aligned fun mod hmod => by
      cases List.mem_singleton.mp hmod
      decide
  exact allocPage_avoids hcov (.init rfl) (b := false)
    (Prod.ext (by decide : (allocPage false (construct moduleReport)).1 = some 3) rfl)

/-- The same memory, and a module of two half pages' corners. -/
def straddlingReport : MultibootInfo where
  flags := 0x40
  mmap := [⟨0x800000, 0, 0x800000, 0, 1⟩]
  mods := [⟨0xbff000, 0xc01000⟩]

/-- **The last page of a module that starts inside a page is given away.** -/
theorem allocPage_hits_module :
    ¬ ∀ mbi s, Reached numPhysPages mbi FreesAllocated s → ∀ b p o',
      s.mgr.allocPage b = (some p, o') → Avoids mbi s p := by
  intro h
  have hav := h straddlingReport _ (.init rfl) false 3 _
    (Prod.ext (by decide : (allocPage false (construct straddlingReport)).1 = some 3) rfl)
  exact hav.noModule ⟨0xbff000, 0xc01000⟩ (List.mem_singleton.mpr rfl)
    ⟨0xc00000, by decide, by decide, by decide⟩

end TedkOS.PhysPages
