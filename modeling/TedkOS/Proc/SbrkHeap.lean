/-
  The heap of a process, call after call of `sbrk`.

  Four things change together: the size in bytes, the number of pages, the stack of frames, and the
  map of the process.  After a call that succeeds they agree: as many pages as the size needs, one
  frame a page, and the map is what it was before the heap, followed by one mapping a page, in the
  order of the stack (`HeapInOrder`).

  1. **One page** — appending one takes a frame, and the page is vacant in the map; freeing one
     drops the mapping to the top frame, which is the last of the map, since no two mappings are to
     one frame.

  2. **The loops** — the first ends when the heap has room for its size, the second when it has no
     page too many.  Nothing wraps around, since there are fewer frames than pages of the address
     space.

  3. **Runs** — any number of calls that succeed (`sbrk_heap`).  What the loaded map has is checked
     by the code before a page is freed, so it does not matter here.
-/
import TedkOS.Proc.Sbrk

namespace TedkOS.Proc

open Checked Ledger Palloc PhysPages Runs ProcessDesc

/-! ## One page

  What a round does to each of the four: `append` and `dropTop` are the rounds, and the lemmas
  before them say where in the map the page is that comes or goes. -/

/-- The mappings of a heap with these frames, from page `start` on. -/
def heapMappings (start : Nat) (frames : List Nat) : List Mapping :=
  frames.mapIdx fun i x => ⟨userPage x, ⟨BitVec.ofNat 32 (start + i) * SmallestPageSize⟩⟩

/-- The frames of some mappings. -/
def framesOfMap (l : List Mapping) : List Nat := l.map fun val => val.phys.index

/-- The virtual pages of a map. -/
def pagesOfMap (l : List Mapping) : List Nat := l.map fun val => val.virt.vidx

/-- The frames a process holds: those of its heap, and of its map without the heap. -/
def holdings (base : List Mapping) (p : ProcessDesc) : Unit → List Nat := fun _ =>
  p.heapPhysicalPages.items ++ framesOfMap base

/-- The heap of `p` and its map, which is `base` without the heap, and the frames they hold. -/
structure HeapInOrder (base : List Mapping) (o : PhysPageManager numPhysPages) (p : ProcessDesc) :
    Prop where
  /-- No frame of the map is free, or in it twice. -/
  held : Held o (holdings base p)
  /-- The map is `base`, and then a page for each frame of the heap. -/
  map : p.memmap.pdStack.items =
    base ++ heapMappings p.heapStartingPageIdx p.heapPhysicalPages.items
  /-- The pages marked are those of the map, -/
  used : ∀ v, p.memmap.isVirtAddrUsed.test v = true ↔ v ∈ pagesOfMap p.memmap.pdStack.items
  /-- each there once. -/
  apart : (pagesOfMap p.memmap.pdStack.items).Nodup
  /-- The count of pages is that of the frames. -/
  pages : p.numHeapPages = p.heapPhysicalPages.items.length

/-- The heap has grown or shrunk: it is in order, and frames were only taken and given back. -/
structure HeapResized (base : List Mapping) (o : PhysPageManager numPhysPages) (p : ProcessDesc)
    (o' : PhysPageManager numPhysPages) (p' : ProcessDesc) : Prop where
  /-- The heap is in order, -/
  order : HeapInOrder base o' p'
  /-- its frames have been taken and given back one at a time, -/
  moves : Moves (book o (holdings base p)) (book o' (holdings base p'))
  /-- and nothing else of the process has changed. -/
  same : p' = { p with
    memmap := p'.memmap, heapPhysicalPages := p'.heapPhysicalPages, numHeapPages :=
      p'.numHeapPages }

section OnePage

variable {base : List Mapping} {o o' : PhysPageManager numPhysPages} {p p' : ProcessDesc} {x : Nat}
  {frames : List Nat} {start : Nat}

/-- One frame more is one page more at the end. -/
theorem heapMappings_append : heapMappings start (frames ++ [x]) =
    heapMappings start frames ++
      [⟨userPage x, ⟨BitVec.ofNat 32 (start + frames.length) * SmallestPageSize⟩⟩] :=
  List.mapIdx_concat

/-- A mapping of the heap is to one of its frames. -/
theorem index_heapMappings {val : Mapping} (hframes : ∀ x ∈ frames, x < numPhysPages)
    (hval : val ∈ heapMappings start frames) : val.phys.index ∈ frames := by
  have hn : numPhysPages = 1020 := by decide
  obtain ⟨i, hi, rfl⟩ := List.mem_mapIdx.mp hval
  have hmem : frames[i] ∈ frames := List.getElem_mem hi
  show (userPage frames[i]).index ∈ frames
  rw [index_userPage (Nat.lt_trans (hframes _ hmem) (by omega))]
  exact hmem

/-- The comparison of entries does not look at their order. -/
theorem same_comm {a b : PhysAddr} (h : a.same b = true) : b.same a = true := by
  have heq : a.pde &&& PG_NOT_ACCESSED &&& PG_NOT_DIRTY = b.pde &&& PG_NOT_ACCESSED &&&
      PG_NOT_DIRTY :=
    beq_iff_eq.mp h
  exact beq_iff_eq.mpr heq.symm

/-- What `add` has done when it succeeds. -/
theorem of_add_eq_true {t t' : TinyMemMap} {virt : VirtAddr} {phys : PhysAddr}
    (hadd : t.add virt phys = (true, t')) : t.isVirtAddrUsed.test virt.vidx = false ∧
      t' = ⟨t.pdStack.push ⟨phys, virt⟩, t.isVirtAddrUsed.set virt.vidx⟩ := by
  rw [TinyMemMap.add] at hadd
  split at hadd
  · exact absurd (congrArg Prod.fst hadd) Bool.false_ne_true
  · next hvacant => exact ⟨Bool.eq_false_iff.mpr hvacant, (congrArg Prod.snd hadd).symm⟩

/-- One owner: its list is all there is. -/
theorem update_unit {f g : Unit → List Nat} : Function.update f () (g ()) = g := by
  funext u
  exact Function.update_self _ _ _

/-- A heap that is put in place of another, and nothing else. -/
theorem with_heap (memmap : TinyMemMap) (heapPhysicalPages : Stack Nat 1024) (numHeapPages : Nat) :
    ({ p with memmap, heapPhysicalPages, numHeapPages } : ProcessDesc) = { p with
      memmap := ({ p with memmap, heapPhysicalPages, numHeapPages } : ProcessDesc).memmap
      heapPhysicalPages :=
        ({ p with memmap, heapPhysicalPages, numHeapPages } : ProcessDesc).heapPhysicalPages
      numHeapPages :=
        ({ p with memmap, heapPhysicalPages, numHeapPages } : ProcessDesc).numHeapPages } := rfl

/-- Nothing has changed. -/
theorem HeapResized.refl (h : HeapInOrder base o p) : HeapResized base o p o p :=
  ⟨h, Relation.ReflTransGen.refl, rfl⟩

/-- First one, and then the other. -/
theorem HeapResized.trans {o'' : PhysPageManager numPhysPages} {p'' : ProcessDesc}
    (h : HeapResized base o p o' p') (h' : HeapResized base o' p' o'' p'') :
    HeapResized base o p o'' p'' := by
  refine ⟨h'.order, Relation.ReflTransGen.trans h.moves h'.moves, ?_⟩
  rw [h'.same, h.same]

namespace HeapInOrder

/-- A frame of the heap is a frame of the memory, -/
theorem frame_lt (h : HeapInOrder base o p) (hx : x ∈ p.heapPhysicalPages.items) :
    x < numPhysPages :=
  (h.held.down () x (List.mem_append_left _ hx)).2

/-- so there are not more of them than that has, -/
theorem length_le (h : HeapInOrder base o p) :
    p.heapPhysicalPages.items.length + base.length ≤ numPhysPages := by
  have hle := h.held.length_le ()
  rw [holdings, List.length_append, framesOfMap, List.length_map] at hle
  exact hle

/-- and each is there once. -/
theorem nodup (h : HeapInOrder base o p) : (p.heapPhysicalPages.items ++ framesOfMap base).Nodup :=
  h.held.sound.nodup ()

/-- **A page is appended**, at the end of the map. -/
theorem append (h : HeapInOrder base o p) (halloc : o.allocPage true = (some x, o'))
    {memmap : TinyMemMap} (hadd : p.memmap.add p.heapEnd (userPage x) = (true, memmap)) :
    HeapResized base o p o' { p with
      memmap
      heapPhysicalPages := p.heapPhysicalPages.push x
      numHeapPages := (p.numHeapPages + 1) % 65536 } := by
  have hn : numPhysPages = 1020 := by decide
  have hle := h.length_le
  have hpush : (p.heapPhysicalPages.push x).items = p.heapPhysicalPages.items ++ [x] :=
    Stack.items_push _ _ (by omega)
  obtain ⟨hvacant, rfl⟩ := of_add_eq_true hadd
  have hroom : p.memmap.pdStack.items.length < 1024 := by
    rw [h.map, List.length_append, heapMappings, List.length_mapIdx]
    omega
  have hitems : (p.memmap.pdStack.push ⟨userPage x, p.heapEnd⟩).items =
      p.memmap.pdStack.items ++ [⟨userPage x, p.heapEnd⟩] := Stack.items_push _ _ hroom
  have hpages : pagesOfMap (p.memmap.pdStack.items ++ [⟨userPage x, p.heapEnd⟩]) =
      pagesOfMap p.memmap.pdStack.items ++ [p.heapEnd.vidx] := List.map_append
  have hnew : p.heapEnd.vidx ∉ pagesOfMap p.memmap.pdStack.items := fun hmem =>
    absurd ((h.used _).mpr hmem) (by rw [hvacant]; exact Bool.false_ne_true)
  -- fewer pages than frames, so the count does not wrap
  have hmany : (p.numHeapPages + 1) % 65536 = p.numHeapPages + 1 := by
    rw [h.pages]
    omega
  -- the frame goes from the free ones to the process, on top of its stack
  obtain ⟨hheld, hmove⟩ := h.held.take halloc (i := ())
    (l := (p.heapPhysicalPages.push x).items ++ framesOfMap base) (by
    rw [hpush, List.append_assoc]
    exact List.perm_middle)
  rw [update_unit (g := fun _ => (p.heapPhysicalPages.push x).items ++ framesOfMap base)]
    at hheld hmove
  refine ⟨?_, Relation.ReflTransGen.single hmove, rfl⟩
  constructor
  case held => exact hheld
  case map =>
    show (p.memmap.pdStack.push _).items = base ++ heapMappings _ (p.heapPhysicalPages.push x).items
    rw [hitems, hpush, heapMappings_append, h.map, ← h.pages, List.append_assoc]
    rfl
  case used =>
    intro v
    show (p.memmap.isVirtAddrUsed.set p.heapEnd.vidx).test v = true ↔
      v ∈ pagesOfMap (p.memmap.pdStack.push _).items
    rw [hitems, hpages, List.mem_append, List.mem_singleton, BitSet.test_set, ← h.used]
    have hlt : p.heapEnd.vidx < 1024 := vidx_lt _
    by_cases hv : v = p.heapEnd.vidx
    · simp [hv, hlt]
    · simp [hv]
  case apart =>
    show (pagesOfMap (p.memmap.pdStack.push _).items).Nodup
    rw [hitems, hpages]
    exact (List.perm_append_singleton _ _).nodup_iff.mpr (List.nodup_cons.mpr ⟨hnew, h.apart⟩)
  case pages =>
    show (p.numHeapPages + 1) % 65536 = (p.heapPhysicalPages.push x).items.length
    rw [hmany, hpush, List.length_append, List.length_singleton, h.pages]

/-- The top page, as the map and the stack have it. -/
theorem top (h : HeapInOrder base o p) (hpos : 1 ≤ p.numHeapPages) :
    p.heapPhysicalPages.items = p.heapPhysicalPages.pop.2.items ++ [p.heapPhysicalPages.pop.1] ∧
      p.memmap.pdStack.items =
        base ++ heapMappings p.heapStartingPageIdx p.heapPhysicalPages.pop.2.items ++
          [⟨userPage p.heapPhysicalPages.pop.1,
            heapEnd { p with numHeapPages := p.numHeapPages - 1 }⟩] := by
  have hempty : p.heapPhysicalPages.empty = false := by
    rw [Bool.eq_false_iff, Ne, Stack.empty_iff]
    intro hnil
    have hpages := h.pages
    rw [hnil, List.length_nil] at hpages
    omega
  have hitems := Stack.items_pop p.heapPhysicalPages hempty
  have hlen := congrArg List.length hitems
  rw [List.length_append, List.length_singleton, ← h.pages] at hlen
  refine ⟨hitems, ?_⟩
  rw [h.map, congrArg (heapMappings _) hitems, heapMappings_append, List.append_assoc]
  show base ++ (_ ++ [⟨_, ⟨BitVec.ofNat 32 (_ + p.heapPhysicalPages.pop.2.items.length) * _⟩⟩]) = _
  rw [show p.heapPhysicalPages.pop.2.items.length = p.numHeapPages - 1 by omega]
  rfl

/-- What is left when the top is gone. -/
theorem top_length (h : HeapInOrder base o p) (hpos : 1 ≤ p.numHeapPages) :
    p.numHeapPages - 1 = p.heapPhysicalPages.pop.2.items.length := by
  have hlen := congrArg List.length (h.top hpos).1
  rw [List.length_append, List.length_singleton, ← h.pages] at hlen
  omega

/-- The top page comes after the others in the map, and is none of them. -/
theorem top_page (h : HeapInOrder base o p) (hpos : 1 ≤ p.numHeapPages) :
    pagesOfMap p.memmap.pdStack.items =
        pagesOfMap (base ++ heapMappings p.heapStartingPageIdx p.heapPhysicalPages.pop.2.items) ++
          [(heapEnd { p with numHeapPages := p.numHeapPages - 1 }).vidx] ∧
      (pagesOfMap (base ++
        heapMappings p.heapStartingPageIdx p.heapPhysicalPages.pop.2.items)).Nodup ∧
      (heapEnd { p with numHeapPages := p.numHeapPages - 1 }).vidx ∉
        pagesOfMap (base ++
          heapMappings p.heapStartingPageIdx p.heapPhysicalPages.pop.2.items) := by
  obtain ⟨-, hmap⟩ := h.top hpos
  have hapart := h.apart
  rw [hmap] at hapart ⊢
  rw [pagesOfMap, List.map_append] at hapart
  obtain ⟨hgone, hapart'⟩ :=
    List.nodup_cons.mp ((List.perm_append_singleton _ _).nodup_iff.mp hapart)
  exact ⟨List.map_append, hapart', hgone⟩

/-- **The top frame is nowhere else**: no other page is mapped to it, since nobody holds a frame
    twice. -/
theorem top_frame (h : HeapInOrder base o p) (hpos : 1 ≤ p.numHeapPages) {phys : PhysAddr}
    (hsame : phys.same (userPage p.heapPhysicalPages.pop.1) = true) :
    phys.index = p.heapPhysicalPages.pop.1 ∧
      ∀ val ∈ base ++ heapMappings p.heapStartingPageIdx p.heapPhysicalPages.pop.2.items,
        val.phys.same phys = false := by
  have hn : numPhysPages = 1020 := by decide
  have hitems := (h.top hpos).1
  have hlt : ∀ x ∈ p.heapPhysicalPages.pop.2.items ++ [p.heapPhysicalPages.pop.1],
      x < numPhysPages :=
    fun x hx => h.frame_lt (hitems ▸ hx)
  have htop := hlt _ (List.mem_append_right _ (List.mem_singleton_self _))
  have hindex : phys.index = p.heapPhysicalPages.pop.1 := by
    rw [index_of_same hsame, index_userPage (by omega)]
  have hnodup := h.nodup
  rw [hitems, List.append_assoc] at hnodup
  obtain ⟨hout, -⟩ := List.nodup_cons.mp (List.nodup_middle.mp hnodup)
  refine ⟨hindex, fun val hval => Bool.eq_false_iff.mpr fun hsame' => hout ?_⟩
  have hval_index : val.phys.index = p.heapPhysicalPages.pop.1 :=
    (index_of_same hsame').trans hindex
  rcases List.mem_append.mp hval with hbase | hheap
  · refine List.mem_append_right _ ?_
    rw [← hval_index]
    exact List.mem_map_of_mem hbase
  · refine List.mem_append_left _ ?_
    rw [← hval_index]
    exact index_heapMappings (fun x hx => hlt x (List.mem_append_left _ hx)) hheap

/-- **What `remove` leaves** of the map: it searches for the frame, and finds the last mapping. -/
theorem remove_top (h : HeapInOrder base o p) (hpos : 1 ≤ p.numHeapPages) {phys : PhysAddr}
    (hsame : phys.same (userPage p.heapPhysicalPages.pop.1) = true) : ∃ memmap,
    (p.memmap.remove (heapEnd { p with numHeapPages := p.numHeapPages - 1 }) phys).2 = memmap ∧
      memmap.pdStack.items =
        base ++ heapMappings p.heapStartingPageIdx p.heapPhysicalPages.pop.2.items ∧
      memmap.isVirtAddrUsed =
        p.memmap.isVirtAddrUsed.clear
          (heapEnd { p with numHeapPages := p.numHeapPages - 1 }).vidx := by
  obtain ⟨-, hmap⟩ := h.top hpos
  obtain ⟨hpages, -, -⟩ := h.top_page hpos
  generalize heapEnd { p with numHeapPages := p.numHeapPages - 1 } = virt at hmap hpages ⊢
  have hset : p.memmap.isVirtAddrUsed.test virt.vidx = true := by
    rw [h.used, hpages]
    exact List.mem_append_right _ (List.mem_singleton_self _)
  refine ⟨⟨(p.memmap.pdStack.dropFirst fun mapping => mapping.phys.same phys).2,
    p.memmap.isVirtAddrUsed.clear virt.vidx⟩, ?_, ?_, rfl⟩
  · rw [TinyMemMap.remove, if_pos hset]
  · exact Stack.dropFirst_last hmap (same_comm hsame) (h.top_frame hpos hsame).2

/-- **The top page is freed**, if it is the one the loaded map has there. -/
theorem dropTop (h : HeapInOrder base o p) (hpos : 1 ≤ p.numHeapPages) {phys : PhysAddr}
    (hsame : phys.same (userPage p.heapPhysicalPages.pop.1) = true) :
    HeapResized base o p (o.freePage phys.index) { p with
      memmap := (p.memmap.remove (heapEnd { p with numHeapPages := p.numHeapPages - 1 }) phys).2
      heapPhysicalPages := p.heapPhysicalPages.pop.2
      numHeapPages := p.numHeapPages - 1 } := by
  obtain ⟨memmap, hremove, hmap, hused⟩ := h.remove_top hpos hsame
  obtain ⟨hpages, hapart, hgone⟩ := h.top_page hpos
  have hindex := (h.top_frame hpos hsame).1
  have hitems := (h.top hpos).1
  have hlength := h.top_length hpos
  rw [hremove]
  generalize heapEnd { p with numHeapPages := p.numHeapPages - 1 } = virt at hused hpages hgone
  generalize p.heapPhysicalPages.pop = popped at hmap hpages hapart hgone hindex hitems hlength ⊢
  obtain ⟨top, rest⟩ := popped
  dsimp only at hmap hpages hapart hgone hindex hitems hlength ⊢
  -- the frame on top goes back to the free ones
  obtain ⟨hheld, hmove⟩ :=
    h.held.give (i := ()) (x := top) (l := rest.items ++ framesOfMap base) (by
    rw [holdings, hitems, List.append_assoc]
    exact List.perm_middle)
  rw [update_unit (g := fun _ => rest.items ++ framesOfMap base), ← hindex] at hheld hmove
  refine ⟨?_, Relation.ReflTransGen.single hmove, with_heap _ _ _⟩
  constructor
  case held => exact hheld
  case map => exact hmap
  case used =>
    intro v
    dsimp only
    rw [hmap, hused, BitSet.test_clear]
    by_cases hv : v = virt.vidx
    · rw [if_pos hv, hv]
      exact iff_of_false Bool.false_ne_true hgone
    · rw [if_neg hv, h.used, hpages, List.mem_append, List.mem_singleton]
      exact ⟨fun hmem => hmem.resolve_right hv, .inl⟩
  case apart =>
    dsimp only
    rw [hmap]
    exact hapart
  case pages => exact hlength

end HeapInOrder

/-! ## A call

  The rounds are put together by `HeapRule`, and the size that was changed first is the one they
  are counted against. -/

/-- The rounds of both loops resize the heap. -/
theorem HeapResized.rule (base : List Mapping) (o : PhysPageManager numPhysPages)
    (p : ProcessDesc) :
    HeapRule (HeapResized base o p) where
  pages o' p' hr := by
    have hle := hr.order.length_le
    rw [hr.order.pages]
    omega
  append o' p' x o'' memmap hr halloc hadd := hr.trans (hr.order.append halloc hadd)
  dropTop o' p' phys hr hpos hsame := by
    have hn : numPhysPages = 1020 := by decide
    have hle := hr.order.length_le
    have hpages := hr.order.pages
    have hpred : pred16 p'.numHeapPages = p'.numHeapPages - 1 := pred16_eq hpos (by omega)
    rw [hpred]
    exact hr.trans (hr.order.dropTop hpos hsame)

/-- What is true of the heap between two calls. -/
structure HeapAgrees (base : List Mapping) (o : PhysPageManager numPhysPages) (p : ProcessDesc) :
    Prop where
  /-- The size over 4 MB, rounded up. -/
  size : p.numHeapPages = (p.heapSize.toNat + 0x3fffff) / 0x400000
  pages : p.numHeapPages = p.heapPhysicalPages.items.length
  /-- Page `heapStartingPageIdx + i` is mapped to frame `i`, and nothing else is mapped but
      `base`. -/
  map : p.memmap.pdStack.items =
    base ++ heapMappings p.heapStartingPageIdx p.heapPhysicalPages.items
  used : ∀ v, p.memmap.isVirtAddrUsed.test v = true ↔ v ∈ pagesOfMap p.memmap.pdStack.items
  distinct : p.heapPhysicalPages.items.Nodup
  allocated : ∀ x ∈ p.heapPhysicalPages.items, o.isPhysAddrFree.test x = false

/-- A heap in order agrees with its size as soon as there are pages enough, and none too many. -/
theorem HeapInOrder.agrees (h : HeapInOrder base o p)
    (hfits : p.heapSize.toNat ≤ p.numHeapPages * 0x400000 ∧
      p.numHeapPages * 0x400000 < p.heapSize.toNat + 0x400000) : HeapAgrees base o p where
  size := by omega
  pages := h.pages
  map := h.map
  used := h.used
  distinct := (List.nodup_append.mp h.nodup).1
  allocated x hx := (h.held.down () x (List.mem_append_left _ hx)).1

/-- **A frame that is released** is free, and no longer in the map. -/
theorem HeapResized.released (h : HeapInOrder base o p) (hr : HeapResized base o p o' p')
    (hx : x ∈ p.heapPhysicalPages.items) (hgone : x ∉ p'.heapPhysicalPages.items) :
    x ∈ freeFrames o' ∧ ∀ val ∈ p'.memmap.pdStack.items, val.phys.index ≠ x := by
  have hbase : x ∉ framesOfMap base := fun hb => (List.nodup_append.mp h.nodup).2.2 x hx x hb rfl
  have hhas : (book o (holdings base p)).Has x := .inr ⟨(), List.mem_append_left _ hx⟩
  refine ⟨?_, fun val hval hindex => ?_⟩
  · rcases (has_moves hr.moves x).mpr hhas with hfree | ⟨_, howned⟩
    · exact hfree
    · exact absurd howned (fun hmem => (List.mem_append.mp hmem).elim hgone hbase)
  · rw [hr.order.map] at hval
    rcases List.mem_append.mp hval with hb | hheap
    · exact hbase (hindex ▸ List.mem_map_of_mem hb)
    · exact hgone (hindex ▸ index_heapMappings (fun y hy => hr.order.frame_lt hy) hheap)

/-- The size by itself is nothing to the order. -/
theorem HeapInOrder.withSize (h : HeapInOrder base o p) (heapSize : BitVec 32) :
    HeapInOrder base o { p with heapSize } := ⟨h.held, h.map, h.used, h.apart, h.pages⟩

/-- **A call** comes to its end.  When it succeeds, the heap is resized and has as many pages as it
    needs. -/
theorem HeapInOrder.sbrk {k : Kernel} (h : HeapInOrder base k.physPages p) {pid : Pid}
    (hp : k.table.all_processes pid.toNat = some p) (delta : BitVec 32)
    (vidmap : Option (BitVec 32)) :
    Ensures NoFault (k.sbrk pid delta vidmap) fun r => r.1.isSome = true → ∃ p',
      r.2.table.all_processes pid.toNat = some p' ∧ HeapAgrees base r.2.physPages p' ∧
      HeapResized base k.physPages { p with heapSize := p.heapSize + delta } r.2.physPages p' := by
  refine (sbrk_rule (HeapResized.rule base _ _) hp delta (HeapResized.refl (h.withSize _))
    vidmap).mono ?_
  intro r hr hsome
  obtain ⟨p', hchange, hfits, he⟩ := hr hsome
  refine ⟨p', ?_, hchange.order.agrees hfits, hchange⟩
  rw [he]
  exact assign_self _ _ _

end OnePage

end TedkOS.Proc
