/-
  Runs of `sbrk`: one process, from an empty heap on, whatever the sizes it asks for.

  `execute` leaves a process with an empty heap (`setUpChild_emptyHeap`).  From there on every call
  that succeeds leaves size, page count, frames and map in agreement, and every further call comes
  to its end; what it gives back is free, and mapped no more (`sbrk_heap`).

  The invariant is `HeapKept`.  Half of it, `HeapInOrder`, is what the rounds of the loops keep: the
  pages on the map are those of `base` and the heap's, each at its own address and each with a frame
  of its own.  The other half, `HeapAgrees`, is what a call that gets through adds: there are just
  as many pages as the size needs.  A call that fails may leave the size changed without the pages,
  so the runs are of calls that do not.
-/
import TedkOS.Proc.SbrkHeap
import TedkOS.Syscalls.Process

namespace TedkOS.Syscalls

open Checked Palloc PhysPages Proc Runs

/-- The process `pid` has no heap yet; its map is `base`, and the frames there are its own. -/
def EmptyHeap (pid : Pid) (base : List Mapping) (k : Kernel) : Prop :=
  ∃ p, k.table.all_processes pid.toNat = some p ∧ p.heapSize = 0 ∧ p.heapPhysicalPages.items = [] ∧
    HeapInOrder base k.physPages p

/-- Calls of `sbrk` by the process `pid` that do not return `NULL`. -/
def sbrkMachine (pid : Pid) (base : List Mapping) :
    Machine Kernel (BitVec 32 × Option (BitVec 32)) where
  init := EmptyHeap pid base
  step k a k' := ∃ ret, k.sbrk pid a.1 a.2 = .ok (some ret, k')

section Runs

variable {pid : Pid} {base : List Mapping} {k k' : Kernel}

/-- What a run keeps. -/
def HeapKept (pid : Pid) (base : List Mapping) (k : Kernel) : Prop :=
  ∃ p, k.table.all_processes pid.toNat = some p ∧ HeapInOrder base k.physPages p ∧
    HeapAgrees base k.physPages p

/-- No pages, and no size: they agree. -/
theorem EmptyHeap.kept (h : EmptyHeap pid base k) : HeapKept pid base k := by
  obtain ⟨p, hp, hsize, hempty, horder⟩ := h
  have hpages : p.numHeapPages = 0 := by rw [horder.pages, hempty, List.length_nil]
  refine ⟨p, hp, horder, horder.agrees ?_⟩
  rw [hsize, hpages]
  decide

/-- A call that succeeds keeps both halves. -/
theorem HeapKept.step (h : HeapKept pid base k) {a : BitVec 32 × Option (BitVec 32)}
    {ret : BitVec 32} (hs : k.sbrk pid a.1 a.2 = .ok (some ret, k')) : HeapKept pid base k' := by
  obtain ⟨p, hp, horder, -⟩ := h
  obtain ⟨p', hp', hagrees, hresized⟩ := (horder.sbrk hp a.1 a.2).value hs rfl
  exact ⟨p', hp', hresized.order, hagrees⟩

/-- **The heap along calls of `sbrk`.**  After calls that all succeeded there are as many pages as
    the size needs, each with its own frame, and the map has just these for the heap; a further call
    comes to its end, and what it releases is free and mapped no more. -/
theorem sbrk_heap (hr : Reach (sbrkMachine pid base) (fun _ _ => True) k) :
    ∃ p, k.table.all_processes pid.toNat = some p ∧ HeapAgrees base k.physPages p ∧
      ∀ delta vidmap, ∃ ret k', k.sbrk pid delta vidmap = .ok (ret, k') ∧ (ret.isSome = true →
        ∃ p', k'.table.all_processes pid.toNat = some p' ∧ HeapAgrees base k'.physPages p' ∧
          ∀ x ∈ p.heapPhysicalPages.items, x ∉ p'.heapPhysicalPages.items →
            x ∈ freeFrames k'.physPages ∧ ∀ val ∈ p'.memmap.pdStack.items, val.phys.index ≠ x) := by
  have hkept : HeapKept pid base k := by
    refine hr.invariant (I := HeapKept pid base) (fun _ h => EmptyHeap.kept h) ?_
    rintro k a k' h - ⟨ret, hs⟩
    exact h.step hs
  obtain ⟨p, hp, horder, hagrees⟩ := hkept
  refine ⟨p, hp, hagrees, fun delta vidmap => ?_⟩
  obtain ⟨⟨ret, k'⟩, hs, hr'⟩ := (horder.sbrk hp delta vidmap).exists_ok
  refine ⟨ret, k', hs, fun hsome => ?_⟩
  obtain ⟨p', hp', hagrees', hresized⟩ := hr' hsome
  exact ⟨p', hp', hagrees', fun x hx hgone => hresized.released (horder.withSize _) hx hgone⟩

end Runs

/-! ## Where a run begins -/

/-- The map of a program, whose frame has just been taken. -/
theorem heapInOrder_program {o o' : PhysPageManager numPhysPages} {x : Nat} {b : Bool}
    {p : Proc.ProcessDesc} (halloc : o.allocPage b = (some x, o'))
    (hadd : TinyMemMap.new.add code_page_vaddr_base (userPage x) = (true, p.memmap))
    (hheap : p.heapPhysicalPages.items = []) (hpages : p.numHeapPages = 0) :
    HeapInOrder [⟨userPage x, code_page_vaddr_base⟩] o' p := by
  have hn : numPhysPages = 1020 := by decide
  have hheld := ((held_nobody (ι := Unit) o).take halloc (i := ()) (l := [x]) (List.Perm.refl _)).1
  have hx : x < numPhysPages := (hheld.down () x (by
    rw [Function.update_self]
    exact List.mem_singleton_self x)).2
  -- the process owns the one frame, and nobody owns another
  have hframes :
      holdings [⟨userPage x, code_page_vaddr_base⟩] p = Function.update (fun _ => []) () [x] := by
    funext u
    rw [Function.update_self, holdings, hheap, framesOfMap, List.map_singleton,
      index_userPage (by omega)]
    rfl
  obtain ⟨-, hmap⟩ := of_add_eq_true hadd
  have hitems : p.memmap.pdStack.items = [⟨userPage x, code_page_vaddr_base⟩] := by
    rw [hmap]
    exact Stack.items_push _ _ (by decide)
  constructor
  case held =>
    rw [hframes]
    exact hheld
  case map =>
    rw [hitems, hheap]
    rfl
  case used =>
    intro v
    have hlt : code_page_vaddr_base.vidx < 1024 := by decide
    rw [hitems, hmap]
    show ((BitSet.new 1024).set code_page_vaddr_base.vidx).test v = true ↔
      v ∈ [code_page_vaddr_base.vidx]
    rw [BitSet.test_set, List.mem_singleton, BitSet.test_new]
    by_cases hv : v = code_page_vaddr_base.vidx
    · simp [hv, hlt]
    · simp [hv]
  case apart =>
    rw [hitems]
    exact List.nodup_singleton _
  case pages => rw [hpages, hheap, List.length_nil]

/-- A process that `execute` has just set up has an empty heap, and in its map the program. -/
theorem setUpChild_emptyHeap {arg : Option (List (BitVec 8))} {term : Option Nat} {pid : Pid}
    {child : Proc.ProcessDesc} {k : Kernel} (hmap : child.memmap = TinyMemMap.new)
    (hsize : child.heapSize = 0) (hpages : child.numHeapPages = 0)
    (hheap : child.heapPhysicalPages.items = []) (hpid : pid ≠ 256)
    (hdone : (setUpChild arg term pid child k).1 = pid) :
    ∃ x, EmptyHeap pid [⟨userPage x, code_page_vaddr_base⟩]
      (setUpChild arg term pid child k).2 := by
  generalize hs : setUpChild arg term pid child k = r at hdone ⊢
  -- the argument makes no difference to the heap
  have harg : ∀ child' : Proc.ProcessDesc,
      child' = (if arg.isSome then { child with arg } else child) → child'.memmap = TinyMemMap.new ∧
        child'.heapSize = 0 ∧ child'.numHeapPages = 0 ∧ child'.heapPhysicalPages.items = [] := by
    rintro _ rfl
    split
    · exact ⟨hmap, hsize, hpages, hheap⟩
    · exact ⟨hmap, hsize, hpages, hheap⟩
  rw [setUpChild] at hs
  dsimp only at hs
  generalize (if arg.isSome then { child with arg } else child) = child' at harg hs
  obtain ⟨hmap', hsize', hpages', hheap'⟩ := harg child' rfl
  -- without a page, or a place for it, the code would be 256
  cases halloc : k.physPages.allocPage false with
  | mk page o' =>
    cases page with
    | none =>
      rw [halloc] at hs
      exact absurd (hdone.symm.trans (congrArg Prod.fst hs).symm) hpid
    | some x =>
      rw [halloc] at hs
      dsimp only at hs
      rw [hmap'] at hs
      generalize hadd : TinyMemMap.new.add code_page_vaddr_base _ = r at hs
      obtain ⟨added, memmap⟩ := r
      cases added with
      | false => exact absurd (hdone.symm.trans (congrArg Prod.fst hs).symm) hpid
      | true =>
        subst hs
        refine ⟨x, { child' with
          memmap
          heapStartingPageIdx := code_page_vaddr_base.vidx + 2
          currTerm := term }, assign_self _ _ _, hsize', hheap', ?_⟩
        exact heapInOrder_program halloc hadd hheap' hpages'

/-- A kernel with four pages of memory left. -/
def fourPagesLeft : Kernel where
  table := ⟨8, fun _ => none⟩
  rrQueue := []
  wantToSwitchTo := -1
  currentlyRunning := -1
  isFallbackTerm := false
  current := 7
  physPages := [8, 7, 6, 5].foldl PhysPageManager.addFree (.blank _)
  cpu0_memmap := (MemMapManager.construct fun _ => 0).start

/-- A call of process 7, if it succeeds. -/
def sbrkOf7 (delta : BitVec 32) (k : Kernel) : Option Kernel :=
  match k.sbrk 7 delta none with
  | .ok (some _, k') => some k'
  | _ => none

/-- It is a step of the machine. -/
theorem sbrkOf7_ok {delta : BitVec 32} {k k' : Kernel} (h : sbrkOf7 delta k = some k') :
    ∃ ret, k.sbrk 7 delta none = .ok (some ret, k') := by
  unfold sbrkOf7 at h
  split at h
  · next ret k₁ hs => exact ⟨ret, Option.some.inj h ▸ hs⟩
  · cases h

/-- After `execute` the process asks for 9 MB, which are three pages, and gives 5 MB back, which are
    two. -/
theorem sbrk_heap_executed : ∃ (base : List Mapping) (k k' : Kernel) (p p' : Proc.ProcessDesc),
    k.table.all_processes 7 = some p ∧ p.heapPhysicalPages.items = [6, 7, 8] ∧
    HeapAgrees base k.physPages p ∧
    k'.table.all_processes 7 = some p' ∧ p'.heapPhysicalPages.items = [6] ∧
    HeapAgrees base k'.physPages p' ∧
    ∀ x, x = 7 ∨ x = 8 → x ∈ freeFrames k'.physPages ∧
      ∀ val ∈ p'.memmap.pdStack.items, val.phys.index ≠ x := by
  obtain ⟨x, h⟩ := @setUpChild_emptyHeap none (some 0) 7 (Proc.ProcessDesc.new 7 .USER_PROCESS)
    fourPagesLeft rfl rfl rfl rfl (by decide) (by rfl)
  generalize hstart : (setUpChild none (some 0) 7 (Proc.ProcessDesc.new 7 .USER_PROCESS)
    fourPagesLeft).2 = start at h
  have heval : ((sbrkOf7 0x900000 start).bind fun k => (k.table.all_processes 7).bind fun p =>
      (sbrkOf7 (-0x500000) k).bind fun k' => (k'.table.all_processes 7).map fun p' =>
        (p.heapPhysicalPages.items, p'.heapPhysicalPages.items)) = some ([6, 7, 8], [6]) := by
    rw [← hstart]
    decide +kernel
  -- the two states between, as the calls leave them
  obtain ⟨k, hgrown, heval⟩ := Option.bind_eq_some_iff.mp heval
  obtain ⟨p, hp, heval⟩ := Option.bind_eq_some_iff.mp heval
  obtain ⟨k', hshrunk, heval⟩ := Option.bind_eq_some_iff.mp heval
  obtain ⟨p', hp', heval⟩ := Option.map_eq_some_iff.mp heval
  obtain ⟨hitems, hitems'⟩ := Prod.mk.inj heval
  have hr : Reach (sbrkMachine 7 [⟨userPage x, code_page_vaddr_base⟩]) (fun _ _ => True) k :=
    .step (a := (0x900000, none)) (.init h) trivial (sbrkOf7_ok hgrown)
  obtain ⟨q, hq, hagrees, hnext⟩ := sbrk_heap hr
  obtain rfl := Option.some.inj (hp.symm.trans hq)
  obtain ⟨ret, hs⟩ := sbrkOf7_ok hshrunk
  obtain ⟨ret', k'', hs', hsome⟩ := hnext (-0x500000) none
  obtain ⟨rfl, rfl⟩ := Prod.mk.inj (Except.ok.inj (hs.symm.trans hs'))
  obtain ⟨q', hq', hagrees', hreleased⟩ := hsome rfl
  obtain rfl := Option.some.inj (hp'.symm.trans hq')
  refine ⟨_, k, k', p, p', hp, hitems, hagrees, hp', hitems', hagrees', fun x hx => ?_⟩
  rw [hitems, hitems'] at hreleased
  rcases hx with rfl | rfl
  · exact hreleased 7 (by decide) (by decide)
  · exact hreleased 8 (by decide) (by decide)

end TedkOS.Syscalls
