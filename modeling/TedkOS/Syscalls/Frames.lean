/-
  The physical frames along runs of the kernel: execute (syscalls/exec.cpp), sbrk (proc/tasks.cpp)
  and halt (proc/sched.cpp), in any order and by any processes.

  A frame belongs to a live process, as the one of its program or on its `heapPhysicalPages`; or to
  the kernel heap, which takes a frame for a pool when it runs out (klibs/kmalloc.cpp) and never
  gives one back; or to nobody.  That is a ledger, and every call is some moves of it.

  1. **The machine** — successful calls, in any order, with the switches that follow them.

  2. **The ledger** — who holds which frame is read off the table (`holders`).  The invariant
     (`FrameInv`): the free frames and those held are a sound book (`Held`), and a user process has
     the page of its program in its map.

  3. **Each call** — most move no frame (`FrameInv.still`); `execute`, `sbrk` and `halt` change the
     frames of one process (`FrameInv.changed`), and the kernel heap those of its own.

  4. **Runs** — by induction the book is sound in every state, and no move changes the number of
     frames, free and held together.

  The destructor of a process looks the frame of the program up in whatever map is loaded.  So the
  guard of a run is that a process calls `halt` or `sbrk` with its own map loaded (`OwnMapLoaded`).
-/
import TedkOS.Proc.Sbrk
import TedkOS.Syscalls.RunQueue
import TedkOS.Syscalls.ExecuteFailure

namespace TedkOS.Syscalls

open Checked Ledger Palloc PhysPages Proc Runs

/-! ## The machine -/

/-- The kernel, and the frames its heap has taken since the boot. -/
structure Memory where
  kernel : Kernel
  poolPages : List Nat

/-- What happens next: a call or an interrupt, `sbrk`, or the kernel heap needs a pool. -/
inductive FrameEvent where
  | call (e : Event) (vidmap : Option (BitVec 32))
  | sbrk (delta : BitVec 32) (vidmap : Option (BitVec 32)) (switchVidmap : Option (BitVec 32))
  | newPool (virtAddr : VirtAddr)

/-- The branch of `paraAllocate` that takes a new page, at the address `virtLast1G` gave. -/
def newPool (virtAddr : VirtAddr) (s : Memory) : Option Memory :=
  match s.kernel.physPages.allocPage true with
  | (none, _) => none
  | (some physAddr, physPages) =>
    match s.kernel.cpu0_memmap.addCommonPage virtAddr
        (PhysAddr.ofIndex (BitVec.ofNat 16 physAddr) PG_WRITABLE) with
    | (true, cpu0_memmap) =>
      some ⟨{ s.kernel with physPages, cpu0_memmap }, physAddr :: s.poolPages⟩
    | (false, _) => none

/-- Runs of successful calls, from any boot that goes through. -/
def frameMachine (fs : FileSystem) : Machine Memory FrameEvent where
  init s := (kernelMachine fs).init s.kernel ∧ s.poolPages = []
  step s a s' :=
    match a with
    | .call e vidmap => e.run fs vidmap s.kernel = .ok s'.kernel ∧ s'.poolPages = s.poolPages
    | .sbrk delta vidmap switchVidmap => s'.poolPages = s.poolPages ∧ ∃ ret k,
        s.kernel.sbrk s.kernel.current delta vidmap = .ok (some ret, k) ∧
        k.schedDispatchExecution switchVidmap = .ok s'.kernel
    | .newPool virtAddr => newPool virtAddr s = some s'

/-- The running process is a user process, and the loaded map has its mappings. -/
def OwnMapLoaded (k : Kernel) : Prop :=
  ∃ p, k.table.all_processes k.current.toNat = some p ∧ p.mainThreadInfo.type = .USER_PROCESS ∧
    ∀ val ∈ p.memmap.pdStack.items, (k.cpu0_memmap.loaded.translate val.virt).same val.phys = true

/-- User processes call `halt` and `sbrk`, with their own map loaded. -/
def OwnMap (s : Memory) : FrameEvent → Prop
  | .call .halt _ => OwnMapLoaded s.kernel
  | .sbrk .. => OwnMapLoaded s.kernel
  | _ => True

/-! ## The ledger

  Nothing in the kernel records who has a frame, so the holders are computed from the process
  table.  A call that leaves the memory of every process as it was keeps the ledger
  (`FrameInv.still`); one that changes a single process changes the holder of that entry
  (`FrameInv.changed`), and the others are carried over by `frames_congr`. -/

/-- The frames of the process in entry `i`. -/
def frames (k : Kernel) (i : Nat) : List Nat := ((k.table.all_processes i).map framesOf).getD []

/-- Who holds which frame: the processes, and the kernel heap. -/
def holders (s : Memory) : Option (Fin MAX_NUM_PROCESS) → List Nat
  | none => s.poolPages
  | some i => frames s.kernel i

/-- The ledger of the frames. -/
def ledger (s : Memory) : Ledger (Option (Fin MAX_NUM_PROCESS)) Nat :=
  book s.kernel.physPages (holders s)

/-- What frames have to do with, of a process. -/
def memoryOf (p : Proc.ProcessDesc) : ProcessType × TinyMemMap × Stack Nat 1024 × Nat × Nat :=
  (p.mainThreadInfo.type, p.memmap, p.heapPhysicalPages, p.heapStartingPageIdx, p.numHeapPages)

/-- What goes along a run. -/
structure FrameInv (s : Memory) : Prop where
  table : TableInv s.kernel.table
  booted : s.kernel.isFallbackTerm = false
  /-- A user process has the one page of its program, and its heap grows behind it. -/
  images : ∀ i p, s.kernel.table.all_processes i = some p → p.mainThreadInfo.type = .USER_PROCESS →
    UserImage p
  /-- Every frame is free or held by one holder, once. -/
  held : Held s.kernel.physPages (holders s)

/-- What a step has done: some moves of the ledger. -/
structure Moved (s s' : Memory) : Prop where
  inv : FrameInv s'
  moves : Moves (ledger s) (ledger s')

section Steps

variable {fs : FileSystem} {s : Memory} {k k' : Kernel} {pools : List Nat} {pid : Pid}
  {p p' : Proc.ProcessDesc}

/-- What frames have to do with decides what the image is. -/
theorem UserImage.congr (hi : UserImage p) (h : memoryOf p = memoryOf p') : UserImage p' := by
  simp only [memoryOf, Prod.mk.injEq] at h
  obtain ⟨-, hmap, hheap, hstart, hpages⟩ := h
  exact ⟨hmap ▸ hi.program, hmap ▸ hi.used,
    hstart ▸ hi.start, by rw [← hpages, ← hheap]; exact hi.pages⟩

/-- The frames of a process in the table. -/
theorem frames_of_entry {i : Nat} (hp : k.table.all_processes i = some p) :
    frames k i = framesOf p := by
  rw [frames, hp]
  rfl

/-- Nobody has none. -/
theorem frames_of_vacant {i : Nat} (hnone : k.table.all_processes i = none) : frames k i = [] := by
  rw [frames, hnone]
  rfl

/-- One entry has changed at most, as far as frames go. -/
def OthersSame (k k' : Kernel) (i : Nat) : Prop := ∀ j, j ≠ i →
  (k.table.all_processes j).map memoryOf = (k'.table.all_processes j).map memoryOf

/-- An entry with the same memory has the same frames. -/
theorem frames_congr {i : Nat}
    (h : (k.table.all_processes i).map memoryOf = (k'.table.all_processes i).map memoryOf) :
    frames k' i = frames k i := by
  have hcomp : ∀ o : Option Proc.ProcessDesc, o.map framesOf = (o.map memoryOf).map
      fun m => m.2.2.1.items.reverse ++ (programPage m.2.1).toList := by
    intro o
    rw [Option.map_map]
    rfl
  unfold frames
  rw [hcomp, hcomp, h]

/-- It has the same image. -/
theorem images_congr {i : Nat}
    (h : (k.table.all_processes i).map memoryOf = (k'.table.all_processes i).map memoryOf)
    (hi : ∀ p, k.table.all_processes i = some p → p.mainThreadInfo.type = .USER_PROCESS →
      UserImage p) :
    ∀ p, k'.table.all_processes i = some p → p.mainThreadInfo.type = .USER_PROCESS →
    UserImage p := by
  intro p' hp' htype
  rw [hp', Option.map_some] at h
  obtain ⟨p, hp, he⟩ := Option.map_eq_some_iff.mp h
  exact UserImage.congr (hi p hp ((congrArg Prod.fst he).trans htype)) he

/-- The record after a change of one entry. -/
theorem holders_update (pools : List Nat) (i : Fin MAX_NUM_PROCESS) (h : OthersSame k k' i) :
    holders ⟨k', pools⟩ = Function.update (holders ⟨k, pools⟩) (some i) (frames k' i) := by
  funext j
  by_cases hj : j = some i
  · subst hj
    rw [Function.update_self]
    rfl
  · rw [Function.update_of_ne hj]
    cases j with
    | none => rfl
    | some j => exact frames_congr (h j fun e => hj (congrArg some (Fin.ext e)))

/-- A step that moves no frame. -/
theorem FrameInv.still (h : FrameInv s) (ht : TableInv k'.table) (hb : k'.isFallbackTerm = false)
    (hphys : k'.physPages = s.kernel.physPages)
    (hsame : ∀ i,
      (s.kernel.table.all_processes i).map memoryOf = (k'.table.all_processes i).map memoryOf) :
    Moved s ⟨k', s.poolPages⟩ := by
  have hholders : holders ⟨k', s.poolPages⟩ = holders s := by
    funext j
    cases j with
    | none => rfl
    | some j => exact frames_congr (hsame j)
  refine ⟨⟨ht, hb, fun i => images_congr (hsame i) (h.images i), ?_⟩, ?_⟩
  · rw [hholders]
    show Held k'.physPages _
    rw [hphys]
    exact h.held
  · unfold ledger
    rw [hholders]
    show Moves _ (book k'.physPages _)
    rw [hphys]

/-- **A step on one process**: its frames are now `l`, and the ledger has moved by what that
    takes. -/
theorem FrameInv.changed (h : FrameInv ⟨k, pools⟩) (i : Fin MAX_NUM_PROCESS) {l : List Nat}
    (ht : TableInv k'.table) (hb : k'.isFallbackTerm = false) (hothers : OthersSame k k' i)
    (hmine : frames k' i = l)
    (himage : ∀ p, k'.table.all_processes i = some p → p.mainThreadInfo.type = .USER_PROCESS →
      UserImage p)
    (hheld : Held k'.physPages (Function.update (holders ⟨k, pools⟩) (some i) l))
    (hmoves : Moves (ledger ⟨k, pools⟩)
      (book k'.physPages (Function.update (holders ⟨k, pools⟩) (some i) l))) :
    Moved ⟨k, pools⟩ ⟨k', pools⟩ := by
  have hholders := holders_update pools i hothers
  rw [hmine] at hholders
  refine ⟨⟨ht, hb, fun j => ?_, ?_⟩, ?_⟩
  · by_cases hj : j = i
    · subst hj
      exact himage
    · exact images_congr (hothers j hj) (h.images j)
  · rw [hholders]
    exact hheld
  · show Moves _ (book k'.physPages (holders ⟨k', pools⟩))
    rw [hholders]
    exact hmoves

/-- Two steps, one after the other. -/
theorem Moved.trans {s' s'' : Memory} (h : Moved s s') (h' : Moved s' s'') : Moved s s'' :=
  ⟨h'.inv, Relation.ReflTransGen.trans h.moves h'.moves⟩

/-- A run state is no matter of frames. -/
theorem sameMemory_inState (hp : k.table.all_processes pid.toNat = some p) (newState : ThreadState)
    (i : Nat) :
    (k.table.all_processes i).map memoryOf =
      ((k.table.assign pid (some (p.inState newState))).all_processes i).map memoryOf := by
  by_cases hi : i = pid.toNat
  · subst hi
    rw [assign_self, hp]
    rfl
  · rw [assign_ne _ _ hi]

/-- Nor is the link to a child. -/
theorem sameMemory_of_sameButChild {o o' : Option Proc.ProcessDesc} (h : SameButChild o o') :
    o.map memoryOf = o'.map memoryOf := (h.view memoryOf fun _ => rfl).symm

/-! ### Each call

  For `execute` and `halt` the moves follow the source: a frame for the program from the free
  ones to the new process; and from the process that ends, its frame and its heap pages to the
  free ones, which is where `OwnMapLoaded` is needed. -/

/-- Blocking and waking a thread move no frame. -/
theorem FrameInv.inState (h : FrameInv ⟨k, pools⟩) (hp : k.table.all_processes pid.toNat = some p)
    (newState : ThreadState) :
    Moved ⟨k, pools⟩ ⟨{ k with table := k.table.assign pid (some (p.inState newState)) },
      pools⟩ := by
  obtain ⟨hinv, -⟩ := h.table.assign (p.inState newState) hp rfl rfl
  exact h.still hinv h.booted rfl fun i => sameMemory_inState hp newState i

/-- A decision moves no frame. -/
theorem FrameInv.decide (h : FrameInv ⟨k, pools⟩) :
    Ensures AnyFault k.makeDecision fun k' => Moved ⟨k, pools⟩ ⟨k', pools⟩ := by
  refine makeDecision_done.mono ?_
  rintro k' (⟨-, rfl⟩ | ⟨q, w, rfl, -, -, -⟩)
  · exact h.still h.table h.booted rfl fun _ => rfl
  · exact h.still h.table h.booted rfl fun _ => rfl

/-- A switch loads another map, and moves no frame. -/
theorem FrameInv.dispatch (h : FrameInv ⟨k, pools⟩) (vidmap : Option (BitVec 32)) :
    Ensures AnyFault (k.schedDispatchExecution vidmap) fun k' => Moved ⟨k, pools⟩ ⟨k', pools⟩ ∧
      k'.physPages = k.physPages ∧ k'.table = k.table := by
  refine (dispatch_done vidmap).mono ?_
  rintro k' (⟨-, rfl⟩ | ⟨desc, -, -, -, rfl⟩)
  · exact ⟨h.still h.table h.booted rfl fun _ => rfl, rfl, rfl⟩
  · exact ⟨h.still h.table h.booted rfl fun _ => rfl, rfl, rfl⟩

/-- A child of `execute` owns one frame. -/
theorem framesOf_startedChild (pid : Pid) (execParent : Option Pid) (arg : Option (List (BitVec 8)))
    (term : Option Nat) {physIdx : Nat} (hx : physIdx < 1024) :
    framesOf (startedChild pid execParent arg term physIdx) = [physIdx] ∧
      UserImage (startedChild pid execParent arg term physIdx) := by
  have hadd : (startedChild pid execParent arg term physIdx).memmap =
      ⟨(Stack.new _ _).push ⟨userPage physIdx, code_page_vaddr_base⟩,
        (BitSet.new _).set code_page_vaddr_base.vidx⟩ := by
    show (TinyMemMap.new.add _ _).2 = _
    unfold TinyMemMap.add
    rw [if_neg (by decide)]
    rfl
  have hprogram :
      programPage (startedChild pid execParent arg term physIdx).memmap = some physIdx := by
    have hitems : ((Stack.new Mapping 1024).push ⟨userPage physIdx, code_page_vaddr_base⟩).items =
        [⟨userPage physIdx, code_page_vaddr_base⟩] := Stack.items_push _ _ (by decide)
    rw [hadd]
    unfold programPage
    rw [hitems, List.find?_singleton, if_pos (by rw [beq_self_eq_true]), Option.map_some,
      index_userPage hx]
  refine ⟨?_, ?_, ?_, rfl, rfl⟩
  · unfold framesOf
    rw [hprogram]
    rfl
  · rw [hprogram]
    rfl
  · rw [hadd]
    show ((BitSet.new 1024).set code_page_vaddr_base.vidx).test code_page_vaddr_base.vidx = true
    decide

/-- **`execute`**: the child takes a frame. -/
theorem FrameInv.executed (h : FrameInv ⟨k, pools⟩) (he : Executed k k') :
    Moved ⟨k, pools⟩ ⟨k', pools⟩ := by
  obtain ⟨new, mid, child, cur, q, w, hstart, hchild, hcur, rfl, -, -, -⟩ := he.step
  obtain ⟨physIdx, execParent, arg, term, halloc, hnew⟩ := hstart.child
  have hsame : mid = { k with table := mid.table, physPages := mid.physPages } := hstart.same
  have hx : physIdx < 1024 :=
    Nat.lt_trans (BitSet.lt_of_test (allocPage_some halloc).1) (by decide)
  obtain ⟨hframes, himage⟩ := framesOf_startedChild new execParent arg term hx
  obtain ⟨hinv, -⟩ := hstart.table.assign (child.inState .Running) hchild rfl rfl
  obtain ⟨hinv', -⟩ := hinv.assign (cur.inState .Waiting) hcur rfl rfl
  -- the run states of the child and of the caller are no matter of frames
  have hstates : ∀ i, (mid.table.all_processes i).map memoryOf =
      (((mid.table.assign new (some (child.inState .Running))).assign k.current
        (some (cur.inState .Waiting))).all_processes i).map memoryOf := fun i =>
    (sameMemory_inState hchild _ i).trans
      (sameMemory_inState (k := { mid with
        table := mid.table.assign new (some (child.inState .Running)) }) hcur _ i)
  have hothers : OthersSame k { mid with
      table := (mid.table.assign new (some (child.inState .Running))).assign k.current
        (some (cur.inState .Waiting))
      rrQueue := q
      wantToSwitchTo := w } new.toNat := fun j hj =>
    (sameMemory_of_sameButChild (hstart.others j hj)).trans (hstates j)
  -- the child has the frame of its image, and nothing else
  have hmine : frames { mid with
      table := (mid.table.assign new (some (child.inState .Running))).assign k.current
        (some (cur.inState .Waiting))
      rrQueue := q
      wantToSwitchTo := w } new.toNat = [physIdx] := by
    refine (frames_congr (k := mid) (hstates new.toNat)).trans ?_
    exact (frames_of_entry hnew).trans hframes
  have hvacant : holders ⟨k, pools⟩ (some ⟨new.toNat, hstart.room⟩) = [] :=
    frames_of_vacant hstart.vacant
  obtain ⟨hheld, hmove⟩ := h.held.take halloc (i := some ⟨new.toNat, hstart.room⟩) (l := [physIdx])
    (by rw [hvacant])
  apply h.changed ⟨new.toNat, hstart.room⟩ hinv' (by rw [hsame]; exact h.booted) hothers
    hmine _ hheld
    (Relation.ReflTransGen.single hmove)
  apply images_congr (hstates new.toNat)
  intro p hp _
  rw [hnew] at hp
  exact Option.some.inj hp ▸ himage

/-- **`halt`**: the process gives back all it has.  The frames of the heap are on its list; that
    of the program the destructor finds in the loaded map, which is its own. -/
theorem FrameInv.halted (h : FrameInv ⟨k, pools⟩) (hown : OwnMapLoaded k) (he : Halted k k') :
    Moved ⟨k, pools⟩ ⟨k', pools⟩ ∧
      freeFrames k'.physPages = freeFrames k.physPages ∪ (frames k k.current.toNat).toFinset ∧
      OthersSame k k' k.current.toNat := by
  obtain ⟨dead, prevInfo, prev, q, q', w, hdead, -, hprev, -, -, rfl, -⟩ := he.step
  obtain ⟨p, hp, htype, hloaded⟩ := hown
  obtain rfl : p = dead := Option.some.inj (hp.symm.trans hdead)
  have himage := h.images k.current.toNat p hp htype
  obtain ⟨hinv, -⟩ := h.table.erase.assign (prev.inState .Running) hprev rfl rfl
  have hfree : k.destroy p = (framesOf p).foldl (fun o x => o.freePage x) k.physPages := by
    obtain ⟨x, hx⟩ := Option.isSome_iff_exists.mp himage.program
    obtain ⟨val, hval, hidx⟩ := Option.map_eq_some_iff.mp hx
    have hvirt : val.virt.vidx = code_page_vaddr_base.vidx := by
      simpa using List.find?_some hval
    -- the loaded map has the frame of the program at the code page
    have hpage : (k.cpu0_memmap.loaded.translate code_page_vaddr_base).index = x := by
      have hsame := hloaded val (List.mem_of_find?_eq_some hval)
      unfold MemMap.translate at hsame ⊢
      rw [← hvirt, index_of_same hsame]
      exact hidx
    unfold Kernel.destroy framesOf
    simp only
    rw [hx, hpage, Option.toList_some, List.foldl_append]
    rfl
  have hlt : k.current.toNat < MAX_NUM_PROCESS := h.table.lt_room hp
  have hframes : frames k k.current.toNat = framesOf p := frames_of_entry hp
  have hne : prevInfo ≠ k.current := by
    rintro rfl
    rw [assign_self] at hprev
    cases hprev
  have hothers : OthersSame k { k with
      physPages := k.destroy p
      table := (k.table.assign k.current none).assign prevInfo (some (prev.inState .Running))
      rrQueue := q'
      wantToSwitchTo := w } k.current.toNat := by
    intro j hj
    refine Eq.trans ?_
      (sameMemory_inState (k := { k with table := k.table.assign k.current none }) hprev _ j)
    show _ = Option.map memoryOf ((k.table.assign k.current none).all_processes j)
    rw [assign_ne _ _ hj]
  -- the entry is empty, as the parent is another process
  have hgone :
      ((k.table.assign k.current none).assign prevInfo (some (prev.inState .Running))).all_processes
      k.current.toNat = none := by
    rw [assign_ne _ _ fun e => hne (BitVec.eq_of_toNat_eq e.symm), assign_self]
  obtain ⟨hheld, hmoves, hset⟩ :=
    h.held.giveAll (i := some ⟨k.current.toNat, hlt⟩) (framesOf p) (l := [])
      (by rw [List.append_nil]; exact hframes)
  rw [← hfree] at hheld hmoves
  refine ⟨h.changed ⟨k.current.toNat, hlt⟩ hinv h.booted hothers (frames_of_vacant hgone) ?_
    hheld hmoves, ?_, hothers⟩
  · intro p' hp'
    change _ = some p' at hp'
    rw [hgone] at hp'
    cases hp'
  · show freeFrames (k.destroy p) = _
    rw [hfree, hframes]
    exact hset

/-- The body of an event. -/
theorem FrameInv.body (h : FrameInv ⟨k, pools⟩) {e : Event} (hown : e = .halt → OwnMapLoaded k) :
    Ensures AnyFault (e.body fs k) fun k' => Moved ⟨k, pools⟩ ⟨k', pools⟩ := by
  have hrefl : Moved ⟨k, pools⟩ ⟨k, pools⟩ := ⟨h, Relation.ReflTransGen.refl⟩
  cases e with
  | execute file =>
    refine Ensures.map ((sysexec_done h.table file).mono ?_)
    rintro r (rfl | he)
    · exact hrefl
    · exact h.executed he
  | halt =>
    refine Ensures.map ((syshalt_done h.table).mono ?_)
    rintro r (rfl | he)
    · exact hrefl
    · exact (h.halted (hown rfl) he).1
  | fork => exact Ensures.map ((fork_done h.booted).mono fun _ hfalse => absurd hfalse id)
  | dotask pid =>
    refine Ensures.map ((dotask_done h.table pid).mono ?_)
    rintro r (⟨-, rfl⟩ | hredo)
    · exact hrefl
    · obtain ⟨p, q, w, hp, he, -, -, -⟩ := hredo.step
      have hmoved := h.inState hp .Running
      show Moved _ ⟨r.2, pools⟩
      rw [he]
      exact hmoved.trans (hmoved.inv.still hmoved.inv.table hmoved.inv.booted rfl fun _ => rfl)
  | sleep =>
    refine Ensures.bind (setRunState_done _) ?_
    rintro k₁ ⟨p, hp, rfl⟩
    have hmoved := h.inState hp .Waiting
    exact hmoved.inv.decide.mono fun k' hk' => hmoved.trans hk'
  | wake pid =>
    refine (setRunState_done _).mono ?_
    rintro k₁ ⟨p, hp, rfl⟩
    exact h.inState hp .Running
  | tick => exact h.decide
  | nestedTick => exact h.decide

/-- An event with the switch that follows. -/
theorem FrameInv.run (h : FrameInv ⟨k, pools⟩) {e : Event} (hown : e = .halt → OwnMapLoaded k)
    (vidmap : Option (BitVec 32)) :
    Ensures AnyFault (e.run fs vidmap k) fun k' => Moved ⟨k, pools⟩ ⟨k', pools⟩ :=
  run_done (h.body hown) (fun _ hk => hk) fun _ hk =>
    (hk.inv.dispatch vidmap).mono fun _ hk' => hk.trans hk'.1

/-- **`sbrk`**: the caller takes frames and gives some back. -/
theorem FrameInv.sbrk (h : FrameInv ⟨k, pools⟩) (hown : OwnMapLoaded k) {delta ret : BitVec 32}
    {vidmap : Option (BitVec 32)} (hok : k.sbrk k.current delta vidmap = .ok (some ret, k')) :
    Moved ⟨k, pools⟩ ⟨k', pools⟩ := by
  obtain ⟨p, hp, htype, -⟩ := hown
  have hlt : k.current.toNat < MAX_NUM_PROCESS := h.table.lt_room hp
  have hframes : holders ⟨k, pools⟩ (some ⟨k.current.toNat, hlt⟩) = framesOf p := frames_of_entry hp
  have hstage : Stage (some ⟨k.current.toNat, hlt⟩) (holders ⟨k, pools⟩) k.physPages p :=
    ⟨h.held, hframes, h.images _ p hp htype⟩
  obtain ⟨p', hsize, he⟩ := (sbrk_done hp hstage delta vidmap).value hok rfl
  change k' = _ at he
  obtain ⟨hinv, -⟩ := h.table.assign p' hp (by rw [hsize.same]) (by rw [hsize.same])
  -- only the entry of the caller is written
  have hothers : OthersSame k k' k.current.toNat := by
    intro j hj
    rw [he]
    show _ = Option.map memoryOf ((k.table.assign k.current (some p')).all_processes j)
    rw [assign_ne _ _ hj]
  have hentry : k'.table.all_processes k.current.toNat = some p' := by
    rw [he]
    exact assign_self k.table k.current _
  apply h.changed ⟨k.current.toNat, hlt⟩ _ _ hothers (frames_of_entry hentry) _ hsize.stage.held
    hsize.moves
  · rw [he]
    exact hinv
  · rw [he]
    exact h.booted
  · intro p₁ hp₁ _
    rw [hentry] at hp₁
    exact Option.some.inj hp₁ ▸ hsize.stage.image

/-- **The kernel heap** takes a frame. -/
theorem FrameInv.newPool {s' : Memory} (h : FrameInv s) {virtAddr : VirtAddr}
    (hnew : newPool virtAddr s = some s') : Moved s s' := by
  unfold Syscalls.newPool at hnew
  cases halloc : s.kernel.physPages.allocPage true with
  | mk page physPages =>
    rw [halloc] at hnew
    cases page with
    | none => cases hnew
    | some physAddr =>
      simp only at hnew
      split at hnew
      · next cpu0_memmap _ =>
        obtain rfl := Option.some.inj hnew
        obtain ⟨hheld, hmove⟩ := h.held.take halloc (i := none) (l := physAddr :: s.poolPages)
          (List.Perm.refl _)
        have hholders :
            holders ⟨{ s.kernel with physPages, cpu0_memmap }, physAddr :: s.poolPages⟩ =
            Function.update (holders s) none (physAddr :: s.poolPages) := by
          funext j
          cases j with
          | none => exact (Function.update_self none (physAddr :: s.poolPages) (holders s)).symm
          | some j =>
            have hne : (some j : Option (Fin MAX_NUM_PROCESS)) ≠ none := by simp
            exact (Function.update_of_ne hne (physAddr :: s.poolPages) (holders s)).symm
        refine ⟨⟨h.table, h.booted, h.images, ?_⟩, ?_⟩
        · rw [hholders]
          exact hheld
        · unfold ledger
          rw [hholders]
          exact Relation.ReflTransGen.single hmove
      · cases hnew

/-- **One step** moves frames between their holders and the free ones. -/
theorem FrameInv.step {s' : Memory} (h : FrameInv s) {a : FrameEvent} (hok : OwnMap s a)
    (hstep : (frameMachine fs).step s a s') : Moved s s' := by
  obtain ⟨k, pools⟩ := s
  obtain ⟨k', pools'⟩ := s'
  cases a with
  | call e vidmap =>
    obtain ⟨hrun, hpools⟩ := hstep
    obtain rfl : pools' = pools := hpools
    exact (h.run (fun he => by subst he; exact hok) vidmap).value hrun
  | sbrk delta vidmap switchVidmap =>
    obtain ⟨hpools, ret, k₁, hsbrk, hswitch⟩ := hstep
    obtain rfl : pools' = pools := hpools
    have hmoved := h.sbrk hok hsbrk
    exact hmoved.trans ((hmoved.inv.dispatch switchVidmap).value hswitch).1
  | newPool virtAddr => exact h.newPool hstep

end Steps

/-! ## Runs -/

section Runs

variable {fs : FileSystem} {s : Memory}

/-- After the boot nobody holds a frame. -/
theorem frameInv_init (h : (frameMachine fs).init s) : FrameInv s := by
  obtain ⟨⟨physPages, cpu0_memmap, hboot⟩, hpools⟩ := h
  have hbooted := (boot_done physPages cpu0_memmap).value hboot
  have hnobody : holders s = fun _ => [] := by
    funext j
    cases j with
    | none => exact hpools
    | some j =>
      show frames s.kernel j = []
      unfold frames
      cases hp : s.kernel.table.all_processes j with
      | none => rfl
      | some p =>
        obtain ⟨pid, execParent, currTerm, he⟩ := hbooted.threads j p hp
        exact congrArg framesOf he
  refine ⟨hbooted.table, hbooted.live.booted, fun i p hp htype => ?_, ?_⟩
  · obtain ⟨pid, execParent, currTerm, he⟩ := hbooted.threads i p hp
    have hkernel : (forgetChild p).mainThreadInfo.type = .KERNEL_PROCESS := by
      rw [he]
      rfl
    change p.mainThreadInfo.type = _ at hkernel
    rw [hkernel] at htype
    cases htype
  · rw [hnobody]
    exact held_nobody _

/-- **Every run** keeps the book. -/
theorem frameInv_of_reach (hr : Reach (frameMachine fs) OwnMap s) : FrameInv s :=
  hr.invariant (fun _ h => frameInv_init h) fun _ _ _ h hok hstep => (h.step hok hstep).inv

/-- **The number of frames is conserved** from any point of a run on. -/
theorem count_of_reach (h : FrameInv s) {s' : Memory}
    (hr : Reach ((frameMachine fs).startedIn s) OwnMap s') :
    FrameInv s' ∧ (ledger s').count = (ledger s).count := by
  refine hr.invariant (I := fun s' => FrameInv s' ∧ (ledger s').count = (ledger s).count) ?_ ?_
  · rintro s' rfl
    exact ⟨h, rfl⟩
  · rintro s₁ a s₂ ⟨h₁, hcount⟩ hok hstep
    have hmoved := h₁.step hok hstep
    exact ⟨hmoved.inv, (h₁.held.sound.count_moves hmoved.moves).trans hcount⟩

/-- The frames of live processes are pairwise distinct, and none can be handed out; a user process
    has one for its program. -/
structure FramesApart (k : Kernel) : Prop where
  program : ∀ i p, k.table.all_processes i = some p → p.mainThreadInfo.type = .USER_PROCESS →
    ∃ x, programPage p.memmap = some x ∧ frames k i = p.heapPhysicalPages.items.reverse ++ [x]
  nodup : ∀ i, (frames k i).Nodup
  apart : ∀ i j x, x ∈ frames k i → x ∈ frames k j → i = j
  notFree : ∀ i x, x ∈ frames k i → x ∉ freeFrames k.physPages

/-- A halt that ends the caller frees its frames, exactly, and no other process has more or less. -/
def HaltFreesOwn (fs : FileSystem) (s : Memory) : Prop :=
  ∀ vidmap s', OwnMap s (.call .halt vidmap) → (frameMachine fs).step s (.call .halt vidmap) s' →
    s'.kernel.table.all_processes s.kernel.current.toNat = none →
      freeFrames s'.kernel.physPages =
        freeFrames s.kernel.physPages ∪ (frames s.kernel s.kernel.current.toNat).toFinset ∧
      ∀ i, i ≠ s.kernel.current.toNat → frames s'.kernel i = frames s.kernel i

/-- From before a process was created until it is gone: as many frames are free, if the others hold
    as many as before. -/
def FreeAsBefore (fs : FileSystem) (s : Memory) : Prop :=
  ∀ s', Reach ((frameMachine fs).startedIn s) OwnMap s' → ∀ i : Nat,
    s.kernel.table.all_processes i = none → s'.kernel.table.all_processes i = none →
    (∀ j, j ≠ i → (frames s'.kernel j).length = (frames s.kernel j).length) →
    s'.poolPages.length = s.poolPages.length →
      (freeFrames s'.kernel.physPages).card = (freeFrames s.kernel.physPages).card

/-- A sound book says that the frames are apart, for each process is a holder of its own. -/
theorem FrameInv.framesApart (h : FrameInv s) : FramesApart s.kernel := by
  have hlt : ∀ i x, x ∈ frames s.kernel i → i < MAX_NUM_PROCESS := by
    intro i x hx
    cases hp : s.kernel.table.all_processes i with
    | none =>
      unfold frames at hx
      rw [hp] at hx
      cases hx
    | some p => exact Nat.lt_of_lt_of_le (h.table.below i p hp) h.table.room
  refine ⟨fun i p hp htype => ?_, fun i => ?_, fun i j x hi hj => ?_, fun i x hi => ?_⟩
  · obtain ⟨x, hx⟩ := Option.isSome_iff_exists.mp (h.images i p hp htype).program
    refine ⟨x, hx, ?_⟩
    unfold frames
    rw [hp, Option.map_some, Option.getD_some, framesOf, hx, Option.toList_some]
  · cases hf : frames s.kernel i with
    | nil => exact List.nodup_nil
    | cons x l =>
      rw [← hf]
      exact h.held.sound.nodup (some ⟨i, hlt i x (by rw [hf]; exact List.mem_cons_self)⟩)
  · have he := h.held.sound.apart (some ⟨i, hlt i x hi⟩) (some ⟨j, hlt j x hj⟩) x hi hj
    exact congrArg Fin.val (Option.some.inj he)
  · exact h.held.sound.notFree (some ⟨i, hlt i x hi⟩) x hi

/-- A halt that came back without ending the caller has changed nothing, and one that ended it
    has freed its frames. -/
theorem FrameInv.haltFreesOwn (h : FrameInv s) : HaltFreesOwn fs s := by
  intro vidmap s' hown hstep hgone
  obtain ⟨p, hp, -⟩ := id hown
  obtain ⟨k, pools⟩ := s
  -- what the body has done, and the switch keeps
  have hdone : Ensures AnyFault (Event.halt.run fs vidmap k) fun k' =>
      k'.table.all_processes k.current.toNat = none →
        freeFrames k'.physPages = freeFrames k.physPages ∪ (frames k k.current.toNat).toFinset ∧
        ∀ i, i ≠ k.current.toNat → frames k' i = frames k i := by
    refine run_done (Q := fun k' => Moved ⟨k, pools⟩ ⟨k', pools⟩ ∧
      (k'.table.all_processes k.current.toNat = none →
        freeFrames k'.physPages = freeFrames k.physPages ∪ (frames k k.current.toNat).toFinset ∧
        ∀ i, i ≠ k.current.toNat → frames k' i = frames k i)) ?_ (fun _ hk => hk.2) ?_
    · refine Ensures.map ((syshalt_done h.table).mono ?_)
      rintro r (rfl | he)
      · refine ⟨⟨h, Relation.ReflTransGen.refl⟩, fun hnone => ?_⟩
        change k.table.all_processes k.current.toNat = none at hnone
        change k.table.all_processes k.current.toNat = some p at hp
        rw [hp] at hnone
        cases hnone
      · obtain ⟨hmoved, hfree, hothers⟩ := h.halted hown he
        exact ⟨hmoved, fun _ => ⟨hfree, fun i hi => frames_congr (hothers i hi)⟩⟩
    · rintro k₁ ⟨hmoved, hk₁⟩
      refine (hmoved.inv.dispatch vidmap).mono ?_
      rintro k₂ ⟨-, hphys, htable⟩ hnone
      rw [htable] at hnone
      obtain ⟨hfree, hothers⟩ := hk₁ hnone
      refine ⟨by rw [hphys]; exact hfree, fun i hi => ?_⟩
      rw [← hothers i hi]
      unfold frames
      rw [htable]
  exact hdone.value hstep.1 hgone

/-- The count of the ledger is that of before, and nobody holds more or less, so as many are
    free. -/
theorem FrameInv.freeAsBefore (h : FrameInv s) : FreeAsBefore fs s := by
  intro s' hr i hnone hnone' hothers hpools
  obtain ⟨-, hcount⟩ := count_of_reach h hr
  refine card_free_of_count hcount fun j => ?_
  cases j with
  | none => exact hpools
  | some j =>
    show (frames s'.kernel j).length = (frames s.kernel j).length
    by_cases hj : j.val = i
    · unfold frames
      rw [hj, hnone, hnone']
    · exact hothers j hj

/-- **Frames of processes**, in every run of successful calls: pairwise distinct and never free; a
    halt frees the frames of the caller and no other; and with a process gone as many frames are
    free as before it was created. -/
theorem frames_conserved (hr : Reach (frameMachine fs) OwnMap s) :
    FramesApart s.kernel ∧ HaltFreesOwn fs s ∧ FreeAsBefore fs s := by
  have h := frameInv_of_reach hr
  exact ⟨h.framesApart, h.haltFreesOwn, h.freeAsBefore⟩

end Runs

/-! ## A process from execute to halt -/

/-- `OwnMapLoaded`, computed. -/
def ownMapLoaded (k : Kernel) : Bool :=
  (k.table.all_processes k.current.toNat).any fun p =>
    p.mainThreadInfo.type == .USER_PROCESS && p.memmap.pdStack.items.all fun val =>
      (k.cpu0_memmap.loaded.translate val.virt).same val.phys

/-- It is computed from the loaded map. -/
theorem ownMapLoaded_iff {k : Kernel} : ownMapLoaded k = true ↔ OwnMapLoaded k := by
  rw [ownMapLoaded, Option.any_eq_true, OwnMapLoaded]
  refine exists_congr fun p => and_congr_right fun _ => ?_
  rw [Bool.and_eq_true, List.all_eq_true, beq_iff_eq]

/-- One call, if it obeys the guard and goes through. -/
def FrameEvent.exec (fs : FileSystem) (s : Memory) : FrameEvent → Option Memory
  | .call .halt vidmap =>
    if ownMapLoaded s.kernel then
      (Event.halt.run fs vidmap s.kernel).toOption.map fun k => ⟨k, s.poolPages⟩
    else none
  | .call e vidmap => (e.run fs vidmap s.kernel).toOption.map fun k => ⟨k, s.poolPages⟩
  | .sbrk delta vidmap switchVidmap =>
    if ownMapLoaded s.kernel then
      match s.kernel.sbrk s.kernel.current delta vidmap with
      | .ok (some _, k) => (k.schedDispatchExecution switchVidmap).toOption.map fun k =>
        ⟨k, s.poolPages⟩
      | _ => none
    else none
  | .newPool virtAddr => Syscalls.newPool virtAddr s

/-- What is computed is a step of the machine. -/
theorem FrameEvent.exec_step (fs : FileSystem) (s : Memory) (a : FrameEvent) (s' : Memory)
    (h : a.exec fs s = some s') : OwnMap s a ∧ (frameMachine fs).step s a s' := by
  have hcall : ∀ (e : Event) vidmap,
      ((e.run fs vidmap s.kernel).toOption.map fun k => (⟨k, s.poolPages⟩ : Memory)) = some s' →
        (frameMachine fs).step s (.call e vidmap) s' := by
    intro e vidmap hrun
    obtain ⟨k, hk, rfl⟩ := Option.map_eq_some_iff.mp hrun
    exact ⟨toOption_eq_some.mp hk, rfl⟩
  cases a with
  | call e vidmap =>
    by_cases he : e = .halt
    · subst he
      obtain ⟨hown, hrun⟩ := Option.ite_none_right_eq_some.mp h
      exact ⟨ownMapLoaded_iff.mp hown, hcall .halt vidmap hrun⟩
    · have hok : OwnMap s (.call e vidmap) := by
        cases e with
        | halt => exact absurd rfl he
        | _ => exact trivial
      refine ⟨hok, hcall e vidmap ?_⟩
      cases e with
      | halt => exact absurd rfl he
      | _ => exact h
  | sbrk delta vidmap switchVidmap =>
    obtain ⟨hown, hrun⟩ := Option.ite_none_right_eq_some.mp h
    refine ⟨ownMapLoaded_iff.mp hown, ?_⟩
    split at hrun
    · next ret k hsbrk =>
      obtain ⟨k', hk', rfl⟩ := Option.map_eq_some_iff.mp hrun
      exact ⟨rfl, ret, k, hsbrk, toOption_eq_some.mp hk'⟩
    · cases hrun
  | newPool virtAddr => exact ⟨trivial, h⟩

/-- Five pages of memory. -/
def fivePages : PhysPageManager numPhysPages :=
  [8, 7, 6, 5, 4].foldl PhysPageManager.addFree (.blank _)

/-- The init thread starts a program, which comes to run after the guards of the seven clients, and
    asks for 9 MB. -/
def untilGrown : List FrameEvent :=
  .call (.execute (some [0x61])) none :: List.replicate 7 (.call .tick none) ++
    [.sbrk 0x900000 none none]

/-- **The life of a process**: it has the frame of its program, then three more, then gives two of
    them back, and when it halts the rest. -/
theorem frames_conserved_life : ∃ booted grown shrunk halted : Memory,
    Reach (frameMachine elfEverywhere) OwnMap booted ∧ frames booted.kernel 9 = [] ∧
    frames grown.kernel 9 = [7, 6, 5, 4] ∧ FramesApart grown.kernel ∧
    frames shrunk.kernel 9 = [5, 4] ∧ FramesApart shrunk.kernel ∧
    freeFrames halted.kernel.physPages = freeFrames shrunk.kernel.physPages ∪ {5, 4} ∧
    (freeFrames halted.kernel.physPages).card = (freeFrames booted.kernel.physPages).card := by
  have heval : ((boot fivePages (MemMapManager.construct fun _ => 0).start).toOption.bind fun k =>
      (untilGrown.foldlM (fun s a => FrameEvent.exec elfEverywhere s a) ⟨k, []⟩).bind fun grown =>
      (FrameEvent.exec elfEverywhere grown (.sbrk (-0x500000) none none)).bind fun shrunk =>
      (FrameEvent.exec elfEverywhere shrunk (.call .halt none)).map fun halted =>
        ((frames grown.kernel 9, frames shrunk.kernel 9), shrunk.kernel.current,
          ((k.table.all_processes 9).isNone, (halted.kernel.table.all_processes 9).isNone),
          halted.poolPages, (List.range MAX_NUM_PROCESS).all fun j =>
            (frames halted.kernel j).length == (frames k j).length)) =
      some (([7, 6, 5, 4], [5, 4]), 9, (true, true), [], true) := by
    decide +kernel
  obtain ⟨k, hboot, heval⟩ := Option.bind_eq_some_iff.mp heval
  obtain ⟨grown, hgrown, heval⟩ := Option.bind_eq_some_iff.mp heval
  obtain ⟨shrunk, hshrunk, heval⟩ := Option.bind_eq_some_iff.mp heval
  obtain ⟨halted, hhalted, heval⟩ := Option.map_eq_some_iff.mp heval
  simp only [Prod.mk.injEq, Option.isNone_iff_eq_none, List.all_eq_true, List.mem_range, beq_iff_eq]
    at heval
  obtain ⟨⟨hframes, hframes'⟩, hcurrent, ⟨hnone, hnone'⟩, hpools, hlengths⟩ := heval
  have hr : Reach (frameMachine elfEverywhere) OwnMap ⟨k, []⟩ :=
    .init ⟨⟨_, _, toOption_eq_some.mp hboot⟩, rfl⟩
  obtain ⟨hok, hstep⟩ := FrameEvent.exec_step _ _ _ _ hshrunk
  obtain ⟨hok', hstep'⟩ := FrameEvent.exec_step _ _ _ _ hhalted
  have hrgrown := hr.foldlM (FrameEvent.exec_step elfEverywhere) untilGrown hgrown
  have hrshrunk := hrgrown.step hok hstep
  -- the same run, from the boot on
  have hlife : Reach ((frameMachine elfEverywhere).startedIn ⟨k, []⟩) OwnMap halted :=
    (((Reach.init rfl).foldlM (M := (frameMachine elfEverywhere).startedIn ⟨k, []⟩)
      (FrameEvent.exec_step elfEverywhere) untilGrown hgrown).step hok hstep).step hok' hstep'
  have hpast : ∀ {s : Memory}, FrameInv s → ∀ j, MAX_NUM_PROCESS ≤ j → frames s.kernel j = [] := by
    intro s hinv j hj
    cases hp : s.kernel.table.all_processes j with
    | none => exact frames_of_vacant hp
    | some p =>
      exact absurd (Nat.lt_of_lt_of_le (hinv.table.below j p hp) hinv.table.room)
        (Nat.not_lt.mpr hj)
  refine ⟨⟨k, []⟩, grown, shrunk, halted, hr, frames_of_vacant hnone, hframes,
    (frames_conserved hrgrown).1, hframes', (frames_conserved hrshrunk).1, ?_, ?_⟩
  · obtain ⟨hfree, -⟩ := (frames_conserved hrshrunk).2.1 none halted hok' hstep'
      (by rw [hcurrent]; exact hnone')
    rw [hfree, hcurrent]
    exact congrArg (freeFrames shrunk.kernel.physPages ∪ List.toFinset ·) hframes'
  · refine (frames_conserved hr).2.2 halted hlife 9 hnone hnone' (fun j _ => ?_) (by rw [hpools])
    rcases Nat.lt_or_ge j MAX_NUM_PROCESS with hj | hj
    · exact hlengths j hj
    · rw [hpast (frameInv_of_reach hr) j hj,
        hpast (frameInv_of_reach (hrshrunk.step hok' hstep')) j hj]

end TedkOS.Syscalls
