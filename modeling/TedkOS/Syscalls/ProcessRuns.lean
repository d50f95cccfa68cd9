/-
  Runs of the kernel: is every access to the process table one the array allows?

  Not for every call.  The counter of process ids is never compared with the size of the array;
  `fork` asks for the parent -1; `dotask` passes on whatever number the user gives; and when
  `do_exec` fails late it returns 256, which `sysexec` takes for a process id.  `dotask` also puts a
  thread into the run queue that is there already, and `halt` takes out one entry only.

  `Good` says which calls stay clear of all this, in terms of the state before them.  A run of good
  calls keeps the table and the scheduler in order (`Live`), and none of its steps makes a wrong
  access (`processTable_safe`); a call other than `halt` that is not good makes one at once
  (`tableSafe_iff`).
-/
import TedkOS.Proc.SchedInv
import TedkOS.Syscalls.Process

namespace TedkOS.Syscalls

open Checked Palloc PhysPages Proc Runs

/-- The event ends, or at worst never comes back: no access outside the array, to a null entry, or
    to a thread that is gone. -/
def TableSafe (fs : FileSystem) (k : Kernel) (a : Event × Option (BitVec 32)) : Prop :=
  ∀ f, a.1.run fs a.2 k = .error f → f = .diverges

/-- An id and a page are left for a new program. -/
def RoomForProgram (k : Kernel) : Prop :=
  k.table.nextNewProcess.toNat < MAX_NUM_PROCESS ∧ (k.physPages.allocPage false).1.isSome = true

/-- A thread that can leave for good: its parent is there to be woken, and the queue holds it
    once. -/
def CanHalt (k : Kernel) : Prop :=
  ∀ p prevInfo, k.table.all_processes k.current.toNat = some p →
    p.mainThreadInfo.execParent = some prevInfo →
    Registered k.table prevInfo ∧ k.rrQueue.count k.current = 1

/-- The calls that stay clear of the ends of the table. -/
def Good (fs : FileSystem) (k : Kernel) (a : Event × Option (BitVec 32)) : Prop :=
  match a.1 with
  | .execute (some file) => is_kiss_executable fs (get_arg_position file).2 = true →
    RoomForProgram k
  | .halt => CanHalt k
  | .fork => False
  | .dotask pid => pid.toNat < MAX_NUM_PROCESS
  | .wake pid => Registered k.table pid
  | _ => True

/-! ## One event

  A triple for each call: from a state in order, under the condition that `Good` has for it, to a
  state in order, without a wrong access on the way. -/

section Events

variable {fs : FileSystem} {k : Kernel}

/-- A new process has an empty memory map, so its first page goes in. -/
theorem add_new (virt : VirtAddr) (phys : PhysAddr) :
    (TinyMemMap.new.add virt phys).1 = true := by
  have hfree : TinyMemMap.new.isVirtAddrUsed.test virt.vidx = false := BitSet.test_new _
  unfold TinyMemMap.add
  simp only [hfree, Bool.false_eq_true, if_false]

/-- Setting up a child that is in the table: its id and its parent stay, and nothing else changes
    but memory. -/
theorem setUpChild_cases (arg : Option (List (BitVec 8))) (term : Option Nat) (child_upid : Pid)
    (child : Proc.ProcessDesc) (k : Kernel) : ∃ (code : Pid) (o : PhysPageManager numPhysPages)
      (child' : Proc.ProcessDesc), setUpChild arg term child_upid child k =
        (code, { k with physPages := o, table := k.table.assign child_upid (some child') }) ∧
      child'.pid = child.pid ∧
      child'.mainThreadInfo.execParent = child.mainThreadInfo.execParent ∧
      (child.memmap = TinyMemMap.new → (k.physPages.allocPage false).1.isSome = true →
        code = child_upid) := by
  unfold setUpChild
  have hsplit : ∀ c : Proc.ProcessDesc, c = (if arg.isSome then { child with arg } else child) →
      c.pid = child.pid ∧ c.mainThreadInfo = child.mainThreadInfo ∧ c.memmap = child.memmap := by
    rintro c rfl
    split <;> exact ⟨rfl, rfl, rfl⟩
  generalize hc : (if arg.isSome then { child with arg } else child) = c
  obtain ⟨hpid, hthread, hmap⟩ := hsplit c hc.symm
  cases halloc : k.physPages.allocPage false with
  | mk physIdx physPages =>
    cases physIdx with
    | none => exact ⟨256, physPages, c, rfl,
      hpid, by rw [hthread], fun _ hpage => absurd hpage (by simp)⟩
    | some physIdx =>
      simp only
      generalize PhysAddr.ofIndex (BitVec.ofNat 16 physIdx) (PG_WRITABLE ||| PG_USER) = physAddr
      cases hadd : c.memmap.add code_page_vaddr_base physAddr with
      | mk added memmap =>
        cases added with
        | false =>
          refine ⟨256, physPages, c, rfl, hpid, by rw [hthread], fun hnew _ => ?_⟩
          have hok := add_new code_page_vaddr_base physAddr
          rw [← hnew, ← hmap, hadd] at hok
          exact absurd hok (by simp)
        | true => exact ⟨child_upid, physPages, _, rfl, hpid,
            congrArg ThreadInfo.execParent hthread, fun _ _ => rfl⟩

/-- `do_exec` of a good call: the table and the queue stay in order, and it returns a negative
    number, for a file that is no executable, or the id of a process that is there.  The late
    failures, which return 256, do not happen: a page is left, and a new map is empty. -/
theorem do_exec_spec (h : Live k) (arg0 : List (BitVec 8))
    (hroom : is_kiss_executable fs (get_arg_position arg0).2 = true → RoomForProgram k) :
    Ensures Harmless (do_exec fs arg0 k) fun r => Core r.2 ∧ Frame k r.2 ∧
      (r.1.slt 0 = true ∨ Registered r.2.table r.1) := by
  have hneg1 : (-1 : Pid).slt 0 = true := by decide
  unfold do_exec
  -- the parsing of the argument plays no part here
  generalize get_arg_position arg0 = args at hroom ⊢
  obtain ⟨arg_index, file⟩ := args
  cases hexe : is_kiss_executable fs file with
  | false =>
    simp only [hexe, Bool.not_false, if_true]
    exact Ensures.pure ⟨h.toCore, Frame.refl k, Or.inl hneg1⟩
  | true =>
    obtain ⟨hnext, hpage⟩ := hroom hexe
    simp only [hexe, Bool.not_true, Bool.false_eq_true, if_false]
    obtain ⟨caller, hcaller⟩ := Option.isSome_iff_exists.mp h.current
    refine Ensures.bind (Ensures.of_eq (TableInv.thread_eq hcaller) rfl) fun c hc => ?_
    subst hc
    have hpar : Registered k.table caller.pid := by
      rw [h.table.pid_eq hcaller]
      exact h.current
    refine Ensures.bind
      (newDetachedProcess_spec h.table (Or.inr ⟨hnext, Or.inr hpar⟩) .USER_PROCESS) ?_
    rintro ⟨child_upid, k₁⟩ hnew
    obtain ⟨child, hchild, hpid, hmap, -⟩ := hnew.child
    have hreg : Registered k₁.table child_upid := registered_of_eq hchild
    have hneg : child_upid.slt 0 = false := hnew.inv.not_negative hreg
    simp only [hneg, Bool.false_eq_true, if_false]
    refine Ensures.bind (get_spec hnew.inv (Or.inr hreg)) fun c' hc' => ?_
    have heq : c' = child := Option.some.inj (hc'.symm.trans hchild)
    subst heq
    obtain ⟨code, o, child', hset, hpid', hlink, hcode⟩ :=
      setUpChild_cases (arg_index.map arg0.drop) caller.currTerm child_upid c' k₁
    have hsame : k₁ = { k with table := k₁.table } := hnew.same
    have hphys : k₁.physPages = k.physPages := by rw [hsame]
    have hid : code = child_upid := hcode hmap (hphys ▸ hpage)
    -- the child is written back under its own id, so the table keeps its invariant
    obtain ⟨hinv, hext⟩ := hnew.inv.assign child' hc' hpid' hlink
    have hcore := h.toCore.withTable hinv (hnew.old.trans hext)
    rw [hset]
    refine Ensures.pure ⟨?_, ?_, Or.inr ?_⟩
    · rw [hsame]
      exact ⟨hcore.table, hcore.queue, hcore.want, hcore.init, hcore.initQueued⟩
    · rw [hsame]
      exact ⟨hnew.old.trans hext, rfl, rfl, rfl⟩
    · rw [hid]
      exact hreg.extends hext

/-- `execute` of a good call.  A number below zero is passed on; a process that was made is
    attached, and the caller blocks until its child halts. -/
theorem sysexec_spec (h : Live k) (file : Option (List (BitVec 8)))
    (hgood : Good fs k (.execute file, none)) :
    Ensures Harmless (sysexec fs file k) fun r => Core r.2 ∧ Frame k r.2 := by
  cases file with
  | none => exact Ensures.pure ⟨h.toCore, Frame.refl k⟩
  | some file =>
    refine Ensures.bind (do_exec_spec h file hgood) ?_
    rintro ⟨child_upid, k₁⟩ ⟨hcore, hframe, hid⟩
    by_cases hneg : child_upid.slt 0 = true
    · simp only [hneg, if_true]
      exact Ensures.pure ⟨hcore, hframe⟩
    · have hreg := hid.resolve_left hneg
      simp only [hneg, Bool.false_eq_true, if_false]
      refine Ensures.bind (get_spec hcore.table (Or.inr hreg)) fun child hchild => ?_
      have hpid : child.pid = child_upid := hcore.table.pid_eq hchild
      rw [hpid]
      -- the child goes into the queue, and then the caller sleeps
      refine Ensures.bind (hcore.attach hreg .Running) ?_
      rintro k₂ ⟨hcore₂, hframe₂, -⟩
      have hframe' := hframe.trans hframe₂
      have hcur : Registered k₂.table k₂.current := by
        rw [hframe'.current]
        exact h.current.extends hframe'.table
      refine Ensures.bind (hcore₂.block hcur) ?_
      rintro k₃ ⟨hcore₃, hframe₃⟩
      exact Ensures.pure ⟨hcore₃, hframe'.trans hframe₃⟩

/-- `dotask` with an id of the array: an entry that is null is refused, and a process that is
    there is attached once more and the scheduler asked to choose. -/
theorem dotask_spec (h : Live k) {pid : Pid} (hpid : pid.toNat < MAX_NUM_PROCESS) :
    Ensures Harmless (dotask pid k) fun r => Core r.2 ∧ Frame k r.2 := by
  unfold dotask ProcessTable.has
  rw [bind_assoc]
  refine Ensures.bind (entry_spec (Or.inr hpid)) ?_
  rintro o ⟨-, rfl⟩
  rw [pure_bind]
  split
  · -- the entry is not null, so what is looked up is the process of this id
    next hreg =>
    refine Ensures.bind (get_spec h.table (Or.inr hreg)) fun p hp => ?_
    rw [h.table.pid_eq hp]
    refine Ensures.bind (h.toCore.attach hreg .Running) ?_
    rintro k₁ ⟨hcore, hframe, -⟩
    refine Ensures.bind hcore.decide ?_
    rintro k₂ ⟨hcore₂, hframe₂⟩
    exact Ensures.pure ⟨hcore₂, hframe.trans hframe₂⟩
  · exact Ensures.pure ⟨h.toCore, Frame.refl k⟩

/-- After the body of an event the switch has somewhere to go. -/
structure Switchable (k : Kernel) : Prop where
  core : Core k
  /-- The switch asks the current terminal for its page, not the first one. -/
  booted : k.isFallbackTerm = false
  /-- Nothing has been asked for and the current thread is there, or the thread that is asked for
      is there and is not the one that runs. -/
  target : (Registered k.table k.current ∧
      (k.currentlyRunning = k.current ∨ k.currentlyRunning = -1)) ∨
    (Registered k.table k.wantToSwitchTo ∧ k.currentlyRunning ≠ k.wantToSwitchTo)

/-- An event that leaves the current thread and the running one alone leaves the thread it began
    with to return to. -/
theorem switchable_of_frame (h : Live k) {k' : Kernel} (hcore : Core k') (hframe : Frame k k') :
    Switchable k' where
  core := hcore
  booted := hframe.fallback.trans h.booted
  target := by
    rw [hframe.current, hframe.running]
    exact Or.inl ⟨h.current.extends hframe.table, h.running⟩

/-- `halt` of a thread that can leave: with no parent nothing happens; otherwise the parent is
    woken, the thread taken out of the queue and of the table, and the switch goes to another
    one. -/
theorem syshalt_spec (h : Live k) (hgood : CanHalt k) :
    Ensures Harmless (syshalt k) fun r => Switchable r.2 := by
  obtain ⟨p, hp⟩ := Option.isSome_iff_exists.mp h.current
  refine Ensures.bind (Ensures.of_eq (TableInv.thread_eq hp) rfl) fun q hq => ?_
  subst hq
  cases hpar : p.mainThreadInfo.execParent with
  | none => exact Ensures.pure (switchable_of_frame h h.toCore (Frame.refl k))
  | some prevInfo =>
    -- the parent can be woken, and no second entry of this thread stays in the queue
    obtain ⟨hprev, honce⟩ := hgood p prevInfo hp hpar
    simp only
    rw [h.table.pid_eq hp]
    refine Ensures.bind (h.halt hp hpar hprev honce) ?_
    rintro k' ⟨hcore, hboot, htarget⟩
    exact Ensures.pure ⟨hcore, hboot, Or.inr htarget⟩

/-- **The body of a good event** makes no wrong access and leaves somewhere to go. -/
theorem body_spec (h : Live k) {e : Event} {vidmap : Option (BitVec 32)}
    (hgood : Good fs k (e, vidmap)) :
    Ensures Harmless (e.body fs k) Switchable := by
  have hkeep : ∀ k', Core k' ∧ Frame k k' → Switchable k' := fun k' hk' =>
    switchable_of_frame h hk'.1 hk'.2
  cases e with
  | execute file => exact Ensures.map ((sysexec_spec h file hgood).mono fun r hr => hkeep r.2 hr)
  | halt => exact Ensures.map (syshalt_spec h hgood)
  | fork => exact absurd hgood id
  | dotask pid => exact Ensures.map ((dotask_spec h hgood).mono fun r hr => hkeep r.2 hr)
  | sleep => exact (h.toCore.block h.current).mono hkeep
  | wake pid =>
    refine (setRunState_spec h.table hgood .Running).mono ?_
    rintro k' ⟨t', rfl, hinv, hext, -⟩
    exact hkeep _ ⟨h.toCore.withTable hinv hext, hext, rfl, rfl, rfl⟩
  | tick => exact h.toCore.decide.mono hkeep
  | nestedTick => exact h.toCore.decide.mono hkeep

/-- **One good event** keeps the table and the scheduler in order. -/
theorem run_spec (h : Live k) {a : Event × Option (BitVec 32)} (hgood : Good fs k a) :
    Ensures Harmless (a.1.run fs a.2 k) Live := by
  obtain ⟨e, vidmap⟩ := a
  -- a tick inside a handler only decides: the switch is left to the outermost return
  by_cases hnested : e = .nestedTick
  · subst hnested
    refine Ensures.bind h.toCore.decide ?_
    rintro k' ⟨hcore, hframe⟩
    refine Ensures.pure ⟨hcore, ?_, ?_, hframe.fallback.trans h.booted⟩
    · rw [hframe.current]
      exact h.current.extends hframe.table
    · rw [hframe.current, hframe.running]
      exact h.running
  · have hrun : e.run fs vidmap k = e.body fs k >>= fun k => k.schedDispatchExecution vidmap := by
      cases e <;> first | rfl | exact absurd rfl hnested
    show Ensures Harmless (e.run fs vidmap k) Live
    rw [hrun]
    exact Ensures.bind (body_spec h hgood) fun k' hk' =>
      hk'.core.dispatch vidmap hk'.booted hk'.target

end Events

/-! ## The boot

  The threads of the kernel are made one after another from the empty table, then the terminals
  start their clients; and the state they leave is in order. -/

section Boot

variable {k : Kernel} {ok : Fault → Prop}

/-- A kernel thread made while the first terminal stands in for every process's own. -/
theorem makeKThread_spec (h : TableInv k.table) (hfb : k.isFallbackTerm = true)
    (hnext : k.table.nextNewProcess.toNat < MAX_NUM_PROCESS) :
    Ensures ok k.makeKThread fun r => r.1 = k.table.nextNewProcess ∧
      Detached k (-1) r := by
  have hneg1 : (-1 : Pid).slt 0 = true := by decide
  refine Ensures.bind (newDetachedProcess_spec h (Or.inr ⟨hnext, Or.inl ⟨hfb, hneg1⟩⟩) _) ?_
  rintro ⟨child_upid, k₁⟩ hnew
  obtain ⟨c, hc, hpid, -, -⟩ := hnew.child
  have hreg : Registered k₁.table child_upid := registered_of_eq hc
  have hneg : child_upid.slt 0 = false := hnew.inv.not_negative hreg
  simp only [hneg, Bool.false_eq_true, if_false]
  refine Ensures.bind (get_spec hnew.inv (Or.inr hreg)) fun proc hproc => ?_
  have hp : proc.pid = child_upid := hnew.inv.pid_eq hproc
  rw [hp]
  exact Ensures.pure ⟨hnew.pid, hnew⟩

/-- The guard processes of the clients, `left` of them from the `i`-th on.  Each takes the next
    id, so the ids that are left have to be enough. -/
theorem startClients_spec (left : Nat) : ∀ (i : Nat) {k : Kernel}, Core k →
    k.isFallbackTerm = true → k.table.nextNewProcess.toNat + left ≤ MAX_NUM_PROCESS →
    Ensures ok (startClients left i k) fun k' => Core k' ∧ Frame k k' := by
  induction left with
  | zero => exact fun i k h _ _ => Ensures.pure ⟨h, Frame.refl k⟩
  | succ left ih =>
    intro i k h hfb hroom
    change _ ≤ 256 at hroom
    have hnext : k.table.nextNewProcess.toNat < 256 := by omega
    refine Ensures.bind (makeKThread_spec h.table hfb hnext) ?_
    rintro ⟨pid, k₁⟩ ⟨-, hnew⟩
    obtain ⟨c, hc, -, -, -⟩ := hnew.child
    have hreg : Registered k₁.table pid := registered_of_eq hc
    have hsame : k₁ = { k with table := k₁.table } := hnew.same
    have hcore₁ : Core k₁ := by
      rw [hsame]
      exact h.withTable hnew.inv hnew.old
    have hframe₁ : Frame k k₁ := by
      rw [hsame]
      exact ⟨hnew.old, rfl, rfl, rfl⟩
    refine Ensures.bind (get_spec hcore₁.table (Or.inr hreg)) fun proc hproc => ?_
    -- each is given the terminal of its number
    obtain ⟨hinv, hext⟩ := hcore₁.table.assign
      { proc with currTerm := if i < numTextTerms then some i else none } hproc rfl rfl
    have hcore₂ := hcore₁.withTable hinv hext
    refine Ensures.bind (hcore₂.attach (hreg.extends hext) .Running) ?_
    rintro k₃ ⟨hcore₃, hframe₃, hcount⟩
    have hframe : Frame k k₃ :=
      (hframe₁.trans ⟨hext, rfl, rfl, rfl⟩ : Frame k { k₁ with table := _ }).trans hframe₃
    -- one id has been used
    have hcount' : k₃.table.nextNewProcess = k.table.nextNewProcess + 1 :=
      hcount.trans hnew.counter
    refine (ih (i + 1) hcore₃ (hframe.fallback.trans hfb) ?_).mono ?_
    · rw [hcount', BitVec.toNat_add]
      show (k.table.nextNewProcess.toNat + 1) % 0x100000000 + left ≤ 256
      omega
    · rintro k' ⟨hcore', hframe'⟩
      exact ⟨hcore', hframe.trans hframe'⟩

/-- **The boot** goes through, and leaves the table and the scheduler in order. -/
theorem boot_spec (physPages : PhysPageManager numPhysPages) (cpu0_memmap : MemMapManager) :
    Ensures ok (boot physPages cpu0_memmap) Live := by
  have hempty : TableInv ⟨1, fun _ => none⟩ :=
    ⟨by decide, fun i p hp => absurd hp (by simp), fun i p hp => absurd hp (by simp),
      fun i p par hp => absurd hp (by simp)⟩
  have hneg1 : (-1 : Pid).slt 0 = true := by decide
  have hone : (1#32).toNat < MAX_NUM_PROCESS := by decide
  refine Ensures.bind (makeKThread_spec (k := atReset physPages cpu0_memmap) hempty rfl hone) ?_
  rintro ⟨thread, k₁⟩ ⟨hpid, hnew⟩
  obtain ⟨c, hc, -, -, hnone⟩ := hnew.child
  have hthread : thread = initPid := hpid
  subst hthread
  have hreg : Registered k₁.table initPid := registered_of_eq hc
  have hsame : k₁ = { atReset physPages cpu0_memmap with table := k₁.table } := hnew.same
  refine Ensures.bind (attachThread_spec hnew.inv hreg .Running) ?_
  rintro k₂ ⟨t', rfl, hinv, hext, hcount⟩
  obtain ⟨c', hc', hlink⟩ := hext _ c hc
  -- the first thread that is ready is the init thread, alone in the queue
  have hcore : Core { k₁ with
      table := t', rrQueue := k₁.rrQueue ++ [initPid], current := initPid } := by
    rw [hsame]
    refine ⟨hinv, fun pid hmem => ?_, Or.inl hneg1, ⟨c', hc', hlink.trans (hnone hneg1)⟩,
      List.mem_cons_self⟩
    cases List.mem_singleton.mp hmem
    exact hreg.extends hext
  have hfb : k₁.isFallbackTerm = true := by rw [hsame]; rfl
  have hrun : k₁.currentlyRunning = -1 := by rw [hsame]; rfl
  have hroom : t'.nextNewProcess.toNat + numClients ≤ MAX_NUM_PROCESS := by
    rw [hcount, hnew.counter]
    show (1#32 + 1).toNat + numClients ≤ MAX_NUM_PROCESS
    decide
  refine Ensures.bind (startClients_spec numClients 0 hcore hfb hroom) ?_
  rintro k₃ ⟨hcore₃, hframe⟩
  have hcur : k₃.current = initPid := hframe.current
  have hreg₃ : Registered k₃.table k₃.current := by
    rw [hcur]
    exact (hreg.extends hext).extends hframe.table
  exact Ensures.pure ⟨⟨hcore₃.table, hcore₃.queue, hcore₃.want, hcore₃.init, hcore₃.initQueued⟩,
    hreg₃, Or.inr (hframe.running.trans hrun), rfl⟩

end Boot

/-! ## The calls that go wrong at once

  The other direction.  For each way in which a call is not good there is the access that it
  makes outside the table or through a null entry. -/

section Wrongs

variable {fs : FileSystem} {k : Kernel}

/-- A process that was made had an id of the array. -/
theorem lt_of_detached {parentPID : Pid} {r : Pid × Kernel} (h : Detached k parentPID r) :
    k.table.nextNewProcess.toNat < MAX_NUM_PROCESS := by
  obtain ⟨c, hc, -, -, -⟩ := h.child
  rw [← h.pid]
  exact h.inv.lt_room hc

/-- **`fork` looks up entry -1.**  It asks for a child of the process -1, and once the boot is
    over that is looked up in the table like any other. -/
theorem fork_wrong (h : Live k) : Ensures Wrong (fork k) fun _ => False := by
  obtain ⟨p, hp⟩ := Option.isSome_iff_exists.mp h.current
  refine Ensures.bind (Ensures.of_eq (TableInv.thread_eq hp) rfl) fun _ _ => ?_
  refine Ensures.bind (newDetachedProcess_spec h.table (Or.inl fun _ => id) _) fun r hr => ?_
  -- the parent asked for is -1, and the boot is over
  rcases hr.parent with hfb | hlt
  · rw [h.booted] at hfb
    exact absurd hfb (by decide)
  · exact absurd hlt (by decide)

/-- **`dotask` of an id past the array** looks it up: the number is compared with nothing. -/
theorem dotask_wrong {pid : Pid} (hpid : ¬ pid.toNat < MAX_NUM_PROCESS) :
    Ensures Wrong (dotask pid k) fun _ => False := by
  unfold dotask ProcessTable.has
  rw [bind_assoc]
  exact Ensures.bind (entry_spec (Or.inl fun _ => id)) fun o ho => absurd ho.1 hpid

/-- Without a page the child is set up to the code 256. -/
theorem setUpChild_noPage {arg : Option (List (BitVec 8))} {term : Option Nat} {child_upid : Pid}
    {child : Proc.ProcessDesc} (hpage : (k.physPages.allocPage false).1 = none) :
    (setUpChild arg term child_upid child k).1 = 256 := by
  unfold setUpChild
  cases halloc : k.physPages.allocPage false with
  | mk physIdx physPages =>
    rw [halloc] at hpage
    change physIdx = none at hpage
    subst hpage
    rfl

/-- **`execute` with no id or no page left.**  Without an id `newProcess` writes past the table;
    without a page `do_exec` returns 256, which is not negative, and `sysexec` looks that up. -/
theorem execute_wrong (h : Live k) {file : List (BitVec 8)}
    (hexe : is_kiss_executable fs (get_arg_position file).2 = true) (hroom : ¬ RoomForProgram k) :
    Ensures Wrong (sysexec fs (some file) k) fun _ => False := by
  -- if `do_exec` comes back at all then it is with the late code
  have hcode : Ensures Wrong (do_exec fs file k) fun r => r.1 = 256 := by
    unfold do_exec
    generalize get_arg_position file = args at hexe ⊢
    obtain ⟨arg_index, name⟩ := args
    simp only [hexe, Bool.not_true, Bool.false_eq_true, if_false]
    obtain ⟨p, hp⟩ := Option.isSome_iff_exists.mp h.current
    refine Ensures.bind (Ensures.of_eq (TableInv.thread_eq hp) rfl) fun caller _ => ?_
    refine Ensures.bind (newDetachedProcess_spec h.table (Or.inl fun _ => id) _) ?_
    rintro ⟨child_upid, k₁⟩ hnew
    -- an id was left, so it is the page that was not
    have hpage : (k₁.physPages.allocPage false).1 = none := by
      have hsame : k₁ = { k with table := k₁.table } := hnew.same
      have hphys : k₁.physPages = k.physPages := by rw [hsame]
      rw [hphys]
      cases hp : (k.physPages.allocPage false).1 with
      | none => rfl
      | some page => exact absurd ⟨lt_of_detached hnew, by rw [hp]; rfl⟩ hroom
    simp only
    split
    · exact Ensures.pure rfl
    · refine Ensures.bind (get_spec hnew.inv (Or.inl fun _ => id)) fun child _ => ?_
      exact Ensures.pure (setUpChild_noPage hpage)
  refine Ensures.bind hcode ?_
  rintro ⟨code, k₁⟩ hc
  change code = 256 at hc
  subst hc
  have hpos : (256 : Pid).slt 0 = false := by decide
  simp only [hpos, Bool.false_eq_true, if_false]
  unfold ProcessTable.get
  rw [bind_assoc]
  exact Ensures.bind (entry_spec (Or.inl fun _ => id)) fun o ho => absurd ho.1 (by decide)

/-- A body that goes wrong makes the event go wrong. -/
theorem not_tableSafe {e : Event} {vidmap : Option (BitVec 32)}
    (h : Ensures Wrong (e.body fs k) fun _ => False) : ¬ TableSafe fs k (e, vidmap) := by
  intro hsafe
  have hrun : Ensures Wrong (e.run fs vidmap k) fun _ => False :=
    Ensures.bind h fun _ hfalse => absurd hfalse id
  cases hx : e.run fs vidmap k with
  | ok k' => exact hrun.value hx
  | error f => exact hrun.error hx (hsafe f hx)

/-- **What `execute`, `fork` and `dotask` need is exactly what makes them good.**  (`halt` may leave
    a stale entry in the queue and go wrong only later.) -/
theorem tableSafe_iff (h : Live k) {e : Event} (he : e ≠ .halt) (hwake : ∀ pid, e ≠ .wake pid)
    (vidmap : Option (BitVec 32)) : TableSafe fs k (e, vidmap) ↔ Good fs k (e, vidmap) := by
  constructor
  · intro hsafe
    cases e with
    | execute file =>
      cases file with
      | none => exact trivial
      | some file =>
        intro hexe
        by_contra hroom
        exact not_tableSafe (Ensures.map (execute_wrong h hexe hroom)) hsafe
    | halt => exact absurd rfl he
    | fork => exact not_tableSafe (Ensures.map (fork_wrong h)) hsafe
    | dotask pid =>
      by_contra hpid
      exact not_tableSafe (Ensures.map (dotask_wrong hpid)) hsafe
    | wake pid => exact absurd rfl (hwake pid)
    | sleep => exact trivial
    | tick => exact trivial
    | nestedTick => exact trivial
  · intro hgood f hf
    exact (run_spec h hgood).error hf

end Wrongs

/-! ## Runs -/

/-- The invariant of every run of good calls: the boot sets it up, and no good event breaks it. -/
theorem live_of_reach {fs : FileSystem} {k : Kernel} (hr : Reach (kernelMachine fs) (Good fs) k) :
    Live k := by
  refine hr.invariant ?_ ?_
  · rintro k ⟨physPages, cpu0_memmap, hboot⟩
    exact (boot_spec physPages cpu0_memmap : Ensures Harmless _ _).value hboot
  · intro k a k' h hgood hstep
    exact (run_spec h hgood).value hstep

/-- **The process table along every run of good calls**: no call makes a wrong access, a call other
    than `halt` makes none exactly when it is good, and what `newProcess` returns is what its id is
    looked up to. -/
theorem processTable_safe {fs : FileSystem} {k : Kernel}
    (hr : Reach (kernelMachine fs) (Good fs) k) :
    (∀ a, Good fs k a → TableSafe fs k a) ∧
    (∀ e vidmap, e ≠ .halt → (∀ pid, e ≠ .wake pid) →
      (TableSafe fs k (e, vidmap) ↔ Good fs k (e, vidmap))) ∧
    (∀ parentPID processType r, k.table.newProcess parentPID processType = .ok r →
      r.2.2.get r.1.pid = .ok r.1) := by
  have h := live_of_reach hr
  refine ⟨fun a hgood f hf => (run_spec h hgood).error hf, fun e vidmap he hwake =>
    tableSafe_iff h he hwake vidmap, fun parentPID processType r hnew =>
      newProcess_get h.table hnew⟩

/-- No name leads anywhere. -/
def noFiles : FileSystem where
  kissFS := ⟨fun _ => ⟨fun _ => 0, 0, 0⟩, fun _ => ⟨0, fun _ => 0, 0⟩, 0, 0, fun _ => 0, 0⟩
  openPath _ := none

/-- After the boot every process can be asked for with `dotask`. -/
theorem processTable_safe_boot : ∃ k, Reach (kernelMachine noFiles) (Good noFiles) k ∧
    TableSafe noFiles k (.dotask 255, none) := by
  obtain ⟨k, hk, -⟩ := (boot_spec (PhysPageManager.blank numPhysPages)
    (MemMapManager.construct fun _ => 0)).exists_ok
  have hr : Reach (kernelMachine noFiles) (Good noFiles) k := .init ⟨_, _, hk⟩
  exact ⟨k, hr, (processTable_safe hr).1 _ (show (255#32).toNat < MAX_NUM_PROCESS by decide)⟩

/-- **`dotask(256)` reads past the table**, right after the boot. -/
theorem dotask_past_table : ¬ ∀ (fs : FileSystem) (k : Kernel),
    Reach (kernelMachine fs) (fun _ _ => True) k → ∀ a, TableSafe fs k a := by
  intro h
  obtain ⟨k, hk, -⟩ := (boot_spec (PhysPageManager.blank numPhysPages)
    (MemMapManager.construct fun _ => 0)).exists_ok
  have hwrong : ¬ (256#32).toNat < MAX_NUM_PROCESS := by decide
  exact not_tableSafe (Ensures.map (dotask_wrong hwrong))
    (h noFiles k (.init ⟨_, _, hk⟩) (.dotask 256, none))

end TedkOS.Syscalls
