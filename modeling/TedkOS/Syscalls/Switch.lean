/-
  The switch at the end of an interrupt (proc/sched.cpp, proc/sched-asm.S): who is resumed?

  A decision leaves its choice in `wantToSwitchTo`.  The dispatch may act on it much later: a nested
  interrupt leaves it pending, and so does the path where the choice is the thread that runs
  already.  In between there can be other decisions, a block, a wakeup or the end of a process.

  The invariant (`SwitchInv`) that carries all of it: a pending choice is in the queue, registered
  and running.  Only the running thread blocks or ends, and both are followed by a new decision,
  which finds a running thread because the init thread is one.

  Beside the kernel the state here has the saved stacks: `esp0` of every thread, and the one in the
  TSS.
-/
import TedkOS.Syscalls.Booted

namespace TedkOS.Syscalls

open Checked Palloc PhysPages Proc Runs

/-- The kernel, the saved stack of each thread, and the stack the next interrupt starts on. -/
structure SwitchState where
  /-- Whom the scheduler has chosen, and who runs. -/
  kernel : Kernel
  /-- Where each thread was interrupted. -/
  esp0 : Pid → BitVec 32
  /-- Where the next interrupt puts its frame. -/
  tss_esp0 : BitVec 32

/-- `schedBackupState(currentESP)`. -/
def schedBackupState (num_nest_int : Nat) (currentESP : BitVec 32) (s : SwitchState) :
    SwitchState :=
  -- Should only be saved if this is the outmost interrupt.
  if num_nest_int > 0 then s
  else { s with esp0 := Function.update s.esp0 s.kernel.current currentESP }

/-- `schedDispatchExecution(currentESP)`: the stack to switch to, 0 for NULL.  `stackTop` is where
    the kernel stack of a thread starts. -/
def schedDispatchExecution (stackTop : Pid → BitVec 32) (num_nest_int : Nat)
    (vidmap : Option (BitVec 32)) (s : SwitchState) : Except Fault (BitVec 32 × SwitchState) := do
  let k := s.kernel
  if num_nest_int > 0 then return (0, s)
  if k.wantToSwitchTo.slt 0 then
    let current ← k.table.thread k.current
    let top := stackTop k.current
    return (0, { s with
      esp0 := Function.update s.esp0 k.current top
      tss_esp0 := if current.mainThreadInfo.isKernel then s.tss_esp0 else top })
  if k.currentlyRunning = k.wantToSwitchTo then return (0, s)
  let desc ← k.table.get k.wantToSwitchTo
  let ans := s.esp0 k.wantToSwitchTo
  let kernel ← k.schedDispatchExecution vidmap
  -- Reset TARGET thread's esp0 !!
  let esp0 := if desc.mainThreadInfo.isKernel then s.esp0
    else Function.update s.esp0 k.wantToSwitchTo (stackTop k.wantToSwitchTo)
  return (ans, {
    -- a NULL stack is not switched to
    kernel := { kernel with current := if ans = 0 then k.current else kernel.current }
    esp0
    tss_esp0 := esp0 k.wantToSwitchTo })

/-! ## The machine

  The depth of nested interrupts is an argument of the two events that look at it: only the
  outermost interrupt backs up and dispatches. -/

/-- What the kernel asks of the scheduler. -/
inductive SchedEvent where
  | makeDecision
  /-- The running thread goes to sleep. -/
  | block
  /-- The running thread ends. -/
  | halt
  | unblock (pid : Pid)
  /-- A new process, with its first stack. -/
  | create (parentPID : Pid) (processType : ProcessType) (esp : BitVec 32)
  | attachThread (pid : Pid) (newState : ThreadState)
  | backup (num_nest_int : Nat) (currentESP : BitVec 32)
  | dispatch (num_nest_int : Nat) (vidmap : Option (BitVec 32))

/-- `scheduler::halt` as the running thread calls it. -/
def haltRunning (k : Kernel) : Except Fault Kernel := do
  let caller ← k.table.thread k.current
  match caller.mainThreadInfo.execParent with
  | none => .error .nullPointer
  | some prevInfo => k.halt k.current prevInfo

/-- One of these calls. -/
def SchedEvent.run (stackTop : Pid → BitVec 32) (s : SwitchState) :
    SchedEvent → Except Fault SwitchState
  | makeDecision => (fun kernel => { s with kernel }) <$> s.kernel.makeDecision
  | block => (fun kernel => { s with kernel }) <$> s.kernel.block s.kernel.current
  | halt => (fun kernel => { s with kernel }) <$> haltRunning s.kernel
  | unblock pid => (fun kernel => { s with kernel }) <$> s.kernel.unblock pid
  | create parentPID processType esp => (fun r => { s with
      kernel := r.2
      esp0 := Function.update s.esp0 r.1 esp }) <$> s.kernel.newDetachedProcess parentPID
        processType
  | attachThread pid newState =>
    (fun kernel => { s with kernel }) <$> s.kernel.attachThread pid newState
  | backup num_nest_int currentESP => .ok (schedBackupState num_nest_int currentESP s)
  | dispatch num_nest_int vidmap =>
    Prod.snd <$> schedDispatchExecution stackTop num_nest_int vidmap s

/-- The init thread neither sleeps nor ends, and a thread is attached once. -/
def InitStays (s : SwitchState) : SchedEvent → Prop
  | .block => s.kernel.current ≠ initPid
  | .halt => s.kernel.current ≠ initPid
  | .attachThread pid _ => pid ∉ s.kernel.rrQueue
  | _ => True

/-- Runs of the scheduler from the boot on. -/
def switchMachine (stackTop : Pid → BitVec 32) : Machine SwitchState SchedEvent where
  init s := ∃ physPages cpu0_memmap, boot physPages cpu0_memmap = .ok s.kernel
  step s e s' := e.run stackTop s = .ok s'

/-! ## The invariant

  `Ready` is what a decision needs to find somebody, and `SwitchInv` adds what a dispatch needs
  of the choice.  The events between the two keep it: it is the running thread that blocks or
  ends, and then there is a new decision. -/

/-- What a decision relies on. -/
structure Ready (k : Kernel) : Prop where
  /-- The table is in order. -/
  table : TableInv k.table
  /-- Every thread is in the queue once, -/
  nodup : k.rrQueue.Nodup
  /-- if at all, and then its process lives. -/
  queue : ∀ pid ∈ k.rrQueue, Registered k.table pid
  /-- The init thread is in the queue, -/
  initQueued : initPid ∈ k.rrQueue
  /-- and never sleeps, so that a decision finds somebody. -/
  initRuns : RunsIn k.table initPid
  /-- The thread that runs is in the queue, unless it has just ended. -/
  current : Registered k.table k.current → k.current ∈ k.rrQueue
  /-- Its id is not the next new one. -/
  older : k.current.toNat < k.table.nextNewProcess.toNat

/-- What the scheduler keeps from one event to the next. -/
structure SwitchInv (k : Kernel) : Prop extends Ready k where
  want : k.wantToSwitchTo.slt 0 = true ∨
    (k.wantToSwitchTo ∈ k.rrQueue ∧ RunsIn k.table k.wantToSwitchTo)

/-- What cannot go wrong does not. -/
theorem NoFault.wrong : ∀ f, NoFault f → Wrong f := fun _ => False.elim

section Events

variable {k : Kernel} {pid : Pid}

/-- **A decision** ends. -/
theorem Ready.makeDecision (h : Ready k) : Ensures NoFault k.makeDecision SwitchInv := by
  refine (makeDecision_ends h.queue h.initQueued h.initRuns).mono ?_
  rintro k' ⟨q, w, rfl, hperm, hw, hrun⟩
  exact ⟨⟨h.table, hperm.nodup_iff.mpr h.nodup, fun pid hpid => h.queue pid (hperm.mem_iff.mp hpid),
    hperm.mem_iff.mpr h.initQueued, h.initRuns, fun hreg =>
    hperm.mem_iff.mpr (h.current hreg), h.older⟩, Or.inr ⟨hperm.mem_iff.mpr hw, hrun⟩⟩

/-- A thread changes its run state, and the init thread goes on running. -/
theorem Ready.inState (h : Ready k) {p : Proc.ProcessDesc}
    (hp : k.table.all_processes pid.toNat = some p) {newState : ThreadState}
    (hinit : pid = initPid → newState = .Running) :
    Ready { k with table := k.table.assign pid (some (p.inState newState)) } := by
  obtain ⟨hinv, hext⟩ := h.table.assign (p.inState newState) hp rfl rfl
  refine ⟨hinv, h.nodup, fun q hq => (h.queue q hq).extends hext, h.initQueued, ?_,
    fun hreg => ?_, h.older⟩
  · by_cases he : pid = initPid
    · rw [hinit he]
      exact h.initRuns.wake p
    · exact (runsIn_assign_ne (Ne.symm he)).mpr h.initRuns
  · exact h.current ((registered_assign hp k.current).mp hreg)

/-- **A block** of another thread than the init thread. -/
theorem Ready.block (h : Ready k) (hne : pid ≠ initPid) :
    Ensures Wrong (k.block pid) SwitchInv := by
  refine Ensures.bind (setRunState_done .Waiting) ?_
  rintro k₁ ⟨p, hp, rfl⟩
  exact ((h.inState hp fun he => absurd he hne).makeDecision).weaken NoFault.wrong

/-- A wakeup sets a thread running; whoever is chosen is running still. -/
theorem SwitchInv.unblock (h : SwitchInv k) : Ensures Wrong (k.unblock pid) SwitchInv := by
  refine (setRunState_done .Running).mono ?_
  rintro k₁ ⟨p, hp, rfl⟩
  exact ⟨h.toReady.inState hp fun _ => rfl, h.want.imp_right fun hw => ⟨hw.1, hw.2.wake p⟩⟩

/-- **A thread is attached** for the first time: it is not the pending choice. -/
theorem SwitchInv.attachThread (h : SwitchInv k) (hout : pid ∉ k.rrQueue) (newState : ThreadState) :
    Ensures Wrong (k.attachThread pid newState) SwitchInv := by
  refine (attachThread_done newState).mono ?_
  rintro k₁ ⟨p, hp, rfl⟩
  have hne : ∀ q ∈ k.rrQueue, q ≠ pid := fun q hq e => hout (e ▸ hq)
  obtain ⟨hinv, hext⟩ := h.table.assign (p.inState newState) hp rfl rfl
  refine ⟨⟨hinv, ?_, fun q hq => ?_, List.mem_append_left _ h.initQueued,
    (runsIn_assign_ne (hne _ h.initQueued)).mpr h.initRuns, fun hreg => ?_, h.older⟩, ?_⟩
  · refine List.nodup_append.mpr ⟨h.nodup, List.nodup_singleton pid, fun a ha b hb => ?_⟩
    rw [List.mem_singleton.mp hb]
    exact hne a ha
  · rcases List.mem_append.mp hq with hold | hnew
    · exact (h.queue q hold).extends hext
    · rw [List.mem_singleton.mp hnew]
      exact (registered_of_eq hp).extends hext
  · exact List.mem_append_left _ (h.current ((registered_assign hp k.current).mp hreg))
  · exact h.want.imp_right fun hw =>
      ⟨List.mem_append_left _ hw.1, (runsIn_assign_ne (hne _ hw.1)).mpr hw.2⟩

/-- **A process is made**: the others keep their run states. -/
theorem SwitchInv.create (h : SwitchInv k) {parentPID : Pid} (processType : ProcessType) :
    Ensures Wrong (k.newDetachedProcess parentPID processType) fun r => SwitchInv r.2 := by
  refine ((newDetachedProcess_done _).and
    (newDetachedProcess_spec h.table (Or.inl fun _ => id) processType)).mono ?_
  rintro ⟨new, k₁⟩ ⟨hnew, hdet⟩
  have hsame : k₁ = { k with table := k₁.table } := hnew.same
  have hpid : new = k.table.nextNewProcess := hnew.pid
  -- the new id is above all others
  have hold : ∀ q : Pid, q.toNat < k.table.nextNewProcess.toNat →
      SameButChild (k.table.all_processes q.toNat) (k₁.table.all_processes q.toNat) := by
    intro q hq
    exact hnew.others q.toNat fun e =>
      absurd (show q.toNat = new.toNat from e) (by rw [hpid]; omega)
  have hlt : ∀ q, Registered k.table q → q.toNat < k.table.nextNewProcess.toNat := by
    intro q hq
    obtain ⟨p, hp⟩ := Option.isSome_iff_exists.mp hq
    exact h.table.below _ p hp
  have hreg : ∀ q, Registered k.table q → Registered k₁.table q := fun q hq => by
    rw [Registered, (hold q (hlt q hq)).isSome_eq]
    exact hq
  have hruns : ∀ q, RunsIn k.table q → RunsIn k₁.table q := fun q hq =>
    hq.of_sameButChild (hold q (hlt q hq.registered))
  have hcount : k₁.table.nextNewProcess = k.table.nextNewProcess + 1 := hnew.counter
  have hroom : k.table.nextNewProcess.toNat < 256 := by
    rw [← hpid]
    exact hnew.room
  show SwitchInv k₁
  rw [hsame]
  refine ⟨⟨hdet.inv, h.nodup, fun q hq => hreg q (h.queue q hq), h.initQueued, hruns _ h.initRuns,
    fun hcur => h.current ?_, ?_⟩, h.want.imp_right fun hw => ⟨hw.1, hruns _ hw.2⟩⟩
  · change Registered k₁.table k.current at hcur
    rw [Registered, (hold _ h.older).isSome_eq] at hcur
    exact hcur
  · show k.current.toNat < k₁.table.nextNewProcess.toNat
    rw [hcount, BitVec.toNat_add]
    have := h.older
    show k.current.toNat < (k.table.nextNewProcess.toNat + 1) % 0x100000000
    omega

/-- **The running thread ends**: it is out of the table and out of the queue before the decision. -/
theorem SwitchInv.halt (h : SwitchInv k) (hne : k.current ≠ initPid) :
    Ensures Wrong (haltRunning k) SwitchInv := by
  refine Ensures.bind thread_done fun caller hcaller => ?_
  cases hpar : caller.mainThreadInfo.execParent with
  | none => exact Tolerant.fail (by simp [Wrong])
  | some prevInfo =>
    refine Ensures.bind thread_done fun _ _ => ?_
    refine Ensures.bind remove_done fun k₁ hk₁ => ?_
    rcases hk₁ with ⟨hnone, -⟩ | ⟨dead, -, rfl⟩
    · rw [hcaller] at hnone
      cases hnone
    have hin : k.current ∈ k.rrQueue := h.current (registered_of_eq hcaller)
    obtain ⟨i, hget⟩ := List.mem_iff_getElem?.mp hin
    obtain ⟨hlt, -⟩ := List.getElem?_eq_some_iff.mp hget
    obtain ⟨q, hq⟩ := rotateTo_ends (t := k.table.assign k.current none) _ k.rrQueue i hlt hget
      fun pid hpid => by
        by_cases he : pid = k.current
        · exact Or.inl he
        · exact Or.inr ((registered_erase pid).mpr ⟨he, h.queue pid hpid⟩)
    have hperm : (k.current :: q).Perm k.rrQueue := (rotateTo_done _ _).value hq
    obtain ⟨hout, hnodup⟩ := List.nodup_cons.mp (hperm.nodup_iff.mpr h.nodup)
    have hleft : ∀ pid ∈ q, pid ≠ k.current ∧ Registered k.table pid := fun pid hpid =>
      ⟨fun e => hout (e ▸ hpid), h.queue pid (hperm.mem_iff.mp (List.mem_cons_of_mem _ hpid))⟩
    have hinit : initPid ∈ q :=
      (List.mem_cons.mp (hperm.mem_iff.mpr h.initQueued)).resolve_left (Ne.symm hne)
    refine Ensures.bind (Ensures.of_eq hq (Q := fun q' => q' = q) rfl) ?_
    rintro q' rfl
    refine Ensures.bind (setRunState_done .Running) ?_
    rintro k₂ ⟨prev, hprev, rfl⟩
    obtain ⟨hinv, -⟩ := h.table.erase.assign (prev.inState .Running) hprev rfl rfl
    refine Ensures.weaken
      (Ready.makeDecision ⟨hinv, hnodup, fun pid hpid => ?_, hinit, ?_, ?_, h.older⟩)
      NoFault.wrong
    · exact (registered_assign hprev pid).mpr ((registered_erase pid).mpr (hleft pid hpid))
    · exact ((runsIn_assign_ne (Ne.symm hne)).mpr h.initRuns).wake prev
    · intro hreg
      exact absurd rfl ((registered_erase _).mp ((registered_assign hprev _).mp hreg)).1

/-- **The dispatch**: the stack it returns, if any, is that of the pending choice. -/
theorem SwitchInv.dispatch {s : SwitchState} (h : SwitchInv s.kernel) (stackTop : Pid → BitVec 32)
    (num_nest_int : Nat) (vidmap : Option (BitVec 32)) :
    Ensures Wrong (schedDispatchExecution stackTop num_nest_int vidmap s) fun r =>
      SwitchInv r.2.kernel ∧ (r.1 ≠ 0 → RunsIn s.kernel.table s.kernel.wantToSwitchTo ∧
        r.1 = s.esp0 s.kernel.wantToSwitchTo ∧ s.kernel.currentlyRunning ≠ s.kernel.wantToSwitchTo ∧
        r.2.kernel.currentlyRunning = s.kernel.wantToSwitchTo) := by
  have hnull : ∀ {Q : Prop}, (0 : BitVec 32) ≠ 0 → Q := fun h0 => absurd rfl h0
  unfold schedDispatchExecution
  by_cases hnest : num_nest_int > 0
  · simp only [if_pos hnest]
    exact Ensures.pure ⟨h, hnull⟩
  simp only [if_neg hnest]
  by_cases hneg : s.kernel.wantToSwitchTo.slt 0 = true
  · simp only [if_pos hneg]
    exact Ensures.bind thread_done fun current _ => Ensures.pure ⟨h, hnull⟩
  simp only [if_neg hneg]
  by_cases hsame : s.kernel.currentlyRunning = s.kernel.wantToSwitchTo
  · simp only [if_pos hsame]
    exact Ensures.pure ⟨h, hnull⟩
  simp only [if_neg hsame]
  -- a choice is pending, for another thread: it is switched to, unless it has no stack
  obtain ⟨hin, hrun⟩ := h.want.resolve_left hneg
  refine Ensures.bind get_done ?_
  rintro desc ⟨-, hdesc⟩
  refine Ensures.bind (dispatch_done vidmap) ?_
  rintro kernel (⟨hstay, -⟩ | ⟨desc', -, -, hdesc', rfl⟩)
  · exact absurd hstay (not_or.mpr ⟨hneg, hsame⟩)
  have hpid : desc'.pid = s.kernel.wantToSwitchTo := h.table.pid_eq hdesc'
  have hnone : (-1 : BitVec 32).slt 0 = true := by decide
  refine Ensures.pure
    ⟨⟨⟨h.table, h.nodup, h.queue, h.initQueued, h.initRuns, ?_, ?_⟩, Or.inl hnone⟩,
    fun _ => ⟨hrun, rfl, hsame, rfl⟩⟩
  · show Registered s.kernel.table (if _ then s.kernel.current else desc'.pid) →
      (if _ then s.kernel.current else desc'.pid) ∈ s.kernel.rrQueue
    split
    · exact h.current
    · rw [hpid]
      exact fun _ => hin
  · show (if _ then s.kernel.current else desc'.pid).toNat < _
    split
    · exact h.older
    · rw [hpid]
      exact h.table.below _ desc' hdesc'

end Events

/-! ## Runs -/

/-- **One event**: it does not run on for ever, and keeps the invariant. -/
theorem SwitchInv.run {s : SwitchState} (h : SwitchInv s.kernel) {stackTop : Pid → BitVec 32}
    {e : SchedEvent} (hok : InitStays s e) :
    Ensures Wrong (e.run stackTop s) fun s' => SwitchInv s'.kernel := by
  cases e with
  | makeDecision => exact Ensures.map (h.toReady.makeDecision.weaken NoFault.wrong)
  | block => exact Ensures.map (h.toReady.block hok)
  | halt => exact Ensures.map (h.halt hok)
  | unblock pid => exact Ensures.map h.unblock
  | create parentPID processType esp => exact Ensures.map (h.create processType)
  | attachThread pid newState => exact Ensures.map (h.attachThread hok newState)
  | backup num_nest_int currentESP =>
    refine Ensures.of_eq rfl ?_
    unfold schedBackupState
    split
    · exact h
    · exact h
  | dispatch num_nest_int vidmap =>
    exact Ensures.map ((h.dispatch stackTop num_nest_int vidmap).mono fun _ hr => hr.1)

/-- After the boot every thread runs. -/
theorem switchInv_boot {physPages : PhysPageManager numPhysPages} {cpu0_memmap : MemMapManager}
    {k : Kernel} (h : Booted physPages cpu0_memmap k) : SwitchInv k := by
  have hneg : (-1 : BitVec 32).slt 0 = true := by decide
  have hruns : ∀ pid, Registered k.table pid → RunsIn k.table pid := by
    intro pid hreg
    obtain ⟨p, hp⟩ := Option.isSome_iff_exists.mp hreg
    obtain ⟨_, _, _, he⟩ := h.threads _ p hp
    exact ⟨p, hp, congrArg (fun p : Proc.ProcessDesc => p.mainThreadInfo.runState) he⟩
  have hreg : Registered k.table initPid := (h.queue _).mp h.live.initQueued
  refine ⟨⟨h.table, h.nodup, fun pid => (h.queue pid).mp, h.live.initQueued, hruns _ hreg,
    (h.queue _).mpr, ?_⟩, Or.inl (by rw [h.want]; exact hneg)⟩
  obtain ⟨p, hp⟩ := Option.isSome_iff_exists.mp h.live.current
  exact h.table.below _ p hp

/-- The invariant of every run in which the init thread stays. -/
theorem switchInv_of_reach {stackTop : Pid → BitVec 32} {s : SwitchState}
    (hr : Reach (switchMachine stackTop) InitStays s) : SwitchInv s.kernel := by
  refine hr.invariant (I := fun s => SwitchInv s.kernel) ?_ ?_
  · rintro s ⟨physPages, cpu0_memmap, hboot⟩
    exact switchInv_boot ((boot_done physPages cpu0_memmap).value hboot)
  · intro s e s' h hok hstep
    exact (h.run hok).value hstep

/-- **Who is resumed**, in every run in which the init thread stays: a decision always ends, alone
    or inside another event; and a stack that the dispatch returns is the saved stack of a
    registered and running thread, another one than before, which is the one that runs
    afterwards. -/
theorem switchMachine_resumes {stackTop : Pid → BitVec 32} {s : SwitchState}
    (hr : Reach (switchMachine stackTop) InitStays s) :
    (∃ k', s.kernel.makeDecision = .ok k') ∧
    (∀ e, InitStays s e → e.run stackTop s ≠ .error .diverges) ∧
    ∀ num_nest_int vidmap ans s',
      schedDispatchExecution stackTop num_nest_int vidmap s = .ok (ans, s') → ans ≠ 0 →
        ∃ pid p, s.kernel.table.all_processes pid.toNat = some p ∧
        p.mainThreadInfo.runState = .Running ∧ ans = s.esp0 pid ∧ s.kernel.currentlyRunning ≠ pid ∧
        s'.kernel.currentlyRunning = pid := by
  have h := switchInv_of_reach hr
  refine ⟨?_, fun e hok herr => (h.run hok).error herr rfl, ?_⟩
  · obtain ⟨k', hk', -⟩ := h.toReady.makeDecision.exists_ok
    exact ⟨k', hk'⟩
  · intro num_nest_int vidmap ans s' hdone hne
    obtain ⟨⟨p, hp, hrun⟩, hans, hother, hnow⟩ :=
      ((h.dispatch stackTop num_nest_int vidmap).value hdone).2 hne
    exact ⟨_, p, hp, hrun, hans, hother, hnow⟩

instance (s : SwitchState) (e : SchedEvent) : Decidable (InitStays s e) :=
  match e with
  | .makeDecision | .unblock _ | .create _ _ _ | .backup _ _ | .dispatch _ _ => isTrue trivial
  | .block | .halt => inferInstanceAs (Decidable (s.kernel.current ≠ initPid))
  | .attachThread pid _ => inferInstanceAs (Decidable (pid ∉ s.kernel.rrQueue))

/-- One event that `InitStays` allows, carried out. -/
def SchedEvent.exec (stackTop : Pid → BitVec 32) (s : SwitchState) (e : SchedEvent) :
    Option SwitchState :=
  if InitStays s e then (e.run stackTop s).toOption else none

/-- What it computes is a step of a run. -/
theorem SchedEvent.exec_step (stackTop : Pid → BitVec 32) (s : SwitchState) (e : SchedEvent)
    (s' : SwitchState) (h : SchedEvent.exec stackTop s e = some s') :
    InitStays s e ∧ (switchMachine stackTop).step s e s' := by
  obtain ⟨hok, hrun⟩ := Option.ite_none_right_eq_some.mp h
  exact ⟨hok, toOption_eq_some.mp hrun⟩

/-- The init thread is put off with its stack, the guard after it falls asleep, a nested interrupt
    switches nothing, and the others have their turns, until the init thread is chosen again. -/
def oneRound : List SchedEvent :=
  [.makeDecision, .dispatch 0 none, .backup 0 0x7ff0, .makeDecision, .dispatch 0 none, .block,
    .dispatch 1 none, .dispatch 0 none] ++
    (List.replicate 5 [.makeDecision, .dispatch 0 none]).flatten ++ [.unblock 2, .makeDecision]

/-- **A round of the queue**: after the last decision the dispatch returns the stack that the init
    thread was put off with, and the init thread runs. -/
theorem switchMachine_resumes_round : ∃ s s' : SwitchState,
    Reach (switchMachine fun _ => 0) InitStays s ∧
    schedDispatchExecution (fun _ => 0) 0 none s = .ok (0x7ff0, s') ∧
    s.kernel.currentlyRunning = 8 ∧ s'.kernel.currentlyRunning = initPid ∧
    (∃ k', s.kernel.makeDecision = .ok k') ∧
    ∃ pid p, s.kernel.table.all_processes pid.toNat = some p ∧
      p.mainThreadInfo.runState = .Running ∧ 0x7ff0 = s.esp0 pid ∧ s.kernel.currentlyRunning ≠ pid ∧
      s'.kernel.currentlyRunning = pid := by
  have heval : ((boot (.blank _) (MemMapManager.construct fun _ => 0).start).toOption.bind fun k =>
      (oneRound.foldlM (SchedEvent.exec fun _ => 0) ⟨k, fun pid => 0x8000 + pid, 0⟩).bind fun s =>
      (schedDispatchExecution (fun _ => 0) 0 none s).toOption.map fun r =>
        (r.1, s.kernel.currentlyRunning, r.2.kernel.currentlyRunning)) =
      some (0x7ff0, 8, initPid) := by
    decide +kernel
  obtain ⟨k, hboot, heval⟩ := Option.bind_eq_some_iff.mp heval
  obtain ⟨s, hround, heval⟩ := Option.bind_eq_some_iff.mp heval
  obtain ⟨⟨ans, s'⟩, hdispatch, heval⟩ := Option.map_eq_some_iff.mp heval
  obtain ⟨rfl, hbefore, hafter⟩ : ans = 0x7ff0 ∧ s.kernel.currentlyRunning = 8 ∧
      s'.kernel.currentlyRunning = initPid := by simpa using heval
  have hbooted : Reach (switchMachine fun _ => 0) InitStays ⟨k, fun pid => 0x8000 + pid, 0⟩ :=
    .init ⟨_, _, toOption_eq_some.mp hboot⟩
  have hr := hbooted.foldlM (SchedEvent.exec_step _) oneRound hround
  have hdone := toOption_eq_some.mp hdispatch
  obtain ⟨hdecides, -, hresumes⟩ := switchMachine_resumes hr
  exact ⟨s, s', hr, hdone, hbefore, hafter, hdecides, hresumes 0 none _ s' hdone (by decide)⟩

end TedkOS.Syscalls
