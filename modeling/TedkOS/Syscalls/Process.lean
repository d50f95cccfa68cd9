/-
  The system calls that make and end processes: `execute` (syscalls/exec.cpp, exec_check.cpp),
  `halt` (syscalls/halt.cpp), `fork` and `dotask` (syscalls/syscalls.cpp), and the kernel they are
  issued in, from the boot on (kernel.cpp, init/init.cpp).

  A system call runs to its end and then the outermost interrupt returns through the scheduler, so
  an `Event` of the machine is the body of a call, or of an interrupt, with the switch after it.

  The file system enters by what `theDispatcher->open` finds under a name; the result of a call is
  the value its caller gets, where the caller gets one at once.
-/
import TedkOS.Lib.Runs
import TedkOS.Proc.Sched

namespace TedkOS.Syscalls

open Fs Klibs Palloc PhysPages Proc Runs

/-- The file system, and what it opens for a name. -/
structure FileSystem where
  kissFS : KissFS
  openPath : List (BitVec 8) → Option FsSpecificData

/-- The 32-bit word at `off`. -/
def wordAt (mem : Nat → BitVec 8) (off : Nat) : BitVec 32 :=
  mem (off + 3) ++ mem (off + 2) ++ mem (off + 1) ++ mem off

/-- `S_ISREG(m)`. -/
def S_ISREG (m : BitVec 32) : Bool := m &&& 0xf000 = S_IFREG

/-! ## `execute` -/

/-- `is_kiss_executable(filename)`: a regular file that starts with the ELF magic number. -/
def is_kiss_executable (fs : FileSystem) (filename : List (BitVec 8)) : Bool :=
  match fs.openPath filename with
  | some (.kissFS data) =>
    if !S_ISREG (wordAt (contents (fun _ => 0) (fs.kissFS.fstat data)) st_mode) then false
    else
      let r := fs.kissFS.read data (fun _ => 0) 0 4
      let buf := contents (fun _ => 0) r.stores
      match r.ret with
      | .value len =>
        !decide (len < 4) && buf 0 == 0x7f && buf 1 == 0x45 && buf 2 == 0x4c && buf 3 == 0x46
      | _ => false
  -- a device is not a regular file
  | some (.devFS _) => false
  | none => false

/-- `get_arg_position(filename, filename_len)`: where the argument starts, if there is one, and the
    name the first space is cut off at. -/
def get_arg_position (filename : List (BitVec 8)) : Option Nat × List (BitVec 8) :=
  let name := filename.takeWhile (· ≠ 0x20)
  if name.length = filename.length then (none, filename)
  else
    let j := name.length + ((filename.drop name.length).takeWhile (· = 0x20)).length
    (if j < filename.length then some j else none, name)

/-- `do_exec` from the child on: its argument, a page for its image, the terminal of the caller.
    What it returns is the id of the child, or 256. -/
def setUpChild (arg : Option (List (BitVec 8))) (term : Option Nat) (child_upid : Pid)
    (child : Proc.ProcessDesc) (k : Kernel) : Pid × Kernel :=
  let child := if arg.isSome then { child with arg } else child
  let (physIdx, physPages) := k.physPages.allocPage false
  let k := { k with physPages }
  match physIdx with
  | none =>
    -- Memory full.
    (256, { k with table := k.table.assign child_upid (some child) })
  | some physIdx =>
    let physAddr := PhysAddr.ofIndex (BitVec.ofNat 16 physIdx) (PG_WRITABLE ||| PG_USER)
    match child.memmap.add code_page_vaddr_base physAddr with
    | (false, _) =>
      -- child virt addr space became weird.
      (256, { k with table := k.table.assign child_upid (some child) })
    | (true, memmap) =>
      let child := { child with
        memmap
        heapStartingPageIdx := code_page_vaddr_base.vidx + 2
        currTerm := term }
      (child_upid, { k with table := k.table.assign child_upid (some child) })

/-- `do_exec(arg0)`: the id of the child, or a code. -/
def do_exec (fs : FileSystem) (arg0 : List (BitVec 8)) (k : Kernel) : Except Fault (Pid × Kernel) :=
  do
  let (arg_index, file) := get_arg_position arg0
  -- "no such command"
  if !is_kiss_executable fs file then return (-1, k)
  let caller ← k.table.thread k.current
  let (child_upid, k) ← k.newDetachedProcess caller.pid .USER_PROCESS
  -- Out of PIDs
  if child_upid.slt 0 then return (256, k)
  let child ← k.table.get child_upid
  return setUpChild (arg_index.map arg0.drop) caller.currTerm child_upid child k

/-- `sysexec(file)`: `none` stands for a pointer that `validUserPointer` refuses. -/
def sysexec (fs : FileSystem) (file : Option (List (BitVec 8))) (k : Kernel) :
    Except Fault (BitVec 32 × Kernel) := do
  match file with
  | none => return (-1, k)
  | some file =>
    let (child_upid, k) ← do_exec fs file k
    if child_upid.slt 0 then return (child_upid, k)
    -- Request context switch
    let child ← k.table.get child_upid
    let k ← k.attachThread child.pid .Running
    -- this will automatically make decision
    let k ← k.block k.current
    return (0, k)

/-! ## The other calls -/

/-- `syshalt(retval)`, and what a fault of a user program comes to. -/
def syshalt (k : Kernel) : Except Fault (BitVec 32 × Kernel) := do
  let caller ← k.table.thread k.current
  match caller.mainThreadInfo.execParent with
  | none => return (-1, k)
  | some prevInfo =>
    let k ← k.halt caller.pid prevInfo
    return (0, k)

/-- `fork()`. -/
def fork (k : Kernel) : Except Fault (BitVec 32 × Kernel) := do
  let caller ← k.table.thread k.current
  let (child_upid, k) ← k.newDetachedProcess (-1) caller.mainThreadInfo.type
  let child ← k.table.get child_upid
  let caller ← k.table.thread k.current
  -- the whole thread is copied, its links to parent and child too
  let k := { k with table := k.table.assign child_upid (some { child with
    mainThreadInfo := caller.mainThreadInfo
    memmap := caller.memmap }) }
  let k ← k.attachThread child.pid .Running
  return (1, k)

/-- `dotask(pid)`, for whatever number the user passes. -/
def dotask (pid : Pid) (k : Kernel) : Except Fault (BitVec 32 × Kernel) := do
  if ← k.table.has pid then
    let p ← k.table.get pid
    let k ← k.attachThread p.pid .Running
    let k ← k.makeDecision
    return (0, k)
  else return (-1, k)

/-! ## The machine -/

/-- What the thread in `current` or the machine does next. -/
inductive Event where
  | execute (file : Option (List (BitVec 8)))
  | halt
  | fork
  | dotask (pid : Pid)
  /-- A driver puts the caller to sleep. -/
  | sleep
  /-- A driver wakes a thread it put to sleep. -/
  | wake (pid : Pid)
  | tick
  /-- A timer interrupt inside another interrupt: nothing is switched on its return. -/
  | nestedTick

/-- The body of an event. -/
def Event.body (fs : FileSystem) (k : Kernel) : Event → Except Fault Kernel
  | execute file => Prod.snd <$> sysexec fs file k
  | halt => Prod.snd <$> syshalt k
  | fork => Prod.snd <$> Syscalls.fork k
  | dotask pid => Prod.snd <$> Syscalls.dotask pid k
  | sleep => k.block k.current
  | wake pid => k.unblock pid
  | tick => k.makeDecision
  | nestedTick => k.makeDecision

/-- An event and the switch after it. -/
def Event.run (fs : FileSystem) (vidmap : Option (BitVec 32)) (k : Kernel) (e : Event) :
    Except Fault Kernel := do
  let k ← e.body fs k
  match e with
  | nestedTick => return k
  | _ => k.schedDispatchExecution vidmap

/-! ## The boot -/

def numTextTerms : Nat := 6
def numClients : Nat := 7

/-- The loop of `init_main` that starts a guard process for every client, from client `i` on. -/
def startClients : Nat → Nat → Kernel → Except Fault Kernel
  | 0, _, k => .ok k
  | left + 1, i, k => do
    let (pid, k) ← k.makeKThread
    let proc ← k.table.get pid
    let currTerm := if i < numTextTerms then some i else none
    let k := { k with table := k.table.assign pid (some { proc with currTerm }) }
    let k ← k.attachThread pid .Running
    startClients left (i + 1) k

/-- The static state at reset. -/
def atReset (physPages : PhysPageManager numPhysPages) (cpu0_memmap : MemMapManager) : Kernel where
  table := ⟨1, fun _ => none⟩
  rrQueue := []
  wantToSwitchTo := -1
  currentlyRunning := -1
  isFallbackTerm := true
  current := 0
  physPages
  cpu0_memmap

/-- The kernel when `init_main` enables interrupts, on what memory the drivers left. -/
def boot (physPages : PhysPageManager numPhysPages) (cpu0_memmap : MemMapManager) :
    Except Fault Kernel := do
  let (thread, k) ← (atReset physPages cpu0_memmap).makeKThread
  -- forceStartThread(thread)
  let k ← k.attachThread thread .Running
  let k ← startClients numClients 0 { k with current := thread }
  return { k with isFallbackTerm := false }

/-- Runs of the kernel, from any boot that goes through. -/
def kernelMachine (fs : FileSystem) : Machine Kernel (Event × Option (BitVec 32)) where
  init k := ∃ physPages cpu0_memmap, boot physPages cpu0_memmap = .ok k
  step k a k' := a.1.run fs a.2 k = .ok k'

end TedkOS.Syscalls
