/-
  The scheduler (proc/sched.cpp): the run queue, the decision who runs next, and the switch.

  A decision only records its choice in `wantToSwitchTo`; the switch happens when the outermost
  interrupt returns (`schedDispatchExecution`).  Threads are named by their processes, and `current`
  is the thread whose kernel stack is in use.

  The loops over the run queue have no exit but success, so they get as many rounds as the queue is
  long: when a full turn has changed nothing, no later one will.
-/
import TedkOS.Palloc.PhysPages
import TedkOS.Proc.Tasks

namespace TedkOS.Proc

open Palloc PhysPages

/-- Processes, scheduler, and the memory they live on. -/
structure Kernel where
  table : ProcessTable
  rrQueue : List Pid
  wantToSwitchTo : BitVec 32
  currentlyRunning : BitVec 32
  isFallbackTerm : Bool
  current : Pid
  physPages : PhysPageManager numPhysPages
  cpu0_memmap : MemMapManager

/-- `code_page_vaddr_base`. -/
def code_page_vaddr_base : VirtAddr := ⟨0x08000000⟩

namespace Kernel

variable (k : Kernel)

/-- `pcb->runState = newState`. -/
def setRunState (pid : Pid) (newState : ThreadState) : Except Fault Kernel := do
  let p ← k.table.thread pid
  return { k with table := k.table.assign pid (some { p with
    mainThreadInfo := { p.mainThreadInfo with runState := newState } }) }

/-- `attachThread(pcb, newState)`. -/
def attachThread (pid : Pid) (newState : ThreadState) : Except Fault Kernel := do
  let k ← k.setRunState pid newState
  return { k with rrQueue := k.rrQueue ++ [pid] }

/-- The loop of `makeDecisionNoLock`: the first running thread, and the others as rotated. -/
def findRunning (t : ProcessTable) : Nat → List Pid → Except Fault (Pid × List Pid)
  | 0, _ => .error .diverges
  | _ + 1, [] => .error .nullPointer
  | rounds + 1, next :: rest => do
    let p ← t.thread next
    if p.mainThreadInfo.runState = .Running then return (next, rest)
    else findRunning t rounds (rest ++ [next])

/-- `makeDecisionNoLock()`, and `makeDecision()`. -/
def makeDecision : Except Fault Kernel := do
  if k.rrQueue = [] then return k
  let (next, rest) ← findRunning k.table k.rrQueue.length k.rrQueue
  return { k with wantToSwitchTo := next, rrQueue := rest ++ [next] }

/-- `block(thread)`. -/
def block (pid : Pid) : Except Fault Kernel := do
  let k ← k.setRunState pid .Waiting
  k.makeDecision

/-- `unblock(thread)`. -/
def unblock (pid : Pid) : Except Fault Kernel := k.setRunState pid .Running

/-- `isFallbackTerm ? KeyB::getFirstTextTerm() : ProcessDesc::get(parentPID).currTerm`. -/
def initialTerm (table : ProcessTable) (parentPID : Pid) : Except Fault (Option Nat) := do
  if k.isFallbackTerm then return some 0
  else
    let parent ← table.get parentPID
    return parent.currTerm

/-- `newDetachedProcess(parentPID, processType)`. -/
def newDetachedProcess (parentPID : Pid) (processType : ProcessType) :
    Except Fault (Pid × Kernel) := do
  let (pd, registered, table) ← k.table.newProcess parentPID processType
  let currTerm ← k.initialTerm table parentPID
  -- a process the table does not have is out of reach
  let table := if registered then table.assign pd.pid (some { pd with currTerm }) else table
  return (pd.pid, { k with table })

/-- `~ProcessDesc()`: the heap pages go, and the page the LOADED map has at the code address. -/
def destroy (p : ProcessDesc) : PhysPageManager numPhysPages :=
  let heapFreed := p.heapPhysicalPages.items.reverse.foldl (fun o idx => o.freePage idx) k.physPages
  heapFreed.freePage (k.cpu0_memmap.loaded.translate code_page_vaddr_base).index

/-- `ProcessDesc::remove(pid)`. -/
def remove (pid : Pid) : Except Fault Kernel := do
  match ← k.table.entry pid with
  | some p => return { k with physPages := k.destroy p, table := k.table.assign pid none }
  | none => return k

/-- The loop of `halt`: rotate until the halting thread is in front, and pop it.  (Its memory is
    free by now, and still holds what it held.) -/
def rotateTo (t : ProcessTable) (own : Pid) : Nat → List Pid → Except Fault (List Pid)
  | 0, _ => .error .diverges
  | _ + 1, [] => .error .nullPointer
  | rounds + 1, front :: rest =>
    if front = own then .ok rest
    else do
      let _ ← t.thread front
      rotateTo t own rounds (rest ++ [front])

/-- `scheduler::halt(pcb, retval)` for the thread of process `own`, whose parent is `prevInfo`. -/
def halt (own prevInfo : Pid) : Except Fault Kernel := do
  -- getRegs(prevInfo)->eax = retval
  let _ ← k.table.thread prevInfo
  let k ← k.remove own
  let rrQueue ← rotateTo k.table own k.rrQueue.length k.rrQueue
  let k ← { k with rrQueue }.setRunState prevInfo .Running
  k.makeDecision

/-- `schedDispatchExecution` at the outermost interrupt; `vidmap` is what the terminal of the thread
    switched to maps at page 0, if anything. -/
def schedDispatchExecution (vidmap : Option (BitVec 32)) : Except Fault Kernel := do
  if k.wantToSwitchTo.slt 0 then return k
  if k.currentlyRunning = k.wantToSwitchTo then return k
  let desc ← k.table.get k.wantToSwitchTo
  return { k with
    cpu0_memmap := (k.cpu0_memmap.loadProcessMap ⟨desc.memmap, vidmap⟩).2
    currentlyRunning := k.wantToSwitchTo
    wantToSwitchTo := -1
    current := desc.pid }

/-- `makeKThread(entry)`. -/
def makeKThread : Except Fault (Pid × Kernel) := do
  let (child_upid, k) ← k.newDetachedProcess (-1) .KERNEL_PROCESS
  if child_upid.slt 0 then .error .nullPointer
  else
    let proc ← k.table.get child_upid
    return (proc.pid, k)

end Kernel

end TedkOS.Proc
