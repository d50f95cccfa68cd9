/-
  Processes and their threads (inc/proc/tasks.h, proc/tasks.cpp).

  Every process has one thread, so a `thread_kinfo*` is named by the process id of its owner.  The
  table `all_processes` is a plain array of 256 pointers, and nothing checks an index before it is
  used: the operations stop with a `Fault` where the code would read or write past the array, go
  through a null pointer, or use a thread whose process is gone.

  Process ids are `int32_t`; the counter they come from is a `size_t`.  Both are `BitVec 32`.
-/
import TedkOS.Klibs.BitSet
import TedkOS.Klibs.Stack
import TedkOS.Palloc.MemMapManager
import TedkOS.Fs.Dispatcher

namespace TedkOS.Proc

open Fs Palloc

abbrev Pid := BitVec 32

inductive ProcessType where
  | KERNEL_PROCESS
  | USER_PROCESS
deriving DecidableEq

inductive ThreadState where
  | New
  | Running
  | Waiting
  | Terminated
deriving DecidableEq

/-- `thread_pcb`. -/
structure ThreadInfo where
  type : ProcessType
  runState : ThreadState
  execChild : Option Pid
  execParent : Option Pid

def ThreadInfo.isKernel (t : ThreadInfo) : Bool := t.type = .KERNEL_PROCESS

/-! ## File descriptors -/

def FD_ARRAY_LENGTH : Nat := 128
def FD_FIXED_PART : Nat := 2

structure FileDescArr where
  content : Nat → Option File
  freeFDs : Stack Nat FD_ARRAY_LENGTH
  isFDfree : BitSet FD_ARRAY_LENGTH

namespace FileDescArr

/-- The second loop of the constructor, from `i` on. -/
def freeLoop : Nat → Nat → FileDescArr → FileDescArr
  | 0, _, a => a
  | left + 1, i, a =>
    freeLoop left (i + 1) { a with isFDfree := a.isFDfree.set i, freeFDs := a.freeFDs.push i }

/-- `FileDescArr()`: 0 and 1 are taken, the rest is free. -/
def new : FileDescArr :=
  freeLoop (FD_ARRAY_LENGTH - FD_FIXED_PART) FD_FIXED_PART
    ⟨fun _ => none, Stack.new _ _, ((BitSet.new _).clear 0).clear 1⟩

def alloc (a : FileDescArr) : Option Nat × FileDescArr :=
  if a.freeFDs.empty then (none, a)
  else
    let (ans, freeFDs) := a.freeFDs.pop
    (some ans, { a with freeFDs, isFDfree := a.isFDfree.clear ans })

/-- `isValid(i)`, for a descriptor as the user passed it. -/
def isValid (a : FileDescArr) (i : BitVec 32) : Bool :=
  if i.toNat ≥ FD_ARRAY_LENGTH then false
  else if a.isFDfree.test i.toNat then false
  else (a.content i.toNat).isSome

def recycle (i : Nat) (a : FileDescArr) : FileDescArr :=
  if a.isFDfree.test i then a
  else { a with isFDfree := a.isFDfree.set i, freeFDs := a.freeFDs.push i }

def store (a : FileDescArr) (i : Nat) (fd : Option File) : FileDescArr :=
  { a with content := Function.update a.content i fd }

end FileDescArr

/-! ## Processes -/

/-- `ProcessDesc`; `currTerm` names one of the terminals. -/
structure ProcessDesc where
  pid : Pid
  fileDescs : FileDescArr
  fdInitialized : Bool
  mainThreadInfo : ThreadInfo
  memmap : TinyMemMap
  heapPhysicalPages : Stack Nat 1024
  heapStartingPageIdx : Nat
  heapSize : BitVec 32
  numHeapPages : Nat
  /-- The argument string, without its NUL. -/
  arg : Option (List (BitVec 8))
  currTerm : Option Nat

/-- `ProcessDesc(_pid, processType)`; the constructor leaves `currTerm` to its caller. -/
def ProcessDesc.new (_pid : Pid) (processType : ProcessType) : ProcessDesc where
  pid := _pid
  fileDescs := FileDescArr.new
  fdInitialized := false
  mainThreadInfo := ⟨processType, .New, none, none⟩
  memmap := TinyMemMap.new
  heapPhysicalPages := Stack.new _ _
  heapStartingPageIdx := 0
  heapSize := 0
  numHeapPages := 0
  arg := none
  currTerm := none

/-! ## The table -/

def MAX_NUM_PROCESS : Nat := 256

/-- Where the code does what C++ leaves undefined, or never comes back. -/
inductive Fault where
  /-- `all_processes[i]` with no such `i`. -/
  | outOfBounds (i : Pid)
  /-- `*all_processes[pid]`, and the pointer is null. -/
  | notRegistered (pid : Pid)
  /-- The thread of a process that was removed. -/
  | dangling (pid : Pid)
  | nullPointer
  | diverges
deriving DecidableEq

/-- The static members of `ProcessDesc`. -/
structure ProcessTable where
  nextNewProcess : BitVec 32
  all_processes : Nat → Option ProcessDesc

namespace ProcessTable

variable (t : ProcessTable)

/-- `all_processes[pid]`. -/
def entry (pid : Pid) : Except Fault (Option ProcessDesc) :=
  if pid.toNat < MAX_NUM_PROCESS then .ok (t.all_processes pid.toNat) else .error (.outOfBounds pid)

/-- `all_processes[pid] = p`, and writes through the pointer there. -/
def assign (pid : Pid) (p : Option ProcessDesc) : ProcessTable :=
  { t with all_processes := Function.update t.all_processes pid.toNat p }

def get (pid : Pid) : Except Fault ProcessDesc := do
  match ← t.entry pid with
  | some p => return p
  | none => .error (.notRegistered pid)

def has (pid : Pid) : Except Fault Bool := do return (← t.entry pid).isSome

/-- The process behind a `thread_kinfo*`. -/
def thread (pid : Pid) : Except Fault ProcessDesc :=
  match t.all_processes pid.toNat with
  | some p => .ok p
  | none => .error (.dangling pid)

/-- The first half of `newProcess`: the parent, if there is to be one, with its new child. -/
def adopt (parentPID : Pid) (child : Pid) : Except Fault (Option Pid × ProcessTable) := do
  if parentPID.slt 0 then return (none, t)
  else
    let parent ← t.get parentPID
    return (some parent.pid, t.assign parentPID (some { parent with
      mainThreadInfo := { parent.mainThreadInfo with execChild := some child } }))

/-- `newProcess(parentPID, processType)`: the process, whether the table has it, and the table. -/
def newProcess (parentPID : Pid) (processType : ProcessType) :
    Except Fault (ProcessDesc × Bool × ProcessTable) := do
  let pid := t.nextNewProcess
  let p := ProcessDesc.new pid processType
  let (parentInfo, t) ← t.adopt parentPID pid
  let p := { p with mainThreadInfo := { p.mainThreadInfo with execParent := parentInfo } }
  let old ← t.entry pid
  let t := if old.isNone then t.assign pid (some p) else t
  return (p, old.isNone, { t with nextNewProcess := t.nextNewProcess + 1 })

end ProcessTable

end TedkOS.Proc
