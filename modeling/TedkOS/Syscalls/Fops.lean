/-
  The system calls that fill a buffer of the caller: `read`, `fstat`
  (syscalls/filesystem_wrapper.cpp), `getargs` (syscalls/getargs.cpp) and `vidmap`
  (syscalls/syscalls.cpp).

  A call is made by one thread, of process `proc`, under the address space `mem`.  Its result lists
  every byte the kernel stores through the pointer the caller passed, by its address.  Addresses are
  computed as the processor does, modulo 2^32.
-/
import TedkOS.Proc.Tasks
import TedkOS.Syscalls.UserMemory

namespace TedkOS.Syscalls

open Fs Klibs Proc

/-- `PRE_INIT_VIDEO`, where text memory is mapped for the user. -/
def PRE_INIT_VIDEO : BitVec 32 := 0xB8000

/-- What a system call sees: the address space in use, the file system, the terminals, and what the
    rest of the machine contributes. -/
structure CallState where
  mem : AddressSpace
  kissFS : KissFS
  terms : Nat → Term
  env : Env

/-- The result of a call: how it ends, the stores through the caller's pointer, and the process and
    terminals after it. -/
structure Access where
  ret : Ret
  stores : List (BitVec 32 × BitVec 8)
  proc : ProcessDesc
  terms : Nat → Term

/-- The addresses of stores made through `ptr`. -/
def through (ptr : BitVec 32) (stores : List (Nat × BitVec 8)) : List (BitVec 32 × BitVec 8) :=
  stores.map fun st => (ptr + BitVec.ofNat 32 st.1, st.2)

namespace CallState

variable (s : CallState)

/-- A call that ends with `result` and touches nothing. -/
def fail (result : BitVec 32) (proc : ProcessDesc) : Access := ⟨.value result, [], proc, s.terms⟩

/-- `ensureFdInitialized(proc)`: opening `/dev/keyb` and `/dev/term` takes a terminal. -/
def ensureFdInitialized (proc : ProcessDesc) : Option ProcessDesc :=
  if proc.fdInitialized then some proc
  else if proc.currTerm.isNone then none
  else some { proc with
    fileDescs := (proc.fileDescs.store 0 (some ⟨0, .devFS .keyb⟩)).store 1 (some ⟨0, .devFS .term⟩)
    fdInitialized := true }

/-- The checks `read` and `fstat` share: the process with its descriptors set up, and the open
    file. -/
def openFile (proc : ProcessDesc) (fd : BitVec 32) : Option (ProcessDesc × File) :=
  match ensureFdInitialized proc with
  | none => none
  | some proc =>
    if !proc.fileDescs.isValid fd then none
    else (proc.fileDescs.content fd.toNat).map fun file => (proc, file)

/-- The process after the checks, whether or not they succeed. -/
def prepared (proc : ProcessDesc) : ProcessDesc := (ensureFdInitialized proc).getD proc

/-- `read(fd, buf, nbytes)`. -/
def read (proc : ProcessDesc) (fd buf nbytes : BitVec 32) : Access :=
  if !validUserPointer proc.mainThreadInfo.isKernel s.mem buf then s.fail (-1) proc
  else
    match openFile proc fd with
    | none => s.fail (-1) (prepared proc)
    | some (proc, file) =>
      let r := file.read s.kissFS s.env (proc.currTerm.map s.terms) proc.pid buf nbytes
      ⟨r.ret, through buf r.stores,
        { proc with fileDescs := proc.fileDescs.store fd.toNat (some r.next.1) },
        match proc.currTerm, r.next.2 with
        | some t, some term => Function.update s.terms t term
        | _, _ => s.terms⟩

/-- `fstat(fd, st)`. -/
def fstat (proc : ProcessDesc) (fd st : BitVec 32) : Access :=
  match openFile proc fd with
  | none => s.fail (-1) (prepared proc)
  | some (proc, file) => ⟨.value 0, through st (file.fstat s.kissFS), proc, s.terms⟩

/-- `getargs(buf, nbytes)`. -/
def getargs (proc : ProcessDesc) (buf nbytes : BitVec 32) : Access :=
  if !validUserPointer proc.mainThreadInfo.isKernel s.mem buf then s.fail (-1) proc
  else
    match proc.arg with
    | none => ⟨.value 0, through buf (memcpy 0 [0]), proc, s.terms⟩
    | some arg =>
      let arg_len := BitVec.ofNat 32 arg.length
      if nbytes.slt (arg_len + 1) then s.fail (-1) proc
      else ⟨.value 0, through buf (memcpy 0 (arg.take arg_len.toNat ++ [0])), proc, s.terms⟩

/-- `vidmap(ans)`; a process without a terminal goes through a null pointer. -/
def vidmap (proc : ProcessDesc) (ans : BitVec 32) : Access :=
  if !validUserPointer proc.mainThreadInfo.isKernel s.mem ans then s.fail (-EFOPS) proc
  else
    match proc.currTerm with
    | none => ⟨.exception, [], proc, s.terms⟩
    | some t =>
      if (s.terms t).vidmapOwner.isSome then s.fail (-EFOPS) proc
      else
        ⟨.value 0, through ans (memcpy 0 (wordBytes PRE_INIT_VIDEO)), proc,
          Function.update s.terms t { s.terms t with vidmapOwner := some proc.pid }⟩

end CallState

/-- The calls, with the arguments a user puts in the registers. -/
inductive UserCall where
  | read (fd buf nbytes : BitVec 32)
  | fstat (fd st : BitVec 32)
  | getargs (buf nbytes : BitVec 32)
  | vidmap (ans : BitVec 32)

/-- A call made by a thread of `proc`. -/
def UserCall.issue (s : CallState) (proc : ProcessDesc) : UserCall → Access
  | read fd buf nbytes => s.read proc fd buf nbytes
  | fstat fd st => s.fstat proc fd st
  | getargs buf nbytes => s.getargs proc buf nbytes
  | vidmap ans => s.vidmap proc ans

end TedkOS.Syscalls
