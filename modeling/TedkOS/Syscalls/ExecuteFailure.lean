/-
  What a failed `execute` leaves behind (syscalls/exec.cpp).

  `do_exec` can give up at four points.  At the first of them, when the file is no executable, it
  returns -1 and nothing has happened.  At the other three the child is in the table already and the
  code is 256, while `sysexec` tests for a negative code only: it goes on and looks up process 256,
  which the array has no room for.

  So, in any state of the kernel, a program that cannot be started fails cleanly exactly when it is
  not an executable.
-/
import TedkOS.Syscalls.Booted

namespace TedkOS.Syscalls

open Checked Fs Palloc PhysPages Proc

/-! ## A start that cannot succeed

  The file is no executable, or there is no page for its image, or no place for that page in the
  map. -/

/-- The map that the image page of the next child goes into: an empty one, unless the slot of the
    table is taken. -/
def childMap (k : Kernel) : TinyMemMap :=
  match k.table.all_processes k.table.nextNewProcess.toNat with
  | some old => old.memmap
  | none => TinyMemMap.new

/-- There is a page for the image, and the map of the child takes it. -/
def ImageFits (k : Kernel) : Prop :=
  ∃ physIdx, (k.physPages.allocPage false).1 = some physIdx ∧
    ((childMap k).add code_page_vaddr_base
      (PhysAddr.ofIndex (BitVec.ofNat 16 physIdx) (PG_WRITABLE ||| PG_USER))).1 = true

/-- The file named by the command string is an executable. -/
def Executable (fs : FileSystem) (arg0 : List (BitVec 8)) : Prop :=
  is_kiss_executable fs (get_arg_position arg0).2 = true

/-- `do_exec` cannot start the program: no executable file, no page, or no place for it. -/
def CannotStart (fs : FileSystem) (k : Kernel) (arg0 : List (BitVec 8)) : Prop :=
  ¬ Executable fs arg0 ∨ ¬ ImageFits k

/-- The run state of a process of the table. -/
def runStateOf (k : Kernel) (pid : Pid) : Option ThreadState :=
  (k.table.all_processes pid.toNat).map fun p => p.mainThreadInfo.runState

/-- The call comes back with an error, the caller and the queue are as before, and no process has
    come. -/
def NothingHappened (fs : FileSystem) (k : Kernel) (arg0 : List (BitVec 8)) : Prop :=
  ∃ code k', sysexec fs (some arg0) k = .ok (code, k') ∧ code.slt 0 = true ∧
    runStateOf k' k.current = runStateOf k k.current ∧ k'.rrQueue = k.rrQueue ∧
    ∀ pid, Registered k'.table pid → Registered k.table pid

/-! ## One call -/

section Call

variable {fs : FileSystem} {k : Kernel} {arg0 : List (BitVec 8)}

/-- Without an executable nothing happens. -/
theorem nothingHappened_of_not_executable (h : ¬ Executable fs arg0) :
    NothingHappened fs k arg0 := by
  have hexec : do_exec fs arg0 k = .ok (-1, k) := by
    unfold do_exec
    unfold Executable at h
    generalize get_arg_position arg0 = args at h ⊢
    obtain ⟨arg_index, file⟩ := args
    simp only [Bool.not_eq_true] at h
    simp only [h, Bool.not_false, if_true]
    rfl
  refine ⟨-1, k, ?_, by decide, rfl, rfl, fun pid hpid => hpid⟩
  have hneg : (-1 : Pid).slt 0 = true := by decide
  unfold sysexec
  simp only [hexec, ok_bind, hneg, if_true]
  rfl

/-- A child whose image finds no page, or no place, is set up to the code 256. -/
theorem setUpChild_fails {arg : Option (List (BitVec 8))} {term : Option Nat} {child_upid : Pid}
    {child : Proc.ProcessDesc}
    (h : ¬ ∃ physIdx, (k.physPages.allocPage false).1 = some physIdx ∧
      (child.memmap.add code_page_vaddr_base
        (PhysAddr.ofIndex (BitVec.ofNat 16 physIdx) (PG_WRITABLE ||| PG_USER))).1 = true) :
    (setUpChild arg term child_upid child k).1 = 256 := by
  unfold setUpChild
  have hmap : (if arg.isSome then { child with arg } else child : Proc.ProcessDesc).memmap =
      child.memmap := by
    split <;> rfl
  generalize (if arg.isSome then { child with arg } else child : Proc.ProcessDesc) = c at hmap
  cases halloc : k.physPages.allocPage false with
  | mk page physPages =>
    cases page with
    | none => rfl
    | some physIdx =>
      simp only
      cases hadd : c.memmap.add code_page_vaddr_base
          (PhysAddr.ofIndex (BitVec.ofNat 16 physIdx) (PG_WRITABLE ||| PG_USER)) with
      | mk added memmap =>
        cases added with
        | false => rfl
        | true =>
          rw [hmap] at hadd
          exact absurd ⟨physIdx, by rw [halloc], by rw [hadd]⟩ h

/-- The process found under the id of the new child has the map of `childMap`. -/
theorem Spawned.memmap_eq {parentPID : Pid} {processType : ProcessType} {r : Pid × Kernel}
    (h : Spawned k parentPID processType r) {child : Proc.ProcessDesc}
    (hc : r.2.table.all_processes r.1.toNat = some child) : child.memmap = childMap k := by
  unfold childMap
  rw [← h.pid]
  cases hold : k.table.all_processes r.1.toNat with
  | none =>
    obtain ⟨execParent, currTerm, hnew⟩ := h.child hold
    rw [hc] at hnew
    rw [Option.some.inj hnew]
    rfl
  | some old =>
    have hview := (h.others r.1.toNat fun _ => by rw [hold]; rfl).view Proc.ProcessDesc.memmap
      fun _ => rfl
    rw [hc, hold] at hview
    exact Option.some.inj hview

/-- An executable that cannot be started ends `do_exec` with the code 256, if `do_exec` ends. -/
theorem do_exec_fails (hexe : Executable fs arg0) (hfit : ¬ ImageFits k) :
    Ensures AnyFault (do_exec fs arg0 k) fun r => r.1 = 256 := by
  unfold do_exec
  unfold Executable at hexe
  generalize get_arg_position arg0 = args at hexe ⊢
  obtain ⟨arg_index, file⟩ := args
  simp only [hexe, Bool.not_true, Bool.false_eq_true, if_false]
  refine Ensures.bind thread_done fun caller _ => ?_
  refine Ensures.bind (newDetachedProcess_done _) ?_
  rintro ⟨child_upid, k₁⟩ hnew
  simp only
  split
  · exact Ensures.pure rfl
  · refine Ensures.bind get_done ?_
    rintro child ⟨-, hchild⟩
    refine Ensures.pure (setUpChild_fails ?_)
    have hmap : child.memmap = childMap k := Spawned.memmap_eq hnew hchild
    have hsame : k₁ = { k with table := k₁.table } := hnew.same
    have hphys : k₁.physPages = k.physPages := by rw [hsame]
    rw [hmap, hphys]
    exact hfit

/-- **It never comes back from that**: `sysexec` takes 256 for a process id. -/
theorem sysexec_fails (hexe : Executable fs arg0) (hfit : ¬ ImageFits k) :
    Ensures AnyFault (sysexec fs (some arg0) k) fun _ => False := by
  refine Ensures.bind (do_exec_fails hexe hfit) ?_
  rintro ⟨code, k₁⟩ hcode
  change code = 256 at hcode
  subst hcode
  have hpos : (256 : Pid).slt 0 = false := by decide
  simp only [hpos, Bool.false_eq_true, if_false]
  refine Ensures.bind get_done ?_
  rintro child ⟨hlt, -⟩
  exact absurd hlt (by decide)

theorem not_nothingHappened (hexe : Executable fs arg0) (hfit : ¬ ImageFits k) :
    ¬ NothingHappened fs k arg0 := by
  rintro ⟨code, k', hok, -⟩
  exact (sysexec_fails hexe hfit).value hok

end Call

/-- **When a failed `execute` leaves nothing behind**, for every command string and every kernel:
    when the image of an executable would fit, so that only files that are none can fail. -/
theorem execute_allOrNothing_iff (fs : FileSystem) (arg0 : List (BitVec 8)) (k : Kernel) :
    (CannotStart fs k arg0 → NothingHappened fs k arg0) ↔ (Executable fs arg0 → ImageFits k) := by
  constructor
  · intro h hexe
    by_contra hfit
    exact not_nothingHappened hexe hfit (h (Or.inr hfit))
  · rintro h (hno | hno)
    · exact nothingHappened_of_not_executable hno
    · exact nothingHappened_of_not_executable fun hexe => hno (h hexe)

/-- A disk on which every name leads to one small ELF file. -/
def elfEverywhere : FileSystem where
  kissFS :=
    { dentries := fun _ => ⟨fun _ => 0, 0, 0⟩
      inodes := fun _ => ⟨4, fun _ => 0, 1⟩
      numInodes := 1
      numTotalDataBlocks := 1
      image := fun a => if a = 0x2000 then 0x7f else if a = 0x2001 then 0x45
        else if a = 0x2002 then 0x4c else 0x46
      numBlocks := 3 }
  openPath _ := some (.kissFS ⟨BitVec.ofNat 8 NORMAL_FILE, 0, fun _ => ⟨fun _ => 0, 0, 0⟩, 0, 0⟩)

/-- **`execute` without a page for the image**, right after the boot, reads past the process
    table. -/
theorem execute_without_page : ¬ ∀ (fs : FileSystem) (arg0 : List (BitVec 8)) (k : Kernel),
    CannotStart fs k arg0 → NothingHappened fs k arg0 := by
  intro h
  have hexe : Executable elfEverywhere [0x61] := by
    unfold Executable
    decide
  obtain ⟨k, -, hboot⟩ := exists_booted (PhysPageManager.blank numPhysPages)
    (MemMapManager.construct fun _ => 0)
  have hfit : ¬ ImageFits k := by
    rintro ⟨physIdx, hpage, -⟩
    rw [hboot.physPages] at hpage
    cases hpage
  exact not_nothingHappened hexe hfit (h elfEverywhere [0x61] k (Or.inr hfit))

end TedkOS.Syscalls
