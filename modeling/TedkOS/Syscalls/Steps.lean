/-
  What the calls that make and end processes have done once they come back (syscalls/exec.cpp,
  halt.cpp, syscalls.cpp), for a kernel whose table is in order.

  A call that does not come back, because it faults, is no step, so the triples tolerate every
  fault.  For each call there is a structure that says how the kernel afterwards is made from the
  one before (`Started`, `Executed`, `Halted`, `Redone`), and a triple that says the call comes back
  in such a kernel or has left everything as it was.  Whoever proves an invariant of the calls takes
  the structure apart, and never unfolds a call.

  `execute` has a third end: the code 256 of a late failure is taken for a process by `sysexec`,
  whose next step looks 256 up in the table and faults.
-/
import TedkOS.Syscalls.Booted

namespace TedkOS.Syscalls

open Checked Palloc PhysPages Proc

/-! ## `execute`

  The child is registered, set up and started.  Where that stops short is one of the other two
  ends. -/

/-- A child as `do_exec` leaves it, with its image in the page `physIdx`. -/
def startedChild (pid : Pid) (execParent : Option Pid) (arg : Option (List (BitVec 8)))
    (term : Option Nat) (physIdx : Nat) : Proc.ProcessDesc :=
  { newChild pid .USER_PROCESS execParent term with
    arg
    memmap := (TinyMemMap.new.add code_page_vaddr_base
      (PhysAddr.ofIndex (BitVec.ofNat 16 physIdx) (PG_WRITABLE ||| PG_USER))).2
    heapStartingPageIdx := code_page_vaddr_base.vidx + 2 }

/-- What `do_exec` has done when it started a program. -/
structure Started (k : Kernel) (r : Pid × Kernel) : Prop where
  pid : r.1 = k.table.nextNewProcess
  room : r.1.toNat < MAX_NUM_PROCESS
  vacant : k.table.all_processes r.1.toNat = none
  /-- The table is in order again. -/
  table : TableInv r.2.table
  /-- The child has one page of its own, that of its image, and what was asked for. -/
  child : ∃ physIdx execParent arg term,
    k.physPages.allocPage false = (some physIdx, r.2.physPages) ∧
    r.2.table.all_processes r.1.toNat = some (startedChild r.1 execParent arg term physIdx)
  /-- Of the others at most the link to the child has changed, in the parent. -/
  others : ∀ i, i ≠ r.1.toNat → SameButChild (k.table.all_processes i) (r.2.table.all_processes i)
  /-- The scheduler and the map of the processor are as before. -/
  same : r.2 = { k with table := r.2.table, physPages := r.2.physPages }

section Execute

variable {fs : FileSystem} {k : Kernel}

/-- `setUpChild` either gives up, with the code 256, or puts the image page in. -/
theorem setUpChild_done (arg : Option (List (BitVec 8))) (term : Option Nat) (child_upid : Pid)
    (execParent : Option Pid) (term₀ : Option Nat) :
    (setUpChild arg term child_upid (newChild child_upid .USER_PROCESS execParent term₀) k).1 =
      256 ∨
    ∃ physIdx o, k.physPages.allocPage false = (some physIdx, o) ∧
      setUpChild arg term child_upid (newChild child_upid .USER_PROCESS execParent term₀) k =
        (child_upid, { k with
          physPages := o
          table := k.table.assign child_upid
            (some (startedChild child_upid execParent arg term physIdx)) }) := by
  have harg : (if arg.isSome then { newChild child_upid .USER_PROCESS execParent term₀ with arg }
      else newChild child_upid .USER_PROCESS execParent term₀) =
      { newChild child_upid .USER_PROCESS execParent term₀ with arg } := by
    cases arg with
    | none => rfl
    | some a => rfl
  unfold setUpChild
  rw [harg]
  cases halloc : k.physPages.allocPage false with
  | mk page o =>
    cases page with
    | none => exact Or.inl rfl
    | some physIdx =>
      refine Or.inr ⟨physIdx, o, rfl, ?_⟩
      -- a new map has nothing, so the page of the program can be added
      have hok := add_new code_page_vaddr_base
        (PhysAddr.ofIndex (BitVec.ofNat 16 physIdx) (PG_WRITABLE ||| PG_USER))
      simp only
      split
      · next hadd =>
        rw [show (TinyMemMap.new.add code_page_vaddr_base
          (PhysAddr.ofIndex (BitVec.ofNat 16 physIdx)
          (PG_WRITABLE ||| PG_USER))) = (false, _) from hadd] at hok
        cases hok
      · next memmap hadd =>
        have he : memmap = (TinyMemMap.new.add code_page_vaddr_base (PhysAddr.ofIndex
            (BitVec.ofNat 16 physIdx) (PG_WRITABLE ||| PG_USER))).2 := (congrArg Prod.snd hadd).symm
        subst he
        rfl

/-- **`do_exec`** has changed nothing, or failed late with the code 256, or started a child. -/
theorem do_exec_done (h : TableInv k.table) (arg0 : List (BitVec 8)) :
    Ensures AnyFault (do_exec fs arg0 k) fun r => r = (-1, k) ∨ r.1 = 256 ∨ Started k r := by
  unfold do_exec
  generalize get_arg_position arg0 = args
  obtain ⟨arg_index, file⟩ := args
  cases hexe : is_kiss_executable fs file with
  | false =>
    simp only [hexe, Bool.not_false, if_true]
    exact Ensures.pure (Or.inl rfl)
  | true =>
    simp only [hexe, Bool.not_true, Bool.false_eq_true, if_false]
    refine Ensures.bind thread_done fun caller _ => ?_
    -- the child is put into the table first; what was known of the entry and what is kept of the
    -- table come from two triples about the same call
    refine Ensures.bind ((newDetachedProcess_done _).and
      (newDetachedProcess_spec h (Or.inl fun _ _ => anyFault) _)) ?_
    rintro ⟨child_upid, k₁⟩ ⟨hnew, hdet⟩
    have hvacant : k.table.all_processes child_upid.toNat = none := by
      rw [show child_upid = k.table.nextNewProcess from hnew.pid]
      exact h.vacant rfl
    obtain ⟨execParent, term₀, hc⟩ := hnew.child hvacant
    have hsame : k₁ = { k with table := k₁.table } := hnew.same
    have hphys : k₁.physPages = k.physPages := by rw [hsame]
    simp only
    split
    · exact Ensures.pure (Or.inr (Or.inl rfl))
    · refine Ensures.bind get_done ?_
      rintro child ⟨-, hchild⟩
      have he : child = newChild child_upid .USER_PROCESS execParent term₀ :=
        Option.some.inj (hchild.symm.trans hc)
      rw [he]
      refine Ensures.pure (Or.inr ?_)
      rcases setUpChild_done (k := k₁) (arg_index.map arg0.drop) caller.currTerm child_upid
        execParent
        term₀ with hfail | ⟨physIdx, o, halloc, hset⟩
      · exact Or.inl hfail
      · refine Or.inr ?_
        rw [hset]
        rw [hphys] at halloc
        obtain ⟨hinv, -⟩ := hdet.inv.assign
          (startedChild child_upid execParent (arg_index.map arg0.drop) caller.currTerm physIdx)
            hc rfl rfl
        refine ⟨hnew.pid, hnew.room, hvacant, hinv, ⟨physIdx, execParent, _, _, halloc,
          assign_self k₁.table child_upid _⟩, fun i hi => ?_, ?_⟩
        · show SameButChild _ ((k₁.table.assign child_upid _).all_processes i)
          rw [assign_ne _ _ hi]
          exact hnew.others i fun e => absurd e hi
        · rw [hsame]

/-- What `execute` has done: nothing, or a child is made and attached, the caller waits, and there
    is a decision. -/
structure Executed (k k' : Kernel) : Prop where
  /-- The child is started, runs and is queued; the caller waits; `w` of the queue is to run
      next. -/
  step : ∃ new mid child cur q w, Started k (new, mid) ∧
    mid.table.all_processes new.toNat = some child ∧
    (mid.table.assign new (some (child.inState .Running))).all_processes k.current.toNat =
      some cur ∧
    k' = { mid with
      table := (mid.table.assign new (some (child.inState .Running))).assign k.current
        (some (cur.inState .Waiting))
      rrQueue := q
      wantToSwitchTo := w } ∧
    q.Perm (k.rrQueue ++ [new]) ∧ w ∈ q ∧ RunsIn k'.table w

/-- **`execute`**: an error leaves everything as it was.  A late failure does not come back, for
    there is no process 256 to be attached. -/
theorem sysexec_done (h : TableInv k.table) (file : Option (List (BitVec 8))) :
    Ensures AnyFault (sysexec fs file k) fun r => r = (-1, k) ∨ Executed k r.2 := by
  cases file with
  | none => exact Ensures.pure (Or.inl rfl)
  | some file =>
    refine Ensures.bind (do_exec_done h file) ?_
    rintro ⟨code, mid⟩ (he | hcode | hstart)
    · cases he
      -- nothing to execute
      have hneg : (-1 : Pid).slt 0 = true := by decide
      simp only [hneg, if_true]
      exact Ensures.pure (Or.inl rfl)
    · change code = 256 at hcode
      subst hcode
      -- a late failure: there is no entry 256
      have hpos : (256 : Pid).slt 0 = false := by decide
      simp only [hpos, Bool.false_eq_true, if_false]
      refine Ensures.bind get_done ?_
      rintro child ⟨hlt, -⟩
      exact absurd hlt (by decide)
    · obtain ⟨physIdx, execParent, arg, term, -, hchild⟩ := hstart.child
      have hreg : Registered mid.table code := registered_of_eq hchild
      have hpos : code.slt 0 = false := hstart.table.not_negative hreg
      have hsame : mid = { k with table := mid.table, physPages := mid.physPages } := hstart.same
      have hcur : mid.current = k.current := by rw [hsame]
      have hqueue : mid.rrQueue = k.rrQueue := by rw [hsame]
      simp only [hpos, Bool.false_eq_true, if_false]
      refine Ensures.bind get_done ?_
      rintro child ⟨-, hc⟩
      rw [hstart.table.pid_eq hc]
      -- the child runs, the caller waits, and the queue has the child in it, so that there is
      -- somebody to decide for
      refine Ensures.bind (attachThread_done _) ?_
      rintro k₂ ⟨child', hc', rfl⟩
      have he : child' = child := Option.some.inj (hc'.symm.trans hc)
      subst he
      refine Ensures.bind (Ensures.bind (setRunState_done _) ?_) fun k' hk' =>
        Ensures.pure (Or.inr hk')
      rintro k₃ ⟨cur, hcurp, rfl⟩
      refine makeDecision_done.mono ?_
      rintro k' (⟨hnil, -⟩ | ⟨q, w, rfl, hperm, hw, hrun⟩)
      · exact absurd hnil (by simp)
      · have hperm' : q.Perm (k.rrQueue ++ [code]) := by
          rw [← hqueue]
          exact hperm
        change (mid.table.assign code _).all_processes mid.current.toNat = some cur at hcurp
        rw [hcur] at hcurp
        exact ⟨code, mid, child', cur, q, w, hstart, hc, hcurp, by simp only [hcur], hperm',
          hperm.mem_iff.mpr hw, hrun⟩

end Execute

/-! ## The other calls

  `halt` goes the other way, `dotask` attaches a thread, and `fork` never comes back once the
  kernel is up. -/

/-- What `halt` has done when the caller has a parent. -/
structure Halted (k k' : Kernel) : Prop where
  /-- The caller is gone from the table and the queue, its frames are given back, its parent
      runs, and there is a decision unless the queue is empty. -/
  step : ∃ dead prevInfo prev q q' w, k.table.all_processes k.current.toNat = some dead ∧
    dead.mainThreadInfo.execParent = some prevInfo ∧
    (k.table.assign k.current none).all_processes prevInfo.toNat = some prev ∧
    (k.current :: q).Perm k.rrQueue ∧ q'.Perm q ∧
    k' = { k with
      physPages := k.destroy dead
      table := (k.table.assign k.current none).assign prevInfo (some (prev.inState .Running))
      rrQueue := q'
      wantToSwitchTo := w } ∧
    ((q = [] ∧ w = k.wantToSwitchTo) ∨ (w ∈ q ∧ RunsIn k'.table w))

section Others

variable {k : Kernel}

/-- **`halt`**: a process without a parent cannot halt, and its call changes nothing. -/
theorem syshalt_done (h : TableInv k.table) :
    Ensures AnyFault (syshalt k) fun r => r = (-1, k) ∨ Halted k r.2 := by
  refine Ensures.bind thread_done fun caller hcaller => ?_
  have hpid : caller.pid = k.current := h.pid_eq hcaller
  cases hpar : caller.mainThreadInfo.execParent with
  | none => exact Ensures.pure (Or.inl rfl)
  | some prevInfo =>
    rw [hpid]
    refine Ensures.bind halt_done ?_
    rintro k' ⟨k₁, q, prev, ⟨hnone, -⟩ | ⟨dead, hdead, rfl⟩, hperm, hprev, hend⟩
    · rw [hcaller] at hnone
      cases hnone
    · have he : dead = caller := Option.some.inj (hdead.symm.trans hcaller)
      subst he
      refine Ensures.pure (Or.inr ?_)
      rcases hend with ⟨hnil, rfl⟩ | ⟨q', w, rfl, hperm', hw, hrun⟩
      · exact ⟨dead, prevInfo, prev, q, q, k.wantToSwitchTo, hcaller, hpar, hprev, hperm,
          List.Perm.refl q,
          rfl, Or.inl ⟨hnil, rfl⟩⟩
      · exact ⟨dead, prevInfo, prev, q, q', w, hcaller, hpar, hprev, hperm, hperm', rfl,
          Or.inr ⟨hw, hrun⟩⟩

/-- After the boot `fork` does not come back. -/
theorem fork_done (hbooted : k.isFallbackTerm = false) : Ensures AnyFault (fork k) fun _ =>
    False := by
  refine Ensures.bind thread_done fun _ _ => ?_
  refine Ensures.bind (newDetachedProcess_done _) fun r hr => ?_
  rcases hr.parent with hfb | hlt
  · rw [hbooted] at hfb
    cases hfb
  · exact absurd hlt (by decide)

/-- What `dotask` has done to a process that exists: it is attached once more, and there is a
    decision. -/
structure Redone (k k' : Kernel) (pid : Pid) : Prop where
  /-- The process runs, and is in the queue once more than before. -/
  step : ∃ p q w, k.table.all_processes pid.toNat = some p ∧
    k' = { k with
      table := k.table.assign pid (some (p.inState .Running))
      rrQueue := q
      wantToSwitchTo := w } ∧
    q.Perm (k.rrQueue ++ [pid]) ∧ w ∈ q ∧ RunsIn k'.table w

/-- **`dotask`** of a process that does not exist is refused; one that exists is attached again,
    whatever its state. -/
theorem dotask_done (h : TableInv k.table) (pid : Pid) :
    Ensures AnyFault (dotask pid k) fun r =>
      (k.table.all_processes pid.toNat = none ∧ r = (-1, k)) ∨ Redone k r.2 pid := by
  unfold dotask ProcessTable.has
  rw [bind_assoc]
  refine Ensures.bind entry_done ?_
  rintro o ⟨-, rfl⟩
  cases hp : k.table.all_processes pid.toNat with
  | none => exact Ensures.pure (Or.inl ⟨rfl, rfl⟩)
  | some p =>
    show Ensures AnyFault (do
      let p ← k.table.get pid
      let k ← k.attachThread p.pid .Running
      let k ← k.makeDecision
      return ((0 : BitVec 32), k)) _
    refine Ensures.bind get_done ?_
    rintro p' ⟨-, hp'⟩
    rw [h.pid_eq hp']
    -- the queue has the process in it, so there is somebody to decide for
    refine Ensures.bind (attachThread_done _) ?_
    rintro k₁ ⟨p₁, hp₁, rfl⟩
    refine Ensures.bind makeDecision_done ?_
    rintro k' (⟨hnil, -⟩ | ⟨q, w, rfl, hperm, hw, hrun⟩)
    · exact absurd hnil (by simp)
    · exact Ensures.pure (Or.inr ⟨p₁, q, w, hp₁, rfl, hperm, hperm.mem_iff.mpr hw, hrun⟩)

end Others

end TedkOS.Syscalls
