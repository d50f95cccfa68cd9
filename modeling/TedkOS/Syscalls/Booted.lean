/-
  The kernel right after the boot (kernel.cpp, init/init.cpp): nothing but kernel threads, all of
  them running and in the queue, each once, and no memory taken.

  `startClients` adds one thread a round; what a round keeps (`Seeded`) is what the boot ends with.
-/
import TedkOS.Proc.SchedSteps
import TedkOS.Syscalls.ProcessRuns

namespace TedkOS.Syscalls

open Checked Palloc PhysPages Proc

/-- A kernel thread that runs and has not asked for anything. -/
def IsFreshThread (p : Proc.ProcessDesc) : Prop :=
  ∃ pid execParent currTerm,
    forgetChild p = (newChild pid .KERNEL_PROCESS execParent currTerm).inState .Running

/-- Kernel threads only, and the queue holds each of them once. -/
structure Seeded (k : Kernel) : Prop where
  table : TableInv k.table
  nodup : k.rrQueue.Nodup
  /-- The queue holds the processes of the table, and no others. -/
  queue : ∀ pid, pid ∈ k.rrQueue ↔ Registered k.table pid
  /-- Each has been attached and has done nothing since. -/
  threads : ∀ i p, k.table.all_processes i = some p → IsFreshThread p

/-- What the boot does not touch. -/
structure SameMachine (k k' : Kernel) : Prop where
  want : k'.wantToSwitchTo = k.wantToSwitchTo
  running : k'.currentlyRunning = k.currentlyRunning
  current : k'.current = k.current
  physPages : k'.physPages = k.physPages
  memmap : k'.cpu0_memmap = k.cpu0_memmap

section Boot

variable {k : Kernel}

/-- Two things that leave the machine alone, one after the other. -/
theorem SameMachine.trans {k' k'' : Kernel} (h : SameMachine k k') (h' : SameMachine k' k'') :
    SameMachine k k'' :=
  ⟨h'.want.trans h.want, h'.running.trans h.running, h'.current.trans h.current,
    h'.physPages.trans h.physPages, h'.memmap.trans h.memmap⟩

/-- What does not look at the link to the child is the same in every entry but one. -/
theorem IsFreshThread.of_sameButChild {o o' : Option Proc.ProcessDesc} (h : SameButChild o o')
    {p' : Proc.ProcessDesc} (hp' : o' = some p') (hfresh : ∀ p, o = some p → IsFreshThread p) :
    IsFreshThread p' := by
  subst hp'
  cases o with
  | none => cases h
  | some p =>
    obtain ⟨pid, execParent, currTerm, e⟩ := hfresh p rfl
    exact ⟨pid, execParent, currTerm, (Option.some.inj h).symm.trans e⟩

/-- **One more thread**, in the table and at the end of the queue. -/
theorem Seeded.start (h : Seeded k) (k' : Kernel) {pid : Pid} {p : Proc.ProcessDesc}
    (ht : TableInv k'.table) (hq : k'.rrQueue = k.rrQueue ++ [pid])
    (hnone : k.table.all_processes pid.toNat = none)
    (hothers : ∀ i, i ≠ pid.toNat →
      SameButChild (k.table.all_processes i) (k'.table.all_processes i))
    (hp : k'.table.all_processes pid.toNat = some p) (hfresh : IsFreshThread p) : Seeded k' where
  table := ht
  nodup := by
    rw [hq]
    refine List.nodup_append.mpr ⟨h.nodup, List.nodup_singleton pid, ?_⟩
    intro a ha b hb e
    rw [e, List.mem_singleton.mp hb] at ha
    -- a process of the queue is in the table, and this entry was free
    have hreg := (h.queue pid).mp ha
    rw [Registered, hnone] at hreg
    cases hreg
  queue q := by
    rw [hq, List.mem_append, List.mem_singleton]
    by_cases he : q = pid
    · subst he
      exact ⟨fun _ => registered_of_eq hp, fun _ => Or.inr rfl⟩
    · have hne : q.toNat ≠ pid.toNat := fun e => he (BitVec.eq_of_toNat_eq e)
      rw [Registered, (hothers _ hne).isSome_eq]
      exact ⟨fun hor => (h.queue q).mp (hor.resolve_right he),
        fun hreg => Or.inl ((h.queue q).mpr hreg)⟩
  threads i q hi := by
    by_cases he : i = pid.toNat
    · subst he
      rw [hp] at hi
      cases hi
      exact hfresh
    · exact .of_sameButChild (hothers i he) hi fun p hp => h.threads i p hp

/-- A kernel thread is a new entry of the table, in the state of a new child. -/
theorem makeKThread_done (h : TableInv k.table) : Ensures AnyFault k.makeKThread fun r =>
    Spawned k (-1) .KERNEL_PROCESS r ∧ TableInv r.2.table ∧ ∃ p,
      r.2.table.all_processes r.1.toNat = some p ∧
      ∃ execParent currTerm, p = newChild r.1 .KERNEL_PROCESS execParent currTerm := by
  refine Ensures.bind ((newDetachedProcess_done _).and
    (newDetachedProcess_spec h (Or.inl fun _ _ => anyFault) _)) ?_
  rintro ⟨child_upid, k₁⟩ ⟨hnew, hdet⟩
  have hvacant : k.table.all_processes child_upid.toNat = none := by
    rw [show child_upid = k.table.nextNewProcess from hnew.pid]
    exact h.vacant rfl
  obtain ⟨execParent, currTerm, hc⟩ := hnew.child hvacant
  simp only
  split
  · exact Ensures.fail anyFault
  · refine Ensures.bind get_done ?_
    rintro proc ⟨-, hproc⟩
    have hpid : proc.pid = child_upid := hdet.inv.pid_eq hproc
    rw [hpid]
    exact Ensures.pure ⟨hnew, hdet.inv, _, hc, execParent, currTerm, rfl⟩

/-- **The loop of the clients**, by induction on those that are left: each round makes a thread,
    gives it a terminal and attaches it. -/
theorem startClients_done (left : Nat) : ∀ (i : Nat) {k : Kernel}, Seeded k →
    Ensures AnyFault (startClients left i k) fun k' => Seeded k' ∧ SameMachine k k' := by
  induction left with
  | zero => exact fun i k h => Ensures.pure ⟨h, rfl, rfl, rfl, rfl, rfl⟩
  | succ left ih =>
    intro i k h
    refine Ensures.bind (makeKThread_done h.table) ?_
    rintro ⟨pid, k₁⟩ ⟨hnew, hinv, p, hp, execParent, currTerm, hchild⟩
    have hsame : k₁ = { k with table := k₁.table } := hnew.same
    have hvacant : k.table.all_processes pid.toNat = none := by
      rw [show pid = k.table.nextNewProcess from hnew.pid]
      exact h.table.vacant rfl
    refine Ensures.bind get_done ?_
    rintro proc ⟨-, hproc⟩
    have he : proc = p := Option.some.inj (hproc.symm.trans hp)
    subst he
    obtain ⟨hinv₂, -⟩ := hinv.assign
      { proc with currTerm := if i < numTextTerms then some i else none } hproc rfl rfl
    refine Ensures.bind (attachThread_done _) ?_
    rintro k₃ ⟨p₃, hp₃, rfl⟩
    change (k₁.table.assign pid _).all_processes pid.toNat = some p₃ at hp₃
    rw [assign_self] at hp₃
    have hself : (k₁.table.assign pid (some { proc with
        currTerm := if i < numTextTerms then some i else none })).all_processes pid.toNat =
          some p₃ :=
      (assign_self k₁.table pid _).trans hp₃
    obtain ⟨hinv₃, -⟩ := hinv₂.assign (p₃.inState .Running) hself rfl rfl
    -- after the round: one entry more, attached, and all else as before
    have hseed := h.start { k₁ with
        table := (k₁.table.assign pid (some { proc with
          currTerm := if i < numTextTerms then some i else none })).assign pid
            (some (p₃.inState .Running))
        rrQueue := k₁.rrQueue ++ [pid] } hinv₃ (by rw [hsame]) hvacant ?_ (assign_self _ pid _) ?_
    · refine (ih (i + 1) hseed).mono ?_
      rintro k' ⟨hseed', hm⟩
      refine ⟨hseed', SameMachine.trans ?_ hm⟩
      rw [hsame]
      exact ⟨rfl, rfl, rfl, rfl, rfl⟩
    · intro j hj
      show SameButChild _ (((k₁.table.assign pid _).assign pid _).all_processes j)
      rw [assign_ne _ _ hj, assign_ne _ _ hj]
      exact hnew.others j fun e => absurd e hj
    · refine ⟨pid, execParent, if i < numTextTerms then some i else none, ?_⟩
      rw [← Option.some.inj hp₃, hchild]
      rfl

/-- The kernel after the boot. -/
structure Booted (physPages : PhysPageManager numPhysPages) (cpu0_memmap : MemMapManager)
    (k : Kernel) :
    Prop extends Seeded k where
  live : Live k
  want : k.wantToSwitchTo = -1
  running : k.currentlyRunning = -1
  current : k.current = initPid
  physPages : k.physPages = physPages
  memmap : k.cpu0_memmap = cpu0_memmap

/-- **The boot** leaves kernel threads only. -/
theorem boot_done (physPages : PhysPageManager numPhysPages) (cpu0_memmap : MemMapManager) :
    Ensures AnyFault (boot physPages cpu0_memmap) (Booted physPages cpu0_memmap) := by
  have hseeded : Ensures AnyFault (boot physPages cpu0_memmap) fun k => Seeded k ∧
      k.wantToSwitchTo = -1 ∧ k.currentlyRunning = -1 ∧ k.current = initPid ∧
      k.physPages = physPages ∧ k.cpu0_memmap = cpu0_memmap := by
    have hempty : TableInv ⟨1, fun _ => none⟩ :=
      ⟨by decide, fun i p hp => absurd hp (by simp), fun i p hp => absurd hp (by simp),
        fun i p par hp => absurd hp (by simp)⟩
    -- before the boot there is nothing at all
    have h₀ : Seeded (atReset physPages cpu0_memmap) :=
      ⟨hempty, List.nodup_nil, fun pid => ⟨fun h => absurd h List.not_mem_nil, fun h => by cases h⟩,
        fun i p hp => by cases hp⟩
    -- the first thread is `init`, which is the current one from then on
    refine Ensures.bind (makeKThread_done h₀.table) ?_
    rintro ⟨thread, k₁⟩ ⟨hnew, hinv, p, hp, execParent, currTerm, hchild⟩
    have hsame : k₁ = { atReset physPages cpu0_memmap with table := k₁.table } := hnew.same
    have hthread : thread = initPid := hnew.pid
    subst hthread
    refine Ensures.bind (attachThread_done _) ?_
    rintro k₂ ⟨p₂, hp₂, rfl⟩
    have he : p₂ = p := Option.some.inj (hp₂.symm.trans hp)
    subst he
    obtain ⟨hinv₂, -⟩ := hinv.assign (p₂.inState .Running) hp rfl rfl
    have hseed := h₀.start { k₁ with
        table := k₁.table.assign initPid (some (p₂.inState .Running))
        rrQueue := k₁.rrQueue ++ [initPid], current := initPid } hinv₂ (by rw [hsame]) rfl ?_
        (assign_self _ initPid _) ?_
    · refine Ensures.bind (startClients_done numClients 0 hseed) ?_
      rintro k₃ ⟨hseed₃, hm⟩
      rw [hsame] at hm
      exact Ensures.pure ⟨⟨hseed₃.table, hseed₃.nodup, hseed₃.queue, hseed₃.threads⟩, hm.want,
        hm.running, hm.current, hm.physPages, hm.memmap⟩
    · intro j hj
      show SameButChild _ ((k₁.table.assign initPid _).all_processes j)
      rw [assign_ne _ _ hj]
      exact hnew.others j fun e => absurd e hj
    · exact ⟨initPid, execParent, currTerm, by rw [hchild]; rfl⟩
  refine ((boot_spec physPages cpu0_memmap).and hseeded).mono ?_
  rintro k ⟨hlive, hseed, hwant, hrun, hcur, hphys, hmap⟩
  exact ⟨hseed, hlive, hwant, hrun, hcur, hphys, hmap⟩

/-- The boot goes through. -/
theorem exists_booted (physPages : PhysPageManager numPhysPages) (cpu0_memmap : MemMapManager) :
    ∃ k, boot physPages cpu0_memmap = .ok k ∧ Booted physPages cpu0_memmap k := by
  obtain ⟨k, hk, -⟩ := (boot_spec physPages cpu0_memmap).exists_ok
  exact ⟨k, hk, (boot_done physPages cpu0_memmap).value hk⟩

end Boot

end TedkOS.Syscalls
