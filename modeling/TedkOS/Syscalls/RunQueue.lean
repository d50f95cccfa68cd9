/-
  The run queue along runs of the kernel: does it hold each thread that was attached, and whose
  process lives, exactly once?

  A process is attached as soon as it is registered, by the boot, `execute` or the parent's
  `execute`; a decision turns the queue and `halt` takes one entry out.  So the queue is right as
  long as nobody attaches a thread twice, which is what `dotask` does to a process that exists
  (`NoRedo` excludes it): the second entry outlives the process.

  The invariant is `QueueInv`: a thread is in the queue once if it has been attached and its
  process lives, and not at all otherwise.  A decision is a rotation up to the choice, so it keeps
  how often each thread is there; `halt` takes out the only entry of a thread that leaves.
-/
import TedkOS.Syscalls.ExecuteFailure
import TedkOS.Syscalls.Steps

namespace TedkOS.Syscalls

open Checked Palloc PhysPages Proc Runs

/-- The queue holds the thread of each process of the table exactly once, and no other. -/
def QueueRight (k : Kernel) : Prop :=
  k.rrQueue.Nodup ∧ ∀ pid, pid ∈ k.rrQueue ↔ Registered k.table pid

/-- What goes with it along a run. -/
structure QueueInv (k : Kernel) : Prop where
  /-- The table is in order, -/
  table : TableInv k.table
  /-- and so is the queue; -/
  right : QueueRight k
  /-- the boot is over. -/
  booted : k.isFallbackTerm = false

/-- `dotask` is not called for a process that exists. -/
def NoRedo (k : Kernel) (a : Event × Option (BitVec 32)) : Prop :=
  ∀ pid, a.1 = .dotask pid → ¬ Registered k.table pid

section Steps

variable {fs : FileSystem} {k k' : Kernel} {pid : Pid}

/-- A right queue stays right when it is turned. -/
theorem QueueRight.perm (h : QueueRight k) (hq : k'.rrQueue.Perm k.rrQueue)
    (ht : ∀ q, Registered k'.table q ↔ Registered k.table q) : QueueRight k' :=
  ⟨hq.nodup_iff.mpr h.1, fun q => (hq.mem_iff.trans (h.2 q)).trans (ht q).symm⟩

/-- The table after `execute` is in order. -/
theorem Executed.table (he : Executed k k') : TableInv k'.table := by
  obtain ⟨new, mid, child, cur, q, w, hstart, hchild, hcur, rfl, -⟩ := he.step
  obtain ⟨hinv, -⟩ := hstart.table.assign (child.inState .Running) hchild rfl rfl
  exact (hinv.assign (cur.inState .Waiting) hcur rfl rfl).1

/-- `execute` does not bring the fallback terminal back. -/
theorem Executed.fallback (he : Executed k k') : k'.isFallbackTerm = k.isFallbackTerm := by
  obtain ⟨new, mid, child, cur, q, w, hstart, -, -, rfl, -⟩ := he.step
  have hsame : mid = { k with table := mid.table, physPages := mid.physPages } := hstart.same
  rw [hsame]

/-- **A child is attached**: it is new in the table and in the queue. -/
theorem QueueInv.executed (h : QueueInv k) (he : Executed k k') : QueueInv k' := by
  obtain ⟨new, mid, child, cur, q, w, hstart, hchild, hcur, rfl, hperm, -, -⟩ := he.step
  have hreg : ∀ q, Registered mid.table q ↔ q = new ∨ Registered k.table q := by
    intro q
    by_cases hq : q = new
    · subst hq
      exact ⟨fun _ => Or.inl rfl, fun _ => registered_of_eq hchild⟩
    · have hne : q.toNat ≠ new.toNat := fun e => hq (BitVec.eq_of_toNat_eq e)
      rw [Registered, (hstart.others _ hne).isSome_eq]
      exact ⟨Or.inr, fun hor => hor.resolve_left hq⟩
  have hnew : new ∉ k.rrQueue := by
    intro hmem
    have hr := (h.right.2 new).mp hmem
    rw [Registered, hstart.vacant] at hr
    cases hr
  refine ⟨he.table, ⟨?_, fun x => ?_⟩, he.fallback.trans h.booted⟩
  · refine hperm.nodup_iff.mpr (List.nodup_append.mpr ⟨h.right.1, List.nodup_singleton new, ?_⟩)
    intro a ha b hb e
    rw [e, List.mem_singleton.mp hb] at ha
    exact hnew ha
  · show x ∈ q ↔ Registered ((mid.table.assign new _).assign k.current _) x
    rw [registered_assign hcur, registered_assign hchild, hreg, hperm.mem_iff, List.mem_append,
      List.mem_singleton, h.right.2 x]
    exact or_comm

/-- **A process ends**: it is out of the table and out of the queue. -/
theorem QueueInv.halted (h : QueueInv k) (he : Halted k k') : QueueInv k' := by
  obtain ⟨dead, prevInfo, prev, q, q', w, -, -, hprev, hperm, hperm', rfl, -⟩ := he.step
  have hnodup : (k.current :: q).Nodup := hperm.nodup_iff.mpr h.right.1
  obtain ⟨hout, hq⟩ := List.nodup_cons.mp hnodup
  obtain ⟨hinv, -⟩ := h.table.erase.assign (prev.inState .Running) hprev rfl rfl
  refine ⟨hinv, ⟨hperm'.nodup_iff.mpr hq, fun x => ?_⟩, h.booted⟩
  show x ∈ q' ↔ Registered ((k.table.assign k.current none).assign prevInfo _) x
  rw [registered_assign hprev, registered_erase, hperm'.mem_iff, ← h.right.2 x, ← hperm.mem_iff,
    List.mem_cons]
  constructor
  · intro hx
    exact ⟨fun e => hout (e ▸ hx), Or.inr hx⟩
  · rintro ⟨hne, hor⟩
    exact hor.resolve_left hne

/-- The state of a thread is nothing to the queue. -/
theorem QueueInv.inState (h : QueueInv k) {p : Proc.ProcessDesc}
    (hp : k.table.all_processes pid.toNat = some p) (newState : ThreadState) :
    QueueInv { k with table := k.table.assign pid (some (p.inState newState)) } := by
  obtain ⟨hinv, -⟩ := h.table.assign (p.inState newState) hp rfl rfl
  exact ⟨hinv, h.right.perm (List.Perm.refl _) (registered_assign hp), h.booted⟩

/-- A decision turns the queue, and each thread is in it as often as before. -/
theorem QueueInv.decide (h : QueueInv k) : Ensures AnyFault k.makeDecision QueueInv := by
  refine makeDecision_done.mono ?_
  rintro k' (⟨-, rfl⟩ | ⟨q, w, rfl, hperm, -, -⟩)
  · exact h
  · exact ⟨h.table, h.right.perm hperm fun _ => Iff.rfl, h.booted⟩

/-- **The body of an event** that attaches nobody twice. -/
theorem QueueInv.body (h : QueueInv k) {e : Event}
    (hok : ∀ pid, e = .dotask pid → ¬ Registered k.table pid) :
    Ensures AnyFault (e.body fs k) QueueInv := by
  cases e with
  | execute file =>
    refine Ensures.map ((sysexec_done h.table file).mono ?_)
    rintro r (rfl | he)
    · exact h
    · exact h.executed he
  | halt =>
    refine Ensures.map ((syshalt_done h.table).mono ?_)
    rintro r (rfl | he)
    · exact h
    · exact h.halted he
  | fork => exact Ensures.map ((fork_done h.booted).mono fun _ hfalse => absurd hfalse id)
  | dotask pid =>
    refine Ensures.map ((dotask_done h.table pid).mono ?_)
    rintro r (⟨-, rfl⟩ | hredo)
    · exact h
    · obtain ⟨p, -, -, hp, -⟩ := hredo.step
      exact absurd (registered_of_eq hp) (hok pid rfl)
  | sleep =>
    refine Ensures.bind (setRunState_done _) ?_
    rintro k₁ ⟨p, hp, rfl⟩
    exact (h.inState hp .Waiting).decide
  | wake pid =>
    refine (setRunState_done _).mono ?_
    rintro k₁ ⟨p, hp, rfl⟩
    exact h.inState hp .Running
  | tick => exact h.decide
  | nestedTick => exact h.decide

/-- The switch leaves the queue alone. -/
theorem QueueInv.dispatch (h : QueueInv k) (vidmap : Option (BitVec 32)) :
    Ensures AnyFault (k.schedDispatchExecution vidmap) QueueInv := by
  refine (dispatch_done vidmap).mono ?_
  rintro k' (⟨-, rfl⟩ | ⟨desc, -, -, -, rfl⟩)
  · exact h
  · exact ⟨h.table, h.right, h.booted⟩

/-- An event is its body and, unless it is nested, the switch. -/
theorem run_done {e : Event} {vidmap : Option (BitVec 32)} {Q R : Kernel → Prop}
    (hbody : Ensures AnyFault (e.body fs k) Q) (hstay : ∀ k, Q k → R k)
    (hswitch : ∀ k, Q k → Ensures AnyFault (k.schedDispatchExecution vidmap) R) :
    Ensures AnyFault (e.run fs vidmap k) R := by
  by_cases hnested : e = .nestedTick
  · subst hnested
    exact Ensures.bind hbody fun k' hk' => Ensures.pure (hstay k' hk')
  · have hrun : e.run fs vidmap k = e.body fs k >>= fun k => k.schedDispatchExecution vidmap := by
      cases e <;> first | rfl | exact absurd rfl hnested
    rw [hrun]
    exact Ensures.bind hbody hswitch

/-- **What `dotask` does to a process that exists**: its thread is in the queue twice. -/
theorem QueueInv.redone (h : QueueInv k) (hr : Redone k k' pid) : k'.rrQueue.count pid = 2 := by
  obtain ⟨p, q, w, hp, rfl, hperm, -, -⟩ := hr.step
  show q.count pid = 2
  have hin : pid ∈ k.rrQueue := (h.right.2 pid).mpr (registered_of_eq hp)
  rw [hperm.count_eq, List.count_append, List.count_eq_one_of_mem h.right.1 hin]
  simp

/-- `dotask` of a process that exists attaches its thread once more, and no decision takes an
    entry out. -/
theorem dotask_breaks_queue (h : QueueInv k) (hreg : Registered k.table pid)
    (vidmap : Option (BitVec 32)) :
    Ensures AnyFault ((Event.dotask pid).run fs vidmap k) fun k' => ¬ QueueRight k' := by
  refine run_done (Q := fun k' => k'.rrQueue.count pid = 2) ?_ ?_ ?_
  · refine Ensures.map ((dotask_done h.table pid).mono ?_)
    rintro r (⟨hnone, -⟩ | hredo)
    · rw [Registered, hnone] at hreg
      cases hreg
    · exact h.redone hredo
  · intro k' htwice hright
    have hle := List.nodup_iff_count_le_one.mp hright.1 pid
    omega
  · intro k' htwice
    refine (dispatch_done vidmap).mono ?_
    rintro k'' hk'' hright
    have hle := List.nodup_iff_count_le_one.mp hright.1 pid
    rcases hk'' with ⟨-, rfl⟩ | ⟨desc, -, -, -, rfl⟩
    · omega
    · change k'.rrQueue.count pid ≤ 1 at hle
      omega

/-- `dotask` of a process that exists comes back. -/
theorem QueueInv.dotask_ends (fs : FileSystem) (h : QueueInv k) (hreg : Registered k.table pid)
    (vidmap : Option (BitVec 32)) : ∃ k', (Event.dotask pid).run fs vidmap k = .ok k' := by
  obtain ⟨p, hp⟩ := Option.isSome_iff_exists.mp hreg
  have hattach : k.attachThread pid .Running = .ok { k with
      table := k.table.assign pid (some (p.inState .Running)), rrQueue := k.rrQueue ++ [pid] } := by
    unfold Kernel.attachThread Kernel.setRunState
    rw [TableInv.thread_eq hp, ok_bind]
    rfl
  -- the loops end because everybody in the queue is registered and `pid` runs
  have hall : ∀ q ∈ k.rrQueue ++ [pid],
      Registered (k.table.assign pid (some (p.inState .Running))) q := by
    intro q hq
    rw [registered_assign hp]
    rcases List.mem_append.mp hq with hold | hnew
    · exact (h.right.2 q).mp hold
    · rw [List.mem_singleton.mp hnew]
      exact hreg
  obtain ⟨k₂, hk₂, q, w, rfl, -, hw, -⟩ := (makeDecision_ends (k := { k with
      table := k.table.assign pid (some (p.inState .Running)), rrQueue := k.rrQueue ++ [pid] })
    hall (List.mem_append_right _ (List.mem_singleton_self pid))
    ⟨_, assign_self k.table pid _, rfl⟩).exists_ok
  obtain ⟨hinv, -⟩ := h.table.assign (p.inState .Running) hp rfl rfl
  obtain ⟨k₃, hk₃⟩ := dispatch_ends (k := { k with
      table := k.table.assign pid (some (p.inState .Running)), rrQueue := q, wantToSwitchTo := w })
    hinv (Or.inr (hall w hw)) vidmap
  have hentry : k.table.entry pid = .ok (some p) := by
    unfold ProcessTable.entry
    rw [if_pos (h.table.lt_room hp), hp]
  refine ⟨k₃, ?_⟩
  show ((Prod.snd <$> Syscalls.dotask pid k) >>= fun k => k.schedDispatchExecution vidmap) = _
  have hdo : Syscalls.dotask pid k = .ok (0, { k with
      table := k.table.assign pid (some (p.inState .Running)), rrQueue := q, wantToSwitchTo :=
        w }) := by
    unfold Syscalls.dotask ProcessTable.has
    rw [hentry, ok_bind]
    show (do
      let p ← k.table.get pid
      let k ← k.attachThread p.pid .Running
      let k ← k.makeDecision
      return ((0 : BitVec 32), k)) = _
    rw [h.table.get_eq hp, ok_bind, h.table.pid_eq hp, hattach, ok_bind, hk₂, ok_bind]
    rfl
  rw [hdo]
  exact hk₃

end Steps

/-! ## Runs -/

/-- The invariant of every run without `dotask` of an existing process. -/
theorem queueInv_of_reach {fs : FileSystem} {k : Kernel} (hr : Reach (kernelMachine fs) NoRedo k) :
    QueueInv k := by
  refine hr.invariant ?_ ?_
  · rintro k ⟨physPages, cpu0_memmap, hboot⟩
    have h := (boot_done physPages cpu0_memmap).value hboot
    exact ⟨h.table, ⟨h.nodup, h.queue⟩, h.live.booted⟩
  · rintro k ⟨e, vidmap⟩ k' h hok hstep
    have hrun : Ensures AnyFault (e.run fs vidmap k) QueueInv :=
      run_done (h.body hok) (fun _ h => h) fun _ h => h.dispatch vidmap
    exact hrun.value hstep

/-- **The run queue** is right in every run that never calls `dotask` for a process that exists; and
    there such a call, when it comes back, breaks it. -/
theorem runQueue_right {fs : FileSystem} {k : Kernel} (hr : Reach (kernelMachine fs) NoRedo k) :
    QueueRight k ∧ ∀ pid vidmap k', Registered k.table pid →
      (Event.dotask pid).run fs vidmap k = .ok k' → ¬ QueueRight k' := by
  have h := queueInv_of_reach hr
  exact ⟨h.right, fun pid vidmap k' hreg hrun => (dotask_breaks_queue h hreg vidmap).value hrun⟩

/-- One event that `NoRedo` allows, carried out. -/
def Event.exec (fs : FileSystem) (k : Kernel) (a : Event × Option (BitVec 32)) : Option Kernel :=
  match a.1 with
  | .dotask pid =>
    if (k.table.all_processes pid.toNat).isNone then (a.1.run fs a.2 k).toOption else none
  | _ => (a.1.run fs a.2 k).toOption

/-- What it computes is a step of a run. -/
theorem Event.exec_step (fs : FileSystem) (k : Kernel) (a : Event × Option (BitVec 32))
    (k' : Kernel) (h : Event.exec fs k a = some k') :
    NoRedo k a ∧ (kernelMachine fs).step k a k' := by
  obtain ⟨e, vidmap⟩ := a
  cases e with
  | dotask pid =>
    obtain ⟨hnone, hrun⟩ := Option.ite_none_right_eq_some.mp h
    refine ⟨fun pid' he hreg => ?_, toOption_eq_some.mp hrun⟩
    obtain rfl : pid = pid' := Event.dotask.inj he
    rw [Registered, Option.isSome_iff_ne_none] at hreg
    exact hreg (Option.isNone_iff_eq_none.mp hnone)
  | _ => exact ⟨fun pid he => Event.noConfusion he, toOption_eq_some.mp h⟩

/-- One page of memory. -/
def lastPage : PhysPageManager numPhysPages :=
  PhysPageManager.addFree (.blank _) 5

/-- The init thread starts a program, which comes to run after the guards of the seven clients, and
    asks for a task that there is not. -/
def untilStarted : List (Event × Option (BitVec 32)) :=
  (.execute (some [0x61]), none) :: List.replicate 7 (.tick, none) ++ [(.dotask 255, none)]

/-- **A process comes and goes**: its thread is in the queue while it lives, where `dotask` would
    put it a second time, and is out of the queue when the process has halted. -/
theorem runQueue_right_life : ∃ started halted : Kernel,
    Reach (kernelMachine elfEverywhere) NoRedo started ∧
    started.rrQueue = [1, 2, 3, 4, 5, 6, 7, 8, 9] ∧ started.current = 9 ∧ QueueRight started ∧
    (∃ k', (Event.dotask 9).run elfEverywhere none started = .ok k' ∧ ¬ QueueRight k') ∧
    Reach (kernelMachine elfEverywhere) NoRedo halted ∧
    halted.rrQueue = [2, 3, 4, 5, 6, 7, 8, 1] ∧ QueueRight halted := by
  have heval : ((boot lastPage (MemMapManager.construct fun _ => 0).start).toOption.bind fun k =>
      (untilStarted.foldlM (Event.exec elfEverywhere) k).bind fun started =>
      ((Event.dotask 9).run elfEverywhere none started).toOption.bind fun _ =>
      (Event.exec elfEverywhere started (.halt, none)).map fun halted =>
        ((started.rrQueue, started.current), halted.rrQueue)) =
      some (([1, 2, 3, 4, 5, 6, 7, 8, 9], 9), [2, 3, 4, 5, 6, 7, 8, 1]) := by
    decide +kernel
  obtain ⟨k, hboot, heval⟩ := Option.bind_eq_some_iff.mp heval
  obtain ⟨started, hstarted, heval⟩ := Option.bind_eq_some_iff.mp heval
  obtain ⟨k', hredo, heval⟩ := Option.bind_eq_some_iff.mp heval
  obtain ⟨halted, hhalted, heval⟩ := Option.map_eq_some_iff.mp heval
  obtain ⟨⟨hqueue, hcurrent⟩, hqueue'⟩ :
      (started.rrQueue = [1, 2, 3, 4, 5, 6, 7, 8, 9] ∧ started.current = 9) ∧
        halted.rrQueue = [2, 3, 4, 5, 6, 7, 8, 1] := by simpa using heval
  have hr : Reach (kernelMachine elfEverywhere) NoRedo k := .init ⟨_, _, toOption_eq_some.mp hboot⟩
  have hrstarted := hr.foldlM (Event.exec_step elfEverywhere) untilStarted hstarted
  obtain ⟨hok, hstep⟩ := Event.exec_step _ _ _ _ hhalted
  have hrhalted := hrstarted.step hok hstep
  obtain ⟨hright, hbreaks⟩ := runQueue_right hrstarted
  have hreg : Registered started.table 9 := (hright.2 9).mp (by rw [hqueue]; decide)
  exact ⟨started, halted, hrstarted, hqueue, hcurrent, hright,
    ⟨k', toOption_eq_some.mp hredo, hbreaks 9 none k' hreg (toOption_eq_some.mp hredo)⟩,
    hrhalted, hqueue', (runQueue_right hrhalted).1⟩

/-- **`dotask(1)` right after the boot** puts the init thread into the queue a second time. -/
theorem dotask_doubles_init : ¬ ∀ (fs : FileSystem) (k : Kernel),
    Reach (kernelMachine fs) (fun _ _ => True) k → QueueRight k := by
  intro h
  obtain ⟨k, hk, hboot⟩ := exists_booted (PhysPageManager.blank numPhysPages)
    (MemMapManager.construct fun _ => 0)
  have hinv : QueueInv k := ⟨hboot.table, ⟨hboot.nodup, hboot.queue⟩, hboot.live.booted⟩
  have hreg : Registered k.table initPid := (hboot.queue _).mp hboot.live.initQueued
  obtain ⟨k', hk'⟩ := hinv.dotask_ends noFiles hreg none
  have hr : Reach (kernelMachine noFiles) (fun _ _ => True) k' :=
    .step (a := (.dotask initPid, none)) (.init ⟨_, _, hk⟩) trivial hk'
  exact (dotask_breaks_queue hinv hreg none).value hk' (h noFiles k' hr)

end TedkOS.Syscalls
