/-
  What an operation on processes and threads has done once it has come to its end, in any kernel.

  The triples of the invariants say when an operation goes wrong; these tolerate every wrong access
  (`Tolerant`), ask for nothing, and say exactly what the state afterwards is.  They are what a
  proof about runs uses: a call that faults is no step.  The loops over the queue may not come to an
  end at all; what makes them end is told apart at the bottom.

  A process that becomes a parent changes in its link to the child and nowhere else (`forgetChild`).
  Hardly anything looks at that link, so most of what is true of an entry is true of the changed one
  (`SameButChild.view`).
-/
import TedkOS.Proc.SchedInv

namespace TedkOS.Proc

open Checked

/-- No fault is excluded. -/
def AnyFault (_ : Fault) : Prop := True

/-- Every fault is tolerated. -/
theorem anyFault {f : Fault} : AnyFault f := trivial

/-- Every wrong access is tolerated. -/
class Tolerant (ok : Fault → Prop) : Prop where
  wrong : ∀ f, Wrong f → ok f

instance : Tolerant AnyFault := ⟨fun _ _ => anyFault⟩

instance : Tolerant Wrong := ⟨fun _ => id⟩

variable {ok : Fault → Prop} [Tolerant ok]

/-- A wrong access ends an operation, and there is no state to say anything about. -/
theorem Tolerant.fail {α : Type} {f : Fault} {Q : α → Prop} (h : Wrong f) :
    Ensures ok (.error f : Except Fault α) Q := Ensures.fail (Tolerant.wrong f h)

/-! ## The table

  An entry is read, or written, or taken out, and all the others stay. -/

section Table

variable {t : ProcessTable} {pid : Pid}

/-- A thread that has been looked up is in the table. -/
theorem thread_done :
    Ensures ok (t.thread pid) fun p => t.all_processes pid.toNat = some p := by
  unfold ProcessTable.thread
  split
  · next p hp => exact Ensures.pure hp
  · exact Tolerant.fail (by simp [Wrong])

/-- An entry that has been read is one of the array. -/
theorem entry_done : Ensures ok (t.entry pid) fun o =>
    pid.toNat < MAX_NUM_PROCESS ∧ o = t.all_processes pid.toNat :=
  entry_spec (Or.inl Tolerant.wrong)

/-- A process that has been looked up by its id is in the table. -/
theorem get_done : Ensures ok (t.get pid) fun p =>
    pid.toNat < MAX_NUM_PROCESS ∧ t.all_processes pid.toNat = some p := by
  refine Ensures.bind entry_done ?_
  rintro o ⟨hlt, rfl⟩
  cases hp : t.all_processes pid.toNat with
  | none => exact Tolerant.fail (by simp [Wrong])
  | some p => exact Ensures.pure ⟨hlt, rfl⟩

/-- A process without its link to the child it last made. -/
def forgetChild (p : ProcessDesc) : ProcessDesc :=
  { p with mainThreadInfo := { p.mainThreadInfo with execChild := none } }

/-- An entry that is the same but for that link. -/
def SameButChild (o o' : Option ProcessDesc) : Prop := o.map forgetChild = o'.map forgetChild

theorem SameButChild.refl (o : Option ProcessDesc) : SameButChild o o := rfl

/-- Who is in the table is the same. -/
theorem SameButChild.isSome_eq {o o' : Option ProcessDesc} (h : SameButChild o o') :
    o'.isSome = o.isSome := by
  have hsome := congrArg Option.isSome h
  rw [Option.isSome_map, Option.isSome_map] at hsome
  exact hsome.symm

/-- What does not look at the link is the same. -/
theorem SameButChild.view {α : Type} {o o' : Option ProcessDesc} (h : SameButChild o o')
    (f : ProcessDesc → α) (hf : ∀ p, f (forgetChild p) = f p) : o'.map f = o.map f := by
  have hcomp : ∀ o : Option ProcessDesc, (o.map forgetChild).map f = o.map f := by
    intro o
    rw [Option.map_map]
    exact congrArg (fun g => o.map g) (funext hf)
  rw [← hcomp o', ← h, hcomp o]

/-- `adopt` gives the parent a child. -/
theorem adopt_done {parentPID : Pid} (child : Pid) :
    Ensures ok (t.adopt parentPID child) fun r => r.2.nextNewProcess = t.nextNewProcess ∧
      (∀ i, SameButChild (t.all_processes i) (r.2.all_processes i)) ∧
      (parentPID.slt 0 = false → (t.all_processes parentPID.toNat).isSome = true) := by
  unfold ProcessTable.adopt
  cases hneg : parentPID.slt 0 with
  | true =>
    exact Ensures.pure ⟨rfl, fun i => SameButChild.refl _, fun h => absurd h (by decide)⟩
  | false =>
    rw [if_neg (by decide)]
    refine Ensures.bind get_done ?_
    rintro parent ⟨-, hp⟩
    refine Ensures.pure ⟨rfl, fun i => ?_, fun _ => by rw [hp]; rfl⟩
    by_cases hi : i = parentPID.toNat
    · subst hi
      show SameButChild _ ((t.assign parentPID _).all_processes _)
      rw [assign_self, hp]
      rfl
    · show SameButChild _ ((t.assign parentPID _).all_processes _)
      rw [assign_ne t _ hi]
      exact SameButChild.refl _

/-- A write into an entry changes nothing about who is in the table. -/
theorem registered_assign {p p' : ProcessDesc} (hp : t.all_processes pid.toNat = some p) (q : Pid) :
    Registered (t.assign pid (some p')) q ↔ Registered t q := by
  by_cases h : q.toNat = pid.toNat
  · unfold Registered
    rw [h, assign_self, hp]
    exact Iff.rfl
  · unfold Registered
    rw [assign_ne t _ h]

/-- Erasing an entry takes that process out of the table, and no other. -/
theorem registered_erase (q : Pid) : Registered (t.assign pid none) q ↔
    q ≠ pid ∧ Registered t q := by
  by_cases h : q = pid
  · subst h
    unfold Registered
    rw [assign_self]
    simp
  · have hne : q.toNat ≠ pid.toNat := fun e => h (BitVec.eq_of_toNat_eq e)
    unfold Registered
    rw [assign_ne t _ hne]
    exact ⟨fun hr => ⟨h, hr⟩, fun hr => hr.2⟩

end Table

/-! ## The scheduler

  For a function of the source there is one statement, of what the state is after it if it has
  come to an end.  The loops are followed by induction on their rounds, with what is known of the
  queue after so many turns. -/

section Scheduler

variable {k : Kernel} {pid : Pid}

/-- A process with another run state. -/
def ProcessDesc.inState (p : ProcessDesc) (runState : ThreadState) : ProcessDesc :=
  { p with mainThreadInfo := { p.mainThreadInfo with runState } }

/-- One thread has another run state. -/
theorem setRunState_done (newState : ThreadState) :
    Ensures ok (k.setRunState pid newState) fun k' => ∃ p,
      k.table.all_processes pid.toNat = some p ∧
      k' = { k with table := k.table.assign pid (some (p.inState newState)) } := by
  refine Ensures.bind thread_done fun p hp => ?_
  exact Ensures.pure ⟨p, hp, rfl⟩

/-- A thread has another run state, and is at the end of the queue, whether it was in the queue
    or not. -/
theorem attachThread_done (newState : ThreadState) :
    Ensures ok (k.attachThread pid newState) fun k' => ∃ p,
      k.table.all_processes pid.toNat = some p ∧
      k' = { k with table := k.table.assign pid (some (p.inState newState))
                    rrQueue := k.rrQueue ++ [pid] } := by
  refine Ensures.bind (setRunState_done newState) ?_
  rintro k' ⟨p, hp, rfl⟩
  exact Ensures.pure ⟨p, hp, rfl⟩

/-- Is this thread there, and running? -/
def RunsIn (t : ProcessTable) (pid : Pid) : Prop :=
  ∃ p, t.all_processes pid.toNat = some p ∧ p.mainThreadInfo.runState = .Running

/-- A running thread is in the table. -/
theorem RunsIn.registered {t : ProcessTable} (h : RunsIn t pid) : Registered t pid := by
  obtain ⟨p, hp, -⟩ := h
  exact registered_of_eq hp

/-- A write into one entry stops no other thread, and starts none. -/
theorem runsIn_assign_ne {t : ProcessTable} {o : Option ProcessDesc} {q : Pid} (h : q ≠ pid) :
    RunsIn (t.assign pid o) q ↔ RunsIn t q := by
  have hne : q.toNat ≠ pid.toNat := fun e => h (BitVec.eq_of_toNat_eq e)
  unfold RunsIn
  rw [assign_ne t _ hne]

/-- Waking a thread stops no other. -/
theorem RunsIn.wake {t : ProcessTable} {q : Pid} (h : RunsIn t q) (p : ProcessDesc) :
    RunsIn (t.assign pid (some (p.inState .Running))) q := by
  by_cases hq : q = pid
  · subst hq
    exact ⟨_, assign_self t q _, rfl⟩
  · exact (runsIn_assign_ne hq).mpr h

/-- A parent that gets a child keeps running. -/
theorem RunsIn.of_sameButChild {t t' : ProcessTable} {q : Pid} (h : RunsIn t q)
    (hs : SameButChild (t.all_processes q.toNat) (t'.all_processes q.toNat)) : RunsIn t' q := by
  obtain ⟨p, hp, hrun⟩ := h
  have hview := hs.view (fun p => p.mainThreadInfo.runState) fun _ => rfl
  rw [hp] at hview
  obtain ⟨p', hp', he⟩ := Option.map_eq_some_iff.mp hview
  exact ⟨p', hp', he.trans hrun⟩

/-- The loop of `makeDecisionNoLock` has found a running thread, and has turned the queue.  By
    induction on the rounds: a thread that does not run goes from the front to the end. -/
theorem findRunning_done {t : ProcessTable} (rounds : Nat) : ∀ q : List Pid,
    Ensures AnyFault (Kernel.findRunning t rounds q) fun r =>
    RunsIn t r.1 ∧ (r.1 :: r.2).Perm q := by
  induction rounds with
  | zero => exact fun q => Ensures.fail anyFault
  | succ rounds ih =>
    intro q
    cases q with
    | nil => exact Ensures.fail anyFault
    | cons next rest =>
      refine Ensures.bind thread_done fun p hp => ?_
      split
      · next hrun => exact Ensures.pure ⟨⟨p, hp, hrun⟩, List.Perm.refl _⟩
      · refine (ih (rest ++ [next])).mono ?_
        rintro r ⟨hrun, hperm⟩
        exact ⟨hrun, hperm.trans (List.perm_append_singleton next rest)⟩

/-- **A decision**: nothing when the queue is empty; else it picks a running thread of the queue,
    and turns the queue. -/
theorem makeDecision_done : Ensures AnyFault k.makeDecision fun k' =>
    (k.rrQueue = [] ∧ k' = k) ∨ ∃ q w, k' = { k with rrQueue := q, wantToSwitchTo := w } ∧
      q.Perm k.rrQueue ∧ w ∈ k.rrQueue ∧ RunsIn k.table w := by
  unfold Kernel.makeDecision
  by_cases hempty : k.rrQueue = []
  · rw [if_pos hempty]
    exact Ensures.pure (Or.inl ⟨hempty, rfl⟩)
  · rw [if_neg hempty]
    refine Ensures.bind (findRunning_done _ _) ?_
    rintro ⟨next, rest⟩ ⟨hrun, hperm⟩
    refine Ensures.pure (Or.inr ⟨rest ++ [next], next, rfl, ?_, ?_, hrun⟩)
    · exact (List.perm_append_singleton next rest).trans hperm
    · exact hperm.mem_iff.mp List.mem_cons_self

/-- The loop of `halt` has taken one entry of the halting thread out of the queue. -/
theorem rotateTo_done {t : ProcessTable} {own : Pid} (rounds : Nat) : ∀ q : List Pid,
    Ensures AnyFault (Kernel.rotateTo t own rounds q) fun q' => (own :: q').Perm q := by
  induction rounds with
  | zero => exact fun q => Ensures.fail anyFault
  | succ rounds ih =>
    intro q
    cases q with
    | nil => exact Ensures.fail anyFault
    | cons front rest =>
      unfold Kernel.rotateTo
      by_cases hfront : front = own
      · rw [if_pos hfront, hfront]
        exact Ensures.pure (List.Perm.refl (own :: rest))
      · rw [if_neg hfront]
        refine Ensures.bind thread_done fun p _ => ?_
        refine (ih (rest ++ [front])).mono fun q' hq' => ?_
        exact hq'.trans (List.perm_append_singleton front rest)

/-- `remove` has erased the entry and freed the memory of the process, if it was in the table. -/
theorem remove_done : Ensures ok (k.remove pid) fun k' =>
    (k.table.all_processes pid.toNat = none ∧ k' = k) ∨ ∃ p,
      k.table.all_processes pid.toNat = some p ∧
      k' = { k with physPages := k.destroy p, table := k.table.assign pid none } := by
  refine Ensures.bind entry_done ?_
  rintro o ⟨-, rfl⟩
  cases hp : k.table.all_processes pid.toNat with
  | none => exact Ensures.pure (Or.inl ⟨rfl, rfl⟩)
  | some p => exact Ensures.pure (Or.inr ⟨p, rfl, rfl⟩)

/-- **A process ends**: its memory and its entry go, one entry of it leaves the queue, its parent
    wakes up, and there is a decision. -/
theorem halt_done {own prevInfo : Pid} : Ensures AnyFault (k.halt own prevInfo) fun k' =>
    ∃ k₁ q p, ((k.table.all_processes own.toNat = none ∧ k₁ = k) ∨
        ∃ dead, k.table.all_processes own.toNat = some dead ∧
          k₁ = { k with physPages := k.destroy dead, table := k.table.assign own none }) ∧
      (own :: q).Perm k.rrQueue ∧ k₁.table.all_processes prevInfo.toNat = some p ∧
      ((q = [] ∧ k' =
        { k₁ with rrQueue := q, table := k₁.table.assign prevInfo (some (p.inState .Running)) }) ∨
        ∃ q' w, k' = { k₁ with
            rrQueue := q', wantToSwitchTo := w
            table := k₁.table.assign prevInfo (some (p.inState .Running)) } ∧
          q'.Perm q ∧ w ∈ q ∧ RunsIn k'.table w) := by
  refine Ensures.bind thread_done fun _ _ => ?_
  refine Ensures.bind remove_done fun k₁ hk₁ => ?_
  have hqueue : k₁.rrQueue = k.rrQueue := by
    rcases hk₁ with ⟨-, rfl⟩ | ⟨dead, -, rfl⟩ <;> rfl
  -- the loop looks at the queue, which `remove` has left alone
  refine Ensures.bind (rotateTo_done _ _) fun q hq => ?_
  rw [hqueue] at hq
  refine Ensures.bind (setRunState_done .Running) ?_
  rintro k₂ ⟨p, hp, rfl⟩
  refine makeDecision_done.mono ?_
  rintro k' (⟨hnil, rfl⟩ | ⟨q', w, rfl, hperm, hw, hrun⟩)
  · exact ⟨k₁, q, p, hk₁, hq, hp, Or.inl ⟨hnil, rfl⟩⟩
  · exact ⟨k₁, q, p, hk₁, hq, hp, Or.inr ⟨q', w, rfl, hperm, hw, hrun⟩⟩

/-- **The switch**: nothing, or to the process of the pending decision. -/
theorem dispatch_done (vidmap : Option (BitVec 32)) :
    Ensures ok (k.schedDispatchExecution vidmap) fun k' =>
      ((k.wantToSwitchTo.slt 0 = true ∨ k.currentlyRunning = k.wantToSwitchTo) ∧ k' = k) ∨
      ∃ desc, k.wantToSwitchTo.slt 0 = false ∧ k.currentlyRunning ≠ k.wantToSwitchTo ∧
        k.table.all_processes k.wantToSwitchTo.toNat = some desc ∧
        k' = { k with
          cpu0_memmap := (k.cpu0_memmap.loadProcessMap ⟨desc.memmap, vidmap⟩).2
          currentlyRunning := k.wantToSwitchTo
          wantToSwitchTo := -1
          current := desc.pid } := by
  unfold Kernel.schedDispatchExecution
  by_cases hneg : k.wantToSwitchTo.slt 0 = true
  · rw [if_pos hneg]
    exact Ensures.pure (Or.inl ⟨Or.inl hneg, rfl⟩)
  rw [if_neg hneg]
  by_cases hsame : k.currentlyRunning = k.wantToSwitchTo
  · rw [if_pos hsame]
    exact Ensures.pure (Or.inl ⟨Or.inr hsame, rfl⟩)
  rw [if_neg hsame]
  refine Ensures.bind get_done ?_
  rintro desc ⟨-, hdesc⟩
  exact Ensures.pure (Or.inr ⟨desc, Bool.eq_false_iff.mpr hneg, hsame, hdesc, rfl⟩)

/-- A new process as `newDetachedProcess` leaves it. -/
def newChild (pid : Pid) (processType : ProcessType) (execParent : Option Pid)
    (currTerm : Option Nat) :
    ProcessDesc :=
  { ProcessDesc.new pid processType with
    mainThreadInfo := { (ProcessDesc.new pid processType).mainThreadInfo with execParent }
    currTerm }

/-- What `newDetachedProcess` has done. -/
structure Spawned (k : Kernel) (parentPID : Pid) (processType : ProcessType) (r : Pid × Kernel) :
    Prop where
  pid : r.1 = k.table.nextNewProcess
  /-- The id is one of the array: the table was not full. -/
  room : r.1.toNat < MAX_NUM_PROCESS
  same : r.2 = { k with table := r.2.table }
  counter : r.2.table.nextNewProcess = k.table.nextNewProcess + 1
  /-- If the entry was free, the child is in it. -/
  child : k.table.all_processes r.1.toNat = none → ∃ execParent currTerm,
    r.2.table.all_processes r.1.toNat = some (newChild r.1 processType execParent currTerm)
  /-- The others are as before, but for the link of the parent. -/
  others : ∀ i, (i = r.1.toNat → (k.table.all_processes i).isSome = true) →
    SameButChild (k.table.all_processes i) (r.2.table.all_processes i)
  /-- Its terminal is the fallback, during the boot, or the parent's, which has been looked up. -/
  parent : k.isFallbackTerm = true ∨ parentPID.toNat < MAX_NUM_PROCESS

/-- `newProcess` has given out the next id.  If another process had that, it has not registered
    the new one. -/
theorem newProcess_done {t : ProcessTable} {parentPID : Pid} (processType : ProcessType) :
    Ensures ok (t.newProcess parentPID processType) fun r =>
      (∃ execParent, r.1 = newChild t.nextNewProcess processType execParent none) ∧
      r.2.1 = (t.all_processes t.nextNewProcess.toNat).isNone ∧
      t.nextNewProcess.toNat < MAX_NUM_PROCESS ∧
      r.2.2.nextNewProcess = t.nextNewProcess + 1 ∧
      ∀ i, (i = t.nextNewProcess.toNat → (t.all_processes i).isSome = true) →
        SameButChild (t.all_processes i) (r.2.2.all_processes i) := by
  refine Ensures.bind (adopt_done _) ?_
  rintro ⟨parentInfo, t₁⟩ ⟨hcount, hsame, -⟩
  refine Ensures.bind entry_done ?_
  rintro old ⟨hlt, rfl⟩
  have hvacant : (t₁.all_processes t.nextNewProcess.toNat).isNone =
      (t.all_processes t.nextNewProcess.toNat).isNone := by
    rw [← Option.not_isSome, ← Option.not_isSome, (hsame _).isSome_eq]
  refine Ensures.pure ⟨⟨parentInfo, rfl⟩, hvacant, hlt, ?_, fun i hi => ?_⟩
  · show (if _ then _ else t₁ : ProcessTable).nextNewProcess + 1 = _
    split
    · exact congrArg (· + 1) hcount
    · exact congrArg (· + 1) hcount
  · show SameButChild _ ((if _ then _ else t₁ : ProcessTable).all_processes i)
    -- a vacant entry is filled, and no other
    split
    · next hnone =>
      have hne : i ≠ t.nextNewProcess.toNat := by
        intro e
        have hsome := hi e
        rw [e] at hsome
        rw [hvacant, ← Option.not_isSome, hsome] at hnone
        exact absurd hnone (by decide)
      rw [assign_ne t₁ _ hne]
      exact hsame i
    · exact hsame i

/-- **`newDetachedProcess`**, in any kernel. -/
theorem newDetachedProcess_done {parentPID : Pid} (processType : ProcessType) :
    Ensures ok (k.newDetachedProcess parentPID processType) (Spawned k parentPID processType) := by
  refine Ensures.bind (newProcess_done processType) ?_
  rintro ⟨pd, registered, table⟩ ⟨⟨execParent, hpd⟩, hreg, hlt, hcount, hothers⟩
  have hterm : Ensures ok (k.initialTerm table parentPID) fun _ =>
      k.isFallbackTerm = true ∨ parentPID.toNat < MAX_NUM_PROCESS := by
    unfold Kernel.initialTerm
    split
    · next hfb => exact Ensures.pure (Or.inl hfb)
    · exact Ensures.bind get_done fun p hp => Ensures.pure (Or.inr hp.1)
  refine Ensures.bind hterm fun currTerm hpar => ?_
  have hpid : pd.pid = k.table.nextNewProcess := by
    change pd = _ at hpd
    rw [hpd]
    rfl
  change registered = _ at hreg
  refine Ensures.pure ⟨hpid, by rw [hpid]; exact hlt, rfl, ?_, ?_, ?_, hpar⟩
  · show (if registered then table.assign pd.pid _ else table).nextNewProcess = _
    split
    · exact hcount
    · exact hcount
  · -- the entry was vacant, so the new process is registered in it
    intro hnone
    change k.table.all_processes pd.pid.toNat = none at hnone
    rw [hpid] at hnone
    rw [hnone] at hreg
    refine ⟨execParent, currTerm, ?_⟩
    show (if registered then table.assign pd.pid _ else table).all_processes pd.pid.toNat = _
    rw [if_pos (show registered = true from hreg), assign_self]
    change pd = _ at hpd
    rw [hpd]
    rfl
  · -- and every other entry is as it was, or its link to the child has changed
    intro i hi
    change i = pd.pid.toNat → _ at hi
    show SameButChild _ ((if registered then table.assign pd.pid _ else table).all_processes i)
    split
    · next hr =>
      have hne : i ≠ pd.pid.toNat := by
        intro e
        have hsome := hi e
        rw [e, hpid] at hsome
        rw [hreg, ← Option.not_isSome, hsome] at hr
        exact absurd hr (by decide)
      rw [assign_ne table _ hne]
      exact hothers i fun e => hi (by rw [hpid]; exact e)
    · exact hothers i fun e => hi (by rw [hpid]; exact e)

/-! ### What comes to its end

  A loop over the queue ends because there is somebody to stop at: a running thread for a
  decision, the thread itself for a removal.  After at most as many rounds as the queue is long
  that one is in front. -/

/-- No fault at all. -/
def NoFault (_ : Fault) : Prop := False

/-- The loop of `makeDecisionNoLock` ends when a thread it will come to is running.  By induction
    on the rounds: with each the running thread, at place `i`, is one place nearer to the front. -/
theorem findRunning_ends {t : ProcessTable} (rounds : Nat) : ∀ (q : List Pid) (i : Nat) (pid : Pid),
    i < rounds → q[i]? = some pid → RunsIn t pid → (∀ pid ∈ q, Registered t pid) →
    ∃ r, Kernel.findRunning t rounds q = .ok r := by
  induction rounds with
  | zero =>
    intro q i pid hi
    omega
  | succ rounds ih =>
    intro q i pid hi hget hrun hreg
    cases q with
    | nil => cases hget
    | cons next rest =>
      obtain ⟨p, hp⟩ := Option.isSome_iff_exists.mp (hreg next List.mem_cons_self)
      rw [Kernel.findRunning, TableInv.thread_eq hp, ok_bind]
      split
      · exact ⟨_, rfl⟩
      · next hstopped =>
        cases i with
        | zero =>
          -- the thread in front is the running one
          obtain rfl : next = pid := Option.some.inj hget
          obtain ⟨p', hp', hrun'⟩ := hrun
          rw [hp] at hp'
          exact absurd hrun' (Option.some.inj hp' ▸ hstopped)
        | succ i =>
          have hrest : rest[i]? = some pid := hget
          have hlt : i < rest.length := by
            by_contra hge
            rw [List.getElem?_eq_none (by omega)] at hrest
            cases hrest
          refine ih (rest ++ [next]) i pid (by omega) ?_ hrun fun q hq => hreg q ?_
          · rw [List.getElem?_append_left hlt]
            exact hrest
          · exact (List.perm_append_singleton next rest).mem_iff.mp hq

/-- **A decision ends** when a thread of the queue is running. -/
theorem makeDecision_ends (hreg : ∀ pid ∈ k.rrQueue, Registered k.table pid) (hin : pid ∈ k.rrQueue)
    (hrun : RunsIn k.table pid) : Ensures NoFault k.makeDecision fun k' =>
      ∃ q w, k' = { k with rrQueue := q, wantToSwitchTo := w } ∧ q.Perm k.rrQueue ∧ w ∈ k.rrQueue ∧
        RunsIn k.table w := by
  obtain ⟨i, hget⟩ := List.mem_iff_getElem?.mp hin
  obtain ⟨hlt, -⟩ := List.getElem?_eq_some_iff.mp hget
  have hne : k.rrQueue ≠ [] := List.ne_nil_of_mem hin
  obtain ⟨r, hr⟩ := findRunning_ends _ k.rrQueue i pid hlt hget hrun hreg
  have hok : k.makeDecision = .ok { k with wantToSwitchTo := r.1, rrQueue := r.2 ++ [r.1] } := by
    unfold Kernel.makeDecision
    rw [if_neg hne, hr, ok_bind]
    rfl
  refine Ensures.of_eq hok ?_
  rcases makeDecision_done.value hok with ⟨hnil, -⟩ | hdone
  · exact absurd hnil hne
  · exact hdone

/-- The loop of `halt` ends when the halting thread is in the queue: with each round it is one
    place nearer to the front. -/
theorem rotateTo_ends {t : ProcessTable} {own : Pid} (rounds : Nat) : ∀ (q : List Pid) (i : Nat),
    i < rounds → q[i]? = some own → (∀ pid ∈ q, pid = own ∨ Registered t pid) →
    ∃ q', Kernel.rotateTo t own rounds q = .ok q' := by
  induction rounds with
  | zero =>
    intro q i hi
    omega
  | succ rounds ih =>
    intro q i hi hget hreg
    cases q with
    | nil => cases hget
    | cons front rest =>
      rw [Kernel.rotateTo]
      split
      · exact ⟨_, rfl⟩
      · next hfront =>
        obtain ⟨p, hp⟩ := Option.isSome_iff_exists.mp
          ((hreg front List.mem_cons_self).resolve_left hfront)
        rw [TableInv.thread_eq hp, ok_bind]
        cases i with
        | zero => exact absurd (Option.some.inj hget) hfront
        | succ i =>
          have hrest : rest[i]? = some own := hget
          have hlt : i < rest.length := by
            by_contra hge
            rw [List.getElem?_eq_none (by omega)] at hrest
            cases hrest
          refine ih (rest ++ [front]) i (by omega) ?_ fun q hq => hreg q ?_
          · rw [List.getElem?_append_left hlt]
            exact hrest
          · exact (List.perm_append_singleton front rest).mem_iff.mp hq

/-- **The switch ends** when the pending decision, if there is one, is for a process of the
    table. -/
theorem dispatch_ends (h : TableInv k.table)
    (hwant : k.wantToSwitchTo.slt 0 = true ∨ Registered k.table k.wantToSwitchTo)
    (vidmap : Option (BitVec 32)) : ∃ k', k.schedDispatchExecution vidmap = .ok k' := by
  unfold Kernel.schedDispatchExecution
  by_cases hneg : k.wantToSwitchTo.slt 0 = true
  · exact ⟨k, by rw [if_pos hneg]; rfl⟩
  rw [if_neg hneg]
  by_cases hsame : k.currentlyRunning = k.wantToSwitchTo
  · exact ⟨k, by rw [if_pos hsame]; rfl⟩
  rw [if_neg hsame]
  obtain ⟨desc, hdesc⟩ := Option.isSome_iff_exists.mp (hwant.resolve_left hneg)
  rw [h.get_eq hdesc, ok_bind]
  exact ⟨_, rfl⟩

end Scheduler

end TedkOS.Proc
