/-
  What the process table and the scheduler keep, one lemma for each operation.

  Table (`TableInv`): the ids handed out so far are the numbers below the counter, the array has
  room for them, an entry is found under its own id, and a parent is older than its child.  Entries
  change and new ones come, but ids and parents stay (`Extends`).

  Scheduler (`Core`): the queue and the pending decision name processes of the table only, and the
  init thread, which has no parent, never leaves the queue.  That is why there is always somebody to
  decide for: a decision on an empty queue leaves the old one pending, which may be for a process
  that is gone.

  The lemmas are triples: an operation on a state like this never touches the array out of bounds, a
  null entry or a removed thread.  What they do not exclude is a loop that finds nobody to run.
  Most come with a condition `hfit`: either the arguments are good, or wrong accesses will do.  So
  one lemma serves both the proof that nothing goes wrong and the one about calls that came back.
-/
import TedkOS.Lib.Checked
import TedkOS.Proc.Sched

namespace TedkOS.Proc

open Checked

/-- The one way to stop that breaks no rule of the table. -/
def Harmless (f : Fault) : Prop := f = .diverges

/-- The ways that do. -/
def Wrong (f : Fault) : Prop := f ≠ .diverges

/-! ## The table

  An entry is found by the id that is its index, as long as ids are not negative and below the
  size of the array. -/

section Table

/-- The process is in the table. -/
def Registered (t : ProcessTable) (pid : Pid) : Prop := (t.all_processes pid.toNat).isSome = true

/-- What is true of the table between any two operations. -/
structure TableInv (t : ProcessTable) : Prop where
  /-- The counter has not run past the array. -/
  room : t.nextNewProcess.toNat ≤ MAX_NUM_PROCESS
  /-- Only ids handed out are in use, so that the next one is free. -/
  below : ∀ i p, t.all_processes i = some p → i < t.nextNewProcess.toNat
  /-- A process is found under its own id. -/
  named : ∀ i p, t.all_processes i = some p → p.pid.toNat = i
  /-- A parent is older than its child: no process is its own parent. -/
  older : ∀ i p par, t.all_processes i = some p → p.mainThreadInfo.execParent = some par →
    par.toNat < i

/-- Every process of `t` is in `t'`, under its id and with its parent. -/
def Extends (t t' : ProcessTable) : Prop :=
  ∀ i p, t.all_processes i = some p → ∃ p', t'.all_processes i = some p' ∧
    p'.mainThreadInfo.execParent = p.mainThreadInfo.execParent

variable {t t' t'' : ProcessTable} {pid : Pid} {p : ProcessDesc}

/-- The same table. -/
theorem Extends.refl (t : ProcessTable) : Extends t t := fun _ p h => ⟨p, h, rfl⟩

/-- Two changes, one after the other. -/
theorem Extends.trans (h : Extends t t') (h' : Extends t' t'') : Extends t t'' := by
  intro i p hp
  obtain ⟨p', hp', he⟩ := h i p hp
  obtain ⟨p'', hp'', he'⟩ := h' i p' hp'
  exact ⟨p'', hp'', he'.trans he⟩

/-- Who was in the table still is. -/
theorem Registered.extends (h : Registered t pid) (he : Extends t t') : Registered t' pid := by
  obtain ⟨p, hp⟩ := Option.isSome_iff_exists.mp h
  obtain ⟨p', hp', -⟩ := he _ p hp
  exact Option.isSome_iff_exists.mpr ⟨p', hp'⟩

/-- An entry that is not empty. -/
theorem registered_of_eq (h : t.all_processes pid.toNat = some p) : Registered t pid :=
  Option.isSome_iff_exists.mpr ⟨p, h⟩

/-- The entry written. -/
theorem assign_self (t : ProcessTable) (pid : Pid) (o : Option ProcessDesc) :
    (t.assign pid o).all_processes pid.toNat = o := Function.update_self _ _ _

/-- The other entries. -/
theorem assign_ne (t : ProcessTable) (o : Option ProcessDesc) {i : Nat} (h : i ≠ pid.toNat) :
    (t.assign pid o).all_processes i = t.all_processes i := Function.update_of_ne h _ _

namespace TableInv

/-- An id of the table is an index of the array. -/
theorem lt_room (h : TableInv t) (hp : t.all_processes pid.toNat = some p) :
    pid.toNat < MAX_NUM_PROCESS := by
  have h1 := h.below _ p hp
  have h2 := h.room
  omega

/-- An id of the table is no negative number. -/
theorem not_negative (h : TableInv t) (hr : Registered t pid) : pid.slt 0 = false := by
  obtain ⟨p, hp⟩ := Option.isSome_iff_exists.mp hr
  have hlt : pid.toNat < 256 := h.lt_room hp
  rw [BitVec.slt_eq_decide, decide_eq_false_iff_not, BitVec.toInt_eq_toNat_of_lt (by omega)]
  show ¬ (pid.toNat : Int) < 0
  omega

/-- A process has the id it is found under. -/
theorem pid_eq (h : TableInv t) (hp : t.all_processes pid.toNat = some p) : p.pid = pid :=
  BitVec.eq_of_toNat_eq (h.named _ p hp)

/-- `get` on a process of the table. -/
theorem get_eq (h : TableInv t) (hp : t.all_processes pid.toNat = some p) : t.get pid = .ok p := by
  unfold ProcessTable.get ProcessTable.entry
  rw [if_pos (h.lt_room hp), hp]
  rfl

/-- A thread of the table is found. -/
theorem thread_eq (hp : t.all_processes pid.toNat = some p) : t.thread pid = .ok p := by
  unfold ProcessTable.thread
  rw [hp]

/-- A change inside one process. -/
theorem assign (h : TableInv t) (p' : ProcessDesc) (hp : t.all_processes pid.toNat = some p)
    (hpid : p'.pid = p.pid) (hpar : p'.mainThreadInfo.execParent = p.mainThreadInfo.execParent) :
    TableInv (t.assign pid (some p')) ∧ Extends t (t.assign pid (some p')) := by
  have hcases : ∀ i q, (t.assign pid (some p')).all_processes i = some q →
      ∃ q₀, t.all_processes i = some q₀ ∧ q.pid = q₀.pid ∧
        q.mainThreadInfo.execParent = q₀.mainThreadInfo.execParent := by
    intro i q hq
    by_cases hi : i = pid.toNat
    · subst hi
      rw [assign_self] at hq
      cases hq
      exact ⟨p, hp, hpid, hpar⟩
    · rw [assign_ne t _ hi] at hq
      exact ⟨q, hq, rfl, rfl⟩
  refine ⟨⟨h.room, fun i q hq => ?_, fun i q hq => ?_, fun i q par hq hpar' => ?_⟩, ?_⟩
  · obtain ⟨q₀, hq₀, -, -⟩ := hcases i q hq
    exact h.below i q₀ hq₀
  · obtain ⟨q₀, hq₀, hname, -⟩ := hcases i q hq
    rw [hname]
    exact h.named i q₀ hq₀
  · obtain ⟨q₀, hq₀, -, hlink⟩ := hcases i q hq
    exact h.older i q₀ par hq₀ (hlink ▸ hpar')
  · intro i q hq
    by_cases hi : i = pid.toNat
    · subst hi
      rw [hp] at hq
      cases hq
      exact ⟨p', assign_self t pid _, hpar⟩
    · exact ⟨q, by rw [assign_ne t _ hi, hq], rfl⟩

/-- A process leaves.  The counter stays where it is, so its id does not come again. -/
theorem erase (h : TableInv t) : TableInv (t.assign pid none) := by
  have hcases : ∀ i q, (t.assign pid none).all_processes i = some q →
      t.all_processes i = some q := by
    intro i q hq
    by_cases hi : i = pid.toNat
    · subst hi
      rw [assign_self] at hq
      exact absurd hq (by simp)
    · rwa [assign_ne t _ hi] at hq
  exact ⟨h.room, fun i q hq => h.below i q (hcases i q hq),
    fun i q hq => h.named i q (hcases i q hq), fun i q par hq => h.older i q par (hcases i q hq)⟩

/-- The next id is not taken. -/
theorem vacant (h : TableInv t) (hnext : t.nextNewProcess = pid) :
    t.all_processes pid.toNat = none := by
  cases hq : t.all_processes pid.toNat with
  | none => rfl
  | some q =>
    have hlt := h.below _ q hq
    rw [hnext] at hlt
    exact absurd hlt (Nat.lt_irrefl _)

/-- A process comes, under the next id and with an older parent. -/
theorem register (h : TableInv t) (hnext : t.nextNewProcess = pid)
    (hlt : pid.toNat < MAX_NUM_PROCESS) (hpid : p.pid = pid)
    (hpar : ∀ par, p.mainThreadInfo.execParent = some par → par.toNat < pid.toNat) :
    TableInv { t.assign pid (some p) with nextNewProcess := t.nextNewProcess + 1 } ∧
      Extends t { t.assign pid (some p) with nextNewProcess := t.nextNewProcess + 1 } := by
  change pid.toNat < 256 at hlt
  have hsucc : (t.nextNewProcess + 1).toNat = pid.toNat + 1 := by
    rw [hnext, BitVec.toNat_add]
    show (pid.toNat + 1) % 0x100000000 = _
    omega
  have hcases : ∀ i q, (t.assign pid (some p)).all_processes i = some q →
      (i = pid.toNat ∧ q = p) ∨ t.all_processes i = some q := by
    intro i q hq
    by_cases hi : i = pid.toNat
    · subst hi
      rw [assign_self] at hq
      exact Or.inl ⟨rfl, (Option.some.inj hq).symm⟩
    · rw [assign_ne t _ hi] at hq
      exact Or.inr hq
  -- each part for the new process, and for the old ones
  refine ⟨⟨?_, fun i q hq => ?_, fun i q hq => ?_, fun i q par hq hlink => ?_⟩, fun i q hq => ?_⟩
  · show (t.nextNewProcess + 1).toNat ≤ 256
    omega
  · show i < (t.nextNewProcess + 1).toNat
    rcases hcases i q hq with ⟨hi, -⟩ | hold
    · omega
    · have hbelow := h.below i q hold
      rw [hnext] at hbelow
      omega
  · rcases hcases i q hq with ⟨rfl, rfl⟩ | hold
    · rw [hpid]
    · exact h.named i q hold
  · rcases hcases i q hq with ⟨rfl, rfl⟩ | hold
    · exact hpar par hlink
    · exact h.older i q par hold hlink
  · have hi : i ≠ pid.toNat := by
      rintro rfl
      rw [h.vacant hnext] at hq
      exact absurd hq (by simp)
    exact ⟨q, (assign_ne t _ hi).trans hq, rfl⟩

end TableInv

/-- What `newProcess` gives back when there is an id left. -/
structure NewProcess (t : ProcessTable) (parentPID : Pid) (r : ProcessDesc × Bool × ProcessTable) :
    Prop where
  /-- The entry was free, so the process is in the table. -/
  registered : r.2.1 = true
  /-- A negative id asks for no parent. -/
  orphan : parentPID.slt 0 = true → r.1.mainThreadInfo.execParent = none
  pid : r.1.pid = t.nextNewProcess
  memmap : r.1.memmap = Palloc.TinyMemMap.new
  entry : r.2.2.all_processes t.nextNewProcess.toNat = some r.1
  inv : TableInv r.2.2
  old : Extends t r.2.2
  counter : r.2.2.nextNewProcess = t.nextNewProcess + 1

section Making

variable {ok : Fault → Prop}

/-- Reading an entry, where the index is good or a wrong access will do. -/
theorem entry_spec (hfit : (∀ f, Wrong f → ok f) ∨ pid.toNat < MAX_NUM_PROCESS) :
    Ensures ok (t.entry pid) fun o =>
    pid.toNat < MAX_NUM_PROCESS ∧ o = t.all_processes pid.toNat := by
  unfold ProcessTable.entry
  split
  · next hlt => exact Ensures.pure ⟨hlt, rfl⟩
  · next hge =>
    exact Ensures.fail (hfit.elim (fun hok => hok _ (by simp [Wrong])) fun hlt => absurd hlt hge)

/-- Looking a process up, where it is there or a wrong access will do. -/
theorem get_spec (h : TableInv t) (hfit : (∀ f, Wrong f → ok f) ∨ Registered t pid) :
    Ensures ok (t.get pid) fun p => t.all_processes pid.toNat = some p := by
  rcases hfit with hok | hreg
  · refine Ensures.bind (entry_spec (Or.inl hok)) ?_
    rintro o ⟨-, rfl⟩
    cases hp : t.all_processes pid.toNat with
    | none => exact Ensures.fail (hok _ (by simp [Wrong]))
    | some p => exact Ensures.pure rfl
  · obtain ⟨p, hp⟩ := Option.isSome_iff_exists.mp hreg
    exact Ensures.of_eq (h.get_eq hp) hp

/-- The parent of a new process: the table changes inside its entry only. -/
theorem adopt_spec (h : TableInv t) {parentPID : Pid} (child : Pid)
    (hpar : (∀ f, Wrong f → ok f) ∨ parentPID.slt 0 = true ∨ Registered t parentPID) :
    Ensures ok (t.adopt parentPID child) fun r => TableInv r.2 ∧ Extends t r.2 ∧
      r.2.nextNewProcess = t.nextNewProcess ∧
      (∀ par, r.1 = some par → par.toNat < t.nextNewProcess.toNat) ∧
      (parentPID.slt 0 = true → r.1 = none) := by
  unfold ProcessTable.adopt
  cases hneg : parentPID.slt 0 with
  | true =>
    exact Ensures.pure ⟨h, Extends.refl t, rfl, fun par hp => absurd hp (by simp), fun _ => rfl⟩
  | false =>
    have hfit : (∀ f, Wrong f → ok f) ∨ Registered t parentPID :=
      hpar.imp_right fun hp => hp.resolve_left (by rw [hneg]; decide)
    rw [if_neg (by decide)]
    refine Ensures.bind (get_spec h hfit) fun q hq => ?_
    obtain ⟨hinv, hext⟩ := h.assign { q with
      mainThreadInfo := { q.mainThreadInfo with execChild := some child } } hq rfl rfl
    refine Ensures.pure ⟨hinv, hext, rfl, fun par hp => ?_, fun hn => absurd hn (by decide)⟩
    cases Option.some.inj hp
    rw [h.pid_eq hq]
    exact h.below _ q hq

/-- **`newProcess` registers what it makes.**  It comes to an end when the counter is below the size
    of the array and the parent, if one is asked for, exists. -/
theorem newProcess_spec (h : TableInv t) {parentPID : Pid}
    (hfit : (∀ f, Wrong f → ok f) ∨ t.nextNewProcess.toNat < MAX_NUM_PROCESS ∧
      (parentPID.slt 0 = true ∨ Registered t parentPID)) (processType : ProcessType) :
    Ensures ok (t.newProcess parentPID processType) (NewProcess t parentPID) := by
  refine Ensures.bind (adopt_spec h t.nextNewProcess (hfit.imp_right And.right)) ?_
  rintro ⟨parentInfo, t₁⟩ ⟨hinv, hext, hcount, holder, horphan⟩
  refine Ensures.bind (entry_spec (hfit.imp_right And.left)) ?_
  rintro old ⟨hlt, hold⟩
  -- the entry of the next id is free
  rw [hinv.vacant hcount] at hold
  subst hold
  obtain ⟨hinv', hext'⟩ := hinv.register (p := { ProcessDesc.new t.nextNewProcess processType with
    mainThreadInfo := { (ProcessDesc.new t.nextNewProcess processType).mainThreadInfo with
      execParent := parentInfo } }) hcount hlt rfl holder
  exact Ensures.pure ⟨rfl, horphan, rfl, rfl, assign_self t₁ _ _, hinv', hext.trans hext',
    congrArg (· + 1) hcount⟩

/-- A process that `newProcess` returned is the one its id is looked up to. -/
theorem newProcess_get (h : TableInv t) {parentPID : Pid} {processType : ProcessType}
    {r : ProcessDesc × Bool × ProcessTable} (hr : t.newProcess parentPID processType = .ok r) :
    r.2.2.get r.1.pid = .ok r.1 := by
  have hspec : Ensures Wrong (t.newProcess parentPID processType) (NewProcess t parentPID) :=
    newProcess_spec h (Or.inl fun _ => id) processType
  have hnew := hspec.value hr
  rw [hnew.pid]
  exact hnew.inv.get_eq hnew.entry

end Making

end Table

/-! ## The scheduler

  The loops go round the queue until they meet somebody.  The rest is that everybody in it is
  registered, which an erased process must not be. -/

/-- The id of the init thread. -/
def initPid : Pid := 1

/-- What the table and the scheduler keep at all times. -/
structure Core (k : Kernel) : Prop where
  table : TableInv k.table
  queue : ∀ pid ∈ k.rrQueue, Registered k.table pid
  /-- What is to run next is nobody, or in the table. -/
  want : k.wantToSwitchTo.slt 0 = true ∨ Registered k.table k.wantToSwitchTo
  /-- The init thread has no parent, so that it cannot halt. -/
  init : ∃ p, k.table.all_processes initPid.toNat = some p ∧ p.mainThreadInfo.execParent = none
  initQueued : initPid ∈ k.rrQueue

/-- Between two events the thread on the processor is one of the table. -/
structure Live (k : Kernel) : Prop extends Core k where
  current : Registered k.table k.current
  /-- What the scheduler takes for the running thread is the one on the processor, or unknown,
      right after the boot. -/
  running : k.currentlyRunning = k.current ∨ k.currentlyRunning = -1
  booted : k.isFallbackTerm = false

/-- What an event leaves alone: the processes it found, and the thread on the processor. -/
structure Frame (k k' : Kernel) : Prop where
  table : Extends k.table k'.table
  current : k'.current = k.current
  running : k'.currentlyRunning = k.currentlyRunning
  fallback : k'.isFallbackTerm = k.isFallbackTerm

section Scheduler

variable {k k' k'' : Kernel} {pid : Pid} {ok : Fault → Prop}

/-- Nothing has happened. -/
theorem Frame.refl (k : Kernel) : Frame k k := ⟨Extends.refl _, rfl, rfl, rfl⟩

/-- Two events, one after the other. -/
theorem Frame.trans (h : Frame k k') (h' : Frame k' k'') : Frame k k'' :=
  ⟨h.table.trans h'.table, h'.current.trans h.current, h'.running.trans h.running,
    h'.fallback.trans h.fallback⟩

/-- A table that has the processes of the old one keeps the scheduler in order. -/
theorem Core.withTable (h : Core k) {t' : ProcessTable} (ht : TableInv t')
    (he : Extends k.table t') : Core { k with table := t' } where
  table := ht
  queue pid hpid := (h.queue pid hpid).extends he
  want := h.want.imp_right fun hw => hw.extends he
  init := by
    obtain ⟨p, hp, hnone⟩ := h.init
    obtain ⟨p', hp', hlink⟩ := he _ p hp
    exact ⟨p', hp', hlink.trans hnone⟩
  initQueued := h.initQueued

/-- Setting a run state changes one entry, and not its parent. -/
theorem setRunState_spec (h : TableInv k.table) (hr : Registered k.table pid)
    (newState : ThreadState) :
    Ensures ok (k.setRunState pid newState) fun k' => ∃ t', k' = { k with table := t' } ∧
      TableInv t' ∧ Extends k.table t' ∧ t'.nextNewProcess = k.table.nextNewProcess := by
  obtain ⟨p, hp⟩ := Option.isSome_iff_exists.mp hr
  refine Ensures.bind (Ensures.of_eq (TableInv.thread_eq hp) rfl) fun q hq => ?_
  subst hq
  obtain ⟨hinv, hext⟩ := h.assign { p with
    mainThreadInfo := { p.mainThreadInfo with runState := newState } } hp rfl rfl
  exact Ensures.pure ⟨_, rfl, hinv, hext, rfl⟩

/-- Attaching a thread sets its run state, and queues it. -/
theorem attachThread_spec (h : TableInv k.table) (hr : Registered k.table pid)
    (newState : ThreadState) :
    Ensures ok (k.attachThread pid newState) fun k' => ∃ t',
      k' = { k with table := t', rrQueue := k.rrQueue ++ [pid] } ∧ TableInv t' ∧
        Extends k.table t' ∧ t'.nextNewProcess = k.table.nextNewProcess := by
  refine Ensures.bind (setRunState_spec h hr newState) ?_
  rintro k' ⟨t', rfl, hinv, hext, hcount⟩
  exact Ensures.pure ⟨t', rfl, hinv, hext, hcount⟩

/-- Attaching a thread of the table keeps the scheduler in order. -/
theorem Core.attach (h : Core k) (hr : Registered k.table pid) (newState : ThreadState) :
    Ensures ok (k.attachThread pid newState) fun k' => Core k' ∧ Frame k k' ∧
      k'.table.nextNewProcess = k.table.nextNewProcess := by
  refine (attachThread_spec h.table hr newState).mono ?_
  rintro k' ⟨t', rfl, hinv, hext, hcount⟩
  have hcore := h.withTable hinv hext
  refine ⟨⟨hinv, fun q hq => ?_, hcore.want, hcore.init, ?_⟩, ⟨hext, rfl, rfl, rfl⟩, hcount⟩
  · rcases List.mem_append.mp hq with hold | hnew
    · exact hcore.queue q hold
    · cases List.mem_singleton.mp hnew
      exact hr.extends hext
  · exact List.mem_append_left _ h.initQueued

/-- The loop looks at threads of the queue only, and turns the queue.  By induction on the
    rounds; when they are used up, the source would go on for ever. -/
theorem findRunning_spec {t : ProcessTable} (rounds : Nat) : ∀ {q : List Pid}, q ≠ [] →
    (∀ pid ∈ q, Registered t pid) →
    Ensures Harmless (Kernel.findRunning t rounds q) fun r => (r.1 :: r.2).Perm q := by
  induction rounds with
  | zero => exact fun _ _ => Ensures.fail rfl
  | succ rounds ih =>
    intro q hne hq
    cases q with
    | nil => exact absurd rfl hne
    | cons next rest =>
      obtain ⟨p, hp⟩ := Option.isSome_iff_exists.mp (hq next List.mem_cons_self)
      refine Ensures.bind (Ensures.of_eq (TableInv.thread_eq hp) rfl) fun _ _ => ?_
      split
      · exact Ensures.pure (List.Perm.refl _)
      · have hturn : (rest ++ [next]).Perm (next :: rest) := List.perm_append_singleton next rest
        refine (ih (by simp) fun pid hpid => hq pid (hturn.mem_iff.mp hpid)).mono fun r hr => ?_
        exact hr.trans hturn

/-- **A decision** picks a thread of the queue and turns the queue, and changes nothing else. -/
theorem makeDecision_spec (hq : ∀ pid ∈ k.rrQueue, Registered k.table pid) :
    Ensures Harmless k.makeDecision fun k' => ∃ q w,
      k' = { k with rrQueue := q, wantToSwitchTo := w } ∧ q.Perm k.rrQueue ∧
        ((k.rrQueue = [] ∧ w = k.wantToSwitchTo) ∨ w ∈ k.rrQueue) := by
  unfold Kernel.makeDecision
  by_cases hempty : k.rrQueue = []
  · rw [if_pos hempty]
    exact Ensures.pure ⟨k.rrQueue, k.wantToSwitchTo, rfl, List.Perm.refl _, Or.inl ⟨hempty, rfl⟩⟩
  · rw [if_neg hempty]
    refine Ensures.bind (findRunning_spec _ hempty hq) ?_
    rintro ⟨next, rest⟩ hperm
    refine Ensures.pure ⟨rest ++ [next], next, rfl, ?_, Or.inr ?_⟩
    · exact (List.perm_append_singleton next rest).trans hperm
    · exact hperm.mem_iff.mp List.mem_cons_self

/-- **A decision** keeps the scheduler in order. -/
theorem Core.decide (h : Core k) :
    Ensures Harmless k.makeDecision fun k' => Core k' ∧ Frame k k' := by
  refine (makeDecision_spec h.queue).mono ?_
  rintro k' ⟨q, w, rfl, hperm, hw⟩
  refine ⟨⟨h.table, fun pid hpid => h.queue pid (hperm.mem_iff.mp hpid), ?_, h.init,
    hperm.mem_iff.mpr h.initQueued⟩, ⟨Extends.refl _, rfl, rfl, rfl⟩⟩
  rcases hw with ⟨-, rfl⟩ | hmem
  · exact h.want
  · exact Or.inr (h.queue w hmem)

/-- **A thread that blocks** keeps it in order: it is in the queue as before, and is passed over. -/
theorem Core.block (h : Core k) (hr : Registered k.table pid) :
    Ensures Harmless (k.block pid) fun k' => Core k' ∧ Frame k k' := by
  refine Ensures.bind (setRunState_spec h.table hr .Waiting) ?_
  rintro k₁ ⟨t', rfl, hinv, hext, -⟩
  refine (h.withTable hinv hext).decide.mono ?_
  rintro k' ⟨hcore, hframe⟩
  have hset : Frame k { k with table := t' } := ⟨hext, rfl, rfl, rfl⟩
  exact ⟨hcore, hset.trans hframe⟩

/-- **The switch.**  It ends on a thread of the table when the one it starts from is of the table,
    or when there is another one to switch to. -/
theorem Core.dispatch (h : Core k) (vidmap : Option (BitVec 32)) (hboot : k.isFallbackTerm = false)
    (hgo : (Registered k.table k.current ∧
        (k.currentlyRunning = k.current ∨ k.currentlyRunning = -1)) ∨
      (Registered k.table k.wantToSwitchTo ∧ k.currentlyRunning ≠ k.wantToSwitchTo)) :
    Ensures Harmless (k.schedDispatchExecution vidmap) Live := by
  unfold Kernel.schedDispatchExecution
  by_cases hneg : k.wantToSwitchTo.slt 0 = true
  · rw [if_pos hneg]
    rcases hgo with ⟨hcur, hrun⟩ | ⟨hreg, -⟩
    · exact Ensures.pure ⟨h, hcur, hrun, hboot⟩
    · exact absurd hneg (by rw [h.table.not_negative hreg]; decide)
  rw [if_neg hneg]
  by_cases hsame : k.currentlyRunning = k.wantToSwitchTo
  · rw [if_pos hsame]
    rcases hgo with ⟨hcur, hrun⟩ | ⟨-, hne⟩
    · exact Ensures.pure ⟨h, hcur, hrun, hboot⟩
    · exact absurd hsame hne
  -- the process of the decision is in the table, and is on the processor then
  rw [if_neg hsame]
  have hreg := h.want.resolve_left hneg
  refine Ensures.bind (get_spec h.table (Or.inr hreg)) fun desc hdesc => ?_
  have hpid : desc.pid = k.wantToSwitchTo := h.table.pid_eq hdesc
  have hnone : (-1 : BitVec 32).slt 0 = true := by decide
  refine Ensures.pure ⟨⟨h.table, h.queue, Or.inl hnone, h.init, h.initQueued⟩, ?_, Or.inl ?_, hboot⟩
  · show Registered k.table desc.pid
    rw [hpid]
    exact hreg
  · exact hpid.symm

/-- The loop of `halt` takes one entry of the halting thread out of the queue.  By induction on
    the rounds; what it passes over goes to the end. -/
theorem rotateTo_spec {t : ProcessTable} {own : Pid} (rounds : Nat) : ∀ {q : List Pid}, own ∈ q →
    (∀ pid ∈ q, pid = own ∨ Registered t pid) →
    Ensures Harmless (Kernel.rotateTo t own rounds q) fun q' => (own :: q').Perm q := by
  induction rounds with
  | zero => exact fun _ _ => Ensures.fail rfl
  | succ rounds ih =>
    intro q hown hq
    cases q with
    | nil => exact absurd hown List.not_mem_nil
    | cons front rest =>
      unfold Kernel.rotateTo
      by_cases hfront : front = own
      · rw [if_pos hfront, hfront]
        exact Ensures.pure (List.Perm.refl (own :: rest))
      · rw [if_neg hfront]
        obtain ⟨p, hp⟩ := Option.isSome_iff_exists.mp
          ((hq front List.mem_cons_self).resolve_left hfront)
        refine Ensures.bind (Ensures.of_eq (TableInv.thread_eq hp) rfl) fun _ _ => ?_
        have hturn : (rest ++ [front]).Perm (front :: rest) := List.perm_append_singleton front rest
        refine (ih (hturn.mem_iff.mpr hown) fun pid hpid => hq pid (hturn.mem_iff.mp hpid)).mono
          fun q' hq' => ?_
        exact hq'.trans hturn

/-- `remove` of a process of the table erases its entry. -/
theorem remove_spec {p : ProcessDesc} (h : TableInv k.table)
    (hp : k.table.all_processes pid.toNat = some p) :
    Ensures ok (k.remove pid) fun k' => ∃ o,
      k' = { k with physPages := o, table := k.table.assign pid none } := by
  have hentry : k.table.entry pid = .ok (some p) := by
    unfold ProcessTable.entry
    rw [if_pos (h.lt_room hp), hp]
  refine Ensures.bind (Ensures.of_eq hentry rfl) fun o ho => ?_
  subst ho
  exact Ensures.pure ⟨_, rfl⟩

/-- A process stays when another one leaves. -/
theorem Registered.erase_ne {t : ProcessTable} {i own : Pid} (hr : Registered t i) (hne : i ≠ own) :
    Registered (t.assign own none) i := by
  have hnat : i.toNat ≠ own.toNat := fun heq => hne (BitVec.eq_of_toNat_eq heq)
  show ((t.assign own none).all_processes i.toNat).isSome = true
  rw [assign_ne t none hnat]
  exact hr

/-- A process with a parent is not the init process. -/
theorem Core.not_init (h : Core k) {p : ProcessDesc} {prevInfo : Pid}
    (hp : k.table.all_processes pid.toNat = some p)
    (hpar : p.mainThreadInfo.execParent = some prevInfo) : initPid ≠ pid := by
  rintro rfl
  obtain ⟨q, hq, hnone⟩ := h.init
  cases hp.symm.trans hq
  rw [hnone] at hpar
  exact absurd hpar (by simp)

/-- A thread that was in the queue once is out when one entry of it is taken. -/
theorem not_mem_of_count_one {own : Pid} {q l : List Pid} (hq : (own :: q).Perm l)
    (honce : l.count own = 1) : own ∉ q := by
  intro hmem
  have hc := hq.count_eq own
  rw [List.count_cons_self, honce] at hc
  have hpos := List.count_pos_iff.mpr hmem
  omega

/-- **A process ends.**  Its thread must be in the queue once, and its parent still there; then
    nothing refers to it any more, and the next switch goes elsewhere. -/
theorem Live.halt (h : Live k) {p : ProcessDesc} {prevInfo : Pid}
    (hp : k.table.all_processes k.current.toNat = some p)
    (hpar : p.mainThreadInfo.execParent = some prevInfo) (hprev : Registered k.table prevInfo)
    (honce : k.rrQueue.count k.current = 1) :
    Ensures Harmless (k.halt k.current prevInfo) fun k' => Core k' ∧ k'.isFallbackTerm = false ∧
      Registered k'.table k'.wantToSwitchTo ∧ k'.currentlyRunning ≠ k'.wantToSwitchTo := by
  have hinit : initPid ≠ k.current := h.toCore.not_init hp hpar
  have hparent : prevInfo ≠ k.current := by
    intro heq
    have holder := h.table.older _ p prevInfo hp hpar
    rw [heq] at holder
    exact absurd holder (Nat.lt_irrefl _)
  obtain ⟨prev, hprevp⟩ := Option.isSome_iff_exists.mp hprev
  refine Ensures.bind (Ensures.of_eq (TableInv.thread_eq hprevp) rfl) fun _ _ => ?_
  refine Ensures.bind (remove_spec h.table hp) ?_
  rintro k₁ ⟨o, rfl⟩
  have hmem : k.current ∈ k.rrQueue := List.count_pos_iff.mp (by omega)
  refine Ensures.bind (rotateTo_spec _ hmem fun pid hpid => ?_) fun q hq => ?_
  · by_cases heq : pid = k.current
    · exact Or.inl heq
    · exact Or.inr ((h.queue pid hpid).erase_ne heq)
  -- the one entry of the halting thread is out, and whoever is left is still in the table
  have hout : k.current ∉ q := not_mem_of_count_one hq honce
  have hqreg : ∀ pid ∈ q, Registered (k.table.assign k.current none) pid := fun pid hpid =>
    (h.queue pid (hq.mem_iff.mp (List.mem_cons_of_mem _ hpid))).erase_ne fun heq =>
      hout (heq ▸ hpid)
  -- the init thread has no parent, so it is not the one that halts
  have hinitq : initPid ∈ q :=
    (List.mem_cons.mp (hq.mem_iff.mpr h.initQueued)).resolve_left hinit
  refine Ensures.bind (setRunState_spec h.table.erase (hprev.erase_ne hparent) .Running) ?_
  rintro k₂ ⟨t', rfl, hinv, hext, -⟩
  refine (makeDecision_spec fun pid hpid => (hqreg pid hpid).extends hext).mono ?_
  rintro k' ⟨q', w, rfl, hperm, hw⟩
  have hwq : w ∈ q := by
    rcases hw with ⟨hnil, -⟩ | hin
    · exact absurd hinitq (by rw [show q = [] from hnil]; exact List.not_mem_nil)
    · exact hin
  have hwreg : Registered t' w := (hqreg w hwq).extends hext
  refine ⟨⟨hinv, fun pid hpid => (hqreg pid (hperm.mem_iff.mp hpid)).extends hext, Or.inr hwreg, ?_,
    hperm.mem_iff.mpr hinitq⟩, h.booted, hwreg, ?_⟩
  · obtain ⟨r, hr, hnone⟩ := h.init
    have hne : initPid.toNat ≠ k.current.toNat := fun heq => hinit (BitVec.eq_of_toNat_eq heq)
    obtain ⟨r', hr', hlink⟩ := hext _ r ((assign_ne k.table none hne).trans hr)
    exact ⟨r', hr', hlink.trans hnone⟩
  · show k.currentlyRunning ≠ w
    rcases h.running with hcur | hnone
    · rw [hcur]
      exact fun heq => hout (heq ▸ hwq)
    · rw [hnone]
      intro heq
      have hpos := hinv.not_negative hwreg
      rw [← heq] at hpos
      exact absurd hpos (by decide)

/-- What `newDetachedProcess` gives back. -/
structure Detached (k : Kernel) (parentPID : Pid) (r : Pid × Kernel) : Prop where
  pid : r.1 = k.table.nextNewProcess
  same : r.2 = { k with table := r.2.table }
  /-- The child is in the table with an empty map, and without a parent if none was asked for. -/
  child : ∃ c, r.2.table.all_processes r.1.toNat = some c ∧ c.pid = r.1 ∧
    c.memmap = Palloc.TinyMemMap.new ∧
    (parentPID.slt 0 = true → c.mainThreadInfo.execParent = none)
  parent : k.isFallbackTerm = true ∨ parentPID.toNat < MAX_NUM_PROCESS
  inv : TableInv r.2.table
  old : Extends k.table r.2.table
  counter : r.2.table.nextNewProcess = k.table.nextNewProcess + 1

/-- The terminal of a new process: its parent's, once the boot is over. -/
theorem initialTerm_spec {table : ProcessTable} (h : TableInv table)
    {parentPID : Pid}
    (hpar : (∀ f, Wrong f → ok f) ∨ k.isFallbackTerm = true ∨ Registered table parentPID) :
    Ensures ok (k.initialTerm table parentPID) fun _ => k.isFallbackTerm = true ∨
      parentPID.toNat < MAX_NUM_PROCESS := by
  unfold Kernel.initialTerm
  split
  · next hfb => exact Ensures.pure (Or.inl hfb)
  · next hfb =>
    have hfit := hpar.imp_right fun hp => hp.resolve_left hfb
    exact Ensures.bind (get_spec h hfit) fun p hp => Ensures.pure (Or.inr (h.lt_room hp))

/-- `newDetachedProcess` with a parent, or before the boot is over. -/
theorem newDetachedProcess_spec (h : TableInv k.table) {parentPID : Pid}
    (hfit : (∀ f, Wrong f → ok f) ∨ k.table.nextNewProcess.toNat < MAX_NUM_PROCESS ∧
      ((k.isFallbackTerm = true ∧ parentPID.slt 0 = true) ∨ Registered k.table parentPID))
    (processType : ProcessType) :
    Ensures ok (k.newDetachedProcess parentPID processType) (Detached k parentPID) := by
  refine Ensures.bind (newProcess_spec h
    (hfit.imp_right fun hf => ⟨hf.1, hf.2.imp_left And.right⟩) processType) ?_
  rintro ⟨pd, registered, table⟩ hnew
  have hterm := initialTerm_spec (k := k) hnew.inv (hfit.imp_right fun hf =>
    hf.2.imp And.left fun hreg => hreg.extends hnew.old)
  refine Ensures.bind hterm fun currTerm hcurr => ?_
  have hreg : registered = true := hnew.registered
  subst hreg
  have hpid : pd.pid = k.table.nextNewProcess := hnew.pid
  have hentry : table.all_processes pd.pid.toNat = some pd := by
    rw [hpid]
    exact hnew.entry
  obtain ⟨hinv, hext⟩ := hnew.inv.assign { pd with currTerm } hentry rfl rfl
  exact Ensures.pure ⟨hpid, rfl, ⟨_, assign_self table _ _, rfl, hnew.memmap, hnew.orphan⟩,
    hcurr, hinv, hnew.old.trans hext, hnew.counter⟩

end Scheduler

end TedkOS.Proc
