/-
  Fairness of the scheduler (proc/sched.cpp).

  `makeDecision` goes through the run queue from the front, takes the first thread that is running,
  and leaves it at the back, behind those it has passed.  Other threads block, wake and join in
  between.

  1. **Program** — `SchedStep`: a decision, a block, a wake, a thread that joins; `selects` is the
     thread a step selects.

  2. **Queue** — every step is one of the queue that takes turns, where the running threads may be
     served (`schedStep_step`).

  3. **Fairness** — `sched_fair`: between two selections of a thread, whoever was running in the
     queue all the time was selected.
-/
import TedkOS.Lib.RoundRobin
import TedkOS.Lib.Runs
import TedkOS.Proc.SchedSteps

namespace TedkOS.Proc

open Checked Palloc PhysPages Runs RoundRobin

inductive SchedStep where
  | makeDecision
  | block (pid : Pid)
  | unblock (pid : Pid)
  | attachThread (pid : Pid) (newState : ThreadState)

namespace Kernel

variable (k k' : Kernel)

def schedStep : SchedStep → Except Fault Kernel
  | .makeDecision => k.makeDecision
  | .block pid => k.block pid
  | .unblock pid => k.unblock pid
  | .attachThread pid newState => k.attachThread pid newState

/-- The thread a decision leaves in `wantToSwitchTo`, unless there is nobody in the queue. -/
def decided : List Pid := if k.rrQueue = [] then [] else [k'.wantToSwitchTo]

/-- The thread selected by the step from `k` to `k'`, if it makes a decision. -/
def selects : SchedStep → List Pid
  | .makeDecision => k.decided k'
  | .block _ => k.decided k'
  | .unblock _ => []
  | .attachThread _ _ => []

/-- Nobody joins the queue a second time. -/
def JoinsOnce : SchedStep → Prop
  | .attachThread pid _ => pid ∉ k.rrQueue
  | _ => True

/-- In the queue, and running. -/
def Ready (pid : Pid) : Prop := pid ∈ k.rrQueue ∧ RunsIn k.table pid

end Kernel

/-- The scheduler, from any queue without duplicates on. -/
def schedMachine : Machine Kernel SchedStep where
  init k := k.rrQueue.Nodup
  step k e k' := k.schedStep e = .ok k'

/-- A part of a run in which thread `R` is ready throughout, and the threads it selects. -/
inductive ReadyInterval (R : Pid) : Kernel → List Pid → Kernel → Prop
  | nil {k : Kernel} : k.Ready R → ReadyInterval R k [] k
  | step {k k' k'' : Kernel} {e : SchedStep} {sel : List Pid} : k.Ready R → k.JoinsOnce e →
      schedMachine.step k e k' → ReadyInterval R k' sel k'' →
      ReadyInterval R k (k.selects k' e ++ sel) k''

variable {k k' k'' : Kernel} {e : SchedStep} {R T : Pid} {sel : List Pid}

/-! ## A decision turns the queue

  The rounds of the loop move the front to the back, as those who are passed over do in the queue
  of the library. -/

/-- The loop moves the front to the back until somebody who runs is in front, and puts that one
    last. -/
theorem findRunning_turn {t : ProcessTable} (rounds : Nat) : ∀ q : List Pid,
    Ensures AnyFault (Kernel.findRunning t rounds q) fun r =>
    Turn (RunsIn t) q r.1 (r.2 ++ [r.1]) := by
  induction rounds with
  | zero => exact fun q => Ensures.fail anyFault
  | succ rounds ih =>
    intro q
    cases q with
    | nil => exact Ensures.fail anyFault
    | cons next rest =>
      refine Ensures.bind thread_done fun p hp => ?_
      split
      · next hrun => exact Ensures.pure (Turn.head ⟨p, hp, hrun⟩)
      · next hstopped =>
        have hnot : ¬ RunsIn t next := by
          rintro ⟨p', hp', hrun⟩
          rw [hp] at hp'
          exact hstopped (Option.some.inj hp' ▸ hrun)
        exact (ih (rest ++ [next])).mono fun r hr => hr.skip hnot

/-- **A decision** selects the first running thread, and turns the queue past it. -/
theorem makeDecision_turn : Ensures AnyFault k.makeDecision fun k' =>
    (k.rrQueue = [] ∧ k' = k) ∨ (k.rrQueue ≠ [] ∧ k'.table = k.table ∧
      Turn (RunsIn k.table) k.rrQueue k'.wantToSwitchTo k'.rrQueue) := by
  unfold Kernel.makeDecision
  by_cases hempty : k.rrQueue = []
  · rw [if_pos hempty]
    exact Ensures.pure (Or.inl ⟨hempty, rfl⟩)
  · rw [if_neg hempty]
    refine Ensures.bind (findRunning_turn _ _) ?_
    rintro ⟨next, rest⟩ hturn
    exact Ensures.pure (Or.inr ⟨hempty, rfl, hturn⟩)

/-- **A decision is a step of the round robin**, if nobody is in the queue twice. -/
theorem decided_step (hnodup : k.rrQueue.Nodup) : Ensures AnyFault k.makeDecision fun k' =>
    RoundRobin.Step (RunsIn k'.table) k.rrQueue (k.decided k') k'.rrQueue := by
  refine makeDecision_turn.mono ?_
  rintro k' (⟨hempty, rfl⟩ | ⟨hne, htable, hturn⟩)
  · rw [Kernel.decided, if_pos hempty, hempty]
    have hjoin : RoundRobin.Step (RunsIn k'.table) [] [] ([] ++ []) := .join List.nodup_nil
    exact hjoin
  · rw [Kernel.decided, if_neg hne, htable]
    exact .serve hturn

/-- **A step of the scheduler** is one of the queue. -/
theorem schedStep_step (hnodup : k.rrQueue.Nodup) (hjoins : k.JoinsOnce e)
    (h : schedMachine.step k e k') :
    RoundRobin.Step (RunsIn k'.table) k.rrQueue (k.selects k' e) k'.rrQueue := by
  cases e with
  | makeDecision => exact (decided_step hnodup).value h
  | block pid =>
    have hdone : Ensures AnyFault (k.block pid) fun k' =>
        RoundRobin.Step (RunsIn k'.table) k.rrQueue (k.decided k') k'.rrQueue := by
      refine Ensures.bind (setRunState_done .Waiting) ?_
      rintro k₁ ⟨p, -, rfl⟩
      exact decided_step hnodup
    exact hdone.value h
  | unblock pid =>
    have hdone : Ensures AnyFault (k.unblock pid) fun k' => k'.rrQueue = k.rrQueue := by
      refine (setRunState_done .Running).mono ?_
      rintro k' ⟨p, -, rfl⟩
      rfl
    rw [hdone.value h]
    have hjoin : RoundRobin.Step (RunsIn k'.table) k.rrQueue [] (k.rrQueue ++ []) :=
      .join (by rwa [List.append_nil])
    rwa [List.append_nil] at hjoin
  | attachThread pid newState =>
    have hdone : Ensures AnyFault (k.attachThread pid newState) fun k' =>
        k'.rrQueue = k.rrQueue ++ [pid] := by
      refine (attachThread_done newState).mono ?_
      rintro k' ⟨p, -, rfl⟩
      rfl
    rw [hdone.value h]
    refine .join (hnodup.append (List.nodup_singleton pid) ?_)
    exact List.disjoint_singleton.mpr hjoins

theorem nodup_of_reach (hr : Reach schedMachine Kernel.JoinsOnce k) : k.rrQueue.Nodup :=
  hr.invariant (I := fun k => k.rrQueue.Nodup) (fun _ h => h)
    fun _ _ _ hnodup hjoins hs => (schedStep_step hnodup hjoins hs).nodup hnodup

/-! ## Fairness

  The general result is about the position in a queue: who waits in it is served before anybody
  behind it is served twice. -/

theorem ReadyInterval.ready (h : ReadyInterval R k sel k') : k.Ready R := by
  cases h with
  | nil hready => exact hready
  | step hready _ _ _ => exact hready

/-- The queue of a part of a run. -/
theorem ReadyInterval.interval (h : ReadyInterval R k sel k') (hnodup : k.rrQueue.Nodup) :
    Interval R k.rrQueue sel k'.rrQueue := by
  induction h with
  | nil _ => exact .nil _
  | step _ hjoins hs hrest ih =>
    have hstep := schedStep_step hnodup hjoins hs
    exact .step hrest.ready.2 hstep (ih (hstep.nodup hnodup))

/-- Who was selected is behind everybody else. -/
theorem selected_last (hnodup : k.rrQueue.Nodup) (hjoins : k.JoinsOnce e)
    (hs : schedMachine.step k e k') (hsel : k.selects k' e = [T]) (hR : R ∈ k'.rrQueue)
    (hne : R ≠ T) : Before k'.rrQueue R T := by
  have hstep := schedStep_step hnodup hjoins hs
  rw [hsel] at hstep
  cases hstep with
  | serve hturn => exact hturn.behind hR hne

/-- A decision selects the first running thread and rotates the queue; and it comes to its end if
    there is one. -/
def DecidesInOrder (k : Kernel) : Prop :=
  (∀ k', k.makeDecision = .ok k' → k'.rrQueue.IsRotated k.rrQueue ∧
    (k.rrQueue ≠ [] → Turn (RunsIn k.table) k.rrQueue k'.wantToSwitchTo k'.rrQueue)) ∧
  ((∀ pid ∈ k.rrQueue, Registered k.table pid) → (∃ pid, k.Ready pid) →
    ∃ k', k.makeDecision = .ok k')

theorem decidesInOrder (k : Kernel) : DecidesInOrder k := by
  refine ⟨fun k' hk => ?_, ?_⟩
  · rcases makeDecision_turn.value hk with ⟨hempty, rfl⟩ | ⟨-, -, hturn⟩
    · exact ⟨List.IsRotated.refl _, fun hne => absurd hempty hne⟩
    · exact ⟨hturn.isRotated, fun _ => hturn⟩
  · rintro hreg ⟨pid, hin, hrun⟩
    cases hk : k.makeDecision with
    | ok k' => exact ⟨k', rfl⟩
    | error f =>
      exact False.elim ((makeDecision_ends hreg hin hrun).error hk)

/-- **Fairness.**  From a queue without duplicates on, whoever is ready from one selection of a
    thread to the next is selected in between; and every decision is made in the order of the
    queue. -/
theorem sched_fair (hr : Reach schedMachine Kernel.JoinsOnce k) :
    (∀ e k' T R sel k'', k.JoinsOnce e → schedMachine.step k e k' → k.selects k' e = [T] →
      ReadyInterval R k' (sel ++ [T]) k'' → R = T ∨ R ∈ sel) ∧ ∀ k₁, DecidesInOrder k₁ := by
  refine ⟨fun e k' T R sel k'' hjoins hs hsel hinterval => ?_, decidesInOrder⟩
  have hnodup := nodup_of_reach hr
  have hnodup' := (schedStep_step hnodup hjoins hs).nodup hnodup
  by_cases hne : R = T
  · exact Or.inl hne
  · have hbefore := selected_last hnodup hjoins hs hsel hinterval.ready.1 hne
    exact Or.inr ((hinterval.interval hnodup').served_between hnodup' hbefore)

/-- Threads 1 and 2 are running. -/
def twoRunning (rrQueue : List Pid) (wantToSwitchTo : BitVec 32) : Kernel where
  table := ⟨3, fun i => if i = 1 then some ((ProcessDesc.new 1 .USER_PROCESS).inState .Running)
    else if i = 2 then some ((ProcessDesc.new 2 .USER_PROCESS).inState .Running) else none⟩
  rrQueue
  wantToSwitchTo
  currentlyRunning := -1
  isFallbackTerm := false
  current := 1
  physPages := PhysPageManager.blank _
  cpu0_memmap := .construct fun _ => 0

/-- Thread 1 is selected, then thread 2, and thread 1 again. -/
theorem sched_fair_twoRunning :
    ∃ k sel k', schedMachine.step (twoRunning [1, 2] (-1)) .makeDecision k ∧
    ReadyInterval 2 k (sel ++ [1]) k' ∧ (2 : Pid) ∈ sel := by
  have hready : ∀ q w, (2 : Pid) ∈ q → (twoRunning q w).Ready 2 := fun q w hq => ⟨hq, _, rfl, rfl⟩
  have hfirst : ∀ w, schedMachine.step (twoRunning [1, 2] w) .makeDecision (twoRunning [2, 1] 1) :=
    fun _ => rfl
  have hsecond : ∀ w, schedMachine.step (twoRunning [2, 1] w) .makeDecision (twoRunning [1, 2] 2) :=
    fun _ => rfl
  have hinterval : ReadyInterval 2 (twoRunning [2, 1] 1) ([2] ++ [1]) (twoRunning [2, 1] 1) := by
    refine .step (e := .makeDecision) (hready _ _ (by decide)) trivial (hsecond 1) ?_
    refine .step (e := .makeDecision) (hready _ _ (by decide)) trivial (hfirst 2) ?_
    exact .nil (hready _ _ (by decide))
  have hnodup : (twoRunning [1, 2] (-1)).rrQueue.Nodup := by decide
  refine ⟨_, _, _, hfirst (-1), hinterval, ?_⟩
  exact ((sched_fair (.init hnodup)).1 .makeDecision _ 1 2 [2] _ trivial (hfirst (-1)) rfl
    hinterval).resolve_left (by decide)

end TedkOS.Proc
