/-
  Lost completions of disk transfers.

  Two records have to agree here: what the THREADS say (who is blocked, and by
  which request) and what the BUSES say (whose callback waits for the next interrupt).  While they
  agree, an interrupt wakes who waits for its bus and nobody else; the invariant `Settled` is that
  agreement, in both directions:

  * from the thread to the bus (`noLost`): a blocked thread is the one of the callback of its bus,
    and the descriptor there is still its own, so that its next interrupt completes it;
  * from the bus to the thread (`held`, `callbacks`): a bus that is waited for has a callback, and
    its thread is blocked by that very request, so that the interrupt wakes nobody by mistake;
  * `waits` keeps a blocked thread off the processor: a running thread has no request pending, and
    can make one.

  1. **A request** on a free bus keeps that: it fills an empty place (`Settled.start`).

  2. **An interrupt** keeps it: it empties the place of its bus, and leaves the other bus and the
     threads that wait for it alone (`Settled.callback`, `Settled.busInterrupt`).

  3. **A request on a bus that is waited for** takes the place of the callback and of the
     descriptor.  Then the requests issued are no longer those completed and those in the places,
     and `noLostCompletion_iff` says that this is the ONE way to lose a completion.
-/
import TedkOS.Drivers.Dma

namespace TedkOS.Drivers.Ata

open Runs Proc Fs

namespace Dma

variable {s s' : Dma} {w : Bool} {pid : Pid} {dev : ata_device}
    {lba buf nbytes file dma_buffer : BitVec 32}
  {bus : Fin 2} {r : Request}

/-! ## The invariant -/

/-- Callbacks and blocked threads belong together: the states in which every request that waits is
    going to be completed, by the interrupt of its own bus. -/
structure Settled (s : Dma) : Prop where
  noLost : s.NoLostCompletion
  /-- The request in the place of a bus is one for that bus, and blocks the thread it names. -/
  held : ∀ bus r, s.slots.slot bus = some r →
    r.busId = bus ∧ (s.threads r.thisThread).blockedBy = some r
  /-- The flag of a bus and its callback are two variables in the source: the handler calls the
      callback because of the flag. -/
  callbacks : ∀ bus, s.dma_waiting_read bus = true → ∃ r, s.dma_finish_read bus = some r
  /-- A blocked thread does not run, so it cannot make another request. -/
  waits : ∀ pid r, (s.threads pid).blockedBy = some r → (s.threads pid).runState = .Waiting

/-- The place of a bus that is waited for has its callback in it. -/
theorem slot_waiting (h : s.dma_waiting_read bus = true) :
    s.slots.slot bus = s.dma_finish_read bus := if_pos h

/-- The place of a bus that nobody waits for is empty, whatever callback was left behind. -/
theorem slot_free (h : s.dma_waiting_read bus = false) : s.slots.slot bus = none :=
  if_neg (by rw [h]; exact Bool.false_ne_true)

/-- So a place is empty exactly if its bus is free. -/
theorem Settled.slot_none_iff (h : s.Settled) :
    s.slots.slot bus = none ↔ s.dma_waiting_read bus = false := by
  constructor
  · intro hslot
    by_contra hw
    rw [Bool.not_eq_false] at hw
    obtain ⟨r, hr⟩ := h.callbacks bus hw
    rw [slot_waiting hw, hr] at hslot
    cases hslot
  · exact slot_free

/-- There are two buses. -/
theorem bus_cases (bus : Fin 2) : bus = bus0 ∨ bus = bus1 := by
  revert bus
  decide

theorem mem_buses (bus : Fin 2) : bus ∈ buses := by
  revert bus
  decide

theorem buses_nodup : buses.Nodup := by decide

/-- At the boot nobody is blocked, and both places are empty. -/
theorem Booted.settled (h : s.Booted) : s.Settled := by
  obtain ⟨hwaiting, hthreads, hlog⟩ := h
  have hblocked : ∀ pid r, (s.threads pid).blockedBy ≠ some r := fun pid r hr => by
    rw [hthreads] at hr
    cases hr
  constructor
  case noLost =>
    refine ⟨fun pid r hr => absurd hr (hblocked pid r), ?_⟩
    refine Slots.Accounted.nil (fun bus => slot_free (hwaiting bus)) ?_ ?_
    · show s.log.filterMap _ = []
      rw [hlog]
      rfl
    · show s.log.filterMap _ = []
      rw [hlog]
      rfl
  case held =>
    intro bus r hr
    rw [slot_free (hwaiting bus)] at hr
    cases hr
  case callbacks =>
    intro bus hw
    rw [hwaiting] at hw
    cases hw
  case waits => exact fun pid r hr => absurd hr (hblocked pid r)

/-- What changes no callback and blocks and wakes nobody who waits for a disk. -/
theorem Settled.congr (h : s.Settled) (hprd : s'.prd = s.prd)
    (hwaiting : s'.dma_waiting_read = s.dma_waiting_read)
    (hfinish : s'.dma_finish_read = s.dma_finish_read) (hlog : s'.log = s.log)
    (hblocked : ∀ pid, (s'.threads pid).blockedBy = (s.threads pid).blockedBy)
    (hstate : ∀ pid, (s.threads pid).blockedBy = none ∨
      (s'.threads pid).runState = (s.threads pid).runState) :
    s'.Settled := by
  have hslots : s'.slots = s.slots := by rw [slots, slots, hwaiting, hfinish, hlog]
  constructor
  case noLost =>
    refine ⟨fun pid r hr => ?_, ?_⟩
    · rw [hwaiting, hfinish, hprd]
      exact h.noLost.captured pid r ((hblocked pid).symm.trans hr)
    · rw [hslots]
      exact h.noLost.accounted
  case held =>
    intro bus r hr
    rw [hslots] at hr
    rw [hblocked]
    exact h.held bus r hr
  case callbacks =>
    intro bus hw
    rw [hwaiting] at hw
    rw [hfinish]
    exact h.callbacks bus hw
  case waits =>
    intro pid r hr
    rw [hblocked] at hr
    rcases hstate pid with hnone | hsame
    · rw [hnone] at hr
      cases hr
    · exact hsame.trans (h.waits pid r hr)

/-- A call that comes back with a result concerns no disk. -/
theorem Settled.ret (h : s.Settled) (pid : Pid) (eax : BitVec 32) : (s.ret pid eax).Settled := by
  have hthread : ∀ p, ((s.ret pid eax).threads p).blockedBy = (s.threads p).blockedBy ∧
      ((s.ret pid eax).threads p).runState = (s.threads p).runState := by
    intro p
    show (Function.update s.threads pid _ p).blockedBy = _ ∧
      (Function.update s.threads pid _ p).runState = _
    by_cases hp : p = pid
    · rw [hp, Function.update_self]
      exact ⟨rfl, rfl⟩
    · rw [Function.update_of_ne hp]
      exact ⟨rfl, rfl⟩
  exact h.congr rfl rfl rfl rfl (fun p => (hthread p).1) fun p => .inr (hthread p).2

/-! ## A request

  A request blocks the thread that makes it and puts its callback and its descriptor in the place
  of the bus.  If the place was empty nobody is concerned but the two; if not, the callback that
  was there is gone (`request_iff`). -/

/-- **A request on a free bus** is captured by its callback. -/
theorem Settled.start (h : s.Settled) (hfree : s.dma_waiting_read bus = false)
    (hnone : (s.threads pid).blockedBy = none) :
    (s.start w pid dev lba buf nbytes file dma_buffer bus).Settled := by
  generalize hs' : s.start w pid dev lba buf nbytes file dma_buffer bus = s'
  generalize hr : (⟨w, dev, bus, pid, buf, dma_buffer, nbytes, file⟩ : Request) = r
  have hbus : r.busId = bus := by rw [← hr]
  have hslots : s'.slots = s.slots.issue bus r := by rw [← hs', ← hr]; exact start_slots
  have hwaiting : s'.dma_waiting_read = Function.update s.dma_waiting_read bus true := by
    rw [← hs']; rfl
  have hfinish : s'.dma_finish_read = Function.update s.dma_finish_read bus (some r) := by
    rw [← hs', ← hr]; rfl
  have hprd : s'.prd = Function.update s.prd bus ⟨r.dma_buffer, r.nbytes.setWidth 16⟩ := by
    rw [← hs', ← hr]
    rfl
  have hthreads : s'.threads = Function.update s.threads pid
      { s.threads pid with runState := .Waiting, blockedBy := some r } := by
    rw [← hs', ← hr]
    rfl
  have hthis : r.thisThread = pid := by rw [← hr]
  -- whoever else is blocked waits for the other bus
  have hother : ∀ q r', (s.threads q).blockedBy = some r' → r'.busId ≠ bus := by
    intro q r' hq heq
    have hw := (h.noLost.captured q r' hq).2.1
    rw [heq, hfree] at hw
    cases hw
  constructor
  case noLost =>
    refine ⟨fun q r' hq => ?_, ?_⟩
    · rw [hthreads] at hq
      rw [hwaiting, hfinish, hprd]
      -- the new request is in the place of its bus; the others are on the other bus
      by_cases hqpid : q = pid
      · rw [hqpid, Function.update_self] at hq
        cases hq
        rw [hbus, Function.update_self, Function.update_self, Function.update_self, hqpid]
        exact ⟨hthis, rfl, rfl, rfl⟩
      · rw [Function.update_of_ne hqpid] at hq
        have hne := hother q r' hq
        rw [Function.update_of_ne hne, Function.update_of_ne hne, Function.update_of_ne hne]
        exact h.noLost.captured q r' hq
    · -- a request issued into an empty place displaces none
      rw [hslots]
      exact (h.noLost.accounted.issue_iff buses_nodup (mem_buses bus)).mpr (slot_free hfree)
  case held =>
    intro b r' hb
    rw [hslots] at hb
    replace hb : Function.update s.slots.slot bus (some r) b = some r' := hb
    rw [hthreads]
    by_cases hbbus : b = bus
    · rw [hbbus, Function.update_self] at hb
      cases hb
      rw [hthis, Function.update_self, hbbus]
      exact ⟨hbus, rfl⟩
    · rw [Function.update_of_ne hbbus] at hb
      obtain ⟨hb', hblocked⟩ := h.held b r' hb
      -- the other bus is not waited for by the same thread, which had no request pending
      have hne : r'.thisThread ≠ pid := fun heq => by
        rw [heq, hnone] at hblocked
        cases hblocked
      rw [Function.update_of_ne hne]
      exact ⟨hb', hblocked⟩
  case callbacks =>
    intro b hw
    rw [hwaiting] at hw
    rw [hfinish]
    by_cases hbbus : b = bus
    · exact ⟨r, by rw [hbbus, Function.update_self]⟩
    · rw [Function.update_of_ne hbbus] at hw ⊢
      exact h.callbacks b hw
  case waits =>
    intro q r' hq
    rw [hthreads] at hq ⊢
    by_cases hqpid : q = pid
    · rw [hqpid, Function.update_self]
    · rw [Function.update_of_ne hqpid] at hq ⊢
      exact h.waits q r' hq

/-- What the two kinds of request do, once `FOps` was asked. -/
theorem request_cases (hs : (if tooMuch nbytes then some (s.ret pid (-EFOPS))
      else s.dma_begin_sector w pid dev lba buf nbytes file dma_buffer) = some s') :
    (¬ s.Accepts nbytes ∧ s' = s.ret pid (-EFOPS)) ∨
    (s.Accepts nbytes ∧ ∃ bus, dev.busId = some bus ∧
      s' = s.start w pid dev lba buf nbytes file dma_buffer bus) := by
  split at hs
  · next hmuch =>
    refine .inl ⟨fun hacc => ?_, (Option.some.inj hs).symm⟩
    rw [hacc.1] at hmuch
    cases hmuch
  · next hmuch =>
    rw [dma_begin_sector] at hs
    split at hs
    · next hinit =>
      refine .inl ⟨fun hacc => ?_, (Option.some.inj hs).symm⟩
      rw [hacc.2.1] at hinit
      cases hinit
    · next hinit =>
      split at hs
      · next hsector => exact .inl ⟨fun hacc => hsector hacc.2.2, (Option.some.inj hs).symm⟩
      · next hsector =>
        obtain ⟨bus, hbus, hstart⟩ := Option.map_eq_some_iff.mp hs
        refine .inr ⟨⟨Bool.eq_false_of_not_eq_true hmuch, ?_, not_not.mp hsector⟩, bus, hbus,
          hstart.symm⟩
        rw [Bool.not_eq_true, Bool.not_eq_false'] at hinit
        exact hinit

/-- **When a request loses a completion**: it gets to the disk, and somebody waits for its bus. -/
theorem Settled.request_iff (h : s.Settled) (hnone : (s.threads pid).blockedBy = none)
    (hs : (if tooMuch nbytes then some (s.ret pid (-EFOPS))
      else s.dma_begin_sector w pid (s.fops file).WhichDev lba buf nbytes file dma_buffer) =
        some s') :
    (s'.NoLostCompletion ↔ (s.Accepts nbytes → s.Free file)) ∧
    ((s.Accepts nbytes → s.Free file) → s'.Settled) := by
  rcases request_cases hs with ⟨hacc, rfl⟩ | ⟨hacc, bus, hbus, rfl⟩
  · have hret := h.ret pid (-EFOPS)
    exact ⟨iff_of_true hret.noLost fun hacc' => absurd hacc' hacc, fun _ => hret⟩
  · have hsettled : (s.Accepts nbytes → s.Free file) →
        (s.start w pid (s.fops file).WhichDev lba buf nbytes file dma_buffer bus).Settled :=
      fun hfree => h.start (hfree hacc bus hbus) hnone
    refine ⟨⟨fun hlost _ b hb => ?_, fun hfree => (hsettled hfree).noLost⟩, hsettled⟩
    -- the requests still add up after the start, so its place was empty before
    have hacc' := hlost.accounted
    rw [start_slots, h.noLost.accounted.issue_iff buses_nodup (mem_buses bus), h.slot_none_iff]
      at hacc'
    rw [hbus] at hb
    cases hb
    exact hacc'

/-! ## An interrupt

  An interrupt looks at both buses, one after the other.  A callback unblocks its thread and
  empties the place, and what it does to the other bus is nothing (`callback_slots`), so the two
  can be taken one by one. -/

/-- **A callback** leaves the others in place. -/
theorem Settled.callback (h : s.Settled) (hslot : s.slots.slot bus = some r) (failed : Bool) :
    (s.callback r failed).Settled := by
  obtain ⟨rfl, hblocked⟩ := h.held bus r hslot
  obtain ⟨hprd, hfinish, hwaiting⟩ := @callback_bus s r failed
  have hthreads := @callback_threads s r failed
  have hslots : (s.callback r failed).slots = s.slots.complete r.busId := callback_slots hslot
  -- whoever is still blocked waits for the other bus
  have hother : ∀ q r', ((s.callback r failed).threads q).blockedBy = some r' →
      (s.callback r failed).threads q = s.threads q ∧ r'.busId ≠ r.busId := by
    intro q r' hq
    rw [hthreads] at hq ⊢
    by_cases hqr : q = r.thisThread
    · rw [hqr, Function.update_self] at hq
      cases hq
    · rw [Function.update_of_ne hqr] at hq ⊢
      refine ⟨rfl, fun heq => hqr ?_⟩
      obtain ⟨hthis, hw, hf, -⟩ := h.noLost.captured q r' hq
      rw [heq] at hw hf
      rw [slot_waiting hw, hf] at hslot
      rw [← hthis, Option.some.inj hslot]
  constructor
  case noLost =>
    refine ⟨fun q r' hq => ?_, ?_⟩
    · obtain ⟨hsame, hne⟩ := hother q r' hq
      rw [hsame] at hq
      rw [hwaiting, hfinish, hprd, Function.update_of_ne hne]
      exact h.noLost.captured q r' hq
    · rw [hslots]
      exact h.noLost.accounted.complete buses_nodup (mem_buses _)
  case held =>
    intro b r' hb
    rw [hslots] at hb
    replace hb : Function.update s.slots.slot r.busId none b = some r' := hb
    by_cases hbr : b = r.busId
    · rw [hbr, Function.update_self] at hb
      cases hb
    · rw [Function.update_of_ne hbr] at hb
      obtain ⟨hb', hblocked'⟩ := h.held b r' hb
      have hne : r'.thisThread ≠ r.thisThread := fun heq => by
        rw [heq, hblocked] at hblocked'
        cases hblocked'
        exact hbr hb'.symm
      rw [hthreads, Function.update_of_ne hne]
      exact ⟨hb', hblocked'⟩
  case callbacks =>
    intro b hw
    rw [hfinish]
    rw [hwaiting] at hw
    by_cases hbr : b = r.busId
    · rw [hbr, Function.update_self] at hw
      cases hw
    · rw [Function.update_of_ne hbr] at hw
      exact h.callbacks b hw
  case waits =>
    intro q r' hq
    obtain ⟨hsame, -⟩ := hother q r' hq
    rw [hsame] at hq ⊢
    exact h.waits q r' hq

/-- What an interrupt of one bus is to a thread. -/
def Requester.after (t : Requester) (bus : Fin 2) (status : BitVec 8) (failed : Bool) : Requester :=
  match t.blockedBy with
  | some r => if r.busId = bus ∧ status &&& 0x04 ≠ 0 then
      ⟨.Running, if failed then -EFOPS else r.nbytes, none⟩ else t
  | none => t

theorem after_blocked {t : Requester} (h : t.blockedBy = some r) (status : BitVec 8)
    (failed : Bool) :
    Requester.after t bus status failed = if r.busId = bus ∧ status &&& 0x04 ≠ 0 then
      ⟨.Running, if failed then -EFOPS else r.nbytes, none⟩ else t := by
  rw [Requester.after, h]

/-- **An interrupt of a bus** completes the request on it, and no other. -/
theorem Settled.busInterrupt (h : s.Settled) (bus : Fin 2) (status : BitVec 8) (failed : Bool) :
    ∃ s', s.busInterrupt bus status failed = some s' ∧ s'.Settled ∧
      ∀ pid, s'.threads pid = Requester.after (s.threads pid) bus status failed := by
  -- nobody waits for the bus, or it is not the one that interrupts
  have hquiet :
      (∀ pid r, (s.threads pid).blockedBy = some r → ¬ (r.busId = bus ∧ status &&& 0x04 ≠ 0)) →
      ∀ pid, s.threads pid = Requester.after (s.threads pid) bus status failed := by
    intro hno pid
    rw [Requester.after]
    split
    · next r hr => rw [if_neg (hno pid r hr)]
    · rfl
  rw [Dma.busInterrupt]
  split
  · next hstatus =>
    split
    · next hw =>
      obtain ⟨r, hr⟩ := h.callbacks bus hw
      have hslot : s.slots.slot bus = some r := (slot_waiting hw).trans hr
      obtain ⟨hbus, hblocked⟩ := h.held bus r hslot
      refine ⟨s.callback r failed, ?_, h.callback hslot failed, fun pid => ?_⟩
      · rw [hr, Option.map_some]
      rw [callback_threads]
      by_cases hpid : pid = r.thisThread
      · rw [hpid, Function.update_self, Requester.after, hblocked]
        exact (if_pos ⟨hbus, hstatus⟩).symm
      · rw [Function.update_of_ne hpid, Requester.after]
        split
        · next r' hr' =>
          rw [if_neg]
          -- who is blocked by a request for this bus is the thread of its callback
          rintro ⟨hbus', -⟩
          obtain ⟨hthis, -, hf, -⟩ := h.noLost.captured pid r' hr'
          rw [hbus', hr] at hf
          exact hpid (hthis.symm.trans (congrArg Request.thisThread (Option.some.inj hf).symm))
        · rfl
    · next hw =>
      refine ⟨s, rfl, h, hquiet fun pid r hr hbus => hw ?_⟩
      rw [← hbus.1]
      exact (h.noLost.captured pid r hr).2.1
  · next hstatus => exact ⟨s, rfl, h, hquiet fun pid r hr hbus => hstatus hbus.2⟩

/-- **The handler** serves both buses. -/
theorem Settled.interrupt (h : s.Settled) (status : Fin 2 → BitVec 8) (failed : Fin 2 → Bool) :
    ∃ s', s.dma_int_handler status failed = some s' ∧ s'.Settled ∧ ∀ pid, s'.threads pid =
      Requester.after (Requester.after (s.threads pid) bus0 (status bus0) (failed bus0)) bus1
        (status bus1) (failed bus1) := by
  obtain ⟨s₁, hs₁, h₁, hthreads₁⟩ := h.busInterrupt bus0 (status bus0) (failed bus0)
  obtain ⟨s₂, hs₂, h₂, hthreads₂⟩ := h₁.busInterrupt bus1 (status bus1) (failed bus1)
  refine ⟨s₂, ?_, h₂, fun pid => by rw [hthreads₂, hthreads₁]⟩
  rw [dma_int_handler, hs₁]
  exact hs₂

/-- **Who is blocked is completed** by the next interrupt of its bus, whatever the other bus does
    in the same interrupt. -/
theorem Settled.completedByInterrupt (h : s.Settled) (hr : (s.threads pid).blockedBy = some r) :
    s.CompletedByInterrupt pid r := by
  intro status failed
  obtain ⟨s', hs, -, hthreads⟩ := h.interrupt status failed
  refine ⟨s', hs, ?_⟩
  rw [hthreads]
  -- the handler serves bus 0 first; what it does to the other bus leaves this thread blocked
  obtain hbus | hbus : r.busId = bus0 ∨ r.busId = bus1 := bus_cases r.busId
  · rw [after_blocked hr, hbus]
    by_cases hstatus : status bus0 &&& 0x04 ≠ 0
    · rw [if_pos ⟨rfl, hstatus⟩, if_pos hstatus]
      rfl
    · rw [if_neg fun hbus' => hstatus hbus'.2, if_neg hstatus, after_blocked hr, hbus]
      exact if_neg fun hbus' => absurd hbus'.1 (by decide)
  · rw [after_blocked (t := s.threads pid) hr, hbus, if_neg fun hbus' => absurd hbus'.1 (by decide),
      after_blocked hr, hbus]
    by_cases hstatus : status bus1 &&& 0x04 ≠ 0
    · rw [if_pos hstatus, if_pos ⟨rfl, hstatus⟩]
    · rw [if_neg hstatus, if_neg fun hbus' => hstatus hbus'.2]

/-! ## Runs -/

/-- A thread that runs has no request pending. -/
theorem Settled.blockedBy_none (h : s.Settled) (hrun : (s.threads pid).runState = .Running) :
    (s.threads pid).blockedBy = none := by
  cases hb : (s.threads pid).blockedBy with
  | none => rfl
  | some r =>
    have hwait := h.waits pid r hb
    rw [hrun] at hwait
    cases hwait

/-- **One step** loses no completion exactly if it is considerate, and then leaves everything
    settled. -/
theorem Settled.step_iff (h : s.Settled) {e : Step} (hpossible : s.Possible e)
    (hs : s.step e = some s') :
    (s'.NoLostCompletion ↔ s.Considerate e) ∧ (s.Considerate e → s'.Settled) := by
  have hsettled : s'.Settled → (s'.NoLostCompletion ↔ True) ∧ (True → s'.Settled) :=
    fun h' => ⟨iff_of_true h'.noLost trivial, fun _ => h'⟩
  cases e with
  | read pid file buf bytes dma_buffer => exact h.request_iff (h.blockedBy_none hpossible) hs
  | write pid file buf bytes dma_buffer => exact h.request_iff (h.blockedBy_none hpossible) hs
  | seek file newOffset =>
    cases hs
    exact hsettled (h.congr rfl rfl rfl rfl (fun _ => rfl) fun _ => .inr rfl)
  | interrupt status failed =>
    obtain ⟨t, ht, hset, -⟩ := h.interrupt status failed
    cases hs.symm.trans ht
    exact hsettled hset
  | sched pid runState =>
    cases hs
    -- the scheduler changes run states of threads that no disk blocks
    refine hsettled (h.congr rfl rfl rfl rfl (fun p => ?_) fun p => ?_)
    · show (Function.update s.threads pid _ p).blockedBy = _
      by_cases hp : p = pid
      · rw [hp, Function.update_self]
      · rw [Function.update_of_ne hp]
    · show _ ∨ (Function.update s.threads pid _ p).runState = _
      by_cases hp : p = pid
      · exact .inl (by rw [hp]; exact hpossible)
      · exact .inr (by rw [Function.update_of_ne hp])

/-- Every possible step can be taken. -/
theorem Settled.step_ends (h : s.Settled) (e : Step) : ∃ s', s.step e = some s' := by
  have hrequest :
      ∀ (w : Bool) (pid : Pid) (dev : ata_device) (lba buf nbytes file dma_buffer : BitVec 32),
      ∃ s', (if tooMuch nbytes then some (s.ret pid (-EFOPS))
        else s.dma_begin_sector w pid dev lba buf nbytes file dma_buffer) = some s' := by
    intro w pid dev lba buf nbytes file dma_buffer
    obtain ⟨bus, hbus⟩ := busId_eq dev
    rw [dma_begin_sector, hbus, Option.map_some]
    split_ifs <;> exact ⟨_, rfl⟩
  cases e with
  | read pid file buf bytes dma_buffer => exact hrequest ..
  | write pid file buf bytes dma_buffer => exact hrequest ..
  | seek file newOffset => exact ⟨_, rfl⟩
  | interrupt status failed =>
    obtain ⟨s', hs, -⟩ := h.interrupt status failed
    exact ⟨s', hs⟩
  | sched pid runState => exact ⟨_, rfl⟩

/-- **The run lemma**: the invariant holds in every considerate run. -/
theorem settled_of_reach (hr : Reach dmaMachine (fun s e => s.Possible e ∧ s.Considerate e) s) :
    s.Settled :=
  hr.invariant (I := Settled) (fun _ h => Booted.settled h)
    fun _ _ _ h hok hs => (Settled.step_iff h hok.1 hs).2 hok.2

/-- **When a completion is lost.**  In a run whose steps are all considerate, whoever is blocked is
    captured by the callback of its bus and woken by the next interrupt of that bus, and every block
    was or will be met by one unblock; a further step can be taken, and keeps that exactly if it is
    considerate. -/
theorem noLostCompletion_iff (hr : Reach dmaMachine (fun s e => s.Possible e ∧ s.Considerate e) s) :
    s.NoLostCompletion ∧
    (∀ pid r, (s.threads pid).blockedBy = some r → s.CompletedByInterrupt pid r) ∧
    ∀ e, s.Possible e → ∃ s', s.step e = some s' ∧ (s'.NoLostCompletion ↔ s.Considerate e) := by
  have h := settled_of_reach hr
  refine ⟨h.noLost, fun pid r hb => h.completedByInterrupt hb, fun e hpossible => ?_⟩
  obtain ⟨s', hs⟩ := h.step_ends e
  exact ⟨s', hs, (h.step_iff hpossible hs).1⟩

/-- Everybody runs, and the file at 0x1000 is the first disk, that at 0x2000 the second on the same
    bus. -/
def idle : Dma where
  dma_init := true
  prd _ := ⟨0, 0⟩
  dma_waiting_read _ := false
  dma_finish_read _ := none
  fops file := ⟨if file = 0x1000 then .primary_master else .primary_slave, 0⟩
  threads _ := ⟨.Running, 0, none⟩
  log := []

theorem idle_booted : idle.Booted := ⟨fun _ => rfl, fun _ => rfl, rfl⟩

/-- What process 3 asked for. -/
def request3 : Request := ⟨false, .primary_master, bus0, 3, 0x8000000, 0x500000, 512, 0x1000⟩

/-- Process 3 reads a sector, and is woken by the interrupt. -/
theorem noLostCompletion_iff_read : ∃ s, idle.read 3 0x1000 0x8000000 512 0x500000 = some s ∧
    s.CompletedByInterrupt 3 request3 := by
  have h₀ : Reach dmaMachine (fun s e => s.Possible e ∧ s.Considerate e) idle := .init idle_booted
  have hfree : idle.Possible (.read 3 0x1000 0x8000000 512 0x500000) ∧
      idle.Considerate (.read 3 0x1000 0x8000000 512 0x500000) := ⟨rfl, fun _ _ _ => rfl⟩
  have h₁ := h₀.step hfree rfl
  exact ⟨_, rfl, (noLostCompletion_iff h₁).2.1 3 request3 rfl⟩

/-- Process 4 reads from the other disk of the bus before the interrupt. -/
theorem completion_lost : ∃ s, Reach dmaMachine Possible s ∧ ¬ s.NoLostCompletion := by
  have h₀ : Reach dmaMachine Possible idle := .init idle_booted
  have hread : idle.Possible (.read 3 0x1000 0x8000000 512 0x500000) := rfl
  have h₁ := h₀.step hread rfl
  have hread' : (idle.start false 3 .primary_master 0 0x8000000 512 0x1000 0x500000 bus0).Possible
      (.read 4 0x2000 0x8000000 512 0x501000) := rfl
  refine ⟨_, h₁.step hread' rfl, fun hlost => ?_⟩
  have hfinish := (hlost.captured 3 request3 rfl).2.2.1
  have hthread := congrArg (Option.map Request.thisThread) hfinish
  exact absurd hthread (by decide)

end Dma

end TedkOS.Drivers.Ata
