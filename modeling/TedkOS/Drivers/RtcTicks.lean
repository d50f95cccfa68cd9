/-
  One virtual RTC between the ticks of the timer and its reader.

  After `numCountToTriggerRTC` ticks the device FIRES.  A firing wakes the reader that waits; if
  none does it is banked in `backlog`, and the next read takes it from there and returns at once.

  `RtcWatch` keeps a record beside the driver: the firings, the reads completed, and the ticks from
  each firing to the next.  Two things can go wrong:
    1. a count of 0 fires on every tick.  The constructor can leave one behind, because it divides
       by a frequency it never sets;
    2. `backlog` is an `int`, so the firing after 2^31 - 1 banked ones is lost, with all the others.

  The invariant is `Kept`.  The counter says how many ticks there have been since the last firing,
  so the next one comes after as many as the device counts to; nobody waits while a firing is
  banked, so a firing goes either to the reader or to the bank, and the record adds up.
-/
import TedkOS.Drivers.Rtc

namespace TedkOS.Drivers

open Runs Proc

/-- The `if` of `triggerIfPossible()`. -/
def VirtualRTC.Fires (d : VirtualRTC) : Prop := d.numCountToTriggerRTC ≤ d.counter

instance (d : VirtualRTC) : Decidable d.Fires := inferInstanceAs (Decidable (_ ≤ _))

/-- The driver, and the record of one of its devices. -/
structure RtcWatch where
  rtc : Rtc
  firings : Nat
  completed : Nat
  /-- The ticks since the last firing. -/
  since : Option Nat
  /-- The ticks from each firing to the next one, that of the latter included. -/
  gaps : List Nat

/-- What happens to a device. -/
inductive RtcEvent where
  | tick
  | read (current : Pid)

namespace RtcWatch

variable (dev : BitVec 32)

/-- A tick of the timer.  A firing completes the read that waits. -/
def tick (w : RtcWatch) : RtcWatch :=
  let d := w.rtc.device dev
  let rtc := w.rtc.trigger dev
  if d.Fires then
    { rtc
      firings := w.firings + 1
      completed := if d.waiting then w.completed + 1 else w.completed
      since := some 0
      gaps := w.gaps ++ (w.since.map (· + 1)).toList }
  else { w with rtc, since := w.since.map (· + 1) }

/-- A read that does not wait is complete. -/
def read (current : Pid) (w : RtcWatch) : RtcWatch :=
  let rtc := w.rtc.read dev current
  { w with rtc, completed := if (rtc.device dev).waiting then w.completed else w.completed + 1 }

/-- An event, and what it adds to the record. -/
def step (w : RtcWatch) : RtcEvent → RtcWatch
  | .tick => w.tick dev
  | .read current => w.read dev current

/-- A device that counts to `n`, of which nobody has read. -/
structure Opened (n : BitVec 32) (w : RtcWatch) : Prop where
  count : (w.rtc.device dev).numCountToTriggerRTC = n
  /-- Nobody waits, -/
  idle : (w.rtc.device dev).waiting = false
  /-- nothing is banked, -/
  empty : (w.rtc.device dev).backlog = 0
  /-- and the record is empty. -/
  record : w = ⟨w.rtc, 0, 0, none, []⟩

/-- Ticks and reads, and no change of the frequency. -/
def machine (n : BitVec 32) : Machine RtcWatch RtcEvent where
  init := Opened dev n
  step w e w' := w' = w.step dev e

/-- There is one reader, and it does not run while it waits. -/
def OneReader (w : RtcWatch) : RtcEvent → Prop
  | .tick => True
  | .read _ => (w.rtc.device dev).waiting = false

/-- There is room for the firing in `backlog`, if it is banked. -/
def HasRoom (w : RtcWatch) : RtcEvent → Prop
  | .tick => (w.rtc.device dev).Fires → (w.rtc.device dev).waiting = false →
      (w.rtc.device dev).backlog ≠ 0x7FFFFFFF
  | .read _ => True

/-- The device fires once in `numCountToTriggerRTC` ticks, and every firing is either banked or has
    completed a read. -/
structure Conserves (w : RtcWatch) : Prop where
  /-- From one firing to the next there are as many ticks as the device counts to. -/
  periods : ∀ g ∈ w.gaps, g = (w.rtc.device dev).numCountToTriggerRTC.toNat
  /-- Nobody waits while a firing is banked. -/
  waiting : (w.rtc.device dev).waiting = true → (w.rtc.device dev).backlog = 0
  /-- Every firing has completed a read or is banked. -/
  conserved : (w.firings : Int) = w.completed + (w.rtc.device dev).backlog.toInt

/-- The invariant: between two firings the counter is one ahead of the ticks. -/
structure Kept (n : BitVec 32) (w : RtcWatch) : Prop where
  /-- The device counts to `n`. -/
  count : (w.rtc.device dev).numCountToTriggerRTC = n
  periods : ∀ g ∈ w.gaps, g = n.toNat
  /-- After a firing the counter starts from 1, and it has not got past `n`. -/
  counter : ∀ k, w.since = some k → (w.rtc.device dev).counter.toNat = k + 1 ∧ k + 1 ≤ n.toNat
  /-- Nobody waits while a firing is banked. -/
  waiting : (w.rtc.device dev).waiting = true → (w.rtc.device dev).backlog = 0
  /-- The number of banked firings has not wrapped around, -/
  banked : (w.rtc.device dev).backlog.toNat < 0x80000000
  /-- and with it the record adds up. -/
  conserved : w.firings = w.completed + (w.rtc.device dev).backlog.toNat

/-! ## One event

  A tick counts on, or fires; a firing wakes the reader, or is banked.  `Kept` survives each of
  these but the banking of one firing too many, after which the record cannot add up again
  (`not_conserves`).  A read takes a firing from the bank or waits for the next. -/

/-- The step of the counter. -/
theorem toNat_one : (1 : BitVec 32).toNat = 1 := rfl

section Events

variable {dev} {n : BitVec 32} {w : RtcWatch} {s : Rtc}

/-- A tick of the device. -/
theorem trigger_device : (s.trigger dev).device dev = (s.device dev).triggerIfPossible.1 := by
  rw [Rtc.trigger]
  rcases (s.device dev).triggerIfPossible with ⟨d, _ | thread⟩
  · exact Rtc.put_device.trans (if_pos rfl)
  · exact Rtc.put_device.trans (if_pos rfl)

/-- A tick that does not fire counts one up; -/
theorem triggerIfPossible_counting {d : VirtualRTC} (h : ¬ d.Fires) :
    d.triggerIfPossible.1 = { d with counter := d.counter + 1 } := by
  rw [VirtualRTC.triggerIfPossible]
  simp only [show ¬ d.numCountToTriggerRTC ≤ d.counter from h, if_false]

/-- one that fires wakes the reader, -/
theorem triggerIfPossible_waiting {d : VirtualRTC} (h : d.Fires) (hwaits : d.waiting = true) :
    d.triggerIfPossible.1 = { d with waiting := false, counter := 1 } := by
  rw [VirtualRTC.triggerIfPossible]
  simp only [show d.numCountToTriggerRTC ≤ d.counter from h, hwaits, if_true]
  rfl

/-- or is banked if nobody waits. -/
theorem triggerIfPossible_banked {d : VirtualRTC} (h : d.Fires) (hidle : d.waiting = false) :
    d.triggerIfPossible.1 = { d with backlog := d.backlog + 1, counter := 1 } := by
  rw [VirtualRTC.triggerIfPossible]
  simp only [show d.numCountToTriggerRTC ≤ d.counter from h, hidle, if_true,
    Bool.false_eq_true, if_false]
  rfl

/-- The number of banked firings, as the `int` it is. -/
theorem toInt_banked {b : BitVec 32} (h : b.toNat < 0x80000000) : b.toInt = b.toNat := by
  rw [BitVec.toInt_eq_toNat_cond, if_pos (by omega)]

/-- The record is empty, and so there is nothing to add up. -/
theorem Opened.kept (h : Opened dev n w) : Kept dev n w := by
  have hrec := h.record
  constructor
  case count => exact h.count
  case periods =>
    intro g hg
    rw [hrec] at hg
    exact absurd hg List.not_mem_nil
  case counter =>
    intro k hk
    rw [hrec] at hk
    cases hk
  case waiting => exact fun _ => h.empty
  case banked => rw [h.empty]; decide
  case conserved => rw [h.empty, hrec]; rfl

/-- The invariant says in numbers what is to be shown of the `int`. -/
theorem Kept.conserves (h : Kept dev n w) : Conserves dev w := by
  constructor
  case periods => rw [h.count]; exact h.periods
  case waiting => exact h.waiting
  case conserved =>
    rw [toInt_banked h.banked, h.conserved]
    exact Int.natCast_add ..

/-- The ticks up to a firing are the count. -/
theorem Kept.gap (h : Kept dev n w) (hfires : (w.rtc.device dev).Fires) :
    ∀ g ∈ w.gaps ++ (w.since.map (· + 1)).toList, g = n.toNat := by
  intro g hg
  rcases List.mem_append.mp hg with hg | hg
  · exact h.periods g hg
  · cases hsince : w.since with
    | none =>
      rw [hsince] at hg
      exact absurd hg List.not_mem_nil
    | some k =>
      rw [hsince] at hg
      obtain rfl : g = k + 1 := List.mem_singleton.mp hg
      obtain ⟨hcounter, hle⟩ := h.counter k hsince
      have hreached := BitVec.le_def.mp hfires
      rw [h.count] at hreached
      omega

/-- **A tick** on which the device does not fire. -/
theorem Kept.count_on (h : Kept dev n w) (hfires : ¬ (w.rtc.device dev).Fires) :
    Kept dev n (w.tick dev) := by
  have htick : w.tick dev = { w with rtc := w.rtc.trigger dev, since := w.since.map (· + 1) } :=
    if_neg hfires
  have hdev : (w.rtc.trigger dev).device dev =
      { w.rtc.device dev with counter := (w.rtc.device dev).counter + 1 } := by
    rw [trigger_device, triggerIfPossible_counting hfires]
  have hlt : (w.rtc.device dev).counter.toNat < n.toNat := by
    rw [← h.count]
    exact BitVec.lt_def.mp (BitVec.not_le.mp hfires)
  rw [htick]
  constructor
  case count => rw [hdev]; exact h.count
  case periods => exact h.periods
  case counter =>
    intro k hk
    obtain ⟨j, hj, rfl⟩ := Option.map_eq_some_iff.mp hk
    obtain ⟨hcounter, -⟩ := h.counter j hj
    have hbound := n.isLt
    rw [hdev]
    show ((w.rtc.device dev).counter + 1).toNat = j + 1 + 1 ∧ j + 1 + 1 ≤ n.toNat
    rw [BitVec.toNat_add, toNat_one]
    omega
  case waiting => rw [hdev]; exact h.waiting
  case banked => rw [hdev]; exact h.banked
  case conserved => rw [hdev]; exact h.conserved

/-- **A firing** that completes a read. -/
theorem Kept.wake (h : Kept dev n w) (hn : n ≠ 0) (hfires : (w.rtc.device dev).Fires)
    (hwaits : (w.rtc.device dev).waiting = true) : Kept dev n (w.tick dev) := by
  have htick : w.tick dev = ⟨w.rtc.trigger dev, w.firings + 1, w.completed + 1, some 0,
      w.gaps ++ (w.since.map (· + 1)).toList⟩ := by
    rw [tick, if_pos hfires, if_pos hwaits]
  have hdev : (w.rtc.trigger dev).device dev =
      { w.rtc.device dev with waiting := false, counter := 1 } := by
    rw [trigger_device, triggerIfPossible_waiting hfires hwaits]
  rw [htick]
  constructor
  case count => rw [hdev]; exact h.count
  case periods => exact h.gap hfires
  case counter =>
    rintro k ⟨⟩
    rw [hdev]
    exact ⟨rfl, Nat.pos_of_ne_zero fun h0 => hn (BitVec.eq_of_toNat_eq h0)⟩
  case waiting =>
    rw [hdev]
    exact fun hfalse => absurd hfalse Bool.false_ne_true
  case banked => rw [hdev]; exact h.banked
  case conserved =>
    have hsum := h.conserved
    rw [hdev]
    show w.firings + 1 = w.completed + 1 + (w.rtc.device dev).backlog.toNat
    omega

/-- **A firing** that is banked. -/
theorem Kept.bank (h : Kept dev n w) (hn : n ≠ 0) (hfires : (w.rtc.device dev).Fires)
    (hidle : (w.rtc.device dev).waiting = false) (hroom : (w.rtc.device dev).backlog ≠ 0x7FFFFFFF) :
    Kept dev n (w.tick dev) := by
  have htick : w.tick dev = ⟨w.rtc.trigger dev, w.firings + 1, w.completed, some 0,
      w.gaps ++ (w.since.map (· + 1)).toList⟩ := by
    rw [tick, if_pos hfires, if_neg (by rw [hidle]; exact Bool.false_ne_true)]
  have hdev : (w.rtc.trigger dev).device dev =
      { w.rtc.device dev with backlog := (w.rtc.device dev).backlog + 1, counter := 1 } := by
    rw [trigger_device, triggerIfPossible_banked hfires hidle]
  have hbanked := h.banked
  have hne : (w.rtc.device dev).backlog.toNat ≠ 0x7FFFFFFF :=
    fun e => hroom (BitVec.eq_of_toNat_eq e)
  have hnext : ((w.rtc.device dev).backlog + 1).toNat = (w.rtc.device dev).backlog.toNat + 1 := by
    rw [BitVec.toNat_add, toNat_one, Nat.mod_eq_of_lt (by omega)]
  rw [htick]
  constructor
  case count => rw [hdev]; exact h.count
  case periods => exact h.gap hfires
  case counter =>
    rintro k ⟨⟩
    rw [hdev]
    exact ⟨rfl, Nat.pos_of_ne_zero fun h0 => hn (BitVec.eq_of_toNat_eq h0)⟩
  case waiting =>
    rw [hdev]
    exact fun hwaits => absurd (hidle.symm.trans hwaits) Bool.false_ne_true
  case banked =>
    rw [hdev]
    show ((w.rtc.device dev).backlog + 1).toNat < 0x80000000
    omega
  case conserved =>
    have hsum := h.conserved
    rw [hdev]
    show w.firings + 1 = w.completed + ((w.rtc.device dev).backlog + 1).toNat
    omega

/-- The firing that finds no room. -/
theorem Kept.not_conserves (h : Kept dev n w) (hfires : (w.rtc.device dev).Fires)
    (hidle : (w.rtc.device dev).waiting = false) (hfull : (w.rtc.device dev).backlog = 0x7FFFFFFF) :
    ¬ Conserves dev (w.tick dev) := by
  intro hc
  have hsum := hc.conserved
  have htick : w.tick dev = ⟨w.rtc.trigger dev, w.firings + 1, w.completed, some 0,
      w.gaps ++ (w.since.map (· + 1)).toList⟩ := by
    rw [tick, if_pos hfires, if_neg (by rw [hidle]; exact Bool.false_ne_true)]
  rw [htick] at hsum
  simp only [trigger_device, triggerIfPossible_banked hfires hidle, hfull] at hsum
  have hwrapped : (0x7FFFFFFF + 1 : BitVec 32).toInt = -0x80000000 := by decide
  have hkept := h.conserved
  rw [hfull] at hkept
  have hmax : (0x7FFFFFFF : BitVec 32).toNat = 0x7FFFFFFF := rfl
  omega

/-- A read takes a firing that was banked, and does not wait. -/
theorem Kept.read_banked (h : Kept dev n w) (hidle : (w.rtc.device dev).waiting = false)
    (hpos : BitVec.slt 0 (w.rtc.device dev).backlog = true) (current : Pid) :
    Kept dev n (w.read dev current) := by
  have hbanked := h.banked
  have hsum := h.conserved
  have hdev : (w.rtc.read dev current).device dev =
      { w.rtc.device dev with backlog := (w.rtc.device dev).backlog - 1 } := by
    rw [Rtc.read, if_pos hpos]
    exact Function.update_self ..
  have hnonzero : (w.rtc.device dev).backlog.toNat ≠ 0 := by
    intro h0
    rw [BitVec.eq_of_toNat_eq (y := 0) h0] at hpos
    exact absurd hpos (by decide)
  have hless : ((w.rtc.device dev).backlog - 1).toNat = (w.rtc.device dev).backlog.toNat - 1 := by
    rw [BitVec.toNat_sub, toNat_one]
    omega
  have hread : w.read dev current =
      { w with rtc := w.rtc.read dev current, completed := w.completed + 1 } := by
    rw [RtcWatch.read, hdev, if_neg (by rw [hidle]; exact Bool.false_ne_true)]
  rw [hread]
  constructor
  case count => rw [hdev]; exact h.count
  case periods => exact h.periods
  case counter => rw [hdev]; exact h.counter
  case waiting =>
    rw [hdev]
    exact fun hwaits => absurd (hidle.symm.trans hwaits) Bool.false_ne_true
  case banked =>
    rw [hdev]
    show ((w.rtc.device dev).backlog - 1).toNat < 0x80000000
    omega
  case conserved =>
    rw [hdev]
    show w.firings = w.completed + 1 + ((w.rtc.device dev).backlog - 1).toNat
    omega

/-- With nothing banked the reader waits. -/
theorem Kept.read_waits (h : Kept dev n w) (hpos : ¬ BitVec.slt 0 (w.rtc.device dev).backlog = true)
    (current : Pid) : Kept dev n (w.read dev current) := by
  have hdev : (w.rtc.read dev current).device dev =
      { w.rtc.device dev with waiting := true, thread := current } := by
    rw [Rtc.read, if_neg hpos]
    exact Function.update_self ..
  have hzero : (w.rtc.device dev).backlog = 0 := by
    rw [BitVec.slt_iff_toInt_lt, toInt_banked h.banked] at hpos
    have h0 : (0 : BitVec 32).toInt = 0 := rfl
    exact BitVec.eq_of_toNat_eq (show _ = 0 by omega)
  have hread : w.read dev current = { w with rtc := w.rtc.read dev current } := by
    rw [RtcWatch.read, hdev, if_pos rfl]
  rw [hread]
  constructor
  case count => rw [hdev]; exact h.count
  case periods => exact h.periods
  case counter => rw [hdev]; exact h.counter
  case waiting => rw [hdev]; exact fun _ => hzero
  case banked => rw [hdev]; exact h.banked
  case conserved => rw [hdev]; exact h.conserved

/-- A read takes a banked firing, or waits for the next one. -/
theorem Kept.read (h : Kept dev n w) (hidle : (w.rtc.device dev).waiting = false) (current : Pid) :
    Kept dev n (w.read dev current) := by
  by_cases hpos : BitVec.slt 0 (w.rtc.device dev).backlog = true
  · exact h.read_banked hidle hpos current
  · exact h.read_waits hpos current

/-- **One event**: the record stays right exactly if a firing that is banked has room. -/
theorem Kept.step_iff (h : Kept dev n w) (hn : n ≠ 0) {e : RtcEvent} (hone : OneReader dev w e) :
    (HasRoom dev w e → Kept dev n (w.step dev e)) ∧
    (Conserves dev (w.step dev e) → HasRoom dev w e) := by
  cases e with
  | read current => exact ⟨fun _ => h.read hone current, fun _ => trivial⟩
  | tick =>
    refine ⟨fun hroom => ?_, fun hc hfires hidle hfull => h.not_conserves hfires hidle hfull hc⟩
    by_cases hfires : (w.rtc.device dev).Fires
    · cases hwaits : (w.rtc.device dev).waiting with
      | true => exact h.wake hn hfires hwaits
      | false => exact h.bank hn hfires hwaits (hroom hfires hwaits)
    · exact h.count_on hfires

end Events

/-! ## Runs -/

section Runs

variable {dev} {n : BitVec 32} {w : RtcWatch}

/-- The invariant of every run of a device with a count, one reader and room to bank. -/
theorem kept_of_reach (hn : n ≠ 0)
    (hr : Reach (machine dev n) (fun w e => OneReader dev w e ∧ HasRoom dev w e) w) :
    Kept dev n w := by
  refine hr.invariant (I := Kept dev n) (fun _ (h : Opened dev n _) => h.kept) ?_
  rintro w e w' h ⟨hone, hroom⟩ rfl
  exact (h.step_iff hn hone).1 hroom

/-- **No firing is lost or delivered twice**, and the device fires once in as many ticks as it
    counts to, if that is not 0; and the next event keeps it so exactly if a firing that is banked
    has room. -/
theorem rtc_conserves (hn : n ≠ 0)
    (hr : Reach (machine dev n) (fun w e => OneReader dev w e ∧ HasRoom dev w e) w) :
    Conserves dev w ∧ ∀ e, OneReader dev w e →
    (Conserves dev (w.step dev e) ↔ HasRoom dev w e) := by
  have h := kept_of_reach hn hr
  refine ⟨h.conserves, fun e hone => ?_⟩
  obtain ⟨hkeeps, hneeds⟩ := h.step_iff hn hone
  exact ⟨hneeds, fun hroom => (hkeeps hroom).conserves⟩

/-- A device just opened, in memory that held `raw`. -/
def opened (raw : VirtualRTC) : RtcWatch := ⟨Rtc.boot.construct 0x1000 raw 0, 0, 0, none, []⟩

instance (w : RtcWatch) (e : RtcEvent) : Decidable (OneReader dev w e ∧ HasRoom dev w e) :=
  match e with
  | .tick => inferInstanceAs (Decidable (True ∧ ((w.rtc.device dev).Fires →
      (w.rtc.device dev).waiting = false → (w.rtc.device dev).backlog ≠ 0x7FFFFFFF)))
  | .read _ => inferInstanceAs (Decidable ((w.rtc.device dev).waiting = false ∧ True))

/-- One event, as the reader and the room allow it. -/
def exec (dev : BitVec 32) (w : RtcWatch) (e : RtcEvent) : Option RtcWatch :=
  if OneReader dev w e ∧ HasRoom dev w e then some (w.step dev e) else none

/-- What it computes is a step of a run. -/
theorem exec_step (dev n : BitVec 32) (w : RtcWatch) (e : RtcEvent) (w' : RtcWatch)
    (h : exec dev w e = some w') :
    (OneReader dev w e ∧ HasRoom dev w e) ∧ (machine dev n).step w e w' := by
  obtain ⟨hok, hstep⟩ := Option.ite_none_right_eq_some.mp h
  exact ⟨hok, (Option.some.inj hstep).symm⟩

/-- A device of 2 Hz beside one of 8 Hz. -/
def openedSlow : RtcWatch :=
  ⟨(Rtc.boot.construct 0x1000 ⟨7, 1, 3, true, 2, 5⟩ 0).construct 0x2000 ⟨0, 0, 0, false, 8, 0⟩ 0, 0,
    0, none, []⟩

/-- Two firings are banked, two reads take them, and the third waits. -/
def untilWaiting : List RtcEvent :=
  List.replicate 11 .tick ++ List.replicate 3 (.read 5)

/-- **A device with a reader**: it fires on every fourth tick, and after the next firing as many
    reads are complete as it has fired. -/
theorem rtc_conserves_read : ∃ waiting woken : RtcWatch,
    ((waiting.rtc.device 0x1000).waiting, waiting.firings, waiting.completed) = (true, 2, 2) ∧
    Conserves 0x1000 waiting ∧
    ((woken.rtc.device 0x1000).waiting, woken.firings, woken.completed) = (false, 3, 3) ∧
    woken.gaps = [4, 4] ∧ Conserves 0x1000 woken := by
  have heval : ((untilWaiting.foldlM (exec 0x1000) openedSlow).bind fun waiting =>
      ([.tick, .tick].foldlM (exec 0x1000) waiting).map fun woken =>
        (((waiting.rtc.device 0x1000).waiting, waiting.firings, waiting.completed),
          ((woken.rtc.device 0x1000).waiting, woken.firings, woken.completed), woken.gaps)) =
      some ((true, 2, 2), (false, 3, 3), [4, 4]) := by
    decide +kernel
  obtain ⟨waiting, hwaiting, heval⟩ := Option.bind_eq_some_iff.mp heval
  obtain ⟨woken, hwoken, heval⟩ := Option.map_eq_some_iff.mp heval
  obtain ⟨hbefore, heval⟩ := Prod.mk.inj heval
  obtain ⟨hafter, hgaps⟩ := Prod.mk.inj heval
  have h₀ : Opened 0x1000 4 openedSlow := ⟨by decide, by decide, by decide, rfl⟩
  have hr := (Reach.init h₀).foldlM (M := machine 0x1000 4) (exec_step 0x1000 4)
    untilWaiting hwaiting
  have hr' := hr.foldlM (exec_step 0x1000 4) [.tick, .tick] hwoken
  exact ⟨waiting, woken, hbefore, (rtc_conserves (by decide) hr).1, hafter, hgaps,
    (rtc_conserves (by decide) hr').1⟩

/-- **The memory held a negative frequency**: the device counts to 0, and fires on every tick. -/
theorem rtc_not_conserves :
    ¬ ∀ dev n w, Reach (machine dev n) (OneReader dev) w → Conserves dev w := by
  intro h
  have h₀ : Opened 0x1000 0 (opened ⟨0, 0, 0, false, -100, 0⟩) :=
    ⟨by decide, by decide, by decide, rfl⟩
  have hr : Reach (machine 0x1000 0) (OneReader 0x1000)
      (((opened ⟨0, 0, 0, false, -100, 0⟩).tick 0x1000).tick 0x1000) :=
    .step (a := .tick) (.step (a := .tick) (.init h₀) trivial rfl) trivial rfl
  have hperiods := (h _ _ _ hr).periods 1 (by decide)
  exact absurd hperiods (by decide)

end Runs

end RtcWatch

end TedkOS.Drivers
