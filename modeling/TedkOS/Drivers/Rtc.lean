/-
  The virtual RTCs: many devices of their own frequency on one timer.

  The timer ticks at `hardwareRTCFrequency`, the maximum of the frequencies of the open devices, and
  a device of a lower frequency counts `numCountToTriggerRTC` ticks for one of its own.  The maximum
  is computed again on open, write and close; if it is a new one every device is told, and otherwise
  only the one that asked.

  1. **Program** — `VirtualRTC`, one device as it lies in memory, and `Rtc`, the driver: the deque
     of devices, the devices by their address, the timer, and the threads that read.

  2. **Raw memory** — the constructor writes some fields of the memory it is given and leaves
     others; and it asks for 2 Hz through a pointer to ONE byte, of which `write` reads four.

  3. **Synced** — every device has a frequency the timer knows, the timer has the largest of them,
     and every device counts as many ticks as its frequency goes into that of the timer.

  `Synced` is kept because every call that changes a frequency computes the maximum again.  If
  that is a new one all devices are told, and otherwise the one that asked: for the others neither
  their frequency nor the timer's has changed (`Ensured`).  What breaks it is a device that comes
  with a frequency no timer can have, which the constructor takes over from the memory it is
  given.
-/
import Mathlib.Algebra.Group.Int.Defs
import Mathlib.Algebra.Group.Nat.Defs
import TedkOS.Proc.Tasks

namespace TedkOS.Drivers

open Runs Proc

/-! ## A device -/

/-- `class VirtualRTC`, with what its memory held for the fields the constructor leaves alone. -/
structure VirtualRTC where
  /-- Ticks of the timer since it last fired. -/
  counter : BitVec 32
  /-- How many it counts. -/
  numCountToTriggerRTC : BitVec 32
  thread : Pid
  /-- Whether `thread` waits for it. -/
  waiting : Bool
  /-- What its user asked for. -/
  ourFreq : BitVec 32
  /-- Firings nobody has waited for. -/
  backlog : BitVec 32

namespace VirtualRTC

variable (d : VirtualRTC)

/-- `triggerIfPossible()`, and the thread it wakes. -/
def triggerIfPossible : VirtualRTC × Option Pid :=
  let (d, woken) :=
    if d.numCountToTriggerRTC ≤ d.counter then
      if d.waiting then ({ d with waiting := false, counter := 0 }, some d.thread)
      else ({ d with backlog := d.backlog + 1, counter := 0 }, none)
    else (d, none)
  ({ d with counter := d.counter + 1 }, woken)

/-- `newHardwareRTCFrequencyNoLock(freq)`. -/
def newHardwareRTCFrequencyNoLock (freq : BitVec 32) : VirtualRTC :=
  if d.ourFreq.slt freq then
    if d.ourFreq = 0 then d
    else
      let factor := freq.sdiv d.ourFreq
      let oldNumCount := d.numCountToTriggerRTC
      let d := { d with numCountToTriggerRTC := factor }
      if oldNumCount ≤ factor then
        if factor ≠ 0 ∧ oldNumCount ≠ 0
          then { d with counter := d.counter * (factor / oldNumCount) } else d
      else
        if factor ≠ 0 ∧ oldNumCount ≠ 0
          then { d with counter := d.counter / (oldNumCount / factor) } else d
  else { d with numCountToTriggerRTC := 1 }

/-- `newHardwareRTCFrequency(freq)`: the same under the lock of the device. -/
def newHardwareRTCFrequency (freq : BitVec 32) : VirtualRTC := d.newHardwareRTCFrequencyNoLock freq

/-- `getFreq()`. -/
def getFreq : BitVec 32 := d.ourFreq

/-- The fields the constructor sets before its body. -/
def init : VirtualRTC :=
  { d with counter := 0, numCountToTriggerRTC := 2, waiting := false, backlog := 0 }

end VirtualRTC

/-- `frequency_converter(freq)`. -/
def frequency_converter (freq : BitVec 32) : BitVec 8 :=
  match freq with
  | 1024 => 0x06
  | 512 => 0x07
  | 256 => 0x08
  | 128 => 0x09
  | 64 => 0x0A
  | 32 => 0x0B
  | 16 => 0x0C
  | 8 => 0x0D
  | 4 => 0x0E
  | 2 => 0x0F
  | _ => 0

/-- The bits of the status that are not the rate. -/
def HIGH_BIT_MASK : BitVec 8 := 0xF0

/-! ## The driver -/

/-- What a reader gets and whether it runs. -/
structure Reader where
  runState : ThreadState
  eax : BitVec 32

/-- The driver. -/
structure Rtc where
  virtualRTCs : List (BitVec 32)
  /-- The device at an address. -/
  device : BitVec 32 → VirtualRTC
  hardwareRTCFrequency : BitVec 32
  /-- `RTC_STATUS_A`, whose low four bits are the rate of the timer. -/
  statusA : BitVec 8
  reader : Pid → Reader

namespace Rtc

variable (s : Rtc)

/-- The device at `dev` is now `d`. -/
def put (dev : BitVec 32) (d : VirtualRTC) : Rtc :=
  { s with device := Function.update s.device dev d }

/-- `rtc_change_frequency_nolock(rate)`. -/
def rtc_change_frequency_nolock (rate : BitVec 8) : Rtc :=
  if rate = 0 then s else { s with statusA := (s.statusA &&& HIGH_BIT_MASK) ||| rate }

/-- The loop for the maximum in `ensureHardwareFrequencyHigherThanVirtualFrequenciesNoLock`. -/
def maxFreq : BitVec 32 :=
  s.virtualRTCs.foldl
    (fun max dev => if max.slt (s.device dev).getFreq then (s.device dev).getFreq else max) 0

/-- One round of the loop that tells every device. -/
def tell (requester : Option (BitVec 32)) (s : Rtc) (dev : BitVec 32) : Rtc :=
  if some dev = requester then
    s.put dev ((s.device dev).newHardwareRTCFrequencyNoLock s.hardwareRTCFrequency)
  else s.put dev ((s.device dev).newHardwareRTCFrequency s.hardwareRTCFrequency)

/-- `ensureHardwareFrequencyHigherThanVirtualFrequenciesNoLock(requester)`. -/
def ensureHardwareFrequency (requester : Option (BitVec 32)) : Rtc :=
  let max := s.maxFreq
  if max ≠ s.hardwareRTCFrequency then
    let s := { s with hardwareRTCFrequency := max }.rtc_change_frequency_nolock
      (frequency_converter max)
    s.virtualRTCs.foldl (tell requester) s
  else
    match requester with
    | some dev => s.put dev ((s.device dev).newHardwareRTCFrequencyNoLock s.hardwareRTCFrequency)
    | none => s

/-- `addToVirtualRTCs(dev)`. -/
def addToVirtualRTCs (dev : BitVec 32) : Rtc :=
  { s with virtualRTCs := s.virtualRTCs ++ [dev] }.ensureHardwareFrequency (some dev)

/-- The loop of `removeFromVirtualRTCs`: rotate until `dev` is in front, and pop it. -/
def rotateTo (dev : BitVec 32) : Nat → List (BitVec 32) → Option (List (BitVec 32))
  | 0, _ => none
  | _ + 1, [] => none
  | rounds + 1, front :: rest =>
    if front = dev then some rest else rotateTo dev rounds (rest ++ [front])

/-- `removeFromVirtualRTCs(dev)`. -/
def removeFromVirtualRTCs (dev : BitVec 32) : Option Rtc := do
  let virtualRTCs ← rotateTo dev s.virtualRTCs.length s.virtualRTCs
  return { s with virtualRTCs }.ensureHardwareFrequency none

/-- `VirtualRTC::read`. -/
def read (dev : BitVec 32) (current : Pid) : Rtc :=
  let d := s.device dev
  if BitVec.slt 0 d.backlog then
    { s.put dev { d with backlog := d.backlog - 1 } with
      reader := Function.update s.reader current { s.reader current with eax := 0 } }
  else
    { s.put dev { d with waiting := true, thread := current } with
      reader := Function.update s.reader current { s.reader current with runState := .Waiting } }

/-- `VirtualRTC::write`, when the four bytes at `buf` are `freq`. -/
def write (dev freq : BitVec 32) : BitVec 32 × Rtc :=
  let rate := frequency_converter freq
  if rate = 0 then (-1, s)
  else (0, (s.put dev { s.device dev with ourFreq := freq }).ensureHardwareFrequency (some dev))

/-- The constructor `VirtualRTC()` at `dev`, where memory held `raw`; `stack` are the three bytes
    that follow its variable `rate`. -/
def construct (dev : BitVec 32) (raw : VirtualRTC) (stack : BitVec 24) : Rtc :=
  let s := (s.put dev raw.init).addToVirtualRTCs dev
  /- open would initialize rtc frequency to 2Hz -/
  let rate := frequency_converter 2
  (s.write dev (stack ++ rate)).2

/-- One device's part of `handler`. -/
def trigger (s : Rtc) (dev : BitVec 32) : Rtc :=
  let (d, woken) := (s.device dev).triggerIfPossible
  match woken with
  | some thread => { s.put dev d with reader := Function.update s.reader thread ⟨.Running, 0⟩ }
  | none => s.put dev d

/-- `handler()`. -/
def handler : Rtc := s.virtualRTCs.foldl trigger s

/-- What can happen to the driver. -/
inductive Op where
  | open (dev : BitVec 32) (raw : VirtualRTC) (stack : BitVec 24)
  | close (dev : BitVec 32)
  | read (dev : BitVec 32) (current : Pid)
  | write (dev freq : BitVec 32)
  | interrupt

/-- One call or interrupt. -/
def step : Op → Option Rtc
  | .open dev raw stack => some (s.construct dev raw stack)
  | .close dev => s.removeFromVirtualRTCs dev
  | .read dev current => some (s.read dev current)
  | .write dev freq => some (s.write dev freq).2
  | .interrupt => some s.handler

/-- `new` gives memory no open device lies in, and the other calls are on an open device. -/
def Possible : Op → Prop
  | .open dev _ _ => dev ∉ s.virtualRTCs
  | .close dev => dev ∈ s.virtualRTCs
  | .read dev _ => dev ∈ s.virtualRTCs
  | .write dev _ => dev ∈ s.virtualRTCs
  | .interrupt => True

/-- `init()`. -/
def Booted : Prop := s.virtualRTCs = [] ∧ s.hardwareRTCFrequency = 0

/-- The driver from boot on. -/
def rtcMachine : Machine Rtc Op where
  init := Booted
  step s op s' := s.step op = some s'

/-! ## Frequencies

  The timer has the powers of two from 2 to 1024, one by one in `frequency_converter`.  The
  constructor asks for 2 through a pointer to one byte, so three of the four bytes `write` reads
  are whatever is next on the stack. -/

/-- The frequency is a power of two from 2 to 1024. -/
def IsRate (f : BitVec 32) : Prop := ∃ k, 1 ≤ k ∧ k ≤ 10 ∧ f.toInt = 2 ^ k

/-- A rate as a word, -/
theorem IsRate.eq_ofNat {f : BitVec 32} (h : IsRate f) :
    ∃ k, 1 ≤ k ∧ k ≤ 10 ∧ f = BitVec.ofNat 32 (2 ^ k) := by
  obtain ⟨k, h1, h10, hf⟩ := h
  refine ⟨k, h1, h10, BitVec.eq_of_toInt_eq ?_⟩
  rw [hf]
  have hall : ∀ k : Fin 11, (2 : Int) ^ k.val = (BitVec.ofNat 32 (2 ^ k.val)).toInt := by
    decide +kernel
  exact hall ⟨k, by omega⟩

/-- The converter knows exactly the frequencies of the devices. -/
theorem isRate_iff {f : BitVec 32} : IsRate f ↔ frequency_converter f ≠ 0 := by
  constructor
  · intro h
    obtain ⟨k, h1, h10, rfl⟩ := h.eq_ofNat
    have hall : ∀ k : Fin 11, 1 ≤ k.val →
        frequency_converter (BitVec.ofNat 32 (2 ^ k.val)) ≠ 0 := by
      decide +kernel
    exact hall ⟨k, by omega⟩ h1
  · intro h
    unfold frequency_converter at h
    split at h
    · exact ⟨10, by decide⟩
    · exact ⟨9, by decide⟩
    · exact ⟨8, by decide⟩
    · exact ⟨7, by decide⟩
    · exact ⟨6, by decide⟩
    · exact ⟨5, by decide⟩
    · exact ⟨4, by decide⟩
    · exact ⟨3, by decide⟩
    · exact ⟨2, by decide⟩
    · exact ⟨1, by decide⟩
    · exact absurd rfl h

/-- which is positive as an `int`. -/
theorem IsRate.pos {f : BitVec 32} (h : IsRate f) : 0 < f.toInt := by
  obtain ⟨k, -, -, hf⟩ := h
  rw [hf]
  exact Int.pow_pos (by decide)

/-- 2 Hz is one. -/
theorem IsRate.two : IsRate 2 := ⟨1, by decide⟩

/-- What `write` reads in the constructor is no frequency, whatever the stack holds. -/
theorem frequency_converter_stack (stack : BitVec 24) :
    frequency_converter (stack ++ frequency_converter 2) = 0 := by
  by_contra h
  obtain ⟨k, h1, h10, hk⟩ := (isRate_iff.mpr h).eq_ofNat
  have hlow : (stack ++ frequency_converter 2).setWidth 8 = 0x0F := by
    rw [BitVec.setWidth_append, dif_pos (Nat.le_refl 8)]
    rfl
  rw [hk] at hlow
  have hall : ∀ k : Fin 11, 1 ≤ k.val →
      (BitVec.ofNat 32 (2 ^ k.val)).setWidth 8 ≠ (0x0F : BitVec 8) := by
    decide +kernel
  exact hall ⟨k, by omega⟩ h1 hlow

/-! ## Telling a device

  A device of frequency `f` under a timer of frequency `F` counts `F / f` ticks.  Both are powers
  of two, so that the quotient is exact; a device as fast as the timer counts every tick. -/

section Device

variable {d : VirtualRTC} {freq : BitVec 32}

/-- Being told the frequency of the timer changes no frequency of a device. -/
theorem newFrequency_ourFreq : (d.newHardwareRTCFrequencyNoLock freq).ourFreq = d.ourFreq := by
  unfold VirtualRTC.newHardwareRTCFrequencyNoLock
  dsimp only
  split_ifs <;> rfl

/-- A device slower than the timer counts as many ticks as it is slower; -/
theorem newFrequency_slower (hlt : d.ourFreq.slt freq = true) (hne : d.ourFreq ≠ 0) :
    (d.newHardwareRTCFrequencyNoLock freq).numCountToTriggerRTC = freq.sdiv d.ourFreq := by
  unfold VirtualRTC.newHardwareRTCFrequencyNoLock
  rw [if_pos hlt, if_neg hne]
  dsimp only
  split_ifs <;> rfl

/-- one that is not counts one. -/
theorem newFrequency_same (hlt : ¬ d.ourFreq.slt freq = true) :
    (d.newHardwareRTCFrequencyNoLock freq).numCountToTriggerRTC = 1 := by
  unfold VirtualRTC.newHardwareRTCFrequencyNoLock
  rw [if_neg hlt]

/-- **The count is right** after a device was told, if its frequency is one and not above that of
    the timer. -/
theorem newFrequency_count (hours : IsRate d.ourFreq) (hfreq : IsRate freq)
    (hle : d.ourFreq.toInt ≤ freq.toInt) :
    ((d.newHardwareRTCFrequencyNoLock freq).numCountToTriggerRTC.toNat : Int) * d.ourFreq.toInt =
      freq.toInt := by
  by_cases hlt : d.ourFreq.slt freq = true
  · have hne : d.ourFreq ≠ 0 := by
      intro h0
      have hpos := hours.pos
      rw [h0] at hpos
      exact absurd hpos (by decide)
    rw [newFrequency_slower hlt hne]
    rw [BitVec.slt_iff_toInt_lt] at hlt
    obtain ⟨i, hi1, hi10, hi⟩ := hours.eq_ofNat
    obtain ⟨j, hj1, hj10, hj⟩ := hfreq.eq_ofNat
    rw [hi, hj] at hlt ⊢
    -- both are powers of two, so the division leaves nothing over
    have hall : ∀ i j : Fin 11,
        (BitVec.ofNat 32 (2 ^ i.val)).toInt < (BitVec.ofNat 32 (2 ^ j.val)).toInt →
        (((BitVec.ofNat 32 (2 ^ j.val)).sdiv (BitVec.ofNat 32 (2 ^ i.val))).toNat : Int) *
          (BitVec.ofNat 32 (2 ^ i.val)).toInt = (BitVec.ofNat 32 (2 ^ j.val)).toInt := by
      decide +kernel
    exact hall ⟨i, by omega⟩ ⟨j, by omega⟩ hlt
  · rw [newFrequency_same hlt]
    rw [BitVec.slt_iff_toInt_lt] at hlt
    have heq : d.ourFreq.toInt = freq.toInt := by omega
    rw [heq]
    exact Int.one_mul _

/-- A tick changes neither. -/
theorem triggerIfPossible_keeps : d.triggerIfPossible.1.ourFreq = d.ourFreq ∧
    d.triggerIfPossible.1.numCountToTriggerRTC = d.numCountToTriggerRTC := by
  unfold VirtualRTC.triggerIfPossible
  dsimp only
  split_ifs <;> exact ⟨rfl, rfl⟩

end Device

/-! ## The maximum

  It is computed with a loop over all devices.  It is attained if there is a device, and bounds
  all of them. -/

section Driver

variable {s s' : Rtc} {dev p : BitVec 32} {requester : Option (BitVec 32)} {raw : VirtualRTC}
  {stack : BitVec 24}

/-- The loop finds a largest value, or what it started with. -/
theorem foldl_max {α : Type} (f : α → BitVec 32) (l : List α) (b : BitVec 32) :
    b.toInt ≤ (l.foldl (fun max a => if max.slt (f a) then f a else max) b).toInt ∧
    (∀ a ∈ l, (f a).toInt ≤ (l.foldl (fun max a => if max.slt (f a) then f a else max) b).toInt) ∧
    (l.foldl (fun max a => if max.slt (f a) then f a else max) b = b ∨
      ∃ a ∈ l, f a = l.foldl (fun max a => if max.slt (f a) then f a else max) b) := by
  induction l generalizing b with
  | nil => exact ⟨le_refl _, fun a ha => absurd ha (by simp), .inl rfl⟩
  | cons x l ih =>
    rw [List.foldl_cons]
    obtain ⟨hb, hl, heq⟩ := ih (if b.slt (f x) then f x else b)
    have hstep : b.toInt ≤ (if b.slt (f x) then f x else b).toInt ∧
        (f x).toInt ≤ (if b.slt (f x) then f x else b).toInt := by
      split
      · next hlt =>
        rw [BitVec.slt_iff_toInt_lt] at hlt
        exact ⟨by omega, le_refl _⟩
      · next hlt =>
        rw [BitVec.slt_iff_toInt_lt] at hlt
        exact ⟨le_refl _, by omega⟩
    refine ⟨hstep.1.trans hb, ?_, ?_⟩
    · intro a ha
      rcases List.mem_cons.mp ha with rfl | ha
      · exact hstep.2.trans hb
      · exact hl a ha
    · rcases heq with heq | ⟨a, ha, heq⟩
      · rw [heq]
        split
        · exact .inr ⟨x, List.mem_cons_self, rfl⟩
        · exact .inl rfl
      · exact .inr ⟨a, List.mem_cons_of_mem x ha, heq⟩

/-- No device is faster than the maximum. -/
theorem le_maxFreq (h : p ∈ s.virtualRTCs) : (s.device p).ourFreq.toInt ≤ s.maxFreq.toInt :=
  (foldl_max (fun dev => (s.device dev).getFreq) s.virtualRTCs 0).2.1 p h

/-- The maximum is some device's frequency, unless there is no device. -/
theorem maxFreq_attained (hrate : ∀ dev ∈ s.virtualRTCs, IsRate (s.device dev).ourFreq) :
    (s.virtualRTCs = [] ∧ s.maxFreq = 0) ∨ ∃ dev ∈ s.virtualRTCs,
    (s.device dev).ourFreq = s.maxFreq := by
  rcases (foldl_max (fun dev => (s.device dev).getFreq) s.virtualRTCs 0).2.2 with hzero | hdev
  · cases hlist : s.virtualRTCs with
    | nil => exact .inl ⟨rfl, by rw [maxFreq, hlist]; rfl⟩
    | cons dev rest =>
      have hmem : dev ∈ s.virtualRTCs := by rw [hlist]; exact List.mem_cons_self
      have hle := le_maxFreq hmem
      have hpos := (hrate dev hmem).pos
      have hmax : s.maxFreq = 0 := hzero
      rw [hmax] at hle
      have h0 : (0 : BitVec 32).toInt = 0 := rfl
      omega
  · exact .inr hdev

/-! ## Telling the devices

  The loop over the deque tells one device after another, and a device that occurs once is told
  once (`foldl_tell`).  `Ensured` says what `ensureHardwareFrequency` leaves: the timer has the
  maximum, and a device that was not told did not have to be. -/

/-- A device is told the frequency of the timer, whoever has asked. -/
theorem tell_eq : tell requester s dev =
    s.put dev ((s.device dev).newHardwareRTCFrequencyNoLock s.hardwareRTCFrequency) := by
  unfold tell
  split <;> rfl

/-- The last thing device `p` was told is `freq`. -/
def Told (s : Rtc) (freq p : BitVec 32) : Prop :=
  ∃ d : VirtualRTC, s.device p = d.newHardwareRTCFrequencyNoLock freq

/-- A device that has been told a frequency counts as often as its own goes into that. -/
theorem Told.count {freq : BitVec 32} (h : s.Told freq p) (hours : IsRate (s.device p).ourFreq)
    (hfreq : IsRate freq) (hle : (s.device p).ourFreq.toInt ≤ freq.toInt) :
    ((s.device p).numCountToTriggerRTC.toNat : Int) * (s.device p).ourFreq.toInt = freq.toInt := by
  obtain ⟨d, hd⟩ := h
  rw [hd, newFrequency_ourFreq] at hours hle ⊢
  exact newFrequency_count hours hfreq hle

/-- Writing one device leaves the others. -/
theorem put_device : (s.put dev raw).device p = if p = dev then raw else s.device p :=
  Function.update_apply ..

/-- Every device of the list is told, and the others are left alone. -/
theorem foldl_tell (l : List (BitVec 32)) (s : Rtc) :
    (l.foldl (tell requester) s).virtualRTCs = s.virtualRTCs ∧
    (l.foldl (tell requester) s).hardwareRTCFrequency = s.hardwareRTCFrequency ∧
    (∀ p, ((l.foldl (tell requester) s).device p).ourFreq = (s.device p).ourFreq) ∧
    ∀ p, p ∈ l ∨ s.Told s.hardwareRTCFrequency p →
      (l.foldl (tell requester) s).Told s.hardwareRTCFrequency p := by
  induction l generalizing s with
  | nil => exact ⟨rfl, rfl, fun p => rfl, fun p hp => hp.resolve_left (by simp)⟩
  | cons dev l ih =>
    rw [List.foldl_cons, tell_eq]
    obtain ⟨hlist, hhw, hfreq, htold⟩ :=
      ih (s.put dev ((s.device dev).newHardwareRTCFrequencyNoLock s.hardwareRTCFrequency))
    refine ⟨hlist, hhw, fun p => ?_, fun p hp => htold p ?_⟩
    · rw [hfreq, put_device]
      split
      · next hdev => rw [hdev, newFrequency_ourFreq]
      · rfl
    · by_cases hdev : p = dev
      · exact .inr ⟨_, by rw [put_device, if_pos hdev]; rfl⟩
      · refine hp.imp (fun hp => (List.mem_cons.mp hp).resolve_left hdev) ?_
        rintro ⟨d, hd⟩
        exact ⟨d, by rw [put_device, if_neg hdev, hd]; rfl⟩

/-- What the recomputation of the maximum does. -/
structure Ensured (s s' : Rtc) (requester : Option (BitVec 32)) : Prop where
  /-- The devices are the same, -/
  list : s'.virtualRTCs = s.virtualRTCs
  /-- the timer has their maximum, -/
  hardware : s'.hardwareRTCFrequency = s.maxFreq
  /-- and each has its frequency still. -/
  freq : ∀ p, (s'.device p).ourFreq = (s.device p).ourFreq
  /-- A device was told the frequency of the timer, unless that did not change. -/
  told : ∀ p ∈ s.virtualRTCs, s'.Told s'.hardwareRTCFrequency p ∨
    (some p ≠ requester ∧ s.maxFreq = s.hardwareRTCFrequency ∧ s'.device p = s.device p)

/-- Setting the rate writes the status register and nothing else. -/
theorem rtc_change_frequency_nolock_eq (rate : BitVec 8) :
    ∃ statusA, s.rtc_change_frequency_nolock rate = { s with statusA } := by
  unfold rtc_change_frequency_nolock
  split
  · exact ⟨_, rfl⟩
  · exact ⟨_, rfl⟩

/-- `ensureHardwareFrequency` does that, and tells all devices or only who asked. -/
theorem ensureHardwareFrequency_ensured :
    Ensured s (s.ensureHardwareFrequency requester) requester := by
  unfold ensureHardwareFrequency
  dsimp only
  split
  · obtain ⟨statusA, heq⟩ := rtc_change_frequency_nolock_eq
      (s := { s with hardwareRTCFrequency := s.maxFreq }) (frequency_converter s.maxFreq)
    rw [heq]
    obtain ⟨hlist, hhw, hfreq, htold⟩ := @foldl_tell requester s.virtualRTCs
      { s with hardwareRTCFrequency := s.maxFreq, statusA }
    exact ⟨hlist, hhw, hfreq, fun p hp => .inl (by rw [hhw]; exact htold p (.inl hp))⟩
  · next hsame =>
    rw [not_not] at hsame
    cases requester with
    | none => exact ⟨rfl, hsame.symm, fun p => rfl, fun p hp => .inr ⟨nofun, hsame, rfl⟩⟩
    | some dev =>
      refine ⟨rfl, hsame.symm, fun p => ?_, fun p hp => ?_⟩
      · rw [put_device]
        split
        · next hdev => rw [hdev, newFrequency_ourFreq]
        · rfl
      · by_cases hdev : p = dev
        · exact .inl ⟨_, by rw [put_device, if_pos hdev]; rfl⟩
        · refine .inr ⟨fun h => hdev (Option.some.inj h), hsame, ?_⟩
          rw [put_device, if_neg hdev]

/-! ## The frequencies fit

  `ensureHardwareFrequency` is what mends the invariant: whatever the devices counted before, it
  is right afterwards if their frequencies are the timer's (`ensureHardwareFrequency_synced`). -/

/-- Every open device has a frequency from 2 to 1024, the timer has the largest of them, and every
    device counts as many ticks as its frequency goes into that of the timer. -/
structure Synced (s : Rtc) : Prop where
  /-- No device is in the deque twice. -/
  once : s.virtualRTCs.Nodup
  /-- Each has a frequency that the timer can have; -/
  rate : ∀ dev ∈ s.virtualRTCs, IsRate (s.device dev).ourFreq
  /-- none has a higher one than the timer, -/
  upper : ∀ dev ∈ s.virtualRTCs, (s.device dev).ourFreq.toInt ≤ s.hardwareRTCFrequency.toInt
  /-- and one has that of the timer, if there is a device; -/
  attained : (s.virtualRTCs = [] ∧ s.hardwareRTCFrequency = 0) ∨
    ∃ dev ∈ s.virtualRTCs, (s.device dev).ourFreq = s.hardwareRTCFrequency
  /-- and the ticks each counts are in proportion. -/
  count : ∀ dev ∈ s.virtualRTCs, ((s.device dev).numCountToTriggerRTC.toNat : Int) *
    (s.device dev).ourFreq.toInt = s.hardwareRTCFrequency.toInt

/-- There is no device, and the timer is off. -/
theorem Booted.synced (h : s.Booted) : s.Synced := by
  have hnil : ∀ dev, dev ∉ s.virtualRTCs := fun dev hdev => by rw [h.1] at hdev; cases hdev
  constructor
  case once => rw [h.1]; exact List.nodup_nil
  case attained => exact .inl h
  all_goals exact fun dev hdev => absurd hdev (hnil dev)

/-- **The recomputation makes the frequencies fit**, if they are frequencies and the count of every
    device but the requester was right. -/
theorem ensureHardwareFrequency_synced (honce : s.virtualRTCs.Nodup)
    (hrate : ∀ dev ∈ s.virtualRTCs, IsRate (s.device dev).ourFreq)
    (hcount : ∀ dev ∈ s.virtualRTCs, some dev ≠ requester →
      ((s.device dev).numCountToTriggerRTC.toNat : Int) * (s.device dev).ourFreq.toInt =
        s.hardwareRTCFrequency.toInt) :
    (s.ensureHardwareFrequency requester).Synced := by
  have h : Ensured s (s.ensureHardwareFrequency requester) requester :=
    ensureHardwareFrequency_ensured
  have hattained := maxFreq_attained hrate
  constructor
  case once => rw [h.list]; exact honce
  case rate =>
    intro dev hdev
    rw [h.list] at hdev
    rw [h.freq]
    exact hrate dev hdev
  case upper =>
    intro dev hdev
    rw [h.list] at hdev
    rw [h.freq, h.hardware]
    exact le_maxFreq hdev
  case attained =>
    rw [h.list, h.hardware]
    exact hattained.imp_right fun ⟨dev, hdev, heq⟩ => ⟨dev, hdev, (h.freq dev).trans heq⟩
  case count =>
    intro dev hdev
    rw [h.list] at hdev
    -- told, or neither its frequency nor that of the timer has changed
    rcases h.told dev hdev with htold | ⟨hother, hsame, heq⟩
    · rw [h.hardware] at htold ⊢
      obtain ⟨q, hq, hmax⟩ := hattained.resolve_left fun hnil => by rw [hnil.1] at hdev; cases hdev
      refine htold.count ?_ (hmax ▸ hrate q hq) ?_
      · rw [h.freq]
        exact hrate dev hdev
      · rw [h.freq]
        exact le_maxFreq hdev
    · rw [heq, h.hardware, hsame]
      exact hcount dev hdev hother

/-- What concerns no frequency and no count changes nothing. -/
theorem Synced.congr (h : s.Synced) (hlist : s'.virtualRTCs = s.virtualRTCs)
    (hhw : s'.hardwareRTCFrequency = s.hardwareRTCFrequency)
    (hdev : ∀ p, (s'.device p).ourFreq = (s.device p).ourFreq ∧
      (s'.device p).numCountToTriggerRTC = (s.device p).numCountToTriggerRTC) : s'.Synced := by
  constructor
  case once => rw [hlist]; exact h.once
  case rate =>
    intro p hp
    rw [hlist] at hp
    rw [(hdev p).1]
    exact h.rate p hp
  case upper =>
    intro p hp
    rw [hlist] at hp
    rw [(hdev p).1, hhw]
    exact h.upper p hp
  case attained =>
    rw [hlist, hhw]
    exact h.attained.imp_right fun ⟨p, hp, heq⟩ => ⟨p, hp, (hdev p).1.trans heq⟩
  case count =>
    intro p hp
    rw [hlist] at hp
    rw [(hdev p).1, (hdev p).2, hhw]
    exact h.count p hp

/-! ## Open

  The constructor adds the device with the frequency its memory had, since the `write` before it
  is refused.  So `Synced` is kept exactly if that word was a frequency of the timer
  (`Synced.construct_iff`). -/

/-- The `write` in the constructor does nothing. -/
theorem construct_eq : s.construct dev raw stack = (s.put dev raw.init).addToVirtualRTCs dev := by
  rw [construct, write, if_pos (frequency_converter_stack stack)]

/-- The constructor appends the device and then computes the maximum, -/
theorem construct_ensured :
    Ensured { s.put dev raw.init with virtualRTCs := s.virtualRTCs ++ [dev] }
    (s.construct dev raw stack) (some dev) := by
  rw [construct_eq]
  exact ensureHardwareFrequency_ensured

/-- The device is open then, whatever frequency it has come by. -/
theorem construct_virtualRTCs : (s.construct dev raw stack).virtualRTCs = s.virtualRTCs ++ [dev] :=
  construct_ensured.list

/-- The frequency of a new device is what its memory held. -/
theorem construct_ourFreq : ((s.construct dev raw stack).device dev).ourFreq = raw.ourFreq := by
  rw [construct_ensured.freq]
  show ((s.put dev raw.init).device dev).ourFreq = raw.ourFreq
  rw [put_device, if_pos rfl]
  rfl

/-- **Open** keeps the frequencies fitting exactly if the memory of the device held a frequency. -/
theorem Synced.construct_iff (h : s.Synced) (hnew : dev ∉ s.virtualRTCs) :
    (s.construct dev raw stack).Synced ↔ IsRate raw.ourFreq := by
  constructor
  · intro hs
    rw [← @construct_ourFreq s dev]
    exact hs.rate dev
      (by rw [construct_virtualRTCs]; exact List.mem_append_right _ List.mem_cons_self)
  · intro hraw
    rw [construct_eq]
    have hother : ∀ p, p ≠ dev → (s.put dev raw.init).device p = s.device p := fun p hp => by
      rw [put_device, if_neg hp]
    have hold : ∀ p ∈ s.virtualRTCs ++ [dev], p ≠ dev → p ∈ s.virtualRTCs := fun p hp hne =>
      (List.mem_append.mp hp).resolve_right fun h => hne (List.mem_singleton.mp h)
    refine ensureHardwareFrequency_synced ?_ (fun p hp => ?_) (fun p hp hne => ?_)
    · exact List.nodup_append_comm.mp (List.nodup_cons.mpr ⟨hnew, h.once⟩)
    · show IsRate ((s.put dev raw.init).device p).ourFreq
      by_cases hp' : p = dev
      · rw [hp', put_device, if_pos rfl]
        exact hraw
      · rw [hother p hp']
        exact h.rate p (hold p hp hp')
    · have hp' : p ≠ dev := fun hp' => hne (by rw [hp'])
      show ((((s.put dev raw.init).device p).numCountToTriggerRTC.toNat : Int) *
        ((s.put dev raw.init).device p).ourFreq.toInt) = s.hardwareRTCFrequency.toInt
      rw [hother p hp']
      exact h.count p (hold p hp hp')

/-! ## Close

  The deque is turned until the device is in front, and the front is dropped: the other devices
  stay, in another order. -/

/-- The loop ends, and takes out `dev`. -/
theorem rotateTo_done (rounds : Nat) : ∀ (l : List (BitVec 32)) (i : Nat), i < rounds →
    l[i]? = some dev → ∃ l', rotateTo dev rounds l = some l' ∧ (dev :: l').Perm l := by
  induction rounds with
  | zero =>
    intro l i hi
    omega
  | succ rounds ih =>
    intro l i hi hget
    cases l with
    | nil => cases hget
    | cons front rest =>
      rw [rotateTo]
      split
      · next hfront => exact ⟨rest, rfl, by rw [hfront]⟩
      · next hfront =>
        cases i with
        | zero => exact absurd (Option.some.inj hget) hfront
        | succ i =>
          have hrest : rest[i]? = some dev := hget
          obtain ⟨hlt, -⟩ := List.getElem?_eq_some_iff.mp hrest
          obtain ⟨l', hl', hperm⟩ := ih (rest ++ [front]) i (by omega)
            (by rw [List.getElem?_append_left hlt]; exact hrest)
          exact ⟨l', hl', hperm.trans (List.perm_append_singleton front rest)⟩

/-- The destructor takes the device out and then computes the maximum. -/
theorem removeFromVirtualRTCs_eq (hopen : dev ∈ s.virtualRTCs) : ∃ l,
    s.removeFromVirtualRTCs dev = some ({ s with virtualRTCs := l }.ensureHardwareFrequency none) ∧
    (dev :: l).Perm s.virtualRTCs := by
  obtain ⟨i, hget⟩ := List.mem_iff_getElem?.mp hopen
  obtain ⟨hlt, -⟩ := List.getElem?_eq_some_iff.mp hget
  obtain ⟨l, hl, hperm⟩ := rotateTo_done _ s.virtualRTCs i hlt hget
  refine ⟨l, ?_, hperm⟩
  rw [removeFromVirtualRTCs, hl]
  rfl

/-- **Close** takes out the device and keeps the frequencies fitting. -/
theorem Synced.remove (h : s.Synced) (hs : s.removeFromVirtualRTCs dev = some s')
    (hopen : dev ∈ s.virtualRTCs) : s'.Synced := by
  obtain ⟨l, hl, hperm⟩ := removeFromVirtualRTCs_eq hopen
  rw [hs] at hl
  cases hl
  have hmem : ∀ p ∈ l, p ∈ s.virtualRTCs :=
    fun p hp => hperm.mem_iff.mp (List.mem_cons_of_mem dev hp)
  refine ensureHardwareFrequency_synced ?_ (fun p hp => h.rate p (hmem p hp))
    (fun p hp _ => h.count p (hmem p hp))
  exact (List.nodup_cons.mp (hperm.nodup_iff.mpr h.once)).2

/-! ## The other calls

  A write is an `ensureHardwareFrequency` with one frequency changed; reads and ticks change
  counters that `Synced` does not speak of. -/

/-- `write` sets a frequency only if it is one of the timer's, and computes the maximum. -/
theorem Synced.write (h : s.Synced) {freq : BitVec 32} : (s.write dev freq).2.Synced := by
  rw [Rtc.write]
  split
  · exact h
  · next hne =>
    show (Rtc.ensureHardwareFrequency _ (some dev)).Synced
    have hfreq : IsRate freq := isRate_iff.mpr hne
    have hother : ∀ p, p ≠ dev →
        (s.put dev { s.device dev with ourFreq := freq }).device p = s.device p :=
      fun p hp => by rw [put_device, if_neg hp]
    refine ensureHardwareFrequency_synced h.once (fun p hp => ?_) (fun p hp hp' => ?_)
    · by_cases hp' : p = dev
      · rw [hp', put_device, if_pos rfl]
        exact hfreq
      · rw [hother p hp']
        exact h.rate p hp
    · rw [hother p fun heq => hp' (by rw [heq])]
      exact h.count p hp

/-- `read` changes whether a thread waits, -/
theorem Synced.read (h : s.Synced) (current : Pid) : (s.read dev current).Synced := by
  rw [Rtc.read]
  dsimp only
  split
  all_goals
    refine h.congr rfl rfl fun p => ?_
    dsimp only
    rw [put_device]
    split
    · next hp => rw [hp]; exact ⟨rfl, rfl⟩
    · exact ⟨rfl, rfl⟩

/-- and a tick how far a device has counted; -/
theorem Synced.trigger (h : s.Synced) (dev : BitVec 32) : (s.trigger dev).Synced := by
  have hput : (s.put dev (s.device dev).triggerIfPossible.1).Synced := by
    refine h.congr rfl rfl fun p => ?_
    rw [put_device]
    split
    · next hp => rw [hp]; exact triggerIfPossible_keeps
    · exact ⟨rfl, rfl⟩
  rw [Rtc.trigger]
  dsimp only
  split
  · exact hput.congr rfl rfl fun p => ⟨rfl, rfl⟩
  · exact hput

/-- so does an interrupt, for all devices. -/
theorem Synced.handler (h : s.Synced) : s.handler.Synced := by
  have hall : ∀ (l : List (BitVec 32)) (s : Rtc), s.Synced → (l.foldl Rtc.trigger s).Synced := by
    intro l
    induction l with
    | nil => exact fun s h => h
    | cons dev l ih => exact fun s h => ih _ (h.trigger dev)
  exact hall s.virtualRTCs s h

/-! ## Runs -/

/-- Right after open, the device has 2 Hz. -/
def OpensAt2Hz (s : Rtc) : Op → Prop
  | .open dev _ _ => (s.device dev).ourFreq.toInt = 2
  | _ => True

/-- A device is opened in memory that holds a 2 where its frequency will be. -/
def Op.Fresh : Op → Prop
  | .open _ raw _ => raw.ourFreq = 2
  | _ => True

/-- Every possible call returns. -/
theorem step_ends {op : Op} (hop : s.Possible op) : ∃ s', s.step op = some s' := by
  cases op with
  | close dev =>
    obtain ⟨l, hl, -⟩ := removeFromVirtualRTCs_eq hop
    exact ⟨_, hl⟩
  | «open» dev raw stack => exact ⟨_, rfl⟩
  | read dev current => exact ⟨_, rfl⟩
  | write dev freq => exact ⟨_, rfl⟩
  | interrupt => exact ⟨_, rfl⟩

/-- A call keeps the frequencies fitting, and opens at 2 Hz, unless it opens a device in memory
    that held something else. -/
theorem Synced.step_iff (h : s.Synced) {op : Op} (hop : s.Possible op) (hs : s.step op = some s') :
    (s'.Synced ∧ s'.OpensAt2Hz op) ↔ op.Fresh := by
  cases op with
  | «open» dev raw stack =>
    cases hs
    show _ ∧ ((s.construct dev raw stack).device dev).ourFreq.toInt = 2 ↔ raw.ourFreq = 2
    rw [construct_ourFreq, h.construct_iff hop]
    constructor
    · exact fun ⟨_, h2⟩ => BitVec.eq_of_toInt_eq h2
    · exact fun h2 => ⟨h2 ▸ IsRate.two, by rw [h2]; rfl⟩
  | close dev => exact iff_of_true ⟨h.remove hs hop, trivial⟩ trivial
  | read dev current =>
    cases hs
    exact iff_of_true ⟨h.read current, trivial⟩ trivial
  | write dev freq =>
    cases hs
    exact iff_of_true ⟨h.write, trivial⟩ trivial
  | interrupt =>
    cases hs
    exact iff_of_true ⟨h.handler, trivial⟩ trivial

/-- The invariant of every run in which the devices are opened in fresh memory. -/
theorem synced_of_reach (hr : Reach rtcMachine (fun s op => s.Possible op ∧ op.Fresh) s) :
    s.Synced :=
  hr.invariant (I := Synced) (fun _ h => Booted.synced h)
    fun _ _ _ h hok hs => ((Synced.step_iff h hok.1 hs).mpr hok.2).1

/-- **When the frequencies fit.**  In a run that opens devices only in memory that holds the right
    frequency already they do; every call returns; and a further one keeps that, and opens at 2 Hz,
    exactly if it is of the kind. -/
theorem synced_iff (hr : Reach rtcMachine (fun s op => s.Possible op ∧ op.Fresh) s) :
    s.Synced ∧ ∀ op, s.Possible op → ∃ s', s.step op = some s' ∧
      ((s'.Synced ∧ s'.OpensAt2Hz op) ↔ op.Fresh) := by
  have h := synced_of_reach hr
  refine ⟨h, fun op hop => ?_⟩
  obtain ⟨s', hs⟩ := step_ends hop
  exact ⟨s', hs, h.step_iff hop hs⟩

/-- The driver at boot. -/
def boot : Rtc where
  virtualRTCs := []
  device _ := ⟨0, 0, 0, false, 0, 0⟩
  hardwareRTCFrequency := 0
  statusA := 0x26
  reader _ := ⟨.Running, 0⟩

/-- A device is opened in memory left by another of 2 Hz, and set to 1024 Hz. -/
theorem synced_iff_written :
    ∃ s', (boot.construct 0x1000 ⟨7, 1, 3, true, 2, 5⟩ 0).step (.write 0x1000 1024) = some s' ∧
    s'.Synced := by
  have h₀ : Reach rtcMachine (fun s op => s.Possible op ∧ op.Fresh) boot := .init ⟨rfl, rfl⟩
  have hop : boot.Possible (.open 0x1000 ⟨7, 1, 3, true, 2, 5⟩ 0) := List.not_mem_nil
  have h₁ := h₀.step ⟨hop, rfl⟩ rfl
  obtain ⟨s', hs, hiff⟩ := (synced_iff h₁).2 (.write 0x1000 1024)
    (show _ ∈ Rtc.virtualRTCs _ by rw [construct_virtualRTCs]; exact List.mem_cons_self)
  exact ⟨s', hs, (hiff.mpr trivial).1⟩

/-- A device opened in memory full of zeros has frequency 0. -/
theorem opened_at_zero : ∃ s, Reach rtcMachine Possible s ∧ ¬ s.Synced := by
  have h₀ : Reach rtcMachine Possible boot := .init ⟨rfl, rfl⟩
  have hop : boot.Possible (.open 0x1000 ⟨0, 0, 0, false, 0, 0⟩ 0) := List.not_mem_nil
  refine ⟨_, h₀.step hop rfl, fun hsynced => ?_⟩
  have hrate := ((Booted.synced (s := boot) ⟨rfl, rfl⟩).construct_iff hop).mp hsynced
  exact absurd hrate.pos (by decide)

end Driver

end Rtc

end TedkOS.Drivers
