/-
  Open files (fs/filesystem.cpp) and the devices behind /dev (fs/devfs.cpp, drivers/): what `read`
  and `fstat` of a file write through the caller's pointer.

  A device may keep the caller waiting and fill its buffer later, when a key or a disk interrupt
  comes.  What the interrupt brings is part of the `Env`, and the stores of a call are all those
  made for it, the late ones too.

  As for the file system, the part of the buffer a read writes is known before the call
  (`File.readLength`, `File.read_covers`).
-/
import TedkOS.Fs.KissFS

namespace TedkOS.Fs

open Klibs

def EFOPS : BitVec 32 := 1

/-- What the rest of the machine contributes to one call. -/
structure Env where
  /-- Memory before the call. -/
  mem : BitVec 32 → BitVec 8
  /-- The characters the terminal holds when an Enter ends the wait, if one does. -/
  enter : Option (List (BitVec 8))
  /-- The real-time clock fires. -/
  tick : Bool
  dma_init : Bool
  /-- `new char[bufferSize]` finds the memory. -/
  newBuffer : BitVec 32 → Bool
  /-- What the disk answers, if it does: an error or the data. -/
  disk : Option (Option (Nat → BitVec 8))

/-! ## The terminal -/

/-- `Term`, as far as `read` and `vidmap` use it; `term_buf` holds the characters below
    `term_buf_pos`. -/
structure Term where
  OwnedByPid : BitVec 32
  term_buf : List (BitVec 8)
  UserWaitingRead : Bool
  UserWaitingBuffer : BitVec 32
  UserWaitingLen : BitVec 32
  /-- The thread that owns the painter's vidmap, by its process. -/
  vidmapOwner : Option (BitVec 32)

namespace Term

variable (t : Term)

def helpFinishRead (buffer nbytes : BitVec 32) : Outcome Term :=
  if buffer = 0 then ⟨.value (-EFOPS), [], t⟩
  else
    let copylen := if nbytes.toNat < t.term_buf.length then nbytes.toNat else t.term_buf.length
    ⟨.value (BitVec.ofNat 32 copylen), memcpy 0 (t.term_buf.take copylen),
      { t with term_buf := [] }⟩

/-- The rest of `read`, once the caller owns the terminal. -/
def readOwned (enter : Option (List (BitVec 8))) (buf nbytes : BitVec 32) : Outcome Term :=
  -- If currently buffer is not enough, wait.
  if t.term_buf.length < nbytes.toNat then
    let t := { t with UserWaitingRead := true, UserWaitingBuffer := buf, UserWaitingLen := nbytes }
    match enter with
    | none => ⟨.blocked none, [], t⟩
    | some line =>
      let r := helpFinishRead { t with UserWaitingRead := false, term_buf := line } buf nbytes
      match r.ret with
      | .value eax => { r with ret := .blocked (some eax) }
      | _ => r
  else t.helpFinishRead buf nbytes

/-- `Term::read` by process `pid`. -/
def read (enter : Option (List (BitVec 8))) (pid buf nbytes : BitVec 32) : Outcome Term :=
  if t.OwnedByPid = -1 then
    readOwned { t with OwnedByPid := pid, UserWaitingRead := false } enter buf nbytes
  else if t.OwnedByPid ≠ pid then ⟨.value (-EFOPS), [], t⟩
  else t.readOwned enter buf nbytes

/-- The bytes `read` writes: all that were asked for if they are there, else what the Enter
    brings. -/
def readLength (enter : Option (List (BitVec 8))) (pid nbytes : BitVec 32) : Nat :=
  if t.OwnedByPid ≠ -1 ∧ t.OwnedByPid ≠ pid then 0
  else if t.term_buf.length < nbytes.toNat then
    min nbytes.toNat (enter.getD []).length
  else nbytes.toNat

end Term

/-! ## Disks -/

def ATA_SECTOR_SIZE : Nat := 512

/-- The buffer of a transfer, in whole pages. -/
def bufferSize (nbytes : BitVec 32) : BitVec 32 :=
  if nbytes.toNat % 0x1000 ≠ 0 then BitVec.ofNat 32 ((nbytes.toNat / 0x1000 + 1) * 0x1000)
    else nbytes

/-- `dma_begin_read_sector` for a handle at `currOffset`, with its callback. -/
def dma_begin_read_sector (env : Env) (currOffset nbytes : BitVec 32) : Outcome (BitVec 32) :=
  if !env.dma_init then ⟨.value (-EFOPS), [], currOffset⟩
  else if nbytes.toNat % ATA_SECTOR_SIZE ≠ 0 then ⟨.value (-EFOPS), [], currOffset⟩
  else if !env.newBuffer (bufferSize nbytes) then ⟨.exception, [], currOffset⟩
  else
    let zeros := memset 0 0 nbytes.toNat
    match env.disk with
    | none => ⟨.blocked none, zeros, currOffset⟩
    | some none => ⟨.blocked (some (-EFOPS)), zeros, currOffset⟩
    | some (some dma_buffer) =>
      ⟨.blocked (some nbytes), zeros ++ memcpy 0 ((List.range nbytes.toNat).map dma_buffer),
        currOffset + nbytes⟩

/-- `ata::FOps::read`. -/
def ataRead (env : Env) (currOffset bytes : BitVec 32) : Outcome (BitVec 32) :=
  -- Cannot read more than 1MB at one time, that's too much memory.
  if (BitVec.ofNat 32 (1024 * 1024)).slt bytes then ⟨.value (-EFOPS), [], currOffset⟩
  else dma_begin_read_sector env currOffset bytes

/-- Nothing keeps the transfer from starting. -/
def ataStarts (env : Env) (bytes : BitVec 32) : Bool :=
  !(BitVec.ofNat 32 (1024 * 1024)).slt bytes && env.dma_init &&
    decide (bytes.toNat % ATA_SECTOR_SIZE = 0) && env.newBuffer (bufferSize bytes)

/-- The bytes `ataRead` writes: all of them, once the transfer starts. -/
def ataReadLength (env : Env) (bytes : BitVec 32) : Nat :=
  if ataStarts env bytes then bytes.toNat else 0

/-! ## Devices -/

/-- The open devices, with the state of their own that `read` uses. -/
inductive IFOps where
  | keyb
  | term
  | rtc (backlog : BitVec 32)
  | ata (currOffset : BitVec 32)

/-- `read` of an open device by process `pid`, whose terminal is `currTerm`. -/
def IFOps.read (env : Env) (currTerm : Option Term) (pid buf bytes : BitVec 32) :
    IFOps → Outcome (IFOps × Option Term)
  | keyb =>
    match currTerm with
    | none => ⟨.value (-EFOPS), [], keyb, currTerm⟩
    | some t =>
      let r := t.read env.enter pid buf bytes
      ⟨r.ret, r.stores, keyb, some r.next⟩
  | term => ⟨.value (-EFOPS), [], term, currTerm⟩
  | rtc backlog =>
    if (0#32).slt backlog then ⟨.value 0, [], rtc (backlog - 1), currTerm⟩
    else ⟨.blocked (if env.tick then some 0 else none), [], rtc backlog, currTerm⟩
  | ata currOffset =>
    let r := ataRead env currOffset bytes
    ⟨r.ret, r.stores, ata r.next, currTerm⟩

def IFOps.readLength (env : Env) (currTerm : Option Term) (pid bytes : BitVec 32) : IFOps → Nat
  | keyb => match currTerm with
    | none => 0
    | some t => t.readLength env.enter pid bytes
  | ata _ => ataReadLength env bytes
  | _ => 0

/-! ## Files -/

/-- Which file system an open file is on, and what that keeps for it. -/
inductive FsSpecificData where
  | kissFS (data : KissFileDescriptorData)
  | devFS (data : IFOps)

structure File where
  offset : BitVec 32
  fsSpecificData : FsSpecificData

/-- What the kernel itself gets from a call that returns; one that sleeps returns 0 to it. -/
def returned : Ret → Option (BitVec 32)
  | .value result => some result
  | .blocked _ => some 0
  | .exception => none

/-- The offset after `theDispatcher` got `ret` from the file system: a sleeping call returns 0 to
    it. -/
def advance (offset : BitVec 32) : Ret → BitVec 32
  | .value result => if result = -1 then offset else offset + result
  | _ => offset

/-- `theDispatcher->read(fd, buf, nbytes)`. -/
def File.read (fs : KissFS) (env : Env) (currTerm : Option Term) (pid buf nbytes : BitVec 32)
    (fd : File) : Outcome (File × Option Term) :=
  match fd.fsSpecificData with
  | .kissFS data =>
    let r := fs.read data (fun i => env.mem (buf + BitVec.ofNat 32 i)) fd.offset nbytes
    ⟨r.ret, r.stores, ⟨advance fd.offset r.ret, .kissFS r.next⟩, currTerm⟩
  | .devFS data =>
    let r := data.read env currTerm pid buf nbytes
    ⟨r.ret, r.stores, ⟨advance fd.offset r.ret, .devFS r.next.1⟩, r.next.2⟩

/-- The bytes a read of the file writes. -/
def File.readLength (fs : KissFS) (env : Env) (currTerm : Option Term) (pid nbytes : BitVec 32)
    (fd : File) : Nat :=
  match fd.fsSpecificData with
  | .kissFS data => fs.readLength data fd.offset nbytes
  | .devFS data => data.readLength env currTerm pid nbytes

/-- `theDispatcher->fstat(fd, st)`; a device is assumed to be a character device. -/
def File.fstat (fs : KissFS) (fd : File) : List (Nat × BitVec 8) :=
  match fd.fsSpecificData with
  | .kissFS data => fs.fstat data
  | .devFS _ => memcpy st_mode (wordBytes S_IFCHR)

/-- A regular file also gets its size reported. -/
def File.regular (fd : File) : Bool :=
  match fd.fsSpecificData with
  | .kissFS data => data.filetype.toNat ≠ DIRECTORY && data.filetype.toNat ≠ SPECIAL_DEVICE
  | .devFS _ => false

/-! ## How much of the buffer is written

  For each kind of file, by what it does when it is read; where the reader is woken later, by
  what it is woken with. -/

theorem Term.helpFinishRead_covers (t : Term) {buffer : BitVec 32} (hbuf : buffer ≠ 0)
    (nbytes : BitVec 32) :
    Covers (t.helpFinishRead buffer nbytes).stores (min nbytes.toNat t.term_buf.length) := by
  unfold helpFinishRead
  rw [if_neg hbuf]
  have h := Covers.memcpy
    (t.term_buf.take (if nbytes.toNat < t.term_buf.length then nbytes.toNat else t.term_buf.length))
  have hlen : (t.term_buf.take (if nbytes.toNat < t.term_buf.length then nbytes.toNat
      else t.term_buf.length)).length = min nbytes.toNat t.term_buf.length := by
    rw [List.length_take]
    split <;> omega
  rw [hlen] at h
  exact h

theorem Term.readOwned_covers (t : Term) (enter : Option (List (BitVec 8))) {buf : BitVec 32}
    (hbuf : buf ≠ 0) (nbytes : BitVec 32) :
    Covers (t.readOwned enter buf nbytes).stores
      (if t.term_buf.length < nbytes.toNat then min nbytes.toNat (enter.getD []).length
        else nbytes.toNat) := by
  unfold readOwned
  by_cases hwait : t.term_buf.length < nbytes.toNat
  · rw [if_pos hwait, if_pos hwait]
    cases enter with
    | none => simpa using Covers.nil
    | some line =>
      have h := helpFinishRead_covers { t with
        UserWaitingRead := false, UserWaitingBuffer := buf, UserWaitingLen := nbytes,
        term_buf := line } hbuf nbytes
      simp only [Option.getD_some]
      split <;> exact h
  · rw [if_neg hwait, if_neg hwait]
    have h := t.helpFinishRead_covers hbuf nbytes
    rwa [Nat.min_eq_left (by omega)] at h

theorem Term.read_covers (t : Term) (enter : Option (List (BitVec 8))) (pid : BitVec 32)
    {buf : BitVec 32} (hbuf : buf ≠ 0) (nbytes : BitVec 32) :
    Covers (t.read enter pid buf nbytes).stores (t.readLength enter pid nbytes) := by
  unfold read readLength
  by_cases hfree : t.OwnedByPid = -1
  · rw [if_pos hfree, if_neg (by simp [hfree])]
    exact readOwned_covers { t with OwnedByPid := pid, UserWaitingRead := false } enter hbuf nbytes
  · rw [if_neg hfree]
    by_cases hown : t.OwnedByPid = pid
    · rw [if_neg (by simp [hown]), if_neg (by simp [hown])]
      exact t.readOwned_covers enter hbuf nbytes
    · rw [if_pos hown, if_pos ⟨hfree, hown⟩]
      exact Covers.nil

theorem ataRead_covers (env : Env) (currOffset bytes : BitVec 32) :
    Covers (ataRead env currOffset bytes).stores (ataReadLength env bytes) := by
  have hzeros : Covers (memset 0 0 bytes.toNat) bytes.toNat := by
    have h := Covers.memcpy (List.replicate bytes.toNat 0)
    rwa [List.length_replicate] at h
  have hdata : ∀ d : Nat → BitVec 8,
      Covers (memcpy 0 ((List.range bytes.toNat).map d)) bytes.toNat := by
    intro d
    have h := Covers.memcpy ((List.range bytes.toNat).map d)
    rwa [List.length_map, List.length_range] at h
  have hidle : ataStarts env bytes = false → Covers [] (ataReadLength env bytes) := by
    intro h
    rw [ataReadLength, h]
    exact Covers.nil
  unfold ataRead dma_begin_read_sector
  split
  · next hbig => exact hidle (by simp [ataStarts, hbig])
  split
  · next hdma => exact hidle (by simp_all [ataStarts])
  split
  · next hsec => exact hidle (by simp [ataStarts, hsec])
  split
  · next hnew => exact hidle (by simp_all [ataStarts])
  next hbig hdma hsec hnew =>
  have hstarts : ataStarts env bytes = true := by simp_all [ataStarts]
  rw [ataReadLength, if_pos hstarts]
  rcases env.disk with _ | _ | d
  · exact hzeros
  · exact hzeros
  · exact hzeros.append_over (hdata d)

/-- **A read of any open file fills the buffer up to `readLength`**, and stores nothing beyond,
    before or after the caller sleeps. -/
theorem File.read_covers (fs : KissFS) (env : Env) (currTerm : Option Term) (pid : BitVec 32)
    {buf : BitVec 32} (hbuf : buf ≠ 0) (nbytes : BitVec 32) (fd : File) :
    Covers (fd.read fs env currTerm pid buf nbytes).stores
      (fd.readLength fs env currTerm pid nbytes) := by
  unfold File.read File.readLength
  cases fd.fsSpecificData with
  | kissFS data => exact fs.read_covers data _ fd.offset nbytes
  | devFS data =>
    cases data with
    | keyb =>
      cases currTerm with
      | none => exact Covers.nil
      | some t => exact t.read_covers env.enter pid hbuf nbytes
    | term => exact Covers.nil
    | rtc backlog =>
      show Covers (IFOps.read env currTerm pid buf nbytes (.rtc backlog)).stores 0
      unfold IFOps.read
      simp only
      split <;> exact Covers.nil
    | ata currOffset => exact ataRead_covers env currOffset nbytes

/-- `fstat` writes the mode of every file and the size of a regular one. -/
theorem File.fstat_covers (fs : KissFS) (fd : File) (i : Nat) :
    (∃ b, (i, b) ∈ fd.fstat fs) ↔
      (st_mode ≤ i ∧ i < st_mode + 4) ∨ (fd.regular = true ∧ st_size ≤ i ∧ i < st_size + 4) := by
  have hmode : ∀ w : BitVec 32, (∃ b, (i, b) ∈ memcpy st_mode (wordBytes w)) ↔
      st_mode ≤ i ∧ i < st_mode + 4 := fun w => mem_memcpy
  have hsize : ∀ w : BitVec 32, (∃ b, (i, b) ∈ memcpy st_size (wordBytes w)) ↔
      st_size ≤ i ∧ i < st_size + 4 := fun w => mem_memcpy
  unfold File.fstat File.regular
  cases fd.fsSpecificData with
  | devFS data => simp [hmode]
  | kissFS data =>
    unfold KissFS.fstat
    by_cases hdir : data.filetype.toNat = DIRECTORY
    · simp [hdir, hmode]
    · by_cases hspec : data.filetype.toNat = SPECIAL_DEVICE
      · simp [hspec, hmode, DIRECTORY, SPECIAL_DEVICE]
      · simp [hdir, hspec, exists_or, hmode, hsize]

end TedkOS.Fs
