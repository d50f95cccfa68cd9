/-
  The sound card (drivers/sb16.cpp): who closes the file that is played?

  `play_wav` opens a file and closes it again wherever it gives up on the header; once playback has
  started, the interrupt handler closes it when the data run short.  Two paths do otherwise.  A
  header with another sample size than 8 or 16 bits makes `play_file` give up, after the last check
  of `play_wav`, and nobody closes the file.  And a handler that reads no byte at all resets the
  playback twice, so the file is closed twice.

  1. **Program** — `play_wav`, `play_file` and `sb16_handler`, with the ports left out.  `play_file`
     is in two parts, since the interrupts that come after `status.playing` was set already read the
     file.

  2. **Header** — `play_wav_eq`: `play_wav` is a check of the header, and what follows it.

  3. **Runs** — `playback_settled`: in a run that avoids the two paths every file is closed exactly
     once, and each of the two breaks it.

  The invariant is `Settled`: every file that has been opened is closed exactly once, but for the
  one that is played, which is open.  While a call is at work on a header the file is held and not
  yet played (`Holds`), and each way out of the call either closes it or goes on to play it.
-/
import TedkOS.Lib.Checked
import TedkOS.Lib.Handles
import TedkOS.Lib.Runs
import TedkOS.Syscalls.Process

namespace TedkOS.Drivers.Sb16

open Fs Klibs Checked Runs Syscalls

/-! ## The program -/

def CHUNK_SIZE : BitVec 32 := 0x4000
def DMA_BUFFER_SIZE : BitVec 32 := 0x8000

def STATUS_8BIT : BitVec 8 := 2
def STATUS_SIGNED : BitVec 8 := 4

def RIFF : BitVec 32 := 0x46464952
def WAVE : BitVec 32 := 0x45564157
def FMT : BitVec 32 := 0x20746D66
def DATA : BitVec 32 := 0x61746164
def FACT : BitVec 32 := 0x74636166

/-- `dma_buffer` has two halves. -/
inductive Block where
  | first_block
  | second_block

/-- `status` and `current_block`; `fd` is the file with the number of the `open` it came from, and
    null after an `open` that failed. -/
structure Playback where
  fd : Option (Nat × File)
  channel : BitVec 8
  mode : BitVec 8
  playing : Bool
  current_block : Block
  files : Handles
  /-- `play_file` has yet to read the first block. -/
  starting : Bool

/-- What the rest of the machine contributes to one event: the devices and the caller, where the
    buffers are, and what memory holds at a `new uint8_t[size]`, if there is any. -/
structure Surroundings where
  /-- The devices, -/
  env : Env
  buf : BitVec 32
  currTerm : Option Term
  pid : BitVec 32
  heap : BitVec 32 → Option (Nat → BitVec 8)

/-- How a call can go wrong. -/
inductive Fault where
  /-- A read through the null pointer of a file that was not opened. -/
  | nullPointer
  | exception
deriving DecidableEq

section Program

variable (fs : FileSystem) (u : Surroundings)

/-- `theDispatcher->read(status.fd, buf, len)`: the result and the stores. -/
def read (len : BitVec 32) (s : Playback) :
    Except Fault (BitVec 32 × List (Nat × BitVec 8) × Playback) :=
  match s.fd with
  | none => .error .nullPointer
  | some (id, file) =>
    let r := file.read fs.kissFS u.env u.currTerm u.pid u.buf len
    match returned r.ret with
    | none => .error .exception
    | some n => .ok (n, r.stores, { s with fd := some (id, r.next.1) })

/-- `theDispatcher->open(status.fd, filename)`. -/
def openFile (filename : List (BitVec 8)) (s : Playback) : Playback :=
  match fs.openPath filename with
  | none => { s with fd := none }
  | some data => { s with fd := some (s.files.opened, ⟨0, data⟩), files := s.files.acquire }

/-- `theDispatcher->close(status.fd)`; to delete a null pointer does nothing. -/
def close (s : Playback) : Playback :=
  match s.fd with
  | none => s
  | some (id, _) => { s with files := s.files.release id }

/-- `reset_playback()`. -/
def reset_playback (s : Playback) : Playback :=
  close { s with playing := false, current_block := .first_block }

/-- `sb16_stop_playback()`. -/
def sb16_stop_playback (s : Playback) : Playback := reset_playback s

/-- `wav_read_chunk_header()`: the id and the size of the chunk. -/
def wav_read_chunk_header (s : Playback) : Except Fault (BitVec 32 × BitVec 32 × Playback) := do
  let (n, stores, s) ← read fs u 8 s
  if n.slt 8 then return (0, 0, s)
  let buf := contents (fun _ => 0) stores
  let chunk_id := wordAt buf 0
  let data_size := wordAt buf 4
  if chunk_id = RIFF then
    let (_, stores, s) ← read fs u 4 s
    -- RIFF chunk is invalid
    if wordAt (contents (fun _ => 0) stores) 0 ≠ WAVE then return (0, 0, s)
    else return (chunk_id, data_size, s)
  else return (chunk_id, data_size, s)

def get_int16 (buf : Nat → BitVec 8) (offset : Nat) : BitVec 16 := buf (offset + 1) ++ buf offset

/-- `play_file(fd, bits, is_signed, sample_rate)` up to the first read. -/
def play_file (bits : BitVec 8) (is_signed : Bool) (s : Playback) : BitVec 32 × Playback :=
  if s.playing then (-1, s)
  else if bits ≠ 8 ∧ bits ≠ 16 then
    -- can only play 8 or 16bit audio
    (-1, s)
  else
    let s := if bits = 8 then { s with mode := s.mode ||| STATUS_8BIT, channel := 1 }
      else { s with channel := 5 }
    let s := { s with playing := true, starting := true }
    (0, if is_signed then { s with mode := s.mode ||| STATUS_SIGNED } else s)

/-- The rest of `play_file`. -/
def firstRead (s : Playback) : Except Fault Playback := do
  let (_, _, s) ← read fs u DMA_BUFFER_SIZE { s with current_block := .first_block }
  return { s with starting := false }

/-- `play_wav(filename)`, up to the first read. -/
def play_wav (filename : Option (List (BitVec 8))) (s : Playback) :
    Except Fault (BitVec 32 × Playback) := do
  match filename with
  | none => return (-1, s)
  | some filename =>
    if s.playing then return (-1, s)
    let s := openFile fs filename s
    let (chunk_id, _, s) ← wav_read_chunk_header fs u s
    if chunk_id ≠ RIFF then return (-1, close s)
    let (chunk_id, data_size, s) ← wav_read_chunk_header fs u s
    if chunk_id ≠ FMT then return (-1, close s)
    match u.heap data_size with
    | none => .error .exception
    | some held =>
      let (bytes_read, stores, s) ← read fs u data_size s
      if bytes_read < data_size then return (-1, close s)
      let format := contents held stores
      -- not uncompressed PCM format
      if get_int16 format 0 ≠ 1 then return (-1, close s)
      -- not mono sound
      if get_int16 format 2 ≠ 1 then return (-1, close s)
      let bits := (get_int16 format 0xE).setWidth 8
      let is_signed := decide (bits = 16)
      let (chunk_id, data_size, s) ← wav_read_chunk_header fs u s
      if chunk_id = FACT then
        match u.heap data_size with
        | none => .error .exception
        | some _ =>
          let (_, _, s) ← read fs u data_size s
          let (chunk_id, _, s) ← wav_read_chunk_header fs u s
          -- no data? oh no
          if chunk_id ≠ DATA then return (-1, close s)
          return play_file bits is_signed s
      else
        if chunk_id ≠ DATA then return (-1, close s)
        return play_file bits is_signed s

/-- `sb16_handler`. -/
def sb16_handler (s : Playback) : Except Fault Playback := do
  if s.playing then
    let (bytes_read, _, s) ← read fs u CHUNK_SIZE s
    if 0 < bytes_read then
      -- there are no more chunks after this one
      let s := if bytes_read < CHUNK_SIZE then reset_playback s else s
      return { s with current_block := match s.current_block with
        | .first_block => .second_block
        | .second_block => .first_block }
    else
      -- file has no more bytes left; we're done playing
      return sb16_stop_playback (reset_playback s)
  else return s

/-! ## The header

  `play_wav` reads the chunks of the header, and closes the file and gives up at the first that
  is not as it should be.  All these ways out are one function, `wavHeader`; then comes
  `play_file`, which has no way to close. -/

/-- What `play_wav` learns from an open file: the sample size and whether samples are signed, if it
    does not give the file up. -/
def wavHeader (s : Playback) : Except Fault (Option (BitVec 8 × Bool) × Playback) := do
  let (chunk_id, _, s) ← wav_read_chunk_header fs u s
  if chunk_id ≠ RIFF then return (none, s)
  let (chunk_id, data_size, s) ← wav_read_chunk_header fs u s
  if chunk_id ≠ FMT then return (none, s)
  match u.heap data_size with
  | none => .error .exception
  | some held =>
    let (bytes_read, stores, s) ← read fs u data_size s
    if bytes_read < data_size then return (none, s)
    let format := contents held stores
    if get_int16 format 0 ≠ 1 then return (none, s)
    if get_int16 format 2 ≠ 1 then return (none, s)
    let bits := (get_int16 format 0xE).setWidth 8
    let is_signed := decide (bits = 16)
    let (chunk_id, data_size, s) ← wav_read_chunk_header fs u s
    if chunk_id = FACT then
      match u.heap data_size with
      | none => .error .exception
      | some _ =>
        let (_, _, s) ← read fs u data_size s
        let (chunk_id, _, s) ← wav_read_chunk_header fs u s
        if chunk_id ≠ DATA then return (none, s)
        return (some (bits, is_signed), s)
    else
      if chunk_id ≠ DATA then return (none, s)
      return (some (bits, is_signed), s)

/-- The rest of `play_wav`. -/
def playOrClose : Option (BitVec 8 × Bool) × Playback → BitVec 32 × Playback
  | (none, s) => (-1, close s)
  | (some (bits, is_signed), s) => play_file bits is_signed s

variable {fs u}

/-- A check that gives the file up closes it. -/
theorem reject_eq {p : Prop} [Decidable p] {s : Playback}
    {x : Except Fault (Option (BitVec 8 × Bool) × Playback)}
    {y : Except Fault (BitVec 32 × Playback)} (h : y = playOrClose <$> x) :
    (if p then pure (-1, close s) else y) = playOrClose <$> (if p then pure (none, s) else x) := by
  split
  · rfl
  · exact h

/-- **`play_wav` is the check of the header** and then either the playback or one `close`. -/
theorem play_wav_eq (filename : List (BitVec 8)) {s : Playback} (hidle : s.playing = false) :
    play_wav fs u (some filename) s = playOrClose <$> wavHeader fs u (openFile fs filename s) := by
  unfold play_wav wavHeader
  dsimp only
  rw [hidle, if_neg Bool.false_ne_true, map_bind]
  refine bind_congr fun r => reject_eq ?_
  rw [map_bind]
  refine bind_congr fun r => reject_eq ?_
  cases u.heap r.2.1 with
  | none => rfl
  | some held =>
    dsimp only
    rw [map_bind]
    refine bind_congr fun r => reject_eq (reject_eq (reject_eq ?_))
    rw [map_bind]
    refine bind_congr fun r => ?_
    by_cases hfact : r.1 = FACT
    · rw [if_pos hfact, if_pos hfact]
      cases u.heap r.2.1 with
      | none => rfl
      | some held =>
        dsimp only
        rw [map_bind]
        refine bind_congr fun r => ?_
        rw [map_bind]
        exact bind_congr fun r => reject_eq rfl
    · rw [if_neg hfact, if_neg hfact]
      exact reject_eq rfl

end Program

/-! ## Runs -/

/-- A call, or what goes on by itself. -/
inductive SoundEvent where
  | play_wav (filename : Option (List (BitVec 8)))
  /-- `play_file` goes on. -/
  | firstRead
  | interrupt

/-- A call of `play_wav` comes after the one before has returned. -/
def SoundEvent.Enabled (s : Playback) : SoundEvent → Prop
  | play_wav _ => s.starting = false
  | firstRead => s.starting = true
  | interrupt => True

/-- What it does to the playback. -/
def SoundEvent.run (fs : FileSystem) (u : Surroundings) (s : Playback) :
    SoundEvent → Except Fault Playback
  | play_wav filename => Prod.snd <$> Sb16.play_wav fs u filename s
  | firstRead => Sb16.firstRead fs u s
  | interrupt => sb16_handler fs u s

/-- After `sb16_init`. -/
def initial : Playback := ⟨none, 1, 0, false, .first_block, Handles.start, false⟩

/-- Calls and interrupts in any order. -/
def sb16Machine (fs : FileSystem) : Machine Playback (SoundEvent × Surroundings) where
  init s := s = initial
  step s a s' := a.1.Enabled s ∧ a.1.run fs a.2 s = .ok s'

/-- The file that is played. -/
def Playback.played (s : Playback) : Option Nat := if s.playing then s.fd.map Prod.fst else none

/-- Every file opened so far was closed once, but for the one that is played, which was not. -/
def Settled (s : Playback) : Prop := s.files.Balanced s.played

/-- The event does not go wrong: an interrupt while a file is played finds a byte to read, and a
    header that is accepted says that a sample has 8 or 16 bits. -/
def Avoids (fs : FileSystem) (s : Playback) : SoundEvent × Surroundings → Prop
  | (.interrupt, u) => s.playing = true → ∀ r, read fs u CHUNK_SIZE s = .ok r → r.1 ≠ 0
  | (.play_wav (some filename), u) => s.playing = false → ∀ bits is_signed s',
    wavHeader fs u (openFile fs filename s) = .ok (some (bits, is_signed), s') →
    bits = 8 ∨ bits = 16
  | _ => True

/-! ### What a read leaves

  A read moves the position of a file and nothing else.  So the checks of the header, however
  many, are steps that leave the ownership of the file alone (`SameFile`). -/

/-- The same open file, and nothing else changed that matters to who closes it. -/
structure SameFile (s s' : Playback) : Prop where
  /-- The file is the one that was opened, -/
  fd : s'.fd.map Prod.fst = s.fd.map Prod.fst
  /-- and there is one; -/
  isSome : s'.fd.isSome = true
  /-- it is played, or not, as before; -/
  playing : s'.playing = s.playing
  /-- and none has been opened or closed. -/
  files : s'.files = s.files

section Steps

variable {fs : FileSystem} {u : Surroundings} {s s' s'' : Playback}

/-- The same as what is the same. -/
theorem SameFile.trans (h : SameFile s s') (h' : SameFile s' s'') : SameFile s s'' :=
  ⟨h'.fd.trans h.fd, h'.isSome, h'.playing.trans h.playing, h'.files.trans h.files⟩

/-- So the same file is played. -/
theorem SameFile.played (h : SameFile s s') : s'.played = s.played := by
  unfold Playback.played
  rw [h.playing, h.fd]

/-- Reading from a file leaves it open, -/
theorem read_same (len : BitVec 32) :
    Ensures (fun _ => True) (read fs u len s) fun r => SameFile s r.2.2 := by
  unfold read
  cases hfd : s.fd with
  | none => exact Ensures.fail trivial
  | some f =>
    obtain ⟨id, file⟩ := f
    dsimp only
    cases returned (file.read fs.kissFS u.env u.currTerm u.pid u.buf len).ret with
    | none => exact Ensures.fail trivial
    | some n => exact Ensures.pure ⟨by rw [hfd]; rfl, rfl, rfl, rfl⟩

/-- and so does reading a header of a chunk. -/
theorem header_same : Ensures (fun _ => True) (wav_read_chunk_header fs u s) fun r =>
    SameFile s r.2.2 := by
  unfold wav_read_chunk_header
  refine Ensures.bind (read_same 8) ?_
  rintro ⟨n, stores, s₁⟩ h₁
  refine Ensures.ite (fun _ => Ensures.pure h₁) fun _ => Ensures.ite (fun _ => ?_) fun _ =>
    Ensures.pure h₁
  refine Ensures.bind (read_same 4) ?_
  rintro ⟨n', stores', s₂⟩ h₂
  exact Ensures.ite (fun _ => Ensures.pure (h₁.trans h₂)) fun _ => Ensures.pure (h₁.trans h₂)

/-- The check of the header reads, and closes nothing. -/
theorem wavHeader_same : Ensures (fun _ => True) (wavHeader fs u s) fun r => SameFile s r.2 := by
  unfold wavHeader
  refine Ensures.bind header_same ?_
  rintro ⟨chunk_id, data_size, s₁⟩ h₁
  refine Ensures.ite (fun _ => Ensures.pure h₁) fun _ => Ensures.bind header_same ?_
  rintro ⟨chunk_id, data_size, s₂⟩ h₂
  refine Ensures.ite (fun _ => Ensures.pure (h₁.trans h₂)) fun _ => ?_
  dsimp only
  cases u.heap data_size with
  | none => exact Ensures.fail trivial
  | some held =>
    refine Ensures.bind (read_same _) ?_
    rintro ⟨bytes_read, stores, s₃⟩ h₃
    have h := (h₁.trans h₂).trans h₃
    refine Ensures.ite (fun _ => Ensures.pure h) fun _ =>
      Ensures.ite (fun _ => Ensures.pure h) fun _ =>
      Ensures.ite (fun _ => Ensures.pure h) fun _ => Ensures.bind header_same ?_
    rintro ⟨chunk_id, data_size, s₄⟩ h₄
    refine Ensures.ite (fun _ => ?_) fun _ =>
      Ensures.ite (fun _ => Ensures.pure (h.trans h₄)) fun _ => Ensures.pure (h.trans h₄)
    dsimp only
    cases u.heap data_size with
    | none => exact Ensures.fail trivial
    | some held' =>
      refine Ensures.bind (read_same _) ?_
      rintro ⟨n, stores, s₅⟩ h₅
      refine Ensures.bind header_same ?_
      rintro ⟨chunk_id, data_size, s₆⟩ h₆
      have h' := ((h.trans h₄).trans h₅).trans h₆
      exact Ensures.ite (fun _ => Ensures.pure h') fun _ => Ensures.pure h'

/-! ### Opening and closing

  The number of the times a file was opened is that of the times it was closed, and one more for
  the file that is open.  Closing the file that is held settles the account, and closing it again
  or forgetting it does not, whatever comes after within the event. -/

/-- The file that is open, whether or not it is played yet. -/
def Holds (s : Playback) : Prop := s.files.Balanced (s.fd.map Prod.fst)

/-- Who holds it is as before. -/
theorem SameFile.holds (h : SameFile s s') (hs : Holds s) : Holds s' := by
  unfold Holds
  rw [h.files, h.fd]
  exact hs

/-- Opening a file, while none is played, makes it the one that is held; or there is no such file
    and none is. -/
theorem openFile_holds (h : Settled s) (hidle : s.playing = false) (filename : List (BitVec 8)) :
    Holds (openFile fs filename s) ∧ (openFile fs filename s).playing = false := by
  have hnone : s.files.Balanced none := by
    unfold Settled Playback.played at h
    rwa [hidle, if_neg (by decide)] at h
  unfold openFile
  split
  · exact ⟨hnone, hidle⟩
  · exact ⟨hnone.acquire, hidle⟩

/-- **One `close`** of a file that is open. -/
theorem close_settled (h : Holds s) (hidle : s.playing = false) : Settled (close s) := by
  unfold Holds at h
  unfold close Settled Playback.played
  cases hfd : s.fd with
  | none =>
    rw [hfd] at h
    rw [hidle, if_neg (by decide)]
    exact h
  | some f =>
    rw [hfd] at h
    dsimp only
    rw [hidle, if_neg (by decide)]
    exact h.release

/-- The file that is played is held. -/
theorem Settled.holds (h : Settled s) (hplaying : s.playing = true) : Holds s := by
  unfold Settled Playback.played at h
  rwa [if_pos hplaying] at h

/-- **Another `close`** of a file that was closed. -/
theorem not_settled_of_again (h : Settled s) (hidle : s.playing = false) {id : Nat} {file : File}
    (hfd : s.fd = some (id, file)) (hid : id < s.files.opened) : ¬ Settled (reset_playback s) := by
  unfold Settled Playback.played at h
  rw [hidle, if_neg (by decide)] at h
  unfold reset_playback close Settled
  rw [hfd]
  exact h.not_closed_again hid _

/-- **A file that is open and not played** is forgotten. -/
theorem not_settled_of_forgotten (h : Holds s) (hsome : s.fd.isSome = true)
    (hidle : s.playing = false) : ¬ Settled s := by
  obtain ⟨f, hf⟩ := Option.isSome_iff_exists.mp hsome
  unfold Holds at h
  rw [hf] at h
  unfold Settled Playback.played
  rw [hidle, if_neg (by decide)]
  exact h.not_forgotten

/-! ### One event

  For every event, exactly when the account is settled after it.  An interrupt that reads some
  bytes or plays the last piece closes at most once; one that reads none closes twice. -/

/-- **An interrupt**: the file is closed with the last piece of the data, and once more after it. -/
theorem handler_settled_iff (h : Settled s) (hrun : sb16_handler fs u s = .ok s') :
    Settled s' ↔ Avoids fs s (.interrupt, u) := by
  unfold sb16_handler at hrun
  cases hplaying : s.playing with
  | false =>
    rw [hplaying, if_neg (by decide)] at hrun
    obtain rfl := Except.ok.inj hrun
    exact iff_of_true h fun hp => by
      rw [hplaying] at hp
      cases hp
  | true =>
    rw [hplaying, if_pos rfl] at hrun
    obtain ⟨⟨n, stores, s₁⟩, hread, hrest⟩ := bind_eq_ok.mp hrun
    have hsame : SameFile s s₁ := (read_same CHUNK_SIZE).value hread
    have hholds : Holds s₁ := hsame.holds (h.holds hplaying)
    dsimp only at hrest
    by_cases hn : 0 < n
    · rw [if_pos hn] at hrest
      obtain rfl := Except.ok.inj hrest
      refine iff_of_true ?_ fun _ r hr => ?_
      · split
        · exact close_settled hholds rfl
        · show s₁.files.Balanced s₁.played
          unfold Playback.played
          rw [hsame.playing, hplaying, if_pos rfl]
          exact hholds
      · obtain rfl := Except.ok.inj (hr.symm.trans hread)
        rintro rfl
        exact absurd hn (by decide)
    · rw [if_neg hn] at hrest
      obtain rfl := Except.ok.inj hrest
      refine iff_of_false ?_ fun havoid => ?_
      · -- the file is closed already when the card is stopped
        obtain ⟨⟨id, file⟩, hfd⟩ := Option.isSome_iff_exists.mp hsame.isSome
        have hheld : s₁.files.Balanced (some id) := by
          unfold Holds at hholds
          rwa [hfd] at hholds
        have hfirst : Settled (reset_playback s₁) := close_settled hholds rfl
        have hclosed : reset_playback s₁ = { s₁ with
            playing := false
            current_block := .first_block
            files := s₁.files.release id } := by
          unfold reset_playback close
          rw [hfd]
        have hagain : (reset_playback s₁).fd = some (id, file) := by rw [hclosed]; exact hfd
        refine not_settled_of_again hfirst (by rw [hclosed]) hagain ?_
        rw [hclosed]
        exact hheld.held id rfl
      · refine havoid hplaying _ hread (BitVec.eq_of_toNat_eq ?_)
        have hle := BitVec.le_def.mp (BitVec.not_lt.mp hn)
        exact Nat.le_zero.mp hle

/-- Playback starts with the file that is open. -/
theorem play_file_settled {bits : BitVec 8} {is_signed : Bool} (hbits : ¬ (bits ≠ 8 ∧ bits ≠ 16))
    (hidle : s.playing = false) (h : Holds s) : Settled (play_file bits is_signed s).2 := by
  have hplays : (play_file bits is_signed s).2.files = s.files ∧
      (play_file bits is_signed s).2.fd = s.fd ∧ (play_file bits is_signed s).2.playing = true := by
    unfold play_file
    rw [hidle, if_neg (by decide), if_neg hbits]
    cases is_signed with
    | true => split <;> exact ⟨rfl, rfl, rfl⟩
    | false => split <;> exact ⟨rfl, rfl, rfl⟩
  obtain ⟨hfiles, hfd, hplaying⟩ := hplays
  unfold Settled Playback.played
  rw [hfiles, hfd, hplaying, if_pos rfl]
  exact h

/-- A sample size that cannot be played leaves the file as it is. -/
theorem play_file_refuses {bits : BitVec 8} (hbits : bits ≠ 8 ∧ bits ≠ 16) (is_signed : Bool)
    (hidle : s.playing = false) : play_file bits is_signed s = (-1, s) := by
  unfold play_file
  rw [hidle, if_neg (by decide), if_pos hbits]

/-- **A call of `play_wav`**: the file is played or closed, but for a sample size of neither 8 nor
    16 bits. -/
theorem play_wav_settled_iff {filename : Option (List (BitVec 8))} (h : Settled s) {ret : BitVec 32}
    (hrun : play_wav fs u filename s = .ok (ret, s')) :
    Settled s' ↔ Avoids fs s (.play_wav filename, u) := by
  cases filename with
  | none =>
    obtain ⟨-, rfl⟩ := Prod.mk.inj (Except.ok.inj hrun)
    exact iff_of_true h trivial
  | some filename =>
    cases hplaying : s.playing with
    | true =>
      unfold play_wav at hrun
      simp only [hplaying, if_true] at hrun
      obtain ⟨-, rfl⟩ := Prod.mk.inj (Except.ok.inj hrun)
      exact iff_of_true h fun hp => by
        rw [hplaying] at hp
        cases hp
    | false =>
      -- the file is open, and not played yet; reading the header changes nothing about that
      rw [play_wav_eq filename hplaying] at hrun
      obtain ⟨hopen, hidle⟩ : Holds (openFile fs filename s) ∧
          (openFile fs filename s).playing = false :=
        openFile_holds h hplaying filename
      cases hheader : wavHeader fs u (openFile fs filename s) with
      | error e =>
        rw [hheader] at hrun
        cases hrun
      | ok r =>
        obtain ⟨fmt, s₁⟩ := r
        have hsame : SameFile (openFile fs filename s) s₁ := wavHeader_same.value hheader
        have hholds : Holds s₁ := hsame.holds hopen
        have hidle₁ : s₁.playing = false := hsame.playing.trans hidle
        rw [hheader] at hrun
        have hret : playOrClose (fmt, s₁) = (ret, s') := Except.ok.inj hrun
        unfold Avoids
        cases fmt with
        | none =>
          -- the header is refused, and the file closed
          obtain ⟨-, rfl⟩ := Prod.mk.inj hret
          refine iff_of_true (close_settled hholds hidle₁) fun _ bits is_signed s₂ hfmt => ?_
          rw [hheader] at hfmt
          cases hfmt
        | some fmt =>
          obtain ⟨bits, is_signed⟩ := fmt
          change play_file bits is_signed s₁ = (ret, s') at hret
          -- the header is accepted, and it is for `play_file` to take the file or leave it
          by_cases hbits : bits ≠ 8 ∧ bits ≠ 16
          · rw [play_file_refuses hbits is_signed hidle₁] at hret
            obtain ⟨-, rfl⟩ := Prod.mk.inj hret
            refine iff_of_false (not_settled_of_forgotten hholds hsame.isSome hidle₁) fun havoid =>
              ?_
            rcases havoid hplaying _ _ _ hheader with h8 | h16
            · exact hbits.1 h8
            · exact hbits.2 h16
          · have hs' : s' = (play_file bits is_signed s₁).2 := (congrArg Prod.snd hret).symm
            rw [hs']
            refine iff_of_true (play_file_settled hbits hidle₁ hholds)
              fun _ bits' is_signed' s₂ hfmt => ?_
            rw [hheader] at hfmt
            cases hfmt
            by_contra hnot
            exact hbits (not_or.mp hnot)

/-- What `play_file` does after the playback has started leaves the file to the handler. -/
theorem firstRead_settled (h : Settled s) (hrun : firstRead fs u s = .ok s') : Settled s' := by
  obtain ⟨⟨n, stores, s₁⟩, hread, hrest⟩ := bind_eq_ok.mp hrun
  have hsame : SameFile { s with current_block := .first_block } s₁ :=
    (read_same DMA_BUFFER_SIZE).value hread
  obtain rfl := Except.ok.inj hrest
  show s₁.files.Balanced s₁.played
  rw [hsame.played, hsame.files]
  exact h

/-- **One event** keeps the account exactly if it does not go wrong. -/
theorem step_settled_iff {a : SoundEvent × Surroundings} (h : Settled s)
    (hstep : (sb16Machine fs).step s a s') : Settled s' ↔ Avoids fs s a := by
  obtain ⟨e, u⟩ := a
  obtain ⟨-, hrun⟩ := hstep
  cases e with
  | play_wav filename =>
    change Prod.snd <$> play_wav fs u filename s = .ok s' at hrun
    cases hplay : play_wav fs u filename s with
    | error e =>
      rw [hplay] at hrun
      cases hrun
    | ok r =>
      obtain ⟨ret, s₁⟩ := r
      rw [hplay] at hrun
      obtain rfl : s₁ = s' := Except.ok.inj hrun
      exact play_wav_settled_iff h hplay
  | firstRead => exact iff_of_true (firstRead_settled h hrun) trivial
  | interrupt => exact handler_settled_iff h hrun

end Steps

/-- **Every file is closed once**, in every run whose events do not go wrong; and there every event
    that does leaves a file open for ever, or closes it twice. -/
theorem playback_settled {fs : FileSystem} {s : Playback}
    (hr : Reach (sb16Machine fs) (Avoids fs) s) :
    Settled s ∧ ∀ a s', (sb16Machine fs).step s a s' → (Settled s' ↔ Avoids fs s a) := by
  have h : Settled s := by
    refine hr.invariant ?_ fun s a s' h hok hstep => (step_settled_iff h hstep).mpr hok
    rintro s rfl
    exact Handles.Balanced.start
  exact ⟨h, fun a s' hstep => step_settled_iff h hstep⟩

/-- A wave file of 8-bit mono sound, without any data. -/
def waveFile : List (BitVec 8) :=
  [0x52, 0x49, 0x46, 0x46, 0x24, 0, 0, 0, 0x57, 0x41, 0x56, 0x45, 0x66, 0x6d, 0x74, 0x20, 0x10, 0,
    0, 0, 1, 0, 1, 0, 0x40, 0x1f, 0, 0, 0x40, 0x1f, 0, 0, 1, 0, 8, 0, 0x64, 0x61, 0x74, 0x61,
    0, 0, 0, 0]

/-- A disk on which every name leads to it. -/
def waveEverywhere : FileSystem where
  kissFS :=
    { dentries := fun _ => ⟨fun _ => 0, 0, 0⟩
      inodes := fun _ => ⟨44, fun _ => 0, 1⟩
      numInodes := 1
      numTotalDataBlocks := 1
      image := fun a => waveFile.getD (a.toNat - 0x2000) 0
      numBlocks := 3 }
  openPath _ := some (.kissFS ⟨BitVec.ofNat 8 NORMAL_FILE, 0, fun _ => ⟨fun _ => 0, 0, 0⟩, 0, 0⟩)

/-- A machine without devices, and with memory enough. -/
def surroundings : Surroundings :=
  ⟨⟨fun _ => 0, none, false, false, fun _ => false, none⟩, 0x100000, none, 0,
    fun _ => some fun _ => 0⟩

/-- What happens there: it is played, and the first interrupt finds nothing to read. -/
theorem wave_runs : ∃ s₁ s₂ s₃,
    SoundEvent.run waveEverywhere surroundings initial (.play_wav (some [0x61])) = .ok s₁ ∧
    s₁.starting = true ∧ SoundEvent.run waveEverywhere surroundings s₁ .firstRead = .ok s₂ ∧
    s₂.playing = true ∧ SoundEvent.run waveEverywhere surroundings s₂ .interrupt = .ok s₃ ∧
    s₃.files.opened = 1 ∧ s₃.files.closes 0 = 2 := by
  have hall : (do
      let s₁ ← SoundEvent.run waveEverywhere surroundings initial (.play_wav (some [0x61]))
      let s₂ ← SoundEvent.run waveEverywhere surroundings s₁ .firstRead
      let s₃ ← SoundEvent.run waveEverywhere surroundings s₂ .interrupt
      return (s₁.starting, s₂.playing, s₃.files.opened, s₃.files.closes 0)) =
        .ok (true, true, 1, 2) := by
    decide +kernel
  obtain ⟨s₁, h₁, hrest⟩ := bind_eq_ok.mp hall
  obtain ⟨s₂, h₂, hrest⟩ := bind_eq_ok.mp hrest
  obtain ⟨s₃, h₃, hend⟩ := bind_eq_ok.mp hrest
  have heq := Except.ok.inj hend
  simp only [Prod.mk.injEq] at heq
  obtain ⟨hstarting, hplaying, hopened, htwice⟩ := heq
  exact ⟨s₁, s₂, s₃, h₁, hstarting, h₂, hplaying, h₃, hopened, htwice⟩

/-- While it is played it is the file that is open. -/
theorem playback_settled_playing :
    ∃ s, Reach (sb16Machine waveEverywhere) (Avoids waveEverywhere) s ∧ s.playing = true ∧
    Settled s := by
  obtain ⟨s₁, s₂, -, h₁, hstarting, h₂, hplaying, -⟩ := wave_runs
  have hbits :
      (wavHeader waveEverywhere surroundings (openFile waveEverywhere [0x61] initial)).toOption.map
      Prod.fst = some (some (8, false)) := by decide +kernel
  have havoids : Avoids waveEverywhere initial (.play_wav (some [0x61]), surroundings) := by
    intro _ bits is_signed s' hheader
    rw [hheader] at hbits
    exact Or.inl (congrArg Prod.fst (Option.some.inj (Option.some.inj hbits)))
  have hr₁ : Reach (sb16Machine waveEverywhere) (Avoids waveEverywhere) s₁ :=
    .step (.init rfl) havoids ⟨rfl, h₁⟩
  have hr₂ : Reach (sb16Machine waveEverywhere) (Avoids waveEverywhere) s₂ :=
    .step (a := (.firstRead, surroundings)) hr₁ trivial ⟨hstarting, h₂⟩
  exact ⟨s₂, hr₂, hplaying, (playback_settled hr₂).1⟩

/-- **The file without data** is closed twice. -/
theorem wave_closed_twice : ¬ ∀ (fs : FileSystem) (s : Playback),
    Reach (sb16Machine fs) (fun _ _ => True) s → Settled s := by
  intro h
  obtain ⟨s₁, s₂, s₃, h₁, hstarting, h₂, -, h₃, hopened, htwice⟩ := wave_runs
  have hr₁ : Reach (sb16Machine waveEverywhere) (fun _ _ => True) s₁ :=
    .step (a := (.play_wav (some [0x61]), surroundings)) (.init rfl) trivial ⟨rfl, h₁⟩
  have hr₂ : Reach (sb16Machine waveEverywhere) (fun _ _ => True) s₂ :=
    .step (a := (.firstRead, surroundings)) hr₁ trivial ⟨hstarting, h₂⟩
  have hr₃ : Reach (sb16Machine waveEverywhere) (fun _ _ => True) s₃ :=
    .step (a := (.interrupt, surroundings)) hr₂ trivial ⟨trivial, h₃⟩
  have hclosed := (h waveEverywhere s₃ hr₃).closes 0 (by rw [hopened]; decide)
  rw [htwice] at hclosed
  split at hclosed <;> cases hclosed

end TedkOS.Drivers.Sb16
