/-
  Moving in an open file (fs/filesystem.cpp, `Dispatcher::lseek`).

  The offset is unsigned, the displacement and the result are signed, and all have 32 bits.  `lseek`
  adds without a check and stores the sum before anything could be rejected, so
    1. a sum that is out of the range of the result is wrong, as an offset or as a result;
    2. the sum 0xFFFFFFFF reads as the error -1, with the offset moved.

  `seeksRight_iff` is the exact condition: every whence adds to a base (`seekBase`), and the sum in
  whole numbers has to be a result.
-/
import TedkOS.Fs.Dispatcher

namespace TedkOS.Fs

def SEEK_SET : BitVec 32 := 0
def SEEK_CUR : BitVec 32 := 1
def SEEK_END : BitVec 32 := 2

/-- `KissFS::canSeek`. -/
def KissFileDescriptorData.canSeek (data : KissFileDescriptorData) : Bool :=
  decide (data.filetype.toNat = NORMAL_FILE)

/-- `KissFS::getFileSize`. -/
def KissFS.getFileSize (fs : KissFS) (data : KissFileDescriptorData) : Option (BitVec 32) :=
  if data.filetype.toNat ≠ NORMAL_FILE then none else some (fs.inodes data.inode.toNat).size

/-- `canSeek()` of a device: disks can. -/
def IFOps.canSeek : IFOps → Bool
  | .ata _ => true
  | _ => false

/-- `seekCallback(newOffset)` of a device. -/
def IFOps.seekCallback (newOffset : BitVec 32) : IFOps → IFOps
  | .ata _ => .ata newOffset
  | data => data

namespace FsSpecificData

def canSeek : FsSpecificData → Bool
  | .kissFS data => data.canSeek
  | .devFS data => data.canSeek

def getFileSize (fs : KissFS) : FsSpecificData → Option (BitVec 32)
  | .kissFS data => fs.getFileSize data
  | .devFS _ => none

def seekCallback (newOffset : BitVec 32) : FsSpecificData → FsSpecificData
  | .kissFS data => .kissFS data
  | .devFS data => .devFS (data.seekCallback newOffset)

end FsSpecificData

/-- The end of `lseek`, with the new offset. -/
def File.moveTo (fd : File) (newOffset : BitVec 32) : BitVec 32 × File :=
  (newOffset, ⟨newOffset, fd.fsSpecificData.seekCallback newOffset⟩)

/-- `theDispatcher->lseek(fd, offset, whence)`: the result, and the file after it. -/
def File.lseek (fs : KissFS) (fd : File) (offset whence : BitVec 32) : BitVec 32 × File :=
  if fd.fsSpecificData.canSeek = false then (-1, fd)
  else
    let fileSize := fd.fsSpecificData.getFileSize fs
    if whence = SEEK_SET then fd.moveTo offset
    else if whence = SEEK_CUR then fd.moveTo (fd.offset + offset)
    else if whence = SEEK_END then
      match fileSize with
      | none => (-1, fd)
      | some size => fd.moveTo (size + offset)
    else (-1, fd)

/-! ## What a seek ought to do -/

/-- What the displacement is added to; `none` where there is nothing. -/
def File.seekBase (fs : KissFS) (fd : File) (whence : BitVec 32) : Option (BitVec 32) :=
  if whence = SEEK_SET then some 0
  else if whence = SEEK_CUR then some fd.offset
  else if whence = SEEK_END then fd.fsSpecificData.getFileSize fs
  else none

/-- A seek that fails leaves the offset; one that succeeds moves it to base plus displacement, as
    whole numbers, and returns it. -/
structure SeeksRight (fs : KissFS) (fd : File) (offset whence : BitVec 32) : Prop where
  failed : (fd.lseek fs offset whence).1 = -1 → (fd.lseek fs offset whence).2.offset = fd.offset
  moved : (fd.lseek fs offset whence).1 ≠ -1 → 0 ≤ (fd.lseek fs offset whence).1.toInt ∧
    (fd.lseek fs offset whence).1.toInt = (fd.lseek fs offset whence).2.offset.toNat ∧
    ∃ base, fd.seekBase fs whence = some base ∧
      (fd.lseek fs offset whence).1.toInt = base.toNat + offset.toInt

/-! ## When it does

  The sum of a base and an offset is computed in 32 bits, and -1 is the error.  A sum that comes
  out as -1 changes the offset of the file all the same. -/

/-- A seek adds the displacement to the base. -/
theorem File.lseek_base (fs : KissFS) {fd : File} (hseek : fd.fsSpecificData.canSeek = true)
    (offset whence : BitVec 32) :
    fd.lseek fs offset whence = match fd.seekBase fs whence with
      | none => (-1, fd)
      | some base => fd.moveTo (base + offset) := by
  rw [lseek, if_neg (by rw [hseek]; decide), seekBase]
  split
  · have hzero : 0 + offset = offset := BitVec.zero_add _
    dsimp only
    rw [hzero]
  split
  · rfl
  split
  · cases fd.fsSpecificData.getFileSize fs <;> rfl
  · rfl

/-- The sum as a signed number. -/
theorem toInt_add_displacement (base offset : BitVec 32) :
    (base + offset).toInt = Int.bmod (base.toNat + offset.toInt) 0x100000000 := by
  rw [BitVec.toInt_add, BitVec.toInt_eq_toNat_bmod base, Int.bmod_add_bmod]

/-- The sum is a result exactly if it is one as a whole number. -/
theorem sum_right_iff (base offset : BitVec 32) :
    (0 ≤ (base + offset).toInt ∧ (base + offset).toInt = ((base + offset).toNat : Int) ∧
        (base + offset).toInt = base.toNat + offset.toInt) ↔
      0 ≤ (base.toNat : Int) + offset.toInt ∧ (base.toNat : Int) + offset.toInt < 0x80000000 := by
  have hcond := BitVec.toInt_eq_toNat_cond (base + offset)
  have hlt := (base + offset).isLt
  constructor
  · rintro ⟨hnonneg, -, heq⟩
    rw [← heq]
    rw [hcond] at hnonneg ⊢
    refine ⟨hnonneg, ?_⟩
    split <;> omega
  · rintro ⟨hnonneg, hsmall⟩
    have hsum : (base + offset).toInt = base.toNat + offset.toInt := by
      rw [toInt_add_displacement]
      exact Int.bmod_eq_of_le (by omega) (by omega)
    refine ⟨by omega, ?_, hsum⟩
    rw [hcond] at hsum ⊢
    split at hsum
    · next h => rw [if_pos h]
    · omega

theorem sum_eq_error_iff (base offset : BitVec 32) :
    base + offset = -1 ↔ ((base.toNat : Int) + offset.toInt) % 0x100000000 = 0xFFFFFFFF := by
  rw [← BitVec.toInt_inj, toInt_add_displacement]
  show Int.bmod _ 0x100000000 = -1 ↔ _
  rw [Int.bmod_def]
  split <;> omega

/-- **`lseek`** is right exactly if there is nothing to add to, or the sum is from 0 to 2^31 - 1, or
    the sum is the error and the offset was that before. -/
theorem seeksRight_iff (fs : KissFS) {fd : File} (hseek : fd.fsSpecificData.canSeek = true)
    (offset whence : BitVec 32) :
    SeeksRight fs fd offset whence ↔ ∀ base, fd.seekBase fs whence = some base →
      (0 ≤ (base.toNat : Int) + offset.toInt ∧ (base.toNat : Int) + offset.toInt < 0x80000000) ∨
        (fd.offset = -1 ∧ ((base.toNat : Int) + offset.toInt) % 0x100000000 = 0xFFFFFFFF) := by
  have hlseek := File.lseek_base fs hseek offset whence
  cases hbase : fd.seekBase fs whence with
  | none =>
    rw [hbase] at hlseek
    refine ⟨fun _ base h => (Option.some_ne_none base h.symm).elim, fun _ => ?_⟩
    constructor
    case failed => rw [hlseek]; exact fun _ => rfl
    case moved => rw [hlseek]; exact fun h => absurd rfl h
  | some base =>
    rw [hbase] at hlseek
    have hresult : (fd.lseek fs offset whence).1 = base + offset := by rw [hlseek]; rfl
    have hoffset : (fd.lseek fs offset whence).2.offset = base + offset := by rw [hlseek]; rfl
    have hright := sum_right_iff base offset
    have herror := sum_eq_error_iff base offset
    constructor
    · -- right: either the result is the error, and the offset is as before, or it is a sum in
      -- range
      intro h base' hb
      cases hb
      by_cases hsum : base + offset = -1
      · have hsame := h.failed (hresult.trans hsum)
        rw [hoffset, hsum] at hsame
        exact .inr ⟨hsame.symm, herror.mp hsum⟩
      · obtain ⟨hnonneg, hnew, base', hb, heq⟩ := h.moved (by rw [hresult]; exact hsum)
        rw [hbase] at hb
        cases hb
        rw [hresult] at hnonneg hnew heq
        rw [hoffset] at hnew
        exact .inl (hright.mp ⟨hnonneg, hnew, heq⟩)
    · intro h
      -- a sum in range is no error; and a sum that is the error leaves the offset what it was
      rcases h base rfl with hsmall | ⟨hold, hsum⟩
      · obtain ⟨hnonneg, hnew, heq⟩ := hright.mpr hsmall
        constructor
        case failed =>
          rw [hresult]
          intro hsum
          rw [hsum] at hnonneg
          exact absurd hnonneg (by decide)
        case moved =>
          rw [hresult, hoffset]
          exact fun _ => ⟨hnonneg, hnew, base, hbase, heq⟩
      · have hsum := herror.mpr hsum
        constructor
        case failed =>
          rw [hoffset, hold]
          exact fun _ => hsum
        case moved =>
          rw [hresult]
          exact fun hne => absurd hsum hne

/-- An open disk. -/
def openDisk (offset : BitVec 32) : File := ⟨offset, .devFS (.ata offset)⟩

/-- A file system without files. -/
def noFiles : KissFS :=
  ⟨fun _ => ⟨fun _ => 0, 0, 0⟩, fun _ => ⟨0, fun _ => 0, 0⟩, 0, 0, fun _ => 0, 0⟩

/-- One sector on. -/
theorem seeksRight_nextSector : SeeksRight noFiles (openDisk 0) 512 SEEK_CUR := by
  apply (seeksRight_iff noFiles rfl 512 SEEK_CUR).mpr
  intro base hbase
  cases hbase
  exact .inl (by decide)

/-- One byte before the start: the result is the error, and the offset has moved. -/
theorem seek_beforeStart : ¬ SeeksRight noFiles (openDisk 0) (-1) SEEK_SET := by
  intro h
  exact absurd (h.failed rfl) (by decide)

end TedkOS.Fs
