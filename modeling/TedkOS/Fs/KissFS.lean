/-
  The read-only file system (fs/kissfs.cpp): what `read` and `fstat` of an open file write through
  the caller's pointer.

  A file is read block by block.  Each round takes `min(length, bytesRemaining, 4096)` bytes, and
  the loop stops early when the caller's buffer is full or a block number is out of range.  The
  bytes taken telescope: after `k` blocks they are `min(length, bytesRemaining, 4096 * k)`, so the
  part of the buffer written is known before the call (`readLength`, `read_covers`).  A directory
  read fills the whole buffer whatever the name is, because `strncpy` pads.
-/
import TedkOS.Klibs.Lib

namespace TedkOS.Fs

open Klibs

def SPECIAL_DEVICE : Nat := 0
def DIRECTORY : Nat := 1
def NORMAL_FILE : Nat := 2

def BlockSize : Nat := 4096

/-- `dentry_t`; `filename` is what memory holds from the field on. -/
structure Dentry where
  filename : Nat → BitVec 8
  filetype : BitVec 32
  inode : BitVec 32

/-- `inode_t`; `datablocks` is what memory holds from the field on. -/
structure Inode where
  size : BitVec 32
  datablocks : Nat → BitVec 32
  numDataBlocks : BitVec 32

/-- The file system after `initFromMemoryAddress`; the arrays are what memory holds from their start
    on, and `image` what it holds from `imageStartingAddress` on. -/
structure KissFS where
  dentries : Nat → Dentry
  inodes : Nat → Inode
  numInodes : BitVec 32
  numTotalDataBlocks : BitVec 32
  image : BitVec 32 → BitVec 8
  numBlocks : BitVec 32

/-- The state of one open file; `base` is what `dentryData.base` points to. -/
structure KissFileDescriptorData where
  filetype : BitVec 8
  inode : BitVec 32
  base : Nat → Dentry
  idx : BitVec 32
  max : BitVec 32

/-- How a call into a file system or driver ends. -/
inductive Ret where
  | value (result : BitVec 32)
  /-- The thread sleeps (the function itself returns 0); whoever wakes it, if anyone does, puts
      `eax` in place of the result. -/
  | blocked (eax : Option (BitVec 32))
  /-- `trigger_exception`: nothing after it runs. -/
  | exception
deriving DecidableEq

/-- A call into a file system or driver: how it ends, what it stores through the caller's pointer,
    and the state it leaves. -/
structure Outcome (σ : Type) where
  ret : Ret
  stores : List (Nat × BitVec 8)
  next : σ

/-! ## Reading -/

namespace KissFS

variable (fs : KissFS)

/-- The image block that holds data block `datablockId`: the boot block and the inodes come
    first. -/
def rawBlockId (datablockId : BitVec 32) : BitVec 32 := datablockId + fs.numInodes + 1

/-- `readBlock(datablockId, offset, buf, len)`: the bytes copied, if the block exists. -/
def readBlock (datablockId offset len : BitVec 32) : Option (List (BitVec 8)) :=
  if fs.numBlocks ≤ fs.rawBlockId datablockId then none
  else some ((List.range len.toNat).map fun j =>
    fs.image (fs.rawBlockId datablockId * BitVec.ofNat 32 BlockSize + offset + BitVec.ofNat 32 j))

/-- The bytes of one round: what is asked for, cut to the rest of the file, then to a block. -/
def roundLen (length bytesRemaining : BitVec 32) : BitVec 32 :=
  let len := if bytesRemaining < length then bytesRemaining else length
  if BitVec.ofNat 32 BlockSize < len then BitVec.ofNat 32 BlockSize else len

/-- The `for` loop of `readData` from block `i` on, with the number of rounds left. -/
def readDataLoop (node : Inode) :
    Nat → Nat → BitVec 32 → BitVec 32 → BitVec 32 → BitVec 32 → List (Nat × BitVec 8) →
      BitVec 32 × List (Nat × BitVec 8)
  | 0, _, _, _, _, read, out => (read, out)
  | rounds + 1, i, length, bytesRemaining, realOffset, read, out =>
    let datablockId := node.datablocks i
    if datablockId ≤ fs.numTotalDataBlocks then
      let len := roundLen length bytesRemaining
      match fs.readBlock datablockId realOffset len with
      | none => (-1, out)
      | some bytes =>
        let out := out ++ memcpy read.toNat bytes
        if length - len = 0 then (read + len, out)
        -- Start from zero in next block
        else readDataLoop node rounds (i + 1) (length - len) (bytesRemaining - len) 0
          (read + len) out
    else (-1, out)

/-- `readData(inode, offset, buf, length)`. -/
def readData (inode offset length : BitVec 32) : BitVec 32 × List (Nat × BitVec 8) :=
  if inode ≤ fs.numInodes then
    let node := fs.inodes inode.toNat
    let startingDataBlock := offset.toNat / BlockSize
    fs.readDataLoop node (node.numDataBlocks.toNat - startingDataBlock) startingDataBlock length
      (node.size - offset) (BitVec.ofNat 32 (offset.toNat % BlockSize)) 0 []
  else (-1, [])

/-- `readDir(data, offset, buf, len)`; `mem` is what the caller's buffer held before. -/
def readDir (data : KissFileDescriptorData) (mem : Nat → BitVec 8) (len : BitVec 32) :
    Outcome KissFileDescriptorData :=
  if data.max ≤ data.idx then ⟨.value 0, [], data⟩
  else
    let out := memcpy 0 (strncpy (data.base data.idx.toNat).filename len.toNat)
    ⟨.value (BitVec.ofNat 32 (strlen (contents mem out))), out, { data with idx := data.idx + 1 }⟩

/-- `KissFS::read`. -/
def read (data : KissFileDescriptorData) (mem : Nat → BitVec 8) (offset len : BitVec 32) :
    Outcome KissFileDescriptorData :=
  if data.filetype.toNat = DIRECTORY then readDir data mem len
  else
    let r := fs.readData data.inode offset len
    ⟨.value r.1, r.2, data⟩

end KissFS

/-! ## `fstat` -/

def S_IFDIR : BitVec 32 := 0x4000
def S_IFCHR : BitVec 32 := 0x2000
def S_IFREG : BitVec 32 := 0x8000

/-- Where the fields of `struct stat` lie. -/
def st_mode : Nat := 4
def st_size : Nat := 16

namespace KissFS

variable (fs : KissFS)

/-- `KissFS::fstat`; it always returns 0. -/
def fstat (data : KissFileDescriptorData) : List (Nat × BitVec 8) :=
  if data.filetype.toNat = DIRECTORY then memcpy st_mode (wordBytes S_IFDIR)
  else if data.filetype.toNat = SPECIAL_DEVICE then memcpy st_mode (wordBytes S_IFCHR)
  else
    memcpy st_mode (wordBytes S_IFREG) ++
      memcpy st_size (wordBytes (fs.inodes data.inode.toNat).size)

/-! ## How much of the buffer is written

  By induction on the blocks.  A round takes the least of three numbers, and what is left to take
  and what is left of the file go down by it. -/

/-- Both range checks on the `i`-th block of a file. -/
def blockReadable (node : Inode) (i : Nat) : Bool :=
  decide (node.datablocks i ≤ fs.numTotalDataBlocks) &&
    decide (fs.rawBlockId (node.datablocks i) < fs.numBlocks)

/-- How many blocks in a row can be read, from block `i` on, out of `rounds`. -/
def readableBlocks (node : Inode) : Nat → Nat → Nat
  | 0, _ => 0
  | rounds + 1, i => if fs.blockReadable node i then 1 + readableBlocks node rounds (i + 1) else 0

/-- The bytes a read writes, from what the file system and the file are before it. -/
def readLength (data : KissFileDescriptorData) (offset len : BitVec 32) : Nat :=
  if data.filetype.toNat = DIRECTORY then
    if data.max ≤ data.idx then 0 else len.toNat
  else if data.inode ≤ fs.numInodes then
    let node := fs.inodes data.inode.toNat
    let start := offset.toNat / BlockSize
    min (min len.toNat (node.size - offset).toNat)
      (BlockSize * fs.readableBlocks node (node.numDataBlocks.toNat - start) start)
  else 0

theorem length_readBlock {datablockId offset len : BitVec 32} {bytes : List (BitVec 8)}
    (h : fs.readBlock datablockId offset len = some bytes) : bytes.length = len.toNat := by
  unfold readBlock at h
  split at h
  · exact absurd h (by simp)
  · rw [← Option.some.inj h, List.length_map, List.length_range]

/-- A block is read exactly when it is on the disk. -/
theorem readBlock_isSome (datablockId offset len : BitVec 32) :
    (fs.readBlock datablockId offset len).isSome = true ↔
    fs.rawBlockId datablockId < fs.numBlocks := by
  unfold readBlock
  rw [← BitVec.not_le]
  split
  · next hle => simp [hle]
  · next hlt => simp [hlt]

theorem toNat_roundLen (length bytesRemaining : BitVec 32) :
    (roundLen length bytesRemaining).toNat =
      min (min length.toNat bytesRemaining.toNat) BlockSize := by
  have hB : (BitVec.ofNat 32 BlockSize).toNat = BlockSize := by decide
  unfold roundLen
  simp only [BitVec.lt_def]
  split <;> split <;> omega

theorem roundLen_le (length bytesRemaining : BitVec 32) :
    (roundLen length bytesRemaining).toNat ≤ BlockSize := by
  rw [toNat_roundLen]
  exact Nat.min_le_right _ _

/-- What is left after a round, and what has been read; nothing wraps. -/
theorem toNat_round {length read : BitVec 32} (bytesRemaining : BitVec 32)
    (hfit : read.toNat + length.toNat < 0x100000000) :
    (length - roundLen length bytesRemaining).toNat =
      length.toNat - (roundLen length bytesRemaining).toNat ∧
    (bytesRemaining - roundLen length bytesRemaining).toNat =
      bytesRemaining.toNat - (roundLen length bytesRemaining).toNat ∧
    (read + roundLen length bytesRemaining).toNat =
      read.toNat + (roundLen length bytesRemaining).toNat := by
  have hlen := toNat_roundLen length bytesRemaining
  rw [BitVec.toNat_sub, BitVec.toNat_sub, BitVec.toNat_add]
  refine ⟨?_, ?_, ?_⟩ <;> omega

/-- The buffer is full after a round that took all that was asked for. -/
theorem sub_roundLen_eq_zero_iff (length bytesRemaining : BitVec 32) :
    length - roundLen length bytesRemaining = 0 ↔
      length.toNat = (roundLen length bytesRemaining).toNat := by
  have hzero : 0 + roundLen length bytesRemaining = roundLen length bytesRemaining :=
    BitVec.zero_add _
  rw [BitVec.sub_eq_iff_eq_add, hzero, ← BitVec.toNat_inj]

/-- **One loop, any state.**  With `read` bytes written so far, the loop writes on up to the end of
    the readable blocks, the file, or the buffer, whichever comes first. -/
theorem readDataLoop_covers (node : Inode) (rounds i : Nat)
    (length bytesRemaining realOffset read : BitVec 32) {out : List (Nat × BitVec 8)}
    (hout : Covers out read.toNat) (hfit : read.toNat + length.toNat < 0x100000000) :
    Covers (fs.readDataLoop node rounds i length bytesRemaining realOffset read out).2
      (read.toNat + min (min length.toNat bytesRemaining.toNat)
        (BlockSize * fs.readableBlocks node rounds i)) := by
  induction rounds generalizing i length bytesRemaining realOffset read out with
  | zero => simpa [readDataLoop, readableBlocks] using hout
  | succ rounds ih =>
    have hlen := toNat_roundLen length bytesRemaining
    unfold readDataLoop readableBlocks blockReadable
    simp only
    by_cases hid : node.datablocks i ≤ fs.numTotalDataBlocks
    · rw [if_pos hid]
      cases hb : fs.readBlock (node.datablocks i) realOffset (roundLen length bytesRemaining) with
      | none =>
        have hraw : ¬ fs.rawBlockId (node.datablocks i) < fs.numBlocks := fun hlt => by
          have hsome := (fs.readBlock_isSome _ realOffset (roundLen length bytesRemaining)).mpr hlt
          rw [hb] at hsome
          exact absurd hsome (by decide)
        simpa [hraw] using hout
      | some bytes =>
        have hraw : fs.rawBlockId (node.datablocks i) < fs.numBlocks := by
          apply (fs.readBlock_isSome _ realOffset (roundLen length bytesRemaining)).mp
          rw [hb]
          rfl
        have hbytes := fs.length_readBlock hb
        have hout' := hout.append_memcpy bytes
        obtain ⟨hleft, hrem, hread⟩ := toNat_round bytesRemaining hfit
        rw [← hbytes] at hleft hrem hread
        simp only [hid, hraw, decide_true, Bool.and_self, if_true]
        by_cases hdone : length - roundLen length bytesRemaining = 0
        · -- the buffer is full
          have h0 : length.toNat = bytes.length :=
            ((sub_roundLen_eq_zero_iff _ _).mp hdone).trans hbytes.symm
          rw [if_pos hdone]
          have hend : read.toNat + min (min length.toNat bytesRemaining.toNat)
              (BlockSize * (1 + fs.readableBlocks node rounds (i + 1))) =
              read.toNat + bytes.length := by
            rw [Nat.mul_add]
            omega
          rw [hend]
          exact hout'
        · rw [if_neg hdone]
          rw [← hread] at hout'
          have hnext := ih (i + 1) (length - roundLen length bytesRemaining)
            (bytesRemaining - roundLen length bytesRemaining) 0 _ hout'
            (by rw [hread, hleft]; omega)
          have hend : read.toNat + min (min length.toNat bytesRemaining.toNat)
              (BlockSize * (1 + fs.readableBlocks node rounds (i + 1))) =
              (read + roundLen length bytesRemaining).toNat +
                min (min (length - roundLen length bytesRemaining).toNat
                  (bytesRemaining - roundLen length bytesRemaining).toNat)
                  (BlockSize * fs.readableBlocks node rounds (i + 1)) := by
            rw [hread, hleft, hrem, Nat.mul_add]
            omega
          rw [hend]
          exact hnext
    · rw [if_neg hid]
      simpa [hid] using hout

/-- **A read fills the buffer up to `readLength`**, and stores nothing beyond. -/
theorem read_covers (data : KissFileDescriptorData) (mem : Nat → BitVec 8)
    (offset len : BitVec 32) :
    Covers (fs.read data mem offset len).stores (fs.readLength data offset len) := by
  unfold read readLength
  by_cases hdir : data.filetype.toNat = DIRECTORY
  · rw [if_pos hdir, if_pos hdir]
    unfold readDir
    split
    · exact Covers.nil
    · have h := Covers.memcpy (strncpy (data.base data.idx.toNat).filename len.toNat)
      rw [length_strncpy] at h
      exact h
  · rw [if_neg hdir, if_neg hdir]
    unfold readData
    by_cases hin : data.inode ≤ fs.numInodes
    · rw [if_pos hin, if_pos hin]
      have h := fs.readDataLoop_covers (fs.inodes data.inode.toNat)
        ((fs.inodes data.inode.toNat).numDataBlocks.toNat - offset.toNat / BlockSize)
        (offset.toNat / BlockSize) len ((fs.inodes data.inode.toNat).size - offset)
        (BitVec.ofNat 32 (offset.toNat % BlockSize)) 0 Covers.nil
        (by have := len.isLt; show 0 + len.toNat < 0x100000000; omega)
      simpa using h
    · rw [if_neg hin, if_neg hin]
      exact Covers.nil

end KissFS

end TedkOS.Fs
