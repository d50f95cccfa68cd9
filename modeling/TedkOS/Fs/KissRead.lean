/-
  What `readData` of fs/kissfs.cpp returns and writes, from any offset.

  The file is the concatenation of its data blocks, cut at its size (`fileBytes`).  A round of the
  reader takes up to a whole block of bytes whatever the offset in the block is, and goes on with
  the next block at its start.  So from an offset `r` bytes into a block, the read

  * takes the bytes after the first `4096 - r` from the image block that FOLLOWS, which need not be
    the next block of the file;
  * takes every byte after the first 4096 from `r` bytes before its place in the file;
  * finds bytes in the rest of the last block, if the offset is past the end of the file and in that
    block.

  `readsFile_iff` says for every loaded file system, every file whose blocks are there, and every
  offset and length when the read is right all the same.
-/
import TedkOS.Fs.KissContents

namespace TedkOS.Fs

open Klibs

namespace KissFS

variable (fs : KissFS) (node : Inode)

/-! ## The file

  The specification.  A position in the file is a block of the file and an offset in that block;
  where the block is in the image is not its business. -/

/-- The `j`-th byte from the start of the `k`-th data block on. -/
def blockByte (k j : Nat) : BitVec 8 :=
  fs.image (BitVec.ofNat 32 (BlockSize * (1 + fs.numInodes.toNat + (node.datablocks k).toNat) + j))

/-- The file: its data blocks in order, cut at its size. -/
def fileBytes : List (BitVec 8) :=
  ((List.range node.numDataBlocks.toNat).flatMap fun k =>
    (List.range BlockSize).map (fs.blockByte node k)).take node.size.toNat

/-- Every data block of the file is one of the file system's and lies in the image. -/
def FileInside : Prop :=
  ∀ k, k < node.numDataBlocks.toNat → node.datablocks k ≤ fs.numTotalDataBlocks ∧
    1 + fs.numInodes.toNat + (node.datablocks k).toNat < fs.numBlocks.toNat

/-- The read returns how many bytes of the file there are from `offset` on, `length` at most; it
    writes nothing outside so many bytes of the buffer, and into them these bytes of the file. -/
structure ReadsFile (inode offset length : BitVec 32) : Prop where
  /-- As many bytes as are left, and asked for; -/
  ret : (fs.readData inode offset length).1.toNat =
    (((fs.fileBytes (fs.inodes inode.toNat)).drop offset.toNat).take length.toNat).length
  /-- no byte of the buffer behind them is touched, -/
  within : ∀ store ∈ (fs.readData inode offset length).2,
    store.1 < (((fs.fileBytes (fs.inodes inode.toNat)).drop offset.toNat).take length.toNat).length
  /-- and each is the byte of the file. -/
  bytes : ∀ mem i b,
    (((fs.fileBytes (fs.inodes inode.toNat)).drop offset.toNat).take length.toNat)[i]? = some b →
    contents mem (fs.readData inode offset length).2 i = b

/-- What must hold of the file and its place in the image. -/
structure StartsWell (offset length : BitVec 32) : Prop where
  /-- An offset past the end of the file is past its last block too, or nothing is asked for. -/
  pastEnd : node.size < offset → length = 0 ∨ BlockSize * node.numDataBlocks.toNat ≤ offset.toNat
  /-- What follows the block of the offset in the image is what follows in the file. -/
  nextBlock : ∀ j, j < min length.toNat (node.size.toNat - offset.toNat) → j < BlockSize →
    BlockSize ≤ offset.toNat % BlockSize + j →
    fs.blockByte node (offset.toNat / BlockSize) (offset.toNat % BlockSize + j) =
      fs.blockByte node ((offset.toNat + j) / BlockSize) ((offset.toNat + j) % BlockSize)
  /-- From 4096 bytes on, the file repeats what it holds as many bytes before as the offset is into
      its block. -/
  shifted : ∀ j, j < min length.toNat (node.size.toNat - offset.toNat) → BlockSize ≤ j →
    fs.blockByte node (offset.toNat / BlockSize + j / BlockSize) (j % BlockSize) =
      fs.blockByte node ((offset.toNat + j) / BlockSize) ((offset.toNat + j) % BlockSize)

/-! ## The bytes of the file -/

/-- Blocks of one length, one after another. -/
theorem flatMap_blocks (g : Nat → Nat → BitVec 8) {B : Nat} (hB : 0 < B) (m : Nat) :
    ((List.range m).flatMap fun k => (List.range B).map (g k)) =
      (List.range (B * m)).map fun p => g (p / B) (p % B) := by
  induction m with
  | zero => rfl
  | succ m ih =>
    rw [List.range_succ, List.flatMap_append, ih, List.flatMap_singleton, Nat.mul_succ,
      List.range_add, List.map_append, List.map_map]
    apply congrArg (_ ++ ·)
    apply List.map_congr_left
    intro j hj
    have hj' := List.mem_range.mp hj
    show g m j = g ((B * m + j) / B) ((B * m + j) % B)
    rw [Nat.mul_add_div hB, Nat.div_eq_of_lt hj', Nat.mul_add_mod, Nat.mod_eq_of_lt hj',
      Nat.add_zero]

variable {fs node} {offset length : BitVec 32}

/-- A piece of a range is a range. -/
theorem drop_take_range (n off len : Nat) :
    ((List.range n).drop off).take len = (List.range (min len (n - off))).map (off + ·) := by
  rw [List.range_eq_range', List.drop_range', List.range'_eq_map_range, ← List.map_take,
    List.take_range, Nat.zero_add, Nat.mul_one]

/-- The bytes of the file from an offset on. -/
theorem drop_take_fileBytes (hsize : node.size.toNat ≤ BlockSize * node.numDataBlocks.toNat)
    (off len : Nat) :
    ((fs.fileBytes node).drop off).take len = (List.range (min len (node.size.toNat - off))).map
      fun j =>
      fs.blockByte node ((off + j) / BlockSize) ((off + j) % BlockSize) := by
  rw [fileBytes, flatMap_blocks _ (by decide), ← List.map_take, ← List.map_drop, ← List.map_take,
    List.take_range, Nat.min_eq_left hsize, drop_take_range, List.map_map]
  rfl

/-- The blocks of the file are in the image for `readBlock` too. -/
theorem FileInside.raw (h : fs.FileInside node) {k : Nat} (hk : k < node.numDataBlocks.toNat) :
    fs.rawBlockId (node.datablocks k) < fs.numBlocks := by
  have hin := (h k hk).2
  have hlt := fs.numBlocks.isLt
  have hone : (1 : BitVec 32).toNat = 1 := rfl
  rw [BitVec.lt_def, rawBlockId, BitVec.toNat_add, BitVec.toNat_add, hone]
  omega

/-- Where a block and an offset in it lead. -/
theorem image_src (k r j : Nat) :
    fs.image (fs.rawBlockId (node.datablocks k) * BitVec.ofNat 32 BlockSize + BitVec.ofNat 32 r +
      BitVec.ofNat 32 j) = fs.blockByte node k (r + j) := by
  have hraw : fs.rawBlockId (node.datablocks k) =
      BitVec.ofNat 32 (1 + fs.numInodes.toNat + (node.datablocks k).toNat) := by
    rw [rawBlockId, BitVec.ofNat_add, BitVec.ofNat_add, BitVec.ofNat_toNat, BitVec.ofNat_toNat,
      BitVec.setWidth_eq, BitVec.setWidth_eq, BitVec.add_comm, BitVec.add_assoc,
      BitVec.add_comm fs.numInodes]
    rfl
  apply congrArg fs.image
  rw [hraw, BitVec.ofNat_add (BlockSize * _), BitVec.ofNat_mul, BitVec.ofNat_add r,
    BitVec.add_assoc, BitVec.mul_comm]

/-! ## The reader

  The first round starts in the middle of a block and takes as much as if it had started at the
  beginning, the rounds after it are of whole blocks.  So what is taken at position `j` is in
  block `j / 4096` after the first, with the offset added in the first round only (`takenByte`). -/

/-- The block of a file whose blocks are there can be read. -/
theorem FileInside.readBlock (h : fs.FileInside node) {k : Nat}
    (hk : k < node.numDataBlocks.toNat) (r : Nat) (len : BitVec 32) :
    fs.readBlock (node.datablocks k) (BitVec.ofNat 32 r) len =
      some ((List.range len.toNat).map fun j => fs.blockByte node k (r + j)) := by
  rw [KissFS.readBlock, if_neg (BitVec.not_le.mpr (h.raw hk))]
  apply congrArg some
  apply List.map_congr_left
  intro j _
  exact image_src k r j

/-- **The first round**, at `r` bytes into block `s`. -/
theorem readDataLoop_first (h : fs.FileInside node) {s : Nat} (hs : s < node.numDataBlocks.toNat)
    (rounds r : Nat) (length bytesRemaining : BitVec 32) :
    fs.readDataLoop node (rounds + 1) s length bytesRemaining (BitVec.ofNat 32 r) 0 [] =
      if length - roundLen length bytesRemaining = 0 then (roundLen length bytesRemaining,
        memcpy 0 ((List.range (roundLen length bytesRemaining).toNat).map
          fun j => fs.blockByte node s (r + j)))
      else fs.readDataLoop node rounds (s + 1) (length - roundLen length bytesRemaining)
        (bytesRemaining - roundLen length bytesRemaining) 0 (roundLen length bytesRemaining)
        (memcpy 0 ((List.range (roundLen length bytesRemaining).toNat).map
          fun j => fs.blockByte node s (r + j))) := by
  rw [readDataLoop]
  dsimp only
  have hread : 0 + roundLen length bytesRemaining = roundLen length bytesRemaining :=
    BitVec.zero_add _
  rw [if_pos (h s hs).1, h.readBlock hs]
  dsimp only
  rw [hread]
  rfl

/-- **The rounds after it**, each from the start of a block on. -/
theorem FileInside.delivers (h : fs.FileInside node) {rounds i : Nat}
    (hi : i + rounds ≤ node.numDataBlocks.toNat) {length bytesRemaining read : BitVec 32}
    {out : List (Nat × BitVec 8)} (hrem : bytesRemaining.toNat ≤ BlockSize * rounds)
    (hfit : read.toNat + length.toNat < 0x100000000) :
    fs.readDataLoop node rounds i length bytesRemaining 0 read out =
      (read + BitVec.ofNat 32 (min length.toNat bytesRemaining.toNat),
        out ++ memcpy read.toNat ((List.range (min length.toNat bytesRemaining.toNat)).map fun p =>
          fs.blockByte node ((BlockSize * i + p) / BlockSize)
            ((BlockSize * i + p) % BlockSize))) := by
  apply readDataLoop_delivers fs node (fun p => fs.blockByte node (p / BlockSize) (p % BlockSize))
    node.numDataBlocks.toNat (fun k hk => (h k hk).1) (fun k hk => h.raw hk) ?_ rounds i hi _ _ _
      _ hrem hfit
  intro k hk j hj
  rw [show (0 : BitVec 32) = BitVec.ofNat 32 0 from rfl, image_src, Nat.zero_add,
    Nat.mul_add_div (by decide), Nat.div_eq_of_lt hj, Nat.mul_add_mod, Nat.mod_eq_of_lt hj,
    Nat.add_zero]

/-- What the reader takes for the `j`-th byte from `offset` on. -/
def takenByte (fs : KissFS) (node : Inode) (offset j : Nat) : BitVec 8 :=
  if j < BlockSize then fs.blockByte node (offset / BlockSize) (offset % BlockSize + j)
  else fs.blockByte node (offset / BlockSize + j / BlockSize) (j % BlockSize)

/-- **The whole read**, from an offset that is not past the end of the file. -/
theorem readDataLoop_takes (h : fs.FileInside node)
    (hsize : node.size.toNat ≤ BlockSize * node.numDataBlocks.toNat)
    (hle : offset.toNat ≤ node.size.toNat)
    (hs : offset.toNat / BlockSize < node.numDataBlocks.toNat) :
    fs.readDataLoop node (node.numDataBlocks.toNat - offset.toNat / BlockSize)
        (offset.toNat / BlockSize) length
        (node.size - offset) (BitVec.ofNat 32 (offset.toNat % BlockSize)) 0 [] =
      (BitVec.ofNat 32 (min length.toNat (node.size.toNat - offset.toNat)),
        memcpy 0 ((List.range (min length.toNat (node.size.toNat - offset.toNat))).map
          (fs.takenByte node offset.toNat))) := by
  have hrem : (node.size - offset).toNat = node.size.toNat - offset.toNat :=
    BitVec.toNat_sub_of_le (BitVec.le_def.mpr hle)
  obtain ⟨rounds, hrounds⟩ :
      ∃ rounds, node.numDataBlocks.toNat - offset.toNat / BlockSize = rounds + 1 :=
    ⟨_, (Nat.succ_pred_eq_of_pos (Nat.sub_pos_of_lt hs)).symm⟩
  rw [hrounds, readDataLoop_first h hs]
  have hlen := toNat_roundLen length (node.size - offset)
  obtain ⟨hleft, hrem', -⟩ := @toNat_round length 0 (node.size - offset)
    (by have := length.isLt; show 0 + length.toNat < 0x100000000; omega)
  have hfull := sub_roundLen_eq_zero_iff length (node.size - offset)
  generalize roundLen length (node.size - offset) = len at *
  rw [hrem] at hlen hrem'
  -- the first round is what is taken, and as much as a block
  have hfirst : ((List.range len.toNat).map fun j =>
      fs.blockByte node (offset.toNat / BlockSize) (offset.toNat % BlockSize + j)) =
      (List.range len.toNat).map (fs.takenByte node offset.toNat) := by
    apply List.map_congr_left
    intro j hj
    have hj' := List.mem_range.mp hj
    exact (if_pos (by omega)).symm
  rw [hfirst]
  by_cases hdone : length - len = 0
  · have heq := hfull.mp hdone
    rw [if_pos hdone, show min length.toNat (node.size.toNat - offset.toNat) = len.toNat by omega,
      BitVec.ofNat_toNat, BitVec.setWidth_eq]
  · rw [if_neg hdone]
    have hne : length.toNat ≠ len.toNat := mt hfull.mpr hdone
    have hspace : node.size.toNat - offset.toNat ≤ BlockSize * (rounds + 1) := by
      have hdiv := Nat.div_add_mod offset.toNat BlockSize
      rw [← hrounds, Nat.mul_sub]
      omega
    rw [h.delivers (by omega) (by rw [hrem']; rw [Nat.mul_succ] at hspace; omega)
      (by rw [hleft]; have := length.isLt; omega)]
    have hm : min length.toNat (node.size.toNat - offset.toNat) =
        len.toNat + min (length.toNat - len.toNat)
          (node.size.toNat - offset.toNat - len.toNat) := by
      omega
    have htail :
          ((List.range
          (min (length.toNat - len.toNat) (node.size.toNat - offset.toNat - len.toNat))).map
          fun p => fs.blockByte node ((BlockSize * (offset.toNat / BlockSize + 1) + p) / BlockSize)
            ((BlockSize * (offset.toNat / BlockSize + 1) + p) % BlockSize)) =
        (List.range (min (length.toNat - len.toNat)
          (node.size.toNat - offset.toNat - len.toNat))).map
          (fs.takenByte node offset.toNat ∘ fun p => len.toNat + p) := by
      apply List.map_congr_left
      intro p hp
      -- more rounds follow, so the first took a whole block
      have hp' := List.mem_range.mp hp
      have hwhole : len.toNat = BlockSize := by omega
      show fs.blockByte node _ _ = fs.takenByte node offset.toNat (len.toNat + p)
      rw [takenByte, if_neg (by omega), hwhole, Nat.mul_add_div (by decide), Nat.mul_add_mod,
        Nat.add_div_left p (by decide), Nat.add_mod_left, Nat.add_assoc, Nat.add_comm 1]
    rw [hleft, hrem', hm, List.range_add, List.map_append, memcpy_append, List.length_map,
      List.length_range, List.map_map, BitVec.ofNat_add, BitVec.ofNat_toNat, BitVec.setWidth_eq,
      Nat.zero_add, htail]

/-- **Past the end, in the last block**: the rest of a file of negative length is read. -/
theorem readDataLoop_pastEnd (h : fs.FileInside node)
    (hsize : BlockSize * node.numDataBlocks.toNat < node.size.toNat + BlockSize)
    (hlt : node.size.toNat < offset.toNat)
    (hs : offset.toNat / BlockSize < node.numDataBlocks.toNat) :
    (fs.readDataLoop node (node.numDataBlocks.toNat - offset.toNat / BlockSize)
      (offset.toNat / BlockSize) length
      (node.size - offset) (BitVec.ofNat 32 (offset.toNat % BlockSize)) 0 []).1.toNat =
      min length.toNat BlockSize := by
  have hdiv := Nat.div_add_mod offset.toNat BlockSize
  have hmod := Nat.mod_lt offset.toNat (show 0 < BlockSize by decide)
  have hmul : BlockSize * (offset.toNat / BlockSize + 1) ≤ BlockSize * node.numDataBlocks.toNat :=
    Nat.mul_le_mul_left _ hs
  have hone : node.numDataBlocks.toNat - offset.toNat / BlockSize = 0 + 1 := by
    unfold BlockSize at *
    omega
  have hrem : BlockSize ≤ (node.size - offset).toNat := by
    have hbound := offset.isLt
    rw [BitVec.toNat_sub]
    unfold BlockSize at *
    omega
  rw [hone, readDataLoop_first h hs]
  have hlen := toNat_roundLen length (node.size - offset)
  split
  all_goals
    show (roundLen length (node.size - offset)).toNat = _
    omega

/-! ## The buffer

  The caller sees the memory it passed.  What was stored there is right exactly if the bytes
  taken are those of the file, since there are as many. -/

/-- **A copy of `n` bytes is the read of a file** exactly if they are the bytes of the file. -/
theorem copy_right_iff {bytes file : List (BitVec 8)} (hlen : bytes.length = file.length) :
    ((∀ store ∈ memcpy 0 bytes, store.1 < file.length) ∧
      ∀ mem i b, file[i]? = some b → contents mem (memcpy 0 bytes) i = b) ↔ bytes = file := by
  constructor
  · rintro ⟨-, hbytes⟩
    apply List.ext_getElem? fun i => ?_
    cases hi : file[i]? with
    | none =>
      rw [List.getElem?_eq_none_iff] at hi ⊢
      omega
    | some b =>
      have hlt : i < bytes.length := hlen ▸ (List.getElem?_eq_some_iff.mp hi).1
      have hcopy := @contents_memcpy (fun _ => 0) bytes 0 _ _ (List.getElem?_eq_getElem hlt)
      rw [Nat.zero_add, hbytes _ i b hi] at hcopy
      rw [List.getElem?_eq_getElem hlt, hcopy]
  · rintro rfl
    constructor
    · intro store hstore
      have hin := mem_memcpy.mp ⟨store.2, hstore⟩
      omega
    · intro mem i b hb
      have hcopy := @contents_memcpy mem bytes 0 _ _ hb
      rwa [Nat.zero_add] at hcopy

/-! ## When a read is right

  Byte for byte, the one that was taken against the one that ought to have been
  (`takenByte_eq_iff`).  In the first 4096 bytes they differ only behind the end of the block;
  after them they are as far apart as the offset is into its block. -/

/-- The bytes taken are those of the file exactly if the read starts well. -/
theorem takenByte_eq_iff (n : Nat) :
    ((List.range n).map (fs.takenByte node offset.toNat) = (List.range n).map fun j =>
      fs.blockByte node ((offset.toNat + j) / BlockSize) ((offset.toNat + j) % BlockSize)) ↔
    (∀ j, j < n → j < BlockSize → BlockSize ≤ offset.toNat % BlockSize + j →
      fs.blockByte node (offset.toNat / BlockSize) (offset.toNat % BlockSize + j) =
        fs.blockByte node ((offset.toNat + j) / BlockSize) ((offset.toNat + j) % BlockSize)) ∧
    ∀ j, j < n → BlockSize ≤ j →
      fs.blockByte node (offset.toNat / BlockSize + j / BlockSize) (j % BlockSize) =
        fs.blockByte node ((offset.toNat + j) / BlockSize) ((offset.toNat + j) % BlockSize) := by
  rw [List.map_inj_left]
  constructor
  · intro h
    refine ⟨fun j hj hblock _ => ?_, fun j hj hblock => ?_⟩
    · have hbyte := h j (List.mem_range.mpr hj)
      rwa [takenByte, if_pos hblock] at hbyte
    · have hbyte := h j (List.mem_range.mpr hj)
      rwa [takenByte, if_neg (by omega)] at hbyte
  · rintro ⟨hnext, hshifted⟩ j hj
    have hj' := List.mem_range.mp hj
    rw [takenByte]
    split
    · next hblock =>
      rcases le_or_gt BlockSize (offset.toNat % BlockSize + j) with hcross | hin
      · exact hnext j hj' hblock hcross
      · -- still in the block of the offset
        have hdiv := Nat.div_add_mod offset.toNat BlockSize
        have hpos : offset.toNat + j =
            BlockSize * (offset.toNat / BlockSize) + (offset.toNat % BlockSize + j) := by omega
        have hblock' : (offset.toNat + j) / BlockSize = offset.toNat / BlockSize := by
          rw [hpos, Nat.mul_add_div (by decide), Nat.div_eq_of_lt hin, Nat.add_zero]
        have hmod : (offset.toNat + j) % BlockSize = offset.toNat % BlockSize + j := by
          rw [hpos, Nat.mul_add_mod, Nat.mod_eq_of_lt hin]
        rw [hblock', hmod]
    · next hblock => exact hshifted j hj' (by omega)

/-- A read that copies as many bytes as there are is right exactly if they are the file's. -/
theorem readsFile_iff_bytes {inode : BitVec 32} (bytes : List (BitVec 8))
    (hread : fs.readData inode offset length = (BitVec.ofNat 32 bytes.length, memcpy 0 bytes))
    (hlen : bytes.length =
      (((fs.fileBytes (fs.inodes inode.toNat)).drop offset.toNat).take length.toNat).length) :
    fs.ReadsFile inode offset length ↔
      bytes = ((fs.fileBytes (fs.inodes inode.toNat)).drop offset.toNat).take length.toNat := by
  have hshort : bytes.length ≤ length.toNat := by
    rw [hlen]
    exact List.length_take_le ..
  rw [← copy_right_iff hlen]
  constructor
  · rintro ⟨-, hwithin, hbytes⟩
    rw [hread] at hwithin hbytes
    exact ⟨hwithin, hbytes⟩
  · rintro ⟨hwithin, hbytes⟩
    constructor
    case ret =>
      rw [hread, ← hlen, BitVec.toNat_ofNat]
      exact Nat.mod_eq_of_lt (by have := length.isLt; omega)
    case within => rw [hread]; exact hwithin
    case bytes => rw [hread]; exact hbytes

/-- A byte is in one of the first `n` blocks. -/
theorem block_lt_iff {p n : Nat} : p / BlockSize < n ↔ p < BlockSize * n := by
  rw [Nat.div_lt_iff_lt_mul (by decide), Nat.mul_comm]

section Cases

variable {inode : BitVec 32} (hi : inode < fs.numInodes)

include hi

/-- `readData` is the loop over the blocks, if the inode exists. -/
theorem readData_eq : fs.readData inode offset length = fs.readDataLoop (fs.inodes inode.toNat)
    ((fs.inodes inode.toNat).numDataBlocks.toNat - offset.toNat / BlockSize)
      (offset.toNat / BlockSize) length
    ((fs.inodes inode.toNat).size - offset) (BitVec.ofNat 32 (offset.toNat % BlockSize)) 0 [] :=
  if_pos (BitVec.le_of_lt hi)

/-- Past the last block there is nothing to read, and no round. -/
theorem readsFile_pastBlocks
    (hsize : (fs.inodes inode.toNat).size.toNat ≤
      BlockSize * (fs.inodes inode.toNat).numDataBlocks.toNat)
    (hend : BlockSize * (fs.inodes inode.toNat).numDataBlocks.toNat ≤ offset.toNat) :
    fs.ReadsFile inode offset length := by
  have hread := @readData_eq fs offset length _ hi
  have h0 : min length.toNat ((fs.inodes inode.toNat).size.toNat - offset.toNat) = 0 := by omega
  have hpast : (fs.inodes inode.toNat).numDataBlocks.toNat ≤ offset.toNat / BlockSize :=
    Nat.le_of_not_lt fun hlt => Nat.not_lt.mpr hend (block_lt_iff.mp hlt)
  rw [Nat.sub_eq_zero_of_le hpast] at hread
  have hfile := @drop_take_fileBytes fs _ hsize offset.toNat length.toNat
  rw [h0] at hfile
  exact (readsFile_iff_bytes [] hread (by rw [hfile]; rfl)).mpr hfile.symm

/-- In the last block past the end of the file a read is right only if nothing is asked for. -/
theorem readsFile_pastEnd_iff (h : fs.FileInside (fs.inodes inode.toNat))
    (hsize : (fs.inodes inode.toNat).size.toNat ≤
      BlockSize * (fs.inodes inode.toNat).numDataBlocks.toNat)
    (hsize' : BlockSize * (fs.inodes inode.toNat).numDataBlocks.toNat <
      (fs.inodes inode.toNat).size.toNat + BlockSize)
    (hlt : (fs.inodes inode.toNat).size.toNat < offset.toNat)
    (hin : offset.toNat < BlockSize * (fs.inodes inode.toNat).numDataBlocks.toNat) :
    fs.ReadsFile inode offset length ↔ length = 0 := by
  have hs := block_lt_iff.mpr hin
  have hfile := @drop_take_fileBytes fs _ hsize offset.toNat length.toNat
  have hread := @readData_eq fs offset length _ hi
  constructor
  · intro hr
    have hret := @readDataLoop_pastEnd fs _ offset length h hsize' hlt hs
    have hr0 := hr.ret
    have hB : 0 < BlockSize := by decide
    rw [hread, hret, hfile, List.length_map, List.length_range] at hr0
    exact BitVec.eq_of_toNat_eq (show length.toNat = 0 by omega)
  · rintro rfl
    obtain ⟨rounds, hrounds⟩ : ∃ rounds, (fs.inodes inode.toNat).numDataBlocks.toNat -
        offset.toNat / BlockSize = rounds + 1 :=
        ⟨_, (Nat.succ_pred_eq_of_pos (Nat.sub_pos_of_lt hs)).symm⟩
    have hlen : roundLen 0 ((fs.inodes inode.toNat).size - offset) = 0 := by
      apply BitVec.eq_of_toNat_eq
      have hround := toNat_roundLen 0 ((fs.inodes inode.toNat).size - offset)
      have h0 : (0 : BitVec 32).toNat = 0 := rfl
      omega
    rw [hrounds, readDataLoop_first h hs, hlen, if_pos (by decide : (0 : BitVec 32) - 0 = 0)]
      at hread
    exact (readsFile_iff_bytes [] hread rfl).mpr List.take_zero.symm

/-- Anywhere else it is right exactly if the bytes taken are those of the file. -/
theorem readsFile_iff_taken (h : fs.FileInside (fs.inodes inode.toNat))
    (hsize : (fs.inodes inode.toNat).size.toNat ≤
      BlockSize * (fs.inodes inode.toNat).numDataBlocks.toNat)
    (hle : offset.toNat ≤ (fs.inodes inode.toNat).size.toNat)
    (hin : offset.toNat < BlockSize * (fs.inodes inode.toNat).numDataBlocks.toNat) :
    fs.ReadsFile inode offset length ↔
      (List.range (min length.toNat ((fs.inodes inode.toNat).size.toNat - offset.toNat))).map
        (fs.takenByte (fs.inodes inode.toNat) offset.toNat) =
      (List.range (min length.toNat ((fs.inodes inode.toNat).size.toNat - offset.toNat))).map
        fun j =>
        fs.blockByte (fs.inodes inode.toNat) ((offset.toNat + j) / BlockSize)
          ((offset.toNat + j) % BlockSize) := by
  have hread := @readData_eq fs offset length _ hi
  rw [readDataLoop_takes h hsize hle (block_lt_iff.mpr hin)] at hread
  have hfile := @drop_take_fileBytes fs _ hsize offset.toNat length.toNat
  have hlen :
      ((List.range (min length.toNat ((fs.inodes inode.toNat).size.toNat - offset.toNat))).map
      (fs.takenByte (fs.inodes inode.toNat) offset.toNat)).length =
      min length.toNat ((fs.inodes inode.toNat).size.toNat - offset.toNat) := by
    rw [List.length_map, List.length_range]
  rw [readsFile_iff_bytes ((List.range _).map (fs.takenByte (fs.inodes inode.toNat) offset.toNat))
    (by rw [hlen]; exact hread) (by rw [hfile, hlen, List.length_map, List.length_range]), hfile]

/-- **When a read is right**, for a file whose blocks are there and as many as its size takes. -/
theorem readsFile_iff_startsWell (h : fs.FileInside (fs.inodes inode.toNat))
    (hsize : (fs.inodes inode.toNat).size.toNat ≤
      BlockSize * (fs.inodes inode.toNat).numDataBlocks.toNat)
    (hsize' : BlockSize * (fs.inodes inode.toNat).numDataBlocks.toNat <
      (fs.inodes inode.toNat).size.toNat + BlockSize) :
    fs.ReadsFile inode offset length ↔ fs.StartsWell (fs.inodes inode.toNat) offset length := by
  rcases Nat.lt_or_ge offset.toNat (BlockSize * (fs.inodes inode.toNat).numDataBlocks.toNat) with
    hin | hend
  · rcases Nat.lt_or_ge (fs.inodes inode.toNat).size.toNat offset.toNat with hlt | hle
    · rw [readsFile_pastEnd_iff hi h hsize hsize' hlt hin]
      constructor
      · intro hzero
        refine ⟨fun _ => .inl hzero, fun j hj => ?_, fun j hj => ?_⟩
        · omega
        · omega
      · exact fun hw => (hw.pastEnd hlt).resolve_right (Nat.not_le.mpr hin)
    · rw [readsFile_iff_taken hi h hsize hle hin, takenByte_eq_iff]
      constructor
      · rintro ⟨hnext, hshifted⟩
        exact ⟨fun hlt => absurd hlt (by rw [BitVec.lt_def]; omega), hnext, hshifted⟩
      · exact fun hw => ⟨hw.nextBlock, hw.shifted⟩
  · refine iff_of_true (readsFile_pastBlocks hi hsize hend)
      ⟨fun _ => .inr hend, fun j hj => ?_, fun j hj => ?_⟩
    · omega
    · omega

end Cases

/-- A read that ends in the block it starts in, and not past the end of the file, starts well. -/
theorem StartsWell.of_inBlock (hle : offset ≤ node.size)
    (hblock : offset.toNat % BlockSize + min length.toNat (node.size.toNat - offset.toNat) ≤
      BlockSize) :
    fs.StartsWell node offset length := by
  constructor
  case pastEnd => exact fun hlt => absurd hle (BitVec.not_le.mpr hlt)
  case nextBlock =>
    intro j hj _ hcross
    omega
  case shifted =>
    intro j hj hcross
    omega

end KissFS

/-! ## A mounted image -/

/-- In a well-formed image every file has its blocks. -/
theorem Image.WellFormed.fileInside {img : Image} (h : img.WellFormed) {dentries : Nat → Dentry}
    {inodes : Nat → Inode} {names : LinearProbingHashTable Filename (BitVec 32)} {n : BitVec 32}
    (hn : n < img.numInodes) : (img.mounted dentries inodes names).toKissFS.FileInside
      ((img.mounted dentries inodes names).inodes n.toNat) := by
  rw [mounted_inode dentries inodes names hn]
  intro k hk
  have hkept := img.toNat_numInodes_le
  have hid := h.blockIds n.toNat k (Nat.lt_of_lt_of_le hn hkept) hk
  have hlayout := h.layout
  rw [img.inode_datablocks _ hk, BitVec.le_def]
  show (img.blockId n.toNat k).toNat ≤ (img.word 8).toNat ∧
    1 + img.numInodes.toNat + (img.blockId n.toNat k).toNat < img.numBlocks.toNat
  omega

/-- **When a read of a mounted image is right.** -/
theorem mounted_readsFile_iff {img : Image} {dentries : Nat → Dentry} {inodes : Nat → Inode}
    {names : LinearProbingHashTable Filename (BitVec 32)} {inode : BitVec 32}
    (hi : inode < img.numInodes) (hinside : (img.mounted dentries inodes names).toKissFS.FileInside
      ((img.mounted dentries inodes names).inodes inode.toNat)) (offset length : BitVec 32) :
    (img.mounted dentries inodes names).toKissFS.ReadsFile inode offset length ↔
      (img.mounted dentries inodes names).toKissFS.StartsWell
        ((img.mounted dentries inodes names).inodes inode.toNat) offset length := by
  obtain ⟨hsize, hsize'⟩ := img.numDataBlocks_spec inode.toNat
  have hnode := mounted_inode dentries inodes names hi
  apply KissFS.readsFile_iff_startsWell hi hinside
  · rw [hnode]
    exact hsize
  · rw [hnode]
    exact hsize'

/-- **When a read is right**: of a loaded file system, an inode it has and whose blocks are there,
    from any offset and of any length. -/
theorem readsFile_iff (img : Image) (dentries : Nat → Dentry) (inodes : Nat → Inode)
    {st : KissState} (hload : initFromMemoryAddress img dentries inodes = .ok st)
    {inode : BitVec 32} (hi : inode < st.numInodes)
    (hinside : st.toKissFS.FileInside (st.inodes inode.toNat)) (offset length : BitVec 32) :
    st.toKissFS.ReadsFile inode offset length ↔
      st.toKissFS.StartsWell (st.inodes inode.toNat) offset length := by
  obtain ⟨-, names, -, rfl⟩ := img.of_init hload
  exact mounted_readsFile_iff hi hinside offset length

/-- The one byte of a file is read. -/
theorem readsFile_iff_oneFile :
    ∃ st, initFromMemoryAddress (oneFile 1) (fun _ => ⟨fun _ => 0, 0, 0⟩)
      (fun _ => ⟨0, fun _ => 0, 0⟩) = .ok st ∧
      st.toKissFS.ReadsFile 0 0 1 := by
  have hwf : (oneFile 1).WellFormed := by decide +kernel
  obtain ⟨names, -, hinit⟩ :=
    (oneFile 1).init_exactly (fun _ => ⟨fun _ => 0, 0, 0⟩) (fun _ => ⟨0, fun _ => 0, 0⟩)
  have hi : (0 : BitVec 32) < (oneFile 1).numInodes := by decide +kernel
  have hload := hinit.succeeds hwf.initSafe
  refine ⟨_, hload, (readsFile_iff (oneFile 1) _ _ hload hi (hwf.fileInside hi) 0 1).mpr ?_⟩
  apply KissFS.StartsWell.of_inBlock
  · exact BitVec.le_def.mpr (Nat.zero_le _)
  · show 0 % BlockSize + min 1 _ ≤ BlockSize
    unfold BlockSize
    omega

/-- An image of three data blocks with one file of two: the first and the last.  The block between
    them holds a byte. -/
def splitFile : Image where
  bytes off :=
    if off.toNat = 0 then 1
    else if off.toNat = 4 then 1
    else if off.toNat = 8 then 3
    else if off.toNat = 64 then 0x61
    else if off.toNat = 96 then 2
    else if off.toNat = 4097 then 0x20
    else if off.toNat = 4104 then 2
    else if off.toNat = 4096 * 3 then 1
    else 0
  startingAddr := 0
  endingAddr := BitVec.ofNat 32 (4096 * 5)

/-- Reading two bytes from offset 4095 on takes the second from the block between. -/
theorem otherBlock_read :
    ¬ ∀ (img : Image) (dentries : Nat → Dentry) (inodes : Nat → Inode) (st : KissState),
      initFromMemoryAddress img dentries inodes = .ok st → ∀ inode, inode < st.numInodes →
      st.toKissFS.FileInside (st.inodes inode.toNat) → ∀ offset length,
      st.toKissFS.ReadsFile inode offset length := by
  intro h
  have hwf : splitFile.WellFormed := by decide +kernel
  obtain ⟨names, -, hinit⟩ :=
    splitFile.init_exactly (fun _ => ⟨fun _ => 0, 0, 0⟩) (fun _ => ⟨0, fun _ => 0, 0⟩)
  have hi : (0 : BitVec 32) < splitFile.numInodes := by decide +kernel
  have hright := h splitFile _ _ _ (hinit.succeeds hwf.initSafe) 0 hi (hwf.fileInside hi) 4095 2
  have hwell := (mounted_readsFile_iff hi (hwf.fileInside hi) 4095 2).mp hright
  dsimp only [Image.mounted] at hwell
  exact absurd (hwell.nextBlock 1 (by decide +kernel) (by decide +kernel) (by decide +kernel))
    (by decide +kernel)

end TedkOS.Fs
