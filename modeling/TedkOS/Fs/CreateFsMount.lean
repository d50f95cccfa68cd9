/-
  The file system that mounting an image of createfs gives (src/createfs.c, fs/kissfs.cpp).

  The two programs agree on the format up to one thing: the image announces twice as many inodes as
  there are files, and the reader keeps 64 at most and looks for the blocks after these.  So with
  more than 32 files every block is looked for in the wrong place.

  1. **The blocks of the image** — the output is written block by block, some never; since no block
     is written twice (`nodup_writes`), each has what was written to it, and those never written are
     zero (`Laid`).

  2. **What the image says** — the counts, the entries, the inodes and the block numbers, as the
     reader takes them from the bytes.  So the image can be mounted (`initSafe`).

  3. **Names and contents** — the reader finds a file by its name (`openFile`), and the bytes in its
     blocks are the file's (`fileBytes`).

  `mounted_files` is the round trip for at most 32 files: every regular file of the directory opens
  under its name, cut at 31 characters, and its bytes are those of the directory, whatever the
  random numbers were, and whatever was in the memory the program allocated.
-/
import TedkOS.Fs.CreateFsNumbers
import TedkOS.Fs.KissRead

namespace TedkOS.Fs

open Klibs

/-- The byte at an offset. -/
def Image.mem (img : Image) (i : Nat) : BitVec 8 := img.bytes (BitVec.ofNat 32 i)

namespace CreateFs

/-- The output is in memory as a boot module. -/
structure Loaded (img : Image) (out : BlockFile.File (BitVec 8)) : Prop where
  length : (img.endingAddr - img.startingAddr).toNat = out.length
  bytes : ∀ i, i < out.length → img.mem i = out.bytes i

/-- The file is there to be read: `stat` gives its size, and the reads its bytes. -/
structure DirEntry.Contains (e : DirEntry) (bytes : List (BitVec 8)) : Prop where
  size : e.st_size = bytes.length
  read : ∀ i, 4096 * i < bytes.length → e.read i = some ((bytes.drop (4096 * i)).take 4096)

/-- A name as an entry holds it. -/
def storedName (name : Nat → BitVec 8) : List (BitVec 8) := strncpy name 31 ++ [0]

/-! ## The blocks of the image

  The program writes to the output file at positions that are multiples of 4096.  The places are
  the boot block, one for each inode drawn and one for each block drawn, so they differ because
  the numbers do. -/

section Blocks

variable {malloc : Nat → Nat → Nat → BitVec 8} {es : List DirEntry} {bblock : Nat → BitVec 8}
  {bufs : List InodeData}

namespace Made

variable (h : Made malloc es bblock bufs)

include h

/-- An inode belongs to a file. -/
theorem fileOf_mem {buf : InodeData} (hbuf : buf ∈ bufs) :
    ∃ (k : Nat) (e : DirEntry), es[k]? = some e ∧ bufs[k]? = some buf ∧
    buf.blocks.length = buf.datablocks.length := by
  obtain ⟨k, hk⟩ := List.mem_iff_getElem?.mp hbuf
  obtain ⟨hlt, -⟩ := List.getElem?_eq_some_iff.mp hk
  have he := List.getElem?_eq_getElem (h.length ▸ hlt)
  obtain ⟨-, hblocks, hlen⟩ := h.files k _ buf he hk
  refine ⟨k, _, he, hk, ?_⟩
  rw [hlen, hblocks, fileOf, List.length_map, List.length_range]

/-- The blocks of the output that are written, in their order. -/
theorem map_fst_writes (n : Nat) : (writes bblock bufs n).map Prod.fst =
    0 :: ((bufs.map InodeData.inode).map (· + 1) ++ (bufs.flatMap InodeData.datablocks).map
      (· + n + 1)) := by
  have hdata : ∀ buf ∈ bufs, ((buf.datablocks.map (· + n + 1)).zip buf.blocks).map Prod.fst =
      buf.datablocks.map (· + n + 1) := by
    intro buf hbuf
    obtain ⟨-, -, -, -, hlen⟩ := h.fileOf_mem hbuf
    apply List.map_fst_zip
    rw [List.length_map, hlen]
  rw [writes, List.map_append, List.map_cons, List.map_map, List.map_flatMap, List.map_flatMap,
    List.map_map, List.flatMap_congr hdata]
  rfl

/-- **No block is written twice**: the boot block is block 0, an inode block has a number from 1
    up to the number of the inodes, and the data blocks come behind these. -/
theorem nodup_writes : ((writes bblock bufs (2 * es.length)).map Prod.fst).Nodup := by
  rw [h.map_fst_writes, List.nodup_cons, List.nodup_append]
  refine ⟨?_, h.inodes.map (add_left_injective 1), h.ids.map fun a b hab => ?_, ?_⟩
  · intro hin
    -- block 0 is neither of the others, which count from 1
    rcases List.mem_append.mp hin with hin | hin
    · obtain ⟨_, -, h0⟩ := List.mem_map.mp hin
      omega
    · obtain ⟨_, -, h0⟩ := List.mem_map.mp hin
      omega
  · have hab' : a + 2 * es.length + 1 = b + 2 * es.length + 1 := hab
    omega
  · -- the blocks come after the inodes
    rintro a ha b hb rfl
    obtain ⟨inode, hinode, hia⟩ := List.mem_map.mp ha
    obtain ⟨buf, hbuf, rfl⟩ := List.mem_map.mp hinode
    obtain ⟨id, -, hida⟩ := List.mem_map.mp hb
    have hlt := h.inode_lt buf hbuf
    omega

end Made

/-- What the image in memory consists of. -/
structure Laid (malloc : Nat → Nat → Nat → BitVec 8) (es : List DirEntry) (bblock : Nat → BitVec 8)
    (bufs : List InodeData) (img : Image) : Prop extends Made malloc es bblock bufs where
  boot : ∀ j, j < 4096 → img.mem j = bblock j
  inodeBlock : ∀ buf ∈ bufs, ∀ j, j < 4096 → img.mem (4096 * (buf.inode + 1) + j) = buf.block j
  dataBlock : ∀ buf ∈ bufs, ∀ (k id : Nat) data, buf.datablocks[k]? = some id →
    buf.blocks[k]? = some data → ∀ j, j < 4096 →
    img.mem (4096 * (id + 2 * es.length + 1) + j) = data j
  /-- The inode blocks that no file has were skipped, so that the file is zero there. -/
  noInode : ∀ i, i < 2 * es.length → i + 1 < img.numBlocks.toNat → (∀ buf ∈ bufs, buf.inode ≠ i) →
    ∀ j, j < 4096 → img.mem (4096 * (i + 1) + j) = 0
  /-- The boot block is in the image. -/
  bootInside : 0 < img.numBlocks.toNat
  inodeInside : ∀ buf ∈ bufs, buf.inode + 1 < img.numBlocks.toNat
  /-- All blocks written are in the image; those behind the last one are not. -/
  dataInside : ∀ id ∈ bufs.flatMap InodeData.datablocks,
    id + 2 * es.length + 1 < img.numBlocks.toNat

/-- **The output, loaded**: every block is where it was written. -/
theorem Made.laid (h : Made malloc es bblock bufs) {img : Image}
    (himg : Loaded img
      (BlockFile.writeAll 4096 ⟨0, fun _ => 0⟩ (writes bblock bufs (2 * es.length)))) :
    Laid malloc es bblock bufs img := by
  have hnodup := h.nodup_writes
  have hfst := h.map_fst_writes (2 * es.length)
  have hB : (BitVec.ofNat 32 BlockSize).toNat = 4096 := by decide
  have hblocks : 4096 * img.numBlocks.toNat =
      (BlockFile.writeAll 4096 ⟨0, fun _ => 0⟩ (writes bblock bufs (2 * es.length))).length := by
    rw [Image.numBlocks, BitVec.toNat_udiv, hB, himg.length]
    exact Nat.mul_div_cancel' (BlockFile.dvd_length (Nat.dvd_zero 4096))
  have hinside : ∀ b ∈ (writes bblock bufs (2 * es.length)).map Prod.fst,
      b < img.numBlocks.toNat := by
    intro b hb
    have hle := @BlockFile.le_length _ 4096 ⟨0, fun _ => (0 : BitVec 8)⟩ _ _ hb
    omega
  -- a block has what was written to it, since it was written once
  have hblock : ∀ (b : Nat) data, (b, data) ∈ writes bblock bufs (2 * es.length) → ∀ j, j < 4096 →
      img.mem (4096 * b + j) = data j := by
    intro b data hb j hj
    have hin := hinside b (List.mem_map_of_mem hb)
    rw [himg.bytes _ (by omega)]
    exact BlockFile.bytes_of_mem hnodup hb hj
  constructor
  case toMade => exact h
  case boot =>
    intro j hj
    have hboot := hblock 0 bblock (List.mem_append_left _ List.mem_cons_self) j hj
    rwa [Nat.mul_zero, Nat.zero_add] at hboot
  case inodeBlock =>
    intro buf hbuf
    exact hblock _ _ (List.mem_append_left _ (List.mem_cons_of_mem _
      (List.mem_map_of_mem (f := fun buf : InodeData => (buf.inode + 1, buf.block)) hbuf)))
  case dataBlock =>
    intro buf hbuf k id data hid hdata
    refine hblock _ _ (List.mem_append_right _ (List.mem_flatMap.mpr ⟨buf, hbuf, ?_⟩))
    refine List.mem_of_getElem? (i := k) ?_
    rw [List.getElem?_zip_eq_some, List.getElem?_map, hid]
    exact ⟨rfl, hdata⟩
  case noInode =>
    -- no block is written for an inode that was not drawn, so it is zero
    intro i hi hin hnone j hj
    rw [himg.bytes _ (by omega), BlockFile.bytes_of_not_mem ?_ hj]
    rw [hfst, List.mem_cons, List.mem_append]
    rintro (h0 | hin | hin)
    · omega
    · obtain ⟨_, hinode, heq⟩ := List.mem_map.mp hin
      obtain ⟨buf, hbuf, rfl⟩ := List.mem_map.mp hinode
      exact hnone buf hbuf (Nat.add_right_cancel heq)
    · obtain ⟨id, -, heq⟩ := List.mem_map.mp hin
      omega
  case bootInside => exact hinside 0 (hfst ▸ List.mem_cons_self)
  case inodeInside =>
    intro buf hbuf
    apply hinside
    rw [hfst]
    exact List.mem_cons_of_mem _
      (List.mem_append_left _ (List.mem_map_of_mem (List.mem_map_of_mem hbuf)))
  case dataInside =>
    intro id hid
    apply hinside
    rw [hfst]
    exact List.mem_cons_of_mem _ (List.mem_append_right _
      (List.mem_map_of_mem (f := fun id => id + 2 * es.length + 1) hid))

/-! ## What the image says

  The fields are 32-bit words of the boot block and of the inode blocks.  Each is read at the
  offset at which it was written; no value is cut, as the counts are small. -/

/-- A word of a block is the word of what the block was written from. -/
theorem getDword_block {mem block : Nat → BitVec 8} {a off : Nat}
    (hmem : ∀ j, j < 4096 → mem (a + j) = block j) (hoff : off + 4 ≤ 4096) :
    getDword mem (a + off) = getDword block off := by
  have hbyte : ∀ j, j < 4 → mem (a + off + j) = block (off + j) := by
    intro j hj
    rw [Nat.add_assoc, hmem _ (by omega)]
  rw [getDword, getDword, hbyte 3 (by decide), hbyte 2 (by decide), hbyte 1 (by decide)]
  exact congrArg (_ ++ ·) (hbyte 0 (by decide))

/-- Bytes in the middle of a copy. -/
theorem bytesFrom_middle {mem : Nat → BitVec 8} {off : Nat} (a b c : List (BitVec 8)) :
    bytesFrom (contents mem (memcpy off (a ++ b ++ c))) (off + a.length) b.length = b := by
  have hall := @bytesFrom_memcpy mem (a ++ b ++ c) off
  rw [List.length_append, List.length_append, bytesFrom_add, bytesFrom_add] at hall
  obtain ⟨hab, -⟩ := List.append_inj' hall (length_bytesFrom ..)
  exact (List.append_inj' hab (length_bytesFrom ..)).2

/-- An inode block begins with the size of the file. -/
theorem InodeData.block_size (buf : InodeData) : getDword buf.block 0 = buf.size :=
  getDword_eq_iff.mpr (bytesFrom_middle [] (wordBytes buf.size) _)

/-- Behind it are the numbers of the blocks, in their order. -/
theorem InodeData.block_id {buf : InodeData} {k id : Nat} (hid : buf.datablocks[k]? = some id) :
    getDword buf.block (4 + 4 * k) = BitVec.ofNat 32 id := by
  obtain ⟨hk, rfl⟩ := List.getElem?_eq_some_iff.mp hid
  have hlen : ((buf.datablocks.take k).flatMap fun id => wordBytes (BitVec.ofNat 32 id)).length =
      4 * k := by
    have htake : (buf.datablocks.take k).length = k := List.length_take_of_le (Nat.le_of_lt hk)
    rw [List.length_flatMap]
    show ((buf.datablocks.take k).map fun _ => 4).sum = 4 * k
    rw [List.map_const', htake, List.sum_replicate_nat, Nat.mul_comm]
  have hsplit :
      buf.datablocks = buf.datablocks.take k ++ [buf.datablocks[k]] ++
        buf.datablocks.drop (k + 1) := by
    rw [List.append_assoc, List.singleton_append, ← List.drop_eq_getElem_cons hk,
      List.take_append_drop]
  have hmiddle := @bytesFrom_middle (fun _ => 0) 0 (wordBytes buf.size ++
    (buf.datablocks.take k).flatMap fun id => wordBytes (BitVec.ofNat 32 id))
    (wordBytes (BitVec.ofNat 32 buf.datablocks[k]))
    ((buf.datablocks.drop (k + 1)).flatMap fun id => wordBytes (BitVec.ofNat 32 id))
  rw [List.length_append, hlen, Nat.zero_add] at hmiddle
  rw [getDword_eq_iff, InodeData.block]
  refine Eq.trans ?_ hmiddle
  conv_lhs => rw [hsplit]
  rw [List.flatMap_append, List.flatMap_append, List.flatMap_singleton, List.append_assoc,
    List.append_assoc, List.append_assoc]
  rfl

namespace Laid

variable {img : Image} (h : Laid malloc es bblock bufs img)

include h

/-- A word of the boot block. -/
theorem bootWord {off : Nat} (hoff : off + 4 ≤ 4096) : img.word off = getDword bblock off := by
  have hword :=
    @getDword_block img.mem bblock 0 off (fun j hj => by rw [Nat.zero_add]; exact h.boot j hj) hoff
  rwa [Nat.zero_add] at hword

/-- The counts of the boot block, as the reader keeps them. -/
theorem toNat_numDentries : img.numDentries.toNat = es.length + 1 := by
  have hfew := h.few
  rw [Image.numDentries, toNat_clamp, h.bootWord (by decide), h.count, BitVec.toNat_ofNat]
  unfold MaxNumFiles
  omega

/-- The inodes announced, as long as the reader does not cut their number at 64. -/
theorem toNat_numInodes (hfew : es.length ≤ 32) : img.numInodes.toNat = 2 * es.length := by
  rw [img.toNat_numInodes, h.bootWord (by decide), h.numInodes, BitVec.toNat_ofNat]
  unfold MaxNumFiles
  omega

/-- The blocks announced. -/
theorem toNat_numTotalDataBlocks : img.numTotalDataBlocks.toNat = 2 * allBlocks es := by
  have hfew := h.few
  have hall := allBlocks_le h.kept
  rw [Image.numTotalDataBlocks, h.bootWord (by decide), h.numDatablocks, BitVec.toNat_ofNat,
    Nat.mod_eq_of_lt (by omega)]

/-- The entry in a slot of the boot block. -/
theorem dentry_slot {slot : Nat} (hslot : slot < 63) {name : Nat → BitVec 8}
    {filetype inode : BitVec 32}
    (hbytes : bytesFrom bblock (64 * (slot + 1)) 64 = slotBytes name filetype inode) :
    img.dentry slot = ⟨filenameOf (storedName name), filetype, inode⟩ := by
  obtain ⟨hname, hnul, htype, hinode, -⟩ := slot_iff.mp hbytes
  have hchars :
    ((List.range MaxFilenameLength).map
    fun j => img.bytes (BitVec.ofNat 32 (64 * (slot + 1) + j))) =
      storedName name := by
    rw [storedName, ← hname, ← hnul, ← bytesFrom_add]
    apply List.map_congr_left
    intro j hj
    have hj' := List.mem_range.mp hj
    unfold MaxFilenameLength at hj'
    exact h.boot _ (by omega)
  rw [Image.dentry, hchars, h.bootWord (by omega), h.bootWord (by omega), getDword_eq_iff.mpr htype,
    getDword_eq_iff.mpr hinode]

/-- Entry 0 is that of the directory itself. -/
theorem dentry_root : img.dentry 0 = ⟨filenameOf (storedName (cstring [0x2E])), 1, 0⟩ :=
  h.dentry_slot (by decide) h.root

/-- The entries of the files follow, in their order. -/
theorem dentry_file {k : Nat} {e : DirEntry} {buf : InodeData} (he : es[k]? = some e)
    (hbuf : bufs[k]? = some buf) :
    img.dentry (k + 1) =
      ⟨filenameOf (storedName e.d_name), e.st_mode.filetype, BitVec.ofNat 32 buf.inode⟩ := by
  have hk := (List.getElem?_eq_some_iff.mp he).1
  have hfew := h.few
  exact h.dentry_slot (by omega) (h.slots k e buf he hbuf)

/-- The inode of a file, as the reader sees it. -/
theorem inodeSize_file {buf : InodeData} (hbuf : buf ∈ bufs) : img.inodeSize buf.inode = buf.size :=
  (@getDword_block img.mem _ _ 0 (h.inodeBlock buf hbuf) (by decide)).trans buf.block_size

/-- The number of the blocks is computed from the size by both programs, in two ways. -/
theorem numDataBlocks_file {k : Nat} {e : DirEntry} {buf : InodeData} (he : es[k]? = some e)
    (hbuf : bufs[k]? = some buf) : (img.numDataBlocks buf.inode).toNat = blocksFor e.st_size := by
  obtain ⟨hsize, hsize'⟩ := img.numDataBlocks_spec buf.inode
  have hkeep := (DirEntry.keeps_iff.mp (h.kept e (List.mem_of_getElem? he))).2.1
  rw [h.inodeSize_file (List.mem_of_getElem? hbuf), (h.files k e buf he hbuf).1] at hsize hsize'
  have hword : (fileOf malloc k e).size.toNat = e.st_size := by
    show (BitVec.ofNat 32 e.st_size).toNat = _
    rw [BitVec.toNat_ofNat, Nat.mod_eq_of_lt (by omega)]
  rw [hword] at hsize hsize'
  unfold blocksFor
  unfold BlockSize at hsize hsize'
  omega

/-- The number of a block of a file, as the reader finds it in the inode. -/
theorem blockId_file {buf : InodeData} (hbuf : buf ∈ bufs) {k id : Nat}
    (hid : buf.datablocks[k]? = some id) (hk : k < 1023) :
    img.blockId buf.inode k = BitVec.ofNat 32 id := by
  have hword := @getDword_block img.mem _ _ (4 + 4 * k) (h.inodeBlock buf hbuf) (by omega)
  rw [InodeData.block_id hid] at hword
  rw [← hword, Image.blockId, Nat.add_assoc]
  rfl

/-- An inode block that no file has is empty. -/
theorem numDataBlocks_none {i : Nat} (hi : i < 2 * es.length) (hin : i + 1 < img.numBlocks.toNat)
    (hnone : ∀ buf ∈ bufs, buf.inode ≠ i) : (img.numDataBlocks i).toNat = 0 := by
  have hsize : img.inodeSize i = 0 :=
    (@getDword_block img.mem (fun _ => 0) _ 0 (h.noInode i hi hin hnone) (by decide)).trans
      (by decide)
  obtain ⟨-, hblocks⟩ := img.numDataBlocks_spec i
  rw [hsize] at hblocks
  unfold BlockSize at hblocks
  have hzero : (0 : BitVec 32).toNat = 0 := rfl
  omega

/-- **The image can be mounted**, if the files are few and one has bytes: its blocks come after all
    inodes. -/
theorem initSafe (hfew : es.length ≤ 32) (hbytes : ∃ e ∈ es, 0 < e.st_size) : img.InitSafe := by
  obtain ⟨e, he, hpos⟩ := hbytes
  obtain ⟨k, hk⟩ := List.mem_iff_getElem?.mp he
  obtain ⟨hlt, -⟩ := List.getElem?_eq_some_iff.mp hk
  have hbuf := List.getElem?_eq_getElem (h.length.symm ▸ hlt : k < bufs.length)
  have hids := (h.files k e _ hk hbuf).2.2
  have hblocks : 0 < blocksFor e.st_size := by
    unfold blocksFor
    omega
  -- the file with bytes has a block, and that is behind all inode blocks
  have hid := h.dataInside _ (List.mem_flatMap.mpr
    ⟨_, List.mem_of_getElem? hbuf, List.getElem_mem (hids ▸ hblocks)⟩)
  have hsize : 2 * es.length + 1 < img.numBlocks.toNat := by omega
  constructor
  case bootBlock =>
    rw [h.toNat_numDentries]
    unfold Image.size BlockSize
    omega
  case inodes =>
    intro i hi
    rw [h.toNat_numInodes hfew] at hi
    constructor
    · unfold Image.size BlockSize
      omega
    · -- an inode of a file has 1023 blocks at most, and one of no file has none
      by_cases hfile : ∃ buf ∈ bufs, buf.inode = i
      · obtain ⟨buf, hbuf, rfl⟩ := hfile
        obtain ⟨k, e, he, hk, -⟩ := h.fileOf_mem hbuf
        have hkeep := (DirEntry.keeps_iff.mp (h.kept e (List.mem_of_getElem? he))).2.1
        rw [h.numDataBlocks_file he hk]
        unfold blocksFor NumDatablocks
        omega
      · rw [h.numDataBlocks_none hi (by omega) fun buf hbuf heq => hfile ⟨buf, hbuf, heq⟩]
        exact Nat.zero_le _

end Laid

/-! ## The names

  A name is cut at 31 characters and padded with NULs when the image is made, and again when the
  reader takes it in; the second time changes nothing. -/

/-- Characters copied with padding are copied unchanged a second time. -/
theorem strncpyLoop_copied (src : Nat → BitVec 8) (n i : Nat) (pre : List (BitVec 8)) :
    strncpyLoop (fun j => (pre ++ (strncpyLoop src n i ++ [0])).getD j 0) (n + 1) pre.length =
      strncpyLoop src n i ++ [0] := by
  have hchar : ∀ (pre : List (BitVec 8)) b l, (pre ++ (b :: l)).getD pre.length 0 = b := by
    intro pre b l
    rw [List.getD_eq_getElem?_getD, List.getElem?_append_right (Nat.le_refl _), Nat.sub_self]
    rfl
  induction n generalizing i pre with
  | zero =>
    rw [strncpyLoop_succ, strncpyLoop, List.nil_append, hchar, if_pos rfl]
    rfl
  | succ n ih =>
    rw [strncpyLoop_succ src, strncpyLoop_succ, List.cons_append, hchar]
    by_cases hnul : src i = 0
    · rw [if_pos hnul, if_pos hnul, ← List.replicate_succ']
    · rw [if_neg hnul, if_neg hnul]
      have hrest := ih (i + 1) (pre ++ [src i])
      rw [List.length_append, List.length_singleton, List.append_assoc, List.singleton_append]
        at hrest
      rw [hrest]

/-- The characters of an entry's name. -/
theorem chars_storedName (name : Nat → BitVec 8) :
    Filename.chars (filenameOf (storedName name)) = storedName name :=
  strncpyLoop_copied name 31 0 []

namespace Laid

variable {img : Image} (h : Laid malloc es bblock bufs img)

include h

/-- An entry with the name of a file is the file's, if no other file has the name. -/
theorem entry_of_name {k : Nat} {e : DirEntry}
    (hroot : storedName (cstring [0x2E]) ≠ storedName e.d_name)
    (hone : ∀ k' e', es[k']? = some e' → storedName e'.d_name = storedName e.d_name → k' = k)
    {v : Nat} (hv : v < img.numDentries.toNat)
    (hname : Filename.chars (img.dentry v).filename = storedName e.d_name) : v = k + 1 := by
  rw [h.toNat_numDentries] at hv
  cases v with
  | zero =>
    rw [h.dentry_root, chars_storedName] at hname
    exact absurd hname hroot
  | succ v =>
    have hlt : v < es.length := Nat.lt_of_succ_lt_succ hv
    have he' := List.getElem?_eq_getElem hlt
    have hbuf' := List.getElem?_eq_getElem (h.length.symm ▸ hlt : v < bufs.length)
    rw [h.dentry_file he' hbuf', chars_storedName] at hname
    rw [hone v _ he' hname]

variable {dentries : Nat → Dentry} {inodes : Nat → Inode}
    {names : LinearProbingHashTable Filename (BitVec 32)}

/-- **Opening a file by its name.** -/
theorem openFile (hnames : Indexed img.dentry img.numDentries.toNat names) {k : Nat} {e : DirEntry}
    {buf : InodeData} (he : es[k]? = some e) (hbuf : bufs[k]? = some buf)
    (hmode : e.st_mode = .regular) (hroot : storedName (cstring [0x2E]) ≠ storedName e.d_name)
    (hone : ∀ k' e', es[k']? = some e' → storedName e'.d_name = storedName e.d_name → k' = k)
    {filename : Filename} (hname : filename.chars = storedName e.d_name)
    (data : KissFileDescriptorData) :
    (img.mounted dentries inodes names).openFile data filename =
      .ok (some { data with
        filetype := BitVec.ofNat 8 NORMAL_FILE
        inode := BitVec.ofNat 32 buf.inode }) := by
  have hk := (List.getElem?_eq_some_iff.mp he).1
  have hentry := h.dentry_file he hbuf
  have hchars : Filename.chars (img.dentry (k + 1)).filename = filename.chars := by
    rw [hentry, chars_storedName, hname]
  have hlast : k + 1 < img.numDentries.toNat := by
    rw [h.toNat_numDentries]
    omega
  obtain ⟨v, hlookup, hlt, hvname⟩ := lookup_finds dentries inodes hnames hlast hchars
  have hvk := h.entry_of_name hroot hone hlt (hvname.trans hname)
  rw [KissState.openFile, hlookup, Checked.ok_bind]
  dsimp only
  rw [mounted_dentryAt hlt, Checked.ok_bind, hvk, hentry, hmode]
  rfl

end Laid

/-! ## The contents

  Byte `k` of a file is byte `k % 4096` of its block `k / 4096`, both where it was read from and
  in the image. -/

/-- A byte of a file, in the block it is in. -/
theorem fileOf_byte {e : DirEntry} {bytes : List (BitVec 8)} (hbytes : e.Contains bytes) {k p : Nat}
    (hp : p < bytes.length) {data : Nat → BitVec 8}
    (hdata : (fileOf malloc k e).blocks[p / 4096]? = some data) :
    data (p % 4096) = bytes[p] := by
  -- the byte at `p` is in block `p / 4096`
  have hi : p / 4096 < blocksFor e.st_size := by
    unfold blocksFor
    rw [hbytes.size]
    omega
  have hin : p % 4096 < ((bytes.drop (4096 * (p / 4096))).take 4096).length := by
    rw [List.length_take, List.length_drop]
    omega
  rw [fileOf, List.getElem?_map, List.getElem?_range hi, Option.map_some] at hdata
  rw [← Option.some.inj hdata, hbytes.read (p / 4096) (by omega), Option.getD_some]
  dsimp only
  rw [List.getD_eq_getElem?_getD, List.getElem?_eq_getElem hin, Option.getD_some, List.getElem_take,
    List.getElem_drop]
  congr 1
  exact Nat.div_add_mod p 4096

namespace Laid

variable {img : Image} (h : Laid malloc es bblock bufs img) {dentries : Nat → Dentry}
    {inodes : Nat → Inode}
  {names : LinearProbingHashTable Filename (BitVec 32)}

include h

/-- The number of an inode is a word. -/
theorem toNat_inode {buf : InodeData} (hbuf : buf ∈ bufs) :
    (BitVec.ofNat 32 buf.inode).toNat = buf.inode := by
  have hlt := h.inode_lt buf hbuf
  have hfew := h.few
  rw [BitVec.toNat_ofNat, Nat.mod_eq_of_lt (by omega)]

/-- It is one of those announced. -/
theorem inode_lt_numInodes (hfew : es.length ≤ 32) {buf : InodeData} (hbuf : buf ∈ bufs) :
    BitVec.ofNat 32 buf.inode < img.numInodes := by
  rw [BitVec.lt_def, h.toNat_inode hbuf, h.toNat_numInodes hfew]
  exact h.inode_lt buf hbuf

/-- The inode the reader has for a file. -/
theorem mounted_file (hfew : es.length ≤ 32) {buf : InodeData} (hbuf : buf ∈ bufs) :
    (img.mounted dentries inodes names).inodes (BitVec.ofNat 32 buf.inode).toNat =
      img.inode (inodes buf.inode).datablocks buf.inode := by
  rw [mounted_inode dentries inodes names (h.inode_lt_numInodes hfew hbuf), h.toNat_inode hbuf]

/-- The `k`-th block of a file: its number, and its place. -/
theorem block_file (hfew : es.length ≤ 32) {k : Nat} {e : DirEntry} {buf : InodeData}
    (he : es[k]? = some e) (hbuf : bufs[k]? = some buf) {i : Nat} (hi : i < blocksFor e.st_size) :
    ∃ id data, (fileOf malloc k e).blocks[i]? = some data ∧ (img.blockId buf.inode i).toNat = id ∧
      id < 2 * allBlocks es ∧ id + 2 * es.length + 1 < img.numBlocks.toNat ∧
      ∀ j, j < 4096 → img.mem (4096 * (id + 2 * es.length + 1) + j) = data j := by
  have hmem := List.mem_of_getElem? hbuf
  obtain ⟨-, hblock, hids⟩ := h.files k e buf he hbuf
  have hkeep := (DirEntry.keeps_iff.mp (h.kept e (List.mem_of_getElem? he))).2.1
  obtain ⟨id, hid⟩ : ∃ id, buf.datablocks[i]? = some id :=
    ⟨_, List.getElem?_eq_getElem (hids ▸ hi : i < buf.datablocks.length)⟩
  obtain ⟨data, hdata⟩ : ∃ data, (fileOf malloc k e).blocks[i]? = some data := by
    rw [fileOf, List.getElem?_map, List.getElem?_range hi]
    exact ⟨_, rfl⟩
  have hin := List.mem_flatMap.mpr ⟨buf, hmem, List.mem_of_getElem? hid⟩
  have hlt := h.id_lt _ hin
  have hall := allBlocks_le h.kept
  refine ⟨id, data, hdata, ?_, hlt, h.dataInside _ hin,
    h.dataBlock buf hmem i id data hid (by rw [hblock, hdata])⟩
  rw [h.blockId_file hmem hid (by unfold blocksFor at hi; omega), BitVec.toNat_ofNat,
    Nat.mod_eq_of_lt (by omega)]

/-- **The blocks of a file are there.** -/
theorem fileInside (hfew : es.length ≤ 32) {k : Nat} {e : DirEntry} {buf : InodeData}
    (he : es[k]? = some e) (hbuf : bufs[k]? = some buf) :
    (img.mounted dentries inodes names).toKissFS.FileInside
      ((img.mounted dentries inodes names).inodes (BitVec.ofNat 32 buf.inode).toNat) := by
  rw [h.mounted_file hfew (List.mem_of_getElem? hbuf)]
  intro i hi
  rw [img.inode_datablocks _ hi, BitVec.le_def]
  have hi' : i < blocksFor e.st_size := h.numDataBlocks_file he hbuf ▸ hi
  obtain ⟨id, -, -, rfl, hlt, hin, -⟩ := h.block_file hfew he hbuf hi'
  have htotal := h.toNat_numTotalDataBlocks
  have hnum := h.toNat_numInodes hfew
  show (img.blockId buf.inode i).toNat ≤ img.numTotalDataBlocks.toNat ∧
    1 + img.numInodes.toNat + (img.blockId buf.inode i).toNat < img.numBlocks.toNat
  omega

/-- **The bytes of a file are those it was made from.** -/
theorem fileBytes (hfew : es.length ≤ 32) {k : Nat} {e : DirEntry} {buf : InodeData}
    (he : es[k]? = some e) (hbuf : bufs[k]? = some buf) {bytes : List (BitVec 8)}
    (hbytes : e.Contains bytes) :
    (img.mounted dentries inodes names).toKissFS.fileBytes
      ((img.mounted dentries inodes names).inodes (BitVec.ofNat 32 buf.inode).toNat) = bytes := by
  rw [h.mounted_file hfew (List.mem_of_getElem? hbuf)]
  have hsize : (img.inodeSize buf.inode).toNat = bytes.length := by
    have hkeep := (DirEntry.keeps_iff.mp (h.kept e (List.mem_of_getElem? he))).2.1
    have hword : buf.size = BitVec.ofNat 32 e.st_size := (h.files k e buf he hbuf).1
    rw [h.inodeSize_file (List.mem_of_getElem? hbuf), hword, BitVec.toNat_ofNat,
      Nat.mod_eq_of_lt (by omega), hbytes.size]
  have hblocks := h.numDataBlocks_file he hbuf
  have hspec := (img.numDataBlocks_spec buf.inode).1
  rw [KissFS.fileBytes, KissFS.flatMap_blocks _ (by decide)]
  show ((List.range (BlockSize * (img.numDataBlocks buf.inode).toNat)).map _).take
    (img.inodeSize buf.inode).toNat = bytes
  apply List.ext_getElem
  · rw [List.length_take, List.length_map, List.length_range, hsize]
    omega
  · intro p hp hp'
    rw [List.getElem_take, List.getElem_map, List.getElem_range]
    have hi : p / 4096 < blocksFor e.st_size := by
      unfold blocksFor
      rw [hbytes.size]
      omega
    -- the reader looks for the block behind the inodes, where it was written
    obtain ⟨id, data, hdata, hid, -, -, hblock⟩ := h.block_file hfew he hbuf hi
    rw [← fileOf_byte hbytes hp' hdata, ← hblock _ (Nat.mod_lt p (by decide)), KissFS.blockByte,
      img.inode_datablocks _ (hblocks.symm ▸ hi)]
    have hnum := h.toNat_numInodes hfew
    show img.mem
      (4096 * (1 + img.numInodes.toNat + (img.blockId buf.inode (p / 4096)).toNat) + p % 4096) = _
    rw [hid, hnum, show 1 + 2 * es.length + id = id + 2 * es.length + 1 by omega]

end Laid

end Blocks

/-! ## The round trip -/

/-- **Every file of the directory is in the file system.**  At most 32 files are kept, one of which
    has bytes; the image is in memory; and no other file kept has the same 31 characters.  Then
    mounting succeeds, and the file opens, and its inode, whose blocks are all there, has its
    bytes. -/
theorem mounted_files {dir : List DirEntry} {malloc : Nat → Nat → Nat → BitVec 8} {rands : List Nat}
    {out : BlockFile.File (BitVec 8)} (hmain : main dir malloc rands = some out)
    (hfew : (kept dir).length ≤ 32) (hsome : ∃ e ∈ kept dir, 0 < e.st_size) {img : Image}
    (himg : Loaded img out) (dentries : Nat → Dentry) (inodes : Nat → Inode) :
    ∃ st, initFromMemoryAddress img dentries inodes = .ok st ∧
      ∀ (k : Nat) (e : DirEntry) (bytes : List (BitVec 8)), (kept dir)[k]? = some e →
      e.st_mode = .regular → e.Contains bytes → storedName (cstring [0x2E]) ≠ storedName e.d_name →
      (∀ (k' : Nat) (e' : DirEntry), (kept dir)[k']? = some e' →
        storedName e'.d_name = storedName e.d_name → k' = k) →
      ∀ data filename, Filename.chars filename = storedName e.d_name →
      ∃ fdData, st.openFile data filename = .ok (some fdData) ∧
        fdData.filetype.toNat = NORMAL_FILE ∧ fdData.inode < st.numInodes ∧
        st.toKissFS.FileInside (st.inodes fdData.inode.toNat) ∧
        st.toKissFS.fileBytes (st.inodes fdData.inode.toNat) = bytes := by
  obtain ⟨bblock, bufs, hmade, rfl⟩ := main_spec hmain
  have h := hmade.laid himg
  obtain ⟨names, hnames, hinit⟩ := img.init_exactly dentries inodes
  refine ⟨_, hinit.succeeds (h.initSafe hfew hsome), ?_⟩
  intro k e bytes he hmode hbytes hroot hone data filename hname
  have hk := (List.getElem?_eq_some_iff.mp he).1
  have hbuf := List.getElem?_eq_getElem (h.length.symm ▸ hk : k < bufs.length)
  exact ⟨_, h.openFile hnames he hbuf hmode hroot hone hname data, rfl,
    h.inode_lt_numInodes hfew (List.mem_of_getElem? hbuf), h.fileInside hfew he hbuf,
    h.fileBytes hfew he hbuf hbytes⟩

/-- The output as a boot module at address 0. -/
def moduleOf (out : BlockFile.File (BitVec 8)) : Image where
  bytes i := out.bytes i.toNat
  startingAddr := 0
  endingAddr := BitVec.ofNat 32 out.length

/-- It is in memory as it was written, if it fits. -/
theorem loaded_moduleOf {out : BlockFile.File (BitVec 8)} (h : out.length < 0x100000000) :
    Loaded (moduleOf out) out := by
  have hzero : BitVec.ofNat 32 out.length - 0 = BitVec.ofNat 32 out.length := BitVec.sub_zero _
  constructor
  case length =>
    show (BitVec.ofNat 32 out.length - 0).toNat = out.length
    rw [hzero, BitVec.toNat_ofNat, Nat.mod_eq_of_lt h]
  case bytes =>
    intro i hi
    show out.bytes (BitVec.ofNat 32 i).toNat = out.bytes i
    rw [BitVec.toNat_ofNat, Nat.mod_eq_of_lt (by omega)]

/-- The image with one file. -/
theorem main_oneByte :
    ∃ out, main oneByte (fun _ _ _ => 0) [0, 0] = some out ∧ out.length = 4 * 4096 := by
  have hlength :
      (main oneByte (fun _ _ _ => 0) [0, 0]).map BlockFile.File.length = some (4 * 4096) := by
    decide +kernel
  exact Option.map_eq_some_iff.mp hlength

/-- The one file is kept. -/
theorem kept_oneByte : kept oneByte = oneByte := by
  rw [kept, oneByte, List.filter_cons_of_pos (by decide)]
  rfl

theorem mounted_files_oneByte : ∃ out st fdData, main oneByte (fun _ _ _ => 0) [0, 0] = some out ∧
    initFromMemoryAddress (moduleOf out) (fun _ => ⟨fun _ => 0, 0, 0⟩)
      (fun _ => ⟨0, fun _ => 0, 0⟩) = .ok st ∧
    st.openFile ⟨0, 0, fun _ => ⟨fun _ => 0, 0, 0⟩, 0, 0⟩ (cstring [0x61]) = .ok (some fdData) ∧
    st.toKissFS.fileBytes (st.inodes fdData.inode.toNat) = [7] := by
  obtain ⟨out, hmain, hlen⟩ := main_oneByte
  have hkept := kept_oneByte
  have hsome : ∃ e ∈ kept oneByte, 0 < e.st_size := by
    rw [hkept]
    exact ⟨_, List.mem_singleton_self _, by decide⟩
  obtain ⟨st, hinit, hfiles⟩ := mounted_files hmain (by rw [hkept]; decide) hsome
    (loaded_moduleOf (by rw [hlen]; decide)) (fun _ => ⟨fun _ => 0, 0, 0⟩)
      (fun _ => ⟨0, fun _ => 0, 0⟩)
  have hcontains : DirEntry.Contains ⟨cstring [0x61], .regular, 1, fun _ => some [7]⟩ [7] := by
    refine ⟨rfl, fun i hi => ?_⟩
    obtain rfl : i = 0 := by
      rw [List.length_singleton] at hi
      omega
    rfl
  obtain ⟨fdData, hopen, -, -, -, hbytes⟩ :=
    hfiles 0 _ [7] (by rw [hkept]; rfl) rfl hcontains (by decide) (fun k' e' he' _ => by
      rw [hkept] at he'
      have hlt := (List.getElem?_eq_some_iff.mp he').1
      exact Nat.lt_one_iff.mp hlt)
    ⟨0, 0, fun _ => ⟨fun _ => 0, 0, 0⟩, 0, 0⟩ (cstring [0x61]) (by decide)
  exact ⟨out, st, fdData, hmain, hinit, hopen, hbytes⟩

end CreateFs

end TedkOS.Fs
