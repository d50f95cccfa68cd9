/-
  What reading a mounted image delivers (`readData` and `readBlock` of fs/kissfs.cpp).

  On the image, data block `id` comes after the boot block and the N inode blocks.  The reader looks
  for it after as many inode blocks as the file system KEEPS, which is at most 64.  So with
  `fileByte n` for the byte of a file under the assumption of `n` inode blocks, what the image
  stores is `fileByte N`, and what reading delivers is `fileByte` of the clamped count
  (`readData_delivers`).  The two agree when N is at most 64; on a larger image they agree only
  where the bytes happen to be the same, and an inode from 64 on cannot be read at all.

  The loop over the blocks carries no invariant but its position: from a block boundary on, each
  round takes a whole block, or what is left of the file or of the buffer, so the bytes delivered
  before are those before the boundary (`readDataLoop_delivers`).
-/
import TedkOS.Fs.KissCalls

namespace TedkOS.Fs

open Klibs Checked

/-! ## The loop over the blocks

  A block can be read whole (`readBlock_bytes`), and from one block boundary on the loop takes
  the blocks one behind another. -/

namespace KissFS

/-- The bytes of one round, cut out of a block. -/
theorem readBlock_bytes {fs : KissFS} {datablockId len : BitVec 32} {byte : Nat → BitVec 8}
    (hraw : fs.rawBlockId datablockId < fs.numBlocks) (hlen : len.toNat ≤ BlockSize)
    (hbyte : ∀ j, j < BlockSize → fs.image
      (fs.rawBlockId datablockId * BitVec.ofNat 32 BlockSize + 0 + BitVec.ofNat 32 j) = byte j) :
    fs.readBlock datablockId 0 len = some ((List.range len.toNat).map byte) := by
  rw [readBlock, if_neg (BitVec.not_le.mpr hraw)]
  apply congrArg some
  apply List.map_congr_left
  intro j hj
  have hjlen := List.mem_range.mp hj
  exact hbyte j (by omega)

/-- **The loop from a block boundary on.**  When every block of the file can be read, it delivers
    the bytes of the file in order, up to its end or the end of the buffer. -/
theorem readDataLoop_delivers (fs : KissFS) (node : Inode) (byte : Nat → BitVec 8) (blocks : Nat)
    (hid : ∀ k, k < blocks → node.datablocks k ≤ fs.numTotalDataBlocks)
    (hraw : ∀ k, k < blocks → fs.rawBlockId (node.datablocks k) < fs.numBlocks)
    (hbyte : ∀ k, k < blocks → ∀ j, j < BlockSize → fs.image
      (fs.rawBlockId (node.datablocks k) * BitVec.ofNat 32 BlockSize + 0 + BitVec.ofNat 32 j) =
        byte (BlockSize * k + j))
    (rounds i : Nat) (hi : i + rounds ≤ blocks) (length bytesRemaining read : BitVec 32)
    (out : List (Nat × BitVec 8)) (hrem : bytesRemaining.toNat ≤ BlockSize * rounds)
    (hfit : read.toNat + length.toNat < 0x100000000) :
    fs.readDataLoop node rounds i length bytesRemaining 0 read out =
      (read + BitVec.ofNat 32 (min length.toNat bytesRemaining.toNat),
        out ++ memcpy read.toNat ((List.range (min length.toNat bytesRemaining.toNat)).map
          fun p => byte (BlockSize * i + p))) := by
  induction rounds generalizing i length bytesRemaining read out with
  | zero =>
    have h0 : min length.toNat bytesRemaining.toNat = 0 := by omega
    rw [h0]
    show (read, out) = (read + 0#32, out ++ [])
    rw [List.append_nil, BitVec.add_zero]
  | succ rounds ih =>
    have hlen := toNat_roundLen length bytesRemaining
    have hblock := readBlock_bytes (hraw i (by omega)) (roundLen_le length bytesRemaining)
      (hbyte i (by omega))
    rw [readDataLoop]
    dsimp only
    rw [if_pos (hid i (by omega)), hblock]
    dsimp only
    obtain ⟨hleft, hrem', hread⟩ := toNat_round bytesRemaining hfit
    have hfull := sub_roundLen_eq_zero_iff length bytesRemaining
    generalize roundLen length bytesRemaining = len at *
    by_cases hdone : length - len = 0
    · -- the buffer is full
      have heq := hfull.mp hdone
      rw [if_pos hdone, show min length.toNat bytesRemaining.toNat = len.toNat by omega,
        BitVec.ofNat_toNat, BitVec.setWidth_eq]
    · rw [if_neg hdone]
      have hne : length.toNat ≠ len.toNat := mt hfull.mpr hdone
      have hm : min length.toNat bytesRemaining.toNat =
          len.toNat + min (length.toNat - len.toNat) (bytesRemaining.toNat - len.toNat) := by
        omega
      rw [ih (i + 1) (by omega) _ _ _ _ (by rw [hrem', Nat.mul_succ] at *; omega) (by omega),
        hread, hleft, hrem', hm, List.range_add, List.map_append, memcpy_append, List.append_assoc,
        List.length_map, List.length_range, List.map_map]
      have hsum : ∀ m, read + len + BitVec.ofNat 32 m = read + BitVec.ofNat 32 (len.toNat + m) := by
        intro m
        rw [BitVec.ofNat_add, BitVec.ofNat_toNat, BitVec.setWidth_eq, BitVec.add_assoc]
      have htail :
            (List.range (min (length.toNat - len.toNat) (bytesRemaining.toNat - len.toNat))).map
            (fun p => byte (BlockSize * (i + 1) + p)) =
          (List.range (min (length.toNat - len.toNat) (bytesRemaining.toNat - len.toNat))).map
            ((fun p => byte (BlockSize * i + p)) ∘ fun p => len.toNat + p) := by
        apply List.map_congr_left
        intro p hp
        -- more rounds follow, so this one took a whole block
        have hp' := List.mem_range.mp hp
        have hwhole : len.toNat = BlockSize := by omega
        show byte _ = byte (BlockSize * i + (len.toNat + p))
        rw [hwhole, Nat.mul_succ, Nat.add_assoc]
      rw [hsum, htail]

end KissFS

/-! ## A well-formed image

  An image whose counts and numbers are those of blocks it has.  On it no access goes astray, so
  opening and reading give something, and it remains to compare the bytes: for the number of
  inode blocks that the image has with those for the number that the reader keeps. -/

namespace Image

variable (img : Image)

/-- The image is laid out as its counts say: the directory in the boot block, then as many inode
    blocks and data blocks as are announced, and every file with blocks that exist. -/
structure WellFormed : Prop where
  /-- The boot block has room for 63 entries. -/
  dentries : (img.word 0).toNat ≤ 63
  /-- The blocks that the counts announce are there. -/
  layout : 1 + (img.word 4).toNat + (img.word 8).toNat ≤ img.numBlocks.toNat
  /-- The inode of a regular file is one of the inodes. -/
  files : ∀ i, i < (img.word 0).toNat → (img.dentry i).filetype.toNat = NORMAL_FILE →
    (img.dentry i).inode.toNat < (img.word 4).toNat
  /-- The numbers of a file's blocks fit the table of its inode, -/
  sizes : ∀ n, n < (img.word 4).toNat → (img.numDataBlocks n).toNat ≤ NumDatablocks
  /-- and each is the number of a data block. -/
  blockIds : ∀ n k, n < (img.word 4).toNat → k < (img.numDataBlocks n).toNat →
    (img.blockId n k).toNat < (img.word 8).toNat

/-- The `p`-th byte of the file with inode `n`, if its blocks come after `inodes` inode blocks. -/
def fileByte (inodes n p : Nat) : BitVec 8 :=
  img.bytes (BitVec.ofNat 32
    (BlockSize * (1 + inodes + (img.blockId n (p / BlockSize)).toNat) + p % BlockSize))

/-- Reading inode `n` from a block boundary on delivers these bytes, up to the end of the file or of
    the buffer. -/
def Delivers (inodes : Nat) (st : KissState) (n : BitVec 32) : Prop :=
  ∀ offset length : BitVec 32, offset.toNat % BlockSize = 0 →
    st.readData n offset length =
      .ok (BitVec.ofNat 32 (min length.toNat ((img.inodeSize n.toNat).toNat - offset.toNat)),
        memcpy 0 ((List.range (min length.toNat ((img.inodeSize n.toNat).toNat - offset.toNat))).map
          fun p => img.fileByte inodes n.toNat (offset.toNat + p)))

/-- Opening the name of the `i`-th entry succeeds, and opens that entry if no other has its name. -/
def Opens (st : KissState) (i : Nat) : Prop :=
  ∀ (data : KissFileDescriptorData) (filename : Filename),
    filename.chars = Filename.chars (img.dentry i).filename →
    ∃ fdData, st.openFile data filename = .ok (some fdData) ∧
      ((∀ j, j < (img.word 0).toNat →
          Filename.chars (img.dentry j).filename = Filename.chars (img.dentry i).filename → j = i) →
        fdData.filetype = (img.dentry i).filetype.setWidth 8 ∧
          ((img.dentry i).filetype.toNat ≠ DIRECTORY → fdData.inode = (img.dentry i).inode))

/-- What a mounted image ought to give: every entry opens, and the inode it names, if the image has
    it (for a regular file it does), reads as the image stores it. -/
structure FilesRight (st : KissState) : Prop where
  opens : ∀ i, i < (img.word 0).toNat → img.Opens st i
  delivers : ∀ i, i < (img.word 0).toNat → (img.dentry i).inode.toNat < (img.word 4).toNat →
    img.Delivers (img.word 4).toNat st (img.dentry i).inode

/-- How many blocks a size takes. -/
theorem numDataBlocks_spec (n : Nat) :
    (img.inodeSize n).toNat ≤ BlockSize * (img.numDataBlocks n).toNat ∧
      BlockSize * (img.numDataBlocks n).toNat < (img.inodeSize n).toNat + BlockSize := by
  have hB : (BitVec.ofNat 32 BlockSize).toNat = 4096 := by decide
  rw [numDataBlocks, PhysPages.toNat_ceil_eq _ _ (by decide), hB]
  unfold BlockSize
  split <;> omega

/-- What is left of a file from a block boundary on, and the blocks for it. -/
theorem bytesRemaining_spec (n : Nat) {offset : BitVec 32} (haligned : offset.toNat % BlockSize = 0)
    (hlt : offset.toNat / BlockSize < (img.numDataBlocks n).toNat) :
    (img.inodeSize n - offset).toNat = (img.inodeSize n).toNat - offset.toNat ∧
      (img.inodeSize n).toNat - offset.toNat ≤
        BlockSize * ((img.numDataBlocks n).toNat - offset.toNat / BlockSize) := by
  obtain ⟨hsize, hsize'⟩ := img.numDataBlocks_spec n
  have hbound := (img.inodeSize n).isLt
  rw [BitVec.toNat_sub]
  unfold BlockSize at *
  constructor <;> omega

/-- The inodes that are kept are no more than the image has. -/
theorem toNat_numInodes_le : img.numInodes.toNat ≤ (img.word 4).toNat := by
  rw [numInodes, toNat_clamp]
  exact Nat.min_le_left _ _

namespace WellFormed

variable {img} (h : img.WellFormed)

include h

/-- Of a well-formed image all entries are kept. -/
theorem toNat_numDentries : img.numDentries.toNat = (img.word 0).toNat := by
  have hle := h.dentries
  rw [numDentries, toNat_clamp]
  unfold MaxNumFiles
  omega

/-- A well-formed image can be mounted. -/
theorem initSafe : img.InitSafe := by
  have hD := h.dentries
  have hN := img.toNat_numInodes_le
  have hlayout := h.layout
  refine ⟨?_, fun i hi => ⟨?_, h.sizes i (by omega)⟩⟩
  · rw [h.toNat_numDentries]
    unfold Image.size BlockSize
    omega
  · unfold Image.size BlockSize
    omega

variable {dentries : Nat → Dentry} {inodes : Nat → Inode}
  {names : LinearProbingHashTable Filename (BitVec 32)}

/-- Every entry opens, since the search for its name finds an entry of that name; it is that
    entry itself if no other has the name. -/
theorem opens (hnames : Indexed img.dentry img.numDentries.toNat names) {i : Nat}
    (hi : i < (img.word 0).toNat) : img.Opens (img.mounted dentries inodes names) i := by
  intro data filename hname
  rw [← h.toNat_numDentries] at hi ⊢
  -- the search for the name ends at an entry of that name
  obtain ⟨v, hlookup, hlt, hchars⟩ := lookup_finds dentries inodes hnames hi hname.symm
  rw [KissState.openFile, hlookup, ok_bind]
  dsimp only
  rw [mounted_dentryAt hlt, ok_bind]
  by_cases hdir : (img.dentry v.toNat).filetype.toNat = DIRECTORY
  · rw [if_pos hdir]
    refine ⟨_, rfl, fun hone => ?_⟩
    rw [← hone v.toNat hlt (hchars.trans hname)]
    exact ⟨rfl, fun hne => absurd hdir hne⟩
  · rw [if_neg hdir]
    refine ⟨_, rfl, fun hone => ?_⟩
    rw [← hone v.toNat hlt (hchars.trans hname)]
    exact ⟨rfl, fun _ => rfl⟩

/-- Where a block number leads: it is accepted, its raw block exists, and its bytes lie after the
    inode blocks the file system keeps. -/
theorem block {n : BitVec 32} (hn : n.toNat < (img.word 4).toNat) {k : Nat}
    (hk : k < (img.numDataBlocks n.toNat).toNat) :
    img.blockId n.toNat k ≤ img.numTotalDataBlocks ∧
      img.rawBlockId (img.blockId n.toNat k) < img.numBlocks ∧
      ∀ j, j < BlockSize → img.bytes
        (img.rawBlockId (img.blockId n.toNat k) * BitVec.ofNat 32 BlockSize + 0 +
          BitVec.ofNat 32 j) =
          img.fileByte img.numInodes.toNat n.toNat (BlockSize * k + j) := by
  have hid := h.blockIds n.toNat k hn hk
  have hlayout := h.layout
  have hN := img.toNat_numInodes_le
  have hblocks := img.toNat_numBlocks_lt
  have hraw : (img.rawBlockId (img.blockId n.toNat k)).toNat =
      1 + img.numInodes.toNat + (img.blockId n.toNat k).toNat := by
    rw [rawBlockId, BitVec.toNat_add, BitVec.toNat_add]
    show (((img.blockId n.toNat k).toNat + img.numInodes.toNat) % 0x100000000 + 1) % 0x100000000 = _
    omega
  have hlt : (img.rawBlockId (img.blockId n.toNat k)).toNat < img.numBlocks.toNat := by
    omega
  refine ⟨?_, hlt, ?_⟩
  · show (img.blockId n.toNat k).toNat ≤ (img.word 8).toNat
    omega
  · intro j hj
    -- the `j`-th byte of the `k`-th block of the file
    have hdiv : (BlockSize * k + j) / BlockSize = k := by
      rw [Nat.mul_add_div (by decide), Nat.div_eq_of_lt hj, Nat.add_zero]
    have hmod : (BlockSize * k + j) % BlockSize = j := by
      rw [Nat.mul_add_mod, Nat.mod_eq_of_lt hj]
    rw [fileByte, hdiv, hmod, ← hraw]
    apply congrArg img.bytes
    apply BitVec.eq_of_toNat_eq
    rw [KissState.toNat_src hlt hblocks (by decide) hj, BitVec.toNat_ofNat]
    show BlockSize * _ + 0 + j = (BlockSize * _ + j) % 0x100000000
    unfold BlockSize at *
    omega

/-- **What reading delivers**: the bytes that lie after as many inode blocks as the file system
    keeps. -/
theorem readData_delivers (st : KissState) (hst : st = img.mounted dentries inodes names)
    {n : BitVec 32} (hn : n < img.numInodes) : img.Delivers img.numInodes.toNat st n := by
  subst hst
  intro offset length haligned
  have hn' : n.toNat < (img.word 4).toNat := Nat.lt_of_lt_of_le hn img.toNat_numInodes_le
  obtain ⟨hsize, hsize'⟩ := img.numDataBlocks_spec n.toNat
  have hnode := mounted_inode dentries inodes names hn
  have hnodes : ∀ i, i < (img.mounted dentries inodes names).numInodes →
      ((img.mounted dentries inodes names).inodes i.toNat).numDataBlocks.toNat ≤ NumDatablocks := by
    intro i hi
    rw [mounted_inode dentries inodes names hi]
    exact (h.initSafe.inodes i.toNat hi).2
  rw [(KissState.readData_exactly _ img.toNat_numBlocks_lt hnodes n offset length).succeeds _]
  · apply congrArg Except.ok
    have hle : n ≤ (img.mounted dentries inodes names).numInodes := BitVec.le_of_lt hn
    rw [KissFS.readData, if_pos hle, hnode, haligned]
    show KissFS.readDataLoop _ _ ((img.numDataBlocks n.toNat).toNat - _) _ _
      (img.inodeSize n.toNat - offset) 0 0 [] = _
    rcases le_or_gt (img.numDataBlocks n.toNat).toNat (offset.toNat / BlockSize) with hpast | hin
    · -- the file ends before
      have h0 : min length.toNat ((img.inodeSize n.toNat).toNat - offset.toNat) = 0 := by
        unfold BlockSize at *
        omega
      rw [Nat.sub_eq_zero_of_le hpast, h0]
      rfl
    · obtain ⟨hrem, hleft⟩ := img.bytesRemaining_spec n.toNat haligned hin
      have hloop := KissFS.readDataLoop_delivers
        (img.mounted dentries inodes names).toKissFS
        (img.inode (inodes n.toNat).datablocks n.toNat)
        (img.fileByte img.numInodes.toNat n.toNat) (img.numDataBlocks n.toNat).toNat
        (fun k hk => by
          rw [img.inode_datablocks _ hk]
          exact (h.block hn' hk).1)
        (fun k hk => by
          rw [img.inode_datablocks _ hk]
          exact (h.block hn' hk).2.1)
        (fun k hk => by
          rw [img.inode_datablocks _ hk]
          exact (h.block hn' hk).2.2)
        ((img.numDataBlocks n.toNat).toNat - offset.toNat / BlockSize) (offset.toNat / BlockSize)
        (by omega) length (img.inodeSize n.toNat - offset) 0 []
        (by rw [hrem]; exact hleft)
        (by have := length.isLt; show 0 + length.toNat < 0x100000000; omega)
      have hstart : BlockSize * (offset.toNat / BlockSize) = offset.toNat :=
        Nat.mul_div_cancel' (Nat.dvd_of_mod_eq_zero haligned)
      rw [hrem, hstart] at hloop
      rw [hloop, List.nil_append]
      exact congrArg (fun m => (m, _)) (BitVec.zero_add _)
  · right
    refine ⟨hn, Or.inr (Or.inr ?_)⟩
    rw [haligned]
    exact KissState.blockInside_zero _ (KissFS.roundLen_le _ _)

end WellFormed

/-- Two streams of bytes that reading delivers are one. -/
theorem Delivers.unique {img : Image} {inodes inodes' : Nat} {st : KissState} {n : BitVec 32}
    (h : img.Delivers inodes st n) (h' : img.Delivers inodes' st n) {p : Nat}
    (hp : p < (img.inodeSize n.toNat).toNat) :
    img.fileByte inodes n.toNat p = img.fileByte inodes' n.toNat p := by
  -- read the block of `p`
  have hsize := (img.inodeSize n.toNat).isLt
  have hoff : (BitVec.ofNat 32 (BlockSize * (p / BlockSize))).toNat =
      BlockSize * (p / BlockSize) := by
    apply Nat.mod_eq_of_lt
    unfold BlockSize
    omega
  have hB : (BitVec.ofNat 32 BlockSize).toNat = BlockSize := by decide
  have haligned : (BitVec.ofNat 32 (BlockSize * (p / BlockSize))).toNat % BlockSize = 0 := by
    rw [hoff]
    exact Nat.mul_mod_right _ _
  have hread :=
    h (BitVec.ofNat 32 (BlockSize * (p / BlockSize))) (BitVec.ofNat 32 BlockSize) haligned
  rw [h' _ _ haligned, hoff, hB] at hread
  have hbytes := congrArg (List.map Prod.snd) (Prod.mk.inj (Except.ok.inj hread)).2
  rw [map_snd_memcpy, map_snd_memcpy] at hbytes
  have hin : p % BlockSize < min BlockSize
      ((img.inodeSize n.toNat).toNat - BlockSize * (p / BlockSize)) := by
    unfold BlockSize
    omega
  have hbyte := List.map_inj_left.mp hbytes (p % BlockSize) (List.mem_range.mpr hin)
  rw [Nat.div_add_mod] at hbyte
  exact hbyte.symm

/-- Only the bytes of the file count. -/
theorem Delivers.congr {img : Image} {inodes inodes' : Nat} {st : KissState} {n : BitVec 32}
    (h : img.Delivers inodes st n)
    (heq : ∀ p, p < (img.inodeSize n.toNat).toNat →
      img.fileByte inodes n.toNat p = img.fileByte inodes' n.toNat p) :
    img.Delivers inodes' st n := by
  intro offset length haligned
  rw [h offset length haligned]
  apply congrArg (fun bytes => Except.ok (_, memcpy 0 bytes))
  apply List.map_congr_left
  intro p hp
  have hp' := List.mem_range.mp hp
  exact heq _ (by omega)

/-- An inode the file system does not keep cannot be read. -/
theorem not_delivers {img : Image} {inodes : Nat} {dentries₀ : Nat → Dentry} {inodes₀ : Nat → Inode}
    {names : LinearProbingHashTable Filename (BitVec 32)} {n : BitVec 32}
    (hn : ¬ n < img.numInodes) :
    ¬ img.Delivers inodes (img.mounted dentries₀ inodes₀ names) n := by
  intro h
  have hread := h 0 0 rfl
  rw [KissState.readData] at hread
  by_cases hle : n ≤ (img.mounted dentries₀ inodes₀ names).numInodes
  · -- the inode past the last is read
    rw [if_pos hle] at hread
    obtain ⟨e, he⟩ := (KissState.inodeAt_exactly (img.mounted dentries₀ inodes₀ names) n).fails hn
    rw [he] at hread
    exact absurd hread (by intro hc; cases hc)
  · rw [if_neg hle] at hread
    have hret := (Prod.mk.inj (Except.ok.inj hread)).1
    rw [show (0 : BitVec 32).toNat = 0 from rfl, Nat.zero_min] at hret
    exact absurd hret (by decide)

/-- The files can be read where they are looked for: there are at most 64 inodes, or each file is
    among the first 64 and its bytes are also where 64 inode blocks would put them. -/
def Reachable (img : Image) : Prop :=
  (img.word 4).toNat ≤ MaxNumFiles ∨
    ∀ i, i < (img.word 0).toNat → (img.dentry i).inode.toNat < (img.word 4).toNat →
      (img.dentry i).inode.toNat < MaxNumFiles ∧
        ∀ p, p < (img.inodeSize (img.dentry i).inode.toNat).toNat →
          img.fileByte MaxNumFiles (img.dentry i).inode.toNat p =
            img.fileByte (img.word 4).toNat (img.dentry i).inode.toNat p

section Mounted

variable {img : Image} {dentries : Nat → Dentry} {inodes : Nat → Inode}
  {names : LinearProbingHashTable Filename (BitVec 32)}

/-- At most 64 inodes are kept. -/
theorem toNat_numInodes (img : Image) :
    img.numInodes.toNat = min (img.word 4).toNat MaxNumFiles := toNat_clamp _

/-- With at most 64 inodes the reader looks where the image stores the files; with more it looks
    where 64 inode blocks would put them, and by assumption finds the same there. -/
theorem WellFormed.filesRight (h : img.WellFormed)
    (hnames : Indexed img.dentry img.numDentries.toNat names) (hreach : img.Reachable) :
    img.FilesRight (img.mounted dentries inodes names) := by
  have hkept := img.toNat_numInodes
  refine ⟨fun i hi => h.opens hnames hi, ?_⟩
  intro i hi hn
  by_cases hN : (img.word 4).toNat ≤ MaxNumFiles
  · have hkept' : img.numInodes.toNat = (img.word 4).toNat := by omega
    have hlt : (img.dentry i).inode < img.numInodes := by
      show (img.dentry i).inode.toNat < img.numInodes.toNat
      omega
    rw [← hkept']
    exact h.readData_delivers _ rfl hlt
  · have hkept' : img.numInodes.toNat = MaxNumFiles := by omega
    obtain ⟨hlow, hbytes⟩ := hreach.resolve_left hN i hi hn
    have hlt : (img.dentry i).inode < img.numInodes := by
      show (img.dentry i).inode.toNat < img.numInodes.toNat
      omega
    apply (h.readData_delivers _ rfl hlt).congr
    rw [hkept']
    exact hbytes

/-- Conversely, if the files read as they are stored then each is among the inodes kept, and what
    is delivered, which is known to be the bytes after 64 inode blocks, is what is stored. -/
theorem WellFormed.reachable (h : img.WellFormed)
    (hright : img.FilesRight (img.mounted dentries inodes names)) : img.Reachable := by
  have hkept := img.toNat_numInodes
  by_cases hN : (img.word 4).toNat ≤ MaxNumFiles
  · exact Or.inl hN
  · right
    intro i hi hn
    have hread := hright.delivers i hi hn
    have hkept' : img.numInodes.toNat = MaxNumFiles := by omega
    have hlt : (img.dentry i).inode < img.numInodes := by
      by_contra hge
      exact not_delivers hge hread
    refine ⟨?_, fun p hp => ?_⟩
    · rw [← hkept']
      exact hlt
    · rw [← hkept']
      exact (h.readData_delivers _ rfl hlt).unique hread hp

end Mounted

/-- A concrete image can be checked for well-formedness. -/
instance (img : Image) : Decidable img.WellFormed :=
  decidable_of_iff
    ((img.word 0).toNat ≤ 63 ∧
      1 + (img.word 4).toNat + (img.word 8).toNat ≤ img.numBlocks.toNat ∧
      (∀ i, i < (img.word 0).toNat → (img.dentry i).filetype.toNat = NORMAL_FILE →
        (img.dentry i).inode.toNat < (img.word 4).toNat) ∧
      (∀ n, n < (img.word 4).toNat → (img.numDataBlocks n).toNat ≤ NumDatablocks) ∧
      (∀ n, n < (img.word 4).toNat → ∀ k, k < (img.numDataBlocks n).toNat →
        (img.blockId n k).toNat < (img.word 8).toNat))
    ⟨fun ⟨h1, h2, h3, h4, h5⟩ => ⟨h1, h2, h3, h4, fun n k hn hk => h5 n hn k hk⟩,
     fun h => ⟨h.dentries, h.layout, h.files, h.sizes, fun n hn k hk => h.blockIds n k hn hk⟩⟩

end Image

/-- **What a mounted well-formed image gives.**  Every entry opens and every file reads as the image
    stores it exactly when the files are `Reachable`. -/
theorem files_right_iff (img : Image) (dentries : Nat → Dentry) (inodes : Nat → Inode)
    (h : img.WellFormed) :
    (∃ st, initFromMemoryAddress img dentries inodes = .ok st ∧ img.FilesRight st) ↔
      img.Reachable := by
  obtain ⟨names, hnames, hinit⟩ := img.init_exactly dentries inodes
  constructor
  · rintro ⟨st, hst, hright⟩
    obtain ⟨-, rfl⟩ := hinit.ok_iff.mp hst
    exact h.reachable hright
  · intro hreach
    exact ⟨_, hinit.succeeds h.initSafe, h.filesRight hnames hreach⟩

/-- An image of `n` inode blocks with one file: named "a", inode 0, one byte long. -/
def oneFile (n : Nat) : Image where
  bytes off :=
    if off.toNat = 0 then 1
    else if off.toNat = 4 then BitVec.ofNat 8 n
    else if off.toNat = 8 then 1
    else if off.toNat = 64 then 0x61
    else if off.toNat = 96 then 2
    else if off.toNat = 4096 then 1
    else if off.toNat = 4096 * (1 + n) then 1
    else 0
  startingAddr := 0
  endingAddr := BitVec.ofNat 32 (4096 * (2 + n))

theorem files_right_oneFile :
    ∃ st, initFromMemoryAddress (oneFile 1) (fun _ => ⟨fun _ => 0, 0, 0⟩)
        (fun _ => ⟨0, fun _ => 0, 0⟩) = .ok st ∧ (oneFile 1).FilesRight st :=
  (files_right_iff (oneFile 1) _ _ (by decide +kernel)).mpr (Or.inl (by decide +kernel))

/-- With 65 inode blocks the file is looked for one block before its own. -/
theorem file_misread :
    ¬ ∀ (img : Image) (dentries : Nat → Dentry) (inodes : Nat → Inode), img.WellFormed →
      ∃ st, initFromMemoryAddress img dentries inodes = .ok st ∧ img.FilesRight st := by
  intro h
  have hwf : (oneFile 65).WellFormed := by decide +kernel
  obtain ⟨st, hst, hright⟩ := h (oneFile 65) (fun _ => ⟨fun _ => 0, 0, 0⟩)
    (fun _ => ⟨0, fun _ => 0, 0⟩) hwf
  obtain ⟨-, names, -, rfl⟩ := (oneFile 65).of_init hst
  rcases hwf.reachable hright with hfew | hlow
  · exact absurd hfew (by decide +kernel)
  · have hbyte := (hlow 0 (by decide +kernel) (by decide +kernel)).2 0 (by decide +kernel)
    exact absurd hbyte (by decide +kernel)

end TedkOS.Fs
