/-
  What the calls of a mounted file system access (`open`, `fstat`, `getFileSize`, `readDentry` and
  `readData` of fs/kissfs.cpp), for an image with any bytes in it.

  Each call is written here with its array accesses checked, as the decoder is.  A call that gets
  through computes what the unchecked one does (`readData_exactly`), and the condition for getting
  through is read off the image (`Call.SafeWhen`).

  Four accesses escape the checks of the source:
  * `readDentry(index)` and `readData` compare with `<=`, so the element past the last is read;
  * `fstat` and `getFileSize` do not look at the inode number, which `open` takes from the image;
  * `readBlock` looks at the block only, and a read that starts inside the last block may run over
    its end.
-/
import TedkOS.Fs.KissImage

namespace TedkOS.Fs

open Klibs Checked

namespace KissState

variable (st : KissState)

/-- `dentries[i]`. -/
def dentryAt (i : BitVec 32) : Except KissFault Dentry := do
  check (i < st.numDentries) (.dentries i.toNat)
  return st.dentries i.toNat

/-- `inodes[i]`. -/
def inodeAt (i : BitVec 32) : Except KissFault Inode := do
  check (i < st.numInodes) (.inodes i.toNat)
  return st.inodes i.toNat

/-- `dentryIndexOfFilename.get(fn, found)`. -/
def lookup (fn : Filename) : Except KissFault (Option (BitVec 32)) :=
  match st.dentryIndexOfFilename.get HashTableSize Filename.hashing fn with
  | none => throw .endless
  | some dentryIdx => return dentryIdx

/-- `open(filename, fdData)`; `data` is the new descriptor, and the result the one given out. -/
def openFile (data : KissFileDescriptorData) (filename : Filename) :
    Except KissFault (Option KissFileDescriptorData) := do
  match ← st.lookup filename with
  | none => return none
  | some dentryIdx =>
    let dentry ← st.dentryAt dentryIdx
    if dentry.filetype.toNat = DIRECTORY then
      return some { data with
        filetype := dentry.filetype.setWidth 8, base := st.dentries, idx := 0, max :=
          st.numDentries }
    else
      return some { data with filetype := dentry.filetype.setWidth 8, inode := dentry.inode }

/-- `fstat(fdData, st)`: what it stores. -/
def fstat (data : KissFileDescriptorData) : Except KissFault (List (Nat × BitVec 8)) := do
  if data.filetype.toNat = DIRECTORY then return memcpy st_mode (wordBytes S_IFDIR)
  else if data.filetype.toNat = SPECIAL_DEVICE then return memcpy st_mode (wordBytes S_IFCHR)
  else
    let node ← st.inodeAt data.inode
    return memcpy st_mode (wordBytes S_IFREG) ++ memcpy st_size (wordBytes node.size)

/-- `getFileSize(fdData)`. -/
def getFileSize (data : KissFileDescriptorData) : Except KissFault (Option (BitVec 32)) := do
  if data.filetype.toNat ≠ NORMAL_FILE then return none
  else
    let node ← st.inodeAt data.inode
    return some node.size

/-- `readDentry(fname, dentry)`: what is stored through `dentry`; `none` is the result -1. -/
def readDentryByName (fname : Filename) : Except KissFault (Option Dentry) := do
  match ← st.lookup fname with
  | none => return none
  | some dentryIdx =>
    let dentry ← st.dentryAt dentryIdx
    return some dentry

/-- `readDentry(index, dentry)`. -/
def readDentryByIndex (index : BitVec 32) : Except KissFault (Option Dentry) := do
  if index ≤ st.numDentries then
    let dentry ← st.dentryAt index
    return some dentry
  else return none

/-- `readBlock(datablockId, offset, buf, len)`; `memcpy` reads the image byte by byte. -/
def readBlock (datablockId offset len : BitVec 32) : Except KissFault (Option (List (BitVec 8))) :=
  match st.toKissFS.readBlock datablockId offset len with
  | none => return none
  | some bytes => do
    let src := st.rawBlockId datablockId * BitVec.ofNat 32 BlockSize + offset
    check (∀ j, j < len.toNat → (src + BitVec.ofNat 32 j).toNat < BlockSize * st.numBlocks.toNat)
      (.image src.toNat)
    return some bytes

/-- The `for` loop of `readData` from block `i` on, with the number of rounds left. -/
def readDataLoop (node : Inode) :
    Nat → Nat → BitVec 32 → BitVec 32 → BitVec 32 → BitVec 32 → List (Nat × BitVec 8) →
      Except KissFault (BitVec 32 × List (Nat × BitVec 8))
  | 0, _, _, _, _, read, out => return (read, out)
  | rounds + 1, i, length, bytesRemaining, realOffset, read, out => do
    check (i < NumDatablocks) (.datablocks i)
    let datablockId := node.datablocks i
    if datablockId ≤ st.numTotalDataBlocks then
      let len := KissFS.roundLen length bytesRemaining
      match ← st.readBlock datablockId realOffset len with
      | none => return (-1, out)
      | some bytes =>
        let out := out ++ memcpy read.toNat bytes
        if length - len = 0 then return (read + len, out)
        else
          -- Start from zero in next block
          readDataLoop node rounds (i + 1) (length - len) (bytesRemaining - len) 0 (read + len) out
    else return (-1, out)

/-- `readData(inode, offset, buf, length)`. -/
def readData (inode offset length : BitVec 32) :
    Except KissFault (BitVec 32 × List (Nat × BitVec 8)) := do
  if inode ≤ st.numInodes then
    let node ← st.inodeAt inode
    let startingDataBlock := offset.toNat / BlockSize
    st.readDataLoop node (node.numDataBlocks.toNat - startingDataBlock) startingDataBlock length
      (node.size - offset) (BitVec.ofNat 32 (offset.toNat % BlockSize)) 0 []
  else return (-1, [])

end KissState

/-! ## Reading a block

  The bytes are read from the image at a place computed in 32 bits.  That there is such a block
  is checked, and that the bytes end within the image is not (`BlockInside`). -/

namespace KissState

variable {st : KissState}

/-- An entry can be read if the index is one of the entries'. -/
theorem dentryAt_exactly (st : KissState) (i : BitVec 32) :
    Exactly (st.dentryAt i) (i < st.numDentries) (st.dentries i.toNat) :=
  Exactly.bind_ok (Exactly.check _) rfl

/-- And an inode likewise. -/
theorem inodeAt_exactly (st : KissState) (i : BitVec 32) :
    Exactly (st.inodeAt i) (i < st.numInodes) (st.inodes i.toNat) :=
  Exactly.bind_ok (Exactly.check _) rfl

/-- `fstat` gets through unless it looks at an inode that does not exist. -/
theorem fstat_exactly (st : KissState) (data : KissFileDescriptorData) :
    Exactly (st.fstat data)
      (data.filetype.toNat = DIRECTORY ∨ data.filetype.toNat = SPECIAL_DEVICE ∨
        data.inode < st.numInodes) (st.toKissFS.fstat data) := by
  rw [fstat, KissFS.fstat]
  by_cases hdir : data.filetype.toNat = DIRECTORY
  · rw [if_pos hdir, if_pos hdir]
    exact (Exactly.of_eq rfl).congr ⟨fun _ => Or.inl hdir, fun _ => trivial⟩
  · rw [if_neg hdir, if_neg hdir, or_iff_right hdir]
    by_cases hdev : data.filetype.toNat = SPECIAL_DEVICE
    · rw [if_pos hdev, if_pos hdev]
      exact (Exactly.of_eq rfl).congr ⟨fun _ => Or.inl hdev, fun _ => trivial⟩
    · rw [if_neg hdev, if_neg hdev, or_iff_right hdev]
      exact Exactly.bind_ok (inodeAt_exactly st data.inode) rfl

/-- A search that ends is what the call has found. -/
theorem lookup_eq (st : KissState) {fn : Filename} {r : Option (BitVec 32)}
    (h : st.dentryIndexOfFilename.get HashTableSize Filename.hashing fn = some r) :
    st.lookup fn = .ok r := by
  rw [lookup, h]
  rfl

/-- Where `memcpy` reads stays below the end of the image, or there is nothing to read. -/
def BlockInside (st : KissState) (datablockId offset len : BitVec 32) : Prop :=
  st.numBlocks ≤ st.rawBlockId datablockId ∨
    BlockSize * (st.rawBlockId datablockId).toNat + offset.toNat + len.toNat
      ≤ BlockSize * st.numBlocks.toNat

/-- The source address of a byte; it does not wrap, because the block is in the image. -/
theorem toNat_src {raw offset : BitVec 32} {j n : Nat} (hraw : raw.toNat < n) (hn : n < 0x100000)
    (hoff : offset.toNat < BlockSize) (hj : j < BlockSize) :
    (raw * BitVec.ofNat 32 BlockSize + offset + BitVec.ofNat 32 j).toNat =
      BlockSize * raw.toNat + offset.toNat + j := by
  unfold BlockSize at *
  have hmul : (raw * BitVec.ofNat 32 4096).toNat = 4096 * raw.toNat := by
    rw [BitVec.toNat_mul, Nat.mul_comm]
    apply Nat.mod_eq_of_lt
    show 4096 * raw.toNat < 0x100000000
    omega
  have hj32 : (BitVec.ofNat 32 j).toNat = j := by
    apply Nat.mod_eq_of_lt
    omega
  rw [BitVec.toNat_add, BitVec.toNat_add, hmul, hj32]
  omega

/-- A block can be read if the piece asked for lies inside the image, or the block is refused. -/
theorem readBlock_exactly (hblocks : st.numBlocks.toNat < 0x100000)
    {datablockId offset len : BitVec 32} (hoff : offset.toNat < BlockSize)
    (hlen : len.toNat ≤ BlockSize) :
    Exactly (st.readBlock datablockId offset len) (st.BlockInside datablockId offset len)
      (st.toKissFS.readBlock datablockId offset len) := by
  unfold readBlock BlockInside
  cases hb : st.toKissFS.readBlock datablockId offset len with
  | none =>
    have hraw : st.numBlocks ≤ st.rawBlockId datablockId := by
      by_contra hlt
      have hsome := (st.readBlock_isSome _ offset len).mpr (BitVec.not_le.mp hlt)
      rw [hb] at hsome
      exact absurd hsome (by decide)
    exact (Exactly.of_eq rfl).congr ⟨fun _ => Or.inl hraw, fun _ => trivial⟩
  | some bytes =>
    have hraw : st.rawBlockId datablockId < st.numBlocks := by
      apply (st.readBlock_isSome _ offset len).mp
      rw [hb]
      rfl
    have hlt : (st.rawBlockId datablockId).toNat < st.numBlocks.toNat := hraw
    refine Exactly.congr (Exactly.bind_ok (Exactly.check _) rfl) ?_
    constructor
    · intro hall
      right
      rcases Nat.eq_zero_or_pos len.toNat with h0 | hpos
      · unfold BlockSize at *
        omega
      · have hlast := hall (len.toNat - 1) (by omega)
        rw [toNat_src hlt hblocks hoff (by omega)] at hlast
        omega
    · rintro (hge | hin) j hj
      · exact absurd hraw (BitVec.not_lt.mpr hge)
      · rw [toNat_src hlt hblocks hoff (by omega)]
        omega

/-- From the start of a block, a read of at most a block stays inside. -/
theorem blockInside_zero (datablockId : BitVec 32) {len : BitVec 32}
    (hlen : len.toNat ≤ BlockSize) :
    st.BlockInside datablockId 0 len := by
  by_cases hraw : st.numBlocks ≤ st.rawBlockId datablockId
  · exact Or.inl hraw
  · right
    have hlt : (st.rawBlockId datablockId).toNat < st.numBlocks.toNat := BitVec.not_le.mp hraw
    have h0 : (0 : BitVec 32).toNat = 0 := rfl
    unfold BlockSize at *
    omega

/-! ## Reading a file

  Every round after the first starts at the beginning of a block that is there, so it stays
  inside.  Only the first can run out, when it starts in the last block and takes more than is
  left of it (`FirstRoundInside`). -/

/-- **One round.**  It gets through when its block number is refused or its block can be read; the
    rounds after it are taken to get through. -/
theorem readDataLoop_succ {node : Inode} {rounds i : Nat}
    {length bytesRemaining realOffset read : BitVec 32} {out : List (Nat × BitVec 8)} {p : Prop}
    (hi : i < NumDatablocks)
    (hblock : Exactly
      (st.readBlock (node.datablocks i) realOffset (KissFS.roundLen length bytesRemaining)) p
      (st.toKissFS.readBlock (node.datablocks i) realOffset
        (KissFS.roundLen length bytesRemaining)))
    (hrest : ∀ length bytesRemaining read out,
      st.readDataLoop node rounds (i + 1) length bytesRemaining 0 read out =
        .ok (st.toKissFS.readDataLoop node rounds (i + 1) length bytesRemaining 0 read out)) :
    Exactly (st.readDataLoop node (rounds + 1) i length bytesRemaining realOffset read out)
      (st.numTotalDataBlocks < node.datablocks i ∨ p)
      (st.toKissFS.readDataLoop node (rounds + 1) i length bytesRemaining realOffset read out) := by
  rw [readDataLoop, KissFS.readDataLoop]
  apply Exactly.ok_bind ((Exactly.check _).succeeds hi)
  dsimp only
  by_cases hid : node.datablocks i ≤ st.numTotalDataBlocks
  · rw [if_pos hid, if_pos hid]
    have hp : p ↔ st.numTotalDataBlocks < node.datablocks i ∨ p := by
      rw [or_iff_right (BitVec.not_lt.mpr hid)]
    apply Exactly.congr (Exactly.bind_ok hblock _) hp
    cases st.toKissFS.readBlock (node.datablocks i) realOffset
      (KissFS.roundLen length bytesRemaining) with
    | none => rfl
    | some bytes =>
      dsimp only
      by_cases hdone : length - KissFS.roundLen length bytesRemaining = 0
      · rw [if_pos hdone, if_pos hdone]
        rfl
      · rw [if_neg hdone, if_neg hdone]
        exact hrest _ _ _ _
  · rw [if_neg hid, if_neg hid]
    exact (Exactly.of_eq rfl).congr ⟨fun _ => Or.inl (BitVec.not_le.mp hid), fun _ => trivial⟩

/-- From the start of a block on, a read gets through whatever the block numbers are. -/
theorem readDataLoop_aligned (hblocks : st.numBlocks.toNat < 0x100000) (node : Inode)
    (rounds i : Nat) (hi : rounds ≤ NumDatablocks - i) (length bytesRemaining read : BitVec 32)
    (out : List (Nat × BitVec 8)) :
    st.readDataLoop node rounds i length bytesRemaining 0 read out =
      .ok (st.toKissFS.readDataLoop node rounds i length bytesRemaining 0 read out) := by
  induction rounds generalizing i length bytesRemaining read out with
  | zero => rfl
  | succ rounds ih =>
    have hlen := KissFS.roundLen_le length bytesRemaining
    apply (readDataLoop_succ (by omega) (readBlock_exactly hblocks (by decide) hlen)
      (ih (i + 1) (by omega))).succeeds
    exact Or.inr (blockInside_zero _ hlen)

/-- The first round of a read gets through. -/
def FirstRoundInside (st : KissState) (node : Inode) (offset length : BitVec 32) : Prop :=
  node.numDataBlocks.toNat ≤ offset.toNat / BlockSize ∨
    st.numTotalDataBlocks < node.datablocks (offset.toNat / BlockSize) ∨
    st.BlockInside (node.datablocks (offset.toNat / BlockSize))
      (BitVec.ofNat 32 (offset.toNat % BlockSize)) (KissFS.roundLen length (node.size - offset))

/-- **A read gets through** when the inode number is refused, or the inode exists and the first
    round stays inside the image. -/
theorem readData_exactly (st : KissState) (hblocks : st.numBlocks.toNat < 0x100000)
    (hnodes : ∀ i, i < st.numInodes → (st.inodes i.toNat).numDataBlocks.toNat ≤ NumDatablocks)
    (inode offset length : BitVec 32) :
    Exactly (st.readData inode offset length)
      (st.numInodes < inode ∨
        (inode < st.numInodes ∧ st.FirstRoundInside (st.inodes inode.toNat) offset length))
      (st.toKissFS.readData inode offset length) := by
  rw [readData, KissFS.readData]
  by_cases hin : inode ≤ st.numInodes
  · rw [if_pos hin, if_pos hin]
    have hnot : ¬ st.numInodes < inode := BitVec.not_lt.mpr hin
    rw [or_iff_right hnot]
    apply Exactly.bind (inodeAt_exactly _ inode)
    intro hlt
    have hnode := hnodes inode hlt
    unfold FirstRoundInside
    dsimp only
    cases hrounds : (st.inodes inode.toNat).numDataBlocks.toNat - offset.toNat / BlockSize with
    | zero =>
      exact (Exactly.of_eq rfl).congr ⟨fun _ => Or.inl (by omega), fun _ => trivial⟩
    | succ rounds =>
      have hoff : (BitVec.ofNat 32 (offset.toNat % BlockSize)).toNat < BlockSize := by
        apply lt_of_le_of_lt (Nat.mod_le _ _)
        exact Nat.mod_lt _ (by decide)
      apply Exactly.congr (readDataLoop_succ (by omega)
        (readBlock_exactly hblocks hoff (KissFS.roundLen_le _ _))
        (fun _ _ _ _ => readDataLoop_aligned hblocks _ _ _ (by omega) _ _ _ _))
      rw [or_iff_right (show ¬ (st.inodes inode.toNat).numDataBlocks.toNat ≤
        offset.toNat / BlockSize by omega)]
  · rw [if_neg hin, if_neg hin]
    exact (Exactly.of_eq rfl).congr ⟨fun _ => Or.inl (BitVec.not_le.mp hin), fun _ => trivial⟩

end KissState

/-! ## Every call

  The conditions of the calls, put together.  `open` and looking up a name have none: the entries
  that the decoder has found are there. -/

/-- A call into the mounted file system. -/
inductive KissCall where
  | openFile (data : KissFileDescriptorData) (filename : Filename)
  | fstat (data : KissFileDescriptorData)
  | getFileSize (data : KissFileDescriptorData)
  | readDentryByName (fname : Filename)
  | readDentryByIndex (index : BitVec 32)
  | readData (inode offset length : BitVec 32)

namespace Image

variable (img : Image)

/-- The raw block `readBlock` looks for. -/
def rawBlockId (datablockId : BitVec 32) : BitVec 32 := datablockId + img.numInodes + 1

/-- How `readData` starts, by what the image says: past the last block, at a block number that is
    refused, or at bytes that are in the image. -/
def ReadStarts (inode : Nat) (offset length : BitVec 32) : Prop :=
  let id := img.blockId inode (offset.toNat / BlockSize)
  let len := KissFS.roundLen length (img.inodeSize inode - offset)
  (img.numDataBlocks inode).toNat ≤ offset.toNat / BlockSize ∨
    img.numTotalDataBlocks < id ∨
    img.numBlocks ≤ img.rawBlockId id ∨
    BlockSize * (img.rawBlockId id).toNat + offset.toNat % BlockSize + len.toNat ≤ img.size

end Image

namespace KissCall

/-- The call makes no access outside what was allocated. -/
def Safe (st : KissState) : KissCall → Prop
  | openFile data filename => ∃ r, st.openFile data filename = .ok r
  | fstat data => ∃ r, st.fstat data = .ok r
  | getFileSize data => ∃ r, st.getFileSize data = .ok r
  | readDentryByName fname => ∃ r, st.readDentryByName fname = .ok r
  | readDentryByIndex index => ∃ r, st.readDentryByIndex index = .ok r
  | readData inode offset length => ∃ r, st.readData inode offset length = .ok r

/-- When that is, by the image and the arguments. -/
def SafeWhen (img : Image) : KissCall → Prop
  | openFile _ _ => True
  | fstat data =>
    data.filetype.toNat = DIRECTORY ∨ data.filetype.toNat = SPECIAL_DEVICE ∨
      data.inode < img.numInodes
  | getFileSize data => data.filetype.toNat ≠ NORMAL_FILE ∨ data.inode < img.numInodes
  | readDentryByName _ => True
  | readDentryByIndex index => index ≠ img.numDentries
  | readData inode offset length =>
    img.numInodes < inode ∨
      (inode < img.numInodes ∧ img.ReadStarts inode.toNat offset length)

end KissCall

section Mounted

variable {img : Image} {dentries : Nat → Dentry} {inodes : Nat → Inode}
  {names : LinearProbingHashTable Filename (BitVec 32)}

/-- The decoder fills in the numbers of the blocks that the size needs, and leaves the rest of
    the array. -/
theorem Image.inode_datablocks (img : Image) (datablocks : Nat → BitVec 32) {i j : Nat}
    (hj : j < (img.numDataBlocks i).toNat) :
    (img.inode datablocks i).datablocks j = img.blockId i j :=
  if_pos hj

/-- The inodes of the mounted image are those decoded from it, -/
theorem mounted_inode (dentries : Nat → Dentry) (inodes : Nat → Inode)
    (names : LinearProbingHashTable Filename (BitVec 32)) {i : BitVec 32} (hi : i < img.numInodes) :
    (img.mounted dentries inodes names).inodes i.toNat =
      img.inode (inodes i.toNat).datablocks i.toNat :=
  if_pos hi

/-- and so are the entries. -/
theorem mounted_dentryAt {i : BitVec 32} (hi : i < img.numDentries) :
    (img.mounted dentries inodes names).dentryAt i = .ok (img.dentry i.toNat) := by
  rw [(KissState.dentryAt_exactly (img.mounted dentries inodes names) i).succeeds hi]
  exact congrArg Except.ok (if_pos hi)

/-- The hash table answers, and with entries that exist. -/
theorem lookup_ok (dentries : Nat → Dentry) (inodes : Nat → Inode)
    (hnames : Indexed img.dentry img.numDentries.toNat names) (fn : Filename) :
    (img.mounted dentries inodes names).lookup fn = .ok none ∨
      ∃ dentryIdx, (img.mounted dentries inodes names).lookup fn = .ok (some dentryIdx) ∧
        (img.mounted dentries inodes names).dentryAt dentryIdx =
          .ok (img.dentry dentryIdx.toNat) := by
  have hroom : names.used HashTableSize < HashTableSize := by
    apply lt_of_le_of_lt hnames.room
    apply lt_of_le_of_lt (toNat_clamp_le _)
    decide
  obtain ⟨r, hr⟩ := LinearProbingHashTable.get_ends (F := Filename.hashing) hroom fn
  have hlookup := KissState.lookup_eq (img.mounted dentries inodes names) hr
  cases r with
  | none => exact Or.inl hlookup
  | some dentryIdx =>
    rw [LinearProbingHashTable.get_eq_some_iff hnames.ordered (by decide)] at hr
    exact Or.inr ⟨dentryIdx, hlookup, mounted_dentryAt (hnames.stored fn dentryIdx hr).1⟩

/-- A name that an entry has is found, at an entry of that name. -/
theorem lookup_finds (dentries : Nat → Dentry) (inodes : Nat → Inode)
    (hnames : Indexed img.dentry img.numDentries.toNat names) {i : Nat}
    (hi : i < img.numDentries.toNat) {filename : Filename}
    (hname : Filename.chars (img.dentry i).filename = filename.chars) :
    ∃ v, (img.mounted dentries inodes names).lookup filename = .ok (some v) ∧
      v.toNat < img.numDentries.toNat ∧
      Filename.chars (img.dentry v.toNat).filename = filename.chars := by
  obtain ⟨v, hv⟩ := hnames.found i hi
  have hstored := LinearProbingHashTable.stored_congr (Filename.eq_iff.mpr hname) hv
  obtain ⟨hlt, hchars⟩ := hnames.stored filename v hstored
  have hget := (LinearProbingHashTable.get_eq_some_iff hnames.ordered (by decide)).mpr hstored
  exact ⟨v, KissState.lookup_eq (img.mounted dentries inodes names) hget, hlt, hchars⟩

/-- `open` is always safe: the search ends at an entry or at none. -/
theorem openFile_safe (hnames : Indexed img.dentry img.numDentries.toNat names)
    (data : KissFileDescriptorData) (filename : Filename) :
    ∃ r, (img.mounted dentries inodes names).openFile data filename = .ok r := by
  rcases lookup_ok dentries inodes hnames filename with hnone | ⟨dentryIdx, hsome, hdentry⟩
  · exact ⟨none, by rw [KissState.openFile, hnone]; rfl⟩
  · rw [KissState.openFile, hsome, ok_bind]
    dsimp only
    rw [hdentry, ok_bind]
    split
    · exact ⟨_, rfl⟩
    · exact ⟨_, rfl⟩

/-- So is `readDentry` with a name. -/
theorem readDentryByName_safe (hnames : Indexed img.dentry img.numDentries.toNat names)
    (fname : Filename) :
    ∃ r, (img.mounted dentries inodes names).readDentryByName fname = .ok r := by
  rcases lookup_ok dentries inodes hnames fname with hnone | ⟨dentryIdx, hsome, hdentry⟩
  · exact ⟨none, by rw [KissState.readDentryByName, hnone]; rfl⟩
  · rw [KissState.readDentryByName, hsome, ok_bind]
    dsimp only
    rw [hdentry, ok_bind]
    exact ⟨_, rfl⟩

/-- `fstat` looks at the inode of a regular file, without asking whether there is such an inode. -/
theorem fstat_safe_iff (data : KissFileDescriptorData) :
    (∃ r, (img.mounted dentries inodes names).fstat data = .ok r) ↔
      data.filetype.toNat = DIRECTORY ∨ data.filetype.toNat = SPECIAL_DEVICE ∨
        data.inode < img.numInodes :=
  (KissState.fstat_exactly (img.mounted dentries inodes names) data).exists_ok_iff

/-- So does `getFileSize`. -/
theorem getFileSize_safe_iff (data : KissFileDescriptorData) :
    (∃ r, (img.mounted dentries inodes names).getFileSize data = .ok r) ↔
      data.filetype.toNat ≠ NORMAL_FILE ∨ data.inode < img.numInodes := by
  rw [KissState.getFileSize]
  by_cases hfile : data.filetype.toNat ≠ NORMAL_FILE
  · rw [if_pos hfile]
    exact ⟨fun _ => Or.inl hfile, fun _ => ⟨_, rfl⟩⟩
  · rw [if_neg hfile, or_iff_right hfile]
    exact (KissState.inodeAt_exactly _ data.inode).exists_bind_iff ⟨_, rfl⟩

/-- `readDentry` with an index lets the one past the last through. -/
theorem readDentryByIndex_safe_iff (index : BitVec 32) :
    (∃ r, (img.mounted dentries inodes names).readDentryByIndex index = .ok r) ↔
      index ≠ img.numDentries := by
  rw [KissState.readDentryByIndex]
  show (∃ r, (if index ≤ img.numDentries then _ else _) = Except.ok r) ↔ _
  by_cases hle : index ≤ img.numDentries
  · rw [if_pos hle]
    refine Iff.trans ((KissState.dentryAt_exactly _ index).exists_bind_iff ⟨_, rfl⟩) ?_
    show index < img.numDentries ↔ _
    rw [BitVec.lt_def, ne_eq, ← BitVec.toNat_inj]
    have hle' : index.toNat ≤ img.numDentries.toNat := hle
    omega
  · rw [if_neg hle]
    refine ⟨fun _ => ?_, fun _ => ⟨_, rfl⟩⟩
    rintro rfl
    exact hle (BitVec.le_refl _)

/-- `readData` lets the inode past the last through, and a read may run over the end of the image
    inside its last block. -/
theorem readData_safe_iff (hsafe : img.InitSafe) (inode offset length : BitVec 32) :
    (∃ r, (img.mounted dentries inodes names).readData inode offset length = .ok r) ↔
      img.numInodes < inode ∨
        (inode < img.numInodes ∧ img.ReadStarts inode.toNat offset length) := by
  have hread := KissState.readData_exactly (img.mounted dentries inodes names)
    img.toNat_numBlocks_lt (fun i hi => by
      rw [mounted_inode dentries inodes names hi]
      exact (hsafe.inodes i.toNat hi).2) inode offset length
  rw [hread.exists_ok_iff]
  show img.numInodes < inode ∨ _ ↔ _
  apply or_congr_right
  apply and_congr_right
  intro hlt
  have hoff : (BitVec.ofNat 32 (offset.toNat % BlockSize)).toNat = offset.toNat % BlockSize := by
    apply Nat.mod_eq_of_lt
    apply lt_of_le_of_lt (Nat.mod_le _ _)
    exact offset.isLt
  rw [mounted_inode dentries inodes names hlt]
  unfold KissState.FirstRoundInside Image.ReadStarts KissState.BlockInside
  show (img.numDataBlocks inode.toNat).toNat ≤ _ ∨ _ ↔ _
  rcases Nat.lt_or_ge (offset.toNat / BlockSize) (img.numDataBlocks inode.toNat).toNat with
    hin | hpast
  · rw [img.inode_datablocks _ hin, hoff]
    exact Iff.rfl
  · exact iff_of_true (Or.inl hpast) (Or.inl hpast)

end Mounted

/-- **Which accesses are safe**, for an image with any bytes in it.  Mounting stays inside the
    arrays and the image exactly on an `InitSafe` image; of the calls after it, `open` and
    `readDentry` by name always do, and each of the others under its own condition. -/
theorem accesses_safe (img : Image) (dentries : Nat → Dentry) (inodes : Nat → Inode) :
    ((∃ st, initFromMemoryAddress img dentries inodes = .ok st) ↔ img.InitSafe) ∧
      ∀ st, initFromMemoryAddress img dentries inodes = .ok st →
        ∀ call : KissCall, call.Safe st ↔ call.SafeWhen img := by
  constructor
  · obtain ⟨names, -, hinit⟩ := img.init_exactly dentries inodes
    exact hinit.exists_ok_iff
  · intro st hst call
    obtain ⟨hsafe, names, hnames, rfl⟩ := img.of_init hst
    cases call with
    | openFile data filename => exact iff_of_true (openFile_safe hnames data filename) trivial
    | fstat data => exact fstat_safe_iff data
    | getFileSize data => exact getFileSize_safe_iff data
    | readDentryByName fname => exact iff_of_true (readDentryByName_safe hnames fname) trivial
    | readDentryByIndex index => exact readDentryByIndex_safe_iff index
    | readData inode offset length => exact readData_safe_iff hsafe inode offset length

/-- One block of zeros: no directory entries and no inodes. -/
def zeroBlock : Image := ⟨fun _ => 0, 0, 4096⟩

/-- It has nothing to decode but its counts. -/
theorem zeroBlock_safe : zeroBlock.InitSafe where
  bootBlock := by decide
  inodes i hi := absurd hi (by rw [show zeroBlock.numInodes.toNat = 0 by decide]; omega)

/-- There `readDentry(1)` is refused, and `readDentry(0)` reads the entry past the last. -/
theorem accesses_safe_zeroBlock :
    ∃ st, initFromMemoryAddress zeroBlock (fun _ => ⟨fun _ => 0, 0, 0⟩)
        (fun _ => ⟨0, fun _ => 0, 0⟩)
        = .ok st ∧
      (KissCall.readDentryByIndex 1).Safe st ∧ ¬ (KissCall.readDentryByIndex 0).Safe st := by
  have h := accesses_safe zeroBlock (fun _ => ⟨fun _ => 0, 0, 0⟩) (fun _ => ⟨0, fun _ => 0, 0⟩)
  obtain ⟨st, hst⟩ := h.1.mpr zeroBlock_safe
  refine ⟨st, hst, (h.2 st hst _).mpr ?_, fun hs => ?_⟩
  · show (1 : BitVec 32) ≠ zeroBlock.numDentries
    decide
  · have hne : (0 : BitVec 32) ≠ zeroBlock.numDentries := (h.2 st hst _).mp hs
    exact absurd hne (by decide)

/-- `readDentry(0)` on an empty directory reads past the end of `dentries`. -/
theorem readDentry_past_end :
    ¬ ∀ (img : Image) (dentries : Nat → Dentry) (inodes : Nat → Inode),
      ∃ st, initFromMemoryAddress img dentries inodes = .ok st ∧ ∀ call : KissCall,
      call.Safe st := by
  intro h
  obtain ⟨st, hst, hall⟩ := h zeroBlock (fun _ => ⟨fun _ => 0, 0, 0⟩) (fun _ => ⟨0, fun _ => 0, 0⟩)
  obtain ⟨-, names, -, rfl⟩ := zeroBlock.of_init hst
  have hne := (readDentryByIndex_safe_iff 0).mp (hall (.readDentryByIndex 0))
  exact absurd hne (by decide)

end TedkOS.Fs
