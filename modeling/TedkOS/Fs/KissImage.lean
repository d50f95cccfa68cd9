/-
  Mounting a file system image (`KissFS::initFromMemoryAddress`, fs/kissfs.cpp, inc/fs/kiss.h).

  The image is a boot block, inode blocks, and data blocks, of 4096 bytes each.  A `Reader` walks
  over it, byte by byte, from a position it keeps; the decoder skips paddings and repositions it for
  every inode.  All counts come from the image.

  Every access to `dentries[]`, `inodes[]`, `datablocks[]` and to the image is checked here against
  the allocated size, and a computation stops with the `KissFault` of the first access beyond it:
  the source has no such checks.

  What the decoder computes is known without running it: field by field, the word at a fixed offset
  of the image (`Image.dentry`, `Image.inode`).  Each reading step succeeds under a condition on the
  position alone, and the conditions add up (`init_exactly`) to `InitSafe`.
-/
import TedkOS.Lib.Checked
import TedkOS.Palloc.PhysPages
import TedkOS.Fs.KissFS
import TedkOS.Fs.Filename

namespace TedkOS.Fs

open Klibs Checked

def MaxNumFiles : Nat := 64

/-- The elements of `inode_t::datablocks`. -/
def NumDatablocks : Nat := 1023

/-- The cells of `dentryIndexOfFilename`. -/
def HashTableSize : Nat := 133

/-- A boot module: what memory holds from `imageStartingAddress` on, and the module's addresses. -/
structure Image where
  bytes : BitVec 32 → BitVec 8
  startingAddr : BitVec 32
  endingAddr : BitVec 32

/-- An access outside what was allocated, at the given index or offset; `endless` is a search of the
    hash table that never ends. -/
inductive KissFault where
  | dentries (index : Nat)
  | inodes (index : Nat)
  | datablocks (index : Nat)
  | image (offset : Nat)
  | endless
deriving DecidableEq

/-- The file system with the two members only `open` and `readDentry` use. -/
structure KissState extends KissFS where
  numDentries : BitVec 32
  dentryIndexOfFilename : LinearProbingHashTable Filename (BitVec 32)

/-- `(size_t)(endingAddr - startingAddr) / BlockSize`. -/
def Image.numBlocks (img : Image) : BitVec 32 :=
  (img.endingAddr - img.startingAddr) / BitVec.ofNat 32 BlockSize

/-- The bytes of the image's blocks. -/
def Image.size (img : Image) : Nat := BlockSize * img.numBlocks.toNat

/-! ## The reader -/

/-- A computation that reads the image; the state is `read`, the position. -/
abbrev Reader := StateT Nat (Except KissFault)

namespace Reader

variable (img : Image)

/-- `a[i] = startingAddr[read]; read++`. -/
def byte : Reader (BitVec 8) := fun read => do
  check (read < img.size) (.image read)
  return (img.bytes (BitVec.ofNat 32 read), read + 1)

/-- `operator >>` for a value of `n` bytes. -/
def take : Nat → Reader (List (BitVec 8))
  | 0 => return []
  | n + 1 => do
    let b ← byte img
    let rest ← take n
    return b :: rest

/-- `operator >>` for a `uint32_t`, lowest byte first. -/
def word : Reader (BitVec 32) := do
  let b0 ← byte img
  let b1 ← byte img
  let b2 ← byte img
  let b3 ← byte img
  return b3 ++ b2 ++ b1 ++ b0

/-- `operator >>` for a `SkipStruct<n>`: reads like any other, and keeps nothing. -/
def skip (n : Nat) : Reader Unit := do
  let _ ← take img n
  return ()

def reposition (offset : Nat) : Reader Unit := fun _ => .ok ((), offset)

/-- An access to an array, allowed if `p`. -/
def access (p : Prop) [Decidable p] (fault : KissFault) : Reader Unit := fun read => do
  check p fault
  return ((), read)

end Reader

/-! ## The decoder -/

section Decoder

variable (img : Image)

/-- `if (n > MaxNumFiles) n = MaxNumFiles`. -/
def clamp (n : BitVec 32) : BitVec 32 :=
  if BitVec.ofNat 32 MaxNumFiles < n then BitVec.ofNat 32 MaxNumFiles else n

/-- `dentries[i].filename` after the 32 bytes are copied; byte 32 is still the 0 of its
    initializer. -/
def filenameOf (ntmp : List (BitVec 8)) : Filename := fun j => ntmp.getD j 0

/-- The loop over the directory entries from `i` on, `n` of them left; `dentries` is the array so
    far. -/
def readDentries (numDentries : BitVec 32) : Nat → Nat → (Nat → Dentry) → Reader (Nat → Dentry)
  | 0, _, dentries => return dentries
  | n + 1, i, dentries => do
    let ntmp ← Reader.take img MaxFilenameLength
    let filetype ← Reader.word img
    let inode ← Reader.word img
    Reader.skip img 24
    Reader.access (i < numDentries.toNat) (.dentries i)
    readDentries numDentries n (i + 1)
      (Function.update dentries i ⟨filenameOf ntmp, filetype, inode⟩)

/-- The loop over an inode's block numbers from `j` on. -/
def readDatablocks : Nat → Nat → (Nat → BitVec 32) → Reader (Nat → BitVec 32)
  | 0, _, datablocks => return datablocks
  | n + 1, j, datablocks => do
    let id ← Reader.word img
    Reader.access (j < NumDatablocks) (.datablocks j)
    readDatablocks n (j + 1) (Function.update datablocks j id)

/-- The loop over the inodes from `i` on. -/
def readInodes (numInodes : BitVec 32) : Nat → Nat → (Nat → Inode) → Reader (Nat → Inode)
  | 0, _, inodes => return inodes
  | n + 1, i, inodes => do
    Reader.reposition (BlockSize * (i + 1))
    Reader.access (i < numInodes.toNat) (.inodes i)
    let size ← Reader.word img
    let numDataBlocks := PhysPages.ceil size (BitVec.ofNat 32 BlockSize)
    let datablocks ← readDatablocks img numDataBlocks.toNat 0 (inodes i).datablocks
    readInodes numInodes n (i + 1) (Function.update inodes i ⟨size, datablocks, numDataBlocks⟩)

/-- The loop that fills the hash table. -/
def indexFilenames (numDentries : BitVec 32) (dentries : Nat → Dentry) :
    Nat → Nat → LinearProbingHashTable Filename (BitVec 32) →
      Except KissFault (LinearProbingHashTable Filename (BitVec 32))
  | 0, _, t => return t
  | n + 1, i, t => do
    check (i < numDentries.toNat) (.dentries i)
    match t.put HashTableSize Filename.hashing (dentries i).filename (BitVec.ofNat 32 i) with
    | none => throw .endless
    | some t => indexFilenames numDentries dentries n (i + 1) t

/-- `initFromMemoryAddress`, from the construction of the reader on; `dentries` and `inodes` are
    what the memory `new` returns held before. -/
def initFromMemoryAddress (dentries : Nat → Dentry) (inodes : Nat → Inode) :
    Except KissFault KissState := Prod.fst <$> (StateT.run (do
  -- Read boot block
  let numDentries ← Reader.word img
  let numInodes ← Reader.word img
  let numTotalDataBlocks ← Reader.word img
  Reader.skip img 52
  let numDentries := clamp numDentries
  let dentries ← readDentries img numDentries numDentries.toNat 0 dentries
  -- Read inodes
  let numInodes := clamp numInodes
  let inodes ← readInodes img numInodes numInodes.toNat 0 inodes
  -- Initialize hash table
  let names ← indexFilenames numDentries dentries numDentries.toNat 0 fun _ => none
  return { dentries, inodes, numInodes, numTotalDataBlocks, image := img.bytes,
           numBlocks := img.numBlocks, numDentries, dentryIndexOfFilename := names }) 0)

end Decoder

/-! ## What the image says -/

namespace Image

variable (img : Image)

/-- The word at an offset. -/
def word (off : Nat) : BitVec 32 :=
  img.bytes (BitVec.ofNat 32 (off + 3)) ++ img.bytes (BitVec.ofNat 32 (off + 2)) ++
    img.bytes (BitVec.ofNat 32 (off + 1)) ++ img.bytes (BitVec.ofNat 32 off)

/-- The directory entries and inodes the file system keeps. -/
def numDentries : BitVec 32 := clamp (img.word 0)
def numInodes : BitVec 32 := clamp (img.word 4)
def numTotalDataBlocks : BitVec 32 := img.word 8

/-- The `i`-th directory entry, in the boot block. -/
def dentry (i : Nat) : Dentry where
  filename := filenameOf ((List.range MaxFilenameLength).map fun j =>
    img.bytes (BitVec.ofNat 32 (64 * (i + 1) + j)))
  filetype := img.word (64 * (i + 1) + 32)
  inode := img.word (64 * (i + 1) + 36)

/-- The fields of the `i`-th inode block. -/
def inodeSize (i : Nat) : BitVec 32 := img.word (BlockSize * (i + 1))
def numDataBlocks (i : Nat) : BitVec 32 :=
  PhysPages.ceil (img.inodeSize i) (BitVec.ofNat 32 BlockSize)
def blockId (i j : Nat) : BitVec 32 := img.word (BlockSize * (i + 1) + 4 + 4 * j)

/-- The inode in memory; block numbers past the last are what the memory held before. -/
def inode (datablocks : Nat → BitVec 32) (i : Nat) : Inode where
  size := img.inodeSize i
  datablocks j := if j < (img.numDataBlocks i).toNat then img.blockId i j else datablocks j
  numDataBlocks := img.numDataBlocks i

/-- The `i`-th inode block lies in the image and its block numbers fit. -/
def InodeSafe (i : Nat) : Prop :=
  BlockSize * (i + 2) ≤ img.size ∧ (img.numDataBlocks i).toNat ≤ NumDatablocks

/-- The image has the blocks its counts ask for, and no file has more block numbers than fit. -/
structure InitSafe : Prop where
  bootBlock : 64 * (img.numDentries.toNat + 1) ≤ img.size
  inodes : ∀ i, i < img.numInodes.toNat → img.InodeSafe i

end Image

/-! ## One reading step

  `Exactly` says of a computation under which condition it gets through and what it gives then.
  A step forward of the reader gets through if the bytes are in the image, and the sequence of
  two has the condition of both, the second at the position that the first leaves. -/

namespace Reader

variable {img : Image} {read : Nat}

/-- **Sequencing**, with the position handed on. -/
theorem exactly_bind {α β : Type} {m : Reader α} {f : α → Reader β} {p q : Prop} {a : α}
    {next : Nat} {r : β × Nat} (hm : Exactly (m read) p (a, next))
    (hf : p → Exactly (f a next) q r) :
    Exactly ((m >>= f) read) (p ∧ q) r :=
  Exactly.bind hm hf

/-- The last step. -/
theorem exactly_return {α β : Type} {m : Reader α} {f : α → Reader β} {p : Prop} {a : α}
    {next : Nat} {r : β × Nat} (hm : Exactly (m read) p (a, next)) (hf : f a next = .ok r) :
    Exactly ((m >>= f) read) p r :=
  Exactly.bind_ok hm hf

/-- A step that cannot fail. -/
theorem exactly_after {α β : Type} {m : Reader α} {f : α → Reader β} {q : Prop} {a : α} {next : Nat}
    {r : β × Nat} (hm : m read = .ok (a, next)) (hf : Exactly (f a next) q r) :
    Exactly ((m >>= f) read) q r :=
  Exactly.ok_bind hm hf

/-- A byte of the image, if there is one at the position. -/
theorem byte_exactly :
    Exactly (byte img read) (read < img.size) (img.bytes (BitVec.ofNat 32 read), read + 1) :=
  Exactly.bind_ok (Exactly.check _) rfl

theorem access_exactly {p : Prop} [Decidable p] (fault : KissFault) :
    Exactly (access p fault read) p ((), read) :=
  Exactly.bind_ok (Exactly.check _) rfl

theorem access_ok {p : Prop} [Decidable p] (fault : KissFault) (hp : p) :
    access p fault read = .ok ((), read) :=
  (access_exactly fault).succeeds hp

/-- A computation that does not read. -/
theorem lift_ok {α : Type} {x : Except KissFault α} {a : α} (h : x = .ok a) :
    (liftM x : Reader α) read = .ok (a, read) := by
  rw [h]
  rfl

/-- So many bytes; taking none never fails, wherever the position is. -/
theorem take_exactly (n : Nat) :
    Exactly (take img n read) (n = 0 ∨ read + n ≤ img.size)
      ((List.range n).map fun i => img.bytes (BitVec.ofNat 32 (read + i)), read + n) := by
  induction n generalizing read with
  | zero => exact (Exactly.of_eq rfl).congr ⟨fun _ => Or.inl rfl, fun _ => trivial⟩
  | succ n ih =>
    have hrest : ((List.range n).map fun i => img.bytes (BitVec.ofNat 32 (read + 1 + i))) =
        (List.range n).map ((fun i => img.bytes (BitVec.ofNat 32 (read + i))) ∘ Nat.succ) := by
      apply List.map_congr_left
      intro i _
      show _ = img.bytes (BitVec.ofNat 32 (read + (i + 1)))
      rw [show read + 1 + i = read + (i + 1) by omega]
    rw [List.range_succ_eq_map, List.map_cons, List.map_map, ← hrest,
      show read + (n + 1) = read + 1 + n by omega]
    refine Exactly.congr (exactly_bind byte_exactly fun _ => exactly_return ih rfl) ?_
    omega

/-- A word is four bytes, the lowest first. -/
theorem word_exactly : Exactly (word img read) (read + 4 ≤ img.size) (img.word read, read + 4) := by
  refine Exactly.congr (exactly_bind byte_exactly fun _ => exactly_bind byte_exactly fun _ =>
    exactly_bind byte_exactly fun _ => exactly_return byte_exactly rfl) ?_
  omega

theorem skip_exactly (n : Nat) :
    Exactly (skip img n read) (n = 0 ∨ read + n ≤ img.size) ((), read + n) :=
  exactly_return (take_exactly n) rfl

end Reader

/-! ## The loops of the decoder

  Three arrays are filled from the front, each entry from the image at an offset known from its
  index.  The loop over the inodes has the loop over its blocks inside, and repositions the
  reader after it, so its condition is about one inode at a time (`InodeSafe`). -/

section Loops

variable {img : Image}

/-- One more element of an array filled in order. -/
theorem update_filled {β : Type} (new old : Nat → β) (n i : Nat) :
    (fun k => if i + 1 ≤ k ∧ k < i + 1 + n then new k else Function.update old i (new i) k) =
      fun k => if i ≤ k ∧ k < i + (n + 1) then new k else old k := by
  funext k
  by_cases hk : k = i
  · rw [hk, if_neg (by omega), if_pos (by omega), Function.update_self]
  · rw [Function.update_of_ne hk]
    split <;> split <;> first | rfl | omega

theorem filled_zero {β : Type} (new old : Nat → β) (i : Nat) :
    (fun k => if i ≤ k ∧ k < i + 0 then new k else old k) = old := by
  funext k
  exact if_neg (by omega)

/-- The entries lie one behind another from the second slot of the boot block on. -/
theorem readDentries_exactly (img : Image) (numDentries : BitVec 32) (n i : Nat)
    (dentries : Nat → Dentry) (hn : i + n ≤ numDentries.toNat) :
    Exactly (readDentries img numDentries n i dentries (64 * (i + 1)))
      (n = 0 ∨ 64 * (i + n + 1) ≤ img.size)
      ((fun k => if i ≤ k ∧ k < i + n then img.dentry k else dentries k), 64 * (i + n + 1)) := by
  induction n generalizing i dentries with
  | zero =>
    rw [filled_zero]
    exact (Exactly.of_eq rfl).congr ⟨fun _ => Or.inl rfl, fun _ => trivial⟩
  | succ n ih =>
    have hrest := ih (i + 1) (Function.update dentries i (img.dentry i)) (by omega)
    rw [update_filled img.dentry dentries n i, show i + 1 + n = i + (n + 1) by omega] at hrest
    refine Exactly.congr (Reader.exactly_bind (Reader.take_exactly MaxFilenameLength) fun _ =>
      Reader.exactly_bind Reader.word_exactly fun _ =>
        Reader.exactly_bind Reader.word_exactly fun _ =>
      Reader.exactly_bind (Reader.skip_exactly 24) fun _ =>
      Reader.exactly_after (Reader.access_ok _ (by omega)) hrest) ?_
    unfold MaxFilenameLength
    omega

/-- The block numbers of an inode are behind its size.  There may be more of them than the array
    has room for, and then the first beyond it is a fault. -/
theorem readDatablocks_exactly (img : Image) (i n j : Nat) (datablocks : Nat → BitVec 32) :
    Exactly (readDatablocks img n j datablocks (BlockSize * (i + 1) + 4 + 4 * j))
      (n = 0 ∨ (BlockSize * (i + 1) + 4 + 4 * (j + n) ≤ img.size ∧ j + n ≤ NumDatablocks))
      ((fun k => if j ≤ k ∧ k < j + n then img.blockId i k else datablocks k),
        BlockSize * (i + 1) + 4 + 4 * (j + n)) := by
  induction n generalizing j datablocks with
  | zero =>
    rw [filled_zero]
    exact (Exactly.of_eq rfl).congr ⟨fun _ => Or.inl rfl, fun _ => trivial⟩
  | succ n ih =>
    have hrest := ih (j + 1) (Function.update datablocks j (img.blockId i j))
    rw [update_filled (img.blockId i) datablocks n j, show j + 1 + n = j + (n + 1) by omega]
      at hrest
    refine Exactly.congr (Reader.exactly_bind Reader.word_exactly fun _ =>
      Reader.exactly_bind (Reader.access_exactly _) fun _ => hrest) ?_
    omega

/-- What the reader asks of one inode: its words are in the image exactly when its block is. -/
theorem inodeSafe_iff (i : Nat) :
    img.InodeSafe i ↔ BlockSize * (i + 1) + 4 ≤ img.size ∧
      ((img.numDataBlocks i).toNat = 0 ∨
        (BlockSize * (i + 1) + 4 + 4 * (0 + (img.numDataBlocks i).toNat) ≤ img.size ∧
          0 + (img.numDataBlocks i).toNat ≤ NumDatablocks)) := by
  unfold Image.InodeSafe Image.size BlockSize NumDatablocks
  omega

/-- Each inode is in a block of its own, where the reader is sent whatever the one before has
    left. -/
theorem readInodes_exactly (img : Image) (numInodes : BitVec 32) (n i read : Nat)
    (inodes : Nat → Inode) (hn : i + n ≤ numInodes.toNat) :
    ∃ next, Exactly (readInodes img numInodes n i inodes read)
      (∀ k, i ≤ k → k < i + n → img.InodeSafe k)
      ((fun k => if i ≤ k ∧ k < i + n then img.inode (inodes k).datablocks k else inodes k),
        next) := by
  induction n generalizing i read inodes with
  | zero =>
    refine ⟨read, ?_⟩
    rw [filled_zero]
    apply (Exactly.of_eq rfl).congr
    exact ⟨fun _ k h1 h2 => absurd h2 (by omega), fun _ => trivial⟩
  | succ n ih =>
    have hnode := readDatablocks_exactly img i (img.numDataBlocks i).toNat 0
      (inodes i).datablocks
    -- the loop over the blocks of inode `i`, and then the inodes after it, with this one stored
    obtain ⟨next, hrest⟩ := ih (i + 1)
      (BlockSize * (i + 1) + 4 + 4 * (0 + (img.numDataBlocks i).toNat))
      (Function.update inodes i (img.inode (inodes i).datablocks i)) (by omega)
    refine ⟨next, ?_⟩
    have hfilled : (fun k => if i + 1 ≤ k ∧ k < i + 1 + n then
          img.inode (Function.update inodes i (img.inode (inodes i).datablocks i) k).datablocks k
        else Function.update inodes i (img.inode (inodes i).datablocks i) k) =
        fun k => if i ≤ k ∧ k < i + (n + 1) then img.inode (inodes k).datablocks k
          else inodes k := by
      rw [← update_filled (fun k => img.inode (inodes k).datablocks k) inodes n i]
      funext k
      by_cases hk : i + 1 ≤ k ∧ k < i + 1 + n
      · rw [if_pos hk, if_pos hk, Function.update_of_ne (by omega)]
      · rw [if_neg hk, if_neg hk]
    rw [hfilled] at hrest
    have hvalue : (fun k => if 0 ≤ k ∧ k < 0 + (img.numDataBlocks i).toNat then img.blockId i k
        else (inodes i).datablocks k) = (img.inode (inodes i).datablocks i).datablocks := by
      funext k
      show _ = if k < (img.numDataBlocks i).toNat then img.blockId i k else (inodes i).datablocks k
      rw [Nat.zero_add]
      simp only [Nat.zero_le, true_and]
    rw [hvalue] at hnode
    refine Exactly.congr (Reader.exactly_after rfl
      (Reader.exactly_after (Reader.access_ok _ (by omega))
      (Reader.exactly_bind Reader.word_exactly fun _ =>
      Reader.exactly_bind hnode fun _ => hrest))) ?_
    -- what the two ask for is what every inode from `i` on asks for
    rw [← and_assoc, ← inodeSafe_iff]
    constructor
    · rintro ⟨hi, hlater⟩ k h1 h2
      rcases Nat.eq_or_lt_of_le h1 with rfl | hlt
      · exact hi
      · exact hlater k hlt (by omega)
    · intro hall
      exact ⟨hall i (le_refl i) (by omega), fun k h1 h2 => hall k (by omega) (by omega)⟩

/-- What the hash table holds once the names of the first `i` entries are in: under each of these
    names an entry of that name, and nothing else. -/
structure Indexed (dentries : Nat → Dentry) (i : Nat)
    (t : LinearProbingHashTable Filename (BitVec 32)) : Prop where
  ordered : t.Ordered HashTableSize Filename.hashing
  room : t.used HashTableSize ≤ i
  stored (key : Filename) (v : BitVec 32) : t.Stored Filename.hashing key v →
    v.toNat < i ∧ Filename.chars (dentries v.toNat).filename = key.chars
  found (k : Nat) : k < i → ∃ v, t.Stored Filename.hashing (dentries k).filename v

theorem indexed_empty (dentries : Nat → Dentry) : Indexed dentries 0 fun _ => none where
  ordered _ _ _ h := absurd h (by simp)
  room := by
    apply le_of_eq
    rw [LinearProbingHashTable.used, Finset.card_eq_zero, Finset.filter_eq_empty_iff]
    intro j _
    decide
  stored _ _ := by
    rintro ⟨j, k, hj, -⟩
    exact absurd hj (by simp)
  found k hk := absurd hk (by omega)

/-- One more name. -/
theorem Indexed.put {dentries : Nat → Dentry} {i : Nat} (hi : i < MaxNumFiles)
    {t t' : LinearProbingHashTable Filename (BitVec 32)} (h : Indexed dentries i t)
    (hput : t.put HashTableSize Filename.hashing (dentries i).filename (BitVec.ofNat 32 i) =
      some t') :
    Indexed dentries (i + 1) t' := by
  have hsize : 0 < HashTableSize := by decide
  have hword : (BitVec.ofNat 32 i).toNat = i := by
    apply Nat.mod_eq_of_lt
    unfold MaxNumFiles at hi
    omega
  have hstored := fun key v =>
    LinearProbingHashTable.stored_put (k := key) (v := v) h.ordered hsize hput
  refine ⟨h.ordered.put hsize hput, ?_, ?_, ?_⟩
  · have hused := LinearProbingHashTable.used_put hput
    have hroom := h.room
    omega
  · intro key v hv
    rcases (hstored key v).mp hv with ⟨hsame, rfl⟩ | ⟨-, hold⟩
    · rw [hword]
      exact ⟨Nat.lt_succ_self i, Filename.eq_iff.mp hsame⟩
    · obtain ⟨hlt, hchars⟩ := h.stored key v hold
      exact ⟨Nat.lt_succ_of_lt hlt, hchars⟩
  · intro k hk
    cases hsame : Filename.eq (dentries i).filename (dentries k).filename with
    | true => exact ⟨_, (hstored _ _).mpr (Or.inl ⟨hsame, rfl⟩)⟩
    | false =>
      have hne : k ≠ i := by
        rintro rfl
        rw [Filename.eq_iff.mpr rfl] at hsame
        exact absurd hsame (by decide)
      obtain ⟨v, hv⟩ := h.found k (by omega)
      exact ⟨v, (hstored _ _).mpr (Or.inr ⟨hsame, hv⟩)⟩

/-- Only the first `i` entries count. -/
theorem Indexed.congr {dentries dentries' : Nat → Dentry} {i : Nat}
    {t : LinearProbingHashTable Filename (BitVec 32)} (h : Indexed dentries i t)
    (heq : ∀ k, k < i → dentries k = dentries' k) : Indexed dentries' i t := by
  refine ⟨h.ordered, h.room, ?_, ?_⟩
  · intro key v hv
    obtain ⟨hlt, hchars⟩ := h.stored key v hv
    rw [heq _ hlt] at hchars
    exact ⟨hlt, hchars⟩
  · intro k hk
    rw [← heq k hk]
    exact h.found k hk

/-- The hash table takes all the names: it has more cells than there can be entries. -/
theorem indexFilenames_done (numDentries : BitVec 32) (dentries : Nat → Dentry)
    (hmax : numDentries.toNat ≤ MaxNumFiles) (n i : Nat)
    {t : LinearProbingHashTable Filename (BitVec 32)} (hn : i + n = numDentries.toNat)
    (h : Indexed dentries i t) :
    ∃ t', indexFilenames numDentries dentries n i t = .ok t' ∧
    Indexed dentries numDentries.toNat t' := by
  induction n generalizing i t with
  | zero =>
    rw [← hn]
    exact ⟨t, rfl, h⟩
  | succ n ih =>
    have hroom : t.used HashTableSize < HashTableSize := by
      apply lt_of_le_of_lt h.room
      unfold HashTableSize
      unfold MaxNumFiles at hmax
      omega
    obtain ⟨t₁, ht₁⟩ := LinearProbingHashTable.put_ends (F := Filename.hashing) hroom
      (dentries i).filename (BitVec.ofNat 32 i)
    obtain ⟨t', ht', hdone⟩ := ih (i + 1) (by omega) (h.put (by omega) ht₁)
    refine ⟨t', ?_, hdone⟩
    rw [indexFilenames, (Exactly.check _).succeeds (by omega), ok_bind, ht₁]
    exact ht'

end Loops

/-! ## The decoder as a whole -/

theorem toNat_clamp_le (n : BitVec 32) : (clamp n).toNat ≤ MaxNumFiles := by
  unfold clamp
  split
  · decide
  · next h => exact BitVec.not_lt.mp h

/-- No more inodes are kept than there is room for. -/
theorem toNat_clamp (n : BitVec 32) : (clamp n).toNat = min n.toNat MaxNumFiles := by
  have hmax : (BitVec.ofNat 32 MaxNumFiles).toNat = MaxNumFiles := by decide
  unfold clamp
  simp only [BitVec.lt_def]
  split <;> omega

namespace Image

variable (img : Image)

/-- The file system the image describes, with the hash table `names`; past the end of the arrays
    lies what memory held before. -/
def mounted (dentries : Nat → Dentry) (inodes : Nat → Inode)
    (names : LinearProbingHashTable Filename (BitVec 32)) : KissState where
  dentries i := if i < img.numDentries.toNat then img.dentry i else dentries i
  inodes i := if i < img.numInodes.toNat then img.inode (inodes i).datablocks i else inodes i
  numInodes := img.numInodes
  numTotalDataBlocks := img.numTotalDataBlocks
  image := img.bytes
  numBlocks := img.numBlocks
  numDentries := img.numDentries
  dentryIndexOfFilename := names

/-- **Mounting succeeds on a safe image and on no other**, and then every field is the one the image
    has at its fixed place. -/
theorem init_exactly (dentries : Nat → Dentry) (inodes : Nat → Inode) :
    ∃ names, Indexed img.dentry img.numDentries.toNat names ∧
      Exactly (initFromMemoryAddress img dentries inodes) img.InitSafe
        (img.mounted dentries inodes names) := by
  have hD := toNat_clamp_le (img.word 0)
  have hentries := readDentries_exactly img img.numDentries img.numDentries.toNat 0 dentries
    (by omega)
  obtain ⟨next, hinodes⟩ := readInodes_exactly img img.numInodes img.numInodes.toNat 0
    (64 * (0 + img.numDentries.toNat + 1)) inodes (by omega)
  simp only [Nat.zero_le, true_and, Nat.zero_add] at hentries hinodes
  obtain ⟨names, hnames, hindexed⟩ := indexFilenames_done img.numDentries
    (fun i => if i < img.numDentries.toNat then img.dentry i else dentries i) hD
    img.numDentries.toNat 0 (Nat.zero_add _) (indexed_empty _)
  refine ⟨names, hindexed.congr fun k hk => if_pos hk, ?_⟩
  refine Exactly.map (f := Prod.fst) (a := (img.mounted dentries inodes names, next)) ?_
  refine Exactly.congr (Reader.exactly_bind Reader.word_exactly fun _ =>
    Reader.exactly_bind Reader.word_exactly fun _ =>
      Reader.exactly_bind Reader.word_exactly fun _ =>
    Reader.exactly_bind (Reader.skip_exactly 52) fun _ => Reader.exactly_bind hentries fun _ =>
    Reader.exactly_bind hinodes fun _ =>
    Reader.exactly_after (Reader.lift_ok hnames) (Exactly.of_eq rfl)) ?_
  constructor
  · rintro ⟨-, -, -, hboot, hdentries, hnodes, -⟩
    refine ⟨?_, fun i hi => hnodes i trivial hi⟩
    omega
  · intro hsafe
    have hboot := hsafe.bootBlock
    exact ⟨by omega, by omega, by omega, by omega, by
      omega, fun i _ hi => hsafe.inodes i hi, trivial⟩

/-- What a successful mount has done. -/
theorem of_init {dentries : Nat → Dentry} {inodes : Nat → Inode} {st : KissState}
    (h : initFromMemoryAddress img dentries inodes = .ok st) :
    img.InitSafe ∧ ∃ names, Indexed img.dentry img.numDentries.toNat names ∧
      st = img.mounted dentries inodes names := by
  obtain ⟨names, hnames, hinit⟩ := img.init_exactly dentries inodes
  obtain ⟨hsafe, hst⟩ := hinit.ok_iff.mp h
  exact ⟨hsafe, names, hnames, hst⟩

/-- A module has fewer than 2^20 blocks. -/
theorem toNat_numBlocks_lt : img.numBlocks.toNat < 0x100000 := by
  have hlt := (img.endingAddr - img.startingAddr).isLt
  have hB : (BitVec.ofNat 32 BlockSize).toNat = 4096 := by decide
  rw [numBlocks, BitVec.toNat_udiv, hB]
  omega

end Image

end TedkOS.Fs
