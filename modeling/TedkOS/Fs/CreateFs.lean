/-
  Making a file system image (src/createfs.c): what the program writes for a directory.

  The program goes over the directory once and fills the boot block: entry 0 is ".", and every file
  it keeps gets the next entry, a new inode, and as many blocks as its size takes.  Then it draws an
  inode number for every file and after that a number for every block, each by trying `rand()` until
  the number is free.  It asks for twice as many numbers as it needs.  Last it writes the boot
  block, the inodes and the blocks, each at its place in a new file; what lies between stays zero.

  1. **Program** — `main`, over the entries in the order `readdir` gives them, what `malloc`
     returns, and the numbers `rand` returns; `none` if these run out before all numbers are drawn.

  2. **The boot block** — `Scanned`: after the loop over the directory the boot block is, byte for
     byte, the table of the files kept (`scan_scanned`).
-/
import Mathlib.Algebra.Ring.Nat
import TedkOS.Lib.BlockFile
import TedkOS.Lib.Draws
import TedkOS.Klibs.ArrFile
import TedkOS.Fs.KissFS

namespace TedkOS.Fs.CreateFs

open Klibs

/-! ## The program -/

/-- What `st_mode` says of an entry. -/
inductive FileMode where
  | regular
  | charDevice
  | other
deriving DecidableEq

/-- An entry of the directory: its name, what `stat` says, and what the `i`-th `read` of its file
    delivers, `none` for an error. -/
structure DirEntry where
  /-- The name, with its terminator. -/
  d_name : Nat → BitVec 8
  /-- What kind of file it is, -/
  st_mode : FileMode
  /-- and how long. -/
  st_size : Nat
  /-- Its `i`-th block. -/
  read : Nat → Option (List (BitVec 8))

/-- `*(_DWORD *)(buf + off)`. -/
def getDword (buf : Nat → BitVec 8) (off : Nat) : BitVec 32 :=
  buf (off + 3) ++ buf (off + 2) ++ buf (off + 1) ++ buf off

/-- `*(_DWORD *)(buf + off) = w`. -/
def setDword (buf : Nat → BitVec 8) (off : Nat) (w : BitVec 32) : Nat → BitVec 8 :=
  contents buf (memcpy off (wordBytes w))

/-- What `create_file` allocates: the inode block (word 0, and the words from 1 on), the blocks (the
    words from 1024 on), and three words more.  `dentry` is an offset in `bblock`. -/
structure InodeData where
  /-- Word 0 of the inode block. -/
  size : BitVec 32
  /-- The block numbers behind it, when they are drawn. -/
  datablocks : List Nat
  /-- What has been read of the file. -/
  blocks : List (Nat → BitVec 8)
  /-- Where its entry is. -/
  dentry : Nat
  /-- How many blocks it takes. -/
  numDataBlocks : Nat
  /-- Its inode number, when that is drawn. -/
  inode : Nat

/-- The inode block, which `create_file` clears first. -/
def InodeData.block (buf : InodeData) : Nat → BitVec 8 :=
  contents (fun _ => 0) (memcpy 0 (wordBytes buf.size ++
    buf.datablocks.flatMap fun id => wordBytes (BitVec.ofNat 32 id)))

/-- `create_dentry`: the slot at `dest` is cleared, and filled in for a file of a kind that is
    kept; the inode is -1 for the time being. -/
def create_dentry (src : Nat → BitVec 8) (st_mode : FileMode) (dest : Nat)
    (bblock : Nat → BitVec 8) :
    BitVec 32 × (Nat → BitVec 8) :=
  let bblock := contents bblock (memset dest 0 0x40)
  let finish (filetype : BitVec 32) :=
    let bblock := setDword bblock (dest + 32) filetype
    let bblock := contents bblock (memcpy dest (strncpy src 0x1F))
    let bblock := contents bblock (memcpy (dest + 31) [0])
    (0, setDword bblock (dest + 36) (-1))
  match st_mode with
  | .regular => finish 2
  | .charDevice => finish 0
  | .other => (-1, bblock)

/-- The loop of `create_file` from block `i` on; what a `read` leaves of a block is as `malloc` gave
    it. -/
def readBlocks (file : DirEntry) (malloc : Nat → Nat → BitVec 8) :
    Nat → Nat → Option (List (Nat → BitVec 8))
  | 0, _ => some []
  | rounds + 1, i =>
    match file.read i with
    | none => none
    | some bytes =>
      (readBlocks file malloc rounds (i + 1)).map ((fun j => bytes.getD j (malloc i j)) :: ·)

/-- `create_file`: reads as many blocks as the size takes; a file of more than 1023, or one that
    cannot be read, is not kept. -/
def create_file (file : DirEntry) (malloc : Nat → Nat → BitVec 8) : Option InodeData :=
  if file.st_size ≤ 0x3FF000 then
    let v3 := if file.st_size % 4096 ≠ 0 then file.st_size / 4096 + 1 else file.st_size / 4096
    (readBlocks file malloc v3 0).map fun blocks =>
    ⟨BitVec.ofNat 32 file.st_size, [], blocks, 0, v3, 0⟩
  else none

/-- The boot block, and the inodes so far. -/
structure Scan where
  bblock : Nat → BitVec 8
  inode_list : List InodeData

/-- The boot block with the entry of the directory itself. -/
def Scan.start : Scan where
  bblock :=
    let bblock := contents (fun _ => 0) (memset 0 0 0x1000)
    let bblock := contents bblock (memcpy 64 [0x2E, 0])
    let bblock := setDword bblock 96 1
    let bblock := setDword bblock 100 0
    setDword bblock 0 1
  inode_list := []

/-- The body of the loop over the directory; `malloc k` is about the blocks of the `k`-th file.  The
    count stays below 64, so its lowest byte is all of it, and not negative as a `char`. -/
def scanEntry (malloc : Nat → Nat → Nat → BitVec 8) (s : Scan) (v15 : DirEntry) : Scan :=
  let dest := (s.bblock 0).toNat * 64 + 64
  let (v11, bblock) := create_dentry v15.d_name v15.st_mode dest s.bblock
  if v11 ≠ 0 then { s with bblock }
  else
    match create_file v15 (malloc s.inode_list.length) with
    | none => { s with bblock }
    | some data =>
      let bblock := setDword bblock 0 (getDword bblock 0 + 1)
      let bblock := setDword bblock 4 (getDword bblock 4 + 1)
      let bblock := setDword bblock 8 (getDword bblock 8 + BitVec.ofNat 32 data.numDataBlocks)
      ⟨bblock, s.inode_list ++ [{ data with dentry := dest }]⟩

/-- The loop over the directory. -/
def scan (malloc : Nat → Nat → Nat → BitVec 8) : List DirEntry → Scan → Scan
  | [], s => s
  | v15 :: dir, s =>
    if getDword s.bblock 0 ≤ 0x3E then scan malloc dir (scanEntry malloc s v15) else s

/-- The free map, and what `rand` will return. -/
structure FreeMap where
  /-- How many inode numbers there are, -/
  numInodes : Nat
  /-- and how many block numbers. -/
  numDatablocks : Nat
  /-- A byte for each number, those of the inodes first. -/
  used : Nat → Bool
  /-- What `rand` will return. -/
  rands : List Nat

/-- `init_freemap`: the numbers asked for, doubled, and none in use. -/
def init_freemap (a1 a2 : Nat) (rands : List Nat) : FreeMap where
  numInodes := 2 * a1
  numDatablocks := 2 * a2
  used := Function.update (fun _ => false) 0 true
  rands := rands

/-- At the start no number is in use but the first byte, which belongs to none. -/
theorem init_freemap_used {a1 a2 : Nat} {rands : List Nat} {i : Nat} (hi : i ≠ 0) :
    (init_freemap a1 a2 rands).used i = false := by
  show Function.update (fun _ => false) 0 true i = false
  rw [Function.update_of_ne hi]

/-- Both loops over `rand`; the numbers from `n` have their bytes from `base` on. -/
def FreeMap.get (v12 : FreeMap) (base n : Nat) : Option (Nat × FreeMap) :=
  (Draws.draw base n v12.used v12.rands).map fun (v2, rands) =>
    (v2, { v12 with used := Function.update v12.used (base + v2) true, rands })

/-- `get_inode_block`. -/
def get_inode_block (a1 : FreeMap) : Option (Nat × FreeMap) := a1.get 1 a1.numInodes
/-- `get_data_block`. -/
def get_data_block (a1 : FreeMap) : Option (Nat × FreeMap) :=
  a1.get (a1.numInodes + 1) a1.numDatablocks

/-- The loop that gives every file an inode. -/
def assignInodes : List InodeData → (Nat → BitVec 8) → FreeMap →
    Option (List InodeData × (Nat → BitVec 8) × FreeMap)
  | [], bblock, v12 => some ([], bblock, v12)
  | buf :: bufs, bblock, v12 => do
    let (inode, v12) ← get_inode_block v12
    let bblock := setDword bblock (buf.dentry + 36) (BitVec.ofNat 32 inode)
    let (bufs, bblock, v12) ← assignInodes bufs bblock v12
    return ({ buf with inode } :: bufs, bblock, v12)

/-- The loop over the blocks of one file. -/
def getBlocks : Nat → FreeMap → Option (List Nat × FreeMap)
  | 0, v12 => some ([], v12)
  | n + 1, v12 => do
    let (id, v12) ← get_data_block v12
    let (ids, v12) ← getBlocks n v12
    return (id :: ids, v12)

/-- The loop that gives every file its blocks. -/
def assignBlocks : List InodeData → FreeMap → Option (List InodeData × FreeMap)
  | [], v12 => some ([], v12)
  | buf :: bufs, v12 => do
    let (datablocks, v12) ← getBlocks buf.numDataBlocks v12
    let (bufs, v12) ← assignBlocks bufs v12
    return ({ buf with datablocks } :: bufs, v12)

/-- What `main` writes, in this order, and the blocks of the output it seeks to. -/
def writes (bblock : Nat → BitVec 8) (bufs : List InodeData) (numInodes : Nat) :
    List (Nat × (Nat → BitVec 8)) :=
  (0, bblock) :: (bufs.map fun buf => (buf.inode + 1, buf.block)) ++
    bufs.flatMap fun buf => (buf.datablocks.map (· + numInodes + 1)).zip buf.blocks

/-- `main`, with a new output file: what the file holds in the end. -/
def main (dir : List DirEntry) (malloc : Nat → Nat → Nat → BitVec 8) (rands : List Nat) :
    Option (BlockFile.File (BitVec 8)) := do
  let s := scan malloc dir Scan.start
  let v12 := init_freemap (getDword s.bblock 4).toNat (getDword s.bblock 8).toNat rands
  let bblock := setDword s.bblock 4 (BitVec.ofNat 32 v12.numInodes)
  let bblock := setDword bblock 8 (BitVec.ofNat 32 v12.numDatablocks)
  let (bufs, bblock, v12) ← assignInodes s.inode_list bblock v12
  let (bufs, v12) ← assignBlocks bufs v12
  return BlockFile.writeAll 4096 ⟨0, fun _ => 0⟩ (writes bblock bufs v12.numInodes)

/-! ## What a stretch of memory holds

  Everything about the bytes of the boot block is put as `bytesFrom mem off n = bytes`.  A store
  inside a stretch changes the bytes it covers, and one outside changes none; stretches that
  touch are one stretch. -/

variable {mem : Nat → BitVec 8} {bytes : List (BitVec 8)} {off i m n : Nat} {w : BitVec 32}

/-- Bytes are there if each of them is. -/
theorem bytesFrom_eq_iff : bytesFrom mem i bytes.length = bytes ↔
    ∀ (j : Nat) (hj : j < bytes.length), mem (i + j) = bytes[j] := by
  constructor
  · intro h j hj
    have hget := List.getElem_map (l := List.range bytes.length) (fun j => mem (i + j))
      (h := by rwa [List.length_map, List.length_range])
    rw [List.getElem_range] at hget
    rw [← hget]
    exact List.getElem_of_eq h _
  · intro h
    refine List.ext_getElem (length_bytesFrom mem i _) fun j hj hj' => ?_
    rw [← h j hj']
    simp [bytesFrom]

/-- A stretch is its two parts. -/
theorem bytesFrom_add : bytesFrom mem i (m + n) = bytesFrom mem i m ++ bytesFrom mem (i + m) n := by
  rw [bytesFrom, List.range_add, List.map_append, List.map_map]
  apply congrArg (_ ++ ·)
  apply List.map_congr_left
  intro j _
  exact congrArg mem (Nat.add_assoc i m j).symm

/-- A copy is there. -/
theorem bytesFrom_memcpy : bytesFrom (contents mem (memcpy off bytes)) off bytes.length = bytes :=
  bytesFrom_eq_iff.mpr fun _ hj => contents_memcpy mem bytes (List.getElem?_eq_getElem hj)

/-- What lies apart from a copy stays. -/
theorem bytesFrom_apart (h : i + n ≤ off ∨ off + bytes.length ≤ i) :
    bytesFrom (contents mem (memcpy off bytes)) i n = bytesFrom mem i n := by
  apply List.map_congr_left
  intro j hj
  have hj' := List.mem_range.mp hj
  rcases h with h | h
  · exact contents_of_lt mem bytes (by omega)
  · exact contents_beyond mem bytes (by omega)

/-- A word is there if its four bytes are. -/
theorem getDword_eq_iff : getDword mem i = w ↔ bytesFrom mem i 4 = wordBytes w := by
  rw [getDword, eq_comm (a := bytesFrom mem i 4)]
  exact wordBytes_eq.symm

/-- A word that is stored is there, -/
theorem getDword_setDword : getDword (setDword mem off w) off = w :=
  getDword_eq_iff.mpr bytesFrom_memcpy

/-- and one apart from it stays. -/
theorem getDword_setDword_apart (h : i + 4 ≤ off ∨ off + 4 ≤ i) :
    getDword (setDword mem off w) i = getDword mem i := by
  rw [getDword_eq_iff, setDword, bytesFrom_apart h]
  exact getDword_eq_iff.mp rfl

/-- A word in a stretch that two memories have in common. -/
theorem getDword_congr {mem' : Nat → BitVec 8} (h : bytesFrom mem i n = bytesFrom mem' i n)
    (hi : i ≤ off) (hn : off + 4 ≤ i + n) : getDword mem off = getDword mem' off := by
  have hbyte : ∀ b, i ≤ b → b < i + n → mem b = mem' b := by
    intro b hb hb'
    have hj := List.map_inj_left.mp h (b - i) (List.mem_range.mpr (by omega))
    rwa [Nat.add_sub_of_le hb] at hj
  rw [getDword, getDword, hbyte off (by omega) (by omega), hbyte (off + 1) (by omega) (by omega),
    hbyte (off + 2) (by omega) (by omega), hbyte (off + 3) (by omega) (by omega)]

/-- The lowest byte of a word. -/
theorem lowByte : (mem i).toNat = (getDword mem i).toNat % 256 := by
  have h : (getDword mem i).extractLsb' 0 8 = mem i := BitVec.extractLsb'_append_eq_right
  rw [← h, BitVec.extractLsb'_toNat, Nat.shiftRight_zero]

/-! ## The entries of the boot block

  An entry is 64 bytes: a name of 32, the type, the inode number and zeros.  An entry is written
  at its own place, so it leaves the entries before and after it alone. -/

/-- The 64 bytes of an entry. -/
def slotBytes (name : Nat → BitVec 8) (filetype inode : BitVec 32) : List (BitVec 8) :=
  strncpy name 31 ++ [0] ++ wordBytes filetype ++ wordBytes inode ++ List.replicate 24 0

/-- The name, the terminator, the kind, the inode and what is reserved. -/
theorem slot_split : bytesFrom mem i 64 = bytesFrom mem i 31 ++ bytesFrom mem (i + 31) 1 ++
    bytesFrom mem (i + 32) 4 ++ bytesFrom mem (i + 36) 4 ++ bytesFrom mem (i + 40) 24 := by
  rw [← bytesFrom_add, ← bytesFrom_add, ← bytesFrom_add, ← bytesFrom_add]

/-- A slot is its parts. -/
theorem slot_iff {name : Nat → BitVec 8} {filetype inode : BitVec 32} :
    bytesFrom mem i 64 = slotBytes name filetype inode ↔ bytesFrom mem i 31 = strncpy name 31 ∧
      bytesFrom mem (i + 31) 1 = [0] ∧ bytesFrom mem (i + 32) 4 = wordBytes filetype ∧
      bytesFrom mem (i + 36) 4 = wordBytes inode ∧
      bytesFrom mem (i + 40) 24 = List.replicate 24 0 := by
  rw [slot_split, slotBytes]
  constructor
  · intro h
    obtain ⟨h, hpad⟩ := List.append_inj' h (by rw [length_bytesFrom, List.length_replicate])
    obtain ⟨h, hinode⟩ := List.append_inj' h (length_bytesFrom mem _ 4)
    obtain ⟨h, htype⟩ := List.append_inj' h (length_bytesFrom mem _ 4)
    obtain ⟨hname, hnul⟩ := List.append_inj' h (length_bytesFrom mem _ 1)
    exact ⟨hname, hnul, htype, hinode, hpad⟩
  · rintro ⟨hname, hnul, htype, hinode, hpad⟩
    rw [hname, hnul, htype, hinode, hpad]

/-- `filetype` of an entry, for the modes that have one. -/
def FileMode.filetype : FileMode → BitVec 32
  | .regular => BitVec.ofNat 32 NORMAL_FILE
  | .charDevice => BitVec.ofNat 32 SPECIAL_DEVICE
  | .other => 0

/-- **A new entry** is there, byte for byte. -/
theorem create_dentry_slot (src : Nat → BitVec 8) {st_mode : FileMode} (hmode : st_mode ≠ .other)
    (dest : Nat) (bblock : Nat → BitVec 8) : (create_dentry src st_mode dest bblock).1 = 0 ∧
      bytesFrom (create_dentry src st_mode dest bblock).2 dest 64 =
        slotBytes src st_mode.filetype (-1) := by
  have hname : (strncpy src 31).length = 31 := length_strncpy src 31
  have hzeros : (List.replicate 64 (0 : BitVec 8)).length = 64 := List.length_replicate
  -- the stores of both modes
  have hslot : ∀ filetype, bytesFrom (setDword (contents (contents (setDword
      (contents bblock (memset dest 0 0x40)) (dest + 32) filetype) (memcpy dest (strncpy src 0x1F)))
      (memcpy (dest + 31) [0])) (dest + 36) (-1)) dest 64 = slotBytes src filetype (-1) := by
    intro filetype
    rw [slot_iff]
    refine ⟨?_, ?_, ?_, bytesFrom_memcpy, ?_⟩
    · rw [setDword, bytesFrom_apart (by omega), bytesFrom_apart (by omega)]
      have hcopy :=
        @bytesFrom_memcpy (setDword (contents bblock (memset dest 0 0x40)) (dest + 32) filetype)
          (strncpy src 31) dest
      rwa [hname] at hcopy
    · rw [setDword, bytesFrom_apart (by omega)]
      exact bytesFrom_memcpy
    · rw [setDword, bytesFrom_apart (by omega), bytesFrom_apart (by show _ ∨ _ + 1 ≤ _; omega),
        bytesFrom_apart (by omega)]
      exact bytesFrom_memcpy
    · rw [setDword, bytesFrom_apart (by show _ ∨ _ + 4 ≤ _; omega),
        bytesFrom_apart (by show _ ∨ _ + 1 ≤ _; omega), bytesFrom_apart (by omega), setDword,
        bytesFrom_apart (by show _ ∨ _ + 4 ≤ _; omega), memset]
      have hclear := @bytesFrom_memcpy bblock (List.replicate 64 0) dest
      rw [hzeros, show (64 : Nat) = 40 + 24 from rfl, bytesFrom_add, List.replicate_add] at hclear
      exact (List.append_inj' hclear (by rw [length_bytesFrom, List.length_replicate])).2
  cases st_mode with
  | regular => exact ⟨rfl, hslot 2⟩
  | charDevice => exact ⟨rfl, hslot 0⟩
  | other => exact absurd rfl hmode

/-- The rest of the boot block stays, whatever the mode. -/
theorem create_dentry_apart (src : Nat → BitVec 8) (st_mode : FileMode) {dest : Nat}
    (bblock : Nat → BitVec 8) (h : i + n ≤ dest ∨ dest + 64 ≤ i) :
    bytesFrom (create_dentry src st_mode dest bblock).2 i n = bytesFrom bblock i n := by
  have hname : (strncpy src 31).length = 31 := length_strncpy src 31
  have hclear : bytesFrom (contents bblock (memset dest 0 0x40)) i n = bytesFrom bblock i n :=
    bytesFrom_apart (by rw [List.length_replicate]; omega)
  have hfinish : ∀ filetype, bytesFrom (setDword (contents (contents (setDword
      (contents bblock (memset dest 0 0x40)) (dest + 32) filetype) (memcpy dest (strncpy src 0x1F)))
      (memcpy (dest + 31) [0])) (dest + 36) (-1)) i n = bytesFrom bblock i n := by
    intro filetype
    rw [setDword, bytesFrom_apart (by show _ ∨ _ + 4 ≤ _; omega),
      bytesFrom_apart (by show _ ∨ _ + 1 ≤ _; omega), bytesFrom_apart (by omega), setDword,
      bytesFrom_apart (by show _ ∨ _ + 4 ≤ _; omega), hclear]
  cases st_mode with
  | regular => exact hfinish 2
  | charDevice => exact hfinish 0
  | other => exact hclear

/-- An entry gets its inode number. -/
theorem slot_setInode {name : Nat → BitVec 8} {filetype inode : BitVec 32}
    (h : bytesFrom mem i 64 = slotBytes name filetype inode) (w : BitVec 32) :
    bytesFrom (setDword mem (i + 36) w) i 64 = slotBytes name filetype w := by
  obtain ⟨hname, hnul, htype, -, hpad⟩ := slot_iff.mp h
  rw [slot_iff]
  refine ⟨?_, ?_, ?_, bytesFrom_memcpy, ?_⟩
  · rw [setDword, bytesFrom_apart (by omega), hname]
  · rw [setDword, bytesFrom_apart (by omega), hnul]
  · rw [setDword, bytesFrom_apart (by omega), htype]
  · rw [setDword, bytesFrom_apart (by show _ ∨ _ + 4 ≤ _; omega), hpad]

/-! ## The loop over the directory

  By induction on the entries of the directory that are left, with `Scanned` for those that were
  read.  What is no file, is too large, or cannot be read is passed over.  By then its name may
  be in the boot block already, but in the place of the next file kept, which clears it first. -/

/-- The blocks a size takes. -/
def blocksFor (size : Nat) : Nat := (size + 4095) / 4096

/-- The files the program keeps. -/
def DirEntry.keeps (e : DirEntry) : Bool :=
  e.st_mode != .other && decide (e.st_size ≤ 0x3FF000) &&
    (List.range (blocksFor e.st_size)).all fun i => (e.read i).isSome

/-- The inode of the `k`-th file, before it has numbers. -/
def fileOf (malloc : Nat → Nat → Nat → BitVec 8) (k : Nat) (e : DirEntry) : InodeData where
  size := BitVec.ofNat 32 e.st_size
  datablocks := []
  blocks := (List.range (blocksFor e.st_size)).map fun i j =>
    ((e.read i).getD []).getD j (malloc k i j)
  dentry := 64 * (k + 2)
  numDataBlocks := blocksFor e.st_size
  inode := 0

/-- The loop gets through if all reads do, and then it has a block for each. -/
theorem readBlocks_eq (file : DirEntry) (malloc : Nat → Nat → BitVec 8) (rounds i : Nat) :
    readBlocks file malloc rounds i =
      if (List.range' i rounds).all fun i => (file.read i).isSome then
        some ((List.range' i rounds).map fun i j => ((file.read i).getD []).getD j (malloc i j))
      else none := by
  induction rounds generalizing i with
  | zero => rfl
  | succ rounds ih =>
    rw [readBlocks, List.range'_succ, List.all_cons, List.map_cons, ih]
    cases file.read i with
    | none => rfl
    | some bytes =>
      simp only [Option.isSome_some, Option.getD_some, Bool.true_and]
      split <;> rfl

/-- A file is kept if it is small enough and can be read. -/
theorem create_file_eq (file : DirEntry) (malloc : Nat → Nat → Nat → BitVec 8) (k dentry : Nat)
    (hmode : file.st_mode ≠ .other) (hdentry : dentry = 64 * (k + 2)) :
    (create_file file (malloc k)).map (fun data => { data with dentry }) =
      if file.keeps then some (fileOf malloc k file) else none := by
  have hblocks :
      (if file.st_size % 4096 ≠ 0 then file.st_size / 4096 + 1 else file.st_size / 4096) =
      blocksFor file.st_size := by
    unfold blocksFor
    split <;> omega
  have hmode' : (file.st_mode != .other) = true := bne_iff_ne.mpr hmode
  subst hdentry
  rw [create_file, DirEntry.keeps, hmode', Bool.true_and]
  dsimp only
  rw [hblocks, readBlocks_eq, ← List.range_eq_range']
  by_cases hsize : file.st_size ≤ 0x3FF000
  · rw [if_pos hsize, decide_eq_true hsize, Bool.true_and]
    split <;> rfl
  · rw [if_neg hsize, decide_eq_false hsize, Bool.false_and]
    rfl

/-- The entries `main` keeps: there is room for 62. -/
def kept (dir : List DirEntry) : List DirEntry := (dir.filter DirEntry.keeps).take 62

/-- The blocks the files take together. -/
def allBlocks (es : List DirEntry) : Nat := (es.map fun e => blocksFor e.st_size).sum

/-- The boot block, without inode numbers, and the inodes for the files `es`. -/
structure Scanned (malloc : Nat → Nat → Nat → BitVec 8) (es : List DirEntry) (s : Scan) : Prop where
  /-- There is room for 62 files besides the directory. -/
  few : es.length ≤ 62
  /-- Only files to keep are among them. -/
  small : ∀ e ∈ es, e.keeps = true
  /-- The counts of the boot block: entries, -/
  count : getDword s.bblock 0 = BitVec.ofNat 32 (es.length + 1)
  /-- inodes, -/
  numInodes : getDword s.bblock 4 = BitVec.ofNat 32 es.length
  /-- and blocks. -/
  numDatablocks : getDword s.bblock 8 = BitVec.ofNat 32 (allBlocks es)
  /-- The first slot is the directory's, -/
  root : bytesFrom s.bblock 64 64 = slotBytes (cstring [0x2E]) 1 0
  /-- and then there is one for each file. -/
  slots : ∀ k e, es[k]? = some e → bytesFrom s.bblock (64 * (k + 2)) 64 =
    slotBytes e.d_name e.st_mode.filetype (-1)
  /-- And each has an inode. -/
  inodes : s.inode_list = es.mapIdx (fileOf malloc)

namespace Scanned

variable {malloc : Nat → Nat → Nat → BitVec 8} {es : List DirEntry} {s : Scan}

/-- Zeros over zeros. -/
theorem contents_zeros (off n : Nat) : contents (fun _ => 0) (memset off 0 n) = fun _ => 0 := by
  induction n generalizing off with
  | zero => rfl
  | succ n ih =>
    rw [memset, List.replicate_succ, memcpy, contents]
    simp only [ite_self]
    exact ih (off + 1)

/-- The boot block at the start, without the clearing. -/
theorem start_bblock : Scan.start.bblock =
    setDword (setDword (setDword (contents (fun _ => 0) (memcpy 64 [0x2E, 0])) 96 1) 100 0) 0
      1 := by
  rw [← contents_zeros 0 0x1000]
  rfl

/-- At the start there is only the directory. -/
theorem start : Scanned malloc [] Scan.start where
  few := Nat.zero_le _
  small _ he := absurd he List.not_mem_nil
  count := getDword_setDword
  numInodes := by
    rw [start_bblock]
    decide
  numDatablocks := by
    rw [start_bblock]
    decide
  root := by
    rw [start_bblock]
    decide
  slots k e he := absurd he (by simp)
  inodes := rfl

/-- Where the next entry goes. -/
theorem dest (h : Scanned malloc es s) : (s.bblock 0).toNat * 64 + 64 = 64 * (es.length + 2) := by
  have hfew := h.few
  rw [lowByte, h.count, BitVec.toNat_ofNat]
  omega

/-- Stores in the slot of the next entry do no harm. -/
theorem frame (h : Scanned malloc es s) {bblock : Nat → BitVec 8}
    (hsame : ∀ i n, i + n ≤ 64 * (es.length + 2) → bytesFrom bblock i n = bytesFrom s.bblock i n) :
    Scanned malloc es { s with bblock } where
  few := h.few
  small := h.small
  count := getDword_eq_iff.mpr ((hsame 0 4 (by omega)).trans (getDword_eq_iff.mp h.count))
  numInodes := getDword_eq_iff.mpr ((hsame 4 4 (by omega)).trans (getDword_eq_iff.mp h.numInodes))
  numDatablocks :=
    getDword_eq_iff.mpr ((hsame 8 4 (by omega)).trans (getDword_eq_iff.mp h.numDatablocks))
  root := (hsame 64 64 (by omega)).trans h.root
  slots k e he := by
    have hk := (List.getElem?_eq_some_iff.mp he).1
    exact (hsame _ 64 (by omega)).trans (h.slots k e he)
  inodes := h.inodes

/-- A file that is kept: the next entry is there, and the counts go up. -/
theorem add (h : Scanned malloc es s) (hroom : es.length < 62) {e : DirEntry}
    (hkeep : e.keeps = true)
    (hslot : bytesFrom s.bblock (64 * (es.length + 2)) 64 =
      slotBytes e.d_name e.st_mode.filetype (-1))
    {data : InodeData}
    (hdata : { data with dentry := 64 * (es.length + 2) } = fileOf malloc es.length e) :
    Scanned malloc (es ++ [e]) ⟨setDword (setDword (setDword s.bblock 0 (getDword s.bblock 0 + 1)) 4
        (getDword (setDword s.bblock 0 (getDword s.bblock 0 + 1)) 4 + 1)) 8
        (getDword (setDword (setDword s.bblock 0 (getDword s.bblock 0 + 1)) 4
          (getDword (setDword s.bblock 0 (getDword s.bblock 0 + 1)) 4 + 1)) 8 +
          BitVec.ofNat 32 data.numDataBlocks),
      s.inode_list ++ [{ data with dentry := 64 * (es.length + 2) }]⟩ := by
  -- the three counts are in the first 64 bytes, and the entries behind them
  have hcounts : ∀ v, 64 ≤ v →
      ∀ a b c, bytesFrom (setDword (setDword (setDword s.bblock 0 a) 4 b) 8 c) v 64 =
      bytesFrom s.bblock v 64 := by
    intro v hv a b c
    rw [setDword, bytesFrom_apart (by show _ ∨ _ + 4 ≤ _; omega), setDword,
      bytesFrom_apart (by show _ ∨ _ + 4 ≤ _; omega), setDword,
      bytesFrom_apart (by show _ ∨ _ + 4 ≤ _; omega)]
  have hblocks : data.numDataBlocks = blocksFor e.st_size := congrArg InodeData.numDataBlocks hdata
  constructor
  case few => rw [List.length_append, List.length_singleton]; exact hroom
  case small =>
    intro e' he'
    rcases List.mem_append.mp he' with he' | he'
    · exact h.small e' he'
    · rw [List.mem_singleton.mp he']
      exact hkeep
  case count =>
    show getDword (setDword _ _ _) 0 = _
    rw [getDword_setDword_apart (by omega), getDword_setDword_apart (by omega),
      getDword_setDword, h.count, List.length_append, List.length_singleton,
      BitVec.ofNat_add (es.length + 1)]
    rfl
  case numInodes =>
    show getDword (setDword _ _ _) 4 = _
    rw [getDword_setDword_apart (by omega), getDword_setDword, getDword_setDword_apart (by omega),
      h.numInodes, List.length_append, BitVec.ofNat_add]
    rfl
  case numDatablocks =>
    show getDword (setDword _ _ _) 8 = _
    rw [getDword_setDword, getDword_setDword_apart (by omega), getDword_setDword_apart (by omega),
      h.numDatablocks, hblocks, allBlocks, allBlocks, List.map_append, List.sum_append,
      List.map_singleton, List.sum_singleton, BitVec.ofNat_add]
  case root => exact (hcounts 64 (by omega) _ _ _).trans h.root
  case slots =>
    intro k e' he'
    rw [hcounts _ (by omega)]
    -- an entry from before, or the one that is added
    rcases Nat.lt_or_ge k es.length with hk | hk
    · rw [List.getElem?_append_left hk] at he'
      exact h.slots k e' he'
    · obtain ⟨hlt, -⟩ := List.getElem?_eq_some_iff.mp he'
      rw [List.length_append, List.length_singleton] at hlt
      obtain rfl : k = es.length := by omega
      rw [List.getElem?_concat_length] at he'
      rw [← Option.some.inj he']
      exact hslot
  case inodes => rw [List.mapIdx_concat, ← h.inodes, ← hdata]

/-- **One entry of the directory.** -/
theorem entry (h : Scanned malloc es s) (hroom : es.length < 62) (e : DirEntry) :
    Scanned malloc (if e.keeps then es ++ [e] else es) (scanEntry malloc s e) := by
  have hlen : s.inode_list.length = es.length := by rw [h.inodes, List.length_mapIdx]
  have hapart := fun i n (hi : i + n ≤ 64 * (es.length + 2)) =>
    create_dentry_apart e.d_name e.st_mode s.bblock (.inl hi)
  rw [scanEntry]
  dsimp only
  rw [h.dest, hlen]
  by_cases hmode : e.st_mode = .other
  · -- not a type that is kept: no more than the slot has changed
    have hskip : e.keeps = false := by rw [DirEntry.keeps, hmode]; rfl
    have hret : (create_dentry e.d_name e.st_mode (64 * (es.length + 2)) s.bblock).1 = -1 := by
      rw [hmode]
      rfl
    generalize create_dentry e.d_name e.st_mode (64 * (es.length + 2)) s.bblock = r at *
    obtain ⟨v11, bblock⟩ := r
    dsimp only at hret hapart ⊢
    rw [if_neg (show ¬ e.keeps = true by rw [hskip]; decide),
      if_pos (show v11 ≠ 0 by rw [hret]; decide)]
    exact h.frame hapart
  · obtain ⟨hret, hslot⟩ := create_dentry_slot e.d_name hmode (64 * (es.length + 2)) s.bblock
    generalize create_dentry e.d_name e.st_mode (64 * (es.length + 2)) s.bblock = r at *
    obtain ⟨v11, bblock⟩ := r
    dsimp only at hret hslot hapart ⊢
    rw [if_neg (show ¬ v11 ≠ 0 by rw [hret]; decide)]
    have hfile := create_file_eq e malloc es.length _ hmode rfl
    cases hc : create_file e (malloc es.length) with
    | none =>
      -- the file is too large or cannot be read: the slot is written, and not counted
      rw [hc] at hfile
      have hskip : ¬ e.keeps = true := fun hkeep => by
        rw [if_pos hkeep] at hfile
        exact absurd hfile (by simp)
      rw [if_neg hskip]
      exact h.frame hapart
    | some data =>
      rw [hc] at hfile
      by_cases hkeep : e.keeps = true
      · rw [if_pos hkeep] at hfile ⊢
        exact (h.frame hapart).add hroom hkeep hslot (Option.some.inj hfile)
      · rw [if_neg hkeep] at hfile
        exact absurd hfile (by simp)

/-- The loop: every file to keep gets a slot, until there are 62. -/
theorem scan (h : Scanned malloc es s) (dir : List DirEntry) :
    Scanned malloc (es ++ (dir.filter DirEntry.keeps).take (62 - es.length))
      (scan malloc dir s) := by
  induction dir generalizing es s with
  | nil =>
    rw [List.filter_nil, List.take_nil, List.append_nil]
    exact h
  | cons e dir ih =>
    have hfew := h.few
    have hcount : getDword s.bblock 0 ≤ 0x3E ↔ es.length < 62 := by
      rw [h.count, BitVec.le_def, BitVec.toNat_ofNat]
      show _ ≤ 62 ↔ _
      omega
    rw [CreateFs.scan]
    by_cases hroom : es.length < 62
    · rw [if_pos (hcount.mpr hroom)]
      have hrest := ih (h.entry hroom e)
      by_cases hkeep : e.keeps = true
      · rw [if_pos hkeep, List.length_append, List.length_singleton] at hrest
        rw [List.filter_cons_of_pos hkeep, show 62 - es.length = 62 - (es.length + 1) + 1 by omega,
          List.take_succ_cons, List.append_cons]
        exact hrest
      · rw [if_neg hkeep] at hrest
        rw [List.filter_cons_of_neg hkeep]
        exact hrest
    · rw [if_neg (mt hcount.mp hroom),
        show 62 - es.length = 0 by omega, List.take_zero, List.append_nil]
      exact h

end Scanned

/-- **After the loop over the directory** the boot block lists the files kept. -/
theorem scan_scanned (malloc : Nat → Nat → Nat → BitVec 8) (dir : List DirEntry) :
    Scanned malloc (kept dir) (scan malloc dir Scan.start) :=
  Scanned.start.scan dir

end TedkOS.Fs.CreateFs
