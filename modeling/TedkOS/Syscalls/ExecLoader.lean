/-
  Loading a program (syscalls/exec_loader.cpp): does the image stay in its page?

  `do_exec` maps one page of 4 MB at 0x08000000, and the loader reads up to 4 MB of the file to
  `program_image_addr`, which lies 0x48000 bytes into the page.  So a file between 0x3b8000 bytes
  and 4 MB is written over the end of the page and not refused.

  1. **Program** — `kiss_loader`, on what `theDispatcher` opens and reads.

  2. **What is read** — the reader's result tells a file that ends from a block that cannot be read
     (`readDataLoop_short`).

  3. **The condition** — `loadsRight_iff`: the file has no more bytes than the page has room for.
-/
import TedkOS.Syscalls.ExecuteFailure
import TedkOS.Syscalls.Fops

namespace TedkOS.Syscalls

open Fs Klibs Proc

/-! ## The program -/

/-- Where in its page the image begins, -/
def program_image_offset : BitVec 32 := 0x00048000
/-- and where in memory. -/
def program_image_addr : BitVec 32 := code_page_vaddr_base.addr + program_image_offset
/-- What the loader asks for. -/
def four_mb : BitVec 32 := 0x400000

/-- The end of a load: whether it failed, the entry point it returns, and its stores. -/
structure Load where
  fail : Bool
  ret : Ret
  stores : List (BitVec 32 × BitVec 8)

/-- `kiss_loader(filename)` in the process `pid` at `currTerm`; `test_over_flow` is the address of
    the local the probe reads into. -/
def kiss_loader (fs : FileSystem) (env : Env) (currTerm : Option Term)
    (pid test_over_flow : BitVec 32) (filename : List (BitVec 8)) : Load :=
  match fs.openPath filename with
  | none => ⟨true, .value 0, []⟩
  | some fsSpecificData =>
    let r := File.read fs.kissFS env currTerm pid program_image_addr four_mb ⟨0, fsSpecificData⟩
    let stores := through program_image_addr r.stores
    match returned r.ret with
    | none => ⟨false, .exception, stores⟩
    | some first_len =>
      let probe := File.read fs.kissFS env r.next.2 pid test_over_flow 1 r.next.1
      let fail := decide (first_len < 0) || decide (four_mb < first_len) ||
        (decide (first_len = four_mb) && (returned probe.ret).any fun len => (0#32).slt len)
      if fail then ⟨true, .value 0, stores⟩
      else
        let image := contents (fun i => env.mem (program_image_addr + BitVec.ofNat 32 i)) r.stores
        ⟨false, .value (wordAt image 24), stores⟩

/-! ## The purpose -/

/-- What the page has room for behind the image offset. -/
def imageRoom : Nat := 0x400000 - program_image_offset.toNat

/-- The address is in the page `do_exec` maps for the child. -/
def InProgramPage (addr : BitVec 32) : Prop :=
  code_page_vaddr_base.addr.toNat ≤ addr.toNat ∧
    addr.toNat < code_page_vaddr_base.addr.toNat + 0x400000

/-- Loading stays in the page, and fails for a file that has no room there. -/
structure LoadsRight (fs : FileSystem) (env : Env) (currTerm : Option Term)
    (pid test_over_flow : BitVec 32) (filename : List (BitVec 8)) (size : Nat) : Prop where
  /-- Every store is in the page, -/
  inside : ∀ store ∈ (kiss_loader fs env currTerm pid test_over_flow filename).stores,
    InProgramPage store.1
  /-- and a file without room there is refused. -/
  fails : imageRoom < size → (kiss_loader fs env currTerm pid test_over_flow filename).fail = true ∧
    (kiss_loader fs env currTerm pid test_over_flow filename).ret = .value 0

/-- What can be read of the file has room in the page; and if it would be larger, there is a block
    that cannot be read. -/
structure FitsPage (fs : KissFS) (data : KissFileDescriptorData) : Prop where
  /-- What can be read has room; -/
  read : fs.readLength data 0 four_mb ≤ imageRoom
  /-- a size without room shows in a block that cannot be read. -/
  broken : imageRoom < (fs.inodes data.inode.toNat).size.toNat →
    ∃ i, i < (fs.inodes data.inode.toNat).numDataBlocks.toNat ∧
      fs.blockReadable (fs.inodes data.inode.toNat) i = false

/-- All blocks of the file can be read, and they are enough for its size. -/
structure IsWhole (fs : KissFS) (data : KissFileDescriptorData) : Prop where
  /-- No block is refused, -/
  blocks : ∀ i, i < (fs.inodes data.inode.toNat).numDataBlocks.toNat →
    fs.blockReadable (fs.inodes data.inode.toNat) i = true
  /-- and none is missing. -/
  size : (fs.inodes data.inode.toNat).size.toNat ≤
    BlockSize * (fs.inodes data.inode.toNat).numDataBlocks.toNat

/-! ## What is read

  The reader stops at the first block that cannot be read, and its result is then shorter than
  the file.  So a result of the file's size says that every block was read. -/

section Reading

variable (fs : KissFS) (node : Inode)

/-- There are no more than one a round. -/
theorem readableBlocks_le (rounds : Nat) : ∀ i, fs.readableBlocks node rounds i ≤ rounds := by
  induction rounds with
  | zero => exact fun _ => Nat.le_refl _
  | succ rounds ih =>
    intro i
    have h := ih (i + 1)
    unfold KissFS.readableBlocks
    split <;> omega

/-- All blocks are counted exactly if each can be read. -/
theorem readableBlocks_eq_iff (rounds : Nat) : ∀ i, fs.readableBlocks node rounds i = rounds ↔
    ∀ j, i ≤ j → j < i + rounds → fs.blockReadable node j = true := by
  induction rounds with
  | zero =>
    intro i
    exact ⟨fun _ j h1 h2 => by omega, fun _ => rfl⟩
  | succ rounds ih =>
    intro i
    have hle : fs.readableBlocks node rounds (i + 1) ≤ rounds :=
      readableBlocks_le fs node rounds (i + 1)
    unfold KissFS.readableBlocks
    cases hi : fs.blockReadable node i with
    | false =>
      rw [if_neg (by decide)]
      constructor
      · intro h
        omega
      · intro h
        have hread := h i (Nat.le_refl i) (by omega)
        rw [hi] at hread
        cases hread
    | true =>
      rw [if_pos rfl, Nat.add_comm 1, Nat.succ_inj, ih]
      constructor
      · intro h j h1 h2
        rcases Nat.eq_or_lt_of_le h1 with rfl | hlt
        · exact hi
        · exact h j hlt (by omega)
      · exact fun h j h1 h2 => h j (by omega) (by omega)

/-- **A read that ends early**, before the buffer is full or the file is at its end: a block could
    not be read, or there was none left. -/
theorem readDataLoop_short (rounds : Nat) :
    ∀ (i : Nat) (length bytesRemaining realOffset read : BitVec 32)
    (out : List (Nat × BitVec 8)), read.toNat + length.toNat < 0x100000000 →
    BlockSize * fs.readableBlocks node rounds i < min length.toNat bytesRemaining.toNat →
    (fs.readDataLoop node rounds i length bytesRemaining realOffset read out).1 =
      if fs.readableBlocks node rounds i < rounds then -1
      else read + BitVec.ofNat 32 (BlockSize * fs.readableBlocks node rounds i) := by
  induction rounds with
  | zero =>
    intro i length bytesRemaining realOffset read out _ _
    exact (BitVec.add_zero read).symm
  | succ rounds ih =>
    intro i length bytesRemaining realOffset read out hfit hshort
    rw [KissFS.readDataLoop]
    dsimp only
    cases hblock : fs.blockReadable node i with
    | false =>
      have hnone : fs.readableBlocks node (rounds + 1) i = 0 := by
        rw [KissFS.readableBlocks, hblock, if_neg (by decide)]
      rw [hnone, if_pos (Nat.succ_pos rounds)]
      split
      · next hid =>
        unfold KissFS.blockReadable at hblock
        rw [decide_eq_true hid, Bool.true_and, decide_eq_false_iff_not, BitVec.not_lt] at hblock
        rw [KissFS.readBlock, if_pos hblock]
      · rfl
    | true =>
      have hsucc :
          fs.readableBlocks node (rounds + 1) i = 1 + fs.readableBlocks node rounds (i + 1) := by
        rw [KissFS.readableBlocks, hblock, if_pos rfl]
      rw [hsucc, Nat.mul_add] at hshort
      rw [hsucc]
      have hlen := KissFS.toNat_roundLen length bytesRemaining
      obtain ⟨hleft, hrem, hread⟩ := KissFS.toNat_round bytesRemaining hfit
      -- the round takes a whole block, and more is asked for
      have hwhole : (KissFS.roundLen length bytesRemaining).toNat = BlockSize := by omega
      have hmore : ¬ length - KissFS.roundLen length bytesRemaining = 0 := by
        rw [KissFS.sub_roundLen_eq_zero_iff]
        omega
      unfold KissFS.blockReadable at hblock
      rw [Bool.and_eq_true, decide_eq_true_eq, decide_eq_true_eq] at hblock
      rw [if_pos hblock.1, KissFS.readBlock, if_neg (BitVec.not_le.mpr hblock.2)]
      dsimp only
      rw [if_neg hmore,
        ih (i + 1) _ _ _ _ _ (by rw [hread, hleft]; omega) (by rw [hleft, hrem]; omega)]
      have hlt : (1 + fs.readableBlocks node rounds (i + 1) < rounds + 1) ↔
          fs.readableBlocks node rounds (i + 1) < rounds := by omega
      refine if_congr hlt.symm rfl ?_
      have hround : KissFS.roundLen length bytesRemaining = BitVec.ofNat 32 BlockSize :=
        BitVec.eq_of_toNat_eq hwhole
      rw [hround, Nat.mul_add, Nat.mul_one, BitVec.ofNat_add, BitVec.add_assoc]

end Reading

/-! ## The loader

  The file is read to its place in the page, and then a byte more is asked for, to see whether it
  ends there.  Everything is stored from the address of the image on, so it stays inside the page
  exactly if the last byte does. -/

section Loading

variable {fs : FileSystem} {env : Env} {currTerm : Option Term} {pid test_over_flow : BitVec 32}
  {filename : List (BitVec 8)} {data : KissFileDescriptorData}

/-- An executable is no directory, and its inode number is not refused. -/
theorem regular_of_executable (hexe : is_kiss_executable fs filename = true)
    (hopen : fs.openPath filename = some (.kissFS data)) :
    data.filetype.toNat ≠ DIRECTORY ∧ data.inode ≤ fs.kissFS.numInodes := by
  unfold is_kiss_executable at hexe
  rw [hopen] at hexe
  dsimp only at hexe
  have hdir : data.filetype.toNat ≠ DIRECTORY := by
    intro hdir
    have hmode :
        S_ISREG (wordAt (contents (fun _ => 0) (fs.kissFS.fstat data)) st_mode) = false := by
      unfold KissFS.fstat
      rw [if_pos hdir]
      decide
    rw [hmode, if_pos (by decide)] at hexe
    cases hexe
  refine ⟨hdir, ?_⟩
  by_contra hinode
  have hread : fs.kissFS.read data (fun _ => 0) 0 4 = ⟨.value (-1), [], data⟩ := by
    unfold KissFS.read KissFS.readData
    rw [if_neg hdir, if_neg hinode]
  rw [hread] at hexe
  split at hexe
  · cases hexe
  · cases hexe

/-- The stores of the loader are those of its first read. -/
theorem kiss_loader_stores (hopen : fs.openPath filename = some (.kissFS data))
    (hdir : data.filetype.toNat ≠ DIRECTORY) :
    (kiss_loader fs env currTerm pid test_over_flow filename).stores =
      through program_image_addr (fs.kissFS.readData data.inode 0 four_mb).2 := by
  unfold kiss_loader File.read KissFS.read
  rw [hopen]
  simp only [if_neg hdir, returned]
  split <;> rfl

/-- A read that fails makes the load fail. -/
theorem kiss_loader_fails (hopen : fs.openPath filename = some (.kissFS data))
    (hdir : data.filetype.toNat ≠ DIRECTORY)
    (hread : (fs.kissFS.readData data.inode 0 four_mb).1 = -1) :
    (kiss_loader fs env currTerm pid test_over_flow filename).fail = true ∧
      (kiss_loader fs env currTerm pid test_over_flow filename).ret = .value 0 := by
  have hlarge : decide (four_mb < (-1 : BitVec 32)) = true := by decide
  unfold kiss_loader File.read KissFS.read
  rw [hopen]
  simp only [if_neg hdir, returned, hread, hlarge, Bool.or_true, Bool.true_or, if_true]
  exact ⟨trivial, trivial⟩

/-- A read of less than 4 MB does not. -/
theorem kiss_loader_goes_on (hopen : fs.openPath filename = some (.kissFS data))
    (hdir : data.filetype.toNat ≠ DIRECTORY)
    (hread : (fs.kissFS.readData data.inode 0 four_mb).1.toNat < 0x400000) :
    (kiss_loader fs env currTerm pid test_over_flow filename).fail = false := by
  generalize hlen : (fs.kissFS.readData data.inode 0 four_mb).1 = first_len at hread
  have hmb : four_mb.toNat = 0x400000 := rfl
  have hnever : decide (first_len < 0) = false :=
    decide_eq_false (BitVec.not_lt.mpr (BitVec.le_def.mpr (Nat.zero_le _)))
  have hle : decide (four_mb < first_len) = false :=
    decide_eq_false (BitVec.not_lt.mpr (BitVec.le_def.mpr (by omega)))
  have hne : decide (first_len = four_mb) = false := decide_eq_false fun e => by
    rw [e, hmb] at hread
    omega
  unfold kiss_loader File.read KissFS.read
  rw [hopen]
  simp only [if_neg hdir, returned, hlen, hnever, hle, hne, Bool.false_and, Bool.or_false,
    Bool.false_eq_true, if_false]

/-- Which part of the buffer lies in the page. -/
theorem inProgramPage_iff {i : Nat} (hi : i < 0x400000) :
    InProgramPage (program_image_addr + BitVec.ofNat 32 i) ↔ i < imageRoom := by
  have haddr : (program_image_addr + BitVec.ofNat 32 i).toNat = 0x08048000 + i := by
    rw [BitVec.toNat_add, BitVec.toNat_ofNat]
    show (0x08048000 + i % 0x100000000) % 0x100000000 = _
    omega
  unfold InProgramPage
  rw [haddr]
  show 0x08000000 ≤ 0x08048000 + i ∧ 0x08048000 + i < 0x08000000 + 0x400000 ↔ i < 0x3b8000
  omega

/-- **Where the loader writes**: in the page, if no more is read than there is room for. -/
theorem inside_iff (hopen : fs.openPath filename = some (.kissFS data))
    (hdir : data.filetype.toNat ≠ DIRECTORY) :
    (∀ store ∈ (kiss_loader fs env currTerm pid test_over_flow filename).stores,
      InProgramPage store.1) ↔ fs.kissFS.readLength data 0 four_mb ≤ imageRoom := by
  have hcovers := fs.kissFS.read_covers data (fun _ => 0) 0 four_mb
  have hstores : (fs.kissFS.read data (fun _ => 0) 0 four_mb).stores =
      (fs.kissFS.readData data.inode 0 four_mb).2 := by
    unfold KissFS.read
    rw [if_neg hdir]
  have hmost : fs.kissFS.readLength data 0 four_mb ≤ 0x400000 := by
    unfold KissFS.readLength
    rw [if_neg hdir]
    split
    · have hmb : four_mb.toNat = 0x400000 := rfl
      dsimp only
      omega
    · exact Nat.zero_le _
  have hall := hcovers.forall_iff fun i => InProgramPage (program_image_addr + BitVec.ofNat 32 i)
  rw [hstores] at hall
  rw [kiss_loader_stores hopen hdir]
  unfold through
  rw [List.forall_mem_map, hall]
  constructor
  · intro h
    by_contra hlarge
    have hin := (inProgramPage_iff (by omega)).mp (h imageRoom (by omega))
    exact absurd hin (Nat.lt_irrefl _)
  · intro hle i hi
    exact (inProgramPage_iff (by omega)).mpr (by omega)

/-- What the loader reads at most. -/
theorem readLength_four_mb (hdir : data.filetype.toNat ≠ DIRECTORY)
    (hinode : data.inode ≤ fs.kissFS.numInodes) :
    fs.kissFS.readLength data 0 four_mb =
      min (min 0x400000 (fs.kissFS.inodes data.inode.toNat).size.toNat)
        (BlockSize * fs.kissFS.readableBlocks (fs.kissFS.inodes data.inode.toNat)
          (fs.kissFS.inodes data.inode.toNat).numDataBlocks.toNat 0) := by
  have hzero : (0 : BitVec 32).toNat / BlockSize = 0 := by decide
  have hmb : four_mb.toNat = 0x400000 := rfl
  have hsub : ∀ x : BitVec 32, x - 0 = x := fun x => BitVec.sub_zero x
  unfold KissFS.readLength
  rw [if_neg hdir, if_pos hinode]
  dsimp only
  rw [hzero, hmb, Nat.sub_zero, hsub]

/-- A whole file is read up to 4 MB. -/
theorem IsWhole.readLength_eq (h : IsWhole fs.kissFS data) (hdir : data.filetype.toNat ≠ DIRECTORY)
    (hinode : data.inode ≤ fs.kissFS.numInodes) :
    fs.kissFS.readLength data 0 four_mb =
      min 0x400000 (fs.kissFS.inodes data.inode.toNat).size.toNat := by
  have hblocks := (readableBlocks_eq_iff fs.kissFS (fs.kissFS.inodes data.inode.toNat)
    (fs.kissFS.inodes data.inode.toNat).numDataBlocks.toNat 0).mpr fun i _ hi =>
      h.blocks i (by rwa [Nat.zero_add] at hi)
  rw [readLength_four_mb hdir hinode, hblocks]
  have hsize := h.size
  omega

/-- **A file that is too large, of which little can be read**: the reader's result tells why. -/
theorem readData_short (hdir : data.filetype.toNat ≠ DIRECTORY)
    (hinode : data.inode ≤ fs.kissFS.numInodes)
    (hsize : imageRoom < (fs.kissFS.inodes data.inode.toNat).size.toNat)
    (hread : fs.kissFS.readLength data 0 four_mb ≤ imageRoom) :
    (∃ i, i < (fs.kissFS.inodes data.inode.toNat).numDataBlocks.toNat ∧
        fs.kissFS.blockReadable (fs.kissFS.inodes data.inode.toNat) i = false) ∧
        (fs.kissFS.readData data.inode 0 four_mb).1 = -1 ∨
      (∀ i, i < (fs.kissFS.inodes data.inode.toNat).numDataBlocks.toNat →
        fs.kissFS.blockReadable (fs.kissFS.inodes data.inode.toNat) i = true) ∧
        (fs.kissFS.readData data.inode 0 four_mb).1.toNat < 0x400000 := by
  rw [readLength_four_mb hdir hinode] at hread
  have hroom : imageRoom = 0x3b8000 := rfl
  have hmb : four_mb.toNat = 0x400000 := rfl
  have hzero : (0 : BitVec 32).toNat / BlockSize = 0 := by decide
  have hmod : (0 : BitVec 32).toNat % BlockSize = 0 := by decide
  have hsub : ∀ x : BitVec 32, x - 0 = x := fun x => BitVec.sub_zero x
  unfold KissFS.readData
  rw [if_pos hinode]
  dsimp only
  rw [hzero, hmod, Nat.sub_zero, hsub]
  generalize fs.kissFS.inodes data.inode.toNat = node at *
  have hle := readableBlocks_le fs.kissFS node node.numDataBlocks.toNat 0
  have hall := readableBlocks_eq_iff fs.kissFS node node.numDataBlocks.toNat 0
  rw [readDataLoop_short _ _ _ _ _ _ _ _ _ (by rw [hmb]; decide) (by rw [hmb]; omega)]
  rcases Nat.lt_or_eq_of_le hle with hlt | heq
  · refine Or.inl ⟨?_, if_pos hlt⟩
    by_contra hnone
    refine absurd (hall.mpr fun j _ hj => ?_) (Nat.ne_of_lt hlt)
    by_contra hbad
    exact hnone ⟨j, by omega, Bool.eq_false_iff.mpr hbad⟩
  · refine Or.inr ⟨fun i hi => hall.mp heq i (Nat.zero_le i) (by omega), ?_⟩
    rw [if_neg (by omega), BitVec.toNat_add, BitVec.toNat_ofNat]
    show (0 + _ % 0x100000000) % 0x100000000 < _
    omega

/-- **When loading is right**: when what can be read of the file has room in the page, and a file
    that is larger cannot be read to its end. -/
theorem loadsRight_iff (hexe : is_kiss_executable fs filename = true)
    (hopen : fs.openPath filename = some (.kissFS data)) :
    (LoadsRight fs env currTerm pid test_over_flow filename
        (fs.kissFS.inodes data.inode.toNat).size.toNat ↔ FitsPage fs.kissFS data) ∧
      (IsWhole fs.kissFS data → (FitsPage fs.kissFS data ↔
        (fs.kissFS.inodes data.inode.toNat).size.toNat ≤ imageRoom)) := by
  obtain ⟨hdir, hinode⟩ := regular_of_executable hexe hopen
  refine ⟨⟨fun h => ?_, fun h => ?_⟩, fun hwhole => ⟨fun h => ?_, fun h => ?_⟩⟩
  · have hread := (inside_iff hopen hdir).mp h.inside
    refine ⟨hread, fun hsize => ?_⟩
    rcases readData_short hdir hinode hsize hread with ⟨hbroken, -⟩ | ⟨-, hless⟩
    · exact hbroken
    · have hfail := (h.fails hsize).1
      rw [kiss_loader_goes_on hopen hdir hless] at hfail
      cases hfail
  · refine ⟨(inside_iff hopen hdir).mpr h.read, fun hsize => ?_⟩
    rcases readData_short hdir hinode hsize h.read with ⟨-, hfailed⟩ | ⟨hall, -⟩
    · exact kiss_loader_fails hopen hdir hfailed
    · obtain ⟨i, hi, hbad⟩ := h.broken hsize
      rw [hall i hi] at hbad
      cases hbad
  · -- all of the file is read, up to 4 MB
    have hread := h.read
    have hroom : imageRoom = 0x3b8000 := rfl
    rw [hwhole.readLength_eq hdir hinode] at hread
    omega
  · refine ⟨?_, fun hlarge => absurd h (Nat.not_le.mpr hlarge)⟩
    rw [readLength_four_mb hdir hinode]
    omega

/-- Memory is empty, and no device does anything. -/
def noInput : Env := ⟨fun _ => 0, none, false, false, fun _ => false, none⟩

/-- The small ELF file that every name leads to. -/
theorem loadsRight_elf : LoadsRight elfEverywhere noInput none 0 0 [0x61] 4 := by
  have hexe : is_kiss_executable elfEverywhere [0x61] = true := by decide
  have hroom : imageRoom = 0x3b8000 := rfl
  refine (loadsRight_iff hexe rfl).1.mpr ⟨?_, fun h => ?_⟩
  · rw [readLength_four_mb (by decide) (by decide)]
    show min (min 0x400000 4) _ ≤ imageRoom
    omega
  · change imageRoom < 4 at h
    omega

/-- A disk on which every name leads to an ELF file one byte too large for the page. -/
def largeElfEverywhere : FileSystem :=
  { elfEverywhere with
    kissFS := { elfEverywhere.kissFS with inodes := fun _ => ⟨0x3b8001, fun _ => 0, 953⟩ } }

/-- **A file one byte too large** runs over the end of the page. -/
theorem loadsRight_not_large : ¬ ∀ (fs : FileSystem) (env : Env) (currTerm : Option Term)
    (pid test_over_flow : BitVec 32) (filename : List (BitVec 8)) (data : KissFileDescriptorData),
    is_kiss_executable fs filename = true → fs.openPath filename = some (.kissFS data) →
    LoadsRight fs env currTerm pid test_over_flow filename
      (fs.kissFS.inodes data.inode.toNat).size.toNat := by
  intro h
  have hexe : is_kiss_executable largeElfEverywhere [0x61] = true := by decide
  have hopen : largeElfEverywhere.openPath [0x61] =
    some (.kissFS ⟨BitVec.ofNat 8 NORMAL_FILE, 0, fun _ => ⟨fun _ => 0, 0, 0⟩, 0, 0⟩) := rfl
  obtain ⟨hdir, hinode⟩ := regular_of_executable hexe hopen
  have hwhole : IsWhole largeElfEverywhere.kissFS
      ⟨BitVec.ofNat 8 NORMAL_FILE, 0, fun _ => ⟨fun _ => 0, 0, 0⟩, 0, 0⟩ :=
    ⟨fun _ _ => rfl, by decide⟩
  have hright := h largeElfEverywhere noInput none 0 0 [0x61] _ hexe hopen
  have hfits := (inside_iff hopen hdir).mp hright.inside
  rw [hwhole.readLength_eq hdir hinode] at hfits
  exact absurd hfits (by decide)

end Loading

end TedkOS.Syscalls
