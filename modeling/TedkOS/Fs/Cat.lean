/-
  The program cat on a file of the image (src/syscalls/ece391cat.c).

  `readData` takes bytes from wrong places when a read goes on past the block it starts in.  The
  program asks for 1024 bytes at a time and starts at 0, so each of its reads ends in the block it
  starts in, and each is right (`catRead`).

  1. **Program** — `cat`: the loop that reads and writes, over the results of the writes.

  2. **One round** — `cat_round`: what is read is what comes next in the file.

  3. **The whole loop** — `cat_prints`: the file is written, byte for byte, and the loop ends at its
     end; or it ends at the first write that fails.
-/
import TedkOS.Fs.KissRead
import TedkOS.Fs.Dispatcher

namespace TedkOS.Fs

open Klibs

/-! ## The program -/

/-- Memory after a call has stored through the pointer `buf`. -/
def storedAt (mem : BitVec 32 → BitVec 8) (buf : BitVec 32) (stores : List (Nat × BitVec 8)) :
    BitVec 32 → BitVec 8 :=
  fun a => contents (fun i => mem (buf + BitVec.ofNat 32 i)) stores (a - buf).toNat

/-- The loop of `main`, for so many rounds at most: what it returns, and the bytes written so far
    that were not refused.  `write n` is the result of the `n`-th write.  The reads are of a file of
    the image, which never sleep. -/
def cat (fs : KissFS) (env : Env) (currTerm : Option Term) (pid buf : BitVec 32)
    (write : Nat → BitVec 32) :
    Nat → Nat → File → (BitVec 32 → BitVec 8) → Option (BitVec 32 × List (BitVec 8))
  | 0, _, _, _ => none
  | rounds + 1, n, fd, mem =>
    let r := fd.read fs { env with mem } currTerm pid buf 1024
    match r.ret with
    | .value cnt =>
      if cnt = 0 then some (0, [])
      else if cnt = -1 then some (3, [])
      else
        let mem := storedAt mem buf r.stores
        if write n = -1 then some (3, [])
        else (cat fs env currTerm pid buf write rounds (n + 1) r.next.1 mem).map
          fun (result, out) =>
          (result, ((List.range cnt.toNat).map fun i => mem (buf + BitVec.ofNat 32 i)) ++ out)
    | _ => none

/-- What memory holds in the buffer after the stores of a call. -/
theorem storedAt_apply (mem : BitVec 32 → BitVec 8) (buf : BitVec 32)
    (stores : List (Nat × BitVec 8)) {i : Nat} (hi : i < 0x100000000) :
    storedAt mem buf stores (buf + BitVec.ofNat 32 i) =
      contents (fun i => mem (buf + BitVec.ofNat 32 i)) stores i := by
  have hindex : (buf + BitVec.ofNat 32 i - buf).toNat = i := by
    rw [BitVec.add_comm, BitVec.add_sub_cancel, BitVec.toNat_ofNat, Nat.mod_eq_of_lt hi]
  rw [storedAt, hindex]

/-- A count is not taken for an error. -/
theorem count_ne_error {n : Nat} (hn : n < 0xFFFFFFFF) : BitVec.ofNat 32 n ≠ -1 := by
  intro heq
  have hnat := congrArg BitVec.toNat heq
  rw [BitVec.toNat_ofNat, Nat.mod_eq_of_lt (by omega), show (-1 : BitVec 32).toNat = 0xFFFFFFFF from
    rfl] at hnat
  omega

/-! ## One read

  At an offset that is a multiple of 1024, 1024 bytes do not cross the end of a block. -/

/-- A file whose blocks are there, and as many as its size takes. -/
structure WholeFile (fs : KissFS) (data : KissFileDescriptorData) : Prop where
  /-- It is no directory, -/
  regular : data.filetype.toNat ≠ DIRECTORY
  /-- its inode is kept, -/
  inode : data.inode < fs.numInodes
  /-- its blocks are in the image, -/
  inside : fs.FileInside (fs.inodes data.inode.toNat)
  /-- and they are enough for its size, -/
  size_le : (fs.inodes data.inode.toNat).size.toNat ≤
    BlockSize * (fs.inodes data.inode.toNat).numDataBlocks.toNat
  /-- and none too many. -/
  blocks_lt : BlockSize * (fs.inodes data.inode.toNat).numDataBlocks.toNat <
    (fs.inodes data.inode.toNat).size.toNat + BlockSize

section Rounds

variable {fs : KissFS} {data : KissFileDescriptorData} (h : WholeFile fs data)

include h

/-- So its bytes are as many as its size says. -/
theorem WholeFile.length_fileBytes :
    (fs.fileBytes (fs.inodes data.inode.toNat)).length =
      (fs.inodes data.inode.toNat).size.toNat := by
  have hall := @KissFS.drop_take_fileBytes fs _ h.size_le 0 (fs.inodes data.inode.toNat).size.toNat
  have hle : (fs.fileBytes (fs.inodes data.inode.toNat)).length ≤
      (fs.inodes data.inode.toNat).size.toNat :=
    List.length_take_le _ _
  have hlen := congrArg List.length hall
  rw [List.drop_zero, List.take_of_length_le hle, List.length_map, List.length_range, Nat.sub_zero,
    Nat.min_self]
    at hlen
  exact hlen

/-- **A read of 1024 bytes is right** from every multiple of 1024 in the file, and from its end. -/
theorem catRead {offset : BitVec 32} (hle : offset ≤ (fs.inodes data.inode.toNat).size)
    (haligned : offset.toNat % 1024 = 0 ∨ offset = (fs.inodes data.inode.toNat).size) :
    fs.ReadsFile data.inode offset 1024 := by
  rw [KissFS.readsFile_iff_startsWell h.inode h.inside h.size_le h.blocks_lt]
  apply KissFS.StartsWell.of_inBlock hle
  have hlen : (1024 : BitVec 32).toNat = 1024 := rfl
  have hmod := Nat.mod_lt offset.toNat (show 0 < BlockSize by decide)
  rw [hlen]
  unfold BlockSize at *
  rcases haligned with haligned | hend
  · omega
  · rw [hend] at hmod ⊢
    omega

/-! ## One round -/

variable (env : Env) (currTerm : Option Term) (pid buf : BitVec 32) (write : Nat → BitVec 32)

/-- **One round of the loop**: it ends at the end of the file; else the next bytes are written, if
    the write does not fail, and the loop goes on behind them. -/
theorem cat_round {offset : BitVec 32} (hle : offset ≤ (fs.inodes data.inode.toNat).size)
    (haligned : offset.toNat % 1024 = 0 ∨ offset = (fs.inodes data.inode.toNat).size)
    (rounds n : Nat) (mem : BitVec 32 → BitVec 8) :
    ∃ mem', cat fs env currTerm pid buf write (rounds + 1) n ⟨offset, .kissFS data⟩ mem =
      if offset = (fs.inodes data.inode.toNat).size then some (0, [])
      else if write n = -1 then some (3, [])
      else (cat fs env currTerm pid buf write rounds (n + 1)
        ⟨offset + BitVec.ofNat 32
          (min 1024 ((fs.inodes data.inode.toNat).size.toNat - offset.toNat)), .kissFS data⟩
          mem').map fun (result, out) =>
          (result, ((fs.fileBytes (fs.inodes data.inode.toNat)).drop offset.toNat).take 1024 ++
            out) := by
  have hread := catRead h hle haligned
  have hfile := h.length_fileBytes
  have hlen : (1024 : BitVec 32).toNat = 1024 := rfl
  have hbound := (fs.inodes data.inode.toNat).size.isLt
  have hle' := BitVec.le_def.mp hle
  -- what the call returns
  have hret : (fs.readData data.inode offset 1024).1 =
      BitVec.ofNat 32 (min 1024 ((fs.inodes data.inode.toNat).size.toNat - offset.toNat)) := by
    apply BitVec.eq_of_toNat_eq
    rw [hread.ret, List.length_take, List.length_drop, hfile, hlen, BitVec.toNat_ofNat,
      Nat.mod_eq_of_lt (by omega)]
  have hcnt : (BitVec.ofNat 32
      (min 1024 ((fs.inodes data.inode.toNat).size.toNat - offset.toNat))).toNat =
      min 1024 ((fs.inodes data.inode.toNat).size.toNat - offset.toNat) := by
    rw [BitVec.toNat_ofNat, Nat.mod_eq_of_lt (by omega)]
  have hnotError :
      BitVec.ofNat 32 (min 1024 ((fs.inodes data.inode.toNat).size.toNat - offset.toNat)) ≠ -1 :=
    count_ne_error (by omega)
  have hzero :
      BitVec.ofNat 32 (min 1024 ((fs.inodes data.inode.toNat).size.toNat - offset.toNat)) = 0 ↔
      offset = (fs.inodes data.inode.toNat).size := by
    rw [← BitVec.toNat_inj, ← BitVec.toNat_inj, hcnt, show (0 : BitVec 32).toNat = 0 from rfl]
    omega
  -- what it leaves in the buffer
  have hbytes : ((List.range (BitVec.ofNat 32
      (min 1024 ((fs.inodes data.inode.toNat).size.toNat - offset.toNat))).toNat).map fun i =>
        storedAt mem buf (fs.readData data.inode offset 1024).2 (buf + BitVec.ofNat 32 i)) =
      ((fs.fileBytes (fs.inodes data.inode.toNat)).drop offset.toNat).take 1024 := by
    apply List.ext_getElem
    · rw [List.length_map, List.length_range, hcnt, List.length_take, List.length_drop, hfile]
    · intro i hi hi'
      rw [List.getElem_map, List.getElem_range]
      have hshort :=
        List.length_take_le 1024 ((fs.fileBytes (fs.inodes data.inode.toNat)).drop offset.toNat)
      rw [storedAt_apply _ _ _ (by omega)]
      exact hread.bytes _ i _ (List.getElem?_eq_getElem hi')
  refine ⟨storedAt mem buf (fs.readData data.inode offset 1024).2, ?_⟩
  rw [cat]
  simp only [File.read, KissFS.read, if_neg h.regular, hret, advance, if_neg hnotError]
  by_cases hend : offset = (fs.inodes data.inode.toNat).size
  · rw [if_pos hend, if_pos (hzero.mpr hend)]
  · rw [if_neg hend, if_neg (mt hzero.mp hend), hbytes]

/-! ## The whole loop

  By induction on the bytes that are left; each round but the last takes 1024 of them. -/

omit h in
/-- The offset after a round. -/
theorem nextOffset {offset : BitVec 32} (hle : offset ≤ (fs.inodes data.inode.toNat).size) :
    (offset + BitVec.ofNat 32
      (min 1024 ((fs.inodes data.inode.toNat).size.toNat - offset.toNat))).toNat =
      min (offset.toNat + 1024) (fs.inodes data.inode.toNat).size.toNat := by
  have hbound := (fs.inodes data.inode.toNat).size.isLt
  have hle' := BitVec.le_def.mp hle
  rw [BitVec.toNat_add, BitVec.toNat_ofNat]
  omega

/-- **No write fails**: from the `n`-th round on, the rest of the file is written. -/
theorem cat_writesAll {offset : BitVec 32} {rounds n : Nat} {mem : BitVec 32 → BitVec 8}
    (hoffset : offset.toNat = min (1024 * n) (fs.inodes data.inode.toNat).size.toNat)
    (hn : 1024 * n < (fs.inodes data.inode.toNat).size.toNat + 1024)
    (hrounds : (fs.inodes data.inode.toNat).size.toNat + 1024 ≤ 1024 * (n + rounds))
    (hwrite : ∀ i, n ≤ i → 1024 * i < (fs.inodes data.inode.toNat).size.toNat → write i ≠ -1) :
    cat fs env currTerm pid buf write rounds n ⟨offset, .kissFS data⟩ mem =
      some (0, (fs.fileBytes (fs.inodes data.inode.toNat)).drop offset.toNat) := by
  have hfile := h.length_fileBytes
  induction rounds generalizing n offset mem with
  | zero => omega
  | succ rounds ih =>
    have hle : offset ≤ (fs.inodes data.inode.toNat).size := BitVec.le_def.mpr (by omega)
    have hend : offset = (fs.inodes data.inode.toNat).size ↔
        offset.toNat = (fs.inodes data.inode.toNat).size.toNat := BitVec.toNat_inj.symm
    -- every round but the last begins at a multiple of 1024, and the last at the end of the file
    have haligned : offset.toNat % 1024 = 0 ∨ offset = (fs.inodes data.inode.toNat).size := by
      rw [hend]
      omega
    obtain ⟨mem', hround⟩ := cat_round h env currTerm pid buf write hle haligned rounds n mem
    rw [hround]
    by_cases hdone : offset = (fs.inodes data.inode.toNat).size
    · rw [if_pos hdone, hend.mp hdone, List.drop_of_length_le (by omega)]
    · have hlt : offset.toNat ≠ (fs.inodes data.inode.toNat).size.toNat := mt hend.mpr hdone
      have hnext := nextOffset hle
      rw [if_neg hdone, if_neg (hwrite n (Nat.le_refl n) (by omega)),
        ih (by omega) (by omega) (by omega) fun i hi => hwrite i (by omega), Option.map_some, hnext]
      have hrest : (fs.fileBytes (fs.inodes data.inode.toNat)).drop
          (min (offset.toNat + 1024) (fs.inodes data.inode.toNat).size.toNat) =
          ((fs.fileBytes (fs.inodes data.inode.toNat)).drop offset.toNat).drop 1024 := by
        rw [List.drop_drop, ← hfile]
        rcases Nat.le_total (offset.toNat + 1024) (fs.fileBytes (fs.inodes data.inode.toNat)).length
          with hin | hout
        · rw [Nat.min_eq_left hin]
        · rw [Nat.min_eq_right hout, List.drop_length, List.drop_of_length_le hout]
      rw [hrest]
      dsimp only
      rw [List.take_append_drop]

/-- **The `k`-th write fails**: what was to be written before it has been. -/
theorem cat_fails {offset : BitVec 32} {rounds n k : Nat} {mem : BitVec 32 → BitVec 8}
    (hoffset : offset.toNat = 1024 * n) (hnk : n ≤ k)
    (hk : 1024 * k < (fs.inodes data.inode.toNat).size.toNat) (hrounds : k < n + rounds)
    (hwrite : ∀ i, n ≤ i → i < k → write i ≠ -1) (hfail : write k = -1) :
    cat fs env currTerm pid buf write rounds n ⟨offset, .kissFS data⟩ mem =
      some (3, ((fs.fileBytes (fs.inodes data.inode.toNat)).take (1024 * k)).drop (1024 * n)) := by
  have hfile := h.length_fileBytes
  induction rounds generalizing n offset mem with
  | zero => omega
  | succ rounds ih =>
    have hle : offset ≤ (fs.inodes data.inode.toNat).size := BitVec.le_def.mpr (by omega)
    have hdone : offset ≠ (fs.inodes data.inode.toNat).size := fun heq => by
      have hnat := congrArg BitVec.toNat heq
      omega
    obtain ⟨mem', hround⟩ :=
      cat_round h env currTerm pid buf write hle (.inl (by omega)) rounds n mem
    rw [hround, if_neg hdone]
    rcases Nat.eq_or_lt_of_le hnk with rfl | hlt
    · rw [if_pos hfail, List.drop_of_length_le (List.length_take_le _ _)]
    · have hnext := nextOffset hle
      rw [if_neg (hwrite n (Nat.le_refl n) hlt),
        ih (by omega) hlt (by omega) fun i hi => hwrite i (by omega), Option.map_some, hoffset]
      have htake : ((fs.fileBytes (fs.inodes data.inode.toNat)).drop (1024 * n)).take 1024 =
          (((fs.fileBytes (fs.inodes data.inode.toNat)).take (1024 * k)).drop (1024 * n)).take
            1024 := by
        rw [List.drop_take, List.take_take, Nat.min_eq_left (by omega)]
      rw [htake, Nat.mul_succ, ← List.drop_drop]
      dsimp only
      rw [List.take_append_drop]

end Rounds

/-- A file of a mounted image. -/
theorem wholeFile_of_load (img : Image) (dentries : Nat → Dentry) (inodes : Nat → Inode)
    {st : KissState} (hload : initFromMemoryAddress img dentries inodes = .ok st)
    {data : KissFileDescriptorData} (hregular : data.filetype.toNat ≠ DIRECTORY)
    (hi : data.inode < st.numInodes)
    (hinside : st.toKissFS.FileInside (st.inodes data.inode.toNat)) :
    WholeFile st.toKissFS data := by
  obtain ⟨-, names, -, rfl⟩ := img.of_init hload
  obtain ⟨hsize, hsize'⟩ := img.numDataBlocks_spec data.inode.toNat
  have hnode := mounted_inode dentries inodes names hi
  refine ⟨hregular, hi, hinside, ?_, ?_⟩
  · rw [hnode]
    exact hsize
  · rw [hnode]
    exact hsize'

/-- **What cat writes**, of a file of a mounted image whose blocks are there: the file, byte for
    byte, and it ends at its end with 0; or, if a write fails, what was written before it, and it
    ends there with 3. -/
theorem cat_prints (img : Image) (dentries : Nat → Dentry) (inodes : Nat → Inode) {st : KissState}
    (hload : initFromMemoryAddress img dentries inodes = .ok st) {data : KissFileDescriptorData}
    (hregular : data.filetype.toNat ≠ DIRECTORY) (hi : data.inode < st.numInodes)
    (hinside : st.toKissFS.FileInside (st.inodes data.inode.toNat)) (env : Env)
    (currTerm : Option Term) (pid buf : BitVec 32) (mem : BitVec 32 → BitVec 8)
    (write : Nat → BitVec 32) {rounds : Nat}
    (hrounds : (st.inodes data.inode.toNat).size.toNat + 1024 ≤ 1024 * rounds) :
    ((∀ n, 1024 * n < (st.inodes data.inode.toNat).size.toNat → write n ≠ -1) →
      cat st.toKissFS env currTerm pid buf write rounds 0 ⟨0, .kissFS data⟩ mem =
        some (0, st.toKissFS.fileBytes (st.inodes data.inode.toNat))) ∧
    ∀ k, 1024 * k < (st.inodes data.inode.toNat).size.toNat → (∀ n, n < k → write n ≠ -1) →
      write k = -1 → cat st.toKissFS env currTerm pid buf write rounds 0 ⟨0, .kissFS data⟩ mem =
        some (3, (st.toKissFS.fileBytes (st.inodes data.inode.toNat)).take (1024 * k)) := by
  have h := wholeFile_of_load img dentries inodes hload hregular hi hinside
  have hzero : (0 : BitVec 32).toNat = 0 := rfl
  constructor
  · intro hwrite
    exact cat_writesAll h env currTerm pid buf write (by omega) (by omega) (by omega) fun n _ =>
      hwrite n
  · intro k hk hwrite hfail
    exact cat_fails h env currTerm pid buf write (by omega) (Nat.zero_le k) hk (by omega)
      (fun n _ => hwrite n) hfail

/-- The program on a file of one byte. -/
theorem cat_prints_oneFile : ∃ st, initFromMemoryAddress (oneFile 1) (fun _ => ⟨fun _ => 0, 0, 0⟩)
      (fun _ => ⟨0, fun _ => 0, 0⟩) = .ok st ∧
    cat st.toKissFS ⟨fun _ => 0, none, false, false, fun _ => false, none⟩ none 0 0 (fun _ => 1) 2 0
      ⟨0, .kissFS ⟨2, 0, fun _ => ⟨fun _ => 0, 0, 0⟩, 0, 0⟩⟩ (fun _ => 0) =
        some (0, st.toKissFS.fileBytes (st.inodes 0)) := by
  have hwf : (oneFile 1).WellFormed := by decide +kernel
  obtain ⟨names, -, hinit⟩ :=
    (oneFile 1).init_exactly (fun _ => ⟨fun _ => 0, 0, 0⟩) (fun _ => ⟨0, fun _ => 0, 0⟩)
  have hi : (0 : BitVec 32) < (oneFile 1).numInodes := by decide +kernel
  have hload := hinit.succeeds hwf.initSafe
  have hsize : (oneFile 1).inodeSize 0 = 1 := by decide +kernel
  refine ⟨_, hload,
    (cat_prints (oneFile 1) _ _ hload (by decide) hi (hwf.fileInside hi) _ none 0 0 _ _ ?_).1
    fun _ _ => by decide⟩
  rw [mounted_inode _ _ names hi]
  show ((oneFile 1).inodeSize 0).toNat + 1024 ≤ _
  rw [hsize]
  decide

end TedkOS.Fs
