/-
  The program ls on an image of createfs (src/syscalls/ece391ls.c, src/createfs.c).

  The program asks for 32 bytes at a time and puts a line feed behind the name.  A count is right
  only for a name shorter than that, and a count of 0 ends the loop, so an entry without a name
  would hide those after it.  createfs cuts every name at 31 characters, and a directory has no
  empty names.

  1. **Program** — `ls`: the loop that reads and writes, over the results of the writes.

  2. **One round** — `ls_round`: what is written is the name of the next entry, and a line feed.

  3. **The whole loop** — `ls_names`; and `ls_lists`, for an image of createfs: "." and then the
     files kept, in their order, up to the first write that fails.
-/
import TedkOS.Fs.KissDir
import TedkOS.Fs.CreateFsMount
import TedkOS.Fs.Cat

namespace TedkOS.Fs

open Klibs

/-! ## The program -/

/-- The loop of `main`, for so many rounds at most: what it returns, and the bytes written so far
    that were not refused, without the message about a read that failed.  `write n` is the result of
    the `n`-th write.  The reads are of a directory, which never sleep. -/
def ls (fs : KissFS) (env : Env) (currTerm : Option Term) (pid buf : BitVec 32)
    (write : Nat → BitVec 32) :
    Nat → Nat → File → (BitVec 32 → BitVec 8) → Option (BitVec 32 × List (BitVec 8))
  | 0, _, _, _ => none
  | rounds + 1, n, fd, mem =>
    let r := fd.read fs { env with mem } currTerm pid buf 32
    match r.ret with
    | .value cnt =>
      if cnt = 0 then some (0, [])
      else if cnt = -1 then some (3, [])
      else
        let mem := storedAt (storedAt mem buf r.stores) buf [(cnt.toNat, 0x0A)]
        if write n = -1 then some (3, [])
        else (ls fs env currTerm pid buf write rounds (n + 1) r.next.1 mem).map fun (result, out) =>
          (result, ((List.range (cnt + 1).toNat).map fun i => mem (buf + BitVec.ofNat 32 i)) ++ out)
    | _ => none

/-! ## One round

  A name of createfs is at most 31 characters long, so that the count of each read is its length.
  After the last entry the count is 0 and the loop ends. -/

section Rounds

variable {st : KissState} {fdData : KissFileDescriptorData} (ho : OpenedDirectory st fdData)
    (env : Env)
  (currTerm : Option Term) (pid buf : BitVec 32) (write : Nat → BitVec 32)

include ho

/-- **After the last entry** the loop ends. -/
theorem ls_end {k : Nat} (hk : st.numDentries.toNat ≤ k) (rounds n : Nat) (offset : BitVec 32)
    (mem : BitVec 32 → BitVec 8) :
    ls st.toKissFS env currTerm pid buf write (rounds + 1) n
      ⟨offset, .kissFS (fdData.after k)⟩ mem =
      some (0, []) := by
  have hret := ho.ret_finished hk ⟨fun i => mem (buf + BitVec.ofNat 32 i), offset, 32⟩
  rw [ls]
  simp only [File.read, hret, if_true]

/-- **One round of the loop**, at an entry whose name fits: the name and a line feed are written, if
    the write does not fail, and the loop goes on with the next entry. -/
theorem ls_round {k : Nat} (hk : k < st.numDentries.toNat)
    (hpos : 0 < strlen (st.dentries k).filename) (hshort : strlen (st.dentries k).filename < 32)
    (rounds n : Nat) (offset : BitVec 32) (mem : BitVec 32 → BitVec 8) :
    ∃ offset' mem', ls st.toKissFS env currTerm pid buf write (rounds + 1) n
        ⟨offset, .kissFS (fdData.after k)⟩ mem =
      if write n = -1 then some (3, [])
      else (ls st.toKissFS env currTerm pid buf write rounds (n + 1)
        ⟨offset', .kissFS (fdData.after (k + 1))⟩ mem').map fun (result, out) =>
          (result, string (st.dentries k).filename ++ [0x0A] ++ out) := by
  have hlen : (32 : BitVec 32).toNat = 32 := rfl
  have hgives := (ho.givesName_iff hk (by unfold MaxFilenameLength; omega)
    (c := ⟨fun i => mem (buf + BitVec.ofNat 32 i), offset, 32⟩)
      (show 0 < (32 : BitVec 32).toNat by decide)).mpr
    (.inl hshort)
  have hnext := KissFileDescriptorData.read_next st.toKissFS ho.filetype k
    ⟨fun i => mem (buf + BitVec.ofNat 32 i), offset, 32⟩
  have hbytes := hgives.bytes
  have hret := hgives.count
  -- the whole name is given, since it is shorter than what is asked for
  have hmin : min 32 (strlen (st.dentries k).filename) = strlen (st.dentries k).filename := by omega
  dsimp only at hret hnext hbytes
  rw [hlen, hmin] at hret hbytes
  have hcnt : (BitVec.ofNat 32 (strlen (st.dentries k).filename)).toNat =
      strlen (st.dentries k).filename := by
    rw [BitVec.toNat_ofNat, Nat.mod_eq_of_lt (by omega)]
  -- so its length is neither the end nor the error
  have hzero : BitVec.ofNat 32 (strlen (st.dentries k).filename) ≠ 0 := fun heq => by
    have hnat := congrArg BitVec.toNat heq
    rw [hcnt, show (0 : BitVec 32).toNat = 0 from rfl] at hnat
    omega
  have hnotError : BitVec.ofNat 32 (strlen (st.dentries k).filename) ≠ -1 :=
    count_ne_error (by omega)
  have hnum : (BitVec.ofNat 32 (strlen (st.dentries k).filename) + 1).toNat =
      strlen (st.dentries k).filename + 1 := by
    rw [BitVec.toNat_add, hcnt, show (1 : BitVec 32).toNat = 1 from rfl]
    omega
  -- the buffer, with the line feed behind the name
  have hout : ((List.range (strlen (st.dentries k).filename + 1)).map fun i =>
      storedAt (storedAt mem buf
        (st.toKissFS.read (fdData.after k) (fun i => mem (buf + BitVec.ofNat 32 i))
        offset 32).stores) buf [(strlen (st.dentries k).filename, 0x0A)]
        (buf + BitVec.ofNat 32 i)) =
      string (st.dentries k).filename ++ [0x0A] := by
    apply List.ext_getElem
    · rw [List.length_map, List.length_range, List.length_append, length_string,
        List.length_singleton]
    · intro i hi hi'
      rw [List.length_map, List.length_range] at hi
      rw [List.getElem_map, List.getElem_range, storedAt_apply _ _ _ (by omega), contents, contents]
      by_cases hfeed : i = strlen (st.dentries k).filename
      · rw [if_pos hfeed, List.getElem_append_right (by rw [length_string]; omega),
          List.getElem_singleton]
      · have hlt : i < strlen (st.dentries k).filename := by omega
        have hchar := getElem_string hlt
        rw [List.getElem?_eq_getElem (by rw [length_string]; exact hlt)] at hchar
        rw [if_neg hfeed, storedAt_apply _ _ _ (by omega), hbytes i hlt,
          List.getElem_append_left (by rw [length_string]; exact hlt), Option.some.inj hchar]
  rw [ls]
  simp only [File.read, hret, hnext, if_neg hzero, if_neg hnotError, hcnt, hnum, hout]
  exact ⟨_, _, rfl⟩

/-! ## The whole loop

  By induction on the entries that are left.  A write that fails ends the program, and what was
  written before is the beginning of the listing. -/

/-- **So many rounds** in which no write fails: the names of the entries from the `k`-th on. -/
theorem ls_goesOn (hnames : ∀ i, i < st.numDentries.toNat →
      0 < strlen (st.dentries i).filename ∧ strlen (st.dentries i).filename < 32) {k j : Nat}
    (hkj : k + j ≤ st.numDentries.toNat) (hwrite : ∀ i, i < k + j → write i ≠ -1) (rounds : Nat)
    (offset : BitVec 32) (mem : BitVec 32 → BitVec 8) :
    ∃ offset' mem', ls st.toKissFS env currTerm pid buf write (j + rounds) k
        ⟨offset, .kissFS (fdData.after k)⟩ mem =
      (ls st.toKissFS env currTerm pid buf write rounds (k + j)
        ⟨offset', .kissFS (fdData.after (k + j))⟩ mem').map fun (result, out) =>
          (result, ((List.range' k j).flatMap fun i => string (st.dentries i).filename ++ [0x0A]) ++
            out) := by
  induction j generalizing k offset mem with
  | zero =>
    refine ⟨offset, mem, ?_⟩
    rw [Nat.zero_add]
    exact Option.map_id'.symm
  | succ j ih =>
    obtain ⟨hpos, hshort⟩ := hnames k (by omega)
    obtain ⟨offset', mem', hround⟩ :=
      ls_round ho env currTerm pid buf write (by omega) hpos hshort (j + rounds) k offset mem
    rw [if_neg (hwrite k (by omega))] at hround
    obtain ⟨offset'', mem'', hrest⟩ :=
      @ih (k + 1) (by omega) (fun i hi => hwrite i (by omega)) offset' mem'
    refine ⟨offset'', mem'', ?_⟩
    rw [show j + 1 + rounds = j + rounds + 1 by omega, hround, hrest, Option.map_map,
      List.range'_succ, List.flatMap_cons, show k + 1 + j = k + (j + 1) by omega]
    congr 1
    funext r
    exact congrArg (Prod.mk r.1) (List.append_assoc ..).symm

/-- **The whole loop**: every name is written, on a line of its own, and the loop ends with 0; or,
    if a write fails, those before it, and it ends there with 3. -/
theorem ls_names (hnames : ∀ i, i < st.numDentries.toNat →
      0 < strlen (st.dentries i).filename ∧ strlen (st.dentries i).filename < 32) {rounds : Nat}
    (hrounds : st.numDentries.toNat < rounds) (mem : BitVec 32 → BitVec 8) :
    ((∀ i, i < st.numDentries.toNat → write i ≠ -1) →
      ls st.toKissFS env currTerm pid buf write rounds 0 ⟨0, .kissFS fdData⟩ mem =
        some (0, (List.range' 0 st.numDentries.toNat).flatMap
          fun i => string (st.dentries i).filename ++ [0x0A])) ∧
    ∀ k, k < st.numDentries.toNat → (∀ i, i < k → write i ≠ -1) → write k = -1 →
      ls st.toKissFS env currTerm pid buf write rounds 0 ⟨0, .kissFS fdData⟩ mem =
        some (3, (List.range' 0 k).flatMap fun i => string (st.dentries i).filename ++ [0x0A]) := by
  -- as far as no write fails, there is a round for every entry, and one more to see the end
  have hgoes : ∀ j more, j + (more + 1) = rounds → j ≤ st.numDentries.toNat →
      (∀ i, i < j → write i ≠ -1) → ∃ offset' mem',
        ls st.toKissFS env currTerm pid buf write rounds 0 ⟨0, .kissFS fdData⟩ mem =
        (ls st.toKissFS env currTerm pid buf write (more + 1) j
          ⟨offset', .kissFS (fdData.after j)⟩ mem').map fun (result, out) =>
            (result, ((List.range' 0 j).flatMap
                fun i => string (st.dentries i).filename ++ [0x0A]) ++ out) := by
    intro j more hmore hj hwrite
    have h := @ls_goesOn _ _ ho env currTerm pid buf write hnames 0 j (by omega)
      (fun i hi => hwrite i (by omega))
      (more + 1) 0 mem
    rwa [ho.after_zero, hmore, Nat.zero_add] at h
  constructor
  · intro hwrite
    obtain ⟨offset', mem', hall⟩ :=
      hgoes st.numDentries.toNat (rounds - st.numDentries.toNat - 1) (by omega)
        (Nat.le_refl _) hwrite
    rw [hall, ls_end ho env currTerm pid buf write (Nat.le_refl _), Option.map_some]
    dsimp only
    rw [List.append_nil]
  · intro k hk hwrite hfail
    obtain ⟨offset', mem', hbefore⟩ := hgoes k (rounds - k - 1) (by omega) (Nat.le_of_lt hk) hwrite
    obtain ⟨hpos, hshort⟩ := hnames k hk
    obtain ⟨_, _, hround⟩ :=
      ls_round ho env currTerm pid buf write hk hpos hshort (rounds - k - 1) k offset' mem'
    rw [hbefore, hround, if_pos hfail, Option.map_some]
    dsimp only
    rw [List.append_nil]

end Rounds

/-! ## An image of createfs -/

namespace CreateFs

/-- The name of an entry is the file's, cut at 31 characters. -/
theorem string_storedName {name : Nat → BitVec 8} (hname : strlen name < 0x100000000) :
    string (filenameOf (storedName name)) = (string name).take 31 := by
  have hholds : HoldsString (filenameOf (storedName name)) ((string name).take 31) := by
    intro j hj
    rw [List.length_take, length_string] at hj
    show (strncpy name 31 ++ [0]).getD j 0 = _
    rw [List.getD_eq_getElem?_getD, cstring, List.getD_eq_getElem?_getD]
    rcases Nat.lt_or_ge j 31 with hcopied | hnul
    · rw [List.getElem?_append_left (by rw [length_strncpy]; exact hcopied),
        getElem_strncpy hname hcopied, List.getElem?_take_of_lt hcopied]
      by_cases hin : j < strlen name
      · rw [if_pos hin, getElem_string hin]
      · rw [if_neg hin, List.getElem?_eq_none (by rw [length_string]; omega)]
        rfl
    · obtain rfl : j = 31 := by omega
      rw [List.getElem?_append_right (by rw [length_strncpy]), length_strncpy,
        List.getElem?_eq_none (List.length_take_le _ _)]
      rfl
  apply hholds.string_eq
  · intro c hc
    exact string_ne_zero hname c (List.mem_of_mem_take hc)
  · rw [List.length_take]
    omega

/-- What `ls` writes of a name. -/
def line (name : Nat → BitVec 8) : List (BitVec 8) := (string name).take 31 ++ [0x0A]

/-- The names in the directory of the image. -/
def listing (dir : List DirEntry) : List (Nat → BitVec 8) :=
  cstring [0x2E] :: (kept dir).map DirEntry.d_name

/-- One line for the directory itself, and one for each file. -/
theorem length_listing (dir : List DirEntry) : (listing dir).length = (kept dir).length + 1 := by
  rw [listing, List.length_cons, List.length_map]

/-- No line is empty or long. -/
theorem strlen_listing {dir : List DirEntry}
    (hnames : ∀ e ∈ kept dir, 0 < strlen e.d_name ∧ strlen e.d_name < 256) {name : Nat → BitVec 8}
    (hin : name ∈ listing dir) : 0 < strlen name ∧ strlen name < 256 := by
  rcases List.mem_cons.mp hin with rfl | hin
  · decide +kernel
  · obtain ⟨e, he, rfl⟩ := List.mem_map.mp hin
    exact hnames e he

namespace Laid

variable {malloc : Nat → Nat → Nat → BitVec 8} {es : List DirEntry} {bblock : Nat → BitVec 8}
  {bufs : List InodeData} {img : Image} (h : Laid malloc es bblock bufs img)
    (dentries : Nat → Dentry)
  (inodes : Nat → Inode) {names : LinearProbingHashTable Filename (BitVec 32)}

include h

/-- **Opening the directory.** -/
theorem openFile_root (hnames : Indexed img.dentry img.numDentries.toNat names)
    (hroot : ∀ e ∈ es, storedName e.d_name ≠ storedName (cstring [0x2E])) {filename : Filename}
    (hname : filename.chars = storedName (cstring [0x2E])) (data : KissFileDescriptorData) :
    ∃ fdData, (img.mounted dentries inodes names).openFile data filename = .ok (some fdData) ∧
      OpenedDirectory (img.mounted dentries inodes names) fdData := by
  have hfirst : Filename.chars (img.dentry 0).filename = filename.chars := by
    rw [h.dentry_root, chars_storedName, hname]
  have hpos : 0 < img.numDentries.toNat := by
    rw [h.toNat_numDentries]
    omega
  obtain ⟨v, hlookup, hlt, hchars⟩ := lookup_finds dentries inodes hnames hpos hfirst
  have hv : img.dentry v.toNat = img.dentry 0 := by
    -- a file of this name would be the only other entry, and there is none
    cases hslot : v.toNat with
    | zero => rfl
    | succ k =>
      rw [hslot, h.toNat_numDentries] at hlt
      have he := List.getElem?_eq_getElem (Nat.lt_of_succ_lt_succ hlt)
      have hbuf :=
        List.getElem?_eq_getElem (h.length.symm ▸ Nat.lt_of_succ_lt_succ hlt : k < bufs.length)
      rw [hslot, h.dentry_file he hbuf, chars_storedName, hname] at hchars
      exact absurd hchars (hroot _ (List.mem_of_getElem? he))
  have hopen :
      ∃ fdData, (img.mounted dentries inodes names).openFile data filename = .ok (some fdData) := by
    rw [KissState.openFile, hlookup, Checked.ok_bind]
    dsimp only
    rw [mounted_dentryAt (BitVec.lt_def.mpr hlt), Checked.ok_bind, hv, h.dentry_root]
    exact ⟨_, rfl⟩
  obtain ⟨fdData, hopen⟩ := hopen
  refine ⟨fdData, hopen, openFile_directory ⟨v, hlookup, ?_⟩ hopen⟩
  rw [mounted_dentries dentries inodes names hlt, hv, h.dentry_root]
  rfl

/-- The name in the `i`-th slot: "." in the first, and then those of the files. -/
theorem slot_name (names : LinearProbingHashTable Filename (BitVec 32)) {i : Nat}
    (hi : i < img.numDentries.toNat) :
    ∃ name, ((cstring [0x2E]) :: es.map DirEntry.d_name)[i]? = some name ∧
      ((img.mounted dentries inodes names).dentries i).filename = filenameOf (storedName name) := by
  rw [mounted_dentries dentries inodes names hi]
  cases i with
  | zero => exact ⟨_, rfl, by rw [h.dentry_root]⟩
  | succ k =>
    rw [h.toNat_numDentries] at hi
    have he := List.getElem?_eq_getElem (Nat.lt_of_succ_lt_succ hi)
    have hbuf :=
      List.getElem?_eq_getElem (h.length.symm ▸ Nat.lt_of_succ_lt_succ hi : k < bufs.length)
    refine ⟨_, ?_, by rw [h.dentry_file he hbuf]⟩
    rw [List.getElem?_cons_succ, List.getElem?_map, he]
    rfl

end Laid

/-- **What ls writes** on an image of createfs: ".", and then the names of the files kept, each cut
    at 31 characters and on a line of its own, and it ends with 0; or, if a write fails, the lines
    before it, and it ends there with 3.  Every file has a name, and none is called ".". -/
theorem ls_lists {dir : List DirEntry} {malloc : Nat → Nat → Nat → BitVec 8} {rands : List Nat}
    {out : BlockFile.File (BitVec 8)} (hmain : main dir malloc rands = some out)
    (hfew : (kept dir).length ≤ 32) (hsome : ∃ e ∈ kept dir, 0 < e.st_size)
    (hnames : ∀ e ∈ kept dir, 0 < strlen e.d_name ∧ strlen e.d_name < 256)
    (hroot : ∀ e ∈ kept dir, storedName e.d_name ≠ storedName (cstring [0x2E])) {img : Image}
    (himg : Loaded img out) (dentries : Nat → Dentry) (inodes : Nat → Inode) :
    ∃ st, initFromMemoryAddress img dentries inodes = .ok st ∧
      ∀ data filename, Filename.chars filename = storedName (cstring [0x2E]) →
      ∃ fdData, st.openFile data filename = .ok (some fdData) ∧
        ∀ (env : Env) (currTerm : Option Term) (pid buf : BitVec 32) (mem : BitVec 32 → BitVec 8)
          (write : Nat → BitVec 32) (rounds : Nat), (kept dir).length + 1 < rounds →
          ((∀ i, i ≤ (kept dir).length → write i ≠ -1) →
            ls st.toKissFS env currTerm pid buf write rounds 0 ⟨0, .kissFS fdData⟩ mem =
              some (0, (listing dir).flatMap line)) ∧
          ∀ k, k ≤ (kept dir).length → (∀ i, i < k → write i ≠ -1) → write k = -1 →
            ls st.toKissFS env currTerm pid buf write rounds 0 ⟨0, .kissFS fdData⟩ mem =
              some (3, ((listing dir).take k).flatMap line) := by
  obtain ⟨bblock, bufs, hmade, rfl⟩ := main_spec hmain
  have h := hmade.laid himg
  obtain ⟨names, hindexed, hinit⟩ := img.init_exactly dentries inodes
  refine ⟨_, hinit.succeeds (h.initSafe hfew hsome), ?_⟩
  intro data filename hname
  obtain ⟨fdData, hopen, ho⟩ := h.openFile_root dentries inodes hindexed hroot hname data
  refine ⟨fdData, hopen, ?_⟩
  intro env currTerm pid buf mem write rounds hrounds
  have hcount : (img.mounted dentries inodes names).numDentries.toNat = (kept dir).length + 1 :=
    h.toNat_numDentries
  -- the `i`-th entry has the `i`-th name, cut to fit
  have hslot : ∀ i, i < (img.mounted dentries inodes names).numDentries.toNat →
      ∃ name, (listing dir)[i]? = some name ∧ 0 < strlen name ∧
        string ((img.mounted dentries inodes names).dentries i).filename =
          (string name).take 31 := by
    intro i hi
    obtain ⟨name, hin, hfilename⟩ := h.slot_name dentries inodes names hi
    obtain ⟨hpos, hlt⟩ := strlen_listing hnames (List.mem_of_getElem? hin)
    exact ⟨name, hin, hpos, by rw [hfilename, string_storedName (by omega)]⟩
  -- so the first lines of the loop are those of the listing
  have hlines : ∀ k, k ≤ (kept dir).length + 1 → ((List.range' 0 k).flatMap fun i =>
      string ((img.mounted dentries inodes names).dentries i).filename ++ [0x0A]) =
        ((listing dir).take k).flatMap line := by
    intro k hk
    rw [List.flatMap_def, List.flatMap_def]
    congr 1
    apply List.ext_getElem
    · rw [List.length_map, List.length_map, List.length_range', List.length_take, length_listing,
        Nat.min_eq_left hk]
    · intro i hi hi'
      rw [List.length_map, List.length_range'] at hi
      obtain ⟨name, hin, -, hcut⟩ := hslot i (by omega)
      rw [List.getElem_map, List.getElem_map, List.getElem_range', Nat.zero_add, Nat.one_mul, hcut,
        List.getElem_take, (List.getElem?_eq_some_iff.mp hin).2]
      rfl
  have hfits : ∀ i, i < (img.mounted dentries inodes names).numDentries.toNat →
      0 < strlen ((img.mounted dentries inodes names).dentries i).filename ∧
        strlen ((img.mounted dentries inodes names).dentries i).filename < 32 := by
    intro i hi
    obtain ⟨name, -, hpos, hcut⟩ := hslot i hi
    have hlen := congrArg List.length hcut
    rw [length_string, List.length_take, length_string] at hlen
    omega
  have henough : (img.mounted dentries inodes names).numDentries.toNat < rounds :=
    hcount.symm ▸ hrounds
  obtain ⟨hall, hfails⟩ := ls_names ho env currTerm pid buf write hfits henough mem
  constructor
  · intro hwrite
    have htake : (listing dir).take ((kept dir).length + 1) = listing dir :=
      List.take_of_length_le (Nat.le_of_eq (length_listing dir))
    rw [hall fun i hi => hwrite i (by omega), hcount, hlines _ (Nat.le_refl _), htake]
  · intro k hk hwrite hfail
    rw [hfails k (by omega) hwrite hfail, hlines k (by omega)]

/-- The program on the image with one file. -/
theorem ls_lists_oneByte : ∃ out st fdData, main oneByte (fun _ _ _ => 0) [0, 0] = some out ∧
    initFromMemoryAddress (moduleOf out) (fun _ => ⟨fun _ => 0, 0, 0⟩)
      (fun _ => ⟨0, fun _ => 0, 0⟩) = .ok st ∧
    st.openFile ⟨0, 0, fun _ => ⟨fun _ => 0, 0, 0⟩, 0, 0⟩ (cstring [0x2E]) = .ok (some fdData) ∧
    ls st.toKissFS ⟨fun _ => 0, none, false, false, fun _ => false, none⟩ none 0 0 (fun _ => 1) 3 0
      ⟨0, .kissFS fdData⟩ (fun _ => 0) = some (0, [0x2E, 0x0A, 0x61, 0x0A]) := by
  obtain ⟨out, hmain, hlen⟩ := main_oneByte
  have hkept := kept_oneByte
  obtain ⟨st, hinit, hlist⟩ := ls_lists hmain (by rw [hkept]; decide)
    (by rw [hkept]; exact ⟨_, List.mem_singleton_self _, by decide⟩)
    (by rw [hkept]; intro e he; obtain rfl := List.mem_singleton.mp he; decide +kernel)
    (by rw [hkept]; intro e he; obtain rfl := List.mem_singleton.mp he; decide)
    (loaded_moduleOf (by rw [hlen]; decide)) (fun _ => ⟨fun _ => 0, 0, 0⟩)
      (fun _ => ⟨0, fun _ => 0, 0⟩)
  obtain ⟨fdData, hopen, hls⟩ :=
    hlist ⟨0, 0, fun _ => ⟨fun _ => 0, 0, 0⟩, 0, 0⟩ (cstring [0x2E]) (by decide)
  refine ⟨out, st, fdData, hmain, hinit, hopen, ?_⟩
  rw [(hls _ none 0 0 _ _ 3 (by rw [hkept]; decide)).1 fun _ _ => by decide, listing, hkept]
  decide +kernel

end CreateFs

end TedkOS.Fs
