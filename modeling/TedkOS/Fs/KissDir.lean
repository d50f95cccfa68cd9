/-
  Listing a directory (fs/kissfs.cpp, `readDir`): one call gives one name.

  Each call copies the next name with `strncpy`, which writes a terminator only if the name is
  SHORTER than the buffer, and takes `strlen` of the buffer as its result.  So the bytes are always
  the right ones, and nothing outside the buffer is written; the count is right exactly if
    1. the name is shorter than the buffer, or
    2. the byte behind the buffer, which the caller did not hand over, happens to be 0.
  Otherwise `strlen` runs on behind the buffer.

  A run over a directory is a list of calls; the `k`-th one is about the `k`-th entry
  (`readCalls_getElem`).
-/
import TedkOS.Fs.KissCalls
import TedkOS.Fs.KissRead

namespace TedkOS.Fs

open Klibs Checked

/-- One `read` of a directory: what memory holds from `buf` on, the file's offset, and `len`. -/
structure DirCall where
  mem : Nat → BitVec 8
  offset : BitVec 32
  len : BitVec 32

/-- The calls one after the other, each on the state the one before left. -/
def KissFS.readCalls (fs : KissFS) : KissFileDescriptorData → List DirCall →
    List (Outcome KissFileDescriptorData)
  | _, [] => []
  | data, c :: calls =>
    let out := fs.read data c.mem c.offset c.len
    out :: readCalls fs out.next calls

/-- A call gives a name: it stays in the buffer, and delivers as much of the name as fits and that
    count. -/
structure GivesName (filename : Nat → BitVec 8) (c : DirCall)
    (out : Outcome KissFileDescriptorData) :
    Prop where
  /-- Nothing is written behind the buffer. -/
  inside : ∀ store ∈ out.stores, store.1 < c.len.toNat
  /-- The buffer has the name, as far as there is room, -/
  bytes : ∀ j, j < min c.len.toNat (strlen filename) → contents c.mem out.stores j = filename j
  /-- and that is the result. -/
  count : out.ret = .value (BitVec.ofNat 32 (min c.len.toNat (strlen filename)))

/-- The `k`-th call gives the name of the `k`-th entry, and the calls after the last entry return
    0. -/
structure ListsEntries (st : KissState) (data : KissFileDescriptorData) (calls : List DirCall) :
    Prop where
  /-- The `k`-th call gives the name of the `k`-th entry; -/
  entry : ∀ (k : Nat) c out, calls[k]? = some c →
    (st.toKissFS.readCalls data calls)[k]? = some out → k < st.numDentries.toNat →
    GivesName (st.dentries k).filename c out
  /-- after the last one the calls return 0. -/
  finished : ∀ (k : Nat) out, (st.toKissFS.readCalls data calls)[k]? = some out →
    st.numDentries.toNat ≤ k → out.ret = .value 0

/-- `filename` is the name of a directory entry. -/
def IsDirectory (st : KissState) (filename : Filename) : Prop :=
  ∃ dentryIdx, st.lookup filename = .ok (some dentryIdx) ∧
    (st.dentries dentryIdx.toNat).filetype.toNat = DIRECTORY

/-! ## The count

  `strncpy` pads with NULs if there is room for one.  Otherwise `strlen` goes on to the byte
  behind the buffer, and the count is right only if that happens to be 0. -/

/-- **The buffer after the copy**: the name, then padding, then what was behind the buffer
    before. -/
theorem contents_strncpy {filename : Nat → BitVec 8} (hname : strlen filename ≤ MaxFilenameLength)
    (mem : Nat → BitVec 8) (n j : Nat) :
    contents mem (memcpy 0 (strncpy filename n)) j =
      if j < n then if j < strlen filename then filename j else 0 else mem j := by
  have hlt : strlen filename < 0x100000000 := by
    unfold MaxFilenameLength at hname
    omega
  by_cases hj : j < n
  · have hcopy := @contents_memcpy mem (strncpy filename n) 0 _ _ (getElem_strncpy hlt hj)
    rw [Nat.zero_add] at hcopy
    rw [hcopy, if_pos hj]
  · rw [if_neg hj]
    apply contents_beyond
    rw [length_strncpy]
    omega

/-- **The count of one call.**  It is the part of the name that fits exactly if the copy is
    terminated: by padding, or by a zero that lay behind the buffer. -/
theorem strlen_copy_iff {filename : Nat → BitVec 8} (hname : strlen filename ≤ MaxFilenameLength)
    (mem : Nat → BitVec 8) {len : BitVec 32} (hlen : 0 < len.toNat) :
    BitVec.ofNat 32 (strlen (contents mem (memcpy 0 (strncpy filename len.toNat)))) =
        BitVec.ofNat 32 (min len.toNat (strlen filename)) ↔
      strlen filename < len.toNat ∨ mem len.toNat = 0 := by
  have hlt : strlen filename < 0x100000000 := by
    unfold MaxFilenameLength at hname
    omega
  obtain ⟨hchars, hend⟩ := strlen_spec hlt
  have hbuf := contents_strncpy hname mem len.toNat
  by_cases hshort : strlen filename < len.toNat
  · have hcount :
        strlen (contents mem (memcpy 0 (strncpy filename len.toNat))) = strlen filename := by
      apply strlen_eq hlt
      · intro j hj
        rw [hbuf, if_pos (by omega), if_pos hj]
        exact hchars j hj
      · rw [hbuf, if_pos hshort, if_neg (Nat.lt_irrefl _)]
    rw [hcount, Nat.min_eq_right (by omega)]
    exact ⟨fun _ => .inl hshort, fun _ => rfl⟩
  · have hcopied : ∀ j, j < len.toNat →
        contents mem (memcpy 0 (strncpy filename len.toNat)) j ≠ 0 := by
      intro j hj
      rw [hbuf, if_pos hj, if_pos (by omega)]
      exact hchars j (by omega)
    have hbehind :
        contents mem (memcpy 0 (strncpy filename len.toNat)) len.toNat = mem len.toNat := by
      rw [hbuf, if_neg (Nat.lt_irrefl _)]
    rw [Nat.min_eq_left (by omega)]
    constructor
    · intro hcount
      by_cases hzero : mem len.toNat = 0
      · exact .inr hzero
      · -- the scan passes the end of the buffer
        have hgt := @strlen_gt (contents mem (memcpy 0 (strncpy filename len.toNat)))
          len.toNat len.isLt
          (fun j hj => by
            rcases Nat.eq_or_lt_of_le hj with rfl | hj
            · rw [hbehind]
              exact hzero
            · exact hcopied j hj)
        have hle := strlen_le (contents mem (memcpy 0 (strncpy filename len.toNat)))
        have hmod := congrArg BitVec.toNat hcount
        rw [BitVec.toNat_ofNat, BitVec.toNat_ofNat] at hmod
        have := len.isLt
        omega
    · rintro (h | hzero)
      · exact absurd h hshort
      · rw [strlen_eq len.isLt hcopied (hbehind.trans hzero)]

/-! ## A run over the directory

  The descriptor keeps an index, which each call moves on by one until the directory is finished.
   By induction the call number `k` is about the entry number `k`, so what a run gives is known
  from each call alone. -/

/-- The descriptor after `k` more calls. -/
def KissFileDescriptorData.after (data : KissFileDescriptorData) (k : Nat) :
    KissFileDescriptorData :=
  { data with idx := BitVec.ofNat 32 (min (data.idx.toNat + k) data.max.toNat) }

namespace KissFileDescriptorData

variable {data : KissFileDescriptorData}

/-- The index goes up by one a call, as far as the last. -/
theorem toNat_after_idx (data : KissFileDescriptorData) (k : Nat) :
    (data.after k).idx.toNat = min (data.idx.toNat + k) data.max.toNat := by
  show (BitVec.ofNat 32 _).toNat = _
  rw [BitVec.toNat_ofNat]
  apply Nat.mod_eq_of_lt
  have := data.max.isLt
  omega

/-- After no call the file is as it was, if its index is in range. -/
theorem after_zero (h : data.idx ≤ data.max) : data.after 0 = data := by
  have hidx : (data.after 0).idx = data.idx := by
    apply BitVec.eq_of_toNat_eq
    rw [toNat_after_idx]
    have := BitVec.le_def.mp h
    omega
  show { data with idx := (data.after 0).idx } = data
  rw [hidx]

/-- One call goes on to the next entry. -/
theorem read_next (fs : KissFS) (hdir : data.filetype.toNat = DIRECTORY) (k : Nat) (c : DirCall) :
    (fs.read (data.after k) c.mem c.offset c.len).next = data.after (k + 1) := by
  have hk := toNat_after_idx data k
  have hk' := toNat_after_idx data (k + 1)
  rw [KissFS.read, if_pos (show (data.after k).filetype.toNat = DIRECTORY from hdir),
    KissFS.readDir]
  by_cases hend : data.max ≤ (data.after k).idx
  · rw [if_pos (show (data.after k).max ≤ (data.after k).idx from hend)]
    have hidx : (data.after k).idx = (data.after (k + 1)).idx := by
      apply BitVec.eq_of_toNat_eq
      have := BitVec.le_def.mp hend
      omega
    show { data with idx := (data.after k).idx } = data.after (k + 1)
    rw [hidx]
    rfl
  · rw [if_neg (show ¬ (data.after k).max ≤ (data.after k).idx from hend)]
    have hidx : (data.after k).idx + 1 = (data.after (k + 1)).idx := by
      apply BitVec.eq_of_toNat_eq
      have hlt := BitVec.lt_def.mp (BitVec.not_le.mp hend)
      have := data.max.isLt
      rw [BitVec.toNat_add]
      show ((data.after k).idx.toNat + 1) % _ = _
      omega
    show { data with idx := (data.after k).idx + 1 } = data.after (k + 1)
    rw [hidx]
    rfl

/-- The `k`-th call of a run. -/
theorem readCalls_getElem (fs : KissFS) (hdir : data.filetype.toNat = DIRECTORY)
    (calls : List DirCall) (i k : Nat) :
    (fs.readCalls (data.after i) calls)[k]? =
      calls[k]?.map fun c => fs.read (data.after (i + k)) c.mem c.offset c.len := by
  induction calls generalizing i k with
  | nil => rfl
  | cons c calls ih =>
    rw [KissFS.readCalls]
    cases k with
    | zero => rfl
    | succ k =>
      rw [List.getElem?_cons_succ, List.getElem?_cons_succ, read_next fs hdir i c, ih,
        show i + 1 + k = i + (k + 1) by omega]

end KissFileDescriptorData

/-- What `open` gives for a directory. -/
structure OpenedDirectory (st : KissState) (fdData : KissFileDescriptorData) : Prop where
  filetype : fdData.filetype.toNat = DIRECTORY
  /-- Its entries are those of the file system, -/
  base : fdData.base = st.dentries
  /-- and it begins with the first. -/
  idx : fdData.idx = 0
  max : fdData.max = st.numDentries

/-- Opening a name that leads to a directory entry. -/
theorem openFile_directory {st : KissState} {data fdData : KissFileDescriptorData}
    {filename : Filename} (hdir : IsDirectory st filename)
    (hopen : st.openFile data filename = .ok (some fdData)) :
    OpenedDirectory st fdData := by
  obtain ⟨dentryIdx, hlookup, htype⟩ := hdir
  rw [KissState.openFile, hlookup, ok_bind] at hopen
  dsimp only at hopen
  cases hat : st.dentryAt dentryIdx with
  | error e =>
    rw [hat] at hopen
    cases hopen
  | ok dentry =>
    obtain ⟨-, rfl⟩ := (KissState.dentryAt_exactly st dentryIdx).ok_iff.mp hat
    rw [hat, ok_bind, if_pos htype] at hopen
    cases hopen
    refine ⟨?_, rfl, rfl, rfl⟩
    show (BitVec.setWidth 8 _).toNat = DIRECTORY
    rw [BitVec.toNat_setWidth, htype]
    rfl

/-- **One call**, with an entry left: it gives the name exactly if the count is right. -/
theorem givesName_iff (fs : KissFS) {data : KissFileDescriptorData}
    (hdir : data.filetype.toNat = DIRECTORY) (hleft : data.idx < data.max)
    (hname : strlen (data.base data.idx.toNat).filename ≤ MaxFilenameLength) {c : DirCall}
    (hlen : 0 < c.len.toNat) :
    GivesName (data.base data.idx.toNat).filename c (fs.read data c.mem c.offset c.len) ↔
      strlen (data.base data.idx.toNat).filename < c.len.toNat ∨ c.mem c.len.toNat = 0 := by
  rw [KissFS.read, if_pos hdir, KissFS.readDir, if_neg (BitVec.not_le.mpr hleft)]
  constructor
  · intro h
    exact (strlen_copy_iff hname c.mem hlen).mp (Ret.value.inj h.count)
  · intro h
    constructor
    case inside =>
      intro store hstore
      have hcover := Covers.memcpy (strncpy (data.base data.idx.toNat).filename c.len.toNat)
      rw [length_strncpy] at hcover
      exact (hcover store.1).mp ⟨store.2, hstore⟩
    case bytes =>
      intro j hj
      show contents c.mem (memcpy 0 _) j = _
      rw [contents_strncpy hname, if_pos (by omega), if_pos (by omega)]
    case count =>
      exact congrArg Ret.value ((strlen_copy_iff hname c.mem hlen).mpr h)

/-- A call after the last entry. -/
theorem read_finished (fs : KissFS) {data : KissFileDescriptorData}
    (hdir : data.filetype.toNat = DIRECTORY) (hend : data.max ≤ data.idx) (c : DirCall) :
    (fs.read data c.mem c.offset c.len).ret = .value 0 := by
  rw [KissFS.read, if_pos hdir, KissFS.readDir, if_pos hend]

namespace OpenedDirectory

variable {st : KissState} {fdData : KissFileDescriptorData} (ho : OpenedDirectory st fdData)
include ho

/-- The entry the `k`-th call looks at. -/
theorem toNat_idx (k : Nat) : (fdData.after k).idx.toNat = min k st.numDentries.toNat := by
  rw [KissFileDescriptorData.toNat_after_idx, ho.idx, ho.max]
  show min (0 + k) _ = _
  rw [Nat.zero_add]

/-- An opened directory begins with its first entry. -/
theorem after_zero : fdData.after 0 = fdData := by
  apply KissFileDescriptorData.after_zero
  rw [ho.idx]
  exact BitVec.le_def.mpr (Nat.zero_le _)

/-- Of an opened directory the `k`-th call is one after `k` others. -/
theorem readCalls_getElem (calls : List DirCall) (k : Nat) :
    (st.toKissFS.readCalls fdData calls)[k]? =
      calls[k]?.map fun c => st.toKissFS.read (fdData.after k) c.mem c.offset c.len := by
  have h := KissFileDescriptorData.readCalls_getElem st.toKissFS ho.filetype calls 0 k
  rw [ho.after_zero, Nat.zero_add] at h
  exact h

/-- The `k`-th call gives the name of the `k`-th entry exactly if there is room for a terminator, or
    a zero behind the buffer. -/
theorem givesName_iff {k : Nat} (hk : k < st.numDentries.toNat)
    (hname : strlen (st.dentries k).filename ≤ MaxFilenameLength) {c : DirCall}
    (hlen : 0 < c.len.toNat) :
    GivesName (st.dentries k).filename c (st.toKissFS.read (fdData.after k) c.mem c.offset c.len) ↔
      strlen (st.dentries k).filename < c.len.toNat ∨ c.mem c.len.toNat = 0 := by
  have hentry : (fdData.after k).base (fdData.after k).idx.toNat = st.dentries k := by
    rw [ho.toNat_idx, Nat.min_eq_left (Nat.le_of_lt hk)]
    exact congrFun ho.base k
  have h := @Fs.givesName_iff st.toKissFS (fdData.after k) ho.filetype
  rw [hentry] at h
  apply h _ hname hlen
  apply BitVec.lt_def.mpr
  rw [ho.toNat_idx, show (fdData.after k).max = st.numDentries from ho.max]
  omega

/-- After the last entry the calls return 0. -/
theorem ret_finished {k : Nat} (hk : st.numDentries.toNat ≤ k) (c : DirCall) :
    (st.toKissFS.read (fdData.after k) c.mem c.offset c.len).ret = .value 0 := by
  have hdir : (fdData.after k).filetype.toNat = DIRECTORY := ho.filetype
  apply read_finished st.toKissFS hdir
  apply BitVec.le_def.mpr
  rw [ho.toNat_idx, show (fdData.after k).max = st.numDentries from ho.max]
  omega

end OpenedDirectory

/-- **Listing a directory.**  The names come out right exactly if every call for an entry has room
    for a terminator, or finds one behind its buffer. -/
theorem listsEntries_iff (st : KissState)
    (hnames : ∀ i, i < st.numDentries.toNat → strlen (st.dentries i).filename ≤ MaxFilenameLength)
    {data fdData : KissFileDescriptorData} {filename : Filename} (hdir : IsDirectory st filename)
    (hopen : st.openFile data filename = .ok (some fdData)) (calls : List DirCall)
    (hlens : ∀ c ∈ calls, 0 < c.len.toNat) :
    ListsEntries st fdData calls ↔
      ∀ (k : Nat) c, calls[k]? = some c → k < st.numDentries.toNat →
        strlen (st.dentries k).filename < c.len.toNat ∨ c.mem c.len.toNat = 0 := by
  have ho := openFile_directory hdir hopen
  constructor
  · intro h k c hc hk
    have hout : (st.toKissFS.readCalls fdData calls)[k]? =
        some (st.toKissFS.read (fdData.after k) c.mem c.offset c.len) := by
      rw [ho.readCalls_getElem, hc]
      rfl
    exact (ho.givesName_iff hk (hnames k hk) (hlens c (List.mem_of_getElem? hc))).mp
      (h.entry k c _ hc hout hk)
  · intro h
    constructor
    case entry =>
      intro k c out hc hout hk
      rw [ho.readCalls_getElem, hc] at hout
      rw [← Option.some.inj hout]
      exact (ho.givesName_iff hk (hnames k hk) (hlens c (List.mem_of_getElem? hc))).mpr
        (h k c hc hk)
    case finished =>
      intro k out hout hk
      rw [ho.readCalls_getElem] at hout
      obtain ⟨c, hc, rfl⟩ := Option.map_eq_some_iff.mp hout
      exact ho.ret_finished hk c

/-- The entries are those of the image. -/
theorem mounted_dentries {img : Image} (dentries : Nat → Dentry) (inodes : Nat → Inode)
    (names : LinearProbingHashTable Filename (BitVec 32)) {i : Nat}
    (hi : i < img.numDentries.toNat) :
    (img.mounted dentries inodes names).dentries i = img.dentry i :=
  if_pos hi

/-- An entry for a directory, with a name of its own, is what opening that name finds. -/
theorem Image.opens_directory {img : Image} {dentries : Nat → Dentry} {inodes : Nat → Inode}
    {names : LinearProbingHashTable Filename (BitVec 32)}
    (hnames : Indexed img.dentry img.numDentries.toNat names) {i : Nat}
    (hi : i < img.numDentries.toNat) (hone : ∀ j, j < img.numDentries.toNat →
      Filename.chars (img.dentry j).filename = Filename.chars (img.dentry i).filename → j = i)
    (htype : (img.dentry i).filetype.toNat = DIRECTORY) (data : KissFileDescriptorData) :
    IsDirectory (img.mounted dentries inodes names) (img.dentry i).filename ∧
      ∃ fdData, (img.mounted dentries inodes names).openFile data (img.dentry i).filename =
        .ok (some fdData) := by
  obtain ⟨v, hlookup, hlt, hchars⟩ := lookup_finds dentries inodes hnames hi rfl
  have hvi := hone v.toNat hlt hchars
  constructor
  · refine ⟨v, hlookup, ?_⟩
    rw [mounted_dentries dentries inodes names hlt, hvi]
    exact htype
  · rw [KissState.openFile, hlookup, ok_bind]
    dsimp only
    rw [mounted_dentryAt (BitVec.lt_def.mpr hlt), ok_bind]
    split
    · exact ⟨_, rfl⟩
    · exact ⟨_, rfl⟩

/-- An image whose directory lists itself and a file with a name of 32 characters. -/
def longName : Image where
  bytes off :=
    if off.toNat = 0 then 2
    else if off.toNat = 4 then 1
    else if off.toNat = 64 then 0x2e
    else if off.toNat = 96 then 1
    else if 128 ≤ off.toNat ∧ off.toNat < 160 then 0x61
    else if off.toNat = 160 then 2
    else 0
  startingAddr := 0
  endingAddr := BitVec.ofNat 32 (4096 * 2)

/-- Two calls with a buffer of 32 bytes; `behind` is the byte after it. -/
def twoCalls (behind : BitVec 8) : List DirCall :=
  [⟨fun _ => 0, 0, 32⟩, ⟨fun j => if j = 32 then behind else 0, 1, 32⟩]

/-- "." and a name of 32 letters. -/
theorem strlen_longName {i : Nat} (hi : i < 2) :
    strlen (longName.dentry i).filename = if i = 0 then 1 else 32 := by
  apply strlen_eq
  · split <;> omega
  · revert i
    decide +kernel
  · revert i
    decide +kernel

/-- It mounts, and `"."` opens. -/
theorem longName_opens : ∃ st fdData,
    initFromMemoryAddress longName (fun _ => ⟨fun _ => 0, 0, 0⟩) (fun _ => ⟨0, fun _ => 0, 0⟩) =
      .ok st ∧ st.numDentries = 2 ∧ st.dentries 1 = longName.dentry 1 ∧
      (∀ i, i < st.numDentries.toNat → strlen (st.dentries i).filename ≤ MaxFilenameLength) ∧
      IsDirectory st (longName.dentry 0).filename ∧
      st.openFile ⟨0, 0, st.dentries, 0, 0⟩ (longName.dentry 0).filename = .ok (some fdData) := by
  have hwf : longName.WellFormed := by decide +kernel
  obtain ⟨names, hnames, hinit⟩ :=
    longName.init_exactly (fun _ => ⟨fun _ => 0, 0, 0⟩) (fun _ => ⟨0, fun _ => 0, 0⟩)
  have htwo : longName.numDentries = 2 := by decide +kernel
  have hone : ∀ j, j < longName.numDentries.toNat →
      Filename.chars (longName.dentry j).filename = Filename.chars (longName.dentry 0).filename →
      j = 0 := by
    decide +kernel
  have htype : (longName.dentry 0).filetype.toNat = DIRECTORY := by decide +kernel
  obtain ⟨hdir, fdData, hopen⟩ := Image.opens_directory hnames (by rw [htwo]; decide) hone htype
    ⟨0, 0, (longName.mounted (fun _ => ⟨fun _ => 0, 0, 0⟩) (fun _ => ⟨0, fun _ => 0, 0⟩)
      names).dentries, 0, 0⟩
  have hlong : 1 < longName.numDentries.toNat := by
    rw [htwo]
    decide
  refine ⟨_, fdData, hinit.succeeds hwf.initSafe, htwo, mounted_dentries _ _ _ hlong,
    fun i hi => ?_, hdir, hopen⟩
  have hi2 : i < longName.numDentries.toNat := hi
  rw [mounted_dentries _ _ _ hi2]
  rw [htwo] at hi2
  rw [strlen_longName hi2]
  unfold MaxFilenameLength
  split <;> omega

/-- With a zero behind the buffer the long name is listed. -/
theorem listsEntries_iff_longName :
    ∃ st fdData, st.numDentries = 2 ∧ ListsEntries st fdData (twoCalls 0) := by
  obtain ⟨st, fdData, -, htwo, -, hnames, hdir, hopen⟩ := longName_opens
  refine ⟨st, fdData, htwo, (listsEntries_iff st hnames hdir hopen (twoCalls 0) (by decide)).mpr ?_⟩
  intro k c hc hk
  right
  rw [htwo] at hk
  rcases k with _ | _ | k
  · rw [← Option.some.inj hc]
  · rw [← Option.some.inj hc]
    rfl
  · have hk2 : k + 1 + 1 < 2 := hk
    omega

/-- With a newline behind it, as `ls` puts one there, the count of the second call is wrong. -/
theorem longName_miscounted :
    ¬ ∀ (st : KissState) (data fdData : KissFileDescriptorData) (filename : Filename) (calls :
      List DirCall),
      (∀ i, i < st.numDentries.toNat → strlen (st.dentries i).filename ≤ MaxFilenameLength) →
      IsDirectory st filename → st.openFile data filename = .ok (some fdData) →
      (∀ c ∈ calls, 0 < c.len.toNat) → ListsEntries st fdData calls := by
  intro h
  obtain ⟨st, fdData, -, htwo, hdentry, hnames, hdir, hopen⟩ := longName_opens
  have hlists := h st _ fdData _ (twoCalls 0x0a) hnames hdir hopen (by decide)
  have ho := openFile_directory hdir hopen
  have hk : 1 < st.numDentries.toNat := by
    rw [htwo]
    decide
  have hname := hlists.entry 1 _ _ rfl (ho.readCalls_getElem (twoCalls 0x0a) 1) hk
  rcases (ho.givesName_iff hk (hnames 1 hk) (by decide)).mp hname with hshort | hzero
  · rw [hdentry, strlen_longName (by decide)] at hshort
    exact absurd hshort (by decide)
  · exact absurd hzero (by decide)

end TedkOS.Fs
