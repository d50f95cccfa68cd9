/-
  The path `open` looks up (fs/filesystem.cpp, `Dispatcher::open`).

  1. **Path.**  A name that starts with '/' is used as it is, "rtc" stands for "/dev/rtc", and any
     other name is copied behind a '/' into a local buffer of 70 bytes.  `strncpy` fills the 69
     bytes left and terminates only shorter names, so the path ends in the buffer up to 68
     characters (`holdsString_iff`).
  2. **Mount.**  The prefix tree finds the mount point, "/" or "/dev/", and the file system gets the
     rest of the path (`lookUp_right_iff`).

  `OpensRight` says that both go right; `opensRight_iff` is the condition on the name.
-/
import TedkOS.Fs.KissFS
import TedkOS.Klibs.PrefixTree

namespace TedkOS.Fs

open Klibs Checked

/-- The file systems; an `AbstractFS *` is `none` if null. -/
inductive AbstractFS where
  | kissFS
  | devFS
deriving DecidableEq

def slash : BitVec 8 := 0x2f
def rtc : List (BitVec 8) := [0x72, 0x74, 0x63]
def devPrefix : List (BitVec 8) := [0x2f, 0x64, 0x65, 0x76, 0x2f]

/-- The calls of `mount` in `mountAll`. -/
def mountPoints : List ((Nat → BitVec 8) × Option AbstractFS) :=
  [(cstring [slash], some .kissFS), (cstring devPrefix, some .devFS)]

/-- `lookup` after `mountAll`. -/
def mountAll : Except TreeFault (PrefixTree (Option AbstractFS)) := PrefixTree.build mountPoints

/-- The buffer `goodName` after its initialization; behind it lies the rest of the stack. -/
def goodName (stack : Nat → BitVec 8) : Nat → BitVec 8 := fun j =>
  if j = 0 then slash else if j < 70 then 0 else stack j

/-- What `fn` points to when the lookup starts. -/
def pathFor (stack filename : Nat → BitVec 8) : Nat → BitVec 8 :=
  -- Patch: support accessing rtc without fs root
  let fn := if strncmp filename (cstring rtc) 4 = 0 then cstring (devPrefix ++ rtc) else filename
  -- Patch #2: append slash in front of raw path
  if fn 0 ≠ slash then contents (goodName stack) (memcpy 1 (strncpy fn 69)) else fn

/-- The rest of `open`: the file system, and the name it is called with; `none` is the result
    `false` of a path under no mount point. -/
def lookUp (lookup : PrefixTree (Option AbstractFS)) (fn : Nat → BitVec 8) :
    Except TreeFault (Option (AbstractFS × (Nat → BitVec 8))) := do
  let x ← lookup.search fn
  match x.val with
  | none => return none
  -- Skip over x.len characters, trimming the mount point from fs
  | some fs => return some (fs, fun j => fn (x.len + j))

/-- `Dispatcher::open`, up to the call of the file system's own `open`. -/
def openFile (lookup : PrefixTree (Option AbstractFS)) (stack filename : Nat → BitVec 8) :
    Except TreeFault (Option (AbstractFS × (Nat → BitVec 8))) :=
  lookUp lookup (pathFor stack filename)

/-! ## What is to be looked up -/

/-- The path a name stands for; 70 bytes hold a path of 69 characters. -/
def fullPath (name : List (BitVec 8)) : List (BitVec 8) :=
  if name.head? = some slash then name
  else if name = rtc then devPrefix ++ rtc
  else slash :: name.take 68

/-- No byte from 128 on follows where a mount point could still go on. -/
def NoHighByte (path : List (BitVec 8)) : Prop :=
  ∀ i c, path[i]? = some c → (∃ mp ∈ mountPoints, path.take i <+: string mp.1) → c.toNat < 128

/-- The file system `fs` is called with what follows the mount point in the path. -/
def Passes (path mountPoint : List (BitVec 8)) (fs : AbstractFS)
    (r : Except TreeFault (Option (AbstractFS × (Nat → BitVec 8)))) : Prop :=
  ∃ name, r = .ok (some (fs, name)) ∧ HoldsString name (path.drop mountPoint.length)

/-- `open` looks up the path of the name: the path is in memory with its NUL, `strlen` ends there,
    and the file system of the longest mount point gets the rest of it.  None of that depends on
    what lies behind the NUL. -/
structure OpensRight (stack filename : Nat → BitVec 8) : Prop where
  path : HoldsString (pathFor stack filename) (fullPath (string filename))
  ends : strlen (pathFor stack filename) = (fullPath (string filename)).length
  passes : ∃ lookup w fs, mountAll = .ok lookup ∧
    Trie.IsLongest (lastInserted mountPoints) (fullPath (string filename)) w (some fs) ∧
    Passes (fullPath (string filename)) w fs (openFile lookup stack filename) ∧
    ∀ fn, HoldsString fn (fullPath (string filename)) →
      Passes (fullPath (string filename)) w fs (lookUp lookup fn)

/-! ## The path -/

section Path

variable {filename : Nat → BitVec 8} (hname : strlen filename < 0x100000000)
include hname

/-- The comparison of four characters takes in the NUL of "rtc". -/
theorem strncmp_rtc : strncmp filename (cstring rtc) 4 = 0 ↔ string filename = rtc := by
  have hlen : strlen (cstring rtc) = 3 :=
    (holdsString_cstring rtc).strlen_eq (by decide) (by decide)
  have hstring : string (cstring rtc) = rtc := string_cstring (by decide) (by decide)
  rw [strncmp_eq_zero_iff_string hname (by rw [hlen]; decide) (by rw [hlen]; decide), hstring]

theorem head_string : (string filename).head? = some slash ↔ filename 0 = slash := by
  rw [List.head?_eq_getElem?]
  rcases Nat.eq_zero_or_pos (strlen filename) with h0 | hpos
  · have hnul := (strlen_spec hname).2
    rw [h0] at hnul
    rw [List.getElem?_eq_none (by rw [length_string, h0]), hnul]
    decide
  · rw [getElem_string hpos]
    exact ⟨Option.some.inj, congrArg some⟩

/-- A name with a slash, and "rtc", need no buffer. -/
theorem pathFor_slash (stack : Nat → BitVec 8) (hslash : (string filename).head? = some slash) :
    pathFor stack filename = filename := by
  have hrtc : ¬ string filename = rtc := by
    intro heq
    rw [heq] at hslash
    exact absurd hslash (by decide)
  rw [pathFor, if_neg (fun h => hrtc ((strncmp_rtc hname).mp h))]
  exact if_neg fun h => h ((head_string hname).mp hslash)

theorem pathFor_rtc (stack : Nat → BitVec 8) (hrtc : string filename = rtc) :
    pathFor stack filename = cstring (devPrefix ++ rtc) := by
  rw [pathFor, if_pos ((strncmp_rtc hname).mpr hrtc)]
  exact if_neg fun h => h rfl

/-- Any other name is copied. -/
theorem pathFor_raw (stack : Nat → BitVec 8) (hslash : ¬ (string filename).head? = some slash)
    (hrtc : ¬ string filename = rtc) :
    pathFor stack filename = contents (goodName stack) (memcpy 1 (strncpy filename 69)) := by
  rw [pathFor, if_neg (fun h => hrtc ((strncmp_rtc hname).mp h))]
  exact if_pos fun h => hslash ((head_string hname).mpr h)

/-- The buffer after the copy. -/
theorem goodName_apply (stack : Nat → BitVec 8) {j : Nat} (hj : j < 70) :
    contents (goodName stack) (memcpy 1 (strncpy filename 69)) j =
      if j = 0 then slash else if j - 1 < strlen filename then filename (j - 1) else 0 := by
  cases j with
  | zero => exact contents_of_lt (goodName stack) _ Nat.one_pos
  | succ j =>
    have hcopy := @contents_memcpy (goodName stack) (strncpy filename 69) 1 _ _
      (getElem_strncpy hname (show j < 69 by omega))
    rw [show 1 + j = j + 1 by omega] at hcopy
    rw [if_neg (Nat.succ_ne_zero j)]
    exact hcopy

/-- **The path is in memory, with its NUL,** exactly if the name needs no buffer or is short enough
    for it. -/
theorem holdsString_iff (stack : Nat → BitVec 8) :
    HoldsString (pathFor stack filename) (fullPath (string filename)) ↔
      (string filename).head? = some slash ∨ string filename = rtc ∨
      (string filename).length ≤ 68 := by
  by_cases hslash : (string filename).head? = some slash
  · rw [pathFor_slash hname stack hslash, fullPath, if_pos hslash]
    exact ⟨fun _ => .inl hslash, fun _ => holdsString_string hname⟩
  rw [or_iff_right hslash]
  by_cases hrtc : string filename = rtc
  · rw [pathFor_rtc hname stack hrtc, fullPath, if_neg hslash, if_pos hrtc]
    exact ⟨fun _ => .inl hrtc, fun _ => holdsString_cstring _⟩
  rw [or_iff_right hrtc, pathFor_raw hname stack hslash hrtc, fullPath, if_neg hslash, if_neg hrtc,
    length_string]
  have hlen : (slash :: (string filename).take 68).length = 1 + min 68 (strlen filename) := by
    rw [List.length_cons, List.length_take, length_string]
    omega
  constructor
  · intro h
    apply Nat.le_of_not_lt
    intro hlong
    -- the last byte of the buffer is a character
    have hnul := h.nul
    rw [hlen, goodName_apply hname stack (by omega), if_neg (by omega), if_pos (by omega)] at hnul
    exact (strlen_spec hname).1 _ (by omega) hnul
  · intro hshort j hj
    rw [hlen] at hj
    rw [goodName_apply hname stack (by omega)]
    cases j with
    | zero => rfl
    | succ j =>
      have hchars := holdsString_string hname j (by rw [length_string]; omega)
      rw [if_neg (Nat.succ_ne_zero j), List.take_of_length_le (by rw [length_string]; exact hshort)]
      show (if j < strlen filename then filename j else 0) = cstring (string filename) j
      rw [← hchars]
      split
      · rfl
      · rw [show j = strlen filename by omega, (strlen_spec hname).2]

/-- A path has no NUL inside and a length of its own. -/
theorem fullPath_string : (∀ c ∈ fullPath (string filename), c ≠ 0) ∧
    (fullPath (string filename)).length < 0x100000000 := by
  have hchars := string_ne_zero hname
  rw [fullPath]
  split
  · rw [length_string]
    exact ⟨hchars, hname⟩
  split
  · decide
  · constructor
    · intro c hc
      rcases List.mem_cons.mp hc with rfl | hc
      · decide
      · exact hchars c (List.mem_of_mem_take hc)
    · rw [List.length_cons, List.length_take]
      omega

end Path

/-- Every path starts at the root. -/
theorem slash_prefix_fullPath (name : List (BitVec 8)) : [slash] <+: fullPath name := by
  rw [fullPath]
  split
  · next h =>
    obtain ⟨rest, rfl⟩ := List.head?_eq_some_iff.mp h
    exact List.prefix_append [slash] rest
  split
  · exact List.prefix_append [slash] _
  · exact List.prefix_append [slash] _

/-! ## The mount point -/

/-- What is stored under a word is a file system. -/
theorem lastInserted_mountPoints {w : List (BitVec 8)} {v : Option AbstractFS}
    (h : lastInserted mountPoints w = some v) : ∃ fs, v = some fs := by
  obtain ⟨mp, hmp, -, rfl⟩ := Updates.lastValue_mem h
  rw [mountPoints, List.mem_cons, List.mem_singleton] at hmp
  rcases hmp with rfl | rfl
  · exact ⟨_, rfl⟩
  · exact ⟨_, rfl⟩

/-- The tree `mountAll` leaves. -/
theorem mountAll_built : ∃ lookup words, mountAll = .ok lookup ∧
    Built lookup.root words (lastInserted mountPoints) lookup.pool ∧
    ∀ w, w ∈ words ↔ ∃ mp ∈ mountPoints, w <+: string mp.1 := by
  obtain ⟨lookup, words, hbuild, hb, hwords⟩ :=
    PrefixTree.build_built mountPoints (by decide +kernel) (by decide +kernel)
  refine ⟨lookup, words, hbuild, hb, fun w => ?_⟩
  rw [hwords, mem_treeWords]
  apply or_iff_right_of_imp
  rintro rfl
  exact ⟨_, List.mem_cons_self, List.nil_prefix⟩

section Mount

variable {lookup : PrefixTree (Option AbstractFS)} {words : List (List (BitVec 8))}
  {path : List (BitVec 8)} {fn : Nat → BitVec 8}

/-- What the search looks up, in terms of the path. -/
theorem looksUp_iff (hwords : ∀ w, w ∈ words ↔ ∃ mp ∈ mountPoints, w <+: string mp.1)
    (hfn : HoldsString fn path) (hchars : ∀ c ∈ path, c ≠ 0) (hlen : path.length < 0x100000000) :
    (∀ i, i < strlen fn → bytesFrom fn 0 i ∈ words → (fn i).toNat < 128) ↔ NoHighByte path := by
  rw [hfn.strlen_eq hchars hlen]
  constructor
  · intro h i c hc hmp
    obtain ⟨hi, hic⟩ := List.getElem?_eq_some_iff.mp hc
    rw [← hic, ← hfn.char hi]
    apply h i hi
    rw [hwords, hfn.bytesFrom_eq (Nat.le_of_lt hi)]
    exact hmp
  · intro h i hi hin
    rw [hwords, hfn.bytesFrom_eq (Nat.le_of_lt hi)] at hin
    rw [hfn.char hi]
    exact h i _ (List.getElem?_eq_getElem hi) hin

/-- **The lookup of a path** without a high byte: whatever lies behind it, the file system mounted
    at its longest mount point gets the rest. -/
theorem lookUp_right (hb : Built lookup.root words (lastInserted mountPoints) lookup.pool)
    (hwords : ∀ w, w ∈ words ↔ ∃ mp ∈ mountPoints, w <+: string mp.1)
    (hchars : ∀ c ∈ path, c ≠ 0) (hlen : path.length < 0x100000000) (hslash : [slash] <+: path)
    (hlow : NoHighByte path) :
    ∃ w fs, Trie.IsLongest (lastInserted mountPoints) path w (some fs) ∧
      ∀ fn, HoldsString fn path →
      lookUp lookup fn = .ok (some (fs, fun j => fn (w.length + j))) := by
  have hfinds := hb.findsLongest (by decide +kernel) (cstring path)
  rw [string_cstring hchars hlen] at hfinds
  rcases hfinds with ⟨w, v, hlong, hr⟩ | ⟨hnone, -⟩
  · rw [string_cstring hchars hlen] at hlong
    obtain ⟨fs, rfl⟩ := lastInserted_mountPoints hlong.value
    refine ⟨w, fs, hlong, fun fn hfn => ?_⟩
    have hsearch := (PrefixTree.search_exactly hb fn).succeeds
      ((looksUp_iff hwords hfn hchars hlen).mpr hlow)
    rw [hfn.string_eq hchars hlen, hr] at hsearch
    rw [lookUp, hsearch]
    rfl
  · -- the root is always a mount point
    have hno := hnone _
      (List.mem_cons_self : (cstring [slash], some AbstractFS.kissFS) ∈ mountPoints)
    rw [string_cstring (by decide) (by decide), string_cstring hchars hlen] at hno
    exact absurd hslash hno

/-- A lookup that gets through has met no high byte. -/
theorem noHighByte_of_lookUp (hb : Built lookup.root words (lastInserted mountPoints) lookup.pool)
    (hwords : ∀ w, w ∈ words ↔ ∃ mp ∈ mountPoints, w <+: string mp.1) (hfn : HoldsString fn path)
    (hchars : ∀ c ∈ path, c ≠ 0) (hlen : path.length < 0x100000000)
    {r : Option (AbstractFS × (Nat → BitVec 8))} (hr : lookUp lookup fn = .ok r) :
    NoHighByte path := by
  apply (looksUp_iff hwords hfn hchars hlen).mp
  by_contra hhigh
  obtain ⟨e, he⟩ := (PrefixTree.search_exactly hb fn).fails hhigh
  rw [lookUp, he] at hr
  cases hr

end Mount

/-- **`open` looks up the right path** exactly if the name needs no buffer or has at most 68
    characters, and the path has no byte from 128 on where a mount point could still go on. -/
theorem opensRight_iff (stack : Nat → BitVec 8) {filename : Nat → BitVec 8}
    (hname : strlen filename < 0x100000000) :
    OpensRight stack filename ↔
      ((string filename).head? = some slash ∨ string filename = rtc ∨
        (string filename).length ≤ 68) ∧ NoHighByte (fullPath (string filename)) := by
  obtain ⟨hchars, hlen⟩ := fullPath_string hname
  obtain ⟨lookup, words, hmount, hb, hwords⟩ := mountAll_built
  constructor
  · intro h
    refine ⟨(holdsString_iff hname stack).mp h.path, ?_⟩
    obtain ⟨lookup', w, fs, hmount', -, ⟨name, hopen, -⟩, -⟩ := h.passes
    rw [hmount] at hmount'
    cases hmount'
    exact noHighByte_of_lookUp hb hwords h.path hchars hlen hopen
  · rintro ⟨hfits, hlow⟩
    have hpath := (holdsString_iff hname stack).mpr hfits
    obtain ⟨w, fs, hlong, hopens⟩ :=
      lookUp_right hb hwords hchars hlen (slash_prefix_fullPath _) hlow
    constructor
    case path => exact hpath
    case ends => exact hpath.strlen_eq hchars hlen
    case passes =>
      have hpasses : ∀ fn, HoldsString fn (fullPath (string filename)) →
          Passes (fullPath (string filename)) w fs (lookUp lookup fn) :=
        fun fn hfn => ⟨_, hopens fn hfn, hfn.drop hlong.starts.length_le⟩
      exact ⟨lookup, w, fs, hmount, hlong, hpasses _ hpath, hpasses⟩

/-- `"frame0"`, a file in the root. -/
theorem opensRight_frame0 :
    OpensRight (fun _ => 0xcc) (cstring [0x66, 0x72, 0x61, 0x6d, 0x65, 0x30]) := by
  have hlen : strlen (cstring [0x66, 0x72, 0x61, 0x6d, 0x65, 0x30]) = 6 :=
    (holdsString_cstring _).strlen_eq (by decide) (by decide)
  apply (opensRight_iff _ (by rw [hlen]; decide)).mpr
  rw [string_cstring (by decide) (by decide)]
  refine ⟨.inr (.inr (by decide)), fun i c hc _ => ?_⟩
  have hlow : ∀ c ∈ fullPath [0x66, 0x72, 0x61, 0x6d, 0x65, 0x30], c.toNat < 128 := by decide
  exact hlow c (List.mem_of_getElem? hc)

/-- A name of 69 characters fills the buffer. -/
theorem longPath_unterminated :
    ¬ OpensRight (fun _ => 0xcc) (cstring (List.replicate 69 0x61)) := by
  intro h
  have hlen : strlen (cstring (List.replicate 69 0x61)) = 69 :=
    (holdsString_cstring _).strlen_eq (by decide) (by decide)
  have hfits := (holdsString_iff (by rw [hlen]; decide) _).mp h.path
  rw [string_cstring (by decide) (by decide)] at hfits
  exact absurd hfits (by decide)

end TedkOS.Fs
