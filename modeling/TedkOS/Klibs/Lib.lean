/-
  Bytes the kernel writes through a pointer, and the byte routines of klibs/lib.cpp that write them.

  A write through `dest` is recorded as a STORE `(i, b)`: byte `b` at `dest + i`.  A routine returns
  the list of its stores, in order, so a later store to the same offset wins (`contents`).

  Most callers fill a buffer from its start.  `Covers s n` says that the offsets stored to are
  exactly `0, …, n - 1`, whatever the order and however often; it is the only thing the callers'
  proofs need.
-/
import Mathlib.Data.List.Basic

namespace TedkOS.Klibs

/-- The stores of `memcpy(dest + off, bytes, bytes.length)`. -/
def memcpy : Nat → List (BitVec 8) → List (Nat × BitVec 8)
  | _, [] => []
  | off, b :: bytes => (off, b) :: memcpy (off + 1) bytes

/-- The stores of `memset(dest + off, c, n)`. -/
def memset (off : Nat) (c : BitVec 8) (n : Nat) : List (Nat × BitVec 8) :=
  memcpy off (List.replicate n c)

/-- A 32-bit word in memory, lowest byte first. -/
def wordBytes (w : BitVec 32) : List (BitVec 8) :=
  [w.extractLsb' 0 8, w.extractLsb' 8 8, w.extractLsb' 16 8, w.extractLsb' 24 8]

/-- The bytes `strncpy` writes from index `i` on, `n` of them: the characters of `src` up to its
    NUL, then padding. -/
def strncpyLoop (src : Nat → BitVec 8) : Nat → Nat → List (BitVec 8)
  | 0, _ => []
  | n + 1, i => if src i = 0 then List.replicate (n + 1) 0 else src i :: strncpyLoop src n (i + 1)

/-- `strncpy(dest, src, n)`: always `n` bytes. -/
def strncpy (src : Nat → BitVec 8) (n : Nat) : List (BitVec 8) := strncpyLoop src n 0

def strlenLoop (s : Nat → BitVec 8) : Nat → Nat → Nat
  | 0, i => i
  | fuel + 1, i => if s i = 0 then i else strlenLoop s fuel (i + 1)

/-- `strlen(s)`; a string that ends nowhere in the address space has no shorter answer. -/
def strlen (s : Nat → BitVec 8) : Nat := strlenLoop s 0x100000000 0

/-- The `n` bytes from index `i` on. -/
def bytesFrom (s : Nat → BitVec 8) (i n : Nat) : List (BitVec 8) :=
  (List.range n).map fun j => s (i + j)

/-- The characters of a string, without its NUL. -/
def string (s : Nat → BitVec 8) : List (BitVec 8) := bytesFrom s 0 (strlen s)

def strncmpLoop (s1 s2 : Nat → BitVec 8) : Nat → Nat → BitVec 32
  | 0, _ => 0
  | n + 1, i =>
    if s1 i ≠ s2 i ∨ s1 i = 0 then (s1 i).signExtend 32 - (s2 i).signExtend 32
    else strncmpLoop s1 s2 n (i + 1)

/-- `strncmp(s1, s2, n)`; `char` is signed. -/
def strncmp (s1 s2 : Nat → BitVec 8) (n : Nat) : BitVec 32 := strncmpLoop s1 s2 n 0

/-- What memory holds after the stores. -/
def contents (mem : Nat → BitVec 8) : List (Nat × BitVec 8) → Nat → BitVec 8
  | [] => mem
  | (i, b) :: s => contents (fun j => if j = i then b else mem j) s

/-! ## Which offsets are stored to

  For the routines that write, from the list of their stores. -/

/-- `memcpy` stores to just these offsets. -/
theorem mem_memcpy {i off : Nat} {bytes : List (BitVec 8)} :
    (∃ b, (i, b) ∈ memcpy off bytes) ↔ off ≤ i ∧ i < off + bytes.length := by
  induction bytes generalizing off with
  | nil =>
    simp only [memcpy, List.not_mem_nil, exists_false, List.length_nil, false_iff]
    omega
  | cons c bytes ih =>
    simp only [memcpy, List.mem_cons, Prod.mk.injEq, List.length_cons, exists_or, exists_and_left,
      exists_eq, and_true, ih]
    omega

@[simp] theorem length_strncpyLoop (src : Nat → BitVec 8) (n i : Nat) :
    (strncpyLoop src n i).length = n := by
  induction n generalizing i with
  | zero => rfl
  | succ n ih =>
    unfold strncpyLoop
    split
    · rw [List.length_replicate]
    · rw [List.length_cons, ih]

@[simp] theorem length_strncpy (src : Nat → BitVec 8) (n : Nat) : (strncpy src n).length = n :=
  length_strncpyLoop src n 0

/-- Two copies, one behind the other. -/
theorem memcpy_append (off : Nat) (a b : List (BitVec 8)) :
    memcpy off (a ++ b) = memcpy off a ++ memcpy (off + a.length) b := by
  induction a generalizing off with
  | nil => rfl
  | cons c a ih =>
    rw [List.cons_append, memcpy, memcpy, ih, List.cons_append, List.length_cons,
      Nat.add_right_comm]
    rfl

/-- What was copied can be read off the stores. -/
theorem map_snd_memcpy (off : Nat) (bytes : List (BitVec 8)) :
    (memcpy off bytes).map Prod.snd = bytes := by
  induction bytes generalizing off with
  | nil => rfl
  | cons b bytes ih => rw [memcpy, List.map_cons, ih]

/-! ## Strings of bounded length

  `strncmp` compares as many characters as it is told, and stops at a NUL.  A difference of two
  characters, sign-extended, is 0 only if they are equal. -/

/-- After the terminator `strncpy` fills up with zeros. -/
theorem strncpyLoop_succ (src : Nat → BitVec 8) (n i : Nat) :
    strncpyLoop src (n + 1) i =
      src i :: if src i = 0 then List.replicate n 0 else strncpyLoop src n (i + 1) := by
  rw [strncpyLoop]
  split
  · next h => rw [h, List.replicate_succ]
  · rfl

/-- The difference of two characters is 0 only if they are the same. -/
theorem signExtend_sub_eq_zero {a b : BitVec 8} :
    a.signExtend 32 - b.signExtend 32 = 0 ↔ a = b := by
  constructor
  · intro h
    have hext : a.signExtend 32 = b.signExtend 32 := by
      rw [← BitVec.sub_add_cancel (a.signExtend 32) (b.signExtend 32), h]
      exact BitVec.zero_add _
    apply BitVec.eq_of_toInt_eq
    rw [← BitVec.toInt_signExtend_of_le (v := 32) (by decide), hext,
      BitVec.toInt_signExtend_of_le (by decide)]
  · rintro rfl
    exact BitVec.sub_self _

/-- `strncmp` finds no difference in strings that `strncpy` copies alike. -/
theorem strncmpLoop_eq_zero (s1 s2 : Nat → BitVec 8) (n i : Nat) :
    strncmpLoop s1 s2 n i = 0 ↔ strncpyLoop s1 n i = strncpyLoop s2 n i := by
  induction n generalizing i with
  | zero => exact ⟨fun _ => rfl, fun _ => rfl⟩
  | succ n ih =>
    rw [strncpyLoop_succ, strncpyLoop_succ, List.cons.injEq, strncmpLoop]
    by_cases heq : s1 i = s2 i
    · by_cases hnul : s1 i = 0
      · -- both strings end here
        rw [if_pos (Or.inr hnul), signExtend_sub_eq_zero, ← heq, if_pos hnul, if_pos hnul]
        exact ⟨fun _ => ⟨rfl, rfl⟩, fun _ => rfl⟩
      · rw [if_neg (by rintro (h | h); exacts [h heq, hnul h]), ih, ← heq, if_neg hnul, if_neg hnul]
        exact ⟨fun h => ⟨rfl, h⟩, fun h => h.2⟩
    · rw [if_pos (Or.inl heq), signExtend_sub_eq_zero]
      exact ⟨fun h => absurd h heq, fun h => absurd h.1 heq⟩

/-- `strncmp` finds no difference between two strings exactly when `strncpy` would copy the same. -/
theorem strncmp_eq_zero (s1 s2 : Nat → BitVec 8) (n : Nat) :
    strncmp s1 s2 n = 0 ↔ strncpy s1 n = strncpy s2 n :=
  strncmpLoop_eq_zero s1 s2 n 0

/-! ## `strlen`

  The loop goes on to the first NUL and knows no bound.  Where that is found is known of memory
  that holds a string (`HoldsString`). -/

/-- The loop ends at a zero, or when the fuel runs out, and passes no zero before. -/
theorem strlenLoop_spec (s : Nat → BitVec 8) (fuel i : Nat) :
    i ≤ strlenLoop s fuel i ∧ strlenLoop s fuel i ≤ i + fuel ∧
      (∀ j, i ≤ j → j < strlenLoop s fuel i → s j ≠ 0) ∧
      (strlenLoop s fuel i < i + fuel → s (strlenLoop s fuel i) = 0) := by
  induction fuel generalizing i with
  | zero =>
    refine ⟨Nat.le_refl _, Nat.le_refl _, fun j h1 h2 => ?_, fun h => absurd h (Nat.lt_irrefl _)⟩
    exact absurd (Nat.lt_of_le_of_lt h1 h2) (Nat.lt_irrefl _)
  | succ fuel ih =>
    rw [strlenLoop]
    by_cases hi : s i = 0
    · rw [if_pos hi]
      refine ⟨Nat.le_refl _, by omega, fun j h1 h2 => ?_, fun _ => hi⟩
      exact absurd (Nat.lt_of_le_of_lt h1 h2) (Nat.lt_irrefl _)
    · rw [if_neg hi]
      obtain ⟨hle, hge, hbefore, hend⟩ := ih (i + 1)
      refine ⟨by omega, by omega, fun j h1 h2 => ?_, fun h => hend (by omega)⟩
      rcases Nat.eq_or_lt_of_le h1 with rfl | hlt
      · exact hi
      · exact hbefore j hlt h2

/-- The characters of a string that ends within the address space. -/
theorem strlen_spec {s : Nat → BitVec 8} (h : strlen s < 0x100000000) :
    (∀ j, j < strlen s → s j ≠ 0) ∧ s (strlen s) = 0 := by
  obtain ⟨-, -, hbefore, hend⟩ := strlenLoop_spec s 0x100000000 0
  exact ⟨fun j => hbefore j (Nat.zero_le _), hend (by unfold strlen at h; omega)⟩

/-- The first zero is the end. -/
theorem strlen_eq {s : Nat → BitVec 8} {n : Nat} (hn : n < 0x100000000)
    (hbefore : ∀ j, j < n → s j ≠ 0) (hend : s n = 0) : strlen s = n := by
  obtain ⟨-, -, hpassed, hstop⟩ := strlenLoop_spec s 0x100000000 0
  rcases Nat.lt_trichotomy (strlen s) n with hlt | heq | hgt
  · exact absurd (hstop (by unfold strlen at hlt; omega)) (hbefore _ hlt)
  · exact heq
  · exact absurd hend (hpassed n (Nat.zero_le _) hgt)

/-- No zero up to `n`. -/
theorem strlen_gt {s : Nat → BitVec 8} {n : Nat} (hn : n < 0x100000000)
    (hbefore : ∀ j, j ≤ n → s j ≠ 0) : n < strlen s := by
  obtain ⟨-, -, -, hend⟩ := strlenLoop_spec s 0x100000000 0
  apply Nat.lt_of_not_le
  intro hle
  exact hbefore (strlen s) hle (hend (by unfold strlen at hle; omega))

/-- No string is longer than the address space. -/
theorem strlen_le (s : Nat → BitVec 8) : strlen s ≤ 0x100000000 := by
  obtain ⟨-, hle, -⟩ := strlenLoop_spec s 0x100000000 0
  rw [Nat.zero_add] at hle
  exact hle

@[simp] theorem length_bytesFrom (s : Nat → BitVec 8) (i n : Nat) :
    (bytesFrom s i n).length = n := by
  rw [bytesFrom, List.length_map, List.length_range]

/-- One byte, and the rest. -/
theorem bytesFrom_succ (s : Nat → BitVec 8) (i n : Nat) :
    bytesFrom s i (n + 1) = s i :: bytesFrom s (i + 1) n := by
  rw [bytesFrom, List.range_succ_eq_map, List.map_cons, List.map_map, bytesFrom]
  congr 1
  apply List.map_congr_left
  intro j _
  show s (i + (j + 1)) = s (i + 1 + j)
  congr 1
  omega

@[simp] theorem length_string (s : Nat → BitVec 8) : (string s).length = strlen s :=
  length_bytesFrom s 0 _

/-- The characters of a string are the bytes before its terminator. -/
theorem getElem_string {s : Nat → BitVec 8} {j : Nat} (hj : j < strlen s) :
    (string s)[j]? = some (s j) := by
  rw [string, bytesFrom, List.getElem?_map, List.getElem?_range hj, Option.map_some, Nat.zero_add]

/-- A string in memory, with its NUL. -/
def cstring (l : List (BitVec 8)) : Nat → BitVec 8 := fun j => l.getD j 0

/-- A string in memory: its characters, -/
theorem cstring_of_lt {l : List (BitVec 8)} {j : Nat} (hj : j < l.length) : cstring l j = l[j] := by
  rw [cstring, List.getD_eq_getElem?_getD, List.getElem?_eq_getElem hj]
  rfl

/-- and a terminator behind them. -/
theorem cstring_length (l : List (BitVec 8)) : cstring l l.length = 0 := by
  rw [cstring, List.getD_eq_getElem?_getD, List.getElem?_eq_none (Nat.le_refl _)]
  rfl

/-- Memory holds a string: its characters and then a NUL. -/
def HoldsString (s : Nat → BitVec 8) (l : List (BitVec 8)) : Prop :=
  ∀ j, j ≤ l.length → s j = cstring l j

namespace HoldsString

variable {s : Nat → BitVec 8} {l : List (BitVec 8)} (h : HoldsString s l)
include h

/-- A character of the string is in memory at its place, -/
theorem char {j : Nat} (hj : j < l.length) : s j = l[j] :=
  (h j (Nat.le_of_lt hj)).trans (cstring_of_lt hj)

/-- and the terminator behind the last one. -/
theorem nul : s l.length = 0 := (h l.length (Nat.le_refl _)).trans (cstring_length l)

theorem strlen_eq (hl : ∀ c ∈ l, c ≠ 0) (hlen : l.length < 0x100000000) : strlen s = l.length := by
  apply Klibs.strlen_eq hlen
  · intro j hj
    rw [h.char hj]
    exact hl _ (List.getElem_mem hj)
  · exact h.nul

/-- The first bytes are the first characters. -/
theorem bytesFrom_eq {i : Nat} (hi : i ≤ l.length) : bytesFrom s 0 i = l.take i := by
  apply List.ext_getElem
  · rw [length_bytesFrom, List.length_take, Nat.min_eq_left hi]
  · intro j hj _
    rw [length_bytesFrom] at hj
    rw [List.getElem_take, ← h.char (by omega)]
    simp only [bytesFrom, List.getElem_map, List.getElem_range, Nat.zero_add]

/-- So it is the string that is read there, if none of its characters is a terminator. -/
theorem string_eq (hl : ∀ c ∈ l, c ≠ 0) (hlen : l.length < 0x100000000) : string s = l := by
  rw [string, h.strlen_eq hl hlen, h.bytesFrom_eq (Nat.le_refl _), List.take_length]

/-- The rest of the string. -/
theorem drop {n : Nat} (hn : n ≤ l.length) : HoldsString (fun j => s (n + j)) (l.drop n) := by
  intro j hj
  rw [List.length_drop] at hj
  show s (n + j) = _
  rw [h (n + j) (by omega), cstring, cstring, List.getD_eq_getElem?_getD,
    List.getD_eq_getElem?_getD, List.getElem?_drop]

end HoldsString

/-- A string that is laid out is held. -/
theorem holdsString_cstring (l : List (BitVec 8)) : HoldsString (cstring l) l := fun _ _ => rfl

/-- What is laid out is read again. -/
theorem string_cstring {l : List (BitVec 8)} (hl : ∀ c ∈ l, c ≠ 0) (hlen : l.length < 0x100000000) :
    string (cstring l) = l :=
  (holdsString_cstring l).string_eq hl hlen

/-- A string that ends has no terminator in it. -/
theorem string_ne_zero {s : Nat → BitVec 8} (hs : strlen s < 0x100000000) :
    ∀ c ∈ string s, c ≠ 0 := by
  intro c hc
  obtain ⟨j, hj, rfl⟩ := List.mem_map.mp hc
  rw [Nat.zero_add]
  exact (strlen_spec hs).1 j (List.mem_range.mp hj)

/-- A string in memory is its characters with a NUL. -/
theorem holdsString_string {s : Nat → BitVec 8} (hs : strlen s < 0x100000000) :
    HoldsString s (string s) := by
  intro j hj
  rw [length_string] at hj
  rcases Nat.lt_or_eq_of_le hj with hlt | rfl
  · rw [cstring_of_lt (by rw [length_string]; exact hlt)]
    simp only [string, bytesFrom, List.getElem_map, List.getElem_range, Nat.zero_add]
  · rw [(strlen_spec hs).2]
    have h := cstring_length (string s)
    rw [length_string] at h
    exact h.symm

/-- The `j`-th byte `strncpy` writes. -/
theorem getElem_strncpyLoop (src : Nat → BitVec 8) {n i l : Nat}
    (hchars : ∀ j, j < l → src (i + j) ≠ 0) (hend : src (i + l) = 0) {j : Nat} (hj : j < n) :
    (strncpyLoop src n i)[j]? = some (if j < l then src (i + j) else 0) := by
  induction n generalizing i l j with
  | zero => exact absurd hj (Nat.not_lt_zero _)
  | succ n ih =>
    cases l with
    | zero =>
      have hi : src i = 0 := hend
      rw [strncpyLoop, if_pos hi, List.getElem?_replicate, if_pos hj, if_neg (Nat.not_lt_zero j)]
    | succ l =>
      have hi : src i ≠ 0 := hchars 0 (by omega)
      rw [strncpyLoop, if_neg hi]
      cases j with
      | zero =>
        rw [if_pos (by omega)]
        rfl
      | succ j =>
        have h := @ih (i + 1) l (fun j hj => by
          rw [show i + 1 + j = i + (j + 1) by omega]
          exact hchars (j + 1) (by omega)) (by
          rw [show i + 1 + l = i + (l + 1) by omega]
          exact hend) j (by omega)
        rw [List.getElem?_cons_succ, h, show i + 1 + j = i + (j + 1) by omega]
        congr 1
        exact if_congr (by omega) rfl rfl

/-- The bytes `strncpy` writes of a string. -/
theorem getElem_strncpy {src : Nat → BitVec 8} (hsrc : strlen src < 0x100000000) {n j : Nat}
    (hj : j < n) :
    (strncpy src n)[j]? = some (if j < strlen src then src j else 0) := by
  obtain ⟨hchars, hend⟩ := strlen_spec hsrc
  have h := @getElem_strncpyLoop src n 0 (strlen src)
    (fun j hj => by rw [Nat.zero_add]; exact hchars j hj)
    (by rw [Nat.zero_add]; exact hend) j hj
  rw [Nat.zero_add] at h
  exact h

/-- **A comparison that takes in the NUL** of one string finds no difference exactly between equal
    strings. -/
theorem strncmp_eq_zero_iff_string {a b : Nat → BitVec 8} (ha : strlen a < 0x100000000)
    (hb : strlen b < 0x100000000) {n : Nat} (hn : strlen b < n) :
    strncmp a b n = 0 ↔ string a = string b := by
  have hchars_a := (strlen_spec ha).1
  have hchars_b := (strlen_spec hb).1
  rw [strncmp_eq_zero]
  constructor
  · intro heq
    have hbyte : ∀ j, j < n → (if j < strlen a then a j else 0) = if j < strlen b then b j
        else 0 := by
      intro j hj
      have h : (strncpy a n)[j]? = (strncpy b n)[j]? := by rw [heq]
      rw [getElem_strncpy ha hj, getElem_strncpy hb hj] at h
      exact Option.some.inj h
    -- if one string were shorter, its NUL would be compared with a character of the other
    have hlen : strlen a = strlen b := by
      rcases Nat.lt_trichotomy (strlen a) (strlen b) with hlt | h | hlt
      · have h := hbyte (strlen a) (by omega)
        rw [if_neg (Nat.lt_irrefl _), if_pos hlt] at h
        exact absurd h.symm (hchars_b _ hlt)
      · exact h
      · have h := hbyte (strlen b) hn
        rw [if_neg (Nat.lt_irrefl _), if_pos hlt] at h
        exact absurd h (hchars_a _ hlt)
    rw [string, string, bytesFrom, bytesFrom, hlen]
    apply List.map_congr_left
    intro j hj
    rw [List.mem_range] at hj
    have h := hbyte j (by omega)
    rw [if_pos (by omega), if_pos hj] at h
    rw [Nat.zero_add]
    exact h
  · intro heq
    have hlen : strlen a = strlen b := by rw [← length_string, ← length_string b, heq]
    apply List.ext_getElem?
    intro j
    rcases Nat.lt_or_ge j n with hj | hj
    · rw [getElem_strncpy ha hj, getElem_strncpy hb hj, hlen]
      by_cases hjb : j < strlen b
      · have hja : j < strlen a := hlen ▸ hjb
        rw [if_pos hjb, if_pos hjb, ← getElem_string hja, ← getElem_string hjb, heq]
      · rw [if_neg hjb, if_neg hjb]
    · rw [List.getElem?_eq_none (by rw [length_strncpy]; exact hj),
        List.getElem?_eq_none (by rw [length_strncpy]; exact hj)]

/-! ## What a copy leaves in memory

  Reading back: inside the copy it is what was copied, and outside what was there before. -/

/-- A copy does not change what lies before it. -/
theorem contents_of_lt (mem : Nat → BitVec 8) (bytes : List (BitVec 8)) : ∀ {off i : Nat}, i < off →
    contents mem (memcpy off bytes) i = mem i := by
  induction bytes generalizing mem with
  | nil => intro off i _; rfl
  | cons b bytes ih =>
    intro off i hi
    rw [memcpy, contents, ih _ (by omega)]
    exact if_neg (by omega)

/-- A copy leaves its bytes in the buffer. -/
theorem contents_memcpy (mem : Nat → BitVec 8) (bytes : List (BitVec 8)) :
    ∀ {off i : Nat} {b : BitVec 8}, bytes[i]? = some b →
    contents mem (memcpy off bytes) (off + i) = b := by
  induction bytes generalizing mem with
  | nil => intro off i b h; cases h
  | cons c bytes ih =>
    intro off i b h
    rw [memcpy, contents]
    cases i with
    | zero =>
      show contents _ (memcpy (off + 1) bytes) off = b
      rw [contents_of_lt _ _ (show off < off + 1 by omega)]
      exact (if_pos rfl).trans (Option.some.inj h)
    | succ i =>
      rw [show off + (i + 1) = off + 1 + i by omega]
      exact ih _ h

/-- Memory behind the bytes copied stays as it was. -/
theorem contents_beyond (mem : Nat → BitVec 8) (bytes : List (BitVec 8)) {off i : Nat}
    (hi : off + bytes.length ≤ i) : contents mem (memcpy off bytes) i = mem i := by
  induction bytes generalizing mem off with
  | nil => rfl
  | cons b bytes ih =>
    rw [List.length_cons] at hi
    rw [memcpy, contents, ih _ (by omega)]
    exact if_neg (by omega)

/-! ## Filling a buffer from its start

  The routines that fill a buffer can be put one after another; what they cover together is again
  a buffer filled from its start. -/

/-- The stores fill the first `n` bytes and nothing else. -/
def Covers (s : List (Nat × BitVec 8)) (n : Nat) : Prop := ∀ i, (∃ b, (i, b) ∈ s) ↔ i < n

namespace Covers

/-- No store covers nothing. -/
theorem nil : Covers [] 0 := by
  intro i
  simp

/-- A copy to the start covers its length. -/
theorem memcpy (bytes : List (BitVec 8)) : Covers (memcpy 0 bytes) bytes.length := by
  intro i
  rw [mem_memcpy]
  omega

/-- Writing on, where the filled part ends. -/
theorem append_memcpy {s : List (Nat × BitVec 8)} {n : Nat} (h : Covers s n)
    (bytes : List (BitVec 8)) : Covers (s ++ Klibs.memcpy n bytes) (n + bytes.length) := by
  intro i
  simp only [List.mem_append, exists_or]
  rw [h i, mem_memcpy]
  omega

/-- Writing over the filled part again. -/
theorem append_over {s t : List (Nat × BitVec 8)} {n : Nat} (hs : Covers s n) (ht : Covers t n) :
    Covers (s ++ t) n := by
  intro i
  simp only [List.mem_append, exists_or]
  rw [hs i, ht i, or_self]

/-- What holds of every byte stored holds of the first `n`, and conversely. -/
theorem forall_iff {s : List (Nat × BitVec 8)} {n : Nat} (h : Covers s n) (P : Nat → Prop) :
    (∀ st ∈ s, P st.1) ↔ ∀ i, i < n → P i := by
  constructor
  · intro hP i hi
    obtain ⟨b, hb⟩ := (h i).mpr hi
    exact hP (i, b) hb
  · intro hP st hst
    apply hP
    exact (h st.1).mp ⟨st.2, hst⟩

end Covers

end TedkOS.Klibs
