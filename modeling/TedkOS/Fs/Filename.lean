/-
  File names as keys of a hash table (inc/fs/filesystem.h).

  A name is a pointer to characters.  Two names are equal when `strncmp` finds no difference in
  their first 32 characters, and the hash reads these characters too.  Both look at no more than
  what `strncpy` would copy (`Filename.chars`), so equal names have one hash.
-/
import TedkOS.Klibs.Lib
import TedkOS.Klibs.LpHashTable

namespace TedkOS.Fs

open Klibs

def MaxFilenameLength : Nat := 32

/-- `Filename`: what memory holds from `str` on. -/
abbrev Filename := Nat → BitVec 8

namespace Filename

/-- `operator ==`. -/
def eq (a b : Filename) : Bool := decide (strncmp a b MaxFilenameLength = 0)

end Filename

namespace HashFunc

/-- The `while` loop of `hash`, for at most `n` more characters. -/
def hashLoop (s : Filename) : Nat → Nat → BitVec 32 → BitVec 32
  | 0, _, hash => hash
  | n + 1, used, hash =>
    if s used = 0 then hash else hashLoop s n (used + 1) (hash * 101 + (s used).signExtend 32)

/-- `HashFunc::hash`. -/
def hash (s : Filename) : BitVec 32 := hashLoop s MaxFilenameLength 0 0

theorem hashLoop_congr {a b : Filename} {n used : Nat}
    (h : strncpyLoop a n used = strncpyLoop b n used) (acc : BitVec 32) :
    hashLoop a n used acc = hashLoop b n used acc := by
  induction n generalizing used acc with
  | zero => rfl
  | succ n ih =>
    rw [strncpyLoop_succ, strncpyLoop_succ, List.cons.injEq] at h
    obtain ⟨hhead, htail⟩ := h
    rw [hashLoop, hashLoop, ← hhead]
    by_cases hnul : a used = 0
    · rw [if_pos hnul, if_pos hnul]
    · rw [← hhead, if_neg hnul, if_neg hnul] at htail
      rw [if_neg hnul, if_neg hnul]
      exact ih htail _

end HashFunc

namespace Filename

/-- The characters that make up the name, padded. -/
def chars (a : Filename) : List (BitVec 8) := strncpy a MaxFilenameLength

theorem eq_iff {a b : Filename} : eq a b = true ↔ a.chars = b.chars := by
  rw [eq, decide_eq_true_iff, strncmp_eq_zero]
  rfl

/-- Names as keys: equal names have one hash. -/
def hashing : Hashing Filename where
  hash := HashFunc.hash
  same := eq
  refl _ := eq_iff.mpr rfl
  symm h := eq_iff.mpr (eq_iff.mp h).symm
  trans h h' := eq_iff.mpr ((eq_iff.mp h).trans (eq_iff.mp h'))
  hash_eq h := HashFunc.hashLoop_congr (eq_iff.mp h) 0

end Filename

/-- **The table of file names refines a map.**  As long as the names put are fewer than the cells,
    every search ends, and a lookup finds the value its name was last put with, if it was put at
    all. -/
theorem filenames_refine_map {To : Type} (size : Nat) (puts : List (Filename × To))
    (hroom : (puts.map fun kv => kv.1.chars).dedup.length < size) (k : Filename) :
    ∃ t, LinearProbingHashTable.putAll size Filename.hashing (fun _ => none) puts = some t ∧
      (∃ slot, LinearProbingHashTable.Reaches size
        (LinearProbingHashTable.stops Filename.hashing t k)
        (LinearProbingHashTable.home size Filename.hashing k) slot) ∧
      LinearProbingHashTable.get size Filename.hashing t k =
        some (Updates.lastValue Filename.chars puts k.chars) ∧
      (Updates.lastValue Filename.chars puts k.chars ≠ none ↔ ∃ kv ∈ puts,
        kv.1.chars = k.chars) := by
  have hname : ∀ a b, Filename.hashing.same a b = true ↔ a.chars = b.chars :=
    fun a b => Filename.eq_iff
  obtain ⟨t, hall, h⟩ :=
    (LinearProbingHashTable.refines_empty (puts.map fun kv => kv.1.chars)).putAll hname
      hroom puts fun kv hkv => List.mem_map_of_mem hkv
  obtain ⟨hends, hget⟩ := h.get hname hroom k
  exact ⟨t, hall, hends, hget, Updates.lastValue_ne_none_iff⟩

/-- Two names and three cells; the second value of a name replaces the first. -/
theorem filenames_refine_map_replaced :
    ∃ t, LinearProbingHashTable.putAll 3 Filename.hashing (fun _ => none)
        [(cstring [0x61], 1), (cstring [0x62], 2), (cstring [0x61], 3)] = some t ∧
      LinearProbingHashTable.get 3 Filename.hashing t (cstring [0x61]) = some (some 3) := by
  obtain ⟨t, hall, -, hget, -⟩ := filenames_refine_map 3
    [(cstring [0x61], 1), (cstring [0x62], 2), (cstring [0x61], 3)] (by decide) (cstring [0x61])
  refine ⟨t, hall, hget.trans ?_⟩
  decide

end TedkOS.Fs
