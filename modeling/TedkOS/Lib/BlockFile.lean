/-
  A file that is written in whole blocks, at places chosen beforehand.

  A write past the end makes the file longer, and what no write has touched reads as zero.  When no
  two blocks go to one place, the order of the writes does not matter:

  * `bytes_of_mem` — a block that was written is there;
  * `bytes_of_not_mem` — a block that was not is as before;
  * `le_length` — the file reaches to the end of every block, and `dvd_length`, ends with one.

  Nothing here names a program.
-/
import Mathlib.Data.List.Nodup

namespace BlockFile

/-- A file: its length, and what reading it gives at each offset. -/
structure File (α : Type) where
  length : Nat
  bytes : Nat → α

variable {α : Type}

/-- `len` bytes stored at `off`. -/
def File.write (f : File α) (off len : Nat) (data : Nat → α) : File α where
  length := max f.length (off + len)
  bytes i := if off ≤ i ∧ i < off + len then data (i - off) else f.bytes i

/-- The blocks written one after the other, each at its number. -/
def writeAll (B : Nat) (f : File α) : List (Nat × (Nat → α)) → File α
  | [] => f
  | w :: ws => writeAll B (f.write (B * w.1) B w.2) ws

variable {B : Nat} {f : File α} {ws : List (Nat × (Nat → α))} {n m j : Nat} {data : Nat → α}

/-! ## One block

  A write changes the bytes of its own block and makes the file long enough for it. -/

theorem write_same (hj : j < B) : (f.write (B * n) B data).bytes (B * n + j) = data j := by
  rw [File.write]
  dsimp only
  rw [if_pos (by omega), Nat.add_sub_cancel_left]

/-- The other blocks stay. -/
theorem write_other (hne : m ≠ n) (hj : j < B) :
    (f.write (B * n) B data).bytes (B * m + j) = f.bytes (B * m + j) := by
  rw [File.write]
  dsimp only
  apply if_neg
  rcases Nat.lt_or_gt_of_ne hne with hlt | hgt
  · have hmul : B * (m + 1) ≤ B * n := Nat.mul_le_mul_left B hlt
    rw [Nat.mul_succ] at hmul
    omega
  · have hmul : B * (n + 1) ≤ B * m := Nat.mul_le_mul_left B hgt
    rw [Nat.mul_succ] at hmul
    omega

/-! ## All of them

  By induction on the list of writes.  That a block is not written again is needed only for the
  one that is looked at. -/

theorem bytes_of_not_mem (hn : n ∉ ws.map Prod.fst) (hj : j < B) :
    (writeAll B f ws).bytes (B * n + j) = f.bytes (B * n + j) := by
  induction ws generalizing f with
  | nil => rfl
  | cons w ws ih =>
    rw [List.map_cons, List.mem_cons, not_or] at hn
    rw [writeAll, ih hn.2, write_other hn.1 hj]

/-- **A block that was written is there.** -/
theorem bytes_of_mem (hws : (ws.map Prod.fst).Nodup) (hw : (n, data) ∈ ws) (hj : j < B) :
    (writeAll B f ws).bytes (B * n + j) = data j := by
  induction ws generalizing f with
  | nil => exact absurd hw List.not_mem_nil
  | cons w ws ih =>
    rw [List.map_cons, List.nodup_cons] at hws
    rw [writeAll]
    rcases List.mem_cons.mp hw with rfl | hw
    · -- no later write goes to this place
      rw [bytes_of_not_mem hws.1 hj, write_same hj]
    · exact ih hws.2 hw

theorem length_mono : f.length ≤ (writeAll B f ws).length := by
  induction ws generalizing f with
  | nil => exact Nat.le_refl _
  | cons w ws ih => exact Nat.le_trans (Nat.le_max_left _ (B * w.1 + B)) (ih (f := f.write _ B w.2))

theorem le_length (hn : n ∈ ws.map Prod.fst) : B * (n + 1) ≤ (writeAll B f ws).length := by
  induction ws generalizing f with
  | nil => exact absurd hn List.not_mem_nil
  | cons w ws ih =>
    rw [List.map_cons, List.mem_cons] at hn
    rcases hn with rfl | hn
    · exact Nat.le_trans (Nat.le_max_right f.length _) (length_mono (f := f.write _ B w.2))
    · exact ih hn

/-- The file ends with a block. -/
theorem dvd_length (hf : B ∣ f.length) : B ∣ (writeAll B f ws).length := by
  induction ws generalizing f with
  | nil => exact hf
  | cons w ws ih =>
    apply ih
    have hend : B ∣ B * w.1 + B := ⟨w.1 + 1, (Nat.mul_succ B w.1).symm⟩
    show B ∣ max f.length (B * w.1 + B)
    rcases Nat.le_total f.length (B * w.1 + B) with hle | hle
    · rwa [Nat.max_eq_right hle]
    · rwa [Nat.max_eq_left hle]

end BlockFile
