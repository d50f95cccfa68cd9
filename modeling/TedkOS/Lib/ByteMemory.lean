/-
  Memory of bytes of which only some may be read.

  An address has `w` bits and addresses wrap.  `At mem a bytes` says that the bytes are there, one
  after the other from address `a` on, and `Differs mem a bytes` that memory says something else,
  and shows it: the first byte that is not as in `bytes` may be read.  When neither holds, memory
  ends before the question is decided.

  `buffer base bytes` is the memory of which nothing may be read but `bytes`, at `base`.

  Nothing here names a program.
-/
import Mathlib.Algebra.Group.Nat.Defs
import Mathlib.Data.List.Basic

namespace ByteMemory

variable {w : Nat}

/-- The byte at an address, if it may be read. -/
abbrev Memory (w : Nat) := BitVec w → Option (BitVec 8)

/-- The bytes are at `a`. -/
def At (mem : Memory w) : BitVec w → List (BitVec 8) → Prop
  | _, [] => True
  | a, b :: bytes => mem a = some b ∧ At mem (a + 1) bytes

/-- Something else is at `a`, as far as memory may be read. -/
def Differs (mem : Memory w) : BitVec w → List (BitVec 8) → Prop
  | _, [] => False
  | a, b :: bytes => (∃ c, mem a = some c ∧ c ≠ b) ∨ (mem a = some b ∧ Differs mem (a + 1) bytes)

/-- The memory with nothing but `bytes`, at `base`. -/
def buffer (base : BitVec w) (bytes : List (BitVec 8)) : Memory w :=
  fun a => bytes[(a - base).toNat]?

variable {mem : Memory w} {a base : BitVec w} {bytes bytes' : List (BitVec 8)} {off : Nat}

@[simp] theorem at_nil : At mem a [] := trivial

@[simp] theorem at_cons {b : BitVec 8} :
    At mem a (b :: bytes) ↔ mem a = some b ∧ At mem (a + 1) bytes := Iff.rfl

theorem at_append : At mem a (bytes ++ bytes') ↔
    At mem a bytes ∧ At mem (a + BitVec.ofNat w bytes.length) bytes' := by
  induction bytes generalizing a with
  | nil =>
    rw [List.nil_append, List.length_nil, show BitVec.ofNat w 0 = 0#w from rfl, BitVec.add_zero]
    exact ⟨fun h => ⟨trivial, h⟩, fun h => h.2⟩
  | cons b bytes ih =>
    have hnext : a + BitVec.ofNat w (b :: bytes).length = a + 1 + BitVec.ofNat w bytes.length := by
      rw [List.length_cons, BitVec.add_assoc, Nat.add_comm, BitVec.ofNat_add]
      rfl
    rw [List.cons_append, at_cons, at_cons, ih, hnext, and_assoc]

theorem not_differs_of_at (h : At mem a bytes) : ¬ Differs mem a bytes := by
  induction bytes generalizing a with
  | nil => exact id
  | cons b bytes ih =>
    obtain ⟨hb, hrest⟩ := h
    rintro (⟨c, hc, hne⟩ | ⟨-, hdiffers⟩)
    · exact hne (Option.some.inj (hc.symm.trans hb))
    · exact ih hrest hdiffers

/-- What is in a buffer, some bytes after its start. -/
theorem buffer_at (hbase : base.toNat + bytes.length < 2 ^ w) (hoff : off ≤ bytes.length) :
    At (buffer base bytes) (base + BitVec.ofNat w off) bytes' ↔ bytes' <+: bytes.drop off := by
  induction bytes' generalizing off with
  | nil => exact iff_of_true trivial (List.nil_prefix)
  | cons b bytes' ih =>
    have hindex : (base + BitVec.ofNat w off - base).toNat = off := by
      rw [BitVec.add_comm, BitVec.add_sub_cancel, BitVec.toNat_ofNat, Nat.mod_eq_of_lt (by omega)]
    have hnext : base + BitVec.ofNat w off + 1 = base + BitVec.ofNat w (off + 1) := by
      rw [BitVec.add_assoc, BitVec.ofNat_add]
      rfl
    rw [at_cons, hnext, buffer, hindex]
    rcases Nat.lt_or_ge off bytes.length with hlt | hge
    · rw [ih hlt, List.drop_eq_getElem_cons hlt, List.cons_prefix_cons,
        List.getElem?_eq_getElem hlt, Option.some.injEq, eq_comm]
    · rw [List.getElem?_eq_none hge, List.drop_eq_nil_of_le hge]
      simp

theorem buffer_self (hbase : base.toNat + bytes.length < 2 ^ w) :
    At (buffer base bytes) base bytes := by
  have h := (buffer_at hbase (Nat.zero_le _)).mpr (List.prefix_refl bytes)
  rwa [show BitVec.ofNat w 0 = 0#w from rfl, BitVec.add_zero] at h

end ByteMemory
