/-
  Files of arrays that are cut short (klibs/arrFile.cpp).

  `getInstance` is not told how long the file is, so it goes on until it has seen all the arrays the
  file says it has, or an ending that is not there.  In a buffer of known length that is safe only
  if the buffer itself decides the call.

  1. **Specification** — `Safe`: the call returns, without a read outside the buffer; it accepts the
     files of arrays, and no others, and all it points to is in the buffer.

  2. **Decision** — `Decided`: the buffer holds a whole file, or shows that it is none, and the heap
     has room.

  3. **Correctness** — `safe_iff_decided`.
-/
import TedkOS.Klibs.ArrFile

namespace TedkOS.Klibs.ArrFile

open ByteMemory KMemory

variable {base : BitVec 32} {bytes : List (BitVec 8)} {arrs : List (List (BitVec 8))}
  {src : Fin 3 → PageSupply} {m m' : KMem}

/-- The buffer begins with a file of arrays. -/
def Valid (bytes : List (BitVec 8)) : Prop := ∃ arrs, encode arrs <+: bytes

/-- Each array the object stores is in the buffer with all its bytes, or has none and a null
    pointer. -/
def Inside (base : BitVec 32) (bytes : List (BitVec 8)) (obj : ArrFile) : Prop :=
  ∀ (i : Nat) (p len : BitVec 32), obj._subArr[i]? = some p → obj._subArrLength[i]? = some len →
    (len = 0 ∧ p = 0) ∨ (p - base).toNat + len.toNat ≤ bytes.length

/-- The call returns, with an object exactly if the buffer begins with a file of arrays. -/
def Safe (base : BitVec 32) (bytes : List (BitVec 8)) (src : Fin 3 → PageSupply)
    (m : KMem) : Prop :=
  ∃ r m', getInstance (buffer base bytes) base src m = .ok (r, m') ∧
    (r.isSome = true ↔ Valid bytes) ∧ ∀ obj, r = some obj → Inside base bytes obj

/-- The buffer shows that it does not begin with the magic; or it has magic and number of arrays,
    the heap has room for them, and the buffer begins with a whole file, or shows an array without
    its ending. -/
def Decided (base : BitVec 32) (bytes : List (BitVec 8)) (src : Fin 3 → PageSupply)
    (m : KMem) : Prop :=
  Differs (buffer base bytes) base magic ∨
  (At (buffer base bytes) base magic ∧ ∃ n, At (buffer base bytes) (base + 13) (wordBytes n) ∧
    ∃ lengths subArrs m₂, Allocates src n m lengths subArrs m₂ ∧
      (Valid bytes ∨
       (Rejected (buffer base bytes) (base + 13 + 4) n.toNat ∧ ∃ m', Frees m₂ lengths subArrs m')))

/-- A file at the start of a buffer. -/
theorem holds_encode (hfits : base.toNat + bytes.length < 2 ^ 32) (h : encode arrs <+: bytes) :
    Holds (buffer base bytes) base (encode arrs) := by
  have hle := h.length_le
  refine ⟨by omega, ?_⟩
  have hat := (buffer_at hfits (Nat.zero_le _)).mpr h
  rwa [show BitVec.ofNat 32 0 = 0#32 from rfl, BitVec.add_zero] at hat

/-- The arrays of a file at the start of a buffer are in it. -/
theorem inside_decoded (hfits : base.toNat + bytes.length < 2 ^ 32) (h : encode arrs <+: bytes) :
    Inside base bytes (decoded base arrs) := by
  intro i p len hp hlen
  have hlengths :
      (decoded base arrs)._subArrLength[i]? = ((entries (base + 13 + 4) arrs)[i]?).map Prod.fst :=
    List.getElem?_map
  rw [getElem?_decoded] at hp
  rw [hlengths] at hlen
  cases harr : arrs[i]? with
  | none =>
    rw [List.getElem?_eq_none (by rw [length_entries]; exact List.getElem?_eq_none_iff.mp harr)]
      at hp
    cases hp
  | some arr =>
    rw [getElem?_entries harr, address_eq] at hp
    rw [getElem?_entries harr] at hlen
    obtain rfl := Option.some.inj hp
    obtain rfl := Option.some.inj hlen
    by_cases hzero : BitVec.ofNat 32 arr.length = 0
    · exact Or.inl ⟨hzero, if_pos hzero⟩
    · have hin := offset_add_le harr
      have hle := h.length_le
      refine Or.inr ?_
      show ((if BitVec.ofNat 32 arr.length = 0 then 0 else base + BitVec.ofNat 32 (offset arrs i)) -
        base).toNat +
        (BitVec.ofNat 32 arr.length).toNat ≤ bytes.length
      rw [if_neg hzero, BitVec.add_comm, BitVec.add_sub_cancel, BitVec.toNat_ofNat,
        BitVec.toNat_ofNat, Nat.mod_eq_of_lt (by omega), Nat.mod_eq_of_lt (by omega)]
      omega

/-- **A call is safe exactly if the buffer decides it**: the others read on behind a buffer that
    ends too early, or stop for want of memory, or take for a file what is none. -/
theorem safe_iff_decided (hfits : base.toNat + bytes.length < 2 ^ 32) :
    Safe base bytes src m ↔ Decided base bytes src m := by
  constructor
  · rintro ⟨r, m', hcall, hvalid, -⟩
    rcases getInstance_ok.mp hcall with
      ⟨hdiffers, -, -⟩ | ⟨hmagic, n, hn, lengths, subArrs, m₂, halloc, hloop⟩
    · exact Or.inl hdiffers
    · refine Or.inr ⟨hmagic, n, hn, lengths, subArrs, m₂, halloc, ?_⟩
      rcases hloop with ⟨es, -, -, rfl, -⟩ | ⟨hrejected, -, hfrees⟩
      · exact Or.inl (hvalid.mp rfl)
      · exact Or.inr ⟨hrejected, m', hfrees⟩
  · rintro (hdiffers | ⟨hmagic, n, hn, lengths, subArrs, m₂, halloc,
        ⟨arrs, harrs⟩ | ⟨hrejected, m', hfrees⟩⟩)
    · refine ⟨none, m, getInstance_ok.mpr (Or.inl ⟨hdiffers, rfl, rfl⟩), ?_,
        fun obj hobj => (nomatch hobj)⟩
      refine ⟨fun h => absurd h Bool.false_ne_true, ?_⟩
      rintro ⟨arrs, harrs⟩
      exact absurd hdiffers (not_differs_of_at (at_encode (holds_encode hfits harrs).2).1)
    · have hholds := holds_encode hfits harrs
      obtain rfl : n = BitVec.ofNat 32 arrs.length :=
        Except.ok.inj ((readWord_ok.mpr hn).symm.trans (readWord_ok.mpr (at_encode hholds.2).2.1))
      refine ⟨some (decoded base arrs), m₂,
        (getInstance_encode hholds).mpr ⟨rfl, lengths, subArrs, halloc⟩,
        iff_of_true rfl ⟨arrs, harrs⟩, ?_⟩
      rintro obj hobj
      obtain rfl := Option.some.inj hobj
      exact inside_decoded hfits harrs
    · have hcall : getInstance (buffer base bytes) base src m = .ok (none, m') :=
        getInstance_ok.mpr (Or.inr ⟨hmagic, n, hn, lengths, subArrs, m₂, halloc,
          Or.inr ⟨hrejected, rfl, hfrees⟩⟩)
      refine ⟨none, m', hcall, ⟨fun h => absurd h Bool.false_ne_true, ?_⟩,
        fun obj hobj => (nomatch hobj)⟩
      -- a whole file would have been accepted
      rintro ⟨arrs, harrs⟩
      have hholds := holds_encode hfits harrs
      obtain rfl : n = BitVec.ofNat 32 arrs.length :=
        Except.ok.inj ((readWord_ok.mpr hn).symm.trans (readWord_ok.mpr (at_encode hholds.2).2.1))
      have haccepted := (getInstance_encode hholds).mpr
        ⟨(rfl : decoded base arrs = decoded base arrs), lengths, subArrs, halloc⟩
      rw [hcall] at haccepted
      cases haccepted

/-- The file of one array of one byte, in a buffer of its length. -/
theorem safe_iff_decided_one : Safe 0x100000 (encode [[0x11]]) noPages threeBlocks := by
  have hfits : (0x100000 : BitVec 32).toNat + (encode [[0x11]]).length < 2 ^ 32 := by decide
  obtain ⟨hmagic, hlength, -⟩ := at_encode (holds_encode hfits (List.prefix_refl _)).2
  obtain ⟨lengths, subArrs, m', halloc⟩ := hasRoom_threeBlocks (Or.inr rfl)
  exact (safe_iff_decided hfits).mpr (Or.inr ⟨hmagic, 1, hlength, lengths, subArrs, m', halloc,
    Or.inl ⟨_, List.prefix_refl _⟩⟩)

/-- In a buffer that ends behind the magic, the number of arrays is read from what comes after
    it. -/
theorem safe_not_magic :
    ¬ ∀ (base : BitVec 32) (bytes : List (BitVec 8)) (src : Fin 3 → PageSupply) (m : KMem),
    base.toNat + bytes.length < 2 ^ 32 → Safe base bytes src m := by
  intro hall
  obtain ⟨r, m', hcall, -⟩ := hall 0x100000 magic noPages threeBlocks (by decide)
  have hstop : getInstance (buffer 0x100000 magic) 0x100000 noPages threeBlocks =
      .error (.outside 0x10000d) := rfl
  rw [hstop] at hcall
  cases hcall

end TedkOS.Klibs.ArrFile
