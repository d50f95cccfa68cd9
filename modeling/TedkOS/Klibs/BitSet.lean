/-
  `util::BitSet<n>` (inc/klibs/bitset.h): `n` flags packed in 32-bit words.

  The words are kept as the source keeps them (flag `k` is bit `k % 32` of word `k / 32`, and every
  member function checks `k >= n` first), and the section "What the flags say" replaces them once
  and for all by the three facts the rest of the development uses: what `test` reads after `set`,
  after `clear`, and on a fresh set.  Note that the source declares `uint32_t array[n]`, ONE WORD
  PER FLAG, so a `BitSet<n>` occupies `4 * n` bytes although only `⌈n / 32⌉` words are ever used.

  `findConsZeros` reads `test(num)` where a search over the flags would read `test(i)`.  Its whole
  behaviour is therefore decided by that one flag (`findConsZeros_eq`).
-/
import Mathlib.Logic.Function.Basic

namespace TedkOS

/-- `BitSet<n>`; a word outside the array is never read. -/
structure BitSet (n : Nat) where
  array : Nat → BitVec 32

namespace BitSet

variable {n : Nat}

/-- `IntBits = 8 * sizeof(uint32_t)`. -/
def IntBits : Nat := 32

/-- `BitSet() : array() { }`. -/
def new (n : Nat) : BitSet n := ⟨fun _ => 0⟩

/-- `1U << (k % IntBits)`. -/
def bit (k : Nat) : BitVec 32 := 1#32 <<< (k % IntBits)

def set (b : BitSet n) (k : Nat) : BitSet n :=
  if k ≥ n then b
  else ⟨Function.update b.array (k / IntBits) (b.array (k / IntBits) ||| bit k)⟩

def clear (b : BitSet n) (k : Nat) : BitSet n :=
  if k ≥ n then b
  else ⟨Function.update b.array (k / IntBits) (b.array (k / IntBits) &&& ~~~bit k)⟩

def test (b : BitSet n) (k : Nat) : Bool :=
  if k ≥ n then false else (b.array (k / IntBits) &&& bit k) != 0

/-- The loop of `findConsZeros` at index `i`, with `left` rounds to go. -/
def findConsZerosLoop (b : BitSet n) (num : Nat) : Nat → Nat → Nat → Nat → Bool → Option Nat
  | 0, _, _, _, _ => none
  | left + 1, i, currMax, startOfMax, foundSomething =>
    if b.test num = false then
      let startOfMax := if foundSomething then startOfMax else i
      if currMax + 1 ≥ num then some startOfMax
      else findConsZerosLoop b num left (i + 1) (currMax + 1) startOfMax true
    else findConsZerosLoop b num left (i + 1) 0 startOfMax false

def findConsZeros (b : BitSet n) (num : Nat) : Option Nat :=
  findConsZerosLoop b num n 0 0 0 false

/-! ## What the flags say

  Every operation is a mask on one word.  Below they are what they should be on flags, and no
  later module looks at the words. -/

/-- The mask of flag `k` has one bit, `k % 32`. -/
theorem getLsbD_bit (k m : Nat) :
    (bit k).getLsbD m = decide (k % IntBits = m) := by
  have hbit : bit k = BitVec.twoPow 32 (k % IntBits) := by rw [bit, BitVec.twoPow]
  have hk : k % IntBits < 32 := Nat.mod_lt _ (by decide)
  rw [hbit, BitVec.getLsbD_twoPow, decide_eq_true hk, Bool.true_and]

/-- Reading a word through the mask is reading one bit. -/
theorem and_bit_ne_zero (w : BitVec 32) (k : Nat) :
    ((w &&& bit k) != 0) = w.getLsbD (k % IntBits) := by
  have hk : k % IntBits < 32 := Nat.mod_lt _ (by decide)
  cases hw : w.getLsbD (k % IntBits) with
  | false =>
    have h0 : w &&& bit k = 0#32 := by
      refine BitVec.eq_of_getLsbD_eq fun i hi => ?_
      rw [BitVec.getLsbD_and, getLsbD_bit k i, BitVec.getLsbD_zero]
      by_cases hik : k % IntBits = i
      · rw [← hik, hw]; rfl
      · simp [hik]
    rw [h0]; rfl
  | true =>
    have hne : w &&& bit k ≠ 0#32 := by
      intro h0
      have hg : (w &&& bit k).getLsbD (k % IntBits) = true := by
        rw [BitVec.getLsbD_and, hw, getLsbD_bit]; simp
      rw [h0, BitVec.getLsbD_zero] at hg
      exact absurd hg (by decide)
    simpa using hne

/-- A flag is a bit of a word of the array. -/
theorem test_of_lt (b : BitSet n) {k : Nat} (hk : k < n) :
    b.test k = (b.array (k / IntBits)).getLsbD (k % IntBits) := by
  rw [test, if_neg (Nat.not_le.mpr hk), and_bit_ne_zero]

@[simp] theorem test_of_ge (b : BitSet n) {k : Nat} (hk : n ≤ k) : b.test k = false := by
  rw [test, if_pos hk]

/-- Beyond the end there are no flags. -/
theorem lt_of_test {b : BitSet n} {k : Nat} (h : b.test k = true) : k < n := by
  rcases Nat.lt_or_ge k n with hlt | hge
  · exact hlt
  · rw [test_of_ge b hge] at h; exact absurd h (by decide)

@[simp] theorem test_new (k : Nat) : (new n).test k = false := by
  rcases Nat.lt_or_ge k n with hlt | hge
  · rw [test_of_lt _ hlt]; simp [new]
  · exact test_of_ge _ hge

/-- Two flags share a word and a bit only if they are the same flag. -/
theorem eq_of_div_mod {j k : Nat} (hd : j / IntBits = k / IntBits)
    (hm : j % IntBits = k % IntBits) : j = k := by
  rw [← Nat.div_add_mod j IntBits, ← Nat.div_add_mod k IntBits, hd, hm]

/-- Replacing the word of flag `k` shows in the flags of that word only. -/
theorem test_update (b : BitSet n) (k : Nat) (w : BitVec 32) {j : Nat} (hj : j < n) :
    (⟨Function.update b.array (k / IntBits) w⟩ : BitSet n).test j =
      if j / IntBits = k / IntBits then w.getLsbD (j % IntBits) else b.test j := by
  rw [test_of_lt _ hj, test_of_lt _ hj]
  by_cases hd : j / IntBits = k / IntBits
  · rw [if_pos hd, hd]
    show (Function.update b.array (k / IntBits) w (k / IntBits)).getLsbD _ = _
    rw [Function.update_self]
  · rw [if_neg hd]
    show (Function.update b.array (k / IntBits) w (j / IntBits)).getLsbD _ = _
    rw [Function.update_of_ne hd]

/-- **`set` raises its own flag and no other.** -/
theorem test_set (b : BitSet n) (k j : Nat) :
    (b.set k).test j = if j = k ∧ k < n then true else b.test j := by
  rcases Nat.lt_or_ge k n with hk | hk
  · rcases Nat.lt_or_ge j n with hj | hj
    · have hjm : j % IntBits < 32 := Nat.mod_lt _ (by decide)
      rw [set, if_neg (Nat.not_le.mpr hk), test_update _ _ _ hj]
      by_cases hd : j / IntBits = k / IntBits
      · rw [if_pos hd, BitVec.getLsbD_or, getLsbD_bit, test_of_lt _ hj, hd]
        by_cases hjk : j = k
        · subst hjk; simp [hk]
        · have hm : ¬ k % IntBits = j % IntBits := fun hm => hjk (eq_of_div_mod hd hm.symm)
          simp [hjk, hm]
      · have hjk : j ≠ k := fun h => hd (by rw [h])
        rw [if_neg hd, if_neg (fun hc => hjk hc.1)]
    · have hjk : ¬ (j = k ∧ k < n) := by omega
      rw [test_of_ge _ hj, if_neg hjk, test_of_ge _ hj]
  · have hjk : ¬ (j = k ∧ k < n) := by omega
    rw [set, if_pos hk, if_neg hjk]

/-- **`clear` lowers its own flag and no other.** -/
theorem test_clear (b : BitSet n) (k j : Nat) :
    (b.clear k).test j = if j = k then false else b.test j := by
  rcases Nat.lt_or_ge k n with hk | hk
  · rcases Nat.lt_or_ge j n with hj | hj
    · have hjm : j % IntBits < 32 := Nat.mod_lt _ (by decide)
      rw [clear, if_neg (Nat.not_le.mpr hk), test_update _ _ _ hj]
      by_cases hd : j / IntBits = k / IntBits
      · rw [if_pos hd, BitVec.getLsbD_and, BitVec.getLsbD_not, getLsbD_bit,
          test_of_lt _ hj, hd]
        by_cases hjk : j = k
        · subst hjk; simp
        · have hm : ¬ k % IntBits = j % IntBits := fun hm => hjk (eq_of_div_mod hd hm.symm)
          simp [hjk, hm, hjm]
      · have hjk : j ≠ k := fun h => hd (by rw [h])
        rw [if_neg hd, if_neg hjk]
    · rw [test_of_ge _ hj, test_of_ge _ hj]; simp
  · rw [clear, if_pos hk]
    by_cases hjk : j = k
    · subst hjk; rw [if_pos rfl, test_of_ge _ hk]
    · rw [if_neg hjk]

@[simp] theorem test_clear_self (b : BitSet n) (k : Nat) : (b.clear k).test k = false := by
  rw [test_clear, if_pos rfl]

theorem test_clear_ne (b : BitSet n) {k j : Nat} (h : j ≠ k) :
    (b.clear k).test j = b.test j := by
  rw [test_clear, if_neg h]

/-! ## `findConsZeros`

  The loop tests the same flag in every round, so it counts up to `num` at once, or starts anew
  until the flags are at their end. -/

/-- While flag `num` is down every index counts: the run that starts at `0` only grows. -/
theorem findConsZerosLoop_down (b : BitSet n) {num : Nat} (h : b.test num = false) :
    ∀ (left i : Nat), i < num →
      b.findConsZerosLoop num left i i 0 (i != 0) =
        if num ≤ i + left ∧ 0 < left then some 0 else none := by
  intro left
  induction left with
  | zero => intro i _; rw [if_neg (by omega)]; rfl
  | succ left ih =>
    intro i hi
    have hstart : (if (i != 0) = true then 0 else i) = 0 := by
      by_cases h0 : i = 0
      · simp [h0]
      · simp [h0]
    rw [findConsZerosLoop, if_pos h]
    simp only [hstart]
    by_cases hge : i + 1 ≥ num
    · rw [if_pos hge, if_pos (by omega)]
    · have hnz : (i + 1 != 0) = true := by simp
      have := ih (i + 1) (by omega)
      rw [hnz] at this
      rw [if_neg hge, this]
      exact if_congr (by omega) rfl rfl

/-- While flag `num` is up no index counts. -/
theorem findConsZerosLoop_up (b : BitSet n) {num : Nat} (h : b.test num = true) :
    ∀ (left i currMax start : Nat) (found : Bool),
      b.findConsZerosLoop num left i currMax start found = none := by
  intro left
  induction left with
  | zero => intros; rfl
  | succ left ih =>
    intro i currMax start found
    rw [findConsZerosLoop, if_neg (by rw [h]; decide)]
    exact ih _ _ _ _

/-- **What `findConsZeros` computes**: flag `num` alone decides.  With the flag down the answer is
    `0` for every run length that fits the set, with the flag up there is no answer. -/
theorem findConsZeros_eq (b : BitSet n) {num : Nat} (hnum : 1 ≤ num) :
    b.findConsZeros num = if b.test num = false ∧ num ≤ n then some 0 else none := by
  rw [findConsZeros]
  cases h : b.test num with
  | true => rw [findConsZerosLoop_up b h]; simp
  | false =>
    have := findConsZerosLoop_down b h n 0 (by omega)
    rw [show ((0 : Nat) != 0) = false from rfl] at this
    rw [this]
    exact if_congr (by constructor <;> intro hc <;> simp at * <;> omega) rfl rfl

end BitSet

end TedkOS
