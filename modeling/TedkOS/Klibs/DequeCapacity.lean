/-
  The capacity of a deque.

  A push doubles the capacity of a full deque, a pop halves it once half is enough.  `resetCap`
  refuses a capacity that would leave no slot free, so from 1 it never falls to 0.

  `Tight d` is the invariant: the capacity is a power of two and at least half of it is used, unless
  the deque is as `_init` leaves it.  It says nothing about where the elements stand, so it holds
  whatever index `insert` is called with.
-/
import Mathlib.Algebra.Group.Nat.Defs
import TedkOS.Klibs.DequeRuns

namespace TedkOS.Klibs

namespace Deque

variable {T : Type}

/-- At least half of the capacity, a power of two, is used; or the deque is as `_init` leaves it. -/
structure Tight (d : Deque T) : Prop where
  /-- The capacity is a power of two, -/
  pow : ∃ k, d.mCapacity = 2 ^ k
  /-- and not so large that an index would wrap. -/
  lt : d.mCapacity < 0x80000000
  /-- The elements fit, -/
  room : d.mSize ≤ d.mCapacity
  /-- and fill at least half of it, but for a deque as `_init` leaves it. -/
  used : d.mCapacity / 2 ≤ d.mSize ∨ d.mSize = 0 ∧ d.mCapacity = sInitialCapacity

section Capacity

variable {d d' : Deque T} {raw : Nat → Ptr} {val : T} {p : Ptr} {index : Nat}

/-- Which is the first. -/
theorem _init_tight (elems : Ptr → Option T) : Tight (_init elems) where
  pow := ⟨1, rfl⟩
  lt := show 2 < 0x80000000 by decide
  room := Nat.zero_le _
  used := Or.inr ⟨rfl, rfl⟩

namespace Tight

/-- There is always a slot. -/
theorem cap_pos (h : Tight d) : 0 < d.mCapacity := by
  obtain ⟨k, hk⟩ := h.pow
  rw [hk]
  exact Nat.two_pow_pos k

/-- A deque that is not empty is half full. -/
theorem half_le (h : Tight d) (hsize : d.mSize ≠ 0) : d.mCapacity / 2 ≤ d.mSize := by
  rcases h.used with hused | ⟨hzero, -⟩
  · exact hused
  · exact absurd hzero hsize

/-- Half of a power of two, if that is not 0. -/
theorem half_pow (h : Tight d) (hhalf : 0 < d.mCapacity / 2) : ∃ k, d.mCapacity / 2 = 2 ^ k := by
  obtain ⟨k, hk⟩ := h.pow
  cases k with
  | zero =>
    rw [hk] at hhalf
    exact absurd hhalf (by decide)
  | succ k =>
    refine ⟨k, ?_⟩
    rw [hk, Nat.pow_succ, Nat.mul_div_cancel _ Nat.two_pos]

/-! ### Growing

  A full deque doubles its capacity before the push, so that afterwards it is used by a little
  more than a half. -/

/-- **Growing leaves a free slot**, and at least half of the slots used. -/
theorem grow (h : Tight d) (hsize : d.mSize ≠ 0) (hcap : (d.grow raw).mCapacity < 0x80000000) :
    Tight (d.grow raw) ∧ (d.grow raw).mSize < (d.grow raw).mCapacity := by
  have hhalf := h.half_le hsize
  have hroom := h.room
  by_cases hfull : d.mSize = d.mCapacity
  · have hpos := h.cap_pos
    have hlt := h.lt
    have hdouble : size_t (2 * d.mCapacity) = 2 * d.mCapacity := size_t_of_lt (by omega)
    have hgrow : d.grow raw = { d with
        mContents := copyLoop d.mCapacity d.mContents d.mSize 0 d.mFront raw
        mFront := 0
        mBack := size_t (d.mSize + 0xFFFFFFFF)
        mCapacity := 2 * d.mCapacity } := by
      rw [Deque.grow, if_pos hfull, hdouble, Deque.resetCap, if_neg (by omega)]
    rw [hgrow] at hcap ⊢
    refine ⟨⟨?_, hcap, ?_, Or.inl ?_⟩, ?_⟩
    · obtain ⟨k, hk⟩ := h.pow
      refine ⟨k + 1, ?_⟩
      show 2 * d.mCapacity = 2 ^ (k + 1)
      rw [hk, Nat.pow_succ, Nat.mul_comm]
    · show d.mSize ≤ 2 * d.mCapacity
      omega
    · show 2 * d.mCapacity / 2 ≤ d.mSize
      omega
    · show d.mSize < 2 * d.mCapacity
      omega
  · have hsame : d.grow raw = d := by rw [Deque.grow, if_neg hfull]
    rw [hsame]
    exact ⟨h, by omega⟩

/-- An element more, in a free slot. -/
theorem succ (h : Tight d) (hroom : d.mSize < d.mCapacity) (hcap : d'.mCapacity = d.mCapacity)
    (hsize : d'.mSize = size_t (d.mSize + 1)) : Tight d' := by
  have hlt := h.lt
  rw [size_t_of_lt (by omega)] at hsize
  refine ⟨hcap ▸ h.pow, hcap ▸ hlt, by omega, Or.inl ?_⟩
  rcases h.used with hused | ⟨hzero, hinit⟩
  · omega
  · rw [hcap, hinit, hsize, hzero]
    decide

/-- The first element of an empty deque. -/
theorem pushFirst (h : Tight d) (hzero : d.mSize = 0) : Tight (d.pushFirst val p) :=
  h.succ (hzero ▸ h.cap_pos) rfl rfl

/-- A push: the first element goes to slot 0, another one behind or before the others. -/
theorem pushInto (h : Tight d)
    (hcap : (if d.mSize = 0 then d.pushFirst val p else d').mCapacity < 0x80000000)
    (hsame : d'.mCapacity = (d.grow raw).mCapacity)
    (hsize : d'.mSize = size_t ((d.grow raw).mSize + 1)) :
    Tight (if d.mSize = 0 then d.pushFirst val p else d') := by
  by_cases hzero : d.mSize = 0
  · rw [if_pos hzero]
    exact h.pushFirst hzero
  · rw [if_neg hzero] at hcap ⊢
    obtain ⟨hg, hroom⟩ := h.grow hzero (hsame ▸ hcap)
    exact hg.succ hroom hsame hsize

/-- A push doubles the capacity of a full deque, of which then half is used, and one more. -/
theorem push_back (h : Tight d) (hcap : (d.push_back val p raw).mCapacity < 0x80000000) :
    Tight (d.push_back val p raw) := h.pushInto hcap rfl rfl

/-- The same at the other end, -/
theorem push_front (h : Tight d) (hcap : (d.push_front val p raw).mCapacity < 0x80000000) :
    Tight (d.push_front val p raw) := h.pushInto hcap rfl rfl

/-- and in between. -/
theorem insert (h : Tight d) (hcap : (d.insert val index p raw).mCapacity < 0x80000000) :
    Tight (d.insert val index p raw) := by
  rw [Deque.insert] at hcap ⊢
  by_cases hlast : index = d.mSize
  · rw [if_pos hlast] at hcap ⊢
    exact h.push_back hcap
  by_cases hfirst : index = 0
  · rw [if_neg hlast, if_pos hfirst] at hcap ⊢
    exact h.push_front hcap
  rw [if_neg hlast, if_neg hfirst] at hcap ⊢
  exact h.pushInto hcap rfl rfl

/-! ### Shrinking

  A pop that leaves half of the capacity used, or less, halves it, if a slot is left free then. -/

/-- **An element less.**  If that leaves less than half, then half is what was used before, and half
    of the half is used now. -/
theorem pred (h : Tight d) (hsize : d.mSize ≠ 0) (hcap : d'.mCapacity = d.mCapacity)
    (hpred : d'.mSize = size_t (d.mSize + 0xFFFFFFFF)) : Tight (d'.shrink raw) := by
  have hhalf := h.half_le hsize
  have hroom := h.room
  have hlt := h.lt
  rw [size_t_pred (by omega) (by omega)] at hpred
  rw [Deque.shrink]
  rcases le_or_gt d'.mSize (d'.mCapacity / 2) with hle | hused
  · rw [if_pos hle, Deque.resetCap]
    rcases le_or_gt (d'.mCapacity / 2) d'.mSize with hrefused | hfits
    · rw [if_pos hrefused]
      exact ⟨hcap ▸ h.pow, hcap ▸ hlt, by omega, Or.inl hrefused⟩
    · rw [if_neg (Nat.not_le_of_lt hfits)]
      have hpos : 0 < d.mCapacity / 2 := by omega
      refine ⟨hcap ▸ h.half_pow hpos, ?_, hle, Or.inl ?_⟩
      · show d'.mCapacity / 2 < 0x80000000
        omega
      · show d'.mCapacity / 2 / 2 ≤ d'.mSize
        omega
  · rw [if_neg (Nat.not_le_of_lt hused)]
    exact ⟨hcap ▸ h.pow, hcap ▸ hlt, by omega, Or.inl (Nat.le_of_lt hused)⟩

/-- A pop: an empty deque stays. -/
theorem popFrom (h : Tight d) (hsame : d'.mCapacity = d.mCapacity)
    (hpred : d'.mSize = size_t (d.mSize + 0xFFFFFFFF)) :
    Tight (if d.mSize = 0 then d else d'.shrink raw) := by
  by_cases hzero : d.mSize = 0
  · rw [if_pos hzero]
    exact h
  · rw [if_neg hzero]
    exact h.pred hzero hsame hpred

/-- A pop halves the capacity when half is enough, so the rest fits. -/
theorem pop_back (h : Tight d) : Tight (d.pop_back raw) := h.popFrom rfl rfl

/-- The same at the other end. -/
theorem pop_front (h : Tight d) : Tight (d.pop_front raw) := h.popFrom rfl rfl

/-- **One call.** -/
theorem call (h : Tight d) (a : Call T) (hcap : (d.call p raw a).mCapacity < 0x80000000) :
    Tight (d.call p raw a) := by
  cases a with
  | push_back val => exact h.push_back hcap
  | push_front val => exact h.push_front hcap
  | insert val index => exact h.insert hcap
  | pop_back => exact h.pop_back
  | pop_front => exact h.pop_front
  | clear => exact _init_tight _

end Tight

/-- **Every run.**  `insert` may be called with any index. -/
theorem tight_of_reach {s : Deque T × List T} (hr : Runs.Reach (machine T) (fun _ _ => True) s) :
    Tight s.1 := by
  refine hr.invariant (I := fun s => Tight s.1) ?_ ?_
  · rintro s rfl
    exact _init_tight _
  · rintro s a s' h - ⟨p, raw, -, -, hd, hcap, -⟩
    rw [hd] at hcap ⊢
    exact h.call a hcap

end Capacity

/-- **Capacity.**  In every run the capacity is a power of two, at least half of it is used or the
    deque is in its initial form; so it is never 0 and never more than about twice what is used. -/
theorem deque_capacity (T : Type) (s : Deque T × List T)
    (hr : Runs.Reach (machine T) (fun _ _ => True) s) :
    (∃ k, s.1.mCapacity = 2 ^ k) ∧
    (s.1.mSize ≥ s.1.mCapacity / 2 ∨ s.1.mSize = 0 ∧ s.1.mCapacity = sInitialCapacity) ∧
    0 < s.1.mCapacity ∧ s.1.mSize ≤ s.1.mCapacity ∧ s.1.mCapacity ≤ 2 * s.1.mSize + 2 := by
  have h := tight_of_reach hr
  refine ⟨h.pow, h.used, h.cap_pos, h.room, ?_⟩
  rcases h.used with hused | ⟨-, hinit⟩
  · omega
  · rw [hinit, sInitialCapacity]
    omega

/-- A run down to capacity 1. -/
theorem deque_capacity_one : ∃ d : Deque Nat, d.mCapacity = 1 ∧ d.mSize = 0 ∧ ∃ k,
    d.mCapacity = 2 ^ k := by
  have h0 : Runs.Reach (machine Nat) (fun _ _ => True) (new Nat, []) := .init rfl
  let raw : Nat → Ptr := fun _ => 7
  have h1 := machine_step h0 (a := .push_back 1) trivial 8 raw (by decide) rfl (by decide)
  have h2 := machine_step h1 (a := .pop_front) trivial 16 raw (by decide) (by decide) (by decide)
  exact ⟨_, by decide, by decide, (deque_capacity Nat _ h2).1⟩

end Deque

end TedkOS.Klibs
