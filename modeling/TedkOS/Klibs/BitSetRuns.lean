/-
  Runs of clear flags (`findConsZeros` of inc/klibs/bitset.h).

  `findConsZeros(num)` is a pass over the flags that looks for the first run of `num` clear ones,
  and as a pass it is right (`RunSearch.search_firstRun`).  But in round `i` it reads `test(num)`,
  not `test(i)`: it takes every flag for a copy of flag `num`.  So with that flag down it answers 0,
  and with that flag up it answers that there is no run (`findConsZeros_iff`).
-/
import TedkOS.Lib.RunSearch
import TedkOS.Klibs.BitSet

namespace TedkOS.BitSet

open RunSearch

variable {n num : Nat} {b : BitSet n}

/-- The flags that are clear. -/
def isClear (b : BitSet n) (k : Nat) : Bool := !b.test k

theorem isClear_iff {k : Nat} : b.isClear k = true ↔ b.test k = false := by
  rw [isClear, Bool.not_eq_true']

/-- The loop of `findConsZeros` is the pass, over flags that are all as flag `num`. -/
theorem findConsZerosLoop_eq_search (left i currMax startOfMax : Nat) (foundSomething : Bool) :
    b.findConsZerosLoop num left i currMax startOfMax foundSomething =
      search (fun _ => b.isClear num) num left i currMax startOfMax foundSomething := by
  induction left generalizing i currMax startOfMax foundSomething with
  | zero => rfl
  | succ left ih =>
    rw [findConsZerosLoop, search]
    refine if_congr isClear_iff.symm ?_ (ih _ _ _ _)
    exact if_congr Iff.rfl rfl (ih _ _ _ _)

/-- **What `findConsZeros` finds**: the first run, were all flags as flag `num`. -/
theorem findConsZeros_firstRun (hnum : 1 ≤ num) :
    FirstRun (fun _ => b.isClear num) num n (b.findConsZeros num) := by
  rw [findConsZeros, findConsZerosLoop_eq_search]
  exact search_firstRun hnum

/-- With flag `num` down the answer is 0. -/
theorem findConsZeros_down (hnum : 1 ≤ num) (hle : num ≤ n) (hdown : b.test num = false) :
    b.findConsZeros num = some 0 := by
  have hfirst : FirstRun (fun _ => b.isClear num) num n (some 0) :=
    ⟨by omega, fun _ _ _ => isClear_iff.mpr hdown, fun s hs => absurd hs (Nat.not_lt_zero s)⟩
  exact (findConsZeros_firstRun hnum).unique hfirst

/-- With flag `num` up there is no answer. -/
theorem findConsZeros_up (hnum : 1 ≤ num) (hup : b.test num = true) :
    b.findConsZeros num = none := by
  have hfirst : FirstRun (fun _ => b.isClear num) num n none := by
    intro s _ hrun
    have hclear := isClear_iff.mp (hrun s (Nat.le_refl s) (by omega))
    rw [hup] at hclear
    cases hclear
  exact (findConsZeros_firstRun hnum).unique hfirst

/-- **`findConsZeros(num)` returns the first run of `num` clear flags** exactly if flag `num` is
    down and that run is at 0, or flag `num` is up and there is no run. -/
theorem findConsZeros_iff (b : BitSet n) (hnum : 1 ≤ num) (hle : num ≤ n) :
    FirstRun b.isClear num n (b.findConsZeros num) ↔
      (b.test num = false ∧ Run b.isClear num 0) ∨
      (b.test num = true ∧ ∀ s, s + num ≤ n → ¬ Run b.isClear num s) := by
  cases hflag : b.test num with
  | false =>
    rw [findConsZeros_down hnum hle hflag]
    constructor
    · rintro ⟨-, hrun, -⟩
      exact Or.inl ⟨rfl, hrun⟩
    · rintro (⟨-, hrun⟩ | ⟨hup, -⟩)
      · exact ⟨by omega, hrun, fun s hs => absurd hs (Nat.not_lt_zero s)⟩
      · cases hup
  | true =>
    rw [findConsZeros_up hnum hflag]
    constructor
    · exact fun hnone => Or.inr ⟨rfl, hnone⟩
    · rintro (⟨hdown, -⟩ | ⟨-, hnone⟩)
      · cases hdown
      · exact hnone

/-- Of eight flags the fourth and the last are up: the first run of two is at 0. -/
theorem findConsZeros_iff_spread :
    FirstRun (((new 8).set 3).set 7).isClear 2 8 ((((new 8).set 3).set 7).findConsZeros 2) := by
  refine (findConsZeros_iff (((new 8).set 3).set 7) (by decide) (by decide)).mpr (Or.inl ?_)
  have hdown : ∀ k, k < 3 → (((new 8).set 3).set 7).test k = false := by
    intro k hk
    rw [test_set, test_set, if_neg (by omega), if_neg (by omega), test_new]
  exact ⟨hdown 2 (by omega), fun k _ hk => isClear_iff.mpr (hdown k (by omega))⟩

/-- Flag 0 of two is up, and the answer is 0. -/
theorem findConsZeros_not_first : ¬ ∀ (n : Nat) (b : BitSet n) (num : Nat), 1 ≤ num → num ≤ n →
    FirstRun b.isClear num n (b.findConsZeros num) := by
  intro hall
  have hone : ((new 2).set 0).test 1 = false := by
    rw [test_set, if_neg (by omega), test_new]
  have hzero : ((new 2).set 0).test 0 = true := by
    rw [test_set, if_pos ⟨rfl, by omega⟩]
  have hfirst := hall 2 ((new 2).set 0) 1 (Nat.le_refl 1) (by omega)
  rw [findConsZeros_down (Nat.le_refl 1) (by omega) hone] at hfirst
  have hclear := isClear_iff.mp (hfirst.2.1 0 (Nat.le_refl 0) (by omega))
  rw [hzero] at hclear
  cases hclear

end TedkOS.BitSet
