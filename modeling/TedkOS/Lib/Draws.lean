/-
  Drawing numbers without repetition, by trial.

  A draw takes random numbers modulo `n` until one is free in a map, where number `v` has the cell
  `base + v`.  It ends only if the random numbers hit a free cell.

  * `Drawn` — what draws have done: new numbers, in the range, each once, and marked;
    `Drawn.append` puts two rows of draws together;
  * `draw_ends` — with a source of random numbers in which every number keeps coming up, a draw ends
    if there is room, and `Drawn.room` says that there is room before the `n`-th draw.

  Nothing here names a program.
-/
import Mathlib.Data.Finset.Card
import Mathlib.Data.Finset.Range
import Mathlib.Data.List.Nodup
import Mathlib.Logic.Function.Basic

namespace Draws

/-- One draw, and the random numbers it leaves; `none` if they run out before a cell is free. -/
def draw (base n : Nat) (used : Nat → Bool) : List Nat → Option (Nat × List Nat)
  | [] => none
  | r :: rands => if used (base + r % n) then draw base n used rands else some (r % n, rands)

variable {base n v : Nat} {used used' used'' : Nat → Bool} {rands rest vs ws : List Nat}

/-! ## What was drawn

  A draw that ends has a number whose cell was free.  The cells are marked as the numbers are
  drawn, so a later draw cannot come to the same number again. -/

/-- From the map `used` to the map `used'` the numbers `vs` have been drawn. -/
structure Drawn (base n : Nat) (used used' : Nat → Bool) (vs : List Nat) : Prop where
  nodup : vs.Nodup
  lt : ∀ w ∈ vs, w < n
  fresh : ∀ w ∈ vs, used (base + w) = false
  marked : ∀ w ∈ vs, used' (base + w) = true
  others : ∀ i, i ∉ vs.map (base + ·) → used' i = used i

namespace Drawn

theorem nil : Drawn base n used used [] where
  nodup := List.nodup_nil
  lt _ hw := absurd hw List.not_mem_nil
  fresh _ hw := absurd hw List.not_mem_nil
  marked _ hw := absurd hw List.not_mem_nil
  others _ _ := rfl

/-- Marked cells stay marked. -/
theorem mono (h : Drawn base n used used' vs) {i : Nat} (hi : used i = true) : used' i = true := by
  by_cases hin : i ∈ vs.map (base + ·)
  · obtain ⟨w, hw, rfl⟩ := List.mem_map.mp hin
    exact h.marked w hw
  · rw [h.others i hin, hi]

/-- **Two rows of draws**, one after the other. -/
theorem append (h : Drawn base n used used' vs) (h' : Drawn base n used' used'' ws) :
    Drawn base n used used'' (vs ++ ws) := by
  constructor
  case nodup =>
    rw [List.nodup_append]
    refine ⟨h.nodup, h'.nodup, ?_⟩
    rintro w hv _ hw rfl
    have hmarked := h.marked w hv
    rw [h'.fresh w hw] at hmarked
    exact absurd hmarked (by decide)
  case lt =>
    intro w hw
    rcases List.mem_append.mp hw with hw | hw
    · exact h.lt w hw
    · exact h'.lt w hw
  case fresh =>
    intro w hw
    rcases List.mem_append.mp hw with hw | hw
    · exact h.fresh w hw
    · have hfree := h'.fresh w hw
      cases hu : used (base + w)
      · rfl
      · rw [h.mono hu] at hfree
        exact absurd hfree (by decide)
  case marked =>
    intro w hw
    rcases List.mem_append.mp hw with hw | hw
    · exact h'.mono (h.marked w hw)
    · exact h'.marked w hw
  case others =>
    intro i hi
    rw [List.map_append, List.mem_append, not_or] at hi
    rw [h'.others i hi.2, h.others i hi.1]

end Drawn

theorem draw_spec (hn : 0 < n) (h : draw base n used rands = some (v, rest)) :
    v < n ∧ used (base + v) = false := by
  induction rands with
  | nil => exact absurd h (by simp [draw])
  | cons r rands ih =>
    rw [draw] at h
    by_cases hu : used (base + r % n) = true
    · rw [if_pos hu] at h
      exact ih h
    · rw [if_neg hu] at h
      obtain ⟨rfl, -⟩ := Prod.mk.inj (Option.some.inj h)
      exact ⟨Nat.mod_lt _ hn, Bool.eq_false_iff.mpr hu⟩

/-- One draw, and its mark. -/
theorem Drawn.one (hn : 0 < n) (h : draw base n used rands = some (v, rest)) :
    Drawn base n used (Function.update used (base + v) true) [v] := by
  obtain ⟨hlt, hfree⟩ := draw_spec hn h
  constructor
  case nodup => exact List.nodup_singleton v
  case lt => exact fun w hw => List.mem_singleton.mp hw ▸ hlt
  case fresh => exact fun w hw => List.mem_singleton.mp hw ▸ hfree
  case marked =>
    intro w hw
    rw [List.mem_singleton.mp hw, Function.update_self]
  case others =>
    intro i hi
    rw [List.map_singleton, List.mem_singleton] at hi
    exact Function.update_of_ne hi _ _

/-! ## That draws end

  With fewer than `n` numbers drawn one is free, since there are `n` of them.  As every number
  keeps coming up, that one does, and the draw ends there at the latest. -/

/-- **There is room** as long as fewer than `n` have been drawn. -/
theorem Drawn.room (h : Drawn base n used used' vs) (hfree : ∀ w, w < n → used (base + w) = false)
    (hlt : vs.length < n) : ∃ w, w < n ∧ used' (base + w) = false := by
  have hcard : vs.toFinset.card < (Finset.range n).card := by
    rw [Finset.card_range]
    exact Nat.lt_of_le_of_lt (List.toFinset_card_le vs) hlt
  obtain ⟨w, hw, hnew⟩ := Finset.exists_mem_notMem_of_card_lt_card hcard
  rw [Finset.mem_range] at hw
  rw [List.mem_toFinset] at hnew
  refine ⟨w, hw, ?_⟩
  rw [h.others, hfree w hw]
  intro hin
  obtain ⟨w', hw', heq⟩ := List.mem_map.mp hin
  obtain rfl : w' = w := Nat.add_left_cancel heq
  exact hnew hw'

/-- A source of random numbers below `bound`: each keeps coming up. -/
def Recurs (bound : Nat) (source : Nat → Nat) : Prop :=
  ∀ w, w < bound → ∀ p, ∃ q, p ≤ q ∧ source q = w

/-- What the source gives from the `p`-th number on, up to the `m`-th. -/
def window (source : Nat → Nat) (p m : Nat) : List Nat := (List.range' p (m - p)).map source

theorem window_of_lt {source : Nat → Nat} {p m : Nat} (h : p < m) :
    window source p m = source p :: window source (p + 1) m := by
  rw [window, show m - p = m - (p + 1) + 1 by omega, List.range'_succ, List.map_cons]
  rfl

/-- **A draw ends.**  From the `p`-th number on it gets as far as the `q`-th, however many
    follow. -/
theorem draw_ends {source : Nat → Nat} {bound : Nat} (hsource : Recurs bound source)
    (hn : n ≤ bound) (hroom : ∃ w, w < n ∧ used (base + w) = false) (p : Nat) :
    ∃ v q, p ≤ q ∧ ∀ m, q ≤ m →
    draw base n used (window source p m) = some (v, window source q m) := by
  obtain ⟨w, hw, hfree⟩ := hroom
  obtain ⟨j, hj, hjw⟩ := hsource w (Nat.lt_of_lt_of_le hw hn) p
  obtain ⟨d, hd⟩ := Nat.exists_eq_add_of_le hj
  -- by induction on the way to a number that is free
  induction d generalizing p with
  | zero =>
    rw [hd] at hjw
    refine ⟨w, p + 1, Nat.le_succ p, fun m hm => ?_⟩
    rw [window_of_lt hm, draw, show source p = w from hjw, Nat.mod_eq_of_lt hw, hfree]
    rfl
  | succ d ih =>
    by_cases hu : used (base + source p % n) = true
    · obtain ⟨v, q, hq, hdraw⟩ := ih (p + 1) (by omega) (by omega)
      refine ⟨v, q, by omega, fun m hm => ?_⟩
      rw [window_of_lt (by omega), draw, if_pos hu, hdraw m hm]
    · refine ⟨source p % n, p + 1, Nat.le_succ p, fun m hm => ?_⟩
      rw [window_of_lt hm, draw, if_neg hu]

end Draws
