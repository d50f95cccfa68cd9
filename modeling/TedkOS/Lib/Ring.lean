/-
  Lists laid out in a ring of slots.

  A ring has `cap` slots.  `Holds c cap front l` says that the contents `c` have the list `l` in the
  slots from `front` on, in order, going round from the last slot to slot 0; what the other slots
  contain is not said.  The rules are the operations of a double-ended queue:

  * `Holds.snoc`, `Holds.cons`     — fill the slot behind the last, or before the first;
  * `Holds.unsnoc`, `Holds.uncons` — forget the last, or the first, and clear its slot;
  * `Holds.Gap.move`  — a list with one slot left out: the element before the gap moves into it;
  * `Holds.Gap.fill`               — and the gap is filled.

  Nothing here names a program.
-/
import Mathlib.Logic.Function.Basic
import Mathlib.Data.Nat.ModEq

namespace Ring

variable {β : Type} {c : Nat → β} {cap front i j : Nat} {l l' : List β} {x : β}

/-- The slot `i` steps behind `front`. -/
def slot (cap front i : Nat) : Nat := (front + i) % cap

/-- The slots from `front` on hold `l`. -/
def Holds (c : Nat → β) (cap front : Nat) (l : List β) : Prop :=
  ∀ i x, l[i]? = some x → c (slot cap front i) = x

/-! ## Slots

  Arithmetic modulo the capacity.  Two positions that are less than a round apart have different
  slots. -/

theorem slot_lt (hcap : 0 < cap) : slot cap front i < cap := Nat.mod_lt _ hcap

theorem slot_zero (hfront : front < cap) : slot cap front 0 = front := Nat.mod_eq_of_lt hfront

/-- Less than a round apart, slots differ. -/
theorem slot_inj (hi : i < cap) (hj : j < cap) (h : slot cap front i = slot cap front j) :
    i = j := by
  have hmod : i ≡ j [MOD cap] := Nat.ModEq.add_left_cancel' front h
  exact hmod.eq_of_lt_of_lt hi hj

theorem slot_succ : (slot cap front i + 1) % cap = slot cap front (i + 1) := by
  rw [slot, Nat.mod_add_mod, slot, Nat.add_assoc]

/-- One step on, then `i` more. -/
theorem slot_next : slot cap ((front + 1) % cap) i = slot cap front (i + 1) := by
  rw [slot, Nat.mod_add_mod, slot, Nat.add_assoc, Nat.add_comm 1 i]

/-- The slot before `front`. -/
theorem slot_prev (hfront : front < cap) (hj : j = (front + cap - 1) % cap) :
    slot cap j (i + 1) = slot cap front i := by
  subst hj
  rw [slot, Nat.mod_add_mod, slot, show front + cap - 1 + (i + 1) = front + i + cap by omega,
    Nat.add_mod_right]

/-- A step back from the slot after. -/
theorem slot_pred (hcap : 0 < cap) :
    (slot cap front (i + 1) + cap - 1) % cap = slot cap front i := by
  have hstep : slot cap front (i + 1) + cap - 1 = slot cap front (i + 1) + (cap - 1) := by omega
  rw [hstep, slot, Nat.mod_add_mod, show front + (i + 1) + (cap - 1) = front + i + cap by omega,
    Nat.add_mod_right, slot]

theorem slot_slot : slot cap (slot cap front i) j = slot cap front (i + j) := by
  rw [slot, slot, Nat.mod_add_mod, slot, Nat.add_assoc]

/-! ## What a ring holds

  A statement about each position, so that a list can be taken apart and the slots beside it
  written without looking at the rest. -/

namespace Holds

theorem nil : Holds c cap front [] := fun _ _ h => absurd h (by simp)

theorem get (h : Holds c cap front l) (hi : i < l.length) : c (slot cap front i) = l[i] :=
  h i l[i] (List.getElem?_eq_getElem hi)

theorem of_get (h : ∀ i (hi : i < l.length), c (slot cap front i) = l[i]) :
    Holds c cap front l := by
  intro i x hx
  obtain ⟨hi, rfl⟩ := List.getElem?_eq_some_iff.mp hx
  exact h i hi

/-- **A list in two parts.** -/
theorem append_iff : Holds c cap front (l ++ l') ↔
    Holds c cap front l ∧ Holds c cap (slot cap front l.length) l' := by
  constructor
  · intro h
    refine ⟨fun i x hx => ?_, fun i x hx => ?_⟩
    · obtain ⟨hi, -⟩ := List.getElem?_eq_some_iff.mp hx
      exact h i x (by rw [List.getElem?_append_left hi, hx])
    · rw [slot_slot]
      refine h (l.length + i) x ?_
      rw [List.getElem?_append_right (by omega), Nat.add_sub_cancel_left, hx]
  · rintro ⟨h, h'⟩ i x hx
    rcases Nat.lt_or_ge i l.length with hi | hi
    · rw [List.getElem?_append_left hi] at hx
      exact h i x hx
    · rw [List.getElem?_append_right hi] at hx
      have hc := h' _ x hx
      rwa [slot_slot, Nat.add_sub_cancel' hi] at hc

theorem singleton_iff : Holds c cap front [x] ↔ c (slot cap front 0) = x := by
  constructor
  · intro h
    exact h 0 x rfl
  · intro h
    refine of_get fun i hi => ?_
    obtain rfl : i = 0 := by simpa using hi
    exact h

/-- A write elsewhere. -/
theorem update (h : Holds c cap front l) (hout : ∀ i, i < l.length → slot cap front i ≠ j) :
    Holds (Function.update c j x) cap front l := by
  refine of_get fun i hi => ?_
  rw [Function.update_of_ne (hout i hi), h.get hi]

/-- A write to a slot further on, less than a round away. -/
theorem update_slot (h : Holds c cap front l) (hl : l.length ≤ i) (hi : i < cap) :
    Holds (Function.update c (slot cap front i) x) cap front l := by
  refine h.update fun j hj e => ?_
  have hji := slot_inj (by omega) hi e
  omega

/-! ### The operations -/

/-- One more behind the last. -/
theorem snoc (h : Holds c cap front l) (hl : l.length < cap) :
    Holds (Function.update c (slot cap front l.length) x) cap front (l ++ [x]) := by
  rw [append_iff, singleton_iff, slot_slot, Nat.add_zero, Function.update_self]
  exact ⟨h.update_slot (Nat.le_refl _) hl, rfl⟩

/-- One more before the first. -/
theorem cons (h : Holds c cap front l) (hl : l.length < cap) (hfront : front < cap)
    (hj : j = (front + cap - 1) % cap) : Holds (Function.update c j x) cap j (x :: l) := by
  have hjlt : j < cap := by
    rw [hj]
    exact Nat.mod_lt _ (by omega)
  rw [← List.singleton_append, append_iff, singleton_iff, slot_zero hjlt, Function.update_self]
  refine ⟨rfl, ?_⟩
  have hnext : slot cap j [x].length = front := by
    rw [List.length_singleton, ← Nat.zero_add 1, slot_prev hfront hj, slot_zero hfront]
  rw [hnext]
  refine h.update fun i hi e => ?_
  -- the slot before the first is `cap - 1` steps behind it
  have hlast : slot cap front (cap - 1) = j := by rw [hj, slot, Nat.add_sub_assoc (by omega)]
  have hcap := slot_inj (by omega) (by omega) (e.trans hlast.symm)
  omega

theorem init (h : Holds c cap front (l ++ l')) : Holds c cap front l := (append_iff.mp h).1

theorem tail (h : Holds c cap front (x :: l)) : Holds c cap ((front + 1) % cap) l := by
  intro i y hy
  rw [slot_next]
  exact h (i + 1) y (by rw [List.getElem?_cons_succ, hy])

/-- The last is forgotten, and its slot written. -/
theorem unsnoc (h : Holds c cap front (l ++ l')) (hl : l.length < cap) :
    Holds (Function.update c (slot cap front l.length) x) cap front l :=
  h.init.update_slot (Nat.le_refl _) hl

/-- The first is forgotten, and its slot written. -/
theorem uncons {y : β} (h : Holds c cap front (y :: l)) (hl : l.length < cap)
    (hfront : front < cap) :
    Holds (Function.update c front x) cap ((front + 1) % cap) l := by
  refine h.tail.update fun i hi e => ?_
  rw [slot_next] at e
  have h0 := slot_inj (by omega) (by omega) (e.trans (slot_zero hfront).symm)
  omega

/-- The slot of index `l.length` is left out: `l` stands before it, `l'` behind it. -/
def Gap (c : Nat → β) (cap front : Nat) (l l' : List β) : Prop :=
  Holds c cap front l ∧ Holds c cap (slot cap front (l.length + 1)) l'

/-- Behind the last, there is a gap. -/
theorem gap (h : Holds c cap front l) : Gap c cap front l [] := ⟨h, nil⟩

/-- The gap can be written. -/
theorem Gap.update (h : Gap c cap front l l') (hlen : l.length + l'.length < cap) :
    Gap (Function.update c (slot cap front l.length) x) cap front l l' := by
  obtain ⟨hl, hl'⟩ := h
  refine ⟨hl.update_slot (Nat.le_refl _) (by omega), hl'.update fun i hi e => ?_⟩
  rw [slot_slot] at e
  have hgap := slot_inj (by omega) (by omega) e
  omega

/-- **The gap moves down** when the element before it is copied into it. -/
theorem Gap.move (h : Gap c cap front (l ++ [x]) l') (hlen : l.length + 1 + l'.length < cap) :
    Gap (Function.update c (slot cap front (l.length + 1)) x) cap front l (x :: l') := by
  have hu := h.update (x := x) (by rw [List.length_append, List.length_singleton]; exact hlen)
  rw [List.length_append, List.length_singleton] at hu
  obtain ⟨hl, hl'⟩ := hu
  rw [List.length_append, List.length_singleton] at hl'
  refine ⟨hl.init, ?_⟩
  rw [← List.singleton_append, append_iff, singleton_iff, slot_slot, Nat.add_zero,
    Function.update_self, slot_slot, List.length_singleton]
  exact ⟨rfl, hl'⟩

/-- **The gap is filled.** -/
theorem Gap.fill (h : Gap c cap front l l') (hlen : l.length + l'.length < cap) :
    Holds (Function.update c (slot cap front l.length) x) cap front (l ++ x :: l') := by
  obtain ⟨hl, hl'⟩ := h.update (x := x) hlen
  rw [append_iff, ← List.singleton_append, append_iff, singleton_iff, slot_slot, Nat.add_zero,
    Function.update_self, slot_slot, List.length_singleton]
  exact ⟨hl, rfl, hl'⟩

end Holds

end Ring
