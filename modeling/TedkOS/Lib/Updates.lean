/-
  The map a list of assignments leaves: under each name the value it was last given.

  Keys that have one name are one key.  `lastValue` folds the assignments from left to right, so a
  later one wins; `lastValue_ne_none_iff` and `lastValue_mem` say what can be in the map.

  Nothing here names a program.
-/
import Mathlib.Logic.Function.Basic
import Mathlib.Data.List.Basic

namespace Updates

variable {K N V : Type} [DecidableEq N] (name : K → N)

/-- The map `m` after the assignments. -/
def assign (m : N → Option V) (kvs : List (K × V)) : N → Option V :=
  kvs.foldl (fun m kv => Function.update m (name kv.1) (some kv.2)) m

/-- The value a name was last given. -/
def lastValue (kvs : List (K × V)) : N → Option V := assign name (fun _ => none) kvs

variable {name} {m : N → Option V} {kvs : List (K × V)} {n : N} {v : V}

@[simp] theorem assign_nil (m : N → Option V) : assign name m ([] : List (K × V)) = m := rfl

theorem assign_cons (m : N → Option V) (kv : K × V) (kvs : List (K × V)) :
    assign name m (kv :: kvs) = assign name (Function.update m (name kv.1) (some kv.2)) kvs := rfl

/-- A value comes from the map before or from an assignment. -/
theorem assign_mem (h : assign name m kvs n = some v) :
    m n = some v ∨ ∃ kv ∈ kvs, name kv.1 = n ∧ kv.2 = v := by
  induction kvs generalizing m with
  | nil => exact .inl h
  | cons kv kvs ih =>
    rw [assign_cons] at h
    rcases ih h with h | ⟨kv', hkv', h⟩
    · by_cases hn : n = name kv.1
      · rw [hn, Function.update_self] at h
        exact .inr ⟨kv, List.mem_cons_self, hn.symm, Option.some.inj h⟩
      · rw [Function.update_of_ne hn] at h
        exact .inl h
    · exact .inr ⟨kv', List.mem_cons_of_mem _ hkv', h⟩

/-- A name has a value if it had one before or was given one. -/
theorem assign_ne_none_iff : assign name m kvs n ≠ none ↔ m n ≠ none ∨ ∃ kv ∈ kvs,
    name kv.1 = n := by
  induction kvs generalizing m with
  | nil => simp
  | cons kv kvs ih =>
    rw [assign_cons, ih, List.exists_mem_cons_iff]
    by_cases hn : n = name kv.1
    · rw [hn, Function.update_self]
      simp
    · rw [Function.update_of_ne hn, or_iff_right (fun h : name kv.1 = n => hn h.symm)]

theorem lastValue_mem (h : lastValue name kvs n = some v) :
    ∃ kv ∈ kvs, name kv.1 = n ∧ kv.2 = v := by
  rcases assign_mem h with h | h
  · cases h
  · exact h

theorem lastValue_ne_none_iff : lastValue name kvs n ≠ none ↔ ∃ kv ∈ kvs, name kv.1 = n := by
  rw [lastValue, assign_ne_none_iff]
  exact or_iff_right fun h => h rfl

end Updates
