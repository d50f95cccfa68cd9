/-
  The hash table of inc/klibs/lphashtable.h: linear probing over an array of `size` cells, with no
  deletion.

  A search starts at the key's home cell and walks on, round the end of the array, to the first cell
  that is free or holds the key.  `probe` runs that loop for `size` rounds; `probe_eq_some_iff` says
  that this is the loop of the source: it ends at `j` exactly when the walk reaches `j` (`Reaches`).

  Inserting fills a cell that no search for another key ends at, so every key stays where a search
  for it ends (`Ordered.put`).  From that the table is a finite map: a lookup finds exactly what is
  stored (`get_eq_some_iff`) and a `put` changes what is stored under its own key only
  (`stored_put`).

  Over a run of puts the table refines a map from names to values, a name being what equal keys have
  in common (`Refines`).  It has no more entries than there are names, so with fewer names than
  cells a cell stays free, and every search ends.
-/
import TedkOS.Lib.Updates
import Mathlib.Data.Finset.Range
import Mathlib.Data.Finset.Card
import Mathlib.Data.Fintype.Basic

namespace TedkOS.Klibs

/-- `HashFn` and the `operator ==` of the keys; keys that are equal have one hash. -/
structure Hashing (From : Type) where
  hash : From → BitVec 32
  same : From → From → Bool
  refl (a : From) : same a a = true
  symm {a b : From} : same a b = true → same b a = true
  trans {a b c : From} : same a b = true → same b c = true → same a c = true
  hash_eq {a b : From} : same a b = true → hash a = hash b

/-- `table`; a cell that is not set is `none`. -/
abbrev LinearProbingHashTable (From To : Type) := Nat → Option (From × To)

namespace LinearProbingHashTable

variable {From To : Type} (size : Nat) (F : Hashing From)

/-- The cell a search for `key` starts at. -/
def home (key : From) : Nat := (F.hash key).toNat % size

/-- Whether a search for `key` ends at cell `slot`. -/
def stops (t : LinearProbingHashTable From To) (key : From) (slot : Nat) : Bool :=
  match t slot with
  | none => true
  | some (k, _) => F.same k key

/-- The `while` loop of `get` and `put`, for a number of rounds. -/
def probeLoop (t : LinearProbingHashTable From To) (key : From) : Nat → Nat → Option Nat
  | 0, _ => none
  | rounds + 1, slot =>
    if stops F t key slot then some slot else probeLoop t key rounds ((slot + 1) % size)

/-- The cell a search for `key` ends at; `none` when every cell was seen, so that it never ends. -/
def probe (t : LinearProbingHashTable From To) (key : From) : Option Nat :=
  probeLoop size F t key size (home size F key)

/-- `get(key, found)`: the value, if found; the outer `none` is the search that never ends. -/
def get (t : LinearProbingHashTable From To) (key : From) : Option (Option To) :=
  (probe size F t key).map fun slot => (t slot).map Prod.snd

/-- `put(key, value)`. -/
def put (t : LinearProbingHashTable From To) (key : From) (value : To) :
    Option (LinearProbingHashTable From To) :=
  (probe size F t key).map fun slot => Function.update t slot (some (key, value))

/-! ## What a search does

  `Reaches` is the walk of a search as a relation, a cell at a time.  It has no rounds to run out
  of, and is what the loop is compared with. -/

/-- The walk of a `while` loop: from `slot`, step by step, to the first cell that stops it. -/
inductive Reaches (stop : Nat → Bool) : Nat → Nat → Prop
  | here {slot : Nat} : stop slot = true → Reaches stop slot slot
  | step {slot j : Nat} : stop slot = false → Reaches stop ((slot + 1) % size) j →
    Reaches stop slot j

section Walk

variable {size} {stop stop' : Nat → Bool} {slot j j' : Nat}

/-- A walk ends where it has to stop, -/
theorem Reaches.stops_at (h : Reaches size stop slot j) : stop j = true := by
  induction h with
  | here h => exact h
  | step _ _ ih => exact ih

/-- A walk has one end. -/
theorem Reaches.unique (h : Reaches size stop slot j) (h' : Reaches size stop slot j') :
    j = j' := by
  induction h with
  | here hs =>
    cases h' with
    | here _ => rfl
    | step hs' _ => rw [hs] at hs'; exact absurd hs' (by decide)
  | step hs _ ih =>
    cases h' with
    | here hs' => rw [hs] at hs'; exact absurd hs' (by decide)
    | step _ h' => exact ih h'

/-- The walk is the same as long as the cells it passed still let it pass. -/
theorem Reaches.mono (h : Reaches size stop slot j)
    (hpass : ∀ i, stop i = false → stop' i = false) (hend : stop' j = true) :
    Reaches size stop' slot j := by
  induction h with
  | here _ => exact .here hend
  | step hs _ ih => exact .step (hpass _ hs) (ih hend)

/-- inside the array. -/
theorem Reaches.lt (h : Reaches size stop slot j) (hslot : slot < size) : j < size := by
  induction h with
  | here _ => exact hslot
  | step _ _ ih =>
    apply ih
    exact Nat.mod_lt _ (by omega)

end Walk

section Search

variable {size F} {t t' : LinearProbingHashTable From To} {key k : From} {v w : To}
  {rounds slot j : Nat}

/-- The home of a key is a cell of the array. -/
theorem home_lt (hsize : 0 < size) (key : From) : home size F key < size := Nat.mod_lt _ hsize

/-- Equal keys are searched for alike. -/
theorem home_eq (h : F.same k key = true) : home size F k = home size F key := by
  rw [home, home, F.hash_eq h]

/-- Equal keys are equal to the same keys, -/
theorem same_congr (h : F.same key k = true) (a : From) : F.same a key = F.same a k := by
  rw [Bool.eq_iff_iff]
  constructor
  · intro ha
    exact F.trans ha h
  · intro ha
    exact F.trans ha (F.symm h)

/-- so their walks stop at the same cells. -/
theorem stops_eq (h : F.same key k = true) : stops F t key = stops F t k := by
  funext i
  unfold stops
  cases t i with
  | none => rfl
  | some e => exact same_congr h e.1

/-- Every walk stops at a free cell, -/
theorem stops_free (h : t j = none) : stops F t key j = true := by
  rw [stops, h]

/-- and at a cell with its key. -/
theorem stops_set (h : t j = some (k, v)) : stops F t key j = F.same k key := by
  rw [stops, h]

/-- The loop ends where the walk does. -/
theorem reaches_of_probeLoop (h : probeLoop size F t key rounds slot = some j) :
    Reaches size (stops F t key) slot j := by
  induction rounds generalizing slot with
  | zero => exact absurd h (by simp [probeLoop])
  | succ rounds ih =>
    rw [probeLoop] at h
    cases hs : stops F t key slot with
    | true =>
      rw [if_pos hs] at h
      cases h
      exact .here hs
    | false =>
      rw [if_neg (by rw [hs]; decide)] at h
      exact .step hs (ih h)

/-- A loop that did not end has passed every cell it came to. -/
theorem passed_of_probeLoop (h : probeLoop size F t key rounds (slot % size) = none) {d : Nat}
    (hd : d < rounds) : stops F t key ((slot + d) % size) = false := by
  induction rounds generalizing slot d with
  | zero => omega
  | succ rounds ih =>
    rw [probeLoop] at h
    cases hs : stops F t key (slot % size) with
    | true => rw [if_pos hs] at h; exact absurd h (by simp)
    | false =>
      rw [if_neg (by rw [hs]; decide), Nat.mod_add_mod] at h
      cases d with
      | zero => exact hs
      | succ d =>
        have hnext := ih h (show d < rounds by omega)
        rwa [show slot + 1 + d = slot + (d + 1) by omega] at hnext

/-- After `size` rounds every cell has been passed. -/
theorem passed_of_probe (h : probe size F t key = none) (hj : j < size) :
    stops F t key j = false := by
  have hhome : home size F key < size := home_lt (by omega) key
  rw [probe, ← Nat.mod_eq_of_lt hhome] at h
  have hpass := passed_of_probeLoop h
    (show (j + size - home size F key) % size < size from Nat.mod_lt _ (by omega))
  rw [Nat.add_mod_mod, show home size F key + (j + size - home size F key) = j + size by omega,
    Nat.add_mod_right, Nat.mod_eq_of_lt hj] at hpass
  exact hpass

/-- **The rounds suffice.**  `probe` ends at `j` exactly when the walk does. -/
theorem probe_eq_some_iff (hsize : 0 < size) :
    probe size F t key = some j ↔ Reaches size (stops F t key) (home size F key) j := by
  constructor
  · exact reaches_of_probeLoop
  · intro hr
    cases hp : probe size F t key with
    | some i => rw [(reaches_of_probeLoop hp).unique hr]
    | none =>
      have hj := hr.lt (home_lt hsize key)
      have hpass := passed_of_probe hp hj
      rw [hr.stops_at] at hpass
      exact absurd hpass (by decide)

end Search

/-! ## Room

  With a free cell in the table every search ends, since it would stop there at the latest. -/

/-- How many cells are set. -/
def used (t : LinearProbingHashTable From To) : Nat :=
  ((Finset.range size).filter fun j => (t j).isSome = true).card

section Room

variable {size F} {t t' : LinearProbingHashTable From To} {key : From} {value : To}

/-- While a cell is free, every search ends. -/
theorem probe_ends (hroom : used size t < size) (key : From) :
    ∃ j, probe size F t key = some j := by
  cases hp : probe size F t key with
  | some j => exact ⟨j, rfl⟩
  | none =>
    -- every cell was passed, so every cell is set
    exfalso
    have hall : (Finset.range size).filter (fun j => (t j).isSome = true) = Finset.range size := by
      apply Finset.filter_true_of_mem
      intro j hj
      have hpass := passed_of_probe hp (Finset.mem_range.mp hj)
      cases hcell : t j with
      | none => rw [stops_free hcell] at hpass; exact absurd hpass (by decide)
      | some e => rfl
    rw [used, hall, Finset.card_range] at hroom
    omega

/-- With a cell free, every lookup ends, -/
theorem get_ends (hroom : used size t < size) (key : From) : ∃ r, get size F t key = some r := by
  obtain ⟨j, hj⟩ := probe_ends (F := F) hroom key
  exact ⟨_, by rw [get, hj]; rfl⟩

/-- and every `put`. -/
theorem put_ends (hroom : used size t < size) (key : From) (value : To) :
    ∃ t', put size F t key value = some t' := by
  obtain ⟨j, hj⟩ := probe_ends (F := F) hroom key
  exact ⟨_, by rw [put, hj]; rfl⟩

/-- What a `put` has done: one cell, where the search for its key ends, is set. -/
theorem put_cases (h : put size F t key value = some t') :
    ∃ slot, probe size F t key = some slot ∧ t' = Function.update t slot (some (key, value)) := by
  obtain ⟨slot, hslot, rfl⟩ := Option.map_eq_some_iff.mp h
  exact ⟨slot, hslot, rfl⟩

/-- A `put` sets at most one more cell. -/
theorem used_put (h : put size F t key value = some t') : used size t' ≤ used size t + 1 := by
  obtain ⟨slot, -, rfl⟩ := put_cases h
  apply le_trans (Finset.card_le_card (t := insert slot
    ((Finset.range size).filter fun j => (t j).isSome = true)) _) (Finset.card_insert_le _ _)
  intro j hj
  rw [Finset.mem_filter] at hj
  rw [Finset.mem_insert, Finset.mem_filter]
  by_cases hjs : j = slot
  · exact Or.inl hjs
  · rw [Function.update_of_ne hjs] at hj
    exact Or.inr hj

end Room

/-! ## The table as a map

  The invariant is `Ordered`.  A search walks over full cells only, and filling a cell takes away
  no full one, so the searches for the other keys end where they did. -/

/-- `v` is stored under `key`. -/
def Stored (t : LinearProbingHashTable From To) (key : From) (v : To) : Prop :=
  ∃ j k, t j = some (k, v) ∧ F.same k key = true

/-- Every key lies where a search for it ends. -/
def Ordered (t : LinearProbingHashTable From To) : Prop :=
  ∀ j k v, t j = some (k, v) → probe size F t k = some j

section Map

variable {size F} {t t' : LinearProbingHashTable From To} {key k : From} {value v : To} {j : Nat}

/-- Equal keys are searched for at the same cells. -/
theorem probe_congr (h : F.same k key = true) : probe size F t k = probe size F t key := by
  have hloop : ∀ rounds slot,
      probeLoop size F t k rounds slot = probeLoop size F t key rounds slot := by
    intro rounds
    induction rounds with
    | zero => intro slot; rfl
    | succ rounds ih =>
      intro slot
      rw [probeLoop, probeLoop, stops_eq h, ih]
  rw [probe, probe, home_eq h, hloop]

/-- Equal keys have the same value. -/
theorem stored_congr (h : F.same key k = true) (hstored : Stored F t key v) : Stored F t k v := by
  obtain ⟨j, a, hj, ha⟩ := hstored
  exact ⟨j, a, hj, F.trans ha h⟩

/-- **Inserting keeps every key where it is found.** -/
theorem Ordered.put (ht : Ordered size F t) (hsize : 0 < size)
    (h : put size F t key value = some t') :
    Ordered size F t' := by
  obtain ⟨slot, hslot, rfl⟩ := put_cases h
  rw [probe_eq_some_iff hsize] at hslot
  -- a cell passed in a search for another key is passed still: what the new entry replaces, if
  -- anything, is an equal key
  have hpass : ∀ a, F.same key a = false → ∀ i, stops F t a i = false →
      stops F (Function.update t slot (some (key, value))) a i = false := by
    intro a ha i hi
    by_cases his : i = slot
    · rw [his, stops_set (Function.update_self _ _ _)]
      exact ha
    · rw [stops, Function.update_of_ne his]
      exact hi
  intro j k v hj
  rw [probe_eq_some_iff hsize]
  by_cases hjs : j = slot
  · -- the new entry
    rw [hjs, Function.update_self] at hj
    cases hj
    rw [hjs]
    have hend : stops F (Function.update t slot (some (key, value))) key slot = true := by
      rw [stops_set (Function.update_self _ _ _)]
      exact F.refl key
    apply hslot.mono _ hend
    intro i hi
    have his : i ≠ slot := by
      rintro rfl
      rw [hslot.stops_at] at hi
      exact absurd hi (by decide)
    rw [stops, Function.update_of_ne his]
    exact hi
  · -- an old one
    rw [Function.update_of_ne hjs] at hj
    have hold := (probe_eq_some_iff hsize).mp (ht j k v hj)
    have hne : F.same key k = false := by
      rw [Bool.eq_false_iff]
      intro hsame
      apply hjs
      have hprobe := (probe_eq_some_iff hsize).mpr hslot
      rw [probe_congr hsame, ht j k v hj] at hprobe
      exact Option.some.inj hprobe
    apply hold.mono (hpass k hne)
    rw [stops, Function.update_of_ne hjs]
    exact hold.stops_at

/-- **A lookup finds what is stored.** -/
theorem get_eq_some_iff (ht : Ordered size F t) (hsize : 0 < size) :
    get size F t key = some (some v) ↔ Stored F t key v := by
  constructor
  · intro hget
    obtain ⟨j, hj, hv⟩ := Option.map_eq_some_iff.mp hget
    obtain ⟨⟨k, v'⟩, hcell, hv'⟩ := Option.map_eq_some_iff.mp hv
    cases hv'
    have hstop := ((probe_eq_some_iff hsize).mp hj).stops_at
    rw [stops_set hcell] at hstop
    exact ⟨j, k, hcell, hstop⟩
  · rintro ⟨j, k, hcell, hsame⟩
    rw [get, ← probe_congr hsame, ht j k v hcell, Option.map_some, hcell, Option.map_some]

/-- **A `put` changes what is stored under its own key only.** -/
theorem stored_put (ht : Ordered size F t) (hsize : 0 < size)
    (h : put size F t key value = some t') :
    Stored F t' k v ↔ (F.same key k = true ∧ v = value) ∨
    (F.same key k = false ∧ Stored F t k v) := by
  have ht' := ht.put hsize h
  obtain ⟨slot, hslot, rfl⟩ := put_cases h
  constructor
  · rintro ⟨j, a, hj, ha⟩
    by_cases hjs : j = slot
    · rw [hjs, Function.update_self] at hj
      cases hj
      exact Or.inl ⟨ha, rfl⟩
    · right
      have hfound := ht' j a v hj
      rw [Function.update_of_ne hjs] at hj
      refine ⟨?_, j, a, hj, ha⟩
      rw [Bool.eq_false_iff]
      intro hsame
      apply hjs
      have hnew := ht' slot key value (Function.update_self _ _ _)
      rw [probe_congr (F.trans hsame (F.symm ha)), hfound] at hnew
      exact Option.some.inj hnew
  · rintro (⟨hsame, rfl⟩ | ⟨hne, j, a, hj, ha⟩)
    · exact ⟨slot, key, Function.update_self _ _ _, hsame⟩
    · have hjs : j ≠ slot := by
        rintro rfl
        have hstop := ((probe_eq_some_iff hsize).mp hslot).stops_at
        rw [stops_set hj] at hstop
        rw [F.trans (F.symm hstop) ha] at hne
        exact absurd hne (by decide)
      exact ⟨j, a, by rw [Function.update_of_ne hjs]; exact hj, ha⟩

end Map

/-! ## Runs

  A put keeps the refinement as long as there is a free cell, and for that the names are counted. -/

/-- One `put` after the other. -/
def putAll (t : LinearProbingHashTable From To) :
    List (From × To) → Option (LinearProbingHashTable From To)
  | [] => some t
  | kv :: kvs => (put size F t kv.1 kv.2).bind fun t' => putAll t' kvs

/-- The table stands for the map `m`, and its keys have names from the list. -/
structure Refines {Name : Type} (size : Nat) (F : Hashing From) (name : From → Name)
    (names : List Name) (t : LinearProbingHashTable From To) (m : Name → Option To) : Prop where
  /-- Every key is where a search for it ends. -/
  ordered : Ordered size F t
  /-- Under a key is what the map has under its name; -/
  stored : ∀ k v, Stored F t k v ↔ m (name k) = some v
  /-- and no cell is used for a name that is not in the list. -/
  keys : ∀ j k v, t j = some (k, v) → name k ∈ names

/-- The empty table stands for the empty map. -/
theorem refines_empty {Name : Type} {name : From → Name} {size : Nat} {F : Hashing From}
    (names : List Name) :
    Refines size F name names (fun _ => none : LinearProbingHashTable From To) fun _ => none where
  ordered j k v h := by cases h
  stored k v := by
    constructor
    · rintro ⟨j, a, hj, -⟩
      cases hj
    · intro h
      cases h
  keys j k v h := by cases h

section Runs

variable {Name : Type} [DecidableEq Name] {name : From → Name} {size F}
  {t t' : LinearProbingHashTable From To} {m : Name → Option To} {names : List Name}

/-- **A table has no more entries than its keys have names**: a search for a name ends at one
    cell. -/
theorem Refines.used_le (hname : ∀ a b, F.same a b = true ↔ name a = name b)
    (h : Refines size F name names t m) : used size t ≤ names.dedup.length := by
  rw [used, ← List.card_toFinset, ← Finset.card_map (s := names.toFinset) Function.Embedding.some]
  apply Finset.card_le_card_of_injOn fun j => (t j).map fun e => name e.1
  · intro j hj
    rw [Finset.mem_coe, Finset.mem_filter] at hj
    obtain ⟨⟨k, v⟩, hcell⟩ := Option.isSome_iff_exists.mp hj.2
    rw [Finset.mem_coe, Finset.mem_map]
    refine ⟨name k, List.mem_toFinset.mpr (h.keys j k v hcell), ?_⟩
    show some (name k) = (t j).map fun e => name e.1
    rw [hcell, Option.map_some]
  · intro j hj i hi heq
    rw [Finset.mem_coe, Finset.mem_filter] at hj hi
    obtain ⟨⟨k, v⟩, hj⟩ := Option.isSome_iff_exists.mp hj.2
    obtain ⟨⟨k', v'⟩, hi⟩ := Option.isSome_iff_exists.mp hi.2
    dsimp only at heq
    rw [hj, hi] at heq
    have hsame := (hname k k').mpr (Option.some.inj heq)
    have hfound := h.ordered j k v hj
    rw [probe_congr hsame, h.ordered i k' v' hi] at hfound
    exact (Option.some.inj hfound).symm

/-- **One `put`** updates the map. -/
theorem Refines.put (hname : ∀ a b, F.same a b = true ↔ name a = name b)
    (h : Refines size F name names t m) (hroom : names.dedup.length < size) {key : From}
    (hkey : name key ∈ names) (value : To) :
    ∃ t', put size F t key value = some t' ∧
      Refines size F name names t' (Function.update m (name key) (some value)) := by
  have hsize : 0 < size := by omega
  obtain ⟨t', hput⟩ := put_ends (F := F) (Nat.lt_of_le_of_lt (h.used_le hname) hroom) key value
  refine ⟨t', hput, ?_⟩
  constructor
  case ordered => exact h.ordered.put hsize hput
  case stored =>
    intro k v
    rw [stored_put h.ordered hsize hput, h.stored]
    by_cases hsame : name k = name key
    · rw [hsame, Function.update_self, (hname key k).mpr hsame.symm]
      simp only [true_and, Bool.true_eq_false, false_and, or_false]
      exact ⟨fun hv => congrArg some hv.symm, fun hv => (Option.some.inj hv).symm⟩
    · have hdiff : F.same key k = false := by
        rw [Bool.eq_false_iff]
        exact fun hs => hsame ((hname key k).mp hs).symm
      rw [Function.update_of_ne hsame, hdiff]
      simp only [Bool.false_eq_true, false_and, true_and, false_or]
  case keys =>
    intro j k v hj
    obtain ⟨slot, -, rfl⟩ := put_cases hput
    by_cases hjs : j = slot
    · rw [hjs, Function.update_self] at hj
      cases hj
      exact hkey
    · rw [Function.update_of_ne hjs] at hj
      exact h.keys j k v hj

/-- A run of puts assigns one name after the other. -/
theorem Refines.putAll (hname : ∀ a b, F.same a b = true ↔ name a = name b)
    (hroom : names.dedup.length < size) (kvs : List (From × To))
    (hkeys : ∀ kv ∈ kvs, name kv.1 ∈ names) (h : Refines size F name names t m) :
    ∃ t', putAll size F t kvs = some t' ∧ Refines size F name names t'
      (Updates.assign name m kvs) := by
  induction kvs generalizing t m with
  | nil => exact ⟨t, rfl, h⟩
  | cons kv kvs ih =>
    obtain ⟨t₁, hput, h₁⟩ := h.put hname hroom (hkeys kv List.mem_cons_self) kv.2
    obtain ⟨t', hall, h'⟩ := ih (fun kv hkv => hkeys kv (List.mem_cons_of_mem _ hkv)) h₁
    refine ⟨t', ?_, h'⟩
    rw [LinearProbingHashTable.putAll, hput]
    exact hall

/-- **A lookup** reads the map, and its walk ends. -/
theorem Refines.get (hname : ∀ a b, F.same a b = true ↔ name a = name b)
    (h : Refines size F name names t m) (hroom : names.dedup.length < size) (key : From) :
    (∃ slot, Reaches size (stops F t key) (home size F key) slot) ∧
      get size F t key = some (m (name key)) := by
  have hsize : 0 < size := by omega
  have hused := Nat.lt_of_le_of_lt (h.used_le hname) hroom
  constructor
  · obtain ⟨slot, hslot⟩ := probe_ends (F := F) hused key
    exact ⟨slot, (probe_eq_some_iff hsize).mp hslot⟩
  · obtain ⟨r, hr⟩ := get_ends (F := F) hused key
    rw [hr]
    cases r with
    | some v =>
      have hstored := (get_eq_some_iff h.ordered hsize).mp hr
      rw [(h.stored key v).mp hstored]
    | none =>
      cases hm : m (name key) with
      | none => rfl
      | some v =>
        have hget := (get_eq_some_iff h.ordered hsize).mpr ((h.stored key v).mpr hm)
        rw [hget] at hr
        cases hr

end Runs

end LinearProbingHashTable

end TedkOS.Klibs
