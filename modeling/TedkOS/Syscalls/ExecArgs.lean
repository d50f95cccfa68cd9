/-
  The command line of `execute` (syscalls/exec.cpp) and what `getargs` (syscalls/getargs.cpp) gives
  a program of it.

  1. **Program** — `get_arg_position`, `store_arg` and `do_exec` on arrays of characters: a read or
     a write past the end of one stops them, and so does a `new` without room.

  2. **The two scans** — a name, spaces and an argument are taken apart again, also if there is no
     argument or nothing but spaces behind the name.

  3. **Refinement** — `do_exec_chars`: on a string in memory they do what `do_exec` does on its list
     of characters, which is what the other modules go by.  Every loop is over an array that ends
     with a NUL, which is why the scans never run off it.

  4. **Runs** — `KeepsArgs`: a process keeps the argument it was started with, and its id is never
     used again.

  5. **Round trip** — `execute_getargs`.
-/
import TedkOS.Klibs.ArrFile
import TedkOS.Syscalls.Fops
import TedkOS.Syscalls.RunQueue

namespace TedkOS.Syscalls

open Checked Fs Klibs KMemory Palloc PhysPages Proc Runs

/-! ## The program -/

/-- How `do_exec` ends when it does not return. -/
inductive Crash where
  | stop (s : Stop)
  | fault (f : Fault)

/-- The heap as a `new` finds it, and what the block it hands out held before. -/
structure HeapView where
  src : PageSupply
  mem : KMem
  held : Nat → BitVec 8

/-- `new` of so many bytes goes through. -/
def HeapView.HasRoom (heap : HeapView) (size : Nat) : Prop :=
  ∃ r, operatorNew size heap.src heap.mem = .ok r

namespace CharArray

/-- `a[i]`. -/
def read (a : List (BitVec 8)) (i : Nat) : Except Stop (BitVec 8) :=
  match a[i]? with
  | some c => .ok c
  | none => .error (.badIndex (BitVec.ofNat 32 i))

/-- `a[i] = c`. -/
def write (a : List (BitVec 8)) (i : Nat) (c : BitVec 8) : Except Stop (List (BitVec 8)) :=
  if i < a.length then .ok (a.set i c) else .error (.badIndex (BitVec.ofNat 32 i))

/-- The string an array holds. -/
def text (a : List (BitVec 8)) : List (BitVec 8) := a.takeWhile (· ≠ 0)

/-- `new char[size]`. -/
def newChars (heap : HeapView) (size : Nat) : Except Stop (List (BitVec 8)) := do
  let _ ← operatorNew size heap.src heap.mem
  return bytesFrom heap.held 0 size

/-- `for (; i < n; i++) a[i] = src(i);` with `left` rounds to go. -/
def copyLoop (src : Nat → Except Stop (BitVec 8)) :
    Nat → Nat → List (BitVec 8) → Except Stop (List (BitVec 8))
  | 0, _, a => .ok a
  | left + 1, i, a => do
    let c ← src i
    let a ← write a i c
    copyLoop src left (i + 1) a

/-- What `do_exec` and `store_arg` both do: a new array, `len` characters and a NUL. -/
def copyOf (src : Nat → Except Stop (BitVec 8)) (len : BitVec 32) (heap : HeapView) :
    Except Stop (List (BitVec 8)) := do
  let a ← newChars heap (len + 1).toNat
  let a ← copyLoop src len.toNat 0 a
  write a len.toNat 0

/-- `for (; filename[j] == ' '; j++);`, on the characters from `j` on. -/
def skipSpaces : List (BitVec 8) → Nat → Except Stop Nat
  | [], j => .error (.badIndex (BitVec.ofNat 32 j))
  | c :: rest, j => if c = 0x20 then skipSpaces rest (j + 1) else .ok j

/-- The loop of `get_arg_position` from `i` on. -/
def argLoop : Nat → Nat → List (BitVec 8) → Except Stop (BitVec 32 × List (BitVec 8))
  | 0, _, filename => .ok (-1, filename)
  | left + 1, i, filename => do
    let c ← read filename i
    if c = 0x20 then
      let j ← skipSpaces (filename.drop i) i
      let c ← read filename j
      let filename ← write filename i 0
      return (if c ≠ 0 then BitVec.ofNat 32 j else -1, filename)
    else argLoop left (i + 1) filename

/-- `get_arg_position(filename, filename_len)`: -1 for no argument. -/
def get_arg_position (filename : List (BitVec 8)) (filename_len : BitVec 32) :
    Except Stop (BitVec 32 × List (BitVec 8)) :=
  argLoop filename_len.toNat 0 filename

/-- `store_arg(filename, filename_len, arg_index, pd)`. -/
def store_arg (filename : List (BitVec 8)) (filename_len arg_index : BitVec 32) (heap : HeapView)
    (pd : Proc.ProcessDesc) : Except Stop Proc.ProcessDesc := do
  let arg_len := filename_len - arg_index
  let arg ← copyOf (fun i => read filename (BitVec.ofNat 32 i + arg_index).toNat) arg_len heap
  return { pd with arg := some (text arg) }

/-- `do_exec(arg0)`; `heap` and `heap'` are what the two `new`s find. -/
def do_exec (fs : FileSystem) (arg0 : Nat → BitVec 8) (heap heap' : HeapView) (k : Kernel) :
    Except Crash (Pid × Kernel) := do
  let filename_len := BitVec.ofNat 32 (strlen arg0)
  let file ← (copyOf (fun i => .ok (arg0 i)) filename_len heap).mapError .stop
  let (arg_index, file) ← (get_arg_position file filename_len).mapError .stop
  -- "no such command"
  if !is_kiss_executable fs (text file) then return (-1, k)
  let caller ← (k.table.thread k.current).mapError .fault
  let (child_upid, k) ← (k.newDetachedProcess caller.pid .USER_PROCESS).mapError .fault
  -- Out of PIDs
  if child_upid.slt 0 then return (256, k)
  let child ← (k.table.get child_upid).mapError .fault
  let child ← if arg_index ≠ -1 then
      (store_arg file filename_len arg_index heap' child).mapError .stop
    else pure child
  return setUpChild none caller.currTerm child_upid child k

end CharArray

/-! ## The purpose -/

/-- Executing the file of that name with that argument. -/
def startProgram (fs : FileSystem) (file : List (BitVec 8)) (arg : Option (List (BitVec 8)))
    (k : Kernel) :
    Except Fault (Pid × Kernel) := do
  if !is_kiss_executable fs file then return (-1, k)
  let caller ← k.table.thread k.current
  let (child_upid, k) ← k.newDetachedProcess caller.pid .USER_PROCESS
  if child_upid.slt 0 then return (256, k)
  let child ← k.table.get child_upid
  return setUpChild arg caller.currTerm child_upid child k

/-- That is what `do_exec` does with what it finds in the line. -/
theorem do_exec_eq (fs : FileSystem) (line : List (BitVec 8)) (k : Kernel) :
    do_exec fs line k =
      startProgram fs (get_arg_position line).2 ((get_arg_position line).1.map line.drop) k := rfl

/-! ## The two scans

  On lists, where `takeWhile` and `dropWhile` say what the loops of the source look for. -/

section Scans

/-- Characters behind which another one comes. -/
theorem takeWhile_append_of_all {p : BitVec 8 → Bool} {l r : List (BitVec 8)}
    (hl : ∀ c ∈ l, p c = true) (hr : ∀ c ∈ r.head?, p c = false) : (l ++ r).takeWhile p = l := by
  rw [List.takeWhile_append_of_pos hl]
  cases r with
  | nil => rw [List.takeWhile_nil, List.append_nil]
  | cons c r => rw [List.takeWhile_cons_of_neg (by rw [hr c rfl]; decide), List.append_nil]

variable {c a l : List (BitVec 8)}

/-- No space, no argument. -/
theorem get_arg_position_of_notMem (hc : 0x20 ∉ c) : get_arg_position c = (none, c) := by
  have hname : (c ++ []).takeWhile (· ≠ 0x20) = c :=
    takeWhile_append_of_all (fun x hx => decide_eq_true fun e => hc (e ▸ hx)) fun x hx => by
      cases hx
  rw [List.append_nil] at hname
  unfold get_arg_position
  simp only [hname, if_true]

/-- The name ends at the first space, and the spaces there are skipped. -/
theorem get_arg_position_space (hc : 0x20 ∉ c) (rest : List (BitVec 8)) :
    get_arg_position (c ++ 0x20 :: rest) =
      (if ((0x20 :: rest).takeWhile (· = 0x20)).length < (0x20 :: rest).length then
        some (c.length + ((0x20 :: rest).takeWhile (· = 0x20)).length) else none, c) := by
  have hname : (c ++ 0x20 :: rest).takeWhile (· ≠ 0x20) = c :=
    takeWhile_append_of_all (fun x hx => decide_eq_true fun e => hc (e ▸ hx)) fun x hx => by
      cases hx
      rfl
  have hlen : c.length ≠ (c ++ 0x20 :: rest).length := by simp
  unfold get_arg_position
  simp only [hname, List.drop_left]
  rw [if_neg hlen, List.length_append]
  congr 1
  exact if_congr (by omega) rfl rfl

/-- The spaces in front of an argument. -/
theorem takeWhile_spaces (n : Nat) (hhead : a.head? ≠ some 0x20) :
    (List.replicate n 0x20 ++ a).takeWhile (· = 0x20) = List.replicate n 0x20 :=
  takeWhile_append_of_all (fun _ hx => decide_eq_true (List.eq_of_mem_replicate hx)) fun _ hx =>
    decide_eq_false fun e => hhead (e ▸ hx)

/-- **A name, spaces and an argument** are taken apart again. -/
theorem get_arg_position_arg (hc : 0x20 ∉ c) (ha : a ≠ []) (hhead : a.head? ≠ some 0x20) {n : Nat}
    (hn : 1 ≤ n) :
    get_arg_position (c ++ List.replicate n 0x20 ++ a) = (some (c.length + n), c) := by
  obtain ⟨n, rfl⟩ : ∃ m, n = m + 1 := ⟨n - 1, by omega⟩
  have hspaces := takeWhile_spaces (n + 1) hhead
  have hpos : 0 < a.length := List.length_pos_of_ne_nil ha
  rw [List.replicate_succ, List.cons_append] at hspaces
  rw [List.append_assoc, List.replicate_succ, List.cons_append, get_arg_position_space hc, hspaces,
    List.length_cons, List.length_replicate, List.length_cons, List.length_append,
    List.length_replicate, if_pos (by omega)]

/-- **A name and spaces** hold no argument. -/
theorem get_arg_position_none (hc : 0x20 ∉ c) (n : Nat) :
    get_arg_position (c ++ List.replicate n 0x20) = (none, c) := by
  cases n with
  | zero =>
    rw [List.replicate_zero, List.append_nil]
    exact get_arg_position_of_notMem hc
  | succ n =>
    have hspaces := takeWhile_spaces (a := []) (n + 1) (by simp)
    rw [List.append_nil, List.replicate_succ] at hspaces
    rw [List.replicate_succ, get_arg_position_space hc, hspaces, if_neg (Nat.lt_irrefl _)]

/-- An argument starts behind the first space. -/
theorem arg_index_bounds {i : Nat} (h : (get_arg_position l).1 = some i) :
    (get_arg_position l).2.length < i ∧ i < l.length := by
  by_cases hmem : 0x20 ∈ l
  · obtain ⟨c, rest, rfl, hc⟩ := List.eq_append_cons_of_mem hmem
    rw [get_arg_position_space hc] at h ⊢
    have hspace : (0x20 :: rest).takeWhile (· = 0x20) = 0x20 :: rest.takeWhile (· = 0x20) :=
      List.takeWhile_cons_of_pos (decide_eq_true rfl)
    rw [hspace, List.length_cons, List.length_cons] at h
    simp only at h ⊢
    split at h
    · obtain rfl := Option.some.inj h
      rw [List.length_append, List.length_cons]
      omega
    · cases h
  · rw [get_arg_position_of_notMem hmem] at h
    cases h

end Scans

/-! ## The arrays

  Every loop on an array is the scan of the list before its NUL.  The array is one longer than
  the list, so the loop reads the NUL and stops there; `do_exec_chars` puts the loops together,
  with a heap that has room for the two arrays. -/

/-- Naming the errors of two steps is naming those of each. -/
theorem mapError_bind {ε ε' α β : Type} (g : ε → ε') (x : Except ε α) (f : α → Except ε β) :
    (x >>= f).mapError g = x.mapError g >>= fun a => (f a).mapError g := by
  cases x with
  | ok a => rfl
  | error e => rfl

/-- A block that `new` hands out has at most 1 MB. -/
theorem HeapView.HasRoom.le {heap : HeapView} {size : Nat} (h : heap.HasRoom size) :
    size ≤ 1024 * 1024 := by
  obtain ⟨r, hr⟩ := h
  exact ArrFile.operatorNew_le hr

namespace CharArray

section Arrays

variable {src : Nat → Except Stop (BitVec 8)} {f : Nat → BitVec 8} {l a : List (BitVec 8)}
    {heap : HeapView}

/-- A read inside an array goes through. -/
theorem read_of_lt {i : Nat} (hi : i < a.length) : read a i = .ok a[i] := by
  unfold read
  rw [List.getElem?_eq_getElem hi]

/-- So does a write. -/
theorem write_of_lt {i : Nat} (hi : i < a.length) (c : BitVec 8) : write a i c = .ok (a.set i c) :=
  if_pos hi

/-- The copy writes its characters from `i` on, and nothing else.  By induction on the rounds
    that are left. -/
theorem copyLoop_eq (left : Nat) : ∀ {i : Nat} {a : List (BitVec 8)}, i + left ≤ a.length →
    (∀ j, i ≤ j → j < i + left → src j = .ok (f j)) →
    copyLoop src left i a = .ok (a.take i ++ bytesFrom f i left ++ a.drop (i + left)) := by
  induction left with
  | zero =>
    intro i a _ _
    rw [copyLoop, bytesFrom, List.range_zero, List.map_nil, List.append_nil, Nat.add_zero,
      List.take_append_drop]
  | succ left ih =>
    intro i a hlen hsrc
    have hi : i < a.length := by omega
    rw [copyLoop, hsrc i (Nat.le_refl i) (by omega), ok_bind, write_of_lt hi, ok_bind,
      ih (by rw [List.length_set]; omega) fun j h1 h2 => hsrc j (by omega) (by omega),
      List.take_set, List.take_add_one, List.getElem?_eq_getElem hi, List.drop_set_of_lt (by omega),
      bytesFrom_succ, show i + 1 + left = i + (left + 1) by omega]
    congr 1
    have htake : (a.take i).length = i := by rw [List.length_take]; omega
    rw [List.set_append_right i (f i) (by omega), htake, Nat.sub_self]
    simp [List.set_cons_zero, List.append_assoc]

/-- **A copied string**, when there is room for it. -/
theorem copyOf_eq {len : BitVec 32} (hlen : len.toNat + 1 < 0x100000000)
    (hroom : heap.HasRoom (len.toNat + 1)) (hsrc : ∀ j, j < len.toNat → src j = .ok (f j)) :
    copyOf src len heap = .ok (bytesFrom f 0 len.toNat ++ [0]) := by
  obtain ⟨r, hr⟩ := hroom
  have hsize : (len + 1).toNat = len.toNat + 1 := by
    rw [BitVec.toNat_add]
    show (len.toNat + 1) % 0x100000000 = _
    omega
  have hnew : newChars heap (len + 1).toNat = .ok (bytesFrom heap.held 0 (len.toNat + 1)) := by
    unfold newChars
    rw [hsize, hr]
    rfl
  have hheld : (bytesFrom heap.held 0 (len.toNat + 1)).length = len.toNat + 1 :=
    length_bytesFrom _ _ _
  unfold copyOf
  rw [hnew, ok_bind, copyLoop_eq len.toNat (by rw [hheld]; omega) fun j _ hj => hsrc j (by omega),
    ok_bind, List.take_zero, List.nil_append, Nat.zero_add]
  have hdrop : ((bytesFrom heap.held 0 (len.toNat + 1)).drop len.toNat).length = 1 := by
    rw [List.length_drop, hheld]
    omega
  obtain ⟨x, hx⟩ := List.length_eq_one_iff.mp hdrop
  have hbytes : (bytesFrom f 0 len.toNat).length = len.toNat := length_bytesFrom _ _ _
  rw [hx, write_of_lt (by rw [List.length_append, hbytes]; exact Nat.lt_succ_self _),
    List.set_append_right _ _ (by omega), hbytes, Nat.sub_self, List.set_cons_zero]

/-- The inner scan stops at the NUL at the latest. -/
theorem skipSpaces_eq (l : List (BitVec 8)) : ∀ j, skipSpaces (l ++ [0]) j =
    .ok (j + (l.takeWhile (· = 0x20)).length) := by
  induction l with
  | nil =>
    intro j
    rfl
  | cons c l ih =>
    intro j
    rw [List.cons_append, skipSpaces]
    by_cases hc : c = 0x20
    · have htake : (c :: l).takeWhile (· = 0x20) = c :: l.takeWhile (· = 0x20) :=
        List.takeWhile_cons_of_pos (decide_eq_true hc)
      rw [if_pos hc, ih, htake, List.length_cons]
      congr 1
      omega
    · have htake : (c :: l).takeWhile (· = 0x20) = [] :=
        List.takeWhile_cons_of_neg fun h => hc (of_decide_eq_true h)
      rw [if_neg hc, htake]
      rfl

/-- The position `do_exec` gets: -1 for none. -/
def position (arg_index : Option Nat) : BitVec 32 := arg_index.elim (-1) (BitVec.ofNat 32)

/-- The outer scan, where it has passed `pre` and met no space; by induction on what is left of
    the line.  It puts a NUL where the name ends: over the first space, or over the NUL at the
    end. -/
theorem argLoop_eq (post : List (BitVec 8)) : ∀ (pre : List (BitVec 8)), 0x20 ∉ pre →
    (∀ c ∈ post, c ≠ 0) → argLoop post.length pre.length (pre ++ post ++ [0]) =
      .ok (position (Syscalls.get_arg_position (pre ++ post)).1,
        (pre ++ post ++ [0]).set (Syscalls.get_arg_position (pre ++ post)).2.length 0) := by
  induction post with
  | nil =>
    intro pre hpre _
    have h := get_arg_position_none hpre 0
    rw [List.replicate_zero] at h
    rw [h, List.append_nil, List.set_append_right _ _ (Nat.le_refl _), Nat.sub_self]
    rfl
  | cons c post ih =>
    intro pre hpre hpost
    have hread : read (pre ++ c :: post ++ [0]) pre.length = .ok c := by
      rw [read_of_lt (by simp)]
      simp
    rw [List.length_cons, argLoop, hread, ok_bind]
    by_cases hc : c = 0x20
    · subst hc
      rw [if_pos rfl, List.append_assoc, List.drop_left, skipSpaces_eq, ok_bind]
      have hle : ((0x20 :: post).takeWhile (· = 0x20)).length ≤ (0x20 :: post).length :=
        (List.takeWhile_prefix _).length_le
      rw [get_arg_position_space hpre]
      generalize ((0x20 :: post).takeWhile (· = 0x20)).length = j at hle
      have hget : (pre ++ (0x20 :: post ++ [0]))[pre.length + j]? = (0x20 :: post ++ [0])[j]? := by
        rw [List.getElem?_append_right (by omega), Nat.add_sub_cancel_left]
      rcases Nat.lt_or_ge j (0x20 :: post).length with hlt | hge
      · -- a character that is no space
        have hx : (0x20 :: post ++ [0])[j]? = some (0x20 :: post)[j] := by
          rw [List.getElem?_append_left hlt, List.getElem?_eq_getElem hlt]
        have hne : (0x20 :: post)[j] ≠ 0 := hpost _ (List.getElem_mem hlt)
        unfold read
        rw [hget, hx, ok_bind, write_of_lt (by simp), ok_bind, if_pos hne, if_pos hlt]
        rfl
      · -- the end of the string
        obtain rfl : j = (0x20 :: post).length := Nat.le_antisymm hle hge
        have hx : (0x20 :: post ++ [0])[(0x20 :: post).length]? = some 0 := by
          rw [List.getElem?_append_right (Nat.le_refl _), Nat.sub_self]
          rfl
        unfold read
        rw [hget, hx, ok_bind, write_of_lt (by simp), ok_bind, if_neg (by decide),
          if_neg (Nat.lt_irrefl _)]
        rfl
    · rw [if_neg hc]
      have h := ih (pre ++ [c]) (by
        intro hmem
        rcases List.mem_append.mp hmem with hold | hnew
        · exact hpre hold
        · exact hc (List.mem_singleton.mp hnew).symm)
            fun x hx => hpost x (List.mem_cons_of_mem _ hx)
      rw [List.length_append] at h
      rw [show pre ++ c :: post = pre ++ [c] ++ post by simp]
      exact h

/-- The string of an array ends at the first NUL. -/
theorem text_nul (hl : ∀ c ∈ l, c ≠ 0) (rest : List (BitVec 8)) : text (l ++ 0 :: rest) = l :=
  takeWhile_append_of_all (fun x hx => decide_eq_true (hl x hx)) fun x hx => by
    cases hx
    rfl

/-- The name is what the first space is cut off at. -/
theorem text_set (hl : ∀ c ∈ l, c ≠ 0) :
    text ((l ++ [0]).set (Syscalls.get_arg_position l).2.length 0) =
      (Syscalls.get_arg_position l).2 := by
  by_cases hmem : 0x20 ∈ l
  · obtain ⟨c, rest, rfl, hc⟩ := List.eq_append_cons_of_mem hmem
    rw [get_arg_position_space hc, List.append_assoc, List.set_append_right _ _ (Nat.le_refl _),
      Nat.sub_self]
    exact text_nul (fun x hx => hl x (List.mem_append_left _ hx)) _
  · rw [get_arg_position_of_notMem hmem, List.set_append_right _ _ (Nat.le_refl _), Nat.sub_self]
    exact text_nul hl []

/-- **The argument stored** is the rest of the line. -/
theorem store_arg_eq (hl : ∀ c ∈ l, c ≠ 0) {cut i : Nat} (hcut : cut < i) (hi : i < l.length)
    (hlen : l.length + 1 < 0x100000000) (hroom : heap.HasRoom (l.length - i + 1))
    (pd : Proc.ProcessDesc) :
    store_arg ((l ++ [0]).set cut 0) (BitVec.ofNat 32 l.length) (BitVec.ofNat 32 i) heap pd =
      .ok { pd with arg := some (l.drop i) } := by
  have harg_len : (BitVec.ofNat 32 l.length - BitVec.ofNat 32 i).toNat = l.length - i := by
    rw [BitVec.toNat_sub, BitVec.toNat_ofNat, BitVec.toNat_ofNat]
    omega
  have hread : ∀ j, j < (BitVec.ofNat 32 l.length - BitVec.ofNat 32 i).toNat →
      read ((l ++ [0]).set cut 0) (BitVec.ofNat 32 j + BitVec.ofNat 32 i).toNat =
        .ok (cstring l (i + j)) := by
    intro j hj
    rw [harg_len] at hj
    have hpos : (BitVec.ofNat 32 j + BitVec.ofNat 32 i).toNat = i + j := by
      rw [BitVec.toNat_add, BitVec.toNat_ofNat, BitVec.toNat_ofNat]
      omega
    have hlt : i + j < l.length := by omega
    rw [hpos, read_of_lt (by rw [List.length_set, List.length_append]; omega),
      List.getElem_set_ne (by omega), List.getElem_append_left hlt, cstring_of_lt hlt]
  unfold store_arg
  dsimp only
  rw [copyOf_eq (by omega) (by rw [harg_len]; exact hroom) hread, ok_bind, harg_len]
  have hdrop : bytesFrom (fun j => cstring l (i + j)) 0 (l.length - i) = l.drop i := by
    have h := ((holdsString_cstring l).drop (Nat.le_of_lt hi)).bytesFrom_eq
      (Nat.le_refl (l.drop i).length)
    rwa [List.take_length, List.length_drop] at h
  rw [hdrop, text_nul fun c hc => hl c (List.mem_of_mem_drop hc)]
  rfl

/-- **The scans** find what `get_arg_position` finds in the list of the characters. -/
theorem get_arg_position_eq (hl : ∀ c ∈ l, c ≠ 0) (hlen : l.length < 0x100000000) :
    get_arg_position (l ++ [0]) (BitVec.ofNat 32 l.length) =
      .ok (position (Syscalls.get_arg_position l).1,
        (l ++ [0]).set (Syscalls.get_arg_position l).2.length 0) := by
  unfold get_arg_position
  rw [BitVec.toNat_ofNat, Nat.mod_eq_of_lt hlen]
  exact argLoop_eq l [] List.not_mem_nil hl

end Arrays

/-- **The refinement**: over a string in memory, and when the heap has room, `do_exec` does what it
    does on the list of its characters. -/
theorem do_exec_chars {fs : FileSystem} {arg0 : Nat → BitVec 8} {line : List (BitVec 8)}
    {heap heap' : HeapView} (hline : ∀ c ∈ line, c ≠ 0) (hmem : HoldsString arg0 line)
    (hroom : heap.HasRoom (line.length + 1))
    (hroom' : ∀ i, (Syscalls.get_arg_position line).1 = some i →
      heap'.HasRoom (line.length - i + 1))
    (k : Kernel) :
    do_exec fs arg0 heap heap' k = (Syscalls.do_exec fs line k).mapError .fault := by
  have hle := hroom.le
  have hstrlen : strlen arg0 = line.length := hmem.strlen_eq hline (by omega)
  have hlen : (BitVec.ofNat 32 line.length).toNat = line.length := by
    rw [BitVec.toNat_ofNat]
    omega
  have hcopy : copyOf (fun i => .ok (arg0 i)) (BitVec.ofNat 32 line.length) heap =
      .ok (bytesFrom arg0 0 (BitVec.ofNat 32 line.length).toNat ++ [0]) :=
    copyOf_eq (by omega) (by rw [hlen]; exact hroom) fun _ _ => rfl
  rw [hlen, hmem.bytesFrom_eq (Nat.le_refl _), List.take_length] at hcopy
  unfold do_exec
  dsimp only
  rw [hstrlen, hcopy]
  show (get_arg_position _ _).mapError Crash.stop >>= _ = _
  rw [get_arg_position_eq hline (by omega)]
  show (if (!is_kiss_executable fs (text _)) = true then _ else _) = _
  rw [text_set hline, do_exec_eq]
  unfold startProgram
  split
  · rfl
  · rw [mapError_bind]
    congr 1
    funext caller
    rw [mapError_bind]
    congr 1
    funext r
    simp only
    split
    · rfl
    · rw [mapError_bind]
      congr 1
      funext child
      cases hi : (Syscalls.get_arg_position line).1 with
      | none => rfl
      | some i =>
        obtain ⟨hcut, hlt⟩ := arg_index_bounds hi
        -- a position is below 2^20, and not taken for "none"
        have hne : position (some i) ≠ -1 := by
          intro e
          have h := congrArg BitVec.toNat e
          rw [show position (some i) = BitVec.ofNat 32 i from rfl, BitVec.toNat_ofNat] at h
          change i % 0x100000000 = 0xffffffff at h
          omega
        rw [if_pos hne, show position (some i) = BitVec.ofNat 32 i from rfl,
          store_arg_eq hline hcut hlt (by omega) (hroom' i hi)]
        rfl

end CharArray

/-! ## The argument stays

  Between `execute` and `getargs` anything may be scheduled.  Every call either leaves a process
  its argument or ends it, and ids only go up (`KeepsArgs`); so the process that asks is the one
  that was started. -/

/-- Ids are not given twice, and a process that is still there has the argument it had. -/
structure KeepsArgs (t t' : ProcessTable) : Prop where
  /-- Ids go up only. -/
  counter : t.nextNewProcess.toNat ≤ t'.nextNewProcess.toNat
  arg : ∀ i p', i < t.nextNewProcess.toNat → t'.all_processes i = some p' →
    ∃ p, t.all_processes i = some p ∧ p'.arg = p.arg

/-- What the kernel keeps from the boot on. -/
structure Orderly (k : Kernel) : Prop where
  table : TableInv k.table
  booted : k.isFallbackTerm = false

section Keeping

variable {fs : FileSystem} {k k' : Kernel} {t t' t'' : ProcessTable} {pid : Pid}
    {p p' : Proc.ProcessDesc}

/-- Nothing has happened. -/
theorem KeepsArgs.refl (t : ProcessTable) : KeepsArgs t t :=
  ⟨Nat.le_refl _, fun _ p' _ hp' => ⟨p', hp', rfl⟩⟩

/-- Two events, one after the other: an id that is old in the first is old in the second. -/
theorem KeepsArgs.trans (h : KeepsArgs t t') (h' : KeepsArgs t' t'') : KeepsArgs t t'' := by
  refine ⟨Nat.le_trans h.counter h'.counter, fun i p'' hi hp'' => ?_⟩
  obtain ⟨p', hp', he'⟩ := h'.arg i p'' (Nat.lt_of_lt_of_le hi h.counter) hp''
  obtain ⟨p, hp, he⟩ := h.arg i p' hi hp'
  exact ⟨p, hp, he'.trans he⟩

/-- A change inside one process. -/
theorem KeepsArgs.assign (hp : t.all_processes pid.toNat = some p) (harg : p'.arg = p.arg) :
    KeepsArgs t (t.assign pid (some p')) := by
  refine ⟨Nat.le_refl _, fun i q _ hq => ?_⟩
  by_cases hi : i = pid.toNat
  · subst hi
    rw [assign_self] at hq
    cases hq
    exact ⟨p, hp, harg⟩
  · rw [assign_ne t _ hi] at hq
    exact ⟨q, hq, rfl⟩

/-- A process that leaves. -/
theorem KeepsArgs.erase (t : ProcessTable) (pid : Pid) : KeepsArgs t (t.assign pid none) := by
  refine ⟨Nat.le_refl _, fun i q _ hq => ?_⟩
  by_cases hi : i = pid.toNat
  · subst hi
    rw [assign_self] at hq
    cases hq
  · rw [assign_ne t _ hi] at hq
    exact ⟨q, hq, rfl⟩

/-- A change of a run state keeps the table in order. -/
theorem Orderly.inState (h : Orderly k) (hp : k.table.all_processes pid.toNat = some p)
    (newState : ThreadState) : TableInv (k.table.assign pid (some (p.inState newState))) :=
  (h.table.assign (p.inState newState) hp rfl rfl).1

/-- A new process leaves the others as they were. -/
theorem Started.keepsArgs {r : Pid × Kernel} (h : Started k r) : KeepsArgs k.table r.2.table := by
  obtain ⟨physIdx, execParent, arg, term, -, hchild⟩ := h.child
  have hbelow := h.table.below _ _ hchild
  rw [h.pid] at hbelow
  refine ⟨by omega, fun i p' hi hp' => ?_⟩
  have hsame := h.others i (by rw [h.pid]; omega)
  have harg := hsame.view ProcessDesc.arg fun _ => rfl
  rw [hp'] at harg
  cases hp : k.table.all_processes i with
  | none =>
    rw [hp] at harg
    cases harg
  | some p =>
    rw [hp] at harg
    exact ⟨p, rfl, Option.some.inj harg⟩

/-- `execute` changes the run states of two processes, and adds one. -/
theorem Executed.keepsArgs (he : Executed k k') : KeepsArgs k.table k'.table := by
  obtain ⟨new, mid, child, cur, q, w, hstart, hchild, hcur, rfl, -⟩ := he.step
  have hchild' : KeepsArgs mid.table (mid.table.assign new (some (child.inState .Running))) :=
    KeepsArgs.assign hchild rfl
  have hcur' : KeepsArgs (mid.table.assign new (some (child.inState .Running)))
      ((mid.table.assign new (some (child.inState .Running))).assign k.current
        (some (cur.inState .Waiting))) := KeepsArgs.assign hcur rfl
  exact (hstart.keepsArgs.trans hchild').trans hcur'

/-- The child is there. -/
theorem Executed.registered (he : Executed k k') : Registered k'.table k.table.nextNewProcess := by
  obtain ⟨new, mid, child, cur, q, w, hstart, hchild, hcur, rfl, -⟩ := he.step
  rw [← show new = k.table.nextNewProcess from hstart.pid]
  exact (registered_assign hcur new).mpr
    ((registered_assign hchild new).mpr (registered_of_eq hchild))

/-- `halt` erases one process and wakes another. -/
theorem Orderly.halted (h : Orderly k) (he : Halted k k') :
    Orderly k' ∧ KeepsArgs k.table k'.table := by
  obtain ⟨dead, prevInfo, prev, q, q', w, -, -, hprev, -, -, rfl, -⟩ := he.step
  exact ⟨⟨(h.table.erase.assign (prev.inState .Running) hprev rfl rfl).1, h.booted⟩,
    (KeepsArgs.erase _ _).trans (KeepsArgs.assign hprev rfl)⟩

/-- A decision does not touch the table. -/
theorem Orderly.decide (h : Orderly k) (hkeeps : KeepsArgs t k.table) :
    Ensures AnyFault k.makeDecision fun k' => Orderly k' ∧ KeepsArgs t k'.table := by
  refine makeDecision_done.mono ?_
  rintro k' (⟨-, rfl⟩ | ⟨q, w, rfl, -⟩)
  · exact ⟨h, hkeeps⟩
  · exact ⟨⟨h.table, h.booted⟩, hkeeps⟩

/-- The body of an event. -/
theorem Orderly.body (h : Orderly k) (e : Event) :
    Ensures AnyFault (e.body fs k) fun k' => Orderly k' ∧ KeepsArgs k.table k'.table := by
  cases e with
  | execute file =>
    refine Ensures.map ((sysexec_done h.table file).mono ?_)
    rintro r (rfl | he)
    · exact ⟨h, KeepsArgs.refl _⟩
    · exact ⟨⟨he.table, he.fallback.trans h.booted⟩, he.keepsArgs⟩
  | halt =>
    refine Ensures.map ((syshalt_done h.table).mono ?_)
    rintro r (rfl | he)
    · exact ⟨h, KeepsArgs.refl _⟩
    · exact h.halted he
  | fork => exact Ensures.map ((fork_done h.booted).mono fun _ hfalse => absurd hfalse id)
  | dotask pid =>
    refine Ensures.map ((dotask_done h.table pid).mono ?_)
    rintro r (⟨-, rfl⟩ | hredo)
    · exact ⟨h, KeepsArgs.refl _⟩
    · obtain ⟨p, q, w, hp, he, -⟩ := hredo.step
      rw [he]
      exact ⟨⟨h.inState hp .Running, h.booted⟩, KeepsArgs.assign hp rfl⟩
  | sleep =>
    refine Ensures.bind (setRunState_done _) ?_
    rintro k₁ ⟨p, hp, rfl⟩
    exact Orderly.decide ⟨h.inState hp .Waiting, h.booted⟩ (KeepsArgs.assign hp rfl)
  | wake pid =>
    refine (setRunState_done _).mono ?_
    rintro k₁ ⟨p, hp, rfl⟩
    exact ⟨⟨h.inState hp .Running, h.booted⟩, KeepsArgs.assign hp rfl⟩
  | tick => exact h.decide (KeepsArgs.refl _)
  | nestedTick => exact h.decide (KeepsArgs.refl _)

/-- **One event**: no process changes its argument. -/
theorem Orderly.run (h : Orderly k) (e : Event) (vidmap : Option (BitVec 32)) :
    Ensures AnyFault (e.run fs vidmap k) fun k' => Orderly k' ∧ KeepsArgs k.table k'.table := by
  refine run_done (h.body e) (fun _ hk => hk) ?_
  rintro k₁ ⟨h₁, hkeeps⟩
  refine (dispatch_done vidmap).mono ?_
  rintro k' (⟨-, rfl⟩ | ⟨desc, -, -, -, rfl⟩)
  · exact ⟨h₁, hkeeps⟩
  · exact ⟨⟨h₁.table, h₁.booted⟩, hkeeps⟩

/-- The table is in order in every run. -/
theorem orderly_of_reach (hr : Reach (kernelMachine fs) (fun _ _ => True) k) : Orderly k := by
  refine hr.invariant ?_ ?_
  · rintro k ⟨physPages, cpu0_memmap, hboot⟩
    have h := (boot_done physPages cpu0_memmap).value hboot
    exact ⟨h.table, h.live.booted⟩
  · rintro k ⟨e, vidmap⟩ k' h - hstep
    exact ((h.run e vidmap).value hstep).1

/-- **A run**: no process changes its argument. -/
theorem Orderly.keepsArgs (h : Orderly k)
    (hr : Reach ((kernelMachine fs).startedIn k) (fun _ _ => True) k') :
    KeepsArgs k.table k'.table := by
  have hall : Orderly k' ∧ KeepsArgs k.table k'.table := by
    refine hr.invariant (I := fun k' => Orderly k' ∧ KeepsArgs k.table k'.table) ?_ ?_
    · rintro k' rfl
      exact ⟨h, KeepsArgs.refl _⟩
    · rintro k₁ ⟨e, vidmap⟩ k₂ ⟨h₁, hkeeps⟩ - hstep
      obtain ⟨h₂, hkeeps'⟩ := (h₁.run e vidmap).value hstep
      exact ⟨h₂, hkeeps.trans hkeeps'⟩
  exact hall.2

end Keeping

/-! ## The round trip -/

/-- The command line `line`, in memory at `arg0`, names `file` and passes `arg`. -/
structure PassesArgs (fs : FileSystem) (k : Kernel) (heap heap' : HeapView) (arg0 : Nat → BitVec 8)
    (line file : List (BitVec 8)) (arg : Option (List (BitVec 8))) : Prop where
  looksUp : CharArray.do_exec fs arg0 heap heap' k = (startProgram fs file arg k).mapError .fault
  /-- Whatever happens after the call, the child has the argument as long as it lives. -/
  stored : is_kiss_executable fs file = true → ∀ vidmap k₁,
    (Event.execute (some line)).run fs vidmap k = .ok k₁ →
    Registered k₁.table k.table.nextNewProcess ∧
      ∀ k₂, Reach ((kernelMachine fs).startedIn k₁) (fun _ _ => True) k₂ → ∀ p,
        k₂.table.all_processes k.table.nextNewProcess.toNat = some p → p.arg = arg

/-- `getargs` in that process: the argument and a NUL if they fit into the buffer, and nothing if
    not. -/
def GetsArg (p : Proc.ProcessDesc) (a : List (BitVec 8)) : Prop :=
  ∀ (s : CallState) (buf n : BitVec 32),
    validUserPointer p.mainThreadInfo.isKernel s.mem buf = true → ((a.length : Int) + 1 ≤ n.toInt →
      s.getargs p buf n = ⟨.value 0, through buf (memcpy 0 (a ++ [0])), p, s.terms⟩) ∧
    (n.toInt < (a.length : Int) + 1 → s.getargs p buf n = ⟨.value (-1), [], p, s.terms⟩)

section RoundTrip

variable {fs : FileSystem} {k k' : Kernel} {line file : List (BitVec 8)}
    {arg : Option (List (BitVec 8))}

/-- **The child gets the argument**, whether or not its image finds a page. -/
theorem startProgram_arg (h : TableInv k.table) (hexe : is_kiss_executable fs file = true) :
    Ensures AnyFault (startProgram fs file arg k) fun r => r.1.slt 0 = false ∧
      ∀ p, r.2.table.all_processes k.table.nextNewProcess.toNat = some p → p.arg = arg := by
  unfold startProgram
  rw [hexe, if_neg (by decide)]
  refine Ensures.bind thread_done fun caller _ => ?_
  refine Ensures.bind (newDetachedProcess_done _) ?_
  rintro ⟨child_upid, k₁⟩ hnew
  have hpid : child_upid = k.table.nextNewProcess := hnew.pid
  obtain ⟨execParent, term₀, hc⟩ := hnew.child (by rw [hnew.pid]; exact h.vacant rfl)
  have hpos : child_upid.slt 0 = false := by
    have hroom : child_upid.toNat < 256 := hnew.room
    rw [BitVec.slt_eq_decide, decide_eq_false_iff_not, BitVec.toInt_eq_toNat_of_lt (by omega)]
    show ¬ (child_upid.toNat : Int) < 0
    omega
  simp only [hpos, Bool.false_eq_true, if_false]
  refine Ensures.bind get_done ?_
  rintro child ⟨-, hchild⟩
  obtain rfl : child = newChild child_upid .USER_PROCESS execParent term₀ :=
    Option.some.inj (hchild.symm.trans hc)
  rw [← hpid]
  refine Ensures.pure ?_
  -- whichever way the set-up ends, what is in the entry has the argument
  have hentry : ∀ (q : Proc.ProcessDesc) (p : Proc.ProcessDesc), q.arg = arg →
      (k₁.table.assign child_upid (some q)).all_processes child_upid.toNat = some p →
      p.arg = arg := by
    intro q p hq hp
    rw [assign_self] at hp
    cases hp
    exact hq
  have harg : (if arg.isSome then { newChild child_upid .USER_PROCESS execParent term₀ with arg }
      else newChild child_upid .USER_PROCESS execParent term₀).arg = arg := by
    cases arg with
    | none => rfl
    | some a => rfl
  have hfull : (256 : Pid).slt 0 = false := by decide
  unfold setUpChild
  simp only
  split
  · exact ⟨hfull, fun p => hentry _ p harg⟩
  · split
    · exact ⟨hfull, fun p => hentry _ p harg⟩
    · exact ⟨hpos, fun p => hentry _ p harg⟩

/-- A wake-up, an attachment or a block leaves the argument. -/
theorem sysexec_arg (h : TableInv k.table) (hfile : (get_arg_position line).2 = file)
    (harg : (get_arg_position line).1.map line.drop = arg)
    (hexe : is_kiss_executable fs file = true) :
    Ensures AnyFault (sysexec fs (some line) k) fun r => r.1 = 0 ∧
      ∀ p, r.2.table.all_processes k.table.nextNewProcess.toNat = some p → p.arg = arg := by
  have hkeep : ∀ (t : ProcessTable) (pid : Pid) (q : Proc.ProcessDesc) (state : ThreadState),
      t.all_processes pid.toNat = some q →
      (∀ p, t.all_processes k.table.nextNewProcess.toNat = some p → p.arg = arg) →
      ∀ p, (t.assign pid (some (q.inState state))).all_processes k.table.nextNewProcess.toNat =
        some p → p.arg = arg := by
    intro t pid q state hq ht p hp
    by_cases he : k.table.nextNewProcess.toNat = pid.toNat
    · rw [he, assign_self] at hp
      cases hp
      exact ht q (he ▸ hq)
    · rw [assign_ne t _ he] at hp
      exact ht p hp
  unfold sysexec
  simp only
  rw [do_exec_eq, hfile, harg]
  refine Ensures.bind (startProgram_arg h hexe) ?_
  rintro ⟨child_upid, k₁⟩ ⟨hpos, h₁⟩
  change child_upid.slt 0 = false at hpos
  simp only [hpos, Bool.false_eq_true, if_false]
  refine Ensures.bind get_done fun child _ => ?_
  refine Ensures.bind (attachThread_done _) ?_
  rintro k₂ ⟨p₂, hp₂, rfl⟩
  refine Ensures.bind (Ensures.bind (setRunState_done _) ?_) fun k' hk' => Ensures.pure ⟨rfl, hk'⟩
  rintro k₃ ⟨p₃, hp₃, rfl⟩
  refine makeDecision_done.mono ?_
  rintro k' (⟨-, rfl⟩ | ⟨q, w, rfl, -⟩)
  · exact hkeep _ _ _ _ hp₃ (hkeep _ _ _ _ hp₂ h₁)
  · exact hkeep _ _ _ _ hp₃ (hkeep _ _ _ _ hp₂ h₁)

/-- **`execute` of a program** registers it with its argument. -/
theorem execute_arg (h : Orderly k) (hfile : (get_arg_position line).2 = file)
    (harg : (get_arg_position line).1.map line.drop = arg)
    (hexe : is_kiss_executable fs file = true) (vidmap : Option (BitVec 32)) :
    Ensures AnyFault ((Event.execute (some line)).run fs vidmap k) fun k₁ => Orderly k₁ ∧
      Registered k₁.table k.table.nextNewProcess ∧
      ∀ p, k₁.table.all_processes k.table.nextNewProcess.toNat = some p → p.arg = arg := by
  refine run_done (Ensures.map (((sysexec_done h.table (some line)).and
    (sysexec_arg h.table hfile harg hexe)).mono (Q := fun r => Orderly r.2 ∧
      Registered r.2.table k.table.nextNewProcess ∧
      ∀ p, r.2.table.all_processes k.table.nextNewProcess.toNat = some p → p.arg = arg) ?_))
    (fun _ hk => hk) ?_
  · rintro r ⟨rfl | he, hret, hr⟩
    · -- the call has returned 0, so it has not given up
      cases hret
    · exact ⟨⟨he.table, he.fallback.trans h.booted⟩, he.registered, hr⟩
  · rintro k₁ ⟨h₁, hreg, hr⟩
    refine (dispatch_done vidmap).mono ?_
    rintro k' (⟨-, rfl⟩ | ⟨desc, -, -, -, rfl⟩)
    · exact ⟨h₁, hreg, hr⟩
    · exact ⟨⟨h₁.table, h₁.booted⟩, hreg, hr⟩

/-- **A line in memory** that is taken apart into a file and an argument passes that argument:
    the child has it when the call comes back, and keeps it. -/
theorem passesArgs_of_position {heap heap' : HeapView} {arg0 : Nat → BitVec 8} (h : Orderly k)
    (hline : ∀ c ∈ line, c ≠ 0) (hmem : HoldsString arg0 line)
    (hroom : heap.HasRoom (line.length + 1))
    (hroom' : ∀ i, (get_arg_position line).1 = some i → heap'.HasRoom (line.length - i + 1))
    (hfile : (get_arg_position line).2 = file)
    (harg : (get_arg_position line).1.map line.drop = arg) :
    PassesArgs fs k heap heap' arg0 line file arg where
  looksUp := by rw [CharArray.do_exec_chars hline hmem hroom hroom', do_exec_eq, hfile, harg]
  stored := by
    intro hexe vidmap k₁ hrun
    obtain ⟨h₁, hreg, harg₁⟩ := (execute_arg h hfile harg hexe vidmap).value hrun
    refine ⟨hreg, fun k₂ hr p hp => ?_⟩
    obtain ⟨p₁, hp₁⟩ := Option.isSome_iff_exists.mp hreg
    obtain ⟨q, hq, he⟩ := (h₁.keepsArgs hr).arg _ p (h₁.table.below _ p₁ hp₁) hp
    rw [he]
    exact harg₁ q hq

/-- `getargs` compares the lengths as signed numbers, which a stored argument is short enough
    for. -/
theorem getsArg {p : Proc.ProcessDesc} {a : List (BitVec 8)} (ha : a.length + 1 ≤ 1024 * 1024)
    (hp : p.arg = some a) : GetsArg p a := by
  intro s buf n hbuf
  have hlen : (BitVec.ofNat 32 a.length + 1).toInt = (a.length : Int) + 1 := by
    have hnat : (BitVec.ofNat 32 a.length + 1).toNat = a.length + 1 := by
      rw [BitVec.toNat_add, BitVec.toNat_ofNat]
      show (a.length % 0x100000000 + 1) % 0x100000000 = _
      omega
    rw [BitVec.toInt_eq_toNat_of_lt (by omega), hnat]
    omega
  have htake : a.take (BitVec.ofNat 32 a.length).toNat = a := by
    rw [BitVec.toNat_ofNat, Nat.mod_eq_of_lt (by omega), List.take_length]
  unfold CallState.getargs
  simp only [hbuf, hp, htake, BitVec.slt_eq_decide, hlen]
  constructor
  · intro hfits
    simp only [Bool.not_true, Bool.false_eq_true, if_false]
    rw [if_neg (by simpa using hfits)]
  · intro hshort
    simp only [Bool.not_true, Bool.false_eq_true, if_false]
    rw [if_pos (by simpa using hshort)]
    rfl

/-- **Command line and arguments**: a name, spaces and an argument give that name, and the argument
    back through `getargs`; a name and spaces give no argument. -/
theorem execute_getargs {c a : List (BitVec 8)} {n : Nat} {heap heap' : HeapView}
    {arg0 : Nat → BitVec 8} (hk : Reach (kernelMachine fs) (fun _ _ => True) k) (hc : 0x20 ∉ c)
    (hc₀ : 0 ∉ c) (ha : a ≠ []) (hhead : a.head? ≠ some 0x20) (ha₀ : 0 ∉ a) (hn : 1 ≤ n)
    (hmem : HoldsString arg0 (c ++ List.replicate n 0x20 ++ a))
    (hroom : heap.HasRoom ((c ++ List.replicate n 0x20 ++ a).length + 1))
    (hroom' : heap'.HasRoom (a.length + 1)) :
    PassesArgs fs k heap heap' arg0 (c ++ List.replicate n 0x20 ++ a) c (some a) ∧
      (∀ p : Proc.ProcessDesc, p.arg = some a → GetsArg p a) ∧
      ∀ (j : Nat) (arg0' : Nat → BitVec 8), HoldsString arg0' (c ++ List.replicate j 0x20) →
        heap.HasRoom ((c ++ List.replicate j 0x20).length + 1) →
        PassesArgs fs k heap heap' arg0' (c ++ List.replicate j 0x20) c none := by
  have horderly := orderly_of_reach hk
  have hname : ∀ j, ∀ x ∈ c ++ List.replicate j 0x20, x ≠ 0 := by
    intro j x hx
    rcases List.mem_append.mp hx with hxc | hxs
    · exact fun e => hc₀ (e ▸ hxc)
    · rw [List.eq_of_mem_replicate hxs]
      decide
  have harg := get_arg_position_arg hc ha hhead hn
  have hlen : (c ++ List.replicate n 0x20).length = c.length + n := by
    rw [List.length_append, List.length_replicate]
  refine ⟨passesArgs_of_position horderly ?_ hmem hroom ?_ (by rw [harg]) ?_, ?_, ?_⟩
  · intro x hx
    rcases List.mem_append.mp hx with hxn | hxa
    · exact hname n x hxn
    · exact fun e => ha₀ (e ▸ hxa)
  · intro i hi
    rw [harg] at hi
    obtain rfl := Option.some.inj hi
    rwa [List.length_append, hlen, Nat.add_sub_cancel_left]
  · rw [harg, Option.map_some, ← hlen, List.drop_left]
  · intro p hp
    exact getsArg hroom'.le hp
  · intro j arg0' hmem' hroom₀
    have hnone := get_arg_position_none hc j
    refine passesArgs_of_position horderly (hname j) hmem' hroom₀ (fun i hi => ?_) (by rw [hnone])
      (by rw [hnone]; rfl)
    rw [hnone] at hi
    cases hi

/-- **`ls x`, right after the boot**: the name is an executable and the call succeeds, so the child
    has the argument, and gets it; `ls` and two spaces pass none. -/
theorem execute_getargs_ls : ∃ k k₁ : Kernel, ∃ p : Proc.ProcessDesc,
    k.table.nextNewProcess = 9 ∧ is_kiss_executable elfEverywhere [0x6c, 0x73] = true ∧
    (Event.execute (some [0x6c, 0x73, 0x20, 0x78])).run elfEverywhere none k = .ok k₁ ∧
    k₁.table.all_processes 9 = some p ∧ p.arg = some [0x78] ∧ GetsArg p [0x78] ∧
    PassesArgs elfEverywhere k ⟨⟨none, none, false⟩, ArrFile.threeBlocks, fun _ => 0⟩
      ⟨⟨none, none, false⟩, ArrFile.threeBlocks, fun _ => 0⟩ (cstring [0x6c, 0x73, 0x20, 0x78])
      [0x6c, 0x73, 0x20, 0x78] [0x6c, 0x73] (some [0x78]) ∧
    PassesArgs elfEverywhere k ⟨⟨none, none, false⟩, ArrFile.threeBlocks, fun _ => 0⟩
      ⟨⟨none, none, false⟩, ArrFile.threeBlocks, fun _ => 0⟩ (cstring [0x6c, 0x73, 0x20, 0x20])
      [0x6c, 0x73, 0x20, 0x20] [0x6c, 0x73] none := by
  have hexe : is_kiss_executable elfEverywhere [0x6c, 0x73] = true := by decide
  have heval : ((boot lastPage (MemMapManager.construct fun _ => 0).start).toOption.bind fun k =>
      ((Event.execute (some [0x6c, 0x73, 0x20, 0x78])).run elfEverywhere none k).toOption.map
        fun _ =>
        k.table.nextNewProcess) = some 9 := by
    decide +kernel
  obtain ⟨k, hboot, heval⟩ := Option.bind_eq_some_iff.mp heval
  obtain ⟨k₁, hrun, hnext⟩ := Option.map_eq_some_iff.mp heval
  have hr : Reach (kernelMachine elfEverywhere) (fun _ _ => True) k :=
    .init ⟨_, _, toOption_eq_some.mp hboot⟩
  have hroom : HeapView.HasRoom ⟨⟨none, none, false⟩, ArrFile.threeBlocks, fun _ => 0⟩ 5 := ⟨_, rfl⟩
  have hroom' : HeapView.HasRoom ⟨⟨none, none, false⟩, ArrFile.threeBlocks, fun _ => 0⟩ 2 :=
    ⟨_, rfl⟩
  obtain ⟨hpasses, hgets, hnone⟩ := execute_getargs (c := [0x6c, 0x73]) (a := [0x78]) (n := 1) hr
    (by decide) (by decide) (by decide) (by decide) (by decide) (by decide) (holdsString_cstring _)
      hroom hroom'
  have hdone := toOption_eq_some.mp hrun
  obtain ⟨hreg, hkept⟩ := hpasses.stored hexe none k₁ hdone
  rw [hnext] at hreg hkept
  obtain ⟨p, hp⟩ := Option.isSome_iff_exists.mp hreg
  have harg := hkept k₁ (.init rfl) p hp
  exact ⟨k, k₁, p, hnext, hexe, hdone, hp, harg, hgets p harg, hpasses,
    hnone 2 _ (holdsString_cstring _) hroom⟩

end RoundTrip

end TedkOS.Syscalls
