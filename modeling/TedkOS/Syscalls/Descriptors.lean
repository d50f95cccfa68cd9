/-
  The system calls on file descriptors (syscalls/filesystem_wrapper.cpp), for whatever the file
  systems and the devices answer, and what each call does to the descriptors a process holds.

  The first call of a process opens `/dev/keyb` as 0 and `/dev/term` as 1 (`ensureFdInitialized`).
  `open` takes a slot before it looks the file up, and does not give it back when there is no such
  file.

  The invariant of a process is `SessionInv`, about its slots and the descriptors it has been
  given (`opened`): a slot is on the free stack, or in use, or lost, and the descriptors given out
  are in use (`TableRight`); and 0 and 1 are open as soon as the set-up is done.  Every call keeps
  it, since it works on one slot that the check has let through, which is 0, 1 or one of those
  given out.
-/
import TedkOS.Proc.FileDescs
import TedkOS.Syscalls.Fops

namespace TedkOS.Syscalls

open Fs Proc

namespace Descriptors

/-! ## The calls -/

/-- What the rest of the kernel answers during one call: the pointer check, the files
    `theDispatcher->open` makes of `/dev/keyb`, `/dev/term` and the name the caller passed, whether
    a `close` succeeds, and what reading, writing, seeking or asking for the state of a file returns
    and leaves in it. -/
structure Answers where
  /-- `validUserPointer`. -/
  validPointer : Bool
  /-- `/dev/keyb`. -/
  keyb : Option File
  /-- `/dev/term`. -/
  term : Option File
  /-- The file of the caller's name. -/
  file : Option File
  /-- Whether the file system closes it. -/
  closed : Bool
  /-- What the call on an open file returns, -/
  result : BitVec 32
  /-- and the file afterwards. -/
  next : File

variable (a : Answers)

/-- `ensureFdInitialized(proc)`. -/
def ensureFdInitialized (proc : Proc.ProcessDesc) : Bool × Proc.ProcessDesc :=
  if proc.fdInitialized then (true, proc)
  else
    match a.keyb with
    | none => (false, proc)
    | some fd =>
      let proc := { proc with fileDescs := proc.fileDescs.store 0 (some fd) }
      match a.term with
      | none => (false, proc)
      | some fd =>
        (true, { proc with fileDescs := proc.fileDescs.store 1 (some fd), fdInitialized := true })

/-- The calls that work on an open file, from the set-up on. -/
def onFile (fd : BitVec 32) (proc : Proc.ProcessDesc) : BitVec 32 × Proc.ProcessDesc :=
  let r := ensureFdInitialized a proc
  if !r.1 then (-1, r.2)
  else if !r.2.fileDescs.isValid fd then (-1, r.2)
  else (a.result, { r.2 with fileDescs := r.2.fileDescs.store fd.toNat (some a.next) })

/-- `read(fd, buf, nbytes)`. -/
def read (fd : BitVec 32) (proc : Proc.ProcessDesc) : BitVec 32 × Proc.ProcessDesc :=
  if !a.validPointer then (-1, proc) else onFile a fd proc

/-- `write(fd, buf, nbytes)`. -/
def write (fd : BitVec 32) (proc : Proc.ProcessDesc) : BitVec 32 × Proc.ProcessDesc :=
  if !a.validPointer then (-1, proc) else onFile a fd proc

/-- `fstat(fd, st)`; the pointer is not checked. -/
def fstat (fd : BitVec 32) (proc : Proc.ProcessDesc) : BitVec 32 × Proc.ProcessDesc :=
  onFile a fd proc

/-- `lseek(fd, offset, whence)`. -/
def lseek (fd : BitVec 32) (proc : Proc.ProcessDesc) : BitVec 32 × Proc.ProcessDesc :=
  onFile a fd proc

/-- `open(filename)`. -/
def openFile (proc : Proc.ProcessDesc) : BitVec 32 × Proc.ProcessDesc :=
  if !a.validPointer then (-1, proc)
  else
    let r := ensureFdInitialized a proc
    if !r.1 then (-1, r.2)
    else
      let fdSlotMaybe := r.2.fileDescs.alloc
      let proc := { r.2 with fileDescs := fdSlotMaybe.2 }
      match fdSlotMaybe.1 with
      | none => (-1, proc)
      | some slot =>
        match a.file with
        -- the slot stays taken
        | none => (-1, proc)
        | some fd =>
          (BitVec.ofNat 32 slot, { proc with fileDescs := proc.fileDescs.store slot (some fd) })

/-- `close(fd)`. -/
def close (fd : BitVec 32) (proc : Proc.ProcessDesc) : BitVec 32 × Proc.ProcessDesc :=
  -- Disallow closing STDIN or STDOUT
  if fd = 0 ∨ fd = 1 then (-1, proc)
  else
    let r := ensureFdInitialized a proc
    if !r.1 then (-1, r.2)
    else if !r.2.fileDescs.isValid fd then (-1, r.2)
    else if !a.closed then (-1, r.2)
    else (0, { r.2 with fileDescs := (r.2.fileDescs.store fd.toNat none).recycle fd.toNat })

/-- A process, and the descriptors `open` gave it that it has not closed. -/
structure Session where
  proc : Proc.ProcessDesc
  opened : List (BitVec 32)

/-! ## Each call

  Every call begins with the set-up, which is nothing after the first time, and with the check of
  the descriptor; then it is a move of one slot.  `openFile` is taken apart at the point where
  the slot has been taken and the file has not been looked up yet. -/

/-- What goes along a run. -/
structure SessionInv (s : Session) : Prop where
  /-- Every slot is free, or handed out and not closed, as `TableRight` says. -/
  table : TableRight s.proc.fileDescs s.opened
  /-- Before the set-up nothing has been opened, -/
  fresh : s.proc.fdInitialized = false → s.opened = []
  /-- and after it 0 and 1 are open. -/
  std : s.proc.fdInitialized = true →
    (s.proc.fileDescs.content 0).isSome = true ∧ (s.proc.fileDescs.content 1).isSome = true

/-- How many descriptors `open` can still hand out. -/
def numFree (proc : Proc.ProcessDesc) : Nat := proc.fileDescs.freeFDs.items.length

section Calls

variable {a : Answers} {proc : Proc.ProcessDesc} {opened : List (BitVec 32)} {fd : BitVec 32}

/-- The set-up is made once. -/
theorem ensureFdInitialized_again (h : proc.fdInitialized = true) :
    ensureFdInitialized a proc = (true, proc) := by
  unfold ensureFdInitialized
  rw [if_pos h]

/-- **The set-up** fills 0 and 1 and takes no slot. -/
theorem ensureFdInitialized_done (h : SessionInv ⟨proc, opened⟩) :
    SessionInv ⟨(ensureFdInitialized a proc).2, opened⟩ ∧
      (ensureFdInitialized a proc).2.fdInitialized = (ensureFdInitialized a proc).1 ∧
      numFree (ensureFdInitialized a proc).2 = numFree proc := by
  cases hinit : proc.fdInitialized with
  | true =>
    rw [ensureFdInitialized_again hinit]
    exact ⟨h, hinit, rfl⟩
  | false =>
    have hopened : opened = [] := h.fresh hinit
    unfold ensureFdInitialized
    rw [if_neg (by rw [hinit]; decide)]
    cases hkeyb : a.keyb with
    | none => exact ⟨h, hinit, rfl⟩
    | some keyb =>
      have hfirst : TableRight (proc.fileDescs.store 0 (some keyb)) opened :=
        h.table.store 0 (Or.inl (by decide)) keyb
      cases hterm : a.term with
      | none =>
        refine ⟨⟨hfirst, fun _ => hopened, fun hc => ?_⟩, hinit, rfl⟩
        change proc.fdInitialized = true at hc
        rw [hinit] at hc
        cases hc
      | some term =>
        refine ⟨⟨hfirst.store 1 (Or.inl (by decide)) term, fun hc => ?_, fun _ => ⟨?_, ?_⟩⟩, rfl,
          rfl⟩
        · cases hc
        · show (Function.update (Function.update proc.fileDescs.content 0 (some keyb)) 1
            (some term) 0).isSome = true
          rw [Function.update_of_ne (by decide), Function.update_self]
          rfl
        · show (Function.update (Function.update proc.fileDescs.content 0 (some keyb)) 1
            (some term) 1).isSome = true
          rw [Function.update_self]
          rfl

/-- The set-up of 0 and 1 succeeds, and the descriptor is one the check lets through. -/
def passesCheck (a : Answers) (fd : BitVec 32) (proc : Proc.ProcessDesc) : Bool :=
  (ensureFdInitialized a proc).1 && (ensureFdInitialized a proc).2.fileDescs.isValid fd

/-- The check lets through 0, 1 and what `open` has given and `close` has not taken back. -/
theorem passesCheck_iff (h : SessionInv ⟨proc, opened⟩)
    (hset : (ensureFdInitialized a proc).1 = true) :
    passesCheck a fd proc = true ↔ fd = 0 ∨ fd = 1 ∨ fd ∈ opened := by
  obtain ⟨hinv, hinit, -⟩ := ensureFdInitialized_done (a := a) h
  obtain ⟨h0, h1⟩ := hinv.std (hinit.trans hset)
  unfold passesCheck
  rw [hset, Bool.true_and]
  exact hinv.table.isValid_iff h0 h1

/-- Work on an open file changes that file only. -/
theorem onFile_done (h : SessionInv ⟨proc, opened⟩) (fd : BitVec 32) :
    SessionInv ⟨(onFile a fd proc).2, opened⟩ ∧ numFree (onFile a fd proc).2 = numFree proc := by
  obtain ⟨hinv, hinit, hfree⟩ := ensureFdInitialized_done (a := a) h
  have hpass : passesCheck a fd proc =
      ((ensureFdInitialized a proc).1 && (ensureFdInitialized a proc).2.fileDescs.isValid fd) := rfl
  unfold onFile
  generalize hr : ensureFdInitialized a proc = r at hinv hinit hfree hpass
  obtain ⟨ok, proc'⟩ := r
  cases ok with
  | false => exact ⟨hinv, hfree⟩
  | true =>
    cases hvalid : proc'.fileDescs.isValid fd with
    | false =>
      simp only [hvalid, Bool.not_true, Bool.not_false, Bool.false_eq_true, if_false, if_true]
      exact ⟨hinv, hfree⟩
    | true =>
      simp only [hvalid, Bool.not_true, Bool.false_eq_true, if_false]
      have hfd : fd = 0 ∨ fd = 1 ∨ fd ∈ opened :=
        (passesCheck_iff h (by rw [hr])).mp (by rw [hpass, hvalid]; rfl)
      have hplace : fd.toNat < 2 ∨ fd ∈ opened := by
        rcases hfd with rfl | rfl | hin
        · exact Or.inl (by decide)
        · exact Or.inl (by decide)
        · exact Or.inr hin
      refine ⟨⟨hinv.table.store _ hplace a.next, hinv.fresh, fun _ => ?_⟩, hfree⟩
      obtain ⟨h0, h1⟩ := hinv.std hinit
      -- the slot of the file gets a new position, and stays in use
      have hkeep : ∀ i, (proc'.fileDescs.content i).isSome = true →
          ((proc'.fileDescs.store fd.toNat (some a.next)).content i).isSome = true := by
        intro i hi
        show (Function.update proc'.fileDescs.content fd.toNat (some a.next) i).isSome = true
        by_cases he : i = fd.toNat
        · rw [he, Function.update_self]
          rfl
        · rw [Function.update_of_ne he]
          exact hi
      exact ⟨hkeep 0 h0, hkeep 1 h1⟩

/-- `open` gets as far as looking the file up. -/
def LooksUp (a : Answers) (proc : Proc.ProcessDesc) : Prop :=
  a.validPointer = true ∧ (ensureFdInitialized a proc).1 = true ∧
    (ensureFdInitialized a proc).2.fileDescs.freeFDs.empty = false

/-- `open` fails because no descriptor is left. -/
def LacksDescriptors (a : Answers) (proc : Proc.ProcessDesc) : Prop :=
  a.validPointer = true ∧ (ensureFdInitialized a proc).1 = true ∧
    (ensureFdInitialized a proc).2.fileDescs.freeFDs.empty = true

/-- `open` that fails before it takes a slot: what the set-up did stays. -/
theorem openFile_early (h : ¬ LooksUp a proc) : (openFile a proc).1 = -1 ∧
    ((openFile a proc).2 = proc ∨
      a.validPointer = true ∧ (openFile a proc).2 = (ensureFdInitialized a proc).2) := by
  unfold openFile
  unfold LooksUp at h
  cases hptr : a.validPointer with
  | false => exact ⟨rfl, Or.inl rfl⟩
  | true =>
    generalize ensureFdInitialized a proc = r at h
    obtain ⟨ok, proc'⟩ := r
    cases ok with
    | false => exact ⟨rfl, Or.inr ⟨rfl, rfl⟩⟩
    | true =>
      have hempty : proc'.fileDescs.freeFDs.empty = true := by
        rw [← Bool.not_eq_false]
        exact fun hc => h ⟨hptr, rfl, hc⟩
      have halloc : proc'.fileDescs.alloc = (none, proc'.fileDescs) := by
        unfold FileDescArr.alloc
        rw [if_pos hempty]
      simp only [Bool.not_true, Bool.false_eq_true, if_false, halloc]
      exact ⟨trivial, Or.inr ⟨trivial, trivial⟩⟩

/-- `open` that takes a slot: what comes of it is up to the file. -/
theorem openFile_lookUp (h : LooksUp a proc) : ∃ slot,
    (ensureFdInitialized a proc).2.fileDescs.alloc.1 = some slot ∧
      openFile a proc =
        match a.file with
        | none => (-1, { (ensureFdInitialized a proc).2 with
            fileDescs := (ensureFdInitialized a proc).2.fileDescs.alloc.2 })
        | some fd => (BitVec.ofNat 32 slot, { (ensureFdInitialized a proc).2 with
            fileDescs :=
              (ensureFdInitialized a proc).2.fileDescs.alloc.2.store slot (some fd) }) := by
  obtain ⟨hptr, hok, hempty⟩ := h
  unfold openFile
  generalize ensureFdInitialized a proc = r at hok hempty
  obtain ⟨ok, proc'⟩ := r
  change ok = true at hok
  subst hok
  have halloc : ∃ slot, proc'.fileDescs.alloc.1 = some slot := by
    unfold FileDescArr.alloc
    rw [if_neg (by rw [hempty]; decide)]
    exact ⟨_, rfl⟩
  obtain ⟨slot, hslot⟩ := halloc
  refine ⟨slot, hslot, ?_⟩
  simp only [hptr, Bool.not_true, Bool.false_eq_true, if_false, hslot]

/-- **What `open` has done**: nothing but the set-up; or it has taken a slot for good, for a file
    there is not; or it has opened a file at a descriptor nobody holds. -/
theorem openFile_done (h : SessionInv ⟨proc, opened⟩) (a : Answers) :
    (¬ LooksUp a proc ∧ (openFile a proc).1 = -1 ∧ SessionInv ⟨(openFile a proc).2, opened⟩ ∧
      numFree (openFile a proc).2 = numFree proc) ∨
    (LooksUp a proc ∧ a.file = none ∧ (openFile a proc).1 = -1 ∧
      SessionInv ⟨(openFile a proc).2, opened⟩ ∧ numFree (openFile a proc).2 + 1 = numFree proc) ∨
    (LooksUp a proc ∧ a.file.isSome = true ∧ 2 ≤ (openFile a proc).1.toNat ∧
      (openFile a proc).1.toNat < FD_ARRAY_LENGTH ∧ (openFile a proc).1 ∉ opened ∧
      SessionInv ⟨(openFile a proc).2, (openFile a proc).1 :: opened⟩ ∧
      numFree (openFile a proc).2 + 1 = numFree proc) := by
  obtain ⟨hinv, hinit, hfree⟩ := ensureFdInitialized_done (a := a) h
  by_cases hlook : LooksUp a proc
  · refine Or.inr ?_
    -- a slot is taken before the file is looked up
    obtain ⟨slot, hslot, hopen⟩ := openFile_lookUp hlook
    obtain ⟨h2, hlt, hout, hlen, hdown, htable⟩ := hinv.table.alloc hslot
    rw [hlook.2.1] at hinit
    have hstd := hinv.std hinit
    have hcontent : (ensureFdInitialized a proc).2.fileDescs.alloc.2.content =
        (ensureFdInitialized a proc).2.fileDescs.content := by
      unfold FileDescArr.alloc
      split <;> rfl
    have hcount : (ensureFdInitialized a proc).2.fileDescs.alloc.2.freeFDs.items.length + 1 =
        numFree proc := by
      rw [← hlen]
      exact hfree
    rw [hopen]
    generalize (ensureFdInitialized a proc).2 = proc'
      at hinv hinit hstd hcontent hcount hslot hdown htable ⊢
    cases hfile : a.file with
    | none =>
      -- no such file: the slot stays taken, and nobody holds its descriptor
      refine Or.inl ⟨hlook, rfl, rfl, ⟨htable, fun hc => ?_, fun _ => ?_⟩, hcount⟩
      · change proc'.fdInitialized = false at hc
        rw [hinit] at hc
        cases hc
      · show (proc'.fileDescs.alloc.2.content 0).isSome = true ∧
          (proc'.fileDescs.alloc.2.content 1).isSome = true
        rw [hcontent]
        exact hstd
    | some fd =>
      -- the descriptor is the number of the slot, which is not 0 or 1, so that these stay open
      have hval : (BitVec.ofNat 32 slot).toNat = slot := by
        rw [BitVec.toNat_ofNat]
        have h128 : FD_ARRAY_LENGTH = 128 := rfl
        omega
      refine Or.inr ⟨hlook, rfl, ?_, ?_, hout, ⟨htable.opening h2 hlt hout hdown fd, fun hc => ?_,
        fun _ => ⟨?_, ?_⟩⟩, hcount⟩
      · show 2 ≤ (BitVec.ofNat 32 slot).toNat
        rw [hval]
        exact h2
      · show (BitVec.ofNat 32 slot).toNat < _
        rw [hval]
        exact hlt
      · change proc'.fdInitialized = false at hc
        rw [hinit] at hc
        cases hc
      · show (Function.update proc'.fileDescs.alloc.2.content slot (some fd) 0).isSome = true
        rw [Function.update_of_ne (by omega), hcontent]
        exact hstd.1
      · show (Function.update proc'.fileDescs.alloc.2.content slot (some fd) 1).isSome = true
        rw [Function.update_of_ne (by omega), hcontent]
        exact hstd.2
  · -- given up before that, with or without the set-up
    obtain ⟨hret, he⟩ := openFile_early hlook
    refine Or.inl ⟨hlook, hret, ?_⟩
    rcases he with he | ⟨-, he⟩
    · rw [he]
      exact ⟨h, rfl⟩
    · rw [he]
      exact ⟨hinv, hfree⟩

/-- **What `close` has done**: nothing but the set-up, or the descriptor is free again. -/
theorem close_done (h : SessionInv ⟨proc, opened⟩) (fd : BitVec 32) :
    ((close a fd proc).1 = -1 ∧ SessionInv ⟨(close a fd proc).2, opened⟩ ∧
      numFree (close a fd proc).2 = numFree proc) ∨
    ((close a fd proc).1 = 0 ∧ SessionInv ⟨(close a fd proc).2, opened.erase fd⟩ ∧
      numFree (close a fd proc).2 = numFree proc + 1 ∧
      (opened.erase fd).length + 1 = opened.length) := by
  obtain ⟨hinv, hinit, hfree⟩ := ensureFdInitialized_done (a := a) h
  have hpass : passesCheck a fd proc =
      ((ensureFdInitialized a proc).1 && (ensureFdInitialized a proc).2.fileDescs.isValid fd) := rfl
  unfold close
  by_cases hstd : fd = 0 ∨ fd = 1
  · rw [if_pos hstd]
    exact Or.inl ⟨rfl, h, rfl⟩
  rw [if_neg hstd]
  generalize hr : ensureFdInitialized a proc = r at hinv hinit hfree hpass
  obtain ⟨ok, proc'⟩ := r
  cases ok with
  | false => exact Or.inl ⟨rfl, hinv, hfree⟩
  | true =>
    cases hvalid : proc'.fileDescs.isValid fd with
    | false =>
      simp only [hvalid, Bool.not_true, Bool.not_false, Bool.false_eq_true, if_false, if_true]
      exact Or.inl ⟨trivial, hinv, hfree⟩
    | true =>
      cases hclosed : a.closed with
      | false =>
        simp only [hvalid, Bool.not_true, Bool.not_false, Bool.false_eq_true, if_false, if_true]
        exact Or.inl ⟨trivial, hinv, hfree⟩
      | true =>
        simp only [hvalid, Bool.not_true, Bool.false_eq_true, if_false]
        -- a descriptor that passes the check is one of those given out, since 0 and 1 are
        -- excluded above
        have hin : fd ∈ opened := by
          rcases (passesCheck_iff h (by rw [hr])).mp (by rw [hpass, hvalid]; rfl) with h0 | h1 | hin
          · exact absurd (Or.inl h0) hstd
          · exact absurd (Or.inr h1) hstd
          · exact hin
        obtain ⟨htable, hpush, hlen⟩ := hinv.table.closing hin
        refine Or.inr ⟨trivial, ⟨htable, fun hc => ?_, fun _ => ?_⟩, ?_, hlen⟩
        · change proc'.fdInitialized = false at hc
          rw [show proc'.fdInitialized = true from hinit] at hc
          cases hc
        · -- the standard descriptors are in other slots
          obtain ⟨h0, h1⟩ := hinv.std hinit
          have h2 := (hinv.table.used fd hin).1
          have hkeep : ∀ i, i < 2 → (proc'.fileDescs.content i).isSome = true →
              (((proc'.fileDescs.store fd.toNat none).recycle fd.toNat).content i).isSome =
                true := by
            intro i hi hsome
            have hcontent : ((proc'.fileDescs.store fd.toNat none).recycle fd.toNat).content =
                Function.update proc'.fileDescs.content fd.toNat none := by
              unfold FileDescArr.recycle
              split <;> rfl
            rw [hcontent, Function.update_of_ne (by omega)]
            exact hsome
          exact ⟨hkeep 0 (by decide) h0, hkeep 1 (by decide) h1⟩
        · show ((proc'.fileDescs.store fd.toNat none).recycle fd.toNat).freeFDs.items.length = _
          rw [hpush]
          exact congrArg (· + 1) hfree

end Calls

end Descriptors

end TedkOS.Syscalls
