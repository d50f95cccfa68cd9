/-
  The descriptors of a process along its calls, one after another, with the descriptors it was given
  and has not closed since as a record beside the process (`opened`).

  * `descriptors_right` — with the set-up of 0 and 1 succeeding, a call is let through exactly for
    0, 1 and the descriptors on record, whichever calls fail.
  * `descriptors_conserved` — no descriptor is lost while every `open` that looks a file up finds
    it; one is lost by every other.
-/
import TedkOS.Lib.Runs
import TedkOS.Syscalls.Descriptors

namespace TedkOS.Syscalls

open Fs Proc Runs

namespace Descriptors

/-! ## Runs -/

/-- The calls a process can make on descriptors. -/
inductive Call where
  | open
  | close (fd : BitVec 32)
  | read (fd : BitVec 32)
  | write (fd : BitVec 32)
  | fstat (fd : BitVec 32)
  | lseek (fd : BitVec 32)

/-- What a call does to the process, and what it returns. -/
def Call.issue (a : Answers) (proc : Proc.ProcessDesc) : Call → BitVec 32 × Proc.ProcessDesc
  | .open => openFile a proc
  | .close fd => Descriptors.close a fd proc
  | .read fd => Descriptors.read a fd proc
  | .write fd => Descriptors.write a fd proc
  | .fstat fd => Descriptors.fstat a fd proc
  | .lseek fd => Descriptors.lseek a fd proc

/-- The descriptors a process holds after a call returned `ret`. -/
def Call.holding (ret : BitVec 32) (opened : List (BitVec 32)) : Call → List (BitVec 32)
  | .open => if ret = -1 then opened else ret :: opened
  | .close fd => if ret = 0 then opened.erase fd else opened
  | _ => opened

/-- The state after a call. -/
def Session.after (s : Session) (c : Call × Answers) : Session :=
  ⟨(c.1.issue c.2 s.proc).2, c.1.holding (c.1.issue c.2 s.proc).1 s.opened⟩

/-- Runs of one process, from its first call on. -/
def machine : Machine Session (Call × Answers) where
  init s := s.proc.fileDescs = FileDescArr.new ∧ s.proc.fdInitialized = false ∧ s.opened = []
  step s c s' := s' = s.after c

/-- The set-up of 0 and 1 succeeds, if it is made. -/
def SetUp (s : Session) (c : Call × Answers) : Prop := (ensureFdInitialized c.2 s.proc).1 = true

/-! ## Along a run

  Every call keeps `SessionInv`, and for all but `open` and `close` the numbers stay as well.
  `total` counts the descriptors that are free and those given out. -/

/-- The open descriptors and the free ones. -/
def Session.total (s : Session) : Nat := s.opened.length + numFree s.proc

/-- `open` looks a file up that is not there. -/
def LosesSlot (s : Session) (c : Call × Answers) : Prop :=
  c.1 = .open ∧ LooksUp c.2 s.proc ∧ c.2.file = none

section Sessions

variable {s : Session}

theorem Session.after_eq {c : Call × Answers} {opened : List (BitVec 32)}
    (h : c.1.holding (c.1.issue c.2 s.proc).1 s.opened = opened) :
    s.after c = ⟨(c.1.issue c.2 s.proc).2, opened⟩ := congrArg (Session.mk _) h

/-- After `open` as many descriptors are in circulation as before, or one less if the file was
    not found. -/
theorem SessionInv.after_open (h : SessionInv s) (a : Answers) : SessionInv (s.after (.open, a)) ∧
    ((¬ LosesSlot s (.open, a) ∧ (s.after (.open, a)).total = s.total) ∨
      (LosesSlot s (.open, a) ∧ (s.after (.open, a)).total + 1 = s.total)) := by
  rcases openFile_done h a with ⟨hlook, hret, hinv, hfree⟩ | ⟨hlook, hnone, hret, hinv, hfree⟩ |
    ⟨hlook, hsome, h2, hlt, hout, hinv, hfree⟩
  · -- it came back before looking the file up
    rw [Session.after_eq (c := (.open, a)) (if_pos hret)]
    refine ⟨hinv, Or.inl ⟨fun hl => hlook hl.2.1, ?_⟩⟩
    exact congrArg (s.opened.length + ·) hfree
  · -- there is no such file
    rw [Session.after_eq (c := (.open, a)) (if_pos hret)]
    refine ⟨hinv, Or.inr ⟨⟨rfl, hlook, hnone⟩, ?_⟩⟩
    exact congrArg (s.opened.length + ·) hfree
  · have hret : (openFile a s.proc).1 ≠ -1 := by
      intro he
      rw [he] at hlt
      exact absurd hlt (by decide)
    rw [Session.after_eq (c := (.open, a)) (if_neg hret)]
    refine ⟨hinv, Or.inl ⟨fun hl => ?_, ?_⟩⟩
    · rw [hl.2.2] at hsome
      cases hsome
    · show ((openFile a s.proc).1 :: s.opened).length + numFree (openFile a s.proc).2 =
        s.opened.length + numFree s.proc
      rw [List.length_cons]
      omega

/-- `close` moves a descriptor from those open to those free. -/
theorem SessionInv.after_close (h : SessionInv s) (fd : BitVec 32) (a : Answers) :
    SessionInv (s.after (.close fd, a)) ∧ (s.after (.close fd, a)).total = s.total := by
  rcases close_done (a := a) h fd with ⟨hret, hinv, hfree⟩ | ⟨hret, hinv, hfree, hlen⟩
  · have hne : (close a fd s.proc).1 ≠ 0 := by
      rw [hret]
      decide
    rw [Session.after_eq (c := (.close fd, a)) (if_neg hne)]
    exact ⟨hinv, congrArg (s.opened.length + ·) hfree⟩
  · rw [Session.after_eq (c := (.close fd, a)) (if_pos hret)]
    refine ⟨hinv, ?_⟩
    show (s.opened.erase fd).length + numFree (close a fd s.proc).2 =
      s.opened.length + numFree s.proc
    omega

/-- A call that works on an open file. -/
theorem SessionInv.after_onFile (h : SessionInv s) (fd : BitVec 32) (a : Answers) :
    SessionInv ⟨(onFile a fd s.proc).2, s.opened⟩ ∧
      s.opened.length + numFree (onFile a fd s.proc).2 = s.total := by
  obtain ⟨hinv, hfree⟩ := onFile_done (a := a) h fd
  exact ⟨hinv, by rw [hfree]; rfl⟩

/-- The same behind a check of the pointer. -/
theorem SessionInv.after_read (h : SessionInv s) (fd : BitVec 32) (a : Answers) :
    SessionInv ⟨(read a fd s.proc).2, s.opened⟩ ∧
      s.opened.length + numFree (read a fd s.proc).2 = s.total := by
  unfold read
  split
  · exact ⟨h, rfl⟩
  · exact h.after_onFile fd a

/-- **One call** keeps the table right, and loses a slot when it looks up a file that is not
    there. -/
theorem SessionInv.after (h : SessionInv s) (c : Call × Answers) : SessionInv (s.after c) ∧
    ((¬ LosesSlot s c ∧ (s.after c).total = s.total) ∨
      (LosesSlot s c ∧ (s.after c).total + 1 = s.total)) := by
  obtain ⟨call, a⟩ := c
  have hno : ∀ call, call ≠ .open → ¬ LosesSlot s (call, a) := fun call hne hl => hne hl.1
  cases call with
  | «open» => exact h.after_open a
  | close fd => exact ⟨(h.after_close fd a).1, Or.inl ⟨hno _ (by simp), (h.after_close fd a).2⟩⟩
  | read fd => exact ⟨(h.after_read fd a).1, Or.inl ⟨hno _ (by simp), (h.after_read fd a).2⟩⟩
  | write fd => exact ⟨(h.after_read fd a).1, Or.inl ⟨hno _ (by simp), (h.after_read fd a).2⟩⟩
  | fstat fd => exact ⟨(h.after_onFile fd a).1, Or.inl ⟨hno _ (by simp), (h.after_onFile fd a).2⟩⟩
  | lseek fd => exact ⟨(h.after_onFile fd a).1, Or.inl ⟨hno _ (by simp), (h.after_onFile fd a).2⟩⟩

/-- A new process has all its descriptors free, but for the two fixed ones. -/
theorem sessionInv_init (h : machine.init s) :
    SessionInv s ∧ s.total = FD_ARRAY_LENGTH - FD_FIXED_PART := by
  obtain ⟨hfds, hinit, hopened⟩ := h
  refine ⟨⟨?_, fun _ => hopened, fun hc => ?_⟩, ?_⟩
  · rw [hfds, hopened]
    exact tableRight_new
  · rw [hinit] at hc
    cases hc
  · unfold Session.total numFree
    rw [hfds, hopened]
    decide +kernel

/-- The invariant holds whatever the calls were, and whatever was answered. -/
theorem sessionInv_of_reach {ok : Session → Call × Answers → Prop} (hr : Reach machine ok s) :
    SessionInv s := by
  refine hr.invariant (fun _ h => (sessionInv_init h).1) ?_
  rintro s c s' h - rfl
  exact (h.after c).1

/-- **Which descriptors a process can use.**  Whatever its calls come to, when the set-up of 0 and 1
    succeeds a call is let through exactly for 0, 1 and a descriptor that `open` returned and nobody
    has closed since; `open` returns none of those, and `close` refuses 0 and 1. -/
theorem descriptors_right (hr : Reach machine (fun _ _ => True) s) (a : Answers)
    (hset : SetUp s (.open, a)) :
    (∀ fd, passesCheck a fd s.proc = true ↔ fd = 0 ∨ fd = 1 ∨ fd ∈ s.opened) ∧
    ((openFile a s.proc).1 = -1 ∨
      (openFile a s.proc).1 ≠ 0 ∧ (openFile a s.proc).1 ≠ 1 ∧ (openFile a s.proc).1 ∉ s.opened) ∧
    ∀ fd, fd = 0 ∨ fd = 1 → close a fd s.proc = (-1, s.proc) := by
  have h := sessionInv_of_reach hr
  refine ⟨fun fd => passesCheck_iff h hset, ?_, fun fd hfd => if_pos hfd⟩
  rcases openFile_done h a with ⟨-, hret, -⟩ | ⟨-, -, hret, -⟩ | ⟨-, -, h2, -, hout, -⟩
  · exact Or.inl hret
  · exact Or.inl hret
  · refine Or.inr ⟨fun he => ?_, fun he => ?_, hout⟩
    · rw [he] at h2
      exact absurd h2 (by decide)
    · rw [he] at h2
      exact absurd h2 (by decide)

end Sessions

/-- A process before its first call. -/
def freshSession : Session := ⟨ProcessDesc.new 1 .USER_PROCESS, []⟩

/-- Both devices open, and the file with them. -/
def allThere : Answers :=
  ⟨true, some ⟨0, .devFS .keyb⟩, some ⟨0, .devFS .term⟩, some ⟨0, .devFS .keyb⟩, true, 0,
    ⟨0, .devFS .keyb⟩⟩

theorem freshSession_init : machine.init freshSession := ⟨rfl, rfl, rfl⟩

theorem freshSession_opened : (freshSession.after (.open, allThere)).opened ≠ [] := by
    decide +kernel

/-- With one file open. -/
theorem descriptors_right_opened : ∃ s, Reach machine (fun _ _ => True) s ∧ s.opened ≠ [] ∧
    (∀ fd, passesCheck allThere fd s.proc = true ↔ fd = 0 ∨ fd = 1 ∨ fd ∈ s.opened) ∧
    ((openFile allThere s.proc).1 = -1 ∨ (openFile allThere s.proc).1 ≠ 0 ∧
      (openFile allThere s.proc).1 ≠ 1 ∧ (openFile allThere s.proc).1 ∉ s.opened) ∧
    ∀ fd, fd = 0 ∨ fd = 1 → close allThere fd s.proc = (-1, s.proc) := by
  have hr : Reach machine (fun _ _ => True) (freshSession.after (.open, allThere)) :=
    .step (.init freshSession_init) trivial rfl
  have hset : SetUp (freshSession.after (.open, allThere)) (.open, allThere) := by
    unfold SetUp
    decide +kernel
  exact ⟨_, hr, freshSession_opened, descriptors_right hr allThere hset⟩

/-! ## No descriptor is lost, unless

  The total goes down exactly when an `open` looks a file up in vain, so it is conserved along a
  run exactly if none does. -/

def FD_CYCLABLE_PART : Nat := FD_ARRAY_LENGTH - FD_FIXED_PART

/-- The descriptors from 2 upward that are open. -/
def Session.numOpen (s : Session) : Nat := (s.opened.filter fun fd => 2 ≤ fd.toNat).length

/-- Every descriptor from 2 upward is open, or `open` can hand it out. -/
def Conserved (s : Session) : Prop := s.numOpen + numFree s.proc = FD_CYCLABLE_PART

/-- A failed `open` leaves the table as it was, and lacks descriptors only when all are open. -/
def FailsCleanly (s : Session) (a : Answers) : Prop :=
  ((openFile a s.proc).1 = -1 → (openFile a s.proc).2.fileDescs = s.proc.fileDescs) ∧
  (LacksDescriptors a s.proc → s.numOpen = FD_CYCLABLE_PART)

/-- `open` makes the set-up and finds the keyboard but no terminal. -/
def HalfSetUp (a : Answers) (proc : Proc.ProcessDesc) : Prop :=
  a.validPointer = true ∧ proc.fdInitialized = false ∧ a.keyb.isSome = true ∧ a.term = none

/-- An `open` that gets to look its file up finds it, and the set-up is not left half made. -/
def KeepsTable (s : Session) (c : Call × Answers) : Prop :=
  c.1 = .open → ¬ (LooksUp c.2 s.proc ∧ c.2.file = none) ∧ ¬ HalfSetUp c.2 s.proc

section Sessions

variable {s : Session} {a : Answers}

theorem SessionInv.numOpen_eq (h : SessionInv s) : s.numOpen = s.opened.length := by
  unfold Session.numOpen
  rw [List.filter_eq_self.mpr fun fd hin => decide_eq_true (h.table.used fd hin).1]

/-- Conservation is a matter of the total, since the open descriptors are those given out. -/
theorem SessionInv.conserved_iff (h : SessionInv s) : Conserved s ↔ s.total = FD_CYCLABLE_PART := by
  unfold Conserved Session.total
  rw [h.numOpen_eq]

/-- With no descriptor left, all are open. -/
theorem SessionInv.lacking (h : SessionInv s) (htotal : s.total = FD_CYCLABLE_PART)
    (hlack : LacksDescriptors a s.proc) : s.opened.length = FD_CYCLABLE_PART := by
  obtain ⟨-, -, hempty⟩ := hlack
  obtain ⟨-, -, hfree⟩ := ensureFdInitialized_done (a := a) h
  have hzero : numFree (ensureFdInitialized a s.proc).2 = 0 := by
    unfold numFree
    rw [(Stack.empty_iff _).mp hempty, List.length_nil]
  unfold Session.total at htotal
  omega

/-- The set-up, where it is not left half made, changes the table only when it succeeds for the
    first time. -/
theorem ensureFdInitialized_same {proc : Proc.ProcessDesc} (hptr : a.validPointer = true)
    (hhalf : ¬ HalfSetUp a proc)
    (hfail : ¬ (proc.fdInitialized = false ∧ (ensureFdInitialized a proc).1 = true)) :
    (ensureFdInitialized a proc).2 = proc := by
  cases hinit : proc.fdInitialized with
  | true => rw [ensureFdInitialized_again hinit]
  | false =>
    unfold ensureFdInitialized at hfail ⊢
    rw [if_neg (by rw [hinit]; decide)] at hfail ⊢
    cases hkeyb : a.keyb with
    | none => rfl
    | some keyb =>
      cases hterm : a.term with
      | none => exact absurd ⟨hptr, hinit, by rw [hkeyb]; rfl, hterm⟩ hhalf
      | some term =>
        rw [hkeyb, hterm] at hfail
        exact absurd ⟨hinit, rfl⟩ hfail

/-- **A failed `open`** that keeps the table changes nothing in it. -/
theorem SessionInv.failsCleanly (h : SessionInv s) (htotal : s.total = FD_CYCLABLE_PART)
    (hok : KeepsTable s (.open, a)) : FailsCleanly s a := by
  obtain ⟨hfound, hhalf⟩ := hok rfl
  refine ⟨fun hret => ?_, fun hlack => h.numOpen_eq.trans (h.lacking htotal hlack)⟩
  rcases openFile_done h a with ⟨hlook, -⟩ | ⟨hlook, hnone, -⟩ | ⟨-, -, -, hlt, -⟩
  · rcases (openFile_early hlook).2 with he | ⟨hptr, he⟩
    · rw [he]
    · rw [he, ensureFdInitialized_same hptr hhalf]
      -- a first set-up that succeeds leaves every slot free
      rintro ⟨hinit, hset⟩
      have hlack : LacksDescriptors a s.proc := by
        refine ⟨hptr, hset, ?_⟩
        rw [← Bool.not_eq_false]
        exact fun hc => hlook ⟨hptr, hset, hc⟩
      have hall := h.lacking htotal hlack
      rw [h.fresh hinit] at hall
      exact absurd hall (by decide)
  · exact absurd ⟨hlook, hnone⟩ hfound
  · rw [hret] at hlt
    exact absurd hlt (by decide)

/-- **No descriptor is lost** in a run where every `open` that looks a file up finds it: the open
    ones and the free ones are all there are, and a failed `open` leaves the table as it was.  And
    there an `open` that looks up a file that is not there loses one. -/
theorem descriptors_conserved (hr : Reach machine KeepsTable s) :
    Conserved s ∧ (∀ a, KeepsTable s (.open, a) → FailsCleanly s a) ∧
    ∀ a, LooksUp a s.proc → a.file = none → ¬ Conserved (s.after (.open, a)) := by
  have hinv : SessionInv s ∧ s.total = FD_CYCLABLE_PART := by
    refine hr.invariant (I := fun s => SessionInv s ∧ s.total = FD_CYCLABLE_PART)
      (fun _ h => sessionInv_init h) ?_
    rintro s c s' ⟨h, htotal⟩ hok rfl
    obtain ⟨h', ⟨-, hkept⟩ | ⟨⟨hopen, hlook, hnone⟩, -⟩⟩ := h.after c
    · exact ⟨h', hkept.trans htotal⟩
    · exact absurd ⟨hlook, hnone⟩ (hok hopen).1
  obtain ⟨h, htotal⟩ := hinv
  refine ⟨h.conserved_iff.mpr htotal, fun a hok => h.failsCleanly htotal hok,
    fun a hlook hnone hc => ?_⟩
  obtain ⟨h', ⟨hkept, -⟩ | ⟨-, hlost⟩⟩ := h.after (.open, a)
  · exact hkept ⟨rfl, hlook, hnone⟩
  · have htotal' := h'.conserved_iff.mp hc
    omega

/-- With one file open. -/
theorem descriptors_conserved_opened : ∃ s, Reach machine KeepsTable s ∧ s.opened ≠ [] ∧
    Conserved s ∧ (∀ a, KeepsTable s (.open, a) → FailsCleanly s a) ∧
    ∀ a, LooksUp a s.proc → a.file = none → ¬ Conserved (s.after (.open, a)) := by
  have hkeep : KeepsTable freshSession (.open, allThere) := fun _ =>
    ⟨fun hc => absurd hc.2 (by simp [allThere]), fun hc => absurd hc.2.2.2 (by simp [allThere])⟩
  have hr : Reach machine KeepsTable (freshSession.after (.open, allThere)) :=
    .step (.init freshSession_init) hkeep rfl
  exact ⟨_, hr, freshSession_opened, descriptors_conserved hr⟩

/-- **`open` of a name that is not there**, as the first call of a process, takes a slot for
    good. -/
theorem open_loses_slot : ¬ ∀ s, Reach machine (fun _ _ => True) s →
    Conserved s ∧ ∀ a, FailsCleanly s a := by
  intro h
  have hr : Reach machine (fun _ _ => True)
      (freshSession.after (.open, { allThere with file := none })) :=
    .step (.init freshSession_init) trivial rfl
  have hlost : ¬ Conserved (freshSession.after (.open, { allThere with file := none })) := by
    unfold Conserved
    decide +kernel
  exact hlost (h _ hr).1

end Sessions

end Descriptors

end TedkOS.Syscalls
