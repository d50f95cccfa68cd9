/-
  The processes of one terminal, and who of them waits for a line.

  A terminal has room for one reader (`UserWaitingRead`, `OwnedByPid`, `UserWaitingBuffer`,
  `UserWaitingLen`).  `read` puts the caller there and blocks it, and Enter wakes who stands there.
  But the place is cleared by `setOwner`, which `execute` calls after asking `canBeOwnedBy`, and
  which closing a handle of `/dev/keyb` and `halt` call whoever owns the terminal.

  1. **Program** — `Session`: the terminal, and the processes attached to it with their run states.
     A step is a system call of a running process, a key, or a `dotask` of somebody who makes a
     process run again.

  2. **Quiet changes** — what the handlers other than Enter, `read` and `setOwner` do to a terminal
     concerns the screen and the buffer (`Draws`), and so no reader (`Quiet`); Enter wakes who waits
     (`Woken`).
-/
import TedkOS.Proc.Tasks
import TedkOS.Drivers.TerminalInv

namespace TedkOS.Drivers

open Runs Proc

/-- What matters here of a process attached to the terminal, and of its thread. -/
structure Attached where
  execParent : Option Pid
  runState : ThreadState
  /-- The descriptors above 1 that are handles of `/dev/keyb`. -/
  keybs : Nat
  /-- The buffer and length of the `Term::read` that blocked the thread, until it is woken. -/
  reading : Option (BitVec 32 × BitVec 32)

/-- The terminal, and the processes attached to it by their id. -/
structure Session where
  term : Term
  procs : Pid → Option Attached

/-- The thread's state becomes `Running`. -/
def Attached.wake (p : Attached) : Attached := { p with runState := .Running, reading := none }

/-- What an effect of the terminal is to the processes. -/
def Effect.on (procs : Pid → Option Attached) : Effect → Pid → Option Attached
  | .block pid buf nbytes => Function.update procs pid
      ((procs pid).map fun p => { p with runState := .Waiting, reading := some (buf, nbytes) })
  | .unblock pid _ => Function.update procs pid ((procs pid).map Attached.wake)
  | _ => procs

namespace Session

/-- The terminal has become `term`, with the effects it has logged on the way. -/
def become (s : Session) (term : Term) : Session :=
  ⟨term, (term.log.drop s.term.log.length).foldl Effect.on s.procs⟩

/-- `init_main`: the launcher of the terminal owns it. -/
def start (launcher : Pid) : Session where
  term := (Term.new.setOwner launcher).nolock_cls
  procs := Function.update (fun _ => none) launcher (some ⟨none, .Running, 0, none⟩)

/-- `read` on `/dev/keyb`. -/
def read (pid buf nbytes : BitVec 32) (s : Session) : Session :=
  s.become (s.term.read pid buf nbytes).2

/-- `write` on `/dev/term`. -/
def write (cbuf : Nat → BitVec 8) (nbytes : BitVec 32) (s : Session) : Session :=
  s.become (s.term.write cbuf nbytes).2

/-- A key, while this terminal is the one shown. -/
def key (raw : Raw) (kkc : BitVec 32) (capslock : Bool) (s : Session) : Session :=
  s.become (s.term.key raw kkc capslock)

/-- `sysexec`, when the program can be loaded: the end of `do_exec`, then the child runs and the
    caller waits. -/
def execute (pid child : Pid) (s : Session) : Session where
  term := if s.term.canBeOwnedBy pid then s.term.setOwner child else s.term
  procs := Function.update (Function.update s.procs child (some ⟨some pid, .Running, 0, none⟩)) pid
    ((s.procs pid).map fun p => { p with runState := .Waiting })

/-- `syshalt`: the terminal is given up, the process is gone, its parent runs. -/
def halt (pid : Pid) (s : Session) : Session :=
  match (s.procs pid).bind Attached.execParent with
  -- is init process, return -1
  | none => s
  | some parent =>
    ⟨s.term.setOwner (-1),
      Function.update (Function.update s.procs pid none) parent
        ((s.procs parent).map Attached.wake)⟩

/-- `open("/dev/keyb")`. -/
def openKeyb (pid : Pid) (s : Session) : Session :=
  { s with procs :=
    Function.update s.procs pid ((s.procs pid).map fun p => { p with keybs := p.keybs + 1 }) }

/-- `close` of a handle of `/dev/keyb`: `KeyB::FOps::~FOps()` gives the terminal up. -/
def closeKeyb (pid : Pid) (s : Session) : Session :=
  match s.procs pid with
  | none => s
  | some p =>
    if p.keybs = 0 then s
    else ⟨s.term.setOwner (-1), Function.update s.procs pid (some { p with keybs := p.keybs - 1 })⟩

/-- `attachThread(thread, Running)` for a process of the terminal, by a `dotask` from anywhere. -/
def resume (pid : Pid) (s : Session) : Session :=
  { s with procs := Function.update s.procs pid ((s.procs pid).map Attached.wake) }

/-- What can happen. -/
inductive Step where
  | read (pid buf nbytes : BitVec 32)
  | write (pid : Pid) (cbuf : Nat → BitVec 8) (nbytes : BitVec 32)
  | execute (pid child : Pid)
  | halt (pid : Pid)
  | openKeyb (pid : Pid)
  | closeKeyb (pid : Pid)
  | key (raw : Raw) (kkc : BitVec 32) (capslock : Bool)
  | dotask (pid : Pid)

def step (s : Session) : Step → Session
  | .read pid buf nbytes => s.read pid buf nbytes
  | .write _ cbuf nbytes => s.write cbuf nbytes
  | .execute pid child => s.execute pid child
  | .halt pid => s.halt pid
  | .openKeyb pid => s.openKeyb pid
  | .closeKeyb pid => s.closeKeyb pid
  | .key raw kkc capslock => s.key raw kkc capslock
  | .dotask pid => s.resume pid

/-- The process is attached to the terminal and its thread runs. -/
def Runs (s : Session) (pid : Pid) : Prop := ∃ p, s.procs pid = some p ∧ p.runState = .Running

/-- The step can be taken: a call is made by a running process, `read` has passed the check of its
    buffer, the id of a child is new. -/
def Possible (s : Session) : Step → Prop
  | .read pid buf _ => s.Runs pid ∧ buf ≠ 0
  | .write pid _ _ => s.Runs pid
  | .execute pid child => s.Runs pid ∧ s.procs child = none ∧ child ≠ -1
  | .halt pid => s.Runs pid
  | .openKeyb pid => s.Runs pid
  | .closeKeyb pid => s.Runs pid
  | .key _ _ _ => True
  | .dotask _ => True

/-- Process `pid` was blocked by `read` and not woken. -/
def Waits (s : Session) (pid : Pid) (buf len : BitVec 32) : Prop :=
  ∃ p, s.procs pid = some p ∧ p.reading = some (buf, len)

/-- Nobody but `pid`, and the process `but`, waits. -/
def NoOtherWaits (s : Session) (pid : Pid) (but : Option Pid) : Prop :=
  ∀ q buf len, s.Waits q buf len → q = pid ∨ some q = but

/-- A handle is closed, or a process halts, only while no other process waits; the parent of a
    process that halts may, as it is woken. -/
def Considerate (s : Session) : Step → Prop
  | .closeKeyb pid => (∃ p, s.procs pid = some p ∧ p.keybs ≠ 0) → s.NoOtherWaits pid none
  | .halt pid => ∀ parent, (s.procs pid).bind Attached.execParent = some parent →
      s.NoOtherWaits pid (some parent)
  | _ => True

end Session

/-- The terminal's reader is `pid`, with these arguments. -/
structure Term.Registered (t : Term) (pid : Pid) (buf len : BitVec 32) : Prop where
  waiting : t.UserWaitingRead = true
  owner : t.OwnedByPid = pid
  buffer : t.UserWaitingBuffer = buf
  length : t.UserWaitingLen = len

/-- **No lost wake-up**: who waits is registered. -/
def Session.NoLostWakeup (s : Session) : Prop :=
  ∀ pid buf len, s.Waits pid buf len → s.term.Registered pid buf len

/-! ## The line -/

/-- The line in the buffer. -/
def Term.line (t : Term) : List (BitVec 8) := (List.range t.term_buf_pos).map fun i =>
    (t.term_buf i).displayed_char

theorem Term.length_line (t : Term) : t.line.length = t.term_buf_pos := by
  rw [Term.line, List.length_map, List.length_range]

/-- The caller gets what fits of the line. -/
theorem helpFinishRead_eq {t : Term} {buffer : BitVec 32} (hbuf : buffer ≠ 0) (nbytes : BitVec 32) :
    t.helpFinishRead buffer nbytes = (BitVec.ofNat 32 (t.line.take nbytes.toNat).length,
      { t with term_buf_pos := 0 }.emit (.copy buffer (t.line.take nbytes.toNat))) := by
  have hlen : (if nbytes.toNat < t.term_buf_pos then nbytes.toNat else t.term_buf_pos) =
      min nbytes.toNat t.term_buf_pos := by
    split
    · omega
    · omega
  have htake : t.line.take nbytes.toNat =
      (List.range (min nbytes.toNat t.term_buf_pos)).map fun i =>
      (t.term_buf i).displayed_char := by
    rw [Term.line, ← List.map_take, List.take_range]
  rw [Term.helpFinishRead, if_neg hbuf, htake, List.length_map, List.length_range]
  dsimp only
  rw [hlen]

/-! ## Quiet changes

  Both are relations that hold across any number of steps, so a function built of quiet ones is
  quiet by composition.  `Draws` is the stronger: nothing is copied to a reader's buffer either,
  as it is when a line is taken. -/

/-- The effect is on the screen or in the buffer. -/
def Effect.Drawing : Effect → Prop
  | copy _ _ => False
  | block _ _ _ => False
  | unblock _ _ => False
  | _ => True

/-- The effect is nothing to a thread. -/
def Effect.Quiet : Effect → Prop
  | block _ _ _ => False
  | unblock _ _ => False
  | _ => True

theorem Effect.Drawing.quiet {e : Effect} (h : e.Drawing) : e.Quiet := by
  cases e with
  | block pid buf nbytes => exact h
  | unblock pid eax => exact h
  | _ => trivial

/-- From `t` to `t'` the reader is the same, and no more has happened than on the screen and in the
    buffer. -/
structure Draws (t t' : Term) : Prop where
  waiting : t'.UserWaitingRead = t.UserWaitingRead
  owner : t'.OwnedByPid = t.OwnedByPid
  buffer : t'.UserWaitingBuffer = t.UserWaitingBuffer
  length : t'.UserWaitingLen = t.UserWaitingLen
  log : ∃ es, t'.log = t.log ++ es ∧ ∀ e ∈ es, e.Drawing

/-- From `t` to `t'` the reader is the same, and nobody was blocked or woken. -/
structure Quiet (t t' : Term) : Prop where
  waiting : t'.UserWaitingRead = t.UserWaitingRead
  owner : t'.OwnedByPid = t.OwnedByPid
  buffer : t'.UserWaitingBuffer = t.UserWaitingBuffer
  length : t'.UserWaitingLen = t.UserWaitingLen
  log : ∃ es, t'.log = t.log ++ es ∧ ∀ e ∈ es, e.Quiet

namespace Draws

variable {t t' t'' : Term} {e : Effect} {rec : term_buf_item}

theorem refl (t : Term) : Draws t t :=
  ⟨rfl, rfl, rfl, rfl, [], (List.append_nil _).symm, fun _ h => absurd h List.not_mem_nil⟩

theorem trans (h : Draws t t') (h' : Draws t' t'') : Draws t t'' := by
  obtain ⟨es, hes, hdraw⟩ := h.log
  obtain ⟨es', hes', hdraw'⟩ := h'.log
  refine ⟨h'.waiting.trans h.waiting, h'.owner.trans h.owner, h'.buffer.trans h.buffer,
    h'.length.trans h.length, es ++ es', ?_, fun e he => ?_⟩
  · rw [hes', hes, List.append_assoc]
  · rcases List.mem_append.mp he with he | he
    · exact hdraw e he
    · exact hdraw' e he

theorem emit (h : Draws t t') (he : e.Drawing) : Draws t (t'.emit e) := by
  refine h.trans ⟨rfl, rfl, rfl, rfl, [e], rfl, fun e' hin => ?_⟩
  rw [List.mem_singleton.mp hin]
  exact he

/-- The cursor and the buffer may change. -/
theorem moved (h : Draws t t') {x y pos : Nat} {buf : Nat → term_buf_item} :
    Draws t { t' with next_char_x := x, next_char_y := y, term_buf_pos := pos, term_buf := buf } :=
  ⟨h.waiting, h.owner, h.buffer, h.length, h.log⟩

theorem moveCursor (h : Draws t t') : Draws t t'.moveCursor := h.emit trivial

theorem lineDown (h : Draws t t') : Draws t t'.lineDown := by
  rw [Term.lineDown]
  split
  · exact h.moved
  · exact h.emit trivial

theorem push (h : Draws t t') : Draws t (t'.push rec) := h.moved.emit trivial

theorem showBlanks (h : Draws t t') (first last : Nat) : Draws t (t'.showBlanks first last) := by
  rw [Term.showBlanks]
  generalize (List.range (last + 1 - first)).map (first + ·) = cells
  induction cells generalizing t' with
  | nil => exact h
  | cons j cells ih => exact ih (h.emit trivial)

theorem typeChar (c : BitVec 8) : Draws t (t.typeChar c) := by
  have hshown : Draws t (t.emit (.showChar t.next_char_x t.next_char_y c)) := (refl t).emit trivial
  rw [Term.typeChar]
  split
  · dsimp only
    split
    · exact hshown.moved.lineDown.push
    · exact hshown.moved.push
  · exact refl t

theorem tab : Draws t t.nolock_tab_handler := by
  rw [Term.nolock_tab_handler]
  split
  · exact refl t
  · dsimp only
    split
    · exact (refl t).moved.lineDown.push
    · exact (refl t).moved.push

theorem backspace : Draws t t.nolock_backspace_handler := by
  have hclear : Draws t (t.emit (.clearLine t.next_char_y)) := (refl t).emit trivial
  rw [Term.nolock_backspace_handler]
  split
  · dsimp only
    refine moved ?_
    split
    · exact hclear.moved.showBlanks _ _
    · exact (refl t).moved.showBlanks _ _
  · exact refl t

theorem putc (c : BitVec 8) : Draws t (t.nolock_putc c) := by
  have hempty : Draws t { t with term_buf_pos := 0 } := (refl t).moved
  rw [Term.nolock_putc]
  refine moveCursor ?_
  dsimp only
  split
  · exact hempty
  split
  · exact hempty.moved.lineDown
  split
  · split
    · exact hempty.moved.lineDown
    · exact hempty.moved
  · have hshown := hempty.emit (e := .showChar t.next_char_x t.next_char_y c) trivial
    split
    · exact hshown.moved.lineDown
    · exact hshown.moved

theorem writeLoop (cbuf : Nat → BitVec 8) (rounds i : Nat) :
    Draws t (Term.writeLoop cbuf rounds i t).2 := by
  induction rounds generalizing i t with
  | zero => exact refl t
  | succ rounds ih =>
    rw [Term.writeLoop]
    split
    · exact refl t
    · exact (putc (cbuf i)).trans (ih (i + 1))

theorem quiet (h : Draws t t') : Quiet t t' := by
  obtain ⟨es, hes, hdraw⟩ := h.log
  exact ⟨h.waiting, h.owner, h.buffer, h.length, es, hes, fun e he => (hdraw e he).quiet⟩

end Draws

namespace Quiet

variable {t t' t'' : Term} {e : Effect}

theorem refl (t : Term) : Quiet t t := (Draws.refl t).quiet

theorem trans (h : Quiet t t') (h' : Quiet t' t'') : Quiet t t'' := by
  obtain ⟨es, hes, hquiet⟩ := h.log
  obtain ⟨es', hes', hquiet'⟩ := h'.log
  refine ⟨h'.waiting.trans h.waiting, h'.owner.trans h.owner, h'.buffer.trans h.buffer,
    h'.length.trans h.length, es ++ es', ?_, fun e he => ?_⟩
  · rw [hes', hes, List.append_assoc]
  · rcases List.mem_append.mp he with he | he
    · exact hquiet e he
    · exact hquiet' e he

theorem emit (h : Quiet t t') (he : e.Quiet) : Quiet t (t'.emit e) := by
  refine h.trans ⟨rfl, rfl, rfl, rfl, [e], rfl, fun e' hin => ?_⟩
  rw [List.mem_singleton.mp hin]
  exact he

theorem moveCursor (h : Quiet t t') : Quiet t t'.moveCursor := h.emit trivial

theorem helpFinishRead (buffer nbytes : BitVec 32) :
    Quiet t (t.helpFinishRead buffer nbytes).2 := by
  by_cases hbuf : buffer = 0
  · rw [Term.helpFinishRead, if_pos hbuf]
    exact refl t
  · have hempty : Draws t { t with term_buf_pos := 0 } := (Draws.refl t).moved
    rw [helpFinishRead_eq hbuf]
    exact hempty.quiet.emit trivial

end Quiet

/-- What Enter does when somebody waits: copy the line, and wake the owner. -/
structure Woken (t t' : Term) : Prop where
  waiting : t'.UserWaitingRead = false
  log : ∃ es chars es', t'.log = t.log ++ (es ++ [.copy t.UserWaitingBuffer chars,
      .unblock t.OwnedByPid (BitVec.ofNat 32 chars.length)] ++ es') ∧
    chars.length ≤ t.UserWaitingLen.toNat ∧ (∀ e ∈ es, e.Quiet) ∧ ∀ e ∈ es', e.Quiet

section Keys

variable {t : Term} {raw : Raw}

/-- The line ended, before anybody is given it. -/
def Term.endLine (t : Term) (raw : Raw) : Term :=
  { t with next_char_x := 0 }.lineDown.push { raw.newLine with displayed_char := 0x0A }

theorem draws_endLine : Draws t (t.endLine raw) := (Draws.refl t).moved.lineDown.push

/-- Enter wakes nobody if nobody waits. -/
theorem enter_quiet (h : t.UserWaitingRead = false) : Quiet t (t.nolock_enter_handler raw) := by
  have hdraws : Draws t (t.endLine raw) := draws_endLine
  show Quiet t
    (if (t.endLine raw).UserWaitingRead then _ else { t.endLine raw with term_buf_pos := 0 })
  rw [if_neg (by rw [hdraws.waiting, h]; exact Bool.false_ne_true)]
  exact hdraws.moved.quiet

/-- What Enter leaves when somebody waits. -/
theorem enter_eq (h : t.UserWaitingRead = true) (hbuf : t.UserWaitingBuffer ≠ 0) :
    t.nolock_enter_handler raw =
      let chars := (t.endLine raw).line.take t.UserWaitingLen.toNat
      (({ t.endLine raw with UserWaitingRead := false, term_buf_pos := 0 }.emit
        (.copy t.UserWaitingBuffer chars)).emit
        (.unblock t.OwnedByPid (BitVec.ofNat 32 chars.length))) := by
  have hdraws : Draws t (t.endLine raw) := draws_endLine
  have hhandler : t.nolock_enter_handler raw =
      if (t.endLine raw).UserWaitingRead then
        let r := { t.endLine raw with UserWaitingRead := false }.helpFinishRead
          (t.endLine raw).UserWaitingBuffer (t.endLine raw).UserWaitingLen
        r.2.emit (.unblock (t.endLine raw).OwnedByPid r.1)
      else { t.endLine raw with term_buf_pos := 0 } := rfl
  rw [hhandler, if_pos (hdraws.waiting.trans h), hdraws.buffer, hdraws.length, hdraws.owner,
    helpFinishRead_eq hbuf]
  rfl

/-- Enter wakes who waits, with the line up to the length asked for. -/
theorem enter_wakes (h : t.UserWaitingRead = true) (hbuf : t.UserWaitingBuffer ≠ 0) :
    Woken t (t.nolock_enter_handler raw) := by
  have hdraws : Draws t (t.endLine raw) := draws_endLine
  obtain ⟨es, hes, hquiet⟩ := hdraws.quiet.log
  rw [enter_eq h hbuf]
  constructor
  case waiting => rfl
  case log =>
    refine ⟨es, (t.endLine raw).line.take t.UserWaitingLen.toNat, [], ?_,
      List.length_take_le _ _, hquiet, fun e he => absurd he List.not_mem_nil⟩
    rw [List.append_nil, ← List.append_assoc, ← hes]
    show ((t.endLine raw).log ++ [_]) ++ [_] = _
    rw [List.append_assoc, List.singleton_append]

theorem Woken.moveCursor {t' : Term} (h : Woken t t') : Woken t t'.moveCursor := by
  obtain ⟨es, chars, es', hlog, hlen, hes, hes'⟩ := h.log
  refine ⟨h.waiting, es, chars, es' ++ [.setCursor t'.next_char_x t'.next_char_y], ?_,
    hlen, hes, ?_⟩
  · show t'.log ++ [_] = _
    rw [hlog]
    simp only [List.append_assoc]
  · intro e he
    rcases List.mem_append.mp he with he | he
    · exact hes' e he
    · rw [List.mem_singleton.mp he]
      trivial

/-- **A key** is quiet, or it is an Enter somebody waited for. -/
theorem key_cases (raw : Raw) (hbuf : t.UserWaitingRead = true → t.UserWaitingBuffer ≠ 0)
    (kkc : BitVec 32) (capslock : Bool) : Quiet t (t.key raw kkc capslock) ∨
      t.UserWaitingRead = true ∧ Woken t (t.key raw kkc capslock) := by
  rw [Term.key]
  split
  case isFalse => exact Or.inl (Draws.typeChar _).moveCursor.quiet
  split
  case isTrue =>
    left
    refine Quiet.moveCursor ?_
    split
    · exact ((Draws.refl t).moved.emit (e := .clearScreen) trivial).quiet
    · exact Quiet.refl t
  split
  case isTrue => exact Or.inl Draws.backspace.moveCursor.quiet
  split
  case isTrue => exact Or.inl Draws.tab.moveCursor.quiet
  split
  case isTrue =>
    cases hread : t.UserWaitingRead with
    | false => exact Or.inl (enter_quiet hread).moveCursor
    | true => exact Or.inr ⟨rfl, (enter_wakes hread (hbuf hread)).moveCursor⟩
  case isFalse => exact Or.inl (Quiet.refl t).moveCursor

theorem key_enter (capslock : Bool) :
    t.key raw KKC_ENTER capslock = (t.nolock_enter_handler raw).moveCursor := by
  rw [Term.key, if_pos (by decide), if_neg (by decide), if_neg (by decide), if_neg (by decide),
    if_pos (by decide)]

end Keys

end TedkOS.Drivers
