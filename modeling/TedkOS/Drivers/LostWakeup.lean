/-
  Lost wake-ups on a terminal.

  `NoLostWakeup` says that whoever was blocked by `read`, and not woken, is the registered reader.
  Then it owns the terminal, so no other process can read or hand the terminal to a child, and the
  next Enter completes its read.

  1. **The invariant** — `Settled`: nobody's wake-up is lost; whoever waits does not run; and the id
     -1, which as an owner stands for nobody, is no process.  The second is what makes a reader the
     only one: the owner waits, so who calls `read` or `execute` is somebody else, and is refused.

  2. **The steps** — keys, reads and children keep it.

  3. **The steps that give the terminal up** — closing a handle of `/dev/keyb`, or halting, gives
     the terminal up without asking `canBeOwnedBy`, and so loses a process that waits, unless that
     is the parent `halt` wakes (`closeKeyb_iff`, `halt_iff`).

  4. **Runs** — `noLostWakeup_iff`: the invariant is kept by every step but those two, and by these
     exactly if nobody is lost.
-/
import TedkOS.Drivers.TerminalWait

namespace TedkOS.Drivers

open Runs Proc

/-! ## Waiting

  Who waits can be read off the run states and the terminal.  A quiet change of the terminal has
  nobody wait who did not, and Enter wakes exactly one. -/

namespace Session

variable {s : Session} {t' : Term} {pid q : Pid} {buf len : BitVec 32}

/-- What a terminal does quietly blocks and wakes nobody. -/
theorem foldl_quiet {es : List Effect} (h : ∀ e ∈ es, e.Quiet) (procs : Pid → Option Attached) :
    es.foldl Effect.on procs = procs := by
  induction es with
  | nil => rfl
  | cons e es ih =>
    have he := h e List.mem_cons_self
    have hon : Effect.on procs e = procs := by
      cases e with
      | block => exact absurd he id
      | unblock => exact absurd he id
      | _ => rfl
    rw [List.foldl_cons, hon]
    exact ih fun e he => h e (List.mem_cons_of_mem _ he)

/-- After a quiet change the processes are as before. -/
theorem become_quiet (h : Quiet s.term t') : s.become t' = ⟨t', s.procs⟩ := by
  obtain ⟨es, hes, hquiet⟩ := h.log
  rw [become, hes, List.drop_left, foldl_quiet hquiet]

/-- After a change that wakes, the owner runs, and all others are as before. -/
theorem become_woken (h : Woken s.term t') : s.become t' =
    ⟨t', Function.update s.procs s.term.OwnedByPid
      ((s.procs s.term.OwnedByPid).map Attached.wake)⟩ := by
  obtain ⟨es, chars, es', hes, -, hquiet, hquiet'⟩ := h.log
  rw [become, hes, List.drop_left, List.foldl_append, List.foldl_append, foldl_quiet hquiet,
    foldl_quiet hquiet']
  rfl

/-- The processes are as they were but for one. -/
theorem waits_update {procs : Pid → Option Attached} {p : Option Attached} (hne : q ≠ pid) :
    Waits ⟨t', Function.update procs pid p⟩ q buf len ↔ Waits ⟨t', procs⟩ q buf len := by
  rw [Waits, Waits]
  dsimp only
  rw [Function.update_of_ne hne]

/-- A process woken does not wait. -/
theorem not_waits_wake {procs : Pid → Option Attached} :
    ¬ Waits ⟨t', Function.update procs pid ((procs pid).map Attached.wake)⟩ pid buf len := by
  rintro ⟨p, hp, hreading⟩
  dsimp only at hp
  rw [Function.update_self, Option.map_eq_some_iff] at hp
  obtain ⟨p', -, rfl⟩ := hp
  exact absurd hreading (by simp [Attached.wake])

/-- **The invariant** between two steps. -/
structure Settled (s : Session) : Prop where
  screen : OnScreen s.term
  /-- Who waits is the reader the terminal knows. -/
  noLost : s.NoLostWakeup
  /-- Who waits does not run, so it makes no calls. -/
  state : ∀ pid p, s.procs pid = some p → p.reading ≠ none → p.runState = .Waiting
  /-- The owner -1 is nobody. -/
  noId : s.procs (-1) = none

/-- A process that runs does not wait. -/
theorem Settled.not_waits (h : Settled s) (hruns : s.Runs pid) : ¬ s.Waits pid buf len := by
  rintro ⟨p, hp, hreading⟩
  obtain ⟨p', hp', hstate⟩ := hruns
  obtain rfl := Option.some.inj (hp.symm.trans hp')
  have hwaiting := h.state pid p hp (by rw [hreading]; simp)
  rw [hstate] at hwaiting
  exact absurd hwaiting (by decide)

/-- Who waits owns the terminal, so nobody else can read or hand it on. -/
theorem Settled.owner (h : Settled s) (hw : s.Waits q buf len) :
    s.term.OwnedByPid = q ∧ q ≠ -1 := by
  refine ⟨(h.noLost q buf len hw).owner, ?_⟩
  rintro rfl
  obtain ⟨p, hp, -⟩ := hw
  rw [h.noId] at hp
  exact absurd hp (by simp)

/-- At the start there is the launcher, and nobody else. -/
theorem start_procs (launcher : Pid) : (start launcher).procs =
    Function.update (fun _ => none) launcher (some ⟨none, .Running, 0, none⟩) := rfl

/-- The launcher runs, and owns the terminal. -/
theorem start_settled {launcher : Pid} (hid : launcher ≠ -1) : Settled (start launcher) := by
  have hreading : ∀ pid p, (start launcher).procs pid = some p → p.reading = none := by
    intro pid p hp
    by_cases h : pid = launcher
    · subst h
      rw [start_procs, Function.update_self] at hp
      rw [← Option.some.inj hp]
    · rw [start_procs, Function.update_of_ne h] at hp
      exact absurd hp (by simp)
  constructor
  case screen => exact (OnScreen.new.setOwner launcher).cls
  case noLost =>
    rintro pid buf len ⟨p, hp, hr⟩
    rw [hreading pid p hp] at hr
    exact absurd hr (by simp)
  case state =>
    intro pid p hp hr
    exact absurd (hreading pid p hp) hr
  case noId => rw [start_procs, Function.update_of_ne hid.symm]

/-- Waking, removing and adding processes that do not wait keeps their part of the invariant. -/
theorem state_update {procs : Pid → Option Attached} {p : Option Attached}
    (h : ∀ pid p, procs pid = some p → p.reading ≠ none → p.runState = .Waiting)
    (hp : ∀ p', p = some p' → p'.reading ≠ none → p'.runState = .Waiting) :
    ∀ q p', Function.update procs pid p q = some p' → p'.reading ≠ none →
    p'.runState = .Waiting := by
  intro q p' hq
  by_cases hqp : q = pid
  · subst hqp
    rw [Function.update_self] at hq
    exact hp p' hq
  · rw [Function.update_of_ne hqp] at hq
    exact h q p' hq

/-- Waking a process does. -/
theorem state_wake {procs : Pid → Option Attached}
    (h : ∀ pid p, procs pid = some p → p.reading ≠ none → p.runState = .Waiting) :
    ∀ q p', Function.update procs pid ((procs pid).map Attached.wake) q = some p' →
      p'.reading ≠ none → p'.runState = .Waiting := by
  refine state_update h ?_
  intro p' hp' hreading
  obtain ⟨p, -, rfl⟩ := Option.map_eq_some_iff.mp hp'
  exact absurd rfl hreading

/-- The id -1 is given to nobody. -/
theorem noId_set {procs : Pid → Option Attached} {p : Option Attached} (h : procs (-1) = none)
    (hp : pid = -1 → p = none) : Function.update procs pid p (-1) = none := by
  by_cases hid : pid = -1
  · subst hid
    rw [Function.update_self, hp rfl]
  · rw [Function.update_of_ne (Ne.symm hid), h]

/-- Changing the processes there are makes no new ones. -/
theorem noId_update {procs : Pid → Option Attached} {f : Attached → Attached}
    (h : procs (-1) = none) :
    Function.update procs pid ((procs pid).map f) (-1) = none := by
  refine noId_set h ?_
  rintro rfl
  rw [h, Option.map_none]

/-- A process has an id. -/
theorem Settled.id_ne (h : Settled s) {p : Attached} (hp : s.procs pid = some p) : pid ≠ -1 := by
  rintro rfl
  rw [h.noId] at hp
  exact absurd hp (by simp)

/-! ### The steps

  A key is quiet or is Enter; a read waits, or is refused because somebody else owns the
  terminal; a child gets the terminal only from an owner that runs. -/

/-- A quiet change of the terminal: the reader is as before, and so are the processes. -/
theorem Settled.become (h : Settled s) (hquiet : Quiet s.term t') (hscreen : OnScreen t') :
    Settled (s.become t') := by
  rw [become_quiet hquiet]
  refine ⟨hscreen, fun pid buf len hw => ?_, h.state, h.noId⟩
  have hreg := h.noLost pid buf len hw
  exact ⟨hquiet.waiting.trans hreg.waiting, hquiet.owner.trans hreg.owner,
    hquiet.buffer.trans hreg.buffer, hquiet.length.trans hreg.length⟩

/-- **A key.**  Enter wakes the reader if there is one; any other key is quiet. -/
theorem Settled.key (h : Settled s) (raw : Raw) (kkc : BitVec 32) (capslock : Bool) :
    Settled (s.key raw kkc capslock) := by
  have hscreen := h.screen.key raw kkc capslock
  rcases key_cases raw h.screen.waiting kkc capslock with hquiet | ⟨-, hwoken⟩
  · exact h.become hquiet hscreen
  · rw [Session.key, become_woken hwoken]
    refine ⟨hscreen, fun q buf len hw => ?_, state_wake h.state, noId_update h.noId⟩
    -- only the owner waited, and it was woken
    by_cases hq : q = s.term.OwnedByPid
    · subst hq
      exact absurd hw not_waits_wake
    · rw [waits_update hq] at hw
      exact absurd (h.owner hw).1.symm hq

/-- **`dotask`** makes a process run, which does not wait then. -/
theorem Settled.resume (h : Settled s) (pid : Pid) : Settled (s.resume pid) := by
  refine ⟨h.screen, fun q buf len hw => ?_, state_wake h.state, noId_update h.noId⟩
  by_cases hq : q = pid
  · subst hq
    exact absurd hw not_waits_wake
  · rw [Session.resume, waits_update hq] at hw
    exact h.noLost q buf len hw

/-- Opening the keyboard counts one handle more. -/
theorem openKeyb_procs : (s.openKeyb pid).procs = Function.update s.procs pid
    ((s.procs pid).map fun p => { p with keybs := p.keybs + 1 }) := rfl

/-- **Opening the keyboard** is no matter of who waits. -/
theorem Settled.openKeyb (h : Settled s) (pid : Pid) : Settled (s.openKeyb pid) := by
  refine ⟨h.screen, fun q buf len hw => ?_, state_update h.state ?_, noId_update h.noId⟩
  · obtain ⟨p, hp, hreading⟩ := hw
    by_cases hq : q = pid
    · subst hq
      rw [openKeyb_procs, Function.update_self] at hp
      obtain ⟨p', hp', rfl⟩ := Option.map_eq_some_iff.mp hp
      exact h.noLost q buf len ⟨p', hp', hreading⟩
    · rw [openKeyb_procs, Function.update_of_ne hq] at hp
      exact h.noLost q buf len ⟨p, hp, hreading⟩
  · intro p' hp' hreading
    obtain ⟨p, hp, rfl⟩ := Option.map_eq_some_iff.mp hp'
    exact h.state pid p hp hreading

/-- The caller blocks: it is the one process that waits, and the reader. -/
theorem Settled.block (h : Settled s) (hnone : ∀ q b l, ¬ s.Waits q b l) (hscreen : OnScreen t')
    (hreg : t'.Registered pid buf len) (hlog : t'.log = s.term.log ++ [.block pid buf len]) :
    Settled (s.become t') := by
  have hbecome : s.become t' = ⟨t', Function.update s.procs pid ((s.procs pid).map fun p =>
      { p with runState := .Waiting, reading := some (buf, len) })⟩ := by
    rw [Session.become, hlog, List.drop_left]
    rfl
  rw [hbecome]
  refine ⟨hscreen, fun q b l hw => ?_, state_update h.state ?_, noId_update h.noId⟩
  · by_cases hq : q = pid
    · subst hq
      obtain ⟨p, hp, hreading⟩ := hw
      dsimp only at hp
      rw [Function.update_self] at hp
      obtain ⟨p', -, rfl⟩ := Option.map_eq_some_iff.mp hp
      obtain ⟨rfl, rfl⟩ := Prod.mk.inj (Option.some.inj hreading)
      exact hreg
    · rw [waits_update hq] at hw
      exact absurd hw (hnone q b l)
  · intro p' hp' _
    obtain ⟨p, -, rfl⟩ := Option.map_eq_some_iff.mp hp'
    rfl

/-- Nobody waits, and a quiet change gives the terminal to somebody else. -/
theorem Settled.handedOn (h : Settled s) (hnone : ∀ q b l, ¬ s.Waits q b l) {t : Term}
    (hlog : t.log = s.term.log) (hquiet : Quiet t t') (hscreen : OnScreen t') :
    Settled (s.become t') := by
  obtain ⟨es, hes, hes'⟩ := hquiet.log
  have hbecome : s.become t' = ⟨t', s.procs⟩ := by
    rw [Session.become, hes, hlog, List.drop_left, foldl_quiet hes']
  rw [hbecome]
  exact ⟨hscreen, fun q b l hw => absurd hw (hnone q b l), h.state, h.noId⟩

/-- `read` by the owner, when nobody waits: it blocks, and is the reader, or it has its line at
    once. -/
theorem Settled.readOwned (h : Settled s) (hnone : ∀ q b l, ¬ s.Waits q b l) (hbuf : buf ≠ 0)
    {t : Term} (howner : t.OwnedByPid = pid) (hlog : t.log = s.term.log) (hscreen : OnScreen t) :
    Settled (s.become (t.readOwned pid buf len).2) := by
  have hnext := hscreen.readOwned pid len hbuf
  rw [Term.readOwned] at hnext ⊢
  by_cases hshort : t.term_buf_pos < len.toNat
  · rw [if_pos hshort] at hnext ⊢
    refine h.block hnone hnext ⟨rfl, howner, rfl, rfl⟩ ?_
    rw [← hlog]
    rfl
  · rw [if_neg hshort] at hnext ⊢
    exact h.handedOn hnone hlog (Quiet.helpFinishRead buf len) hnext

/-- `read`: while another process waits it is refused; else the caller is the only one that may
    wait. -/
theorem Settled.read (h : Settled s) (hruns : s.Runs pid) (hbuf : buf ≠ 0) :
    Settled (s.read pid buf len) := by
  have hrefused : Settled (s.become s.term) := h.become (Quiet.refl _) h.screen
  rw [Session.read, Term.read]
  -- somebody waits, so the terminal is owned by another process than the caller
  by_cases hother : ∃ q b l, s.Waits q b l
  · obtain ⟨q, b, l, hw⟩ := hother
    obtain ⟨howner, hid⟩ := h.owner hw
    have hne : q ≠ pid := by
      rintro rfl
      exact h.not_waits hruns hw
    rw [if_neg (by rw [howner]; exact hid), if_pos (by rw [howner]; exact hne)]
    exact hrefused
  · have hnone : ∀ q b l, ¬ s.Waits q b l := fun q b l hw => hother ⟨q, b, l, hw⟩
    split
    case isTrue =>
      exact h.readOwned hnone hbuf rfl rfl
        (h.screen.withReader fun h0 => absurd h0 Bool.false_ne_true)
    split
    case isTrue => exact hrefused
    case isFalse howner => exact h.readOwned hnone hbuf (not_not.mp howner) rfl h.screen

/-- `execute`: the terminal goes to the child only if nobody waits. -/
theorem Settled.execute {child : Pid} (h : Settled s) (hruns : s.Runs pid)
    (hnew : s.procs child = none) (hid : child ≠ -1) : Settled (s.execute pid child) := by
  have hstate : ∀ q p, (s.execute pid child).procs q = some p → p.reading ≠ none →
      p.runState = .Waiting := by
    refine state_update (state_update h.state ?_) ?_
    · intro p' hp' hreading
      rw [← Option.some.inj hp'] at hreading
      exact absurd rfl hreading
    · intro p' hp' _
      obtain ⟨p, -, rfl⟩ := Option.map_eq_some_iff.mp hp'
      rfl
  have hnoId : (s.execute pid child).procs (-1) = none := by
    obtain ⟨p, hp, -⟩ := hruns
    exact noId_set (noId_set h.noId fun hchild => absurd hchild hid) fun hpid =>
      absurd hpid (h.id_ne hp)
  -- neither the caller nor the child waits
  have hwas : ∀ q b l, (s.execute pid child).Waits q b l → s.Waits q b l := by
    rintro q b l ⟨p, hp, hreading⟩
    have hp : Function.update (Function.update s.procs child _) pid _ q = some p := hp
    by_cases hq : q = pid
    · subst hq
      rw [Function.update_self] at hp
      obtain ⟨p', hp', rfl⟩ := Option.map_eq_some_iff.mp hp
      exact ⟨p', hp', hreading⟩
    · rw [Function.update_of_ne hq] at hp
      by_cases hc : q = child
      · subst hc
        rw [Function.update_self] at hp
        rw [← Option.some.inj hp] at hreading
        exact absurd hreading (by simp)
      · rw [Function.update_of_ne hc] at hp
        exact ⟨p, hp, hreading⟩
  have hscreen : OnScreen (s.execute pid child).term := by
    show OnScreen (if s.term.canBeOwnedBy pid then s.term.setOwner child else s.term)
    split
    · exact h.screen.setOwner child
    · exact h.screen
  refine ⟨hscreen, fun q b l hw => ?_, hstate, hnoId⟩
  have hwait := hwas q b l hw
  obtain ⟨howner, hq⟩ := h.owner hwait
  have hne : q ≠ pid := by
    rintro rfl
    exact h.not_waits hruns hwait
  have hrefused : s.term.canBeOwnedBy pid = false := by
    rw [Term.canBeOwnedBy, howner, Bool.or_eq_false_iff]
    exact ⟨beq_eq_false_iff_ne.mpr hq, beq_eq_false_iff_ne.mpr hne⟩
  show Term.Registered (if s.term.canBeOwnedBy pid then s.term.setOwner child else s.term) q b l
  rw [hrefused]
  exact h.noLost q b l hwait

/-! ### The steps that give the terminal up

  `setOwner` with nobody clears the place of the reader as well.  For the process that waits
  there it is the end, and for everybody else nothing; so the two equivalences say that nobody
  waited, or that the step itself wakes who did. -/

/-- Closing a handle gives the terminal to nobody. -/
theorem closeKeyb_eq {p : Attached} (hp : s.procs pid = some p) (hopen : p.keybs ≠ 0) :
    s.closeKeyb pid =
      ⟨s.term.setOwner (-1),
        Function.update s.procs pid (some { p with keybs := p.keybs - 1 })⟩ := by
  rw [Session.closeKeyb, hp]
  dsimp only
  rw [if_neg hopen]

/-- Without a handle there is nothing to close. -/
theorem closeKeyb_noop (hnone : ¬ ∃ p, s.procs pid = some p ∧ p.keybs ≠ 0) :
    s.closeKeyb pid = s := by
  rw [Session.closeKeyb]
  cases hp : s.procs pid with
  | none => rfl
  | some p =>
    dsimp only
    rw [if_pos (not_not.mp fun hopen => hnone ⟨p, hp, hopen⟩)]

/-- Halting gives the terminal to nobody, and wakes the parent. -/
theorem halt_eq {parent : Pid} (hp : (s.procs pid).bind Attached.execParent = some parent) :
    s.halt pid = ⟨s.term.setOwner (-1),
      Function.update (Function.update s.procs pid none) parent
        ((s.procs parent).map Attached.wake)⟩ := by
  rw [Session.halt, hp]

/-- A process without a parent cannot halt. -/
theorem halt_noop (hp : (s.procs pid).bind Attached.execParent = none) : s.halt pid = s := by
  rw [Session.halt, hp]

/-- A process that waits is not the terminal's reader any more once the terminal is given up. -/
theorem not_registered {t : Term} {upid : BitVec 32} : ¬ (t.setOwner upid).Registered q buf len :=
  fun hreg => absurd hreg.waiting Bool.false_ne_true

/-- **Closing a handle** loses who waits, unless nobody else does.  The caller itself runs, so it
    is not one of those. -/
theorem Settled.closeKeyb_iff (h : Settled s) (hruns : s.Runs pid) :
    (s.closeKeyb pid).NoLostWakeup ↔ s.Considerate (.closeKeyb pid) := by
  by_cases hopen : ∃ p, s.procs pid = some p ∧ p.keybs ≠ 0
  · obtain ⟨p, hp, hk⟩ := hopen
    rw [closeKeyb_eq hp hk]
    constructor
    · intro hlost _ q b l hw
      by_cases hq : q = pid
      · exact Or.inl hq
      · exact absurd (hlost q b l ((waits_update hq).mpr hw)) not_registered
    · intro hcond q b l hw
      by_cases hq : q = pid
      · subst hq
        obtain ⟨p', hp', hreading⟩ := hw
        dsimp only at hp'
        rw [Function.update_self] at hp'
        rw [← Option.some.inj hp'] at hreading
        exact absurd ⟨p, hp, hreading⟩ (h.not_waits hruns)
      · rcases hcond ⟨p, hp, hk⟩ q b l ((waits_update hq).mp hw) with rfl | hq'
        · exact absurd rfl hq
        · exact absurd hq' (by simp)
  · rw [closeKeyb_noop hopen]
    exact ⟨fun _ hopen' => absurd hopen' hopen, fun _ => h.noLost⟩

/-- **Halting** loses who waits, unless it is the parent, which is woken. -/
theorem Settled.halt_iff (h : Settled s) :
    (s.halt pid).NoLostWakeup ↔ s.Considerate (.halt pid) := by
  cases hp : (s.procs pid).bind Attached.execParent with
  | none =>
    rw [halt_noop hp]
    refine ⟨fun _ parent hparent => ?_, fun _ => h.noLost⟩
    rw [hp] at hparent
    exact absurd hparent (by simp)
  | some parent =>
    rw [halt_eq hp]
    constructor
    · -- whoever else waits still does, and there is no reader registered any more
      intro hlost parent' hparent q b l hw
      obtain rfl := Option.some.inj (hp.symm.trans hparent)
      by_cases hq : q = pid
      · exact Or.inl hq
      by_cases hqp : q = parent
      · exact Or.inr (congrArg some hqp)
      · exact absurd (hlost q b l ((waits_update hqp).mpr ((waits_update hq).mpr hw)))
          not_registered
    · -- nobody else waits, so after the step nobody does
      intro hcond q b l hw
      by_cases hqp : q = parent
      · subst hqp
        obtain ⟨p, hp', hreading⟩ := hw
        dsimp only at hp'
        rw [Function.update_self] at hp'
        obtain ⟨p', -, rfl⟩ := Option.map_eq_some_iff.mp hp'
        exact absurd hreading (by simp [Attached.wake])
      · have hw := (waits_update hqp).mp hw
        by_cases hq : q = pid
        · subst hq
          obtain ⟨p, hp', -⟩ := hw
          dsimp only at hp'
          rw [Function.update_self] at hp'
          exact absurd hp' (by simp)
        · rcases hcond parent hp q b l ((waits_update hq).mp hw) with rfl | hq'
          · exact absurd rfl hq
          · exact absurd (Option.some.inj hq') hqp

/-- A considerate close keeps the invariant. -/
theorem Settled.closeKeyb (h : Settled s) (hruns : s.Runs pid)
    (hcond : s.Considerate (.closeKeyb pid)) :
    Settled (s.closeKeyb pid) := by
  have hlost := (h.closeKeyb_iff hruns).mpr hcond
  by_cases hopen : ∃ p, s.procs pid = some p ∧ p.keybs ≠ 0
  · obtain ⟨p, hp, hk⟩ := hopen
    rw [closeKeyb_eq hp hk] at hlost ⊢
    refine ⟨h.screen.setOwner _, hlost, state_update h.state ?_, ?_⟩
    · intro p' hp' hreading
      rw [← Option.some.inj hp'] at hreading ⊢
      exact h.state pid p hp hreading
    · exact noId_set h.noId fun hid => absurd hid (h.id_ne hp)
  · rw [closeKeyb_noop hopen]
    exact h

/-- A considerate halt keeps it. -/
theorem Settled.halt (h : Settled s) (hcond : s.Considerate (.halt pid)) :
    Settled (s.halt pid) := by
  have hlost := h.halt_iff.mpr hcond
  cases hp : (s.procs pid).bind Attached.execParent with
  | none =>
    rw [halt_noop hp]
    exact h
  | some parent =>
    rw [halt_eq hp] at hlost ⊢
    refine ⟨h.screen.setOwner _, hlost, state_update (state_update h.state ?_) ?_, ?_⟩
    · intro p' hp'
      exact absurd hp' (by simp)
    · intro p' hp' hreading
      obtain ⟨p, -, rfl⟩ := Option.map_eq_some_iff.mp hp'
      exact absurd rfl hreading
    · refine noId_set (noId_set h.noId fun _ => rfl) ?_
      rintro rfl
      rw [h.noId, Option.map_none]

/-! ### Runs -/

/-- **One step.** -/
theorem Settled.step (h : Settled s) {e : Step} (hpossible : s.Possible e)
    (hcond : s.Considerate e) :
    Settled (s.step e) := by
  cases e with
  | read pid buf nbytes => exact h.read hpossible.1 hpossible.2
  | write pid cbuf nbytes =>
    exact h.become (Draws.writeLoop cbuf _ 0).quiet (h.screen.writeLoop cbuf _ 0)
  | execute pid child => exact h.execute hpossible.1 hpossible.2.1 hpossible.2.2
  | halt pid => exact h.halt hcond
  | openKeyb pid => exact h.openKeyb pid
  | closeKeyb pid => exact h.closeKeyb hpossible hcond
  | key raw kkc capslock => exact h.key raw kkc capslock
  | dotask pid => exact h.resume pid

/-- The step keeps who waits registered exactly if it is considerate. -/
theorem Settled.step_iff (h : Settled s) {e : Step} (hpossible : s.Possible e) :
    (s.step e).NoLostWakeup ↔ s.Considerate e := by
  cases e with
  | closeKeyb pid => exact h.closeKeyb_iff hpossible
  | halt pid => exact h.halt_iff
  | _ => exact ⟨fun _ => trivial, fun hcond => (h.step hpossible hcond).noLost⟩

/-- A terminal and its processes, from the boot on. -/
def machine : Machine Session Step where
  init s := ∃ launcher, launcher ≠ -1 ∧ s = start launcher
  step s e s' := s' = s.step e

/-- **Every run** of considerate steps keeps the invariant. -/
theorem settled_of_reach {s : Session}
    (hr : Reach machine (fun s e => s.Possible e ∧ s.Considerate e) s) : Settled s := by
  refine hr.invariant (I := Settled) ?_ ?_
  · rintro s ⟨launcher, hid, rfl⟩
    exact start_settled hid
  · rintro s e s' h ⟨hpossible, hcond⟩ rfl
    exact h.step hpossible hcond

/-- The next Enter completes the read of `pid`: what was typed is in its buffer, and its thread runs
    and has the number of characters. -/
def CompletedByEnter (s : Session) (pid : Pid) (buf len : BitVec 32) : Prop :=
  ∀ raw capslock, ∃ es chars es', (s.term.key raw KKC_ENTER capslock).log =
      s.term.log ++ (es ++ [.copy buf chars, .unblock pid (BitVec.ofNat 32 chars.length)] ++ es') ∧
    chars.length ≤ len.toNat ∧ (s.key raw KKC_ENTER capslock).Runs pid ∧
    ∀ b l, ¬ (s.key raw KKC_ENTER capslock).Waits pid b l

/-- **Who waits is completed by the next Enter**: it is the reader, and the terminal has its
    buffer and its length. -/
theorem Settled.completedByEnter (h : Settled s) (hw : s.Waits pid buf len) :
    s.CompletedByEnter pid buf len := by
  intro raw capslock
  obtain ⟨hread, howner, hbuf, hlen⟩ := h.noLost pid buf len hw
  have hwoken : Woken s.term (s.term.key raw KKC_ENTER capslock) := by
    rw [key_enter]
    exact (enter_wakes hread (h.screen.waiting hread)).moveCursor
  obtain ⟨es, chars, es', hlog, hshort, -, -⟩ := hwoken.log
  rw [hbuf, howner] at hlog
  rw [hlen] at hshort
  refine ⟨es, chars, es', hlog, hshort, ?_, fun b l => ?_⟩
  · obtain ⟨p, hp, -⟩ := hw
    refine ⟨p.wake, ?_, rfl⟩
    rw [Session.key, become_woken hwoken, howner]
    show Function.update s.procs pid _ pid = _
    rw [Function.update_self, hp, Option.map_some]
  · rw [Session.key, become_woken hwoken, howner]
    exact not_waits_wake

/-- **When a wake-up is lost.**  In a run whose steps are all considerate, whoever waits is the
    registered reader and the next Enter completes its read; and a further step keeps that exactly
    if it is considerate. -/
theorem noLostWakeup_iff (s : Session)
    (hr : Reach machine (fun s e => s.Possible e ∧ s.Considerate e) s) :
    s.NoLostWakeup ∧ (∀ pid buf len, s.Waits pid buf len → s.CompletedByEnter pid buf len) ∧
    ∀ e, s.Possible e → ((s.step e).NoLostWakeup ↔ s.Considerate e) := by
  have h := settled_of_reach hr
  exact ⟨h.noLost, fun pid buf len hw => h.completedByEnter hw,
    fun e hpossible => h.step_iff hpossible⟩

/-- One more step of a run. -/
theorem reach_step {ok : Session → Step → Prop} (hr : Reach machine ok s) (e : Step)
    (hok : ok s e) :
    Reach machine ok (s.step e) := hr.step hok rfl

/-- The launcher reads, and waits. -/
theorem noLostWakeup_iff_launcher :
    ((start 2).step (.read 2 0x8000000 128)).CompletedByEnter 2 0x8000000 128 := by
  have h₀ : Reach machine (fun s e => s.Possible e ∧ s.Considerate e) (start 2) :=
    .init ⟨2, by decide, rfl⟩
  have h₁ := reach_step h₀ (.read 2 0x8000000 128) ⟨⟨⟨_, rfl, rfl⟩, by decide⟩, trivial⟩
  exact (noLostWakeup_iff _ h₁).2.1 2 _ _ ⟨_, rfl, rfl⟩

/-- The shell 9 has opened the keyboard and executed 10, which waits for a line.  Somebody's
    `dotask` makes the shell run again, and it closes its handle. -/
theorem wakeup_lost : ∃ s, Reach machine Possible s ∧ ¬ s.NoLostWakeup := by
  have h₀ : Reach machine Possible (start 2) := .init ⟨2, by decide, rfl⟩
  have h₁ := reach_step h₀ (.execute 2 9) ⟨⟨_, rfl, rfl⟩, rfl, by decide⟩
  have h₂ := reach_step h₁ (.openKeyb 9) ⟨_, rfl, rfl⟩
  have h₃ := reach_step h₂ (.execute 9 10) ⟨⟨_, rfl, rfl⟩, rfl, by decide⟩
  have h₄ := reach_step h₃ (.read 10 0x8000000 128) ⟨⟨_, rfl, rfl⟩, by decide⟩
  have h₅ := reach_step h₄ (.dotask 9) trivial
  have h₆ := reach_step h₅ (.closeKeyb 9) ⟨_, rfl, rfl⟩
  refine ⟨_, h₆, fun hlost => ?_⟩
  have hreg := hlost 10 0x8000000 128 ⟨_, rfl, rfl⟩
  exact absurd hreg.waiting Bool.false_ne_true

end Session

end TedkOS.Drivers
