/-
  `vidmap`: what a program that draws on its terminal has at `PRE_INIT_VIDEO`.

  All terminals share one page-table entry, `userFirst4MBTable[PRE_INIT_VIDEO >> 12]`.  It is
  rewritten when the terminal of the running thread is shown or hidden, and when a thread is
  switched to, each time only for the thread that owns the terminal's mapping (`tryMapVidmap`).
  `enableVidmap` makes the entry accessible and does not write it.

  1. **Program** — `VidSystem`: the text terminals and the threads; a step is a system call, a
     switch of terminals or of threads.

  2. **The entry** — what `tryMapVidmap` leaves there (`tryMapVidmap_maps`), and that the rest
     concerns the owner of another terminal (`Mapped`).

  3. **Runs** — the running owner has its own screen as long as `vidmap` is called only where the
     entry is right already, and no longer (`vidmapRight_iff`).

  The invariant is `Owned`: who owns the mapping of a terminal is a thread of that terminal, and
  when it runs the entry leads to its screen.  So a thread owns one mapping at most, and what is
  done to another terminal does not rewrite the entry of the one that runs (`Remaps.others`).  A
  `vidmap` that makes its caller an owner does not write the entry either, so it keeps the
  invariant exactly if the entry is right by chance.
-/
import TedkOS.Drivers.TextScreens

namespace TedkOS.Drivers

open Runs Palloc Syscalls

/-! ## The program -/

/-- What matters here of a thread. -/
structure VidThread where
  /-- `getProcessDesc()->currTerm` -/
  currTerm : Option (Fin numTextTerms)
  execParent : Option (BitVec 32)

/-- The text terminals, and the threads by the address of their `thread_pcb`. -/
structure VidSystem where
  clients : KbClients
  threads : BitVec 32 → Option VidThread

namespace VidSystem

/-- The running thread. -/
def current (s : VidSystem) : Option VidThread := s.threads s.clients.display.current

/-- `vidmap(ans)`; `valid` is whether `ans` passes `validUserPointer`. -/
def vidmap (valid : Bool) (s : VidSystem) : Option VidSystem :=
  -- return -EFOPS
  if !valid then some s
  else
    match s.current.bind VidThread.currTerm with
    -- a method of NULL
    | none => none
    | some i => ((s.clients.painters i).enableVidmap s.clients.display.current
      s.clients.display).map fun r =>
        { s with clients := s.clients.put i r.2 }

/-- `loadProcessMap` of the process of a thread, which then runs. -/
def schedule (pcb : BitVec 32) (s : VidSystem) : Option VidSystem :=
  (s.threads pcb).map fun t => { s with clients := s.clients.loadProcessMap pcb t.currTerm }

/-- `do_exec`: the child is on the terminal of its parent. -/
def execute (child : BitVec 32) (s : VidSystem) : Option VidSystem :=
  s.current.map fun t =>
    { s with threads :=
      Function.update s.threads child (some ⟨t.currTerm, some s.clients.display.current⟩) }

/-- `syshalt` of the running thread. -/
def halt (s : VidSystem) : VidSystem :=
  match s.current with
  | some ⟨currTerm, some _⟩ =>
    let clients := match currTerm with
      | none => s.clients
      | some i => s.clients.put i
          ((s.clients.painters i).tryDisableVidmap s.clients.display.current s.clients.display)
    ⟨clients, Function.update s.threads s.clients.display.current none⟩
  -- is init process, return -1
  | _ => s

/-- What happens to the system. -/
inductive Event where
  /-- A terminal asks something of its painter. -/
  | call (i : Fin numTextTerms) (e : Effect)
  | showClient (id : Fin numTextTerms)
  | vidmap (valid : Bool)
  | schedule (pcb : BitVec 32)
  | execute (child : BitVec 32)
  | halt

/-- One event, if nothing goes wrong in it. -/
def step : Event → VidSystem → Option VidSystem
  | .call i e, s => (s.clients.call i e).map fun clients => { s with clients := clients }
  | .showClient id, s => some { s with clients := s.clients.showClient id }
  | .vidmap valid, s => s.vidmap valid
  | .schedule pcb, s => s.schedule pcb
  | .execute child, s => s.execute child
  | .halt, s => some s.halt

/-- A new thread gets memory nobody has. -/
def Possible (s : VidSystem) : Event → Prop
  | .execute child => child ≠ 0 ∧ s.threads child = none
  | _ => True

end VidSystem

/-! ## The entry

  `tryMapVidmap` writes an entry that a program may use (`UserEntry`), with the address of the
  text memory or of the buffer; it does so for the owner of the mapping only.  `Remaps` is what
  `show` and `hide` have in common, with that owner in mind: either it is the thread that runs,
  and has its screen at the new place, or nothing that the running thread sees has changed. -/

/-- Flags below the address bits, and an address, as an entry of a page directory or table. -/
def entry (flags addr : BitVec 32) : BitVec 32 := flags ||| (addr &&& ALIGN_4KB_ADDR)

section Entry

variable {flags addr mask : BitVec 32}

/-- A mask over an entry is over its flags and over its address. -/
theorem entry_and :
    entry flags addr &&& mask = (flags &&& mask) ||| (addr &&& (ALIGN_4KB_ADDR &&& mask)) := by
  rw [entry, BitVec.and_or_distrib_right, BitVec.and_assoc]

/-- A mask of flags does not see the address, -/
theorem entry_flags (hmask : ALIGN_4KB_ADDR &&& mask = 0) :
    entry flags addr &&& mask = flags &&& mask := by
  rw [entry_and, hmask]
  show flags &&& mask ||| (addr &&& 0#32) = flags &&& mask
  rw [BitVec.and_zero, BitVec.or_zero]

/-- and the mask of addresses does not see the flags. -/
theorem entry_addr (hflags : flags &&& ALIGN_4KB_ADDR = 0) :
    entry flags addr &&& ALIGN_4KB_ADDR = addr &&& ALIGN_4KB_ADDR := by
  rw [entry_and, hflags, BitVec.and_self]
  exact BitVec.zero_or

end Entry

namespace Display

variable {d : Display}

/-- An entry through which a program may draw. -/
def UserEntry (e : BitVec 32) : Prop := HAS_FLAG (PG_4KB_BASE ||| PG_WRITABLE ||| PG_USER) e = true

/-- Loading the page table puts the address of the user's table into the first entry, with the
    flags of a table. -/
theorem loadPageTable_firstEntry :
    d.loadPageTable.firstEntry = entry (PT_BASE ||| PT_WRITABLE ||| PT_USER) d.userTable := by
  show PT_BASE ||| (d.userTable &&& ALIGN_4KB_ADDR) ||| (PT_WRITABLE ||| PT_USER) = _
  rw [entry, BitVec.or_assoc, BitVec.or_comm (d.userTable &&& ALIGN_4KB_ADDR), ← BitVec.or_assoc,
    ← BitVec.or_assoc]

/-- With the table loaded, the page is the one the entry names. -/
theorem userPage_loaded (addr : BitVec 32) : d.loadPageTable.userPage = some addr ↔
    UserEntry d.userEntry ∧ d.userEntry &&& ALIGN_4KB_ADDR = addr := by
  have hflags :
      HAS_FLAG (PT_BASE ||| PT_WRITABLE ||| PT_USER) d.loadPageTable.firstEntry = true := by
    rw [loadPageTable_firstEntry, HAS_FLAG, entry_flags (by decide)]
    decide
  have hsize : HAS_FLAG PG_SIZE d.loadPageTable.firstEntry = false := by
    rw [loadPageTable_firstEntry, HAS_FLAG, entry_flags (by decide)]
    decide
  have htable : d.loadPageTable.firstEntry &&& ALIGN_4KB_ADDR == d.loadPageTable.userTable &&&
      ALIGN_4KB_ADDR := by
    rw [loadPageTable_firstEntry, entry_addr (by decide)]
    exact beq_self_eq_true _
  rw [userPage, hflags, hsize, htable]
  show (if HAS_FLAG _ d.userEntry = true then some (d.userEntry &&& ALIGN_4KB_ADDR) else none) =
    some addr ↔ _
  by_cases huser : HAS_FLAG (PG_4KB_BASE ||| PG_WRITABLE ||| PG_USER) d.userEntry = true
  · rw [if_pos huser]
    exact ⟨fun h => ⟨huser, Option.some.inj h⟩, fun h => congrArg some h.2⟩
  · rw [if_neg huser]
    exact ⟨fun h => absurd h.symm (Option.some_ne_none addr), fun h => absurd h.1 huser⟩

end Display

namespace TextModePainter

variable {p : TextModePainter} {d : Display} {pcb : BitVec 32}

/-- Where the screen is: the real text memory if it is displayed, the painter's own buffer
    otherwise. -/
def target (p : TextModePainter) : BitVec 32 :=
  if p.isLoadedInVmem then PRE_INIT_VIDEO else p.bufferAddr

/-- The buffers of the painters begin at a page. -/
def Aligned (p : TextModePainter) : Prop := p.bufferAddr &&& ALIGN_4KB_ADDR = p.bufferAddr

/-- `vidmap`ped programs are remapped: the system is up. -/
structure Up (d : Display) : Prop where
  /-- The thread control block can be found from the stack, -/
  pcbLoadable : d.pcbLoadable = true
  /-- the constructors have run, -/
  canUseCpp : d.canUseCpp = true
  /-- and the terminals are in use. -/
  isFallbackTerm : d.isFallbackTerm = false

/-- The entry is the right one for the painter's screen. -/
def EntryFor (p : TextModePainter) (d : Display) : Prop :=
  Display.UserEntry d.userEntry ∧ d.userEntry &&& ALIGN_4KB_ADDR = p.target

/-- If the thread `pcb` has mapped the painter's screen, that is what it draws on. -/
def Mapped (p : TextModePainter) (d : Display) (pcb : BitVec 32) : Prop :=
  p.vidmapOwner = pcb → p.bIsVidmapEnabled = true → d.userPage = some p.target

/-- The text memory and the buffers begin at a page. -/
theorem target_aligned (h : p.Aligned) : p.target &&& ALIGN_4KB_ADDR = p.target := by
  rw [target]
  split
  · decide
  · exact h

/-- For somebody else nothing is done. -/
theorem tryMapVidmap_other (hne : pcb ≠ p.vidmapOwner) : p.tryMapVidmapNolock pcb d = d := by
  rw [tryMapVidmapNolock, if_pos hne]
  exact ite_self d

/-- **Remapping.**  The owner has its screen. -/
theorem tryMapVidmap_maps (hup : Up d) (h : p.Aligned) :
    p.Mapped (p.tryMapVidmapNolock pcb d) pcb := by
  intro howner henabled
  rw [tryMapVidmapNolock,
    if_neg (by rw [hup.pcbLoadable, hup.canUseCpp, hup.isFallbackTerm]; decide),
    if_neg (fun hne => hne howner.symm), if_pos henabled]
  refine (Display.userPage_loaded p.target).mpr ⟨?_, ?_⟩
  · show HAS_FLAG _ (entry (PG_4KB_BASE ||| PG_WRITABLE ||| PG_USER) p.target) = true
    rw [HAS_FLAG, entry_flags (by decide)]
    decide
  · show entry (PG_4KB_BASE ||| PG_WRITABLE ||| PG_USER) p.target &&& ALIGN_4KB_ADDR = p.target
    rw [entry_addr (by decide), target_aligned h]

/-- What a method does to the mapping: its own painter's owner, if it runs, has its screen, and for
    any other thread the page is as it was. -/
structure Remaps (p : TextModePainter) (d : Display) (r : TextModePainter × Display) : Prop where
  /-- The mapping has the same owner, -/
  owner : r.1.vidmapOwner = p.vidmapOwner
  /-- the buffer stays where it is, -/
  bufferAddr : r.1.bufferAddr = p.bufferAddr
  /-- and the same thread runs. -/
  current : r.2.current = d.current
  /-- The system stays up. -/
  up : Up d → Up r.2
  /-- If the thread that runs had its screen, it has it afterwards, wherever that is now. -/
  mapped : Up d → p.Aligned → p.Mapped d d.current → r.1.Mapped r.2 d.current
  /-- If the thread that runs does not own the mapping, its page is as it was. -/
  others : d.current ≠ p.vidmapOwner → r.2.userPage = d.userPage

/-- Nothing is done. -/
theorem Remaps.refl : Remaps p d (p, d) where
  owner := rfl
  bufferAddr := rfl
  current := rfl
  up h := h
  mapped _ _ h := h
  others _ := rfl

/-- Drawing moves no screen, so it remaps nothing. -/
theorem Frame.remaps {r : TextModePainter × Display} (h : Frame p d r) : Remaps p d r := by
  obtain ⟨m, location, hd, -⟩ := h.display
  have htarget : r.1.target = p.target := by rw [target, target, h.loaded, h.bufferAddr]
  constructor
  case owner => exact h.owner
  case bufferAddr => exact h.bufferAddr
  case current => rw [hd]
  case up =>
    intro hup
    rw [hd]
    exact ⟨hup.pcbLoadable, hup.canUseCpp, hup.isFallbackTerm⟩
  case mapped =>
    intro _ _ hmapped howner henabled
    rw [hd, htarget]
    exact hmapped (h.owner ▸ howner) (h.enabled ▸ henabled)
  case others =>
    intro _
    rw [hd]
    rfl

/-- Remapping changes two entries only. -/
theorem tryMapVidmap_up (hup : Up d) : Up (p.tryMapVidmapNolock pcb d) := by
  obtain ⟨userEntry, firstEntry, hd⟩ := tryMapVidmap_frame (p := p) (d := d) pcb
  rw [hd]
  exact ⟨hup.pcbLoadable, hup.canUseCpp, hup.isFallbackTerm⟩

/-- The last step of `show` and `hide`, after the screen has been moved. -/
theorem remaps_of_tryMapVidmap {p' : TextModePainter} {d' : Display}
    (howner : p'.vidmapOwner = p.vidmapOwner) (hbuffer : p'.bufferAddr = p.bufferAddr)
    (hcurrent : d'.current = d.current) (hup : Up d → Up d') (hpage : d'.userPage = d.userPage) :
    Remaps p d (p', p'.tryMapVidmapNolock d.current d') := by
  obtain ⟨userEntry, firstEntry, hd⟩ := tryMapVidmap_frame (p := p') (d := d') d.current
  constructor
  case owner => exact howner
  case bufferAddr => exact hbuffer
  case current =>
    rw [hd]
    exact hcurrent
  case up => exact fun h => tryMapVidmap_up (hup h)
  case mapped =>
    intro h haligned _
    refine tryMapVidmap_maps (hup h) ?_
    rw [Aligned, hbuffer]
    exact haligned
  case others =>
    intro hne
    rw [tryMapVidmap_other (by rw [howner]; exact hne)]
    exact hpage

/-- Showing a screen ends with `tryMapVidmap`, after the screen has moved to the text memory. -/
theorem show_remaps : Remaps p d (p.show d) := by
  rw [«show»]
  split
  · exact Remaps.refl
  · split
    · exact Remaps.refl
    · dsimp only
      generalize Cells.movsd (SCREEN_HEIGHT * SCREEN_WIDTH * 2 / 4) p.backupBuffer d.vmem = m
      obtain ⟨location, hd⟩ := Display.helpSetCursor_eq { d with vmem := m } p.cursorX p.cursorY
      rw [hd]
      exact remaps_of_tryMapVidmap rfl rfl rfl
        (fun h => ⟨h.pcbLoadable, h.canUseCpp, h.isFallbackTerm⟩) rfl

/-- Hiding it ends so too, after the screen has moved to the buffer. -/
theorem hide_remaps : Remaps p d (p.hide d) := by
  rw [hide]
  split
  · exact Remaps.refl
  · split
    · exact Remaps.refl
    · exact remaps_of_tryMapVidmap rfl rfl rfl id rfl

end TextModePainter

/-! ## Runs

  `Owned` through each event.  A switch of terminals hides one painter and shows another, so it
  is two of the calls above; a switch of threads maps the screen of the thread that comes, if
  that owns one.  The call that may break the invariant is `vidmap` itself, and `Considerate` is
  the condition under which it does not. -/

namespace VidSystem

open TextModePainter

variable {s s' : VidSystem} {i : Fin numTextTerms} {r : TextModePainter × Display}

/-- The owner of a painter is a thread of that terminal, and if it runs it has its screen. -/
structure Owned (s : VidSystem) : Prop where
  /-- The system is up. -/
  up : Up s.clients.display
  /-- The buffers begin at a page. -/
  aligned : ∀ i, (s.clients.painters i).Aligned
  /-- No thread is at the null pointer, which stands for "no owner". -/
  null : s.threads 0 = none
  /-- Who owns the mapping of a terminal is a thread of that terminal, -/
  owner : ∀ i, (s.clients.painters i).vidmapOwner ≠ 0 →
    ∃ t, s.threads (s.clients.painters i).vidmapOwner = some t ∧ t.currTerm = some i
  /-- and has its screen at `PRE_INIT_VIDEO` when it runs. -/
  mapped : ∀ i, (s.clients.painters i).vidmapOwner ≠ 0 →
    (s.clients.painters i).Mapped s.clients.display s.clients.display.current

/-- Whenever the running thread has mapped the screen of its terminal, that is what it draws on. -/
def VidmapRight (s : VidSystem) : Prop := ∀ t i, s.current = some t → t.currTerm = some i →
  (s.clients.painters i).Mapped s.clients.display s.clients.display.current

/-- The invariant says so of every owner, so of the running one. -/
theorem Owned.right (h : Owned s) : s.VidmapRight := by
  intro t i ht _ howner henabled
  refine h.mapped i (fun hnull => ?_) howner henabled
  have hcurrent : s.current = none := by
    rw [current, ← howner, hnull]
    exact h.null
  exact Option.some_ne_none t (ht.symm.trans hcurrent)

/-- A thread owns one painter at most. -/
theorem Owned.unique (h : Owned s) {j : Fin numTextTerms}
    (hi : (s.clients.painters i).vidmapOwner ≠ 0)
    (hj : (s.clients.painters j).vidmapOwner = (s.clients.painters i).vidmapOwner) : j = i := by
  obtain ⟨t, ht, hterm⟩ := h.owner i hi
  obtain ⟨t', ht', hterm'⟩ := h.owner j (by rw [hj]; exact hi)
  rw [hj, ht] at ht'
  cases ht'
  exact Option.some.inj (hterm'.symm.trans hterm)

/-- A method of a painter runs. -/
theorem Owned.put (h : Owned s) (hr : Remaps (s.clients.painters i) s.clients.display r) :
    Owned { s with clients := s.clients.put i r } := by
  have howner :
      ∀ j, ((s.clients.put i r).painters j).vidmapOwner = (s.clients.painters j).vidmapOwner := by
    intro j
    by_cases hj : j = i
    · rw [hj, KbClients.put_self, hr.owner]
    · rw [KbClients.put_of_ne hj]
  constructor
  case up => exact hr.up h.up
  case aligned =>
    intro j
    show ((s.clients.put i r).painters j).Aligned
    by_cases hj : j = i
    · rw [hj, KbClients.put_self, Aligned, hr.bufferAddr]
      exact h.aligned i
    · rw [KbClients.put_of_ne hj]
      exact h.aligned j
  case null => exact h.null
  case owner =>
    intro j hj
    rw [howner] at hj ⊢
    exact h.owner j hj
  case mapped =>
    intro j hj
    rw [howner] at hj
    show ((s.clients.put i r).painters j).Mapped r.2 r.2.current
    rw [hr.current]
    by_cases hji : j = i
    · rw [hji, KbClients.put_self]
      exact hr.mapped h.up (h.aligned i) (h.mapped i (hji ▸ hj))
    · rw [KbClients.put_of_ne hji]
      intro hcurr henabled
      -- the running thread owns `j`, so not `i`
      rw [hr.others fun hown => hji (h.unique (hcurr.trans hown ▸ hj) (hcurr.trans hown))]
      exact h.mapped j hj hcurr henabled

/-- A terminal draws. -/
theorem Owned.call (h : Owned s) {e : Effect} {clients : KbClients}
    (hcall : s.clients.call i e = some clients) :
    Owned { s with clients := clients } := by
  obtain ⟨r, hr, rfl⟩ := Option.map_eq_some_iff.mp hcall
  exact h.put (perform_frame hr).remaps

/-- A switch of terminals: one painter is hidden and another shown, and each remaps its own owner
    only. -/
theorem Owned.showClient (h : Owned s) (id : Fin numTextTerms) :
    Owned { s with clients := s.clients.showClient id } := by
  rw [KbClients.showClient]
  split
  · exact h
  · have hmoved := (h.put (i := s.clients.currClient) hide_remaps).put (i := id) show_remaps
    exact ⟨hmoved.up, hmoved.aligned, hmoved.null, hmoved.owner, hmoved.mapped⟩

/-- A switch of threads: the entry is rewritten for the terminal of the new thread, if that owns
    the mapping. -/
theorem Owned.schedule (h : Owned s) {pcb : BitVec 32} (hs : s.schedule pcb = some s') :
    Owned s' := by
  obtain ⟨t, ht, rfl⟩ := Option.map_eq_some_iff.mp hs
  obtain ⟨userEntry, firstEntry, hd⟩ :=
    KbClients.loadProcessMap_screen (s := s.clients) pcb t.currTerm
  constructor
  case up =>
    show Up (s.clients.loadProcessMap pcb t.currTerm).display
    rw [hd]
    exact ⟨h.up.pcbLoadable, h.up.canUseCpp, h.up.isFallbackTerm⟩
  case aligned => exact h.aligned
  case null => exact h.null
  case owner => exact h.owner
  case mapped =>
    intro i hi howner henabled
    -- the new thread owns `i`, so `i` is its terminal
    have hpcb : (s.clients.painters i).vidmapOwner = pcb := howner
    obtain ⟨t', ht', hterm⟩ := h.owner i hi
    rw [hpcb, ht] at ht'
    cases ht'
    have hmaps := tryMapVidmap_maps (p := s.clients.painters i)
      (d := { s.clients.display with firstEntry := 0 })
      ⟨h.up.pcbLoadable, h.up.canUseCpp, h.up.isFallbackTerm⟩ (h.aligned i) hpcb henabled
    show (s.clients.loadProcessMap pcb t.currTerm).display.userPage = _
    rw [hterm]
    exact hmaps

/-- A new thread owns nothing, and its address was nobody's. -/
theorem Owned.execute (h : Owned s) {child : BitVec 32} (hfree : child ≠ 0 ∧ s.threads child = none)
    (hs : s.execute child = some s') : Owned s' := by
  obtain ⟨t, ht, rfl⟩ := Option.map_eq_some_iff.mp hs
  constructor
  case up => exact h.up
  case aligned => exact h.aligned
  case null =>
    show Function.update s.threads child _ 0 = none
    rw [Function.update_of_ne hfree.1.symm]
    exact h.null
  case owner =>
    intro i hi
    obtain ⟨t', ht', hterm⟩ := h.owner i hi
    refine ⟨t', ?_, hterm⟩
    show Function.update s.threads child _ _ = some t'
    refine (Function.update_of_ne (fun hchild => ?_) _ _).trans ht'
    have hchild : (s.clients.painters i).vidmapOwner = child := hchild
    rw [hchild, hfree.2] at ht'
    exact Option.some_ne_none t' ht'.symm
  case mapped => exact h.mapped

/-- The running thread is gone, and owns nothing. -/
theorem Owned.retire (h : Owned s) {clients : KbClients} (hup : Up clients.display)
    (haligned : ∀ i, (clients.painters i).Aligned)
    (hcurrent : clients.display.current = s.clients.display.current)
    (howner : ∀ i, (clients.painters i).vidmapOwner ≠ 0 →
      (clients.painters i).vidmapOwner = (s.clients.painters i).vidmapOwner ∧
        (s.clients.painters i).vidmapOwner ≠ s.clients.display.current) :
    Owned ⟨clients, Function.update s.threads s.clients.display.current none⟩ := by
  constructor
  case up => exact hup
  case aligned => exact haligned
  case null =>
    show Function.update s.threads s.clients.display.current none 0 = none
    by_cases hzero : (0 : BitVec 32) = s.clients.display.current
    · rw [← hzero]
      exact Function.update_self _ _ _
    · exact (Function.update_of_ne hzero _ _).trans h.null
  case owner =>
    intro i hi
    obtain ⟨hsame, hne⟩ := howner i hi
    have hi' : (clients.painters i).vidmapOwner ≠ 0 := hi
    rw [hsame] at hi'
    obtain ⟨t, ht, hterm⟩ := h.owner i hi'
    refine ⟨t, ?_, hterm⟩
    show Function.update s.threads _ none (clients.painters i).vidmapOwner = some t
    rw [hsame, Function.update_of_ne hne]
    exact ht
  case mapped =>
    intro i hi hrunning
    obtain ⟨hsame, hne⟩ := howner i hi
    exact absurd (hsame.symm.trans (hrunning.trans hcurrent)) hne

/-- Who does not own the mapping gives nothing back; -/
theorem tryDisableVidmap_other {p : TextModePainter} {d : Display} {pcb : BitVec 32}
    (hne : p.vidmapOwner ≠ pcb) :
    p.tryDisableVidmap pcb d = (p, d) := if_pos hne

/-- the owner gives it back, and the table is unloaded. -/
theorem tryDisableVidmap_owner {p : TextModePainter} {d : Display} {pcb : BitVec 32}
    (howner : p.vidmapOwner = pcb) :
    p.tryDisableVidmap pcb d =
      ({ p with vidmapOwner := 0, bIsVidmapEnabled := false }, { d with firstEntry := 0 }) :=
  if_neg fun hne => hne howner

/-- The running thread owns a painter of its own terminal at most. -/
theorem Owned.owner_ne (h : Owned s) {t : VidThread} (ht : s.current = some t)
    (hi : (s.clients.painters i).vidmapOwner ≠ 0) (hterm : t.currTerm ≠ some i) :
    (s.clients.painters i).vidmapOwner ≠ s.clients.display.current := by
  intro hown
  obtain ⟨t', ht', hterm'⟩ := h.owner i hi
  rw [hown] at ht'
  have ht' : s.current = some t' := ht'
  rw [ht] at ht'
  cases ht'
  exact hterm hterm'

/-- A thread that has halted owns nothing. -/
theorem Owned.halt (h : Owned s) : Owned s.halt := by
  rw [VidSystem.halt]
  split
  · next currTerm parent ht =>
    cases currTerm with
    | none => exact h.retire h.up h.aligned rfl fun i hi =>
      ⟨rfl, h.owner_ne ht hi (Option.some_ne_none i).symm⟩
    | some i =>
      dsimp only
      -- either this thread owns the mapping of its terminal and gives it back, or it owns none
      by_cases hown : (s.clients.painters i).vidmapOwner = s.clients.display.current
      · rw [tryDisableVidmap_owner hown]
        refine h.retire ?_ ?_ rfl ?_
        · exact ⟨h.up.pcbLoadable, h.up.canUseCpp, h.up.isFallbackTerm⟩
        · intro j
          by_cases hj : j = i
          · rw [hj, KbClients.put_self]
            exact h.aligned i
          · rw [KbClients.put_of_ne hj]
            exact h.aligned j
        · intro j hj
          by_cases hji : j = i
          · rw [hji, KbClients.put_self] at hj
            exact absurd rfl hj
          · rw [KbClients.put_of_ne hji] at hj ⊢
            exact ⟨rfl, h.owner_ne ht hj fun hterm => hji (Option.some.inj hterm).symm⟩
      · rw [tryDisableVidmap_other hown, KbClients.put, Function.update_eq_self]
        refine h.retire h.up h.aligned rfl fun j hj => ⟨rfl, ?_⟩
        by_cases hji : j = i
        · rw [hji]
          exact hown
        · exact h.owner_ne ht hj fun hterm => hji (Option.some.inj hterm).symm
  · exact h

/-- What `vidmap` does: nothing, or the running thread becomes the owner of its terminal's clear
    screen, through the entry as it is. -/
theorem vidmap_cases {valid : Bool} (hs : s.vidmap valid = some s') :
    s' = s ∧ (valid = true → ∀ t i, s.current = some t → t.currTerm = some i →
      (s.clients.painters i).vidmapOwner ≠ 0) ∨
    valid = true ∧ ∃ t i, s.current = some t ∧ t.currTerm = some i ∧
      (s.clients.painters i).vidmapOwner = 0 ∧
      ∃ q, Frame { s.clients.painters i with vidmapOwner := s.clients.display.current }
          s.clients.display q ∧
        s' = { s with
          clients :=
            s.clients.put i ({ q.1 with bIsVidmapEnabled := true }, q.2.loadPageTable) } := by
  rw [vidmap] at hs
  cases valid with
  | false =>
    cases hs
    exact .inl ⟨rfl, fun hvalid => absurd hvalid Bool.false_ne_true⟩
  | true =>
    rw [if_neg (by decide)] at hs
    cases ht : s.current with
    | none =>
      rw [ht] at hs
      exact absurd hs.symm (Option.some_ne_none s')
    | some t =>
      rw [ht, Option.bind_some] at hs
      cases hterm : t.currTerm with
      | none =>
        rw [hterm] at hs
        exact absurd hs.symm (Option.some_ne_none s')
      | some i =>
        rw [hterm] at hs
        obtain ⟨r, hr, rfl⟩ := Option.map_eq_some_iff.mp hs
        -- the mapping has an owner, and stays as it is; or it is for the caller
        rw [enableVidmap] at hr
        split at hr
        · next howner =>
          cases hr
          rw [KbClients.put, Function.update_eq_self]
          refine .inl ⟨rfl, fun _ t' i' ht' hterm' => ?_⟩
          cases ht'
          cases hterm.symm.trans hterm'
          exact howner
        · next howner =>
          obtain ⟨q, hq, rfl⟩ := Option.map_eq_some_iff.mp hr
          exact .inr ⟨rfl, t, i, rfl, hterm, not_not.mp howner, q, clearScreen_frame hq, rfl⟩

/-- A thread of a terminal nobody has mapped gets the mapping. -/
theorem vidmap_some (hpage : s.clients.display.virtOfPage0 = true) {t : VidThread}
    (ht : s.current = some t) (hterm : t.currTerm = some i)
    (howner : (s.clients.painters i).vidmapOwner = 0) :
    ∃ q, Frame { s.clients.painters i with vidmapOwner := s.clients.display.current }
      s.clients.display q ∧ s.vidmap true =
        some ⟨s.clients.put i ({ q.1 with bIsVidmapEnabled := true }, q.2.loadPageTable),
          s.threads⟩ := by
  have hclear := clearScreen_screen
    (p := { s.clients.painters i with vidmapOwner := s.clients.display.current }) hpage
  obtain ⟨v, hv⟩ := Screen.perform_some (e := .clearScreen)
    (({ s.clients.painters i with vidmapOwner := s.clients.display.current } :
      TextModePainter).screen
      s.clients.display) trivial
  rw [hv] at hclear
  obtain ⟨q, hq, -⟩ := Option.map_eq_some_iff.mp hclear
  refine ⟨q, clearScreen_frame hq, ?_⟩
  rw [vidmap, if_neg (by decide), ht, Option.bind_some, hterm]
  show (enableVidmap _ _ _).map _ = _
  rw [enableVidmap, if_neg (fun hne => hne howner)]
  dsimp only
  rw [hq]
  rfl

/-- The caller of a `vidmap` that gets the mapping finds the entry right for its terminal. -/
def Considerate (s : VidSystem) : Event → Prop
  | .vidmap valid => valid = true → ∀ t i, s.current = some t → t.currTerm = some i →
      (s.clients.painters i).vidmapOwner = 0 → (s.clients.painters i).EntryFor s.clients.display
  | _ => True

/-- The new owner has its screen exactly if the entry was right for it. -/
theorem mapped_iff {p : TextModePainter} {d : Display} {pcb : BitVec 32}
    {q : TextModePainter × Display} (hq : Frame { p with vidmapOwner := pcb } d q) :
    ({ q.1 with bIsVidmapEnabled := true } : TextModePainter).Mapped q.2.loadPageTable pcb ↔
    p.EntryFor d := by
  obtain ⟨m, location, hd, -⟩ := hq.display
  have htarget : ({ q.1 with bIsVidmapEnabled := true } : TextModePainter).target = p.target := by
    show (if q.1.isLoadedInVmem then PRE_INIT_VIDEO else q.1.bufferAddr) = _
    rw [hq.loaded, hq.bufferAddr]
    rfl
  have hentry : q.2.userEntry = d.userEntry := by rw [hd]
  rw [Mapped, htarget, Display.userPage_loaded, hentry]
  exact ⟨fun h => h hq.owner rfl, fun h _ _ => h⟩

/-- `vidmap` where the entry is right. -/
theorem Owned.enable (h : Owned s) {t : VidThread} (ht : s.current = some t)
    (hterm : t.currTerm = some i) {q : TextModePainter × Display}
    (hq : Frame { s.clients.painters i with vidmapOwner := s.clients.display.current }
      s.clients.display q)
    (hentry : (s.clients.painters i).EntryFor s.clients.display) :
    Owned { s with clients :=
      s.clients.put i ({ q.1 with bIsVidmapEnabled := true }, q.2.loadPageTable) } := by
  obtain ⟨m, location, hd, -⟩ := hq.display
  have hcurrent : q.2.loadPageTable.current = s.clients.display.current := by
    rw [hd]
    rfl
  constructor
  case up =>
    show Up q.2.loadPageTable
    rw [hd]
    exact ⟨h.up.pcbLoadable, h.up.canUseCpp, h.up.isFallbackTerm⟩
  case aligned =>
    intro j
    show ((s.clients.put i _).painters j).Aligned
    by_cases hj : j = i
    · rw [hj, KbClients.put_self]
      show q.1.bufferAddr &&& ALIGN_4KB_ADDR = q.1.bufferAddr
      rw [hq.bufferAddr]
      exact h.aligned i
    · rw [KbClients.put_of_ne hj]
      exact h.aligned j
  case null => exact h.null
  case owner =>
    intro j
    show ((s.clients.put i _).painters j).vidmapOwner ≠ 0 →
      ∃ t, s.threads ((s.clients.put i _).painters j).vidmapOwner = some t ∧ t.currTerm = some j
    by_cases hj : j = i
    · rw [hj, KbClients.put_self]
      intro _
      refine ⟨t, ?_, hterm⟩
      show s.threads q.1.vidmapOwner = some t
      rw [hq.owner]
      exact ht
    · rw [KbClients.put_of_ne hj]
      exact h.owner j
  case mapped =>
    intro j
    show ((s.clients.put i _).painters j).vidmapOwner ≠ 0 →
      ((s.clients.put i _).painters j).Mapped q.2.loadPageTable q.2.loadPageTable.current
    rw [hcurrent]
    by_cases hj : j = i
    · rw [hj, KbClients.put_self]
      intro _
      exact (mapped_iff hq).mpr hentry
    · rw [KbClients.put_of_ne hj]
      -- `j` is another thread's: the running one is on terminal `i`
      intro hown hrunning
      exact absurd hrunning
        (h.owner_ne ht hown fun hj' => hj (Option.some.inj (hterm.symm.trans hj')).symm)

/-- A considerate event keeps the invariant. -/
theorem Owned.step (h : Owned s) {e : Event} (hok : s.Possible e) (hcond : s.Considerate e)
    (hs : s.step e = some s') : Owned s' := by
  cases e with
  | call i e =>
    obtain ⟨clients, hcall, rfl⟩ := Option.map_eq_some_iff.mp hs
    exact h.call hcall
  | showClient id =>
    cases hs
    exact h.showClient id
  | vidmap valid =>
    rcases vidmap_cases hs with ⟨rfl, -⟩ | ⟨hvalid, t, i, ht, hterm, howner, q, hq, rfl⟩
    · exact h
    · exact h.enable ht hterm hq (hcond hvalid t i ht hterm howner)
  | schedule pcb => exact h.schedule hs
  | execute child => exact h.execute hok hs
  | halt =>
    cases hs
    exact h.halt

/-- An event keeps the running owner on its own screen exactly if it is considerate. -/
theorem Owned.right_iff (h : Owned s) {e : Event} (hok : s.Possible e) (hs : s.step e = some s') :
    s'.VidmapRight ↔ s.Considerate e := by
  refine ⟨fun hright => ?_, fun hcond => (h.step hok hcond hs).right⟩
  cases e with
  | vidmap valid =>
    rcases vidmap_cases hs with ⟨-, hkept⟩ | ⟨-, t, i, ht, hterm, -, q, hq, rfl⟩
    · exact fun hvalid t i ht hterm howner => absurd howner (hkept hvalid t i ht hterm)
    · rintro - t' i' ht' hterm' -
      cases ht.symm.trans ht'
      cases hterm.symm.trans hterm'
      obtain ⟨m, location, hd, -⟩ := hq.display
      have hcurrent : q.2.loadPageTable.current = s.clients.display.current := by
        rw [hd]
        rfl
      refine (mapped_iff hq).mp ?_
      have hthread : s.threads q.2.loadPageTable.current = some t := by
        rw [hcurrent]
        exact ht
      have hmapped := hright t i hthread hterm
      have hmapped : ((s.clients.put i _).painters i).Mapped q.2.loadPageTable
          q.2.loadPageTable.current := hmapped
      rw [KbClients.put_self, hcurrent] at hmapped
      exact hmapped
  | _ => trivial

/-- `init_main` has started the system: a terminal is displayed, nothing is mapped, and the entry is
    what `kernel.cpp` has put there. -/
structure Booted (s : VidSystem) : Prop where
  shown : s.clients.Shown
  displayed : (s.clients.painters s.clients.currClient).isLoadedInVmem = true
  up : Up s.clients.display
  aligned : ∀ i, (s.clients.painters i).Aligned
  null : s.threads 0 = none
  owner : ∀ i, (s.clients.painters i).vidmapOwner = 0
  enabled : ∀ i, (s.clients.painters i).bIsVidmapEnabled = false
  entry : s.clients.display.userEntry = PG_4KB_BASE ||| PRE_INIT_VIDEO ||| PG_WRITABLE ||| PG_USER

/-- The runs from there on. -/
def vidMachine : Machine VidSystem Event where
  init := Booted
  step s e s' := s.step e = some s'

/-- The invariant of every run whose `vidmap` calls are considerate. -/
theorem owned_of_reach (hr : Reach vidMachine (fun s e => s.Possible e ∧ s.Considerate e) s) :
    Owned s := by
  refine hr.invariant (I := Owned) (fun s h => ?_) fun s e s' h hok hs => h.step hok.1 hok.2 hs
  exact ⟨h.up, h.aligned, h.null, fun i hi => absurd (h.owner i) hi,
    fun i hi => absurd (h.owner i) hi⟩

/-- **When a program draws on its own screen.**  In a run whose `vidmap` calls all find the entry
    right for the caller's terminal, the running owner has its own screen; and a further step keeps
    that exactly if it is not a `vidmap` that finds the entry wrong. -/
theorem vidmapRight_iff (hr : Reach vidMachine (fun s e => s.Possible e ∧ s.Considerate e) s) :
    s.VidmapRight ∧ ∀ e s', s.Possible e → s.step e = some s' →
    (s'.VidmapRight ↔ s.Considerate e) := by
  have h := owned_of_reach hr
  exact ⟨h.right, fun e s' hok hs => h.right_iff hok hs⟩

/-- The first terminal is displayed, and a thread on terminal `i` runs. -/
def running (i : Fin numTextTerms) : VidSystem where
  clients :=
    { display := ⟨true, fun _ => 0, 0, 0x500000, 0xB8007, 0, 0x600000, true, true, false⟩
      painters := fun j =>
        ⟨fun _ => 0, 0x400000 + 0x1000 * BitVec.ofNat 32 j, 0, 0, j = getFirstTextTerm, false, 0⟩
      currClient := getFirstTextTerm }
  threads := Function.update (fun _ => none) 0x600000 (some ⟨some i, none⟩)

/-- Nothing is mapped there, and the entry names the text memory. -/
theorem running_booted : (running i).Booted where
  shown := {
    page0 := rfl
    only := fun j hj => of_decide_eq_true hj
    inRange := fun j => ⟨show 0 < SCREEN_WIDTH by decide, show 0 < SCREEN_HEIGHT by decide⟩
    cursor := fun j _ => rfl }
  displayed := rfl
  up := ⟨rfl, rfl, rfl⟩
  aligned j := by
    have hall : ∀ j : Fin numTextTerms, (0x400000 + 0x1000 * BitVec.ofNat 32 j) &&& ALIGN_4KB_ADDR =
        0x400000 + 0x1000 * BitVec.ofNat 32 j := by decide
    exact hall j
  null := rfl
  owner _ := rfl
  enabled _ := rfl
  entry := show (0xB8007 : BitVec 32) = PG_4KB_BASE ||| PRE_INIT_VIDEO ||| PG_WRITABLE |||
    PG_USER by decide

/-- On the displayed terminal the first `vidmap` is right. -/
theorem vidmapRight_iff_displayed :
    ∃ s', (running getFirstTextTerm).step (.vidmap true) = some s' ∧ s'.VidmapRight := by
  obtain ⟨q, -, hs⟩ :=
    vidmap_some (s := running getFirstTextTerm) (i := getFirstTextTerm) rfl rfl rfl rfl
  refine ⟨_, hs, ?_⟩
  have h₀ : Reach vidMachine (fun s e => s.Possible e ∧ s.Considerate e)
      (running getFirstTextTerm) :=
    .init running_booted
  refine ((vidmapRight_iff h₀).2 (.vidmap true) _ trivial hs).mpr fun _ t i ht hterm _ => ?_
  cases ht
  cases hterm
  exact ⟨show HAS_FLAG _ 0xB8007 = true by decide,
    show (0xB8007 : BitVec 32) &&& ALIGN_4KB_ADDR = PRE_INIT_VIDEO by decide⟩

/-- On a hidden terminal the first `vidmap` gives the visible screen. -/
theorem hidden_draws_on_visible : ∃ s, Reach vidMachine Possible s ∧ ¬ s.VidmapRight := by
  have h₀ : Reach vidMachine Possible (running ⟨1, by decide⟩) := .init running_booted
  have howned : Owned (running ⟨1, by decide⟩) := owned_of_reach (.init running_booted)
  obtain ⟨q, -, hs⟩ :=
    vidmap_some (s := running ⟨1, by decide⟩) (i := ⟨1, by decide⟩) rfl rfl rfl rfl
  refine ⟨_, h₀.step (a := .vidmap true) trivial hs, fun hright => ?_⟩
  have hentry :=
    (howned.right_iff (e := .vidmap true) trivial hs).mp hright rfl _ ⟨1, by decide⟩ rfl rfl rfl
  have hwrong : (0xB8007 : BitVec 32) &&& ALIGN_4KB_ADDR = 0x401000 := hentry.2
  revert hwrong
  decide

end VidSystem

end TedkOS.Drivers
