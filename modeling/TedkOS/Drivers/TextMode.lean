/-
  `TextModePainter` (drivers/txtmode.cpp): the screens of the text terminals, and what they share.

  A painter has a buffer of the size of the screen, and a flag that says whether its screen is in
  the text memory or in that buffer.  `Display` is what all painters write to: the text memory, the
  hardware cursor, and the page-table entry through which a program that called `vidmap` draws.

  A store outside the 4000 bytes of a screen hits other memory, and one through the NULL that
  `videoMem` returns without a mapping of page 0 faults: a method that makes one has no result.
-/
import TedkOS.Palloc.MemMap
import TedkOS.Drivers.Terminal

namespace TedkOS.Drivers

open Palloc Syscalls

def TEXT_STYLE : BitVec 8 := 0x7
def PRE_INIT_VIDEO : BitVec 32 := 0xB8000
def PT_WRITABLE : BitVec 32 := 0x002

/-- The size of a screen: `SCREEN_WIDTH * SCREEN_HEIGHT * 2`. -/
def SCREEN_BYTES : Nat := 4000

/-- The bytes of a screen, character and style in turn. -/
abbrev Cells := Fin SCREEN_BYTES → BitVec 8

namespace Cells

def load (o : Nat) (m : Cells) : BitVec 8 := if h : o < SCREEN_BYTES then m ⟨o, h⟩ else 0

def store (o : Nat) (c : BitVec 8) (m : Cells) : Cells := fun i => if i.val = o then c else m i

/-- One step of `movsd`: the dword at `s` of `src` goes to `d` of `m`. -/
def copyDword (src : Cells) (s d : Nat) (m : Cells) : Cells :=
  fun i => if d ≤ i.val ∧ i.val < d + 4 then src.load (s + (i.val - d)) else m i

/-- `rep movsd` of `count` dwords from screen `src` to screen `m`. -/
def movsd (count : Nat) (src m : Cells) : Cells :=
  (List.range count).foldl (fun m k => copyDword src (4 * k) (4 * k) m) m

/-- `rep movsd` of `count` dwords inside one screen, from `s` to `d`. -/
def movsdWithin (count s d : Nat) (m : Cells) : Cells :=
  (List.range count).foldl (fun m k => copyDword m (s + 4 * k) (d + 4 * k) m) m

/-- `rep stosw` of `count` words `' ' + (TEXT_STYLE << 8)` from `off`. -/
def stosw (off count : Nat) (m : Cells) : Option Cells :=
  if off + 2 * count ≤ SCREEN_BYTES then
    some ((List.range count).foldl
      (fun m k => (m.store (off + 2 * k) 0x20).store (off + 2 * k + 1) TEXT_STYLE) m)
  else none

/-- The two stores of `showChar`. -/
def showChar (x y : Nat) (c : BitVec 8) (m : Cells) : Option Cells :=
  let off := uint32_t (uint32_t (SCREEN_WIDTH * y + x) * 2)
  if off + 1 < SCREEN_BYTES then some ((m.store off c).store (off + 1) TEXT_STYLE) else none

def clearLine (y : Nat) (m : Cells) : Option Cells :=
  m.stosw (uint32_t (y * SCREEN_WIDTH * 2)) SCREEN_WIDTH

/-- Move the lines up, and clear the last one. -/
def scrollDown (m : Cells) : Option Cells :=
  (m.movsdWithin ((SCREEN_HEIGHT - 1) * SCREEN_WIDTH * 2 / 4) (2 * SCREEN_WIDTH) 0).stosw
    ((SCREEN_HEIGHT - 1) * SCREEN_WIDTH * 2) SCREEN_WIDTH

def clear (m : Cells) : Option Cells := m.stosw 0 (SCREEN_WIDTH * SCREEN_HEIGHT)

end Cells

/-- What the painters share. -/
structure Display where
  /-- Whether `virtOfPage0()` has a mapping to return. -/
  virtOfPage0 : Bool
  vmem : Cells
  /-- The Cursor Location Field of the VGA. -/
  location : Nat
  /-- The address of `userFirst4MBTable`. -/
  userTable : BitVec 32
  /-- `userFirst4MBTable[PRE_INIT_VIDEO >> 12]` -/
  userEntry : BitVec 32
  /-- `global_cr3val[0]` -/
  firstEntry : BitVec 32
  /-- `getCurrentThreadInfo()->getPCB()` -/
  current : BitVec 32
  pcbLoadable : Bool
  canUseCpp : Bool
  isFallbackTerm : Bool

namespace Display

def helpSetCursor (x y : Nat) (d : Display) : Display :=
  if x ≥ SCREEN_WIDTH then d
  else if y ≥ SCREEN_HEIGHT then d
  else { d with location := (SCREEN_WIDTH * y + x) % 0x10000 }

/-- `LOAD_PAGE_TABLE(0, userFirst4MBTable, PT_WRITABLE | PT_USER)` -/
def loadPageTable (d : Display) : Display :=
  { d with firstEntry := PT_BASE ||| (d.userTable &&& ALIGN_4KB_ADDR) |||
    (PT_WRITABLE ||| PT_USER) }

/-- The 4 KB page that a program writes to at `PRE_INIT_VIDEO`, if it may: entry 0 of the page
    directory is a page table, which must be `userFirst4MBTable`. -/
def userPage (d : Display) : Option (BitVec 32) :=
  if HAS_FLAG (PT_BASE ||| PT_WRITABLE ||| PT_USER) d.firstEntry &&
      !HAS_FLAG PG_SIZE d.firstEntry &&
      d.firstEntry &&& ALIGN_4KB_ADDR == d.userTable &&& ALIGN_4KB_ADDR &&
      HAS_FLAG (PG_4KB_BASE ||| PG_WRITABLE ||| PG_USER) d.userEntry then
    some (d.userEntry &&& ALIGN_4KB_ADDR)
  else none

end Display

structure TextModePainter where
  backupBuffer : Cells
  /-- The address of `backupBuffer`. -/
  bufferAddr : BitVec 32
  cursorX : Nat
  cursorY : Nat
  isLoadedInVmem : Bool
  bIsVidmapEnabled : Bool
  vidmapOwner : BitVec 32

/-- The members as they are initialised, before the body of the constructor clears the screen. -/
def TextModePainter.members (backupBuffer : Cells) (bufferAddr : BitVec 32) : TextModePainter where
  backupBuffer := backupBuffer
  bufferAddr := bufferAddr
  cursorX := 0
  cursorY := 0
  isLoadedInVmem := false
  bIsVidmapEnabled := false
  vidmapOwner := 0

/-- Where a painter draws. -/
inductive Target where
  | vmem
  | backup

namespace TextModePainter

def videoMem (p : TextModePainter) (d : Display) : Option Target :=
  if !d.virtOfPage0 then none
  else if p.isLoadedInVmem then some .vmem
  else some .backup

/-- What the stores `f` do through `videoMem()`. -/
def draw (f : Cells → Option Cells) (p : TextModePainter) (d : Display) :
    Option (TextModePainter × Display) :=
  match p.videoMem d with
  | none => none
  | some .vmem => (f d.vmem).map fun m => (p, { d with vmem := m })
  | some .backup => (f p.backupBuffer).map fun m => ({ p with backupBuffer := m }, d)

def setCursor (x y : Nat) (p : TextModePainter) (d : Display) : TextModePainter × Display :=
  let p := { p with cursorX := x, cursorY := y }
  -- if this terminal is currently hidden: do NOTHING but save cursor location
  if !p.isLoadedInVmem then (p, d) else (p, d.helpSetCursor x y)

def clearScreenNolock (p : TextModePainter) (d : Display) : Option (TextModePainter × Display) :=
  (p.draw Cells.clear d).map fun r => r.1.setCursor 0 0 r.2

def clearScreen := clearScreenNolock

def scrollDown := draw Cells.scrollDown

def showChar (x y : Nat) (c : BitVec 8) := draw (Cells.showChar x y c)

def clearLine (y : Nat) := draw (Cells.clearLine y)

def tryMapVidmapNolock (pcbToLoadMemmap : BitVec 32) (p : TextModePainter) (d : Display) :
    Display :=
  if !d.pcbLoadable || !d.canUseCpp || d.isFallbackTerm then d
  else if pcbToLoadMemmap ≠ p.vidmapOwner then d
  else if p.bIsVidmapEnabled then
    let addr := if p.isLoadedInVmem then PRE_INIT_VIDEO else p.bufferAddr
    { d with
      userEntry :=
        PG_4KB_BASE ||| PG_WRITABLE ||| PG_USER ||| (addr &&& ALIGN_4KB_ADDR) }.loadPageTable
  else { d with firstEntry := 0 }

def tryMapVidmap := tryMapVidmapNolock

def «show» (p : TextModePainter) (d : Display) : TextModePainter × Display :=
  if p.isLoadedInVmem then (p, d)
  else if !d.virtOfPage0 then (p, d)
  else
    let d := { d with
      vmem := Cells.movsd (SCREEN_HEIGHT * SCREEN_WIDTH * 2 / 4) p.backupBuffer d.vmem }
    let p := { p with isLoadedInVmem := true }
    (p, p.tryMapVidmapNolock d.current (d.helpSetCursor p.cursorX p.cursorY))

def hide (p : TextModePainter) (d : Display) : TextModePainter × Display :=
  if !p.isLoadedInVmem then (p, d)
  else if !d.virtOfPage0 then (p, d)
  else
    let p := { p with
      backupBuffer := Cells.movsd (SCREEN_HEIGHT * SCREEN_WIDTH * 2 / 4) d.vmem p.backupBuffer
      isLoadedInVmem := false }
    (p, p.tryMapVidmapNolock d.current d)

/-- The result is whether the caller gets `PRE_INIT_VIDEO` rather than NULL. -/
def enableVidmap (theThread : BitVec 32) (p : TextModePainter) (d : Display) :
    Option (Bool × TextModePainter × Display) :=
  if p.vidmapOwner ≠ 0 then some (false, p, d)
  else
    let p := { p with vidmapOwner := theThread }
    (p.clearScreenNolock d).map fun r =>
    (true, { r.1 with bIsVidmapEnabled := true }, r.2.loadPageTable)

def tryDisableVidmap (theThread : BitVec 32) (p : TextModePainter) (d : Display) :
    TextModePainter × Display :=
  if p.vidmapOwner ≠ theThread then (p, d)
  else ({ p with vidmapOwner := 0, bIsVidmapEnabled := false }, { d with firstEntry := 0 })

/-- What a terminal asks of its painter. -/
def perform : Effect → TextModePainter → Display → Option (TextModePainter × Display)
  | .showChar x y c, p, d => p.showChar x y c d
  | .clearLine y, p, d => p.clearLine y d
  | .scrollDown, p, d => p.scrollDown d
  | .clearScreen, p, d => p.clearScreen d
  | .setCursor x y, p, d => some (p.setCursor x y d)
  | _, p, d => some (p, d)

end TextModePainter

def numTextTerms : Nat := 6

def getFirstTextTerm : Fin numTextTerms := ⟨0, by decide⟩

/-- The text terminals of `KbClients`. -/
structure KbClients where
  display : Display
  painters : Fin numTextTerms → TextModePainter
  currClient : Fin numTextTerms

namespace KbClients

/-- A method of painter `i` has run. -/
def put (i : Fin numTextTerms) (r : TextModePainter × Display) (s : KbClients) : KbClients :=
  { s with painters := Function.update s.painters i r.1, display := r.2 }

def call (i : Fin numTextTerms) (e : Effect) (s : KbClients) : Option KbClients :=
  ((s.painters i).perform e s.display).map fun r => s.put i r

def «show» (i : Fin numTextTerms) (s : KbClients) : KbClients :=
  s.put i ((s.painters i).show s.display)

def hide (i : Fin numTextTerms) (s : KbClients) : KbClients :=
  s.put i ((s.painters i).hide s.display)

def showClient (id : Fin numTextTerms) (s : KbClients) : KbClients :=
  if id = s.currClient then s
  else { (s.hide s.currClient).show id with currClient := id }

/-- `loadProcessMap` of the process of thread `pcb`, which then runs: the new page directory has
    nothing at address 0 (`resetVPage0And1`). -/
def loadProcessMap (pcb : BitVec 32) (currTerm : Option (Fin numTextTerms)) (s : KbClients) :
    KbClients :=
  let d := { s.display with firstEntry := 0 }
  let d := match currTerm with
    | none => d
    | some i => (s.painters i).tryMapVidmap pcb d
  { s with display := { d with current := pcb } }

/-- The constructors have run: every screen is clear, and none is shown. -/
def Constructed (s : KbClients) : Prop :=
  s.currClient = getFirstTextTerm ∧ ∀ i, ∃ raw addr,
    (TextModePainter.members raw addr).clearScreen s.display = some (s.painters i, s.display)

end KbClients

end TedkOS.Drivers
