/-
  `Term::Term` (drivers/terminal.cpp): one terminal, with the line being typed, the place of the
  next character on the screen, and the process that waits for the line.

  The handlers run under the terminal's lock, so each is a function of the terminal.  What it calls
  on the painter, on the scheduler and on user memory, and which slots of `term_buf` it stores to,
  is kept in `log`, oldest first.

  `Raw` is what the machine puts where the code reads something it has not written: the offsets of
  the item Enter stores, and the bytes behind `ascii_shift_table`, whose index is a `char` extended
  with its sign.
-/
import Mathlib.Logic.Function.Basic
import TedkOS.Syscalls.UserMemory

namespace TedkOS.Drivers

def EFOPS : BitVec 32 := 1

def KKC_ASCII_MASK : BitVec 32 := 0x000000FF
def KKC_SPECIAL_MASK : BitVec 32 := 0x0000FF00
def KKC_CTRL : BitVec 32 := 0x010000
def KKC_SHIFT : BitVec 32 := 0x040000
def KKC_ENTER : BitVec 32 := 0x000100
def KKC_BACKSPACE : BitVec 32 := 0x000200
def KKC_TAB : BitVec 32 := 0x000800

def TAB_WIDTH : Nat := 4
def SCREEN_WIDTH : Nat := 80
def SCREEN_HEIGHT : Nat := 25
def TERM_BUFFER_SIZE : Nat := 128

/-- A result of `uint32_t` or `size_t` arithmetic. -/
def uint32_t (n : Nat) : Nat := n % 0x100000000

structure term_buf_item where
  displayed_char : BitVec 8
  /-- The space the item took on the screen. -/
  x_offset : Nat
  /-- Not 0 if a new line was begun. -/
  y_offset : Nat

/-- What a terminal does to the rest of the system. -/
inductive Effect where
  -- of the painter
  | showChar (x y : Nat) (c : BitVec 8)
  | clearLine (y : Nat)
  | scrollDown
  | clearScreen
  | setCursor (x y : Nat)
  /-- `term_buf[index] = rec` -/
  | store (index : Nat) (rec : term_buf_item)
  /-- Characters copied to the user's buffer. -/
  | copy (buffer : BitVec 32) (chars : List (BitVec 8))
  /-- The calling thread is blocked, reading so many bytes into a buffer. -/
  | block (pid buf nbytes : BitVec 32)
  /-- The main thread of a process gets its result and runs again. -/
  | unblock (pid eax : BitVec 32)

structure Term where
  next_char_x : Nat
  next_char_y : Nat
  /-- The position of the NEXT NEW item. -/
  term_buf_pos : Nat
  term_buf : Nat → term_buf_item
  OwnedByPid : BitVec 32
  UserWaitingRead : Bool
  UserWaitingBuffer : BitVec 32
  UserWaitingLen : BitVec 32
  log : List Effect

/-- What the machine puts where nothing was written. -/
structure Raw where
  newLine : term_buf_item
  behindTable : BitVec 32 → BitVec 8

/-- The characters of `ascii_shift_table` that have one, with it. -/
def shifted : List (Nat × Nat) :=
  [(39, 34), (44, 60), (45, 95), (46, 62), (47, 63), (48, 41), (49, 33), (50, 64),
   (51, 35), (52, 36), (53, 37), (54, 94), (55, 38), (56, 42), (57, 40), (59, 58), (61, 43),
   (91, 123), (92, 124), (93, 125), (96, 126)] ++ (List.range 26).map fun k => (97 + k, 65 + k)

/-- `ascii_shift_table[i]`. -/
def ascii_shift_table (raw : Raw) (i : BitVec 32) : BitVec 8 :=
  if i.toNat < 128 then BitVec.ofNat 8 ((shifted.lookup i.toNat).getD 0) else raw.behindTable i

namespace Term

/-- `Term()`. -/
def new : Term where
  next_char_x := 0
  next_char_y := 0
  term_buf_pos := 0
  term_buf := fun _ => ⟨0, 0, 0⟩
  OwnedByPid := -1
  UserWaitingRead := false
  UserWaitingBuffer := 0
  UserWaitingLen := -1
  log := []

def emit (e : Effect) (t : Term) : Term := { t with log := t.log ++ [e] }

/-- `term_buf[term_buf_pos++] = rec;` -/
def push (rec : term_buf_item) (t : Term) : Term :=
  { t with
    term_buf := Function.update t.term_buf t.term_buf_pos rec
    term_buf_pos := uint32_t (t.term_buf_pos + 1) }.emit (.store t.term_buf_pos rec)

/-- A line down, or scroll:
    `if(next_char_y < SCREEN_HEIGHT - 1) next_char_y++; else scrollDown();`. -/
def lineDown (t : Term) : Term :=
  if t.next_char_y < SCREEN_HEIGHT - 1 then { t with next_char_y := uint32_t (t.next_char_y + 1) }
  else t.emit .scrollDown

/-- `for(j = first; j <= last; j++) showChar(j, next_char_y, ' ')`. -/
def showBlanks (first last : Nat) (t : Term) : Term :=
  ((List.range (last + 1 - first)).map (first + ·)).foldl
    (fun t j => t.emit (.showChar j t.next_char_y 0x20)) t

/-- `setCursor(next_char_x, next_char_y)`. -/
def moveCursor (t : Term) : Term := t.emit (.setCursor t.next_char_x t.next_char_y)

/-! ## Reading -/

def helpFinishRead (buffer nbytes : BitVec 32) (t : Term) : BitVec 32 × Term :=
  if buffer = 0 then (-EFOPS, t)
  else
    let copylen := if nbytes.toNat < t.term_buf_pos then nbytes.toNat else t.term_buf_pos
    let chars := (List.range copylen).map fun i => (t.term_buf i).displayed_char
    (BitVec.ofNat 32 copylen, { t with term_buf_pos := 0 }.emit (.copy buffer chars))

/-- The rest of `read`, once the caller owns the terminal; `none` is a caller that waits. -/
def readOwned (pid buf nbytes : BitVec 32) (t : Term) : Option (BitVec 32) × Term :=
  if t.term_buf_pos < nbytes.toNat then
    (none, { t with
      UserWaitingRead := true
      UserWaitingBuffer := buf
      UserWaitingLen := nbytes }.emit (.block pid buf nbytes))
  else
    let r := t.helpFinishRead buf nbytes
    (some r.1, r.2)

/-- `read` by process `pid`. -/
def read (pid buf nbytes : BitVec 32) (t : Term) : Option (BitVec 32) × Term :=
  if t.OwnedByPid = -1
    then { t with OwnedByPid := pid, UserWaitingRead := false }.readOwned pid buf nbytes
  else if t.OwnedByPid ≠ pid then (some (-EFOPS), t)
  else t.readOwned pid buf nbytes

def setOwner (upid : BitVec 32) (t : Term) : Term :=
  { t with
    OwnedByPid := upid
    UserWaitingRead := false
    UserWaitingBuffer := 0
    UserWaitingLen := -1 }

/-- `canBeOwnedBy`, as the value it gives its callback. -/
def canBeOwnedBy (tid : BitVec 32) (t : Term) : Bool := t.OwnedByPid == -1 || t.OwnedByPid == tid

/-! ## Output -/

def nolock_putc (c : BitVec 8) (t : Term) : Term :=
  -- Things printed from screens are not deletable
  let t := { t with term_buf_pos := 0 }
  let t :=
    if c = 0 then t
    else if c = 0x0A ∨ c = 0x0D then { t with next_char_x := 0 }.lineDown
    else if c = 0x09 then
      let next_char_x := uint32_t (t.next_char_x + (4 - t.next_char_x % TAB_WIDTH))
      if next_char_x ≥ SCREEN_WIDTH
        then { t with next_char_x := next_char_x % SCREEN_WIDTH }.lineDown
      else { t with next_char_x }
    else
      let t := t.emit (.showChar t.next_char_x t.next_char_y c)
      let next_char_x := uint32_t (t.next_char_x + 1)
      if next_char_x = SCREEN_WIDTH then { t with next_char_x := 0 }.lineDown
      else { t with next_char_x }
  t.moveCursor

/-- The loop of `write`, at index `i`: where it stopped. -/
def writeLoop (cbuf : Nat → BitVec 8) : Nat → Nat → Term → Nat × Term
  | 0, i, t => (i, t)
  | rounds + 1, i, t =>
    if cbuf i = 0 then (i, t) else writeLoop cbuf rounds (i + 1) (t.nolock_putc (cbuf i))

/-- `write(buf, nbytes)`: nothing for a negative number of bytes, which is also the result then. -/
def write (cbuf : Nat → BitVec 8) (nbytes : BitVec 32) (t : Term) : BitVec 32 × Term :=
  let r := writeLoop cbuf nbytes.toInt.toNat 0 t
  (if r.1 < nbytes.toInt.toNat then BitVec.ofNat 32 r.1 else nbytes, r.2)

def nolock_cls (t : Term) : Term :=
  ({ t with term_buf_pos := 0, next_char_x := 0, next_char_y := 0 }.emit .clearScreen).moveCursor

/-! ## Keys -/

def nolock_enter_handler (raw : Raw) (t : Term) : Term :=
  let newLine := { raw.newLine with displayed_char := 0x0A }
  let t := { t with next_char_x := 0 }.lineDown
  -- kb_read must add '\n' by itself.
  let t := t.push newLine
  if t.UserWaitingRead then
    let r := { t with UserWaitingRead := false }.helpFinishRead t.UserWaitingBuffer t.UserWaitingLen
    r.2.emit (.unblock t.OwnedByPid r.1)
  else { t with term_buf_pos := 0 }

def nolock_backspace_handler (t : Term) : Term :=
  if t.term_buf_pos > 0 then
    let i := t.term_buf (t.term_buf_pos - 1)
    let t :=
      if i.y_offset ≠ 0 then
        let t := t.emit (.clearLine t.next_char_y)
        let next_char_x := uint32_t (SCREEN_WIDTH + 0x100000000 - i.x_offset)
        { t with next_char_y := uint32_t (t.next_char_y + 0xFFFFFFFF), next_char_x }.showBlanks
          next_char_x
          (SCREEN_WIDTH - 1)
      else
        let next_char_x := uint32_t (t.next_char_x + 0x100000000 - i.x_offset)
        { t with next_char_x }.showBlanks next_char_x t.next_char_x
    { t with term_buf_pos := uint32_t (t.term_buf_pos + 0xFFFFFFFF) }
  else t

def nolock_tab_handler (t : Term) : Term :=
  if t.term_buf_pos ≥ TERM_BUFFER_SIZE - 1 then t
  else
    let old_x := t.next_char_x
    let next_char_x := uint32_t (old_x + (4 - old_x % TAB_WIDTH))
    if next_char_x ≥ SCREEN_WIDTH then
      -- any tab starts at newline
      { t with next_char_x := 0 }.lineDown.push
        ⟨0x09, uint32_t (SCREEN_WIDTH + 0x100000000 - old_x), 1⟩
    else { t with next_char_x }.push ⟨0x09, uint32_t (next_char_x + 0x100000000 - old_x), 0⟩

/-- The character of a key with shift and caps lock. -/
def typedChar (raw : Raw) (kkc : BitVec 32) (capslock : Bool) : BitVec 8 :=
  let c := (kkc &&& KKC_ASCII_MASK).setWidth 8
  let c :=
    if kkc &&& KKC_SHIFT ≠ 0 then
      let ascii_part := c.signExtend 32
      if ascii_shift_table raw ascii_part ≠ 0 then ascii_shift_table raw ascii_part else c
    else c
  if capslock then
    if 0x61 ≤ c.toNat ∧ c.toNat ≤ 0x7A then c - 0x61 + 0x41
    else if 0x41 ≤ c.toNat ∧ c.toNat ≤ 0x5A then c - 0x41 + 0x61
    else c
  else c

/-- A normal character, which is displayed and put in the buffer. -/
def typeChar (c : BitVec 8) (t : Term) : Term :=
  -- < SIZE -1 because '\n' takes space
  if t.term_buf_pos < TERM_BUFFER_SIZE - 1 then
    let t := t.emit (.showChar t.next_char_x t.next_char_y c)
    let old_x := t.next_char_x
    let next_char_x := uint32_t (old_x + 1)
    if next_char_x = SCREEN_WIDTH then
      { t with next_char_x := 0 }.lineDown.push
        ⟨c, uint32_t (SCREEN_WIDTH + 0x100000000 - old_x), 1⟩
    else { t with next_char_x }.push ⟨c, uint32_t (next_char_x + 0x100000000 - old_x), 0⟩
  else t

/-- `key(kkc, capslock)`. -/
def key (raw : Raw) (kkc : BitVec 32) (capslock : Bool) (t : Term) : Term :=
  let t :=
    if kkc &&& ~~~KKC_ASCII_MASK &&& ~~~KKC_SHIFT ≠ 0 then
      if kkc &&& ~~~KKC_SPECIAL_MASK ≠ 0 then
        if kkc = KKC_CTRL ||| 0x6C then
          { t with next_char_x := 0, next_char_y := 0, term_buf_pos := 0 }.emit .clearScreen
        else t
      else if kkc &&& KKC_SPECIAL_MASK = KKC_BACKSPACE then t.nolock_backspace_handler
      else if kkc &&& KKC_SPECIAL_MASK = KKC_TAB then t.nolock_tab_handler
      else if kkc &&& KKC_SPECIAL_MASK = KKC_ENTER then t.nolock_enter_handler raw
      else t
    else t.typeChar (typedChar raw kkc capslock)
  t.moveCursor

end Term

end TedkOS.Drivers
