/-
  The keyboard driver (drivers/keyboard.cpp, inc/drivers/kkc.h).

  The keyboard sends a byte for every key that is pressed or released.  The driver keeps which of
  Ctrl, Alt and Shift are down, whether the capitals are locked, and which client is shown: six text
  terminals, and the compositor.  The client that is shown gets the keys.

  1. **Program** — the table of the keys, `kb_handler` and `handle`; what they ask of the clients
     comes out as a list.

  2. **The table** — what a key can be, and what it does.

  3. **History** — the state is a function of the keys pressed and released so far
     (`keyboard_history`): nothing of an earlier key is left but what is still held, locked or
     shown.
-/
import TedkOS.Lib.Runs
import TedkOS.Drivers.Terminal

namespace TedkOS.Drivers

open Runs

/-! ## Program -/

def KKC_COMBINE_MASK : BitVec 32 := 0x7FFF0000
def KKC_RELEASE : BitVec 32 := 0x80000000
def KKC_ALT : BitVec 32 := 0x020000
def KKC_DELETE : BitVec 32 := 0x000300
def KKC_UP : BitVec 32 := 0x000400
def KKC_DOWN : BitVec 32 := 0x000500
def KKC_LEFT : BitVec 32 := 0x000600
def KKC_RIGHT : BitVec 32 := 0x000700
def KKC_CAPSLOCK : BitVec 32 := 0x000900
def KKC_ESC : BitVec 32 := 0x000A00
def KKC_F1 : BitVec 32 := 0x000B00
def KKC_F2 : BitVec 32 := 0x000C00
def KKC_F3 : BitVec 32 := 0x000D00
def KKC_F4 : BitVec 32 := 0x000E00
def KKC_F5 : BitVec 32 := 0x000F00
def KKC_F6 : BitVec 32 := 0x001000
def KKC_F7 : BitVec 32 := 0x001100
def KKC_F8 : BitVec 32 := 0x001200
def KKC_F9 : BitVec 32 := 0x001300
def KKC_F10 : BitVec 32 := 0x001400
def KKC_F11 : BitVec 32 := 0x001500
def KKC_F12 : BitVec 32 := 0x001600
def KKC_INSERT : BitVec 32 := 0x001700
def KKC_HOME : BitVec 32 := 0x001A00
def KKC_END : BitVec 32 := 0x001B00
def KKC_PAGEUP : BitVec 32 := 0x001C00
def KKC_PAGEDOWN : BitVec 32 := 0x001D00

def SPECIAL_PREFIX : BitVec 8 := 0xE0
def RELEASE_OFFSET : BitVec 8 := 0x80

/-- The code of a key that has a printable character. -/
def ascii (c : Char) : BitVec 32 := BitVec.ofNat 32 c.toNat

/-- `KBascii`, whose other elements are 0. -/
def KBascii : List (BitVec 32) :=
  [0, KKC_ESC,
    ascii '1', ascii '2', ascii '3', ascii '4', ascii '5', ascii '6', ascii '7', ascii '8',
    ascii '9', ascii '0', ascii '-', ascii '=', KKC_BACKSPACE, KKC_TAB,
    ascii 'q', ascii 'w', ascii 'e', ascii 'r', ascii 't', ascii 'y', ascii 'u', ascii 'i',
    ascii 'o', ascii 'p', ascii '[', ascii ']', KKC_ENTER, KKC_CTRL,
    ascii 'a', ascii 's', ascii 'd', ascii 'f', ascii 'g', ascii 'h', ascii 'j', ascii 'k',
    ascii 'l', ascii ';',
    -- an apostrophe and a backquote; a backslash
    0x27, 0x60, KKC_SHIFT, 0x5C,
    ascii 'z', ascii 'x', ascii 'c', ascii 'v', ascii 'b', ascii 'n', ascii 'm', ascii ',',
    ascii '.', ascii '/', KKC_SHIFT, ascii '*', KKC_ALT, ascii ' ', KKC_CAPSLOCK,
    KKC_F1, KKC_F2, KKC_F3, KKC_F4, KKC_F5, KKC_F6, KKC_F7, KKC_F8, KKC_F9, KKC_F10, 0, 0,
    KKC_HOME, KKC_UP, KKC_PAGEUP, ascii '-', KKC_LEFT, 0, KKC_RIGHT, ascii '+', KKC_END, KKC_DOWN,
    KKC_PAGEDOWN, KKC_INSERT, KKC_DELETE, 0, 0, 0, KKC_F11, KKC_F12]

/-- What the driver asks of the clients. -/
inductive KeyAction where
  | keyUp (client : Nat) (kkc : BitVec 32) (capslock : Bool)
  | keyDown (client : Nat) (kkc : BitVec 32) (capslock : Bool)
  | key (client : Nat) (kkc : BitVec 32) (capslock : Bool)
  | hide (client : Nat)
  | «show» (client : Nat)
deriving DecidableEq

/-- The static state of the driver. -/
structure Keyboard where
  /-- The last byte was the prefix of a special key. -/
  pending_special : Bool
  /-- The control keys that are down. -/
  pending_kc : BitVec 32
  caps_locked : Bool
  /-- The client that is shown. -/
  currClient : Nat

namespace Keyboard

/-- Nothing is down, and the first terminal is shown. -/
def init : Keyboard := ⟨false, 0, false, 0⟩

/-- `showClient(id)`, which is all of `switchTo`. -/
def showClient (id : Nat) (s : Keyboard) : List KeyAction × Keyboard :=
  if id = s.currClient then ([], s)
    else ([.hide s.currClient, .show id], { s with currClient := id })

/-- The cases of the `switch`: the place of a code is the client to switch to. -/
def switchCodes : List (BitVec 32) :=
  [KKC_ALT ||| KKC_F1, KKC_ALT ||| KKC_F2, KKC_ALT ||| KKC_F3, KKC_ALT ||| KKC_F4,
    KKC_ALT ||| KKC_F5, KKC_ALT ||| KKC_F6, KKC_ALT ||| KKC_F7]

/-- `handleShortcut(kernelKeycode)`; `none` is false. -/
def handleShortcut (kernelKeycode : BitVec 32) (s : Keyboard) :
    Option (List KeyAction × Keyboard) :=
  if kernelKeycode &&& KKC_SPECIAL_MASK = KKC_CAPSLOCK
    then some ([], { s with caps_locked := !s.caps_locked })
  else (switchCodes.idxOf? kernelKeycode).map fun id => s.showClient id

/-- `handle(kernelKeycode)`: a release is passed on, a control key remembered, and any other key
    passed on with the control keys, unless it is a shortcut. -/
def handle (kernelKeycode : BitVec 32) (s : Keyboard) : List KeyAction × Keyboard :=
  let ascii_part := kernelKeycode &&& KKC_ASCII_MASK
  let special_part := kernelKeycode &&& KKC_SPECIAL_MASK
  let combine_part := kernelKeycode &&& KKC_COMBINE_MASK
  if kernelKeycode &&& KKC_RELEASE ≠ 0 then
    ([.keyUp s.currClient kernelKeycode s.caps_locked],
      { s with pending_kc := s.pending_kc &&& ~~~combine_part })
  else if combine_part ≠ 0 then ([], { s with pending_kc := s.pending_kc ||| combine_part })
  else if ascii_part ≠ 0 ∨ special_part ≠ 0 then
    let kkc := s.pending_kc ||| special_part ||| ascii_part
    match s.handleShortcut kkc with
    | some (actions, s') => (.keyDown s.currClient kkc s.caps_locked :: actions, s')
    | none => ([.keyDown s.currClient kkc s.caps_locked, .key s.currClient kkc s.caps_locked], s)
  else ([], s)

/-- The rest of `kb_handler`, for a code that is neither 0 nor a prefix nor swallowed. -/
def code (c : BitVec 8) (s : Keyboard) : List KeyAction × Keyboard :=
  if c &&& RELEASE_OFFSET = 0 then s.handle (KBascii.getD c.toNat 0)
  else s.handle (KBascii.getD (c &&& ~~~RELEASE_OFFSET).toNat 0 ||| KKC_RELEASE)

/-- `kb_handler`, when the keyboard has sent a byte. -/
def kb_handler (keyboard_scancode : BitVec 8) (s : Keyboard) : List KeyAction × Keyboard :=
  if keyboard_scancode = 0 then ([], s)
  else if keyboard_scancode = SPECIAL_PREFIX then ([], { s with pending_special := true })
  else if s.pending_special ∧ keyboard_scancode = 0x18
    then ([], { s with pending_special := false })
  else { s with pending_special := false }.code keyboard_scancode

/-- The handler, byte after byte. -/
def run : List (BitVec 8) → Keyboard → List KeyAction × Keyboard
  | [], s => ([], s)
  | c :: cs, s =>
    ((s.kb_handler c).1 ++ (run cs (s.kb_handler c).2).1, (run cs (s.kb_handler c).2).2)

end Keyboard

/-! ## The table

  The 256 bytes a keyboard can send, and what `KBascii` makes of them.  What holds of all of them
  is found by running through the table, and is used as a case distinction after that
  (`keyOf_cases`). -/

/-- The key of a code. -/
def keyOf (c : BitVec 8) : BitVec 32 := KBascii.getD (c &&& ~~~RELEASE_OFFSET).toNat 0

/-- The key is pressed, or goes on being pressed. -/
def isPress (c : BitVec 8) : Bool := c &&& RELEASE_OFFSET = 0

/-- The keys that combine with others. -/
def combineKeys : List (BitVec 32) := [KKC_CTRL, KKC_ALT, KKC_SHIFT]

/-- The keys that switch, together with Alt. -/
def switchKeys : List (BitVec 32) := [KKC_F1, KKC_F2, KKC_F3, KKC_F4, KKC_F5, KKC_F6, KKC_F7]

section Table

variable {c : BitVec 8} {k : BitVec 32}

/-- A press is an index into the table of the keys. -/
theorem toNat_press (h : isPress c = true) : (c &&& ~~~RELEASE_OFFSET).toNat = c.toNat := by
  revert c
  decide +kernel

/-- What can be seen of every key in the table can be said of the key of a code. -/
theorem keyOf_of_all {P : BitVec 32 → Bool} (h : KBascii.all P = true) (h0 : P 0 = true)
    (c : BitVec 8) :
    P (keyOf c) = true := by
  rw [keyOf, List.getD_eq_getElem?_getD]
  cases hget : KBascii[(c &&& ~~~RELEASE_OFFSET).toNat]? with
  | none => exact h0
  | some k => exact List.all_eq_true.mp h k (List.mem_of_getElem? hget)

/-- A key is one of those that combine, or has nothing of them. -/
theorem keyOf_cases (c : BitVec 8) : keyOf c &&& KKC_RELEASE = 0 ∧
    (keyOf c ∈ combineKeys ∧ keyOf c &&& KKC_COMBINE_MASK = keyOf c ∧ keyOf c ≠ 0 ∨
      keyOf c ∉ combineKeys ∧ keyOf c &&& KKC_COMBINE_MASK = 0) := by
  have h := keyOf_of_all (P := fun k => decide (k &&& KKC_RELEASE = 0 ∧
    (k ∈ combineKeys ∧ k &&& KKC_COMBINE_MASK = k ∧ k ≠ 0 ∨ k ∉ combineKeys ∧
      k &&& KKC_COMBINE_MASK = 0)))
    (by decide +kernel) (by decide) c
  exact of_decide_eq_true h

/-- Which of the keys that combine are held. -/
def heldKeys (ctrl alt shift : Bool) : BitVec 32 :=
  (if ctrl then KKC_CTRL else 0) ||| (if alt then KKC_ALT else 0) |||
    (if shift then KKC_SHIFT else 0)

/-- With any of them held, another key is what it is in the table. -/
theorem keyOf_shortcut (ctrl alt shift : Bool) (c : BitVec 8) (hc : keyOf c ∉ combineKeys) :
    let kkc := heldKeys ctrl alt shift ||| keyOf c &&& KKC_SPECIAL_MASK ||| keyOf c &&&
      KKC_ASCII_MASK
    (kkc &&& KKC_SPECIAL_MASK = KKC_CAPSLOCK ↔ keyOf c = KKC_CAPSLOCK) ∧
      Keyboard.switchCodes.idxOf? kkc =
        if heldKeys ctrl alt shift = KKC_ALT then switchKeys.idxOf? (keyOf c) else none := by
  have hall : ∀ ctrl alt shift, (KBascii.all fun k => decide (k ∉ combineKeys →
      let kkc := heldKeys ctrl alt shift ||| k &&& KKC_SPECIAL_MASK ||| k &&& KKC_ASCII_MASK
      (kkc &&& KKC_SPECIAL_MASK = KKC_CAPSLOCK ↔ k = KKC_CAPSLOCK) ∧
      Keyboard.switchCodes.idxOf? kkc =
        if heldKeys ctrl alt shift = KKC_ALT then switchKeys.idxOf? k else none)) = true := by
    decide +kernel
  exact of_decide_eq_true (keyOf_of_all (hall ctrl alt shift) (by revert ctrl alt shift; decide) c)
    hc

end Table

/-! ## History

  The specification, as functions of all the bytes so far.  A prefix byte changes the meaning of
  the byte after it, so the bytes are first put together to codes (`codes`); what is held and
  what is locked are then found by looking back for the last code of the key. -/

/-- What comes out of a list whose elements are looked at one by one, with what was before. -/
def pick {α β : Type} (f : List α → α → Option β) : List α → List α → List β
  | _, [] => []
  | before, a :: l => (f before a).toList ++ pick f (before ++ [a]) l

/-- What is picked out of two lists one after the other. -/
theorem pick_append {α β : Type} {f : List α → α → Option β} (before l l' : List α) :
    pick f before (l ++ l') = pick f before l ++ pick f (before ++ l) l' := by
  induction l generalizing before with
  | nil => rw [List.nil_append, List.append_nil, pick, List.nil_append]
  | cons a l ih =>
    rw [List.cons_append, pick, ih, pick, List.append_assoc, List.append_assoc,
    List.singleton_append]

/-- What is picked of one more. -/
theorem pick_snoc {α β : Type} {f : List α → α → Option β} (l : List α) (a : α) :
    pick f [] (l ++ [a]) = pick f [] l ++ (f l a).toList := by
  rw [pick_append, pick, pick, List.append_nil, List.nil_append]

/-- The last byte but zeros was a prefix. -/
def prefixed (bytes : List (BitVec 8)) : Bool :=
  (bytes.filter (· != 0)).getLast? == some SPECIAL_PREFIX

/-- The bytes that tell of a key: neither 0 nor a prefix nor, after a prefix, 0x18. -/
def codes (bytes : List (BitVec 8)) : List (BitVec 8) :=
  pick (fun before c => if c = 0 ∨ c = SPECIAL_PREFIX ∨ prefixed before ∧ c = 0x18 then none
    else some c) [] bytes

/-- A key is held: the last that was told of it is that it is pressed. -/
def held (k : BitVec 32) (codes : List (BitVec 8)) : Bool :=
  (codes.filter (keyOf · == k)).getLast?.any isPress

/-- The capitals are locked: Caps Lock was pressed an odd number of times. -/
def locked (codes : List (BitVec 8)) : Bool :=
  (codes.filter fun c => isPress c && keyOf c == KKC_CAPSLOCK).length % 2 == 1

/-- Ctrl, Alt and Shift. -/
def heldBy (codes : List (BitVec 8)) : BitVec 32 :=
  heldKeys (held KKC_CTRL codes) (held KKC_ALT codes) (held KKC_SHIFT codes)

/-- The client a code switches to: one of the seven keys is pressed while Alt is held, and neither
    Ctrl nor Shift. -/
def switchesTo (before : List (BitVec 8)) (c : BitVec 8) : Option Nat :=
  if isPress c ∧ heldBy before = KKC_ALT then switchKeys.idxOf? (keyOf c) else none

/-- The client last switched to, or the first one. -/
def shownClient (codes : List (BitVec 8)) : Nat := (pick switchesTo [] codes).getLast?.getD 0

section History

variable {before : List (BitVec 8)} {c : BitVec 8} {k : BitVec 32} {s : Keyboard}
    {ctrl alt shift : Bool}

/-- What one more code does: its key is held or not, -/
theorem held_snoc : held k (before ++ [c]) = if keyOf c = k then isPress c else held k before := by
  rw [held, List.filter_append]
  by_cases hk : keyOf c = k
  · simp [hk]
  · simp [hk, held]

/-- the capitals are locked or unlocked, -/
theorem locked_snoc :
    locked (before ++ [c]) = (locked before ^^ (isPress c && keyOf c == KKC_CAPSLOCK)) := by
  rw [locked, List.filter_append, List.length_append, List.filter_cons, List.filter_nil, locked]
  cases isPress c && keyOf c == KKC_CAPSLOCK with
  | false => rw [if_neg Bool.false_ne_true, List.length_nil, Nat.add_zero, Bool.xor_false]
  | true =>
    rw [if_pos rfl, List.length_singleton, Bool.xor_true]
    rcases Nat.mod_two_eq_zero_or_one
      (before.filter fun c => isPress c && keyOf c == KKC_CAPSLOCK).length with h | h
    · rw [Nat.add_mod, h]
      rfl
    · rw [Nat.add_mod, h]
      rfl

/-- another client is shown, -/
theorem shownClient_snoc :
    shownClient (before ++ [c]) = (switchesTo before c).getD (shownClient before) := by
  rw [shownClient, pick_snoc, List.getLast?_append]
  cases switchesTo before c with
  | none => rfl
  | some id => rfl

/-- and a prefix is remembered. -/
theorem prefixed_snoc :
    prefixed (before ++ [c]) = if c = 0 then prefixed before else c == SPECIAL_PREFIX := by
  rw [prefixed, List.filter_append, List.filter_cons, List.filter_nil]
  by_cases hc : c = 0
  · rw [hc, if_neg (by decide), List.append_nil, if_pos rfl, prefixed]
  · rw [if_pos (bne_iff_ne.mpr hc), List.getLast?_concat, if_neg hc]
    rfl

/-! ### One code

  What one more code does to the state, and to the functions of the history.  They agree, code by
  code, and so by induction after any number of bytes. -/

/-- What is held of a key after a code. -/
def heldAfter (k : BitVec 32) (c : BitVec 8) (before : Bool) : Bool :=
  if keyOf c = k then isPress c else before

/-- A key that combines is pressed or released, with any of them held. -/
theorem heldKeys_after (hk : keyOf c ∈ combineKeys) :
    (if isPress c then heldKeys ctrl alt shift ||| keyOf c
      else heldKeys ctrl alt shift &&& ~~~keyOf c) =
      heldKeys (heldAfter KKC_CTRL c ctrl) (heldAfter KKC_ALT c alt)
        (heldAfter KKC_SHIFT c shift) := by
  simp only [combineKeys, List.mem_cons, List.not_mem_nil, or_false] at hk
  unfold heldAfter
  generalize isPress c = press
  rcases hk with hk | hk | hk
  · rw [hk]
    revert press ctrl alt shift
    decide
  · rw [hk]
    revert press ctrl alt shift
    decide
  · rw [hk]
    revert press ctrl alt shift
    decide

/-- Another key does not change what is held. -/
theorem heldAfter_other (hk : keyOf c ∉ combineKeys) (hmem : k ∈ combineKeys) (b : Bool) :
    heldAfter k c b = b :=
  if_neg fun heq : keyOf c = k => hk (heq ▸ hmem)

/-- **The release of a key.** -/
theorem handle_release (hs : s.pending_kc = heldKeys ctrl alt shift) (hc : isPress c = false) :
    (s.handle (keyOf c ||| KKC_RELEASE)).2 = { s with
      pending_kc :=
        heldKeys (heldAfter KKC_CTRL c ctrl) (heldAfter KKC_ALT c alt)
        (heldAfter KKC_SHIFT c shift) } := by
  have hrelease : (keyOf c ||| KKC_RELEASE) &&& KKC_RELEASE ≠ 0 := by
    rw [BitVec.and_or_distrib_right, (keyOf_cases c).1]
    decide
  have hcombine :
      (keyOf c ||| KKC_RELEASE) &&& KKC_COMBINE_MASK = keyOf c &&& KKC_COMBINE_MASK := by
    rw [BitVec.and_or_distrib_right,
      show KKC_RELEASE &&& KKC_COMBINE_MASK = 0#32 by decide, BitVec.or_zero]
  rw [Keyboard.handle]
  simp only [hcombine]
  rw [if_pos hrelease, hs]
  refine congrArg (fun kc => ({ s with pending_kc := kc } : Keyboard)) ?_
  rcases (keyOf_cases c).2 with ⟨hmem, hmask, -⟩ | ⟨hnot, hmask⟩
  · rw [hmask, ← heldKeys_after hmem, hc, if_neg Bool.false_ne_true]
  · rw [hmask, heldAfter_other hnot (by decide), heldAfter_other hnot (by decide),
      heldAfter_other hnot (by decide)]
    exact BitVec.and_allOnes

/-- A switch changes which client is shown, and nothing else. -/
theorem showClient_eq (id : Nat) (s : Keyboard) :
    (s.showClient id).2 = { s with currClient := id } := by
  rw [Keyboard.showClient]
  split
  · next heq => rw [heq]
  · rfl

/-- **The press of a key.** -/
theorem handle_press (hs : s.pending_kc = heldKeys ctrl alt shift) (hc : isPress c = true) :
    (s.handle (keyOf c)).2 = { s with
      pending_kc :=
        heldKeys (heldAfter KKC_CTRL c ctrl) (heldAfter KKC_ALT c alt) (heldAfter KKC_SHIFT c shift)
      caps_locked := s.caps_locked ^^ (keyOf c == KKC_CAPSLOCK)
      currClient :=
        (if heldKeys ctrl alt shift = KKC_ALT then switchKeys.idxOf? (keyOf c) else none).getD
        s.currClient } := by
  obtain ⟨hrelease, hcases⟩ := keyOf_cases c
  rw [Keyboard.handle]
  simp only [hrelease, ne_eq, not_true_eq_false, if_false]
  rcases hcases with ⟨hmem, hmask, hne⟩ | ⟨hnot, hmask⟩
  · -- Ctrl, Alt or Shift, which is no shortcut
    have hother : (keyOf c == KKC_CAPSLOCK) = false ∧ switchKeys.idxOf? (keyOf c) = none := by
      simp only [combineKeys, List.mem_cons, List.not_mem_nil, or_false] at hmem
      rcases hmem with hk | hk | hk
      · rw [hk]
        decide
      · rw [hk]
        decide
      · rw [hk]
        decide
    rw [hmask, if_pos hne, hs, hother.1, hother.2, ite_self, ← heldKeys_after hmem, hc, if_pos rfl,
      Bool.xor_false]
    rfl
  · -- any other key: a shortcut, if one of the three is held or the key is a special one
    obtain ⟨hcaps, hswitch⟩ := keyOf_shortcut ctrl alt shift c hnot
    rw [hmask, if_neg (not_not.mpr rfl), heldAfter_other hnot (by decide),
      heldAfter_other hnot (by decide), heldAfter_other hnot (by decide), ← hs]
    rw [← hs] at hcaps hswitch
    split
    · rw [Keyboard.handleShortcut]
      by_cases hk : keyOf c = KKC_CAPSLOCK
      · have hnone : switchKeys.idxOf? KKC_CAPSLOCK = none := by decide
        rw [if_pos (hcaps.mpr hk), hk, hnone, ite_self, beq_self_eq_true, Bool.xor_true]
        rfl
      · rw [if_neg fun h => hk (hcaps.mp h), beq_eq_false_iff_ne.mpr hk, Bool.xor_false, hswitch]
        cases (if s.pending_kc = KKC_ALT then switchKeys.idxOf? (keyOf c) else none) with
        | none => rfl
        | some id => exact showClient_eq id s
    · -- a plain key is neither caps lock nor one that switches
      next hnothing =>
      obtain ⟨-, hspecial⟩ := not_or.mp hnothing
      have hspecial : keyOf c &&& KKC_SPECIAL_MASK = 0 := not_not.mp hspecial
      have hnone : switchKeys.idxOf? (keyOf c) = none := by
        refine List.idxOf?_eq_none_iff.mpr fun hmem => ?_
        have hall : (switchKeys.all fun k => k &&& KKC_SPECIAL_MASK != 0) = true := by decide
        exact bne_iff_ne.mp (List.all_eq_true.mp hall _ hmem) hspecial
      have hcaps : keyOf c ≠ KKC_CAPSLOCK := by
        intro hk
        rw [hk] at hspecial
        exact absurd hspecial (by decide)
      rw [hnone, ite_self, beq_eq_false_iff_ne.mpr hcaps, Bool.xor_false]
      rfl

/-- **One code.** -/
theorem code_spec (hs : s.pending_kc = heldKeys ctrl alt shift) (c : BitVec 8) :
    (s.code c).2 = { s with
    pending_kc :=
      heldKeys (heldAfter KKC_CTRL c ctrl) (heldAfter KKC_ALT c alt) (heldAfter KKC_SHIFT c shift)
    caps_locked := s.caps_locked ^^ (isPress c && keyOf c == KKC_CAPSLOCK)
    currClient :=
      (if isPress c ∧ heldKeys ctrl alt shift = KKC_ALT then switchKeys.idxOf? (keyOf c)
      else none).getD
      s.currClient } := by
  rw [Keyboard.code]
  cases hc : isPress c with
  | true =>
    have hlow : KBascii.getD c.toNat 0 = keyOf c := by rw [keyOf, toNat_press hc]
    rw [if_pos (of_decide_eq_true hc), hlow, handle_press hs hc, Bool.true_and]
    simp only [true_and]
  | false =>
    rw [if_neg (of_decide_eq_false hc), Bool.false_and, Bool.xor_false,
      if_neg fun h => Bool.false_ne_true h.1]
    exact handle_release hs hc

/-- The driver keeps nothing of a key but if it is held. -/
theorem kb_handler_held (c : BitVec 8)
    (h : ∃ ctrl alt shift, s.pending_kc = heldKeys ctrl alt shift) :
    ∃ ctrl alt shift, (s.kb_handler c).2.pending_kc = heldKeys ctrl alt shift := by
  rw [Keyboard.kb_handler]
  split
  · exact h
  split
  · exact h
  split
  · exact h
  · obtain ⟨ctrl, alt, shift, hs⟩ := h
    rw [code_spec (s := { s with pending_special := false }) hs c]
    exact ⟨_, _, _, rfl⟩

/-- The three control keys after one more code. -/
theorem heldBy_snoc :
    heldBy (before ++ [c]) = heldKeys (heldAfter KKC_CTRL c (held KKC_CTRL before))
    (heldAfter KKC_ALT c (held KKC_ALT before))
      (heldAfter KKC_SHIFT c (held KKC_SHIFT before)) := by
  rw [heldBy, held_snoc, held_snoc, held_snoc]
  rfl

/-- Bytes one after the other, -/
theorem run_append (bytes bytes' : List (BitVec 8)) (s : Keyboard) : s.run (bytes ++ bytes') =
    ((s.run bytes).1 ++ ((s.run bytes).2.run bytes').1, ((s.run bytes).2.run bytes').2) := by
  induction bytes generalizing s with
  | nil => rfl
  | cons b bytes ih => rw [List.cons_append, Keyboard.run, ih, Keyboard.run, List.append_assoc]

/-- and one more byte. -/
theorem run_snoc (bytes : List (BitVec 8)) (c : BitVec 8) (s : Keyboard) :
    (s.run (bytes ++ [c])).2 = ((s.run bytes).2.kb_handler c).2 := by
  rw [run_append]
  rfl

/-- The codes of one more byte: none of a prefix, or of what belongs to one. -/
theorem codes_snoc (bytes : List (BitVec 8)) (c : BitVec 8) : codes (bytes ++ [c]) = codes bytes ++
    if c = 0 ∨ c = SPECIAL_PREFIX ∨ prefixed bytes ∧ c = 0x18 then [] else [c] := by
  rw [codes, pick_snoc, ← codes]
  split
  · rfl
  · rfl

end History

/-- **The state is a function of the history**: a combining key is held if the last that was told of
    it is its press, the capitals are locked after an odd number of presses of their key, and the
    client that is shown is the one last switched to. -/
theorem keyboard_history (bytes : List (BitVec 8)) : (Keyboard.init.run bytes).2 =
    { pending_special := prefixed bytes
      pending_kc := heldBy (codes bytes)
      caps_locked := locked (codes bytes)
      currClient := shownClient (codes bytes) } := by
  induction bytes using List.reverseRecOn with
  | nil => rfl
  | append_singleton bytes c ih =>
    rw [run_snoc, ih, Keyboard.kb_handler, codes_snoc, prefixed_snoc]
    by_cases hzero : c = 0
    · rw [if_pos hzero, if_pos (Or.inl hzero), if_pos hzero, List.append_nil]
    · rw [if_neg hzero, if_neg hzero]
      by_cases hprefix : c = SPECIAL_PREFIX
      · rw [if_pos hprefix, if_pos (Or.inr (Or.inl hprefix)), List.append_nil,
          beq_iff_eq.mpr hprefix]
      · rw [if_neg hprefix, beq_eq_false_iff_ne.mpr hprefix]
        by_cases hswallowed : prefixed bytes ∧ c = 0x18
        · rw [if_pos hswallowed, if_pos (Or.inr (Or.inr hswallowed)), List.append_nil]
        · rw [if_neg hswallowed,
            if_neg (by simp only [hzero, hprefix, hswallowed, or_self, not_false_eq_true]),
            code_spec rfl c, heldBy_snoc, locked_snoc, shownClient_snoc]
          rfl

end TedkOS.Drivers
