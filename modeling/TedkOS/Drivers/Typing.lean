/-
  What can be typed (drivers/keyboard.cpp, drivers/terminal.cpp).

  From a byte of the keyboard to a character of the line there are two tables: the keys of
  `KBascii`, and what a terminal makes of a key with shift and caps lock.  Every printable character
  is behind some key, whether the capitals are locked or not, so whatever line a program waits for,
  somebody at the keyboard can give it.

  1. **Strokes** — the key for a character, and the bytes for a line.

  2. **A byte of a stroke** — what `kb_handler` does with it.

  3. **A line** — from the bytes to the reader (`line_typed`).
-/
import TedkOS.Drivers.Consoles

namespace TedkOS.Drivers

open Runs Isolation

/-! ## Strokes

  For a character the key is searched for in the tables.  That there is one for every printable
  character, with and without caps lock, is a computation over the table (`keyFor_spec`). -/

/-- From the space to the tilde. -/
def Printable (c : BitVec 8) : Prop := 0x20 ≤ c.toNat ∧ c.toNat ≤ 0x7E

/-- The key of a code, where that is a printable one and nothing else. -/
def charOf (code : BitVec 8) : BitVec 8 := (keyOf code).setWidth 8

/-- A key on which there is the character, and if that is with shift. -/
def keyFor (capslock : Bool) (c : BitVec 8) : Option (BitVec 8 × Bool) :=
  (((List.range 0x3A).map (BitVec.ofNat 8)).flatMap fun code => [(code, false), (code, true)]).find?
    fun r =>
    keyOf r.1 == (charOf r.1).setWidth 32 && keyChar (charOf r.1) r.2 capslock == c

/-- The bytes that come when a character is typed. -/
def strokes (capslock : Bool) (c : BitVec 8) : List (BitVec 8) :=
  match keyFor capslock c with
  | some (code, true) => [0x2A, code, code ||| RELEASE_OFFSET, 0xAA]
  | some (code, false) => [code, code ||| RELEASE_OFFSET]
  | none => []

/-- The bytes that come when all keys are let go, and a line is typed, with Enter. -/
def typing (capslock : Bool) (line : List (BitVec 8)) : List (BitVec 8) :=
  [0x9D, 0xB8, 0xAA] ++ line.flatMap (strokes capslock) ++ [0x1C]

/-- The key for a character. -/
structure KeyFor (capslock : Bool) (c code : BitVec 8) (shift : Bool) : Prop where
  /-- `code` is what the keyboard sends when the key goes down, -/
  press : code ≠ 0 ∧ code ≠ SPECIAL_PREFIX ∧ isPress code = true
  /-- and with the highest bit up, when it comes up. -/
  release : code ||| RELEASE_OFFSET ≠ 0 ∧ code ||| RELEASE_OFFSET ≠ SPECIAL_PREFIX ∧
    isPress (code ||| RELEASE_OFFSET) = false ∧ keyOf (code ||| RELEASE_OFFSET) = keyOf code
  /-- It is no special key, -/
  key : keyOf code = (charOf code).setWidth 32
  /-- and its character is a small letter or no letter at all. -/
  ascii : charOf code ≠ 0 ∧ (charOf code).toNat < 128 ∧
    ¬ (0x41 ≤ (charOf code).toNat ∧ (charOf code).toNat ≤ 0x5A)
  /-- With shift and caps lock as they are, the terminal makes `c` of it. -/
  char : keyChar (charOf code) shift capslock = c

instance (capslock : Bool) (c code : BitVec 8) (shift : Bool) :
    Decidable (KeyFor capslock c code shift) :=
  decidable_of_iff ((code ≠ 0 ∧ code ≠ SPECIAL_PREFIX ∧ isPress code = true) ∧
    (code ||| RELEASE_OFFSET ≠ 0 ∧ code ||| RELEASE_OFFSET ≠ SPECIAL_PREFIX ∧
      isPress (code ||| RELEASE_OFFSET) = false ∧ keyOf (code ||| RELEASE_OFFSET) = keyOf code) ∧
    keyOf code = (charOf code).setWidth 32 ∧
    (charOf code ≠ 0 ∧ (charOf code).toNat < 128 ∧
      ¬ (0x41 ≤ (charOf code).toNat ∧ (charOf code).toNat ≤ 0x5A)) ∧
    keyChar (charOf code) shift capslock = c)
    ⟨fun ⟨hpress, hrelease, hkey, hascii, hchar⟩ => ⟨hpress, hrelease, hkey, hascii, hchar⟩,
      fun h => ⟨h.press, h.release, h.key, h.ascii, h.char⟩⟩

/-- Every printable character is on some key. -/
theorem keyFor_spec (capslock : Bool) {c : BitVec 8} (hc : Printable c) :
    ∃ code shift, keyFor capslock c = some (code, shift) ∧ KeyFor capslock c code shift := by
  have hall : ∀ capslock, ((List.range 0x5F).all fun n =>
      ((keyFor capslock (BitVec.ofNat 8 (n + 0x20))).any fun r =>
        decide (KeyFor capslock (BitVec.ofNat 8 (n + 0x20)) r.1 r.2))) = true := by
    decide +kernel
  have hn : c.toNat - 0x20 ∈ List.range 0x5F := List.mem_range.mpr (by have := hc.2; omega)
  have h := List.all_eq_true.mp (hall capslock) _ hn
  rw [Nat.sub_add_cancel hc.1, BitVec.ofNat_toNat, BitVec.setWidth_eq] at h
  obtain ⟨⟨code, shift⟩, hsome, hkey⟩ := (Option.any_eq_true _ _).mp h
  exact ⟨code, shift, hsome, of_decide_eq_true hkey⟩

/-! ## A byte of a stroke

  Four kinds of bytes occur: shift down, a key down, the key up, shift up.  Each changes what is
  held as it should, and only the second does something to the terminal. -/

/-- Shift is held, or no key. -/
def onlyShift (shift : Bool) : BitVec 32 := if shift then KKC_SHIFT else 0

section Bytes

variable {k : Keyboard} {capslock shift : Bool} {c code : BitVec 8} {client : Nat}

/-- A key is pressed that is no shortcut with those that are held. -/
theorem press_key {held kkc : BitVec 32}
    (hcode : code ≠ 0 ∧ code ≠ SPECIAL_PREFIX ∧ isPress code = true)
    (hcombine : keyOf code &&& KKC_COMBINE_MASK = 0)
    (hkey : keyOf code &&& KKC_ASCII_MASK ≠ 0 ∨ keyOf code &&& KKC_SPECIAL_MASK ≠ 0)
    (hkkc : held ||| keyOf code &&& KKC_SPECIAL_MASK ||| keyOf code &&& KKC_ASCII_MASK = kkc)
    (hcaps : kkc &&& KKC_SPECIAL_MASK ≠ KKC_CAPSLOCK)
    (hswitch : Keyboard.switchCodes.idxOf? kkc = none) :
    Keyboard.kb_handler code ⟨false, held, capslock, client⟩ =
      ([.keyDown client kkc capslock, .key client kkc capslock],
        ⟨false, held, capslock, client⟩) := by
  obtain ⟨hzero, hprefix, hpress⟩ := hcode
  have hkeyOf : KBascii.getD code.toNat 0 = keyOf code := by rw [keyOf, toNat_press hpress]
  rw [Keyboard.kb_handler, if_neg hzero, if_neg hprefix, if_neg fun h => Bool.false_ne_true h.1,
    Keyboard.code, if_pos (of_decide_eq_true hpress), hkeyOf, Keyboard.handle]
  simp only [(keyOf_cases code).1, hcombine, ne_eq, not_true_eq_false, if_false]
  rw [if_pos hkey, hkkc, Keyboard.handleShortcut, if_neg hcaps, hswitch]
  rfl

/-- With shift or without, a printable character is no shortcut. -/
theorem charKey_handle {key : BitVec 8} (hkey : key ≠ 0) (shift : Bool) :
    key.setWidth 32 &&& KKC_COMBINE_MASK = 0 ∧ key.setWidth 32 &&& KKC_ASCII_MASK ≠ 0 ∧
    onlyShift shift ||| key.setWidth 32 &&& KKC_SPECIAL_MASK ||| key.setWidth 32 &&&
      KKC_ASCII_MASK =
      charKey key shift ∧
    charKey key shift &&& KKC_SPECIAL_MASK ≠ KKC_CAPSLOCK ∧
    Keyboard.switchCodes.idxOf? (charKey key shift) = none := by
  revert key shift
  decide +kernel

/-- The key goes down: its client is given the character. -/
theorem press_char (hkey : KeyFor capslock c code shift) :
    Keyboard.kb_handler code ⟨false, onlyShift shift, capslock, client⟩ =
      ([.keyDown client (charKey (charOf code) shift) capslock,
        .key client (charKey (charOf code) shift) capslock],
        ⟨false, onlyShift shift, capslock, client⟩) := by
  obtain ⟨hcombine, hascii, hkkc, hcaps, hswitch⟩ := charKey_handle hkey.ascii.1 shift
  rw [← hkey.key] at hcombine hascii hkkc
  exact press_key hkey.press hcombine (Or.inl hascii) hkkc hcaps hswitch

/-- So does Enter. -/
theorem press_enter : Keyboard.kb_handler 0x1C ⟨false, 0, capslock, client⟩ =
    ([.keyDown client KKC_ENTER capslock, .key client KKC_ENTER capslock],
      ⟨false, 0, capslock, client⟩) :=
  press_key (by decide) (by decide) (by decide) (by decide) (by decide) (by decide)

/-- Shift goes down: it is remembered, and no client is told. -/
theorem press_shift : Keyboard.kb_handler 0x2A ⟨false, 0, capslock, client⟩ =
    ([], ⟨false, onlyShift true, capslock, client⟩) := by
  have hpending : 0 ||| KKC_SHIFT &&& KKC_COMBINE_MASK = onlyShift true := by decide
  rw [← hpending]
  rfl

/-- A key is let go, and nothing of it is left. -/
theorem release_key (hcode : code ≠ 0 ∧ code ≠ SPECIAL_PREFIX ∧ isPress code = false)
    (hlow : code ≠ 0x18) :
    k.kb_handler code = ([.keyUp k.currClient (keyOf code ||| KKC_RELEASE) k.caps_locked],
      ⟨false, k.pending_kc &&& ~~~(keyOf code &&& KKC_COMBINE_MASK), k.caps_locked,
        k.currClient⟩) := by
  obtain ⟨hzero, hprefix, hpress⟩ := hcode
  have hrelease : (keyOf code ||| KKC_RELEASE) &&& KKC_RELEASE ≠ 0 := by
    rw [BitVec.and_or_distrib_right, (keyOf_cases _).1]
    decide
  have hpart :
      (keyOf code ||| KKC_RELEASE) &&& KKC_COMBINE_MASK = keyOf code &&& KKC_COMBINE_MASK := by
    rw [BitVec.and_or_distrib_right,
      show KKC_RELEASE &&& KKC_COMBINE_MASK = 0#32 by decide, BitVec.or_zero]
  rw [Keyboard.kb_handler, if_neg hzero, if_neg hprefix, if_neg fun h => hlow h.2, Keyboard.code,
    if_neg (of_decide_eq_false hpress), ← keyOf, Keyboard.handle]
  simp only [hpart]
  rw [if_pos hrelease]

/-- The key comes up: its client is told, which is nothing to a terminal. -/
theorem release_char (hkey : KeyFor capslock c code shift) (client : Nat) : ∃ kkc,
    Keyboard.kb_handler (code ||| RELEASE_OFFSET) ⟨false, onlyShift shift, capslock, client⟩ =
      ([.keyUp client kkc capslock], ⟨false, onlyShift shift, capslock, client⟩) := by
  obtain ⟨hzero, hprefix, hpress, hsame⟩ := hkey.release
  obtain ⟨hcombine, -⟩ := charKey_handle hkey.ascii.1 shift
  have hlow : code ||| RELEASE_OFFSET ≠ 0x18 := fun h => absurd (h ▸ hpress) (by decide)
  refine ⟨keyOf (code ||| RELEASE_OFFSET) ||| KKC_RELEASE,
    (release_key ⟨hzero, hprefix, hpress⟩ hlow).trans ?_⟩
  rw [hsame, hkey.key, hcombine]
  refine congrArg (Prod.mk _) (congrArg (fun kc => Keyboard.mk false kc capslock client) ?_)
  exact BitVec.and_allOnes

/-- Shift comes up, and is forgotten. -/
theorem release_shift : Keyboard.kb_handler 0xAA ⟨false, onlyShift true, capslock, client⟩ =
    ([.keyUp client (KKC_SHIFT ||| KKC_RELEASE) capslock], ⟨false, 0, capslock, client⟩) := by
  have hnone : onlyShift true &&& ~~~(keyOf 0xAA &&& KKC_COMBINE_MASK) = 0 := by decide
  rw [release_key (by decide) (by decide), hnone]
  rfl

/-- What is done to a terminal by the keys among these. -/
def onAll (raw : Raw) (as : List KeyAction) (t : Term) : Term := as.foldl (fun t a => a.on raw t) t

/-- From `k` to `k'` only keys of client `client` come, and they do `f` to a terminal. -/
structure Types (bytes : List (BitVec 8)) (client : Nat) (raw : Raw) (f : Term → Term)
    (k k' : Keyboard) : Prop where
  /-- The keyboard ends up as `k'`. -/
  next : (k.run bytes).2 = k'
  /-- No byte switches to another client. -/
  keys : ∀ a ∈ (k.run bytes).1, a.IsKeyOf client
  /-- What comes of the bytes, one key after the other. -/
  terms : ∀ t, onAll raw (k.run bytes).1 t = f t

variable {bytes bytes' : List (BitVec 8)} {raw : Raw} {f g : Term → Term} {k' k'' : Keyboard}

/-- One after the other. -/
theorem Types.append (h : Types bytes client raw f k k') (h' : Types bytes' client raw g k' k'') :
    Types (bytes ++ bytes') client raw (g ∘ f) k k'' := by
  obtain rfl := h.next
  refine ⟨?_, fun a ha => ?_, fun t => ?_⟩
  · rw [run_append]
    exact h'.next
  · rw [run_append] at ha
    rcases List.mem_append.mp ha with ha | ha
    · exact h.keys a ha
    · exact h'.keys a ha
  · rw [run_append, onAll, List.foldl_append, ← onAll, ← onAll, h.terms, h'.terms,
      Function.comp_apply]

/-- One byte. -/
theorem Types.byte {as : List KeyAction} (h : k.kb_handler c = (as, k'))
    (hkeys : ∀ a ∈ as, a.IsKeyOf client) :
    Types [c] client raw (onAll raw as) k k' := by
  have hrun : k.run [c] = (as, k') := by
    rw [Keyboard.run, h, Keyboard.run, List.append_nil]
  refine ⟨by rw [hrun], fun a ha => ?_, fun t => by rw [hrun]⟩
  rw [hrun] at ha
  exact hkeys a ha

/-- Where there is no action, all are keys of the client; -/
theorem onlyKeys_nil {a : KeyAction} (h : a ∈ ([] : List KeyAction)) : a.IsKeyOf client :=
  absurd h List.not_mem_nil

/-- a key that comes up is one, -/
theorem onlyKeys_keyUp {kkc : BitVec 32} {a : KeyAction}
    (h : a ∈ [KeyAction.keyUp client kkc capslock]) :
    a.IsKeyOf client := by
  rw [List.mem_singleton.mp h]
  rfl

/-- and so is a key that goes down. -/
theorem onlyKeys_key {kkc : BitVec 32} {a : KeyAction}
    (h : a ∈ [KeyAction.keyDown client kkc capslock, .key client kkc capslock]) :
    a.IsKeyOf client := by
  rcases List.mem_cons.mp h with rfl | h
  · rfl
  · rw [List.mem_singleton.mp h]
    rfl

/-- The key of a character is pressed and let go. -/
theorem types_key (hkey : KeyFor capslock c code shift) :
    Types [code, code ||| RELEASE_OFFSET] client raw
    (Term.edit · (.char raw (charOf code) shift capslock))
      ⟨false, onlyShift shift, capslock, client⟩
    ⟨false, onlyShift shift, capslock, client⟩ := by
  obtain ⟨kkc, hrelease⟩ := release_char hkey client
  exact (Types.byte (press_char hkey) fun _ => onlyKeys_key).append
    (Types.byte hrelease fun _ => onlyKeys_keyUp)

/-- **A stroke** is the key, and nothing is held afterwards. -/
theorem types_strokes (capslock : Bool) (client : Nat) (raw : Raw) (hc : Printable c) :
    ∃ key shift, keyChar key shift capslock = c ∧ key.toNat < 128 ∧
    ¬ (0x41 ≤ key.toNat ∧ key.toNat ≤ 0x5A) ∧
      Types (strokes capslock c) client raw (Term.edit · (.char raw key shift capslock))
      ⟨false, 0, capslock, client⟩
      ⟨false, 0, capslock, client⟩ := by
  obtain ⟨code, shift, hfor, hkey⟩ := keyFor_spec capslock hc
  refine ⟨charOf code, shift, hkey.char, hkey.ascii.2.1, hkey.ascii.2.2, ?_⟩
  rw [strokes, hfor]
  cases shift with
  | false => exact types_key hkey
  | true =>
    have hdown :
        Types [0x2A] client raw id ⟨false, 0, capslock, client⟩
          ⟨false, onlyShift true, capslock, client⟩ :=
      Types.byte press_shift fun _ => onlyKeys_nil
    have hup : Types [0xAA] client raw id ⟨false, onlyShift true, capslock, client⟩
        ⟨false, 0, capslock, client⟩ :=
      Types.byte release_shift fun _ => onlyKeys_keyUp
    exact (hdown.append (types_key hkey)).append hup

end Bytes

/-! ## A line

  A stroke for every character of the line, and Enter.  By induction on the line the buffer is
  the line so far, and shift is up again after each stroke, so that the next one means what it
  should. -/

section Line

variable {k : Keyboard} {raw : Raw}

/-- All keys are let go. -/
theorem types_letGo (hk : ∃ ctrl alt shift, k.pending_kc = heldKeys ctrl alt shift) :
    Types [0x9D, 0xB8, 0xAA] k.currClient raw id k ⟨false, 0, k.caps_locked, k.currClient⟩ := by
  obtain ⟨ctrl, alt, shift, hheld⟩ := hk
  have hnone :
      k.pending_kc &&& ~~~(keyOf 0x9D &&& KKC_COMBINE_MASK) &&&
      ~~~(keyOf 0xB8 &&& KKC_COMBINE_MASK) &&&
      ~~~(keyOf 0xAA &&& KKC_COMBINE_MASK) = 0 := by
    rw [hheld]
    clear hheld
    revert ctrl alt shift
    decide
  have hctrl : Types [0x9D] k.currClient raw _ k _ :=
    Types.byte (release_key (by decide) (by decide)) fun _ => onlyKeys_keyUp
  have halt : Types [0xB8] k.currClient raw _
      ⟨false, k.pending_kc &&& ~~~(keyOf 0x9D &&& KKC_COMBINE_MASK), k.caps_locked, k.currClient⟩
        _ :=
    Types.byte (release_key (by decide) (by decide)) fun _ => onlyKeys_keyUp
  have hshift :
      Types [0xAA] k.currClient raw _
      ⟨false, k.pending_kc &&& ~~~(keyOf 0x9D &&& KKC_COMBINE_MASK) &&&
      ~~~(keyOf 0xB8 &&& KKC_COMBINE_MASK), k.caps_locked, k.currClient⟩ _ :=
    Types.byte (release_key (by decide) (by decide)) fun _ => onlyKeys_keyUp
  have hall := (hctrl.append halt).append hshift
  dsimp only at hall
  rw [hnone] at hall
  exact hall

/-- The characters of a line. -/
theorem types_line (capslock : Bool) (client : Nat) (raw : Raw) (line : List (BitVec 8))
    (hline : ∀ c ∈ line, Printable c) :
    ∃ edits : List Edit,
      Types (line.flatMap (strokes capslock)) client raw (fun t => edits.foldl Term.edit t)
      ⟨false, 0, capslock, client⟩ ⟨false, 0, capslock, client⟩ ∧
    ∀ l, edits.foldl editLine l = line.foldl appendChar l := by
  induction line with
  | nil => exact ⟨[], ⟨rfl, fun _ => onlyKeys_nil, fun _ => rfl⟩, fun _ => rfl⟩
  | cons c line ih =>
    obtain ⟨edits, htypes, hedits⟩ := ih fun c' hc' => hline c' (List.mem_cons_of_mem c hc')
    obtain ⟨key, shift, hchar, hlt, hsmall, hstroke⟩ := types_strokes capslock client raw
      (hline c List.mem_cons_self)
    refine ⟨.char raw key shift capslock :: edits, hstroke.append htypes, fun l => ?_⟩
    rw [List.foldl_cons, List.foldl_cons, hedits, editLine, typedChar_key hlt hsmall, hchar]

/-- What does not go into the line is dropped. -/
theorem foldl_appendChar (line : List (BitVec 8)) {l : List (BitVec 8)} (hl : l.length ≤ 127) :
    line.foldl appendChar l = (l ++ line).take 127 := by
  induction line generalizing l with
  | nil => rw [List.foldl_nil, List.append_nil, List.take_of_length_le hl]
  | cons c line ih =>
    rw [List.foldl_cons, appendChar]
    split
    · next hlt =>
      rw [ih (by rw [List.length_append, List.length_singleton]; omega), List.append_assoc,
        List.singleton_append]
    · next hfull =>
      have hlen : l.length = 127 := by omega
      rw [ih hl, List.take_append_of_le_length (by omega), List.take_append_of_le_length (by omega)]

/-- **What is typed** is what the keys do to the line, and Enter. -/
theorem types_typing (hk : ∃ ctrl alt shift, k.pending_kc = heldKeys ctrl alt shift) (raw : Raw)
    (line : List (BitVec 8)) (hline : ∀ c ∈ line, Printable c) : ∃ edits : List Edit,
    Types (typing k.caps_locked line) k.currClient raw
      (fun t => (edits.foldl Term.edit t).key raw KKC_ENTER k.caps_locked) k
        ⟨false, 0, k.caps_locked, k.currClient⟩ ∧
    ∀ l, l.length ≤ 127 → edits.foldl editLine l = (l ++ line).take 127 := by
  obtain ⟨edits, htypes, hedits⟩ := types_line k.caps_locked k.currClient raw line hline
  have henter : Types [0x1C] k.currClient raw (Term.key raw KKC_ENTER k.caps_locked)
      ⟨false, 0, k.caps_locked, k.currClient⟩ ⟨false, 0, k.caps_locked, k.currClient⟩ :=
    Types.byte press_enter fun _ => onlyKeys_key
  refine ⟨edits, ((types_letGo hk).append htypes).append henter, fun l hl => ?_⟩
  rw [hedits, foldl_appendChar line hl]

end Line

namespace Consoles

variable {s : Consoles}

/-- The keyboard sends bytes of which only keys come. -/
theorem Good.types (h : Good s) (hon : s.interrupts = true) (raw : Raw) (bytes : List (BitVec 8))
    (has : ∀ a ∈ (s.keyboard.run bytes).1, a.IsKeyOf s.keyboard.currClient) :
    ∃ s', Run machine Possible s (bytes.map (.scancode raw)) s' ∧
      Follows s.keyboard.currClient s s' ∧ s'.keyboard = (s.keyboard.run bytes).2 ∧
      s'.keyboard.currClient = s.keyboard.currClient ∧ s'.interrupts = true ∧
        ∀ i : Fin numTextTerms, i.val = s.keyboard.currClient →
        s'.terms i = onAll raw (s.keyboard.run bytes).1 (s.terms i) := by
  induction bytes using List.reverseRecOn with
  | nil => exact ⟨s, .nil, .same h fun _ => rfl, rfl, rfl, hon, fun _ _ => rfl⟩
  | append_singleton bytes c ih =>
    have hlast : (s.keyboard.run bytes).2.run [c] =
        ((s.keyboard.run bytes).2.kb_handler c) := by
      rw [Keyboard.run, Keyboard.run, List.append_nil]
    rw [run_append, hlast] at has
    obtain ⟨s₁, hr, hfollows, hkeyboard, hcurr, hon₁, hterm⟩ := ih fun a ha =>
      has a (List.mem_append_left _ ha)
    have hkeys : ∀ a ∈ (s₁.keyboard.kb_handler c).1, a.IsKeyOf s₁.keyboard.currClient :=
      fun a ha => by
      rw [hcurr]
      rw [hkeyboard] at ha
      exact has a (List.mem_append_right _ ha)
    -- a switch would hide the client
    have hcurr₁ : (s₁.keyboard.kb_handler c).2.currClient = s₁.keyboard.currClient := by
      have hresult := kb_handler_result c s₁.keyboard
      generalize s₁.keyboard.kb_handler c = r at hkeys hresult ⊢
      cases hresult with
      | keys _ hsame => exact hsame
      | switch _ _ => exact absurd (hkeys (.hide _) (List.mem_cons_of_mem _ List.mem_cons_self)) id
    obtain ⟨s₂, hs₂, hfollows₂, hkeyboard₂, hon₂, hterm₂⟩ :=
      hfollows.good.scancode raw c hkeys hcurr₁
    rw [hcurr] at hfollows₂ hterm₂ hcurr₁
    refine ⟨s₂, ?_, hfollows.trans hfollows₂, ?_, ?_, hon₂.trans hon₁, fun i hi => ?_⟩
    · rw [List.map_append]
      exact hr.snoc hon₁ hs₂
    · rw [run_append, hlast, hkeyboard₂, hkeyboard]
    · rw [hkeyboard₂, hcurr₁]
    · rw [hterm₂ i hi, hterm i hi, run_append, hlast, ← hkeyboard, onAll, onAll, List.foldl_append]

/-- **Any line can be typed.**  In every run, whatever keys are held and whether the capitals are
    locked: the bytes of the strokes for a line of printable characters, and of Enter, go to the
    program that waits at the terminal that is shown as that line, after what had been typed before,
    up to 127 characters, and the newline; it gets as much of that as it asked for, once, and the
    other terminals are as they were. -/
theorem line_typed (s : Consoles) (hr : Reach machine Possible s) (hon : s.interrupts = true)
    (i : Fin numTextTerms) (hi : i.val = s.keyboard.currClient) (pid buf nbytes : BitVec 32)
    (hread : (s.terms i).Registered pid buf nbytes) (raw : Raw) (line : List (BitVec 8))
    (hline : ∀ c ∈ line, Printable c) :
    ∃ s', Run machine Possible s ((typing s.keyboard.caps_locked line).map (.scancode raw)) s' ∧
      Delivered (s.terms i) (s'.terms i) pid buf
        ((((s.terms i).line ++ line).take 127 ++ [0x0A]).take nbytes.toNat) ∧
      ∀ j, j ≠ i → s'.console j = s.console j := by
  have h : Good s := good_of_reach hr
  obtain ⟨edits, htypes, hedits⟩ := types_typing h.held raw line hline
  obtain ⟨s', hrun, hfollows, -, -, -, hterm⟩ := h.types hon raw _ htypes.keys
  refine ⟨s', hrun, ?_, fun j hj => hfollows.others j fun hji => hj (Fin.ext (hji.trans hi.symm))⟩
  obtain ⟨hedited, hdraws, hresult⟩ := edits_spec (h.onScreen i) edits
  have hreader : (edits.foldl Term.edit (s.terms i)).Registered pid buf nbytes :=
    ⟨hdraws.waiting.trans hread.waiting, hdraws.owner.trans hread.owner,
      hdraws.buffer.trans hread.buffer, hdraws.length.trans hread.length⟩
  have hlen : (s.terms i).line.length ≤ 127 := by
    rw [Term.length_line]
    exact (h.onScreen i).pos
  rw [hterm i hi, htypes.terms, key_enter, ← hedits _ hlen, ← hresult]
  exact (enter_delivers hedited hreader).between hdraws (Draws.refl _).moveCursor rfl

/-- The command `ls`, for a shell that reads up to 80 characters. -/
theorem line_typed_command : ∃ s s' : Consoles,
    Delivered (s.terms getFirstTextTerm) (s'.terms getFirstTextTerm) 1 0x8048000
      [0x6C, 0x73, 0x0A] := by
  obtain ⟨s, hr, hon, hkeyboard, hterms⟩ := exists_booted
  have hvalid :
      Syscalls.validUserPointer false ⟨fun _ => Palloc.PG_4MB_BASE ||| Palloc.PG_USER, fun _ _ => 0⟩
      0x8048000 = true := by
    decide
  let e : Event :=
    .read false ⟨fun _ => Palloc.PG_4MB_BASE ||| Palloc.PG_USER, fun _ _ => 0⟩ 1 0x8048000 80
  obtain ⟨s₁, hs₁, hfollows, hkeyboard₁, hon₁, hterm⟩ := (good_of_reach hr).event getFirstTextTerm e
  have hread : s₁.terms getFirstTextTerm = (Term.new.read 1 0x8048000 80).2 := by
    rw [hterm, hterms, Term.event, if_pos hvalid]
  have hwaits : ((Term.new.read 1 0x8048000 80).2).Registered 1 0x8048000 80 :=
    (read_waits (by decide)).1
  have hr₁ : Reach machine Possible s₁ := hr.step (a := .term getFirstTextTerm e) trivial hs₁
  obtain ⟨s₂, -, hdelivered, -⟩ := line_typed s₁ hr₁ (hon₁.trans hon) getFirstTextTerm
    (by rw [hkeyboard₁, hkeyboard]; rfl) 1 0x8048000 80 (hread ▸ hwaits) ⟨⟨0, 0, 0⟩, fun _ => 0⟩
      [0x6C, 0x73]
    (by unfold Printable; decide)
  refine ⟨s₁, s₂, ?_⟩
  have hempty : (s₁.terms getFirstTextTerm).line = [] := by
    rw [hread]
    decide
  rw [hempty] at hdelivered
  exact hdelivered

end Consoles

end TedkOS.Drivers
