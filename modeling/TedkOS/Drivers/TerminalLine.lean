/-
  The line typed into a waiting `read`.

  1. **Keys** — what the keys of an American keyboard type, and the keys that edit the line.

  2. **The line** — the buffer as a list (`Term.line`): a character is appended if fewer than 127
     are there, a backspace takes the last one back.  One lemma per handler; the invariant
     `OnScreen` keeps the position in the buffer in range.

  3. **Delivery** — Enter appends the newline, for which there is room in any case, gives the reader
     what it asked for and empties the buffer (`read_delivers`).
-/
import TedkOS.Drivers.TerminalWait

namespace TedkOS.Drivers

open Runs Syscalls

/-! ## Keys -/

/-- The key code of a printable key. -/
def charKey (c : BitVec 8) (shift : Bool) : BitVec 32 :=
  c.setWidth 32 ||| if shift then KKC_SHIFT else 0

/-- A key that edits the line. -/
inductive Edit where
  | char (raw : Raw) (c : BitVec 8) (shift capslock : Bool)
  | tab (raw : Raw) (capslock : Bool)
  | backspace (raw : Raw) (capslock : Bool)

/-- What the terminal does with it. -/
def Term.edit (t : Term) : Edit → Term
  | .char raw c shift capslock => t.key raw (charKey c shift) capslock
  | .tab raw capslock => t.key raw KKC_TAB capslock
  | .backspace raw capslock => t.key raw KKC_BACKSPACE capslock

/-- One more character, unless 127 are there. -/
def appendChar (l : List (BitVec 8)) (c : BitVec 8) : List (BitVec 8) :=
  if l.length < 127 then l ++ [c] else l

/-- What a key does to the line. -/
def editLine (l : List (BitVec 8)) : Edit → List (BitVec 8)
  | .char raw c shift capslock => appendChar l (Term.typedChar raw (charKey c shift) capslock)
  | .tab _ _ => appendChar l 0x09
  | .backspace _ _ => l.dropLast

section Keys

variable {raw : Raw} {c : BitVec 8} {shift capslock : Bool}

/-- A printable key is neither a special nor a combined one. -/
theorem charKey_plain (c : BitVec 8) (shift : Bool) :
    charKey c shift &&& ~~~KKC_ASCII_MASK &&& ~~~KKC_SHIFT = 0 := by
  revert c shift
  decide +kernel

/-- The character is in the low bits of its key code. -/
theorem charKey_ascii (c : BitVec 8) (shift : Bool) :
    (charKey c shift &&& KKC_ASCII_MASK).setWidth 8 = c := by
  revert c shift
  decide +kernel

/-- The character of a key: letters follow shift and caps lock, other keys shift alone. -/
def keyChar (c : BitVec 8) (shift capslock : Bool) : BitVec 8 :=
  if 0x61 ≤ c.toNat ∧ c.toNat ≤ 0x7A then if shift = capslock then c else c - 0x20
  else if shift then ((shifted.lookup c.toNat).map (BitVec.ofNat 8)).getD c
  else c

/-- The memory behind the table does not matter for an ASCII code. -/
theorem typedChar_congr (raw raw' : Raw) (hc : c.toNat < 128) :
    Term.typedChar raw (charKey c shift) capslock =
      Term.typedChar raw' (charKey c shift) capslock := by
  have hindex : (c.signExtend 32).toNat < 128 := by
    revert c
    decide +kernel
  have htable :
      ascii_shift_table raw (c.signExtend 32) = ascii_shift_table raw' (c.signExtend 32) := by
    rw [ascii_shift_table, ascii_shift_table, if_pos hindex, if_pos hindex]
  simp only [Term.typedChar, charKey_ascii, htable]

/-- **What a key of the keyboard types.**  Its code is never that of a capital letter. -/
theorem typedChar_key (hc : c.toNat < 128) (hsmall : ¬ (0x41 ≤ c.toNat ∧ c.toNat ≤ 0x5A)) :
    Term.typedChar raw (charKey c shift) capslock = keyChar c shift capslock := by
  rw [typedChar_congr raw ⟨⟨0, 0, 0⟩, fun _ => 0⟩ hc]
  revert c shift capslock
  decide +kernel

end Keys

/-! ## The line

  The line is the characters of the items, in order.  A lemma for each handler says what becomes
  of it, whatever happens on the screen. -/

section Line

variable {t t' : Term} {rec : term_buf_item} {raw : Raw}

/-- The line is in the buffer and nowhere else. -/
theorem line_congr (hpos : t'.term_buf_pos = t.term_buf_pos) (hbuf : t'.term_buf = t.term_buf) :
    t'.line = t.line := by
  rw [Term.line, hpos, hbuf, Term.line]

/-- Going to the next line of the screen leaves the line typed. -/
theorem line_lineDown : t.lineDown.line = t.line := by
  obtain ⟨-, hbuf, hpos, -, -⟩ := OnScreen.lineDown_same (t := t)
  exact line_congr hpos hbuf

/-- An item more. -/
theorem line_push (hpos : t.term_buf_pos ≤ 127) :
    (t.push rec).line = t.line ++ [rec.displayed_char] := by
  have hnext : (t.push rec).term_buf_pos = t.term_buf_pos + 1 := by
    show uint32_t (t.term_buf_pos + 1) = _
    unfold uint32_t
    omega
  rw [Term.line, hnext, List.range_succ, List.map_append, List.map_singleton, Term.line]
  congr 1
  · refine List.map_congr_left fun i hi => ?_
    show (Function.update t.term_buf t.term_buf_pos rec i).displayed_char = _
    rw [update_below (List.mem_range.mp hi)]
  · show [(Function.update t.term_buf t.term_buf_pos rec t.term_buf_pos).displayed_char] = _
    rw [Function.update_self]

/-- A character is appended, -/
theorem line_typeChar (h : OnScreen t) (c : BitVec 8) :
    (t.typeChar c).line = appendChar t.line c := by
  rw [Term.typeChar, appendChar, Term.length_line]
  by_cases hroom : t.term_buf_pos < 127
  · rw [if_pos (show t.term_buf_pos < TERM_BUFFER_SIZE - 1 from hroom), if_pos hroom]
    dsimp only
    split
    · rw [line_push (by rw [OnScreen.lineDown_same.2.2.1]; exact h.pos), line_lineDown]
      rfl
    · exact line_push h.pos
  · rw [if_neg (show ¬ t.term_buf_pos < TERM_BUFFER_SIZE - 1 from hroom), if_neg hroom]

/-- and so is a tab, as one character; -/
theorem line_tab (h : OnScreen t) : t.nolock_tab_handler.line = appendChar t.line 0x09 := by
  rw [Term.nolock_tab_handler, appendChar, Term.length_line]
  rcases Nat.lt_or_ge t.term_buf_pos 127 with hroom | hfull
  · rw [if_neg (show ¬ t.term_buf_pos ≥ TERM_BUFFER_SIZE - 1 from Nat.not_le_of_lt hroom),
      if_pos hroom]
    dsimp only
    split
    · rw [line_push (by rw [OnScreen.lineDown_same.2.2.1]; exact h.pos), line_lineDown]
      rfl
    · exact line_push h.pos
  · rw [if_pos (show t.term_buf_pos ≥ TERM_BUFFER_SIZE - 1 from hfull),
      if_neg (Nat.not_lt_of_le hfull)]

/-- the blanks it shows are on the screen only. -/
theorem showBlanks_same (first last : Nat) : ∃ log, t.showBlanks first last = { t with log } := by
  rw [Term.showBlanks]
  generalize (List.range (last + 1 - first)).map (first + ·) = cells
  induction cells generalizing t with
  | nil => exact ⟨t.log, rfl⟩
  | cons j cells ih =>
    obtain ⟨log, hsame⟩ := ih (t := t.emit (.showChar j t.next_char_y 0x20))
    exact ⟨log, by rw [List.foldl_cons, hsame]; rfl⟩

/-- An item less. -/
theorem line_pop (hpos : 0 < t.term_buf_pos) (hle : t.term_buf_pos ≤ 127) :
    { t with term_buf_pos := uint32_t (t.term_buf_pos + 0xFFFFFFFF) : Term }.line =
      t.line.dropLast := by
  obtain ⟨n, hn⟩ : ∃ n, t.term_buf_pos = n + 1 := ⟨t.term_buf_pos - 1, by omega⟩
  have hback : uint32_t (t.term_buf_pos + 0xFFFFFFFF) = n := by
    rw [hn]
    unfold uint32_t
    omega
  rw [hback, Term.line, Term.line, hn, List.range_succ, List.map_append, List.map_singleton,
    List.dropLast_concat]

/-- A backspace takes the last one back. -/
theorem line_backspace (h : OnScreen t) : t.nolock_backspace_handler.line = t.line.dropLast := by
  rw [Term.nolock_backspace_handler]
  by_cases hpos : t.term_buf_pos > 0
  · rw [if_pos hpos]
    have hblanks : ∀ (t' : Term) (first last : Nat), t'.term_buf_pos = t.term_buf_pos →
        t'.term_buf = t.term_buf →
        { t'.showBlanks first last with
          term_buf_pos := uint32_t ((t'.showBlanks first last).term_buf_pos + 0xFFFFFFFF) :
            Term }.line =
        t.line.dropLast := by
      intro t' first last hpos' hbuf'
      obtain ⟨log, hsame⟩ := showBlanks_same (t := t') first last
      rw [hsame, ← line_congr hpos' hbuf']
      exact line_pop (t := { t' with log }) (hpos' ▸ hpos) (hpos' ▸ h.pos)
    dsimp only
    split
    · exact hblanks _ _ _ rfl rfl
    · exact hblanks _ _ _ rfl rfl
  · have hnil : t.line = [] := by
      rw [← List.length_eq_zero_iff, Term.length_line]
      omega
    rw [if_neg hpos, hnil, List.dropLast_nil]

/-! ### Keys that edit

  A key is a character, tab or backspace, and does to the line what `editLine` says.  The edits
  do not concern the reader (`draws_edit`), so it still waits when Enter comes. -/

/-- The handlers of the keys: a character, -/
theorem key_char (c : BitVec 8) (shift capslock : Bool) : t.key raw (charKey c shift) capslock =
    (t.typeChar (Term.typedChar raw (charKey c shift) capslock)).moveCursor := by
  rw [Term.key, if_neg (not_not.mpr (charKey_plain c shift))]

/-- a tab, -/
theorem key_tab (capslock : Bool) :
    t.key raw KKC_TAB capslock = t.nolock_tab_handler.moveCursor := by
  rw [Term.key, if_pos (by decide), if_neg (by decide), if_neg (by decide), if_pos (by decide)]

/-- and a backspace; each ends with the cursor. -/
theorem key_backspace (capslock : Bool) :
    t.key raw KKC_BACKSPACE capslock = t.nolock_backspace_handler.moveCursor := by
  rw [Term.key, if_pos (by decide), if_neg (by decide), if_pos (by decide)]

/-- Each keeps the terminal in range. -/
theorem OnScreen.edit (h : OnScreen t) (e : Edit) : OnScreen (t.edit e) := by
  cases e with
  | char raw c shift capslock => exact h.key raw _ capslock
  | tab raw capslock => exact h.key raw _ capslock
  | backspace raw capslock => exact h.key raw _ capslock

/-- **One key** edits the line. -/
theorem line_edit (h : OnScreen t) (e : Edit) : (t.edit e).line = editLine t.line e := by
  cases e with
  | char raw c shift capslock =>
    rw [Term.edit, key_char]
    exact line_typeChar h _
  | tab raw capslock =>
    rw [Term.edit, key_tab]
    exact line_tab h
  | backspace raw capslock =>
    rw [Term.edit, key_backspace]
    exact line_backspace h

/-- And none of them does anything but draw, until Enter. -/
theorem draws_edit (e : Edit) : Draws t (t.edit e) := by
  cases e with
  | char raw c shift capslock =>
    rw [Term.edit, key_char]
    exact (Draws.typeChar _).moveCursor
  | tab raw capslock =>
    rw [Term.edit, key_tab]
    exact Draws.tab.moveCursor
  | backspace raw capslock =>
    rw [Term.edit, key_backspace]
    exact Draws.backspace.moveCursor

/-- **Any keys.** -/
theorem edits_spec (h : OnScreen t) (es : List Edit) : OnScreen (es.foldl Term.edit t) ∧
    Draws t (es.foldl Term.edit t) ∧ (es.foldl Term.edit t).line = es.foldl editLine t.line := by
  induction es generalizing t with
  | nil => exact ⟨h, Draws.refl t, rfl⟩
  | cons e es ih =>
    obtain ⟨hscreen, hdraws, hline⟩ := ih (h.edit e)
    refine ⟨hscreen, (draws_edit e).trans hdraws, ?_⟩
    rw [List.foldl_cons, hline, line_edit h, List.foldl_cons]

end Line

/-! ## Delivery -/

section Delivery

variable {t t' : Term} {pid buf nbytes : BitVec 32} {raw : Raw}

/-- A read that waits is registered, and leaves the line. -/
theorem read_waits (h : (t.read pid buf nbytes).1 = none) :
    (t.read pid buf nbytes).2.Registered pid buf nbytes ∧
    (t.read pid buf nbytes).2.line = t.line := by
  have howned : ∀ t' : Term, t'.OwnedByPid = pid → (t'.readOwned pid buf nbytes).1 = none →
      (t'.readOwned pid buf nbytes).2.Registered pid buf nbytes ∧
      (t'.readOwned pid buf nbytes).2.line = t'.line := by
    intro t' howner hnone
    rw [Term.readOwned] at hnone ⊢
    by_cases hwait : t'.term_buf_pos < nbytes.toNat
    · rw [if_pos hwait]
      exact ⟨⟨rfl, howner, rfl, rfl⟩, rfl⟩
    · rw [if_neg hwait] at hnone
      exact absurd hnone (Option.some_ne_none _)
  rw [Term.read] at h ⊢
  by_cases hfree : t.OwnedByPid = -1
  · rw [if_pos hfree] at h ⊢
    exact howned _ rfl h
  · rw [if_neg hfree] at h ⊢
    by_cases hother : t.OwnedByPid ≠ pid
    · rw [if_pos hother] at h
      exact absurd h (Option.some_ne_none _)
    · rw [if_neg hother] at h ⊢
      exact howned t (not_not.mp hother) h

/-- From `t` to `t'` process `pid` was given these characters once, with their number as the result
    of its `read`, and nothing else has happened but on the screen. -/
structure Delivered (t t' : Term) (pid buf : BitVec 32) (chars : List (BitVec 8)) : Prop where
  /-- The bytes are copied and the reader is woken with their number, and besides that the
      terminal has only drawn. -/
  log : ∃ es es',
    t'.log = t.log ++
    (es ++ [.copy buf chars, .unblock pid (BitVec.ofNat 32 chars.length)] ++ es') ∧
    (∀ e ∈ es, e.Drawing) ∧ ∀ e ∈ es', e.Drawing
  /-- The line is empty again, -/
  empty : t'.line = []
  /-- and nobody waits. -/
  waiting : t'.UserWaitingRead = false

/-- **Enter** gives the reader the line with its newline. -/
theorem enter_delivers (h : OnScreen t) (hread : t.Registered pid buf nbytes) :
    Delivered t (t.nolock_enter_handler raw) pid buf ((t.line ++ [0x0A]).take nbytes.toNat) := by
  have hdraws : Draws t (t.endLine raw) := draws_endLine
  obtain ⟨es, hes, hdrawing⟩ := hdraws.log
  have hline : (t.endLine raw).line = t.line ++ [0x0A] := by
    have hpos : ({ t with next_char_x := 0 }.lineDown).term_buf_pos ≤ 127 := by
      rw [OnScreen.lineDown_same.2.2.1]
      exact h.pos
    rw [Term.endLine, line_push hpos, line_lineDown]
    rfl
  have hbuf := h.waiting hread.waiting
  rw [enter_eq hread.waiting hbuf, hline, hread.buffer, hread.owner, hread.length]
  constructor
  case log =>
    refine ⟨es, [], ?_, hdrawing, fun e he => absurd he List.not_mem_nil⟩
    rw [List.append_nil, ← List.append_assoc, ← hes]
    show ((t.endLine raw).log ++ [_]) ++ [_] = _
    rw [List.append_assoc, List.singleton_append]
  case empty => rfl
  case waiting => rfl

/-- What is drawn before and after does not matter. -/
theorem Delivered.between {t₀ t₁ : Term} {chars : List (BitVec 8)}
    (h : Delivered t t' pid buf chars) (hbefore : Draws t₀ t) (hafter : Draws t' t₁)
    (hline : t₁.line = t'.line) :
    Delivered t₀ t₁ pid buf chars := by
  obtain ⟨es, es', hlog, hes, hes'⟩ := h.log
  obtain ⟨ds, hds, hdrawn⟩ := hbefore.log
  obtain ⟨ds', hds', hdrawn'⟩ := hafter.log
  refine ⟨⟨ds ++ es, es' ++ ds', ?_, fun e he => ?_, fun e he => ?_⟩, hline.trans h.empty,
    hafter.waiting.trans h.waiting⟩
  · rw [hds', hlog, hds]
    simp only [List.append_assoc]
  · rcases List.mem_append.mp he with he | he
    · exact hdrawn e he
    · exact hes e he
  · rcases List.mem_append.mp he with he | he
    · exact hes' e he
    · exact hdrawn' e he

end Delivery

/-- **A line is delivered.**  In every reachable state: if `read` waits, then whatever keys edit the
    line before Enter, the reader gets the first bytes of the line and its newline, as many as it
    asked for or as there are, once, with their number as the result; and the buffer is empty. -/
theorem read_delivers (t : Term) (hr : Reach terminal (fun _ _ => True) t) (isKernel : Bool)
    (mem : AddressSpace) (pid buf nbytes : BitVec 32)
    (hvalid : validUserPointer isKernel mem buf = true) (hwaits : (t.read pid buf nbytes).1 = none)
    (edits : List Edit) (raw : Raw) (capslock : Bool) :
    let line := edits.foldl editLine t.line
    let chars := (line ++ [0x0A]).take nbytes.toNat
    line.length ≤ 127 ∧ chars.length = min nbytes.toNat (line.length + 1) ∧
    Delivered (t.read pid buf nbytes).2
      ((edits.foldl Term.edit (t.read pid buf nbytes).2).key raw KKC_ENTER capslock) pid buf
        chars := by
  have hscreen : OnScreen (t.read pid buf nbytes).2 :=
    (onScreen_of_reach hr).read pid nbytes (ne_zero_of_validUserPointer hvalid)
  obtain ⟨hreader, hkept⟩ := read_waits hwaits
  obtain ⟨hedited, hdraws, hline⟩ := edits_spec hscreen edits
  rw [hkept] at hline
  have hreader' : (edits.foldl Term.edit (t.read pid buf nbytes).2).Registered pid buf nbytes :=
    ⟨hdraws.waiting.trans hreader.waiting, hdraws.owner.trans hreader.owner,
      hdraws.buffer.trans hreader.buffer, hdraws.length.trans hreader.length⟩
  refine ⟨?_, ?_, ?_⟩
  · rw [← hline, Term.length_line]
    exact hedited.pos
  · rw [List.length_take, List.length_append, List.length_singleton]
  · rw [key_enter, ← hline]
    exact (enter_delivers hedited hreader').between hdraws (Draws.refl _).moveCursor rfl

/-- A capital letter, a letter taken back, a tab. -/
theorem read_delivers_edited :
    let raw : Raw := ⟨⟨0, 0, 0⟩, fun _ => 0⟩
    let edits : List Edit :=
      [.char raw 0x61 true false, .char raw 0x62 false false, .backspace raw false,
      .tab raw false]
    Delivered (Term.new.read 1 0x8048000 80).2
      ((edits.foldl Term.edit (Term.new.read 1 0x8048000 80).2).key raw KKC_ENTER false) 1 0x8048000
      [0x41, 0x09, 0x0A] := by
  intro raw edits
  have hvalid :
      validUserPointer false ⟨fun _ => Palloc.PG_4MB_BASE ||| Palloc.PG_USER, fun _ _ => 0⟩
      0x8048000 = true := by
    decide
  have h := (read_delivers Term.new (.init rfl) false _ 1 0x8048000 80 hvalid (by decide) edits raw
    false).2.2
  have hline : edits.foldl editLine Term.new.line = [0x41, 0x09] := by decide
  rw [hline] at h
  exact h

end TedkOS.Drivers
