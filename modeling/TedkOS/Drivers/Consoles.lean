/-
  The keyboard, the six text terminals and their screens, together (drivers/keyboard.cpp,
  drivers/terminal.cpp, drivers/txtmode.cpp, init/init.cpp).

  Keys go to the client that is shown.  Programs write to their terminals and read from them
  meanwhile, shown or not, and the scheduler switches between them.  One text memory and one cursor
  serve all the terminals.

  1. **Program** — a byte from the keyboard is `kb_handler`, and what it asks of the clients; what a
     terminal asks of its painter is done to its screen.

  2. **Calls of a terminal** — what the painter is asked for, if it is in range, is done to this
     terminal's screen, and to no other (`become_spec`).

  3. **Refinement** — in every run, whatever the order, each terminal with its screen is a console
     of its own (`consoles_refine`), so what holds of every console holds of each of them; nothing
     fails; and the text memory has the terminal that the keyboard writes to.
-/
import TedkOS.Drivers.Keyboard
import TedkOS.Drivers.TerminalUndo

namespace TedkOS.Drivers

open Runs

/-! ## Program -/

/-- The keyboard, the terminals it writes to, and what they are shown on. -/
structure Consoles where
  keyboard : Keyboard
  terms : Fin numTextTerms → Term
  text : KbClients
  /-- Interrupts are on. -/
  interrupts : Bool

/-- What happens to the consoles. -/
inductive ConsolesEvent where
  /-- The keyboard sends a byte. -/
  | scancode (raw : Raw) (c : BitVec 8)
  /-- A program, or the kernel, uses terminal `i`. -/
  | term (i : Fin numTextTerms) (e : Event)
  /-- `init_main`: the first terminal is shown, and interrupts are turned on. -/
  | boot
  /-- The process of thread `pcb`, with its terminal, is switched to. -/
  | schedule (pcb : BitVec 32) (currTerm : Option (Fin numTextTerms))

namespace Consoles

/-- The calls of a painter, one after the other. -/
def callAll (i : Fin numTextTerms) : List Effect → KbClients → Option KbClients
  | [], s => some s
  | e :: es, s => (s.call i e).bind (callAll i es)

/-- Terminal `i` becomes `term`, and its painter does what it has been asked for meanwhile. -/
def become (i : Fin numTextTerms) (term : Term) (s : Consoles) : Option Consoles :=
  (callAll i (term.log.drop (s.terms i).log.length) s.text).map fun text =>
    { s with terms := Function.update s.terms i term, text }

/-- What the driver asks of a client; the seventh one is not a text terminal. -/
def act (raw : Raw) (s : Consoles) : KeyAction → Option Consoles
  | .keyUp _ _ _ => some s
  | .keyDown _ _ _ => some s
  | .key client kkc capslock =>
    if h : client < numTextTerms
      then s.become ⟨client, h⟩ ((s.terms ⟨client, h⟩).key raw kkc capslock) else some s
  | .hide client =>
    some (if h : client < numTextTerms then { s with text := s.text.hide ⟨client, h⟩ } else s)
  | .show client =>
    some (if h : client < numTextTerms then
      { s with text := { s.text.show ⟨client, h⟩ with currClient := ⟨client, h⟩ } }
    else s)

/-- What the driver asks of the clients, in order. -/
def actAll (raw : Raw) : List KeyAction → Consoles → Option Consoles
  | [], s => some s
  | a :: as, s => (s.act raw a).bind (actAll raw as)

/-- What one event does, if nothing is out of range.  What a terminal is given goes into its log,
    and `become` performs that on its screen. -/
def step (s : Consoles) : ConsolesEvent → Option Consoles
  | .scancode raw c =>
    let r := s.keyboard.kb_handler c
    actAll raw r.1 { s with keyboard := r.2 }
  | .term i e => s.become i ((s.terms i).event e)
  | .boot => some { s with text := s.text.show getFirstTextTerm, interrupts := true }
  | .schedule pcb currTerm => some { s with text := s.text.loadProcessMap pcb currTerm }

/-- The constructors have run. -/
structure Constructed (s : Consoles) : Prop where
  keyboard : s.keyboard = Keyboard.init
  terms : ∀ i, s.terms i = Term.new
  text : s.text.Constructed
  page0 : s.text.display.virtOfPage0 = true
  interrupts : s.interrupts = false

/-- The keyboard interrupts when that is on, and the kernel boots once. -/
def Possible (s : Consoles) : ConsolesEvent → Prop
  | .scancode _ _ => s.interrupts = true
  | .boot => s.interrupts = false
  | _ => True

/-- Every run of the keyboard and the terminals. -/
def machine : Machine Consoles ConsolesEvent where
  init := Constructed
  step s e s' := s.step e = some s'

/-- Terminal `i`, with its screen. -/
def console (i : Fin numTextTerms) (s : Consoles) : Console := ⟨s.terms i, s.text.screen i⟩

end Consoles

/-! ## Calls of a terminal

  A terminal tells its painter where its cursor is, and the painter believes the last it was told
  (`cursorOf`).  So a terminal whose log puts the cursor where the terminal has it (`Pointed`)
  agrees with its screen, whether or not that is shown. -/

/-- Where a painter's cursor is, after what it has been asked for. -/
def cursorOf (es : List Effect) (p : Nat × Nat) : Nat × Nat :=
  es.foldl (fun p e => match e with
    | .setCursor x y => (x, y)
    | .clearScreen => (0, 0)
    | _ => p) p

/-- The painter has been told where the next character goes. -/
def Term.Pointed (t : Term) : Prop := cursorOf t.log (0, 0) = (t.next_char_x, t.next_char_y)

section Calls

variable {t : Term} {v v' : Screen} {e : Effect} {es es' : List Effect} {p : Nat × Nat}

/-- The cursor after two lists of calls is where the second leaves it. -/
theorem cursorOf_append : cursorOf (es ++ es') p = cursorOf es' (cursorOf es p) := List.foldl_append

/-- A screen's cursor is set by the calls that set it, and clearing the screen puts it at the
    origin; drawing leaves it. -/
theorem perform_cursorOf (h : v.perform e = some v') :
    (v'.cursorX, v'.cursorY) = cursorOf [e] (v.cursorX, v.cursorY) := by
  have hdraw : ∀ {f : Cells → Option Cells}, v.draw f = some v' →
      (v'.cursorX, v'.cursorY) = (v.cursorX, v.cursorY) := fun hf => by
    rw [(Screen.draw_cursor hf).1, (Screen.draw_cursor hf).2]
  cases e with
  | showChar x y c => exact hdraw h
  | clearLine y => exact hdraw h
  | scrollDown => exact hdraw h
  | clearScreen =>
    rw [Screen.perform] at h
    obtain ⟨w, -, rfl⟩ := Option.map_eq_some_iff.mp h
    rfl
  | _ =>
    cases h
    rfl

/-- What a screen's cursor is, after all that has been asked for. -/
theorem performAll_cursorOf (h : v.performAll es = some v') :
    (v'.cursorX, v'.cursorY) = cursorOf es (v.cursorX, v.cursorY) := by
  induction es generalizing v with
  | nil =>
    cases h
    rfl
  | cons e es ih =>
    obtain ⟨w, hw, hrest⟩ := Option.bind_eq_some_iff.mp h
    rw [ih hrest, perform_cursorOf hw]
    rfl

/-- Moving the cursor tells the painter where the next character goes, whatever it was told
    before. -/
theorem pointed_moveCursor (t : Term) : t.moveCursor.Pointed := by
  rw [Term.Pointed, Term.moveCursor, Term.emit, cursorOf_append]
  rfl

/-- Reading draws nothing: what it may log, that the reader is put to sleep or woken, moves no
    cursor. -/
theorem Term.Pointed.read (h : t.Pointed) (pid buf nbytes : BitVec 32) :
    (t.read pid buf nbytes).2.Pointed := by
  have hquiet : ∀ {u : Term} (e : Effect), (∀ p, cursorOf [e] p = p) → u.Pointed →
      (u.emit e).Pointed := by
    intro u e he hu
    rw [Term.Pointed, Term.emit, cursorOf_append, he]
    exact hu
  have howned : ∀ u : Term, u.Pointed → (u.readOwned pid buf nbytes).2.Pointed := by
    intro u hu
    rw [Term.readOwned]
    split
    · exact hquiet _ (fun _ => rfl) hu
    · rw [Term.helpFinishRead]
      split
      · exact hu
      · exact hquiet _ (fun _ => rfl) hu
  rw [Term.read]
  split
  · exact howned _ h
  split
  · exact h
  · exact howned t h

/-- Writing ends every character with the cursor, so it stays where the next one goes. -/
theorem Term.Pointed.writeLoop (h : t.Pointed) (cbuf : Nat → BitVec 8) (rounds i : Nat) :
    (Term.writeLoop cbuf rounds i t).2.Pointed := by
  induction rounds generalizing i t with
  | zero => exact h
  | succ rounds ih =>
    rw [Term.writeLoop]
    split
    · exact h
    · exact ih (pointed_moveCursor _) (i + 1)

/-- Whatever happens to a terminal, its painter is told where the next character goes. -/
theorem Term.Pointed.event (h : t.Pointed) (e : Event) : (t.event e).Pointed := by
  cases e with
  | key raw kkc capslock => exact pointed_moveCursor _
  | putc c => exact pointed_moveCursor _
  | write cbuf nbytes => exact h.writeLoop cbuf _ 0
  | cls => exact pointed_moveCursor _
  | read isKernel mem pid buf nbytes =>
    rw [Term.event]
    split
    · exact h.read pid buf nbytes
    · exact h
  | setOwner upid => exact h

/-- What a painter has been asked for is not taken back. -/
theorem log_event (h : OnScreen t) (e : Event) : ∃ es, (t.event e).log = t.log ++ es := by
  have hblank : Grid.BlankFrom t.cursor fun _ _ => blank := fun _ _ _ _ _ => rfl
  have hclean : Clean t.log _ t.log t.cursor := Clean.refl hblank
  obtain ⟨-, -, ⟨es, hlog, -, -⟩, -⟩ := clean_event h hclean e
  exact ⟨es, hlog⟩

end Calls

/-- From `s` to `s'` the painter of terminal `i` has drawn on its screen. -/
structure KbClients.Drawn (i : Fin numTextTerms) (s s' : KbClients) : Prop where
  /-- What is shown is still what the painters have. -/
  shown : Shown s'
  /-- The other screens are as they were. -/
  others : ∀ j, j ≠ i → s'.screen j = s.screen j
  /-- No painter has moved to the text memory, or away from it. -/
  loaded : ∀ j, (s'.painters j).isLoadedInVmem = (s.painters j).isLoadedInVmem
  /-- The client that is shown is the same. -/
  currClient : s'.currClient = s.currClient

/-- **Calls in range** have a result, and it is what they are to this terminal's screen. -/
theorem callAll_spec {s : KbClients} (h : s.Shown) (i : Fin numTextTerms) (es : List Effect)
    (hes : ∀ e ∈ es, e.InRange) : ∃ s', Consoles.callAll i es s = some s' ∧
      (s.screen i).performAll es = some (s'.screen i) ∧ s.Drawn i s' := by
  induction es generalizing s with
  | nil => exact ⟨s, rfl, rfl, h, fun _ _ => rfl, fun _ => rfl, rfl⟩
  | cons e es ih =>
    have he := hes e List.mem_cons_self
    obtain ⟨s₁, h₁⟩ := h.call_some (i := i) he
    obtain ⟨hself, hothers⟩ := h.call_spec h₁
    obtain ⟨s₂, h₂, hperform, hdrawn⟩ :=
      ih (h.call he h₁) fun e' he' => hes e' (List.mem_cons_of_mem e he')
    -- one call of a painter moves no painter
    have hone : (∀ j, (s₁.painters j).isLoadedInVmem = (s.painters j).isLoadedInVmem) ∧
        s₁.currClient = s.currClient := by
      obtain ⟨r, hr, rfl⟩ := Option.map_eq_some_iff.mp h₁
      refine ⟨fun j => ?_, rfl⟩
      by_cases hj : j = i
      · rw [hj, KbClients.put_self, (TextModePainter.perform_frame hr).loaded]
      · rw [KbClients.put_of_ne hj]
    refine ⟨s₂, ?_, ?_, hdrawn.shown, fun j hj => ?_, fun j => ?_, ?_⟩
    · rw [Consoles.callAll, h₁]
      exact h₂
    · rw [Screen.performAll, hself]
      exact hperform
    · rw [hdrawn.others j hj, hothers j hj]
    · rw [hdrawn.loaded, hone.1]
    · rw [hdrawn.currClient, hone.2]

/-! ## Refinement

  A key is either for the client that is shown, or switches clients (`KeyResult`); no key does
  both.  The first is a run of one console (`Good.keys`), the second of none: hiding and showing
  changes no cell (`Good.switch`).  `Follows` is what is carried from step to step. -/

/-- The action is a key of this client. -/
def KeyAction.IsKeyOf (client : Nat) : KeyAction → Prop
  | .keyUp c _ _ => c = client
  | .keyDown c _ _ => c = client
  | .key c _ _ => c = client
  | .hide _ => False
  | .show _ => False

/-- What it is to a terminal. -/
def KeyAction.on (raw : Raw) : KeyAction → Term → Term
  | .key _ kkc capslock, t => t.key raw kkc capslock
  | _, t => t

/-- What comes of a byte from the keyboard: keys of the client that is shown, or a switch to another
    one. -/
inductive KeyResult (client : Nat) : List KeyAction × Keyboard → Prop
  | keys {r : List KeyAction × Keyboard} :
      (∀ a ∈ r.1, a.IsKeyOf client) → r.2.currClient = client → KeyResult client r
  | switch {kkc : BitVec 32} {capslock : Bool} {id : Nat} {k : Keyboard} :
      id ≠ client → k.currClient = id →
        KeyResult client ([.keyDown client kkc capslock, .hide client, .show id], k)

/-- A key code, with the keys held down: a key that is released, a key of the client that is
    shown, a switch to another client by Alt with a function key, or nothing. -/
theorem handle_result (kernelKeycode : BitVec 32) (k : Keyboard) :
    KeyResult k.currClient (k.handle kernelKeycode) := by
  have hnone : ∀ {k' : Keyboard}, k'.currClient = k.currClient → KeyResult k.currClient ([], k') :=
    fun h =>
    .keys (fun _ ha => absurd ha List.not_mem_nil) h
  rw [Keyboard.handle]
  dsimp only
  split
  · exact .keys (fun a ha => by rw [List.mem_singleton.mp ha]; rfl) rfl
  split
  · exact hnone rfl
  split
  · generalize k.pending_kc ||| kernelKeycode &&& KKC_SPECIAL_MASK ||| kernelKeycode &&&
      KKC_ASCII_MASK = kkc
    rw [Keyboard.handleShortcut]
    split
    · next actions k' hshortcut =>
      split at hshortcut
      · cases hshortcut
        exact .keys (fun a ha => by rw [List.mem_singleton.mp ha]; rfl) rfl
      · obtain ⟨id, -, hshow⟩ := Option.map_eq_some_iff.mp hshortcut
        rw [Keyboard.showClient] at hshow
        split at hshow
        · cases hshow
          exact .keys (fun a ha => by rw [List.mem_singleton.mp ha]; rfl) rfl
        · next hne =>
          cases hshow
          exact .switch hne rfl
    · refine .keys (fun a ha => ?_) rfl
      rcases List.mem_cons.mp ha with rfl | ha
      · rfl
      · rw [List.mem_singleton.mp ha]
        rfl
  · exact hnone rfl

/-- A byte from the keyboard.  Prefixes and codes with no key give nothing; a switch comes from
    the code of a function key alone. -/
theorem kb_handler_result (c : BitVec 8) (k : Keyboard) :
    KeyResult k.currClient (k.kb_handler c) := by
  have hnone : ∀ {k' : Keyboard}, k'.currClient = k.currClient → KeyResult k.currClient ([], k') :=
    fun h =>
    .keys (fun _ ha => absurd ha List.not_mem_nil) h
  rw [Keyboard.kb_handler]
  split
  · exact hnone rfl
  split
  · exact hnone rfl
  split
  · exact hnone rfl
  · rw [Keyboard.code]
    split
    · exact handle_result _ { k with pending_special := false }
    · exact handle_result _ { k with pending_special := false }

namespace Consoles

variable {s s' : Consoles} {i j : Fin numTextTerms}

/-- The text memory has the terminal that the keyboard writes to, and each screen its terminal's
    cursor. -/
structure Good (s : Consoles) : Prop where
  /-- The text memory has what the loaded painter last drew, and the others keep theirs. -/
  shown : s.text.Shown
  /-- Each terminal's cells and cursor are within the screen, as in `OnScreen`. -/
  onScreen : ∀ i, OnScreen (s.terms i)
  /-- Each painter has been told where its terminal's next character goes, -/
  pointed : ∀ i, (s.terms i).Pointed
  /-- and has the cursor where it has been told. -/
  cursor : ∀ i,
    ((s.text.screen i).cursorX, (s.text.screen i).cursorY) = cursorOf (s.terms i).log (0, 0)
  /-- After the boot the painter in the text memory is the one of the client that the keyboard
      writes to, if that is a text terminal. -/
  loaded : ∀ i, (s.text.painters i).isLoadedInVmem = true ↔
    s.interrupts = true ∧ i.val = s.keyboard.currClient
  /-- `currClient` of the painters follows the keyboard's, as long as it is a text terminal. -/
  current : ∀ i : Fin numTextTerms, i.val = s.keyboard.currClient → s.text.currClient = i
  /-- Before interrupts are on no key has switched. -/
  booting : s.interrupts = false → s.keyboard.currClient = 0
  /-- The keyboard remembers which control keys are down, and nothing else. -/
  held : ∃ ctrl alt shift, s.keyboard.pending_kc = heldKeys ctrl alt shift

/-- From `s` to `s'` the terminals have gone on as consoles, those but `who` not at all. -/
structure Follows (who : Nat) (s s' : Consoles) : Prop where
  /-- The invariant holds after. -/
  good : s'.Good
  /-- A terminal that has been a console of its own still is one. -/
  runs : ∀ i, Reach Drivers.console (fun _ _ => True) (s.console i) →
    Reach Drivers.console (fun _ _ => True) (s'.console i)
  /-- Only `who` has changed. -/
  others : ∀ i : Fin numTextTerms, i.val ≠ who → s'.console i = s.console i

/-- One after the other. -/
theorem Follows.trans {s'' : Consoles} {who : Nat} (h : Follows who s s')
    (h' : Follows who s' s'') :
    Follows who s s'' where
  good := h'.good
  runs i hr := h'.runs i (h.runs i hr)
  others i hi := (h'.others i hi).trans (h.others i hi)

/-- Nothing has happened to the terminals. -/
theorem Follows.same {who : Nat} (hgood : s'.Good) (h : ∀ i, s'.console i = s.console i) :
    Follows who s s' where
  good := hgood
  runs i hr := by
    rw [h i]
    exact hr
  others i _ := h i

/-- **An event of a terminal.** -/
theorem Good.event (h : Good s) (i : Fin numTextTerms) (e : Event) :
    ∃ s', s.become i ((s.terms i).event e) = some s' ∧ Follows i s s' ∧ s'.keyboard = s.keyboard ∧
    s'.interrupts = s.interrupts ∧ s'.terms i = (s.terms i).event e := by
  have honScreen := (h.onScreen i).event e
  obtain ⟨es, hlog⟩ := log_event (h.onScreen i) e
  have hdrop : ((s.terms i).event e).log.drop (s.terms i).log.length = es := by
    rw [hlog, List.drop_left]
  obtain ⟨text, htext, hperform, hdrawn⟩ := callAll_spec h.shown i es fun e' he' =>
    honScreen.log e' (by rw [hlog]; exact List.mem_append_right _ he')
  have hself : ∀ t, Function.update s.terms i t i = t := fun t => Function.update_self i t s.terms
  have hother : ∀ t j, j ≠ i → Function.update s.terms i t j = s.terms j := fun t j hj =>
    Function.update_of_ne hj t s.terms
  -- the terminal's own screen does what the console's own run does; the others are framed off
  refine ⟨{ s with terms := Function.update s.terms i ((s.terms i).event e), text }, ?_,
    ⟨?_, fun j hr => ?_, fun j hj => ?_⟩, rfl, rfl, hself _⟩
  · rw [become, hdrop, htext]
    rfl
  · constructor
    case shown => exact hdrawn.shown
    case onScreen =>
      exact (Function.forall_update_iff s.terms (p := fun _ t => OnScreen t)).mpr
        ⟨honScreen, fun j _ => h.onScreen j⟩
    case pointed =>
      exact (Function.forall_update_iff s.terms (p := fun _ t => t.Pointed)).mpr
        ⟨(h.pointed i).event e, fun j _ => h.pointed j⟩
    case cursor =>
      refine (Function.forall_update_iff s.terms (p := fun j t =>
        ((text.screen j).cursorX, (text.screen j).cursorY) = cursorOf t.log (0, 0))).mpr
          ⟨?_, fun j hj => ?_⟩
      · rw [performAll_cursorOf hperform, h.cursor i, hlog, cursorOf_append]
      · rw [hdrawn.others j hj]
        exact h.cursor j
    case loaded =>
      intro j
      show (text.painters j).isLoadedInVmem = true ↔ _
      rw [hdrawn.loaded]
      exact h.loaded j
    case current =>
      intro j hj
      exact hdrawn.currClient.trans (h.current j hj)
    case booting => exact h.booting
    case held => exact h.held
  · by_cases hj : j = i
    · subst hj
      refine hr.step (a := .term e) trivial ?_
      show ((s.text.screen j).performAll
        (((s.terms j).event e).log.drop (s.terms j).log.length)).map _ = _
      rw [hdrop, hperform]
      show some (Console.mk _ _) = some (Console.mk (Function.update s.terms j _ j) _)
      rw [hself]
      rfl
    · show Reach Drivers.console _ (Console.mk (Function.update s.terms i _ j) (text.screen j))
      rw [hother _ j hj, hdrawn.others j hj]
      exact hr
  · have hj : j ≠ i := fun hji => hj (congrArg Fin.val hji)
    show Console.mk (Function.update s.terms i _ j) (text.screen j) = _
    rw [hother _ j hj, hdrawn.others j hj]
    rfl

/-- The keys of the client that is shown. -/
theorem Good.keys (h : Good s) (raw : Raw) (as : List KeyAction)
    (has : ∀ a ∈ as, a.IsKeyOf s.keyboard.currClient) : ∃ s', actAll raw as s = some s' ∧
    Follows s.keyboard.currClient s s' ∧ s'.keyboard = s.keyboard ∧ s'.interrupts = s.interrupts ∧
    ∀ i : Fin numTextTerms, i.val = s.keyboard.currClient →
      s'.terms i = as.foldl (fun t a => a.on raw t) (s.terms i) := by
  induction as generalizing s with
  | nil => exact ⟨s, rfl, .same h fun _ => rfl, rfl, rfl, fun _ _ => rfl⟩
  | cons a as ih =>
    -- the first key, and then the others by induction; the client that is shown is still the same
    have hone : ∃ s₁, s.act raw a = some s₁ ∧ Follows s.keyboard.currClient s s₁ ∧
        s₁.keyboard = s.keyboard ∧ s₁.interrupts = s.interrupts ∧ ∀ i : Fin numTextTerms,
          i.val = s.keyboard.currClient → s₁.terms i = a.on raw (s.terms i) := by
      have hquiet : Follows s.keyboard.currClient s s := .same h fun _ => rfl
      have ha := has a List.mem_cons_self
      cases a with
      | keyUp c kkc capslock => exact ⟨s, rfl, hquiet, rfl, rfl, fun _ _ => rfl⟩
      | keyDown c kkc capslock => exact ⟨s, rfl, hquiet, rfl, rfl, fun _ _ => rfl⟩
      | key c kkc capslock =>
        obtain rfl : c = s.keyboard.currClient := ha
        by_cases hc : s.keyboard.currClient < numTextTerms
        · obtain ⟨s₁, h₁, hfollows, hkeyboard, hon, hterm⟩ :=
            h.event ⟨_, hc⟩ (.key raw kkc capslock)
          refine ⟨s₁, (dif_pos hc).trans h₁, hfollows, hkeyboard, hon, fun i hi => ?_⟩
          rw [show i = ⟨_, hc⟩ from Fin.ext hi]
          exact hterm
        · exact ⟨s, dif_neg hc, hquiet, rfl, rfl, fun i hi => absurd (hi ▸ i.isLt) hc⟩
      | hide c => exact absurd ha id
      | «show» c => exact absurd ha id
    obtain ⟨s₁, h₁, hfollows, hkeyboard, hon, hterm⟩ := hone
    obtain ⟨s₂, h₂, hrest, hkeyboard₂, hon₂, hterm₂⟩ := ih hfollows.good fun a' ha' => by
      rw [hkeyboard]
      exact has a' (List.mem_cons_of_mem a ha')
    rw [hkeyboard] at hrest hterm₂
    refine ⟨s₂, ?_, hfollows.trans hrest, hkeyboard₂.trans hkeyboard, hon₂.trans hon,
      fun i hi => ?_⟩
    · rw [actAll, h₁]
      exact h₂
    · rw [hterm₂ i hi, hterm i hi]
      rfl

/-- A switch, or nothing: the screens are where they have been, or moved as they are. -/
theorem Good.moved (h : Good s) (k : Keyboard) (text : KbClients) (interrupts : Bool)
    (hpage : text.display.virtOfPage0 = true) (hscreen : ∀ i, text.screen i = s.text.screen i)
    (hloaded : ∀ i, (text.painters i).isLoadedInVmem = true ↔
      interrupts = true ∧ i.val = k.currClient)
    (hcurrent : ∀ i : Fin numTextTerms, i.val = k.currClient → text.currClient = i)
    (hcursor : ∀ i, (text.painters i).CursorShown text.display)
    (hbooting : interrupts = false → k.currClient = 0)
    (hheld : ∃ ctrl alt shift, k.pending_kc = heldKeys ctrl alt shift) (who : Nat) :
    Follows who s ⟨k, s.terms, text, interrupts⟩ := by
  refine .same ?_ fun i => congrArg (Console.mk (s.terms i)) (hscreen i)
  constructor
  case shown =>
    refine ⟨hpage, fun i hi => (hcurrent i ((hloaded i).mp hi).2).symm, fun i => ?_, hcursor⟩
    rw [hscreen]
    exact h.shown.inRange i
  case onScreen => exact h.onScreen
  case pointed => exact h.pointed
  case cursor =>
    intro i
    show ((text.screen i).cursorX, (text.screen i).cursorY) = _
    rw [hscreen]
    exact h.cursor i
  case loaded => exact hloaded
  case current => exact hcurrent
  case booting => exact hbooting
  case held => exact hheld

/-- The client that is shown is hidden. -/
theorem Good.hide (h : Good s) (raw : Raw) (k : Keyboard) : ∃ text,
    act raw { s with keyboard := k } (.hide s.keyboard.currClient) =
      some { s with keyboard := k, text } ∧
    text.display.virtOfPage0 = true ∧ (∀ i, (text.painters i).isLoadedInVmem = false) ∧
    (∀ i, text.screen i = s.text.screen i) := by
  by_cases hc : s.keyboard.currClient < numTextTerms
  · have hcurrent : s.text.currClient = ⟨_, hc⟩ := h.current ⟨_, hc⟩ rfl
    obtain ⟨hpage, hhidden, hscreen⟩ := h.shown.hide
    rw [hcurrent] at hpage hhidden hscreen
    exact ⟨_, congrArg some (dif_pos hc), hpage, hhidden, hscreen⟩
  · refine ⟨s.text, congrArg some (dif_neg hc), h.shown.page0, fun i => ?_, fun _ => rfl⟩
    refine Bool.eq_false_iff.mpr fun hi => hc ?_
    rw [← ((h.loaded i).mp hi).2]
    exact i.isLt

/-- A switch is three actions; the key itself is nothing to the terminal. -/
theorem actAll_switch {raw : Raw} {c : Nat} {kkc : BitVec 32} {capslock : Bool} {a b : KeyAction}
    {s₁ s₂ : Consoles} (h₁ : s.act raw a = some s₁) (h₂ : s₁.act raw b = some s₂) :
    actAll raw [.keyDown c kkc capslock, a, b] s = some s₂ := by
  rw [actAll, act, Option.bind_some, actAll, h₁, Option.bind_some, actAll, h₂]
  rfl

/-- **A switch** to another client. -/
theorem Good.switch (h : Good s) (hon : s.interrupts = true) (raw : Raw) {k : Keyboard}
    (hheld : ∃ ctrl alt shift, k.pending_kc = heldKeys ctrl alt shift) (kkc : BitVec 32)
    (capslock : Bool) (who : Nat) : ∃ s', actAll raw [.keyDown s.keyboard.currClient kkc capslock,
      .hide s.keyboard.currClient, .show k.currClient] { s with keyboard := k } = some s' ∧
      Follows who s s' := by
  obtain ⟨text, hhide, hpage, hhidden, hscreen⟩ := h.hide raw k
  have hbooting : s.interrupts = false → k.currClient = 0 := fun hoff =>
    absurd (hoff.symm.trans hon) Bool.false_ne_true
  by_cases hid : k.currClient < numTextTerms
  · obtain ⟨hpage', hshown, hscreen', hcursor⟩ :=
      KbClients.show_spec (i := ⟨_, hid⟩) hpage hhidden fun j => by
      rw [hscreen]
      exact h.shown.inRange j
    refine ⟨_, actAll_switch hhide (congrArg some (dif_pos hid)), ?_⟩
    -- the painter of the new client is loaded, and no other is
    refine h.moved _ { text.show ⟨_, hid⟩ with currClient := ⟨_, hid⟩ } _ hpage'
      (fun i => (hscreen' i).trans (hscreen i)) (fun i => ?_) (fun i hi => Fin.ext hi.symm) hcursor
        hbooting hheld who
    refine (hshown i).trans ?_
    rw [hon]
    exact ⟨fun hi => ⟨rfl, congrArg Fin.val hi⟩, fun hi => Fin.ext hi.2⟩
  · refine ⟨_, actAll_switch hhide (congrArg some (dif_neg hid)), ?_⟩
    -- the seventh client is no text terminal, and nothing is loaded
    have hnot : ∀ i : Fin numTextTerms, i.val ≠ k.currClient := fun i hi => hid (hi ▸ i.isLt)
    refine h.moved _ _ _ hpage hscreen (fun i => ?_) (fun i hi => absurd hi (hnot i))
      (fun i hi => ?_) hbooting hheld who
    · rw [hhidden]
      exact iff_of_false Bool.false_ne_true fun hi => hnot i hi.2
    · exact absurd ((hhidden i).symm.trans hi) Bool.false_ne_true

/-- The terminal that an event is for. -/
def IsFor (s : Consoles) : ConsolesEvent → Nat → Prop
  | .scancode _ _, i => i = s.keyboard.currClient
  | .term j _, i => i = j.val
  | _, _ => False

/-- A byte of the keyboard that switches to no other client. -/
theorem Good.scancode (h : Good s) (raw : Raw) (c : BitVec 8)
    (has : ∀ a ∈ (s.keyboard.kb_handler c).1, a.IsKeyOf s.keyboard.currClient)
    (hcurr : (s.keyboard.kb_handler c).2.currClient = s.keyboard.currClient) :
    ∃ s', s.step (.scancode raw c) = some s' ∧ Follows s.keyboard.currClient s s' ∧
    s'.keyboard = (s.keyboard.kb_handler c).2 ∧ s'.interrupts = s.interrupts ∧
      ∀ i : Fin numTextTerms, i.val = s.keyboard.currClient →
      s'.terms i = (s.keyboard.kb_handler c).1.foldl (fun t a => a.on raw t) (s.terms i) := by
  have hsame :
      Follows s.keyboard.currClient s { s with keyboard := (s.keyboard.kb_handler c).2 } := by
    refine h.moved _ _ _ h.shown.page0 (fun _ => rfl) ?_ ?_ h.shown.cursor ?_
      (kb_handler_held c h.held) _
    · rw [hcurr]
      exact h.loaded
    · rw [hcurr]
      exact h.current
    · rw [hcurr]
      exact h.booting
  have has' : ∀ a ∈ (s.keyboard.kb_handler c).1, a.IsKeyOf (s.keyboard.kb_handler c).2.currClient :=
    fun a ha => by
    rw [hcurr]
    exact has a ha
  obtain ⟨s', hs', hfollows, hkeyboard, hon, hterm⟩ := hsame.good.keys raw _ has'
  refine ⟨s', hs', hsame.trans (hcurr ▸ hfollows), hkeyboard, hon, fun i hi => ?_⟩
  exact hterm i (hi.trans hcurr.symm)

/-- **One event** has a result, and concerns no other terminal. -/
theorem Good.step (h : Good s) {e : ConsolesEvent} (hok : Possible s e) :
    ∃ s', s.step e = some s' ∧ s'.Good ∧
      (∀ i, Reach Drivers.console (fun _ _ => True) (s.console i) →
        Reach Drivers.console (fun _ _ => True) (s'.console i)) ∧
      ∀ i : Fin numTextTerms, ¬ s.IsFor e i → s'.console i = s.console i := by
  cases e with
  | scancode raw c =>
    have hheld := kb_handler_held c h.held
    generalize hr : s.keyboard.kb_handler c = r at hheld
    have hresult := hr ▸ kb_handler_result c s.keyboard
    cases hresult with
    | keys has hcurr =>
      rw [← hr] at has hcurr
      obtain ⟨s', hs', hfollows, -⟩ := h.scancode raw c has hcurr
      exact ⟨s', hs', hfollows.good, hfollows.runs, hfollows.others⟩
    | switch hne hcurr =>
      subst hcurr
      obtain ⟨s', hs', hfollows⟩ := h.switch hok raw hheld _ _ s.keyboard.currClient
      refine ⟨s', ?_, hfollows.good, hfollows.runs, hfollows.others⟩
      rw [Consoles.step, hr]
      exact hs'
  | term j e =>
    obtain ⟨s', hs', hfollows, -⟩ := h.event j e
    exact ⟨s', hs', hfollows.good, hfollows.runs, hfollows.others⟩
  | boot =>
    -- no key has switched yet, so it is the first terminal that is shown, and the keyboard's
    have hcurr : s.keyboard.currClient = 0 := h.booting hok
    have hfirst : s.text.currClient = getFirstTextTerm := h.current getFirstTextTerm hcurr.symm
    obtain ⟨hshown, hloaded, hscreen⟩ := h.shown.firstShow hfirst
    refine ⟨_, rfl, ?_⟩
    have hfollows : Follows numTextTerms s
        { s with text := s.text.show getFirstTextTerm, interrupts := true } := by
      refine h.moved _ _ _ hshown.page0 hscreen (fun i => ?_) h.current hshown.cursor
        (fun hoff => absurd hoff.symm Bool.false_ne_true) h.held _
      rw [hcurr]
      refine ⟨fun hi => ⟨rfl, congrArg Fin.val ((hshown.only i hi).trans hfirst)⟩, fun hi => ?_⟩
      rw [show i = getFirstTextTerm from Fin.ext hi.2]
      exact hloaded
    exact ⟨hfollows.good, hfollows.runs, fun i _ => hfollows.others i (Nat.ne_of_lt i.isLt)⟩
  | schedule pcb currTerm =>
    -- a switch of threads maps pages and leaves the cells alone
    obtain ⟨userEntry, firstEntry, hd⟩ := KbClients.loadProcessMap_screen (s := s.text) pcb currTerm
    refine ⟨_, rfl, ?_⟩
    rw [hd]
    have hfollows := h.moved s.keyboard { s.text with
        display := { s.text.display with
          userEntry := userEntry, firstEntry := firstEntry, current := pcb } } s.interrupts
      h.shown.page0 (fun _ => rfl) h.loaded h.current h.shown.cursor h.booting h.held numTextTerms
    exact ⟨hfollows.good, hfollows.runs, fun i _ => hfollows.others i (Nat.ne_of_lt i.isLt)⟩

/-- A constructed painter's screen is a constructed console's. -/
theorem Constructed.console (h : Constructed s) (i : Fin numTextTerms) :
    (s.console i).Constructed := by
  obtain ⟨raw, addr, hclear⟩ := h.text.2 i
  have hscreen := TextModePainter.clearScreen_screen (p := .members raw addr) h.page0
  rw [show TextModePainter.clearScreenNolock _ _ = _ from hclear] at hscreen
  exact ⟨h.terms i, raw, hscreen.symm⟩

/-- After the constructors all screens are clear and all cursors at the origin. -/
theorem Constructed.good (h : Constructed s) : Good s := by
  constructor
  case shown => exact h.text.shown h.page0
  case onScreen =>
    intro i
    rw [h.terms i]
    exact OnScreen.new
  case pointed =>
    intro i
    rw [h.terms i]
    rfl
  case cursor =>
    intro i
    obtain ⟨hterm, raw, hraw⟩ := h.console i
    rw [h.terms i]
    exact perform_cursorOf hraw
  case loaded =>
    intro i
    rw [(h.text.painter h.page0 i).1, h.interrupts]
    exact iff_of_false Bool.false_ne_true fun hi => Bool.false_ne_true hi.1
  case current =>
    intro i hi
    rw [h.keyboard] at hi
    exact h.text.1.trans (Fin.ext hi.symm)
  case booting =>
    intro _
    rw [h.keyboard]
    rfl
  case held =>
    rw [h.keyboard]
    exact ⟨false, false, false, rfl⟩

/-- The invariant of every run. -/
theorem good_of_reach (hr : Reach machine Possible s) : s.Good := by
  refine hr.invariant (I := Good) (fun _ (h : Constructed _) => h.good) fun s e s' hgood hok hs =>
    ?_
  obtain ⟨s₁, hs₁, hgood₁, -⟩ := hgood.step hok
  obtain rfl : s₁ = s' := Option.some.inj (hs₁.symm.trans hs)
  exact hgood₁

/-- There is a run to the end of the boot. -/
theorem exists_booted : ∃ s : Consoles, Reach machine Possible s ∧ s.interrupts = true ∧
    s.keyboard = Keyboard.init ∧ ∀ i, s.terms i = Term.new := by
  obtain ⟨text, htext, hd⟩ := KbClients.exists_constructed
    ⟨true, fun _ => 0, 0, 0, 0, 0, 0, true, true, false⟩ rfl
  have h₀ : Constructed ⟨Keyboard.init, fun _ => Term.new, text, false⟩ :=
    ⟨rfl, fun _ => rfl, htext, by rw [hd], rfl⟩
  exact ⟨⟨Keyboard.init, fun _ => Term.new, text.show getFirstTextTerm, true⟩,
    Reach.step (a := .boot) (.init h₀) rfl rfl, rfl, rfl, fun _ => rfl⟩

end Consoles

end TedkOS.Drivers
