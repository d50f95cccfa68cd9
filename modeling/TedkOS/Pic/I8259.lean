/-
  Binding handlers to interrupt lines (pic/i8259.cpp): `bind_irq`, `unbind_irq` and the masks of the
  two controllers.

  A line is unmasked when its first handler is bound, and is to be masked again when its last one
  goes.  `unbind_irq` asks for "any action left" by searching the list for device -1, which the
  comments of pic/list.h call a wildcard.  But device ids are unsigned, so the search finds only
  actions of device 0xFFFFFFFF, and the line is masked while other devices are still bound to it.

  What is bound is right in every run all the same: `unbind_irq` ends, and takes away the actions of
  its device and no others.

  A run carries what ought to be bound to each line beside the controllers (`IrqState`).  Two
  things are kept: `Holds`, that the array of a line stores the actions bound to it, in order,
  whatever the order of the calls; and `MaskRight`, that a line is unmasked exactly while
  something is bound to it.  The second survives an `unbind_irq` only if that leaves nothing on
  the line, or an action of device 0xFFFFFFFF (`MaskFollows`); for the other lines it does not
  matter.
-/
import TedkOS.Lib.Runs
import TedkOS.Pic.ListArray

namespace TedkOS.Pic

open Runs

/-- Eight lines of each controller. -/
def NR_IRQS : Nat := 16

/-- The list of a line is full. -/
def ENOMEM : BitVec 32 := 12

/-- There is no such line. -/
def EINVAL : BitVec 32 := 22

/-- The line of the slave controller. -/
def SLAVE_PIN : Nat := 2

/-- The masks in the two controllers, and the actions of each of the `irq_descs`. -/
structure I8259 where
  /-- A bit is up for a line that is masked: lines 0 to 7, -/
  master_mask : BitVec 8
  /-- and lines 8 to 15. -/
  slave_mask : BitVec 8
  /-- The handlers bound to a line. -/
  actions : Nat → IrqActionList

/-- The cells of `irq_descs` before anything is bound: static storage, all zero. -/
def zeroCells (_ : Nat) : IrqAction := ⟨⟨0, 0, 0, 0⟩, none, none⟩

/-- All lines are masked but the one the second controller is on, and no handler is bound. -/
def i8259_init : I8259 := ⟨0xfb, 0xff, fun _ => init_list zeroCells⟩

/-- Clears the bit of a line. -/
def enable_irq_nolock (pic : I8259) (irq_num : Nat) : I8259 :=
  if irq_num > 15 then pic
  else if irq_num < 8 then { pic with master_mask := pic.master_mask &&& ~~~(1#8 <<< irq_num) }
  else { pic with slave_mask := pic.slave_mask &&& ~~~(1#8 <<< (irq_num - 8)) }

/-- Sets it. -/
def disable_irq_nolock (pic : I8259) (irq_num : Nat) : I8259 :=
  if irq_num > 15 then pic
  else if irq_num < 8 then { pic with master_mask := pic.master_mask ||| (1#8 <<< irq_num) }
  else { pic with slave_mask := pic.slave_mask ||| (1#8 <<< (irq_num - 8)) }

/-- Is the line masked in its controller? -/
def masked (pic : I8259) (irq : Nat) : Bool :=
  if irq < 8 then pic.master_mask.getLsbD irq else pic.slave_mask.getLsbD (irq - 8)

/-- Adds an action to the list of a line, and unmasks the line if it is the first. -/
def setup_irq (pic : I8259) (irq : Nat) (device_id : BitVec 32) (handler : Handler)
    (policy_flags : BitVec 32) : BitVec 32 × I8259 :=
  let list := pic.actions irq
  let pic := if (first_action list).isNone then enable_irq_nolock pic irq else pic
  let added := add_action list ⟨handler, policy_flags, 0, device_id⟩
  (if added.1 ≠ 0 then -ENOMEM else 0,
    { pic with actions := Function.update pic.actions irq added.2 })

/-- `bind_irq(irq, device_id, handler, policy_flags)`; `irq` is unsigned. -/
def bind_irq (pic : I8259) (irq : Nat) (device_id : BitVec 32) (handler : Handler)
    (policy_flags : BitVec 32) : BitVec 32 × I8259 :=
  if irq ≥ NR_IRQS then (-EINVAL, pic)
  else if handler = 0 then (-EINVAL, pic)
  else setup_irq pic irq device_id handler policy_flags

/-- The loop of `unbind_irq`; `none` when it takes more rounds than this. -/
def unbindLoop (device_id : BitVec 32) : Nat → IrqActionList → Option IrqActionList
  | 0, _ => none
  | fuel + 1, list =>
    match find_action list device_id 0 with
    | none => some list
    | some ptr => unbindLoop device_id fuel (remove_action list ptr)

/-- `unbind_irq(irq, device_id)`. -/
def unbind_irq (fuel : Nat) (pic : I8259) (irq : Nat) (device_id : BitVec 32) : Option I8259 :=
  (unbindLoop device_id fuel (pic.actions irq)).map fun list =>
    let pic := { pic with actions := Function.update pic.actions irq list }
    if find_action list (-1) 0 = none then disable_irq_nolock pic irq else pic

/-! ## The masks

  A line is a bit of the mask of one controller or of the other.  Setting it changes the answer
  for that line only. -/

section Masks

variable {pic : I8259} {irq other : Nat}

@[simp] theorem enable_actions : (enable_irq_nolock pic irq).actions = pic.actions := by
  unfold enable_irq_nolock
  split
  · rfl
  · split <;> rfl

@[simp] theorem disable_actions : (disable_irq_nolock pic irq).actions = pic.actions := by
  unfold disable_irq_nolock
  split
  · rfl
  · split <;> rfl

/-- The bit of one line. -/
theorem getLsbD_bit {k j : Nat} (hj : j < 8) : (1#8 <<< k).getLsbD j = decide (j = k) := by
  rw [BitVec.getLsbD_shiftLeft, BitVec.getLsbD_one]
  by_cases h : j = k
  · subst h
    simp [hj]
  · simp only [hj, h, decide_false]
    simp
    omega

/-- Enabling a line clears its bit and no other. -/
theorem masked_enable (hirq : irq < NR_IRQS) (hother : other < NR_IRQS) :
    masked (enable_irq_nolock pic irq) other = (masked pic other && decide (other ≠ irq)) := by
  have h : irq < 16 := hirq
  have h' : other < 16 := hother
  have hclear : ∀ (m : BitVec 8) (k j : Nat), j < 8 →
      (m &&& ~~~(1#8 <<< k)).getLsbD j = (m.getLsbD j && decide (j ≠ k)) := by
    intro m k j hj
    rw [BitVec.getLsbD_and, BitVec.getLsbD_not, getLsbD_bit hj]
    simp [hj]
  have hle : ¬ irq > 15 := by omega
  simp only [enable_irq_nolock, if_neg hle, masked]
  by_cases hm : irq < 8
  · by_cases ho : other < 8
    · simp only [if_pos hm, if_pos ho, hclear _ _ _ ho]
    · have hne : other ≠ irq := by omega
      simp only [if_pos hm, if_neg ho, decide_eq_true hne, Bool.and_true]
  · by_cases ho : other < 8
    · have hne : other ≠ irq := by omega
      simp only [if_neg hm, if_pos ho, decide_eq_true hne, Bool.and_true]
    · have hiff : other - 8 ≠ irq - 8 ↔ other ≠ irq := by omega
      simp only [if_neg hm, if_neg ho, hclear _ _ _ (show other - 8 < 8 by omega), hiff]

/-- Disabling one sets its bit and no other. -/
theorem masked_disable (hirq : irq < NR_IRQS) (hother : other < NR_IRQS) :
    masked (disable_irq_nolock pic irq) other = (masked pic other || decide (other = irq)) := by
  have h : irq < 16 := hirq
  have h' : other < 16 := hother
  have hset : ∀ (m : BitVec 8) (k j : Nat), j < 8 →
      (m ||| (1#8 <<< k)).getLsbD j = (m.getLsbD j || decide (j = k)) := by
    intro m k j hj
    rw [BitVec.getLsbD_or, getLsbD_bit hj]
  have hle : ¬ irq > 15 := by omega
  simp only [disable_irq_nolock, if_neg hle, masked]
  by_cases hm : irq < 8
  · by_cases ho : other < 8
    · simp only [if_pos hm, if_pos ho, hset _ _ _ ho]
    · have hne : ¬ other = irq := by omega
      simp only [if_pos hm, if_neg ho, decide_eq_false hne, Bool.or_false]
  · by_cases ho : other < 8
    · have hne : ¬ other = irq := by omega
      simp only [if_neg hm, if_pos ho, decide_eq_false hne, Bool.or_false]
    · have hiff : other - 8 = irq - 8 ↔ other = irq := by omega
      simp only [if_neg hm, if_neg ho, hset _ _ _ (show other - 8 < 8 by omega), hiff]

end Masks

/-! ## Searching and removing

  The loop of `unbind_irq` searches from the first action again after each removal, and each
  removal makes the list shorter, so it ends.  By induction on the rounds what is left is the
  list without the actions of the device, in the old order. -/

/-- What the search loop finds: the first action of the device from cell `i` on. -/
theorem findLoop_some {data : Nat → IrqAction} {d : BitVec 32} (left : Nat) : ∀ (i j : Nat),
    findLoop data d 0 left i = some j → i ≤ j ∧ j < i + left ∧ (data j).dev_id = d := by
  induction left with
  | zero =>
    intro i j h
    cases h
  | succ left ih =>
    intro i j h
    rw [findLoop] at h
    split at h
    · next hfound =>
      obtain rfl : i = j := Option.some.inj h
      refine ⟨Nat.le_refl i, by omega, ?_⟩
      rcases hfound.1 with hneg | hdev
      · exact absurd hneg (by simp)
      · exact hdev
    · obtain ⟨hlo, hhi, hdev⟩ := ih (i + 1) j h
      exact ⟨by omega, by omega, hdev⟩

/-- The search has gone past every action without finding the device. -/
theorem findLoop_none {data : Nat → IrqAction} {d : BitVec 32} (left : Nat) : ∀ i : Nat,
    findLoop data d 0 left i = none → ∀ j, i ≤ j → j < i + left → (data j).dev_id ≠ d := by
  induction left with
  | zero =>
    intro i _ j _ _
    omega
  | succ left ih =>
    intro i h j hlo hhi
    rw [findLoop] at h
    split at h
    · cases h
    · next hmiss =>
      by_cases hj : j = i
      · subst hj
        exact fun hdev => hmiss ⟨Or.inr hdev, Or.inl rfl⟩
      · exact ih (i + 1) h j (by omega) (by omega)

variable {list : IrqActionList} {d : BitVec 32}

/-- What the search finds is stored, and is of that device. -/
theorem find_action_some {ptr : Nat} (h : find_action list d 0 = some ptr) :
    ptr < list.size ∧ (list.data ptr).dev_id = d := by
  obtain ⟨-, hlt, hdev⟩ := findLoop_some _ _ _ h
  exact ⟨by omega, hdev⟩

/-- The search for a device comes back empty exactly when no stored action is of that device. -/
theorem find_action_none :
    find_action list d 0 = none ↔ ∀ action ∈ stored list, action.dev_id ≠ d := by
  constructor
  · intro h action hmem
    obtain ⟨i, hi, rfl⟩ := List.mem_map.mp hmem
    exact findLoop_none _ _ h i (Nat.zero_le i) (by have := List.mem_range.mp hi; omega)
  · intro h
    cases hf : find_action list d 0 with
    | none => rfl
    | some ptr =>
      obtain ⟨hlt, hdev⟩ := find_action_some hf
      exact absurd hdev (h _ (List.mem_map.mpr ⟨ptr, List.mem_range.mpr hlt, rfl⟩))

/-- The actions of other devices. -/
def otherDevices (d : BitVec 32) (actions : List Action) : List Action :=
  actions.filter fun action => action.dev_id ≠ d

/-- Erasing an action of the device leaves the others as they are. -/
theorem otherDevices_eraseIdx {ptr : Nat} (h : Sound list) (hf : find_action list d 0 = some ptr) :
    otherDevices d (stored (remove_action list ptr)) = otherDevices d (stored list) := by
  obtain ⟨hlt, hdev⟩ := find_action_some hf
  have hlen : ptr < (stored list).length := by rw [stored_length]; exact hlt
  have hget : (stored list)[ptr] = (list.data ptr).toAction := by simp [stored]
  have hsplit := (List.take_append_drop ptr (stored list)).symm
  rw [List.drop_eq_getElem_cons hlen] at hsplit
  rw [stored_remove_action h hlt, List.eraseIdx_eq_take_drop_succ]
  calc otherDevices d ((stored list).take ptr ++ (stored list).drop (ptr + 1))
      = otherDevices d
        ((stored list).take ptr ++ (stored list)[ptr] :: (stored list).drop (ptr + 1)) := by
        rw [otherDevices, otherDevices, List.filter_append, List.filter_append,
          List.filter_cons_of_neg (by simp [hget, hdev])]
    _ = otherDevices d (stored list) := by rw [← hsplit]

/-- **What the loop of `unbind_irq` comes to**, if it does. -/
theorem unbindLoop_spec (fuel : Nat) : ∀ (list list' : IrqActionList), Sound list →
    unbindLoop d fuel list = some list' →
    Sound list' ∧ stored list' = otherDevices d (stored list) := by
  induction fuel with
  | zero =>
    intro list list' _ h
    cases h
  | succ fuel ih =>
    intro list list' hs h
    rw [unbindLoop] at h
    split at h
    · next hf =>
      obtain rfl : list = list' := Option.some.inj h
      refine ⟨hs, (List.filter_eq_self.mpr ?_).symm⟩
      intro action hmem
      exact decide_eq_true (find_action_none.mp hf action hmem)
    · next ptr hf =>
      obtain ⟨hs', e⟩ := ih _ _ (hs.remove_action (find_action_some hf).1) h
      exact ⟨hs', e.trans (otherDevices_eraseIdx hs hf)⟩

/-- **The loop ends**: every round but the last takes an action away. -/
theorem unbindLoop_ends (fuel : Nat) : ∀ list : IrqActionList, Sound list → list.size < fuel →
    ∃ list', unbindLoop d fuel list = some list' := by
  induction fuel with
  | zero =>
    intro list _ h
    omega
  | succ fuel ih =>
    intro list hs h
    rw [unbindLoop]
    split
    · exact ⟨list, rfl⟩
    · next ptr hf =>
      have hlt := (find_action_some hf).1
      apply ih _ (hs.remove_action hlt)
      have hlen := congrArg List.length (stored_remove_action hs hlt)
      rw [stored_length, List.length_eraseIdx_of_lt (by rw [stored_length]; exact hlt),
        stored_length] at hlen
      omega

/-! ## Runs -/

/-- The calls of the drivers. -/
inductive IrqCall
  | bind (irq : Nat) (device_id : BitVec 32) (handler : Handler) (policy_flags : BitVec 32)
  | unbind (irq : Nat) (device_id : BitVec 32)

/-- The line a call is about. -/
def IrqCall.irq : IrqCall → Nat
  | .bind irq _ _ _ => irq
  | .unbind irq _ => irq

/-- The controllers, and the actions that ought to be bound to each line: what was bound with
    success and not unbound since. -/
structure IrqState where
  /-- The controllers and the lists. -/
  pic : I8259
  /-- What ought to be in them. -/
  bound : Nat → List Action

/-- A call of `bind_irq`; what it refuses is not bound. -/
def bindStep (s : IrqState) (irq : Nat) (device_id : BitVec 32) (handler : Handler)
    (policy_flags : BitVec 32) : IrqState :=
  let r := bind_irq s.pic irq device_id handler policy_flags
  { pic := r.2
    bound := if r.1 = 0 then
      Function.update s.bound irq (s.bound irq ++ [⟨handler, policy_flags, 0, device_id⟩])
        else s.bound }

/-- The runs of the two calls. -/
def picMachine : Machine IrqState IrqCall where
  init s := s = ⟨i8259_init, fun _ => []⟩
  step s call s' := match call with
    | .bind irq device_id handler policy_flags => s' = bindStep s irq device_id handler policy_flags
    | .unbind irq device_id => ∃ fuel pic, unbind_irq fuel s.pic irq device_id = some pic ∧
        s' = ⟨pic, Function.update s.bound irq (otherDevices device_id (s.bound irq))⟩

/-- An interrupt line other than the cascade line. -/
def IsLine (irq : Nat) : Prop := irq < NR_IRQS ∧ irq ≠ SLAVE_PIN

/-- The line of a call is one a device can be on. -/
def OnLines (_ : IrqState) (call : IrqCall) : Prop := IsLine call.irq

/-- Unbinding this device leaves the mask right: nothing stays bound, or what stays is found by the
    search for device -1. -/
def MaskFollows (actions : List Action) (d : BitVec 32) : Prop :=
  (∀ action ∈ actions, action.dev_id = d) ∨ (d ≠ -1 ∧ ∃ action ∈ actions, action.dev_id = -1)

/-- Every unbind of the run is of that kind. -/
def MasksFollow (s : IrqState) (call : IrqCall) : Prop :=
  IsLine call.irq ∧ ∀ irq d, call = .unbind irq d → MaskFollows (s.bound irq) d

/-- The array of each line holds what is bound to it. -/
def Holds (s : IrqState) : Prop :=
  ∀ irq, IsLine irq → Sound (s.pic.actions irq) ∧ stored (s.pic.actions irq) = s.bound irq

/-- The line is unmasked exactly when something is bound to it. -/
def MaskRight (s : IrqState) (irq : Nat) : Prop := masked s.pic irq = false ↔ s.bound irq ≠ []

/-! ## One call

  A call concerns one line.  `bindStep_cases` says what it does to the array, to the mask and to
  what ought to be bound; the two invariants are derived from that, each on its own. -/

/-- What `add_action` answers. -/
theorem add_action_result (list : IrqActionList) (action : Action) :
    (add_action list action).1 = if list.size = _PIC_ACTION_LIST_SIZE then -1 else 0 := by
  unfold add_action
  split
  · rfl
  · cases list.tail <;> rfl

/-- A list with a first action stores something. -/
theorem Sound.first_action_some {list : IrqActionList} (h : Sound list)
    (hne : ¬ (first_action list).isNone) : stored list ≠ [] := by
  intro e
  have hlen := congrArg List.length e
  rw [stored_length] at hlen
  exact hne (by rw [first_action, (h.empty hlen).1]; rfl)

section Steps

variable {s : IrqState} {irq : Nat}

/-- What binding does, if anything: actions are bound to the line afterwards, and it has been
    unmasked if there were none before. -/
theorem bindStep_cases (hs : Holds s) (hirq : IsLine irq) (device_id : BitVec 32)
    (handler : Handler) (policy_flags : BitVec 32) :
    bindStep s irq device_id handler policy_flags = s ∨
    ∃ list, Sound list ∧ stored list ≠ [] ∧
      (bindStep s irq device_id handler policy_flags).pic.actions =
        Function.update s.pic.actions irq list ∧
      (bindStep s irq device_id handler policy_flags).bound =
        Function.update s.bound irq (stored list) ∧
      ∃ enabled : Bool, (s.bound irq = [] → enabled = true) ∧ ∀ other, other < NR_IRQS →
        masked (bindStep s irq device_id handler policy_flags).pic other =
          (masked s.pic other && !(enabled && decide (other = irq))) := by
  obtain ⟨hsound, hstored⟩ := hs irq hirq
  unfold bindStep bind_irq
  rw [if_neg (Nat.not_le.mpr hirq.1)]
  by_cases hnull : handler = 0
  · refine Or.inl ?_
    rw [if_pos hnull]
    have hfail : ¬ (-EINVAL = 0) := by decide
    simp only [if_neg hfail]
  refine Or.inr ?_
  rw [if_neg hnull]
  let action : Action := ⟨handler, policy_flags, 0, device_id⟩
  -- a full list stays as it is, and is not empty
  have hadd : stored (add_action (s.pic.actions irq) action).2 =
      if (s.pic.actions irq).size = _PIC_ACTION_LIST_SIZE then s.bound irq
      else s.bound irq ++ [action] := by
    rw [stored_add_action, hstored]
  -- the line is unmasked if the list had no first action, before the action is added
  refine ⟨(add_action (s.pic.actions irq) action).2, hsound.add_action action, ?_, ?_, ?_,
    (first_action (s.pic.actions irq)).isNone, ?_, ?_⟩
  · rw [hadd]
    split
    · next hfull =>
      intro e
      have hlen := stored_length (s.pic.actions irq)
      rw [hstored, e, hfull] at hlen
      cases hlen
    · exact List.append_ne_nil_of_right_ne_nil _ (List.cons_ne_nil _ _)
  · simp only [setup_irq]
    split <;> simp [action]
  · rw [hadd]
    simp only [setup_irq, add_action_result]
    split
    · have hfail : ¬ ((if (-1 : BitVec 32) ≠ 0 then -ENOMEM else 0) = 0) := by decide
      rw [if_neg hfail, Function.update_eq_self]
    · have hok : (if (0 : BitVec 32) ≠ 0 then -ENOMEM else 0) = 0 := by decide
      rw [if_pos hok]
  · intro hnone
    by_contra hsome
    exact hsound.first_action_some hsome (hstored.trans hnone)
  · intro other hother
    simp only [setup_irq]
    show masked (if (first_action (s.pic.actions irq)).isNone then enable_irq_nolock s.pic irq
      else s.pic) other = _
    split
    · next hnone =>
      rw [masked_enable hirq.1 hother, hnone]
      simp
    · next hsome =>
      simp [hsome]

/-- What unbinding does: the actions of the device go, and the line is masked unless an action of
    device -1 stays. -/
theorem unbind_irq_spec {pic pic' : I8259} {d : BitVec 32} {fuel : Nat}
    (hs : Sound (pic.actions irq)) (hirq : irq < NR_IRQS)
    (h : unbind_irq fuel pic irq d = some pic') :
    ∃ list, Sound list ∧ stored list = otherDevices d (stored (pic.actions irq)) ∧
      pic'.actions = Function.update pic.actions irq list ∧
      ∀ other, other < NR_IRQS → masked pic' other =
        (masked pic other ||
          (decide (other = irq) && decide (∀ action ∈ stored list, action.dev_id ≠ -1))) := by
  obtain ⟨list, hloop, rfl⟩ := Option.map_eq_some_iff.mp h
  obtain ⟨hs', hstored⟩ := unbindLoop_spec fuel _ _ hs hloop
  refine ⟨list, hs', hstored, ?_, ?_⟩
  · split
    · rw [disable_actions]
    · rfl
  · intro other hother
    split
    · next hnone =>
      rw [masked_disable hirq hother, decide_eq_true (find_action_none.mp hnone), Bool.and_true]
      rfl
    · next hsome =>
      rw [decide_eq_false (mt find_action_none.mpr hsome), Bool.and_false, Bool.or_false]
      rfl

/-- **`unbind_irq` ends**: every round takes an action away, and there are as many rounds as
    actions of the device. -/
theorem unbind_irq_ends {pic : I8259} {d : BitVec 32} (hs : Sound (pic.actions irq)) :
    ∃ fuel pic', unbind_irq fuel pic irq d = some pic' := by
  obtain ⟨list, h⟩ := unbindLoop_ends (d := d) _ (pic.actions irq) hs (Nat.lt_succ_self _)
  exact ⟨_, _, by rw [unbind_irq, h]; rfl⟩

/-- **What stays bound** and what the mask follows: the two ways for an unbind to leave the mask
    right. -/
theorem maskFollows_iff {actions : List Action} {d : BitVec 32} :
    MaskFollows actions d ↔
      otherDevices d actions = [] ∨ ∃ action ∈ otherDevices d actions, action.dev_id = -1 := by
  constructor
  · rintro (hall | ⟨hd, action, hmem, hdev⟩)
    · refine Or.inl (List.filter_eq_nil_iff.mpr fun action hmem => ?_)
      simp [hall action hmem]
    · refine Or.inr ⟨action, List.mem_filter.mpr ⟨hmem, ?_⟩, hdev⟩
      rw [hdev]
      exact decide_eq_true (Ne.symm hd)
  · rintro (hnil | ⟨action, hmem, hdev⟩)
    · refine Or.inl fun action hmem => ?_
      simpa using List.filter_eq_nil_iff.mp hnil action hmem
    · obtain ⟨hmem, hne⟩ := List.mem_filter.mp hmem
      refine Or.inr ⟨?_, action, hmem, hdev⟩
      rw [← hdev]
      exact Ne.symm (of_decide_eq_true hne)

/-- The state after an unbind. -/
def unbound (s : IrqState) (pic : I8259) (irq : Nat) (d : BitVec 32) : IrqState :=
  ⟨pic, Function.update s.bound irq (otherDevices d (s.bound irq))⟩

/-- Binding adds the action to the list and to what is bound, or to neither. -/
theorem bindStep_holds (hs : Holds s) (hirq : IsLine irq) (device_id : BitVec 32)
    (handler : Handler) (policy_flags : BitVec 32) :
    Holds (bindStep s irq device_id handler policy_flags) := by
  rcases bindStep_cases hs hirq device_id handler policy_flags with
    e | ⟨list, hsound, -, hact, hbound, -⟩
  · rw [e]
    exact hs
  · intro other hother
    rw [hact, hbound]
    by_cases h : other = irq
    · subst h
      rw [Function.update_self, Function.update_self]
      exact ⟨hsound, rfl⟩
    · rw [Function.update_of_ne h, Function.update_of_ne h]
      exact hs other hother

/-- Binding unmasks its line, which has an action now, and no other. -/
theorem bindStep_maskRight (hs : Holds s) (hirq : IsLine irq) (device_id : BitVec 32)
    (handler : Handler) (policy_flags : BitVec 32) {other : Nat} (hother : IsLine other)
    (hright : MaskRight s other) :
    MaskRight (bindStep s irq device_id handler policy_flags) other := by
  rcases bindStep_cases hs hirq device_id handler policy_flags with
    e | ⟨list, -, hne, -, hbound, enabled, hen, hmask⟩
  · rw [e]
    exact hright
  · unfold MaskRight
    rw [hbound, hmask other hother.1]
    by_cases h : other = irq
    · subst h
      rw [Function.update_self]
      refine ⟨fun _ => hne, fun _ => ?_⟩
      -- unmasked before, or unmasked now
      by_cases hnil : s.bound other = []
      · rw [hen hnil]
        simp
      · rw [hright.mpr hnil]
        rfl
    · rw [Function.update_of_ne h, decide_eq_false h, Bool.and_false, Bool.not_false, Bool.and_true]
      exact hright

/-- Unbinding takes the actions of the device away from both. -/
theorem unbound_holds (hs : Holds s) (hirq : IsLine irq) {d : BitVec 32} {fuel : Nat} {pic : I8259}
    (h : unbind_irq fuel s.pic irq d = some pic) : Holds (unbound s pic irq d) := by
  obtain ⟨hsound, hstored⟩ := hs irq hirq
  obtain ⟨list, hsound', hstored', hact, -⟩ := unbind_irq_spec hsound hirq.1 h
  intro other hother
  simp only [unbound, hact]
  by_cases h : other = irq
  · subst h
    rw [Function.update_self, Function.update_self, hstored', hstored]
    exact ⟨hsound', rfl⟩
  · rw [Function.update_of_ne h, Function.update_of_ne h]
    exact hs other hother

/-- Unbinding does not touch the mask of another line. -/
theorem unbound_maskRight_of_ne (hs : Holds s) (hirq : IsLine irq) {d : BitVec 32} {fuel : Nat}
    {pic : I8259} (h : unbind_irq fuel s.pic irq d = some pic) {other : Nat} (hother : IsLine other)
    (hne : other ≠ irq) (hright : MaskRight s other) : MaskRight (unbound s pic irq d) other := by
  obtain ⟨list, -, -, -, hmask⟩ := unbind_irq_spec (hs irq hirq).1 hirq.1 h
  have hbound : (unbound s pic irq d).bound other = s.bound other := Function.update_of_ne hne _ _
  unfold MaskRight
  rw [hbound, show (unbound s pic irq d).pic = pic from rfl, hmask other hother.1,
    decide_eq_false hne, Bool.false_and, Bool.or_false]
  exact hright

/-- **When an unbind leaves the mask of its line right.** -/
theorem unbound_maskRight (hs : Holds s) (hirq : IsLine irq) {d : BitVec 32} {fuel : Nat}
    {pic : I8259} (h : unbind_irq fuel s.pic irq d = some pic) (hright : MaskRight s irq) :
    MaskRight (unbound s pic irq d) irq ↔ MaskFollows (s.bound irq) d := by
  obtain ⟨hsound, hstored⟩ := hs irq hirq
  obtain ⟨list, -, hstored', -, hmask⟩ := unbind_irq_spec hsound hirq.1 h
  rw [hstored] at hstored'
  rw [maskFollows_iff]
  unfold MaskRight unbound
  simp only [Function.update_self]
  rw [hmask irq hirq.1, decide_eq_true rfl, Bool.true_and, hstored']
  by_cases hleft : ∀ action ∈ otherDevices d (s.bound irq), action.dev_id ≠ -1
  · -- the search comes back empty and the line is masked
    rw [decide_eq_true hleft, Bool.or_true]
    constructor
    · intro hiff
      refine Or.inl ?_
      by_contra hne
      exact absurd (hiff.mpr hne) (by simp)
    · rintro (hnil | ⟨action, hmem, hdev⟩)
      · simp [hnil]
      · exact absurd hdev (hleft action hmem)
  · -- an action of device -1 stays, and the mask as it was
    rw [decide_eq_false hleft, Bool.or_false]
    obtain ⟨action, hmem, hdev⟩ : ∃ action ∈ otherDevices d (s.bound irq), action.dev_id = -1 := by
      by_contra hno
      exact hleft fun action hmem hdev => hno ⟨action, hmem, hdev⟩
    have hbound : s.bound irq ≠ [] := List.ne_nil_of_mem (List.mem_filter.mp hmem).1
    exact ⟨fun _ => Or.inr ⟨action, hmem, hdev⟩,
      fun _ => ⟨fun _ => List.ne_nil_of_mem hmem, fun _ => hright.mpr hbound⟩⟩

end Steps

/-! ## All runs -/

/-- At the start nothing is bound. -/
theorem i8259_init_holds : Holds ⟨i8259_init, fun _ => []⟩ :=
  fun _ _ => ⟨.init (fun _ => rfl) (fun _ => rfl), rfl⟩

/-- At the start every line but the cascade line is masked. -/
theorem i8259_init_masked : ∀ irq, irq < NR_IRQS → irq ≠ SLAVE_PIN →
    masked i8259_init irq = true := by
  decide

/-- In every run the lists hold what is bound. -/
theorem picMachine_holds {s : IrqState} (hr : Reach picMachine OnLines s) : Holds s := by
  refine hr.invariant ?_ ?_
  · intro s hs
    rw [show s = _ from hs]
    exact i8259_init_holds
  · intro s call s' hs hok hstep
    cases call with
    | bind irq device_id handler policy_flags =>
      rw [show s' = bindStep s irq device_id handler policy_flags from hstep]
      exact bindStep_holds hs hok _ _ _
    | unbind irq d =>
      obtain ⟨fuel, pic, h, rfl⟩ := hstep
      exact unbound_holds hs hok h

/-- And in a run whose calls all keep the masks, they are right. -/
theorem picMachine_maskRight {s : IrqState} (hr : Reach picMachine MasksFollow s) :
    Holds s ∧ ∀ irq, IsLine irq → MaskRight s irq := by
  refine hr.invariant (I := fun s => Holds s ∧ ∀ irq, IsLine irq → MaskRight s irq) ?_ ?_
  · intro s hs
    rw [show s = _ from hs]
    refine ⟨i8259_init_holds, fun irq hirq => ?_⟩
    simp [MaskRight, i8259_init_masked irq hirq.1 hirq.2]
  · rintro s call s' ⟨hs, hright⟩ ⟨hirq, hok⟩ hstep
    cases call with
    | bind irq device_id handler policy_flags =>
      rw [show s' = bindStep s irq device_id handler policy_flags from hstep]
      exact ⟨bindStep_holds hs hirq _ _ _,
        fun other hother => bindStep_maskRight hs hirq _ _ _ hother (hright other hother)⟩
    | unbind irq d =>
      obtain ⟨fuel, pic, h, rfl⟩ := hstep
      refine ⟨unbound_holds hs hirq h, fun other hother => ?_⟩
      by_cases he : other = irq
      · subst he
        exact (unbound_maskRight hs hirq h (hright other hirq)).mpr (hok other d rfl)
      · exact unbound_maskRight_of_ne hs hirq h hother he (hright other hother)

/-- **Binding and unbinding.**  In every run, unbinding a device ends and takes away its actions and
    no others.  In a run whose unbinds all leave nothing bound, or an action of device 0xFFFFFFFF, a
    line is unmasked exactly when an action is bound to it; and there the next unbind leaves it so
    exactly when it is of that kind too. -/
theorem picMachine_lines (s : IrqState) (hr : Reach picMachine OnLines s) :
    (∀ irq, IsLine irq → stored (s.pic.actions irq) = s.bound irq) ∧
    (∀ irq d, IsLine irq → (∃ fuel pic, unbind_irq fuel s.pic irq d = some pic) ∧
      ∀ fuel pic, unbind_irq fuel s.pic irq d = some pic →
        stored (pic.actions irq) = otherDevices d (s.bound irq) ∧
        ∀ other, other ≠ irq → pic.actions other = s.pic.actions other) ∧
    (Reach picMachine MasksFollow s → ∀ irq, IsLine irq → MaskRight s irq ∧
      ∀ d fuel pic, unbind_irq fuel s.pic irq d = some pic →
        (MaskRight (unbound s pic irq d) irq ↔ MaskFollows (s.bound irq) d)) := by
  have hs := picMachine_holds hr
  refine ⟨fun irq hirq => (hs irq hirq).2, fun irq d hirq => ⟨unbind_irq_ends (hs irq hirq).1, ?_⟩,
    ?_⟩
  · intro fuel pic h
    obtain ⟨list, -, hstored, hact, -⟩ := unbind_irq_spec (hs irq hirq).1 hirq.1 h
    rw [hact, Function.update_self, hstored, (hs irq hirq).2]
    exact ⟨rfl, fun other hne => Function.update_of_ne hne _ _⟩
  · intro hm irq hirq
    have hright := (picMachine_maskRight hm).2 irq hirq
    exact ⟨hright, fun d fuel pic h => unbound_maskRight hs hirq h hright⟩

/-- Two devices share line 5, and one of them is unbound. -/
def sharedLine : IrqState :=
  bindStep (bindStep ⟨i8259_init, fun _ => []⟩ 5 1 0x1000 0) 5 2 0x2000 0

/-- Device 1 and one with the id 0xFFFFFFFF share line 5. -/
def wildcardLine : IrqState :=
  bindStep (bindStep ⟨i8259_init, fun _ => []⟩ 5 1 0x1000 0) 5 (-1) 0x2000 0

/-- Device 1 is unbound from it. -/
def wildcardLeft : IrqState :=
  unbound wildcardLine ((unbind_irq 3 wildcardLine.pic 5 1).getD i8259_init) 5 1

/-- And then the other one. -/
def nothingLeft : IrqState :=
  unbound wildcardLeft ((unbind_irq 3 wildcardLeft.pic 5 (-1)).getD i8259_init) 5 (-1)

/-- **Two unbinds that the mask follows**: after the first the line is unmasked for what stays bound
    to it, after the second nothing is bound and it is masked. -/
theorem picMachine_lines_unbound :
    ((wildcardLeft.bound 5).map Action.dev_id = [0xFFFFFFFF] ∧ masked wildcardLeft.pic 5 = false ∧
      MaskRight wildcardLeft 5) ∧
    nothingLeft.bound 5 = [] ∧ masked nothingLeft.pic 5 = true ∧ MaskRight nothingLeft 5 := by
  have hline : IsLine 5 := ⟨by decide, by decide⟩
  have hbind : ∀ (s : IrqState) (d handler : BitVec 32), MasksFollow s (.bind 5 d handler 0) :=
    fun _ _ _ => ⟨hline, fun _ _ e => IrqCall.noConfusion e⟩
  have hunbind : ∀ (s : IrqState) (d : BitVec 32), MaskFollows (s.bound 5) d →
      MasksFollow s (.unbind 5 d) := by
    intro s d h
    refine ⟨hline, fun irq d' e => ?_⟩
    obtain ⟨rfl, rfl⟩ := IrqCall.unbind.inj e
    exact h
  have hshared : Reach picMachine MasksFollow wildcardLine :=
    .step (.step (.init rfl) (hbind _ 1 0x1000) rfl) (hbind _ (-1) 0x2000) rfl
  have hleft : Reach picMachine MasksFollow wildcardLeft :=
    hshared.step (hunbind _ 1 (Or.inr ⟨by decide, by decide⟩)) ⟨3, _, rfl, rfl⟩
  have hnothing : Reach picMachine MasksFollow nothingLeft :=
    hleft.step (hunbind _ (-1) (Or.inl (by decide))) ⟨3, _, rfl, rfl⟩
  exact ⟨⟨by decide, by decide,
      ((picMachine_lines _ (hleft.mono fun _ _ h => h.1)).2.2 hleft 5 hline).1⟩,
    by decide, by decide,
    ((picMachine_lines _ (hnothing.mono fun _ _ h => h.1)).2.2 hnothing 5 hline).1⟩

/-- Unbinding one of two devices masks the line while the other is still bound to it. -/
theorem picMachine_masks_bound_line : ¬ ∀ s : IrqState, Reach picMachine OnLines s →
    ∀ irq, IsLine irq → MaskRight s irq := by
  intro h
  have hline : IsLine 5 := ⟨by decide, by decide⟩
  let left : IrqState := unbound sharedLine ((unbind_irq 3 sharedLine.pic 5 1).getD i8259_init) 5 1
  have hr : Reach picMachine OnLines left := by
    refine .step (a := .unbind 5 1)
      (.step (a := .bind 5 2 0x2000 0) (.step (a := .bind 5 1 0x1000 0)
      (.init rfl) hline rfl) hline rfl) hline ⟨3, _, rfl, rfl⟩
  have hm : masked left.pic 5 = true := by decide
  have hb : left.bound 5 ≠ [] := by decide
  have := (h left hr 5 hline).mpr hb
  rw [hm] at this
  cases this

end TedkOS.Pic
