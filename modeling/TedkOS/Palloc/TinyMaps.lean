/-
  The map of a process over the calls that change it (`TinyMemMap` of klibs/palloc.cpp).

  A `TinyMemMap` says twice which virtual pages are mapped: by a bit for each page, and by the
  mappings on `pdStack`.  `add` looks at the bit and changes both.  `remove` looks at the bit too,
  but deletes the first mapping to the given PHYSICAL page, which need not be the mapping of the
  virtual page whose bit it clears.

  So bits and mappings agree (`Marked`) exactly as long as every removal names the physical page of
  its own mapping, and no mapping before that one has it (`tinyMap_right_iff`).
-/
import TedkOS.Palloc.MemMapManagerRuns

namespace TedkOS.Palloc

open Runs FreeList

/-- The calls of a `TinyMemMap`. -/
inductive TinyCall
  | add (virt : VirtAddr) (phys : PhysAddr)
  | remove (virt : VirtAddr) (physIdx : PhysAddr)

namespace TinyMemMap

def call (t : TinyMemMap) : TinyCall → Bool × TinyMemMap
  | .add virt phys => t.add virt phys
  | .remove virt physIdx => t.remove virt physIdx

/-- The maps of processes. -/
def machine : Machine TinyMemMap TinyCall := Machine.ofFn new fun t a => (t.call a).2

/-- The first mapping to the physical page is that of the virtual page, if the virtual page is
    mapped. -/
def NamesOwnPage (t : TinyMemMap) : TinyCall → Prop
  | .add _ _ => True
  | .remove virt physIdx => t.isVirtAddrUsed.test virt.vidx = true →
      ∃ val, t.pdStack.items.find? (fun mapping => mapping.phys.same physIdx) = some val ∧
        val.virt.vidx = virt.vidx

/-- A call does what its result says, and the bits mark the pages of the mappings, each mapped
    once. -/
structure CallRight (t : TinyMemMap) (a : TinyCall) : Prop where
  marked : Marked (t.call a).2
  failed : (t.call a).1 = false → (t.call a).2 = t
  removed : ∀ virt physIdx, a = .remove virt physIdx → (t.call a).1 = true →
    (∃ val ∈ t.pdStack.items, val.virt.vidx = virt.vidx) ∧
    (t.call a).2.pdStack.items = t.pdStack.items.filter fun val => val.virt.vidx != virt.vidx

end TinyMemMap

open TinyMemMap

section Calls

variable {t : TinyMemMap} {virt : VirtAddr} {phys : PhysAddr}

theorem Marked.add_right (h : Marked t) (virt : VirtAddr) (phys : PhysAddr) :
    CallRight t (.add virt phys) := by
  constructor
  case marked => exact h.add virt phys
  case failed =>
    intro hfalse
    change (t.add virt phys).1 = false at hfalse
    show (t.add virt phys).2 = t
    unfold TinyMemMap.add at hfalse ⊢
    simp only at hfalse ⊢
    split
    · rfl
    · next hvacant =>
      rw [if_neg hvacant] at hfalse
      exact absurd hfalse.symm Bool.false_ne_true
  case removed => nofun

/-- A page that is not mapped is not removed, and nothing changes. -/
theorem Marked.remove_unused (h : Marked t) (hunused : t.isVirtAddrUsed.test virt.vidx = false) :
    CallRight t (.remove virt phys) := by
  have hcall : t.call (.remove virt phys) = (false, t) := by
    show t.remove virt phys = (false, t)
    rw [TinyMemMap.remove, hunused, if_neg Bool.false_ne_true]
  constructor
  case marked => rw [hcall]; exact h
  case failed => exact fun _ => by rw [hcall]
  case removed =>
    rintro _ _ - htrue
    rw [hcall] at htrue
    exact absurd htrue Bool.false_ne_true

/-- What a removal of a mapped page does. -/
theorem remove_used (hused : t.isVirtAddrUsed.test virt.vidx = true) (phys : PhysAddr) :
    t.call (.remove virt phys) =
      ((t.pdStack.dropFirst fun mapping => mapping.phys.same phys).1.isSome,
        ⟨(t.pdStack.dropFirst fun mapping => mapping.phys.same phys).2,
        t.isVirtAddrUsed.clear virt.vidx⟩) := by
  show t.remove virt phys = _
  rw [TinyMemMap.remove, if_pos hused]

/-- The first mapping to the page goes, and the bit goes down. -/
theorem remove_found (hused : t.isVirtAddrUsed.test virt.vidx = true) {val : Mapping}
    (hfind : t.pdStack.items.find? (fun mapping => mapping.phys.same phys) = some val) :
    ∃ l₁ l₂, t.pdStack.items = l₁ ++ val :: l₂ ∧ (t.call (.remove virt phys)).1 = true ∧
      (t.call (.remove virt phys)).2.pdStack.items = l₁ ++ l₂ ∧
      (t.call (.remove virt phys)).2.isVirtAddrUsed = t.isVirtAddrUsed.clear virt.vidx := by
  obtain ⟨hsame, l₁, l₂, hitems, hbefore⟩ := List.find?_eq_some_iff_append.mp hfind
  obtain ⟨hdropped, hrest⟩ := Stack.dropFirst_at hitems hsame fun a ha => by
    simpa using hbefore a ha
  refine ⟨l₁, l₂, hitems, ?_, ?_, ?_⟩
  · rw [remove_used hused, hdropped]
    rfl
  · rw [remove_used hused]
    exact hrest
  · rw [remove_used hused]

/-- **A removal that names its own page**: bit and mapping go together. -/
theorem Marked.remove_own (h : Marked t) (hused : t.isVirtAddrUsed.test virt.vidx = true)
    {val : Mapping}
    (hfind : t.pdStack.items.find? (fun mapping => mapping.phys.same phys) = some val)
    (hown : val.virt.vidx = virt.vidx) : CallRight t (.remove virt phys) := by
  obtain ⟨l₁, l₂, hitems, htrue, hrest, hbits⟩ := remove_found hused hfind
  have hpages : t.pdStack.items.map (fun val => val.virt.vidx) =
      l₁.map (fun val => val.virt.vidx) ++ virt.vidx :: l₂.map (fun val => val.virt.vidx) := by
    rw [hitems, List.map_append, List.map_cons, hown]
  have hnodup := h.nodup
  rw [hpages] at hnodup
  -- a page is mapped once, so after the removal there is no mapping of it left
  obtain ⟨hgone, hnodup'⟩ := List.nodup_cons.mp (List.perm_middle.nodup_iff.mp hnodup)
  constructor
  case marked =>
    refine ⟨?_, fun v => ?_⟩
    · rw [hrest, List.map_append]
      exact hnodup'
    · rw [hrest, hbits, List.map_append, Set.mem_ofPred_eq, BitSet.test_clear]
      by_cases hv : v = virt.vidx
      · rw [if_pos hv, hv]
        exact iff_of_false hgone Bool.false_ne_true
      · have hmem := h.mem_iff v
        rw [hpages, List.perm_middle.mem_iff, List.mem_cons, or_iff_right hv] at hmem
        rw [if_neg hv]
        exact hmem
  case failed => exact fun hfalse => absurd (hfalse.symm.trans htrue) Bool.false_ne_true
  case removed =>
    rintro _ _ ⟨rfl, rfl⟩ -
    refine ⟨⟨val, by rw [hitems]; exact List.mem_append_right _ List.mem_cons_self, hown⟩, ?_⟩
    have hothers : ∀ l : List Mapping, (∀ a ∈ l, a ∈ l₁ ++ l₂) →
        l.filter (fun val => val.virt.vidx != virt.vidx) = l := by
      intro l hl
      rw [List.filter_eq_self]
      intro a ha
      rw [bne_iff_ne]
      intro hpage
      exact hgone (hpage ▸ List.map_append ▸ List.mem_map_of_mem (hl a ha))
    rw [hrest, hitems, List.filter_append,
      List.filter_cons_of_neg (by rw [bne_iff_ne]; exact not_not_intro hown), hothers l₁ fun a ha =>
      List.mem_append_left _ ha, hothers l₂ fun a ha => List.mem_append_right _ ha]

/-- **One call**: it is right exactly if a removal names its own page. -/
theorem Marked.call_right_iff (h : Marked t) (a : TinyCall) : CallRight t a ↔ t.NamesOwnPage a := by
  cases a with
  | add virt phys => exact iff_of_true (h.add_right virt phys) trivial
  | remove virt phys =>
    cases hused : t.isVirtAddrUsed.test virt.vidx with
    | false =>
      refine iff_of_true (h.remove_unused hused) fun htrue => ?_
      rw [hused] at htrue
      exact absurd htrue Bool.false_ne_true
    | true =>
      cases hfind : t.pdStack.items.find? (fun mapping => mapping.phys.same phys) with
      | none =>
        -- no mapping to the physical page: the call fails, and the bit is gone
        refine iff_of_false (fun hright => ?_) fun hnames => ?_
        · have hnone : ∀ a ∈ t.pdStack.items, a.phys.same phys = false := fun a ha =>
            Bool.eq_false_iff.mpr (List.find?_eq_none.mp hfind a ha)
          have hcall := remove_used hused phys
          rw [Stack.dropFirst_none hnone] at hcall
          have hsame := hright.failed (by rw [hcall]; rfl)
          rw [hcall] at hsame
          have hbit := congrArg (fun t => t.isVirtAddrUsed.test virt.vidx) hsame
          simp only [BitSet.test_clear, hused] at hbit
          exact absurd hbit Bool.false_ne_true
        · obtain ⟨val, hval, -⟩ := hnames hused
          rw [hfind] at hval
          cases hval
      | some val =>
        by_cases hown : val.virt.vidx = virt.vidx
        · exact iff_of_true (h.remove_own hused hfind hown) fun _ => ⟨val, hfind, hown⟩
        · -- the mapping of another page goes: the page is mapped, and its bit is gone
          refine iff_of_false (fun hright => ?_) fun hnames => ?_
          · obtain ⟨l₁, l₂, hitems, -, hrest, hbits⟩ := remove_found hused hfind
            have hmapped := (h.mem_iff virt.vidx).mpr hused
            rw [hitems, List.map_append, List.map_cons, List.perm_middle.mem_iff, List.mem_cons,
              or_iff_right (Ne.symm hown), ← List.map_append, ← hrest] at hmapped
            have hbit := (hright.marked.mem_iff virt.vidx).mp hmapped
            rw [Set.mem_ofPred_eq, hbits, BitSet.test_clear, if_pos rfl] at hbit
            exact absurd hbit Bool.false_ne_true
          · obtain ⟨val', hval', hown'⟩ := hnames hused
            rw [hfind] at hval'
            exact hown (Option.some.inj hval' ▸ hown')

end Calls

/-! ## Runs -/

/-- **Bits and mappings agree in every run whose removals name their own page**, and the next call
    is right exactly if it does too. -/
theorem tinyMap_right_iff {t : TinyMemMap} (hr : Reach machine NamesOwnPage t) :
    Marked t ∧ ∀ a, CallRight t a ↔ t.NamesOwnPage a := by
  have h : Marked t := Reach.ofFn_invariant (I := Marked) marked_new
    (fun _ a hi ok => ((Marked.call_right_iff hi a).mpr ok).marked) hr
  exact ⟨h, h.call_right_iff⟩

/-- The pages 3 and 4 at the physical page 5. -/
def sharedPage : TinyMemMap :=
  ((new.call (.add ⟨3 <<< 22⟩ (PhysAddr.ofIndex 5 0))).2.call
    (.add ⟨4 <<< 22⟩ (PhysAddr.ofIndex 5 0))).2

theorem sharedPage_reach {ok : TinyMemMap → TinyCall → Prop}
    (hok : ∀ t virt phys, ok t (.add virt phys)) :
    Reach machine ok sharedPage :=
  .step (.step (.init rfl) (hok _ _ _) rfl) (hok _ _ _) rfl

/-- The page mapped first names itself. -/
theorem tinyMap_right_iff_first :
    sharedPage.NamesOwnPage (.remove ⟨3 <<< 22⟩ (PhysAddr.ofIndex 5 0)) ∧
      CallRight sharedPage (.remove ⟨3 <<< 22⟩ (PhysAddr.ofIndex 5 0)) :=
  have hnames : sharedPage.NamesOwnPage (.remove ⟨3 <<< 22⟩ (PhysAddr.ofIndex 5 0)) :=
    fun _ => ⟨⟨PhysAddr.ofIndex 5 0, ⟨3 <<< 22⟩⟩, rfl, rfl⟩
  ⟨hnames, ((tinyMap_right_iff (sharedPage_reach fun _ _ _ => trivial)).2 _).mpr hnames⟩

/-- **Removing the other page deletes the wrong mapping.** -/
theorem tinyMap_wrong : ¬ ∀ t, Reach machine (fun _ _ => True) t → Marked t := by
  intro h
  have hr : Reach machine (fun _ _ => True)
      (sharedPage.call (.remove ⟨4 <<< 22⟩ (PhysAddr.ofIndex 5 0))).2 :=
    .step (sharedPage_reach fun _ _ _ => trivial) trivial rfl
  have hmem := ((h _ hr).mem_iff 4).mp (by decide)
  exact absurd hmem (by decide)

end TedkOS.Palloc
