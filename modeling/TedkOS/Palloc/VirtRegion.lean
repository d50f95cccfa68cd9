/-
  The virtual page allocator (`VirtualMemRegion`, inc/klibs/palloc.h).

  A region hands out 4 MB pages of virtual addresses, one at a time (`allocPage`) or several in a
  row (`allocConsPage`).  Like the physical allocator it keeps its pages twice: a bitmap
  `isVirtAddrUsed`, up for pages in use, and a stack `freeVirtAddr`.

  What it is FOR is a set of free pages (`FreeSet`): take one, take a run of them, give one back.
  The second half of the file states this and decides, call by call, where the code does it:

  * `allocPage` does, always;
  * `allocConsPage` never marks the pages it hands out, and searches with `findConsZeros`, which
    looks at ONE page only — so it is right only when it rightly returns nothing;
  * `freePage` looks for the page by its ABSOLUTE index, and the other two use the index relative to
    the region: it is right only for a region that starts at address 0.

  The invariant is `Agree`: the stack has the pages that the bitmap says are free, each once.  It
  holds at the start, `allocPage` takes a page off both, and a region at address 0 gives one back
  to both.
-/
import TedkOS.Lib.Runs
import TedkOS.Klibs.BitSet
import TedkOS.Klibs.Stack

namespace TedkOS.VirtRegion

open FreeList Runs

/-- `4_MB`. -/
def SmallestPageSize : BitVec 32 := 4 * 1024 * 1024

/-- The template parameters.  "MaxSize and startAddr must be divisible by 4MB." -/
structure Params where
  startAddr : BitVec 32
  MaxSize : BitVec 32
  startAligned : startAddr % SmallestPageSize = 0
  sizeAligned : MaxSize % SmallestPageSize = 0

def Params.MaxNumElements (P : Params) : Nat := (P.MaxSize / SmallestPageSize).toNat

/-- `virtLast1G`. -/
def virtLast1G : Params := ⟨0xc0000000, 0x3fc00000, by decide, by decide⟩

/-- `VirtualMemRegion<startAddr, MaxSize>`. -/
structure VirtualMemRegion (P : Params) where
  isVirtAddrUsed : BitSet P.MaxNumElements
  freeVirtAddr : Stack Nat P.MaxNumElements
  isCommonPage : BitSet P.MaxNumElements

namespace VirtualMemRegion

variable {P : Params}

/-- `VirtualMemRegion()`. -/
def construct (P : Params) : VirtualMemRegion P where
  isVirtAddrUsed := BitSet.new _
  freeVirtAddr := (List.range P.MaxNumElements).foldl (fun s i => s.push i) (Stack.new _ _)
  isCommonPage := BitSet.new _

/-- `startIdx * 4_MB + startAddr`. -/
def addrOf (P : Params) (idx : Nat) : BitVec 32 :=
  BitVec.ofNat 32 idx * SmallestPageSize + P.startAddr

/-- The loop of `allocConsPage` that takes the pages off the stack; `none` is
    `trigger_exception<27>()`. -/
def killItems (isCommonPage : Bool) : List Nat → VirtualMemRegion P → Option (VirtualMemRegion P)
  | [], o => some o
  | i :: rest, o =>
    match o.freeVirtAddr.firstIdx fun x => i == x with
    | some idxInStack =>
      killItems isCommonPage rest { o with
        freeVirtAddr := o.freeVirtAddr.drop idxInStack
        isCommonPage := if isCommonPage then o.isCommonPage.set i else o.isCommonPage }
    | none => none

/-- `allocConsPage(num, isCommonPage)`; the outer `none` is `trigger_exception<27>()`. -/
def allocConsPage (num : Nat) (isCommonPage : Bool) (o : VirtualMemRegion P) :
    Option (Option (BitVec 32) × VirtualMemRegion P) :=
  if o.freeVirtAddr.empty then some (none, o)
  else
    match o.isVirtAddrUsed.findConsZeros num with
    | some startIdx =>
      -- `isVirtAddrUsed` is not touched here
      (killItems isCommonPage (List.range' startIdx num) o).map fun o' =>
        (some (addrOf P startIdx), o')
    | none => some (none, o)

/-- `allocPage(isCommonPage)`. -/
def allocPage (isCommonPage : Bool) (o : VirtualMemRegion P) :
    Option (BitVec 32) × VirtualMemRegion P :=
  if o.freeVirtAddr.empty then (none, o)
  else
    let (top, freeVirtAddr) := o.freeVirtAddr.pop
    (some (addrOf P top), {
      freeVirtAddr
      isVirtAddrUsed := o.isVirtAddrUsed.set top
      isCommonPage := if isCommonPage then o.isCommonPage.set top else o.isCommonPage })

/-- `freePage(virtAddr)`. -/
def freePage (virtAddr : BitVec 32) (o : VirtualMemRegion P) : VirtualMemRegion P :=
  let pageIndex := (virtAddr >>> 22).toNat
  if o.isVirtAddrUsed.test pageIndex then
    { isVirtAddrUsed := o.isVirtAddrUsed.clear pageIndex
      isCommonPage := o.isCommonPage.clear pageIndex
      freeVirtAddr := o.freeVirtAddr.push pageIndex }
  else o

end VirtualMemRegion

open VirtualMemRegion

/-! ## What a region is for

  `FreeSet` has the pages that are free and nothing else, and says what a call may answer;
  several answers may be right.  Against it the code is judged call by call (`Correct`), and
  `Good` is when it does what is asked of it. -/

inductive VirtCall
  | allocPage (isCommonPage : Bool)
  | allocConsPage (num : Nat) (isCommonPage : Bool)
  | freePage (virtAddr : BitVec 32)

/-- A call together with the address it returned. -/
abbrev Event := VirtCall × Option (BitVec 32)

/-- `num` pages in a row, from `p` on, are all in `F`. -/
def IsRun (F : Set Nat) (num p : Nat) : Prop := ∀ i, i < num → p + i ∈ F

/-- The pages of a run. -/
def runOf (num p : Nat) : Set Nat := {q | p ≤ q ∧ q < p + num}

/-- **A set of free pages**: what each call may return, and what it leaves free. -/
inductive FreeSet (P : Params) : Set Nat → Event → Set Nat → Prop
  | alloc {F p b} : p ∈ F → FreeSet P F (.allocPage b, some (addrOf P p)) (F \ {p})
  | allocNone {F b} : (∀ p, p ∉ F) → FreeSet P F (.allocPage b, none) F
  | cons {F num p b} : IsRun F num p →
      FreeSet P F (.allocConsPage num b, some (addrOf P p)) (F \ runOf num p)
  | consNone {F num b} : (∀ p, ¬ IsRun F num p) → FreeSet P F (.allocConsPage num b, none) F
  | free {F p} : p < P.MaxNumElements → p ∉ F →
      FreeSet P F (.freePage (addrOf P p), none) (insert p F)

/-- The machine of the specification: all pages free at first. -/
def FreeSet.machine (P : Params) : Machine (Set Nat) Event where
  init F := F = {p | p < P.MaxNumElements}
  step := FreeSet P

section Refinement

variable {P : Params}

/-- What a call of the code does; `none` is an exception. -/
def exec (s : VirtualMemRegion P) : VirtCall → Option (Option (BitVec 32) × VirtualMemRegion P)
  | .allocPage b => some (s.allocPage b)
  | .allocConsPage num b => s.allocConsPage num b
  | .freePage a => some (none, s.freePage a)

/-- The machine of the code. -/
def machine (P : Params) : Machine (VirtualMemRegion P) Event where
  init s := s = construct P
  step s e s' := exec s e.1 = some (e.2, s')

/-- The pages the bitmap says are free. -/
def freeOf (s : VirtualMemRegion P) : Set Nat :=
  {p | p < P.MaxNumElements ∧ s.isVirtAddrUsed.test p = false}

/-- Bitmap and stack agree: a page is on the stack once and its bit is down, or it is off the stack
    and its bit is up. -/
def Agree (s : VirtualMemRegion P) : Prop := Tracks s.freeVirtAddr.items (freeOf s)

/-- Callers free the pages they were given, and ask for at least one. -/
def Allowed (s : VirtualMemRegion P) : VirtCall → Prop
  | .allocPage _ => True
  | .allocConsPage num _ => 1 ≤ num
  | .freePage a => ∃ p, p < P.MaxNumElements ∧ p ∉ freeOf s ∧ a = addrOf P p

/-- A call does what the specification says, without an exception, and leaves the two in
    agreement. -/
def Correct (s : VirtualMemRegion P) (call : VirtCall) : Prop :=
  ∃ ret s', exec s call = some (ret, s') ∧ Agree s' ∧ FreeSet P (freeOf s) (call, ret) (freeOf s')

/-- The calls the code gets right. -/
def Good (s : VirtualMemRegion P) : VirtCall → Prop
  | .allocPage _ => True
  | .allocConsPage num _ => s.freeVirtAddr.empty = true ∨ P.MaxNumElements < num ∨
      (s.isVirtAddrUsed.test num = true ∧ ∀ p, ¬ IsRun (freeOf s) num p)
  | .freePage _ => P.startAddr = 0

/-! ## Page indices and addresses

  A page is an index relative to the region in two of the calls and an absolute one in the third.
   For a region that starts at 0 they are the same. -/

theorem MaxNumElements_lt (P : Params) : P.MaxNumElements < 1024 := by
  have h := P.MaxSize.isLt
  have hsz : SmallestPageSize.toNat = 4 * 1024 * 1024 := by decide
  rw [Params.MaxNumElements, BitVec.toNat_udiv, hsz]
  omega

/-- `startAddr` as a number of pages. -/
theorem startAddr_pages (P : Params) :
    ∃ k, k < 1024 ∧ P.startAddr.toNat = 4 * 1024 * 1024 * k ∧ (P.startAddr = 0 ↔ k = 0) := by
  have h := P.startAddr.isLt
  have hal := congrArg BitVec.toNat P.startAligned
  have hsz : SmallestPageSize.toNat = 4 * 1024 * 1024 := by decide
  rw [BitVec.toNat_umod, hsz] at hal
  have hal' : P.startAddr.toNat % (4 * 1024 * 1024) = 0 := hal
  refine ⟨P.startAddr.toNat / (4 * 1024 * 1024), by omega, by omega, ?_⟩
  rw [← BitVec.toNat_inj]
  have h0 : (0 : BitVec 32).toNat = 0 := rfl
  rw [h0]
  omega

/-- The absolute index of a page, which `freePage` computes from its address. -/
theorem index_addrOf (P : Params) {k : Nat} (hk : P.startAddr.toNat = 4 * 1024 * 1024 * k)
    (p : Nat) : (addrOf P p >>> 22).toNat = (p + k) % 1024 := by
  have hsz : SmallestPageSize.toNat = 4 * 1024 * 1024 := by decide
  rw [addrOf, BitVec.toNat_ushiftRight, Nat.shiftRight_eq_div_pow, BitVec.toNat_add,
    BitVec.toNat_mul, BitVec.toNat_ofNat, hsz, hk]
  omega

/-- Pages of a region have different addresses. -/
theorem addrOf_inj {p q : Nat} (hp : p < P.MaxNumElements) (hq : q < P.MaxNumElements)
    (h : addrOf P p = addrOf P q) : p = q := by
  have hn := MaxNumElements_lt P
  obtain ⟨k, _, hk, _⟩ := startAddr_pages P
  have hi := congrArg (fun a : BitVec 32 => (a >>> 22).toNat) h
  simp only [index_addrOf P hk] at hi
  omega

/-! ## The operations and the free set

  For each call, exactly when it is a step of `FreeSet`.  `allocConsPage` takes its pages off the
  stack and leaves their bits, so once it has found something the two copies disagree
  (`Agree.allocCons_found`), whatever the caller does with the pages. -/

variable {s : VirtualMemRegion P}

/-- The stack of a new region: every page, the last one on top. -/
theorem items_construct (P : Params) :
    (construct P).freeVirtAddr.items = List.range P.MaxNumElements := by
  show ((List.range P.MaxNumElements).foldl (fun s i => s.push i) (Stack.new Nat _)).items = _
  rw [Stack.items_foldl_push _ _ (by simp)]
  rfl

/-- A new region has all its pages free. -/
theorem agree_construct (P : Params) : Agree (construct P) := by
  refine ⟨(items_construct P).symm ▸ List.nodup_range, fun p => ?_⟩
  rw [items_construct, List.mem_range, freeOf]
  simp [construct]

theorem freeOf_construct (P : Params) : freeOf (construct P) = {p | p < P.MaxNumElements} := by
  ext p
  simp [freeOf, construct]

/-- The stack has room for a page in use. -/
theorem Agree.room (h : Agree s) {p : Nat} (hp : p < P.MaxNumElements) (hu : p ∉ freeOf s) :
    s.freeVirtAddr.items.length < P.MaxNumElements := by
  have := h.length_lt (U := List.range P.MaxNumElements) (fun a ha => List.mem_range.mpr ha.1)
    (List.mem_range.mpr hp) hu
  rwa [List.length_range] at this

theorem Agree.empty (h : Agree s) (he : s.freeVirtAddr.empty = true) : ∀ p, p ∉ freeOf s := by
  unfold Agree at h
  rw [(Stack.empty_iff _).mp he] at h
  exact h.eq_empty

/-- No run is longer than the region. -/
theorem not_isRun_of_lt {num : Nat} (h : P.MaxNumElements < num) (p : Nat) :
    ¬ IsRun (freeOf s) num p := fun hrun => by
  have := (hrun (num - 1) (by omega)).1
  omega

/-- `allocPage` is right in every state. -/
theorem Agree.allocPage (h : Agree s) (b : Bool) : Correct s (.allocPage b) := by
  cases he : s.freeVirtAddr.empty with
  | true =>
    refine ⟨none, s, ?_, h, .allocNone (h.empty he)⟩
    rw [exec, VirtualMemRegion.allocPage, he]; rfl
  | false =>
    have hitems := Stack.items_pop s.freeVirtAddr he
    rcases hpop : s.freeVirtAddr.pop with ⟨top, rest⟩
    rw [hpop] at hitems
    unfold Agree at h
    rw [hitems] at h
    obtain ⟨htop, hrest⟩ := h.pop
    have htop' : top ∈ freeOf s := htop
    -- the free set loses exactly the page popped
    have hfree : ∀ c, freeOf (⟨s.isVirtAddrUsed.set top, rest, c⟩ : VirtualMemRegion P) =
        freeOf s \ {top} := by
      intro c
      ext q
      simp only [freeOf, Set.mem_ofPred_eq, Set.mem_sdiff, Set.mem_singleton_iff, BitSet.test_set]
      by_cases hq : q = top
      · simp [hq, htop'.1]
      · simp [hq]
    refine ⟨some (addrOf P top), ⟨s.isVirtAddrUsed.set top, rest,
      if b then s.isCommonPage.set top else s.isCommonPage⟩, ?_, ?_, ?_⟩
    · rw [exec, VirtualMemRegion.allocPage, he, hpop]; rfl
    · rw [Agree, hfree]; exact hrest
    · rw [hfree]; exact .alloc htop'

/-- A page on top of the stack is marked as used when it is handed out. -/
theorem allocPage_used {rest : List Nat} {top : Nat} (h : s.freeVirtAddr.items = rest ++ [top])
    (htop : top < P.MaxNumElements) (b : Bool) :
    (s.allocPage b).2.isVirtAddrUsed.test top = true := by
  have he : s.freeVirtAddr.empty = false := by
    rw [Bool.eq_false_iff, Ne, Stack.empty_iff, h]
    simp
  have hpop : s.freeVirtAddr.pop.1 = top := by
    have hitems := Stack.items_pop s.freeVirtAddr he
    rw [h] at hitems
    exact (List.cons.inj (List.append_inj_right' hitems rfl)).1.symm
  unfold VirtualMemRegion.allocPage
  rw [he]
  show (s.isVirtAddrUsed.set s.freeVirtAddr.pop.1).test top = true
  rw [hpop, BitSet.test_set, if_pos ⟨rfl, htop⟩]

/-- What the loop of `allocConsPage` does when it does not end in an exception: the pages leave the
    stack, the bitmap stays. -/
theorem killItems_some (b : Bool) : ∀ (l : List Nat) (o o' : VirtualMemRegion P) (F : Set Nat),
    Tracks o.freeVirtAddr.items F → killItems b l o = some o' →
      Tracks o'.freeVirtAddr.items (F \ {x | x ∈ l}) ∧ (∀ i ∈ l, i ∈ F) ∧
        o'.isVirtAddrUsed = o.isVirtAddrUsed := by
  intro l
  induction l with
  | nil =>
    intro o o' F h hk
    cases hk
    exact ⟨h.congr fun a => by simp, fun i hi => absurd hi List.not_mem_nil, rfl⟩
  | cons x l ih =>
    intro o o' F h hk
    rw [killItems] at hk
    split at hk
    · rename_i idx hidx
      obtain ⟨y, hy, hxy, _⟩ := Stack.firstIdx_some hidx
      cases (beq_iff_eq.mp hxy : x = y)
      obtain ⟨hx, hdrop⟩ := h.eraseIdx hy
      obtain ⟨htr, hin, hbits⟩ := ih _ o' _ hdrop hk
      refine ⟨htr.congr fun a => ?_, fun i hi => ?_, hbits⟩
      · simp only [Set.mem_sdiff, Set.mem_singleton_iff, Set.mem_ofPred_eq, List.mem_cons, not_or]
        exact and_assoc
      · rcases List.mem_cons.mp hi with rfl | hi
        · exact hx
        · exact (hin i hi).1
    · cases hk

/-- `allocConsPage` is wrong whenever its search succeeds: the pages it takes off the stack keep
    their bits down. -/
theorem Agree.allocCons_found (h : Agree s) {num : Nat} (hnum : 1 ≤ num) {start : Nat} {b : Bool}
    (he : s.freeVirtAddr.empty = false) (hf : s.isVirtAddrUsed.findConsZeros num = some start) :
    ¬ Correct s (.allocConsPage num b) := by
  rintro ⟨ret, s', hex, hagree, _⟩
  have hkill : killItems b (List.range' start num) s = some s' := by
    simp only [exec, VirtualMemRegion.allocConsPage, he, hf] at hex
    obtain ⟨o', ho', heq⟩ := Option.map_eq_some_iff.mp hex
    cases heq
    exact ho'
  obtain ⟨htr, hin, hbits⟩ := killItems_some b _ s s' _ h hkill
  have hmem : start ∈ List.range' start num := List.mem_range'_1.mpr (by omega)
  have hfree : start ∈ freeOf s' := by
    have := hin start hmem
    exact ⟨this.1, by rw [hbits]; exact this.2⟩
  exact ((htr.mem_iff start).mp ((hagree.mem_iff start).mpr hfree)).2 hmem

/-- `allocConsPage` is right exactly for the good calls. -/
theorem Agree.allocConsPage_iff (h : Agree s) {num : Nat} (hnum : 1 ≤ num) (b : Bool) :
    Correct s (.allocConsPage num b) ↔ Good s (.allocConsPage num b) := by
  cases he : s.freeVirtAddr.empty with
  | true =>
    refine ⟨fun _ => Or.inl he, fun _ => ⟨none, s, ?_, h, .consNone fun p hrun => ?_⟩⟩
    · rw [exec, VirtualMemRegion.allocConsPage, he]; rfl
    · exact h.empty he _ (hrun 0 hnum)
  | false =>
    have hsearch := BitSet.findConsZeros_eq s.isVirtAddrUsed hnum
    by_cases hc : s.isVirtAddrUsed.test num = false ∧ num ≤ P.MaxNumElements
    · -- the search succeeds
      rw [if_pos hc] at hsearch
      refine ⟨fun hcor => absurd hcor (h.allocCons_found hnum he hsearch), fun hgood => ?_⟩
      rcases hgood with h1 | h1 | ⟨h1, _⟩
      · rw [he] at h1; exact absurd h1 (by decide)
      · omega
      · rw [hc.1] at h1; exact absurd h1 (by decide)
    · -- the search fails: nothing is returned
      rw [if_neg hc] at hsearch
      have hexec : exec s (.allocConsPage num b) = some (none, s) := by
        rw [exec, VirtualMemRegion.allocConsPage, he, hsearch]; rfl
      constructor
      · rintro ⟨ret, s', hex, _, hspec⟩
        rw [hexec] at hex
        cases hex
        cases hspec with
        | consNone hno =>
          rcases Nat.lt_or_ge P.MaxNumElements num with hlt | hge
          · exact Or.inr (Or.inl hlt)
          · refine Or.inr (Or.inr ⟨?_, hno⟩)
            cases ht : s.isVirtAddrUsed.test num with
            | true => rfl
            | false => exact absurd ⟨ht, hge⟩ hc
      · intro hgood
        refine ⟨none, s, hexec, h, .consNone fun p => ?_⟩
        rcases hgood with h1 | h1 | ⟨_, h1⟩
        · rw [he] at h1; exact absurd h1 (by decide)
        · exact not_isRun_of_lt h1 p
        · exact h1 p

/-- `freePage` is right exactly for a region at address 0. -/
theorem Agree.freePage_iff (h : Agree s) {p : Nat} (hp : p < P.MaxNumElements) (hu : p ∉ freeOf s) :
    Correct s (.freePage (addrOf P p)) ↔ P.startAddr = 0 := by
  have hn := MaxNumElements_lt P
  obtain ⟨k, hk1, hk, hk0⟩ := startAddr_pages P
  have hidx := index_addrOf P hk p
  have hused : s.isVirtAddrUsed.test p = true := by
    cases ht : s.isVirtAddrUsed.test p with
    | true => rfl
    | false => exact absurd ⟨hp, ht⟩ hu
  constructor
  · rintro ⟨ret, s', hex, _, hspec⟩
    cases hex
    generalize hF : freeOf (s.freePage (addrOf P p)) = F' at hspec
    generalize ha : addrOf P p = a at hspec
    cases hspec with
    | free hq _ =>
      -- the page itself must have become free, so `freePage` looked at its own index
      cases addrOf_inj hq hp ha.symm
      have hin : p ∈ freeOf (s.freePage (addrOf P p)) := hF ▸ Set.mem_insert _ _
      have hbit := hin.2
      simp only [VirtualMemRegion.freePage, hidx] at hbit
      split at hbit
      · rw [BitSet.test_clear] at hbit
        split at hbit
        · rename_i hpk
          rw [hk0]; omega
        · rw [hused] at hbit; exact absurd hbit (by decide)
      · rw [hused] at hbit; exact absurd hbit (by decide)
  · intro h0
    have hidx' : (addrOf P p >>> 22).toNat = p := by
      rw [hidx]
      have := hk0.mp h0
      omega
    have hexec : s.freePage (addrOf P p) = ⟨s.isVirtAddrUsed.clear p, s.freeVirtAddr.push p,
        s.isCommonPage.clear p⟩ := by
      simp only [VirtualMemRegion.freePage, hidx', hused, if_true]
    have hfree : freeOf (s.freePage (addrOf P p)) = insert p (freeOf s) := by
      rw [hexec]
      ext q
      simp only [freeOf, Set.mem_insert_iff, Set.mem_ofPred_eq, BitSet.test_clear]
      by_cases hq : q = p
      · simp [hq, hp]
      · simp [hq]
    refine ⟨none, s.freePage (addrOf P p), rfl, ?_, ?_⟩
    · rw [Agree, hfree, hexec]
      show Tracks (s.freeVirtAddr.push p).items _
      rw [Stack.items_push _ _ (h.room hp hu)]
      exact h.push hu
    · rw [hfree]; exact .free hp hu

/-- **The code gets exactly the good calls right**, in every state in which bitmap and stack
    agree. -/
theorem correct_iff_good (h : Agree s) {call : VirtCall} (ok : Allowed s call) :
    Correct s call ↔ Good s call := by
  cases call with
  | allocPage b => exact ⟨fun _ => trivial, fun _ => h.allocPage b⟩
  | allocConsPage num b => exact h.allocConsPage_iff ok b
  | freePage a =>
    obtain ⟨p, hp, hu, rfl⟩ := ok
    exact h.freePage_iff hp hu

/-- Runs of allowed calls. -/
def AllowedRun (s : VirtualMemRegion P) (e : Event) : Prop := Allowed s e.1

/-- Runs of allowed calls the code gets right. -/
def GoodRun (s : VirtualMemRegion P) (e : Event) : Prop := Allowed s e.1 ∧ Good s e.1

/-- A good run can always allocate a page. -/
theorem goodRun_allocPage (hr : Reach (machine P) GoodRun s) (b : Bool) :
    Reach (machine P) GoodRun (s.allocPage b).2 :=
  .step (a := (.allocPage b, (s.allocPage b).1)) hr ⟨trivial, trivial⟩ rfl

end Refinement

/-- **A region refines a set of free pages along good runs, and no further**: every run of good
    calls is a run of the specification with the same results, bitmap and stack agree in every state
    it reaches, and there a call is served correctly if and only if it is good. -/
theorem virtRegion_refines {P : Params} {s : VirtualMemRegion P}
    (hr : Reach (machine P) GoodRun s) :
    Reach (FreeSet.machine P) (fun _ _ => True) (freeOf s) ∧ Agree s ∧
      ∀ call, Allowed s call → (Correct s call ↔ Good s call) := by
  obtain ⟨F, hF, hagree, rfl⟩ := hr.simulates (A := FreeSet.machine P)
    (R := fun s F => Agree s ∧ F = freeOf s)
    (fun s h0 => ⟨_, rfl, h0 ▸ ⟨agree_construct P, (freeOf_construct P).symm⟩⟩)
    (fun s F e s' hR ok hs => by
      obtain ⟨hagree, rfl⟩ := hR
      obtain ⟨ret, s'', hex, hagree', hspec⟩ := (correct_iff_good hagree ok.1).mpr ok.2
      have heq := (hs : exec s e.1 = some (e.2, s')).symm.trans hex
      obtain ⟨rfl, rfl⟩ := Prod.mk.inj (Option.some.inj heq)
      exact ⟨_, hspec, hagree', rfl⟩)
  exact ⟨hF, hagree, fun call ok => correct_iff_good hagree ok⟩

/-- One page of the last gigabyte allocated: it cannot be freed again. -/
theorem virtRegion_refines_virtLast1G :
    ¬ Correct ((construct virtLast1G).allocPage true).2 (.freePage 0xff800000) := by
  have hr : Reach (machine virtLast1G) GoodRun ((construct virtLast1G).allocPage true).2 :=
    goodRun_allocPage (.init rfl) true
  have hitems : (construct virtLast1G).freeVirtAddr.items = List.range 254 ++ [254] :=
    (items_construct virtLast1G).trans List.range_succ
  have hused : ((construct virtLast1G).allocPage true).2.isVirtAddrUsed.test 254 = true :=
    allocPage_used hitems (by decide) true
  intro hc
  have hgood := ((virtRegion_refines hr).2.2 (.freePage 0xff800000) ⟨254, by decide,
    fun hfree => by rw [hfree.2] at hused; exact absurd hused (by decide), by decide⟩).mp hc
  exact absurd hgood (by decide : ¬ ((0xc0000000 : BitVec 32) = 0))

/-- **Consecutive pages are handed out and stay marked free.** -/
theorem allocConsPage_not_correct :
    ¬ ∀ s, Reach (machine virtLast1G) AllowedRun s → ∀ call, Allowed s call → Correct s call := by
  intro h
  have hc := h _ (.init rfl) (.allocConsPage 1 true) (Nat.le_refl 1)
  have hfree : 0 ∈ freeOf (construct virtLast1G) := by
    rw [freeOf_construct]
    exact (by decide : 0 < virtLast1G.MaxNumElements)
  rcases ((agree_construct virtLast1G).allocConsPage_iff (Nat.le_refl 1) true).mp hc with
    h1 | h1 | ⟨h1, _⟩
  · exact (agree_construct virtLast1G).empty h1 0 hfree
  · exact absurd h1 (by decide)
  · exact absurd h1 (by simp [construct])

end TedkOS.VirtRegion
