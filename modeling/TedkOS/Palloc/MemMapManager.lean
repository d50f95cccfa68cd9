/-
  The map manager of a CPU (`TinyMemMap` and `MemMapManager` of klibs/palloc.cpp).

  A process keeps its own pages in a `TinyMemMap`, a list of mappings.  The manager keeps the pages
  common to all processes in `commonMemMap`, and two spare maps: one is loaded, the other is where
  the map of the next process is assembled (`loadProcessMap`): cleared, filled with the mappings of
  the process, merged with the common map, and then loaded.

  While the service is not started the CPU runs on a static page directory, which common pages are
  written through to.

  Of a process only `memmap` matters here, and what its terminal does after the load: if anything,
  `tryMapVidmap` writes entry 0 of the directory just loaded.
-/
import TedkOS.Lib.Runs
import TedkOS.Klibs.BitSet
import TedkOS.Klibs.Stack
import TedkOS.Palloc.MemMap

namespace TedkOS.Palloc

open MemMap Runs

/-! ## Maps of processes -/

/-- `TinyMemMap::Mapping`. -/
structure Mapping where
  phys : PhysAddr
  virt : VirtAddr

/-- `TinyMemMap`. -/
structure TinyMemMap where
  pdStack : Stack Mapping 1024
  isVirtAddrUsed : BitSet 1024

namespace TinyMemMap

def new : TinyMemMap := ⟨Stack.new _ _, BitSet.new _⟩

/-- `add(virt, phys)`. -/
def add (virt : VirtAddr) (phys : PhysAddr) (t : TinyMemMap) : Bool × TinyMemMap :=
  let idx := virt.vidx
  if t.isVirtAddrUsed.test idx then (false, t)
  else (true, ⟨t.pdStack.push ⟨phys, virt⟩, t.isVirtAddrUsed.set idx⟩)

/-- `remove(virt, physIdx)`: the bit goes down, and the first mapping to the physical page goes. -/
def remove (virt : VirtAddr) (physIdx : PhysAddr) (t : TinyMemMap) : Bool × TinyMemMap :=
  let idx := virt.vidx
  if t.isVirtAddrUsed.test idx then
    let (dropped, pdStack) := t.pdStack.dropFirst fun mapping => mapping.phys.same physIdx
    (dropped.isSome, ⟨pdStack, t.isVirtAddrUsed.clear idx⟩)
  else (false, t)

/-- A map built by `add` calls. -/
def build (l : List Mapping) : TinyMemMap :=
  l.foldl (fun t val => (t.add val.virt val.phys).2) new

end TinyMemMap

/-- What `loadProcessMap` uses of a `ProcessDesc`: its memory map, and the entry `tryMapVidmap` of
    its terminal writes for virtual page 0, if it writes one. -/
structure ProcessDesc where
  memmap : TinyMemMap
  vidmap : Option (BitVec 32)

/-! ## The manager -/

/-- `MemMapManager`, and the directory the CPU uses while it is not in service. -/
structure MemMapManager where
  spareMemMaps : Fin 2 → MemMap
  loadedMap : Fin 2
  bIsStarted : Bool
  commonMemMap : MemMap
  pageDir : Nat → BitVec 32

namespace MemMapManager

/-- `MemMapManager(lock)`, on the page directory of the boot code. -/
def construct (pageDir : Nat → BitVec 32) : MemMapManager :=
  ⟨fun _ => MemMap.clear, 0, false, MemMap.clear, pageDir⟩

/-- `spareMemMaps[loadedMap]`. -/
def loaded (s : MemMapManager) : MemMap := s.spareMemMaps s.loadedMap

def setLoaded (s : MemMapManager) (m : MemMap) : MemMapManager :=
  { s with spareMemMaps := Function.update s.spareMemMaps s.loadedMap m }

/-- `if(!bIsStarted) global_cr3val[virt >> 22] = pde;` -/
def writeThrough (s : MemMapManager) (virt : VirtAddr) (pde : BitVec 32) : MemMapManager :=
  if !s.bIsStarted then { s with pageDir := Function.update s.pageDir virt.vidx pde } else s

/-- `addCommonPage(virt, phys)`. -/
def addCommonPage (virt : VirtAddr) (phys : PhysAddr) (s : MemMapManager) : Bool × MemMapManager :=
  let phys : PhysAddr :=
    if HAS_FLAG PG_4MB_BASE phys.pde || HAS_FLAG PG_4KB_BASE phys.pde then ⟨phys.pde ||| PG_GLOABL⟩
    else phys
  match s.commonMemMap.add virt phys with
  | (false, _) => (false, s)
  | (true, commonMemMap) =>
    let s := { s with commonMemMap }
    match s.loaded.add virt phys with
    | (false, _) => (false, { s with commonMemMap := (s.commonMemMap.subVirt virt).2 })
    | (true, m) => (true, (s.setLoaded m).writeThrough virt phys.pde)

/-- The body the two `delCommonPage` share; `phys` is what the rollback maps again. -/
def delCommon (virt : VirtAddr) (phys : PhysAddr) (s : MemMapManager) : Bool × MemMapManager :=
  match s.commonMemMap.subVirt virt with
  | (false, _) => (false, s)
  | (true, commonMemMap) =>
    let s := { s with commonMemMap }
    match s.loaded.subVirt virt with
    | (false, _) => (false, { s with commonMemMap := (s.commonMemMap.add virt phys).2 })
    | (true, m) => (true, (s.setLoaded m).writeThrough virt 0)

/-- `delCommonPage(VirtAddr)`. -/
def delCommonPage (virt : VirtAddr) (s : MemMapManager) : Bool × MemMapManager :=
  s.delCommon virt (s.commonMemMap.translate virt)

/-- `delCommonPage(PhysAddr)`. -/
def delCommonPagePhys (phys : PhysAddr) (s : MemMapManager) : Bool × MemMapManager :=
  s.delCommon (s.commonMemMap.translatePhys phys) phys

/-- The closure that looks for a conflict with the common map. -/
def conflict (s : MemMapManager) (map : TinyMemMap) (val : Mapping) : Bool :=
  let virtIdx := val.virt.vidx
  let ours := present (s.commonMemMap.virt2phys virtIdx)
  let theirs := map.isVirtAddrUsed.test virtIdx
  decide (virtIdx ≥ 2) && ours && theirs && !(s.commonMemMap.translate val.virt).same val.phys

/-- The mappings of the process, added to an empty map.  (What `add` returns is ignored.) -/
def processMap (map : TinyMemMap) : MemMap :=
  map.pdStack.items.foldl (fun m val => (m.add val.virt val.phys).2) MemMap.clear

/-- What `loadToCR3` and `tryMapVidmap` do to the two pages below the common ones. -/
def lowPages (proc : ProcessDesc) (m : MemMap) : MemMap :=
  let m := m.resetVPage0And1
  match proc.vidmap with
  | some pde => { m with virt2phys := Function.update m.virt2phys 0 pde }
  | none => m

/-- `loadProcessMap(proc)`. -/
def loadProcessMap (proc : ProcessDesc) (s : MemMapManager) : Bool × MemMapManager :=
  if !s.bIsStarted then (false, s)
  else
    let spare : Fin 2 := 1 - s.loadedMap
    if (proc.memmap.pdStack.firstIdx (s.conflict proc.memmap)).isSome then
      (false, { s with spareMemMaps := Function.update s.spareMemMaps spare MemMap.clear })
    else
      -- what `+=` returns is ignored
      let m := ((processMap proc.memmap).addMap s.commonMemMap).2
      (true, { s with
        spareMemMaps := Function.update s.spareMemMaps spare (lowPages proc m)
        loadedMap := spare })

/-- `start()`. -/
def start (s : MemMapManager) : MemMapManager :=
  { s.setLoaded s.loaded.resetVPage0And1 with bIsStarted := true }

/-- `stop(pageDir)`. -/
def stop (pageDir : Nat → BitVec 32) (s : MemMapManager) : MemMapManager :=
  { s with bIsStarted := false, pageDir }

end MemMapManager

open MemMapManager

/-! ## Flags -/

/-- Entries that are equal up to the accessed and dirty bits agree on every other flag. -/
theorem and_eq_of_same {a b : PhysAddr} (h : a.same b = true) (flag : BitVec 32)
    (hflag : PG_NOT_ACCESSED &&& PG_NOT_DIRTY &&& flag = flag) :
    a.pde &&& flag = b.pde &&& flag := by
  have h' : a.pde &&& PG_NOT_ACCESSED &&& PG_NOT_DIRTY =
      b.pde &&& PG_NOT_ACCESSED &&& PG_NOT_DIRTY := beq_iff_eq.mp h
  rw [← hflag, ← BitVec.and_assoc, ← BitVec.and_assoc, ← BitVec.and_assoc, ← BitVec.and_assoc, h']

theorem present_of_same {a b : PhysAddr} (h : a.same b = true) : present a.pde = present b.pde := by
  unfold present
  rw [and_eq_of_same h _ (by decide)]

/-! ## What `loadProcessMap` assembles

  A cleared map, then the mappings of the process one after another, then the common map, and
  each entry of the result is from one of these. -/

section Assembly

variable {s s' : MemMapManager} {proc : ProcessDesc} {v : Nat}

/-- `add` writes the entry it is asked to write, or nothing. -/
theorem virt2phys_add (m : MemMap) (virt : VirtAddr) (phys : PhysAddr) (v : Nat) :
    (m.add virt phys).2.virt2phys v = m.virt2phys v ∨
    (virt.vidx = v ∧ (m.add virt phys).2.virt2phys v = phys.pde) := by
  simp only [MemMap.add]
  split
  · exact Or.inl rfl
  split
  · exact Or.inl rfl
  · by_cases hv : virt.vidx = v
    · subst hv
      exact Or.inr ⟨rfl, Function.update_self _ _ _⟩
    · exact Or.inl (Function.update_of_ne (Ne.symm hv) _ _)

/-- `add` of a vacant pair of pages above the kernel. -/
theorem add_of_vacant {m : MemMap} {virt : VirtAddr} {phys : PhysAddr} (h1 : phys.index ≠ 1)
    (h2 : 2 ≤ virt.vidx) (hv : present (m.virt2phys virt.vidx) = false)
    (hp : m.phys2virt phys.index = 0) :
    m.add virt phys = (true, ⟨Function.update m.phys2virt phys.index virt.vidx,
      Function.update m.virt2phys virt.vidx phys.pde⟩) := by
  unfold MemMap.add
  simp only
  rw [if_neg fun hc => hc.2.elim (fun e => by rw [hv] at e; exact absurd e (by decide))
    (fun e => e hp), if_neg (by omega), if_pos h1]

/-- After the `add` loop an entry is as before, or one of the mappings'. -/
theorem foldl_add_cases (v : Nat) : ∀ (l : List Mapping) (m : MemMap),
    (l.foldl (fun m val => (m.add val.virt val.phys).2) m).virt2phys v = m.virt2phys v ∨
    ∃ val ∈ l, val.virt.vidx = v ∧
      (l.foldl (fun m val => (m.add val.virt val.phys).2) m).virt2phys v = val.phys.pde := by
  intro l
  induction l with
  | nil => intro m; exact Or.inl rfl
  | cons x l ih =>
    intro m
    rw [List.foldl_cons]
    rcases ih (m.add x.virt x.phys).2 with h | ⟨val, hval, hv, h⟩
    · rcases virt2phys_add m x.virt x.phys v with hx | ⟨hxv, hx⟩
      · exact Or.inl (h.trans hx)
      · exact Or.inr ⟨x, List.mem_cons_self, hxv, h.trans hx⟩
    · exact Or.inr ⟨val, List.mem_cons_of_mem x hval, hv, h⟩

/-- The mappings of a process with pairwise distinct pages, none of them the kernel's. -/
structure DistinctPages (l : List Mapping) : Prop where
  virts : l.Pairwise fun a b => a.virt.vidx ≠ b.virt.vidx
  physs : l.Pairwise fun a b => a.phys.index ≠ b.phys.index
  noKernel : ∀ val ∈ l, val.phys.index ≠ 1 ∧ 2 ≤ val.virt.vidx

/-- **Distinct pages are all mapped**, and nothing else changes. -/
theorem foldl_add_distinct : ∀ (l : List Mapping) (m : MemMap), DistinctPages l →
    (∀ val ∈ l, present (m.virt2phys val.virt.vidx) = false ∧ m.phys2virt val.phys.index = 0) →
      let m' := l.foldl (fun m val => (m.add val.virt val.phys).2) m
      (∀ val ∈ l, m'.virt2phys val.virt.vidx = val.phys.pde) ∧
      ∀ v, (∀ val ∈ l, val.virt.vidx ≠ v) → m'.virt2phys v = m.virt2phys v := by
  intro l
  induction l with
  | nil => intro m _ _; exact ⟨fun _ h => absurd h List.not_mem_nil, fun _ _ => rfl⟩
  | cons x l ih =>
    intro m hd hvac
    obtain ⟨hvx, hvl⟩ := List.pairwise_cons.mp hd.virts
    obtain ⟨hpx, hpl⟩ := List.pairwise_cons.mp hd.physs
    obtain ⟨hx1, hx2⟩ := hd.noKernel x List.mem_cons_self
    obtain ⟨hxv, hxp⟩ := hvac x List.mem_cons_self
    rw [List.foldl_cons, add_of_vacant hx1 hx2 hxv hxp]
    -- the pages of the mappings to come stay vacant
    obtain ⟨hin, hout⟩ := ih ⟨Function.update m.phys2virt x.phys.index x.virt.vidx,
        Function.update m.virt2phys x.virt.vidx x.phys.pde⟩
      ⟨hvl, hpl, fun val hval => hd.noKernel val (List.mem_cons_of_mem x hval)⟩
      (fun val hval => by
        obtain ⟨h1, h2⟩ := hvac val (List.mem_cons_of_mem x hval)
        refine ⟨?_, ?_⟩
        · show present (Function.update m.virt2phys x.virt.vidx x.phys.pde val.virt.vidx) = false
          rw [Function.update_of_ne (Ne.symm (hvx val hval))]; exact h1
        · show Function.update m.phys2virt x.phys.index x.virt.vidx val.phys.index = 0
          rw [Function.update_of_ne (Ne.symm (hpx val hval))]; exact h2)
    refine ⟨fun val hval => ?_, fun v hv => ?_⟩
    · rcases List.mem_cons.mp hval with rfl | hval
      · exact (hout _ fun w hw => Ne.symm (hvx w hw)).trans (Function.update_self _ _ _)
      · exact hin val hval
    · exact (hout v fun w hw => hv w (List.mem_cons_of_mem x hw)).trans
        (Function.update_of_ne (Ne.symm (hv x List.mem_cons_self)) _ _)

/-- Above the kernel an empty map has no entries. -/
theorem virt2phys_clear {v : Nat} (h2 : 2 ≤ v) : MemMap.clear.virt2phys v = 0 := by
  show Function.update (Function.update (fun _ => (0 : BitVec 32)) 0 0) 1 kernelEntry v = 0
  rw [Function.update_of_ne (by omega), Function.update_of_ne (by omega)]

theorem phys2virt_clear {p : Nat} (h : p ≠ 1) : MemMap.clear.phys2virt p = 0 :=
  Function.update_of_ne h _ _

/-- Above the kernel the process map has the mappings of the process only. -/
theorem processMap_cases (map : TinyMemMap) {v : Nat} (h2 : 2 ≤ v) :
    (processMap map).virt2phys v = 0 ∨
    ∃ val ∈ map.pdStack.items, val.virt.vidx = v ∧ (processMap map).virt2phys v = val.phys.pde := by
  rcases foldl_add_cases v map.pdStack.items MemMap.clear with h | h
  · exact Or.inl (h.trans (virt2phys_clear h2))
  · exact Or.inr h

/-- What is done to the low pages stays there. -/
theorem virt2phys_lowPages (m : MemMap) {v : Nat} (h2 : 2 ≤ v) :
    (lowPages proc m).virt2phys v = m.virt2phys v := by
  have hreset : m.resetVPage0And1.virt2phys v = m.virt2phys v := by
    show Function.update (Function.update m.virt2phys 0 0) 1 kernelEntry v = _
    rw [Function.update_of_ne (by omega), Function.update_of_ne (by omega)]
  unfold lowPages
  cases proc.vidmap with
  | none => exact hreset
  | some pde =>
    show Function.update m.resetVPage0And1.virt2phys 0 pde v = _
    rw [Function.update_of_ne (by omega)]; exact hreset

/-- **What a successful load leaves**: the common map as it was, no mapping in conflict, and the
    other spare map loaded, with the process map merged with the common one. -/
theorem loadProcessMap_true (h : s.loadProcessMap proc = (true, s')) :
    (∀ val ∈ proc.memmap.pdStack.items, s.conflict proc.memmap val = false) ∧
    s'.commonMemMap = s.commonMemMap ∧
    ∀ v, 2 ≤ v → s'.loaded.virt2phys v =
      ((processMap proc.memmap).addMap s.commonMemMap).2.virt2phys v := by
  unfold loadProcessMap at h
  split at h
  · cases h
  simp only at h
  split at h
  · cases h
  · rename_i hconf
    have hnone : proc.memmap.pdStack.firstIdx (s.conflict proc.memmap) = none := by
      cases hc : proc.memmap.pdStack.firstIdx (s.conflict proc.memmap) with
      | none => rfl
      | some i => rw [hc] at hconf; exact absurd rfl hconf
    generalize hm : ((processMap proc.memmap).addMap s.commonMemMap).2 = m at h
    obtain ⟨_, rfl⟩ := Prod.mk.inj h
    refine ⟨Stack.firstIdx_none hnone, rfl, fun v h2 => ?_⟩
    show (Function.update s.spareMemMaps (1 - s.loadedMap) (lowPages proc m)
      (1 - s.loadedMap)).virt2phys v = _
    rw [Function.update_self]
    exact virt2phys_lowPages m h2

/-- The merged map where the two do not collide. -/
theorem virt2phys_addMap {m that : MemMap} (h : ¬ Collide m that) {v : Nat} (h2 : 2 ≤ v)
    (hv : v < PD_NUM_ENTRIES) : (m.addMap that).2.virt2phys v =
      if present (that.virt2phys v) = true then that.virt2phys v else m.virt2phys v := by
  have hmerge := addMap_of_not_collide h
  have hval := virt2phys_foldl_mergeEntry that v userIndices m
  generalize userIndices.foldl (mergeEntry that) m = m' at hmerge hval
  rw [hmerge, hval]
  by_cases hp : present (that.virt2phys v) = true
  · rw [if_pos ⟨mem_userIndices.mpr ⟨h2, hv⟩, hp⟩, if_pos hp]
  · rw [if_neg fun hc => hp hc.2, if_neg hp]

end Assembly

end TedkOS.Palloc
