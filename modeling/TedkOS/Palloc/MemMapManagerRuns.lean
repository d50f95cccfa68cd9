/-
  What the map manager promises: the right pages in the map it loads, and common pages in every map.

  * `loadProcessMap_right_iff` — the map just loaded has, above the kernel, the common entry where
    there is one, else the mapping of the process, else nothing, EXACTLY when no page has both, or
    every common page is mapped by the process as the very same entry.  The test for conflicts lets
    equal entries pass, but `+=` then refuses to merge anything at all.
  * `commonPages_mapped` — with process maps that never carry the global flag, as the kernel builds
    them, no page ever has both, and every common page is in the loaded map after every run; and an
    operation that fails changes neither the common map nor the loaded one.

  What carries the second is `CommonInv`.  A common entry has the global flag and a process's
  entry has not, so the test for conflicts, which compares whole entries, cannot let a page
  through that both have: the loading either fails before it has changed anything, or merges maps
  that have no page in common.  That the loaded map has every common page is kept because an
  operation that changes the common map makes the same change to the loaded one, and undoes the
  first if the second fails.
-/
import TedkOS.Palloc.MemMapManager

namespace TedkOS.Palloc

open MemMap MemMapManager Runs FreeList

/-! ## Maps built by `add`

  A map that has been built by `add` marks a page as used exactly if it maps it, and maps no page
  twice. -/

/-- The bits of a process map mark the virtual pages of its mappings, each mapped once. -/
def Marked (t : TinyMemMap) : Prop :=
  Tracks (t.pdStack.items.map fun val => val.virt.vidx) {v | t.isVirtAddrUsed.test v = true}

/-- An empty map has nothing to mark. -/
theorem marked_new : Marked TinyMemMap.new :=
  Tracks.nil.congr fun v => by simp [TinyMemMap.new]

/-- `add` marks the page it maps, -/
theorem Marked.add {t : TinyMemMap} (h : Marked t) (virt : VirtAddr) (phys : PhysAddr) :
    Marked (t.add virt phys).2 := by
  have hv : virt.vidx < 1024 := vidx_lt virt
  simp only [TinyMemMap.add]
  cases ht : t.isVirtAddrUsed.test virt.vidx with
  | true => exact h
  | false =>
    have hnew : virt.vidx ∉ {v | t.isVirtAddrUsed.test v = true} := fun hc => by
      rw [Set.mem_ofPred_eq, ht] at hc; exact absurd hc (by decide)
    -- one mapping for each of the 1024 pages at most, so there is room
    have hroom := h.length_lt (U := List.range 1024)
      (fun v hc => List.mem_range.mpr (BitSet.lt_of_test hc)) (List.mem_range.mpr hv) hnew
    rw [List.length_map, List.length_range] at hroom
    show Tracks ((t.pdStack.push ⟨phys, virt⟩).items.map _)
      {v | (t.isVirtAddrUsed.set _).test v = true}
    rw [Stack.items_push _ _ hroom, List.map_append]
    refine (h.push hnew).congr fun v => ?_
    rw [Set.mem_insert_iff, Set.mem_ofPred_eq, Set.mem_ofPred_eq, BitSet.test_set]
    by_cases hvv : v = virt.vidx
    · rw [if_pos ⟨hvv, hv⟩]; simp [hvv]
    · rw [if_neg fun hc => hvv hc.1]; simp [hvv]

/-- and so do many, one after the other; -/
theorem marked_foldl_add : ∀ (l : List Mapping) (t : TinyMemMap), Marked t →
    Marked (l.foldl (fun t val => (t.add val.virt val.phys).2) t) := by
  intro l
  induction l with
  | nil => intro t h; exact h
  | cons x l ih => intro t h; exact ih _ (h.add x.virt x.phys)

/-- so the maps the kernel builds are marked. -/
theorem marked_build (l : List Mapping) : Marked (TinyMemMap.build l) :=
  marked_foldl_add l _ marked_new

/-- A page with a mapping is marked. -/
theorem Marked.test {t : TinyMemMap} (h : Marked t) {val : Mapping} (hval : val ∈ t.pdStack.items) :
    t.isVirtAddrUsed.test val.virt.vidx = true :=
  (h.mem_iff _).mp (List.mem_map.mpr ⟨val, hval, rfl⟩)

/-! ## The map that is loaded

  A page of the loaded map is from the process, common, or not there.  The condition is about the
  pages that both have. -/

section Loaded

variable {s s' : MemMapManager} {proc : ProcessDesc}

/-- Above the kernel the loaded map has the common entry, else the mapping of the process, else
    nothing. -/
structure LoadedRight (s : MemMapManager) (proc : ProcessDesc) : Prop where
  /-- A common page is there, as it is common; -/
  common : ∀ v, 2 ≤ v → v < PD_NUM_ENTRIES → present (s.commonMemMap.virt2phys v) = true →
    s.loaded.virt2phys v = s.commonMemMap.virt2phys v
  /-- a page of the process, where it is not common; -/
  process : ∀ v, 2 ≤ v → v < PD_NUM_ENTRIES → present (s.commonMemMap.virt2phys v) = false →
    ∀ val ∈ proc.memmap.pdStack.items, val.virt.vidx = v → s.loaded.virt2phys v = val.phys.pde
  /-- and nothing else. -/
  vacant : ∀ v, 2 ≤ v → v < PD_NUM_ENTRIES → present (s.commonMemMap.virt2phys v) = false →
    (∀ val ∈ proc.memmap.pdStack.items, val.virt.vidx ≠ v) → present (s.loaded.virt2phys v) = false

/-- No page is mapped both by the process and in common. -/
def NoneShared (s : MemMapManager) (proc : ProcessDesc) : Prop :=
  ∀ val ∈ proc.memmap.pdStack.items,
    present (s.commonMemMap.virt2phys val.virt.vidx) = false

/-- Every common page is mapped by the process too, as the same entry. -/
def AllShared (s : MemMapManager) (proc : ProcessDesc) : Prop :=
  ∀ v, 2 ≤ v → v < PD_NUM_ENTRIES → present (s.commonMemMap.virt2phys v) = true →
    ∃ val ∈ proc.memmap.pdStack.items, val.virt.vidx = v ∧
      val.phys.pde = s.commonMemMap.virt2phys v

/-- A mapping that passes the test for conflicts on a common page is the common entry, up to the
    accessed and dirty bits. -/
theorem same_of_not_conflict {val : Mapping} (h : s.conflict proc.memmap val = false)
    (h2 : 2 ≤ val.virt.vidx) (hused : proc.memmap.isVirtAddrUsed.test val.virt.vidx = true)
    (hp : present (s.commonMemMap.virt2phys val.virt.vidx) = true) :
    (s.commonMemMap.translate val.virt).same val.phys = true := by
  simp only [conflict, hp, hused] at h
  simpa [h2] using h

/-- The map of a process with distinct pages: its mappings, and nothing else above the kernel. -/
theorem processMap_entries {l : List Mapping} (hbuilt : proc.memmap = TinyMemMap.build l)
    (hphys : proc.memmap.pdStack.items.Pairwise fun a b => a.phys.index ≠ b.phys.index)
    (huser : ∀ val ∈ proc.memmap.pdStack.items, val.phys.index ≠ 1 ∧ 2 ≤ val.virt.vidx) :
    (∀ val ∈ proc.memmap.pdStack.items,
      (processMap proc.memmap).virt2phys val.virt.vidx = val.phys.pde) ∧
    ∀ v, 2 ≤ v → (∀ val ∈ proc.memmap.pdStack.items, val.virt.vidx ≠ v) →
      (processMap proc.memmap).virt2phys v = 0 := by
  have hmark : Marked proc.memmap := hbuilt ▸ marked_build l
  have hdist : DistinctPages proc.memmap.pdStack.items :=
    ⟨List.pairwise_map.mp hmark.nodup, hphys, huser⟩
  obtain ⟨hin, hout⟩ := foldl_add_distinct _ MemMap.clear hdist fun val hval => by
    obtain ⟨h1, h2⟩ := huser val hval
    exact ⟨by rw [virt2phys_clear h2]; decide, phys2virt_clear h1⟩
  exact ⟨hin, fun v h2 hv => (hout v hv).trans (virt2phys_clear h2)⟩

/-- Without a shared page, the map of the process and the common one do not collide. -/
theorem not_collide_of_noneShared (h : NoneShared s proc) :
    ¬ Collide (processMap proc.memmap) s.commonMemMap := by
  rintro ⟨v, h2, _, hpa, hpc⟩
  rcases processMap_cases proc.memmap h2 with h0 | ⟨val, hval, rfl, _⟩
  · rw [h0] at hpa; exact absurd hpa (by decide)
  · rw [h val hval] at hpc; exact absurd hpc (by decide)

/-- A shared page makes them collide, though no mapping conflicts. -/
theorem collide_of_shared {l : List Mapping} (hbuilt : proc.memmap = TinyMemMap.build l)
    (huser : ∀ val ∈ proc.memmap.pdStack.items, 2 ≤ val.virt.vidx)
    (hin : ∀ val ∈ proc.memmap.pdStack.items,
      (processMap proc.memmap).virt2phys val.virt.vidx = val.phys.pde)
    (hconf : ∀ val ∈ proc.memmap.pdStack.items, s.conflict proc.memmap val = false)
    (hshared : ¬ NoneShared s proc) : Collide (processMap proc.memmap) s.commonMemMap := by
  have hmark : Marked proc.memmap := hbuilt ▸ marked_build l
  by_contra hnc
  refine hshared fun val hval => ?_
  cases hp : present (s.commonMemMap.virt2phys val.virt.vidx) with
  | false => rfl
  | true =>
    have h2 := huser val hval
    have hsame := same_of_not_conflict (hconf val hval) h2 (hmark.test hval) hp
    refine absurd ⟨_, h2, vidx_lt val.virt, ?_, hp⟩ hnc
    rw [hin val hval, ← present_of_same hsame]
    exact hp

/-- **The load is right exactly when no page is shared, or all common pages are.** -/
theorem loadProcessMap_right_iff {l : List Mapping} (hbuilt : proc.memmap = TinyMemMap.build l)
    (hphys : proc.memmap.pdStack.items.Pairwise fun a b => a.phys.index ≠ b.phys.index)
    (huser : ∀ val ∈ proc.memmap.pdStack.items, val.phys.index ≠ 1 ∧ 2 ≤ val.virt.vidx)
    (hload : s.loadProcessMap proc = (true, s')) :
    LoadedRight s' proc ↔ NoneShared s proc ∨ AllShared s proc := by
  obtain ⟨hconf, hcommon, hloaded⟩ := loadProcessMap_true hload
  obtain ⟨hin, hout⟩ := processMap_entries hbuilt hphys huser
  by_cases hnone : NoneShared s proc
  · -- no page has both, and the common map is merged
    have hval : ∀ v, 2 ≤ v → v < PD_NUM_ENTRIES → s'.loaded.virt2phys v =
        if present (s.commonMemMap.virt2phys v) = true then s.commonMemMap.virt2phys v
        else (processMap proc.memmap).virt2phys v := fun v h2 hv =>
      (hloaded v h2).trans (virt2phys_addMap (not_collide_of_noneShared hnone) h2 hv)
    refine ⟨fun _ => Or.inl hnone,
      fun _ => ⟨fun v h2 hv hp => ?_, fun v h2 hv hp val hmem hvv => ?_, fun v h2 hv hp hno => ?_⟩⟩
    · rw [hcommon] at hp ⊢
      rw [hval v h2 hv, if_pos hp]
    · rw [hcommon] at hp
      rw [hval v h2 hv, if_neg (by rw [hp]; decide), ← hvv]
      exact hin val hmem
    · rw [hcommon] at hp
      rw [hval v h2 hv, if_neg (by rw [hp]; decide), hout v h2 hno]
      decide
  · -- some page has both, and nothing is merged
    have hcol := collide_of_shared hbuilt (fun val hmem => (huser val hmem).2) hin hconf hnone
    have hval : ∀ v, 2 ≤ v → s'.loaded.virt2phys v = (processMap proc.memmap).virt2phys v := by
      intro v h2
      rw [hloaded v h2, addMap_of_collide hcol]
    constructor
    · intro h
      refine Or.inr fun v h2 hv hp => ?_
      have hcv := h.common v h2 hv (by rw [hcommon]; exact hp)
      rw [hval v h2, hcommon] at hcv
      rcases processMap_cases proc.memmap h2 with h0 | ⟨val, hmem, hvv, hpde⟩
      · rw [← hcv, h0] at hp; exact absurd hp (by decide)
      · exact ⟨val, hmem, hvv, hpde.symm.trans hcv⟩
    · rintro (h | h)
      · exact absurd h hnone
      · refine ⟨fun v h2 hv hp => ?_, fun v h2 hv _ val hmem hvv => ?_, fun v h2 _ _ hno => ?_⟩
        · rw [hcommon] at hp ⊢
          obtain ⟨val, hmem, rfl, hpde⟩ := h v h2 hv hp
          rw [hval _ h2, hin val hmem, hpde]
        · rw [hval v h2, ← hvv]
          exact hin val hmem
        · rw [hval v h2, hout v h2 hno]
          decide

end Loaded

/-- A manager in service, with the mappings `l` as common pages. -/
def serving (l : List Mapping) : MemMapManager :=
  (l.foldl (fun s val => (s.addCommonPage val.virt val.phys).2) (construct fun _ => 0)).start

/-- Virtual pages 2 and 3, mapped to physical pages 5 and 6. -/
def page2 (flags : BitVec 32) : Mapping := ⟨PhysAddr.ofIndex 5 flags, ⟨0x800000⟩⟩
/-- Virtual page 3, mapped to physical page 6. -/
def page3 (flags : BitVec 32) : Mapping := ⟨PhysAddr.ofIndex 6 flags, ⟨0xc00000⟩⟩

/-- A process that maps one page. -/
def onePageProcess (val : Mapping) : ProcessDesc := ⟨TinyMemMap.build [val], none⟩

/-- It has this page only. -/
theorem items_onePageProcess (val : Mapping) :
    (onePageProcess val).memmap.pdStack.items = [val] := by
  have ht : (BitSet.new 1024).test val.virt.vidx = false := BitSet.test_new _
  have hpush : (onePageProcess val).memmap.pdStack = (Stack.new Mapping 1024).push val := by
    simp [onePageProcess, TinyMemMap.build, TinyMemMap.add, TinyMemMap.new, ht]
  rw [hpush, Stack.items_push _ _ (by decide)]
  rfl

/-- A process page beside a common one. -/
theorem loadProcessMap_right_iff_disjoint :
    LoadedRight ((serving [page2 PG_WRITABLE]).loadProcessMap
      (onePageProcess (page3 PG_USER))).2 (onePageProcess (page3 PG_USER)) := by
  have hitems := items_onePageProcess (page3 PG_USER)
  refine (loadProcessMap_right_iff (s := serving [page2 PG_WRITABLE]) (l := [page3 PG_USER]) rfl
    ?_ ?_ (Prod.ext (by decide) rfl)).mpr (Or.inl ?_)
  · rw [hitems]; exact List.pairwise_singleton _ _
  · rw [hitems]
    intro val hval
    cases List.mem_singleton.mp hval
    decide
  · unfold NoneShared
    rw [hitems]
    intro val hval
    cases List.mem_singleton.mp hval
    decide

/-- **A page that is mapped twice alike hides the common map**: the load succeeds without it. -/
theorem loadProcessMap_drops_common :
    ¬ ∀ (s s' : MemMapManager) (proc : ProcessDesc) (l : List Mapping), s.bIsStarted = true →
      proc.memmap = TinyMemMap.build l →
      (proc.memmap.pdStack.items.Pairwise fun a b => a.phys.index ≠ b.phys.index) →
      (∀ val ∈ proc.memmap.pdStack.items, val.phys.index ≠ 1 ∧ 2 ≤ val.virt.vidx) →
      s.loadProcessMap proc = (true, s') → LoadedRight s' proc := by
  intro h
  have hitems := items_onePageProcess (page2 PG_GLOABL)
  have hright := h (serving [page2 0, page3 0]) _ (onePageProcess (page2 PG_GLOABL))
    [page2 PG_GLOABL] (by decide) rfl (by rw [hitems]; exact List.pairwise_singleton _ _)
    (by rw [hitems]; intro val hval; cases List.mem_singleton.mp hval; decide)
    (Prod.ext (by decide) rfl)
  exact absurd (hright.common 3 (by decide) (by decide) (by decide)) (by decide)

/-! ## Runs of the manager

  A call either fails and changes neither map, or makes the same change to the common map and to
  the loaded one, or assembles a new map for a process. -/

/-- The calls of the manager. -/
inductive ManagerCall
  | addCommonPage (virt : VirtAddr) (phys : PhysAddr)
  | delCommonPage (virt : VirtAddr)
  | delCommonPagePhys (phys : PhysAddr)
  | loadProcessMap (proc : ProcessDesc)
  | start
  | stop (pageDir : Nat → BitVec 32)

namespace ManagerCall

/-- What a call returns (`start` and `stop` return nothing), and the state it leaves. -/
def run (s : MemMapManager) : ManagerCall → Bool × MemMapManager
  | .addCommonPage virt phys => s.addCommonPage virt phys
  | .delCommonPage virt => s.delCommonPage virt
  | .delCommonPagePhys phys => s.delCommonPagePhys phys
  | .loadProcessMap proc => s.loadProcessMap proc
  | .start => (true, s.start)
  | .stop pageDir => (true, s.stop pageDir)

/-- How the kernel calls it: 4 MB entries as common pages, and process maps whose pages are marked
    used and whose entries are not global. -/
def FromKernel : ManagerCall → Prop
  | .addCommonPage _ phys => HAS_FLAG PG_4MB_BASE phys.pde = true
  | .loadProcessMap proc => ∀ val ∈ proc.memmap.pdStack.items, present val.phys.pde = true ∧
      val.phys.pde &&& PG_GLOABL = 0 ∧ proc.memmap.isVirtAddrUsed.test val.virt.vidx = true
  | _ => True

end ManagerCall

open ManagerCall

/-- The runs from a new manager. -/
abbrev ReachedManager (pageDir : Nat → BitVec 32) : MemMapManager → Prop :=
  Reach (Machine.ofFn (construct pageDir) fun s call => (ManagerCall.run s call).2)
    fun _ call => FromKernel call

/-- Every common page is in the loaded map, as the same entry. -/
def CommonMapped (s : MemMapManager) : Prop :=
  ∀ v, 2 ≤ v → v < PD_NUM_ENTRIES → present (s.commonMemMap.virt2phys v) = true →
    s.loaded.virt2phys v = s.commonMemMap.virt2phys v

/-- The common map, which map is loaded, and that map are the same. -/
def SameMaps (s s' : MemMapManager) : Prop :=
  s'.commonMemMap = s.commonMemMap ∧ s'.loadedMap = s.loadedMap ∧ s'.loaded = s.loaded

/-- The invariant: common entries above the kernel are absent or present AND global, and the loaded
    map has them. -/
structure CommonInv (s : MemMapManager) : Prop where
  /-- A common entry is vacant, or present with the global flag, which no entry of a process has; -/
  entries : ∀ v, 2 ≤ v → v < PD_NUM_ENTRIES → s.commonMemMap.virt2phys v = 0 ∨
    (present (s.commonMemMap.virt2phys v) = true ∧ s.commonMemMap.virt2phys v &&& PG_GLOABL ≠ 0)
  /-- and the loaded map has it. -/
  mapped : CommonMapped s

section Steps

variable {s s' : MemMapManager} {m : MemMap} {virt : VirtAddr} {phys : PhysAddr}

/-- The two ways `add` ends. -/
theorem add_cases (m : MemMap) (virt : VirtAddr) (phys : PhysAddr) :
    (m.add virt phys = (false, m) ∧ (phys.index ≠ 1 ∨ virt.vidx < 2)) ∨
    (2 ≤ virt.vidx ∧ (phys.index ≠ 1 → present (m.virt2phys virt.vidx) = false ∧
        m.phys2virt phys.index = 0) ∧
      m.add virt phys = (true, ⟨if phys.index ≠ 1 then
        Function.update m.phys2virt phys.index virt.vidx else m.phys2virt,
        Function.update m.virt2phys virt.vidx phys.pde⟩)) := by
  simp only [MemMap.add]
  split
  · rename_i hc
    exact Or.inl ⟨rfl, Or.inl hc.1⟩
  · rename_i hc
    split
    · rename_i hlow
      exact Or.inl ⟨rfl, Or.inr (by omega)⟩
    · rename_i hlow
      refine Or.inr ⟨by omega, fun hk => ⟨?_, ?_⟩, rfl⟩
      · cases hp : present (m.virt2phys virt.vidx) with
        | false => rfl
        | true => exact absurd ⟨hk, Or.inl hp⟩ hc
      · by_contra hne
        exact hc ⟨hk, Or.inr hne⟩

/-- The two ways `-=` ends. -/
theorem subVirt_cases (m : MemMap) (virt : VirtAddr) :
    (m.subVirt virt = (false, m) ∧ (present (m.virt2phys virt.vidx) = false ∨ virt.vidx < 2)) ∨
    (2 ≤ virt.vidx ∧ present (m.virt2phys virt.vidx) = true ∧
      m.subVirt virt = (true, ⟨Function.update m.phys2virt
        (PhysAddr.mk (m.virt2phys virt.vidx)).index 0,
        Function.update m.virt2phys virt.vidx 0⟩)) := by
  simp only [MemMap.subVirt]
  split
  · rename_i hc
    exact Or.inl ⟨rfl, Or.inl (by simpa using hc)⟩
  · rename_i hc
    split
    · rename_i hlow
      exact Or.inl ⟨rfl, Or.inr (by omega)⟩
    · rename_i hlow
      exact Or.inr ⟨by omega, by simpa using hc, rfl⟩

/-- **The rollback is exact**: taking out what was just added to a vacant pair of pages gives the
    map back as it was. -/
theorem subVirt_add (h2 : 2 ≤ virt.vidx) (hp : present phys.pde = true)
    (hv : m.virt2phys virt.vidx = 0) (hpv : m.phys2virt phys.index = 0) :
    (MemMap.subVirt virt ⟨Function.update m.phys2virt phys.index virt.vidx,
      Function.update m.virt2phys virt.vidx phys.pde⟩).2 = m := by
  have hself : Function.update m.virt2phys virt.vidx phys.pde virt.vidx = phys.pde :=
    Function.update_self _ _ _
  rcases subVirt_cases ⟨Function.update m.phys2virt phys.index virt.vidx,
      Function.update m.virt2phys virt.vidx phys.pde⟩ virt with ⟨_, hc | hc⟩ | ⟨_, _, heq⟩
  · simp only [hself, hp] at hc
    exact absurd hc (by decide)
  · omega
  · rw [heq]
    simp only [hself, Function.update_idem]
    rw [← hv, ← hpv, Function.update_eq_self, Function.update_eq_self]

@[simp] theorem loaded_setLoaded (m : MemMap) : (s.setLoaded m).loaded = m :=
  Function.update_self _ _ _

@[simp] theorem loaded_writeThrough (virt : VirtAddr) (pde : BitVec 32) :
    (s.writeThrough virt pde).loaded = s.loaded := by
  unfold writeThrough
  split <;> rfl

@[simp] theorem commonMemMap_writeThrough (virt : VirtAddr) (pde : BitVec 32) :
    (s.writeThrough virt pde).commonMemMap = s.commonMemMap := by
  unfold writeThrough
  split <;> rfl

/-- A page entered in both maps as the same entry. -/
theorem CommonInv.enter (h : CommonInv s) {w : Nat} {e : BitVec 32}
    (he : e = 0 ∨ (present e = true ∧ e &&& PG_GLOABL ≠ 0))
    (hc : s'.commonMemMap.virt2phys = Function.update s.commonMemMap.virt2phys w e)
    (hl : s'.loaded.virt2phys = Function.update s.loaded.virt2phys w e) : CommonInv s' := by
  refine ⟨fun v h2 hv => ?_, fun v h2 hv hp => ?_⟩
  · rw [hc]
    by_cases hvw : v = w
    · rw [hvw, Function.update_self]; exact he
    · rw [Function.update_of_ne hvw]; exact h.entries v h2 hv
  · rw [hc] at hp ⊢
    rw [hl]
    by_cases hvw : v = w
    · rw [hvw, Function.update_self, Function.update_self]
    · rw [Function.update_of_ne hvw] at hp
      rw [Function.update_of_ne hvw, Function.update_of_ne hvw]
      exact h.mapped v h2 hv hp

/-- The flags of an entry made global. -/
theorem global_entry {pde : BitVec 32} (h : HAS_FLAG PG_4MB_BASE pde = true) :
    present (pde ||| PG_GLOABL) = true ∧ (pde ||| PG_GLOABL) &&& PG_GLOABL ≠ 0 := by
  have h' : pde &&& PG_4MB_BASE = PG_4MB_BASE := beq_iff_eq.mp h
  have h0 : pde.getLsbD 0 = true := by
    have := congrArg (fun x : BitVec 32 => x.getLsbD 0) h'
    simpa [PG_4MB_BASE] using this
  rw [BitVec.getLsbD_eq_getElem (by decide)] at h0
  refine ⟨?_, fun hc => ?_⟩
  · unfold present
    rw [bne_iff_ne]
    intro hc
    have := congrArg (fun x : BitVec 32 => x.getLsbD 0) hc
    simp [PAGING_PRESENT, h0] at this
  · have := congrArg (fun x : BitVec 32 => x.getLsbD 8) hc
    simp [PG_GLOABL] at this

/-- `addCommonPage`: both maps get the entry, or nothing changes. -/
theorem CommonInv.addCommonPage (h : CommonInv s) (hflag : HAS_FLAG PG_4MB_BASE phys.pde = true) :
    CommonInv (s.addCommonPage virt phys).2 ∧
      ((s.addCommonPage virt phys).1 = false → (s.addCommonPage virt phys).2 = s) := by
  have hv := vidx_lt virt
  obtain ⟨hp, hg⟩ := global_entry hflag
  unfold MemMapManager.addCommonPage
  rw [hflag, Bool.true_or, if_pos rfl]
  simp only
  generalize hphys : (PhysAddr.mk (phys.pde ||| PG_GLOABL)) = phys'
  have hp' : present phys'.pde = true := by rw [← hphys]; exact hp
  have hg' : phys'.pde &&& PG_GLOABL ≠ 0 := by rw [← hphys]; exact hg
  rcases add_cases s.commonMemMap virt phys' with ⟨heq, _⟩ | ⟨h2, hvac, heq⟩
  · rw [heq]; exact ⟨h, fun _ => rfl⟩
  rw [heq]
  simp only
  rcases add_cases s.loaded virt phys' with ⟨heql, hfail⟩ | ⟨_, _, heql⟩
  · -- the loaded map refuses: not the kernel page, so the common map had both pages vacant
    have hk : phys'.index ≠ 1 := hfail.resolve_right (by omega)
    obtain ⟨hv0, hp0⟩ := hvac hk
    have hzero : s.commonMemMap.virt2phys virt.vidx = 0 := by
      rcases h.entries _ h2 hv with h0 | ⟨h1, _⟩
      · exact h0
      · rw [hv0] at h1; exact absurd h1 (by decide)
    have hback := subVirt_add h2 hp' hzero hp0
    have hl : MemMapManager.loaded { s with commonMemMap := ⟨if phys'.index ≠ 1 then
        Function.update s.commonMemMap.phys2virt phys'.index virt.vidx
        else s.commonMemMap.phys2virt,
        Function.update s.commonMemMap.virt2phys virt.vidx phys'.pde⟩ } = s.loaded := rfl
    rw [hl, heql]
    simp only [if_pos hk, hback]
    exact ⟨h, fun _ => trivial⟩
  · have hl : MemMapManager.loaded { s with commonMemMap := ⟨if phys'.index ≠ 1 then
        Function.update s.commonMemMap.phys2virt phys'.index virt.vidx
        else s.commonMemMap.phys2virt,
        Function.update s.commonMemMap.virt2phys virt.vidx phys'.pde⟩ } = s.loaded := rfl
    rw [hl, heql]
    refine ⟨h.enter (w := virt.vidx) (e := phys'.pde) (Or.inr ⟨hp', hg'⟩) ?_ ?_, fun hc => ?_⟩
    · exact congrArg MemMap.virt2phys (commonMemMap_writeThrough _ _)
    · exact congrArg MemMap.virt2phys ((loaded_writeThrough _ _).trans (loaded_setLoaded _))
    · have hc' : true = false := hc
      cases hc'

/-- `delCommonPage`: the page leaves both maps, or nothing changes. -/
theorem CommonInv.delCommon (h : CommonInv s) (virt : VirtAddr) (phys : PhysAddr) :
    CommonInv (s.delCommon virt phys).2 ∧
      ((s.delCommon virt phys).1 = false → (s.delCommon virt phys).2 = s) := by
  have hv := vidx_lt virt
  unfold MemMapManager.delCommon
  rcases subVirt_cases s.commonMemMap virt with ⟨heq, _⟩ | ⟨h2, hp, heq⟩
  · rw [heq]; exact ⟨h, fun _ => rfl⟩
  rw [heq]
  simp only
  -- the loaded map has the page too, so it cannot refuse
  have hsame := h.mapped _ h2 hv hp
  have hl : MemMapManager.loaded { s with commonMemMap := ⟨Function.update s.commonMemMap.phys2virt
      (PhysAddr.mk (s.commonMemMap.virt2phys virt.vidx)).index 0,
      Function.update s.commonMemMap.virt2phys virt.vidx 0⟩ } = s.loaded := rfl
  rw [hl]
  rcases subVirt_cases s.loaded virt with ⟨_, hc | hc⟩ | ⟨_, _, heql⟩
  · rw [hsame, hp] at hc; exact absurd hc (by decide)
  · omega
  · rw [heql]
    refine ⟨h.enter (w := virt.vidx) (e := 0) (Or.inl rfl) ?_ ?_, fun hc => ?_⟩
    · exact congrArg MemMap.virt2phys (commonMemMap_writeThrough _ _)
    · exact congrArg MemMap.virt2phys ((loaded_writeThrough _ _).trans (loaded_setLoaded _))
    · have hc' : true = false := hc
      cases hc'

/-- A load that fails changes no map in use. -/
theorem loadProcessMap_false {proc : ProcessDesc} (h : (s.loadProcessMap proc).1 = false) :
    SameMaps s (s.loadProcessMap proc).2 := by
  have hne : s.loadedMap ≠ 1 - s.loadedMap := by
    have : ∀ i : Fin 2, i ≠ 1 - i := by decide
    exact this _
  unfold MemMapManager.loadProcessMap at h ⊢
  split
  · exact ⟨rfl, rfl, rfl⟩
  · rename_i hs
    rw [if_neg hs] at h
    simp only at h ⊢
    split
    · exact ⟨rfl, rfl, Function.update_of_ne hne _ _⟩
    · rename_i hc
      rw [if_neg hc] at h
      cases h

/-- A load keeps the common pages mapped: a page of the process that is common too would be a
    conflict, because common entries are global and the process's are not. -/
theorem CommonInv.loadProcessMap (h : CommonInv s) {proc : ProcessDesc}
    (hproc : FromKernel (.loadProcessMap proc)) : CommonInv (s.loadProcessMap proc).2 := by
  rcases hload : s.loadProcessMap proc with ⟨b, s'⟩
  cases b with
  | false =>
    have hsame := @loadProcessMap_false s proc (by rw [hload])
    rw [hload] at hsame
    obtain ⟨hc, _, hl⟩ := hsame
    refine ⟨fun v h2 hv => by rw [hc]; exact h.entries v h2 hv, fun v h2 hv hp => ?_⟩
    rw [hc] at hp ⊢
    rw [hl]
    exact h.mapped v h2 hv hp
  | true =>
    obtain ⟨hconf, hcommon, hloaded⟩ := loadProcessMap_true hload
    have hnc : ¬ Collide (processMap proc.memmap) s.commonMemMap := by
      rintro ⟨v, h2, hv, hpa, hpc⟩
      rcases processMap_cases proc.memmap h2 with h0 | ⟨val, hval, rfl, _⟩
      · rw [h0] at hpa; exact absurd hpa (by decide)
      · obtain ⟨_, hglobal, hused⟩ := hproc val hval
        have hsame := same_of_not_conflict (hconf val hval) h2 hused hpc
        rcases h.entries _ h2 hv with h0 | ⟨_, hg⟩
        · rw [h0] at hpc; exact absurd hpc (by decide)
        · exact hg ((and_eq_of_same hsame _ (by decide)).trans hglobal)
    refine ⟨fun v h2 hv => by rw [hcommon]; exact h.entries v h2 hv, fun v h2 hv hp => ?_⟩
    rw [hcommon] at hp ⊢
    rw [hloaded v h2, virt2phys_addMap hnc h2 hv, if_pos hp]

/-- Turning the pages on changes no entry. -/
theorem CommonInv.start (h : CommonInv s) : CommonInv s.start := by
  refine ⟨h.entries, fun v h2 hv hp => ?_⟩
  have hl : s.start.loaded = s.loaded.resetVPage0And1 := by
    show Function.update s.spareMemMaps s.loadedMap s.loaded.resetVPage0And1 s.loadedMap = _
    rw [Function.update_self]
  rw [hl]
  refine Eq.trans ?_ (h.mapped v h2 hv hp)
  show Function.update (Function.update s.loaded.virt2phys 0 0) 1 kernelEntry v = _
  rw [Function.update_of_ne (by omega), Function.update_of_ne (by omega)]

/-- **One call keeps the invariant.** -/
theorem commonInv_run (h : CommonInv s) (call : ManagerCall) (ok : FromKernel call) :
    CommonInv (call.run s).2 := by
  cases call with
  | addCommonPage virt phys => exact (h.addCommonPage ok).1
  | delCommonPage virt => exact (h.delCommon virt _).1
  | delCommonPagePhys phys => exact (h.delCommon _ phys).1
  | loadProcessMap proc => exact h.loadProcessMap ok
  | start => exact h.start
  | stop pageDir => exact ⟨h.entries, h.mapped⟩

/-- A call that fails changes no map in use. -/
theorem sameMaps_of_false (h : CommonInv s) (call : ManagerCall) (ok : FromKernel call)
    (hf : (call.run s).1 = false) : SameMaps s (call.run s).2 := by
  have hself : ∀ {t : MemMapManager}, t = s → SameMaps s t := by
    rintro _ rfl; exact ⟨rfl, rfl, rfl⟩
  cases call with
  | addCommonPage virt phys => exact hself ((h.addCommonPage ok).2 hf)
  | delCommonPage virt => exact hself ((h.delCommon virt _).2 hf)
  | delCommonPagePhys phys => exact hself ((h.delCommon _ phys).2 hf)
  | loadProcessMap proc => exact loadProcessMap_false hf
  | start => cases hf
  | stop pageDir => cases hf

end Steps

/-- At the start nothing is common. -/
theorem commonInv_construct (pageDir : Nat → BitVec 32) : CommonInv (construct pageDir) where
  entries _ h2 _ := Or.inl (virt2phys_clear h2)
  mapped _ _ _ _ := rfl

/-- **Common pages are in every map that is loaded**, and a call that fails changes neither the
    common map nor the loaded one — in every state the kernel's calls reach. -/
theorem commonPages_mapped {pageDir : Nat → BitVec 32} {s : MemMapManager}
    (hr : ReachedManager pageDir s) : CommonMapped s ∧
      ∀ call, FromKernel call → (call.run s).1 = false → SameMaps s (call.run s).2 := by
  have h : CommonInv s := Reach.ofFn_invariant (I := CommonInv) (commonInv_construct pageDir)
    (fun _ call hi ok => commonInv_run hi call ok) hr
  exact ⟨h.mapped, fun call ok => sameMaps_of_false h call ok⟩

/-- A common page, the service started, and a process loaded. -/
theorem commonPages_mapped_loaded :
    CommonMapped ((serving [page2 PG_WRITABLE]).loadProcessMap
      (onePageProcess (page3 PG_USER))).2 := by
  have hadd : ReachedManager (fun _ => 0)
      ((construct fun _ => 0).addCommonPage (page2 PG_WRITABLE).virt (page2 PG_WRITABLE).phys).2 :=
    .ofFn_step (a := ManagerCall.addCommonPage _ _) (.init rfl)
      (by decide : HAS_FLAG PG_4MB_BASE (page2 PG_WRITABLE).phys.pde = true)
  have hstart : ReachedManager (fun _ => 0) (serving [page2 PG_WRITABLE]) :=
    .ofFn_step (a := ManagerCall.start) hadd trivial
  have hr : ReachedManager (fun _ => 0) ((serving [page2 PG_WRITABLE]).loadProcessMap
      (onePageProcess (page3 PG_USER))).2 := by
    refine .ofFn_step (a := ManagerCall.loadProcessMap _) hstart fun val hval => ?_
    rw [items_onePageProcess] at hval
    cases List.mem_singleton.mp hval
    decide
  exact (commonPages_mapped hr).1

end TedkOS.Palloc
