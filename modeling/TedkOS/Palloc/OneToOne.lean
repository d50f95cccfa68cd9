/-
  The one-to-one bookkeeping of a `MemMap`.

  `OneToOne` is the demand of the header, with the kernel page exempt: virtual pages 0 and 1 are as
  hard-coded, every other present entry that maps a page other than the kernel's is recorded in the
  reverse table, and everything the reverse table records is so.

  One step lemma per operation decides when the operation keeps it.  The four moves behind them:

  * ALIAS   a virtual page is mapped to the kernel page (no record in the reverse table);
  * MAP     a vacant virtual page is mapped to a vacant physical page;
  * ERASE   a virtual page and the record of its physical page are cleared;
  * MERGE   the entries of another map are copied over.
-/
import TedkOS.Palloc.MemMap

namespace TedkOS.Palloc

open MemMap

/-- The physical page an entry maps. -/
def MemMap.pidx (m : MemMap) (v : Nat) : Nat := (PhysAddr.mk (m.virt2phys v)).index

/-- **The bookkeeping is one-to-one**, the kernel page apart. -/
structure OneToOne (m : MemMap) : Prop where
  /-- Virtual page 0 is never mapped, -/
  null : m.virt2phys 0 = 0
  /-- and virtual page 1 is the kernel's, -/
  kernel : m.virt2phys 1 = kernelEntry
  /-- which is on record. -/
  kernelBack : m.phys2virt 1 = 1
  /-- An entry for another physical page is on record there; -/
  forward : ∀ v, 2 ≤ v → v < PD_NUM_ENTRIES → present (m.virt2phys v) = true → m.pidx v ≠ 1 →
    m.phys2virt (m.pidx v) = v
  /-- and what is on record for another physical page is an entry for it. -/
  backward : ∀ p, p ≠ 1 → m.phys2virt p ≠ 0 → m.phys2virt p < PD_NUM_ENTRIES ∧
    present (m.virt2phys (m.phys2virt p)) = true ∧ m.pidx (m.phys2virt p) = p

/-- The operations. -/
inductive MapCall
  | add (virt : VirtAddr) (phys : PhysAddr)
  | subVirt (addr : VirtAddr)
  | subPhys (addr : PhysAddr)
  | addMap (that : MemMap)

namespace MapCall

/-- What an operation returns, and the map after it. -/
def run (m : MemMap) : MapCall → Bool × MemMap
  | .add virt phys => m.add virt phys
  | .subVirt addr => m.subVirt addr
  | .subPhys addr => m.subPhys addr
  | .addMap that => m.addMap that

/-- The operations that keep the bookkeeping one-to-one. -/
def Good (m : MemMap) : MapCall → Prop
  | .add virt phys => phys.index = 1 → 2 ≤ virt.vidx → present (m.virt2phys virt.vidx) = true →
      m.pidx virt.vidx = 1
  | .subVirt addr => 2 ≤ addr.vidx → present (m.virt2phys addr.vidx) = true → m.pidx addr.vidx ≠ 1
  | .subPhys _ => True
  | .addMap that => Collide m that ∨ ∀ v, 2 ≤ v → v < PD_NUM_ENTRIES →
      present (that.virt2phys v) = true → that.pidx v ≠ 1 → m.phys2virt (that.pidx v) = 0

end MapCall

open MapCall

/-- The maps that operations obeying `ok` build from an empty one: entries added are present, and
    maps merged are built the same way. -/
inductive Built (ok : MemMap → MapCall → Prop) : MemMap → Prop
  | clear : Built ok MemMap.clear
  | add {m virt phys} : Built ok m → present phys.pde = true → ok m (.add virt phys) →
      Built ok (m.add virt phys).2
  | subVirt {m addr} : Built ok m → ok m (.subVirt addr) → Built ok (m.subVirt addr).2
  | subPhys {m addr} : Built ok m → ok m (.subPhys addr) → Built ok (m.subPhys addr).2
  | addMap {m that} : Built ok m → Built ok that → ok m (.addMap that) →
      Built ok (m.addMap that).2

/-- What may be asked of a map built by `ok` operations. -/
def Allowed (ok : MemMap → MapCall → Prop) : MapCall → Prop
  | .add _ phys => present phys.pde = true
  | .addMap that => Built ok that
  | _ => True

/-- An empty map has no entry but the kernel's, and nothing else on record. -/
theorem oneToOne_clear : OneToOne MemMap.clear := by
  refine ⟨rfl, rfl, rfl, fun v h2 _ hp _ => ?_, fun p hp hne => ?_⟩
  · have hv : MemMap.clear.virt2phys v = 0 := by
      show Function.update (Function.update (fun _ => (0 : BitVec 32)) 0 0) 1 kernelEntry v = 0
      rw [Function.update_of_ne (by omega), Function.update_of_ne (by omega)]
    rw [hv] at hp
    exact absurd hp (by decide)
  · exact absurd (Function.update_of_ne hp _ _) hne

/-! ## The moves

  Two tables, and what each move stores in them.  For the first three it is one entry of each,
  and the bookkeeping is looked at for this entry and for all the others; a merge is followed
  entry by entry (`merged_foldl`). -/

section Moves

variable {m that : MemMap} {v p : Nat}

/-- The entry of a page that was just written. -/
theorem pidx_update (f : Nat → Nat) (e : BitVec 32) (w : Nat) :
    (MemMap.mk f (Function.update m.virt2phys v e)).pidx w =
      if w = v then (PhysAddr.mk e).index else m.pidx w := by
  unfold MemMap.pidx
  by_cases hw : w = v
  · subst hw
    rw [if_pos rfl]
    show (PhysAddr.mk (Function.update m.virt2phys w e w)).index = _
    rw [Function.update_self]
  · rw [if_neg hw]
    show (PhysAddr.mk (Function.update m.virt2phys v e w)).index = _
    rw [Function.update_of_ne hw]

/-- **ALIAS** is right exactly for a page that is vacant, or aliases the kernel page already. -/
theorem OneToOne.alias_iff (h : OneToOne m) (h2 : 2 ≤ v) (hv : v < PD_NUM_ENTRIES) {e : BitVec 32}
    (he : (PhysAddr.mk e).index = 1) :
    OneToOne ⟨m.phys2virt, Function.update m.virt2phys v e⟩ ↔
      (present (m.virt2phys v) = true → m.pidx v = 1) := by
  constructor
  · intro h' hp
    by_contra hne
    -- the record of the page that was mapped there is stale
    have hback := h.forward v h2 hv hp hne
    obtain ⟨_, _, hidx⟩ := h'.backward (m.pidx v) hne (by show m.phys2virt _ ≠ 0; omega)
    rw [pidx_update] at hidx
    have hbv : (MemMap.mk m.phys2virt (Function.update m.virt2phys v e)).phys2virt (m.pidx v) = v :=
      hback
    rw [hbv, if_pos rfl, he] at hidx
    exact hne hidx.symm
  · intro hgood
    refine ⟨?_, ?_, h.kernelBack, fun w h2w hw hp hne => ?_, fun p hp hne => ?_⟩
    · show Function.update m.virt2phys v e 0 = 0
      rw [Function.update_of_ne (by omega)]; exact h.null
    · show Function.update m.virt2phys v e 1 = kernelEntry
      rw [Function.update_of_ne (by omega)]; exact h.kernel
    · rw [pidx_update] at hne ⊢
      by_cases hwv : w = v
      · rw [if_pos hwv] at hne; exact absurd he hne
      · rw [if_neg hwv] at hne ⊢
        have hp' : present (Function.update m.virt2phys v e w) = true := hp
        rw [Function.update_of_ne hwv] at hp'
        exact h.forward w h2w hw hp' hne
    · obtain ⟨hlt, hpr, hidx⟩ := h.backward p hp hne
      have hwv : m.phys2virt p ≠ v := fun hwv => by
        rw [hwv] at hpr hidx
        exact hp (hidx.symm.trans (hgood hpr))
      rw [pidx_update]
      show _ ∧ present (Function.update m.virt2phys v e (m.phys2virt p)) = true ∧ _
      rw [Function.update_of_ne hwv, if_neg hwv]
      exact ⟨hlt, hpr, hidx⟩

/-- **MAP**: both pages are vacant. -/
theorem OneToOne.map (h : OneToOne m) (h2 : 2 ≤ v) (hv : v < PD_NUM_ENTRIES) {e : BitVec 32}
    (he : present e = true) (hne1 : (PhysAddr.mk e).index ≠ 1)
    (hvac : present (m.virt2phys v) = false) (hpvac : m.phys2virt (PhysAddr.mk e).index = 0) :
    OneToOne ⟨Function.update m.phys2virt (PhysAddr.mk e).index v,
      Function.update m.virt2phys v e⟩ := by
  refine ⟨?_, ?_, ?_, fun w h2w hw hp hne => ?_, fun p hp hne => ?_⟩
  · show Function.update m.virt2phys v e 0 = 0
    rw [Function.update_of_ne (by omega)]; exact h.null
  · show Function.update m.virt2phys v e 1 = kernelEntry
    rw [Function.update_of_ne (by omega)]; exact h.kernel
  · show Function.update m.phys2virt _ v 1 = 1
    rw [Function.update_of_ne (Ne.symm hne1)]; exact h.kernelBack
  · -- forward: the page itself, or another one, which does not map the vacant physical page
    rw [pidx_update] at hne ⊢
    show Function.update m.phys2virt _ v _ = w
    by_cases hwv : w = v
    · rw [if_pos hwv, Function.update_self]; exact hwv.symm
    · rw [if_neg hwv] at hne ⊢
      have hp' : present (Function.update m.virt2phys v e w) = true := hp
      rw [Function.update_of_ne hwv] at hp'
      have hback := h.forward w h2w hw hp' hne
      rw [Function.update_of_ne fun hc => by rw [hc, hpvac] at hback; omega]
      exact hback
  · -- backward: the record of the new page, or another one, which does not name the vacant page
    have hne' : Function.update m.phys2virt (PhysAddr.mk e).index v p ≠ 0 := hne
    rw [pidx_update]
    show Function.update m.phys2virt _ v p < _ ∧
      present (Function.update m.virt2phys v e (Function.update m.phys2virt _ v p)) = true ∧
      (if Function.update m.phys2virt _ v p = v then _
        else m.pidx (Function.update m.phys2virt _ v p))
        = p
    by_cases hpe : p = (PhysAddr.mk e).index
    · rw [hpe, Function.update_self, Function.update_self, if_pos rfl]
      exact ⟨hv, he, rfl⟩
    · rw [Function.update_of_ne hpe] at hne' ⊢
      obtain ⟨hlt, hpr, hidx⟩ := h.backward p hp hne'
      have hwv : m.phys2virt p ≠ v := fun hwv => by
        rw [hwv, hvac] at hpr; exact absurd hpr (by decide)
      rw [Function.update_of_ne hwv, if_neg hwv]
      exact ⟨hlt, hpr, hidx⟩

/-- **ERASE**: a page and the record of the page it maps. -/
theorem OneToOne.erase (h : OneToOne m) (h2 : 2 ≤ v) (hv : v < PD_NUM_ENTRIES)
    (hp : present (m.virt2phys v) = true) (hne1 : m.pidx v ≠ 1) :
    OneToOne ⟨Function.update m.phys2virt (m.pidx v) 0, Function.update m.virt2phys v 0⟩ := by
  have hback := h.forward v h2 hv hp hne1
  refine ⟨?_, ?_, ?_, fun w h2w hw hpw hne => ?_, fun p hp1 hne => ?_⟩
  · show Function.update m.virt2phys v 0 0 = 0
    rw [Function.update_of_ne (by omega)]; exact h.null
  · show Function.update m.virt2phys v 0 1 = kernelEntry
    rw [Function.update_of_ne (by omega)]; exact h.kernel
  · show Function.update m.phys2virt _ 0 1 = 1
    rw [Function.update_of_ne (Ne.symm hne1)]; exact h.kernelBack
  · rw [pidx_update] at hne ⊢
    have hpw' : present (Function.update m.virt2phys v 0 w) = true := hpw
    by_cases hwv : w = v
    · rw [hwv, Function.update_self] at hpw'
      exact absurd hpw' (by decide)
    · rw [if_neg hwv] at hne ⊢
      rw [Function.update_of_ne hwv] at hpw'
      have hbackw := h.forward w h2w hw hpw' hne
      show Function.update m.phys2virt _ 0 _ = w
      rw [Function.update_of_ne fun hc => by rw [hc, hback] at hbackw; exact hwv hbackw.symm]
      exact hbackw
  · -- a record that is left names a page that is still there: no two records name the same one
    have hne' : Function.update m.phys2virt (m.pidx v) 0 p ≠ 0 := hne
    have hpv : p ≠ m.pidx v := fun hc => by rw [hc, Function.update_self] at hne'; exact hne' rfl
    rw [Function.update_of_ne hpv] at hne'
    obtain ⟨hlt, hpr, hidx⟩ := h.backward p hp1 hne'
    have hwv : m.phys2virt p ≠ v := fun hwv => by
      rw [hwv] at hidx; exact hpv hidx.symm
    rw [pidx_update]
    show Function.update m.phys2virt _ 0 p < _ ∧
      present (Function.update m.virt2phys v 0 (Function.update m.phys2virt _ 0 p)) = true ∧
      (if Function.update m.phys2virt _ 0 p = v then _
        else m.pidx (Function.update m.phys2virt _ 0 p))
        = p
    rw [Function.update_of_ne hpv, Function.update_of_ne hwv, if_neg hwv]
    exact ⟨hlt, hpr, hidx⟩

/-- What a merge leaves, page by page: the entries and records of `that` where it has an entry,
    those of `m` elsewhere. -/
structure Merged (that m m' : MemMap) : Prop where
  /-- A present entry of `that` is copied, and the record of its physical page too. -/
  taken : ∀ w, 2 ≤ w → w < PD_NUM_ENTRIES → present (that.virt2phys w) = true →
    m'.virt2phys w = that.virt2phys w ∧ m'.phys2virt (that.pidx w) = that.phys2virt (that.pidx w)
  /-- Virtual pages 0 and 1 are left out. -/
  low : ∀ w, w < 2 → m'.virt2phys w = m.virt2phys w
  /-- Where `that` has no entry nothing changes, -/
  kept : ∀ w, present (that.virt2phys w) = false → m'.virt2phys w = m.virt2phys w
  /-- nor does the record of a physical page that `that` does not map. -/
  untouched : ∀ p, (∀ w ∈ userIndices, present (that.virt2phys w) = true → that.pidx w ≠ p) →
    m'.phys2virt p = m.phys2virt p

/-- The loop of `add(MemMap)` merges: an entry is copied in the round of its page, and no other
    round touches it. -/
theorem merged_foldl (that m : MemMap) : Merged that m (userIndices.foldl (mergeEntry that) m) where
  taken w h2 hw hp := by
    have hmem := mem_userIndices.mpr ⟨h2, hw⟩
    refine ⟨?_, phys2virt_foldl_mergeEntry that _ _ _ ⟨w, hmem, hp, rfl⟩⟩
    rw [virt2phys_foldl_mergeEntry, if_pos ⟨hmem, hp⟩]
  low w hw := by
    rw [virt2phys_foldl_mergeEntry, if_neg]
    rintro ⟨hmem, -⟩
    have := (mem_userIndices.mp hmem).1
    omega
  kept w hp := by
    rw [virt2phys_foldl_mergeEntry, if_neg]
    rintro ⟨-, hp'⟩
    rw [hp] at hp'
    exact absurd hp' (by decide)
  untouched p := phys2virt_foldl_mergeEntry_ne that p _ _

/-- An entry that stays maps the same physical page. -/
theorem pidx_congr {m' : MemMap} {w : Nat} (h : m'.virt2phys w = m.virt2phys w) :
    m'.pidx w = m.pidx w := by
  unfold MemMap.pidx
  rw [h]

namespace Merged

variable {m' : MemMap}

/-- Where the maps do not collide, a merge keeps the entries of `m`. -/
theorem virt2phys_of_present (hm : Merged that m m') (hnc : ¬ Collide m that) {w : Nat}
    (hw : w < PD_NUM_ENTRIES) (hp : present (m.virt2phys w) = true) :
    m'.virt2phys w = m.virt2phys w := by
  rcases Nat.lt_or_ge w 2 with hlow | h2
  · exact hm.low w hlow
  · cases hpt : present (that.virt2phys w) with
    | false => exact hm.kept w hpt
    | true => exact absurd ⟨w, h2, hw, hp, hpt⟩ hnc

/-- A physical page is mapped by `that`, and then recorded as `that` has it, or recorded as
    before. -/
theorem phys2virt_cases (hm : Merged that m m') (p : Nat) :
    (∃ w, 2 ≤ w ∧ w < PD_NUM_ENTRIES ∧ present (that.virt2phys w) = true ∧ that.pidx w = p ∧
      m'.phys2virt p = that.phys2virt p) ∨ m'.phys2virt p = m.phys2virt p := by
  by_cases hex : ∃ w ∈ userIndices, present (that.virt2phys w) = true ∧ that.pidx w = p
  · obtain ⟨w, hw, hp, rfl⟩ := hex
    obtain ⟨h2, hlt⟩ := mem_userIndices.mp hw
    exact Or.inl ⟨w, h2, hlt, hp, rfl, (hm.taken w h2 hlt hp).2⟩
  · exact Or.inr (hm.untouched p fun w hw hp e => hex ⟨w, hw, hp, e⟩)

/-- A merge that is one-to-one shared no physical page but the kernel's. -/
theorem noneShared (hm : Merged that m m') (h : OneToOne m) (ht : OneToOne that)
    (hnc : ¬ Collide m that) (h' : OneToOne m') (h2 : 2 ≤ v) (hv : v < PD_NUM_ENTRIES)
    (hp : present (that.virt2phys v) = true) (hne : that.pidx v ≠ 1) :
    m.phys2virt (that.pidx v) = 0 := by
  by_contra hown
  -- the page is mapped by both maps: at `v` by `that`, at `w` by `m`
  obtain ⟨hwlt, hwp, hwi⟩ := h.backward _ hne hown
  generalize m.phys2virt (that.pidx v) = w at hown hwlt hwp hwi
  have hw1 : w ≠ 1 := fun e => by
    rw [e, MemMap.pidx, h.kernel, index_kernelEntry] at hwi
    exact hne hwi.symm
  have hrec : m'.phys2virt (that.pidx v) = v :=
    (hm.taken v h2 hv hp).2.trans (ht.forward v h2 hv hp hne)
  have hkeep := hm.virt2phys_of_present hnc hwlt hwp
  have hidx : m'.pidx w = that.pidx v := (pidx_congr hkeep).trans hwi
  have hvw := h'.forward w (by omega) hwlt (by rw [hkeep]; exact hwp) (by rw [hidx]; exact hne)
  rw [hidx, hrec] at hvw
  subst hvw
  exact hnc ⟨v, h2, hv, hwp, hp⟩

/-- A merge that shares no physical page but the kernel's is one-to-one. -/
theorem oneToOne (hm : Merged that m m') (h : OneToOne m) (ht : OneToOne that)
    (hnc : ¬ Collide m that)
    (hgood : ∀ v, 2 ≤ v → v < PD_NUM_ENTRIES → present (that.virt2phys v) = true → that.pidx v ≠ 1 →
      m.phys2virt (that.pidx v) = 0) : OneToOne m' where
  null := (hm.low 0 (by omega)).trans h.null
  kernel := (hm.low 1 (by omega)).trans h.kernel
  kernelBack := by
    rcases hm.phys2virt_cases 1 with ⟨_, _, _, _, _, e⟩ | e
    · rw [e]; exact ht.kernelBack
    · rw [e]; exact h.kernelBack
  forward v h2 hv hp hne := by
    cases hpt : present (that.virt2phys v) with
    | true =>
      obtain ⟨e, hrec⟩ := hm.taken v h2 hv hpt
      rw [pidx_congr e] at hne ⊢
      rw [hrec]
      exact ht.forward v h2 hv hpt hne
    | false =>
      have e := hm.kept v hpt
      rw [e] at hp
      rw [pidx_congr e] at hne ⊢
      have hv' := h.forward v h2 hv hp hne
      rcases hm.phys2virt_cases (m.pidx v) with ⟨w, h2w, hw, hpw, hwi, _⟩ | e'
      · have hown := hgood w h2w hw hpw (by rw [hwi]; exact hne)
        rw [hwi] at hown
        omega
      · rw [e']; exact hv'
  backward p hp hne := by
    rcases hm.phys2virt_cases p with ⟨w, h2w, hw, hpw, rfl, e⟩ | e
    · obtain ⟨hent, -⟩ := hm.taken w h2w hw hpw
      rw [e, ht.forward w h2w hw hpw hp, pidx_congr hent, hent]
      exact ⟨hw, hpw, rfl⟩
    · rw [e] at hne ⊢
      obtain ⟨hlt, hpr, hidx⟩ := h.backward p hp hne
      have hkeep := hm.virt2phys_of_present hnc hlt hpr
      rw [hkeep, pidx_congr hkeep]
      exact ⟨hlt, hpr, hidx⟩

end Merged

/-- **MERGE** of maps that do not collide is right exactly when they share no physical page but the
    kernel's. -/
theorem OneToOne.merge_iff (h : OneToOne m) (ht : OneToOne that) (hnc : ¬ Collide m that) :
    OneToOne (userIndices.foldl (mergeEntry that) m) ↔
      ∀ v, 2 ≤ v → v < PD_NUM_ENTRIES → present (that.virt2phys v) = true → that.pidx v ≠ 1 →
        m.phys2virt (that.pidx v) = 0 :=
  have hm := merged_foldl that m
  ⟨fun h' _ h2 hv hp hne => hm.noneShared h ht hnc h' h2 hv hp hne, hm.oneToOne h ht hnc⟩

end Moves

/-! ## The operations

  An operation makes its checks and then one of the moves.  A check that is missing shows up as a
  condition: which page was there before, or which page the entry of the other map had. -/

section Operations

variable {m : MemMap}

/-- `add` refuses a page that is taken, on either side.  The kernel page is exempt from that
    test, and so it may go over an entry whose record then stays behind. -/
theorem OneToOne.add_iff (h : OneToOne m) (virt : VirtAddr) {phys : PhysAddr}
    (hp : present phys.pde = true) : OneToOne (m.add virt phys).2 ↔ Good m (.add virt phys) := by
  have hv := vidx_lt virt
  simp only [MemMap.add, Good]
  split
  · rename_i hc
    exact ⟨fun _ he => absurd he hc.1, fun _ => h⟩
  · rename_i hc
    split
    · rename_i hlow
      exact ⟨fun _ _ h2 => by omega, fun _ => h⟩
    · rename_i hlow
      by_cases hk : phys.index = 1
      · -- ALIAS
        rw [if_neg (not_not_intro hk), h.alias_iff (by omega) hv hk]
        exact ⟨fun hg _ _ => hg, fun hg => hg hk (by omega)⟩
      · -- MAP
        rw [if_pos hk]
        have hvac : present (m.virt2phys virt.vidx) = false := by
          cases hpv : present (m.virt2phys virt.vidx) with
          | false => rfl
          | true => exact absurd ⟨hk, Or.inl hpv⟩ hc
        have hpvac : m.phys2virt phys.index = 0 := by
          by_contra hne
          exact hc ⟨hk, Or.inr hne⟩
        exact ⟨fun _ he => absurd he hk, fun _ => h.map (by omega) hv hp hk hvac hpvac⟩

/-- `-=` of a virtual page erases the record of whatever page is mapped there, the kernel's too. -/
theorem OneToOne.subVirt_iff (h : OneToOne m) (addr : VirtAddr) :
    OneToOne (m.subVirt addr).2 ↔ Good m (.subVirt addr) := by
  have hv := vidx_lt addr
  simp only [MemMap.subVirt, Good]
  split
  · rename_i hc
    exact ⟨fun _ _ hp => by rw [hp] at hc; exact absurd hc (by decide), fun _ => h⟩
  · rename_i hc
    have hp : present (m.virt2phys addr.vidx) = true := by simpa using hc
    split
    · rename_i hlow
      exact ⟨fun _ h2 => by omega, fun _ => h⟩
    · rename_i hlow
      constructor
      · intro h' _ _ hk
        -- the record of the kernel page is erased
        have hback : Function.update m.phys2virt (m.pidx addr.vidx) 0 1 = 1 := h'.kernelBack
        rw [hk, Function.update_self] at hback
        exact absurd hback (by decide)
      · exact fun hg => h.erase (by omega) hv hp (hg (by omega) hp)

/-- `-=` of a physical page refuses the kernel's, and of any other page it erases what is on
    record for it. -/
theorem OneToOne.subPhys (h : OneToOne m) (addr : PhysAddr) : OneToOne (m.subPhys addr).2 := by
  simp only [MemMap.subPhys]
  split
  · exact h
  · rename_i hne
    split
    · exact h
    · rename_i hlow
      have hk : addr.index ≠ 1 := fun e => by
        rw [e, h.kernelBack] at hlow
        exact hlow (Or.inr rfl)
      obtain ⟨hlt, hp, hidx⟩ := h.backward addr.index hk hne
      have herase := h.erase (by omega) hlt hp (by rw [hidx]; exact hk)
      rw [hidx] at herase
      exact herase

/-- `+=` tests for virtual pages that both maps have, and not for physical ones. -/
theorem OneToOne.addMap_iff (h : OneToOne m) {that : MemMap} (ht : OneToOne that) :
    OneToOne (m.addMap that).2 ↔ Good m (.addMap that) := by
  by_cases hc : Collide m that
  · rw [addMap_of_collide hc]
    exact ⟨fun _ => Or.inl hc, fun _ => h⟩
  · have hmerge := addMap_of_not_collide hc
    have hiff := h.merge_iff ht hc
    generalize userIndices.foldl (mergeEntry that) m = m' at hmerge hiff
    rw [hmerge, hiff]
    exact ⟨Or.inr, fun hg => hg.resolve_left hc⟩

/-- Every map built by good operations is one-to-one. -/
theorem oneToOne_of_built (hb : Built Good m) : OneToOne m := by
  induction hb with
  | clear => exact oneToOne_clear
  | add _ hp hg ih => exact (ih.add_iff _ hp).mpr hg
  | subVirt _ hg ih => exact (ih.subVirt_iff _).mpr hg
  | subPhys _ _ ih => exact ih.subPhys _
  | addMap _ _ hg ih iht => exact (ih.addMap_iff iht).mpr hg

end Operations

/-- **The bookkeeping stays one-to-one along good operations, and only along them**: a map built by
    good operations is one-to-one, and a further operation keeps it so if and only if it is good. -/
theorem memMap_oneToOne {m : MemMap} (hb : Built Good m) :
    OneToOne m ∧ ∀ call, Allowed Good call → (OneToOne (call.run m).2 ↔ Good m call) := by
  have h := oneToOne_of_built hb
  refine ⟨h, fun call ok => ?_⟩
  cases call with
  | add virt phys => exact h.add_iff virt ok
  | subVirt addr => exact h.subVirt_iff addr
  | subPhys addr => exact ⟨fun _ => trivial, fun _ => h.subPhys addr⟩
  | addMap that => exact h.addMap_iff (oneToOne_of_built ok)

/-- A page mapped by `add`: virtual page 2 to physical page 5. -/
def onePage : MemMap := (MemMap.clear.add ⟨0x800000⟩ (PhysAddr.ofIndex 5 PG_WRITABLE)).2

/-- It is built, if its one operation is allowed. -/
theorem built_onePage (ok : MemMap → MapCall → Prop)
    (hok : ok MemMap.clear (.add ⟨0x800000⟩ (PhysAddr.ofIndex 5 PG_WRITABLE))) :
    Built ok onePage :=
  .add .clear (by decide) hok

/-- There the kernel page is added over the mapped page: that is not a good operation, and the
    map is one-to-one before and not after. -/
theorem memMap_oneToOne_onePage : OneToOne onePage ∧
    ¬ OneToOne (onePage.add ⟨0x800000⟩ (PhysAddr.ofIndex 1 PG_WRITABLE)).2 := by
  obtain ⟨h, hiff⟩ := memMap_oneToOne (built_onePage Good fun hk => absurd hk (by decide))
  refine ⟨h, fun h' => ?_⟩
  have hgood := (hiff (.add ⟨0x800000⟩ (PhysAddr.ofIndex 1 PG_WRITABLE))
    (by decide : present (PhysAddr.ofIndex 1 PG_WRITABLE).pde = true)).mp h'
  exact absurd (hgood (by decide) (by decide) (by decide)) (by decide)

/-- **Mapping the kernel page over a mapped page leaves a stale record.** -/
theorem memMap_not_oneToOne : ¬ ∀ m, Built (fun _ _ => True) m → OneToOne m := by
  intro h
  have h' := h (onePage.add ⟨0x800000⟩ (PhysAddr.ofIndex 1 PG_WRITABLE)).2
    (.add (built_onePage _ trivial) (by decide) trivial)
  exact absurd (h'.backward 5 (by decide) (by decide)).2.2 (by decide)

end TedkOS.Palloc
