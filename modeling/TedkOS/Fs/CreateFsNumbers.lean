/-
  The numbers in a file system image (src/createfs.c), and what `main` has made in the end.

  Inode numbers and block numbers are drawn from one map, in which the blocks come after the inodes.

  1. **The draws** — `assignInodes_spec`, `assignBlocks_spec`: no number is given out twice, and
     every entry of the boot block has the number of its inode.  `Gives` is what a part of the loops
     has done to the map; two parts one after the other give out different numbers, because the
     second finds the flags of the first set (`Gives.append`).

  2. **The whole program** — `main_spec`: the boot block and the inodes agree (`Made`).

  3. **It ends** — `main_ends`: the loops over `rand` find their numbers, since there are twice as
     many as are needed.  `Room` counts how many can still be given out; a draw costs one, and needs
     that one is left.  How long a draw takes depends on the random numbers: each lemma says from
     which point `q` of the source on the loop has its number, and the next loop goes on from there.
-/
import Mathlib.Data.Nat.Pairing
import TedkOS.Fs.CreateFs

namespace TedkOS.Fs.CreateFs

open Klibs

variable {mem : Nat → BitVec 8} {i n : Nat}

/-! ## The numbers

  The library says what one draw does.  A loop of draws has done what its parts have done, and
  the parts have no number in common. -/

/-- The numbers `vs` below `n` have been given out, at `base` in the map, and only that has
    happened to the map. -/
structure FreeMap.Gives (base n : Nat) (v12 v12' : FreeMap) (vs : List Nat) : Prop where
  drawn : Draws.Drawn base n v12.used v12'.used vs
  numInodes : v12'.numInodes = v12.numInodes
  numDatablocks : v12'.numDatablocks = v12.numDatablocks

namespace FreeMap.Gives

variable {base : Nat} {v12 v₁ v₂ : FreeMap} {vs ws : List Nat}

/-- Nothing is given out. -/
theorem nil : Gives base n v12 v12 [] := ⟨.nil, rfl, rfl⟩

/-- Two parts of the loops, one after the other. -/
theorem append (h : Gives base n v12 v₁ vs) (h' : Gives base n v₁ v₂ ws) :
    Gives base n v12 v₂ (vs ++ ws) :=
  ⟨h.drawn.append h'.drawn, h'.numInodes.trans h.numInodes, h'.numDatablocks.trans h.numDatablocks⟩

/-- One number is given out. -/
theorem one {v : Nat} (hn : 0 < n) (h : v12.get base n = some (v, v₁)) :
    Gives base n v12 v₁ [v] := by
  rw [FreeMap.get, Option.map_eq_some_iff] at h
  obtain ⟨⟨v2, rands⟩, hdraw, heq⟩ := h
  obtain ⟨rfl, rfl⟩ := Prod.mk.inj heq
  exact ⟨Draws.Drawn.one hn hdraw, rfl, rfl⟩

end FreeMap.Gives

/-- The inode numbers are stored in the entries. -/
def storeInodes (bblock : Nat → BitVec 8) (bufs : List InodeData) : Nat → BitVec 8 :=
  bufs.foldl (fun bblock buf => setDword bblock (buf.dentry + 36) (BitVec.ofNat 32 buf.inode))
    bblock

/-- **Every file gets an inode of its own**, and its entry says so. -/
theorem assignInodes_spec {bufs bufs' : List InodeData} {bblock bblock' : Nat → BitVec 8}
    {v12 v12' : FreeMap} (hn : bufs.length ≤ v12.numInodes)
    (h : assignInodes bufs bblock v12 = some (bufs', bblock', v12')) :
    List.Forall₂ (fun buf buf' => buf' = { buf with inode := buf'.inode }) bufs bufs' ∧
      FreeMap.Gives 1 v12.numInodes v12 v12' (bufs'.map InodeData.inode) ∧
      bblock' = storeInodes bblock bufs' := by
  induction bufs generalizing bufs' bblock v12 with
  | nil =>
    obtain ⟨rfl, heq⟩ := Prod.mk.inj (Option.some.inj h)
    obtain ⟨rfl, rfl⟩ := Prod.mk.inj heq
    exact ⟨.nil, .nil, rfl⟩
  | cons buf bufs ih =>
    rw [List.length_cons] at hn
    rw [assignInodes] at h
    obtain ⟨⟨inode, v₁⟩, hget, h⟩ := Option.bind_eq_some_iff.mp h
    obtain ⟨⟨bufs₁, bblock₁, v₂⟩, hrest, h⟩ := Option.bind_eq_some_iff.mp h
    obtain ⟨rfl, heq⟩ := Prod.mk.inj (Option.some.inj h)
    obtain ⟨rfl, rfl⟩ := Prod.mk.inj heq
    have hone := FreeMap.Gives.one (by omega) hget
    -- the rest draws from the map in which the first number is set
    obtain ⟨hsame, hgives, rfl⟩ := ih (by rw [hone.numInodes]; omega) hrest
    rw [hone.numInodes] at hgives
    exact ⟨.cons rfl hsame, hone.append hgives, rfl⟩

/-- The blocks of one file, in the order of their draws. -/
theorem getBlocks_spec {v12 v12' : FreeMap} {ids : List Nat} (hn : n ≤ v12.numDatablocks)
    (h : getBlocks n v12 = some (ids, v12')) :
    FreeMap.Gives (v12.numInodes + 1) v12.numDatablocks v12 v12' ids ∧ ids.length = n := by
  induction n generalizing v12 ids with
  | zero =>
    obtain ⟨rfl, rfl⟩ := Prod.mk.inj (Option.some.inj h)
    exact ⟨.nil, rfl⟩
  | succ n ih =>
    rw [getBlocks] at h
    obtain ⟨⟨id, v₁⟩, hget, h⟩ := Option.bind_eq_some_iff.mp h
    obtain ⟨⟨ids₁, v₂⟩, hrest, h⟩ := Option.bind_eq_some_iff.mp h
    obtain ⟨rfl, rfl⟩ := Prod.mk.inj (Option.some.inj h)
    have hone := FreeMap.Gives.one (by omega) hget
    obtain ⟨hgives, hlen⟩ := ih (by rw [hone.numDatablocks]; omega) hrest
    rw [hone.numInodes, hone.numDatablocks] at hgives
    exact ⟨hone.append hgives, congrArg Nat.succ hlen⟩

/-- **Every file gets blocks of its own**, as many as it has. -/
theorem assignBlocks_spec {bufs bufs' : List InodeData} {v12 v12' : FreeMap}
    (hn : (bufs.map InodeData.numDataBlocks).sum ≤ v12.numDatablocks)
    (h : assignBlocks bufs v12 = some (bufs', v12')) :
    List.Forall₂ (fun buf buf' => buf' = { buf with datablocks := buf'.datablocks } ∧
        buf'.datablocks.length = buf.numDataBlocks) bufs bufs' ∧
      FreeMap.Gives (v12.numInodes + 1) v12.numDatablocks v12 v12'
        (bufs'.flatMap InodeData.datablocks) := by
  induction bufs generalizing bufs' v12 with
  | nil =>
    obtain ⟨rfl, rfl⟩ := Prod.mk.inj (Option.some.inj h)
    exact ⟨.nil, .nil⟩
  | cons buf bufs ih =>
    rw [List.map_cons, List.sum_cons] at hn
    rw [assignBlocks] at h
    obtain ⟨⟨ids, v₁⟩, hget, h⟩ := Option.bind_eq_some_iff.mp h
    obtain ⟨⟨bufs₁, v₂⟩, hrest, h⟩ := Option.bind_eq_some_iff.mp h
    obtain ⟨rfl, rfl⟩ := Prod.mk.inj (Option.some.inj h)
    obtain ⟨hone, hlen⟩ := getBlocks_spec (by omega) hget
    obtain ⟨hsame, hgives⟩ := ih (by rw [hone.numDatablocks]; omega) hrest
    rw [hone.numInodes, hone.numDatablocks] at hgives
    exact ⟨.cons ⟨rfl, hlen⟩ hsame, hone.append hgives⟩

/-! ### The entries with their inode numbers

  The numbers are stored into the boot block after the loop over the directory, each at its place
  in an entry. -/

variable {bufs : List InodeData} {bblock : Nat → BitVec 8}

/-- The other slots stay: an inode number is stored within the slot of its file. -/
theorem storeInodes_apart {slot : Nat}
    (hslots : ∀ buf ∈ bufs, ∃ k, buf.dentry = 64 * k ∧ k ≠ slot) :
    bytesFrom (storeInodes bblock bufs) (64 * slot) 64 = bytesFrom bblock (64 * slot) 64 := by
  induction bufs generalizing bblock with
  | nil => rfl
  | cons buf bufs ih =>
    rw [List.forall_mem_cons] at hslots
    obtain ⟨⟨k, hk, hne⟩, hslots⟩ := hslots
    rw [storeInodes, List.foldl_cons]
    refine (ih hslots).trans ?_
    rw [setDword, bytesFrom_apart]
    show _ ∨ _ + 4 ≤ _
    omega

/-- **The entry of every file has the number of its inode.**  By induction on the files; the
    number is stored when the file is the first of the rest, and the others leave the slot alone. -/
theorem storeInodes_slot {buf : InodeData} (hbuf : buf ∈ bufs) {slot : Nat}
    (hslot : buf.dentry = 64 * slot) (hslots : ∀ buf ∈ bufs, ∃ k, buf.dentry = 64 * k)
    (hnodup : (bufs.map InodeData.dentry).Nodup) {name : Nat → BitVec 8}
    {filetype inode : BitVec 32}
    (h : bytesFrom bblock (64 * slot) 64 = slotBytes name filetype inode) :
    bytesFrom (storeInodes bblock bufs) (64 * slot) 64 =
      slotBytes name filetype (BitVec.ofNat 32 buf.inode) := by
  induction bufs generalizing bblock inode with
  | nil => exact absurd hbuf List.not_mem_nil
  | cons buf' bufs ih =>
    rw [List.map_cons, List.nodup_cons] at hnodup
    rw [List.forall_mem_cons] at hslots
    rw [storeInodes, List.foldl_cons]
    rcases List.mem_cons.mp hbuf with rfl | hin
    · -- this file: what follows is about other slots
      refine (storeInodes_apart fun b hb => ?_).trans ?_
      · obtain ⟨k, hk⟩ := hslots.2 b hb
        refine ⟨k, hk, ?_⟩
        rintro rfl
        exact hnodup.1 (hslot ▸ hk ▸ List.mem_map_of_mem hb)
      · rw [hslot]
        exact slot_setInode h _
    · obtain ⟨k, hk⟩ := hslots.1
      have hne : k ≠ slot := by
        rintro rfl
        exact hnodup.1 (hk ▸ hslot ▸ List.mem_map_of_mem hin)
      have hstay :
        bytesFrom (setDword bblock (buf'.dentry + 36) (BitVec.ofNat 32 buf'.inode)) (64 * slot) 64 =
          slotBytes name filetype inode := by
        rw [setDword, bytesFrom_apart, h]
        show _ ∨ _ + 4 ≤ _
        omega
      exact ih hin hslots.2 hnodup.2 hstay

/-! ## What `main` has made

  The parts put together: names and types from the loop over the directory, numbers from the
  draws, counts from both. -/

/-- The boot block and the inodes for the files `es`. -/
structure Made (malloc : Nat → Nat → Nat → BitVec 8) (es : List DirEntry) (bblock : Nat → BitVec 8)
    (bufs : List InodeData) : Prop where
  /-- Two slots of the 64 are taken: the counts, and the entry of the directory. -/
  few : es.length ≤ 62
  kept : ∀ e ∈ es, e.keeps = true
  count : getDword bblock 0 = BitVec.ofNat 32 (es.length + 1)
  /-- Twice as many inodes as files are announced. -/
  numInodes : getDword bblock 4 = BitVec.ofNat 32 (2 * es.length)
  numDatablocks : getDword bblock 8 = BitVec.ofNat 32 (2 * allBlocks es)
  root : bytesFrom bblock 64 64 = slotBytes (cstring [0x2E]) 1 0
  /-- The entry of the `k`-th file is in slot `k + 2`, and names its inode. -/
  slots : ∀ k e buf, es[k]? = some e → bufs[k]? = some buf → bytesFrom bblock (64 * (k + 2)) 64 =
    slotBytes e.d_name e.st_mode.filetype (BitVec.ofNat 32 buf.inode)
  length : bufs.length = es.length
  /-- A file has the bytes it had in the directory, and a number for each of its blocks. -/
  files : ∀ k e buf, es[k]? = some e → bufs[k]? = some buf →
    buf.size = (fileOf malloc k e).size ∧ buf.blocks = (fileOf malloc k e).blocks ∧
      buf.datablocks.length = blocksFor e.st_size
  /-- No inode belongs to two files. -/
  inodes : (bufs.map InodeData.inode).Nodup
  inode_lt : ∀ buf ∈ bufs, buf.inode < 2 * es.length
  /-- No block belongs to two files, or twice to one. -/
  ids : (bufs.flatMap InodeData.datablocks).Nodup
  id_lt : ∀ id ∈ bufs.flatMap InodeData.datablocks, id < 2 * allBlocks es

/-- Which files are kept: those of a known type that fit an inode, if all their blocks can be
    read. -/
theorem DirEntry.keeps_iff {e : DirEntry} :
    e.keeps = true ↔ e.st_mode ≠ .other ∧ e.st_size ≤ 0x3FF000 ∧ ∀ i, i < blocksFor e.st_size →
    (e.read i).isSome = true := by
  rw [DirEntry.keeps, Bool.and_eq_true, Bool.and_eq_true, bne_iff_ne, decide_eq_true_iff,
    List.all_eq_true, and_assoc]
  simp only [List.mem_range]

/-- The files that are kept have at most 1023 blocks each. -/
theorem allBlocks_le {es : List DirEntry} (h : ∀ e ∈ es, e.keeps = true) :
    allBlocks es ≤ 1023 * es.length := by
  induction es with
  | nil => exact Nat.le_refl _
  | cons e es ih =>
    rw [List.forall_mem_cons] at h
    have hrest := ih h.2
    have hsize := (DirEntry.keeps_iff.mp h.1).2.1
    have hblocks : blocksFor e.st_size ≤ 1023 := by
      unfold blocksFor
      omega
    rw [allBlocks, List.map_cons, List.sum_cons, List.length_cons]
    rw [allBlocks] at hrest
    omega

/-- Two lists in step: what holds of the `k`-th elements. -/
theorem forall₂_getElem? {α β : Type} {R : α → β → Prop} {l : List α} {l' : List β}
    (h : List.Forall₂ R l l') {k : Nat} {a : α} {b : β} (ha : l[k]? = some a)
    (hb : l'[k]? = some b) : R a b := by
  obtain ⟨hk, rfl⟩ := List.getElem?_eq_some_iff.mp ha
  obtain ⟨hk', rfl⟩ := List.getElem?_eq_some_iff.mp hb
  exact h.get hk hk'

/-- Two lists in step: what all pairs agree on. -/
theorem map_eq_of_forall₂ {α β : Type} {R : α → α → Prop} {f : α → β} {l l' : List α}
    (h : List.Forall₂ R l l') (hf : ∀ a b, R a b → f b = f a) : l'.map f = l.map f := by
  induction h with
  | nil => rfl
  | cons hab _ ih => rw [List.map_cons, List.map_cons, hf _ _ hab, ih]

namespace Scanned

variable {malloc : Nat → Nat → Nat → BitVec 8} {es : List DirEntry} {s : Scan}

/-- There is one inode for each file kept. -/
theorem length (h : Scanned malloc es s) : s.inode_list.length = es.length := by
  rw [h.inodes, List.length_mapIdx]

/-- The `k`-th inode is that of the `k`-th file. -/
theorem inode (h : Scanned malloc es s) {k : Nat} {e : DirEntry} (he : es[k]? = some e) :
    s.inode_list[k]? = some (fileOf malloc k e) := by
  rw [h.inodes, List.getElem?_mapIdx, he]
  rfl

/-- The count of the inodes has not overflowed. -/
theorem toNat_numInodes (h : Scanned malloc es s) : (getDword s.bblock 4).toNat = es.length := by
  have hfew := h.few
  rw [h.numInodes, BitVec.toNat_ofNat, Nat.mod_eq_of_lt (by omega)]

/-- Nor has the count of the blocks, for a file has 1023 at most. -/
theorem toNat_numDatablocks (h : Scanned malloc es s) :
    (getDword s.bblock 8).toNat = allBlocks es := by
  have hfew := h.few
  have hle := allBlocks_le h.small
  rw [h.numDatablocks, BitVec.toNat_ofNat, Nat.mod_eq_of_lt (by omega)]

/-- The blocks to draw, once the files have their inodes. -/
theorem sum_assigned (h : Scanned malloc es s) {bufs : List InodeData}
    (hsame : List.Forall₂ (fun buf buf' => buf' = { buf with inode := buf'.inode })
      s.inode_list bufs) :
    (bufs.map InodeData.numDataBlocks).sum = allBlocks es := by
  rw [map_eq_of_forall₂ hsame fun _ _ hab => by rw [hab], allBlocks]
  apply congrArg List.sum
  apply List.ext_getElem?
  intro k
  rw [h.inodes, List.getElem?_map, List.getElem?_map, List.getElem?_mapIdx]
  cases es[k]? <;> rfl

end Scanned

/-- The entries with the inode numbers: slot 0 and the entry of the directory are as before. -/
theorem storeInodes_files {malloc : Nat → Nat → Nat → BitVec 8} {es : List DirEntry}
    {bufs : List InodeData} {bblock : Nat → BitVec 8} (hlen : bufs.length = es.length)
    (hfiles : ∀ k e buf, es[k]? = some e → bufs[k]? = some buf →
      buf = { fileOf malloc k e with inode := buf.inode })
    (hslots : ∀ k e, es[k]? = some e → bytesFrom bblock (64 * (k + 2)) 64 =
      slotBytes e.d_name e.st_mode.filetype (-1)) :
    (∀ slot, slot < 2 →
      bytesFrom (storeInodes bblock bufs) (64 * slot) 64 = bytesFrom bblock (64 * slot) 64) ∧
      ∀ k e buf, es[k]? = some e → bufs[k]? = some buf →
        bytesFrom (storeInodes bblock bufs) (64 * (k + 2)) 64 =
        slotBytes e.d_name e.st_mode.filetype (BitVec.ofNat 32 buf.inode) := by
  have hdentry : ∀ k buf, bufs[k]? = some buf → buf.dentry = 64 * (k + 2) := by
    intro k buf hbuf
    obtain ⟨hk, -⟩ := List.getElem?_eq_some_iff.mp hbuf
    exact congrArg InodeData.dentry (hfiles k _ buf (List.getElem?_eq_getElem (hlen ▸ hk)) hbuf)
  have hmem : ∀ buf ∈ bufs, ∃ k, buf.dentry = 64 * (k + 2) := by
    intro buf hbuf
    obtain ⟨k, hk⟩ := List.mem_iff_getElem?.mp hbuf
    exact ⟨k, hdentry k buf hk⟩
  constructor
  · intro slot hslot
    apply storeInodes_apart
    intro buf hbuf
    obtain ⟨k, hk⟩ := hmem buf hbuf
    exact ⟨k + 2, hk, by omega⟩
  · intro k e buf he hbuf
    refine storeInodes_slot (List.mem_of_getElem? hbuf) (hdentry k buf hbuf) ?_ ?_ (hslots k e he)
    · intro b hb
      obtain ⟨k, hk⟩ := hmem b hb
      exact ⟨k + 2, hk⟩
    · -- each entry is stored to once, since the files have different entries
      have hdentries : bufs.map InodeData.dentry = (List.range bufs.length).map fun k =>
          64 * (k + 2) := by
        apply List.ext_getElem (by rw [List.length_map, List.length_map, List.length_range])
        intro j hj hj'
        rw [List.getElem_map, List.getElem_map, List.getElem_range]
        rw [List.length_map] at hj
        exact hdentry j _ (List.getElem?_eq_getElem hj)
      rw [hdentries]
      exact List.nodup_range.map fun a b hab => by
        have hab' : 64 * (a + 2) = 64 * (b + 2) := hab
        omega

/-- A file after both loops: it has kept its bytes, and its inode number is that of the first
    loop. -/
theorem Scanned.numbered {malloc : Nat → Nat → Nat → BitVec 8} {es : List DirEntry} {s : Scan}
    (hs : Scanned malloc es s) {bufs₁ bufs : List InodeData}
    (hsame₁ : List.Forall₂ (fun buf buf' => buf' = { buf with inode := buf'.inode })
      s.inode_list bufs₁)
    (hsame₂ : List.Forall₂ (fun buf buf' => buf' = { buf with datablocks := buf'.datablocks } ∧
      buf'.datablocks.length = buf.numDataBlocks) bufs₁ bufs)
    {k : Nat} {e : DirEntry} {buf : InodeData} (he : es[k]? = some e) (hbuf : bufs[k]? = some buf) :
    (buf.size = (fileOf malloc k e).size ∧ buf.blocks = (fileOf malloc k e).blocks ∧
      buf.datablocks.length = blocksFor e.st_size) ∧
    ∃ buf₁, bufs₁[k]? = some buf₁ ∧ buf.inode = buf₁.inode := by
  obtain ⟨hk, -⟩ := List.getElem?_eq_some_iff.mp hbuf
  have hbuf₁ := List.getElem?_eq_getElem (hsame₂.length_eq ▸ hk : k < bufs₁.length)
  have h₁ := forall₂_getElem? hsame₁ (hs.inode he) hbuf₁
  obtain ⟨h₂, hids⟩ := forall₂_getElem? hsame₂ hbuf₁ hbuf
  refine ⟨?_, _, hbuf₁, by rw [h₂]⟩
  rw [h₁] at h₂ hids
  exact ⟨by rw [h₂], by rw [h₂], hids⟩

/-- The counts lie in front of the entries. -/
theorem setCounts_slot (bblock : Nat → BitVec 8) (a b : BitVec 32) {slot : Nat} (hslot : 0 < slot) :
    bytesFrom (setDword (setDword bblock 4 a) 8 b) (64 * slot) 64 =
      bytesFrom bblock (64 * slot) 64 := by
  rw [setDword, bytesFrom_apart (by show _ ∨ _ + 4 ≤ _; omega), setDword,
    bytesFrom_apart (by show _ ∨ _ + 4 ≤ _; omega)]

/-- **What `main` makes**: for the files it keeps, a boot block and inodes that agree, and the
    file with all of them at their places.  The first loop gives the inode numbers and stores
    them in the entries, the second the block numbers; the second leaves the inode numbers as
    they are. -/
theorem main_spec {dir : List DirEntry} {malloc : Nat → Nat → Nat → BitVec 8} {rands : List Nat}
    {out : BlockFile.File (BitVec 8)} (h : main dir malloc rands = some out) :
    ∃ bblock bufs, Made malloc (kept dir) bblock bufs ∧
      out = BlockFile.writeAll 4096 ⟨0, fun _ => 0⟩
        (writes bblock bufs (2 * (kept dir).length)) := by
  have hs := scan_scanned malloc dir
  rw [main] at h
  generalize scan malloc dir Scan.start = s at *
  generalize kept dir = es at *
  dsimp only at h
  rw [hs.toNat_numInodes, hs.toNat_numDatablocks] at h
  obtain ⟨⟨bufs₁, bblock, v₁⟩, hinodes, h⟩ := Option.bind_eq_some_iff.mp h
  obtain ⟨⟨bufs, v₂⟩, hblocks, h⟩ := Option.bind_eq_some_iff.mp h
  -- the inodes: twice as many numbers as files
  obtain ⟨hsame₁, hgives₁, hbblock⟩ := assignInodes_spec (by
    rw [hs.length]
    show es.length ≤ 2 * es.length
    omega) hinodes
  have hlen₁ : bufs₁.length = es.length := by rw [← hsame₁.length_eq, hs.length]
  have hfile₁ : ∀ k e buf, es[k]? = some e → bufs₁[k]? = some buf →
      buf = { fileOf malloc k e with inode := buf.inode } := fun k e buf he hbuf =>
    forall₂_getElem? hsame₁ (hs.inode he) hbuf
  -- the blocks: twice as many numbers as blocks
  obtain ⟨hsame₂, hgives₂⟩ := assignBlocks_spec (by
    rw [hs.sum_assigned hsame₁, hgives₁.numDatablocks]
    show allBlocks es ≤ 2 * allBlocks es
    omega) hblocks
  have hinode : bufs.map InodeData.inode = bufs₁.map InodeData.inode :=
    map_eq_of_forall₂ hsame₂ fun _ _ hab => by rw [hab.1]
  rw [hgives₁.numDatablocks, hgives₁.numInodes] at hgives₂
  -- in the boot block only the inode numbers of the entries have changed since the scan, and the
  -- counts
  obtain ⟨hother, hentry⟩ := storeInodes_files hlen₁ hfile₁ fun k e he =>
    (setCounts_slot s.bblock _ _ (by omega)).trans (hs.slots k e he)
  have hheader := hother 0 (by decide)
  rw [← hbblock] at hother hentry hheader
  refine ⟨bblock, bufs, ?_, ?_⟩
  · constructor
    case few => exact hs.few
    case kept => exact hs.small
    case count =>
      rw [getDword_congr hheader (by omega) (by omega), getDword_setDword_apart (by omega),
        getDword_setDword_apart (by omega), hs.count]
    case numInodes =>
      rw [getDword_congr hheader (by omega) (by omega), getDword_setDword_apart (by omega),
        getDword_setDword]
      rfl
    case numDatablocks =>
      rw [getDword_congr hheader (by omega) (by omega), getDword_setDword]
      rfl
    case root =>
      exact (hother 1 (by decide)).trans ((setCounts_slot s.bblock _ _ Nat.one_pos).trans hs.root)
    case slots =>
      intro k e buf he hbuf
      obtain ⟨-, buf₁, hbuf₁, hnumber⟩ := hs.numbered hsame₁ hsame₂ he hbuf
      rw [hentry k e buf₁ he hbuf₁, hnumber]
    case length => rw [← hsame₂.length_eq, hlen₁]
    case files => exact fun k e buf he hbuf => (hs.numbered hsame₁ hsame₂ he hbuf).1
    case inodes => rw [hinode]; exact hgives₁.drawn.nodup
    case inode_lt =>
      intro buf hbuf
      exact hgives₁.drawn.lt _ (hinode ▸ List.mem_map_of_mem hbuf)
    case ids => exact hgives₂.drawn.nodup
    case id_lt => exact hgives₂.drawn.lt
  · have hout := Option.some.inj h
    rw [hgives₂.numInodes, hgives₁.numInodes] at hout
    exact hout.symm

/-! ## It ends

  The random numbers go on for ever, with every number coming up again, and the map has room for
  all that are drawn.  So each loop starts somewhere in the source of them and ends further on. -/

section Ends

open Draws

variable {source : Nat → Nat} {bound : Nat} (hsource : Recurs bound source)

/-- The map, with the random numbers from the `p`-th to the `m`-th to come. -/
def FreeMap.drawing (v12 : FreeMap) (source : Nat → Nat) (p m : Nat) : FreeMap :=
  { v12 with rands := window source p m }

/-- `k` numbers more can be given out. -/
structure FreeMap.Room (bound base n k : Nat) (v12 : FreeMap) : Prop where
  bound : n ≤ bound
  room : ∃ used vs, Drawn base n used v12.used vs ∧ (∀ w, w < n → used (base + w) = false) ∧
    vs.length + k ≤ n

include hsource

/-- **A loop over `rand` ends**, and leaves room for one number less. -/
theorem FreeMap.get_ends {v12 : FreeMap} {base k : Nat} (h : v12.Room bound base n (k + 1))
    (p : Nat) :
    ∃ (v : Nat) (v₁ : FreeMap) (q : Nat), p ≤ q ∧ v₁.Room bound base n k ∧
      v₁.numInodes = v12.numInodes ∧ v₁.numDatablocks = v12.numDatablocks ∧
      ∀ m, q ≤ m → (v12.drawing source p m).get base n = some (v, v₁.drawing source q m) := by
  obtain ⟨used, vs, hdrawn, hfree, hroom⟩ := h.room
  obtain ⟨v, q, hpq, hdraw⟩ := draw_ends hsource h.bound (hdrawn.room hfree (by omega)) p
  refine ⟨v, { v12 with used := Function.update v12.used (base + v) true }, q, hpq,
    ⟨h.bound, used, vs ++ [v], hdrawn.append (Drawn.one (by omega) (hdraw q (Nat.le_refl q))),
      hfree, ?_⟩, rfl, rfl, fun m hm => ?_⟩
  · rw [List.length_append, List.length_singleton]
    omega
  · rw [FreeMap.get]
    show ((draw base n v12.used (window source p m)).map _) = _
    rw [hdraw m hm]
    rfl

/-- The first loop ends; by induction on the files. -/
theorem assignInodes_ends {bufs : List InodeData} (bblock : Nat → BitVec 8) {v12 : FreeMap}
    (h : v12.Room bound 1 v12.numInodes bufs.length) (p : Nat) :
    ∃ (bufs' : List InodeData) (bblock' : Nat → BitVec 8) (v₁ : FreeMap) (q : Nat), p ≤ q ∧
      ∀ m, q ≤ m → assignInodes bufs bblock (v12.drawing source p m) =
        some (bufs', bblock', v₁.drawing source q m) := by
  induction bufs generalizing bblock v12 p with
  | nil => exact ⟨[], bblock, v12, p, Nat.le_refl p, fun m _ => rfl⟩
  | cons buf bufs ih =>
    obtain ⟨inode, v₁, q₁, hq₁, hroom, hI, -, hget⟩ := FreeMap.get_ends hsource h p
    rw [← hI] at hroom
    obtain ⟨bufs', bblock', v₂, q, hq, hrest⟩ :=
      ih (setDword bblock (buf.dentry + 36) (BitVec.ofNat 32 inode)) hroom q₁
    refine ⟨{ buf with inode } :: bufs', bblock', v₂, q, Nat.le_trans hq₁ hq, fun m hm => ?_⟩
    have hfirst : get_inode_block (v12.drawing source p m) = some (inode, v₁.drawing source q₁ m) :=
      hget m (Nat.le_trans hq hm)
    rw [assignInodes, hfirst]
    show ((assignInodes bufs _ (v₁.drawing source q₁ m)).bind _) = _
    rw [hrest m hm]
    rfl

/-- The loop over the blocks of a file ends, and leaves room for the others. -/
theorem getBlocks_ends {v12 : FreeMap} {k : Nat}
    (h : v12.Room bound (v12.numInodes + 1) v12.numDatablocks (n + k)) (p : Nat) :
    ∃ (ids : List Nat) (v₁ : FreeMap) (q : Nat), p ≤ q ∧
      v₁.Room bound (v12.numInodes + 1) v12.numDatablocks k ∧ v₁.numInodes = v12.numInodes ∧
      v₁.numDatablocks = v12.numDatablocks ∧
      ∀ m, q ≤ m → getBlocks n (v12.drawing source p m) = some (ids, v₁.drawing source q m) := by
  induction n generalizing v12 p with
  | zero =>
    rw [Nat.zero_add] at h
    exact ⟨[], v12, p, Nat.le_refl p, h, rfl, rfl, fun m _ => rfl⟩
  | succ n ih =>
    rw [Nat.add_right_comm] at h
    obtain ⟨id, v₁, q₁, hq₁, hroom, hI, hD, hget⟩ := FreeMap.get_ends hsource h p
    rw [← hI, ← hD] at hroom
    obtain ⟨ids, v₂, q, hq, hroom', hI', hD', hrest⟩ := ih hroom q₁
    rw [hI, hD] at hroom'
    refine ⟨id :: ids, v₂, q, Nat.le_trans hq₁ hq, hroom', hI'.trans hI, hD'.trans hD,
      fun m hm => ?_⟩
    have hfirst : get_data_block (v12.drawing source p m) = some (id, v₁.drawing source q₁ m) :=
      hget m (Nat.le_trans hq hm)
    rw [getBlocks, hfirst]
    show ((getBlocks n (v₁.drawing source q₁ m)).bind _) = _
    rw [hrest m hm]
    rfl

/-- The second loop ends; by induction on the files. -/
theorem assignBlocks_ends {bufs : List InodeData} {v12 : FreeMap}
    (h : v12.Room bound (v12.numInodes + 1) v12.numDatablocks
      (bufs.map InodeData.numDataBlocks).sum) (p : Nat) :
    ∃ (bufs' : List InodeData) (v₁ : FreeMap) (q : Nat), p ≤ q ∧
      ∀ m, q ≤ m →
      assignBlocks bufs (v12.drawing source p m) = some (bufs', v₁.drawing source q m) := by
  induction bufs generalizing v12 p with
  | nil => exact ⟨[], v12, p, Nat.le_refl p, fun m _ => rfl⟩
  | cons buf bufs ih =>
    rw [List.map_cons, List.sum_cons] at h
    obtain ⟨datablocks, v₁, q₁, hq₁, hroom, hI, hD, hget⟩ := getBlocks_ends hsource h p
    rw [← hI, ← hD] at hroom
    obtain ⟨bufs', v₂, q, hq, hrest⟩ := ih hroom q₁
    refine ⟨{ buf with datablocks } :: bufs', v₂, q, Nat.le_trans hq₁ hq, fun m hm => ?_⟩
    rw [assignBlocks, hget m (Nat.le_trans hq hm)]
    show ((assignBlocks bufs (v₁.drawing source q₁ m)).bind _) = _
    rw [hrest m hm]
    rfl

/-- **`main` ends**, for every directory, if every number that `rand` may return keeps coming up. -/
theorem main_ends (dir : List DirEntry) (malloc : Nat → Nat → Nat → BitVec 8)
    (hbound : 126852 ≤ bound) :
    ∃ out q, ∀ m, q ≤ m → main dir malloc (window source 0 m) = some out := by
  have hs := scan_scanned malloc dir
  have hfew := hs.few
  have hall := allBlocks_le hs.small
  simp only [main]
  rw [hs.toNat_numInodes, hs.toNat_numDatablocks]
  generalize scan malloc dir Scan.start = s at *
  generalize kept dir = es at *
  -- the inodes
  have hroom : (init_freemap es.length (allBlocks es) []).Room bound 1
      (init_freemap es.length (allBlocks es) []).numInodes s.inode_list.length := by
    refine ⟨?_, _, [], .nil, fun w _ => init_freemap_used (by omega), ?_⟩
    · show 2 * es.length ≤ bound
      omega
    · rw [hs.length, List.length_nil]
      show 0 + es.length ≤ 2 * es.length
      omega
  obtain ⟨bufs₁, bblock, v₁, q₁, -, hinodes⟩ := assignInodes_ends hsource (setDword
    (setDword s.bblock 4 (BitVec.ofNat 32 (2 * es.length))) 8 (BitVec.ofNat 32 (2 * allBlocks es)))
    hroom 0
  obtain ⟨hsame, hgives, -⟩ := assignInodes_spec (by
    rw [hs.length]
    show es.length ≤ 2 * es.length
    omega) (hinodes q₁ (Nat.le_refl q₁))
  have hI : v₁.numInodes = 2 * es.length := hgives.numInodes
  have hD : v₁.numDatablocks = 2 * allBlocks es := hgives.numDatablocks
  -- the blocks, whose part of the map is still free
  have hroom' : v₁.Room bound (v₁.numInodes + 1) v₁.numDatablocks
      (bufs₁.map InodeData.numDataBlocks).sum := by
    rw [hs.sum_assigned hsame, hI, hD]
    refine ⟨by omega, _, [], .nil, fun w _ => ?_, by rw [List.length_nil]; omega⟩
    refine (hgives.drawn.others _ fun hin => ?_).trans (init_freemap_used (by omega))
    obtain ⟨inode, hinode, heq⟩ := List.mem_map.mp hin
    have hlt : inode < 2 * es.length := hgives.drawn.lt inode hinode
    omega
  obtain ⟨bufs, v₂, q, hq, hblocks⟩ := assignBlocks_ends hsource hroom' q₁
  refine ⟨BlockFile.writeAll 4096 ⟨0, fun _ => 0⟩ (writes bblock bufs v₂.numInodes), q,
    fun m hm => ?_⟩
  show ((assignInodes s.inode_list
    (setDword (setDword s.bblock 4 (BitVec.ofNat 32 (2 * es.length))) 8
    (BitVec.ofNat 32 (2 * allBlocks es)))
    ((init_freemap es.length (allBlocks es) []).drawing source 0 m)).bind _) = _
  rw [hinodes m (Nat.le_trans hq hm)]
  show ((assignBlocks bufs₁ (v₁.drawing source q₁ m)).bind _) = _
  rw [hblocks m hm]
  rfl

end Ends

/-- A directory with a file of one byte, "a", which is 7. -/
def oneByte : List DirEntry := [⟨cstring [0x61], .regular, 1, fun _ => some [7]⟩]

/-- A source of random numbers: every number below 2^31 keeps coming up. -/
theorem recurs_unpair : Draws.Recurs 0x80000000 fun n => (Nat.unpair n).1 % 0x80000000 := by
  intro w hw p
  refine ⟨Nat.pair w p, Nat.right_le_pair w p, ?_⟩
  dsimp only
  rw [Nat.unpair_pair, Nat.mod_eq_of_lt hw]

theorem main_ends_oneByte : ∃ out q, ∀ m, q ≤ m →
    main oneByte (fun _ _ _ => 0) (Draws.window (fun n => (Nat.unpair n).1 % 0x80000000) 0 m) =
      some out :=
  main_ends recurs_unpair oneByte (fun _ _ _ => 0) (by decide)

end TedkOS.Fs.CreateFs
