/-
  Which memory the kernel stores to on behalf of a user process.

  The rule a system call should obey: every byte it stores through a pointer the user passed is one
  the user could have stored to (`OnlyUserMemory`).

  `validUserPointer` looks at ONE address, and a call stores to a range: `read` to as many bytes as
  the file gives, `getargs` to the arguments and their NUL, `vidmap` to a word.  `fstat` does not
  call it at all.  So a call obeys the rule exactly when the pages that begin inside its range are
  the user's too, and for `fstat` the first bytes of the fields as well (`InBounds`,
  `userStores_iff`).
-/
import TedkOS.Syscalls.Fops

namespace TedkOS.Syscalls

open Fs Klibs Proc

/-- Every byte stored through the caller's pointer is accessible to the user. -/
def OnlyUserMemory (s : CallState) (proc : ProcessDesc) (call : UserCall) : Prop :=
  ∀ st ∈ (call.issue s proc).stores, s.mem.userAccessible st.1 = true

/-- The first byte of a range, and the start of every page that begins inside it, are the user's. -/
def RangeAccessible (m : AddressSpace) (ptr : BitVec 32) (n : Nat) : Prop :=
  m.userAccessible ptr = true ∧ PageStartsAccessible m ptr n

/-- What a call needs of the address space, beyond the check it makes itself. -/
def InBounds (s : CallState) (proc : ProcessDesc) : UserCall → Prop
  | .read fd buf nbytes =>
    validUserPointer false s.mem buf = true →
      ∀ p file, CallState.openFile proc fd = some (p, file) → PageStartsAccessible s.mem buf
        (file.readLength s.kissFS s.env (p.currTerm.map s.terms) p.pid nbytes)
  | .fstat fd st =>
    ∀ p file, CallState.openFile proc fd = some (p, file) →
      RangeAccessible s.mem (st + BitVec.ofNat 32 st_mode) 4 ∧
        (file.regular = true → RangeAccessible s.mem (st + BitVec.ofNat 32 st_size) 4)
  | .getargs buf nbytes =>
    validUserPointer false s.mem buf = true → ∀ arg, proc.arg = some arg →
      nbytes.slt (BitVec.ofNat 32 arg.length + 1) = false →
      PageStartsAccessible s.mem buf ((BitVec.ofNat 32 arg.length).toNat + 1)
  | .vidmap ans =>
    validUserPointer false s.mem ans = true → ∀ t, proc.currTerm = some t →
      (s.terms t).vidmapOwner = none → PageStartsAccessible s.mem ans 4

/-! ## Stores and ranges -/

section Ranges

variable (m : AddressSpace)

/-- Stores that fill `n` bytes from a checked pointer on. -/
theorem through_covers {ptr : BitVec 32} (hptr : validUserPointer false m ptr = true)
    {stores : List (Nat × BitVec 8)} {n : Nat} (hcov : Covers stores n) :
    (∀ st ∈ through ptr stores, m.userAccessible st.1 = true) ↔ PageStartsAccessible m ptr n := by
  rw [← range_iff m ((validUserPointer_iff m ptr).mp hptr).2 n,
    ← hcov.forall_iff fun i => m.userAccessible (ptr + BitVec.ofNat 32 i) = true]
  unfold through
  rw [List.forall_mem_map]

/-- The bytes of one field of a record at `ptr`. -/
theorem field_iff (ptr : BitVec 32) (off n : Nat) (hn : 0 < n) :
    (∀ i, off ≤ i → i < off + n → m.userAccessible (ptr + BitVec.ofNat 32 i) = true) ↔
      RangeAccessible m (ptr + BitVec.ofNat 32 off) n := by
  have hadd : ∀ j,
      ptr + BitVec.ofNat 32 (off + j) = ptr + BitVec.ofNat 32 off + BitVec.ofNat 32 j := by
    intro j
    rw [BitVec.ofNat_add, BitVec.add_assoc]
  constructor
  · intro h
    have h0 := h off (Nat.le_refl off) (by omega)
    refine ⟨h0, (range_iff m h0 n).mp fun j hj => ?_⟩
    rw [← hadd]
    exact h (off + j) (by omega) (by omega)
  · rintro ⟨h0, hpages⟩ i hlo hhi
    have hi := (range_iff m h0 n).mpr hpages (i - off) (by omega)
    rwa [← hadd, Nat.add_sub_cancel' hlo] at hi

end Ranges

/-! ## The calls

  For each of them, which range it stores to is known before the call; the check it makes is for
  the first byte of the range, if it makes one. -/

section Calls

variable (s : CallState) (proc : ProcessDesc)

/-- The thread of a user process is no kernel thread, so its pointers are looked at. -/
theorem isKernel_user (huser : proc.mainThreadInfo.type = .USER_PROCESS) :
    proc.mainThreadInfo.isKernel = false := by
  unfold ThreadInfo.isKernel
  rw [huser]
  rfl

/-- `read` stores as many bytes as it returns, from the address that was looked at. -/
theorem read_iff (huser : proc.mainThreadInfo.type = .USER_PROCESS) (fd buf nbytes : BitVec 32) :
    OnlyUserMemory s proc (.read fd buf nbytes) ↔ InBounds s proc (.read fd buf nbytes) := by
  show (∀ st ∈ (s.read proc fd buf nbytes).stores, s.mem.userAccessible st.1 = true) ↔ _
  unfold InBounds CallState.read
  rw [isKernel_user proc huser]
  cases hptr : validUserPointer false s.mem buf with
  | false => simp [CallState.fail, hptr]
  | true =>
    have hbuf : buf ≠ 0 := ((validUserPointer_iff s.mem buf).mp hptr).1
    cases hopen : CallState.openFile proc fd with
    | none => simp [CallState.fail, hopen]
    | some opened =>
      obtain ⟨p, file⟩ := opened
      have hcov := file.read_covers s.kissFS s.env (p.currTerm.map s.terms) p.pid hbuf nbytes
      constructor
      · rintro h - p' file' heq
        obtain ⟨rfl, rfl⟩ := Prod.mk.inj (Option.some.inj (hopen.symm.trans heq))
        exact (through_covers s.mem hptr hcov).mp h
      · intro h
        exact (through_covers s.mem hptr hcov).mpr (h hptr p file hopen)

/-- `fstat` stores its fields, wherever they are. -/
theorem fstat_iff (fd st : BitVec 32) :
    OnlyUserMemory s proc (.fstat fd st) ↔ InBounds s proc (.fstat fd st) := by
  show (∀ a ∈ (s.fstat proc fd st).stores, s.mem.userAccessible a.1 = true) ↔ _
  unfold InBounds CallState.fstat
  cases hopen : CallState.openFile proc fd with
  | none => simp [CallState.fail, hopen]
  | some opened =>
    obtain ⟨p, file⟩ := opened
    have hcov := file.fstat_covers s.kissFS
    have hstores : (∀ a ∈ through st (file.fstat s.kissFS), s.mem.userAccessible a.1 = true) ↔
        ∀ i, (∃ b, (i, b) ∈ file.fstat s.kissFS) →
          s.mem.userAccessible (st + BitVec.ofNat 32 i) = true := by
      unfold through
      rw [List.forall_mem_map]
      exact ⟨fun h i ⟨b, hb⟩ => h (i, b) hb, fun h a ha => h a.1 ⟨a.2, ha⟩⟩
    constructor
    · intro h p' file' heq
      obtain ⟨rfl, rfl⟩ := Prod.mk.inj (Option.some.inj (hopen.symm.trans heq))
      have hbytes := hstores.mp h
      refine ⟨(field_iff s.mem st st_mode 4 (by decide)).mp fun i hlo hhi => ?_, fun hreg =>
        (field_iff s.mem st st_size 4 (by decide)).mp fun i hlo hhi => ?_⟩
      · exact hbytes i ((hcov i).mpr (Or.inl ⟨hlo, hhi⟩))
      · exact hbytes i ((hcov i).mpr (Or.inr ⟨hreg, hlo, hhi⟩))
    · intro h
      obtain ⟨hmode, hsize⟩ := h p file hopen
      refine hstores.mpr fun i hi => ?_
      rcases (hcov i).mp hi with ⟨hlo, hhi⟩ | ⟨hreg, hlo, hhi⟩
      · exact (field_iff s.mem st st_mode 4 (by decide)).mpr hmode i hlo hhi
      · exact (field_iff s.mem st st_size 4 (by decide)).mpr (hsize hreg) i hlo hhi

/-- `getargs` stores the arguments and their NUL, if they fit. -/
theorem getargs_iff (huser : proc.mainThreadInfo.type = .USER_PROCESS) (buf nbytes : BitVec 32) :
    OnlyUserMemory s proc (.getargs buf nbytes) ↔ InBounds s proc (.getargs buf nbytes) := by
  show (∀ st ∈ (s.getargs proc buf nbytes).stores, s.mem.userAccessible st.1 = true) ↔ _
  unfold InBounds CallState.getargs
  rw [isKernel_user proc huser]
  cases hptr : validUserPointer false s.mem buf with
  | false => simp [CallState.fail, hptr]
  | true =>
    cases harg : proc.arg with
    | none =>
      -- one byte, the one that was checked
      have hone : PageStartsAccessible s.mem buf 1 := fun i _ _ _ => by omega
      have hcov : Covers (memcpy 0 [0]) 1 := Covers.memcpy [0]
      simpa using (through_covers s.mem hptr hcov).mpr hone
    | some arg =>
      have hlen : (BitVec.ofNat 32 arg.length).toNat ≤ arg.length := by
        rw [BitVec.toNat_ofNat]
        exact Nat.mod_le _ _
      have hcov := Covers.memcpy (arg.take (BitVec.ofNat 32 arg.length).toNat ++ [0])
      rw [List.length_append, List.length_take, Nat.min_eq_left hlen] at hcov
      rw [if_neg (by decide)]
      simp only
      cases hfit : nbytes.slt (BitVec.ofNat 32 arg.length + 1) with
      | true =>
        rw [if_pos rfl]
        constructor
        · rintro - - arg' heq hlt
          cases Option.some.inj heq
          rw [hfit] at hlt
          exact absurd hlt (by decide)
        · intro _ st hst
          exact absurd hst List.not_mem_nil
      | false =>
        rw [if_neg (by decide)]
        constructor
        · rintro h - arg' heq -
          cases Option.some.inj heq
          exact (through_covers s.mem hptr hcov).mp h
        · intro h
          exact (through_covers s.mem hptr hcov).mpr (h hptr arg rfl hfit)

/-- `vidmap` stores a word. -/
theorem vidmap_iff (huser : proc.mainThreadInfo.type = .USER_PROCESS) (ans : BitVec 32) :
    OnlyUserMemory s proc (.vidmap ans) ↔ InBounds s proc (.vidmap ans) := by
  show (∀ st ∈ (s.vidmap proc ans).stores, s.mem.userAccessible st.1 = true) ↔ _
  unfold InBounds CallState.vidmap
  rw [isKernel_user proc huser]
  have hcov : Covers (memcpy 0 (wordBytes PRE_INIT_VIDEO)) 4 :=
    Covers.memcpy (wordBytes PRE_INIT_VIDEO)
  cases hptr : validUserPointer false s.mem ans with
  | false => simp [CallState.fail, hptr]
  | true =>
    cases hterm : proc.currTerm with
    | none => simp
    | some t =>
      cases hown : (s.terms t).vidmapOwner with
      | some owner => simp [CallState.fail, hown]
      | none =>
        rw [if_neg (by decide)]
        simp only [hown, Option.isSome_none, Bool.false_eq_true, if_false]
        constructor
        · rintro h - t' heq -
          exact (through_covers s.mem hptr hcov).mp h
        · intro h
          exact (through_covers s.mem hptr hcov).mpr (h hptr t rfl hown)

/-- **When a user process makes the kernel store only to user memory**: exactly when the pages that
    begin inside the range of the call are the user's, and for `fstat` the fields' first bytes
    too. -/
theorem userStores_iff (huser : proc.mainThreadInfo.type = .USER_PROCESS) (call : UserCall) :
    OnlyUserMemory s proc call ↔ InBounds s proc call := by
  cases call with
  | read fd buf nbytes => exact read_iff s proc huser fd buf nbytes
  | fstat fd st => exact fstat_iff s proc fd st
  | getargs buf nbytes => exact getargs_iff s proc huser buf nbytes
  | vidmap ans => exact vidmap_iff s proc huser ans

end Calls

/-! ## Two calls -/

/-- A directory with a user page at 128 MB and a kernel page at 4 MB. -/
def userPageAt128MB : AddressSpace where
  global_cr3val i := if i = 32 then 0x02000087 else if i = 1 then 0x00400183 else 0
  pageTable _ _ := 0

/-- No file, no key and no disk. -/
def idle : Env := ⟨fun _ => 0, none, false, false, fun _ => true, none⟩

/-- A machine with an empty file system and free terminals, under `mem`. -/
def quiet (mem : AddressSpace) : CallState where
  mem := mem
  kissFS := ⟨fun _ => ⟨fun _ => 0, 0, 0⟩, fun _ => ⟨0, fun _ => 0, 0⟩, 0, 0, fun _ => 0, 0⟩
  terms _ := ⟨-1, [], false, 0, 0, none⟩
  env := idle

/-- A program just started on the first terminal, with the argument `a`. -/
def program : ProcessDesc :=
  { ProcessDesc.new 9 .USER_PROCESS with arg := some [97], currTerm := some 0 }

/-- `getargs` into its own page. -/
theorem userStores_iff_getargs :
    OnlyUserMemory (quiet userPageAt128MB) program (.getargs 0x08000000 2) := by
  refine (userStores_iff _ program rfl _).mpr ?_
  rintro - arg harg -
  cases Option.some.inj harg
  intro i h0 hi hpage
  change i < 2 at hi
  have h1 : i = 1 := by omega
  subst h1
  exact absurd hpage (by decide)

/-- **`fstat` writes where it is told**: here into the kernel's own page. -/
theorem fstat_writes_kernel :
    ¬ ∀ (s : CallState) (proc : ProcessDesc), proc.mainThreadInfo.type = .USER_PROCESS →
      ∀ call, OnlyUserMemory s proc call := by
  intro h
  have hst := h (quiet userPageAt128MB) program rfl (.fstat 1 0x00400000) (0x00400004, 0)
    (by decide +kernel)
  exact absurd hst (by decide)

end TedkOS.Syscalls
