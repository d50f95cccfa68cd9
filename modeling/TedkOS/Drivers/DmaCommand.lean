/-
  The command of a disk transfer (the port writes of drivers/ata/dma.cpp).

  A file of a disk has a position in bytes, and a request has a length in bytes.  The drive is told
  a sector and a number of sectors, through registers of eight bits each; the bus master is told an
  address and a number of bytes, through a descriptor.

  1. **Program** — `program`: the port writes of a request, from `stopDMA` to `startDMA`.

  2. **Drive** — `Registers`: what the drives of a bus make of port writes, `transfers` the
     transfers they are told to make.

  3. **Specification** — `Transfers`: position, length, sector, number of sectors and descriptor
     agree.

  4. **Correctness** — the number of sectors is always ONE, and a position is rounded down to a
     sector; so `request_transfers_iff` has exactly the requests of one sector, at the start of one.
-/
import Mathlib.Algebra.Group.Nat.Defs
import Mathlib.Order.Interval.Set.Basic
import TedkOS.Drivers.Dma

namespace TedkOS.Drivers.Ata

open Runs Proc Fs

/-! ## The port writes

  The functions of the source, each with the list of the writes it makes. -/

def ATA_REG_FEATURES : BitVec 32 := 0x01
def ATA_REG_SECCOUNT0 : BitVec 32 := 0x02
def ATA_REG_LBA0 : BitVec 32 := 0x03
def ATA_REG_LBA1 : BitVec 32 := 0x04
def ATA_REG_LBA2 : BitVec 32 := 0x05
def ATA_REG_HDDEVSEL : BitVec 32 := 0x06
def ATA_REG_COMMAND : BitVec 32 := 0x07
def ATA_REG_CONTROL : BitVec 32 := 0x0C

def ATA_CMD_READ_DMA : BitVec 8 := 0xC8
def ATA_CMD_WRITE_DMA : BitVec 8 := 0xCA

def DMA_ON : BitVec 8 := 1
def DMA_READ : BitVec 8 := 8
def DMA_WRITE : BitVec 8 := 0

/-- The `slave` of `ata_primary_master` and the others. -/
def ata_device.slave : ata_device → BitVec 32
  | primary_master => 0
  | primary_slave => 1
  | secondary_master => 0
  | secondary_slave => 1

/-- `base` as the two functions find it, beside `busId`. -/
def ata_device.base (dev : ata_device) : BitVec 32 := if dev.io_base = bus0_io_base then 0 else 0x08

/-- A byte written to a port. -/
structure Outb where
  port : BitVec 16
  data : BitVec 8

/-- `osdev_outb(port, data)`; a port has sixteen bits. -/
def osdev_outb (port : BitVec 32) (data : BitVec 8) : Outb := ⟨port.setWidth 16, data⟩

/-- The bus master: where it is, and what its two registers say when they are read. -/
structure BusMaster where
  bmr : BitVec 32
  cmd : BitVec 8
  status : BitVec 8

namespace BusMaster

variable (io : BusMaster)

def stopDMA (base : BitVec 32) : List Outb := [osdev_outb (io.bmr + base) 0]

def startDMA (base : BitVec 32) : List Outb := [osdev_outb (io.bmr + base) (io.cmd ||| DMA_ON)]

/-- What is written until the drive is ready. -/
def prepare (bus base : BitVec 32) (write : Bool) : List Outb :=
  [osdev_outb (bus + ATA_REG_CONTROL) 2,
   osdev_outb (io.bmr + base) (if write then DMA_WRITE else DMA_READ),
   osdev_outb (io.bmr + base + 2) (io.status ||| 2 ||| 4),
   osdev_outb (bus + ATA_REG_CONTROL) 0]

/-- What is written to the drive; the first command sets its features. -/
def taskfile (bus slave lba : BitVec 32) (write : Bool) : List Outb :=
  [osdev_outb (bus + ATA_REG_HDDEVSEL)
   ((0xe0#32 ||| slave <<< 4 ||| (lba &&& 0x0f000000) >>> 24).setWidth 8),
   osdev_outb (bus + 1) 0x03, osdev_outb (bus + 2) 0x21,
   osdev_outb (bus + ATA_REG_COMMAND) 0xEF,
   osdev_outb (bus + ATA_REG_SECCOUNT0) 1,
   osdev_outb (bus + ATA_REG_LBA0) ((lba &&& 0x000000ff).setWidth 8),
   osdev_outb (bus + ATA_REG_LBA1) (((lba &&& 0x0000ff00) >>> 8).setWidth 8),
   osdev_outb (bus + ATA_REG_LBA2) (((lba &&& 0x00ff0000) >>> 16).setWidth 8),
   osdev_outb (bus + ATA_REG_COMMAND) (if write then ATA_CMD_WRITE_DMA else ATA_CMD_READ_DMA)]

/-- The bytes `dma_begin_read_sector` and `dma_begin_write_sector` write to the ports. -/
def program (dev : ata_device) (lba : BitVec 32) (write : Bool) : List Outb :=
  io.stopDMA dev.base ++ io.prepare dev.io_base dev.base write ++
    taskfile dev.io_base dev.slave lba write ++ io.startDMA dev.base

end BusMaster

/-! ## The drives of a bus

  A drive has registers of eight bits, each with its port, and takes what was written last.  A
  write to the command register starts a transfer with what the others hold then. -/

/-- The registers the drives of a bus are told their commands by. -/
structure Registers where
  features : BitVec 8
  seccount0 : BitVec 8
  lba0 : BitVec 8
  lba1 : BitVec 8
  lba2 : BitVec 8
  hddevsel : BitVec 8
  command : BitVec 8

namespace Registers

variable (d : Registers) (bus : BitVec 32)

/-- The register a port belongs to, when the registers begin at `bus`. -/
def reg (o : Outb) : BitVec 32 := (o.port - bus.setWidth 16).setWidth 32

/-- A register is written. -/
def set (reg : BitVec 32) (data : BitVec 8) : Registers :=
  if reg = ATA_REG_FEATURES then { d with features := data }
  else if reg = ATA_REG_SECCOUNT0 then { d with seccount0 := data }
  else if reg = ATA_REG_LBA0 then { d with lba0 := data }
  else if reg = ATA_REG_LBA1 then { d with lba1 := data }
  else if reg = ATA_REG_LBA2 then { d with lba2 := data }
  else if reg = ATA_REG_HDDEVSEL then { d with hddevsel := data }
  else if reg = ATA_REG_COMMAND then { d with command := data }
  else d

/-- A byte is written to a port, which need not be one of the drives'. -/
def out (o : Outb) : Registers := d.set (reg bus o) o.data

/-- The command is to transfer by DMA. -/
def IsTransfer : Prop := d.command = ATA_CMD_READ_DMA ∨ d.command = ATA_CMD_WRITE_DMA

instance : Decidable d.IsTransfer := inferInstanceAs (Decidable (_ ∨ _))

/-- The transfers the drives are told to make: a command is given by the write of its register. -/
def transfers (bus : BitVec 32) : Registers → List Outb → List Registers
  | _, [] => []
  | d, o :: outs =>
    if reg bus o = ATA_REG_COMMAND ∧ (d.out bus o).IsTransfer then
      d.out bus o :: transfers bus (d.out bus o) outs
    else transfers bus (d.out bus o) outs

/-- The first sector of the transfer, of the four registers it is in. -/
def lba : BitVec 28 := d.hddevsel.setWidth 4 ++ d.lba2 ++ d.lba1 ++ d.lba0

/-- The number of sectors; zero stands for 256. -/
def sectors : Nat := if d.seccount0 = 0 then 256 else d.seccount0.toNat

/-- The bytes of the disk that are transferred. -/
def covered : Set Nat :=
  Set.Ico (ATA_SECTOR_SIZE * d.lba.toNat) (ATA_SECTOR_SIZE * (d.lba.toNat + d.sectors))

/-- What the last command of `taskfile` finds. -/
def told (slave lba : BitVec 32) (write : Bool) : Registers where
  features := 0x03
  seccount0 := 1
  lba0 := (lba &&& 0x000000ff).setWidth 8
  lba1 := ((lba &&& 0x0000ff00) >>> 8).setWidth 8
  lba2 := ((lba &&& 0x00ff0000) >>> 16).setWidth 8
  hddevsel := (0xe0#32 ||| slave <<< 4 ||| (lba &&& 0x0f000000) >>> 24).setWidth 8
  command := if write then ATA_CMD_WRITE_DMA else ATA_CMD_READ_DMA

/-! ### What the drives make of the port writes of a request

  By symbolic execution, register by register.  Among all writes of a request only one is a
  command, so there is one transfer, and its sector is what the task file has said (`lba_told`). -/

section Writes

variable {d : Registers} {bus : BitVec 32} {o : Outb} {outs outs' : List Outb}

theorem out_command (h : reg bus o = ATA_REG_COMMAND) :
    d.out bus o = { d with command := o.data } := by
  rw [out, h]
  rfl

/-- A port is known by its distance from the first one. -/
theorem reg_osdev_outb {k : BitVec 32} {data : BitVec 8} (hk : k.toNat < 2 ^ 16) :
    reg bus (osdev_outb (bus + k) data) = k := by
  have hadd : (bus + k).setWidth 16 = k.setWidth 16 + bus.setWidth 16 := by
    rw [BitVec.add_comm, BitVec.setWidth_add k bus (by decide)]
  rw [reg, osdev_outb, hadd, BitVec.add_sub_cancel]
  refine BitVec.eq_of_toNat_eq ?_
  rw [BitVec.toNat_setWidth, BitVec.toNat_setWidth, Nat.mod_eq_of_lt hk, Nat.mod_eq_of_lt k.isLt]

/-- A write to another register than the command starts nothing, -/
theorem transfers_set {k : BitVec 32} {data : BitVec 8} (hk : k.toNat < 2 ^ 16)
    (hcommand : k ≠ ATA_REG_COMMAND) :
    transfers bus d (osdev_outb (bus + k) data :: outs) = transfers bus (d.set k data) outs := by
  rw [transfers, out, reg_osdev_outb hk, if_neg fun h => hcommand h.1]
  rfl

/-- and one to the command starts a transfer if that is to read or to write. -/
theorem transfers_command {data : BitVec 8} :
    transfers bus d (osdev_outb (bus + ATA_REG_COMMAND) data :: outs) =
      if data = ATA_CMD_READ_DMA ∨ data = ATA_CMD_WRITE_DMA then
        { d with command := data } :: transfers bus { d with command := data } outs
      else transfers bus { d with command := data } outs := by
  have hreg : reg bus (osdev_outb (bus + ATA_REG_COMMAND) data) = ATA_REG_COMMAND :=
    reg_osdev_outb (by decide)
  rw [transfers, out_command hreg, hreg]
  exact if_congr (and_iff_right rfl) rfl rfl

/-- Writes one after another: the second find the registers as the first have left them. -/
theorem transfers_append : transfers bus d (outs ++ outs') =
    transfers bus d outs ++ transfers bus (outs.foldl (fun d o => d.out bus o) d) outs' := by
  induction outs generalizing d with
  | nil => rfl
  | cons o outs ih =>
    rw [List.cons_append, transfers, transfers, ih, List.foldl_cons]
    split
    · rfl
    · rfl

/-- Bytes that are no command to transfer start nothing, wherever they go. -/
theorem transfers_quiet (h : ∀ o ∈ outs, o.data ≠ ATA_CMD_READ_DMA ∧ o.data ≠ ATA_CMD_WRITE_DMA) :
    transfers bus d outs = [] := by
  induction outs generalizing d with
  | nil => rfl
  | cons o outs ih =>
    obtain ⟨hread, hwrite⟩ := h o List.mem_cons_self
    rw [transfers, if_neg]
    · exact ih fun o' ho' => h o' (List.mem_cons_of_mem o ho')
    · rintro ⟨hreg, htransfer⟩
      rw [out_command hreg] at htransfer
      exact htransfer.elim hread hwrite

end Writes

/-- A byte with a bit that neither command has, or without one that both have. -/
theorem no_transfer (data : BitVec 8)
    (h : data.getLsbD 0 = true ∨ data.getLsbD 2 = true ∨ data.getLsbD 7 = false) :
    data ≠ ATA_CMD_READ_DMA ∧ data ≠ ATA_CMD_WRITE_DMA := by
  constructor
  · rintro rfl
    revert h
    decide
  · rintro rfl
    revert h
    decide

variable {d} {io : BusMaster} {dev : ata_device} {lba : BitVec 32} {write : Bool}

/-- The writes for the drive are one transfer, whatever the registers held. -/
theorem transfers_taskfile {bus slave : BitVec 32} :
    d.transfers bus (BusMaster.taskfile bus slave lba write) = [told slave lba write] := by
  have hcommand : (if write then ATA_CMD_WRITE_DMA else ATA_CMD_READ_DMA) = ATA_CMD_READ_DMA ∨
      (if write then ATA_CMD_WRITE_DMA else ATA_CMD_READ_DMA) = ATA_CMD_WRITE_DMA := by
    cases write
    · exact Or.inl rfl
    · exact Or.inr rfl
  rw [BusMaster.taskfile, transfers_set (by decide) (by decide),
    transfers_set (by decide) (by decide), transfers_set (by decide) (by decide), transfers_command,
    if_neg (by decide), transfers_set (by decide) (by decide),
    transfers_set (by decide) (by decide), transfers_set (by decide) (by decide),
    transfers_set (by decide) (by decide), transfers_command, if_pos hcommand]
  rfl

/-- **The transfer of a request**: the one `told`, whatever the registers held and wherever the bus
    master is. -/
theorem transfers_program : d.transfers dev.io_base (io.program dev lba write) =
    [told dev.slave lba write] := by
  have hstop : ∀ d : Registers, d.transfers dev.io_base (io.stopDMA dev.base) = [] := fun d =>
    transfers_quiet fun o ho => by
      obtain rfl := List.mem_singleton.mp ho
      exact no_transfer 0 (by decide)
  have hprepare : ∀ d : Registers,
      d.transfers dev.io_base (io.prepare dev.io_base dev.base write) = [] :=
    fun d => transfers_quiet fun o ho => by
      simp only [BusMaster.prepare, List.mem_cons, List.not_mem_nil, or_false] at ho
      obtain rfl | rfl | rfl | rfl := ho
      · exact no_transfer 2 (by decide)
      · cases write
        · exact no_transfer DMA_READ (by decide)
        · exact no_transfer DMA_WRITE (by decide)
      · refine no_transfer (io.status ||| 2 ||| 4) (Or.inr (Or.inl ?_))
        simp
      · exact no_transfer 0 (by decide)
  have hstart : ∀ d : Registers, d.transfers dev.io_base (io.startDMA dev.base) = [] := fun d =>
    transfers_quiet fun o ho => by
      obtain rfl := List.mem_singleton.mp ho
      refine no_transfer (io.cmd ||| DMA_ON) (Or.inl ?_)
      simp [DMA_ON]
  rw [BusMaster.program, transfers_append, transfers_append, transfers_append, hstop,
    hprepare, hstart, transfers_taskfile]
  rfl

/-- What a mask and a shift leave is a slice. -/
theorem slice {x mask : BitVec 32} {k n : Nat} (h : ∀ i < n, mask.getLsbD (k + i) = true) :
    ((x &&& mask) >>> k).setWidth n = x.extractLsb' k n := by
  refine BitVec.eq_of_getLsbD_eq fun i hi => ?_
  rw [BitVec.getLsbD_setWidth, BitVec.getLsbD_ushiftRight, BitVec.getLsbD_and, h i hi,
    Bool.and_true, BitVec.getLsbD_extractLsb']

/-- The four registers hold the sector, when it fits in them. -/
theorem lba_told (slave : BitVec 32) (h : lba.toNat < 2 ^ 28) :
    (told slave lba write).lba.toNat = lba.toNat := by
  have hlba0 : (told slave lba write).lba0 = lba.extractLsb' 0 8 := slice (k := 0) (by decide)
  have hlba1 : (told slave lba write).lba1 = lba.extractLsb' 8 8 := slice (by decide)
  have hlba2 : (told slave lba write).lba2 = lba.extractLsb' 16 8 := slice (by decide)
  have hhead : (told slave lba write).hddevsel.setWidth 4 = lba.extractLsb' 24 4 := by
    have hslave : (slave <<< 4).setWidth 4 = (0 : BitVec 4) :=
      BitVec.eq_of_getLsbD_eq fun i hi => by
      simp [hi]
    have hslice : ((lba &&& 0x0f000000) >>> 24).setWidth 4 = lba.extractLsb' 24 4 :=
      slice (by decide)
    rw [← hslice]
    show (BitVec.setWidth 8 _).setWidth 4 = _
    rw [BitVec.setWidth_setWidth_of_le _ (by decide), BitVec.setWidth_or,
      BitVec.setWidth_or, hslave]
    exact BitVec.zero_or
  have hbits : (told slave lba write).lba = lba.extractLsb' 0 28 := by
    rw [Registers.lba, hhead, hlba2, hlba1, hlba0,
      BitVec.extractLsb'_append_extractLsb'_eq_extractLsb' (rfl : 24 = 16 + 8),
      BitVec.extractLsb'_append_extractLsb'_eq_extractLsb' (rfl : 16 = 8 + 8),
      BitVec.extractLsb'_append_extractLsb'_eq_extractLsb' (rfl : 8 = 0 + 8)]
  rw [hbits, BitVec.extractLsb'_toNat, Nat.shiftRight_zero, Nat.mod_eq_of_lt h]

end Registers

/-! ## The transfer of a request

  The sector is the position divided by 512, the number of sectors the constant 1, and the
  descriptor has the length in bytes.  So position and length agree with what is transferred if
  the one is a multiple of 512 and the other is 512. -/

/-- The transfers the drives are told to make; a reset writes to another port. -/
def Effect.transfers (io : BusMaster) (regs : Registers) : Effect → List Registers
  | .command dev lba write => regs.transfers dev.io_base (io.program dev lba write)
  | _ => []

namespace Dma

variable (s s' : Dma)

/-- `FOps::write` or `FOps::read`. -/
def request (write : Bool) (pid : Pid) (file buf bytes dma_buffer : BitVec 32) : Option Dma :=
  if write then s.write pid file buf bytes dma_buffer else s.read pid file buf bytes dma_buffer

/-- The transfers the drives are told to make between `s` and `s'`. -/
def transfers (io : BusMaster) (regs : Registers) : List Registers :=
  (s'.log.drop s.log.length).flatMap (Effect.transfers io regs)

/-- The request that led from `s` to `s'` transfers the `bytes` bytes from the position of its file
    on. -/
structure Transfers (s s' : Dma) (io : BusMaster) (regs : Registers) (file bytes : BitVec 32) :
    Prop where
  aligned : ATA_SECTOR_SIZE ∣ (s.fops file).currOffset.toNat
  /-- There is one command, for these bytes. -/
  command : ∃ c, s.transfers s' io regs = [c] ∧
    c.lba.toNat = (s.fops file).currOffset.toNat / ATA_SECTOR_SIZE ∧
    c.seccount0.toNat = bytes.toNat / ATA_SECTOR_SIZE ∧
    c.covered = Set.Ico (s.fops file).currOffset.toNat
      ((s.fops file).currOffset.toNat + bytes.toNat)
  descriptor : ∀ bus, (s.fops file).WhichDev.busId = some bus →
    (s'.prd bus).bytes.toNat = bytes.toNat
  /-- Completion moves the position, as long as nobody seeks in between. -/
  completion : ∀ bus, (s.fops file).WhichDev.busId = some bus →
    ∃ r, s'.dma_finish_read bus = some r ∧ ∀ t : Dma, t.fops file = s.fops file →
      ((t.callback r false).fops file).currOffset.toNat = (s.fops file).currOffset.toNat +
        bytes.toNat

variable {s s'} {w : Bool} {pid : Pid} {dev : ata_device}
    {lba buf nbytes bytes file dma_buffer : BitVec 32}
  {bus : Fin 2} {r : Request} {io : BusMaster} {regs : Registers}

/-- A request that gets to the disk is `start`ed. -/
theorem request_eq_start (h : s.Accepts bytes) (hbus : (s.fops file).WhichDev.busId = some bus) :
    s.request w pid file buf bytes dma_buffer = some (s.start w pid (s.fops file).WhichDev
      ((s.fops file).currOffset / BitVec.ofNat 32 ATA_SECTOR_SIZE) buf bytes file dma_buffer
        bus) := by
  obtain ⟨hlen, hinit, hmul⟩ := h
  have hbegin : ∀ write, s.dma_begin_sector write pid (s.fops file).WhichDev
      ((s.fops file).currOffset / BitVec.ofNat 32 ATA_SECTOR_SIZE) buf bytes file dma_buffer =
      some (s.start write pid (s.fops file).WhichDev
        ((s.fops file).currOffset / BitVec.ofNat 32 ATA_SECTOR_SIZE) buf bytes file dma_buffer
          bus) := by
    intro write
    rw [dma_begin_sector, hinit, if_neg (by decide), if_neg (not_not.mpr hmul), hbus]
    rfl
  cases w with
  | true =>
    rw [request, if_pos rfl, write, hlen, if_neg (by decide)]
    exact hbegin true
  | false =>
    rw [request, if_neg (by decide), read, hlen, if_neg (by decide)]
    exact hbegin false

/-- A started request tells the drive one transfer. -/
theorem start_transfers :
    s.transfers (s.start w pid dev lba buf nbytes file dma_buffer bus) io regs =
    [Registers.told dev.slave lba w] := by
  have hlog : (s.start w pid dev lba buf nbytes file dma_buffer bus).log = s.log ++
      [.alloc dma_buffer (bufferSize nbytes), if w then .stage pid dma_buffer buf nbytes
        else .zero pid buf nbytes, .command dev lba w,
          .block ⟨w, dev, bus, pid, buf, dma_buffer, nbytes, file⟩] := by
    simp [start, block, emit]
  rw [transfers, hlog, List.drop_left]
  cases w
  · exact congrArg (· ++ []) Registers.transfers_program
  · exact congrArg (· ++ []) Registers.transfers_program

/-- The descriptor has the length of the request, cut to 16 bits. -/
theorem start_prd :
    ((s.start w pid dev lba buf nbytes file dma_buffer bus).prd bus).bytes = nbytes.setWidth 16 :=
  congrArg Prd.bytes (Function.update_self bus _ s.prd)

/-- The callback captures the request. -/
theorem start_finish : (s.start w pid dev lba buf nbytes file dma_buffer bus).dma_finish_read bus =
    some ⟨w, dev, bus, pid, buf, dma_buffer, nbytes, file⟩ :=
  Function.update_self bus _ s.dma_finish_read

/-- The callback of a transfer that did not fail moves its file. -/
theorem callback_currOffset : ((s.callback r false).fops r.file).currOffset =
    (s.fops r.file).currOffset + r.nbytes := by
  have hfops : (s.callback r false).fops = Function.update s.fops r.file
      { s.fops r.file with currOffset := (s.fops r.file).currOffset + r.nbytes } := by
    rw [callback]
    cases r.write <;> rfl
  rw [hfops, Function.update_self]

/-- **Exactly the requests of one sector** from the start of a sector on transfer what was asked
    for, as long as the position after it fits: the number of sectors told to the drive is one, and
    the number of a sector is the position rounded down. -/
theorem request_transfers_iff (h : s.Accepts bytes) :
    (∃ s', s.request w pid file buf bytes dma_buffer = some s' ∧
      s.Transfers s' io regs file bytes) ↔ bytes.toNat = ATA_SECTOR_SIZE ∧
        ATA_SECTOR_SIZE ∣ (s.fops file).currOffset.toNat ∧
        (s.fops file).currOffset.toNat + bytes.toNat < 2 ^ 32 := by
  obtain ⟨bus, hbus⟩ := busId_eq (s.fops file).WhichDev
  rw [request_eq_start h hbus]
  constructor
  · rintro ⟨s', hs', haligned, hcommand, -, hcompletion⟩
    obtain rfl := Option.some.inj hs'
    obtain ⟨c, hc, -, hcount, -⟩ := hcommand
    rw [start_transfers] at hc
    obtain rfl := List.singleton_injective hc
    -- the drive is told one sector, whatever the length
    have hone : bytes.toNat / ATA_SECTOR_SIZE = 1 := hcount.symm
    obtain ⟨r, hr, hmoves⟩ := hcompletion bus hbus
    rw [start_finish] at hr
    obtain rfl := Option.some.inj hr
    -- and the position after it is a word, so the sum must be one
    have hsum := hmoves s rfl
    rw [callback_currOffset] at hsum
    refine ⟨?_, haligned, ?_⟩
    · calc bytes.toNat = ATA_SECTOR_SIZE * (bytes.toNat / ATA_SECTOR_SIZE) +
        bytes.toNat % ATA_SECTOR_SIZE :=
            (Nat.div_add_mod _ _).symm
        _ = ATA_SECTOR_SIZE := by rw [hone, h.2.2, Nat.mul_one, Nat.add_zero]
    · rw [← hsum]
      exact BitVec.isLt _
  · rintro ⟨hsize, haligned, hfits⟩
    have hlba : ((s.fops file).currOffset / BitVec.ofNat 32 ATA_SECTOR_SIZE).toNat =
        (s.fops file).currOffset.toNat / ATA_SECTOR_SIZE := rfl
    have htold :
        ∀ slave, (Registers.told slave ((s.fops file).currOffset / BitVec.ofNat 32 ATA_SECTOR_SIZE)
        w).lba.toNat = (s.fops file).currOffset.toNat / ATA_SECTOR_SIZE := fun slave => by
      -- a sector of a 32-bit position needs 23 bits, and there are 28
      rw [Registers.lba_told slave, hlba]
      rw [hlba]
      exact lt_of_le_of_lt (Nat.div_le_div_right (Nat.le_of_lt (BitVec.isLt _))) (by decide)
    refine ⟨_, rfl, haligned, ?_, ?_, ?_⟩
    · refine ⟨_, start_transfers, htold _, ?_, ?_⟩
      · rw [hsize]
        rfl
      · rw [Registers.covered, htold, hsize, Nat.mul_add, Nat.mul_div_cancel' haligned]
        rfl
    · intro bus' hbus'
      obtain rfl := Option.some.inj (hbus.symm.trans hbus')
      rw [start_prd, BitVec.toNat_setWidth, hsize]
      rfl
    · intro bus' hbus'
      obtain rfl := Option.some.inj (hbus.symm.trans hbus')
      refine ⟨_, start_finish, fun t ht => ?_⟩
      rw [callback_currOffset, ht, BitVec.toNat_add, Nat.mod_eq_of_lt hfits]

/-- Every file is one of the first disk, at its start. -/
def rewound : Dma where
  dma_init := true
  prd _ := ⟨0, 0⟩
  dma_waiting_read _ := false
  dma_finish_read _ := none
  fops _ := ⟨.primary_master, 0⟩
  threads _ := ⟨.Running, 0, none⟩
  log := []

/-- The first sector is read. -/
theorem request_transfers_iff_first :
    ∃ s', rewound.request false 3 0x1000 0x8000000 512 0x500000 = some s' ∧
    rewound.Transfers s' ⟨0xC000, 0, 0⟩ ⟨0, 0, 0, 0, 0, 0, 0⟩ 0x1000 512 :=
  (request_transfers_iff ⟨rfl, rfl, rfl⟩).mpr ⟨rfl, by decide, by decide⟩

/-- Of two sectors the drive is told one. -/
theorem request_falls_short :
    ¬ ∀ (s : Dma) (w : Bool) (pid : Pid) (file buf bytes dma_buffer : BitVec 32)
    (io : BusMaster) (regs : Registers), s.Accepts bytes →
    ∃ s', s.request w pid file buf bytes dma_buffer = some s' ∧
    s.Transfers s' io regs file bytes := by
  intro hall
  have haccepts : rewound.Accepts 1024 := ⟨rfl, rfl, rfl⟩
  obtain ⟨s', hs', htransfers⟩ := hall rewound false 3 0x1000 0x8000000 1024 0x500000 ⟨0xC000, 0, 0⟩
    ⟨0, 0, 0, 0, 0, 0, 0⟩ haccepts
  rw [request_eq_start haccepts (rfl : _ = some bus0)] at hs'
  obtain rfl := Option.some.inj hs'
  obtain ⟨c, hc, -, hcount, -⟩ := htransfers.command
  rw [start_transfers] at hc
  obtain rfl := List.singleton_injective hc
  have htwo : (1 : Nat) = 2 := hcount
  exact absurd htwo (by decide)

end Dma

end TedkOS.Drivers.Ata
