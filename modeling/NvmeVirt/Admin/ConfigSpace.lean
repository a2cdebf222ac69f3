/-
# The configuration space

`nvmev_pci_write` of `pci.c`, the write operation of the virtual PCI bus, and the
interrupt status bit that `nvmev_signal_irq` sets.  A mask for each register says which
bits a write changes; what the driver keeps of two of these bits, `intx_disabled` and
`msix_enabled` of the device of the kernel, follows the writes.

The kernel reads and writes bytes, words and double words at addresses that are
multiples of their size.
-/

import NvmeVirt.Io.Perform
import NvmeVirt.Lib.LittleEndian

namespace NvmeVirt

open LittleEndian

/-- `OFFS_PCI_PM_CAP`. -/
def offsPciPmCap : ℕ := 0x40

/-- `OFFS_PCI_MSIX_CAP`. -/
def offsPciMsixCap : ℕ := 0x50

/-- `OFFS_PCIE_CAP`. -/
def offsPcieCap : ℕ := 0x60

/-- `PCI_COMMAND`. -/
def pciCommand : ℕ := 0x04

/-- `PCI_STATUS`. -/
def pciStatus : ℕ := 0x06

/-- `PCI_BIST`. -/
def pciBist : ℕ := 0x0f

/-- `PCI_BASE_ADDRESS_0`. -/
def pciBaseAddress0 : ℕ := 0x10

/-- `PCI_INTERRUPT_LINE`. -/
def pciInterruptLine : ℕ := 0x3c

/-- `PCI_MSIX_FLAGS`. -/
def pciMsixFlags : ℕ := 2

/-- The bit of `PCI_COMMAND_INTX_DISABLE`. -/
def intxDisableBit : ℕ := 10

/-- The bit of `PCI_MSIX_FLAGS_ENABLE`. -/
def msixEnableBit : ℕ := 15

/-- The fields of `struct nvmev_dev` the configuration space is about; `pdev` is `NULL` until the
bus is scanned, and has `msix_enabled`. -/
structure PciDev where
  virtDev : Mem
  intxDisabled : Bool
  pdev : Option Bool

/-- A bit of a byte of memory. -/
def bitAt (m : Mem) (a b : ℕ) : Bool := (m a).toNat.testBit b

/-- Some bytes as a number, by `memcpy`. -/
def loadBytes (m : Mem) (a size : ℕ) : ℕ := leNat ((List.range size).map fun j => m (a + j))

/-- The low bytes of a number, by `memcpy`. -/
def copyBytes (m : Mem) (a size n : ℕ) : Mem := fun x =>
  if a ≤ x ∧ x < a + size then UInt8.ofNat (n / 2 ^ (8 * (x - a))) else m x

/-- `pcihdr->sts.is = v`. -/
def setInterruptStatus (m : Mem) (v : Bool) : Mem :=
  Function.update m pciStatus
    (UInt8.ofNat ((m pciStatus).toNat &&& 0xF7 ||| if v then 2 ^ 3 else 0))

/-- The mask of `nvmev_pci_write`: the bits a write at an address changes. -/
def pciWriteMask (addr : ℕ) : ℕ :=
  if addr < offsPciPmCap then
    if addr = pciCommand then 2 ^ intxDisableBit
    else if addr = pciStatus then 0xF200
    else if addr = pciBist then 0x40
    else if addr = pciBaseAddress0 then 0xFFFFC000
    else if addr = pciInterruptLine then 0xFF
    else 0
  else if addr < offsPciMsixCap then 0xFFFFFFFF
  else if addr < offsPcieCap then
    if addr - offsPciMsixCap = pciMsixFlags then 0xC000 else 0
  else 0xFFFFFFFF

/-- `(val & ~mask) | (_val & mask)` of `u32` values. -/
def maskedWrite (mask old val : ℕ) : ℕ := old &&& (mask ^^^ (2 ^ 32 - 1)) ||| val &&& mask

namespace PciDev

variable (d : PciDev)

/-- The side effects of a write at `PCI_COMMAND` and `PCI_MSIX_FLAGS`, where the bit changes. -/
def notice (addr old val : ℕ) : PciDev :=
  if addr = pciCommand then
    if (old ^^^ val).testBit intxDisableBit then
      if val.testBit intxDisableBit then { d with intxDisabled := true }
      else { d with intxDisabled := false, virtDev := setInterruptStatus d.virtDev false }
    else d
  else if addr = offsPciMsixCap + pciMsixFlags then
    if (old ^^^ val).testBit msixEnableBit then
      { d with pdev := d.pdev.map fun _ => val.testBit msixEnableBit }
    else d
  else d

/-- `nvmev_pci_write`. -/
def nvmevPciWrite (addr size val : ℕ) : PciDev :=
  let old := loadBytes d.virtDev addr size
  let d := d.notice addr old val
  { d with virtDev := copyBytes d.virtDev addr size (maskedWrite (pciWriteMask addr) old val) }

/-- `nvmev_signal_irq`, as far as the configuration space goes. -/
def nvmevSignalIrq : Except Fault PciDev :=
  match d.pdev with
  | none => .error .undefined
  | some msixEnabled =>
    if msixEnabled then .ok d
    else .ok { d with virtDev := setInterruptStatus d.virtDev true }

end PciDev

/-- What happens to the configuration space. -/
inductive ConfigOp
  | write (addr size val : ℕ)
  | signalIrq

/-- A write as the kernel issues it: of 1, 2 or 4 bytes at a multiple of its size in the page, with
a value of that size. -/
def ConfigOp.WellFormed : ConfigOp → Prop
  | .write addr size val =>
    (size = 1 ∨ size = 2 ∨ size = 4) ∧ addr % size = 0 ∧ addr + size ≤ 4096 ∧ val < 2 ^ (8 * size)
  | .signalIrq => True

instance ConfigOp.decidableWellFormed : ∀ op : ConfigOp, Decidable op.WellFormed
  | .write _ _ _ => inferInstanceAs (Decidable (_ ∧ _ ∧ _ ∧ _))
  | .signalIrq => .isTrue trivial

/-- One step. -/
def PciDev.exec (d : PciDev) : ConfigOp → Except Fault PciDev
  | .write addr size val => .ok (d.nvmevPciWrite addr size val)
  | .signalIrq => d.nvmevSignalIrq

/-- **The bits that may change:** the interrupt disable bit of the command register, the upper bits
of the status register with the interrupt status, the start of a self test, the base address, the
interrupt line, the enable and mask bits of MSI-X, and the other capabilities. -/
def ConfigWritable (a b : ℕ) : Prop :=
  a = 5 ∧ b = 2 ∨ a = 6 ∧ b = 3 ∨ a = 7 ∧ (b = 1 ∨ 4 ≤ b) ∨ a = 15 ∧ b = 6 ∨
    a = 17 ∧ 6 ≤ b ∨ a = 18 ∨ a = 19 ∨ a = 60 ∨ 64 ≤ a ∧ a < 80 ∨ a = 83 ∧ 6 ≤ b ∨ 96 ≤ a

/-! ### Bits and bytes -/

variable {m : Mem} {a b j size n x : ℕ}

/-- The bits of a number in memory. -/
theorem testBit_loadBytes (hj : j < size) (hb : b < 8) :
    (loadBytes m a size).testBit (8 * j + b) = bitAt m (a + j) b := by
  unfold loadBytes
  induction size generalizing a j with
  | zero => omega
  | succ size ih =>
    have hbytes : leNat ((List.range (size + 1)).map fun i => m (a + i)) =
        2 ^ 8 * leNat ((List.range size).map fun i => m (a + 1 + i)) + (m a).toNat := by
      rw [List.range_succ_eq_map, List.map_cons, List.map_map, leNat, Nat.add_comm, Nat.add_zero]
      have hnext : (fun i => m (a + i)) ∘ Nat.succ = fun i => m (a + 1 + i) := by
        funext i
        exact congrArg m (by omega)
      rw [hnext]
      norm_num
    have hlow : (m a).toNat < 2 ^ 8 := (m a).toNat_lt
    rw [hbytes, Nat.testBit_two_pow_mul_add _ hlow]
    rcases j with _ | j
    · rw [if_pos (by omega), Nat.mul_zero, Nat.zero_add]
      rfl
    · rw [if_neg (by omega), show 8 * (j + 1) + b - 8 = 8 * j + b by omega, ih (by omega)]
      exact congrArg (bitAt m · b) (by omega)

/-- A number in memory fits its bytes. -/
theorem loadBytes_lt : loadBytes m a size < 2 ^ (8 * size) := by
  have h := leNat_lt ((List.range size).map fun j => m (a + j))
  rw [List.length_map, List.length_range] at h
  rwa [pow_mul]

/-- The bits of bytes copied. -/
theorem bitAt_copyBytes (hj : j < size) (hb : b < 8) :
    bitAt (copyBytes m a size n) (a + j) b = n.testBit (8 * j + b) := by
  unfold bitAt copyBytes
  rw [if_pos (by omega), Nat.add_sub_cancel_left, UInt8.toNat_ofNat', Nat.testBit_mod_two_pow,
    Nat.testBit_div_two_pow, Nat.add_comm b]
  simp [hb]

/-- Other bytes stay. -/
theorem copyBytes_of_out (h : x < a ∨ a + size ≤ x) : copyBytes m a size n x = m x :=
  if_neg (by omega)

/-- A write changes the bits of its mask. -/
theorem testBit_maskedWrite {mask old val k : ℕ} (hk : k < 32) :
    (maskedWrite mask old val).testBit k =
      if mask.testBit k then val.testBit k else old.testBit k := by
  unfold maskedWrite
  rw [Nat.testBit_or, Nat.testBit_and, Nat.testBit_and, Nat.testBit_xor, Nat.testBit_two_pow_sub_one]
  cases mask.testBit k <;> simp [hk]

/-- The interrupt status is a bit of the status register. -/
theorem bitAt_setInterruptStatus {v : Bool} (hb : b < 8) :
    bitAt (setInterruptStatus m v) a b = if a = 6 ∧ b = 3 then v else bitAt m a b := by
  unfold setInterruptStatus bitAt
  by_cases ha : a = 6
  · subst ha
    have hmask : ∀ b < 8, (0xF7 : ℕ).testBit b = !decide (b = 3) := by decide
    have hbit : ∀ b < 8, (2 ^ 3 : ℕ).testBit b = decide (b = 3) := by decide
    rw [show pciStatus = 6 from rfl, Function.update_self, UInt8.toNat_ofNat', Nat.testBit_mod_two_pow,
      Nat.testBit_or, Nat.testBit_and, hmask b hb]
    cases v
    · by_cases h3 : b = 3 <;> simp [hb, h3]
    · rw [if_pos rfl, hbit b hb]
      by_cases h3 : b = 3 <;> simp [hb, h3]
  · have hne : a ≠ pciStatus := ha
    rw [Function.update_of_ne hne, if_neg fun h => ha h.1]

/-! ### One write -/

instance : Decidable (ConfigWritable a b) :=
  inferInstanceAs (Decidable (a = 5 ∧ b = 2 ∨ _))

/-- The mask of an aligned write only covers bits that may change. -/
theorem writable_of_mask {addr : ℕ} (hsize : size = 1 ∨ size = 2 ∨ size = 4) (hal : addr % size = 0)
    (hj : j < size) (hb : b < 8) (h : (pciWriteMask addr).testBit (8 * j + b) = true) :
    ConfigWritable (addr + j) b := by
  have hj4 : j < 4 := by omega
  unfold pciWriteMask at h
  split_ifs at h with hpm hcmd hst hbist hbar hline hmsix hpcie hflags
  · rw [Nat.testBit_two_pow, decide_eq_true_eq, intxDisableBit] at h
    unfold pciCommand at hcmd
    exact .inl (by omega)
  · have hbits : ∀ j < 4, ∀ b < 8, (0xF200 : ℕ).testBit (8 * j + b) = true →
        ConfigWritable (6 + j) b := by decide
    exact hst ▸ hbits j hj4 b hb h
  · have hbits : ∀ j < 4, ∀ b < 8, (0x40 : ℕ).testBit (8 * j + b) = true →
        ConfigWritable (15 + j) b := by decide
    exact hbist ▸ hbits j hj4 b hb h
  · have hbits : ∀ j < 4, ∀ b < 8, (0xFFFFC000 : ℕ).testBit (8 * j + b) = true →
        ConfigWritable (16 + j) b := by decide
    exact hbar ▸ hbits j hj4 b hb h
  · have hbits : ∀ j < 4, ∀ b < 8, (0xFF : ℕ).testBit (8 * j + b) = true →
        ConfigWritable (60 + j) b := by decide
    exact hline ▸ hbits j hj4 b hb h
  · exact absurd h (by simp)
  · unfold ConfigWritable
    unfold offsPciPmCap at hpm
    unfold offsPciMsixCap at hmsix
    rcases hsize with rfl | rfl | rfl <;> omega
  · have hbits : ∀ j < 4, ∀ b < 8, (0xC000 : ℕ).testBit (8 * j + b) = true →
        ConfigWritable (82 + j) b := by decide
    have haddr : addr = 82 := by
      unfold pciMsixFlags offsPciMsixCap at hflags
      unfold offsPciMsixCap at hmsix
      omega
    exact haddr ▸ hbits j hj4 b hb h
  · exact absurd h (by simp)
  · unfold ConfigWritable
    unfold offsPcieCap at hpcie
    omega

namespace PciDev

variable {d d' : PciDev} {addr val : ℕ}

/-- What a write notes down, it notes at the register and where the bit changes. -/
theorem notice_intxDisabled (old : ℕ) : (d.notice addr old val).intxDisabled =
    if addr = 4 ∧ (old ^^^ val).testBit 10 = true then val.testBit 10 else d.intxDisabled := by
  unfold notice pciCommand intxDisableBit
  split_ifs with hcmd hdiff hval <;> simp_all

theorem notice_pdev (old : ℕ) : (d.notice addr old val).pdev =
    if addr = 82 ∧ (old ^^^ val).testBit 15 = true then d.pdev.map fun _ => val.testBit 15
    else d.pdev := by
  unfold notice pciCommand intxDisableBit offsPciMsixCap pciMsixFlags msixEnableBit
  split_ifs with hcmd hdiff hval <;> simp_all

/-- Of the configuration space it only changes the interrupt status, where interrupts are enabled
again. -/
theorem bitAt_notice {old : ℕ} (hb : b < 8) : bitAt (d.notice addr old val).virtDev a b =
    if addr = 4 ∧ (old ^^^ val).testBit 10 = true ∧ val.testBit 10 = false ∧ a = 6 ∧ b = 3 then false
    else bitAt d.virtDev a b := by
  unfold notice pciCommand intxDisableBit
  by_cases hcmd : addr = 4
  · by_cases hdiff : (old ^^^ val).testBit 10 = true
    · cases hval : val.testBit 10
      · simp only [hcmd, hdiff, if_true, Bool.false_eq_true, if_false, true_and]
        exact bitAt_setInterruptStatus hb
      · simp [hcmd, hdiff]
    · simp [hcmd, hdiff]
  · simp only [hcmd, if_false, false_and]
    split_ifs <;> rfl

/-- The bytes written. -/
theorem bitAt_write (hsize : size ≤ 4) (hj : j < size) (hb : b < 8) :
    bitAt (d.nvmevPciWrite addr size val).virtDev (addr + j) b =
      if (pciWriteMask addr).testBit (8 * j + b) then val.testBit (8 * j + b)
      else bitAt d.virtDev (addr + j) b := by
  unfold nvmevPciWrite
  rw [bitAt_copyBytes hj hb, testBit_maskedWrite (by omega), testBit_loadBytes hj hb]

/-- The other bytes. -/
theorem bitAt_write_of_out (h : a < addr ∨ addr + size ≤ a) :
    bitAt (d.nvmevPciWrite addr size val).virtDev a b =
      bitAt (d.notice addr (loadBytes d.virtDev addr size) val).virtDev a b := by
  unfold bitAt
  exact congrArg (UInt8.toNat · |>.testBit b) (copyBytes_of_out h)

/-- A write leaves the bits that may not change. -/
theorem write_keeps (hw : (ConfigOp.write addr size val).WellFormed) (hb : b < 8)
    (ha : ¬ ConfigWritable a b) :
    bitAt (d.nvmevPciWrite addr size val).virtDev a b = bitAt d.virtDev a b := by
  obtain ⟨hsize, hal, -, -⟩ := hw
  by_cases hin : addr ≤ a ∧ a < addr + size
  · obtain ⟨j, rfl⟩ := Nat.exists_eq_add_of_le hin.1
    have hj : j < size := by omega
    rw [bitAt_write (by omega) hj hb, if_neg fun h => ha (writable_of_mask hsize hal hj hb h)]
  · have hstatus : ¬ (a = 6 ∧ b = 3) := fun h => ha (.inr (.inl h))
    rw [bitAt_write_of_out (by omega), bitAt_notice hb, if_neg fun h => hstatus h.2.2.2]

/-- A bit of the upper byte changes in a write of more than a byte. -/
theorem testBit_diff (hw : (ConfigOp.write addr size val).WellFormed) (hb : b < 8) :
    (loadBytes d.virtDev addr size ^^^ val).testBit (8 + b) = true ↔
      2 ≤ size ∧ bitAt d.virtDev (addr + 1) b ≠ val.testBit (8 + b) := by
  obtain ⟨hsize, -, -, hval⟩ := hw
  rw [Nat.testBit_xor]
  by_cases h2 : 2 ≤ size
  · rw [← testBit_loadBytes h2 hb, Nat.mul_one]
    cases (loadBytes d.virtDev addr size).testBit (8 + b) <;>
      cases val.testBit (8 + b) <;> simp [h2]
  · obtain rfl : size = 1 := by omega
    have hone : ∀ n < 2 ^ 8, n.testBit (8 + b) = false := fun n hn =>
      Nat.testBit_lt_two_pow (hn.trans_le (Nat.pow_le_pow_right (by omega) (by omega)))
    rw [hone _ loadBytes_lt, hone _ hval]
    simp

/-- The bits that the driver follows are in the mask of their register, and in no other. -/
theorem mask_followed {c : ℕ} (hc : c = 4 ∧ b = 2 ∨ c = 82 ∧ b = 7) :
    (pciWriteMask c).testBit (8 + b) = true ∧
      ∀ x, c - 2 ≤ x → x ≤ c + 1 → x ≠ c → pciWriteMask x = 0 := by
  obtain ⟨rfl, rfl⟩ | ⟨rfl, rfl⟩ := hc
  all_goals
    refine ⟨by decide, fun x hlow hhigh hx => ?_⟩
    interval_cases x <;> first | rfl | exact absurd rfl hx

/-- **A bit that the driver follows**, in the upper byte of a register of two bytes: it is the bit
of the value, where a write at the register reaches it. -/
theorem bitAt_write_followed {c : ℕ} (hw : (ConfigOp.write addr size val).WellFormed)
    (hc : c = 4 ∧ b = 2 ∨ c = 82 ∧ b = 7) :
    bitAt (d.nvmevPciWrite addr size val).virtDev (c + 1) b =
      if addr = c ∧ 2 ≤ size then val.testBit (8 + b) else bitAt d.virtDev (c + 1) b := by
  obtain ⟨hmask, hother⟩ := mask_followed hc
  obtain ⟨hsize, hal, -, -⟩ := hw
  have hb : b < 8 := by omega
  by_cases hin : addr ≤ c + 1 ∧ c + 1 < addr + size
  · obtain ⟨j, hj⟩ := Nat.exists_eq_add_of_le hin.1
    have hjs : j < size := by omega
    rw [hj, bitAt_write (by omega) hjs hb]
    by_cases haddr : addr = c
    · obtain rfl : j = 1 := by omega
      subst haddr
      rw [Nat.mul_one, if_pos hmask, if_pos ⟨rfl, hjs⟩]
    · have hzero := hother addr (by rcases hsize with rfl | rfl | rfl <;> omega) hin.1 haddr
      rw [hzero, Nat.zero_testBit, if_neg Bool.false_ne_true, if_neg fun h => haddr h.1]
  · rw [bitAt_write_of_out (by omega), bitAt_notice hb, if_neg fun h => by omega,
      if_neg fun h => by omega]

/-- To take a bit over where it changes is to take it over where the write reaches it. -/
theorem ite_diff {c : ℕ} (hw : (ConfigOp.write addr size val).WellFormed) (hb : b < 8) :
    (if addr = c ∧ (loadBytes d.virtDev addr size ^^^ val).testBit (8 + b) = true
      then val.testBit (8 + b) else bitAt d.virtDev (c + 1) b) =
      if addr = c ∧ 2 ≤ size then val.testBit (8 + b) else bitAt d.virtDev (c + 1) b := by
  by_cases hat : addr = c ∧ 2 ≤ size
  · obtain ⟨rfl, h2⟩ := hat
    have hreach : addr = addr ∧ 2 ≤ size := ⟨rfl, h2⟩
    rw [if_pos hreach]
    by_cases hsame : bitAt d.virtDev (addr + 1) b = val.testBit (8 + b)
    · rw [hsame, ite_self]
    · have hdiff := (testBit_diff hw hb).mpr ⟨h2, hsame⟩
      exact if_pos ⟨rfl, hdiff⟩
  · rw [if_neg hat, if_neg fun h => hat ⟨h.1, ((testBit_diff hw hb).mp h.2).1⟩]

/-- What the driver keeps of the bit follows it. -/
theorem intxDisabled_write (hw : (ConfigOp.write addr size val).WellFormed)
    (h : d.intxDisabled = bitAt d.virtDev 5 2) :
    (d.nvmevPciWrite addr size val).intxDisabled =
      if addr = 4 ∧ 2 ≤ size then val.testBit 10 else bitAt d.virtDev 5 2 := by
  refine (notice_intxDisabled _).trans ?_
  rw [h]
  exact ite_diff (c := 4) (b := 2) hw (by decide)

theorem pdev_write (hw : (ConfigOp.write addr size val).WellFormed)
    (h : d.pdev = some (bitAt d.virtDev 83 7)) :
    (d.nvmevPciWrite addr size val).pdev =
      some (if addr = 82 ∧ 2 ≤ size then val.testBit 15 else bitAt d.virtDev 83 7) := by
  refine (notice_pdev _).trans ?_
  rw [h, Option.map_some, ← apply_ite some]
  exact congrArg some (ite_diff (c := 82) (b := 7) hw (by decide))

/-- The interrupt status only goes away where a word enables interrupts again: a double word at the
register of commands writes the status back that it read. -/
theorem bitAt_write_status (hw : (ConfigOp.write addr size val).WellFormed) :
    bitAt (d.nvmevPciWrite addr size val).virtDev 6 3 =
      if addr = 4 ∧ size = 2 ∧ bitAt d.virtDev 5 2 = true ∧ val.testBit 10 = false then false
      else bitAt d.virtDev 6 3 := by
  have hdiff := testBit_diff (d := d) hw (b := 2) (by decide)
  obtain ⟨hsize, hal, -, -⟩ := hw
  by_cases hin : addr ≤ 6 ∧ 6 < addr + size
  · obtain ⟨j, hj⟩ := Nat.exists_eq_add_of_le hin.1
    have hmask : (pciWriteMask addr).testBit (8 * j + 3) = false := by
      obtain ⟨rfl, rfl⟩ | ⟨rfl, rfl⟩ : addr = 4 ∧ j = 2 ∨ addr = 6 ∧ j = 0 := by
        rcases hsize with rfl | rfl | rfl <;> omega
      · decide
      · decide
    rw [hj, bitAt_write (by omega) (by omega) (by decide), hmask, if_neg Bool.false_ne_true,
      if_neg fun h => by omega]
  · rw [bitAt_write_of_out (by omega), bitAt_notice (by decide)]
    refine if_congr ?_ rfl rfl
    constructor
    · rintro ⟨rfl, hne, hval, -⟩
      obtain ⟨h2, hold⟩ := hdiff.mp hne
      rw [hval] at hold
      exact ⟨rfl, by omega, Bool.eq_true_of_not_eq_false hold, hval⟩
    · rintro ⟨rfl, rfl, hold, hval⟩
      refine ⟨rfl, hdiff.mpr ⟨le_rfl, ?_⟩, hval, rfl, rfl⟩
      rw [hold, hval]
      decide

end PciDev

/-! ### What the configuration space is for -/

/-- What is left of the configuration space, seen from the interrupts. -/
structure Interrupts where
  disabled : Bool
  msix : Bool
  pending : Bool
  deriving DecidableEq

/-- Interrupts are disabled and MSI-X is enabled as the driver of the host writes it; an interrupt
without MSI-X is pending until interrupts are enabled again. -/
def Interrupts.step (i : Interrupts) : ConfigOp → Interrupts
  | .write addr size val =>
    if addr = 4 ∧ 2 ≤ size then
      { i with
        disabled := val.testBit 10
        pending := i.pending && !(decide (size = 2) && i.disabled && !val.testBit 10) }
    else if addr = 82 ∧ 2 ≤ size then { i with msix := val.testBit 15 }
    else i
  | .signalIrq => { i with pending := i.pending || !i.msix }

/-- The registers and what the driver keeps of them agree on the interrupts. -/
structure PciDev.Represents (d : PciDev) (i : Interrupts) : Prop where
  disabled : d.intxDisabled = i.disabled
  command : bitAt d.virtDev 5 2 = i.disabled
  msix : d.pdev = some i.msix
  flags : bitAt d.virtDev 83 7 = i.msix
  pending : bitAt d.virtDev 6 3 = i.pending

/-- The bits that may not change are the same. -/
def PciDev.SameReadOnly (d d' : PciDev) : Prop :=
  ∀ a b, b < 8 → ¬ ConfigWritable a b → bitAt d'.virtDev a b = bitAt d.virtDev a b

/-- The steps one after the other. -/
def PciDev.run (d : PciDev) : List ConfigOp → Except Fault PciDev
  | [] => .ok d
  | op :: ops => (d.exec op).bind fun d => d.run ops

namespace PciDev

variable {d : PciDev} {i : Interrupts} {addr val : ℕ}

/-- A write, seen from the interrupts. -/
theorem Represents.write (h : d.Represents i) (hw : (ConfigOp.write addr size val).WellFormed) :
    (d.nvmevPciWrite addr size val).Represents (i.step (.write addr size val)) := by
  have hcommand := bitAt_write_followed (d := d) hw (.inl ⟨rfl, rfl⟩)
  have hflags := bitAt_write_followed (d := d) hw (.inr ⟨rfl, rfl⟩)
  have hstatus := bitAt_write_status (d := d) hw
  have hdisabled := intxDisabled_write hw (h.disabled.trans h.command.symm)
  have hmsix := pdev_write hw (h.msix.trans (congrArg some h.flags.symm))
  rw [h.command] at hcommand hstatus hdisabled
  rw [h.flags] at hflags hmsix
  rw [h.pending] at hstatus
  simp only [Interrupts.step]
  by_cases hcmd : addr = 4 ∧ 2 ≤ size
  · have hne : ¬ (addr = 82 ∧ 2 ≤ size) := by omega
    rw [if_pos hcmd] at hcommand hdisabled ⊢
    rw [if_neg hne] at hflags hmsix
    refine ⟨hdisabled, hcommand, hmsix, hflags, hstatus.trans ?_⟩
    by_cases h2 : size = 2 <;> cases i.disabled <;> cases val.testBit 10 <;> simp [hcmd.1, h2]
  · rw [if_neg hcmd] at hcommand hdisabled ⊢
    rw [if_neg fun hk => hcmd ⟨hk.1, hk.2.1.ge⟩] at hstatus
    by_cases hfl : addr = 82 ∧ 2 ≤ size
    · rw [if_pos hfl] at hflags hmsix ⊢
      exact ⟨hdisabled, hcommand, hmsix, hflags, hstatus⟩
    · rw [if_neg hfl] at hflags hmsix ⊢
      exact ⟨hdisabled, hcommand, hmsix, hflags, hstatus⟩

/-- An interrupt sets the status bit, where MSI-X does not take it. -/
theorem Represents.signalIrq (h : d.Represents i) :
    ∃ d', d.nvmevSignalIrq = .ok d' ∧ d'.Represents (i.step .signalIrq) ∧ d.SameReadOnly d' := by
  unfold nvmevSignalIrq
  rw [h.msix]
  cases hx : i.msix
  · refine ⟨_, rfl, ⟨h.disabled, ?_, congrArg some hx.symm, ?_, ?_⟩, fun a b hb ha => ?_⟩
    · exact (bitAt_setInterruptStatus (by decide)).trans h.command
    · exact (bitAt_setInterruptStatus (by decide)).trans h.flags
    · refine (bitAt_setInterruptStatus (by decide)).trans ?_
      simp [Interrupts.step, hx]
    · have hstatus : ¬ (a = 6 ∧ b = 3) := fun hat => ha (.inr (.inl hat))
      exact (bitAt_setInterruptStatus hb).trans (if_neg hstatus)
  · refine ⟨d, rfl, ⟨h.disabled, h.command, h.msix, h.flags, ?_⟩, fun _ _ _ _ => rfl⟩
    simp [Interrupts.step, hx, h.pending]

/-- One step. -/
theorem Represents.exec {op : ConfigOp} (h : d.Represents i) (hop : op.WellFormed) :
    ∃ d', d.exec op = .ok d' ∧ d'.Represents (i.step op) ∧ d.SameReadOnly d' := by
  cases op with
  | write addr size val => exact ⟨_, rfl, h.write hop, fun _ _ hb ha => write_keeps hop hb ha⟩
  | signalIrq => exact h.signalIrq

end PciDev

/-- **The configuration space is three bits over read-only registers:** whatever the host writes
and whatever interrupts there are, no step fails, the registers and what the driver keeps of them
agree with the interrupts, and the bits outside the masks are as they were. -/
theorem pciConfig_refines_interrupts {d : PciDev} {i : Interrupts} {ops : List ConfigOp}
    (h : d.Represents i) (hops : ∀ op ∈ ops, op.WellFormed) :
    ∃ d', d.run ops = .ok d' ∧ d'.Represents (ops.foldl Interrupts.step i) ∧
      d.SameReadOnly d' := by
  induction ops generalizing d i with
  | nil => exact ⟨d, rfl, h, fun _ _ _ _ => rfl⟩
  | cons op ops ih =>
    obtain ⟨e, hexec, hrep, hsame⟩ := h.exec (hops op List.mem_cons_self)
    obtain ⟨d', hrun, hrep', hsame'⟩ := ih hrep fun o ho => hops o (List.mem_cons_of_mem op ho)
    refine ⟨d', ?_, hrep', fun a b hb ha => (hsame' a b hb ha).trans (hsame a b hb ha)⟩
    rw [PciDev.run, hexec, Except.bind]
    exact hrun

/-- An interrupt stays pending when a double word enables interrupts again. -/
theorem pciConfig_refines_interrupts_reenabled :
    ∃ d', (PciDev.mk (fun _ => 0) false (some false)).run
        [.signalIrq, .write 4 2 0x400, .write 4 4 0, .write 82 2 0x8000] = .ok d' ∧
      d'.Represents ⟨false, true, true⟩ ∧
      (PciDev.mk (fun _ => 0) false (some false)).SameReadOnly d' :=
  pciConfig_refines_interrupts (i := ⟨false, false, false⟩) ⟨rfl, rfl, rfl, rfl, rfl⟩ (by decide)

end NvmeVirt
