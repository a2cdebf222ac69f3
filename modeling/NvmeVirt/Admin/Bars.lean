/-
# The controller registers

`nvmev_proc_bars` of `pci.c` compares the registers with their shadow copies and
handles one difference a call; `nvmev_proc_dbs` of `main.c` comes after it in the
loop of the dispatcher.  Registers nothing is done about are left out.
-/

import NvmeVirt.Admin.Answers

namespace NvmeVirt

open Outcome

/-- `struct nvme_ctrl_regs`, the registers that are compared and `csts`. -/
structure CtrlRegs where
  aqa : ℕ
  asq : ℕ
  acq : ℕ
  cc : ℕ
  rdy : ℕ
  shst : ℕ
  deriving DecidableEq, Repr

/-- `struct __nvme_bar`, the shadow copies. -/
structure OldBar where
  aqa : ℕ
  asq : ℕ
  acq : ℕ
  cc : ℕ
  deriving DecidableEq, Repr

/-- `aqa.asqs`, zero-based. -/
def aqaAsqs (aqa : ℕ) : ℕ := aqa % 2 ^ 12

/-- `aqa.acqs`, zero-based. -/
def aqaAcqs (aqa : ℕ) : ℕ := aqa / 2 ^ 16 % 2 ^ 12

/-- `cc.en`. -/
def ccEn (cc : ℕ) : ℕ := cc % 2

/-- `cc.shn`. -/
def ccShn (cc : ℕ) : ℕ := cc / 2 ^ 14 % 4

/-- The device with its registers. -/
structure BarDev where
  adm : AdminDev
  bar : CtrlRegs
  oldBar : OldBar

/-- `dbs[i] = old_dbs[i] = 0`. -/
def AdminDev.zeroDb (d : AdminDev) (i : ℕ) : AdminDev :=
  { d with dbs := Function.update d.dbs i 0, oldDbs := Function.update d.oldDbs i 0 }

/-- `nvmev_proc_dbs` on the submission doorbell of the admin queue. -/
def AdminDev.procAdminSqDb (d : AdminDev) : Except AdminStop AdminDev :=
  let newDb := d.dbs 0
  if newDb ≠ d.oldDbs 0 then do
    let d ← d.procAdminSq newDb (d.oldDbs 0)
    .ok { d with oldDbs := Function.update d.oldDbs 0 newDb }
  else .ok d

/-- `nvmev_proc_dbs` on the doorbells of the admin queue. -/
def AdminDev.procAdminDbs (d : AdminDev) : Except AdminStop AdminDev := do
  let d ← d.procAdminSqDb
  .ok { d with oldDbs := Function.update d.oldDbs 1 (d.dbs 1) }

namespace BarDev

variable (b : BarDev)

/-- A fresh admin queue. -/
def kzallocQueue : AdminQueue where
  phase := false
  sqDepth := 0
  cqDepth := 0
  cqHead := 0
  nvmeSq := none
  nvmeCq := none

/-- A new `aqa`. -/
def newAqa : BarDev :=
  let q := b.adm.adminQ.getD kzallocQueue
  { b with
    adm := ({ b.adm with adminQ := some { q with
      cqHead := 0, phase := true, sqDepth := aqaAsqs b.bar.aqa + 1
      cqDepth := aqaAcqs b.bar.aqa + 1 } }.zeroDb 0).zeroDb 1
    oldBar.aqa := b.bar.aqa }

/-- A new `asq`; without an admin queue it is left for later. -/
def newAsq : BarDev :=
  match b.adm.adminQ with
  | none => b
  | some q =>
    let sqDepth := aqaAsqs b.bar.aqa + 1
    { b with
      adm := { b.adm with adminQ := some { q with
        sqDepth := sqDepth
        nvmeSq := some ⟨prpPfn b.bar.asq, divRoundUp (sqDepth * 64) pageSize⟩ } }.zeroDb 0
      oldBar.asq := b.bar.asq }

/-- A new `acq`; without an admin queue it is left for later. -/
def newAcq : BarDev :=
  match b.adm.adminQ with
  | none => b
  | some q =>
    let cqDepth := aqaAcqs b.bar.aqa + 1
    { b with
      adm := { b.adm with adminQ := some { q with
        cqDepth := cqDepth
        cqHead := 0
        nvmeCq := some ⟨prpPfn b.bar.acq, divRoundUp (cqDepth * 16) pageSize⟩ } }.zeroDb 1
      oldBar.acq := b.bar.acq }

/-- `csts.rdy` after a new `cc`. -/
def newRdy : ℕ :=
  if ccEn b.bar.cc = 1 then if b.adm.adminQ.isSome then 1 else b.bar.rdy else 0

/-- A new `cc`; a shutdown writes through `admin_q`. -/
def newCc : Except AdminStop BarDev :=
  let b' := { b with bar.rdy := b.newRdy, oldBar.cc := b.bar.cc }
  if ccShn b.bar.cc = 1 then
    match b.adm.adminQ with
    | none => .error .undefined
    | some q => .ok { b' with
        adm := ({ b.adm with adminQ := some { q with cqHead := 0 } }.zeroDb 0).zeroDb 1
        bar.shst := 2 }
  else .ok b'

/-- `nvmev_proc_bars`. -/
def procBars : Except AdminStop BarDev :=
  if b.oldBar.aqa ≠ b.bar.aqa then .ok b.newAqa
  else if b.oldBar.asq ≠ b.bar.asq then .ok b.newAsq
  else if b.oldBar.acq ≠ b.bar.acq then .ok b.newAcq
  else if b.oldBar.cc ≠ b.bar.cc then b.newCc
  else .ok b

/-- No register differs from its shadow copy. -/
def Settled : Prop :=
  b.oldBar.aqa = b.bar.aqa ∧ b.oldBar.asq = b.bar.asq ∧ b.oldBar.acq = b.bar.acq ∧
    b.oldBar.cc = b.bar.cc

instance : Decidable b.Settled := inferInstanceAs (Decidable (_ ∧ _))

/-- `nvmev_proc_bars` until no register differs from its shadow copy, at most `n` times. -/
def settle : ℕ → BarDev → Except AdminStop BarDev
  | 0, b => .ok b
  | n + 1, b => if b.Settled then .ok b else do
    let b ← b.procBars
    settle n b

end BarDev

/-- A register write of the host. -/
inductive RegWrite
  | aqa (v : ℕ)
  | asq (v : ℕ)
  | acq (v : ℕ)
  | cc (v : ℕ)
  deriving DecidableEq, Repr

/-- A register write of the host or a call of `nvmev_proc_bars`. -/
inductive BarOp
  | write (w : RegWrite)
  | poll
  deriving DecidableEq, Repr

/-- The register writes among the steps. -/
def BarOp.writes : List BarOp → List RegWrite
  | [] => []
  | .write w :: ops => w :: BarOp.writes ops
  | .poll :: ops => BarOp.writes ops

namespace BarDev

/-- The host writes a register. -/
def write (b : BarDev) : RegWrite → BarDev
  | .aqa v => { b with bar.aqa := v }
  | .asq v => { b with bar.asq := v }
  | .acq v => { b with bar.acq := v }
  | .cc v => { b with bar.cc := v }

/-- A sequence of steps. -/
def run : List BarOp → BarDev → Except AdminStop BarDev
  | [], b => .ok b
  | .write w :: ops, b => run ops (b.write w)
  | .poll :: ops, b => do
    let b ← b.procBars
    run ops b

/-- The reset of a controller: the host disables it and waits, rewrites the registers of the admin
queue while the dispatcher polls now and then, enables the controller again and waits. -/
def reset (b : BarDev) (disable : ℕ) (ops : List BarOp) (enable : ℕ) : Except AdminStop BarDev := do
  let b ← settle 4 (b.write (.cc disable))
  let b ← run ops b
  settle 4 (b.write (.cc enable))

/-- **The first admin command** the host submits is taken from slot 0, and its completion is posted
at slot 0 with phase 1, whatever the host has in its two rings. -/
def FirstAtSlotZero (b : BarDev) : Prop :=
  ∀ sqPages cqPages,
    AdminDev.Answerable b.adm.ns (sqPages (prpPfn b.bar.asq) 0) →
      ∃ d c, AdminDev.procAdminDbs { b.adm with
          sqPages := sqPages, cqPages := cqPages, dbs := Function.update b.adm.dbs 0 1 } = .ok d ∧
        d.history.taken = b.adm.history.taken ++ [0] ∧
        d.history.posted = b.adm.history.posted ++ [c] ∧
        c.commandId = (sqPages (prpPfn b.bar.asq) 0).commandId ∧
        c.status.testBit 0 = true ∧ d.cqPages (prpPfn b.bar.acq) 0 = c

end BarDev

end NvmeVirt
