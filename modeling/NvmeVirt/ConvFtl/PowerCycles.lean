/-
# Power cycles of a device

A device is saved and its snapshot is loaded into another device of the same
configuration, any number of times, at any point of its life.  The mapping tables and
the records of the mapped pages last, whatever the other devices held, as long as their
tables were not freed already.  What comes back
is a device in order like the one that was saved: its commands fail no assertion of the
driver, and it can be saved and loaded again.
-/

import NvmeVirt.ConvFtl.Lockstep

namespace NvmeVirt

open Outcome

namespace ConvDevice

/-- **A power cycle:** the device is saved, and the snapshot is loaded over `old`. -/
def PowerCycle (calls : FileCalls) (fuel posRoom : ℕ) (d old d' : ConvDevice) : Prop :=
  ∃ (o : OpenFile) (fresh : ℕ → UInt8) (lineAddr lineAddr' : ℕ → ℕ), d.SameConfig old ∧
    d.saveDevice calls fuel lineAddr (.ok ()) = (o, .returns 0) ∧
    old.loadDevice calls fuel fresh posRoom lineAddr' (fun q => (d.ns.ftls q).log) (.ok o.bytes) =
      .ok (d', 0)

/-- Any number of power cycles, over any devices. -/
def PowerCycles (calls : FileCalls) (fuel posRoom : ℕ) : ConvDevice → ConvDevice → Prop :=
  Relation.ReflTransGen fun d d' => ∃ old, PowerCycle calls fuel posRoom d old d'

/-- **What lasts:** the mapping tables, and the bytes of every mapped page. -/
structure Lasts (d d' : ConvDevice) : Prop where
  nrParts : d'.ns.nrParts = d.ns.nrParts
  sp : ∀ q, q < d.ns.nrParts → (d'.ns.ftls q).ssd.sp = (d.ns.ftls q).ssd.sp
  maptbl : ∀ q, q < d.ns.nrParts → ∀ l, l < (d.ns.ftls q).ssd.sp.ttPgs →
    (d'.ns.ftls q).maptbl l = (d.ns.ftls q).maptbl l
  storage : ∀ q, q < d.ns.nrParts → ∀ l ∈ (d.ns.ftls q).mappedLpns, ∀ x,
    InRecord d.ns.nrParts q l x → d'.storage x = d.storage x

/-- **A device that is consistent:** each mapping table is a bijection onto the valid pages with the
reverse table as its inverse, every line has one home, the counters count, and no run of commands
fails an assertion. -/
structure Consistent (d : ConvDevice) : Prop where
  tables : ∀ q, q < d.ns.nrParts →
    Set.BijOn (d.ns.ftls q).maptbl (d.ns.ftls q).mappedLpns (d.ns.ftls q).validPpas ∧
      Set.InvOn (fun p => (d.ns.ftls q).rmap ((d.ns.ftls q).ssd.sp.pgidx p)) (d.ns.ftls q).maptbl
        (d.ns.ftls q).mappedLpns (d.ns.ftls q).validPpas
  homes : ∀ q, q < d.ns.nrParts → (d.ns.ftls q).HomesOk
  counters : ∀ q, q < d.ns.nrParts → (d.ns.ftls q).CountersOk
  safe : ∀ ops fn, runList ConvNs.exec d.ns ops ≠ .error (.bug fn)

variable {calls : FileCalls} {fuel posRoom : ℕ} {ns₀ : ConvNs} {d d' d'' old : ConvDevice}

/-- Nothing changes without a power cycle. -/
theorem Lasts.refl (d : ConvDevice) : d.Lasts d :=
  ⟨rfl, fun _ _ => rfl, fun _ _ _ _ => rfl, fun _ _ _ _ _ _ => rfl⟩

/-- The same pages are mapped. -/
theorem Lasts.mappedLpns (h : d.Lasts d') {q : ℕ} (hq : q < d.ns.nrParts) :
    (d'.ns.ftls q).mappedLpns = (d.ns.ftls q).mappedLpns := by
  unfold ConvFtl.mappedLpns
  ext l
  rw [Set.mem_ofPred_eq, Set.mem_ofPred_eq, h.sp q hq]
  constructor
  · rintro ⟨hl, hm⟩
    exact ⟨hl, h.maptbl q hq l hl ▸ hm⟩
  · rintro ⟨hl, hm⟩
    exact ⟨hl, (h.maptbl q hq l hl).symm ▸ hm⟩

/-- What lasts twice lasts. -/
theorem Lasts.trans (h : d.Lasts d') (h' : d'.Lasts d'') : d.Lasts d'' := by
  have hparts : ∀ {q}, q < d.ns.nrParts → q < d'.ns.nrParts := fun hq => h.nrParts ▸ hq
  constructor
  · exact h'.nrParts.trans h.nrParts
  · exact fun q hq => (h'.sp q (hparts hq)).trans (h.sp q hq)
  · intro q hq l hl
    have hl' : l < (d'.ns.ftls q).ssd.sp.ttPgs := (h.sp q hq).symm ▸ hl
    exact (h'.maptbl q (hparts hq) l hl').trans (h.maptbl q hq l hl)
  · intro q hq l hl x hx
    have hl' : l ∈ (d'.ns.ftls q).mappedLpns := (h.mappedLpns hq).symm ▸ hl
    have hx' : InRecord d'.ns.nrParts q l x := h.nrParts.symm ▸ hx
    exact (h'.storage q (hparts hq) l hl' x hx').trans (h.storage q hq l hl x hx)

/-- **One power cycle** keeps the tables and the records. -/
theorem Inv.lasts_restored (h : d.Inv) (hcfg : d.SameConfig old) :
    d.Lasts (d.restored old fun q => (d.ns.ftls q).log) := by
  constructor
  · exact hcfg.nrParts
  · intro q hq
    obtain ⟨front, -, heq, -⟩ := h.snapshotEq_restored hcfg hq
    exact heq.sp
  · intro q hq
    obtain ⟨front, -, heq, -⟩ := h.snapshotEq_restored hcfg hq
    exact heq.maptbl
  · intro q hq l hl x hx
    have hrec : d.Recorded d.ns.nrParts x :=
      ⟨q, hq, l, ((h.ns.ftl q hq).mem_recordLpns_iff (h.named q hq)).2 hl, hx⟩
    exact if_pos hrec

/-- A device in order is consistent. -/
theorem Inv.consistent (h : d.Inv) : d.Consistent where
  tables := fun q hq => by
    obtain ⟨hbij, hinv, -⟩ := (h.ns.ftl q hq).bijOn
    exact ⟨hbij, hinv⟩
  homes := fun q hq => by
    obtain ⟨front, hs⟩ := (h.ns.ftl q hq).sound
    exact hs.homesOk
  counters := fun q hq => by
    obtain ⟨front, hs⟩ := (h.ns.ftl q hq).sound
    exact hs.countersOk
  safe := fun ops fn hbug => by
    rcases (h.ns.run ops).of_error hbug with hstop | ⟨hstop, -⟩
    · cases hstop
    · cases hstop

/-- **Power cycles lose nothing:** whatever commands, page writes and earlier snapshots have led to a
device, any number of power cycles keeps its tables and the bytes of its mapped pages, and leaves a
consistent device, which every device of its configuration that has its tables can take over by one
more power cycle, where the stack frame of `load_device` has room behind `pos`. -/
theorem Reachable.powerCycles (hcalls : calls.Transfers) (hfuel : pageSize < fuel) {size : ℕ}
    {cfg : FtlConfigs} (hinit : convInitNamespace size cfg = .ok ns₀) (hfit : ns₀.sp.FitsPpa)
    (h : Reachable calls fuel ns₀ d) (hcycles : PowerCycles calls fuel posRoom d d') :
    d.Lasts d' ∧ d'.Consistent ∧
      ∀ old, d'.SameConfig old → old.removed = false → 8 ≤ posRoom →
        ∃ d'', PowerCycle calls fuel posRoom d' old d'' := by
  have hrun : Reachable calls fuel ns₀ d' ∧ d.Lasts d' := by
    induction hcycles with
    | refl => exact ⟨h, .refl d⟩
    | tail _ hcycle ih =>
      obtain ⟨hreach, hlasts⟩ := ih
      obtain ⟨old, o, fresh, lineAddr, lineAddr', hcfg, hsave, hload⟩ := hcycle
      refine ⟨hreach.load hcfg hsave hload, hlasts.trans ?_⟩
      -- The snapshot of a reachable device is read back.
      have hin := hreach.inv hcalls hfuel hinit hfit
      obtain ⟨hlive, hroom⟩ := live_of_loadDevice hcalls hfuel (fun q hq => hin.fits hq)
        hin.ns.parts_pos hcfg hsave hload
      obtain ⟨o', hsave', hload'⟩ := loadDevice_saveDevice hcalls hfuel fresh hroom lineAddr
        lineAddr' _ (fun q hq => hin.fits hq) hcfg hlive
      cases hsave'.symm.trans hsave
      cases hload'.symm.trans hload
      exact hin.lasts_restored hcfg
  obtain ⟨hreach, hlasts⟩ := hrun
  have hin := hreach.inv hcalls hfuel hinit hfit
  refine ⟨hlasts, hin.consistent, fun old hcfg hlive hroom => ?_⟩
  obtain ⟨o, hsave, hload⟩ := loadDevice_saveDevice hcalls hfuel (fun _ => 0) hroom id id
    (fun q => (d'.ns.ftls q).log) (fun q hq => hin.fits hq) hcfg hlive
  exact ⟨_, o, _, _, _, hcfg, hsave, hload⟩

/-- A page is written and the device is saved and loaded over another one, which holds other
bytes. -/
theorem Reachable.powerCycles_one : ∃ (d d' : ConvDevice),
    PowerCycles .whole (pageSize + 1) 8 d d' ∧ d.Lasts d' ∧ d'.Consistent ∧
      0 ∈ (d'.ns.ftls 0).mappedLpns ∧ d'.storage 0 = 5 := by
  obtain ⟨ns₀, hinit, hns₀⟩ := exists_ok_of_any (x := convInitNamespace tinySize tinyConfigs)
    (p := fun ns₀ : ConvNs =>
      decide ((ns₀.sp.nchs ≤ 2 ^ 8 ∧ ns₀.sp.lunsPerCh ≤ 2 ^ 8) ∧
        ns₀.sp.blksPerPl ≤ 2 ^ 16 ∧ ns₀.sp.pgsPerBlk ≤ 2 ^ 16) &&
      (runList ConvNs.exec ns₀ [.write 0 7]).toOption.any fun ns : ConvNs =>
        decide (0 < ns.nrParts ∧ 0 < (ns.ftls 0).ssd.sp.ttPgs ∧ mappedPpa ((ns.ftls 0).maptbl 0) ∧
          InRecord ns.nrParts 0 0 0)) (by decide +kernel)
  obtain ⟨hfits, hns⟩ := Bool.and_eq_true_iff.1 hns₀
  obtain ⟨⟨hnchs, hluns⟩, hblks, hpgs⟩ := of_decide_eq_true hfits
  obtain ⟨ns, hrun, hns⟩ := exists_ok_of_any hns
  obtain ⟨hparts, hlt, hmapped, hrec⟩ := of_decide_eq_true hns
  have hfit : ns₀.sp.FitsPpa := ⟨hnchs, hluns, hblks, hpgs⟩
  have hd : ConvDevice.Reachable .whole (pageSize + 1) ns₀ ⟨ns, tinySize, fun _ => 5, false⟩ :=
    ConvDevice.Reachable.init.execs hrun
  have hin := hd.inv FileCalls.whole_transfers (Nat.lt_succ_self pageSize) hinit hfit
  have hcfg : ConvDevice.SameConfig ⟨ns, tinySize, fun _ => 5, false⟩
      ⟨ns, tinySize, fun _ => 7, false⟩ := ⟨rfl, rfl, fun _ _ => rfl⟩
  obtain ⟨o, hsave, hload⟩ := loadDevice_saveDevice FileCalls.whole_transfers
    (Nat.lt_succ_self pageSize) (fun _ => 9) (Nat.le_refl 8) (fun l => l) (fun l => l + 64)
    (fun q => (ns.ftls q).log) (fun q hq => hin.fits hq) hcfg rfl
  have hcycles : PowerCycles .whole (pageSize + 1) 8 ⟨ns, tinySize, fun _ => 5, false⟩ _ :=
    Relation.ReflTransGen.single ⟨_, o, _, _, _, hcfg, hsave, hload⟩
  obtain ⟨hlasts, hconsistent, -⟩ := hd.powerCycles FileCalls.whole_transfers
    (Nat.lt_succ_self pageSize) hinit hfit hcycles
  have hmem : (0 : ℕ) ∈ (ns.ftls 0).mappedLpns := ⟨hlt, hmapped⟩
  exact ⟨_, _, hcycles, hlasts, hconsistent, (hlasts.mappedLpns hparts).symm ▸ hmem,
    hlasts.storage 0 hparts 0 hmem 0 hrec⟩

end ConvDevice

end NvmeVirt
