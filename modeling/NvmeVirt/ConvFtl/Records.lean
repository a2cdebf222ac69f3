/-
# The records of a snapshot

`save_device` writes a record of 4 KiB for every entry of the reverse table that
names a logical page.  The records are one of each mapped page exactly when no
entry is stale.  A host write clears the entry of the page it leaves; a
collection that copies a page does not.
-/

import NvmeVirt.ConvFtl.Reachable
import NvmeVirt.ConvFtl.Snapshot

namespace NvmeVirt

open Outcome LittleEndian

/-! ### What is written -/

namespace ConvDevice

variable (lineAddr : ℕ → ℕ) (d : ConvDevice)

/-- The records of instance `q`. -/
def records (q : ℕ) : List UInt8 :=
  (d.ns.ftls q).recordLpns.flatMap fun lpn =>
    readBytes d.storage (recordAddr d.ns.nrParts q lpn) pageSize

/-- The part of the file that holds instance `q`. -/
def partBytes (q : ℕ) : List UInt8 :=
  ((d.ns.ftls q).sections lineAddr).flatten ++ d.records q

end ConvDevice

/-- A cursor compared with the size of a page. -/
theorem inPage_iff (c : ℕ) (_ : c ≤ pageSize) : inPage c ↔ c < pageSize := by
  unfold inPage pageSize at *
  omega

namespace FileCalls.Transfers

variable {calls : FileCalls} (h : calls.Transfers) {fuel : ℕ} (hfuel : pageSize < fuel)
include h hfuel

/-- **The records are written** one after the other. -/
theorem saveRecords_done (nrParts q : ℕ) (lpns : List ℕ) (s : Copying) :
    ∃ s', saveRecords calls fuel nrParts q lpns s = (s', .done) ∧ s'.mem = s.mem ∧
      s'.file.bytes = s.file.bytes ++
        lpns.flatMap fun lpn => readBytes s.mem (recordAddr nrParts q lpn) pageSize := by
  induction lpns generalizing s with
  | nil => exact ⟨s, rfl, rfl, by simp⟩
  | cons lpn lpns ih =>
    obtain ⟨s₁, h₁, hmem₁, hbytes₁⟩ := h.copyOut_done inPage (by decide) inPage_iff false
      (recordAddr nrParts q lpn) fuel (Nat.zero_le pageSize) (by omega) s
    obtain ⟨s', h', hmem', hbytes'⟩ := ih s₁
    refine ⟨s', ?_, hmem'.trans hmem₁, ?_⟩
    · rw [saveRecords, show copyLoop inPage false
        (copyOut calls (recordAddr nrParts q lpn) pageSize) fuel 0 s = (s₁, .done) from h₁]
      exact h'
    · rw [hbytes', hbytes₁, hmem₁, List.flatMap_cons, List.append_assoc, Nat.cast_zero, add_zero,
        Nat.sub_zero]

/-- The part of one instance. -/
theorem savePart_done (lineAddr : ℕ → ℕ) (d : ConvDevice) (q : ℕ) {s : Copying}
    (hmem : s.mem = d.storage) :
    ∃ s', d.savePart calls fuel lineAddr q s = (s', .done) ∧ s'.mem = d.storage ∧
      s'.file.bytes = s.file.bytes ++ d.partBytes lineAddr q := by
  obtain ⟨s', h', hmem', hbytes'⟩ := h.saveRecords_done hfuel d.ns.nrParts q
    (d.ns.ftls q).recordLpns
    { s with file := s.file.writeSections calls ((d.ns.ftls q).sections lineAddr) }
  refine ⟨s', h', hmem'.trans hmem, ?_⟩
  rw [hbytes', h.bytes_writeSections, List.append_assoc, hmem]
  rfl

/-- The parts of all instances. -/
theorem saveParts_done (lineAddr : ℕ → ℕ) (d : ConvDevice) (qs : List ℕ) {s : Copying}
    (hmem : s.mem = d.storage) :
    ∃ s', d.saveParts calls fuel lineAddr qs s = (s', .done) ∧
      s'.file.bytes = s.file.bytes ++ qs.flatMap (d.partBytes lineAddr) := by
  induction qs generalizing s with
  | nil => exact ⟨s, rfl, by simp⟩
  | cons q qs ih =>
    obtain ⟨s₁, h₁, hmem₁, hbytes₁⟩ := h.savePart_done hfuel lineAddr d q hmem
    obtain ⟨s', h', hbytes'⟩ := ih hmem₁
    refine ⟨s', ?_, ?_⟩
    · rw [ConvDevice.saveParts, h₁]
      exact h'
    · rw [hbytes', hbytes₁, List.flatMap_cons, List.append_assoc]

/-- **`save_device` writes** the parts of the instances one after the other. -/
theorem saveDevice_done (lineAddr : ℕ → ℕ) (d : ConvDevice) :
    ∃ o, d.saveDevice calls fuel lineAddr (.ok ()) = (o, .returns 0) ∧
      o.bytes = (List.range d.ns.nrParts).flatMap (d.partBytes lineAddr) := by
  obtain ⟨s', h', hbytes'⟩ := h.saveParts_done hfuel lineAddr d (List.range d.ns.nrParts)
    (s := { file := { bytes := [] }, mem := d.storage }) rfl
  refine ⟨s'.file, ?_, hbytes'⟩
  unfold ConvDevice.saveDevice
  dsimp only
  rw [h']

end FileCalls.Transfers

/-! ### Which records there are -/

namespace ConvFtl

variable {f : ConvFtl} {l : ℕ}

/-- **One record of each mapped logical page** and no other. -/
def RecordsExact (f : ConvFtl) : Prop :=
  f.recordLpns.Nodup ∧ ∀ l, l ∈ f.recordLpns ↔ l ∈ f.mappedLpns

theorem mem_recordLpns : l ∈ f.recordLpns ↔
    ∃ i, i < f.ssd.sp.ttPgs ∧ f.rmap i ≠ invalidLpn ∧ f.rmap i = l := by
  simp only [recordLpns, List.mem_map, List.mem_filter, List.mem_range, decide_eq_true_eq,
    and_assoc]

/-- No logical page has the number of the marker `INVALID_LPN`. -/
theorem Inv.ne_invalidLpn (h : f.Inv) (hl : l < f.ssd.sp.ttPgs) : l ≠ invalidLpn := by
  obtain ⟨front, hs⟩ := h.sound
  have := hs.geom.ttPgs_lt
  unfold invalidLpn
  omega

/-- The reverse table names every mapped logical page at its page. -/
theorem Inv.rmap_mapped (h : f.Inv) (hl : l ∈ f.mappedLpns) :
    f.ssd.sp.pgidx (f.maptbl l) < f.ssd.sp.ttPgs ∧ f.rmap (f.ssd.sp.pgidx (f.maptbl l)) = l := by
  obtain ⟨front, hs⟩ := h.sound
  obtain ⟨⟨h1, h2, -⟩, h3⟩ := h.map.forward l hl.1 _ (if_pos hl.2)
  obtain ⟨d, k, i, hd, hk, hi, hp⟩ := Ssdparams.exists_pageAt hs.geom.layout h1 h2
  exact ⟨hp ▸ Ssdparams.pgidx_lt hs.geom.layout hd hk hi, h3⟩

/-- **The records are exact if and only if no reverse entry is stale.** -/
theorem Inv.recordsExact_iff (h : f.Inv) : f.RecordsExact ↔ f.ReverseCurrent := by
  have hinj : f.recordLpns.Nodup ↔ ∀ i, i < f.ssd.sp.ttPgs → f.rmap i ≠ invalidLpn →
      ∀ j, j < f.ssd.sp.ttPgs → f.rmap j ≠ invalidLpn → f.rmap i = f.rmap j → i = j := by
    unfold recordLpns
    rw [List.nodup_map_iff_inj_on (List.nodup_range.filter _)]
    simp only [List.mem_filter, List.mem_range, decide_eq_true_eq, and_imp]
  constructor
  · rintro ⟨hnd, hmem⟩ i hi hne
    obtain ⟨hlt, hmap⟩ := (hmem _).1 (mem_recordLpns.2 ⟨i, hi, hne, rfl⟩)
    obtain ⟨hidx, hr⟩ := h.rmap_mapped ⟨hlt, hmap⟩
    exact ⟨hlt, hmap, hinj.1 hnd _ hidx (by rwa [hr]) i hi hne hr⟩
  · intro hc
    refine ⟨hinj.2 fun i hi hne j hj hne' he => ?_, fun l => ?_⟩
    · rw [← (hc i hi hne).2.2, he, (hc j hj hne').2.2]
    · rw [mem_recordLpns]
      constructor
      · rintro ⟨i, hi, hne, rfl⟩
        exact ⟨(hc i hi hne).1, (hc i hi hne).2.1⟩
      · intro hl
        obtain ⟨hidx, hr⟩ := h.rmap_mapped hl
        exact ⟨_, hidx, by rw [hr]; exact h.ne_invalidLpn hl.1, hr⟩

end ConvFtl

/-- A fresh instance has no reverse entries and no copies. -/
theorem convInitNamespace_current {size : ℕ} {cfg : FtlConfigs} {ns : ConvNs}
    (h : convInitNamespace size cfg = .ok ns) (q : ℕ) :
    (ns.ftls q).ReverseCurrent ∧ (ns.ftls q).gcCopies = 0 ∧ (ns.ftls q).RmapNames := by
  unfold convInitNamespace at h
  simp only [bind_eq_ok] at h
  obtain ⟨spp, -, ftl, hftl, h⟩ := h
  cases h
  unfold convInitFtl at hftl
  simp only [bind_eq_ok] at hftl
  obtain ⟨-, -, _, -, _, -, _, -, hftl⟩ := hftl
  cases hftl
  exact ⟨fun i _ hne => absurd rfl hne, rfl, fun i _ hne => absurd rfl hne⟩

/-- **The records of a snapshot are one of each mapped page** exactly when no reverse entry is
stale, which is so after every run in which no collection had to copy a page; and the file holds
these records. -/
theorem convRun_recordsExact_iff (size : ℕ) (cfg : FtlConfigs) {ns₀ ns : ConvNs}
    (hinit : convInitNamespace size cfg = .ok ns₀) (hfit : ns₀.sp.FitsPpa) (ops : List ConvOp)
    (hrun : runList ConvNs.exec ns₀ ops = .ok ns) :
    (∀ q, q < ns₀.nrParts →
      ((ns.ftls q).RecordsExact ↔ (ns.ftls q).ReverseCurrent) ∧
      ((ns.ftls q).gcCopies = 0 → (ns.ftls q).RecordsExact)) ∧
    ∀ calls : FileCalls, calls.Transfers → ∀ fuel, pageSize < fuel → ∀ (lineAddr : ℕ → ℕ)
      (d : ConvDevice), d.ns = ns →
      ∃ o, d.saveDevice calls fuel lineAddr (.ok ()) = (o, .returns 0) ∧
        o.bytes = (List.range ns.nrParts).flatMap (d.partBytes lineAddr) := by
  have hk := ((convInitNamespace_inv hinit hfit).1.run ops).of_ok hrun
  refine ⟨fun q hq => ?_, fun calls h fuel hfuel lineAddr d hd => ?_⟩
  · have hi := hk.inv.ftl q (by rw [hk.nrParts]; exact hq)
    obtain ⟨hcur, h0, -⟩ := convInitNamespace_current hinit q
    exact ⟨hi.recordsExact_iff, fun hc =>
      hi.recordsExact_iff.2 ((hk.ftl q hq).current (hc.trans h0.symm) hcur)⟩
  · subst hd
    exact h.saveDevice_done hfuel lineAddr d

/-- Two pages are written three times: the first line is collected without a valid page on it, and
there is one record of each page. -/
theorem convRun_recordsExact_erased : ∃ (d : ConvDevice) (o : OpenFile),
    ((d.ns.ftls 0).ssd.blk ⟨0, 0, 0, 0⟩).eraseCnt = 1 ∧
      (d.ns.ftls 0).RecordsExact ∧ (d.ns.ftls 0).recordLpns = [0, 1] ∧
      d.saveDevice .whole (pageSize + 1) (fun l => l) (.ok ()) = (o, .returns 0) ∧
      o.bytes = (List.range d.ns.nrParts).flatMap (d.partBytes fun l => l) := by
  obtain ⟨ns₀, hinit, hns₀⟩ := exists_ok_of_any (x := convInitNamespace tinySize tinyConfigs)
    (p := fun ns₀ : ConvNs =>
      decide (((ns₀.sp.nchs ≤ 2 ^ 8 ∧ ns₀.sp.lunsPerCh ≤ 2 ^ 8) ∧
        ns₀.sp.blksPerPl ≤ 2 ^ 16 ∧ ns₀.sp.pgsPerBlk ≤ 2 ^ 16) ∧ 0 < ns₀.nrParts) &&
      (runList ConvNs.exec ns₀ [.write 0 15, .release 8192, .write 0 15, .release 8192,
        .write 0 15]).toOption.any fun ns : ConvNs =>
          decide (((ns.ftls 0).ssd.blk ⟨0, 0, 0, 0⟩).eraseCnt = 1 ∧ (ns.ftls 0).gcCopies = 0 ∧
            (ns.ftls 0).recordLpns = [0, 1])) (by decide +kernel)
  obtain ⟨hfits, hns⟩ := Bool.and_eq_true_iff.1 hns₀
  obtain ⟨⟨⟨hnchs, hluns⟩, hblks, hpgs⟩, hparts⟩ := of_decide_eq_true hfits
  obtain ⟨ns, hrun, hns⟩ := exists_ok_of_any hns
  obtain ⟨herase, hcopies, hrecords⟩ := of_decide_eq_true hns
  obtain ⟨hexact, hfile⟩ := convRun_recordsExact_iff tinySize tinyConfigs hinit
    ⟨hnchs, hluns, hblks, hpgs⟩ _ hrun
  obtain ⟨o, ho, hbytes⟩ := hfile .whole FileCalls.whole_transfers (pageSize + 1)
    (Nat.lt_succ_self _) (fun l => l) ⟨ns, 0, fun _ => 0, false⟩ rfl
  exact ⟨_, o, herase, (hexact 0 hparts).2 hcopies, hrecords, ho, hbytes⟩

/-- **A copied page has two records:** two pages fill a line, the first is written three times more,
and the collection of their line copies the second. -/
theorem copiedPage_not_recordsExact : ∃ ns₀ ns, convInitNamespace tinySize tinyConfigs = .ok ns₀ ∧
    ns₀.sp.FitsPpa ∧ 0 < ns₀.nrParts ∧
    runList ConvNs.exec ns₀ [.write 0 15, .release 8192, .write 0 7, .release 4096, .write 0 7,
      .release 4096, .write 0 7] = .ok ns ∧
    (ns.ftls 0).recordLpns = [1, 1, 0] ∧ ¬ (ns.ftls 0).RecordsExact := by
  obtain ⟨ns₀, hinit, hns₀⟩ := exists_ok_of_any (x := convInitNamespace tinySize tinyConfigs)
    (p := fun ns₀ : ConvNs =>
      decide (((ns₀.sp.nchs ≤ 2 ^ 8 ∧ ns₀.sp.lunsPerCh ≤ 2 ^ 8) ∧
        ns₀.sp.blksPerPl ≤ 2 ^ 16 ∧ ns₀.sp.pgsPerBlk ≤ 2 ^ 16) ∧ 0 < ns₀.nrParts) &&
      (runList ConvNs.exec ns₀ [.write 0 15, .release 8192, .write 0 7, .release 4096, .write 0 7,
        .release 4096, .write 0 7]).toOption.any fun ns : ConvNs =>
          decide ((ns.ftls 0).recordLpns = [1, 1, 0])) (by decide +kernel)
  obtain ⟨hfits, hns⟩ := Bool.and_eq_true_iff.1 hns₀
  obtain ⟨⟨⟨hnchs, hluns⟩, hblks, hpgs⟩, hparts⟩ := of_decide_eq_true hfits
  obtain ⟨ns, hrun, hns⟩ := exists_ok_of_any hns
  have hrecords := of_decide_eq_true hns
  refine ⟨ns₀, ns, hinit, ⟨hnchs, hluns, hblks, hpgs⟩, hparts, hrun, hrecords, fun h => ?_⟩
  have hnd := h.1
  rw [hrecords] at hnd
  exact absurd hnd (by decide)

end NvmeVirt
