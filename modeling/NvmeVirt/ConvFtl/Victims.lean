/-
# The victim of a collection

`select_victim_line` takes the head off a heap that is ordered by the valid pages
of its lines.  The counts change while the lines are queued, and a snapshot
refills the heap slot by slot; the heap is in order all the same, so that the line
it picks has the fewest valid pages.
-/

import NvmeVirt.ConvFtl.Reloads

namespace NvmeVirt

open Outcome Pqueue

namespace LineMgmt

variable {lm lm' : LineMgmt} {n v : ℕ} {held : List ℕ} {spp : Ssdparams} {force : Bool}

/-- **Greedy choice:** the line `v` taken off the queue has the fewest valid pages, and the queue
that is left has all the other lines, each at its position. -/
structure Greedy (lm lm' : LineMgmt) (v : ℕ) : Prop where
  queued : lm.victimLinePq.Mem v
  min : ∀ l, lm.victimLinePq.Mem l → (lm.lines v).vpc ≤ (lm.lines l).vpc
  others : ∀ l, lm'.victimLinePq.Mem l ↔ lm.victimLinePq.Mem l ∧ l ≠ v
  pos : ∀ i, 1 ≤ i → i < lm'.victimLinePq.size → (lm'.lines (lm'.victimLinePq.d i)).pos = i
  size : lm'.victimLinePq.size + 1 = lm.victimLinePq.size
  count : lm'.victimLineCnt + 1 = lm.victimLineCnt
  unqueued : (lm'.lines v).pos = 0
  stat : ∀ l, (lm'.lines l).stat = (lm.lines l).stat

/-- What `select_victim_line` does when it picks a line. -/
theorem selectVictimLine_eq_some (h : lm.selectVictimLine spp force = some (v, lm')) :
    lm.victimLinePq.pqueuePeek = some v ∧
      lm'.victimLinePq = (lm.victimLinePq.pqueuePop victimOps lm.lines).2.1 ∧
      lm'.victimLineCnt = lm.victimLineCnt - 1 ∧ (lm'.lines v).pos = 0 := by
  unfold LineMgmt.selectVictimLine at h
  cases hpeek : lm.victimLinePq.pqueuePeek with
  | none =>
    rw [hpeek] at h
    cases h
  | some l =>
    rw [hpeek] at h
    dsimp only at h
    split_ifs at h
    cases h
    exact ⟨rfl, rfl, rfl, by simp [setLine]⟩

/-- **The choice is greedy** while the queue is in order. -/
theorem Homed.greedy (h : lm.Homed n held)
    (hsel : lm.selectVictimLine spp force = some (v, lm')) : Greedy lm lm' v := by
  obtain ⟨hpeek, hpq, hcnt, hpos⟩ := selectVictimLine_eq_some hsel
  obtain ⟨hh, hqueued, -, -, hstat⟩ := h.selectVictimLine hsel
  obtain ⟨hne, hroot⟩ := pqueuePeek_eq_some.1 hpeek
  have hsize : 1 < lm.victimLinePq.size := by
    have := h.size_pos
    omega
  have hpop := pqueuePop_requeued victimOps_lawful h.placed hsize
  rw [← hpq, hroot] at hpop
  have hv := h.victimCnt
  have hv' := hh.victimCnt
  exact {
    queued := hqueued
    min := fun l hl => pqueuePeek_min h.ordered hpeek hl
    others := hpop.mem
    pos := hh.placed
    size := by omega
    count := by omega
    unqueued := hpos
    stat := hstat }

end LineMgmt

/-- **The victim has the fewest valid pages** of the queued lines, in every reachable state of a
device and inside its page writes, also once snapshots have been loaded. -/
theorem reachable_greedy {calls : FileCalls} (hcalls : calls.Transfers) {fuel : ℕ}
    (hfuel : pageSize < fuel) (size : ℕ) (cfg : FtlConfigs) {ns₀ : ConvNs}
    (hinit : convInitNamespace size cfg = .ok ns₀) (hfit : ns₀.sp.FitsPpa) {d : ConvDevice}
    (hd : d.Reachable calls fuel ns₀) {q : ℕ} (hq : q < d.ns.nrParts) {f : ConvFtl}
    (hf : (d.ns.ftls q).InPage f) (force : Bool) {v : ℕ} {lm : LineMgmt}
    (hsel : f.lm.selectVictimLine f.ssd.sp force = some (v, lm)) : f.lm.Greedy lm v := by
  obtain ⟨-, front, hs⟩ := ((hd.inv hcalls hfuel hinit hfit).ns.ftl q hq).inPage hf
  exact hs.homed.greedy hsel

/-- Two pages fill a line and one is written again; the device is saved and loaded, and the line is
the victim. -/
theorem reachable_greedy_loaded : ∃ (ns₀ : ConvNs) (d : ConvDevice) (lm : LineMgmt),
    d.Reachable .whole (pageSize + 1) ns₀ ∧
      (d.ns.ftls 0).lm.selectVictimLine (d.ns.ftls 0).ssd.sp true = some (0, lm) ∧
      (d.ns.ftls 0).lm.Greedy lm 0 := by
  obtain ⟨ns₀, hinit, hns₀⟩ := exists_ok_of_any (x := convInitNamespace tinySize tinyConfigs)
    (p := fun ns₀ : ConvNs =>
      decide (((ns₀.sp.nchs ≤ 2 ^ 8 ∧ ns₀.sp.lunsPerCh ≤ 2 ^ 8) ∧
        ns₀.sp.blksPerPl ≤ 2 ^ 16 ∧ ns₀.sp.pgsPerBlk ≤ 2 ^ 16) ∧ 0 < ns₀.nrParts) &&
      (ns₀.exec (.write 0 15)).toOption.any fun ns₁ : ConvNs =>
        (ns₁.exec (.release 8192)).toOption.any fun ns₂ : ConvNs =>
          (ns₂.exec (.write 0 7)).toOption.any fun ns : ConvNs =>
            decide (0 < ns.nrParts) &&
            (((ns.ftls 0).restored (ns.ftls 0) (ns.ftls 0).log).lm.selectVictimLine
              (ns.ftls 0).ssd.sp true).any fun r : ℕ × LineMgmt => decide (r.1 = 0))
    (by decide +kernel)
  obtain ⟨hfits, hns⟩ := Bool.and_eq_true_iff.1 hns₀
  obtain ⟨⟨⟨hnchs, hluns⟩, hblks, hpgs⟩, hparts⟩ := of_decide_eq_true hfits
  obtain ⟨ns₁, hrun₁, hns⟩ := exists_ok_of_any hns
  obtain ⟨ns₂, hrun₂, hns⟩ := exists_ok_of_any hns
  obtain ⟨ns, hrun, hns⟩ := exists_ok_of_any hns
  obtain ⟨hpos, hsel⟩ := Bool.and_eq_true_iff.1 hns
  have hparts' : 0 < ns.nrParts := of_decide_eq_true hpos
  obtain ⟨r, hr, hr0⟩ := (Option.any_eq_true _ _).1 hsel
  have hd : ConvDevice.Reachable .whole (pageSize + 1) ns₀ ⟨ns, tinySize, fun _ => 5, false⟩ :=
    ((ConvDevice.Reachable.init.exec hrun₁).exec hrun₂).exec hrun
  have hfit : ns₀.sp.FitsPpa := ⟨hnchs, hluns, hblks, hpgs⟩
  have hin := hd.inv FileCalls.whole_transfers (Nat.lt_succ_self _) hinit hfit
  have hcfg : ConvDevice.SameConfig ⟨ns, tinySize, fun _ => 5, false⟩
      ⟨ns, tinySize, fun _ => 7, false⟩ := ⟨rfl, rfl, fun _ _ => rfl⟩
  obtain ⟨o, hsave, hload⟩ := ConvDevice.loadDevice_saveDevice FileCalls.whole_transfers
    (Nat.lt_succ_self _) (fun _ => 9) (Nat.le_refl 8) (fun l => l) (fun l => l)
    (fun q => (ns.ftls q).log) (fun q hq => hin.fits hq) hcfg rfl
  have hloaded := hd.load hcfg hsave hload
  have hftl : (ConvDevice.restored ⟨ns, tinySize, fun _ => 5, false⟩
      ⟨ns, tinySize, fun _ => 7, false⟩ fun q => (ns.ftls q).log).ns.ftls 0 =
      (ns.ftls 0).restored (ns.ftls 0) (ns.ftls 0).log := if_pos hparts'
  obtain ⟨v, lm⟩ := r
  obtain rfl : v = 0 := of_decide_eq_true hr0
  rw [← hftl] at hr
  exact ⟨ns₀, _, lm, hloaded, by rw [hftl] at hr ⊢; exact hr,
    reachable_greedy FileCalls.whole_transfers (Nat.lt_succ_self _) tinySize tinyConfigs hinit hfit
      hloaded hparts' .start true hr⟩

end NvmeVirt
