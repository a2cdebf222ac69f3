/-
# The effect of a collection

`do_gc` moves the logical pages of its victim to pages that were free, erases the
victim's blocks once each and puts the line at the end of the free list; whatever
is not on the victim stays.  When it picks no victim, nothing changes.
-/

import NvmeVirt.ConvFtl.Reachable

namespace NvmeVirt

open Outcome Inverse

namespace ConvFtl

variable {f f' : ConvFtl} {v l : ℕ} {front front' : ℕ × ℕ → ℕ → ℕ}

/-- The logical page `l` is on line `v`. -/
def OnLine (f : ConvFtl) (v l : ℕ) : Prop := mappedPpa (f.maptbl l) ∧ (f.maptbl l).blk = v

instance (f : ConvFtl) (v l : ℕ) : Decidable (f.OnLine v l) := inferInstanceAs (Decidable (_ ∧ _))

/-- **What a collection of line `v` does,** from `f` to `f'`. -/
structure GcExact (f f' : ConvFtl) (v : ℕ) : Prop where
  victim : v ∈ f.place .victim
  kept : ∀ l, l < f.ssd.sp.ttPgs → ¬ f.OnLine v l → f'.maptbl l = f.maptbl l
  moved : ∀ l, l < f.ssd.sp.ttPgs → f.OnLine v l →
    mappedPpa (f'.maptbl l) ∧ f'.maptbl l ∈ f'.validPpas ∧ (f'.maptbl l).blk ≠ v ∧
      (f.ssd.getPg (f'.maptbl l)).status = .free
  distinct : Set.InjOn f'.maptbl f'.mappedLpns
  freed : ∀ d ∈ f.ssd.sp.dies, ∀ i, i < f.ssd.sp.pgsPerBlk →
    (f'.ssd.getPg (pageAt d v i)).status = .free
  erased : ∀ d ∈ f.ssd.sp.dies, (f'.ssd.blk (blockAt d v)).eraseCnt =
    (f.ssd.blk (blockAt d v)).eraseCnt + 1
  spared : ∀ a, (∀ d ∈ f.ssd.sp.dies, a ≠ blockAt d v) →
    (f'.ssd.blk a).eraseCnt = (f.ssd.blk a).eraseCnt
  unfreed : ∀ p : Ppa, p.blk ≠ v → (f'.ssd.getPg p).status = .free →
    (f.ssd.getPg p).status = .free
  tail : ∃ rest, rest <:+ f.lm.freeLineList ∧ f'.lm.freeLineList = rest ++ [v]
  counts : (f'.lm.lines v).vpc = 0 ∧ (f'.lm.lines v).ipc = 0

/-- The logical pages on a line are those whose pages are among its valid ones. -/
theorem Sound.onLine_iff (h : f.Sound [] front) (hm : f.MapOk f.table ∅)
    (hl : l < f.ssd.sp.ttPgs) : f.OnLine v l ↔ f.maptbl l ∈ f.validPages v := by
  rw [mem_validPages]
  constructor
  · rintro ⟨hmap, hv⟩
    obtain ⟨⟨h1, h2, h3, -⟩, -⟩ := hm.forward l hl _ (if_pos hmap)
    obtain ⟨d, k, i, hd, -, hi, hp⟩ := Ssdparams.exists_pageAt h.geom.layout h1 h2
    obtain rfl : k = v := by rw [hp] at hv; exact hv
    rw [hp] at h3
    exact ⟨d, hd, i, hi, h3, hp.symm⟩
  · rintro ⟨d, -, i, -, -, hp⟩
    rw [OnLine, ← hp]
    exact ⟨mapped_pageAt _ _ _, rfl⟩

/-- **A finished collection** has that effect. -/
theorem Collected.exact (hc : Collected f f' front front' v) (h : f.Sound [] front)
    (hm : f.MapOk f.table ∅) : GcExact f f' v := by
  obtain ⟨f₂, ht, hf'⟩ := hc.track
  have hfree : v ∈ f'.lm.freeLineList := by
    rw [hf']
    exact List.mem_append_right _ (List.mem_singleton_self v)
  have hinv : f'.Inv := ⟨⟨front', hc.sound⟩, hc.map, hc.written⟩
  have hmaptbl : f'.maptbl = f₂.maptbl := by rw [hf']
  have hssd : f'.ssd = f₂.ssd := by rw [hf']
  have htt : f'.ssd.sp.ttPgs = f.ssd.sp.ttPgs := by rw [hc.sp]
  refine {
    victim := Pqueue.mem_elems.2 hc.queued, kept := fun l hl hon => ?_
    moved := fun l hl hon => ?_, distinct := hinv.bijOn.1.injOn, freed := fun d hd i hi => ?_
    erased := fun d hd => ?_, spared := fun a ha => ?_, unfreed := fun p hp hf => ?_
    tail := ⟨f₂.lm.freeLineList, ht.freeLineList, by rw [hf']; rfl⟩, counts := ?_ }
  · rw [hmaptbl]
    exact ht.kept l fun hv => hon ((h.onLine_iff hm hl).2 hv)
  · obtain ⟨hne, hpg⟩ := ht.moved l hl ((h.onLine_iff hm hl).1 hon)
    rw [← hmaptbl] at hne hpg
    have hmap : mappedPpa (f'.maptbl l) :=
      table_isSome.1 (by rw [hc.dom l]; exact table_isSome.2 hon.1)
    exact ⟨hmap, hinv.bijOn.1.mapsTo ⟨htt ▸ hl, hmap⟩, hne, hpg⟩
  · have hlt := hc.sound.homed.free_lt hfree
    refine ((hc.sound.nand d (hc.sp ▸ hd) v hlt).1.free i (hc.sp ▸ hi)).2 ?_
    rw [hc.sound.free v hfree d (hc.sp ▸ hd)]
    exact Nat.zero_le i
  · rw [hssd]
    exact ht.erased d hd trivial
  · rw [hssd]
    exact ht.spared a fun d hd _ => ha d hd
  · rw [hssd] at hf
    exact ht.free p hp hf
  · rw [hf']
    simp [LineMgmt.markLineFree, LineMgmt.setLine]

/-- A device with a queued line has pages. -/
theorem Sound.pgsPerBlk_pos_of_queued (h : f.Sound [] front) (hq : f.lm.victimLinePq.Mem v) :
    0 < f.ssd.sp.pgsPerBlk := by
  have hsum := (h.line_sum (h.homed.queued_lt hq) (by simp)).trans (h.closed_sum (.inr hq))
  have hpos := h.homed.queued v hq
  refine Nat.pos_of_ne_zero fun h0 => ?_
  rw [h.geom.pgsPerLine, h0, mul_zero] at hsum
  omega

/-- The ways `do_gc` can end. -/
def GcEnds (f : ConvFtl) (r : ConvFtl × ℤ) : Prop :=
  r = (f, -1) ∨ r.2 = 0 ∧ ∃ v, GcExact f r.1 v

/-- **`do_gc`** moves exactly one line's pages or changes nothing; it cannot stop while a line is
free. -/
theorem Inv.doGc (h : f.Inv) (force : Bool) :
    Ends (f.doGc force) f.GcEnds fun _ => f.lm.freeLineList = [] := by
  obtain ⟨⟨front, hs⟩, hm, hw⟩ := h
  cases hsel : f.lm.selectVictimLine f.ssd.sp force with
  | none =>
    unfold ConvFtl.doGc
    dsimp only
    rw [hsel]
    exact .inl rfl
  | some r =>
    obtain ⟨v, lm⟩ := r
    have hq := (hs.homed.selectVictimLine hsel).2.1
    refine (hs.collect hm hw (hs.pgsPerBlk_pos_of_queued hq) hsel).mono (fun r hr => ?_)
      fun _ he => he.2.2
    obtain ⟨h0, front', hc⟩ := hr
    exact .inr ⟨h0, v, hc.exact hs hm⟩

end ConvFtl

end NvmeVirt
