/-
# The cleaner rewrites a device

`clean_ftl` as a whole.  The chunks of the old table hold every mapped logical page
once, the new namespace is empty, and the rounds of the cleaner move the pages from
the one to the other.  So when the cleaner ends, and it always does, the new
namespace maps the same logical pages and no page of it is invalid; unless the
pages of some partition need more than all its lines but two.
-/

import NvmeVirt.ConvFtl.CleanEnds
import NvmeVirt.ConvFtl.ReadCoverage

namespace NvmeVirt

open Outcome ConvFtl

/-! ### A new namespace with other limits -/

/-- `max_con` is only stored. -/
theorem ssdInitParams_maxCon {capacity nparts : ℕ} {cfg : FtlConfigs} {spp : Ssdparams}
    (h : ssdInitParams capacity nparts cfg = .ok spp) (maxCon : ℕ) :
    ssdInitParams capacity nparts { cfg with maxCon := maxCon } =
      .ok { spp with maxCon := maxCon } := by
  unfold ssdInitParams at h ⊢
  simp only [bind_eq_ok] at h ⊢
  obtain ⟨u₁, h₁, u₂, h₂, r, hr, u₃, h₃, u₄, h₄, u₅, h₅, u₆, h₆, os, hos, fl, hfl, ppb, hppb, ppp,
    hppp, bpl, hbpl, ttl, httl, h⟩ := h
  cases h
  exact ⟨u₁, h₁, u₂, h₂, r, hr, u₃, h₃, u₄, h₄, u₅, h₅, u₆, h₆, os, hos, fl, hfl, ppb, hppb, ppp,
    hppp, bpl, hbpl, ttl, httl, rfl⟩

/-- **The namespace is made anew** with the same geometry. -/
theorem convInitNamespace_maxCon {size : ℕ} {cfg : FtlConfigs} {ns : ConvNs}
    (h : convInitNamespace size cfg = .ok ns) (maxCon : ℕ) :
    ∃ ns', convInitNamespace size { cfg with maxCon := maxCon } = .ok ns' ∧
      ns'.nrParts = ns.nrParts ∧ ns'.sp = { ns.sp with maxCon := maxCon } := by
  unfold convInitNamespace at h ⊢
  simp only [bind_eq_ok] at h ⊢
  obtain ⟨spp, hspp, ftl, hftl, h⟩ := h
  cases h
  have hspp' := ssdInitParams_maxCon hspp maxCon
  unfold convInitFtl at hftl ⊢
  simp only [bind_eq_ok] at hftl ⊢
  obtain ⟨u, hu, lm₀, hlm₀, r₁, hr₁, r₂, hr₂, hftl⟩ := hftl
  cases hftl
  exact ⟨_, ⟨_, hspp', _, ⟨u, hu, lm₀, hlm₀, r₁, hr₁, r₂, hr₂, rfl⟩, rfl⟩, rfl, rfl⟩

/-! ### The chunks of the old table -/

section

variable {n q : ℕ}

/-- The pages a chunk stands for, in its partition and in the namespace. -/
theorem LbaChunk.mem_locals {c : LbaChunk} (hn : 0 < n) (hc : c.startLpn % n = q) (l : ℕ) :
    l ∈ c.locals n ↔ l * n + q ∈ c.pages n := by
  have hq : q < n := hc ▸ Nat.mod_lt _ hn
  have hstart : c.startLpn / n * n + q = c.startLpn := by
    rw [← hc, Nat.mul_comm, Nat.div_add_mod]
  have hmod : (l * n + q) % n = q := by
    rw [Nat.add_comm, Nat.add_mul_mod_self_right, Nat.mod_eq_of_lt hq]
  unfold LbaChunk.locals localsFrom LbaChunk.pages
  rw [List.mem_range'_1, Set.mem_ofPred_eq, hmod, hc, and_iff_left rfl]
  have hsteps : ∀ j, c.startLpn + j * n = (c.startLpn / n + j) * n + q := fun j => by
    rw [Nat.add_mul]
    omega
  constructor
  · rintro ⟨hle, hlt⟩
    obtain ⟨j, rfl⟩ := Nat.exists_eq_add_of_le hle
    rw [← hsteps]
    exact ⟨Nat.le_add_right _ _, (lt_stepCount hn).1 (by omega)⟩
  · rintro ⟨hle, hend⟩
    have hfirst : c.startLpn / n ≤ l := by
      by_contra hlt
      have := Nat.mul_le_mul_right n (show l + 1 ≤ c.startLpn / n by omega)
      rw [Nat.add_mul] at this
      omega
    obtain ⟨j, rfl⟩ := Nat.exists_eq_add_of_le hfirst
    rw [← hsteps] at hend
    exact ⟨hfirst, Nat.add_lt_add_left ((lt_stepCount hn).2 hend) _⟩

/-- The order of the chunks does not matter. -/
theorem pagesOf_perm {cs ds : List LbaChunk} (h : cs.Perm ds) : pagesOf n cs = pagesOf n ds :=
  Multiset.coe_eq_coe.2 (h.flatMap_right _)

/-- The pages of several lists of chunks. -/
theorem pagesOf_flatMap_range (f : ℕ → List LbaChunk) (m : ℕ) :
    pagesOf n ((List.range m).flatMap f) = ∑ k ∈ Finset.range m, pagesOf n (f k) := by
  induction m with
  | zero => rfl
  | succ m ih =>
    rw [List.range_succ, List.flatMap_append, List.flatMap_singleton, pagesOf_append, ih,
      Finset.sum_range_succ]

end

namespace ConvNs

variable {old ns : ConvNs} {numList : ℕ} {head : ℕ → List LbaChunk} {spp : Ssdparams}

/-- The mapped pages of the namespace are those of its partitions. -/
theorem Inv.mapped_iff (h : ns.Inv) (l : ℕ) :
    ns.mapped l ↔ l / ns.nrParts ∈ (ns.ftls (l % ns.nrParts)).mappedSet := by
  have hlt : l < ns.totalLpnCount ↔ l / ns.nrParts < ns.sp.ttPgs :=
    (Nat.div_lt_iff_lt_mul h.parts_pos).symm
  rw [mem_mappedSet, h.sp _ (Nat.mod_lt l h.parts_pos)]
  unfold mapped
  rw [hlt]
  unfold ConvFtl.table
  split_ifs with hm <;> simp [hm]

/-- Every chunk in a list of a partition starts in it. -/
theorem createList_start (hn : 0 < old.nrParts) (hn32 : old.nrParts < 2 ^ 32)
    (ht : old.sp.ttPgs < 2 ^ 31) (hl : 0 < numList)
    (hok : old.createListFromTableSplit numList = .ok head) {q : ℕ} (hq : q < old.nrParts) :
    ∀ c ∈ chunksOf numList head q, c.idx = q ∧ c.startLpn % old.nrParts = q := by
  obtain ⟨-, rs, hs, hchunks⟩ := (old.ends_createList hn hl).of_ok hok
  intro c hc
  obtain ⟨r, hr, rfl⟩ := List.mem_map.1 ((hchunks q hq).mem_iff.1 hc)
  have hrun := hs.runs r hr
  have hmap := hrun.all r.1 le_rfl hrun.le
  have htotal : old.totalLpnCount < 2 ^ 63 := by
    have := Nat.mul_lt_mul'' ht hn32
    unfold ConvNs.totalLpnCount
    omega
  refine ⟨rfl, ?_⟩
  unfold chunkOfRun
  rw [dumpChunk_startLpn hn32 hq (hmap.1.trans htotal), start_mod hq]

/-- **The chunks of a partition hold its mapped pages, each of them once.** -/
theorem ExactPartition.pagesOf (hpart : old.ExactPartition numList head) {q : ℕ}
    (hold : old.Inv) (hq : q < old.nrParts)
    (hstart : ∀ c ∈ chunksOf numList head q, c.idx = q ∧ c.startLpn % old.nrParts = q) :
    NvmeVirt.pagesOf old.nrParts (chunksOf numList head q) = (old.ftls q).mappedSet.val := by
  obtain ⟨hdisj, hcover⟩ := hpart q hq
  have hn : 0 < old.nrParts := by omega
  have hnodup : ((chunksOf numList head q).flatMap (LbaChunk.locals old.nrParts)).Nodup := by
    refine List.nodup_flatMap.2 ⟨fun c _ => List.nodup_range', ?_⟩
    refine hdisj.imp_of_mem fun ha hb hab l hla hlb => ?_
    exact Set.disjoint_left.1 hab ((LbaChunk.mem_locals hn (hstart _ ha).2 l).1 hla)
      ((LbaChunk.mem_locals hn (hstart _ hb).2 l).1 hlb)
  refine (Multiset.Nodup.ext (Multiset.coe_nodup.2 hnodup) (old.ftls q).mappedSet.nodup).2
    fun l => ?_
  have hmod : (l * old.nrParts + q) % old.nrParts = q := by
    rw [Nat.add_comm, Nat.add_mul_mod_self_right, Nat.mod_eq_of_lt hq]
  have hdiv : (l * old.nrParts + q) / old.nrParts = l := by
    rw [Nat.add_comm, Nat.add_mul_div_right _ _ hn, Nat.div_eq_of_lt hq, Nat.zero_add]
  have hmem : (∃ c ∈ chunksOf numList head q, l ∈ c.locals old.nrParts) ↔
      old.mapped (l * old.nrParts + q) := by
    constructor
    · rintro ⟨c, hc, hlc⟩
      exact ((hcover _).1 ⟨c, hc, (LbaChunk.mem_locals hn (hstart c hc).2 l).1 hlc⟩).1
    · intro hmap
      obtain ⟨c, hc, hlc⟩ := (hcover _).2 ⟨hmap, hmod⟩
      exact ⟨c, hc, (LbaChunk.mem_locals hn (hstart c hc).2 l).2 hlc⟩
  rw [Multiset.mem_coe, List.mem_flatMap, hmem, hold.mapped_iff, hmod, hdiv]
  rfl

/-! ### The device before and behind the cleaner -/

/-- **Where the cleaner starts:** nothing is mapped, and the pages of the old namespace are
pending. -/
theorem cleanStart_inv (hold : old.Inv) (hparts : ns.nrParts = old.nrParts)
    (hfresh : ∀ q, Fresh convInitParams spp (ns.ftls q))
    (hsound : ∀ q, (ns.ftls q).Sound [] fun _ _ => 0) (hl : 0 < numList)
    (hpart : old.ExactPartition numList head)
    (hstart : ∀ q < old.nrParts, ∀ c ∈ chunksOf numList head q,
      c.idx = q ∧ c.startLpn % old.nrParts = q) :
    (cleanStart ns head).Inv old.nrParts numList spp
      fun q => (old.ftls q).mappedSet.val where
  nrParts := hparts
  index := hold.parts_pos
  chunk := hl
  tidy q _ := ⟨(hfresh q).tidy (hsound q), congrArg Ssd.sp (hfresh q).ssd⟩
  balance q hq := by
    have hpending : (cleanStart ns head).pending old.nrParts numList q =
        NvmeVirt.pagesOf old.nrParts (chunksOf numList head q) := by
      unfold chunksOf
      rw [pagesOf_flatMap_range]
      exact Finset.sum_congr rfl fun k _ =>
        (add_zero _).trans (pagesOf_perm (List.perm_insertionSort _ _))
    rw [hpending, hpart.pagesOf hold hq (hstart q hq)]
    show (ns.ftls q).mappedSet.val + _ = _
    rw [(hfresh q).mappedSet]
    exact zero_add _
  slots q k hq hk := by
    refine ⟨fun c hc => (hstart q hq c ?_).1, fun c hc => absurd hc (List.not_mem_nil), fun hne =>
      absurd rfl hne⟩
    exact List.mem_flatMap.2 ⟨k, List.mem_range.2 hk,
      (List.perm_insertionSort _ _).mem_iff.1 hc⟩

/-- **What the cleaner has to achieve:** the same logical pages are mapped, every page of the new
namespace is free or valid, and no chunk is left. -/
structure Rewritten (old : ConvNs) (numList : ℕ) (s : CleanState) : Prop where
  inv : s.ns.Inv
  nrParts : s.ns.nrParts = old.nrParts
  mapped : ∀ l, s.ns.mapped l ↔ old.mapped l
  once : ∀ q < old.nrParts, ∀ l < old.sp.blksPerPl, ((s.ns.ftls q).lm.lines l).ipc = 0
  written : ∀ k < old.nrParts * numList, s.active k = [] ∧ s.lists k = []

/-- The pages of some partition need more than all its lines but two. -/
def Crowded (old : ConvNs) : Prop :=
  ∃ q < old.nrParts, old.sp.blksPerPl * old.sp.pgsPerLine <
    (old.ftls q).mappedCount + 2 * old.sp.pgsPerLine

/-- Where the loop of the cleaner is over. -/
theorem rewritten_of_finished {s : CleanState} {maxCon : ℕ} (hold : old.Inv)
    (h : s.Inv old.nrParts numList { old.sp with maxCon := maxCon }
      fun q => (old.ftls q).mappedSet.val)
    (hend : ¬ s.Again numList old.nrParts) : Rewritten old numList s := by
  obtain ⟨hwritten, hmapped⟩ := h.finished hend
  have hsp : s.ns.sp = { old.sp with maxCon := maxCon } := (h.tidy 0 hold.parts_pos).2
  have hinv : s.ns.Inv := {
    parts_pos := h.nrParts ▸ hold.parts_pos
    ftl := fun q hq => by
      obtain ⟨⟨⟨front, hs, -⟩, hm, hwr⟩, -⟩ := h.tidy q (h.nrParts ▸ hq)
      exact ⟨⟨front, hs⟩, hm, hwr⟩
    sp := fun q hq => (h.tidy q (h.nrParts ▸ hq)).2.trans hsp.symm }
  refine ⟨hinv, h.nrParts, fun l => ?_, fun q hq l hl => ?_, hwritten⟩
  · rw [hinv.mapped_iff, hold.mapped_iff, h.nrParts,
      Finset.val_injective (hmapped _ (Nat.mod_lt l hold.parts_pos))]
  · obtain ⟨htidy, hq'⟩ := h.tidy q hq
    exact htidy.ipc_eq_zero (by rw [hq']; exact hl)

end ConvNs

/-- All pages of a namespace made anew are free. -/
theorem convInitNamespace_sound {size : ℕ} {cfg : FtlConfigs} {ns : ConvNs}
    (h : convInitNamespace size cfg = .ok ns) (hfit : ns.sp.FitsPpa) (q : ℕ) :
    (ns.ftls q).Sound [] fun _ _ => 0 := by
  unfold convInitNamespace at h
  simp only [bind_eq_ok] at h
  obtain ⟨spp, hspp, ftl, hftl, h⟩ := h
  have hsp : ftl.ssd.sp = spp := (convInitFtl_opened hftl .user).1
  cases h
  exact (convInitFtl_sound hspp (hsp ▸ hfit) hftl).1

variable {size numList : ℕ} {cfg : FtlConfigs} {ns₀ ns : ConvNs} {ops : List ConvOp}
  {limits : ℕ → ℤ}

/-- **Where the rounds of `clean_ftl` begin:** `new` is the namespace made anew, and `head` are the
lists of the old one. -/
structure CleanBegins (old new : ConvNs) (numList maxCon : ℕ) (head : ℕ → List LbaChunk) :
    Prop where
  inv : old.Inv
  ttPgs_lt : old.sp.ttPgs < 2 ^ 31
  sp : new.sp = { old.sp with maxCon := maxCon }
  fits : new.sp.FitsPpa
  lists : old.createListFromTableSplit numList = .ok head
  part : old.ExactPartition numList head
  start : (cleanStart new head).Inv old.nrParts numList { old.sp with maxCon := maxCon }
    fun q => (old.ftls q).mappedSet.val
  writable : ∀ q, q < old.nrParts → Writable { old.sp with maxCon := maxCon }
    (old.ftls q).mappedSet.val

/-- The chunks are an exact partition, and the namespace is made anew. -/
theorem exists_cleanBegins (hinit : convInitNamespace size cfg = .ok ns₀) (hfit : ns₀.sp.FitsPpa)
    (hrun : runList ConvNs.exec ns₀ ops = .ok ns) (hn32 : ns.nrParts < 2 ^ 32)
    (hl : 0 < numList) (hlists : ns.ListsFit numList)
    (hup : ∀ l, l + 1 < ns.nrParts → ns.mapped l → ns.mapped (l + 1)) (maxCon : ℕ) :
    ∃ new head, convInitNamespace size { cfg with maxCon := maxCon } = .ok new ∧
      CleanBegins ns new numList maxCon head := by
  have hk := ((convInitNamespace_inv hinit hfit).1.run ops).of_ok hrun
  have hold := hk.inv
  obtain ⟨new, hnew, hparts, hsp⟩ := convInitNamespace_maxCon hinit maxCon
  rw [← hk.sp] at hsp
  have hfit' : new.sp.FitsPpa := by
    have := hk.sp ▸ hfit
    rw [hsp]
    exact ⟨this.nchs, this.lunsPerCh, this.blksPerPl, this.pgsPerBlk⟩
  have hfresh := (convInitNamespace_inv hnew hfit').2
  have ht : ns.sp.ttPgs < 2 ^ 31 := by
    obtain ⟨front, hs⟩ := (hold.ftl 0 hold.parts_pos).sound
    exact hs.geom.ttPgs_lt
  obtain ⟨head, hhead, hpart⟩ :=
    (exactPartition_iff ns hold.parts_pos hn32 ht hl).2 ⟨hlists, hup⟩
  have hinv := ConvNs.cleanStart_inv hold (hparts.trans hk.nrParts.symm) hfresh
    (convInitNamespace_sound hnew hfit') hl hpart fun q hq =>
      ConvNs.createList_start hold.parts_pos hn32 ht hl hhead hq
  rw [hsp] at hinv
  have hw : ∀ q, q < ns.nrParts → Writable { ns.sp with maxCon := maxCon }
      (ns.ftls q).mappedSet.val := fun q hq =>
    ⟨(ns.ftls q).mappedSet.nodup, fun l hl => by
      have := (mem_mappedSet.1 hl).1
      rwa [hold.sp q hq] at this⟩
  exact ⟨new, head, hnew, hold, ht, hsp, hfit', hhead, hpart, hinv, hw⟩

/-- **The cleaner comes to its end,** and what it ends in holds the pages of the old namespace. -/
theorem CleanBegins.ends {old new : ConvNs} {maxCon : ℕ} {head : ℕ → List LbaChunk}
    (h : CleanBegins old new numList maxCon head)
    (hnew : convInitNamespace size { cfg with maxCon := maxCon } = .ok new) (degree : ℕ)
    (draws : Draws) (hlim : ∀ i, 0 < limits i) :
    ∃ fuel r, cleanFtl old numList size { cfg with maxCon := maxCon } degree draws limits fuel =
        some r ∧
      (cleanStart new head).cleanLoop numList old.nrParts degree draws limits fuel = some r ∧
      Ends r (old.Rewritten numList) fun e => e = .fault .noFreeLine ∧ old.Crowded := by
  have hhalts : (cleanStart new head).Finishes old.nrParts numList degree draws limits 0 :=
    h.start.finishes hlim h.writable
  obtain ⟨fuel, r, hr⟩ := hhalts
  refine ⟨fuel, r, ?_, hr, ?_⟩
  · unfold cleanFtl
    rw [h.lists, hnew]
    exact hr
  · refine (Ends.doWhile (fun i s hs => (CleanState.Inv.round hs h.writable).mono
      (fun t ht => ht.inv) fun e he => he) h.start hr).mono ?_ ?_
    · rintro s ⟨hs, hend⟩
      exact ConvNs.rewritten_of_finished h.inv hs hend
    · rintro e ⟨q, hq, he, hfull⟩
      exact ⟨he, q, hq, hfull⟩

/-- **The cleaner rewrites the device.**  Where the lists fit and no run of mapped pages ends below
the number of the last partition, `clean_ftl` ends, whatever the draws are and whatever positive
bounds it finds for its turns: none of its assertions fails, and the new namespace maps the pages
the old one mapped, each of them written once.  Only if a partition is crowded may it run out of
free lines. -/
theorem cleanFtl_rewrites (hinit : convInitNamespace size cfg = .ok ns₀) (hfit : ns₀.sp.FitsPpa)
    (hrun : runList ConvNs.exec ns₀ ops = .ok ns) (hn32 : ns.nrParts < 2 ^ 32)
    (hl : 0 < numList) (hlists : ns.ListsFit numList)
    (hup : ∀ l, l + 1 < ns.nrParts → ns.mapped l → ns.mapped (l + 1))
    (maxCon degree : ℕ) (draws : Draws) (hlim : ∀ i, 0 < limits i) :
    ∃ fuel r,
      cleanFtl ns numList size { cfg with maxCon := maxCon } degree draws limits fuel = some r ∧
      Ends r (ns.Rewritten numList) fun e => e = .fault .noFreeLine ∧ ns.Crowded := by
  obtain ⟨new, head, hnew, hbegins⟩ := exists_cleanBegins hinit hfit hrun hn32 hl hlists hup maxCon
  obtain ⟨fuel, r, hr, -, hends⟩ := hbegins.ends hnew degree draws hlim
  exact ⟨fuel, r, hr, hends⟩

/-- Two partitions with one page each, the first of them written twice: the cleaner leaves no
invalid page. -/
theorem cleanFtl_rewrites_two : ∃ (ns : ConvNs) (fuel : ℕ) (s : CleanState),
    ((ns.ftls 0).lm.lines 0).ipc = 1 ∧
    cleanFtl ns 1 (2 * tinySize) { twoPartConfigs with maxCon := 2 } 0 (fun _ _ => 0)
      (fun _ => 16) fuel = some (.ok s) ∧
    ns.Rewritten 1 s ∧ ((s.ns.ftls 0).lm.lines 0).ipc = 0 := by
  obtain ⟨ns₀, hinit, hp⟩ := exists_ok_of_any
    (x := convInitNamespace (2 * tinySize) twoPartConfigs)
    (p := fun ns₀ : ConvNs =>
      decide ((ns₀.sp.nchs ≤ 2 ^ 8 ∧ ns₀.sp.lunsPerCh ≤ 2 ^ 8) ∧
        ns₀.sp.blksPerPl ≤ 2 ^ 16 ∧ ns₀.sp.pgsPerBlk ≤ 2 ^ 16) &&
      (runList ConvNs.exec ns₀ [.write 0 15, .release 8192, .write 0 7]).toOption.any
        fun ns : ConvNs => decide (ns.nrParts = 2 ∧ ns.mapped 1 ∧
          ((ns.ftls 0).lm.lines 0).ipc = 1 ∧ 0 < ns.sp.blksPerPl ∧
          ∀ q : Fin 2, (ns.ftls q).mappedCount + 2 * ns.sp.pgsPerLine ≤
            ns.sp.blksPerPl * ns.sp.pgsPerLine)) (by decide +kernel)
  obtain ⟨hfits, hp⟩ := Bool.and_eq_true_iff.1 hp
  obtain ⟨⟨hnchs, hluns⟩, hblks, hpgs⟩ := of_decide_eq_true hfits
  obtain ⟨ns, hrun, hp⟩ := exists_ok_of_any hp
  obtain ⟨hn, hmap, hipc, hpos, hroom⟩ := of_decide_eq_true hp
  have hlim : ∀ i, 0 < (fun _ : ℕ => (16 : ℤ)) i := fun _ => (by decide : (0 : ℤ) < 16)
  obtain ⟨fuel, r, hr, hends⟩ := cleanFtl_rewrites hinit ⟨hnchs, hluns, hblks, hpgs⟩ hrun
    (by omega) Nat.one_pos (.of_lt (by omega) Nat.one_pos (by omega))
    (fun l hl _ => by rwa [show l + 1 = 1 by omega]) 2 0 (fun _ _ => 0) hlim
  have hroomy : ¬ ns.Crowded := by
    rintro ⟨q, hq, hfull⟩
    exact absurd (hroom ⟨q, hn ▸ hq⟩) (not_le.2 hfull)
  obtain ⟨s, hs, hdone⟩ := (hends.mono (fun _ h => h) fun e he => hroomy he.2).exists_ok
  rw [hs] at hr
  exact ⟨ns, fuel, s, hipc, hr, hdone, hdone.once 0 (by omega) 0 hpos⟩

end NvmeVirt
