/-
# The mapping tables under a page write

A page write drops the old mapping of a logical page and assigns it the page
under a write pointer (`place`).  Both keep the mapping table and the reverse
table inverse to each other; `remapPage` is the two in a row for a host or
cleaner write.
-/

import NvmeVirt.ConvFtl.AdvanceGc

namespace NvmeVirt

open Outcome Inverse

namespace ConvFtl

variable {f f' : ConvFtl} {vs : List ℕ} {front : ℕ × ℕ → ℕ → ℕ} {m : ℕ → Option Ppa}
  {stale : Finset Ppa} {lpn l i : ℕ} {p q : Ppa} {d : ℕ × ℕ} {io : IoType}

/-! ### Pages and indices -/

/-- Two pages of the geometry with one index are the same page. -/
theorem pgidx_inj_of_valid (g : f.ssd.sp.Geometry) (hp : f.ssd.sp.validPpa p) (hpr : p.rsv = 0)
    (hq : f.ssd.sp.validPpa q) (hqr : q.rsv = 0) (h : f.ssd.sp.pgidx p = f.ssd.sp.pgidx q) :
    p = q := by
  obtain ⟨d, l, i, hd, hl, hi, rfl⟩ := Ssdparams.exists_pageAt g.layout hp hpr
  obtain ⟨e, k, j, he, hk, hj, rfl⟩ := Ssdparams.exists_pageAt g.layout hq hqr
  exact Ssdparams.pgidx_inj g.layout hd he hl hk hi hj h

/-- Two pages of the geometry in one place are the same page. -/
theorem eq_of_place (g : f.ssd.sp.Geometry) (hp : f.ssd.sp.validPpa p) (hpr : p.rsv = 0)
    (hq : f.ssd.sp.validPpa q) (hqr : q.rsv = 0) (hb : p.blkAddr = q.blkAddr) (hpg : p.pg = q.pg) :
    p = q := by
  obtain ⟨d, l, i, hd, hl, hi, rfl⟩ := Ssdparams.exists_pageAt g.layout hp hpr
  obtain ⟨e, k, j, he, hk, hj, rfl⟩ := Ssdparams.exists_pageAt g.layout hq hqr
  simp only [pageAt_blkAddr, blockAt_inj] at hb
  simp only [pageAt_pg] at hpg
  rw [hb.1, hb.2, hpg]

theorem Sound.page_valid (h : f.Sound vs front) (io : IoType) (hppb : 0 < f.ssd.sp.pgsPerBlk) :
    f.ssd.sp.validPpa (f.getWp io).page :=
  Ssdparams.validPpa_pageAt h.geom.layout (h.ptr io).die (h.curline_lt io) ((h.ptr io).room hppb)

theorem Sound.page_free (h : f.Sound vs front) (io : IoType) (hppb : 0 < f.ssd.sp.pgsPerBlk) :
    (f.ssd.getPg (f.getWp io).page).status = .free := by
  have hw := h.ptr io
  have hb := (h.nand _ hw.die _ (h.curline_lt io)).1
  exact (hb.free _ (hw.room hppb)).2 (h.front_page io).le

/-- There is a page in every block of a device that has pages. -/
theorem pgsPerBlk_pos (g : f.ssd.sp.Geometry) (h : lpn < f.ssd.sp.ttPgs) :
    0 < f.ssd.sp.pgsPerBlk := by
  refine Nat.pos_of_ne_zero fun h0 => ?_
  rw [g.ttPgs, g.pgsPerCh, g.pgsPerLun, g.pgsPerPl, h0] at h
  simp at h

theorem ppa2pgidx_eq (h : f.ssd.sp.pgidx p < f.ssd.sp.ttPgs) :
    f.ppa2pgidx p = .ok (f.ssd.sp.pgidx p) := nvmevAssert_bind h _

theorem getRmapEnt_eq (h : f.ssd.sp.pgidx p < f.ssd.sp.ttPgs) :
    f.getRmapEnt p = .ok (f.rmap (f.ssd.sp.pgidx p)) := by
  unfold getRmapEnt
  rw [ppa2pgidx_eq h]
  rfl

theorem setRmapEnt_eq (h : f.ssd.sp.pgidx p < f.ssd.sp.ttPgs) :
    f.setRmapEnt lpn p =
      .ok { f with rmap := Function.update f.rmap (f.ssd.sp.pgidx p) lpn } := by
  unfold setRmapEnt
  rw [ppa2pgidx_eq h]
  rfl

theorem setMaptblEnt_eq (h : lpn < f.ssd.sp.ttPgs) :
    f.setMaptblEnt lpn p = .ok { f with maptbl := Function.update f.maptbl lpn p } :=
  nvmevAssert_bind h _

/-! ### The tables -/

/-- The tables depend on the pages, the two tables and nothing else. -/
theorem MapOk.of_same (h : f.MapOk m stale) (hssd : f'.ssd = f.ssd) (hrmap : f'.rmap = f.rmap) :
    f'.MapOk m stale := by
  unfold MapOk Live at *
  rw [hssd, hrmap]
  exact h

theorem table_of_same (h : f'.maptbl = f.maptbl) : f'.table = f.table := by
  funext l
  simp [table, h]

theorem WrittenMapped.of_same (h : f.WrittenMapped) (hsp : f'.ssd.sp = f.ssd.sp)
    (htab : f'.table = f.table) (hlog : f'.log = f.log) : f'.WrittenMapped := by
  intro io lpn p hp
  rw [hsp, htab]
  exact h io lpn p (by rwa [← hlog])

/-- Nothing else counts for the reverse table to be current. -/
theorem ReverseCurrent.of_same (h : f.ReverseCurrent) (hsp : f'.ssd.sp = f.ssd.sp)
    (hmap : f'.maptbl = f.maptbl) (hrmap : f'.rmap = f.rmap) : f'.ReverseCurrent := by
  unfold ReverseCurrent at *
  rw [hsp, hmap, hrmap]
  exact h

theorem RmapNames.of_same (h : f.RmapNames) (hsp : f'.ssd.sp = f.ssd.sp)
    (htab : f'.table = f.table) (hrmap : f'.rmap = f.rmap) : f'.RmapNames := by
  unfold RmapNames at *
  rw [hsp, htab, hrmap]
  exact h

/-- A store to the mapping table is a store to the table of entries. -/
theorem table_update (hp : mappedPpa p) (h : f'.maptbl = Function.update f.maptbl lpn p) :
    f'.table = Function.update f.table lpn (some p) := by
  funext l
  by_cases hl : l = lpn
  · subst hl
    simp [table, h, hp]
  · simp [table, h, hl]

theorem table_eq_some (h : f.table lpn = some p) : mappedPpa p ∧ f.maptbl lpn = p := by
  unfold table at h
  split_ifs at h with hm
  obtain rfl := Option.some.inj h
  exact ⟨hm, rfl⟩

/-! ### A logical page gets the page under a write pointer -/

/-- **Assigning the page under a write pointer** to an unmapped logical page. -/
theorem Sound.place (h : f.Sound vs front) (hm : f.MapOk m stale) (hlpn : lpn < f.ssd.sp.ttPgs)
    (hnone : m lpn = none) (io : IoType) (hcur : (f.getWp io).curline ∉ vs)
    (hst : (f.getWp io).page ∉ stale) :
    ∃ f', (do
        let f₁ ← (f.note (.handOut io lpn (f.getWp io).page)).setMaptblEnt lpn (f.getWp io).page
        let f₂ ← f₁.setRmapEnt lpn (f.getWp io).page
        f₂.markPageValid (f.getWp io).page) = .ok f' ∧
      f'.Handed vs front io ∧
      f'.MapOk (Function.update m lpn (some (f.getWp io).page)) stale ∧
      Marked (note { f with
        maptbl := Function.update f.maptbl lpn (f.getWp io).page
        rmap := Function.update f.rmap (f.ssd.sp.pgidx (f.getWp io).page) lpn }
        (.handOut io lpn (f.getWp io).page)) f' (f.getWp io).page .valid := by
  have hppb := pgsPerBlk_pos h.geom hlpn
  have hval := h.page_valid io hppb
  have hfree := h.page_free io hppb
  have hw := h.ptr io
  set page := (f.getWp io).page with hpage
  have hidx : f.ssd.sp.pgidx page < f.ssd.sp.ttPgs :=
    Ssdparams.pgidx_lt h.geom.layout hw.die (h.curline_lt io) (hw.room hppb)
  set f₁ : ConvFtl := { f with
    maptbl := Function.update f.maptbl lpn page
    rmap := Function.update f.rmap (f.ssd.sp.pgidx page) lpn } with hf₁
  have h₁ : f₁.Sound vs front := by
    refine {
      geom := h.geom, homed := h.homed, nand := h.nand, stats := h.stats, ptr := fun io => ?_
      free := h.free, closed := h.closed, history := h.history, run := fun io => ?_ }
    · cases io
      · exact h.ptr .user
      · exact h.ptr .gc
    · cases io
      · exact h.run .user
      · exact h.run .gc
  have hpage₁ : (f₁.getWp io).page = page := by cases io <;> rfl
  obtain ⟨f', hf', hh, hmk⟩ := h₁.handOut io lpn (by cases io <;> exact hcur) hppb
  rw [hpage₁] at hf' hmk
  refine ⟨f', ?_, hh, ?_, hmk⟩
  · exact bind_eq_ok.2 ⟨_, setMaptblEnt_eq hlpn, bind_eq_ok.2 ⟨_, setRmapEnt_eq hidx, hf'⟩⟩
  · have hstatus : ∀ w, f.ssd.sp.validPpa w → w.rsv = 0 →
        ((f'.ssd.getPg w).status = .valid ↔ (f.ssd.getPg w).status = .valid ∨ w = page) := by
      intro w hwv hwr
      rw [hmk.status w]
      split_ifs with hc
      · have : w = page := eq_of_place h.geom hwv hwr hval rfl hc.1 hc.2
        simp [this]
      · have hne : w ≠ page := fun he => hc (by rw [he]; exact ⟨rfl, rfl⟩)
        have : (f₁.note (.handOut io lpn page)).ssd.getPg w = f.ssd.getPg w := rfl
        simp [this, hne]
    have hsp : f'.ssd.sp = f.ssd.sp := hmk.sp
    have hrmap : f'.rmap = Function.update f.rmap (f.ssd.sp.pgidx page) lpn := hmk.rmap
    unfold MapOk at hm ⊢
    rw [hsp, hrmap]
    refine hm.assign hlpn hnone ?_ ?_ ?_ ?_
    · rintro ⟨-, -, hv, -⟩
      rw [hfree] at hv
      cases hv
    · intro w
      unfold Live
      rw [hsp]
      constructor
      · rintro ⟨h1, h2, h3, h4⟩
        rcases (hstatus w h1 h2).1 h3 with h3 | h3
        · exact .inl ⟨h1, h2, h3, h4⟩
        · exact .inr h3
      · rintro (⟨h1, h2, h3, h4⟩ | rfl)
        · exact ⟨h1, h2, (hstatus w h1 h2).2 (.inl h3), h4⟩
        · exact ⟨hval, rfl, (hstatus _ hval rfl).2 (.inr rfl), hst⟩
    · simp
    · rintro w ⟨h1, h2, h3, -⟩
      refine Function.update_of_ne (fun he => ?_) _ _
      have : w = page := pgidx_inj_of_valid h.geom h1 h2 hval rfl he
      rw [this, hfree] at h3
      cases h3

/-! ### Host and cleaner writes -/

/-- **The old mapping of a logical page is dropped** before it is written again. -/
theorem Sound.invalidateOld (h : f.Sound [] front) (hm : f.MapOk f.table ∅)
    (hlpn : lpn < f.ssd.sp.ttPgs) :
    ∃ f', f.invalidateOld (f.maptbl lpn) = .ok f' ∧
      f'.Sound [] front ∧ f'.MapOk (Function.update f.table lpn none) ∅ ∧
      f'.ssd.sp = f.ssd.sp ∧ f'.maptbl = f.maptbl ∧ f'.log = f.log ∧ f'.wp = f.wp ∧
      f'.wfc = f.wfc ∧ f'.cp = f.cp ∧ f'.rmap = if mappedPpa (f.maptbl lpn) then
        Function.update f.rmap (f.ssd.sp.pgidx (f.maptbl lpn)) invalidLpn else f.rmap := by
  unfold ConvFtl.invalidateOld
  split_ifs with hmap
  · have htab : f.table lpn = some (f.maptbl lpn) := if_pos hmap
    set p := f.maptbl lpn with hp
    obtain ⟨⟨hv, hr, hs, -⟩, -⟩ := hm.forward lpn hlpn p htab
    obtain ⟨d, l, i, hd, hl, hi, hpe⟩ := Ssdparams.exists_pageAt h.geom.layout hv hr
    rw [hpe] at hs
    obtain ⟨f₁, hf₁, h₁, hmk⟩ := h.markPageInvalid hd hl (by simp) hi hs
    rw [← hpe] at hf₁ hmk hs
    have hidx : f₁.ssd.sp.pgidx p < f₁.ssd.sp.ttPgs := by
      rw [hmk.sp, hpe]
      exact Ssdparams.pgidx_lt h.geom.layout hd hl hi
    refine ⟨{ f₁ with rmap := Function.update f₁.rmap (f₁.ssd.sp.pgidx p) invalidLpn }, ?_, ?_, ?_,
      hmk.sp, hmk.maptbl, hmk.log, hmk.wp, hmk.wfc, hmk.cp, by rw [hmk.rmap, hmk.sp]⟩
    · exact bind_eq_ok.2 ⟨f₁, hf₁, setRmapEnt_eq hidx⟩
    · refine {
        geom := h₁.geom, homed := h₁.homed, nand := h₁.nand, stats := h₁.stats
        ptr := fun io => ?_, free := h₁.free, closed := h₁.closed, history := h₁.history
        run := fun io => ?_ }
      · cases io
        · exact h₁.ptr .user
        · exact h₁.ptr .gc
      · cases io
        · exact h₁.run .user
        · exact h₁.run .gc
    · unfold MapOk at hm ⊢
      simp only [hmk.sp, hmk.rmap]
      refine hm.drop hlpn htab ?_ ?_
      · intro w
        unfold Live
        simp only [hmk.sp, hmk.status]
        constructor
        · rintro ⟨h1, h2, h3, h4⟩
          split_ifs at h3 with hc
          refine ⟨⟨h1, h2, h3, h4⟩, ?_⟩
          rintro rfl
          exact hc ⟨rfl, rfl⟩
        · rintro ⟨⟨h1, h2, h3, h4⟩, hne⟩
          refine ⟨h1, h2, ?_, h4⟩
          rw [if_neg fun hc => hne (eq_of_place h.geom h1 h2 hv hr hc.1 hc.2)]
          exact h3
      · rintro w ⟨h1, h2, -, -⟩ hne
        exact Function.update_of_ne
          (fun he => hne (pgidx_inj_of_valid h.geom h1 h2 hv hr he)) _ _
  · have htab : f.table lpn = none := if_neg hmap
    refine ⟨f, rfl, h, ?_, rfl, rfl, rfl, rfl, rfl, rfl, rfl⟩
    rw [← htab, Function.update_eq_self]
    exact hm

/-- The invariant after a logical page has been given the page under the user write pointer. -/
structure Remapped (f f' : ConvFtl) (front : ℕ × ℕ → ℕ → ℕ) (lpn : ℕ) : Prop where
  handed : f'.Handed [] front .user
  map : f'.MapOk f'.table ∅
  written : f'.WrittenMapped
  sp : f'.ssd.sp = f.ssd.sp
  wp : f'.wp = f.wp
  wfc : f'.wfc = f.wfc
  cp : f'.cp = f.cp
  table : f'.table = Function.update f.table lpn (some f.wp.page)
  log : f'.log = .handOut .user lpn f.wp.page :: f.log
  current : f.ReverseCurrent → f'.ReverseCurrent
  named : f.RmapNames → f'.RmapNames

/-- **A page write keeps the reverse table current:** the old page's entry is cleared. -/
theorem ReverseCurrent.remap (h : f.ReverseCurrent) (hsp : f'.ssd.sp = f.ssd.sp)
    (hp : mappedPpa p) (hlpn : lpn < f.ssd.sp.ttPgs)
    (hmap : f'.maptbl = Function.update f.maptbl lpn p)
    (hrmap : f'.rmap = Function.update (if mappedPpa (f.maptbl lpn) then
      Function.update f.rmap (f.ssd.sp.pgidx (f.maptbl lpn)) invalidLpn else f.rmap)
      (f.ssd.sp.pgidx p) lpn) : f'.ReverseCurrent := by
  intro i hi hne
  rw [hsp] at hi ⊢
  by_cases hip : i = f.ssd.sp.pgidx p
  · have hself : f'.rmap i = lpn := by rw [hrmap, hip, Function.update_self]
    rw [hself, hmap, Function.update_self]
    exact ⟨hlpn, hp, hip.symm⟩
  · have hold : f'.rmap i = f.rmap i ∧ (mappedPpa (f.maptbl lpn) →
        i ≠ f.ssd.sp.pgidx (f.maptbl lpn)) := by
      rw [hrmap, Function.update_of_ne hip] at hne ⊢
      split_ifs at hne ⊢ with hm
      · have hio : i ≠ f.ssd.sp.pgidx (f.maptbl lpn) := by
          rintro rfl
          exact hne (Function.update_self ..)
        exact ⟨Function.update_of_ne hio _ _, fun _ => hio⟩
      · exact ⟨rfl, fun hm' => absurd hm' hm⟩
    rw [hold.1] at hne ⊢
    obtain ⟨h1, h2, h3⟩ := h i hi hne
    have hnl : f.rmap i ≠ lpn := by
      intro he
      rw [he] at h2 h3
      exact hold.2 h2 h3.symm
    rw [hmap, Function.update_of_ne hnl]
    exact ⟨h1, h2, h3⟩

/-- A page write names the page it maps. -/
theorem RmapNames.remap (h : f.RmapNames) (hsp : f'.ssd.sp = f.ssd.sp)
    (hlpn : lpn < f.ssd.sp.ttPgs) (htab : f'.table = Function.update f.table lpn (some p))
    {i : ℕ} (hrmap : f'.rmap = Function.update (if mappedPpa (f.maptbl lpn) then
      Function.update f.rmap (f.ssd.sp.pgidx (f.maptbl lpn)) invalidLpn else f.rmap) i lpn) :
    f'.RmapNames := by
  have hdom : ∀ l, (f.table l).isSome → (f'.table l).isSome := fun l hl => by
    rw [htab]
    by_cases hll : l = lpn
    · simp [hll]
    · rwa [Function.update_of_ne hll]
  intro j hlt hne
  rw [hsp] at hlt ⊢
  by_cases hj : j = i
  · rw [hrmap, hj, Function.update_self, htab, Function.update_self]
    exact ⟨hlpn, rfl⟩
  · have hold : f'.rmap j = f.rmap j := by
      rw [hrmap, Function.update_of_ne hj] at hne ⊢
      split_ifs at hne ⊢
      · refine Function.update_of_ne (fun he => ?_) _ _
        exact hne (by rw [he, Function.update_self])
      · rfl
    rw [hold] at hne ⊢
    exact ⟨(h j hlt hne).1, hdom _ (h j hlt hne).2⟩

/-- **The part `conv_write` and `phfrag_cleaner` share:** no assertion fails, and the logical page
is mapped to the page under the user write pointer. -/
theorem Sound.remapPage (h : f.Sound [] front) (hm : f.MapOk f.table ∅) (hwm : f.WrittenMapped)
    (hlpn : lpn < f.ssd.sp.ttPgs) :
    ∃ f', f.remapPage lpn = .ok (f', f.wp.page) ∧ Remapped f f' front lpn := by
  have hppb := pgsPerBlk_pos h.geom hlpn
  obtain ⟨f₁, hf₁, h₁, hm₁, hsp, hmaptbl, hlog, hwp, hwfc, hcp, hrmap⟩ := h.invalidateOld hm hlpn
  have hlpn₁ : lpn < f₁.ssd.sp.ttPgs := by rw [hsp]; exact hlpn
  obtain ⟨f₂, hf₂, h₂, hm₂, hmk⟩ := h₁.place hm₁ hlpn₁ (Function.update_self ..) .user (by simp)
    (by simp)
  have hpage : (f₁.getWp .user).page = f.wp.page := by rw [← hwp]; rfl
  rw [hpage] at hf₂ hm₂ hmk
  have htab : f₂.table = Function.update f.table lpn (some f.wp.page) := by
    refine table_update (mapped_pageAt _ _ _) ?_
    rw [← hmaptbl]
    exact hmk.maptbl
  refine ⟨f₂, ?_, ?_⟩
  · unfold ConvFtl.remapPage
    refine bind_eq_ok.2 ⟨f.maptbl lpn, defined_bind hlpn _, ?_⟩
    refine bind_eq_ok.2 ⟨f₁, hf₁, ?_⟩
    refine bind_eq_ok.2 ⟨f.wp.page, ?_, ?_⟩
    · rw [h₁.getNewPage .user (by rw [hsp]; exact hppb), hpage]
    · simp only [bind_eq_ok] at hf₂ ⊢
      obtain ⟨a, ha, b, hb, hc⟩ := hf₂
      exact ⟨a, ha, b, hb, f₂, hc, rfl⟩
  · refine ⟨h₂, ?_, ?_, hmk.sp.trans hsp, hmk.wp.trans hwp, hmk.wfc.trans hwfc,
      hmk.cp.trans hcp, htab, ?_, fun hc => ?_,
      fun hn => hn.remap (hmk.sp.trans hsp) hlpn htab (hrmap ▸ hmk.rmap)⟩
    · rwa [Function.update_idem, ← htab] at hm₂
    · intro io l p hp
      rw [hmk.log] at hp
      rw [htab, show f₂.ssd.sp = f.ssd.sp from hmk.sp.trans hsp]
      by_cases hl : l = lpn
      · subst hl
        exact ⟨hlpn, by simp⟩
      · rcases List.mem_cons.1 hp with hp | hp
        · cases hp
          exact absurd rfl hl
        · rw [Function.update_of_ne hl]
          exact hwm io l p (by rw [← hlog]; exact hp)
    · rw [hmk.log, ← hlog]
      rfl
    · refine hc.remap (p := f.wp.page) (hmk.sp.trans hsp) (mapped_pageAt _ _ _) hlpn ?_ ?_
      · rw [← hmaptbl]
        exact hmk.maptbl
      · rw [← hrmap, ← hsp]
        exact hmk.rmap

end ConvFtl

end NvmeVirt
