/-
# The order in which pages are handed out

Over any interleaving of page writes of the host, the cleaner and the
collections, `get_new_page` hands out the pages of a block in order and each of
them once between two erases, and a write pointer finishes a one-shot page
before it leaves it.
-/

import NvmeVirt.ConvFtl.Reachable

namespace NvmeVirt

open Outcome

/-! ### Reading a history -/

variable {spp : Ssdparams} {log post : List FlashEv}

/-- What holds of a history holds of every earlier one. -/
theorem HistoryOk.suffix (h : HistoryOk spp (post ++ log)) : HistoryOk spp log := by
  induction post with
  | nil => exact h
  | cons e post ih =>
    cases e with
    | handOut io lpn p => exact ih h.2.2
    | victim l => exact ih h
    | erase a => exact ih h.2

/-- Every page handed out is the next page of its block. -/
theorem HistoryOk.next (post : List FlashEv) {io : IoType} {lpn : ℕ} {p : Ppa}
    (h : HistoryOk spp (post ++ .handOut io lpn p :: log)) :
    handedOut p.blkAddr log = List.range p.pg ∧ p.pg < spp.pgsPerBlk :=
  ⟨h.suffix.1, h.suffix.2.1⟩

/-- Every block erased has been handed out page by page. -/
theorem HistoryOk.erased (post : List FlashEv) {a : BlkAddr}
    (h : HistoryOk spp (post ++ .erase a :: log)) :
    handedOut a log = List.range spp.pgsPerBlk :=
  h.suffix.1

namespace ConvFtl

/-- **The pages are handed out in order.** -/
structure HandOutsOk (f : ConvFtl) : Prop where
  /-- The pages of a block are handed out in the order `0, 1, 2, …`. -/
  next : ∀ post io lpn p log, f.log = post ++ .handOut io lpn p :: log →
    handedOut p.blkAddr log = List.range p.pg ∧ p.pg < f.ssd.sp.pgsPerBlk
  /-- Between two erases every page of a block is handed out once. -/
  erased : ∀ post a log, f.log = post ++ .erase a :: log →
    handedOut a log = List.range f.ssd.sp.pgsPerBlk
  /-- Every page of a line is handed out once before the line is closed. -/
  closed : ∀ l, f.lm.Closed l → ∀ d ∈ f.ssd.sp.dies,
    handedOut (blockAt d l) f.log = List.range f.ssd.sp.pgsPerBlk
  /-- A write pointer hands out the pages of a one-shot page one after the other. -/
  oneshot : ∀ io, ((f.getWp io).page :: handOuts io f.log).IsChain (Follows f.ssd.sp)
  /-- The user write pointer stands where the page counter of its die says. -/
  counter : f.wp.pg = f.pageCounter (f.wp.ch * f.ssd.sp.lunsPerCh + f.wp.lun)
  room : 0 < f.ssd.sp.ttPgs → f.wp.pg < f.ssd.sp.pgsPerBlk

theorem Sound.handOutsOk {f : ConvFtl} {front : ℕ × ℕ → ℕ → ℕ} (h : f.Sound [] front) :
    HandOutsOk f where
  next := fun post io lpn p log hlog => HistoryOk.next post (hlog ▸ h.history)
  erased := fun post a log hlog => HistoryOk.erased post (hlog ▸ h.history)
  closed := fun l hl d hd => by
    have hlt : l < f.ssd.sp.blksPerPl := hl.elim h.homed.full_lt h.homed.queued_lt
    rw [(h.nand d hd l hlt).2, h.closed l hl d hd]
  oneshot := h.run
  counter := (h.ptr .user).pg
  room := fun htt => (h.ptr .user).room (pgsPerBlk_pos h.geom htt)

end ConvFtl

/-- **Every interleaving of page writes hands out the pages in order,** whatever the degree of the
cleaner, its counters and its draws. -/
theorem pageRun_handOutsOk (capacity nparts : ℕ) (cfg : FtlConfigs) (cpp : ConvParams)
    {f₀ f : ConvFtl} (hspp : ssdInitParams capacity nparts cfg = .ok spp) (hfit : spp.FitsPpa)
    (hinit : convInitFtl cpp (ssdInit spp) = .ok f₀) (ops : List PageOp)
    (hrun : runList ConvFtl.pageOp f₀ ops = .ok f) : f.HandOutsOk := by
  obtain ⟨hs, hfr⟩ := ConvFtl.convInitFtl_sound hspp hfit hinit
  obtain ⟨front, hs'⟩ := ((hfr.inv hs).pageRun ops).of_ok hrun |>.inv.sound
  exact hs'.handOutsOk

/-- A page of the host and one of the cleaner fill the first block. -/
theorem pageRun_handOutsOk_tiny : ∃ f : ConvFtl, f.HandOutsOk ∧
    handOuts .user f.log = [pageAt (0, 0) 0 1, pageAt (0, 0) 0 0] := by
  have h := pageRun_handOutsOk tinySize 1 tinyConfigs convInitParams rfl
    ⟨by decide, by decide, by decide, by decide⟩ rfl [.host 3, .clean 50 0 (-1) 7 3] rfl
  exact ⟨_, h, rfl⟩

end NvmeVirt
