/-
# A garbage collection, page by page

While a collection runs it holds its victim line.  `Collecting` is the invariant
of its loops: which pages of the victim have been looked at (`sc`), which dies
are erased (`er`), and that the valid pages looked at so far are exactly the
stale copies.  Every copy takes one free page, so the free pages and the copies
add up to a constant.
-/

import NvmeVirt.ConvFtl.GcFrame

namespace NvmeVirt

open Outcome Inverse

namespace ConvFtl

variable {f f' f₀ : ConvFtl} {v l i : ℕ} {front : ℕ × ℕ → ℕ → ℕ} {d e : ℕ × ℕ}
  {S V : Finset Ppa} {fp : ℕ} {sc : ℕ × ℕ → ℕ → Prop} {er : ℕ × ℕ → Prop}

/-- The status of page `i` of the block of line `l` on die `d`. -/
def statusAt (f : ConvFtl) (d : ℕ × ℕ) (l i : ℕ) : PgStatus :=
  (f.ssd.getPg (pageAt d l i)).status

/-- **The invariant of a collection** of line `v` that began in the state `f₀` with the valid pages
`V` in the line and `fp` free pages elsewhere. -/
structure Collecting (f₀ : ConvFtl) (v : ℕ) (V : Finset Ppa) (fp : ℕ) (f : ConvFtl)
    (S : Finset Ppa) (front : ℕ × ℕ → ℕ → ℕ) (sc : ℕ × ℕ → ℕ → Prop) (er : ℕ × ℕ → Prop) :
    Prop where
  sound : f.Sound [v] front
  map : f.MapOk f.table S
  written : f.WrittenMapped
  done : ∀ d ∈ f.ssd.sp.dies, er d → front d v = 0
  full : ∀ d ∈ f.ssd.sp.dies, ¬ er d → front d v = f.ssd.sp.pgsPerBlk
  valid : ∀ d ∈ f.ssd.sp.dies, ∀ i, i < f.ssd.sp.pgsPerBlk → ¬ er d →
    (f.statusAt d v i = .valid ↔ pageAt d v i ∈ V)
  sub : S ⊆ V
  line : ∀ p ∈ V, p.blk = v
  stale : ∀ d ∈ f.ssd.sp.dies, ∀ i, i < f.ssd.sp.pgsPerBlk →
    (pageAt d v i ∈ S ↔ pageAt d v i ∈ V ∧ sc d i)
  free : freePages f.ssd.sp [v] front + S.card = fp
  sp : f.ssd.sp = f₀.ssd.sp
  cp : f.cp = f₀.cp
  wfc : f.wfc = f₀.wfc
  dom : ∀ l, (f.table l).isSome = (f₀.table l).isSome
  track : Tracked f₀ f v S er
  room : f.gcRoom + S.card = f₀.gcRoom

/-- Only what is said of the pages of the geometry counts. -/
theorem Collecting.congr (h : Collecting f₀ v V fp f S front sc er)
    {sc' : ℕ × ℕ → ℕ → Prop} {er' : ℕ × ℕ → Prop}
    (hsc : ∀ d ∈ f.ssd.sp.dies, ∀ i, i < f.ssd.sp.pgsPerBlk → (sc' d i ↔ sc d i))
    (her : ∀ d ∈ f.ssd.sp.dies, (er' d ↔ er d)) : Collecting f₀ v V fp f S front sc' er' :=
  { h with
    done := fun d hd he => h.done d hd ((her d hd).1 he)
    full := fun d hd he => h.full d hd fun he' => he ((her d hd).2 he')
    valid := fun d hd i hi he => h.valid d hd i hi fun he' => he ((her d hd).2 he')
    stale := fun d hd i hi => by rw [h.stale d hd i hi, hsc d hd i hi]
    track := h.track.congr fun d hd => her d (h.sp ▸ hd) }

/-- How a collection can stop: hardly any free page was left when it began, and not enough of them
for its copies. -/
def GcStuck (f₀ : ConvFtl) (V : Finset Ppa) (fp : ℕ) (e : Fault) : Prop :=
  e = .noFreeLine ∧ fp ≤ f₀.ssd.sp.pgsPerLine + V.card ∧ f₀.gcRoom ≤ V.card

/-! ### One page -/

/-- **`gc_write_page` on a valid page of the victim** moves it: no assertion fails. -/
theorem Collecting.gcWritePage (h : Collecting f₀ v V fp f S front sc er) (hd : d ∈ f.ssd.sp.dies)
    (hi : i < f.ssd.sp.pgsPerBlk) (her : ¬ er d) (hsc : ¬ sc d i)
    (hst : f.statusAt d v i = .valid) :
    Ends (f.gcWritePage (pageAt d v i))
      (fun f' => ∃ S' front', Collecting f₀ v V fp f' S' front'
        (fun e j => sc e j ∨ e = d ∧ j = i) er)
      (GcStuck f₀ V fp) := by
  have hs := h.sound
  set old := pageAt d v i with hold
  have hvlt : v < f.ssd.sp.blksPerPl := hs.homed.held_lt (by simp)
  have hval := Ssdparams.validPpa_pageAt hs.geom.layout hd hvlt hi
  have hoV : old ∈ V := (h.valid d hd i hi her).1 hst
  have hoS : old ∉ S := fun hm => hsc ((h.stale d hd i hi).1 hm).2
  have hidx : f.ssd.sp.pgidx old < f.ssd.sp.ttPgs := Ssdparams.pgidx_lt hs.geom.layout hd hvlt hi
  obtain ⟨hlpn, hlo⟩ := h.map.backward old ⟨hval, rfl, hst, hoS⟩
  set lpn := f.rmap (f.ssd.sp.pgidx old) with hlpndef
  have hppb := pgsPerBlk_pos hs.geom hlpn
  have hcur : (f.getWp .gc).curline ∉ [v] := by
    have := hs.homed.held_nodup
    simp only [List.nodup_cons, List.mem_cons, not_or] at this
    simpa [getWp] using this.2.1.1
  have hcurv : f.gcWp.curline ≠ v := by simpa [getWp] using hcur
  have hpblk : (f.getWp .gc).page.blk ≠ v := hcurv
  have hpS : (f.getWp .gc).page ∉ insert old S := by
    intro hm
    rcases Finset.mem_insert.1 hm with hm | hm
    · exact hpblk (by rw [hm]; rfl)
    · exact hpblk (h.line _ (h.sub hm))
  -- the old copy becomes stale, then the page gets its new place
  have hdrop : f.MapOk (Function.update f.table lpn none) (insert old S) := by
    refine IsInverse.drop h.map hlpn hlo (fun w => ?_) fun w _ _ => rfl
    unfold Live
    rw [Finset.mem_insert, not_or]
    tauto
  obtain ⟨f₁, hf₁, hh, hm₁, hmk⟩ := hs.place hdrop hlpn (Function.update_self ..) .gc hcur hpS
  have htab : f₁.table = Function.update f.table lpn (some (f.getWp .gc).page) :=
    table_update (mapped_pageAt _ _ _) hmk.maptbl
  have hsp₁ : f₁.ssd.sp = f.ssd.sp := hmk.sp
  have hgcwp : f₁.gcWp = f.gcWp := hmk.gcWp
  unfold ConvFtl.gcWritePage
  have hget : f.getRmapEnt old = .ok lpn := getRmapEnt_eq hidx
  rw [hget, ok_bind, nvmevAssert_bind hlpn, hs.getNewPage .gc hppb, ok_bind]
  simp only [bind_eq_ok] at hf₁
  obtain ⟨fa, hfa, fb, hfb, hfc⟩ := hf₁
  simp only [hfa, hfb, hfc, ok_bind]
  refine hh.advanceGc.with_eq.mono (fun f' hf' => ?_) fun e he => ?_
  · obtain ⟨⟨hs', hadv⟩, heq⟩ := hf'
    obtain ⟨hwp', hcnt', hlist'⟩ := advanceGc_frame heq
    have hsp' : f'.ssd.sp = f.ssd.sp := (congrArg Ssd.sp hadv.ssd).trans hsp₁
    have htab' : f'.table = Function.update f.table lpn (some (f.getWp .gc).page) :=
      (table_of_same hadv.maptbl).trans htab
    have hnext : ∀ e, f₁.nextFront .gc front e v = front e v := fun e =>
      nextFront_line (by simp only [getWp, hgcwp]; exact hcurv.symm)
    have hstat : ∀ e j, f'.statusAt e v j = f.statusAt e v j := by
      intro e j
      unfold statusAt
      rw [hadv.ssd, hmk.status, if_neg]
      · rfl
      · rintro ⟨hb, -⟩
        exact hpblk (congrArg BlkAddr.blk hb).symm
    refine ⟨insert old S, f₁.nextFront .gc front, {
      sound := hs', map := ?_, written := ?_
      done := fun e he hee => by rw [hnext]; exact h.done e (hsp' ▸ he) hee
      full := fun e he hee => by rw [hnext, hsp']; exact h.full e (hsp' ▸ he) hee
      valid := fun e he j hj hee => by
        rw [hstat]; exact h.valid e (hsp' ▸ he) j (hsp' ▸ hj) hee
      sub := Finset.insert_subset hoV h.sub, line := h.line
      stale := fun e he j hj => ?_, free := ?_, sp := hsp'.trans h.sp
      cp := (hadv.cp.trans hmk.cp).trans h.cp, wfc := (hadv.wfc.trans hmk.wfc).trans h.wfc
      dom := fun l => ?_, track := ?_, room := ?_ }⟩
    · rw [htab']
      rw [Function.update_idem] at hm₁
      exact hm₁.of_same hadv.ssd hadv.rmap
    · intro io l p hp
      rw [hadv.log, hmk.log] at hp
      rw [htab', hsp']
      by_cases hl : l = lpn
      · exact ⟨hl ▸ hlpn, by simp [hl]⟩
      · rw [Function.update_of_ne hl]
        rcases List.mem_cons.1 hp with hp | hp
        · cases hp
          exact absurd rfl hl
        · exact h.written io l p hp
    · rw [Finset.mem_insert, hold, pageAt_inj, h.stale e (hsp' ▸ he) j (hsp' ▸ hj)]
      constructor
      · rintro (⟨rfl, -, rfl⟩ | ⟨h1, h2⟩)
        · exact ⟨hoV, .inr ⟨rfl, rfl⟩⟩
        · exact ⟨h1, .inl h2⟩
      · rintro ⟨h1, h2 | ⟨rfl, rfl⟩⟩
        · exact .inr ⟨h1, h2⟩
        · exact .inl ⟨rfl, rfl, rfl⟩
    · have hnf := hh.freePages_next
      have hfree := h.free
      rw [hsp₁] at hnf
      rw [hsp', Finset.card_insert_of_notMem hoS]
      omega
    · rw [htab', ← h.dom l]
      by_cases hl : l = lpn
      · subst hl
        rw [Function.update_self, hlo]
        rfl
      · rw [Function.update_of_ne hl]
    · have hinj : ∀ l, l < f₀.ssd.sp.ttPgs → f.maptbl l = old → l = lpn := fun l hl he => by
        rw [← h.sp] at hl
        exact h.map.inj hl hlpn ((if_pos (he ▸ mapped_pageAt _ _ _)).trans (congrArg some he)) hlo
      refine h.track.copy hoS (table_eq_some hlo).2 hinj hpblk (hs.page_free .gc hppb)
        (hwp'.trans hmk.wp) (hcnt'.trans hmk.pageCounter) (hmk.freeLineList ▸ hlist')
        (h.sp ▸ hlpn) (by rw [← h.dom, hlo]; rfl) (hadv.maptbl.trans hmk.maptbl)
        (hadv.rmap.trans hmk.rmap) (fun q hq => ?_) (fun a => ?_) (hadv.log.trans hmk.log)
      · rw [hadv.ssd, hmk.status] at hq
        split_ifs at hq
        exact hq
      · rw [hadv.ssd]
        exact hmk.eraseCnt a
    · -- the user's line keeps its free pages
      have hnf := hh.freePages_next
      have hroom := hs.freePages_gcRoom
      have hroom' := hs'.freePages_gcRoom
      have hline : lineFree f'.ssd.sp (f₁.nextFront .gc front) f'.wp.curline =
          lineFree f.ssd.sp front f.wp.curline := by
        have hwp₁ : f₁.wp = f.wp := hmk.wp
        have hne : f.wp.curline ≠ (f₁.getWp .gc).curline := hwp₁ ▸ hh.curline_ne
        rw [hsp', hwp', hwp₁]
        exact Finset.sum_congr rfl fun d _ => by rw [nextFront_line hne]
      have h0 := h.room
      rw [hsp₁] at hnf
      rw [hline, hsp'] at hroom'
      rw [Finset.card_insert_of_notMem hoS]
      omega
  · obtain ⟨rfl, hex⟩ := he
    have hle := hh.freePages_le_of_exhausted hex
    have hlast := hh.freePages_of_exhausted hex
    have hroom := hs.freePages_gcRoom
    have hfree := h.free
    have h0 := h.room
    have hcard : S.card + 1 ≤ V.card := by
      rw [← Finset.card_insert_of_notMem hoS]
      exact Finset.card_le_card (Finset.insert_subset hoV h.sub)
    rw [hsp₁] at hle hlast
    rw [show f₁.wp = f.wp from hmk.wp] at hlast
    refine ⟨rfl, ?_, by omega⟩
    rw [← h.sp]
    omega

/-- A page of the victim that is not valid needs no copy. -/
theorem Collecting.skip (h : Collecting f₀ v V fp f S front sc er) (hi : i < f.ssd.sp.pgsPerBlk)
    (hd : d ∈ f.ssd.sp.dies) (her : ¬ er d) (hst : f.statusAt d v i ≠ .valid) :
    Collecting f₀ v V fp f S front (fun e j => sc e j ∨ e = d ∧ j = i) er :=
  { h with
    stale := fun e he j hj => by
      rw [h.stale e he j hj]
      constructor
      · exact fun hm => ⟨hm.1, .inl hm.2⟩
      · rintro ⟨h1, h2 | ⟨rfl, rfl⟩⟩
        · exact ⟨h1, h2⟩
        · exact absurd ((h.valid e hd j hi her).2 h1) hst }

/-! ### One flash page -/

theorem addPg_pageAt (g : f.ssd.sp.FitsPpa) {base j : ℕ} (h : base + j < f.ssd.sp.pgsPerBlk) :
    (pageAt d l base).addPg j = pageAt d l (base + j) := by
  have := g.pgsPerBlk
  simp only [Ppa.addPg, pageAt, Nat.mod_eq_of_lt (show base + j < 2 ^ 16 by omega)]

/-- No page of a die of the victim that is not erased is free. -/
theorem Collecting.not_free (h : Collecting f₀ v V fp f S front sc er) (hd : d ∈ f.ssd.sp.dies)
    (hi : i < f.ssd.sp.pgsPerBlk) (her : ¬ er d) : f.statusAt d v i ≠ .free := by
  intro hf
  have hvlt : v < f.ssd.sp.blksPerPl := h.sound.homed.held_lt (by simp)
  have := ((h.sound.nand d hd v hvlt).1.free i hi).1 hf
  rw [h.full d hd her] at this
  omega

/-- The first loop of `clean_one_flashpg`: none of the pages is free, and a count of zero says that
none is valid. -/
theorem Collecting.countValid (h : Collecting f₀ v V fp f S front sc er) {base n : ℕ}
    (hd : d ∈ f.ssd.sp.dies) (hb : base + n ≤ f.ssd.sp.pgsPerBlk) (her : ¬ er d) :
    ∃ cnt, forRange n (fun i cnt => do
        f.accessPpa ((pageAt d v base).addPg i)
        let status := (f.ssd.getPg ((pageAt d v base).addPg i)).status
        nvmevAssert .cleanOneFlashpg (status ≠ .free)
        .ok (if status = .valid then cnt + 1 else cnt)) 0 = .ok cnt ∧
      (cnt = 0 → ∀ j, j < n → f.statusAt d v (base + j) ≠ .valid) := by
  refine (Ends.forRange (E := fun _ : Fault => False)
    (fun i cnt => cnt = 0 → ∀ j, j < i → f.statusAt d v (base + j) ≠ .valid)
    (fun _ j hj => absurd hj (Nat.not_lt_zero j)) fun i hi cnt hcnt => ?_).exists_ok
  have hlt : base + i < f.ssd.sp.pgsPerBlk := by omega
  have hvlt : v < f.ssd.sp.blksPerPl := h.sound.homed.held_lt (by simp)
  have hacc : f.accessPpa (pageAt d v (base + i)) = .ok () :=
    defined_eq_ok.2 (Ssdparams.validPpa_pageAt h.sound.geom.layout hd hvlt hlt)
  have hnf : (f.ssd.getPg (pageAt d v (base + i))).status ≠ .free := h.not_free hd hlt her
  rw [addPg_pageAt h.sound.geom.fits hlt, hacc, ok_bind, nvmevAssert_bind hnf, ends_ok]
  intro h0 j hj
  split_ifs at h0 with hv
  rcases Nat.lt_succ_iff_lt_or_eq.1 hj with hj | rfl
  · exact hcnt h0 j hj
  · exact hv

/-- **`clean_one_flashpg` on a flash page of the victim** moves its valid pages. -/
theorem Collecting.cleanOneFlashpg (h : Collecting f₀ v V fp f S front sc er) {base : ℕ}
    (hd : d ∈ f₀.ssd.sp.dies) (hb : base + f₀.ssd.sp.pgsPerFlashpg ≤ f₀.ssd.sp.pgsPerBlk)
    (her : ¬ er d) (hsc : ∀ j, base ≤ j → ¬ sc d j) :
    Ends (f.cleanOneFlashpg (pageAt d v base))
      (fun f' => ∃ S' front', Collecting f₀ v V fp f' S' front'
        (fun e j => sc e j ∨ e = d ∧ base ≤ j ∧ j < base + f₀.ssd.sp.pgsPerFlashpg) er)
      (GcStuck f₀ V fp) := by
  have hd' : d ∈ f.ssd.sp.dies := h.sp ▸ hd
  obtain ⟨cnt, hcnt, hzero⟩ := h.countValid (n := f.ssd.sp.pgsPerFlashpg) hd' (h.sp ▸ hb) her
  unfold ConvFtl.cleanOneFlashpg
  simp only [hcnt, ok_bind]
  split_ifs with h0
  · -- nothing to copy
    refine ⟨S, front, { h with stale := fun e he j hj => ?_ }⟩
    rw [h.stale e he j hj]
    constructor
    · exact fun hm => ⟨hm.1, .inl hm.2⟩
    · rintro ⟨h1, h2 | ⟨rfl, h3, h4⟩⟩
      · exact ⟨h1, h2⟩
      · have := hzero h0 (j - base) (by rw [h.sp]; omega)
        rw [show base + (j - base) = j by omega] at this
        exact absurd ((h.valid e he j hj her).2 h1) this
  · -- the second loop, with the pages looked at so far
    refine (Ends.forRange (fun k f => ∃ S front, Collecting f₀ v V fp f S front
      (fun e j => sc e j ∨ e = d ∧ base ≤ j ∧ j < base + k) er) ?_ fun k hk t ht => ?_).mono ?_
      fun _ he => he
    · refine ⟨S, front, h.congr (fun e _ j _ => ⟨?_, .inl⟩) fun _ _ => Iff.rfl⟩
      rintro (hx | ⟨-, h1, h2⟩)
      · exact hx
      · omega
    · obtain ⟨S', front', ht⟩ := ht
      rw [h.sp] at hk
      have hlt : base + k < t.ssd.sp.pgsPerBlk := by rw [ht.sp]; omega
      have hdt : d ∈ t.ssd.sp.dies := ht.sp ▸ hd
      have hvlt : v < t.ssd.sp.blksPerPl := ht.sound.homed.held_lt (by simp)
      have hacc : t.accessPpa (pageAt d v (base + k)) = .ok () :=
        defined_eq_ok.2 (Ssdparams.validPpa_pageAt ht.sound.geom.layout hdt hvlt hlt)
      have hnew : ¬ (sc d (base + k) ∨ d = d ∧ base ≤ base + k ∧ base + k < base + k) := by
        rintro (hs | ⟨-, -, hs⟩)
        · exact hsc _ (by omega) hs
        · omega
      have hstep : ∀ e j, (sc e j ∨ e = d ∧ base ≤ j ∧ j < base + (k + 1)) ↔
          ((sc e j ∨ e = d ∧ base ≤ j ∧ j < base + k) ∨ e = d ∧ j = base + k) := by
        intro e j
        constructor
        · rintro (hs | ⟨he, h1, h2⟩)
          · exact .inl (.inl hs)
          · rcases Nat.lt_or_ge j (base + k) with hlt | hge
            · exact .inl (.inr ⟨he, h1, hlt⟩)
            · exact .inr ⟨he, by omega⟩
        · rintro ((hs | ⟨he, h1, h2⟩) | ⟨he, rfl⟩)
          · exact .inl hs
          · exact .inr ⟨he, h1, by omega⟩
          · exact .inr ⟨he, by omega, by omega⟩
      rw [addPg_pageAt ht.sound.geom.fits hlt, hacc, ok_bind]
      split_ifs with hst
      · refine (ht.gcWritePage hdt hlt her hnew hst).mono (fun f' hf' => ?_) fun _ he => he
        obtain ⟨S'', front'', hf'⟩ := hf'
        exact ⟨S'', front'', hf'.congr (fun e _ j _ => hstep e j) fun _ _ => Iff.rfl⟩
      · exact ⟨S', front', (ht.skip hlt hdt her hst).congr (fun e _ j _ => hstep e j)
          fun _ _ => Iff.rfl⟩
    · rintro t ⟨S', front', ht⟩
      refine ⟨S', front', ?_⟩
      rw [← h.sp]
      exact ht

/-! ### Erasing a block -/

/-- The loop of `mark_block_free`: every page becomes free, and no assertion fails. -/
theorem freePages_loop {spp : Ssdparams} {pg : ℕ → NandPage} {n : ℕ}
    (h : ∀ i, i < n → (pg i).nsecs = spp.secsPerPg) :
    ∃ pg', forRange n (fun i pg => do
        nvmevAssert .markBlockFree ((pg i).nsecs = spp.secsPerPg)
        .ok (Function.update pg i { pg i with status := .free })) pg = .ok pg' ∧
      ∀ i, i < n → (pg' i).status = .free ∧ (pg' i).nsecs = spp.secsPerPg := by
  obtain ⟨pg', h1, h2⟩ := (Ends.forRange (n := n) (E := fun _ : Fault => False)
    (b := fun i (pg : ℕ → NandPage) => do
      nvmevAssert .markBlockFree ((pg i).nsecs = spp.secsPerPg)
      .ok (Function.update pg i { pg i with status := .free }))
    (fun k (pg' : ℕ → NandPage) => ∀ i, i < n → (i < k → (pg' i).status = .free) ∧ (pg' i).nsecs = spp.secsPerPg)
    (fun i hi => ⟨fun h0 => absurd h0 (Nat.not_lt_zero i), h i hi⟩)
    fun k hk t ht => by
      rw [nvmevAssert_bind (ht k hk).2]
      intro i hi
      by_cases hik : i = k
      · subst hik
        simpa using (ht i hi).2
      · rw [Function.update_of_ne hik]
        exact ⟨fun hlt => (ht i hi).1 (by omega), (ht i hi).2⟩).exists_ok
  exact ⟨pg', h1, fun i hi => ⟨(h2 i hi).1 hi, (h2 i hi).2⟩⟩

/-- **`mark_block_free` on a block of the victim** whose pages have all been looked at. -/
theorem Collecting.markBlockFree (h : Collecting f₀ v V fp f S front sc er)
    (hd : d ∈ f.ssd.sp.dies) (hi : i < f.ssd.sp.pgsPerBlk) (her : ¬ er d)
    (hsc : ∀ j, j < f.ssd.sp.pgsPerBlk → sc d j) :
    ∃ f' front', f.markBlockFree (pageAt d v i) = .ok f' ∧
      Collecting f₀ v V fp f' S front' sc (fun e => er e ∨ e = d) := by
  have hs := h.sound
  have hvlt : v < f.ssd.sp.blksPerPl := hs.homed.held_lt (by simp)
  obtain ⟨hb, hlog⟩ := hs.nand d hd v hvlt
  rw [h.full d hd her] at hb hlog
  set b := f.ssd.blk (blockAt d v) with hbdef
  obtain ⟨pg', hpg, hpg'⟩ := freePages_loop hb.nsecs
  set b' : NandBlock := { b with pg := pg', ipc := 0, vpc := 0, eraseCnt := b.eraseCnt + 1 } with hb'
  have hok : BlockOk f.ssd.sp b' 0 :=
    BlockOk.erased (fun j hj => (hpg' j hj).1) (fun j hj => (hpg' j hj).2) hb.npgs rfl rfl
  set f' : ConvFtl := note { f with ssd := f.ssd.setBlk (pageAt d v i) b' } (.erase (blockAt d v))
    with hf'
  have hnodup := hs.homed.held_nodup
  simp only [List.nodup_cons, List.mem_cons, List.not_mem_nil, or_false, not_or] at hnodup
  have hstat : ∀ q : Ppa, q.blkAddr ≠ blockAt d v →
      (f'.ssd.getPg q).status = (f.ssd.getPg q).status := by
    intro q hq
    show (((f.ssd.setBlk (pageAt d v i) b').blk q.blkAddr).pg q.pg).status = _
    rw [Ssd.setBlk_blk_ne (by rwa [pageAt_blkAddr])]
    rfl
  refine ⟨f', setFront front d v 0, ?_, {
    sound := ?_, map := ?_, written := fun io lpn p hp => h.written io lpn p ?_
    done := fun e he hee => ?_
    full := fun e he hee => ?_, valid := fun e he j hj hee => ?_, sub := h.sub, line := h.line
    stale := h.stale, free := ?_, sp := h.sp, cp := h.cp, wfc := h.wfc, dom := h.dom
    track := h.track.erase (h.sp ▸ hd) her (b := b') rfl rfl rfl rfl rfl rfl rfl rfl
    room := h.room }⟩
  · have hacc : f.accessPpa (pageAt d v i) = .ok () :=
      defined_eq_ok.2 (Ssdparams.validPpa_pageAt hs.geom.layout hd hvlt hi)
    have hblk : f.ssd.getBlk (pageAt d v i) = b := rfl
    unfold ConvFtl.markBlockFree
    simp only [hacc, ok_bind, hblk, hpg]
    exact nvmevAssert_bind hb.npgs _
  · refine {
      geom := hs.geom, homed := hs.homed, nand := ?_, stats := fun l hl hlv => ?_
      ptr := fun io => ?_, free := fun l hl e he => ?_, closed := fun l hl e he => ?_
      history := ⟨hlog, hs.history⟩, run := fun io => ?_ }
    · refine hs.nand.update hok ?_ fun a ha => ?_
      · simp [hf', ConvFtl.note, handedOut]
      · simp [hf', ConvFtl.note, handedOut, ha.symm]
    · have hne : ∀ e, blockAt e l ≠ blockAt d v := fun e hc =>
        hlv (by rw [(blockAt_inj.1 hc).2]; simp)
      have hsame : ∀ e, f'.ssd.blk (blockAt e l) = f.ssd.blk (blockAt e l) := fun e =>
        Ssd.setBlk_blk_ne (by rw [pageAt_blkAddr]; exact hne e)
      simp only [hsame]
      exact hs.stats l hl hlv
    · have hw := hs.ptr io
      have hcv : (f.getWp io).curline ≠ v := by
        cases io
        · exact hnodup.1.2
        · exact hnodup.2.1
      have hnew : WpOk f.ssd.sp (f.getWp io) (f.written io) (setFront front d v 0) :=
        { hw with front := fun e he => by rw [setFront_line hcv]; exact hw.front e he }
      cases io
      · exact hnew
      · exact hnew
    · have hlv : l ≠ v := fun hc => hs.homed.not_free (l := v) (by simp) (hc ▸ hl)
      rw [setFront_line hlv]
      exact hs.free l hl e he
    · have hlv : l ≠ v := fun hc => hs.homed.not_closed (l := v) (.inl (by simp)) (hc ▸ hl)
      rw [setFront_line hlv]
      exact hs.closed l hl e he
    · cases io
      · exact hs.run .user
      · exact hs.run .gc
  · -- every valid page of the block is stale, so no live page is lost
    refine IsInverse.congr h.map (fun _ _ => rfl) (fun w => ?_) fun _ _ => rfl
    unfold Live
    by_cases hw : w.blkAddr = blockAt d v
    · constructor
      · rintro ⟨h1, h2, h3, -⟩
        obtain ⟨e, m, j, he, hm, hj, rfl⟩ := Ssdparams.exists_pageAt hs.geom.layout h1 h2
        rw [pageAt_blkAddr] at hw
        obtain ⟨rfl, rfl⟩ := blockAt_inj.1 hw
        have : ((f.ssd.setBlk (pageAt e m i) b').getPg (pageAt e m j)).status = .free := by
          show (((f.ssd.setBlk (pageAt e m i) b').blk (blockAt e m)).pg j).status = _
          rw [← pageAt_blkAddr e m i, Ssd.setBlk_blk_self]
          exact (hpg' j hj).1
        rw [show (f'.ssd.getPg (pageAt e m j)).status = .free from this] at h3
        cases h3
      · rintro ⟨h1, h2, h3, h4⟩
        obtain ⟨e, m, j, he, hm, hj, rfl⟩ := Ssdparams.exists_pageAt hs.geom.layout h1 h2
        rw [pageAt_blkAddr] at hw
        obtain ⟨rfl, rfl⟩ := blockAt_inj.1 hw
        exact absurd ((h.stale e he j hj).2 ⟨(h.valid e he j hj her).1 h3, hsc j hj⟩) h4
    · rw [hstat w hw]
      rfl
  · rcases List.mem_cons.1 hp with hp | hp
    · cases hp
    · exact hp
  · by_cases hed : e = d
    · subst hed
      exact setFront_same
    · rw [setFront_die hed]
      exact h.done e he (hee.resolve_right hed)
  · obtain ⟨h1, h2⟩ := not_or.1 hee
    rw [setFront_die h2]
    exact h.full e he h1
  · obtain ⟨h1, h2⟩ := not_or.1 hee
    have : f'.statusAt e v j = f.statusAt e v j := hstat _ fun hc => h2 (blockAt_inj.1 hc).1
    rw [this]
    exact h.valid e he j hj h1
  · rw [← h.free]
    congr 1
    refine Finset.sum_congr rfl fun l _ => ?_
    split_ifs with hlv
    · rfl
    · refine Finset.sum_congr rfl fun e _ => ?_
      rw [setFront_line (by simpa using hlv)]
      rfl

end ConvFtl

end NvmeVirt
