/-
# The cleaner with degree 0 writes in order

With degree 0 `advance_write_pointer_cleanver` never stays on a die and no chunk
gives up its turn: the pages the cleaner writes follow the striping order of the
lines.  In a new namespace no collection moves them, so each page lies where
`is_next_correct` of `check_phfrag.c` wants it behind the page written before it.
-/

import NvmeVirt.ConvFtl.CleanCall
import NvmeVirt.ConvFtl.PhfragCheck
import NvmeVirt.ConvFtl.Striping
import NvmeVirt.Lib.Lockstep

namespace NvmeVirt

open Outcome

namespace ConvFtl

variable {f f' : ConvFtl} {front : ℕ × ℕ → ℕ → ℕ} {lpn : ℕ} {done rest : List ℕ}

/-! ### The next page of the pointer -/

/-- A reset of the page counters that ends does not depend on the function it is part of. -/
theorem resetPageCounter_fn {fn : Fn} {spp : Ssdparams} {cnt cnt' : ℕ → ℕ}
    (h : resetPageCounter fn spp cnt = .ok cnt') (fn' : Fn) :
    resetPageCounter fn' spp cnt = .ok cnt' := by
  refine forRange_of_ok (fun i t t' => forRange_of_ok fun j t t' hround => ?_) h
  obtain ⟨_, hassert, hupdate⟩ := bind_eq_ok.1 hround
  exact (nvmevAssert_bind (nvmevAssert_eq_ok.1 hassert) _).trans hupdate

/-- Nor does the end of a line. -/
theorem retireLine_fn {fn : Fn} {spp : Ssdparams} {lm lm' : LineMgmt} {l : ℕ}
    (h : lm.retireLine fn spp l = .ok lm') (fn' : Fn) : lm.retireLine fn' spp l = .ok lm' := by
  unfold LineMgmt.retireLine at h ⊢
  dsimp only at h ⊢
  split_ifs at h ⊢ with hfull
  · obtain ⟨_, hassert, h⟩ := bind_eq_ok.1 h
    exact (nvmevAssert_bind (nvmevAssert_eq_ok.1 hassert) _).trans h
  · obtain ⟨_, hassert, h⟩ := bind_eq_ok.1 h
    obtain ⟨_, hassert', h⟩ := bind_eq_ok.1 h
    exact (nvmevAssert_bind (nvmevAssert_eq_ok.1 hassert) _).trans
      ((nvmevAssert_bind (nvmevAssert_eq_ok.1 hassert') _).trans h)

/-- Nor does the step to another die. -/
theorem leaveDie_fn {fn : Fn} (h : f.leaveDie fn = .ok f') (fn' : Fn) :
    f.leaveDie fn' = .ok f' := by
  unfold ConvFtl.leaveDie at h ⊢
  dsimp only at h ⊢
  obtain ⟨found, hfound, h⟩ := bind_eq_ok.1 h
  rw [hfound, ok_bind]
  cases found with
  | some d => exact h
  | none =>
    dsimp only at h ⊢
    obtain ⟨cnt, hcnt, h⟩ := bind_eq_ok.1 h
    obtain ⟨lm, hlm, h⟩ := bind_eq_ok.1 h
    obtain ⟨_, hblk, h⟩ := bind_eq_ok.1 h
    obtain ⟨r, hfree, h⟩ := bind_eq_ok.1 h
    obtain ⟨_, hid, h⟩ := bind_eq_ok.1 h
    obtain ⟨_, hzero, h⟩ := bind_eq_ok.1 h
    rw [resetPageCounter_fn hcnt fn', ok_bind, retireLine_fn hlm fn', ok_bind, hblk, ok_bind, hfree,
      ok_bind, hid, ok_bind]
    exact (nvmevAssert_bind (nvmevAssert_eq_ok.1 hzero) _).trans h

/-- **With degree 0** the cleaner's pointer moves as the host's does. -/
theorem advanceCleanver_zero {counter conti counter' conti' : ℤ} {random : ℕ}
    {r : Option RewritePointer} (hconti : conti < 0)
    (h : f.advanceWritePointerCleanver 0 counter conti false random = .ok (f', counter', conti', r)) :
    f.advanceUser = .ok f' ∧ counter' = counter + 1 ∧ conti' = conti ∧ r = none := by
  have hturn : ∀ room, cleanverTurn f.ssd.sp 0 (counter + 1) conti false room random =
      ⟨false, conti, false⟩ := fun room => by
    unfold cleanverTurn
    simp [not_le.2 hconti]
  unfold ConvFtl.advanceWritePointerCleanver at h
  unfold ConvFtl.advanceUser
  dsimp only at h ⊢
  obtain ⟨u, haddr, h⟩ := bind_eq_ok.1 h
  rw [haddr, ok_bind]
  simp only [hturn, Bool.false_eq_true, if_false] at h
  split_ifs at h ⊢ with hinside
  · cases h
    exact ⟨rfl, rfl, rfl, rfl⟩
  · obtain ⟨g, hleave, h⟩ := bind_eq_ok.1 h
    cases h
    exact ⟨leaveDie_fn hleave _, rfl, rfl, rfl⟩

/-- The page under a pointer, by its place. -/
theorem page_of_spot {wp : WritePointer} {s : Spot} (h : wp.spot = s) :
    wp.page = pageAt (s.1, s.2.1) wp.curline s.2.2 := by
  subst h
  rfl

/-- **The place after a page in striping order** is where `is_next_correct` wants the next page. -/
theorem OnStripe.isNextCorrect_next (hs : f.ssd.sp.Striped) (h : f.OnStripe .user)
    (hadv : f.advanceUser = .ok f') (hsp : f'.ssd.sp = f.ssd.sp) :
    f'.OnStripe .user ∧ isNextCorrect f.ssd.sp f.wp.page f'.wp.page := by
  have hnext := h.advance hs
  obtain ⟨hch, hlun, -⟩ : f.wp.ch < f.ssd.sp.nchs ∧ f.wp.lun < f.ssd.sp.lunsPerCh ∧
    f.wp.pg < f.ssd.sp.pgsPerBlk := h.inLine
  have hspot : (f.getWp .user).spot = (f.wp.ch, f.wp.lun, f.wp.pg) := rfl
  rw [hspot] at hnext
  -- Where the place after the pointer's is on the line.
  have hon : ∀ s, f.Advances .user (some s) → f'.OnStripe .user ∧
      f'.wp.page = pageAt (s.1, s.2.1) f.wp.curline s.2.2 := by
    rintro s ⟨g, hg, -, hline, -, hs', hstripe⟩
    cases hadv.symm.trans hg
    have hline' : f'.wp.curline = f.wp.curline := hline
    exact ⟨hstripe, hline' ▸ page_of_spot hs'⟩
  rcases f.ssd.sp.stripeNext_cases f.wp.ch f.wp.lun f.wp.pg with
    ⟨hin, ho⟩ | ⟨-, hc, ho⟩ | ⟨-, hc, hl, ho⟩ | ⟨-, hc, hl, -, ho⟩ | ⟨-, hc, hl, -, ho⟩
  · rw [ho] at hnext
    obtain ⟨hstripe, hpage⟩ := hon _ hnext
    exact ⟨hstripe, .inl (by rw [hpage]; exact ⟨rfl, (oneshot_inside hin).symm⟩)⟩
  · rw [ho] at hnext
    obtain ⟨hstripe, hpage⟩ := hon _ hnext
    refine ⟨hstripe, .inr ?_⟩
    unfold predictNext
    rw [hpage, if_neg (by simpa [WritePointer.page, pageAt] using hc)]
    rfl
  · rw [ho] at hnext
    obtain ⟨hstripe, hpage⟩ := hon _ hnext
    refine ⟨hstripe, .inr ?_⟩
    unfold predictNext
    rw [hpage, if_pos (by simpa [WritePointer.page, pageAt] using hc),
      if_neg (by simpa [WritePointer.page, pageAt] using hl)]
    rfl
  · rw [ho] at hnext
    obtain ⟨hstripe, hpage⟩ := hon _ hnext
    refine ⟨hstripe, .inr ?_⟩
    unfold predictNext
    rw [hpage, if_pos (by simpa [WritePointer.page, pageAt] using hc),
      if_pos (by simpa [WritePointer.page, pageAt] using hl)]
    rfl
  · -- the line is closed, and the next one is opened at its first place
    rw [ho] at hnext
    obtain ⟨next, heq, hopened⟩ := hnext
    obtain ⟨⟨l, lm⟩, -, hg⟩ := bind_eq_ok.1 (heq.symm.trans hadv)
    cases hg
    have hopen := (hopened l lm).2.2
    have hpage : (next l lm).wp.page = pageAt (0, 0) (next l lm).wp.curline 0 :=
      page_of_spot hopen.spot
    refine ⟨hopen.onStripe (hsp ▸ hs), .inr ?_⟩
    unfold predictNext
    rw [hpage,
      if_pos (by simpa [WritePointer.page, pageAt] using hc),
      if_pos (by simpa [WritePointer.page, pageAt] using hl)]
    rfl

/-! ### A page write -/

/-- **Where no page is invalid, nothing is collected.** -/
theorem Sound.refill_calm (h : f.Sound [] front) (hm : f.MapOk f.table ∅) (hw : f.WrittenMapped)
    (hppb : 0 < f.ssd.sp.pgsPerBlk)
    (hipc : ∀ l < f.ssd.sp.blksPerPl, (f.lm.lines l).ipc = 0) :
    Ends f.checkAndRefillWriteCredit (fun f' => ∃ w, f' = { f with wfc := w }) fun _ => True := by
  unfold checkAndRefillWriteCredit forgroundGc
  split_ifs with hcredits hgc
  · rw [bind_assoc]
    refine ((h.doGc hm hw hppb).mono (fun _ h => h) fun _ _ => trivial).bind ?_
    rintro ⟨f₁, ret⟩ (⟨hr, -⟩ | ⟨-, v, front', hc⟩)
    · cases hr
      exact ⟨_, rfl⟩
    · exact absurd (hipc v (h.homed.queued_lt hc.queued)) hc.ipc_pos.ne'
  · exact ⟨_, rfl⟩
  · exact ⟨_, rfl⟩

/-- The page is mapped, and the pointer has moved on: still no page is invalid. -/
theorem Tidy.calm {f₁ f₂ : ConvFtl} (hle : f.ssd.sp.blksPerPl * f.ssd.sp.pgsPerLine ≤
      freePages f.ssd.sp [] front + f.mappedCount)
    (hr : Remapped f f₁ front lpn) (h : f₂.Sound [] (f₁.nextFront .user front))
    (hm : f₂.MapOk f₂.table ∅) (ha : Advanced f₁ f₂) (hlpn : lpn < f.ssd.sp.ttPgs)
    (hnew : lpn ∉ f.mappedSet) : ∀ l < f₂.ssd.sp.blksPerPl, (f₂.lm.lines l).ipc = 0 := by
  have hsp : f₂.ssd.sp = f.ssd.sp := by rw [ha.ssd, hr.sp]
  have htab : f₂.table = Function.update f.table lpn (some f.wp.page) :=
    (table_of_same ha.maptbl).trans hr.table
  have hset : f₂.mappedSet = insert lpn f.mappedSet := by
    ext l
    rw [Finset.mem_insert, mem_mappedSet, mem_mappedSet, hsp, htab]
    by_cases hl : l = lpn
    · subst hl
      simp [hlpn]
    · simp [hl]
  have hcount : f₂.mappedCount = f.mappedCount + 1 := by
    rw [← card_mappedSet, hset, Finset.card_insert_of_notMem hnew, card_mappedSet]
  have hfree := hr.handed.freePages_next
  have hsum := h.freePages_add hm
  rw [hr.sp] at hfree
  rw [hsp, hcount] at hsum
  have hzero : ∑ l ∈ Finset.range f.ssd.sp.blksPerPl, (f₂.lm.lines l).ipc = 0 := by omega
  intro l hl
  exact (Finset.sum_eq_zero_iff.1 hzero) l (Finset.mem_range.2 (hsp ▸ hl))

/-- **A page write of the cleaner with degree 0** puts the page under the pointer, which moves to
where the next page is wanted. -/
theorem Tidy.cleanPage_zero (h : f.Tidy) (hon : f.OnStripe .user) (hlpn : lpn < f.ssd.sp.ttPgs)
    (hnew : lpn ∉ f.mappedSet) {conti : ℤ} (hconti : conti < 0) (con : ℤ) (random : ℕ) :
    Ends (f.cleanPage 0 con conti random lpn)
      (fun r => r.1.table = Function.update f.table lpn (some f.wp.page) ∧ r.1.OnStripe .user ∧
        isNextCorrect f.ssd.sp f.wp.page r.1.wp.page ∧ r.2 = (con + 1, conti, none))
      fun _ => True := by
  obtain ⟨front, hs, hle⟩ := h.sound
  have hppb := pgsPerBlk_pos hs.geom hlpn
  obtain ⟨f₁, hf₁, hr⟩ := hs.remapPage h.map h.written hlpn
  obtain ⟨hsame, -⟩ := (same_remapPage lpn).of_ok hf₁
  have hon₁ := hon.keep (hsame.keeps .user)
  unfold ConvFtl.cleanPage
  rw [hf₁, ok_bind]
  refine ((hr.handed.advanceCleanver 0 con conti false random).mono
    (fun _ h => h) fun _ _ => trivial).with_eq.bind ?_
  rintro ⟨f₂, con₂, conti₂, r₂⟩ ⟨⟨h₂, ha⟩, heq⟩
  dsimp only at h₂ ha ⊢
  obtain ⟨hadv, rfl, rfl, rfl⟩ := advanceCleanver_zero hconti heq
  have hsp : f₂.ssd.sp = f.ssd.sp := by rw [ha.ssd, hr.sp]
  have hstriped : f₁.ssd.sp.Striped := hr.handed.geom.striped (hr.sp ▸ hppb)
  obtain ⟨hon₂, hnext⟩ := hon₁.isNextCorrect_next hstriped hadv (congrArg Ssd.sp ha.ssd)
  have htab : f₂.table = Function.update f.table lpn (some f.wp.page) :=
    (table_of_same ha.maptbl).trans hr.table
  have hmap : f₂.MapOk f₂.table ∅ := by
    rw [table_of_same ha.maptbl]
    exact hr.map.of_same ha.ssd ha.rmap
  have hwm : f₂.WrittenMapped :=
    hr.written.of_same (congrArg Ssd.sp ha.ssd) (table_of_same ha.maptbl) ha.log
  have hcalm := Tidy.calm hle hr h₂ hmap ha hlpn hnew
  obtain ⟨w, hw⟩ : ∃ w, f₂.consumeWriteCredit = { f₂ with wfc := w } := ⟨_, rfl⟩
  rw [hw]
  refine ((h₂.with_wfc w).refill_calm (hmap.of_same rfl rfl) (hwm.of_same rfl rfl rfl)
    (hsp ▸ hppb) hcalm).bind ?_
  rintro f' ⟨w', rfl⟩
  have hwp : f₁.wp = f.wp := hr.wp
  rw [hr.sp, hwp] at hnext
  exact ⟨htab, hon₂.keep ⟨rfl, rfl, fun _ => rfl⟩, hnext, rfl⟩

/-! ### Pages written one after the other -/

/-- **The pages `done` were written in this order,** each where it should be behind the one before
it, and so will be the next one. -/
structure InOrder (f : ConvFtl) (done : List ℕ) : Prop where
  tidy : f.Tidy
  stripe : f.OnStripe .user
  mapped : f.mappedSet.val = done
  chain : (done.map f.maptbl ++ [f.wp.page]).IsChain (isNextCorrect f.ssd.sp)

/-- The pages written are mapped. -/
theorem InOrder.mem (h : f.InOrder done) : lpn ∈ f.mappedSet ↔ lpn ∈ done := by
  rw [← Finset.mem_val, h.mapped, Multiset.mem_coe]

/-- Nothing has been written. -/
theorem Fresh.inOrder {cpp : ConvParams} {spp : Ssdparams} (h : Fresh cpp spp f)
    (hs : f.Sound [] fun _ _ => 0) (hon : f.OnStripe .user) : f.InOrder [] where
  tidy := h.tidy hs
  stripe := hon
  mapped := by
    rw [h.mappedSet]
    rfl
  chain := by simp

/-- **One page more.** -/
theorem InOrder.cleanPage (h : f.InOrder done) (hlpn : lpn < f.ssd.sp.ttPgs) (hnew : lpn ∉ done)
    {conti : ℤ} (hconti : conti < 0) (con : ℤ) (random : ℕ) :
    Ends (f.cleanPage 0 con conti random lpn)
      (fun r => r.1.InOrder (done ++ [lpn]) ∧ r.1.ssd.sp = f.ssd.sp ∧ r.2 = (con + 1, conti, none))
      fun _ => True := by
  have hnot : lpn ∉ f.mappedSet := mt h.mem.1 hnew
  refine ((h.tidy.cleanPage hlpn hnot 0 con conti random).and
    (h.tidy.cleanPage_zero h.stripe hlpn hnot hconti con random)).mono ?_ fun _ _ => trivial
  rintro ⟨f', r⟩ ⟨⟨htidy, hsp, hset⟩, htab, hon, hnext, hr⟩
  dsimp only at htidy hsp hset htab hon hnext hr ⊢
  have hold : done.map f'.maptbl = done.map f.maptbl := List.map_congr_left fun l hl => by
    obtain ⟨p, hp⟩ := Option.isSome_iff_exists.1 (mem_mappedSet.1 (h.mem.2 hl)).2
    have hp' : f'.table l = some p := by
      rw [htab, Function.update_of_ne (show l ≠ lpn from fun he => hnew (he ▸ hl)), hp]
    rw [(table_eq_some hp).2, (table_eq_some hp').2]
  have hself : f'.maptbl lpn = f.wp.page :=
    (table_eq_some (htab ▸ Function.update_self lpn _ f.table)).2
  refine ⟨⟨htidy, hon, ?_, ?_⟩, hsp, hr⟩
  · rw [hset, Finset.insert_val_of_notMem hnot, h.mapped, Multiset.cons_coe, Multiset.coe_eq_coe]
    exact (List.perm_append_singleton lpn done).symm
  · rw [hsp, List.map_append, hold, List.map_singleton, hself, List.append_assoc,
      List.singleton_append, List.isChain_append_cons_cons]
    exact ⟨h.chain, hnext, List.isChain_singleton _⟩

/-- **Pages written in a row** lie in a row. -/
theorem InOrder.next {l m : ℕ} {before behind : List ℕ}
    (h : f.InOrder (before ++ l :: m :: behind)) :
    isNextCorrect f.ssd.sp (f.maptbl l) (f.maptbl m) := by
  have hchain := (List.isChain_append.1 h.chain).1
  rw [List.map_append, List.map_cons, List.map_cons, List.isChain_append_cons_cons] at hchain
  exact hchain.2.1

end ConvFtl

end NvmeVirt
