/-
# Runs of a conventional namespace

Page writes, cleaner calls, write commands and, by induction, runs keep the
invariant of every FTL instance of a namespace, and what is mapped stays mapped.
A run stops only when no free line is left or the cleaner is called with pages
outside the table; no assertion of the driver fails.
-/

import NvmeVirt.ConvFtl.Start

namespace NvmeVirt

open Outcome Inverse

namespace ConvFtl

variable {f f' f'' : ConvFtl} {lpn : ℕ}

/-- **A later state of an instance:** the invariant holds, what was mapped still is, and the reverse
table stays current unless a collection has copied a page. -/
structure Kept (f f' : ConvFtl) : Prop where
  inv : f'.Inv
  sp : f'.ssd.sp = f.ssd.sp
  mapped : ∀ l, (f.table l).isSome → (f'.table l).isSome
  copies : f.gcCopies ≤ f'.gcCopies
  current : f'.gcCopies = f.gcCopies → f.ReverseCurrent → f'.ReverseCurrent
  named : f.RmapNames → f'.RmapNames

theorem Kept.refl (h : f.Inv) : Kept f f :=
  ⟨h, rfl, fun _ hl => hl, le_rfl, fun _ hc => hc, id⟩

theorem Kept.trans (h : Kept f f') (h' : Kept f' f'') : Kept f f'' := by
  obtain ⟨-, hsp, hm, hle, hc, hn⟩ := h
  obtain ⟨hi', hsp', hm', hle', hc', hn'⟩ := h'
  exact ⟨hi', hsp'.trans hsp, fun l hl => hm' l (hm l hl), hle.trans hle',
    fun he hcur => hc' (by omega) (hc (by omega) hcur), fun h => hn' (hn h)⟩

/-- The ways to stop that are left: no line is free, or, if `out`, the step has no meaning. -/
def Stops (out : Prop) (e : Fault) : Prop := e = .noFreeLine ∨ e = .undefined ∧ out

theorem Stops.mono {out out' : Prop} {e : Fault} (h : Stops out e) (hout : out → out') :
    Stops out' e :=
  h.imp_right fun h => ⟨h.1, hout h.2⟩

/-- What a page write achieves, for the invariant. -/
theorem PageDone.kept {front front' : ℕ × ℕ → ℕ → ℕ} (h : PageDone f f' front front' lpn) :
    Kept f f' ∧ (f'.table lpn).isSome :=
  ⟨⟨⟨⟨front', h.sound⟩, h.map, h.written⟩, h.sp,
    fun l hl => (h.dom l).2 (.inr hl), h.copies, h.current, h.named⟩, (h.dom lpn).2 (.inl rfl)⟩

/-- A page write of the host. -/
theorem Inv.writePage (h : f.Inv) (hlpn : lpn < f.ssd.sp.ttPgs) :
    Ends (f.writePage lpn) (fun r => Kept f r.1 ∧ (r.1.table lpn).isSome)
      (fun e => e = .noFreeLine) := by
  obtain ⟨⟨front, hs⟩, hm, hw⟩ := h
  refine (hs.writePage hm hw hlpn).mono ?_ fun e he => he.1
  rintro r ⟨front', hd⟩
  exact hd.kept

/-- Outside the table a page write has no meaning. -/
theorem remapPage_out (hlpn : ¬ lpn < f.ssd.sp.ttPgs) : f.remapPage lpn = .error .undefined := by
  have hd : defined (lpn < f.ssd.sp.ttPgs) = .error .undefined := if_neg hlpn
  unfold ConvFtl.remapPage getMaptblEnt
  rw [hd]
  rfl

/-- A page write of the cleaner. -/
theorem Inv.cleanPage (h : f.Inv) (degree : ℕ) (con conti : ℤ) (random lpn : ℕ) :
    Ends (f.cleanPage degree con conti random lpn) (fun r => Kept f r.1)
      (Stops (¬ lpn < f.ssd.sp.ttPgs)) := by
  by_cases hlpn : lpn < f.ssd.sp.ttPgs
  · obtain ⟨⟨front, hs⟩, hm, hw⟩ := h
    refine (hs.cleanPage hm hw hlpn degree con conti random).mono ?_ fun e he => .inl he.1
    rintro r ⟨front', hd⟩
    exact hd.kept.1
  · unfold ConvFtl.cleanPage
    rw [remapPage_out hlpn]
    exact .inr ⟨rfl, hlpn⟩

/-- The logical page of a page write lies in the table. -/
def InTable (spp : Ssdparams) : PageOp → Prop
  | .host lpn => lpn < spp.ttPgs
  | .clean _ _ _ _ lpn => lpn < spp.ttPgs

/-- **One page write** keeps the invariant. -/
theorem Inv.pageOp (h : f.Inv) (op : PageOp) :
    Ends (f.pageOp op) (Kept f) (Stops (¬ InTable f.ssd.sp op)) := by
  cases op with
  | host lpn =>
    by_cases hlpn : lpn < f.ssd.sp.ttPgs
    · exact ((h.writePage hlpn).mono (fun _ h => h) fun _ he => .inl he).bind fun r hr => hr.1
    · show Ends (f.writePage lpn >>= fun r => .ok r.1) _ _
      unfold ConvFtl.writePage
      rw [remapPage_out hlpn]
      exact .inr ⟨rfl, hlpn⟩
  | clean degree con conti random lpn =>
    exact (h.cleanPage degree con conti random lpn).bind fun r hr => hr

/-- **A run of page writes** keeps the invariant. -/
theorem Inv.pageRun (h : f.Inv) (ops : List PageOp) :
    Ends (runList ConvFtl.pageOp f ops) (Kept f) (Stops (∃ op ∈ ops, ¬ InTable f.ssd.sp op)) := by
  refine Ends.runList (I := Kept f) (fun op hop g hg => ?_) (Kept.refl h)
  refine (hg.inv.pageOp op).mono (fun _ hk => hg.trans hk) fun e he => he.mono fun hout => ?_
  exact ⟨op, hop, by rwa [hg.sp] at hout⟩

/-- **The loop of `phfrag_cleaner`** keeps the invariant, with any draws and any preempt list. -/
theorem Inv.phfragCleanerLoop (a : CleanRequest) (n fuel i : ℕ) (con conti : ℤ) (h : f.Inv) :
    Ends (phfragCleanerLoop a n fuel i f con conti) (fun r => Kept f r.1)
      (Stops (¬ a.endLpn / n < f.ssd.sp.ttPgs)) := by
  induction fuel generalizing i f con conti with
  | zero => exact Kept.refl h
  | succ fuel ih =>
    unfold ConvFtl.phfragCleanerLoop
    dsimp only
    by_cases hend : a.endLpn < a.startLpn + i * n
    · rw [if_pos hend]
      exact Kept.refl h
    rw [if_neg hend]
    split
    · exact Kept.refl h
    have hpage := (h.cleanPage a.degree con conti (a.random i)
      ((a.startLpn + i * n) / n)).mono (fun _ h => h) fun e he => he.mono fun hout hin => hout
        (lt_of_le_of_lt (Nat.div_le_div_right (not_lt.1 hend)) hin)
    refine hpage.bind ?_
    rintro ⟨f₁, con₁, conti₁, r⟩ hk
    dsimp only at hk ⊢
    split
    · exact hk
    by_cases hcon : ((16 * f₁.ssd.sp.pgsPerOneshotpg : ℕ) : ℤ) ≤ con₁
    · rw [if_pos hcon]
      exact hk
    · rw [if_neg hcon]
      refine (ih (i + 1) con₁ conti₁ hk.inv).mono (fun r hr => hk.trans hr) fun _ he => ?_
      rwa [hk.sp] at he

end ConvFtl

open ConvFtl

namespace ConvNs

variable {ns ns' ns'' : ConvNs} {f : ConvFtl} {q : ℕ}

/-- **The invariant of a namespace.** -/
structure Inv (ns : ConvNs) : Prop where
  parts_pos : 0 < ns.nrParts
  ftl : ∀ q, q < ns.nrParts → (ns.ftls q).Inv
  sp : ∀ q, q < ns.nrParts → (ns.ftls q).ssd.sp = ns.sp

/-- **A later state of a namespace.** -/
structure Kept (ns ns' : ConvNs) : Prop where
  inv : ns'.Inv
  nrParts : ns'.nrParts = ns.nrParts
  size : ns'.size = ns.size
  sp : ns'.sp = ns.sp
  ftl : ∀ q, q < ns.nrParts → ConvFtl.Kept (ns.ftls q) (ns'.ftls q)

theorem Kept.refl (h : ns.Inv) : Kept ns ns :=
  ⟨h, rfl, rfl, rfl, fun q hq => ConvFtl.Kept.refl (h.ftl q hq)⟩

theorem Kept.trans (h : Kept ns ns') (h' : Kept ns' ns'') : Kept ns ns'' :=
  ⟨h'.inv, h'.nrParts.trans h.nrParts, h'.size.trans h.size, h'.sp.trans h.sp, fun q hq =>
    (h.ftl q hq).trans (h'.ftl q (h.nrParts ▸ hq))⟩

/-- The write buffer is no part of the invariant. -/
theorem Inv.with_writeBuffer (h : ns.Inv) (b : Buffer) : Kept ns { ns with writeBuffer := b } :=
  ⟨⟨h.parts_pos, h.ftl, h.sp⟩, rfl, rfl, rfl, fun q hq => ConvFtl.Kept.refl (h.ftl q hq)⟩

/-- A later state of one instance is a later state of the namespace. -/
theorem Inv.update (h : ns.Inv) (hq : q < ns.nrParts) (hf : ConvFtl.Kept (ns.ftls q) f) :
    Kept ns { ns with ftls := Function.update ns.ftls q f } := by
  have hsp : ConvNs.sp { ns with ftls := Function.update ns.ftls q f } = ns.sp := by
    unfold ConvNs.sp
    by_cases h0 : 0 = q
    · subst h0
      simp [hf.sp]
    · simp [h0]
  refine ⟨⟨h.parts_pos, fun r hr => ?_, fun r hr => ?_⟩, rfl, rfl, hsp, fun r hr => ?_⟩
  · by_cases he : r = q
    · subst he
      simpa using hf.inv
    · simpa [he] using h.ftl r hr
  · rw [hsp]
    by_cases he : r = q
    · subst he
      simpa [hf.sp] using h.sp r hr
    · simpa [he] using h.sp r hr
  · by_cases he : r = q
    · subst he
      simpa using hf
    · simpa [he] using ConvFtl.Kept.refl (h.ftl r hr)

/-- One round of the loop of `conv_write`. -/
theorem Inv.writeLpn (h : ns.Inv) {lpn : ℕ} (hlpn : lpn / ns.nrParts < ns.sp.ttPgs) :
    Ends (ns.writeLpn lpn)
      (fun r => Kept ns r.1 ∧
        ((r.1.ftls (lpn % ns.nrParts)).table (lpn / ns.nrParts)).isSome)
      (fun e => e = .noFreeLine) := by
  have hq : lpn % ns.nrParts < ns.nrParts := Nat.mod_lt _ h.parts_pos
  unfold ConvNs.writeLpn
  refine ((h.ftl _ hq).writePage (by rw [h.sp _ hq]; exact hlpn)).bind ?_
  rintro ⟨f, last⟩ ⟨hk, hs⟩
  refine ⟨h.update hq hk, ?_⟩
  simpa using hs

/-- The local page numbers of an accepted command lie in the table. -/
theorem inFtlRange_lpn {slba length lpn : ℕ} (h : ns.inFtlRange slba length)
    (hl : lpn ≤ ns.endLpn slba length) : lpn / ns.nrParts < ns.sp.ttPgs :=
  lt_of_le_of_lt (Nat.div_le_div_right hl) h

/-- The pages of a write command lie in the tables and are mapped. -/
def WrittenBy (ns ns' : ConvNs) (slba length : ℕ) : Prop :=
  ∀ lpn, slba / ns.sp.secsPerPg ≤ lpn → lpn ≤ ns.endLpn slba length →
    lpn / ns.nrParts < ns.sp.ttPgs ∧
      ((ns'.ftls (lpn % ns.nrParts)).table (lpn / ns.nrParts)).isSome

/-- **A write command** keeps the invariant and, when it is accepted, maps each of its pages. -/
theorem Inv.convWrite (h : ns.Inv) (slba length : ℕ) :
    Ends (ns.convWrite slba length)
      (fun r => Kept ns r.1 ∧ (r.2.isSome → WrittenBy ns r.1 slba length))
      (fun e => e = .noFreeLine) := by
  unfold ConvNs.convWrite
  rw [defined_bind h.parts_pos]
  dsimp only
  split_ifs with hr hb
  · exact ⟨h.with_writeBuffer _, fun hs => absurd hs Bool.false_ne_true⟩
  · set ns₁ : ConvNs :=
      { ns with writeBuffer := (bufferAllocate ns.writeBuffer (lbaToByte (length + 1))).1 }
    have hk₁ : Kept ns ns₁ := h.with_writeBuffer _
    set start := slba / ns.sp.secsPerPg with hstart
    have hend : ns₁.endLpn slba length = ns.endLpn slba length := rfl
    have hloop := Ends.forRange (n := ns₁.endLpn slba length + 1 - start)
      (s := (ns₁, ([] : List ℕ))) (b := fun i s =>
        s.1.writeLpn (start + i) >>= fun r => .ok (r.1, s.2 ++ r.2))
      (fun i s => Kept ns s.1 ∧ ∀ j, j < i →
        ((s.1.ftls ((start + j) % ns.nrParts)).table ((start + j) / ns.nrParts)).isSome)
      (E := fun e => e = .noFreeLine) ⟨hk₁, by omega⟩ ?_
    · refine hloop.bind ?_
      rintro ⟨ns₂, releases⟩ ⟨hk₂, hw⟩
      refine ⟨hk₂, fun _ lpn h1 h2 => ⟨inFtlRange_lpn hr h2, ?_⟩⟩
      have := hw (lpn - start) (by omega)
      rwa [Nat.add_sub_cancel' h1] at this
    · rintro i hi ⟨t, rs⟩ ⟨hk, hw⟩
      have hin := inFtlRange_lpn hr (show start + i ≤ ns.endLpn slba length by omega)
      rw [← hk.sp, ← hk.nrParts] at hin
      refine (hk.inv.writeLpn hin).bind ?_
      rintro ⟨t', rs'⟩ ⟨hk', hs⟩
      refine ⟨hk.trans hk', fun j hj => ?_⟩
      rw [hk.nrParts] at hs
      rcases Nat.lt_succ_iff_lt_or_eq.1 hj with hj | rfl
      · have hq : (start + j) % ns.nrParts < t.nrParts := by
          rw [hk.nrParts]
          exact Nat.mod_lt _ h.parts_pos
        exact (hk'.ftl _ hq).mapped _ (hw j hj)
      · exact hs
  · exact ⟨Kept.refl h, fun hs => absurd hs Bool.false_ne_true⟩

/-- The pages and the instance of a cleaner call exist. -/
def InRange (ns : ConvNs) : ConvOp → Prop
  | .clean a _ _ => a.idx < ns.nrParts ∧ a.endLpn / ns.nrParts < ns.sp.ttPgs
  | _ => True

/-- **A call of `phfrag_cleaner`** keeps the invariant. -/
theorem Inv.phfragCleaner (h : ns.Inv) (a : CleanRequest) (con conti : ℤ) :
    Ends (ns.phfragCleaner a con conti) (fun r => Kept ns r.1)
      (Stops (¬ ns.InRange (.clean a con conti))) := by
  unfold ConvNs.phfragCleaner
  by_cases hidx : 0 < ns.nrParts ∧ a.idx < ns.nrParts
  · rw [defined_bind hidx]
    have hloop := Inv.phfragCleanerLoop a ns.nrParts (a.endLpn + 1 - a.startLpn) 0 con conti
      (h.ftl _ hidx.2)
    rw [h.sp _ hidx.2] at hloop
    refine (hloop.mono (fun _ h => h) fun e he => he.mono fun hout hin => hout hin.2).bind ?_
    rintro ⟨f, r, con', conti'⟩ hk
    exact h.update hidx.2 hk
  · have hd : defined (0 < ns.nrParts ∧ a.idx < ns.nrParts) = .error .undefined := if_neg hidx
    rw [hd]
    exact .inr ⟨rfl, fun hin => hidx ⟨h.parts_pos, hin.1⟩⟩

/-- **One operation** keeps the invariant. -/
theorem Inv.exec (h : ns.Inv) (op : ConvOp) :
    Ends (ns.exec op) (Kept ns) (Stops (¬ ns.InRange op)) := by
  cases op with
  | write slba length =>
    exact ((h.convWrite slba length).mono (fun _ h => h) fun _ he => .inl he).bind
      fun r hr => hr.1
  | release size => exact h.with_writeBuffer _
  | clean a con conti => exact (h.phfragCleaner a con conti).bind fun r hr => hr

/-- Later states have the same tables. -/
theorem Kept.inRange (h : Kept ns ns') (op : ConvOp) : ns'.InRange op ↔ ns.InRange op := by
  cases op with
  | clean a con conti => simp only [InRange, h.nrParts, h.sp]
  | write slba length => rfl
  | release size => rfl

/-- **Every run** keeps the invariant, and stops only for want of a free line or where a cleaner
call has no meaning. -/
theorem Inv.run (h : ns.Inv) (ops : List ConvOp) :
    Ends (runList ConvNs.exec ns ops) (Kept ns) (Stops (∃ op ∈ ops, ¬ ns.InRange op)) := by
  refine Ends.runList (I := Kept ns) (fun op hop t ht => ?_) (Kept.refl h)
  refine (ht.inv.exec op).mono (fun _ hk => ht.trans hk) fun e he => he.mono fun hout => ?_
  exact ⟨op, hop, fun hin => hout ((ht.inRange op).2 hin)⟩

end ConvNs

/-- **A fresh namespace satisfies the invariant** if its coordinates fit `struct ppa`. -/
theorem convInitNamespace_inv {size : ℕ} {cfg : FtlConfigs} {ns : ConvNs}
    (h : convInitNamespace size cfg = .ok ns) (hfit : ns.sp.FitsPpa) :
    ns.Inv ∧ ∀ q, Fresh convInitParams ns.sp (ns.ftls q) := by
  unfold convInitNamespace at h
  simp only [bind_eq_ok] at h
  obtain ⟨spp, hspp, ftl, hftl, h⟩ := h
  have hparts : 0 < cfg.ssdPartitions := by
    unfold ssdInitParams at hspp
    simp only [bind_eq_ok, defined_eq_ok] at hspp
    exact hspp.choose_spec.1
  cases h
  have hsp : ftl.ssd.sp = spp := by
    unfold convInitFtl at hftl
    simp only [bind_eq_ok] at hftl
    obtain ⟨-, -, _, -, _, -, _, -, hftl⟩ := hftl
    cases hftl
    rfl
  obtain ⟨hs, hfr⟩ := convInitFtl_sound hspp (by rw [← hsp]; exact hfit) hftl
  refine ⟨⟨hparts, fun q _ => hfr.inv hs, fun q _ => rfl⟩, fun q => ?_⟩
  show Fresh convInitParams ftl.ssd.sp ftl
  rw [hsp]
  exact hfr

end NvmeVirt
