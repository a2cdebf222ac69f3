/-
# One turn of the cleaner

A turn goes through one list of active chunks.  The pages that are mapped and the
pages of the chunks that are still to be written stay the same taken together,
whatever chunk goes first, waits or is put back; and a turn that calls the cleaner
at all makes the chunks fewer or shorter.
-/

import NvmeVirt.ConvFtl.CleanCall

namespace NvmeVirt

open Outcome ConvFtl

/-! ### The pages of chunks -/

/-- The pages of the table from `first` to `last` in steps of `n`. -/
def localsFrom (n first last : ℕ) : List ℕ := List.range' (first / n) (stepCount n first last)

@[simp] theorem length_localsFrom (n first last : ℕ) :
    (localsFrom n first last).length = stepCount n first last := List.length_range'

/-- The pages before and behind a page. -/
theorem localsFrom_append {n first last w : ℕ} (hn : 0 < n) (hw : w ≤ stepCount n first last) :
    List.range' (first / n) w ++ localsFrom n (first + w * n) last = localsFrom n first last := by
  have hlen : stepCount n (first + w * n) last = stepCount n first last - w := by
    unfold stepCount
    rw [← Nat.sub_sub, Nat.mul_comm, Nat.sub_mul_div]
  unfold localsFrom
  rw [Nat.add_mul_div_right _ _ hn, hlen, List.range'_append_1, Nat.add_sub_cancel' hw]

/-- The pages of the table a chunk stands for. -/
def LbaChunk.locals (n : ℕ) (c : LbaChunk) : List ℕ := localsFrom n c.startLpn c.endLpn

/-- The pages of a list of chunks. -/
def pagesOf (n : ℕ) (cs : List LbaChunk) : Multiset ℕ := (cs.flatMap (LbaChunk.locals n) : List ℕ)

section

variable (n : ℕ) (c : LbaChunk) (cs ds : List LbaChunk)

@[simp] theorem pagesOf_nil : pagesOf n [] = 0 := rfl

@[simp] theorem pagesOf_cons : pagesOf n (c :: cs) = (c.locals n : Multiset ℕ) + pagesOf n cs := by
  unfold pagesOf
  rw [List.flatMap_cons, Multiset.coe_add]

@[simp] theorem pagesOf_append : pagesOf n (cs ++ ds) = pagesOf n cs + pagesOf n ds := by
  unfold pagesOf
  rw [List.flatMap_append, Multiset.coe_add]

/-- What is left to do: the pages of the chunks, and the chunks. -/
def weight (cs : List LbaChunk) : ℕ := (pagesOf n cs).card + cs.length

@[simp] theorem weight_nil : weight n [] = 0 := rfl

@[simp] theorem weight_cons : weight n (c :: cs) = (c.locals n).length + 1 + weight n cs := by
  unfold weight
  rw [pagesOf_cons, Multiset.card_add, Multiset.coe_card, List.length_cons]
  omega

@[simp] theorem weight_append : weight n (cs ++ ds) = weight n cs + weight n ds := by
  unfold weight
  rw [pagesOf_append, Multiset.card_add, List.length_append]
  omega

end

/-- One entry taken out of a list of chunks. -/
theorem getElem?_split {k : ℕ} {cs : List LbaChunk} {c : LbaChunk} (h : cs[k]? = some c) :
    cs = cs.take k ++ c :: cs.drop (k + 1) ∧ cs.eraseIdx k = cs.take k ++ cs.drop (k + 1) ∧
      ∀ d, cs.set k d = cs.take k ++ d :: cs.drop (k + 1) := by
  obtain ⟨hk, hc⟩ := List.getElem?_eq_some_iff.1 h
  refine ⟨?_, List.eraseIdx_eq_take_drop_succ cs k, fun d =>
    List.set_eq_take_append_cons_drop.trans (if_pos hk)⟩
  rw [← hc, List.getElem_cons_drop, List.take_append_drop]

/-! ### A call -/

/-- What a turn leaves alone: the other partitions, and the geometry of the one that is
cleaned. -/
structure Elsewhere (q : ℕ) (spp : Ssdparams) (ns ns' : ConvNs) : Prop where
  nrParts : ns'.nrParts = ns.nrParts
  others : ∀ p, p ≠ q → ns'.ftls p = ns.ftls p
  tidy : (ns'.ftls q).Tidy
  sp : (ns'.ftls q).ssd.sp = spp

theorem Elsewhere.trans {q : ℕ} {spp : Ssdparams} {ns ns' ns'' : ConvNs}
    (h : Elsewhere q spp ns ns') (h' : Elsewhere q spp ns' ns'') : Elsewhere q spp ns ns'' :=
  ⟨h'.nrParts.trans h.nrParts, fun p hp => (h'.others p hp).trans (h.others p hp), h'.tidy, h'.sp⟩

/-- The pages `m` of a partition can be written: none twice, and all lie in the table. -/
structure Writable (spp : Ssdparams) (m : Multiset ℕ) : Prop where
  nodup : m.Nodup
  lt : ∀ l ∈ m, l < spp.ttPgs

/-- The way to stop that is left: no line is free, as the pages do not fit. -/
def Overfull (spp : Ssdparams) (m : Multiset ℕ) (e : CleanStop) : Prop :=
  e = .fault .noFreeLine ∧ spp.blksPerPl * spp.pgsPerLine < m.card + 2 * spp.pgsPerLine

namespace TurnState

variable {n q degree : ℕ} {draws : Draws} {limit : ℤ} {spp : Ssdparams} {m : Multiset ℕ}
  {t t' : TurnState} {c c' : LbaChunk}

/-- The pages that are mapped in partition `q`. -/
def mapped (t : TurnState) (q : ℕ) : Multiset ℕ := (t.ns.ftls q).mappedSet.val

/-- The result of a call for chunk `c`. -/
structure Called (n q : ℕ) (spp : Ssdparams) (t : TurnState) (c : LbaChunk) (force : Bool)
    (r : TurnState × LbaChunk × Option (ℤ × ℤ × ℕ × Bool × Option ℕ)) : Prop where
  else_ : Elsewhere q spp t.ns r.1.ns
  active : r.1.active = t.active
  waiting : r.1.waiting = t.waiting
  restart : r.1.restart = t.restart
  idx : r.2.1.idx = c.idx
  endLpn : r.2.1.endLpn = c.endLpn
  all : r.2.2 = none → r.1.mapped q = t.mapped q + c.locals n
  rest : ∀ ch lun start preempt k, r.2.2 = some (ch, lun, start, preempt, k) →
    r.1.mapped q + localsFrom n start c.endLpn = t.mapped q + c.locals n ∧
      0 < stepCount n start c.endLpn ∧
      (preempt = false ∧ stepCount n start c.endLpn < (c.locals n).length ∨
        preempt = true ∧ force = false ∧ stepCount n start c.endLpn ≤ (c.locals n).length ∧
          ∃ i, k = some i ∧ i < t.waiting.length)

/-- **A call of `phfrag_cleaner`** for a chunk whose pages are still to be written. -/
theorem ends_phfragCleaner (hn : t.ns.nrParts = n) (hq : q < n) (htidy : (t.ns.ftls q).Tidy)
    (hsp : (t.ns.ftls q).ssd.sp = spp) (hm : Writable spp m) {rest : Multiset ℕ}
    (hbal : t.mapped q + ((c.locals n : Multiset ℕ) + rest) = m) (hidx : c.idx = q)
    (force : Bool) :
    Ends (t.phfragCleaner degree draws c force) (Called n q spp t c force) (Overfull spp m) := by
  have hn0 : 0 < n := by omega
  have hnew : ∀ l ∈ c.locals n, l < spp.ttPgs ∧ l ∉ (t.ns.ftls q).mappedSet := by
    intro l hl
    refine ⟨hm.lt l ?_, fun hin => ?_⟩
    · rw [← hbal, Multiset.mem_add, Multiset.mem_add]
      exact .inr (.inl hl)
    · have hdis := (Multiset.nodup_add.1 (hbal ▸ hm.nodup)).2.2
      exact Multiset.disjoint_left.1 hdis hin (Multiset.mem_add.2 (.inl hl))
  have hcard : (t.ns.ftls q).mappedSet.card + stepCount n c.startLpn c.endLpn ≤ m.card := by
    rw [← hbal, Multiset.card_add, Multiset.card_add, Multiset.coe_card, LbaChunk.locals,
      length_localsFrom]
    exact Nat.add_le_add_left (Nat.le_add_right _ _) _
  have hrounds : stepCount n c.startLpn c.endLpn ≤ c.endLpn + 1 - c.startLpn := by
    by_contra hlt
    have := (lt_stepCount hn0).1 (not_le.1 hlt)
    have := Nat.le_mul_of_pos_right (c.endLpn + 1 - c.startLpn) hn0
    omega
  obtain ⟨a, ha⟩ : ∃ a : CleanRequest, a = {
    startLpn := c.startLpn, endLpn := c.endLpn, degree := degree, preempt := t.waiting
    idx := c.idx, force := force, noReturn := force, random := draws t.calls } := ⟨_, rfl⟩
  have hstart : a.startLpn = c.startLpn := by rw [ha]
  have hend : a.endLpn = c.endLpn := by rw [ha]
  have hcall : Ends (t.ns.phfragCleaner a t.count c.conti)
      (fun r => ∃ f w, r.1 = { t.ns with ftls := Function.update t.ns.ftls q f } ∧
        Cleaned a n (t.ns.ftls q) 0 w (f, r.2)) (fun e => Overfull spp m (.fault e)) := by
    have hloop := htidy.phfragCleanerLoop a hn0 (a.endLpn + 1 - a.startLpn) 0 t.count c.conti
      (Nat.zero_le _) (by rw [hstart, hend]; omega) (by
        rw [hstart, hend, hsp, Nat.add_zero, Nat.sub_zero]
        exact hnew)
    have hida : a.idx = q := by rw [ha, hidx]
    unfold ConvNs.phfragCleaner
    rw [hn, hida, defined_bind ⟨hn0, hq⟩]
    refine (hloop.mono (fun _ h => h) ?_).bind ?_
    · rintro e ⟨he, hfull⟩
      rw [hstart, hend, hsp] at hfull
      exact ⟨congrArg _ he, by omega⟩
    · rintro ⟨f, r, con, conti⟩ ⟨w, hw⟩
      exact ⟨f, w, by rw [← hn], hw⟩
  unfold phfragCleaner
  rw [← ha]
  refine (Ends.mapError hcall).bind ?_
  rintro ⟨ns, r, count, conti⟩ ⟨f, w, rfl, hw⟩
  have htidy' := hw.tidy
  have hsp' := hw.sp.trans hsp
  have hmapped := hw.mapped
  have hle := hw.le
  have hall := hw.all
  have hrest := hw.rest
  have hforce : a.force = force := by rw [ha]
  have hpre : a.preempt = t.waiting := by rw [ha]
  rw [hstart, hend] at hle hall
  rw [hstart, hend, hforce, hpre] at hrest
  rw [hstart, Nat.add_zero, Nat.sub_zero] at hmapped
  dsimp only at htidy' hsp' hmapped hall hrest ⊢
  have hself : Function.update t.ns.ftls q f q = f := Function.update_self _ _ _
  have helse : Elsewhere q spp t.ns { t.ns with ftls := Function.update t.ns.ftls q f } :=
    ⟨rfl, fun p hp => Function.update_of_ne hp _ _, (congrArg Tidy hself).mpr htidy',
      (congrArg (fun f => f.ssd.sp) hself).trans hsp'⟩
  have hset : (Function.update t.ns.ftls q f q).mappedSet.val =
      t.mapped q + List.range' (c.startLpn / n) w := by
    rw [hself]
    exact hmapped
  cases r with
  | none =>
    refine ⟨helse, rfl, rfl, rfl, rfl, rfl, fun _ => ?_, fun _ _ _ _ _ h => by cases h⟩
    exact hset.trans (by rw [hall rfl]; rfl)
  | some p =>
    obtain ⟨hlt, hp, hkind⟩ := hrest p rfl
    have hsplit := localsFrom_append hn0 hle
    have hlen := congrArg List.length hsplit
    rw [List.length_append, List.length_range', length_localsFrom, length_localsFrom] at hlen
    have hres : ∀ preempt, p.preempt = some preempt → Called n q spp t c force
        ({ t with
            ns := { t.ns with ftls := Function.update t.ns.ftls q f }
            count := count, calls := t.calls + 1 }, { c with conti := conti },
          some (p.ch, p.lun, c.startLpn + w * n, preempt, p.preemptCounter)) := by
      intro preempt hpreempt
      refine ⟨helse, rfl, rfl, rfl, rfl, rfl, fun h => (by cases h), fun _ _ _ _ _ h => ?_⟩
      cases h
      refine ⟨?_, by omega, ?_⟩
      · show (Function.update t.ns.ftls q f q).mappedSet.val + _ = _
        rw [hset, add_assoc, Multiset.coe_add, hsplit]
        rfl
      · rw [hpreempt] at hkind
        unfold LbaChunk.locals
        rw [length_localsFrom]
        rcases hkind with ⟨hk, hpos⟩ | ⟨hk, hf, hcounter⟩
        · cases hk
          exact .inl ⟨rfl, by omega⟩
        · cases hk
          exact .inr ⟨rfl, hf, by omega, hcounter⟩
    dsimp only
    rcases hkind with ⟨hk, -⟩ | ⟨hk, -⟩
    · rw [hp, hk]
      exact hres false hk
    · rw [hp, hk]
      exact hres true hk

/-! ### A turn -/

/-- **What holds during a turn** on the lists of partition `q`, when `todo` is left of the active
list: the mapped pages and those of the chunks are the pages `m`, every chunk is one of the
partition, and a chunk that waits has a page left. -/
structure OnTurn (n q : ℕ) (spp : Ssdparams) (ns₀ : ConvNs) (m : Multiset ℕ)
    (todo : List LbaChunk) (t : TurnState) : Prop where
  else_ : Elsewhere q spp ns₀ t.ns
  balance : t.mapped q + (pagesOf n t.active + pagesOf n todo + pagesOf n t.waiting) = m
  active : ∀ c ∈ t.active, c.idx = q
  todo : ∀ c ∈ todo, c.idx = q
  waiting : ∀ c ∈ t.waiting, c.idx = q ∧ 0 < (c.locals n).length

variable {ns₀ : ConvNs} {todo : List LbaChunk}

/-- A call moves pages from a chunk to the table. -/
theorem balance_of_call {l l' a b x m : Multiset ℕ} (hm : a + (l + x) = m)
    (hr : b + l' = a + l) : b + (l' + x) = m := by
  rw [← add_assoc, hr, add_assoc, hm]

/-- **The entry that is preferred** gets shorter or is done. -/
theorem ends_preemptWith (hn : ns₀.nrParts = n) (hq : q < n) (hm : Writable spp m)
    (h : OnTurn n q spp ns₀ m todo t) {i : ℕ} (hi : i < t.waiting.length) :
    Ends (t.preemptWith degree draws q (some i))
      (fun r => OnTurn n q spp ns₀ m (todo ++ r.2) r.1 ∧ r.1.active = t.active ∧
        weight n r.2 + weight n r.1.waiting < weight n t.waiting) (Overfull spp m) := by
  obtain ⟨prem, hprem⟩ : ∃ prem, t.waiting[i]? = some prem := ⟨_, List.getElem?_eq_getElem hi⟩
  obtain ⟨hwait, herase, hset⟩ := getElem?_split hprem
  obtain ⟨before, hbefore⟩ : ∃ ws, ws = t.waiting.take i := ⟨_, rfl⟩
  obtain ⟨behind, hbehind⟩ : ∃ ws, ws = t.waiting.drop (i + 1) := ⟨_, rfl⟩
  rw [← hbefore, ← hbehind] at hwait herase hset
  have hmem : ∀ c, c = prem ∨ c ∈ before ∨ c ∈ behind → c ∈ t.waiting := by
    intro c hc
    rw [hwait, List.mem_append, List.mem_cons]
    tauto
  have hidx := (h.waiting prem (hmem _ (.inl rfl))).1
  have hbal : t.mapped q + ((prem.locals n : Multiset ℕ) + (pagesOf n t.active + pagesOf n todo +
      pagesOf n before + pagesOf n behind)) = m := by
    have hpages : pagesOf n t.waiting =
        pagesOf n before + ((prem.locals n : Multiset ℕ) + pagesOf n behind) := by
      rw [hwait, pagesOf_append, pagesOf_cons]
    rw [← h.balance, hpages]
    abel
  have hweight : weight n t.waiting =
      weight n before + ((prem.locals n).length + 1 + weight n behind) := by
    rw [hwait, weight_append, weight_cons]
  unfold preemptWith
  rw [Option.bind_some, hprem, Option.map_some]
  dsimp only
  rw [if_neg (not_not.2 hidx)]
  refine (ends_phfragCleaner (h.else_.nrParts.trans hn) hq h.else_.tidy h.else_.sp hm hbal hidx
    true).bind ?_
  rintro ⟨t₁, c₁, r⟩ hc
  have helse := h.else_.trans hc.else_
  have hact := hc.active
  have hwaiting := hc.waiting
  have hidx₁ := hc.idx.trans hidx
  have hend₁ := hc.endLpn
  have hall := hc.all
  have hrest := hc.rest
  dsimp only at helse hact hwaiting hidx₁ hend₁ hall hrest ⊢
  cases r with
  | none =>
    refine ⟨⟨helse, ?_, hact ▸ h.active, ?_, ?_⟩, hact, ?_⟩
    · refine Eq.trans ?_ (balance_of_call hbal ((add_zero _).trans (hall rfl)))
      show t₁.mapped q + _ = _
      rw [hact, hwaiting, herase, List.append_nil, pagesOf_append]
      abel
    · rw [List.append_nil]
      exact h.todo
    · intro c hmemc
      rw [hwaiting, herase, List.mem_append] at hmemc
      exact h.waiting c (hmem c (.inr hmemc))
    · dsimp only
      rw [hwaiting, herase, weight_append, weight_nil]
      omega
  | some r =>
    obtain ⟨ch, lun, start, preempt, k⟩ := r
    obtain ⟨hpages, hpos, hkind⟩ := hrest _ _ _ _ _ rfl
    have hshort : stepCount n start prem.endLpn < (prem.locals n).length := by
      rcases hkind with ⟨-, hlt⟩ | ⟨-, hf, -⟩
      · exact hlt
      · cases hf
    have hnew := balance_of_call hbal hpages
    have hlocals : ∀ ch lun conti, LbaChunk.locals n
        { c₁ with startLpn := start, ch := ch, lun := lun, conti := conti } =
          localsFrom n start prem.endLpn := fun _ _ _ => by rw [LbaChunk.locals, hend₁]
    dsimp only
    split_ifs with hback
    · -- the rest goes to the end of the active list
      refine ⟨⟨helse, ?_, hact ▸ h.active, ?_, ?_⟩, hact, ?_⟩
      · refine Eq.trans ?_ hnew
        show t₁.mapped q + _ = _
        rw [hact, hwaiting, herase, pagesOf_append, pagesOf_append, pagesOf_cons, pagesOf_nil,
          hlocals]
        abel
      · intro c hmemc
        rcases List.mem_append.1 hmemc with hmemc | hmemc
        · exact h.todo c hmemc
        · rw [List.mem_singleton.1 hmemc]
          exact hidx₁
      · intro c hmemc
        rw [hwaiting, herase, List.mem_append] at hmemc
        exact h.waiting c (hmem c (.inr hmemc))
      · dsimp only
        rw [hwaiting, herase, weight_append, weight_cons, weight_nil, hlocals,
          length_localsFrom]
        omega
    · -- the rest waits for its die
      refine ⟨⟨helse, ?_, hact ▸ h.active, ?_, ?_⟩, hact, ?_⟩
      · refine Eq.trans ?_ hnew
        show t₁.mapped q + _ = _
        rw [hact, hwaiting, hset, List.append_nil, pagesOf_append, pagesOf_cons, hlocals]
        abel
      · rw [List.append_nil]
        exact h.todo
      · intro c hmemc
        rw [hwaiting, hset, List.mem_append, List.mem_cons] at hmemc
        rcases hmemc with hmemc | rfl | hmemc
        · exact h.waiting c (hmem c (.inr (.inl hmemc)))
        · exact ⟨hidx₁, by rw [hlocals, length_localsFrom]; exact hpos⟩
        · exact h.waiting c (hmem c (.inr (.inr hmemc)))
      · dsimp only
        rw [hwaiting, hset, weight_append, weight_cons, weight_nil, hlocals,
          length_localsFrom]
        omega

/-- What a turn achieves with `w` left to do before; `busy` says that it calls the cleaner. -/
structure TurnDone (n q : ℕ) (spp : Ssdparams) (ns₀ : ConvNs) (m : Multiset ℕ) (w : ℕ)
    (busy : Prop) (t : TurnState) : Prop where
  on : OnTurn n q spp ns₀ m [] t
  le : weight n t.active + weight n t.waiting ≤ w
  less : busy → weight n t.active + weight n t.waiting < w
  active : t.restart = true → t.active ≠ []

/-- A turn that goes on with less to do. -/
theorem TurnDone.of_less {w w' : ℕ} {busy busy' : Prop}
    (h : TurnDone n q spp ns₀ m w' busy' t) (hw : w' < w) : TurnDone n q spp ns₀ m w busy t :=
  ⟨h.on, h.le.trans hw.le, fun _ => h.le.trans_lt hw, h.active⟩

/-- **A turn** keeps the pages, and if it calls the cleaner there is less to do. -/
theorem ends_visitAll (hn : ns₀.nrParts = n) (hq : q < n) (hm : Writable spp m)
    (h : OnTurn n q spp ns₀ m todo t) (hrestart : t.restart = false) :
    Ends (visitAll degree draws q limit todo t)
      (TurnDone n q spp ns₀ m (weight n t.active + weight n todo + weight n t.waiting)
        (todo ≠ [] ∧ t.count < limit)) (Overfull spp m) := by
  induction todo generalizing t with
  | nil =>
    refine ⟨h, by rw [weight_nil]; rfl, fun hb => absurd rfl hb.1, fun hr => ?_⟩
    rw [hrestart] at hr
    cases hr
  | cons c todo ih =>
    have hidx := h.todo c (List.mem_cons_self)
    unfold visitAll
    rw [if_neg (not_not.2 hidx)]
    by_cases hlim : limit ≤ t.count
    · rw [if_pos hlim]
      refine ⟨⟨h.else_, ?_, ?_, by simp, h.waiting⟩, ?_, fun hb => absurd hlim (not_le.2 hb.2), ?_⟩
      · refine Eq.trans ?_ h.balance
        show t.mapped q + _ = _
        dsimp only
        rw [pagesOf_append, pagesOf_nil]
        abel
      · intro d hd
        exact (List.mem_append.1 hd).elim (h.active d) (h.todo d)
      · dsimp only
        rw [weight_append]
      · intro _
        simp
    rw [if_neg hlim]
    have hbal : t.mapped q + ((c.locals n : Multiset ℕ) +
        (pagesOf n t.active + pagesOf n todo + pagesOf n t.waiting)) = m := by
      rw [← h.balance, pagesOf_cons]
      abel
    refine (ends_phfragCleaner (h.else_.nrParts.trans hn) hq h.else_.tidy h.else_.sp hm hbal hidx
      false).bind ?_
    rintro ⟨t₁, c₁, r⟩ hc
    have helse := h.else_.trans hc.else_
    have hact := hc.active
    have hwaiting := hc.waiting
    have hrestart₁ := hc.restart.trans hrestart
    have hidx₁ := hc.idx.trans hidx
    have hend₁ := hc.endLpn
    have hall := hc.all
    have hrest := hc.rest
    have htodo : ∀ d ∈ todo, d.idx = q := fun d hd => h.todo d (List.mem_cons_of_mem c hd)
    dsimp only at helse hact hwaiting hrestart₁ hidx₁ hend₁ hall hrest ⊢
    rw [weight_cons]
    cases r with
    | none =>
      have hon : OnTurn n q spp ns₀ m todo t₁ := by
        refine ⟨helse, ?_, hact ▸ h.active, htodo, hwaiting ▸ h.waiting⟩
        refine Eq.trans ?_ (balance_of_call hbal ((add_zero _).trans (hall rfl)))
        rw [hact, hwaiting, zero_add]
      refine (ih hon hrestart₁).mono (fun t' ht' => ht'.of_less ?_) fun _ he => he
      rw [hact, hwaiting]
      omega
    | some r =>
      obtain ⟨ch, lun, start, preempt, k⟩ := r
      obtain ⟨hpages, hpos, hkind⟩ := hrest _ _ _ _ _ rfl
      have hnew := balance_of_call hbal hpages
      have hlocals : ∀ ch lun conti, LbaChunk.locals n
          { c₁ with startLpn := start, ch := ch, lun := lun, conti := conti } =
            localsFrom n start c.endLpn := fun _ _ _ => by rw [LbaChunk.locals, hend₁]
      dsimp only
      rcases hkind with ⟨rfl, hshort⟩ | ⟨rfl, -, hshort, i, rfl, hi⟩
      · rw [if_neg Bool.false_ne_true]
        split_ifs with hback
        · -- the rest of the chunk stays in the list
          have hon : OnTurn n q spp ns₀ m todo { t₁ with
              active := t₁.active ++ [{ c₁ with conti := -1, startLpn := start }] } := by
            refine ⟨helse, ?_, ?_, htodo, hwaiting ▸ h.waiting⟩
            · refine Eq.trans ?_ hnew
              show t₁.mapped q + _ = _
              dsimp only
              rw [hact, hwaiting, pagesOf_append, pagesOf_cons, pagesOf_nil, hlocals]
              abel
            · intro d hd
              rw [hact] at hd
              rcases List.mem_append.1 hd with hd | hd
              · exact h.active d hd
              · rw [List.mem_singleton.1 hd]
                exact hidx₁
          refine (ih hon hrestart₁).mono (fun t' ht' => ht'.of_less ?_) fun _ he => he
          dsimp only
          rw [hact, hwaiting, weight_append, weight_cons, weight_nil, hlocals, length_localsFrom]
          omega
        · -- the rest of the chunk waits for its die
          have hon : OnTurn n q spp ns₀ m todo { t₁ with
              waiting := t₁.waiting ++
                [{ c₁ with startLpn := start, ch := ch, lun := lun }] } := by
            refine ⟨helse, ?_, hact ▸ h.active, htodo, ?_⟩
            · refine Eq.trans ?_ hnew
              show t₁.mapped q + _ = _
              dsimp only
              rw [hact, hwaiting, pagesOf_append, pagesOf_cons, pagesOf_nil, hlocals]
              abel
            · intro d hd
              rw [hwaiting] at hd
              rcases List.mem_append.1 hd with hd | hd
              · exact h.waiting d hd
              · rw [List.mem_singleton.1 hd]
                exact ⟨hidx₁, by rw [hlocals, length_localsFrom]; exact hpos⟩
          refine (ih hon hrestart₁).mono (fun t' ht' => ht'.of_less ?_) fun _ he => he
          dsimp only
          rw [hact, hwaiting, weight_append, weight_cons, weight_nil, hlocals, length_localsFrom]
          omega
      · -- a waiting chunk goes first
        rw [if_pos rfl]
        have hon : OnTurn n q spp ns₀ m
            ({ c₁ with startLpn := start, ch := ch, lun := lun } :: todo) t₁ := by
          refine ⟨helse, ?_, hact ▸ h.active, ?_, hwaiting ▸ h.waiting⟩
          · refine Eq.trans ?_ hnew
            rw [hact, hwaiting, pagesOf_cons, hlocals]
            abel
          · intro d hd
            rcases List.mem_cons.1 hd with rfl | hd
            · exact hidx₁
            · exact htodo d hd
        refine (ends_preemptWith hn hq hm hon (hwaiting ▸ hi)).bind ?_
        rintro ⟨t₂, back⟩ ⟨hon₂, hact₂, hless⟩
        dsimp only at hact₂ hless hon₂ ⊢
        rw [hwaiting] at hless
        have hw : weight n (t₂.active ++
              ({ c₁ with startLpn := start, ch := ch, lun := lun } :: todo ++ back)) +
            weight n t₂.waiting <
              weight n t.active + ((c.locals n).length + 1 + weight n todo) +
                weight n t.waiting := by
          rw [hact₂, hact, weight_append, weight_append, weight_cons, hlocals, length_localsFrom]
          omega
        refine ⟨⟨hon₂.else_, ?_, ?_, by simp, hon₂.waiting⟩, hw.le, fun _ => hw, ?_⟩
        · refine Eq.trans ?_ hon₂.balance
          show t₂.mapped q + _ = _
          dsimp only
          rw [pagesOf_append, pagesOf_nil]
          abel
        · intro d hd
          exact (List.mem_append.1 hd).elim (hon₂.active d) (hon₂.todo d)
        · intro _
          simp

/-- A turn that does not call the cleaner leaves everything as it is. -/
theorem visitAll_idle (hidx : ∀ c ∈ todo, c.idx = q) (h : todo = [] ∨ limit ≤ t.count) :
    visitAll degree draws q limit todo t = .ok { t with active := t.active ++ todo } := by
  cases todo with
  | nil =>
    rw [List.append_nil]
    rfl
  | cons c todo =>
    unfold visitAll
    rw [if_neg (not_not.2 (hidx c List.mem_cons_self)),
      if_pos (h.resolve_left (List.cons_ne_nil c todo))]

/-- **When a chunk waits, one is active:** `wake` sees to it. -/
theorem TurnDone.wake {w : ℕ} {busy : Prop} (h : TurnDone n q spp ns₀ m w busy t) :
    TurnDone n q spp ns₀ m w busy t.wake ∧ (t.wake.waiting ≠ [] → t.wake.active ≠ []) ∧
      t.wake.restart = t.restart := by
  unfold TurnState.wake
  split_ifs with hc
  · obtain ⟨hr, hact⟩ := hc
    cases hw : t.waiting with
    | nil => exact ⟨h, fun hne => absurd hw hne, rfl⟩
    | cons c waiting =>
      have hlocals : LbaChunk.locals n { c with conti := -1 } = c.locals n := rfl
      have hbal := h.on.balance
      have hle := h.le
      have hless := h.less
      rw [hact, hw, pagesOf_nil, pagesOf_cons] at hbal
      rw [hact, hw, weight_nil, weight_cons] at hle hless
      refine ⟨⟨⟨h.on.else_, ?_, ?_, by simp, fun d hd => h.on.waiting d ?_⟩, ?_, fun hb => ?_,
        fun hr' => absurd hr' hr⟩, fun _ => List.cons_ne_nil _ _, rfl⟩
      · refine Eq.trans ?_ hbal
        show t.mapped q + _ = _
        dsimp only
        rw [pagesOf_cons, pagesOf_nil, hlocals]
        abel
      · intro d hd
        rw [List.mem_singleton.1 hd]
        exact (h.on.waiting c (hw ▸ List.mem_cons_self)).1
      · exact hw ▸ List.mem_cons_of_mem c hd
      · dsimp only
        rw [weight_cons, weight_nil, hlocals]
        omega
      · have := hless hb
        dsimp only
        rw [weight_cons, weight_nil, hlocals]
        omega
  · refine ⟨h, fun _ hact => hc ⟨fun hr => h.active hr hact, hact⟩, rfl⟩

end TurnState

end NvmeVirt
