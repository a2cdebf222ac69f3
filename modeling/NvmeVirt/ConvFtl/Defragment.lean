/-
# Behind the cleaner nothing is fragmented

With degree 0 and one list for each partition `clean_ftl` writes the chunks of a
partition one after the other: a chunk that has used up its turn stays at the head
of the list, and no chunk waits.  So two pages of a run that follow each other in
their partition lie where `phfrag_check` wants them, and the check of any part of
a run counts nothing.
-/

import NvmeVirt.ConvFtl.CleanOrder
import NvmeVirt.ConvFtl.CleanRewrite
import NvmeVirt.ConvFtl.RoundTrip

namespace NvmeVirt

open Outcome ConvFtl

/-! ### A call -/

namespace ConvFtl

variable {f : ConvFtl} {done : List ℕ}

/-- **What a call of the cleaner with degree 0 has done** from its round `i` to its round `w`. -/
structure CleanedInOrder (a : CleanRequest) (n : ℕ) (f : ConvFtl) (done : List ℕ) (conti : ℤ)
    (i w : ℕ) (r : ConvFtl × Option RewritePointer × ℤ × ℤ) : Prop where
  order : r.1.InOrder (done ++ List.range' (a.startLpn / n + i) (w - i))
  sp : r.1.ssd.sp = f.ssd.sp
  conti : r.2.2.2 = conti
  ge : i ≤ w
  le : w ≤ stepCount n a.startLpn a.endLpn
  all : r.2.1 = none → w = stepCount n a.startLpn a.endLpn
  rest : ∀ p, r.2.1 = some p → p = ⟨-1, -1, some (a.startLpn + w * n), some false, none⟩ ∧
    ((16 * f.ssd.sp.pgsPerOneshotpg : ℕ) : ℤ) ≤ r.2.2.1

/-- One page written before the rest. -/
theorem CleanedInOrder.cons {a : CleanRequest} {n i w : ℕ} {conti : ℤ} {f₁ : ConvFtl}
    {r : ConvFtl × Option RewritePointer × ℤ × ℤ} (hsp : f₁.ssd.sp = f.ssd.sp)
    (h : CleanedInOrder a n f₁ (done ++ [a.startLpn / n + i]) conti (i + 1) w r) :
    CleanedInOrder a n f done conti i w r where
  order := by
    have hge := h.ge
    have hlist : List.range' (a.startLpn / n + i) (w - i) =
        [a.startLpn / n + i] ++ List.range' (a.startLpn / n + (i + 1)) (w - (i + 1)) := by
      rw [show w - i = (w - (i + 1)) + 1 by omega, List.range'_succ]
      rfl
    rw [hlist, ← List.append_assoc]
    exact h.order
  sp := h.sp.trans hsp
  conti := h.conti
  ge := (Nat.le_succ i).trans h.ge
  le := h.le
  all := h.all
  rest := fun p hp => hsp ▸ h.rest p hp

/-- No page is left. -/
theorem InOrder.stopped (h : f.InOrder done) {a : CleanRequest} {n i : ℕ} {con conti : ℤ}
    (hi : i ≤ stepCount n a.startLpn a.endLpn) (hend : i = stepCount n a.startLpn a.endLpn) :
    CleanedInOrder a n f done conti i i (f, none, con, conti) where
  order := by simpa using h
  sp := rfl
  conti := rfl
  ge := le_rfl
  le := hi
  all := fun _ => hend
  rest := fun p hp => by cases hp

/-- **The loop of `phfrag_cleaner` with degree 0,** when no chunk waits. -/
theorem InOrder.phfragCleanerLoop (a : CleanRequest) (hdegree : a.degree = 0)
    (hpre : a.preempt = []) {n : ℕ} (hn : 0 < n) {conti : ℤ} (hconti : conti < 0) (fuel i : ℕ)
    (con : ℤ) (h : f.InOrder done) (hi : i ≤ stepCount n a.startLpn a.endLpn)
    (hfuel : stepCount n a.startLpn a.endLpn ≤ i + fuel)
    (hnew : ∀ l ∈ List.range' (a.startLpn / n + i) (stepCount n a.startLpn a.endLpn - i),
      l < f.ssd.sp.ttPgs ∧ l ∉ done) :
    Ends (ConvFtl.phfragCleanerLoop a n fuel i f con conti)
      (fun r => ∃ w, CleanedInOrder a n f done conti i w r) fun _ => True := by
  induction fuel generalizing i f con done with
  | zero => exact ⟨i, h.stopped hi (by omega)⟩
  | succ fuel ih =>
    unfold ConvFtl.phfragCleanerLoop
    dsimp only
    by_cases hend : a.endLpn < a.startLpn + i * n
    · rw [if_pos hend]
      have := mt (lt_stepCount hn).1 (not_le.2 hend)
      exact ⟨i, h.stopped hi (by omega)⟩
    have hlt := (lt_stepCount hn).2 (not_lt.1 hend)
    have hnone : a.preempted f.wp = none := by
      unfold CleanRequest.preempted
      simp [hpre]
    have hloc : (a.startLpn + i * n) / n = a.startLpn / n + i := Nat.add_mul_div_right _ _ hn
    have hnext : a.startLpn + i * n + n = a.startLpn + (i + 1) * n := by ring
    rw [if_neg hend, hnone]
    dsimp only
    rw [hloc, hdegree, hnext]
    obtain ⟨hin, hout⟩ := hnew (a.startLpn / n + i) (by rw [List.mem_range'_1]; omega)
    refine (h.cleanPage hin hout hconti con (a.random i)).bind ?_
    rintro ⟨f₁, r⟩ ⟨horder, hsp, rfl⟩
    dsimp only at horder hsp ⊢
    by_cases hcon : ((16 * f₁.ssd.sp.pgsPerOneshotpg : ℕ) : ℤ) ≤ con + 1
    · -- the turn is over behind this page
      rw [if_pos hcon]
      refine ⟨i + 1, by simpa using horder, hsp, rfl, Nat.le_succ i, hlt, fun hr => ?_,
        fun p hp => ?_⟩
      · dsimp only at hr
        split_ifs at hr with hlast
        have := mt (lt_stepCount hn).1 (not_le.2 hlast)
        omega
      · dsimp only at hp
        split_ifs at hp with hlast
        cases hp
        exact ⟨rfl, hsp ▸ hcon⟩
    · rw [if_neg hcon]
      refine (ih (i + 1) (con + 1) horder (by omega) (by omega) fun l hl => ?_).mono ?_
        fun _ _ => trivial
      · rw [List.mem_range'_1] at hl
        obtain ⟨hl1, hl2⟩ := hnew l (by rw [List.mem_range'_1]; omega)
        rw [hsp, List.mem_append, List.mem_singleton]
        exact ⟨hl1, not_or.2 ⟨hl2, by omega⟩⟩
      · rintro r ⟨w, hw⟩
        exact ⟨w, hw.cons hsp⟩

end ConvFtl

/-! ### A turn -/

namespace TurnState

variable {n q : ℕ} {draws : Draws} {spp : Ssdparams} {ns₀ : ConvNs} {all : List ℕ}
  {todo : List LbaChunk} {t : TurnState} {c : LbaChunk}

/-- A chunk of partition `q` no page of which was held back. -/
def Plain (q : ℕ) (c : LbaChunk) : Prop := c.idx = q ∧ c.conti < 0

/-- The pages of chunks, in the order of the list. -/
def inTurn (n : ℕ) (cs : List LbaChunk) : List ℕ := cs.flatMap (LbaChunk.locals n)

/-- **What holds during a turn** on the list of partition `q`, when `todo` is left of it: no chunk
waits, and the pages written and those of the chunks are `all`, in this order. -/
structure KeepsOrder (n q : ℕ) (spp : Ssdparams) (ns₀ : ConvNs) (all : List ℕ)
    (todo : List LbaChunk) (t : TurnState) : Prop where
  else_ : Elsewhere q spp ns₀ t.ns
  waiting : t.waiting = []
  chunks : ∀ c ∈ t.active ++ todo, Plain q c
  order : ∃ done, done ++ inTurn n (t.active ++ todo) = all ∧ (t.ns.ftls q).InOrder done

/-- The result of a call for the chunk `c`, whose pages come first. -/
structure CalledInOrder (n q : ℕ) (spp : Ssdparams) (t : TurnState) (done : List ℕ) (c : LbaChunk)
    (r : TurnState × LbaChunk × Option (ℤ × ℤ × ℕ × Bool × Option ℕ)) : Prop where
  else_ : Elsewhere q spp t.ns r.1.ns
  active : r.1.active = t.active
  waiting : r.1.waiting = t.waiting
  plain : Plain q r.2.1
  endLpn : r.2.1.endLpn = c.endLpn
  all : r.2.2 = none → (r.1.ns.ftls q).InOrder (done ++ c.locals n)
  rest : ∀ x, r.2.2 = some x → ((16 * spp.pgsPerOneshotpg : ℕ) : ℤ) ≤ r.1.count ∧
    ∃ start written, x = (-1, -1, start, false, none) ∧
      written ++ localsFrom n start c.endLpn = c.locals n ∧
      (r.1.ns.ftls q).InOrder (done ++ written)

/-- **A call of `phfrag_cleaner`** for the next chunk. -/
theorem phfragCleaner_inOrder (hn : t.ns.nrParts = n) (hq : q < n)
    (hsp : (t.ns.ftls q).ssd.sp = spp) {done : List ℕ} (horder : (t.ns.ftls q).InOrder done)
    (hwaiting : t.waiting = []) (hplain : Plain q c)
    (hnew : ∀ l ∈ c.locals n, l < spp.ttPgs ∧ l ∉ done) :
    Ends (t.phfragCleaner 0 draws c false) (CalledInOrder n q spp t done c) fun _ => True := by
  obtain ⟨hidx, hconti⟩ := hplain
  have hn0 : 0 < n := by omega
  have hrounds : stepCount n c.startLpn c.endLpn ≤ c.endLpn + 1 - c.startLpn := by
    by_contra hlt
    have := (lt_stepCount hn0).1 (not_le.1 hlt)
    have := Nat.le_mul_of_pos_right (c.endLpn + 1 - c.startLpn) hn0
    omega
  obtain ⟨a, ha⟩ : ∃ a : CleanRequest, a = {
    startLpn := c.startLpn, endLpn := c.endLpn, degree := 0, preempt := t.waiting
    idx := c.idx, force := false, noReturn := false, random := draws t.calls } := ⟨_, rfl⟩
  have hstart : a.startLpn = c.startLpn := by rw [ha]
  have hend : a.endLpn = c.endLpn := by rw [ha]
  have hida : a.idx = q := by rw [ha, hidx]
  have hcall : Ends (t.ns.phfragCleaner a t.count c.conti)
      (fun r => ∃ f w, r.1 = { t.ns with ftls := Function.update t.ns.ftls q f } ∧
        CleanedInOrder a n (t.ns.ftls q) done c.conti 0 w (f, r.2)) fun _ => True := by
    have hloop := horder.phfragCleanerLoop a (by rw [ha]) (by rw [ha, hwaiting]) hn0 hconti
      (a.endLpn + 1 - a.startLpn) 0 t.count (Nat.zero_le _) (by rw [hstart, hend]; omega) (by
        rw [hstart, hend, hsp, Nat.add_zero, Nat.sub_zero]
        exact hnew)
    unfold ConvNs.phfragCleaner
    rw [hn, hida, defined_bind ⟨hn0, hq⟩]
    refine hloop.bind ?_
    rintro ⟨f, r, con, conti⟩ ⟨w, hw⟩
    exact ⟨f, w, by rw [← hn], hw⟩
  unfold TurnState.phfragCleaner
  rw [← ha]
  refine (Ends.mapError hcall).bind ?_
  rintro ⟨ns, r, count, conti⟩ ⟨f, w, rfl, hw⟩
  have htidy := hw.order.tidy
  have hsp' := hw.sp.trans hsp
  have horder' := hw.order
  have hle := hw.le
  have hall := hw.all
  have hrest := hw.rest
  have hconti' := hw.conti
  dsimp only at htidy hsp' horder' hall hrest hconti'
  rw [hstart, Nat.add_zero, Nat.sub_zero] at horder'
  rw [hstart, hend] at hle hall
  rw [hstart, hsp] at hrest
  subst hconti'
  have hftl : (Function.update t.ns.ftls q f) q = f := Function.update_self _ _ _
  have helse : Elsewhere q spp t.ns { t.ns with ftls := Function.update t.ns.ftls q f } :=
    ⟨rfl, fun p hp => Function.update_of_ne hp _ _, by dsimp only; rwa [hftl], by
      dsimp only; rwa [hftl]⟩
  dsimp only
  cases r with
  | none =>
    refine ⟨helse, rfl, rfl, ⟨hidx, hconti⟩, rfl, fun _ => ?_, fun x hx => by cases hx⟩
    dsimp only
    rw [hftl, LbaChunk.locals, localsFrom, ← hall rfl]
    exact horder'
  | some p =>
    obtain ⟨rfl, hcount⟩ := hrest p rfl
    refine ⟨helse, rfl, rfl, ⟨hidx, hconti⟩, rfl, fun hr => (by cases hr), fun x hx => ?_⟩
    cases hx
    refine ⟨hcount, _, _, rfl, localsFrom_append hn0 hle, ?_⟩
    dsimp only
    rw [hftl]
    exact horder'

/-- The pages of a list that goes on. -/
theorem inTurn_append (n : ℕ) (cs ds : List LbaChunk) :
    inTurn n (cs ++ ds) = inTurn n cs ++ inTurn n ds := List.flatMap_append

theorem inTurn_cons (n : ℕ) (c : LbaChunk) (cs : List LbaChunk) :
    inTurn n (c :: cs) = c.locals n ++ inTurn n cs := List.flatMap_cons

/-- **A turn keeps the order:** a chunk that is not done stays at the head of the list, as the turn
is over with it. -/
theorem KeepsOrder.visitAll (hn : ns₀.nrParts = n) (hq : q < n) (hnodup : all.Nodup)
    (hlt : ∀ l ∈ all, l < spp.ttPgs) (h : KeepsOrder n q spp ns₀ all todo t)
    (hfirst : t.active = [] ∨ ((16 * spp.pgsPerOneshotpg : ℕ) : ℤ) ≤ t.count) :
    Ends (visitAll 0 draws q (16 * spp.pgsPerOneshotpg : ℕ) todo t)
      (KeepsOrder n q spp ns₀ all []) fun _ => True := by
  induction todo generalizing t with
  | nil => exact h
  | cons c todo ih =>
    have hplain : Plain q c := h.chunks c (by simp)
    unfold TurnState.visitAll
    rw [if_neg (not_not.2 hplain.1)]
    by_cases hlim : ((16 * spp.pgsPerOneshotpg : ℕ) : ℤ) ≤ t.count
    · rw [if_pos hlim]
      have hlist : (t.active ++ c :: todo) ++ [] = t.active ++ c :: todo := List.append_nil _
      exact ⟨h.else_, h.waiting, by rw [hlist]; exact h.chunks, by rw [hlist]; exact h.order⟩
    rw [if_neg hlim]
    have hempty : t.active = [] := hfirst.resolve_right hlim
    have htodo : ∀ d ∈ todo, Plain q d := fun d hd => h.chunks d (by simp [hd])
    obtain ⟨done, hdone, horder⟩ := h.order
    rw [hempty, List.nil_append, inTurn_cons] at hdone
    have hnew : ∀ l ∈ c.locals n, l < spp.ttPgs ∧ l ∉ done := by
      intro l hl
      have hmem : l ∈ c.locals n ++ inTurn n todo := List.mem_append_left _ hl
      rw [← hdone] at hnodup hlt
      exact ⟨hlt l (List.mem_append_right _ hmem), fun hd =>
        (List.nodup_append.1 hnodup).2.2 l hd l hmem rfl⟩
    refine (phfragCleaner_inOrder (h.else_.nrParts.trans hn) hq h.else_.sp horder h.waiting hplain
      hnew).bind ?_
    rintro ⟨t₁, c₁, r⟩ hc
    have helse := h.else_.trans hc.else_
    have hact := hc.active.trans hempty
    have hwaiting := hc.waiting.trans h.waiting
    have hplain₁ := hc.plain
    have hend₁ := hc.endLpn
    have hall := hc.all
    have hrest := hc.rest
    dsimp only at helse hact hwaiting hplain₁ hend₁ hall hrest ⊢
    cases r with
    | none =>
      refine ih ⟨helse, hwaiting, ?_, done ++ c.locals n, ?_, hall rfl⟩ (.inl hact)
      · rw [hact]
        exact htodo
      · rw [hact, List.append_assoc]
        exact hdone
    | some x =>
      obtain ⟨hcount, start, written, rfl, hpages, horder₁⟩ := hrest x rfl
      have hlocals : LbaChunk.locals n { c₁ with conti := -1, startLpn := start } =
          localsFrom n start c.endLpn := by rw [LbaChunk.locals, hend₁]
      dsimp only
      rw [if_neg Bool.false_ne_true, if_pos (.inl rfl)]
      refine ih ⟨helse, hwaiting, ?_, done ++ written, ?_, horder₁⟩ (.inr hcount)
      · intro d hd
        dsimp only at hd
        rw [hact, List.nil_append, List.mem_append, List.mem_singleton] at hd
        rcases hd with rfl | hd
        · exact ⟨hplain₁.1, show (-1 : ℤ) < 0 by decide⟩
        · exact htodo d hd
      · dsimp only
        rw [hact, List.nil_append, List.singleton_append, inTurn_cons, hlocals, List.append_assoc,
          ← List.append_assoc written, hpages]
        exact hdone

/-- No chunk waits that could be woken. -/
theorem wake_of_waiting (h : t.waiting = []) : t.wake = t := by
  unfold TurnState.wake
  split_ifs with hc
  · rw [h]
  · rfl

end TurnState

/-! ### The rounds -/

namespace CleanState

open TurnState

variable {n : ℕ} {draws : Draws} {spp : Ssdparams} {all : ℕ → List ℕ} {s : CleanState}

/-- **What every round keeps,** with one list for each partition: the pages of each partition,
written and pending, are those in `all`, in this order. -/
structure Ordered (n : ℕ) (spp : Ssdparams) (all : ℕ → List ℕ) (s : CleanState) : Prop where
  nrParts : s.ns.nrParts = n
  index : s.curIndex < n
  chunk : s.curChunk = 0
  lists : ∀ q < n, s.lists q = []
  chunks : ∀ q < n, ∀ c ∈ s.active q, Plain q c
  sp : ∀ q < n, (s.ns.ftls q).ssd.sp = spp
  order : ∀ q < n, ∃ done, done ++ inTurn n (s.active q) = all q ∧ (s.ns.ftls q).InOrder done

/-- The next list. -/
theorem Ordered.nextSlot (h : s.Ordered n spp all) (limit : ℤ) :
    (s.nextSlot 1 n limit).Ordered n spp all := by
  have hi := h.index
  have hk := h.chunk
  have hmove : ∀ count i restart, i < n → Ordered n spp all
      { s with count := count, curChunk := 0, curIndex := i, restart := restart } :=
    fun _ _ _ hi => ⟨h.nrParts, hi, rfl, h.lists, h.chunks, h.sp, h.order⟩
  unfold CleanState.nextSlot
  rw [hk]
  by_cases hnext : ¬ s.restart ∧ limit ≤ s.count ∨ s.active (s.slot 1) = []
  · rw [if_pos hnext]
    dsimp only
    rw [if_pos le_rfl]
    split_ifs with hhave hlast
    · exact hmove 0 s.curIndex s.restart hi
    · exact hmove 0 0 s.restart (by omega)
    · exact hmove 0 (s.curIndex + 1) s.restart (by omega)
  · rw [if_neg hnext]
    exact h

/-- **A round** keeps the order. -/
theorem Ordered.round (h : s.Ordered n spp all) (hnodup : ∀ q < n, (all q).Nodup)
    (hlt : ∀ q < n, ∀ l ∈ all q, l < spp.ttPgs) :
    Ends (s.round 1 n 0 draws (16 * spp.pgsPerOneshotpg : ℕ)) (Ordered n spp all)
      fun _ => True := by
  unfold CleanState.round
  have h₁ := h.nextSlot (16 * spp.pgsPerOneshotpg : ℕ)
  generalize s.nextSlot 1 n (16 * spp.pgsPerOneshotpg : ℕ) = s₁ at h₁ ⊢
  have hslot : s₁.slot 1 = s₁.curIndex := by
    unfold CleanState.slot
    rw [h₁.chunk, Nat.mul_one, Nat.add_zero]
  have hi := h₁.index
  obtain ⟨done, hdone, horder⟩ := h₁.order _ hi
  have hturn : KeepsOrder n s₁.curIndex spp s₁.ns (all s₁.curIndex) (s₁.active s₁.curIndex)
      (s₁.turn 1) := by
    refine ⟨⟨rfl, fun _ _ => rfl, horder.tidy, h₁.sp _ hi⟩, ?_, h₁.chunks _ hi, done, hdone, horder⟩
    show s₁.lists (s₁.slot 1) = []
    rw [hslot]
    exact h₁.lists _ hi
  dsimp only
  rw [hslot]
  refine (hturn.visitAll h₁.nrParts hi (hnodup _ hi) (hlt _ hi) (.inl rfl)).bind ?_
  intro t ht
  rw [wake_of_waiting ht.waiting]
  have hchunks := ht.chunks
  obtain ⟨done', hdone', horder'⟩ := ht.order
  rw [List.append_nil] at hchunks hdone'
  have hact : ∀ q, (s₁.putBack 1 t).active q =
      if q = s₁.curIndex then t.active else s₁.active q := fun q => by
    show Function.update s₁.active (s₁.slot 1) t.active q = _
    rw [hslot, Function.update_apply]
  have hlists : ∀ q, (s₁.putBack 1 t).lists q =
      if q = s₁.curIndex then t.waiting else s₁.lists q := fun q => by
    show Function.update s₁.lists (s₁.slot 1) t.waiting q = _
    rw [hslot, Function.update_apply]
  have hns : (s₁.putBack 1 t).ns = t.ns := rfl
  refine ⟨ht.else_.nrParts.trans h₁.nrParts, hi, h₁.chunk, fun q hq => ?_, fun q hq => ?_,
    fun q hq => ?_, fun q hq => ?_⟩
  · rw [hlists]
    split_ifs with he
    · exact ht.waiting
    · exact h₁.lists q hq
  · rw [hact]
    split_ifs with he
    · exact he ▸ hchunks
    · exact h₁.chunks q hq
  · rw [hns]
    by_cases he : q = s₁.curIndex
    · exact he ▸ ht.else_.sp
    · exact ht.else_.others q he ▸ h₁.sp q hq
  · rw [hact, hns]
    split_ifs with he
    · exact he ▸ ⟨done', hdone', horder'⟩
    · exact ht.else_.others q he ▸ h₁.order q hq

end CleanState

/-! ### The runs of the device -/

/-- Two pages in a row in a list of chunks. -/
theorem TurnState.inTurn_split {n l : ℕ} {c : LbaChunk} {cs : List LbaChunk} (hc : c ∈ cs)
    (hl : l ∈ c.locals n) (hl' : l + 1 ∈ c.locals n) :
    ∃ before behind, inTurn n cs = before ++ l :: (l + 1) :: behind := by
  obtain ⟨cs₁, cs₂, rfl⟩ := List.append_of_mem hc
  obtain ⟨first, hfirst⟩ : ∃ first, first = c.startLpn / n := ⟨_, rfl⟩
  obtain ⟨count, hcount⟩ : ∃ count, count = stepCount n c.startLpn c.endLpn := ⟨_, rfl⟩
  have hlocals : c.locals n = List.range' first count := by rw [hfirst, hcount]; rfl
  rw [hlocals, List.mem_range'_1] at hl hl'
  have hsplit : c.locals n = List.range' first (l - first) ++
      l :: (l + 1) :: List.range' (l + 2) (first + count - (l + 2)) := by
    refine hlocals.trans (List.range'_eq_append_iff.2 ⟨l - first, by omega, rfl, ?_⟩)
    rw [show count - (l - first) = first + count - (l + 2) + 1 + 1 by omega, List.range'_succ,
      List.range'_succ, show first + (l - first) * 1 = l by omega]
  refine ⟨inTurn n cs₁ ++ List.range' first (l - first),
    List.range' (l + 2) (first + count - (l + 2)) ++ inTurn n cs₂, ?_⟩
  rw [inTurn_append, inTurn_cons, hsplit]
  simp

namespace ConvNs

variable {old ns : ConvNs} {numList : ℕ} {head : ℕ → List LbaChunk}

/-- The chunks of a partition are its own, and no page of them was held back. -/
theorem createList_plain (hn : 0 < old.nrParts) (hl : 0 < numList)
    (hok : old.createListFromTableSplit numList = .ok head) {q : ℕ} (hq : q < old.nrParts) :
    ∀ c ∈ chunksOf numList head q, TurnState.Plain q c := by
  obtain ⟨-, rs, -, hchunks⟩ := (old.ends_createList hn hl).of_ok hok
  intro c hc
  obtain ⟨r, -, rfl⟩ := List.mem_map.1 ((hchunks q hq).mem_iff.1 hc)
  exact ⟨rfl, show (-1 : ℤ) < 0 by decide⟩

/-- **Two pages of a run in one partition** are in one chunk. -/
theorem createList_sameChunk (hn : 0 < old.nrParts) (hn32 : old.nrParts < 2 ^ 32)
    (ht : old.sp.ttPgs < 2 ^ 31) (hl : 0 < numList)
    (hup : ∀ l, l + 1 < old.nrParts → old.mapped l → old.mapped (l + 1))
    (hok : old.createListFromTableSplit numList = .ok head) {l m : ℕ} (hle : l ≤ m)
    (hrun : old.SameRun l m) (hmod : m % old.nrParts = l % old.nrParts) :
    ∃ c ∈ chunksOf numList head (l % old.nrParts),
      l ∈ c.pages old.nrParts ∧ m ∈ c.pages old.nrParts := by
  obtain ⟨r, hr, hfirst, hlast⟩ := hrun
  obtain ⟨-, rs, hs, hchunks⟩ := (old.ends_createList hn hl).of_ok hok
  have hq := Nat.mod_lt l hn
  have hmem : r ∈ rs := (hs.mem_runs fun n hp => Nat.lt_succ_of_lt hp.1).2 hr
  have hend : old.nrParts ≤ r.2 + 1 := by
    by_contra hlt
    exact hr.after (hup r.2 (by omega) (hr.all r.2 hr.le le_rfl))
  have h63 : r.2 < 2 ^ 63 := by
    have htotal := Nat.mul_lt_mul'' ht hn32
    have := (hr.all r.2 hr.le le_rfl).1
    unfold ConvNs.totalLpnCount at this
    omega
  have hpages : ∀ n, n ∈ (chunkOfRun old.nrParts (l % old.nrParts) r).pages old.nrParts ↔
      r.1 ≤ n ∧ n ≤ r.2 ∧ n % old.nrParts = l % old.nrParts :=
    mem_dumpChunk_pages hn32 hq hr.le h63 (by omega)
  exact ⟨chunkOfRun old.nrParts (l % old.nrParts) r,
    (hchunks _ hq).mem_iff.2 (List.mem_map_of_mem hmem),
    (hpages l).2 ⟨hfirst, hle.trans hlast, rfl⟩, (hpages m).2 ⟨hfirst.trans hle, hlast, hmod⟩⟩

/-- **No page of a run is out of place** behind the page of its partition before it. -/
def Unfragmented (ns : ConvNs) : Prop := ∀ l, ns.SameRun l (l + ns.nrParts) → ¬ ns.Broken l

/-- **`phfrag_check` counts nothing** in any part of a run. -/
theorem Unfragmented.phfragCheck (h : ns.Unfragmented) (hinv : ns.Inv) (hsecs : 0 < ns.sp.secsPerPg)
    (hlbas : ns.totalLpnCount * ns.sp.secsPerPg ≤ 2 ^ 64) {first last : ℕ} (hle : first ≤ last)
    (hrun : ns.SameRun first last) (check : PhfragConfig)
    (hfirst : check.inputLba = first * ns.sp.secsPerPg)
    (hlen : check.lbaLen = (last + 1 - first) * ns.sp.secsPerPg) :
    ns.phfragCheck check = .ok (true, check) := by
  obtain ⟨r, hr, hbegin, hlast⟩ := hrun
  have htotal := (hr.all last (hbegin.trans hle) hlast).1
  have hpos : 0 < (last + 1) * ns.sp.secsPerPg := Nat.mul_pos (Nat.succ_pos _) hsecs
  have hend : ((last + 1) * ns.sp.secsPerPg - 1) / ns.sp.secsPerPg = last := by
    rw [Nat.succ_mul, Nat.add_sub_assoc hsecs, Nat.mul_comm, Nat.mul_add_div hsecs,
      Nat.div_eq_of_lt (Nat.sub_lt hsecs Nat.one_pos), Nat.add_zero]
  have h64 : (last + 1) * ns.sp.secsPerPg ≤ 2 ^ 64 :=
    (Nat.mul_le_mul_right _ htotal).trans hlbas
  have hstart : first * ns.sp.secsPerPg + ns.sp.secsPerPg ≤ (last + 1) * ns.sp.secsPerPg := by
    rw [← Nat.succ_mul]
    exact Nat.mul_le_mul_right _ (Nat.succ_le_succ hle)
  have hspan : check.lbaLen = (last + 1) * ns.sp.secsPerPg - 1 + 1 - check.inputLba := by
    rw [hlen, hfirst, Nat.sub_mul]
    omega
  rw [phfragCheck_range hinv.parts_pos hinv.sp hspan (by omega) (by omega) (by rwa [hend])]
  have hzero : ns.piecePairs (first * ns.sp.secsPerPg) ((last + 1) * ns.sp.secsPerPg - 1) = 0 := by
    unfold piecePairs
    rw [hend, Nat.mul_div_cancel _ hsecs]
    refine Finset.sum_eq_zero fun l hl => if_neg (h l ⟨r, hr, ?_⟩)
    rw [Finset.mem_Ico] at hl
    exact ⟨hbegin.trans hl.1, by omega⟩
  rw [hfirst, hzero]
  unfold PhfragConfig.add
  rw [Multiset.card_zero, add_zero, add_zero]

end ConvNs

/-! ### The cleaner -/

section

variable {size : ℕ} {cfg : FtlConfigs} {ns₀ ns new : ConvNs} {ops : List ConvOp}
  {head : ℕ → List LbaChunk} {s : CleanState} {maxCon : ℕ}

/-- With one list a partition has its own. -/
theorem mem_chunksOf_one {q : ℕ} {c : LbaChunk} :
    c ∈ chunksOf 1 head q ↔ c ∈ (head q).insertionSort compareBySize := by
  rw [(List.perm_insertionSort _ _).mem_iff]
  simp [chunksOf]

/-- In a namespace made anew the user pointers stand on freshly opened lines. -/
theorem convInitNamespace_onStripe {cfg : FtlConfigs} (h : convInitNamespace size cfg = .ok new)
    (hfit : new.sp.FitsPpa) (hblk : 0 < new.sp.pgsPerBlk) (q : ℕ) :
    (new.ftls q).OnStripe .user := by
  have hgeom := (convInitNamespace_sound h hfit q).geom
  unfold convInitNamespace at h
  simp only [bind_eq_ok] at h
  obtain ⟨spp, -, ftl, hftl, h⟩ := h
  cases h
  exact (convInitFtl_opened hftl .user).2.onStripe (hgeom.striped hblk)

/-- **Where the cleaner begins,** nothing is written. -/
theorem CleanBegins.ordered (h : CleanBegins ns new 1 maxCon head)
    (hnew : convInitNamespace size { cfg with maxCon := maxCon } = .ok new)
    (hblk : 0 < new.sp.pgsPerBlk) :
    CleanState.Ordered ns.nrParts { ns.sp with maxCon := maxCon }
      (fun q => TurnState.inTurn ns.nrParts ((head q).insertionSort compareBySize))
      (cleanStart new head) := by
  have hfresh := (convInitNamespace_inv hnew h.fits).2
  have hsound := convInitNamespace_sound hnew h.fits
  refine ⟨h.start.nrParts, h.start.index, rfl, fun _ _ => rfl, fun q hq c hc => ?_,
    fun q hq => (h.start.tidy q hq).2, fun q hq => ⟨[], rfl, ?_⟩⟩
  · exact ConvNs.createList_plain h.inv.parts_pos Nat.one_pos h.lists hq c (mem_chunksOf_one.2 hc)
  · exact (hfresh q).inOrder (hsound q) (convInitNamespace_onStripe hnew h.fits hblk q)

/-- **Where it ends,** no page of a run is out of place. -/
theorem CleanState.Ordered.unfragmented (h : CleanBegins ns new 1 maxCon head)
    (hord : CleanState.Ordered ns.nrParts { ns.sp with maxCon := maxCon }
      (fun q => TurnState.inTurn ns.nrParts ((head q).insertionSort compareBySize)) s)
    (hend : ¬ s.Again 1 ns.nrParts) (hmapped : ∀ l, s.ns.mapped l ↔ ns.mapped l)
    (hn32 : ns.nrParts < 2 ^ 32)
    (hup : ∀ l, l + 1 < ns.nrParts → ns.mapped l → ns.mapped (l + 1)) : s.ns.Unfragmented := by
  have hn := h.inv.parts_pos
  have hruns : s.ns.mapped = ns.mapped := funext fun l => propext (hmapped l)
  rintro l ⟨r, hr, hfirst, hlast⟩ hbroken
  rw [hruns] at hr
  rw [hord.nrParts] at hlast
  have hq := Nat.mod_lt l hn
  obtain ⟨c, hc, hl, hl'⟩ := ConvNs.createList_sameChunk hn hn32 h.ttPgs_lt Nat.one_pos hup h.lists
    (Nat.le_add_right l ns.nrParts) ⟨r, hr, hfirst, hlast⟩ (Nat.add_mod_right l _)
  have hstart := (ConvNs.createList_start hn hn32 h.ttPgs_lt Nat.one_pos h.lists hq c hc).2
  have hdiv := Nat.div_add_mod' l ns.nrParts
  have hloc : l / ns.nrParts ∈ c.locals ns.nrParts :=
    (LbaChunk.mem_locals hn hstart _).2 (by rwa [hdiv])
  have hloc' : l / ns.nrParts + 1 ∈ c.locals ns.nrParts :=
    (LbaChunk.mem_locals hn hstart _).2 (by
      rwa [Nat.succ_mul, Nat.add_right_comm, hdiv])
  obtain ⟨before, behind, hsplit⟩ := TurnState.inTurn_split (mem_chunksOf_one.1 hc) hloc hloc'
  have hempty : s.active (l % ns.nrParts) = [] := by
    by_contra hne
    exact hend (.inr ⟨l % ns.nrParts, by rwa [Nat.one_mul], hne⟩)
  obtain ⟨done, hdone, horder⟩ := hord.order _ hq
  rw [hempty] at hdone
  have hall : done = before ++ l / ns.nrParts :: (l / ns.nrParts + 1) :: behind := by
    rw [← hsplit, ← hdone]
    exact (List.append_nil done).symm
  rw [hall] at horder
  refine hbroken ?_
  unfold ConvNs.pageOf
  rw [hord.nrParts, Nat.add_mod_right, Nat.add_div_right l hn]
  exact horder.next

/-- The pages of a partition, in the order they are written in. -/
theorem CleanBegins.inTurn (h : CleanBegins ns new 1 maxCon head) (hn32 : ns.nrParts < 2 ^ 32)
    {q : ℕ} (hq : q < ns.nrParts) :
    (TurnState.inTurn ns.nrParts ((head q).insertionSort compareBySize) : Multiset ℕ) =
      (ns.ftls q).mappedSet.val := by
  have hone : chunksOf 1 head q = head q := by simp [chunksOf]
  rw [← h.part.pagesOf h.inv hq fun c hc => ConvNs.createList_start h.inv.parts_pos hn32 h.ttPgs_lt
    Nat.one_pos h.lists hq c hc, hone]
  exact pagesOf_perm (List.perm_insertionSort _ _)

/-- **What the rounds end in** is not fragmented. -/
theorem CleanBegins.unfragmented {draws : Draws} {fuel : ℕ} (h : CleanBegins ns new 1 maxCon head)
    (hnew : convInitNamespace size { cfg with maxCon := maxCon } = .ok new)
    (hloop : (cleanStart new head).cleanLoop 1 ns.nrParts 0 draws
      (fun _ => (16 * ns.sp.pgsPerOneshotpg : ℕ)) fuel = some (.ok s))
    (hmapped : ∀ l, s.ns.mapped l ↔ ns.mapped l) (hn32 : ns.nrParts < 2 ^ 32)
    (hup : ∀ l, l + 1 < ns.nrParts → ns.mapped l → ns.mapped (l + 1)) : s.ns.Unfragmented := by
  intro l hrun
  -- A page is mapped, so the blocks are not empty.
  have hblk : 0 < new.sp.pgsPerBlk := by
    obtain ⟨r, hr, -, -⟩ := hrun
    have hmap := (h.inv.mapped_iff r.1).1 ((hmapped r.1).1 (hr.all r.1 le_rfl hr.le))
    have hlt := (mem_mappedSet.1 hmap).1
    obtain ⟨front, hs⟩ := (h.inv.ftl _ (Nat.mod_lt r.1 h.inv.parts_pos)).sound
    have hpos := pgsPerBlk_pos hs.geom hlt
    rw [h.inv.sp _ (Nat.mod_lt r.1 h.inv.parts_pos)] at hpos
    rw [h.sp]
    exact hpos
  have hpages := fun q (hq : q < ns.nrParts) => h.inTurn hn32 hq
  have hend : Ends (.ok s : Except CleanStop CleanState) _ _ :=
    Ends.doWhile (fun _ _ hs => CleanState.Ordered.round hs
      (fun q hq => Multiset.coe_nodup.1 ((hpages q hq).symm ▸ (ns.ftls q).mappedSet.nodup))
      fun q hq l hl => (h.writable q hq).lt l (hpages q hq ▸ Multiset.mem_coe.2 hl))
      (h.ordered hnew hblk) hloop
  exact CleanState.Ordered.unfragmented h hend.1 hend.2 hmapped hn32 hup l hrun

/-- **Behind the cleaner the check finds no fragmentation.**  With degree 0, one list for each
partition and turns of sixteen one-shot pages `clean_ftl` ends with the pages rewritten, and
`phfrag_check` of any part of a run of mapped pages adds nothing to its count. -/
theorem cleanFtl_unfragmented (hinit : convInitNamespace size cfg = .ok ns₀)
    (hfit : ns₀.sp.FitsPpa) (hrun : runList ConvNs.exec ns₀ ops = .ok ns)
    (hn32 : ns.nrParts < 2 ^ 32) (hlists : ns.ListsFit 1)
    (hup : ∀ l, l + 1 < ns.nrParts → ns.mapped l → ns.mapped (l + 1)) (hroom : ¬ ns.Crowded)
    (hlbas : ns.totalLpnCount * ns.sp.secsPerPg ≤ 2 ^ 64) (maxCon : ℕ) (draws : Draws) :
    ∃ fuel s, cleanFtl ns 1 size { cfg with maxCon := maxCon } 0 draws
        (fun _ => (16 * ns.sp.pgsPerOneshotpg : ℕ)) fuel = some (.ok s) ∧
      ns.Rewritten 1 s ∧
      ∀ first last count counted, first ≤ last → s.ns.SameRun first last →
        s.ns.phfragCheck
            ⟨first * s.ns.sp.secsPerPg, (last + 1 - first) * s.ns.sp.secsPerPg, count, counted⟩ =
          .ok (true,
            ⟨first * s.ns.sp.secsPerPg, (last + 1 - first) * s.ns.sp.secsPerPg, count,
              counted⟩) := by
  obtain ⟨new, head, hnew, hbegins⟩ :=
    exists_cleanBegins hinit hfit hrun hn32 Nat.one_pos hlists hup maxCon
  have hparts := hbegins.inv.parts_pos
  have hgeom : ns.sp.Geometry := by
    obtain ⟨front, hs⟩ := (hbegins.inv.ftl 0 hparts).sound
    exact hs.geom
  have hpos : (0 : ℤ) < (16 * ns.sp.pgsPerOneshotpg : ℕ) :=
    Int.natCast_pos.2 (Nat.mul_pos (by decide) hgeom.oneshotpg_pos)
  obtain ⟨fuel, r, hr, hloop, hends⟩ := hbegins.ends hnew 0 draws fun _ => hpos
  obtain ⟨s, rfl, hdone⟩ := (hends.mono (fun _ h => h) fun e he => hroom he.2).exists_ok
  have hinv : Ends (.ok s : Except CleanStop CleanState) _ _ :=
    Ends.doWhile (fun _ _ hs => (CleanState.Inv.round hs hbegins.writable).mono
      (fun _ ht => ht.inv) fun _ he => he) hbegins.start hloop
  have hsp : s.ns.sp = { ns.sp with maxCon := maxCon } := (hinv.1.tidy 0 hparts).2
  have hsecs : s.ns.sp.secsPerPg = 8 := by
    rw [hsp, ← hbegins.sp]
    exact convInitNamespace_secsPerPg hnew
  have htotal : s.ns.totalLpnCount = ns.totalLpnCount := by
    unfold ConvNs.totalLpnCount
    rw [hsp, hdone.nrParts]
  have hfine := hbegins.unfragmented hnew hloop hdone.mapped hn32 hup
  refine ⟨fuel, s, hr, hdone, fun first last count counted hle hsame => ?_⟩
  exact hfine.phfragCheck hdone.inv (by omega) (by rw [htotal, hsp]; exact hlbas) hle hsame _ rfl rfl

end

/-- Page 1 is out of place behind page 0, as page 5 was written in between; behind the cleaner the
two pages count nothing. -/
theorem cleanFtl_unfragmented_twoPages : ∃ (ns : ConvNs) (fuel : ℕ) (s : CleanState),
    ns.SameRun 0 1 ∧ ns.Broken 0 ∧
    cleanFtl ns 1 (2 * tinySize) { twoDieConfigs with maxCon := 2 } 0 (fun _ _ => 0)
      (fun _ => (16 * ns.sp.pgsPerOneshotpg : ℕ)) fuel = some (.ok s) ∧
    s.ns.phfragCheck ⟨0 * s.ns.sp.secsPerPg, (1 + 1 - 0) * s.ns.sp.secsPerPg, 0, 0⟩ =
      .ok (true, ⟨0 * s.ns.sp.secsPerPg, (1 + 1 - 0) * s.ns.sp.secsPerPg, 0, 0⟩) := by
  obtain ⟨ns₀, hinit, hp⟩ := exists_ok_of_any
    (x := convInitNamespace (2 * tinySize) twoDieConfigs)
    (p := fun ns₀ : ConvNs =>
      decide ((ns₀.sp.nchs ≤ 2 ^ 8 ∧ ns₀.sp.lunsPerCh ≤ 2 ^ 8) ∧
        ns₀.sp.blksPerPl ≤ 2 ^ 16 ∧ ns₀.sp.pgsPerBlk ≤ 2 ^ 16) &&
      (runList ConvNs.exec ns₀
        [.write 0 7, .release 4096, .write 40 7, .release 4096, .write 8 7]).toOption.any
        fun ns : ConvNs => decide (ns.nrParts = 1 ∧ ns.totalLpnCount * ns.sp.secsPerPg ≤ 2 ^ 64 ∧
          ns.totalLpnCount < 2 ^ 31 ∧ ns.mapped 0 ∧ ns.mapped 1 ∧ ¬ ns.mapped 2 ∧ ns.Broken 0 ∧
          (ns.ftls 0).mappedCount + 2 * ns.sp.pgsPerLine ≤ ns.sp.blksPerPl * ns.sp.pgsPerLine))
    (by decide +kernel)
  obtain ⟨hfits, hp⟩ := Bool.and_eq_true_iff.1 hp
  obtain ⟨⟨hnchs, hluns⟩, hblks, hpgs⟩ := of_decide_eq_true hfits
  obtain ⟨ns, hrun, hp⟩ := exists_ok_of_any hp
  obtain ⟨hn, hlbas, htotal, h0, h1, h2, hbroken, hfew⟩ := of_decide_eq_true hp
  have hroom : ¬ ns.Crowded := by
    rintro ⟨q, hq, hfull⟩
    obtain rfl : q = 0 := by omega
    exact absurd hfew (not_le.2 hfull)
  have hruns : ∀ ns' : ConvNs, (∀ l, ns'.mapped l ↔ ns.mapped l) → ns'.SameRun 0 1 := by
    refine fun ns' hmapped => ⟨(0, 1), ⟨by decide, fun n _ hle => (hmapped n).2 ?_, by simp,
      fun h => h2 ((hmapped 2).1 h)⟩, le_rfl, le_rfl⟩
    have hle' : n ≤ 1 := hle
    interval_cases n
    · exact h0
    · exact h1
  obtain ⟨fuel, s, hr, hdone, hcheck⟩ := cleanFtl_unfragmented hinit ⟨hnchs, hluns, hblks, hpgs⟩
    hrun (by omega) (.of_lt (by omega) Nat.one_pos (by omega)) (fun l hl _ => by omega) hroom hlbas 2
    fun _ _ => 0
  exact ⟨ns, fuel, s, hruns ns fun _ => Iff.rfl, hbroken, hr,
    hcheck 0 1 0 0 (by decide) (hruns s.ns hdone.mapped)⟩

end NvmeVirt
