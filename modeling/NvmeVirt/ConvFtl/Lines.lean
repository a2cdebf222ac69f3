/-
# Where the lines are

Every line has one home: a write pointer or a running collection holds it, or it
is on the free list, on the full list or in the victim queue.  `Homed` says so
and that the counts, the positions and the queue agree with it, and that the
queue is a heap; each operation of `conv_ftl.c` on the lists moves one line and
keeps the rest.
-/

import NvmeVirt.ConvFtl.Gc
import NvmeVirt.Pqueue.Order

namespace NvmeVirt

open Outcome

/-! ### The victim queue -/

theorem victimOps_lawful : victimOps.Lawful where
  getpos_setpos_self := fun s x k => by simp [victimOps]
  getpos_setpos_ne := fun s x k y hy => by simp [victimOps, hy]
  getpos_setpri := fun s x p y => by
    by_cases hy : y = x
    · subst hy; simp [victimOps]
    · simp [victimOps, hy]

theorem victimOps_minFirst : victimOps.MinFirst where
  cmppri_iff := fun next curr => by simp [victimOps]
  getpri_setpos := fun s x k y => by
    by_cases hy : y = x
    · subst hy; simp [victimOps]
    · simp [victimOps, hy]
  getpri_setpri_self := fun s x p => by simp [victimOps]
  getpri_setpri_ne := fun s x p y hy => by simp [victimOps, hy]

namespace Pqueue

/-- The elements in heap order. -/
def elems {α : Type} (q : Pqueue α) : List α := (List.range (q.size - 1)).map fun i => q.d (i + 1)

@[simp] theorem mem_elems {α : Type} {q : Pqueue α} {x : α} : x ∈ q.elems ↔ q.Mem x := by
  simp only [elems, List.mem_map, List.mem_range, Mem]
  constructor
  · rintro ⟨i, hi, rfl⟩
    exact ⟨i + 1, by omega, by omega, rfl⟩
  · rintro ⟨i, hi, hi', rfl⟩
    exact ⟨i - 1, by omega, by rw [Nat.sub_add_cancel hi]⟩

theorem length_elems {α : Type} (q : Pqueue α) : q.elems.length = q.size - 1 := by
  simp [elems]

/-- Placed elements are distinct. -/
theorem Placed.nodup {σ α : Type} {o : PqueueOps σ α} {q : Pqueue α} {s : σ}
    (hp : Placed o q s) : q.elems.Nodup := by
  refine (List.nodup_map_iff_inj_on List.nodup_range).2 fun i hi j hj h => ?_
  rw [List.mem_range] at hi hj
  have := hp.inj (by omega) (by omega) (by omega) (by omega) h
  omega

/-- A new element joins the elements. -/
theorem elems_perm_cons {σ α : Type} {o : PqueueOps σ α} {q q' : Pqueue α} {s s' : σ} {x : α}
    (hp : Placed o q s) (hp' : Placed o q' s') (hx : ¬ q.Mem x)
    (hmem : ∀ y, q'.Mem y ↔ y = x ∨ q.Mem y) : q'.elems.Perm (x :: q.elems) :=
  (List.perm_ext_iff_of_nodup hp'.nodup
    (List.nodup_cons.2 ⟨fun h => hx (mem_elems.1 h), hp.nodup⟩)).2 (by simp [hmem])

/-- The same elements in another order. -/
theorem elems_perm {σ α : Type} {o : PqueueOps σ α} {q q' : Pqueue α} {s s' : σ}
    (hp : Placed o q s) (hp' : Placed o q' s') (hmem : ∀ y, q'.Mem y ↔ q.Mem y) :
    q'.elems.Perm q.elems :=
  (List.perm_ext_iff_of_nodup hp'.nodup hp.nodup).2 (by simp [hmem])

end Pqueue

open Pqueue

/-- What the queue leaves alone in a line. -/
def Line.stat (line : Line) : ℕ × ℕ × ℕ := (line.id, line.ipc, line.vpc)

theorem setpos_stat (lines : ℕ → Line) (l k : ℕ) :
    (fun i => (victimOps.setpos lines l k i).stat) = fun i => (lines i).stat := by
  funext i
  by_cases hi : i = l
  · subst hi; simp [victimOps, Line.stat]
  · simp [victimOps, Line.stat, hi]

theorem stat_eq {a b : Line} (h : a.stat = b.stat) : a.id = b.id ∧ a.ipc = b.ipc ∧ a.vpc = b.vpc := by
  simpa [Line.stat] using h

/-! ### Homes -/

namespace LineMgmt

/-- The lines by their homes; `held` are those on no list. -/
def homes (lm : LineMgmt) (held : List ℕ) : List ℕ :=
  held ++ lm.freeLineList ++ lm.fullLineList ++ lm.victimLinePq.elems

/-- **Each of the `n` lines has one home,** and the counts, positions and ids agree with it; the
queue is a heap. -/
structure Homed (lm : LineMgmt) (n : ℕ) (held : List ℕ) : Prop where
  homes : (lm.homes held).Perm (List.range n)
  placed : Placed victimOps lm.victimLinePq lm.lines
  avail : lm.victimLinePq.avail = n + 1
  size_pos : 1 ≤ lm.victimLinePq.size
  pos : ∀ l, l < n → (lm.lines l).pos ≠ 0 → lm.victimLinePq.Mem l
  freeCnt : lm.freeLineCnt = lm.freeLineList.length
  fullCnt : lm.fullLineCnt = lm.fullLineList.length
  victimCnt : lm.victimLineCnt + 1 = lm.victimLinePq.size
  id : ∀ l, l < n → (lm.lines l).id = l
  full : ∀ l ∈ lm.fullLineList, (lm.lines l).ipc = 0
  queued : ∀ l, lm.victimLinePq.Mem l → 0 < (lm.lines l).ipc
  ordered : Heaped victimOps lm.victimLinePq lm.lines
  ttLines : lm.ttLines = n

variable {lm : LineMgmt} {n l : ℕ} {held : List ℕ} {spp : Ssdparams}

theorem Homed.nodup (h : lm.Homed n held) : (lm.homes held).Nodup :=
  h.homes.nodup_iff.2 List.nodup_range

theorem Homed.lt (h : lm.Homed n held) (hl : l ∈ lm.homes held) : l < n :=
  List.mem_range.1 (h.homes.subset hl)

theorem Homed.mem_homes (h : lm.Homed n held) (hl : l < n) : l ∈ lm.homes held :=
  h.homes.symm.subset (List.mem_range.2 hl)

/-- No line is counted twice among its possible homes. -/
theorem Homed.count_le (h : lm.Homed n held) (l : ℕ) :
    held.count l + lm.freeLineList.count l + lm.fullLineList.count l +
      lm.victimLinePq.elems.count l ≤ 1 := by
  have := List.nodup_iff_count_le_one.1 h.nodup l
  simpa [LineMgmt.homes, List.count_append, add_assoc] using this

theorem Homed.queued_lt (h : lm.Homed n held) (hl : lm.victimLinePq.Mem l) : l < n :=
  h.lt (by simp [LineMgmt.homes, hl])

theorem Homed.free_lt (h : lm.Homed n held) (hl : l ∈ lm.freeLineList) : l < n :=
  h.lt (by simp [LineMgmt.homes, hl])

theorem Homed.full_lt (h : lm.Homed n held) (hl : l ∈ lm.fullLineList) : l < n :=
  h.lt (by simp [LineMgmt.homes, hl])

theorem Homed.held_lt (h : lm.Homed n held) (hl : l ∈ held) : l < n :=
  h.lt (by simp [LineMgmt.homes, hl])

theorem Homed.not_queued (h : lm.Homed n held)
    (hl : l ∈ held ∨ l ∈ lm.freeLineList ∨ l ∈ lm.fullLineList) : ¬ lm.victimLinePq.Mem l := by
  intro hm
  have h1 := h.count_le l
  have h2 := List.count_pos_iff.2 (mem_elems.2 hm)
  rcases hl with hl | hl | hl <;> have := List.count_pos_iff.2 hl <;> omega

/-- A line has a position exactly while it is queued. -/
theorem Homed.pos_iff (h : lm.Homed n held) (hl : l < n) :
    (lm.lines l).pos ≠ 0 ↔ lm.victimLinePq.Mem l := by
  refine ⟨h.pos l hl, fun hm => ?_⟩
  obtain ⟨h1, -, -⟩ := h.placed.d_getpos hm
  exact Nat.one_le_iff_ne_zero.1 h1

/-- The queue never needs more room than it was allocated. -/
theorem Homed.size_le (h : lm.Homed n held) : lm.victimLinePq.size ≤ lm.victimLinePq.avail := by
  have hlen := h.homes.length_eq
  have hsz := h.size_pos
  simp only [LineMgmt.homes, List.length_append, length_elems, List.length_range] at hlen
  rw [h.avail]
  omega

/-- A line that is held finds room in the queue. -/
theorem Homed.size_lt (h : lm.Homed n (l :: held)) :
    lm.victimLinePq.size < lm.victimLinePq.avail := by
  have hlen := h.homes.length_eq
  have hsz := h.size_pos
  simp only [LineMgmt.homes, List.length_append, length_elems, List.length_range,
    List.length_cons] at hlen
  rw [h.avail]
  omega

theorem Homed.not_free (h : lm.Homed n held) (hl : l ∈ held) : l ∉ lm.freeLineList := by
  intro hm
  have h1 := h.count_le l
  have h2 := List.count_pos_iff.2 hm
  have h3 := List.count_pos_iff.2 hl
  omega

theorem Homed.perm_held (h : lm.Homed n held) {held' : List ℕ} (hp : held'.Perm held) :
    lm.Homed n held' where
  homes := ((hp.append_right _).append_right _ |>.append_right _).trans h.homes
  placed := h.placed
  avail := h.avail
  size_pos := h.size_pos
  pos := h.pos
  freeCnt := h.freeCnt
  fullCnt := h.fullCnt
  victimCnt := h.victimCnt
  id := h.id
  full := h.full
  queued := h.queued
  ordered := h.ordered
  ttLines := h.ttLines

/-- The queue stays a heap while the valid page counts of the queued lines stay. -/
theorem heaped_congr_lines {q : Pqueue ℕ} {lines lines' : ℕ → Line}
    (hh : Heaped victimOps q lines) (hv : ∀ l, q.Mem l → (lines' l).vpc = (lines l).vpc) :
    Heaped victimOps q lines' :=
  hh.congr rfl fun i hi hi' => hv _ ⟨i, hi, hi', rfl⟩

/-- Only the fields of the lines the lists do not depend on change. -/
theorem Homed.congr_lines (h : lm.Homed n held) {lines : ℕ → Line}
    (hpos : ∀ l, (lines l).pos = (lm.lines l).pos) (hid : ∀ l, (lines l).id = (lm.lines l).id)
    (hfull : ∀ l ∈ lm.fullLineList, (lines l).ipc = 0)
    (hqueued : ∀ l, lm.victimLinePq.Mem l → 0 < (lines l).ipc)
    (hvpc : ∀ l, lm.victimLinePq.Mem l → (lines l).vpc = (lm.lines l).vpc) :
    ({ lm with lines := lines } : LineMgmt).Homed n held where
  homes := h.homes
  placed := fun i hi hi' => (hpos _).trans (h.placed i hi hi')
  avail := h.avail
  size_pos := h.size_pos
  pos := fun l hl hp => h.pos l hl (by rwa [← hpos])
  freeCnt := h.freeCnt
  fullCnt := h.fullCnt
  victimCnt := h.victimCnt
  id := fun l hl => (hid l).trans (h.id l hl)
  full := hfull
  queued := hqueued
  ordered := heaped_congr_lines h.ordered hvpc
  ttLines := h.ttLines

/-- The lines that are used up and not yet picked by a collection. -/
def Closed (lm : LineMgmt) (l : ℕ) : Prop := l ∈ lm.fullLineList ∨ lm.victimLinePq.Mem l

theorem Homed.not_closed (h : lm.Homed n held) (hl : l ∈ held ∨ l ∈ lm.freeLineList) :
    ¬ lm.Closed l := by
  rintro (hm | hm)
  · have h1 := h.count_le l
    have h2 := List.count_pos_iff.2 hm
    rcases hl with hl | hl <;> have := List.count_pos_iff.2 hl <;> omega
  · exact h.not_queued (by tauto) hm

/-- The lines held are distinct. -/
theorem Homed.held_nodup (h : lm.Homed n held) : held.Nodup := by
  refine List.nodup_iff_count_le_one.2 fun l => ?_
  have := h.count_le l
  omega

/-! ### The operations on the lists -/

theorem getNextFreeLine_eq_none : lm.getNextFreeLine = none ↔ lm.freeLineList = [] := by
  unfold getNextFreeLine
  split <;> simp [*]

/-- **`get_next_free_line` moves the first free line into the caller's hands.** -/
theorem Homed.getNextFreeLine (h : lm.Homed n held) {lm' : LineMgmt}
    (hs : lm.getNextFreeLine = some (l, lm')) :
    lm'.Homed n (l :: held) ∧ lm.freeLineList = l :: lm'.freeLineList ∧
      lm'.fullLineList = lm.fullLineList ∧ lm'.victimLinePq = lm.victimLinePq ∧
      lm'.lines = lm.lines := by
  unfold LineMgmt.getNextFreeLine at hs
  split at hs
  · cases hs
  rename_i l' rest hfree
  obtain ⟨rfl, rfl⟩ := Prod.mk.injEq .. ▸ Option.some.inj hs
  have hnf : l' ∉ lm.fullLineList := by
    intro hl
    have h1 := h.count_le l'
    have h2 := List.count_pos_iff.2 hl
    have h3 : 0 < lm.freeLineList.count l' := by rw [hfree]; simp
    omega
  have hfull : lm.fullLineList.erase l' = lm.fullLineList := List.erase_of_not_mem hnf
  have hfl : lm.freeLineList.erase l' = rest := by rw [hfree, List.erase_cons_head]
  refine ⟨?_, ?_, ?_, rfl, rfl⟩
  · refine { h with homes := ?_, freeCnt := ?_, fullCnt := ?_, full := ?_ }
    · refine List.Perm.trans (List.perm_iff_count.2 fun a => ?_) h.homes
      simp only [LineMgmt.homes, listDelInit, hfull, hfree, List.erase_cons_head,
        List.count_append, List.count_cons]
      omega
    · have := h.freeCnt
      simp only [listDelInit, hfl]
      rw [this, hfree]
      simp
    · simp only [listDelInit, hfull]
      exact h.fullCnt
    · simp only [listDelInit, hfull]
      exact h.full
  · simp only [listDelInit, hfl]
    exact hfree
  · simp only [listDelInit, hfull]

/-- Putting a held line with invalid pages into the queue. -/
theorem Homed.insert (h : lm.Homed n (l :: held)) (hipc : 0 < (lm.lines l).ipc) :
    let r := lm.victimLinePq.pqueueInsert victimOps lm.lines l
    ({ lm with victimLinePq := r.1, lines := r.2, victimLineCnt := lm.victimLineCnt + 1 } :
      LineMgmt).Homed n held ∧ (∀ k, r.1.Mem k ↔ k = l ∨ lm.victimLinePq.Mem k) ∧
      ∀ k, (r.2 k).stat = (lm.lines k).stat := by
  intro r
  have hl : ¬ lm.victimLinePq.Mem l := h.not_queued (.inl List.mem_cons_self)
  have hr : Requeued victimOps lm.victimLinePq lm.lines (lm.victimLinePq.size + 1) _ r.1 r.2 :=
    pqueueInsert_requeued victimOps_lawful h.placed h.size_pos hl
  have hstat : ∀ k, (r.2 k).stat = (lm.lines k).stat := fun k =>
    congrFun (pqueueInsert_frame (o := victimOps) (fun lines : ℕ → Line => fun i => (lines i).stat)
      setpos_stat) k
  refine ⟨?_, hr.mem, hstat⟩
  have hperm := elems_perm_cons h.placed hr.placed hl hr.mem
  refine {
    homes := List.Perm.trans (List.perm_iff_count.2 fun a => ?_) h.homes
    placed := hr.placed, avail := hr.avail.trans h.avail, size_pos := ?_, pos := ?_
    freeCnt := h.freeCnt, fullCnt := h.fullCnt, victimCnt := ?_, id := ?_, full := ?_
    queued := ?_, ordered := pqueueInsert_heaped victimOps_minFirst h.ordered h.size_pos l
    ttLines := h.ttLines }
  · have := hperm.count_eq a
    simp only [LineMgmt.homes, List.count_append, List.count_cons] at this ⊢
    omega
  · exact hr.size ▸ Nat.le_add_left 1 _
  · intro k hk hp
    by_contra hm
    have hg : (r.2 k).pos = (lm.lines k).pos := hr.getpos k fun hm' => hm ((hr.mem k).2 hm')
    exact hm ((hr.mem k).2 (.inr (h.pos k hk (hg ▸ hp))))
  · have := h.victimCnt
    rw [hr.size]
    simp only
    omega
  · exact fun k hk => (stat_eq (hstat k)).1.trans (h.id k hk)
  · exact fun k hk => (stat_eq (hstat k)).2.1.trans (h.full k hk)
  · intro k hk
    rw [(stat_eq (hstat k)).2.1]
    rcases (hr.mem k).1 hk with rfl | hk
    · exact hipc
    · exact h.queued k hk

/-- **A used-up line is retired** to the full list if all its pages are valid and to the victim
queue otherwise. -/
theorem Homed.retireLine (h : lm.Homed n (l :: held)) (fn : Fn)
    (hsum : (lm.lines l).vpc + (lm.lines l).ipc = spp.pgsPerLine) :
    ∃ lm', lm.retireLine fn spp l = .ok lm' ∧ lm'.Homed n held ∧
      lm'.freeLineList = lm.freeLineList ∧ (∀ k, lm'.Closed k ↔ k = l ∨ lm.Closed k) ∧
      ∀ k, (lm'.lines k).stat = (lm.lines k).stat := by
  unfold LineMgmt.retireLine
  dsimp only
  split_ifs with hv
  · have hipc : (lm.lines l).ipc = 0 := by omega
    refine ⟨_, nvmevAssert_bind hipc _, ?_, rfl, fun k => ?_, fun _ => rfl⟩
    · refine { h with homes := ?_, fullCnt := ?_, full := ?_ }
      · refine List.Perm.trans (List.perm_iff_count.2 fun a => ?_) h.homes
        simp only [LineMgmt.homes, List.count_append, List.count_cons, List.count_nil]
        omega
      · simp [h.fullCnt]
      · intro k hk
        rcases List.mem_append.1 hk with hk | hk
        · exact h.full k hk
        · rw [List.mem_singleton.1 hk, hipc]
    · simp only [Closed, List.mem_append, List.mem_singleton]
      tauto
  · have hipc : 0 < (lm.lines l).ipc := by omega
    obtain ⟨hh, hmem, hstat⟩ := h.insert hipc
    have hvpc : (lm.lines l).vpc < spp.pgsPerLine := by omega
    rw [nvmevAssert_bind hvpc, nvmevAssert_bind hipc, defined_bind h.size_lt]
    refine ⟨_, rfl, hh, rfl, fun k => ?_, hstat⟩
    simp only [Closed, hmem]
    tauto

/-- **A collected line goes back to the end of the free list.** -/
theorem Homed.markLineFree (h : lm.Homed n (l :: held)) : (lm.markLineFree l).Homed n held := by
  have hl : ¬ lm.victimLinePq.Mem l := h.not_queued (.inl List.mem_cons_self)
  have hnf : l ∉ lm.fullLineList := by
    intro hf
    have h1 := h.count_le l
    have h2 := List.count_pos_iff.2 hf
    rw [List.count_cons_self] at h1
    omega
  have hne : ∀ k, k ≠ l → (lm.markLineFree l).lines k = lm.lines k := fun k hk => by
    simp [LineMgmt.markLineFree, setLine, hk]
  have hpos : ∀ k, ((lm.markLineFree l).lines k).pos = (lm.lines k).pos := fun k => by
    by_cases hk : k = l
    · subst hk; simp [LineMgmt.markLineFree, setLine]
    · rw [hne k hk]
  refine {
    homes := List.Perm.trans (List.perm_iff_count.2 fun a => ?_) h.homes
    placed := fun i hi hi' => (hpos _).trans (h.placed i hi hi')
    avail := h.avail, size_pos := h.size_pos
    pos := fun k hk hp => h.pos k hk (by rwa [← hpos])
    freeCnt := ?_, fullCnt := h.fullCnt, victimCnt := h.victimCnt, id := fun k hk => ?_
    full := fun k hk => ?_, queued := fun k hk => ?_
    ordered := heaped_congr_lines h.ordered fun k hk => by rw [hne k fun hkl => hl (hkl ▸ hk)]
    ttLines := h.ttLines }
  · simp only [LineMgmt.homes, LineMgmt.markLineFree, setLine, List.count_append,
      List.count_cons, List.count_nil]
    omega
  · simp [LineMgmt.markLineFree, h.freeCnt]
  · by_cases hkl : k = l
    · subst hkl
      simpa [LineMgmt.markLineFree, setLine] using h.id k hk
    · rw [hne k hkl]
      exact h.id k hk
  · rw [hne k fun hkl => hnf (hkl ▸ hk)]
    exact h.full k hk
  · rw [hne k fun hkl => hl (hkl ▸ hk)]
    exact h.queued k hk

/-- The queue hands a line out as long as it holds one. -/
theorem selectVictimLine_eq_none (force : Bool) (hf : force = true) :
    lm.selectVictimLine spp force = none ↔ lm.victimLinePq.size = 1 := by
  unfold selectVictimLine pqueuePeek
  by_cases hs : lm.victimLinePq.size = 1
  · simp [hs]
  · simp [hs, hf]

/-- **`select_victim_line` moves a queued line into the caller's hands.** -/
theorem Homed.selectVictimLine (h : lm.Homed n held) {force : Bool} {lm' : LineMgmt}
    (hs : lm.selectVictimLine spp force = some (l, lm')) :
    lm'.Homed n (l :: held) ∧ lm.victimLinePq.Mem l ∧ lm'.freeLineList = lm.freeLineList ∧
      (∀ k, lm'.Closed k ↔ k ≠ l ∧ lm.Closed k) ∧
      (∀ k, (lm'.lines k).stat = (lm.lines k).stat) := by
  unfold LineMgmt.selectVictimLine at hs
  cases hpk : lm.victimLinePq.pqueuePeek with
  | none => rw [hpk] at hs; cases hs
  | some l' =>
    rw [hpk] at hs
    dsimp only at hs
    obtain ⟨hsz, rfl⟩ := pqueuePeek_eq_some.1 hpk
    split_ifs at hs
    obtain ⟨hl, hs'⟩ := Prod.mk.injEq .. ▸ Option.some.inj hs
    have hsz' : 1 < lm.victimLinePq.size := by have := h.size_pos; omega
    obtain ⟨r, hrdef⟩ : ∃ r, (lm.victimLinePq.pqueuePop victimOps lm.lines).2 = r := ⟨_, rfl⟩
    have hlm' : lm' = {
        lm with
        victimLinePq := r.1
        lines := Function.update r.2 l { r.2 l with pos := 0 }
        victimLineCnt := lm.victimLineCnt - 1 } := by
      rw [← hs', ← hrdef, ← hl]; rfl
    subst hlm'
    have hr : Requeued victimOps lm.victimLinePq lm.lines (lm.victimLinePq.size - 1)
        (fun k => lm.victimLinePq.Mem k ∧ k ≠ l) r.1 r.2 := by
      rw [← hrdef, ← hl]
      exact pqueuePop_requeued victimOps_lawful h.placed hsz'
    have hord : Heaped victimOps r.1 r.2 :=
      hrdef ▸ pqueuePop_heaped victimOps_minFirst h.ordered hsz'
    have hmem : ∀ k, r.1.Mem k ↔ lm.victimLinePq.Mem k ∧ k ≠ l := hr.mem
    have hlm : lm.victimLinePq.Mem l := ⟨1, le_rfl, hsz', hl⟩
    have hlr : ¬ r.1.Mem l := fun hm => ((hmem l).1 hm).2 rfl
    have hstat : ∀ k, (r.2 k).stat = (lm.lines k).stat := fun k => hrdef ▸
      congrFun (pqueuePop_frame (o := victimOps) (fun lines : ℕ → Line => fun i => (lines i).stat)
        setpos_stat) k
    have hstat' : ∀ k, (Function.update r.2 l { r.2 l with pos := 0 } k).stat
        = (lm.lines k).stat := fun k => by
      by_cases hk : k = l
      · rw [← hstat k, hk]; simp [Line.stat]
      · rw [← hstat k]; simp [hk]
    have hpos : ∀ k, k ≠ l → (Function.update r.2 l { r.2 l with pos := 0 } k).pos = (r.2 k).pos :=
      fun k hk => by simp [hk]
    have hnf : l ∉ lm.fullLineList := fun hf => h.not_queued (.inr (.inr hf)) hlm
    refine ⟨?_, hlm, rfl, fun k => ?_, hstat'⟩
    · refine {
        homes := List.Perm.trans (List.perm_iff_count.2 fun a => ?_) h.homes
        placed := fun i hi hi' => ?_, avail := hr.avail.trans h.avail, size_pos := ?_
        pos := fun k hk hp => ?_, freeCnt := h.freeCnt, fullCnt := h.fullCnt, victimCnt := ?_
        id := fun k hk => ?_, full := fun k hk => ?_, queued := fun k hk => ?_
        ordered := heaped_congr_lines hord fun k _ => ?_, ttLines := h.ttLines }
      · have hperm : lm.victimLinePq.elems.Perm (l :: r.1.elems) :=
          elems_perm_cons hr.placed h.placed hlr fun y => by
            rw [hmem]
            constructor
            · exact fun hy => or_iff_not_imp_left.2 fun hne => ⟨hy, hne⟩
            · rintro (rfl | hy)
              · exact hlm
              · exact hy.1
        have := hperm.count_eq a
        simp only [LineMgmt.homes, List.count_append, List.count_cons] at this ⊢
        omega
      · have hne : r.1.d i ≠ l := fun hd => hlr ⟨i, hi, hi', hd⟩
        exact (hpos _ hne).trans (hr.placed i hi hi')
      · have := hr.size
        simp only
        omega
      · have hkl : k ≠ l := by
          rintro rfl
          simp at hp
        by_contra hm
        have hg : (r.2 k).pos = (lm.lines k).pos := hr.getpos k fun hm' => hm ((hmem k).2 hm')
        have hp' : (lm.lines k).pos ≠ 0 := by rw [← hg, ← hpos k hkl]; exact hp
        exact hm ((hmem k).2 ⟨h.pos k hk hp', hkl⟩)
      · have h1 := hr.size
        have h2 := h.victimCnt
        simp only
        omega
      · exact (stat_eq (hstat' k)).1.trans (h.id k hk)
      · exact (stat_eq (hstat' k)).2.1.trans (h.full k hk)
      · have hk' : r.1.Mem k := hk
        have := h.queued k ((hmem k).1 hk').1
        rwa [← (stat_eq (hstat' k)).2.1] at this
      · exact (stat_eq ((hstat' k).trans (hstat k).symm)).2.2
    · simp only [Closed, hmem]
      constructor
      · rintro (hk | ⟨hk, hkl⟩)
        · exact ⟨fun hkl => hnf (hkl ▸ hk), .inl hk⟩
        · exact ⟨hkl, .inr hk⟩
      · rintro ⟨hkl, hk | hk⟩
        · exact .inl hk
        · exact .inr ⟨hk, hkl⟩

/-- Changing the priority of a queued line changes its valid page count. -/
theorem Homed.changePriority (h : lm.Homed n held) (hq : lm.victimLinePq.Mem l) (pri : ℕ) :
    let r := lm.victimLinePq.pqueueChangePriority victimOps lm.lines pri l
    ({ lm with victimLinePq := r.1, lines := r.2 } : LineMgmt).Homed n held ∧
      (∀ k, r.1.Mem k ↔ lm.victimLinePq.Mem k) ∧
      ∀ k, (r.2 k).stat = if k = l then ((lm.lines l).id, (lm.lines l).ipc, pri)
        else (lm.lines k).stat := by
  intro r
  have hr : Requeued victimOps lm.victimLinePq lm.lines lm.victimLinePq.size _ r.1 r.2 :=
    pqueueChangePriority_requeued victimOps_lawful h.placed hq pri
  have hmem : ∀ k, r.1.Mem k ↔ lm.victimLinePq.Mem k := hr.mem
  have hstat : ∀ k, (r.2 k).stat = if k = l then ((lm.lines l).id, (lm.lines l).ipc, pri)
      else (lm.lines k).stat := by
    intro k
    have hf := congrFun (pqueueChangePriority_frame (o := victimOps)
      (fun lines : ℕ → Line => fun i => (lines i).stat) setpos_stat victimOps_lawful h.placed hq
      pri) k
    refine hf.trans ?_
    by_cases hk : k = l
    · subst hk; simp [victimOps, Line.stat]
    · simp [victimOps, hk]
  have hkeep : ∀ k, (r.2 k).id = (lm.lines k).id ∧ (r.2 k).ipc = (lm.lines k).ipc := fun k => by
    have := hstat k
    split_ifs at this with hk
    · subst hk; simp only [Line.stat, Prod.mk.injEq] at this; exact ⟨this.1, this.2.1⟩
    · exact ⟨(stat_eq this).1, (stat_eq this).2.1⟩
  refine ⟨?_, hmem, hstat⟩
  refine {
    homes := List.Perm.trans (List.perm_iff_count.2 fun a => ?_) h.homes
    placed := hr.placed, avail := hr.avail.trans h.avail, size_pos := hr.size ▸ h.size_pos
    pos := fun k hk hp => ?_, freeCnt := h.freeCnt, fullCnt := h.fullCnt
    victimCnt := h.victimCnt.trans hr.size.symm, id := fun k hk => (hkeep k).1.trans (h.id k hk)
    full := fun k hk => (hkeep k).2.trans (h.full k hk), queued := fun k hk => ?_
    ordered := pqueueChangePriority_heaped victimOps_lawful victimOps_minFirst h.placed h.ordered
      hq pri
    ttLines := h.ttLines }
  · have := (elems_perm h.placed hr.placed hmem).count_eq a
    simp only [LineMgmt.homes, List.count_append] at this ⊢
    omega
  · by_contra hm
    have hg : (r.2 k).pos = (lm.lines k).pos := hr.getpos k fun hm' => hm ((hmem k).2 hm')
    exact hm ((hmem k).2 (h.pos k hk (hg ▸ hp)))
  · show 0 < (r.2 k).ipc
    rw [(hkeep k).2]
    exact h.queued k ((hmem k).1 hk)

/-- Taking a line off the full list when its first page becomes invalid. -/
theorem Homed.unfull (h : lm.Homed n held) (hf : l ∈ lm.fullLineList) (line : Line)
    (hid : line.id = (lm.lines l).id) (hpos : line.pos = (lm.lines l).pos) :
    ({ (lm.setLine l line).listDelInit l with fullLineCnt := lm.fullLineCnt - 1 } :
      LineMgmt).Homed n (l :: held) ∧ lm.freeLineList.erase l = lm.freeLineList := by
  have hq : ¬ lm.victimLinePq.Mem l := h.not_queued (.inr (.inr hf))
  have h1 := h.count_le l
  have h2 := List.count_pos_iff.2 hf
  have hfree : lm.freeLineList.erase l = lm.freeLineList :=
    List.erase_of_not_mem fun hm => by have := List.count_pos_iff.2 hm; omega
  have hkeep : ∀ k, ((lm.setLine l line).lines k).id = (lm.lines k).id ∧
      ((lm.setLine l line).lines k).pos = (lm.lines k).pos := fun k => by
    by_cases hk : k = l
    · subst hk; simp [setLine, hid, hpos]
    · simp [setLine, hk]
  have hne : ∀ k, k ≠ l → (lm.setLine l line).lines k = lm.lines k := fun k hk => by
    simp [setLine, hk]
  refine ⟨?_, hfree⟩
  refine {
    homes := List.Perm.trans (List.perm_iff_count.2 fun a => ?_) h.homes
    placed := fun i hi hi' => (hkeep _).2.trans (h.placed i hi hi')
    avail := h.avail, size_pos := h.size_pos
    pos := fun k hk hp => h.pos k hk (by rw [← (hkeep k).2]; exact hp)
    freeCnt := ?_, fullCnt := ?_, victimCnt := h.victimCnt
    id := fun k hk => (hkeep k).1.trans (h.id k hk), full := fun k hk => ?_
    queued := fun k hk => ?_
    ordered := heaped_congr_lines h.ordered fun k hk =>
      congrArg Line.vpc (hne k fun hkl => hq (hkl ▸ hk))
    ttLines := h.ttLines }
  · have hperm := (List.perm_cons_erase hf).count_eq a
    simp only [LineMgmt.homes, listDelInit, setLine, hfree, List.count_append,
      List.count_cons] at hperm ⊢
    omega
  · simp only [listDelInit, setLine, hfree]
    exact h.freeCnt
  · simp only [listDelInit, setLine, List.length_erase_of_mem hf, h.fullCnt]
  · have hkf : k ∈ lm.fullLineList := List.mem_of_mem_erase hk
    have hkl : k ≠ l := by
      rintro rfl
      have h3 : 0 < (lm.fullLineList.erase k).count k := List.count_pos_iff.2 hk
      rw [List.count_erase_self] at h3
      omega
    exact (congrArg Line.ipc (hne k hkl)).trans (h.full k hkf)
  · have hk' : lm.victimLinePq.Mem k := hk
    have hkl : k ≠ l := fun hkl => hq (hkl ▸ hk')
    exact lt_of_lt_of_eq (h.queued k hk') (congrArg Line.ipc (hne k hkl)).symm

/-- **The line's part of `mark_page_invalid`** moves one page of the line from valid to invalid;
a full line becomes a queued one. -/
theorem Homed.invalidatePage (h : lm.Homed n held) (spp : Ssdparams) (hl : l < n)
    (hv : 0 < (lm.lines l).vpc)
    (hsum : (lm.lines l).vpc + (lm.lines l).ipc ≤ spp.pgsPerLine)
    (hfull : (lm.lines l).vpc = spp.pgsPerLine ↔ l ∈ lm.fullLineList) :
    ∃ lm', lm.invalidatePage spp l = .ok lm' ∧ lm'.Homed n held ∧
      lm'.freeLineList = lm.freeLineList ∧ (∀ k, lm'.Closed k ↔ lm.Closed k) ∧
      ∀ k, (lm'.lines k).stat = if k = l then
        ((lm.lines l).id, (lm.lines l).ipc + 1, (lm.lines l).vpc - 1) else (lm.lines k).stat := by
  set line : Line := { lm.lines l with ipc := (lm.lines l).ipc + 1 } with hline
  have hself : (lm.setLine l line).lines l = line := by simp [setLine]
  have hne : ∀ k, k ≠ l → (lm.setLine l line).lines k = lm.lines k := fun k hk => by
    simp [setLine, hk]
  by_cases hf : l ∈ lm.fullLineList
  · -- full to victim
    have hvp := hfull.2 hf
    have hipc : (lm.lines l).ipc = 0 := by omega
    have hpos : (lm.lines l).pos = 0 := by
      by_contra hp
      exact h.not_queued (.inr (.inr hf)) (h.pos l (h.full_lt hf) hp)
    obtain ⟨h1, hfree⟩ := h.unfull hf { line with vpc := line.vpc - 1 } rfl rfl
    obtain ⟨hh, hmem, hstat⟩ := h1.insert (by simp [setLine, listDelInit, hline])
    refine ⟨_, ?_, hh, hfree, fun k => ?_, fun k => ?_⟩
    · have hroom : lm.victimLinePq.size < lm.victimLinePq.avail := h1.size_lt
      unfold LineMgmt.invalidatePage
      simp only [nvmevAssert, if_pos (show (lm.lines l).ipc < spp.pgsPerLine by omega), ok_bind,
        if_pos hvp, if_pos hipc, hpos, if_pos (show 0 < (lm.lines l).vpc ∧
          (lm.lines l).vpc ≤ spp.pgsPerLine by omega)]
      simp [setLine, listDelInit, hline, hpos, defined, hroom]
    · have hdel : ∀ k, k ∈ lm.fullLineList.erase l ↔ k ∈ lm.fullLineList ∧ k ≠ l := fun k => by
        refine ⟨fun hk => ⟨List.mem_of_mem_erase hk, ?_⟩, fun hk => (List.mem_erase_of_ne hk.2).2 hk.1⟩
        rintro rfl
        have h2 := h.count_le k
        have h3 : 0 < (lm.fullLineList.erase k).count k := List.count_pos_iff.2 hk
        rw [List.count_erase_self] at h3
        omega
      simp only [Closed, hmem]
      simp only [setLine, listDelInit, hdel]
      by_cases hk : k = l
      · simp [hk, hf]
      · simp [hk]
    · rw [hstat]
      by_cases hk : k = l
      · simp [hk, setLine, listDelInit, Line.stat, hline]
      · simp [hk, setLine, listDelInit]
  · have hvp : (lm.lines l).vpc ≠ spp.pgsPerLine := fun hvp => hf (hfull.1 hvp)
    have hlt : (lm.lines l).ipc < spp.pgsPerLine := by omega
    have hvlt : 0 < (lm.lines l).vpc ∧ (lm.lines l).vpc ≤ spp.pgsPerLine := by omega
    have hset : ∀ v, (lm.victimLinePq.Mem l → v = (lm.lines l).vpc) →
        (lm.setLine l { line with vpc := v }).Homed n held := fun v hv => by
      refine h.congr_lines (fun k => ?_) (fun k => ?_) (fun k hk => ?_) (fun k hk => ?_)
        fun k hk => ?_
      · by_cases hk : k = l
        · simp [hk, hline]
        · simp [hk]
      · by_cases hk : k = l
        · simp [hk, hline]
        · simp [hk]
      · have hkl : k ≠ l := fun hkl => hf (hkl ▸ hk)
        simpa [hkl] using h.full k hk
      · by_cases hkl : k = l
        · simp [hkl, hline]
        · simpa [hkl] using h.queued k hk
      · by_cases hkl : k = l
        · subst hkl
          simpa using hv hk
        · simp [hkl]
    by_cases hpos : (lm.lines l).pos = 0
    · -- an open line keeps its home
      refine ⟨_, ?_, hset (line.vpc - 1) fun hm => absurd hpos ((h.pos_iff hl).2 hm), rfl, fun k => Iff.rfl, fun k => ?_⟩
      · unfold LineMgmt.invalidatePage
        simp only [nvmevAssert, if_pos hlt, ok_bind, if_neg hvp, if_pos hvlt, hpos]
        simp [setLine, hline, hpos]
      · by_cases hk : k = l
        · simp [hk, setLine, Line.stat, hline]
        · simp [hk, setLine]
    · -- a queued line moves inside the queue
      obtain ⟨hh', hmem, hstat⟩ := (hset line.vpc fun _ => rfl).changePriority (h.pos l hl hpos) (line.vpc - 1)
      refine ⟨_, ?_, hh', rfl, fun k => ?_, fun k => ?_⟩
      · unfold LineMgmt.invalidatePage
        simp only [nvmevAssert, if_pos hlt, ok_bind, if_neg hvp, if_pos hvlt]
        simp [setLine, hline, hpos]
      · simp only [Closed, hmem]
        simp only [setLine]
      · rw [hstat]
        by_cases hk : k = l
        · simp [hk, setLine, hline]
        · simp [hk, setLine]

/-- **The line's part of `mark_page_valid`** counts one more valid page. -/
theorem Homed.validatePage (h : lm.Homed n held) (spp : Ssdparams) (hq : ¬ lm.victimLinePq.Mem l)
    (hv : (lm.lines l).vpc < spp.pgsPerLine) :
    ∃ lm', lm.validatePage spp l = .ok lm' ∧ lm'.Homed n held ∧
      lm'.freeLineList = lm.freeLineList ∧ (∀ k, lm'.Closed k ↔ lm.Closed k) ∧
      ∀ k, (lm'.lines k).stat = if k = l then
        ((lm.lines l).id, (lm.lines l).ipc, (lm.lines l).vpc + 1) else (lm.lines k).stat := by
  refine ⟨_, nvmevAssert_bind hv _, ?_, rfl, fun _ => Iff.rfl, fun k => ?_⟩
  · have hkeep : ∀ k, ((lm.setLine l { lm.lines l with vpc := (lm.lines l).vpc + 1 }).lines k).pos
        = (lm.lines k).pos ∧ ((lm.setLine l { lm.lines l with
        vpc := (lm.lines l).vpc + 1 }).lines k).id = (lm.lines k).id ∧ ((lm.setLine l { lm.lines l
        with vpc := (lm.lines l).vpc + 1 }).lines k).ipc = (lm.lines k).ipc := fun k => by
      by_cases hk : k = l
      · simp [hk, setLine]
      · simp [hk, setLine]
    refine h.congr_lines (fun k => (hkeep k).1) (fun k => (hkeep k).2.1) (fun k hk => ?_)
      (fun k hk => ?_) fun k hk => ?_
    · exact (hkeep k).2.2.trans (h.full k hk)
    · exact lt_of_lt_of_eq (h.queued k hk) (hkeep k).2.2.symm
    · have hkl : k ≠ l := fun hkl => hq (hkl ▸ hk)
      simp [hkl]
  · by_cases hk : k = l
    · simp [hk, setLine, Line.stat]
    · simp [hk, setLine]

end LineMgmt

end NvmeVirt
