/-
# What a worker still owes

The invariant of one worker of `io.c` while the dispatcher allocates, inserts
and reclaims between any two visits of the worker thread.  A thread that was
overtaken by a reclaim stands in the free chain, at an entry that was reclaimed
and behind which only reclaimed entries come, so it passes them without work.

`owed` collects what the scheduled entries that are not completed stand for.
Putting an entry to work adds its part, a completion takes it off, and nothing
else changes it.
-/

import NvmeVirt.Io.WorkerChains
import NvmeVirt.Lib.Sums

namespace NvmeVirt

open Chain

/-- One thing or nothing. -/
def owe {β : Type} (o : Option β) : Multiset β := o.elim 0 fun b => {b}

@[simp] theorem owe_none {β : Type} : owe (none : Option β) = 0 := rfl

@[simp] theorem owe_some {β : Type} (b : β) : owe (some b) = {b} := rfl

/-- What an entry stands for does not depend on its links, and nothing once it is completed. -/
structure Owes {β : Type} (sel : IoWork → Option β) : Prop where
  core : ∀ x, sel x.core = sel x
  done : ∀ x : IoWork, x.isCompleted = true → sel x = none

/-- Standing for nothing at all. -/
theorem owes_none : Owes fun _ => (none : Option ℕ) := ⟨fun _ => rfl, fun _ _ => rfl⟩

/-- Entries that differ in their links stand for the same. -/
theorem Owes.congr {β : Type} {sel : IoWork → Option β} (h : Owes sel) {x y : IoWork}
    (hxy : x.core = y.core) : sel x = sel y := by
  rw [← h.core x, hxy, h.core]

namespace IoWorker

variable {w w' : IoWorker} {free fresh used io : List ℕ} {i e t curr : ℕ} {cur : Option ℕ}
  {β : Type} {sel : IoWork → Option β}

/-- What the scheduled entries stand for. -/
def owed (sel : IoWork → Option β) (w : IoWorker) : Multiset β :=
  w.ioChain.toFinset.sum fun i => owe (sel (w.workQueue i))

/-- **The invariant of a worker** whose thread stands at `cur`: the free chain ends in entries that
were reclaimed, and the thread is among them or in the chain of scheduled entries. -/
def WorkerInv (w : IoWorker) (cur : Option ℕ) : Prop :=
  ∃ fresh used io, WorkerOk w (fresh ++ used) io ∧
    (∀ i ∈ used, (w.workQueue i).isCompleted = true) ∧ ∀ c, cur = some c → c ∈ used ∨ c ∈ io

/-- The links and ends alone make the chains. -/
theorem WorkerOk.congr (h : WorkerOk w free io) (hn : w'.nexts = w.nexts) (hp : w'.prevs = w.prevs)
    (hf : w'.freeSeq = w.freeSeq) (hfe : w'.freeSeqEnd = w.freeSeqEnd) (hi : w'.ioSeq = w.ioSeq)
    (hie : w'.ioSeqEnd = w.ioSeqEnd) : WorkerOk w' free io := by
  obtain ⟨⟨h1, h2⟩, ⟨h3, h4, h5⟩, h6⟩ := h
  refine ⟨⟨?_, ?_⟩, ⟨?_, ?_, ?_⟩, h6⟩
  · rwa [hn, hf]
  · rwa [hfe]
  · rwa [hn, hi]
  · rwa [hp]
  · rwa [hie]

/-- **A fresh worker** satisfies the invariant. -/
theorem initWorker_inv : WorkerInv initWorker none := by
  refine ⟨List.range nrMaxParallelIo, [], [], ?_, by simp, by simp⟩
  rw [List.append_nil]
  exact initWorker_ok

/-- A fresh worker owes nothing. -/
theorem initWorker_owed : initWorker.owed sel = 0 := by
  unfold owed
  rw [initWorker_ok.ioChain_eq]
  rfl

/-- Changing one entry that is scheduled. -/
theorem owed_change (hio : w.ioChain = io) (hio' : w'.ioChain = io) (hi : i ∈ io)
    (hne : ∀ j ∈ io, j ≠ i → sel (w'.workQueue j) = sel (w.workQueue j)) :
    w'.owed sel + owe (sel (w.workQueue i)) = w.owed sel + owe (sel (w'.workQueue i)) := by
  unfold owed
  rw [hio, hio']
  refine Sums.sum_change (f := fun i => owe (sel (w.workQueue i)))
    (g := fun i => owe (sel (w'.workQueue i))) (List.mem_toFinset.2 hi) fun j hj hji => ?_
  rw [hne j (List.mem_toFinset.1 hj) hji]

/-- An allocation takes the first of the free entries, which are two at least. -/
theorem WorkerOk.of_allocateEntry (h : WorkerOk w free io) {w₁ : IoWorker}
    (ha : w.allocateEntry = some (w₁, e)) :
    ∃ f rest, free = e :: f :: rest ∧ w₁ = { w with freeSeq := f } := by
  cases free with
  | nil => exact absurd rfl h.free_ne_nil
  | cons a rest =>
    cases rest with
    | nil =>
      rw [h.allocateEntry_none] at ha
      cases ha
    | cons f rest =>
      rw [h.allocateEntry] at ha
      cases ha
      exact ⟨f, rest, rfl, rfl⟩

/-- **Putting an entry to work** adds what it stands for. -/
theorem WorkerInv.put (h : WorkerInv w cur) (hsel : Owes sel) {w₁ : IoWorker}
    (ha : w.allocateEntry = some (w₁, e)) {fill : IoWork → IoWork}
    (hn : (fill (w.workQueue e)).next = none) (hp : (fill (w.workQueue e)).prev = none) :
    WorkerInv ((w₁.setWork e fill).insertReqSorted e t) cur ∧
      ((w₁.setWork e fill).insertReqSorted e t).owed sel
        = w.owed sel + owe (sel (fill (w.workQueue e))) := by
  obtain ⟨fresh, used, io, hok, hused, hcur⟩ := h
  obtain ⟨f, rest, hfree, rfl⟩ := hok.of_allocateEntry ha
  have hok' := hok
  rw [hfree] at hok'
  obtain ⟨xs, ys, rfl, hnew, hcore, hecore, -⟩ := hok'.enqueue (t := t) hn hp rfl
  set w' := (IoWorker.setWork { w with freeSeq := f } e fill).insertReqSorted e t
  have hnd := hok'.nodup
  have heio : e ∉ xs ++ ys := fun hi => (List.nodup_append.1 hnd).2.2 e (by simp) e hi rfl
  refine ⟨?_, ?_⟩
  · have hdone : ∀ i ∈ used, i ≠ e → (w'.workQueue i).isCompleted = true := by
      intro i hi hie
      have := congrArg IoWork.isCompleted (hcore i hie)
      exact this.trans (hused i hi)
    cases fresh with
    | nil =>
      obtain rfl : used = e :: f :: rest := hfree
      have hef : e ∉ f :: rest := (List.nodup_cons.1 (List.nodup_append.1 hnd).1).1
      refine ⟨[], f :: rest, _, hnew, fun i hi => hdone i (List.mem_cons_of_mem e hi) ?_, ?_⟩
      · rintro rfl
        exact hef hi
      · intro c hc
        rcases hcur c hc with hcu | hcio
        · rcases List.mem_cons.1 hcu with rfl | hcu
          · exact .inr (by simp)
          · exact .inl hcu
        · exact .inr (by simp at hcio ⊢; tauto)
    | cons a fr =>
      obtain ⟨rfl, hfr⟩ := List.cons.inj hfree
      rw [← hfr] at hnew
      rw [← hfr] at hnd
      refine ⟨fr, used, _, hnew, fun i hi => hdone i hi ?_, fun c hc => ?_⟩
      · rintro rfl
        exact (List.nodup_cons.1 (List.nodup_append.1 hnd).1).1 (List.mem_append_right _ hi)
      · rcases hcur c hc with hcu | hcio
        · exact .inl hcu
        · exact .inr (by simp at hcio ⊢; tauto)
  · have hset : (xs ++ e :: ys).toFinset = insert e (xs ++ ys).toFinset := by
      ext i
      simp only [List.mem_toFinset, List.mem_append, List.mem_cons, Finset.mem_insert]
      tauto
    unfold owed
    rw [hnew.ioChain_eq, hok.ioChain_eq, hset,
      Finset.sum_insert (by rwa [List.mem_toFinset]), hsel.congr hecore, add_comm]
    congr 1
    refine Finset.sum_congr rfl fun i hi => ?_
    have hie : i ≠ e := by
      rintro rfl
      exact heio (List.mem_toFinset.1 hi)
    rw [hsel.congr (hcore i hie)]

/-- **A reclaim** changes nothing of what is owed. -/
theorem WorkerInv.reclaim (h : WorkerInv w cur) (hsel : Owes sel) :
    WorkerInv w.reclaimCompletedReqs cur ∧ w.reclaimCompletedReqs.owed sel = w.owed sel := by
  obtain ⟨fresh, used, io, hok, hused, hcur⟩ := h
  obtain ⟨done, rest, rfl, hnew, hdone, -, hcore, -⟩ := hok.reclaim
  have hcomp : ∀ i, (w.reclaimCompletedReqs.workQueue i).isCompleted
      = (w.workQueue i).isCompleted := by
    intro i
    have := congrArg IoWork.isCompleted (hcore i)
    exact this
  refine ⟨⟨fresh, used ++ done, rest, ?_, ?_, ?_⟩, ?_⟩
  · rwa [← List.append_assoc]
  · intro i hi
    rw [hcomp]
    rcases List.mem_append.1 hi with hi | hi
    · exact hused i hi
    · exact (hdone i hi).1
  · intro c hc
    rcases hcur c hc with hcu | hcio
    · exact .inl (List.mem_append_left _ hcu)
    · rcases List.mem_append.1 hcio with hcd | hcr
      · exact .inl (List.mem_append_right _ hcd)
      · exact .inr hcr
  · unfold owed
    rw [hnew.ioChain_eq, hok.ioChain_eq]
    refine (Finset.sum_congr rfl fun i _ => by rw [hsel.congr (hcore i)]).trans ?_
    refine Finset.sum_subset (fun i hi => ?_) fun i hi hir => ?_
    · rw [List.mem_toFinset] at hi ⊢
      exact List.mem_append_right _ hi
    · rw [List.mem_toFinset] at hi hir
      have hid : i ∈ done := (List.mem_append.1 hi).resolve_right hir
      rw [hsel.done _ (hdone i hid).1, owe_none]

/-- The head of the chain of scheduled entries is one of them. -/
theorem IoChainOk.head_mem (h : IoChainOk w io) {c : ℕ} (hc : w.ioSeq = some c) : c ∈ io := by
  have hseg := h.seg
  cases io with
  | nil =>
    rw [hc] at hseg
    cases hseg
  | cons a l =>
    rw [hc] at hseg
    rw [Option.some.inj hseg.1]
    simp

/-- **The thread begins a pass.** -/
theorem WorkerInv.enter (h : WorkerInv w none) : WorkerInv w w.ioSeq := by
  obtain ⟨fresh, used, io, hok, hused, -⟩ := h
  exact ⟨fresh, used, io, hok, hused, fun c hc => .inr (hok.ioOk.head_mem hc)⟩

/-- **The thread goes on** along the chain. -/
theorem WorkerInv.next (h : WorkerInv w (some curr)) : WorkerInv w (w.nexts curr) := by
  obtain ⟨fresh, used, io, hok, hused, hcur⟩ := h
  refine ⟨fresh, used, io, hok, hused, fun c hc => ?_⟩
  rcases hcur curr rfl with hcu | hcio
  · left
    -- behind a reclaimed entry come reclaimed entries only
    obtain ⟨r, -, hseg⟩ := seg_append.1 hok.freeOk.seg
    obtain ⟨pre, post, hl⟩ := hseg.split_of_next hcu hc
    rw [hl]
    simp
  · right
    obtain ⟨pre, post, hl⟩ := hok.ioOk.seg.split_of_next hcio hc
    rw [hl]
    simp

/-- An entry that is not completed and at which the thread stands is scheduled. -/
theorem WorkerInv.mem_ioChain (h : WorkerInv w (some curr))
    (hc : (w.workQueue curr).isCompleted = false) : curr ∈ w.ioChain := by
  obtain ⟨fresh, used, io, hok, hused, hcur⟩ := h
  rw [hok.ioChain_eq]
  refine (hcur curr rfl).resolve_left fun hcu => ?_
  rw [hused curr hcu] at hc
  cases hc

/-- Marks leave the chains as they are. -/
theorem WorkerOk.mark (h : WorkerOk w free io) {f : IoWork → IoWork}
    (hn : ∀ x, (f x).next = x.next) (hp : ∀ x, (f x).prev = x.prev) :
    WorkerOk (w.setWork curr f) free io := by
  refine h.congr ?_ ?_ rfl rfl rfl rfl
  · funext i
    by_cases hi : i = curr
    · subst hi
      simp [nexts, setWork, hn]
    · simp [nexts, setWork, hi]
  · funext i
    by_cases hi : i = curr
    · subst hi
      simp [prevs, setWork, hp]
    · simp [prevs, setWork, hi]

/-- **Marks on the entry the thread stands at,** if it is not completed. -/
theorem WorkerInv.mark (h : WorkerInv w (some curr))
    (hc : (w.workQueue curr).isCompleted = false) {f : IoWork → IoWork}
    (hn : ∀ x, (f x).next = x.next) (hp : ∀ x, (f x).prev = x.prev) :
    WorkerInv (w.setWork curr f) (some curr) := by
  obtain ⟨fresh, used, io, hok, hused, hcur⟩ := h
  refine ⟨fresh, used, io, hok.mark hn hp, fun i hi => ?_, hcur⟩
  have hic : i ≠ curr := by
    rintro rfl
    rw [hused i hi] at hc
    cases hc
  have heq : (w.setWork curr f).workQueue i = w.workQueue i := Function.update_of_ne hic _ _
  rw [heq]
  exact hused i hi

/-- What such marks change of what is owed. -/
theorem WorkerInv.owed_mark (h : WorkerInv w (some curr))
    (hc : (w.workQueue curr).isCompleted = false) {f : IoWork → IoWork}
    (hn : ∀ x, (f x).next = x.next) (hp : ∀ x, (f x).prev = x.prev) :
    (w.setWork curr f).owed sel + owe (sel (w.workQueue curr))
      = w.owed sel + owe (sel (f (w.workQueue curr))) := by
  have hmem := h.mem_ioChain hc
  obtain ⟨fresh, used, io, hok, -, -⟩ := h
  have hself : (w.setWork curr f).workQueue curr = f (w.workQueue curr) := Function.update_self ..
  rw [hok.ioChain_eq] at hmem
  rw [← hself]
  refine owed_change hok.ioChain_eq (hok.mark hn hp).ioChain_eq hmem fun j _ hj => ?_
  have heq : (w.setWork curr f).workQueue j = w.workQueue j := Function.update_of_ne hj _ _
  rw [heq]

end IoWorker

end NvmeVirt
