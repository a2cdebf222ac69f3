/-
# The two chains of a work queue

`__insert_req_sorted`, `__allocate_work_queue_entry` and
`__reclaim_completed_reqs` of `io.c` on the lists their links stand for: an
insertion puts the entry somewhere into the scheduled list, an allocation takes
the first free entry, and a reclaim moves a prefix of the scheduled list to the
end of the free list.  Every index stays in exactly one of the two.
-/

import NvmeVirt.Io.Worker

namespace NvmeVirt

open Chain

/-- An entry without its links. -/
def IoWork.core (x : IoWork) : IoWork := { x with next := none, prev := none }

namespace IoWorker

variable {w : IoWorker} {free io xs ys done rest : List ℕ} {i j e t : ℕ} {n p : Option ℕ}

@[simp] theorem nexts_setNext : (w.setNext i n).nexts = Function.update w.nexts i n := by
  funext k
  by_cases hk : k = i
  · subst hk
    simp [nexts, setNext, setWork]
  · simp [nexts, setNext, setWork, hk]

@[simp] theorem nexts_setPrev : (w.setPrev i p).nexts = w.nexts := by
  funext k
  by_cases hk : k = i
  · subst hk
    simp [nexts, setPrev, setWork]
  · simp [nexts, setPrev, setWork, hk]

@[simp] theorem prevs_setPrev : (w.setPrev i p).prevs = Function.update w.prevs i p := by
  funext k
  by_cases hk : k = i
  · subst hk
    simp [prevs, setPrev, setWork]
  · simp [prevs, setPrev, setWork, hk]

@[simp] theorem prevs_setNext : (w.setNext i n).prevs = w.prevs := by
  funext k
  by_cases hk : k = i
  · subst hk
    simp [prevs, setNext, setWork]
  · simp [prevs, setNext, setWork, hk]

@[simp] theorem core_setNext : ((w.setNext i n).workQueue j).core = (w.workQueue j).core := by
  by_cases hj : j = i
  · subst hj
    simp [setNext, setWork, IoWork.core]
  · simp [setNext, setWork, hj]

@[simp] theorem core_setPrev : ((w.setPrev i p).workQueue j).core = (w.workQueue j).core := by
  by_cases hj : j = i
  · subst hj
    simp [setPrev, setWork, IoWork.core]
  · simp [setPrev, setWork, hj]

/-- The chain of the scheduled entries is `io`. -/
structure IoChainOk (w : IoWorker) (io : List ℕ) : Prop where
  seg : Seg w.nexts w.ioSeq io none
  back : Backs w.prevs none io
  tail : ∀ a, io.getLast? = some a → w.ioSeqEnd = some a

/-- The chain of the free entries is `free`. -/
structure FreeChainOk (w : IoWorker) (free : List ℕ) : Prop where
  seg : Seg w.nexts (some w.freeSeq) free none
  tail : free.getLast? = some w.freeSeqEnd

/-- **The representation of a work queue:** a free chain and a chain of scheduled entries, and
every index is in exactly one of them. -/
structure WorkerOk (w : IoWorker) (free io : List ℕ) : Prop where
  freeOk : FreeChainOk w free
  ioOk : IoChainOk w io
  perm : (free ++ io).Perm (List.range nrMaxParallelIo)

theorem WorkerOk.nodup (h : WorkerOk w free io) : (free ++ io).Nodup :=
  h.perm.nodup_iff.2 List.nodup_range

theorem WorkerOk.length (h : WorkerOk w free io) :
    free.length + io.length = nrMaxParallelIo := by
  have := h.perm.length_eq
  rwa [List.length_append, List.length_range] at this

theorem WorkerOk.lt (h : WorkerOk w free io) (hi : i ∈ free ∨ i ∈ io) : i < nrMaxParallelIo :=
  List.mem_range.1 (h.perm.mem_iff.1 (List.mem_append.2 hi))

theorem WorkerOk.ioChain_eq (h : WorkerOk w free io) : w.ioChain = io :=
  h.ioOk.seg.follow (by have := h.length; omega)

theorem WorkerOk.freeChain_eq (h : WorkerOk w free io) : w.freeChain = free :=
  h.freeOk.seg.follow (by have := h.length; omega)

/-! ### Start -/

/-- The links of a fresh queue lead upwards to the last entry. -/
theorem initWorker_seg (k : ℕ) (hk : k < nrMaxParallelIo) :
    Seg initWorker.nexts (some k) (List.range' k (nrMaxParallelIo - k)) none := by
  induction h : nrMaxParallelIo - k generalizing k with
  | zero => omega
  | succ m ih =>
    rw [List.range'_succ]
    refine ⟨rfl, ?_⟩
    by_cases hlast : k = nrMaxParallelIo - 1
    · have hm : m = 0 := by omega
      subst hm
      exact if_pos hlast
    · have hn : initWorker.nexts k = some (k + 1) := if_neg hlast
      rw [hn]
      exact ih (k + 1) (by omega) (by omega)

/-- **A fresh worker** has every entry in the free chain. -/
theorem initWorker_ok : WorkerOk initWorker (List.range nrMaxParallelIo) [] where
  freeOk := by
    refine ⟨?_, ?_⟩
    · rw [List.range_eq_range']
      exact initWorker_seg 0 (by decide)
    · rw [List.getLast?_range]
      rfl
  ioOk := ⟨rfl, trivial, by simp⟩
  perm := by simp

/-! ### Insertion -/

/-- What an insertion of `e` leaves as it was. -/
structure Inserted (w w' : IoWorker) (e : ℕ) (io : List ℕ) : Prop where
  frame : ∀ i, i ∉ e :: io → w'.nexts i = w.nexts i
  core : ∀ i, (w'.workQueue i).core = (w.workQueue i).core
  freeSeq : w'.freeSeq = w.freeSeq
  freeSeqEnd : w'.freeSeqEnd = w.freeSeqEnd
  latest : w'.latestNsecs = w.latestNsecs

/-- The last element of a list is not among the elements before it. -/
theorem ne_of_nodup_concat {l m : List ℕ} {c x : ℕ} (h : (l ++ [c] ++ m).Nodup)
    (hx : x ∈ l ∨ x ∈ m) : x ≠ c := by
  rintro rfl
  simp only [List.append_assoc, List.singleton_append, List.nodup_append, List.nodup_cons,
    List.mem_cons] at h
  rcases hx with hx | hx
  · exact h.2.2 x hx x (.inl rfl) rfl
  · exact h.2.1.1 hx

/-- Insertion at the head. -/
theorem IoChainOk.insertHead {first : ℕ} {l : List ℕ} (h : IoChainOk w (first :: l))
    (hnodup : (e :: first :: l).Nodup) (hp : w.prevs e = none) :
    IoChainOk (w.insertHead e first) (e :: first :: l) ∧
      Inserted w (w.insertHead e first) e (first :: l) := by
  obtain ⟨hseg, hback, htail⟩ := h
  obtain ⟨he, hnd⟩ := List.nodup_cons.1 hnodup
  have hN : (w.insertHead e first).nexts = Function.update w.nexts e (some first) := by
    show ((w.setPrev first (some e)).setNext e (some first)).nexts = _
    simp
  have hP : (w.insertHead e first).prevs = Function.update w.prevs first (some e) := by
    show ((w.setPrev first (some e)).setNext e (some first)).prevs = _
    simp
  refine ⟨⟨⟨rfl, ?_⟩, ⟨?_, ?_⟩, ?_⟩, ⟨?_, ?_, rfl, rfl, rfl⟩⟩
  · rw [hN, Function.update_self, ← hseg.1]
    exact hseg.update he _
  · rw [hP, Function.update_of_ne (fun hef => he (by simp [hef])), hp]
  · rw [hP]
    exact hback.update_first (List.nodup_cons.1 hnd).1 _
  · intro a ha
    rw [List.getLast?_cons_cons] at ha
    exact htail a ha
  · intro i hi
    rw [hN, Function.update_of_ne fun hie => hi (by simp [hie])]
  · intro i
    show (((w.setPrev first (some e)).setNext e (some first)).workQueue i).core = _
    simp

/-- Insertion at the tail. -/
theorem IoChainOk.insertTail {c : ℕ} {l : List ℕ} (h : IoChainOk w (l ++ [c]))
    (hnodup : (e :: (l ++ [c])).Nodup) (hn : w.nexts e = none) :
    IoChainOk (w.insertTail e c) (l ++ [c] ++ [e]) ∧
      Inserted w (w.insertTail e c) e (l ++ [c]) := by
  obtain ⟨hseg, hback, htail⟩ := h
  obtain ⟨he, hnd⟩ := List.nodup_cons.1 hnodup
  have hec : e ≠ c := fun hec => he (by simp [hec])
  have hN : (w.insertTail e c).nexts = Function.update w.nexts c (some e) := by
    show ((w.setPrev e (some c)).setNext c (some e)).nexts = _
    simp
  have hP : (w.insertTail e c).prevs = Function.update w.prevs e (some c) := by
    show ((w.setPrev e (some c)).setNext c (some e)).prevs = _
    simp
  refine ⟨⟨?_, ?_, ?_⟩, ⟨?_, ?_, rfl, rfl, rfl⟩⟩
  · rw [hN]
    have hcl : c ∉ l := fun hcl => ne_of_nodup_concat (m := []) (by simpa using hnd) (.inl hcl) rfl
    refine seg_append.2 ⟨some e, hseg.update_last hcl _, rfl, ?_⟩
    · rw [Function.update_of_ne hec, hn]
      rfl
  · rw [hP]
    refine backs_append.2 ⟨hback.update he _, ?_, trivial⟩
    rw [Function.update_self, List.getLast?_concat]
    rfl
  · intro a ha
    rw [List.getLast?_concat] at ha
    cases ha
    rfl
  · intro i hi
    rw [hN, Function.update_of_ne fun hic => hi (by simp [hic])]
  · intro i
    show (((w.setPrev e (some c)).setNext c (some e)).workQueue i).core = _
    simp

/-- Insertion in between. -/
theorem IoChainOk.insertBetween {c y : ℕ} {l ys : List ℕ} (h : IoChainOk w (l ++ [c] ++ y :: ys))
    (hnodup : (e :: (l ++ [c] ++ y :: ys)).Nodup) :
    IoChainOk (w.insertBetween e c y) (l ++ [c] ++ e :: y :: ys) ∧
      Inserted w (w.insertBetween e c y) e (l ++ [c] ++ y :: ys) := by
  obtain ⟨hseg, hback, htail⟩ := h
  obtain ⟨he, hnd⟩ := List.nodup_cons.1 hnodup
  have hec : e ≠ c := fun hec => he (by simp [hec])
  have hey : e ≠ y := fun hey => he (by simp [hey])
  have hN : (w.insertBetween e c y).nexts
      = Function.update (Function.update w.nexts e (some y)) c (some e) := by
    simp [IoWorker.insertBetween]
  have hP : (w.insertBetween e c y).prevs
      = Function.update (Function.update w.prevs e (some c)) y (some e) := by
    simp [IoWorker.insertBetween]
  have hNe : ∀ i, i ≠ c → i ≠ e → (w.insertBetween e c y).nexts i = w.nexts i := by
    intro i hic hie
    rw [hN, Function.update_of_ne hic, Function.update_of_ne hie]
  have hPe : ∀ i, i ≠ y → i ≠ e → (w.insertBetween e c y).prevs i = w.prevs i := by
    intro i hiy hie
    rw [hP, Function.update_of_ne hiy, Function.update_of_ne hie]
  have hne : ∀ i, i ∈ l ++ [c] ++ y :: ys → i ≠ e := fun i hi hie => he (hie ▸ hi)
  obtain ⟨r, hsl, hsr⟩ := seg_append.1 hseg
  obtain ⟨hbl, hbr⟩ := backs_append.1 hback
  have hry : r = some y := hsr.1
  refine ⟨⟨?_, ?_, ?_⟩, ⟨?_, by simp [IoWorker.insertBetween], rfl, rfl, rfl⟩⟩
  · refine seg_append.2 ⟨some e, ?_, rfl, ?_⟩
    · have := hsl.retarget fun b hb =>
        hNe b (ne_of_nodup_concat hnd (.inl hb)) (hne b (by simp [hb]))
      rwa [hN, Function.update_self, ← hN] at this
    · have hee : (w.insertBetween e c y).nexts e = some y := by
        rw [hN, Function.update_of_ne hec, Function.update_self]
      rw [hee, ← hry]
      exact hsr.congr fun a ha =>
        hNe a (ne_of_nodup_concat hnd (.inr ha)) (hne a (by simp at ha ⊢; tauto))
  · refine backs_append.2 ⟨hbl.congr fun a ha => hPe a ?_ (hne a (List.mem_append_left _ ha)),
      ?_, ?_⟩
    · rintro rfl
      exact (List.nodup_append.1 hnd).2.2 a ha a (by simp) rfl
    · rw [hP, Function.update_of_ne hey, Function.update_self, List.getLast?_concat]
      rfl
    · have := hbr.refront fun a ha => by
        refine hPe a ?_ (hne a (by simp [ha]))
        rintro rfl
        exact (List.nodup_cons.1 (List.nodup_append.1 hnd).2.1).1 ha
      rwa [hP, Function.update_self, ← hP] at this
  · intro a ha
    refine htail a ?_
    rw [List.getLast?_append] at ha ⊢
    rwa [List.getLast?_cons_cons] at ha
  · intro i hi
    refine hNe i ?_ ?_
    · rintro rfl
      exact hi (by simp)
    · rintro rfl
      exact hi (by simp)

/-- **`__insert_req_sorted`** puts the entry behind the last one where its walk stops. -/
theorem IoChainOk.insertReqSorted (h : IoChainOk w io) (hnodup : (e :: io).Nodup)
    (hlen : io.length ≤ nrMaxParallelIo) (hn : w.nexts e = none) (hp : w.prevs e = none) :
    ∃ xs ys, io = xs ++ ys ∧ IoChainOk (w.insertReqSorted e t) (xs ++ e :: ys) ∧
      Inserted w (w.insertReqSorted e t) e io ∧ (∀ y ∈ ys, ¬ w.StopsAt t y) ∧
      ∀ x, xs.getLast? = some x → w.StopsAt t x := by
  unfold IoWorker.insertReqSorted
  cases io with
  | nil =>
    have hio : w.ioSeq = none := h.seg
    rw [hio]
    refine ⟨[], [], rfl, ⟨⟨rfl, hn⟩, ⟨hp, trivial⟩, ?_⟩,
      ⟨fun _ _ => rfl, fun _ => rfl, rfl, rfl, rfl⟩, by simp, by simp⟩
    intro a ha
    cases ha
    rfl
  | cons first l =>
    have hend : w.ioSeqEnd = (first :: l).getLast? := by
      obtain ⟨z, hz⟩ := Option.isSome_iff_exists.1
        (List.getLast?_isSome.2 (List.cons_ne_nil first l))
      rw [hz]
      exact h.tail z hz
    obtain ⟨xs, ys, hxy, hseek, hys, hxs⟩ := h.back.seekBack (w.StopsAt t) hlen
    rw [show w.ioSeq = some first from h.seg.1, hend, hseek]
    refine ⟨xs, ys, hxy, ?_⟩
    cases xs using List.reverseRecOn with
    | nil =>
      obtain rfl : ys = first :: l := hxy.symm
      obtain ⟨h1, h2⟩ := h.insertHead hnodup hp
      exact ⟨h1, h2, hys, hxs⟩
    | append_singleton xs c =>
      rw [hxy] at h hnodup ⊢
      rw [List.getLast?_concat]
      obtain ⟨r, hsl, hsr⟩ := seg_append.1 h.seg
      have hc : (w.workQueue c).next = r := hsl.last
      dsimp only
      rw [hc]
      cases ys with
      | nil =>
        obtain rfl : r = none := hsr
        rw [List.append_nil] at h hnodup ⊢
        obtain ⟨h1, h2⟩ := h.insertTail hnodup hn
        exact ⟨h1, h2, hys, by simpa using hxs⟩
      | cons y ys =>
        obtain rfl : r = some y := hsr.1
        obtain ⟨h1, h2⟩ := h.insertBetween hnodup
        exact ⟨h1, h2, hys, by simpa using hxs⟩

/-! ### Allocation -/

/-- **`__allocate_work_queue_entry`** takes the first free entry if there is another one. -/
theorem WorkerOk.allocateEntry {f : ℕ} (h : WorkerOk w (e :: f :: free) io) :
    w.allocateEntry = some ({ w with freeSeq := f }, e) := by
  have hfree := h.freeOk.seg
  obtain ⟨he, hf, -⟩ := hfree
  obtain rfl : w.freeSeq = e := Option.some.inj he
  have hlt : f < nrMaxParallelIo := h.lt (.inl (by simp))
  have hnext : (w.workQueue w.freeSeq).next = some f := hf
  unfold IoWorker.allocateEntry
  rw [hnext]
  exact if_neg (not_le.2 hlt)

/-- The last free entry is never given out. -/
theorem WorkerOk.allocateEntry_none (h : WorkerOk w [e] io) : w.allocateEntry = none := by
  have hfree := h.freeOk.seg
  obtain ⟨he, hnext⟩ := hfree
  obtain rfl : w.freeSeq = e := Option.some.inj he
  have hnext : (w.workQueue w.freeSeq).next = none := hnext
  unfold IoWorker.allocateEntry
  rw [hnext]

/-- The free chain is not empty. -/
theorem WorkerOk.free_ne_nil (h : WorkerOk w free io) : free ≠ [] := by
  rintro rfl
  exact absurd h.freeOk.tail (by simp)

/-- **Putting an entry to work:** the first free entry, filled in and inserted. -/
theorem WorkerOk.enqueue {f : ℕ} (h : WorkerOk w (e :: f :: free) io) {fill : IoWork → IoWork}
    (hn : (fill (w.workQueue e)).next = none) (hp : (fill (w.workQueue e)).prev = none)
    {w' : IoWorker}
    (hw' : w' = (IoWorker.setWork { w with freeSeq := f } e fill).insertReqSorted e t) :
    ∃ xs ys, io = xs ++ ys ∧ WorkerOk w' (f :: free) (xs ++ e :: ys) ∧
      (∀ i, i ≠ e → (w'.workQueue i).core = (w.workQueue i).core) ∧
      (w'.workQueue e).core = (fill (w.workQueue e)).core ∧ w'.latestNsecs = w.latestNsecs ∧
      (∀ y ∈ ys, ¬ w.StopsAt t y) ∧ ∀ x, xs.getLast? = some x → w.StopsAt t x := by
  set w₁ := IoWorker.setWork { w with freeSeq := f } e fill with hw₁
  have hnd := h.nodup
  rw [List.cons_append, List.nodup_cons] at hnd
  obtain ⟨heio, hnd⟩ := hnd
  have hio : e ∉ io := fun hi => heio (List.mem_append_right _ hi)
  have hef : e ∉ f :: free := fun hi => heio (List.mem_append_left _ hi)
  have hNe : ∀ i, i ≠ e → w₁.workQueue i = w.workQueue i := fun i hi => Function.update_of_ne hi _ _
  have hee : w₁.workQueue e = fill (w.workQueue e) := Function.update_self ..
  have hne : ∀ l : List ℕ, e ∉ l → ∀ i ∈ l, i ≠ e := fun l hl i hi hie => hl (hie ▸ hi)
  have hchain : IoChainOk w₁ io := by
    refine ⟨h.ioOk.seg.congr fun a ha => ?_, h.ioOk.back.congr fun a ha => ?_, h.ioOk.tail⟩
    · exact congrArg IoWork.next (hNe a (hne io hio a ha))
    · exact congrArg IoWork.prev (hNe a (hne io hio a ha))
  have hlen := h.length
  obtain ⟨xs, ys, hxy, hok, hins, hys, hxs⟩ := hchain.insertReqSorted (t := t) (e := e)
    (List.nodup_cons.2 ⟨hio, (List.nodup_append.1 hnd).2.1⟩) (by omega)
    ((congrArg IoWork.next hee).trans hn) ((congrArg IoWork.prev hee).trans hp)
  rw [← hw'] at hok hins
  have hstop : ∀ i ∈ io, w₁.StopsAt t i ↔ w.StopsAt t i := by
    intro i hi
    unfold IoWorker.StopsAt
    rw [hNe i (hne io hio i hi)]
    rfl
  refine ⟨xs, ys, hxy, ⟨⟨?_, ?_⟩, hok, ?_⟩, fun i hi => ?_, ?_, hins.latest, fun y hy => ?_,
    fun x hx => ?_⟩
  · obtain ⟨-, hseg⟩ := h.freeOk.seg
    rw [hseg.1] at hseg
    rw [hins.freeSeq]
    refine hseg.congr fun a ha => (hins.frame a ?_).trans ?_
    · intro hmem
      rcases List.mem_cons.1 hmem with rfl | hmem
      · exact hef ha
      · exact (List.nodup_append.1 hnd).2.2 a ha a hmem rfl
    · exact congrArg IoWork.next (hNe a (hne _ hef a ha))
  · rw [hins.freeSeqEnd, ← List.getLast?_cons_cons (a := e)]
    exact h.freeOk.tail
  · refine List.Perm.trans ?_ h.perm
    rw [hxy, List.cons_append (a := e), ← List.append_assoc, ← List.append_assoc]
    exact List.perm_middle
  · rw [hins.core, hNe i hi]
  · rw [hins.core, hee]
  · rw [← hstop y (by simp [hxy, hy])]
    exact hys y hy
  · rw [← hstop x (by simp [hxy, List.mem_of_mem_getLast? hx])]
    exact hxs x hx

/-! ### Reclaim -/

/-- The walk of `__reclaim_completed_reqs` passes the longest prefix that can be reclaimed. -/
theorem lastReclaimable_spec {s : Option ℕ} {l : List ℕ} (h : Seg w.nexts s l none) {n : ℕ}
    (hn : l.length ≤ n) (last : Option ℕ) :
    ∃ done rest, l = done ++ rest ∧ w.lastReclaimable n s last = done.getLast?.or last ∧
      (∀ i ∈ done, w.Reclaimable i) ∧ ∀ i, rest.head? = some i → ¬ w.Reclaimable i := by
  induction l generalizing s n last with
  | nil =>
    cases h
    exact ⟨[], [], rfl, by cases n <;> rfl, by simp, by simp⟩
  | cons a l ih =>
    obtain ⟨rfl, h⟩ := h
    obtain ⟨n, rfl⟩ : ∃ k, n = k + 1 := ⟨n - 1, by simp at hn; omega⟩
    rw [IoWorker.lastReclaimable]
    by_cases ha : w.Reclaimable a
    · obtain ⟨done, rest, hl, hlast, hd, hr⟩ := ih h (by simpa using hn) (some a)
      refine ⟨a :: done, rest, by rw [hl, List.cons_append], ?_, ?_, hr⟩
      · rw [if_pos ha]
        refine hlast.trans ?_
        cases done using List.reverseRecOn with
        | nil => rfl
        | append_singleton done b =>
          rw [← List.cons_append, List.getLast?_concat, List.getLast?_concat]
          rfl
      · intro i hi
        rcases List.mem_cons.1 hi with rfl | hi
        · exact ha
        · exact hd i hi
    · refine ⟨[], a :: l, rfl, if_neg ha, by simp, ?_⟩
      intro i hi
      cases hi
      exact ha

/-- The links after a splice. -/
theorem reclaimUpTo_links (first last : ℕ) :
    (w.reclaimUpTo first last).nexts
        = Function.update (Function.update w.nexts last none) w.freeSeqEnd (some first) ∧
      (w.reclaimUpTo first last).prevs = Function.update
        (match w.nexts last with
          | none => w.prevs
          | some i => Function.update w.prevs i none) first (some w.freeSeqEnd) ∧
      (w.reclaimUpTo first last).latestNsecs = w.latestNsecs ∧
      ∀ i, ((w.reclaimUpTo first last).workQueue i).core = (w.workQueue i).core := by
  set w₁ : IoWorker := { w with ioSeq := (w.workQueue last).next } with hw₁
  have hN₁ : w₁.nexts = w.nexts := rfl
  have hP₁ : w₁.prevs = w.prevs := rfl
  cases hl : w.nexts last with
  | none =>
    have he : w.reclaimUpTo first last =
        { ((w₁.setNext last none).setPrev first (some w.freeSeqEnd)).setNext w.freeSeqEnd
          (some first) with freeSeqEnd := last } := by
      unfold IoWorker.reclaimUpTo
      rw [show (w.workQueue last).next = none from hl]
      rw [hw₁, show (w.workQueue last).next = none from hl]
      rfl
    rw [he]
    refine ⟨?_, ?_, rfl, fun i => ?_⟩
    · show (((w₁.setNext last none).setPrev first _).setNext w.freeSeqEnd _).nexts = _
      simp [hN₁]
    · show (((w₁.setNext last none).setPrev first _).setNext w.freeSeqEnd _).prevs = _
      simp [hP₁]
    · show ((((w₁.setNext last none).setPrev first _).setNext w.freeSeqEnd _).workQueue i).core = _
      simp [hw₁]
  | some j =>
    have he : w.reclaimUpTo first last =
        { (((w₁.setPrev j none).setNext last none).setPrev first (some w.freeSeqEnd)).setNext
          w.freeSeqEnd (some first) with freeSeqEnd := last } := by
      unfold IoWorker.reclaimUpTo
      rw [show (w.workQueue last).next = some j from hl]
      rw [hw₁, show (w.workQueue last).next = some j from hl]
      rfl
    rw [he]
    refine ⟨?_, ?_, rfl, fun i => ?_⟩
    · show ((((w₁.setPrev j none).setNext last none).setPrev first _).setNext
        w.freeSeqEnd _).nexts = _
      simp [hN₁]
    · show ((((w₁.setPrev j none).setNext last none).setPrev first _).setNext
        w.freeSeqEnd _).prevs = _
      simp [hP₁]
    · show (((((w₁.setPrev j none).setNext last none).setPrev first _).setNext
        w.freeSeqEnd _).workQueue i).core = _
      simp [hw₁]

/-- The heads and tails after a splice. -/
theorem reclaimUpTo_ends (first last : ℕ) :
    (w.reclaimUpTo first last).ioSeq = w.nexts last ∧
      (w.reclaimUpTo first last).ioSeqEnd = w.ioSeqEnd ∧
      (w.reclaimUpTo first last).freeSeq = w.freeSeq ∧
      (w.reclaimUpTo first last).freeSeqEnd = last := by
  unfold IoWorker.reclaimUpTo nexts
  cases hl : (w.workQueue last).next <;> exact ⟨rfl, rfl, rfl, rfl⟩

/-- **The splice of a reclaim.** -/
theorem WorkerOk.reclaimUpTo {first last : ℕ} {d : List ℕ}
    (h : WorkerOk w free (d ++ [last] ++ rest)) (hfirst : w.ioSeq = some first) :
    WorkerOk (w.reclaimUpTo first last) (free ++ (d ++ [last])) rest := by
  obtain ⟨hN, hP, -, -⟩ := reclaimUpTo_links (w := w) first last
  obtain ⟨hio, hend, hfree, hfend⟩ := reclaimUpTo_ends (w := w) first last
  obtain ⟨hnd, hndio, hdisj⟩ := List.nodup_append.1 h.nodup
  obtain ⟨hndd, hndr, hdr⟩ := List.nodup_append.1 hndio
  obtain ⟨r, hsd, hsr⟩ := seg_append.1 h.ioOk.seg
  obtain rfl : w.nexts last = r := hsd.last
  have hlast : last ∉ free := fun hl => hdisj last hl last (by simp) rfl
  obtain ⟨fr, hfr⟩ : ∃ fr, free = fr ++ [w.freeSeqEnd] :=
    ⟨_, (List.dropLast_append_getLast? _ h.freeOk.tail).symm⟩
  have hfin : w.freeSeqEnd ∈ free := by simp [hfr]
  have hfd : w.freeSeqEnd ∉ d ++ [last] := fun hl =>
    hdisj _ hfin _ (List.mem_append_left _ hl) rfl
  have hfr' : w.freeSeqEnd ∉ rest := fun hl => hdisj _ hfin _ (List.mem_append_right _ hl) rfl
  have hlr : last ∉ rest := fun hl => hdr last (by simp) last hl rfl
  have hld : last ∉ d := fun hl => (List.nodup_append.1 hndd).2.2 last hl last (by simp) rfl
  have hfrn : w.freeSeqEnd ∉ fr := by
    rw [hfr] at hnd
    exact fun hl => (List.nodup_append.1 hnd).2.2 _ hl _ (by simp) rfl
  have hfirst' : first ∈ d ++ [last] := by
    have hhead := hsd.head
    rw [hfirst] at hhead
    cases d with
    | nil => simpa using hhead
    | cons a d => simp at hhead; simp [hhead]
  refine ⟨⟨?_, ?_⟩, ⟨?_, ?_, fun a ha => ?_⟩, ?_⟩
  · rw [hN, hfree]
    refine seg_append.2 ⟨some first, ?_, ?_⟩
    · have := (h.freeOk.seg.update hlast none)
      rw [hfr] at this ⊢
      exact this.update_last hfrn _
    · rw [← hfirst]
      exact (hsd.update_last hld none).update hfd _
  · rw [hfend, ← List.append_assoc, List.getLast?_concat]
  · rw [hN, hio]
    exact (hsr.update hlr none).update hfr' _
  · have hfirstr : first ∉ rest := fun hl => hdr first hfirst' first hl rfl
    have hback := (backs_append.1 h.ioOk.back).2
    rw [hP]
    cases rest with
    | nil => trivial
    | cons j rest =>
      obtain hj : w.nexts last = some j := hsr.1
      rw [hj]
      exact (hback.update_first (List.nodup_cons.1 hndr).1 none).update hfirstr _
  · rw [hend]
    exact h.ioOk.tail a (by rw [List.getLast?_append, ha]; rfl)
  · rw [List.append_assoc]
    exact h.perm

/-- **`__reclaim_completed_reqs`** moves the longest prefix of completed entries to the end of the
free chain. -/
theorem WorkerOk.reclaim (h : WorkerOk w free io) :
    ∃ done rest, io = done ++ rest ∧ WorkerOk w.reclaimCompletedReqs (free ++ done) rest ∧
      (∀ i ∈ done, w.Reclaimable i) ∧ (∀ i, rest.head? = some i → ¬ w.Reclaimable i) ∧
      (∀ i, (w.reclaimCompletedReqs.workQueue i).core = (w.workQueue i).core) ∧
      w.reclaimCompletedReqs.latestNsecs = w.latestNsecs := by
  have hlen := h.length
  obtain ⟨done, rest, hio, hlast, hd, hr⟩ :=
    lastReclaimable_spec h.ioOk.seg (by omega : io.length ≤ nrMaxParallelIo) none
  refine ⟨done, rest, hio, ?_⟩
  unfold IoWorker.reclaimCompletedReqs
  rw [hlast, Option.or_none]
  subst hio
  cases done using List.reverseRecOn with
  | nil =>
    rw [List.append_nil]
    cases w.ioSeq <;> exact ⟨h, hd, hr, fun _ => rfl, rfl⟩
  | append_singleton d last =>
    have hhead := h.ioOk.seg.head
    obtain ⟨first, hfirst⟩ : ∃ first, w.ioSeq = some first := by
      rw [hhead]
      cases d <;> simp
    obtain ⟨-, -, hlat, hcore⟩ := reclaimUpTo_links (w := w) first last
    rw [hfirst, List.getLast?_concat]
    exact ⟨h.reclaimUpTo hfirst, hd, hr, hcore, hlat⟩

end IoWorker

end NvmeVirt
