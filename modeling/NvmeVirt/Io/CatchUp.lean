/-
# The worker catches up

A pass of `nvmev_io_worker` and a `__reclaim_completed_reqs` behind it.  The reclaim
stops at the first entry that is not completed, so an entry that is due could wait for
one that is not.  It does not: no entry that is due stands behind one that the clock has
not got to, and a pass completes all that was due when it began.  So the reclaim gives
back every entry that was due, and only entries that were not are left.
-/

import NvmeVirt.Io.WorkOrder

namespace NvmeVirt

namespace IoWorker

variable {w : IoWorker} {free io l : List ℕ} {e i k t curr : ℕ} {clock : ℕ → ℕ}
  {fill : IoWork → IoWork}

/-- **The marks of an entry:** one that is completed has been copied and is due. -/
def Marked (w : IoWorker) (i : ℕ) : Prop :=
  (w.workQueue i).isCompleted = true →
    (w.workQueue i).isCopied = true ∧ (w.workQueue i).nsecsTarget ≤ w.latestNsecs

/-! ### A visit -/

/-- A visit changes one entry. -/
theorem workQueue_visitEntry_of_ne (hi : i ≠ curr) :
    (w.visitEntry curr t).workQueue i = w.workQueue i := by
  unfold visitEntry
  dsimp only
  split_ifs
  · rfl
  · exact (Function.update_of_ne hi _ _).trans (Function.update_of_ne hi _ _)
  · exact Function.update_of_ne hi _ _

/-- **What a visit marks:** an entry that is not completed is copied, and completed if it is due. -/
theorem workQueue_visitEntry_self :
    (w.visitEntry curr t).workQueue curr =
      if (w.workQueue curr).isCompleted then w.workQueue curr
      else { w.workQueue curr with
        isCopied := true, isCompleted := decide ((w.workQueue curr).nsecsTarget ≤ t) } := by
  have hself : ∀ (w : IoWorker) (f : IoWork → IoWork),
      (w.setWork curr f).workQueue curr = f (w.workQueue curr) :=
    fun w f => Function.update_self ..
  unfold visitEntry
  dsimp only
  by_cases hdone : (w.workQueue curr).isCompleted = true
  · rw [if_pos hdone, if_pos hdone]
  · rw [if_neg hdone, if_neg hdone, hself]
    have hfalse : (w.workQueue curr).isCompleted = false := by simpa using hdone
    by_cases hdue : (w.workQueue curr).nsecsTarget ≤ t
    · rw [if_pos hdue, hself, hself]
      simp [hdue]
    · rw [if_neg hdue, hself]
      simp [hdue, hfalse]

/-- Marks are not taken back. -/
theorem visitEntry_keeps :
    ((w.workQueue i).isCopied = true → ((w.visitEntry curr t).workQueue i).isCopied = true) ∧
      ((w.workQueue i).isCompleted = true →
        ((w.visitEntry curr t).workQueue i).isCompleted = true) := by
  by_cases hi : i = curr
  · subst hi
    rw [workQueue_visitEntry_self]
    split_ifs with hdone
    · exact ⟨id, id⟩
    · exact ⟨fun _ => rfl, fun h => absurd h hdone⟩
  · rw [workQueue_visitEntry_of_ne hi]
    exact ⟨id, id⟩

/-- A visit keeps the marks right. -/
theorem Marked.visitEntry (h : w.Marked i) (ht : w.latestNsecs ≤ t) :
    (w.visitEntry curr t).Marked i := by
  unfold Marked
  rw [latestNsecs_visitEntry]
  by_cases hi : i = curr
  · subst hi
    rw [workQueue_visitEntry_self]
    split_ifs with hdone
    · exact fun _ => ⟨(h hdone).1, (h hdone).2.trans ht⟩
    · exact fun hdue => ⟨rfl, of_decide_eq_true hdue⟩
  · rw [workQueue_visitEntry_of_ne hi]
    exact fun hdone => ⟨(h hdone).1, (h hdone).2.trans ht⟩

/-- An entry that was visited is copied, and completed if it is due. -/
theorem Marked.visited (h : w.Marked curr) :
    ((w.visitEntry curr t).workQueue curr).isCopied = true ∧
      ((w.workQueue curr).nsecsTarget ≤ t →
        ((w.visitEntry curr t).workQueue curr).isCompleted = true) := by
  rw [workQueue_visitEntry_self]
  split_ifs with hdone
  · exact ⟨(h hdone).1, fun _ => hdone⟩
  · exact ⟨rfl, fun hdue => decide_eq_true hdue⟩

/-! ### The visits of a pass -/

/-- The first visit, and the others behind it. -/
theorem visits_cons {a : ℕ} :
    visits clock k (a :: l) w = visits clock (k + 1) l (w.visitEntry a (clock k)) := rfl

/-- The visits leave the chains alone. -/
theorem WorkerOk.visits (h : WorkerOk w free io) : WorkerOk (visits clock k l w) free io := by
  induction l generalizing w k with
  | nil => exact h
  | cons a l ih => exact ih h.visitEntry

/-- The visits leave the target times alone. -/
theorem nsecsTarget_visits :
    ((visits clock k l w).workQueue i).nsecsTarget = (w.workQueue i).nsecsTarget := by
  induction l generalizing w k with
  | nil => rfl
  | cons a l ih => exact ih.trans (nsecsTarget_visitEntry i)

/-- Marks are not taken back by any visit. -/
theorem visits_keeps :
    ((w.workQueue i).isCopied = true → ((visits clock k l w).workQueue i).isCopied = true) ∧
      ((w.workQueue i).isCompleted = true →
        ((visits clock k l w).workQueue i).isCompleted = true) := by
  induction l generalizing w k with
  | nil => exact ⟨id, id⟩
  | cons a l ih => exact ⟨fun h => ih.1 (visitEntry_keeps.1 h), fun h => ih.2 (visitEntry_keeps.2 h)⟩

/-- The visits keep the marks right. -/
theorem Marked.visits (h : w.Marked i) (hclock : Monotone clock) (hk : w.latestNsecs ≤ clock k) :
    (visits clock k l w).Marked i := by
  induction l generalizing w k with
  | nil => exact h
  | cons a l ih =>
    refine ih (h.visitEntry hk) ?_
    rw [latestNsecs_visitEntry]
    exact hclock (Nat.le_succ k)

/-- **Every entry visited is copied,** and completed if it was due at the first visit. -/
theorem visits_marks (h : ∀ i, w.Marked i) (hclock : Monotone clock)
    (hk : w.latestNsecs ≤ clock k) (hi : i ∈ l) :
    ((visits clock k l w).workQueue i).isCopied = true ∧
      ((w.workQueue i).nsecsTarget ≤ clock k →
        ((visits clock k l w).workQueue i).isCompleted = true) := by
  induction l generalizing w k with
  | nil => cases hi
  | cons a l ih =>
    have hnext : (w.visitEntry a (clock k)).latestNsecs ≤ clock (k + 1) := by
      rw [latestNsecs_visitEntry]
      exact hclock (Nat.le_succ k)
    rcases List.mem_cons.1 hi with rfl | hi
    · -- The marks of the visit stay.
      obtain ⟨hcopied, hdone⟩ := (h i).visited (t := clock k)
      rw [visits_cons]
      exact ⟨visits_keeps.1 hcopied, fun hdue => visits_keeps.2 (hdone hdue)⟩
    · obtain ⟨hcopied, hdone⟩ := ih (fun j => (h j).visitEntry hk) hnext hi
      refine ⟨hcopied, fun hdue => hdone ?_⟩
      rw [nsecsTarget_visitEntry]
      exact hdue.trans (hclock (Nat.le_succ k))

/-! ### Runs -/

/-- What the marks depend on. -/
theorem Marked.congr {w' : IoWorker} (h : w.Marked i)
    (hcore : (w'.workQueue i).core = (w.workQueue i).core)
    (hlat : w'.latestNsecs = w.latestNsecs) : w'.Marked i := by
  have hdone : (w'.workQueue i).isCompleted = (w.workQueue i).isCompleted := by
    have := congrArg IoWork.isCompleted hcore
    exact this
  have hcopied : (w'.workQueue i).isCopied = (w.workQueue i).isCopied := by
    have := congrArg IoWork.isCopied hcore
    exact this
  unfold Marked
  rw [hdone, hcopied, nsecsTarget_of_core hcore, hlat]
  exact h

/-- Work that is put in is not completed. -/
theorem WorkerOk.marked_putWork (hok : WorkerOk w free io) (h : ∀ i, w.Marked i)
    (hn : ∀ x, (fill x).next = none) (hp : ∀ x, (fill x).prev = none)
    (hfill : ∀ x, (fill x).isCompleted = false) : ∀ i, (w.putWork t fill).Marked i := by
  unfold IoWorker.putWork
  cases ha : w.allocateEntry with
  | none => exact h
  | some r =>
    obtain ⟨w₁, e⟩ := r
    obtain ⟨f, rest, rfl, rfl⟩ := hok.of_allocateEntry ha
    obtain ⟨xs, ys, -, -, hcore, hecore, hlat, -⟩ := hok.enqueue (hn _) (hp _) rfl
    intro i
    by_cases hi : i = e
    · subst hi
      intro hdone
      have hfalse := (congrArg IoWork.isCompleted hecore).trans (hfill _)
      exact absurd (hdone.symm.trans hfalse) (by decide)
    · exact (h i).congr (hcore i hi) hlat

/-- **Every state reached** has its marks right. -/
theorem marked_of_reachable (h : WorkReachable w) : ∀ i, w.Marked i := by
  induction h with
  | init => exact fun i hdone => absurd hdone (by simp [initWorker, initWork])
  | enqueue item nsecsTarget h ih =>
    obtain ⟨free, io, hok, -⟩ := Ordered.of_reachable h
    exact hok.marked_putWork ih (fun _ => rfl) (fun _ => rfl) fun _ => rfl
  | internal sqid ticket op h ih =>
    obtain ⟨free, io, hok, -⟩ := Ordered.of_reachable h
    exact hok.marked_putWork ih (fun _ => rfl) (fun _ => rfl) fun _ => rfl
  | reclaim h ih =>
    obtain ⟨free, io, hok, -⟩ := Ordered.of_reachable h
    obtain ⟨done, rest, -, -, -, -, hcore, hlat⟩ := hok.reclaim
    exact fun i => (ih i).congr (hcore i) hlat
  | pass clock h hclock hlatest ih =>
    obtain ⟨free, io, hok, -⟩ := Ordered.of_reachable h
    rw [hok.pass_eq_visits]
    exact fun i => (ih i).visits hclock hlatest

/-- **The worker catches up:** in every state reached, a pass and a reclaim give back the front of
the chain, all of it completed and none of it before its time, and no entry that was due when the
pass began is left. -/
theorem pass_reclaim_catchesUp (h : WorkReachable w) (hclock : Monotone clock)
    (hlatest : w.latestNsecs ≤ clock 0) :
    ∃ done, w.ioChain = done ++ (w.pass clock).reclaimCompletedReqs.ioChain ∧
      (w.pass clock).reclaimCompletedReqs.freeChain = w.freeChain ++ done ∧
      (∀ i ∈ done, ((w.pass clock).workQueue i).isCompleted = true ∧
        (w.workQueue i).nsecsTarget ≤ (w.pass clock).latestNsecs) ∧
      ∀ i ∈ (w.pass clock).reclaimCompletedReqs.ioChain,
        clock 0 < (w.workQueue i).nsecsTarget := by
  obtain ⟨free, io, hok, hord⟩ := Ordered.of_reachable h
  have hmarked := marked_of_reachable h
  rw [hok.pass_eq_visits]
  have hvisited : WorkerOk (visits clock 0 io w) free io := hok.visits
  obtain ⟨done, rest, rfl, hnew, hdone, hhead, -, -⟩ := hvisited.reclaim
  refine ⟨done, ?_, ?_, fun i hi => ?_, fun i hi => ?_⟩
  · rw [hok.ioChain_eq, hnew.ioChain_eq]
  · rw [hnew.freeChain_eq, hok.freeChain_eq]
  · obtain ⟨hcompleted, -, hdue⟩ := hdone i hi
    exact ⟨hcompleted, nsecsTarget_visits.symm.trans_le hdue⟩
  · rw [hnew.ioChain_eq] at hi
    cases rest with
    | nil => cases hi
    | cons a l =>
      -- The reclaim stopped at `a`, so `a` was not due when the pass began.
      have ha : clock 0 < (w.workQueue a).nsecsTarget := by
        by_contra hle
        obtain ⟨hcopied, hcompletes⟩ := visits_marks hmarked hclock hlatest
          (show a ∈ done ++ a :: l by simp)
        have hcompleted := hcompletes (not_lt.1 hle)
        have hdue := ((hmarked a).visits (l := done ++ a :: l) hclock hlatest hcompleted).2
        exact hhead a rfl ⟨hcompleted, hcopied, hdue⟩
      rcases List.mem_cons.1 hi with rfl | hi
      · exact ha
      · have hrest := (List.pairwise_append.1 hord).2.1
        rcases (List.pairwise_cons.1 hrest).1 i hi with hsorted | hdue
        · exact ha.trans_le hsorted
        · exact absurd (hdue.trans hlatest) (not_le.2 ha)

/-- The overdue request goes with the one before it, and the one of 20 is left at 15. -/
theorem pass_reclaim_catchesUp_overdue :
    ∃ done, overdueWork.ioChain =
        done ++ (overdueWork.pass fun _ => 15).reclaimCompletedReqs.ioChain ∧
      (overdueWork.pass fun _ => 15).reclaimCompletedReqs.freeChain =
        overdueWork.freeChain ++ done ∧
      (∀ i ∈ done, ((overdueWork.pass fun _ => 15).workQueue i).isCompleted = true ∧
        (overdueWork.workQueue i).nsecsTarget ≤ (overdueWork.pass fun _ => 15).latestNsecs) ∧
      ∀ i ∈ (overdueWork.pass fun _ => 15).reclaimCompletedReqs.ioChain,
        15 < (overdueWork.workQueue i).nsecsTarget :=
  pass_reclaim_catchesUp overdueWork_reachable monotone_const (by decide +kernel)

end IoWorker

end NvmeVirt
