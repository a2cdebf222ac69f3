/-
# Rings with a phase tag

A writer and a reader share a ring without telling each other how far they are.
Every entry carries the phase of the round it was written in, the phase turns each
time the writer passes the last slot, and the reader takes the entry at its head
if it carries the phase of the reader's own round.

What is written is the entry of an item, `entry a b` for the item `a` in phase `b`,
and the history of a run is the list of its items.  `Synced` says where writer and
reader stand in that history: after `k` items the writer is at slot `k % n` in the
phase of round `k / n`, and the slots hold the entries of the newest `n` items.  As
long as the reader is never more than a round behind it takes the entry of every
item once and in order.
-/

import NvmeVirt.Lib.Ring

namespace PhaseRing

universe u v w

variable {ρ : Type v} {ε : Type u} {α : Type w}

/-- The ring as the writer has it. -/
structure TaggedRing (ε : Type u) where
  size : ℕ
  head : ℕ
  phase : Bool
  entries : ℕ → ε

/-- The next entry is written, with the phase of the round. -/
def TaggedRing.post (r : TaggedRing ε) (entry : Bool → ε) : TaggedRing ε where
  size := r.size
  head := Ring.succ r.size r.head
  phase := if r.head + 1 = r.size then !r.phase else r.phase
  entries := Function.update r.entries r.head (entry r.phase)

/-- Where a reader stands. -/
structure Reader where
  head : ℕ
  phase : Bool
  deriving DecidableEq, Repr

/-- The reader goes on to the next slot. -/
def Reader.next (h : Reader) (size : ℕ) : Reader where
  head := Ring.succ size h.head
  phase := if h.head + 1 = size then !h.phase else h.phase

/-- A queue with its reader; the items `posted` and the entries `observed` are history variables. -/
structure Polled (ρ : Type v) (α : Type w) (ε : Type u) where
  queue : ρ
  reader : Reader
  posted : List α
  observed : List ε

/-- The phase of the round the entry number `k` belongs to. -/
def phaseAt (n k : ℕ) : Bool := decide (k / n % 2 = 0)

/-- The entries of the items, each in the phase of its round. -/
def entriesOf (entry : α → Bool → ε) (n : ℕ) (items : List α) : List ε :=
  items.mapIdx fun k a => entry a (phaseAt n k)

section Runs

variable (view : ρ → TaggedRing ε) (tag : ε → Bool) (entry : α → Bool → ε) (fill : α → ρ → ρ → Prop)

/-- The reader looks at the entry at its head. -/
def Polled.poll (s : Polled ρ α ε) : Polled ρ α ε :=
  let e := (view s.queue).entries s.reader.head
  if tag e = s.reader.phase then
    { s with reader := s.reader.next (view s.queue).size, observed := s.observed ++ [e] }
  else s

/-- The queue after an item was filled in. -/
def Polled.filled (s : Polled ρ α ε) (a : α) (q : ρ) : Polled ρ α ε :=
  { s with queue := q, posted := s.posted ++ [a] }

/-- A queue nothing has been posted to, and a reader that expects phase 1 at slot 0. -/
def Polled.start (q : ρ) : Polled ρ α ε where
  queue := q
  reader := { head := 0, phase := true }
  posted := []
  observed := []

/-- What items filled in and looks of the reader lead to, in any order, with fewer entries
outstanding than the ring has slots. -/
inductive Run (q : ρ) : Polled ρ α ε → Prop
  | start : Run q (.start q)
  | fill {s : Polled ρ α ε} {a : α} {q' : ρ} (h : Run q s) (hfill : fill a s.queue q')
      (hroom : s.posted.length + 1 < s.observed.length + (view s.queue).size) :
      Run q (s.filled a q')
  | poll {s : Polled ρ α ε} (h : Run q s) : Run q (s.poll view tag)

/-- The entries of the posted items. -/
def Polled.expected (s : Polled ρ α ε) : List ε := entriesOf entry (view s.queue).size s.posted

/-- **The reader sees the entry of every posted item once, in order, and nothing else.** -/
structure ObservedInOrder (s : Polled ρ α ε) : Prop where
  inOrder : s.observed <+: s.expected view entry
  next : ∀ e, (s.expected view entry)[s.observed.length]? = some e →
    (s.poll view tag).observed = s.observed ++ [e]
  noStale : s.observed.length = s.posted.length → s.poll view tag = s
  all : ((fun s => s.poll view tag)^[s.posted.length - s.observed.length] s).observed =
    s.expected view entry

end Runs

/-! ### Where both stand -/

variable {n k : ℕ}

theorem phaseAt_zero : phaseAt n 0 = true := by simp [phaseAt]

/-- The phase turns behind the last slot. -/
theorem phaseAt_succ (hn : 0 < n) :
    phaseAt n (k + 1) = if k % n + 1 = n then !phaseAt n k else phaseAt n k := by
  have hk := Nat.div_add_mod k n
  unfold phaseAt
  split_ifs with h
  · have hdiv : (k + 1) / n = k / n + 1 := by
      rw [show k + 1 = n * (k / n + 1) by rw [Nat.mul_add]; omega, Nat.mul_div_cancel_left _ hn]
    rw [hdiv, ← decide_not, decide_eq_decide]
    omega
  · have hlt := Nat.mod_lt k hn
    have hdiv : (k + 1) / n = k / n := by
      rw [show k + 1 = k % n + 1 + n * (k / n) by omega, Nat.add_mul_div_left _ _ hn,
        Nat.div_eq_of_lt (by omega), Nat.zero_add]
    rw [hdiv]

/-- A round later the phase is the other one. -/
theorem phaseAt_add_size (hn : 0 < n) : phaseAt n (k + n) = !phaseAt n k := by
  unfold phaseAt
  rw [Nat.add_div_right _ hn, ← decide_not, decide_eq_decide]
  omega

/-- **Where writer and reader stand in the history.** -/
structure Synced (tag : ε → Bool) (n : ℕ) (r : TaggedRing ε) (reader : Reader)
    (posted observed : List ε) : Prop where
  size : r.size = n
  pos : 0 < n
  head : r.head = posted.length % n
  phase : r.phase = phaseAt n posted.length
  readerHead : reader.head = observed.length % n
  readerPhase : reader.phase = phaseAt n observed.length
  inOrder : observed <+: posted
  room : posted.length ≤ observed.length + n
  newest : ∀ k e, posted[k]? = some e → posted.length ≤ k + n → r.entries (k % n) = e
  fresh : ∀ i < n, posted.length ≤ i → tag (r.entries i) = false
  tags : ∀ k e, posted[k]? = some e → tag e = phaseAt n k

section Steps

variable {tag : ε → Bool} {r : TaggedRing ε} {reader : Reader} {posted observed : List ε}

/-- Two numbers less than a round apart stand for different slots. -/
theorem mod_ne {a b : ℕ} (hab : a < b) (hb : b < a + n) : a % n ≠ b % n := by
  intro h
  obtain ⟨c, hc⟩ := (Nat.modEq_iff_dvd' hab.le).1 h
  cases c with
  | zero => omega
  | succ c =>
    rw [Nat.mul_succ] at hc
    omega

/-- **Another entry:** it takes the slot of the oldest one. -/
theorem Synced.post (h : Synced tag n r reader posted observed) {entry : Bool → ε}
    (htag : ∀ b, tag (entry b) = b) (hroom : posted.length < observed.length + n) :
    Synced tag n (r.post entry) reader (posted ++ [entry (phaseAt n posted.length)]) observed := by
  rw [← h.phase]
  have hlast : (r.post entry).entries r.head = entry r.phase := Function.update_self ..
  have hold : ∀ i, i ≠ r.head → (r.post entry).entries i = r.entries i :=
    fun i hi => Function.update_of_ne hi _ _
  have hlen : (posted ++ [entry r.phase]).length = posted.length + 1 := by simp
  refine ⟨h.size, h.pos, ?_, ?_, h.readerHead, h.readerPhase,
    h.inOrder.trans (List.prefix_append _ _), by omega, fun k e hk hnew => ?_, fun i hi hle => ?_,
    fun k e hk => ?_⟩
  · rw [hlen, ← Ring.succ_mod h.pos, ← h.head, ← h.size]
    rfl
  · rw [hlen, phaseAt_succ h.pos, ← h.head, ← h.phase, ← h.size]
    rfl
  · rw [hlen] at hnew
    rcases Nat.lt_trichotomy k posted.length with hlt | rfl | hgt
    · rw [List.getElem?_append_left hlt] at hk
      have hne : k % n ≠ r.head := h.head ▸ mod_ne hlt (by omega)
      rw [hold _ hne]
      exact h.newest k e hk (by omega)
    · rw [List.getElem?_concat_length] at hk
      rw [← h.head, hlast]
      exact Option.some.inj hk
    · rw [List.getElem?_eq_none (by omega)] at hk
      cases hk
  · rw [hlen] at hle
    have hne : i ≠ r.head := by
      rw [h.head, Nat.mod_eq_of_lt (by omega)]
      omega
    rw [hold _ hne]
    exact h.fresh i hi (by omega)
  · rcases Nat.lt_trichotomy k posted.length with hlt | rfl | hgt
    · rw [List.getElem?_append_left hlt] at hk
      exact h.tags k e hk
    · rw [List.getElem?_concat_length] at hk
      rw [← Option.some.inj hk, htag, h.phase]
    · rw [List.getElem?_eq_none (by omega)] at hk
      cases hk

/-- **The entry at the reader's head** is the next one if there is one. -/
theorem Synced.entry_next (h : Synced tag n r reader posted observed) {e : ε}
    (he : posted[observed.length]? = some e) :
    r.entries reader.head = e ∧ tag e = reader.phase := by
  rw [h.readerHead, h.readerPhase]
  exact ⟨h.newest _ e he h.room, h.tags _ e he⟩

/-- **A stale entry** carries the other phase. -/
theorem Synced.entry_stale (h : Synced tag n r reader posted observed) (hall : observed = posted) :
    tag (r.entries reader.head) ≠ reader.phase := by
  subst hall
  have hpos := h.pos
  rw [h.readerHead, h.readerPhase]
  rcases Nat.lt_or_ge observed.length n with hlt | hge
  · have hphase : phaseAt n observed.length = true := by
      unfold phaseAt
      rw [Nat.div_eq_of_lt hlt]
      rfl
    rw [Nat.mod_eq_of_lt hlt, h.fresh _ hlt le_rfl, hphase]
    exact Bool.false_ne_true
  · obtain ⟨m, hm⟩ := Nat.exists_eq_add_of_le' hge
    obtain ⟨e, he⟩ : ∃ e, observed[m]? = some e :=
      ⟨_, List.getElem?_eq_getElem (show m < observed.length by omega)⟩
    have hentry := h.newest m e he (by omega)
    rw [hm, Nat.add_mod_right, hentry, h.tags m e he, phaseAt_add_size hpos]
    cases phaseAt n m <;> decide

/-- The reader takes the next entry. -/
theorem Synced.take (h : Synced tag n r reader posted observed) {e : ε}
    (he : posted[observed.length]? = some e) :
    Synced tag n r (reader.next r.size) posted (observed ++ [e]) := by
  have hlen : (observed ++ [e]).length = observed.length + 1 := by simp
  refine ⟨h.size, h.pos, h.head, h.phase, ?_, ?_, ?_, ?_, h.newest, h.fresh, h.tags⟩
  · rw [hlen, ← Ring.succ_mod h.pos, ← h.readerHead, ← h.size]
    rfl
  · rw [hlen, phaseAt_succ h.pos, ← h.readerHead, ← h.readerPhase, ← h.size]
    rfl
  · obtain ⟨rest, hrest⟩ := h.inOrder
    subst hrest
    rw [List.getElem?_append_right le_rfl, Nat.sub_self] at he
    cases rest with
    | nil => cases he
    | cons a rest =>
      cases he
      exact ⟨rest, by rw [List.append_assoc, List.singleton_append]⟩
  · have := h.room
    omega

end Steps

/-! ### Runs -/

section Results

variable {view : ρ → TaggedRing ε} {tag : ε → Bool} {entry : α → Bool → ε} {fill : α → ρ → ρ → Prop}
  {s : Polled ρ α ε} {q : ρ}

@[simp] theorem length_entriesOf (items : List α) :
    (entriesOf entry n items).length = items.length := List.length_mapIdx

/-- Another item. -/
theorem entriesOf_append (items : List α) (a : α) : entriesOf entry n (items ++ [a]) =
    entriesOf entry n items ++ [entry a (phaseAt n items.length)] := List.mapIdx_concat

/-- A queue and its reader stand where the history says. -/
structure Polled.Synced (view : ρ → TaggedRing ε) (tag : ε → Bool) (entry : α → Bool → ε)
    (s : Polled ρ α ε) : Prop where
  ring : PhaseRing.Synced tag (view s.queue).size (view s.queue) s.reader (s.expected view entry)
    s.observed

theorem Polled.length_expected (s : Polled ρ α ε) :
    (s.expected view entry).length = s.posted.length := length_entriesOf _

/-- A fresh queue whose slots all carry phase 0. -/
theorem Polled.synced_start (view : ρ → TaggedRing ε) (tag : ε → Bool) (entry : α → Bool → ε) (q : ρ)
    (hpos : 0 < (view q).size) (hhead : (view q).head = 0) (hphase : (view q).phase = true)
    (hclear : ∀ i < (view q).size, tag ((view q).entries i) = false) :
    Polled.Synced view tag entry (.start q) where
  ring := {
    size := rfl
    pos := hpos
    head := hhead.trans (Nat.zero_mod _).symm
    phase := hphase.trans phaseAt_zero.symm
    readerHead := (Nat.zero_mod _).symm
    readerPhase := phaseAt_zero.symm
    inOrder := List.prefix_rfl
    room := Nat.zero_le _
    newest := fun k e hk => by cases hk
    fresh := fun i hi _ => hclear i hi
    tags := fun k e hk => by cases hk }

/-- A look takes the next entry. -/
theorem Polled.Synced.poll_next (h : s.Synced view tag entry) {e : ε}
    (he : (s.expected view entry)[s.observed.length]? = some e) :
    s.poll view tag = { s with
      reader := s.reader.next (view s.queue).size, observed := s.observed ++ [e] } := by
  obtain ⟨hentry, htag⟩ := h.ring.entry_next he
  unfold Polled.poll
  dsimp only
  rw [hentry, if_pos htag]

/-- A look takes no stale entry. -/
theorem Polled.Synced.poll_all (h : s.Synced view tag entry)
    (hall : s.observed = s.expected view entry) : s.poll view tag = s := by
  unfold Polled.poll
  exact if_neg (h.ring.entry_stale hall)

/-- What is left is nothing or starts with the next entry. -/
theorem Polled.Synced.next_or_all (h : s.Synced view tag entry) :
    s.observed = s.expected view entry ∨
      ∃ e, (s.expected view entry)[s.observed.length]? = some e := by
  rcases Nat.lt_or_ge s.observed.length (s.expected view entry).length with hlt | hge
  · exact .inr ⟨_, List.getElem?_eq_getElem hlt⟩
  · exact .inl (h.ring.inOrder.eq_of_length_le hge)

/-- A look keeps both in step. -/
theorem Polled.Synced.poll (h : s.Synced view tag entry) :
    (s.poll view tag).Synced view tag entry := by
  rcases h.next_or_all with hall | ⟨e, he⟩
  · rw [h.poll_all hall]
    exact h
  · rw [h.poll_next he]
    exact ⟨h.ring.take he⟩

/-- Looks until nothing is left. -/
theorem Polled.Synced.poll_iterate (h : s.Synced view tag entry) (k : ℕ)
    (hk : s.posted.length - s.observed.length = k) :
    ((fun s => s.poll view tag)^[k] s).observed = s.expected view entry := by
  have hlength : (s.expected view entry).length = s.posted.length := s.length_expected
  induction k generalizing s with
  | zero => exact h.ring.inOrder.eq_of_length_le (by omega)
  | succ k ih =>
    rcases h.next_or_all with hall | ⟨e, he⟩
    · rw [hall] at hk
      omega
    · have hlen : (s.observed ++ [e]).length = s.observed.length + 1 := by simp
      have hstep := h.poll
      rw [h.poll_next he] at hstep
      rw [Function.iterate_succ_apply, h.poll_next he]
      exact ih hstep (show s.posted.length - (s.observed ++ [e]).length = k by omega) hlength

/-- **In step, the reader sees the entry of every item once and in order.** -/
theorem Polled.Synced.observedInOrder (h : s.Synced view tag entry) :
    ObservedInOrder view tag entry s where
  inOrder := h.ring.inOrder
  next e he := by rw [h.poll_next he]
  noStale hall := h.poll_all (h.ring.inOrder.eq_of_length_le (by rw [s.length_expected, hall]))
  all := h.poll_iterate _ rfl

/-- **Along a run writer and reader stay in step,** if filling in an item is posting its entry in the
phase of the ring. -/
theorem Run.synced (htag : ∀ a b, tag (entry a b) = b) (inv : ρ → Prop) (hinv : inv q)
    (hfill : ∀ a q q', inv q → fill a q q' → inv q' ∧ view q' = (view q).post (entry a))
    (hstart : Polled.Synced view tag entry (.start q)) (h : Run view tag fill q s) :
    inv s.queue ∧ s.Synced view tag entry := by
  induction h with
  | start => exact ⟨hinv, hstart⟩
  | @fill s a q' _ hstep hroom ih =>
    obtain ⟨hinv', hview⟩ := hfill _ _ _ ih.1 hstep
    have hlength : (s.expected view entry).length = s.posted.length := s.length_expected
    have hsync := ih.2.ring.post (htag a) (by omega)
    have hsize : (view q').size = (view s.queue).size := by
      rw [hview]
      rfl
    refine ⟨hinv', ⟨?_⟩⟩
    unfold Polled.filled Polled.expected
    dsimp only
    rw [hsize, entriesOf_append, hview]
    rw [hlength] at hsync
    exact hsync
  | poll _ ih =>
    refine ⟨?_, ih.2.poll⟩
    unfold Polled.poll
    dsimp only
    split_ifs
    · exact ih.1
    · exact ih.1

end Results

end PhaseRing
