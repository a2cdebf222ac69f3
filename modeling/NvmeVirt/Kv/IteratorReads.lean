/-
# What a sequence of reads returns

`kv_iter_read` of `kv_ftl.c` again and again on one handle.  A reply has room for 51 keys
of 16 bytes behind their number; the scan stops in front of the 52nd and goes on from
there, and the reply that comes to the last slot has the status that ends the iteration,
whether it is full or not.
-/

import NvmeVirt.Kv.Iterators

namespace NvmeVirt

open Outcome LittleEndian

/-- The keys a reply has room for. -/
def keysPerReply : ℕ := 51

/-- What a reply has of an entry. -/
def MappingEntry.record (e : MappingEntry) : List UInt8 :=
  leBytes 4 iterKeyLen ++ e.key.take iterKeyLen

namespace KvTable

variable (t : KvTable) (iterPrefix bitmask : ℕ)

/-- The slots in use from `pos` on whose keys match, in order. -/
def matching (pos : ℕ) : List ℕ :=
  (List.range' pos (t.hashSlots - pos)).filter fun x => t.SlotMatches iterPrefix bitmask x

/-- The bytes of a reply with the keys of some slots: their number and their records. -/
def replyBytes (slots : List ℕ) : List UInt8 :=
  leBytes 4 slots.length ++ slots.flatMap fun x => (t.entry x).record

/-- The `key` fields have 18 bytes. -/
def FieldWidths : Prop := ∀ x, (t.entry x).key.length = 18

variable {t} {iterPrefix} {bitmask} {pos : ℕ}

theorem matching_of_lt (h : pos < t.hashSlots) :
    t.matching iterPrefix bitmask pos =
      if t.SlotMatches iterPrefix bitmask pos then pos :: t.matching iterPrefix bitmask (pos + 1)
      else t.matching iterPrefix bitmask (pos + 1) := by
  obtain ⟨k, hk⟩ : ∃ k, t.hashSlots - pos = k + 1 := ⟨t.hashSlots - pos - 1, by omega⟩
  unfold matching
  rw [hk, show t.hashSlots - (pos + 1) = k by omega, List.range'_succ, List.filter_cons]
  simp only [decide_eq_true_eq]

theorem matching_of_le (h : t.hashSlots ≤ pos) : t.matching iterPrefix bitmask pos = [] := by
  unfold matching
  rw [Nat.sub_eq_zero_of_le h]
  rfl

theorem length_records (h : t.FieldWidths) (slots : List ℕ) :
    (slots.flatMap fun x => (t.entry x).record).length = 20 * slots.length := by
  induction slots with
  | nil => rfl
  | cons x slots ih =>
    rw [List.flatMap_cons, List.length_append, ih, MappingEntry.record, List.length_append,
      length_leBytes, List.length_take, h x, List.length_cons]
    unfold iterKeyLen
    omega

theorem length_replyBytes (h : t.FieldWidths) (slots : List ℕ) :
    (t.replyBytes slots).length = 4 + 20 * slots.length := by
  rw [replyBytes, List.length_append, length_leBytes, length_records h]

end KvTable

/-- Bytes next to each other. -/
theorem bytesAt_add (m : Mem) (a n k : ℕ) :
    bytesAt m a (n + k) = bytesAt m a n ++ bytesAt m (a + n) k := by
  unfold bytesAt
  rw [List.range_add, List.map_append, List.map_map]
  refine congrArg _ (List.map_congr_left fun i _ => ?_)
  rw [Function.comp_apply, Nat.add_assoc]

namespace IterScan

variable {t : KvTable} {handle : KvIterContext} {s : IterScan} {slots : List ℕ} {fuel : ℕ}

/-- The scan holds the records of some slots, behind the place of their number. -/
structure Holds (t : KvTable) (slots : List ℕ) (s : IterScan) : Prop where
  bufOffset : s.bufOffset = 4 + 20 * slots.length
  nrKeys : s.nrKeys = slots.length
  bytes : bytesAt s.buf 4 (20 * slots.length) = slots.flatMap fun x => (t.entry x).record

/-- One record more. -/
theorem Holds.put (h : Holds t slots s) (hwidth : t.FieldWidths) (x : ℕ) :
    Holds t (slots ++ [x]) (s.put (t.entry x)) where
  bufOffset := by
    show s.bufOffset + 4 + (iterKeyLen + 3) / 4 * 4 = _
    rw [h.bufOffset, List.length_append, List.length_singleton]
    unfold iterKeyLen
    omega
  nrKeys := by
    show s.nrKeys + 1 = _
    rw [h.nrKeys, List.length_append, List.length_singleton]
  bytes := by
    have hkey : ((t.entry x).key.take iterKeyLen).length = 16 := by
      rw [List.length_take, hwidth x]
      rfl
    have hoff := h.bufOffset
    show bytesAt (storeBytes (storeBytes s.buf s.bufOffset (leBytes 4 iterKeyLen)) (s.bufOffset + 4)
      ((t.entry x).key.take iterKeyLen)) 4 _ = _
    have hlen : 20 * (slots ++ [x]).length = 20 * slots.length + (4 + 16) := by
      rw [List.length_append, List.length_singleton]
      omega
    have hat : 4 + 20 * slots.length = s.bufOffset := hoff.symm
    rw [hlen, bytesAt_add, bytesAt_add, hat, List.flatMap_append, List.flatMap_singleton,
      MappingEntry.record]
    refine congrArg₂ _ ?_ (congrArg₂ _ ?_ ?_)
    · rw [bytesAt_storeBytes_of_apart (.inl (by omega)),
        bytesAt_storeBytes_of_apart (.inl (by omega)), h.bytes]
    · rw [bytesAt_storeBytes_of_apart (.inl le_rfl)]
      have hfour := bytesAt_storeBytes s.buf s.bufOffset (leBytes 4 iterKeyLen)
      rwa [length_leBytes] at hfour
    · have hsixteen := bytesAt_storeBytes (storeBytes s.buf s.bufOffset (leBytes 4 iterKeyLen))
        (s.bufOffset + 4) ((t.entry x).key.take iterKeyLen)
      rwa [hkey] at hsixteen

/-- Where a scan stops that has room for `room` more keys: in front of the first one too many, or
at the end. -/
structure Stops (t : KvTable) (handle : KvIterContext) (room pos : ℕ) (s : IterScan) : Prop where
  ended : (t.matching handle.iterPrefix handle.bitmask pos).length ≤ room →
    s.ended = true ∧ s.pos = t.hashSlots
  full : room < (t.matching handle.iterPrefix handle.bitmask pos).length →
    s.ended = false ∧ s.pos < t.hashSlots ∧
      t.matching handle.iterPrefix handle.bitmask s.pos =
        (t.matching handle.iterPrefix handle.bitmask pos).drop room

/-- **The loop of `kv_iter_read`** takes the next matching slots, as many as there is room for. -/
theorem Holds.loop (handle : KvIterContext) (h : Holds t slots s) (hwidth : t.FieldWidths) (hn : t.hashSlots < 2 ^ 31)
    (hended : s.ended = false) (hpos : s.pos < t.hashSlots)
    (hroom : slots.length ≤ keysPerReply) (hfuel : t.hashSlots - s.pos ≤ fuel) :
    ∃ s', IterScan.loop t handle fuel s = .ok s' ∧
      Holds t (slots ++ (t.matching handle.iterPrefix handle.bitmask s.pos).take
        (keysPerReply - slots.length)) s' ∧
      Stops t handle (keysPerReply - slots.length) s.pos s' := by
  induction fuel generalizing s slots with
  | zero => omega
  | succ fuel ih =>
    unfold IterScan.loop
    rw [if_pos hpos]
    have hcons : t.matching handle.iterPrefix handle.bitmask s.pos = _ := KvTable.matching_of_lt hpos
    have hlimit : iterLimit < s.bufOffset + 4 + iterKeyLen ↔ keysPerReply ≤ slots.length := by
      rw [h.bufOffset]
      unfold iterLimit iterKeyLen keysPerReply
      omega
    -- What is done with the slot, the scan goes on behind it.
    have hadvance : ∀ (l : List ℕ) (s₁ : IterScan), Holds t l s₁ → s₁.ended = false →
        s₁.pos = s.pos → l.length ≤ keysPerReply →
        ∃ s', (do
            defined (s₁.pos + 1 < 2 ^ 31)
            let s := { s₁ with pos := s₁.pos + 1 }
            if s.pos = t.hashSlots then Except.ok { s with ended := true }
            else IterScan.loop t handle fuel s) = .ok s' ∧
          Holds t (l ++ (t.matching handle.iterPrefix handle.bitmask (s.pos + 1)).take
            (keysPerReply - l.length)) s' ∧
          Stops t handle (keysPerReply - l.length) (s.pos + 1) s' := by
      intro l s₁ h₁ hended₁ hpos₁ hl
      rw [defined_bind (by omega)]
      dsimp only
      have hnext : Holds t l { s₁ with pos := s₁.pos + 1 } := ⟨h₁.bufOffset, h₁.nrKeys, h₁.bytes⟩
      by_cases hlast : s₁.pos + 1 = t.hashSlots
      · rw [if_pos hlast, KvTable.matching_of_le (by omega), List.take_nil, List.append_nil]
        refine ⟨_, rfl, ⟨h₁.bufOffset, h₁.nrKeys, h₁.bytes⟩, fun _ => ⟨rfl, hlast⟩, fun hmore => ?_⟩
        rw [KvTable.matching_of_le (by omega)] at hmore
        exact absurd hmore (Nat.not_lt_zero _)
      · rw [if_neg hlast]
        have hgo := ih hnext hended₁ (by dsimp only; omega) hl (by dsimp only; omega)
        dsimp only at hgo
        rw [hpos₁] at hgo ⊢
        exact hgo
    by_cases hmatch : t.SlotMatches handle.iterPrefix handle.bitmask s.pos
    · rw [if_pos hmatch] at hcons
      by_cases hfull : keysPerReply ≤ slots.length
      · rw [if_pos ⟨hmatch, hlimit.2 hfull⟩, Nat.sub_eq_zero_of_le hfull, List.take_zero,
          List.append_nil]
        refine ⟨s, rfl, h, fun hnone => ?_, fun _ => ⟨hended, hpos, rfl⟩⟩
        rw [hcons, List.length_cons] at hnone
        exact absurd hnone (Nat.not_succ_le_zero _)
      · rw [if_neg fun hstop => hfull (hlimit.1 hstop.2)]
        simp only [if_pos hmatch]
        have hlen : (slots ++ [s.pos]).length = slots.length + 1 := List.length_append
        obtain ⟨s', hs', hholds, hstops⟩ := hadvance _ _ (h.put hwidth s.pos) hended rfl (by omega)
        obtain ⟨room, hr⟩ : ∃ room, keysPerReply - slots.length = room + 1 :=
          ⟨keysPerReply - slots.length - 1, by omega⟩
        have hr' : keysPerReply - (slots ++ [s.pos]).length = room := by omega
        rw [hr'] at hholds hstops
        rw [hr, hcons, List.take_succ_cons]
        rw [List.append_assoc, List.singleton_append] at hholds
        refine ⟨s', hs', hholds, fun hle => ?_, fun hlt => ?_⟩
        · rw [hcons, List.length_cons] at hle
          exact hstops.ended (Nat.le_of_succ_le_succ hle)
        · rw [hcons, List.length_cons] at hlt
          rw [hcons, List.drop_succ_cons]
          exact hstops.full (Nat.lt_of_succ_lt_succ hlt)
    · rw [if_neg hmatch] at hcons
      rw [if_neg fun hstop => hmatch hstop.1, hcons]
      simp only [if_neg hmatch]
      obtain ⟨s', hs', hholds, hstops⟩ := hadvance _ _ h hended rfl hroom
      refine ⟨s', hs', hholds, fun hle => ?_, fun hlt => ?_⟩
      · rw [hcons] at hle
        exact hstops.ended hle
      · rw [hcons] at hlt ⊢
        exact hstops.full hlt

end IterScan

namespace KvFtl

variable {f : KvFtl} {handle : KvIterContext}

/-- What a reply holds: the slots, with the position behind them and whether the table ends there. -/
structure Scanned (t : KvTable) (handle : KvIterContext) (s : IterScan) : Prop where
  bufOffset : s.bufOffset = 4 + 20 *
    ((t.matching handle.iterPrefix handle.bitmask handle.currentPos).take keysPerReply).length
  bytes : bytesAt s.buf 0 s.bufOffset = t.replyBytes
    ((t.matching handle.iterPrefix handle.bitmask handle.currentPos).take keysPerReply)
  rest : t.matching handle.iterPrefix handle.bitmask s.pos =
    (t.matching handle.iterPrefix handle.bitmask handle.currentPos).drop keysPerReply
  pos : s.pos = t.hashSlots ∨ s.pos < t.hashSlots ∧
    keysPerReply < (t.matching handle.iterPrefix handle.bitmask handle.currentPos).length
  ended : s.ended = true ↔ handle.currentPos < t.hashSlots ∧ s.pos = t.hashSlots

/-- The number of the keys goes in front of their records. -/
theorem bytes_of_holds {t : KvTable} {slots : List ℕ} {s : IterScan} (h : IterScan.Holds t slots s) :
    bytesAt (storeBytes s.buf 0 (leBytes 4 s.nrKeys)) 0 s.bufOffset = t.replyBytes slots := by
  rw [h.bufOffset, bytesAt_add, KvTable.replyBytes, h.nrKeys]
  refine congrArg₂ _ ?_ ?_
  · have hfour := bytesAt_storeBytes s.buf 0 (leBytes 4 slots.length)
    rwa [length_leBytes] at hfour
  · rw [bytesAt_storeBytes_of_apart (.inr (by rw [length_leBytes])), Nat.zero_add]
    exact h.bytes

/-- **The scan of one call.** -/
theorem scan_spec (hwidth : f.table.FieldWidths) (hn : f.table.hashSlots < 2 ^ 31)
    (hpos : handle.currentPos ≤ f.table.hashSlots) :
    ∃ s, f.scan handle = .ok s ∧ Scanned f.table handle s := by
  unfold scan
  have hstart : IterScan.Holds f.table [] {
      buf := handle.buf, bufOffset := 4, nrKeys := 0, pos := handle.currentPos, ended := false } :=
    ⟨rfl, rfl, rfl⟩
  rcases Nat.eq_or_lt_of_le hpos with hend | hlt
  · have hidle : IterScan.loop f.table handle f.table.hashSlots {
        buf := handle.buf, bufOffset := 4, nrKeys := 0, pos := handle.currentPos, ended := false } =
        .ok {
          buf := handle.buf, bufOffset := 4, nrKeys := 0, pos := handle.currentPos
          ended := false } := by
      cases f.table.hashSlots with
      | zero => rfl
      | succ k => exact if_neg (by dsimp only; omega)
    have hnone : f.table.matching handle.iterPrefix handle.bitmask handle.currentPos = [] :=
      KvTable.matching_of_le hend.ge
    rw [hidle]
    refine ⟨_, rfl, ?_, ?_, ?_, .inl hend, ?_⟩
    · rw [hnone]
      rfl
    · rw [hnone, List.take_nil]
      exact bytes_of_holds hstart
    · dsimp only
      rw [hnone, List.drop_nil]
    · exact iff_of_false Bool.false_ne_true fun h => by omega
  · have hfuel : f.table.hashSlots - handle.currentPos ≤ f.table.hashSlots := Nat.sub_le _ _
    obtain ⟨s, hs, hholds, hstops⟩ := hstart.loop handle hwidth hn rfl hlt (Nat.zero_le _) hfuel
    rw [List.nil_append, List.length_nil, Nat.sub_zero] at hholds
    rw [List.length_nil, Nat.sub_zero] at hstops
    dsimp only at hholds hstops
    rw [hs]
    refine ⟨_, rfl, hholds.bufOffset, bytes_of_holds hholds, ?_, ?_, ?_⟩
    · dsimp only
      rcases Nat.lt_or_ge keysPerReply
        (f.table.matching handle.iterPrefix handle.bitmask handle.currentPos).length with hfull | hroom
      · exact (hstops.full hfull).2.2
      · rw [(hstops.ended hroom).2, KvTable.matching_of_le le_rfl, List.drop_of_length_le hroom]
    · rcases Nat.lt_or_ge keysPerReply
        (f.table.matching handle.iterPrefix handle.bitmask handle.currentPos).length with hfull | hroom
      · exact .inr ⟨(hstops.full hfull).2.1, hfull⟩
      · exact .inl (hstops.ended hroom).2
    · dsimp only
      rcases Nat.lt_or_ge keysPerReply
        (f.table.matching handle.iterPrefix handle.bitmask handle.currentPos).length with hfull | hroom
      · obtain ⟨h1, h2, -⟩ := hstops.full hfull
        exact iff_of_false (by rw [h1]; exact Bool.false_ne_true) fun h => by omega
      · obtain ⟨h1, h2⟩ := hstops.ended hroom
        exact iff_of_true h1 ⟨hlt, h2⟩

end KvFtl

/-- Bytes written to the host memory, one after the other. -/
def putBytes (host : Mem) (ps : List (ℕ × UInt8)) : Mem :=
  ps.foldl (fun m p => Function.update m p.1 p.2) host

theorem putBytes_append (host : Mem) (ps qs : List (ℕ × UInt8)) :
    putBytes host (ps ++ qs) = putBytes (putBytes host ps) qs := List.foldl_append

/-- The read of a handle, and what comes of it. -/
theorem KvFtl.kvIterRead_spec {f : KvFtl} {handle : KvIterContext} {cmd : KvIterReadCommand}
    (hwidth : f.table.FieldWidths) (hn : f.table.hashSlots < 2 ^ 31)
    (hpos : handle.currentPos ≤ f.table.hashSlots) (hlt : cmd.iterHandle < nrIterHandles)
    (hhandle : f.iterHandle cmd.iterHandle = .context handle) (hprp2 : cmd.prp2 % pageSize = 0)
    (host : Mem) (status : ℕ) :
    ∃ s moved, KvFtl.Scanned f.table handle s ∧
      moved.map Prod.snd = bytesAt s.buf 0 s.bufOffset ∧
      f.kvIterRead cmd host status = .ok ({ f with
        iterHandle := Function.update f.iterHandle cmd.iterHandle (.context {
          handle with buf := s.buf, currentPos := s.pos }) }, putBytes host moved, {
        reply := ⟨s.bufOffset, if s.ended then kvIterEnd else 0⟩, moved := moved }) := by
  obtain ⟨s, hs, hscan⟩ := KvFtl.scan_spec hwidth hn hpos
  have hfew : s.bufOffset ≤ pageSize := by
    have hle := List.length_take_le keysPerReply
      (f.table.matching handle.iterPrefix handle.bitmask handle.currentPos)
    rw [hscan.bufOffset]
    unfold keysPerReply at hle ⊢
    unfold pageSize
    omega
  obtain ⟨c, hc⟩ : ∃ c, IoCursor.loop cmd.copyCommand s.bufOffset
      (IoCursor.start host s.buf 0 s.bufOffset) = .ok c :=
    IoCursor.loop_twoPages rfl rfl hfew hprp2
  have hbound : 0 + s.bufOffset ≤ 2 ^ 64 := by
    unfold pageSize at hfew
    omega
  obtain ⟨hpairs, hcopied⟩ := IoCursor.loop_passed (by decide) hbound hc
  obtain ⟨-, hhost⟩ := hcopied.read rfl
  refine ⟨s, c.pairs.map fun p => (p.1, s.buf p.2), hscan, ?_, ?_⟩
  · have hbytes : (c.pairs.map Prod.snd).map s.buf = bytesAt s.buf 0 s.bufOffset := by
      rw [hpairs, List.map_map]
      rfl
    rw [← hbytes, List.map_map, List.map_map]
    rfl
  · have hput : c.host = putBytes host (c.pairs.map fun p => (p.1, s.buf p.2)) := by
      rw [hhost]
      unfold byteCopy putBytes
      rw [List.foldl_map]
    unfold KvFtl.kvIterRead
    rw [defined_bind hlt, hhandle]
    dsimp only
    rw [hs, ok_bind, hc, ok_bind, hput]

/-- `kv_iter_read` for one command after the other, with the answers and the host memory they
leave; `*status` is 0 before a command runs. -/
def KvFtl.kvIterReads : KvFtl → Mem → List KvIterReadCommand →
    Except Fault (List KvIterAnswer × Mem)
  | _, host, [] => .ok ([], host)
  | f, host, cmd :: cmds => do
    let (f, host, a) ← f.kvIterRead cmd host 0
    let (answers, host) ← KvFtl.kvIterReads f host cmds
    .ok (a :: answers, host)

/-- **The answer carries these slots:** their number and their records, within the limit of a
reply. -/
structure KvIterAnswer.Carries (a : KvIterAnswer) (t : KvTable) (slots : List ℕ) : Prop where
  bytes : a.moved.map Prod.snd = t.replyBytes slots
  result : a.reply.result = (t.replyBytes slots).length
  fits : (t.replyBytes slots).length ≤ iterLimit

namespace KvTable

variable (t : KvTable) (iterPrefix bitmask : ℕ)

/-- The slots of the `i`-th reply. -/
def replySlots (i : ℕ) : List ℕ :=
  ((t.matching iterPrefix bitmask 0).drop (keysPerReply * i)).take keysPerReply

/-- The replies up to the one that comes to the end. -/
def nrReplies : ℕ :=
  max 1 (((t.matching iterPrefix bitmask 0).length + keysPerReply - 1) / keysPerReply)

end KvTable

/-- Pieces of `k` elements put together. -/
theorem flatMap_pieces {α : Type} (k : ℕ) (l : List α) (n : ℕ) :
    ((List.range n).flatMap fun i => (l.drop (k * i)).take k) = l.take (k * n) := by
  induction n with
  | zero => simp
  | succ n ih =>
    rw [List.range_succ, List.flatMap_append, ih, List.flatMap_singleton, Nat.mul_succ,
      List.take_add]

/-- **The replies up to the end** hold every matching slot once, in order. -/
theorem KvTable.flatMap_replySlots (t : KvTable) (iterPrefix bitmask : ℕ) :
    (List.range (t.nrReplies iterPrefix bitmask)).flatMap (t.replySlots iterPrefix bitmask) =
      t.matching iterPrefix bitmask 0 := by
  have hpieces := flatMap_pieces keysPerReply (t.matching iterPrefix bitmask 0)
    (t.nrReplies iterPrefix bitmask)
  refine hpieces.trans (List.take_of_length_le ?_)
  unfold KvTable.nrReplies keysPerReply
  omega

/-- **The handle stands in front of the `i`-th reply:** behind it are the matching slots the replies
before have left, and it is at the end of the table when those are all. -/
structure KvFtl.AtReply (f : KvFtl) (t : KvTable) (iterPrefix bitmask iter i : ℕ)
    (handle : KvIterContext) : Prop where
  table : f.table = t
  context : f.iterHandle iter = .context handle
  val : handle.iterPrefix = iterPrefix ∧ handle.bitmask = bitmask
  rest : t.matching iterPrefix bitmask handle.currentPos =
    (t.matching iterPrefix bitmask 0).drop (keysPerReply * i)
  pos : handle.currentPos = t.hashSlots ∧ t.nrReplies iterPrefix bitmask ≤ i ∨
    handle.currentPos < t.hashSlots ∧ i < t.nrReplies iterPrefix bitmask

section

variable {f : KvFtl} {t : KvTable} {iterPrefix bitmask iter i : ℕ} {handle : KvIterContext}
  {cmd : KvIterReadCommand}

/-- **One read** carries the next slots, has the status of the end exactly on the reply that comes to
it, and leaves the handle in front of the next reply. -/
theorem KvFtl.AtReply.read (h : f.AtReply t iterPrefix bitmask iter i handle)
    (hwidth : t.FieldWidths) (hn : t.hashSlots < 2 ^ 31) (hiter : iter < nrIterHandles)
    (hcmd : cmd.iterHandle = iter) (hprp2 : cmd.prp2 % pageSize = 0) (host : Mem) :
    ∃ f' a handle', f.kvIterRead cmd host 0 = .ok (f', putBytes host a.moved, a) ∧
      a.Carries t (t.replySlots iterPrefix bitmask i) ∧
      a.reply.status = (if i + 1 = t.nrReplies iterPrefix bitmask then kvIterEnd else 0) ∧
      f'.AtReply t iterPrefix bitmask iter (i + 1) handle' := by
  obtain ⟨rfl, hhandle, ⟨rfl, rfl⟩, hrest, hat⟩ := h
  subst hcmd
  have hpos : handle.currentPos ≤ f.table.hashSlots := by omega
  obtain ⟨s, moved, hscan, hmoved, hread⟩ :=
    KvFtl.kvIterRead_spec hwidth hn hpos hiter hhandle hprp2 host 0
  obtain ⟨hoff, hbytes, hleft, hstop, hended⟩ := hscan
  rw [hrest] at hoff hbytes hleft hstop
  have hlen := KvTable.length_replyBytes hwidth
    (f.table.replySlots handle.iterPrefix handle.bitmask i)
  have hfew : (f.table.replySlots handle.iterPrefix handle.bitmask i).length ≤ keysPerReply :=
    List.length_take_le _ _
  -- The scan comes to the end of the table exactly on the last reply.
  have hnext : s.pos = f.table.hashSlots ∧
        f.table.nrReplies handle.iterPrefix handle.bitmask ≤ i + 1 ∨
      s.pos < f.table.hashSlots ∧
        i + 1 < f.table.nrReplies handle.iterPrefix handle.bitmask := by
    rcases hstop with hend | ⟨hlt, hmore⟩
    · refine .inl ⟨hend, ?_⟩
      rw [hend, KvTable.matching_of_le le_rfl, List.drop_drop] at hleft
      have hall := List.drop_eq_nil_iff.1 hleft.symm
      unfold KvTable.nrReplies
      unfold keysPerReply at hall ⊢
      omega
    · refine .inr ⟨hlt, ?_⟩
      rw [List.length_drop] at hmore
      unfold KvTable.nrReplies
      unfold keysPerReply at hmore ⊢
      omega
  refine ⟨_, { reply := ⟨s.bufOffset, if s.ended then kvIterEnd else 0⟩, moved := moved },
    { handle with buf := s.buf, currentPos := s.pos }, hread, ⟨hmoved.trans hbytes, ?_, ?_⟩, ?_,
    rfl, Function.update_self _ _ _, ⟨rfl, rfl⟩, ?_, hnext⟩
  · exact hoff.trans hlen.symm
  · rw [hlen]
    unfold keysPerReply at hfew
    unfold iterLimit
    omega
  · refine if_congr (hended.trans ?_) rfl rfl
    constructor
    · rintro ⟨hlt, hend⟩
      omega
    · intro hlast
      exact ⟨by omega, by omega⟩
  · rw [Nat.mul_succ, ← List.drop_drop]
    exact hleft

/-- **A sequence of reads** carries the slots of one reply after the other. -/
theorem KvFtl.AtReply.reads {cmds : List KvIterReadCommand}
    (h : f.AtReply t iterPrefix bitmask iter i handle) (hwidth : t.FieldWidths)
    (hn : t.hashSlots < 2 ^ 31) (hiter : iter < nrIterHandles)
    (hcmds : ∀ cmd ∈ cmds, cmd.iterHandle = iter ∧ cmd.prp2 % pageSize = 0) (host : Mem) :
    ∃ answers, f.kvIterReads host cmds =
        .ok (answers, putBytes host (answers.flatMap KvIterAnswer.moved)) ∧
      answers.length = cmds.length ∧
      ∀ j a, answers[j]? = some a → a.Carries t (t.replySlots iterPrefix bitmask (i + j)) ∧
        a.reply.status =
          (if i + j + 1 = t.nrReplies iterPrefix bitmask then kvIterEnd else 0) := by
  induction cmds generalizing f i handle host with
  | nil => exact ⟨[], rfl, rfl, fun j a hj => by cases hj⟩
  | cons cmd cmds ih =>
    obtain ⟨hcmd, hprp2⟩ := hcmds cmd List.mem_cons_self
    obtain ⟨f', a, handle', hread, hcarries, hstatus, h'⟩ :=
      h.read hwidth hn hiter hcmd hprp2 host
    obtain ⟨answers, hreads, hlen, hall⟩ :=
      ih h' (fun cmd hc => hcmds cmd (List.mem_cons_of_mem _ hc)) (putBytes host a.moved)
    refine ⟨a :: answers, ?_, ?_, fun j b hj => ?_⟩
    · unfold KvFtl.kvIterReads
      rw [hread, ok_bind]
      dsimp only
      rw [hreads, ok_bind, List.flatMap_cons, putBytes_append]
    · rw [List.length_cons, List.length_cons, hlen]
    · cases j with
      | zero =>
        cases hj
        exact ⟨hcarries, hstatus⟩
      | succ j =>
        rw [show i + (j + 1) = i + 1 + j by omega]
        exact hall j b hj

end

/-- **Iterations are complete:** after an open takes a handle, reads of it return as many keys each
as a reply has room for; the replies up to one number carry every slot in use whose first four key
bytes match under the mask once, in slot order, each with the number of its records and within the
limit, and the status that ends the iteration is on the last of these and on no other. -/
theorem kvIter_complete {f f' : KvFtl} {req : KvIterReqCommand} {memory : Mem} {iter : ℕ}
    {reply : KvIterReply} (hfree : f.freeHandle = some iter)
    (hopen : f.kvIterOpen req memory 0 = (f', reply)) (hwidth : f.table.FieldWidths)
    (hpos : 0 < f.table.hashSlots) (hn : f.table.hashSlots < 2 ^ 31)
    {cmds : List KvIterReadCommand}
    (hcmds : ∀ cmd ∈ cmds, cmd.iterHandle = iter ∧ cmd.prp2 % pageSize = 0) (host : Mem) :
    (List.range (f.table.nrReplies req.iterVal req.iterBitmask)).flatMap
        (f.table.replySlots req.iterVal req.iterBitmask) =
      (List.range f.table.hashSlots).filter
        (fun x => f.table.SlotMatches req.iterVal req.iterBitmask x) ∧
    ∃ answers, f'.kvIterReads host cmds =
        .ok (answers, putBytes host (answers.flatMap KvIterAnswer.moved)) ∧
      answers.length = cmds.length ∧
      ∀ i a, answers[i]? = some a →
        a.Carries f.table (f.table.replySlots req.iterVal req.iterBitmask i) ∧
        a.reply.status =
          (if i + 1 = f.table.nrReplies req.iterVal req.iterBitmask then kvIterEnd else 0) := by
  have hiter : iter < nrIterHandles := by
    have hmem := List.mem_of_find?_eq_some hfree
    exact Nat.lt_succ_of_le (by have := List.mem_range'_1.1 hmem; omega)
  have hstart : f'.AtReply f.table req.iterVal req.iterBitmask iter 0 {
      iterPrefix := req.iterVal, bitmask := req.iterBitmask, buf := memory, currentPos := 0 } := by
    unfold KvFtl.kvIterOpen at hopen
    rw [hfree] at hopen
    cases hopen
    refine ⟨rfl, Function.update_self _ _ _, ⟨rfl, rfl⟩, rfl, .inr ⟨hpos, ?_⟩⟩
    exact Nat.lt_of_lt_of_le Nat.zero_lt_one (Nat.le_max_left _ _)
  obtain ⟨answers, hreads, hlen, hall⟩ := hstart.reads hwidth hn hiter hcmds host
  refine ⟨?_, answers, hreads, hlen, fun i a hi => ?_⟩
  · rw [KvTable.flatMap_replySlots, KvTable.matching, Nat.sub_zero, List.range_eq_range']
  · have hreply := hall i a hi
    rwa [Nat.zero_add] at hreply

/-- A table of three slots with a key in the last. -/
def lastSlotTable : KvTable :=
  (KvTable.init 3).set 2 (MappingEntry.fresh.assign [1, 2, 3, 4] 0 4)

/-- A key in the last slot is read by the first reply, which has the status of the end. -/
theorem kvIter_complete_last :
    (List.range (lastSlotTable.nrReplies 0x01 0xff)).flatMap (lastSlotTable.replySlots 0x01 0xff) =
      (List.range 3).filter (fun x => lastSlotTable.SlotMatches 0x01 0xff x) ∧
    (List.range 3).filter (fun x => lastSlotTable.SlotMatches 0x01 0xff x) = [2] ∧
    ∃ answers, ((KvFtl.init lastSlotTable fun _ => 0).kvIterOpen ⟨0x01, 0xff⟩ (fun _ => 0) 0).1.kvIterReads
        (fun _ => 0) [⟨1, 0, 4096⟩] =
        .ok (answers, putBytes (fun _ => 0) (answers.flatMap KvIterAnswer.moved)) ∧
      answers.length = 1 ∧
      ∀ i a, answers[i]? = some a →
        a.Carries lastSlotTable (lastSlotTable.replySlots 0x01 0xff i) ∧
        a.reply.status = (if i + 1 = lastSlotTable.nrReplies 0x01 0xff then kvIterEnd else 0) := by
  have hwidth : lastSlotTable.FieldWidths := by
    intro x
    by_cases hx : x = 2
    · subst hx
      rfl
    · exact congrArg (fun e => e.key.length) ((KvTable.init 3).set_entry_of_ne _ hx)
  have hfree : (KvFtl.init lastSlotTable fun _ => 0).freeHandle = some 1 := rfl
  obtain ⟨hslots, hreads⟩ := @kvIter_complete _ _ ⟨0x01, 0xff⟩ (fun _ => 0) 1 _ hfree rfl hwidth
    (by decide) (by decide) [⟨1, 0, 4096⟩] (by decide) (fun _ => 0)
  exact ⟨hslots, by decide, hreads⟩

end NvmeVirt
