/-
# The charges of a write

An accepted write takes its bytes from the buffer of its zone and schedules the
bytes of the one-shot pages it completes; runs of such writes, of zone
management sends and of the releases conserve the buffers.
-/

import NvmeVirt.Zns.WriteBuffers

namespace NvmeVirt

open Outcome

/-! ### Writes -/

theorem ZoneState.Writable.active_or_empty {s : ZoneState} (h : s.Writable) :
    s.Active ∨ s = .empty := by
  cases s <;> simp at h ⊢

theorem ZnsBuffer.zone_toNat_eq_iff {z zid : ℕ} :
    (zone z).toNat = (zone zid).toNat ↔ z = zid := by
  show 2 * z + 1 = 2 * zid + 1 ↔ z = zid
  omega

namespace ZnsFtl

variable {τ : Type} (clk : SsdClock τ) {f g : ZnsFtl τ} {zid : ℕ}

/-- A write moves the write pointer of its zone by `n` blocks, and the zone is full where they reach
its end. -/
structure Advances (f g : ZnsFtl τ) (zid n : ℕ) : Prop where
  zp : g.zp = f.zp
  sp : g.sp = f.sp
  others : ∀ z, z ≠ zid → g.zoneDescs z = f.zoneDescs z
  zslba : (g.zoneDescs zid).zslba = (f.zoneDescs zid).zslba
  wp : (g.zoneDescs zid).wp = (f.zoneDescs zid).wp + n
  zrwav : (g.zoneDescs zid).zrwav = (f.zoneDescs zid).zrwav
  active : (g.zoneDescs zid).state.Active ↔ (f.zoneDescs zid).wp + n
    ≠ (f.zoneDescs zid).zslba + (f.zoneDescs zid).zoneCapacity

theorem buffers_increaseWritePtr (f : ZnsFtl τ) (zid n : ℕ) :
    (f.increaseWritePtr zid n).zoneWriteBuffer = f.zoneWriteBuffer := by
  unfold increaseWritePtr
  dsimp only
  split_ifs <;> rfl

/-- **`__increase_write_ptr`** in a zone below block 2^32. -/
theorem ZonesOk.advances_increaseWritePtr (h : f.ZonesOk) (hz : zid < f.zp.nrZones)
    (hlow : f.zp.Low zid) (hs : (f.zoneDescs zid).state.Opened) {n : ℕ}
    (hle : (f.zoneDescs zid).wp + n ≤ (f.zoneDescs zid).zslba + (f.zoneDescs zid).zoneCapacity) :
    Advances f (f.increaseWritePtr zid n) zid n := by
  obtain ⟨hzp, hsp, hothers, -⟩ := f.frame_increaseWritePtr (R := False) zid n
  have hlt := h.placed.end_lt hz
  have hend := h.placed.zoneEnd_of_low hz hlow
  have hid : u64 ((f.zoneDescs zid).wp + n) = (f.zoneDescs zid).wp + n := u64_of_lt (by omega)
  have hdesc : (f.increaseWritePtr zid n).zoneDescs zid = { f.zoneDescs zid with
      wp := (f.zoneDescs zid).wp + n
      state := if (f.zoneDescs zid).wp + n
        = (f.zoneDescs zid).zslba + (f.zoneDescs zid).zoneCapacity then .full
        else (f.zoneDescs zid).state } := by
    unfold ZnsFtl.increaseWritePtr
    dsimp only
    rw [hid, zoneDescs_setZone, zp_setZone, sp_setZone]
    change (if _ = f.zoneEnd zid then _ else _ : ZnsFtl τ).zoneDescs zid = _
    rw [hend]
    split_ifs <;> simp
  refine ⟨hzp, hsp, hothers, ?_, ?_, ?_, ?_⟩
  all_goals rw [hdesc]
  dsimp only
  split_ifs with hfull
  · simp [hfull]
  · exact ⟨fun _ => hfull, fun _ => hs.active⟩

/-- **A write behind its checks:** what it schedules for the buffer of its zone is what it completes,
and it schedules nothing for the buffers of the other zones. -/
theorem ZonesOk.advances_writeAdmitted (h : f.ZonesOk) (hz : zid < f.zp.nrZones)
    (hfound : f.Found zid) (hwb : f.zp.zoneWbSize ≠ 0) (hs : (f.zoneDescs zid).state.Opened)
    {cmd : NvmeRwCommand} (t : ℕ) (hslba : cmd.slba = (f.zoneDescs zid).wp)
    (hle : (f.zoneDescs zid).wp + cmd.nrLbas
      ≤ (f.zoneDescs zid).zslba + (f.zoneDescs zid).zoneCapacity) {x : ℕ}
    (hx : (f.zoneDescs zid).wp = (f.zoneDescs zid).zslba + x) :
    Ends (f.writeAdmitted clk cmd t zid) (fun o => Advances f o.ns zid cmd.nrLbas ∧
      o.ns.zoneWriteBuffer = f.zoneWriteBuffer ∧
      ∀ z, owedTo o.ops (ZnsBuffer.zone z).toNat + (if z = zid then f.settledBytes (x / 8) else 0)
        = if z = zid then f.settledBytes ((x + cmd.nrLbas + 7) / 8) else 0) fun _ => True := by
  have hpos : 0 < cmd.nrLbas := Nat.succ_pos _
  have hlow : f.zp.Low zid := lt_of_le_of_lt (Nat.mul_le_mul_right _ (Nat.le_succ zid)) hfound.stop
  have hadv := h.advances_increaseWritePtr hz hlow hs hle
  have hbuf := f.buffers_increaseWritePtr zid cmd.nrLbas
  have hlt := h.placed.end_lt hz
  have hd := h.zones zid hz
  have hlbas : f.zp.zoneLbas = 8 * f.zonePages := h.geometry.zoneLbas_eq
  rw [hd.zslba, hd.capacity, hlbas] at hle hlt
  rw [hd.zslba, hlbas] at hx
  have hmul : zid * (8 * f.zonePages) = 8 * (zid * f.zonePages) := by ring
  rw [hmul] at hx hle hlt
  unfold ZnsFtl.writeAdmitted
  dsimp only
  generalize cmd.nrLbas = n at hle hpos hadv hbuf hlt ⊢
  rw [hslba, hx, u64_of_lt (by omega)]
  unfold Znsparams.lbaToLpn
  rw [h.geometry.secsPerPg]
  generalize f.increaseWritePtr zid n = g at hadv hbuf ⊢
  have hg' : ZnsGeometry g.zp g.sp := by
    rw [hadv.zp, hadv.sp]
    exact h.geometry
  have hfound' : g.Found zid :=
    ⟨by rw [hadv.zp]; exact hfound.stop, by rw [hadv.sp]; exact hfound.oneshot⟩
  have hpages : g.zonePages = f.zonePages := by
    unfold ZnsFtl.zonePages
    rw [hadv.zp]
  have hof : g.writeBufferOf zid = .zone zid := by
    unfold ZnsFtl.writeBufferOf
    rw [hadv.zp, if_pos hwb]
  have hset : ∀ y, g.settledBytes y = f.settledBytes y := fun y => by
    unfold ZnsFtl.settledBytes
    rw [hpages, hadv.sp]
  have hlast : (8 * (zid * f.zonePages) + x + n - 1) / 8 + 1
      = zid * f.zonePages + (x + n + 7) / 8 := by omega
  have hfirst : (8 * (zid * f.zonePages) + x) / 8 = zid * f.zonePages + x / 8 := by omega
  rw [hfirst, hof]
  set elpn := (8 * (zid * f.zonePages) + x + n - 1) / 8 with helpn
  refine (hfound'.writePages clk hg' (by rw [hadv.zp]; exact hz) _ (.zone zid)
    ?_ ?_ ?_ le_rfl).bind fun c hc => ?_
  · rw [hpages, Nat.succ_mul]
    omega
  · rw [hpages]
    omega
  · omega
  · refine ⟨⟨hadv.zp, hadv.sp, hadv.others, hadv.zslba, hadv.wp, hadv.zrwav, hadv.active⟩, hbuf,
      fun z => ?_⟩
    have := hc (ZnsBuffer.zone z).toNat
    rw [hpages, hset, hset, show zid * f.zonePages + x / 8 - zid * f.zonePages = x / 8 by omega,
      show elpn + 1 - zid * f.zonePages = (x + n + 7) / 8 by omega] at this
    simp only [ZnsBuffer.zone_toNat_eq_iff] at this
    exact this.trans (zero_add _)

/-- **An accepted write** had room in the buffer of its zone, and the bytes it schedules to give back
are those it completes. -/
structure Charged (f : ZnsFtl τ) (zid n x : ℕ) (o : IoOutcome (ZnsFtl τ)) : Prop where
  zid_lt : zid < f.zp.nrZones
  writable : (f.zoneDescs zid).state.Writable
  fits : (f.zoneDescs zid).wp + n ≤ (f.zoneDescs zid).zslba + (f.zoneDescs zid).zoneCapacity
  advances : Advances f o.ns zid n
  room : lbaToByte n ≤ (f.zoneWriteBuffer zid).remaining
  buffers : ∀ z, o.ns.zoneWriteBuffer z = if z = zid then
    { f.zoneWriteBuffer zid with
      remaining := (f.zoneWriteBuffer zid).remaining - lbaToByte n }
    else f.zoneWriteBuffer z
  owed : ∀ z, owedTo o.ops (ZnsBuffer.zone z).toNat
      + (if z = zid then f.settledBytes (x / 8) else 0)
    = if z = zid then f.settledBytes ((x + n + 7) / 8) else 0

theorem ZonesOk.charged_writeSeq (h : f.ZonesOk) (req : NvmevRequest)
    (hlength : req.cmd.length < 2 ^ 16) (hzid : f.zp.lbaToZone f.sp req.cmd.slba = zid)
    (hfound : f.Found zid) (hwb : f.zp.zoneWbSize ≠ 0) {x : ℕ}
    (hx : (f.zoneDescs zid).wp = (f.zoneDescs zid).zslba + x) :
    Ends (f.znsWriteSeq clk req) (fun o => ¬ o.Rejected → f.Charged zid req.cmd.nrLbas x o)
      fun _ => True := by
  subst hzid
  set zid := f.zp.lbaToZone f.sp req.cmd.slba with hzid
  by_cases hz : zid < f.zp.nrZones
  swap
  · unfold znsWriteSeq
    exact ends_zoneExists.bind fun _ hz' => absurd hz' hz
  have hpos : 0 < req.cmd.nrLbas := Nat.succ_pos _
  have hnrLbas : (f.rewritten req.cmd).nrLbas = req.cmd.nrLbas := by
    unfold rewritten
    split_ifs <;> rfl
  have hof : f.writeBufferOf zid = .zone zid := if_pos hwb
  rw [znsWriteSeq_eq clk hz]
  dsimp only
  rw [← hzid, hof]
  set n := req.cmd.nrLbas with hn
  by_cases hroom : (f.zoneWriteBuffer zid).remaining < lbaToByte n
  · have hfail : (bufferAllocate (f.buffer (.zone zid)) (lbaToByte n)).2 = 0 := by
      unfold bufferAllocate
      exact if_pos hroom
    rw [hfail, if_pos (lbaToByte_nrLbas_pos _)]
    exact fun hno => absurd (by simp [IoOutcome.Rejected]) hno
  have halloc : bufferAllocate (f.buffer (.zone zid)) (lbaToByte n) = ({ f.zoneWriteBuffer zid with
      remaining := (f.zoneWriteBuffer zid).remaining - lbaToByte n }, lbaToByte n) := by
    unfold bufferAllocate
    rw [show (f.buffer (.zone zid)) = f.zoneWriteBuffer zid from rfl, if_neg hroom]
  rw [halloc, if_neg (lt_irrefl _)]
  refine ends_defined.bind fun _ _ => ?_
  generalize hb : ({ f.zoneWriteBuffer zid with
      remaining := (f.zoneWriteBuffer zid).remaining - lbaToByte n } : Buffer) = b
  set f' := f.setBuffer (.zone zid) b with hf'
  have hbuffer : ∀ z, f'.zoneWriteBuffer z = if z = zid then b else f.zoneWriteBuffer z := fun z =>
    Function.update_apply _ _ _ _
  have h' : f'.ZonesOk := h.congr rfl rfl rfl rfl
  by_cases ha : f'.Admits zid (f.rewritten req.cmd).slba n
  · obtain ⟨g, hg, hopens⟩ := h'.checkWrite hz ha
    obtain ⟨hzp, hsp, hothers, -⟩ :=
      hg ▸ f'.frame_checkWrite (R := False) zid (f.rewritten req.cmd).slba n
    have hkeep : ∀ z, g.zoneWriteBuffer z = f'.zoneWriteBuffer z := fun z => by
      have := buffer_checkWrite f' zid (f.rewritten req.cmd).slba n (.zone z)
      rw [hg] at this
      exact this
    have hlow : f.zp.Low zid :=
      lt_of_le_of_lt (Nat.mul_le_mul_right _ (Nat.le_succ zid)) hfound.stop
    have hfits := h'.admits_fits hz hlow ha hpos (by
      rw [hn]
      unfold NvmeRwCommand.nrLbas
      omega)
    have hdesc : g.zoneDescs zid = { f.zoneDescs zid with state := (g.zoneDescs zid).state } :=
      hopens.desc
    have hset : ∀ y, g.settledBytes y = f.settledBytes y := fun y => by
      unfold settledBytes zonePages
      rw [hzp, hsp]
      rfl
    rw [hg]
    refine ((hopens.keeps.zonesOk h' hz).advances_writeAdmitted clk (by rw [hzp]; exact hz)
      ⟨by rw [hzp]; exact hfound.stop, by rw [hsp]; exact hfound.oneshot⟩ (by rw [hzp]; exact hwb)
      hopens.opened _ (by rw [hdesc]; exact ha.wp) (by rw [hdesc, hnrLbas]; exact hfits)
      (by rw [hdesc]; exact hx)).mono ?_ fun _ _ => trivial
    rintro o ⟨hadv, hbuf, howed⟩ -
    rw [hnrLbas] at hadv howed
    refine ⟨hz, ha.writable, hfits, ⟨hadv.zp.trans hzp, hadv.sp.trans hsp,
      fun z hne => (hadv.others z hne).trans (hothers z hne), ?_, ?_, ?_, ?_⟩, not_lt.1 hroom,
      fun z => ?_, fun z => ?_⟩
    · rw [hadv.zslba, hdesc]
    · rw [hadv.wp, hdesc]
    · rw [hadv.zrwav, hdesc]
    · rw [hadv.active, hdesc]
    · rw [hbuf, hkeep, hbuffer, ← hb]
    · have := howed z
      rwa [hset, hset] at this
  · obtain ⟨status, hne, hg⟩ := checkWrite_of_not ha
    rw [hg]
    cases status <;> first
      | exact absurd rfl hne
      | exact fun hno => absurd (by rintro r ⟨⟩; exact fun hc => hne (NvmeStatus.code_eq_zero.1 hc)) hno

/-- The bytes written to a zone are those of its complete one-shot pages and of the incomplete
one. -/
theorem openBytes_add (hpgsz : f.sp.pgsz = 4096) {x : ℕ}
    (hx : (f.zoneDescs zid).wp = (f.zoneDescs zid).zslba + x)
    (hactive : (f.zoneDescs zid).state.Active → x < 8 * f.zonePages)
    (hidle : ¬ (f.zoneDescs zid).state.Active → x = 0 ∨ x = 8 * f.zonePages) :
    f.openBytes zid + f.settledBytes (x / 8) = x * 512 := by
  unfold openBytes settledBytes oneshotBytes
  dsimp only
  by_cases ha : (f.zoneDescs zid).state.Active
  · have hsettled : settled f.sp.pgsPerOneshotpg f.zonePages (x / 8)
        = x / (8 * f.sp.pgsPerOneshotpg) * f.sp.pgsPerOneshotpg := by
      have := hactive ha
      unfold settled
      rw [if_neg (by omega), Nat.div_div_eq_div_mul]
    have hmod := Nat.div_add_mod x (8 * f.sp.pgsPerOneshotpg)
    have hbytes : (f.zoneDescs zid).wp - (f.zoneDescs zid).zslba = x := by omega
    rw [if_pos ha, hbytes, hpgsz, hsettled, show f.sp.pgsPerOneshotpg * 4096
      = 8 * f.sp.pgsPerOneshotpg * 512 by ring, Nat.mul_mod_mul_right]
    generalize x % (8 * f.sp.pgsPerOneshotpg) = r at hmod ⊢
    generalize x / (8 * f.sp.pgsPerOneshotpg) = q at hmod ⊢
    rw [← hmod]
    ring
  · rw [if_neg ha, zero_add]
    rcases hidle ha with rfl | hend
    · rw [Nat.zero_div, settled_zero]
    · rw [hend, Nat.mul_div_cancel_left _ (by norm_num)]
      unfold settled
      rw [if_pos rfl]
      ring

/-- What ends with its last page settles nothing in that page. -/
theorem settledBytes_up {stop : ℕ} (h : stop % 8 = 0 ∨
      stop / 8 % f.sp.pgsPerOneshotpg + 1 < f.sp.pgsPerOneshotpg ∧ stop / 8 + 1 < f.zonePages) :
    f.settledBytes ((stop + 7) / 8) = f.settledBytes (stop / 8) := by
  by_cases hpage : stop % 8 = 0
  · rw [show (stop + 7) / 8 = stop / 8 by omega]
  · obtain ⟨hshot, hzone⟩ := h.resolve_left hpage
    rw [show (stop + 7) / 8 = stop / 8 + 1 by omega]
    unfold settledBytes
    rw [settled_within hshot hzone]

end ZnsFtl

namespace BufferRun

variable {τ : Type} {clk : SsdClock τ} {s : BufferRun τ}

/-- **An accepted write** that does not end in the middle of the last page of a one-shot page. -/
theorem BuffersOk.write (h : BuffersOk s) (req : NvmevRequest) (hlength : req.cmd.length < 2 ^ 16)
    (hset : s.ftl.Settles (.write req)) :
    Ends (s.ftl.znsWrite clk req) (fun o => ¬ o.Rejected →
      BuffersOk { ftl := o.ns, pending := s.pending ++ o.ops }) fun _ => True := by
  obtain ⟨h1, h2, h3, h4, h5⟩ := h
  obtain ⟨hfound, hwhole⟩ := hset
  set f := s.ftl
  set zid := f.zp.lbaToZone f.sp req.cmd.slba with hzid
  unfold ZnsFtl.znsWrite
  dsimp only
  rw [h1.geometry.lpnToZone_lbaToLpn, ← hzid]
  refine ZnsFtl.ends_zoneExists.bind fun _ hz => ?_
  rw [if_pos (h2 zid hz)]
  have hlow : f.zp.Low zid :=
    lt_of_le_of_lt (Nat.mul_le_mul_right _ (Nat.le_succ zid)) hfound.stop
  have hd := h1.zones zid hz
  have hin := hd.inside (.inl hlow)
  have hge := hin.wp_ge
  have hcap : (f.zoneDescs zid).zoneCapacity = 8 * f.zonePages :=
    hd.capacity.trans h1.geometry.zoneLbas_eq
  have hpos : 0 < f.zonePages := by
    have := h1.placed.cap_pos hz
    omega
  obtain ⟨x, hx⟩ : ∃ x, (f.zoneDescs zid).wp = (f.zoneDescs zid).zslba + x :=
    ⟨(f.zoneDescs zid).wp - (f.zoneDescs zid).zslba, by omega⟩
  have hok : Ends (f.znsWriteSeq clk req) (fun o => o.ns.ZonesOk) fun _ => True :=
    (h1.writeSeq clk req hlength (h2 zid hz)).mono (fun o ho => ho.2.zonesOk h1 hz)
      fun _ _ => trivial
  refine ((h1.charged_writeSeq clk req hlength hzid.symm hfound h3 hx).and hok).mono
    (fun o ho hacc => ?_) fun _ _ => trivial
  obtain ⟨hcharged, hok'⟩ := ho
  obtain ⟨-, hw, hfits, hadv, hroom, hbufs, howed⟩ := hcharged hacc
  have hsame : ∀ z, z ≠ zid → o.ns.openBytes z = f.openBytes z := fun z hne => by
    unfold ZnsFtl.openBytes ZnsFtl.oneshotBytes
    rw [hadv.others z hne, hadv.sp]
  have hbefore : f.openBytes zid + f.settledBytes (x / 8) = x * 512 := by
    refine ZnsFtl.openBytes_add h1.geometry.pgsz hx (fun ha => ?_) fun hna => .inl ?_
    · have := hin.active ha
      omega
    · have := (hd.empty (hw.active_or_empty.resolve_left hna)).1
      omega
  have hafter : o.ns.openBytes zid + f.settledBytes ((x + req.cmd.nrLbas + 7) / 8)
      = (x + req.cmd.nrLbas) * 512 := by
    have hpages : o.ns.zonePages = f.zonePages := by
      unfold ZnsFtl.zonePages
      rw [hadv.zp]
    have hsettled : ∀ y, o.ns.settledBytes y = f.settledBytes y := fun y => by
      unfold ZnsFtl.settledBytes
      rw [hpages, hadv.sp]
    have hstop : (f.zoneDescs zid).wp - (f.zoneDescs zid).zslba = x := by omega
    unfold ZnsFtl.EndsWhole at hwhole
    dsimp only at hwhole
    rw [hstop] at hwhole
    rw [ZnsFtl.settledBytes_up hwhole, ← hsettled]
    refine ZnsFtl.openBytes_add (by rw [hadv.sp]; exact h1.geometry.pgsz) ?_ ?_ ?_
    · rw [hadv.wp, hadv.zslba]
      omega
    · rw [hadv.active, hpages]
      omega
    · rw [hadv.active, hpages]
      omega
  refine ⟨hok', fun z hz' => ?_, ?_, fun z hz' => ?_, fun z hz' => ?_⟩ <;>
    dsimp only at *
  · by_cases hne : z = zid
    · rw [hne, hadv.zrwav]
      exact h2 zid hz
    · rw [hadv.others z hne]
      exact h2 z (by rwa [hadv.zp] at hz')
  · rw [hadv.zp]
    exact h3
  · rw [hbufs]
    rw [hadv.zp] at hz'
    split_ifs
    · exact h4 zid hz
    · exact h4 z hz'
  · rw [hadv.zp] at hz'
    have hb := h5 z hz'
    have ho := howed z
    rw [hbufs, owedTo_append]
    split_ifs at ho ⊢ with hne
    · subst hne
      have hbytes : lbaToByte req.cmd.nrLbas = req.cmd.nrLbas * 512 := by
        unfold lbaToByte
        rw [Nat.shiftLeft_eq]
      dsimp only
      omega
    · rw [hsame z hne]
      omega

/-- **One step** of a run. -/
theorem BuffersOk.exec (h : BuffersOk s) {op : BufferOp} (hacc : s.Accepted clk op)
    (hset : s.Settles op) : Ends (s.exec clk op) BuffersOk fun _ => True := by
  cases op with
  | command op =>
    cases op with
    | write req =>
      refine (h.write req hacc.1 hset).with_eq.bind fun o ho => ?_
      exact ho.1 (hacc.2 o ho.2)
    | mgmtSend req =>
      refine (h.zones.steady_send clk h.plain req hacc hset).bind fun o ho => ?_
      show BuffersOk { ftl := o.ns, pending := s.pending ++ o.ops }
      rw [ho.2.2, List.append_nil]
      exact h.steady ho.1 ho.2.1
  | release i =>
    unfold BufferRun.exec
    dsimp only
    cases hi : s.pending[i]? with
    | none => exact h
    | some op => exact h.release hi

end BufferRun

/-- At the start the buffers are full and no zone is written. -/
theorem znsInitNamespace_buffersOk {τ : Type} {size : ℕ} {cfg : FtlConfigs} {zcfg : ZnsConfigs}
    {prior : Znsparams} {clock : τ} {storage reportBuffer : Mem} {f : ZnsFtl τ}
    (hinit : znsInitNamespace size cfg zcfg prior clock storage reportBuffer = .ok f)
    (hwb : zcfg.zoneWbSize ≠ 0) (hwb32 : zcfg.zoneWbSize < 2 ^ 32) :
    BufferRun.BuffersOk { ftl := f, pending := [] } := by
  have hok := (znsInitNamespace_zonesOk hinit).1
  obtain ⟨spp, -, hzpp, hf⟩ := znsInitNamespace_eq hinit
  have hsize : f.zp.zoneWbSize = zcfg.zoneWbSize := by
    unfold znsInitParams at hzpp
    simp only [bind_eq_ok] at hzpp
    obtain ⟨_, -, _, -, _, -, _, -, hzpp⟩ := hzpp
    injection hzpp with hzpp
    rw [← hzpp]
  have hdescs : ∀ z, f.zoneDescs z = initDescriptor f.zp z := fun z => by
    rw [hf]
    rfl
  have hbuf : ∀ z, f.zoneWriteBuffer z = bufferInit f.zp.zoneWbSize := fun z => by
    rw [hf]
    rfl
  refine ⟨hok, fun z _ => ?_, ?_, fun z _ => ?_, fun z _ => ?_⟩ <;> dsimp only
  · rw [hdescs]
    rfl
  · rw [hsize]
    exact hwb
  · rw [hbuf, hsize]
    show zcfg.zoneWbSize < 2 ^ 64
    omega
  · have hopen : f.openBytes z = 0 := by
      unfold ZnsFtl.openBytes
      dsimp only
      rw [if_neg]
      rw [hdescs]
      exact id
    rw [hbuf, hopen]
    rfl

/-- **The write buffers of every run** whose writes and zone management sends settle them are
conserved. -/
theorem znsRun_buffersConserved {τ : Type} (clk : SsdClock τ) {size : ℕ} {cfg : FtlConfigs}
    {zcfg : ZnsConfigs} {prior : Znsparams} {clock : τ} {storage reportBuffer : Mem} {f : ZnsFtl τ}
    (hinit : znsInitNamespace size cfg zcfg prior clock storage reportBuffer = .ok f)
    (hwb : zcfg.zoneWbSize ≠ 0) (hwb32 : zcfg.zoneWbSize < 2 ^ 32) {ops : List BufferOp}
    {s : BufferRun τ}
    (hops : Along (BufferRun.exec clk) (fun s op => s.Accepted clk op ∧ s.Settles op)
      { ftl := f, pending := [] } ops)
    (hrun : runList (BufferRun.exec clk) { ftl := f, pending := [] } ops = .ok s) :
    s.Conserved :=
  ((Ends.runList_along (fun _ _ h hop => h.exec hop.1 hop.2)
    (znsInitNamespace_buffersOk hinit hwb hwb32) hops).of_ok hrun).conserved

/-! ### A one-shot page of two pages -/

/-- Two zones of one one-shot page, with a write buffer each. -/
def oneShotZones : Except Fault (ZnsFtl Unit) :=
  znsInitNamespace 16384 { oneDie with oneshotPageSize := 8192 }
    { twoPageZones with zoneWbSize := 65536 } zrwaPrior () (fun _ => 0) fun _ => 0

/-- The first zone is filled by two writes and what they took is given back, the second one gets an
append of a page, and the full zone is reset. -/
def fillAndReset : List BufferOp :=
  [.command (.write (znsRequest .write 0 7 0)), .command (.write (znsRequest .write 8 7 0)),
    .command (.write (znsRequest .zoneAppend 16 7 0)), .release 0,
    .command (.mgmtSend (znsRequest .zoneMgmtSend 0 0 4))]

/-- The buffers over this run. -/
theorem znsRun_buffersConserved_reset : ∃ f s, oneShotZones = .ok f ∧
    runList (BufferRun.exec idleClock) { ftl := f, pending := [] } fillAndReset = .ok s ∧
    s.pending = [] ∧ (s.ftl.zoneDescs 1).wp = 24 ∧ s.Conserved := by
  have hcheck : oneShotZones.toOption.any (fun f =>
      (runList (BufferRun.exec idleClock) { ftl := f, pending := [] } fillAndReset).toOption.any
        fun s => decide (s.pending.length = 0 ∧ (s.ftl.zoneDescs 1).wp = 24 ∧
          Along (BufferRun.exec idleClock) (fun s op => s.Accepted idleClock op ∧ s.Settles op)
            { ftl := f, pending := [] } fillAndReset)) = true := by
    decide +kernel
  obtain ⟨f, hinit, hp⟩ := exists_ok_of_any hcheck
  obtain ⟨s, hrun, hp⟩ := exists_ok_of_any hp
  obtain ⟨hpend, hwp, hops⟩ := of_decide_eq_true hp
  exact ⟨f, s, hinit, hrun, List.length_eq_zero_iff.1 hpend, hwp,
    znsRun_buffersConserved idleClock hinit (by decide) (by decide) hops hrun⟩

/-- A page is written and its zone is reset. -/
def writeAndReset : List BufferOp :=
  [.command (.write (znsRequest .write 0 7 0)),
    .command (.mgmtSend (znsRequest .zoneMgmtSend 0 0 4))]

/-- **A reset in the middle of a one-shot page** leaves the zone empty and its bytes taken, with
nothing scheduled that would give them back. -/
theorem writeAndReset_not_conserved : ∃ f s, oneShotZones = .ok f ∧
    Along (BufferRun.exec idleClock) (BufferRun.Accepted idleClock) { ftl := f, pending := [] }
      writeAndReset ∧
    runList (BufferRun.exec idleClock) { ftl := f, pending := [] } writeAndReset = .ok s ∧
    s.pending = [] ∧ (s.ftl.zoneDescs 0).state = .empty ∧
    (s.ftl.zoneWriteBuffer 0).size - (s.ftl.zoneWriteBuffer 0).remaining = 4096 ∧
    ¬ s.Conserved := by
  have hcheck : oneShotZones.toOption.any (fun f =>
      (runList (BufferRun.exec idleClock) { ftl := f, pending := [] } writeAndReset).toOption.any
        fun s => decide (s.pending.length = 0 ∧ (s.ftl.zoneDescs 0).state = .empty ∧
          0 < s.ftl.zp.nrZones ∧
          (s.ftl.zoneWriteBuffer 0).size - (s.ftl.zoneWriteBuffer 0).remaining = 4096 ∧
          Along (BufferRun.exec idleClock) (BufferRun.Accepted idleClock)
            { ftl := f, pending := [] } writeAndReset)) = true := by
    decide +kernel
  obtain ⟨f, hinit, hp⟩ := exists_ok_of_any hcheck
  obtain ⟨s, hrun, hp⟩ := exists_ok_of_any hp
  obtain ⟨hpend, hempty, hz, htaken, hacc⟩ := of_decide_eq_true hp
  have hnone := List.length_eq_zero_iff.1 hpend
  refine ⟨f, s, hinit, hacc, hrun, hnone, hempty, htaken, fun h => ?_⟩
  have := h.idle hnone 0 hz (.inl hempty)
  omega

end NvmeVirt
