/-
# The one-shot pages of a zone

`__zns_write` charges the write buffer by blocks and schedules its releases by
one-shot pages: one is written where a page of the command completes it, and the
last one of a zone, which may be shorter, where the zone ends.  The bytes a
command schedules are those of the one-shot pages its pages complete.
-/

import NvmeVirt.Zns.Rejections

namespace NvmeVirt

open Outcome

/-- The bytes the operations release to a write buffer. -/
def owedTo (ops : List InternalOp) (buf : ℕ) : ℕ :=
  (ops.map fun op => if op.writeBuffer = buf then op.buffsToRelease else 0).sum

theorem owedTo_append (ops ops' : List InternalOp) (buf : ℕ) :
    owedTo (ops ++ ops') buf = owedTo ops buf + owedTo ops' buf := by
  unfold owedTo
  rw [List.map_append, List.sum_append]

theorem owedTo_singleton (op : InternalOp) (buf : ℕ) :
    owedTo [op] buf = if op.writeBuffer = buf then op.buffsToRelease else 0 := by
  simp [owedTo]

/-- Of the first `x` pages of a zone of `n` pages, those in one-shot pages of `p` pages that are
complete; the end of the zone completes the last one. -/
def settled (p n x : ℕ) : ℕ := if x = n then n else x / p * p

theorem settled_zero {p n : ℕ} : settled p n 0 = 0 := by
  unfold settled
  split_ifs with h
  · exact h.symm
  · simp

/-- **A round that completes a one-shot page.** -/
theorem settled_full {p n x k : ℕ} (hp : 0 < p) (hx : x < n) (hk : x % p + k = p) :
    settled p n (x + k) = settled p n x + p := by
  have hdiv := Nat.div_add_mod x p
  have hsum : x + k = (x / p + 1) * p := by
    rw [Nat.succ_mul, mul_comm]
    omega
  have hx' : settled p n x = x / p * p := if_neg (by omega)
  rw [hx', ← Nat.succ_mul, ← hsum]
  unfold settled
  split_ifs with h
  · exact h.symm
  · rw [hsum, Nat.mul_div_cancel _ hp]

/-- A round that ends with the zone in a shorter one-shot page. -/
theorem settled_last {p n x k : ℕ} (hk : x % p + k < p) (hend : x + k = n) (hpos : 0 < k) :
    settled p n (x + k) = settled p n x + n % p := by
  have hdiv := Nat.div_add_mod x p
  have hmod : n % p = x % p + k := by
    rw [← hend, Nat.add_mod, Nat.mod_eq_of_lt (show k < p by omega), Nat.mod_eq_of_lt hk]
  unfold settled
  rw [if_pos hend, if_neg (show ¬ x = n by omega), hmod, mul_comm]
  omega

/-- A round that stays in a one-shot page. -/
theorem settled_within {p n x k : ℕ} (hk : x % p + k < p) (hend : x + k < n) :
    settled p n (x + k) = settled p n x := by
  have hdiv := Nat.div_add_mod x p
  have hsame : (x + k) / p = x / p := by
    refine (Nat.div_eq_iff (by omega)).2 ?_
    constructor
    · rw [mul_comm]
      omega
    · rw [mul_comm]
      omega
  unfold settled
  rw [if_neg (show ¬ x + k = n by omega), if_neg (show ¬ x = n by omega), hsame]

namespace ZnsFtl

variable {τ : Type} (clk : SsdClock τ) {f : ZnsFtl τ} {zid : ℕ}

/-- The pages of a zone. -/
def zonePages (f : ZnsFtl τ) : ℕ := f.zp.zoneSize / 4096

/-- **The zone is found where it lies:** it ends below block 2^32, where `zone_to_slpn` and
`zone_to_elpn` compute in 32 bits, and a one-shot page has no more pages than the `pg` of a `ppa` can
tell apart. -/
structure Found (f : ZnsFtl τ) (zid : ℕ) : Prop where
  stop : (zid + 1) * f.zp.zoneLbas < 2 ^ 32
  oneshot : f.sp.pgsPerOneshotpg ≤ 2 ^ 16

instance (f : ZnsFtl τ) (zid : ℕ) : Decidable (f.Found zid) :=
  decidable_of_iff (_ ∧ _) ⟨fun h => ⟨h.1, h.2⟩, fun h => ⟨h.1, h.2⟩⟩

/-- The first page of a zone. -/
theorem Found.zoneToSlpn (h : f.Found zid) (g : ZnsGeometry f.zp f.sp) :
    f.zp.zoneToSlpn f.sp zid = zid * f.zonePages := by
  have hl := g.zoneLbas_eq
  have hstop := h.stop
  rw [hl, Nat.succ_mul] at hstop
  have hlt : zid * (f.zp.zoneSize / 4096) < 2 ^ 32 := by
    have hle : zid * (f.zp.zoneSize / 4096) ≤ zid * (8 * (f.zp.zoneSize / 4096)) :=
      Nat.mul_le_mul_left _ (by omega)
    omega
  unfold Znsparams.zoneToSlpn zonePages
  rw [g.pgsz]
  exact u32_of_lt hlt

/-- The last page of a zone. -/
theorem Found.zoneToElpn (h : f.Found zid) (g : ZnsGeometry f.zp f.sp) :
    f.zp.zoneToElpn f.sp zid + 1 = (zid + 1) * f.zonePages := by
  have hl := g.zoneLbas_eq
  have hpos := g.eight_le
  have hstop := h.stop
  have hmul : (zid + 1) * f.zp.zoneLbas = 8 * ((zid + 1) * (f.zp.zoneSize / 4096)) := by
    rw [hl]
    ring
  have hge : f.zp.zoneLbas ≤ (zid + 1) * f.zp.zoneLbas := Nat.le_mul_of_pos_left _ (by omega)
  have hzid : zid + 1 ≤ (zid + 1) * f.zp.zoneLbas := Nat.le_mul_of_pos_right _ (by omega)
  have hslba : f.zp.zoneToSlba f.sp (zid + 1) = (zid + 1) * f.zp.zoneLbas := g.zoneToSlba_eq hstop
  unfold Znsparams.zoneToElpn Znsparams.zoneToElba
  rw [u32_of_lt (by omega), hslba, g.secsPerPg]
  unfold u64 zonePages
  omega

/-- **The place of a page in its one-shot page.** -/
theorem Found.lpnToPpa (h : f.Found zid) (g : ZnsGeometry f.zp f.sp) (hz : zid < f.zp.nrZones)
    {lpn : ℕ} (hlo : zid * f.zonePages ≤ lpn) (hhi : lpn < (zid + 1) * f.zonePages) :
    Ends (f.zp.lpnToPpa f.sp lpn) (fun ppa => 0 < f.sp.pgsPerOneshotpg ∧
      ppa.pg % f.sp.pgsPerOneshotpg = (lpn - zid * f.zonePages) % f.sp.pgsPerOneshotpg)
      fun _ => True := by
  have hn := g.nrZones
  have hpage : 0 < f.zonePages := by
    have := g.aligned
    have := g.zoneSize
    unfold zonePages
    omega
  have hstop := h.stop
  rw [show (zid + 1) * f.zp.zoneLbas = 8 * ((zid + 1) * f.zonePages) by
    rw [g.zoneLbas_eq]; unfold zonePages; ring] at hstop
  have hzone : f.zp.lpnToZone f.sp lpn = zid := by
    have hdiv : lpn / f.zonePages = zid := by
      refine (Nat.div_eq_iff hpage).2 ?_
      rw [Nat.succ_mul] at hhi
      constructor <;> omega
    unfold Znsparams.lpnToZone
    rw [g.pgsz]
    show u32 (lpn / f.zonePages) = zid
    rw [hdiv]
    exact u32_of_lt (by omega)
  unfold Znsparams.lpnToPpa
  refine ends_defined.bind fun _ hdef => ?_
  dsimp only
  have hP := hdef.2.2.2
  refine ⟨hP, ?_⟩
  rw [hzone, h.zoneToSlpn g]
  have hoff : u64 (lpn + 2 ^ 64 - zid * f.zonePages) = lpn - zid * f.zonePages := by
    unfold u64
    omega
  rw [hoff]
  show (lpn - zid * f.zonePages) % f.sp.pgsPerOneshotpg % 2 ^ 16 % f.sp.pgsPerOneshotpg = _
  have hlt := Nat.mod_lt (lpn - zid * f.zonePages) hP
  rw [Nat.mod_eq_of_lt (lt_of_lt_of_le hlt h.oneshot), Nat.mod_mod]

/-- The bytes of the complete one-shot pages among the first `x` pages of a zone. -/
def settledBytes (f : ZnsFtl τ) (x : ℕ) : ℕ :=
  settled f.sp.pgsPerOneshotpg f.zonePages x * 4096

/-- The bytes of a shorter last one-shot page. -/
theorem unalignedSpace_eq (g : ZnsGeometry f.zp f.sp) :
    f.zp.zoneSize % (f.sp.pgsPerOneshotpg * f.sp.pgsz)
      = f.zonePages % f.sp.pgsPerOneshotpg * 4096 := by
  have hal := g.aligned
  have hsize : f.zp.zoneSize = f.zonePages * 4096 := by
    unfold zonePages
    omega
  rw [g.pgsz, hsize, Nat.mul_mod_mul_right]

/-- **A round of the loop:** what the operation releases, if there is one, is what its pages
complete. -/
theorem Found.round (h : f.Found zid) (g : ZnsGeometry f.zp f.sp) (buf : ZnsBuffer)
    (stime : ℕ) (ppa : Ppa) (c : FlashCursor τ) {lpn k : ℕ} (hlo : zid * f.zonePages ≤ lpn)
    (hhi : lpn + k ≤ (zid + 1) * f.zonePages) (hpos : 0 < k) (hP : 0 < f.sp.pgsPerOneshotpg)
    (hk : (lpn - zid * f.zonePages) % f.sp.pgsPerOneshotpg + k ≤ f.sp.pgsPerOneshotpg) (n : ℕ) :
    owedTo (if (lpn - zid * f.zonePages) % f.sp.pgsPerOneshotpg + k = f.sp.pgsPerOneshotpg ∨
        lpn + k - 1 = f.zp.zoneToElpn f.sp zid then
      f.flush clk ppa stime buf (f.bufsToRelease (f.zp.zoneToElpn f.sp zid) (lpn + k - 1)) c
      else c).ops n + (if n = buf.toNat then f.settledBytes (lpn - zid * f.zonePages) else 0)
      = owedTo c.ops n + if n = buf.toNat then f.settledBytes (lpn + k - zid * f.zonePages) else 0 := by
  have helpn := h.zoneToElpn g
  have hun := f.unalignedSpace_eq g
  set x := lpn - zid * f.zonePages with hx
  rw [Nat.succ_mul] at hhi helpn
  have hx' : lpn + k - zid * f.zonePages = x + k := by omega
  have hlast : lpn + k - 1 = f.zp.zoneToElpn f.sp zid ↔ x + k = f.zonePages := by omega
  have hxn : x < f.zonePages := by omega
  have hflush : ∀ bytes, owedTo (f.flush clk ppa stime buf bytes c).ops n
      = owedTo c.ops n + if n = buf.toNat then bytes else 0 := by
    intro bytes
    unfold flush
    dsimp only
    rw [owedTo_append, owedTo_singleton]
    simp only [eq_comm]
  have hsettle : ∀ bytes, f.settledBytes (x + k) = f.settledBytes x + bytes →
      (owedTo c.ops n + if n = buf.toNat then bytes else 0)
        + (if n = buf.toNat then f.settledBytes x else 0)
      = owedTo c.ops n + if n = buf.toNat then f.settledBytes (x + k) else 0 := by
    intro bytes hb
    split_ifs <;> omega
  rw [hx']
  by_cases hfull : x % f.sp.pgsPerOneshotpg + k = f.sp.pgsPerOneshotpg
  · rw [if_pos (.inl hfull), hflush]
    refine hsettle _ ?_
    have hbytes : f.bufsToRelease (f.zp.zoneToElpn f.sp zid) (lpn + k - 1)
        = f.sp.pgsPerOneshotpg * 4096 := by
      unfold bufsToRelease
      dsimp only
      rw [hun, g.pgsz, if_neg]
      rintro ⟨he, hrem⟩
      have hend := hlast.1 he
      have hmod : f.zonePages % f.sp.pgsPerOneshotpg = 0 := by
        have hdiv := Nat.div_add_mod x f.sp.pgsPerOneshotpg
        rw [← hend, show x + k = f.sp.pgsPerOneshotpg * (x / f.sp.pgsPerOneshotpg)
          + f.sp.pgsPerOneshotpg by omega]
        simp
      rw [hmod] at hrem
      omega
    rw [hbytes]
    unfold settledBytes
    rw [settled_full hP hxn hfull, Nat.add_mul]
  · have hlt : x % f.sp.pgsPerOneshotpg + k < f.sp.pgsPerOneshotpg := by omega
    by_cases hend : x + k = f.zonePages
    · rw [if_pos (.inr (hlast.2 hend)), hflush]
      refine hsettle _ ?_
      have hmod : f.zonePages % f.sp.pgsPerOneshotpg = x % f.sp.pgsPerOneshotpg + k := by
        rw [← hend, Nat.add_mod, Nat.mod_eq_of_lt (show k < f.sp.pgsPerOneshotpg by omega),
          Nat.mod_eq_of_lt hlt]
      have hbytes : f.bufsToRelease (f.zp.zoneToElpn f.sp zid) (lpn + k - 1)
          = f.zonePages % f.sp.pgsPerOneshotpg * 4096 := by
        unfold bufsToRelease
        dsimp only
        rw [hun, if_pos ⟨hlast.2 hend, by omega⟩]
      rw [hbytes]
      unfold settledBytes
      rw [settled_last hlt hend hpos, Nat.add_mul]
    · rw [if_neg (not_or.2 ⟨hfull, fun he => hend (hlast.1 he)⟩)]
      have hsame : f.settledBytes (x + k) = f.settledBytes x := by
        unfold settledBytes
        rw [settled_within hlt (by omega)]
      rw [hsame]

/-- **The loop of `__zns_write`** releases the bytes of the one-shot pages the command completes. -/
theorem Found.writePages (h : f.Found zid) (g : ZnsGeometry f.zp f.sp) (hz : zid < f.zp.nrZones)
    (stime : ℕ) (buf : ZnsBuffer) {elpn : ℕ} (hhi : elpn < (zid + 1) * f.zonePages) {fuel lpn : ℕ}
    {c : FlashCursor τ} (hlo : zid * f.zonePages ≤ lpn) (hle : lpn ≤ elpn + 1)
    (hfuel : elpn + 1 - lpn ≤ fuel) :
    Ends (f.writePages clk stime buf elpn (f.zp.zoneToElpn f.sp zid) fuel lpn c)
      (fun c' => ∀ n, owedTo c'.ops n
          + (if n = buf.toNat then f.settledBytes (lpn - zid * f.zonePages) else 0)
        = owedTo c.ops n
          + if n = buf.toNat then f.settledBytes (elpn + 1 - zid * f.zonePages) else 0)
      fun _ => True := by
  induction fuel generalizing lpn c with
  | zero =>
    have hdone : lpn = elpn + 1 := by omega
    intro n
    rw [hdone]
  | succ fuel ih =>
    unfold ZnsFtl.writePages
    by_cases hdone : elpn < lpn
    · rw [if_pos hdone]
      intro n
      rw [show lpn = elpn + 1 by omega]
    · rw [if_neg hdone]
      refine (h.lpnToPpa g hz hlo (by omega)).bind fun ppa ⟨hP, hpg⟩ => ?_
      dsimp only
      rw [hpg]
      have hmod := Nat.mod_lt (lpn - zid * f.zonePages) hP
      set k := min (elpn - lpn + 1)
        (f.sp.pgsPerOneshotpg - (lpn - zid * f.zonePages) % f.sp.pgsPerOneshotpg) with hk
      refine (@ih (lpn + k) _ (by omega) (by omega) (by omega)).mono (fun c' hc' n => ?_)
        fun _ _ => trivial
      have hround := h.round clk g buf stime ppa c hlo
        (show lpn + k ≤ (zid + 1) * f.zonePages by omega) (by omega) hP (by omega) n
      have := hc' n
      omega

end ZnsFtl

end NvmeVirt
