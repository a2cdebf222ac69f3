/-
# Where the pages of a zone are placed

`__lpn_to_ppa` of `zns_read_write.h` stripes a zone over `dies_per_zone` dies,
one one-shot page after the other.  The first die of a zone wraps at the number
of dies, the offset added to it does not: a zone whose dies do not end with the
device is placed behind its last die.  A `ppa` keeps 8 bits of a channel and of
a die, `zone_to_slpn` 32 bits of a page.
-/

import NvmeVirt.Zns.ZoneAddresses

namespace NvmeVirt

open Outcome

/-! ### Dies by number -/

/-- Two die numbers that are one die in a `ppa`. -/
def SameFields (nchs a b : ℕ) : Prop :=
  a % nchs % 2 ^ 8 = b % nchs % 2 ^ 8 ∧ a / nchs % 2 ^ 8 = b / nchs % 2 ^ 8

/-- **Dies in a row stay apart** in a `ppa`: there are no more than 2^8, or the device has no more
channels and there are no more than 2^8 on each, or each of the two rows of channels they lie in
has no more than 2^8 of them. -/
def RowsFit (nchs first count : ℕ) : Prop :=
  count ≤ 2 ^ 8 ∨ (nchs ≤ 2 ^ 8 ∧ count ≤ 2 ^ 8 * nchs) ∨
    (2 ^ 8 < nchs ∧ nchs ≤ first % nchs + 2 ^ 8 ∧ first % nchs + count ≤ nchs + 2 ^ 8)

section Rows

variable {nchs luns first count x y : ℕ}

/-- Two numbers of one die are 2^8 apart in a row of channels, or 2^8 rows. -/
theorem SameFields.apart (h : SameFields nchs x y) (hxy : x < y) :
    (x / nchs = y / nchs ∧ x + 2 ^ 8 ≤ y) ∨ x / nchs + 2 ^ 8 ≤ y / nchs := by
  obtain ⟨hch, hlun⟩ := h
  have hx := Nat.div_add_mod x nchs
  have hy := Nat.div_add_mod y nchs
  have hle : x / nchs ≤ y / nchs := Nat.div_le_div_right hxy.le
  rcases hle.eq_or_lt with heq | hlt
  · rw [← heq] at hy
    left
    omega
  · right
    omega

/-- Two channels of a row, 2^8 apart. -/
theorem sameFields_row (hn : 0 < nchs) (q : ℕ) {c : ℕ} (hc : c + 2 ^ 8 < nchs) :
    SameFields nchs (nchs * q + c) (nchs * q + (c + 2 ^ 8)) := by
  unfold SameFields
  rw [Nat.mul_add_mod, Nat.mul_add_mod, Nat.mul_add_div hn, Nat.mul_add_div hn,
    Nat.mod_eq_of_lt hc, Nat.mod_eq_of_lt (show c < nchs by omega), Nat.div_eq_of_lt hc,
    Nat.div_eq_of_lt (show c < nchs by omega)]
  omega

/-- **Exactly when dies in a row stay apart.** -/
theorem rowsFit_iff (hn : 0 < nchs) :
    RowsFit nchs first count ↔
      ∀ a b, a < b → b < count → ¬ SameFields nchs (first + a) (first + b) := by
  have hfirst := Nat.div_add_mod first nchs
  have hcol := Nat.mod_lt first hn
  constructor
  · rintro hfit a b hab hb hsame
    have hx := Nat.div_add_mod (first + a) nchs
    have hy := Nat.div_add_mod (first + b) nchs
    have hx' := Nat.mod_lt (first + a) hn
    have hy' := Nat.mod_lt (first + b) hn
    rcases hsame.apart (Nat.add_lt_add_left hab first) with ⟨hrow, hfar⟩ | hrows
    · -- both in one row, which has no more than 2^8 of the dies
      rcases hfit with hcount | ⟨hnchs, -⟩ | ⟨hwide, hlow, hhigh⟩
      · omega
      · rw [← hrow] at hy
        omega
      · have hge : first / nchs ≤ (first + a) / nchs := Nat.div_le_div_right (Nat.le_add_right _ _)
        have hlt : (first + b) / nchs < first / nchs + 2 := by
          rw [Nat.div_lt_iff_lt_mul hn, Nat.add_mul, mul_comm (first / nchs)]
          omega
        rw [← hrow] at hy hlt
        obtain heq | heq : (first + a) / nchs = first / nchs ∨
            (first + a) / nchs = first / nchs + 1 := by omega
        · rw [heq] at hx hy
          omega
        · rw [heq, Nat.mul_succ] at hx hy
          omega
    · -- 2^8 rows between them, which are more dies than there are
      have hmul := Nat.mul_le_mul_left nchs hrows
      rw [Nat.mul_add] at hmul
      rcases hfit with hcount | ⟨hnchs, hcount⟩ | ⟨hwide, hlow, hhigh⟩
      · omega
      · obtain ⟨hch, -⟩ := hsame
        omega
      · omega
  · intro h
    by_contra hno
    unfold RowsFit at hno
    push Not at hno
    obtain ⟨hcount, hnarrow, hwide⟩ := hno
    rcases Nat.lt_or_ge (2 ^ 8) nchs with hlt | hle
    · by_cases hcol : first % nchs + 2 ^ 8 < nchs
      · refine h 0 (2 ^ 8) (by norm_num) hcount ?_
        rw [add_zero, ← hfirst, add_assoc]
        exact sameFields_row hn _ hcol
      · have hrow := sameFields_row hn (first / nchs + 1) (c := 0) (by omega)
        have hlong := hwide hlt (by omega)
        refine h (nchs - first % nchs) (nchs - first % nchs + 2 ^ 8) (by omega) (by omega) ?_
        rw [Nat.mul_succ, add_zero, zero_add] at hrow
        rwa [show first + (nchs - first % nchs) = nchs * (first / nchs) + nchs by omega,
          ← add_assoc, show first + (nchs - first % nchs) = nchs * (first / nchs) + nchs by omega]
    · refine h 0 (2 ^ 8 * nchs) (by omega) (hnarrow hle) ?_
      unfold SameFields
      rw [add_zero, Nat.add_mul_mod_self_right, Nat.add_mul_div_right _ _ hn]
      exact ⟨rfl, (Nat.add_mod_right _ _).symm⟩

/-- The `lun` of a die number: its 8 bits are on the device, or wrap onto it. -/
theorem lun_lt_iff (hn : 0 < nchs) {die : ℕ} (hdie : die < 2 * (luns * nchs)) :
    die / nchs % 2 ^ 8 < luns ↔ die < luns * nchs ∨ 2 ^ 8 * nchs ≤ die := by
  have hrow : die / nchs < 2 * luns := by
    rw [Nat.div_lt_iff_lt_mul hn, mul_assoc]
    exact hdie
  rw [← Nat.div_lt_iff_lt_mul hn, ← Nat.le_div_iff_mul_le hn]
  generalize die / nchs = row at hrow
  omega

/-- Numbers less than `d` apart leave different remainders. -/
theorem mod_ne_of_lt {d i j : ℕ} (hij : i < j) (hclose : j < i + d) : i % d ≠ j % d := by
  intro h
  have hdvd : d ∣ j - i := (Nat.modEq_iff_dvd' hij.le).1 h
  have := Nat.le_of_dvd (by omega) hdvd
  omega

end Rows

namespace Znsparams

variable (zpp : Znsparams) (spp : Ssdparams)

/-- The pages of a zone. -/
def pagesPerZone : ℕ := zpp.zoneSize / 4096

/-- The one-shot page of a page in its zone. -/
def oneshotOf (lpn : ℕ) : ℕ := lpn % zpp.pagesPerZone / spp.pgsPerOneshotpg

/-- **The placement of the first pages:** every page is on a die of the device, and of one-shot
pages in a zone, any `dies_per_zone` in a row are on different dies. -/
structure Placement (pages : ℕ) : Prop where
  onDevice : ∀ lpn < pages, ∃ ppa, zpp.lpnToPpa spp lpn = .ok ppa ∧
    ppa.ch < spp.nchs ∧ ppa.lun < spp.lunsPerCh
  spread : ∀ lpn < pages, ∀ lpn' < pages, lpn / zpp.pagesPerZone = lpn' / zpp.pagesPerZone →
    zpp.oneshotOf spp lpn < zpp.oneshotOf spp lpn' →
    zpp.oneshotOf spp lpn' < zpp.oneshotOf spp lpn + zpp.diesPerZone →
    ∀ ppa ppa', zpp.lpnToPpa spp lpn = .ok ppa → zpp.lpnToPpa spp lpn' = .ok ppa' →
      ¬ (ppa.ch = ppa'.ch ∧ ppa.lun = ppa'.lun)

/-- The first die of a zone, whose number is a `uint32_t`. -/
def firstDie (zid : ℕ) : ℕ := zid % 2 ^ 32 * zpp.diesPerZone % spp.ttLuns

/-- The pages that `zone_to_slpn` loses of the ones before a zone. -/
def lostPages (zid : ℕ) : ℕ := zid * zpp.pagesPerZone / 2 ^ 32 * 2 ^ 32

/-- The die number of a page of a zone: the offset of its one-shot page behind the first die. -/
def dieNumber (zid page : ℕ) : ℕ :=
  zpp.firstDie spp zid + (zpp.lostPages zid + page) / spp.pgsPerOneshotpg % zpp.diesPerZone

/-- **The dies of a zone stay on the device:** none of them lies behind its last die and before
the one at which the 8 bits of `lun` begin again. -/
def DiesStay (zid : ℕ) : Prop := ∀ page < zpp.pagesPerZone,
  zpp.dieNumber spp zid page < spp.ttLuns ∨ 2 ^ 8 * spp.nchs ≤ zpp.dieNumber spp zid page

/-- **The dies of a zone stay apart:** with more than one die and one-shot page, what
`zone_to_slpn` loses are whole one-shot pages, and no two die numbers in a row are one die in the
fields of a `ppa`. -/
def DiesApart (zid : ℕ) : Prop :=
  (1 < zpp.diesPerZone → spp.pgsPerOneshotpg < zpp.pagesPerZone →
    spp.pgsPerOneshotpg ∣ zpp.lostPages zid) ∧
  ∀ i j, i < j → j < i + zpp.diesPerZone → j * spp.pgsPerOneshotpg < zpp.pagesPerZone →
    ¬ SameFields spp.nchs (zpp.dieNumber spp zid (i * spp.pgsPerOneshotpg))
      (zpp.dieNumber spp zid (j * spp.pgsPerOneshotpg))

/-- The dies a zone has pages on. -/
def diesUsed : ℕ :=
  min zpp.diesPerZone ((zpp.pagesPerZone + spp.pgsPerOneshotpg - 1) / spp.pgsPerOneshotpg)

end Znsparams

/-- The number of dies is an `int`. -/
theorem ssdInitParams_ttLuns_lt {capacity nparts : ℕ} {cfg : FtlConfigs} {spp : Ssdparams}
    (h : ssdInitParams capacity nparts cfg = .ok spp) : spp.ttLuns < 2 ^ 31 := by
  unfold ssdInitParams at h
  simp only [bind_eq_ok, toInt_eq_ok] at h
  obtain ⟨_, -, _, -, _, -, _, -, _, -, _, -, _, -, _, -, _, -, _, -, _, -, _, -, _, ⟨hlt, rfl⟩, h⟩ :=
    h
  cases h
  exact hlt

/-- What a placement depends on: the geometry, and how many dies there are. -/
structure ZonedDies (zpp : Znsparams) (spp : Ssdparams) : Prop where
  geometry : ZnsGeometry zpp spp
  divisors : spp.Divisors
  ttLuns : spp.ttLuns = spp.lunsPerCh * spp.nchs
  ttLuns_lt : spp.ttLuns < 2 ^ 31
  diesPerZone : 1 ≤ zpp.diesPerZone ∧ zpp.diesPerZone ≤ spp.ttLuns

namespace ZonedDies

variable {zpp : Znsparams} {spp : Ssdparams} {pages lpn zid page page' : ℕ}

theorem pagesPerZone_pos (g : ZonedDies zpp spp) : 0 < zpp.pagesPerZone := by
  have hal := g.geometry.aligned
  have hpos := g.geometry.zoneSize
  unfold Znsparams.pagesPerZone
  omega

theorem dieNumber_lt (g : ZonedDies zpp spp) (zid page : ℕ) :
    zpp.dieNumber spp zid page < 2 * (spp.lunsPerCh * spp.nchs) := by
  obtain ⟨hd1, hd2⟩ := g.diesPerZone
  have hs : zpp.firstDie spp zid < spp.ttLuns := Nat.mod_lt _ g.divisors.ttLuns
  have hi := Nat.mod_lt ((zpp.lostPages zid + page) / spp.pgsPerOneshotpg)
    (show 0 < zpp.diesPerZone from hd1)
  rw [← g.ttLuns]
  unfold Znsparams.dieNumber
  omega

/-- **The address of a page** is that of its die number. -/
theorem lpnToPpa_eq (g : ZonedDies zpp spp) (hlpn : lpn < 2 ^ 64) :
    ∃ pg, zpp.lpnToPpa spp lpn = .ok (Ppa.ofFields
      (zpp.dieNumber spp (lpn / zpp.pagesPerZone) (lpn % zpp.pagesPerZone) % spp.nchs)
      (zpp.dieNumber spp (lpn / zpp.pagesPerZone) (lpn % zpp.pagesPerZone) / spp.nchs) 0 0 pg) := by
  obtain ⟨hd1, hd2⟩ := g.diesPerZone
  have htt := g.ttLuns_lt
  have hzone : zpp.lpnToZone spp lpn = lpn / zpp.pagesPerZone % 2 ^ 32 := by
    unfold Znsparams.lpnToZone
    rw [g.geometry.pgsz]
    rfl
  have hslpn : zpp.zoneToSlpn spp (lpn / zpp.pagesPerZone % 2 ^ 32)
      = lpn / zpp.pagesPerZone * zpp.pagesPerZone % 2 ^ 32 := by
    unfold Znsparams.zoneToSlpn
    rw [g.geometry.pgsz]
    exact Nat.mod_mul_mod _ _ _
  have hoff : u64 (lpn + 2 ^ 64 - lpn / zpp.pagesPerZone * zpp.pagesPerZone % 2 ^ 32)
      = zpp.lostPages (lpn / zpp.pagesPerZone) + lpn % zpp.pagesPerZone := by
    have := Nat.div_add_mod' lpn zpp.pagesPerZone
    unfold Znsparams.lostPages u64
    omega
  have hproduct : lpn / zpp.pagesPerZone % 2 ^ 32 * zpp.diesPerZone < 2 ^ 64 :=
    calc lpn / zpp.pagesPerZone % 2 ^ 32 * zpp.diesPerZone ≤ 2 ^ 32 * 2 ^ 31 :=
          Nat.mul_le_mul (Nat.mod_lt _ (by norm_num)).le (hd2.trans htt.le)
      _ < 2 ^ 64 := by norm_num
  have hs : zpp.firstDie spp (lpn / zpp.pagesPerZone) < spp.ttLuns :=
    Nat.mod_lt _ g.divisors.ttLuns
  have hdie := g.dieNumber_lt (lpn / zpp.pagesPerZone) (lpn % zpp.pagesPerZone)
  rw [← g.ttLuns] at hdie
  refine ⟨(zpp.lostPages (lpn / zpp.pagesPerZone) + lpn % zpp.pagesPerZone) % spp.pgsPerOneshotpg, ?_⟩
  unfold Znsparams.lpnToPpa
  rw [defined_bind ⟨g.divisors.ttLuns, by omega, g.divisors.nchs, g.divisors.oneshotpg⟩]
  dsimp only
  rw [hzone, hslpn, hoff, u64_of_lt hproduct,
    show u32 (lpn / zpp.pagesPerZone % 2 ^ 32 * zpp.diesPerZone % spp.ttLuns)
      = zpp.firstDie spp (lpn / zpp.pagesPerZone) from u32_of_lt (lt_trans hs (by omega)),
    show u32 (zpp.firstDie spp (lpn / zpp.pagesPerZone) + _) = zpp.dieNumber spp _ _ from
      u32_of_lt (lt_trans hdie (by omega))]
  rfl

/-- A page of a zone by its number. -/
theorem page_of_zone (hpage : page < zpp.pagesPerZone) (zid : ℕ) :
    (zid * zpp.pagesPerZone + page) / zpp.pagesPerZone = zid ∧
      (zid * zpp.pagesPerZone + page) % zpp.pagesPerZone = page := by
  have hpos : 0 < zpp.pagesPerZone := by omega
  rw [mul_comm zid, Nat.mul_add_div hpos, Nat.div_eq_of_lt hpage, add_zero, Nat.mul_add_mod,
    Nat.mod_eq_of_lt hpage]
  exact ⟨rfl, rfl⟩

/-- It is one of the namespace. -/
theorem page_lt (hpages : zpp.pagesPerZone ∣ pages) (hpage : page < zpp.pagesPerZone)
    (hz : zid < pages / zpp.pagesPerZone) : zid * zpp.pagesPerZone + page < pages := by
  obtain ⟨n, rfl⟩ := hpages
  rw [Nat.mul_div_cancel_left _ (by omega)] at hz
  calc zid * zpp.pagesPerZone + page < (zid + 1) * zpp.pagesPerZone := by rw [Nat.succ_mul]; omega
    _ ≤ zpp.pagesPerZone * n := by rw [mul_comm]; exact Nat.mul_le_mul_left _ hz

/-- **A page is on the device** exactly if its die number is not behind the last die. -/
theorem onDevice_iff (g : ZonedDies zpp spp) (hlpn : lpn < 2 ^ 64) :
    (∃ ppa, zpp.lpnToPpa spp lpn = .ok ppa ∧ ppa.ch < spp.nchs ∧ ppa.lun < spp.lunsPerCh) ↔
      zpp.dieNumber spp (lpn / zpp.pagesPerZone) (lpn % zpp.pagesPerZone) < spp.ttLuns ∨
        2 ^ 8 * spp.nchs ≤ zpp.dieNumber spp (lpn / zpp.pagesPerZone) (lpn % zpp.pagesPerZone) := by
  obtain ⟨pg, heq⟩ := g.lpnToPpa_eq hlpn
  rw [g.ttLuns, ← lun_lt_iff g.divisors.nchs (g.dieNumber_lt _ _)]
  constructor
  · rintro ⟨ppa, hppa, -, hlun⟩
    rw [heq] at hppa
    cases hppa
    exact hlun
  · intro hlun
    have hch := Nat.mod_lt (zpp.dieNumber spp (lpn / zpp.pagesPerZone) (lpn % zpp.pagesPerZone))
      g.divisors.nchs
    exact ⟨_, heq, lt_of_le_of_lt (Nat.mod_le _ _) hch, hlun⟩

/-- **Two pages are on one die** exactly if the fields of their die numbers are the same. -/
theorem sameDie_iff (g : ZonedDies zpp spp) {lpn' : ℕ} (hlpn : lpn < 2 ^ 64) (hlpn' : lpn' < 2 ^ 64) :
    (∀ ppa ppa', zpp.lpnToPpa spp lpn = .ok ppa → zpp.lpnToPpa spp lpn' = .ok ppa' →
      ¬ (ppa.ch = ppa'.ch ∧ ppa.lun = ppa'.lun)) ↔
    ¬ SameFields spp.nchs (zpp.dieNumber spp (lpn / zpp.pagesPerZone) (lpn % zpp.pagesPerZone))
      (zpp.dieNumber spp (lpn' / zpp.pagesPerZone) (lpn' % zpp.pagesPerZone)) := by
  obtain ⟨pg, heq⟩ := g.lpnToPpa_eq hlpn
  obtain ⟨pg', heq'⟩ := g.lpnToPpa_eq hlpn'
  constructor
  · exact fun h => h _ _ heq heq'
  · intro h ppa ppa' hppa hppa'
    rw [heq] at hppa
    rw [heq'] at hppa'
    cases hppa
    cases hppa'
    exact h

/-- Where whole one-shot pages are lost, the pages of a one-shot page have one die number. -/
theorem dieNumber_oneshot (g : ZonedDies zpp spp) (hlost : spp.pgsPerOneshotpg ∣ zpp.lostPages zid)
    (page : ℕ) : zpp.dieNumber spp zid (page / spp.pgsPerOneshotpg * spp.pgsPerOneshotpg)
      = zpp.dieNumber spp zid page := by
  obtain ⟨n, hn⟩ := hlost
  have hP := g.divisors.oneshotpg
  unfold Znsparams.dieNumber
  rw [hn, Nat.mul_add_div hP, Nat.mul_add_div hP, Nat.mul_div_cancel _ hP]

/-- **The dies of a zone stay apart** exactly if its pages do. -/
theorem diesApart_iff (g : ZonedDies zpp spp) (zid : ℕ) :
    zpp.DiesApart spp zid ↔ ∀ page page', page < zpp.pagesPerZone → page' < zpp.pagesPerZone →
      page / spp.pgsPerOneshotpg < page' / spp.pgsPerOneshotpg →
      page' / spp.pgsPerOneshotpg < page / spp.pgsPerOneshotpg + zpp.diesPerZone →
      ¬ SameFields spp.nchs (zpp.dieNumber spp zid page) (zpp.dieNumber spp zid page') := by
  have hP := g.divisors.oneshotpg
  constructor
  · rintro ⟨hlost, hapart⟩ page page' hpage hpage' hlt hclose
    have hfirst := Nat.div_mul_le_self page' spp.pgsPerOneshotpg
    have hone := Nat.mul_le_mul_right spp.pgsPerOneshotpg (Nat.one_le_of_lt hlt)
    have hdvd := hlost (by omega) (by omega)
    have := hapart _ _ hlt hclose (by omega)
    rwa [g.dieNumber_oneshot hdvd, g.dieNumber_oneshot hdvd] at this
  · intro h
    refine ⟨fun hd hmany => ?_, fun i j hij hclose hj => ?_⟩
    · by_contra hno
      -- the second one-shot page begins on the die the first one ends on
      have hsame : zpp.dieNumber spp zid (spp.pgsPerOneshotpg - 1)
          = zpp.dieNumber spp zid spp.pgsPerOneshotpg := by
        unfold Znsparams.dieNumber
        rw [show zpp.lostPages zid + spp.pgsPerOneshotpg
            = zpp.lostPages zid + (spp.pgsPerOneshotpg - 1) + 1 by omega,
          Nat.succ_div_of_not_dvd]
        rwa [show zpp.lostPages zid + (spp.pgsPerOneshotpg - 1) + 1
          = zpp.lostPages zid + spp.pgsPerOneshotpg by omega, Nat.dvd_add_self_right]
      have hfirst : (spp.pgsPerOneshotpg - 1) / spp.pgsPerOneshotpg = 0 :=
        Nat.div_eq_of_lt (by omega)
      have hsecond := Nat.div_self hP
      refine h (spp.pgsPerOneshotpg - 1) spp.pgsPerOneshotpg (by omega) hmany (by omega) (by omega) ?_
      rw [hsame]
      exact ⟨rfl, rfl⟩
    · have hi := Nat.mul_le_mul_right spp.pgsPerOneshotpg hij.le
      refine h _ _ (by omega) hj ?_ ?_
      · rw [Nat.mul_div_cancel _ hP, Nat.mul_div_cancel _ hP]
        exact hij
      · rw [Nat.mul_div_cancel _ hP, Nat.mul_div_cancel _ hP]
        exact hclose

/-- **Exactly when the pages are placed on the device:** the dies of every zone stay on it and
apart. -/
theorem placement_iff (g : ZonedDies zpp spp) (hpages : pages ≤ 2 ^ 64)
    (hzones : zpp.pagesPerZone ∣ pages) :
    zpp.Placement spp pages ↔
      ∀ zid < pages / zpp.pagesPerZone, zpp.DiesStay spp zid ∧ zpp.DiesApart spp zid := by
  constructor
  · intro h zid hz
    refine ⟨fun page hpage => ?_, (g.diesApart_iff zid).2 fun page page' hpage hpage' hlt hclose => ?_⟩
    · have hlpn := page_lt hzones hpage hz
      have hstay := (g.onDevice_iff (lt_of_lt_of_le hlpn hpages)).1 (h.onDevice _ hlpn)
      rwa [(page_of_zone hpage zid).1, (page_of_zone hpage zid).2] at hstay
    · have hlpn := page_lt hzones hpage hz
      have hlpn' := page_lt hzones hpage' hz
      obtain ⟨hdiv, hmod⟩ := page_of_zone hpage zid
      obtain ⟨hdiv', hmod'⟩ := page_of_zone hpage' zid
      have hspread := h.spread _ hlpn _ hlpn' (hdiv.trans hdiv'.symm)
      unfold Znsparams.oneshotOf at hspread
      rw [hmod, hmod'] at hspread
      have hapart := (g.sameDie_iff (lt_of_lt_of_le hlpn hpages) (lt_of_lt_of_le hlpn' hpages)).1
        (hspread hlt hclose)
      rwa [hdiv, hmod, hdiv', hmod'] at hapart
  · intro h
    have hmod : ∀ lpn, lpn % zpp.pagesPerZone < zpp.pagesPerZone :=
      fun lpn => Nat.mod_lt _ g.pagesPerZone_pos
    constructor
    · intro lpn hlpn
      have hz := Nat.div_lt_div_of_lt_of_dvd hzones hlpn
      exact (g.onDevice_iff (lt_of_lt_of_le hlpn hpages)).2 ((h _ hz).1 _ (hmod lpn))
    · intro lpn hlpn lpn' hlpn' hzone hlt hclose
      have hz := Nat.div_lt_div_of_lt_of_dvd hzones hlpn
      refine (g.sameDie_iff (lt_of_lt_of_le hlpn hpages) (lt_of_lt_of_le hlpn' hpages)).2 ?_
      rw [← hzone]
      exact (g.diesApart_iff _).1 (h _ hz).2 _ _ (hmod lpn) (hmod lpn') hlt hclose

/-! ### Zones below page 2^32 -/

/-- A zone that begins below page 2^32 loses no pages. -/
theorem dieNumber_low (g : ZonedDies zpp spp) (hlow : zid * zpp.pagesPerZone < 2 ^ 32) (page : ℕ) :
    zpp.dieNumber spp zid page = zid * zpp.diesPerZone % spp.ttLuns
      + page / spp.pgsPerOneshotpg % zpp.diesPerZone := by
  have hzid := Nat.le_mul_of_pos_right zid g.pagesPerZone_pos
  unfold Znsparams.dieNumber Znsparams.firstDie Znsparams.lostPages
  rw [Nat.mod_eq_of_lt (lt_of_le_of_lt hzid hlow), Nat.div_eq_of_lt hlow, zero_mul, zero_add]

/-- A one-shot page of a zone lies on one of the dies the zone uses. -/
theorem oneshot_mod_lt (g : ZonedDies zpp spp) (hpage : page < zpp.pagesPerZone) :
    page / spp.pgsPerOneshotpg % zpp.diesPerZone < zpp.diesUsed spp := by
  have hP := g.divisors.oneshotpg
  have hi := Nat.mod_lt (page / spp.pgsPerOneshotpg) (show 0 < zpp.diesPerZone from g.diesPerZone.1)
  have hle := Nat.mod_le (page / spp.pgsPerOneshotpg) zpp.diesPerZone
  have hlt : page / spp.pgsPerOneshotpg
      < (zpp.pagesPerZone + spp.pgsPerOneshotpg - 1) / spp.pgsPerOneshotpg := by
    rw [Nat.lt_div_iff_mul_lt hP]
    have := Nat.div_mul_le_self page spp.pgsPerOneshotpg
    omega
  unfold Znsparams.diesUsed
  exact lt_min hi (lt_of_le_of_lt hle hlt)

/-- **Every die a zone uses holds a one-shot page of it,** the one of its number. -/
theorem oneshot_of_die (g : ZonedDies zpp spp) {k : ℕ} (hk : k < zpp.diesUsed spp) :
    k * spp.pgsPerOneshotpg < zpp.pagesPerZone ∧
      k * spp.pgsPerOneshotpg / spp.pgsPerOneshotpg % zpp.diesPerZone = k := by
  have hP := g.divisors.oneshotpg
  obtain ⟨hkd, hkq⟩ := lt_min_iff.1 hk
  rw [Nat.mul_div_cancel _ hP, Nat.mod_eq_of_lt hkd]
  have := (Nat.lt_div_iff_mul_lt hP).1 hkq
  exact ⟨by omega, rfl⟩

/-- **Its dies stay on the device** exactly if they end there, or a channel has the 2^8 dies at which
the field of the die begins again. -/
theorem diesStay_low (g : ZonedDies zpp spp) (hlow : zid * zpp.pagesPerZone < 2 ^ 32) :
    zpp.DiesStay spp zid ↔ 2 ^ 8 ≤ spp.lunsPerCh ∨
      zid * zpp.diesPerZone % spp.ttLuns + zpp.diesUsed spp ≤ spp.ttLuns := by
  have hn := g.divisors.nchs
  have hs := Nat.mod_lt (zid * zpp.diesPerZone) g.divisors.ttLuns
  constructor
  · intro h
    by_contra hno
    push Not at hno
    obtain ⟨hluns, hend⟩ := hno
    -- the die behind the last one of the device
    obtain ⟨hpage, hdie⟩ := g.oneshot_of_die
      (k := spp.ttLuns - zid * zpp.diesPerZone % spp.ttLuns) (by omega)
    have hstay := h _ hpage
    rw [g.dieNumber_low hlow, hdie, Nat.add_sub_cancel' hs.le, g.ttLuns] at hstay
    have hfew := Nat.mul_lt_mul_of_pos_right hluns hn
    omega
  · rintro h page hpage
    have hused := g.oneshot_mod_lt hpage
    rw [g.dieNumber_low hlow]
    rcases h with hluns | hend
    · have hmany := Nat.mul_le_mul_right spp.nchs hluns
      rw [g.ttLuns]
      omega
    · left
      omega

/-- **They stay apart** exactly if the rows of channels they lie in fit the fields of a `ppa`. -/
theorem diesApart_low (g : ZonedDies zpp spp) (hlow : zid * zpp.pagesPerZone < 2 ^ 32) :
    zpp.DiesApart spp zid ↔
      RowsFit spp.nchs (zid * zpp.diesPerZone % spp.ttLuns) (zpp.diesUsed spp) := by
  rw [g.diesApart_iff, rowsFit_iff g.divisors.nchs]
  constructor
  · intro h a b hab hb
    obtain ⟨ha, hdieA⟩ := g.oneshot_of_die (hab.trans hb)
    obtain ⟨hb', hdieB⟩ := g.oneshot_of_die hb
    have hbd : b < zpp.diesPerZone := lt_of_lt_of_le hb (min_le_left _ _)
    have hP := g.divisors.oneshotpg
    have happ := h _ _ ha hb' (by rwa [Nat.mul_div_cancel _ hP, Nat.mul_div_cancel _ hP])
      (by rw [Nat.mul_div_cancel _ hP, Nat.mul_div_cancel _ hP]; omega)
    rwa [g.dieNumber_low hlow, g.dieNumber_low hlow, hdieA, hdieB] at happ
  · intro h page page' hpage hpage' hlt hclose
    rw [g.dieNumber_low hlow, g.dieNumber_low hlow]
    have hi := g.oneshot_mod_lt hpage
    have hi' := g.oneshot_mod_lt hpage'
    rcases Nat.lt_or_gt_of_ne (mod_ne_of_lt hlt hclose) with hbefore | hbehind
    · exact h _ _ hbefore hi'
    · exact fun hsame => h _ _ hbehind hi ⟨hsame.1.symm, hsame.2.symm⟩

/-- The dies of a namespace whose parameters were accepted. -/
theorem of_init {size : ℕ} {cfg : FtlConfigs} {zcfg : ZnsConfigs} {prior : Znsparams}
    (hspp : ssdInitParams size 1 cfg = .ok spp) (hzpp : znsInitParams prior spp size zcfg = .ok zpp)
    (hdies : 1 ≤ zpp.diesPerZone ∧ zpp.diesPerZone ≤ spp.ttLuns) : ZonedDies zpp spp where
  geometry := (znsInitParams_geometry hspp hzpp).1
  divisors := ssdInitParams_divisors hspp
  ttLuns := ssdInitParams_ttLuns hspp
  ttLuns_lt := ssdInitParams_ttLuns_lt hspp
  diesPerZone := hdies

end ZonedDies

/-- The pages of a namespace are those of its zones. -/
theorem znsInitParams_pages {size : ℕ} {cfg : FtlConfigs} {zcfg : ZnsConfigs} {prior : Znsparams}
    {spp : Ssdparams} {zpp : Znsparams} (hspp : ssdInitParams size 1 cfg = .ok spp)
    (hzpp : znsInitParams prior spp size zcfg = .ok zpp) :
    size / 4096 = size / zpp.zoneSize * zpp.pagesPerZone := by
  have hal := (znsInitParams_geometry hspp hzpp).1.aligned
  have hpos := (znsInitParams_geometry hspp hzpp).1.zoneSize
  unfold znsInitParams at hzpp
  simp only [bind_eq_ok, defined_eq_ok, nvmevAssert_eq_ok] at hzpp
  obtain ⟨_, -, _, -, _, hsize, _, -, h⟩ := hzpp
  cases h
  obtain ⟨n, hn⟩ := Nat.dvd_of_mod_eq_zero hsize
  obtain ⟨m, hm⟩ := Nat.dvd_of_mod_eq_zero hal
  unfold Znsparams.pagesPerZone
  dsimp only at hn hm hpos ⊢
  rw [hn, Nat.mul_div_cancel_left _ hpos, hm, mul_assoc, Nat.mul_div_cancel_left _ (by norm_num),
    Nat.mul_div_cancel_left _ (by norm_num), mul_comm]

/-- **Exactly when a zoned namespace is placed on its device:** with any parameters the
initialization accepts, every page below the capacity is on a die of the device and one-shot pages
in a row are on different dies if and only if the dies of every zone stay on the device and
apart. -/
theorem znsInitParams_placement_iff {size : ℕ} {cfg : FtlConfigs} {zcfg : ZnsConfigs}
    {prior : Znsparams} {spp : Ssdparams} {zpp : Znsparams} (hsize : size < 2 ^ 64)
    (hspp : ssdInitParams size 1 cfg = .ok spp) (hzpp : znsInitParams prior spp size zcfg = .ok zpp)
    (hdies : 1 ≤ zpp.diesPerZone ∧ zpp.diesPerZone ≤ spp.ttLuns) :
    zpp.Placement spp (size / 4096) ↔
      ∀ zid < size / zpp.zoneSize, zpp.DiesStay spp zid ∧ zpp.DiesApart spp zid := by
  have g := ZonedDies.of_init hspp hzpp hdies
  have heq := znsInitParams_pages hspp hzpp
  rw [g.placement_iff ((Nat.div_le_self _ _).trans hsize.le) ⟨_, heq.trans (mul_comm _ _)⟩, heq,
    Nat.mul_div_cancel _ g.pagesPerZone_pos]

/-- **Up to 2^32 pages** that is: every zone ends on the device or a channel has 2^8 dies, and the
rows of channels a zone lies in fit the fields of a `ppa`. -/
theorem placement_iff_low {size : ℕ} {cfg : FtlConfigs} {zcfg : ZnsConfigs} {prior : Znsparams}
    {spp : Ssdparams} {zpp : Znsparams} (hspp : ssdInitParams size 1 cfg = .ok spp)
    (hzpp : znsInitParams prior spp size zcfg = .ok zpp)
    (hdies : 1 ≤ zpp.diesPerZone ∧ zpp.diesPerZone ≤ spp.ttLuns) (hpages : size / 4096 ≤ 2 ^ 32) :
    zpp.Placement spp (size / 4096) ↔ ∀ zid < size / zpp.zoneSize,
      (2 ^ 8 ≤ spp.lunsPerCh ∨
        zid * zpp.diesPerZone % spp.ttLuns + zpp.diesUsed spp ≤ spp.ttLuns) ∧
      RowsFit spp.nchs (zid * zpp.diesPerZone % spp.ttLuns) (zpp.diesUsed spp) := by
  have g := ZonedDies.of_init hspp hzpp hdies
  have heq := znsInitParams_pages hspp hzpp
  rw [g.placement_iff (hpages.trans (by norm_num)) ⟨_, heq.trans (mul_comm _ _)⟩, heq,
    Nat.mul_div_cancel _ g.pagesPerZone_pos]
  refine forall₂_congr fun zid hz => ?_
  have hlow : zid * zpp.pagesPerZone < 2 ^ 32 :=
    calc zid * zpp.pagesPerZone < size / zpp.zoneSize * zpp.pagesPerZone :=
          Nat.mul_lt_mul_of_pos_right hz g.pagesPerZone_pos
      _ ≤ 2 ^ 32 := heq ▸ hpages
  exact and_congr (g.diesStay_low hlow) (g.diesApart_low hlow)

/-- Two channels of two dies. -/
def fourDies : FtlConfigs := { oneDie with nandChannels := 2, lunsPerNandCh := 2 }

/-- Zones of three one-shot pages on the given number of dies. -/
def threePageZones (dies : ℕ) : ZnsConfigs where
  zoneSize := 12288
  diesPerZone := dies
  zoneWbSize := 0
  maxZrwaZones := 0
  zrwafgSize := 0
  zrwaSize := 0
  zrwaBufferSize := 0

/-- Zones on two of four dies: the first page of the second zone is on the second die of the first
channel. -/
theorem znsInitParams_placement_iff_pairs : ∃ spp zpp,
    ssdInitParams 24576 1 fourDies = .ok spp ∧
    znsInitParams zrwaPrior spp 24576 (threePageZones 2) = .ok zpp ∧
    zpp.Placement spp (24576 / 4096) ∧ zpp.lpnToPpa spp 3 = .ok ⟨0, 0, 0, 1, 0, 0⟩ := by
  obtain ⟨spp, hspp⟩ : ∃ spp, ssdInitParams 24576 1 fourDies = .ok spp := ⟨_, rfl⟩
  obtain ⟨zpp, hzpp⟩ : ∃ zpp, znsInitParams zrwaPrior spp 24576 (threePageZones 2) = .ok zpp := by
    cases hspp
    exact ⟨_, rfl⟩
  have hdies : 1 ≤ zpp.diesPerZone ∧ zpp.diesPerZone ≤ spp.ttLuns := by
    cases hspp
    cases hzpp
    decide
  refine ⟨spp, zpp, hspp, hzpp,
    (znsInitParams_placement_iff (by norm_num) hspp hzpp hdies).2 fun zid hlt => ?_, ?_⟩
  · have g := ZonedDies.of_init hspp hzpp hdies
    have hz : zid = 0 ∨ zid = 1 := by
      cases hspp
      cases hzpp
      have hlt : zid < 2 := hlt
      omega
    clear hlt
    have hlow : zid * zpp.pagesPerZone < 2 ^ 32 := by
      cases hspp
      cases hzpp
      rcases hz with rfl | rfl
      · decide
      · decide
    rw [g.diesStay_low hlow, g.diesApart_low hlow]
    cases hspp
    cases hzpp
    refine ⟨.inr ?_, .inl (by decide)⟩
    rcases hz with rfl | rfl
    · decide
    · decide
  · cases hspp
    cases hzpp
    rfl

/-- **Three of four dies are too many:** the second zone begins on the last die, and its second
page is placed on a third die of the first channel, which has two. -/
theorem threeOfFourDies_not_placement : ∃ spp zpp,
    ssdInitParams 24576 1 fourDies = .ok spp ∧
    znsInitParams zrwaPrior spp 24576 (threePageZones 3) = .ok zpp ∧
    (1 ≤ zpp.diesPerZone ∧ zpp.diesPerZone ≤ spp.ttLuns) ∧ spp.lunsPerCh = 2 ∧
    zpp.lpnToPpa spp 4 = .ok ⟨0, 0, 0, 2, 0, 0⟩ ∧ ¬ zpp.Placement spp (24576 / 4096) := by
  obtain ⟨spp, hspp⟩ : ∃ spp, ssdInitParams 24576 1 fourDies = .ok spp := ⟨_, rfl⟩
  obtain ⟨zpp, hzpp⟩ : ∃ zpp, znsInitParams zrwaPrior spp 24576 (threePageZones 3) = .ok zpp := by
    cases hspp
    exact ⟨_, rfl⟩
  refine ⟨spp, zpp, hspp, hzpp, ?_, ?_, ?_, fun h => ?_⟩
  · cases hspp
    cases hzpp
    decide
  · cases hspp
    rfl
  · cases hspp
    cases hzpp
    rfl
  · obtain ⟨ppa, hppa, -, hlun⟩ := h.onDevice 4 (by norm_num)
    cases hspp
    cases hzpp
    cases hppa
    exact absurd hlun (by decide)

end NvmeVirt
