import Mathlib.Data.Prod.Lex
import Libtrace.TimeConversion

/-! Timestamps are in the order of the times they come from, and times that come from timestamps are
normalised and in their order. -/

namespace Libtrace.TimestampOrder
open Rescale TimeConversion

def timespecOf (ts : UInt64) : Timespec :=
  let sec := ts >>> 32
  let nsec := ((ts &&& 0xFFFFFFFF) * 1000000000) >>> 32
  if 1000000000 ≤ nsec then ⟨sec.toNat + 1, nsec.toNat - 1000000000⟩ else ⟨sec.toNat, nsec.toNat⟩

def getTimespec (nanos : Seconds → Timespec) (c : Clock) : Timespec :=
  match c.timespec, c.erfTimestamp, c.timeval, c.seconds with
  | some ts, _, _, _ => ts
  | none, some ts, _, _ => timespecOf ts
  | none, none, some tv, _ => ⟨tv.sec, tv.usec * 1000⟩
  | none, none, none, some s => nanos s
  | none, none, none, none => ⟨-1, -1⟩

section

def checked (n : Nat) : Option UInt64 := if n < 2 ^ 64 then some (.ofNat n) else none

def checkedStamp (sec units : Int) (scale : UInt64) : Option UInt64 := do
  let whole ← checked ((UInt64.ofInt sec).toNat <<< 32)
  let part ← checked ((UInt64.ofInt units).toNat <<< 32)
  checked (whole.toNat + (part / scale).toNat)

/-- By way of a product that 64 bits hold. -/
def checkedTime (scale ts : UInt64) : Option (Int × Int) := do
  let product ← checked ((ts &&& 0xFFFFFFFF).toNat * scale.toNat)
  let sec := ts >>> 32
  let units := product >>> 32
  return if scale ≤ units then (sec.toNat + 1, units.toNat - scale.toNat)
    else (sec.toNat, units.toNat)

variable {n : Nat}

theorem shiftLeft_lt (h : n < 2 ^ 32) : n <<< 32 < 2 ^ 64 := by
  omega

theorem checked_of_lt (h : n < 2 ^ 64) : checked n = some (.ofNat n) := if_pos h

end

structure Normal (scale : Nat) (sec units : Int) : Prop where
  sec_nonneg : 0 ≤ sec
  sec_lt : sec < 2 ^ 32
  units_nonneg : 0 ≤ units
  units_lt : units < scale

/-- Times become timestamps in the same order, with the seconds as the upper half, without
overflow. -/
structure OrderlyStamps (scale : UInt64) (convert : Int → Int → UInt64) : Prop where
  lt_iff : ∀ sec units sec' units', Normal scale.toNat sec units → Normal scale.toNat sec' units' →
    (convert sec units < convert sec' units' ↔ toLex (sec, units) < toLex (sec', units'))
  upper : ∀ sec units, Normal scale.toNat sec units → ((convert sec units >>> 32).toNat : Int) = sec
  exact : ∀ sec units, Normal scale.toNat sec units →
    checkedStamp sec units scale = some (convert sec units)

/-- Timestamps become normalised times in the same order, with the upper half as the seconds,
without overflow. -/
structure OrderlyTimes (scale : UInt64) (convert : UInt64 → Int × Int) : Prop where
  sec : ∀ ts, (convert ts).1 = (ts >>> 32).toNat
  units : ∀ ts, 0 ≤ (convert ts).2 ∧ (convert ts).2 < scale.toNat
  mono : ∀ ts ts', ts ≤ ts' → toLex (convert ts) ≤ toLex (convert ts')
  exact : ∀ ts, checkedTime scale ts = some (convert ts)

section

variable {scale : UInt64}

variable {sec units : Int}

section

variable (hscale : scale.toNat ≤ 2 ^ 32) (h : Normal scale.toNat sec units)
include hscale h

theorem stamp_normal :
    ∃ s u : Nat, sec = s ∧ units = u ∧ s < 2 ^ 32 ∧
      u < scale.toNat ∧
      (stamp sec units scale).toNat = s * 2 ^ 32 + rescale (2 ^ 32) scale.toNat u := by
  obtain ⟨s, rfl⟩ := Int.eq_ofNat_of_zero_le h.sec_nonneg
  obtain ⟨u, rfl⟩ := Int.eq_ofNat_of_zero_le h.units_nonneg
  have hs : s < 2 ^ 32 := by have := h.sec_lt; omega
  have hu : u < scale.toNat := Int.ofNat_lt.mp h.units_lt
  exact ⟨s, u, rfl, rfl, hs, hu, toNat_stamp hs hu hscale⟩

theorem stamp_lt_iff {sec' units' : Int} (h' : Normal scale.toNat sec' units') :
    stamp sec units scale < stamp sec' units' scale ↔
      toLex (sec, units) < toLex (sec', units') := by
  obtain ⟨s, u, rfl, rfl, -, hu, hstamp⟩ := stamp_normal hscale h
  obtain ⟨s', u', rfl, rfl, -, hu', hstamp'⟩ := stamp_normal hscale h'
  have hpart := rescale_lt hu (show 0 < 2 ^ 32 by decide)
  have hpart' := rescale_lt hu' (show 0 < 2 ^ 32 by decide)
  have hunits : rescale (2 ^ 32) scale.toNat u < rescale (2 ^ 32) scale.toNat u' ↔ u < u' :=
    rescale_lt_iff hscale (by omega)
  rw [UInt64.lt_iff_toNat_lt, hstamp, hstamp', Prod.Lex.toLex_lt_toLex]
  simp only [Int.ofNat_lt, Int.ofNat_inj]
  omega

theorem stamp_upper :
    ((stamp sec units scale >>> 32).toNat : Int) = sec := by
  obtain ⟨s, u, rfl, rfl, -, hu, hstamp⟩ := stamp_normal hscale h
  have hpart := rescale_lt hu (show 0 < 2 ^ 32 by decide)
  have h32 : (32 : UInt64).toNat % 64 = 32 := rfl
  rw [UInt64.toNat_shiftRight, Nat.shiftRight_eq_div_pow, hstamp, h32]
  omega

theorem checkedStamp_eq :
    checkedStamp sec units scale = some (stamp sec units scale) := by
  obtain ⟨s, u, rfl, rfl, hs, hu, hstamp⟩ := stamp_normal hscale h
  have hu32 : u < 2 ^ 32 := Nat.lt_of_lt_of_le hu hscale
  have hs' : (UInt64.ofNat s).toNat = s := UInt64.toNat_ofNat_of_lt' (Nat.lt_trans hs (by decide))
  have hu' : (UInt64.ofNat u).toNat = u := UInt64.toNat_ofNat_of_lt' (Nat.lt_trans hu32 (by decide))
  have hsum : s <<< 32 + u <<< 32 / scale.toNat = (stamp s u scale).toNat := by
    rw [hstamp, Nat.shiftLeft_eq, Nat.shiftLeft_eq, rescale]
  rw [checkedStamp, ofInt_natCast, ofInt_natCast, hs', hu', checked_of_lt (shiftLeft_lt hs),
    checked_of_lt (shiftLeft_lt hu32)]
  simp only [Option.bind_eq_bind, Option.bind_some]
  rw [UInt64.toNat_div, UInt64.toNat_ofNat_of_lt' (shiftLeft_lt hs),
    UInt64.toNat_ofNat_of_lt' (shiftLeft_lt hu32), hsum, checked_of_lt (UInt64.toNat_lt _),
    UInt64.ofNat_toNat]

end

theorem orderlyStamps (hscale : scale.toNat ≤ 2 ^ 32) :
    OrderlyStamps scale fun sec units => stamp sec units scale where
  lt_iff _ _ _ _ h h' := stamp_lt_iff hscale h h'
  upper _ _ h := stamp_upper hscale h
  exact _ _ h := checkedStamp_eq hscale h

end

section

variable {scale : UInt64}

def timeOf (scale ts : UInt64) : Int × Int :=
  ((ts.toNat / 2 ^ 32 : Nat), (rescale scale.toNat (2 ^ 32) (ts.toNat % 2 ^ 32) : Nat))

theorem timeOf_mono (scale : UInt64) {ts ts' : UInt64} (h : ts ≤ ts') :
    toLex (timeOf scale ts) ≤ toLex (timeOf scale ts') := by
  rw [UInt64.le_iff_toNat_le] at h
  rw [Prod.Lex.toLex_le_toLex]
  simp only [timeOf, Int.ofNat_lt, Int.ofNat_inj, Int.ofNat_le]
  by_cases hsec : ts.toNat / 2 ^ 32 < ts'.toNat / 2 ^ 32
  · exact .inl hsec
  · exact .inr ⟨by omega, rescale_mono (by omega)⟩

theorem checkedTime_eq (hscale : scale.toNat ≤ 2 ^ 32) (hpos : 0 < scale.toNat) (ts : UInt64) :
    checkedTime scale ts = some (timeOf scale ts) := by
  have hproduct : UInt64.ofNat (ts.toNat % 2 ^ 32 * scale.toNat) = (ts &&& 0xFFFFFFFF) * scale := by
    rw [← (toNat_halves ts).2, UInt64.ofNat_mul, UInt64.ofNat_toNat, UInt64.ofNat_toNat]
  rw [checkedTime, (toNat_halves ts).2, checked_of_lt (product_lt hscale ts), hproduct]
  simp only [Option.bind_eq_bind, Option.bind_some, if_neg (not_le_units hscale hpos ts),
    toNat_units hscale, (toNat_halves ts).1, timeOf]
  rfl

theorem orderlyTimes (hscale : scale.toNat ≤ 2 ^ 32) (hpos : 0 < scale.toNat) :
    OrderlyTimes scale (timeOf scale) where
  sec ts := by rw [(toNat_halves ts).1, timeOf]
  units ts := ⟨Int.natCast_nonneg _,
    Int.ofNat_lt.mpr (rescale_lt (Nat.mod_lt _ (by decide)) hpos)⟩
  mono _ _ h := timeOf_mono scale h
  exact ts := checkedTime_eq hscale hpos ts

theorem timevalOf_timeOf (ts : UInt64) :
    timevalOf ts = ⟨(timeOf 1000000 ts).1, (timeOf 1000000 ts).2⟩ := by
  have hscale : (1000000 : UInt64).toNat ≤ 2 ^ 32 := by decide
  rw [timevalOf]
  simp only [if_neg (not_le_units hscale (by decide) ts), toNat_units hscale, (toNat_halves ts).1,
    timeOf]

theorem timespecOf_timeOf (ts : UInt64) :
    timespecOf ts = ⟨(timeOf 1000000000 ts).1, (timeOf 1000000000 ts).2⟩ := by
  have hscale : (1000000000 : UInt64).toNat ≤ 2 ^ 32 := by decide
  rw [timespecOf]
  simp only [if_neg (not_le_units hscale (by decide) ts), toNat_units hscale, (toNat_halves ts).1,
    timeOf]

theorem timeOf_coarsen (ts : UInt64) : (timeOf 1000000 ts).2 = (timeOf 1000000000 ts).2 / 1000 := by
  have hmicros : (1000000 : UInt64).toNat = 1000000 := rfl
  have hnanos : (1000000000 : UInt64).toNat = 1000000 * 1000 := rfl
  rw [timeOf, timeOf, hmicros, hnanos, ← rescale_coarsen (show 0 < 1000 by decide)]
  exact Int.natCast_div _ _

end

section

variable (nanos : Seconds → Timespec) (tv : Option Timeval) (spec : Option Timespec)
  (s : Option Seconds)

theorem getTimeval_erf (ts : UInt64) : getTimeval ⟨some ts, spec, none, s⟩ = timevalOf ts := rfl

theorem getTimespec_erf (ts : UInt64) : getTimespec nanos ⟨some ts, none, tv, s⟩ = timespecOf ts :=
  rfl

/-- The conversions keep the order and the seconds, and give normalised times without overflow. Of
the functions a format has, those that are looked at first decide. -/
theorem conversions_orderly :
    OrderlyStamps 1000000 (fun sec usec => getErfTimestamp ⟨none, none, some ⟨sec, usec⟩, s⟩) ∧
    OrderlyStamps 1000000000 (fun sec nsec => getErfTimestamp ⟨none, some ⟨sec, nsec⟩, tv, s⟩) ∧
    OrderlyTimes 1000000 (fun ts =>
      ((getTimeval ⟨some ts, spec, none, s⟩).sec, (getTimeval ⟨some ts, spec, none, s⟩).usec)) ∧
    OrderlyTimes 1000000000 (fun ts =>
      ((getTimespec nanos ⟨some ts, none, tv, s⟩).sec,
        (getTimespec nanos ⟨some ts, none, tv, s⟩).nsec)) ∧
    ∀ ts, (getTimeval ⟨some ts, spec, none, s⟩).usec =
      (getTimespec nanos ⟨some ts, none, tv, s⟩).nsec / 1000 := by
  refine ⟨orderlyStamps (by decide), orderlyStamps (by decide), ?_, ?_, fun ts => ?_⟩
  · have heq : (fun ts => ((getTimeval ⟨some ts, spec, none, s⟩).sec,
        (getTimeval ⟨some ts, spec, none, s⟩).usec)) = timeOf 1000000 := by
      funext ts
      rw [getTimeval_erf, timevalOf_timeOf]
    rw [heq]
    exact orderlyTimes (by decide) (by decide)
  · have heq : (fun ts => ((getTimespec nanos ⟨some ts, none, tv, s⟩).sec,
        (getTimespec nanos ⟨some ts, none, tv, s⟩).nsec)) = timeOf 1000000000 := by
      funext ts
      rw [getTimespec_erf, timespecOf_timeOf]
    rw [heq]
    exact orderlyTimes (by decide) (by decide)
  · rw [getTimeval_erf, getTimespec_erf, timevalOf_timeOf, timespecOf_timeOf]
    exact timeOf_coarsen ts

end

end Libtrace.TimestampOrder
