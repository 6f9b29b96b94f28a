import Mathlib.Logic.Function.Iterate
import Libtrace.ErfConversion
import Libtrace.PcapRecords
import Libtrace.Rescale

/-! The times of packets: `trace_get_erf_timestamp` and `trace_get_timeval`, and what is left of a
time after writing an ERF record and reading it back. -/

namespace Libtrace.TimeConversion
open Rescale ErfFile ErfRecords ErfConversion

structure Timeval where
  sec : Int
  usec : Int
  deriving DecidableEq, Repr

structure Timespec where
  sec : Int
  nsec : Int
  deriving DecidableEq, Repr

/-- A `double` by its whole seconds, the rest of it times `UINT_MAX`, and its microseconds. -/
structure Seconds where
  whole : UInt64
  rest : UInt64
  timeval : Timeval
  deriving DecidableEq, Repr

/-- What a format reports about the time of a packet. It has some of these functions. -/
structure Clock where
  erfTimestamp : Option UInt64
  timespec : Option Timespec
  timeval : Option Timeval
  seconds : Option Seconds
  deriving DecidableEq, Repr

def stamp (sec units : Int) (scale : UInt64) : UInt64 :=
  (UInt64.ofInt sec <<< 32) + (UInt64.ofInt units <<< 32) / scale

def getErfTimestamp (c : Clock) : UInt64 :=
  match c.erfTimestamp, c.timespec, c.timeval, c.seconds with
  | some ts, _, _, _ => ts
  | none, some ts, _, _ => stamp ts.sec ts.nsec 1000000000
  | none, none, some tv, _ => stamp tv.sec tv.usec 1000000
  | none, none, none, some s => (s.whole <<< 32) + s.rest
  | none, none, none, none => 0

def timevalOf (ts : UInt64) : Timeval :=
  let sec := ts >>> 32
  let usec := ((ts &&& 0xFFFFFFFF) * 1000000) >>> 32
  if 1000000 ≤ usec then ⟨sec.toNat + 1, usec.toNat - 1000000⟩ else ⟨sec.toNat, usec.toNat⟩

def getTimeval (c : Clock) : Timeval :=
  match c.timeval, c.erfTimestamp, c.timespec, c.seconds with
  | some tv, _, _, _ => tv
  | none, some ts, _, _ => timevalOf ts
  | none, none, some ts, _ => ⟨ts.sec, ts.nsec.tdiv 1000⟩
  | none, none, none, some s => s.timeval
  | none, none, none, none => ⟨-1, -1⟩

def erfClock (p : ErfPacket) : Clock :=
  ⟨some (.ofNat (ErfFile.getErfTimestamp p)), none, none, none⟩

/-- A format reports its time with `get_timeval` and perhaps with `get_timespec` too. -/
structure Reports (c : Clock) (tv : Timeval) : Prop where
  timeval : c.timeval = some tv
  erfTimestamp : c.erfTimestamp = none
  timespec : ∀ ts, c.timespec = some ts → ts.sec = tv.sec ∧ 0 ≤ ts.nsec ∧ ts.nsec / 1000 = tv.usec
  sec : 0 ≤ tv.sec ∧ tv.sec < 2 ^ 32
  usec : 0 ≤ tv.usec ∧ tv.usec < 1000000

def nanoseconds (c : Clock) (tv : Timeval) : Int :=
  match c.timespec with
  | some ts => ts.nsec
  | none => tv.usec * 1000

theorem ofInt_natCast (n : Nat) : UInt64.ofInt (n : Int) = UInt64.ofNat n := by
  have hmod : ((n : Int) % 2 ^ 64).toNat = n % 2 ^ 64 := by omega
  exact UInt64.ofNat_mod_size

theorem toNat_shift {n : Nat} (h : n < 2 ^ 32) : (UInt64.ofNat n <<< 32).toNat = n * 2 ^ 32 := by
  rw [UInt64.toNat_shiftLeft, UInt64.toNat_ofNat', Nat.shiftLeft_eq]
  have h32 : (32 : UInt64).toNat % 64 = 32 := rfl
  rw [h32]
  omega

variable {sec : Nat} {scale : UInt64}

theorem toNat_stamp {units : Nat} (hsec : sec < 2 ^ 32) (hunits : units < scale.toNat)
    (hscale : scale.toNat ≤ 2 ^ 32) :
    (stamp sec units scale).toNat = sec * 2 ^ 32 + rescale (2 ^ 32) scale.toNat units := by
  have hrest := rescale_lt hunits (show 0 < 2 ^ 32 by decide)
  rw [stamp, ofInt_natCast, ofInt_natCast, UInt64.toNat_add, UInt64.toNat_div,
    toNat_shift hsec, toNat_shift (by omega)]
  change (_ + rescale (2 ^ 32) scale.toNat units) % 2 ^ 64 = _
  omega

theorem toNat_halves (ts : UInt64) :
    (ts >>> 32).toNat = ts.toNat / 2 ^ 32 ∧ (ts &&& 0xFFFFFFFF).toNat = ts.toNat % 2 ^ 32 := by
  have h32 : (32 : UInt64).toNat % 64 = 32 := rfl
  have hmask : (0xFFFFFFFF : UInt64).toNat = 2 ^ 32 - 1 := rfl
  constructor
  · rw [UInt64.toNat_shiftRight, Nat.shiftRight_eq_div_pow, h32]
  · rw [UInt64.toNat_and, hmask, Nat.and_two_pow_sub_one_eq_mod]

theorem product_lt (hscale : scale.toNat ≤ 2 ^ 32) (ts : UInt64) :
    ts.toNat % 2 ^ 32 * scale.toNat < 2 ^ 64 :=
  calc
    ts.toNat % 2 ^ 32 * scale.toNat ≤ ts.toNat % 2 ^ 32 * 2 ^ 32 := Nat.mul_le_mul_left _ hscale
    _ < 2 ^ 64 := by omega

theorem toNat_units (hscale : scale.toNat ≤ 2 ^ 32) (ts : UInt64) :
    (((ts &&& 0xFFFFFFFF) * scale) >>> 32).toNat =
      rescale scale.toNat (2 ^ 32) (ts.toNat % 2 ^ 32) := by
  have h32 : (32 : UInt64).toNat % 64 = 32 := rfl
  rw [UInt64.toNat_shiftRight, UInt64.toNat_mul, (toNat_halves ts).2, h32,
    Nat.shiftRight_eq_div_pow, Nat.mod_eq_of_lt (product_lt hscale ts), rescale]

theorem not_le_units (hscale : scale.toNat ≤ 2 ^ 32) (hpos : 0 < scale.toNat) (ts : UInt64) :
    ¬ scale ≤ ((ts &&& 0xFFFFFFFF) * scale) >>> 32 := by
  rw [UInt64.le_iff_toNat_le, toNat_units hscale]
  exact Nat.not_le.mpr (rescale_lt (Nat.mod_lt _ (by decide)) hpos)

theorem timevalOf_eq {ts : UInt64} {frac : Nat} (h : ts.toNat = sec * 2 ^ 32 + frac)
    (hfrac : frac < 2 ^ 32) : timevalOf ts = ⟨sec, rescale 1000000 (2 ^ 32) frac⟩ := by
  have hscale : (1000000 : UInt64).toNat ≤ 2 ^ 32 := by decide
  have hsec : ts.toNat / 2 ^ 32 = sec := by omega
  have hlow : ts.toNat % 2 ^ 32 = frac := by omega
  rw [timevalOf]
  simp only [if_neg (not_le_units hscale (by decide) ts), toNat_units hscale, (toNat_halves ts).1,
    hsec, hlow]
  rfl

theorem timevalOf_stamp {units : Nat} (hsec : sec < 2 ^ 32) (hunits : units < scale.toNat)
    (hscale : scale.toNat ≤ 2 ^ 32) :
    timevalOf (stamp sec units scale) =
      ⟨sec, rescale 1000000 (2 ^ 32) (rescale (2 ^ 32) scale.toNat units)⟩ :=
  timevalOf_eq (toNat_stamp hsec hunits hscale) (rescale_lt hunits (by decide))

theorem micros_back_iff (usec : Nat) :
    rescale 1000000 (2 ^ 32) (rescale (2 ^ 32) 1000000 usec) = usec ↔ usec % 15625 = 0 := by
  have hcancel : 64 * 15625 ∣ 64 * (usec * 2 ^ 26) ↔ 15625 ∣ usec := by
    rw [Nat.mul_dvd_mul_iff_left (by decide)]
    exact ⟨Nat.Coprime.dvd_of_dvd_mul_right (by decide), fun h => Nat.dvd_mul_right_of_dvd h _⟩
  have hfactor : usec * 2 ^ 32 = 64 * (usec * 2 ^ 26) := by omega
  rw [rescale_back_iff (by decide), hfactor, ← Nat.dvd_iff_mod_eq_zero]
  exact hcancel

theorem nanos_back_iff (nsec : Nat) :
    rescale 1000000 (2 ^ 32) (rescale (2 ^ 32) 1000000000 nsec) = nsec / 1000 ↔
      nsec % 1000 ≠ 0 ∨ nsec / 1000 % 15625 = 0 := by
  by_cases hover : nsec % 1000 = 0
  · have hwhole : nsec = nsec / 1000 * 1000 := by omega
    have hscale : rescale (2 ^ 32) (1000000 * 1000) (nsec / 1000 * 1000) =
      rescale (2 ^ 32) 1000000 (nsec / 1000) := rescale_mul (by decide)
    rw [← hwhole] at hscale
    rw [hscale, micros_back_iff]
    simp [hover]
  · have hfine : rescale 1000000 (2 ^ 32) (rescale (2 ^ 32) (1000000 * 1000) nsec) = nsec / 1000 :=
      rescale_fine (by decide) (by decide) (by decide) hover
    exact iff_of_true hfine (.inl hover)

/-- Each conversion to ERF and back takes one off, down to a multiple of 1/64 of a second. -/
theorem micros_drift (usec k : Nat) :
    (fun n => rescale 1000000 (2 ^ 32) (rescale (2 ^ 32) 1000000 n))^[k] usec =
      max (usec - k) (usec - usec % 15625) := by
  induction k with
  | zero => simp
  | succ k ih =>
    rw [Function.iterate_succ_apply', ih]
    by_cases hstop : max (usec - k) (usec - usec % 15625) % 15625 = 0
    · rw [(micros_back_iff _).mpr hstop]
      omega
    · have hdvd : ¬ 1000000 ∣ max (usec - k) (usec - usec % 15625) * 2 ^ 32 := fun hdvd =>
        hstop ((micros_back_iff _).mp ((rescale_back_iff (by decide)).mpr hdvd))
      rw [rescale_back_pred (by decide) (by decide) hdvd]
      omega

theorem timeval_eq_iff {usec usec' : Nat} :
    (⟨sec, usec⟩ : Timeval) = ⟨sec, usec'⟩ ↔ usec = usec' := by
  rw [Timeval.mk.injEq]
  exact (and_iff_right rfl).trans Int.ofNat_inj

theorem timevalOf_reported {c : Clock} {tv : Timeval} (h : Reports c tv) :
    timevalOf (getErfTimestamp c) = tv ↔
      nanoseconds c tv % 1000 ≠ 0 ∨ tv.usec % 15625 = 0 := by
  obtain ⟨sec, hsec⟩ := Int.eq_ofNat_of_zero_le h.sec.1
  obtain ⟨usec, husec⟩ := Int.eq_ofNat_of_zero_le h.usec.1
  have hsec' : sec < 2 ^ 32 := by have := h.sec.2; omega
  have husec' : usec < 1000000 := by have := h.usec.2; omega
  obtain ⟨_, _⟩ := tv
  subst hsec husec
  cases hspec : c.timespec with
  | none =>
    have hstamp : getErfTimestamp c = stamp sec usec 1000000 := by
      simp only [getErfTimestamp, h.erfTimestamp, hspec, h.timeval]
    rw [hstamp, timevalOf_stamp hsec' husec' (by decide), timeval_eq_iff]
    refine (micros_back_iff usec).trans ?_
    simp only [nanoseconds, hspec]
    omega
  | some ts =>
    obtain ⟨hs, hn, hu⟩ := h.timespec ts hspec
    obtain ⟨n, hn⟩ := Int.eq_ofNat_of_zero_le hn
    have hu : (n : Int) / 1000 = usec := hn ▸ hu
    have hmicros : usec = n / 1000 := by omega
    have hstamp : getErfTimestamp c = stamp sec n 1000000000 := by
      simp only [getErfTimestamp, h.erfTimestamp, hspec, hs, hn]
    rw [hstamp, timevalOf_stamp hsec' (show n < 1000000000 by omega) (by decide), timeval_eq_iff,
      hmicros]
    refine (nanos_back_iff n).trans ?_
    simp only [nanoseconds, hspec, hn]
    omega

theorem timestamp_back {demote : Source → Option Source} {fuel : Nat} {pad : UInt8 × UInt8}
    {s q : Source} {record rest : List UInt8} {drops ret : Nat} {buffer : Nat → UInt8}
    {p : ErfPacket} {t : ErfTrace}
    (hwrite : writePacket demote fuel pad s = .ok (.written q record))
    (hread : readPacket ⟨record ++ rest, drops⟩ buffer = (.packet p ret, t)) :
    erfClock p = ⟨some s.timestamp, none, none, none⟩ := by
  obtain ⟨-, -, -, rfl⟩ := writePacket_written hwrite
  have hheader := (accepted_of_packet hread).header
  rw [List.append_assoc, List.take_left' (length_encode _),
    decodeHeader_encode (fits_writtenHeader s q)] at hheader
  rw [erfClock, ErfFile.getErfTimestamp, hheader, writtenHeader, UInt64.ofNat_toNat]

/-- A time is read back as it was reported exactly if the format gives it more precisely than in
microseconds and there is something below them, or the microseconds are a multiple of 1/64 of a
second. -/
theorem timeval_survives_iff {c : Clock} {tv : Timeval} (hc : Reports c tv)
    {demote : Source → Option Source} {fuel : Nat} {pad : UInt8 × UInt8} {s q : Source}
    {record rest : List UInt8} {drops ret : Nat} {buffer : Nat → UInt8} {p : ErfPacket}
    {t : ErfTrace} (hs : s.timestamp = getErfTimestamp c)
    (hwrite : writePacket demote fuel pad s = .ok (.written q record))
    (hread : readPacket ⟨record ++ rest, drops⟩ buffer = (.packet p ret, t)) :
    getTimeval (erfClock p) = tv ↔ nanoseconds c tv % 1000 ≠ 0 ∨ tv.usec % 15625 = 0 := by
  rw [timestamp_back hwrite hread, hs]
  exact timevalOf_reported hc

def clockAt (usec : Nat) : Clock := ⟨none, none, some ⟨0, usec⟩, none⟩

def frameAt (usec : Nat) : Source := { frameOf 1 with timestamp := getErfTimestamp (clockAt usec) }

theorem clockAt_reports {usec : Nat} (h : usec < 1000000) : Reports (clockAt usec) ⟨0, usec⟩ where
  timeval := rfl
  erfTimestamp := rfl
  timespec := nofun
  sec := show (0 : Int) ≤ 0 ∧ (0 : Int) < 2 ^ 32 by decide
  usec := ⟨Int.natCast_nonneg usec, Int.ofNat_lt.mpr h⟩

theorem frameAt_read (usec : Nat) : ∃ record p ret t,
    writePacket (fun _ => none) 1 (0, 0) (frameAt usec) = .ok (.written (frameAt usec) record) ∧
      readPacket ⟨record ++ [], 0⟩ (fun _ => 0) = (.packet p ret, t) := by
  obtain ⟨p, -, drops, hread, -⟩ := readsBack_written (s := frameAt usec) (q := frameAt usec)
    (show libtraceToErfType .eth ≠ 255 by decide) (0, 0) (fun _ => 0) [] 0
    (show 1 + 18 < 65536 by decide) (Int.le_refl 1) (show (1 : Int) ≤ 65535 by decide)
  refine ⟨_, p, _, _, ?_, hread⟩
  rfl

theorem quarterSecond_survives : ∃ record p ret t,
    writePacket (fun _ => none) 1 (0, 0) (frameAt 250000) = .ok (.written (frameAt 250000) record) ∧
      readPacket ⟨record ++ [], 0⟩ (fun _ => 0) = (.packet p ret, t) ∧
      getTimeval (erfClock p) = ⟨0, 250000⟩ := by
  obtain ⟨record, p, ret, t, hwrite, hread⟩ := frameAt_read 250000
  exact ⟨record, p, ret, t, hwrite, hread,
    (timeval_survives_iff (clockAt_reports (by decide)) rfl hwrite hread).mpr (.inr (by decide))⟩

/-- One microsecond is read back as none. -/
theorem oneMicrosecond_lost : ∃ record p ret t,
    Reports (clockAt 1) ⟨0, 1⟩ ∧
      writePacket (fun _ => none) 1 (0, 0) (frameAt 1) = .ok (.written (frameAt 1) record) ∧
      readPacket ⟨record ++ [], 0⟩ (fun _ => 0) = (.packet p ret, t) ∧
      getTimeval (erfClock p) = ⟨0, 0⟩ := by
  obtain ⟨record, p, ret, t, hwrite, hread⟩ := frameAt_read 1
  refine ⟨record, p, ret, t, clockAt_reports (by decide), hwrite, hread, ?_⟩
  rw [timestamp_back hwrite hread]
  decide +kernel

/-- What is left of a time that goes to ERF and back `k` times, by a format with microseconds. -/
theorem timeval_drift {usec : Nat} (hsec : sec < 2 ^ 32) (husec : usec < 1000000) (k : Nat) :
    (fun tv => getTimeval ⟨some (getErfTimestamp ⟨none, none, some tv, none⟩), none, none,
      none⟩)^[k] ⟨sec, usec⟩ = ⟨sec, (max (usec - k) (usec - usec % 15625) : Nat)⟩ := by
  induction k with
  | zero => simp
  | succ k ih =>
    have hlt : max (usec - k) (usec - usec % 15625) < 1000000 := by omega
    have hnext := micros_drift usec (k + 1)
    rw [Function.iterate_succ_apply', micros_drift] at hnext
    rw [Function.iterate_succ_apply', ih, ← hnext]
    exact timevalOf_stamp hsec hlt (by decide)

theorem timeval_drift_third :
    (fun tv => getTimeval ⟨some (getErfTimestamp ⟨none, none, some tv, none⟩), none, none,
      none⟩)^[3] ⟨7, 999999⟩ = ⟨7, 999996⟩ :=
  @timeval_drift 7 999999 (by decide) (by decide) 3

end Libtrace.TimeConversion
