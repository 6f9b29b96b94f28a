import Libtrace.TimeConversion

/-! The clock of NZIX traces. A packet header has the low 30 bits of the microseconds since the
start; `legacynzix_get_timeval` finds the rest from the packet before. -/

namespace Libtrace.NzixClock
open TimeConversion (Timeval)

/-- `starttime` is in the file name, with a year of four digits. -/
structure FormatData where
  starttime : Int
  tsHigh : UInt64
  tsOld : UInt32
  deriving DecidableEq, Repr

def initFormatData (starttime : Int) : FormatData := ⟨starttime, 0, 0⟩

def tsCmp (a b : UInt32) : UInt32 :=
  let tsA := a <<< 2
  let tsB := b <<< 2
  if tsB < tsA then tsA - tsB else tsB - tsA

def wrap : UInt64 := (1 : UInt64) <<< 30

def getTimeval (d : FormatData) (ts : UInt32) : Timeval × FormatData :=
  let hdrTs := ts >>> 2
  let newTs := if (0xFFFFFFFF / 2 : UInt32) < tsCmp hdrTs d.tsOld then d.tsHigh + wrap else d.tsHigh
  let newTs := (newTs &&& ~~~(wrap - 1)) + hdrTs.toUInt64
  (⟨d.starttime + (newTs / 1000000).toNat, (newTs % 1000000).toNat⟩, ⟨d.starttime, newTs, hdrTs⟩)

def after (d : FormatData) (calls : List UInt32) : FormatData :=
  calls.foldl (fun d ts => (getTimeval d ts).2) d

def replies : FormatData → List UInt32 → List Timeval
  | _, [] => []
  | d, ts :: calls => (getTimeval d ts).1 :: replies (getTimeval d ts).2 calls

section

variable {h u v : Nat}

theorem div_counter (hle : v ≤ u) (hlt : u < v + h) :
    u / (2 * h) = v / (2 * h) +
      if h ≤ max (u % (2 * h)) (v % (2 * h)) - min (u % (2 * h)) (v % (2 * h)) then 1 else 0 := by
  have hpos : 0 < 2 * h := by omega
  have hu := Nat.div_add_mod u (2 * h)
  have hv := Nat.div_add_mod v (2 * h)
  have hrv := Nat.mod_lt v hpos
  obtain ⟨d, hd⟩ := Nat.exists_eq_add_of_le (Nat.div_le_div_right (c := 2 * h) hle)
  rw [hd, Nat.mul_add] at hu
  have hone : d ≤ 1 := by
    by_contra hmore
    have htwo : 2 * h * 2 ≤ 2 * h * d := Nat.mul_le_mul_left _ (by omega)
    omega
  obtain rfl | rfl : d = 0 ∨ d = 1 := by omega
  · rw [hd, if_neg (by omega)]
  · rw [hd, if_pos (by omega)]

end

theorem toNat_upper (x : UInt64) : (x &&& ~~~(wrap - 1)).toNat = x.toNat / 2 ^ 30 * 2 ^ 30 := by
  have hmask : (~~~(wrap - 1)).toNat = (2 ^ 34 - 1) <<< 30 := rfl
  rw [UInt64.toNat_and, hmask, ← Nat.shiftRight_eq_div_pow, ← Nat.shiftLeft_eq]
  refine Nat.eq_of_testBit_eq fun i => ?_
  rw [Nat.testBit_and, Nat.testBit_shiftLeft, Nat.testBit_shiftLeft, Nat.testBit_two_pow_sub_one,
    Nat.testBit_shiftRight]
  by_cases hi : 30 ≤ i
  · by_cases htop : i < 64
    · have hin : i - 30 < 34 := by omega
      simp [hi, hin]
    · have hlt : x.toNat < 2 ^ i :=
        Nat.lt_of_lt_of_le x.toNat_lt (Nat.pow_le_pow_right (by decide) (by omega))
      simp [hi, Nat.testBit_lt_two_pow hlt]
  · simp [hi]

structure At (d : FormatData) (u : Nat) : Prop where
  high : d.tsHigh.toNat = u % 2 ^ 64
  old : d.tsOld.toNat = u % 2 ^ 30

def Stores (ts : UInt32) (u : Nat) : Prop := ∃ low < 4, ts.toNat = u % 2 ^ 30 * 4 + low

def timeAt (starttime : Int) (u : Nat) : Timeval :=
  ⟨starttime + (u / 1000000 : Nat), (u % 1000000 : Nat)⟩

theorem toNat_tsCmp {a b : UInt32} (ha : a.toNat < 2 ^ 30) (hb : b.toNat < 2 ^ 30) :
    (tsCmp a b).toNat = 4 * (max a.toNat b.toNat - min a.toNat b.toNat) := by
  have hshift : ∀ c : UInt32, c.toNat < 2 ^ 30 → (c <<< 2).toNat = 4 * c.toNat := by
    intro c hc
    have h2 : (2 : UInt32).toNat % 32 = 2 := rfl
    rw [UInt32.toNat_shiftLeft, h2, Nat.shiftLeft_eq]
    omega
  have hA := hshift a ha
  have hB := hshift b hb
  rw [tsCmp]
  split_ifs with hlt
  · rw [UInt32.lt_iff_toNat_lt] at hlt
    rw [UInt32.toNat_sub_of_le _ _ (by rw [UInt32.le_iff_toNat_le]; omega)]
    omega
  · rw [UInt32.lt_iff_toNat_lt] at hlt
    rw [UInt32.toNat_sub_of_le _ _ (by rw [UInt32.le_iff_toNat_le]; omega)]
    omega

variable {d : FormatData} {ts : UInt32} {u v : Nat}

theorem wrapped_iff (hd : At d v) (hts : (ts >>> 2).toNat = u % 2 ^ 30) :
    (0xFFFFFFFF / 2 : UInt32) < tsCmp (ts >>> 2) d.tsOld ↔
      2 ^ 29 ≤ max (u % 2 ^ 30) (v % 2 ^ 30) - min (u % 2 ^ 30) (v % 2 ^ 30) := by
  have hhalf : (0xFFFFFFFF / 2 : UInt32).toNat = 2147483647 := rfl
  have hold := hd.old
  rw [UInt32.lt_iff_toNat_lt, toNat_tsCmp (by omega) (by omega), hts, hold, hhalf]
  omega

theorem getTimeval_at (hd : At d v) (hle : v ≤ u) (hlt : u < v + 2 ^ 29) (hts : Stores ts u) :
    (getTimeval d ts).1 = timeAt d.starttime (u % 2 ^ 64) ∧ At (getTimeval d ts).2 u ∧
      (getTimeval d ts).2.starttime = d.starttime := by
  have hhdr : (ts >>> 2).toNat = u % 2 ^ 30 := by
    obtain ⟨low, hlow, hts⟩ := hts
    have h2 : (2 : UInt32).toNat % 32 = 2 := rfl
    rw [UInt32.toNat_shiftRight, h2, Nat.shiftRight_eq_div_pow, hts]
    omega
  have hperiod : 2 * 2 ^ 29 = 2 ^ 30 := rfl
  have hcarry := div_counter hle hlt
  rw [hperiod] at hcarry
  have hhigh := hd.high
  have hwrap : wrap.toNat = 2 ^ 30 := rfl
  have hiff := wrapped_iff hd hhdr
  have hnew : ((if (0xFFFFFFFF / 2 : UInt32) < tsCmp (ts >>> 2) d.tsOld then d.tsHigh + wrap
        else d.tsHigh)
      &&& ~~~(wrap - 1)).toNat + u % 2 ^ 30 = u % 2 ^ 64 := by
    rw [toNat_upper]
    split_ifs with hw
    · rw [if_pos (hiff.mp hw)] at hcarry
      rw [UInt64.toNat_add, hhigh, hwrap]
      omega
    · rw [if_neg (fun hbig => hw (hiff.mpr hbig))] at hcarry
      omega
  have hsum : ((getTimeval d ts).2.tsHigh).toNat = u % 2 ^ 64 := by
    change (_ + (ts >>> 2).toUInt64).toNat = _
    rw [UInt64.toNat_add, UInt32.toNat_toUInt64, hhdr, hnew]
    exact Nat.mod_mod _ _
  have hmillion : (1000000 : UInt64).toNat = 1000000 := rfl
  refine ⟨?_, ⟨hsum, hhdr⟩, rfl⟩
  change (⟨d.starttime + ((getTimeval d ts).2.tsHigh / 1000000).toNat,
    ((getTimeval d ts).2.tsHigh % 1000000).toNat⟩ : Timeval) = _
  rw [UInt64.toNat_div, UInt64.toNat_mod, hsum, hmillion, timeAt]

theorem after_cons (d : FormatData) (ts : UInt32) (calls : List UInt32) :
    after d (ts :: calls) = after (getTimeval d ts).2 calls := rfl

theorem replies_append (d : FormatData) (xs ys : List UInt32) :
    replies d (xs ++ ys) = replies d xs ++ replies (after d xs) ys := by
  induction xs generalizing d with
  | nil => rfl
  | cons x xs ih => rw [List.cons_append, replies, replies, ih, List.cons_append, after_cons]

theorem after_append (d : FormatData) (xs ys : List UInt32) :
    after d (xs ++ ys) = after (after d xs) ys := List.foldl_append

theorem replies_replicate (hts : Stores ts u) (k : Nat) (hd : At d v) (hle : v ≤ u)
    (hlt : u < v + 2 ^ 29) :
    replies d (List.replicate (k + 1) ts) =
        List.replicate (k + 1) (timeAt d.starttime (u % 2 ^ 64)) ∧
      At (after d (List.replicate (k + 1) ts)) u ∧
      (after d (List.replicate (k + 1) ts)).starttime = d.starttime := by
  induction k generalizing d v with
  | zero =>
    obtain ⟨hreply, hat, hstart⟩ := getTimeval_at hd hle hlt hts
    exact ⟨congrArg (· :: []) hreply, hat, hstart⟩
  | succ k ih =>
    obtain ⟨hreply, hat, hstart⟩ := getTimeval_at hd hle hlt hts
    obtain ⟨hreplies, hend, hstart'⟩ := ih hat (Nat.le_refl u) (by omega)
    have hsplit : List.replicate (k + 1 + 1) ts = ts :: List.replicate (k + 1) ts := rfl
    rw [hsplit, replies, after_cons, hreply, hreplies, hstart]
    exact ⟨rfl, hend, hstart'.trans hstart⟩

structure Recording where
  offset : Nat → Nat
  ts : Nat → UInt32
  reps : Nat → Nat
  first : offset 0 < 2 ^ 29
  mono : ∀ i, offset i ≤ offset (i + 1)
  gap : ∀ i, offset (i + 1) < offset i + 2 ^ 29
  stores : ∀ i, Stores (ts i) (offset i)
  called : ∀ i, 0 < reps i

variable (r : Recording)

def Recording.calls (n : Nat) : List UInt32 :=
  (List.range n).flatMap fun i => List.replicate (r.reps i) (r.ts i)

def Recording.times (time : Nat → Timeval) (n : Nat) : List Timeval :=
  (List.range n).flatMap fun i => List.replicate (r.reps i) (time (r.offset i))

theorem Recording.calls_succ (n : Nat) :
    r.calls (n + 1) = r.calls n ++ List.replicate (r.reps n) (r.ts n) := by
  rw [calls, calls, List.range_succ, List.flatMap_append, List.flatMap_singleton]

theorem Recording.times_succ (time : Nat → Timeval) (n : Nat) :
    r.times time (n + 1) = r.times time n ++ List.replicate (r.reps n) (time (r.offset n)) := by
  rw [times, times, List.range_succ, List.flatMap_append, List.flatMap_singleton]

theorem Recording.replies_calls (starttime : Int) (n : Nat) :
    replies (initFormatData starttime) (r.calls n) =
        r.times (fun u => timeAt starttime (u % 2 ^ 64)) n ∧
      (after (initFormatData starttime) (r.calls n)).starttime = starttime ∧
      ∃ v, At (after (initFormatData starttime) (r.calls n)) v ∧ v ≤ r.offset n ∧
        r.offset n < v + 2 ^ 29 := by
  induction n with
  | zero => exact ⟨rfl, rfl, 0, ⟨rfl, rfl⟩, Nat.zero_le _, (Nat.zero_add (2 ^ 29)).symm ▸ r.first⟩
  | succ n ih =>
    obtain ⟨hreplies, hstart, v, hat, hle, hlt⟩ := ih
    obtain ⟨k, hk⟩ := Nat.exists_eq_add_of_lt (r.called n)
    rw [Nat.zero_add] at hk
    obtain ⟨hnew, hat', hstart'⟩ := replies_replicate (r.stores n) k hat hle hlt
    rw [r.calls_succ, r.times_succ, replies_append, after_append, hreplies, hk, hnew, hstart]
    exact ⟨rfl, hstart'.trans hstart, r.offset n, hat', r.mono n, r.gap n⟩

/-- Every call returns the time of its packet, as long as 64 bits count the microseconds. -/
theorem replies_unwrapped (r : Recording) (starttime : Int) (n : Nat)
    (hfit : ∀ i < n, r.offset i < 2 ^ 64) :
    replies (initFormatData starttime) (r.calls n) = r.times (timeAt starttime) n := by
  rw [(r.replies_calls starttime n).1, Recording.times, Recording.times]
  refine List.flatMap_congr fun i hi => ?_
  rw [Nat.mod_eq_of_lt (hfit i (List.mem_range.mp hi))]

def sparse : Recording where
  offset i := i * (2 ^ 29 - 1)
  ts i := .ofNat (i * (2 ^ 29 - 1) % 2 ^ 30 * 4)
  reps _ := 1
  first := by decide
  mono i := Nat.mul_le_mul_right _ (Nat.le_succ i)
  gap i := by omega
  stores i := by
    refine ⟨0, by decide, ?_⟩
    rw [UInt32.toNat_ofNat']
    omega
  called _ := Nat.one_pos

theorem sparse_unwrapped :
    replies (initFormatData 0) (sparse.calls 5) = sparse.times (timeAt 0) 5 :=
  replies_unwrapped sparse 0 5 fun i hi => Nat.lt_of_le_of_lt
    (Nat.mul_le_mul_right _ (Nat.le_of_lt hi)) (by decide)

/-- After more than half a million years the counter starts again. -/
theorem sparse_overflows :
    replies (initFormatData 0) (sparse.calls (2 ^ 36 + 1)) ≠
      sparse.times (timeAt 0) (2 ^ 36 + 1) := by
  rw [(sparse.replies_calls 0 _).1, Recording.times_succ, Recording.times_succ]
  intro heq
  have hlast := (List.append_inj' heq rfl).2
  revert hlast
  decide

end Libtrace.NzixClock
