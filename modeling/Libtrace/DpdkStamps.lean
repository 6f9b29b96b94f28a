import Mathlib.Algebra.Group.Nat.Defs
import Mathlib.Data.List.Chain
import Libtrace.Schedule

/-! The times that `dpdk_ready_pkts` gives to packets without a timestamp of the network card. -/

namespace Libtrace.DpdkStamps
open Schedule

inductive Clock where
  | timespec (sec nsec : Int)
  | timeval (sec usec : Int)
  deriving DecidableEq, Repr

def Clock.ns : Clock → UInt64
  | .timespec sec nsec => .ofInt sec * 1000000000 + .ofInt nsec
  | .timeval sec usec => .ofInt sec * 1000000000 + .ofInt usec * 1000

structure Link where
  status : Bool
  speed : UInt16
  deriving DecidableEq, Repr

/-- With the speed of the link that is kept for the next packet. -/
def calculateWireTime (linkSpeed : UInt16) (link : Link) (pktSize : UInt32) : UInt32 × UInt16 :=
  let wireTime := (pktSize + 20 + 4) * 8000
  if linkSpeed ≠ 0 then (wireTime / linkSpeed.toUInt32, linkSpeed)
  else if link.status ∧ link.speed ≠ 0 then (wireTime / link.speed.toUInt32, link.speed)
  else (1, linkSpeed)

structure Mbuf where
  pktLen : UInt32
  link : Link
  deriving DecidableEq, Repr

structure Stamped where
  capLen : UInt32
  timestamp : UInt64
  wireTime : UInt32
  deriving DecidableEq, Repr

/-- The loop over a burst. The source does nothing with the wire time. -/
def stampAll (now : UInt64) : UInt16 → List Mbuf → List Stamped × UInt16
  | linkSpeed, [] => ([], linkSpeed)
  | linkSpeed, p :: rest =>
    let wire := calculateWireTime linkSpeed p.link p.pktLen
    let done := stampAll now wire.2 rest
    (⟨p.pktLen, now, wire.1⟩ :: done.1, done.2)

structure State where
  tsLastSys : UInt64
  linkSpeed : UInt16
  bursts : List (List Stamped)
  deriving DecidableEq, Repr

def State.now (s : State) (clock : Clock) : UInt64 :=
  if clock.ns ≤ s.tsLastSys then s.tsLastSys + 1 else clock.ns

def readyPkts (s : State) (clock : Clock) (pkts : List Mbuf) : State :=
  let done := stampAll (s.now clock) s.linkSpeed pkts
  ⟨s.now clock, done.2, s.bursts ++ [done.1]⟩

inductive Event where
  /-- `dpdk_read_packet_stream` goes on polling if there are no packets. -/
  | poll (clock : Clock) (pkts : List Mbuf)
  | linkChange (link : Link)
  deriving DecidableEq, Repr

def step (s : State) : Event → State
  | .poll _ [] => s
  | .poll clock (p :: rest) => readyPkts s clock (p :: rest)
  | .linkChange link => { s with linkSpeed := if link.status then link.speed else 0 }

def start (linkSpeed : UInt16) : State := ⟨0, linkSpeed, []⟩

/-- The times of all packets increase, and one burst leaves room for the packet before. -/
structure Increasing (bursts : List (List Stamped)) : Prop where
  strict : (bursts.flatten.map Stamped.timestamp).Pairwise (· < ·)
  spaced : ∀ burst ∈ bursts, burst.IsChain fun a b =>
    a.timestamp.toNat + a.wireTime.toNat ≤ b.timestamp.toNat

def Alone (s : State) : Event → Prop
  | .poll _ pkts => pkts.length ≤ 1 ∧ (pkts ≠ [] → s.tsLastSys.toNat + 1 < 2 ^ 64)
  | .linkChange _ => True

theorem stampAll_map (now : UInt64) (linkSpeed : UInt16) (pkts : List Mbuf) :
    (stampAll now linkSpeed pkts).1.map Stamped.timestamp = List.replicate pkts.length now := by
  induction pkts generalizing linkSpeed with
  | nil => rfl
  | cons p rest ih =>
    rw [stampAll, List.map_cons, ih, List.length_cons, List.replicate_succ]

theorem now_gt {s : State} (h : s.tsLastSys.toNat + 1 < 2 ^ 64) (clock : Clock) :
    s.tsLastSys < s.now clock := by
  rw [State.now]
  split_ifs with hle
  · rw [UInt64.lt_iff_toNat_lt, UInt64.toNat_add, UInt64.toNat_one, Nat.mod_eq_of_lt h]
    exact Nat.lt_succ_self _
  · exact UInt64.not_le.mp hle

theorem now_wraps {s : State} (h : ¬ s.tsLastSys.toNat + 1 < 2 ^ 64) (clock : Clock) :
    s.now clock = 0 := by
  have hlast := s.tsLastSys.toNat_lt
  have hle : clock.ns ≤ s.tsLastSys := by
    rw [UInt64.le_iff_toNat_le]
    have hns := clock.ns.toNat_lt
    omega
  rw [State.now, if_pos hle]
  have hmax : s.tsLastSys.toNat + 1 = 2 ^ 64 := Nat.le_antisymm hlast (Nat.not_lt.mp h)
  refine UInt64.toNat_inj.mp ?_
  rw [UInt64.toNat_add, UInt64.toNat_one, hmax, Nat.mod_self]
  rfl

section

variable {s : State}

structure UpToLast (s : State) : Prop where
  increasing : Increasing s.bursts
  le_last : ∀ t ∈ s.bursts.flatten.map Stamped.timestamp, t ≤ s.tsLastSys
  last_mem : s.tsLastSys ≠ 0 → s.tsLastSys ∈ s.bursts.flatten.map Stamped.timestamp

theorem upToLast_start (linkSpeed : UInt16) : UpToLast (start linkSpeed) where
  increasing := ⟨.nil, List.forall_mem_nil _⟩
  le_last := List.forall_mem_nil _
  last_mem h := absurd rfl h

theorem readyPkts_stamps (s : State) (clock : Clock) (pkts : List Mbuf) :
    (readyPkts s clock pkts).bursts.flatten.map Stamped.timestamp =
      s.bursts.flatten.map Stamped.timestamp ++ List.replicate pkts.length (s.now clock) := by
  rw [readyPkts, List.flatten_append, List.map_append, List.flatten_singleton, stampAll_map]

theorem upToLast_single (h : UpToLast s) (hlast : s.tsLastSys.toNat + 1 < 2 ^ 64) (clock : Clock)
    (p : Mbuf) : UpToLast (readyPkts s clock [p]) := by
  have hgt := now_gt hlast clock
  have hstamps := readyPkts_stamps s clock [p]
  refine ⟨⟨?_, ?_⟩, ?_, fun _ => ?_⟩
  · rw [hstamps]
    refine List.pairwise_append.mpr ⟨h.increasing.strict, List.pairwise_singleton _ _, ?_⟩
    intro t ht u hu
    rw [List.eq_of_mem_replicate hu]
    exact UInt64.lt_of_le_of_lt (h.le_last t ht) hgt
  · intro burst hburst
    obtain hburst | hburst := List.mem_append.mp hburst
    · exact h.increasing.spaced burst hburst
    · rw [List.mem_singleton.mp hburst]
      exact .singleton _
  · rw [hstamps]
    intro t ht
    obtain ht | ht := List.mem_append.mp ht
    · exact UInt64.le_of_lt (UInt64.lt_of_le_of_lt (h.le_last t ht) hgt)
    · rw [List.eq_of_mem_replicate ht]
      exact UInt64.le_refl _
  · rw [hstamps]
    exact List.mem_append_right _ (List.mem_singleton_self _)

theorem upToLast_step (h : UpToLast s) (event : Event) (hok : Alone s event) :
    UpToLast (step s event) := by
  cases event with
  | linkChange link => exact ⟨h.increasing, h.le_last, h.last_mem⟩
  | poll clock pkts =>
    obtain ⟨hlen, hlast⟩ := hok
    cases pkts with
    | nil => exact h
    | cons p rest =>
      have hrest : rest.length = 0 := Nat.le_zero.mp (Nat.le_of_succ_le_succ hlen)
      obtain rfl := List.length_eq_zero_iff.mp hrest
      exact upToLast_single h (hlast (List.cons_ne_nil p [])) clock p

theorem not_increasing_pair (s : State) (clock : Clock) {pkts : List Mbuf}
    (hlen : 1 < pkts.length) :
    ¬ Increasing (readyPkts s clock pkts).bursts := by
  intro h
  have hstrict := h.strict
  rw [readyPkts_stamps] at hstrict
  obtain ⟨n, hn⟩ := Nat.exists_eq_add_of_lt hlen
  rw [hn, show 1 + n + 1 = n + 1 + 1 by omega, List.replicate_succ, List.replicate_succ] at hstrict
  have hpair := List.rel_of_pairwise_cons (List.pairwise_append.mp hstrict).2.1 List.mem_cons_self
  exact UInt64.lt_irrefl _ hpair

theorem not_increasing_wrap (h : UpToLast s) (hlast : ¬ s.tsLastSys.toNat + 1 < 2 ^ 64)
    (clock : Clock) {pkts : List Mbuf} (hne : pkts ≠ []) :
    ¬ Increasing (readyPkts s clock pkts).bursts := by
  intro hincreasing
  have hstrict := hincreasing.strict
  rw [readyPkts_stamps, now_wraps hlast] at hstrict
  have hmem : (0 : UInt64) ∈ List.replicate pkts.length 0 :=
    List.mem_replicate.mpr ⟨fun hzero => hne (List.length_eq_zero_iff.mp hzero), rfl⟩
  have hnonzero : s.tsLastSys ≠ 0 := by
    intro hzero
    rw [hzero] at hlast
    exact hlast (by decide)
  have hlt := (List.pairwise_append.mp hstrict).2.2 _ (h.last_mem hnonzero) _ hmem
  exact UInt64.not_lt_zero hlt

theorem not_increasing_step (h : UpToLast s) (event : Event) (hok : ¬ Alone s event) :
    ¬ Increasing (step s event).bursts := by
  cases event with
  | linkChange link => exact absurd trivial hok
  | poll clock pkts =>
    cases pkts with
    | nil => exact absurd ⟨Nat.zero_le _, fun hne => absurd rfl hne⟩ hok
    | cons p rest =>
      by_cases hlen : (p :: rest).length ≤ 1
      · have hlast : ¬ s.tsLastSys.toNat + 1 < 2 ^ 64 := fun hlt => hok ⟨hlen, fun _ => hlt⟩
        exact not_increasing_wrap h hlast clock (List.cons_ne_nil p rest)
      · exact not_increasing_pair s clock (Nat.not_le.mp hlen)

theorem Increasing.of_step {event : Event} (h : Increasing (step s event).bursts) :
    Increasing s.bursts := by
  cases event with
  | linkChange link => exact h
  | poll clock pkts =>
    cases pkts with
    | nil => exact h
    | cons p rest =>
      have hstrict := h.strict
      rw [step, readyPkts_stamps] at hstrict
      refine ⟨(List.pairwise_append.mp hstrict).1, fun burst hburst => ?_⟩
      exact h.spaced burst (List.mem_append_left _ hburst)

end

/-- The times of a stream increase exactly if no burst has more than one packet, and no packet comes
after the last time there is. -/
theorem stamps_increasing_iff (linkSpeed : UInt16) (events : List Event) :
    Increasing (events.foldl step (start linkSpeed)).bursts ↔
      Along step Alone (start linkSpeed) events := by
  rw [← not_not (a := Increasing _)]
  refine not_bad_iff UpToLast (fun s => ¬ Increasing s.bursts) (P := fun _ _ => True)
    ?_ ?_ ?_ ?_ (upToLast_start linkSpeed) (along_of_forall (fun _ _ => trivial) _ events)
  · exact fun s h hnot => hnot h.increasing
  · exact fun s event h _ hok => upToLast_step h event hok
  · exact fun s event h _ hok => not_increasing_step h event hok
  · exact fun s event hnot h => hnot h.of_step

/-- Two packets of 64 bytes that come together, at 10 Gbit/s. -/
theorem pair_not_increasing : ¬ Increasing ([.poll (.timespec 1400000000 0)
    [⟨64, ⟨true, 10000⟩⟩, ⟨64, ⟨true, 10000⟩⟩]].foldl step (start 10000)).bursts := by
  intro h
  have hstrict := h.strict
  revert hstrict
  decide

end Libtrace.DpdkStamps
