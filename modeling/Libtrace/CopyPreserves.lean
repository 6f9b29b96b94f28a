import Libtrace.PcapCopy

/-! Which packets a copy from a pcap file to a pcap file preserves. Only the checksum of an Ethernet
frame is taken off again when the wire length is written. -/

namespace Libtrace.CopyPreserves
open PcapFile PcapRecords PcapViews MissingFcs PcapCopy

variable {t : Trace} (r : Record t)

theorem toInt32_lt_iff {n : Nat} (hn : n < 2 ^ 32) :
    toInt32 n < packetBufsize ↔ n < 65536 ∨ 2 ^ 31 ≤ n := by
  unfold toInt32 packetBufsize
  split_ifs <;> omega

theorem writtenWireLength_eth {c : Nat} (hc : c < 2 ^ 32) :
    writtenWireLength .eth (toInt32 c) = c - 4 := by
  rw [writtenWireLength, if_pos rfl, toInt32]
  by_cases hpos : c < 2 ^ 31
  · rw [if_pos hpos]
    by_cases h4 : 4 ≤ c
    · rw [if_pos (by omega)]
      omega
    · rw [if_neg (by omega)]
      omega
  · rw [if_neg hpos, if_pos (by omega)]
    omega

theorem sameLength_eth (hn : network t = 1) (hcap : r.body.length ≤ r.wirelen) :
    SameLength r true true ↔
      r.wirelen + 4 < 65536 ∨ (2 ^ 31 ≤ r.wirelen + 4 ∧ r.wirelen + 4 < 2 ^ 32) := by
  have hw : r.wirelen < 2 ^ 32 := field_lt _ _ _
  have hlink : pcapLinktypeToLibtrace (network t) = .eth := by rw [hn]; rfl
  have hc : counted true r.wirelen = (r.wirelen + 4) % 2 ^ 32 := rfl
  rw [SameLength, copyWirelen, hlink, toInt32_lt_iff (counted_lt true hw),
    writtenWireLength_eth (counted_lt true hw), hc]
  change _ ∧ _ ∧ ((r.wirelen + 4) % 2 ^ 32 - 4 + 4) % 2 ^ 32 = _ ↔ _
  omega

theorem writtenWireLength_other {n : Nat} (h : n ≠ 1) {c : Nat} (hc : c < 2 ^ 32) :
    writtenWireLength (pcapLinktypeToLibtrace n) (toInt32 c) = c := by
  have hlink : pcapLinktypeToLibtrace n ≠ .eth := by
    intro heth
    have hall : ∀ d ∈ [1, 9, 11, 12, 50, 101, 104, 105, 108, 113, 117, 127],
        pcapLinktypeToLibtrace d = .eth → d = 1 := by decide
    exact h (hall n (direct_cases (by rw [Direct, heth]; decide)) heth)
  rw [writtenWireLength, if_neg hlink, toInt32]
  split_ifs <;> omega

theorem sameLength_other (hn : network t ≠ 1) (a a' : Bool) :
    SameLength r a a' ↔ toInt32 (counted a r.wirelen) < packetBufsize ∧
      r.body.length ≤ counted a r.wirelen ∧ a' = false := by
  have hc : counted a r.wirelen < 2 ^ 32 := counted_lt a (field_lt _ _ _)
  rw [SameLength, copyWirelen, writtenWireLength_other hn hc]
  generalize counted a r.wirelen = c at hc
  have hsame : counted a' c = c ↔ a' = false := by
    cases a' with
    | false => simp [counted]
    | true =>
      refine iff_of_false ?_ (by decide)
      simp only [counted, if_true]
      omega
  rw [hsame]

/-- The record fits into its buffer, its wire length is not refused, and nothing is added to it
unless it is an Ethernet frame. -/
def Survives {t : Trace} (r : Record t) : Prop :=
  r.body.length ≤ 65520 ∧
    ((network t = 1 ∧
        (r.wirelen + 4 < 65536 ∨ (2 ^ 31 ≤ r.wirelen + 4 ∧ r.wirelen + 4 < 2 ^ 32))) ∨
      (network t ≠ 1 ∧ (r.wirelen < 65536 ∨ 2 ^ 31 ≤ r.wirelen) ∧ Unmarked (network t) r.body))

theorem roundTrip_preserves_iff {t : Trace} (r : Record t) (hd : Direct (network t))
    (hm : t.header.inNanoseconds = false) (hcap : r.body.length ≤ r.wirelen) :
    (∀ buffer buffer' flags flags', ∃ v, roundTrip t buffer buffer' flags flags' = some (v, v)) ↔
      Survives r := by
  have hw : r.wirelen < 2 ^ 32 := field_lt _ _ _
  have hfit : pktHdrSize + r.body.length ≤ packetBufsize ↔ r.body.length ≤ 65520 := by
    simp only [pktHdrSize, packetBufsize]
    omega
  simp only [roundTrip_same_iff r _ _ _ _ hd hm, Survives, ← hfit]
  by_cases hn : network t = 1
  · have hsame := sameLength_eth r hn hcap
    simp only [hn, true_and, ne_eq, not_true_eq_false, false_and, or_false, ← hsame]
    constructor
    · intro h
      obtain ⟨hfits, a, a', ha, ha', hlength⟩ := h worstBuffer worstBuffer 0 0
      obtain rfl : a = true := Except.ok.inj ha.symm
      obtain rfl : a' = true := Except.ok.inj ha'.symm
      exact ⟨hfits, hlength⟩
    · rintro ⟨hfits, hlength⟩ buffer buffer' flags flags'
      exact ⟨hfits, true, true, rfl, rfl, hlength⟩
  · simp only [hn, false_and, false_or, not_false_eq_true, ne_eq, true_and,
      sameLength_other r hn]
    constructor
    · intro h
      -- the same contents of memory on both sides
      obtain ⟨hfits, a, a', ha, ha', hsmall, _, rfl⟩ := h worstBuffer worstBuffer 0 0
      obtain rfl : a = false := Except.ok.inj (ha.symm.trans ha')
      exact ⟨hfits, (toInt32_lt_iff hw).mp hsmall, unmarked_of_missing_false ha⟩
    · rintro ⟨hfits, hsmall, hunmarked⟩ buffer buffer' flags flags'
      exact ⟨hfits, false, false, missing_false_of_unmarked hn hfits hunmarked,
        missing_false_of_unmarked hn hfits hunmarked, (toInt32_lt_iff hw).mpr hsmall, hcap, rfl⟩

def radiotapTrace (flags : UInt8) : Trace where
  header := ⟨0xa1b2c3d4, 2, 4, 127⟩
  io := encodePktHdr 0 0 12 40 ++ ([0, 0, 9, 0, 2, 0, 0, 0, flags, 0x80, 0, 0] ++ [])

def radiotapRecord (flags : UInt8) : Record (radiotapTrace flags) where
  hdr := encodePktHdr 0 0 12 40
  body := [0, 0, 9, 0, 2, 0, 0, 0, flags, 0x80, 0, 0]
  rest := []
  io_eq := rfl
  hdr_length := by decide
  body_length := show field ⟨0xa1b2c3d4, 2, 4, 127⟩ (encodePktHdr 0 0 12 40) 8 = 12 by decide
  accepted := show 12 < packetBufsize by decide

theorem radiotap_survives : Survives (radiotapRecord 0x10) :=
  ⟨by decide, .inr ⟨by decide, .inl (by decide), fun _ => ⟨0x10, by decide, by decide⟩,
    fun h => absurd h (by decide)⟩⟩

theorem radiotap_preserved : Survives (radiotapRecord 0x10) ∧
    ∃ v, roundTrip (radiotapTrace 0x10) (fun _ => 0) (fun _ => 0xff) 0 0xff = some (v, v) :=
  ⟨radiotap_survives, (roundTrip_preserves_iff (radiotapRecord 0x10) (by decide) (by decide)
    (by decide)).mpr radiotap_survives _ _ _ _⟩

/-- Without one its wire length grows with every copy. -/
theorem radiotap_not_preserved :
    Direct (network (radiotapTrace 0)) ∧ (radiotapTrace 0).header.inNanoseconds = false ∧
      (radiotapRecord 0).body.length ≤ (radiotapRecord 0).wirelen ∧
      ¬ ∃ v, roundTrip (radiotapTrace 0) (fun _ => 0) (fun _ => 0) 0 0 = some (v, v) := by
  have hlengths : (roundTrip (radiotapTrace 0) (fun _ => 0) (fun _ => 0) 0 0).map
      (fun v => (v.1.wireLength, v.2.wireLength)) = some (44, 48) := by decide +kernel
  refine ⟨by decide, by decide, by decide, ?_⟩
  rintro ⟨v, h⟩
  rw [h, Option.map_some, Option.some.injEq, Prod.mk.injEq] at hlengths
  exact absurd (hlengths.1.symm.trans hlengths.2) (by decide)

end Libtrace.CopyPreserves
