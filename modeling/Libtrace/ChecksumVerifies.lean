import Libtrace.ChecksumRun

/-! When the checksum that `trace_checksum_transport` computes verifies: with IPv6 extension headers
the pseudo header and the length are wrong. -/

namespace Libtrace.ChecksumVerifies
open Exec Orbit EndAround Checksum ByteOrder Protocols PacketAccess PacketLayout HeaderChain
  ReadBounds TransportAgreement FlowHash PayloadLength TransportChecksum ChecksumRun

section

variable {pkt : Packet} {x y : Place} {n k : Nat}

theorem ntohs_eq_ones {v : Nat} (h : v < 65536) : ntohs v = 65535 ↔ v = 65535 := by
  unfold ntohs swap
  omega

theorem total_words_eq_ones (buffer : List UInt8) :
    total 65536 (words buffer) = 65535 ↔ residue 65536 (wordSum buffer) = 65535 := by
  rw [← residue_words, ← ntohs_residue, ntohs_eq_ones (residue_lt (by decide) _)]

theorem segment_behind (h : Segment pkt x y n) :
    x.type = ethertypeIp ∧ x.offset + 20 ≤ y.offset ∨
      x.type = ethertypeIpv6 ∧ x.offset + 40 ≤ y.offset := by
  obtain ⟨hip, -, h5, -, hnext, -⟩ | ⟨hip, -, -, start, hstart, hreach⟩ := h.carrier
  · refine .inl ⟨hip, ?_⟩
    rw [ip4Next_some pkt hnext]
    exact Nat.add_le_add_left (by omega) _
  · refine .inr ⟨hip, ?_⟩
    rw [← DecodeAgreement.after_offset hstart]
    exact reach_ext_offset (reach_mono (fun _ _ => optionNext_ext) hreach)

theorem pseudoHeader_storeAt (h : Segment pkt x y n) (k value : Nat) :
    pseudoHeader (storeAt pkt (y.offset + k) value) x y n = pseudoHeader pkt x y n := by
  unfold pseudoHeader
  obtain ⟨hip, hoffset⟩ | ⟨hip, hoffset⟩ := segment_behind h
  · rw [if_pos hip, if_pos hip, bytesAt_congr fun i _ _ =>
      storeAt_other pkt value (show i ≠ y.offset + k by omega) (by omega)]
  · have hip4 : x.type ≠ ethertypeIp := by rw [hip]; decide
    rw [if_neg hip4, if_neg hip4, bytesAt_congr fun i _ _ =>
      storeAt_other pkt value (show i ≠ y.offset + k by omega) (by omega)]

theorem pseudoHeader_even (pkt : Packet) (x y : Place) (n : Nat) :
    (pseudoHeader pkt x y n).length % 2 = 0 := by
  unfold pseudoHeader
  split_ifs <;> simp

def correctSum (pkt : Packet) (x y : Place) (k n : Nat) : Nat :=
  wordSum (pseudoHeader pkt x y n) + wordSum (bytesAt (storeAt pkt (y.offset + k) 0) y.offset n)

theorem verificationSum_iff (h : Segment pkt x y n) (heven : k % 2 = 0) (hk : k + 2 ≤ n) {sum : Nat}
    (hzero : correctSum pkt x y k n = 0 → sum = 0) :
    verificationSum (storeAt pkt (y.offset + k) (ntohs (finishChecksum sum))) x y n = 65535 ↔
      correctSum pkt x y k n ≡ sum [MOD 65535] := by
  rw [verificationSum, total_words_eq_ones, pseudoHeader_storeAt h,
    wordSum_append (pseudoHeader_even pkt x y n), wordSum_storeAt pkt y.offset _ heven hk,
    wordSum_beBytes (finishChecksum_lt sum), finishChecksum_eq, ← Nat.add_assoc]
  exact residue_complement_iff (b := 65536) (by decide) hzero

theorem wordSum_beBytes_four {v : Nat} (h : v < 65536) : wordSum (beBytes 4 v) = ntohs v := by
  have hsplit : beBytes 4 v = [UInt8.ofNat (v / 256 / 256 / 256), UInt8.ofNat (v / 256 / 256)] ++
      beBytes 2 v := rfl
  have hzero : v / 256 / 256 = 0 := by omega
  rw [hsplit, wordSum_append (by simp), wordSum_field h, hzero]
  simp [wordSum]

theorem codeSum_ip4 (h : Segment pkt x y n) (hip : x.type = ethertypeIp) (k : Nat) :
    codeSum pkt x y k n = correctSum pkt x y k n := by
  obtain ⟨-, -, -, -, hnext, htotal, -⟩ | ⟨hip6, -⟩ := h.carrier
  · have hn := segment_length_lt h
    have hproto : (pkt.bytes (x.offset + 9)).toNat = y.type := by rw [ip4Next_some pkt hnext]
    have hrest : (((be pkt (x.offset + 2) : Int) -
        ((pkt.bytes x.offset).toNat % 16 * 4 : Nat)) % 65536).toNat = n := by omega
    have htype : wordSum [0, UInt8.ofNat y.type] = 256 * y.type := by
      have hlt := (pkt.bytes (x.offset + 9)).toNat_lt
      change 0 + 256 * (y.type % 2 ^ 8) + 0 = _
      omega
    unfold codeSum correctSum pseudoHeader
    congr 1
    split_ifs with hicmp
    · rfl
    · rw [pseudoSum, if_pos hip, hproto, hrest, wordSum_append (by simp),
        wordSum_append (by simp), wordSum_field (by omega), htype]
  · rw [hip] at hip6
    cases hip6

theorem words_modEq (pkt : Packet) (p : Nat) (heven : k % 2 = 0) (hk : k + 2 ≤ n) :
    256 * (wordSum (bytesAt (storeAt pkt (p + k) 0) p n) + ntohs (be pkt (p + k))) ≡
      (words (bytesAt pkt p n)).sum [MOD 65535] := by
  have hfield := wordSum_storeAt pkt p (be pkt (p + k)) heven hk
  rw [storeAt_self, wordSum_field (be_lt pkt _)] at hfield
  rw [← hfield]
  exact (words_sum_modEq _).1

theorem ntohs_modEq (v : Nat) : 256 * ntohs v ≡ v [MOD 65535] := by
  unfold ntohs swap Nat.ModEq
  omega

section

variable (h : Segment pkt x y n) (hip : x.type = ethertypeIpv6)
include h hip

theorem codeSum_ip6 (heven : k % 2 = 0) (hk : k + 2 ≤ n) :
    (correctSum pkt x y k n ≡ codeSum pkt x y k (n + extBytes x y) [MOD 65535]) ↔
      extBytes x y + (pkt.bytes (x.offset + 6)).toNat +
          (words (bytesAt pkt y.offset (n + extBytes x y))).sum ≡
        y.type + (words (bytesAt pkt y.offset n)).sum [MOD 65535] := by
  have hip4 : x.type ≠ ethertypeIp := by rw [hip]; decide
  obtain ⟨hip', -⟩ | ⟨-, ht, hplen, -⟩ := h.carrier
  · exact (hip4 hip').elim
  · have hn := segment_length_lt h
    have hicmp : y.type ≠ 1 := by omega
    have htype : wordSum [0, 0, 0, UInt8.ofNat y.type] = 256 * y.type := by
      obtain ht | ht := ht <;> rw [ht] <;> decide
    have hcorrect : correctSum pkt x y k n = wordSum (bytesAt pkt (x.offset + 8) 32) + ntohs n +
        256 * y.type + wordSum (bytesAt (storeAt pkt (y.offset + k) 0) y.offset n) := by
      rw [correctSum, pseudoHeader, if_neg hicmp, if_neg hip4, wordSum_append (by simp),
        wordSum_append (by simp), wordSum_beBytes_four (by omega), htype]
    have hcode : codeSum pkt x y k (n + extBytes x y) = wordSum (bytesAt pkt (x.offset + 8) 32) +
        ntohs (extBytes x y + n) + 256 * (pkt.bytes (x.offset + 6)).toNat +
        wordSum (bytesAt (storeAt pkt (y.offset + k) 0) y.offset (n + extBytes x y)) := by
      rw [codeSum, if_neg hicmp, pseudoSum, if_neg hip4, be_eq_wordSum, hplen]
    have hsegment := words_modEq pkt y.offset heven hk
    have hlonger := words_modEq pkt y.offset heven (n := n + extBytes x y) (k := k) (by omega)
    have hlen := ntohs_modEq n
    have hlen' := ntohs_modEq (extBytes x y + n)
    unfold Nat.ModEq at *
    omega

theorem correctSum_ip6_pos :
    correctSum pkt x y k n ≠ 0 := by
  have hip4 : x.type ≠ ethertypeIp := by rw [hip]; decide
  obtain ⟨hip', -⟩ | ⟨-, ht, -⟩ := h.carrier
  · exact (hip4 hip').elim
  · have htype : 0 < wordSum [0, 0, 0, UInt8.ofNat y.type] := by
      obtain ht | ht := ht <;> rw [ht] <;> decide
    rw [correctSum, pseudoHeader, if_neg (by omega), if_neg hip4, wordSum_append (by simp)]
    omega

theorem coincides_plain (hext : extBytes x y = 0) : Coincides pkt x y n := by
  have hip4 : x.type ≠ ethertypeIp := by rw [hip]; decide
  obtain ⟨hip', -⟩ | ⟨-, ht, -, start, hstart, hreach⟩ := h.carrier
  · exact (hip4 hip').elim
  · have hstart' := DecodeAgreement.after_offset hstart
    have hplain : start = y := by
      obtain rfl | ⟨z, hz, hreach⟩ := reach_cases hreach
      · rfl
      · have hlt := extNext_offset (optionNext_ext hz)
        have hle := reach_ext_offset (reach_mono (fun _ _ => optionNext_ext) hreach)
        rw [extBytes, if_pos hip] at hext
        omega
    have hnxt : (pkt.bytes (x.offset + 6)).toNat = y.type := by
      rw [← hplain, (extStart_some pkt hstart).1]
    refine ⟨by have := h.captured.1; omega, ?_⟩
    rw [hext, hnxt, Nat.zero_add, Nat.add_zero]

end

theorem verifies_iff_run (l : Locals) (hx : Layer3At pkt l.ethertype x) (h : Segment pkt x y n)
    (hk : checksumField y.type = some k) :
    Verifies pkt l x y n ↔ n + extBytes x y ≤ y.remaining ∧
      verificationSum (storeAt pkt (y.offset + k) (ntohs (finishChecksum
        (codeSum pkt x y k (n + extBytes x y))))) x y n = 65535 := by
  have hrun := checksumTransport_run l hx h hk
  constructor
  · rintro ⟨k', value, hk', hvalue, hsum⟩
    obtain rfl := Option.mem_unique hk hk'
    have hresult := ok_unique hrun hvalue
    split_ifs at hresult with hshort
    obtain ⟨-, rfl⟩ := Prod.mk.inj (Option.some.inj hresult)
    exact ⟨by omega, hsum⟩
  · rintro ⟨hlong, hsum⟩
    refine ⟨k, _, hk, ?_, hsum⟩
    rw [hrun, if_neg (by omega)]

end

def plainPacket : Packet where
  bytes i := if i = 12 then 0x86 else if i = 13 then 0xdd else if i = 14 then 0x60
    else if i = 19 then 9 else if i = 20 then 17 else if i = 59 then 9 else if i = 62 then 0xab
    else if i = 63 then 0xcd else 0
  linkType := .eth
  captureLength := 66
  wireLength := 66
  captureLength_lt := by decide
  wireLength_lt := Int.ofNat_lt.mpr (Nat.le_add_right 67 65469)

def noLocals : Locals := ⟨0, 0, 0, 0, 0, fun _ => 0⟩

theorem plainPacket_segment : Segment plainPacket ⟨ethertypeIpv6, 14, 52⟩ ⟨17, 54, 12⟩ 9 where
  captured := by decide
  header := by decide
  tcp := by decide
  udp := fun _ => by decide +kernel
  carrier := .inr ⟨rfl, by decide, by decide +kernel, ⟨17, 54, 12⟩, by decide +kernel, reach_refl _⟩

def optionPacket : Packet where
  bytes i := if i = 12 then 0x86 else if i = 13 then 0xdd else if i = 14 then 0x60
    else if i = 19 then 17 else if i = 54 then 17 else if i = 67 then 9 else if i = 70 then 0xab
    else 0
  linkType := .eth
  captureLength := 71
  wireLength := 71
  captureLength_lt := by decide
  wireLength_lt := by decide

theorem optionPacket_segment : Segment optionPacket ⟨ethertypeIpv6, 14, 57⟩ ⟨17, 62, 9⟩ 9 where
  captured := by decide
  header := by decide
  tcp := by decide
  udp := fun _ => by decide +kernel
  carrier := .inr ⟨rfl, by decide, by decide +kernel, ⟨0, 54, 17⟩, by decide +kernel,
    reach_head (y := ⟨17, 62, 9⟩) (by decide +kernel) (reach_refl _)⟩

end Libtrace.ChecksumVerifies
