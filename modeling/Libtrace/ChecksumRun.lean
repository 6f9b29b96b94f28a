import Libtrace.TransportChecksum

/-! What `trace_checksum_transport` sums for a segment: pseudo header, header with an empty checksum
and payload. -/

namespace Libtrace.ChecksumRun
open Exec Orbit EndAround Checksum ByteOrder Protocols PacketAccess PacketDecode PacketLayout
  HeaderChain ReadBounds ExtensionWalk FlowHash PayloadLength TransportChecksum

section

theorem storeAt_other (pkt : Packet) {p i : Nat} (value : Nat) (h : i ≠ p) (h' : i ≠ p + 1) :
    (storeAt pkt p value).bytes i = pkt.bytes i := by
  simp only [storeAt, if_neg h, if_neg h']

theorem bytesAt_storeAt (pkt : Packet) (p value : Nat) {n k : Nat} (hk : k + 2 ≤ n) :
    bytesAt (storeAt pkt (p + k) value) p n = storeField (bytesAt pkt p n) k value := by
  obtain ⟨r, rfl⟩ := Nat.exists_eq_add_of_le hk
  have hbefore : bytesAt (storeAt pkt (p + k) value) p k = bytesAt pkt p k :=
    bytesAt_congr fun i _ _ => storeAt_other pkt value (by omega) (by omega)
  have hafter : bytesAt (storeAt pkt (p + k) value) (p + (k + 2)) r =
      bytesAt pkt (p + (k + 2)) r :=
    bytesAt_congr fun i _ _ => storeAt_other pkt value (by omega) (by omega)
  have hfield : bytesAt (storeAt pkt (p + k) value) (p + k) 2 = beBytes 2 value := by
    simp [bytesAt, List.range_succ, storeAt, beBytes, leBytes]
  have htake : (bytesAt pkt p (k + 2 + r)).take k = bytesAt pkt p k := by
    rw [Nat.add_assoc, bytesAt_add]
    exact List.take_left' (length_bytesAt pkt p k)
  have hdrop : (bytesAt pkt p (k + 2 + r)).drop (k + 2) = bytesAt pkt (p + (k + 2)) r := by
    rw [bytesAt_add]
    exact List.drop_left' (length_bytesAt pkt p (k + 2))
  rw [storeField, htake, hdrop, bytesAt_add, bytesAt_add, hbefore, hafter, hfield]

theorem storeAt_self (pkt : Packet) (p : Nat) : storeAt pkt p (be pkt p) = pkt := by
  have hhigh := (pkt.bytes p).toNat_lt
  have hlow := (pkt.bytes (p + 1)).toNat_lt
  have hbytes : (storeAt pkt p (be pkt p)).bytes = pkt.bytes := by
    funext i
    simp only [storeAt, be]
    split_ifs with h h'
    · rw [h]
      refine UInt8.toNat_inj.mp ?_
      rw [UInt8.toNat_ofNat']
      omega
    · rw [h']
      refine UInt8.toNat_inj.mp ?_
      rw [UInt8.toNat_ofNat']
      omega
    · rfl
  exact congrArg (fun bytes => { pkt with bytes := bytes }) hbytes

theorem wordSum_storeAt (pkt : Packet) (p value : Nat) {n k : Nat} (heven : k % 2 = 0)
    (hk : k + 2 ≤ n) :
    wordSum (bytesAt (storeAt pkt (p + k) value) p n) =
      wordSum (bytesAt (storeAt pkt (p + k) 0) p n) + wordSum (beBytes 2 value) := by
  have hfield : wordSum (beBytes 2 0) = 0 := by decide
  have hlength : k + 2 ≤ (bytesAt pkt p n).length := by rwa [length_bytesAt]
  rw [bytesAt_storeAt pkt p value hk, bytesAt_storeAt pkt p 0 hk,
    wordSum_storeField heven hlength, wordSum_storeField heven hlength, hfield]
  omega

end

section

variable {pkt : Packet} {x y : Place} {n : Nat}

theorem wordSum_leBytes {temp : Nat} (h : temp < 65536) : wordSum (leBytes 2 temp) = temp := by
  change (UInt8.ofNat temp).toNat + 256 * (UInt8.ofNat (temp / 256)).toNat + 0 = temp
  rw [UInt8.toNat_ofNat', UInt8.toNat_ofNat']
  omega

theorem addTemp_eq {temp : Nat} (h : temp < 65536) : addTemp temp = temp := by
  rw [addTemp, addChecksum_eq (by simp), wordSum_leBytes h]

theorem ntohs_lt {v : Nat} (h : v < 65536) : ntohs v < 65536 :=
  swap_lt (c := 256) (by decide) h

theorem ntohs_byte {v : Nat} (h : v < 256) : ntohs v = 256 * v := by
  unfold ntohs swap
  omega

theorem addChecksum_bytesAt (pkt : Packet) (p : Nat) {n : Nat} (h : n ≤ 65535) :
    addChecksum (bytesAt pkt p n) = wordSum (bytesAt pkt p n) := addChecksum_eq (by simpa using h)

theorem wordSum_bytesAt_add (pkt : Packet) (p : Nat) {n : Nat} (heven : n % 2 = 0) (k : Nat) :
    wordSum (bytesAt pkt p n) + wordSum (bytesAt pkt (p + n) k) =
      wordSum (bytesAt pkt p (n + k)) := by
  rw [bytesAt_add, wordSum_append (by simpa using heven)]

def pseudoSum (pkt : Packet) (x : Place) : Nat :=
  if x.type = ethertypeIp then
    wordSum (bytesAt pkt (x.offset + 12) 8) + 256 * (pkt.bytes (x.offset + 9)).toNat +
      ntohs (((be pkt (x.offset + 2) : Int) -
        ((pkt.bytes x.offset).toNat % 16 * 4 : Nat)) % 65536).toNat
  else
    wordSum (bytesAt pkt (x.offset + 8) 32) + wordSum (bytesAt pkt (x.offset + 4) 2) +
      256 * (pkt.bytes (x.offset + 6)).toNat

theorem pseudoChecksum_eq
    (hlong : x.type = ethertypeIp ∧ 20 ≤ x.remaining ∨ x.type = ethertypeIpv6 ∧ 40 ≤ x.remaining) :
    pseudoChecksum pkt.whole x.offset x.type x.remaining = .ok (some (pseudoSum pkt x)) := by
  obtain ⟨hip, h20⟩ | ⟨hip, h40⟩ := hlong
  · have hproto := (pkt.bytes (x.offset + 9)).toNat_lt
    rw [pseudoChecksum, if_pos hip, if_neg (by omega), ipv4PseudoChecksum, pseudoSum, if_pos hip]
    simp only [load_whole, byte_whole, be16_whole, ok_bind]
    rw [addTemp_eq (ntohs_lt (by omega)), addTemp_eq (ntohs_lt (by omega)), ntohs_byte hproto,
      addChecksum_bytesAt _ _ (by decide), addChecksum_bytesAt _ _ (by decide),
      wordSum_bytesAt_add pkt (x.offset + 12) (n := 4) (by decide) 4]
    rfl
  · have hnxt := (pkt.bytes (x.offset + 6)).toNat_lt
    have hip4 : x.type ≠ ethertypeIp := by rw [hip]; decide
    rw [pseudoChecksum, if_neg hip4, if_pos hip, if_neg (by omega), ipv6PseudoChecksum, pseudoSum,
      if_neg hip4]
    simp only [load_whole, byte_whole, ok_bind]
    rw [addTemp_eq (ntohs_lt (by omega)), ntohs_byte hnxt, addChecksum_bytesAt _ _ (by decide),
      addChecksum_bytesAt _ _ (by decide), addChecksum_bytesAt _ _ (by decide),
      wordSum_bytesAt_add pkt (x.offset + 8) (n := 16) (by decide) 16]
    rfl

theorem wordSum_field {v : Nat} (h : v < 65536) : wordSum (beBytes 2 v) = ntohs v := by
  have hv : ntohs (ntohs v) = v := by
    unfold ntohs swap
    omega
  rw [← wordSum_beBytes (ntohs_lt h), hv]

theorem be_eq_wordSum (pkt : Packet) (p : Nat) : wordSum (bytesAt pkt p 2) = ntohs (be pkt p) := by
  rw [← wordSum_field (be_lt pkt p)]
  have hfield := bytesAt_storeAt pkt p (be pkt p) (n := 2) (k := 0) (by decide)
  rw [Nat.add_zero, storeAt_self] at hfield
  rw [hfield]
  rfl

end

section

variable {pkt : Packet} {x y : Place} {n : Nat}

theorem optionNext_ext {a b : Place} (h : optionNext pkt a = some b) : extNext pkt a = some b := by
  unfold optionNext at h
  split_ifs at h with htype
  have hread : ¬ Misread pkt a := fun hm => by
    have := hm.1
    omega
  obtain ⟨hrfc, hext⟩ := readNext_eq hread
  rw [hext, ← hrfc, h]

theorem unchained (h : y.type = 6 ∨ y.type = 17) : chained y.type = false := by
  obtain h | h := h <;> rw [h] <;> rfl

theorem ends_options {start : Place} (h : Reach (optionNext pkt) start y)
    (ht : y.type = 6 ∨ y.type = 17) : Ends (extNext pkt) start y := by
  refine ⟨reach_mono (fun _ _ => optionNext_ext) h, ?_⟩
  rw [extNext_eq, unchained ht]
  rfl

section

variable (h : Segment pkt x y n)
include h

theorem segment_fixed : fixedSize y.type ≤ y.remaining := by
  have hcaptured := h.captured.1
  have hheader := h.header
  unfold fixedSize
  split_ifs with htcp
  · have := h.tcp htcp
    omega
  · rw [headerSize, if_neg htcp] at hheader
    omega

theorem segment_kind : y.type = 6 ∨ y.type = 17 ∨ y.type = 1 := by
  obtain ⟨-, -, -, -, -, -, ht⟩ | ⟨-, ht, -⟩ := h.carrier
  · exact ht
  · omega

theorem segment_findTransport (proto : Nat) :
    findTransport pkt.whole x.offset x.type proto x.remaining = .ok y.found := by
  obtain ⟨hip, -, -, -, hnext, -, ht⟩ | ⟨hip, ht, -, start, hstart, hreach⟩ := h.carrier
  · exact findTransport_ip4 proto hip hnext ht
  · rw [findTransport_ip6 proto hip hstart (ends_options hreach ht), extEnd_eq, unchained ht]
    rfl

theorem segment_payloadFrom (proto : Nat) :
    ∃ len, payloadFrom pkt.whole proto x.found = .ok len ∧
      lengthOf len = n + extBytes x y - headerSize pkt y := by
  obtain ⟨hip, h20, -, -, hnext, htotal, ht⟩ | ⟨hip, ht, hplen, start, hstart, hreach⟩ := h.carrier
  · have hext : extBytes x y = 0 := if_neg (by rw [hip]; decide)
    have hn := be_lt pkt (x.offset + 2)
    refine ⟨_, payloadFrom_ip4 proto hip h20 hnext ht (segment_fixed h), ?_⟩
    have hlen : (be pkt (x.offset + 2) : Int) - ((pkt.bytes x.offset).toNat % 16 * 4 : Nat) =
        (n : Nat) := by omega
    rw [hlen, takeHeader_nat _ (by omega), hext, Nat.add_zero]
  · have hn := be_lt pkt (x.offset + 4)
    refine ⟨_, payloadFrom_ip6 proto hip hstart (ends_options hreach ht), ?_⟩
    rw [foundSize_carried (by omega) (segment_fixed h)]
    change lengthOf (takeHeader _ _) = _
    rw [takeHeader_nat _ (by omega), hplen, Nat.add_comm n]

theorem segment_long : x.type = ethertypeIp ∧ 20 ≤ x.remaining ∨
    x.type = ethertypeIpv6 ∧ 40 ≤ x.remaining := by
  obtain ⟨hip, h20, -⟩ | ⟨hip, -, -, start, hstart, -⟩ := h.carrier
  · exact .inl ⟨hip, h20⟩
  · exact .inr ⟨hip, (extStart_some pkt hstart).2⟩

theorem segment_length_lt : n + extBytes x y < 65536 := by
  obtain ⟨hip, -, -, -, -, htotal, -⟩ | ⟨-, -, hplen, -⟩ := h.carrier
  · have hext : extBytes x y = 0 := if_neg (by rw [hip]; decide)
    have := be_lt pkt (x.offset + 2)
    omega
  · have := be_lt pkt (x.offset + 4)
    omega

theorem getPayloadLength_cached (e inner proto : Nat) {c : Caches}
    (h3 : (⟨c.l3Header, c.l3Ethertype, c.l3Remaining⟩ : Found Nat) = x.found)
    (h4 : (⟨c.l4Header, c.transportProto, c.l4Remaining⟩ : Found Nat) = y.found)
    (hc : c.payloadLength = -1) :
    ∃ c', getPayloadLength pkt.whole pkt e inner proto c =
      .ok (n + extBytes x y - headerSize pkt y, c') := by
  have hl3 := getLayer3_cached pkt.whole pkt e (c := { c with payloadLength := 0 })
    (by simp [(Found.mk.inj h3).1])
  have hl4 := getTransport_cached pkt.whole pkt proto inner (c := { c with payloadLength := 0 })
    (by simp [(Found.mk.inj h4).1])
  rw [h3] at hl3
  rw [h4] at hl4
  obtain ⟨len, c', hfrom, hlen⟩ := getPayloadLength_of hc hl3 hl4 (segment_findTransport h proto)
  obtain ⟨len', hfrom', hrest⟩ := segment_payloadFrom h proto
  obtain rfl := ok_unique hfrom hfrom'
  exact ⟨c', hrest ▸ hlen⟩

theorem segment_field : ∃ k, checksumField y.type = some k ∧
    k % 2 = 0 ∧ k + 2 ≤ headerSize pkt y ∧ headerSize pkt y % 2 = 0 := by
  obtain ht | ht | ht := segment_kind h
  · have hsize : headerSize pkt y = 4 * ((pkt.bytes (y.offset + 12)).toNat / 16) := if_pos ht
    have := h.tcp ht
    exact ⟨16, by rw [ht]; rfl, rfl, by omega, by omega⟩
  · have hsize : headerSize pkt y = 8 := if_neg (by omega)
    exact ⟨6, by rw [ht]; rfl, rfl, by omega, by omega⟩
  · have hsize : headerSize pkt y = 8 := if_neg (by omega)
    exact ⟨2, by rw [ht]; rfl, rfl, by omega, by omega⟩

end

theorem copyHeader_eq (safety : Nat → UInt8) (p : Nat) {size i : Nat} (k : Nat) (hi : i < size) :
    copyHeader safety (bytesAt pkt p size) k i = (storeAt pkt (p + k) 0).bytes (p + i) := by
  have hget : (bytesAt pkt p size).getD i (safety i) = pkt.bytes (p + i) := by
    simp [bytesAt, hi]
  simp only [copyHeader, storeAt, hget]
  by_cases hk : i = k
  · simp [hk]
  · by_cases hk' : i = k + 1
    · simp [hk', Nat.add_assoc]
    · rw [if_neg (by omega), if_neg (by omega), if_neg (by omega)]

theorem copied_eq (h : Segment pkt x y n) (safety : Nat → UInt8) {k : Nat}
    (hk : checksumField y.type = some k) :
    copied y.type (copyHeader safety (bytesAt pkt y.offset (headerSize pkt y)) k) =
      bytesAt (storeAt pkt (y.offset + k) 0) y.offset (headerSize pkt y) := by
  have hcopy {i : Nat} (hi : i < headerSize pkt y) :
      copyHeader safety (bytesAt pkt y.offset (headerSize pkt y)) k i =
        (storeAt pkt (y.offset + k) 0).bytes (y.offset + i) :=
    copyHeader_eq safety y.offset k hi
  have hsize : (if y.type = 6 then 4 * ((copyHeader safety
      (bytesAt pkt y.offset (headerSize pkt y)) k 12).toNat / 16) else 8) = headerSize pkt y := by
    by_cases htcp : y.type = 6
    · have h20 := h.tcp htcp
      have hfield : k = 16 := by
        rw [htcp] at hk
        exact (Option.some.inj hk).symm
      rw [hcopy (by omega), storeAt_other pkt 0 (by omega) (by omega), headerSize]
    · rw [headerSize, if_neg htcp, if_neg htcp]
  rw [copied, hsize, bytesAt]
  exact List.map_congr_left fun i hi => hcopy (List.mem_range.mp hi)

def codeSum (pkt : Packet) (x y : Place) (k n : Nat) : Nat :=
  (if y.type = 1 then 0 else pseudoSum pkt x) +
    wordSum (bytesAt (storeAt pkt (y.offset + k) 0) y.offset n)

theorem pseudoSum_lt (pkt : Packet) (x : Place) : pseudoSum pkt x < 2 ^ 22 := by
  have hproto := (pkt.bytes (x.offset + 9)).toNat_lt
  have hnxt := (pkt.bytes (x.offset + 6)).toNat_lt
  have hsrc4 := wordSum_le (bytesAt pkt (x.offset + 12) 8)
  have hsrc6 := wordSum_le (bytesAt pkt (x.offset + 8) 32)
  have hplen := wordSum_le (bytesAt pkt (x.offset + 4) 2)
  rw [length_bytesAt] at hsrc4 hsrc6 hplen
  unfold pseudoSum
  split_ifs
  · have := ntohs_lt (v := (((be pkt (x.offset + 2) : Int) -
      ((pkt.bytes x.offset).toNat % 16 * 4 : Nat)) % 65536).toNat) (by omega)
    omega
  · omega

theorem headerLength_eq (pkt : Packet) (y : Place) :
    headerLength pkt.whole y.offset y.type = .ok (headerSize pkt y) := by
  unfold headerLength headerSize
  split_ifs <;> rfl

theorem codeSum_eq (h : Segment pkt x y n) {k : Nat} (hk : checksumField y.type = some k) :
    (((if y.type = 1 then 0 else pseudoSum pkt x) + addChecksum
      (bytesAt (storeAt pkt (y.offset + k) 0) y.offset (headerSize pkt y))) % 2 ^ 32 +
      addChecksum (bytesAt pkt (y.offset + headerSize pkt y)
        (n + extBytes x y - headerSize pkt y))) % 2 ^ 32 =
      codeSum pkt x y k (n + extBytes x y) := by
  obtain ⟨k', hk', -, hfield, heven⟩ := segment_field h
  obtain rfl := Option.mem_unique hk hk'
  have hheader := h.header
  have hlt := segment_length_lt h
  have hpayload : bytesAt pkt (y.offset + headerSize pkt y) (n + extBytes x y - headerSize pkt y) =
      bytesAt (storeAt pkt (y.offset + k) 0) (y.offset + headerSize pkt y)
        (n + extBytes x y - headerSize pkt y) :=
    bytesAt_congr fun i hi _ => (storeAt_other pkt 0 (by omega) (by omega)).symm
  have hwhole := wordSum_bytesAt_add (storeAt pkt (y.offset + k) 0) y.offset heven
    (n + extBytes x y - headerSize pkt y)
  rw [Nat.add_sub_cancel' (by omega)] at hwhole
  have hpseudo : (if y.type = 1 then 0 else pseudoSum pkt x) < 2 ^ 22 := by
    have := pseudoSum_lt pkt x
    split_ifs <;> omega
  have hsum := wordSum_le (bytesAt (storeAt pkt (y.offset + k) 0) y.offset (n + extBytes x y))
  rw [length_bytesAt] at hsum
  rw [hpayload, addChecksum_bytesAt _ _ (by omega), addChecksum_bytesAt _ _ (by omega),
    Nat.mod_add_mod, codeSum, Nat.add_assoc, hwhole, Nat.mod_eq_of_lt (by omega)]

theorem checksumSegment_run (l : Locals) (h : Segment pkt x y n) {k : Nat}
    (hk : checksumField y.type = some k) {c c' : Caches}
    (hlength : getPayloadLength pkt.whole pkt l.lengthEthertype l.lengthInner l.lengthProto c =
      .ok (n + extBytes x y - headerSize pkt y, c')) :
    checksumSegment pkt.whole pkt l (pseudoSum pkt x) y.offset y.type y.remaining k c =
      .ok (if y.remaining < n + extBytes x y then none
        else some (y.offset + k,
          ntohs (finishChecksum (codeSum pkt x y k (n + extBytes x y)))), c') := by
  have hheader := h.header
  have hcaptured := h.captured.1
  have hlt := segment_length_lt h
  have hpayload : getPayloadFrom y.offset (headerSize pkt y) y.remaining =
      (some (y.offset + headerSize pkt y), y.remaining - headerSize pkt y) := if_neg (by omega)
  have hmod : (n + extBytes x y - headerSize pkt y) % 65536 =
      n + extBytes x y - headerSize pkt y := Nat.mod_eq_of_lt (by omega)
  have hplen : Int.bmod ((n + extBytes x y - headerSize pkt y : Nat) : Int) (2 ^ 32) =
      (n + extBytes x y - headerSize pkt y : Nat) := Int.bmod_eq_of_le (by omega) (by omega)
  rw [checksumSegment, lift_bind, headerLength_eq, ok_bind]
  simp only [hpayload]
  rw [lift_bind, load_whole, ok_bind, bind_of_ok hlength]
  simp only [hplen, hmod, copied_eq h l.safety hk, Int.toNat_natCast]
  rw [if_neg (by omega)]
  by_cases hshort : y.remaining < n + extBytes x y
  · rw [if_pos (by omega), if_pos hshort]
    rfl
  · rw [if_neg (by omega), if_neg hshort, lift_bind, load_whole, ok_bind, codeSum_eq h hk]
    rfl

theorem checksumTransport_run (l : Locals) (hx : Layer3At pkt l.ethertype x) (h : Segment pkt x y n)
    {k : Nat} (hk : checksumField y.type = some k) :
    (checksumTransport pkt.whole pkt l).run' clearCache =
      .ok (if y.remaining < n + extBytes x y then none
        else some (y.offset + k,
          ntohs (finishChecksum (codeSum pkt x y k (n + extBytes x y))))) := by
  obtain ⟨l3, c, hrun, hl3, h4, -, h3, hlen⟩ :=
    getLayer3_uncachedAll (c := clearCache) pkt l.ethertype rfl rfl rfl rfl
  obtain ⟨x', hx', hok⟩ | ⟨hnone, -⟩ := finds_layer3 pkt l.ethertype
  · obtain rfl := layer3At_unique hx hx'
    obtain rfl := ok_unique hl3 hok
    have htransport := getTransport_cached3 pkt 0 l.transportEthertype h4 (h3 rfl)
      (segment_findTransport h 0)
    obtain ⟨c', hlength⟩ := getPayloadLength_cached h l.lengthEthertype l.lengthInner l.lengthProto
      (c := c.storeL4 y.found) (h3 rfl) rfl hlen
    rw [run'_eq, checksumTransport, bind_of_ok hrun]
    simp only [Place.found]
    rw [lift_bind, pseudoChecksum_eq (segment_long h), ok_bind]
    simp only
    rw [bind_of_ok htransport]
    simp only [Place.found, hk]
    have hsegment := checksumSegment_run l h hk hlength
    simp only [Place.found] at hsegment
    rw [hsegment]
    rfl
  · exact (hnone x hx).elim

end

end Libtrace.ChecksumRun
