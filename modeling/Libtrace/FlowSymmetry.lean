import Libtrace.FlowReversal

/-! Both directions of a flow have the same bidirectional hash. -/

namespace Libtrace.FlowSymmetry
open Exec Protocols PacketAccess PacketDecode HeaderChain RegionBounds ReadBounds UnsetTypes
  DecodeAgreement TransportAgreement Toeplitz ToeplitzKey FlowHash FlowReversal

section

variable {ports : Bool} {pkt pkt' : Packet} {x : Place} {cnf : Conf} {p n : Nat}

theorem layer3_captured (hr : Readable cnf pkt) (hx : Layer3At pkt 0 x) :
    x.offset + x.remaining ≤ pkt.size ∨ HashCaptured cnf pkt x := by
  rw [layer3At_inside_iff hx]
  exact (Classical.em (Overcounted pkt)).symm.imp_right fun h => hr.captured h x hx

theorem hashed_addresses (hh : hashed cnf x = some (p, n)) :
    addressesAt x = some (p, n) ∧ (n = 4 ∨ n = 16) := by
  unfold hashed at hh
  unfold addressesAt
  split_ifs at hh ⊢ <;> obtain ⟨rfl, rfl⟩ := Prod.mk.inj (Option.some.inj hh) <;> simp

theorem hashed_captured (hr : Readable cnf pkt) (hx : Layer3At pkt 0 x)
    (hh : hashed cnf x = some (p, n)) : p + 2 * n ≤ pkt.size := by
  obtain hsum | hcaptured := layer3_captured hr hx
  · unfold hashed at hh
    split_ifs at hh with h4 hflag h6 hflag <;>
      obtain ⟨rfl, rfl⟩ := Prod.mk.inj (Option.some.inj hh) <;> have := hflag.2 <;> omega
  · exact hcaptured.addresses p n hh

theorem bytes_apart (h : Reversed ports pkt pkt') (hx : Layer3At pkt 0 x)
    (hp : addressesAt x = some (p, n)) {i : Nat} (hsize : i < pkt.size) (hi : i < p ∨ p + 2 * n ≤ i)
    (hq : ∀ q, portsAt pkt x = some q → i < q) : pkt'.bytes i = pkt.bytes i := by
  have heq : exchange ports pkt i = i := by
    rw [exchange_of_layer3 ports hx]
    refine exchangeAt_eq ports (fun p' n' hp' => ?_) hq
    obtain ⟨rfl, rfl⟩ := Prod.mk.inj (Option.mem_unique hp hp')
    exact hi
  rw [h.bytes i hsize (by omega), heq]

variable {proto q : Nat} {f : Found Nat}

theorem ptr_of_portsAt (hq : portsAt pkt x = some q)
    (hf : findTransport pkt.whole x.offset x.type proto x.remaining = .ok f) : f.ptr = some q := by
  obtain ⟨f', hf', hptr, -⟩ := portsAt_found hq
  have hfound := (settled_findTransport pkt.whole x.offset x.type x.remaining).found hf'
    (by rw [hptr]; rfl) proto
  rwa [← ok_unique hfound hf]

theorem portsAt_of_found (hf : findTransport pkt.whole x.offset x.type proto x.remaining = .ok f)
    (hq : f.ptr = some q) (hproto : f.type = 6 ∨ f.type = 17) :
    findTransport pkt.whole x.offset x.type 0 x.remaining = .ok f ∧ portsAt pkt x = some q := by
  have hfound := (settled_findTransport pkt.whole x.offset x.type x.remaining).found hf
    (by rw [hq]; rfl) 0
  refine ⟨hfound, ?_⟩
  simp only [portsAt, hfound]
  rw [if_pos hproto, hq]

theorem ip6Start_place (hlong : ¬ Short pkt x) (hp : addressesAt x = some (p, n))
    {p6 r6 : Nat} (hstart : ip6Start pkt x = some (p6, r6)) :
    p6 + r6 = x.offset + x.remaining ∧ x.offset ≤ p6 ∧
      (p6 + 8 = p ∧ p6 + 40 = p + 2 * n ∨ p + 2 * n ≤ p6) := by
  unfold ip6Start at hstart
  unfold addressesAt at hp
  split_ifs at hp hstart with h4 h6 <;> obtain ⟨rfl, rfl⟩ := Prod.mk.inj (Option.some.inj hp)
  · cases hy : ip4Next pkt x.offset x.remaining with
    | none => simp [hy] at hstart
    | some y =>
      simp only [hy] at hstart
      split_ifs at hstart with h41
      obtain ⟨rfl, rfl⟩ := Prod.mk.inj (Option.some.inj hstart)
      have hge := ip4Next_ge hlong h4 hy
      have hsum : y.offset + y.remaining = x.offset + x.remaining := by
        unfold ip4Next at hy
        split_ifs at hy
        exact (after_sum hy).1
      omega
  · obtain ⟨rfl, rfl⟩ := Prod.mk.inj (Option.some.inj hstart)
    omega

section

variable (h : Reversed ports pkt pkt') (hr : Readable cnf pkt) (hx : Layer3At pkt 0 x)
  (hh : hashed cnf x = some (p, n))
include h hr hx hh

theorem transport_reversed (hlong : ¬ Short pkt x) (hports : hashesPorts cnf x.type = true)
    (proto proto' : Nat)
    (hf : findTransport pkt.whole x.offset x.type proto x.remaining = .ok f) :
    ∃ f', findTransport pkt'.whole x.offset x.type proto' x.remaining = .ok f' ∧ Alike f f' := by
  have hp := (hashed_addresses hh).1
  have hsize := hashed_captured hr hx hh
  have hq {q : Nat} (hq : portsAt pkt x = some q) := portsAt_ge hlong hp hq
  refine findTransport_agree proto proto' hf (fun h4 i hi => ?_) fun p6 r6 hstart => ⟨?_, ?_⟩
  · have hp4 : p = x.offset + 12 := by
      rw [addressesAt, if_pos h4, Option.some.injEq, Prod.mk.injEq] at hp
      omega
    exact bytes_apart h hx hp (by omega) (by omega) fun q hq' => by have := hq hq'; omega
  · obtain ⟨hsum, -⟩ := ip6Start_place hlong hp hstart
    rw [hsum]
    exact (layer3_captured hr hx).imp_right fun hc => (hc.transport hports).ip6 p6 r6 hstart
  · intro i hi hsize' hside hbefore
    obtain ⟨-, -, hplace⟩ := ip6Start_place hlong hp hstart
    exact bytes_apart h hx hp hsize' (by omega) fun q hq' => hbefore q (ptr_of_portsAt hq' hf)

end

theorem hash_fields (biKey : BitVec 16) {k offset : Nat} (res : BitVec 32) (heven : k % 2 = 0)
    (hfits : offset + 2 * k ≤ 36) (hfirst : ∀ j < k, pkt'.bytes (q + j) = pkt.bytes (q + k + j))
    (hsecond : ∀ j < k, pkt'.bytes (q + k + j) = pkt.bytes (q + j)) :
    toeplitzHash (hashExpandKey (createBikey biKey)) (bytesAt pkt' q (2 * k)) offset res =
      toeplitzHash (hashExpandKey (createBikey biKey)) (bytesAt pkt q (2 * k)) offset res := by
  have hleft : bytesAt pkt' q k = bytesAt pkt (q + k) k :=
    List.map_congr_left fun j hj => hfirst j (List.mem_range.mp hj)
  have hright : bytesAt pkt' (q + k) k = bytesAt pkt q k :=
    List.map_congr_left fun j hj => hsecond j (List.mem_range.mp hj)
  have hlength (q : Nat) : (bytesAt pkt q k).length = k := by simp [bytesAt]
  rw [Nat.two_mul, bytesAt_add, bytesAt_add, hleft, hright]
  exact hash_exchange biKey res (by rw [hlength, hlength]) (by rwa [hlength]) (by rwa [hlength])

theorem addresses_reversed (h : Reversed ports pkt pkt') (hr : Readable cnf pkt)
    (hx : Layer3At pkt 0 x) (hh : hashed cnf x = some (p, n)) (biKey : BitVec 16) :
    firstHash (hashExpandKey (createBikey biKey)) (bytesAt pkt' p (2 * n)) =
      firstHash (hashExpandKey (createBikey biKey)) (bytesAt pkt p (2 * n)) := by
  obtain ⟨hp, hn⟩ := hashed_addresses hh
  have hsize := hashed_captured hr hx hh
  have hmove {i : Nat} (hi : p ≤ i ∧ i < p + 2 * n) : exchange ports pkt i = swapAt p n i := by
    rw [exchange_of_layer3 ports hx, exchangeAt, hp]
    exact if_pos hi
  refine hash_fields biKey 0 (by omega) (by omega) (fun j hj => ?_) fun j hj => ?_
  · have heq := hmove (i := p + j) (by omega)
    rw [swapAt, if_pos (by omega)] at heq
    rw [h.bytes _ (by omega) (by omega), heq, Nat.add_right_comm]
  · have heq := hmove (i := p + n + j) (by omega)
    rw [swapAt, if_neg (by omega), if_pos (by omega)] at heq
    rw [h.bytes _ (by omega) (by omega), heq]
    congr 1
    omega

theorem ports_captured (hr : Readable cnf pkt) (hx : Layer3At pkt 0 x)
    (hf : findTransport pkt.whole x.offset x.type 0 x.remaining = .ok f) (hq : f.ptr = some q)
    (haccepts : accepts cnf x.type f.type = true) (hlong : 4 ≤ f.remaining) :
    q + 4 ≤ pkt.size := by
  obtain hsum | hcaptured := layer3_captured hr hx
  · obtain ⟨f', hf', hbound⟩ := findTransport_bounded pkt x.offset x.type 0 x.remaining
    obtain rfl := ok_unique hf hf'
    have := hbound q hq
    omega
  · exact hcaptured.ports f q hf hq haccepts hlong

theorem ports_reversed (h : Reversed ports pkt pkt') (hlong : ¬ Short pkt x) (hx : Layer3At pkt 0 x)
    (hh : hashed cnf x = some (p, n)) (hq : portsAt pkt x = some q) (hsize : q + 4 ≤ pkt.size)
    (biKey : BitVec 16) (res : BitVec 32) :
    toeplitzHash (hashExpandKey (createBikey biKey)) (bytesAt pkt' q 4) (2 * n) res =
      toeplitzHash (hashExpandKey (createBikey biKey)) (bytesAt pkt q 4) (2 * n) res := by
  obtain ⟨hp, hn⟩ := hashed_addresses hh
  have hge := portsAt_ge hlong hp hq
  have hmove {i : Nat} (hi : q ≤ i) :
      exchange ports pkt i = if ports then swapAt q 2 i else i := by
    rw [exchange_of_layer3 ports hx, exchangeAt, hp, hq]
    exact if_neg (by omega)
  cases ports with
  | false =>
    have hsame : bytesAt pkt' q 4 = bytesAt pkt q 4 := by
      refine List.map_congr_left fun j hj => ?_
      have hj := List.mem_range.mp hj
      have heq := hmove (i := q + j) (by omega)
      rw [if_neg (by decide)] at heq
      rw [h.bytes _ (by omega) (by omega), heq]
    rw [hsame]
  | true =>
    refine hash_fields biKey (k := 2) res rfl (by omega) (fun j hj => ?_) fun j hj => ?_
    · have heq := hmove (i := q + j) (by omega)
      rw [if_pos rfl, swapAt, if_pos (by omega)] at heq
      rw [h.bytes _ (by omega) (by omega), heq, Nat.add_right_comm]
    · have heq := hmove (i := q + 2 + j) (by omega)
      rw [if_pos rfl, swapAt, if_neg (by omega), if_pos (by omega)] at heq
      rw [h.bytes _ (by omega) (by omega), heq]
      congr 1
      omega

theorem accepts_proto {ethertype : Nat} (h : accepts cnf ethertype proto = true) :
    proto = 6 ∨ proto = 17 := by
  unfold accepts at h
  split_ifs at h <;> simp only [Bool.or_eq_true, Bool.and_eq_true, decide_eq_true_eq] at h <;> omega

theorem hashesPorts_of_accepts {ethertype : Nat} (h : accepts cnf ethertype proto = true) :
    hashesPorts cnf ethertype = true := by
  rw [hashesPorts, Bool.or_eq_true]
  rcases accepts_proto h with rfl | rfl
  · exact .inl h
  · exact .inr h

theorem hashOfPorts_refused (h : ¬ accepts cnf x.type f.type = true) (n : Nat) (res : BitVec 32) :
    hashOfPorts pkt cnf x f n res = res := by
  unfold hashOfPorts
  cases f.ptr with
  | none => rfl
  | some q => exact if_neg fun hboth => h hboth.1

theorem hashOfPorts_short (h : ¬ Overlapping cnf pkt x) (hshort : Short pkt x)
    (hf : findTransport pkt.whole x.offset x.type proto x.remaining = .ok f) (n : Nat)
    (res : BitVec 32) : hashOfPorts pkt cnf x f n res = res := by
  cases hq : f.ptr with
  | none => rw [hashOfPorts, hq]
  | some q =>
    refine hashOfPorts_refused (fun haccepts => h ⟨hshort, ?_⟩) n res
    obtain ⟨hfound, -⟩ := portsAt_of_found hf hq (accepts_proto haccepts)
    obtain ⟨y, hy, ⟨h41, -⟩ | ⟨-, htype, -⟩⟩ := findTransport_behind hshort.1 hfound hq
    · exact ⟨y, hy, .inr (.inl ⟨h41, hashesPorts_of_accepts haccepts⟩)⟩
    · exact ⟨y, hy, .inl (htype ▸ haccepts)⟩

theorem hashOfPorts_long (h : Reversed ports pkt pkt') {biKey : BitVec 16}
    (hr : Readable (initConfig cnf biKey) pkt) (hlong : ¬ Short pkt x) (hx : Layer3At pkt 0 x)
    (hh : hashed (initConfig cnf biKey) x = some (p, n)) {f' : Found Nat}
    (hf : findTransport pkt.whole x.offset x.type proto x.remaining = .ok f)
    (halike : Alike f f') (res : BitVec 32) :
    hashOfPorts pkt' (initConfig cnf biKey) x f' n res =
      hashOfPorts pkt (initConfig cnf biKey) x f n res := by
  unfold hashOfPorts
  obtain rfl | ⟨hnone, hnone'⟩ := halike
  · cases hq : f'.ptr with
    | none => rfl
    | some q =>
      split_ifs with haccepts
      · obtain ⟨hfound, hports⟩ := portsAt_of_found hf hq (accepts_proto haccepts.1)
        exact ports_reversed h hlong hx hh hports
          (ports_captured hr hx hfound hq haccepts.1 haccepts.2) biKey res
      · rfl
  · rw [hnone, hnone']

theorem hashOfPorts_reversed (h : Reversed ports pkt pkt') {biKey : BitVec 16}
    (hr : Readable (initConfig cnf biKey) pkt) (hr' : Readable (initConfig cnf biKey) pkt')
    (hx : Layer3At pkt 0 x) (hx' : Layer3At pkt' 0 x) (hsize : x.offset < pkt.size)
    (hh : hashed (initConfig cnf biKey) x = some (p, n)) {proto' : Nat} {f' : Found Nat}
    (hf : findTransport pkt.whole x.offset x.type proto x.remaining = .ok f)
    (hf' : findTransport pkt'.whole x.offset x.type proto' x.remaining = .ok f')
    (res : BitVec 32) :
    hashOfPorts pkt' (initConfig cnf biKey) x f' n res =
      hashOfPorts pkt (initConfig cnf biKey) x f n res := by
  by_cases hshort : Short pkt x
  · have hbyte : pkt'.bytes x.offset = pkt.bytes x.offset :=
      bytes_before h hr hsize fun y hy => (layer3At_unique hx hy ▸ Nat.le_refl x.offset)
    have hshort' : Short pkt' x := ⟨hshort.1, by rw [hbyte]; exact hshort.2⟩
    rw [hashOfPorts_short (hr.apart x hx) hshort hf,
      hashOfPorts_short (hr'.apart x hx') hshort' hf']
  · by_cases hports : hashesPorts (initConfig cnf biKey) x.type = true
    · obtain ⟨f'', hf'', halike⟩ := transport_reversed h hr hx hh hshort hports proto proto' hf
      obtain rfl := ok_unique hf'' hf'
      exact hashOfPorts_long h hr hshort hx hh hf halike res
    · rw [hashOfPorts_refused fun haccepts => hports (hashesPorts_of_accepts haccepts),
        hashOfPorts_refused fun haccepts => hports (hashesPorts_of_accepts haccepts)]

theorem hashed_none (h : ¬ hashesAny cnf = true) (x : Place) : hashed cnf x = none := by
  simp only [hashesAny, Bool.or_eq_true, not_or] at h
  simp [hashed, h]

theorem readable_initConfig (h : Readable cnf pkt) (biKey : BitVec 16) :
    Readable (initConfig cnf biKey) pkt where
  versioned := h.versioned
  captured hover x hx :=
    ⟨(h.captured hover x hx).addresses, (h.captured hover x hx).transport,
      (h.captured hover x hx).ports⟩
  apart := h.apart

end

def allFlags : Conf := ⟨true, true, true, true, true, true, fun _ => 0⟩

def packetOf (lt : LinkType) (size : Fin 65536) (data : List UInt8) : Packet where
  bytes i := data.getD i 0
  linkType := lt
  captureLength := size
  wireLength := size
  captureLength_lt := size.isLt
  wireLength_lt := by omega

def tcpFrame (src dst sport dport : UInt8) : Packet :=
  packetOf .eth 54 (List.replicate 12 0 ++ [0x08, 0x00, 0x45, 0, 0, 40, 0, 0, 0, 0, 64, 6, 0, 0,
    10, 0, 0, src, 10, 0, 0, dst, 0, sport, 0, dport])

def wifiTcp (src dst next : UInt8) : Packet :=
  packetOf .ieee80211 52 (0x08 :: 0x01 :: (List.replicate 22 0 ++
    [0xaa, 0xaa, 3, 0, 0, 0, 0x08, 0x00, 0x45, 0, 0, 40, 0, 0, 0, 0, 64, 6, 0, 0,
      10, 0, 0, src, 10, 0, 0, dst, next]))

theorem wifiTcp_hash {pkt : Packet} {biKey : BitVec 16}
    (hx : layer3Of pkt.whole pkt 0 = .ok ⟨some 32, ethertypeIp, 44⟩)
    (hf : findTransport pkt.whole 32 ethertypeIp 0 44 = .ok ⟨some 52, 6, 24⟩) :
    (hashPacket pkt.whole pkt (initConfig allFlags biKey) ⟨0, 0, 0⟩).run' clearCache =
      .ok ((toeplitzHash (hashExpandKey (createBikey biKey)) (bytesAt pkt 52 4) 8
        (firstHash (hashExpandKey (createBikey biKey)) (bytesAt pkt 44 8))).setWidth 64) :=
  hashPacket_hashed pkt ⟨0, 0, 0⟩ (x := ⟨ethertypeIp, 32, 44⟩) (layer3At_of_decoded hx)
    (p := 44) (n := 4) rfl hf

theorem hash_first_bit (keyCache : Nat → BitVec 32) (res : BitVec 32) :
    toeplitzHash keyCache [0, 0, 0, 0] 8 res = res ∧
      toeplitzHash keyCache [0x80, 0, 0, 0] 8 res = res ^^^ keyCache 64 := ⟨rfl, rfl⟩

end Libtrace.FlowSymmetry
