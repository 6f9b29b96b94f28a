import Libtrace.ToeplitzKey
import Libtrace.TransportAgreement

/-! What `toeplitz_hash_packet` returns for a packet whose caches are clear: 0 if no address is
hashed, else the hash over addresses and ports. -/

namespace Libtrace.FlowHash
open Exec Protocols PacketAccess PacketDecode HeaderChain RegionBounds ReadBounds Toeplitz

def bytesAt (pkt : Packet) (p n : Nat) : List UInt8 := (List.range n).map fun k => pkt.bytes (p + k)

def hashed (cnf : Conf) (x : Place) : Option (Nat × Nat) :=
  if x.type = ethertypeIp then
    if (cnf.hashIpv4 || cnf.hashTcpIpv4 || cnf.xHashUdpIpv4) ∧ 20 ≤ x.remaining then
      some (x.offset + 12, 4)
    else none
  else if x.type = ethertypeIpv6 then
    if (cnf.hashIpv6 || cnf.hashTcpIpv6 || cnf.xHashUdpIpv6) ∧ 40 ≤ x.remaining then
      some (x.offset + 8, 16)
    else none
  else none

def accepts (cnf : Conf) (ethertype proto : Nat) : Bool :=
  if ethertype = ethertypeIp then
    proto = 17 && cnf.xHashUdpIpv4 || proto = 6 && cnf.hashTcpIpv4
  else proto = 17 && cnf.xHashUdpIpv6 || proto = 6 && cnf.hashTcpIpv6

def hashOfPorts (pkt : Packet) (cnf : Conf) (x : Place) (f : Found Nat) (n : Nat)
    (res : BitVec 32) : BitVec 32 :=
  match f.ptr with
  | none => res
  | some q =>
    if accepts cnf x.type f.type ∧ 4 ≤ f.remaining then
      toeplitzHash cnf.keyCache (bytesAt pkt q 4) (2 * n) res
    else res

theorem bytesAt_add (pkt : Packet) (p n k : Nat) :
    bytesAt pkt p (n + k) = bytesAt pkt p n ++ bytesAt pkt (p + n) k := by
  simp [bytesAt, List.range_add, Nat.add_assoc]

@[simp] theorem length_bytesAt (pkt : Packet) (p n : Nat) : (bytesAt pkt p n).length = n := by
  simp [bytesAt]

theorem bytesAt_congr {pkt pkt' : Packet} {p n : Nat}
    (h : ∀ i, p ≤ i → i < p + n → pkt'.bytes i = pkt.bytes i) :
    bytesAt pkt' p n = bytesAt pkt p n := by
  refine List.map_congr_left fun i hi => h _ (by omega) ?_
  have := List.mem_range.mp hi
  omega

section

variable (pkt : Packet)
include pkt

theorem load_whole (p n : Nat) : load pkt.whole p n = .ok (bytesAt pkt p n) := by
  induction n generalizing p with
  | zero => rfl
  | succ n ih =>
    rw [load, Nat.add_comm n 1, bytesAt_add]
    rw [ih]
    rfl

theorem getLayer3_again (e : Nat) {c : Caches}
    (hl : c.l2Header = none → c.linkType = pkt.linkType) :
    ∃ f c', getLayer3 pkt.whole pkt e c = .ok (f, c') := by
  by_cases h3 : c.l3Header.isSome = true
  · exact ⟨_, _, getLayer3_cached pkt.whole pkt e h3⟩
  · rw [getLayer3_uncached pkt.whole pkt e (Option.not_isSome_iff_eq_none.mp h3)]
    cases h2 : c.l2Header with
    | some p =>
      rw [getLayer2_cached pkt.whole pkt (by simp [h2]), h2]
      change ∃ f c', (findLayer3 pkt.whole ⟨some p, c.linkType, c.l2Remaining⟩ e >>= fun found =>
        _) = _
      obtain ⟨x, -, hok⟩ | ⟨-, type, r, hok⟩ :=
        finds_findLayer3 pkt e p c.l2Remaining c.linkType
      · rw [hok]
        exact ⟨_, _, rfl⟩
      · rw [hok]
        exact ⟨_, _, rfl⟩
    | none =>
      rw [getLayer2_uncached pkt.whole pkt h2 (.inr (hl h2))]
      obtain ⟨f, hf⟩ := layer3_returns pkt e
      obtain ⟨link, hlink, hfind⟩ := except_bind_ok.mp hf
      rw [hlink]
      change ∃ f c', (findLayer3 pkt.whole link e >>= fun found => _) = _
      rw [hfind]
      exact ⟨_, _, rfl⟩

theorem getTransport_again (proto e : Nat) {c : Caches} (h4 : c.l4Header = none)
    (hl : c.l2Header = none → c.linkType = pkt.linkType) :
    ∃ f c', getTransport pkt.whole pkt proto e c = .ok (f, c') := by
  rw [getTransport_uncached pkt.whole pkt proto e h4]
  obtain ⟨l3, c', hrun⟩ := getLayer3_again pkt e hl
  rw [hrun]
  obtain ⟨ptr, type, r⟩ := l3
  cases ptr with
  | none => exact ⟨_, _, rfl⟩
  | some p =>
    obtain ⟨f, hf, -⟩ := findTransport_bounded pkt p type proto r
    change ∃ f c', (findTransport pkt.whole p type proto r >>= fun found => _) = _
    rw [hf]
    exact ⟨_, _, rfl⟩

theorem getTransport_cached3 (proto e : Nat) {c : Caches} (h4 : c.l4Header = none) {x : Place}
    (h3 : (⟨c.l3Header, c.l3Ethertype, c.l3Remaining⟩ : Found Nat) = x.found) {f : Found Nat}
    (hf : findTransport pkt.whole x.offset x.type proto x.remaining = .ok f) :
    getTransport pkt.whole pkt proto e c = .ok (f, c.storeL4 f) := by
  have hsome : c.l3Header.isSome = true := by
    rw [(Found.mk.inj h3).1]
    rfl
  rw [getTransport_uncached pkt.whole pkt proto e h4, getLayer3_cached pkt.whole pkt e hsome, h3]
  change (findTransport pkt.whole x.offset x.type proto x.remaining >>= fun found => _) = _
  rw [hf]
  rfl

theorem hashAddresses_hashed {cnf : Conf} {x : Place} {p n : Nat} (h : hashed cnf x = some (p, n)) :
    ∃ tcp udp, hashAddresses pkt.whole cnf x.found =
        .ok (some ⟨firstHash cnf.keyCache (bytesAt pkt p (2 * n)), 2 * n, tcp, udp⟩) ∧
      ∀ proto, (proto = 17 ∧ udp = true ∨ proto = 6 ∧ tcp = true) ↔
        accepts cnf x.type proto = true := by
  unfold hashed at h
  simp only [hashAddresses, Place.found]
  split_ifs at h with h4 hflag h6 hflag <;>
    obtain ⟨rfl, rfl⟩ := Prod.mk.inj (Option.some.inj h)
  · simp only [if_pos h4, if_pos hflag, load_whole]
    exact ⟨_, _, rfl, fun proto => by simp [accepts, h4]⟩
  · simp only [if_neg h4, if_pos h6, if_pos hflag, load_whole]
    exact ⟨_, _, rfl, fun proto => by simp [accepts, h4]⟩

theorem hashAddresses_unhashed {cnf : Conf} {x : Place} (h : hashed cnf x = none) :
    hashAddresses pkt.whole cnf x.found = .ok none ∨
      hashAddresses pkt.whole cnf x.found = .ok (some noProgress) := by
  unfold hashed at h
  split_ifs at h with h4 hflag h6 hflag
  · exact .inr ((if_pos h4).trans (if_neg hflag))
  · exact .inr ((if_neg h4).trans ((if_pos h6).trans (if_neg hflag)))
  · exact .inl ((if_neg h4).trans (if_neg h6))

end

theorem hashPorts_noProgress (m : Memory) (cnf : Conf) (l4 : Found Nat) :
    hashPorts m cnf noProgress l4 = .ok 0 := by
  unfold hashPorts noProgress
  split <;> simp

section

variable (pkt : Packet) {cnf : Conf} (unset : Unset)

theorem hashPacket_unhashed (h : ∀ x, Layer3At pkt unset.ethType x → hashed cnf x = none) :
    (hashPacket pkt.whole pkt cnf unset).run' clearCache = .ok 0 := by
  obtain ⟨f, c, hrun, hf, h4, hl, -⟩ := getLayer3_first pkt unset.ethType
  have haddresses : hashAddresses pkt.whole cnf f = .ok none ∨
      hashAddresses pkt.whole cnf f = .ok (some noProgress) := by
    obtain ⟨x, hx, hok⟩ | ⟨-, type, r, hok⟩ := finds_layer3 pkt unset.ethType
    · rw [ok_unique hf hok]
      exact hashAddresses_unhashed pkt (h x hx)
    · rw [ok_unique hf hok]
      exact .inr rfl
  obtain ⟨l4, c', hrun'⟩ := getTransport_again pkt unset.proto unset.inner h4 hl
  rw [run'_eq, hashPacket, bind_of_ok hrun, lift_bind]
  obtain ha | ha := haddresses
  · rw [ha]
    rfl
  · rw [ha]
    change Prod.fst <$> finishHash pkt.whole pkt cnf unset (some noProgress) c = _
    rw [finishHash, bind_of_ok hrun', lift_bind, hashPorts_noProgress]
    rfl

theorem hashPacket_hashed {x : Place} (hx : Layer3At pkt unset.ethType x) {p n : Nat}
    (hh : hashed cnf x = some (p, n)) {f : Found Nat}
    (hf : findTransport pkt.whole x.offset x.type unset.proto x.remaining = .ok f) :
    (hashPacket pkt.whole pkt cnf unset).run' clearCache = .ok ((hashOfPorts pkt cnf x f n
      (firstHash cnf.keyCache (bytesAt pkt p (2 * n)))).setWidth 64) := by
  obtain ⟨l3, c, hrun, hl3, h4, -, h3⟩ := getLayer3_first pkt unset.ethType
  obtain ⟨y, hy, hok⟩ | ⟨hnone, -⟩ := finds_layer3 pkt unset.ethType
  · obtain rfl := layer3At_unique hx hy
    obtain rfl := ok_unique hl3 hok
    obtain ⟨tcp, udp, haddresses, haccepts⟩ := hashAddresses_hashed pkt hh
    have hrun' := getTransport_cached3 pkt unset.proto unset.inner h4 (h3 rfl) hf
    rw [run'_eq, hashPacket, bind_of_ok hrun, lift_bind, haddresses]
    change Prod.fst <$> finishHash pkt.whole pkt cnf unset (some _) c = _
    rw [finishHash, bind_of_ok hrun', lift_bind]
    unfold hashPorts hashOfPorts
    simp only [haccepts]
    cases f.ptr with
    | none => rfl
    | some q =>
      simp only
      split_ifs
      · rw [load_whole]
        rfl
      · rfl
  · exact (hnone x hx).elim

end

end Libtrace.FlowHash
