import Libtrace.DecodeAgreement

/-! The transport header of two packets that agree on what is read on the way to it. -/

namespace Libtrace.TransportAgreement
open Exec Orbit Protocols PacketAccess PacketLayout HeaderChain Layer3Reads ReadBounds

def Alike (f f' : Found Nat) : Prop := f' = f ∨ f.ptr = none ∧ f'.ptr = none

def Before (f : Found Nat) (i : Nat) : Prop := ∀ q, f.ptr = some q → i < q

/-- A short extension header ends the search, anything else is the transport header. -/
def extEnd (prot : Nat) (x : Place) : Found Nat :=
  if isExtension x.type ∨ x.type = 44 then ⟨none, prot, 0⟩ else x.found

section

variable {pkt pkt' : Packet}

variable {x y : Place} {f : Found Nat}

theorem extensions_next (prot fuel : Nat) (h : extNext pkt x = some y) :
    ip6Extensions pkt.whole prot (fuel + 1) x.offset x.type x.remaining =
      ip6Extensions pkt.whole prot fuel y.offset y.type y.remaining := by
  unfold extNext after at h
  simp only [ip6Extensions, byte_whole, bind, Except.bind]
  split_ifs at h with hext hlen hfragment hlen <;> rw [← Option.some.inj h]
  · rw [if_pos hext, if_neg hlen]
  · rw [if_neg hext, if_neg (by omega), if_pos hfragment, if_neg hlen]

theorem extensions_end (prot fuel : Nat) (h : extNext pkt x = none) :
    ip6Extensions pkt.whole prot (fuel + 1) x.offset x.type x.remaining = .ok (extEnd prot x) := by
  unfold extNext after at h
  simp only [ip6Extensions, byte_whole, bind, Except.bind, extEnd]
  split_ifs at h with hext hlen hfragment hlen
  · rw [if_pos hext, if_pos hlen, if_pos (.inl hext)]
    rfl
  · rw [if_neg hext, if_neg (by omega), if_pos hfragment, if_pos hlen, if_pos (.inr hfragment)]
  · rw [if_neg hext, if_neg (not_or.mpr ⟨hext, hfragment⟩)]
    split_ifs with hesp
    · rw [Place.found, hesp]
    · rfl

theorem extNext_offset (h : extNext pkt x = some y) : x.offset + 8 ≤ y.offset := by
  unfold extNext at h
  split_ifs at h <;> have := DecodeAgreement.after_offset h <;> omega

theorem extensions_ge {prot fuel : Nat}
    (h : ip6Extensions pkt.whole prot fuel x.offset x.type x.remaining = .ok f) {q : Nat}
    (hq : f.ptr = some q) : x.offset ≤ q := by
  induction fuel generalizing x with
  | zero => cases h
  | succ fuel ih =>
    cases hnext : extNext pkt x with
    | some y =>
      rw [extensions_next prot fuel hnext] at h
      have := extNext_offset hnext
      have := ih h
      omega
    | none =>
      rw [extensions_end prot fuel hnext, Except.ok.injEq] at h
      rw [← h, extEnd] at hq
      split_ifs at hq
      exact Nat.le_of_eq (Option.some.inj hq)

theorem extNext_agree (hc : x.offset + x.remaining ≤ pkt.size ∨ Captured pkt x.offset (extNeeds x))
    (hb : ∀ i, x.offset ≤ i → i < x.offset + 2 → i < pkt.size → pkt'.bytes i = pkt.bytes i) :
    extNext pkt' x = extNext pkt x := by
  unfold extNext
  split_ifs with hext hfragment
  · by_cases hshort : x.remaining < 8
    · unfold after
      rw [if_pos (by omega), if_pos (by omega)]
    · have hcaptured : x.offset + 2 ≤ pkt.size := by
        rw [Captured, extNeeds, if_pos hext] at hc
        omega
      rw [hb x.offset (by omega) (by omega) (by omega),
        hb (x.offset + 1) (by omega) (by omega) (by omega)]
  · by_cases hshort : x.remaining < 8
    · unfold after
      rw [if_pos hshort, if_pos hshort]
    · have hcaptured : x.offset + 1 ≤ pkt.size := by
        rw [Captured, extNeeds, if_neg hext, if_pos hfragment, if_neg hshort] at hc
        omega
      rw [hb x.offset (by omega) (by omega) (by omega)]
  · rfl

theorem extensions_agree (prot prot' fuel : Nat) (hfuel : x.remaining < fuel)
    (hc : x.offset + x.remaining ≤ pkt.size ∨ ExtCaptured pkt x)
    (h : ip6Extensions pkt.whole prot fuel x.offset x.type x.remaining = .ok f)
    (hb : ∀ i, x.offset ≤ i → i < pkt.size → Before f i → pkt'.bytes i = pkt.bytes i) :
    ∃ f', ip6Extensions pkt'.whole prot' fuel x.offset x.type x.remaining = .ok f' ∧
      Alike f f' := by
  induction fuel generalizing x with
  | zero => omega
  | succ fuel ih =>
    have hc' : x.offset + x.remaining ≤ pkt.size ∨ Captured pkt x.offset (extNeeds x) :=
      hc.imp_right fun h => h x (reach_refl x)
    cases hnext : extNext pkt x with
    | some y =>
      have hy := extNext_offset hnext
      rw [extensions_next prot fuel hnext] at h
      have hnext' : extNext pkt' x = some y := by
        rw [extNext_agree hc' fun i hi hi2 hsize => hb i hi hsize fun q hq => ?_, hnext]
        have := extensions_ge h hq
        omega
      have hsum : y.offset + y.remaining = x.offset + x.remaining := by
        unfold extNext at hnext
        split_ifs at hnext <;> exact (after_sum hnext).1
      rw [extensions_next prot' fuel hnext']
      refine ih (by omega) ?_ h fun i hi => hb i (by omega)
      exact hc.imp (by omega) fun h z hz => h z (reach_head hnext hz)
    | none =>
      rw [extensions_end prot fuel hnext, Except.ok.injEq] at h
      have hnext' : extNext pkt' x = none := by
        by_cases hext : isExtension x.type ∨ x.type = 44
        · have hnone : f.ptr = none := by rw [← h, extEnd, if_pos hext]
          rw [extNext_agree hc' fun i hi _ hsize => hb i hi hsize fun q hq => ?_, hnext]
          simp [hnone] at hq
        · obtain ⟨hext, hfragment⟩ := not_or.mp hext
          exact (extNext_of_other pkt' hext hfragment).1
      refine ⟨_, extensions_end prot' fuel hnext', ?_⟩
      rw [← h, extEnd, extEnd]
      split_ifs
      · exact .inr ⟨rfl, rfl⟩
      · exact .inl rfl

end

section

variable {pkt pkt' : Packet}

variable {p r : Nat} {f : Found Nat}

theorem ip6_agree (prot prot' : Nat) (hc : p + r ≤ pkt.size ∨ Ip6Captured pkt p r)
    (h : getPayloadFromIp6 pkt.whole p prot r = .ok f)
    (hb : ∀ i, p ≤ i → i < pkt.size → i < p + 8 ∨ p + 40 ≤ i → Before f i →
      pkt'.bytes i = pkt.bytes i) :
    ∃ f', getPayloadFromIp6 pkt'.whole p prot' r = .ok f' ∧ Alike f f' := by
  simp only [getPayloadFromIp6, byte_whole, bind, Except.bind] at h ⊢
  by_cases hshort : r < 40
  · rw [if_pos hshort] at h ⊢
    obtain rfl := Except.ok.inj h
    exact ⟨_, rfl, .inr ⟨rfl, rfl⟩⟩
  · rw [if_neg hshort] at h ⊢
    have hstart : extStart pkt p r = some ⟨(pkt.bytes (p + 6)).toNat, p + 40, r - 40⟩ :=
      if_neg hshort
    have hnxt : pkt'.bytes (p + 6) = pkt.bytes (p + 6) := by
      refine hb (p + 6) (by omega) ?_ (by omega) fun q hq => ?_
      · obtain hc | hc := hc
        · omega
        · have := hc.1
          rw [Captured] at this
          omega
      · have := extensions_ge (x := ⟨_, p + 40, r - 40⟩) h hq
        simp only at this
        omega
    rw [hnxt]
    refine extensions_agree prot prot' r (x := ⟨_, p + 40, r - 40⟩) (by simp only; omega) ?_ h
      fun i hi => ?_
    · exact hc.imp (by simp only; omega) fun hc => hc.2 _ hstart
    · exact fun hsize hbefore => hb i (by simp only at hi; omega) hsize (.inr hi) hbefore

theorem ip4Next_agree (hb : ∀ i < 10, pkt'.bytes (p + i) = pkt.bytes (p + i)) :
    ip4Next pkt' p r = ip4Next pkt p r := by
  have hfirst := hb 0 (by decide)
  rw [Nat.add_zero] at hfirst
  rw [ip4Next, ip4Next, be, be, hfirst, hb 6 (by decide), Nat.add_assoc, hb 7 (by decide),
    hb 9 (by decide)]

theorem findTransport_agree (proto proto' : Nat) {x : Place}
    (h : findTransport pkt.whole x.offset x.type proto x.remaining = .ok f)
    (hip : x.type = ethertypeIp → ∀ i < 12,
      pkt'.bytes (x.offset + i) = pkt.bytes (x.offset + i))
    (hip6 : ∀ p r, ip6Start pkt x = some (p, r) → (p + r ≤ pkt.size ∨ Ip6Captured pkt p r) ∧
      ∀ i, p ≤ i → i < pkt.size → i < p + 8 ∨ p + 40 ≤ i → Before f i →
        pkt'.bytes i = pkt.bytes i) :
    ∃ f', findTransport pkt'.whole x.offset x.type proto' x.remaining = .ok f' ∧ Alike f f' := by
  by_cases h4 : x.type = ethertypeIp
  · have hsame := ip4Next_agree (r := x.remaining) fun i hi => hip h4 i (by omega)
    cases hy : ip4Next pkt x.offset x.remaining with
    | none =>
      obtain ⟨type, r, hok⟩ := findTransport_stops pkt h4 proto hy
      obtain ⟨type', r', hok'⟩ := findTransport_stops pkt' h4 proto' (hsame.trans hy)
      obtain rfl := ok_unique hok h
      exact ⟨_, hok', .inr ⟨rfl, rfl⟩⟩
    | some y =>
      rw [findTransport_next pkt h4 proto hy] at h
      rw [findTransport_next pkt' h4 proto' (hsame.trans hy)]
      by_cases h41 : y.type = 41
      · rw [if_pos h41] at h ⊢
        obtain ⟨hc, hb⟩ := hip6 y.offset y.remaining (by simp [ip6Start, h4, hy, h41])
        exact ip6_agree 41 41 hc h hb
      · rw [if_neg h41] at h ⊢
        exact ⟨f, h, .inl rfl⟩
  · rw [findTransport, if_neg h4] at h ⊢
    by_cases h6 : x.type = ethertypeIpv6
    · rw [if_pos h6] at h ⊢
      obtain ⟨hc, hb⟩ := hip6 x.offset x.remaining (by rw [ip6Start, if_neg h4, if_pos h6])
      exact ip6_agree proto proto' hc h hb
    · rw [if_neg h6] at h ⊢
      exact ⟨_, rfl, .inl (Except.ok.inj h)⟩

end

end Libtrace.TransportAgreement
