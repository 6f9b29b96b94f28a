import Libtrace.PacketDecode

/-! Where the layer 2 header of a packet is, read off its bytes: behind a complete SLL, radiotap,
Prism or PFLOG header, or at the start. -/

namespace Libtrace.PacketLayout
open Protocols PacketAccess PacketDecode

variable (pkt : Packet)

def be (i : Nat) : Nat := (pkt.bytes i).toNat * 256 + (pkt.bytes (i + 1)).toNat

def le (i : Nat) : Nat := (pkt.bytes (i + 1)).toNat * 256 + (pkt.bytes i).toNat

/-- Where layer 2 starts and what it is, if the meta-data headers are all there. -/
def headerStart : Option (Nat × LinkType) :=
  match pkt.linkType with
  | .linuxSll =>
    if pkt.size < 16 then none
    else match sllType (be pkt 2) (be pkt 14) with
      | .unknown => none
      | .ieee80211Radio =>
        if pkt.size < 16 + le pkt 18 then none else some (16 + le pkt 18, .ieee80211)
      | t => some (16, t)
  | .ieee80211Radio => if pkt.size < le pkt 2 then none else some (le pkt 2, .ieee80211)
  | .ieee80211Prism => if pkt.size < 144 then none else some (144, .ieee80211)
  | .pflog => if pkt.size < 49 then none else some (49, .none)
  | .unknown => none
  | .legacy => none
  | t => some (0, t)

@[simp] theorem byte_whole (i : Nat) :
    byte pkt.whole i = .ok (pkt.bytes i).toNat := rfl

@[simp] theorem be16_whole (i : Nat) : be16 pkt.whole i = .ok (be pkt i) := rfl

theorem be_lt (i : Nat) : be pkt i < 65536 := by
  have h := (pkt.bytes i).toNat_lt
  have h' := (pkt.bytes (i + 1)).toNat_lt
  unfold be
  omega

@[simp] theorem le16_whole (i : Nat) : le16 pkt.whole i = .ok (le pkt i) := rfl

theorem sllType_cases (arphrd next : Nat) :
    sllType arphrd next = .unknown ∨ sllType arphrd next = .ieee80211Radio ∨
      isLayer2 (sllType arphrd next) = true := by
  unfold sllType arphrdTypeToLibtrace
  split_ifs <;> simp_all [isLayer2]

theorem skipMeta_layer2 (m : Memory) (fuel p : Nat) {lt : LinkType} (h : isLayer2 lt = true)
    (r : Nat) : skipMeta m (fuel + 1) p lt r = .ok ⟨some p, lt, r⟩ := by
  have hnone : getPayloadFromMeta m p lt r = .ok ⟨none, lt, r⟩ := by
    cases lt <;> first | rfl | simp [isLayer2] at h
  simp [skipMeta, hnone, h, bind, Except.bind, pure, Except.pure]

theorem skipMeta_sll (fuel p r : Nat) :
    skipMeta pkt.whole (fuel + 1) p .linuxSll r =
      if r < 16 then .ok ⟨none, .unknown, 0⟩
      else skipMeta pkt.whole fuel (p + 16) (sllType (be pkt (p + 2)) (be pkt (p + 14)))
        (r - 16) := by
  rw [skipMeta, getPayloadFromMeta]
  split_ifs
  · rfl
  · rfl

def Locates (n : Nat) (start : Option (Nat × LinkType)) (d : Decode (Found LinkType)) : Prop :=
  match start with
  | some (p, lt) => p ≤ n ∧ isLayer2 lt = true ∧ d = .ok ⟨some p, lt, n - p⟩
  | none => ∃ lt r, isLayer2 lt = false ∧ d = .ok ⟨none, lt, r⟩

theorem locates_header (m : Memory) (fuel p length n : Nat) {lt next : LinkType} (hp : p ≤ n)
    (hnext : isLayer2 next = true) (hlt : isLayer2 lt = false)
    (h : getPayloadFromMeta m p lt (n - p) = .ok (skipHeader length lt next p (n - p))) :
    Locates n (if n < p + length then none else some (p + length, next))
      (skipMeta m (fuel + 2) p lt (n - p)) := by
  rw [skipMeta, h, skipHeader]
  by_cases hfits : n < p + length
  · rw [if_pos hfits, if_pos (by omega)]
    refine ⟨lt, 0, hlt, ?_⟩
    simp [hlt, bind, Except.bind, pure, Except.pure]
  · rw [if_neg hfits, if_neg (by omega)]
    refine ⟨by omega, hnext, ?_⟩
    rw [← Nat.sub_sub]
    exact skipMeta_layer2 m fuel (p + length) hnext _

theorem locates_sll (h : pkt.linkType = .linuxSll) :
    Locates pkt.size (headerStart pkt) (skipMeta pkt.whole 3 0 .linuxSll pkt.size) := by
  rw [skipMeta_sll, headerStart, h]
  by_cases hshort : pkt.size < 16
  · simp only [if_pos hshort]
    exact ⟨_, _, rfl, rfl⟩
  · simp only [if_neg hshort, Nat.zero_add]
    cases hs : sllType (be pkt 2) (be pkt 14)
    case unknown => exact ⟨_, _, rfl, rfl⟩
    case ieee80211Radio =>
      exact locates_header pkt.whole 0 16 (le pkt 18) pkt.size (by omega) rfl rfl rfl
    all_goals
      first
        | exact ⟨by omega, rfl, skipMeta_layer2 pkt.whole 1 16 rfl _⟩
        | (obtain hc | hc | hc := sllType_cases (be pkt 2) (be pkt 14) <;>
            simp [hs, isLayer2] at hc)

theorem layer2Of_whole :
    Locates pkt.size (headerStart pkt) (layer2Of pkt.whole pkt) := by
  unfold layer2Of findLayer2 metaRounds
  cases hlt : pkt.linkType
  case linuxSll => exact locates_sll pkt hlt
  case ieee80211Radio =>
    simpa [headerStart, hlt, isLayer2] using
      locates_header pkt.whole 1 0 (le pkt 2) pkt.size (Nat.zero_le _) rfl rfl rfl
  case ieee80211Prism =>
    simpa [headerStart, hlt, isLayer2] using
      locates_header pkt.whole 1 0 144 pkt.size (Nat.zero_le _) rfl rfl rfl
  case pflog =>
    simpa [headerStart, hlt, isLayer2] using
      locates_header pkt.whole 1 0 49 pkt.size (Nat.zero_le _) rfl rfl rfl
  case unknown =>
    rw [headerStart, hlt]
    exact ⟨_, _, rfl, rfl⟩
  case legacy =>
    rw [headerStart, hlt]
    exact ⟨_, _, rfl, rfl⟩
  all_goals
    rw [headerStart, hlt]
    exact ⟨Nat.zero_le _, rfl, rfl⟩

theorem layer2_cases :
    (headerStart pkt = none ∧ ∃ lt r, isLayer2 lt = false ∧
      layer2Of pkt.whole pkt = .ok ⟨none, lt, r⟩) ∨
    ∃ p lt, headerStart pkt = some (p, lt) ∧ p ≤ pkt.size ∧ isLayer2 lt = true ∧
      layer2Of pkt.whole pkt = .ok ⟨some p, lt, pkt.size - p⟩ := by
  have hloc := layer2Of_whole pkt
  cases hstart : headerStart pkt with
  | none =>
    rw [hstart] at hloc
    exact .inl ⟨rfl, hloc⟩
  | some start =>
    rw [hstart] at hloc
    exact .inr ⟨start.1, start.2, rfl, hloc⟩

end Libtrace.PacketLayout
