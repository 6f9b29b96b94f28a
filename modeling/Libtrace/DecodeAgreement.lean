import Libtrace.ReadBounds
import Libtrace.UnsetTypes

/-! Which bytes decide where the headers of a packet are. -/

namespace Libtrace.DecodeAgreement
open Orbit Protocols PacketAccess PacketLayout HeaderChain RegionBounds UnsetTypes

section

variable {pkt pkt' : Packet} {n : Nat}

variable {k : Nat} {lt : LinkType} {p size r : Nat} {x : Place} {e : Nat} {y : Place}

theorem be_agree (hb : ∀ i ≤ n, pkt'.bytes i = pkt.bytes i) (hk : k + 1 ≤ n) :
    be pkt' k = be pkt k := by
  rw [be, be, hb k (by omega), hb (k + 1) hk]

theorem le_agree (hb : ∀ i ≤ n, pkt'.bytes i = pkt.bytes i) (hk : k + 1 ≤ n) :
    le pkt' k = le pkt k := by
  rw [le, le, hb k (by omega), hb (k + 1) hk]

theorem headerStart_agree (hlt : pkt'.linkType = pkt.linkType) (hsize : pkt'.size = pkt.size)
    (h : headerStart pkt = some (p, lt)) (hp : p ≤ n) (hwifi : lt = .ieee80211 → p + 19 ≤ n)
    (hb : ∀ i ≤ n, pkt'.bytes i = pkt.bytes i) : headerStart pkt' = some (p, lt) := by
  unfold headerStart at h ⊢
  rw [hlt, hsize]
  cases hl : pkt.linkType
  case linuxSll =>
    simp only [hl] at h ⊢
    by_cases hshort : pkt.size < 16
    · simp [hshort] at h
    · simp only [if_neg hshort] at h ⊢
      have h16 : 16 ≤ p := by
        cases hs : sllType (be pkt 2) (be pkt 14) <;> simp only [hs] at h <;>
          (try split_ifs at h) <;> simp at h <;> omega
      rw [be_agree hb (by omega), be_agree hb (by omega)]
      cases hs : sllType (be pkt 2) (be pkt 14)
      case ieee80211Radio =>
        simp only [hs] at h ⊢
        split_ifs at h with hradio
        obtain ⟨rfl, rfl⟩ := Prod.mk.inj (Option.some.inj h)
        rw [le_agree hb (by have := hwifi rfl; omega), if_neg hradio]
      all_goals simp only [hs] at h; exact h
  case ieee80211Radio =>
    simp only [hl] at h ⊢
    split_ifs at h with hshort
    obtain ⟨rfl, rfl⟩ := Prod.mk.inj (Option.some.inj h)
    rw [le_agree hb (by have := hwifi rfl; omega), if_neg hshort]
  all_goals rw [hl] at h; exact h

theorem after_offset {type : Nat} (h : after size type p r = some x) : x.offset = p + size := by
  rw [(after_some h).1]

theorem payload_offset (h : payload pkt e lt p r = some x) :
    p ≤ x.offset ∧ (lt = .ieee80211 → p + 26 ≤ x.offset) := by
  have hlength := wifiLength_bounds pkt p
  cases lt
  case none => exact ⟨by simp [← Option.some.inj h], by simp⟩
  case openbsdLoop => exact ⟨by simp [← Option.some.inj h], by simp⟩
  case ieee80211 =>
    simp only [payload] at h
    split_ifs at h <;> rw [← Option.some.inj h] <;> constructor <;> simp only <;> omega
  all_goals
    first
      | cases h
      | exact ⟨by have := after_offset h; omega, by simp⟩

theorem fixed_agree (h2 : 2 ≤ size) {c : Nat → Nat}
    (h : after size (c (be pkt (p + size - 2))) p r = some x)
    (hb : ∀ i ≤ x.offset, pkt'.bytes i = pkt.bytes i) :
    after size (c (be pkt' (p + size - 2))) p r = some x := by
  have hx := after_offset h
  rwa [be_agree hb (by omega)]

theorem wifi_offset (h : payload pkt e .ieee80211 p r = some x) :
    p + wifiLength pkt p + 2 ≤ x.offset ∧
      (isWifiLlc pkt p → p + wifiLength pkt p + 8 ≤ x.offset) := by
  simp only [payload] at h
  split_ifs at h with hdata hllc <;> rw [← Option.some.inj h]
  · exact ⟨by simp only; omega, fun _ => Nat.le_refl _⟩
  · exact ⟨Nat.le_refl _, fun h => (hllc h).elim⟩

theorem wifi_agree (h : payload pkt e .ieee80211 p r = some x)
    (hb : ∀ i ≤ x.offset, pkt'.bytes i = pkt.bytes i) : payload pkt' e .ieee80211 p r = some x := by
  obtain ⟨hx, hx'⟩ := wifi_offset h
  have hbounds := wifiLength_bounds pkt p
  have hlength : wifiLength pkt' p = wifiLength pkt p := by
    rw [wifiLength, wifiLength, hb p (by omega), hb (p + 1) (by omega)]
  have hdata : isWifiData pkt' p r ↔ isWifiData pkt p r := by
    rw [isWifiData, isWifiData, hb p (by omega)]
  have htype : be pkt' (p + wifiLength pkt p) = be pkt (p + wifiLength pkt p) :=
    be_agree hb (by omega)
  have hllc : isWifiLlc pkt' p ↔ isWifiLlc pkt p := by
    rw [isWifiLlc, isWifiLlc, hlength, htype]
  simp only [payload, hdata, hllc, hlength, htype] at h ⊢
  split_ifs at h ⊢ with hd hl
  · rwa [be_agree hb (by have := hx' hl; omega)]
  · exact h

theorem payload_agree (h : payload pkt e lt p r = some x)
    (hb : ∀ i ≤ x.offset, pkt'.bytes i = pkt.bytes i) : payload pkt' e lt p r = some x := by
  cases lt
  case none =>
    have hx : x.offset = p := by rw [← Option.some.inj h]
    simp only [payload] at h ⊢
    rwa [hb p (by omega)]
  case openbsdLoop =>
    have hx : x.offset = p + 4 := by rw [← Option.some.inj h]
    simp only [payload] at h ⊢
    rwa [hb (p + 4) (by omega)]
  case ieee80211 => exact wifi_agree h hb
  all_goals
    first
      | cases h
      | exact fixed_agree (by decide) h hb

theorem mpls_agree (h : mplsNext pkt p r = some y)
    (hb : ∀ i ≤ y.offset, pkt'.bytes i = pkt.bytes i) : mplsNext pkt' p r = some y := by
  unfold mplsNext at h ⊢
  have hy := after_offset h
  rwa [hb (p + 2) (by omega), hb (p + 4) (by omega)]

theorem stackNext_agree (h : stackNext pkt x = some y)
    (hb : ∀ i ≤ y.offset, pkt'.bytes i = pkt.bytes i) : stackNext pkt' x = some y := by
  unfold stackNext at h ⊢
  split_ifs at h ⊢
  · exact fixed_agree (c := id) (by decide) h hb
  · exact mpls_agree h hb
  · exact fixed_agree (by decide) h hb

theorem reach_offset (h : Reach (stackNext pkt) x y) : x.offset ≤ y.offset := by
  refine reach_inv (fun z => x.offset ≤ z.offset) (fun a b hab ha => ?_) h (Nat.le_refl _)
  have := stackNext_sum hab
  omega

theorem reach_agree (h : Reach (stackNext pkt) x y)
    (hb : ∀ i ≤ y.offset, pkt'.bytes i = pkt.bytes i) : Reach (stackNext pkt') x y := by
  induction h using Relation.ReflTransGen.head_induction_on with
  | refl => exact reach_refl y
  | head hab hreach ih =>
    have hle := reach_offset hreach
    exact reach_head (stackNext_agree hab fun i hi => hb i (by omega)) ih

theorem layer3At_agree (hlt : pkt'.linkType = pkt.linkType) (hsize : pkt'.size = pkt.size)
    (h : Layer3At pkt e x) (hb : ∀ i ≤ x.offset, pkt'.bytes i = pkt.bytes i) :
    Layer3At pkt' e x := by
  obtain ⟨start, hstart, hreach, hl3⟩ := h
  have hle := reach_offset hreach
  refine ⟨start, ?_, reach_agree hreach hb, hl3⟩
  unfold stackStart at hstart ⊢
  cases hs : headerStart pkt with
  | none => simp [hs] at hstart
  | some link =>
    obtain ⟨p, lt⟩ := link
    simp only [hs] at hstart
    obtain ⟨hp, hwifi⟩ := payload_offset hstart
    rw [headerStart_agree hlt hsize hs (n := x.offset) (by omega)
      (fun h => by have := hwifi h; omega) hb, hsize]
    exact payload_agree hstart fun i hi => hb i (by omega)

def Unversioned (pkt : Packet) : Prop :=
  ∃ p, headerStart pkt = some (p, .none) ∧ p < pkt.size ∧ noVersion (pkt.bytes p) ∨
    headerStart pkt = some (p, .openbsdLoop) ∧ p < pkt.size ∧ noVersion (pkt.bytes (p + 4))

theorem versionType_eq {b : UInt8} (h : ¬ noVersion b) (e e' : Nat) :
    versionType b e = versionType b e' := by
  unfold versionType
  unfold noVersion at h
  split_ifs <;> first | rfl | omega

theorem layer3At_versioned (h : ¬ Unversioned pkt) (e' : Nat) (hx : Layer3At pkt e x) :
    Layer3At pkt e' x := by
  obtain ⟨start, hstart, hreach, hl3⟩ := hx
  refine ⟨start, ?_, hreach, hl3⟩
  unfold stackStart at hstart ⊢
  cases hs : headerStart pkt with
  | none => simp [hs] at hstart
  | some link =>
    obtain ⟨p, lt⟩ := link
    simp only [hs] at hstart ⊢
    -- there is nothing in an empty packet
    have hne : start.remaining ≠ 0 := fun h0 => by
      obtain rfl := reach_stop (stackNext_of_empty pkt h0) hreach
      exact hl3.1 h0
    cases lt
    case none =>
      simp only [payload] at hstart ⊢
      rw [← Option.some.inj hstart] at hne
      rwa [versionType_eq (fun hv => h ⟨p, .inl ⟨hs, by simp only at hne; omega, hv⟩⟩) e' e]
    case openbsdLoop =>
      simp only [payload] at hstart ⊢
      rw [← Option.some.inj hstart] at hne
      rwa [versionType_eq (fun hv => h ⟨p, .inr ⟨hs, by simp only at hne; omega, hv⟩⟩) e' e]
    all_goals exact hstart

end

end Libtrace.DecodeAgreement
