import Libtrace.PcapViews

/-! When the captured bytes settle that the wire length of a record counts the checksum. -/

namespace Libtrace.MissingFcs
open Exec Protocols PcapFile PcapViews

theorem skipBitmasks_agree {m : Memory} {fuel p q : Nat} (h : skipBitmasks m fuel p = .ok q) :
    p + 4 ≤ q ∧ ∀ m' : Memory, (∀ j < q, m' j = m j) → skipBitmasks m' fuel p = .ok q := by
  induction fuel generalizing p with
  | zero => cases h
  | succ fuel ih =>
    obtain ⟨mask, hmask, h⟩ := except_bind_ok.mp h
    by_cases hext : mask / 2 ^ 31 % 2 = 1
    · rw [if_pos hext] at h
      obtain ⟨hle, hagree⟩ := ih h
      refine ⟨by omega, fun m' hm => except_bind_ok.mpr ⟨mask, ?_, ?_⟩⟩
      · rw [le32_agree fun j hj => hm j (by omega), hmask]
      · rw [if_pos hext]
        exact hagree m' hm
    · rw [if_neg hext] at h
      obtain rfl := Except.ok.inj h
      refine ⟨Nat.le_refl _, fun m' hm => except_bind_ok.mpr ⟨mask, ?_, if_neg hext⟩⟩
      rw [le32_agree hm, hmask]

theorem wirelessFlags_agree {m : Memory} {flags : Nat} (h : wirelessFlags m = .ok (some flags)) :
    ∃ k, byte m k = .ok flags ∧
      ∀ m' : Memory, (∀ j ≤ k, m' j = m j) → wirelessFlags m' = .ok (some flags) := by
  obtain ⟨present, hpresent, h⟩ := except_bind_ok.mp h
  by_cases habsent : present / 2 % 2 = 0
  · rw [if_pos habsent] at h
    cases h
  rw [if_neg habsent] at h
  obtain ⟨q, hq, h⟩ := except_bind_ok.mp h
  obtain ⟨found, hfound, h⟩ := except_bind_ok.mp h
  obtain rfl : found = flags := Option.some.inj (Except.ok.inj h)
  refine ⟨_, hfound, fun m' hm => ?_⟩
  have hk : q ≤ if present % 2 = 1 then q + 8 else q := by split <;> omega
  obtain ⟨hle, hskip⟩ := skipBitmasks_agree hq
  refine except_bind_ok.mpr ⟨present, ?_, ?_⟩
  · rw [le32_agree fun j hj => hm j (by omega), hpresent]
  · rw [if_neg habsent]
    refine except_bind_ok.mpr ⟨q, hskip m' fun j hj => hm j (by omega), ?_⟩
    refine except_bind_ok.mpr ⟨found, ?_, rfl⟩
    rw [byte_agree (hm _ (Nat.le_refl _)), hfound]

def captured (body : List UInt8) : Memory := fun i => body[i]?

/-- The captured bytes have the flag for a checksum in a radiotap header, or a protocol other than
0x0060 in an SLL header. -/
def Unmarked (dlt : Nat) (body : List UInt8) : Prop :=
  (dlt = 127 → ∃ flags, wirelessFlags (captured body) = .ok (some flags) ∧ flags / 16 % 2 = 1) ∧
    (dlt = 113 → (∃ b, body[14]? = some b ∧ b ≠ 0) ∨ (∃ b, body[15]? = some b ∧ b ≠ 0x60))

def worstBuffer : Nat → UInt8 := fun i => if i = pktHdrSize + 15 then 0x60 else 0

variable {body : List UInt8} {buffer : Nat → UInt8}

theorem payloadMemory_eq {i : Nat} (hi : pktHdrSize + i < packetBufsize) (h : i < body.length) :
    payloadMemory body buffer i = captured body i := by
  rw [payloadMemory, if_pos hi, captured, List.getElem?_eq_getElem h]
  rfl

theorem wirelessFlags_captured {flags : Nat} (hfit : pktHdrSize + body.length ≤ packetBufsize)
    (h : wirelessFlags (captured body) = .ok (some flags)) :
    wirelessFlags (payloadMemory body buffer) = .ok (some flags) := by
  obtain ⟨k, hk, hagree⟩ := wirelessFlags_agree h
  obtain ⟨b, hb, _⟩ := byte_ok hk
  obtain ⟨hlt, _⟩ := List.getElem?_eq_some_iff.mp hb
  exact hagree _ fun j hj => payloadMemory_eq (by omega) (by omega)

theorem wirelessFlags_worst {flags : Nat}
    (h : wirelessFlags (payloadMemory body worstBuffer) = .ok (some flags))
    (hset : flags / 16 % 2 = 1) : wirelessFlags (captured body) = .ok (some flags) := by
  obtain ⟨k, hk, hagree⟩ := wirelessFlags_agree h
  obtain ⟨b, hb, rfl⟩ := byte_ok hk
  have hin : pktHdrSize + k < packetBufsize := by
    by_contra hout
    rw [payloadMemory, if_neg hout] at hb
    cases hb
  by_cases hlt : k < body.length
  · exact hagree _ fun j hj => (payloadMemory_eq (by omega) (by omega)).symm
  · rw [payloadMemory, if_pos hin, List.getElem?_eq_none (by omega), Option.getD_none,
      worstBuffer] at hb
    obtain rfl := Option.some.inj hb
    split at hset <;> simp at hset

theorem be16_payloadMemory : be16 (payloadMemory body buffer) 14 =
    .ok ((body[14]?.getD (buffer 30)).toNat * 256 + (body[15]?.getD (buffer 31)).toNat) := rfl

theorem be16_ne_iff (a b : UInt8) : a.toNat * 256 + b.toNat ≠ 0x60 ↔ a ≠ 0 ∨ b ≠ 0x60 := by
  rw [Ne, Ne, Ne, ← UInt8.toNat_inj, ← UInt8.toNat_inj]
  change _ ↔ ¬ a.toNat = 0 ∨ ¬ b.toNat = 0x60
  omega

theorem exists_of_getD_ne {o : Option UInt8} {b : UInt8} (h : o.getD b ≠ b) :
    ∃ c, o = some c ∧ c ≠ b := by
  cases o with
  | none => exact absurd rfl h
  | some c => exact ⟨c, rfl, h⟩

theorem missing_false_of_unmarked {dlt flags : Nat} (hd : dlt ≠ 1)
    (hfit : pktHdrSize + body.length ≤ packetBufsize) (h : Unmarked dlt body) :
    missing dlt flags body buffer = .ok false := by
  rw [missing, if_neg hd]
  split
  · rename_i h127
    obtain ⟨found, hfound, hset⟩ := h.1 h127
    have hne : body ≠ [] := by
      rintro rfl
      cases hfound
    rw [bodyFlags, if_neg hne, wirelessFlags_captured hfit hfound, ok_bind]
    simp [hset, pure, Except.pure]
  split
  · rename_i h113
    have hother := h.2 h113
    have hne : body ≠ [] := by
      rintro rfl
      simp at hother
    rw [if_neg hne, be16_payloadMemory, ok_bind]
    refine congrArg Except.ok (decide_eq_false ((be16_ne_iff _ _).mpr ?_))
    rcases hother with ⟨b, hb, hne⟩ | ⟨b, hb, hne⟩
    · exact .inl (by rwa [hb])
    · exact .inr (by rwa [hb])
  · rfl

theorem unmarked_of_missing_false {dlt : Nat} (h : missing dlt 0 body worstBuffer = .ok false) :
    Unmarked dlt body := by
  constructor
  · rintro rfl
    obtain ⟨found, hfound, h⟩ := except_bind_ok.mp h
    have hset : ¬ found.getD 0 / 16 % 2 = 0 := of_decide_eq_false (Except.ok.inj h)
    cases found with
    | none => simp at hset
    | some flags =>
      unfold bodyFlags at hfound
      split at hfound
      · cases hfound
      · have hodd : flags / 16 % 2 = 1 := by
          rw [Option.getD_some] at hset
          omega
        exact ⟨flags, wirelessFlags_worst hfound hodd, hodd⟩
  · rintro rfl
    rw [missing, if_neg (by decide), if_neg (by decide), if_pos rfl] at h
    split at h
    · cases h
    have hother := (be16_ne_iff _ _).mp (of_decide_eq_false (Except.ok.inj h))
    exact hother.imp exists_of_getD_ne exists_of_getD_ne

end Libtrace.MissingFcs
