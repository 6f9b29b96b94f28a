import Libtrace.TransportAgreement

/-! The extension headers of an IPv6 packet as RFC 8200 and RFC 4302 define them, and when
`trace_get_payload_from_ip6` follows them: it takes the length of an authentication header to be in
units of eight bytes. -/

namespace Libtrace.ExtensionWalk
open Exec Orbit Protocols PacketAccess PacketLayout HeaderChain ReadBounds TransportAgreement

def chained (type : Nat) : Bool := isExtension type || type = 44

section

variable (pkt : Packet)

variable (x : Place)

def extLen : Nat := (pkt.bytes (x.offset + 1)).toNat

/-- That of an authentication header is in units of four bytes, less two. -/
def rfcLength : Nat :=
  if x.type = 44 then 8
  else if x.type = 51 then (extLen pkt x + 2) * 4
  else (extLen pkt x + 1) * 8

def rfcNext : Option Place :=
  if chained x.type then after (rfcLength pkt x) (pkt.bytes x.offset).toNat x.offset x.remaining
  else none

/-- The decoder returns the header behind the extension headers, or nothing if they are not all
within `n` bytes. -/
def WalksByRfc (p prot n : Nat) : Prop :=
  ∃ f, getPayloadFromIp6 pkt.whole p prot n = .ok f ∧
    (∀ x y, extStart pkt p n = some x → Ends (rfcNext pkt) x y → chained y.type = false →
      f = ⟨some y.offset, y.type, n - (y.offset - p)⟩) ∧
    (extStart pkt p n = none ∨
      (∃ x y, extStart pkt p n = some x ∧ Ends (rfcNext pkt) x y ∧ chained y.type = true) →
      f.ptr = none ∧ f.remaining = 0)

def Misread : Prop :=
  x.type = 51 ∧ rfcLength pkt x ≤ x.remaining ∧ extLen pkt x ≠ 0

instance (x : Place) : Decidable (Misread pkt x) := inferInstanceAs (Decidable (_ ∧ _ ∧ _))

def readNext : Option Place := if Misread pkt x then none else rfcNext pkt x

/-- The walk meets no authentication header whose length is not zero and that is all there. -/
def WellRead (x : Place) : Prop := ∀ y, Reach (rfcNext pkt) x y → ¬ Misread pkt y

/-- The first of them, with the header that it names. -/
def FirstMisread (x y : Place) (type : Nat) : Prop :=
  Reach (readNext pkt) x y ∧ Misread pkt y ∧ (pkt.bytes y.offset).toNat = type

end

section

variable {pkt : Packet} {x y : Place}

theorem extNext_eq (pkt : Packet) (x : Place) :
    extNext pkt x = if chained x.type then
      after (if x.type = 44 then 8 else (extLen pkt x + 1) * 8) (pkt.bytes x.offset).toNat
        x.offset x.remaining
      else none := by
  unfold extNext chained extLen
  by_cases hext : isExtension x.type = true
  · have h44 : x.type ≠ 44 := fun h => by rw [h] at hext; cases hext
    simp [hext, h44, Nat.add_mul]
  · by_cases h44 : x.type = 44
    · have : isExtension 44 = false := rfl
      simp [h44, this]
    · simp [hext, h44]

theorem readNext_eq (h : ¬ Misread pkt x) :
    rfcNext pkt x = readNext pkt x ∧ extNext pkt x = readNext pkt x := by
  have hread : readNext pkt x = rfcNext pkt x := if_neg h
  refine ⟨hread.symm, ?_⟩
  rw [hread, extNext_eq, rfcNext]
  by_cases hc : chained x.type = true
  · rw [if_pos hc, if_pos hc, rfcLength]
    by_cases h44 : x.type = 44
    · rw [if_pos h44, if_pos h44]
    · rw [if_neg h44, if_neg h44]
      by_cases h51 : x.type = 51
      · rw [if_pos h51]
        unfold Misread at h
        rw [rfcLength, if_neg h44, if_pos h51] at h
        by_cases hlen : extLen pkt x = 0
        · rw [hlen]
        · unfold after
          rw [if_pos (by omega), if_pos (by omega)]
      · rw [if_neg h51]
  · rw [if_neg hc, if_neg hc]

theorem readNext_some (h : readNext pkt x = some y) :
    rfcNext pkt x = some y ∧ extNext pkt x = some y := by
  have hread : ¬ Misread pkt x := fun hm => by
    rw [readNext, if_pos hm] at h
    cases h
  obtain ⟨hrfc, hext⟩ := readNext_eq hread
  exact ⟨hrfc.trans h, hext.trans h⟩

theorem rfcNext_lt (h : rfcNext pkt x = some y) : y.remaining < x.remaining := by
  have hpos : 0 < rfcLength pkt x := by
    unfold rfcLength
    split_ifs <;> omega
  unfold rfcNext at h
  split_ifs at h
  have := after_sum h
  omega

theorem rfcNext_sum (h : rfcNext pkt x = some y) :
    y.offset + y.remaining = x.offset + x.remaining := by
  unfold rfcNext at h
  split_ifs at h
  exact (after_sum h).1

theorem readNext_ends (pkt : Packet) (x : Place) : ∃ y, Ends (readNext pkt) x y :=
  ends_exists Place.remaining (fun _ _ h => rfcNext_lt (readNext_some h).1) x

theorem rfcNext_ends (pkt : Packet) (x : Place) : ∃ y, Ends (rfcNext pkt) x y :=
  ends_exists Place.remaining (fun _ _ h => rfcNext_lt h) x

theorem reach_rfc (h : Reach (readNext pkt) x y) : Reach (rfcNext pkt) x y :=
  reach_mono (fun _ _ h => (readNext_some h).1) h

theorem reach_ext (h : Reach (readNext pkt) x y) : Reach (extNext pkt) x y :=
  reach_mono (fun _ _ h => (readNext_some h).2) h

theorem ends_wellRead (h : WellRead pkt x) (hy : Ends (rfcNext pkt) x y) :
    Ends (extNext pkt) x y := by
  obtain ⟨z, hreach, hend⟩ := readNext_ends pkt x
  obtain ⟨hrfc, hext⟩ := readNext_eq (h z (reach_rfc hreach))
  obtain rfl := ends_unique hy ⟨reach_rfc hreach, hrfc.trans hend⟩
  exact ⟨reach_ext hreach, hext.trans hend⟩

theorem after_of_le {size type p r : Nat} (h : size ≤ r) :
    after size type p r = some ⟨type, p + size, r - size⟩ := if_neg (Nat.not_lt.mpr h)

/-- In front of the upper-layer header the two lengths lead to different places. -/
theorem ends_misread {type : Nat} (h : FirstMisread pkt x y type) (hlast : chained type = false) :
    ∃ u z, Ends (rfcNext pkt) x u ∧ Ends (extNext pkt) x z ∧ u ≠ z ∧ chained u.type = false := by
  obtain ⟨hreach, ⟨h51, hfits, hlen⟩, rfl⟩ := h
  have hchained : chained y.type = true := by rw [h51]; rfl
  have h44 : y.type ≠ 44 := by omega
  have hrfc : rfcNext pkt y = some _ := (if_pos hchained).trans (after_of_le hfits)
  have hext := extNext_eq pkt y
  rw [if_pos hchained, if_neg h44] at hext
  have hstop (z : Place) (hz : chained z.type = false) :
      rfcNext pkt z = none ∧ extNext pkt z = none := by
    rw [rfcNext, extNext_eq, hz]
    exact ⟨rfl, rfl⟩
  have hu : Ends (rfcNext pkt) x _ := (ends_along (reach_rfc hreach)).mpr
    ⟨reach_head hrfc (reach_refl _), (hstop _ hlast).1⟩
  by_cases hlong : (extLen pkt y + 1) * 8 ≤ y.remaining
  · rw [after_of_le hlong] at hext
    refine ⟨_, _, hu, (ends_along (reach_ext hreach)).mpr ⟨reach_head hext (reach_refl _),
      (hstop _ hlast).2⟩, fun heq => ?_, hlast⟩
    have hoffset := congrArg Place.offset heq
    simp only [rfcLength, if_neg h44, if_pos h51] at hoffset
    omega
  · rw [after, if_pos (by omega)] at hext
    refine ⟨_, y, hu, (ends_along (reach_ext hreach)).mpr ⟨reach_refl y, hext⟩, fun heq => ?_,
      hlast⟩
    rw [← heq] at hchained
    exact Bool.false_ne_true (hlast.symm.trans hchained)

end

section

variable {pkt : Packet}

theorem extEnd_eq (prot : Nat) (x : Place) :
    extEnd prot x = if chained x.type = true then ⟨none, prot, 0⟩ else x.found := by
  unfold extEnd chained
  simp only [Bool.or_eq_true, decide_eq_true_eq]

variable {x z : Place} {p n : Nat}

theorem extensions_of_ends (prot fuel : Nat) (hfuel : x.remaining < fuel)
    (h : Ends (extNext pkt) x z) :
    ip6Extensions pkt.whole prot fuel x.offset x.type x.remaining = .ok (extEnd prot z) := by
  induction fuel generalizing x with
  | zero => omega
  | succ fuel ih =>
    cases hnext : extNext pkt x with
    | some y =>
      have hlt := extNext_lt pkt hnext
      rw [extensions_next prot fuel hnext]
      exact ih (by omega) ((ends_along (reach_head hnext (reach_refl y))).mp h)
    | none =>
      rw [extensions_end prot fuel hnext, reach_stop hnext h.1]

theorem ip6_of_start (prot : Nat) (hx : extStart pkt p n = some x) (hz : Ends (extNext pkt) x z) :
    getPayloadFromIp6 pkt.whole p prot n = .ok (extEnd prot z) := by
  unfold extStart after at hx
  split_ifs at hx with hshort
  obtain rfl := Option.some.inj hx
  simp only [getPayloadFromIp6, byte_whole, bind, Except.bind, if_neg hshort]
  exact extensions_of_ends prot n (by simp only; omega) hz

theorem ip6_of_short (prot : Nat) (hx : extStart pkt p n = none) :
    getPayloadFromIp6 pkt.whole p prot n = .ok ⟨none, prot, 0⟩ := by
  unfold extStart after at hx
  split_ifs at hx with hshort
  simp only [getPayloadFromIp6, byte_whole, bind, Except.bind, if_pos hshort]
  rfl

theorem rfc_sum {y : Place} (hx : extStart pkt p n = some x) (hy : Reach (rfcNext pkt) x y) :
    p ≤ y.offset ∧ y.remaining = n - (y.offset - p) := by
  obtain ⟨hsum, hsize⟩ := after_sum hx
  have hx' : x.offset = p + 40 := DecodeAgreement.after_offset hx
  have hinv := reach_inv (fun z => p ≤ z.offset ∧ z.offset + z.remaining = p + n)
    (fun a b hab ha => by
      have h1 := rfcNext_sum hab
      have h2 := rfcNext_lt hab
      omega) hy (by omega)
  omega

theorem walks_iff (prot : Nat) {y : Place} (hx : extStart pkt p n = some x)
    (hy : Ends (rfcNext pkt) x y) (hz : Ends (extNext pkt) x z) :
    WalksByRfc pkt p prot n ↔ y = z ∨ chained y.type = true ∧ chained z.type = true := by
  have hsum := (rfc_sum hx hy.1).2
  have hrun := ip6_of_start prot hx hz
  rw [extEnd_eq] at hrun
  constructor
  · rintro ⟨f, hf, hfound, hcut⟩
    obtain rfl := ok_unique hrun hf
    by_cases hyc : chained y.type = true
    · have hnone := (hcut (.inr ⟨x, y, hx, hy, hyc⟩)).1
      split_ifs at hnone with hzc
      · exact .inr ⟨hyc, hzc⟩
      · cases hnone
    · have heq := hfound x y hx hy (by simpa using hyc)
      split_ifs at heq with hzc
      · cases heq
      · rw [Place.found, Found.mk.injEq, Option.some.injEq, ← hsum] at heq
        obtain ⟨yt, yo, yr⟩ := y
        obtain ⟨zt, zo, zr⟩ := z
        obtain ⟨rfl, rfl, rfl⟩ := heq
        exact .inl rfl
  · intro hsame
    refine ⟨_, hrun, fun x' y' hx' hy' hyc => ?_, ?_⟩
    · obtain rfl := Option.mem_unique hx hx'
      obtain rfl := ends_unique hy hy'
      obtain rfl | ⟨hyc', -⟩ := hsame
      · rw [if_neg (by simp [hyc]), Place.found, hsum]
      · rw [hyc] at hyc'
        cases hyc'
    · rintro (hnone | ⟨x', y', hx', hy', hyc⟩)
      · rw [hx] at hnone
        cases hnone
      · obtain rfl := Option.mem_unique hx hx'
        obtain rfl := ends_unique hy hy'
        have hzc : chained z.type = true := by
          obtain rfl | ⟨-, hzc⟩ := hsame
          · exact hyc
          · exact hzc
        rw [if_pos hzc]
        exact ⟨rfl, rfl⟩

end

/-- The decoder follows the extension headers if it comes to no authentication header whose length
is not zero, and does not if the first such header is the last extension header. -/
theorem walksByRfc_wellRead (pkt : Packet) (p prot n : Nat) :
    ((∀ x, extStart pkt p n = some x → WellRead pkt x) → WalksByRfc pkt p prot n) ∧
      ∀ x y type, extStart pkt p n = some x → FirstMisread pkt x y type → chained type = false →
        ¬ WalksByRfc pkt p prot n := by
  refine ⟨fun h => ?_, fun x y type hx hy hlast hwalks => ?_⟩
  · cases hx : extStart pkt p n with
    | some x =>
      obtain ⟨y, hy⟩ := rfcNext_ends pkt x
      exact (walks_iff prot hx hy (ends_wellRead (h x hx) hy)).mpr (.inl rfl)
    | none =>
      refine ⟨_, ip6_of_short prot hx, fun x y h => ?_, fun _ => ⟨rfl, rfl⟩⟩
      rw [hx] at h
      cases h
  · obtain ⟨u, z, hu, hz, hne, hupper⟩ := ends_misread hy hlast
    obtain heq | ⟨hchained, -⟩ := (walks_iff prot hx hu hz).mp hwalks
    · exact hne heq
    · rw [hupper] at hchained
      cases hchained

def authPacket : Packet where
  bytes i := if i = 0 then 0x60 else if i = 6 then 51 else if i = 40 then 6 else if i = 41 then 4
    else 0
  linkType := .eth
  captureLength := 84
  wireLength := 84
  captureLength_lt := by decide
  wireLength_lt := by decide

/-- The TCP header at 64 is taken to be at 80. -/
theorem authPacket_misread : ¬ WalksByRfc authPacket 0 0 84 := by
  rintro ⟨f, hf, hfound, -⟩
  have hrun : getPayloadFromIp6 authPacket.whole 0 0 84 = .ok ⟨some 80, 6, 4⟩ := by decide +kernel
  have hnext : rfcNext authPacket ⟨51, 40, 44⟩ = some ⟨6, 64, 20⟩ := by decide +kernel
  have hend : Ends (rfcNext authPacket) ⟨51, 40, 44⟩ ⟨6, 64, 20⟩ :=
    ⟨reach_head hnext (reach_refl _), by decide +kernel⟩
  have heq := hfound ⟨51, 40, 44⟩ ⟨6, 64, 20⟩ (by decide +kernel) hend (by decide)
  rw [← ok_unique hrun hf] at heq
  revert heq
  decide

end Libtrace.ExtensionWalk
