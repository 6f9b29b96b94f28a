import Libtrace.ErfRecords
import Libtrace.Exec

/-! The extension headers of an ERF record, and how many `erf_get_framing_length` counts. -/

namespace Libtrace.ErfExtensions
open Exec ByteOrder Window Protocols ErfFile ErfRecords
open PcapFile (packetBufsize le32)

def word (buffer : Nat → UInt8) (i : Nat) : Nat :=
  leNat (window buffer (dagRecordSize + 8 * i) (dagRecordSize + 8 * i + 8))

variable {buffer : Nat → UInt8} {i : Nat}

theorem byte_buffer (h : i < packetBufsize) :
    byte (bufferMemory buffer) i = .ok (buffer i).toNat := by
  simp only [byte, bufferMemory, if_pos h]

theorem le64_buffer (h : i + 8 ≤ packetBufsize) :
    le64 (bufferMemory buffer) i = .ok (leNat (window buffer i (i + 8))) := by
  have hwindow : window buffer i (i + 8) = [buffer i, buffer (i + 1), buffer (i + 2),
      buffer (i + 2 + 1), buffer (i + 4), buffer (i + 4 + 1), buffer (i + 4 + 2),
      buffer (i + 4 + 2 + 1)] := by
    rw [window, Nat.add_sub_cancel_left]
    rfl
  simp only [le64, le32, le16, byte_buffer (show i < packetBufsize by omega),
    byte_buffer (show i + 1 < packetBufsize by omega),
    byte_buffer (show i + 2 < packetBufsize by omega),
    byte_buffer (show i + 2 + 1 < packetBufsize by omega),
    byte_buffer (show i + 4 < packetBufsize by omega),
    byte_buffer (show i + 4 + 1 < packetBufsize by omega),
    byte_buffer (show i + 4 + 2 < packetBufsize by omega),
    byte_buffer (show i + 4 + 2 + 1 < packetBufsize by omega), ok_bind, hwindow]
  refine congrArg Except.ok ?_
  simp only [leNat, List.foldr_cons, List.foldr_nil]
  omega

theorem le64_ok {n : Nat} (h : le64 (bufferMemory buffer) i = .ok n) :
    n = leNat (window buffer i (i + 8)) := by
  by_cases hin : i + 8 ≤ packetBufsize
  · rw [le64_buffer hin] at h
    exact (Except.ok.inj h).symm
  · -- the last byte is behind the end of the buffer
    obtain ⟨_, -, h⟩ := except_bind_ok.mp h
    obtain ⟨_, hhigh, -⟩ := except_bind_ok.mp h
    obtain ⟨_, -, hhigh⟩ := except_bind_ok.mp hhigh
    obtain ⟨_, hlast, -⟩ := except_bind_ok.mp hhigh
    obtain ⟨_, -, hlast⟩ := except_bind_ok.mp hlast
    obtain ⟨_, hbyte, -⟩ := except_bind_ok.mp hlast
    simp only [byte, bufferMemory, if_neg (show ¬ i + 4 + 2 + 1 < packetBufsize by omega)] at hbyte
    cases hbyte

/-- All headers from `i` to before `k` are smaller than `1UL << 31`, and `k` is not. -/
structure StopsAt (buffer : Nat → UInt8) (i k : Nat) : Prop where
  le : i ≤ k
  small : ∀ j, i ≤ j → j < k → word buffer j < 2 ^ 31
  large : 2 ^ 31 ≤ word buffer k

theorem StopsAt.head {k : Nat} (h : StopsAt buffer i k) (hne : i ≠ k) :
    word buffer i < 2 ^ 31 ∧ StopsAt buffer (i + 1) k := by
  have hle := h.le
  exact ⟨h.small i (Nat.le_refl i) (by omega), by omega, fun j hj => h.small j (by omega), h.large⟩

theorem extensionSize_ok {rlen fuel e : Nat}
    (h : extensionSize (bufferMemory buffer) rlen fuel (8 * (i + 1)) = .ok e) :
    ∃ k, e = 8 * (k + 1) ∧ StopsAt buffer i k := by
  induction fuel generalizing i with
  | zero => cases h
  | succ fuel ih =>
    obtain ⟨exthdr, hread, h⟩ := except_bind_ok.mp h
    have hoffset : dagRecordSize + 8 * (i + 1) - 8 = dagRecordSize + 8 * i := by omega
    obtain rfl : exthdr = word buffer i := le64_ok hread
    by_cases hsmall : word buffer i < 2 ^ 31
    · rw [if_pos hsmall] at h
      by_cases hfits : 8 * (i + 1) + 8 ≤ rlen
      · rw [if_pos hfits] at h
        obtain ⟨k, he, hk⟩ := ih (i := i + 1) h
        refine ⟨k, he, Nat.le_of_succ_le hk.le, fun j hj hjk => ?_, hk.large⟩
        obtain rfl | hlt := Nat.eq_or_lt_of_le hj
        · exact hsmall
        · exact hk.small j hlt hjk
      · rw [if_neg hfits] at h
        cases h
    · rw [if_neg hsmall] at h
      exact ⟨i, (Except.ok.inj h).symm, Nat.le_refl i, fun j hj hjk => by omega,
        Nat.not_lt.mp hsmall⟩

theorem extensionSize_stops {rlen fuel k : Nat} (h : StopsAt buffer i k)
    (hrlen : dagRecordSize + 8 * (k + 1) ≤ rlen) (hbuffer : rlen ≤ packetBufsize)
    (hfuel : k - i < fuel) :
    extensionSize (bufferMemory buffer) rlen fuel (8 * (i + 1)) = .ok (8 * (k + 1)) := by
  induction fuel generalizing i with
  | zero => omega
  | succ fuel ih =>
    have hle := h.le
    have hoffset : dagRecordSize + 8 * (i + 1) - 8 = dagRecordSize + 8 * i := by omega
    have hread : le64 (bufferMemory buffer) (dagRecordSize + 8 * i) = .ok (word buffer i) :=
      le64_buffer (by omega)
    rw [extensionSize, hoffset, hread, ok_bind]
    by_cases hik : i = k
    · subst hik
      rw [if_neg (Nat.not_lt.mpr h.large)]
      rfl
    · obtain ⟨hsmall, hrest⟩ := h.head hik
      rw [if_pos hsmall, if_pos (by omega)]
      exact ih hrest (by omega)

theorem framingLength_ok {framing : Nat}
    (h : framingLength (bufferMemory buffer) (decodeHeader buffer) = .ok framing) :
    if (decodeHeader buffer).extended then ∃ k, StopsAt buffer 0 k ∧
      framing = dagRecordSize + 8 * (k + 1) + padding (decodeHeader buffer)
    else framing = dagRecordSize + padding (decodeHeader buffer) := by
  obtain ⟨e, he, h⟩ := except_bind_ok.mp h
  obtain rfl := Except.ok.inj h
  unfold extensions at he
  split_ifs at he ⊢ with hext
  · obtain ⟨k, rfl, hk⟩ := extensionSize_ok (i := 0) he
    exact ⟨k, hk, rfl⟩
  · obtain rfl := Except.ok.inj he
    rfl

section

variable {buffer : Nat → UInt8} {m : Nat}

/-- A record with `m` extension headers: the top bit of each says that another one follows. -/
structure ExtensionChain (buffer : Nat → UInt8) (m : Nat) : Prop where
  extended : (decodeHeader buffer).extended = true
  pos : 1 ≤ m
  continues : ∀ i < m, 128 ≤ (buffer (dagRecordSize + 8 * i)).toNat ↔ i + 1 < m
  within : dagRecordSize + 8 * m ≤ (decodeHeader buffer).rlen

def typeColorEth : Nat := 11

def typeColorHashEth : Nat := 20

/-- The record types that `erftypes.h` calls Ethernet. -/
def ethernetTypes : List Nat := [typeEth, typeColorEth, typeDsmColorEth, typeColorHashEth]

def ethernetPadding (h : DagRecord) : Nat := if h.kind ∈ ethernetTypes then 2 else 0

theorem padding_eq_iff (h : DagRecord) :
    padding h = ethernetPadding h ↔ h.kind ≠ typeColorEth ∧ h.kind ≠ typeColorHashEth := by
  have hmem : h.kind ∈ ethernetTypes ↔ (h.kind = typeEth ∨ h.kind = typeDsmColorEth) ∨
      h.kind = typeColorEth ∨ h.kind = typeColorHashEth := by
    simp only [ethernetTypes, List.mem_cons, List.not_mem_nil, or_false]
    omega
  have htypes : typeEth = 2 ∧ typeColorEth = 11 ∧ typeDsmColorEth = 16 ∧ typeColorHashEth = 20 :=
    ⟨rfl, rfl, rfl, rfl⟩
  unfold padding ethernetPadding
  by_cases hknown : h.kind = typeEth ∨ h.kind = typeDsmColorEth
  · rw [if_pos hknown, if_pos (hmem.mpr (.inl hknown))]
    omega
  · rw [if_neg hknown, ← not_or]
    by_cases hcolor : h.kind = typeColorEth ∨ h.kind = typeColorHashEth
    · rw [if_pos (hmem.mpr (.inr hcolor))]
      exact iff_of_false (by decide) (not_not.mpr hcolor)
    · rw [if_neg fun hin => (hmem.mp hin).elim hknown hcolor]
      exact iff_of_true rfl hcolor

theorem paddings_lt (h : DagRecord) : padding h < 8 ∧ ethernetPadding h < 8 := by
  unfold padding ethernetPadding
  split_ifs <;> decide

/-- Exactly the headers and the padding are skipped exactly if all headers but the last are less
than `1UL << 31` as they are read, the last is not, and the code knows of the padding. -/
theorem framingLength_skips_iff (h : ExtensionChain buffer m) :
    framingLength (bufferMemory buffer) (decodeHeader buffer) =
        .ok (16 + 8 * m + ethernetPadding (decodeHeader buffer)) ↔
      ((∀ i, i + 1 < m → word buffer i < 2 ^ 31) ∧ 2 ^ 31 ≤ word buffer (m - 1)) ∧
        (decodeHeader buffer).kind ≠ typeColorEth ∧
        (decodeHeader buffer).kind ≠ typeColorHashEth := by
  have hpos := h.pos
  rw [← padding_eq_iff]
  constructor
  · intro hframing
    have hstops := framingLength_ok hframing
    rw [if_pos h.extended] at hstops
    obtain ⟨k, hk, heq⟩ := hstops
    -- headers are eight bytes long, so no number of them makes up for padding
    have hpads := paddings_lt (decodeHeader buffer)
    simp only [dagRecordSize] at heq
    obtain rfl : k = m - 1 := by omega
    exact ⟨⟨fun i hi => hk.small i (Nat.zero_le i) (by omega), hk.large⟩, by omega⟩
  · rintro ⟨⟨hsmall, hlarge⟩, hpadding⟩
    have hstops : StopsAt buffer 0 (m - 1) :=
      ⟨Nat.zero_le _, fun j _ hj => hsmall j (by omega), hlarge⟩
    have hrlen := rlen_lt buffer
    have hwithin := h.within
    have hm : 8 * (m - 1 + 1) = 8 * m := by omega
    have hsize : extensionSize (bufferMemory buffer) (decodeHeader buffer).rlen packetBufsize 8 =
        .ok (8 * (m - 1 + 1)) :=
      extensionSize_stops hstops (by omega) (by simp only [packetBufsize]; omega)
        (by simp only [packetBufsize, dagRecordSize] at hwithin ⊢; omega)
    rw [framingLength, extensions, if_pos h.extended, hsize, hm, hpadding]
    rfl

def twoExtensions (last last' : UInt8) : Nat → UInt8 :=
  recordBuffer ⟨0, 0x82, 4, 34, 0, 0⟩ (fun _ => 0)
    [0x83, 0, 0, 0, 0, 0, 0, last, 0x03, 0, 0, 0, 0, 0, 0, last', 0, 0]

theorem twoExtensions_chain (last last' : UInt8) : ExtensionChain (twoExtensions last last') 2 := by
  have hheader : decodeHeader (twoExtensions last last') = ⟨0, 0x82, 4, 34, 0, 0⟩ :=
    decodeHeader_recordBuffer ⟨by decide, by decide, by decide, by decide⟩ _ _
  refine ⟨by rw [hheader]; decide, by decide, fun i hi => ?_, by rw [hheader]; decide⟩
  obtain rfl | rfl : i = 0 ∨ i = 1 := by omega
  · exact iff_of_true (show 128 ≤ (0x83 : UInt8).toNat by decide) (by decide)
  · exact iff_of_false (show ¬ 128 ≤ (0x03 : UInt8).toNat by decide) (by decide)

theorem twoExtensions_skipped :
    framingLength (bufferMemory (twoExtensions 0 1)) (decodeHeader (twoExtensions 0 1)) =
      .ok (16 + 8 * 2 + 2) := by
  have hskips := framingLength_skips_iff (twoExtensions_chain 0 1)
  refine hskips.mpr ⟨⟨fun i hi => ?_, by decide +kernel⟩, by decide +kernel⟩
  obtain rfl : i = 0 := by omega
  decide +kernel

/-- The first header has a bit set in its last byte, so the second is not skipped. -/
theorem twoExtensions_not_skipped :
    ExtensionChain (twoExtensions 1 1) 2 ∧
      framingLength (bufferMemory (twoExtensions 1 1)) (decodeHeader (twoExtensions 1 1)) =
        .ok (16 + 8 * 1 + 2) :=
  ⟨twoExtensions_chain 1 1, by decide +kernel⟩

end

section

def packetRemaining (p : ErfPacket) : Decode Nat := do
  let capture ← getCaptureLength p
  if capture < 0 then throw .assertion
  return if (getWireLength p : Int) < capture then getWireLength p else capture.toNat

def SaneLengths (p : ErfPacket) : Prop :=
  ∃ (framing : Nat) (capture : Int),
    framingLength (bufferMemory p.buffer) p.header = .ok framing ∧
      framing ≤ p.header.rlen ∧ getCaptureLength p = .ok capture ∧ 0 ≤ capture ∧
      capture ≤ getWireLength p ∧ framing + capture ≤ p.header.rlen ∧
      framing + capture ≤ packetBufsize ∧ ∃ remaining, packetRemaining p = .ok remaining

/-- The record is long enough for its header, a last extension header and the padding. -/
def FramingFits (p : ErfPacket) : Prop :=
  if p.header.extended then ∃ i, 2 ^ 31 ≤ word p.buffer i ∧
    dagRecordSize + 8 * (i + 1) + padding p.header ≤ p.header.rlen
  else dagRecordSize + padding p.header ≤ p.header.rlen

theorem framing_le_iff {p : ErfPacket} {framing : Nat}
    (h : framingLength (bufferMemory p.buffer) p.header = .ok framing) :
    framing ≤ p.header.rlen ↔ FramingFits p := by
  have hok := framingLength_ok h
  unfold FramingFits
  change if p.header.extended then _ else _ at hok
  split_ifs at hok ⊢
  · obtain ⟨k, hk, rfl⟩ := hok
    constructor
    · exact fun hle => ⟨k, hk.large, hle⟩
    · rintro ⟨i, hlarge, hle⟩
      have hki : k ≤ i := by
        by_contra hlt
        exact absurd (hk.small i (Nat.zero_le i) (by omega)) (Nat.not_lt.mpr hlarge)
      have hpad : padding (decodeHeader p.buffer) = padding p.header := rfl
      omega
  · rw [hok]
    rfl

theorem getCaptureLength_eq {p : ErfPacket} {framing q : Nat} (hp : p.payload = some q)
    (h : framingLength (bufferMemory p.buffer) p.header = .ok framing)
    (hle : framing ≤ p.header.rlen) :
    getCaptureLength p = .ok (min p.header.wlen (p.header.rlen - framing) : Nat) := by
  have hrlen : p.header.rlen < 65536 := rlen_lt p.buffer
  simp only [getCaptureLength, hp, h, ok_bind]
  rw [if_pos (by simp only [packetBufsize]; split_ifs <;> omega)]
  refine congrArg Except.ok ?_
  split_ifs <;> omega

theorem saneLengths_iff {t t' : ErfTrace} {buffer : Nat → UInt8} {p : ErfPacket} {ret : Nat}
    (hread : readPacket t buffer = (.packet p ret, t')) (herror : p.header.rxerror = false) :
    SaneLengths p ↔ FramingFits p := by
  have hrlen : p.header.rlen < 65536 := rlen_lt p.buffer
  have hpayload := (accepted_of_packet hread).payload
  have herror' : (decodeHeader p.buffer).rxerror = false := herror
  rw [payloadOf, herror'] at hpayload
  obtain ⟨framing, hframing, hsome⟩ := except_bind_ok.mp hpayload
  have hp : p.payload = some framing := (Except.ok.inj hsome).symm
  rw [← framing_le_iff hframing]
  constructor
  · rintro ⟨framing', _, hframing', hle, -⟩
    obtain rfl := ok_unique hframing hframing'
    exact hle
  · intro hle
    have hcapture := getCaptureLength_eq hp hframing hle
    refine ⟨framing, _, hframing, hle, hcapture, by omega, ?_, by omega, ?_, ?_⟩
    · simp only [getWireLength]
      omega
    · simp only [packetBufsize]
      omega
    · rw [packetRemaining, hcapture, ok_bind, if_neg (by omega)]
      exact ⟨_, rfl⟩

def posHeader : DagRecord := ⟨0, 1, 4, 20, 0, 4⟩

theorem posHeader_sane : ∃ p t',
    readPacket ⟨posHeader.encode ++ ([1, 2, 3, 4] ++ []), 0⟩ (fun _ => 0) = (.packet p 20, t') ∧
      p.header.rxerror = false ∧ SaneLengths p := by
  have hfits : Fits posHeader := ⟨by decide, by decide, by decide, by decide⟩
  obtain ⟨drops', hread⟩ := readPacket_plain hfits (fun _ => 0) [1, 2, 3, 4] [] 0 (by decide)
    (by decide) (by decide) rfl
  have hheader := decodeHeader_recordBuffer hfits (fun _ => 0) [1, 2, 3, 4]
  have herror :
      (decodeHeader (recordBuffer posHeader (fun _ => 0) [1, 2, 3, 4])).rxerror = false := by
    decide
  refine ⟨_, _, hread, herror, (saneLengths_iff hread herror).mpr ?_⟩
  rw [FramingFits, ErfPacket.header, hheader, if_neg (by decide)]
  decide

def shortHeader : DagRecord := ⟨0, 2, 4, 17, 0, 60⟩

/-- It is accepted, its capture length is negative, and the assertion fails. -/
theorem shortHeader_not_sane : ∃ p t',
    readPacket ⟨shortHeader.encode ++ ([0] ++ []), 0⟩ (fun _ => 0) = (.packet p 17, t') ∧
      p.header.rxerror = false ∧ getCaptureLength p = .ok (-1) ∧
      packetRemaining p = .error .assertion := by
  have hfits : Fits shortHeader := ⟨by decide, by decide, by decide, by decide⟩
  obtain ⟨drops', hread⟩ := readPacket_plain hfits (fun _ => 0) [0] [] 0 (by decide) (by decide)
    (by decide) rfl
  exact ⟨_, _, hread, by decide +kernel, by decide +kernel, by decide +kernel⟩

end

end Libtrace.ErfExtensions
