import Libtrace.PcapFile

/-! The records that `pcapfile_read_packet` lets through, and which of them fit into the buffers
they are read and copied into. -/

namespace Libtrace.PcapRecords
open Exec ByteOrder Window PcapFile
open PacketAccess (toSize_ofNat)

def field (h : FileHeader) (hdr : List UInt8) (i : Nat) : Nat := swapl h (leNatAt hdr i 4)

/-- A complete record at the start of the unread part of a file, with an accepted `caplen`. -/
structure Record (t : Trace) where
  hdr : List UInt8
  body : List UInt8
  rest : List UInt8
  io_eq : t.io = hdr ++ (body ++ rest)
  hdr_length : hdr.length = pktHdrSize
  body_length : field t.header hdr 8 = body.length
  accepted : body.length < packetBufsize

variable {t : Trace} (r : Record t) (s : Slot)

def Record.after : Trace := { t with io := r.rest }

def Record.wirelen : Nat := field t.header r.hdr 12

def Record.time : Nat × Nat := (field t.header r.hdr 0, field t.header r.hdr 4)

def Record.packet : PcapPacket where
  buffer := store (store s.buffer 0 r.hdr) pktHdrSize r.body
  payload := if r.body = [] then s.payload else some pktHdrSize
  captureLength := if r.body = [] then s.captureLength else some r.body.length
  header := t.header
  type := pcapLinktypeToRt (swapl t.header t.header.network.toNat)

theorem swapl_lt (h : FileHeader) {n : Nat} (hn : n < 2 ^ 32) : swapl h n < 2 ^ 32 := by
  unfold swapl
  split
  · have := beNat_lt (leBytes 4 n)
    simpa [byteswap] using this
  · exact hn

theorem uint32At_lt (m : Nat → UInt8) (i : Nat) : uint32At m i < 2 ^ 32 := by
  have h := leNat_lt (window m i (i + 4))
  rwa [length_window, Nat.add_sub_cancel_left] at h

theorem uint32At_hdr (m : Nat → UInt8) (hdr : List UInt8) {i : Nat} (hlen : hdr.length = pktHdrSize)
    (hi : i + 4 ≤ pktHdrSize) : uint32At (store m 0 hdr) i = leNatAt hdr i 4 := by
  have hpart := window_store_part m 0 hdr (hlen ▸ hi)
  rw [Nat.zero_add] at hpart
  rw [uint32At, hpart, leNatAt]

theorem uint32At_field (h : FileHeader) (m : Nat → UInt8) (hdr : List UInt8) {i : Nat}
    (hlen : hdr.length = pktHdrSize) (hi : i + 4 ≤ pktHdrSize) :
    swapl h (uint32At (store m 0 hdr) i) = field h hdr i := by
  rw [uint32At_hdr m hdr hlen hi, field]

theorem readPacket_record :
    readPacket t s = if pktHdrSize + r.body.length ≤ packetBufsize
      then (.packet (r.packet s) (pktHdrSize + r.body.length), r.after)
      else (.overflow, r.after) := by
  have hlen := r.hdr_length
  have hne : r.hdr ≠ [] := fun h => by simp [h, pktHdrSize] at hlen
  have htake : t.io.take pktHdrSize = r.hdr := by rw [r.io_eq, ← hlen, List.take_left]
  have hdrop : t.io.drop pktHdrSize = r.body ++ r.rest := by
    rw [r.io_eq, ← hlen, List.drop_left]
  have hcap : swapl t.header (uint32At (store s.buffer 0 r.hdr) 8) = r.body.length := by
    rw [uint32At_field t.header s.buffer r.hdr hlen (by decide), r.body_length]
  simp only [readPacket, htake, hdrop, hcap, if_neg hne, hlen, Nat.lt_irrefl, if_false,
    if_neg (Nat.not_le.mpr r.accepted)]
  by_cases hb : r.body = []
  · simp [hb, Record.packet, Record.after, store_nil, pktHdrSize, packetBufsize]
  · have hpos : r.body.length ≠ 0 := fun h => hb (List.length_eq_zero_iff.mp h)
    simp only [if_neg hpos, List.take_left, List.drop_left, hb, Nat.lt_irrefl, if_false]
    by_cases hfit : pktHdrSize + r.body.length ≤ packetBufsize
    · rw [if_neg (Nat.not_lt.mpr hfit), if_pos hfit]
      simp only [Record.packet, Record.after, if_neg hb]
    · rw [if_pos (Nat.not_le.mp hfit), if_neg hfit]
      rfl

theorem exists_record {p : PcapPacket} {ret : Nat} (h : (readPacket t s).1 = .packet p ret) :
    ∃ r : Record t, p = r.packet s ∧ ret = pktHdrSize + r.body.length := by
  have hio := List.take_append_drop pktHdrSize t.io
  have hle := List.length_take_le pktHdrSize t.io
  simp only [readPacket] at h
  generalize t.io.take pktHdrSize = hdr at *
  split at h
  · cases h
  split at h
  · cases h
  rename_i hlong
  have hlen : hdr.length = pktHdrSize := Nat.le_antisymm hle (Nat.not_lt.mp hlong)
  rw [uint32At_field t.header s.buffer hdr hlen (by decide)] at h
  split at h
  · cases h
  rename_i hsmall
  split at h
  · rename_i hzero
    obtain ⟨rfl, rfl⟩ := ReadResult.packet.inj h
    let r : Record t := ⟨hdr, [], t.io.drop pktHdrSize, by simp [hio], hlen, hzero, by decide⟩
    exact ⟨r, by simp [r, Record.packet], rfl⟩
  rename_i hpos
  split at h
  · cases h
  split at h
  · cases h
  split at h
  · cases h
  rename_i hbody hfull
  have hlen' : ((t.io.drop pktHdrSize).take (field t.header hdr 8)).length =
      field t.header hdr 8 :=
    Nat.le_antisymm (List.length_take_le _ _) (Nat.not_lt.mp hfull)
  obtain ⟨rfl, rfl⟩ := ReadResult.packet.inj h
  let r : Record t := ⟨hdr, (t.io.drop pktHdrSize).take (field t.header hdr 8),
    (t.io.drop pktHdrSize).drop (field t.header hdr 8), by rw [List.take_append_drop, hio], hlen,
    hlen'.symm, by rw [hlen']; exact Nat.not_le.mp hsmall⟩
  exact ⟨r, by simp only [r, Record.packet, if_neg hbody, hlen'], by rw [← hlen']⟩

theorem toInt32_of_lt {n : Nat} (h : n < packetBufsize) : toInt32 n = n := by
  rw [toInt32, if_pos (Nat.lt_trans h (by decide))]

theorem getCaptureLength_of_lt {p : PcapPacket} {c : Nat} (h : p.captureLength.getD p.caplen = c)
    (hc : c < packetBufsize) : getCaptureLength p = .ok c := by
  rw [getCaptureLength, h, toInt32_of_lt hc]
  exact if_pos (by omega)

theorem byteswap_byteswap {k n : Nat} (h : n < 256 ^ k) : byteswap k (byteswap k n) = n := by
  have hbytes := leBytes_leNat (leBytes k n).reverse
  rw [List.length_reverse, length_leBytes] at hbytes
  rw [byteswap, byteswap, beNat, beNat, hbytes, List.reverse_reverse, leNat_leBytes h]

theorem swapl_swapl (h : FileHeader) {n : Nat} (hn : n < 2 ^ 32) : swapl h (swapl h n) = n := by
  unfold swapl
  split_ifs
  · exact byteswap_byteswap (k := 4) hn
  · rfl

def withCaplen (p : PcapPacket) (size : Nat) : PcapPacket :=
  { p with
    buffer := store p.buffer 8 (leBytes 4 (swapl p.header size))
    captureLength := some size }

theorem withCaplen_caplen (p : PcapPacket) {size : Nat} (hs : size < 2 ^ 32) :
    (withCaplen p size).caplen = size := by
  have hread : uint32At (withCaplen p size).buffer 8 = swapl p.header size :=
    (uint32At_store p.buffer 8 _).trans (Nat.mod_eq_of_lt (swapl_lt p.header hs))
  rw [PcapPacket.caplen, hread]
  exact swapl_swapl p.header hs

theorem setCaptureLength_shorter {p : PcapPacket} {c size : Nat}
    (h : p.captureLength.getD p.caplen = c) (hc : c < 65536) (hs : size ≤ c) :
    setCaptureLength p size = .ok (size, withCaplen p size) := by
  have hmod : size % 2 ^ 32 = size := Nat.mod_eq_of_lt (by omega)
  have hwrite : writeCaplen p size = { withCaplen p size with captureLength := none } := by
    rw [writeCaplen, hmod, withCaplen]
  have hset : getCaptureLength (writeCaplen p size) = .ok size := by
    rw [hwrite]
    exact getCaptureLength_of_lt (withCaplen_caplen p (by omega)) (Nat.lt_of_le_of_lt hs hc)
  rw [setCaptureLength, getCaptureLength_of_lt h hc, ok_bind, toSize_ofNat (by omega),
    if_neg (by omega)]
  dsimp only
  rw [hset, ok_bind, toSize_ofNat (by omega), hwrite]
  rfl

theorem packet_field {i : Nat} (hi : i + 4 ≤ pktHdrSize) :
    swapl t.header (uint32At (r.packet s).buffer i) = field t.header r.hdr i := by
  rw [← uint32At_field t.header s.buffer r.hdr r.hdr_length hi, uint32At, uint32At,
    Record.packet, window_store_of_le _ hi]

theorem packet_caplen : (r.packet s).caplen = r.body.length :=
  (packet_field r s (by decide)).trans r.body_length

theorem getCaptureLength_packet (buffer : Nat → UInt8) :
    getCaptureLength (r.packet (createPacket buffer)) = .ok r.body.length := by
  have hcap : (r.packet (createPacket buffer)).captureLength.getD
      (r.packet (createPacket buffer)).caplen = r.body.length := by
    rw [packet_caplen, Record.packet, createPacket]
    split <;> rfl
  exact getCaptureLength_of_lt hcap r.accepted

theorem payloadBytes_packet (buffer : Nat → UInt8) {n : Nat} (hn : n ≤ r.body.length) :
    payloadBytes (r.packet (createPacket buffer)) n = .ok (r.body.take n) := by
  by_cases hb : r.body = []
  · have hzero : n = 0 := by simpa [hb] using hn
    simp [payloadBytes, Record.packet, createPacket, hb, hzero]
  · have hpart := window_store_part (store buffer 0 r.hdr) pktHdrSize (i := 0) r.body
      (Nat.le_trans (Nat.le_of_eq (Nat.zero_add n)) hn)
    rw [Nat.add_zero, List.drop_zero] at hpart
    simp only [payloadBytes, Record.packet, createPacket, if_neg hb, hpart]

theorem copyPacket_packet (buffer junk : Nat → UInt8)
    (hfit : pktHdrSize + r.body.length ≤ packetBufsize) :
    ∃ q, copyPacket (r.packet (createPacket buffer)) junk = .ok q := by
  have hlt := r.accepted
  have hlen : ((r.body.length : Int) % 2 ^ 64).toNat = r.body.length := by
    simp only [packetBufsize] at hlt
    omega
  have hsmall : ¬ 65536 < pktHdrSize + r.body.length := Nat.not_lt.mpr hfit
  simp only [copyPacket, getCaptureLength_packet, bind, Except.bind, hlen, if_neg hsmall,
    payloadBytes_packet r buffer (Nat.le_refl _)]
  exact ⟨_, rfl⟩

def FitsBuffers {t : Trace} (r : Record t) (buffer junk : Nat → UInt8) : Prop :=
  ∃ p, readPacket t (createPacket buffer) = (.packet p (pktHdrSize + r.body.length), r.after) ∧
    pktHdrSize + r.body.length ≤ packetBufsize ∧ ∃ q, copyPacket p junk = .ok q

theorem length_of_fitsBuffers {t : Trace} {r : Record t} {buffer junk : Nat → UInt8}
    (h : FitsBuffers r buffer junk) : pktHdrSize + r.body.length ≤ packetBufsize := by
  obtain ⟨_, _, hfit, _⟩ := h
  exact hfit

theorem fitsBuffers_iff {t : Trace} (r : Record t) (buffer junk : Nat → UInt8) :
    FitsBuffers r buffer junk ↔ r.body.length ≤ 65520 := by
  have hbound : pktHdrSize + r.body.length ≤ packetBufsize ↔ r.body.length ≤ 65520 := by
    simp only [pktHdrSize, packetBufsize]
    omega
  rw [← hbound]
  refine ⟨length_of_fitsBuffers, fun hfit => ⟨_, ?_, hfit, copyPacket_packet r buffer junk hfit⟩⟩
  rw [readPacket_record, if_pos hfit]

def largeTrace : Trace where
  header := ⟨0xa1b2c3d4, 2, 4, 1⟩
  io := encodePktHdr 0 0 65535 65535 ++ (List.replicate 65535 0 ++ [])

def largeRecord : Record largeTrace where
  hdr := encodePktHdr 0 0 65535 65535
  body := List.replicate 65535 0
  rest := []
  io_eq := by rw [largeTrace]
  hdr_length := by decide
  body_length := by
    rw [List.length_replicate]
    decide
  accepted := by
    rw [List.length_replicate]
    decide

theorem largeRecord_not_fitsBuffers :
    ¬ FitsBuffers largeRecord (fun _ => 0) (fun _ => 0) := by
  intro h
  have hlen : largeRecord.body.length = 65535 := List.length_replicate
  have hfit := length_of_fitsBuffers h
  rw [hlen] at hfit
  exact absurd hfit (by decide)

end Libtrace.PcapRecords
