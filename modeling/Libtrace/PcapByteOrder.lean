import Libtrace.PcapSwap

/-! A pcap file in the other byte order is read the same: the results of `pcapfile_read_packet`, and
what the accessors return for each record. -/

namespace Libtrace.PcapByteOrder
open ByteOrder Window Protocols PcapFile PcapRecords PcapSwap
open PacketAccess (toSize)

section

structure View where
  linkType : Decode LinkType
  captureLength : Decode Int
  wireLength : Decode Int
  timeval : Nat × Nat
  timespec : Nat × Nat
  payload : Decode (List UInt8)

def view (flags : Nat) (p : PcapPacket) : View where
  linkType := getLinkType p
  captureLength := getCaptureLength p
  wireLength := getWireLength flags p
  timeval := getTimeval p
  timespec := getTimespec p
  payload := do
    let capture ← getCaptureLength p
    payloadBytes p capture.toNat

def setAll (flags : Nat) : List Nat → PcapPacket → Decode (List (Nat × View) × PcapPacket)
  | [], p => .ok ([], p)
  | size :: sizes, p => do
    let (ret, p) ← setCaptureLength p size
    let (seen, q) ← setAll flags sizes p
    return ((ret, view flags p) :: seen, q)

structure Visit where
  finished : Bool
  sizes : List Nat

def Visit.slot (v : Visit) (s : Slot) : Slot := if v.finished then createPacket s.buffer else s

inductive Outcome where
  | eof
  | error (e : FileError)
  | overflow
  | packet (ret : Nat) (first : View) (later : List (Nat × View))
  | fault (ret : Nat) (first : View) (e : Fault)

def readAll (flags : Nat) : List Visit → Trace → Slot → List Outcome
  | [], _, _ => []
  | v :: visits, t, s =>
    match readPacket t (v.slot s) with
    | (.eof, _) => [.eof]
    | (.error e, _) => [.error e]
    | (.overflow, _) => [.overflow]
    | (.packet p ret, t') =>
      match setAll flags v.sizes p with
      | .ok (later, q) => .packet ret (view flags p) later :: readAll flags visits t' q.toSlot
      | .error e => [.fault ret (view flags p) e]

def readFile (flags : Nat) (visits : List Visit) (buffer : Nat → UInt8) (file : List UInt8) :
    Except FileError (List Outcome) := do
  let t ← startInput file
  return readAll flags visits t (createPacket buffer)

end

section

structure SwappedSlot (s s' : Slot) : Prop where
  payload : s'.payload = s.payload
  captureLength : s'.captureLength = s.captureLength
  behind : ∀ q, s.payload = some q → pktHdrSize ≤ q
  body : ∀ i, pktHdrSize ≤ i → s'.buffer i = s.buffer i

structure SwappedPacket (p p' : PcapPacket) : Prop where
  slot : SwappedSlot p.toSlot p'.toSlot
  magic : p.header.isMagic
  header : p'.header = swapHeader p.header
  type : p'.type = p.type
  word : ∀ i ∈ [0, 4, 8, 12], uint32At p'.buffer i = byteswap 4 (uint32At p.buffer i)

variable {p p' : PcapPacket}

section

variable (h : SwappedPacket p p')
include h

theorem swapl_word {i : Nat} (hi : i ∈ [0, 4, 8, 12]) :
    swapl p'.header (uint32At p'.buffer i) = swapl p.header (uint32At p.buffer i) := by
  rw [h.header, h.word i hi, swapl_byteswap h.magic (uint32At_lt p.buffer i)]

theorem caplen_swapped : p'.caplen = p.caplen := swapl_word h (by decide)

theorem wirelen_swapped : p'.wirelen = p.wirelen :=
  swapl_word h (by decide)

theorem getCaptureLength_swapped :
    getCaptureLength p' = getCaptureLength p := by
  rw [getCaptureLength, getCaptureLength, caplen_swapped h, h.slot.captureLength]

theorem getLinkType_swapped : getLinkType p' = getLinkType p := by
  rw [getLinkType, getLinkType, h.type]

theorem getTimeval_swapped : getTimeval p' = getTimeval p := by
  simp only [getTimeval, swapl_word h (i := 0) (by decide), swapl_word h (i := 4) (by decide)]
  rw [h.header, swapHeader_inNanoseconds]

theorem getTimespec_swapped : getTimespec p' = getTimespec p := by
  simp only [getTimespec, swapl_word h (i := 0) (by decide), swapl_word h (i := 4) (by decide)]
  rw [h.header, swapHeader_inNanoseconds]

theorem payloadBytes_swapped (length : Nat) : payloadBytes p' length = payloadBytes p length := by
  rw [payloadBytes, payloadBytes, h.slot.payload]
  cases hq : p.payload with
  | none => rfl
  | some q =>
    have hle := h.slot.behind q hq
    exact congrArg Except.ok (window_congr _ fun i hi _ => h.slot.body i (Nat.le_trans hle hi))

theorem missingFcs_swapped (flags : Nat) : missingFcs flags p' = missingFcs flags p := by
  refine missingFcs_congr flags h.type h.slot.payload fun q hq => funext fun i => ?_
  have hle := h.slot.behind q hq
  rw [memoryAt, memoryAt, h.slot.body (q + i) (by omega)]

theorem getWireLength_swapped (flags : Nat) : getWireLength flags p' = getWireLength flags p := by
  rw [getWireLength, getWireLength, formatWireLength, formatWireLength, missingFcs_swapped h,
    wirelen_swapped h]

theorem view_swapped (flags : Nat) : view flags p' = view flags p := by
  simp only [view, getLinkType_swapped h, getCaptureLength_swapped h, getWireLength_swapped h,
    getTimeval_swapped h, getTimespec_swapped h, payloadBytes_swapped h]

theorem SwappedPacket.cache (c : Option Nat) :
    SwappedPacket { p with captureLength := c } { p' with captureLength := c } :=
  ⟨⟨h.slot.payload, rfl, h.slot.behind, h.slot.body⟩, h.magic, h.header, h.type, h.word⟩

theorem writeCaplen_swapped (size : Nat) :
    SwappedPacket (writeCaplen p size) (writeCaplen p' size) := by
  have hn : size % 2 ^ 32 < 2 ^ 32 := Nat.mod_lt _ (by decide)
  have hout (m : Nat → UInt8) (n : Nat) {i : Nat} (hi : pktHdrSize ≤ i) :
      store m 8 (leBytes 4 n) i = m i :=
    store_outside m (.inr (by rw [length_leBytes]; unfold pktHdrSize at hi; omega))
  refine ⟨⟨h.slot.payload, rfl, h.slot.behind, fun i hi => ?_⟩, h.magic, h.header, h.type,
    fun i hi => ?_⟩
  · simp only [writeCaplen, hout _ _ hi, h.slot.body i hi]
  · simp only [writeCaplen]
    by_cases h8 : i = 8
    · rw [h8, uint32At_store, uint32At_store, Nat.mod_eq_of_lt (swapl_lt _ hn),
        Nat.mod_eq_of_lt (swapl_lt _ hn), h.header, swapl_swapHeader h.magic hn]
    · have hother : i + 4 ≤ 8 ∨ 8 + 4 ≤ i := by
        revert i
        decide
      rw [uint32At_store_other _ (by rwa [length_leBytes]),
        uint32At_store_other _ (by rwa [length_leBytes]), h.word i hi]

theorem setCaptureLength_swapped (size : Nat) :
    Alike (fun x x' => x'.1 = x.1 ∧ SwappedPacket x.2 x'.2) (setCaptureLength p size)
      (setCaptureLength p' size) := by
  rw [setCaptureLength, setCaptureLength, getCaptureLength_swapped h]
  refine alike_bind (alike_refl (getCaptureLength p)) fun capture _ heq => ?_
  subst heq
  have hq : SwappedPacket (if toSize capture < size then p else writeCaplen p size)
      (if toSize capture < size then p' else writeCaplen p' size) := by
    split_ifs
    · exact h
    · exact writeCaplen_swapped h size
  dsimp only
  rw [getCaptureLength_swapped hq]
  refine alike_bind (alike_refl _) fun capture _ heq => ?_
  subst heq
  exact .ok ⟨rfl, hq.cache _⟩

end

end

section

inductive SameRead : ReadResult × Trace → ReadResult × Trace → Prop where
  | eof (t t' : Trace) : SameRead (.eof, t) (.eof, t')
  | error (e : FileError) (t t' : Trace) : SameRead (.error e, t) (.error e, t')
  | overflow (t t' : Trace) : SameRead (.overflow, t) (.overflow, t')
  | packet (ret : Nat) {p p' : PcapPacket} {t t' : Trace} (hp : SwappedPacket p p')
      (ht : SwappedTrace t t') : SameRead (.packet p ret, t) (.packet p' ret, t')

variable {t t' : Trace} {s s' : Slot}

theorem swapRecords_nil (h : FileHeader) (fuel : Nat) : swapRecords h fuel [] = [] :=
  List.length_eq_zero_iff.mp (length_swapRecords h fuel [])

theorem take_swapped (ht : SwappedTrace t t') :
    t'.io.take pktHdrSize = swapFields recordFields (t.io.take pktHdrSize) := by
  obtain ⟨fuel, hfuel, hio⟩ := ht.io
  rw [hio]
  cases fuel with
  | zero =>
    rw [List.length_eq_zero_iff.mp (Nat.le_zero.mp hfuel)]
    rfl
  | succ fuel =>
    by_cases hlen : pktHdrSize ≤ t.io.length
    · exact List.take_left' (by rw [length_swapFields, List.length_take_of_le hlen])
    · have hrest : t.io.drop pktHdrSize = [] := List.drop_eq_nil_of_le (by omega)
      rw [swapRecords, hrest, List.take_nil, List.drop_nil, swapRecords_nil, List.append_nil,
        List.append_nil, List.take_of_length_le]
      rw [length_swapFields, List.length_take]
      omega

theorem drop_swapped (ht : SwappedTrace t t') (hlen : pktHdrSize ≤ t.io.length) :
    ∃ fuel, (t.io.drop pktHdrSize).length ≤ fuel ∧
      t'.io.drop pktHdrSize =
        (t.io.drop pktHdrSize).take (field t.header (t.io.take pktHdrSize) 8) ++
          swapRecords t.header fuel
            ((t.io.drop pktHdrSize).drop (field t.header (t.io.take pktHdrSize) 8)) := by
  obtain ⟨fuel, hfuel, hio⟩ := ht.io
  cases fuel with
  | zero =>
    unfold pktHdrSize at hlen
    omega
  | succ fuel =>
    refine ⟨fuel, ?_, ?_⟩
    · rw [List.length_drop]
      unfold pktHdrSize
      omega
    · rw [hio]
      exact List.drop_left' (by rw [length_swapFields, List.length_take_of_le hlen])

theorem SwappedSlot.loaded (hs : SwappedSlot s s') (c : Nat) :
    SwappedSlot ⟨s.buffer, some pktHdrSize, some c⟩ ⟨s'.buffer, some pktHdrSize, some c⟩ :=
  ⟨rfl, rfl, fun _ hq => Nat.le_of_eq (Option.some.inj hq), hs.body⟩

theorem swappedPacket_record (ht : SwappedTrace t t') (hs : SwappedSlot s s') {hdr : List UInt8}
    (hlen : hdr.length = pktHdrSize) (body : List UInt8) :
    SwappedPacket
      ⟨{ s with buffer := store (store s.buffer 0 hdr) pktHdrSize body },
        t.header, pcapLinktypeToRt (swapl t.header t.header.network.toNat)⟩
      ⟨{ s' with
          buffer := store (store s'.buffer 0 (swapFields recordFields hdr)) pktHdrSize body },
        t'.header, pcapLinktypeToRt (swapl t'.header t'.header.network.toNat)⟩ := by
  have hlen' : (swapFields recordFields hdr).length = pktHdrSize := by rw [length_swapFields, hlen]
  refine ⟨⟨hs.payload, hs.captureLength, hs.behind, fun i hi => ?_⟩, ht.magic, ht.header, ?_,
    fun i hi => ?_⟩
  · have hbehind (m : Nat → UInt8) {hdr : List UInt8} (hlen : hdr.length = pktHdrSize) :
        store m 0 hdr i = m i := store_outside m (.inr (by omega))
    have hcongr {m m' : Nat → UInt8} (h : m' i = m i) :
        store m' pktHdrSize body i = store m pktHdrSize body i := by rw [store, store, h]
    exact hcongr (by rw [hbehind _ hlen, hbehind _ hlen', hs.body i hi])
  · rw [ht.header]
    exact congrArg pcapLinktypeToRt (swapl_swap32 ht.magic t.header.network)
  · have hle := word_le hi
    have hword (m : Nat → UInt8) : uint32At (store m pktHdrSize body) i = uint32At m i :=
      uint32At_store_other m (.inl hle)
    simp only [hword, uint32At_hdr _ _ hlen hle, uint32At_hdr _ _ hlen' hle,
      word_swapFields hlen hi]

theorem take_swapRecords (h : FileHeader) (fuel : Nat) (rest : List UInt8) (c : Nat) :
    (rest.take c ++ swapRecords h fuel (rest.drop c)).take c = rest.take c ∧
      (rest.take c ++ swapRecords h fuel (rest.drop c)).drop c =
        swapRecords h fuel (rest.drop c) := by
  by_cases hc : c ≤ rest.length
  · have hlen : (rest.take c).length = c := List.length_take_of_le hc
    exact ⟨List.take_left' hlen, List.drop_left' hlen⟩
  · have hdrop : rest.drop c = [] := List.drop_eq_nil_of_le (by omega)
    have hle : (rest.take c).length ≤ c := List.length_take_le c rest
    rw [hdrop, swapRecords_nil, List.append_nil]
    exact ⟨List.take_of_length_le hle, List.drop_eq_nil_of_le hle⟩

theorem sameRead_ite {c : Prop} [Decidable c] {a a' b b' : ReadResult × Trace}
    (hpos : c → SameRead a a') (hneg : ¬ c → SameRead b b') :
    SameRead (if c then a else b) (if c then a' else b') := by
  split_ifs with h
  · exact hpos h
  · exact hneg h

theorem readPacket_swapped (ht : SwappedTrace t t') (hs : SwappedSlot s s') :
    SameRead (readPacket t s) (readPacket t' s') := by
  simp only [readPacket, take_swapped ht, ← List.length_eq_zero_iff, length_swapFields]
  refine sameRead_ite (fun _ => .eof _ _) fun _ => sameRead_ite (fun _ => .error _ _ _)
    fun hshort => ?_
  have hlen : (t.io.take pktHdrSize).length = pktHdrSize :=
    Nat.le_antisymm (List.length_take_le _ _) (Nat.not_lt.mp hshort)
  have hio : pktHdrSize ≤ t.io.length := by
    rw [List.length_take] at hlen
    omega
  obtain ⟨fuel, hfuel, hrest⟩ := drop_swapped ht hio
  have hpacket (s s' : Slot) (hs : SwappedSlot s s') := swappedPacket_record ht hs hlen
  rw [uint32At_field _ _ _ hlen (by decide), uint32At_field _ _ _ (by rw [length_swapFields, hlen])
    (by decide), ht.header, field_swapFields ht.magic hlen, hrest]
  rw [ht.header] at hpacket
  generalize field t.header (t.io.take pktHdrSize) 8 = c
  generalize t.io.take pktHdrSize = hdr at hpacket
  generalize t.io.drop pktHdrSize = rest at hfuel
  obtain ⟨hbody, hafter⟩ := take_swapRecords t.header fuel rest c
  have hnext : SwappedTrace ⟨t.header, rest.drop c⟩
      ⟨swapHeader t.header, swapRecords t.header fuel (rest.drop c)⟩ :=
    ⟨ht.magic, rfl, fuel, by rw [List.length_drop]; omega, rfl⟩
  refine sameRead_ite (fun _ => .error _ _ _) fun _ => sameRead_ite (fun hzero => ?_) fun _ => ?_
  · subst hzero
    have hempty := hpacket s s' hs []
    rw [store_nil, store_nil] at hempty
    exact .packet _ hempty hnext
  · rw [hbody, hafter]
    exact sameRead_ite (fun _ => .overflow _ _) fun _ => sameRead_ite (fun _ => .eof _ _) fun _ =>
      sameRead_ite (fun _ => .error _ _ _) fun _ =>
        .packet _ (hpacket _ _ (hs.loaded c) (rest.take c)) hnext

theorem setAll_swapped {p p' : PcapPacket} (h : SwappedPacket p p') (flags : Nat)
    (sizes : List Nat) :
    Alike (fun x x' => x'.1 = x.1 ∧ SwappedPacket x.2 x'.2) (setAll flags sizes p)
      (setAll flags sizes p') := by
  induction sizes generalizing p p' with
  | nil => exact .ok ⟨rfl, h⟩
  | cons size sizes ih =>
    refine alike_bind (setCaptureLength_swapped h size) fun x x' hx => ?_
    refine alike_bind (ih hx.2) fun y y' hy => ?_
    exact .ok ⟨by rw [hx.1, hy.1, view_swapped hx.2], hy.2⟩

theorem createPacket_swapped {m m' : Nat → UInt8} (h : ∀ i, pktHdrSize ≤ i → m' i = m i) :
    SwappedSlot (createPacket m) (createPacket m') := by
  refine ⟨rfl, rfl, fun q hq => ?_, h⟩
  cases hq

theorem Visit.slot_swapped (hs : SwappedSlot s s') (v : Visit) :
    SwappedSlot (v.slot s) (v.slot s') := by
  unfold Visit.slot
  split_ifs
  · exact createPacket_swapped hs.body
  · exact hs

theorem readAll_swapped (flags : Nat) (visits : List Visit) (ht : SwappedTrace t t')
    (hs : SwappedSlot s s') : readAll flags visits t' s' = readAll flags visits t s := by
  induction visits generalizing t t' s s' with
  | nil => rfl
  | cons v visits ih =>
    have hread := readPacket_swapped ht (v.slot_swapped hs)
    rw [readAll, readAll]
    generalize readPacket t (v.slot s) = r at hread
    generalize readPacket t' (v.slot s') = r' at hread
    cases hread with
    | eof => rfl
    | error => rfl
    | overflow => rfl
    | packet ret hp ht =>
      have hset := setAll_swapped hp flags v.sizes
      simp only [view_swapped hp]
      generalize setAll flags v.sizes _ = d at hset
      generalize setAll flags v.sizes _ = d' at hset
      cases hset with
      | error e => rfl
      | ok hq => simp only [hq.1, ih ht hq.2.slot]

/-- A pcap file and the same file in the other byte order give the same results and records,
whatever the records are made shorter to. -/
theorem readFile_swapFile (flags : Nat) (visits : List Visit) (buffer : Nat → UInt8)
    (file : List UInt8) :
    readFile flags visits buffer (swapFile file) = readFile flags visits buffer file := by
  refine (Alike.eq (alike_bind (startInput_swapFile file) fun t t' ht => ?_)).symm
  rw [readAll_swapped flags visits ht (createPacket_swapped fun _ _ => rfl)]
  exact alike_refl _

end

end Libtrace.PcapByteOrder
