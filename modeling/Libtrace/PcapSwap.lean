import Libtrace.PcapRecords

/-! A pcap file in the other byte order: every field of every header is swapped. -/

namespace Libtrace.PcapSwap
open ByteOrder PcapFile PcapRecords

section

variable {ε α β γ δ : Type} {R : α → β → Prop}

/-- Both fail in the same way, or the results are related. -/
inductive Alike (R : α → β → Prop) : Except ε α → Except ε β → Prop where
  | error (e : ε) : Alike R (.error e) (.error e)
  | ok {a : α} {b : β} (h : R a b) : Alike R (.ok a) (.ok b)

theorem alike_refl (d : Except ε α) : Alike Eq d d := by
  cases d with
  | error e => exact .error e
  | ok a => exact .ok rfl

theorem Alike.eq {d d' : Except ε α} (h : Alike Eq d d') : d = d' := by
  cases h with
  | error e => rfl
  | ok h => rw [h]

theorem alike_ite {c : Prop} [Decidable c] {d e : Except ε α} {d' e' : Except ε β}
    (hpos : c → Alike R d d') (hneg : ¬ c → Alike R e e') :
    Alike R (if c then d else e) (if c then d' else e') := by
  by_cases h : c
  · rw [if_pos h, if_pos h]
    exact hpos h
  · rw [if_neg h, if_neg h]
    exact hneg h

theorem alike_bind {S : γ → δ → Prop} {d : Except ε α} {d' : Except ε β} {f : α → Except ε γ}
    {g : β → Except ε δ} (h : Alike R d d') (hf : ∀ a b, R a b → Alike S (f a) (g b)) :
    Alike S (d >>= f) (d' >>= g) := by
  cases h with
  | error e => exact .error e
  | ok h => exact hf _ _ h

end

section

def headerFields : List Nat := [4, 2, 2, 4, 4, 4, 4]

def recordFields : List Nat := [4, 4, 4, 4]

def swapRecords (h : FileHeader) : Nat → List UInt8 → List UInt8
  | 0, io => io
  | fuel + 1, io =>
    let hdr := io.take pktHdrSize
    let rest := io.drop pktHdrSize
    let caplen := field h hdr 8
    swapFields recordFields hdr ++ (rest.take caplen ++ swapRecords h fuel (rest.drop caplen))

def swapFile (file : List UInt8) : List UInt8 :=
  swapFields headerFields (file.take fileHeaderSize) ++
    swapRecords (parseHeader file) file.length (file.drop fileHeaderSize)

def swap16 (n : UInt16) : UInt16 := .ofNat (byteswap 2 n.toNat)

def swap32 (n : UInt32) : UInt32 := .ofNat (byteswap 4 n.toNat)

def swapHeader (h : FileHeader) : FileHeader :=
  ⟨swap32 h.magicNumber, swap16 h.versionMajor, swap16 h.versionMinor, swap32 h.network⟩

end

section

theorem byteswap_lt (k n : Nat) : byteswap k n < 256 ^ k := by
  have h := beNat_lt (leBytes k n)
  rwa [length_leBytes] at h

theorem swap32_swap32 : Function.Involutive swap32 := by
  intro n
  have hlt := byteswap_lt 4 n.toNat
  rw [swap32, swap32, UInt32.toNat_ofNat_of_lt' hlt, byteswap_byteswap n.toNat_lt,
    UInt32.ofNat_toNat]

theorem swap32_magic :
    swap32 0xa1b2c3d4 = 0xd4c3b2a1 ∧ swap32 0xa1b23c4d = 0x4d3cb2a1 ∧
      swap32 0xd4c3b2a1 = 0xa1b2c3d4 ∧ swap32 0x4d3cb2a1 = 0xa1b23c4d := by
  decide

variable {h : FileHeader}

theorem swapHeader_backwards (h : FileHeader) : (swapHeader h).isBackwardsMagic =
    (h.magicNumber = 0xa1b2c3d4 || h.magicNumber = 0xa1b23c4d) := by
  simp only [swapHeader, FileHeader.isBackwardsMagic, swap32_swap32.eq_iff, swap32_magic]

theorem swapHeader_isMagic (h : FileHeader) : (swapHeader h).isMagic = h.isMagic := by
  simp only [swapHeader, FileHeader.isMagic, FileHeader.isBackwardsMagic, swap32_swap32.eq_iff,
    swap32_magic]
  ac_rfl

theorem swapHeader_inNanoseconds (h : FileHeader) :
    (swapHeader h).inNanoseconds = h.inNanoseconds := by
  simp only [swapHeader, FileHeader.inNanoseconds, swap32_swap32.eq_iff, swap32_magic]
  ac_rfl

theorem swapHeader_flips (hm : h.isMagic) :
    (swapHeader h).isBackwardsMagic = !h.isBackwardsMagic := by
  rw [swapHeader_backwards]
  cases hb : h.isBackwardsMagic with
  | true =>
    simp only [FileHeader.isBackwardsMagic, Bool.or_eq_true, decide_eq_true_eq] at hb
    rcases hb with hb | hb <;> rw [hb] <;> decide
  | false => simpa only [FileHeader.isMagic, hb, Bool.or_false, Bool.not_false] using hm

variable {n : Nat} {bytes : List UInt8} {i : Nat} {hdr : List UInt8}

section

variable (hm : h.isMagic)
include hm

theorem swapl_swapHeader (hn : n < 2 ^ 32) : swapl (swapHeader h) n = byteswap 4 (swapl h n) := by
  rw [swapl, swapl, swapHeader_flips hm]
  cases h.isBackwardsMagic with
  | true => exact (byteswap_byteswap hn).symm
  | false => rfl

theorem swapl_byteswap (hn : n < 2 ^ 32) : swapl (swapHeader h) (byteswap 4 n) = swapl h n := by
  rw [swapl, swapl, swapHeader_flips hm]
  cases h.isBackwardsMagic with
  | true => rfl
  | false => exact byteswap_byteswap hn

theorem swaps_byteswap (hn : n < 2 ^ 16) : swaps (swapHeader h) (byteswap 2 n) = swaps h n := by
  rw [swaps, swaps, swapHeader_flips hm]
  cases h.isBackwardsMagic with
  | true => rfl
  | false => exact byteswap_byteswap hn

theorem swaps_swap16 (n : UInt16) : swaps (swapHeader h) (swap16 n).toNat = swaps h n.toNat := by
  rw [swap16, UInt16.toNat_ofNat_of_lt' (byteswap_lt 2 n.toNat)]
  exact swaps_byteswap hm n.toNat_lt

theorem swapl_swap32 (n : UInt32) : swapl (swapHeader h) (swap32 n).toNat = swapl h n.toNat := by
  rw [swap32, UInt32.toNat_ofNat_of_lt' (byteswap_lt 4 n.toNat)]
  exact swapl_byteswap hm n.toNat_lt

end

theorem leNatAt_swapFields (before : List Nat) (i k : Nat) (after : List Nat)
    (hi : totalWidth before = i) (hle : i + k ≤ bytes.length) :
    leNatAt (swapFields (before ++ k :: after) bytes) i k = byteswap k (leNatAt bytes i k) := by
  subst hi
  have hlen : ((bytes.drop (totalWidth before)).take k).length = k := by
    rw [List.length_take, List.length_drop]
    omega
  have hbytes := leBytes_leNat ((bytes.drop (totalWidth before)).take k)
  rw [hlen] at hbytes
  rw [leNatAt, take_swapFields before after hle, byteswap, leNatAt, hbytes, beNat]

theorem leNatAt_lt (bytes : List UInt8) (i k : Nat) : leNatAt bytes i k < 256 ^ k :=
  Nat.lt_of_lt_of_le (leNat_lt _) (Nat.pow_le_pow_right (by decide) (List.length_take_le _ _))

theorem word_le (hi : i ∈ [0, 4, 8, 12]) : i + 4 ≤ pktHdrSize := by
  revert i
  decide

theorem word_swapFields (hlen : hdr.length = pktHdrSize) (hi : i ∈ [0, 4, 8, 12]) :
    leNatAt (swapFields recordFields hdr) i 4 = byteswap 4 (leNatAt hdr i 4) := by
  have hle : i + 4 ≤ hdr.length := hlen ▸ word_le hi
  simp only [List.mem_cons, List.not_mem_nil, or_false] at hi
  rcases hi with rfl | rfl | rfl | rfl
  · exact leNatAt_swapFields [] 0 4 [4, 4, 4] rfl hle
  · exact leNatAt_swapFields [4] 4 4 [4, 4] rfl hle
  · exact leNatAt_swapFields [4, 4] 8 4 [4] rfl hle
  · exact leNatAt_swapFields [4, 4, 4] 12 4 [] rfl hle

theorem field_swapFields (hm : h.isMagic) (hlen : hdr.length = pktHdrSize) :
    field (swapHeader h) (swapFields recordFields hdr) 8 = field h hdr 8 := by
  rw [field, field, word_swapFields hlen (by decide), swapl_byteswap hm (leNatAt_lt hdr 8 4)]

theorem swap16_ofNat (hn : n < 256 ^ 2) : swap16 (.ofNat n) = .ofNat (byteswap 2 n) := by
  rw [swap16, UInt16.toNat_ofNat_of_lt' hn]

theorem swap32_ofNat (hn : n < 256 ^ 4) : swap32 (.ofNat n) = .ofNat (byteswap 4 n) := by
  rw [swap32, UInt32.toNat_ofNat_of_lt' hn]

theorem parseHeader_swapFields (hlen : bytes.length = fileHeaderSize) :
    parseHeader (swapFields headerFields bytes) = swapHeader (parseHeader bytes) := by
  have hat (before : List Nat) (i k : Nat) (after : List Nat) (hi : totalWidth before = i)
      (hle : i + k ≤ fileHeaderSize) :
      leNatAt (swapFields (before ++ k :: after) bytes) i k = byteswap k (leNatAt bytes i k) :=
    leNatAt_swapFields before i k after hi (hlen ▸ hle)
  simp only [parseHeader, swapHeader, swap16_ofNat (leNatAt_lt bytes _ 2),
    swap32_ofNat (leNatAt_lt bytes _ 4)]
  congr 2
  · exact hat [] 0 4 [2, 2, 4, 4, 4, 4] rfl (by decide)
  · exact hat [4] 4 2 [2, 4, 4, 4, 4] rfl (by decide)
  · exact hat [4, 2] 6 2 [4, 4, 4, 4] rfl (by decide)
  · exact hat [4, 2, 2, 4, 4, 4] 20 4 [] rfl (by decide)

end

section

@[simp] theorem length_swapRecords (h : FileHeader) (fuel : Nat) (io : List UInt8) :
    (swapRecords h fuel io).length = io.length := by
  induction fuel generalizing io with
  | zero => rfl
  | succ fuel ih =>
    simp only [swapRecords, List.length_append, length_swapFields, ih, List.length_take,
      List.length_drop]
    omega

theorem length_swapFile (file : List UInt8) : (swapFile file).length = file.length := by
  rw [swapFile, List.length_append, length_swapFields, length_swapRecords, List.length_take,
    List.length_drop]
  omega

variable {a file : List UInt8}

theorem leNatAt_append_left (b : List UInt8) {i k : Nat} (h : i + k ≤ a.length) :
    leNatAt (a ++ b) i k = leNatAt a i k := by
  rw [leNatAt, leNatAt, List.drop_append_of_le_length (by omega),
    List.take_append_of_le_length (by rw [List.length_drop]; omega)]

theorem parseHeader_append (b : List UInt8) (h : a.length = fileHeaderSize) :
    parseHeader (a ++ b) = parseHeader a := by
  have hat {i k : Nat} (hle : i + k ≤ fileHeaderSize) : leNatAt (a ++ b) i k = leNatAt a i k :=
    leNatAt_append_left b (h ▸ hle)
  rw [parseHeader, parseHeader, hat (by decide), hat (by decide), hat (by decide), hat (by decide)]

theorem parseHeader_swapFile (h : fileHeaderSize ≤ file.length) :
    parseHeader (swapFile file) = swapHeader (parseHeader file) := by
  have htake : (file.take fileHeaderSize).length = fileHeaderSize := List.length_take_of_le h
  have hfile := parseHeader_append (file.drop fileHeaderSize) htake
  rw [List.take_append_drop] at hfile
  rw [swapFile, parseHeader_append _ (by rw [length_swapFields, htake]),
    parseHeader_swapFields htake, hfile]

theorem drop_swapFile (h : fileHeaderSize ≤ file.length) :
    (swapFile file).drop fileHeaderSize =
      swapRecords (parseHeader file) file.length (file.drop fileHeaderSize) :=
  List.drop_left' (by rw [length_swapFields, List.length_take_of_le h])

example : swapFile (encodeFileHeader 1 ++ encodePktHdr 10 20 3 60 ++ [7, 8, 9]) =
    beBytes 4 0xa1b2c3d4 ++ beBytes 2 2 ++ beBytes 2 4 ++ beBytes 4 0 ++ beBytes 4 0 ++
      beBytes 4 65536 ++ beBytes 4 1 ++
      (beBytes 4 10 ++ beBytes 4 20 ++ beBytes 4 3 ++ beBytes 4 60 ++ [7, 8, 9]) := by
  decide +kernel

structure SwappedTrace (t t' : Trace) : Prop where
  magic : t.header.isMagic
  header : t'.header = swapHeader t.header
  io : ∃ fuel, t.io.length ≤ fuel ∧ t'.io = swapRecords t.header fuel t.io

theorem startInput_swapFile (file : List UInt8) :
    Alike SwappedTrace (startInput file) (startInput (swapFile file)) := by
  have hnil : swapFile file = [] ↔ file = [] := by
    rw [← List.length_eq_zero_iff, length_swapFile, List.length_eq_zero_iff]
  have hlen : (file.drop fileHeaderSize).length ≤ file.length := by
    rw [List.length_drop]
    omega
  simp only [startInput, hnil, length_swapFile]
  refine alike_ite (fun _ => .error _) fun _ => alike_ite (fun _ => .error _) fun hlong => ?_
  rw [parseHeader_swapFile (Nat.not_lt.mp hlong), drop_swapFile (Nat.not_lt.mp hlong),
    swapHeader_isMagic]
  generalize parseHeader file = h
  refine alike_ite (fun _ => .error _) fun hmagic => ?_
  have hm := not_not.mp hmagic
  have hmajor : swaps (swapHeader h) (swapHeader h).versionMajor.toNat = _ :=
    swaps_swap16 hm h.versionMajor
  have hminor : swaps (swapHeader h) (swapHeader h).versionMinor.toNat = _ :=
    swaps_swap16 hm h.versionMinor
  rw [hmajor, hminor]
  exact alike_ite (fun _ => .error _) fun _ => .ok ⟨hm, rfl, file.length, hlen, rfl⟩

end

end Libtrace.PcapSwap
