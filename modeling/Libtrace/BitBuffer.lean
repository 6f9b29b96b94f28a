import Libtrace.ByteOrder
import Libtrace.Exec

/-! `bitbuffer.c`: fields are taken from a packet through a buffer of 64 bits that is filled from
the top. The machine is little-endian. -/

namespace Libtrace.BitBuffer
open Exec ByteOrder

inductive Fault where
  /-- A byte behind the packet is read. -/
  | outOfRange
  | badShift
  deriving DecidableEq, Repr

/-- The global variables, and the packet from `*packet` on. -/
structure BitState where
  buffer : BitVec 64
  bits : Nat
  packet : List UInt8

def fromTop (n : Nat) : Nat := (2 ^ 64 + 64 - n) % 2 ^ 64

def shiftLeft (x : BitVec 64) (n : Nat) : Except Fault (BitVec 64) :=
  if n < 64 then .ok (x <<< n) else .error .badShift

def shiftRight (x : BitVec 64) (n : Nat) : Except Fault (BitVec 64) :=
  if n < 64 then .ok (x >>> n) else .error .badShift

/-- Of the eight bytes that `getbit` reads it keeps the first. -/
def fill (numbits : Nat) (buffer : BitVec 64) (bits : Nat) : List UInt8 → Except Fault BitState
  | [] => .ok ⟨buffer, bits, []⟩
  | byte :: packet =>
    if bits < numbits then
      if packet.length < 7 then .error .outOfRange
      else do
        let high ← shiftLeft (.ofNat 64 byte.toNat) (fromTop (bits + 8))
        fill numbits (buffer ||| high) (bits + 8) packet
    else .ok ⟨buffer, bits, byte :: packet⟩

def getbit (numbits : Nat) (s : BitState) : Except Fault (BitVec 64 × BitState) := do
  let s ← fill numbits s.buffer s.bits s.packet
  let one ← shiftLeft 1 (fromTop numbits)
  let ret ← shiftRight (s.buffer &&& ~~~(one - 1)) (fromTop numbits)
  let buffer ← shiftLeft s.buffer numbits
  return (ret, ⟨buffer, (s.bits + 2 ^ 16 - numbits) % 2 ^ 16, s.packet⟩)

/-- The fields of `decode_protocol_file`; a field that is truncated ends it. -/
def decodeFields : List Nat → BitState → Except Fault (List (BitVec 64) × BitState)
  | [], s => .ok ([], s)
  | size :: sizes, s =>
    if s.packet.length * 8 + s.bits < size then .ok ([], s)
    else do
      let result ← getbit size s
      let rest ← decodeFields sizes result.2
      return (result.1 :: rest.1, rest.2)

/-- The bits from `start` on of a packet, the most significant bit of a byte first. -/
def field (packet : List UInt8) (start size : Nat) : Nat :=
  beNat packet / 2 ^ (8 * packet.length - (start + size)) % 2 ^ size

def fieldsFrom (packet : List UInt8) : Nat → List Nat → List Nat
  | _, [] => []
  | start, size :: sizes => field packet start size :: fieldsFrom packet (start + size) sizes

def total (sizes : List Nat) : Nat := sizes.foldr (· + ·) 0

/-- All before `start` was returned, `p` bytes were loaded, and the bits between are at the top. -/
structure Holds (packet : List UInt8) (start p : Nat) (s : BitState) : Prop where
  loaded : s.packet = packet.drop p
  bits : start + s.bits = 8 * p
  buffer : s.buffer.toNat = field packet start s.bits * 2 ^ (64 - s.bits)

/-- The fields come out one after the other; the rest of the last loaded byte is left. -/
def Extracts (packet : List UInt8) (sizes : List Nat) : Prop :=
  ∃ values s, decodeFields sizes ⟨0, 0, packet⟩ = .ok (values, s) ∧
    values.map BitVec.toNat = fieldsFrom packet 0 sizes ∧
    Holds packet (total sizes) ((total sizes + 7) / 8) s

/-- A field of `size` bits at `start` that fits in the buffer with what is loaded around it, and
whose last byte is followed by seven more. -/
structure Safe (len start size : Nat) : Prop where
  short : size < 64
  fits : 8 * ((start + size + 7) / 8) ≤ start + 64
  followed : (start + 7) / 8 < (start + size + 7) / 8 → (start + size + 7) / 8 + 7 ≤ len

def SafeFrom (len : Nat) : Nat → List Nat → Prop
  | _, [] => True
  | start, size :: sizes => Safe len start size ∧ SafeFrom len (start + size) sizes

section

variable {packet : List UInt8}

theorem field_lt (packet : List UInt8) (start size : Nat) : field packet start size < 2 ^ size :=
  Nat.mod_lt _ (Nat.two_pow_pos size)

theorem field_add {start m n : Nat} (h : start + m + n ≤ 8 * packet.length) :
    field packet start (m + n) = field packet start m * 2 ^ n + field packet (start + m) n := by
  have hsplit : 8 * packet.length - (start + m) = 8 * packet.length -
    (start + m + n) + n := by omega
  rw [field, field, field, Nat.pow_add, Nat.mul_comm (2 ^ m), Nat.mod_mul, ← Nat.add_assoc, hsplit,
    Nat.pow_add, ← Nat.div_div_eq_div_mul, Nat.mul_comm (2 ^ n), Nat.add_comm]

theorem field_byte {p : Nat} (h : p < packet.length) :
    field packet (8 * p) 8 = (packet.getD p 0).toNat := by
  have hexp : 2 ^ (8 * packet.length - (8 * p + 8)) = 256 ^ (packet.length - 1 - p) := by
    rw [show 8 * packet.length - (8 * p + 8) = 8 * (packet.length - 1 - p) by omega, Nat.pow_mul]
  change beNat packet / 2 ^ (8 * packet.length - (8 * p + 8)) % 256 = _
  rw [hexp, beNat, leNat_digit, List.getD_eq_getElem?_getD, List.getD_eq_getElem?_getD,
    List.getElem?_reverse (by omega)]
  congr 3
  omega

end

section

variable {packet : List UInt8} {start p numbits : Nat} {s : BitState}

theorem fromTop_of_le {n : Nat} (h : n ≤ 64) : fromTop n = 64 - n := by
  rw [fromTop]
  omega

theorem toNat_or_byte {x bits byte : Nat} {buffer : BitVec 64} (hbits : bits + 8 ≤ 64)
    (hbyte : byte < 2 ^ 8) (h : buffer.toNat = x * 2 ^ (64 - bits)) :
    (buffer ||| (BitVec.ofNat 64 byte <<< (64 - (bits + 8)))).toNat =
      (x * 2 ^ 8 + byte) * 2 ^ (64 - (bits + 8)) := by
  have hexp : 64 - bits = 8 + (64 - (bits + 8)) := by omega
  have hlow : byte * 2 ^ (64 - (bits + 8)) < 2 ^ (64 - bits) := by
    rw [hexp, Nat.pow_add]
    exact Nat.mul_lt_mul_of_pos_right hbyte (Nat.two_pow_pos _)
  have hsmall : byte * 2 ^ (64 - (bits + 8)) < 2 ^ 64 :=
    Nat.lt_of_lt_of_le hlow (Nat.pow_le_pow_right (by decide) (by omega))
  have hshift : (BitVec.ofNat 64 byte <<< (64 - (bits + 8))).toNat =
      byte * 2 ^ (64 - (bits + 8)) := by
    have hmod : byte % 2 ^ 64 = byte := Nat.mod_eq_of_lt (Nat.lt_trans hbyte (by decide))
    rw [BitVec.toNat_shiftLeft, BitVec.toNat_ofNat, hmod, Nat.shiftLeft_eq, Nat.mod_eq_of_lt hsmall]
  rw [BitVec.toNat_or, hshift, h, Nat.mul_comm x, ← Nat.two_pow_add_eq_or_of_lt hlow, hexp,
    Nat.pow_add, Nat.add_mul, Nat.mul_comm _ x, Nat.mul_assoc]

theorem Holds.load (h : Holds packet start p s) (hp : p < packet.length) (hnum : numbits ≤ 64)
    (hmore : s.bits < numbits) :
    (p + 8 ≤ packet.length ∧ s.bits + 8 ≤ 64 → ∃ s', Holds packet start (p + 1) s' ∧
      fill numbits s.buffer s.bits s.packet = fill numbits s'.buffer s'.bits s'.packet) ∧
    (¬ (p + 8 ≤ packet.length ∧ s.bits + 8 ≤ 64) →
      ∃ e, fill numbits s.buffer s.bits s.packet = .error e) := by
  have hbits := h.bits
  have hbyte : (packet.getD p 0).toNat < 2 ^ 8 := UInt8.toNat_lt _
  have hdrop : s.packet = packet.getD p 0 :: packet.drop (p + 1) := by
    rw [h.loaded, List.drop_eq_getElem_cons hp, List.getD_eq_getElem?_getD,
      List.getElem?_eq_getElem hp]
    rfl
  rw [hdrop, fill, if_pos hmore, List.length_drop]
  constructor
  · rintro ⟨hlen, hroom⟩
    refine ⟨⟨s.buffer ||| (BitVec.ofNat 64 (packet.getD p 0).toNat <<< (64 - (s.bits + 8))),
      s.bits + 8, packet.drop (p + 1)⟩, ⟨rfl, by dsimp only; omega, ?_⟩, ?_⟩
    · have hfield : field packet start (s.bits + 8) =
          field packet start s.bits * 2 ^ 8 + (packet.getD p 0).toNat := by
        rw [field_add (by omega), hbits, field_byte hp]
      rw [hfield]
      exact toNat_or_byte hroom hbyte h.buffer
    · rw [if_neg (by omega), fromTop_of_le hroom, shiftLeft, if_pos (by omega), ok_bind]
  · intro hno
    by_cases hlen : packet.length - (p + 1) < 7
    · exact ⟨.outOfRange, if_pos hlen⟩
    · have hshift : ¬ fromTop (s.bits + 8) < 64 := by
        rw [fromTop]
        omega
      refine ⟨.badShift, (if_neg hlen).trans ?_⟩
      rw [shiftLeft, if_neg hshift]
      rfl

theorem fill_full (hfull : numbits ≤ s.bits) : fill numbits s.buffer s.bits s.packet = .ok s := by
  obtain ⟨buffer, bits, bytes⟩ := s
  cases bytes with
  | nil => rfl
  | cons byte bytes => exact if_neg (Nat.not_lt_of_le hfull)

theorem Holds.fill {q : Nat} (h : Holds packet start p s) (hbits : s.bits ≤ 64)
    (hnum : numbits ≤ 64) (hlen : start + numbits ≤ 8 * packet.length)
    (hq : q = (start + numbits + 7) / 8) (hp : p ≤ q) :
    (8 * q ≤ start + 64 ∧ (p < q → q + 7 ≤ packet.length) →
      ∃ s', Holds packet start q s' ∧ fill numbits s.buffer s.bits s.packet = .ok s') ∧
    (¬ (8 * q ≤ start + 64 ∧ (p < q → q + 7 ≤ packet.length)) →
      ∃ e, fill numbits s.buffer s.bits s.packet = .error e) := by
  have hstart := h.bits
  induction hk : q - p generalizing p s with
  | zero =>
    obtain rfl : p = q := by omega
    have hfull : BitBuffer.fill numbits s.buffer s.bits s.packet = .ok s := fill_full (by omega)
    exact ⟨fun _ => ⟨s, h, hfull⟩, fun hno => absurd ⟨by omega, by omega⟩ hno⟩
  | succ k ih =>
    obtain ⟨hload, hfail⟩ := h.load (by omega) hnum (by omega)
    by_cases hone : p + 8 ≤ packet.length ∧ s.bits + 8 ≤ 64
    · obtain ⟨s', h', heq⟩ := hload hone
      have hbits' := h'.bits
      obtain ⟨hok, herror⟩ := ih h' (by omega) (by omega) h'.bits (by omega)
      rw [heq]
      exact ⟨fun hyes => hok ⟨hyes.1, fun _ => hyes.2 (by omega)⟩,
        fun hno => herror fun hyes => hno ⟨hyes.1, fun _ => by omega⟩⟩
    · exact ⟨fun hyes => absurd ⟨by omega, by omega⟩ hone, fun _ => hfail hone⟩

end

section

variable {packet : List UInt8} {start size : Nat} {s : BitState}

theorem masked_shift {k : Nat} (hk : k < 64) (x : BitVec 64) :
    (x &&& ~~~((1 : BitVec 64) <<< k - 1)) >>> k = x >>> k := by
  have hpow : ((1 : BitVec 64) <<< k).toNat = 2 ^ k := by
    rw [BitVec.toNat_shiftLeft, Nat.shiftLeft_eq]
    change 1 * 2 ^ k % 2 ^ 64 = 2 ^ k
    rw [Nat.one_mul]
    exact Nat.mod_eq_of_lt (Nat.pow_lt_pow_right (by decide) hk)
  have hmask : ((1 : BitVec 64) <<< k - 1).toNat = 2 ^ k - 1 := by
    rw [BitVec.toNat_sub_of_le (by rw [BitVec.le_def, hpow]; exact Nat.two_pow_pos k), hpow]
    rfl
  apply BitVec.eq_of_getLsbD_eq
  intro i hi
  have hclear : ((1 : BitVec 64) <<< k - 1).getLsbD (k + i) = false := by
    rw [BitVec.getLsbD, hmask, Nat.testBit_two_pow_sub_one]
    exact decide_eq_false (by omega)
  rw [BitVec.getLsbD_ushiftRight, BitVec.getLsbD_ushiftRight, BitVec.getLsbD_and,
    BitVec.getLsbD_not, hclear]
  by_cases hki : k + i < 64
  · simp [hki]
  · rw [BitVec.getLsbD_of_ge x _ (Nat.le_of_not_lt hki), Bool.false_and]

theorem top_split {f g a c : Nat} (hsum : size + a + c = 64) (hg : g < 2 ^ a) :
    (f * 2 ^ a + g) * 2 ^ c / 2 ^ (64 - size) = f ∧
    (f * 2 ^ a + g) * 2 ^ c * 2 ^ size % 2 ^ 64 = g * 2 ^ (64 - a) := by
  have htop : 64 - size = a + c := by omega
  have hlow : 64 - a = c + size := by omega
  constructor
  · rw [htop, Nat.pow_add, Nat.mul_div_mul_right _ _ (Nat.two_pow_pos c), Nat.mul_comm f,
      Nat.mul_add_div (Nat.two_pow_pos a), Nat.div_eq_of_lt hg, Nat.add_zero]
  · have hwhole : 2 ^ 64 = 2 ^ a * 2 ^ (c + size) := by
      rw [← Nat.pow_add]
      congr 1
      omega
    rw [Nat.mul_assoc, ← Nat.pow_add, hwhole, Nat.mul_mod_mul_right, Nat.mul_comm f,
      Nat.mul_add_mod, Nat.mod_eq_of_lt hg, hlow]

theorem Holds.getbit_ok (h : Holds packet start ((start + 7) / 8) s) (hsize : 1 ≤ size)
    (hlen : start + size ≤ 8 * packet.length) (hsafe : Safe packet.length start size) :
    ∃ ret s', getbit size s = .ok (ret, s') ∧ ret.toNat = field packet start size ∧
      Holds packet (start + size) ((start + size + 7) / 8) s' := by
  have hbits := h.bits
  have hshort := hsafe.short
  obtain ⟨s', h', hfill⟩ := (h.fill (by omega) (by omega) hlen rfl (by omega)).1
    ⟨hsafe.fits, hsafe.followed⟩
  have hbits' := h'.bits
  have hfits := hsafe.fits
  have hsplit : field packet start s'.bits = field packet start size * 2 ^ (s'.bits - size) +
      field packet (start + size) (s'.bits - size) := by
    rw [← field_add (by omega), show size + (s'.bits - size) = s'.bits by omega]
  have htop := top_split (f := field packet start size)
    (show size + (s'.bits - size) + (64 - s'.bits) = 64 by omega)
    (field_lt packet (start + size) (s'.bits - size))
  have hbuffer := h'.buffer
  rw [hsplit] at hbuffer
  rw [← hbuffer] at htop
  refine ⟨s'.buffer >>> (64 - size), ⟨s'.buffer <<< size, s'.bits - size, s'.packet⟩, ?_, ?_,
    h'.loaded, by dsimp only; omega, ?_⟩
  · rw [getbit, hfill, ok_bind, fromTop_of_le (by omega), shiftLeft, if_pos (by omega), ok_bind,
      shiftRight, if_pos (by omega), ok_bind, shiftLeft, if_pos hshort, ok_bind,
      masked_shift (by omega)]
    rw [show (s'.bits + 2 ^ 16 - size) % 2 ^ 16 = s'.bits - size by omega]
    rfl
  · rw [BitVec.toNat_ushiftRight, Nat.shiftRight_eq_div_pow]
    exact htop.1
  · dsimp only
    rw [BitVec.toNat_shiftLeft, Nat.shiftLeft_eq]
    exact htop.2

theorem Holds.getbit_error (h : Holds packet start ((start + 7) / 8) s) (hsize : 1 ≤ size)
    (hmax : size ≤ 64) (hlen : start + size ≤ 8 * packet.length)
    (hno : ¬ Safe packet.length start size) : ∃ e, getbit size s = .error e := by
  have hbits := h.bits
  obtain ⟨hok, herror⟩ := h.fill (by omega) hmax hlen rfl (by omega)
  rw [getbit]
  by_cases hload : 8 * ((start + size + 7) / 8) ≤ start + 64 ∧
      ((start + 7) / 8 < (start + size + 7) / 8 → (start + size + 7) / 8 + 7 ≤ packet.length)
  · -- Everything can be loaded, so the field has 64 bits, and the buffer is shifted by as many.
    obtain ⟨s', -, hfill⟩ := hok hload
    have hfull : size = 64 := by
      by_contra hne
      exact hno ⟨by omega, hload.1, hload.2⟩
    subst hfull
    rw [hfill]
    exact ⟨.badShift, rfl⟩
  · obtain ⟨e, hfill⟩ := herror hload
    rw [hfill]
    exact ⟨e, rfl⟩

end

section

variable {packet : List UInt8} {start : Nat} {sizes : List Nat} {s : BitState}

theorem Holds.not_truncated {p size : Nat} (h : Holds packet start p s) (hp : p ≤ packet.length)
    (hlen : start + size ≤ 8 * packet.length) : ¬ s.packet.length * 8 + s.bits < size := by
  have hbits := h.bits
  rw [h.loaded, List.length_drop]
  omega

section

variable (h : Holds packet start ((start + 7) / 8) s)
  (hsizes : ∀ size ∈ sizes, 1 ≤ size ∧ size ≤ 64) (hlen : start + total sizes ≤ 8 * packet.length)
include h hsizes hlen

theorem Holds.decode_ok (hsafe : SafeFrom packet.length start sizes) :
    ∃ values s', decodeFields sizes s = .ok (values, s') ∧
      values.map BitVec.toNat = fieldsFrom packet start sizes ∧
      Holds packet (start + total sizes) ((start + total sizes + 7) / 8) s' := by
  induction sizes generalizing start s with
  | nil => exact ⟨[], s, rfl, rfl, h⟩
  | cons size sizes ih =>
    obtain ⟨hsize, hrest⟩ := List.forall_mem_cons.mp hsizes
    have htotal : start + total (size :: sizes) = start + size + total sizes :=
      (Nat.add_assoc _ _ _).symm
    rw [htotal] at hlen ⊢
    obtain ⟨ret, s', hget, hret, h'⟩ := h.getbit_ok hsize.1 (by omega) hsafe.1
    obtain ⟨values, last, hdecode, hvalues, hlast⟩ := ih h' hrest hlen hsafe.2
    refine ⟨ret :: values, last, ?_, ?_, hlast⟩
    · rw [decodeFields, if_neg (h.not_truncated (by omega) (by omega)), hget, ok_bind, hdecode]
      rfl
    · rw [List.map_cons, hret, hvalues, fieldsFrom]

theorem Holds.decode_error (hno : ¬ SafeFrom packet.length start sizes) :
    ∃ e, decodeFields sizes s = .error e := by
  induction sizes generalizing start s with
  | nil => exact absurd trivial hno
  | cons size sizes ih =>
    obtain ⟨hsize, hrest⟩ := List.forall_mem_cons.mp hsizes
    have htotal : start + total (size :: sizes) = start + size + total sizes :=
      (Nat.add_assoc _ _ _).symm
    rw [htotal] at hlen
    rw [decodeFields, if_neg (h.not_truncated (by omega) (by omega))]
    by_cases hsafe : Safe packet.length start size
    · obtain ⟨ret, s', hget, -, h'⟩ := h.getbit_ok hsize.1 (by omega) hsafe
      obtain ⟨e, hdecode⟩ := ih h' hrest hlen fun hall => hno ⟨hsafe, hall⟩
      refine ⟨e, ?_⟩
      rw [hget, ok_bind, hdecode]
      rfl
    · obtain ⟨e, hget⟩ := h.getbit_error hsize.1 hsize.2 (by omega) hsafe
      refine ⟨e, ?_⟩
      rw [hget]
      rfl

end

end

theorem holds_empty (packet : List UInt8) : Holds packet 0 0 ⟨0, 0, packet⟩ := by
  refine ⟨rfl, rfl, ?_⟩
  rw [field, Nat.pow_zero, Nat.mod_one, Nat.zero_mul]
  rfl

/-- The fields of a protocol file are extracted exactly if each of them can be loaded and is shorter
than the buffer. -/
theorem decodeFields_extracts_iff (packet : List UInt8) (sizes : List Nat)
    (hsizes : ∀ size ∈ sizes, 1 ≤ size ∧ size ≤ 64) (hlen : total sizes ≤ 8 * packet.length) :
    Extracts packet sizes ↔ SafeFrom packet.length 0 sizes := by
  rw [← Nat.zero_add (total sizes)] at hlen
  constructor
  · rintro ⟨values, s, hdecode, -, -⟩
    by_contra hno
    obtain ⟨e, herror⟩ := (holds_empty packet).decode_error hsizes hlen hno
    rw [herror] at hdecode
    cases hdecode
  · intro hsafe
    obtain ⟨values, s, hdecode, hvalues, h⟩ := (holds_empty packet).decode_ok hsizes hlen hsafe
    rw [Nat.zero_add] at h
    exact ⟨values, s, hdecode, hvalues, h⟩

theorem nibble_byte_extracts :
    Extracts [0x45, 0x67, 0, 0, 0, 0, 0, 0, 0] [4, 8] := by
  refine (decodeFields_extracts_iff _ _ (by decide) (by decide)).mpr ⟨?_, ?_, trivial⟩
  · exact ⟨by decide, by decide, by decide⟩
  · exact ⟨by decide, by decide, by decide⟩

/-- The one byte of a packet is read together with the seven that follow it. -/
theorem last_byte_overruns :
    decodeFields [8] ⟨0, 0, [0x45]⟩ = .error .outOfRange ∧ ¬ Extracts [0x45] [8] := by
  have hfault : decodeFields [8] ⟨0, 0, [0x45]⟩ = .error .outOfRange := rfl
  refine ⟨hfault, ?_⟩
  rintro ⟨values, s, hdecode, -, -⟩
  cases hdecode

example : decodeFields [7, 58] ⟨0, 0, List.replicate 16 0xff⟩ = .error .badShift := by rfl

end Libtrace.BitBuffer
