import Libtrace.ByteOrder
import Libtrace.EndAround

/-! The Internet checksum of `checksum.c`, on a little-endian processor, with sums in `uint32_t`. -/

namespace Libtrace.Checksum
open ByteOrder EndAround

def addWords : Nat → List UInt8 → Nat
  | sum, low :: high :: buff => addWords ((sum + (low.toNat + 256 * high.toNat)) % 2 ^ 32) buff
  | sum, [last] => (sum + last.toNat) % 2 ^ 32
  | sum, [] => sum

variable (buffer : List UInt8)

def addChecksum : Nat := addWords 0 buffer

def foldCarries : Nat → Nat → Nat
  | 0, sum => sum
  | fuel + 1, sum =>
    if sum / 65536 = 0 then sum else foldCarries fuel (sum % 65536 + sum / 65536)

def finishChecksum (sum : Nat) : Nat := 65535 - foldCarries sum sum % 65536

def checksumBuffer : Nat := finishChecksum (addChecksum buffer)

def ntohs : Nat → Nat := swap 256

def NoOverflow : Nat → List UInt8 → Prop
  | sum, low :: high :: buff =>
    sum + (low.toNat + 256 * high.toNat) < 2 ^ 32 ∧
      NoOverflow (sum + (low.toNat + 256 * high.toNat)) buff
  | sum, [last] => sum + last.toNat < 2 ^ 32
  | _, [] => True

/-- The 16-bit words of a buffer, the high byte first, with a zero byte behind an odd one. -/
def words : List UInt8 → List Nat
  | high :: low :: buff => (256 * high.toNat + low.toNat) :: words buff
  | [last] => [256 * last.toNat]
  | [] => []

def internetChecksum : Nat := 65535 - total 65536 (words buffer)

def storeField (k value : Nat) : List UInt8 :=
  buffer.take k ++ beBytes 2 value ++ buffer.drop (k + 2)

section

def wordSum : List UInt8 → Nat
  | low :: high :: buff => low.toNat + 256 * high.toNat + wordSum buff
  | [last] => last.toNat
  | [] => 0

theorem wordSum_le (buffer : List UInt8) : 2 * wordSum buffer ≤ 65535 * (buffer.length + 1) := by
  induction buffer using wordSum.induct with
  | case1 low high buff ih =>
    have hlow := low.toNat_lt
    have hhigh := high.toNat_lt
    simp only [wordSum, List.length_cons]
    omega
  | case2 last =>
    have := last.toNat_lt
    simp only [wordSum, List.length_cons, List.length_nil]
    omega
  | case3 => simp [wordSum]

variable {buffer : List UInt8}

theorem noOverflow_of_lt {sum : Nat} (h : sum + wordSum buffer < 2 ^ 32) :
    NoOverflow sum buffer := by
  induction buffer using wordSum.induct generalizing sum with
  | case1 low high buff ih =>
    rw [wordSum] at h
    exact ⟨by omega, ih (by omega)⟩
  | case2 last => exact h
  | case3 => exact trivial

theorem addWords_eq {sum : Nat} (h : NoOverflow sum buffer) :
    addWords sum buffer = sum + wordSum buffer := by
  induction buffer using wordSum.induct generalizing sum with
  | case1 low high buff ih =>
    rw [addWords, Nat.mod_eq_of_lt h.1, ih h.2, wordSum, Nat.add_assoc]
  | case2 last => exact Nat.mod_eq_of_lt h
  | case3 => rfl

theorem noOverflow_of_length (h : buffer.length ≤ 65535) : NoOverflow 0 buffer := by
  have := wordSum_le buffer
  exact noOverflow_of_lt (by omega)

theorem addChecksum_eq (h : buffer.length ≤ 65535) : addChecksum buffer = wordSum buffer := by
  rw [addChecksum, addWords_eq (noOverflow_of_length h), Nat.zero_add]

theorem wordSum_append {before : List UInt8} (heven : before.length % 2 = 0) (after : List UInt8) :
    wordSum (before ++ after) = wordSum before + wordSum after := by
  induction before using wordSum.induct with
  | case1 low high buff ih =>
    simp only [List.length_cons] at heven
    simp only [List.cons_append, wordSum, ih (by omega), Nat.add_assoc]
  | case2 last => simp at heven
  | case3 => simp [wordSum]

end

section

theorem foldCarries_eq (fuel : Nat) {sum : Nat} (h : sum ≤ fuel) :
    foldCarries fuel sum = residue 65536 sum := by
  induction fuel generalizing sum with
  | zero =>
    rw [Nat.le_zero.mp h]
    rfl
  | succ fuel ih =>
    rw [foldCarries]
    split_ifs with hsmall
    · exact (residue_of_lt (by omega)).symm
    · rw [ih (by omega), residue_carry (by decide)]

theorem finishChecksum_eq (sum : Nat) : finishChecksum sum = 65535 - residue 65536 sum := by
  rw [finishChecksum, foldCarries_eq sum (Nat.le_refl sum),
    Nat.mod_eq_of_lt (residue_lt (by decide) sum)]

theorem finishChecksum_lt (sum : Nat) : finishChecksum sum < 65536 := by
  rw [finishChecksum_eq]
  omega

theorem ntohs_complement {n : Nat} (h : n < 65536) : ntohs (65535 - n) = 65535 - ntohs n := by
  unfold ntohs swap
  omega

theorem ntohs_residue (n : Nat) : ntohs (residue 65536 n) = residue 65536 (256 * n) :=
  swap_residue (c := 256) (by decide) n

end

section

theorem words_lt (buffer : List UInt8) : ∀ w ∈ words buffer, w < 65536 := by
  induction buffer using words.induct with
  | case1 high low buff ih =>
    have hhigh := high.toNat_lt
    have hlow := low.toNat_lt
    intro w hw
    rw [words, List.mem_cons] at hw
    obtain rfl | hw := hw
    · omega
    · exact ih w hw
  | case2 last =>
    have := last.toNat_lt
    intro w hw
    rw [words, List.mem_singleton] at hw
    omega
  | case3 => simp [words]

theorem words_sum_modEq (buffer : List UInt8) :
    256 * wordSum buffer ≡ (words buffer).sum [MOD 65535] ∧
      (wordSum buffer = 0 ↔ (words buffer).sum = 0) := by
  induction buffer using words.induct with
  | case1 high low buff ih =>
    rw [wordSum, words, List.sum_cons]
    refine ⟨?_, by omega⟩
    have hmod := ih.1
    unfold Nat.ModEq at hmod ⊢
    omega
  | case2 last =>
    rw [wordSum, words, List.sum_singleton]
    exact ⟨rfl, by omega⟩
  | case3 => exact ⟨rfl, Iff.rfl⟩

theorem residue_words (buffer : List UInt8) :
    residue 65536 (256 * wordSum buffer) = total 65536 (words buffer) := by
  obtain ⟨hmod, hzero⟩ := words_sum_modEq buffer
  rw [total_eq_residue (by decide) (words_lt buffer)]
  exact residue_congr hmod (by omega)

theorem ntohs_checksumBuffer {buffer : List UInt8} (h : buffer.length ≤ 65535) :
    ntohs (checksumBuffer buffer) = internetChecksum buffer := by
  rw [checksumBuffer, addChecksum_eq h, finishChecksum_eq,
    ntohs_complement (residue_lt (by decide) _), ntohs_residue, residue_words, internetChecksum]

end

section

theorem wordSum_beBytes {n : Nat} (h : n < 65536) : wordSum (beBytes 2 (ntohs n)) = n := by
  have hhigh : ntohs n / 256 = n % 256 := by
    unfold ntohs swap
    omega
  have hlow : ntohs n % 256 = n / 256 := by
    unfold ntohs swap
    omega
  change (UInt8.ofNat (ntohs n / 256)).toNat + 256 * (UInt8.ofNat (ntohs n)).toNat + 0 = n
  rw [UInt8.toNat_ofNat', UInt8.toNat_ofNat', hhigh, hlow]
  omega

variable {buffer : List UInt8} {k : Nat}

theorem storeField_length (hk : k + 2 ≤ buffer.length) (value : Nat) :
    (storeField buffer k value).length = buffer.length := by
  simp only [storeField, List.length_append, List.length_take, length_beBytes, List.length_drop]
  omega

theorem wordSum_storeField (heven : k % 2 = 0) (hk : k + 2 ≤ buffer.length) (value : Nat) :
    wordSum (storeField buffer k value) =
      wordSum (buffer.take k) + wordSum (beBytes 2 value) + wordSum (buffer.drop (k + 2)) := by
  have htake : (buffer.take k).length = k := by
    rw [List.length_take]
    omega
  have hfront : (buffer.take k ++ beBytes 2 value).length % 2 = 0 := by
    rw [List.length_append, htake, length_beBytes]
    omega
  rw [storeField, wordSum_append hfront, wordSum_append (by omega)]

theorem checksumBuffer_stored (h : buffer.length ≤ 65535) (heven : k % 2 = 0)
    (hk : k + 2 ≤ buffer.length) :
    checksumBuffer (storeField buffer k (ntohs (checksumBuffer (storeField buffer k 0)))) = 0 := by
  have hzero := storeField_length hk 0
  have hstored := storeField_length hk (ntohs (checksumBuffer (storeField buffer k 0)))
  have hsum := wordSum_storeField heven hk 0
  have hfield : wordSum (beBytes 2 0) = 0 := by decide
  have hvalue : checksumBuffer (storeField buffer k 0) =
      65535 - residue 65536 (wordSum (buffer.take k) + wordSum (buffer.drop (k + 2))) := by
    rw [checksumBuffer, addChecksum_eq (by omega), hsum, hfield, finishChecksum_eq, Nat.add_zero]
  have hcomplement := residue_complement (b := 65536) (by decide)
    (wordSum (buffer.take k) + wordSum (buffer.drop (k + 2)))
  rw [checksumBuffer, addChecksum_eq (by omega), wordSum_storeField heven hk,
    wordSum_beBytes (by omega), hvalue, finishChecksum_eq, Nat.add_right_comm,
    hcomplement]

end

theorem checksumBuffer_rfc1071 (buffer : List UInt8) (h : buffer.length ≤ 65535) :
    ntohs (checksumBuffer buffer) = internetChecksum buffer ∧ NoOverflow 0 buffer ∧
      ∀ k, k % 2 = 0 → k + 2 ≤ buffer.length →
        checksumBuffer (storeField buffer k
          (ntohs (checksumBuffer (storeField buffer k 0)))) = 0 :=
  ⟨ntohs_checksumBuffer h, noOverflow_of_length h, fun _ => checksumBuffer_stored h⟩

theorem checksumBuffer_rfc1071_five :
    ntohs (checksumBuffer [0x45, 0x00, 0x12, 0x34, 0xff]) = 0xa9ca ∧
      internetChecksum [0x45, 0x00, 0x12, 0x34, 0xff] = 0xa9ca ∧
      checksumBuffer (storeField [0x45, 0x00, 0x12, 0x34, 0xff] 2 (ntohs (checksumBuffer
        (storeField [0x45, 0x00, 0x12, 0x34, 0xff] 2 0)))) = 0 := by
  obtain ⟨heq, -, hstored⟩ :=
    checksumBuffer_rfc1071 [0x45, 0x00, 0x12, 0x34, 0xff] (by decide)
  have hvalue : internetChecksum [0x45, 0x00, 0x12, 0x34, 0xff] = 0xa9ca := by decide
  exact ⟨heq.trans hvalue, hvalue, hstored 2 (by decide) (by decide)⟩

end Libtrace.Checksum
