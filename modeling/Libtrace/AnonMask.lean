import Libtrace.CommonPrefix
import Libtrace.TraceAnon

/-! The masks of `CryptoAnon` bit by bit, from the top: each bit depends on the address bits before
it. -/

namespace Libtrace.AnonMask
open CommonPrefix TraceAnon

section

variable {w : Nat}

theorem getMsbD_setBit (hw : 8 ≤ w) (res : BitVec w) (rinOutput : Block) {pos i : Nat}
    (hpos : pos < w) (hi : i < w) :
    (setBit res rinOutput pos).getMsbD i =
      (res.getMsbD i || (decide (i = pos) && (rinOutput 0).getMsbD 0)) := by
  simp only [setBit, BitVec.getMsbD_or]
  congr 1
  simp only [BitVec.getMsbD_eq_getLsbD, hi, decide_true, Bool.true_and, BitVec.getLsbD_shiftLeft,
    BitVec.getLsbD_ushiftRight, BitVec.getLsbD_setWidth]
  by_cases h : i = pos
  · subst h
    have hin : w - 1 - i < w := by omega
    have hbyte : 7 < w := by omega
    simp [hin, hbyte]
  · by_cases hlt : i < pos
    · rw [BitVec.getLsbD_of_ge (rinOutput 0) _ (by omega)]
      simp [h]
    · have : w - 1 - i < w - 1 - pos := by omega
      simp [this, h]

theorem getMsbD_foldl_setBit (hw : 8 ≤ w) (out : Nat → Block) (start n : Nat) (hn : start + n ≤ w)
    (res : BitVec w) {i : Nat} (hi : i < w) :
    ((List.range' start n).foldl (fun res pos => setBit res (out pos) pos) res).getMsbD i =
      (res.getMsbD i || (decide (start ≤ i ∧ i < start + n) && (out i 0).getMsbD 0)) := by
  induction n generalizing start res with
  | zero =>
    rw [List.range'_zero, List.foldl_nil, decide_eq_false (by omega), Bool.false_and, Bool.or_false]
  | succ n ih =>
    rw [List.range'_succ, List.foldl_cons, ih (start + 1) (by omega),
      getMsbD_setBit hw _ _ (by omega) hi]
    by_cases h : i = start
    · subst h
      rw [decide_eq_false (by omega : ¬ (i + 1 ≤ i ∧ i < i + 1 + n))]
      simp
    · have : (start + 1 ≤ i ∧ i < start + 1 + n) ↔ (start ≤ i ∧ i < start + (n + 1)) := by omega
      simp only [this, decide_eq_false h, Bool.false_and, Bool.or_false]

theorem input_congr {a b : BitVec w} (firstPad : BitVec w) {pos : Nat}
    (h : ∀ j < pos, a.getMsbD j = b.getMsbD j) : input a firstPad pos = input b firstPad pos := by
  unfold input
  split_ifs with h0
  · rfl
  · congr 1
    refine BitVec.eq_of_getMsbD_eq fun i hi => ?_
    simp only [BitVec.getMsbD_shiftLeft, BitVec.getMsbD_ushiftRight]
    by_cases hin : i + (w - pos) < w
    · rw [Nat.add_sub_cancel, h i (by omega)]
    · simp [hin]

end

section

variable (c : CryptoAnon)
include c

theorem maskBit32_congr {a b : BitVec 32} {pos : Nat} (h : ∀ j < pos, a.getMsbD j = b.getMsbD j) :
    maskBit32 c a pos = maskBit32 c b pos := by
  rw [maskBit32, maskBit32, input_congr _ h]

theorem maskBit64_congr {a b : BitVec 64} {pos : Nat} (h : ∀ j < pos, a.getMsbD j = b.getMsbD j) :
    maskBit64 c a pos = maskBit64 c b pos := by
  rw [maskBit64, maskBit64, input_congr _ h]

theorem getMsbD_encrypt32Bits (orig : BitVec 32) {start stop : Nat} (hstart : start ≤ stop)
    (hstop : stop ≤ 32) (res : BitVec 32) {i : Nat} (hi : i < 32) :
    (encrypt32Bits c orig start stop res).getMsbD i =
      (res.getMsbD i || (decide (start ≤ i ∧ i < stop) && maskBit32 c orig i)) := by
  rw [encrypt32Bits, getMsbD_foldl_setBit (by decide) _ start (stop - start) (by omega) res hi,
    Nat.add_sub_of_le hstart]
  rfl

theorem getMsbD_encrypt64Bits (orig : BitVec 64) {i : Nat} (hi : i < 64) :
    (encrypt64Bits c orig).getMsbD i = maskBit64 c orig i := by
  rw [encrypt64Bits, List.range_eq_range',
    getMsbD_foldl_setBit (by decide) _ 0 64 (by decide) 0 hi]
  simp [hi, maskBit64]

theorem getMsbD_cachePrefix (orig : BitVec 32) {i : Nat} (hi : i < c.cachebits) :
    (cachePrefix c orig).getMsbD i = orig.getMsbD i := by
  have hle := c.cachebits_le
  simp only [cachePrefix, BitVec.getMsbD_shiftLeft, BitVec.getMsbD_ushiftRight]
  have : i + (32 - c.cachebits) < 32 := by omega
  simp [this]

end

def mask32 (c : CryptoAnon) (orig : BitVec 32) : BitVec 32 :=
  encrypt32Bits c orig c.cachebits 32 (encrypt32Bits c (cachePrefix c orig) 0 c.cachebits 0)

theorem getMsbD_mask32 (c : CryptoAnon) (orig : BitVec 32) {i : Nat} (hi : i < 32) :
    (mask32 c orig).getMsbD i = maskBit32 c orig i := by
  have hle := c.cachebits_le
  rw [mask32, getMsbD_encrypt32Bits c orig hle (Nat.le_refl 32) _ hi,
    getMsbD_encrypt32Bits c _ (Nat.zero_le _) hle _ hi]
  by_cases hcached : i < c.cachebits
  · have hsame : maskBit32 c (cachePrefix c orig) i = maskBit32 c orig i :=
      maskBit32_congr c fun j hj => getMsbD_cachePrefix c orig (by omega)
    simp [hcached, hsame, Nat.not_le.mpr hcached]
  · simp [hcached, Nat.not_lt.mp hcached, hi]

theorem prefixXor32 (c : CryptoAnon) :
    PrefixXor BitVec.getMsbD 32 (fun a => a ^^^ mask32 c a) (maskBit32 c) where
  masked a i hi := by rw [BitVec.getMsbD_xor, getMsbD_mask32 c a hi]
  causal _ _ _ _ h := maskBit32_congr c h

end Libtrace.AnonMask
