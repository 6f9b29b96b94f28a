import Libtrace.Toeplitz

/-! The words of a bidirectional key repeat after sixteen bits and the hash is linear, so adjacent
fields of an even number of bytes can be exchanged. -/

namespace Libtrace.ToeplitzKey
open Toeplitz

/-- Bit `t` of the key, the first bit of the first byte being bit 0. Zeros follow. -/
def keyBit (key : Key) (t : Nat) : Bool :=
  if h : t / 8 < 40 then key[t / 8].getMsbD (t % 8) else false

theorem shiftByte_bit (x y : BitVec 8) {r : Nat} (h : r < 7) :
    (x <<< 1 ||| (0x80#8 &&& y) >>> 7).getMsbD r = x.getMsbD (r + 1) := by
  have h' : r < 8 := by omega
  simp [BitVec.getMsbD_or, BitVec.getMsbD_shiftLeft, BitVec.getMsbD_ushiftRight, h', h]

theorem keyBit_shift (key : Key) (t : Nat) : keyBit (shiftKey key) t = keyBit key (t + 1) := by
  unfold keyBit shiftKey
  by_cases h : t / 8 < 40
  · by_cases hr : t % 8 < 7
    · have hdiv : (t + 1) / 8 = t / 8 := by omega
      have hmod : (t + 1) % 8 = t % 8 + 1 := by omega
      by_cases hlast : t / 8 + 1 < 40
      · simp [h, hdiv, hmod, hlast, shiftByte_bit _ _ hr]
      · simp [h, hdiv, hmod, hlast]
    · -- the last bit of a byte comes from the next byte
      have hdiv : (t + 1) / 8 = t / 8 + 1 := by omega
      have hmod : (t + 1) % 8 = 0 := by omega
      have hseven : t % 8 = 7 := by omega
      by_cases hlast : t / 8 + 1 < 40
      · simp [h, hdiv, hmod, hseven, hlast]
      · simp [h, hdiv, hseven, hlast]
  · rw [dif_neg h, dif_neg (by omega)]

theorem keyBit_iterate (key : Key) (i t : Nat) :
    keyBit (shiftKey^[i] key) t = keyBit key (t + i) := by
  induction i generalizing t with
  | zero => rfl
  | succ i ih => rw [Function.iterate_succ_apply', keyBit_shift, ih, Nat.add_assoc, Nat.add_comm 1]

theorem keyBit_byte (key : Key) {j r : Nat} (hj : j < 40) (h : r < 8) :
    keyBit key (8 * j + r) = key[j].getMsbD r := by
  have hdiv : (8 * j + r) / 8 = j := by omega
  have hmod : (8 * j + r) % 8 = r := by omega
  simp [keyBit, hdiv, hmod, hj]

theorem byte_ext {key key' : Key} {j : Nat} (hj : j < 40)
    (h : ∀ r < 8, keyBit key (8 * j + r) = keyBit key' (8 * j + r)) : key[j] = key'[j] := by
  refine BitVec.eq_of_getMsbD_eq fun r hr => ?_
  rw [← keyBit_byte key hj hr, ← keyBit_byte key' hj hr]
  exact h r hr

variable (biKey : BitVec 16)

theorem bikey_period {t : Nat} (h : t + 16 < 320) :
    keyBit (createBikey biKey) (t + 16) = keyBit (createBikey biKey) t := by
  have hdiv : (t + 16) / 8 = t / 8 + 2 := by omega
  have hmod : (t + 16) % 8 = t % 8 := by omega
  have hfits : t / 8 + 2 < 40 := by omega
  have hfits' : t / 8 < 40 := by omega
  simp [keyBit, createBikey, hdiv, hmod, hfits, hfits']

theorem expandKey_period {i : Nat} (h : i + 16 ≤ 288) :
    hashExpandKey (createBikey biKey) (i + 16) = hashExpandKey (createBikey biKey) i := by
  have hbyte (j : Nat) (hj : j < 4) :
      (shiftKey^[i + 16] (createBikey biKey))[j] = (shiftKey^[i] (createBikey biKey))[j] := by
    refine byte_ext (by omega) fun r hr => ?_
    rw [keyBit_iterate, keyBit_iterate, ← Nat.add_assoc]
    exact bikey_period biKey (by omega)
  unfold hashExpandKey firstWord
  rw [hbyte 0 (by decide), hbyte 1 (by decide), hbyte 2 (by decide), hbyte 3 (by decide)]

section

variable (keyCache : Nat → BitVec 32)

theorem hashByte_xor (b : UInt8) (i : Nat) (r s : BitVec 32) :
    hashByte keyCache b i (r ^^^ s) = r ^^^ hashByte keyCache b i s := by
  unfold hashByte
  induction List.range 8 generalizing s with
  | nil => rfl
  | cons bit bits ih =>
    rw [List.foldl_cons, List.foldl_cons]
    split_ifs
    · rw [BitVec.xor_assoc, ih]
    · exact ih s

theorem hash_xor (data : List UInt8) (offset : Nat) (r s : BitVec 32) :
    toeplitzHash keyCache data offset (r ^^^ s) = r ^^^ toeplitzHash keyCache data offset s := by
  induction data generalizing offset s with
  | nil => rfl
  | cons b rest ih => rw [toeplitzHash, toeplitzHash, hashByte_xor, ih]

theorem hash_zero (data : List UInt8) (offset : Nat) (r : BitVec 32) :
    toeplitzHash keyCache data offset r = r ^^^ toeplitzHash keyCache data offset 0#32 := by
  rw [← hash_xor, BitVec.xor_zero]

theorem hash_comm (xs ys : List UInt8) (offset : Nat) (r : BitVec 32) :
    toeplitzHash keyCache ys offset (toeplitzHash keyCache xs offset r) =
      toeplitzHash keyCache xs offset (toeplitzHash keyCache ys offset r) := by
  calc
    _ = r ^^^ toeplitzHash keyCache xs offset 0#32 ^^^ toeplitzHash keyCache ys offset 0#32 := by
      rw [hash_zero keyCache ys, hash_zero keyCache xs offset r]
    _ = r ^^^ toeplitzHash keyCache ys offset 0#32 ^^^ toeplitzHash keyCache xs offset 0#32 := by
      rw [BitVec.xor_assoc, BitVec.xor_comm (toeplitzHash keyCache xs offset 0#32),
        BitVec.xor_assoc]
    _ = _ := by rw [hash_zero keyCache xs offset (toeplitzHash _ _ _ _), ← hash_zero keyCache ys]

theorem hash_append (xs ys : List UInt8) (offset : Nat) (r : BitVec 32) :
    toeplitzHash keyCache (xs ++ ys) offset r =
      toeplitzHash keyCache ys (offset + xs.length) (toeplitzHash keyCache xs offset r) := by
  induction xs generalizing offset r with
  | nil => rfl
  | cons b rest ih =>
    rw [List.cons_append, toeplitzHash, toeplitzHash, ih, List.length_cons, Nat.add_right_comm,
      Nat.add_assoc]

theorem hash_shift (data : List UInt8) (offset k : Nat) (r : BitVec 32)
    (h : ∀ i, i < (offset + data.length) * 8 → keyCache (i + k * 8) = keyCache i) :
    toeplitzHash keyCache data (offset + k) r = toeplitzHash keyCache data offset r := by
  induction data generalizing offset r with
  | nil => rfl
  | cons b rest ih =>
    rw [List.length_cons] at h
    have hbyte : hashByte keyCache b ((offset + k) * 8) r = hashByte keyCache b (offset * 8) r := by
      refine List.foldl_ext _ _ r fun result bit hbit => ?_
      have hbit := List.mem_range.mp hbit
      rw [← h (offset * 8 + bit) (by omega), Nat.add_mul, Nat.add_right_comm]
    rw [toeplitzHash, toeplitzHash, hbyte, Nat.add_right_comm]
    exact ih (offset + 1) _ fun i hi => h i (by omega)

end

theorem expandKey_periods (n : Nat) {i : Nat} (h : i + 16 * n ≤ 288) :
    hashExpandKey (createBikey biKey) (i + 16 * n) = hashExpandKey (createBikey biKey) i := by
  induction n with
  | zero => rfl
  | succ n ih =>
    rw [Nat.mul_succ, ← Nat.add_assoc, expandKey_period biKey (by omega), ih (by omega)]

theorem hash_exchange {xs ys : List UInt8} {offset : Nat} (r : BitVec 32)
    (hlen : ys.length = xs.length) (heven : xs.length % 2 = 0)
    (hfits : offset + 2 * xs.length ≤ 36) :
    toeplitzHash (hashExpandKey (createBikey biKey)) (ys ++ xs) offset r =
      toeplitzHash (hashExpandKey (createBikey biKey)) (xs ++ ys) offset r := by
  have move (data : List UInt8) (hdata : data.length = xs.length) (s : BitVec 32) :
      toeplitzHash (hashExpandKey (createBikey biKey)) data (offset + xs.length) s =
        toeplitzHash (hashExpandKey (createBikey biKey)) data offset s := by
    refine hash_shift _ data offset xs.length s fun i hi => ?_
    rw [show i + xs.length * 8 = i + 16 * (xs.length / 2) by omega]
    exact expandKey_periods biKey _ (by omega)
  rw [hash_append, hash_append, hlen, move xs rfl, move ys hlen]
  exact hash_comm _ ys xs offset r

end Libtrace.ToeplitzKey
