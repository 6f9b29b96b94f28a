import Mathlib.Data.List.Induction
import Libtrace.ToeplitzKey

/-! The Toeplitz hash against its definition: each set bit of the input contributes the window of
the key at that bit. -/

namespace Libtrace.ToeplitzWindow
open Toeplitz ToeplitzKey Function

section

variable (keyCpy : Nat → BitVec 8)

def shiftByteAt (j : Nat) : Nat → BitVec 8 :=
  update keyCpy j (keyCpy j <<< 1 ||| (0x80#8 &&& keyCpy (j + 1)) >>> 7)

def shiftInPlace : Nat → BitVec 8 :=
  let shifted := (List.range 39).foldl shiftByteAt keyCpy
  update shifted 39 (shifted 39 <<< 1)

def expandRound (s : (Nat → BitVec 32) × (Nat → BitVec 8)) (i : Nat) :
    (Nat → BitVec 32) × (Nat → BitVec 8) :=
  (update s.1 i (s.2 3 ++ s.2 2 ++ s.2 1 ++ s.2 0), shiftInPlace s.2)

def expandKeyLoop (key : Key) (keyCache : Nat → BitVec 32) : Nat → BitVec 32 :=
  ((List.range 320).foldl expandRound (keyCache, fun j => key[j]?.getD 0)).1

theorem shiftByteAt_foldl (n j : Nat) :
    (List.range n).foldl shiftByteAt keyCpy j =
      if j < n then keyCpy j <<< 1 ||| (0x80#8 &&& keyCpy (j + 1)) >>> 7 else keyCpy j := by
  induction n generalizing j with
  | zero => rfl
  | succ n ih =>
    rw [List.range_succ, List.foldl_append, List.foldl_cons, List.foldl_nil, shiftByteAt]
    by_cases hj : j = n
    · rw [hj, update_self, ih n, ih (n + 1), if_neg (by omega), if_neg (by omega),
        if_pos (by omega)]
    · rw [update_of_ne hj, ih j]
      exact if_congr (by omega) rfl rfl

theorem shiftInPlace_eq (key : Key) :
    shiftInPlace (fun j => key[j]?.getD 0) = fun j => (shiftKey key)[j]?.getD 0 := by
  funext j
  unfold shiftInPlace
  rcases Nat.lt_trichotomy j 39 with hj | rfl | hj
  · have hfits : j < 40 := by omega
    have hnext : j + 1 < 40 := by omega
    rw [update_of_ne (by omega), shiftByteAt_foldl, if_pos hj]
    simp [shiftKey, hfits, hnext]
  · simp [shiftByteAt_foldl, shiftKey]
  · have hbehind : ¬ j < 40 := by omega
    rw [update_of_ne (by omega), shiftByteAt_foldl, if_neg (by omega)]
    simp [hbehind]

theorem expandRound_foldl (key : Key) (keyCache : Nat → BitVec 32) (n : Nat) :
    (List.range n).foldl expandRound (keyCache, fun j => key[j]?.getD 0) =
      (fun i => if i < n then hashExpandKey key i else keyCache i,
        fun j => (shiftKey^[n] key)[j]?.getD 0) := by
  induction n with
  | zero => rfl
  | succ n ih =>
    rw [List.range_succ, List.foldl_append, ih, List.foldl_cons, List.foldl_nil, expandRound]
    refine Prod.ext (funext fun i => ?_) ?_
    · dsimp only
      by_cases hi : i = n
      · rw [hi, update_self, if_pos (by omega)]
        simp [hashExpandKey, firstWord]
      · rw [update_of_ne hi]
        exact if_congr (by omega) rfl rfl
    · rw [iterate_succ_apply']
      exact shiftInPlace_eq _

theorem expandKeyLoop_eq (key : Key) (keyCache : Nat → BitVec 32) {i : Nat} (h : i < 320) :
    expandKeyLoop key keyCache i = hashExpandKey key i := by
  rw [expandKeyLoop, expandRound_foldl]
  exact if_pos h

end

section

def bitString (bytes : List (BitVec 8)) : BitVec 320 :=
  bytes.foldl (fun s b => s <<< 8 ||| b.setWidth 320) 0

/-- The 32 bits of the key from bit `t` on. -/
def keyWindow (key : Key) (t : Nat) : BitVec 32 := (bitString key.toList).extractLsb' (288 - t) 32

def byteSwap (w : BitVec 32) : BitVec 32 :=
  w.extractLsb' 0 8 ++ w.extractLsb' 8 8 ++ w.extractLsb' 16 8 ++ w.extractLsb' 24 8

def inputBit (data : List UInt8) (i : Nat) : Bool :=
  (data[i / 8]?.getD 0).toBitVec.getMsbD (i % 8)

def rssHash (key : Key) (data : List UInt8) (offset : Nat) : BitVec 32 :=
  (List.range (8 * data.length)).foldl
    (fun w i => if inputBit data i then w ^^^ keyWindow key (8 * offset + i) else w) 0

end

section

theorem bitString_concat (bytes : List (BitVec 8)) (b : BitVec 8) :
    bitString (bytes ++ [b]) = bitString bytes <<< 8 ||| b.setWidth 320 := by
  rw [bitString, List.foldl_append]
  rfl

theorem bitString_getLsbD (bytes : List (BitVec 8)) (hlength : bytes.length ≤ 40) {j r : Nat}
    (hj : j < bytes.length) (hr : r < 8) :
    (bitString bytes).getLsbD (8 * (bytes.length - 1 - j) + r) = bytes[j].getLsbD r := by
  induction bytes using List.reverseRecOn with
  | nil => exact absurd hj (Nat.not_lt_zero j)
  | append_singleton bytes b ih =>
    rw [List.length_append, List.length_singleton] at hlength hj
    rw [bitString_concat, List.length_append, List.length_singleton, Nat.add_sub_cancel]
    by_cases hlast : j = bytes.length
    · have hr' : r < 320 := by omega
      simp [hlast, hr, hr']
    · have hbefore : j < bytes.length := by omega
      have hpos : 8 * (bytes.length - j) + r - 8 = 8 * (bytes.length - 1 - j) + r := by omega
      have hbyte : 8 ≤ 8 * (bytes.length - j) + r := by omega
      have htop : 8 * (bytes.length - j) + r < 320 := by omega
      have hih := ih (by omega) hbefore
      rw [BitVec.getLsbD_or, BitVec.getLsbD_shiftLeft, hpos, hih, List.getElem_append_left hbefore]
      simp [htop, Nat.not_lt.mpr hbyte, hbyte]

theorem keyWindow_getMsbD (key : Key) {t k : Nat} (ht : t ≤ 288) (hk : k < 32) :
    (keyWindow key t).getMsbD k = keyBit key (t + k) := by
  have hj : (t + k) / 8 < 40 := by omega
  have hbit := bitString_getLsbD key.toList (j := (t + k) / 8) (r := 7 - (t + k) % 8)
    (by simp) (by simpa using hj) (by omega)
  have hpos : 288 - t + (31 - k) = 8 * (40 - 1 - (t + k) / 8) + (7 - (t + k) % 8) := by omega
  have hlow : 31 - k < 32 := by omega
  have hr : (t + k) % 8 < 8 := by omega
  simp only [Vector.length_toList, Vector.getElem_toList] at hbit
  rw [keyWindow, BitVec.getMsbD_eq_getLsbD, BitVec.getLsbD_extractLsb', hpos, hbit, keyBit,
    dif_pos hj, BitVec.getMsbD_eq_getLsbD]
  simp [hk, hr, hlow]

theorem shiftKey_byte (key : Key) {t j : Nat} (ht : t ≤ 288) (hj : j < 4) :
    (shiftKey^[t] key)[j] = (keyWindow key t).extractLsb' (8 * (3 - j)) 8 := by
  refine BitVec.eq_of_getMsbD_eq fun r hr => ?_
  have hpos : 8 * (3 - j) + (7 - r) = 31 - (8 * j + r) := by omega
  have hwindow := keyWindow_getMsbD key ht (show 8 * j + r < 32 by omega)
  rw [← keyBit_byte _ (by omega) hr, keyBit_iterate, Nat.add_comm, ← hwindow,
    BitVec.getMsbD_eq_getLsbD, BitVec.getMsbD_eq_getLsbD, BitVec.getLsbD_extractLsb', hpos]
  have hinside : 8 * j + r < 32 := by omega
  have hbit : 7 - r < 8 := by omega
  simp [hinside, hr, hbit]

theorem hashExpandKey_window (key : Key) {t : Nat} (ht : t ≤ 288) :
    hashExpandKey key t = byteSwap (keyWindow key t) := by
  rw [hashExpandKey, firstWord, shiftKey_byte key ht (by decide), shiftKey_byte key ht (by decide),
    shiftKey_byte key ht (by decide), shiftKey_byte key ht (by decide)]
  rfl

end

section

theorem byteSwap_xor (v w : BitVec 32) : byteSwap (v ^^^ w) = byteSwap v ^^^ byteSwap w := by
  refine BitVec.eq_of_getLsbD_eq fun i hi => ?_
  simp only [byteSwap, BitVec.getLsbD_xor, BitVec.getLsbD_append, BitVec.extractLsb'_xor]
  split_ifs <;> rfl

theorem foldl_byteSwap (set : Nat → Bool) {words windows : Nat → BitVec 32} {indices : List Nat}
    (h : ∀ i ∈ indices, words i = byteSwap (windows i)) (r w : BitVec 32) :
    indices.foldl (fun r i => if set i then r ^^^ words i else r) (r ^^^ byteSwap w) =
      r ^^^ byteSwap (indices.foldl (fun w i => if set i then w ^^^ windows i else w) w) := by
  induction indices generalizing w with
  | nil => rfl
  | cons i indices ih =>
    rw [List.foldl_cons, List.foldl_cons]
    have hrest := ih fun j hj => h j (List.mem_cons_of_mem i hj)
    by_cases hi : set i = true
    · rw [if_pos hi, if_pos hi, h i List.mem_cons_self, BitVec.xor_assoc, ← byteSwap_xor, hrest]
    · rw [if_neg hi, if_neg hi, hrest]

theorem getBit_ne_zero (b : UInt8) {i : Nat} (hi : i < 8) :
    getBit b i ≠ 0 ↔ b.toBitVec.getMsbD i = true := by
  have hall : ∀ (x : BitVec 8) (i : Fin 8),
      getBit ⟨x⟩ i ≠ 0 ↔ x.getMsbD i = true := by decide +kernel
  exact hall b.toBitVec ⟨i, hi⟩

theorem toeplitzHash_foldl (keyCache : Nat → BitVec 32) (data : List UInt8) (offset : Nat)
    (r : BitVec 32) :
    toeplitzHash keyCache data offset r =
      (List.range (8 * data.length)).foldl
        (fun r i => if inputBit data i then r ^^^ keyCache (8 * offset + i) else r) r := by
  induction data generalizing offset r with
  | nil => rfl
  | cons b rest ih =>
    have hfirst : hashByte keyCache b (offset * 8) r = (List.range 8).foldl
        (fun r i => if inputBit (b :: rest) i then r ^^^ keyCache (8 * offset + i) else r) r := by
      refine List.foldl_ext _ _ r fun r i hi => ?_
      have hi := List.mem_range.mp hi
      rw [Nat.mul_comm]
      refine if_congr ?_ rfl rfl
      rw [getBit_ne_zero b hi, inputBit, Nat.div_eq_of_lt hi, Nat.mod_eq_of_lt hi]
      rfl
    have hrest (i : Nat) : inputBit (b :: rest) (8 + i) = inputBit rest i := by
      rw [inputBit, show (8 + i) / 8 = i / 8 + 1 by omega, Nat.add_mod_left]
      rfl
    have hlength : 8 * (b :: rest).length = 8 + 8 * rest.length := by
      rw [List.length_cons]
      omega
    rw [toeplitzHash, ih, hfirst, hlength, List.range_add, List.foldl_append, List.foldl_map]
    refine List.foldl_ext _ _ _ fun r i _ => ?_
    rw [hrest, Nat.mul_succ, Nat.add_assoc]

end

theorem toeplitzHash_windows {keyCache : Nat → BitVec 32} {key : Key} {data : List UInt8}
    {offset : Nat} (hcache : ∀ i < 320, keyCache i = hashExpandKey key i)
    (h : offset + data.length ≤ 36) (result : BitVec 32) :
    toeplitzHash keyCache data offset result = result ^^^ byteSwap (rssHash key data offset) := by
  have hwords : ∀ i ∈ List.range (8 * data.length),
      keyCache (8 * offset + i) = byteSwap (keyWindow key (8 * offset + i)) := by
    intro i hi
    have hi := List.mem_range.mp hi
    rw [hcache _ (by omega), hashExpandKey_window key (by omega)]
  have hsum := foldl_byteSwap (inputBit data) hwords result 0
  rw [toeplitzHash_foldl]
  rwa [show byteSwap 0 = 0#32 by decide, BitVec.xor_zero] at hsum

/-- The hash with an expanded key is that of RSS added to what was hashed before; an input can be
hashed in parts. -/
theorem toeplitzHash_rss (key : Key) (keyCache : Nat → BitVec 32) (data : List UInt8) (offset : Nat)
    (result : BitVec 32) (h : offset + data.length ≤ 36) :
    toeplitzHash (expandKeyLoop key keyCache) data offset result =
        result ^^^ byteSwap (rssHash key data offset) ∧
      ∀ first second, data = first ++ second →
        toeplitzHash (expandKeyLoop key keyCache) data offset result =
          toeplitzHash (expandKeyLoop key keyCache) second (offset + first.length)
            (toeplitzHash (expandKeyLoop key keyCache) first offset result) := by
  refine ⟨toeplitzHash_windows (fun i hi => expandKeyLoop_eq key keyCache hi) h result, ?_⟩
  rintro first second rfl
  exact hash_append _ first second offset result

def countingKey : Key := .ofFn fun j => BitVec.ofNat 8 j

/-- The windows at bit 0 and at bit 15 of the key. -/
theorem countingKey_hashed :
    toeplitzHash (expandKeyLoop countingKey fun _ => 0) [0x80, 0x01] 0 0 = 0x01800081#32 ∧
      keyWindow countingKey 0 = 0x00010203#32 ∧ keyWindow countingKey 15 = 0x81018202#32 := by
  have hhash := (toeplitzHash_rss countingKey (fun _ => 0) [0x80, 0x01] 0 0 (by decide)).1
  have hrss : rssHash countingKey [0x80, 0x01] 0 = 0x81008001#32 := by decide +kernel
  decide +kernel

end Libtrace.ToeplitzWindow
