import Mathlib.Tactic.IntervalCases
import Libtrace.Schedule
import Libtrace.AnonMask

/-! The anonymised addresses have common prefixes of the same length as the original ones; the
caches only keep masks that were computed. -/

namespace Libtrace.AnonPrefix
open CommonPrefix TraceAnon AnonMask

def addrBit (addr : Block) (i : Nat) : Bool :=
  if h : i / 8 < 16 then (addr ⟨i / 8, h⟩).getMsbD (i % 8) else false

variable {r q i : Nat} {c : CryptoAnon} {s : Caches}

theorem getLsbD_append_byte {n : Nat} (x : BitVec n) (b : Byte) (q : Nat) (hr : r < 8) :
    (x ++ b).getLsbD (8 * q + r) = if q = 0 then b.getLsbD r else x.getLsbD (8 * (q - 1) + r) := by
  rw [BitVec.getLsbD_append]
  by_cases h : q = 0
  · subst h
    rw [if_pos (by omega), if_pos rfl, Nat.mul_zero, Nat.zero_add]
  · rw [if_neg (by omega), if_neg h]
    congr 1
    omega

theorem getLsbD_ntohl (x : BitVec 32) (hq : q < 4) (hr : r < 8) :
    (ntohl x).getLsbD (8 * q + r) = x.getLsbD (8 * (3 - q) + r) := by
  simp only [ntohl, getLsbD_append_byte _ _ _ hr, BitVec.getLsbD_extractLsb']
  interval_cases q <;> simp [hr]

theorem getLsbD_load64 (bytes : Fin 8 → Byte) (hq : q < 8) (hr : r < 8) :
    (load64 bytes).getLsbD (8 * q + r) = (bytes ⟨q, hq⟩).getLsbD r := by
  simp only [load64, getLsbD_append_byte _ _ _ hr]
  interval_cases q <;> simp

theorem setWidth_low (x : BitVec 64) : (x &&& 0xffffffff).setWidth 32 = x.setWidth 32 := by
  refine BitVec.eq_of_toNat_eq ?_
  have hmask : x.toNat &&& (2 ^ 32 - 1) = x.toNat % 2 ^ 32 := Nat.and_two_pow_sub_one_eq_mod _ 32
  simp only [BitVec.toNat_setWidth, BitVec.toNat_and]
  change (x.toNat &&& (2 ^ 32 - 1)) % 2 ^ 32 = _
  rw [hmask, Nat.mod_mod]

theorem getLsbD_swap64 (x : BitVec 64) (hq : q < 8) (hr : r < 8) :
    (swap64 x).getLsbD (8 * q + r) = x.getLsbD (8 * (7 - q) + r) := by
  have hin : 8 * q + r < 64 := by omega
  simp only [swap64, setWidth_low, BitVec.getLsbD_or, BitVec.getLsbD_shiftLeft,
    BitVec.getLsbD_setWidth, hin, decide_true, Bool.true_and]
  by_cases h : q < 4
  · have hlow : 8 * q + r < 32 := by omega
    have hbyte : 8 * (3 - q) + r < 32 := by omega
    have hhigh : 32 + (8 * (3 - q) + r) = 8 * (7 - q) + r := by omega
    rw [getLsbD_ntohl _ h hr, BitVec.getLsbD_setWidth, BitVec.getLsbD_ushiftRight]
    simp [hlow, hbyte, hhigh]
  · have hhigh : 8 * q + r - 32 = 8 * (q - 4) + r := by omega
    have hin' : 8 * (q - 4) + r < 64 := by omega
    have hbyte : 8 * (7 - q) + r < 32 := by omega
    have hsame : 3 - (q - 4) = 7 - q := by omega
    have hnot : ¬ 8 * q + r < 32 := by omega
    rw [hhigh, getLsbD_ntohl _ (by omega) hr, BitVec.getLsbD_setWidth, hsame,
      BitVec.getLsbD_of_ge (ntohl _) _ (Nat.not_lt.mp hnot)]
    simp [hnot, hbyte, hin']

theorem getMsbD_swap64_load64 (bytes : Fin 8 → Byte) (hi : i < 64) :
    (swap64 (load64 bytes)).getMsbD i = (bytes ⟨i / 8, by omega⟩).getMsbD (i % 8) := by
  have hrow : 64 - 1 - i = 8 * (7 - i / 8) + (7 - i % 8) := by omega
  have hback : 7 - (7 - i / 8) = i / 8 := by omega
  have hbit : i % 8 < 8 := by omega
  rw [BitVec.getMsbD_eq_getLsbD, hrow, getLsbD_swap64 _ (by omega) (by omega), hback,
    getLsbD_load64 _ (by omega) (by omega), BitVec.getMsbD_eq_getLsbD]
  simp [hi, hbit]

theorem getMsbD_store64_swap64 (x : BitVec 64) (k : Fin 8) (hr : r < 8) :
    (store64 (swap64 x) k).getMsbD r = x.getMsbD (8 * k.val + r) := by
  have hrow : 64 - 1 - (8 * k.val + r) = 8 * (7 - k.val) + (7 - r) := by omega
  have hin : 8 * k.val + r < 64 := by omega
  rw [BitVec.getMsbD_eq_getLsbD, store64, BitVec.getLsbD_extractLsb',
    getLsbD_swap64 _ k.isLt (by omega), BitVec.getMsbD_eq_getLsbD, hrow]
  have hbit : 7 - r < 8 := by omega
  simp [hr, hin, hbit]

def addrMask (c : CryptoAnon) (addr : Block) (i : Nat) : Bool :=
  if i < 64 then maskBit64 c (swap64 (halves addr).1) i
  else maskBit64 c (swap64 (halves addr).2) (i - 64)

def anonymised6 (c : CryptoAnon) (addr : Block) : Block := fun i =>
  let half := if i.val < 8 then swap64 (halves addr).1 else swap64 (halves addr).2
  store64 (swap64 (encrypt64Bits c half ^^^ half)) ⟨i.val % 8, by omega⟩

theorem getMsbD_first (addr : Block) (hi : i < 64) :
    (swap64 (halves addr).1).getMsbD i = addrBit addr i := by
  rw [halves, getMsbD_swap64_load64 _ hi, addrBit, dif_pos (by omega)]
  rfl

theorem getMsbD_second (addr : Block) (hi : i < 64) :
    (swap64 (halves addr).2).getMsbD i = addrBit addr (64 + i) := by
  have hbyte : (64 + i) / 8 = 8 + i / 8 := by omega
  have hbit : (64 + i) % 8 = i % 8 := by omega
  rw [halves, getMsbD_swap64_load64 _ hi, addrBit, dif_pos (by omega)]
  simp only [hbyte, hbit]
  rfl

theorem addrBit_anonymised6 (c : CryptoAnon) (addr : Block) (hi : i < 128) :
    addrBit (anonymised6 c addr) i = (addrBit addr i ^^ addrMask c addr i) := by
  have hbyte : i / 8 < 16 := by omega
  rw [addrBit, dif_pos hbyte, anonymised6, getMsbD_store64_swap64 _ _ (by omega), addrMask]
  by_cases h : i < 64
  · have hrow : 8 * (i / 8 % 8) + i % 8 = i := by omega
    have hhalf : i / 8 < 8 := by omega
    simp only [hrow, hhalf, h, if_true]
    rw [BitVec.getMsbD_xor, getMsbD_encrypt64Bits c _ h, getMsbD_first addr h, Bool.xor_comm]
  · have hrow : 8 * (i / 8 % 8) + i % 8 = i - 64 := by omega
    have hhalf : ¬ i / 8 < 8 := by omega
    have hlt : i - 64 < 64 := by omega
    have hback : 64 + (i - 64) = i := by omega
    simp only [hrow, hhalf, h, if_false]
    rw [BitVec.getMsbD_xor, getMsbD_encrypt64Bits c _ hlt, getMsbD_second addr hlt, hback,
      Bool.xor_comm]

theorem addrMask_causal (c : CryptoAnon) {a b : Block} (hi : i < 128)
    (h : ∀ j < i, addrBit a j = addrBit b j) : addrMask c a i = addrMask c b i := by
  unfold addrMask
  split_ifs with h64
  · refine maskBit64_congr c fun j hj => ?_
    rw [getMsbD_first a (by omega), getMsbD_first b (by omega)]
    exact h j hj
  · refine maskBit64_congr c fun j hj => ?_
    rw [getMsbD_second a (by omega), getMsbD_second b (by omega)]
    exact h (64 + j) (by omega)

theorem prefixXor6 (c : CryptoAnon) : PrefixXor addrBit 128 (anonymised6 c) (addrMask c) where
  masked addr _ hi := addrBit_anonymised6 c addr hi
  causal _ _ _ hi h := addrMask_causal c hi h

theorem addr_ext {a b : Block} (h : ∀ i < 128, addrBit a i = addrBit b i) : a = b := by
  funext k
  refine BitVec.eq_of_getMsbD_eq fun r hr => ?_
  have hbyte : (8 * k.val + r) / 8 = k.val := by omega
  have hbit : (8 * k.val + r) % 8 = r := by omega
  have heq := h (8 * k.val + r) (by omega)
  simpa [addrBit, hbyte, hbit] using heq

structure Filled (c : CryptoAnon) (s : Caches) : Prop where
  v4 : ∀ pref mask, s.ipv4Cache pref = some mask → mask = encrypt32Bits c pref 0 c.cachebits 0
  v6 : ∀ pref mask, s.ipv6Cache pref = some mask → mask = encrypt64Bits c pref

theorem lookupv4Cache_filled (h : Filled c s) (pref : BitVec 32) :
    (lookupv4Cache c s pref).1 = encrypt32Bits c pref 0 c.cachebits 0 ∧
      Filled c (lookupv4Cache c s pref).2 := by
  unfold lookupv4Cache
  split
  · refine ⟨rfl, ⟨fun p m hm => ?_, h.v6⟩⟩
    by_cases hp : p = pref
    · subst hp
      simpa using hm.symm
    · exact h.v4 p m (by simpa [hp] using hm)
  · rename_i m hm
    exact ⟨h.v4 pref m hm, h⟩

theorem lookupv6Cache_filled (h : Filled c s) (pref : BitVec 64) :
    (lookupv6Cache c s pref).1 = encrypt64Bits c pref ∧ Filled c (lookupv6Cache c s pref).2 := by
  unfold lookupv6Cache
  split
  · refine ⟨rfl, ⟨h.v4, fun p m hm => ?_⟩⟩
    by_cases hp : p = pref
    · subst hp
      simpa using hm.symm
    · exact h.v6 p m (by simpa [hp] using hm)
  · rename_i m hm
    exact ⟨h.v6 pref m hm, h⟩

theorem anonIPv4_filled (h : Filled c s) (orig : BitVec 32) : Filled c (anonIPv4 c s orig).2 := by
  simp only [anonIPv4]
  split_ifs
  · exact h
  · exact ⟨h.v4, h.v6⟩
  · have hfilled := (lookupv4Cache_filled h (cachePrefix c orig)).2
    exact ⟨hfilled.v4, hfilled.v6⟩

theorem anonIPv6_filled (h : Filled c s) (orig : Block) :
    (anonIPv6 c s orig).1 = anonymised6 c orig ∧ Filled c (anonIPv6 c s orig).2 := by
  have hfirst := lookupv6Cache_filled h (swap64 (halves orig).1)
  have hsecond := lookupv6Cache_filled hfirst.2 (swap64 (halves orig).2)
  refine ⟨?_, hsecond.2⟩
  funext i
  simp only [anonIPv6, anonymised6, hfirst.1, hsecond.1]
  split_ifs with hi
  · simp only [Nat.mod_eq_of_lt hi]
  · have : i.val - 8 = i.val % 8 := by omega
    simp only [this]

theorem run_filled (c : CryptoAnon) (unset : BitVec 32) (calls : List Call) :
    Filled c (run c unset calls) := by
  refine Schedule.run_inv (Filled c) (fun s call h => ?_) ⟨by simp [newCaches], by simp [newCaches]⟩
    calls
  cases call with
  | anonIPv4 orig => exact anonIPv4_filled h orig
  | anonIPv6 orig => exact (anonIPv6_filled h orig).2

def anonymised4 (c : CryptoAnon) (s : Caches) (orig : BitVec 32) : BitVec 32 :=
  orig ^^^ encrypt32Bits c orig c.cachebits 32 (lookupv4Cache c s (cachePrefix c orig)).1

theorem anonymised4_eq (h : Filled c s) : anonymised4 c s = fun orig => orig ^^^ mask32 c orig := by
  funext orig
  rw [anonymised4, mask32, (lookupv4Cache_filled h _).1]

/-- Whatever was anonymised before, both maps keep the length of the longest common
prefix of any two addresses, and are injective. -/
theorem anon_commonPrefix (c : CryptoAnon) (unset : BitVec 32) (calls calls' : List Call) :
    (∀ a b : BitVec 32,
      commonPrefix (anonymised4 c (run c unset calls) a).getMsbD
          (anonymised4 c (run c unset calls') b).getMsbD 32 =
        commonPrefix a.getMsbD b.getMsbD 32) ∧
      (∀ a b : Block,
        commonPrefix (addrBit (anonIPv6 c (run c unset calls) a).1)
            (addrBit (anonIPv6 c (run c unset calls') b).1) 128 =
          commonPrefix (addrBit a) (addrBit b) 128) ∧
      Function.Injective (anonymised4 c (run c unset calls)) ∧
      Function.Injective fun a => (anonIPv6 c (run c unset calls) a).1 := by
  have h := run_filled c unset calls
  have h' := run_filled c unset calls'
  refine ⟨fun a b => ?_, fun a b => ?_, ?_, ?_⟩
  · rw [anonymised4_eq h, anonymised4_eq h']
    exact (prefixXor32 c).commonPrefix_eq a b
  · rw [(anonIPv6_filled h a).1, (anonIPv6_filled h' b).1]
    exact (prefixXor6 c).commonPrefix_eq a b
  · rw [anonymised4_eq h]
    exact (prefixXor32 c).injective fun a b heq => BitVec.eq_of_getMsbD_eq fun i hi => heq i hi
  · have hpure : (fun a => (anonIPv6 c (run c unset calls) a).1) = anonymised6 c :=
      funext fun a => (anonIPv6_filled h a).1
    rw [hpure]
    exact (prefixXor6 c).injective fun a b heq => addr_ext heq

end Libtrace.AnonPrefix
