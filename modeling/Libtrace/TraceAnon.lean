import Mathlib.Data.List.Basic

/-! `CryptoAnon` of `tools/traceanon/Anon.cc`: each mask bit is the first bit of an encrypted block
that holds the address bits before it and padding. The cipher is any function on blocks. The host is
little-endian. -/

namespace Libtrace.TraceAnon

abbrev Byte := BitVec 8

abbrev Block := Fin 16 → Byte

/-- An object after construction; the cache prefix is a shift distance of 32-bit words. -/
structure CryptoAnon where
  /-- `EVP_EncryptUpdate` of one block under the key. -/
  encrypt : Block → Block
  padding : Block
  cachebits : Nat
  cachebits_pos : 1 ≤ cachebits
  cachebits_le : cachebits ≤ 32

structure Caches where
  ipv4Cache : BitVec 32 → Option (BitVec 32)
  ipv6Cache : BitVec 64 → Option (BitVec 64)
  recentIpv4Cache : (BitVec 32 × BitVec 32) × (BitVec 32 × BitVec 32)

/-- The constructor sets `recent_ipv4_cache[0][1]` twice and `[1][1]` never. -/
def newCaches (unset : BitVec 32) : Caches :=
  ⟨fun _ => none, fun _ => none, ((0, 0), (0, unset))⟩

def generateFirstPad (pad : Block) : BitVec 32 :=
  ((pad 0).setWidth 32 <<< 24) + ((pad 1).setWidth 32 <<< 16) + ((pad 2).setWidth 32 <<< 8) +
    (pad 3).setWidth 32

def input {w : Nat} (orig firstPad : BitVec w) (pos : Nat) : BitVec w :=
  if pos = 0 then firstPad
  else ((orig >>> (w - pos)) <<< (w - pos)) ||| ((firstPad <<< pos) >>> pos)

def setBit {w : Nat} (res : BitVec w) (rinOutput : Block) (pos : Nat) : BitVec w :=
  res ||| (((rinOutput 0).setWidth w >>> 7) <<< (w - 1 - pos))

def rinInput32 (padding : Block) (input : BitVec 32) : Block := fun i =>
  match i.val with
  | 0 => (input >>> 24).setWidth 8
  | 1 => ((input <<< 8) >>> 24).setWidth 8
  | 2 => ((input <<< 16) >>> 24).setWidth 8
  | 3 => ((input <<< 24) >>> 24).setWidth 8
  | _ => padding i

variable (c : CryptoAnon)

def encrypt32Bits (orig : BitVec 32) (start stop : Nat) (res : BitVec 32) : BitVec 32 :=
  (List.range' start (stop - start)).foldl (fun res pos =>
    let rinInput := rinInput32 c.padding (input orig (generateFirstPad c.padding) pos)
    setBit res (c.encrypt rinInput) pos) res

def load64 (bytes : Fin 8 → Byte) : BitVec 64 :=
  bytes 7 ++ bytes 6 ++ bytes 5 ++ bytes 4 ++ bytes 3 ++ bytes 2 ++ bytes 1 ++ bytes 0

def store64 (x : BitVec 64) : Fin 8 → Byte := fun i => x.extractLsb' (8 * i.val) 8

def rinInput64 (padding : Block) (input : BitVec 64) : Block := fun i =>
  if h : i.val < 8 then store64 input ⟨i.val, h⟩ else padding i

def encrypt64Bits (orig : BitVec 64) : BitVec 64 :=
  (List.range 64).foldl (fun result pos =>
    let first8pad := load64 fun i => c.padding (i.castLE (by decide))
    let rinInput := rinInput64 c.padding (input orig first8pad pos)
    setBit result (c.encrypt rinInput) pos) 0

def maskBit32 (orig : BitVec 32) (pos : Nat) : Bool :=
  (c.encrypt (rinInput32 c.padding (input orig (generateFirstPad c.padding) pos)) 0).getMsbD 0

def maskBit64 (orig : BitVec 64) (pos : Nat) : Bool :=
  (c.encrypt (rinInput64 c.padding
    (input orig (load64 fun i => c.padding (i.castLE (by decide))) pos)) 0).getMsbD 0

def lookupv4Cache (s : Caches) (pref : BitVec 32) : BitVec 32 × Caches :=
  match s.ipv4Cache pref with
  | none =>
    let prefmask := encrypt32Bits c pref 0 c.cachebits 0
    (prefmask, { s with ipv4Cache := Function.update s.ipv4Cache pref (some prefmask) })
  | some prefmask => (prefmask, s)

def lookupv6Cache (s : Caches) (pref : BitVec 64) : BitVec 64 × Caches :=
  match s.ipv6Cache pref with
  | none =>
    let prefmask := encrypt64Bits c pref
    (prefmask, { s with ipv6Cache := Function.update s.ipv6Cache pref (some prefmask) })
  | some prefmask => (prefmask, s)

def cachePrefix (orig : BitVec 32) : BitVec 32 :=
  (orig >>> (32 - c.cachebits)) <<< (32 - c.cachebits)

def anonIPv4 (s : Caches) (orig : BitVec 32) : BitVec 32 × Caches :=
  let (recent0, recent1) := s.recentIpv4Cache
  if recent0.1 = orig then (recent0.2, s)
  else if recent1.1 = orig then
    (recent1.2, { s with recentIpv4Cache := ((orig, recent1.2), recent0) })
  else
    let (mask, s) := lookupv4Cache c s (cachePrefix c orig)
    let result := encrypt32Bits c orig c.cachebits 32 mask
    (result ^^^ orig, { s with recentIpv4Cache := ((orig, result ^^^ orig), recent0) })

def ntohl (x : BitVec 32) : BitVec 32 :=
  x.extractLsb' 0 8 ++ x.extractLsb' 8 8 ++ x.extractLsb' 16 8 ++ x.extractLsb' 24 8

def swap64 (num : BitVec 64) : BitVec 64 :=
  let swapa := ntohl ((num &&& 0xffffffff).setWidth 32)
  let swapb := ntohl ((num >>> 32).setWidth 32)
  (swapa.setWidth 64 <<< 32) ||| swapb.setWidth 64

def halves (addr : Block) : BitVec 64 × BitVec 64 :=
  (load64 fun i => addr (i.castLE (by decide)), load64 fun i => addr (i.natAdd 8))

def anonIPv6 (s : Caches) (orig : Block) : Block × Caches :=
  let pref := swap64 (halves orig).1
  let suffix := swap64 (halves orig).2
  let (anonprefixmap, s) := lookupv6Cache c s pref
  let (anonsuffixmap, s) := lookupv6Cache c s suffix
  let pref := swap64 (anonprefixmap ^^^ pref)
  let suffix := swap64 (anonsuffixmap ^^^ suffix)
  (fun i => if h : i.val < 8 then store64 pref ⟨i.val, h⟩
    else store64 suffix ⟨i.val - 8, by omega⟩, s)

inductive Call where
  | anonIPv4 (orig : BitVec 32)
  | anonIPv6 (orig : Block)

def Call.step (s : Caches) : Call → Caches
  | .anonIPv4 orig => (TraceAnon.anonIPv4 c s orig).2
  | .anonIPv6 orig => (TraceAnon.anonIPv6 c s orig).2

def run (unset : BitVec 32) (calls : List Call) : Caches :=
  calls.foldl (Call.step c) (newCaches unset)

end Libtrace.TraceAnon
