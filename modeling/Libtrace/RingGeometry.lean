import Libtrace.Exec
import Libtrace.PcapFile

/-! The sizes of a Linux packet ring: `calculate_buffers`, and the loop of `socket_to_packetmmap`
that tries smaller blocks. Sizes are `unsigned int`s. -/

namespace Libtrace.RingGeometry
open Exec Protocols
open PcapFile (packetBufsize)

structure TpacketReq where
  blockSize : Nat
  blockNr : Nat
  frameSize : Nat
  frameNr : Nat
  deriving DecidableEq, Repr

def ringFrames : Nat := 256

def tpacketHdrlen : Nat := 64

/-- `none` if the MTU of the interface is not known. -/
def maxFrame (mtu : Option Int) : Nat :=
  let size := match mtu with
    | some mtu => ((mtu + tpacketHdrlen) % 2 ^ 32).toNat
    | none => packetBufsize
  if packetBufsize < size then packetBufsize else size

def growFrame (limit : Nat) : Nat → Nat → Decode Nat
  | 0, _ => .error .unfinished
  | fuel + 1, frame =>
    if frame < limit ∧ frame < packetBufsize then growFrame limit fuel (frame * 2 % 2 ^ 32)
    else .ok frame

def shrinkBlock (ring : Nat) : Nat → Nat → Decode Nat
  | 0, _ => .error .unfinished
  | fuel + 1, block =>
    if ring ≤ block / 2 then shrinkBlock ring fuel (block / 2) else .ok (block / 2)

def rounds : Nat := 33

def fill (frame ring block : Nat) : TpacketReq :=
  let blockNr := if ring % block ≠ 0 then ring / block + 1 else ring / block
  ⟨block, blockNr, frame, blockNr * (block / frame) % 2 ^ 32⟩

def TpacketReq.Sane (req : TpacketReq) : Prop :=
  req.blockSize ≠ 0 ∧ req.blockNr ≠ 0 ∧ req.frameSize ≠ 0 ∧ req.frameNr ≠ 0 ∧
    req.blockSize % req.frameSize = 0

instance (req : TpacketReq) : Decidable req.Sane := inferInstanceAs (Decidable (_ ∧ _))

def divide (frame block : Nat) : Decode TpacketReq := do
  let half ← shrinkBlock (ringFrames * frame % 2 ^ 32) rounds block
  let req := fill frame (ringFrames * frame % 2 ^ 32) (half * 2 % 2 ^ 32)
  if req.Sane then return req else throw .assertion

def frameSize (pagesize : Nat) (mtu : Option Int) : Decode Nat := do
  let frame ← growFrame (maxFrame mtu) rounds pagesize
  return if packetBufsize < frame then frame / 2 else frame

def calculateBuffers (pagesize : Nat) (mtu : Option Int) : Nat → Decode TpacketReq
  | 0 => do
    let frame ← frameSize pagesize mtu
    if pagesize % 2 ^ 32 = 0 then throw .unfinished else divide frame (pagesize % 2 ^ 32)
  | order + 1 => do
    let frame ← frameSize pagesize mtu
    -- "If max order is too high this might become 0"
    if pagesize * 2 ^ (order + 1) % 2 ^ 32 = 0 then calculateBuffers pagesize mtu order
    else divide frame (pagesize * 2 ^ (order + 1) % 2 ^ 32)

def maxOrder : Nat := 11

/-- What `setsockopt` says to a request for a ring. -/
inductive Reply where
  | allocated
  | enomem
  | failed
  deriving DecidableEq, Repr

inductive SocketError where
  /-- "TPACKET2 not supported" -/
  | version
  /-- "Cannot allocate enough memory for ring buffer" -/
  | noMemory
  /-- "Error setting the ring buffer size" -/
  | ringSize
  /-- "Failed to map memory for ring buffer" -/
  | map
  deriving DecidableEq, Repr

/-- From an order on, with the replies to the requests of each order: the order and the request that
worked. -/
def tryOrders (pagesize : Nat) (mtu : Option Int) (reply : Nat → Reply) :
    Nat → Decode (Except SocketError (Nat × TpacketReq))
  | 0 => .ok (.error .noMemory)
  | order + 1 => do
    let req ← calculateBuffers pagesize mtu (order + 1)
    match reply (order + 1) with
    | .allocated => return .ok (order + 1, req)
    | .enomem => tryOrders pagesize mtu reply order
    | .failed => return .error .ringSize

def socketToPacketmmap (pagesize : Nat) (mtu : Option Int) (version mapped : Bool)
    (reply : Nat → Reply) : Decode (Except SocketError (Nat × TpacketReq)) := do
  if version = false then return .error .version
  let ring ← tryOrders pagesize mtu reply maxOrder
  return if mapped then ring else ring.bind fun _ => .error .map

structure ValidGeometry (pagesize order : Nat) (req : TpacketReq) : Prop where
  frame_multiple : ∃ x, req.frameSize = pagesize * 2 ^ x
  frame_le : req.frameSize ≤ packetBufsize
  block_multiple : req.frameSize ∣ req.blockSize
  block_le : req.blockSize ≤ pagesize * 2 ^ order
  frames : ringFrames ≤ req.frameNr
  frameNr_eq : req.frameNr = req.blockNr * (req.blockSize / req.frameSize)

section

theorem two_pow_lt {i : Nat} (h : i < 32) : 2 ^ i < 2 ^ 32 := Nat.pow_lt_pow_right (by decide) h

theorem growFrame_spec {limit : Nat} (hlimit : limit ≤ packetBufsize) (fuel : Nat) {k : Nat}
    (hk : k ≤ 16) (hfuel : 16 < k + fuel) :
    ∃ f, growFrame limit fuel (2 ^ k) = .ok (2 ^ f) ∧ k ≤ f ∧ f ≤ 16 ∧
      ∀ j, k ≤ j → (f ≤ j ↔ limit ≤ 2 ^ j) := by
  have hbuf : packetBufsize = 2 ^ 16 := rfl
  induction fuel generalizing k with
  | zero => omega
  | succ fuel ih =>
    by_cases hmore : 2 ^ k < limit ∧ 2 ^ k < packetBufsize
    · have hk' : k < 16 := (Nat.pow_lt_pow_iff_right (by decide)).mp (hbuf ▸ hmore.2)
      obtain ⟨f, hf, hkf, hf16, hiff⟩ := ih (k := k + 1) hk' (by omega)
      refine ⟨f, ?_, by omega, hf16, fun j hj => ?_⟩
      · rw [growFrame, if_pos hmore, ← Nat.pow_succ, Nat.mod_eq_of_lt (two_pow_lt (by omega))]
        exact hf
      · obtain rfl | hlt := Nat.eq_or_lt_of_le hj
        · exact iff_of_false (by omega) (Nat.not_le.mpr hmore.1)
        · exact hiff j hlt
    · have hle : limit ≤ 2 ^ k := by
        by_contra hlt
        exact hmore ⟨Nat.not_le.mp hlt, Nat.lt_of_lt_of_le (Nat.not_le.mp hlt) hlimit⟩
      refine ⟨k, by rw [growFrame, if_neg hmore], Nat.le_refl k, hk, fun j hj => ?_⟩
      exact iff_of_true hj (Nat.le_trans hle (Nat.pow_le_pow_right (by decide) hj))

theorem two_pow_half (b : Nat) : 2 ^ (b + 1) / 2 = 2 ^ b := by
  rw [Nat.pow_succ, Nat.mul_div_cancel _ (by decide)]

theorem shrinkBlock_spec {r fuel b : Nat} (hfuel : b < fuel) :
    shrinkBlock (2 ^ (r + 1)) fuel (2 ^ (b + 1)) = .ok (2 ^ min b r) := by
  induction fuel generalizing b with
  | zero => omega
  | succ fuel ih =>
    rw [shrinkBlock, two_pow_half]
    by_cases hmore : r + 1 ≤ b
    · obtain ⟨c, rfl⟩ := Nat.exists_eq_add_of_le' (Nat.le_trans (Nat.le_add_left 1 r) hmore)
      rw [if_pos (Nat.pow_le_pow_right (by decide) hmore), ih (by omega)]
      congr 2
      omega
    · have hless : ¬ 2 ^ (r + 1) ≤ 2 ^ b := by
        rw [Nat.pow_le_pow_iff_right (by decide)]
        exact hmore
      rw [if_neg hless]
      congr 2
      omega

end

section

theorem maxFrame_le (mtu : Option Int) : maxFrame mtu ≤ packetBufsize := by
  unfold maxFrame
  dsimp only
  split_ifs <;> omega

theorem frameSize_spec {k : Nat} (hk : k ≤ 16) (mtu : Option Int) :
    ∃ f, frameSize (2 ^ k) mtu = .ok (2 ^ f) ∧ k ≤ f ∧ f ≤ 16 ∧
      ∀ j, k ≤ j → (f ≤ j ↔ maxFrame mtu ≤ 2 ^ j) := by
  obtain ⟨f, hf, hkf, hf16, hiff⟩ :=
    growFrame_spec (maxFrame_le mtu) rounds hk (by rw [rounds]; omega)
  have hle : ¬ packetBufsize < 2 ^ f :=
    Nat.not_lt.mpr (Nat.pow_le_pow_right (show 0 < 2 by decide) hf16)
  refine ⟨f, ?_, hkf, hf16, hiff⟩
  rw [frameSize, hf, ok_bind, if_neg hle]
  rfl

def ringOf (f b : Nat) : TpacketReq := fill (2 ^ f) (2 ^ (f + 8)) (2 ^ min b (f + 8))

theorem divide_eq {f b : Nat} (hf : f ≤ 16) (hb : b < 32) :
    divide (2 ^ f) (2 ^ (b + 1)) =
      if (ringOf f (b + 1)).Sane then .ok (ringOf f (b + 1)) else .error .assertion := by
  have hring : ringFrames * 2 ^ f % 2 ^ 32 = 2 ^ (f + 8) := by
    rw [ringFrames, Nat.pow_add, Nat.mul_comm, Nat.mod_eq_of_lt]
    exact Nat.pow_add 2 f 8 ▸ two_pow_lt (by omega)
  have hmin : min b (f + 7) + 1 = min (b + 1) (f + 8) := by omega
  have hdouble : 2 ^ min b (f + 7) * 2 = 2 ^ min (b + 1) (f + 8) := by rw [← hmin, Nat.pow_succ]
  have hblock : 2 ^ min b (f + 7) * 2 % 2 ^ 32 = 2 ^ min (b + 1) (f + 8) := by
    rw [hdouble, Nat.mod_eq_of_lt (two_pow_lt (by omega))]
  rw [divide, hring, shrinkBlock_spec (by rw [rounds]; omega), ok_bind, hblock]
  rfl

theorem ringOf_blockNr (f b : Nat) : (ringOf f b).blockNr = 2 ^ (f + 8 - min b (f + 8)) := by
  have hdvd : 2 ^ min b (f + 8) ∣ 2 ^ (f + 8) := Nat.pow_dvd_pow 2 (Nat.min_le_right _ _)
  rw [ringOf, fill]
  rw [if_neg (not_not.mpr (Nat.mod_eq_zero_of_dvd hdvd)),
    Nat.pow_div (Nat.min_le_right _ _) (by decide)]

theorem ringOf_frameNr (f b : Nat) : (ringOf f b).frameNr =
    2 ^ (f + 8 - min b (f + 8)) * (2 ^ min b (f + 8) / 2 ^ f) % 2 ^ 32 := by
  rw [← ringOf_blockNr]
  rfl

theorem ringOf_fits {f b : Nat} (h : f ≤ b) :
    2 ^ (f + 8 - min b (f + 8)) * (2 ^ min b (f + 8) / 2 ^ f) = ringFrames := by
  have hsum : f + 8 - min b (f + 8) + (min b (f + 8) - f) = 8 := by omega
  rw [Nat.pow_div (by omega) (by decide), ← Nat.pow_add, hsum]
  rfl

theorem ringOf_empty {f b : Nat} (h : b < f) : (ringOf f b).frameNr = 0 := by
  have hlt : 2 ^ min b (f + 8) < 2 ^ f := Nat.pow_lt_pow_right (by decide) (by omega)
  rw [ringOf_frameNr, Nat.div_eq_of_lt hlt]
  rfl

theorem ringOf_sane_iff (f b : Nat) : (ringOf f b).Sane ↔ f ≤ b := by
  constructor
  · intro h
    by_contra hlt
    exact h.2.2.2.1 (ringOf_empty (Nat.not_le.mp hlt))
  · intro h
    have hpos : ∀ i, 2 ^ i ≠ 0 := fun i => Nat.ne_of_gt (Nat.two_pow_pos i)
    refine ⟨hpos _, ringOf_blockNr f b ▸ hpos _, hpos f, ?_, ?_⟩
    · rw [ringOf_frameNr, ringOf_fits h]
      decide
    · exact Nat.mod_eq_zero_of_dvd (Nat.pow_dvd_pow 2 (by omega))

theorem ringOf_valid {f k order : Nat} (hk : k ≤ f) (hf : f ≤ 16) (h : f ≤ k + order) :
    ValidGeometry (2 ^ k) order (ringOf f (k + order)) where
  frame_multiple := ⟨f - k, by rw [← Nat.pow_add, Nat.add_sub_of_le hk]; rfl⟩
  frame_le := Nat.pow_le_pow_right (show 0 < 2 by decide) hf
  block_multiple := Nat.pow_dvd_pow 2 (by omega)
  block_le := by
    rw [← Nat.pow_add]
    exact Nat.pow_le_pow_right (by decide) (Nat.min_le_left _ _)
  frames := by
    rw [ringOf_frameNr, ringOf_fits h]
    decide
  frameNr_eq := by
    rw [ringOf_frameNr, ringOf_blockNr]
    change _ = 2 ^ (f + 8 - min (k + order) (f + 8)) * (2 ^ min (k + order) (f + 8) / 2 ^ f)
    rw [ringOf_fits h]
    decide

end

section

/-- The loop tries an order when there was no memory for all larger ones. -/
def Tried (reply : Nat → Reply) (first order : Nat) : Prop :=
  1 ≤ order ∧ order ≤ first ∧ ∀ larger, order < larger → larger ≤ first → reply larger = .enomem

theorem tried_succ (reply : Nat → Reply) (first order : Nat) :
    Tried reply (first + 1) order ↔
      order = first + 1 ∨ reply (first + 1) = .enomem ∧ Tried reply first order := by
  constructor
  · rintro ⟨hpos, hle, hlarger⟩
    by_cases hfirst : order = first + 1
    · exact .inl hfirst
    · refine .inr ⟨hlarger _ (by omega) (Nat.le_refl _), hpos, by omega, fun o hlt ho => ?_⟩
      exact hlarger o hlt (by omega)
  · rintro (rfl | ⟨hreply, hpos, hle, hlarger⟩)
    · exact ⟨by omega, Nat.le_refl _, fun o hlt ho => by omega⟩
    · refine ⟨hpos, by omega, fun o hlt ho => ?_⟩
      obtain rfl | hless := Nat.eq_or_lt_of_le ho
      · exact hreply
      · exact hlarger o hlt (by omega)

variable {k : Nat} (hk : k ≤ 16) (mtu : Option Int)

include hk

theorem calculateBuffers_spec {order : Nat} (hpos : 1 ≤ order) (hle : order ≤ maxOrder) :
    ∃ f, k ≤ f ∧ f ≤ 16 ∧ (f ≤ k + order ↔ maxFrame mtu ≤ 2 ^ k * 2 ^ order) ∧
      calculateBuffers (2 ^ k) mtu order =
        if f ≤ k + order then .ok (ringOf f (k + order)) else .error .assertion := by
  obtain ⟨f, hframe, hkf, hf, hiff⟩ := frameSize_spec hk mtu
  have hfits := hiff (k + order) (Nat.le_add_right k order)
  rw [Nat.pow_add] at hfits
  refine ⟨f, hkf, hf, hfits, ?_⟩
  obtain ⟨n, rfl⟩ := Nat.exists_eq_add_of_le' hpos
  rw [maxOrder] at hle
  have hblock : 2 ^ k * 2 ^ (n + 1) % 2 ^ 32 = 2 ^ (k + n + 1) := by
    rw [← Nat.pow_add, Nat.mod_eq_of_lt (two_pow_lt (by omega)), Nat.add_assoc]
  rw [calculateBuffers, hframe, ok_bind, hblock, if_neg (Nat.ne_of_gt (Nat.two_pow_pos _)),
    divide_eq hf (by omega), ← Nat.add_assoc]
  simp only [ringOf_sane_iff]

/-- The loop ends exactly if the largest frame fits into the largest block of every order that it
tries. -/
theorem tryOrders_returns_iff (reply : Nat → Reply) {first : Nat} (hle : first ≤ maxOrder) :
    (∃ result, tryOrders (2 ^ k) mtu reply first = .ok result) ↔
      ∀ order, Tried reply first order → maxFrame mtu ≤ 2 ^ k * 2 ^ order := by
  induction first with
  | zero =>
    refine iff_of_true ⟨_, rfl⟩ fun order htried => ?_
    have := htried.1
    have := htried.2.1
    omega
  | succ first ih =>
    obtain ⟨f, -, -, hiff, hbuffers⟩ := calculateBuffers_spec hk mtu (Nat.succ_pos first) hle
    simp only [tried_succ, or_imp, forall_and, forall_eq, ← hiff]
    rw [tryOrders, hbuffers]
    by_cases hfits : f ≤ k + (first + 1)
    · rw [if_pos hfits, ok_bind, and_iff_right hfits]
      cases hreply : reply (first + 1) with
      | allocated => exact iff_of_true ⟨_, rfl⟩ fun order htried => by cases htried.1
      | enomem =>
        refine (ih (by omega)).trans (forall_congr' fun order => ?_)
        rw [and_iff_right rfl]
      | failed => exact iff_of_true ⟨_, rfl⟩ fun order htried => by cases htried.1
    · rw [if_neg hfits]
      refine iff_of_false ?_ fun hboth => hfits hboth.1
      rintro ⟨result, hresult⟩
      cases hresult

theorem tryOrders_assertion (reply : Nat → Reply) {first : Nat} (hle : first ≤ maxOrder)
    (h : ¬ ∃ result, tryOrders (2 ^ k) mtu reply first = .ok result) :
    tryOrders (2 ^ k) mtu reply first = .error .assertion := by
  induction first with
  | zero => exact absurd ⟨_, rfl⟩ h
  | succ first ih =>
    obtain ⟨f, -, -, -, hbuffers⟩ := calculateBuffers_spec hk mtu (Nat.succ_pos first) hle
    rw [tryOrders, hbuffers] at h ⊢
    by_cases hfits : f ≤ k + (first + 1)
    · rw [if_pos hfits, ok_bind] at h ⊢
      cases hreply : reply (first + 1) with
      | allocated => exact absurd ⟨_, by rw [hreply]; rfl⟩ h
      | enomem =>
        rw [hreply] at h
        exact ih (by omega) h
      | failed => exact absurd ⟨_, by rw [hreply]; rfl⟩ h
    · rw [if_neg hfits]
      rfl

/-- `socket_to_packetmmap` returns, with a ring or an error, if the largest frame fits into the
largest block of every order that it tries. Otherwise an assertion fails. -/
theorem socketToPacketmmap_returns_iff (mapped : Bool) (reply : Nat → Reply) :
    ((∃ result, socketToPacketmmap (2 ^ k) mtu true mapped reply = .ok result) ↔
        ∀ order, Tried reply maxOrder order → maxFrame mtu ≤ 2 ^ k * 2 ^ order) ∧
      ((¬ ∀ order, Tried reply maxOrder order → maxFrame mtu ≤ 2 ^ k * 2 ^ order) →
        socketToPacketmmap (2 ^ k) mtu true mapped reply = .error .assertion) := by
  have hrun : socketToPacketmmap (2 ^ k) mtu true mapped reply =
      (tryOrders (2 ^ k) mtu reply maxOrder >>= fun ring =>
        return if mapped then ring else ring.bind fun _ => .error .map) :=
    if_neg (by decide)
  rw [hrun, ← tryOrders_returns_iff hk mtu reply (Nat.le_refl maxOrder)]
  refine ⟨⟨?_, ?_⟩, fun h => ?_⟩
  · rintro ⟨result, h⟩
    obtain ⟨ring, hring, -⟩ := except_bind_ok.mp h
    exact ⟨ring, hring⟩
  · rintro ⟨ring, hring⟩
    rw [hring]
    exact ⟨_, rfl⟩
  · rw [tryOrders_assertion hk mtu reply (Nat.le_refl maxOrder) h]
    rfl

end

def scarce (order : Nat) : Reply := if 4 < order then .enomem else .allocated

theorem socketToPacketmmap_returns_loopback :
    (∃ result, socketToPacketmmap (2 ^ 12) (some 65536) true true scarce = .ok result) ↔
      ∀ order, Tried scarce maxOrder order → maxFrame (some 65536) ≤ 2 ^ 12 * 2 ^ order :=
  (socketToPacketmmap_returns_iff (by decide) (some 65536) true scarce).1

/-- For every page size from 4096 to 65536, every MTU and order, `calculate_buffers` computes a
valid ring exactly if the largest frame fits into the largest block. -/
theorem calculateBuffers_valid_iff {k : Nat} (hk : 12 ≤ k ∧ k ≤ 16) (mtu : Option Int) {order : Nat}
    (ho : 1 ≤ order ∧ order ≤ maxOrder) :
    (∃ req, calculateBuffers (2 ^ k) mtu order = .ok req ∧ ValidGeometry (2 ^ k) order req) ↔
      maxFrame mtu ≤ 2 ^ k * 2 ^ order := by
  obtain ⟨f, hkf, hf, hiff, hbuffers⟩ := calculateBuffers_spec hk.2 mtu ho.1 ho.2
  rw [← hiff, hbuffers]
  by_cases hfits : f ≤ k + order
  · rw [if_pos hfits]
    exact iff_of_true ⟨_, rfl, ringOf_valid hkf hf hfits⟩ hfits
  · rw [if_neg hfits]
    refine iff_of_false ?_ hfits
    rintro ⟨req, hreq, -⟩
    cases hreq

theorem calculateBuffers_valid_ethernet :
    ∃ req, calculateBuffers (2 ^ 12) (some 1500) 1 = .ok req ∧ ValidGeometry (2 ^ 12) 1 req :=
  (calculateBuffers_valid_iff (by decide) (some 1500) (by decide)).mpr (by decide)

/-- On the loopback interface an assertion fails with blocks of eight pages only. -/
theorem calculateBuffers_loopback :
    calculateBuffers 4096 (some 65536) 3 = .error .assertion ∧
      ¬ ∃ req, calculateBuffers 4096 (some 65536) 3 = .ok req ∧ ValidGeometry 4096 3 req := by
  have hfails : calculateBuffers 4096 (some 65536) 3 = .error .assertion := by decide +kernel
  refine ⟨hfails, ?_⟩
  rintro ⟨req, hreq, -⟩
  cases hfails.symm.trans hreq

end Libtrace.RingGeometry
