import Libtrace.AnonPacket
import Libtrace.Layer3Reads

/-! The headers that `encrypt_ips` visits: the IPv4 header of a packet, and what the ICMP errors in
it quote. -/

namespace Libtrace.AnonVisits
open Exec Orbit Protocols PacketAccess PacketLayout Layer3Reads AnonPacket

variable {σ : Type}

structure Visit (σ : Type) where
  work : Work σ
  ptr : Nat
  encSource : Bool
  encDest : Bool

def Visit.IsIpv4 (v : Visit σ) : Prop := (v.work.pkt.bytes v.ptr).toNat / 16 = 4

def Visit.icmp (v : Visit σ) : Option Nat :=
  if (v.work.pkt.bytes (v.ptr + 9)).toNat = 1 ∧ (v.work.pkt.bytes v.ptr).toNat / 16 = 4 ∧
      be v.work.pkt (v.ptr + 6) % 0x2000 = 0 then
    some (v.ptr + (v.work.pkt.bytes v.ptr).toNat % 16 * 4)
  else none

def address (pkt : Packet) (p : Nat) : BitVec 32 := .ofNat 32 (be pkt p * 65536 + be pkt (p + 2))

/-- What is read and written of a header is captured. -/
structure Inside (v : Visit σ) : Prop where
  protocol : v.ptr + 10 ≤ v.work.pkt.size
  source : v.encSource = true → v.ptr + 16 ≤ v.work.pkt.size
  dest : v.encDest = true → v.ptr + 20 ≤ v.work.pkt.size
  icmp : ∀ icmp, v.icmp = some icmp → icmp + 4 ≤ v.work.pkt.size

def Visit.Writes (v : Visit σ) (i : Nat) : Prop :=
  (v.encSource = true ∧ v.ptr + 12 ≤ i ∧ i < v.ptr + 16) ∨
    (v.encDest = true ∧ v.ptr + 16 ≤ i ∧ i < v.ptr + 20) ∨
    ∃ icmp, v.icmp = some icmp ∧ (i = icmp + 2 ∨ i = icmp + 3)

section

variable (a : Anonymiser σ)

def replace (p : Nat) (w : Work σ) : Work σ :=
  let y := a.anonIPv4 w.anon (address w.pkt p)
  put p (addressBytes y.1) { w with anon := y.2 }

def Visit.encrypted (v : Visit σ) : Work σ :=
  let w := if v.encSource then replace a (v.ptr + 12) v.work else v.work
  if v.encDest then replace a (v.ptr + 16) w else w

def next (v : Visit σ) : Option (Visit σ) :=
  match v.icmp with
  | none => none
  | some icmp =>
    if isError ((v.encrypted a).pkt.bytes icmp).toNat then
      some ⟨v.encrypted a, icmp + 8, v.encDest, v.encSource⟩
    else none

def encryptAll : Nat → Visit σ → Work σ
  | 0, v => v.encrypted a
  | fuel + 1, v =>
    match v.icmp with
    | none => v.encrypted a
    | some icmp =>
      put (icmp + 2) [0, 0] (((next a v).map (encryptAll fuel)).getD (v.encrypted a))

def quoted (fuel : Nat) (v : Visit σ) : Work σ :=
  ((next a v).map (encryptAll a fuel)).getD (v.encrypted a)

end

section

variable {p i : Nat} {w : Work σ}

theorem put_outside (w : Work σ) {values : List UInt8} (h : i < p ∨ p + values.length ≤ i) :
    (put p values w).pkt.bytes i = w.pkt.bytes i := by
  simp only [put]
  split_ifs with hi
  · rw [List.getElem?_eq_none (by omega), Option.getD_none]
  · rfl

theorem mem_put {values : List UInt8} :
    i ∈ (put p values w).written ↔ i ∈ w.written ∨ p ≤ i ∧ i < p + values.length := by
  rw [put, List.mem_append, List.mem_range'_1]

theorem mem_put_pair {x y : UInt8} :
    i ∈ (put p [x, y] w).written ↔ i ∈ w.written ∨ i = p ∨ i = p + 1 := by
  rw [mem_put]
  refine or_congr_right ?_
  simp only [List.length]
  omega

variable (a : Anonymiser σ)

theorem encrypted_rule {P : Work σ → Prop} (v : Visit σ) (start : P v.work)
    (kept : ∀ p w, p = v.ptr + 12 ∨ p = v.ptr + 16 → P w → P (replace a p w)) :
    P (v.encrypted a) := by
  have hif : ∀ (enc : Bool) p w, p = v.ptr + 12 ∨ p = v.ptr + 16 → P w →
      P (if enc then replace a p w else w) := by
    intro enc p w hp hw
    split_ifs
    · exact kept p w hp hw
    · exact hw
  exact hif _ _ _ (.inr rfl) (hif _ _ _ (.inl rfl) start)

theorem encrypted_outside (v : Visit σ) (h : i < v.ptr + 12 ∨ v.ptr + 20 ≤ i) :
    (v.encrypted a).pkt.bytes i = v.work.pkt.bytes i :=
  encrypted_rule a (P := fun w => w.pkt.bytes i = v.work.pkt.bytes i) v rfl fun p _ hp hw =>
    (put_outside _ (show i < p ∨ p + 4 ≤ i by omega)).trans hw

theorem encrypted_size (v : Visit σ) : (v.encrypted a).pkt.size = v.work.pkt.size :=
  encrypted_rule a (P := fun w => w.pkt.size = v.work.pkt.size) v rfl fun _ _ _ hw => hw

theorem mem_replace (enc : Bool) :
    i ∈ (if enc then replace a p w else w).written ↔
      i ∈ w.written ∨ enc = true ∧ p ≤ i ∧ i < p + 4 := by
  cases enc with
  | false => simp
  | true =>
    rw [if_pos rfl, and_iff_right rfl]
    exact mem_put

theorem mem_encrypted (v : Visit σ) (i : Nat) :
    i ∈ (v.encrypted a).written ↔ i ∈ v.work.written ∨
      (v.encSource = true ∧ v.ptr + 12 ≤ i ∧ i < v.ptr + 16) ∨
      (v.encDest = true ∧ v.ptr + 16 ≤ i ∧ i < v.ptr + 20) := by
  unfold Visit.encrypted
  rw [mem_replace, mem_replace, or_assoc]

end

section

variable {a : Anonymiser σ} {v u n : Visit σ}

theorem icmp_bounds {icmp : Nat} (h : v.icmp = some icmp) :
    v.IsIpv4 ∧ (v.work.pkt.bytes (v.ptr + 9)).toNat = 1 ∧ v.ptr ≤ icmp ∧
      (icmp - v.ptr) % 4 = 0 := by
  unfold Visit.icmp at h
  split_ifs at h with hicmp
  obtain rfl := Option.some.inj h
  exact ⟨hicmp.2.1, hicmp.1, by omega, by omega⟩

theorem next_icmp (h : next a v = some n) :
    ∃ icmp, v.icmp = some icmp ∧ isError ((v.encrypted a).pkt.bytes icmp).toNat = true ∧
      n = ⟨v.encrypted a, icmp + 8, v.encDest, v.encSource⟩ := by
  unfold next at h
  cases hicmp : v.icmp with
  | none =>
    rw [hicmp] at h
    cases h
  | some icmp =>
    rw [hicmp] at h
    dsimp only at h
    split_ifs at h with herror
    exact ⟨icmp, rfl, herror, (Option.some.inj h).symm⟩

theorem next_none (h : v.icmp = none) : next a v = none := by rw [next, h]

theorem next_ptr (h : next a v = some n) : v.ptr + 8 ≤ n.ptr := by
  obtain ⟨icmp, hicmp, -, rfl⟩ := next_icmp h
  exact Nat.add_le_add_right (icmp_bounds hicmp).2.2.1 8

theorem next_size (h : next a v = some n) : n.work.pkt.size = v.work.pkt.size := by
  obtain ⟨icmp, -, -, rfl⟩ := next_icmp h
  exact encrypted_size a v

theorem next_enc (h : next a v = some n) :
    (n.encSource || n.encDest) = (v.encSource || v.encDest) := by
  obtain ⟨icmp, -, -, rfl⟩ := next_icmp h
  exact Bool.or_comm _ _

theorem reach_ptr (h : Reach (next a) v u) : u = v ∨ v.ptr + 8 ≤ u.ptr := by
  induction h using Relation.ReflTransGen.head_induction_on with
  | refl => exact .inl rfl
  | head hab _ ih =>
    have hptr := next_ptr hab
    obtain rfl | hle := ih
    · exact .inr hptr
    · exact .inr (by omega)

theorem reach_size (h : Reach (next a) v u) : u.work.pkt.size = v.work.pkt.size :=
  reach_inv (fun w => w.work.pkt.size = v.work.pkt.size)
    (fun _ _ hab hsize => (next_size hab).trans hsize) h rfl

theorem reach_enc (h : Reach (next a) v u) :
    (u.encSource || u.encDest) = (v.encSource || v.encDest) :=
  reach_inv (fun w => (w.encSource || w.encDest) = (v.encSource || v.encDest))
    (fun _ _ hab henc => (next_enc hab).trans henc) h rfl

end

section

variable (a : Anonymiser σ)

variable {v : Visit σ}

variable (fuel : Nat)

theorem encryptAll_none (h : v.icmp = none) : encryptAll a fuel v = v.encrypted a := by
  cases fuel with
  | zero => rfl
  | succ fuel => rw [encryptAll, h]

theorem encryptAll_some {icmp : Nat} (h : v.icmp = some icmp) :
    encryptAll a (fuel + 1) v = put (icmp + 2) [0, 0] (quoted a fuel v) := by
  rw [encryptAll, h]
  rfl

section

variable {a} {P : Visit σ → Work σ → Prop} (stop : ∀ v, P v (v.encrypted a))
  (quote : ∀ v n w, next a v = some n → P n w → P v w)
include stop quote

theorem quoted_rule {fuel : Nat} (h : ∀ n, P n (encryptAll a fuel n)) (v : Visit σ) :
    P v (quoted a fuel v) := by
  rw [quoted]
  cases hn : next a v with
  | none => exact stop v
  | some n => exact quote v n _ hn (h n)

/-- What holds where no error quotes another header, is handed on by the quoted header, and survives
that the checksum of an ICMP message is cleared. -/
theorem encryptAll_rule
    (clear : ∀ v icmp w, v.icmp = some icmp → P v w → P v (put (icmp + 2) [0, 0] w)) (fuel : Nat)
    (v : Visit σ) : P v (encryptAll a fuel v) := by
  induction fuel generalizing v with
  | zero => exact stop v
  | succ fuel ih =>
    cases hicmp : v.icmp with
    | none => exact encryptAll_none a _ hicmp ▸ stop v
    | some icmp =>
      rw [encryptAll_some a _ hicmp]
      exact clear v icmp _ hicmp (quoted_rule stop quote ih v)

end

theorem encryptAll_size (v : Visit σ) : (encryptAll a fuel v).pkt.size = v.work.pkt.size :=
  encryptAll_rule (P := fun v w => w.pkt.size = v.work.pkt.size) (encrypted_size a)
    (fun _ _ _ hn h => h.trans (next_size hn)) (fun _ _ _ _ h => h) fuel v

theorem quoted_size (v : Visit σ) : (quoted a fuel v).pkt.size = v.work.pkt.size :=
  quoted_rule (P := fun v w => w.pkt.size = v.work.pkt.size) (encrypted_size a)
    (fun _ _ _ hn h => h.trans (next_size hn)) (encryptAll_size a fuel) v

theorem guarded_icmp (v : Visit σ) :
    Guarded .outOfRange (v.ptr + 10 ≤ v.work.pkt.size) (getIcmpFromIp v.work.pkt.captured v.ptr)
      (.ok v.icmp) := by
  by_cases h : v.ptr + 10 ≤ v.work.pkt.size
  · refine guarded_of_true ?_ h
    rw [getIcmpFromIp, (guarded_byte v.work.pkt _).1 (by omega), byte_whole, ok_bind, getPayload,
      (guarded_byte v.work.pkt _).1 (by omega), byte_whole, ok_bind,
      (guarded_be16 v.work.pkt _).1 (by omega), be16_whole, ok_bind, Visit.icmp]
    by_cases hprot : (v.work.pkt.bytes (v.ptr + 9)).toNat = 1
    · rw [if_pos hprot]
      by_cases hversion : (v.work.pkt.bytes v.ptr).toNat / 16 = 4
      · rw [if_neg (not_not_intro hversion)]
        by_cases hoff : be v.work.pkt (v.ptr + 6) % 0x2000 = 0
        · rw [if_neg (not_not_intro hoff), if_pos ⟨hprot, hversion, hoff⟩]
          rfl
        · rw [if_pos hoff, if_neg fun hall => hoff hall.2.2]
          rfl
      · rw [if_pos hversion, if_neg fun hall => hversion hall.2.1]
        rfl
    · rw [if_neg hprot, if_neg fun hall => hprot hall.1]
      rfl
  · refine ⟨fun hle => absurd hle h, fun _ => ?_⟩
    rw [getIcmpFromIp, (guarded_byte v.work.pkt _).2 (by omega)]
    rfl

theorem guarded_store (p : Nat) (values : List UInt8) (w : Work σ) :
    Guarded .outOfRange (p + values.length ≤ w.pkt.size) (store p values w)
      (.ok (put p values w)) :=
  ⟨fun h => if_pos h, fun h => if_neg h⟩

theorem guarded_be32 (pkt : Packet) (p : Nat) :
    Guarded .outOfRange (p + 4 ≤ pkt.size) (be32 pkt.captured p) (.ok (address pkt p)) := by
  refine guarded_of_iff (guarded_bind_value (a := be pkt p) (guarded_be16 pkt p)
    (guarded_bind_value (a := be pkt (p + 2)) (guarded_be16 pkt (p + 2))
      (guarded_of_true (c := True) rfl trivial))) ?_
  rw [and_true]
  omega

theorem guarded_encryptAddress (p : Nat) (w : Work σ) :
    Guarded .outOfRange (p + 4 ≤ w.pkt.size) (encryptAddress a p w) (.ok (replace a p w)) :=
  guarded_of_iff (guarded_bind_value (guarded_be32 w.pkt p) (guarded_store p _ _)) and_self_iff

theorem guarded_encryptIf (enc : Bool) (p : Nat) (w : Work σ) :
    Guarded .outOfRange (enc = true → p + 4 ≤ w.pkt.size) (encryptIf a enc p w)
      (.ok (if enc then replace a p w else w)) := by
  cases enc with
  | false => exact guarded_of_true rfl fun h => absurd h Bool.false_ne_true
  | true => exact guarded_of_iff (guarded_encryptAddress a p w) ⟨fun h _ => h, fun h => h rfl⟩

theorem guarded_addresses (v : Visit σ) :
    Guarded .outOfRange
      ((v.encSource = true → v.ptr + 16 ≤ v.work.pkt.size) ∧
        (v.encDest = true → v.ptr + 20 ≤ v.work.pkt.size))
      (encryptIf a v.encSource (v.ptr + 12) v.work >>= encryptIf a v.encDest (v.ptr + 16))
      (.ok (v.encrypted a)) := by
  have hsize : (if v.encSource then replace a (v.ptr + 12) v.work else v.work).pkt.size =
      v.work.pkt.size := by
    split_ifs <;> rfl
  have hdest := guarded_encryptIf a v.encDest (v.ptr + 16)
    (if v.encSource then replace a (v.ptr + 12) v.work else v.work)
  rw [hsize] at hdest
  exact guarded_bind_value (guarded_encryptIf a v.encSource (v.ptr + 12) v.work) hdest

theorem guarded_clearIcmp {enc : Bool} (henc : enc = true) (icmp : Nat) (w : Work σ) :
    Guarded .outOfRange (icmp + 4 ≤ w.pkt.size) (clearIcmp enc icmp w)
      (.ok (put (icmp + 2) [0, 0] w)) := by
  rw [clearIcmp, if_pos henc]
  exact guarded_store (icmp + 2) [0, 0] w

theorem inside_iff (v : Visit σ) :
    Inside v ↔ v.ptr + 10 ≤ v.work.pkt.size ∧
      ((v.encSource = true → v.ptr + 16 ≤ v.work.pkt.size) ∧
        (v.encDest = true → v.ptr + 20 ≤ v.work.pkt.size)) ∧
      ∀ icmp, v.icmp = some icmp → icmp + 4 ≤ v.work.pkt.size :=
  ⟨fun h => ⟨h.protocol, ⟨h.source, h.dest⟩, h.icmp⟩, fun h => ⟨h.1, h.2.1.1, h.2.1.2, h.2.2⟩⟩

theorem encryptIps_eq (v : Visit σ) :
    encryptIps a (fuel + 1) v.work v.ptr v.encSource v.encDest =
      (getIcmpFromIp v.work.pkt.captured v.ptr >>= fun icmp =>
        (encryptIf a v.encSource (v.ptr + 12) v.work >>= encryptIf a v.encDest (v.ptr + 16)) >>=
          fun w =>
            match icmp with
            | none => .ok w
            | some icmp =>
              byte w.pkt.captured icmp >>= fun type =>
                (if isError type then encryptIps a fuel w (icmp + 8) v.encDest v.encSource
                  else .ok w) >>= clearIcmp (v.encSource || v.encDest) icmp) := by
  rw [encryptIps]
  congr 1
  funext icmp
  rw [bind_assoc]
  rfl

theorem guarded_quoted {fuel : Nat} {icmp : Nat} (hicmp : v.icmp = some icmp)
    (ih : ∀ n, next a v = some n → Guarded .outOfRange (∀ u, Reach (next a) n u → Inside u)
      (encryptIps a fuel n.work n.ptr n.encSource n.encDest) (.ok (encryptAll a fuel n))) :
    Guarded .outOfRange (∀ n, next a v = some n → ∀ u, Reach (next a) n u → Inside u)
      (if isError ((v.encrypted a).pkt.bytes icmp).toNat then
        encryptIps a fuel (v.encrypted a) (icmp + 8) v.encDest v.encSource
      else .ok (v.encrypted a)) (.ok (quoted a fuel v)) := by
  by_cases herror : isError ((v.encrypted a).pkt.bytes icmp).toNat = true
  · have hnext : next a v = some ⟨v.encrypted a, icmp + 8, v.encDest, v.encSource⟩ := by
      rw [next, hicmp]
      exact if_pos herror
    rw [if_pos herror, quoted, hnext]
    exact guarded_of_iff (ih _ hnext) (by simp)
  · have hnext : next a v = none := by
      rw [next, hicmp]
      exact if_neg herror
    rw [if_neg herror, quoted, hnext]
    exact guarded_of_true rfl fun n hn => absurd hn (Option.some_ne_none n).symm

/-- `encrypt_ips` stays in the captured bytes exactly if every header that it visits is captured as
far as it is used. Each header lies behind the one before. -/
theorem guarded_encryptIps (v : Visit σ) (henc : (v.encSource || v.encDest) = true)
    (hfuel : 0 < fuel) (hsize : v.work.pkt.size < v.ptr + fuel) :
    Guarded .outOfRange (∀ u, Reach (next a) v u → Inside u)
      (encryptIps a fuel v.work v.ptr v.encSource v.encDest) (.ok (encryptAll a fuel v)) := by
  induction fuel generalizing v with
  | zero => exact absurd hfuel (Nat.lt_irrefl 0)
  | succ fuel ih =>
    rw [encryptIps_eq]
    by_cases hprotocol : v.ptr + 10 ≤ v.work.pkt.size
    · have hstart := guarded_icmp v
      cases hicmp : v.icmp with
      | none =>
        rw [hicmp] at hstart
        rw [encryptAll_none a _ hicmp]
        refine guarded_of_iff (guarded_bind_value hstart (guarded_bind_value
          (guarded_addresses a v) (guarded_of_true (c := True) rfl trivial))) ?_
        rw [forall_reach_stop (next_none hicmp), inside_iff, hicmp]
        simp
      | some icmp =>
        rw [hicmp] at hstart
        have hquoted := guarded_quoted a hicmp fun n hn => by
          have hptr := next_ptr hn
          exact ih n ((next_enc hn).trans henc) (by omega) (by rw [next_size hn]; omega)
        have hclear := guarded_clearIcmp henc icmp (quoted a fuel v)
        rw [quoted_size] at hclear
        rw [encryptAll_some a _ hicmp]
        refine guarded_of_iff (guarded_bind_value hstart (guarded_bind_value
          (guarded_addresses a v) (guarded_bind_value
            (a := ((v.encrypted a).pkt.bytes icmp).toNat) (guarded_byte _ icmp)
            (guarded_bind_value hquoted hclear)))) ?_
        rw [forall_reach, inside_iff, hicmp, encrypted_size]
        simp only [Option.some.injEq, forall_eq']
        constructor
        · rintro ⟨hten, haddresses, -, hrest, hfour⟩
          exact ⟨⟨hten, haddresses, hfour⟩, hrest⟩
        · rintro ⟨⟨hten, haddresses, hfour⟩, hrest⟩
          exact ⟨hten, haddresses, by omega, hrest, hfour⟩
    · refine ⟨fun h => absurd (h v (reach_refl v)).protocol hprotocol, fun _ => ?_⟩
      rw [(guarded_icmp v).2 hprotocol]
      rfl

end

section

variable {a : Anonymiser σ} {v u : Visit σ}

variable {i : Nat}

theorem writes_of_encrypted (h : i ∈ (v.encrypted a).written) :
    i ∈ v.work.written ∨ v.Writes i := by
  refine ((mem_encrypted a v i).mp h).imp_right fun hwrites => ?_
  exact hwrites.imp_right .inl

theorem writes_of_mem (fuel : Nat) (h : i ∈ (encryptAll a fuel v).written) :
    i ∈ v.work.written ∨ ∃ u, Reach (next a) v u ∧ u.Writes i := by
  have stop : ∀ v : Visit σ, i ∈ (v.encrypted a).written →
      i ∈ v.work.written ∨ ∃ u, Reach (next a) v u ∧ u.Writes i := fun v hmem =>
    (writes_of_encrypted hmem).imp_right fun hwrites => ⟨v, reach_refl v, hwrites⟩
  refine encryptAll_rule (P := fun v w => i ∈ w.written →
    i ∈ v.work.written ∨ ∃ u, Reach (next a) v u ∧ u.Writes i) stop (fun v n w hn ih h => ?_)
    (fun v icmp w hicmp ih h => ?_) fuel v h
  · obtain hbefore | ⟨u, hu, hwrites⟩ := ih h
    · obtain ⟨icmp, -, -, rfl⟩ := next_icmp hn
      exact stop v hbefore
    · exact .inr ⟨u, reach_head hn hu, hwrites⟩
  · obtain h | hcheck := mem_put_pair.mp h
    · exact ih h
    · exact .inr ⟨v, reach_refl v, .inr (.inr ⟨icmp, hicmp, hcheck⟩)⟩

theorem mem_encryptAll_of_encrypted (fuel : Nat) (h : i ∈ (v.encrypted a).written) :
    i ∈ (encryptAll a fuel v).written := by
  refine encryptAll_rule (P := fun v w => i ∈ (v.encrypted a).written → i ∈ w.written)
    (fun _ h => h) (fun v n w hn ih h => ih ?_)
    (fun v icmp w _ ih h => mem_put_pair.mpr (.inl (ih h))) fuel v h
  obtain ⟨icmp, -, -, rfl⟩ := next_icmp hn
  exact (mem_encrypted a _ i).mpr (.inl h)

theorem mem_of_writes (fuel : Nat) (hu : Reach (next a) v u) (hptr : u.ptr < v.ptr + fuel)
    (h : u.Writes i) : i ∈ (encryptAll a fuel v).written := by
  induction fuel generalizing v with
  | zero =>
    obtain rfl | hle := reach_ptr hu
    · exact absurd hptr (Nat.lt_irrefl _)
    · omega
  | succ fuel ih =>
    obtain rfl | ⟨n, hn, hnu⟩ := reach_cases hu
    · obtain hsource | hdest | ⟨icmp, hicmp, hcheck⟩ := h
      · exact mem_encryptAll_of_encrypted _ ((mem_encrypted a v i).mpr (.inr (.inl hsource)))
      · exact mem_encryptAll_of_encrypted _ ((mem_encrypted a v i).mpr (.inr (.inr hdest)))
      · rw [encryptAll_some a _ hicmp]
        exact mem_put_pair.mpr (.inr hcheck)
    · obtain ⟨icmp, hicmp, -, -⟩ := next_icmp hn
      have hvn := next_ptr hn
      rw [encryptAll_some a _ hicmp, quoted, hn]
      exact mem_put_pair.mpr (.inl (ih hnu (by omega)))

end

section

variable {pkt : Packet} {a : Anonymiser σ}

def Logged (pkt : Packet) (w : Work σ) : Prop :=
  ∀ i, w.pkt.bytes i ≠ pkt.bytes i → i ∈ w.written

theorem logged_put {w : Work σ} (h : Logged pkt w) (p : Nat) (values : List UInt8) :
    Logged pkt (put p values w) := by
  intro i hne
  rw [mem_put]
  by_cases hout : i < p ∨ p + values.length ≤ i
  · exact .inl (h i (put_outside w hout ▸ hne))
  · exact .inr (by omega)

theorem logged_encrypted {v : Visit σ} (h : Logged pkt v.work) : Logged pkt (v.encrypted a) :=
  encrypted_rule a v h fun p w _ hw =>
    logged_put (w := { w with anon := (a.anonIPv4 w.anon (address w.pkt p)).2 }) hw p _

theorem logged_encryptAll (fuel : Nat) {v : Visit σ} (h : Logged pkt v.work) :
    Logged pkt (encryptAll a fuel v) := by
  refine encryptAll_rule (P := fun v w => Logged pkt v.work → Logged pkt w)
    (fun _ => logged_encrypted) (fun v n w hn ih h => ih ?_)
    (fun _ _ _ _ ih h => logged_put (ih h) _ _) fuel v h
  obtain ⟨icmp, -, -, rfl⟩ := next_icmp hn
  exact logged_encrypted h

end

end Libtrace.AnonVisits
