import Libtrace.Iteration
import Libtrace.Protocols

/-! `trace_get_next_ospf_lsa_v2` and `trace_get_next_ospf_lsa_header_v2`, called until they do not
return 1. A length below that of the header is not refused, and the test for the end compares the
pointer `remaining`. -/

namespace Libtrace.OspfLsa
open Orbit Iteration Protocols

section

structure LsaCursor where
  current : Option Nat
  lsaHdr : Option Nat
  lsaBody : Option Nat
  remaining : Nat
  lsaType : Nat
  lsaLength : Nat
  deriving DecidableEq, Repr

def lsaHeaderSize : Nat := 20

def validLsa (type : Nat) : Bool := type == 1 || type == 2 || type == 3 || type == 4 || type == 5

def getNextOspfLsaHeaderV2 (m : Memory) (s : LsaCursor) : Decode (Int × LsaCursor) :=
  match s.current with
  | none => .ok (0, { s with lsaHdr := none, remaining := 0 })
  | some current =>
    if s.remaining < lsaHeaderSize then .ok (0, { s with lsaHdr := none, remaining := 0 })
    else do
      let type ← byte m (current + 3)
      let s := { s with lsaHdr := some current, lsaType := 0, lsaLength := lsaHeaderSize }
      if validLsa type = false then return (-1, { s with remaining := 0 })
      else
        -- the pointer `remaining` is not null
        return (1, { s with
          remaining := s.remaining - s.lsaLength
          current := some (current + s.lsaLength) })

def getNextOspfLsaV2 (m : Memory) (s : LsaCursor) : Decode (Int × LsaCursor) :=
  match s.current with
  | none => .ok (0, { s with lsaHdr := none, lsaBody := none, remaining := 0 })
  | some current =>
    if s.remaining < lsaHeaderSize then
      .ok (0, { s with lsaHdr := none, lsaBody := none, remaining := 0 })
    else do
      let type ← byte m (current + 3)
      let length ← be16 m (current + 18)
      let s := { s with lsaHdr := some current, lsaType := type, lsaLength := length }
      if s.lsaLength > s.remaining ∨ validLsa type = false then
        return (-1, { s with remaining := 0, lsaBody := none })
      else
        let lsaBody := if s.lsaLength = lsaHeaderSize then none else some (current + lsaHeaderSize)
        return (1, { s with
          lsaBody := lsaBody
          remaining := s.remaining - s.lsaLength
          current := some (current + s.lsaLength) })

inductive Reader where
  | lsa
  | header
  deriving DecidableEq, Repr

def Reader.call : Reader → Memory → LsaCursor → Decode (Int × LsaCursor)
  | .lsa => getNextOspfLsaV2
  | .header => getNextOspfLsaHeaderV2

def lsaMemory (buffer : List UInt8) : Memory := fun i => buffer[i]?

def start (buffer : List UInt8) (type length : Nat) : LsaCursor :=
  ⟨some 0, none, none, buffer.length, type, length⟩

def nextState (reader : Reader) (buffer : List UInt8) : LsaCursor → Option LsaCursor :=
  next (reader.call (lsaMemory buffer)) (· = 1)

end

section

variable (reader : Reader) (buffer : List UInt8)

def lengthAt (p : Nat) : Nat :=
  match reader with
  | .lsa => (buffer.getD (p + 18) 0).toNat * 256 + (buffer.getD (p + 19) 0).toNat
  | .header => lsaHeaderSize

def lsaEnd (p : Nat) : Option Nat :=
  if p + lsaHeaderSize ≤ buffer.length ∧ validLsa (buffer.getD (p + 3) 0).toNat = true ∧
      p + lengthAt reader buffer p ≤ buffer.length then
    some (p + lengthAt reader buffer p)
  else none

/-- Each call makes progress, the bodies are in the buffer, and the call that gets to its end does
not return 1. -/
structure Sound (s : LsaCursor) : Prop where
  progress : ∀ t t', Reach (nextState reader buffer) s t →
    reader.call (lsaMemory buffer) t = .ok (1, t') →
    t'.remaining < t.remaining ∧
      ∀ p, t.current = some p → t'.current = some (p + (t.remaining - t'.remaining))
  ends : ∃ trail last, iterate (reader.call (lsaMemory buffer)) (· = 1) .unfinished
    (buffer.length / lsaHeaderSize + 1) s = .ok (trail, last)
  body : ∀ t r t' b, Reach (nextState reader buffer) s t →
    reader.call (lsaMemory buffer) t = .ok (r, t') → t'.lsaBody = some b →
    ∃ n, n + lsaHeaderSize = t'.lsaLength ∧ b + n ≤ buffer.length
  last : ∀ t t', Reach (nextState reader buffer) s t →
    reader.call (lsaMemory buffer) t = .ok (1, t') → t'.remaining ≠ 0

def Inner : Prop :=
  ∀ p q, Reach (lsaEnd reader buffer) 0 p → lsaEnd reader buffer p = some q →
    p + lsaHeaderSize ≤ q ∧ q < buffer.length

end

section

variable {reader : Reader} {buffer : List UInt8} {s : LsaCursor} {p q : Nat}

structure At (reader : Reader) (buffer : List UInt8) (p : Nat) (s : LsaCursor) : Prop where
  current : s.current = some p
  remaining : p + s.remaining = buffer.length
  body : reader = .header → s.lsaBody = none

theorem byte_lsaMemory (buffer : List UInt8) {i : Nat} (h : i < buffer.length) :
    byte (lsaMemory buffer) i = .ok (buffer.getD i 0).toNat := by
  simp [byte, lsaMemory, h]

theorem be16_lsaMemory (buffer : List UInt8) {i : Nat} (h : i + 1 < buffer.length) :
    be16 (lsaMemory buffer) i =
      .ok ((buffer.getD i 0).toNat * 256 + (buffer.getD (i + 1) 0).toNat) := by
  rw [be16, byte_lsaMemory buffer (by omega), byte_lsaMemory buffer h]
  rfl

theorem lsaEnd_eq_some :
    lsaEnd reader buffer p = some q ↔
      p + lsaHeaderSize ≤ buffer.length ∧ validLsa (buffer.getD (p + 3) 0).toNat = true ∧
        q ≤ buffer.length ∧ q = p + lengthAt reader buffer p := by
  unfold lsaEnd
  split_ifs with h
  · rw [Option.some.injEq]
    constructor
    · rintro rfl
      exact ⟨h.1, h.2.1, h.2.2, rfl⟩
    · exact fun hq => hq.2.2.2.symm
  · refine iff_of_false nofun fun hq => h ⟨hq.1, hq.2.1, ?_⟩
    rw [← hq.2.2.2]
    exact hq.2.2.1

theorem call_header (h : At reader buffer p s) (hheader : p + lsaHeaderSize ≤ buffer.length) :
    (lsaEnd reader buffer p = none ∧
      ∃ s', reader.call (lsaMemory buffer) s = .ok (-1, s') ∧ s'.lsaBody = none) ∨
    ∃ s', lsaEnd reader buffer p = some (p + s'.lsaLength) ∧
      reader.call (lsaMemory buffer) s = .ok (1, s') ∧ At reader buffer (p + s'.lsaLength) s' ∧
      s'.lsaBody = if s'.lsaLength = lsaHeaderSize then none else some (p + lsaHeaderSize) := by
  have hsum := h.remaining
  have hlong : ¬ s.remaining < lsaHeaderSize := by omega
  have hbytes : p + 20 ≤ buffer.length := hheader
  have htype := byte_lsaMemory buffer (show p + 3 < buffer.length by omega)
  have hlength : be16 (lsaMemory buffer) (p + 18) = .ok (lengthAt .lsa buffer p) :=
    be16_lsaMemory buffer (by omega)
  cases reader with
  | header =>
    simp only [Reader.call, getNextOspfLsaHeaderV2, h.current, if_neg hlong, htype]
    by_cases hvalid : validLsa (buffer.getD (p + 3) 0).toNat = true
    · refine .inr ⟨_, ?_, if_neg (by rw [hvalid]; decide), ⟨rfl, ?_, fun _ => ?_⟩, ?_⟩
      · exact lsaEnd_eq_some.mpr ⟨hheader, hvalid, hheader, rfl⟩
      · dsimp only
        omega
      · exact h.body rfl
      · exact h.body rfl
    · refine .inl ⟨?_, _, if_pos ((Bool.not_eq_true _).mp hvalid), h.body rfl⟩
      exact if_neg fun hq => hvalid hq.2.1
  | lsa =>
    simp only [Reader.call, getNextOspfLsaV2, h.current, if_neg hlong, htype, hlength]
    by_cases htaken : validLsa (buffer.getD (p + 3) 0).toNat = true ∧
        p + lengthAt .lsa buffer p ≤ buffer.length
    · obtain ⟨hvalid, hfits⟩ := htaken
      refine .inr ⟨_, ?_, if_neg ?_, ⟨rfl, ?_, nofun⟩, rfl⟩
      · exact lsaEnd_eq_some.mpr ⟨hheader, hvalid, hfits, rfl⟩
      · rintro (hlonger | hinvalid)
        · omega
        · rw [hvalid] at hinvalid
          cases hinvalid
      · dsimp only
        omega
    · refine .inl ⟨if_neg fun hq => htaken hq.2, _, if_pos ?_, rfl⟩
      by_cases hvalid : validLsa (buffer.getD (p + 3) 0).toNat = true
      · have hlonger : ¬ p + lengthAt .lsa buffer p ≤ buffer.length := fun hfits =>
          htaken ⟨hvalid, hfits⟩
        exact .inl (by omega)
      · exact .inr ((Bool.not_eq_true _).mp hvalid)

theorem call_taken (h : At reader buffer p s) (hend : lsaEnd reader buffer p = some q) :
    ∃ s', reader.call (lsaMemory buffer) s = .ok (1, s') ∧ At reader buffer q s' ∧
      p + s'.lsaLength = q ∧
      s'.lsaBody = if q = p + lsaHeaderSize then none else some (p + lsaHeaderSize) := by
  obtain ⟨hnone, -⟩ | ⟨s', hsome, hcall, hat, hbody⟩ := call_header h (lsaEnd_eq_some.mp hend).1
  · rw [hnone] at hend
    cases hend
  · obtain rfl := Option.mem_unique hsome hend
    refine ⟨s', hcall, hat, rfl, ?_⟩
    rw [hbody]
    exact if_congr (by omega) rfl rfl

theorem call_refused (h : At reader buffer p s) (hend : lsaEnd reader buffer p = none) :
    ∃ r s', reader.call (lsaMemory buffer) s = .ok (r, s') ∧ r ≠ 1 ∧ s'.lsaBody = none := by
  by_cases hheader : p + lsaHeaderSize ≤ buffer.length
  · obtain ⟨-, s', hcall, hbody⟩ | ⟨s', hsome, -⟩ := call_header h hheader
    · exact ⟨-1, s', hcall, by decide, hbody⟩
    · rw [hsome] at hend
      cases hend
  · have hsum := h.remaining
    have hshort : s.remaining < lsaHeaderSize := by omega
    cases reader with
    | header =>
      simp only [Reader.call, getNextOspfLsaHeaderV2, h.current, if_pos hshort]
      exact ⟨0, _, rfl, by decide, h.body rfl⟩
    | lsa =>
      simp only [Reader.call, getNextOspfLsaV2, h.current, if_pos hshort]
      exact ⟨0, _, rfl, by decide, rfl⟩

end

section

variable {reader : Reader} {buffer : List UInt8} {s t : LsaCursor}

theorem nextState_of_end {p q : Nat} (h : At reader buffer p s)
    (hend : lsaEnd reader buffer p = some q) :
    ∃ s', nextState reader buffer s = some s' ∧ At reader buffer q s' := by
  obtain ⟨s', hcall, hs', -⟩ := call_taken h hend
  exact ⟨s', next_eq_some.mpr ⟨1, hcall, rfl⟩, hs'⟩

theorem end_of_call {p : Nat} (h : At reader buffer p s)
    (hcall : reader.call (lsaMemory buffer) s = .ok (1, t)) :
    ∃ q, lsaEnd reader buffer p = some q ∧ At reader buffer q t ∧ p + t.lsaLength = q ∧
      t.lsaBody = if q = p + lsaHeaderSize then none else some (p + lsaHeaderSize) := by
  cases hend : lsaEnd reader buffer p with
  | none =>
    obtain ⟨r, s', hcall', hr, -⟩ := call_refused h hend
    exact absurd (Prod.mk.inj (Except.ok.inj (hcall'.symm.trans hcall))).1 hr
  | some q =>
    obtain ⟨s', hcall', ht⟩ := call_taken h hend
    obtain rfl := (Prod.mk.inj (Except.ok.inj (hcall'.symm.trans hcall))).2
    exact ⟨q, rfl, ht⟩

theorem reached_at {p : Nat} (hs : At reader buffer p s)
    (ht : Reach (nextState reader buffer) s t) :
    ∃ q, Reach (lsaEnd reader buffer) p q ∧ At reader buffer q t := by
  refine reach_follows (R := fun t q => At reader buffer q t) (fun a q a' ha hnext => ?_) ht hs
  obtain ⟨r, hcall, hr⟩ := next_eq_some.mp hnext
  obtain rfl : r = 1 := hr
  obtain ⟨q', hend, ha', -⟩ := end_of_call ha hcall
  exact ⟨q', hend, ha'⟩

theorem at_reached {p q : Nat} (hs : At reader buffer p s) (hq : Reach (lsaEnd reader buffer) p q) :
    ∃ t, Reach (nextState reader buffer) s t ∧ At reader buffer q t :=
  reach_follows (R := At reader buffer) (fun _ _ _ ha hend => nextState_of_end ha hend) hq hs

theorem start_at (reader : Reader) (buffer : List UInt8) (type length : Nat) :
    At reader buffer 0 (start buffer type length) := ⟨rfl, Nat.zero_add _, fun _ => rfl⟩

theorem sound_of_inner (h : Inner reader buffer) (hs : At reader buffer 0 s) :
    Sound reader buffer s where
  progress t t' ht hcall := by
    obtain ⟨p, hp, hat⟩ := reached_at hs ht
    obtain ⟨q, hend, hat', -⟩ := end_of_call hat hcall
    have hinner := h p q hp hend
    have hsum := hat.remaining
    have hsum' := hat'.remaining
    simp only [lsaHeaderSize] at hinner
    refine ⟨by omega, fun p' hp' => ?_⟩
    rw [hat.current, Option.some.injEq] at hp'
    rw [hat'.current, Option.some.injEq]
    omega
  ends := by
    have hsum := hs.remaining
    refine iterate_of_rank (fun t => ∃ p, Reach (lsaEnd reader buffer) 0 p ∧ At reader buffer p t)
      (fun t => t.remaining / lsaHeaderSize) (fun t ht => ?_) ⟨0, reach_refl 0, hs⟩ ?_
    · obtain ⟨p, hp, hat⟩ := ht
      cases hend : lsaEnd reader buffer p with
      | none =>
        obtain ⟨r, t', hcall, hr, -⟩ := call_refused hat hend
        exact ⟨r, t', hcall, fun h1 => absurd h1 hr⟩
      | some q =>
        obtain ⟨t', hcall, hat', -⟩ := call_taken hat hend
        have hinner := h p q hp hend
        have hsum := hat.remaining
        have hsum' := hat'.remaining
        simp only [lsaHeaderSize] at hinner ⊢
        exact ⟨1, t', hcall, fun _ => ⟨⟨q, Relation.ReflTransGen.tail hp hend, hat'⟩, by omega⟩⟩
    · rw [← hsum, Nat.zero_add]
      exact Nat.lt_succ_self _
  body t r t' b ht hcall hbody := by
    obtain ⟨p, hp, hat⟩ := reached_at hs ht
    cases hend : lsaEnd reader buffer p with
    | none =>
      obtain ⟨r', s', hcall', -, hnone⟩ := call_refused hat hend
      obtain rfl := (Prod.mk.inj (Except.ok.inj (hcall'.symm.trans hcall))).2
      rw [hnone] at hbody
      cases hbody
    | some q =>
      obtain ⟨s', hcall', -, hlength, hsome⟩ := call_taken hat hend
      obtain rfl := (Prod.mk.inj (Except.ok.inj (hcall'.symm.trans hcall))).2
      have hinner := h p q hp hend
      rw [hsome] at hbody
      split_ifs at hbody
      obtain rfl := Option.some.inj hbody
      exact ⟨s'.lsaLength - lsaHeaderSize, by omega, by omega⟩
  last t t' ht hcall := by
    obtain ⟨p, hp, hat⟩ := reached_at hs ht
    obtain ⟨q, hend, hat', -⟩ := end_of_call hat hcall
    have hinner := h p q hp hend
    have hsum' := hat'.remaining
    omega

theorem inner_of_sound (hs : At reader buffer 0 s) (h : Sound reader buffer s) :
    Inner reader buffer := by
  intro p q hp hend
  obtain ⟨t, ht, hat⟩ := at_reached hs hp
  obtain ⟨t', hcall, hat', hlength, hbody⟩ := call_taken hat hend
  have hlast := h.last t t' ht hcall
  have hsum' := hat'.remaining
  refine ⟨?_, by omega⟩
  by_cases heq : q = p + lsaHeaderSize
  · exact Nat.le_of_eq heq.symm
  · rw [if_neg heq] at hbody
    obtain ⟨n, hn, -⟩ := h.body t 1 t' _ ht hcall hbody
    omega

end

/-- The calls are sound exactly if no LSA that is reached is shorter than its header and none ends
the buffer. -/
theorem lsa_sound_iff (reader : Reader) (buffer : List UInt8) (type length : Nat) :
    Sound reader buffer (start buffer type length) ↔ Inner reader buffer :=
  ⟨inner_of_sound (start_at reader buffer type length),
    fun h => sound_of_inner h (start_at reader buffer type length)⟩

def noLength : List UInt8 := [0, 0, 0, 1] ++ List.replicate 16 0

def oneHeader : List UInt8 := [0, 0, 0, 1] ++ List.replicate 14 0 ++ [0, 20]

/-- The first is returned again and again; neither function says that the second is the last. -/
theorem noLength_never_ends :
    (∀ fuel, iterate (Reader.lsa.call (lsaMemory noLength)) (· = 1) .unfinished fuel
      (start noLength 0 0) = .error .unfinished) ∧
    Reader.lsa.call (lsaMemory oneHeader) (start oneHeader 0 0) =
      .ok (1, ⟨some 20, some 0, none, 0, 1, 20⟩) ∧
    Reader.header.call (lsaMemory oneHeader) (start oneHeader 0 0) =
      .ok (1, ⟨some 20, some 0, none, 0, 0, 20⟩) := by
  refine ⟨fun fuel => ?_, by decide +kernel, by decide +kernel⟩
  have hfirst : Reader.lsa.call (lsaMemory noLength) (start noLength 0 0) =
    .ok (1, ⟨some 0, some 0, some 20, 20, 1, 0⟩) := by decide +kernel
  have hagain : Reader.lsa.call (lsaMemory noLength) ⟨some 0, some 0, some 20, 20, 1, 0⟩ =
    .ok (1, ⟨some 0, some 0, some 20, 20, 1, 0⟩) := by decide +kernel
  cases fuel with
  | zero => rfl
  | succ fuel =>
    rw [iterate_more fuel hfirst (by rfl), iterate_stuck fuel hagain (by rfl)]
    rfl

end Libtrace.OspfLsa
