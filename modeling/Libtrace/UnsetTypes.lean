import Libtrace.PacketLayout

/-! Which answers depend on variables that are passed in uninitialised. -/

namespace Libtrace.UnsetTypes
open Exec Protocols PacketAccess PacketDecode PacketLayout

/-- The meta-data headers are complete, so that `trace_get_layer2` returns a link type other than
the cached one. -/
def Skipped (pkt : Packet) : Prop :=
  isMeta pkt.linkType = true ∧ (headerStart pkt).isSome = true

def noVersion (b : UInt8) : Prop := b.toNat / 16 ≠ 4 ∧ b.toNat / 16 ≠ 6

def Untyped (pkt : Packet) : Prop :=
  pkt.size ≠ 0 ∧ (pkt.linkType = .none ∧ noVersion (pkt.bytes 0) ∨
    pkt.linkType = .openbsdLoop ∧ noVersion (pkt.bytes 4))

/-- The argument has no influence on what is found, or nothing is found and it is handed through. -/
def Settled (F : Nat → Decode (Found Nat)) : Prop :=
  (∀ e e', F e = F e') ∨ ∃ r, ∀ e, F e = .ok ⟨none, e, r⟩

section

variable {F G : Nat → Decode (Found Nat)}

theorem settled_const (d : Decode (Found Nat)) : Settled fun _ => d := .inl fun _ _ => rfl

theorem settled_none (r : Nat) : Settled fun e => .ok ⟨none, e, r⟩ := .inr ⟨r, fun _ => rfl⟩

theorem settled_bind {α : Type} (d : Decode α) {F : α → Nat → Decode (Found Nat)}
    (h : ∀ a, d = .ok a → Settled (F a)) : Settled fun e => d >>= fun a => F a e := by
  cases d with
  | error e => exact settled_const _
  | ok a => exact h a rfl

theorem settled_ite {c : Prop} [Decidable c] (hF : c → Settled F) (hG : ¬ c → Settled G) :
    Settled fun e => if c then F e else G e := by
  by_cases h : c
  · simpa only [if_pos h] using hF h
  · simpa only [if_neg h] using hG h

theorem settled_after (h : Settled F) {k : Found Nat → Decode (Found Nat)}
    (hk : ∀ e r, k ⟨none, e, r⟩ = .ok ⟨none, e, r⟩) : Settled fun e => F e >>= k := by
  obtain hconst | ⟨r, hr⟩ := h
  · exact .inl fun e e' => congrArg (· >>= k) (hconst e e')
  · exact .inr ⟨r, fun e => (congrArg (· >>= k) (hr e)).trans (hk e r)⟩

theorem Settled.found (h : Settled F) {e : Nat} {f : Found Nat} (he : F e = .ok f)
    (hptr : f.ptr.isSome = true) (e' : Nat) : F e' = .ok f := by
  obtain hconst | ⟨r, hr⟩ := h
  · rw [hconst e' e, he]
  · rw [hr e, Except.ok.injEq] at he
    simp [← he] at hptr

theorem settled_fixedHeader (size typeAt : Nat) (conv : Nat → Nat) (m : Memory) (p r : Nat) :
    Settled fun e => fixedHeader size typeAt conv m p e r :=
  settled_ite (fun _ => settled_none 0) fun _ => settled_const _

theorem settled_80211 (m : Memory) (p r : Nat) : Settled fun e => getPayloadFrom80211 m p e r := by
  refine settled_ite (fun _ => settled_none 0) fun _ => settled_bind _ fun control _ => ?_
  refine settled_ite (fun _ => settled_none r) fun _ => settled_bind _ fun flags _ => ?_
  refine settled_ite (fun _ => settled_none 0) fun _ => settled_bind _ fun eth _ => ?_
  exact settled_ite (fun _ => settled_fixedHeader 8 6 id m _ r) fun _ => settled_const _

theorem settled_atm (m : Memory) (p r : Nat) :
    Settled fun e => getPayloadFromLayer2 m (some p) .atm e r := by
  simp only [getPayloadFromLayer2, getPayloadFromAtm]
  by_cases h : r < 4
  · simp only [if_pos h]
    exact settled_none 0
  · simp only [if_neg h]
    exact settled_fixedHeader 8 6 id m (p + 4) (r - 4)

section

variable (m : Memory) (link : Found LinkType) (h : link.type ≠ .none)
  (h' : link.type ≠ .openbsdLoop)
include m link h h'

theorem settled_layer2 :
    Settled fun e => getPayloadFromLayer2 m link.ptr link.type e link.remaining := by
  obtain ⟨ptr, type, r⟩ := link
  cases ptr with
  | none => cases type <;> first | exact settled_none r | exact settled_const _
  | some p =>
    cases type
    case none => exact absurd rfl h
    case openbsdLoop => exact absurd rfl h'
    case ieee80211 => exact settled_80211 m p r
    case eth => exact settled_fixedHeader 14 12 id m p r
    case ppp => exact settled_fixedHeader 2 0 pppType m p r
    case atm => exact settled_atm m p r
    case llcsnap => exact settled_fixedHeader 8 6 id m p r
    case hdlcPos => exact settled_fixedHeader 4 2 id m p r
    case pos => exact settled_fixedHeader 4 2 pppType m p r
    all_goals exact settled_none r

theorem settled_findLayer3 : Settled (findLayer3 m link) :=
  settled_after (settled_layer2 m link h h') fun e r => by
    by_cases hr : r = 0 <;> simp [skipEncapsulation, hr, bind, Except.bind, pure, Except.pure]

end

theorem settled_raw (pkt : Packet) {link : Found LinkType} {q : Nat}
    (hraw : ∀ e, getPayloadFromLayer2 pkt.whole link.ptr link.type e link.remaining =
      nibbleType pkt.whole q e >>= fun type => .ok ⟨some q, type, link.remaining⟩)
    (h : link.remaining = 0 ∨ ¬ noVersion (pkt.bytes q)) :
    Settled (findLayer3 pkt.whole link) := by
  by_cases hv : noVersion (pkt.bytes q)
  · right
    refine ⟨0, fun e => ?_⟩
    rw [findLayer3, hraw, h.resolve_right (not_not_intro hv)]
    simp [nibbleType, skipEncapsulation, hv.1, hv.2, bind, Except.bind, pure, Except.pure]
  · left
    intro e e'
    have htype : nibbleType pkt.whole q e = nibbleType pkt.whole q e' := by
      simp only [nibbleType, byte_whole]
      by_cases h4 : (pkt.bytes q).toNat / 16 = 4
      · simp [h4]
      · have h6 : (pkt.bytes q).toNat / 16 = 6 := not_not.mp fun h6 => hv ⟨h4, h6⟩
        simp [h6]
    rw [findLayer3, findLayer3, hraw, hraw, htype]

theorem settled_ip (m : Memory) (p r : Nat) : Settled fun e => getPayloadFromIp m p e r := by
  refine settled_bind _ fun first _ => settled_ite (fun _ => settled_none r) fun _ => ?_
  refine settled_bind _ fun off _ => settled_ite (fun _ => settled_none 0) fun _ => ?_
  exact settled_ite (fun _ => settled_none 0) fun _ => settled_const _

theorem settled_ip6Extensions (m : Memory) (fuel payload nxt r : Nat) :
    Settled fun e => ip6Extensions m e fuel payload nxt r := by
  induction fuel generalizing payload nxt r with
  | zero => exact settled_const _
  | succ fuel ih =>
    refine settled_ite (fun _ => settled_bind _ fun len _ => ?_) fun _ => ?_
    · exact settled_ite (fun _ => settled_none 0) fun _ => settled_bind _ fun nxt _ => ih _ _ _
    · refine settled_ite (fun _ => settled_const _) fun _ => settled_ite (fun _ => ?_) fun _ => ?_
      · exact settled_ite (fun _ => settled_none 0) fun _ => settled_bind _ fun nxt _ => ih _ _ _
      · exact settled_const _

theorem settled_ip6 (m : Memory) (p r : Nat) : Settled fun e => getPayloadFromIp6 m p e r := by
  refine settled_bind _ fun nxt _ => settled_ite (fun _ => settled_none 0) fun _ => ?_
  exact settled_ip6Extensions m r (p + 40) nxt (r - 40)

theorem settled_findTransport (m : Memory) (p ethertype r : Nat) :
    Settled fun proto => findTransport m p ethertype proto r := by
  refine settled_ite (fun _ => ?_) fun _ => settled_ite (fun _ => settled_ip6 m p r) fun _ => ?_
  · exact settled_after (settled_ip m p r) fun _ _ => rfl
  · exact settled_const _

end

section

variable {pkt : Packet}

variable {p proto ethertype : Nat} {len : Int}

theorem start_of_not_skipped (hs : ¬ Skipped pkt) {lt : LinkType}
    (h : headerStart pkt = some (p, lt)) : p = 0 ∧ lt = pkt.linkType := by
  have hmeta : isMeta pkt.linkType = false := by
    rw [← Bool.not_eq_true]
    exact fun hm => hs ⟨hm, by simp [h]⟩
  unfold headerStart at h
  cases hlt : pkt.linkType <;> rw [hlt] at h hmeta <;> simp [isMeta] at h hmeta <;>
    exact ⟨h.1.symm, h.2.symm⟩

theorem settled_layer3Of (hs : ¬ Skipped pkt) (hu : ¬ Untyped pkt) :
    Settled (layer3Of pkt.whole pkt) := by
  refine settled_bind _ fun link hlink => ?_
  obtain ⟨-, lt, r, hl2, heq⟩ | ⟨p, lt, hstart, -, -, heq⟩ := layer2_cases pkt <;>
    obtain rfl := ok_unique hlink heq
  · refine settled_findLayer3 _ _ ?_ ?_ <;> rintro rfl <;> simp [isLayer2] at hl2
  · obtain ⟨rfl, rfl⟩ := start_of_not_skipped hs hstart
    by_cases hnone : pkt.linkType = .none
    · refine settled_raw pkt (q := 0) (fun e => by rw [hnone]; rfl) ?_
      by_contra hc
      exact hu ⟨fun h => hc (.inl h), .inl ⟨hnone, not_not.mp fun h => hc (.inr h)⟩⟩
    by_cases hloop : pkt.linkType = .openbsdLoop
    · refine settled_raw pkt (q := 4) (fun e => by rw [hloop]; rfl) ?_
      by_contra hc
      exact hu ⟨fun h => hc (.inl h), .inr ⟨hloop, not_not.mp fun h => hc (.inr h)⟩⟩
    · exact settled_findLayer3 _ _ hnone hloop

theorem settled_transport (hs : ¬ Skipped pkt) (hu : ¬ Untyped pkt) {f : Found Nat}
    (h : transportOf pkt.whole pkt proto ethertype = .ok f) (hptr : f.ptr.isSome = true)
    (proto' ethertype' : Nat) : transportOf pkt.whole pkt proto' ethertype' = .ok f := by
  unfold transportOf at h ⊢
  cases hl3 : layer3Of pkt.whole pkt ethertype with
  | error e => rw [hl3] at h; cases h
  | ok l3 =>
    rw [hl3] at h
    change transportFrom pkt.whole proto l3 = .ok f at h
    have hsome : l3.ptr.isSome = true := by
      cases hp : l3.ptr with
      | none =>
        simp only [transportFrom, hp, Except.ok.injEq] at h
        simp [← h] at hptr
      | some p => rfl
    rw [(settled_layer3Of hs hu).found hl3 hsome ethertype']
    obtain ⟨p, hp⟩ := Option.isSome_iff_exists.mp hsome
    change transportFrom pkt.whole proto' l3 = .ok f
    simp only [transportFrom, hp] at h ⊢
    exact (settled_findTransport pkt.whole p l3.type l3.remaining).found h hptr proto'

theorem payloadFrom_proto (m : Memory) (proto proto' : Nat) (l3 : Found Nat) :
    payloadFrom m proto l3 = payloadFrom m proto' l3 := by
  cases hp : l3.ptr with
  | none => simp only [payloadFrom, hp]
  | some p =>
    simp only [payloadFrom, transportFrom, hp]
    refine congrArg _ (funext fun len => ?_)
    cases len with
    | none => rfl
    | some len =>
      obtain hconst | ⟨r, hr⟩ := settled_findTransport m p l3.type l3.remaining
      · exact congrArg (· >>= _) (hconst proto proto')
      · simp only [hr]
        rfl

theorem payloadOf_eq (hs : ¬ Skipped pkt) (hu : ¬ Untyped pkt)
    (ethertype ethertype' proto proto' : Nat) :
    payloadOf pkt.whole pkt ethertype proto = payloadOf pkt.whole pkt ethertype' proto' := by
  unfold payloadOf
  obtain hconst | ⟨r, hr⟩ := settled_layer3Of hs hu
  · rw [hconst ethertype ethertype']
    exact congrArg _ (funext fun l3 => payloadFrom_proto pkt.whole proto proto' l3)
  · rw [hr, hr]
    rfl

theorem layer3Length_bounds {r : Nat} (h : layer3Length pkt.whole p ethertype r = .ok (some len)) :
    -100 ≤ len ∧ len < 65536 := by
  unfold layer3Length at h
  split_ifs at h
  · cases h
  · have hlen : (be pkt (p + 2) : Int) - 4 * (((pkt.bytes p).toNat % 16 : Nat) : Int) -
        (if (pkt.bytes (p + 9)).toNat = 41 then 40 else 0) = len := by
      simpa [bind, Except.bind, pure, Except.pure] using h
    have := be_lt pkt (p + 2)
    split_ifs at hlen <;> omega
  · cases h
  · have hlen : (be pkt (p + 4) : Int) = len := by
      simpa [bind, Except.bind, pure, Except.pure] using h
    have := be_lt pkt (p + 4)
    omega
  · cases h

theorem takeHeader_bounds {size : Nat} {len' : Int} (h : takeHeader size len = some len') :
    len' = len - size := by
  unfold takeHeader at h
  split_ifs at h
  exact (Option.some.inj h).symm

theorem transportLength_bounds {r : Nat} {len' : Int}
    (h : transportLength pkt.whole p proto r len = .ok (some len')) :
    len - 100 ≤ len' ∧ len' ≤ len := by
  unfold transportLength at h
  split_ifs at h
  · cases h
  · have hlen : takeHeader (4 * ((pkt.bytes (p + 12)).toNat / 16)) len = some len' := by
      simpa [bind, Except.bind, pure, Except.pure] using h
    have := takeHeader_bounds hlen
    have := (pkt.bytes (p + 12)).toNat_lt
    omega
  · cases h
  · have := takeHeader_bounds (Except.ok.inj h)
    omega
  · cases h

theorem payloadOf_bounds (h : payloadOf pkt.whole pkt ethertype proto = .ok (some len)) :
    -2 ^ 31 ≤ len ∧ len < 2 ^ 31 := by
  obtain ⟨l3, -, h⟩ := except_bind_ok.mp h
  unfold payloadFrom at h
  cases hp : l3.ptr with
  | none => simp [hp] at h
  | some p =>
    simp only [hp] at h
    obtain ⟨l3len, hl3len, h⟩ := except_bind_ok.mp h
    cases l3len with
    | none => cases h
    | some l3len =>
      obtain ⟨l4, -, h⟩ := except_bind_ok.mp h
      cases hq : l4.ptr with
      | none => simp [hq, pure, Except.pure] at h
      | some q =>
        simp only [hq] at h
        have := layer3Length_bounds hl3len
        have := transportLength_bounds h
        omega

end

end Libtrace.UnsetTypes
