import Libtrace.AnonVisits
import Libtrace.ExtensionWalk

/-! Which bytes `traceanon` reads and writes. -/

namespace Libtrace.AnonBounds
open Exec Orbit Protocols PacketAccess PacketDecode PacketLayout HeaderChain RegionBounds
  ReadBounds ExtensionWalk AnonPacket AnonVisits

variable {σ : Type}

section

variable (a : Anonymiser σ)

def quote (v : Visit σ) : Option (Visit σ) :=
  match v.icmp with
  | none => none
  | some icmp => if v.ptr + 20 ≤ icmp then next a v else none

/-- The checksum and addresses of an IPv4 header, and the checksum of an ICMP message behind it. -/
def IsField (v : Visit σ) (i : Nat) : Prop :=
  v.IsIpv4 ∧ (v.ptr + 10 ≤ i ∧ i < v.ptr + 20 ∨
    ∃ icmp, v.icmp = some icmp ∧ v.ptr + 20 ≤ icmp ∧ (i = icmp + 2 ∨ i = icmp + 3))

def checkOffset (protocol remaining : Nat) : Option Nat :=
  if protocol = 17 ∧ 8 ≤ remaining then some 6
  else if protocol = 6 ∧ 20 ≤ remaining then some 16
  else if protocol = 58 ∧ 8 ≤ remaining then some 2
  else none

/-- How many bytes from `p` on count as captured. -/
def counted (pkt : Packet) (p : Nat) : Nat := pkt.size + uncounted pkt - p

/-- The header behind an IPv4 header or, if that is an IPv6 header, the one behind its extension
headers. -/
def Upper (pkt : Packet) (x y : Place) : Prop :=
  x.type ≠ 41 ∧ y = x ∨ x.type = 41 ∧ ∃ start,
    extStart pkt x.offset x.remaining = some start ∧ Ends (rfcNext pkt) start y

/-- The IPv6 packet is a fragment and not the first, so that no header is behind the others. -/
def LaterFragment (pkt : Packet) (x : Place) : Prop :=
  x.type = 41 ∧ ∃ start z, extStart pkt x.offset x.remaining = some start ∧
    Reach (rfcNext pkt) start z ∧ z.type = 44 ∧ 8 ≤ be pkt (z.offset + 2)

/-- Behind the IPv4 header at `p`, the UDP, TCP or ICMPv6 header `y` would have its checksum `field`
bytes behind its start. -/
structure CheckAt (pkt : Packet) (p : Nat) (x y : Place) (field : Nat) : Prop where
  ip4 : ip4Next pkt p (counted pkt p) = some x
  upper : Upper pkt x y
  check : checkOffset y.type y.remaining = some field

def IsCheck (p : Nat) (pkt : Packet) (i : Nat) : Prop :=
  ∃ x y field, CheckAt pkt p x y field ∧ p + 20 ≤ x.offset ∧ ¬ LaterFragment pkt x ∧
    (i = y.offset + field ∨ i = y.offset + field + 1)

/-- `per_packet` returns, `encrypt_ips` stays in the captured bytes, and only addresses and
checksums are written, all of them captured. -/
def Sound (l : Locals) (v : Visit σ) : Prop :=
  ∃ w, perPacket a l v.encSource v.encDest v.work = .ok w ∧ Logged v.work.pkt w ∧
    ∀ i ∈ w.written, i < v.work.pkt.size ∧
      ((∃ u, Reach (quote a) v u ∧ IsField u i) ∨ IsCheck v.ptr v.work.pkt i)

/-- An IPv4 header that is captured as far as it is used. An ICMP message comes behind 20 bytes of
it, or is no error and its checksum falls on a field of the header. -/
structure Orderly (v : Visit σ) : Prop where
  inside : Inside v
  ipv4 : v.IsIpv4
  placed : ∀ icmp, v.icmp = some icmp →
    v.ptr + 20 ≤ icmp ∨ v.ptr + 8 ≤ icmp ∧ next a v = none

/-- The checksum is captured, and that of a header or on the checksum or addresses of the IPv4
header. -/
def CheckPlaced (p : Nat) (pkt : Packet) : Prop :=
  ∀ x y field, CheckAt pkt p x y field → y.offset + field + 2 ≤ pkt.size ∧ ¬ LaterFragment pkt x ∧
    (p + 20 ≤ x.offset ∨ p + 10 ≤ y.offset + field ∧ y.offset + field + 2 ≤ p + 20)

/-- An IPv6 header is behind 20 bytes of the IPv4 header, and the decoder follows its extension
headers. -/
def TunnelRead (p : Nat) (pkt : Packet) : Prop :=
  ∀ x, ip4Next pkt p (counted pkt p) = some x → x.type = 41 → p + 20 ≤ x.offset ∧
    ∀ start, extStart pkt x.offset x.remaining = some start → WellRead pkt start

end

section

variable {a : Anonymiser σ} {v u w : Visit σ}

theorem quote_next {n : Visit σ} (h : quote a v = some n) :
    next a v = some n ∧ v.ptr + 28 ≤ n.ptr := by
  unfold quote at h
  cases hicmp : v.icmp with
  | none =>
    rw [hicmp] at h
    cases h
  | some icmp =>
    rw [hicmp] at h
    dsimp only at h
    split_ifs at h with hbehind
    obtain ⟨icmp', hicmp', -, rfl⟩ := next_icmp h
    obtain rfl := Option.mem_unique hicmp hicmp'
    exact ⟨h, Nat.add_le_add_right hbehind 8⟩

theorem quote_of_behind {icmp : Nat} (hicmp : v.icmp = some icmp) (h : v.ptr + 20 ≤ icmp) :
    quote a v = next a v := by
  rw [quote, hicmp]
  exact if_pos h

theorem quote_none (h : ∀ icmp, v.icmp = some icmp → ¬ v.ptr + 20 ≤ icmp) : quote a v = none := by
  rw [quote]
  cases hicmp : v.icmp with
  | none => rfl
  | some icmp => exact if_neg (h icmp hicmp)

theorem reach_quote (h : ∀ u, Reach (quote a) v u → Orderly a u) (hu : Reach (next a) v u) :
    Reach (quote a) v u := by
  refine reach_inv (Reach (quote a) v) (fun b c hbc hb => ?_) hu (reach_refl v)
  obtain ⟨icmp, hicmp, -, -⟩ := next_icmp hbc
  obtain hbehind | ⟨-, hnone⟩ := (h b hb).placed icmp hicmp
  · exact hb.tail ((quote_of_behind hicmp hbehind).trans hbc)
  · rw [hnone] at hbc
    cases hbc

theorem field_before (hu : Reach (quote a) v u) (hstop : quote a u = none)
    (hw : Reach (quote a) v w) {i : Nat} (h : IsField w i) : w = u ∨ i < u.ptr := by
  have hwu : Reach (quote a) w u := by
    obtain huw | hwu := reach_linear hu hw
    · obtain rfl := reach_stop hstop huw
      exact reach_refl _
    · exact hwu
  obtain rfl | ⟨n, hn, hnu⟩ := reach_cases hwu
  · exact .inl rfl
  · right
    obtain ⟨hnext, hbehind⟩ := quote_next hn
    obtain ⟨icmp, hicmp, -, hn'⟩ := next_icmp hnext
    have hnptr : n.ptr = icmp + 8 := by rw [hn']
    have hle : n.ptr ≤ u.ptr := by
      obtain rfl | hle := reach_ptr (reach_mono (fun b c hbc => (quote_next hbc).1) hnu)
      · exact Nat.le_refl _
      · omega
    obtain ⟨-, ⟨-, hlt⟩ | ⟨icmp', hicmp', -, heq⟩⟩ := h
    · omega
    · obtain rfl := Option.mem_unique hicmp hicmp'
      omega

theorem exists_writes (henc : (v.encSource || v.encDest) = true) :
    ∃ i, v.Writes i ∧ v.ptr + 12 ≤ i := by
  obtain hsource | hdest := Bool.or_eq_true_iff.mp henc
  · exact ⟨v.ptr + 12, .inl ⟨hsource, Nat.le_refl _, by omega⟩, Nat.le_refl _⟩
  · exact ⟨v.ptr + 16, .inr (.inl ⟨hdest, Nat.le_refl _, by omega⟩), by omega⟩

theorem writes_of_disorder (henc : (v.encSource || v.encDest) = true) (hin : Inside v)
    (h : ¬ Orderly a v) :
    quote a v = none ∧ ∃ u i, Reach (next a) v u ∧ u.Writes i ∧ v.ptr ≤ i ∧ ¬ IsField v i := by
  by_cases hipv4 : v.IsIpv4
  · have hplaced : ¬ ∀ icmp, v.icmp = some icmp →
        v.ptr + 20 ≤ icmp ∨ v.ptr + 8 ≤ icmp ∧ next a v = none := fun hplaced =>
      h ⟨hin, hipv4, hplaced⟩
    push Not at hplaced
    obtain ⟨icmp, hicmp, hbefore, hwrong⟩ := hplaced
    have hnone : ∀ icmp', v.icmp = some icmp' → ¬ v.ptr + 20 ≤ icmp' := by
      intro icmp' hicmp'
      obtain rfl := Option.mem_unique hicmp hicmp'
      omega
    refine ⟨quote_none hnone, ?_⟩
    have hfield : ∀ i, (i < v.ptr + 10 ∨ v.ptr + 20 ≤ i) → ¬ IsField v i := by
      rintro i hi ⟨-, hrange | ⟨icmp', hicmp', hbehind, -⟩⟩
      · omega
      · exact hnone icmp' hicmp' hbehind
    cases hn : next a v with
    | some n =>
      have hptr := next_ptr hn
      obtain ⟨i, hwrites, hi⟩ := exists_writes ((next_enc hn).trans henc)
      exact ⟨n, i, reach_head hn (reach_refl n), hwrites, by omega, hfield i (.inr (by omega))⟩
    | none =>
      have hlow : icmp < v.ptr + 8 := by
        by_contra hhigh
        exact hwrong (by omega) hn
      have hstart := (icmp_bounds hicmp).2.2.1
      exact ⟨v, icmp + 2, reach_refl v, .inr (.inr ⟨icmp, hicmp, .inl rfl⟩), by omega,
        hfield _ (.inl (by omega))⟩
  · refine ⟨quote_none fun icmp hicmp => absurd (icmp_bounds hicmp).1 hipv4, ?_⟩
    obtain ⟨i, hwrites, hi⟩ := exists_writes henc
    exact ⟨v, i, reach_refl v, hwrites, by omega, fun hfield => hipv4 hfield.1⟩

theorem isField_of_writes (h : Orderly a v) {i : Nat} (hwrites : v.Writes i) : IsField v i := by
  refine ⟨h.ipv4, ?_⟩
  obtain ⟨-, hlow, hhigh⟩ | ⟨-, hlow, hhigh⟩ | ⟨icmp, hicmp, heq⟩ := hwrites
  · exact .inl (by omega)
  · exact .inl (by omega)
  · obtain hbehind | ⟨hlow, -⟩ := h.placed icmp hicmp
    · exact .inr ⟨icmp, hicmp, hbehind, heq⟩
    · obtain ⟨-, -, hstart, hmod⟩ := icmp_bounds hicmp
      by_cases hbehind : v.ptr + 20 ≤ icmp
      · exact .inr ⟨icmp, hicmp, hbehind, heq⟩
      · exact .inl (by omega)

end

section

variable {pkt : Packet} {c : Caches} {p : Nat}

structure Cached (c : Caches) (p : Nat) : Prop where
  header : c.l3Header = some p
  ethertype : c.l3Ethertype = ethertypeIp
  transport : c.l4Header = none

variable {f : Found Nat} {m : Memory} {r : Nat} {x y : Place} {q : Nat}

theorem getIp_found {ethertype : Nat}
    (h : getIp pkt.whole pkt ethertype clearCache = .ok (some p, c)) :
    (pkt.bytes p).toNat / 16 = 4 ∧ Cached c p ∧ c.l3Remaining = counted pkt p := by
  obtain ⟨f, c', hf, hdecoded, htransport, -, hstored⟩ := getLayer3_first pkt ethertype
  rw [getIp, bind_of_ok hf] at h
  obtain ⟨x, hx, hok⟩ | ⟨-, type, r, hok⟩ := finds_layer3 pkt ethertype
  · have hfound : f = x.found := ok_unique hdecoded hok
    have hptr : f.ptr = some x.offset := by rw [hfound, Place.found]
    rw [hptr] at h
    dsimp only at h
    split_ifs at h with hshort
    · cases (Prod.mk.inj (Except.ok.inj h)).1
    · rw [lift_bind, byte_whole, ok_bind] at h
      obtain ⟨hp, rfl⟩ := Prod.mk.inj (Except.ok.inj h)
      split_ifs at hp with hversion
      obtain rfl := Option.some.inj hp
      have htype : f.type = ethertypeIp := not_not.mp fun hne => hshort (.inl hne)
      have hsum := layer3At_sum hx
      rw [hfound] at hstored htype
      obtain ⟨hheader, hethertype, hremaining⟩ := Found.mk.inj (hstored rfl)
      refine ⟨hversion, ⟨hheader, hethertype.trans htype, htransport⟩, ?_⟩
      rw [hremaining, counted]
      omega
  · obtain rfl := ok_unique hok hdecoded
    cases (Prod.mk.inj (Except.ok.inj h)).1

theorem getIp6_cached (m : Memory) (pkt : Packet) (h : Cached c p) (ethertype : Nat) :
    getIp6 m pkt ethertype c = .ok (none, c) := by
  have hcached : c.l3Header.isSome = true := by rw [h.header, Option.isSome_some]
  rw [getIp6, bind_of_ok (getLayer3_cached m pkt ethertype hcached)]
  dsimp only
  rw [if_pos (.inl (by rw [h.ethertype]; decide))]
  rfl

theorem getTransport_cachedIp (m : Memory) (h : Cached c p) (proto ethertype : Nat) :
    getTransport m pkt proto ethertype c =
      findTransport m p ethertypeIp proto c.l3Remaining >>= fun f => .ok (f, c.storeL4 f) := by
  have hcached : c.l3Header.isSome = true := by rw [h.header, Option.isSome_some]
  rw [getTransport_uncached m pkt proto ethertype h.transport,
    getLayer3_cached m pkt ethertype hcached, ok_bind, h.header, h.ethertype]
  rfl

theorem findTransport_cases (pkt : Packet) (p r : Nat) :
    (∃ f q, f.ptr = some q ∧ ∀ proto, findTransport pkt.whole p ethertypeIp proto r = .ok f) ∨
      ∀ proto, ∃ f, f.ptr = none ∧ findTransport pkt.whole p ethertypeIp proto r = .ok f := by
  cases hnext : ip4Next pkt p r with
  | none =>
    refine .inr fun proto => ?_
    obtain ⟨type, r', hok⟩ := findTransport_stops pkt rfl proto hnext
    exact ⟨_, rfl, hok⟩
  | some x =>
    have hall := fun proto => findTransport_next pkt rfl proto hnext
    by_cases h6 : x.type = 41
    · obtain ⟨f, hf, -⟩ := getPayloadFromIp6_bounded pkt x.offset 41 x.remaining
      have hsame : ∀ proto, findTransport pkt.whole p ethertypeIp proto r = .ok f := fun proto =>
        (hall proto).trans ((if_pos h6).trans hf)
      cases hptr : f.ptr with
      | none => exact .inr fun proto => ⟨f, hptr, hsame proto⟩
      | some q => exact .inl ⟨f, q, hptr, hsame⟩
    · exact .inl ⟨x.found, x.offset, rfl, fun proto => (hall proto).trans (if_neg h6)⟩

/-- What is written for a header that `trace_get_transport` finds at `q`. -/
def Cleared (pkt : Packet) (p r q field : Nat) : Prop :=
  ∃ f, findTransport pkt.whole p ethertypeIp 0 r = .ok f ∧ f.ptr = some q ∧
    checkOffset f.type f.remaining = some field

theorem cleared_of_found (hf : findTransport pkt.whole p ethertypeIp 0 r = .ok f) {field : Nat} :
    Cleared pkt p r q field ↔ f.ptr = some q ∧ checkOffset f.type f.remaining = some field :=
  ⟨fun ⟨_, hf', h⟩ => ok_unique hf' hf ▸ h, fun h => ⟨f, hf, h⟩⟩

theorem checkOffset_iff (type remaining field : Nat) :
    checkOffset type remaining = some field ↔
      (field = 6 ∧ type = 17 ∧ 8 ≤ remaining) ∨ (field = 16 ∧ type = 6 ∧ 20 ≤ remaining) ∨
        (field = 2 ∧ type = 58 ∧ 8 ≤ remaining) := by
  unfold checkOffset
  split_ifs
  · rw [Option.some.injEq]
    omega
  · rw [Option.some.injEq]
    omega
  · rw [Option.some.injEq]
    omega
  · simp only [false_iff]
    omega

theorem unchained_of_check {field : Nat} (h : checkOffset y.type y.remaining = some field) :
    chained y.type = false := by
  obtain ⟨-, htype, -⟩ | ⟨-, htype, -⟩ | ⟨-, htype, -⟩ := (checkOffset_iff _ _ _).mp h
  all_goals
    rw [htype]
    rfl

theorem upper_unique {z : Place} (hy : Upper pkt x y) (hz : Upper pkt x z) : y = z := by
  obtain ⟨h41, rfl⟩ | ⟨h41, start, hstart, hends⟩ := hy
  · obtain ⟨-, rfl⟩ | ⟨h41', -⟩ := hz
    · rfl
    · exact absurd h41' h41
  · obtain ⟨h41', -⟩ | ⟨-, start', hstart', hends'⟩ := hz
    · exact absurd h41 h41'
    · obtain rfl := Option.mem_unique hstart hstart'
      exact ends_unique hends hends'

theorem upper_offset (h : Upper pkt x y) : x.offset ≤ y.offset := by
  obtain ⟨-, rfl⟩ | ⟨-, start, hstart, hends⟩ := h
  · exact Nat.le_refl _
  · exact (rfc_sum hstart hends.1).1

theorem not_cleared_of_none (h : ip4Next pkt p r = none) {field : Nat} :
    ¬ Cleared pkt p r q field := by
  obtain ⟨type, r', hok⟩ := findTransport_stops pkt rfl 0 h
  rw [cleared_of_found hok]
  exact fun h => Option.some_ne_none q h.1.symm

/-- Where the decoder follows the extension headers, it finds the headers that are there. -/
theorem cleared_iff (hread : ∀ x, ip4Next pkt p r = some x → x.type = 41 → ∀ start,
      extStart pkt x.offset x.remaining = some start → WellRead pkt start) {field : Nat} :
    Cleared pkt p r q field ↔ ∃ x y, ip4Next pkt p r = some x ∧ Upper pkt x y ∧ y.offset = q ∧
      checkOffset y.type y.remaining = some field := by
  cases hnext : ip4Next pkt p r with
  | none =>
    exact iff_of_false (not_cleared_of_none hnext) fun ⟨x, _, hx, _⟩ =>
      Option.some_ne_none x hx.symm
  | some x =>
    rw [Cleared, findTransport_next pkt rfl 0 hnext]
    simp only [Option.some.injEq, exists_and_left, exists_eq_left']
    by_cases h41 : x.type = 41
    · rw [if_pos h41]
      cases hstart : extStart pkt x.offset x.remaining with
      | none =>
        rw [ip6_of_short 41 hstart]
        refine iff_of_false ?_ ?_
        · rintro ⟨f, hf, hptr, -⟩
          rw [← Except.ok.inj hf] at hptr
          cases hptr
        · rintro ⟨y, ⟨hne, -⟩ | ⟨-, start, hstart', -⟩, -⟩
          · exact hne h41
          · rw [hstart] at hstart'
            cases hstart'
      | some start =>
        obtain ⟨y, hy⟩ := rfcNext_ends pkt start
        have hupper : Upper pkt x y := .inr ⟨h41, start, hstart, hy⟩
        rw [ip6_of_start 41 hstart (ends_wellRead (hread x hnext h41 start hstart) hy), extEnd_eq]
        constructor
        · rintro ⟨f, hf, hptr, hfield⟩
          obtain rfl := Except.ok.inj hf
          split_ifs at hptr hfield with hchained
          exact ⟨y, hupper, Option.some.inj hptr, hfield⟩
        · rintro ⟨z, hz, rfl, hfield⟩
          obtain rfl := upper_unique hupper hz
          rw [if_neg (by rw [unchained_of_check hfield]; exact Bool.false_ne_true)]
          exact ⟨y.found, rfl, rfl, hfield⟩
    · rw [if_neg h41]
      constructor
      · rintro ⟨f, hf, hptr, hfield⟩
        obtain rfl := Except.ok.inj hf
        exact ⟨x, .inl ⟨h41, rfl⟩, Option.some.inj hptr, hfield⟩
      · rintro ⟨y, ⟨-, rfl⟩ | ⟨h41', -⟩, rfl, hfield⟩
        · exact ⟨y.found, rfl, rfl, hfield⟩
        · exact absurd h41' h41

theorem tunnel_ne_icmp (hx : ip4Next pkt p r = some x) (h41 : x.type = 41) :
    (pkt.bytes (p + 9)).toNat ≠ 1 := by
  rw [ip4Next_some pkt hx] at h41
  exact fun hicmp => absurd (hicmp.symm.trans h41) (by decide)

theorem check_ne_icmp (hx : ip4Next pkt p r = some x) (hy : Upper pkt x y) {field : Nat}
    (hfield : checkOffset y.type y.remaining = some field) : (pkt.bytes (p + 9)).toNat ≠ 1 := by
  obtain ⟨-, rfl⟩ | ⟨h41, -⟩ := hy
  · intro hicmp
    rw [ip4Next_some pkt hx, hicmp] at hfield
    cases hfield
  · exact tunnel_ne_icmp hx h41

theorem not_cleared_of_icmp (hicmp : (pkt.bytes (p + 9)).toNat = 1) (q field : Nat) :
    ¬ Cleared pkt p r q field := by
  rw [cleared_iff fun x hx h41 => absurd hicmp (tunnel_ne_icmp hx h41)]
  rintro ⟨x, y, hx, hy, -, hfield⟩
  exact check_ne_icmp hx hy hfield hicmp

theorem clearCheck_spec (protocol size field : Nat) (unset : Nat × Nat) (enc : Bool) {w : Work σ}
    {c' : Caches} (hf : getTransport w.pkt.whole w.pkt unset.2 unset.1 c = .ok (f, c')) :
    ∃ w', clearCheck (getHeader protocol size) field unset enc (w, c) = .ok (w', c') ∧
      (f.ptr = none → w' = w) ∧ (∀ pkt, Logged pkt w → Logged pkt w') ∧
      ∀ i, i ∈ w'.written ↔ i ∈ w.written ∨ enc = true ∧ ∃ q, f.ptr = some q ∧
        (f.type = protocol ∧ size ≤ f.remaining) ∧ (i = q + field ∨ i = q + field + 1) := by
  have hget : getHeader protocol size (w, c).1.pkt.whole (w, c).1.pkt unset.2 unset.1 (w, c).2 =
      .ok (if f.type = protocol ∧ size ≤ f.remaining then f.ptr else none, c') := by
    rw [getHeader, bind_of_ok hf]
    rfl
  rw [clearCheck, hget, ok_bind]
  cases enc with
  | false => exact ⟨w, rfl, fun _ => rfl, fun _ h => h, fun i => by simp⟩
  | true =>
    by_cases hall : f.type = protocol ∧ size ≤ f.remaining
    · dsimp only
      rw [if_pos hall]
      cases hptr : f.ptr with
      | none => exact ⟨w, rfl, fun _ => rfl, fun _ h => h, fun i => by simp⟩
      | some q =>
        refine ⟨put (q + field) [0, 0] w, rfl, fun h => absurd h (Option.some_ne_none q),
          fun _ h => logged_put h _ _, fun i => ?_⟩
        rw [mem_put_pair]
        simp [hall]
    · dsimp only
      rw [if_neg hall]
      exact ⟨w, rfl, fun _ => rfl, fun _ h => h, fun i => by simp [hall]⟩

theorem clearCheck_nothing (protocol size field : Nat) (unset : Nat × Nat) (enc : Bool)
    (w : Work σ) (h : Cached c p) (hnone : ∀ proto, ∃ f, f.ptr = none ∧
      findTransport w.pkt.whole p ethertypeIp proto c.l3Remaining = .ok f) :
    ∃ c', clearCheck (getHeader protocol size) field unset enc (w, c) = .ok (w, c') ∧
      Cached c' p ∧ c'.l3Remaining = c.l3Remaining := by
  obtain ⟨f, hptr, hf⟩ := hnone unset.2
  have hget : getTransport w.pkt.whole w.pkt unset.2 unset.1 c = .ok (f, c.storeL4 f) := by
    rw [getTransport_cachedIp w.pkt.whole h, hf]
    rfl
  obtain ⟨w', hclear, hsame, -⟩ := clearCheck_spec protocol size field unset enc hget
  obtain rfl := hsame hptr
  exact ⟨c.storeL4 f, hclear, ⟨h.header, h.ethertype, hptr⟩, rfl⟩

theorem clearChecks_spec (l : Locals) (enc : Bool) (w : Work σ) (h : Cached c p) :
    ∃ w' c', clearChecks l enc (w, c) = .ok (w', c') ∧
      (∀ pkt, Logged pkt w → Logged pkt w') ∧
      ∀ i, i ∈ w'.written ↔ i ∈ w.written ∨ enc = true ∧
        ∃ q field, Cleared w.pkt p c.l3Remaining q field ∧ (i = q + field ∨ i = q + field + 1) := by
  obtain ⟨f, q, hptr, hf⟩ | hnone := findTransport_cases w.pkt p c.l3Remaining
  · -- the header is found once, and then it is in the cache
    have hget : getTransport w.pkt.whole w.pkt l.udp.2 l.udp.1 c = .ok (f, c.storeL4 f) := by
      rw [getTransport_cachedIp w.pkt.whole h, hf]
      rfl
    have hcached : (c.storeL4 f).l4Header.isSome = true := by
      rw [Caches.storeL4, hptr, Option.isSome_some]
    obtain ⟨w₁, hudp, -, hlog₁, hmem₁⟩ := clearCheck_spec 17 8 6 l.udp enc hget
    obtain ⟨w₂, htcp, -, hlog₂, hmem₂⟩ := clearCheck_spec 6 20 16 l.tcp enc
      (getTransport_cached w₁.pkt.whole w₁.pkt l.tcp.2 l.tcp.1 hcached)
    obtain ⟨w₃, hicmp6, -, hlog₃, hmem₃⟩ := clearCheck_spec 58 8 2 l.icmp6 enc
      (getTransport_cached w₂.pkt.whole w₂.pkt l.icmp6.2 l.icmp6.1 hcached)
    refine ⟨w₃, c.storeL4 f, ?_, fun pkt hw => hlog₃ pkt (hlog₂ pkt (hlog₁ pkt hw)), fun i => ?_⟩
    · rw [clearChecks, getUdp, hudp, ok_bind, getTcp, htcp, ok_bind, getIcmp6, hicmp6]
    rw [hmem₃, hmem₂, hmem₁]
    constructor
    · rintro (((hw | ⟨henc, q', hq', hall, hi⟩) | ⟨henc, q', hq', hall, hi⟩) |
        ⟨henc, q', hq', hall, hi⟩)
      · exact .inl hw
      · exact .inr ⟨henc, q', 6, (cleared_of_found (hf 0)).mpr ⟨hq', (checkOffset_iff _ _ _).mpr
          (.inl ⟨rfl, hall⟩)⟩, hi⟩
      · exact .inr ⟨henc, q', 16, (cleared_of_found (hf 0)).mpr ⟨hq', (checkOffset_iff _ _ _).mpr
          (.inr (.inl ⟨rfl, hall⟩))⟩, hi⟩
      · exact .inr ⟨henc, q', 2, (cleared_of_found (hf 0)).mpr ⟨hq', (checkOffset_iff _ _ _).mpr
          (.inr (.inr ⟨rfl, hall⟩))⟩, hi⟩
    · rintro (hw | ⟨henc, q', field, hcheck, hi⟩)
      · exact .inl (.inl (.inl hw))
      · obtain ⟨hq', hoffset⟩ := (cleared_of_found (hf 0)).mp hcheck
        obtain ⟨rfl, hall⟩ | ⟨rfl, hall⟩ | ⟨rfl, hall⟩ := (checkOffset_iff _ _ _).mp hoffset
        · exact .inl (.inl (.inr ⟨henc, q', hq', hall, hi⟩))
        · exact .inl (.inr ⟨henc, q', hq', hall, hi⟩)
        · exact .inr ⟨henc, q', hq', hall, hi⟩
  · obtain ⟨c₁, hudp, h₁, hr₁⟩ := clearCheck_nothing 17 8 6 l.udp enc w h hnone
    obtain ⟨c₂, htcp, h₂, hr₂⟩ := clearCheck_nothing 6 20 16 l.tcp enc w h₁ (hr₁.symm ▸ hnone)
    obtain ⟨c₃, hicmp6, -, -⟩ := clearCheck_nothing 58 8 2 l.icmp6 enc w h₂
      ((hr₂.trans hr₁).symm ▸ hnone)
    have hat : ∀ q field, ¬ Cleared w.pkt p c.l3Remaining q field := by
      intro q field
      obtain ⟨f, hptr, hf⟩ := hnone 0
      rw [cleared_of_found hf, hptr]
      exact fun h => Option.some_ne_none q h.1.symm
    refine ⟨w, c₃, ?_, fun _ hw => hw, fun i => ⟨.inl, ?_⟩⟩
    · rw [clearChecks, getUdp, hudp, ok_bind, getTcp, htcp, ok_bind, getIcmp6, hicmp6]
    · rintro (hw | ⟨-, q, field, hcheck, -⟩)
      · exact hw
      · exact absurd hcheck (hat q field)

end

section

variable {a : Anonymiser σ} {l : Locals} {v : Visit σ} {c : Caches}

theorem anonymise_eq
    (hip : getIp v.work.pkt.whole v.work.pkt l.ip clearCache = .ok (some v.ptr, c)) :
    anonymise a l v.encSource v.encDest v.work =
      if v.encSource || v.encDest then
        encryptIps a (v.work.pkt.size + 1) v.work v.ptr v.encSource v.encDest >>= fun w =>
          .ok (put (v.ptr + 10) [0, 0] w, c)
      else .ok (v.work, c) := by
  have hip6 := getIp6_cached v.work.pkt.whole v.work.pkt (getIp_found hip).2.1 l.ip6
  rw [anonymise, hip, ok_bind, hip6, ok_bind]
  rfl

def summed (a : Anonymiser σ) (v : Visit σ) : Work σ :=
  put (v.ptr + 10) [0, 0] (encryptAll a (v.work.pkt.size + 1) v)

theorem guarded_anonymise
    (hip : getIp v.work.pkt.whole v.work.pkt l.ip clearCache = .ok (some v.ptr, c))
    (henc : (v.encSource || v.encDest) = true) :
    Guarded .outOfRange (∀ u, Reach (next a) v u → Inside u)
      (anonymise a l v.encSource v.encDest v.work) (.ok (summed a v, c)) := by
  rw [anonymise_eq hip, if_pos henc]
  exact guarded_of_iff (guarded_bind_value
    (guarded_encryptIps a (v.work.pkt.size + 1) v henc (Nat.succ_pos _) (by omega))
    (guarded_of_true (c := True) rfl trivial)) (and_iff_left trivial)

theorem logged_summed : Logged v.work.pkt (summed a v) :=
  logged_put (logged_encryptAll _ fun _ hne => absurd rfl hne) _ _

theorem summed_protocol (hempty : v.work.written = []) :
    (summed a v).pkt.bytes (v.ptr + 9) = v.work.pkt.bytes (v.ptr + 9) := by
  by_contra hne
  obtain hmem | hsum := mem_put_pair.mp (logged_summed _ hne)
  · obtain hbefore | ⟨u, hu, hwrites⟩ := writes_of_mem _ hmem
    · rw [hempty] at hbefore
      cases hbefore
    · have hptr : u.ptr = v.ptr ∨ v.ptr + 8 ≤ u.ptr := (reach_ptr hu).imp_left (congrArg _)
      obtain ⟨-, hrange⟩ | ⟨-, hrange⟩ | ⟨icmp, hicmp, heq⟩ := hwrites
      · omega
      · omega
      · obtain ⟨-, -, hstart, hmod⟩ := icmp_bounds hicmp
        omega
  · omega

theorem ip6_congr {pkt pkt' : Packet} {p : Nat} (h : ∀ i, p ≤ i → pkt.bytes i = pkt'.bytes i)
    (prot r : Nat) :
    getPayloadFromIp6 pkt.whole p prot r = getPayloadFromIp6 pkt'.whole p prot r := by
  have hwalk : ∀ fuel payload nxt r, p ≤ payload →
      ip6Extensions pkt.whole prot fuel payload nxt r =
        ip6Extensions pkt'.whole prot fuel payload nxt r := by
    intro fuel
    induction fuel with
    | zero => exact fun _ _ _ _ => rfl
    | succ fuel ih =>
      intro payload nxt r hle
      simp only [ip6Extensions, byte_whole, ok_bind, h payload hle, h (payload + 1) (by omega)]
      rw [ih _ _ _ (by omega), ih _ _ _ (by omega)]
  rw [getPayloadFromIp6, getPayloadFromIp6, byte_whole, byte_whole, h (p + 6) (by omega), ok_bind,
    ok_bind, hwalk _ _ _ _ (by omega)]

theorem cleared_summed (hempty : v.work.written = []) {r q field : Nat}
    (htunnel : ∀ x, ip4Next v.work.pkt v.ptr r = some x → x.type = 41 → v.ptr + 20 ≤ x.offset) :
    Cleared (summed a v).pkt v.ptr r q field ↔ Cleared v.work.pkt v.ptr r q field := by
  cases hicmp : v.icmp with
  | some icmp =>
    have hprotocol := (icmp_bounds hicmp).2.1
    refine iff_of_false (not_cleared_of_icmp ?_ q field) (not_cleared_of_icmp hprotocol q field)
    rw [summed_protocol hempty]
    exact hprotocol
  | none =>
    have hsame : ∀ i, i < v.ptr + 10 ∨ v.ptr + 20 ≤ i →
        (summed a v).pkt.bytes i = v.work.pkt.bytes i := by
      intro i hi
      rw [summed, put_outside _ (show i < v.ptr + 10 ∨ v.ptr + 10 + 2 ≤ i by omega),
        encryptAll_none a _ hicmp]
      exact encrypted_outside a v (by omega)
    have hnext := TransportAgreement.ip4Next_agree (p := v.ptr) (r := r) fun i hi =>
      hsame _ (.inl (Nat.add_lt_add_left hi _))
    cases hx : ip4Next v.work.pkt v.ptr r with
    | none =>
      exact iff_of_false (not_cleared_of_none (hnext.trans hx)) (not_cleared_of_none hx)
    | some x =>
      unfold Cleared
      rw [findTransport_next _ rfl 0 hx, findTransport_next _ rfl 0 (hnext.trans hx)]
      by_cases h41 : x.type = 41
      · rw [ip6_congr fun i hi => hsame i (.inr (Nat.le_trans (htunnel x hx h41) hi))]
      · rw [if_neg h41, if_neg h41]

theorem cleared_of_summed (hremaining : c.l3Remaining = counted v.work.pkt v.ptr)
    (hempty : v.work.written = []) (htunnel : TunnelRead v.ptr v.work.pkt) {q field : Nat} :
    Cleared (summed a v).pkt v.ptr c.l3Remaining q field ↔
      ∃ x y, CheckAt v.work.pkt v.ptr x y field ∧ y.offset = q := by
  rw [hremaining, cleared_summed hempty fun x hx h41 => (htunnel x hx h41).1,
    cleared_iff fun x hx h41 => (htunnel x hx h41).2]
  constructor
  · rintro ⟨x, y, hx, hy, hq, hfield⟩
    exact ⟨x, y, ⟨hx, hy, hfield⟩, hq⟩
  · rintro ⟨x, y, ⟨hx, hy, hfield⟩, hq⟩
    exact ⟨x, y, hx, hy, hq, hfield⟩

theorem writes_inside (h : Inside v) {i : Nat} (hwrites : v.Writes i) : i < v.work.pkt.size := by
  obtain ⟨hsource, -, hi⟩ | ⟨hdest, -, hi⟩ | ⟨icmp, hicmp, hi⟩ := hwrites
  · exact Nat.lt_of_lt_of_le hi (h.source hsource)
  · exact Nat.lt_of_lt_of_le hi (h.dest hdest)
  · have hle := h.icmp icmp hicmp
    omega

section

variable (hip : getIp v.work.pkt.whole v.work.pkt l.ip clearCache = .ok (some v.ptr, c))
  (hempty : v.work.written = [])
include hip hempty

theorem sound_idle (henc : ¬ (v.encSource || v.encDest) = true) : Sound a l v := by
  have hfirst : anonymise a l v.encSource v.encDest v.work = .ok (v.work, c) :=
    (anonymise_eq hip).trans (if_neg henc)
  obtain ⟨w, c', hw, hlogged, hmem⟩ := clearChecks_spec l (v.encSource || v.encDest) v.work
    (getIp_found hip).2.1
  refine ⟨w, ?_, hlogged _ fun _ hne => absurd rfl hne, fun i hi => ?_⟩
  · rw [perPacket, hfirst, ok_bind, hw]
    rfl
  · obtain hbefore | ⟨henc', -⟩ := (hmem i).mp hi
    · rw [hempty] at hbefore
      cases hbefore
    · exact absurd henc' henc

variable (henc : (v.encSource || v.encDest) = true) (htunnel : TunnelRead v.ptr v.work.pkt)
include henc htunnel

theorem perPacket_written (hin : ∀ u, Reach (next a) v u → Inside u) :
    ∃ w, perPacket a l v.encSource v.encDest v.work = .ok w ∧ Logged v.work.pkt w ∧
      ∀ i, i ∈ w.written ↔ (i ∈ (encryptAll a (v.work.pkt.size + 1) v).written ∨
        i = v.ptr + 10 ∨ i = v.ptr + 11) ∨
        ∃ x y field, CheckAt v.work.pkt v.ptr x y field ∧
          (i = y.offset + field ∨ i = y.offset + field + 1) := by
  obtain ⟨-, hcached, hremaining⟩ := getIp_found hip
  obtain ⟨w, c', hw, hlogged, hmem⟩ := clearChecks_spec l (v.encSource || v.encDest) (summed a v)
    hcached
  refine ⟨w, ?_, hlogged _ logged_summed, fun i => ?_⟩
  · rw [perPacket, (guarded_anonymise hip henc).1 hin, ok_bind, hw]
    rfl
  · rw [hmem, summed, mem_put_pair, and_iff_right henc]
    refine or_congr_right ⟨?_, ?_⟩
    · rintro ⟨q, field, hcleared, hi⟩
      obtain ⟨x, y, hat, rfl⟩ := (cleared_of_summed hremaining hempty htunnel).mp hcleared
      exact ⟨x, y, field, hat, hi⟩
    · rintro ⟨x, y, field, hat, hi⟩
      exact ⟨y.offset, field, (cleared_of_summed hremaining hempty htunnel).mpr ⟨x, y, hat, rfl⟩,
        hi⟩

theorem sound_of_orderly (horderly : ∀ u, Reach (next a) v u → Orderly a u)
    (hcheck : CheckPlaced v.ptr v.work.pkt) : Sound a l v := by
  obtain ⟨hipv4, -, -⟩ := getIp_found hip
  have hin : ∀ u, Reach (next a) v u → Inside u := fun u hu => (horderly u hu).inside
  have hquote : ∀ u, Reach (quote a) v u → Orderly a u := fun u hu =>
    horderly u (reach_mono (fun _ _ hab => (quote_next hab).1) hu)
  obtain ⟨w, hw, hlogged, hmem⟩ := perPacket_written hip hempty henc htunnel hin
  have hself : ∀ i, v.ptr + 10 ≤ i → i < v.ptr + 20 → ∃ u, Reach (quote a) v u ∧ IsField u i :=
    fun i hlow hhigh => ⟨v, reach_refl v, hipv4, .inl ⟨hlow, hhigh⟩⟩
  refine ⟨w, hw, hlogged, fun i hi => ?_⟩
  obtain (hrun | hsum) | ⟨x, y, field, hat, hi⟩ := (hmem i).mp hi
  · obtain hbefore | ⟨u, hu, hwrites⟩ := writes_of_mem _ hrun
    · rw [hempty] at hbefore
      cases hbefore
    · exact ⟨reach_size hu ▸ writes_inside (hin u hu) hwrites,
        .inl ⟨u, reach_quote hquote hu, isField_of_writes (horderly u hu) hwrites⟩⟩
  · obtain ⟨j, hwrites, hj⟩ := exists_writes henc
    have hsize := writes_inside (hin v (reach_refl v)) hwrites
    exact ⟨by omega, .inl (hself i (by omega) (by omega))⟩
  · obtain ⟨hsize, hfragment, hbehind | hplaced⟩ := hcheck x y field hat
    · exact ⟨by omega, .inr ⟨x, y, field, hat, hbehind, hfragment, hi⟩⟩
    · exact ⟨by omega, .inl (hself i (by omega) (by omega))⟩

variable (hin : ∀ u, Reach (next a) v u → Inside u) (hsound : Sound a l v)
include hin hsound

theorem checkPlaced_of_sound : CheckPlaced v.ptr v.work.pkt := by
  intro x y field hat
  obtain ⟨w, hw, -, hfields⟩ := hsound
  obtain ⟨w', hw', -, hmem⟩ := perPacket_written hip hempty henc htunnel hin
  obtain rfl := ok_unique hw hw'
  have hicmp : v.icmp = none := by
    cases hicmp : v.icmp with
    | none => rfl
    | some icmp =>
      exact absurd (icmp_bounds hicmp).2.1 (check_ne_icmp hat.ip4 hat.upper hat.check)
  have hbyte : ∀ i, i = y.offset + field ∨ i = y.offset + field + 1 → i < v.work.pkt.size ∧
      (v.ptr + 10 ≤ i ∧ i < v.ptr + 20 ∨ v.ptr + 20 ≤ x.offset ∧ ¬ LaterFragment v.work.pkt x) := by
    intro i hi
    obtain ⟨hsize, ⟨u, hu, -, hfield⟩ | ⟨x', y', field', hat', hbehind, hfragment, -⟩⟩ :=
      hfields i ((hmem i).mpr (.inr ⟨x, y, field, hat, hi⟩))
    · have hstop : quote a v = none := by rw [quote, hicmp]
      obtain rfl := reach_stop hstop hu
      obtain hrange | ⟨icmp, hicmp', -⟩ := hfield
      · exact ⟨hsize, .inl hrange⟩
      · rw [hicmp] at hicmp'
        cases hicmp'
    · obtain rfl := Option.mem_unique hat.ip4 hat'.ip4
      exact ⟨hsize, .inr ⟨hbehind, hfragment⟩⟩
  obtain ⟨-, hfirst⟩ := hbyte _ (.inl rfl)
  obtain ⟨hsize, hsecond⟩ := hbyte _ (.inr rfl)
  obtain ⟨hlow, -⟩ | ⟨hbehind, hfragment⟩ := hfirst
  · obtain ⟨-, hhigh⟩ | ⟨hbehind, hfragment⟩ := hsecond
    · refine ⟨by omega, fun hfragment => ?_, .inr ⟨hlow, by omega⟩⟩
      have hoffset := (htunnel x hat.ip4 hfragment.1).1
      have hupper := upper_offset hat.upper
      omega
    · exact ⟨by omega, hfragment, .inl hbehind⟩
  · exact ⟨by omega, hfragment, .inl hbehind⟩

theorem orderly_of_sound {u : Visit σ} (hu : Reach (quote a) v u) : Orderly a u := by
  obtain ⟨hipv4, -, -⟩ := getIp_found hip
  obtain ⟨w, hw, -, hfields⟩ := hsound
  obtain ⟨w', hw', -, hmem⟩ := perPacket_written hip hempty henc htunnel hin
  obtain rfl := ok_unique hw hw'
  by_contra hdisorder
  have hnext := reach_mono (fun _ _ hab => (quote_next hab).1) hu
  obtain ⟨hstop, m, i, hm, hwrites, hi, hfield⟩ :=
    writes_of_disorder ((reach_enc hnext).trans henc) (hin u hnext) hdisorder
  have hreach : Reach (next a) v m := hnext.trans hm
  have hsize := (hin m hreach).protocol
  rw [reach_size hreach] at hsize
  have hrun := mem_of_writes (v.work.pkt.size + 1) hreach (by omega) hwrites
  -- the packet is an ICMP packet, so there is no other checksum
  have hicmp : (v.work.pkt.bytes (v.ptr + 9)).toNat = 1 := by
    cases hicmp : v.icmp with
    | some icmp => exact (icmp_bounds hicmp).2.1
    | none =>
      obtain rfl := reach_stop (next_none hicmp) hnext
      exact absurd ⟨hin u hnext, hipv4, fun icmp h => absurd (hicmp.symm.trans h).symm
        (Option.some_ne_none icmp)⟩ hdisorder
  obtain ⟨-, ⟨x, hx, hfield'⟩ | ⟨x, y, field, hat, -⟩⟩ :=
    hfields i ((hmem i).mpr (.inl (.inl hrun)))
  · obtain rfl | hlt := field_before hu hstop hx hfield'
    · exact hfield hfield'
    · omega
  · exact check_ne_icmp hat.ip4 hat.upper hat.check hicmp

end

theorem inside_of_sound
    (hip : getIp v.work.pkt.whole v.work.pkt l.ip clearCache = .ok (some v.ptr, c))
    (henc : (v.encSource || v.encDest) = true) (h : Sound a l v) :
    ∀ u, Reach (next a) v u → Inside u := by
  by_contra hout
  obtain ⟨w, hw, -⟩ := h
  rw [perPacket, (guarded_anonymise hip henc).2 hout] at hw
  cases hw

end

/-- `per_packet` keeps to the captured bytes and to its fields exactly if every header it gets to is
orderly, and so is the place of the transport checksum. Of the packets with an IPv6 packet in them,
these are those whose headers the decoder follows. -/
theorem perPacket_sound_iff (a : Anonymiser σ) (l : Locals) (pkt : Packet) (s : σ) (p : Nat)
    (encSource encDest : Bool) {c : Caches}
    (hip : getIp pkt.whole pkt l.ip clearCache = .ok (some p, c))
    (htunnel : (encSource || encDest) = true → TunnelRead p pkt) :
    Sound a l ⟨⟨pkt, s, []⟩, p, encSource, encDest⟩ ↔ ((encSource || encDest) = true →
      (∀ u, Reach (next a) ⟨⟨pkt, s, []⟩, p, encSource, encDest⟩ u → Orderly a u) ∧
        CheckPlaced p pkt) := by
  generalize hv : (⟨⟨pkt, s, []⟩, p, encSource, encDest⟩ : Visit σ) = v
  obtain ⟨rfl, rfl, rfl, rfl, hempty⟩ : v.work.pkt = pkt ∧ v.ptr = p ∧ v.encSource = encSource ∧
      v.encDest = encDest ∧ v.work.written = [] := by
    rw [← hv]
    exact ⟨rfl, rfl, rfl, rfl, rfl⟩
  constructor
  · intro hsound henc
    have hin := inside_of_sound hip henc hsound
    have hquote : ∀ u, Reach (quote a) v u → Orderly a u := fun u hu =>
      orderly_of_sound hip hempty henc (htunnel henc) hin hsound hu
    exact ⟨fun u hu => hquote u (reach_quote hquote hu),
      checkPlaced_of_sound hip hempty henc (htunnel henc) hin hsound⟩
  · intro h
    by_cases henc : (v.encSource || v.encDest) = true
    · exact sound_of_orderly hip hempty henc (htunnel henc) (h henc).1 (h henc).2
    · exact sound_idle hip hempty henc

def flipBits : Anonymiser Unit := ⟨fun s x => (~~~x, s), fun s x => (x, s)⟩

def errorFrame : List UInt8 := [
  2, 0, 0, 0, 0, 1, 2, 0, 0, 0, 0, 2, 8, 0,
  0x45, 0, 0, 56, 0, 0, 0, 0, 64, 1, 0, 0, 192, 168, 0, 1, 192, 168, 0, 2,
  3, 3, 0x12, 0x34, 0, 0, 0, 0,
  0x45, 0, 0, 28, 0, 0, 0, 0, 64, 17, 0, 0, 192, 168, 0, 2, 192, 168, 0, 1,
  0, 53, 0, 53, 0, 8, 0, 0]

def unreachable (captureLength : Nat) (h : captureLength < 65536) : Packet where
  bytes i := errorFrame.getD i 0
  linkType := .eth
  captureLength := captureLength
  wireLength := 70
  captureLength_lt := h
  wireLength_lt := by decide

def firstVisit (captureLength : Nat) (h : captureLength < 65536) : Visit Unit :=
  ⟨⟨unreachable captureLength h, (), []⟩, 14, true, true⟩

theorem firstVisit_next (captureLength : Nat) (h : captureLength < 65536) :
    (firstVisit captureLength h).icmp = some 34 ∧ ∃ n : Visit Unit,
      next flipBits (firstVisit captureLength h) = some n ∧ n.ptr = 42 ∧ n.IsIpv4 ∧
      n.icmp = none := by
  have hprotocol : (errorFrame.getD 23 0).toNat = 1 := by decide
  have hfirst : (errorFrame.getD 14 0).toNat = 0x45 := by decide
  have hoff : ((errorFrame.getD 20 0).toNat * 256 + (errorFrame.getD 21 0).toNat) % 0x2000 = 0 := by
    decide
  have hicmp : (firstVisit captureLength h).icmp = some 34 := by
    change (if (errorFrame.getD 23 0).toNat = 1 ∧ (errorFrame.getD 14 0).toNat / 16 = 4 ∧
        ((errorFrame.getD 20 0).toNat * 256 + (errorFrame.getD 21 0).toNat) % 0x2000 = 0 then
      some (14 + (errorFrame.getD 14 0).toNat % 16 * 4) else none) = some 34
    rw [hfirst, if_pos ⟨hprotocol, rfl, hoff⟩]
  have hkept : ∀ i, 34 ≤ i →
      ((firstVisit captureLength h).encrypted flipBits).pkt.bytes i = errorFrame.getD i 0 :=
    fun i hi => encrypted_outside flipBits (firstVisit captureLength h) (.inr hi)
  refine ⟨hicmp, ⟨(firstVisit captureLength h).encrypted flipBits, 42, true, true⟩, ?_, rfl, ?_, ?_⟩
  · rw [next, hicmp]
    refine if_pos ?_
    rw [hkept 34 (Nat.le_refl 34)]
    decide
  · rw [Visit.IsIpv4, hkept 42 (by decide)]
    decide
  · refine if_neg fun hall => absurd hall.1 ?_
    rw [hkept 51 (by decide)]
    decide

def noLocals : Locals := ⟨0, 0, (0, 0), (0, 0), (0, 0)⟩

theorem unreachable_sound : Sound flipBits noLocals (firstVisit 70 (by decide)) := by
  have hip : ∃ c, getIp (unreachable 70 (by decide)).whole (unreachable 70 (by decide))
      noLocals.ip clearCache = .ok (some 14, c) := ⟨_, rfl⟩
  obtain ⟨c, hip⟩ := hip
  have hprotocol : (errorFrame.getD 23 0).toNat = 1 := by decide
  refine (perPacket_sound_iff flipBits noLocals _ () 14 true true hip fun _ x hx h41 => ?_).mpr
    fun _ => ⟨?_, fun x y field hat =>
      absurd hprotocol (check_ne_icmp hat.ip4 hat.upper hat.check)⟩
  · exact absurd hprotocol (tunnel_ne_icmp hx h41)
  · obtain ⟨hicmp, n, hn, hptr, hipv4, hstop⟩ := firstVisit_next 70 (by decide)
    have hsize : n.work.pkt.size = 70 := next_size hn
    change ∀ u, Reach (next flipBits) (firstVisit 70 (by decide)) u → Orderly flipBits u
    rw [forall_reach_step hn, forall_reach_stop (next_none hstop)]
    refine ⟨⟨⟨by decide, by decide, by decide, fun icmp h => ?_⟩, rfl, fun icmp h => ?_⟩,
      ⟨⟨by omega, fun _ => by omega, fun _ => by omega, fun icmp h => ?_⟩, hipv4,
        fun icmp h => ?_⟩⟩
    · obtain rfl := Option.mem_unique hicmp h
      decide
    · obtain rfl := Option.mem_unique hicmp h
      exact .inl (by decide)
    · rw [hstop] at h
      cases h
    · rw [hstop] at h
      cases h

theorem unreachable_overruns : ¬ Sound flipBits noLocals (firstVisit 42 (by decide)) := by
  intro hsound
  obtain ⟨-, n, hn, hptr, -⟩ := firstVisit_next 42 (by decide)
  have hin := inside_of_sound rfl rfl hsound n (reach_head hn (reach_refl n))
  have hprotocol := hin.protocol
  have hsize : n.work.pkt.size = 42 := next_size hn
  omega

end Libtrace.AnonBounds
