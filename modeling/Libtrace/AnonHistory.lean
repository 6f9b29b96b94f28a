import Libtrace.AnonPrefix

/-! What `anonIPv4` returns after other calls. Of the two most recent answers that are kept, the
constructor presents `(0, 0)` as one. -/

namespace Libtrace.AnonHistory
open TraceAnon AnonMask AnonPrefix

def stateless (c : CryptoAnon) (orig : BitVec 32) : BitVec 32 :=
  orig ^^^ encrypt32Bits c orig 0 32 0

theorem mask32_eq (c : CryptoAnon) (orig : BitVec 32) :
    mask32 c orig = encrypt32Bits c orig 0 32 0 := by
  refine BitVec.eq_of_getMsbD_eq fun i hi => ?_
  rw [getMsbD_mask32 c orig hi,
    getMsbD_encrypt32Bits c orig (Nat.zero_le _) (Nat.le_refl 32) 0 hi]
  simp [hi]

theorem anonIPv4_miss {c : CryptoAnon} {s : Caches} (h : Filled c s) (orig : BitVec 32)
    (h0 : s.recentIpv4Cache.1.1 ≠ orig) (h1 : s.recentIpv4Cache.2.1 ≠ orig) :
    (anonIPv4 c s orig).1 = stateless c orig ∧
      (anonIPv4 c s orig).2.recentIpv4Cache =
        ((orig, stateless c orig), s.recentIpv4Cache.1) := by
  have hmask : encrypt32Bits c orig c.cachebits 32 (lookupv4Cache c s (cachePrefix c orig)).1 =
      encrypt32Bits c orig 0 32 0 := by
    rw [(lookupv4Cache_filled h _).1, ← mask32_eq, mask32]
  simp only [anonIPv4, h0, h1, if_false, hmask, stateless, BitVec.xor_comm, true_and]

variable {orig : BitVec 32} {seen : List (BitVec 32)}

theorem anonIPv4_first {c : CryptoAnon} {s : Caches} (h0 : s.recentIpv4Cache.1.1 = orig) :
    anonIPv4 c s orig = (s.recentIpv4Cache.1.2, s) := by
  simp only [anonIPv4, h0, if_true]

theorem anonIPv4_second {c : CryptoAnon} {s : Caches} (h0 : s.recentIpv4Cache.1.1 ≠ orig)
    (h1 : s.recentIpv4Cache.2.1 = orig) :
    anonIPv4 c s orig = (s.recentIpv4Cache.2.2, { s with
      recentIpv4Cache := ((orig, s.recentIpv4Cache.2.2), s.recentIpv4Cache.1) }) := by
  simp only [anonIPv4, h0, h1, if_false, if_true]

structure Session where
  seen : List (BitVec 32)
  caches : Caches

def Session.start (unset : BitVec 32) : Session := ⟨[], newCaches unset⟩

def Session.step (c : CryptoAnon) (s : Session) : Call → Session
  | .anonIPv4 orig => ⟨orig :: s.seen, (anonIPv4 c s.caches orig).2⟩
  | .anonIPv6 orig => ⟨s.seen, (anonIPv6 c s.caches orig).2⟩

def ReturnsStateless (c : CryptoAnon) (s : Session) : Call → Prop
  | .anonIPv4 orig => (anonIPv4 c s.caches orig).1 = orig ^^^ encrypt32Bits c orig 0 32 0
  | .anonIPv6 _ => True

def Primed (seen : List (BitVec 32)) : Prop := ∃ a ∈ seen, ∃ b ∈ seen, a ≠ 0 ∧ b ≠ 0 ∧ a ≠ b

/-- The address 0 comes after two different other addresses, or its mask is 0. -/
def ZeroPrimed (c : CryptoAnon) (s : Session) : Call → Prop
  | .anonIPv4 orig => orig = 0 → encrypt32Bits c 0 0 32 0 = 0 ∨ Primed s.seen
  | .anonIPv6 _ => True

inductive Recent (c : CryptoAnon) (seen : List (BitVec 32)) :
    (BitVec 32 × BitVec 32) × (BitVec 32 × BitVec 32) → Prop where
  /-- The mask of 0 is 0, and the pair `(0, 0)` a right answer. -/
  | harmless {e0 e1 : BitVec 32 × BitVec 32} (hzero : encrypt32Bits c 0 0 32 0 = 0)
      (h0 : e0.2 = stateless c e0.1) (h1 : e1.2 = stateless c e1.1 ∨ e1.1 = e0.1) :
      Recent c seen (e0, e1)
  | fresh {unset : BitVec 32} (hseen : seen = []) : Recent c seen ((0, 0), (0, unset))
  | one (a : BitVec 32) (ha : a ≠ 0) (hseen : ∀ b ∈ seen, b = a) (hmem : a ∈ seen) :
      Recent c seen ((a, stateless c a), (0, 0))
  | primed {e0 e1 : BitVec 32 × BitVec 32} (hseen : Primed seen)
      (h0 : e0.2 = stateless c e0.1) (h1 : e1.2 = stateless c e1.1) : Recent c seen (e0, e1)

structure Inv (c : CryptoAnon) (s : Session) : Prop where
  filled : Filled c s.caches
  recent : Recent c s.seen s.caches.recentIpv4Cache

variable {c : CryptoAnon} {s : Session}

theorem stateless_zero (hzero : encrypt32Bits c 0 0 32 0 = 0) : stateless c 0 = 0 := by
  rw [stateless, hzero]
  rfl

theorem Primed.cons (h : Primed seen) (orig : BitVec 32) : Primed (orig :: seen) := by
  obtain ⟨a, ha, b, hb, hne⟩ := h
  exact ⟨a, List.mem_cons_of_mem _ ha, b, List.mem_cons_of_mem _ hb, hne⟩

theorem not_primed_one {a : BitVec 32} (h : ∀ b ∈ seen, b = a) : ¬ Primed seen := by
  rintro ⟨x, hx, y, hy, -, -, hne⟩
  exact hne ((h x hx).trans (h y hy).symm)

theorem anonIPv4_right {s : Caches} (h : Filled c s) (orig : BitVec 32)
    (h0 : s.recentIpv4Cache.1.1 = orig → s.recentIpv4Cache.1.2 = stateless c orig)
    (h1 : s.recentIpv4Cache.1.1 ≠ orig → s.recentIpv4Cache.2.1 = orig →
      s.recentIpv4Cache.2.2 = stateless c orig) :
    (anonIPv4 c s orig).1 = stateless c orig ∧
      (anonIPv4 c s orig).2.recentIpv4Cache =
        if s.recentIpv4Cache.1.1 = orig then s.recentIpv4Cache
        else ((orig, stateless c orig), s.recentIpv4Cache.1) := by
  split_ifs with hfirst
  · rw [anonIPv4_first hfirst]
    exact ⟨h0 hfirst, rfl⟩
  · by_cases hsecond : s.recentIpv4Cache.2.1 = orig
    · rw [anonIPv4_second hfirst hsecond, h1 hfirst hsecond]
      exact ⟨rfl, rfl⟩
    · exact anonIPv4_miss h orig hfirst hsecond

theorem anonIPv4_inv (hinv : Inv c s) (orig : BitVec 32)
    (hprimed : ZeroPrimed c s (.anonIPv4 orig)) :
    (anonIPv4 c s.caches orig).1 = stateless c orig ∧
      Inv c (s.step c (.anonIPv4 orig)) := by
  obtain ⟨hfilled, hrecent⟩ := hinv
  obtain ⟨seen, caches⟩ := s
  have hfilled' := anonIPv4_filled hfilled orig
  suffices h : (anonIPv4 c caches orig).1 = stateless c orig ∧
      Recent c (orig :: seen) (anonIPv4 c caches orig).2.recentIpv4Cache from
    ⟨h.1, hfilled', h.2⟩
  have hright := anonIPv4_right hfilled orig
  generalize hcache : caches.recentIpv4Cache = recent at hrecent hright
  -- The recent answers are right for `orig` in each case, so only what is left of them differs.
  cases hrecent with
  | @harmless e0 e1 hzero h0 h1 =>
    obtain ⟨hresult, hnew⟩ := hright (fun h => h ▸ h0) fun hne h => by
      obtain h1 | h1 := h1
      · exact h ▸ h1
      · exact absurd (h1.symm.trans h) hne
    refine ⟨hresult, ?_⟩
    rw [hnew]
    split_ifs
    · exact .harmless hzero h0 h1
    · exact .harmless hzero rfl (Or.inl h0)
  | @fresh unset hseen =>
    subst hseen
    by_cases hzero : orig = 0
    · subst hzero
      have hmask := (hprimed rfl).resolve_right (by rintro ⟨a, ha, -⟩; cases ha)
      have hst := stateless_zero hmask
      obtain ⟨hresult, hnew⟩ := hright (fun _ => hst.symm) fun hne => absurd rfl hne
      exact ⟨hresult, hnew ▸ .harmless hmask hst.symm (Or.inr rfl)⟩
    · obtain ⟨hresult, hnew⟩ := hright (fun h => absurd h.symm hzero) fun _ h => absurd h.symm hzero
      rw [if_neg (Ne.symm hzero)] at hnew
      refine ⟨hresult, hnew ▸ .one orig hzero (fun b hb => ?_) (List.mem_singleton_self orig)⟩
      exact List.mem_singleton.mp hb
  | one a ha hseen hmem =>
    by_cases hsame : a = orig
    · subst hsame
      obtain ⟨hresult, hnew⟩ := hright (fun _ => rfl) fun hne => absurd rfl hne
      rw [if_pos rfl] at hnew
      refine ⟨hresult, hnew ▸ .one a ha (fun b hb => ?_) List.mem_cons_self⟩
      exact (List.mem_cons.mp hb).elim id (hseen b)
    · by_cases hzero : orig = 0
      · subst hzero
        have hmask := (hprimed rfl).resolve_right (not_primed_one hseen)
        have hst := stateless_zero hmask
        obtain ⟨hresult, hnew⟩ := hright (fun h => absurd h hsame) fun _ _ => hst.symm
        rw [if_neg hsame] at hnew
        exact ⟨hresult, hnew ▸ .harmless hmask rfl (Or.inl rfl)⟩
      · obtain ⟨hresult, hnew⟩ := hright (fun h => absurd h hsame) fun _ h =>
          absurd h.symm hzero
        rw [if_neg hsame] at hnew
        refine ⟨hresult, hnew ▸ .primed ?_ rfl rfl⟩
        exact ⟨a, List.mem_cons_of_mem _ hmem, orig, List.mem_cons_self, ha, hzero, hsame⟩
  | @primed e0 e1 hseen h0 h1 =>
    obtain ⟨hresult, hnew⟩ := hright (fun h => h ▸ h0) fun _ h => h ▸ h1
    refine ⟨hresult, ?_⟩
    rw [hnew]
    split_ifs
    · exact .primed (hseen.cons orig) h0 h1
    · exact .primed (hseen.cons orig) rfl h0

theorem anonIPv4_zero (hinv : Inv c s) (hmask : encrypt32Bits c 0 0 32 0 ≠ 0)
    (hseen : ¬ Primed s.seen) : (anonIPv4 c s.caches 0).1 = 0 := by
  obtain ⟨-, hrecent⟩ := hinv
  generalize hcache : s.caches.recentIpv4Cache = recent at hrecent
  cases hrecent with
  | harmless hzero => exact absurd hzero hmask
  | fresh => rw [anonIPv4_first (by rw [hcache]), hcache]
  | one a ha => rw [anonIPv4_second (by rw [hcache]; exact ha) (by rw [hcache]), hcache]
  | primed h => exact absurd h hseen

theorem call_iff (hinv : Inv c s) (call : Call) :
    ReturnsStateless c s call ↔ ZeroPrimed c s call := by
  cases call with
  | anonIPv6 orig => exact Iff.rfl
  | anonIPv4 orig =>
    refine ⟨fun hreturns hzero => ?_, fun hprimed => (anonIPv4_inv hinv orig hprimed).1⟩
    subst hzero
    by_contra hbad
    obtain ⟨hmask, hseen⟩ := not_or.mp hbad
    have hreturns : (anonIPv4 c s.caches 0).1 = 0 ^^^ encrypt32Bits c 0 0 32 0 := hreturns
    rw [anonIPv4_zero hinv hmask hseen] at hreturns
    exact hmask (hreturns.trans BitVec.zero_xor).symm

theorem lookupv6Cache_recent (c : CryptoAnon) (s : Caches) (pref : BitVec 64) :
    (lookupv6Cache c s pref).2.recentIpv4Cache = s.recentIpv4Cache := by
  unfold lookupv6Cache
  split <;> rfl

theorem anonIPv6_recent (c : CryptoAnon) (s : Caches) (orig : Block) :
    (anonIPv6 c s orig).2.recentIpv4Cache = s.recentIpv4Cache :=
  (lookupv6Cache_recent c _ _).trans (lookupv6Cache_recent c s _)

theorem step_inv (hinv : Inv c s) (call : Call) (hprimed : ZeroPrimed c s call) :
    Inv c (s.step c call) := by
  cases call with
  | anonIPv4 orig => exact (anonIPv4_inv hinv orig hprimed).2
  | anonIPv6 orig =>
    refine ⟨(anonIPv6_filled hinv.filled orig).2, ?_⟩
    rw [Session.step, anonIPv6_recent]
    exact hinv.recent

theorem start_inv (c : CryptoAnon) (unset : BitVec 32) : Inv c (Session.start unset) :=
  ⟨⟨fun _ _ h => absurd h.symm (Option.some_ne_none _),
    fun _ _ h => absurd h.symm (Option.some_ne_none _)⟩, .fresh rfl⟩

/-- All calls return what a computation without caches returns exactly if the address 0, unless its
mask is 0, comes after two different other addresses. -/
theorem anonIPv4_stateless_iff (c : CryptoAnon) (unset : BitVec 32) (calls : List Call) :
    Schedule.Along (Session.step c) (ReturnsStateless c) (Session.start unset) calls ↔
      Schedule.Along (Session.step c) (ZeroPrimed c) (Session.start unset) calls :=
  Schedule.along_iff (Inv c) (fun _ call hinv => call_iff hinv call)
    (fun _ call hinv hprimed => step_inv hinv call hprimed) (start_inv c unset) calls

def allOnes : CryptoAnon := ⟨fun _ _ => 0xff, fun _ => 0, 20, by decide, by decide⟩

theorem allOnes_zero_first :
    (anonIPv4 allOnes (newCaches 0) 0).1 = 0 ∧
      0 ^^^ encrypt32Bits allOnes 0 0 32 0 = 0xffffffff ∧
      ¬ Schedule.Along (Session.step allOnes) (ReturnsStateless allOnes) (Session.start 0)
        [.anonIPv4 0] := by
  have hstateless : 0 ^^^ encrypt32Bits allOnes 0 0 32 0 = (0xffffffff : BitVec 32) := by
    decide +kernel
  refine ⟨rfl, hstateless, fun h => ?_⟩
  have hfirst : (0 : BitVec 32) = 0 ^^^ encrypt32Bits allOnes 0 0 32 0 := h.1
  exact absurd hfirst (by decide)

end Libtrace.AnonHistory
