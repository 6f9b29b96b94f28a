import Libtrace.ObjectCache
import Mathlib.Algebra.Order.Group.Multiset
import Mathlib.Tactic.Abel

/-! The contract between the object cache and its callers, kept by `libtrace_ocache_alloc` and
`libtrace_ocache_free`. -/

namespace Libtrace.CachePrograms
open Requests ObjectCache

/-- What a thread has in a call: objects, and reserved allocations that it has not used. -/
structure Stake where
  objects : Multiset Nat
  credit : Nat

def objectsOf (snap : Snap) : Multiset Nat := ↑snap.cached + ↑snap.hands

theorem objectsOf_add (snap : Snap) (place : Place) (xs : List Nat) :
    objectsOf (snap.add place xs) = objectsOf snap + ↑xs := by
  cases place with
  | cache => simp only [objectsOf, Snap.add, ← Multiset.coe_add, add_right_comm]
  | hands => simp only [objectsOf, Snap.add, ← Multiset.coe_add, add_assoc]

def contract (cfg : Config) : Contract Op.Ans Stake where
  before op h := h.objects = objectsOf op.snap ∧ match op with
    | .sreadBulk _ _ nb min => min ≤ nb
    | .swriteBulk _ _ values min => min ≤ values.length
    | .alloc _ => cfg.maxAllocations ≠ 0 → 0 < h.credit
    | .fail => False
    | _ => True
  legal op ans := match op, ans with
    | .sreadBulk _ _ nb min, (values : List Nat) => min ≤ values.length ∧ values.length ≤ nb
    | .swriteBulk _ _ values min, (n : Nat) => min ≤ n ∧ n ≤ values.length
    | .reserve _ want, (n : Nat) => n ≤ want
    | _, _ => True
  after op h ans := match op, ans with
    | .sreadBulk _ snap _ _, (values : List Nat) => ⟨objectsOf snap + ↑values, h.credit⟩
    | .swriteBulk _ snap values _, (n : Nat) => ⟨objectsOf snap + ↑(values.drop n), h.credit⟩
    | .reserve _ _, (n : Nat) => ⟨h.objects, h.credit + n⟩
    | .alloc _, (object : Nat) => ⟨h.objects + {object}, h.credit - 1⟩
    | .free snap _, _ => ⟨objectsOf snap, h.credit⟩
    | _, _ => h

variable {cfg : Config} {h : Stake}

section

variable {snap : Snap}

theorem safe_sreadBulk {Q : List Nat → Stake → Prop} {into : Place} {nb min : Nat}
    (hobjects : h.objects = objectsOf snap) (hmin : min ≤ nb)
    (hQ : ∀ values : List Nat, min ≤ values.length → values.length ≤ nb →
      Q values ⟨objectsOf snap + ↑values, h.credit⟩) :
    Safe (contract cfg) Q (sreadBulk into snap nb min) h :=
  safe_request ⟨hobjects, hmin⟩ fun values hlegal => hQ values hlegal.1 hlegal.2

variable {Q : Nat → Stake → Prop}

theorem safe_swriteBulk {source : Place} {values : List Nat} {min : Nat}
    (hobjects : h.objects = objectsOf snap + ↑values) (hmin : min ≤ values.length)
    (hQ : ∀ n, min ≤ n → n ≤ values.length → Q n ⟨objectsOf snap + ↑(values.drop n), h.credit⟩) :
    Safe (contract cfg) Q (swriteBulk source snap values min) h :=
  safe_request ⟨hobjects.trans (objectsOf_add snap source values).symm, hmin⟩
    fun n hlegal => hQ n hlegal.1 hlegal.2

section

variable (hobjects : h.objects = objectsOf snap)
include hobjects

theorem safe_tryAlloc {Q : Bool → Stake → Prop} (hQ : ∀ answer, Q answer h) :
    Safe (contract cfg) Q (tryAlloc snap) h :=
  safe_request ⟨hobjects, trivial⟩ fun answer _ => hQ answer

theorem safe_reserve {want : Nat} (hQ : ∀ n ≤ want, Q n ⟨h.objects, h.credit + n⟩) :
    Safe (contract cfg) Q (reserve snap want) h :=
  safe_request ⟨hobjects, trivial⟩ hQ

theorem safe_alloc (hcredit : cfg.maxAllocations ≠ 0 → 0 < h.credit)
    (hQ : ∀ object, Q object ⟨h.objects + {object}, h.credit - 1⟩) :
    Safe (contract cfg) Q (alloc snap) h :=
  safe_request ⟨hobjects, hcredit⟩ fun object _ => hQ object

end

theorem safe_free {Q : Unit → Stake → Prop} {object : Nat}
    (hobjects : h.objects = objectsOf snap + {object}) (hQ : Q () ⟨objectsOf snap, h.credit⟩) :
    Safe (contract cfg) Q (free snap object) h :=
  safe_request ⟨hobjects.trans (objectsOf_add snap .hands [object]).symm, trivial⟩ fun _ _ => hQ

theorem safe_assertThat {p : Prop} [Decidable p] {Q : Unit → Stake → Prop} (hp : p) (hQ : Q () h) :
    Safe (contract cfg) Q (assertThat p) h := by
  rw [assertThat, if_pos hp]
  exact hQ

end

theorem drop_add_take (xs : List Nat) (n : Nat) :
    (↑(xs.drop n) : Multiset Nat) + ↑(xs.take n) = ↑xs := by
  rw [add_comm, Multiset.coe_add, List.take_append_drop]

section

structure Fetched (cfg : Config) (h : Stake) (got : List Nat) (nb min : Nat)
    (r : List Nat × List Nat) (h' : Stake) : Prop where
  objects : h'.objects = ↑got + ↑r.1 + ↑r.2
  credit : h'.credit = h.credit
  atLeast : min ≤ r.1.length
  atMost : r.1.length ≤ nb
  fits : r.2.length ≤ cfg.threadCacheSize

theorem fillRemaining_spec (nb : Nat) (values cache : List Nat) (hle : values.length ≤ nb) :
    (↑(fillRemaining nb values cache).1 + ↑(fillRemaining nb values cache).2 : Multiset Nat) =
        ↑values + ↑cache ∧
      (fillRemaining nb values cache).1.length = min (values.length + cache.length) nb ∧
      (fillRemaining nb values cache).2.length ≤ cache.length := by
  unfold fillRemaining
  split_ifs with hmore
  · dsimp only
    refine ⟨?_, ?_, ?_⟩
    · rw [← Multiset.coe_add, add_assoc, drop_add_take]
    · rw [List.length_append, List.length_drop]
      omega
    · rw [List.length_take]
      omega
  · refine ⟨rfl, ?_, Nat.le_refl _⟩
    dsimp only
    rcases Nat.lt_or_ge values.length nb with hlt | hge
    · have hempty : cache = [] := by
        by_contra hne
        exact hmore ⟨hlt, hne⟩
      rw [hempty, List.length_nil]
      omega
    · omega

variable {got values cache : List Nat} {nb min : Nat}

theorem safe_fillAndCheck {h' : Stake} (hobjects : h'.objects = ↑got + ↑values + ↑cache)
    (hcredit : h'.credit = h.credit) (hle : values.length ≤ nb)
    (hmin : min ≤ values.length + cache.length) (hnb : min ≤ nb)
    (hfits : cache.length ≤ cfg.threadCacheSize) :
    Safe (contract cfg) (Fetched cfg h got nb min) (fillAndCheck nb min values cache) h' := by
  obtain ⟨hsum, hlength, hcache⟩ := fillRemaining_spec nb values cache hle
  have hmin' : min ≤ (fillRemaining nb values cache).1.length := by omega
  refine safe_bind (safe_assertThat hmin' (safe_pure ⟨?_, hcredit, hmin', by omega, by omega⟩))
  rw [hobjects, add_assoc, ← hsum, add_assoc]

section

variable (hobjects : h.objects = ↑got + ↑cache) (hmin : min ≤ nb)
  (hfits : cache.length ≤ cfg.threadCacheSize)
include hobjects hmin hfits

theorem safe_allocCache :
    Safe (contract cfg) (Fetched cfg h got nb min)
      (allocCache cfg.threadCacheSize got cache nb min) h := by
  unfold allocCache
  split_ifs with henough hlarge
  · refine safe_pure ⟨?_, rfl, ?_, ?_, ?_⟩ <;> dsimp only
    · rw [hobjects, add_assoc, drop_add_take]
    · rw [List.length_drop]
      omega
    · rw [List.length_drop]
      omega
    · rw [List.length_take]
      omega
  · refine safe_bind (safe_sreadBulk (hobjects.trans (add_comm _ _)) hmin fun values hleast hmost =>
      safe_fillAndCheck ?_ rfl hmost (by omega) hmin hfits)
    simp only [objectsOf]
    abel
  · refine safe_bind (safe_sreadBulk ?_ (by omega) fun refill hleast hmost =>
      safe_fillAndCheck ?_ rfl (by omega) (by omega) hmin hmost)
    · simp [hobjects, objectsOf]
    · simp [objectsOf]

theorem safe_fetch :
    Safe (contract cfg) (Fetched cfg h got nb min) (fetch cfg got cache nb min) h := by
  unfold fetch
  split_ifs with hsize
  · exact safe_allocCache hobjects hmin hfits
  · refine safe_bind (safe_sreadBulk (hobjects.trans (add_comm _ _)) hmin fun values hleast hmost =>
      safe_pure ⟨?_, rfl, hleast, hmost, hfits⟩)
    simp only [objectsOf]
    abel

end

theorem safe_allocMany (left : Nat) {h : Stake} (hobjects : h.objects = ↑cache + ↑values)
    (hcredit : cfg.maxAllocations ≠ 0 → left ≤ h.credit) :
    Safe (contract cfg)
      (fun (r : List Nat) h' => h'.objects = ↑cache + ↑r ∧ r.length = values.length + left)
      (allocMany cache left values) h := by
  induction left generalizing values h with
  | zero => exact safe_pure ⟨hobjects, rfl⟩
  | succ left ih =>
    refine safe_bind (safe_alloc hobjects (fun hmax => by have := hcredit hmax; omega)
      fun object => safe_mono (ih ?_ ?_) ?_)
    · rw [hobjects, ← Multiset.coe_add, Multiset.coe_singleton, add_assoc]
    · intro hmax
      change left ≤ h.credit - 1
      omega
    · rintro r h' ⟨hr, hlength⟩
      rw [List.length_append, List.length_singleton] at hlength
      exact ⟨hr, by omega⟩

structure Allocated (cfg : Config) (nb min : Nat) (r : List Nat × List Nat) (h : Stake) :
    Prop where
  objects : h.objects = objectsOf ⟨r.2, r.1⟩
  atLeast : min ≤ r.1.length
  atMost : r.1.length ≤ nb
  fits : r.2.length ≤ cfg.threadCacheSize

section

variable (hobjects : h.objects = ↑cache + ↑values)
include hobjects

theorem safe_checkMin (hmin : min ≤ values.length) (hnb : values.length ≤ nb)
    (hfits : cache.length ≤ cfg.threadCacheSize) :
    Safe (contract cfg) (Allocated cfg nb min) (checkMin min values cache) h :=
  safe_bind (safe_assertThat hmin (safe_pure ⟨hobjects, hmin, hnb, hfits⟩))

theorem safe_reserveUpTo (hnb : values.length ≤ nb) :
    Safe (contract cfg)
      (fun upTo h' => h'.objects = h.objects ∧ values.length ≤ upTo ∧ upTo ≤ nb ∧
        (cfg.maxAllocations ≠ 0 → upTo - values.length ≤ h'.credit))
      (reserveUpTo cfg values cache nb) h := by
  unfold reserveUpTo
  split_ifs with hmax
  · refine safe_bind (safe_reserve hobjects fun n hn => safe_pure ⟨rfl, ?_, ?_, fun _ => ?_⟩)
    · exact Nat.le_add_left _ _
    · omega
    · change n + values.length - values.length ≤ h.credit + n
      omega
  · exact safe_pure ⟨rfl, hnb, Nat.le_refl _, fun h => absurd h hmax⟩

theorem safe_allocRest (hmin : min ≤ nb) (hnb : values.length ≤ nb)
    (hfits : cache.length ≤ cfg.threadCacheSize) :
    Safe (contract cfg) (Allocated cfg nb min) (allocRest cfg values cache nb min) h := by
  refine safe_seq (safe_reserveUpTo hobjects hnb) ?_
  rintro upTo h₁ ⟨hobjects₁, hle, hupTo, hcredit⟩
  refine safe_seq (safe_allocMany (upTo - values.length) (hobjects₁.trans hobjects) hcredit) ?_
  rintro values₁ h₂ ⟨hobjects₂, hlength⟩
  have hlength₁ : values₁.length = upTo := by omega
  refine safe_bind (safe_assertThat hlength₁ ?_)
  split_ifs with hwait
  · refine safe_seq (safe_fetch (hobjects₂.trans (add_comm _ _)) (by omega) hfits) ?_
    intro more h₃ hmore
    have hleast := hmore.atLeast
    have hmost := hmore.atMost
    refine safe_checkMin ?_ ?_ ?_ hmore.fits
    · rw [hmore.objects, ← Multiset.coe_add, add_comm]
    · rw [List.length_append]
      omega
    · rw [List.length_append]
      omega
  · exact safe_checkMin hobjects₂ (by omega) (by omega) hfits

end

theorem safe_ocacheAlloc (hobjects : h.objects = ↑cache) (hmin : min ≤ nb)
    (hmax : cfg.maxAllocations ≠ 0 → nb < cfg.maxAllocations)
    (hfits : cache.length ≤ cfg.threadCacheSize) :
    Safe (contract cfg) (Allocated cfg nb min) (ocacheAlloc cfg cache nb min) h := by
  refine safe_bind (safe_tryAlloc (by simp [hobjects, objectsOf]) fun try_ => ?_)
  refine safe_bind (safe_assertThat hmax ?_)
  have hmin' : (if try_ then 0 else min) ≤ nb := by split <;> omega
  refine safe_seq (safe_fetch (by simp [hobjects]) hmin' hfits) ?_
  intro r h₁ hr
  have hobjects₁ : h₁.objects = ↑r.2 + ↑r.1 := by
    rw [hr.objects, add_comm (↑r.2 : Multiset Nat)]
    simp
  split_ifs with htry
  · exact safe_allocRest hobjects₁ hmin hr.atMost hr.fits
  · refine safe_checkMin hobjects₁ ?_ hr.atMost hr.fits
    have hleast := hr.atLeast
    rwa [if_neg htry] at hleast

end

section

structure Freed (cfg : Config) (values : List Nat) (min : Nat) (r : Nat × List Nat) (h : Stake) :
    Prop where
  objects : h.objects = objectsOf ⟨r.2, values.drop r.1⟩
  atLeast : min ≤ r.1
  atMost : r.1 ≤ values.length
  fits : r.2.length ≤ cfg.threadCacheSize

variable {values cache : List Nat} {min : Nat}

theorem emptyRemaining_freed {i : Nat} (hobjects : h.objects = ↑cache + ↑(values.drop i))
    (hi : i ≤ values.length) (hmin : min ≤ i + (cfg.threadCacheSize - cache.length))
    (hmost : min ≤ values.length) (hfits : cache.length ≤ cfg.threadCacheSize) :
    Freed cfg values min (emptyRemaining cfg.threadCacheSize values cache i) h := by
  unfold emptyRemaining
  split_ifs with hmore
  · refine ⟨?_, ?_, ?_, ?_⟩ <;> dsimp only
    · rw [hobjects, objectsOf, ← Multiset.coe_add, add_assoc, ← List.drop_drop]
      rw [add_comm (↑((values.drop i).take _) : Multiset Nat), drop_add_take]
    · omega
    · omega
    · rw [List.length_append, List.length_take, List.length_drop]
      omega
  · refine ⟨hobjects, ?_, hi, hfits⟩
    omega

section

variable (hobjects : h.objects = ↑cache + ↑values) (hmin : min ≤ values.length)
  (hfits : cache.length ≤ cfg.threadCacheSize)
include hobjects hmin hfits

theorem safe_freeCache :
    Safe (contract cfg) (Freed cfg values min)
      (freeCache cfg.threadCacheSize cache values min) h := by
  unfold freeCache
  split_ifs with hroom hlarge
  · refine safe_pure ⟨?_, hmin, Nat.le_refl _, ?_⟩ <;> dsimp only
    · simp [hobjects, objectsOf]
    · rw [List.length_append]
      omega
  · refine safe_bind (safe_swriteBulk ?_ hmin fun i hleast hmost => safe_pure
      (emptyRemaining_freed ?_ hmost (by omega) hmin hfits))
    · simp [hobjects, objectsOf]
    · simp [objectsOf]
  · have htake : (values.take (cfg.threadCacheSize - cache.length)).length =
        cfg.threadCacheSize - cache.length := by
      rw [List.length_take]
      omega
    refine safe_bind (safe_swriteBulk ?_ ?_ fun written hleast hmost => safe_pure
      (emptyRemaining_freed ?_ (by omega) ?_ hmin ?_))
    · rw [hobjects, objectsOf, ← Multiset.coe_add, Multiset.coe_nil, zero_add,
        ← drop_add_take values (cfg.threadCacheSize - cache.length)]
      abel
    · rw [List.length_append, htake]
      omega
    · simp [objectsOf, add_comm]
    · rw [List.length_drop, List.length_append, htake]
      omega
    · rw [List.length_drop, List.length_append, htake]
      omega

theorem safe_putBack :
    Safe (contract cfg) (Freed cfg values min) (putBack cfg cache values min) h := by
  unfold putBack
  split_ifs with hsize
  · exact safe_freeCache hobjects hmin hfits
  · refine safe_bind (safe_swriteBulk ?_ hmin fun i hleast hmost =>
      safe_pure ⟨?_, hleast, hmost, hfits⟩)
    · simp [hobjects, objectsOf]
    · simp [objectsOf]

end

theorem safe_freeMany (left : Nat) {i : Nat} {h : Stake}
    (hobjects : h.objects = ↑cache + ↑(values.drop i)) (hi : i + left ≤ values.length) :
    Safe (contract cfg) (fun r h' => h'.objects = ↑cache + ↑(values.drop r) ∧ r = i + left)
      (freeMany cache values left i) h := by
  induction left generalizing i h with
  | zero => exact safe_pure ⟨hobjects, rfl⟩
  | succ left ih =>
    have hlt : i < values.length := by omega
    rw [freeMany, List.getElem?_eq_getElem hlt]
    refine safe_bind (safe_free ?_ (safe_mono (ih rfl (by omega)) ?_))
    · rw [hobjects, List.drop_eq_getElem_cons hlt, ← Multiset.cons_coe, ← Multiset.singleton_add,
        objectsOf]
      abel
    · rintro r h' ⟨hr, hlength⟩
      exact ⟨hr, by omega⟩

theorem safe_ocacheFree (hobjects : h.objects = ↑cache + ↑values) (hmin : min ≤ values.length)
    (hmax : cfg.maxAllocations ≠ 0 → values.length < cfg.maxAllocations)
    (hfits : cache.length ≤ cfg.threadCacheSize) :
    Safe (contract cfg) (Freed cfg values min) (ocacheFree cfg cache values min) h := by
  have hmin' : (if cfg.maxAllocations ≠ 0 then min else 0) ≤ values.length := by split <;> omega
  refine safe_bind (safe_assertThat hmax (safe_seq (safe_putBack hobjects hmin' hfits) ?_))
  intro r h₁ hr
  have hleast := hr.atLeast
  have hmost := hr.atMost
  split_ifs with hlimit
  · rw [if_pos hlimit] at hleast
    exact safe_pure ⟨hr.objects, hleast, hmost, hr.fits⟩
  · refine safe_seq (safe_freeMany (min - r.1) hr.objects (by omega)) ?_
    rintro i h₂ ⟨hi, hlength⟩
    refine safe_pure ⟨hi, ?_, ?_, hr.fits⟩ <;> dsimp only
    · omega
    · omega

end

end Libtrace.CachePrograms
