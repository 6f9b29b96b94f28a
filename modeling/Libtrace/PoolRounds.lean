import Libtrace.CachePool

/-! Bulk writes of threads that have as much room in the ring as they have objects. -/

namespace Libtrace.PoolRounds
open Requests ObjectCache CachePrograms CacheThreads CacheConservation CacheSafety CachePool

variable {τ ρ : Type} {cfg : Config}

section

variable {values : List Nat} {min : Nat}

theorem length_le_of_writes {act : Activity} (hw : Writes act values min) :
    values.length ≤ (objectsOf act.snap).card := by
  cases hw <;>
  · simp only [Activity.snap, callSnap, Op.snap]
    rw [objectsOf_add, Multiset.card_add, Multiset.coe_card]
    omega

theorem min_le_of_writes {th : Thread} {credit : Nat} (hsound : Sound cfg th credit)
    (hw : Writes th.activity values min) : min ≤ values.length := by
  obtain ⟨cache, hands, activity⟩ := th
  cases hw with
  | allocating | freeing => exact hsound.2.1.2

variable [Fintype τ] {s : State τ} {credit : τ → Nat}

theorem books_room (hbooks : Books cfg s credit) (hlimit : cfg.limitSize = true) (t : τ) :
    s.shared.ring.length + (threadObjects (s.threads t)).card ≤ cfg.bufferSize := by
  have hcard := congrArg Multiset.card hbooks.objects
  rw [Multiset.card_add, Multiset.card_add, Multiset.card_sum, Multiset.card_range,
    Multiset.coe_card, Multiset.coe_card] at hcard
  have hle : (threadObjects (s.threads t)).card ≤ ∑ u, (threadObjects (s.threads u)).card :=
    Finset.single_le_sum (f := fun u => (threadObjects (s.threads u)).card)
      (fun _ _ => Nat.zero_le _) (Finset.mem_univ t)
  have hmade := books_limited hbooks hlimit
  omega

theorem room_of_conserved (hconserved : Conserved cfg s) (hlimit : cfg.limitSize = true) {t : τ}
    (hw : Writes (s.threads t).activity values min) :
    min ≤ values.length ∧ values.length ≤ cfg.bufferSize - s.shared.ring.length := by
  obtain ⟨credit, hbooks⟩ := hconserved
  have hroom := books_room hbooks hlimit t
  have hlength := length_le_of_writes hw
  rw [threadObjects_eq, Multiset.card_add] at hroom
  exact ⟨min_le_of_writes (hbooks.sound t) hw, by omega⟩

end

section

variable [DecidableEq τ] {s : Shared τ} {values : List Nat} {min : Nat}

theorem writeRound_room (t : τ) (source : Place) (snap : Snap) (k : Nat → Call ρ)
    (hfree : s.writer = none) (hmin : min ≤ values.length)
    (hroom : values.length ≤ cfg.bufferSize - s.ring.length) :
    writeRound cfg t s source snap values min k =
      ({ s with ring := s.ring ++ values, writer := none }, k values.length) := by
  have hall : Nat.min (cfg.bufferSize - s.ring.length) values.length = values.length :=
    Nat.min_eq_right hroom
  rw [writeRound, if_neg (fun h => h.1 hfree), if_neg (Nat.not_lt.mpr hmin)]
  dsimp only
  rw [hall, List.take_length, if_neg (Nat.not_lt.mpr hmin)]
  split_ifs with hfull hnone
  · -- the ring is full, and there is nothing to write
    have hempty : values = [] := List.length_eq_zero_iff.mp (by omega)
    rw [hempty, List.append_nil, List.length_nil]
  · omega
  · rfl

theorem readRound_writer (t : τ) (s : Shared τ) (into : Place) (snap : Snap) (nb min : Nat)
    (k : List Nat → Call ρ) : (readRound t s into snap nb min k).1.writer = s.writer := by
  unfold readRound
  dsimp only
  split_ifs <;> rfl

theorem advance_writer (t : τ) (op : Op) (k : op.Ans → Call ρ) (hfree : s.writer = none)
    (hroom : ∀ source snap values min, op = .swriteBulk source snap values min →
      min ≤ values.length ∧ values.length ≤ cfg.bufferSize - s.ring.length) :
    (advance cfg t s op k).1.writer = none := by
  cases op with
  | sreadBulk into snap nb min =>
    exact (readRound_writer t s into snap nb min k).trans hfree
  | swriteBulk source snap values min =>
    obtain ⟨hmin, hlength⟩ := hroom source snap values min rfl
    exact congrArg (·.1.writer) (writeRound_room t source snap k hfree hmin hlength)
  | _ => exact hfree

theorem run_writer {th : Thread} (t : τ) (hfree : s.writer = none)
    (hroom : ∀ values min, Writes th.activity values min →
      min ≤ values.length ∧ values.length ≤ cfg.bufferSize - s.ring.length) :
    (th.run cfg t s).1.writer = none := by
  obtain ⟨cache, hands, activity⟩ := th
  match activity with
  | .idle => exact hfree
  | .allocating _ _ (.ret _) => exact hfree
  | .freeing _ _ (.ret _) => exact hfree
  | .allocating _ _ (.ask op k) =>
    refine advance_writer t op k hfree ?_
    rintro source snap values min rfl
    exact hroom values min .allocating
  | .freeing _ _ (.ask op k) =>
    refine advance_writer t op k hfree ?_
    rintro source snap values min rfl
    exact hroom values min .freeing

theorem writeRound_ring (t : τ) (source : Place) (snap : Snap) (k : Nat → Call ρ)
    (hfree : s.writer = none) (hmin : min ≤ values.length)
    (hroom : values.length ≤ cfg.bufferSize - s.ring.length) :
    (writeRound cfg t s source snap values min k).1.ring = s.ring ++ values := by
  rw [writeRound_room t source snap k hfree hmin hroom]

theorem run_writes {th : Thread} (t : τ) (hfree : s.writer = none)
    (hw : Writes th.activity values min) (hmin : min ≤ values.length)
    (hroom : values.length ≤ cfg.bufferSize - s.ring.length) :
    (th.run cfg t s).1.ring = s.ring ++ values := by
  obtain ⟨cache, hands, activity⟩ := th
  cases hw with
  | allocating | freeing => exact writeRound_ring t _ _ _ hfree hmin hroom

end

section

theorem safe_freeAll {credit : Nat} (cache : List Nat) :
    Safe (contract cfg) (fun _ h => h.objects = 0) (freeAll cache) ⟨↑cache, credit⟩ := by
  induction cache with
  | nil => exact safe_pure rfl
  | cons object rest ih =>
    refine safe_bind (safe_free ?_ ?_)
    · rw [objectsOf, Multiset.coe_nil, add_zero, ← Multiset.cons_coe, ← Multiset.singleton_add,
        add_comm]
    · rw [objectsOf, Multiset.coe_nil, add_zero]
      exact ih

theorem safe_giveBack {credit : Nat} (cache : List Nat) :
    Safe (contract cfg) (Freed cfg cache cache.length) (giveBack cfg cache) ⟨↑cache, credit⟩ := by
  unfold giveBack
  split_ifs with hmax
  · refine safe_bind (safe_swriteBulk ?_ (Nat.le_refl _) fun n hleast hmost =>
      safe_pure ⟨?_, hleast, hmost, Nat.zero_le _⟩)
    · simp [objectsOf]
    · simp [objectsOf]
  · refine safe_seq (safe_freeAll cache) fun _ h hobjects =>
      safe_pure ⟨?_, Nat.le_refl _, Nat.le_refl _, Nat.zero_le _⟩
    simp [hobjects, objectsOf]

def Emptying : Activity → Prop
  | .freeing _ _ task => Always (fun r => r.2 = []) task
  | _ => False

theorem emptying_giveBack (cache : List Nat) :
    Emptying (.freeing cache cache.length (giveBack cfg cache)) := by
  unfold giveBack
  split_ifs
  · exact fun _ => rfl
  · exact always_bind _ fun _ => rfl

theorem advance_always [DecidableEq τ] {P : ρ → Prop} (t : τ) (s : Shared τ) (op : Op)
    (k : op.Ans → Call ρ) (hk : ∀ ans, Always P (k ans)) : Always P (advance cfg t s op k).2 := by
  cases op with
  | sreadBulk into snap nb min =>
    simp only [advance, readRound]
    split_ifs
    · exact hk
    · exact fun ans => ans.elim
    · exact hk []
    · exact hk
    · exact fun more => hk _
    · exact hk _
  | swriteBulk source snap values min =>
    simp only [advance, writeRound]
    split_ifs
    · exact hk
    · exact fun ans => ans.elim
    · exact hk (0 : Nat)
    · exact hk
    · exact fun more => hk _
    · exact hk _
  | fail => exact hk
  | _ => exact hk _

end

end Libtrace.PoolRounds
