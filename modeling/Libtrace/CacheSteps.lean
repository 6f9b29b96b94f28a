import Libtrace.CachePrograms
import Libtrace.CacheThreads
import Mathlib.Data.Multiset.Range

/-! What one step of a call does, if the call keeps its contract. -/

namespace Libtrace.CacheSteps
open Requests ObjectCache CachePrograms CacheThreads

variable {τ ρ : Type} {cfg : Config} {h : Stake}

structure Moves (cfg : Config) (s s' : Shared τ) (h h' : Stake) : Prop where
  objects : (↑s'.ring + h'.objects + ↑s'.destroyed + Multiset.range s.made : Multiset Nat) =
    ↑s.ring + h.objects + ↑s.destroyed + Multiset.range s'.made
  reserved : cfg.maxAllocations ≠ 0 → s'.made + h'.credit + s.currentAllocations ≤
    s.made + h.credit + s'.currentAllocations
  limit : s.currentAllocations ≤ cfg.maxAllocations →
    s'.currentAllocations ≤ cfg.maxAllocations

theorem moves_frame {s s' : Shared τ} {objects objects' : Multiset Nat} {credit credit' : Nat}
    (hmoves : Moves cfg s s' ⟨objects, credit⟩ ⟨objects', credit'⟩) (extra : Multiset Nat) :
    Moves cfg s s' ⟨extra + objects, credit⟩ ⟨extra + objects', credit'⟩ := by
  refine ⟨?_, hmoves.reserved, hmoves.limit⟩
  have hobjects := hmoves.objects
  dsimp only at hobjects ⊢
  calc
    _ = extra + (↑s'.ring + objects' + ↑s'.destroyed + Multiset.range s.made) := by abel
    _ = extra + (↑s.ring + objects + ↑s.destroyed + Multiset.range s'.made) := by
      rw [hobjects]
    _ = _ := by abel

def Keeps (cfg : Config) (Q : ρ → Stake → Prop) (s : Shared τ) (h : Stake)
    (next : Shared τ × Call ρ) : Prop :=
  ∃ h', Safe (contract cfg) Q next.2 h' ∧ Moves cfg s next.1 h h'

theorem moves_refl (s : Shared τ) (h : Stake) : Moves cfg s s h h :=
  ⟨rfl, fun _ => Nat.le_refl _, id⟩

variable [DecidableEq τ] {Q : ρ → Stake → Prop}

theorem readRound_keeps (t : τ) (s : Shared τ) (into : Place) (snap : Snap) (nb min : Nat)
    (k : List Nat → Call ρ)
    (hsafe : Safe (contract cfg) Q (.ask (.sreadBulk into snap nb min) k) h) :
    Keeps cfg Q s h (readRound t s into snap nb min k) := by
  obtain ⟨⟨hobjects, hmin⟩, hk⟩ := hsafe
  have hobjects : h.objects = objectsOf snap := hobjects
  have hk : ∀ values : List Nat, min ≤ values.length ∧ values.length ≤ nb →
    Safe (contract cfg) Q (k values) ⟨objectsOf snap + ↑values, h.credit⟩ := hk
  have hsame : Safe (contract cfg) Q (.ask (.sreadBulk into snap nb min) k) h :=
    ⟨⟨hobjects, hmin⟩, hk⟩
  rw [readRound, if_neg (Nat.not_lt.mpr hmin)]
  dsimp only
  split_ifs with hlocked hempty hnone hshort
  · exact ⟨h, hsame, moves_refl s h⟩
  · refine ⟨_, hk [] ⟨by rw [hnone]; exact Nat.zero_le _, Nat.zero_le _⟩, ?_,
      fun _ => Nat.le_refl _, id⟩
    rw [hobjects, Multiset.coe_nil, add_zero]
  · exact ⟨h, hsame, rfl, fun _ => Nat.le_refl _, id⟩
  · have htaken : (s.ring.take nb).length ≤ nb := List.length_take_le nb s.ring
    refine ⟨⟨objectsOf (snap.add into (s.ring.take nb)), h.credit⟩,
      ⟨⟨rfl, Nat.sub_le_sub_right hmin _⟩, fun (more : List Nat) hmore => ?_⟩, ?_,
      fun _ => Nat.le_refl _, id⟩
    · have hmore : min - (s.ring.take nb).length ≤ more.length ∧
          more.length ≤ nb - (s.ring.take nb).length := hmore
      have hall := hk (s.ring.take nb ++ more) (by rw [List.length_append]; omega)
      rw [← Multiset.coe_add, ← add_assoc, ← objectsOf_add snap into] at hall
      exact hall
    · dsimp only
      rw [objectsOf_add, hobjects, add_comm (objectsOf snap), ← add_assoc, drop_add_take]
  · refine ⟨_, hk (s.ring.take nb) ⟨Nat.not_lt.mp hshort, List.length_take_le nb s.ring⟩, ?_,
      fun _ => Nat.le_refl _, id⟩
    rw [hobjects, add_comm (objectsOf snap), ← add_assoc, drop_add_take]

theorem writeRound_keeps (t : τ) (s : Shared τ) (source : Place) (snap : Snap)
    (values : List Nat) (min : Nat) (k : Nat → Call ρ)
    (hsafe : Safe (contract cfg) Q (.ask (.swriteBulk source snap values min) k) h) :
    Keeps cfg Q s h (writeRound cfg t s source snap values min k) := by
  obtain ⟨⟨hobjects, hmin⟩, hk⟩ := hsafe
  have hobjects : h.objects = objectsOf (snap.add source values) := hobjects
  have hk : ∀ n : Nat, min ≤ n ∧ n ≤ values.length →
    Safe (contract cfg) Q (k n) ⟨objectsOf snap + ↑(values.drop n), h.credit⟩ := hk
  have hsame : Safe (contract cfg) Q (.ask (.swriteBulk source snap values min) k) h :=
    ⟨⟨hobjects, hmin⟩, hk⟩
  rw [objectsOf_add] at hobjects
  rw [writeRound, if_neg (Nat.not_lt.mpr hmin)]
  dsimp only
  have hput (n : Nat) : (↑(s.ring ++ values.take n) + (objectsOf snap + ↑(values.drop n)) +
      ↑s.destroyed + Multiset.range s.made : Multiset Nat) =
      ↑s.ring + h.objects + ↑s.destroyed + Multiset.range s.made := by
    rw [hobjects, ← Multiset.coe_add, ← drop_add_take values n]
    abel
  split_ifs with hlocked hfull hnone hshort
  · exact ⟨h, hsame, moves_refl s h⟩
  · refine ⟨_, hk 0 ⟨by rw [hnone], Nat.zero_le _⟩, ?_, fun _ => Nat.le_refl _, id⟩
    rw [hobjects, List.drop_zero]
  · exact ⟨h, hsame, rfl, fun _ => Nat.le_refl _, id⟩
  · have hn : Nat.min (cfg.bufferSize - s.ring.length) values.length ≤ values.length :=
      Nat.min_le_right _ _
    generalize Nat.min (cfg.bufferSize - s.ring.length) values.length = n at hshort hn ⊢
    refine ⟨⟨objectsOf snap + ↑(values.drop n), h.credit⟩,
      ⟨⟨(objectsOf_add snap source (values.drop n)).symm, ?_⟩, fun (more : Nat) hmore => ?_⟩,
      hput n, fun _ => Nat.le_refl _, id⟩
    · show min - n ≤ (values.drop n).length
      rw [List.length_drop]
      exact Nat.sub_le_sub_right hmin _
    · have hmore : min - n ≤ more ∧ more ≤ (values.drop n).length := hmore
      rw [List.length_drop] at hmore
      have hall := hk (n + more) (by omega)
      rw [← List.drop_drop] at hall
      exact hall
  · exact ⟨_, hk _ ⟨Nat.not_lt.mp hshort, Nat.min_le_right _ _⟩, hput _, fun _ => Nat.le_refl _, id⟩

theorem advance_keeps (t : τ) (s : Shared τ) (op : Op) (k : op.Ans → Call ρ)
    (hsafe : Safe (contract cfg) Q (.ask op k) h) : Keeps cfg Q s h (advance cfg t s op k) := by
  cases op with
  | sreadBulk into snap nb min => exact readRound_keeps t s into snap nb min k hsafe
  | swriteBulk source snap values min => exact writeRound_keeps t s source snap values min k hsafe
  | tryAlloc snap => exact ⟨h, hsafe.2 _ trivial, moves_refl s h⟩
  | reserve snap want =>
    refine ⟨_, hsafe.2 _ (Nat.min_le_right _ _), rfl, fun _ => ?_, fun hle => ?_⟩
    · exact Nat.le_of_eq (by simp only [advance, contract]; omega)
    · have hn : Nat.min (cfg.maxAllocations - s.currentAllocations) want ≤
        cfg.maxAllocations - s.currentAllocations := Nat.min_le_left _ _
      simp only [advance]
      omega
  | alloc snap =>
    refine ⟨_, hsafe.2 s.made trivial, ?_, fun hmax => ?_, id⟩
    · simp only [advance, contract, Multiset.range_succ, ← Multiset.singleton_add]
      abel
    · have hcredit := hsafe.1.2 hmax
      simp only [advance, contract]
      omega
  | free snap object =>
    refine ⟨_, hsafe.2 () trivial, ?_, fun _ => Nat.le_refl _, id⟩
    have hobjects : h.objects = objectsOf (snap.add .hands [object]) := hsafe.1.1
    simp only [advance, contract, hobjects, objectsOf_add, ← Multiset.coe_add]
    abel
  | fail => exact absurd hsafe.1.2 not_false

end Libtrace.CacheSteps
