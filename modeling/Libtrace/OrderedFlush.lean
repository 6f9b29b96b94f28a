import Libtrace.OrderedRounds
import Mathlib.Data.List.Sort

/-! Publishing everything and then calling `read_final`, in a parallel trace: what ticks change
about the order of the results. -/

namespace Libtrace.OrderedFlush
open Exec CombinerOrdered OrderedMerge OrderedRuns OrderedRounds

variable {n : Nat}

theorem runCalls_publish (parallel : Bool) (ps : List (Fin n × Result)) (w : World n) :
    runCalls parallel (ps.map Call.publish) w = .ok ((), ps.foldl publish w) := by
  induction ps generalizing w with
  | nil => rfl
  | cons p ps ih => exact ih (publish w p)

def flush {n : Nat} (ps : List (Fin n × Result)) : Reader n Unit := run true (ps.map Call.publish)

theorem flush_spec (hn : 0 < n) (ps : List (Fin n × Result))
    (hinc : Increasing fun i => resultsOf i ps) :
    Spec (flush ps) (initCombiner n)
      (fun _ w => (∀ j, ¬ Alone (fun i => resultsOf i ps) j) ∧
        (delivered w).Pairwise (Before fun i => resultsOf i ps) ∧
        ∀ i, resultsOf i (delivered w) = nonTicks (resultsOf i ps))
      (fun _ => ∃ j, Alone (fun i => resultsOf i ps) j) := by
  set streams : Fin n → List Result := fun i => resultsOf i ps with hstreams
  let K := fun w : World n => ∃ k, Round streams k w ∧
    (∀ j, Alone streams j → k ≤ leadTicks (streams j)) ∧ ∀ i, account w i = nonTicks (streams i)
  have hcalls : Spec (runCalls true (ps.map Call.publish)) (initCombiner n)
      (fun _ w => w.arriving = [] ∧ K w) (fun _ => ∃ j, Alone streams j) := by
    unfold Spec
    rw [runCalls_publish, foldl_publish]
    simp only [initCombiner, List.nil_append]
    refine ⟨trivial, 0, ⟨⟨fun i => List.suffix_rfl, by simp [delivered], by simp [delivered]⟩,
      fun i _ => rfl, fun i _ => rfl⟩, fun _ _ => Nat.zero_le _, fun i => ?_⟩
    simp [account, World.toCome, streams]
  refine spec_seq hcalls ?_
  rintro - w ⟨ha, hK⟩
  refine spec_mono (readFinal_spec hn true K ?_ ?_ w ha hK) ?_ fun _ he => he
  · rintro w s st w' ⟨k, hround, halone, hacc⟩ ha hgo - ret
    refine ⟨k + 1, round_pass hinc hround ha ret, fun j hj => ?_,
      fun i => (steps_account ret.steps i).trans (hacc i)⟩
    have hne : leadTicks (streams j) ≠ k := fun hk =>
      hgo ((round_stuck hinc hround).mpr ⟨j, hj, hk⟩)
    have := halone j hj
    omega
  · rintro w ⟨k, hround, -, -⟩ - hstuck
    obtain ⟨j, hj, -⟩ := (round_stuck hinc hround).mp hstuck
    exact ⟨j, hj⟩
  · rintro - w' ⟨⟨k, hround, halone, hacc⟩, harr, hempty⟩
    refine ⟨fun j hj => ?_, hround.sifted.ordered, fun i => ?_⟩
    · have hwhole := hround.whole j (halone j hj)
      obtain ⟨-, ⟨r, hr, -⟩, -⟩ := hj
      simp [hempty j, hr] at hwhole
    · have h := hacc i
      simpa [account, World.toCome, hempty i, harr, ← resultsOf_delivered] using h

def withoutTicks {n : Nat} (ps : List (Fin n × Result)) : List (Fin n × Result) :=
  ps.filter fun p => !p.2.isTick

/-- Both flushes return, and the results go out in the same order, by increasing key. -/
def SameOrder {n : Nat} (ps : List (Fin n × Result)) : Prop :=
  ∃ w w', flush ps (initCombiner n) = .ok ((), w) ∧
    flush (withoutTicks ps) (initCombiner n) = .ok ((), w') ∧
    (delivered w).map Prod.snd = (delivered w').map Prod.snd ∧
    ((delivered w).map fun p => p.2.key).Pairwise (· < ·)

theorem resultsOf_withoutTicks (ps : List (Fin n × Result)) (i : Fin n) :
    resultsOf i (withoutTicks ps) = nonTicks (resultsOf i ps) :=
  resultsOf_delivered ⟨fun _ => [], 0, 0, ps, []⟩ i

theorem eq_of_increasing {xs ys : List (Fin n × Result)}
    (hx : (xs.map fun p => p.2.key).Pairwise (· < ·))
    (hy : (ys.map fun p => p.2.key).Pairwise (· < ·)) (h : ∀ i, resultsOf i xs = resultsOf i ys) :
    xs = ys := by
  rw [List.pairwise_map] at hx hy
  have nodup : ∀ {zs : List (Fin n × Result)},
      zs.Pairwise (fun p q => p.2.key < q.2.key) → zs.Nodup := fun hz =>
    hz.imp fun hlt he => absurd (he ▸ hlt) (lt_irrefl _)
  have hperm : xs.Perm ys := by
    refine (List.perm_ext_iff_of_nodup (nodup hx) (nodup hy)).mpr fun ⟨i, r⟩ => ?_
    rw [← mem_resultsOf, ← mem_resultsOf, h i]
  exact hperm.eq_of_pairwise (fun a b _ _ hab hba => absurd hba hab.asymm) hx hy

theorem nonTicks_idem (q : List Result) : nonTicks (nonTicks q) = nonTicks q := by
  simp [nonTicks]

theorem leadTicks_nonTicks (q : List Result) : leadTicks (nonTicks q) = 0 := by
  cases hq : nonTicks q with
  | nil => rfl
  | cons r q' =>
    exact leadTicks_result (mem_nonTicks.mp (hq ▸ List.mem_cons_self : r ∈ nonTicks q)).2 q'

theorem increasing_withoutTicks {ps : List (Fin n × Result)}
    (h : Increasing fun i => resultsOf i ps) :
    Increasing fun i => resultsOf i (withoutTicks ps) := by
  have hnon : ∀ i, nonTicks (resultsOf i (withoutTicks ps)) = nonTicks (resultsOf i ps) :=
    fun i => by rw [resultsOf_withoutTicks, nonTicks_idem]
  exact ⟨fun i => by rw [hnon]; exact h.positive i, fun i => by rw [hnon]; exact h.sorted i,
    fun i j => by rw [hnon, hnon]; exact h.apart i j⟩

theorem alone_of_withoutTicks {ps : List (Fin n × Result)} {j : Fin n}
    (h : Alone (fun i => resultsOf i (withoutTicks ps)) j) : Alone (fun i => resultsOf i ps) j := by
  obtain ⟨h0, hr, hothers⟩ := h
  simp only [resultsOf_withoutTicks, nonTicks_idem, leadTicks_nonTicks] at hr hothers
  exact ⟨h0, hr, fun i hij hne => absurd rfl (hothers i hij hne)⟩

theorem increasing_of_separated {streams : Fin n → List Result} {w : World n}
    (hsep : Separated streams) (hordered : (delivered w).Pairwise (Before streams))
    (hres : ∀ i, resultsOf i (delivered w) = nonTicks (streams i)) :
    ((delivered w).map fun p => p.2.key).Pairwise (· < ·) := by
  rw [List.pairwise_map]
  refine hordered.imp_of_mem fun {p q} hp hq hpq => ?_
  rcases hpq with hlead | ⟨-, hlt⟩
  · refine hsep p.1 q.1 hlead p.2 ?_ q.2 ?_
    · rw [← hres]
      exact mem_resultsOf.mpr hp
    · rw [← hres]
      exact mem_resultsOf.mpr hq
  · exact hlt

theorem separated_of_increasing {streams : Fin n → List Result} {w : World n}
    (hkeys : ((delivered w).map fun p => p.2.key).Pairwise (· < ·))
    (hordered : (delivered w).Pairwise (Before streams))
    (hres : ∀ i, resultsOf i (delivered w) = nonTicks (streams i)) : Separated streams := by
  intro i j hlead r hr x hx
  have hri : (i, r) ∈ delivered w := mem_resultsOf.mp (by rw [hres]; exact hr)
  have hxj : (j, x) ∈ delivered w := mem_resultsOf.mp (by rw [hres]; exact hx)
  obtain ⟨a, ha, hra⟩ := List.getElem_of_mem hri
  obtain ⟨b, hb, hxb⟩ := List.getElem_of_mem hxj
  rw [List.pairwise_map, List.pairwise_iff_getElem] at hkeys
  rw [List.pairwise_iff_getElem] at hordered
  rcases Nat.lt_trichotomy a b with hab | rfl | hba
  · have hlt := hkeys a b ha hb hab
    rwa [hra, hxb] at hlt
  · rw [hra, Prod.mk.injEq] at hxb
    rw [hxb.1] at hlead
    exact absurd hlead (lt_irrefl _)
  · have hback := hordered b a hb ha hba
    rw [hra, hxb] at hback
    rcases hback with hback | ⟨hback, -⟩
    · exact absurd hback hlead.asymm
    · exact absurd hback hlead.ne'

/-- Ticks leave the order alone exactly when the threads are separated by their leading ticks, and
no pass is left to a single `UINT64_MAX`. -/
theorem sameOrder_iff {n : Nat} (hn : 0 < n) (ps : List (Fin n × Result))
    (hinc : Increasing fun i => resultsOf i ps) :
    SameOrder ps ↔ Separated (fun i => resultsOf i ps) ∧
      ∀ j, ¬ Alone (fun i => resultsOf i ps) j := by
  have hspec := flush_spec hn ps hinc
  have hplain := flush_spec hn (withoutTicks ps) (increasing_withoutTicks hinc)
  constructor
  · rintro ⟨w, w', hw, -, -, hkeys⟩
    obtain ⟨halone, hordered, hres⟩ := spec_ok hspec hw
    exact ⟨separated_of_increasing hkeys hordered hres, halone⟩
  · rintro ⟨hsep, halone⟩
    obtain ⟨⟨⟩, w, hw, -, hordered, hres⟩ :=
      spec_total (spec_mono hspec (fun _ _ h => h) fun _ ⟨j, hj⟩ => halone j hj)
    obtain ⟨⟨⟩, w', hw', -, hordered', hres'⟩ := spec_total
      (spec_mono hplain (fun _ _ h => h) fun _ ⟨j, hj⟩ => halone j (alone_of_withoutTicks hj))
    have hkeys := increasing_of_separated hsep hordered hres
    have hsep' : Separated fun i => resultsOf i (withoutTicks ps) := by
      intro i j hlead
      simp [resultsOf_withoutTicks, leadTicks_nonTicks] at hlead
    have hkeys' := increasing_of_separated hsep' hordered' hres'
    refine ⟨w, w', hw, hw', congrArg _ (eq_of_increasing hkeys hkeys' fun i => ?_), hkeys⟩
    rw [hres, hres', resultsOf_withoutTicks, nonTicks_idem]

theorem sameOrder_iff_led :
    SameOrder [((0 : Fin 2), ⟨9, 0, .tickInterval⟩), (0, ⟨3, 0, .packet⟩), (1, ⟨2, 0, .packet⟩)] ↔
      Separated (fun i : Fin 2 => resultsOf i
        [(0, ⟨9, 0, .tickInterval⟩), (0, ⟨3, 0, .packet⟩), (1, ⟨2, 0, .packet⟩)]) ∧
      ∀ j, ¬ Alone (fun i : Fin 2 => resultsOf i
        [(0, ⟨9, 0, .tickInterval⟩), (0, ⟨3, 0, .packet⟩), (1, ⟨2, 0, .packet⟩)]) j :=
  sameOrder_iff (by decide) _ ⟨by decide, by decide, by decide⟩

/-- A tick in front of the smallest key: it goes out last. -/
theorem sameOrder_fails :
    Increasing (fun i : Fin 2 => resultsOf i
        [(0, ⟨5, 0, .tickInterval⟩), (0, ⟨1, 0, .packet⟩), (1, ⟨2, 0, .packet⟩)]) ∧
      ¬ SameOrder [((0 : Fin 2), ⟨5, 0, .tickInterval⟩), (0, ⟨1, 0, .packet⟩),
        (1, ⟨2, 0, .packet⟩)] := by
  refine ⟨⟨by decide, by decide, by decide⟩, ?_⟩
  rintro ⟨w, -, hw, -, -, hkeys⟩
  have hsent : (flush [((0 : Fin 2), ⟨5, 0, .tickInterval⟩), (0, ⟨1, 0, .packet⟩),
      (1, ⟨2, 0, .packet⟩)] (initCombiner 2)).map (fun p => (delivered p.2).map fun q => q.2.key) =
        .ok [2, 1] := by decide +kernel
  rw [hw] at hsent
  simp only [Except.map, Except.ok.injEq] at hsent
  rw [hsent] at hkeys
  exact absurd hkeys (by decide)

end Libtrace.OrderedFlush
