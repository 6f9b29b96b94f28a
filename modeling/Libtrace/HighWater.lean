import Mathlib.Data.List.Pairwise
import Mathlib.Order.Lattice
import Mathlib.Logic.Function.Basic

/-! Several sources carry the same increasing keys, and a consumer wants each key once. It keeps the
largest key it has looked at and drops what is not above it. A `direct` consumer passes a fresh key
on at once; another marks it and leaves it waiting at its source until a `send`. -/

namespace Libtrace.HighWater
open Function

structure Ledger (ι κ : Type) where
  left : ι → List κ
  mark : κ
  sent : List κ
  /-- The head of a source that has been marked and not yet sent. -/
  waiting : ι → Option κ

variable {ι κ : Type} [DecidableEq ι] [LinearOrder κ]

inductive Step (direct : Bool) : Ledger ι κ → Ledger ι κ → Prop where
  | drop (L : Ledger ι κ) (i : ι) (k : κ) (ks : List κ) (head : L.left i = k :: ks)
      (free : L.waiting i = none) (stale : k ≤ L.mark) :
      Step direct L { L with left := update L.left i ks }
  | pass (L : Ledger ι κ) (i : ι) (k : κ) (ks : List κ) (head : L.left i = k :: ks)
      (free : L.waiting i = none) (fresh : L.mark < k)
      (mode : direct = true) :
      Step direct L { L with left := update L.left i ks, mark := k, sent := L.sent ++ [k] }
  | peek (L : Ledger ι κ) (i : ι) (k : κ) (ks : List κ) (head : L.left i = k :: ks)
      (free : L.waiting i = none) (fresh : L.mark < k)
      (mode : direct = false) :
      Step direct L { L with mark := k, waiting := update L.waiting i (some k) }
  | send (L : Ledger ι κ) (i : ι) (k : κ) (ks : List κ) (head : L.left i = k :: ks)
      (held : L.waiting i = some k) (least : ∀ j x, L.waiting j = some x → k ≤ x) :
      Step direct L { L with
        left := update L.left i ks
        sent := L.sent ++ [k]
        waiting := update L.waiting i none }

def MayStep (direct : Bool) (L L' : Ledger ι κ) : Prop := L' = L ∨ Step direct L L'

def Ledger.release (L : Ledger ι κ) : Ledger ι κ := { L with waiting := fun _ => none }

def fresh (ts : List κ) (mark : κ) : List κ := ts.filter fun t => mark < t

structure Orderly (direct : Bool) (ts : List κ) (L : Ledger ι κ) : Prop where
  left : ∀ i, L.left i <:+ ts
  fresh : ∀ i, fresh ts L.mark <:+ L.left i
  sorted : L.sent.Pairwise (· < ·)
  marked : ∀ k ∈ L.sent, k ∈ ts ∧ k ≤ L.mark
  waiting : ∀ i k, L.waiting i = some k → k ∈ ts ∧ k ≤ L.mark ∧ ∀ x ∈ L.sent, x < k
  single : ∀ i j k, L.waiting i = some k → L.waiting j = some k → i = j
  idle : direct = true → ∀ i, L.waiting i = none

def Covered (ts : List κ) (L : Ledger ι κ) : Prop :=
  ∀ k ∈ ts, k ≤ L.mark → k ∈ L.sent ∨ ∃ i, L.waiting i = some k

/-- A key that the mark has passed without its being sent or waiting. -/
def Lost (k : κ) (L : Ledger ι κ) : Prop :=
  k ≤ L.mark ∧ k ∉ L.sent ∧ ∀ i, L.waiting i ≠ some k

variable {ts ks : List κ} {mark k : κ} {direct : Bool} {L L' : Ledger ι κ}

theorem fresh_tail (h : fresh ts mark <:+ k :: ks) (hk : k ≤ mark) : fresh ts mark <:+ ks := by
  rcases List.suffix_cons_iff.mp h with he | hs
  · have hmem : k ∈ fresh ts mark := by rw [he]; exact List.mem_cons_self
    simp only [fresh, List.mem_filter, decide_eq_true_eq] at hmem
    exact absurd hmem.2 (not_lt.mpr hk)
  · exact hs

/-- A source whose head is above the mark has exactly the fresh keys left. -/
theorem fresh_eq (hts : ts.Pairwise (· < ·)) (hsuf : k :: ks <:+ ts) (h : fresh ts mark <:+ k :: ks)
    (hk : mark < k) : fresh ts mark = k :: ks := by
  obtain ⟨before, rfl⟩ := hsuf
  have hkeep : fresh (k :: ks) mark = k :: ks := by
    have hpair := (List.pairwise_append.mp hts).2.1
    refine List.filter_eq_self.mpr fun x hx => ?_
    rcases List.mem_cons.mp hx with rfl | hx
    · simpa using hk
    · simpa using hk.trans (List.rel_of_pairwise_cons hpair hx)
  have hback : k :: ks <:+ fresh (before ++ k :: ks) mark := by
    refine ⟨fresh before mark, ?_⟩
    rw [fresh, fresh, List.filter_append, ← fresh, ← fresh, hkeep]
  exact h.eq_of_length (Nat.le_antisymm h.length_le hback.length_le)

theorem fresh_next (hts : ts.Pairwise (· < ·)) (h : fresh ts mark = k :: ks) : fresh ts k = ks := by
  have hk : mark < k := by
    have hmem : k ∈ fresh ts mark := by rw [h]; exact List.mem_cons_self
    simpa [fresh] using (List.mem_filter.mp hmem).2
  have hpair : (k :: ks).Pairwise (· < ·) := h ▸ hts.filter _
  have hnest : fresh ts k = fresh (fresh ts mark) k := by
    rw [fresh, fresh, fresh, List.filter_filter]
    refine List.filter_congr fun x _ => ?_
    by_cases hx : k < x <;> simp [hx, hk.trans]
  rw [hnest, h, fresh, List.filter_cons_of_neg (by simp)]
  exact List.filter_eq_self.mpr fun x hx => by
    simpa using List.rel_of_pairwise_cons hpair hx

omit [LinearOrder κ] in
theorem left_update {left : ι → List κ} {i : ι} (h : ∀ j, left j <:+ ts) (head : left i = k :: ks)
    (j : ι) : update left i ks j <:+ ts := by
  by_cases hj : j = i
  · rw [hj, update_self]
    exact (List.suffix_cons k ks).trans (head ▸ h i)
  · rw [update_of_ne hj]
    exact h j

omit [LinearOrder κ] in
theorem fresh_update {fs : List κ} {left : ι → List κ} {i : ι} (h : ∀ j, fs <:+ left j)
    (hi : fs <:+ ks) (j : ι) : fs <:+ update left i ks j := by
  by_cases hj : j = i
  · rw [hj, update_self]
    exact hi
  · rw [update_of_ne hj]
    exact h j

theorem sorted_snoc {xs : List κ} (h : xs.Pairwise (· < ·)) (hk : ∀ x ∈ xs, x < k) :
    (xs ++ [k]).Pairwise (· < ·) := by
  rw [List.pairwise_append]
  exact ⟨h, by simp, by simpa using hk⟩

section

variable {direct : Bool} {ts : List κ} {L : Ledger ι κ} {i : ι} {k : κ} {ks : List κ}

omit [DecidableEq ι] in
theorem orderly_head_mem (h : Orderly direct ts L) (head : L.left i = k :: ks) : k ∈ ts :=
  (h.left i).subset (by rw [head]; exact List.mem_cons_self)

omit [DecidableEq ι] in
theorem orderly_raise (h : Orderly direct ts L) (hts : ts.Pairwise (· < ·))
    (head : L.left i = k :: ks) (hlt : L.mark < k) :
    fresh ts k = ks ∧ ∀ j, fresh ts k <:+ L.left j := by
  have heq := fresh_eq hts (head ▸ h.left i) (head ▸ h.fresh i) hlt
  have hnext := fresh_next hts heq
  refine ⟨hnext, fun j => ?_⟩
  rw [hnext]
  exact (List.suffix_cons k ks).trans (heq ▸ h.fresh j)

section

variable (h : Orderly direct ts L)
include h

theorem orderly_drop (head : L.left i = k :: ks) (stale : k ≤ L.mark) :
    Orderly direct ts { L with left := update L.left i ks } := by
  have hi : fresh ts L.mark <:+ ks := fresh_tail (head ▸ h.fresh i) stale
  exact ⟨left_update h.left head, fresh_update h.fresh hi, h.sorted, h.marked, h.waiting,
    h.single, h.idle⟩

section

variable (hts : ts.Pairwise (· < ·)) (head : L.left i = k :: ks) (hlt : L.mark < k)
include hts head hlt

theorem orderly_pass (mode : direct = true) :
    Orderly direct ts
      { L with left := update L.left i ks, mark := k, sent := L.sent ++ [k] } := by
  obtain ⟨hnext, hfresh⟩ := orderly_raise h hts head hlt
  refine ⟨left_update h.left head, fresh_update hfresh (hnext ▸ List.suffix_rfl),
    sorted_snoc h.sorted fun x hx => (h.marked x hx).2.trans_lt hlt, fun x hx => ?_,
    fun j x hx => ?_, h.single, h.idle⟩
  · rcases List.mem_append.mp hx with hx | hx
    · exact ⟨(h.marked x hx).1, (h.marked x hx).2.trans hlt.le⟩
    · rw [List.mem_singleton.mp hx]
      exact ⟨orderly_head_mem h head, le_refl _⟩
  · simp [h.idle mode j] at hx

theorem orderly_peek (mode : direct = false) :
    Orderly direct ts { L with mark := k, waiting := update L.waiting i (some k) } := by
  obtain ⟨-, hfresh⟩ := orderly_raise h hts head hlt
  have held : ∀ j x, update L.waiting i (some k) j = some x →
      j = i ∧ x = k ∨ j ≠ i ∧ L.waiting j = some x := by
    intro j x hx
    by_cases hj : j = i
    · rw [hj, update_self, Option.some.injEq] at hx
      exact .inl ⟨hj, hx.symm⟩
    · rw [update_of_ne hj] at hx
      exact .inr ⟨hj, hx⟩
  refine ⟨h.left, hfresh, h.sorted,
    fun x hx => ⟨(h.marked x hx).1, (h.marked x hx).2.trans hlt.le⟩, fun j x hx => ?_,
    fun j l x hj hl => ?_, by simp [mode]⟩
  · rcases held j x hx with ⟨-, rfl⟩ | ⟨-, hw⟩
    · exact ⟨orderly_head_mem h head, le_refl _, fun y hy => (h.marked y hy).2.trans_lt hlt⟩
    · obtain ⟨hmem, hle, hlast⟩ := h.waiting j x hw
      exact ⟨hmem, hle.trans hlt.le, hlast⟩
  · rcases held j x hj with ⟨rfl, rfl⟩ | ⟨-, hwj⟩ <;>
      rcases held l _ hl with ⟨rfl, he⟩ | ⟨-, hwl⟩
    · rfl
    · exact absurd (h.waiting l _ hwl).2.1 (not_le.mpr hlt)
    · rw [he] at hwj
      exact absurd (h.waiting j k hwj).2.1 (not_le.mpr hlt)
    · exact h.single j l x hwj hwl

end

theorem orderly_send (head : L.left i = k :: ks) (held : L.waiting i = some k)
    (least : ∀ j x, L.waiting j = some x → k ≤ x) :
    Orderly direct ts { L with
      left := update L.left i ks
      sent := L.sent ++ [k]
      waiting := update L.waiting i none } := by
  obtain ⟨hmem, hle, hlast⟩ := h.waiting i k held
  have hi : fresh ts L.mark <:+ ks := fresh_tail (head ▸ h.fresh i) hle
  have others : ∀ j x, update L.waiting i none j = some x →
      j ≠ i ∧ L.waiting j = some x := by
    intro j x hx
    by_cases hj : j = i
    · simp [hj] at hx
    · exact ⟨hj, by rwa [update_of_ne hj] at hx⟩
  refine ⟨left_update h.left head, fresh_update h.fresh hi, sorted_snoc h.sorted hlast,
    fun x hx => ?_, fun j x hx => ?_, fun j l x hj hl => ?_, fun hd => ?_⟩
  · rcases List.mem_append.mp hx with hx | hx
    · exact h.marked x hx
    · rw [List.mem_singleton.mp hx]
      exact ⟨hmem, hle⟩
  · obtain ⟨hj, hw⟩ := others j x hx
    obtain ⟨hmemx, hlex, hlastx⟩ := h.waiting j x hw
    refine ⟨hmemx, hlex, fun y hy => ?_⟩
    rcases List.mem_append.mp hy with hy | hy
    · exact hlastx y hy
    · rw [List.mem_singleton.mp hy]
      refine lt_of_le_of_ne (least j x hw) fun he => hj ?_
      exact h.single j i k (he ▸ hw) held
  · exact h.single j l x (others j x hj).2 (others l x hl).2
  · rw [h.idle hd i] at held
    exact absurd held (by simp)

end

end

theorem step_orderly (hts : ts.Pairwise (· < ·)) (hs : Step direct L L') (h : Orderly direct ts L) :
    Orderly direct ts L' := by
  cases hs with
  | drop i k ks head _ stale => exact orderly_drop h head stale
  | pass i k ks head _ hlt mode => exact orderly_pass h hts head hlt mode
  | peek i k ks head _ hlt mode => exact orderly_peek h hts head hlt mode
  | send i k ks head held least => exact orderly_send h head held least

theorem step_covered (hts : ts.Pairwise (· < ·)) (hs : Step direct L L') (ho : Orderly direct ts L)
    (h : Covered ts L) : Covered ts L' := by
  -- a key above the old mark and up to the new one is the new mark itself
  have raised : ∀ i k ks x, L.left i = k :: ks → L.mark < k → x ∈ ts → x ≤ k → ¬ x ≤ L.mark →
      x = k := by
    intro i k ks x head hlt hx hle hnot
    have heq := fresh_eq hts (head ▸ ho.left i) (head ▸ ho.fresh i) hlt
    have hmem : x ∈ k :: ks := by
      rw [← heq, fresh, List.mem_filter]
      exact ⟨hx, by simpa using hnot⟩
    rcases List.mem_cons.mp hmem with rfl | hks
    · rfl
    · rw [← fresh_next hts heq, fresh, List.mem_filter, decide_eq_true_eq] at hks
      exact absurd hks.2 (not_lt.mpr hle)
  intro x hx hle
  cases hs with
  | drop i k ks head _ stale => exact h x hx hle
  | pass i k ks head _ hlt =>
    by_cases hold : x ≤ L.mark
    · exact (h x hx hold).imp_left fun hs => List.mem_append_left _ hs
    · rw [raised i k ks x head hlt hx hle hold]
      exact .inl (by simp)
  | peek i k ks head free hlt =>
    by_cases hold : x ≤ L.mark
    · refine (h x hx hold).imp_right ?_
      rintro ⟨j, hj⟩
      have hji : j ≠ i := fun e => by simp [e, free] at hj
      exact ⟨j, by simpa [hji] using hj⟩
    · rw [raised i k ks x head hlt hx hle hold]
      exact .inr ⟨i, by simp⟩
  | send i k ks head held =>
    rcases h x hx hle with hs | ⟨j, hj⟩
    · exact .inl (List.mem_append_left _ hs)
    · by_cases hji : j = i
      · rw [hji, held, Option.some.injEq] at hj
        exact .inl (by simp [hj])
      · exact .inr ⟨j, by simpa [hji] using hj⟩

theorem step_lost (hs : Step direct L L') (h : Lost k L) : Lost k L' := by
  obtain ⟨hle, hsent, hwait⟩ := h
  have absent : ∀ x, x ≠ k → k ∉ L.sent ++ [x] := by
    intro x hx hmem
    rcases List.mem_append.mp hmem with hm | hm
    · exact hsent hm
    · exact hx (List.mem_singleton.mp hm).symm
  cases hs with
  | drop => exact ⟨hle, hsent, hwait⟩
  | pass i x ks _ _ hlt => exact ⟨hle.trans hlt.le, absent x (hle.trans_lt hlt).ne', hwait⟩
  | peek i x ks _ _ hlt =>
    refine ⟨hle.trans hlt.le, hsent, fun j hj => ?_⟩
    by_cases hji : j = i
    · simp only [hji, update_self, Option.some.injEq] at hj
      exact (hle.trans_lt hlt).ne' hj
    · simp only [update_of_ne hji] at hj
      exact hwait j hj
  | send i x ks _ held =>
    refine ⟨hle, absent x fun he => hwait i (he ▸ held), fun j hj => ?_⟩
    by_cases hji : j = i
    · simp [hji] at hj
    · simp only [update_of_ne hji] at hj
      exact hwait j hj

omit [DecidableEq ι] in
theorem release_orderly (h : Orderly direct ts L) : Orderly direct ts L.release :=
  ⟨h.left, h.fresh, h.sorted, h.marked, by simp [Ledger.release], by simp [Ledger.release],
    fun _ _ => rfl⟩

omit [DecidableEq ι] in
theorem sent_eq (i : ι) (hts : ts.Pairwise (· < ·)) (ho : Orderly direct ts L) (hc : Covered ts L)
    (hleft : L.left i = []) (hwait : ∀ j, L.waiting j = none) : L.sent = ts := by
  have hpast : ∀ k ∈ ts, k ≤ L.mark := by
    have hnil : fresh ts L.mark = [] := List.suffix_nil.mp (hleft ▸ ho.fresh i)
    intro k hk
    by_contra hlt
    have hmem : k ∈ fresh ts L.mark := List.mem_filter.mpr ⟨hk, by simpa using hlt⟩
    rw [hnil] at hmem
    exact absurd hmem List.not_mem_nil
  have nodup : ∀ {xs : List κ}, xs.Pairwise (· < ·) → xs.Nodup := fun hx => hx.imp fun h => h.ne
  have hperm : L.sent.Perm ts := by
    refine (List.perm_ext_iff_of_nodup (nodup ho.sorted) (nodup hts)).mpr fun k =>
      ⟨fun hk => (ho.marked k hk).1, fun hk => ?_⟩
    exact (hc k hk (hpast k hk)).resolve_right fun ⟨j, hj⟩ => by simp [hwait j] at hj
  exact hperm.eq_of_pairwise (fun a b _ _ hab hba => absurd hba hab.asymm) ho.sorted hts

end Libtrace.HighWater
