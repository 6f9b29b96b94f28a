import Libtrace.CacheRegistry

/-! What the registration is for: a table for each thread, and for each object cache an exact index
of its records. -/

namespace Libtrace.CacheDirectory
open SwapRemove CacheRegistry

variable {κ τ : Type}

/-- A table of records, of which only the object caches matter here. -/
structure Table (κ : Type) where
  base : Addr
  total : Nat
  ocs : List κ

def Table.addr (tb : Table κ) (i : Nat) : Addr := tb.base.advance i

def Table.At (tb : Table κ) (oc : κ) (a : Addr) : Prop :=
  ∃ i, tb.ocs[i]? = some oc ∧ a = tb.addr i

def Live (d : τ → Option (Table κ)) (oc : κ) (a : Addr) : Prop :=
  ∃ t tb, d t = some tb ∧ tb.At oc a

def Elsewhere (d : τ → Option (Table κ)) (t : τ) (oc : κ) (a : Addr) : Prop :=
  ∃ u tb, u ≠ t ∧ d u = some tb ∧ tb.At oc a

structure Exact (d : τ → Option (Table κ)) (index : κ → List Addr) (gone : List Addr) :
    Prop where
  nodup : ∀ oc, (index oc).Nodup
  mem_iff : ∀ oc a, a ∈ index oc ↔ Live d oc a ∧ a ∉ gone

theorem Exact.congr {d : τ → Option (Table κ)} {index : κ → List Addr} {gone gone' : List Addr}
    (h : Exact d index gone) (hmem : ∀ a, a ∈ gone ↔ a ∈ gone') : Exact d index gone' := by
  refine ⟨h.nodup, fun oc a => ?_⟩
  rw [h.mem_iff, hmem]

structure Table.Fit (tb : Table κ) (blocks : Nat) : Prop where
  start : tb.base.index = 0
  old : tb.base.block < blocks
  total : tb.total = 0x10
  fits : tb.ocs.length ≤ tb.total
  nodup : tb.ocs.Nodup

structure Separate (d : τ → Option (Table κ)) (blocks : Nat) : Prop where
  fit : ∀ t tb, d t = some tb → tb.Fit blocks
  distinct : ∀ t u tb tb', d t = some tb → d u = some tb' → tb.base.block = tb'.base.block → t = u

variable {d : τ → Option (Table κ)} {index : κ → List Addr} {gone : List Addr}
  {blocks blocks' : Nat} {t : τ} {tb tb' : Table κ} {oc : κ} {a : Addr}

theorem Table.addr_block (tb : Table κ) (i : Nat) : (tb.addr i).block = tb.base.block := rfl

theorem Table.addr_inj {i j : Nat} (h : tb.addr i = tb.addr j) : i = j :=
  Nat.add_left_cancel (congrArg Addr.index h)

theorem Table.At.block (h : tb.At oc a) : a.block = tb.base.block := by
  obtain ⟨i, -, rfl⟩ := h
  rfl

theorem Table.at_append (tb : Table κ) (new oc : κ) (a : Addr) :
    Table.At { tb with ocs := tb.ocs ++ [new] } oc a ↔
      tb.At oc a ∨ oc = new ∧ a = tb.addr tb.ocs.length := by
  constructor
  · rintro ⟨i, hi, rfl⟩
    by_cases hlt : i < tb.ocs.length
    · rw [List.getElem?_append_left hlt] at hi
      exact Or.inl ⟨i, hi, rfl⟩
    · have hlen := (List.getElem?_eq_some_iff.mp hi).1
      rw [List.length_append, List.length_singleton] at hlen
      have hlast : i = tb.ocs.length := by omega
      subst hlast
      rw [List.getElem?_concat_length] at hi
      exact Or.inr ⟨(Option.some.inj hi).symm, rfl⟩
  · rintro (⟨i, hi, rfl⟩ | ⟨rfl, rfl⟩)
    · have hlt := (List.getElem?_eq_some_iff.mp hi).1
      exact ⟨i, (List.getElem?_append_left hlt).trans hi, rfl⟩
    · exact ⟨tb.ocs.length, List.getElem?_concat_length, rfl⟩

theorem live_iff (d : τ → Option (Table κ)) (t : τ) (oc : κ) (a : Addr) :
    Live d oc a ↔ (∃ tb, d t = some tb ∧ tb.At oc a) ∨ Elsewhere d t oc a := by
  constructor
  · rintro ⟨u, tb, hu, hat⟩
    by_cases hut : u = t
    · exact Or.inl ⟨tb, hut ▸ hu, hat⟩
    · exact Or.inr ⟨u, tb, hut, hu, hat⟩
  · rintro (⟨tb, ht, hat⟩ | ⟨u, tb, -, hu, hat⟩)
    · exact ⟨t, tb, ht, hat⟩
    · exact ⟨u, tb, hu, hat⟩

theorem live_iff_of_eq (ht : d t = some tb) : Live d oc a ↔ tb.At oc a ∨ Elsewhere d t oc a := by
  rw [live_iff d t]
  simp [ht]

section

variable (hsep : Separate d blocks)
include hsep

theorem Separate.elsewhere_block (ht : d t = some tb) (h : Elsewhere d t oc a) :
    a.block ≠ tb.base.block := by
  obtain ⟨u, tb', hne, hu, hat⟩ := h
  rw [hat.block]
  exact fun heq => hne (hsep.distinct u t tb' tb hu ht heq)

theorem Separate.live_of_block (ht : d t = some tb) (hblock : a.block = tb.base.block)
    (h : Live d oc a) : tb.At oc a :=
  ((live_iff_of_eq ht).mp h).resolve_right fun helse => hsep.elsewhere_block ht helse hblock

theorem Separate.live_unique {oc' : κ} (h : Live d oc a) (h' : Live d oc' a) : oc = oc' := by
  obtain ⟨t, tb, ht, hat⟩ := h
  have hat' := hsep.live_of_block ht hat.block h'
  obtain ⟨i, hi, rfl⟩ := hat
  obtain ⟨j, hj, heq⟩ := hat'
  rw [← Table.addr_inj heq, hi] at hj
  exact Option.some.inj hj

theorem Exact.forget [DecidableEq κ] (hexact : Exact d index gone) (ht : d t = some tb) {i : Nat}
    (hi : tb.ocs[i]? = some oc) (hgone : tb.addr i ∉ gone) :
    ∃ j, (index oc).idxOf? (tb.addr i) = some j ∧
      Exact d (Function.update index oc (swapRemove (index oc) j)) (tb.addr i :: gone) := by
  have hlive : Live d oc (tb.addr i) := ⟨t, tb, ht, i, hi, rfl⟩
  have hmem : tb.addr i ∈ index oc := (hexact.mem_iff oc _).mpr ⟨hlive, hgone⟩
  obtain ⟨j, hj⟩ := Option.isSome_iff_exists.mp (List.isSome_idxOf?.mpr hmem)
  have hat := getElem?_of_idxOf? hj
  refine ⟨j, hj, fun oc' => ?_, fun oc' a => ?_⟩
  · by_cases heq : oc' = oc
    · subst heq
      rw [Function.update_self]
      exact nodup_swapRemove (hexact.nodup oc') hat
    · rw [Function.update_of_ne heq]
      exact hexact.nodup oc'
  · rw [List.mem_cons, not_or]
    by_cases heq : oc' = oc
    · subst heq
      rw [Function.update_self, mem_swapRemove (hexact.nodup oc') hat, hexact.mem_iff]
      tauto
    · rw [Function.update_of_ne heq, hexact.mem_iff]
      refine ⟨fun ⟨hl, hg⟩ => ⟨hl, ?_, hg⟩, fun ⟨hl, _, hg⟩ => ⟨hl, hg⟩⟩
      rintro rfl
      exact heq (hsep.live_unique hl hlive)

end

variable [DecidableEq τ]

theorem elsewhere_update (d : τ → Option (Table κ)) (t : τ) (o : Option (Table κ)) (oc : κ)
    (a : Addr) : Elsewhere (Function.update d t o) t oc a ↔ Elsewhere d t oc a := by
  constructor
  · rintro ⟨u, tb, hne, hu, hat⟩
    exact ⟨u, tb, hne, by rwa [Function.update_of_ne hne] at hu, hat⟩
  · rintro ⟨u, tb, hne, hu, hat⟩
    exact ⟨u, tb, hne, by rwa [Function.update_of_ne hne], hat⟩

theorem live_update (d : τ → Option (Table κ)) (t : τ) (tb : Table κ) (oc : κ) (a : Addr) :
    Live (Function.update d t (some tb)) oc a ↔ tb.At oc a ∨ Elsewhere d t oc a := by
  rw [live_iff_of_eq (Function.update_self t (some tb) d), elsewhere_update]

theorem Separate.update (hsep : Separate d blocks) (hle : blocks ≤ blocks') (hfit : tb.Fit blocks')
    (hown : ∀ u tb', u ≠ t → d u = some tb' → tb'.base.block ≠ tb.base.block) :
    Separate (Function.update d t (some tb)) blocks' := by
  refine ⟨fun u tb' hu => ?_, fun u v tb₁ tb₂ hu hv heq => ?_⟩
  · by_cases hut : u = t
    · subst hut
      rw [Function.update_self, Option.some.injEq] at hu
      exact hu ▸ hfit
    · rw [Function.update_of_ne hut] at hu
      have h := hsep.fit u tb' hu
      exact { h with old := Nat.lt_of_lt_of_le h.old hle }
  · by_cases hut : u = t <;> by_cases hvt : v = t
    · exact hut.trans hvt.symm
    · subst hut
      rw [Function.update_self, Option.some.injEq] at hu
      rw [Function.update_of_ne hvt] at hv
      exact absurd (heq.symm.trans (congrArg (·.base.block) hu.symm)) (hown v tb₂ hvt hv)
    · subst hvt
      rw [Function.update_self, Option.some.injEq] at hv
      rw [Function.update_of_ne hut] at hu
      exact absurd (heq.trans (congrArg (·.base.block) hv.symm)) (hown u tb₁ hut hu)
    · rw [Function.update_of_ne hut] at hu
      rw [Function.update_of_ne hvt] at hv
      exact hsep.distinct u v tb₁ tb₂ hu hv heq

theorem Separate.replace (hsep : Separate d blocks) (ht : d t = some tb)
    (hblock : tb'.base.block = tb.base.block) (hfit : tb'.Fit blocks) :
    Separate (Function.update d t (some tb')) blocks :=
  hsep.update (Nat.le_refl _) hfit fun u tb₁ hne hu heq =>
    hne (hsep.distinct u t tb₁ tb hu ht (heq.trans hblock))

theorem Separate.close (hsep : Separate d blocks) (t : τ) :
    Separate (Function.update d t none) blocks := by
  have hold (u : τ) (tb : Table κ) (hu : Function.update d t none u = some tb) :
      d u = some tb := by
    by_cases hut : u = t
    · subst hut
      rw [Function.update_self] at hu
      cases hu
    · rwa [Function.update_of_ne hut] at hu
  exact ⟨fun u tb hu => hsep.fit u tb (hold u tb hu),
    fun u v tb tb' hu hv => hsep.distinct u v tb tb' (hold u tb hu) (hold v tb' hv)⟩

section

def Table.new (blocks : Nat) : Table κ := ⟨⟨blocks, 0⟩, 0x10, []⟩

theorem Separate.openTable (hsep : Separate d blocks) (t : τ) :
    Separate (Function.update d t (some (Table.new blocks))) (blocks + 1) := by
  refine hsep.update (Nat.le_succ _) ⟨rfl, Nat.lt_succ_self _, rfl, Nat.zero_le _, List.nodup_nil⟩
    fun u tb' _ hu => ?_
  exact Nat.ne_of_lt (hsep.fit u tb' hu).old

theorem Exact.openTable (hexact : Exact d index gone) (ht : d t = none) (blocks : Nat) :
    Exact (Function.update d t (some (Table.new blocks))) index gone := by
  refine ⟨hexact.nodup, fun oc a => ?_⟩
  rw [hexact.mem_iff, live_update, live_iff d t]
  simp [ht, Table.At, Table.new]

section

variable (hsep : Separate d blocks)
include hsep

theorem Separate.add (ht : d t = some tb) (hnew : oc ∉ tb.ocs) (hroom : tb.ocs.length < tb.total) :
    Separate (Function.update d t (some { tb with ocs := tb.ocs ++ [oc] })) blocks := by
  have hfit := hsep.fit t tb ht
  refine hsep.replace ht rfl { hfit with fits := ?_, nodup := ?_ }
  · rw [List.length_append, List.length_singleton]
    exact hroom
  · exact List.nodup_append.mpr ⟨hfit.nodup, List.nodup_singleton oc, fun x hx y hy heq =>
      hnew (by rwa [← List.mem_singleton.mp hy, ← heq])⟩

theorem Exact.add [DecidableEq κ] (hexact : Exact d index []) (ht : d t = some tb) (oc : κ) :
    Exact (Function.update d t (some { tb with ocs := tb.ocs ++ [oc] }))
      (Function.update index oc (index oc ++ [tb.addr tb.ocs.length])) [] := by
  have hfresh (oc' : κ) : ¬ Live d oc' (tb.addr tb.ocs.length) := by
    intro hlive
    obtain ⟨i, hi, heq⟩ := hsep.live_of_block ht (tb.addr_block _) hlive
    rw [← Table.addr_inj heq, List.getElem?_eq_none (Nat.le_refl _)] at hi
    cases hi
  have hmem (oc' : κ) (a : Addr) : a ∈ index oc' ↔ Live d oc' a := by
    rw [hexact.mem_iff]
    exact and_iff_left List.not_mem_nil
  have hlive (oc' : κ) (a : Addr) :
      Live (Function.update d t (some { tb with ocs := tb.ocs ++ [oc] })) oc' a ↔
        Live d oc' a ∨ oc' = oc ∧ a = tb.addr tb.ocs.length := by
    rw [live_update, Table.at_append, live_iff_of_eq ht, or_right_comm]
  refine ⟨fun oc' => ?_, fun oc' a => ?_⟩
  · by_cases heq : oc' = oc
    · subst heq
      rw [Function.update_self]
      refine List.nodup_append.mpr ⟨hexact.nodup oc', List.nodup_singleton _, ?_⟩
      rintro x hx y hy rfl
      rw [List.mem_singleton.mp hy, hmem] at hx
      exact hfresh oc' hx
    · rw [Function.update_of_ne heq]
      exact hexact.nodup oc'
  · rw [hlive, and_iff_left List.not_mem_nil]
    by_cases heq : oc' = oc
    · subst heq
      rw [Function.update_self, List.mem_append, List.mem_singleton, hmem]
      simp
    · rw [Function.update_of_ne heq, hmem]
      simp [heq]

theorem Exact.dropLast (ht : d t = some tb) {ocs : List κ} (hocs : tb.ocs = ocs ++ [oc])
    (hexact : Exact d index [tb.addr ocs.length]) :
    Exact (Function.update d t (some { tb with ocs := ocs })) index [] := by
  refine ⟨hexact.nodup, fun oc' a => ?_⟩
  have hat := Table.at_append { tb with ocs := ocs } oc oc' a
  rw [← hocs] at hat
  rw [hexact.mem_iff, live_update, live_iff_of_eq ht, hat, List.mem_singleton,
    and_iff_left List.not_mem_nil]
  constructor
  · rintro ⟨(hl | ⟨-, rfl⟩) | helse, hne⟩
    · exact Or.inl hl
    · exact absurd rfl hne
    · exact Or.inr helse
  · rintro (hl | helse)
    · refine ⟨Or.inl (Or.inl hl), ?_⟩
      rintro rfl
      obtain ⟨i, hi, heq⟩ := hl
      have hlt := (List.getElem?_eq_some_iff.mp hi).1
      exact absurd (Table.addr_inj heq) (Nat.ne_of_gt hlt)
    · refine ⟨Or.inr helse, ?_⟩
      rintro rfl
      exact hsep.elsewhere_block ht helse rfl

theorem Exact.close (ht : d t = some tb) (hgone : ∀ a, a ∈ gone ↔ ∃ oc, tb.At oc a)
    (hexact : Exact d index gone) : Exact (Function.update d t none) index [] := by
  refine ⟨hexact.nodup, fun oc a => ?_⟩
  rw [hexact.mem_iff, live_iff (Function.update d t none) t, elsewhere_update,
    live_iff_of_eq ht, hgone, and_iff_left List.not_mem_nil]
  simp only [Function.update_self, reduceCtorEq, false_and, exists_false, false_or]
  constructor
  · rintro ⟨hl | helse, hnot⟩
    · exact absurd ⟨oc, hl⟩ hnot
    · exact helse
  · intro helse
    refine ⟨Or.inr helse, ?_⟩
    rintro ⟨oc', hat⟩
    exact hsep.elsewhere_block ht helse hat.block

theorem Exact.not_moved (ht : d t = some tb) {i : Nat} {last : κ} {ocs : List κ}
    (hocs : tb.ocs = ocs ++ [last]) (hi : i < ocs.length) (hexact : Exact d index [tb.addr i]) :
    ¬ Exact (Function.update d t (some { tb with ocs := ocs.set i last })) index [] := by
  intro hmoved
  have hlast : tb.At last (tb.addr ocs.length) :=
    ⟨ocs.length, by rw [hocs, List.getElem?_concat_length], rfl⟩
  have hlisted : tb.addr ocs.length ∈ index last := by
    refine (hexact.mem_iff _ _).mpr ⟨⟨t, tb, ht, hlast⟩, ?_⟩
    rw [List.mem_singleton]
    exact fun heq => absurd (Table.addr_inj heq) (Nat.ne_of_gt hi)
  rw [hmoved.mem_iff, live_update] at hlisted
  obtain ⟨⟨j, hj, heq⟩ | helse, -⟩ := hlisted
  · have hlt := (List.getElem?_eq_some_iff.mp hj).1
    rw [List.length_set] at hlt
    exact absurd (Table.addr_inj heq) (Nat.ne_of_gt hlt)
  · exact hsep.elsewhere_block ht helse rfl

end

end

end Libtrace.CacheDirectory
