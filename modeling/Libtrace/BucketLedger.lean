import Mathlib.Data.List.Basic

/-! What buckets are for: a ledger of lots of consecutive ids, wrapping around after 199999. Ids are
issued from the last lot; a lot is settled when no id of it is outstanding. -/

namespace Libtrace.BucketLedger

def idAt (start i : Nat) : Nat := (start + i - 1) % 199999 + 1

theorem idAt_range (start i : Nat) : 1 ≤ idAt start i ∧ idAt start i ≤ 199999 := by
  unfold idAt
  omega

variable {start : Nat}

theorem idAt_inj {i i' : Nat} (hs : 0 < start) (hi : i < 199999) (hi' : i' < 199999)
    (h : idAt start i = idAt start i') : i = i' := by
  unfold idAt at h
  omega

theorem idAt_zero (hs : 0 < start) (hlt : start < 200000) : idAt start 0 = start := by
  unfold idAt
  omega

theorem idAt_succ (hs : 0 < start) (i : Nat) :
    idAt start (i + 1) = if idAt start i + 1 ≥ 200000 then 1 else idAt start i + 1 := by
  unfold idAt
  split <;> omega

structure Lot (β : Type) where
  bucket : Nat
  start : Nat
  flags : List Bool
  buffer : Option β
  start_pos : 0 < start
  start_lt : start < 200000

namespace Lot

variable {β : Type} (l : Lot β)

def ids : List Nat := (List.range l.flags.length).map (idAt l.start)

def Open (id : Nat) : Prop := ∃ i, l.flags[i]? = some true ∧ idAt l.start i = id

def Settled : Prop := ∀ id, ¬ l.Open id

def issue : Lot β := { l with flags := l.flags ++ [true] }

def retire (i : Nat) : Lot β := { l with flags := l.flags.set i false }

def takeBack : Lot β := { l with flags := l.flags.dropLast }

variable {id i : Nat} {f : List Bool}

theorem mem_ids : id ∈ l.ids ↔ ∃ i < l.flags.length, idAt l.start i = id := by
  simp [ids]

theorem open_mem (h : l.Open id) : id ∈ l.ids := by
  obtain ⟨i, hi, hid⟩ := h
  exact l.mem_ids.mpr ⟨i, (List.getElem?_eq_some_iff.mp hi).1, hid⟩

theorem ids_issue : l.issue.ids = l.ids ++ [idAt l.start l.flags.length] := by
  simp [ids, issue, List.range_succ]

theorem ids_retire (i : Nat) : (l.retire i).ids = l.ids := by
  simp [ids, retire]

theorem open_issue :
    l.issue.Open id ↔ l.Open id ∨ id = idAt l.start l.flags.length := by
  constructor
  · rintro ⟨i, hi, hid⟩
    rcases Nat.lt_or_ge i l.flags.length with hlt | hge
    · exact .inl ⟨i, by rwa [issue, List.getElem?_append_left hlt] at hi, hid⟩
    · have hlast := (List.getElem?_eq_some_iff.mp hi).1
      simp only [issue, List.length_append, List.length_singleton] at hlast
      exact .inr (by rw [show l.flags.length = i by omega]; exact hid.symm)
  · rintro (⟨i, hi, hid⟩ | hid)
    · exact ⟨i, by rw [issue, List.getElem?_append_left (List.getElem?_eq_some_iff.mp hi).1, hi],
        hid⟩
    · exact ⟨l.flags.length, by simp [issue], hid.symm⟩

variable {l}

theorem place_unique (hlen : l.flags.length < 199999) {i' : Nat} (hi : i < l.flags.length)
    (hi' : i' < l.flags.length) (h : idAt l.start i = idAt l.start i') : i = i' :=
  idAt_inj l.start_pos (by omega) (by omega) h

theorem open_retire (hlen : l.flags.length < 199999) (hi : i < l.flags.length) :
    (l.retire i).Open id ↔ l.Open id ∧ id ≠ idAt l.start i := by
  constructor
  · rintro ⟨j, hj, hid⟩
    by_cases hij : i = j
    · rw [retire, hij, List.getElem?_set_self (hij ▸ hi)] at hj
      cases hj
    · rw [retire, List.getElem?_set_ne hij] at hj
      refine ⟨⟨j, hj, hid⟩, fun hne => hij ?_⟩
      exact place_unique hlen hi (List.getElem?_eq_some_iff.mp hj).1 (hne.symm.trans hid.symm)
  · rintro ⟨⟨j, hj, hid⟩, hne⟩
    have hij : i ≠ j := fun hij => hne (hij ▸ hid.symm)
    exact ⟨j, by rw [retire, List.getElem?_set_ne hij, hj], hid⟩

theorem ids_takeBack (hf : l.flags = f ++ [true]) :
    l.ids = l.takeBack.ids ++ [idAt l.start f.length] := by
  simp [ids, takeBack, hf, List.range_succ]

theorem open_takeBack (hlen : l.flags.length < 199999) (hf : l.flags = f ++ [true]) :
    l.takeBack.Open id ↔ l.Open id ∧ id ≠ idAt l.start f.length := by
  have hissue : l.takeBack.issue = l := by
    cases l
    simp only [issue, takeBack] at hf ⊢
    rw [hf, List.dropLast_concat]
  have hback : l.takeBack.flags.length = f.length := by simp [takeBack, hf]
  have hopen : l.takeBack.issue.Open id ↔ _ := l.takeBack.open_issue
  rw [hissue, hback] at hopen
  rw [hopen]
  constructor
  · refine fun h => ⟨.inl h, fun heq => ?_⟩
    obtain ⟨i, hi, hid⟩ := h
    have hlt := (List.getElem?_eq_some_iff.mp hi).1
    have hf' : f.length < 199999 := by simp [hf] at hlen; omega
    have : i = f.length := idAt_inj l.start_pos (by omega) hf' (hid.trans heq)
    omega
  · rintro ⟨h | h, hne⟩
    · exact h
    · exact absurd h hne

theorem settled_iff : l.Settled ↔ l.flags.count true = 0 := by
  rw [List.count_eq_zero]
  constructor
  · intro h hmem
    obtain ⟨i, hi, hget⟩ := List.getElem_of_mem hmem
    exact h _ ⟨i, by rw [List.getElem?_eq_getElem hi, hget], rfl⟩
  · rintro h id ⟨i, hi, -⟩
    exact h (List.mem_of_getElem? hi)

structure Retires (l l' : Lot β) (id : Nat) : Prop where
  bucket : l'.bucket = l.bucket
  buffer : l'.buffer = l.buffer
  opens : ∀ j, l'.Open j ↔ l.Open j ∧ j ≠ id
  ids : ∀ j ∈ l'.ids, j ∈ l.ids

theorem retires_retire (hlen : l.flags.length < 199999) (hi : i < l.flags.length) :
    l.Retires (l.retire i) (idAt l.start i) :=
  ⟨rfl, rfl, fun _ => open_retire hlen hi, fun _ hj => l.ids_retire i ▸ hj⟩

theorem retires_takeBack (hlen : l.flags.length < 199999) (hf : l.flags = f ++ [true]) :
    l.Retires l.takeBack (idAt l.start f.length) :=
  ⟨rfl, rfl, fun _ => open_takeBack hlen hf,
    fun _ hj => ids_takeBack hf ▸ List.mem_append_left _ hj⟩

end Lot

end Libtrace.BucketLedger
