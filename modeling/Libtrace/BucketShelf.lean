import Libtrace.BucketLedger
import Libtrace.Buckets
import Mathlib.Data.List.Nodup

/-! How nodes, the list and `packets` represent a ledger of lots. -/

namespace Libtrace.BucketShelf
open Buckets BucketLedger Function

variable {β : Type}

variable {i : Nat} {flags : List Bool} {slots : Nat}

theorem packetIndex_eq {start : Nat} (hs : 0 < start) (hlt : start < 200000) (hi : i < 199999) :
    packetIndex start i = idAt start i := by
  unfold packetIndex idAt maxOutstanding
  split <;> omega

theorem slot_idAt {start : Nat} (hs : 0 < start) (hlt : start < 200000) (hi : i < 65536) :
    slot start (idAt start i) = i := by
  unfold slot idAt maxOutstanding
  split <;> omega

def mark (out : Bool) : Nat := if out then 1 else 2

def marks (flags : List Bool) (slots : Nat) : List Nat :=
  flags.map mark ++ List.replicate (slots - flags.length) 0

theorem length_marks (h : flags.length ≤ slots) : (marks flags slots).length = slots := by
  simp only [marks, List.length_append, List.length_map, List.length_replicate]
  omega

theorem marks_getElem? {out : Bool} (h : flags[i]? = some out) (slots : Nat) :
    (marks flags slots)[i]? = some (mark out) := by
  have hi := (List.getElem?_eq_some_iff.mp h).1
  rw [marks, List.getElem?_append_left (by simpa using hi), List.getElem?_map, h]
  rfl

theorem marks_issue (h : flags.length < slots) :
    (marks flags slots).set flags.length 1 = marks (flags ++ [true]) slots := by
  obtain ⟨k, hk⟩ : ∃ k, slots - flags.length = k + 1 := ⟨slots - flags.length - 1, by omega⟩
  have hk' : slots - (flags.length + 1) = k := by omega
  rw [marks, marks, List.set_append_right _ _ (by simp)]
  simp [hk, hk', List.replicate_succ, mark]

theorem marks_retire (h : i < flags.length) (slots : Nat) :
    (marks flags slots).set i 2 = marks (flags.set i false) slots := by
  rw [marks, marks, List.set_append_left _ _ (by simpa using h), List.map_set, List.length_set]
  rfl

theorem marks_takeBack (h : flags.length < slots) (out : Bool) :
    (marks (flags ++ [out]) slots).set flags.length 0 = marks flags slots := by
  obtain ⟨k, hk⟩ : ∃ k, slots - flags.length = k + 1 := ⟨slots - flags.length - 1, by omega⟩
  have hk' : slots - (flags.length + 1) = k := by omega
  rw [marks, marks, List.map_append, List.append_assoc, List.set_append_right _ _ (by simp)]
  simp [hk, hk', List.replicate_succ]

theorem marks_grow (h : flags.length ≤ slots) :
    marks flags slots ++ List.replicate 10 0 = marks flags (slots + 10) := by
  rw [marks, marks, List.append_assoc, List.replicate_append_replicate]
  congr 2
  omega

structure Holds (n : BucketNode β) (l : Lot β) : Prop where
  released : n.released = marks l.flags n.slots
  active : n.activemembers = l.flags.count true
  fits : l.flags.length ≤ n.slots
  room : 0 < n.slots
  slots : n.slots ≤ 10932
  start : n.startindex = if l.flags = [] then 0 else l.start
  buffer : n.buffer = l.buffer

namespace Holds

variable {n : BucketNode β} {l : Lot β}

section

variable (h : Holds n l)
include h

theorem length_released : n.released.length = n.slots := by
  rw [h.released, length_marks h.fits]

theorem count_le : l.flags.count true ≤ 10932 :=
  Nat.le_trans List.count_le_length (Nat.le_trans h.fits h.slots)

theorem start_of_ne (hne : l.flags ≠ []) : n.startindex = l.start := by
  rw [h.start, if_neg hne]

theorem startindex_eq_zero : n.startindex = 0 ↔ l.flags = [] := by
  rw [h.start]
  split
  · exact iff_of_true rfl ‹_›
  · exact iff_of_false (Nat.ne_of_gt l.start_pos) ‹_›

theorem issue (hlt : l.flags.length < n.slots) :
    Holds { n with
      startindex := l.start
      activemembers := (n.activemembers + 1) % 65536
      released := n.released.set l.flags.length 1 } l.issue where
  released := by rw [h.released, marks_issue hlt]; rfl
  active := by
    have := h.count_le
    simp only [Lot.issue, List.count_append, List.count_singleton_self, h.active]
    omega
  fits := by
    simp only [Lot.issue, List.length_append, List.length_singleton]
    exact hlt
  room := h.room
  slots := h.slots
  start := by simp [Lot.issue]
  buffer := h.buffer

theorem retire {i : Nat} (hi : l.flags[i]? = some true) :
    Holds { n with
      activemembers := (n.activemembers + 65535) % 65536
      released := n.released.set i 2 } (l.retire i) where
  released := by
    rw [h.released, marks_retire (List.getElem?_eq_some_iff.mp hi).1]
    rfl
  active := by
    obtain ⟨hlt, hget⟩ := List.getElem?_eq_some_iff.mp hi
    have hpos : 0 < l.flags.count true := List.count_pos_iff.mpr (List.mem_of_getElem? hi)
    have := h.count_le
    have hcount : (l.flags.set i false).count true = l.flags.count true - 1 := by
      simp [List.count_set hlt, hget]
    change (n.activemembers + 65535) % 65536 = (l.flags.set i false).count true
    rw [hcount, h.active]
    omega
  fits := by simpa [Lot.retire] using h.fits
  room := h.room
  slots := h.slots
  start := by simpa [Lot.retire] using h.start
  buffer := h.buffer

theorem takeBack {f : List Bool} (hf : l.flags = f ++ [true]) :
    Holds { n with
      startindex := if f = [] then 0 else l.start
      activemembers := (n.activemembers + 65535) % 65536
      released := n.released.set f.length 0 } l.takeBack where
  released := by
    have hfits := h.fits
    rw [hf, List.length_append, List.length_singleton] at hfits
    rw [h.released, hf, marks_takeBack hfits, Lot.takeBack, hf, List.dropLast_concat]
  active := by
    have := h.count_le
    have hcount : l.flags.count true = f.count true + 1 := by simp [hf]
    change (n.activemembers + 65535) % 65536 = l.flags.dropLast.count true
    rw [h.active, hcount, hf, List.dropLast_concat]
    omega
  fits := by
    have := h.fits
    simp only [Lot.takeBack, hf, List.dropLast_concat]
    rw [hf, List.length_append] at this
    omega
  room := h.room
  slots := h.slots
  start := by simp only [Lot.takeBack, hf, List.dropLast_concat]
  buffer := h.buffer

end

end Holds

structure Shelf (b : Bucket β) (lots : List (Lot β)) : Prop where
  nodelist : b.nodelist = lots.map Lot.bucket
  nodup : (lots.map Lot.bucket).Nodup
  holds : ∀ l ∈ lots, ∃ n, b.heap l.bucket = some n ∧ Holds n l
  gone : ∀ p ∉ lots.map Lot.bucket, b.heap p = none
  packets : ∀ id p, b.packets id = some p ↔ ∃ l ∈ lots, l.bucket = p ∧ id ∈ l.ids
  below : ∀ l ∈ lots, l.bucket < b.fresh
  freed : ∀ e ∈ b.freed, e.1 < b.fresh ∧ e.1 ∉ lots.map Lot.bucket
  once : (b.freed.map Prod.fst).Nodup

namespace Shelf

variable {b : Bucket β} {pre post lots : List (Lot β)} {l : Lot β}

section

variable (h : Shelf b (pre ++ l :: post))
include h

theorem other_bucket {m : Lot β} (hm : m ∈ pre ++ post) : m.bucket ≠ l.bucket := by
  have hnodup := h.nodup
  rw [List.map_append, List.map_cons, List.nodup_middle, List.nodup_cons] at hnodup
  intro heq
  exact hnodup.1 (heq ▸ List.map_append ▸ List.mem_map_of_mem hm)

theorem id_unique {id : Nat} (hid : id ∈ l.ids) {m : Lot β} (hm : m ∈ pre ++ post) :
    id ∉ m.ids := by
  intro hmid
  have hp := (h.packets id l.bucket).mpr ⟨l, by simp, rfl, hid⟩
  have hq := (h.packets id m.bucket).mpr
    ⟨m, by simp only [List.mem_append, List.mem_cons] at hm ⊢; tauto, rfl, hmid⟩
  rw [hp, Option.some.injEq] at hq
  exact h.other_bucket hm hq.symm

theorem write (l' : Lot β) (hbucket : l'.bucket = l.bucket) {n : BucketNode β} (hn : Holds n l')
    {packets : Nat → Option Nat}
    (hpackets : ∀ id p, packets id = some p ↔ ∃ m ∈ pre ++ l' :: post, m.bucket = p ∧ id ∈ m.ids)
    (nextid : Nat) :
    Shelf { b with
      heap := update b.heap l.bucket (some n)
      packets := packets
      nextid := nextid } (pre ++ l' :: post) := by
  have hmap : (pre ++ l' :: post).map Lot.bucket = (pre ++ l :: post).map Lot.bucket := by
    simp [hbucket]
  refine ⟨hmap ▸ h.nodelist, hmap ▸ h.nodup, ?_, ?_, hpackets, ?_, hmap ▸ h.freed, h.once⟩
  · intro m hm
    by_cases hml : m.bucket = l.bucket
    · have : m = l' := List.inj_on_of_nodup_map (hmap ▸ h.nodup) hm (by simp)
        (hml.trans hbucket.symm)
      exact ⟨n, hml ▸ update_self _ _ _, this ▸ hn⟩
    · have hold : m ∈ pre ++ l :: post := by
        simp only [List.mem_append, List.mem_cons] at hm ⊢
        rcases hm with hm | rfl | hm
        · exact .inl hm
        · exact absurd hbucket hml
        · exact .inr (.inr hm)
      obtain ⟨k, hk, hhold⟩ := h.holds m hold
      exact ⟨k, (update_of_ne hml _ _).trans hk, hhold⟩
  · intro p hp
    rw [hmap] at hp
    have hne : p ≠ l.bucket := fun heq => hp (by simp [heq])
    exact (update_of_ne hne _ _).trans (h.gone p hp)
  · intro m hm
    simp only [List.mem_append, List.mem_cons] at hm
    rcases hm with hm | rfl | hm
    · exact h.below m (by simp [hm])
    · exact hbucket ▸ h.below l (by simp)
    · exact h.below m (by simp [hm])

end

theorem remove (pre post : List (Lot β)) {l : Lot β} (h : Shelf b (pre ++ l :: post))
    {packets : Nat → Option Nat}
    (hpackets : ∀ id, packets id = if id ∈ l.ids then none else b.packets id) :
    Shelf { b with
      heap := update b.heap l.bucket none
      packets := packets
      nodelist := (pre ++ post).map Lot.bucket
      freed := b.freed ++ (l.buffer.map (Prod.mk l.bucket)).toList } (pre ++ post) := by
  have hmem : ∀ m ∈ pre ++ post, m ∈ pre ++ l :: post := by
    intro m hm
    simp only [List.mem_append, List.mem_cons] at hm ⊢
    tauto
  have hnodup := h.nodup
  rw [List.map_append, List.map_cons, List.nodup_middle, List.nodup_cons, ← List.map_append]
    at hnodup
  refine ⟨rfl, hnodup.2, ?_, ?_, ?_, fun m hm => h.below m (hmem m hm), ?_, ?_⟩
  · intro m hm
    obtain ⟨n, hn, hhold⟩ := h.holds m (hmem m hm)
    exact ⟨n, (update_of_ne (h.other_bucket hm) _ _).trans hn, hhold⟩
  · intro p hp
    by_cases hpl : p = l.bucket
    · exact hpl ▸ update_self _ _ _
    · refine (update_of_ne hpl _ _).trans (h.gone p fun hmap => ?_)
      simp only [List.map_append, List.map_cons, List.mem_append, List.mem_cons] at hmap hp
      tauto
  · intro id p
    change packets id = some p ↔ _
    rw [hpackets]
    split_ifs with hid
    · refine iff_of_false not_false ?_
      rintro ⟨m, hm, -, hmid⟩
      exact h.id_unique hid hm hmid
    · rw [h.packets]
      constructor
      · rintro ⟨m, hm, hp, hmid⟩
        simp only [List.mem_append, List.mem_cons] at hm ⊢
        rcases hm with hm | rfl | hm
        · exact ⟨m, .inl hm, hp, hmid⟩
        · exact absurd hmid hid
        · exact ⟨m, .inr hm, hp, hmid⟩
      · rintro ⟨m, hm, hp, hmid⟩
        exact ⟨m, hmem m hm, hp, hmid⟩
  · intro e he
    rcases List.mem_append.mp he with hold | hnew
    · obtain ⟨hlt, hout⟩ := h.freed e hold
      refine ⟨hlt, fun hin => hout ?_⟩
      simp only [List.map_append, List.map_cons, List.mem_append, List.mem_cons] at hin ⊢
      tauto
    · simp only [Option.mem_toList, Option.map_eq_some_iff] at hnew
      obtain ⟨x, -, rfl⟩ := hnew
      exact ⟨h.below l (by simp), hnodup.1⟩
  · rw [List.map_append, List.nodup_append]
    refine ⟨h.once, ?_, ?_⟩
    · cases l.buffer <;> simp
    · intro p hp q hq heq
      obtain ⟨e, he, rfl⟩ := List.mem_map.mp hp
      have hout := (h.freed e he).2
      simp only [List.mem_map, Option.mem_toList, Option.map_eq_some_iff] at hq
      obtain ⟨e', ⟨x, -, rfl⟩, rfl⟩ := hq
      exact hout (heq ▸ by simp)

theorem add (h : Shelf b lots) (hbucket : l.bucket = b.fresh) (hempty : l.flags = [])
    {n : BucketNode β} (hn : Holds n l) (node : Option Nat) :
    Shelf { b with
      heap := update b.heap b.fresh (some n)
      fresh := b.fresh + 1
      node := node
      nodelist := b.nodelist ++ [b.fresh] } (lots ++ [l]) := by
  have hnew : ∀ m ∈ lots, m.bucket ≠ b.fresh := fun m hm => Nat.ne_of_lt (h.below m hm)
  have hmap : (lots ++ [l]).map Lot.bucket = lots.map Lot.bucket ++ [b.fresh] := by
    simp [hbucket]
  refine ⟨by rw [hmap, h.nodelist], ?_, ?_, ?_, ?_, ?_, ?_, h.once⟩
  · rw [hmap, List.nodup_append]
    refine ⟨h.nodup, List.nodup_singleton _, ?_⟩
    intro p hp q hq
    obtain ⟨m, hm, rfl⟩ := List.mem_map.mp hp
    rw [List.mem_singleton.mp hq]
    exact hnew m hm
  · intro m hm
    rcases List.mem_append.mp hm with hm | hm
    · obtain ⟨k, hk, hhold⟩ := h.holds m hm
      exact ⟨k, (update_of_ne (hnew m hm) _ _).trans hk, hhold⟩
    · rw [List.mem_singleton.mp hm]
      exact ⟨n, hbucket ▸ update_self _ _ _, hn⟩
  · intro p hp
    rw [hmap, List.mem_append, List.mem_singleton] at hp
    have hne : p ≠ b.fresh := fun heq => hp (.inr heq)
    exact (update_of_ne hne _ _).trans (h.gone p fun hin => hp (.inl hin))
  · intro id p
    rw [h.packets]
    constructor
    · rintro ⟨m, hm, hp, hid⟩
      exact ⟨m, List.mem_append_left _ hm, hp, hid⟩
    · rintro ⟨m, hm, hp, hid⟩
      rcases List.mem_append.mp hm with hm | hm
      · exact ⟨m, hm, hp, hid⟩
      · rw [List.mem_singleton.mp hm, Lot.mem_ids, hempty] at hid
        simp at hid
  · intro m hm
    rcases List.mem_append.mp hm with hm | hm
    · exact Nat.lt_succ_of_lt (h.below m hm)
    · rw [List.mem_singleton.mp hm, hbucket]
      exact Nat.lt_succ_self _
  · intro e he
    obtain ⟨hlt, hout⟩ := h.freed e he
    refine ⟨Nat.lt_succ_of_lt hlt, ?_⟩
    rw [hmap, List.mem_append, List.mem_singleton]
    rintro (hin | heq)
    · exact hout hin
    · exact Nat.ne_of_lt hlt heq

end Shelf

end Libtrace.BucketShelf
