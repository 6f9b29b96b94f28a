import Libtrace.BucketShelf

/-! What a call does to the ledger that the buckets represent. -/

namespace Libtrace.BucketCalls
open Exec Buckets BucketLedger BucketShelf Function

variable {β : Type}

/-- Between two calls: the current bucket is the last lot, and every lot before it was used. -/
structure Rep (b : Bucket β) (lots : List (Lot β)) : Prop extends Shelf b lots where
  node : b.node = lots.getLast?.map Lot.bucket
  nextid_pos : 0 < b.nextid
  nextid_le : b.nextid ≤ 200000
  next : ∀ l, lots.getLast? = some l → b.next = idAt l.start l.flags.length
  used : ∀ l ∈ lots.dropLast, l.flags ≠ []

theorem next_range {b : Bucket β} (hpos : 0 < b.nextid) (hle : b.nextid ≤ 200000) :
    0 < b.next ∧ b.next < 200000 := by
  unfold Bucket.next maxOutstanding
  split <;> omega

theorem bucketInit_rep : Rep (bucketInit : Bucket β) [] where
  nodelist := rfl
  nodup := List.nodup_nil
  holds := by simp
  gone := fun _ _ => rfl
  packets := fun _ _ => by simp [bucketInit]
  below := by simp
  freed := by simp [bucketInit]
  once := List.nodup_nil
  node := rfl
  nextid_pos := by simp [bucketInit]
  nextid_le := by simp [bucketInit]
  next := by simp
  used := by simp

theorem Rep.write {b : Bucket β} {pre post : List (Lot β)} {l : Lot β}
    (h : Rep b (pre ++ l :: post)) (l' : Lot β) (hbucket : l'.bucket = l.bucket)
    {n : BucketNode β} (hn : Holds n l') {packets : Nat → Option Nat}
    (hpackets : ∀ id p, packets id = some p ↔
      ∃ m ∈ pre ++ l' :: post, m.bucket = p ∧ id ∈ m.ids)
    {nextid : Nat} (hpos : 0 < nextid) (hle : nextid ≤ 200000)
    (hnext : ∀ m, (pre ++ l' :: post).getLast? = some m →
      Bucket.next { b with nextid := nextid } = idAt m.start m.flags.length)
    (hused : post ≠ [] → l'.flags ≠ []) :
    Rep { b with
      heap := update b.heap l.bucket (some n)
      packets := packets
      nextid := nextid } (pre ++ l' :: post) := by
  refine ⟨h.toShelf.write l' hbucket hn hpackets nextid, ?_, hpos, hle, hnext, ?_⟩
  · refine h.node.trans ?_
    cases post with
    | nil => simp [hbucket]
    | cons m post => simp
  · intro m hm
    rw [List.dropLast_append_cons] at hm
    have hold := h.used
    cases post with
    | nil => exact hold m (by simpa using hm)
    | cons k post =>
      rw [List.dropLast_cons_cons, List.mem_append, List.mem_cons] at hm
      rcases hm with hm | rfl | hm
      · exact hold m (by simp [hm])
      · exact hused (by simp)
      · exact hold m (by simp [hm])

section

theorem dropUnused_spec {b : Bucket β} {lots : List (Lot β)} (h : Rep b lots) :
    ∃ b' kept, dropUnused b = .ok ((), b') ∧ Shelf b' kept ∧ b'.nextid = b.nextid ∧
      ∀ l, l ∈ kept ↔ l ∈ lots ∧ l.flags ≠ [] := by
  rcases List.eq_nil_or_concat' lots with rfl | ⟨pre, l, rfl⟩
  · refine ⟨b, [], ?_, h.toShelf, rfl, by simp⟩
    have hnode := h.node
    rw [dropUnused, get_bind, hnode]
    rfl
  · have hnode : b.node = some l.bucket := by rw [h.node]; simp
    obtain ⟨n, hn, hhold⟩ := h.holds l (by simp)
    have hpre : ∀ m ∈ pre, m.flags ≠ [] := fun m hm => h.used m (by simpa using hm)
    rw [dropUnused, get_bind, hnode]
    simp only [bind_of_ok (deref_ok hn), hhold.startindex_eq_zero]
    by_cases hempty : l.flags = []
    · have hids : ∀ id, b.packets id = if id ∈ l.ids then none else b.packets id := by
        simp [Lot.ids, hempty]
      have hshelf := h.toShelf.remove pre [] hids
      rw [List.append_nil] at hshelf
      refine ⟨_, pre, ?_, hshelf, rfl, ?_⟩
      · rw [if_pos hempty, bind_of_ok (clearBucketNode_ok hn), modify_bind]
        refine (free_ok (by simp [hn])).trans ?_
        simp [h.nodelist, hhold.buffer]
      · intro m
        simp only [List.mem_append, List.mem_singleton]
        constructor
        · exact fun hm => ⟨.inl hm, hpre m hm⟩
        · rintro ⟨hm | rfl, hne⟩
          · exact hm
          · exact absurd hempty hne
    · refine ⟨b, pre ++ [l], ?_, h.toShelf, rfl, ?_⟩
      · rw [if_neg hempty]
        rfl
      · intro m
        simp only [List.mem_append, List.mem_singleton]
        constructor
        · rintro (hm | rfl)
          · exact ⟨.inl hm, hpre m hm⟩
          · exact ⟨.inr rfl, hempty⟩
        · exact fun hm => hm.1

theorem createNewBucket_spec {b : Bucket β} {lots : List (Lot β)} (h : Rep b lots)
    (buffer : Option β) :
    ∃ b' kept l, createNewBucket buffer b = .ok ((), b') ∧ Rep b' (kept ++ [l]) ∧
      l.flags = [] ∧ ∀ m, m ∈ kept ↔ m ∈ lots ∧ m.flags ≠ [] := by
  obtain ⟨b₁, kept, hdrop, hshelf, hnextid, hkept⟩ := dropUnused_spec h
  have hpos : 0 < b₁.nextid := hnextid ▸ h.nextid_pos
  have hle : b₁.nextid ≤ 200000 := hnextid ▸ h.nextid_le
  obtain ⟨hstart, hlt⟩ := next_range hpos hle
  have hhold : Holds ⟨0, List.replicate 10 0, 0, 10, buffer⟩
      (⟨b₁.fresh, b₁.next, [], buffer, hstart, hlt⟩ : Lot β) :=
    ⟨by simp [marks], rfl, by simp, by simp, by simp, by simp, rfl⟩
  refine ⟨_, kept, _, ?_, ⟨hshelf.add rfl rfl hhold (some b₁.fresh), ?_, hpos, hle, ?_, ?_⟩,
    rfl, hkept⟩
  · rw [createNewBucket, bind_of_ok hdrop]
    rfl
  · simp
  · intro l hl
    rw [List.getLast?_concat, Option.some.injEq] at hl
    rw [← hl]
    exact (idAt_zero hstart hlt).symm
  · intro l hl
    rw [List.dropLast_concat] at hl
    exact ((hkept l).mp hl).2

end

section

variable {n : BucketNode β} {l : Lot β} {b : Bucket β} {pre : List (Lot β)}

theorem growFor_spec (h : Holds n l) (hlen : l.flags.length ≤ 10922) (b : Bucket β) :
    ∃ n', growFor n l.flags.length b = .ok (n', b) ∧ Holds n' l ∧ l.flags.length < n'.slots := by
  have hfits := h.fits
  unfold growFor
  by_cases hfull : l.flags.length ≥ n.slots
  · have hslots : (n.slots + 10) % 65536 = n.slots + 10 := by omega
    refine ⟨{ n with
      slots := n.slots + 10
      released := n.released.take (n.slots + 10 - 10) ++ List.replicate 10 0 }, ?_, ?_, ?_⟩
    · rw [if_pos hfull]
      simp only [grow, hslots]
      rfl
    · refine ⟨?_, h.active, ?_, ?_, ?_, h.start, h.buffer⟩
      · change n.released.take (n.slots + 10 - 10) ++ List.replicate 10 0 = _
        rw [Nat.add_sub_cancel, ← h.length_released, List.take_length, h.released,
          marks_grow hfits, length_marks hfits]
      · exact Nat.le_trans hfits (Nat.le_add_right _ _)
      · exact Nat.add_pos_left h.room _
      · change n.slots + 10 ≤ 10932
        omega
    · change l.flags.length < n.slots + 10
      omega
  · refine ⟨n, ?_, h, by omega⟩
    rw [if_neg hfull]
    rfl

section

variable (h : Rep b (pre ++ [l]))
include h

theorem rep_issue (hfree : b.packets b.next = none) (hn : Holds n l.issue) :
    Rep { b with
      heap := update b.heap l.bucket (some n)
      packets := update b.packets b.next (some l.bucket)
      nextid := b.next + 1 } (pre ++ [l.issue]) := by
  obtain ⟨hpos, hlt⟩ := next_range h.nextid_pos h.nextid_le
  have hnext : b.next = idAt l.start l.flags.length := h.next l (by simp)
  have hnone : ∀ m ∈ pre ++ [l], b.next ∉ m.ids := by
    intro m hm hid
    have hsome := (h.packets b.next m.bucket).mpr ⟨m, hm, rfl, hid⟩
    rw [hfree] at hsome
    cases hsome
  refine h.write l.issue rfl hn ?_ (Nat.succ_pos _) hlt ?_ fun h => absurd rfl h
  · intro id p
    by_cases hid : id = b.next
    · rw [hid, update_self, Option.some.injEq]
      constructor
      · rintro rfl
        exact ⟨l.issue, by simp, rfl, by rw [l.ids_issue, hnext]; simp⟩
      · rintro ⟨m, hm, rfl, hmid⟩
        rcases List.mem_append.mp hm with hm | hm
        · exact absurd hmid (hnone m (List.mem_append_left _ hm))
        · rw [List.mem_singleton.mp hm]
          rfl
    · have hissue : id ∈ l.issue.ids ↔ id ∈ l.ids := by
        rw [l.ids_issue, List.mem_append, List.mem_singleton, ← hnext]
        exact or_iff_left hid
      rw [update_of_ne hid, h.packets]
      simp only [List.mem_append, List.mem_singleton, or_and_right, exists_or, exists_eq_left,
        hissue]
      rfl
  · intro m hm
    rw [List.getLast?_concat, Option.some.injEq] at hm
    rw [← hm]
    change Bucket.next { b with nextid := b.next + 1 } = idAt l.start (l.flags ++ [true]).length
    rw [List.length_append, List.length_singleton, idAt_succ l.start_pos, ← hnext]
    rfl

theorem pushIntoBucket_eq (hn : b.heap l.bucket = some n) :
    pushIntoBucket b =
      (if n.startindex = 0 then pushFirst l.bucket b.next n else pushNext l.bucket b.next n)
        { b with nextid := b.next } := by
  have hnode : b.node = some l.bucket := by rw [h.node]; simp
  have hpush : pushIntoBucket b = pushCurrent l.bucket b := by
    rw [pushIntoBucket, get_bind, hnode]
  rw [hpush, pushCurrent, modify_bind, get_bind,
    bind_of_ok (deref_ok (b := { b with nextid := b.next }) hn)]

theorem pushIntoBucket_spec (hlen : l.flags.length ≤ 10922) (hfree : b.packets b.next = none) :
    ∃ b', pushIntoBucket b = .ok (b.next, b') ∧ Rep b' (pre ++ [l.issue]) := by
  obtain ⟨n, hn, hhold⟩ := h.holds l (by simp)
  obtain ⟨hpos, hlt⟩ := next_range h.nextid_pos h.nextid_le
  have hle : b.next ≤ 199999 := by omega
  have hnext : b.next = idAt l.start l.flags.length := h.next l (by simp)
  rw [pushIntoBucket_eq h hn]
  by_cases hempty : l.flags = []
  · have hroom : l.flags.length < n.slots := by simp [hempty, hhold.room]
    refine ⟨_, ?_, rep_issue h hfree (hhold.issue hroom)⟩
    rw [if_pos (hhold.startindex_eq_zero.mpr hempty)]
    refine (pushFirst_ok (b := { b with nextid := b.next }) hle hfree
      (by rw [hhold.length_released]; exact hhold.room)).trans ?_
    have hstart : b.next = l.start := by
      rw [hnext, hempty]
      exact idAt_zero l.start_pos l.start_lt
    have hactive : n.activemembers = 0 := by simp [hhold.active, hempty]
    simp only [hempty, hactive, hstart]
    rfl
  · obtain ⟨n', hgrow, hhold', hroom⟩ := growFor_spec hhold hlen { b with nextid := b.next }
    have hslot : slot n.startindex b.next = l.flags.length := by
      rw [hhold.start_of_ne hempty, hnext, slot_idAt l.start_pos l.start_lt (by omega)]
    rw [← hslot] at hgrow
    refine ⟨_, ?_, rep_issue h hfree (hhold'.issue hroom)⟩
    rw [if_neg (mt hhold.startindex_eq_zero.mp hempty)]
    refine (pushNext_ok (b := { b with nextid := b.next }) hle hfree hgrow
      (by rw [hslot, hhold'.length_released]; exact hroom)).trans ?_
    simp only [hslot, hhold'.start_of_ne hempty]

theorem pushIntoBucket_waits (hlen : l.flags.length ≤ 10922) (hbusy : b.packets b.next ≠ none) :
    pushIntoBucket b = .error .waits := by
  obtain ⟨n, hn, hhold⟩ := h.holds l (by simp)
  obtain ⟨hpos, hlt⟩ := next_range h.nextid_pos h.nextid_le
  have hwaits := waitForSlot_waits (b := { b with nextid := b.next }) (by omega) hbusy
  rw [pushIntoBucket_eq h hn]
  by_cases hempty : l.flags = []
  · rw [if_pos (hhold.startindex_eq_zero.mpr hempty), pushFirst, bind_of_error hwaits]
  · obtain ⟨n', hgrow, -, -⟩ := growFor_spec hhold hlen { b with nextid := b.next }
    have hslot : slot n.startindex b.next = l.flags.length := by
      rw [hhold.start_of_ne hempty, h.next l (by simp), slot_idAt l.start_pos l.start_lt (by omega)]
    rw [← hslot] at hgrow
    rw [if_neg (mt hhold.startindex_eq_zero.mp hempty), pushNext, bind_of_ok hgrow,
      bind_of_error hwaits]

end

end

end Libtrace.BucketCalls
