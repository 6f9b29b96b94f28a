import Libtrace.BucketRelease
import Mathlib.Data.Finset.Card

/-! A client of one set of buckets keeps the books that the calls do not see: which ids are
outstanding, and which bucket each was last pushed from. -/

namespace Libtrace.BucketBooks
open Exec Buckets BucketLedger BucketShelf BucketCalls BucketRelease Function

variable {β : Type}

inductive Request (β : Type) where
  | create (buffer : Option β)
  | push
  | release (id : Nat)

structure Client (β : Type) where
  lib : Bucket β
  outstanding : Finset Nat
  owner : Nat → Option Nat
  given : Nat → Finset Nat

def Client.init : Client β := ⟨bucketInit, ∅, fun _ => none, fun _ => ∅⟩

def Client.pushed (c : Client β) (lib : Bucket β) (id p : Nat) : Client β where
  lib := lib
  outstanding := insert id c.outstanding
  owner := update c.owner id (some p)
  given := update c.given p (insert id (c.given p))

def Client.step (c : Client β) : Request β → Except Fault (Client β)
  | .create buffer => do
    let (_, lib) ← createNewBucket buffer c.lib
    return { c with lib := lib }
  | .push => do
    let (id, lib) ← pushIntoBucket c.lib
    match lib.node with
    | none => return { c with lib := lib }
    | some p => return c.pushed lib id p
  | .release id => do
    let (_, lib) ← releaseBucketId id c.lib
    return { c with lib := lib, outstanding := c.outstanding.erase id }

structure Agrees (c : Client β) (lots : List (Lot β)) : Prop where
  outstanding : ∀ id, id ∈ c.outstanding ↔ ∃ l ∈ lots, l.Open id
  owner : ∀ l ∈ lots, ∀ id ∈ l.ids, c.owner id = some l.bucket
  given : ∀ l ∈ lots, ∀ id ∈ l.ids, id ∈ c.given l.bucket

structure Books (c : Client β) (lots : List (Lot β)) : Prop extends Agrees c lots where
  rep : Rep c.lib lots

theorem init_books : Books (Client.init : Client β) [] :=
  ⟨⟨by simp [Client.init], by simp, by simp⟩, bucketInit_rep⟩

variable {c : Client β} {lots pre post : List (Lot β)} {l l' : Lot β}

theorem Books.length_le (h : Books c lots) (hfew : ∀ p, (c.given p).card ≤ 10922)
    (hl : l ∈ lots) : l.flags.length ≤ 10922 := by
  obtain ⟨n, -, hhold⟩ := h.rep.holds l hl
  have hfits := hhold.fits
  have hslots := hhold.slots
  have hcard : ((Finset.range l.flags.length).image (idAt l.start)).card = l.flags.length := by
    rw [Finset.card_image_of_injOn, Finset.card_range]
    intro i hi j hj heq
    exact Lot.place_unique (by omega) (by simpa using hi) (by simpa using hj) heq
  rw [← hcard]
  refine le_trans (Finset.card_le_card fun id hid => ?_) (hfew l.bucket)
  obtain ⟨i, hi, rfl⟩ := Finset.mem_image.mp hid
  exact h.given l hl _ (l.mem_ids.mpr ⟨i, Finset.mem_range.mp hi, rfl⟩)

section

theorem create_books (h : Books c lots) (buffer : Option β) :
    ∃ c' lots', c.step (.create buffer) = .ok c' ∧ Books c' lots' ∧ lots' ≠ [] := by
  obtain ⟨b', kept, l, hcreate, hrep, hempty, hkept⟩ := createNewBucket_spec h.rep buffer
  have hnone : ∀ id, id ∉ l.ids := by simp [Lot.ids, hempty]
  have hold : ∀ m ∈ kept ++ [l], ∀ id ∈ m.ids, m ∈ lots := by
    intro m hm id hid
    rcases List.mem_append.mp hm with hm | hm
    · exact ((hkept m).mp hm).1
    · exact absurd (List.mem_singleton.mp hm ▸ hid) (hnone id)
  refine ⟨{ c with lib := b' }, kept ++ [l], ?_, ⟨⟨?_, ?_, ?_⟩, hrep⟩, by simp⟩
  · simp only [Client.step, hcreate]
    rfl
  · intro id
    rw [h.outstanding]
    constructor
    · rintro ⟨m, hm, hopen⟩
      have hne : m.flags ≠ [] := by
        rintro hnil
        simpa [Lot.ids, hnil] using m.open_mem hopen
      exact ⟨m, List.mem_append_left _ ((hkept m).mpr ⟨hm, hne⟩), hopen⟩
    · rintro ⟨m, hm, hopen⟩
      exact ⟨m, hold m hm id (m.open_mem hopen), hopen⟩
  · exact fun m hm id hid => h.owner m (hold m hm id hid) id hid
  · exact fun m hm id hid => h.given m (hold m hm id hid) id hid

end

section

theorem push_books (h : Books c (pre ++ [l])) (hfew : ∀ p, (c.given p).card ≤ 10922)
    (hfree : c.lib.packets c.lib.next = none) :
    ∃ lib, pushIntoBucket c.lib = .ok (c.lib.next, lib) ∧
      c.step .push = .ok (c.pushed lib c.lib.next l.bucket) ∧
      Books (c.pushed lib c.lib.next l.bucket) (pre ++ [l.issue]) := by
  obtain ⟨lib, hpush, hrep⟩ := pushIntoBucket_spec h.rep (h.length_le hfew (by simp)) hfree
  have hnext : c.lib.next = idAt l.start l.flags.length := h.rep.next l (by simp)
  have hnode : lib.node = some l.bucket := by
    rw [hrep.node, List.getLast?_concat]
    rfl
  -- An id of the new ledger is the one pushed or was there before.
  have hids : ∀ m ∈ pre ++ [l.issue], ∀ id ∈ m.ids, (id = c.lib.next ∧ m = l.issue) ∨
      (id ≠ c.lib.next ∧ ∃ k ∈ pre ++ [l], k.bucket = m.bucket ∧ id ∈ k.ids) := by
    intro m hm id hid
    have hold : ∀ k ∈ pre ++ [l], c.lib.next ∉ k.ids := by
      intro k hk hmem
      have hsome := (h.rep.packets _ _).mpr ⟨k, hk, rfl, hmem⟩
      rw [hfree] at hsome
      cases hsome
    rcases List.mem_append.mp hm with hm | hm
    · have hk := List.mem_append_left [l] hm
      exact .inr ⟨fun heq => hold m hk (heq ▸ hid), m, hk, rfl, hid⟩
    · obtain rfl := List.mem_singleton.mp hm
      rw [l.ids_issue, ← hnext, List.mem_append, List.mem_singleton] at hid
      by_cases heq : id = c.lib.next
      · exact .inl ⟨heq, rfl⟩
      · exact .inr ⟨heq, l, by simp, rfl, hid.resolve_right heq⟩
  refine ⟨lib, hpush, ?_, ⟨?_, ?_, ?_⟩, hrep⟩
  · simp only [Client.step, hpush]
    change (match lib.node with
      | none => pure { c with lib := lib }
      | some p => pure (c.pushed lib c.lib.next p)) = _
    rw [hnode]
    rfl
  · intro id
    simp only [Client.pushed, Finset.mem_insert, h.outstanding, List.mem_append,
      List.mem_singleton, or_and_right, exists_or, exists_eq_left, l.open_issue, ← hnext]
    rw [or_comm, or_assoc]
  · intro m hm id hid
    simp only [Client.pushed, update_apply]
    rcases hids m hm id hid with ⟨heq, rfl⟩ | ⟨hne, k, hk, hbucket, hkid⟩
    · exact if_pos heq
    · rw [if_neg hne, h.owner k hk id hkid, hbucket]
  · intro m hm id hid
    simp only [Client.pushed, update_apply]
    rcases hids m hm id hid with ⟨heq, rfl⟩ | ⟨hne, k, hk, hbucket, hkid⟩
    · rw [if_pos (show l.issue.bucket = l.bucket from rfl), heq]
      exact Finset.mem_insert_self _ _
    · have hgiven := h.given k hk id hkid
      rw [hbucket] at hgiven
      split_ifs with hp
      · exact Finset.mem_insert_of_mem (hp ▸ hgiven)
      · exact hgiven

theorem push_returns {c' : Client β} (h : Books c lots) (hfew : ∀ p, (c.given p).card ≤ 10922)
    (hstep : c.step .push = .ok c') : ∃ lots', Books c' lots' ∧ (lots ≠ [] → lots' ≠ []) := by
  rcases List.eq_nil_or_concat' lots with rfl | ⟨pre, l, rfl⟩
  · have hnode : c.lib.node = none := h.rep.node
    have hpush : pushIntoBucket c.lib = .ok (0, c.lib) := by
      rw [pushIntoBucket, get_bind, hnode]
      rfl
    have hsame : c.step .push = .ok c := by
      simp only [Client.step, hpush]
      change (match c.lib.node with
        | none => pure c
        | some p => pure (c.pushed c.lib 0 p)) = _
      rw [hnode]
      rfl
    rw [hstep, Except.ok.injEq] at hsame
    exact ⟨[], hsame ▸ h, id⟩
  · by_cases hfree : c.lib.packets c.lib.next = none
    · obtain ⟨lib, -, hpushed, hbooks⟩ := push_books h hfew hfree
      rw [hstep, Except.ok.injEq] at hpushed
      exact ⟨_, hpushed ▸ hbooks, by simp⟩
    · have hwaits := pushIntoBucket_waits h.rep (h.length_le hfew (by simp)) hfree
      simp only [Client.step, hwaits] at hstep
      cases hstep

end

section

/-- What the release of `id` does to a bucket `f` that it frees, and to the entries of the
others. -/
structure Frees (c c' : Client β) (id f : Nat) : Prop where
  node : c'.lib.heap f = none
  list : f ∉ c'.lib.nodelist
  buffer : ∀ n x, c.lib.heap f = some n → n.buffer = some x → (f, x) ∈ c'.lib.freed
  cleared : ∀ j, c.owner j = some f → c'.lib.packets j = none
  kept : ∀ j, j ≠ id ∨ c.owner id ≠ c.lib.node →
    (∀ p, c.owner j = some p → p ∈ c'.lib.nodelist) → c'.lib.packets j = c.lib.packets j

theorem Agrees.retire (h : Agrees c (pre ++ l :: post)) (hshelf : Shelf c.lib (pre ++ l :: post))
    {id : Nat} (hopen : l.Open id) (hretires : l.Retires l' id) (lib : Bucket β) :
    Agrees { c with lib := lib, outstanding := c.outstanding.erase id } (pre ++ l' :: post) := by
  have hold : ∀ m ∈ pre ++ l' :: post, ∀ j ∈ m.ids,
      ∃ k ∈ pre ++ l :: post, k.bucket = m.bucket ∧ j ∈ k.ids := by
    intro m hm j hj
    simp only [List.mem_append, List.mem_cons] at hm
    rcases hm with hm | rfl | hm
    · exact ⟨m, by simp [hm], rfl, hj⟩
    · exact ⟨l, by simp, hretires.bucket.symm, hretires.ids j hj⟩
    · exact ⟨m, by simp [hm], rfl, hj⟩
  refine ⟨fun j => ?_, ?_, ?_⟩
  · have hother : ∀ m ∈ pre ++ post, m.Open j → j ≠ id := by
      rintro m hm hj rfl
      exact hshelf.id_unique (l.open_mem hopen) hm (m.open_mem hj)
    simp only [List.mem_append] at hother
    simp only [Finset.mem_erase, h.outstanding, List.mem_append, List.mem_cons, or_and_right,
      exists_or, exists_eq_left, hretires.opens]
    constructor
    · rintro ⟨hne, hm | hl | hm⟩
      · exact .inl hm
      · exact .inr (.inl ⟨hl, hne⟩)
      · exact .inr (.inr hm)
    · rintro (⟨m, hm, hj⟩ | ⟨hl, hne⟩ | ⟨m, hm, hj⟩)
      · exact ⟨hother m (.inl hm) hj, .inl ⟨m, hm, hj⟩⟩
      · exact ⟨hne, .inr (.inl hl)⟩
      · exact ⟨hother m (.inr hm) hj, .inr (.inr ⟨m, hm, hj⟩)⟩
  · intro m hm j hj
    obtain ⟨k, hk, hbucket, hkj⟩ := hold m hm j hj
    exact hbucket ▸ h.owner k hk j hkj
  · intro m hm j hj
    obtain ⟨k, hk, hbucket, hkj⟩ := hold m hm j hj
    exact hbucket ▸ h.given k hk j hkj

theorem Agrees.drop {gone rest : List (Lot β)} (h : Agrees c (gone ++ rest))
    (hsettled : ∀ m ∈ gone, m.Settled) : Agrees c rest := by
  refine ⟨fun id => (h.outstanding id).trans ?_, ?_, ?_⟩
  · constructor
    · rintro ⟨m, hm, hopen⟩
      rcases List.mem_append.mp hm with hm | hm
      · exact absurd hopen (hsettled m hm id)
      · exact ⟨m, hm, hopen⟩
    · rintro ⟨m, hm, hopen⟩
      exact ⟨m, List.mem_append_right _ hm, hopen⟩
  · exact fun m hm => h.owner m (List.mem_append_right _ hm)
  · exact fun m hm => h.given m (List.mem_append_right _ hm)

theorem release_books (h : Books c lots) {id : Nat} (hid : id ∈ c.outstanding) :
    ∃ c' lots', c.step (.release id) = .ok c' ∧ Books c' lots' ∧ c'.lib.node = c.lib.node ∧
      ∀ f rest, c.lib.nodelist = f :: rest → c.lib.node ≠ some f →
        (∀ j ∈ c.outstanding, j ≠ id → c.owner j ≠ some f) → Frees c c' id f := by
  obtain ⟨l, hl, i, hi, rfl⟩ := (h.outstanding id).mp hid
  obtain ⟨pre, post, rfl⟩ := List.append_of_mem hl
  have hopen : l.Open (idAt l.start i) := ⟨i, hi, rfl⟩
  obtain ⟨b₁, lib, l', gone, rest, hrelease, hretires, hsplit, hswept, hfreed, hnode, hpackets⟩ :=
    releaseBucketId_spec h.rep hi
  have hagrees := h.retire h.rep.toShelf hopen hretires lib
  rw [hsplit] at hagrees
  refine ⟨_, rest, ?_, ⟨hagrees.drop hswept.settled, hswept.rep⟩, hswept.node.trans hnode, ?_⟩
  · simp only [Client.step, hrelease]
    rfl
  · intro f tail hlist hcurrent hreleased
    have hbuckets : (gone ++ rest).map Lot.bucket = f :: tail := by
      rw [← hsplit, ← hlist, h.rep.nodelist]
      simp [hretires.bucket]
    have hnodup : ((gone ++ rest).map Lot.bucket).Nodup := by
      rw [hbuckets, ← hlist, h.rep.nodelist]
      exact h.rep.nodup
    have hfront : ∀ m ∈ gone ++ rest, m.bucket = f → m.Settled := by
      intro m hm hbucket j hj
      obtain ⟨hne, hout⟩ := Finset.mem_erase.mp ((hagrees.outstanding j).mpr ⟨m, hm, hj⟩)
      exact hreleased j hout hne (hbucket ▸ hagrees.owner m hm j (m.open_mem hj))
    obtain ⟨m, gone', rfl, rfl⟩ : ∃ m gone', gone = m :: gone' ∧ m.bucket = f := by
      cases gone with
      | cons m gone' => exact ⟨m, gone', rfl, (List.cons.inj hbuckets).1⟩
      | nil =>
        match rest, hbuckets, hswept, hfront with
        | [m], hbuckets, hswept, _ =>
          refine absurd ?_ hcurrent
          rw [← hnode, ← hswept.node, hswept.rep.node, ← (List.cons.inj hbuckets).1]
          rfl
        | m :: k :: tail, hbuckets, hswept, hfront =>
          exact absurd (hfront m (by simp) (List.cons.inj hbuckets).1)
            (hswept.front m k tail rfl)
    have hout : m.bucket ∉ rest.map Lot.bucket := by
      rw [List.cons_append, List.map_cons, List.nodup_cons, List.map_append, List.mem_append]
        at hnodup
      exact fun hin => hnodup.1 (.inr hin)
    refine ⟨hswept.rep.gone _ hout, hswept.rep.nodelist ▸ hout, ?_, ?_, ?_⟩
    · intro n x hn hx
      obtain ⟨k, hk, hbucket, hbuffer⟩ : ∃ k ∈ pre ++ l :: post,
          k.bucket = m.bucket ∧ k.buffer = m.buffer := by
        have hm : m ∈ pre ++ l' :: post := hsplit ▸ by simp
        simp only [List.mem_append, List.mem_cons] at hm
        rcases hm with hm | rfl | hm
        · exact ⟨m, by simp [hm], rfl, rfl⟩
        · exact ⟨l, by simp, hretires.bucket.symm, hretires.buffer.symm⟩
        · exact ⟨m, by simp [hm], rfl, rfl⟩
      obtain ⟨n', hn', hhold⟩ := h.rep.holds k hk
      rw [hbucket, hn, Option.some.injEq] at hn'
      have hx' : m.buffer = some x := by rw [← hbuffer, ← hhold.buffer, ← hn', hx]
      rw [hswept.freed, List.flatMap_cons, hx']
      simp
    · intro j hj
      by_contra hsome
      obtain ⟨p, hp⟩ := Option.ne_none_iff_exists'.mp hsome
      obtain ⟨k, hk, rfl, hkj⟩ := (hswept.rep.packets j p).mp hp
      have howner := hagrees.owner k (List.mem_append_right _ hk) j hkj
      rw [show c.owner j = some m.bucket from hj, Option.some.injEq] at howner
      exact hout (howner ▸ List.mem_map_of_mem hk)
    · intro j hj hkept
      rw [hswept.packets, if_neg, hpackets j]
      · refine hj.imp_right fun hother hpost => hother ?_
        rw [(node_eq_iff h.rep).mpr hpost]
        exact h.owner l hl _ (l.open_mem hopen)
      · intro hmem
        obtain ⟨k, hk, hkj⟩ := List.mem_flatMap.mp hmem
        have hin := hkept k.bucket (hagrees.owner k (List.mem_append_left _ hk) j hkj)
        rw [hswept.rep.nodelist] at hin
        rw [List.map_append, List.nodup_append] at hnodup
        exact hnodup.2.2 _ (List.mem_map_of_mem hk) _ hin rfl

end

end Libtrace.BucketBooks
