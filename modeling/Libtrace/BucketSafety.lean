import Libtrace.BucketBooks

/-! Histories of calls on one set of buckets: ids are unique, and a buffer lives as long as an id
pushed from its bucket is outstanding. -/

namespace Libtrace.BucketSafety
open Buckets BucketCalls BucketBooks

variable {β : Type} {c : Client β}

def Allowed (c : Client β) : Request β → Prop
  | .release id => id ∈ c.outstanding
  | _ => True

/-- The histories in which no push waits and no bucket gets more than 10922 ids. -/
inductive Reached : List (Request β) → Client β → Prop where
  | init : Reached [] Client.init
  | step {requests : List (Request β)} {c c' : Client β} (request : Request β)
      (before : Reached requests c) (allowed : Allowed c request)
      (returns : c.step request = .ok c') (few : ∀ p, (c'.given p).card ≤ 10922) :
      Reached (requests ++ [request]) c'

theorem reached_few {requests : List (Request β)} (h : Reached requests c) :
    ∀ p, (c.given p).card ≤ 10922 := by
  cases h with
  | init => simp [Client.init]
  | step request before allowed returns few => exact few

theorem reached_books {requests : List (Request β)} (h : Reached requests c) :
    ∃ lots, Books c lots ∧ ((∃ buffer, Request.create buffer ∈ requests) → lots ≠ []) := by
  induction h with
  | init => exact ⟨[], init_books, by simp⟩
  | @step requests c c' request before allowed returns few ih =>
    obtain ⟨lots, hbooks, hcreated⟩ := ih
    cases request with
    | create buffer =>
      obtain ⟨c'', lots', hstep, hbooks', hne⟩ := create_books hbooks buffer
      rw [returns, Except.ok.injEq] at hstep
      exact ⟨lots', hstep ▸ hbooks', fun _ => hne⟩
    | push =>
      obtain ⟨lots', hbooks', hne⟩ := push_returns hbooks (reached_few before) returns
      exact ⟨lots', hbooks', fun hcreate => hne (hcreated (by simpa using hcreate))⟩
    | release id =>
      obtain ⟨c'', lots', hstep, hbooks', hnode, -⟩ := release_books hbooks allowed
      rw [returns, Except.ok.injEq] at hstep
      subst hstep
      refine ⟨lots', hbooks', fun hcreate hnil => hcreated (by simpa using hcreate) ?_⟩
      rw [hbooks'.rep.node, hbooks.rep.node, hnil] at hnode
      exact List.getLast?_eq_none_iff.mp (Option.map_eq_none_iff.mp hnode.symm)

/-- A buffer is freed at most once and not while an id pushed from its bucket is outstanding; a push
that does not wait returns a new id; a release of an outstanding id returns, and frees the front
bucket when no other id of it is outstanding. -/
theorem buckets_safe {requests : List (Request β)} (h : Reached requests c) :
    (c.lib.freed.map Prod.fst).Nodup ∧
    (∀ id ∈ c.outstanding, ∃ p n, c.owner id = some p ∧ c.lib.heap p = some n ∧
      ∀ x, (p, x) ∉ c.lib.freed) ∧
    (∀ buffer, ∃ c', c.step (.create buffer) = .ok c') ∧
    ((∃ buffer, Request.create buffer ∈ requests) → pushIntoBucket c.lib ≠ .error .waits →
      ∃ id c', pushIntoBucket c.lib = .ok (id, c'.lib) ∧ c.step .push = .ok c' ∧
        1 ≤ id ∧ id ≤ 199999 ∧ id ∉ c.outstanding) ∧
    (∀ id ∈ c.outstanding, ∃ c', c.step (.release id) = .ok c' ∧
      ∀ f rest, c.lib.nodelist = f :: rest → c.lib.node ≠ some f →
        (∀ j ∈ c.outstanding, j ≠ id → c.owner j ≠ some f) → Frees c c' id f) := by
  obtain ⟨lots, hbooks, hcreated⟩ := reached_books h
  have hfew := reached_few h
  refine ⟨hbooks.rep.once, ?_, ?_, ?_, ?_⟩
  · intro id hid
    obtain ⟨l, hl, hopen⟩ := (hbooks.outstanding id).mp hid
    obtain ⟨n, hn, -⟩ := hbooks.rep.holds l hl
    refine ⟨l.bucket, n, hbooks.owner l hl id (l.open_mem hopen), hn, fun x hx => ?_⟩
    exact (hbooks.rep.freed _ hx).2 (List.mem_map_of_mem hl)
  · intro buffer
    obtain ⟨c', -, hstep, -⟩ := create_books hbooks buffer
    exact ⟨c', hstep⟩
  · intro hcreate hwait
    obtain ⟨pre, l, rfl⟩ := (List.eq_nil_or_concat' lots).resolve_left (hcreated hcreate)
    have hfree : c.lib.packets c.lib.next = none := by
      by_contra hbusy
      exact hwait (pushIntoBucket_waits hbooks.rep (hbooks.length_le hfew (by simp)) hbusy)
    obtain ⟨lib, hpush, hstep, -⟩ := push_books hbooks hfew hfree
    obtain ⟨hpos, hlt⟩ := next_range hbooks.rep.nextid_pos hbooks.rep.nextid_le
    refine ⟨c.lib.next, _, hpush, hstep, hpos, Nat.le_of_lt_succ hlt, fun hid => ?_⟩
    obtain ⟨m, hm, hopen⟩ := (hbooks.outstanding _).mp hid
    have hsome := (hbooks.rep.packets _ _).mpr ⟨m, hm, rfl, m.open_mem hopen⟩
    rw [hfree] at hsome
    cases hsome
  · intro id hid
    obtain ⟨c', -, hstep, -, -, hfrees⟩ := release_books hbooks hid
    exact ⟨c', hstep, hfrees⟩

theorem twoBuckets_safe : ∃ c c' : Client Nat,
    Reached [.create (some 7), .push, .create (some 8)] c ∧ 199999 ∈ c.outstanding ∧
      c.step (.release 199999) = .ok c' ∧ Frees c c' 199999 0 := by
  have hfew : ∀ p, (Function.update (fun _ => (∅ : Finset Nat)) 0 {199999} p).card ≤ 10922 := by
    intro p
    rw [Function.update_apply]
    split <;> simp
  have hcreate : Reached [.create (some 7)] (_ : Client Nat) :=
    .step (.create (some 7)) .init trivial rfl (by simp [Client.init])
  have hpush := Reached.step .push hcreate trivial rfl hfew
  have h := Reached.step (.create (some 8)) hpush trivial rfl hfew
  have hid : 199999 ∈ ({199999} : Finset Nat) := Finset.mem_singleton_self _
  obtain ⟨c', hstep, hfrees⟩ := (buckets_safe h).2.2.2.2 199999 hid
  refine ⟨_, c', h, hid, hstep, hfrees 0 [1] rfl (by decide) ?_⟩
  intro j hj hne
  exact absurd (Finset.mem_singleton.mp hj) hne

end Libtrace.BucketSafety
