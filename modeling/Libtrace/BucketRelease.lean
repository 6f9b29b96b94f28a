import Libtrace.BucketCalls

/-! A release: one id of a lot is retired, and the settled lots at the front are freed. -/

namespace Libtrace.BucketRelease
open Exec Buckets BucketLedger BucketShelf BucketCalls Function

variable {β : Type}

section

variable {b : Bucket β} {pre post : List (Lot β)} {l : Lot β} {n : BucketNode β}

theorem previd_eq (h : Rep b (pre ++ [l])) {f : List Bool} {out : Bool}
    (hf : l.flags = f ++ [out]) : b.previd = idAt l.start f.length := by
  have hnext := h.next l (by simp)
  have hle := h.nextid_le
  have hstart := l.start_pos
  rw [hf, List.length_append, List.length_singleton] at hnext
  unfold Bucket.next maxOutstanding idAt at hnext
  unfold Bucket.previd maxOutstanding idAt
  split_ifs at hnext ⊢ <;> omega

theorem node_eq_iff (h : Rep b (pre ++ l :: post)) : b.node = some l.bucket ↔ post = [] := by
  rw [h.node, List.getLast?_append_cons]
  constructor
  · intro heq
    obtain ⟨m, hm, hbucket⟩ := Option.map_eq_some_iff.mp heq
    rcases List.eq_nil_or_concat' post with rfl | ⟨post, k, rfl⟩
    · rfl
    · rw [← List.cons_append, List.getLast?_concat, Option.some.injEq] at hm
      exact absurd (hm ▸ hbucket) (h.other_bucket (by simp))
  · rintro rfl
    rfl

theorem rep_retire (h : Rep b (pre ++ l :: post)) {i : Nat} (hi : l.flags[i]? = some true)
    (hn : Holds n (l.retire i)) :
    Rep { b with heap := update b.heap l.bucket (some n) }
      (pre ++ l.retire i :: post) := by
  refine h.write (l.retire i) rfl hn ?_ h.nextid_pos h.nextid_le ?_ ?_
  · intro id p
    rw [h.packets]
    simp only [List.mem_append, List.mem_cons, or_and_right, exists_or, exists_eq_left,
      l.ids_retire]
    rfl
  · intro m hm
    rw [List.getLast?_append_cons] at hm
    cases post with
    | nil =>
      rw [List.getLast?_singleton, Option.some.injEq] at hm
      rw [← hm]
      simpa [Lot.retire] using h.next l (by simp)
    | cons k post => exact h.next m (by rw [List.getLast?_append_cons]; simpa using hm)
  · intro _ hempty
    have hlen : (l.flags.set i false).length = 0 := by
      rw [show l.flags.set i false = [] from hempty]
      rfl
    have := (List.getElem?_eq_some_iff.mp hi).1
    rw [List.length_set] at hlen
    omega

theorem rep_takeBack (h : Rep b (pre ++ [l])) {f : List Bool} (hf : l.flags = f ++ [true])
    (hn : Holds n l.takeBack) (hlen : l.flags.length < 199999) :
    Rep { b with
      heap := update b.heap l.bucket (some n)
      packets := update b.packets (idAt l.start f.length) none
      nextid := idAt l.start f.length } (pre ++ [l.takeBack]) := by
  obtain ⟨hpos, hle⟩ := idAt_range l.start f.length
  have hback : l.takeBack.flags = f := by rw [Lot.takeBack, hf, List.dropLast_concat]
  refine h.write l.takeBack rfl hn ?_ hpos (Nat.le_succ_of_le hle) ?_ fun h => absurd rfl h
  · intro id p
    by_cases hid : id = idAt l.start f.length
    · rw [hid, update_self]
      refine iff_of_false (Option.some_ne_none p).symm ?_
      rintro ⟨m, hm, -, hmid⟩
      rcases List.mem_append.mp hm with hm | hm
      · refine h.id_unique ?_ (by simpa using hm) hmid
        rw [Lot.ids_takeBack hf]
        simp
      · rw [List.mem_singleton.mp hm, Lot.mem_ids, hback] at hmid
        obtain ⟨j, hj, heq⟩ := hmid
        rw [hf, List.length_append] at hlen
        have := idAt_inj l.start_pos (by omega) (by omega) heq
        omega
    · have hids : id ∈ l.takeBack.ids ↔ id ∈ l.ids := by
        rw [Lot.ids_takeBack hf, List.mem_append, List.mem_singleton]
        exact (or_iff_left hid).symm
      rw [update_of_ne hid, h.packets]
      simp only [List.mem_append, List.mem_cons, or_and_right, exists_or, exists_eq_left, hids]
      rfl
  · intro m hm
    rw [List.getLast?_concat, Option.some.injEq] at hm
    rw [← hm, hback]
    exact if_neg (Nat.not_le.mpr (Nat.lt_succ_of_le hle))

theorem releaseSlot_spec (h : Rep b (pre ++ l :: post))
    (hhold : Holds n l) {i : Nat} (hi : l.flags[i]? = some true) :
    ∃ b' l', releaseSlot l.bucket n (idAt l.start i) i b = .ok ((), b') ∧
      Rep b' (pre ++ l' :: post) ∧ l.Retires l' (idAt l.start i) ∧
      b'.freed = b.freed ∧ b'.node = b.node ∧
      ∀ id, (id ≠ idAt l.start i ∨ post ≠ []) → b'.packets id = b.packets id := by
  have hlt := (List.getElem?_eq_some_iff.mp hi).1
  have hfits := hhold.fits
  have hslots := hhold.slots
  have hlen : l.flags.length < 199999 := by omega
  have hroom : i < n.released.length := by rw [hhold.length_released]; omega
  unfold releaseSlot
  rw [get_bind]
  by_cases hlast : b.node = some l.bucket ∧ idAt l.start i = b.previd
  · obtain rfl := (node_eq_iff h).mp hlast.1
    obtain ⟨f, out, hf⟩ := (List.eq_nil_or_concat' l.flags).resolve_left
      (List.ne_nil_of_length_pos (by omega))
    have hprev := previd_eq h hf
    have hif : i = f.length :=
      Lot.place_unique hlen hlt (by simp [hf]) (hlast.2.trans hprev)
    have hout : out = true := by simpa [hf, hif] using hi
    subst hif hout
    refine ⟨_, l.takeBack, ?_, rep_takeBack h hf (hhold.takeBack hf) hlen,
      Lot.retires_takeBack hlen hf, rfl, rfl, ?_⟩
    · simp only [if_pos hlast]
      rw [bind_of_ok (writePacket_ok (idAt_range _ _).2 _ _), modify_bind,
        bind_of_ok (writeReleased_ok n hroom 0 _)]
      have hstart : n.startindex = l.start := hhold.start_of_ne (by simp [hf])
      have hfirst := idAt_zero l.start_pos l.start_lt
      have hzero : idAt l.start f.length = l.start ↔ f = [] := by
        constructor
        · intro heq
          exact List.eq_nil_of_length_eq_zero
            (idAt_inj l.start_pos (by omega) (by omega) (heq.trans hfirst.symm))
        · rintro rfl
          exact hfirst
      simp only [hstart, hzero, hprev]
      rfl
    · rintro id (hid | hpost)
      · exact update_of_ne hid _ _
      · exact absurd rfl hpost
  · refine ⟨_, l.retire i, ?_, rep_retire h hi (hhold.retire hi), Lot.retires_retire hlen hlt,
      rfl, rfl, fun _ _ => rfl⟩
    simp only [if_neg hlast]
    rw [bind_of_ok (writeReleased_ok n hroom 2 b)]
    rfl

end

section

variable {b : Bucket β} {l : Lot β} {n : BucketNode β}

theorem clearPacket_spec (hhold : Holds n l) (hsettled : l.Settled) (hne : l.flags ≠ []) {i : Nat}
    (hi : i < n.slots) (b : Bucket β) :
    clearPacket n i b = .ok ((), { b with
      packets := fun id => if i < l.flags.length ∧ id = idAt l.start i then none
        else b.packets id }) := by
  have hslots := hhold.slots
  unfold clearPacket
  by_cases hlt : i < l.flags.length
  · have hfalse : l.flags[i]? = some false := by
      rw [List.getElem?_eq_getElem hlt, Option.some.injEq, ← Bool.not_eq_true]
      exact fun htrue => hsettled _ ⟨i, by rw [List.getElem?_eq_getElem hlt, htrue], rfl⟩
    have hmark := hhold.released ▸ marks_getElem? hfalse n.slots
    rw [bind_of_ok (readReleased_ok hmark b), hhold.start_of_ne hne,
      packetIndex_eq l.start_pos l.start_lt (by omega)]
    refine (writePacket_ok (idAt_range _ _).2 _ _).trans ?_
    simp only [hlt, true_and]
    congr 3
    funext id
    rw [update_apply]
  · have hmark : n.released[i]? = some 0 := by
      rw [hhold.released, marks, List.getElem?_append_right (by simpa using hlt),
        List.getElem?_replicate]
      simp only [List.length_map]
      exact if_pos (by omega)
    rw [bind_of_ok (readReleased_ok hmark b)]
    simp only [hlt, false_and, if_false]
    rfl

theorem clearPackets_spec (hhold : Holds n l) (hsettled : l.Settled) (hne : l.flags ≠ [])
    (b : Bucket β) :
    clearPackets n b = .ok ((), { b with
      packets := fun id => if id ∈ l.ids then none else b.packets id }) := by
  have hrounds : ∀ k ≤ n.slots, forM (List.range k) (clearPacket n) b = .ok ((), { b with
      packets := fun id => if ∃ i < k, i < l.flags.length ∧ id = idAt l.start i then none
        else b.packets id }) := by
    intro k
    induction k with
    | zero =>
      intro _
      rfl
    | succ k ih =>
      intro hk
      rw [List.range_succ, List.forM_append, bind_of_ok (ih (by omega)), List.forM_cons,
        bind_of_ok (clearPacket_spec hhold hsettled hne hk _), List.forM_nil]
      simp only [Nat.lt_succ_iff_lt_or_eq, or_and_right, exists_or, exists_eq_left]
      change Except.ok _ = Except.ok _
      congr 3
      funext id
      by_cases hlast : k < l.flags.length ∧ id = idAt l.start k
      · rw [if_pos hlast, if_pos (.inr hlast)]
      · rw [if_neg hlast]
        exact if_congr (or_iff_left hlast).symm rfl rfl
  refine (hrounds n.slots (Nat.le_refl _)).trans ?_
  congr 4
  funext id
  congr 1
  rw [l.mem_ids, eq_iff_iff]
  constructor
  · rintro ⟨i, -, hi, hid⟩
    exact ⟨i, hi, hid.symm⟩
  · rintro ⟨i, hi, hid⟩
    exact ⟨i, Nat.lt_of_lt_of_le hi hhold.fits, hi, hid.symm⟩

theorem sweepFront_settled {m : Lot β} {rest : List (Lot β)} (h : Rep b (l :: m :: rest))
    (hsettled : l.Settled) :
    ∃ b', sweepFront b = .ok (true, b') ∧ Rep b' (m :: rest) ∧ b'.node = b.node ∧
      b'.freed = b.freed ++ (l.buffer.map (Prod.mk l.bucket)).toList ∧
      ∀ id, b'.packets id = if id ∈ l.ids then none else b.packets id := by
  obtain ⟨n, hn, hhold⟩ := h.holds l (by simp)
  have hne : l.flags ≠ [] := h.used l (by simp)
  have hactive : ¬ n.activemembers > 0 := by
    rw [hhold.active, Lot.settled_iff.mp hsettled]
    exact Nat.lt_irrefl 0
  have hnode : b.node ≠ some l.bucket := by
    have hiff := node_eq_iff (show Rep b ([] ++ l :: m :: rest) from h)
    exact mt hiff.mp (by simp)
  have hlist : b.nodelist = l.bucket :: m.bucket :: rest.map Lot.bucket := h.nodelist
  refine ⟨_, ?_, ⟨h.toShelf.remove [] (m :: rest) fun _ => rfl, ?_, h.nextid_pos, h.nextid_le,
    ?_, ?_⟩, rfl, rfl, fun _ => rfl⟩
  · unfold sweepFront
    rw [get_bind, hlist]
    simp only [List.length_cons, gt_iff_lt, Nat.lt_add_left_iff_pos, Nat.succ_pos, if_true]
    rw [bind_of_ok (deref_ok hn), if_neg hactive, if_neg hnode,
      bind_of_ok (assertThat_ok (by simp) b), bind_of_ok (clearPackets_spec hhold hsettled hne b)]
    have hn' : ({ b with packets := fun id => if id ∈ l.ids then none else b.packets id } :
        Bucket β).heap l.bucket = some n := hn
    rw [bind_of_ok (clearBucketNode_ok hn'), modify_bind]
    refine (bind_of_ok (free_ok (by simp [hn])) _).trans ?_
    simp only [hlist, hhold.buffer, List.tail_cons]
    rfl
  · simpa using h.node
  · exact fun k hk => h.next k (by simpa using hk)
  · exact fun k hk => h.used k (by rw [List.dropLast_cons_cons]; exact List.mem_cons_of_mem _ hk)

theorem sweepFront_stops {lots : List (Lot β)} (h : Rep b lots)
    (hstop : ∀ l m rest, lots = l :: m :: rest → ¬ l.Settled) : sweepFront b = .ok (false, b) := by
  unfold sweepFront
  rw [get_bind, h.nodelist]
  match lots, h, hstop with
  | [], _, _ => rfl
  | [_], _, _ => rfl
  | l :: m :: rest, h, hstop =>
    obtain ⟨n, hn, hhold⟩ := h.holds l (by simp)
    have hactive : n.activemembers > 0 := by
      rw [hhold.active]
      exact Nat.pos_of_ne_zero (mt Lot.settled_iff.mpr (hstop l m rest rfl))
    simp only [List.map_cons, List.length_cons, gt_iff_lt, Nat.lt_add_left_iff_pos, Nat.succ_pos,
      if_true]
    rw [bind_of_ok (deref_ok hn), if_pos hactive]
    rfl

structure Swept (b b' : Bucket β) (gone rest : List (Lot β)) : Prop where
  rep : Rep b' rest
  node : b'.node = b.node
  settled : ∀ l ∈ gone, l.Settled
  front : ∀ l m tail, rest = l :: m :: tail → ¬ l.Settled
  freed : b'.freed = b.freed ++ gone.flatMap fun l => (l.buffer.map (Prod.mk l.bucket)).toList
  packets : ∀ id, b'.packets id = if id ∈ gone.flatMap Lot.ids then none else b.packets id

theorem sweep_spec (rounds : Nat) {b : Bucket β} {lots : List (Lot β)} (h : Rep b lots)
    (hrounds : lots.length ≤ rounds) :
    ∃ b' gone rest, sweep rounds b = .ok ((), b') ∧ lots = gone ++ rest ∧
      Swept b b' gone rest := by
  have hend : (∀ l m rest, lots = l :: m :: rest → ¬ l.Settled) → Swept b b [] lots :=
    fun hstop => ⟨h, rfl, by simp, hstop, by simp, by simp⟩
  induction rounds generalizing b lots with
  | zero =>
    have hnil := List.eq_nil_of_length_eq_zero (Nat.le_zero.mp hrounds)
    exact ⟨b, [], lots, rfl, rfl, hend (by simp [hnil])⟩
  | succ rounds ih =>
    by_cases hstop : ∀ l m rest, lots = l :: m :: rest → ¬ l.Settled
    · refine ⟨b, [], lots, ?_, rfl, hend hstop⟩
      rw [sweep, bind_of_ok (sweepFront_stops h hstop)]
      rfl
    · push Not at hstop
      obtain ⟨l, m, rest, rfl, hsettled⟩ := hstop
      obtain ⟨b₁, hfront, hrep, hnode, hfreed, hpackets⟩ := sweepFront_settled h hsettled
      obtain ⟨b', gone, rest', hsweep, heq, hswept⟩ := ih hrep (by simpa using hrounds)
        fun hstop => ⟨hrep, rfl, by simp, hstop, by simp, by simp⟩
      refine ⟨b', l :: gone, rest', ?_, by rw [heq, List.cons_append], hswept.rep,
        hswept.node.trans hnode, ?_, hswept.front, ?_, ?_⟩
      · rw [sweep, bind_of_ok hfront]
        exact hsweep
      · exact List.forall_mem_cons.mpr ⟨hsettled, hswept.settled⟩
      · rw [hswept.freed, hfreed, List.flatMap_cons, List.append_assoc]
      · intro id
        rw [hswept.packets, hpackets, List.flatMap_cons]
        by_cases hid : id ∈ l.ids
        · simp [hid]
        · simp [hid]

theorem releaseBucketId_spec {pre post : List (Lot β)} (h : Rep b (pre ++ l :: post)) {i : Nat}
    (hi : l.flags[i]? = some true) :
    ∃ b₁ b' l' gone rest, releaseBucketId (idAt l.start i) b = .ok ((), b') ∧
      l.Retires l' (idAt l.start i) ∧ pre ++ l' :: post = gone ++ rest ∧
      Swept b₁ b' gone rest ∧ b₁.freed = b.freed ∧ b₁.node = b.node ∧
      ∀ id, (id ≠ idAt l.start i ∨ post ≠ []) → b₁.packets id = b.packets id := by
  obtain ⟨n, hn, hhold⟩ := h.holds l (by simp)
  obtain ⟨hlt, -⟩ := List.getElem?_eq_some_iff.mp hi
  obtain ⟨hpos, hle⟩ := idAt_range l.start i
  have hfits := hhold.fits
  have hslots := hhold.slots
  have hpacket : b.packets (idAt l.start i) = some l.bucket :=
    (h.packets _ _).mpr ⟨l, by simp, rfl, l.mem_ids.mpr ⟨i, hlt, rfl⟩⟩
  have hslot : slot n.startindex (idAt l.start i) = i := by
    rw [hhold.start_of_ne (List.ne_nil_of_length_pos (by omega)),
      slot_idAt l.start_pos l.start_lt (by omega)]
  have hmark : n.released[i]? = some 1 := hhold.released ▸ marks_getElem? hi n.slots
  obtain ⟨b₁, l', hslotted, hrep, hretires, hfreed, hnode, hpackets⟩ := releaseSlot_spec h hhold hi
  obtain ⟨b', gone, rest, hsweep, heq, hswept⟩ :=
    sweep_spec b₁.nodelist.length hrep (Nat.le_of_eq (by rw [hrep.nodelist, List.length_map]))
  refine ⟨b₁, b', l', gone, rest, ?_, hretires, heq, hswept, hfreed, hnode, hpackets⟩
  rw [releaseBucketId, bind_of_ok (assertThat_ok (by omega) b), bind_of_ok (readPacket_ok hle b),
    hpacket]
  simp only [bind_of_ok (deref_ok hn), hslot]
  rw [bind_of_ok (assertThat_ok (by omega) b), bind_of_ok (readReleased_ok hmark b),
    bind_of_ok (assertThat_ok (by omega) b), if_pos rfl, bind_of_ok hslotted, get_bind]
  exact hsweep

end

end Libtrace.BucketRelease
