import Libtrace.HasherRead

/-! The batches of the hasher's stream. A call tests the tick at index 0 also where it looks at
index `i`. -/

namespace Libtrace.HasherDelivery
open HasherRead

variable {α : Type} {nbPackets : Nat} {ready : Nat → Nat} {given : Nat → Nat → Option (Packet α)}

def Gives (nbPackets : Nat) (ready : Nat → Nat) (given : Nat → Nat → Option (Packet α)) (k : Nat)
    (t : Perpkt α) (items : List (Packet α)) (err : Int) : Prop :=
  ∃ calls batches, readAll nbPackets ready given calls k t = (batches, some err) ∧
    batches.flatten = items

section

variable {k : Nat} {t : Perpkt α} {items : List (Packet α)} {err : Int}

theorem pread_passes {p : Packet α} {rest : List (Packet α)} {r : Nat} (hf : t.formatData = none)
    (hq : t.rbuffer = p :: rest) (hp : 0 < p.error ∨ p.error = readTick)
    (hpass : ∀ q ∈ rest.take (min (nbPackets - 1) r), Passes p q) :
    ∃ ret t', preadHasherThread nbPackets r t = some (ret, t') ∧ 0 < ret ∧
      batch ret.toNat t'.packets = p :: rest.take (min (nbPackets - 1) r) ∧
      t'.rbuffer = rest.drop (min (nbPackets - 1) r) ∧ t'.formatData = none := by
  have hgo : ¬ (p.error ≤ 0 ∧ p.error ≠ readTick) := by omega
  obtain ⟨h1, h2, h3, h4⟩ := fillBatch_passes p (nbPackets - 1) 1 r
    ({ t.recycle 0 with rbuffer := rest }.put 0 (some p)) hpass
  simp only [preadHasherThread, hf, hq, if_neg hgo]
  refine ⟨_, _, rfl, Int.natCast_pos.mpr (by rw [h1]; omega), ?_, h3, h4.trans hf⟩
  rw [Int.toNat_natCast, h2]
  simp only [Perpkt.put, Perpkt.recycle]
  rw [batch_put, batch_zero, List.nil_append, List.singleton_append]

theorem pread_stops {p q : Packet α} {pre post : List (Packet α)} {r : Nat}
    (hf : t.formatData = none) (hq : t.rbuffer = p :: (pre ++ q :: post))
    (hp : 0 < p.error ∨ p.error = readTick) (hpre : ∀ x ∈ pre, Passes p x) (hstop : ¬ Passes p q)
    (hmsg : q.error ≠ readMessage) (hlen : pre.length < min (nbPackets - 1) r) :
    ∃ ret t', preadHasherThread nbPackets r t = some (ret, t') ∧ 0 < ret ∧
      batch ret.toNat t'.packets = p :: pre ∧ t'.formatData = some q := by
  have hgo : ¬ (p.error ≤ 0 ∧ p.error ≠ readTick) := by omega
  obtain ⟨h1, h2, h3⟩ := fillBatch_stops p (nbPackets - 1) 1 r
    ({ t.recycle 0 with rbuffer := pre ++ q :: post }.put 0 (some p)) rfl hpre hstop hmsg hlen
  simp only [preadHasherThread, hf, hq, if_neg hgo]
  refine ⟨_, _, rfl, Int.natCast_pos.mpr (by rw [h1]; omega), ?_, h3⟩
  rw [Int.toNat_natCast, h2]
  simp only [Perpkt.put, Perpkt.recycle]
  rw [batch_put, batch_zero, List.nil_append, List.singleton_append]

section

variable {ret : Int} {t' : Perpkt α}
  (hread : preadHasherThread nbPackets (ready k) { t with packets := given k } = some (ret, t'))
include hread

theorem gives_iff_of_batch {chunk : List (Packet α)} (hret : 0 < ret)
    (hbatch : batch ret.toNat t'.packets = chunk) :
    Gives nbPackets ready given k t items err ↔
      ∃ later, items = chunk ++ later ∧ Gives nbPackets ready given (k + 1) t' later err := by
  have hgo : ¬ ret ≤ 0 := by omega
  constructor
  · rintro ⟨calls, batches, hrun, rfl⟩
    cases calls with
    | zero => exact absurd hrun (by simp [readAll])
    | succ calls =>
      simp only [readAll, hread, if_neg hgo, hbatch, Prod.mk.injEq] at hrun
      obtain ⟨rfl, herr⟩ := hrun
      exact ⟨_, List.flatten_cons, calls, _, Prod.ext rfl herr, rfl⟩
  · rintro ⟨later, rfl, calls, batches, hrun, rfl⟩
    refine ⟨calls + 1, chunk :: batches, ?_, List.flatten_cons⟩
    simp only [readAll, hread, if_neg hgo, hbatch, hrun]

theorem gives_iff_of_error (hret : ret ≤ 0) :
    Gives nbPackets ready given k t items err ↔ items = [] ∧ err = ret := by
  constructor
  · rintro ⟨calls, batches, hrun, rfl⟩
    cases calls with
    | zero => exact absurd hrun (by simp [readAll])
    | succ calls =>
      simp only [readAll, hread, if_pos hret, Prod.mk.injEq, Option.some.injEq] at hrun
      exact ⟨by rw [← hrun.1, List.flatten_nil], hrun.2.symm⟩
  · rintro ⟨rfl, rfl⟩
    exact ⟨1, [], by simp only [readAll, hread, if_pos hret], List.flatten_nil⟩

end

theorem gives_iff_of_stored {q : Packet α} (hf : t.formatData = some q) (hq : q.error ≤ 0) :
    Gives nbPackets ready given k t items err ↔ items = [] ∧ err = q.error := by
  have hread : preadHasherThread nbPackets (ready k) { t with packets := given k } =
      some (q.error, { t with packets := given k }) := by simp only [preadHasherThread, hf]
  exact gives_iff_of_error hread hq

theorem not_gives_of_empty (hf : t.formatData = none) (hq : t.rbuffer = []) :
    ¬ Gives nbPackets ready given k t items err := by
  rintro ⟨calls, batches, hrun, -⟩
  cases calls with
  | zero => exact absurd hrun (by simp [readAll])
  | succ calls => exact absurd hrun (by simp [readAll, preadHasherThread, hf, hq])

end

theorem last_of_terminal {rest pre post : List (Packet α)} {last q : Packet α}
    (hrest : ∀ p ∈ rest, 0 < p.error ∨ p.error = readTick) (hq : q.error ≤ 0)
    (htick : q.error ≠ readTick) (h : rest ++ [last] = pre ++ q :: post) :
    rest = pre ∧ last = q ∧ post = [] := by
  rcases List.eq_nil_or_concat post with rfl | ⟨post', z, rfl⟩
  · obtain ⟨h1, h2⟩ := List.append_inj' h rfl
    exact ⟨h1, (List.cons.inj h2).1, rfl⟩
  · have h' : rest ++ [last] = (pre ++ q :: post') ++ [z] := by
      rw [h]
      simp
    have hmem : q ∈ rest := (List.append_inj' h' rfl).1 ▸ by simp
    rcases hrest q hmem with hpos | htick'
    · omega
    · exact absurd htick' htick

theorem passes_or_first (first : Packet α) (l : List (Packet α)) :
    (∀ q ∈ l, Passes first q) ∨ ∃ pre q post, l = pre ++ q :: post ∧
      (∀ x ∈ pre, Passes first x) ∧ ¬ Passes first q := by
  induction l with
  | nil => exact .inl (by simp)
  | cons a l ih =>
    by_cases ha : Passes first a
    · rcases ih with hall | ⟨pre, q, post, rfl, hpre, hq⟩
      · exact .inl (List.forall_mem_cons.mpr ⟨ha, hall⟩)
      · exact .inr ⟨a :: pre, q, post, rfl, List.forall_mem_cons.mpr ⟨ha, hpre⟩, hq⟩
    · exact .inr ⟨[], a, l, rfl, by simp, ha⟩

theorem cut_cons (k : Nat) (p : Packet α) (rest : List (Packet α)) :
    cut nbPackets ready k (p :: rest) = (p :: rest.take (min (nbPackets - 1) (ready k))) ::
      cut nbPackets ready (k + 1) (rest.drop (min (nbPackets - 1) (ready k))) := by
  rw [cut]

theorem cut_nil (k : Nat) : cut nbPackets ready k ([] : List (Packet α)) = [] := by
  rw [cut]

section

variable {k : Nat} {t : Perpkt α} {p last : Packet α} {rest : List (Packet α)}

theorem gives_iff_of_short (given : Nat → Nat → Option (Packet α)) (hf : t.formatData = none)
    (hq : t.rbuffer = p :: (rest ++ [last])) (hp : 0 < p.error ∨ p.error = readTick)
    (hn : min (nbPackets - 1) (ready k) ≤ rest.length)
    (hpass : ∀ q ∈ rest.take (min (nbPackets - 1) (ready k)), Passes p q) :
    ∃ t' : Perpkt α, t'.rbuffer = rest.drop (min (nbPackets - 1) (ready k)) ++ [last] ∧
      t'.formatData = none ∧ (Gives nbPackets ready given k t (p :: rest) last.error ↔
        Gives nbPackets ready given (k + 1) t'
          (rest.drop (min (nbPackets - 1) (ready k))) last.error) := by
  have htake : (rest ++ [last]).take (min (nbPackets - 1) (ready k)) =
      rest.take (min (nbPackets - 1) (ready k)) := List.take_append_of_le_length hn
  have hdrop : (rest ++ [last]).drop (min (nbPackets - 1) (ready k)) =
      rest.drop (min (nbPackets - 1) (ready k)) ++ [last] := List.drop_append_of_le_length hn
  obtain ⟨ret, t', hread, hret, hbatch, hbuf, hnone⟩ :=
    pread_passes (t := { t with packets := given k }) hf hq hp (htake ▸ hpass)
  refine ⟨t', hbuf.trans hdrop, hnone, (gives_iff_of_batch hread hret hbatch).trans ?_⟩
  rw [htake]
  constructor
  · rintro ⟨later, hitems, hlater⟩
    rw [List.cons_append, List.cons.injEq] at hitems
    have he : rest.drop (min (nbPackets - 1) (ready k)) = later := by
      have hsplit := (List.take_append_drop (min (nbPackets - 1) (ready k)) rest).trans hitems.2
      exact List.append_cancel_left hsplit
    exact he ▸ hlater
  · intro hlater
    exact ⟨_, by rw [List.cons_append, List.take_append_drop], hlater⟩

theorem not_gives_of_tick (hf : t.formatData = none) (hq : t.rbuffer = p :: (rest ++ [last]))
    (hp : p.error = readTick) (hn : rest.length < min (nbPackets - 1) (ready k))
    (items : List (Packet α)) (err : Int) : ¬ Gives nbPackets ready given k t items err := by
  have hall : ∀ q ∈ (rest ++ [last]).take (min (nbPackets - 1) (ready k)), Passes p q :=
    fun q _ hstop => hstop.2 hp
  obtain ⟨ret, t', hread, hret, hbatch, hbuf, hnone⟩ :=
    pread_passes (t := { t with packets := given k }) hf hq (.inr hp) hall
  rw [List.drop_of_length_le (by simp; omega)] at hbuf
  rw [gives_iff_of_batch hread hret hbatch]
  rintro ⟨later, -, hlater⟩
  exact not_gives_of_empty hnone hbuf hlater

theorem gives_iff_of_stop {q : Packet α} {pre post : List (Packet α)} (hf : t.formatData = none)
    (hq : t.rbuffer = p :: (rest ++ [last])) (hp : 0 < p.error)
    (hsplit : rest ++ [last] = pre ++ q :: post) (hpre : ∀ x ∈ pre, Passes p x)
    (hstop : ¬ Passes p q) (hmsg : q.error ≠ readMessage)
    (hlen : pre.length < min (nbPackets - 1) (ready k)) :
    Gives nbPackets ready given k t (p :: rest) last.error ↔
      rest = pre ∧ last.error = q.error := by
  rw [hsplit] at hq
  have hq0 : q.error ≤ 0 := (not_not.mp hstop).1
  obtain ⟨ret, t', hread, hret, hbatch, hstored⟩ :=
    pread_stops (t := { t with packets := given k }) hf hq (.inl hp) hpre hstop hmsg hlen
  rw [gives_iff_of_batch hread hret hbatch]
  constructor
  · rintro ⟨later, hitems, hlater⟩
    obtain ⟨rfl, herr⟩ := (gives_iff_of_stored hstored hq0).mp hlater
    rw [List.append_nil, List.cons.injEq] at hitems
    exact ⟨hitems.2, herr⟩
  · rintro ⟨rfl, herr⟩
    exact ⟨[], by rw [List.append_nil], (gives_iff_of_stored hstored hq0).mpr ⟨rfl, herr⟩⟩

end

theorem unmixed_data {p : Packet α} (hp : 0 < p.error) (rest : List (Packet α)) :
    Unmixed (p :: rest) ↔ ∀ q ∈ rest, q.error ≠ readTick := by
  have hne : p.error ≠ readTick := fun he => absurd (he ▸ hp) (by decide)
  simp only [Unmixed, if_neg hne]

theorem unmixed_tick {p : Packet α} (hp : p.error = readTick) (rest : List (Packet α)) :
    Unmixed (p :: rest) ↔ ∀ q ∈ rest, 0 < q.error ∨ q.error = readTick := by
  simp only [Unmixed, if_pos hp]

section

variable {k : Nat} {t : Perpkt α} {p last : Packet α} {rest : List (Packet α)}

def Behind (nbPackets : Nat) (ready : Nat → Nat) (given : Nat → Nat → Option (Packet α))
    (k n : Nat) (rest : List (Packet α)) (last : Packet α) : Prop :=
  ∀ t : Perpkt α, t.formatData = none → t.rbuffer = rest.drop n ++ [last] →
    (Gives nbPackets ready given k t (rest.drop n) last.error ↔
      ∀ chunk ∈ cut nbPackets ready k (rest.drop n ++ [last]), Unmixed chunk)

section

variable (hf : t.formatData = none) (hq : t.rbuffer = p :: (rest ++ [last]))
  (ih : Behind nbPackets ready given (k + 1) (min (nbPackets - 1) (ready k)) rest last)
include hf hq ih

theorem gives_iff_short (hp : 0 < p.error ∨ p.error = readTick)
    (hn : min (nbPackets - 1) (ready k) ≤ rest.length)
    (hpass : ∀ q ∈ rest.take (min (nbPackets - 1) (ready k)), Passes p q)
    (hunmixed : Unmixed (p :: rest.take (min (nbPackets - 1) (ready k)))) :
    Gives nbPackets ready given k t (p :: rest) last.error ↔
      ∀ chunk ∈ cut nbPackets ready k (p :: (rest ++ [last])), Unmixed chunk := by
  obtain ⟨t', hbuf, hnone, hiff⟩ := gives_iff_of_short given hf hq hp hn hpass
  rw [hiff, ih t' hnone hbuf, cut_cons, List.forall_mem_cons, List.take_append_of_le_length hn,
    List.drop_append_of_le_length hn]
  exact (and_iff_right hunmixed).symm

theorem gives_iff_tick (hrest : ∀ p ∈ rest, 0 < p.error ∨ p.error = readTick)
    (hlast : last.error ≤ 0) (hlastTick : last.error ≠ readTick) (hp : p.error = readTick) :
    Gives nbPackets ready given k t (p :: rest) last.error ↔
      ∀ chunk ∈ cut nbPackets ready k (p :: (rest ++ [last])), Unmixed chunk := by
  rcases Nat.lt_or_ge rest.length (min (nbPackets - 1) (ready k)) with hn | hn
  · refine iff_of_false (not_gives_of_tick hf hq hp hn _ _) fun hall => ?_
    rw [cut_cons, List.forall_mem_cons, unmixed_tick hp, List.take_of_length_le (by simp; omega)]
      at hall
    rcases hall.1 last (by simp) with hpos | htick
    · omega
    · exact hlastTick htick
  · refine gives_iff_short hf hq ih (.inr hp) hn (fun q _ hstop => hstop.2 hp) ?_
    rw [unmixed_tick hp]
    exact fun q hmem => hrest q (List.mem_of_mem_take hmem)

theorem gives_iff_data (hrest : ∀ p ∈ rest, 0 < p.error ∨ p.error = readTick)
    (hlast : last.error = readEof ∨ last.error = readError) (hp : 0 < p.error) :
    Gives nbPackets ready given k t (p :: rest) last.error ↔
      ∀ chunk ∈ cut nbPackets ready k (p :: (rest ++ [last])), Unmixed chunk := by
  have hptick : p.error ≠ readTick := fun he => absurd (he ▸ hp) (by decide)
  have hlastTick : last.error ≠ readTick := by
    rcases hlast with h | h <;> rw [h] <;> decide
  have hpasses : ∀ q, Passes p q → q.error ≠ readTick := by
    intro q hq htick
    exact hq ⟨by rw [htick]; decide, hptick⟩
  rcases passes_or_first p ((rest ++ [last]).take (min (nbPackets - 1) (ready k))) with
    hall | ⟨pre, q, post, htake, hpre, hstop⟩
  · have hn : min (nbPackets - 1) (ready k) ≤ rest.length := by
      by_contra hlt
      rw [List.take_of_length_le (by simp; omega)] at hall
      refine hall last (by simp) ⟨?_, hptick⟩
      rcases hlast with h | h <;> rw [h] <;> decide
    rw [List.take_append_of_le_length hn] at hall
    refine gives_iff_short hf hq ih (.inl hp) hn hall ?_
    rw [unmixed_data hp]
    exact fun q hmem => hpasses q (hall q hmem)
  · have hsplit : rest ++ [last] =
        pre ++ q :: (post ++ (rest ++ [last]).drop (min (nbPackets - 1) (ready k))) := by
      conv_lhs => rw [← List.take_append_drop (min (nbPackets - 1) (ready k)) (rest ++ [last])]
      rw [htake, List.append_assoc, List.cons_append]
    have hlen : pre.length < min (nbPackets - 1) (ready k) := by
      have := congrArg List.length htake
      simp only [List.length_take, List.length_append, List.length_cons] at this
      omega
    have hq0 : q.error ≤ 0 := (not_not.mp hstop).1
    have hmem : q ∈ rest ++ [last] := hsplit ▸ by simp
    have hmsg : q.error ≠ readMessage := by
      rcases List.mem_append.mp hmem with hr | hl
      · rcases hrest q hr with hpos | htick
        · omega
        · rw [htick]
          decide
      · rw [List.mem_singleton.mp hl]
        rcases hlast with h | h <;> rw [h] <;> decide
    rw [gives_iff_of_stop hf hq hp hsplit hpre hstop hmsg hlen, cut_cons, List.forall_mem_cons,
      unmixed_data hp, htake]
    by_cases htick : q.error = readTick
    · refine iff_of_false (fun h => hlastTick (h.2.trans htick)) fun h => ?_
      exact h.1 q (by simp) htick
    · obtain ⟨rfl, rfl, hnil⟩ := last_of_terminal hrest hq0 htick hsplit
      obtain ⟨rfl, hdrop⟩ := List.append_eq_nil_iff.mp hnil
      refine iff_of_true ⟨rfl, rfl⟩ ⟨fun x hx => ?_, ?_⟩
      · rcases List.mem_append.mp hx with hx | hx
        · exact hpasses x (hpre x hx)
        · exact List.mem_singleton.mp hx ▸ htick
      · rw [hdrop, cut_nil]
        simp

end

end

theorem gives_iff (last : Packet α) (hlast : last.error = readEof ∨ last.error = readError)
    (items : List (Packet α)) (hitems : ∀ p ∈ items, 0 < p.error ∨ p.error = readTick) (k : Nat)
    (t : Perpkt α) (hf : t.formatData = none) (hq : t.rbuffer = items ++ [last]) :
    Gives nbPackets ready given k t items last.error ↔
      ∀ chunk ∈ cut nbPackets ready k (items ++ [last]), Unmixed chunk := by
  have hlast0 : last.error ≤ 0 := by
    rcases hlast with h | h <;> rw [h] <;> decide
  have hlastTick : last.error ≠ readTick := by
    rcases hlast with h | h <;> rw [h] <;> decide
  induction hlen : items.length using Nat.strongRecOn generalizing items k t with
  | _ len ih =>
    cases items with
    | nil =>
      have hstop : last.error ≤ 0 ∧ last.error ≠ readTick := ⟨hlast0, hlastTick⟩
      obtain ⟨t', hread⟩ : ∃ t', preadHasherThread nbPackets (ready k)
          { t with packets := given k } = some (last.error, t') := by
        simp only [preadHasherThread, hf, hq, List.nil_append, if_pos hstop]
        exact ⟨_, rfl⟩
      rw [gives_iff_of_error hread hlast0, List.nil_append, cut_cons, List.drop_nil, cut_nil]
      exact iff_of_true ⟨rfl, rfl⟩ (by simp [Unmixed])
    | cons p rest =>
      obtain ⟨hp, hrest⟩ := List.forall_mem_cons.mp hitems
      have hbehind : Behind nbPackets ready given (k + 1) (min (nbPackets - 1) (ready k)) rest
          last := by
        intro t' hf' hq'
        refine ih _ ?_ _ (fun q hmem => hrest q (List.mem_of_mem_drop hmem)) _ t' hf' hq' rfl
        rw [← hlen, List.length_cons, List.length_drop]
        omega
      rcases hp with hdata | htick
      · exact gives_iff_data hf hq hbehind hrest hlast hdata
      · exact gives_iff_tick hf hq hbehind hrest hlast0 hlastTick htick

/-- The calls deliver the stream exactly if no chunk has a tick behind data, or the last packet
behind a tick. -/
theorem delivers_stream_iff (nbPackets : Nat) (ready : Nat → Nat)
    (given : Nat → Nat → Option (Packet α)) (s : Stream α) :
    Delivers nbPackets ready given s ↔
      ∀ chunk ∈ cut nbPackets ready 0 (s.items ++ [s.last]), Unmixed chunk :=
  gives_iff s.last s.last_ok s.items s.items_ok 0 s.start rfl rfl

def dataThenTick : Stream Nat where
  items := [⟨1, 0⟩, ⟨readTick, 0⟩]
  last := ⟨readEof, 0⟩
  items_ok := by decide
  last_ok := by decide

def tickOnly : Stream Nat where
  items := [⟨readTick, 0⟩]
  last := ⟨readEof, 0⟩
  items_ok := by decide
  last_ok := by decide

/-- The tick after data comes back as error -3; after a tick the end of file is handed out as a
packet. -/
theorem delivers_stream_fails :
    ¬ Delivers 2 (fun _ => 1) (fun _ _ => none) dataThenTick ∧
      ¬ Delivers 2 (fun _ => 1) (fun _ _ => none) tickOnly ∧
      readAll 2 (fun _ => 1) (fun _ _ => none) 2 0 dataThenTick.start =
        ([[⟨1, 0⟩]], some readTick) ∧
      readAll 2 (fun _ => 1) (fun _ _ => none) 1 0 tickOnly.start =
        ([[⟨readTick, 0⟩, ⟨readEof, 0⟩]], none) := by
  refine ⟨fun h => ?_, fun h => ?_, by decide, by decide⟩
  · have hall := (gives_iff _ dataThenTick.last_ok _ dataThenTick.items_ok 0 _ rfl rfl).mp h
    simp only [dataThenTick, List.cons_append, cut_cons, List.forall_mem_cons] at hall
    exact absurd hall.1 (by simp [Unmixed, readTick])
  · have hall := (gives_iff _ tickOnly.last_ok _ tickOnly.items_ok 0 _ rfl rfl).mp h
    simp only [tickOnly, List.cons_append, cut_cons, List.forall_mem_cons] at hall
    exact absurd hall.1 (by simp [Unmixed, readTick, readEof])

end Libtrace.HasherDelivery
