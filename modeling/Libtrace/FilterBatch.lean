import Mathlib.Logic.Function.Basic
import Libtrace.SwapRemove

/-! Filters in a parallel trace: `filter_packets` on a batch, beside the loop of `trace_read_packet`
on the same packets. The filter is a parameter: 0 for no match, -1 for a failure. -/

namespace Libtrace.FilterBatch
open SwapRemove Function

variable {ι α τ : Type}

structure Packet (τ α : Type) where
  trace : Option τ
  data : Option α
  deriving DecidableEq, Repr

def Packet.finished : Packet τ α := ⟨none, none⟩

def applyFilter (filter : α → Int) (packet : Packet τ α) : Int :=
  match packet.data with
  | some data => filter data
  | none => 0

section

structure Batch (ι τ α : Type) where
  heap : ι → Packet τ α
  packets : List ι

variable [DecidableEq ι]

def Batch.store (b : Batch ι τ α) (p : ι) (packet : Packet τ α) : Batch ι τ α :=
  { b with heap := update b.heap p packet }

def filterFrom (filter : α → Int) (trace : τ) : Nat → Nat → Nat → Batch ι τ α → Nat × Batch ι τ α
  | 0, _, offset, b => (offset, b)
  | k + 1, i, offset, b =>
    match b.packets[i]? with
    | none => (offset, b)
    | some p =>
      let b := b.store p { b.heap p with trace := some trace }
      if applyFilter filter (b.heap p) ≠ 0 then
        filterFrom filter trace k (i + 1) (offset + 1)
          { b with packets := swap b.packets offset i }
      else filterFrom filter trace k (i + 1) offset (b.store p .finished)

def filterPackets (filter : α → Int) (trace : τ) (nbPackets : Nat) (b : Batch ι τ α) :
    Nat × Batch ι τ α := filterFrom filter trace nbPackets 0 0 b

def filteredBy (filter : α → Int) (trace : τ) (nbPackets : Nat) (b : Batch ι τ α) : Nat :=
  nbPackets - (filterPackets filter trace nbPackets b).1

end

section

inductive ReadResult (α : Type) where
  | eof
  | error
  | packet (a : α)

def traceReadPacket (outcome : α → Int) : List α → Nat → ReadResult α × List α × Nat
  | [], filtered => (.eof, [], filtered)
  | a :: rest, filtered =>
    if outcome a = -1 then (.error, rest, filtered)
    else if outcome a = 0 then traceReadPacket outcome rest (filtered + 1)
    else (.packet a, rest, filtered)

/-- What is delivered to a program that reads to the end, and `filtered_packets`. It may carry on
after an error. -/
def readAll (outcome : α → Int) (carryOn : Bool) : Nat → List α → Nat → List α × Nat
  | 0, _, filtered => ([], filtered)
  | fuel + 1, packets, filtered =>
    match traceReadPacket outcome packets filtered with
    | (.eof, _, filtered) => ([], filtered)
    | (.error, rest, filtered) =>
      if carryOn then readAll outcome carryOn fuel rest filtered else ([], filtered)
    | (.packet a, rest, filtered) =>
      let (delivered, filtered) := readAll outcome carryOn fuel rest filtered
      (a :: delivered, filtered)

def readBatch (outcome : α → Int) (carryOn : Bool) (packets : List α) : List α × Nat :=
  readAll outcome carryOn (packets.length + 1) packets 0

end

structure Agrees [DecidableEq ι] (filter : α → Int) (carryOn : Bool) (trace : τ) (n : Nat)
    (b : Batch ι τ α) : Prop where
  perm : (filterPackets filter trace n b).2.packets.Perm b.packets
  count : (filterPackets filter trace n b).1 =
    (readBatch (fun p => applyFilter filter (b.heap p)) carryOn (b.packets.take n)).1.length
  front : (filterPackets filter trace n b).2.packets.take (filterPackets filter trace n b).1 =
    (readBatch (fun p => applyFilter filter (b.heap p)) carryOn (b.packets.take n)).1
  kept : ∀ p ∈ (readBatch (fun p => applyFilter filter (b.heap p)) carryOn (b.packets.take n)).1,
    (filterPackets filter trace n b).2.heap p = { b.heap p with trace := some trace }
  others : ∀ p ∈ b.packets.take n,
    p ∉ (readBatch (fun p => applyFilter filter (b.heap p)) carryOn (b.packets.take n)).1 →
    (filterPackets filter trace n b).2.heap p = .finished
  filtered : filteredBy filter trace n b =
    (readBatch (fun p => applyFilter filter (b.heap p)) carryOn (b.packets.take n)).2

section

variable {outcome : α → Int} {carryOn : Bool}

theorem traceReadPacket_packet {packets rest : List α} {filtered filtered' : Nat} {a : α}
    (h : traceReadPacket outcome packets filtered = (.packet a, rest, filtered')) :
    outcome a ≠ -1 := by
  induction packets generalizing filtered with
  | nil => cases h
  | cons b bs ih =>
    rw [traceReadPacket] at h
    split_ifs at h with herror hzero
    · cases h
    · exact ih h
    · obtain rfl : b = a := by
        cases h
        rfl
      exact herror

theorem readAll_ne (fuel : Nat) (packets : List α) (filtered : Nat) :
    ∀ a ∈ (readAll outcome carryOn fuel packets filtered).1, outcome a ≠ -1 := by
  induction fuel generalizing packets filtered with
  | zero => simp [readAll]
  | succ fuel ih =>
    rw [readAll]
    split
    · simp
    · split_ifs
      · exact ih _ _
      · simp
    · rename_i a rest filtered' hread
      intro c hc
      obtain rfl | hc := List.mem_cons.mp hc
      · exact traceReadPacket_packet hread
      · exact ih _ _ c hc

theorem readAll_skip (fuel filtered : Nat) {a : α} (rest : List α) (h : outcome a = 0) :
    readAll outcome carryOn (fuel + 1) (a :: rest) filtered =
      readAll outcome carryOn (fuel + 1) rest (filtered + 1) := by
  have hread : traceReadPacket outcome (a :: rest) filtered =
      traceReadPacket outcome rest (filtered + 1) := by
    rw [traceReadPacket, if_neg (by omega), if_pos h]
  rw [readAll, readAll, hread]

theorem readAll_deliver (fuel filtered : Nat) {a : α} (rest : List α) (h : outcome a ≠ 0)
    (herror : outcome a ≠ -1) :
    readAll outcome carryOn (fuel + 1) (a :: rest) filtered =
      (a :: (readAll outcome carryOn fuel rest filtered).1,
        (readAll outcome carryOn fuel rest filtered).2) := by
  rw [readAll, traceReadPacket, if_neg herror, if_neg h]

theorem readAll_eq (fuel : Nat) {packets : List α} (filtered : Nat) (hfuel : packets.length < fuel)
    (h : ∀ a ∈ packets, outcome a ≠ -1) :
    readAll outcome carryOn fuel packets filtered =
      (packets.filter (outcome · ≠ 0), filtered + packets.countP (outcome · = 0)) := by
  induction packets generalizing fuel filtered with
  | nil =>
    obtain ⟨fuel, rfl⟩ : ∃ k, fuel = k + 1 := ⟨fuel - 1, by omega⟩
    rfl
  | cons a rest ih =>
    rw [List.length_cons] at hfuel
    have hrest : ∀ a ∈ rest, outcome a ≠ -1 := fun a ha => h a (List.mem_cons_of_mem _ ha)
    obtain ⟨fuel, rfl⟩ : ∃ k, fuel = k + 1 := ⟨fuel - 1, by omega⟩
    by_cases hzero : outcome a = 0
    · rw [readAll_skip fuel filtered rest hzero, ih (fuel + 1) (filtered + 1) (by omega) hrest]
      simp [hzero]
      omega
    · rw [readAll_deliver fuel filtered rest hzero (h a List.mem_cons_self),
        ih fuel filtered (by omega) hrest]
      simp [hzero]

end

section

theorem getElem?_parts (kept dropped : List ι) (p : ι) (rest : List ι) :
    (kept ++ dropped ++ p :: rest)[kept.length + dropped.length]? = some p := by
  rw [← List.length_append, List.getElem?_append_right (Nat.le_refl _), Nat.sub_self]
  rfl

variable [DecidableEq ι] {filter : α → Int} {trace : τ}

def settle (filter : α → Int) (trace : τ) (packet : Packet τ α) : Packet τ α :=
  if applyFilter filter packet ≠ 0 then { packet with trace := some trace } else .finished

theorem applyFilter_attach (filter : α → Int) (trace : Option τ) (packet : Packet τ α) :
    applyFilter filter { packet with trace := trace } = applyFilter filter packet := rfl

theorem filterFrom_step (n : Nat) (kept dropped : List ι) (p : ι) (rest : List ι)
    (heap : ι → Packet τ α) :
    filterFrom filter trace (n + 1) (kept.length + dropped.length) kept.length
        ⟨heap, kept ++ dropped ++ p :: rest⟩ =
      if applyFilter filter (heap p) ≠ 0 then
        filterFrom filter trace n (kept.length + dropped.length + 1) (kept.length + 1)
          ⟨update heap p (settle filter trace (heap p)),
            swap (kept ++ dropped ++ p :: rest) kept.length (kept.length + dropped.length)⟩
      else
        filterFrom filter trace n (kept.length + dropped.length + 1) kept.length
          ⟨update heap p (settle filter trace (heap p)),
            kept ++ dropped ++ p :: rest⟩ := by
  rw [filterFrom, getElem?_parts]
  simp only [Batch.store, update_self, applyFilter_attach]
  split_ifs with hmatch
  · rw [settle, if_pos hmatch]
  · rw [update_idem, settle, if_neg hmatch]

theorem update_settle {p : ι} {rest : List ι} (hp : p ∉ rest) (heap : ι → Packet τ α) (q : ι) :
    (if q ∈ rest then settle filter trace (update heap p (settle filter trace (heap p)) q)
      else update heap p (settle filter trace (heap p)) q) =
      if q ∈ p :: rest then settle filter trace (heap q) else heap q := by
  by_cases hq : q = p
  · subst hq
    rw [if_neg hp, update_self, if_pos List.mem_cons_self]
  · rw [update_of_ne hq]
    simp only [List.mem_cons, hq, false_or]

variable (filter trace)

/-- The array has four parts: what matched, what did not, what is to be looked at and what was not
read. -/
theorem filterFrom_spec (todo tail kept dropped : List ι) (heap : ι → Packet τ α) (k : ι → Bool)
    (hk : ∀ p ∈ todo, k p = true ↔ applyFilter filter (heap p) ≠ 0) (hnodup : todo.Nodup) :
    ∃ b', filterFrom filter trace todo.length (kept.length + dropped.length) kept.length
        ⟨heap, kept ++ dropped ++ (todo ++ tail)⟩ =
        (kept.length + (todo.filter k).length, b') ∧
      (∃ dropped', b'.packets = kept ++ todo.filter k ++ dropped' ++ tail ∧
        dropped'.Perm (dropped ++ todo.filter (!k ·))) ∧
      ∀ p, b'.heap p = if p ∈ todo then settle filter trace (heap p) else heap p := by
  induction todo generalizing kept dropped heap with
  | nil =>
    refine ⟨_, rfl, ⟨dropped, ?_, ?_⟩, fun p => ?_⟩
    · simp
    · simp
    · simp
  | cons p rest ih =>
    obtain ⟨hp, hrest⟩ := List.nodup_cons.mp hnodup
    have hk' : ∀ q ∈ rest, k q = true ↔
        applyFilter filter (update heap p (settle filter trace (heap p)) q) ≠ 0 := by
      intro q hq
      have hne : q ≠ p := fun heq => hp (heq ▸ hq)
      rw [update_of_ne hne, hk q (List.mem_cons_of_mem _ hq)]
    rw [List.length_cons, List.cons_append, filterFrom_step]
    by_cases hmatch : applyFilter filter (heap p) ≠ 0
    · obtain ⟨middle, hswap, hperm⟩ := swap_front kept dropped p (rest ++ tail)
      have hkeep : k p = true := (hk p List.mem_cons_self).mpr hmatch
      obtain ⟨b', hrun, ⟨dropped', hpackets, hdropped⟩, hheap⟩ :=
        ih (kept ++ [p]) middle _ hk' hrest
      rw [List.length_append, List.length_singleton, hperm.length_eq] at hrun
      rw [if_pos hmatch, hswap]
      refine ⟨b', ?_, ⟨dropped', ?_, ?_⟩, fun q => (hheap q).trans (update_settle hp heap q)⟩
      · rw [List.filter_cons_of_pos hkeep, List.length_cons]
        rw [show kept.length + dropped.length + 1 = kept.length + 1 + dropped.length by omega,
          show kept ++ p :: middle ++ (rest ++ tail) = kept ++ [p] ++ middle ++ (rest ++ tail) by
            simp,
          hrun]
        congr 1
        omega
      · rw [hpackets, List.filter_cons_of_pos hkeep]
        simp
      · rw [List.filter_cons_of_neg (by simp [hkeep])]
        exact hdropped.trans (hperm.append_right _)
    · have hdrop : k p = false := by
        rw [← Bool.not_eq_true, hk p List.mem_cons_self]
        exact hmatch
      obtain ⟨b', hrun, ⟨dropped', hpackets, hdropped⟩, hheap⟩ :=
        ih kept (dropped ++ [p]) _ hk' hrest
      rw [List.length_append, List.length_singleton, ← Nat.add_assoc] at hrun
      rw [if_neg hmatch]
      refine ⟨b', ?_, ⟨dropped', ?_, ?_⟩, fun q => (hheap q).trans (update_settle hp heap q)⟩
      · rw [List.filter_cons_of_neg (by simp [hdrop]),
          show kept ++ dropped ++ p :: (rest ++ tail) =
            kept ++ (dropped ++ [p]) ++ (rest ++ tail) by simp]
        exact hrun
      · rw [hpackets, List.filter_cons_of_neg (by simp [hdrop])]
      · rw [List.filter_cons_of_pos (by simp [hdrop])]
        simpa using hdropped

theorem filterPackets_spec {n : Nat} {b : Batch ι τ α} (hn : n ≤ b.packets.length)
    (hnodup : b.packets.Nodup) :
    (filterPackets filter trace n b).1 =
        ((b.packets.take n).filter fun p => applyFilter filter (b.heap p) ≠ 0).length ∧
      (filterPackets filter trace n b).2.packets.Perm b.packets ∧
      (filterPackets filter trace n b).2.packets.take (filterPackets filter trace n b).1 =
        (b.packets.take n).filter (fun p => applyFilter filter (b.heap p) ≠ 0) ∧
      ∀ p ∈ b.packets.take n,
        (filterPackets filter trace n b).2.heap p = settle filter trace (b.heap p) := by
  obtain ⟨b', hrun, ⟨dropped, hpackets, hdropped⟩, hheap⟩ :=
    filterFrom_spec filter trace (b.packets.take n) (b.packets.drop n) [] []
      b.heap (fun p => applyFilter filter (b.heap p) ≠ 0) (by simp)
      (hnodup.sublist (List.take_sublist n b.packets))
  rw [List.take_append_drop, List.length_take, Nat.min_eq_left hn] at hrun
  have hresult : filterPackets filter trace n b = _ := hrun
  rw [hresult]
  simp only [List.length_nil, Nat.zero_add, List.nil_append] at hpackets hdropped ⊢
  refine ⟨trivial, ?_, ?_, fun p hp => by rw [hheap, if_pos hp]⟩
  · have hsplit := List.filter_append_perm (fun p => decide (applyFilter filter (b.heap p) ≠ 0))
      (b.packets.take n)
    rw [hpackets]
    have hall := ((hdropped.append_left _).trans hsplit).append_right (b.packets.drop n)
    rwa [List.take_append_drop] at hall
  · rw [hpackets, List.append_assoc]
    exact List.take_left

end

theorem length_filter_countP (outcome : α → Int) (packets : List α) :
    (packets.filter (outcome · ≠ 0)).length + packets.countP (outcome · = 0) = packets.length := by
  induction packets with
  | nil => rfl
  | cons a rest ih =>
    by_cases h : outcome a = 0
    · simp [h] at ih ⊢
      omega
    · simp [h] at ih ⊢
      omega

/-- Filtering a batch agrees with filtering packet by packet exactly if the filter fails for none: a
failure is taken for a match. -/
theorem filterPackets_agrees_iff [DecidableEq ι] (filter : α → Int) (carryOn : Bool) (trace : τ)
    {n : Nat} {b : Batch ι τ α} (hn : n ≤ b.packets.length) (hnodup : b.packets.Nodup) :
    Agrees filter carryOn trace n b ↔
      ∀ p ∈ b.packets.take n, applyFilter filter (b.heap p) ≠ -1 := by
  obtain ⟨hcount, hperm, hfront, hheap⟩ :=
    filterPackets_spec filter trace hn hnodup
  constructor
  · intro h p hp hfailed
    have hmatch : p ∈ (b.packets.take n).filter fun p => applyFilter filter (b.heap p) ≠ 0 := by
      rw [List.mem_filter]
      exact ⟨hp, by simp [hfailed]⟩
    rw [← hfront, h.front] at hmatch
    exact readAll_ne _ _ _ p hmatch hfailed
  · intro h
    have hread :
        readBatch (fun p => applyFilter filter (b.heap p)) carryOn (b.packets.take n) = _ :=
      readAll_eq _ 0 (Nat.lt_succ_self _) h
    refine ⟨hperm, ?_, ?_, fun p hp => ?_, fun p hp hnot => ?_, ?_⟩
    · rw [hread, hcount]
    · rw [hread, hfront]
    · rw [hread] at hp
      obtain ⟨hp, hmatch⟩ := List.mem_filter.mp hp
      rw [hheap p hp, settle, if_pos (by simpa using hmatch)]
    · rw [hread, List.mem_filter, not_and] at hnot
      have hzero : applyFilter filter (b.heap p) = 0 := by simpa using hnot hp
      rw [hheap p hp, settle, if_neg (by simp [hzero])]
    · have hlength := length_filter_countP (fun p => applyFilter filter (b.heap p))
        (b.packets.take n)
      rw [List.length_take, Nat.min_eq_left hn, ← hcount] at hlength
      rw [filteredBy, hread, Nat.zero_add]
      omega

def batch (third : Int) : Batch (Fin 4) Unit Int where
  heap p := ⟨none, some (if p = 1 ∨ p = 3 then 1500 else if p = 2 then third else 0)⟩
  packets := [0, 1, 2, 3]

theorem batch_agrees : Agrees id false () 4 (batch 0) :=
  (filterPackets_agrees_iff id false () (by decide) (by decide)).mpr (by decide)

/-- A program that reads sequentially gets the second packet only, or that and the fourth. -/
theorem batch_fails :
    (filterPackets id () 4 (batch (-1))).2.packets.take 3 = [1, 2, 3] ∧
      (filterPackets id () 4 (batch (-1))).1 = 3 ∧
      (readBatch (fun p => applyFilter id ((batch (-1)).heap p)) false [0, 1, 2, 3]).1 = [1] ∧
      (readBatch (fun p => applyFilter id ((batch (-1)).heap p)) true [0, 1, 2, 3]).1 = [1, 3] := by
  decide

end Libtrace.FilterBatch
