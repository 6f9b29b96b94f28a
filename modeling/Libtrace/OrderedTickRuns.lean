import Libtrace.OrderedTicks

/-! Ticks over whole runs of the ordered combiner: the reporter gets each once, unless one is
stranded, marked by a `read` that returned before popping it. -/

namespace Libtrace.OrderedTickRuns
open Exec CombinerOrdered OrderedMerge OrderedDrain OrderedStall OrderedRuns HighWater OrderedTicks

def between {n : Nat} (kind : TickKind) (cs : List (Call n)) (w : World n) :
    Ledger (Fin n) UInt64 :=
  ⟨fun i => tickKeys kind (pending cs w i), lastTick kind w, sentTicks kind w, fun _ => none⟩

/-- A tick at the head of a queue that its mark has reached although it was never sent. -/
def Stranded {n : Nat} (kind : TickKind) (w : World n) : Prop :=
  ∃ i r q, w.queues i = r :: q ∧ r.type = kind.type ∧ r.key ≤ lastTick kind w ∧
    r.key ∉ sentTicks kind w

def passes {n : Nat} (parallel : Bool) : Nat → Reader n Unit
  | 0 => return ()
  | k + 1 => do
    let _ ← readInternal parallel true
    passes parallel k

/-- No call finds a stranded tick, and no pass of `read_final` starts out stuck. -/
def Smooth {n : Nat} (kind : TickKind) (parallel : Bool) (calls : List (Call n)) : Prop :=
  (∀ cs w, cs <+: calls → runCalls parallel cs (initCombiner n) = .ok ((), w) →
    ¬ Stranded kind w) ∧
  ∀ k w, (do runCalls parallel calls; passes parallel k) (initCombiner n) = .ok ((), w) →
    ¬ Stuck parallel w

def TicksOnce {n : Nat} (kind : TickKind) (parallel : Bool) (calls : List (Call n))
    (ts : List UInt64) : Prop :=
  ∃ w, run parallel calls (initCombiner n) = .ok ((), w) ∧ sentTicks kind w = ts

variable {n : Nat} {kind : TickKind} {cs : List (Call n)} {w w' : World n} {parallel direct : Bool}
  {calls : List (Call n)} {ts : List UInt64}

theorem between_eq {cs' : List (Call n)} (hp : pending cs' w' = pending cs w)
    (hs : w'.sent = w.sent) (hm : lastTick kind w' = lastTick kind w) :
    between kind cs' w' = between kind cs w := by
  simp only [between, hp, hm, sentTicks, hs]

theorem between_publish (kind : TickKind) (ha : w.arriving = []) (p : Fin n × Result)
    (cs : List (Call n)) : between kind cs (publish w p) = between kind (.publish p :: cs) w :=
  between_eq (pending_publish ha p cs) rfl (by cases kind <;> rfl)

theorem between_read (kind : TickKind) (ha : w.arriving = [])
    (arriving : List (List (Fin n × Result))) (cs : List (Call n)) :
    between kind cs { w with arriving := arriving } = between kind (.read arriving :: cs) w :=
  between_eq (pending_read ha arriving cs) rfl (by cases kind <;> rfl)

theorem between_landAll (kind : TickKind) (cs : List (Call n)) (w : World n) :
    between kind cs w.landAll = between kind cs w :=
  between_eq (pending_landAll w cs) (by rw [landAll_eq]) (by rw [landAll_eq]; cases kind <;> rfl)

theorem ledger_start (kind : TickKind) (cs : List (Call n)) (w : World n) :
    ledger kind (streamOf cs) (Merge.start w) = between kind cs w := by
  have hwait : waitingTick kind (Merge.start w) = fun _ => none := by
    funext i
    exact waitingTick_not_live kind (by simp [Merge.start])
  rfl

theorem ledger_release (kind : TickKind) (cs : List (Call n)) (st : Fin n → Status) (w : World n) :
    (ledger kind (streamOf cs) ⟨st, w⟩).release = between kind cs w := rfl

theorem steps_ledger {final : Bool} {M : Merge n} (P : Ledger (Fin n) UInt64 → Prop)
    (step : ∀ L L', HighWater.Step (kind.direct parallel) L L' → P L → P L')
    (hs : Steps parallel final (Merge.start w) M) (h : P (between kind cs w)) :
    P (ledger kind (streamOf cs) M) := by
  refine (steps_invariant (fun M => LiveHeads M ∧ P (ledger kind (streamOf cs) M)) hs
    ⟨by simp [LiveHeads, Merge.start], by rwa [ledger_start]⟩ ?_).2
  rintro A B hs ⟨hl, hP⟩
  refine ⟨step_liveHeads hs hl, ?_⟩
  rcases step_ledger kind (streamOf cs) hs hl with he | hstep
  · rwa [he]
  · exact step _ _ hstep hP

theorem steps_covered {final : Bool} {M : Merge n} (hts : ts.Pairwise (· < ·))
    (hs : Steps parallel final (Merge.start w) M)
    (h : Orderly (kind.direct parallel) ts (between kind cs w) ∧ Covered ts (between kind cs w)) :
    Orderly (kind.direct parallel) ts (ledger kind (streamOf cs) M) ∧
      Covered ts (ledger kind (streamOf cs) M) :=
  steps_ledger (fun L => Orderly (kind.direct parallel) ts L ∧ Covered ts L)
    (fun _ _ hs hL => ⟨step_orderly hts hs hL.1, step_covered hts hs hL.1 hL.2⟩) hs h

theorem runCalls_ledger (hn : 0 < n) (parallel : Bool) (kind : TickKind) {E : Fault → Prop}
    (P : Ledger (Fin n) UInt64 → Prop)
    (step : ∀ L L', HighWater.Step (kind.direct parallel) L L' → P L → P L')
    (release : ∀ L, P L → P L.release) (cs later : List (Call n)) (w : World n)
    (ha : w.arriving = []) (h : P (between kind (cs ++ later) w)) :
    Spec (runCalls parallel cs) w (fun _ w' => w'.arriving = [] ∧ P (between kind later w')) E := by
  refine runCalls_spec hn parallel (fun cs w => P (between kind (cs ++ later) w)) ?_ ?_ cs w ha h
  · intro p cs w ha h
    rwa [between_publish kind ha]
  · intro arriving cs w s st w' ha h _ ret
    rw [List.cons_append, ← between_read kind ha] at h
    rw [between_landAll, ← ledger_release kind (cs ++ later) st]
    exact release _ (steps_ledger P step ret.steps h)

theorem readFinal_ledger (hn : 0 < n) (parallel : Bool) (kind : TickKind)
    (P : Ledger (Fin n) UInt64 → Prop)
    (step : ∀ L L', HighWater.Step (kind.direct parallel) L L' → P L → P L')
    (release : ∀ L, P L → P L.release) (w : World n) (ha : w.arriving = [])
    (h : P (between kind [] w)) :
    Spec (readFinal parallel) w (fun _ w' => P (between kind [] w')) (fun _ => True) := by
  refine spec_mono (readFinal_spec hn parallel (fun w => P (between kind [] w)) ?_
    (fun _ _ _ _ => trivial) w ha h) (fun _ _ h => h.1) fun _ he => he
  intro w s st w' h _ _ _ ret
  exact release _ (steps_ledger P step ret.steps h)

theorem lost_release {k : UInt64} {L : Ledger (Fin n) UInt64} (h : Lost k L) :
    Lost k L.release := ⟨h.1, h.2.1, by simp [Ledger.release]⟩

theorem orderly_init (hpos : ∀ t ∈ ts, 0 < t)
    (hstreams : ∀ i, tickKeys kind (streamOf calls i) = ts) :
    Orderly direct ts (between kind calls (initCombiner n)) ∧
      Covered ts (between kind calls (initCombiner n)) := by
  have hleft : ∀ i, (between kind calls (initCombiner n)).left i = ts := by
    intro i
    rw [← hstreams i, between, pending_init]
  have hmark : (between kind calls (initCombiner n)).mark = 0 := by cases kind <;> rfl
  have hsent : (between kind calls (initCombiner n)).sent = [] := rfl
  refine ⟨⟨fun i => ?_, fun i => ?_, by simp [hsent], by simp [hsent], by simp [between],
    by simp [between], fun _ _ => rfl⟩, fun k hk hle => ?_⟩
  · rw [hleft]
  · rw [hleft, hmark, fresh, List.filter_eq_self.mpr fun t ht => by simpa using hpos t ht]
  · rw [hmark] at hle
    exact absurd (hpos k hk) (not_lt.mpr hle)

theorem covered_release {st : Fin n → Status}
    (ho : Orderly direct ts (ledger kind (streamOf cs) ⟨st, w⟩))
    (hc : Covered ts (ledger kind (streamOf cs) ⟨st, w⟩)) (hw : ¬ Stranded kind w) :
    Covered ts (between kind cs w) := by
  intro k hk hle
  rcases hc k hk hle with hs | ⟨i, hi⟩
  · exact .inl hs
  obtain ⟨-, -, hlast⟩ := ho.waiting i k hi
  refine absurd ?_ hw
  simp only [ledger, waitingTick] at hi
  split_ifs at hi with hlive
  cases hq : w.queues i with
  | nil => simp [hq] at hi
  | cons r q =>
    simp only [hq, List.head?_cons, Option.bind_some] at hi
    split_ifs at hi with hr
    rw [Option.some.injEq] at hi
    refine ⟨i, r, q, hq, hr, hi ▸ hle, fun hmem => ?_⟩
    exact absurd (hlast r.key hmem) (hi ▸ lt_irrefl _)

theorem stranded_landAll (h : Stranded kind w) : Stranded kind w.landAll := by
  obtain ⟨i, r, q, hq, hr, hle, hnot⟩ := h
  rw [landAll_eq]
  refine ⟨i, r, q ++ resultsOf i w.arriving.flatten, by simp [World.toCome, hq], hr, ?_, hnot⟩
  cases kind <;> exact hle

theorem lost_of_stranded (ho : Orderly direct ts (between kind cs w)) (h : Stranded kind w) :
    ∃ k ∈ ts, Lost k (between kind cs w) := by
  obtain ⟨i, r, q, hq, hr, hle, hnot⟩ := h
  refine ⟨r.key, (ho.left i).subset ?_, hle, hnot, by simp [between]⟩
  simp [between, pending, World.toCome, hq, tickKeys_cons_same hr]

theorem runCalls_append (parallel : Bool) (cs cs' : List (Call n)) :
    runCalls parallel (cs ++ cs') = (do runCalls parallel cs; runCalls parallel cs') := by
  induction cs with
  | nil => simp [runCalls]
  | cons c cs ih => simp [runCalls, ih]

theorem runCalls_snoc {c : Call n} {w'' : World n} (h : runCalls parallel cs w = .ok ((), w'))
    (hc : runCall parallel c w' = .ok ((), w'')) :
    runCalls parallel (cs ++ [c]) w = .ok ((), w'') := by
  rw [runCalls_append]
  exact bind_eq_ok.mpr ⟨(), w', h, bind_eq_ok.mpr ⟨(), w'', hc, rfl⟩⟩

theorem runCalls_covered (hn : 0 < n)
    {E : Fault → Prop} (hts : ts.Pairwise (· < ·))
    (hpos : ∀ t ∈ ts, 0 < t) (hstreams : ∀ i, tickKeys kind (streamOf calls i) = ts)
    (hfree : ∀ cs w, cs <+: calls → runCalls parallel cs (initCombiner n) = .ok ((), w) →
      ¬ Stranded kind w) :
    Spec (runCalls parallel calls) (initCombiner n)
      (fun _ w => w.arriving = [] ∧ Orderly (kind.direct parallel) ts (between kind [] w) ∧
        Covered ts (between kind [] w)) E := by
  let K := fun (cs : List (Call n)) (w : World n) => ∃ done, calls = done ++ cs ∧
    runCalls parallel done (initCombiner n) = .ok ((), w) ∧
    Orderly (kind.direct parallel) ts (between kind cs w) ∧ Covered ts (between kind cs w)
  have hsnoc : ∀ (done cs : List (Call n)) (c : Call n) (w w' : World n), calls = done ++ c :: cs →
      runCalls parallel done (initCombiner n) = .ok ((), w) → runCall parallel c w = .ok ((), w') →
      calls = (done ++ [c]) ++ cs ∧
        runCalls parallel (done ++ [c]) (initCombiner n) = .ok ((), w') :=
    fun done cs c w w' hcalls hdone hc => ⟨by simp [hcalls], runCalls_snoc hdone hc⟩
  refine spec_mono (runCalls_spec hn parallel K ?_ ?_ calls (initCombiner n) rfl
    ⟨[], rfl, rfl, orderly_init hpos hstreams⟩) ?_ fun _ he => he
  · rintro p cs w ha ⟨done, hcalls, hdone, h⟩
    obtain ⟨hcalls', hdone'⟩ := hsnoc done cs _ w _ hcalls hdone rfl
    exact ⟨_, hcalls', hdone', by rwa [between_publish kind ha]⟩
  · rintro arriving cs w s st w' ha ⟨done, hcalls, hdone, h⟩ hread ret
    rw [← between_read kind ha] at h
    obtain ⟨hcalls', hdone'⟩ := hsnoc done cs _ w _ hcalls hdone
      (bind_eq_ok.mpr ⟨s, _, hread, rfl⟩)
    obtain ⟨ho, hc⟩ := steps_covered hts ret.steps h
    have hw' : ¬ Stranded kind w' := fun hstr =>
      hfree _ _ ⟨cs, hcalls'.symm⟩ hdone' (stranded_landAll hstr)
    refine ⟨_, hcalls', hdone', ?_⟩
    rw [between_landAll]
    exact ⟨release_orderly ho, covered_release ho hc hw'⟩
  · rintro - w ⟨ha, -, -, -, h⟩
    exact ⟨ha, h⟩

theorem readFinal_covered (hn : 0 < n) (hts : ts.Pairwise (· < ·)) (safe : World n → Prop)
    (hsafe : ∀ w, safe w → ¬ Stuck parallel w)
    (keep : ∀ w s st w', safe w → readInternal parallel true w = .ok (s, w') →
      Returned parallel true w s st w' → safe w')
    (w : World n) (ha : w.arriving = []) (hw : safe w)
    (h : Orderly (kind.direct parallel) ts (between kind [] w) ∧ Covered ts (between kind [] w)) :
    ∃ w', readFinal parallel w = .ok ((), w') ∧ sentTicks kind w' = ts := by
  have hspec := readFinal_spec hn parallel (E := fun _ => False)
    (fun w => safe w ∧ Orderly (kind.direct parallel) ts (between kind [] w) ∧
      Covered ts (between kind [] w)) ?_ (fun w h _ hstuck => hsafe w h.1 hstuck) w ha ⟨hw, h⟩
  · obtain ⟨⟨⟩, w', hrun, ⟨-, ho, hc⟩, harr, hempty⟩ := spec_total hspec
    refine ⟨w', hrun, sent_eq ⟨0, hn⟩ hts ho hc ?_ fun _ => rfl⟩
    simp [between, World.toCome, hempty, harr, tickKeys]
  · rintro w s st w' ⟨hw, h⟩ - - heq ret
    obtain ⟨ho, hc⟩ := steps_covered hts ret.steps h
    have hdead : ledger kind (streamOf []) ⟨st, w'⟩ = between kind [] w' := by
      rw [← ledger_release kind [] st w', Ledger.release, ledger]
      congr 1
      funext j
      exact waitingTick_not_live kind (by simp [ret.dead j])
    rw [hdead] at ho hc
    exact ⟨keep w s st w' hw heq ret, ho, hc⟩

def NeverStuck {n : Nat} (parallel : Bool) (w : World n) : Prop :=
  ∀ k w', passes parallel k w = .ok ((), w') → ¬ Stuck parallel w'

theorem neverStuck_pass {s : Scan n} (h : NeverStuck parallel w)
    (hpass : readInternal parallel true w = .ok (s, w')) :
    NeverStuck parallel w' := fun k w'' hk =>
  h (k + 1) w'' (bind_eq_ok.mpr ⟨s, w', hpass, hk⟩)

theorem passes_empty (hn : 0 < n) (k : Nat) (ha : w.arriving = []) (hempty : ∀ i, w.queues i = [])
    (h : passes parallel k w = .ok ((), w')) : ∀ i, w'.queues i = [] := by
  induction k generalizing w with
  | zero =>
    have hw : w = w' := congrArg Prod.snd (Except.ok.inj h)
    exact hw ▸ hempty
  | succ k ih =>
    obtain ⟨s, w₁, hpass, hrest⟩ := bind_eq_ok.mp h
    obtain ⟨-, st, ret⟩ := spec_ok (finalPass_spec hn parallel ha) hpass
    refine ih (steps_arriving ret.steps ha) (fun i => ?_) hrest
    have hsuf := steps_toCome ret.steps i
    have hnil : w.toCome i = [] := by simp [World.toCome, hempty i, ha]
    simp only [Merge.start, hnil, List.suffix_nil] at hsuf
    exact (List.append_eq_nil_iff.mp hsuf).1

theorem readFinal_neverStuck (hn : 0 < n) (ha : w.arriving = [])
    (h : readFinal parallel w = .ok ((), w')) : NeverStuck parallel w := by
  intro k v hk hstuck
  have hspec := readFinal_spec hn parallel (E := fun _ => True)
    (fun w => ∃ k v, passes parallel k w = .ok ((), v) ∧ Stuck parallel v) ?_
    (fun _ _ _ _ => trivial) w ha ⟨k, v, hk, hstuck⟩
  · obtain ⟨⟨k, v, hk, hstuck⟩, harr, hempty⟩ := spec_ok hspec h
    obtain ⟨⟨i, r, q, hq, -⟩, -⟩ := hstuck
    simp [passes_empty hn k harr hempty hk i] at hq
  · rintro w s st w' ⟨k, v, hk, hstuck⟩ - hgo heq -
    cases k with
    | zero =>
      have hw : w = v := congrArg Prod.snd (Except.ok.inj hk)
      exact absurd (hw ▸ hstuck) hgo
    | succ k =>
      obtain ⟨s', w₁, hpass, hrest⟩ := bind_eq_ok.mp hk
      rw [heq, Except.ok.injEq, Prod.mk.injEq] at hpass
      exact ⟨k, v, hpass.2 ▸ hrest, hstuck⟩

/-- Ticks that are sent as soon as they are seen reach the reporter once in every run. -/
theorem ticksOnce_direct (hn : 0 < n) (hdirect : kind.direct parallel = true)
    (hts : ts.Pairwise (· < ·)) (hpos : ∀ t ∈ ts, 0 < t)
    (hstreams : ∀ i, tickKeys kind (streamOf calls i) = ts)
    (hkeys : ∀ p ∈ calls.flatMap Call.results, p.2.key < uint64Max) :
    TicksOnce kind parallel calls ts := by
  have hticks := runCalls_ledger hn parallel kind (E := fun _ => False)
    (fun L => Orderly (kind.direct parallel) ts L ∧ Covered ts L)
    (fun _ _ hs hL => ⟨step_orderly hts hs hL.1, step_covered hts hs hL.1 hL.2⟩)
    (fun L hL => ⟨release_orderly hL.1, fun k hk hle => (hL.2 k hk hle).imp_right
      fun ⟨i, hi⟩ => by simp [hL.1.idle hdirect i] at hi⟩)
    calls [] (initCombiner n) rfl (by simpa using orderly_init hpos hstreams)
  obtain ⟨⟨⟩, w₂, hcalls, ⟨ha₂, h₂⟩, -, hcons⟩ :=
    spec_total (spec_and hticks (runCalls_conserved hn parallel hkeys))
  obtain ⟨w, hfinal, hsent⟩ := readFinal_covered hn hts (Conserved calls [])
    (fun w h => not_stuck_of_bounded (by simpa using h.keys))
    (fun _ _ _ _ h _ ret => conserved_steps h ret.steps) w₂ ha₂ hcons h₂
  exact ⟨w, bind_eq_ok.mpr ⟨(), w₂, hcalls, hfinal⟩, hsent⟩

theorem ticksOnce_direct_two :
    TicksOnce .count true [.publish ((0 : Fin 2), ⟨5, 0, .tickCount⟩), .read [],
        .publish (1, ⟨5, 0, .tickCount⟩)] [5] :=
  ticksOnce_direct (by decide) rfl (List.pairwise_singleton _ _)
    (List.forall_mem_singleton.mpr (by decide)) (by decide) (by decide)

/-- Each tick that all threads publish reaches the reporter once and in order exactly in the smooth
runs. -/
theorem ticksOnce_iff {n : Nat} (hn : 0 < n) (kind : TickKind) (parallel : Bool)
    (calls : List (Call n)) (ts : List UInt64) (hts : ts.Pairwise (· < ·)) (hpos : ∀ t ∈ ts, 0 < t)
    (hstreams : ∀ i, tickKeys kind (streamOf calls i) = ts) :
    TicksOnce kind parallel calls ts ↔ Smooth kind parallel calls := by
  constructor
  · rintro ⟨w, hrun, hsent⟩
    obtain ⟨⟨⟩, w₂, hcalls, hfinal⟩ := bind_eq_ok.mp hrun
    have orderly : ∀ cs later, cs ++ later = calls → Spec (runCalls parallel cs) (initCombiner n)
        (fun _ w => w.arriving = [] ∧ Orderly (kind.direct parallel) ts (between kind later w))
        (fun _ => True) := fun cs later hsplit =>
      runCalls_ledger hn parallel kind _ (fun _ _ => step_orderly hts)
        (fun _ => release_orderly) cs later _ rfl (hsplit ▸ (orderly_init hpos hstreams).1)
    refine ⟨fun cs w₁ ⟨later, hsplit⟩ hcs hstr => ?_, fun k v hk => ?_⟩
    · -- a stranded key is lost for good
      obtain ⟨ha₁, ho₁⟩ := spec_ok (orderly cs later hsplit) hcs
      obtain ⟨k, hk, hlost⟩ := lost_of_stranded ho₁ hstr
      have hlater : runCalls parallel later w₁ = .ok ((), w₂) := by
        rw [← hsplit, runCalls_append] at hcalls
        obtain ⟨⟨⟩, w', hcs', hrest⟩ := bind_eq_ok.mp hcalls
        rw [hcs, Except.ok.injEq, Prod.mk.injEq] at hcs'
        exact hcs'.2 ▸ hrest
      obtain ⟨ha₂, hlost₂⟩ := spec_ok (runCalls_ledger hn parallel kind (E := fun _ => True)
        (Lost k) (fun _ _ => step_lost) (fun _ => lost_release) later [] w₁ ha₁
        (by simpa using hlost)) hlater
      have hlost₃ := spec_ok (readFinal_ledger hn parallel kind (Lost k) (fun _ _ => step_lost)
        (fun _ => lost_release) w₂ ha₂ hlost₂) hfinal
      exact hlost₃.2.1 (show k ∈ sentTicks kind w by rwa [hsent])
    · obtain ⟨ha₂, -⟩ := spec_ok (orderly calls [] (by simp)) hcalls
      obtain ⟨⟨⟩, w', hcalls', hpasses⟩ := bind_eq_ok.mp hk
      rw [hcalls, Except.ok.injEq, Prod.mk.injEq] at hcalls'
      exact readFinal_neverStuck hn ha₂ hfinal k v (hcalls'.2 ▸ hpasses)
  · rintro ⟨hfree, hgo⟩
    obtain ⟨⟨⟩, w₂, hcalls, ha₂, h₂⟩ := spec_total (runCalls_covered hn hts hpos hstreams hfree)
    have hnever : NeverStuck parallel w₂ := fun k w' hk =>
      hgo k w' (bind_eq_ok.mpr ⟨(), w₂, hcalls, hk⟩)
    obtain ⟨w, hfinal, hsent⟩ := readFinal_covered hn hts (NeverStuck parallel)
      (fun w h => h 0 w rfl) (fun _ _ _ _ h heq _ => neverStuck_pass h heq) w₂ ha₂ hnever h₂
    exact ⟨w, bind_eq_ok.mpr ⟨(), w₂, hcalls, hfinal⟩, hsent⟩

theorem ticksOnce_iff_two :
    TicksOnce .interval false [.publish ((0 : Fin 2), ⟨5, 0, .tickInterval⟩), .read [],
        .publish (1, ⟨5, 0, .tickInterval⟩)] [5] ↔
      Smooth .interval false [.publish ((0 : Fin 2), ⟨5, 0, .tickInterval⟩), .read [],
        .publish (1, ⟨5, 0, .tickInterval⟩)] :=
  ticksOnce_iff (by decide) .interval false _ [5] (List.pairwise_singleton _ _)
    (List.forall_mem_singleton.mpr (by decide)) (by decide)

/-- A `read` marks thread 0's count tick and returns without popping it; `read_final` drops both
copies. -/
theorem ticksOnce_fails :
    (∀ i : Fin 2, tickKeys .count (streamOf [.publish (0, ⟨5, 0, .tickCount⟩), .read [],
        .publish (1, ⟨5, 0, .tickCount⟩)] i) = [5]) ∧
      ¬ TicksOnce .count false [.publish ((0 : Fin 2), ⟨5, 0, .tickCount⟩), .read [],
        .publish (1, ⟨5, 0, .tickCount⟩)] [5] := by
  refine ⟨by decide, ?_⟩
  rintro ⟨w, hw, hsent⟩
  have hrun : (run false [.publish ((0 : Fin 2), ⟨5, 0, .tickCount⟩), .read [],
      .publish (1, ⟨5, 0, .tickCount⟩)] (initCombiner 2)).map (fun p => sentTicks .count p.2) =
        .ok [] := by decide +kernel
  rw [hw] at hrun
  simp only [Except.map, Except.ok.injEq, hsent] at hrun
  exact absurd hrun (by decide)

end Libtrace.OrderedTickRuns
