import Libtrace.ParallelStart

/-! What stands when `trace_pstart` fails: how many per-packet threads exist, and how many are
counted. -/

namespace Libtrace.StartLaunch
open ParallelTrace ParallelStart Function

def tableTo (k i : Nat) : Thread := if i < k then ⟨.perpkt, .running⟩ else emptyThread

theorem update_tableTo_ok (k : Nat) :
    update (tableTo k) k ⟨.perpkt, .running⟩ = tableTo (k + 1) := by
  funext i
  by_cases hi : i = k
  · simp [hi, tableTo]
  · rw [update_of_ne hi]
    simp only [tableTo]
    congr 1
    exact propext ⟨fun h => by omega, fun h => by omega⟩

theorem update_tableTo_fail (k : Nat) :
    update (tableTo k) k (zeroThread ⟨.perpkt, .running⟩) = tableTo k := by
  funext i
  by_cases hi : i = k
  · simp [hi, tableTo, zeroThread, emptyThread]
  · rw [update_of_ne hi]

/-- After `e` of the per-packet threads have gone from running to finished. -/
def tally (running : Int) (e : Nat) : ThreadState → Int
  | .running => running - e
  | .finished => e
  | .finishing | .paused => 0

/-- `n` per-packet threads were asked for, `k` exist, and `running` are counted. -/
structure Failed (n k : Nat) (running : Int) (tr : Trace) : Prop where
  count : tr.perpktThreadCount = n
  le : k ≤ n
  counts : tr.perpktThreadStates = tally running 0
  table : (k = 0 ∧ tr.perpktThreads = none) ∨ tr.perpktThreads = some (tableTo k)
  proper : tr.Proper

structure Kept (tr tr' : Trace) : Prop where
  count : tr'.perpktThreadCount = tr.perpktThreadCount
  counts : tr'.perpktThreadStates = tr.perpktThreadStates
  table : tr'.perpktThreads = tr.perpktThreads
  proper : tr.Proper → tr'.Proper

theorem Kept.failed {n k : Nat} {running : Int} {tr tr' : Trace} (h : Kept tr tr')
    (hf : Failed n k running tr) : Failed n k running tr' :=
  ⟨h.count.trans hf.count, hf.le, h.counts.trans hf.counts, h.table ▸ hf.table, h.proper hf.proper⟩

theorem Kept.trans {a b c : Trace} (h : Kept a b) (h' : Kept b c) : Kept a c :=
  ⟨h'.count.trans h.count, h'.counts.trans h.counts, h'.table.trans h.table,
    h'.proper ∘ h.proper⟩

section

variable {c : Setup} {tr : Trace}

theorem proper_started (h : tr.Proper) (id : ThreadId) :
    (tr.setThread id ⟨id.type, .running⟩).Proper := h.setThread (.inr rfl)

theorem proper_zeroed (h : tr.Proper) (id : ThreadId) (t : Thread) :
    (tr.setThread id (zeroThread t)).Proper := h.setThread (.inl rfl)

theorem kept_started (id : ThreadId) (hid : ∀ i, id ≠ .perpkt i) :
    Kept tr (tr.setThread id ⟨id.type, .running⟩) := by
  refine ⟨Trace.setThread_count _ _ _, Trace.setThread_counts _ _ _, ?_, fun h =>
    proper_started h id⟩
  cases id with
  | perpkt i => exact absurd rfl (hid i)
  | _ => rfl

theorem kept_zeroed (id : ThreadId) (hid : ∀ i, id ≠ .perpkt i) (t : Thread) :
    Kept tr (tr.setThread id (zeroThread t)) := by
  refine ⟨Trace.setThread_count _ _ _, Trace.setThread_counts _ _ _, ?_, fun h =>
    proper_zeroed h id t⟩
  cases id with
  | perpkt i => exact absurd rfl (hid i)
  | _ => rfl

variable (point : Option FailurePoint)

theorem startHasher_ok (tr : Trace) (hp : point ≠ some .hasher) :
    ∃ tr', startHasher point tr = .ok tr' ∧ Kept tr tr' := by
  have hzero : Kept tr (tr.setThread .hasher (zeroThread tr.hasherThread)) :=
    kept_zeroed .hasher nofun _
  simp only [startHasher, traceStartThread, decide_eq_true_eq, if_neg hp]
  split
  · have hstart := hzero.trans (kept_started .hasher nofun)
    exact ⟨_, rfl, hstart.count, hstart.counts, hstart.table, hstart.proper⟩
  · exact ⟨_, rfl, hzero⟩

theorem startReporter_ok (c : Setup) (point : Option FailurePoint) (tr : Trace)
    (hp : point ≠ some .reporter) : ∃ tr', startReporter c point tr = .ok tr' ∧ Kept tr tr' := by
  simp only [startReporter, traceStartThread, decide_eq_true_eq, if_neg hp]
  split
  · exact ⟨_, rfl, kept_started _ nofun⟩
  · exact ⟨_, rfl, rfl, rfl, rfl, id⟩

theorem startKeepalive_ok (c : Setup) (point : Option FailurePoint) (tr : Trace)
    (hp : point ≠ some .keepalive) : ∃ tr', startKeepalive c point tr = .ok tr' ∧ Kept tr tr' := by
  simp only [startKeepalive, traceStartThread, decide_eq_true_eq, if_neg hp]
  split
  · exact ⟨_, rfl, kept_started _ nofun⟩
  · exact ⟨_, rfl, rfl, rfl, rfl, id⟩

theorem startReporter_error (tr : Trace) (hc : c.reporterCbs = true) :
    ∃ tr', startReporter c (some .reporter) tr = .error (.cleanupThreads, tr') ∧ Kept tr tr' := by
  simp only [startReporter, traceStartThread, hc, decide_true, if_true]
  have hzero : Kept tr (tr.setThread .reporter (zeroThread ⟨.reporter, .running⟩)) :=
    kept_zeroed .reporter nofun _
  exact ⟨_, rfl, hzero.count, hzero.counts, hzero.table, hzero.proper⟩

theorem startKeepalive_error (tr : Trace) (hc : 0 < c.tickInterval) :
    ∃ tr', startKeepalive c (some .keepalive) tr = .error (.cleanupThreads, tr') ∧ Kept tr tr' := by
  simp only [startKeepalive, traceStartThread, if_pos hc, decide_true, if_true]
  have hzero : Kept tr (tr.setThread .keepalive (zeroThread ⟨.keepalive, .running⟩)) :=
    kept_zeroed .keepalive nofun _
  exact ⟨_, rfl, hzero.count, hzero.counts, hzero.table, hzero.proper⟩

theorem allocTable_ok {n : Nat} (hf : Failed n 0 0 tr) (hp : point ≠ some .table) :
    ∃ tr', allocTable point tr = .ok tr' ∧ Failed n 0 0 tr' ∧
      tr'.perpktThreads = some (tableTo 0) := by
  rw [allocTable, if_neg hp]
  refine ⟨_, rfl, ⟨hf.count, hf.le, hf.counts, .inr rfl, fun id => ?_⟩, rfl⟩
  cases id with
  | perpkt i => exact .inl rfl
  | hasher => exact hf.proper .hasher
  | reporter => exact hf.proper .reporter
  | keepalive => exact hf.proper .keepalive

theorem failed_started {n i : Nat} (hf : Failed n i 0 tr)
    (htable : tr.perpktThreads = some (tableTo i)) (hi : i < n) :
    Failed n (i + 1) 0 (tr.setThread (.perpkt i) ⟨.perpkt, .running⟩) ∧
      (tr.setThread (.perpkt i) ⟨.perpkt, .running⟩).perpktThreads = some (tableTo (i + 1)) := by
  have hnext : (tr.setThread (.perpkt i) ⟨.perpkt, .running⟩).perpktThreads =
      some (tableTo (i + 1)) := by
    simp only [Trace.setThread, htable, Option.map_some, update_tableTo_ok]
  exact ⟨⟨hf.count, hi, hf.counts, .inr hnext, proper_started hf.proper (.perpkt i)⟩, hnext⟩

theorem startPerpkts_ok {n : Nat} (left i : Nat) (hf : Failed n i 0 tr)
    (htable : tr.perpktThreads = some (tableTo i)) (hn : i + left = n)
    (hp : ∀ j, point ≠ some (.perpkt j)) :
    ∃ tr', startPerpkts point left i tr = .ok tr' ∧ Failed n n 0 tr' := by
  induction left generalizing i tr with
  | zero =>
    exact ⟨tr, rfl, hn ▸ hf⟩
  | succ left ih =>
    simp only [startPerpkts, traceStartThread, ThreadId.type, decide_eq_true_eq, if_neg (hp i)]
    obtain ⟨hf', htable'⟩ := failed_started hf htable (by omega)
    exact ih (i + 1) hf' htable' (by omega)

theorem startPerpkts_error {n : Nat} (left i p : Nat) (hf : Failed n i 0 tr)
    (htable : tr.perpktThreads = some (tableTo i)) (hn : i + left = n) (hi : i ≤ p) (hp : p < n) :
    ∃ tr', startPerpkts (some (.perpkt p)) left i tr = .error (.cleanupThreads, tr') ∧
      Failed n p 0 tr' := by
  induction left generalizing i tr with
  | zero => omega
  | succ left ih =>
    by_cases hip : p = i
    · subst hip
      simp only [startPerpkts, traceStartThread, decide_true, if_true]
      refine ⟨_, rfl, hf.count, hf.le, hf.counts, .inr ?_, ?_⟩
      · simp only [Trace.setErr, Trace.setThread, ThreadId.type, htable, Option.map_some,
          update_tableTo_fail]
      · exact proper_zeroed hf.proper (.perpkt p) _
    · have hne : some (FailurePoint.perpkt p) ≠ some (.perpkt i) := by simpa using hip
      simp only [startPerpkts, traceStartThread, ThreadId.type, decide_eq_true_eq, if_neg hne]
      obtain ⟨hf', htable'⟩ := failed_started hf htable (by omega)
      exact ih (i + 1) hf' htable' (by omega) (by omega)

theorem counted_eq {n k : Nat} (hf : Failed n k 0 tr) :
    update tr.perpktThreadStates .running (tr.perpktThreadCount : Int) = tally n 0 := by
  rw [hf.counts, hf.count]
  funext s
  cases s <;> simp [tally]

theorem initStructures_error {n : Nat} (hf : Failed n n 0 tr)
    (hp : point = some .firstPackets ∨ point = some .ocache) :
    ∃ tr', initStructures point tr = .error (.cleanupThreads, tr') ∧ Failed n n n tr' := by
  have hcounts := counted_eq hf
  rcases hp with rfl | rfl
  · simp only [initStructures, if_true]
    exact ⟨_, rfl, hf.count, hf.le, hcounts, hf.table, hf.proper⟩
  · simp only [initStructures, if_true, reduceCtorEq, Option.some.injEq, if_false]
    exact ⟨_, rfl, hf.count, hf.le, hcounts, hf.table, hf.proper⟩

end

theorem prepare_counts (c : Setup) : (prepare c traceCreate).perpktThreadStates = tally 0 0 := by
  funext s
  cases s <;> rfl

theorem prepare_proper (c : Setup) : (prepare c traceCreate).Proper := by
  intro id
  cases id with
  | hasher =>
    simp only [Trace.thread, prepare, verifyConfiguration]
    split
    · exact .inr rfl
    · exact .inl rfl
  | _ => exact .inl rfl

theorem launch_hasher (c : Setup) (h : Reached c .hasher) :
    ∃ tr, launch c (some .hasher) (prepare c traceCreate) = .error (.cleanupStarted, tr) ∧
      tr.state = .new ∧ tr.perpktThreadStates = tally 0 0 ∧
      ∀ id, (tr.thread id).type = .empty := by
  have hneeded : (prepare c traceCreate).hasDedicatedHasher = true := by
    have h : c.hasher = true ∧ 1 < c.threadCount := h
    simp only [Trace.hasDedicatedHasher, prepare, verifyConfiguration, if_pos h]
    rfl
  simp only [launch, startHasher, hneeded, traceStartThread, decide_true, if_true]
  refine ⟨_, rfl, rfl, prepare_counts c, fun id => ?_⟩
  cases id <;> rfl

section

variable (c : Setup) (point : FailurePoint)

theorem launch_to_table (hp : point ≠ .hasher) :
    ∃ tr, startHasher (some point) (prepare c traceCreate) = .ok tr ∧
      Failed c.threadCount 0 0 tr := by
  obtain ⟨tr, h, k⟩ := startHasher_ok (some point) (prepare c traceCreate) (by simpa)
  exact ⟨tr, h, k.count, Nat.zero_le _, k.counts.trans (prepare_counts c), .inl ⟨rfl, k.table⟩,
    k.proper (prepare_proper c)⟩

theorem launch_table :
    ∃ tr, launch c (some .table) (prepare c traceCreate) = .error (.cleanupThreads, tr) ∧
      Failed c.threadCount 0 0 tr := by
  obtain ⟨tr, h, hf⟩ := launch_to_table c .table (by decide)
  refine ⟨tr.setErr .errno "trace_pstart failed to allocate memory.", ?_,
    hf.count, hf.le, hf.counts, hf.table, hf.proper⟩
  simp only [launch, h, allocTable, if_true, bind, Except.bind]

theorem launch_perpkt {i : Nat} (hi : i < c.threadCount) :
    ∃ tr, launch c (some (.perpkt i)) (prepare c traceCreate) = .error (.cleanupThreads, tr) ∧
      Failed c.threadCount i 0 tr := by
  obtain ⟨tr₁, h₁, hf₁⟩ := launch_to_table c (.perpkt i) (by simp)
  obtain ⟨tr₂, h₂, hf₂, ht₂⟩ := allocTable_ok (some (.perpkt i)) hf₁ (by simp)
  obtain ⟨tr₃, h₃, hf₃⟩ := startPerpkts_error tr₂.perpktThreadCount 0 i hf₂ ht₂
    (by rw [hf₂.count, Nat.zero_add]) (Nat.zero_le _) hi
  exact ⟨tr₃, by simp only [launch, h₁, h₂, h₃, bind, Except.bind], hf₃⟩

theorem launch_to_reporter (hhasher : point ≠ .hasher) (htable : point ≠ .table)
    (hperpkt : ∀ i, point ≠ .perpkt i) :
    ∃ tr, launch c (some point) (prepare c traceCreate) = (do
        let tr ← startReporter c (some point) tr
        let tr ← startKeepalive c (some point) tr
        initStructures (some point) tr) ∧ Failed c.threadCount c.threadCount 0 tr := by
  obtain ⟨tr₁, h₁, hf₁⟩ := launch_to_table c point hhasher
  obtain ⟨tr₂, h₂, hf₂, ht₂⟩ := allocTable_ok (some point) hf₁ (by simpa)
  obtain ⟨tr₃, h₃, hf₃⟩ := startPerpkts_ok (some point) tr₂.perpktThreadCount 0 hf₂ ht₂
    (by rw [hf₂.count, Nat.zero_add]) (by simpa using hperpkt)
  exact ⟨tr₃, by simp only [launch, h₁, h₂, h₃, bind, Except.bind], hf₃⟩

theorem launch_reporter (hc : c.reporterCbs = true) :
    ∃ tr, launch c (some .reporter) (prepare c traceCreate) = .error (.cleanupThreads, tr) ∧
      Failed c.threadCount c.threadCount 0 tr := by
  obtain ⟨tr, h, hf⟩ := launch_to_reporter c .reporter (by decide) (by decide) (by simp)
  obtain ⟨tr', h', k⟩ := startReporter_error tr hc
  exact ⟨tr', by simp only [h, h', bind, Except.bind], k.failed hf⟩

theorem launch_keepalive (hc : 0 < c.tickInterval) :
    ∃ tr, launch c (some .keepalive) (prepare c traceCreate) = .error (.cleanupThreads, tr) ∧
      Failed c.threadCount c.threadCount 0 tr := by
  obtain ⟨tr, h, hf⟩ := launch_to_reporter c .keepalive (by decide) (by decide) (by simp)
  obtain ⟨tr₁, h₁, k₁⟩ := startReporter_ok c (some .keepalive) tr (by simp)
  obtain ⟨tr₂, h₂, k₂⟩ := startKeepalive_error tr₁ hc
  exact ⟨tr₂, by simp only [h, h₁, h₂, bind, Except.bind], (k₁.trans k₂).failed hf⟩

theorem launch_late (hp : point = .firstPackets ∨ point = .ocache) :
    ∃ tr, launch c (some point) (prepare c traceCreate) = .error (.cleanupThreads, tr) ∧
      Failed c.threadCount c.threadCount c.threadCount tr := by
  have hne : ∀ q, q ≠ .firstPackets → q ≠ .ocache → point ≠ q := by
    rintro q h₁ h₂ rfl
    exact hp.elim h₁ h₂
  obtain ⟨tr, h, hf⟩ := launch_to_reporter c point (hne _ (by decide) (by decide))
    (hne _ (by decide) (by decide)) fun i => hne _ (by simp) (by simp)
  obtain ⟨tr₁, h₁, k₁⟩ := startReporter_ok c (some point) tr
    (by simpa using hne .reporter (by decide) (by decide))
  obtain ⟨tr₂, h₂, k₂⟩ := startKeepalive_ok c (some point) tr₁
    (by simpa using hne .keepalive (by decide) (by decide))
  obtain ⟨tr₃, h₃, hf₃⟩ := initStructures_error (some point)
    ((k₁.trans k₂).failed hf) (by simpa using hp)
  exact ⟨tr₃, by simp only [h, h₁, h₂, h₃, bind, Except.bind], hf₃⟩

end

theorem launch_ok (c : Setup) :
    ∃ tr, launch c none (prepare c traceCreate) = .ok tr ∧
      Failed c.threadCount c.threadCount c.threadCount tr := by
  obtain ⟨tr₁, h₁, k₁⟩ := startHasher_ok none (prepare c traceCreate) nofun
  have hf₁ : Failed c.threadCount 0 0 tr₁ :=
    ⟨k₁.count, Nat.zero_le _, k₁.counts.trans (prepare_counts c), .inl ⟨rfl, k₁.table⟩,
      k₁.proper (prepare_proper c)⟩
  obtain ⟨tr₂, h₂, hf₂, ht₂⟩ := allocTable_ok none hf₁ nofun
  obtain ⟨tr₃, h₃, hf₃⟩ := startPerpkts_ok none tr₂.perpktThreadCount 0 hf₂ ht₂
    (by rw [hf₂.count, Nat.zero_add]) nofun
  obtain ⟨tr₄, h₄, k₄⟩ := startReporter_ok c none tr₃ nofun
  obtain ⟨tr₅, h₅, k₅⟩ := startKeepalive_ok c none tr₄ nofun
  have hf₅ := (k₄.trans k₅).failed hf₃
  simp only [launch, h₁, h₂, h₃, h₄, h₅, bind, Except.bind, initStructures, reduceCtorEq, if_false]
  exact ⟨_, rfl, hf₅.count, hf₅.le, counted_eq hf₅, hf₅.table, hf₅.proper⟩

theorem launch_failed (c : Setup) (point : FailurePoint) (h : Reached c point)
    (hne : point ≠ .hasher) :
    ∃ tr k running, launch c (some point) (prepare c traceCreate) = .error (.cleanupThreads, tr) ∧
      Failed c.threadCount k running tr ∧ (running = k ↔ CountersAgree point) := by
  have hpos := c.threadCount_pos
  cases point with
  | hasher => exact absurd rfl hne
  | table =>
    obtain ⟨tr, hl, hf⟩ := launch_table c
    exact ⟨tr, _, _, hl, hf, by simp [CountersAgree]⟩
  | perpkt i =>
    obtain ⟨tr, hl, hf⟩ := launch_perpkt c h
    exact ⟨tr, _, _, hl, hf, by simp only [CountersAgree]; omega⟩
  | reporter =>
    obtain ⟨tr, hl, hf⟩ := launch_reporter c h
    exact ⟨tr, _, _, hl, hf, by simp only [CountersAgree, iff_false]; omega⟩
  | keepalive =>
    obtain ⟨tr, hl, hf⟩ := launch_keepalive c h
    exact ⟨tr, _, _, hl, hf, by simp only [CountersAgree, iff_false]; omega⟩
  | firstPackets =>
    obtain ⟨tr, hl, hf⟩ := launch_late c _ (.inl rfl)
    exact ⟨tr, _, _, hl, hf, by simp [CountersAgree]⟩
  | ocache =>
    obtain ⟨tr, hl, hf⟩ := launch_late c _ (.inr rfl)
    exact ⟨tr, _, _, hl, hf, by simp [CountersAgree]⟩

end Libtrace.StartLaunch
