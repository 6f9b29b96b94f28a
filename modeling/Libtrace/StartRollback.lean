import Libtrace.StartLaunch

/-! The roll-back of `trace_pstart` while the threads run into `STATE_ERROR`. The counter goes from
`running` down once for each of the `k` per-packet threads. When the last of all `n` threads has
gone the trace is in `STATE_FINISHED`, and a hasher thread that looks later goes on. -/

namespace Libtrace.StartRollback
open ParallelTrace ParallelStart StartLaunch Function

def exits (pcs : ThreadId → ThreadPc) : Nat → Nat
  | 0 => 0
  | k + 1 => exits pcs k + if pcs (.perpkt k) = .exited then 1 else 0

section

variable (pcs : ThreadId → ThreadPc)

theorem exits_le (k : Nat) : exits pcs k ≤ k := by
  induction k with
  | zero => exact Nat.le_refl 0
  | succ k ih =>
    simp only [exits]
    split <;> omega

variable {k : Nat}

theorem exits_eq_of_all (h : ∀ i < k, pcs (.perpkt i) = .exited) : exits pcs k = k := by
  induction k with
  | zero => rfl
  | succ k ih =>
    simp only [exits, h k (Nat.lt_succ_self k), if_true]
    rw [ih fun i hi => h i (by omega)]

theorem exits_congr {pcs' : ThreadId → ThreadPc}
    (h : ∀ i < k, (pcs' (.perpkt i) = .exited ↔ pcs (.perpkt i) = .exited)) :
    exits pcs' k = exits pcs k := by
  induction k with
  | zero => rfl
  | succ k ih =>
    simp only [exits, ih fun i hi => h i (by omega), h k (Nat.lt_succ_self k)]

theorem exits_mono (pcs' : ThreadId → ThreadPc) (k : Nat)
    (h : ∀ i, pcs (.perpkt i) = .exited → pcs' (.perpkt i) = .exited) :
    exits pcs k ≤ exits pcs' k := by
  induction k with
  | zero => exact Nat.le_refl 0
  | succ k ih =>
    simp only [exits]
    by_cases hk : pcs (.perpkt k) = .exited
    · rw [if_pos hk, if_pos (h k hk)]
      omega
    · rw [if_neg hk]
      omega

theorem exits_exit {i : Nat} (hi : i < k) (hne : pcs (.perpkt i) ≠ .exited) :
    exits (update pcs (.perpkt i) .exited) k = exits pcs k + 1 := by
  induction k with
  | zero => omega
  | succ k ih =>
    by_cases hik : i = k
    · subst hik
      simp only [exits, update_self, if_true, if_neg hne]
      rw [exits_congr pcs (k := i)]
      intro j hj
      rw [update_of_ne (by simp; omega)]
    · have hk : (ThreadId.perpkt k) ≠ .perpkt i := by simpa using Ne.symm hik
      simp only [exits, update_of_ne hk, ih (by omega)]
      omega

end

def Gone (m : Machine) (id : ThreadId) : Prop := m.pcs id = .absent ∨ m.pcs id = .exited

def Joinable (m : Machine) (id : ThreadId) : Prop :=
  (m.trace.thread id).type = id.type ↔ m.pcs id ≠ .absent

def TableFrom (k i : Nat) (m : Machine) : Prop :=
  (k = 0 ∧ m.trace.perpktThreads.isSome = false) ∨
    (m.trace.perpktThreads.isSome = true ∧
      ∀ j, i ≤ j → ((m.trace.thread (.perpkt j)).type = .perpkt ↔ j < k))

def MainOk (k : Nat) (m : Machine) : Prop :=
  match m.main with
  | .joinHasher => Joinable m .hasher ∧ TableFrom k 0 m ∧ Joinable m .reporter ∧
      Joinable m .keepalive
  | .joinPerpkt i => Gone m .hasher ∧ (i ≤ k ∧ ∀ j < i, m.pcs (.perpkt j) = .exited) ∧
      TableFrom k i m ∧ Joinable m .reporter ∧ Joinable m .keepalive
  | .joinReporter => Gone m .hasher ∧ (∀ j < k, m.pcs (.perpkt j) = .exited) ∧
      Joinable m .reporter ∧ Joinable m .keepalive
  | .joinKeepalive => Gone m .hasher ∧ (∀ j < k, m.pcs (.perpkt j) = .exited) ∧
      Gone m .reporter ∧ Joinable m .keepalive
  | .relock | .finish => Gone m .hasher ∧ (∀ j < k, m.pcs (.perpkt j) = .exited) ∧
      Gone m .reporter ∧ Gone m .keepalive
  | .returned _ => False

structure Inv (n k : Nat) (running : Int) (m : Machine) : Prop where
  pos : 0 < n
  le : k ≤ n
  fault : m.fault = none
  count : m.trace.perpktThreadCount = n
  counts : m.trace.perpktThreadStates = tally running (exits m.pcs k)
  state : m.trace.state = if exits m.pcs k = n then .finished else .error
  locked : m.locked = true → m.main = .finish
  perpkt : ∀ i, (m.pcs (.perpkt i) = .gate ∧ i < k ∧ m.trace.perpktThreads.isSome = true ∧
      m.trace.thread (.perpkt i) = ⟨.perpkt, .running⟩) ∨ Gone m (.perpkt i)
  present : ∀ i < k, m.pcs (.perpkt i) ≠ .absent
  hasher : (m.pcs .hasher = .gate ∧ m.trace.hasherThread.type = .hasher) ∨ Gone m .hasher
  proper : m.trace.Proper
  leaving : ∀ id, m.pcs id = .leaving → exits m.pcs k = n
  main : MainOk k m

theorem MainOk.mono {k : Nat} {m m' : Machine} (h : MainOk k m) (hmain : m'.main = m.main)
    (habsent : ∀ id, m'.pcs id = .absent ↔ m.pcs id = .absent)
    (hexited : ∀ id, m.pcs id = .exited → m'.pcs id = .exited)
    (htype : ∀ id, (m'.trace.thread id).type = (m.trace.thread id).type)
    (hsome : m'.trace.perpktThreads.isSome = m.trace.perpktThreads.isSome) : MainOk k m' := by
  have hgone {id : ThreadId} : Gone m id → Gone m' id :=
    Or.imp (habsent id).mpr (hexited id)
  have hjoin {id : ThreadId} : Joinable m id → Joinable m' id := by
    simp only [Joinable, htype, ne_eq, habsent]
    exact fun h => h
  have htable {i : Nat} : TableFrom k i m → TableFrom k i m' := by
    unfold TableFrom
    simp only [hsome, htype]
    exact fun h => h
  have hall {i : Nat} : (∀ j < i, m.pcs (.perpkt j) = .exited) →
      ∀ j < i, m'.pcs (.perpkt j) = .exited := fun h j hj => hexited _ (h j hj)
  unfold MainOk at h ⊢
  rw [hmain]
  cases hpc : m.main with
  | joinHasher =>
    rw [hpc] at h
    exact ⟨hjoin h.1, htable h.2.1, hjoin h.2.2.1, hjoin h.2.2.2⟩
  | joinPerpkt i =>
    rw [hpc] at h
    obtain ⟨h₁, ⟨h₂, h₃⟩, h₄, h₅, h₆⟩ := h
    exact ⟨hgone h₁, ⟨h₂, hall h₃⟩, htable h₄, hjoin h₅, hjoin h₆⟩
  | joinReporter =>
    rw [hpc] at h
    exact ⟨hgone h.1, hall h.2.1, hjoin h.2.2.1, hjoin h.2.2.2⟩
  | joinKeepalive =>
    rw [hpc] at h
    exact ⟨hgone h.1, hall h.2.1, hgone h.2.2.1, hjoin h.2.2.2⟩
  | relock | finish =>
    rw [hpc] at h
    exact ⟨hgone h.1, hall h.2.1, hgone h.2.2.1, hgone h.2.2.2⟩
  | returned ret =>
    rw [hpc] at h
    exact h

section

variable {n k : Nat} {running : Int} {m : Machine}

theorem Inv.gone_of_finish (h : Inv n k running m) (hm : m.main = .finish ∨ m.main = .relock)
    (id : ThreadId) : Gone m id := by
  have hmain := h.main
  unfold MainOk at hmain
  have hall : Gone m .hasher ∧ (∀ j < k, m.pcs (.perpkt j) = .exited) ∧ Gone m .reporter ∧
      Gone m .keepalive := by
    rcases hm with hm | hm <;> rw [hm] at hmain <;> exact hmain
  cases id with
  | hasher => exact hall.1
  | reporter => exact hall.2.2.1
  | keepalive => exact hall.2.2.2
  | perpkt i =>
    rcases h.perpkt i with ⟨-, hi, -, -⟩ | hg
    · exact .inr (hall.2.1 i hi)
    · exact hg

theorem Inv.unlocked_of_join (h : Inv n k running m) (hm : m.main ≠ .finish) :
    m.locked = false := by
  cases hl : m.locked with
  | false => rfl
  | true => exact absurd (h.locked hl) hm

variable {id : ThreadId}

theorem Inv.unlocked (h : Inv n k running m) (hid : ¬ Gone m id) : m.locked = false :=
  h.unlocked_of_join fun hm => hid (h.gone_of_finish (.inl hm) id)

theorem Inv.exit (h : Inv n k running m) (hid : ¬ Gone m id)
    (hcounts : (m.trace.threadChangeState id .finished).perpktThreadStates =
      tally running (exits (update m.pcs id .exited) k))
    (hstate : (m.trace.threadChangeState id .finished).state =
      if exits (update m.pcs id .exited) k = n then .finished else .error) :
    Inv n k running
      { m.setPc id .exited with trace := m.trace.threadChangeState id .finished } := by
  have hother {j : ThreadId} (hj : j ≠ id) : update m.pcs id .exited j = m.pcs j :=
    update_of_ne hj _ _
  have hgone {j : ThreadId} (hg : Gone m j) : Gone { m.setPc id .exited with
      trace := m.trace.threadChangeState id .finished } j := by
    have hj : j ≠ id := fun he => hid (he ▸ hg)
    unfold Gone
    rw [show (m.setPc id .exited).pcs j = m.pcs j from hother hj]
    exact hg
  have hself : Gone { m.setPc id .exited with
      trace := m.trace.threadChangeState id .finished } id :=
    .inr (update_self _ _ _)
  refine ⟨h.pos, h.le, h.fault, ?_, hcounts, hstate, h.locked, ?_, fun i hi => ?_, ?_,
    h.proper.threadChangeState _ _, ?_, ?_⟩
  · exact (Trace.threadChangeState_count _ _ _).trans h.count
  · intro i
    by_cases hi : ThreadId.perpkt i = id
    · exact .inr (hi ▸ hself)
    · rcases h.perpkt i with ⟨hg, hik, hsome, ht⟩ | hg
      · refine .inl ⟨(hother hi).trans hg, hik, ?_, ?_⟩
        · exact (Trace.threadChangeState_isSome _ _ _).trans hsome
        · exact (Trace.threadChangeState_thread _ _ _ hi).trans ht
      · exact .inr (hgone hg)
  · by_cases hp : ThreadId.perpkt i = id
    · rw [show (m.setPc id .exited).pcs (.perpkt i) = .exited from hp ▸ update_self _ _ _]
      decide
    · rw [show (m.setPc id .exited).pcs (.perpkt i) = _ from hother hp]
      exact h.present i hi
  · by_cases hi : ThreadId.hasher = id
    · exact .inr (hi ▸ hself)
    · rcases h.hasher with ⟨hg, ht⟩ | hg
      · exact .inl ⟨(hother hi).trans hg, (Trace.threadChangeState_type _ _ _ .hasher).trans ht⟩
      · exact .inr (hgone hg)
  · intro j hj
    by_cases hji : j = id
    · subst hji
      rw [show (m.setPc j .exited).pcs j = .exited from update_self _ _ _] at hj
      exact absurd hj (by decide)
    · have hleft := h.leaving j ((hother hji).symm.trans hj)
      have hle := exits_le (update m.pcs id .exited) k
      have hkn := h.le
      have hmono := exits_mono m.pcs (update m.pcs id .exited) k fun i hi => by
        by_cases hp : ThreadId.perpkt i = id
        · rw [hp, update_self]
        · rw [hother hp, hi]
      show exits (update m.pcs id .exited) k = n
      omega
  · refine h.main.mono rfl (fun j => ?_) (fun j hj => ?_)
      (fun j => Trace.threadChangeState_type _ _ _ j) (Trace.threadChangeState_isSome _ _ _)
    · by_cases hji : j = id
      · subst hji
        rw [show (m.setPc j .exited).pcs j = .exited from update_self _ _ _]
        exact iff_of_false (by decide) fun ha => hid (.inl ha)
      · rw [show (m.setPc id .exited).pcs j = m.pcs j from hother hji]
    · by_cases hji : j = id
      · exact hji ▸ update_self _ _ _
      · exact (hother hji).trans hj

theorem tally_exit (running : Int) (e : Nat) :
    Trace.addTo (Trace.addTo (tally running e) .running (-1)) .finished 1 =
      tally running (e + 1) := by
  funext s
  cases s <;> simp [Trace.addTo, tally]
  omega

theorem tally_finished_eq (running : Int) (e n : Nat) :
    tally running e .finished = (n : Int) ↔ e = n := Int.natCast_inj

theorem Inv.exit_perpkt (h : Inv n k running m) {i : Nat} (hg : m.pcs (.perpkt i) = .gate) :
    exits m.pcs k < k ∧ m.trace.state = .error ∧
      exits (update m.pcs (.perpkt i) .exited) k = exits m.pcs k + 1 ∧
      Inv n k running { m.setPc (.perpkt i) .exited with
        trace := m.trace.threadChangeState (.perpkt i) .finished } := by
  have hne : m.pcs (.perpkt i) ≠ .exited := by rw [hg]; decide
  have hid : ¬ Gone m (.perpkt i) := by simp [Gone, hg]
  obtain ⟨-, hik, -, ht⟩ := (h.perpkt i).resolve_right hid
  have hexit := exits_exit m.pcs hik hne
  have hlt : exits m.pcs k < k := by
    have := exits_le (update m.pcs (.perpkt i) .exited) k
    omega
  have hle := h.le
  have hstate : m.trace.state = .error := by rw [h.state, if_neg (by omega)]
  have htype : (m.trace.thread (.perpkt i)).type = .perpkt := by rw [ht]
  obtain ⟨hcounts, hst⟩ := m.trace.threadChangeState_perpkt (.perpkt i) .finished htype
  rw [h.counts, ht, tally_exit] at hcounts hst
  refine ⟨hlt, hstate, hexit, h.exit hid (by rw [hexit, hcounts]) ?_⟩
  rw [hst, hexit, h.count, hstate]
  simp only [tally_finished_eq]

theorem Inv.exit_other (h : Inv n k running m) (hid : ¬ Gone m id) (hp : ∀ i, id ≠ .perpkt i) :
    Inv n k running
      { m.setPc id .exited with trace := m.trace.threadChangeState id .finished } := by
  have htype : (m.trace.thread id).type ≠ .perpkt := by
    rcases h.proper id with ht | ht <;> rw [ht]
    · decide
    · cases id with
      | perpkt i => exact absurd rfl (hp i)
      | _ => decide
  have hexits : exits (update m.pcs id .exited) k = exits m.pcs k :=
    exits_congr m.pcs fun i _ => by rw [update_of_ne (Ne.symm (hp i))]
  obtain ⟨hcounts, hst⟩ := m.trace.threadChangeState_other id .finished htype
  refine h.exit hid (by rw [hexits, hcounts, h.counts]) ?_
  rw [hst, hexits, h.counts, h.count, h.state]
  simp only [tally_finished_eq]
  split <;> rfl

theorem Inv.leave (h : Inv n k running m) (hg : m.pcs id = .gate) (hp : ∀ i, id ≠ .perpkt i)
    (hh : id ≠ .hasher) (hall : exits m.pcs k = n) : Inv n k running (m.setPc id .leaving) := by
  have hother {j : ThreadId} (hj : j ≠ id) : (m.setPc id .leaving).pcs j = m.pcs j :=
    update_of_ne hj _ _
  have hgone {j : ThreadId} (hj : j ≠ id) : Gone (m.setPc id .leaving) j ↔ Gone m j := by
    simp only [Gone, hother hj]
  have hexits : exits (m.setPc id .leaving).pcs k = exits m.pcs k :=
    exits_congr m.pcs fun i _ => by rw [hother (Ne.symm (hp i))]
  refine ⟨h.pos, h.le, h.fault, h.count, by rw [hexits]; exact h.counts,
    by rw [hexits]; exact h.state, h.locked, ?_, fun i hi => ?_, ?_, h.proper, ?_, ?_⟩
  · intro i
    rw [hother (Ne.symm (hp i)), hgone (Ne.symm (hp i))]
    exact h.perpkt i
  · rw [hother (Ne.symm (hp i))]
    exact h.present i hi
  · rw [hother (Ne.symm hh), hgone (Ne.symm hh)]
    exact h.hasher
  · exact fun _ _ => hexits.trans hall
  · refine h.main.mono rfl (fun j => ?_) (fun j hj => ?_) (fun _ => rfl) rfl
    · by_cases hji : j = id
      · subst hji
        rw [show (m.setPc j .leaving).pcs j = .leaving from update_self _ _ _, hg]
        decide
      · rw [hother hji]
    · by_cases hji : j = id
      · exact absurd (hji ▸ hj) (by rw [hg]; decide)
      · rw [hother hji, hj]

theorem sees_of_not_gate (hpc : m.pcs id ≠ .gate) : HasherSeesError m (.thread id) := by
  intro he hg
  obtain rfl : id = .hasher := by simpa using he
  exact absurd hg hpc

theorem sees_of_ne (hid : id ≠ .hasher) : HasherSeesError m (.thread id) :=
  fun he => absurd (by simpa using he) hid

section

variable (h : Inv n k running m)
include h

theorem Inv.exits_of_state (hs : m.trace.state ≠ .error) : exits m.pcs k = n := by
  by_contra hne
  exact hs (by rw [h.state, if_neg hne])

theorem Inv.gate_other (hg : m.pcs id = .gate) (hp : ∀ i, id ≠ .perpkt i) (hh : id ≠ .hasher) :
    threadStep m id =
        (if m.trace.state = .error then
          { m.setPc id .exited with trace := m.trace.threadChangeState id .finished }
        else m.setPc id .leaving) ∧ Inv n k running (threadStep m id) := by
  have hid : ¬ Gone m id := by simp [Gone, hg]
  have hstep : threadStep m id = if m.trace.state = .error then
      { m.setPc id .exited with trace := m.trace.threadChangeState id .finished }
      else m.setPc id .leaving := by
    cases id with
    | hasher => exact absurd rfl hh
    | perpkt i => exact absurd rfl (hp i)
    | reporter | keepalive => simp [threadStep, hg, h.unlocked hid, findsItself]
  refine ⟨hstep, ?_⟩
  rw [hstep]
  split
  · exact h.exit_other hid hp
  · next hs => exact h.leave hg hp hh (h.exits_of_state hs)

theorem Inv.gate_perpkt {i : Nat} (hg : m.pcs (.perpkt i) = .gate) :
    threadStep m (.perpkt i) = { m.setPc (.perpkt i) .exited with
      trace := m.trace.threadChangeState (.perpkt i) .finished } := by
  have hid : ¬ Gone m (.perpkt i) := by simp [Gone, hg]
  obtain ⟨-, hik, hsome, -⟩ := (h.perpkt i).resolve_right hid
  have hfinds : findsItself m.trace (.perpkt i) = true := by
    have hkn := h.le
    simp only [findsItself, hsome, h.count, Bool.true_and, decide_eq_true_eq]
    omega
  obtain ⟨-, hstate, -⟩ := h.exit_perpkt hg
  simp [threadStep, hg, h.unlocked hid, hfinds, hstate]

theorem Inv.gate_hasher (hg : m.pcs .hasher = .gate) :
    threadStep m .hasher = if m.trace.state = .error then
        { m.setPc .hasher .exited with trace := m.trace.threadChangeState .hasher .finished }
      else { m with fault := some .noCache } := by
  have hid : ¬ Gone m .hasher := by simp [Gone, hg]
  have ht := (h.hasher.resolve_right hid).2
  simp [threadStep, hg, h.unlocked hid, findsItself, ht]

theorem threadStep_outcome (id : ThreadId) :
    (HasherSeesError m (.thread id) ∧ Inv n k running (threadStep m id)) ∨
      (¬ HasherSeesError m (.thread id) ∧ (threadStep m id).fault ≠ none) := by
  cases hpc : m.pcs id with
  | absent | exited =>
    exact .inl ⟨sees_of_not_gate (by simp [hpc]), by simpa only [threadStep, hpc] using h⟩
  | leaving =>
    refine .inl ⟨sees_of_not_gate (by simp [hpc]), ?_⟩
    simp only [threadStep, hpc]
    split
    · refine h.exit_other (by simp [Gone, hpc]) fun i he => ?_
      subst he
      rcases h.perpkt i with ⟨hg, -⟩ | hg
      · exact absurd (hpc.symm.trans hg) (by decide)
      · simp [Gone, hpc] at hg
    · exact h
  | gate =>
    cases id with
    | hasher =>
      rw [h.gate_hasher hpc]
      by_cases hs : m.trace.state = .error
      · rw [if_pos hs]
        exact .inl ⟨fun _ _ => hs, h.exit_other (by simp [Gone, hpc]) nofun⟩
      · rw [if_neg hs]
        exact .inr ⟨fun hsees => hs (hsees rfl hpc), by simp⟩
    | perpkt i =>
      rw [h.gate_perpkt hpc]
      exact .inl ⟨sees_of_ne nofun, (h.exit_perpkt hpc).2.2.2⟩
    | reporter | keepalive => exact .inl ⟨sees_of_ne nofun, (h.gate_other hpc nofun nofun).2⟩

end

end

end Libtrace.StartRollback
