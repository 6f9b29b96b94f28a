import Libtrace.RtClient

/-! What one call of `rt_read` keeps: the bytes that are in the buffer or still to come,
and room in the buffer. -/

namespace Libtrace.RtReading
open Window RtClient

def isPlain : Outcome → Bool
  | .ready _ | .eintr | .eagain => true
  | .closed | .failed => false

/-- What the client has not read: first what is in its buffer, then what is still to be received. -/
structure Holds (s : State) (bytes : List UInt8) : Prop where
  ordered : s.bufRead ≤ s.bufWrite
  fits : s.bufWrite ≤ rtBufSize
  pending : window s.cells s.bufRead s.bufWrite ++ s.stream = bytes
  null : s.pktBuffer = none → s.bufWrite = 0
  room : ∀ w ∈ s.recvs, w < rtBufSize
  plain : ∀ o ∈ s.plan, isPlain o = true

def Incomplete (s : State) : Prop := s.unread < headerSize + 65535

section

variable {s : State} {bytes : List UInt8}

theorem holds_length (h : Holds s bytes) : s.unread + s.stream.length = bytes.length := by
  rw [← h.pending, List.length_append, length_window, State.unread]

theorem getElem?_pending (h : Holds s bytes) {i : Nat} (hi : i < s.unread) :
    bytes[i]? = some (s.cells (s.bufRead + i)) := by
  unfold State.unread at hi
  rw [← h.pending, List.getElem?_append_left (by simpa using hi), getElem?_window _ (by omega)]

variable (fresh : Nat → UInt8)

theorem allocate_holds (h : Holds s bytes) :
    Holds (allocate fresh s) bytes ∧ (allocate fresh s).unread = s.unread ∧
      (allocate fresh s).stream = s.stream ∧ (allocate fresh s).plan = s.plan ∧
      (allocate fresh s).pktBuffer ≠ none := by
  unfold allocate
  by_cases hnull : s.pktBuffer.isNone = true
  · rw [if_pos hnull]
    have hw := h.null (Option.isNone_iff_eq_none.mp hnull)
    have hr : s.bufRead = 0 := by have := h.ordered; omega
    have hpending := h.pending
    rw [hw, hr, window_self] at hpending
    refine ⟨⟨Nat.le_refl 0, Nat.zero_le _, ?_, by simp, h.room, h.plain⟩, ?_, rfl, rfl, by simp⟩
    · simpa using hpending
    · simp [State.unread, hw]
  · rw [if_neg hnull]
    exact ⟨h, rfl, rfl, rfl, by simpa using hnull⟩

theorem relocate_holds (h : Holds s bytes) (hpart : Incomplete s) (hbuf : s.pktBuffer ≠ none) :
    Holds (relocate fresh s) bytes ∧ (relocate fresh s).bufWrite < rtBufSize ∧
      (relocate fresh s).unread = s.unread ∧ (relocate fresh s).stream = s.stream ∧
      (relocate fresh s).plan = s.plan ∧ (relocate fresh s).pktBuffer ≠ none := by
  have hlt : s.unread < rtBufSize := Nat.lt_of_lt_of_le hpart (by decide)
  unfold relocate
  split_ifs with hfull
  · refine ⟨⟨Nat.zero_le _, Nat.le_of_lt hlt, ?_, by simp, h.room, h.plain⟩, hlt, rfl, rfl, rfl,
      by simp⟩
    have hmoved := window_store_data fresh 0 (window s.cells s.bufRead s.bufWrite)
    rw [length_window, Nat.zero_add] at hmoved
    exact (congrArg (· ++ s.stream) hmoved).trans h.pending
  · refine ⟨h, ?_, rfl, rfl, rfl, hbuf⟩
    exact Nat.lt_of_le_of_lt (Nat.le_of_not_lt hfull) (by decide)

inductive Reads (s s' : State) : Except RtError Nat → Prop where
  | more (n : Nat) (hplan : s'.plan.length < s.plan.length) (hunread : s.unread ≤ s'.unread) :
      Reads s s' (.ok n)
  | again (hplan : s'.plan.length < s.plan.length) (hunread : s.unread ≤ s'.unread) :
      Reads s s' (.error .again)
  | waiting (hplan : s'.plan = s.plan) (hstream : s'.stream = s.stream)
      (hunread : s'.unread = s.unread) (hempty : s.plan = [] ∨ s.stream = []) :
      Reads s s' (.error .waiting)

theorem prepare_holds (h : Holds s bytes) (hpart : Incomplete s) :
    Holds (prepare fresh s) bytes ∧ (prepare fresh s).bufWrite < rtBufSize ∧
      (prepare fresh s).unread = s.unread ∧ (prepare fresh s).stream = s.stream ∧
      (prepare fresh s).plan = s.plan ∧ (prepare fresh s).pktBuffer ≠ none := by
  obtain ⟨ha, hunread, hstream, hplan, hbuf⟩ := allocate_holds fresh h
  obtain ⟨hr, hroom, hunread', hstream', hplan', hbuf'⟩ :=
    relocate_holds fresh ha (by rwa [Incomplete, hunread]) hbuf
  refine ⟨⟨hr.ordered, hr.fits, hr.pending, hr.null, ?_, hr.plain⟩, hroom,
    hunread'.trans hunread, hstream'.trans hstream, hplan'.trans hplan, hbuf'⟩
  intro w hw
  obtain rfl | hw := List.mem_cons.mp hw
  · exact hroom
  · exact hr.room w hw

theorem ready_holds (h : Holds s bytes) (hroom : s.bufWrite < rtBufSize) {more : Nat}
    {rest : List Outcome} (hplan : s.plan = .ready more :: rest) (hstream : s.stream ≠ []) :
    ∃ n s', accept (recv (rtBufSize - s.bufWrite) s) = (.ok n, s') ∧ Holds s' bytes ∧
      s'.plan = rest ∧ s.unread ≤ s'.unread := by
  have hordered := h.ordered
  cases hdata : s.stream.take (min (more + 1) (rtBufSize - s.bufWrite)) with
  | nil =>
    have hlen := congrArg List.length hdata
    have hpos := List.length_pos_iff.mpr hstream
    rw [List.length_take, List.length_nil] at hlen
    omega
  | cons b data =>
    have hlen : (b :: data).length ≤ rtBufSize - s.bufWrite := by
      rw [← hdata, List.length_take]
      omega
    have hpending := h.pending
    rw [← List.take_append_drop (min (more + 1) (rtBufSize - s.bufWrite)) s.stream, hdata,
      ← List.append_assoc, ← window_store s.cells hordered] at hpending
    simp only [recv, hplan, if_neg hstream, hdata, accept]
    refine ⟨_, _, rfl, ⟨?_, ?_, hpending, by simp, h.room, fun o ho => ?_⟩, rfl, ?_⟩
    · exact Nat.le_trans hordered (Nat.le_add_right _ _)
    · simp only
      omega
    · exact h.plain o (by rw [hplan]; exact List.mem_cons_of_mem _ ho)
    · simp only [State.unread]
      omega

theorem plan_tail_holds (h : Holds s bytes) {o : Outcome} {rest : List Outcome}
    (hplan : s.plan = o :: rest) : Holds { s with plan := rest } bytes :=
  ⟨h.ordered, h.fits, h.pending, h.null, h.room,
    fun o' ho' => h.plain o' (by rw [hplan]; exact List.mem_cons_of_mem o ho')⟩

theorem rtRead_holds (h : Holds s bytes) (hpart : Incomplete s) :
    ∃ r s', rtRead fresh s = (r, s') ∧ Holds s' bytes ∧ Reads s s' r := by
  obtain ⟨hp, hroom, hunread, hstream, hplan, -⟩ := prepare_holds fresh h hpart
  rw [rtRead]
  cases hcase : s.plan with
  | nil =>
    simp only [recv, hplan.trans hcase, accept]
    exact ⟨_, _, rfl, hp, .waiting hplan hstream hunread (.inl hcase)⟩
  | cons o rest =>
    have hcons := hplan.trans hcase
    have hless : rest.length < s.plan.length := by simp [hcase]
    cases o with
    | ready more =>
      by_cases hempty : s.stream = []
      · simp only [recv, hcons, hstream, if_pos hempty, accept]
        exact ⟨_, _, rfl, hp, .waiting hplan hstream hunread (.inr hempty)⟩
      · obtain ⟨n, s', hread, hs', hrest, hle⟩ :=
          ready_holds hp hroom hcons (by rwa [hstream])
        exact ⟨_, s', hread, hs', .more n (by rw [hrest]; exact hless) (by omega)⟩
    | eintr =>
      simp only [recv, hcons, accept]
      exact ⟨_, _, rfl, plan_tail_holds hp hcons, .more 0 hless (Nat.le_of_eq hunread.symm)⟩
    | eagain =>
      simp only [recv, hcons, accept]
      exact ⟨_, _, rfl, plan_tail_holds hp hcons, .again hless (Nat.le_of_eq hunread.symm)⟩
    | closed =>
      have := h.plain .closed (by simp [hcase])
      cases this
    | failed =>
      have := h.plain .failed (by simp [hcase])
      cases this

end

end Libtrace.RtReading
