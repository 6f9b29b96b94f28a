import Libtrace.Census
import Libtrace.Exec
import Libtrace.Schedule

/-! `format_odp.c`: who frees the packets of the ODP pool. A program reads them into packet objects,
finishes these, reads into them again or destroys them. The objects are used with this trace
only. -/

namespace Libtrace.OdpPackets
open Census Exec Schedule Function

structure PacketObject where
  traced : Bool
  buffer : Option Nat
  /-- `TRACE_CTRL_EXTERNAL`. -/
  external : Bool
  deriving DecidableEq, Repr

def createPacket : PacketObject := ⟨false, none, false⟩

/-- Packets are numbered in the order in which `odp_schedule` returns them. -/
structure Trace where
  scheduled : Nat
  freed : List Nat
  /-- `trace_is_err`. -/
  err : Bool

inductive Stop where
  | nullFree
  | assertion
  | waiting
  deriving DecidableEq, Repr

/-- For a packet also whether `libtrace_halt` is set then, and what the filter says: 1 if there is
none, and -1 with an error of the trace if it cannot be compiled. -/
inductive Event where
  | invalid
  | packet (len : Nat) (halt : Bool) (filtret : Int)

abbrev Held := PacketObject × Trace

def lodpFinPacket (x : Held) : Except Stop Held :=
  if x.1.external then
    match x.1.buffer with
    | none => .error .nullFree
    | some p => .ok ({ x.1 with buffer := none }, { x.2 with freed := x.2.freed ++ [p] })
  else .ok x

def traceFinPacket (x : Held) : Except Stop Held := do
  let y ← if x.1.traced then lodpFinPacket x else .ok x
  return ({ y.1 with traced := false, buffer := if y.1.external then none else y.1.buffer }, y.2)

def lodpReadPacket (len : Nat) (halt : Bool) (x : Held) : Except Stop (Nat × Held) :=
  if x.1.buffer ≠ none ∧ x.1.external then .error .assertion
  else
    let numbytes := if halt then 0 else len
    let buffer := if numbytes = 0 then none else some x.2.scheduled
    .ok (numbytes, ⟨true, buffer, true⟩, { x.2 with scheduled := x.2.scheduled + 1 })

def readLoop : List Event → Held → Except Stop Held
  | [], _ => .error .waiting
  | .invalid :: events, x => readLoop events x
  | .packet len halt filtret :: events, x => do
    let y ← lodpReadPacket len halt x
    if y.1 = 0 then return y.2
    else if filtret = -1 then return (y.2.1, { y.2.2 with err := true })
    else if filtret = 0 then
      let z ← traceFinPacket y.2
      readLoop events z
    else return y.2

def traceReadPacket (events : List Event) (x : Held) : Except Stop Held := do
  if x.2.err then return x
  let y ← if x.1.traced then traceFinPacket x else .ok x
  readLoop events y

def traceGetErr (x : Held) : Except Stop Held := .ok (x.1, { x.2 with err := false })

/-- Only a parallel program lets the format finish the packet. A new object takes its place. -/
def traceDestroyPacket (parallel : Bool) (x : Held) : Except Stop Held := do
  let y ← if parallel ∧ x.1.traced then lodpFinPacket x else .ok x
  return (createPacket, y.2)

inductive Call where
  | read (events : List Event)
  | fin
  | destroy
  | getErr

def Call.run (parallel : Bool) : Call → Held → Except Stop Held
  | read events => traceReadPacket events
  | fin => traceFinPacket
  | destroy => traceDestroyPacket parallel
  | getErr => traceGetErr

structure State (κ : Type) where
  packets : κ → PacketObject
  trace : Trace
  stopped : Option Stop

def init {κ : Type} : State κ := ⟨fun _ => createPacket, ⟨0, [], false⟩, none⟩

variable {κ : Type} [DecidableEq κ]

def step (parallel : Bool) (s : State κ) (call : κ × Call) : State κ :=
  if s.stopped.isSome then s
  else
    match call.2.run parallel (s.packets call.1, s.trace) with
    | .error stop => { s with stopped := some stop }
    | .ok y => { s with packets := update s.packets call.1 y.1, trace := y.2 }

def places [Fintype κ] (s : State κ) (p : Nat) : Nat :=
  s.trace.freed.count p + count (fun o => decide (o.buffer = some p)) s.packets

/-- Every packet that was scheduled is in one packet object, or was freed once. -/
structure Accounted [Fintype κ] (s : State κ) : Prop where
  running : s.stopped = none
  onePlace : ∀ p, places s p = if p < s.trace.scheduled then 1 else 0

/-- The read ends with a packet in its object, also if the filter fails for it. -/
def leavesPacket : List Event → Bool
  | [] => false
  | .invalid :: events => leavesPacket events
  | .packet len halt filtret :: events =>
    !halt && len != 0 && (filtret != 0 || leavesPacket events)

def Harmless (parallel : Bool) (s : State κ) (call : κ × Call) : Prop :=
  match call.2 with
  | .read events => s.trace.err = true ∨ leavesPacket events = true
  | .fin | .getErr => True
  | .destroy => parallel = true ∨ (s.packets call.1).traced = false

def Tidy (o : PacketObject) : Prop :=
  if o.traced then o.external = true ∧ o.buffer ≠ none else o.buffer = none

def share (x : Held) (p : Nat) : Nat :=
  x.2.freed.count p + if x.1.buffer = some p then 1 else 0

structure Keeps (x y : Held) : Prop where
  tidy : Tidy y.1
  share : ∀ p, (share y p + if p < x.2.scheduled then 1 else 0) =
    share x p + if p < y.2.scheduled then 1 else 0

def Loses (x y : Held) : Prop :=
  ∃ p < y.2.scheduled, share y p < share x p + if x.2.scheduled ≤ p then 1 else 0

section

variable {x : Held}

theorem share_finished (o : PacketObject) (t : Trace) (p : Nat) :
    (t.freed ++ o.buffer.toList).count p = share (o, t) p := by
  rw [List.count_append, share]
  cases hb : o.buffer with
  | none => simp
  | some q => by_cases hq : q = p <;> simp [hq]

theorem finished_keeps (x : Held) (external : Bool) : Keeps x (⟨false, none, external⟩,
    { x.2 with freed := x.2.freed ++ x.1.buffer.toList }) := by
  refine ⟨rfl, fun p => ?_⟩
  have hsame := share_finished x.1 x.2 p
  simp only [share] at hsame ⊢
  simp [hsame]

theorem lodpFinPacket_tidy (h : Tidy x.1) (ht : x.1.traced = true) :
    lodpFinPacket x = .ok ({ x.1 with buffer := none },
      { x.2 with freed := x.2.freed ++ x.1.buffer.toList }) := by
  rw [Tidy, if_pos ht] at h
  obtain ⟨q, hq⟩ := Option.ne_none_iff_exists'.mp h.2
  rw [lodpFinPacket, if_pos h.1, hq]
  rfl

theorem traceFinPacket_tidy (h : Tidy x.1) : traceFinPacket x =
    .ok (⟨false, none, x.1.external⟩, { x.2 with freed := x.2.freed ++ x.1.buffer.toList }) := by
  rw [traceFinPacket]
  cases ht : x.1.traced with
  | true =>
    rw [if_pos rfl, lodpFinPacket_tidy h ht, ok_bind]
    simp [pure, Except.pure]
  | false =>
    rw [Tidy, ht] at h
    rw [if_neg Bool.false_ne_true, ok_bind]
    simp [pure, Except.pure, show x.1.buffer = none from h]

theorem lodpReadPacket_eq (len : Nat) (halt : Bool) (hb : x.1.buffer = none) :
    lodpReadPacket len halt x = .ok (if halt then 0 else len,
      ⟨true, if (if halt then 0 else len) = 0 then none else some x.2.scheduled, true⟩,
      { x.2 with scheduled := x.2.scheduled + 1 }) := by
  rw [lodpReadPacket, if_neg fun h => h.1 hb]

/-- The read schedules `m` packets that the filter rejects, and one more. -/
theorem readLoop_spec (events : List Event) (hb : x.1.buffer = none) :
    (leavesPacket events = false ∧ readLoop events x = .error .waiting) ∨
      ∃ m err, readLoop events x =
        .ok (⟨true, if leavesPacket events then some (x.2.scheduled + m) else none, true⟩,
          ⟨x.2.scheduled + m + 1, x.2.freed ++ List.range' x.2.scheduled m, err⟩) := by
  induction events generalizing x with
  | nil => exact .inl ⟨rfl, rfl⟩
  | cons e events ih =>
    cases e with
    | invalid => exact ih hb
    | packet len halt filtret =>
      rw [readLoop, lodpReadPacket_eq len halt hb, ok_bind, leavesPacket]
      by_cases hzero : (if halt then 0 else len) = 0
      · have hnone : (!halt && len != 0) = false := by
          cases halt <;> simp_all
        rw [hnone, Bool.false_and, if_pos hzero, if_pos hzero]
        exact .inr ⟨0, x.2.err, by simp [pure, Except.pure]⟩
      · have hsome : (!halt && len != 0) = true := by
          cases halt <;> simp_all
        rw [hsome, Bool.true_and, if_neg hzero, if_neg hzero]
        by_cases hf : filtret = 0
        · have htidy : Tidy ⟨true, some x.2.scheduled, true⟩ := ⟨rfl, Option.some_ne_none _⟩
          have hcompiled : ¬ filtret = -1 := by omega
          rw [if_neg hcompiled, if_pos hf, traceFinPacket_tidy htidy, ok_bind, hf,
            bne_self_eq_false, Bool.false_or]
          refine (ih (x := (⟨false, none, true⟩,
            ⟨x.2.scheduled + 1, x.2.freed ++ [x.2.scheduled], x.2.err⟩)) rfl).imp_right ?_
          rintro ⟨m, err, hm⟩
          have hsum : x.2.scheduled + 1 + m = x.2.scheduled + (m + 1) := by omega
          exact ⟨m + 1, err, hm.trans (by simp [List.range'_succ, hsum])⟩
        · rw [if_neg hf, bne_iff_ne.mpr hf]
          by_cases herr : filtret = -1
          · rw [if_pos herr]
            exact .inr ⟨0, true, by simp [pure, Except.pure]⟩
          · rw [if_neg herr]
            exact .inr ⟨0, x.2.err, by simp [pure, Except.pure]⟩

theorem count_scheduled (first m p : Nat) :
    (List.range' first m).count p = if first ≤ p ∧ p < first + m then 1 else 0 := by
  have hrange := (List.nodup_range' (s := first) (n := m) 1).count (a := p)
  simpa only [List.mem_range'_1] using hrange

theorem delivered_keeps (hb : x.1.buffer = none) (m : Nat) (err : Bool) :
    Keeps x (⟨true, some (x.2.scheduled + m), true⟩,
      ⟨x.2.scheduled + m + 1, x.2.freed ++ List.range' x.2.scheduled m, err⟩) := by
  refine ⟨⟨rfl, Option.some_ne_none _⟩, fun p => ?_⟩
  simp only [share, hb, List.count_append, count_scheduled, Option.some.injEq, reduceCtorEq,
    if_false]
  split_ifs <;> omega

theorem Keeps.trans {y z : Held} (h : Keeps x y) (h' : Keeps y z) : Keeps x z := by
  refine ⟨h'.tidy, fun p => ?_⟩
  have hxy := h.share p
  have hyz := h'.share p
  omega

theorem traceReadPacket_tidy (events : List Event) (h : Tidy x.1) (herr : x.2.err = false) :
    ∃ y, traceReadPacket events x = readLoop events y ∧ Keeps x y ∧ y.1.buffer = none ∧
      y.2.scheduled = x.2.scheduled := by
  rw [traceReadPacket, herr, if_neg Bool.false_ne_true]
  cases ht : x.1.traced with
  | true =>
    rw [if_pos rfl, traceFinPacket_tidy h, ok_bind]
    exact ⟨_, rfl, finished_keeps x _, rfl, rfl⟩
  | false =>
    have hb := h
    rw [Tidy, ht] at hb
    exact ⟨x, rfl, ⟨h, fun _ => rfl⟩, hb, rfl⟩

theorem traceReadPacket_keeps {events : List Event} (h : Tidy x.1)
    (hread : x.2.err = true ∨ leavesPacket events = true) :
    ∃ y, traceReadPacket events x = .ok y ∧ Keeps x y := by
  cases herr : x.2.err with
  | true => exact ⟨x, if_pos herr, h, fun _ => rfl⟩
  | false =>
    have hleaves := hread.resolve_left (by rw [herr]; decide)
    obtain ⟨y, hrun, hkeeps, hb, -⟩ := traceReadPacket_tidy events h herr
    rcases readLoop_spec events hb with ⟨hnot, -⟩ | ⟨m, err, hm⟩
    · rw [hleaves] at hnot
      cases hnot
    · rw [if_pos hleaves] at hm
      exact ⟨_, hrun.trans hm, hkeeps.trans (delivered_keeps hb m err)⟩

theorem traceReadPacket_loses {events : List Event} (h : Tidy x.1)
    (hread : ¬ (x.2.err = true ∨ leavesPacket events = true)) :
    (∃ stop, traceReadPacket events x = .error stop) ∨
      ∃ y, traceReadPacket events x = .ok y ∧ Loses x y := by
  obtain ⟨herr, hleaves⟩ := not_or.mp hread
  obtain ⟨y, hrun, hkeeps, hb, hsame⟩ :=
    traceReadPacket_tidy events h (Bool.not_eq_true _ ▸ herr)
  rcases readLoop_spec events hb with ⟨-, hwait⟩ | ⟨m, err, hm⟩
  · exact .inl ⟨_, hrun.trans hwait⟩
  · rw [if_neg hleaves] at hm
    refine .inr ⟨_, hrun.trans hm, y.2.scheduled + m, Nat.lt_succ_self _, ?_⟩
    have hshare := hkeeps.share (y.2.scheduled + m)
    simp only [share, hb, List.count_append, count_scheduled, reduceCtorEq, if_false] at hshare ⊢
    split_ifs at hshare ⊢ <;> omega

theorem traceDestroyPacket_keeps {parallel : Bool} (h : Tidy x.1)
    (hp : parallel = true ∨ x.1.traced = false) :
    ∃ y, traceDestroyPacket parallel x = .ok y ∧ Keeps x y := by
  rw [traceDestroyPacket]
  cases ht : x.1.traced with
  | true =>
    have hpar : parallel = true := hp.resolve_right (by rw [ht]; decide)
    rw [if_pos ⟨hpar, rfl⟩, lodpFinPacket_tidy h ht, ok_bind]
    exact ⟨_, rfl, finished_keeps x false⟩
  | false =>
    rw [if_neg fun hboth => Bool.false_ne_true hboth.2, ok_bind]
    rw [Tidy, ht] at h
    exact ⟨_, rfl, rfl, fun p => by simp [share, createPacket, show x.1.buffer = none from h]⟩

theorem traceDestroyPacket_loses {parallel : Bool} (h : Tidy x.1)
    (hheld : ∀ p, x.1.buffer = some p → p < x.2.scheduled)
    (hp : ¬ (parallel = true ∨ x.1.traced = false)) :
    ∃ y, traceDestroyPacket parallel x = .ok y ∧ Loses x y := by
  obtain ⟨hpar, ht⟩ := not_or.mp hp
  rw [Tidy, if_pos (by simpa using ht)] at h
  obtain ⟨q, hq⟩ := Option.ne_none_iff_exists'.mp h.2
  refine ⟨(createPacket, x.2), ?_, q, hheld q hq, ?_⟩
  · rw [traceDestroyPacket, if_neg fun hboth => hpar hboth.1]
    rfl
  · simp only [share, createPacket, hq, reduceCtorEq, if_false, if_true]
    omega

end

variable [Fintype κ] {parallel : Bool} {s : State κ}

structure Books (s : State κ) : Prop extends Accounted s where
  tidy : ∀ k, Tidy (s.packets k)

omit [Fintype κ] in
theorem step_ok {call : κ × Call} {y : Held} (h : s.stopped = none)
    (hy : call.2.run parallel (s.packets call.1, s.trace) = .ok y) : step parallel s call =
      { s with packets := update s.packets call.1 y.1, trace := y.2 } := by
  rw [step, h, hy]
  rfl

theorem places_update (s : State κ) (k : κ) (y : Held) (p : Nat) :
    places { s with packets := update s.packets k y.1, trace := y.2 } p +
      share (s.packets k, s.trace) p = places s p + share y p := by
  have hmove := count_update (fun o => decide (o.buffer = some p)) s.packets k y.1
  simp only [Bool.toNat, Bool.cond_decide] at hmove
  simp only [places, share]
  omega

theorem step_books (h : Books s) (call : κ × Call) (hcall : Harmless parallel s call) :
    Books (step parallel s call) := by
  obtain ⟨k, use⟩ := call
  obtain ⟨y, hy, hkeeps⟩ : ∃ y, use.run parallel (s.packets k, s.trace) = .ok y ∧
      Keeps (s.packets k, s.trace) y := by
    cases use with
    | read events => exact traceReadPacket_keeps (h.tidy k) hcall
    | fin => exact ⟨_, traceFinPacket_tidy (h.tidy k), finished_keeps _ _⟩
    | destroy => exact traceDestroyPacket_keeps (h.tidy k) hcall
    | getErr => exact ⟨_, rfl, h.tidy k, fun _ => rfl⟩
  rw [step_ok h.running hy]
  refine ⟨⟨h.running, fun p => ?_⟩, fun j => ?_⟩
  · have hmove := places_update s k y p
    have hplace := h.onePlace p
    have hshare := hkeeps.share p
    dsimp only at hmove hshare ⊢
    omega
  · dsimp only
    by_cases hj : j = k
    · rw [hj, update_self]
      exact hkeeps.tidy
    · rw [update_of_ne hj]
      exact h.tidy j

theorem not_accounted_of_harmful (h : Books s) (call : κ × Call)
    (hcall : ¬ Harmless parallel s call) : ¬ Accounted (step parallel s call) := by
  rintro ⟨hrunning, hplaces⟩
  obtain ⟨k, use⟩ := call
  have hheld : ∀ p, (s.packets k).buffer = some p → p < s.trace.scheduled := by
    intro p hp
    by_contra hle
    have hplace := h.onePlace p
    have hpos := count_pos (fun o : PacketObject => decide (o.buffer = some p)) s.packets k
      (decide_eq_true hp)
    rw [if_neg hle, places] at hplace
    omega
  have hloses : (∃ stop, use.run parallel (s.packets k, s.trace) = .error stop) ∨
      ∃ y, use.run parallel (s.packets k, s.trace) = .ok y ∧ Loses (s.packets k, s.trace) y := by
    cases use with
    | read events => exact traceReadPacket_loses (h.tidy k) hcall
    | fin => exact absurd trivial hcall
    | destroy => exact .inr (traceDestroyPacket_loses (h.tidy k) hheld hcall)
    | getErr => exact absurd trivial hcall
  rcases hloses with ⟨stop, hstop⟩ | ⟨y, hy, p, hp, hless⟩
  · rw [step, h.running, hstop] at hrunning
    cases hrunning
  · rw [step_ok h.running hy] at hplaces
    have hmove := places_update s k y p
    have hplace := h.onePlace p
    rw [hplaces p, if_pos hp] at hmove
    dsimp only at hmove hless
    split_ifs at hplace hless <;> omega

end Libtrace.OdpPackets
