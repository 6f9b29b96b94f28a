import Libtrace.RtReading

/-! The packets that come out of a stream of RT messages, whatever pieces it arrives in. -/

namespace Libtrace.RtFraming
open Window RtClient RtReading

def be16 (n : Nat) : List UInt8 := [UInt8.ofNat (n / 256), UInt8.ofNat n]

def be32 (n : Nat) : List UInt8 :=
  [UInt8.ofNat (n / 16777216), UInt8.ofNat (n / 65536), UInt8.ofNat (n / 256), UInt8.ofNat n]

structure Message where
  type : Nat
  magic : UInt8
  version : UInt8
  sequence : Nat
  payload : List UInt8
  type_lt : type < 4294967296
  payload_lt : payload.length < 65536

def Message.encode (msg : Message) : List UInt8 :=
  be32 msg.type ++ [msg.magic, msg.version] ++ be16 msg.payload.length ++ be32 msg.sequence ++
    msg.payload

def encodeAll (msgs : List Message) : List UInt8 := msgs.flatMap Message.encode

def Message.packet (msg : Message) : Packet := ⟨msg.type, msg.payload⟩

def Message.reply (process : Packet → Int) (msg : Message) : Reply :=
  ⟨msg.packet, finishPacket process msg.packet msg.payload.length⟩

section

variable (fresh : Nat → UInt8) {bytes : List UInt8}

inductive Fills (short : State → Bool) (bytes : List UInt8) (s s' : State) :
    Except RtError Unit → Prop where
  | enough (hdone : short s' = false) : Fills short bytes s s' (.ok ())
  | again (hplan : s'.plan.length < s.plan.length) : Fills short bytes s s' (.error .again)
  | waiting (s₀ : State) (hs₀ : Holds s₀ bytes) (hshort : short s₀ = true)
      (hunread : s'.unread = s₀.unread) (hempty : s'.plan = [] ∨ s'.stream = []) :
      Fills short bytes s s' (.error .waiting)

theorem readWhile_holds {short : State → Bool}
    (hshort : ∀ s, Holds s bytes → short s = true → Incomplete s) (fuel : Nat) {s : State}
    (h : Holds s bytes) (hfuel : s.plan.length < fuel) :
    ∃ r s', readWhile fresh short fuel s = (r, s') ∧ Holds s' bytes ∧
      s'.plan.length ≤ s.plan.length ∧ s.unread ≤ s'.unread ∧
      (s.plan = [] → s'.stream = s.stream) ∧ Fills short bytes s s' r := by
  induction fuel generalizing s with
  | zero => omega
  | succ fuel ih =>
    rw [readWhile]
    by_cases hs : short s = true
    · rw [if_pos hs]
      obtain ⟨r, s₁, hread, h₁, hreads⟩ := rtRead_holds fresh h (hshort s h hs)
      rw [hread]
      cases hreads with
      | more n hplan hunread =>
        obtain ⟨r, s', hloop, hs', hplan', hunread', hstream', hfills⟩ := ih h₁ (by omega)
        have hne : s.plan ≠ [] := fun he => by simp [he] at hplan
        refine ⟨r, s', hloop, hs', by omega, by omega, fun he => (hne he).elim, ?_⟩
        cases hfills with
        | enough hdone => exact .enough hdone
        | again hplan'' => exact .again (by omega)
        | waiting s₀ hs₀ hshort₀ hunread₀ hempty => exact .waiting s₀ hs₀ hshort₀ hunread₀ hempty
      | again hplan hunread =>
        have hne : s.plan ≠ [] := fun he => by simp [he] at hplan
        exact ⟨_, s₁, rfl, h₁, by omega, hunread, fun he => (hne he).elim, .again hplan⟩
      | waiting hplan hstream hunread hempty =>
        refine ⟨_, s₁, rfl, h₁, Nat.le_of_eq (by rw [hplan]), by omega, fun _ => hstream, ?_⟩
        exact .waiting s h hs hunread (by rwa [hplan, hstream])
    · rw [if_neg hs]
      exact ⟨_, s, rfl, h, Nat.le_refl _, Nat.le_refl _, fun _ => rfl, .enough (by simpa using hs)⟩

end

section

variable {s : State} {msg : Message} {t : List UInt8}

theorem encode_length (msg : Message) : msg.encode.length = headerSize + msg.payload.length := by
  simp [Message.encode, be32, be16, headerSize]
  omega

theorem header_fields (h : Holds s (msg.encode ++ t)) (hlong : headerSize ≤ s.unread) :
    ntohl s.cells s.bufRead = msg.type ∧ s.length = msg.payload.length := by
  have hbyte {i : Nat} (hi : i < headerSize) {b : UInt8}
      (hb : (msg.encode ++ t)[i]? = some b) : s.cells (s.bufRead + i) = b := by
    rw [getElem?_pending h (by omega)] at hb
    exact Option.some.inj hb
  have htype := msg.type_lt
  have hpayload := msg.payload_lt
  have h0 : s.cells s.bufRead = _ := hbyte (i := 0) (by decide) rfl
  simp only [State.length, ntohs, ntohl, h0, hbyte (i := 1) (by decide) rfl,
    hbyte (i := 2) (by decide) rfl, hbyte (i := 3) (by decide) rfl, Nat.add_assoc,
    hbyte (i := 6) (by decide) rfl, hbyte (i := 7) (by decide) rfl, UInt8.toNat_ofNat']
  omega

theorem payload_window (h : Holds s (msg.encode ++ t))
    (hlong : headerSize + msg.payload.length ≤ s.unread) :
    window s.cells (s.bufRead + headerSize) (s.bufRead + headerSize + msg.payload.length) =
        msg.payload ∧
      window s.cells (s.bufRead + headerSize + msg.payload.length) s.bufWrite ++ s.stream =
        t := by
  have hordered := h.ordered
  unfold State.unread at hlong
  have hpending := h.pending
  rw [window_append s.cells (k := s.bufRead + headerSize) (by omega) (by omega),
    window_append s.cells (r := s.bufRead + headerSize)
      (k := s.bufRead + headerSize + msg.payload.length) (by omega) (by omega),
    Message.encode, List.append_assoc, List.append_assoc, List.append_assoc] at hpending
  obtain ⟨-, htail⟩ := List.append_inj hpending (by simp [headerSize, be32, be16])
  exact List.append_inj htail (by simp)

end

inductive Gets (process : Packet → Int) (msgs : List Message) (s s' : State) :
    Except RtError Reply → Prop where
  | packet (msg : Message) (rest : List Message) (hmsgs : msgs = msg :: rest)
      (hs' : Holds s' (encodeAll rest)) : Gets process msgs s s' (.ok (msg.reply process))
  | again (hs' : Holds s' (encodeAll msgs)) (hplan : s'.plan.length < s.plan.length) :
      Gets process msgs s s' (.error .again)
  | waiting (hs' : Holds s' (encodeAll msgs))
      (hempty : msgs = [] ∨ s'.plan = [] ∧ s'.stream ≠ []) :
      Gets process msgs s s' (.error .waiting)

section

variable (fresh : Nat → UInt8) (process : Packet → Int) {msgs : List Message} {s : State}

theorem shortHeader_incomplete (s : State) (h : shortHeader s = true) : Incomplete s := by
  simp only [shortHeader, decide_eq_true_eq] at h
  exact Nat.lt_of_lt_of_le h (by decide)

theorem shortPayload_incomplete (s : State) (h : shortPayload s = true) : Incomplete s := by
  simp only [shortPayload, decide_eq_true_eq] at h
  have hhigh := UInt8.toNat_lt (s.cells (s.bufRead + 6))
  have hlow := UInt8.toNat_lt (s.cells (s.bufRead + 6 + 1))
  simp only [State.length, ntohs] at h
  unfold Incomplete
  omega

theorem stream_ne_nil {s' s₀ : State} {msg : Message} {rest : List UInt8}
    (hs' : Holds s' (msg.encode ++ rest)) (hunread : s'.unread = s₀.unread)
    (hshort : s₀.unread < headerSize + msg.payload.length) : s'.stream ≠ [] := by
  intro he
  have hlen := holds_length hs'
  rw [he, List.length_append, encode_length, List.length_nil] at hlen
  omega

theorem waits {s' s₀ : State} (hs' : Holds s' (encodeAll msgs)) (hunread : s'.unread = s₀.unread)
    (hshort : ∀ msg rest, msgs = msg :: rest → s₀.unread < headerSize + msg.payload.length)
    (hempty : s'.plan = [] ∨ s'.stream = []) : msgs = [] ∨ s'.plan = [] ∧ s'.stream ≠ [] := by
  cases msgs with
  | nil => exact .inl rfl
  | cons msg rest =>
    have hne := stream_ne_nil hs' hunread (hshort msg rest rfl)
    exact .inr ⟨hempty.resolve_right hne, hne⟩

theorem getNext_holds (h : Holds s (encodeAll msgs)) :
    ∃ r s', rtGetNextPacket fresh process s = (r, s') ∧ s'.plan.length ≤ s.plan.length ∧
      (s.plan = [] → s'.stream = s.stream) ∧ Gets process msgs s s' r := by
  obtain ⟨r₁, s₁, hloop₁, h₁, hplan₁, -, hstream₁, hfills₁⟩ :=
    readWhile_holds fresh (fun s _ => shortHeader_incomplete s) (s.plan.length + 1) h (by omega)
  rw [rtGetNextPacket, hloop₁]
  cases hfills₁ with
  | again hplan => exact ⟨_, s₁, rfl, hplan₁, hstream₁, .again h₁ hplan⟩
  | waiting s₀ hs₀ hshort hunread hempty =>
    refine ⟨_, s₁, rfl, hplan₁, hstream₁, .waiting h₁ (waits h₁ hunread (fun msg _ _ => ?_) hempty)⟩
    simp only [shortHeader, decide_eq_true_eq] at hshort
    omega
  | enough hdone =>
    have hheader : headerSize ≤ s₁.unread := by simpa [shortHeader] using hdone
    obtain ⟨r₂, s₂, hloop₂, h₂, hplan₂, hunread₂, hstream₂, hfills₂⟩ :=
      readWhile_holds fresh (fun s _ => shortPayload_incomplete s) (s₁.plan.length + 1) h₁
        (by omega)
    have hstream (he : s.plan = []) : s₂.stream = s.stream :=
      (hstream₂ (List.length_eq_zero_iff.mp (by simpa [he] using hplan₁))).trans (hstream₁ he)
    simp only [hloop₂]
    cases hfills₂ with
    | again hplan => exact ⟨_, s₂, rfl, by omega, hstream, .again h₂ (by omega)⟩
    | waiting s₀ hs₀ hshort hunread hempty =>
      refine ⟨_, s₂, rfl, by omega, hstream, .waiting h₂ (waits h₂ hunread ?_ hempty)⟩
      rintro msg rest rfl
      have hlength := (header_fields (t := encodeAll rest) hs₀ (by omega)).2
      simp only [shortPayload, decide_eq_true_eq, hlength] at hshort
      exact hshort
    | enough hdone =>
      cases msgs with
      | nil =>
        have hlen := holds_length h₂
        simp only [encodeAll, List.flatMap_nil, List.length_nil] at hlen
        have : headerSize = 12 := rfl
        omega
      | cons msg rest =>
        obtain ⟨htype, hlength⟩ := header_fields (t := encodeAll rest) h₂ (by omega)
        have hlong : headerSize + msg.payload.length ≤ s₂.unread := by
          simpa [shortPayload, hlength] using hdone
        obtain ⟨hpayload, hrest⟩ := payload_window (t := encodeAll rest) h₂ hlong
        simp only [hlength, htype, hpayload]
        refine ⟨_, _, rfl, by simp only; omega, hstream, .packet msg rest rfl ?_⟩
        refine ⟨?_, h₂.fits, hrest, h₂.null, h₂.room, h₂.plain⟩
        have hordered := h₂.ordered
        simp only [State.unread] at hlong ⊢
        omega

end

theorem calls_hold (fresh : Nat → UInt8) (process : Packet → Int) (n : Nat) {msgs : List Message}
    {s : State} (h : Holds s (encodeAll msgs)) :
    ∃ k s', calls fresh process n s = ((msgs.take k).map (Message.reply process), s') ∧
      Holds s' (encodeAll (msgs.drop k)) ∧ (s.plan = [] → s'.plan = [] ∧ s'.stream = s.stream) ∧
      (s.plan.length + msgs.length ≤ n → msgs.length ≤ k ∨ s'.plan = [] ∧ s'.stream ≠ []) := by
  induction n generalizing msgs s with
  | zero => exact ⟨0, s, rfl, h, fun he => ⟨he, rfl⟩, fun hn => .inl (by omega)⟩
  | succ n ih =>
    obtain ⟨r, s₁, hcall, hplan, hstream, hgets⟩ := getNext_holds fresh process h
    have hnil (he : s.plan = []) : s₁.plan = [] :=
      List.length_eq_zero_iff.mp (by simpa [he] using hplan)
    rw [calls, hcall]
    cases hgets with
    | packet msg rest hmsgs hs' =>
      obtain ⟨k, s', hcalls, hk, hstuck, hdone⟩ := ih hs'
      refine ⟨k + 1, s', ?_, ?_, fun he => ?_, fun hn => ?_⟩
      · simp [hcalls, hmsgs]
      · simpa [hmsgs] using hk
      · exact ⟨(hstuck (hnil he)).1, (hstuck (hnil he)).2.trans (hstream he)⟩
      · rw [hmsgs, List.length_cons] at hn ⊢
        exact (hdone (by omega)).imp_left (by omega)
    | again hs' hless =>
      obtain ⟨k, s', hcalls, hk, hstuck, hdone⟩ := ih hs'
      refine ⟨k, s', hcalls, hk, fun he => by simp [he] at hless, fun hn => hdone (by omega)⟩
    | waiting hs' hempty =>
      obtain ⟨k, s', hcalls, hk, hstuck, hdone⟩ := ih hs'
      refine ⟨k, s', hcalls, hk, fun he => ?_, fun hn => ?_⟩
      · exact ⟨(hstuck (hnil he)).1, (hstuck (hnil he)).2.trans (hstream he)⟩
      · obtain rfl | ⟨he, hne⟩ := hempty
        · exact .inl (Nat.zero_le _)
        · exact .inr ⟨(hstuck he).1, by rw [(hstuck he).2]; exact hne⟩

/-- However a stream of messages is split, the packets are the messages in order, what is left is
the rest of the stream, and each `recv` has room. Once every call has had its turn, all messages
have come out or the stream has not arrived. -/
theorem packets_of_stream (fresh : Nat → UInt8) (process : Packet → Int) (msgs : List Message)
    (plan : List Outcome) (hplain : ∀ o ∈ plan, isPlain o = true) (n : Nat) :
    ∃ k s, calls fresh process n (start (encodeAll msgs) plan) =
        ((msgs.take k).map (Message.reply process), s) ∧
      window s.cells s.bufRead s.bufWrite ++ s.stream = encodeAll (msgs.drop k) ∧
      (∀ w ∈ s.recvs, w < rtBufSize) ∧
      (plan.length + msgs.length ≤ n → msgs.length ≤ k ∨ s.plan = [] ∧ s.stream ≠ []) := by
  have hstart : Holds (start (encodeAll msgs) plan) (encodeAll msgs) :=
    ⟨Nat.le_refl 0, Nat.zero_le _, by simp [start], fun _ => rfl, by simp [start], hplain⟩
  obtain ⟨k, s, hcalls, hs, -, hdone⟩ := calls_hold fresh process n hstart
  exact ⟨k, s, hcalls, hs.pending, hs.room, hdone⟩

def twoMessages : List Message :=
  [⟨12, 0x5a, 4, 1, [1, 2, 3], by decide, by decide⟩, ⟨6, 0x5a, 4, 2, [], by decide, by decide⟩]

def choppy : List Outcome := [.ready 4, .eintr, .ready 7, .eagain, .ready 2, .eintr, .ready 99]

theorem twoMessages_come_out :
    ∃ k s, calls (fun _ => 0) (fun _ => 0) 9 (start (encodeAll twoMessages) choppy) =
        ((twoMessages.take k).map (Message.reply fun _ => 0), s) ∧
      window s.cells s.bufRead s.bufWrite ++ s.stream = encodeAll (twoMessages.drop k) ∧
      (∀ w ∈ s.recvs, w < rtBufSize) ∧
      (choppy.length + twoMessages.length ≤ 9 →
        twoMessages.length ≤ k ∨ s.plan = [] ∧ s.stream ≠ []) :=
  packets_of_stream (fun _ => 0) (fun _ => 0) twoMessages choppy (by decide) 9

end Libtrace.RtFraming
