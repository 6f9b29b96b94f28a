import Mathlib.Data.List.Chain
import Mathlib.Algebra.Order.Group.Nat

/-! `tracesplit.c`: the packets of a trace are written to a sequence of files. Outputs can be
created and written, and packets have a link type. -/

namespace Libtrace.TraceSplit

structure Packet where
  seconds : Nat
  captureLength : Nat
  wireLength : Nat
  deriving DecidableEq, Repr

def Packet.setCaptureLength (packet : Packet) (size : Nat) : Packet :=
  if packet.captureLength < size then packet else { packet with captureLength := size }

/-- `none` is an option that is not given, `UINT64_MAX`. -/
structure Options where
  outputBase : String
  starttime : Nat := 0
  endtime : Option Nat := none
  interval : Option Nat := none
  count : Option Nat := none
  bytes : Option Nat := none
  maxfiles : Option Nat := none
  snaplen : Nat := 0
  compressLevel : Int := -1

structure File where
  name : String
  firsttime : Nat
  packets : List Packet
  deriving DecidableEq

structure State where
  output : Option File := none
  /-- The outputs that were destroyed. -/
  closed : List File := []
  firsttime : Nat := 0
  pktcount : Nat := 0
  totbytes : Nat := 0
  totbyteslast : Nat := 0
  filescreated : Nat := 0
  filenum : Nat := 0

def State.files (s : State) : List File := s.closed ++ s.output.toList

def remainder (n : Nat) : Option Nat → Nat
  | none => n
  | some limit => n % limit

def reached (n : Nat) : Option Nat → Bool
  | none => false
  | some limit => limit ≤ n

def exceeded (n : Nat) : Option Nat → Bool
  | none => false
  | some limit => limit < n

variable (opts : Options)

def Options.many : Bool := opts.maxfiles.all (1 < ·)

def outputName (firsttime pktcount filenum : Nat) : String :=
  let part (option : Option Nat) (n : Nat) :=
    if option.isSome && opts.many then "-" ++ toString n else ""
  let needExt := (opts.interval.isSome || opts.count.isSome || opts.bytes.isSome) && opts.many
  opts.outputBase ++ part opts.interval firsttime ++ part opts.count pktcount ++
    part opts.bytes filenum ++ if needExt && opts.compressLevel != 0 then ".gz" else ""

def State.close (s : State) : State := { s with output := none, closed := s.files }

def boundary (now : Nat) : Nat :=
  if opts.starttime ≠ 0 then now - remainder (now - opts.starttime) opts.interval else now

def setFirsttime (packet : Packet) (s : State) : State :=
  if s.firsttime = 0 then { s with firsttime := boundary opts packet.seconds } else s

def splitTime (packet : Packet) (s : State) : State :=
  if s.output.isSome && exceeded packet.seconds (opts.interval.map (s.firsttime + ·)) then
    { s.close with firsttime := s.firsttime + opts.interval.getD 0 }
  else s

def splitCount (s : State) : State :=
  if s.output.isSome && remainder s.pktcount opts.count == 0 then s.close else s

def countPacket (packet : Packet) (s : State) : State :=
  { s with pktcount := s.pktcount + 1, totbytes := s.totbytes + packet.captureLength }

def splitBytes (s : State) : State :=
  if s.output.isSome && reached (s.totbytes - s.totbyteslast) opts.bytes then
    { s.close with totbyteslast := s.totbytes }
  else s

def createOutput (s : State) : State :=
  if s.output.isSome then s
  else
    let filenum := if opts.bytes.isSome && opts.many then s.filenum + 1 else s.filenum
    { s with
      output := some ⟨outputName opts s.firsttime s.pktcount filenum, s.firsttime, []⟩
      filescreated := s.filescreated + 1
      filenum := filenum }

def writePacket (packet : Packet) (s : State) : State :=
  { s with output := s.output.map fun file => { file with packets := file.packets ++ [packet] } }

def snap (packet : Packet) : Packet :=
  if 0 < opts.snaplen then packet.setCaptureLength opts.snaplen else packet

def trim (packet : Packet) : Packet :=
  if packet.wireLength < packet.captureLength then packet.setCaptureLength packet.wireLength
  else packet

def perPacket (s : State) (packet : Packet) : State × Int :=
  let packet := snap opts packet
  if packet.seconds < opts.starttime then (s, 1)
  else if exceeded packet.seconds opts.endtime then (s, 0)
  else
    let s := splitCount opts (splitTime opts packet (setFirsttime opts packet s))
    let s := splitBytes opts (countPacket packet s)
    if !s.output.isSome && reached s.filescreated opts.maxfiles then (s, 0)
    else (writePacket (trim packet) (createOutput opts s), 1)

def run (opts : Options) : State → List Packet → State
  | s, [] => s
  | s, packet :: packets =>
    let result := perPacket opts s packet
    if result.2 < 1 then result.1 else run opts result.1 packets

structure ByInterval (opts : Options) (interval : Nat) : Prop where
  interval : opts.interval = some interval
  endtime : opts.endtime = none
  count : opts.count = none
  bytes : opts.bytes = none
  maxfiles : opts.maxfiles = none

/-- What is to be written: the packets from the start time on, cut as they are. -/
def written (packets : List Packet) : List Packet :=
  (packets.filter fun packet => opts.starttime ≤ packet.seconds).map fun p => trim (snap opts p)

def Named (file : File) : Prop :=
  file.packets ≠ [] ∧
    ∃ pktcount filenum, file.name = outputName opts file.firsttime pktcount filenum

structure Splits (opts : Options) (interval : Nat) (packets : List Packet) (files : List File) :
    Prop where
  named : ∀ file ∈ files, Named opts file
  contained : ∀ file ∈ files, ∀ packet ∈ file.packets,
    file.firsttime ≤ packet.seconds ∧ packet.seconds ≤ file.firsttime + interval
  multiple : ∀ oldest ∈ files.head?, ∀ file ∈ files,
    ∃ k, file.firsttime = oldest.firsttime + k * interval
  ordered : files.flatMap File.packets = written opts packets

/-- The interval after `base` in which a time lies; its end belongs to it. -/
def slot (interval base t : Nat) : Nat := (t - base - 1) / interval

def Fits (interval first base t : Nat) : Prop :=
  (t ≤ base + interval → t ≤ first + interval) ∧ (base + interval < t → interval ∣ base - first)

/-- The files begin at `base` and at its multiples; the one of `base` is named `first`. -/
def Covers (interval first base : Nat) (times : List Nat) : Prop :=
  times.IsChain (fun t t' => slot interval base t' ≤ slot interval base t + 1) ∧
    ∀ t ∈ times, Fits interval first base t

def firstName (times : List Nat) : Nat := boundary opts (times.headD 0)

def baseTime (times : List Nat) : Nat :=
  if firstName opts times = 0 then (times.find? (0 < ·)).getD 0 else firstName opts times

def place (interval : Nat) (now : Nat × Nat) (t : Nat) : Nat × Nat :=
  let firsttime := if now.2 = 0 then boundary opts t else now.2
  if firsttime + interval < t then (firsttime + interval, firsttime + interval)
  else (now.1, firsttime)

def assign (opts : Options) (interval : Nat) : Nat × Nat → List Packet → List (Nat × Packet)
  | _, [] => []
  | now, packet :: packets =>
    ((place opts interval now packet.seconds).1, packet) ::
      assign opts interval (place opts interval now packet.seconds) packets

def assigned (interval : Nat) : List Packet → List (Nat × Packet)
  | [] => []
  | packet :: packets => (boundary opts packet.seconds, packet) ::
      assign opts interval (boundary opts packet.seconds, boundary opts packet.seconds) packets

def placed (files : List File) : List (Nat × Packet) :=
  files.flatMap fun file => file.packets.map fun packet => (file.firsttime, packet)

structure Open (opts : Options) (now : Nat × Nat) (out : List (Nat × Packet)) (s : State) :
    Prop where
  output : s.output.map File.firsttime = some now.1
  firsttime : s.firsttime = now.2
  counted : 0 < s.pktcount
  named : ∀ file ∈ s.files, Named opts file
  placed : placed s.files = out

section

variable {opts : Options} {interval : Nat} {now : Nat × Nat} {out : List (Nat × Packet)} {s : State}
  {packet : Packet} {packets : List Packet}

@[simp] theorem setCaptureLength_seconds (packet : Packet) (size : Nat) :
    (packet.setCaptureLength size).seconds = packet.seconds := by
  rw [Packet.setCaptureLength]
  split <;> rfl

@[simp] theorem snap_seconds (opts : Options) (packet : Packet) :
    (snap opts packet).seconds = packet.seconds := by
  rw [snap]
  split <;> simp

@[simp] theorem trim_seconds (packet : Packet) : (trim packet).seconds = packet.seconds := by
  rw [trim]
  split <;> simp

theorem placed_append (files more : List File) :
    placed (files ++ more) = placed files ++ placed more := List.flatMap_append

theorem files_close (s : State) : s.close.files = s.files := List.append_nil _

theorem named_concat {files : List File} {file : File} (h : ∀ file ∈ files, Named opts file)
    (hfile : Named opts file) : ∀ other ∈ files ++ [file], Named opts other := by
  intro other hother
  rcases List.mem_append.mp hother with hold | hnew
  · exact h other hold
  · rw [List.mem_singleton.mp hnew]
    exact hfile

theorem write_created (packet : Packet) (hout : s.output = none) (hcount : 0 < s.pktcount)
    (hfiles : ∀ file ∈ s.files, Named opts file) :
    Open opts (s.firsttime, s.firsttime) (placed s.files ++ [(s.firsttime, packet)])
      (writePacket packet (createOutput opts s)) := by
  obtain ⟨filenum, hnew⟩ : ∃ filenum, (writePacket packet (createOutput opts s)).files =
      s.files ++ [⟨outputName opts s.firsttime s.pktcount filenum, s.firsttime, [packet]⟩] := by
    simp [createOutput, hout, State.files, writePacket]
  refine ⟨by simp [createOutput, hout, writePacket], by simp [createOutput, hout, writePacket],
    by simpa [createOutput, hout, writePacket] using hcount, ?_, ?_⟩
  · rw [hnew]
    exact named_concat hfiles ⟨List.cons_ne_nil _ _, _, _, rfl⟩
  · rw [hnew, placed_append]
    rfl

theorem write_output (packet : Packet) {file : File} (hout : s.output = some file)
    (hcount : 0 < s.pktcount) (hfiles : ∀ file ∈ s.files, Named opts file) :
    Open opts (file.firsttime, s.firsttime) (placed s.files ++ [(file.firsttime, packet)])
      (writePacket packet (createOutput opts s)) := by
  have hcreate : createOutput opts s = s := by simp [createOutput, hout]
  have hbefore : s.files = s.closed ++ [file] := by simp [State.files, hout]
  have hnew : (writePacket packet s).files =
      s.closed ++ [{ file with packets := file.packets ++ [packet] }] := by
    simp [State.files, hout, writePacket]
  rw [hbefore] at hfiles ⊢
  rw [hcreate]
  refine ⟨by simp [writePacket, hout], rfl, hcount, ?_, ?_⟩
  · rw [hnew]
    exact named_concat (fun file hfile => hfiles file (List.mem_append_left _ hfile))
      ⟨List.append_ne_nil_of_right_ne_nil _ (List.cons_ne_nil _ _),
        (hfiles file List.mem_concat_self).2⟩
  · rw [hnew, placed_append, placed_append]
    simp [TraceSplit.placed]

theorem perPacket_interval {split : State} (hby : ByInterval opts interval)
    (ht : opts.starttime ≤ packet.seconds)
    (hsplit : splitTime opts (snap opts packet) (setFirsttime opts (snap opts packet) s) = split)
    (hcount : split.output.isSome → 0 < split.pktcount) :
    perPacket opts s packet = (writePacket (trim (snap opts packet))
      (createOutput opts (countPacket (snap opts packet) split)), 1) := by
  have hkeep : splitCount opts split = split := by
    rw [splitCount, hby.count, if_neg]
    rw [Bool.and_eq_true, beq_iff_eq]
    exact fun hboth => absurd hboth.2 (Nat.ne_of_gt (hcount hboth.1))
  simp [perPacket, Nat.not_lt_of_le ht, hby.endtime, exceeded, hsplit, hkeep, splitBytes, hby.bytes,
    reached, hby.maxfiles]

theorem setFirsttime_eq (opts : Options) (packet : Packet) (s : State) :
    setFirsttime opts packet s =
      { s with firsttime := if s.firsttime = 0 then boundary opts packet.seconds
                            else s.firsttime } := by
  rw [setFirsttime]
  split <;> rfl

theorem perPacket_first (hby : ByInterval opts interval) (ht : opts.starttime ≤ packet.seconds) :
    ∃ s', perPacket opts {} packet = (s', 1) ∧
      Open opts (boundary opts packet.seconds, boundary opts packet.seconds)
        [(boundary opts packet.seconds, trim (snap opts packet))] s' := by
  have hsplit : splitTime opts (snap opts packet) (setFirsttime opts (snap opts packet) {}) =
      { firsttime := boundary opts packet.seconds } := by
    rw [setFirsttime_eq, splitTime]
    simp
  exact ⟨_, perPacket_interval hby ht hsplit (fun hsome => absurd hsome Bool.false_ne_true),
    write_created
    (s := countPacket (snap opts packet) { firsttime := boundary opts packet.seconds })
      _ rfl Nat.one_pos (fun file hfile => absurd hfile List.not_mem_nil)⟩

theorem Open.perPacket (hby : ByInterval opts interval) (h : Open opts now out s)
    (ht : opts.starttime ≤ packet.seconds) :
    ∃ s', perPacket opts s packet = (s', 1) ∧ Open opts (place opts interval now packet.seconds)
      (out ++ [((place opts interval now packet.seconds).1, trim (snap opts packet))]) s' := by
  obtain ⟨file, hout, hname⟩ := Option.map_eq_some_iff.mp h.output
  rw [place, ← h.firsttime, ← h.placed]
  generalize hset : (if s.firsttime = 0 then boundary opts packet.seconds else s.firsttime) =
    firsttime
  have hfirst : setFirsttime opts (snap opts packet) s = { s with firsttime := firsttime } := by
    rw [setFirsttime_eq, snap_seconds, hset]
  by_cases hlate : firsttime + interval < packet.seconds
  · have hsplit : splitTime opts (snap opts packet) (setFirsttime opts (snap opts packet) s) =
        { s.close with firsttime := firsttime + interval } := by
      simp [hfirst, splitTime, hout, hby.interval, exceeded, hlate, State.close, State.files]
    have hfiles : (countPacket (snap opts packet)
        { s.close with firsttime := firsttime + interval }).files = s.files := files_close s
    have hnamed := h.named
    rw [← hfiles] at hnamed
    have hwrite := write_created (trim (snap opts packet)) rfl (Nat.succ_pos _) hnamed
    rw [hfiles] at hwrite
    simp only [if_pos hlate]
    exact ⟨_, perPacket_interval hby ht hsplit (fun _ => h.counted), hwrite⟩
  · have hsplit : splitTime opts (snap opts packet) (setFirsttime opts (snap opts packet) s) =
        { s with firsttime := firsttime } := by
      simp [hfirst, splitTime, hby.interval, exceeded, hlate]
    simp only [if_neg hlate, ← hname]
    exact ⟨_, perPacket_interval hby ht hsplit (fun _ => h.counted),
      write_output (s := countPacket (snap opts packet) { s with firsttime := firsttime }) _ hout
        (Nat.succ_pos _) h.named⟩

theorem written_cons (ht : opts.starttime ≤ packet.seconds) :
    written opts (packet :: packets) = trim (snap opts packet) :: written opts packets := by
  simp [written, ht]

theorem written_early (ht : ¬ opts.starttime ≤ packet.seconds) :
    written opts (packet :: packets) = written opts packets := by
  simp [written, ht]

theorem run_early (ht : ¬ opts.starttime ≤ packet.seconds) :
    run opts s (packet :: packets) = run opts s packets := by
  simp [run, perPacket, Nat.lt_of_not_le ht]

theorem Open.run (hby : ByInterval opts interval) (packets : List Packet)
    (h : Open opts now out s) :
    ∃ now', Open opts now' (out ++ assign opts interval now (written opts packets))
      (run opts s packets) := by
  induction packets generalizing s now out with
  | nil =>
    refine ⟨now, ?_⟩
    rw [written, List.filter_nil, List.map_nil, assign, List.append_nil]
    exact h
  | cons packet packets ih =>
    by_cases ht : opts.starttime ≤ packet.seconds
    · obtain ⟨s', hper, h'⟩ := h.perPacket hby ht
      obtain ⟨now', hopen⟩ := ih h'
      refine ⟨now', ?_⟩
      rw [written_cons ht, assign, trim_seconds, snap_seconds, List.append_cons]
      simpa [TraceSplit.run, hper] using hopen
    · rw [run_early ht, written_early ht]
      exact ih h

theorem run_assigns (hby : ByInterval opts interval) (packets : List Packet) :
    (∀ file ∈ (run opts {} packets).files, Named opts file) ∧
      placed (run opts {} packets).files = assigned opts interval (written opts packets) := by
  induction packets with
  | nil => exact ⟨fun file hfile => absurd hfile List.not_mem_nil, rfl⟩
  | cons packet packets ih =>
    by_cases ht : opts.starttime ≤ packet.seconds
    · obtain ⟨s', hper, h'⟩ := perPacket_first hby ht
      have hrun : run opts {} (packet :: packets) = run opts s' packets := by simp [run, hper]
      obtain ⟨now', hopen⟩ := h'.run hby packets
      rw [hrun, written_cons ht, assigned, trim_seconds, snap_seconds]
      exact ⟨hopen.named, hopen.placed⟩
    · rw [run_early ht, written_early ht]
      exact ih

end

section

variable {opts : Options} {interval first base t k : Nat} {packet : Packet} {packets : List Packet}

def Good (interval first : Nat) (x : Nat × Packet) : Prop :=
  x.1 ≤ x.2.seconds ∧ x.2.seconds ≤ x.1 + interval ∧ ∃ k, x.1 = first + k * interval

theorem slot_le_iff (hpos : 1 ≤ interval) :
    slot interval base t ≤ k ↔ t ≤ base + k * interval + interval := by
  rw [slot, ← Nat.lt_succ_iff, Nat.div_lt_iff_lt_mul hpos, Nat.succ_mul]
  omega

theorem exists_multiple_iff (hfirst : first ≤ base) (m : Nat) :
    (∃ k, base + m * interval = first + k * interval) ↔ interval ∣ base - first := by
  constructor
  · rintro ⟨k, hk⟩
    have hsum : (base - first) + m * interval = k * interval := by omega
    exact (Nat.dvd_add_left (Nat.dvd_mul_left _ _)).mp (hsum ▸ Nat.dvd_mul_left interval k)
  · rintro ⟨c, hc⟩
    refine ⟨c + m, ?_⟩
    rw [Nat.add_mul, Nat.mul_comm c]
    omega

theorem good_iff (hpos : 1 ≤ interval) (hfirst : first ≤ base) {name : Nat}
    (hname : name = if k = 0 then first else base + k * interval) (hle : first ≤ packet.seconds)
    (hslot : slot interval base packet.seconds = k) :
    Good interval first (name, packet) ↔ Fits interval first base packet.seconds := by
  have hupper := (slot_le_iff hpos).mp (Nat.le_of_eq hslot)
  cases k with
  | zero =>
    rw [Nat.zero_mul, Nat.add_zero] at hupper
    subst hname
    refine ⟨fun h => ⟨fun _ => h.2.1, fun hlt => absurd hlt (by omega)⟩, fun h => ?_⟩
    exact ⟨hle, h.1 hupper, 0, by rw [Nat.zero_mul]; rfl⟩
  | succ k =>
    have hlower : base + k * interval + interval < packet.seconds := by
      by_contra hnot
      have := (slot_le_iff hpos).mpr (Nat.le_of_not_lt hnot)
      omega
    rw [if_neg (Nat.succ_ne_zero k)] at hname
    have hnext : (k + 1) * interval = k * interval + interval := Nat.succ_mul k interval
    have hmultiple : (∃ m, name = first + m * interval) ↔ interval ∣ base - first :=
      hname ▸ exists_multiple_iff hfirst (k + 1)
    refine ⟨fun h => ⟨fun hlt => absurd hlt (by omega), fun _ => hmultiple.mp h.2.2⟩, fun h => ?_⟩
    exact ⟨by dsimp only; omega, by dsimp only; omega, hmultiple.mpr (h.2 (by omega))⟩

theorem assign_good_iff (opts : Options) (hpos : 1 ≤ interval) (hbase : base ≠ 0)
    (hfirst : first ≤ base) {name : Nat}
    (hsorted : ((packet :: packets).map Packet.seconds).Pairwise (· ≤ ·))
    (hname : name = if k = 0 then first else base + k * interval) (hle : first ≤ packet.seconds)
    (hslot : slot interval base packet.seconds = k) :
    (∀ x ∈ assign opts interval (name, base + k * interval) packets, Good interval first x) ↔
      ((packet :: packets).map Packet.seconds).IsChain
          (fun t t' => slot interval base t' ≤ slot interval base t + 1) ∧
        ∀ t ∈ packets.map Packet.seconds, Fits interval first base t := by
  induction packets generalizing k name packet with
  | nil => simp [assign]
  | cons next packets ih =>
    obtain ⟨hfrom, hrest⟩ := List.pairwise_cons.mp hsorted
    have hlast : packet.seconds ≤ next.seconds := hfrom _ List.mem_cons_self
    have hmono : slot interval base packet.seconds ≤ slot interval base next.seconds :=
      Nat.div_le_div_right (by omega)
    have hset : (if base + k * interval = 0 then boundary opts next.seconds
        else base + k * interval) = base + k * interval := if_neg (by omega)
    rw [assign, place, hset, List.forall_mem_cons, List.map_cons, List.map_cons,
      List.forall_mem_cons, List.isChain_cons_cons, hslot, ← List.map_cons]
    by_cases hstay : next.seconds ≤ base + k * interval + interval
    · have hsame : slot interval base next.seconds = k :=
        Nat.le_antisymm ((slot_le_iff hpos).mpr hstay) (hslot ▸ hmono)
      rw [if_neg (Nat.not_lt_of_le hstay), ih hrest hname (by omega) hsame,
        good_iff hpos hfirst hname (by omega) hsame, hsame]
      have : k ≤ k + 1 := Nat.le_succ k
      tauto
    · have hnext : base + k * interval + interval = base + (k + 1) * interval := by
        rw [Nat.succ_mul, Nat.add_assoc]
      rw [if_pos (Nat.lt_of_not_le hstay), hnext]
      have hlower : k + 1 ≤ slot interval base next.seconds :=
        Nat.lt_of_not_le fun h => hstay ((slot_le_iff hpos).mp h)
      by_cases hone : slot interval base next.seconds ≤ k + 1
      · have hsame : slot interval base next.seconds = k + 1 := Nat.le_antisymm hone hlower
        have hname' : base + (k + 1) * interval =
            if k + 1 = 0 then first else base + (k + 1) * interval :=
          (if_neg (Nat.succ_ne_zero k)).symm
        rw [ih hrest hname' (by omega) hsame, good_iff hpos hfirst hname' (by omega) hsame]
        tauto
      · -- The packet lies behind the file that is opened for it.
        refine iff_of_false (fun h => hone ?_) (fun h => hone h.1.1)
        exact (slot_le_iff hpos).mpr h.1.2.1

theorem boundary_le (opts : Options) (now : Nat) : boundary opts now ≤ now := by
  rw [boundary]
  split
  · exact Nat.sub_le _ _
  · exact Nat.le_refl now

theorem le_boundary (hpos : 1 ≤ interval) (hby : opts.interval = some interval) (now : Nat) :
    now ≤ boundary opts now + interval := by
  rw [boundary, hby, remainder]
  have := Nat.mod_lt (now - opts.starttime) hpos
  split <;> omega

theorem boundary_eq_zero {now : Nat} (hby : opts.interval = some interval)
    (hle : opts.starttime ≤ now) (h : boundary opts now = 0) : opts.starttime = 0 ∧ now = 0 := by
  rw [boundary, hby, remainder] at h
  have := Nat.mod_le (now - opts.starttime) interval
  split at h <;> omega

theorem covers_cons_iff (hpos : 1 ≤ interval) (hbase : base ≠ 0) (hfirst : first ≤ base)
    (hsorted : ((packet :: packets).map Packet.seconds).Pairwise (· ≤ ·))
    (hle : first ≤ packet.seconds) (hslot : slot interval base packet.seconds = 0) :
    Good interval first (first, packet) ∧
        (∀ x ∈ assign opts interval (first, base) packets, Good interval first x) ↔
      Covers interval first base ((packet :: packets).map Packet.seconds) := by
  have hassign := assign_good_iff opts (k := 0) hpos hbase hfirst hsorted
    (if_pos rfl).symm hle hslot
  rw [Nat.zero_mul, Nat.add_zero] at hassign
  rw [hassign, good_iff hpos hfirst (if_pos rfl).symm hle hslot, Covers, List.map_cons,
    List.forall_mem_cons]
  exact and_left_comm

theorem good_zero (hzero : packet.seconds = 0) : Good interval 0 (0, packet) :=
  ⟨Nat.zero_le _, by simp [hzero], 0, by simp⟩

theorem assign_zero_iff (hpos : 1 ≤ interval) (hstart : opts.starttime = 0)
    (hsorted : (packets.map Packet.seconds).Pairwise (· ≤ ·)) :
    (∀ x ∈ assign opts interval (0, 0) packets, Good interval 0 x) ↔
      Covers interval 0 (((packets.map Packet.seconds).find? (0 < ·)).getD 0)
        (0 :: packets.map Packet.seconds) := by
  have hboundary (t : Nat) : boundary opts t = t := if_neg (not_not.mpr hstart)
  induction packets with
  | nil => simp [assign, Covers, Fits]
  | cons packet packets ih =>
    rw [assign, place, if_pos rfl, hboundary, if_neg (by omega), List.forall_mem_cons]
    by_cases hzero : packet.seconds = 0
    · have hrest := ih (List.pairwise_cons.mp hsorted).2
      rw [hzero]
      refine (and_iff_right (good_zero hzero)).trans (hrest.trans ?_)
      simp [Covers, hzero]
    · have hslot : slot interval packet.seconds packet.seconds = 0 := by simp [slot]
      rw [covers_cons_iff hpos hzero (Nat.zero_le _) hsorted (Nat.zero_le _) hslot]
      simp [Covers, Fits, hslot, Nat.pos_of_ne_zero hzero]

theorem assigned_good_iff (hpos : 1 ≤ interval) (hby : opts.interval = some interval)
    (hsorted : (packets.map Packet.seconds).Pairwise (· ≤ ·))
    (hstart : ∀ packet ∈ packets, opts.starttime ≤ packet.seconds) :
    (∀ x ∈ assigned opts interval packets,
        Good interval (firstName opts (packets.map Packet.seconds)) x) ↔
      Covers interval (firstName opts (packets.map Packet.seconds))
        (baseTime opts (packets.map Packet.seconds)) (packets.map Packet.seconds) := by
  cases packets with
  | nil => simp [assigned, Covers]
  | cons packet packets =>
    rw [assigned, List.forall_mem_cons]
    change Good interval (boundary opts packet.seconds) _ ∧
        (∀ x ∈ _, Good interval (boundary opts packet.seconds) x) ↔
      Covers interval (boundary opts packet.seconds) _ _
    by_cases hzero : boundary opts packet.seconds = 0
    · obtain ⟨hopts, htime⟩ := boundary_eq_zero hby (hstart packet List.mem_cons_self) hzero
      have hbase : baseTime opts ((packet :: packets).map Packet.seconds) =
          ((packets.map Packet.seconds).find? (0 < ·)).getD 0 := by
        refine (if_pos hzero).trans ?_
        simp [htime]
      rw [hbase, hzero, and_iff_right (good_zero htime), List.map_cons, htime]
      exact assign_zero_iff hpos hopts (List.pairwise_cons.mp hsorted).2
    · have hbase : baseTime opts ((packet :: packets).map Packet.seconds) =
          boundary opts packet.seconds := if_neg hzero
      have hslot : slot interval (boundary opts packet.seconds) packet.seconds = 0 :=
        Nat.le_zero.mp ((slot_le_iff hpos).mpr (by
          rw [Nat.zero_mul, Nat.add_zero]
          exact le_boundary hpos hby _))
      rw [hbase]
      exact covers_cons_iff hpos hzero (Nat.le_refl _) hsorted (boundary_le opts _) hslot

end

theorem assign_snd (interval : Nat) (now : Nat × Nat) (packets : List Packet) :
    (assign opts interval now packets).map Prod.snd = packets := by
  induction packets generalizing now with
  | nil => rfl
  | cons packet packets ih => rw [assign, List.map_cons, ih]

theorem assigned_snd (interval : Nat) (packets : List Packet) :
    (assigned opts interval packets).map Prod.snd = packets := by
  cases packets with
  | nil => rfl
  | cons packet packets => rw [assigned, List.map_cons, assign_snd]

theorem splits_iff_good {opts : Options} {interval : Nat} {packets : List Packet}
    {files : List File} (hnamed : ∀ file ∈ files, Named opts file)
    (hplaced : placed files = assigned opts interval (written opts packets)) :
    Splits opts interval packets files ↔
      ∀ x ∈ assigned opts interval (written opts packets),
        Good interval (firstName opts ((written opts packets).map Packet.seconds)) x := by
  have hgood : ∀ first, (∀ x ∈ assigned opts interval (written opts packets),
      Good interval first x) ↔
      ∀ file ∈ files, ∀ packet ∈ file.packets, Good interval first (file.firsttime, packet) := by
    intro first
    rw [← hplaced]
    simp only [placed, List.forall_mem_map, List.forall_mem_flatMap]
  have holdest : ∀ oldest ∈ files.head?,
      oldest.firsttime = firstName opts ((written opts packets).map Packet.seconds) := by
    intro oldest hhead
    obtain ⟨rest, rfl⟩ := List.head?_eq_some_iff.mp hhead
    obtain ⟨packet, more, hpackets⟩ :=
      List.exists_cons_of_ne_nil (hnamed oldest List.mem_cons_self).1
    cases hwritten : written opts packets with
    | nil => simp [hwritten, assigned, placed, hpackets] at hplaced
    | cons first later =>
      simp only [placed, hwritten, assigned, List.flatMap_cons, hpackets, List.map_cons,
        List.cons_append, List.cons.injEq, Prod.mk.injEq] at hplaced
      exact hplaced.1.1
  have hordered : files.flatMap File.packets = written opts packets := by
    rw [← assigned_snd opts interval (written opts packets), ← hplaced, placed, List.map_flatMap]
    simp [Function.comp_def]
  rw [hgood]
  constructor
  · intro h file hfile packet hpacket
    obtain ⟨oldest, rest, rfl⟩ := List.exists_cons_of_ne_nil (List.ne_nil_of_mem hfile)
    have hcontained := h.contained file hfile packet hpacket
    rw [← holdest oldest rfl]
    exact ⟨hcontained.1, hcontained.2, h.multiple oldest rfl file hfile⟩
  · intro h
    refine ⟨hnamed, fun file hfile packet hpacket => ?_, fun oldest hhead file hfile => ?_,
      hordered⟩
    · exact ⟨(h file hfile packet hpacket).1, (h file hfile packet hpacket).2.1⟩
    · obtain ⟨packet, more, hpackets⟩ := List.exists_cons_of_ne_nil (hnamed file hfile).1
      rw [holdest oldest hhead]
      exact (h file hfile packet (hpackets ▸ List.mem_cons_self)).2.2

/-- The packets are split exactly if none is an interval or more behind the end of the interval of
the one before, and a `firsttime` of zero does no harm. -/
theorem run_splits_iff (opts : Options) (interval : Nat) (packets : List Packet)
    (hby : ByInterval opts interval) (hpos : 1 ≤ interval)
    (hsorted : packets.Pairwise fun p q => p.seconds ≤ q.seconds) :
    Splits opts interval packets (run opts {} packets).files ↔
      Covers interval (firstName opts ((written opts packets).map Packet.seconds))
        (baseTime opts ((written opts packets).map Packet.seconds))
        ((written opts packets).map Packet.seconds) := by
  obtain ⟨hnamed, hplaced⟩ := run_assigns hby packets
  rw [splits_iff_good hnamed hplaced]
  refine assigned_good_iff hpos hby.interval ?_ ?_
  · rw [List.pairwise_map, written, List.pairwise_map]
    simpa using hsorted.filter _
  · intro packet hpacket
    obtain ⟨input, hmem, rfl⟩ := List.mem_map.mp hpacket
    rw [trim_seconds, snap_seconds]
    exact of_decide_eq_true (List.mem_filter.mp hmem).2

/-- Every ten seconds, from the time 90 on. -/
theorem dense_splits :
    Splits { outputBase := "out", starttime := 90, interval := some 10 } 10
      [⟨80, 60, 60⟩, ⟨95, 60, 60⟩, ⟨101, 60, 60⟩, ⟨120, 60, 60⟩]
      (run { outputBase := "out", starttime := 90, interval := some 10 } {}
        [⟨80, 60, 60⟩, ⟨95, 60, 60⟩, ⟨101, 60, 60⟩, ⟨120, 60, 60⟩]).files := by
  refine (run_splits_iff _ _ _ ⟨rfl, rfl, rfl, rfl, rfl⟩ (by decide) (by decide)).mpr ?_
  exact ⟨by decide, by unfold Fits; decide⟩

/-- After a gap of five intervals `firsttime` is advanced by one. -/
theorem gap_not_contained :
    (run { outputBase := "out", interval := some 10 } {} [⟨100, 60, 60⟩, ⟨150, 60, 60⟩]).files.map
        (fun file => (file.firsttime, file.packets.map Packet.seconds)) =
      [(100, [100]), (110, [150])] ∧
    ¬ Splits { outputBase := "out", interval := some 10 } 10 [⟨100, 60, 60⟩, ⟨150, 60, 60⟩]
      (run { outputBase := "out", interval := some 10 } {}
        [⟨100, 60, 60⟩, ⟨150, 60, 60⟩]).files := by
  refine ⟨by decide, fun h => ?_⟩
  exact absurd (fun file hfile packet hpacket => (h.contained file hfile packet hpacket).2)
    (by decide)

end Libtrace.TraceSplit
