import Libtrace.BatchDispatch
import Libtrace.Exec

/-! The loop of `perpkt_threads_entry`, as far as its array of packets goes: messages, reading a
batch by one of four functions, and dispatching it. An event is one round, with all that the trace,
the callback and other threads do in it. -/

namespace Libtrace.PerpktLoop
open HasherRead BatchDispatch

variable {α : Type}

section

/-- Not set, with one thread and no hasher, or one of the three functions. -/
inductive Reader where
  | readPacket
  | firstInFirstServed
  | wrapper
  | hasherThread
  deriving DecidableEq, Repr

structure Config where
  burstSize : Nat
  burstSize_pos : 0 < burstSize
  reader : Reader
  tracetime : Bool

structure Supply (α : Type) where
  source : Nat → Packet α
  halt : Nat → Bool
  ret : Int
  rbuffer : List (Packet α)
  ready : Nat

structure Loop (α : Type) where
  batch : Batch α
  nbPackets : Nat
  formatData : Option (Packet α)
  left : Bool

/-- A slot that is used: its packet is asserted to be there, or dereferenced. -/
def slot (packets : Nat → Option (Packet α)) (i : Nat) : Except Fault (Packet α) :=
  match packets i with
  | some p => .ok p
  | none => .error .nullPointer

def firstServed (packets : Nat → Option (Packet α)) (i : Nat) :
    Except Fault (Int × (Nat → Option (Packet α))) := do
  let _ ← slot packets 0
  return (i, packets)

def readSlots (supply : Supply α) (packets : Nat → Option (Packet α)) :
    (todo i : Nat) → Except Fault (Int × (Nat → Option (Packet α)))
  | 0, i => firstServed packets i
  | todo + 1, i =>
    if supply.halt i then firstServed packets i
    else do
      let _ ← slot packets i
      let p := supply.source i
      let packets := Function.update packets i (some p)
      if p.error ≤ 0 then
        if i = 0 then return (p.error, packets) else firstServed packets i
      else readSlots supply packets todo (i + 1)

def readPacket (supply : Supply α) (packets : Nat → Option (Packet α)) :
    Except Fault (Int × (Nat → Option (Packet α))) := do
  let _ ← slot packets 0
  let p := supply.source 0
  return (if p.error > 0 then 1 else p.error, Function.update packets 0 (some p))

variable (cfg : Config)

/-- The format fills the packets, and a filter may exchange them. -/
def preadWrapper (supply : Supply α) (packets : Nat → Option (Packet α)) :
    Except Fault (Int × (Nat → Option (Packet α))) := do
  (List.range cfg.burstSize).forM fun i => discard (slot packets i)
  return (supply.ret, fun i => if i < cfg.burstSize then some (supply.source i) else packets i)

def pread (supply : Supply α) (l : Loop α) (packets : Nat → Option (Packet α)) :
    Except Fault (Option (Int × (Nat → Option (Packet α)) × Option (Packet α))) :=
  match cfg.reader with
  | .readPacket => do
    let (nb, packets) ← readPacket supply packets
    return some (nb, packets, l.formatData)
  | .firstInFirstServed => do
    let (nb, packets) ← readSlots supply packets cfg.burstSize 0
    return some (nb, packets, l.formatData)
  | .wrapper => do
    let (nb, packets) ← preadWrapper cfg supply packets
    return some (nb, packets, l.formatData)
  | .hasherThread =>
    let t : Perpkt α := ⟨supply.rbuffer, l.formatData, packets, []⟩
    .ok ((preadHasherThread cfg.burstSize supply.ready t).map
      fun r => (r.1, r.2.packets, r.2.formatData))

def refill (fresh : Nat → Packet α) (l : Loop α) (i : Nat) : Option (Packet α) :=
  if l.batch.empty ≤ i ∧ i < l.nbPackets then some (fresh i) else l.batch.packets i

structure Turn (α : Type) where
  fresh : Nat → Packet α
  supply : Supply α
  cb : MessagePacket α
  delayed : Nat → Bool

inductive Event (α : Type) where
  | message
  /-- `MESSAGE_DO_PAUSE`, and whether the thread gets to the pause. -/
  | pause (cb : MessagePacket α) (paused : Bool)
  | stop
  | turn (t : Turn α)

def handle (t : Turn α) (l : Loop α) : Except Fault (Loop α) := do
  -- the first packet may be stored
  let _ ← slot l.batch.packets 0
  let (_, b) ← dispatchPackets t.cb l.nbPackets cfg.tracetime t.delayed l.batch
  return { l with batch := b }

def readBatch (t : Turn α) (l : Loop α) : Except Fault (Loop α) := do
  match ← pread cfg t.supply l (refill t.fresh l) with
  | none => return { l with left := true }
  | some (nb, packets, formatData) =>
    let b := { Batch.start packets with acceptedPackets := l.batch.acceptedPackets }
    if nb > 0 then
      handle cfg t { l with batch := b, nbPackets := nb.toNat, formatData := formatData }
    else if nb = readMessage then
      return { l with batch := b, nbPackets := 0, formatData := formatData }
    else return { l with batch := b, nbPackets := 0, formatData := formatData, left := true }

def step (l : Loop α) (e : Event α) : Except Fault (Loop α) :=
  if l.left then .ok l
  else match e with
    | .message => .ok l
    | .stop => .ok { l with left := true }
    | .pause cb paused => do
      let (_, b) ← dispatchPackets cb l.nbPackets false (fun _ => false) l.batch
      return { l with batch := b, formatData := none, left := !paused }
    | .turn t => if l.batch.offset = l.nbPackets then readBatch cfg t l else handle cfg t l

def run (cfg : Config) : List (Event α) → Loop α → Except Fault (Loop α)
  | [], l => .ok l
  | e :: rest, l => do
    let l ← step cfg l e
    run cfg rest l

def Loop.init (fresh : Nat → Packet α) : Loop α where
  batch := .start fun i => if i < cfg.burstSize then some (fresh i) else none
  nbPackets := 0
  formatData := none
  left := false

end

section

def Fits (cfg : Config) : Event α → Prop
  | .turn t => cfg.reader = .wrapper → t.supply.ret ≤ cfg.burstSize
  | _ => True

/-- A batch was interrupted when the callback had kept all of it so far. -/
def Stranded (l : Loop α) : Prop :=
  l.left = false ∧ l.batch.offset < l.nbPackets ∧ l.batch.sent ≠ [] ∧
    ∀ x ∈ l.batch.sent, x.2 = none

def StrandedIn (cfg : Config) (events : List (Event α)) (l : Loop α) : Prop :=
  ∃ before t after l', events = before ++ .turn t :: after ∧ run cfg before l = .ok l' ∧ Stranded l'

end

end Libtrace.PerpktLoop
