import Libtrace.Window

/-! The client of the RT protocol: `rt_read` and `rt_get_next_packet`. Positions are offsets into
`pkt_buffer`. What `recv` will find is a list of outcomes; a new buffer holds `fresh`. -/

namespace Libtrace.RtClient
open Window

def rtBufSize : Nat := 65536 * 2

def headerSize : Nat := 12

inductive Outcome where
  | ready (more : Nat)
  | eintr
  | eagain
  | closed
  | failed
  deriving DecidableEq, Repr

/-- The client, the bytes that it has not received, and the write position at each `recv`. -/
structure State where
  pktBuffer : Option (Nat → UInt8)
  bufRead : Nat
  bufWrite : Nat
  stream : List UInt8
  plan : List Outcome
  recvs : List Nat

inductive RtError where
  /-- "No data received by RT client" -/
  | noData
  /-- "EAGAIN" -/
  | again
  /-- "Error reading from RT socket" -/
  | socket
  /-- The call has not returned: `recv` still waits. -/
  | waiting
  deriving DecidableEq, Repr

inductive Received where
  | bytes (data : List UInt8)
  | eintr
  | eagain
  | failed
  | waiting

def recv (room : Nat) (s : State) : Received × State :=
  match s.plan with
  | [] => (.waiting, s)
  | .ready more :: rest =>
    if s.stream = [] then (.waiting, s)
    else (.bytes (s.stream.take (min (more + 1) room)),
      { s with stream := s.stream.drop (min (more + 1) room), plan := rest })
  | .eintr :: rest => (.eintr, { s with plan := rest })
  | .eagain :: rest => (.eagain, { s with plan := rest })
  | .closed :: rest => (.bytes [], { s with plan := rest })
  | .failed :: rest => (.failed, { s with plan := rest })

def State.cells (s : State) : Nat → UInt8 := s.pktBuffer.getD fun _ => 0

def State.unread (s : State) : Nat := s.bufWrite - s.bufRead

section

variable (fresh : Nat → UInt8)

def allocate (s : State) : State :=
  if s.pktBuffer.isNone then { s with pktBuffer := some fresh, bufRead := 0, bufWrite := 0 } else s

def relocate (s : State) : State :=
  if rtBufSize / 2 < s.bufWrite then
    { s with
      pktBuffer := some (store fresh 0 (window s.cells s.bufRead s.bufWrite))
      bufRead := 0
      bufWrite := s.unread }
  else s

def prepare (s : State) : State :=
  let s := relocate fresh (allocate fresh s)
  { s with recvs := s.bufWrite :: s.recvs }

def accept : Received × State → Except RtError Nat × State
  | (.bytes [], s) => (.error .noData, s)
  | (.bytes (b :: data), s) =>
    let s := { s with
      pktBuffer := some (store s.cells s.bufWrite (b :: data))
      bufWrite := s.bufWrite + (b :: data).length }
    (.ok s.unread, s)
  | (.eintr, s) => (.ok 0, s)
  | (.eagain, s) => (.error .again, s)
  | (.failed, s) => (.error .socket, s)
  | (.waiting, s) => (.error .waiting, s)

def rtRead (s : State) : Except RtError Nat × State :=
  let s := prepare fresh s
  accept (recv (rtBufSize - s.bufWrite) s)

def readWhile (short : State → Bool) : Nat → State → Except RtError Unit × State
  | 0, s => (.error .waiting, s)
  | fuel + 1, s =>
    if short s then
      match rtRead fresh s with
      | (.ok _, s) => readWhile short fuel s
      | (.error e, s) => (.error e, s)
    else (.ok (), s)

end

def ntohs (m : Nat → UInt8) (i : Nat) : Nat := (m i).toNat * 256 + (m (i + 1)).toNat

def ntohl (m : Nat → UInt8) (i : Nat) : Nat :=
  (m i).toNat * 16777216 + (m (i + 1)).toNat * 65536 + (m (i + 2)).toNat * 256 +
    (m (i + 3)).toNat

def State.length (s : State) : Nat := ntohs s.cells (s.bufRead + 6)

def shortHeader (s : State) : Bool := s.unread < headerSize

def shortPayload (s : State) : Bool := s.unread < headerSize + s.length

structure Packet where
  type : Nat
  payload : List UInt8
  deriving DecidableEq, Repr

def rtDataSimple : Nat := 1000

def isProcessed (type : Nat) : Bool := type = 4 || type = 13 || type = 14 || type = 18

/-- `TRACE_RT_END_DATA`, `TRACE_RT_PAUSE_ACK`, `TRACE_RT_OPTION`, `TRACE_RT_KEYCHANGE`,
`TRACE_RT_LOSTCONN`, `TRACE_RT_SERVERSTART` and `TRACE_RT_CLIENTDROP`. -/
def isControl (type : Nat) : Bool :=
  type = 6 || type = 10 || type = 11 || type = 12 || type = 15 || type = 16 || type = 17

/-- `process` is what `rt_process_data_packet` returns, which is ignored for data packets. -/
def finishPacket (process : Packet → Int) (p : Packet) (length : Nat) : Int :=
  if rtDataSimple ≤ p.type then length
  else if isProcessed p.type then if process p < 0 then -1 else length
  else if isControl p.type then length
  else -1

structure Reply where
  packet : Packet
  ret : Int
  deriving DecidableEq, Repr

/-- The buffer that it frees first belongs to the packet. -/
def rtGetNextPacket (fresh : Nat → UInt8) (process : Packet → Int) (s : State) :
    Except RtError Reply × State :=
  match readWhile fresh shortHeader (s.plan.length + 1) s with
  | (.error e, s) => (.error e, s)
  | (.ok _, s) =>
    match readWhile fresh shortPayload (s.plan.length + 1) s with
    | (.error e, s) => (.error e, s)
    | (.ok _, s) =>
      let start := s.bufRead + headerSize
      let p : Packet := ⟨ntohl s.cells s.bufRead, window s.cells start (start + s.length)⟩
      (.ok ⟨p, finishPacket process p s.length⟩, { s with bufRead := start + s.length })

def calls (fresh : Nat → UInt8) (process : Packet → Int) : Nat → State → List Reply × State
  | 0, s => ([], s)
  | n + 1, s =>
    match rtGetNextPacket fresh process s with
    | (.ok r, s) =>
      let (rs, s) := calls fresh process n s
      (r :: rs, s)
    | (.error _, s) => calls fresh process n s

def start (stream : List UInt8) (plan : List Outcome) : State := ⟨none, 0, 0, stream, plan, []⟩

end Libtrace.RtClient
