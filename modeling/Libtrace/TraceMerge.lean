import Libtrace.Result

/-! `main` of `tracemerge`, from where the traces are open. A round fills up the empty places and
writes the oldest packet. -/

namespace Libtrace.TraceMerge

/-- A packet, zero at the end of the trace, or a negative number. -/
inductive Reading (π : Type) where
  | packet (p : π)
  | eof
  | error

/-- `input[i]`, `NULL` behind the end of the trace, and `packet[i]` while it is live. -/
structure Slot (π : Type) where
  input : Option (List (Reading π))
  packet : Option π

/-- What `trace_write_packet` comes to. The formats drop packets without data and those of unknown
link types, and return 0 as if they had written them. -/
inductive Write where
  | appended
  | dropped
  | failed
  deriving DecidableEq

/-- What becomes of a packet may depend on what was written before. -/
structure Calls (π : Type) where
  getErfTimestamp : π → UInt64
  getDirection : π → Int
  setDirection : π → Int → π
  writePacket : List (Nat × π) → π → Write

structure Options where
  interfacesPerInput : Int
  uniquePackets : Bool

structure Oldest (π : Type) where
  index : Nat
  ts : UInt64
  packet : π

structure State (π : Type) where
  slots : List (Slot π)
  lastTs : UInt64
  written : List (Nat × π)

variable {π : Type}

/-- A trace is given by what is still to be read from it, and stays at its end. -/
def readPacket : List (Reading π) → Reading π × List (Reading π)
  | [] => (.eof, [])
  | r :: rest => (r, rest)

/-- Only a packet makes a difference, the end is looked for again later. -/
def openInput (trace : List (Reading π)) : Slot π :=
  match readPacket trace with
  | (.packet p, rest) => ⟨some rest, some p⟩
  | (_, rest) => ⟨some rest, none⟩

def Slot.refill (s : Slot π) : Slot π :=
  match s.packet, s.input with
  | none, some trace =>
    match readPacket trace with
    | (.packet p, rest) => ⟨some rest, some p⟩
    | (_, _) => ⟨none, none⟩
  | _, _ => s

variable (c : Calls π)

def older (i : Nat) (best : Option (Oldest π)) : Option π → Option (Oldest π)
  | none => best
  | some p =>
    match best with
    | none => some ⟨i, c.getErfTimestamp p, p⟩
    | some o =>
      if o.ts > c.getErfTimestamp p then some ⟨i, c.getErfTimestamp p, p⟩ else some o

def scan : Nat → Option (Oldest π) → List (Slot π) → List (Slot π) × Option (Oldest π)
  | _, best, [] => ([], best)
  | i, best, s :: slots =>
    let s := s.refill
    let rest := scan (i + 1) (older c i best s.packet) slots
    (s :: rest.1, rest.2)

def release (k : Nat) (slots : List (Slot π)) : List (Slot π) :=
  slots.modify k fun s => { s with packet := none }

def setInterface (opts : Options) (k : Nat) (p : π) : π :=
  let dir := c.getDirection p
  if dir ≠ -1 ∧ opts.interfacesPerInput ≠ 0 then
    c.setDirection p (k * opts.interfacesPerInput +
      if dir < opts.interfacesPerInput then dir else opts.interfacesPerInput - 1)
  else p

/-- From round `n` on; `done n` is what the signal handler has made of `done`. -/
def mainLoop (opts : Options) (done : Nat → Bool) :
    Nat → Nat → State π → Option (List (Nat × π))
  | 0, _, _ => none
  | fuel + 1, n, s =>
    if done n then some s.written
    else
      let scanned := scan c 0 none s.slots
      match scanned.2 with
      | none => some s.written
      | some oldest =>
        let slots := release oldest.index scanned.1
        let p := setInterface c opts oldest.index oldest.packet
        if opts.uniquePackets && oldest.ts == s.lastTs then
          mainLoop opts done fuel (n + 1) { s with slots := slots }
        else match c.writePacket s.written p with
          | .failed => some s.written
          | .dropped => mainLoop opts done fuel (n + 1) ⟨slots, oldest.ts, s.written⟩
          | .appended =>
            mainLoop opts done fuel (n + 1) ⟨slots, oldest.ts, s.written ++ [(oldest.index, p)]⟩

def main (opts : Options) (done : Nat → Bool) (fuel : Nat) (traces : List (List (Reading π))) :
    Option (List (Nat × π)) :=
  mainLoop c opts done fuel 0 ⟨traces.map openInput, 0, []⟩

end Libtrace.TraceMerge
