import Libtrace.Exec

/-! `data-struct/buckets.c`: packets that share a read buffer get their ids from one bucket, and the
buffer is freed once every id is released. `malloc` does not hand out an address again; using a node
that is not there is a fault. A call holds the lock throughout: a push that finds no slot stops with
`waits`. -/

namespace Libtrace.Buckets
open Exec Function

def maxOutstanding : Nat := 200000

inductive Fault where
  | assertion
  | dangling
  | outOfBounds
  | waits
  deriving DecidableEq, Repr

structure BucketNode (β : Type) where
  startindex : Nat
  released : List Nat
  activemembers : Nat
  slots : Nat
  buffer : Option β

structure Bucket (β : Type) where
  nextid : Nat
  node : Option Nat
  packets : Nat → Option Nat
  nodelist : List Nat
  heap : Nat → Option (BucketNode β)
  fresh : Nat
  freed : List (Nat × β)

abbrev Op (β α : Type) := Prog Fault (Bucket β) α

variable {β : Type}

def assertThat (p : Prop) [Decidable p] : Op β Unit :=
  if p then pure () else throw .assertion

theorem assertThat_ok {p : Prop} [Decidable p] (h : p) (b : Bucket β) :
    assertThat p b = .ok ((), b) := by
  rw [assertThat, if_pos h]
  rfl

def deref (p : Nat) : Op β (BucketNode β) := do
  match (← get).heap p with
  | some node => return node
  | none => throw .dangling

variable {p : Nat} {b : Bucket β} {node : BucketNode β} {id : Nat}

theorem deref_ok (h : b.heap p = some node) : deref p b = .ok (node, b) := by
  rw [deref, get_bind, h]
  rfl

def store (p : Nat) (node : BucketNode β) : Op β Unit :=
  modify fun b => { b with heap := update b.heap p (some node) }

def malloc (node : BucketNode β) : Op β Nat := do
  let b ← get
  store b.fresh node
  modify fun b => { b with fresh := b.fresh + 1 }
  return b.fresh

def free (p : Nat) : Op β Unit := do
  let _ ← deref p
  modify fun b => { b with heap := update b.heap p none }

theorem free_ok (h : (b.heap p).isSome) :
    free p b = .ok ((), { b with heap := update b.heap p none }) := by
  obtain ⟨node, hnode⟩ := Option.isSome_iff_exists.mp h
  rw [free, bind_of_ok (deref_ok hnode)]
  rfl

def readPacket (id : Nat) : Op β (Option Nat) := do
  let b ← get
  if id ≤ maxOutstanding then return b.packets id else throw .outOfBounds

theorem readPacket_ok (h : id ≤ 199999) (b : Bucket β) :
    readPacket id b = .ok (b.packets id, b) := by
  rw [readPacket, get_bind, if_pos (by unfold maxOutstanding; omega)]
  rfl

def writePacket (id : Nat) (p : Option Nat) : Op β Unit :=
  if id ≤ maxOutstanding then
    modify fun b => { b with packets := update b.packets id p }
  else throw .outOfBounds

theorem writePacket_ok (h : id ≤ 199999) (p : Option Nat) (b : Bucket β) :
    writePacket id p b = .ok ((), { b with packets := update b.packets id p }) := by
  rw [writePacket, if_pos (by unfold maxOutstanding; omega)]
  rfl

def readReleased (node : BucketNode β) (i : Nat) : Op β Nat :=
  match node.released[i]? with
  | some mark => pure mark
  | none => throw .outOfBounds

theorem readReleased_ok {i mark : Nat} (h : node.released[i]? = some mark) (b : Bucket β) :
    readReleased node i b = .ok (mark, b) := by
  rw [readReleased, h]
  rfl

def writeReleased (node : BucketNode β) (i mark : Nat) : Op β (BucketNode β) :=
  if i < node.released.length then pure { node with released := node.released.set i mark }
  else throw .outOfBounds

theorem writeReleased_ok (node : BucketNode β) {i : Nat} (h : i < node.released.length) (mark : Nat)
    (b : Bucket β) :
    writeReleased node i mark b = .ok ({ node with released := node.released.set i mark }, b) := by
  rw [writeReleased, if_pos h]
  rfl

def clearBucketNode (p : Nat) : Op β Unit := do
  let node ← deref p
  match node.buffer with
  | some buffer => modify fun b => { b with freed := b.freed ++ [(p, buffer)] }
  | none => pure ()

theorem clearBucketNode_ok (h : b.heap p = some node) :
    clearBucketNode p b =
      .ok ((), { b with freed := b.freed ++ (node.buffer.map (Prod.mk p)).toList }) := by
  rw [clearBucketNode, bind_of_ok (deref_ok h)]
  cases node.buffer with
  | none =>
    rw [Option.map_none, Option.toList_none, List.append_nil]
    rfl
  | some buffer => rfl

def bucketInit : Bucket β where
  nextid := 199999
  node := none
  packets := fun _ => none
  nodelist := []
  heap := fun _ => none
  fresh := 0
  freed := []

def dropUnused : Op β Unit := do
  match (← get).node with
  | none => pure ()
  | some p =>
    let node ← deref p
    if node.startindex = 0 then
      clearBucketNode p
      modify fun b => { b with nodelist := b.nodelist.dropLast }
      free p

def createNewBucket (buffer : Option β) : Op β Unit := do
  dropUnused
  let bnode ← malloc ⟨0, List.replicate 10 0, 0, 10, buffer⟩
  modify fun b => { b with node := some bnode, nodelist := b.nodelist ++ [bnode] }

def slot (startindex id : Nat) : Nat :=
  (if id < startindex then maxOutstanding - startindex + id - 1 else id - startindex) % 65536

/-- Ten more slots. Once `slots` has wrapped around, the `memset` is before the array. -/
def grow (node : BucketNode β) : Op β (BucketNode β) :=
  let slots := (node.slots + 10) % 65536
  if slots < 10 then throw .outOfBounds
  else pure { node with
    slots := slots
    released := node.released.take (slots - 10) ++ List.replicate 10 0 }

def growFor (node : BucketNode β) (s : Nat) : Op β (BucketNode β) :=
  if s ≥ node.slots then grow node else pure node

def waitForSlot (id : Nat) : Op β Unit := do
  let p ← readPacket id
  if p ≠ none then throw .waits

theorem waitForSlot_ok (hid : id ≤ 199999) (h : b.packets id = none) :
    waitForSlot id b = .ok ((), b) := by
  rw [waitForSlot, bind_of_ok (readPacket_ok hid b), h]
  rfl

theorem waitForSlot_waits (hid : id ≤ 199999) (h : b.packets id ≠ none) :
    waitForSlot id b = .error .waits := by
  rw [waitForSlot, bind_of_ok (readPacket_ok hid b), if_pos h]
  rfl

def Bucket.next (b : Bucket β) : Nat := if b.nextid ≥ maxOutstanding then 1 else b.nextid

def pushFirst (p nextid : Nat) (node : BucketNode β) : Op β Nat := do
  waitForSlot nextid
  let node ← writeReleased { node with startindex := nextid, activemembers := 1 } 0 1
  store p node
  writePacket nextid (some p)
  modify fun b => { b with nextid := nextid + 1 }
  return nextid

def pushNext (p nextid : Nat) (node : BucketNode β) : Op β Nat := do
  let s := slot node.startindex nextid
  let node ← growFor node s
  waitForSlot nextid
  writePacket nextid (some p)
  let node ← writeReleased node s 1
  store p { node with activemembers := (node.activemembers + 1) % 65536 }
  modify fun b => { b with nextid := nextid + 1 }
  return nextid

def pushCurrent (p : Nat) : Op β Nat := do
  modify fun b => { b with nextid := b.next }
  let b ← get
  let node ← deref p
  if node.startindex = 0 then pushFirst p b.nextid node else pushNext p b.nextid node

def pushIntoBucket : Op β Nat := do
  match (← get).node with
  | none => return 0
  | some p => pushCurrent p

theorem pushFirst_ok {nextid : Nat} (hid : nextid ≤ 199999) (hfree : b.packets nextid = none)
    (hroom : 0 < node.released.length) :
    pushFirst p nextid node b = .ok (nextid, { b with
      heap := update b.heap p (some { node with
        startindex := nextid, activemembers := 1, released := node.released.set 0 1 })
      packets := update b.packets nextid (some p)
      nextid := nextid + 1 }) := by
  have hwrite := writeReleased_ok { node with startindex := nextid, activemembers := 1 } hroom 1 b
  rw [pushFirst, bind_of_ok (waitForSlot_ok hid hfree), bind_of_ok hwrite, store, modify_bind,
    bind_of_ok (writePacket_ok hid _ _)]
  rfl

theorem pushNext_ok {nextid : Nat} {node' : BucketNode β} (hid : nextid ≤ 199999)
    (hfree : b.packets nextid = none)
    (hgrow : growFor node (slot node.startindex nextid) b = .ok (node', b))
    (hroom : slot node.startindex nextid < node'.released.length) :
    pushNext p nextid node b = .ok (nextid, { b with
      heap := update b.heap p (some { node' with
        activemembers := (node'.activemembers + 1) % 65536
        released := node'.released.set (slot node.startindex nextid) 1 })
      packets := update b.packets nextid (some p)
      nextid := nextid + 1 }) := by
  rw [pushNext, bind_of_ok hgrow, bind_of_ok (waitForSlot_ok hid hfree),
    bind_of_ok (writePacket_ok hid _ _), bind_of_ok (writeReleased_ok _ hroom 1 _)]
  rfl

def Bucket.previd (b : Bucket β) : Nat :=
  if b.nextid = 1 then maxOutstanding - 1 else b.nextid - 1

/-- The last id handed out is taken back, any other one is marked. -/
def releaseSlot (p : Nat) (bnode : BucketNode β) (id s : Nat) : Op β Unit := do
  let b ← get
  let previd := b.previd
  let activemembers := (bnode.activemembers + 65535) % 65536
  if b.node = some p ∧ id = previd then
    writePacket id none
    modify fun b => { b with nextid := previd }
    let bnode ← writeReleased bnode s 0
    let startindex := if id = bnode.startindex then 0 else bnode.startindex
    store p { bnode with startindex := startindex, activemembers := activemembers }
  else
    let bnode ← writeReleased bnode s 2
    store p { bnode with activemembers := activemembers }

def packetIndex (startindex i : Nat) : Nat :=
  if i + startindex ≥ maxOutstanding then i + startindex - (maxOutstanding - 1)
  else i + startindex

def clearPacket (node : BucketNode β) (i : Nat) : Op β Unit := do
  let mark ← readReleased node i
  if mark = 2 then writePacket (packetIndex node.startindex i) none

def clearPackets (node : BucketNode β) : Op β Unit :=
  (List.range node.slots).forM (clearPacket node)

def sweepFront : Op β Bool := do
  let b ← get
  match b.nodelist with
  | [] => return false
  | front :: rest =>
    if b.nodelist.length > 1 then
      let node ← deref front
      if node.activemembers > 0 then return false
      else if b.node = some front then return false
      else
        assertThat (rest ≠ [])
        clearPackets node
        clearBucketNode front
        modify fun b => { b with nodelist := b.nodelist.tail }
        free front
        return true
    else return false

def sweep : Nat → Op β Unit
  | 0 => pure ()
  | rounds + 1 => do
    let more ← sweepFront
    if more then sweep rounds

def releaseBucketId (id : Nat) : Op β Unit := do
  assertThat (id ≠ 0)
  match ← readPacket id with
  | none => throw .assertion
  | some p =>
    let bnode ← deref p
    let s := slot bnode.startindex id
    assertThat (s < bnode.slots)
    let mark ← readReleased bnode s
    assertThat (mark ≠ 0)
    if mark = 1 then releaseSlot p bnode id s
    sweep (← get).nodelist.length

end Libtrace.Buckets
