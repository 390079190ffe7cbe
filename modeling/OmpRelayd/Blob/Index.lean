/-
  OmpRelayd.Blob.Index — the payload store's index and its critical sections
  (server/src/blob.rs, `Store`).

  Each definition is one critical section of the index mutex, from the lookups to the last
  assignment; `now` is the instant the source read for it. The totals are `u64`s kept up to
  date by hand, so every expression over them is audited (`Lib.U64`): the unsaturated ones
  wrap, `saturating_sub` clamps, and both leave a record of their operands. Durations and
  instants count nanoseconds. A serial comes from an atomic counter and is a `Nat`: the
  counter would have to be drawn 2^64 times to repeat.

  A path below the store's root has two components, a room's directory and a name in it.
  Both are digests or built from one, so they are kept as what they are digests of.
-/

import OmpRelayd.Lib.Map
import OmpRelayd.Lib.U64
import OmpRelayd.Protocol

namespace OmpRelayd.Blob

def maxPayloadBytes : Nat := 4 * 1024 * 1024

def maxRoomBytes : Nat := 8 * maxPayloadBytes

def maxStoreBytes : Nat := 8 * maxRoomBytes

def minChargeBytes : Nat := maxFrameBytes

def nanos : Nat := 1000000000

def payloadTimeToLive : Nat := 2 * 60 * 60 * nanos

def reservationTimeToLive : Nat := 60 * nanos

inductive Refusal where
  | payloadTooLarge
  | roomFull
  | storeFull
  deriving DecidableEq, Repr

inductive UploadRefusal where
  | unreserved
  | overReservation (declared reserved : Nat)
  deriving DecidableEq, Repr

/-- Why an upload did not become a stored payload; `io` is the filesystem's refusal. -/
inductive UploadError where
  | digestMismatch (declared computed : String)
  | lengthMismatch (declared received : Nat)
  | roomGone
  | io
  deriving DecidableEq, Repr

structure Grant where
  timeToLive : Nat
  deriving DecidableEq, Repr

structure Reservation where
  declared : Nat
  charged : Nat
  expiresAt : Nat
  deriving DecidableEq, Repr

structure Payload where
  bytes : Nat
  charged : Nat
  expiresAt : Nat
  deriving DecidableEq, Repr

structure InFlight where
  serial : Nat
  charged : Nat
  deriving DecidableEq, Repr

structure RoomState where
  reserved : Map String Reservation := ∅
  uploading : Map String InFlight := ∅
  stored : Map String Payload := ∅
  charged : Nat := 0

structure Index where
  rooms : Map RoomId RoomState := ∅
  charged : Nat := 0

/-! ## Paths and removals -/

inductive Name where
  | payload (digest : String)
  | temp (digest : String) (n : Nat)
  deriving DecidableEq, Repr

structure Path where
  room : RoomId
  name : Name
  deriving DecidableEq, Repr

def payloadPath (room : RoomId) (digest : String) : Path := ⟨room, .payload digest⟩

def tempPath (room : RoomId) (digest : String) (n : Nat) : Path := ⟨room, .temp digest n⟩

inductive Removal where
  | payload (room : RoomId) (digest : String)
  | room (room : RoomId)
  | temp (path : Path)
  deriving DecidableEq, Repr

/-- What a removal acts on: one file, or a room's whole directory. -/
inductive Target where
  | file (path : Path)
  | dir (room : RoomId)
  deriving DecidableEq, Repr

/-! ## The critical sections -/

/-- `a.div_ceil(b)`. -/
def divCeil (a b : Nat) : Nat := a / b + if 0 < a % b then 1 else 0

def chargeFor (bytes : Nat) : Audit Nat := U64.mul (divCeil (max bytes 1) minChargeBytes) minChargeBytes

/-- `total + plus - minus`, evaluated left to right. -/
def addSub (total plus minus : Nat) : Audit Nat := do
  let sum ← U64.add total plus
  U64.sub sum minus

def isIdle (state : RoomState) : Bool := state.charged == 0 && state.reserved.isEmpty && state.uploading.isEmpty

def Index.setRoom (index : Index) (room : RoomId) (state : RoomState) (charged : Nat) : Index :=
  ⟨index.rooms.insert room state, charged⟩

/-- An absent room owes and holds nothing, which is what a default one does. -/
def Index.room (index : Index) (room : RoomId) : RoomState := (index.rooms.lookup room).getD {}

def reserve (index : Index) (room : RoomId) (digest : String) (bytes now : Nat) :
    Audit (Except Refusal Grant × Index) :=
  if maxPayloadBytes < bytes then pure (.error .payloadTooLarge, index)
  else do
    let charged ← chargeFor bytes
    let state := index.room room
    let released := ((state.reserved.lookup digest).map (·.charged)).getD 0
    match (state.stored.lookup digest).filter (now < ·.expiresAt) with
    | some payload => pure (.ok ⟨payload.expiresAt - now⟩, index)
    | none =>
      let roomTotal ← addSub state.charged charged released
      if maxRoomBytes < roomTotal then pure (.error .roomFull, index)
      else do
        let storeTotal ← addSub index.charged charged released
        if maxStoreBytes < storeTotal then pure (.error .storeFull, index)
        else do
          -- both totals are evaluated again for the assignment
          let storeCharged ← addSub index.charged charged released
          let roomCharged ← addSub state.charged charged released
          let reservation : Reservation := ⟨bytes, charged, now + reservationTimeToLive⟩
          let state' := { state with reserved := state.reserved.insert digest reservation, charged := roomCharged }
          pure (.ok ⟨payloadTimeToLive⟩, index.setRoom room state' storeCharged)

def payloadLen (index : Index) (room : RoomId) (digest : String) (now : Nat) : Option Nat :=
  (index.rooms.lookup room).bind fun state =>
    ((state.stored.lookup digest).filter (now < ·.expiresAt)).map (·.bytes)

/-- What `begin_upload` admitted; an upload is named by its serial. -/
inductive Accepted where
  | alreadyHeld
  | upload (serial : Nat)
  deriving DecidableEq, Repr

/-- Returns the next serial too: one is drawn as soon as the reservation is taken. -/
def beginUpload (index : Index) (nextSerial : Nat) (room : RoomId) (digest : String) (declared now : Nat) :
    Audit (Except UploadRefusal Accepted × Index × Nat) :=
  match index.rooms.lookup room with
  | none => pure (.error .unreserved, index, nextSerial)
  | some state =>
    if (state.stored.lookup digest).any (now < ·.expiresAt) then pure (.ok .alreadyHeld, index, nextSerial)
    else match state.reserved.lookup digest with
      | none => pure (.error .unreserved, index, nextSerial)
      | some reservation =>
        if reservation.expiresAt ≤ now then pure (.error .unreserved, index, nextSerial)
        else if reservation.declared < declared then
          pure (.error (.overReservation declared reservation.declared), index, nextSerial)
        else
          let reserved := state.reserved.erase digest
          match state.uploading.lookup digest with
          -- a concurrent upload holds an allowance: this one's reservation goes back to the budget
          | some _ => do
            let roomCharged ← U64.saturatingSub state.charged reservation.charged
            let storeCharged ← U64.saturatingSub index.charged reservation.charged
            pure (.error .unreserved,
              index.setRoom room { state with reserved := reserved, charged := roomCharged } storeCharged,
              nextSerial + 1)
          | none =>
            let flight : InFlight := ⟨nextSerial, reservation.charged⟩
            let state' := { state with reserved := reserved, uploading := state.uploading.insert digest flight }
            pure (.ok (.upload nextSerial), index.setRoom room state' index.charged, nextSerial + 1)

def dropRoomIfIdle (index : Index) (room : RoomId) : Index :=
  if (index.rooms.lookup room).any fun state => isIdle state && state.stored.isEmpty then
    { index with rooms := index.rooms.erase room }
  else index

/-- The in-flight entry that `serial` created, if it is still there. -/
def mine (state : RoomState) (digest : String) (serial : Nat) : Option InFlight :=
  (state.uploading.lookup digest).filter (·.serial == serial)

def abandonUpload (index : Index) (room : RoomId) (digest : String) (serial : Nat) : Audit Index :=
  match index.rooms.lookup room with
  | none => pure index
  | some state =>
    match mine state digest serial with
    | none => pure (dropRoomIfIdle index room)
    | some flight => do
      let roomCharged ← U64.saturatingSub state.charged flight.charged
      let storeCharged ← U64.saturatingSub index.charged flight.charged
      let state' := { state with uploading := state.uploading.erase digest, charged := roomCharged }
      pure (dropRoomIfIdle (index.setRoom room state' storeCharged) room)

def commitUpload (index : Index) (room : RoomId) (digest : String) (serial bytes now : Nat) :
    Audit (Except UploadError Unit × Index) :=
  match index.rooms.lookup room with
  | none => pure (.error .roomGone, index)
  | some state =>
    match mine state digest serial with
    | none => pure (.error .roomGone, index)
    | some flight => do
      let settled ← chargeFor bytes
      let roomCharged ← addSub state.charged settled flight.charged
      let storeCharged ← addSub index.charged settled flight.charged
      let payload : Payload := ⟨bytes, settled, now + payloadTimeToLive⟩
      let state' := { state with
        uploading := state.uploading.erase digest
        stored := state.stored.insert digest payload
        charged := roomCharged }
      match state.stored.lookup digest with
      | none => pure (.ok (), index.setRoom room state' storeCharged)
      -- a payload of this digest that expired and was not swept: its charge goes with it
      | some replaced => do
        let roomCharged' ← U64.saturatingSub roomCharged replaced.charged
        let storeCharged' ← U64.saturatingSub storeCharged replaced.charged
        pure (.ok (), index.setRoom room { state' with charged := roomCharged' } storeCharged')

/-- The removals the source queues once the lock is released come back with the index. -/
def forgetRoom (index : Index) (room : RoomId) : Audit (List Removal × Index) :=
  match index.rooms.lookup room with
  | none => pure ([], index)
  | some state => do
    let charged ← U64.saturatingSub index.charged state.charged
    pure ([.room room], ⟨index.rooms.erase room, charged⟩)

/-! ### The sweep -/

/-- What one sweep removed. -/
structure Swept where
  payloads : Nat
  reservations : Nat
  deriving DecidableEq, Repr

def liveReservation (now : Nat) (_ : String) (reservation : Reservation) : Bool := now < reservation.expiresAt

def livePayload (now : Nat) (_ : String) (payload : Payload) : Bool := now < payload.expiresAt

/-- `released += charge`, once per entry a `retain` drops. -/
def release (released : Nat) : List Nat → Audit Nat
  | [] => pure released
  | charge :: rest => do
    let released' ← U64.add released charge
    release released' rest

def deadReservations (now : Nat) (state : RoomState) : List (Σ _ : String, Reservation) :=
  state.reserved.entries.filter fun e => !liveReservation now e.1 e.2

def deadPayloads (now : Nat) (state : RoomState) : List (Σ _ : String, Payload) :=
  state.stored.entries.filter fun e => !livePayload now e.1 e.2

/-- One room's turn of the loop: what it releases, and the room it leaves. -/
def sweepRoom (now : Nat) (state : RoomState) : Audit (Nat × RoomState) := do
  let released ← release 0 ((deadReservations now state).map (·.2.charged))
  let released' ← release released ((deadPayloads now state).map (·.2.charged))
  let charged ← U64.saturatingSub state.charged released'
  pure (released', { state with
    reserved := state.reserved.retain (liveReservation now)
    stored := state.stored.retain (livePayload now)
    charged := charged })

/-- The process total over the whole loop: each room's release is taken off in turn. -/
def sweepCharged (now : Nat) : List (Σ _ : RoomId, RoomState) → Nat → Audit Nat
  | [], charged => pure charged
  | e :: rest, charged => do
    let swept ← sweepRoom now e.2
    let charged' ← U64.saturatingSub charged swept.1
    sweepCharged now rest charged'

def sweptRemovals (now : Nat) (index : Index) : List Removal :=
  index.rooms.entries.flatMap fun e => (deadPayloads now e.2).map fun p => .payload e.1 p.1

/-- A room stays unless it is idle with nothing stored. -/
def keepsRoom (_ : RoomId) (state : RoomState) : Bool := !(isIdle state && state.stored.isEmpty)

def sweptCounts (now : Nat) (index : Index) : Swept :=
  ⟨(index.rooms.entries.map fun e => (deadPayloads now e.2).length).sum,
    (index.rooms.entries.map fun e => (deadReservations now e.2).length).sum⟩

def sweep (index : Index) (now : Nat) : Audit (Swept × List Removal × Index) := do
  let charged ← sweepCharged now index.rooms.entries index.charged
  let rooms := index.rooms.mapVals fun _ state => (sweepRoom now state).val.2
  pure (sweptCounts now index, sweptRemovals now index, ⟨rooms.retain keepsRoom, charged⟩)

/-! ### Ownership -/

def storedAt (index : Index) (room : RoomId) (digest : String) : Option Payload :=
  (index.rooms.lookup room).bind (·.stored.lookup digest)

def flightAt (index : Index) (room : RoomId) (digest : String) : Option InFlight :=
  (index.rooms.lookup room).bind (·.uploading.lookup digest)

def reservedAt (index : Index) (room : RoomId) (digest : String) : Option Reservation :=
  (index.rooms.lookup room).bind (·.reserved.lookup digest)

/-- An upload in flight counts as an owner: between its rename and its commit the file at
    the address is already the new one. -/
def ownsPayload (index : Index) (room : RoomId) (digest : String) : Bool :=
  (storedAt index room digest).isSome || (flightAt index room digest).isSome

def ownsRoom (index : Index) (room : RoomId) : Bool := (index.rooms.lookup room).isSome

def removable (index : Index) : Removal → Option Target
  | .payload room digest => if ownsPayload index room digest then none else some (.file (payloadPath room digest))
  | .room room => if ownsRoom index room then none else some (.dir room)
  | .temp path => some (.file path)

/-! ## The store

  The index and the serial counter, and what the properties below speak of: the uploads
  `begin_upload` accepted, and every `u64` expression the sections evaluated. -/

/-- What an accepted upload knows of itself. -/
structure Guard where
  room : RoomId
  digest : String
  serial : Nat
  declared : Nat
  deriving DecidableEq, Repr

structure Store where
  index : Index := {}
  nextSerial : Nat := 0
  accepted : List Guard := []
  log : List Arith := []

namespace Store

def reserve (s : Store) (room : RoomId) (digest : String) (bytes now : Nat) : Except Refusal Grant × Store :=
  let r := Blob.reserve s.index room digest bytes now
  (r.val.1, { s with index := r.val.2, log := s.log ++ r.log })

def beginUpload (s : Store) (room : RoomId) (digest : String) (declared now : Nat) :
    Except UploadRefusal Accepted × Store :=
  let r := Blob.beginUpload s.index s.nextSerial room digest declared now
  let guards := match r.val.1 with
    | .ok (.upload serial) => [⟨room, digest, serial, declared⟩]
    | _ => []
  (r.val.1, { index := r.val.2.1, nextSerial := r.val.2.2, accepted := s.accepted ++ guards, log := s.log ++ r.log })

def abandonUpload (s : Store) (room : RoomId) (digest : String) (serial : Nat) : Store :=
  let r := Blob.abandonUpload s.index room digest serial
  { s with index := r.val, log := s.log ++ r.log }

/-- As `Upload::commit` calls it: with the length the upload declared. -/
def commitUpload (s : Store) (g : Guard) (now : Nat) : Except UploadError Unit × Store :=
  let r := Blob.commitUpload s.index g.room g.digest g.serial g.declared now
  (r.val.1, { s with index := r.val.2, log := s.log ++ r.log })

def forgetRoom (s : Store) (room : RoomId) : List Removal × Store :=
  let r := Blob.forgetRoom s.index room
  (r.val.1, { s with index := r.val.2, log := s.log ++ r.log })

def sweep (s : Store) (now : Nat) : (Swept × List Removal) × Store :=
  let r := Blob.sweep s.index now
  ((r.val.1, r.val.2.1), { s with index := r.val.2.2, log := s.log ++ r.log })

/-- `next_serial.fetch_add(1)`, as `temp_path` draws it. -/
def drawSerial (s : Store) : Nat × Store := (s.nextSerial, { s with nextSerial := s.nextSerial + 1 })

end Store

end OmpRelayd.Blob
