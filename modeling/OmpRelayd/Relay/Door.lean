/-
  OmpRelayd.Relay.Door — from an accepted socket to a connection (server/src/relay.rs: `dispatch`,
  `run_connection`, `admit`, `close_with`, and where `run_reader` asks for its next frame).

  The first byte decides: a zero is the head of a frame, anything else is HTTP if the relay has a
  store. It is peeked at, so whoever takes the socket finds all of its bytes. A frame connection
  has to open with a `hello` that passes; what does not is closed with one diagnostic, or with none
  where there is nobody to tell. Bytes arrive in pieces of any size, the framing layer reads as many
  of them as it likes whenever it has no whole frame, and every await may end by a deadline, by the
  shutdown flag or by the task's being dropped.

  Kept beside what the code keeps: all that has arrived at a socket, and the payloads its framing
  layer has given out.

  A door does to the relay of `Relay.System` what one of its events does (`relayReach`). Proved
  (`the_door_is_faithful`): every connection has one door, what that door has given out is what
  arrived, in order, nothing lost and nothing twice, the first of it is the `hello` that the
  connection has its name from, and the rest is what its reader has been given; a socket that went
  to HTTP still has all its bytes; and whoever is turned away is told why, in one frame at most.
-/

import OmpRelayd.Client.Understood
import OmpRelayd.Framing
import OmpRelayd.Relay.Delivered
import OmpRelayd.RoundTrip

namespace OmpRelayd.Relay

/-! ## Doors -/

/-- The texts that the relay's `Env` does not have. -/
structure Doorman where
  /-- The handshake deadline, as its diagnostic spells it. -/
  helloDebug : String
  decodeText : Decode.DecodeError → String

inductive DoorStage where
  | peeking
  | admitting (reader : FrameReader)
  /-- The diagnostic is being written. -/
  | refusing (code : ErrorCode) (message : String)
  /-- With the HTTP side. -/
  | transfer
  /-- Connection `c`'s. -/
  | serving (c : Nat) (reader : FrameReader)
  | shut
  deriving DecidableEq, Repr

structure Door where
  inbox : Bytes := []
  ended : Bool := false
  stage : DoorStage := .peeking
  said : List ServerFrame := []
  arrived : Bytes := []
  taken : List Bytes := []
  deriving DecidableEq, Repr

/-- What `FramedRead` gives. -/
inductive Yield where
  | ended
  | failed (error : IoError)
  | payload (bytes : Bytes)
  deriving DecidableEq, Repr

def Yield.taken : Yield → List Bytes
  | .payload bytes => [bytes]
  | _ => []

/-- `Decoder::decode_eof`, where there is no whole frame. -/
def bytesRemaining : IoError := .other "bytes remaining on stream"

inductive DoorEv where
  | arrive (chunk : Bytes)
  | hangUp
  | peek
  /-- The handshake deadline. -/
  | elapse
  /-- The shutdown flag. -/
  | leave
  /-- The task is dropped at an await. -/
  | abort
  /-- The framing layer reads `n` bytes. -/
  | fill (n : Nat)
  /-- The framing layer gives what it has. -/
  | next
  /-- Reading the socket fails. -/
  | fail (text : String)
  /-- The diagnostic is written, or is not. -/
  | wrote (written : Bool)
  deriving DecidableEq, Repr

section
variable (env : Env) (doorman : Doorman)

def inboundOf : Yield → Inbound
  | .ended => .ended
  | .failed error => .failed (framingErrorCode error) error.text
  | .payload payload =>
    match Decode.decode Decode.clientFrameOf payload with
    | .error error => .undecodable (doorman.decodeText error)
    | .ok frame => .decoded frame

inductive Verdict where
  | admitted (frame : ClientFrame) (name : Name)
  | refused (code : ErrorCode) (message : String)
  /-- Nobody to tell. -/
  | silent
  deriving DecidableEq, Repr

/-- `admit`, on the first thing the framing layer gives. -/
def admission : Yield → Verdict
  | .ended => .silent
  | .failed error =>
    match framingErrorCode error with
    | some code => .refused code error.text
    | none => .silent
  | .payload payload =>
    match Decode.decode Decode.clientFrameOf payload with
    | .error error => .refused .malformedFrame (doorman.decodeText error)
    | .ok frame =>
      match admitted env frame with
      | .ok name => .admitted frame name
      | .error (code, message) => .refused code message

end

/-- Nothing has come in yet. -/
def DoorStage.opening : DoorStage → Bool
  | .peeking => true
  | .admitting _ => true
  | _ => false

namespace Door

/-- What the framing layer gives without reading on. -/
def yields (door : Door) (reader : FrameReader) : Option (Yield × FrameReader) :=
  match reader.decode with
  | .error error => some (.failed error, reader)
  | .ok (some payload, reader) => some (.payload payload, reader)
  | .ok (none, reader) =>
    if door.ended && door.inbox.isEmpty then
      some (if reader.buffer.isEmpty then .ended else .failed bytesRemaining, reader)
    else none

/-- It reads on where it has nothing to give. -/
def fills (door : Door) (reader : FrameReader) (n : Nat) : Option (FrameReader × Bytes) :=
  match reader.decode with
  | .ok (none, reader) =>
    if 0 < n ∧ n ≤ door.inbox.length then
      some ({ reader with buffer := reader.buffer ++ door.inbox.take n }, door.inbox.drop n)
    else none
  | _ => none

variable (env : Env) (doorman : Doorman)

/-- What `admit` and `run_connection` make of the first thing the framing layer gives; `c` is the
    id that `register` would draw. -/
def opens (c : Nat) (door : Door) (y : Yield) (reader : FrameReader) : Option RelayEv × Door :=
  match admission env doorman y with
  | .admitted frame _ => (some (.hello frame), { door with stage := .serving c reader, taken := door.taken ++ y.taken })
  | .refused code message => (none, { door with stage := .refusing code message, taken := door.taken ++ y.taken })
  | .silent => (none, { door with stage := .shut, taken := door.taken ++ y.taken })

/-- The reader of connection `c` is given it. -/
def hears (c : Nat) (door : Door) (y : Yield) (reader : FrameReader) : Option RelayEv × Door :=
  (some (.read c (.inbound (inboundOf doorman y))),
    { door with stage := .serving c reader, taken := door.taken ++ y.taken })

/-- What happens at a door, and what it does to the relay. -/
def step (flag : Bool) (next : Nat) (door : Door) : DoorEv → Option (Option RelayEv × Door)
  | .arrive chunk =>
    if door.ended then none
    else some (none, { door with inbox := door.inbox ++ chunk, arrived := door.arrived ++ chunk })
  | .hangUp => some (none, { door with ended := true })
  | .peek =>
    match door.stage, door.inbox with
    | .peeking, first :: _ =>
      some (none, { door with stage := if first = 0 || !env.blobs then .admitting {} else .transfer })
    | .peeking, [] => if door.ended then some (none, { door with stage := .shut }) else none
    | _, _ => none
  | .elapse =>
    if door.stage.opening then
      some (none, { door with stage := .refusing .helloTimeout ("no hello within " ++ doorman.helloDebug) })
    else none
  | .leave => if flag && door.stage.opening then some (none, { door with stage := .shut }) else none
  | .abort =>
    match door.stage with
    | .peeking => some (none, { door with stage := .shut })
    | .admitting _ => some (none, { door with stage := .shut })
    | .refusing _ _ => some (none, { door with stage := .shut })
    | _ => none
  | .fill n =>
    match door.stage with
    | .admitting reader => (door.fills reader n).map fun (reader, inbox) =>
      (none, { door with inbox := inbox, stage := .admitting reader })
    | .serving c reader => (door.fills reader n).map fun (reader, inbox) =>
      (none, { door with inbox := inbox, stage := .serving c reader })
    | _ => none
  | .next =>
    match door.stage with
    | .admitting reader => (door.yields reader).map fun (y, reader) => door.opens env doorman next y reader
    | .serving c reader => (door.yields reader).map fun (y, reader) => door.hears doorman c y reader
    | _ => none
  | .fail text =>
    match door.stage with
    | .peeking => some (none, { door with stage := .shut })
    | .admitting reader => some (door.opens env doorman next (.failed (.other text)) reader)
    | .serving c reader => some (door.hears doorman c (.failed (.other text)) reader)
    | _ => none
  | .wrote written =>
    match door.stage with
    | .refusing code message =>
      some (none, { door with
        stage := .shut
        said := if written then door.said ++ [Client.closeWith code message] else door.said })
    | _ => none

end Door

/-! ## The port -/

structure Port where
  sys : Sys := {}
  doors : Map Nat Door := ∅
  nextDoor : Nat := 0

inductive PortEv where
  | accept
  | door (d : Nat) (e : DoorEv)
  /-- What the relay does by itself. -/
  | relay (e : RelayEv)

/-- A connection's first frame and the frames it reads come in at its door. -/
def RelayEv.atDoor : RelayEv → Bool
  | .hello _ => true
  | .read _ (.inbound _) => true
  | _ => false

namespace Port

variable (env : Env) (doorman : Doorman)

def put (p : Port) (d : Nat) (door : Door) : Port := { p with doors := p.doors.insert d door }

/-- The relay takes an event, if there is one for it. -/
def moved (p : Port) : Option RelayEv → Option Port
  | none => some p
  | some e => (relayStep env p.sys e).map fun sys => { p with sys := sys }

/-- What the door makes of an event. -/
def turn (p : Port) (d : Nat) (e : DoorEv) : Option (Option RelayEv × Door) :=
  (p.doors.lookup d).bind fun door => door.step env doorman p.sys.shutdown p.sys.registry.nextConnectionId e

/-- What an event is to the relay. -/
def relays (p : Port) : PortEv → Option RelayEv
  | .accept => none
  | .door d e => (p.turn env doorman d e).bind (·.1)
  | .relay e => some e

def step (p : Port) : PortEv → Option Port
  | .accept => some { p with doors := p.doors.insert p.nextDoor {}, nextDoor := p.nextDoor + 1 }
  | .door d e => (p.turn env doorman d e).bind fun (r, door) => (p.put d door).moved env r
  | .relay e => if e.atDoor then none else p.moved env (some e)

end Port

/-- The states of the port that some run leads to, each of whose steps the relay may take. -/
abbrev PortReach (env : Env) (doorman : Doorman) (ok : Sys → RelayEv → Prop) :=
  Reach (Port.step env doorman) {} fun p e => ∀ r, p.relays env doorman e = some r → ok p.sys r

/-! ## What a door keeps -/

/-- What a frame became that a reader was given. -/
def Branch.heard : Branch → Option Inbound
  | .inbound (.decoded frame) => some (.decoded frame)
  | .inbound (.undecodable error) => some (.undecodable error)
  | _ => none

def Conn.heard (conn : Conn) : List Inbound := conn.turns.filterMap Branch.heard

def DoorStage.serves : DoorStage → Option Nat
  | .serving c _ => some c
  | _ => none

/-- What a stream opens with. -/
def openingOf (arrived : Bytes) : Option Yield :=
  match nextPayload arrived with
  | .more => none
  | .refuse error => some (.failed error)
  | .item payload _ => some (.payload payload)

section
variable (env : Env) (doorman : Doorman)

/-- Why a connection may be turned away: nothing came in time, or what came first was no good. -/
def Refusal (arrived : Bytes) (code : ErrorCode) (message : String) : Prop :=
  (code = .helloTimeout ∧ message = "no hello within " ++ doorman.helloDebug) ∨
    ∃ y, openingOf arrived = some y ∧ admission env doorman y = .refused code message

/-- What has been given out opened the connection, and then went to its reader. -/
structure Serves (arrived : Bytes) (taken : List Bytes) (left : Bytes) (conn : Conn) : Prop where
  parted : Parted arrived taken left
  greeted : ∃ first rest frame, taken = first :: rest ∧ Decode.decode Decode.clientFrameOf first = .ok frame ∧
    admitted env frame = .ok conn.name ∧ conn.heard = rest.map fun bytes => inboundOf doorman (.payload bytes)

def Door.Kept (s : Sys) (door : Door) : DoorStage → Prop
  | .peeking => door.inbox = door.arrived ∧ door.taken = [] ∧ door.said = []
  | .admitting reader => reader.Sound ∧ reader.pending ++ door.inbox = door.arrived ∧ door.taken = [] ∧ door.said = []
  | .refusing code message => Refusal env doorman door.arrived code message ∧ door.said = []
  | .transfer =>
    env.blobs = true ∧ door.inbox = door.arrived ∧ (∃ first rest, door.arrived = first :: rest ∧ first ≠ 0) ∧ door.said = []
  | .serving c reader => door.said = [] ∧ reader.Sound ∧ ∃ conn, s.conns.lookup c = some conn ∧
      Serves env doorman door.arrived door.taken (reader.pending ++ door.inbox) conn
  | .shut => door.said = [] ∨ ∃ code message, Refusal env doorman door.arrived code message ∧
      door.said = [Client.closeWith code message]

end

section
variable {env : Env} {doorman : Doorman} {s t : Sys} {door door' : Door} {reader reader' : FrameReader}

theorem openingOf_append {arrived : Bytes} {y : Yield} (h : openingOf arrived = some y) (chunk : Bytes) :
    openingOf (arrived ++ chunk) = some y := by
  unfold openingOf at h ⊢
  cases hnext : nextPayload arrived with
  | more =>
    rw [hnext] at h
    cases h
  | refuse error | item payload rest =>
    rw [hnext] at h
    rw [nextPayload_append chunk (by simp [hnext]), hnext]
    exact h

theorem Refusal.arrive {arrived : Bytes} {code : ErrorCode} {message : String}
    (h : Refusal env doorman arrived code message) (chunk : Bytes) : Refusal env doorman (arrived ++ chunk) code message := by
  rcases h with htimeout | ⟨y, hopening, hrefused⟩
  · exact .inl htimeout
  · exact .inr ⟨y, openingOf_append hopening chunk, hrefused⟩

theorem Door.Kept.arrive {stage : DoorStage} (h : door.Kept env doorman s stage) (chunk : Bytes) :
    Door.Kept env doorman s { door with inbox := door.inbox ++ chunk, arrived := door.arrived ++ chunk } stage := by
  cases stage with
  | peeking =>
    obtain ⟨hinbox, hrest⟩ := h
    exact ⟨congrArg (· ++ chunk) hinbox, hrest⟩
  | admitting reader =>
    obtain ⟨hsound, hpending, hrest⟩ := h
    refine ⟨hsound, ?_, hrest⟩
    show reader.pending ++ (door.inbox ++ chunk) = door.arrived ++ chunk
    rw [← hpending, List.append_assoc]
  | refusing code message => exact ⟨h.1.arrive chunk, h.2⟩
  | transfer =>
    obtain ⟨hblobs, hinbox, ⟨first, rest, harrived, hfirst⟩, hsaid⟩ := h
    refine ⟨hblobs, congrArg (· ++ chunk) hinbox, ⟨first, rest ++ chunk, ?_, hfirst⟩, hsaid⟩
    show door.arrived ++ chunk = _
    rw [harrived]
    rfl
  | serving c reader =>
    obtain ⟨hsaid, hsound, conn, hc, hparted, hgreeted⟩ := h
    refine ⟨hsaid, hsound, conn, hc, ?_, hgreeted⟩
    have harrive := hparted.arrive chunk
    rw [List.append_assoc] at harrive
    exact harrive
  | shut =>
    rcases h with hsaid | ⟨code, message, hrefusal, hsaid⟩
    · exact .inl hsaid
    · exact .inr ⟨code, message, hrefusal.arrive chunk, hsaid⟩

theorem Door.Kept.hangUp {stage : DoorStage} (h : door.Kept env doorman s stage) :
    Door.Kept env doorman s { door with ended := true } stage := by
  cases stage with
  | _ => exact h

/-- Nobody has been told anything who is still at the door. -/
theorem Door.Kept.unsaid (h : door.Kept env doorman s door.stage) (hopening : door.stage.opening = true) : door.said = [] := by
  cases hst : door.stage with
  | peeking =>
    rw [hst] at h
    exact h.2.2
  | admitting reader =>
    rw [hst] at h
    exact h.2.2.2
  | _ =>
    rw [hst] at hopening
    cases hopening

theorem Door.fills_pending {n : Nat} {inbox : Bytes} (hr : reader.Sound) (h : door.fills reader n = some (reader', inbox)) :
    reader'.Sound ∧ reader'.pending ++ inbox = reader.pending ++ door.inbox := by
  unfold Door.fills at h
  split at h
  · rename_i r hdecode
    obtain ⟨-, hpending, hsound⟩ := FrameReader.decode_none hr hdecode
    split at h
    · cases h
      refine ⟨hsound, ?_⟩
      rw [FrameReader.pending_fill, hpending, List.append_assoc, List.take_append_drop]
    · cases h
  · cases h

/-- What the framing layer gives, and where it stands then. -/
inductive Yields (reader : FrameReader) : Yield → FrameReader → Prop
  | payload (bytes : Bytes) (reader' : FrameReader) : reader'.Sound → nextPayload reader.pending = .item bytes reader'.pending →
      Yields reader (.payload bytes) reader'
  | refused (error : IoError) : nextPayload reader.pending = .refuse error → Yields reader (.failed error) reader
  /-- There is nothing more to read. -/
  | atEnd (y : Yield) (reader' : FrameReader) : reader'.Sound → reader'.pending = reader.pending →
      y = .ended ∨ (∃ text, y = .failed (.other text)) → Yields reader y reader'

theorem Door.yields_yields {y : Yield} (hr : reader.Sound) (h : door.yields reader = some (y, reader')) :
    Yields reader y reader' := by
  unfold Door.yields at h
  split at h
  · rename_i error hdecode
    cases h
    exact .refused error (FrameReader.decode_refused hr hdecode)
  · rename_i payload r hdecode
    cases h
    obtain ⟨hnext, hsound⟩ := FrameReader.decode_some hr hdecode
    exact .payload payload _ hsound hnext
  · rename_i r hdecode
    obtain ⟨-, hpending, hsound⟩ := FrameReader.decode_none hr hdecode
    split at h
    · cases h
      refine .atEnd _ _ hsound hpending ?_
      split
      · exact .inl rfl
      · exact .inr ⟨_, rfl⟩
    · cases h

/-- What happens at a door is nothing to the relay, or brings it a connection, or a frame for one. -/
inductive Door.Turns (env : Env) (doorman : Doorman) (s : Sys) (next : Nat) (door : Door) : Option RelayEv → Door → Prop
  | alone (door' : Door) : door'.Kept env doorman s door'.stage → door'.stage.serves = door.stage.serves →
      door.Turns env doorman s next none door'
  | admits (frame : ClientFrame) (name : Name) (reader : FrameReader) (door' : Door) : admitted env frame = .ok name →
      door.stage.serves = none → door'.stage = .serving next reader →
      (∀ t : Sys, t.conns.lookup next = some { name := name } → door'.Kept env doorman t door'.stage) →
      door.Turns env doorman s next (some (.hello frame)) door'
  | reads (c : Nat) (read : Inbound) (conn : Conn) (reader : FrameReader) (door' : Door) : s.conns.lookup c = some conn →
      door.stage.serves = some c → door'.stage = .serving c reader →
      (∀ (t : Sys) (conn' : Conn), t.conns.lookup c = some conn' → conn'.name = conn.name →
        conn'.turns = conn.turns ++ [.inbound read] → door'.Kept env doorman t door'.stage) →
      door.Turns env doorman s next (some (.read c (.inbound read))) door'

variable {flag : Bool} {next : Nat} {r : Option RelayEv}

/-- The opening of a stream is what the framing layer gives first. -/
theorem Yields.opening {y : Yield} (hy : Yields reader y reader') {inbox : Bytes}
    (hover : y ≠ .ended ∧ ∀ text, y ≠ .failed (.other text)) : openingOf (reader.pending ++ inbox) = some y := by
  refine openingOf_append ?_ inbox
  cases hy with
  | payload bytes _ _ hnext => rw [openingOf, hnext]
  | refused error hnext => rw [openingOf, hnext]
  | atEnd _ _ _ _ hend =>
    rcases hend with rfl | ⟨text, rfl⟩
    · exact absurd rfl hover.1
    · exact absurd rfl (hover.2 text)

theorem Yields.sound {y : Yield} (hy : Yields reader y reader') (hr : reader.Sound) : reader'.Sound := by
  cases hy with
  | payload _ _ hsound => exact hsound
  | refused _ => exact hr
  | atEnd _ _ hsound => exact hsound

/-- Nothing is lost between what was given out and what is left. -/
theorem Yields.parted {y : Yield} (hy : Yields reader y reader') {arrived inbox : Bytes} {taken : List Bytes}
    (h : Parted arrived taken (reader.pending ++ inbox)) : Parted arrived (taken ++ y.taken) (reader'.pending ++ inbox) := by
  cases hy with
  | payload bytes reader' _ hnext =>
    refine h.take ?_
    rw [nextPayload_append inbox (by simp [hnext]), hnext]
  | refused error =>
    show Parted arrived (taken ++ []) _
    rw [List.append_nil]
    exact h
  | atEnd y _ _ hpending hend =>
    have htaken : y.taken = [] := by rcases hend with rfl | ⟨text, rfl⟩ <;> rfl
    rw [hpending, htaken, List.append_nil]
    exact h

theorem admission_admitted {y : Yield} {frame : ClientFrame} {name : Name} (h : admission env doorman y = .admitted frame name) :
    ∃ bytes, y = .payload bytes ∧ Decode.decode Decode.clientFrameOf bytes = .ok frame ∧ admitted env frame = .ok name := by
  cases y with
  | ended => cases h
  | failed error =>
    unfold admission at h
    dsimp only at h
    split at h <;> cases h
  | payload bytes =>
    refine ⟨bytes, rfl, ?_⟩
    unfold admission at h
    dsimp only at h
    split at h
    · cases h
    · rename_i frame' hdecode
      split at h
      · rename_i name' hadmitted
        cases h
        exact ⟨hdecode, hadmitted⟩
      · cases h

theorem Door.opens_turns {y : Yield} (hst : door.stage = .admitting reader) (hk : door.Kept env doorman s door.stage)
    (hy : Yields reader y reader') (h : door.opens env doorman next y reader' = (r, door')) :
    door.Turns env doorman s next r door' := by
  rw [hst] at hk
  obtain ⟨hsound, hpending, htaken, hsaid⟩ := hk
  have hserves : door.stage.serves = none := by rw [hst]; rfl
  -- a verdict other than silence is on the opening of the stream
  have hopening : admission env doorman y ≠ .silent → openingOf door.arrived = some y := by
    intro hne
    rw [← hpending]
    refine hy.opening ⟨?_, fun text => ?_⟩
    · rintro rfl
      exact hne rfl
    · rintro rfl
      exact hne rfl
  unfold Door.opens at h
  cases hv : admission env doorman y with
  | silent =>
    rw [hv] at h
    cases h
    exact .alone _ (.inl hsaid) hserves.symm
  | refused code message =>
    rw [hv] at h
    cases h
    exact .alone _ ⟨.inr ⟨y, hopening (by rw [hv]; exact Verdict.noConfusion), hv⟩, hsaid⟩ hserves.symm
  | admitted frame name =>
    rw [hv] at h
    cases h
    obtain ⟨bytes, rfl, hdecode, hadmitted⟩ := admission_admitted hv
    refine .admits frame name reader' _ hadmitted hserves rfl fun t ht => ⟨hsaid, hy.sound hsound, _, ht, ?_, ?_⟩
    · exact hy.parted (htaken ▸ hpending ▸ Parted.start door.arrived)
    · exact ⟨bytes, [], frame, by rw [htaken]; rfl, hdecode, hadmitted, rfl⟩

theorem Door.hears_turns {c : Nat} {y : Yield} (hst : door.stage = .serving c reader) (hk : door.Kept env doorman s door.stage)
    (hy : Yields reader y reader') (h : door.hears doorman c y reader' = (r, door')) :
    door.Turns env doorman s next r door' := by
  rw [hst] at hk
  obtain ⟨hsaid, hsound, conn, hc, hparted, first, rest, frame, htaken, hdecode, hadmitted, hheard⟩ := hk
  cases h
  refine .reads c _ conn reader' _ hc (by rw [hst]; rfl) rfl fun t conn' ht hname hturns => ?_
  refine ⟨hsaid, hy.sound hsound, conn', ht, hy.parted hparted, first, rest ++ y.taken, frame, ?_, hdecode, ?_, ?_⟩
  · show door.taken ++ y.taken = _
    rw [htaken]
    rfl
  · rw [hname]
    exact hadmitted
  · -- what the reader is given is what was taken, if anything was
    have hread : conn'.heard = conn.heard ++ (Branch.heard (.inbound (inboundOf doorman y))).toList := by
      rw [Conn.heard, hturns, List.filterMap_append]
      cases hb : Branch.heard (.inbound (inboundOf doorman y)) <;> simp [Conn.heard, hb]
    rw [hread, hheard, List.map_append]
    congr 1
    cases y with
    | ended => rfl
    | failed error => rfl
    | payload bytes =>
      show _ = [inboundOf doorman (.payload bytes)]
      unfold inboundOf
      dsimp only
      split <;> rfl

theorem Door.step_turns {e : DoorEv} (h : door.step env doorman flag next e = some (r, door'))
    (hk : door.Kept env doorman s door.stage) : door.Turns env doorman s next r door' := by
  have hshut : door.said = [] → door.stage.serves = none →
      door.Turns env doorman s next none { door with stage := .shut } := fun hsaid hserves => .alone _ (.inl hsaid) hserves.symm
  have hopening : door.stage.opening = true → door.stage.serves = none := by
    intro hopening
    cases hst : door.stage with
    | serving c reader =>
      rw [hst] at hopening
      cases hopening
    | _ => rfl
  cases e with
  | arrive chunk =>
    simp only [Door.step] at h
    split at h
    · cases h
    · cases h
      exact .alone _ (hk.arrive chunk) rfl
  | hangUp =>
    cases h
    exact .alone _ hk.hangUp rfl
  | peek =>
    simp only [Door.step] at h
    split at h
    · rename_i first rest hst hinbox
      cases h
      rw [hst] at hk
      obtain ⟨harrived, htaken, hsaid⟩ := hk
      have hserves : door.stage.serves = none := by rw [hst]; rfl
      by_cases hframe : (first = 0 || !env.blobs) = true
      · rw [if_pos hframe]
        refine .alone _ ⟨?_, harrived, htaken, hsaid⟩ hserves.symm
        intro length heq
        cases heq
      · rw [if_neg hframe]
        simp only [Bool.or_eq_true, decide_eq_true_eq, Bool.not_eq_true', not_or, Bool.not_eq_false] at hframe
        refine .alone _ ⟨hframe.2, harrived, ⟨first, rest, ?_, hframe.1⟩, hsaid⟩ hserves.symm
        rw [← hinbox, harrived]
    · rename_i hst hinbox
      split at h
      · cases h
        exact hshut (hk.unsaid (by rw [hst]; rfl)) (by rw [hst]; rfl)
      · cases h
    · cases h
  | elapse =>
    simp only [Door.step] at h
    split at h
    · rename_i hst
      cases h
      exact .alone _ ⟨.inl ⟨rfl, rfl⟩, hk.unsaid hst⟩ (hopening hst).symm
    · cases h
  | leave =>
    simp only [Door.step] at h
    split at h
    · rename_i hst
      cases h
      have hst := (Bool.and_eq_true_iff.mp hst).2
      exact hshut (hk.unsaid hst) (hopening hst)
    · cases h
  | abort =>
    simp only [Door.step] at h
    split at h
    · rename_i hst
      cases h
      exact hshut (hk.unsaid (by rw [hst]; rfl)) (by rw [hst]; rfl)
    · rename_i hst
      cases h
      exact hshut (hk.unsaid (by rw [hst]; rfl)) (by rw [hst]; rfl)
    · rename_i hst
      cases h
      rw [hst] at hk
      exact hshut hk.2 (by rw [hst]; rfl)
    · cases h
  | fill n =>
    simp only [Door.step] at h
    split at h
    · rename_i reader hst
      obtain ⟨⟨reader', inbox⟩, hfills, h⟩ := Option.map_eq_some_iff.mp h
      cases h
      rw [hst] at hk
      obtain ⟨hsound, hpending, hrest⟩ := hk
      obtain ⟨hsound', hleft⟩ := Door.fills_pending hsound hfills
      exact .alone _ ⟨hsound', hleft.trans hpending, hrest⟩ (by rw [hst]; rfl)
    · rename_i c reader hst
      obtain ⟨⟨reader', inbox⟩, hfills, h⟩ := Option.map_eq_some_iff.mp h
      cases h
      rw [hst] at hk
      obtain ⟨hsaid, hsound, conn, hc, hserves⟩ := hk
      obtain ⟨hsound', hleft⟩ := Door.fills_pending hsound hfills
      exact .alone _ ⟨hsaid, hsound', conn, hc, hleft ▸ hserves⟩ (by rw [hst]; rfl)
    · cases h
  | next =>
    simp only [Door.step] at h
    split at h
    · rename_i reader hst
      obtain ⟨⟨y, reader'⟩, hyields, h⟩ := Option.map_eq_some_iff.mp h
      have hk' := hk
      rw [hst] at hk'
      exact Door.opens_turns hst hk (Door.yields_yields hk'.1 hyields) h
    · rename_i c reader hst
      obtain ⟨⟨y, reader'⟩, hyields, h⟩ := Option.map_eq_some_iff.mp h
      have hk' := hk
      rw [hst] at hk'
      exact Door.hears_turns hst hk (Door.yields_yields hk'.2.1 hyields) h
    · cases h
  | fail text =>
    simp only [Door.step] at h
    split at h
    · rename_i hst
      cases h
      exact hshut (hk.unsaid (by rw [hst]; rfl)) (by rw [hst]; rfl)
    · rename_i reader hst
      have hk' := hk
      rw [hst] at hk'
      exact Door.opens_turns hst hk (.atEnd _ reader hk'.1 rfl (.inr ⟨text, rfl⟩)) (Option.some.inj h)
    · rename_i c reader hst
      have hk' := hk
      rw [hst] at hk'
      exact Door.hears_turns hst hk (.atEnd _ reader hk'.2.1 rfl (.inr ⟨text, rfl⟩)) (Option.some.inj h)
    · cases h
  | wrote written =>
    simp only [Door.step] at h
    split at h
    · rename_i code message hst
      cases h
      rw [hst] at hk
      obtain ⟨hrefusal, hsaid⟩ := hk
      refine .alone _ ?_ (by rw [hst]; rfl)
      cases written with
      | false => exact .inl hsaid
      | true =>
        refine .inr ⟨code, message, hrefusal, ?_⟩
        show door.said ++ _ = _
        rw [hsaid]
        rfl
    · cases h

end

/-! ## The relay behind the doors -/

section
variable {env : Env} {doorman : Doorman} {s t : Sys}

theorem Conn.Moves.heard {c : Nat} {conn conn' : Conn} {e : RelayEv} (h : conn.Moves env c e conn')
    (he : ∀ read, e ≠ .read c (.inbound read)) : conn'.heard = conn.heard := by
  have hturns : conn'.turns = conn.turns → conn'.heard = conn.heard := fun h => by rw [Conn.heard, h, Conn.heard]
  cases h with
  | drives e flag conn' hd => exact hturns hd.kept.turns
  | act now order conn' late turn call rest writer answer _ hcalls => exact hturns hcalls.kept.1
  | read branch late writer hst =>
    rw [Conn.heard, List.filterMap_append, Conn.heard]
    cases branch with
    | inbound read => exact absurd rfl (he read)
    | _ => exact List.append_nil _
  | _ => exact hturns rfl

/-- A connection hears only what its own door brings. -/
theorem Step.heard {e : RelayEv} (hs : Step env s e t) (hr : RelayInv env s) {j : Nat} {x : Conn}
    (hj : s.conns.lookup j = some x) (he : ∀ read, e ≠ .read j (.inbound read)) :
    ∃ x', t.conns.lookup j = some x' ∧ x'.name = x.name ∧ x'.heard = x.heard := by
  obtain ⟨x', hx'⟩ := Option.isSome_iff_exists.mp (hs.stays (by rw [hj]; rfl))
  rcases hs.moves hr hx' with ⟨hnone, -⟩ | ⟨y, hy, hm⟩
  · rw [hj] at hnone
    cases hnone
  · cases hj.symm.trans hy
    exact ⟨x', hx', hm.grows.1, hm.heard he⟩

/-- Nothing but a `hello` makes a connection. -/
theorem Step.known {e : RelayEv} (hs : Step env s e t) (he : ∀ frame, e ≠ .hello frame) {j : Nat} {x' : Conn}
    (hj : t.conns.lookup j = some x') : ∃ x, s.conns.lookup j = some x := by
  have hput : ∀ {u : Sys} {c : Nat} {conn conn' : Conn}, u.conns.lookup c = some conn →
      (u.put c conn').conns.lookup j = some x' → ∃ x, u.conns.lookup j = some x := by
    intro u c conn conn' hc hj
    rcases Sys.lookup_put_some hj with ⟨rfl, -⟩ | ⟨-, hj⟩
    · exact ⟨conn, hc⟩
    · exact ⟨x', hj⟩
  cases hs with
  | hello frame => exact absurd rfl (he frame)
  | insert c conn registry hc => exact hput hc hj
  | drive e c conn conn' hc => exact hput hc hj
  | read c branch conn writer hc => exact hput hc hj
  | act c now order conn conn' late turn call rest writer answer s' hc hst ha hc' =>
    obtain ⟨y, hy⟩ := hput hc' hj
    obtain ⟨x, hx, -⟩ := (answer_answers hc ha).find hc hy
    exact ⟨x, hx⟩
  | drop c conn registry hc => exact hput hc hj
  | forget c conn hc => exact hput hc hj
  | transfer e store => exact ⟨x', hj⟩
  | shutdown => exact ⟨x', hj⟩

theorem Door.Kept.mono {door : Door} {stage : DoorStage} (h : door.Kept env doorman s stage)
    (hm : ∀ c, stage.serves = some c → ∀ conn, s.conns.lookup c = some conn →
      ∃ conn', t.conns.lookup c = some conn' ∧ conn'.name = conn.name ∧ conn'.heard = conn.heard) :
    door.Kept env doorman t stage := by
  cases stage with
  | serving c reader =>
    obtain ⟨hsaid, hsound, conn, hc, hparted, first, rest, frame, htaken, hdecode, hadmitted, hheard⟩ := h
    obtain ⟨conn', hc', hname, hheard'⟩ := hm c rfl conn hc
    exact ⟨hsaid, hsound, conn', hc', hparted, first, rest, frame, htaken, hdecode, hname ▸ hadmitted, hheard'.trans hheard⟩
  | _ => exact h

end

structure PortInv (env : Env) (doorman : Doorman) (p : Port) : Prop where
  relay : RelayInv env p.sys
  below : ∀ d door, p.doors.lookup d = some door → d < p.nextDoor
  kept : ∀ d door, p.doors.lookup d = some door → door.Kept env doorman p.sys door.stage
  door : ∀ c conn, p.sys.conns.lookup c = some conn → ∃ d door, p.doors.lookup d = some door ∧ door.stage.serves = some c
  one : ∀ c d door d' door', p.doors.lookup d = some door → p.doors.lookup d' = some door' →
    door.stage.serves = some c → door'.stage.serves = some c → d = d'

section
variable {env : Env} {doorman : Doorman} {p p' : Port} {d : Nat} {door door' : Door}

theorem PortInv.init : PortInv env doorman {} :=
  ⟨.init, fun _ _ h => (by cases h), fun _ _ h => (by cases h), fun _ _ h => (by cases h), fun _ _ _ _ _ h => (by cases h)⟩

theorem Port.lookup_put (p : Port) (d : Nat) (door : Door) : (p.put d door).doors.lookup d = some door :=
  AList.lookup_insert _

theorem Port.lookup_put_ne {j : Nat} (h : j ≠ d) (door : Door) : (p.put d door).doors.lookup j = p.doors.lookup j :=
  AList.lookup_insert_ne h

/-- The connection a served one belongs to is known. -/
theorem PortInv.known (h : PortInv env doorman p) (hd : p.doors.lookup d = some door) {c : Nat}
    (hserves : door.stage.serves = some c) : ∃ conn, p.sys.conns.lookup c = some conn := by
  have hk := h.kept d door hd
  cases hst : door.stage with
  | serving c' reader =>
    rw [hst] at hk hserves
    cases hserves
    obtain ⟨-, -, conn, hc, -⟩ := hk
    exact ⟨conn, hc⟩
  | _ =>
    rw [hst] at hserves
    cases hserves

theorem PortInv.accept (h : PortInv env doorman p) :
    PortInv env doorman { p with doors := p.doors.insert p.nextDoor {}, nextDoor := p.nextDoor + 1 } := by
  have hold : ∀ {j x}, (p.doors.insert p.nextDoor {}).lookup j = some x → x.stage.serves ≠ none → p.doors.lookup j = some x := by
    intro j x hj hserves
    rcases Map.lookup_insert_some hj with ⟨-, rfl⟩ | ⟨-, hj⟩
    · exact absurd rfl hserves
    · exact hj
  refine ⟨h.relay, fun j x hj => ?_, fun j x hj => ?_, fun c conn hc => ?_, fun c j x j' x' hj hj' hx hx' => ?_⟩
  · rcases Map.lookup_insert_some hj with ⟨rfl, -⟩ | ⟨-, hj⟩
    · exact Nat.lt_succ_self _
    · exact Nat.lt_succ_of_lt (h.below j x hj)
  · rcases Map.lookup_insert_some hj with ⟨-, rfl⟩ | ⟨-, hj⟩
    · exact ⟨rfl, rfl, rfl⟩
    · exact h.kept j x hj
  · obtain ⟨j, x, hj, hx⟩ := h.door c conn hc
    refine ⟨j, x, ?_, hx⟩
    show (p.doors.insert p.nextDoor {}).lookup j = some x
    rw [AList.lookup_insert_ne (Nat.ne_of_lt (h.below j x hj)), hj]
  · exact h.one c j x j' x' (hold hj (by rw [hx]; exact Option.some_ne_none c)) (hold hj' (by rw [hx']; exact Option.some_ne_none c)) hx hx'

/-- What the relay does by itself. -/
theorem PortInv.relayed (h : PortInv env doorman p) {e : RelayEv} (he : e.atDoor = false) {sys : Sys}
    (hs : relayStep env p.sys e = some sys) : PortInv env doorman { p with sys := sys } := by
  have hstep := relayStep_step hs
  have hread : ∀ {j} read, e ≠ .read j (.inbound read) := by
    rintro j read rfl
    cases he
  have hhello : ∀ frame, e ≠ .hello frame := by
    rintro frame rfl
    cases he
  refine ⟨hstep.relayInv h.relay, h.below, fun j x hj => ?_, fun c conn hc => ?_, h.one⟩
  · exact (h.kept j x hj).mono fun c _ conn hc => hstep.heard h.relay hc hread
  · obtain ⟨x, hx⟩ := hstep.known hhello hc
    exact h.door c x hx

/-- A door is put back, serving whom it served. -/
theorem PortInv.put (h : PortInv env doorman p) (hd : p.doors.lookup d = some door)
    (hserves : door'.stage.serves = door.stage.serves) {sys : Sys} (hrelay : RelayInv env sys)
    (hk : door'.Kept env doorman sys door'.stage)
    (hothers : ∀ j x, j ≠ d → p.doors.lookup j = some x → x.Kept env doorman sys x.stage)
    (hknown : ∀ c conn, sys.conns.lookup c = some conn → ∃ x, p.sys.conns.lookup c = some x) :
    PortInv env doorman { p.put d door' with sys := sys } := by
  -- every door found after was there before, serving the same
  have hback : ∀ {j x}, (p.put d door').doors.lookup j = some x →
      ∃ y, p.doors.lookup j = some y ∧ x.stage.serves = y.stage.serves := by
    intro j x hj
    rcases Map.lookup_insert_some hj with ⟨rfl, rfl⟩ | ⟨-, hj⟩
    · exact ⟨door, hd, hserves⟩
    · exact ⟨x, hj, rfl⟩
  refine ⟨hrelay, fun j x hj => ?_, fun j x hj => ?_, fun c conn hc => ?_, fun c j x j' x' hj hj' hx hx' => ?_⟩
  · obtain ⟨y, hy, -⟩ := hback hj
    exact h.below j y hy
  · rcases Map.lookup_insert_some hj with ⟨-, rfl⟩ | ⟨hne, hj⟩
    · exact hk
    · exact hothers j x hne hj
  · obtain ⟨conn, hc⟩ := hknown c conn hc
    obtain ⟨j, x, hj, hx⟩ := h.door c conn hc
    by_cases e : j = d
    · subst e
      cases hd.symm.trans hj
      exact ⟨j, door', p.lookup_put j door', hserves.trans hx⟩
    · exact ⟨j, x, (Port.lookup_put_ne e door').trans hj, hx⟩
  · obtain ⟨y, hy, hys⟩ := hback hj
    obtain ⟨y', hy', hys'⟩ := hback hj'
    exact h.one c j y j' y' hy hy' (hys.symm.trans hx) (hys'.symm.trans hx')

/-- A door brings a connection. -/
theorem PortInv.admitted (h : PortInv env doorman p) (hd : p.doors.lookup d = some door) (hserves : door.stage.serves = none)
    {frame : ClientFrame} {name : Name} (hadmitted : admitted env frame = .ok name) {reader : FrameReader}
    (hst : door'.stage = .serving p.sys.registry.nextConnectionId reader)
    (hk : ∀ t : Sys, t.conns.lookup p.sys.registry.nextConnectionId = some { name := name } →
      door'.Kept env doorman t door'.stage) {sys : Sys} (hs : relayStep env p.sys (.hello frame) = some sys) :
    PortInv env doorman { p.put d door' with sys := sys } := by
  have hstep := relayStep_step hs
  have hsys : sys.conns = (p.sys.put p.sys.registry.nextConnectionId { name := name }).conns := by
    rw [relayStep, hadmitted] at hs
    cases hs
    rfl
  -- no door serves the id that is drawn
  have hfresh : ∀ {j x}, p.doors.lookup j = some x → x.stage.serves ≠ some p.sys.registry.nextConnectionId := by
    intro j x hj hx
    obtain ⟨conn, hc⟩ := h.known hj hx
    exact Nat.lt_irrefl _ (h.relay.below _ conn hc)
  have hserves' : door'.stage.serves = some p.sys.registry.nextConnectionId := by rw [hst]; rfl
  have hnew : sys.conns.lookup p.sys.registry.nextConnectionId = some { name := name } := by
    rw [hsys, Sys.lookup_put, if_pos rfl]
  refine ⟨hstep.relayInv h.relay, fun j x hj => ?_, fun j x hj => ?_, fun c conn hc => ?_, fun c j x j' x' hj hj' hx hx' => ?_⟩
  · rcases Map.lookup_insert_some hj with ⟨rfl, -⟩ | ⟨-, hj⟩
    · exact h.below j door hd
    · exact h.below j x hj
  · rcases Map.lookup_insert_some hj with ⟨-, rfl⟩ | ⟨-, hj⟩
    · exact hk sys hnew
    · exact (h.kept j x hj).mono fun c _ conn hc => hstep.heard h.relay hc fun _ => RelayEv.noConfusion
  · rw [hsys] at hc
    rcases Sys.lookup_put_some hc with ⟨rfl, -⟩ | ⟨-, hc⟩
    · exact ⟨d, door', p.lookup_put d door', hserves'⟩
    · obtain ⟨j, x, hj, hx⟩ := h.door c conn hc
      have hne : j ≠ d := by
        rintro rfl
        cases hd.symm.trans hj
        rw [hserves] at hx
        cases hx
      exact ⟨j, x, (Port.lookup_put_ne hne door').trans hj, hx⟩
  · rcases Map.lookup_insert_some hj with ⟨rfl, rfl⟩ | ⟨-, hold⟩
    · rcases Map.lookup_insert_some hj' with ⟨rfl, -⟩ | ⟨-, hold'⟩
      · rfl
      · cases hserves'.symm.trans hx
        exact absurd hx' (hfresh hold')
    · rcases Map.lookup_insert_some hj' with ⟨rfl, rfl⟩ | ⟨-, hold'⟩
      · cases hserves'.symm.trans hx'
        exact absurd hx (hfresh hold)
      · exact h.one c j x j' x' hold hold' hx hx'

theorem relayStep_read {s t : Sys} {c : Nat} {branch : Branch} (h : relayStep env s (.read c branch) = some t) :
    ∃ conn conn', s.conns.lookup c = some conn ∧ t.conns.lookup c = some conn' ∧ conn'.name = conn.name ∧
      conn'.turns = conn.turns ++ [branch] := by
  cases relayStep_step h with
  | drive e c conn conn' hc hd => cases hd
  | read c branch conn writer hc => exact ⟨conn, _, hc, (Sys.lookup_put ..).trans (if_pos rfl), rfl, rfl⟩

/-- A door brings a frame to the connection it serves. -/
theorem PortInv.read (h : PortInv env doorman p) (hd : p.doors.lookup d = some door) {c : Nat} {conn : Conn}
    (hc : p.sys.conns.lookup c = some conn) (hserves : door.stage.serves = some c) {reader : FrameReader}
    (hst : door'.stage = .serving c reader) {read : Inbound}
    (hk : ∀ (t : Sys) (conn' : Conn), t.conns.lookup c = some conn' → conn'.name = conn.name →
      conn'.turns = conn.turns ++ [.inbound read] → door'.Kept env doorman t door'.stage) {sys : Sys}
    (hs : relayStep env p.sys (.read c (.inbound read)) = some sys) : PortInv env doorman { p.put d door' with sys := sys } := by
  have hstep := relayStep_step hs
  obtain ⟨x, conn', hx, hc', hname, hturns⟩ := relayStep_read hs
  cases hc.symm.trans hx
  refine h.put hd (by rw [hst, hserves]; rfl) (hstep.relayInv h.relay) (hk sys conn' hc' hname hturns) ?_ ?_
  · intro j y hne hj
    refine (h.kept j y hj).mono fun c' hy x hx => hstep.heard h.relay hx fun read' he => ?_
    -- it would be this door's connection
    cases he
    exact hne (h.one c j y d door hj hd hy hserves)
  · intro j x hj
    exact hstep.known (fun _ => RelayEv.noConfusion) hj

theorem PortInv.step (h : PortInv env doorman p) {e : PortEv} (hs : p.step env doorman e = some p') :
    PortInv env doorman p' := by
  cases e with
  | accept =>
    cases hs
    exact h.accept
  | relay e =>
    simp only [Port.step] at hs
    split at hs
    · cases hs
    · rename_i he
      obtain ⟨sys, hsys, rfl⟩ := Option.map_eq_some_iff.mp hs
      exact h.relayed (Bool.eq_false_iff.mpr he) hsys
  | door d e =>
    obtain ⟨⟨r, door'⟩, hturn, hs⟩ := Option.bind_eq_some_iff.mp hs
    obtain ⟨door, hd, hturn⟩ := Option.bind_eq_some_iff.mp hturn
    cases Door.step_turns hturn (h.kept d door hd) with
    | alone _ hk hserves =>
      cases hs
      exact h.put hd hserves h.relay hk (fun j x _ hj => h.kept j x hj) fun c conn hc => ⟨conn, hc⟩
    | admits frame name reader _ hadmitted hserves hst hk =>
      obtain ⟨sys, hsys, rfl⟩ := Option.map_eq_some_iff.mp hs
      exact h.admitted hd hserves hadmitted hst hk hsys
    | reads c read conn reader _ hc hserves hst hk =>
      obtain ⟨sys, hsys, rfl⟩ := Option.map_eq_some_iff.mp hs
      exact h.read hd hc hserves hst hk hsys

theorem port_inv {ok : Sys → RelayEv → Prop} (h : PortReach env doorman ok p) : PortInv env doorman p :=
  h.inv .init fun _ _ _ hi _ hs => hi.step hs

/-- What an event at the port is to the relay is one of the relay's events, or nothing. -/
theorem Port.step_relays {e : PortEv} (h : p.step env doorman e = some p') :
    (p.relays env doorman e = none ∧ p'.sys = p.sys) ∨
      ∃ r, p.relays env doorman e = some r ∧ relayStep env p.sys r = some p'.sys := by
  cases e with
  | accept =>
    cases h
    exact .inl ⟨rfl, rfl⟩
  | relay e =>
    simp only [Port.step] at h
    split at h
    · cases h
    · obtain ⟨sys, hsys, rfl⟩ := Option.map_eq_some_iff.mp h
      exact .inr ⟨e, rfl, hsys⟩
  | door d e =>
    obtain ⟨⟨r, door'⟩, hturn, h⟩ := Option.bind_eq_some_iff.mp h
    have hrelays : p.relays env doorman (.door d e) = r := by
      show (p.turn env doorman d e).bind (·.1) = r
      rw [hturn]
      rfl
    cases r with
    | none =>
      cases h
      exact .inl ⟨hrelays, rfl⟩
    | some r =>
      obtain ⟨sys, hsys, rfl⟩ := Option.map_eq_some_iff.mp h
      exact .inr ⟨r, hrelays, hsys⟩

/-- Behind its doors the relay is the relay. -/
theorem relayReach {ok : Sys → RelayEv → Prop} (h : PortReach env doorman ok p) : RelayReach env ok p.sys := by
  refine h.inv (P := fun p => RelayReach env ok p.sys) .init fun p e p' hp hok hs => ?_
  rcases Port.step_relays hs with ⟨-, hsys⟩ | ⟨r, hr, hsys⟩
  · rw [hsys]
    exact hp
  · exact .step r hp (hok r hr) hsys

/-- Only arrivals add to what has arrived. -/
theorem Door.step_arrived {flag : Bool} {next : Nat} {e : DoorEv} {r : Option RelayEv}
    (h : door.step env doorman flag next e = some (r, door')) :
    door'.arrived = door.arrived ∨ ∃ chunk, e = .arrive chunk ∧ door'.arrived = door.arrived ++ chunk := by
  have hopens : ∀ {y reader}, door.opens env doorman next y reader = (r, door') → door'.arrived = door.arrived := by
    intro y reader h
    unfold Door.opens at h
    split at h <;> cases h <;> rfl
  have hhears : ∀ {c y reader}, door.hears doorman c y reader = (r, door') → door'.arrived = door.arrived := by
    intro c y reader h
    cases h
    rfl
  cases e with
  | arrive chunk =>
    simp only [Door.step] at h
    split at h
    · cases h
    · cases h
      exact .inr ⟨chunk, rfl, rfl⟩
  | fill n =>
    simp only [Door.step] at h
    split at h
    · obtain ⟨x, -, h⟩ := Option.map_eq_some_iff.mp h
      cases h
      exact .inl rfl
    · obtain ⟨x, -, h⟩ := Option.map_eq_some_iff.mp h
      cases h
      exact .inl rfl
    · cases h
  | next =>
    simp only [Door.step] at h
    split at h
    · obtain ⟨x, -, h⟩ := Option.map_eq_some_iff.mp h
      exact .inl (hopens h)
    · obtain ⟨x, -, h⟩ := Option.map_eq_some_iff.mp h
      exact .inl (hhears h)
    · cases h
  | fail text =>
    simp only [Door.step] at h
    split at h
    · cases h
      exact .inl rfl
    · exact .inl (hopens (Option.some.inj h))
    · exact .inl (hhears (Option.some.inj h))
    · cases h
  | _ =>
    simp only [Door.step] at h
    repeat (first | (split at h) | (cases h <;> exact .inl rfl))

/-- Whom a door serves it goes on serving. -/
theorem Door.Turns.serves {s : Sys} {next : Nat} {r : Option RelayEv} (h : door.Turns env doorman s next r door') {c : Nat}
    (hserves : door.stage.serves = some c) : door'.stage.serves = some c := by
  cases h with
  | alone _ _ hsame => exact hsame.trans hserves
  | admits frame name reader _ _ hnone =>
    rw [hnone] at hserves
    cases hserves
  | reads c' read conn reader _ _ hserves' hst =>
    cases hserves'.symm.trans hserves
    rw [hst]
    rfl

/-- What becomes of a door. -/
theorem PortInv.step_door (h : PortInv env doorman p) {e : PortEv} (hs : p.step env doorman e = some p')
    (hd : p.doors.lookup d = some door) :
    ∃ door', p'.doors.lookup d = some door' ∧ (∀ c, door.stage.serves = some c → door'.stage.serves = some c) ∧
      (door'.arrived = door.arrived ∨ ∃ chunk, e = .door d (.arrive chunk) ∧ door'.arrived = door.arrived ++ chunk) := by
  cases e with
  | accept =>
    cases hs
    exact ⟨door, (AList.lookup_insert_ne (Nat.ne_of_lt (h.below d door hd))).trans hd, fun _ => id, .inl rfl⟩
  | relay e =>
    simp only [Port.step] at hs
    split at hs
    · cases hs
    · obtain ⟨sys, hsys, rfl⟩ := Option.map_eq_some_iff.mp hs
      exact ⟨door, hd, fun _ => id, .inl rfl⟩
  | door d' e =>
    obtain ⟨⟨r, x'⟩, hturn, hs⟩ := Option.bind_eq_some_iff.mp hs
    obtain ⟨x, hx, hturn⟩ := Option.bind_eq_some_iff.mp hturn
    have hdoors : p'.doors = (p.put d' x').doors := by
      cases r with
      | none =>
        cases hs
        rfl
      | some r =>
        obtain ⟨sys, -, rfl⟩ := Option.map_eq_some_iff.mp hs
        rfl
    rw [hdoors]
    by_cases hsame : d = d'
    · subst hsame
      cases hd.symm.trans hx
      refine ⟨x', p.lookup_put d x', fun c => (Door.step_turns hturn (h.kept d door hd)).serves, ?_⟩
      rcases Door.step_arrived hturn with hsame | ⟨chunk, rfl, harrived⟩
      · exact .inl hsame
      · exact .inr ⟨chunk, rfl, harrived⟩
    · exact ⟨door, (Port.lookup_put_ne hsame x').trans hd, fun _ => id, .inl rfl⟩

/-- What becomes of a connection. -/
theorem PortInv.step_conn (h : PortInv env doorman p) {e : PortEv} (hs : p.step env doorman e = some p') {c : Nat}
    {conn : Conn} (hc : p.sys.conns.lookup c = some conn) :
    ∃ conn', p'.sys.conns.lookup c = some conn' ∧ conn.log <+: conn'.log := by
  rcases Port.step_relays hs with ⟨-, hsys⟩ | ⟨r, -, hsys⟩
  · rw [hsys]
    exact ⟨conn, hc, List.prefix_rfl⟩
  · have hstep := relayStep_step hsys
    obtain ⟨conn', hc', -⟩ := hstep.grows h.relay hc
    exact ⟨conn', hc', hstep.keeps_log h.relay hc hc'⟩

theorem the_door_is_faithful {ok : Sys → RelayEv → Prop} (h : PortReach env doorman ok p) :
    RelayReach env ok p.sys ∧
    -- every connection came in at one door, by a `hello` that was admitted, and reads what arrived after it
    (∀ c conn, p.sys.conns.lookup c = some conn → ∃ d door reader first rest frame,
      (p.doors.lookup d = some door ∧ door.stage = .serving c reader ∧
        ∀ d' door', p.doors.lookup d' = some door' → door'.stage.serves = some c → d' = d) ∧
      Parted door.arrived (first :: rest) (reader.pending ++ door.inbox) ∧
      Decode.decode Decode.clientFrameOf first = .ok frame ∧ admitted env frame = .ok conn.name ∧
      conn.heard = rest.map fun bytes => inboundOf doorman (.payload bytes)) ∧
    ∀ d door, p.doors.lookup d = some door →
      -- the HTTP side finds every byte
      (door.stage = .transfer → env.blobs = true ∧ door.inbox = door.arrived ∧ door.arrived.head? ≠ some 0) ∧
      -- and whoever is told anything is told once, and why
      (door.said = [] ∨ ∃ code message, Refusal env doorman door.arrived code message ∧
        door.said = [Client.closeWith code message]) := by
  have hinv := port_inv h
  refine ⟨relayReach h, fun c conn hc => ?_, fun d door hd => ⟨fun hst => ?_, ?_⟩⟩
  · obtain ⟨d, door, hd, hserves⟩ := hinv.door c conn hc
    have hk := hinv.kept d door hd
    cases hst : door.stage with
    | serving c' reader =>
      rw [hst] at hk
      have hsame : c' = c := by
        rw [hst] at hserves
        exact Option.some.inj hserves
      subst hsame
      obtain ⟨-, -, conn', hc', hparted, first, rest, frame, htaken, hdecode, hadmitted, hheard⟩ := hk
      cases hc.symm.trans hc'
      rw [htaken] at hparted
      exact ⟨d, door, reader, first, rest, frame, ⟨hd, hst, fun d' door' hd' hserves' =>
        hinv.one c' d' door' d door hd' hd hserves' hserves⟩, hparted, hdecode, hadmitted, hheard⟩
    | _ =>
      rw [hst] at hserves
      cases hserves
  · have hk := hinv.kept d door hd
    rw [hst] at hk
    obtain ⟨hblobs, hinbox, ⟨first, rest, harrived, hfirst⟩, -⟩ := hk
    refine ⟨hblobs, hinbox, ?_⟩
    rw [harrived]
    exact fun hzero => hfirst (Option.some.inj hzero)
  · have hk := hinv.kept d door hd
    cases hst : door.stage with
    | peeking =>
      rw [hst] at hk
      exact .inl hk.2.2
    | admitting reader =>
      rw [hst] at hk
      exact .inl hk.2.2.2
    | refusing code message =>
      rw [hst] at hk
      exact .inl hk.2
    | transfer =>
      rw [hst] at hk
      exact .inl hk.2.2.2
    | serving c reader =>
      rw [hst] at hk
      exact .inl hk.1
    | shut =>
      rw [hst] at hk
      exact hk

end

def plainDoorman : Doorman := ⟨"5s", fun _ => ""⟩

def aliceWire : Bytes := (OmpRelayd.framed (ClientFrame.hello protocolVersion lobby "alice").value.encode).getD []

/-- Alice's greeting comes in two pieces. -/
def knocking : List PortEv :=
  .accept :: [DoorEv.arrive (aliceWire.take 20), .peek, .fill 20, .arrive (aliceWire.drop 20), .fill 53, .next].map (.door 0)

def aliceIn : Port := (run (Port.step plainEnv plainDoorman) {} knocking).getD {}

theorem alice_is_let_in :
    PortReach plainEnv plainDoorman Always aliceIn ∧ aliceIn.sys.conns.lookup 1 = some { name := ⟨lobby, "alice"⟩ } ∧
      ∃ d door reader, aliceIn.doors.lookup d = some door ∧ door.stage = .serving 1 reader ∧
        ∃ first rest frame, Parted door.arrived (first :: rest) (reader.pending ++ door.inbox) ∧
          Decode.decode Decode.clientFrameOf first = .ok frame ∧ admitted plainEnv frame = .ok ⟨lobby, "alice"⟩ := by
  have hr : PortReach plainEnv plainDoorman Always aliceIn :=
    .mono (fun _ _ _ _ _ => trivial) (Reach.of_run knocking .init rfl)
  obtain ⟨d, door, reader, first, rest, frame, ⟨hd, hst, -⟩, hparted, hdecode, hadmitted, -⟩ :=
    (the_door_is_faithful hr).2.1 1 { name := ⟨lobby, "alice"⟩ } rfl
  exact ⟨hr, rfl, d, door, reader, hd, hst, first, rest, frame, hparted, hdecode, hadmitted⟩

end OmpRelayd.Relay
