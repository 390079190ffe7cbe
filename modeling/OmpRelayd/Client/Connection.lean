/-
  OmpRelayd.Client.Connection — the client and the runtime it lives in (extension/src/client.ts:
  `RelayClient`, the frame connection).

  The client's fields are as in the source. Around them stands the runtime: the sockets it was
  handed, which of them still have its listeners and which are destroyed, and the timers that are
  armed, each with what its callback closes over. A timer may fire at any moment while it is armed
  and a socket may say anything in any order, but it is heard only while its listeners are there.
  What the runtime decides by itself (whether the n-th `connect` or `write` throws, what the host
  does in its n-th callback) is the environment's; a host may call `stop` from a callback.

  `history` is what the client did, newest first; no method reads it. Nothing inside a guard
  throws: the work of the client's own handlers is total, and the host is contained by `notify`
  and `report`. A promise's own callbacks run after the method that settled it.
-/

import OmpRelayd.Client.Framing
import OmpRelayd.Client.Requests
import OmpRelayd.Lib.Map
import OmpRelayd.Lib.Run

namespace OmpRelayd.Client

/-- `REQUEST_TIMEOUT_MS` -/
def requestTimeoutMs : Nat := 5000

/-- `HANDSHAKE_TIMEOUT_MS` -/
def handshakeTimeoutMs : Nat := 10000

/-! ## The host -/

inductive ReportLevel where
  | info
  | warn
  | error
  deriving DecidableEq, Repr

inductive Callback where
  | onReport (level : ReportLevel) (message : String)
  | onReady
  | onDelivery (frame : ServerFrame)
  | onDisconnect (reason : String)
  deriving DecidableEq, Repr

def Callback.site : Callback → String
  | .onReport _ _ => "onReport"
  | .onReady => "onReady"
  | .onDelivery _ => "onDelivery"
  | .onDisconnect _ => "onDisconnect"

/-- How a call of a handler ends. A promise it returns may reject later. -/
inductive Ending where
  | returns
  | throws (error : String)
  | promises
  deriving DecidableEq, Repr

structure Reaction where
  stops : Bool := false
  ending : Ending := .returns
  deriving DecidableEq, Repr

structure World where
  room : RoomId
  peer : String
  /-- What the MessagePack library says of a payload it does not take. -/
  description : Bytes → String
  /-- What it makes of text that is not UTF-8. -/
  lossy : Bytes → String
  /-- What the n-th `connect` throws, if it throws. -/
  connect : Nat → Option String
  /-- What the n-th `write` throws, if it throws. -/
  write : Nat → Option String
  /-- `backoffDelay` of an attempt. -/
  delay : Nat → Nat
  /-- What the host does in its n-th callback; `none` where it has no such handler. -/
  host : Nat → Callback → Option Reaction

def World.decode (world : World) (payload : Bytes) : Except String Js :=
  (decodePayload world.description payload).map (js world.lossy)

def World.encodeFrame (world : World) (frame : ClientFrame) : Except String Bytes :=
  (msgpack world.description).encodeFrame frame

/-! ## State -/

inductive ClientState where
  | stopped
  | connecting
  | ready
  deriving DecidableEq, Repr

/-- The fields that hold a timer's handle: `#reconnect`, `#handshake`, `#heartbeat`. -/
inductive Slot where
  | reconnect
  | handshake
  | heartbeat
  deriving DecidableEq, Repr

/-- An armed timer, by its callback. -/
inductive Timer where
  | reconnect
  | handshake (socket : Nat)
  | heartbeat
  | request (key : Key)
  deriving DecidableEq, Repr

structure Socket where
  /-- The client's listeners are on it. -/
  listening : Bool
  destroyed : Bool
  deriving DecidableEq, Repr

/-- An entry of `#pending`. The callback of its deadline holds the entry, which is the one under
    its key as long as the deadline is armed. -/
structure PendingRequest where
  key : Key
  kind : RequestKind
  /-- Which call it is the request of. -/
  request : Nat
  timer : Option Nat
  /-- The encoded frame, until it is written. -/
  unwritten : Option Bytes

/-- A host's promise that has not ended yet, with the run it was attached in. -/
structure Detached where
  site : String
  generation : Nat
  deriving DecidableEq, Repr

inductive Outgoing where
  | hello
  | ping
  | request (request : Nat)
  deriving DecidableEq, Repr

/-- What the client does that can be seen from outside. -/
inductive Effect where
  | started
  | stopped
  | attempted
  /-- Bytes of the current socket. -/
  | heard (socket : Nat) (chunk : Bytes)
  | dispatched (socket : Nat) (frame : ServerFrame)
  | wrote (socket : Nat) (frame : Outgoing) (encoded : Bytes)
  | issued (request : Nat) (kind : RequestKind) (token : String)
  | settled (request : Nat) (settlement : Settlement)
  | called (callback : Callback)
  deriving DecidableEq, Repr

structure RelayClient where
  state : ClientState := .stopped
  stopped : Bool := true
  generation : Nat := 0
  socket : Option Nat := none
  accumulator : Option FrameAccumulator := none
  handles : Slot → Option Nat := fun _ => none
  attempt : Nat := 0
  outageReported : Bool := false
  statedCause : Option String := none
  /-- In the order of insertion. -/
  pending : List PendingRequest := []
  timedOut : List Key := []
  -- the runtime
  sockets : Map Nat Socket := ∅
  nextSocket : Nat := 0
  timers : Map Nat Timer := ∅
  nextTimer : Nat := 0
  detached : List Detached := []
  connects : Nat := 0
  writes : Nat := 0
  calls : Nat := 0
  requests : Nat := 0
  history : List Effect := []

namespace RelayClient

def record (c : RelayClient) (effect : Effect) : RelayClient := { c with history := effect :: c.history }

/-! ## Timers -/

/-- `clearTimeout`, `clearInterval` -/
def disarm (c : RelayClient) (handle : Nat) : RelayClient := { c with timers := c.timers.erase handle }

/-- `setTimeout`, `setInterval`, with the handle kept in a field. -/
def arm (c : RelayClient) (slot : Slot) (timer : Timer) : RelayClient :=
  { c with
    timers := c.timers.insert c.nextTimer timer
    nextTimer := c.nextTimer + 1
    handles := Function.update c.handles slot (some c.nextTimer) }

def clear (c : RelayClient) (slot : Slot) : RelayClient :=
  match c.handles slot with
  | none => c
  | some handle => { c.disarm handle with handles := Function.update c.handles slot none }

def cancelReconnect (c : RelayClient) : RelayClient := c.clear .reconnect

def clearHandshakeDeadline (c : RelayClient) : RelayClient := c.clear .handshake

def clearHeartbeat (c : RelayClient) : RelayClient := c.clear .heartbeat

def armHandshakeDeadline (c : RelayClient) (socket : Nat) : RelayClient :=
  c.clearHandshakeDeadline.arm .handshake (.handshake socket)

def armHeartbeat (c : RelayClient) : RelayClient := c.clearHeartbeat.arm .heartbeat .heartbeat

/-! ## Settling -/

def find (c : RelayClient) (key : Key) : Option PendingRequest := c.pending.find? (·.key = key)

/-- Whether there was a request to settle. -/
def settleKey (c : RelayClient) (key : Key) (outcome : RequestOutcome) : Bool × RelayClient :=
  match c.find key with
  | none => (false, c)
  | some entry =>
    let c := { c with pending := c.pending.filter (·.key ≠ key) }
    let c := match entry.timer with
      | some handle => c.disarm handle
      | none => c
    (true, c.record (.settled entry.request (entry.kind.conclude key.token outcome)))

/-- Settle each of `keys`; whether any was there. -/
def settleAll (c : RelayClient) (keys : List Key) (outcome : RequestOutcome) : Bool × RelayClient :=
  match keys with
  | [] => (false, c)
  | key :: keys =>
    let (answered, c) := c.settleKey key outcome
    let (settled, c) := c.settleAll keys outcome
    (answered || settled, c)

def failPending (c : RelayClient) (error : RequestFailed) : RelayClient :=
  (c.settleAll (c.pending.map (·.key)) (.failed error)).2

/-! ## Stopping -/

/-- `removeAllListeners`, and `destroy` unless it is destroyed already. -/
def release (c : RelayClient) (socket : Nat) : RelayClient :=
  { c with sockets := c.sockets.insert socket ⟨false, true⟩ }

def hangUp (c : RelayClient) : RelayClient :=
  match c.socket with
  | none => { c with accumulator := none }
  | some socket => { c with socket := none, accumulator := none }.release socket

def stop (c : RelayClient) : RelayClient :=
  let c := { c with stopped := true, generation := c.generation + 1, state := .stopped }.record .stopped
  let c := c.cancelReconnect.clearHandshakeDeadline.clearHeartbeat
  ({ c with timedOut := [] }.failPending ⟨.stopped, "the client was stopped", none⟩).hangUp

/-! ## Telling the host -/

section
variable (world : World)

/-- Call the host's handler, if there is one. -/
def invoke (c : RelayClient) (callback : Callback) : Ending × RelayClient :=
  match world.host c.calls callback with
  | none => (.returns, c)
  | some reaction =>
    let c := { c with calls := c.calls + 1 }.record (.called callback)
    (reaction.ending, if reaction.stops then c.stop else c)

/-- A reporter's own failure goes nowhere. -/
def report (c : RelayClient) (level : ReportLevel) (message : String) : RelayClient :=
  (c.invoke world (.onReport level message)).2

def notify (c : RelayClient) (callback : Callback) : RelayClient :=
  match c.invoke world callback with
  | (.returns, c') => c'
  | (.throws error, c') => c'.report world .error s!"the host's {callback.site} handler failed: {error}"
  | (.promises, c') => { c' with detached := ⟨callback.site, c.generation⟩ :: c'.detached }

/-! ## Ending a connection -/

/-- Once in an outage. -/
def reportOutage (c : RelayClient) (message : String) : RelayClient :=
  if c.outageReported then c else { c with outageReported := true }.report world .warn message

def scheduleReconnect (c : RelayClient) (reason : String) : RelayClient :=
  if c.stopped then c
  else
    let c := { c with attempt := c.attempt + 1 }
    let c := c.reportOutage world s!"{reason}; reconnecting in {world.delay c.attempt} ms"
    c.cancelReconnect.arm .reconnect .reconnect

/-- What `closeConnection` does before it looks for a way on. -/
def teardown (c : RelayClient) (socket : Nat) (reason : String) : RelayClient :=
  let c := { c with socket := none, accumulator := none }.clearHandshakeDeadline.clearHeartbeat
  let c := { c with timedOut := [], state := if c.stopped then .stopped else .connecting }
  (c.release socket).failPending ⟨.disconnected, reason, none⟩

def closeConnection (c : RelayClient) (socket : Nat) (reason : String) : RelayClient :=
  if c.socket ≠ some socket then c
  else
    let c := c.teardown socket reason
    -- recovery is armed before the host is told
    let c := if c.stopped then c else c.scheduleReconnect world reason
    c.notify world (.onDisconnect reason)

/-! ## Writing -/

def writeEncoded (c : RelayClient) (frame : Outgoing) (encoded : Bytes) : RelayClient :=
  match c.socket with
  | none => c
  | some socket =>
    let thrown := world.write c.writes
    let c := { c with writes := c.writes + 1 }.record (.wrote socket frame encoded)
    match thrown with
    | some error => c.closeConnection world socket s!"write failed: {error}"
    | none => c.armHeartbeat

def write (c : RelayClient) (what : Outgoing) (frame : ClientFrame) : RelayClient :=
  match world.encodeFrame frame with
  | .error error => c.report world .error s!"refused to send a {frame.type} frame: {error}"
  | .ok encoded => c.writeEncoded world what encoded

/-- `entry.unwritten = null`, on the entry of a call. -/
def markWritten (c : RelayClient) (request : Nat) : RelayClient :=
  { c with pending := c.pending.map fun e => if e.request = request then { e with unwritten := none } else e }

/-- The walk over the map's values, which passes over what is deleted meanwhile. -/
def flushKeys (c : RelayClient) : List Key → RelayClient
  | [] => c
  | key :: keys =>
    match c.find key with
    | none => c.flushKeys keys
    | some entry =>
      match entry.unwritten with
      | none => c.flushKeys keys
      | some encoded =>
        ((c.markWritten entry.request).writeEncoded world (.request entry.request) encoded).flushKeys keys

def flushUnwritten (c : RelayClient) : RelayClient := c.flushKeys world (c.pending.map (·.key))

/-! ## Requests -/

/-- Its deadline runs whether or not the frame can be written yet. -/
def enter (c : RelayClient) (request : Nat) (key : Key) (kind : RequestKind) (encoded : Bytes) : RelayClient :=
  let c :=
    { c with
      pending := c.pending ++ [⟨key, kind, request, some c.nextTimer, some encoded⟩]
      timers := c.timers.insert c.nextTimer (.request key)
      nextTimer := c.nextTimer + 1 }
  if c.state = .ready then (c.writeEncoded world (.request request) encoded).markWritten request else c

def issue (c : RelayClient) (request : Nat) (token : String) (kind : RequestKind) (frame : ClientFrame) : RelayClient :=
  let settle (reason : RequestFailureReason) (message : String) :=
    c.record (.settled request (kind.conclude token (.failed ⟨reason, message, none⟩)))
  let key : Key := ⟨kind.replySpace, token⟩
  if c.stopped then settle .stopped "the client is not running"
  else
    match c.find key with
    | some outstanding =>
      settle .invalidRequest
        s!"a {outstanding.kind.name} with correlation token {jsonString token} is already outstanding"
    | none =>
      if key ∈ c.timedOut then
        settle .invalidRequest
          (s!"a {kind.name} with correlation token {jsonString token} timed out on this connection; " ++
            "its late reply would settle this request instead")
      else
        match world.encodeFrame frame with
        | .error error => settle .invalidRequest error
        | .ok encoded => c.enter world request key kind encoded

/-- `list`, `send`, `announce` and `reserve`. -/
def call (c : RelayClient) (call : Call) : RelayClient :=
  let request := c.requests
  let c := { c with requests := request + 1 }.record (.issued request call.kind call.token)
  match call.frame with
  | .error message => c.record (.settled request (.rejected ⟨.invalidRequest, message, none⟩))
  | .ok frame => c.issue world request call.token call.kind frame

/-! ## Frames of the relay -/

def settle (c : RelayClient) (token : String) (kind : RequestKind) (frame : ServerFrame) : RelayClient :=
  let (settled, c) := c.settleKey ⟨kind.replySpace, token⟩ (.ok frame)
  if settled then c
  else c.report world .info s!"discarded a {kind.name} reply for unknown correlation token {jsonString token}"

/-- The loop of `settleEither` over the reply spaces. -/
def settleFirst (c : RelayClient) (token : String) (outcome : RequestOutcome) : List ReplySpace → Bool × RelayClient
  | [] => (false, c)
  | space :: spaces =>
    match c.settleKey ⟨space, token⟩ outcome with
    | (true, c) => (true, c)
    | (false, c) => c.settleFirst token outcome spaces

def settleEither (c : RelayClient) (token : String) (outcome : RequestOutcome) : Bool × RelayClient :=
  c.settleFirst token outcome replySpaces

/-- `PEER_REPLACED_REPORT` -/
def peerReplacedReport : String :=
  "another session registered this peer name in this room, so the relay displaced this one; " ++
    "reconnecting would displace that session in turn, so OMP Relay has stopped. " ++
    "Give each session its own peer name in its configuration."

/-- An error that is no request's answer. -/
def connectionError (c : RelayClient) (detail : String) : RelayClient :=
  if c.state = .ready then
    { c with statedCause := some s!"the relay reported {detail}" }.report world .error s!"the relay reported {detail}"
  else { c with statedCause := some s!"the relay rejected the handshake: {detail}" }

/-- The request, or the capability, an error is the answer to; whether it was any. -/
def answerError (c : RelayClient) (code : String) (requestId : Option String) (outcome : RequestOutcome) :
    Bool × RelayClient :=
  match requestId with
  | some token => if c.state = .ready then c.settleEither token outcome else (false, c)
  | none =>
    -- a relay that does not know `reserve` cannot name the request it refuses
    if code = "unsupported_frame" ∧ c.state = .ready then
      c.settleAll ((c.pending.map (·.key)).filter (·.space = RequestKind.reserve.replySpace)) outcome
    else (false, c)

def errorDetail (code : String) : Option String → String
  | none => code
  | some message => s!"{code}: {message}"

def handleError (c : RelayClient) (socket : Nat) (code : String) (message requestId : Option String) : RelayClient :=
  let detail := errorDetail code message
  if code = "peer_replaced" then
    ({ c with stopped := true }.report world .error peerReplacedReport).closeConnection world socket peerReplacedReport
  else
    let (settled, c) :=
      c.answerError code requestId
        (.failed ⟨.relayError, s!"the relay rejected the request: {detail}", some code⟩)
    if settled then c else c.connectionError world detail

/-- What `ready` does. -/
def welcome (c : RelayClient) : RelayClient :=
  let c := { c with state := .ready, attempt := 0, outageReported := false }
  (c.clearHandshakeDeadline.armHeartbeat.flushUnwritten world).notify world .onReady

def dispatch (c : RelayClient) (socket : Nat) (frame : ServerFrame) : RelayClient :=
  if c.state = .ready ∧ frame.type = "ready" then
    c.closeConnection world socket "the relay sent a second ready frame"
  else if c.state ≠ .ready ∧ frame.type ≠ "ready" ∧ frame.type ≠ "error" then
    c.report world .warn s!"ignored a {frame.type} frame received before ready"
  else
    match frame with
    | .ready _ => c.welcome world
    | .pong => c
    | .message _ _ _ _ _ => c.notify world (.onDelivery frame)
    | .notice _ _ _ _ _ => c.notify world (.onDelivery frame)
    | .peers requestId _ => c.settle world requestId .list frame
    | .receipt id _ _ => c.settle world id .send frame
    | .accepted id _ _ => c.settle world id .announce frame
    | .reserved requestId _ _ => c.settle world requestId .reserve frame
    | .error code message requestId => c.handleError world socket code message requestId

/-! ## Receiving -/

/-- The loop of `receive`; whether it went through all of the values. -/
def receiveValues (c : RelayClient) (socket : Nat) : List Js → Bool × RelayClient
  | [] => (true, c)
  | value :: values =>
    match validateServerFrame value with
    | .frame frame =>
      let c := (c.record (.dispatched socket frame)).dispatch world socket frame
      if c.socket = some socket then c.receiveValues socket values else (false, c)
    | .ignorable type =>
      let c := c.report world .info s!"ignored an unrecognized {type} frame"
      if c.socket = some socket then c.receiveValues socket values else (false, c)
    | .invalid reason => (false, c.closeConnection world socket s!"malformed frame: {reason}")

def framingName : FramingFailureReason → String
  | .zeroLength => "zero_length"
  | .oversized => "oversized"
  | .undecodable => "undecodable"

def receive (c : RelayClient) (socket : Nat) (chunk : Bytes) : RelayClient :=
  match c.accumulator with
  | none => c
  | some accumulator =>
    if c.socket ≠ some socket then c
    else
      let (outcome, accumulator) := accumulator.push world.decode chunk
      let (through, c) :=
        ({ c with accumulator := some accumulator }.record (.heard socket chunk)).receiveValues world socket outcome.values
      match through, outcome.failure with
      | true, some failure =>
        c.closeConnection world socket s!"framing failure ({framingName failure.reason}): {failure.detail}"
      | _, _ => c

/-! ## Opening a connection -/

def openConnection (c : RelayClient) : RelayClient :=
  let c := c.cancelReconnect
  let c := { c with state := .connecting, accumulator := some {}, statedCause := none }
  let thrown := world.connect c.connects
  let c := { c with connects := c.connects + 1 }.record .attempted
  match thrown with
  | some error => c.scheduleReconnect world s!"could not open a connection: {error}"
  | none =>
    { c with
      socket := some c.nextSocket
      sockets := c.sockets.insert c.nextSocket ⟨true, false⟩
      nextSocket := c.nextSocket + 1 }

def start (c : RelayClient) : RelayClient :=
  let c := c.record .started
  if c.stopped then { c with stopped := false, attempt := 0, outageReported := false }.openConnection world else c

def onConnect (c : RelayClient) (socket : Nat) : RelayClient :=
  (c.armHandshakeDeadline socket).write world .hello (.hello (Fin.ofNat _ protocolVersion) world.room world.peer)

/-- A timeout has fired: it is armed no more, and the callback's first line drops its handle. -/
def spend (c : RelayClient) (handle : Nat) (slot : Slot) : RelayClient :=
  { c.disarm handle with handles := Function.update c.handles slot none }

/-- The same for the deadline of a request, whose handle is in its entry. -/
def lapse (c : RelayClient) (handle : Nat) (key : Key) : RelayClient :=
  { c.disarm handle with pending := c.pending.map fun e => if e.key = key then { e with timer := none } else e }

/-- The callbacks of the timers. An interval stays armed. -/
def fire (c : RelayClient) (handle : Nat) : Timer → RelayClient
  | .reconnect =>
    let c := c.spend handle .reconnect
    if c.stopped then c else c.openConnection world
  | .handshake socket =>
    (c.spend handle .handshake).closeConnection world socket s!"no ready within {handshakeTimeoutMs} ms of connecting"
  | .heartbeat => if c.state = .ready then c.write world .ping .ping else c
  | .request key =>
    let c := c.lapse handle key
    -- a late reply is possible only to what was written
    let c := if (c.find key).any (·.unwritten.isNone) then { c with timedOut := key :: c.timedOut } else c
    (c.settleKey key (.failed ⟨.timeout, s!"no reply within {requestTimeoutMs} ms", none⟩)).2

/-- The callback of a host's promise that rejects. -/
def rejected (c : RelayClient) (promise : Detached) (error : String) : RelayClient :=
  let c := { c with detached := c.detached.erase promise }
  if c.stopped ∨ promise.generation ≠ c.generation then c
  else c.report world .error s!"the host's {promise.site} handler rejected: {error}"

end

end RelayClient

/-! ## Runs -/

inductive Event where
  | start
  | stop
  | call (call : Call)
  | connected (socket : Nat)
  | data (socket : Nat) (chunk : Bytes)
  | errored (socket : Nat) (error : String)
  | closed (socket : Nat)
  /-- The runtime destroys a socket, before the client hears of it. -/
  | perished (socket : Nat)
  | fired (handle : Nat)
  | rejected (promise : Detached) (error : String)

/-- An event of a socket the client was handed; it is heard if the listeners are still there. -/
def RelayClient.hear (c : RelayClient) (socket : Nat) (listener : RelayClient → RelayClient) : Option RelayClient :=
  (c.sockets.lookup socket).map fun s => if s.listening then listener c else c

def step (world : World) (c : RelayClient) : Event → Option RelayClient
  | .start => some (c.start world)
  | .stop => some c.stop
  | .call call => some (c.call world call)
  | .connected socket => c.hear socket (·.onConnect world socket)
  | .data socket chunk => c.hear socket (·.receive world socket chunk)
  | .errored socket error => c.hear socket fun c => c.closeConnection world socket (c.statedCause.getD error)
  | .closed socket =>
    c.hear socket fun c => c.closeConnection world socket (c.statedCause.getD "the relay closed the connection")
  | .perished socket =>
    (c.sockets.lookup socket).map fun s : Socket => { c with sockets := c.sockets.insert socket { s with destroyed := true } }
  | .fired handle => (c.timers.lookup handle).map (c.fire world handle)
  | .rejected promise error => if promise ∈ c.detached then some (c.rejected world promise error) else none

end OmpRelayd.Client
