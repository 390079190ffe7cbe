/-
  OmpRelayd.Relay.System — the relay with its connections, one step at a time
  (server/src/relay.rs: `run_connection`, `pump`, `run_reader`, `run_writer`).

  A connection is admitted, registered, greeted with `ready`, and then pumped by a reader and
  a writer until one of them ends it; its halves are dropped first and its guard after. The
  reader and the writer are two futures of one task: a handler is never interrupted by its own
  connection's writer, and both can be dropped only where they await. Other connections'
  tasks may come between any two calls of a handler.

  The reader's `select!` is unbiased: any branch that is ready may be taken. The writer's is
  biased, and polls eviction, replies and deliveries in that order, each at its own moment.
  A write ends well, fails, or is cancelled by the eviction flag, before or after the codec
  took the frame into its buffer. Timers may fire at any await. What moves the system is
  chosen by the events; the order in which a `HashMap` yields its entries is one such choice.

  Kept beside what the code keeps: the branches each reader has taken (`turns`), what each
  socket was sent (`sent`), and what was ever put into each queue, by whom and for which of
  its frames (`log`).
-/

import OmpRelayd.Blob.Accounting
import OmpRelayd.Relay.Turn

namespace OmpRelayd.Relay

/-! ## Connections -/

/-- A reply, with the number of the frame it answers. -/
structure Reply where
  frame : ServerFrame
  seq : Nat
  deriving DecidableEq, Repr

inductive Item where
  | reply (reply : Reply)
  | delivery (payload : Bytes)
  | plain (frame : ServerFrame)
  deriving DecidableEq, Repr

/-- A payload in a queue: whose it is, and which of the frames they sent it came from. -/
structure Delivery where
  sender : Nat
  seq : Nat
  payload : Bytes
  deriving DecidableEq, Repr

inductive Reader where
  | awaiting
  /-- Handling what it took; `late` if it took it after its name was lost. -/
  | busy (late : Bool) (turn : Turn) (rest : Handler ControlFlow)
  | ended

inductive Writer where
  | top
  /-- The flag was not set. -/
  | polled
  /-- And there was no reply. -/
  | starved
  | writing (item : Item)
  /-- Telling the peer that it was replaced. -/
  | replaced
  deriving DecidableEq, Repr

inductive Stage where
  /-- `register` has drawn its id. -/
  | admitted
  /-- Registered; `ready` is being written. -/
  | greeting
  | pumping (reader : Reader) (writer : Writer)
  /-- Its halves are dropped, its guard is not. -/
  | closed
  /-- Its guard emptied the room, and `forget_room` is to come. -/
  | forgetting
  | gone

/-- The receiving end of its outbound queue exists. -/
def Stage.receives : Stage → Bool
  | .admitted => true
  | .greeting => true
  | .pumping _ _ => true
  | _ => false

def Stage.pumps : Stage → Bool
  | .pumping _ _ => true
  | _ => false

structure Conn where
  name : Name
  stage : Stage := .admitted
  queue : List Bytes := []
  replies : List Reply := []
  /-- Permits held on the reply channel. -/
  held : Nat := 0
  buffer : List Item := []
  sent : List Item := []
  turns : List Branch := []
  log : List Delivery := []

namespace Conn

/-- The number of the frame being handled. -/
def seq (conn : Conn) : Nat := conn.turns.length

/-- The frame numbered `n`. -/
def frame (conn : Conn) (n : Nat) : Option ClientFrame := (conn.turns[n - 1]?).map (·.frame)

/-- The frame being handled. -/
def current (conn : Conn) : ClientFrame := (conn.frame conn.seq).getD .unsupported

def capacity (conn : Conn) : Nat := replyQueueCapacity + diagnosticReserve - (conn.replies.length + conn.held)

def trySend (conn : Conn) (frame : ServerFrame) : Except TrySendError Unit × Conn :=
  if !conn.stage.pumps then (.error .closed, conn)
  else if conn.capacity = 0 then (.error .full, conn)
  else (.ok (), { conn with replies := conn.replies ++ [⟨frame, conn.seq⟩] })

def tryReserve (conn : Conn) : Bool × Conn :=
  if !conn.stage.pumps || conn.capacity = 0 then (false, conn) else (true, { conn with held := conn.held + 1 })

def permitSend (conn : Conn) (frame : ServerFrame) : Conn :=
  { conn with replies := conn.replies ++ [⟨frame, conn.seq⟩], held := conn.held - 1 }

def permitDrop (conn : Conn) : Conn := { conn with held := conn.held - 1 }

/-- One `try_send` on its outbound queue. -/
def enqueue (conn : Conn) (delivery : Delivery) : ReceiptStatus × Conn :=
  if !conn.stage.receives then (.peerOffline, conn)
  else if outboundQueueCapacity ≤ conn.queue.length then (.recipientBackpressure, conn)
  else (.routed, { conn with queue := conn.queue ++ [delivery.payload], log := conn.log ++ [delivery] })

/-- Its halves are dropped, with whatever was still in them. -/
def close (conn : Conn) : Conn := { conn with stage := .closed, queue := [], replies := [], held := 0, buffer := [] }

end Conn

/-! ## The relay -/

structure Sys where
  registry : Registry := {}
  conns : Map Nat Conn := ∅
  store : Blob.Store := {}
  shutdown : Bool := false

namespace Sys

def put (s : Sys) (c : Nat) (conn : Conn) : Sys := { s with conns := s.conns.insert c conn }

/-- The eviction flag of a connection is set. -/
def evicted (s : Sys) (c : Nat) : Bool := decide (c ∈ s.registry.evictions)

/-- An operation on one connection's channels; nothing is left of one that is not there. -/
def on {α : Type} (s : Sys) (c : Nat) (none : α) (f : Conn → α × Conn) : α × Sys :=
  match s.conns.lookup c with
  | .none => (none, s)
  | .some conn => ((f conn).1, s.put c (f conn).2)

/-- What a call of connection `c` does, at instant `now`. -/
def perform (s : Sys) (c now : Nat) : (call : Call) → call.Answer × Sys
  | .capacity => ((s.conns.lookup c).elim 0 Conn.capacity, s)
  | .trySend frame => s.on c (.error .closed) fun conn => conn.trySend frame
  | .tryReserve => s.on c false Conn.tryReserve
  | .permitSend frame => s.on c () fun conn => ((), conn.permitSend frame)
  | .permitDrop => s.on c () fun conn => ((), conn.permitDrop)
  | .listPeers room => (listPeers s.registry.rooms room, s)
  | .outboundOf room target => (outboundOf s.registry.rooms room target, s)
  | .recipients room announcer => (recipients s.registry.rooms room announcer, s)
  | .enqueue outbound payload =>
    s.on outbound .peerOffline fun conn => conn.enqueue ⟨c, (s.conns.lookup c).elim 0 Conn.seq, payload⟩
  | .reserve room digest bytes =>
    ((s.store.reserve room digest bytes now).1, { s with store := (s.store.reserve room digest bytes now).2 })

/-- As `perform`, the entries of a room coming in whatever order. -/
def answer (s : Sys) (c now : Nat) (order : List Nat) : (call : Call) → Option (call.Answer × Sys)
  | .recipients room announcer =>
    if order.isPerm (recipients s.registry.rooms room announcer) then some (order, s) else none
  | call => some (s.perform c now call)

end Sys

/-! ## Steps -/

inductive WriteOutcome where
  | ok
  | failed
  /-- The flag cancelled the write; `fed` if the codec had taken the frame. -/
  | replaced (fed : Bool)
  /-- The outbound queue has no sender left. -/
  | closed
  deriving DecidableEq, Repr

inductive RelayEv where
  /-- A connection's first frame; a rejected one is closed and is no connection here. -/
  | hello (frame : ClientFrame)
  | insert (c : Nat)
  | ready (c : Nat) (written : Bool)
  /-- The reader takes a branch of its `select!`. -/
  | read (c : Nat) (branch : Branch)
  /-- The handler's next call. -/
  | act (c now : Nat) (order : List Nat)
  /-- The writer's next poll, or the end of its write. -/
  | write (c : Nat) (outcome : WriteOutcome)
  /-- The writer's time after the reader's end is over. -/
  | expire (c : Nat)
  /-- The task is dropped at an await. -/
  | abort (c : Nat)
  /-- The guard drops: `deregister`'s section of the registry. -/
  | drop (c : Nat)
  /-- And the `forget_room` after it. -/
  | forget (c : Nat)
  /-- The HTTP side or a sweep moves the store. -/
  | transfer (e : Blob.StoreEv)
  | shutdown
  deriving Repr

def registeredPeer (c : Nat) (conn : Conn) : RegisteredPeer := ⟨conn.name.room, conn.name.peer, c⟩

/-- A handler that is done leaves its reader awaiting or ended. -/
def Reader.of (late : Bool) (turn : Turn) : Handler ControlFlow → Reader
  | .done .continues => .awaiting
  | .done .breaks => .ended
  | rest => .busy late turn rest

def Reader.isBusy : Reader → Bool
  | .busy _ _ _ => true
  | _ => false

/-- The branches of the `select!` that are ready. -/
def Branch.ready (s : Sys) (c : Nat) : Branch → Bool
  | .shutdown => s.shutdown
  | .evicted => s.evicted c
  | _ => true

def replacedDiagnostic : ServerFrame :=
  .error .peerReplaced (some (capDiagnostic "a newer connection registered this peer name")) none

/-- The writer's step, by its flag and by whether the registry still has its handle. -/
def Conn.write (flag registered : Bool) (outcome : WriteOutcome) (conn : Conn) : Option Conn :=
  match conn.stage with
  | .pumping reader writer =>
    if reader.isBusy then none
    else match writer with
      | .top => some { conn with stage := .pumping reader (if flag then .replaced else .polled) }
      | .polled =>
        match conn.replies with
        | reply :: rest => some { conn with replies := rest, stage := .pumping reader (.writing (.reply reply)) }
        | [] =>
          match reader with
          | .ended => some conn.close
          | _ => some { conn with stage := .pumping reader .starved }
      | .starved =>
        match conn.queue with
        | payload :: rest => some { conn with queue := rest, stage := .pumping reader (.writing (.delivery payload)) }
        | [] =>
          if outcome = .closed then if registered then none else some conn.close
          else some { conn with stage := .pumping reader .top }
      | .writing item =>
        match outcome with
        | .ok => some { conn with buffer := [], sent := conn.sent ++ conn.buffer ++ [item], stage := .pumping reader .top }
        | .failed => some conn.close
        | .replaced fed =>
          if flag then
            some { conn with
              buffer := if fed then conn.buffer ++ [item] else conn.buffer
              stage := .pumping reader .replaced }
          else none
        | .closed => none
      | .replaced =>
        match outcome with
        | .ok => some { conn with sent := conn.sent ++ conn.buffer ++ [Item.plain replacedDiagnostic] }.close
        | _ => some conn.close
  | _ => none

def relayStep (env : Env) (s : Sys) : RelayEv → Option Sys
  | .hello frame =>
    match admitted env frame with
    | .error _ => none
    | .ok name => some { s.put s.registry.nextConnectionId { name := name } with registry := s.registry.draw name }
  | .insert c => (s.conns.lookup c).bind fun conn =>
    (registryStep s.registry (.insert c)).map fun registry =>
      { s.put c { conn with stage := .greeting } with registry := registry }
  | .ready c written => (s.conns.lookup c).bind fun conn =>
    match conn.stage with
    | .greeting =>
      if written then
        some (s.put c { conn with
          sent := conn.sent ++ [.plain (.ready protocolVersion)]
          stage := .pumping .awaiting .top })
      else some (s.put c conn.close)
    | _ => none
  | .read c branch => (s.conns.lookup c).bind fun conn =>
    match conn.stage with
    | .pumping .awaiting writer =>
      if branch.ready s c then
        some (s.put c { conn with
          turns := conn.turns ++ [branch]
          stage := .pumping (.of (s.evicted c) (.fresh none) (readerTurn env (registeredPeer c conn) branch)) writer })
      else none
    | _ => none
  | .act c now order => (s.conns.lookup c).bind fun conn =>
    match conn.stage with
    | .pumping (.busy late turn (.call call rest)) writer =>
      (s.answer c now order call).bind fun r =>
        (r.2.conns.lookup c).map fun conn' =>
          r.2.put c { conn' with
            stage := .pumping (.of late (nextTurn conn.current turn call r.1) (rest r.1)) writer }
    | _ => none
  | .write c outcome => (s.conns.lookup c).bind fun conn =>
    (conn.write (s.evicted c) (holder s.registry.rooms conn.name == some c) outcome).map fun conn' => s.put c conn'
  | .expire c => (s.conns.lookup c).bind fun conn =>
    match conn.stage with
    | .pumping .ended _ => some (s.put c conn.close)
    | _ => none
  | .abort c => (s.conns.lookup c).bind fun conn =>
    match conn.stage with
    | .greeting => some (s.put c conn.close)
    | .pumping reader _ => if reader.isBusy then none else some (s.put c conn.close)
    | _ => none
  | .drop c => (s.conns.lookup c).bind fun conn =>
    match conn.stage with
    | .closed =>
      let emptied := (deregister s.registry.rooms conn.name.room conn.name.peer c).emptied
      (registryStep s.registry (.drop c)).map fun registry =>
        { s.put c { conn with stage := if emptied && env.blobs then .forgetting else .gone } with registry := registry }
    | _ => none
  | .forget c => (s.conns.lookup c).bind fun conn =>
    match conn.stage with
    | .forgetting =>
      some { s.put c { conn with stage := .gone } with store := (s.store.forgetRoom conn.name.room).2 }
    | _ => none
  | .transfer e =>
    match e with
    | .reserve _ _ _ _ => none
    | .forgetRoom _ => none
    | e => if env.blobs then (Blob.storeStep s.store e).map fun store => { s with store := store } else none
  | .shutdown => some { s with shutdown := true }

/-- The states some run of the relay leads to, each step of which met `ok`. -/
abbrev RelayReach (env : Env) (ok : Sys → RelayEv → Prop) := Reach (relayStep env) {} ok

def queueOf (s : Sys) (o : Nat) : Option (List Bytes) := (s.conns.lookup o).map (·.queue)

/-! ## Evaluated runs -/

/-- A relay with a store, under which every frame encodes to one byte. -/
def oneByte : Env := ⟨fun _ => some [0], String.singleton, "15s", true⟩

def lobby : RoomId := ⟨"omp-relayd", "lobby"⟩

/-- Connections under these names are admitted, registered and greeted, in turn. -/
def joining (first : Nat) : List String → List RelayEv
  | [] => []
  | peer :: rest => [.hello (.hello protocolVersion lobby peer), .insert first, .ready first true] ++ joining (first + 1) rest

def greeting : ClientFrame := .send "m-1" "bob" "hello" none none

def reads (c : Nat) (frame : ClientFrame) : RelayEv := .read c (.inbound (.decoded frame))

/-- The next `n` calls of a handler; a fanout goes in this order. -/
def acts (c n : Nat) (order : List Nat) : List RelayEv := List.replicate n (.act c 0 order)

end OmpRelayd.Relay
