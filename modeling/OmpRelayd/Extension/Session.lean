/-
  OmpRelayd.Extension.Session — the session's runtime (extension/src/index.ts: `connect`,
  `armPurpose`, `performJoin`, the handlers of `session_start`, `session_shutdown` and of a
  client's deliveries and reports).

  A join, a start and a shutdown are asynchronous procedures over the same variables. Between two
  of its awaits each runs alone, so a step is what one of them does until it waits again, or what
  a client's callback does. A procedure takes a generation when it is called and compares it with
  the current one after each wait; `waiting` holds what each still has to do, by its generation.
  What is awaited is the environment's to answer: what is on the disk, that a stop has ended, the
  roster, or a failure.

  The display of receptions and the protection of the operator's draft change nothing here: of
  the first only the setting and the count are kept, of the second nothing. A client is what its
  runtime sees of it: its configuration, its state, and whether it was told to stop.
-/

import OmpRelayd.Extension.Inbound
import OmpRelayd.Client.Connection
import OmpRelayd.Lib.Trace

namespace OmpRelayd.Extension

open Client (ClientState)

/-! ## State -/

/-- A client that was started. -/
structure RelayClient where
  config : RelayConfig
  state : ClientState
  /-- `stop()` was called. -/
  stopping : Bool
  deriving DecidableEq, Repr

def RelayClient.stop (client : RelayClient) : RelayClient := { client with state := .stopped, stopping := true }

structure Live where
  config : RelayConfig
  startup : StartupMode
  deriving DecidableEq, Repr

inductive Level where
  | info
  | warning
  | error
  deriving DecidableEq, Repr

/-- What a procedure has to do once what it waits for is there. -/
inductive Waiting where
  /-- A join, for `resolveClient`. -/
  | resolve (parameters : JoinParameters)
  /-- A join, for `previous.stop()`. -/
  | replace (resolved : ResolvedClient)
  /-- A join, for the roster. -/
  | list (resolved : ResolvedClient) (active : Nat) (unchanged : Bool)
  /-- A start, for `previous.stop()`. -/
  | restart (interactive : Bool)
  /-- A start, for `loadGlobalConfig`. -/
  | load
  /-- A start, for `resolveWithGlobal`. -/
  | resolveStart (path : String) (global : GlobalConfig)
  | shutdown
  deriving DecidableEq, Repr

/-- What was called and what came of it, as far as it can be seen from outside. -/
inductive Act where
  | joinCalled
  | sessionStarted
  | sessionShutDown
  | stopped (client : Nat)
  | started (client : Nat)
  | armed (resolved : ResolvedClient)
  /-- A join returned its report. -/
  | completed (resolved : ResolvedClient) (report : JoinReport)
  /-- A join returned a problem. -/
  | failed (problem : ConfigProblem)
  /-- A procedure ended with an exception. -/
  | threw
  | appended (entryType : String) (details : InboundDetails)
  /-- `sendUserMessage` returned. -/
  | injected (client : Nat) (injection : InboundInjection) (purpose : Option String) (deferred : Bool)
  | notified (message : String) (level : Level)
  deriving DecidableEq, Repr

structure Session where
  /-- Every client that was started, in order. -/
  clients : List RelayClient := []
  client : Option Nat := none
  live : Option Live := none
  generation : Nat := 0
  notified : List String := []
  receptionCount : Nat := 0
  receptionDisplay : Bool := false
  pendingPurpose : Option String := none
  purposeDelivered : Bool := false
  waiting : Map Nat Waiting := ∅
  /-- The latest first. -/
  acts : List Act := []

namespace Session

variable (s : Session)

def note (act : Act) : Session := { s with acts := act :: s.acts }

def await (generation : Nat) (waiting : Waiting) : Session :=
  { s with waiting := s.waiting.insert generation waiting }

def stop (client : Nat) : Session :=
  { s with clients := s.clients.modify client RelayClient.stop }.note (.stopped client)

def adoptReceptionDisplay (enabled : Bool) : Session :=
  if s.receptionDisplay = enabled then s else { s with receptionDisplay := enabled, receptionCount := 0 }

def armPurpose (resolved : ResolvedClient) : Session :=
  (match resolved.startup with
    | .manual => s
    | .auto => { s with pendingPurpose := if s.purposeDelivered then none else resolved.purpose }).note (.armed resolved)

def notifyOnce (message : String) (level : Level) : Session :=
  if message ∈ s.notified then s else { s with notified := message :: s.notified }.note (.notified message level)

/-- The one place a client is started; it is the next of `clients`. -/
def connect (resolved : ResolvedClient) : Session :=
  let next := s.clients.length
  let client : RelayClient := ⟨resolved.config, .connecting, false⟩
  { s.adoptReceptionDisplay resolved.receptionDisplay with
    clients := s.clients ++ [client]
    client := some next
    live := some ⟨resolved.config, resolved.startup⟩ }.note (.started next)

/-- `client = null; live = null`, and the reception's count with them. -/
def letGo : Session := { s with client := none, live := none, receptionCount := 0 }

/-! ## Joins -/

def supersededBefore (what : String) : ConfigProblem := ⟨none, s!"a newer join superseded this one before it {what}"⟩

/-- The live connection, if the join would open the same. -/
def unchanged (resolved : ResolvedClient) : Option Nat :=
  match s.live, s.client with
  | some current, some client =>
    if (s.clients[client]?.map (·.state)) = some .ready ∧ current.config.room = resolved.config.room ∧
        current.config.peer = resolved.config.peer then
      some client
    else none
  | _, _ => none

def joinConnects (generation : Nat) (resolved : ResolvedClient) : Session :=
  (s.connect resolved).await generation (.list resolved s.clients.length false)

def joinResolved (generation : Nat) (outcome : Except ResolveFailure ResolvedClient) : Session :=
  if generation ≠ s.generation then s.note (.failed (supersededBefore "connected"))
  else match outcome with
    | .error failure => s.note (.failed failure.problem)
    | .ok resolved =>
      let armed := s.armPurpose resolved
      match s.unchanged resolved, s.client with
      | some active, _ => (armed.adoptReceptionDisplay resolved.receptionDisplay).await generation (.list resolved active true)
      | none, some previous => (armed.letGo.stop previous).await generation (.replace resolved)
      | none, none => armed.letGo.joinConnects generation resolved

def joinReplaced (generation : Nat) (resolved : ResolvedClient) : Session :=
  if generation ≠ s.generation then s.note (.failed (supersededBefore "connected")) else s.joinConnects generation resolved

/-- Why there is no roster. -/
inductive RosterFailure where
  | requestFailed (reason : String)
  | other (description : String)
  deriving DecidableEq, Repr

def RosterFailure.text : RosterFailure → String
  | .requestFailed reason => s!"the relay did not answer the roster request ({reason})"
  | .other description => s!"the roster request failed: {description}"

/-- The purpose the report of a join carries: none under `auto`. -/
def reportedPurpose (resolved : ResolvedClient) : Option String :=
  match resolved.startup with
  | .auto => none
  | .manual => if s.purposeDelivered then none else resolved.purpose

def joinListed (generation : Nat) (resolved : ResolvedClient) (active : Nat) (unchanged : Bool)
    (roster : Except RosterFailure (List String)) : Session :=
  if generation ≠ s.generation then s.note (.failed (supersededBefore "completed"))
  else
    let purpose := s.reportedPurpose resolved
    let report : JoinReport :=
      { room := resolved.config.room
        peer := resolved.config.peer
        sources := resolved.sources
        peers := match roster with
          | .ok peers => peers
          | .error _ => []
        purpose := purpose
        unchanged := unchanged
        rosterFailure := match roster with
          | .ok _ => none
          | .error failure => some failure.text
        confirmed := (s.clients[active]?.map (·.state)) = some .ready }
    (match resolved.startup with
      | .auto => s
      | .manual => { s with
          pendingPurpose := none
          purposeDelivered := s.purposeDelivered || purpose.isSome }).note (.completed resolved report)

/-! ## Starts -/

def startStopped (generation : Nat) (interactive : Bool) : Session :=
  if !interactive || generation ≠ s.generation then s else s.await generation .load

/-- A file that is not there is no fault. -/
def startLoaded (generation : Nat) (outcome : Except ResolveFailure (String × GlobalConfig)) : Session :=
  if generation ≠ s.generation then s
  else match outcome with
    | .error failure => if failure.absent then s else s.notifyOnce failure.problem.reason .error
    | .ok (path, global) => if global.startup ≠ .auto then s else s.await generation (.resolveStart path global)

def startResolved (generation : Nat) (outcome : Except ResolveFailure ResolvedClient) : Session :=
  if generation ≠ s.generation then s
  else match outcome with
    | .error failure => s.notifyOnce failure.problem.reason .error
    | .ok resolved => (s.armPurpose resolved).connect resolved

def start (interactive : Bool) : Session :=
  let generation := s.generation + 1
  let reset := { s.letGo with
    generation := generation
    notified := []
    receptionDisplay := false
    pendingPurpose := none
    purposeDelivered := false }.note .sessionStarted
  match s.client with
  | some previous => (reset.stop previous).await generation (.restart interactive)
  | none => reset.startStopped generation interactive

def shutDown : Session :=
  let generation := s.generation + 1
  let reset := { s.letGo with
    generation := generation
    receptionDisplay := false
    pendingPurpose := none }.note .sessionShutDown
  match s.client with
  | some active => (reset.stop active).await generation .shutdown
  | none => reset

/-! ## Deliveries -/

/-- A call of the host's that a delivery makes, and that may throw. -/
inductive HostCall where
  | isIdle
  | appendEntry
  | sendUserMessage
  deriving DecidableEq, Repr

/-- What the delivery carries is taken before any of it is handed over. -/
def claimPurpose (purpose : Option String) : Session :=
  if purpose.isSome then { s with pendingPurpose := none, purposeDelivered := true } else s

/-- `onDelivery`, in a client of this room; `throws` is the call that throws, if one does. -/
def deliver (client : Nat) (room : RoomId) (delivery : DeliveryFrame) (idle : Bool) (throws : Option HostCall) : Session :=
  let s := if s.receptionDisplay then { s with receptionCount := s.receptionCount + 1 } else s
  if delivery.type = .notice ∧ throws = some .isIdle then s
  else
    let deferred := delivery.type = .notice && !idle
    let purpose := if deferred then none else s.pendingPurpose
    let injection := buildInboundInjection delivery room purpose
    let s := s.claimPurpose purpose
    if throws = some .appendEntry then s
    else
      let s := s.note (.appended injection.entryType injection.details)
      if throws = some .sendUserMessage then s else s.note (.injected client injection purpose deferred)

end Session

/-! ## Steps -/

/-- What is read of the surroundings: the disk, the agent's directory, the working directory. -/
structure Surroundings where
  machine : Machine
  agentDir : Option String
  cwd : String

/-- How what was awaited ends. -/
inductive Answer where
  | read (surroundings : Surroundings)
  | stopped
  | roster (roster : Except Session.RosterFailure (List String))
  | threw

inductive SessionEv where
  /-- The mesh tool's `join`. -/
  | join (interactive : Bool) (args : JoinArguments)
  | sessionStart (interactive : Bool)
  | sessionShutdown
  | resumed (generation : Nat) (answer : Answer)
  | delivery (client : Nat) (delivery : DeliveryFrame) (idle : Bool) (throws : Option Session.HostCall)
  | report (client : Nat) (message : String) (level : Level)
  /-- A client's own state changed. -/
  | changed (client : Nat) (state : ClientState)

section
variable (paths : Paths)

def Session.resume (s : Session) (generation : Nat) : Waiting → Answer → Option Session
  | .resolve parameters, .read at_ =>
    some (s.joinResolved generation (resolveClient paths at_.machine at_.agentDir at_.cwd parameters))
  | .replace resolved, .stopped => some (s.joinReplaced generation resolved)
  | .list resolved active unchanged, .roster roster => some (s.joinListed generation resolved active unchanged roster)
  | .restart interactive, .stopped => some (s.startStopped generation interactive)
  | .load, .read at_ => some (s.startLoaded generation (loadGlobalConfig paths at_.machine at_.agentDir))
  | .resolveStart path global, .read at_ =>
    some (s.startResolved generation (resolveWithGlobal paths at_.machine global path at_.cwd ⟨none, none, none⟩))
  | .shutdown, .stopped => some s
  -- a roster that fails is an answer
  | .list _ _ _, .threw => none
  | _, .threw => some (s.note .threw)
  | _, _ => none

def sessionStep (s : Session) : SessionEv → Option Session
  | .join interactive args =>
    match joinRequest interactive args with
    | .error _ => some s
    | .ok parameters =>
      some (({ s with generation := s.generation + 1 }.note .joinCalled).await (s.generation + 1) (.resolve parameters))
  | .sessionStart interactive => some (s.start interactive)
  | .sessionShutdown => some s.shutDown
  | .resumed generation answer =>
    match s.waiting.lookup generation with
    | some waiting => { s with waiting := s.waiting.erase generation }.resume paths generation waiting answer
    | none => none
  | .delivery client delivery idle throws => (s.clients[client]?).map fun c =>
    s.deliver client c.config.room delivery idle throws
  | .report client message level => (s.clients[client]?).map fun _ => s.notifyOnce message level
  | .changed client state =>
    match s.clients[client]? with
    | some c => if c.stopping then none else some { s with clients := s.clients.set client { c with state := state } }
    | none => none

end

/-- Of a session the display is all that changes. -/
theorem Session.adoptReceptionDisplay_eq (s : Session) (enabled : Bool) :
    ∃ count, s.adoptReceptionDisplay enabled = { s with receptionDisplay := enabled, receptionCount := count } := by
  unfold Session.adoptReceptionDisplay
  split
  · rename_i henabled
    subst henabled
    exact ⟨s.receptionCount, rfl⟩
  · exact ⟨0, rfl⟩

theorem Session.armPurpose_eq (s : Session) (resolved : ResolvedClient) :
    ∃ pending, s.armPurpose resolved = { s with pendingPurpose := pending, acts := .armed resolved :: s.acts } := by
  unfold Session.armPurpose
  cases resolved.startup with
  | manual => exact ⟨s.pendingPurpose, rfl⟩
  | auto => exact ⟨_, rfl⟩

theorem Session.connect_eq (s : Session) (resolved : ResolvedClient) :
    ∃ count, s.connect resolved =
      { s with
        clients := s.clients ++ [⟨resolved.config, .connecting, false⟩]
        client := some s.clients.length
        live := some ⟨resolved.config, resolved.startup⟩
        receptionDisplay := resolved.receptionDisplay
        receptionCount := count
        acts := .started s.clients.length :: s.acts } := by
  obtain ⟨count, heq⟩ := s.adoptReceptionDisplay_eq resolved.receptionDisplay
  refine ⟨count, ?_⟩
  rw [Session.connect, heq]
  rfl

/-! ## What a procedure does -/

/-- What a procedure of this generation does when what it waits for has ended. -/
inductive Session.Resumed (s : Session) (generation : Nat) : Waiting → Session → Prop
  | threw (waiting : Waiting) : Resumed s generation waiting (s.note .threw)
  | resolved (parameters : JoinParameters) (outcome : Except ResolveFailure ResolvedClient) :
      Resumed s generation (.resolve parameters) (s.joinResolved generation outcome)
  | replaced (resolved : ResolvedClient) : Resumed s generation (.replace resolved) (s.joinReplaced generation resolved)
  | listed (resolved : ResolvedClient) (active : Nat) (unchanged : Bool) (roster : Except RosterFailure (List String)) :
      Resumed s generation (.list resolved active unchanged) (s.joinListed generation resolved active unchanged roster)
  | restarted (interactive : Bool) : Resumed s generation (.restart interactive) (s.startStopped generation interactive)
  | loaded (outcome : Except ResolveFailure (String × GlobalConfig)) :
      Resumed s generation .load (s.startLoaded generation outcome)
  | resolvedStart (path : String) (global : GlobalConfig) (outcome : Except ResolveFailure ResolvedClient) :
      Resumed s generation (.resolveStart path global) (s.startResolved generation outcome)
  | shutDown : Resumed s generation .shutdown s

theorem Session.resume_some {paths : Paths} {s t : Session} {generation : Nat} {waiting : Waiting} {answer : Answer}
    (h : s.resume paths generation waiting answer = some t) : s.Resumed generation waiting t := by
  cases waiting <;> cases answer <;> cases h <;> constructor

/-- A procedure whose generation is not the current one does no more than say so. -/
theorem Session.Resumed.superseded {s t : Session} {generation : Nat} {waiting : Waiting}
    (h : s.Resumed generation waiting t) (hg : generation ≠ s.generation) :
    t = s ∨ t = s.note .threw ∨ ∃ problem, t = s.note (.failed problem) := by
  cases h with
  | threw => exact .inr (.inl rfl)
  | resolved parameters outcome => exact .inr (.inr ⟨_, if_pos hg⟩)
  | replaced resolved => exact .inr (.inr ⟨_, if_pos hg⟩)
  | listed resolved active unchanged roster => exact .inr (.inr ⟨_, if_pos hg⟩)
  | restarted interactive => exact .inl (if_pos (by simp [hg]))
  | loaded outcome => exact .inl (if_pos hg)
  | resolvedStart path global outcome => exact .inl (if_pos hg)
  | shutDown => exact .inl rfl

/-! ## A session -/

def sampleJoin (task : String) : SessionEv := .join true ⟨none, some (.string task), none⟩

/-- What is read where the global file says this of the startup. -/
def sampleRead (startup : String) : Answer := .read ⟨sampleMachine startup, some "/agent", "/work"⟩

end OmpRelayd.Extension
