/-
  OmpRelayd.Client.Phases — where the client can be between two events.

  There are four phases: halted, waiting to try again, opening a connection, and ready on one. A
  phase fixes the flags, the current socket and which of the three timers there can be (`Shape`),
  and what the socket's bytes have come to (`Past`); with `Wired` and `Owned` that is `InPhase`.

  As long as the host does not call back, every method leads from a phase to a phase and adds to
  the history nothing a run turns on (`Onward`). Most of them do not even touch what a phase is
  about (`Aside`). The middle of a teardown is in no phase: there is no connection and no timer for
  the next one (`Between`), until one is armed or the client is found to be stopped.
-/

import OmpRelayd.Client.Wiring

namespace OmpRelayd.Client

/-- The host never calls back into the client. -/
def World.Quiet (world : World) : Prop := ∀ n callback reaction, world.host n callback = some reaction → reaction.stops = false

/-! ## Phases -/

inductive Phase where
  | halted
  | waiting
  | opening (socket : Nat)
  | ready (socket : Nat)
  deriving DecidableEq, Repr

namespace Phase

def state : Phase → ClientState
  | .halted => .stopped
  | .waiting => .connecting
  | .opening _ => .connecting
  | .ready _ => .ready

def stopped : Phase → Bool
  | .halted => true
  | _ => false

def socket : Phase → Option Nat
  | .opening socket => some socket
  | .ready socket => some socket
  | _ => none

/-- A reconnect timer is armed. -/
def waits : Phase → Bool
  | .waiting => true
  | _ => false

/-- On a connection the client runs, and waits for none. -/
theorem running {p : Phase} {s : Nat} (h : p.socket = some s) : p.stopped = false ∧ p.waits = false := by
  cases p with
  | halted => cases h
  | waiting => cases h
  | opening => exact ⟨rfl, rfl⟩
  | ready => exact ⟨rfl, rfl⟩

end Phase

structure Shape (p : Phase) (state : ClientState) (stopped : Bool) (socket : Option Nat)
    (handles : Slot → Option Nat) (pending : List PendingRequest) : Prop where
  state : state = p.state
  stopped : stopped = p.stopped
  socket : socket = p.socket
  waits : (handles .reconnect).isSome = p.waits
  bare : p.socket = none → handles .handshake = none ∧ handles .heartbeat = none
  settled : p = .halted → pending = []

/-- Only on a connection is there anything but the reconnect timer. -/
theorem Shape.update {p : Phase} {state : ClientState} {stopped : Bool} {socket : Option Nat}
    {handles : Slot → Option Nat} {pending : List PendingRequest} {slot : Slot} {value : Option Nat}
    (h : Shape p state stopped socket handles pending) (hs : slot ≠ .reconnect) (hv : p.socket = none → value = none) :
    Shape p state stopped socket (Function.update handles slot value) pending := by
  have hnone : ∀ slot', p.socket = none → handles slot' = none → Function.update handles slot value slot' = none := by
    intro slot' hp hh
    by_cases e : slot' = slot
    · rw [e, Function.update_self]; exact hv hp
    · rw [Function.update_of_ne e]; exact hh
  refine { h with waits := ?_, bare := fun hp => ?_ }
  · rw [Function.update_of_ne hs.symm]; exact h.waits
  · exact ⟨hnone _ hp (h.bare hp).1, hnone _ hp (h.bare hp).2⟩

/-! ## What was heard -/

def chunkOf (socket : Nat) : Effect → Option Bytes
  | .heard s chunk => if s = socket then some chunk else none
  | _ => none

/-- The bytes of a socket, as they came. -/
def heard (socket : Nat) (history : List Effect) : List Bytes := history.reverse.filterMap (chunkOf socket)

/-- The bytes of a socket hold a valid frame. -/
def Got (world : World) (socket : Nat) (history : List Effect) (frame : ServerFrame) : Prop :=
  ∃ value ∈ (received world.decode (heard socket history)).values, validateServerFrame value = .frame frame

/-- No bytes, and nothing the lifecycle turns on. -/
def Effect.inner : Effect → Bool
  | .started => false
  | .attempted => false
  | .heard _ _ => false
  | .dispatched _ _ => false
  | _ => true

def Effect.silent : Effect → Bool
  | .heard _ _ => false
  | _ => true

theorem Effect.silent_of_inner {e : Effect} (h : e.inner = true) : e.silent = true := by
  cases e <;> first | rfl | cases h

theorem heard_silent {socket : Nat} {new history : List Effect} (h : ∀ e ∈ new, e.silent = true) :
    heard socket (new ++ history) = heard socket history := by
  have hnone : new.reverse.filterMap (chunkOf socket) = [] := by
    rw [List.filterMap_eq_nil_iff]
    intro e he
    have := h e (List.mem_reverse.mp he)
    cases e <;> first | rfl | cases this
  rw [heard, List.reverse_append, List.filterMap_append, hnone, List.append_nil, heard]

theorem heard_record {socket : Nat} {e : Effect} {history : List Effect} (h : e.silent = true) :
    heard socket (e :: history) = heard socket history :=
  heard_silent (List.forall_mem_singleton.mpr h)

theorem heard_cons {socket : Nat} {chunk : Bytes} {history : List Effect} :
    heard socket (.heard socket chunk :: history) = heard socket history ++ [chunk] := by
  simp [heard, chunkOf]

structure Past (world : World) (p : Phase) (history : List Effect) (accumulator : Option FrameAccumulator)
    (nextSocket : Nat) : Prop where
  known : ∀ s chunk, .heard s chunk ∈ history → s < nextSocket
  reading : ∀ s, p.socket = some s → accumulator = some (received world.decode (heard s history)).acc
  welcomed : ∀ s, p = .ready s → ∃ version, Got world s history (.ready version)

theorem Past.extend {world : World} {p : Phase} {new history : List Effect} {acc : Option FrameAccumulator} {next : Nat}
    (h : Past world p history acc next) (hnew : ∀ e ∈ new, e.silent = true) : Past world p (new ++ history) acc next := by
  refine ⟨?_, ?_, ?_⟩
  · intro s chunk hmem
    rcases List.mem_append.mp hmem with hmem | hmem
    · cases hnew _ hmem
    · exact h.known s chunk hmem
  · intro s hs
    rw [heard_silent hnew]; exact h.reading s hs
  · intro s hs
    unfold Got
    rw [heard_silent hnew]; exact h.welcomed s hs

structure InPhase (world : World) (p : Phase) (c : RelayClient) : Prop where
  wired : Wired c.timers c.nextTimer c.handles c.pending
  owned : Owned c.sockets c.nextSocket c.socket
  shape : Shape p c.state c.stopped c.socket c.handles c.pending
  past : Past world p c.history c.accumulator c.nextSocket

theorem InPhase.record {world : World} {p : Phase} {c : RelayClient} (h : InPhase world p c) {e : Effect}
    (he : e.silent = true) : InPhase world p (c.record e) :=
  ⟨h.wired, h.owned, h.shape, h.past.extend (List.forall_mem_singleton.mpr he)⟩

/-! ## Asides

    Telling the host, settling requests and counting change nothing the lifecycle is about. -/

def Inner (new : List Effect) : Prop := ∀ e ∈ new, e.inner = true

/-- Nothing that counts was added. -/
def Later (older newer : List Effect) : Prop := ∃ new, Inner new ∧ newer = new ++ older

theorem Later.refl (history : List Effect) : Later history history := ⟨[], nofun, rfl⟩

theorem Later.trans {a b c : List Effect} (h : Later a b) (h' : Later b c) : Later a c := by
  obtain ⟨new, hnew, rfl⟩ := h
  obtain ⟨new', hnew', rfl⟩ := h'
  refine ⟨new' ++ new, ?_, (List.append_assoc ..).symm⟩
  intro e hmem
  exact (List.mem_append.mp hmem).elim (hnew' e) (hnew e)

theorem known_extend {new history : List Effect} {next : Nat} (h : ∀ s chunk, .heard s chunk ∈ history → s < next)
    (hnew : Inner new) : ∀ s chunk, .heard s chunk ∈ new ++ history → s < next := by
  intro s chunk hmem
  rcases List.mem_append.mp hmem with hmem | hmem
  · cases hnew _ hmem
  · exact h s chunk hmem

structure Aside (c c' : RelayClient) : Prop where
  state : c'.state = c.state
  stopped : c'.stopped = c.stopped
  socket : c'.socket = c.socket
  accumulator : c'.accumulator = c.accumulator
  handles : c'.handles = c.handles
  nextTimer : c'.nextTimer = c.nextTimer
  sockets : c'.sockets = c.sockets
  nextSocket : c'.nextSocket = c.nextSocket
  wired : Wired c.timers c.nextTimer c.handles c.pending → Wired c'.timers c.nextTimer c.handles c'.pending
  pending : c'.pending.Sublist c.pending
  later : Later c.history c'.history

namespace Aside

variable {world : World} {p : Phase} {c c' c'' : RelayClient}

theorem refl (c : RelayClient) : Aside c c :=
  ⟨rfl, rfl, rfl, rfl, rfl, rfl, rfl, rfl, id, .refl _, .refl _⟩

theorem trans (h : Aside c c') (h' : Aside c' c'') : Aside c c'' := by
  refine ⟨h'.state.trans h.state, h'.stopped.trans h.stopped, h'.socket.trans h.socket,
    h'.accumulator.trans h.accumulator, h'.handles.trans h.handles, h'.nextTimer.trans h.nextTimer,
    h'.sockets.trans h.sockets, h'.nextSocket.trans h.nextSocket, fun w => ?_, h'.pending.trans h.pending,
    h.later.trans h'.later⟩
  have w' := h'.wired (by rw [h.nextTimer, h.handles]; exact h.wired w)
  rwa [h.nextTimer, h.handles] at w'

theorem inPhase (h : Aside c c') (hc : InPhase world p c) : InPhase world p c' := by
  obtain ⟨new, hnew, he⟩ := h.later
  refine ⟨?_, ?_, ?_, ?_⟩
  · rw [h.nextTimer, h.handles]; exact h.wired hc.wired
  · rw [h.sockets, h.nextSocket, h.socket]; exact hc.owned
  · rw [h.state, h.stopped, h.socket, h.handles]
    exact { hc.shape with settled := fun hp => List.sublist_nil.mp (hc.shape.settled hp ▸ h.pending) }
  · rw [he, h.accumulator, h.nextSocket]
    exact hc.past.extend fun e hmem => Effect.silent_of_inner (hnew e hmem)

theorem record (c : RelayClient) (e : Effect) (he : e.inner = true) : Aside c (c.record e) :=
  ⟨rfl, rfl, rfl, rfl, rfl, rfl, rfl, rfl, id, .refl _, [e], List.forall_mem_singleton.mpr he, rfl⟩

theorem known (h : Aside c c') {next : Nat} (hk : ∀ s chunk, .heard s chunk ∈ c.history → s < next) :
    ∀ s chunk, .heard s chunk ∈ c'.history → s < next := by
  obtain ⟨new, hnew, he⟩ := h.later
  rw [he]; exact known_extend hk hnew

end Aside

section
variable {world : World} (hq : world.Quiet)
include hq

theorem aside_invoke (c : RelayClient) (callback : Callback) : Aside c (c.invoke world callback).2 := by
  unfold RelayClient.invoke
  split
  · exact .refl c
  · rename_i reaction hr
    simp only [hq _ _ _ hr, Bool.false_eq_true, if_false]
    exact { Aside.record { c with calls := c.calls + 1 } (.called callback) rfl with }

theorem aside_report (c : RelayClient) (level : ReportLevel) (message : String) :
    Aside c (c.report world level message) := aside_invoke hq c _

theorem aside_notify (c : RelayClient) (callback : Callback) : Aside c (c.notify world callback) := by
  have h := aside_invoke hq c callback
  unfold RelayClient.notify
  split
  · rename_i hi; rw [hi] at h; exact h
  · rename_i hi; rw [hi] at h; exact h.trans (aside_report hq _ _ _)
  · rename_i c' hi
    rw [hi] at h
    exact h.trans { Aside.refl c' with }

theorem aside_reportOutage (c : RelayClient) (message : String) : Aside c (c.reportOutage world message) := by
  unfold RelayClient.reportOutage
  split
  · exact .refl c
  · exact { aside_report hq { c with outageReported := true } .warn message with }

end

theorem aside_settleKey (c : RelayClient) (key : Key) (outcome : RequestOutcome) :
    Aside c (c.settleKey key outcome).2 := by
  unfold RelayClient.settleKey
  split
  · exact .refl c
  · rename_i entry hfind
    have hsettled := Aside.record { c with pending := c.pending.filter (·.key ≠ key) }
      (.settled entry.request (entry.kind.conclude key.token outcome)) rfl
    have hw : Wired c.timers c.nextTimer c.handles c.pending → _ := fun w => w.settle hfind
    cases ht : entry.timer with
    | none => rw [ht] at hw; exact { hsettled with wired := hw, pending := List.filter_sublist }
    | some h => rw [ht] at hw; exact { hsettled with wired := hw, pending := List.filter_sublist }

theorem settleKey_pending (c : RelayClient) (key : Key) (outcome : RequestOutcome) :
    (c.settleKey key outcome).2.pending = c.pending.filter (·.key ≠ key) := by
  unfold RelayClient.settleKey
  split
  · rename_i hnone
    have hother : ∀ e ∈ c.pending, e.key ≠ key := by simpa using List.find?_eq_none.mp hnone
    exact (List.filter_eq_self.mpr fun e he => by simpa using hother e he).symm
  · rename_i entry _
    cases entry.timer <;> rfl

theorem aside_settleAll (c : RelayClient) (keys : List Key) (outcome : RequestOutcome) :
    Aside c (c.settleAll keys outcome).2 := by
  induction keys generalizing c with
  | nil => exact .refl c
  | cons key keys ih => exact (aside_settleKey c key outcome).trans (ih _)

theorem settleAll_pending (c : RelayClient) (keys : List Key) (outcome : RequestOutcome) :
    (c.settleAll keys outcome).2.pending = c.pending.filter (·.key ∉ keys) := by
  induction keys generalizing c with
  | nil => simp [RelayClient.settleAll]
  | cons key keys ih =>
    show ((c.settleKey key outcome).2.settleAll keys outcome).2.pending = _
    rw [ih, settleKey_pending, List.filter_filter]
    congr 1
    funext e
    simp [Bool.and_comm]

/-- Nothing is left pending. -/
theorem failPending_pending (c : RelayClient) (error : RequestFailed) : (c.failPending error).pending = [] := by
  rw [RelayClient.failPending, settleAll_pending, List.filter_eq_nil_iff]
  intro e he
  simpa using ⟨e, he, rfl⟩

theorem aside_failPending (c : RelayClient) (error : RequestFailed) : Aside c (c.failPending error) :=
  aside_settleAll c _ _

/-! ## Onward -/

/-- From wherever it was to a phase, adding nothing to the history that counts. -/
structure Onward (world : World) (c c' : RelayClient) : Prop where
  phase : ∃ p, InPhase world p c'
  stopped : c.stopped = true → c'.stopped = true
  later : Later c.history c'.history

section
variable {world : World} {p : Phase} {c c' c'' : RelayClient}

theorem Onward.trans (h : Onward world c c') (h' : Onward world c' c'') : Onward world c c'' :=
  ⟨h'.phase, fun hs => h'.stopped (h.stopped hs), h.later.trans h'.later⟩

theorem InPhase.onward (h : InPhase world p c) : Onward world c c := ⟨⟨p, h⟩, id, .refl _⟩

theorem Aside.onward (h : Aside c c') (hc : InPhase world p c) : Onward world c c' := by
  exact ⟨⟨p, h.inPhase hc⟩, fun hs => h.stopped.trans hs, h.later⟩

theorem RelayClient.clear_eq (slot : Slot) (w : Wired c.timers c.nextTimer c.handles c.pending) :
    ∃ timers, Wired timers c.nextTimer (Function.update c.handles slot none) c.pending ∧
      c.clear slot = { c with timers := timers, handles := Function.update c.handles slot none } := by
  unfold RelayClient.clear
  split
  · rename_i hnone
    have hsame : Function.update c.handles slot none = c.handles := by
      rw [← hnone, Function.update_eq_self]
    exact ⟨c.timers, by rw [hsame]; exact w, by rw [hsame]⟩
  · rename_i h hsome
    exact ⟨c.timers.erase h, w.clear hsome, rfl⟩

theorem InPhase.clear (h : InPhase world p c) (slot : Slot) (hs : slot ≠ .reconnect) :
    InPhase world p (c.clear slot) ∧ Onward world c (c.clear slot) := by
  obtain ⟨timers, w, he⟩ := c.clear_eq slot h.wired
  suffices hp : InPhase world p (c.clear slot) from ⟨hp, ⟨p, hp⟩, by rw [he]; exact id, by rw [he]; exact .refl _⟩
  rw [he]
  exact ⟨w, h.owned, h.shape.update hs fun _ => rfl, h.past⟩

/-- A timer is armed on the current connection. -/
theorem InPhase.rearm (h : InPhase world p c) (slot : Slot) (timer : Timer) {s : Nat} (hsocket : c.socket = some s)
    (hs : slot ≠ .reconnect) (ht : timer.owner = .slot slot) :
    InPhase world p ((c.clear slot).arm slot timer) ∧ Onward world c ((c.clear slot).arm slot timer) := by
  have hp : p.socket ≠ none := by
    rw [← h.shape.socket, hsocket]; nofun
  obtain ⟨timers, w, he⟩ := c.clear_eq slot h.wired
  have hc : InPhase world p (c.clear slot) := (h.clear slot hs).1
  rw [he] at hc ⊢
  suffices harm : InPhase world p (RelayClient.arm _ slot timer) from ⟨harm, ⟨p, harm⟩, id, .refl _⟩
  exact ⟨w.arm (Function.update_self ..) ht, hc.owned, hc.shape.update hs fun e => absurd e hp, hc.past⟩

/-! ## Between two connections -/

/-- No connection, and nothing armed for one. -/
structure Between (c : RelayClient) : Prop where
  wired : Wired c.timers c.nextTimer c.handles c.pending
  owned : Owned c.sockets c.nextSocket none
  socket : c.socket = none
  bare : c.handles .handshake = none ∧ c.handles .heartbeat = none
  known : ∀ s chunk, .heard s chunk ∈ c.history → s < c.nextSocket

theorem Between.aside (h : Between c) (ha : Aside c c') : Between c' := by
  obtain ⟨new, hnew, he⟩ := ha.later
  refine ⟨?_, ?_, ha.socket.trans h.socket, ?_, ?_⟩
  · rw [ha.nextTimer, ha.handles]; exact ha.wired h.wired
  · rw [ha.sockets, ha.nextSocket]; exact h.owned
  · rw [ha.handles]; exact h.bare
  · rw [he, ha.nextSocket]; exact known_extend h.known hnew

/-- The next attempt is armed. -/
theorem Between.wait (h : Between c) (hstate : c.state = .connecting) (hstopped : c.stopped = false) :
    InPhase world .waiting (c.cancelReconnect.arm .reconnect .reconnect) ∧
      (c.cancelReconnect.arm .reconnect .reconnect).history = c.history := by
  obtain ⟨timers, w, he⟩ := c.clear_eq .reconnect h.wired
  rw [RelayClient.cancelReconnect, he]
  have hsocket : Owned c.sockets c.nextSocket c.socket := h.socket ▸ h.owned
  refine ⟨⟨w.arm (Function.update_self ..) rfl, hsocket, ⟨hstate, hstopped, h.socket, ?_, fun _ => ?_, nofun⟩, h.known,
    nofun, nofun⟩, rfl⟩
  · simp [RelayClient.arm, Phase.waits]
  · simpa [RelayClient.arm] using h.bare

theorem Between.schedule (hq : world.Quiet) (h : Between c) (hstate : c.state = .connecting) (hstopped : c.stopped = false)
    (reason : String) : InPhase world .waiting (c.scheduleReconnect world reason) ∧
      Later c.history (c.scheduleReconnect world reason).history := by
  rw [RelayClient.scheduleReconnect, if_neg (by rw [hstopped]; nofun)]
  have ha : Aside c _ := { aside_reportOutage hq { c with attempt := c.attempt + 1 }
    s!"{reason}; reconnecting in {world.delay (c.attempt + 1)} ms" with }
  obtain ⟨hp, he⟩ := (h.aside ha).wait (ha.state.trans hstate) (ha.stopped.trans hstopped)
  exact ⟨hp, he ▸ ha.later⟩

/-! ## Closing a connection -/

/-- A connection that can be torn down, whether or not the client runs. -/
structure Connected (c : RelayClient) (s : Nat) : Prop where
  wired : Wired c.timers c.nextTimer c.handles c.pending
  owned : Owned c.sockets c.nextSocket (some s)
  socket : c.socket = some s
  lone : c.handles .reconnect = none
  known : ∀ s chunk, .heard s chunk ∈ c.history → s < c.nextSocket

theorem InPhase.connected (h : InPhase world p c) {s : Nat} (hs : c.socket = some s) : Connected c s := by
  refine ⟨h.wired, hs ▸ h.owned, hs, ?_, h.past.known⟩
  simpa using h.shape.waits.trans (Phase.running (h.shape.socket.symm.trans hs)).2

theorem Connected.aside {s : Nat} (h : Connected c s) (ha : Aside c c') : Connected c' s := by
  obtain ⟨new, hnew, he⟩ := ha.later
  refine ⟨?_, ?_, ha.socket.trans h.socket, ?_, ?_⟩
  · rw [ha.nextTimer, ha.handles]; exact ha.wired h.wired
  · rw [ha.sockets, ha.nextSocket]; exact h.owned
  · rw [ha.handles]; exact h.lone
  · rw [he, ha.nextSocket]; exact known_extend h.known hnew

/-- Both deadlines of a connection are cleared. -/
theorem RelayClient.clear_both (w : Wired c.timers c.nextTimer c.handles c.pending) :
    ∃ timers handles, Wired timers c.nextTimer handles c.pending ∧ handles .reconnect = c.handles .reconnect ∧
      (handles .handshake = none ∧ handles .heartbeat = none) ∧
      c.clearHandshakeDeadline.clearHeartbeat = { c with timers := timers, handles := handles } := by
  obtain ⟨t1, w1, e1⟩ := c.clear_eq .handshake w
  rw [clearHandshakeDeadline, e1]
  obtain ⟨t2, w2, e2⟩ := RelayClient.clear_eq (c := { c with
    timers := t1, handles := Function.update c.handles .handshake none }) .heartbeat w1
  exact ⟨t2, _, w2, by simp, by simp, e2⟩

theorem Connected.teardown {s : Nat} (h : Connected c s) (reason : String) :
    let c' := c.teardown s reason
    Between c' ∧ c'.handles .reconnect = none ∧ c'.pending = [] ∧ c'.stopped = c.stopped ∧
      c'.state = (if c.stopped then .stopped else .connecting) ∧ Later c.history c'.history := by
  obtain ⟨timers, handles, w, hlone, hbare, he⟩ :=
    RelayClient.clear_both (c := { c with socket := none, accumulator := none }) h.wired
  simp only [RelayClient.teardown, he]
  generalize hc : RelayClient.release _ s = c'
  have hb : Between c' := by
    subst hc
    exact ⟨w, h.owned.release, rfl, hbare, h.known⟩
  have ha := aside_failPending c' ⟨.disconnected, reason, none⟩
  refine ⟨hb.aside ha, ?_, failPending_pending _ _, ?_, ?_, ?_⟩
  · rw [ha.handles, ← hc]; exact hlone.trans h.lone
  · rw [ha.stopped, ← hc]; rfl
  · rw [ha.state, ← hc]; rfl
  · rw [← hc] at ha ⊢; exact ha.later

theorem Connected.close (hq : world.Quiet) {s : Nat} (h : Connected c s) (reason : String) :
    Onward world c (c.closeConnection world s reason) := by
  rw [RelayClient.closeConnection, if_neg (by rw [h.socket]; exact fun hne => hne rfl)]
  obtain ⟨hb, hlone, hpending, hstopped, hstate, hlater⟩ := h.teardown reason
  generalize c.teardown s reason = c' at *
  have hrest : Onward world c (if c'.stopped then c' else c'.scheduleReconnect world reason) := by
    by_cases hs : c.stopped = true
    · rw [hs] at hstopped hstate
      rw [if_pos hstopped]
      refine ⟨⟨.halted, hb.wired, hb.socket ▸ hb.owned, ?_, hb.known, nofun, nofun⟩, fun _ => hstopped, hlater⟩
      exact ⟨hstate, hstopped, hb.socket, by rw [hlone]; rfl, fun _ => hb.bare, fun _ => hpending⟩
    · rw [Bool.not_eq_true] at hs
      rw [hs] at hstopped hstate
      rw [if_neg (by rw [hstopped]; nofun)]
      obtain ⟨hp, hlater'⟩ := hb.schedule hq hstate hstopped reason
      exact ⟨⟨.waiting, hp⟩, fun e => (by rw [hs] at e; cases e), hlater.trans hlater'⟩
  obtain ⟨p, hp⟩ := hrest.phase
  exact hrest.trans ((aside_notify hq _ _).onward hp)

theorem InPhase.close (hq : world.Quiet) (h : InPhase world p c) (s : Nat) (reason : String) :
    Onward world c (c.closeConnection world s reason) := by
  by_cases hs : c.socket = some s
  · exact (h.connected hs).close hq reason
  · rw [RelayClient.closeConnection, if_pos hs]; exact h.onward

/-! ## Writing -/

theorem InPhase.writeEncoded (hq : world.Quiet) (h : InPhase world p c) (frame : Outgoing) (encoded : Bytes) :
    Onward world c (c.writeEncoded world frame encoded) := by
  unfold RelayClient.writeEncoded
  split
  · exact h.onward
  · rename_i s hs
    have ha : Aside c ({ c with writes := c.writes + 1 }.record (.wrote s frame encoded)) :=
      { Aside.record { c with writes := c.writes + 1 } (.wrote s frame encoded) rfl with }
    have hp := ha.inPhase h
    refine (ha.onward h).trans ?_
    cases hw : world.write c.writes with
    | some error => exact hp.close hq s _
    | none => exact (hp.rearm .heartbeat .heartbeat hs (by nofun) rfl).2

theorem InPhase.write (hq : world.Quiet) (h : InPhase world p c) (what : Outgoing) (frame : ClientFrame) :
    Onward world c (c.write world what frame) := by
  unfold RelayClient.write
  split
  · exact (aside_report hq c _ _).onward h
  · exact h.writeEncoded hq _ _

/-- An entry's frame is taken out of it. -/
theorem InPhase.markWritten (h : InPhase world p c) (request : Nat) : InPhase world p (c.markWritten request) := by
  refine ⟨h.wired.relabel ?_ ?_, h.owned, ?_, h.past⟩
  · intro e; split <;> rfl
  · intro e; split <;> rfl
  · refine { h.shape with settled := fun hp => ?_ }
    rw [RelayClient.markWritten, h.shape.settled hp]; rfl

theorem onward_markWritten (h : Onward world c c') (request : Nat) : Onward world c (c'.markWritten request) := by
  obtain ⟨p, hp⟩ := h.phase
  exact ⟨⟨p, hp.markWritten request⟩, h.stopped, h.later⟩

theorem InPhase.flushKeys (hq : world.Quiet) (h : InPhase world p c) (keys : List Key) :
    Onward world c (c.flushKeys world keys) := by
  induction keys generalizing p c with
  | nil => exact h.onward
  | cons key keys ih =>
    unfold RelayClient.flushKeys
    split
    · exact ih h
    · rename_i entry _
      split
      · exact ih h
      · rename_i encoded _
        have hw := (h.markWritten entry.request).writeEncoded hq (.request entry.request) encoded
        have hfirst : Onward world c _ := (onward_markWritten h.onward entry.request).trans hw
        obtain ⟨p', hp'⟩ := hw.phase
        exact hfirst.trans (ih hp')

theorem InPhase.flushUnwritten (hq : world.Quiet) (h : InPhase world p c) : Onward world c (c.flushUnwritten world) :=
  h.flushKeys hq _

/-! ## Requests -/

theorem InPhase.enter (hq : world.Quiet) (h : InPhase world p c) (hs : c.stopped = false) (request : Nat) {key : Key}
    (hnew : c.find key = none) (kind : RequestKind) (encoded : Bytes) :
    Onward world c (c.enter world request key kind encoded) := by
  unfold RelayClient.enter
  generalize hc : ({ c with
    pending := c.pending ++ [⟨key, kind, request, some c.nextTimer, some encoded⟩]
    timers := c.timers.insert c.nextTimer (.request key), nextTimer := c.nextTimer + 1 } : RelayClient) = c'
  have hrunning : p ≠ .halted := by
    rintro rfl
    cases h.shape.stopped.symm.trans hs
  have hp : InPhase world p c' := by
    subst hc
    exact ⟨h.wired.issue ⟨key, kind, request, some c.nextTimer, some encoded⟩ rfl hnew, h.owned,
       { h.shape with settled := fun e => absurd e hrunning }, h.past⟩
  have hfirst : Onward world c c' := by
    subst hc
    exact ⟨⟨p, hp⟩, id, .refl _⟩
  show Onward world c (if c'.state = .ready then (c'.writeEncoded world (.request request) encoded).markWritten request else c')
  split
  · exact hfirst.trans (onward_markWritten (hp.writeEncoded hq _ _) request)
  · exact hfirst

theorem InPhase.issue (hq : world.Quiet) (h : InPhase world p c) (request : Nat) (token : String) (kind : RequestKind)
    (frame : ClientFrame) : Onward world c (c.issue world request token kind frame) := by
  have hsettle : ∀ settlement, Onward world c (c.record (.settled request settlement)) := fun settlement =>
    (Aside.record c (.settled request settlement) rfl).onward h
  unfold RelayClient.issue
  simp only
  split
  · exact hsettle _
  · rename_i hs
    split
    · exact hsettle _
    · rename_i hfind
      split
      · exact hsettle _
      · split
        · exact hsettle _
        · exact h.enter hq (Bool.not_eq_true _ ▸ hs) request hfind kind _

theorem InPhase.call (hq : world.Quiet) (h : InPhase world p c) (call : Call) : Onward world c (c.call world call) := by
  have ha : Aside c ({ c with requests := c.requests + 1 }.record (.issued c.requests call.kind call.token)) :=
    { Aside.record { c with requests := c.requests + 1 } (.issued c.requests call.kind call.token) rfl with }
  have hp := ha.inPhase h
  unfold RelayClient.call
  refine (ha.onward h).trans ?_
  cases call.frame with
  | error message => exact (Aside.record _ (.settled c.requests _) rfl).onward hp
  | ok frame => exact hp.issue hq _ _ _ _

/-! ## Frames of the relay -/

theorem aside_settle (hq : world.Quiet) (c : RelayClient) (token : String) (kind : RequestKind) (frame : ServerFrame) :
    Aside c (c.settle world token kind frame) := by
  have hs := aside_settleKey c ⟨kind.replySpace, token⟩ (.ok frame)
  unfold RelayClient.settle
  simp only
  split
  · exact hs
  · exact hs.trans (aside_report hq _ _ _)

theorem aside_settleFirst (c : RelayClient) (token : String) (outcome : RequestOutcome) (spaces : List ReplySpace) :
    Aside c (c.settleFirst token outcome spaces).2 := by
  induction spaces generalizing c with
  | nil => exact .refl c
  | cons space spaces ih =>
    have hs := aside_settleKey c ⟨space, token⟩ outcome
    unfold RelayClient.settleFirst
    split
    · rename_i he; rw [he] at hs; exact hs
    · rename_i he; rw [he] at hs; exact hs.trans (ih _)

theorem aside_answerError (c : RelayClient) (code : String) (requestId : Option String) (outcome : RequestOutcome) :
    Aside c (c.answerError code requestId outcome).2 := by
  unfold RelayClient.answerError
  split
  · split
    · exact aside_settleFirst c _ outcome replySpaces
    · exact .refl c
  · split
    · exact aside_settleAll c _ outcome
    · exact .refl c

theorem aside_connectionError (hq : world.Quiet) (c : RelayClient) (detail : String) :
    Aside c (c.connectionError world detail) := by
  unfold RelayClient.connectionError
  split
  · exact { aside_report hq { c with statedCause := some s!"the relay reported {detail}" } .error
      s!"the relay reported {detail}" with }
  · exact { Aside.refl c with }

/-- An error ends the run if the name was taken, and otherwise settles what it answers. -/
theorem InPhase.handleError (hq : world.Quiet) (h : InPhase world p c) {s : Nat} (hs : c.socket = some s) (code : String)
    (message requestId : Option String) : Onward world c (c.handleError world s code message requestId) ∧
      (code = "peer_replaced" → (c.handleError world s code message requestId).stopped = true) := by
  unfold RelayClient.handleError
  simp only
  split
  · have ha := aside_report hq { c with stopped := true } .error RelayClient.peerReplacedReport
    have hc : Connected { c with stopped := true } s := { h.connected hs with }
    have hclose := (hc.aside ha).close hq RelayClient.peerReplacedReport
    have hstopped := hclose.stopped ha.stopped
    exact ⟨⟨hclose.phase, fun _ => hstopped, ha.later.trans hclose.later⟩, fun _ => hstopped⟩
  · rename_i hcode
    refine ⟨?_, fun e => absurd e hcode⟩
    have ha := aside_answerError c code requestId
      (.failed ⟨.relayError, s!"the relay rejected the request: {RelayClient.errorDetail code message}", some code⟩)
    split
    · exact ha.onward h
    · exact (ha.trans (aside_connectionError hq _ _)).onward h

/-- The client is let in. -/
theorem InPhase.welcome (hq : world.Quiet) (h : InPhase world p c) {s : Nat} (hs : c.socket = some s)
    (hgot : ∃ version, Got world s c.history (.ready version)) : Onward world c (c.welcome world) := by
  have hp : p.socket = some s := h.shape.socket.symm.trans hs
  have hready : InPhase world (.ready s) { c with state := .ready, attempt := 0, outageReported := false } := by
    obtain ⟨hrun, hlone⟩ := Phase.running hp
    refine ⟨h.wired, h.owned, ⟨rfl, h.shape.stopped.trans hrun, hs, h.shape.waits.trans hlone, nofun, nofun⟩,
      h.past.known, ?_, ?_⟩
    · rintro _ ⟨⟩; exact h.past.reading s hp
    · rintro _ ⟨⟩; exact hgot
  have hfirst : Onward world c { c with state := .ready, attempt := 0, outageReported := false } :=
    ⟨⟨_, hready⟩, id, .refl _⟩
  obtain ⟨hcleared, hclear⟩ := hready.clear .handshake (by nofun)
  obtain ⟨harmed, harm⟩ := hcleared.rearm .heartbeat .heartbeat hcleared.shape.socket (by nofun) rfl
  have hflush := harmed.flushUnwritten hq
  obtain ⟨p', hp'⟩ := hflush.phase
  exact (((hfirst.trans hclear).trans harm).trans hflush).trans ((aside_notify hq _ _).onward hp')

theorem InPhase.dispatch (hq : world.Quiet) (h : InPhase world p c) {s : Nat} (hs : c.socket = some s) {frame : ServerFrame}
    (hgot : Got world s c.history frame) : Onward world c (c.dispatch world s frame) ∧
      (∀ detail requestId, frame = .error "peer_replaced" detail requestId → (c.dispatch world s frame).stopped = true) := by
  unfold RelayClient.dispatch
  split
  · rename_i hready
    refine ⟨h.close hq s _, ?_⟩
    rintro detail requestId rfl
    exact absurd hready.2 (show "error" ≠ "ready" by decide)
  split
  · rename_i hearly
    refine ⟨(aside_report hq c _ _).onward h, ?_⟩
    rintro detail requestId rfl
    exact absurd rfl hearly.2.2
  cases frame with
  | ready version => exact ⟨h.welcome hq hs ⟨version, hgot⟩, nofun⟩
  | pong => exact ⟨h.onward, nofun⟩
  | message => exact ⟨(aside_notify hq c _).onward h, nofun⟩
  | notice => exact ⟨(aside_notify hq c _).onward h, nofun⟩
  | peers | receipt | accepted | reserved => exact ⟨(aside_settle hq c _ _ _).onward h, nofun⟩
  | error code detail requestId =>
    obtain ⟨hon, hreplaced⟩ := h.handleError hq hs code detail requestId
    refine ⟨hon, ?_⟩
    rintro _ _ ⟨⟩
    exact hreplaced rfl

end

end OmpRelayd.Client
