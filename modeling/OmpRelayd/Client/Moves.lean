/-
  OmpRelayd.Client.Moves — the small steps of a client.

  A method of the client is a course of moves: a timer is armed or cleared, a request is entered,
  written or settled, a socket is taken or given up, the client stops. `Move` lists them, each with
  what is true when it is made; what no invariant looks at is one move (`aside`). The host may stop
  the client in any of its callbacks, so a stop may come between any two moves.

  `Intact` is what every move keeps (`Move.intact`): the wiring, the sockets, the docket of the
  requests with their deadlines, and the posture of the client's flags. Nothing is said here of the
  order the methods make their moves in; that is for `Courses`.
-/

import OmpRelayd.Client.Docket
import OmpRelayd.Client.Phases

namespace OmpRelayd.Client

/-- The host does not stop the client from the report of an outage. -/
def World.Considerate (world : World) : Prop :=
  ∀ n (reason : String) (delay : Nat) reaction, world.host n (.onReport .warn s!"{reason}; reconnecting in {delay} ms") = some reaction →
    reaction.stops = false

/-! ## Forms

    What the compound methods leave, as one update. -/

/-- A request that is settled with an outcome. -/
def Settles (outcome : RequestOutcome) (e : Effect) : Prop :=
  ∃ request kind token, e = .settled request (RequestKind.conclude kind token outcome)

namespace RelayClient

variable (c : RelayClient)

theorem clear_form (slot : Slot) :
    ∃ timers, c.clear slot = { c with timers := timers, handles := Function.update c.handles slot none } := by
  unfold clear
  split
  · rename_i hnone
    refine ⟨c.timers, ?_⟩
    rw [← hnone, Function.update_eq_self]
  · rename_i handle _
    exact ⟨c.timers.erase handle, rfl⟩

theorem settleKey_found {key : Key} {entry : PendingRequest} (h : c.find key = some entry) (outcome : RequestOutcome) :
    ∃ timers, (c.settleKey key outcome).2 = { c with
      pending := c.pending.filter (·.key ≠ key), timers := timers,
      history := .settled entry.request (entry.kind.conclude key.token outcome) :: c.history } := by
  unfold settleKey
  rw [h]
  dsimp only
  cases entry.timer with
  | none => exact ⟨c.timers, rfl⟩
  | some handle => exact ⟨c.timers.erase handle, rfl⟩

theorem settleKey_form (key : Key) (outcome : RequestOutcome) :
    ∃ timers new, (∀ e ∈ new, Settles outcome e) ∧ (c.settleKey key outcome).2 =
      { c with pending := c.pending.filter (·.key ≠ key), timers := timers, history := new ++ c.history } := by
  cases h : c.find key with
  | none =>
    have hpending := settleKey_pending c key outcome
    rw [settleKey, h] at hpending ⊢
    exact ⟨c.timers, [], List.forall_mem_nil _, by rw [← hpending]; rfl⟩
  | some entry =>
    obtain ⟨timers, he⟩ := c.settleKey_found h outcome
    exact ⟨timers, [_], List.forall_mem_singleton.mpr ⟨_, _, _, rfl⟩, he⟩

theorem settleAll_form (keys : List Key) (outcome : RequestOutcome) :
    ∃ timers new, (∀ e ∈ new, Settles outcome e) ∧ (c.settleAll keys outcome).2 =
      { c with pending := c.pending.filter (·.key ∉ keys), timers := timers, history := new ++ c.history } := by
  induction keys generalizing c with
  | nil => exact ⟨c.timers, [], List.forall_mem_nil _, by simp [settleAll]⟩
  | cons key keys ih =>
    have hpending := settleAll_pending c (key :: keys) outcome
    obtain ⟨t1, new1, hnew1, e1⟩ := c.settleKey_form key outcome
    obtain ⟨t2, new2, hnew2, e2⟩ := ih (c.settleKey key outcome).2
    have he : (c.settleAll (key :: keys) outcome).2 = ((c.settleKey key outcome).2.settleAll keys outcome).2 := rfl
    rw [he, e2] at hpending ⊢
    rw [e1] at hpending ⊢
    refine ⟨t2, new2 ++ new1, ?_, ?_⟩
    · exact List.forall_mem_append.mpr ⟨hnew2, hnew1⟩
    · rw [← hpending, List.append_assoc]

theorem failPending_form (error : RequestFailed) :
    ∃ timers new, (∀ e ∈ new, Settles (.failed error) e) ∧
      c.failPending error = { c with pending := [], timers := timers, history := new ++ c.history } := by
  have hpending := failPending_pending c error
  obtain ⟨timers, new, hnew, he⟩ := c.settleAll_form (c.pending.map (·.key)) (.failed error)
  rw [failPending, he] at hpending ⊢
  exact ⟨timers, new, hnew, by rw [← hpending]⟩

def stopError : RequestFailed := ⟨.stopped, "the client was stopped", none⟩

/-- The sockets, with the current one released. -/
def released : Map Nat Socket :=
  match c.socket with
  | none => c.sockets
  | some socket => c.sockets.insert socket ⟨false, true⟩

theorem hangUp_form : c.hangUp = { c with socket := none, accumulator := none, sockets := c.released } := by
  unfold hangUp released
  cases h : c.socket with
  | none => cases c; cases h; rfl
  | some socket => rfl

theorem stop_form :
    ∃ timers new, (∀ e ∈ new, Settles (.failed stopError) e) ∧
      c.stop = { c with
        state := .stopped, stopped := true, generation := c.generation + 1, socket := none, accumulator := none,
        handles := fun _ => none, pending := [], timedOut := [], sockets := c.released, timers := timers,
        history := new ++ .stopped :: c.history } := by
  simp only [stop]
  generalize hc : record { c with stopped := true, generation := c.generation + 1, state := .stopped } .stopped = c0
  obtain ⟨t1, e1⟩ := c0.clear_form .reconnect
  obtain ⟨t2, e2⟩ := (c0.clear .reconnect).clear_form .handshake
  obtain ⟨t3, e3⟩ := ((c0.clear .reconnect).clear .handshake).clear_form .heartbeat
  rw [cancelReconnect, clearHandshakeDeadline, clearHeartbeat, e3, e2, e1]
  have hnone : Function.update (Function.update (Function.update c0.handles .reconnect none) .handshake none) .heartbeat
      none = fun _ => none := by
    funext slot
    cases slot <;> rfl
  simp only [hnone]
  obtain ⟨t4, new, hnew, e4⟩ :=
    failPending_form { c0 with timers := t3, handles := fun _ => none, timedOut := [] } stopError
  refine ⟨t4, new, hnew, ?_⟩
  have he : failPending { c0 with timers := t3, handles := fun _ => none, timedOut := [] }
      ⟨.stopped, "the client was stopped", none⟩ = _ := e4
  rw [he, hangUp_form, ← hc]
  rfl

theorem teardown_form (s : Nat) (reason : String) :
    ∃ timers new, (∀ e ∈ new, Settles (.failed ⟨.disconnected, reason, none⟩) e) ∧
      c.teardown s reason = { c with
        state := if c.stopped then .stopped else .connecting, socket := none, accumulator := none, timedOut := [],
        handles := Function.update (Function.update c.handles .handshake none) .heartbeat none,
        pending := [], sockets := c.sockets.insert s ⟨false, true⟩, timers := timers, history := new ++ c.history } := by
  simp only [teardown]
  generalize hc : ({ c with socket := none, accumulator := none } : RelayClient) = c0
  obtain ⟨t1, e1⟩ := c0.clear_form .handshake
  obtain ⟨t2, e2⟩ := (c0.clear .handshake).clear_form .heartbeat
  rw [clearHandshakeDeadline, clearHeartbeat, e2, e1]
  obtain ⟨t3, new, hnew, e3⟩ := failPending_form _ ⟨.disconnected, reason, none⟩
  exact ⟨t3, new, hnew, by rw [e3, ← hc]; rfl⟩

end RelayClient

/-- What remains of the entries when a deadline has passed. -/
theorem filter_lapsed (pending : List PendingRequest) (key : Key) :
    (pending.map fun e => if e.key = key then { e with timer := none } else e).filter (·.key ≠ key) =
      pending.filter (·.key ≠ key) := by
  induction pending with
  | nil => rfl
  | cons e pending ih =>
    by_cases h : e.key = key
    · simpa [h] using ih
    · simpa [h] using ih

/-- What `markWritten` does to an entry. -/
def mark (request : Nat) (e : PendingRequest) : PendingRequest :=
  if e.request = request then { e with unwritten := none } else e

theorem markWritten_pending (c : RelayClient) (request : Nat) :
    (c.markWritten request).pending = c.pending.map (mark request) := rfl

theorem mark_same (request : Nat) (e : PendingRequest) :
    (mark request e).key = e.key ∧ (mark request e).kind = e.kind ∧ (mark request e).request = e.request ∧
      (mark request e).timer = e.timer := by
  rw [mark]
  split <;> exact ⟨rfl, rfl, rfl, rfl⟩

theorem mark_unwritten {request : Nat} {e : PendingRequest} (h : e.unwritten = none) : (mark request e).unwritten = none := by
  rw [mark]
  split
  · rfl
  · exact h

def timeoutError : RequestFailed := ⟨.timeout, s!"no reply within {requestTimeoutMs} ms", none⟩

/-- The tombstones when a deadline has passed: a written request leaves one. -/
def RelayClient.tombstones (c : RelayClient) (key : Key) : List Key :=
  if (c.find key).any (·.unwritten.isNone) then key :: c.timedOut else c.timedOut

theorem RelayClient.fire_request (c : RelayClient) (world : World) (handle : Nat) (key : Key) :
    c.fire world handle (.request key) =
      (RelayClient.settleKey { c.lapse handle key with timedOut := c.tombstones key } key (.failed timeoutError)).2 := by
  have hfind : ((c.lapse handle key).find key).any (·.unwritten.isNone) = (c.find key).any (·.unwritten.isNone) := by
    show (entryOf (c.lapse handle key).pending key).any _ = (entryOf c.pending key).any _
    rw [RelayClient.lapse, entryOf_map (fun e => by split <;> rfl)]
    cases entryOf c.pending key with
    | none => rfl
    | some e => simp only [Option.map_some, Option.any_some]; split <;> rfl
  have hfire : c.fire world handle (.request key) = (RelayClient.settleKey (if _ then _ else _) key (.failed timeoutError)).2 := rfl
  rw [hfire, hfind, tombstones]
  split <;> rfl

theorem RelayClient.expire_form (c : RelayClient) (world : World) (handle : Nat) (key : Key) :
    ∃ timers new, (∀ e ∈ new, Settles (.failed timeoutError) e) ∧ c.fire world handle (.request key) =
      { c with
        pending := c.pending.filter (·.key ≠ key), timers := timers, timedOut := c.tombstones key,
        history := new ++ c.history } := by
  obtain ⟨timers, new, hnew, he⟩ :=
    settleKey_form { c.lapse handle key with timedOut := c.tombstones key } key (.failed timeoutError)
  refine ⟨timers, new, hnew, ?_⟩
  rw [fire_request, he]
  simp only [lapse, filter_lapsed]
  rfl

/-! ## What every move keeps -/

/-- The requests that are pending, with their deadlines. -/
structure Books (c : RelayClient) : Prop where
  wired : Wired c.timers c.nextTimer c.handles c.pending
  docket : Docket c.pending c.requests c.history
  deadline : ∀ e ∈ c.pending, e.timer ≠ none

structure Posture (state : ClientState) (stopped : Bool) (socket : Option Nat) (handles : Slot → Option Nat)
    (pending : List PendingRequest) (history : List Effect) : Prop where
  ready : state = .ready → ∃ s, socket = some s ∧ Welcomed history s
  halted : state = .stopped → socket = none ∧ pending = []
  running : stopped = false → state ≠ .stopped
  waits : handles .reconnect ≠ none → socket = none
  ended : ∀ s r encoded, .wrote s (.request r) encoded ∈ history → socket ≠ some s → IsSettled history r

structure Intact (c : RelayClient) : Prop where
  books : Books c
  owned : Owned c.sockets c.nextSocket c.socket
  posture : Posture c.state c.stopped c.socket c.handles c.pending c.history
  sites : ∀ s frame encoded, .wrote s frame encoded ∈ c.history → s < c.nextSocket

theorem Docket.settleKey {c : RelayClient} (d : Docket c.pending c.requests c.history) (hkeys : (c.pending.map (·.key)).Nodup)
    (key : Key) (outcome : RequestOutcome) :
    let c' := (c.settleKey key outcome).2
    Docket c'.pending c'.requests c'.history := by
  unfold RelayClient.settleKey
  split
  · exact d
  · rename_i entry hfind
    have hd := d.settle hkeys hfind (entry.kind.conclude key.token outcome)
    cases entry.timer with
    | none => exact hd
    | some handle => exact hd

namespace Books

variable {c : RelayClient}

theorem clear (h : Books c) (slot : Slot) : Books (c.clear slot) := by
  obtain ⟨timers, w, he⟩ := c.clear_eq slot h.wired
  rw [he]
  exact ⟨w, h.docket, h.deadline⟩

theorem settleKey (h : Books c) (key : Key) (outcome : RequestOutcome) : Books (c.settleKey key outcome).2 := by
  have ha := aside_settleKey c key outcome
  refine ⟨?_, h.docket.settleKey h.wired.keys key outcome, ?_⟩
  · rw [ha.nextTimer, ha.handles]; exact ha.wired h.wired
  · rw [settleKey_pending]
    exact fun e he => h.deadline e (List.mem_of_mem_filter he)

theorem settleAll (h : Books c) (keys : List Key) (outcome : RequestOutcome) : Books (c.settleAll keys outcome).2 := by
  induction keys generalizing c with
  | nil => exact h
  | cons key keys ih => exact ih (h.settleKey key outcome)

theorem failPending (h : Books c) (error : RequestFailed) : Books (c.failPending error) := h.settleAll _ _

theorem hangUp (h : Books c) : Books c.hangUp := by
  rw [RelayClient.hangUp_form]
  exact ⟨h.wired, h.docket, h.deadline⟩

theorem stop (h : Books c) : Books c.stop := by
  have hmarked : Books (RelayClient.record { c with
      stopped := true, generation := c.generation + 1, state := .stopped } .stopped) :=
    ⟨h.wired, h.docket.plain rfl trivial, h.deadline⟩
  have hclear := ((hmarked.clear .reconnect).clear .handshake).clear .heartbeat
  refine hangUp (failPending ?_ _)
  exact ⟨hclear.wired, hclear.docket, hclear.deadline⟩

theorem teardown (h : Books c) (s : Nat) (reason : String) : Books (c.teardown s reason) := by
  have hclear := (clear (c := { c with socket := none, accumulator := none }) ⟨h.wired, h.docket, h.deadline⟩ .handshake).clear
    .heartbeat
  refine failPending ?_ _
  exact ⟨hclear.wired, hclear.docket, hclear.deadline⟩

/-- When nothing is pending, all has been settled. -/
theorem all_settled (h : Books c) (hp : c.pending = []) {r : Nat} (hr : r < c.requests) : IsSettled c.history r := by
  rcases h.docket.accounted r hr with hs | ⟨e, he, -⟩
  · exact hs
  · rw [hp] at he; cases he

/-- The deadline of a pending request is armed. -/
theorem armed (h : Books c) {e : PendingRequest} (he : e ∈ c.pending) :
    ∃ handle, e.timer = some handle ∧ c.timers.lookup handle = some (.request e.key) := by
  obtain ⟨handle, ht⟩ := Option.ne_none_iff_exists'.mp (h.deadline e he)
  have hof : entryOf c.pending e.key = some e := (entryOf_eq_some_iff h.wired.keys).mpr ⟨he, rfl⟩
  obtain ⟨t, hl, ho⟩ := h.wired.timers.there (.request e.key) handle (by rw [held, hof]; exact ht)
  refine ⟨handle, ht, ?_⟩
  cases t with
  | request key => cases ho; exact hl
  | reconnect => cases ho
  | handshake s => cases ho
  | heartbeat => cases ho

end Books

/-! ## Moves -/

/-- An effect that no request and no connection turns on. -/
def Effect.passing : Effect → Bool
  | .started => true
  | .attempted => true
  | .heard _ _ => true
  | .called _ => true
  | _ => false

/-- The client settles the request of a key, with this outcome, when it is told this frame. -/
inductive Reply : ServerFrame → Key → RequestOutcome → Prop
  | peers (requestId names) : Reply (.peers requestId names) ⟨.list, requestId⟩ (.ok (.peers requestId names))
  | receipt (id target status) : Reply (.receipt id target status) ⟨.delivery, id⟩ (.ok (.receipt id target status))
  | accepted (id delivered shed) : Reply (.accepted id delivered shed) ⟨.delivery, id⟩ (.ok (.accepted id delivered shed))
  | reserved (requestId status expiresIn) :
    Reply (.reserved requestId status expiresIn) ⟨.reserve, requestId⟩ (.ok (.reserved requestId status expiresIn))
  | error (code message requestId space) (error : RequestFailed) (h : error.reason = .relayError) :
    Reply (.error code message (some requestId)) ⟨space, requestId⟩ (.failed error)

/-- A call whose request is pending. -/
def RelayClient.entered (c : RelayClient) (key : Key) (kind : RequestKind) (encoded : Bytes) : RelayClient :=
  { c with
    requests := c.requests + 1
    history := .issued c.requests kind key.token :: c.history
    pending := c.pending ++ [⟨key, kind, c.requests, some c.nextTimer, some encoded⟩]
    timers := c.timers.insert c.nextTimer (.request key)
    nextTimer := c.nextTimer + 1 }

/-- A call that came to nothing. -/
def RelayClient.refused (c : RelayClient) (kind : RequestKind) (token : String) (error : RequestFailed) : RelayClient :=
  { c with
    requests := c.requests + 1
    history := .settled c.requests (.rejected error) :: .issued c.requests kind token :: c.history }

/-- One move. `law` is what is known of the key of a request when it is entered. -/
inductive Move (world : World) (law : RelayClient → Key → Prop) (c : RelayClient) : RelayClient → Prop
  | aside (accumulator attempt outageReported statedCause generation detached connects writes calls) :
    Move world law c { c with accumulator, attempt, outageReported, statedCause, generation, detached, connects, writes, calls }
  | passed (e : Effect) (he : e.passing = true) : Move world law c (c.record e)
  | dispatched (s : Nat) (frame : ServerFrame) (hs : c.socket = some s) : Move world law c (c.record (.dispatched s frame))
  | cleared (slot : Slot) : Move world law c (c.clear slot)
  | armed (slot : Slot) (timer : Timer) (ht : timer.owner = .slot slot) (hfree : c.handles slot = none)
    (hlone : slot = .reconnect → c.socket = none ∧ (world.Considerate → c.stopped = false))
    (hon : slot ≠ .reconnect → c.socket ≠ none) : Move world law c (c.arm slot timer)
  | stopped : Move world law c c.stop
  | tornDown (s : Nat) (reason : String) (hs : c.socket = some s) : Move world law c (c.teardown s reason)
  | displaced (hs : c.socket ≠ none) : Move world law c { c with stopped := true }
  | connected (hr : c.stopped = false) (hs : c.socket = none) (hw : c.handles .reconnect = none) :
    Move world law c { c with
      socket := some c.nextSocket
      sockets := c.sockets.insert c.nextSocket ⟨true, false⟩
      nextSocket := c.nextSocket + 1 }
  | readied (s : Nat) (hs : c.socket = some s) (hd : Welcomed c.history s) : Move world law c { c with state := .ready }
  | wrote (s : Nat) (frame : Outgoing) (encoded : Bytes) (hs : c.socket = some s)
    (hf : frame = .hello ∨ frame = .ping ∧ c.state = .ready) : Move world law c (c.record (.wrote s frame encoded))
  | sent (s : Nat) (entry : PendingRequest) (encoded : Bytes) (hs : c.socket = some s) (hr : c.state = .ready)
    (he : entry ∈ c.pending) (hu : entry.unwritten = some encoded)
    (hfirst : ∀ e ∈ c.pending, e.unwritten ≠ none → entry.request ≤ e.request) :
    Move world law c ((c.markWritten entry.request).record (.wrote s (.request entry.request) encoded))
  | entered (key : Key) (kind : RequestKind) (encoded : Bytes) (hr : c.stopped = false) (hnew : c.find key = none)
    (hold : key ∉ c.timedOut) (hspace : key.space = kind.replySpace) (hlaw : law c key) :
    Move world law c (c.entered key kind encoded)
  | refused (kind : RequestKind) (token : String) (error : RequestFailed) (h : error.reason ∈ [.stopped, .invalidRequest]) :
    Move world law c (c.refused kind token error)
  | answered (s : Nat) (frame : ServerFrame) (older : List Effect) (key : Key) (outcome : RequestOutcome)
    (hh : c.history = .dispatched s frame :: older) (hr : Reply frame key outcome) (hs : c.socket = some s) :
    Move world law c (c.settleKey key outcome).2
  | denied (s : Nat) (message : Option String) (key : Key) (outcome : RequestOutcome)
    (hd : .dispatched s (.error "unsupported_frame" message none) ∈ c.history) : Move world law c (c.settleKey key outcome).2
  | expired (handle : Nat) (key : Key) (hl : c.timers.lookup handle = some (.request key)) :
    Move world law c (c.fire world handle (.request key))
  | perished (s : Nat) (socket : Socket) (hs : c.sockets.lookup s = some socket) :
    Move world law c { c with sockets := c.sockets.insert s { socket with destroyed := true } }

namespace Posture

variable {state : ClientState} {stopped : Bool} {socket : Option Nat} {handles : Slot → Option Nat}
  {pending pending' : List PendingRequest} {history new : List Effect}

/-- Requests may be settled, and anything recorded but the writing of one. -/
theorem extend (h : Posture state stopped socket handles pending history) (hp : pending = [] → pending' = [])
    (hnew : ∀ s r encoded, .wrote s (.request r) encoded ∉ new) :
    Posture state stopped socket handles pending' (new ++ history) := by
  refine ⟨?_, ?_, h.running, h.waits, ?_⟩
  · intro hs
    obtain ⟨s, hsocket, version, hd⟩ := h.ready hs
    exact ⟨s, hsocket, version, List.mem_append_right _ hd⟩
  · intro hs
    exact ⟨(h.halted hs).1, hp (h.halted hs).2⟩
  · intro s r encoded hw hne
    rcases List.mem_append.mp hw with hw | hw
    · exact absurd hw (hnew s r encoded)
    · obtain ⟨o, ho⟩ := h.ended s r encoded hw hne
      exact ⟨o, List.mem_append_right _ ho⟩

theorem record (h : Posture state stopped socket handles pending history) {e : Effect}
    (he : ∀ s r encoded, e ≠ .wrote s (.request r) encoded) :
    Posture state stopped socket handles pending (e :: history) :=
  h.extend id fun s r encoded hm => he s r encoded (List.mem_singleton.mp hm).symm

end Posture

theorem Settles.not_wrote {outcome : RequestOutcome} {new : List Effect} (h : ∀ e ∈ new, Settles outcome e) (s : Nat)
    (frame : Outgoing) (encoded : Bytes) : .wrote s frame encoded ∉ new := by
  intro hm
  obtain ⟨r, kind, token, he⟩ := h _ hm
  cases he

theorem Books.expire {c : RelayClient} (h : Books c) (world : World) {handle : Nat} {key : Key}
    (hl : c.timers.lookup handle = some (.request key)) : Books (c.fire world handle (.request key)) := by
  have hlapse : ∀ e : PendingRequest, (if e.key = key then { e with timer := none } else e).key = e.key ∧
      (if e.key = key then { e with timer := none } else e).kind = e.kind ∧
      (if e.key = key then { e with timer := none } else e).request = e.request ∧
      (if e.key = key then { e with timer := none } else e).unwritten = e.unwritten := by
    intro e; split <;> exact ⟨rfl, rfl, rfl, rfl⟩
  have hw := h.wired.lapse hl
  have hd := h.docket.relabel (fun e => (hlapse e).1) (fun e => (hlapse e).2.1) (fun e => (hlapse e).2.2.1)
    fun e hu => (hlapse e).2.2.2 ▸ hu
  have hdeadline : ∀ e ∈ (c.fire world handle (.request key)).pending, e.timer ≠ none := by
    obtain ⟨timers, new, -, he⟩ := c.expire_form world handle key
    rw [he]
    exact fun e he => h.deadline e (List.mem_of_mem_filter he)
  rw [RelayClient.fire_request] at hdeadline ⊢
  generalize hc : ({ c.lapse handle key with timedOut := c.tombstones key } : RelayClient) = c' at *
  have ha := aside_settleKey c' key (.failed timeoutError)
  refine ⟨?_, Docket.settleKey (c := c') ?_ ?_ key _, hdeadline⟩
  · rw [ha.nextTimer, ha.handles]
    exact ha.wired (by subst hc; exact hw)
  · subst hc; exact hd
  · subst hc; exact hw.keys

namespace Intact

variable {c : RelayClient}

theorem plain (h : Intact c) {e : Effect} (he : e.plain = true) (hf : Follows e c.history)
    (hs : ∀ s frame encoded, e = .wrote s frame encoded → s < c.nextSocket) : Intact (c.record e) := by
  refine ⟨⟨h.books.wired, h.books.docket.plain he hf, h.books.deadline⟩, h.owned, h.posture.record ?_, ?_⟩
  · intro s r encoded heq
    rw [heq] at he; cases he
  · intro s frame encoded hm
    rcases List.mem_cons.mp hm with hm | hm
    · exact hs s frame encoded hm.symm
    · exact h.sites s frame encoded hm

/-- Nothing but settling has been done, and the books are still right. -/
theorem settled (h : Intact c) {pending : List PendingRequest} {timers : Map Nat Timer} {timedOut : List Key}
    {new : List Effect} {outcome : RequestOutcome} (hnew : ∀ e ∈ new, Settles outcome e) (hp : c.pending = [] → pending = [])
    (hb : Books { c with pending := pending, timers := timers, timedOut := timedOut, history := new ++ c.history }) :
    Intact { c with pending := pending, timers := timers, timedOut := timedOut, history := new ++ c.history } := by
  refine ⟨hb, h.owned, h.posture.extend hp fun s r encoded => Settles.not_wrote hnew s _ encoded, ?_⟩
  intro s frame encoded hm
  rcases List.mem_append.mp hm with hm | hm
  · exact absurd hm (Settles.not_wrote hnew s frame encoded)
  · exact h.sites s frame encoded hm

theorem settleKey (h : Intact c) (key : Key) (outcome : RequestOutcome) : Intact (c.settleKey key outcome).2 := by
  have hb := h.books.settleKey key outcome
  obtain ⟨timers, new, hnew, he⟩ := c.settleKey_form key outcome
  rw [he] at hb ⊢
  exact h.settled hnew (fun hp => by rw [hp]; rfl) hb

/-- The socket is given up, and its requests are settled. -/
theorem down {c' : RelayClient} (h : Intact c) (hb : Books c')
    (hwrote : ∀ s frame encoded, .wrote s frame encoded ∈ c'.history → .wrote s frame encoded ∈ c.history)
    (howned : Owned c'.sockets c'.nextSocket none) (hnext : c'.nextSocket = c.nextSocket) (hsocket : c'.socket = none)
    (hpending : c'.pending = []) (hstate : c'.state ≠ .ready) (hrunning : c'.stopped = false → c'.state ≠ .stopped) :
    Intact c' := by
  refine ⟨hb, hsocket ▸ howned, ⟨fun hs => absurd hs hstate, fun _ => ⟨hsocket, hpending⟩, hrunning, fun _ => hsocket, ?_⟩, ?_⟩
  · intro s r encoded hm _
    exact hb.all_settled hpending (hb.docket.written r ⟨s, encoded, hm⟩)
  · intro s frame encoded hm
    rw [hnext]; exact h.sites s frame encoded (hwrote s frame encoded hm)

theorem stop (h : Intact c) : Intact c.stop := by
  have hb := h.books.stop
  obtain ⟨timers, new, hnew, he⟩ := c.stop_form
  rw [he] at hb ⊢
  have howned : Owned c.released c.nextSocket none := by
    have ho := h.owned
    unfold RelayClient.released
    split
    · rename_i hs; rw [hs] at ho; exact ho
    · rename_i s hs; rw [hs] at ho; exact ho.release
  refine h.down hb ?_ howned rfl rfl rfl (by intro hs; cases hs) (by intro hs; cases hs)
  intro s frame encoded hm
  rcases List.mem_append.mp hm with hm | hm
  · exact absurd hm (Settles.not_wrote hnew s frame encoded)
  · simpa using hm

theorem teardown (h : Intact c) {s : Nat} (hs : c.socket = some s) (reason : String) : Intact (c.teardown s reason) := by
  have hb := h.books.teardown s reason
  have ho := h.owned
  obtain ⟨timers, new, hnew, he⟩ := c.teardown_form s reason
  rw [he] at hb ⊢
  rw [hs] at ho
  refine h.down hb ?_ ho.release rfl rfl rfl ?_ ?_
  · intro s frame encoded hm
    exact (List.mem_append.mp hm).resolve_left (Settles.not_wrote hnew s frame encoded)
  · show (if c.stopped then ClientState.stopped else .connecting) ≠ .ready
    split <;> (intro hstate; cases hstate)
  · intro hr
    show (if c.stopped then ClientState.stopped else .connecting) ≠ .stopped
    rw [if_neg (by rw [show c.stopped = false from hr]; exact Bool.false_ne_true)]
    intro hstate; cases hstate

/-- A request is written, the oldest of those that wait. -/
theorem sent (h : Intact c) {s : Nat} {entry : PendingRequest} {encoded : Bytes} (hs : c.socket = some s)
    (hr : c.state = .ready) (he : entry ∈ c.pending) (hu : entry.unwritten = some encoded)
    (hfirst : ∀ e ∈ c.pending, e.unwritten ≠ none → entry.request ≤ e.request) :
    Intact ((c.markWritten entry.request).record (.wrote s (.request entry.request) encoded)) := by
  have hmark := mark_same entry.request
  have hready : Welcomed c.history s := by
    obtain ⟨s', hs', hd⟩ := h.posture.ready hr
    cases hs.symm.trans hs'
    exact hd
  have hd := h.books.docket.relabel (fun e => (hmark e).1) (fun e => (hmark e).2.1) (fun e => (hmark e).2.2.1)
    fun e => mt mark_unwritten
  refine ⟨⟨h.books.wired.relabel (fun e => (hmark e).1) (fun e => (hmark e).2.2.2), ?_, ?_⟩, h.owned, ?_, ?_⟩
  · refine hd.write (h.books.docket.known entry he) hready (h.books.docket.unsettled entry he)
      (h.books.docket.waiting entry he (by rw [hu]; exact Option.some_ne_none _)) (List.forall_mem_map.mpr ?_)
    intro e hmem hu'
    rw [(hmark e).2.2.1]
    refine Nat.lt_of_le_of_ne (hfirst e hmem (mt mark_unwritten hu')) fun heq => hu' ?_
    rw [mark, if_pos heq.symm]
  · refine List.forall_mem_map.mpr fun e hmem => ?_
    show (mark entry.request e).timer ≠ none
    rw [(hmark e).2.2.2]; exact h.books.deadline e hmem
  · refine ⟨fun _ => ⟨s, hs, hready.cons⟩, ?_, h.posture.running, h.posture.waits, ?_⟩
    · intro hstate
      rw [show c.state = .stopped from hstate] at hr; cases hr
    · intro s' r encoded' hm hne
      rcases List.mem_cons.mp hm with hm | hm
      · cases hm; exact absurd hs hne
      · exact (h.posture.ended s' r encoded' hm hne).cons
  · intro s' frame encoded' hm
    rcases List.mem_cons.mp hm with hm | hm
    · cases hm; exact h.owned.known s hs
    · exact h.sites s' frame encoded' hm

/-- A client that was down starts. -/
theorem started (h : Intact c) (hs : c.state = .stopped) : Intact { c with stopped := false, state := .connecting } := by
  obtain ⟨hsocket, hpending⟩ := h.posture.halted hs
  refine ⟨⟨h.books.wired, h.books.docket, h.books.deadline⟩, h.owned, ?_, h.sites⟩
  exact { h.posture with
    ready := by intro hs; cases hs
    halted := by intro hs; cases hs
    running := by intro _ hs; cases hs }

end Intact

variable {world : World} {law : RelayClient → Key → Prop} {c c' : RelayClient}

theorem Move.intact (h : Intact c) (hm : Move world law c c') : Intact c' := by
  cases hm with
  | aside accumulator attempt outageReported statedCause generation detached connects writes calls =>
    exact ⟨⟨h.books.wired, h.books.docket, h.books.deadline⟩, h.owned, h.posture, h.sites⟩
  | passed e he =>
    refine h.plain ?_ ?_ ?_
    · cases e <;> first | rfl | cases he
    · cases e <;> trivial
    · rintro s frame encoded rfl; cases he
  | dispatched s frame hs =>
    refine h.plain rfl trivial ?_
    intro s frame encoded he; cases he
  | cleared slot =>
    have hb := h.books.clear slot
    obtain ⟨timers, he⟩ := c.clear_form slot
    rw [he] at hb ⊢
    refine ⟨hb, h.owned, { h.posture with waits := ?_ }, h.sites⟩
    intro hw
    refine h.posture.waits fun hnone => hw ?_
    by_cases e : Slot.reconnect = slot
    · subst e; exact Function.update_self Slot.reconnect none c.handles
    · exact (Function.update_of_ne e none c.handles).trans hnone
  | armed slot timer ht hfree hlone hon =>
    refine ⟨⟨h.books.wired.arm hfree ht, h.books.docket, h.books.deadline⟩, h.owned, { h.posture with waits := ?_ }, h.sites⟩
    intro hw
    by_cases e : slot = .reconnect
    · exact (hlone e).1
    · refine h.posture.waits fun hnone => hw ?_
      exact (Function.update_of_ne (Ne.symm e) _ c.handles).trans hnone
  | stopped => exact h.stop
  | tornDown s reason hs => exact h.teardown hs reason
  | displaced hs =>
    exact ⟨⟨h.books.wired, h.books.docket, h.books.deadline⟩, h.owned,
      { h.posture with running := fun hf => by cases hf }, h.sites⟩
  | connected hr hs hw =>
    have ho := h.owned
    rw [hs] at ho
    refine ⟨⟨h.books.wired, h.books.docket, h.books.deadline⟩, ho.connect, ⟨?_, ?_, h.posture.running, ?_, ?_⟩, ?_⟩
    · intro hstate
      obtain ⟨s, hsome, -⟩ := h.posture.ready hstate
      rw [hs] at hsome; cases hsome
    · intro hstate
      exact absurd hstate (h.posture.running hr)
    · intro hwaits
      exact absurd hw hwaits
    · intro s r encoded hm _
      exact h.posture.ended s r encoded hm (by rw [hs]; exact (Option.some_ne_none s).symm)
    · intro s frame encoded hm
      exact Nat.lt_succ_of_lt (h.sites s frame encoded hm)
  | readied s hs hd =>
    refine ⟨⟨h.books.wired, h.books.docket, h.books.deadline⟩, h.owned, ?_, h.sites⟩
    exact { h.posture with
      ready := fun _ => ⟨s, hs, hd⟩
      halted := by intro hstate; cases hstate
      running := by intro _ hstate; cases hstate }
  | wrote s frame encoded hs hf =>
    refine h.plain ?_ ⟨?_, ?_⟩ ?_
    · rcases hf with rfl | ⟨rfl, -⟩ <;> rfl
    · intro hne
      obtain ⟨-, hstate⟩ := hf.resolve_left hne
      obtain ⟨s', hs', hd⟩ := h.posture.ready hstate
      cases hs.symm.trans hs'
      exact hd
    · rintro r rfl
      rcases hf with hf | ⟨hf, -⟩ <;> cases hf
    · intro s' frame' encoded' he
      cases he
      exact h.owned.known s hs
  | sent s entry encoded hs hr he hu hfirst => exact h.sent hs hr he hu hfirst
  | entered key kind encoded hr hnew hold hspace hlaw =>
    refine ⟨⟨h.books.wired.issue ⟨key, kind, c.requests, some c.nextTimer, some encoded⟩ rfl hnew,
      h.books.docket.enter ⟨key, kind, c.requests, some c.nextTimer, some encoded⟩ rfl hspace, ?_⟩, h.owned, ?_, ?_⟩
    · refine List.forall_mem_append.mpr ⟨h.books.deadline, List.forall_mem_singleton.mpr (Option.some_ne_none _)⟩
    · have hp := h.posture.record (e := .issued c.requests kind key.token) fun s r encoded he => by cases he
      exact { hp with halted := fun hstate => absurd hstate (h.posture.running hr) }
    · intro s frame encoded hm
      exact h.sites s frame encoded (by simpa [RelayClient.entered] using hm)
  | refused kind token error herr =>
    refine ⟨⟨h.books.wired, h.books.docket.refuse kind token _, h.books.deadline⟩, h.owned,
      Posture.record (h.posture.record ?_) ?_, ?_⟩
    · intro s r encoded he; cases he
    · intro s r encoded he; cases he
    · intro s frame encoded hm
      exact h.sites s frame encoded (by simpa [RelayClient.refused] using hm)
  | answered s frame older key outcome hh hr hs => exact h.settleKey key outcome
  | denied s message key outcome hd => exact h.settleKey key outcome
  | expired handle key hl =>
    have hb := h.books.expire world hl
    obtain ⟨timers, new, hnew, he⟩ := c.expire_form world handle key
    rw [he] at hb ⊢
    exact h.settled hnew (fun hp => by rw [hp]; rfl) hb
  | perished s socket hs =>
    exact ⟨⟨h.books.wired, h.books.docket, h.books.deadline⟩, h.owned.perish hs, h.posture, h.sites⟩

theorem Settles.not_stopped {outcome : RequestOutcome} {new : List Effect} (h : ∀ e ∈ new, Settles outcome e) :
    .stopped ∉ new := by
  intro hm
  obtain ⟨r, kind, token, he⟩ := h _ hm
  cases he

/-- The history only grows, and only a stop records one. -/
theorem Move.recorded (hm : Move world law c c') : ∃ new, c'.history = new ++ c.history ∧ (.stopped ∈ new → c' = c.stop) := by
  cases hm with
  | stopped =>
    obtain ⟨timers, new, -, he⟩ := c.stop_form
    exact ⟨new ++ [.stopped], by rw [he]; simp, fun _ => rfl⟩
  | cleared slot =>
    obtain ⟨timers, he⟩ := c.clear_form slot
    exact ⟨[], by rw [he]; rfl, fun hs => by cases hs⟩
  | tornDown s reason hs =>
    obtain ⟨timers, new, hnew, he⟩ := c.teardown_form s reason
    exact ⟨new, by rw [he], fun hs => absurd hs (Settles.not_stopped hnew)⟩
  | answered s frame older key outcome hh hr hs | denied s message key outcome hd =>
    obtain ⟨timers, new, hnew, he⟩ := c.settleKey_form key outcome
    exact ⟨new, by rw [he], fun hs => absurd hs (Settles.not_stopped hnew)⟩
  | expired handle key hl =>
    obtain ⟨timers, new, hnew, he⟩ := c.expire_form world handle key
    exact ⟨new, by rw [he], fun hs => absurd hs (Settles.not_stopped hnew)⟩
  | passed e he =>
    refine ⟨[e], rfl, fun hs => ?_⟩
    rw [← List.mem_singleton.mp hs] at he; cases he
  | dispatched | wrote | sent | entered =>
    refine ⟨[_], rfl, fun hs => ?_⟩
    cases List.mem_singleton.mp hs
  | refused kind token error herr =>
    refine ⟨[_, _], rfl, fun hs => ?_⟩
    simp at hs
  | _ => exact ⟨[], rfl, fun hs => by cases hs⟩

theorem Move.grows (hm : Move world law c c') : c.history <:+ c'.history := by
  obtain ⟨new, he, -⟩ := hm.recorded
  exact ⟨new, he.symm⟩

end OmpRelayd.Client
