/-
  OmpRelayd.Client.Courses — every method is a course of moves.

  `Goes` says that a method leads from one client to another by moves, and what it leaves of a
  connection: one that ends takes every pending request with it, and none is opened on the way.
  Between two events a client is at rest (`Rest`): it is down if it was told to stop, and on a
  ready connection nothing waits to be written. In the middle of a method neither need hold; the
  walk over what waits (`flushKeys`) and the displacement by another session restore them.

  `step_course` is the result: from a client that is intact and at rest every event leads by moves
  to one that is; only `start` does one thing more, and first.
-/

import OmpRelayd.Client.Moves

namespace OmpRelayd.Client

/-! ## Courses -/

structure Rest (c : RelayClient) : Prop where
  halted : c.stopped = true → c.state = .stopped
  flushed : c.state = .ready → ∀ e ∈ c.pending, e.unwritten = none

def Moves (world : World) (law : RelayClient → Key → Prop) : RelayClient → RelayClient → Prop :=
  Relation.ReflTransGen (Move world law)

structure Goes (world : World) (law : RelayClient → Key → Prop) (c c' : RelayClient) : Prop where
  moves : Moves world law c c'
  rest : Rest c → Rest c'
  lone : c.socket = none → c'.socket = none
  empty : c.pending = [] → c'.pending = []
  ends : ∀ s, c.socket = some s → c'.socket = some s ∨ c'.socket = none ∧ c'.pending = []

variable {world : World} {law : RelayClient → Key → Prop} {c c' c'' : RelayClient}

theorem Moves.intact (hm : Moves world law c c') (h : Intact c) : Intact c' := by
  induction hm with
  | refl => exact h
  | tail _ hm ih => exact hm.intact ih

theorem Moves.grows (hm : Moves world law c c') : c.history <:+ c'.history := by
  induction hm with
  | refl => exact List.suffix_rfl
  | tail _ hm ih => exact ih.trans hm.grows

namespace Goes

theorem refl (c : RelayClient) : Goes world law c c := ⟨.refl, id, id, id, fun _ => .inl⟩

theorem trans (h : Goes world law c c') (h' : Goes world law c' c'') : Goes world law c c'' := by
  refine ⟨h.moves.trans h'.moves, fun hr => h'.rest (h.rest hr), fun hs => h'.lone (h.lone hs),
    fun hp => h'.empty (h.empty hp), ?_⟩
  intro s hs
  rcases h.ends s hs with hs | ⟨hs, hp⟩
  · exact h'.ends s hs
  · exact .inr ⟨h'.lone hs, h'.empty hp⟩

/-- A move that changes neither the flags nor the socket, and adds no request. -/
theorem of_move (hm : Move world law c c') (hstate : c'.state = c.state) (hstopped : c'.stopped = c.stopped)
    (hsocket : c'.socket = c.socket) (hpending : ∀ e ∈ c'.pending, e ∈ c.pending) : Goes world law c c' := by
  refine ⟨.single hm, ?_, hsocket.trans, ?_, fun s hs => .inl (hsocket.trans hs)⟩
  · intro hr
    refine ⟨fun hs => ?_, fun hs e he => ?_⟩
    · rw [hstate]; exact hr.halted (hstopped ▸ hs)
    · exact hr.flushed (hstate ▸ hs) e (hpending e he)
  · intro hp
    exact List.eq_nil_iff_forall_not_mem.mpr fun e he => by rw [hp] at hpending; cases hpending e he

theorem aside (c : RelayClient) (accumulator attempt outageReported statedCause generation detached connects writes calls) :
    Goes world law c { c with
      accumulator, attempt, outageReported, statedCause, generation, detached, connects, writes, calls } :=
  .of_move (.aside ..) rfl rfl rfl fun _ => id

theorem passed (c : RelayClient) {e : Effect} (he : e.passing = true) : Goes world law c (c.record e) :=
  .of_move (.passed e he) rfl rfl rfl fun _ => id

theorem clear (c : RelayClient) (slot : Slot) : Goes world law c (c.clear slot) := by
  have hm : Move world law c (c.clear slot) := .cleared slot
  obtain ⟨timers, he⟩ := c.clear_form slot
  rw [he] at hm ⊢
  exact .of_move hm rfl rfl rfl fun _ => id

/-- A timer is armed in the place of the one before. -/
theorem rearm (c : RelayClient) (slot : Slot) (timer : Timer) (ht : timer.owner = .slot slot)
    (hlone : slot = .reconnect → c.socket = none ∧ (world.Considerate → c.stopped = false))
    (hon : slot ≠ .reconnect → c.socket ≠ none) : Goes world law c ((c.clear slot).arm slot timer) := by
  refine (Goes.clear c slot).trans ?_
  obtain ⟨timers, he⟩ := c.clear_form slot
  rw [he]
  exact .of_move (.armed slot timer ht (Function.update_self ..) hlone hon) rfl rfl rfl fun _ => id

theorem settleKey {key : Key} {outcome : RequestOutcome} (hm : Move world law c (c.settleKey key outcome).2) :
    Goes world law c (c.settleKey key outcome).2 := by
  obtain ⟨timers, new, -, he⟩ := c.settleKey_form key outcome
  rw [he] at hm ⊢
  exact .of_move hm rfl rfl rfl fun e he => List.mem_of_mem_filter he

end Goes

/-! ## Telling the host -/

/-- What a stop leaves. -/
theorem rest_stop (c : RelayClient) : Rest c.stop ∧ c.stop.socket = none ∧ c.stop.pending = [] := by
  obtain ⟨timers, new, -, he⟩ := c.stop_form
  rw [he]
  exact ⟨⟨fun _ => rfl, fun hs => by cases hs⟩, rfl, rfl⟩

theorem Goes.stop (c : RelayClient) : Goes world law c c.stop :=
  ⟨.single .stopped, fun _ => (rest_stop c).1, fun _ => (rest_stop c).2.1, fun _ => (rest_stop c).2.2,
    fun _ _ => .inr (rest_stop c).2⟩

/-- A callback leaves the flags, the socket and the requests, unless the host stops in it. -/
theorem invoke_cases (c : RelayClient) (callback : Callback) :
    Goes world law c (c.invoke world callback).2 ∧
      ((c.invoke world callback).2.socket = c.socket ∨ Rest (c.invoke world callback).2) := by
  unfold RelayClient.invoke
  split
  · exact ⟨.refl c, .inl rfl⟩
  · rename_i reaction _
    have hcalled : Goes world law c (RelayClient.record { c with calls := c.calls + 1 } (.called callback)) :=
      (Goes.aside ..).trans (.passed _ rfl)
    cases reaction.stops with
    | false => exact ⟨hcalled, .inl rfl⟩
    | true => exact ⟨hcalled.trans (.stop _), .inr (rest_stop _).1⟩

theorem Goes.report (c : RelayClient) (level : ReportLevel) (message : String) :
    Goes world law c (c.report world level message) := (invoke_cases c _).1

theorem Goes.notify (c : RelayClient) (callback : Callback) : Goes world law c (c.notify world callback) := by
  have h := (@invoke_cases world law c callback).1
  unfold RelayClient.notify
  split
  · rename_i hi; rw [hi] at h; exact h
  · rename_i hi; rw [hi] at h; exact h.trans (.report ..)
  · rename_i hi; rw [hi] at h; exact h.trans (.aside ..)

theorem Goes.reportOutage (c : RelayClient) (message : String) : Goes world law c (c.reportOutage world message) := by
  unfold RelayClient.reportOutage
  split
  · exact .refl c
  · exact (Goes.aside ..).trans (.report ..)

/-- A considerate host does not stop the client here. -/
theorem reportOutage_stopped (hc : world.Considerate) (c : RelayClient) (reason : String) (delay : Nat) :
    (c.reportOutage world s!"{reason}; reconnecting in {delay} ms").stopped = c.stopped := by
  unfold RelayClient.reportOutage RelayClient.report RelayClient.invoke
  split
  · rfl
  · split
    · rfl
    · rename_i reaction hr
      rw [hc _ _ _ _ hr]; rfl

/-! ## Ending a connection -/

theorem Goes.scheduleReconnect (hs : c.socket = none) (reason : String) :
    Goes world law c (c.scheduleReconnect world reason) := by
  unfold RelayClient.scheduleReconnect
  split
  · exact .refl c
  · rename_i hstopped
    have hreport : Goes world law c (RelayClient.reportOutage world { c with attempt := c.attempt + 1 }
        s!"{reason}; reconnecting in {world.delay (c.attempt + 1)} ms") := (Goes.aside ..).trans (.reportOutage ..)
    refine hreport.trans (.rearm _ .reconnect .reconnect rfl (fun _ => ⟨hreport.lone hs, fun hc => ?_⟩) fun h => absurd rfl h)
    exact (reportOutage_stopped hc _ _ _).trans (Bool.eq_false_iff.mpr hstopped)

theorem closeConnection_current {s : Nat} (hs : c.socket = some s) (reason : String) :
    Moves world law c (c.closeConnection world s reason) ∧ Rest (c.closeConnection world s reason) ∧
      (c.closeConnection world s reason).socket = none ∧ (c.closeConnection world s reason).pending = [] := by
  have hm : Move world law c (c.teardown s reason) := .tornDown s reason hs
  have hdown : Rest (c.teardown s reason) ∧ (c.teardown s reason).socket = none ∧ (c.teardown s reason).pending = [] := by
    obtain ⟨timers, new, -, he⟩ := c.teardown_form s reason
    rw [he]
    refine ⟨⟨fun h => if_pos h, fun h => ?_⟩, rfl, rfl⟩
    intro e he
    cases he
  rw [RelayClient.closeConnection, if_neg (not_not_intro hs)]
  generalize c.teardown s reason = d at *
  obtain ⟨hrest, hsocket, hpending⟩ := hdown
  have hgo : Goes world law d ((if d.stopped then d else d.scheduleReconnect world reason).notify world (.onDisconnect reason)) := by
    refine Goes.trans ?_ (.notify ..)
    split
    · exact .refl d
    · exact .scheduleReconnect hsocket reason
  exact ⟨.head hm hgo.moves, hgo.rest hrest, hgo.lone hsocket, hgo.empty hpending⟩

theorem Goes.closeConnection (c : RelayClient) (s : Nat) (reason : String) :
    Goes world law c (c.closeConnection world s reason) := by
  by_cases hs : c.socket = some s
  · obtain ⟨hm, hrest, hsocket, hpending⟩ := @closeConnection_current world law c s hs reason
    exact ⟨hm, fun _ => hrest, fun _ => hsocket, fun _ => hpending, fun _ _ => .inr ⟨hsocket, hpending⟩⟩
  · rw [RelayClient.closeConnection, if_pos hs]
    exact .refl c

/-! ## Writing -/

theorem writeEncoded_throws {s : Nat} {error : String} (hs : c.socket = some s) (hw : world.write c.writes = some error)
    (frame : Outgoing) (encoded : Bytes) :
    c.writeEncoded world frame encoded =
      (RelayClient.record { c with writes := c.writes + 1 } (.wrote s frame encoded)).closeConnection world s
        s!"write failed: {error}" := by
  rw [RelayClient.writeEncoded, hs, hw]

theorem writeEncoded_returns {s : Nat} (hs : c.socket = some s) (hw : world.write c.writes = none) (frame : Outgoing)
    (encoded : Bytes) :
    c.writeEncoded world frame encoded =
      (RelayClient.record { c with writes := c.writes + 1 } (.wrote s frame encoded)).armHeartbeat := by
  rw [RelayClient.writeEncoded, hs, hw]

theorem clear_fields (c : RelayClient) (slot : Slot) :
    (c.clear slot).socket = c.socket ∧ (c.clear slot).state = c.state ∧ (c.clear slot).stopped = c.stopped ∧
      (c.clear slot).pending = c.pending := by
  obtain ⟨timers, he⟩ := c.clear_form slot
  rw [he]
  exact ⟨rfl, rfl, rfl, rfl⟩

theorem armHeartbeat_fields (c : RelayClient) :
    c.armHeartbeat.socket = c.socket ∧ c.armHeartbeat.state = c.state ∧ c.armHeartbeat.stopped = c.stopped ∧
      c.armHeartbeat.pending = c.pending := clear_fields c .heartbeat

theorem Goes.armHeartbeat (hs : c.socket ≠ none) : Goes world law c c.armHeartbeat :=
  .rearm c .heartbeat .heartbeat rfl (fun h => by cases h) fun _ => hs

theorem Goes.writeEncoded {frame : Outgoing} (hf : frame = .hello ∨ frame = .ping ∧ c.state = .ready) (encoded : Bytes) :
    Goes world law c (c.writeEncoded world frame encoded) := by
  cases hs : c.socket with
  | none =>
    rw [RelayClient.writeEncoded, hs]
    exact .refl c
  | some s =>
    have hwrote : Goes world law c (RelayClient.record { c with writes := c.writes + 1 } (.wrote s frame encoded)) :=
      (Goes.aside ..).trans (.of_move (.wrote s frame encoded hs hf) rfl rfl rfl fun _ => id)
    cases hw : world.write c.writes with
    | some error =>
      rw [writeEncoded_throws hs hw]
      exact hwrote.trans (.closeConnection ..)
    | none =>
      rw [writeEncoded_returns hs hw]
      refine hwrote.trans (.armHeartbeat ?_)
      intro hnone
      rw [show c.socket = none from hnone] at hs; cases hs

theorem Goes.write {what : Outgoing} (hf : what = .hello ∨ what = .ping ∧ c.state = .ready) (frame : ClientFrame) :
    Goes world law c (c.write world what frame) := by
  unfold RelayClient.write
  split
  · exact .report ..
  · exact .writeEncoded hf _

/-- The entry is marked and its request written, or the connection ends. -/
theorem send_course {s : Nat} {entry : PendingRequest} {encoded : Bytes} (hs : c.socket = some s)
    (hr : c.state = .ready) (he : entry ∈ c.pending) (hu : entry.unwritten = some encoded)
    (hfirst : ∀ e ∈ c.pending, e.unwritten ≠ none → entry.request ≤ e.request) :
    let c' := (c.markWritten entry.request).writeEncoded world (.request entry.request) encoded
    Goes world law c c' ∧
      (c'.socket = some s ∧ c'.state = .ready ∧ c'.stopped = c.stopped ∧ c'.pending = (c.markWritten entry.request).pending ∨
        Rest c' ∧ c'.pending = []) := by
  have hsent : Goes world law c (RelayClient.record { c.markWritten entry.request with writes := c.writes + 1 }
      (.wrote s (.request entry.request) encoded)) := by
    refine (Goes.aside c _ _ _ _ _ _ _ (c.writes + 1) _).trans
      ⟨.single (.sent s entry encoded hs hr he hu hfirst), ?_, id, ?_, fun _ => .inl⟩
    · intro hrest
      exact ⟨hrest.halted, fun hstate => List.forall_mem_map.mpr fun e hm => mark_unwritten (hrest.flushed hstate e hm)⟩
    · intro hp
      exact List.map_eq_nil_iff.mpr hp
  cases hw : world.write c.writes with
  | some error =>
    rw [@writeEncoded_throws world (c.markWritten entry.request) s error hs hw]
    have hclosed := @closeConnection_current world law (RelayClient.record
      { c.markWritten entry.request with writes := c.writes + 1 } (.wrote s (.request entry.request) encoded)) s hs
      s!"write failed: {error}"
    exact ⟨hsent.trans (.closeConnection ..), .inr ⟨hclosed.2.1, hclosed.2.2.2⟩⟩
  | none =>
    rw [@writeEncoded_returns world (c.markWritten entry.request) s hs hw]
    refine ⟨hsent.trans (.armHeartbeat fun hnone => ?_), .inl ?_⟩
    · rw [show c.socket = none from hnone] at hs; cases hs
    · obtain ⟨hsocket, hstate, hstopped, hpending⟩ := armHeartbeat_fields (RelayClient.record
        { c.markWritten entry.request with writes := c.writes + 1 } (.wrote s (.request entry.request) encoded))
      exact ⟨hsocket.trans hs, hstate.trans hr, hstopped, hpending⟩

/-- What waits to be written is behind what the walk has passed. -/
structure Flushing (s : Nat) (c : RelayClient) (keys : List Key) : Prop where
  socket : c.socket = some s
  state : c.state = .ready
  running : c.stopped = false
  split : ∃ before after, c.pending = before ++ after ∧ after.map (·.key) = keys ∧ ∀ e ∈ before, e.unwritten = none

theorem flushKeys_nil {keys : List Key} (hp : c.pending = []) : c.flushKeys world keys = c := by
  induction keys with
  | nil => rfl
  | cons key keys ih =>
    have hfind : c.find key = none := by rw [RelayClient.find, hp]; rfl
    rw [RelayClient.flushKeys, hfind]
    exact ih

theorem flushKeys_course {s : Nat} {keys : List Key} (hi : Intact c) (hf : Flushing s c keys) :
    Goes world law c (c.flushKeys world keys) ∧ Rest (c.flushKeys world keys) := by
  induction keys generalizing c with
  | nil =>
    obtain ⟨before, after, hpending, hkeys, hbefore⟩ := hf.split
    rw [List.map_eq_nil_iff] at hkeys
    subst hkeys
    refine ⟨.refl c, ⟨fun h => ?_, fun _ => ?_⟩⟩
    · have hrun := hf.running
      rw [show c.stopped = true from h] at hrun; cases hrun
    · show ∀ e ∈ c.pending, _
      rw [hpending, List.append_nil]; exact hbefore
  | cons key keys ih =>
    obtain ⟨before, after, hpending, hkeys, hbefore⟩ := hf.split
    obtain ⟨entry, after, rfl, hkey, hkeys⟩ := List.map_eq_cons_iff.mp hkeys
    have hmem : entry ∈ c.pending := by rw [hpending]; exact List.mem_append_right _ List.mem_cons_self
    have hfind : c.find key = some entry := (entryOf_eq_some_iff hi.books.wired.keys).mpr ⟨hmem, hkey⟩
    rw [RelayClient.flushKeys, hfind]
    dsimp only
    split
    · rename_i hu
      refine ih hi ⟨hf.socket, hf.state, hf.running, before ++ [entry], after, ?_, hkeys, ?_⟩
      · rw [hpending, List.append_assoc]; rfl
      · exact List.forall_mem_append.mpr ⟨hbefore, List.forall_mem_singleton.mpr hu⟩
    · rename_i encoded hu
      have hfirst : ∀ e ∈ c.pending, e.unwritten ≠ none → entry.request ≤ e.request := by
        intro e he hu'
        have horder := hi.books.docket.order
        rw [hpending] at he horder
        rcases List.mem_append.mp he with he | he
        · exact absurd (hbefore e he) hu'
        · rcases List.mem_cons.mp he with rfl | he
          · exact Nat.le_refl _
          · exact Nat.le_of_lt (List.rel_of_pairwise_cons (List.pairwise_append.mp horder).2.1 he)
      obtain ⟨hgo, hafter⟩ := @send_course world law c s entry encoded hf.socket hf.state hmem hu hfirst
      generalize (c.markWritten entry.request).writeEncoded world (.request entry.request) encoded = d at *
      rcases hafter with ⟨hs, hr, hstopped, hp⟩ | ⟨hrest, hp⟩
      · have hflushing : Flushing s d keys := by
          refine ⟨hs, hr, hstopped.trans hf.running, (before ++ [entry]).map (mark entry.request),
            after.map (mark entry.request), ?_, ?_, ?_⟩
          · rw [hp, markWritten_pending, hpending, ← List.map_append, List.append_assoc]; rfl
          · rw [keys_map fun e => (mark_same entry.request e).1]; exact hkeys
          · refine List.forall_mem_map.mpr (List.forall_mem_append.mpr ⟨?_, List.forall_mem_singleton.mpr ?_⟩)
            · intro e he
              exact mark_unwritten (hbefore e he)
            · rw [mark, if_pos rfl]
        obtain ⟨hgo', hrest⟩ := ih (hgo.moves.intact hi) hflushing
        exact ⟨hgo.trans hgo', hrest⟩
      · rw [flushKeys_nil hp]
        exact ⟨hgo, hrest⟩

theorem flushUnwritten_course {s : Nat} (hi : Intact c) (hs : c.socket = some s) (hr : c.state = .ready)
    (hrun : c.stopped = false) : Goes world law c (c.flushUnwritten world) ∧ Rest (c.flushUnwritten world) :=
  flushKeys_course hi ⟨hs, hr, hrun, [], c.pending, rfl, rfl, List.forall_mem_nil _⟩

/-! ## Requests -/

/-- Marking an entry and settling one do not get in each other's way. -/
theorem settleKey_markWritten (c : RelayClient) (request : Nat) (key : Key) (outcome : RequestOutcome) :
    ((c.markWritten request).settleKey key outcome).2 = (c.settleKey key outcome).2.markWritten request := by
  have hfind : (c.markWritten request).find key = (c.find key).map (mark request) :=
    entryOf_map (fun e => (mark_same request e).1) key
  have hfilter : (c.pending.map (mark request)).filter (·.key ≠ key) = (c.pending.filter (·.key ≠ key)).map (mark request) := by
    rw [List.filter_map]
    simp only [Function.comp_def, (mark_same request _).1]
  unfold RelayClient.settleKey
  rw [hfind]
  cases c.find key with
  | none => rfl
  | some entry =>
    obtain ⟨hkey, hkind, hrequest, htimer⟩ := mark_same request entry
    simp only [Option.map_some, markWritten_pending, hfilter, htimer, hkind, hrequest]
    cases entry.timer <;> rfl

theorem settleAll_markWritten (c : RelayClient) (request : Nat) (keys : List Key) (outcome : RequestOutcome) :
    ((c.markWritten request).settleAll keys outcome).2 = (c.settleAll keys outcome).2.markWritten request := by
  induction keys generalizing c with
  | nil => rfl
  | cons key keys ih =>
    show (((c.markWritten request).settleKey key outcome).2.settleAll keys outcome).2 = _
    rw [settleKey_markWritten, ih]
    rfl

theorem markWritten_nil (hp : c.pending = []) (request : Nat) : c.markWritten request = c := by
  unfold RelayClient.markWritten
  rw [hp, List.map_nil, ← hp]

theorem failPending_markWritten (c : RelayClient) (request : Nat) (error : RequestFailed) :
    (c.markWritten request).failPending error = c.failPending error := by
  have hkeys : (c.markWritten request).pending.map (·.key) = c.pending.map (·.key) :=
    keys_map fun e => (mark_same request e).1
  rw [RelayClient.failPending, hkeys, settleAll_markWritten]
  exact markWritten_nil (failPending_pending c error) request

theorem clear_markWritten (c : RelayClient) (request : Nat) (slot : Slot) :
    (c.markWritten request).clear slot = (c.clear slot).markWritten request := by
  unfold RelayClient.clear
  rw [show (c.markWritten request).handles = c.handles from rfl]
  split <;> rfl

theorem teardown_markWritten (c : RelayClient) (request s : Nat) (reason : String) :
    (c.markWritten request).teardown s reason = c.teardown s reason := by
  have hbase : ({ c.markWritten request with socket := none, accumulator := none } : RelayClient) =
      RelayClient.markWritten { c with socket := none, accumulator := none } request := rfl
  have hfail := fun d : RelayClient => failPending_markWritten
    (RelayClient.release { d with timedOut := [], state := if d.stopped then .stopped else .connecting } s) request
    ⟨.disconnected, reason, none⟩
  simp only [RelayClient.teardown, RelayClient.clearHandshakeDeadline, RelayClient.clearHeartbeat, hbase, clear_markWritten]
  exact hfail (RelayClient.clear (RelayClient.clear { c with socket := none, accumulator := none } .handshake) .heartbeat)

theorem closeConnection_markWritten {s : Nat} (hs : c.socket = some s) (request : Nat) (reason : String) :
    (c.closeConnection world s reason).markWritten request = (c.markWritten request).closeConnection world s reason := by
  rw [markWritten_nil (@closeConnection_current world (fun _ _ => True) c s hs reason).2.2.2, RelayClient.closeConnection,
    RelayClient.closeConnection, teardown_markWritten, if_neg (not_not_intro hs),
    if_neg (not_not_intro (show (c.markWritten request).socket = some s from hs))]

/-- On the current connection a frame may as well be marked before it is written. -/
theorem writeEncoded_markWritten {s : Nat} (hs : c.socket = some s) (request : Nat) (frame : Outgoing) (encoded : Bytes) :
    (c.writeEncoded world frame encoded).markWritten request = (c.markWritten request).writeEncoded world frame encoded := by
  cases hw : world.write c.writes with
  | some error =>
    rw [writeEncoded_throws hs hw, @writeEncoded_throws world (c.markWritten request) s error hs hw]
    exact closeConnection_markWritten (c := RelayClient.record { c with writes := c.writes + 1 } (.wrote s frame encoded)) hs
      request _
  | none =>
    rw [writeEncoded_returns hs hw, @writeEncoded_returns world (c.markWritten request) s hs hw]
    exact (congrArg (RelayClient.arm · .heartbeat .heartbeat) (clear_markWritten
      (RelayClient.record { c with writes := c.writes + 1 } (.wrote s frame encoded)) request .heartbeat)).symm

/-- What every event comes to: moves from rest to rest. A connection that ends takes all requests with it. -/
structure Course (world : World) (law : RelayClient → Key → Prop) (c c' : RelayClient) : Prop where
  moves : Moves world law c c'
  rest : Rest c'
  ends : ∀ s, c.socket = some s → c'.socket = some s ∨ c'.socket = none ∧ c'.pending = []

theorem Goes.course (h : Goes world law c c') (hrest : Rest c) : Course world law c c' := ⟨h.moves, h.rest hrest, h.ends⟩

theorem enter_course (hi : Intact c) (hrest : Rest c) {key : Key} {kind : RequestKind} (encoded : Bytes)
    (hr : c.stopped = false) (hnew : c.find key = none) (hold : key ∉ c.timedOut) (hspace : key.space = kind.replySpace)
    (hlaw : law c key) :
    Course world law c ((RelayClient.record { c with requests := c.requests + 1 } (.issued c.requests kind key.token)).enter
      world c.requests key kind encoded) := by
  have hentered : Move world law c (c.entered key kind encoded) := .entered key kind encoded hr hnew hold hspace hlaw
  show Course world law c (if c.state = .ready then
    ((c.entered key kind encoded).writeEncoded world (.request c.requests) encoded).markWritten c.requests
    else c.entered key kind encoded)
  by_cases hstate : c.state = .ready
  · obtain ⟨s, hs, -⟩ := hi.posture.ready hstate
    rw [if_pos hstate, writeEncoded_markWritten (show (c.entered key kind encoded).socket = some s from hs)]
    -- all that was pending has been written, so the new one is the oldest that waits
    have hfirst : ∀ e ∈ (c.entered key kind encoded).pending, e.unwritten ≠ none → c.requests ≤ e.request := by
      refine List.forall_mem_append.mpr ⟨fun e he hu => ?_, List.forall_mem_singleton.mpr fun _ => Nat.le_refl _⟩
      exact absurd (hrest.flushed hstate e he) hu
    obtain ⟨hgo, hafter⟩ := @send_course world law (c.entered key kind encoded) s
      ⟨key, kind, c.requests, some c.nextTimer, some encoded⟩ encoded hs hstate
      (List.mem_append_right _ List.mem_cons_self) rfl hfirst
    refine ⟨.head hentered hgo.moves, ?_, fun s' hs' => hgo.ends s' hs'⟩
    rcases hafter with ⟨-, -, hstopped, hpending⟩ | ⟨hrest', -⟩
    · refine ⟨fun h => ?_, fun _ => ?_⟩
      · rw [hstopped] at h
        rw [show c.stopped = true from h] at hr; cases hr
      · rw [hpending, markWritten_pending]
        refine List.forall_mem_map.mpr (List.forall_mem_append.mpr ⟨fun e he => ?_, List.forall_mem_singleton.mpr ?_⟩)
        · exact mark_unwritten (hrest.flushed hstate e he)
        · rw [mark, if_pos rfl]
    · exact hrest'
  · rw [if_neg hstate]
    refine ⟨.single hentered, ⟨hrest.halted, fun h => absurd h hstate⟩, fun s hs => .inl hs⟩

/-- Only a refusal by the relay reads differently for a `reserve`. -/
theorem conclude_failed {kind : RequestKind} {token : String} {error : RequestFailed} (h : error.reason ≠ .relayError) :
    kind.conclude token (.failed error) = .rejected error := by
  rw [RequestKind.conclude, if_neg fun h' => h h'.2.1]

theorem refuse_course (hrest : Rest c) {kind : RequestKind} {token : String} {error : RequestFailed}
    (herr : error.reason ∈ [.stopped, .invalidRequest]) : Course world law c (c.refused kind token error) :=
  ⟨.single (.refused kind token error herr), ⟨hrest.halted, hrest.flushed⟩, fun _ => .inl⟩

theorem issue_course (hi : Intact c) (hrest : Rest c) {kind : RequestKind} {token : String} (frame : ClientFrame)
    (hlaw : law c ⟨kind.replySpace, token⟩) :
    Course world law c ((RelayClient.record { c with requests := c.requests + 1 } (.issued c.requests kind token)).issue
      world c.requests token kind frame) := by
  have hrefuse : ∀ reason message, reason ∈ [RequestFailureReason.stopped, .invalidRequest] →
      Course world law c ((RelayClient.record { c with requests := c.requests + 1 } (.issued c.requests kind token)).record
        (.settled c.requests (kind.conclude token (.failed ⟨reason, message, none⟩)))) := by
    intro reason message hreason
    rw [conclude_failed (by rintro rfl; simp at hreason)]
    exact refuse_course hrest hreason
  unfold RelayClient.issue
  dsimp only
  split
  · exact hrefuse _ _ (by decide)
  · rename_i hstopped
    split
    · exact hrefuse _ _ (by decide)
    · rename_i hnew
      split
      · exact hrefuse _ _ (by decide)
      · rename_i hold
        split
        · exact hrefuse _ _ (by decide)
        · rename_i encoded _
          exact enter_course hi hrest encoded (Bool.eq_false_iff.mpr hstopped) hnew hold rfl hlaw

theorem call_course (hi : Intact c) (hrest : Rest c) (call : Call) (hlaw : law c ⟨call.kind.replySpace, call.token⟩) :
    Course world law c (c.call world call) := by
  unfold RelayClient.call
  dsimp only
  split
  · rename_i message _
    exact @refuse_course world law c hrest call.kind call.token ⟨.invalidRequest, message, none⟩
      (List.mem_cons_of_mem _ List.mem_cons_self)
  · exact issue_course hi hrest _ hlaw

/-! ## Frames of the relay -/

theorem settleKey_false {key : Key} {outcome : RequestOutcome} (h : c.settleKey key outcome = (false, c')) : c' = c := by
  unfold RelayClient.settleKey at h
  split at h
  · cases h; rfl
  · cases h

theorem Goes.settle {s : Nat} {frame : ServerFrame} {older : List Effect} {token : String} {kind : RequestKind}
    (hh : c.history = .dispatched s frame :: older) (hs : c.socket = some s)
    (hr : Reply frame ⟨kind.replySpace, token⟩ (.ok frame)) : Goes world law c (c.settle world token kind frame) := by
  have hsettle : Goes world law c _ := .settleKey (.answered s frame older _ _ hh hr hs)
  unfold RelayClient.settle
  dsimp only
  split
  · exact hsettle
  · exact hsettle.trans (.report ..)

theorem Goes.settleFirst {s : Nat} {older : List Effect} {code token : String} {message : Option String} {error : RequestFailed}
    (hh : c.history = .dispatched s (.error code message (some token)) :: older) (hs : c.socket = some s)
    (hreason : error.reason = .relayError) (spaces : List ReplySpace) :
    Goes world law c (c.settleFirst token (.failed error) spaces).2 := by
  induction spaces with
  | nil => exact .refl c
  | cons space spaces ih =>
    have hsettle : Goes world law c _ :=
      .settleKey (.answered s _ older ⟨space, token⟩ _ hh (.error code message token space error hreason) hs)
    unfold RelayClient.settleFirst
    split
    · rename_i hk; rw [hk] at hsettle; exact hsettle
    · rename_i hk; rw [settleKey_false hk]; exact ih

theorem Goes.settleAll {s : Nat} {message : Option String} {outcome : RequestOutcome}
    (hd : .dispatched s (.error "unsupported_frame" message none) ∈ c.history) (keys : List Key) :
    Goes world law c (c.settleAll keys outcome).2 := by
  induction keys generalizing c with
  | nil => exact .refl c
  | cons key keys ih =>
    refine Goes.trans (.settleKey (.denied s message key outcome hd)) (ih ?_)
    obtain ⟨timers, new, -, he⟩ := c.settleKey_form key outcome
    rw [he]; exact List.mem_append_right _ hd

theorem Goes.answerError {s : Nat} {older : List Effect} {code : String} {message requestId : Option String} {error : RequestFailed}
    (hh : c.history = .dispatched s (.error code message requestId) :: older) (hs : c.socket = some s)
    (hreason : error.reason = .relayError) : Goes world law c (c.answerError code requestId (.failed error)).2 := by
  unfold RelayClient.answerError
  split
  · split
    · exact .settleFirst hh hs hreason _
    · exact .refl c
  · split
    · rename_i hcode
      refine @Goes.settleAll world law c s message _ ?_ _
      rw [hh, hcode.1]; exact List.mem_cons_self
    · exact .refl c

theorem Goes.connectionError (c : RelayClient) (detail : String) : Goes world law c (c.connectionError world detail) := by
  unfold RelayClient.connectionError
  split
  · exact (Goes.aside ..).trans (.report ..)
  · exact .aside ..

/-- Another session has the name: whether the host stops in the report or not, the client is down after it. -/
theorem displaced_course {s : Nat} (hs : c.socket = some s) :
    Goes world law c ((RelayClient.report world { c with stopped := true } .error RelayClient.peerReplacedReport).closeConnection
      world s RelayClient.peerReplacedReport) := by
  have hmove : Move world law c { c with stopped := true } := .displaced (by rw [hs]; exact Option.some_ne_none s)
  obtain ⟨hreport, hor⟩ := @invoke_cases world law { c with stopped := true } (.onReport .error RelayClient.peerReplacedReport)
  have hreport : Goes world law { c with stopped := true } (RelayClient.report world _ _ _) := hreport
  have hor : (RelayClient.report world { c with stopped := true } .error RelayClient.peerReplacedReport).socket = c.socket ∨
      Rest (RelayClient.report world { c with stopped := true } .error RelayClient.peerReplacedReport) := hor
  generalize RelayClient.report world _ _ _ = d at *
  have hclose := @Goes.closeConnection world law d s RelayClient.peerReplacedReport
  have hgo := hreport.trans hclose
  refine ⟨.head hmove hgo.moves, fun _ => ?_, hgo.lone, hgo.empty, hgo.ends⟩
  rcases hor with hsocket | hrest
  · exact (@closeConnection_current world law d s (hsocket.trans hs) _).2.1
  · exact hclose.rest hrest

theorem Goes.handleError {s : Nat} {older : List Effect} {code : String} {message requestId : Option String}
    (hh : c.history = .dispatched s (.error code message requestId) :: older) (hs : c.socket = some s) :
    Goes world law c (c.handleError world s code message requestId) := by
  unfold RelayClient.handleError
  dsimp only
  split
  · exact displaced_course hs
  · have hanswer : ∀ text, Goes world law c (c.answerError code requestId (.failed ⟨.relayError, text, some code⟩)).2 :=
      fun text => .answerError hh hs rfl
    split
    · exact hanswer _
    · exact (hanswer _).trans (.connectionError ..)

/-- On a connection the client has not been told to stop. -/
theorem Rest.running (hrest : Rest c) (hi : Intact c) {s : Nat} (hs : c.socket = some s) : c.stopped = false := by
  rw [← Bool.not_eq_true]
  intro h
  rw [(hi.posture.halted (hrest.halted h)).1] at hs; cases hs

theorem Goes.welcome (hi : Intact c) (hrest : Rest c) {s : Nat} (hs : c.socket = some s) (hd : Welcomed c.history s) :
    Goes world law c (c.welcome world) := by
  have hready : Moves world law c { c with state := .ready, attempt := 0, outageReported := false } :=
    .tail (.single (.aside c.accumulator 0 false ..)) (.readied s hs hd)
  show Goes world law c ((RelayClient.flushUnwritten world (RelayClient.armHeartbeat (RelayClient.clearHandshakeDeadline
    { c with state := .ready, attempt := 0, outageReported := false }))).notify world .onReady)
  have hrun := hrest.running hi hs
  generalize hc : ({ c with state := .ready, attempt := 0, outageReported := false } : RelayClient) = d at *
  have hsocket : d.socket = some s := by subst hc; exact hs
  have hclear := clear_fields d .handshake
  have harm := armHeartbeat_fields d.clearHandshakeDeadline
  have harmed : Goes world law d d.clearHandshakeDeadline.armHeartbeat :=
    (Goes.clear d .handshake).trans (.armHeartbeat (by rw [hclear.1.trans hsocket]; exact Option.some_ne_none s))
  obtain ⟨hflush, hflushed⟩ := @flushUnwritten_course world law d.clearHandshakeDeadline.armHeartbeat s
    (harmed.moves.intact (hready.intact hi)) (harm.1.trans (hclear.1.trans hsocket))
    (harm.2.1.trans (hclear.2.1.trans (by subst hc; rfl))) (harm.2.2.1.trans (hclear.2.2.1.trans (by subst hc; exact hrun)))
  have hnotify := hflush.trans (@Goes.notify world law _ .onReady)
  have hgo := harmed.trans hnotify
  refine ⟨hready.trans hgo.moves, fun _ => (@Goes.notify world law _ .onReady).rest hflushed, ?_, ?_, ?_⟩
  · intro hnone
    rw [hnone] at hs; cases hs
  · intro hp
    exact hgo.empty (by subst hc; exact hp)
  · intro s' hs'
    exact hgo.ends s' (by subst hc; exact hs')

theorem Goes.dispatch (hi : Intact c) (hrest : Rest c) {s : Nat} {frame : ServerFrame} {older : List Effect}
    (hs : c.socket = some s) (hh : c.history = .dispatched s frame :: older) :
    Goes world law c (c.dispatch world s frame) := by
  unfold RelayClient.dispatch
  split
  · exact .closeConnection ..
  · split
    · exact .report ..
    · split
      · rename_i version _ _
        exact .welcome hi hrest hs ⟨version, by rw [hh]; exact List.mem_cons_self⟩
      · exact .refl c
      · exact .notify ..
      · exact .notify ..
      · exact .settle hh hs (.peers ..)
      · exact .settle hh hs (.receipt ..)
      · exact .settle hh hs (.accepted ..)
      · exact .settle hh hs (.reserved ..)
      · exact .handleError hh hs

/-! ## Receiving -/

theorem Goes.receiveValues (hi : Intact c) (hrest : Rest c) {s : Nat} (hs : c.socket = some s) (values : List Js) :
    Goes world law c (c.receiveValues world s values).2 := by
  induction values generalizing c with
  | nil => exact .refl c
  | cons value values ih =>
    -- the rest of the values is read on the same connection, or not at all
    have hrest' : ∀ d : RelayClient, Goes world law c d →
        Goes world law c (if d.socket = some s then d.receiveValues world s values else (false, d)).2 := by
      intro d hgo
      split
      · rename_i hd
        exact hgo.trans (ih (hgo.moves.intact hi) (hgo.rest hrest) hd)
      · exact hgo
    unfold RelayClient.receiveValues
    split
    · rename_i frame _
      have hdispatched : Goes world law c (c.record (.dispatched s frame)) :=
        .of_move (.dispatched s frame hs) rfl rfl rfl fun _ => id
      exact hrest' _ (hdispatched.trans
        (.dispatch (hdispatched.moves.intact hi) (hdispatched.rest hrest) hs rfl))
    · exact hrest' _ (.report ..)
    · exact .closeConnection ..

theorem Goes.receive (hi : Intact c) (hrest : Rest c) (s : Nat) (chunk : Bytes) : Goes world law c (c.receive world s chunk) := by
  unfold RelayClient.receive
  split
  · exact .refl c
  · rename_i accumulator _
    split
    · exact .refl c
    · rename_i hs
      have hheard : Goes world law c (RelayClient.record { c with
          accumulator := some (accumulator.push world.decode chunk).2 } (.heard s chunk)) :=
        (Goes.aside ..).trans (.passed _ rfl)
      have hvalues := hheard.trans (.receiveValues (hheard.moves.intact hi) (hheard.rest hrest) (not_not.mp hs)
        (accumulator.push world.decode chunk).1.values)
      dsimp only
      split
      · exact hvalues.trans (.closeConnection ..)
      · exact hvalues

/-! ## Opening a connection -/

/-- A client that is connecting and has no connection makes an attempt. -/
theorem openConnection_course (hs : c.socket = none) (hr : c.stopped = false) (hstate : c.state = .connecting) :
    Course world law c (c.openConnection world) := by
  have hrest : Rest c := by
    refine ⟨fun h => ?_, fun h => ?_⟩
    · rw [h] at hr; cases hr
    · rw [hstate] at h; cases h
  obtain ⟨timers, hclear⟩ := c.clear_form .reconnect
  have hattempt : Goes world law c (RelayClient.record { c with
      timers := timers, handles := Function.update c.handles .reconnect none, accumulator := some {}, statedCause := none,
      connects := c.connects + 1 } .attempted) :=
    (hclear ▸ Goes.clear c .reconnect).trans ((Goes.aside ..).trans (.passed _ rfl))
  unfold RelayClient.openConnection
  rw [RelayClient.cancelReconnect, hclear, ← hstate]
  dsimp only
  split
  · refine (hattempt.trans (.scheduleReconnect ?_ _)).course hrest
    exact hs
  · have hfree : Function.update c.handles .reconnect none .reconnect = none := Function.update_self ..
    refine ⟨hattempt.moves.tail (.connected hr hs hfree), ⟨hrest.halted, hrest.flushed⟩, ?_⟩
    intro s hsome
    rw [hs] at hsome; cases hsome

theorem Goes.onConnect {s : Nat} (hs : c.socket = some s) : Goes world law c (c.onConnect world s) := by
  refine Goes.trans (.rearm c .handshake (.handshake s) rfl (fun h => by cases h) fun _ => ?_) (.write (.inl rfl) _)
  rw [hs]; exact Option.some_ne_none s

/-- A timeout that has fired is cleared. -/
theorem spend_eq {handle : Nat} {slot : Slot} (h : c.handles slot = some handle) : c.spend handle slot = c.clear slot := by
  rw [RelayClient.clear, h]; rfl

theorem fire_course (hi : Intact c) (hrest : Rest c) {handle : Nat} {timer : Timer} (ht : c.timers.lookup handle = some timer) :
    Course world law c (c.fire world handle timer) := by
  have hheld := hi.books.wired.timers.kept handle timer ht
  cases timer with
  | reconnect =>
    have hclear : Goes world law c (c.clear .reconnect) := .clear c .reconnect
    show Course world law c (if (c.spend handle .reconnect).stopped then _ else (c.spend handle .reconnect).openConnection world)
    rw [spend_eq hheld]
    split
    · exact hclear.course hrest
    · rename_i hstopped
      obtain ⟨hsocket, hstate, hrun, -⟩ := clear_fields c .reconnect
      have hrun' : c.stopped = false := hrun ▸ Bool.eq_false_iff.mpr hstopped
      have hnone : c.socket = none := hi.posture.waits (by rw [show c.handles .reconnect = some handle from hheld]; exact Option.some_ne_none handle)
      -- it runs and has no connection, so it is neither down nor ready
      have hconnecting : c.state = .connecting := by
        cases hst : c.state with
        | stopped => exact absurd hst (hi.posture.running hrun')
        | connecting => rfl
        | ready =>
          obtain ⟨s, hsome, -⟩ := hi.posture.ready hst
          rw [hnone] at hsome; cases hsome
      have hopen := @openConnection_course world law (c.clear .reconnect) (hsocket.trans hnone) (hrun.trans hrun')
        (hstate.trans hconnecting)
      refine ⟨hclear.moves.trans hopen.moves, hopen.rest, fun s hs => ?_⟩
      rw [hnone] at hs; cases hs
  | handshake s =>
    show Course world law c ((c.spend handle .handshake).closeConnection world s _)
    rw [spend_eq hheld]
    exact ((Goes.clear c .handshake).trans (.closeConnection ..)).course hrest
  | heartbeat =>
    show Course world law c (if c.state = .ready then _ else c)
    split
    · rename_i hstate
      exact (Goes.write (.inr ⟨rfl, hstate⟩) _).course hrest
    · exact (Goes.refl c).course hrest
  | request key =>
    have hmove : Move world law c (c.fire world handle (.request key)) := .expired handle key ht
    obtain ⟨timers, new, -, he⟩ := c.expire_form world handle key
    rw [he] at hmove ⊢
    exact (Goes.of_move hmove rfl rfl rfl fun e he => List.mem_of_mem_filter he).course hrest

theorem Goes.rejected (c : RelayClient) (promise : Detached) (error : String) :
    Goes world law c (c.rejected world promise error) := by
  unfold RelayClient.rejected
  dsimp only
  split
  · exact .aside ..
  · exact (Goes.aside ..).trans (.report ..)

/-! ## Events -/

theorem hear_course (hi : Intact c) (hrest : Rest c) {s : Nat} {listener : RelayClient → RelayClient}
    (hl : c.socket = some s → Goes world law c (listener c)) (h : c.hear s listener = some c') : Course world law c c' := by
  obtain ⟨socket, hsocket, rfl⟩ := Option.map_eq_some_iff.mp h
  split
  · rename_i hlistening
    exact (hl (hi.owned.current_of_listening hsocket hlistening)).course hrest
  · exact (Goes.refl c).course hrest

/-- An attempt does not depend on the state before it. -/
theorem openConnection_state (c : RelayClient) (state : ClientState) :
    RelayClient.openConnection world { c with state := state } = c.openConnection world := by
  unfold RelayClient.openConnection RelayClient.cancelReconnect RelayClient.clear
  cases c.handles .reconnect <;> rfl

/-- A start, before the attempt it makes. -/
def RelayClient.begun (c : RelayClient) : RelayClient := { c.record .started with stopped := false, state := .connecting }

theorem start_course (hi : Intact c) (hrest : Rest c) :
    Course world law c (c.start world) ∨ c.state = .stopped ∧ Course world law c.begun (c.start world) := by
  unfold RelayClient.start
  dsimp only
  split
  · rename_i hstopped
    have hstate := hrest.halted hstopped
    have hsocket := (hi.posture.halted hstate).1
    have haside : Goes world law c.begun { c.begun with attempt := 0, outageReported := false } := .aside ..
    have hopen : Course world law { c.begun with attempt := 0, outageReported := false } _ :=
      openConnection_course hsocket rfl rfl
    refine .inr ⟨hstate, ?_⟩
    rw [← openConnection_state _ .connecting]
    refine ⟨haside.moves.trans hopen.moves, hopen.rest, fun s hs => ?_⟩
    rw [show c.socket = some s from hs] at hsocket; cases hsocket
  · exact .inl ((Goes.passed c rfl).course hrest)

theorem step_course {e : Event} (hi : Intact c) (hrest : Rest c)
    (hlaw : ∀ call, e = .call call → law c ⟨call.kind.replySpace, call.token⟩) (h : step world c e = some c') :
    Course world law c c' ∨ e = .start ∧ c.state = .stopped ∧ Course world law c.begun c' := by
  cases e with
  | start =>
    cases h
    exact (start_course hi hrest).imp_right fun h => ⟨rfl, h⟩
  | stop =>
    cases h
    exact .inl ((Goes.stop c).course hrest)
  | call call =>
    cases h
    exact .inl (call_course hi hrest call (hlaw call rfl))
  | connected s =>
    have h : c.hear s (·.onConnect world s) = some c' := h
    exact .inl (hear_course hi hrest (fun hs => .onConnect hs) h)
  | data s chunk =>
    have h : c.hear s (·.receive world s chunk) = some c' := h
    exact .inl (hear_course hi hrest (fun _ => .receive hi hrest s chunk) h)
  | errored s error =>
    have h : c.hear s (fun c => c.closeConnection world s (c.statedCause.getD error)) = some c' := h
    exact .inl (hear_course hi hrest (fun _ => .closeConnection ..) h)
  | closed s =>
    have h : c.hear s (fun c => c.closeConnection world s (c.statedCause.getD "the relay closed the connection")) = some c' := h
    exact .inl (hear_course hi hrest (fun _ => .closeConnection ..) h)
  | perished s =>
    obtain ⟨socket, hsocket, rfl⟩ := Option.map_eq_some_iff.mp h
    exact .inl ((Goes.of_move (.perished s socket hsocket) rfl rfl rfl fun _ => id).course hrest)
  | fired handle =>
    obtain ⟨timer, ht, rfl⟩ := Option.map_eq_some_iff.mp h
    exact .inl (fire_course hi hrest ht)
  | rejected promise error =>
    simp only [step] at h
    split at h
    · cases h
      exact .inl ((Goes.rejected c promise error).course hrest)
    · cases h

theorem intact_init : Intact {} := by
  refine ⟨⟨⟨?_, List.nodup_nil⟩, .empty, List.forall_mem_nil _⟩, ⟨?_, ?_, ?_⟩, ⟨?_, fun _ => ⟨rfl, rfl⟩, ?_, fun _ => rfl, ?_⟩, ?_⟩
  · have hnone : held (fun _ => none) [] = fun _ => none := by
      funext o
      cases o <;> rfl
    show Remembered ∅ 0 Timer.owner (held (fun _ => none) [])
    rw [hnone]; exact .empty
  · intro s socket h; cases h
  · intro s h; cases h
  · intro s socket h; cases h
  · intro h; cases h
  · intro h; cases h
  · intro s r encoded h; cases h
  · intro s frame encoded h; cases h

theorem rest_init : Rest {} := ⟨fun _ => rfl, fun h => by cases h⟩

theorem begun_intact (hi : Intact c) (hs : c.state = .stopped) : Intact c.begun :=
  Intact.started (hi.plain rfl trivial fun s frame encoded he => by cases he) hs

theorem step_intact {e : Event} (hi : Intact c) (hrest : Rest c) (h : step world c e = some c') : Intact c' ∧ Rest c' := by
  rcases @step_course world (fun _ _ => True) c c' e hi hrest (fun _ _ => trivial) h with hcourse | ⟨-, hs, hcourse⟩
  · exact ⟨hcourse.moves.intact hi, hcourse.rest⟩
  · exact ⟨hcourse.moves.intact (begun_intact hi hs), hcourse.rest⟩

/-- Whatever the world does, every client is intact and at rest between two events. -/
theorem intact_of_reach {ok : RelayClient → Event → Prop} (h : Reach (step world) {} ok c) : Intact c ∧ Rest c :=
  h.inv (P := fun c => Intact c ∧ Rest c) ⟨intact_init, rest_init⟩ fun _ _ _ hc _ he => step_intact hc.1 hc.2 he

end OmpRelayd.Client
