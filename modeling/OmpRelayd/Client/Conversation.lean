/-
  OmpRelayd.Client.Conversation — what a client says on a socket, and what it makes of what it hears.

  The history tells the lines of each socket apart: the chunks that were heard on it, the frames
  that were dispatched, the frames that were written. Nothing a method does between two frames is
  heard or dispatched (`Quiet`), whatever it writes is the encoding of `hello`, of a `ping` or of a
  frame that a call asked for and that passed its checks (`Line`), and it keeps the accumulator as
  long as it keeps the socket. `Telling` is what an event is to the conversation.

  Proved of every run (`the_client_keeps_to_the_stream`): on each socket the frames dispatched are
  what the bytes heard come to as one stream, one after another from the first, and all of them as
  long as the connection is the current one; and everything written is one of these lines.
-/

import OmpRelayd.Client.Courses
import OmpRelayd.Client.Lifecycle

namespace OmpRelayd.Client

/-! ## Lines -/

def Effect.heardOn (s : Nat) : Effect → Option Bytes
  | .heard s' chunk => if s' = s then some chunk else none
  | _ => none

def Effect.dispatchedOn (s : Nat) : Effect → Option ServerFrame
  | .dispatched s' frame => if s' = s then some frame else none
  | _ => none

def Effect.wroteOn (s : Nat) : Effect → Option (Outgoing × Bytes)
  | .wrote s' what encoded => if s' = s then some (what, encoded) else none
  | _ => none

/-- The chunks heard on a socket, the first one first. -/
def heardOn (s : Nat) (history : List Effect) : List Bytes := history.reverse.filterMap (Effect.heardOn s)

def dispatchedOn (s : Nat) (history : List Effect) : List ServerFrame := history.reverse.filterMap (Effect.dispatchedOn s)

def wroteOn (s : Nat) (history : List Effect) : List (Outgoing × Bytes) := history.reverse.filterMap (Effect.wroteOn s)

/-- What the client put on a socket. -/
def written (s : Nat) (history : List Effect) : Bytes := ((wroteOn s history).map (·.2)).flatten

/-- Neither heard, nor dispatched, nor a greeting. -/
def Effect.wordless : Effect → Bool
  | .heard _ _ => false
  | .dispatched _ _ => false
  | .wrote _ .hello _ => false
  | _ => true

section
variable {history new : List Effect} {s : Nat}

theorem filterMap_reverse_cons {β : Type} (f : Effect → Option β) (e : Effect) (history : List Effect) :
    (e :: history).reverse.filterMap f = history.reverse.filterMap f ++ (f e).toList := by
  rw [List.reverse_cons, List.filterMap_append]
  cases h : f e <;> simp [h]

theorem filterMap_wordless {β : Type} {f : Effect → Option β} (h : ∀ e ∈ new, f e = none) (history : List Effect) :
    (new ++ history).reverse.filterMap f = history.reverse.filterMap f := by
  have hnone : new.reverse.filterMap f = [] := List.filterMap_eq_nil_iff.mpr fun e he => h e (List.mem_reverse.mp he)
  rw [List.reverse_append, List.filterMap_append, hnone, List.append_nil]

theorem Effect.wordless_heardOn {e : Effect} (h : e.wordless = true) : e.heardOn s = none := by
  cases e <;> first | rfl | cases h

theorem Effect.wordless_dispatchedOn {e : Effect} (h : e.wordless = true) : e.dispatchedOn s = none := by
  cases e <;> first | rfl | cases h

theorem Effect.wordless_wrote {what : Outgoing} (h : what ≠ .hello) (encoded : Bytes) :
    (Effect.wrote s what encoded).wordless = true := by
  cases what <;> first | rfl | exact absurd rfl h

theorem heardOn_wordless (h : ∀ e ∈ new, e.wordless = true) : heardOn s (new ++ history) = heardOn s history :=
  filterMap_wordless (fun e he => Effect.wordless_heardOn (h e he)) history

theorem dispatchedOn_wordless (h : ∀ e ∈ new, e.wordless = true) : dispatchedOn s (new ++ history) = dispatchedOn s history :=
  filterMap_wordless (fun e he => Effect.wordless_dispatchedOn (h e he)) history

end

/-- What stands behind the bytes of a frame that was written. -/
def Line (world : World) (history : List Effect) : Outgoing → Bytes → Prop
  | .hello, encoded => ∃ protocol, protocol.val = protocolVersion ∧
      world.encodeFrame (.hello protocol world.room world.peer) = .ok encoded
  | .ping, encoded => world.encodeFrame .ping = .ok encoded
  | .request r, encoded => ∃ call frame, .issued r (Call.kind call) call.token ∈ history ∧ call.frame = .ok frame ∧
      world.encodeFrame frame = .ok encoded

theorem Line.mono {world : World} {history history' : List Effect} (hh : ∀ e ∈ history, e ∈ history') {what : Outgoing}
    {encoded : Bytes} (h : Line world history what encoded) : Line world history' what encoded := by
  cases what with
  | hello => exact h
  | ping => exact h
  | request r =>
    obtain ⟨call, frame, hissued, hframe, hencode⟩ := h
    exact ⟨call, frame, hh _ hissued, hframe, hencode⟩

structure Proper (world : World) (c : RelayClient) : Prop where
  spoken : ∀ s what encoded, .wrote s what encoded ∈ c.history → Line world c.history what encoded
  waiting : ∀ e ∈ c.pending, ∀ encoded, e.unwritten = some encoded → Line world c.history (.request e.request) encoded

section
variable {world : World} {c c' : RelayClient}

theorem Proper.cons (hp : Proper world c) {e : Effect} (hhistory : c'.history = e :: c.history)
    (hpending : c'.pending = c.pending) (h : ∀ s what encoded, e = .wrote s what encoded → Line world c.history what encoded) :
    Proper world c' := by
  refine ⟨fun s what encoded hm => ?_, fun entry he encoded hu => ?_⟩
  · rw [hhistory] at hm ⊢
    refine Line.mono (fun e => List.mem_cons_of_mem _) ?_
    rcases List.mem_cons.mp hm with he | hm
    · exact h s what encoded he.symm
    · exact hp.spoken s what encoded hm
  · rw [hhistory]
    exact (hp.waiting entry (hpending ▸ he) encoded hu).mono fun e => List.mem_cons_of_mem _

theorem Proper.wrote (hp : Proper world c) {s : Nat} {what : Outgoing} {encoded : Bytes}
    (hline : Proper world c → Line world c.history what encoded) (hhistory : c'.history = .wrote s what encoded :: c.history)
    (hpending : c'.pending = c.pending) : Proper world c' := by
  refine hp.cons hhistory hpending fun s' what' encoded' he => ?_
  cases he
  exact hline hp

end

/-! ## Quiet courses -/

structure Quiet (world : World) (c c' : RelayClient) : Prop where
  history : ∃ new, c'.history = new ++ c.history ∧ ∀ e ∈ new, e.wordless = true
  kept : c'.socket = c.socket ∧ c'.accumulator = c.accumulator ∨ c'.socket = none
  next : c'.nextSocket = c.nextSocket
  proper : Proper world c → Proper world c'

/-- Neither heard, nor dispatched, nor written. -/
def Effect.mute : Effect → Bool
  | .wrote _ _ _ => false
  | e => e.wordless

theorem Settles.mute {outcome : RequestOutcome} {e : Effect} (h : Settles outcome e) : e.mute = true := by
  obtain ⟨request, kind, token, rfl⟩ := h
  rfl

theorem Effect.mute_wordless {e : Effect} (h : e.mute = true) : e.wordless = true := by
  cases e <;> first | exact h | cases h

namespace Quiet

variable {world : World} {c c' c'' : RelayClient}

theorem trans (h : Quiet world c c') (h' : Quiet world c' c'') : Quiet world c c'' := by
  obtain ⟨new, hnew, hwordless⟩ := h.history
  obtain ⟨new', hnew', hwordless'⟩ := h'.history
  refine ⟨⟨new' ++ new, by rw [hnew', hnew, List.append_assoc], List.forall_mem_append.mpr ⟨hwordless', hwordless⟩⟩, ?_,
    h'.next.trans h.next, fun hp => h'.proper (h.proper hp)⟩
  rcases h'.kept with ⟨hs, ha⟩ | hnone
  · rcases h.kept with ⟨hs', ha'⟩ | hnone
    · exact .inl ⟨hs.trans hs', ha.trans ha'⟩
    · exact .inr (hs.trans hnone)
  · exact .inr hnone

/-- Nothing is written, and of the requests that wait some may be gone. -/
theorem of_mute (new : List Effect) (hh : c'.history = new ++ c.history) (hmute : ∀ e ∈ new, e.mute = true)
    (hpending : ∀ e ∈ c'.pending, e ∈ c.pending)
    (hkept : c'.socket = c.socket ∧ c'.accumulator = c.accumulator ∨ c'.socket = none)
    (hnext : c'.nextSocket = c.nextSocket) : Quiet world c c' := by
  have hmono : ∀ e ∈ c.history, e ∈ c'.history := fun e he => by rw [hh]; exact List.mem_append_right _ he
  refine ⟨⟨new, hh, fun e he => Effect.mute_wordless (hmute e he)⟩, hkept, hnext, fun hp => ⟨?_, ?_⟩⟩
  · intro s what encoded hm
    rw [hh] at hm
    rcases List.mem_append.mp hm with hm | hm
    · exact absurd (hmute _ hm) (by simp [Effect.mute])
    · exact (hp.spoken s what encoded hm).mono hmono
  · intro e he encoded hu
    exact (hp.waiting e (hpending e he) encoded hu).mono hmono

theorem refl (c : RelayClient) : Quiet world c c := .of_mute [] rfl (List.forall_mem_nil _) (fun _ => id) (.inl ⟨rfl, rfl⟩) rfl

theorem record (c : RelayClient) {e : Effect} (h : e.mute = true) : Quiet world c (c.record e) :=
  .of_mute [e] rfl (List.forall_mem_singleton.mpr h) (fun _ => id) (.inl ⟨rfl, rfl⟩) rfl

theorem clear (c : RelayClient) (slot : Slot) : Quiet world c (c.clear slot) := by
  obtain ⟨timers, he⟩ := c.clear_form slot
  rw [he]
  exact .of_mute [] rfl (List.forall_mem_nil _) (fun _ => id) (.inl ⟨rfl, rfl⟩) rfl

theorem arm (c : RelayClient) (slot : Slot) (timer : Timer) : Quiet world c (c.arm slot timer) :=
  .of_mute [] rfl (List.forall_mem_nil _) (fun _ => id) (.inl ⟨rfl, rfl⟩) rfl

theorem settleKey (c : RelayClient) (key : Key) (outcome : RequestOutcome) : Quiet world c (c.settleKey key outcome).2 := by
  obtain ⟨timers, new, hnew, he⟩ := c.settleKey_form key outcome
  rw [he]
  exact .of_mute new rfl (fun e h => (hnew e h).mute) (fun e h => List.mem_of_mem_filter h) (.inl ⟨rfl, rfl⟩) rfl

theorem settleAll (c : RelayClient) (keys : List Key) (outcome : RequestOutcome) :
    Quiet world c (c.settleAll keys outcome).2 := by
  obtain ⟨timers, new, hnew, he⟩ := c.settleAll_form keys outcome
  rw [he]
  exact .of_mute new rfl (fun e h => (hnew e h).mute) (fun e h => List.mem_of_mem_filter h) (.inl ⟨rfl, rfl⟩) rfl

theorem stop (c : RelayClient) : Quiet world c c.stop := by
  obtain ⟨timers, new, hnew, he⟩ := c.stop_form
  rw [he]
  refine .of_mute (new ++ [.stopped]) (by simp) ?_ (List.forall_mem_nil _) (.inr rfl) rfl
  exact List.forall_mem_append.mpr ⟨fun e h => (hnew e h).mute, List.forall_mem_singleton.mpr rfl⟩

theorem teardown (c : RelayClient) (s : Nat) (reason : String) : Quiet world c (c.teardown s reason) := by
  obtain ⟨timers, new, hnew, he⟩ := c.teardown_form s reason
  rw [he]
  exact .of_mute new rfl (fun e h => (hnew e h).mute) (List.forall_mem_nil _) (.inr rfl) rfl

theorem invoke (c : RelayClient) (callback : Callback) : Quiet world c (c.invoke world callback).2 := by
  unfold RelayClient.invoke
  cases world.host c.calls callback with
  | none => exact .refl c
  | some reaction =>
    have hcalled : Quiet world c (RelayClient.record { c with calls := c.calls + 1 } (.called callback)) :=
      .of_mute [.called callback] rfl (List.forall_mem_singleton.mpr rfl) (fun _ => id) (.inl ⟨rfl, rfl⟩) rfl
    cases hstops : reaction.stops with
    | false => simpa [hstops] using hcalled
    | true => simpa [hstops] using hcalled.trans (.stop _)

theorem report (c : RelayClient) (level : ReportLevel) (message : String) : Quiet world c (c.report world level message) :=
  .invoke c _

theorem notify (c : RelayClient) (callback : Callback) : Quiet world c (c.notify world callback) := by
  have h := @invoke world c callback
  unfold RelayClient.notify
  cases hi : c.invoke world callback with
  | mk ending c' =>
    rw [hi] at h
    cases ending with
    | returns => exact h
    | throws error => exact h.trans (.report ..)
    | promises =>
      exact h.trans (.of_mute [] rfl (List.forall_mem_nil _) (fun _ => id) (.inl ⟨rfl, rfl⟩) rfl)

theorem reportOutage (c : RelayClient) (message : String) : Quiet world c (c.reportOutage world message) := by
  unfold RelayClient.reportOutage
  split
  · exact .refl c
  · have hmarked : Quiet world c { c with outageReported := true } :=
      .of_mute [] rfl (List.forall_mem_nil _) (fun _ => id) (.inl ⟨rfl, rfl⟩) rfl
    exact hmarked.trans (.report ..)

theorem scheduleReconnect (c : RelayClient) (reason : String) : Quiet world c (c.scheduleReconnect world reason) := by
  unfold RelayClient.scheduleReconnect
  split
  · exact .refl c
  · have hcounted : Quiet world c { c with attempt := c.attempt + 1 } :=
      .of_mute [] rfl (List.forall_mem_nil _) (fun _ => id) (.inl ⟨rfl, rfl⟩) rfl
    exact ((hcounted.trans (.reportOutage ..)).trans (.clear ..)).trans (.arm ..)

theorem closeConnection (c : RelayClient) (s : Nat) (reason : String) :
    Quiet world c (c.closeConnection world s reason) := by
  unfold RelayClient.closeConnection
  split
  · exact .refl c
  · refine ((Quiet.teardown c s reason).trans ?_).trans (.notify ..)
    split
    · exact .refl _
    · exact .scheduleReconnect ..

/-! ### Writing -/

theorem writeEncoded {what : Outgoing} {encoded : Bytes} (hwhat : what ≠ .hello)
    (hline : Proper world c → Line world c.history what encoded) : Quiet world c (c.writeEncoded world what encoded) := by
  cases hs : c.socket with
  | none =>
    rw [RelayClient.writeEncoded, hs]
    exact .refl c
  | some s =>
    have hwrote : Quiet world c (RelayClient.record { c with writes := c.writes + 1 } (.wrote s what encoded)) := by
      refine ⟨⟨[.wrote s what encoded], rfl, List.forall_mem_singleton.mpr (Effect.wordless_wrote hwhat encoded)⟩,
        .inl ⟨rfl, rfl⟩, rfl, fun hp => hp.wrote hline rfl rfl⟩
    cases hw : world.write c.writes with
    | some error =>
      rw [writeEncoded_throws hs hw]
      exact hwrote.trans (.closeConnection ..)
    | none =>
      rw [writeEncoded_returns hs hw]
      exact hwrote.trans ((Quiet.clear _ .heartbeat).trans (.arm ..))

theorem write {what : Outgoing} {frame : ClientFrame} (hwhat : what ≠ .hello)
    (hline : ∀ encoded, world.encodeFrame frame = .ok encoded → Line world c.history what encoded) :
    Quiet world c (c.write world what frame) := by
  unfold RelayClient.write
  cases h : world.encodeFrame frame with
  | error error => exact .report ..
  | ok encoded => exact .writeEncoded hwhat fun _ => hline encoded h

theorem markWritten (c : RelayClient) (request : Nat) : Quiet world c (c.markWritten request) := by
  refine ⟨⟨[], rfl, List.forall_mem_nil _⟩, .inl ⟨rfl, rfl⟩, rfl, fun hp => ⟨hp.spoken, ?_⟩⟩
  intro e he encoded hu
  rw [markWritten_pending] at he
  obtain ⟨e₀, he₀, rfl⟩ := List.mem_map.mp he
  rw [(mark_same request e₀).2.2.1]
  refine hp.waiting e₀ he₀ encoded ?_
  unfold mark at hu
  split at hu
  · cases hu
  · exact hu

theorem flushKeys (c : RelayClient) (keys : List Key) : Quiet world c (c.flushKeys world keys) := by
  induction keys generalizing c with
  | nil => exact .refl c
  | cons key keys ih =>
    unfold RelayClient.flushKeys
    cases hfind : c.find key with
    | none => exact ih c
    | some entry =>
      dsimp only
      cases hu : entry.unwritten with
      | none => exact ih c
      | some encoded =>
        have hmem : entry ∈ c.pending := List.mem_of_find?_eq_some hfind
        -- it is marked before it is written, which comes to the same
        have hline : Proper world c → Line world c.history (.request entry.request) encoded :=
          fun hp => hp.waiting entry hmem encoded hu
        refine Quiet.trans ?_ (ih _)
        cases hs : c.socket with
        | none =>
          have hquiet : (c.markWritten entry.request).writeEncoded world (.request entry.request) encoded =
              c.markWritten entry.request := by
            rw [RelayClient.writeEncoded, show (c.markWritten entry.request).socket = none from hs]
          rw [hquiet]
          exact .markWritten c _
        | some s =>
          rw [← writeEncoded_markWritten hs]
          exact (writeEncoded Outgoing.noConfusion hline).trans (.markWritten _ _)

/-- A request that is entered waits with the encoding of what was asked for. -/
theorem entered {c' : RelayClient} {entry : PendingRequest} {encoded : Bytes}
    (hline : Line world c.history (.request entry.request) encoded) (hentry : entry.unwritten = some encoded)
    (hpending : c'.pending = c.pending ++ [entry]) (hhistory : c'.history = c.history) (hsocket : c'.socket = c.socket)
    (hacc : c'.accumulator = c.accumulator) (hnext : c'.nextSocket = c.nextSocket) : Quiet world c c' := by
  refine ⟨⟨[], hhistory, List.forall_mem_nil _⟩, .inl ⟨hsocket, hacc⟩, hnext, fun hp => ⟨?_, ?_⟩⟩
  · rw [hhistory]
    exact hp.spoken
  · intro e he encoded' hu
    rw [hhistory]
    rw [hpending] at he
    rcases List.mem_append.mp he with he | he
    · exact hp.waiting e he encoded' hu
    · cases List.mem_singleton.mp he
      rw [hentry] at hu
      cases hu
      exact hline

theorem enter (c : RelayClient) {request : Nat} {key : Key} {kind : RequestKind} {encoded : Bytes}
    (hline : Line world c.history (.request request) encoded) : Quiet world c (c.enter world request key kind encoded) := by
  unfold RelayClient.enter
  extract_lets c₁
  have hentered : Quiet world c c₁ := entered hline rfl rfl rfl rfl rfl rfl
  split
  · exact hentered.trans ((writeEncoded (c := c₁) Outgoing.noConfusion fun _ => hline).trans (.markWritten _ _))
  · exact hentered

theorem issue (c : RelayClient) {request : Nat} {call : Call} {frame : ClientFrame}
    (hissued : .issued request call.kind call.token ∈ c.history) (hframe : call.frame = .ok frame) :
    Quiet world c (c.issue world request call.token call.kind frame) := by
  unfold RelayClient.issue
  dsimp only
  split
  · exact .record c rfl
  split
  · exact .record c rfl
  split
  · exact .record c rfl
  cases h : world.encodeFrame frame with
  | error error => exact .record c rfl
  | ok encoded => exact .enter c ⟨call, frame, hissued, hframe, h⟩

theorem call (c : RelayClient) (call : Call) : Quiet world c (c.call world call) := by
  unfold RelayClient.call
  dsimp only
  have hissued : Quiet world c
      (RelayClient.record { c with requests := c.requests + 1 } (.issued c.requests call.kind call.token)) :=
    .of_mute [_] rfl (List.forall_mem_singleton.mpr rfl) (fun _ => id) (.inl ⟨rfl, rfl⟩) rfl
  cases hframe : call.frame with
  | error message => exact hissued.trans (.record _ rfl)
  | ok frame => exact hissued.trans (.issue _ List.mem_cons_self hframe)

/-! ### Frames of the relay -/

theorem settle (c : RelayClient) (token : String) (kind : RequestKind) (frame : ServerFrame) :
    Quiet world c (c.settle world token kind frame) := by
  have h := @settleKey world c ⟨kind.replySpace, token⟩ (.ok frame)
  unfold RelayClient.settle
  cases hs : c.settleKey ⟨kind.replySpace, token⟩ (.ok frame) with
  | mk settled c' =>
    rw [hs] at h
    cases settled with
    | true => exact h
    | false => exact h.trans (.report ..)

theorem settleFirst (c : RelayClient) (token : String) (outcome : RequestOutcome) (spaces : List ReplySpace) :
    Quiet world c (c.settleFirst token outcome spaces).2 := by
  induction spaces generalizing c with
  | nil => exact .refl c
  | cons space spaces ih =>
    have h := @settleKey world c ⟨space, token⟩ outcome
    unfold RelayClient.settleFirst
    cases hs : c.settleKey ⟨space, token⟩ outcome with
    | mk settled c' =>
      rw [hs] at h
      cases settled with
      | true => exact h
      | false => exact h.trans (ih c')

theorem answerError (c : RelayClient) (code : String) (requestId : Option String) (outcome : RequestOutcome) :
    Quiet world c (c.answerError code requestId outcome).2 := by
  unfold RelayClient.answerError
  cases requestId with
  | some token =>
    dsimp only
    split
    · exact .settleFirst ..
    · exact .refl c
  | none =>
    dsimp only
    split
    · exact .settleAll ..
    · exact .refl c

theorem connectionError (c : RelayClient) (detail : String) : Quiet world c (c.connectionError world detail) := by
  have hstated : ∀ cause, Quiet world c { c with statedCause := cause } := fun _ =>
    .of_mute [] rfl (List.forall_mem_nil _) (fun _ => id) (.inl ⟨rfl, rfl⟩) rfl
  unfold RelayClient.connectionError
  split
  · exact (hstated _).trans (.report ..)
  · exact hstated _

theorem handleError (c : RelayClient) (s : Nat) (code : String) (message requestId : Option String) :
    Quiet world c (c.handleError world s code message requestId) := by
  unfold RelayClient.handleError
  dsimp only
  split
  · have hstopped : Quiet world c { c with stopped := true } :=
      .of_mute [] rfl (List.forall_mem_nil _) (fun _ => id) (.inl ⟨rfl, rfl⟩) rfl
    exact (hstopped.trans (.report ..)).trans (.closeConnection ..)
  · have h := @answerError world c code requestId
      (.failed ⟨.relayError, s!"the relay rejected the request: {RelayClient.errorDetail code message}", some code⟩)
    split
    · exact h
    · exact h.trans (.connectionError ..)

theorem welcome (c : RelayClient) : Quiet world c (c.welcome world) := by
  have hready : Quiet world c { c with state := .ready, attempt := 0, outageReported := false } :=
    .of_mute [] rfl (List.forall_mem_nil _) (fun _ => id) (.inl ⟨rfl, rfl⟩) rfl
  exact (((hready.trans (.clear ..)).trans ((Quiet.clear _ .heartbeat).trans (.arm ..))).trans (.flushKeys ..)).trans
    (.notify ..)

theorem dispatch (c : RelayClient) (s : Nat) (frame : ServerFrame) : Quiet world c (c.dispatch world s frame) := by
  unfold RelayClient.dispatch
  split
  · exact .closeConnection ..
  split
  · exact .report ..
  cases frame with
  | ready version => exact .welcome c
  | pong => exact .refl c
  | message => exact .notify ..
  | notice => exact .notify ..
  | peers => exact .settle ..
  | receipt => exact .settle ..
  | accepted => exact .settle ..
  | reserved => exact .settle ..
  | error code message requestId => exact .handleError ..

theorem rejected (c : RelayClient) (promise : Detached) (error : String) :
    Quiet world c (c.rejected world promise error) := by
  have hgone : Quiet world c { c with detached := c.detached.erase promise } :=
    .of_mute [] rfl (List.forall_mem_nil _) (fun _ => id) (.inl ⟨rfl, rfl⟩) rfl
  unfold RelayClient.rejected
  dsimp only
  split
  · exact hgone
  · exact hgone.trans (.report ..)

theorem spend (c : RelayClient) (handle : Nat) (slot : Slot) : Quiet world c (c.spend handle slot) :=
  .of_mute [] rfl (List.forall_mem_nil _) (fun _ => id) (.inl ⟨rfl, rfl⟩) rfl

theorem lapse (c : RelayClient) (handle : Nat) (key : Key) : Quiet world c (c.lapse handle key) := by
  refine ⟨⟨[], rfl, List.forall_mem_nil _⟩, .inl ⟨rfl, rfl⟩, rfl, fun hp => ⟨hp.spoken, ?_⟩⟩
  intro e he encoded hu
  obtain ⟨e₀, he₀, rfl⟩ := List.mem_map.mp he
  by_cases hkey : e₀.key = key
  · rw [if_pos hkey] at hu ⊢
    exact hp.waiting e₀ he₀ encoded hu
  · rw [if_neg hkey] at hu ⊢
    exact hp.waiting e₀ he₀ encoded hu

theorem perished (c : RelayClient) (sockets : Map Nat Socket) : Quiet world c { c with sockets := sockets } :=
  .of_mute [] rfl (List.forall_mem_nil _) (fun _ => id) (.inl ⟨rfl, rfl⟩) rfl

end Quiet

/-- A connection that is made writes one greeting at most, on the current socket. -/
theorem onConnect_greets {world : World} (c : RelayClient) (s : Nat) :
    Quiet world c (c.onConnect world s) ∨ ∃ s' encoded c₁, Quiet world c c₁ ∧ c₁.socket = some s' ∧
      world.encodeFrame (.hello (Fin.ofNat _ protocolVersion) world.room world.peer) = .ok encoded ∧
      Quiet world (RelayClient.record { c₁ with writes := c₁.writes + 1 } (.wrote s' .hello encoded)) (c.onConnect world s) := by
  have hready : Quiet world c (c.armHandshakeDeadline s) := (Quiet.clear c .handshake).trans (.arm ..)
  unfold RelayClient.onConnect RelayClient.write
  generalize c.armHandshakeDeadline s = c₁ at hready ⊢
  cases hencode : world.encodeFrame (.hello (Fin.ofNat _ protocolVersion) world.room world.peer) with
  | error error => exact .inl (hready.trans (.report ..))
  | ok encoded =>
    cases hs : c₁.socket with
    | none =>
      have hsame : c₁.writeEncoded world .hello encoded = c₁ := by rw [RelayClient.writeEncoded, hs]
      dsimp only
      rw [hsame]
      exact .inl hready
    | some s' =>
      refine .inr ⟨s', encoded, c₁, hready, hs, rfl, ?_⟩
      dsimp only
      cases hw : world.write c₁.writes with
      | some error =>
        rw [writeEncoded_throws hs hw]
        exact .closeConnection ..
      | none =>
        rw [writeEncoded_returns hs hw]
        exact (Quiet.clear _ .heartbeat).trans (.arm ..)

/-! ## Events -/

/-- What an event is to the conversation. -/
inductive Telling (world : World) (c : RelayClient) : Event → RelayClient → Prop where
  | quiet {e : Event} {c' : RelayClient} (h : Quiet world c c') : Telling world c e c'
  | opened {e : Event} {c₁ : RelayClient} (h : Quiet world c c₁) (hs : c₁.socket = none) :
    Telling world c e (c₁.openConnection world)
  | connected (s : Nat) (hs : c.socket = some s) : Telling world c (.connected s) (c.onConnect world s)
  | data (s : Nat) (chunk : Bytes) (hs : c.socket = some s) : Telling world c (.data s chunk) (c.receive world s chunk)

section
variable {world : World} {c c' : RelayClient} {e : Event}

theorem fire_telling (hi : Intact c) {handle : Nat} {timer : Timer} (ht : c.timers.lookup handle = some timer) :
    Telling world c e (c.fire world handle timer) := by
  cases timer with
  | reconnect =>
    have hspent : Quiet world c (c.spend handle .reconnect) := .spend ..
    have harmed : c.handles .reconnect = some handle := hi.books.wired.timers.kept handle .reconnect ht
    unfold RelayClient.fire
    dsimp only
    split
    · exact .quiet hspent
    · exact .opened hspent (hi.posture.waits (by rw [harmed]; exact Option.some_ne_none handle))
  | handshake s => exact .quiet ((Quiet.spend ..).trans (.closeConnection ..))
  | heartbeat =>
    unfold RelayClient.fire
    dsimp only
    split
    · exact .quiet (.write Outgoing.noConfusion fun _ h => h)
    · exact .quiet (.refl c)
  | request key =>
    have hlapsed : Quiet world c (c.lapse handle key) := .lapse ..
    have htimedOut : ∀ keys, Quiet world (c.lapse handle key) { c.lapse handle key with timedOut := keys } := fun _ =>
      .of_mute [] rfl (List.forall_mem_nil _) (fun _ => id) (.inl ⟨rfl, rfl⟩) rfl
    unfold RelayClient.fire
    dsimp only
    split
    · exact .quiet ((hlapsed.trans (htimedOut _)).trans (.settleKey ..))
    · exact .quiet (hlapsed.trans (.settleKey ..))

theorem start_telling (hi : Intact c) (hrest : Rest c) : Telling world c e (c.start world) := by
  have hstarted : Quiet world c (c.record .started) := .record c rfl
  unfold RelayClient.start
  dsimp only
  split
  · rename_i hstopped
    refine .opened (hstarted.trans ?_) (hi.posture.halted (hrest.halted hstopped)).1
    exact .of_mute [] rfl (List.forall_mem_nil _) (fun _ => id) (.inl ⟨rfl, rfl⟩) rfl
  · exact .quiet hstarted

theorem hear_telling (hi : Intact c) {s : Nat} {listener : RelayClient → RelayClient} (h : c.hear s listener = some c')
    (hl : c.socket = some s → Telling world c e (listener c)) : Telling world c e c' := by
  obtain ⟨socket, hsocket, rfl⟩ := Option.map_eq_some_iff.mp h
  split
  · rename_i hlistening
    exact hl (hi.owned.current_of_listening hsocket hlistening)
  · exact .quiet (.refl c)

theorem step_telling (hi : Intact c) (hrest : Rest c) (h : step world c e = some c') : Telling world c e c' := by
  cases e with
  | start =>
    cases h
    exact start_telling hi hrest
  | stop =>
    cases h
    exact .quiet (.stop c)
  | call call =>
    cases h
    exact .quiet (.call c call)
  | connected s =>
    have h : c.hear s (·.onConnect world s) = some c' := h
    exact hear_telling hi h (.connected s)
  | data s chunk =>
    have h : c.hear s (·.receive world s chunk) = some c' := h
    exact hear_telling hi h (.data s chunk)
  | errored s error =>
    have h : c.hear s (fun c => c.closeConnection world s (c.statedCause.getD error)) = some c' := h
    exact hear_telling hi h fun _ => .quiet (.closeConnection ..)
  | closed s =>
    have h : c.hear s (fun c => c.closeConnection world s (c.statedCause.getD "the relay closed the connection")) = some c' := h
    exact hear_telling hi h fun _ => .quiet (.closeConnection ..)
  | perished s =>
    obtain ⟨socket, -, rfl⟩ := Option.map_eq_some_iff.mp h
    exact .quiet (.perished ..)
  | fired handle =>
    obtain ⟨timer, ht, rfl⟩ := Option.map_eq_some_iff.mp h
    exact fire_telling hi ht
  | rejected promise error =>
    obtain ⟨-, he⟩ := Option.ite_none_right_eq_some.mp h
    cases he
    exact .quiet (.rejected ..)

end

/-! ## Frames dispatched -/

/-- The frames that are dispatched on the way of reading `values`. -/
def accepted : List Js → List ServerFrame
  | [] => []
  | value :: values =>
    match validateServerFrame value with
    | .frame frame => frame :: accepted values
    | .ignorable _ => accepted values
    | .invalid _ => []

/-- Every value is a frame, or at least an object with a type. -/
def Readable (values : List Js) : Prop := ∀ value ∈ values, ∀ reason, validateServerFrame value ≠ .invalid reason

theorem accepted_append {values : List Js} (h : Readable values) (later : List Js) :
    accepted (values ++ later) = accepted values ++ accepted later := by
  induction values with
  | nil => rfl
  | cons value values ih =>
    have ih := ih fun v hv => h v (List.mem_cons_of_mem _ hv)
    cases hv : validateServerFrame value with
    | frame frame => simp only [List.cons_append, accepted, hv, ih]
    | ignorable type => simp only [List.cons_append, accepted, hv, ih]
    | invalid reason => exact absurd hv (h value List.mem_cons_self reason)

/-- On this socket these frames were dispatched in between. -/
structure Dispatches (world : World) (s : Nat) (frames : List ServerFrame) (c c' : RelayClient) : Prop where
  history : ∃ new, c'.history = new ++ c.history ∧ (∀ e ∈ new, e.wordless = true ∨ ∃ frame, e = .dispatched s frame) ∧
    new.reverse.filterMap (Effect.dispatchedOn s) = frames
  kept : c'.socket = c.socket ∧ c'.accumulator = c.accumulator ∨ c'.socket = none
  next : c'.nextSocket = c.nextSocket
  proper : Proper world c → Proper world c'

section
variable {world : World} {c c' c'' : RelayClient} {s : Nat}

theorem Quiet.heard (h : Quiet world c c') (s : Nat) : heardOn s c'.history = heardOn s c.history := by
  obtain ⟨new, hnew, hwordless⟩ := h.history
  rw [hnew, heardOn_wordless hwordless]

theorem Quiet.dispatched (h : Quiet world c c') (s : Nat) : dispatchedOn s c'.history = dispatchedOn s c.history := by
  obtain ⟨new, hnew, hwordless⟩ := h.history
  rw [hnew, dispatchedOn_wordless hwordless]

theorem Quiet.told (h : Quiet world c c') (s : Nat) : Dispatches world s [] c c' := by
  obtain ⟨new, hnew, hwordless⟩ := h.history
  refine ⟨⟨new, hnew, fun e he => .inl (hwordless e he), ?_⟩, h.kept, h.next, h.proper⟩
  exact List.filterMap_eq_nil_iff.mpr fun e he => Effect.wordless_dispatchedOn (hwordless e (List.mem_reverse.mp he))

namespace Dispatches

variable {frames frames' : List ServerFrame}

theorem trans (h : Dispatches world s frames c c') (h' : Dispatches world s frames' c' c'') : Dispatches world s (frames ++ frames') c c'' := by
  obtain ⟨new, hnew, hall, rfl⟩ := h.history
  obtain ⟨new', hnew', hall', rfl⟩ := h'.history
  refine ⟨⟨new' ++ new, ?_, ?_, ?_⟩, ?_, h'.next.trans h.next, fun hp => h'.proper (h.proper hp)⟩
  · rw [hnew', hnew, List.append_assoc]
  · exact List.forall_mem_append.mpr ⟨hall', hall⟩
  · rw [List.reverse_append, List.filterMap_append]
  rcases h'.kept with ⟨hs, ha⟩ | hnone
  · rcases h.kept with ⟨hs', ha'⟩ | hnone
    · exact .inl ⟨hs.trans hs', ha.trans ha'⟩
    · exact .inr (hs.trans hnone)
  · exact .inr hnone

theorem dispatched (c : RelayClient) (s : Nat) (frame : ServerFrame) :
    Dispatches world s [frame] c (c.record (.dispatched s frame)) := by
  refine ⟨⟨[.dispatched s frame], rfl, List.forall_mem_singleton.mpr (.inr ⟨frame, rfl⟩), ?_⟩, .inl ⟨rfl, rfl⟩, rfl,
    fun hp => hp.cons rfl rfl fun _ _ _ he => by cases he⟩
  simp [Effect.dispatchedOn]

theorem heard (h : Dispatches world s frames c c') (s' : Nat) : heardOn s' c'.history = heardOn s' c.history := by
  obtain ⟨new, hnew, hall, -⟩ := h.history
  rw [hnew]
  refine filterMap_wordless (fun e he => ?_) c.history
  rcases hall e he with hwordless | ⟨frame, rfl⟩
  · exact Effect.wordless_heardOn hwordless
  · rfl

theorem here (h : Dispatches world s frames c c') : dispatchedOn s c'.history = dispatchedOn s c.history ++ frames := by
  obtain ⟨new, hnew, -, rfl⟩ := h.history
  rw [hnew, dispatchedOn, List.reverse_append, List.filterMap_append]
  rfl

theorem elsewhere (h : Dispatches world s frames c c') {s' : Nat} (hne : s' ≠ s) :
    dispatchedOn s' c'.history = dispatchedOn s' c.history := by
  obtain ⟨new, hnew, hall, -⟩ := h.history
  rw [hnew]
  refine filterMap_wordless (fun e he => ?_) c.history
  rcases hall e he with hwordless | ⟨frame, rfl⟩
  · exact Effect.wordless_dispatchedOn hwordless
  · exact if_neg hne.symm

end Dispatches

/-- What the loop of `receive` comes to: it dispatches what it reads from the first value on, and
    all of it unless the connection ends. -/
structure Reads (world : World) (s : Nat) (values : List Js) (c : RelayClient) (r : Bool × RelayClient) : Prop where
  told : ∃ frames, Dispatches world s frames c r.2 ∧ frames <+: accepted values ∧ (r.1 = true → frames = accepted values)
  through : r.1 = true → r.2.socket = some s ∧ Readable values
  ended : r.1 = false → r.2.socket ≠ some s

theorem Reads.ending {frames : List ServerFrame} {values : List Js} (h : Dispatches world s frames c c')
    (hpre : frames <+: accepted values) (hs : c'.socket ≠ some s) : Reads world s values c (false, c') :=
  ⟨⟨frames, h, hpre, fun h => absurd h Bool.false_ne_true⟩, fun h => absurd h Bool.false_ne_true, fun _ => hs⟩

/-- One value that does not end the connection, and the rest. -/
theorem Reads.cons {frames : List ServerFrame} {value : Js} {values : List Js} {r : Bool × RelayClient}
    (h : Dispatches world s frames c c') (haccepted : accepted (value :: values) = frames ++ accepted values)
    (hvalue : ∀ reason, validateServerFrame value ≠ .invalid reason) (hr : Reads world s values c' r) :
    Reads world s (value :: values) c r := by
  obtain ⟨later, htold, hpre, hall⟩ := hr.told
  refine ⟨⟨frames ++ later, h.trans htold, ?_, fun hthrough => ?_⟩, fun hthrough => ?_, hr.ended⟩
  · rw [haccepted]
    exact (List.prefix_append_right_inj frames).mpr hpre
  · rw [haccepted, hall hthrough]
  · exact ⟨(hr.through hthrough).1, List.forall_mem_cons.mpr ⟨hvalue, (hr.through hthrough).2⟩⟩

theorem receiveValues_reads (hs : c.socket = some s) (values : List Js) :
    Reads world s values c (c.receiveValues world s values) := by
  induction values generalizing c with
  | nil =>
    exact ⟨⟨[], (Quiet.refl c).told s, List.nil_prefix, fun _ => rfl⟩, fun _ => ⟨hs, List.forall_mem_nil _⟩,
      fun h => absurd h.symm Bool.false_ne_true⟩
  | cons value values ih =>
    unfold RelayClient.receiveValues
    cases hv : validateServerFrame value with
    | frame frame =>
      have htold : Dispatches world s [frame] c ((c.record (.dispatched s frame)).dispatch world s frame) :=
        (Dispatches.dispatched c s frame).trans ((Quiet.dispatch ..).told s)
      have haccepted : accepted (value :: values) = [frame] ++ accepted values := by simp only [accepted, hv]; rfl
      dsimp only
      split
      · rename_i hs'
        exact .cons htold haccepted (by rw [hv]; intro reason h; cases h) (ih hs')
      · rename_i hs'
        exact .ending htold (haccepted ▸ List.prefix_append ..) hs'
    | ignorable type =>
      have htold : Dispatches world s [] c (c.report world .info s!"ignored an unrecognized {type} frame") :=
        (Quiet.report ..).told s
      dsimp only
      split
      · rename_i hs'
        exact .cons htold (by simp only [accepted, hv]; rfl) (by rw [hv]; intro reason h; cases h) (ih hs')
      · rename_i hs'
        exact .ending htold List.nil_prefix hs'
    | invalid reason =>
      refine .ending ((Quiet.closeConnection ..).told s) List.nil_prefix ?_
      rw [(@closeConnection_current world (fun _ _ => True) c s hs _).2.2.1]
      intro h
      cases h

end

/-! ## The invariant -/

/-- What holds of every socket, the ones of the past included. -/
structure Spoken (world : World) (c : RelayClient) : Prop where
  proper : Proper world c
  fresh : ∀ s, c.nextSocket ≤ s → heardOn s c.history = [] ∧ dispatchedOn s c.history = []
  said : ∀ s, dispatchedOn s c.history <+: accepted (received world.decode (heardOn s c.history)).values

/-- What holds of the current one besides: nothing of what it said is left to dispatch. -/
structure Current (world : World) (c : RelayClient) (s : Nat) : Prop where
  known : s < c.nextSocket
  listening : c.accumulator = some (received world.decode (heardOn s c.history)).acc
  sound : (received world.decode (heardOn s c.history)).failure = none
  readable : Readable (received world.decode (heardOn s c.history)).values
  whole : dispatchedOn s c.history = accepted (received world.decode (heardOn s c.history)).values

structure Conversing (world : World) (c : RelayClient) : Prop extends Spoken world c where
  current : ∀ s, c.socket = some s → Current world c s

section
variable {world : World} {c c' : RelayClient} {s : Nat}

/-- Nothing was heard or dispatched in between. -/
theorem Spoken.same (hc : Spoken world c) (hproper : Proper world c') (hheard : ∀ s, heardOn s c'.history = heardOn s c.history)
    (hdispatched : ∀ s, dispatchedOn s c'.history = dispatchedOn s c.history) (hnext : c'.nextSocket = c.nextSocket) :
    Spoken world c' := by
  refine ⟨hproper, fun s hs => ?_, fun s => ?_⟩
  · rw [hheard, hdispatched]
    exact hc.fresh s (hnext ▸ hs)
  · rw [hheard, hdispatched]
    exact hc.said s

theorem Spoken.quiet (hc : Spoken world c) (h : Quiet world c c') : Spoken world c' :=
  hc.same (h.proper hc.proper) h.heard h.dispatched h.next

theorem Spoken.alone (hc : Spoken world c) (hs : c.socket = none) : Conversing world c := by
  refine ⟨hc, fun s h => ?_⟩
  rw [hs] at h
  cases h

namespace Conversing

theorem init : Conversing world {} := by
  refine Spoken.alone ⟨⟨fun _ _ _ h => ?_, fun _ h => ?_⟩, fun _ _ => ⟨rfl, rfl⟩, fun _ => List.nil_prefix⟩ rfl
  · exact absurd h List.not_mem_nil
  · exact absurd h List.not_mem_nil

theorem same (hc : Conversing world c) (hproper : Proper world c') (hheard : ∀ s, heardOn s c'.history = heardOn s c.history)
    (hdispatched : ∀ s, dispatchedOn s c'.history = dispatchedOn s c.history) (hnext : c'.nextSocket = c.nextSocket)
    (hkept : c'.socket = c.socket ∧ c'.accumulator = c.accumulator ∨ c'.socket = none) : Conversing world c' := by
  refine ⟨hc.toSpoken.same hproper hheard hdispatched hnext, fun s hs => ?_⟩
  rcases hkept with ⟨hsocket, hacc⟩ | hnone
  · have hcurrent := hc.current s (hsocket ▸ hs)
    refine ⟨hnext ▸ hcurrent.known, ?_, ?_, ?_, ?_⟩
    · rw [hheard, hacc]
      exact hcurrent.listening
    · rw [hheard]
      exact hcurrent.sound
    · rw [hheard]
      exact hcurrent.readable
    · rw [hheard, hdispatched]
      exact hcurrent.whole
  · rw [hnone] at hs
    cases hs

theorem quiet (hc : Conversing world c) (h : Quiet world c c') : Conversing world c' :=
  hc.same (h.proper hc.proper) h.heard h.dispatched h.next h.kept

/-! ### A chunk -/

theorem received_concat (chunks : List Bytes) (chunk : Bytes) :
    received world.decode (chunks ++ [chunk]) = (received world.decode chunks).push world.decode chunk := by
  rw [received, List.foldl_append]
  rfl

theorem heardOn_heard (history : List Effect) (s s' : Nat) (chunk : Bytes) :
    heardOn s' (.heard s chunk :: history) = heardOn s' history ++ if s = s' then [chunk] else [] := by
  refine (filterMap_reverse_cons _ _ _).trans ?_
  rw [Effect.heardOn]
  split <;> rfl

theorem dispatchedOn_heard (history : List Effect) (s s' : Nat) (chunk : Bytes) :
    dispatchedOn s' (.heard s chunk :: history) = dispatchedOn s' history :=
  (filterMap_reverse_cons _ _ _).trans (List.append_nil _)

/-- Where a chunk has led once its values are read: everything read is accounted for, and if the
    loop went through and the framing holds the connection goes on. -/
theorem heard (hc : Conversing world c) (hs : c.socket = some s) {chunk : Bytes} {outcome : AccumulatorOutcome Js}
    {acc : FrameAccumulator}
    (hpush : (received world.decode (heardOn s c.history)).acc.push world.decode chunk = (outcome, acc)) {r : Bool × RelayClient}
    (hr : Reads world s outcome.values (RelayClient.record { c with accumulator := some acc } (.heard s chunk)) r) :
    Spoken world r.2 ∧ (r.1 = true → outcome.failure = none → Conversing world r.2) := by
  obtain ⟨frames, htold, hpre, hall⟩ := hr.told
  have hcurrent := hc.current s hs
  have hreceived : received world.decode (heardOn s r.2.history) =
      (received world.decode (heardOn s c.history)).push world.decode chunk := by
    rw [htold.heard, ← received_concat]
    exact congrArg _ ((heardOn_heard ..).trans (by rw [if_pos rfl]))
  have hvalues : (received world.decode (heardOn s r.2.history)).values =
      (received world.decode (heardOn s c.history)).values ++ outcome.values := by
    rw [hreceived, Received.push, hpush]
  have hhere : dispatchedOn s r.2.history = dispatchedOn s c.history ++ frames := by
    rw [htold.here]
    exact congrArg (· ++ frames) (dispatchedOn_heard ..)
  have hspoken : Spoken world r.2 := by
    refine ⟨htold.proper (hc.proper.cons rfl rfl (fun _ _ _ he => by cases he)), fun s' hs' => ?_, fun s' => ?_⟩
    · have hfresh : c.nextSocket ≤ s' := htold.next ▸ hs'
      have hne : s' ≠ s := by
        have := hcurrent.known
        omega
      rw [htold.heard, htold.elsewhere hne]
      refine ⟨(heardOn_heard ..).trans ?_, (dispatchedOn_heard ..).trans (hc.fresh s' hfresh).2⟩
      rw [if_neg hne.symm, List.append_nil]
      exact (hc.fresh s' hfresh).1
    · by_cases hne : s' = s
      · subst hne
        rw [hhere, hvalues, accepted_append hcurrent.readable, hcurrent.whole]
        exact (List.prefix_append_right_inj _).mpr hpre
      · rw [htold.heard, htold.elsewhere hne]
        have hsame : heardOn s' (RelayClient.record { c with accumulator := some acc } (.heard s chunk)).history =
            heardOn s' c.history := (heardOn_heard ..).trans (by rw [if_neg (Ne.symm hne), List.append_nil])
        rw [hsame]
        exact (dispatchedOn_heard ..).symm ▸ hc.said s'
  refine ⟨hspoken, fun hthrough hsound => ⟨hspoken, fun s' hs' => ?_⟩⟩
  obtain ⟨hsocket, hreadable⟩ := hr.through hthrough
  cases hsocket.symm.trans hs'
  have hacc : r.2.accumulator = some acc := by
    rcases htold.kept with ⟨-, hacc⟩ | hnone
    · exact hacc
    · rw [hnone] at hs'
      cases hs'
  refine ⟨htold.next ▸ hcurrent.known, ?_, ?_, ?_, ?_⟩
  · rw [hacc, hreceived, Received.push, hpush]
  · rw [hreceived, Received.push, hpush, hcurrent.sound]
    exact hsound
  · rw [hvalues]
    exact List.forall_mem_append.mpr ⟨hcurrent.readable, hreadable⟩
  · rw [hhere, hvalues, accepted_append hcurrent.readable, hcurrent.whole, hall hthrough]

theorem receive (hc : Conversing world c) (s : Nat) (chunk : Bytes) : Conversing world (c.receive world s chunk) := by
  unfold RelayClient.receive
  cases hacc : c.accumulator with
  | none => exact hc
  | some acc =>
    dsimp only
    split
    · exact hc
    rename_i hs
    replace hs : c.socket = some s := not_not.mp hs
    obtain rfl : acc = (received world.decode (heardOn s c.history)).acc :=
      Option.some.inj (hacc.symm.trans (hc.current s hs).listening)
    cases hpush : (received world.decode (heardOn s c.history)).acc.push world.decode chunk with
    | mk outcome acc =>
    have hreads := @receiveValues_reads world
      (RelayClient.record { c with accumulator := some acc } (.heard s chunk)) s hs outcome.values
    dsimp only
    generalize RelayClient.receiveValues world
      (RelayClient.record { c with accumulator := some acc } (.heard s chunk)) s outcome.values = r at hreads ⊢
    obtain ⟨hspoken, hgoes⟩ := hc.heard hs hpush hreads
    obtain ⟨through, c'⟩ := r
    cases through with
    | false =>
      refine hspoken.alone ?_
      obtain ⟨frames, htold, -⟩ := hreads.told
      rcases htold.kept with ⟨hsame, -⟩ | hnone
      · exact absurd (hsame.trans hs) (hreads.ended rfl)
      · exact hnone
    | true =>
      cases hfailure : outcome.failure with
      | none => exact hgoes rfl hfailure
      | some failure =>
        exact (hspoken.quiet (.closeConnection ..)).alone
          (@closeConnection_current world (fun _ _ => True) c' s (hreads.through rfl).1 _).2.2.1

/-! ### Events -/

theorem onConnect (hc : Conversing world c) (s : Nat) : Conversing world (c.onConnect world s) := by
  rcases @onConnect_greets world c s with hquiet | ⟨s', encoded, c₁, hbefore, hs, hencode, hafter⟩
  · exact hc.quiet hquiet
  · have hc₁ := hc.quiet hbefore
    have hline : Line world c₁.history .hello encoded := ⟨_, rfl, hencode⟩
    generalize hgreeted : RelayClient.record { c₁ with writes := c₁.writes + 1 } (.wrote s' .hello encoded) = c₂ at hafter
    have hhistory : c₂.history = .wrote s' .hello encoded :: c₁.history := by rw [← hgreeted]; rfl
    refine quiet (hc₁.same (hc₁.proper.wrote (fun _ => hline) hhistory (hgreeted ▸ rfl)) ?_ ?_ (hgreeted ▸ rfl) ?_) hafter
    · rw [hhistory]
      exact fun _ => (filterMap_reverse_cons _ _ _).trans (List.append_nil _)
    · rw [hhistory]
      exact fun _ => (filterMap_reverse_cons _ _ _).trans (List.append_nil _)
    · exact .inl ⟨hgreeted ▸ rfl, hgreeted ▸ rfl⟩

theorem openConnection (hc : Conversing world c) (hs : c.socket = none) : Conversing world (c.openConnection world) := by
  unfold RelayClient.openConnection
  extract_lets c₁ c₂ thrown c₃
  have hquiet : Quiet world c c₁ := .clear ..
  have hc₁ : Conversing world c₁ := hc.quiet hquiet
  have hs₁ : c₁.socket = none := (clear_fields c .reconnect).1.trans hs
  have hheard : ∀ s, heardOn s c₃.history = heardOn s c₁.history := fun s =>
    (filterMap_reverse_cons _ _ _).trans (List.append_nil _)
  have hdispatched : ∀ s, dispatchedOn s c₃.history = dispatchedOn s c₁.history := fun s =>
    (filterMap_reverse_cons _ _ _).trans (List.append_nil _)
  have hspoken : Spoken world c₃ :=
    hc₁.toSpoken.same (hc₁.proper.cons rfl rfl fun _ _ _ he => by cases he) hheard hdispatched rfl
  cases thrown with
  | some error => exact (hspoken.alone hs₁).quiet (.scheduleReconnect ..)
  | none =>
    refine ⟨⟨⟨hspoken.proper.spoken, hspoken.proper.waiting⟩, fun s hle => hspoken.fresh s (Nat.le_of_succ_le hle), hspoken.said⟩, fun s hsome => ?_⟩
    -- nothing was said on the new socket yet
    cases hsome
    obtain ⟨hnone, hnothing⟩ := hspoken.fresh c₃.nextSocket (Nat.le_refl _)
    have hfresh : received world.decode (heardOn c₃.nextSocket c₃.history) = {} := by
      rw [hnone]
      rfl
    refine ⟨Nat.lt_succ_self _, ?_, ?_, ?_, ?_⟩
    · show some _ = some (received world.decode (heardOn c₃.nextSocket c₃.history)).acc
      rw [hfresh]
    · show (received world.decode (heardOn c₃.nextSocket c₃.history)).failure = none
      rw [hfresh]
    · show Readable (received world.decode (heardOn c₃.nextSocket c₃.history)).values
      rw [hfresh]
      exact List.forall_mem_nil _
    · show dispatchedOn c₃.nextSocket c₃.history = accepted (received world.decode (heardOn c₃.nextSocket c₃.history)).values
      rw [hfresh, hnothing]
      rfl

theorem telling {e : Event} (hc : Conversing world c) (h : Telling world c e c') : Conversing world c' := by
  cases h with
  | quiet h => exact hc.quiet h
  | opened h hs => exact (hc.quiet h).openConnection hs
  | connected s => exact hc.onConnect s
  | data s chunk => exact hc.receive s chunk

end Conversing

end

theorem conversing_of_reach {world : World} {ok : RelayClient → Event → Prop} {c : RelayClient}
    (h : Reach (step world) {} ok c) : Conversing world c := by
  refine (h.inv (P := fun c => Conversing world c ∧ Intact c ∧ Rest c) ⟨.init, intact_init, rest_init⟩ ?_).1
  intro c e c' hc _ hstep
  exact ⟨hc.1.telling (step_telling hc.2.1 hc.2.2 hstep), step_intact hc.2.1 hc.2.2 hstep⟩

end OmpRelayd.Client
