/-
  OmpRelayd.Heard — what the relay makes of what a client says.

  The two ends type their frames apart from each other; `heard` is the relay's frame for one of the
  client's, and it has the same map, so what the client's codec writes is what the relay's decoder
  reads (`decode_heard`). What the client checks before it writes is what the relay checks before
  it acts, and no handler finds fault with a frame that passes (`handleFrame_clean`).

  Proved (`the_relay_takes_what_the_client_says`): on orderly sockets, whatever part of a socket's
  bytes has arrived and however it was cut, the relay reads it without a framing error as frames it
  can decode, the first one admits the client under its own room and name, and none of the others
  is answered by an objection.
-/

import OmpRelayd.Client.Manners
import OmpRelayd.Client.Settling
import OmpRelayd.Extension.Admitted
import OmpRelayd.Framing
import OmpRelayd.Relay.Sizes
import OmpRelayd.RoundTrip

namespace OmpRelayd

open MsgPack

/-! ## One frame -/

/-- The relay's frame. -/
def heard : Client.ClientFrame → ClientFrame
  | .hello protocol room peer => .hello protocol.val room peer
  | .list requestId => .list requestId
  | .send id target body replyTo attachment => .send id target body replyTo attachment
  | .announce id body replyTo attachment _ => .announce id body replyTo attachment
  | .reserve requestId digest bytes => .reserve requestId digest bytes.val
  | .ping => .ping

/-- The relay has a type for it. -/
def Sayable : Client.ClientFrame → Prop
  | .hello protocol _ _ => protocol.val < 2 ^ 32
  | .announce _ _ _ _ target => target = none
  | _ => True

section
variable {frame : Client.ClientFrame}

theorem heard_typed (h : Sayable frame) : (heard frame).Typed := by
  cases frame with
  | hello protocol room peer => exact h
  | reserve requestId digest bytes => exact Nat.lt_trans bytes.isLt (by decide)
  | _ => trivial

/-- Both ends write one map. -/
theorem heard_value (h : Sayable frame) : (heard frame).value = frame.value := by
  cases frame with
  | hello protocol room peer =>
    have hprotocol : u32 protocol.val = protocol.val := Nat.mod_eq_of_lt h
    simp only [heard, ClientFrame.value, ClientFrame.fields, hprotocol]
    rfl
  | announce id body replyTo attachment target =>
    cases h
    show named (_ :: _) = named (_ :: (_ ++ []))
    rw [List.append_nil]
    rfl
  | reserve requestId digest bytes =>
    have hbytes : u64 bytes.val = bytes.val := Nat.mod_eq_of_lt (Nat.lt_trans bytes.isLt (by decide))
    simp only [heard, ClientFrame.value, ClientFrame.fields, hbytes]
    rfl
  | _ => rfl

end

theorem decode_client {frame : ClientFrame} (htyped : frame.Typed) (hfits : frame.value.Fits) :
    Decode.decode Decode.clientFrameOf frame.value.encode = .ok frame := by
  refine (Decode.RoundTrips.of_carries (Decode.ClientType.keys_nodup _) (Decode.ClientType.type_notMem_keys _)
    (Decode.ClientFrame.laid frame) (Decode.ClientFrame.shallow frame) hfits ?_).decoded
  intro entries content htag hcarries
  simp only [Decode.clientFrameOf, htag, Decode.ClientType.identify_name, Option.bind_eq_bind, Option.bind_some,
    Option.getD_some]
  exact Decode.clientVariant_carries htyped hcarries

theorem decode_heard {frame : Client.ClientFrame} (h : Sayable frame) (hlen : frame.value.encode.length ≤ maxFrameBytes) :
    Decode.decode Decode.clientFrameOf frame.value.encode = .ok (heard frame) := by
  have hcarried : Client.Carried frame.value :=
    Client.carried_named hlen (List.forall_mem_cons.mpr ⟨Client.plain_text _ _, frame.fields_plain⟩)
  have hdecode := decode_client (heard_typed h) (heard_value h ▸ hcarried.1)
  rwa [heard_value h] at hdecode

/-- What the client writes is what the relay's codec would write around the same payload. -/
theorem framed_of_encodeFrame {world : Client.World} {frame : Client.ClientFrame} {wire : Bytes}
    (h : world.encodeFrame frame = .ok wire) :
    frame.value.encode.length ≤ maxFrameBytes ∧ framed frame.value.encode = some wire := by
  unfold Client.World.encodeFrame Client.Codec.encodeFrame at h
  split at h
  · cases h
  · cases hp : (Client.msgpack world.description).encodePayload frame with
    | error e =>
      rw [hp] at h
      cases h
    | ok payload =>
      rw [hp] at h
      cases h
      obtain ⟨rfl, hle⟩ := (Client.msgpack world.description).encodePayload_ok hp
      exact ⟨hle, if_neg (Nat.not_lt.mpr hle)⟩

/-! ## What passes on one side passes on the other -/

namespace Relay

/-- After the first frame: nothing the relay would object to. -/
def Clean : ClientFrame → Prop
  | .hello _ _ _ => False
  | .list requestId => validateCorrelationId requestId = .ok ()
  | .send id _ body replyTo attachment =>
    validateCorrelationId id = .ok () ∧ Submission.passes ⟨id, body, replyTo, attachment⟩ = true
  | .announce id body replyTo attachment =>
    validateCorrelationId id = .ok () ∧ Submission.passes ⟨id, body, replyTo, attachment⟩ = true
  | .reserve requestId digest _ => validateCorrelationId requestId = .ok () ∧ validateDigest digest = .ok ()
  | .ping => True
  | .unsupported => False

/-- An error that is about the frame. One says that replies are not being drained, and a relay
    without a store says so. -/
def Objection (env : Env) (call : Call) : Prop :=
  ∃ code message requestId, call = .trySend (.error code message requestId) ∧ code ≠ .idleTimeout ∧
    ¬ (code = .unsupportedFrame ∧ env.blobs = false)

def unobjecting (env : Env) : Prog.Rules Call Call.Answer Unit := ⟨fun _ call => ¬ Objection env call, fun _ _ _ => ()⟩

/-- Whatever its calls are answered, the handler makes no objection. -/
def Unobjecting (env : Env) (p : Handler ControlFlow) : Prop := p.Obeys (unobjecting env) (fun _ _ => True) ()

section
variable {env : Env}

theorem unobjecting_ask {call : Call} (h : ¬ Objection env call) {fin : Unit → call.Answer → Prop}
    (hf : ∀ answer, fin () answer) : (ask call).Obeys (unobjecting env) fin () := ⟨h, hf⟩

/-- Only an offered error is an objection. -/
theorem not_objection {call : Call} (h : ∀ code message requestId, call ≠ .trySend (.error code message requestId)) :
    ¬ Objection env call := by
  intro hobjects
  obtain ⟨code, message, requestId, he, -⟩ := hobjects
  exact h code message requestId he

theorem unobjecting_diagnostic {message : String} {fin : Unit → Unit → Prop} (hf : fin () ()) :
    (queueDiagnostic .idleTimeout message).Obeys (unobjecting env) fin () := by
  have hdrain : ¬ Objection env (.trySend (.error .idleTimeout (some (capDiagnostic message)) none)) := by
    intro h
    obtain ⟨code, _, _, he, hcode, -⟩ := h
    cases he
    exact hcode rfl
  unfold queueDiagnostic
  rw [Prog.obeys_bind]
  exact unobjecting_ask hdrain fun _ => hf

theorem unobjecting_reply {reply : ServerFrame} (h : ¬ Objection env (.trySend reply)) : Unobjecting env (enqueueReply reply) := by
  unfold Unobjecting enqueueReply
  rw [Prog.obeys_bind]
  refine unobjecting_ask (not_objection fun _ _ _ => Call.noConfusion) fun free => ?_
  split
  · trivial
  · rw [Prog.obeys_bind]
    refine unobjecting_ask h fun queued => ?_
    split <;> trivial

theorem unobjecting_claim (what : String) {fin : Unit → Bool → Prop} (hf : ∀ slot, fin () slot) :
    (claimAcknowledgement what).Obeys (unobjecting env) fin () := by
  apply claimAcknowledgement_under what
  · exact not_objection fun _ _ _ => Call.noConfusion
  · intro free text _
    exact unobjecting_diagnostic (hf false)
  · intro free _
    exact not_objection fun _ _ _ => Call.noConfusion
  · intro free
    exact hf true
  · intro free text
    exact unobjecting_diagnostic (hf false)

theorem checkSubmission_passes {name field : String} {submitted : Submission} (h : submitted.passes = true)
    (accept : Handler ControlFlow) : checkSubmission env name field submitted accept = accept := by
  simp only [Submission.passes, Bool.and_eq_true, Option.isNone_iff_eq_none] at h
  obtain ⟨⟨hreply, hattachment⟩, hbody⟩ := h
  simp only [checkSubmission, hreply, hattachment, hbody]

theorem unobjecting_fanoutTo (payload : Bytes) (todo : List Nat) (counts : Fanout) {fin : Unit → Fanout → Prop}
    (hf : ∀ counts, fin () counts) : (fanoutTo payload todo counts).Obeys (unobjecting env) fin () := by
  induction todo generalizing counts with
  | nil => exact hf counts
  | cons outbound rest ih =>
    unfold fanoutTo
    rw [Prog.obeys_bind]
    refine unobjecting_ask (not_objection fun _ _ _ => Call.noConfusion) fun status => ?_
    split
    · exact ih _
    · exact ih _

end

section
variable {printable : Char → Bool} {idleDebug : String} {blobs : Bool} {registered : RegisteredPeer}

theorem unobjecting_send (hpeer : validateIdentifier registered.peer = .ok ()) (target : String) {submitted : Submission}
    (hid : validateCorrelationId submitted.id = .ok ()) (hpass : submitted.passes = true) :
    Unobjecting (wireEnv printable idleDebug blobs) (handleSend (wireEnv printable idleDebug blobs) registered target submitted) := by
  unfold Unobjecting handleSend
  rw [hid]
  dsimp only
  cases validateIdentifier target with
  | error error => exact unobjecting_reply (not_objection fun _ _ _ h => by cases h)
  | ok _ =>
    dsimp only
    rw [checkSubmission_passes hpass, Prog.obeys_bind]
    refine unobjecting_claim "send" fun slot => ?_
    cases slot with
    | false => trivial
    | true =>
      simp only [if_true, Prog.obeys_bind]
      unfold route
      simp only [Prog.obeys_bind]
      refine unobjecting_ask (not_objection fun _ _ _ => Call.noConfusion) fun outbound => ?_
      cases outbound with
      | none =>
        simp only [Prog.obeys_pure, Prog.obeys_bind]
        exact unobjecting_ask (not_objection fun _ _ _ => Call.noConfusion) fun _ => trivial
      | some outbound =>
        -- what passed its checks can be written
        rw [encodeDelivery_wire (message_fits hpeer hid hpass)]
        simp only [Prog.obeys_bind, Prog.obeys_pure]
        refine unobjecting_ask (not_objection fun _ _ _ => Call.noConfusion) fun status => ?_
        exact unobjecting_ask (not_objection fun _ _ _ => Call.noConfusion) fun _ => trivial

theorem unobjecting_announce (hpeer : validateIdentifier registered.peer = .ok ()) {submitted : Submission}
    (hid : validateCorrelationId submitted.id = .ok ()) (hpass : submitted.passes = true) :
    Unobjecting (wireEnv printable idleDebug blobs) (handleAnnounce (wireEnv printable idleDebug blobs) registered submitted) := by
  unfold Unobjecting handleAnnounce
  rw [hid]
  dsimp only
  rw [checkSubmission_passes hpass, Prog.obeys_bind]
  refine unobjecting_claim "announcement" fun slot => ?_
  cases slot with
  | false => trivial
  | true =>
    rw [encodeDelivery_wire (notice_fits hpeer hid hpass)]
    unfold fanout
    simp only [if_true, Prog.obeys_bind]
    refine unobjecting_ask (not_objection fun _ _ _ => Call.noConfusion) fun todo => ?_
    refine unobjecting_fanoutTo _ todo {} fun counts => ?_
    exact unobjecting_ask (not_objection fun _ _ _ => Call.noConfusion) fun _ => trivial

theorem unobjecting_reserve {requestId digest : String} (hid : validateCorrelationId requestId = .ok ())
    (hdigest : validateDigest digest = .ok ()) (bytes : Nat) :
    Unobjecting (wireEnv printable idleDebug blobs)
      (handleReserve (wireEnv printable idleDebug blobs) registered requestId digest bytes) := by
  unfold Unobjecting handleReserve
  rw [hid, hdigest]
  dsimp only
  split
  · rw [Prog.obeys_bind]
    refine unobjecting_claim "reservation" fun slot => ?_
    cases slot with
    | false => trivial
    | true =>
      simp only [if_true, Prog.obeys_bind]
      refine unobjecting_ask (not_objection fun _ _ _ => Call.noConfusion) fun granted => ?_
      exact unobjecting_ask (not_objection fun _ _ _ => Call.noConfusion) fun _ => trivial
  · rename_i hblobs
    refine unobjecting_reply fun h => ?_
    obtain ⟨code, _, _, he, -, hsupported⟩ := h
    cases he
    exact hsupported ⟨rfl, Bool.eq_false_iff.mpr hblobs⟩

theorem handleFrame_clean (hpeer : validateIdentifier registered.peer = .ok ()) {frame : ClientFrame} (h : Clean frame) :
    Unobjecting (wireEnv printable idleDebug blobs) (handleFrame (wireEnv printable idleDebug blobs) registered frame) := by
  cases frame with
  | hello => exact h.elim
  | unsupported => exact h.elim
  | ping => exact unobjecting_reply (not_objection fun _ _ _ h => by cases h)
  | list requestId =>
    have h : validateCorrelationId requestId = .ok () := h
    simp only [handleFrame, h]
    unfold Unobjecting
    rw [Prog.obeys_bind]
    refine unobjecting_ask (not_objection fun _ _ _ => Call.noConfusion) fun peers => ?_
    exact unobjecting_reply (not_objection fun _ _ _ h => by cases h)
  | send id target body replyTo attachment => exact unobjecting_send hpeer target h.1 h.2
  | announce id body replyTo attachment => exact unobjecting_announce hpeer h.1 h.2
  | reserve requestId digest bytes => exact unobjecting_reserve h.1 h.2 bytes

end

end Relay

open Extension (bind_ok validateCorrelationId_eq validateDigest_eq validateIdentifier_eq)

theorem refuse_map {α : Type} {problem : Option α} {describe : α → String} {u : Unit}
    (h : Client.refuse (problem.map describe) = .ok u) : problem = none := by
  cases problem with
  | none => rfl
  | some p => cases h

theorem correlates_of_problem {value : String} (h : Client.correlationProblem value = none) :
    validateCorrelationId value = .ok () := by
  rw [validateCorrelationId_eq, h]
  rfl

theorem digest_of_problem {value : String} (h : Client.digestProblem value = none) : validateDigest value = .ok () := by
  rw [validateDigest_eq, h]
  rfl

theorem optionalError_none_of_bind {ε π : Type} {validate : String → Except ε Unit} {problem : String → Option π}
    (hone : ∀ v, problem v = none → validate v = .ok ()) {value : Option String} (h : value.bind problem = none) :
    Relay.optionalError validate value = none := by
  cases value with
  | none => rfl
  | some v => simp only [Relay.optionalError, Option.bind_some, hone v h]

theorem checkDelivery_ok {kind : Client.RequestKind} {id body : String} {replyTo attachment : Option String} {u : Unit}
    (h : Client.checkDelivery kind id body replyTo attachment = .ok u) :
    validateCorrelationId id = .ok () ∧ Relay.Submission.passes ⟨id, body, replyTo, attachment⟩ = true := by
  unfold Client.checkDelivery at h
  obtain ⟨_, hid, h⟩ := bind_ok h
  obtain ⟨_, hreply, h⟩ := bind_ok h
  obtain ⟨_, hbody, h⟩ := bind_ok h
  have hreply := optionalError_none_of_bind (fun _ => correlates_of_problem) (refuse_map hreply)
  have hattachment := optionalError_none_of_bind (fun _ => digest_of_problem) (refuse_map h)
  have hbody : bodyOverBudget body = none := refuse_map hbody
  refine ⟨correlates_of_problem (refuse_map hid), ?_⟩
  simp only [Relay.Submission.passes, hreply, hattachment, hbody, Option.isNone_none, Bool.and_self]

/-- A token the client made up for a reservation passes the relay's check; so does a random UUID. -/
def Minted (history : List Client.Effect) : Prop :=
  ∀ r token, .issued r .reserve token ∈ history → validateCorrelationId token = .ok ()

theorem call_sayable {call : Client.Call} {frame : Client.ClientFrame} (h : call.frame = .ok frame) : Sayable frame := by
  cases call with
  | list requestId =>
    obtain ⟨_, -, h⟩ := bind_ok h
    cases h
    trivial
  | send id target body replyTo attachment =>
    obtain ⟨_, -, h⟩ := bind_ok h
    cases h
    trivial
  | announce id body replyTo attachment =>
    obtain ⟨_, -, h⟩ := bind_ok h
    cases h
    rfl
  | reserve requestId digest bytes =>
    obtain ⟨_, -, h⟩ := bind_ok h
    cases bytes with
    | error shown => cases h
    | ok bytes =>
      cases h
      trivial

theorem call_clean {call : Client.Call} {frame : Client.ClientFrame} (h : call.frame = .ok frame)
    (hminted : call.kind = .reserve → validateCorrelationId call.token = .ok ()) : Relay.Clean (heard frame) := by
  cases call with
  | list requestId =>
    obtain ⟨_, hid, h⟩ := bind_ok h
    cases h
    exact correlates_of_problem (refuse_map hid)
  | send id target body replyTo attachment =>
    obtain ⟨_, hcheck, h⟩ := bind_ok h
    cases h
    exact checkDelivery_ok hcheck
  | announce id body replyTo attachment =>
    obtain ⟨_, hcheck, h⟩ := bind_ok h
    cases h
    exact checkDelivery_ok hcheck
  | reserve requestId digest bytes =>
    obtain ⟨_, hdigest, h⟩ := bind_ok h
    cases bytes with
    | error shown => cases h
    | ok bytes =>
      cases h
      exact ⟨hminted rfl, digest_of_problem (refuse_map hdigest)⟩

/-! ## A socket -/

section
variable {world : Client.World} {c : Client.RelayClient} {s : Nat}

/-- Relate each of a list to something. -/
theorem forall₂_of_forall {α β : Type} {R : α → β → Prop} {l : List α} (h : ∀ a ∈ l, ∃ b, R a b) : ∃ l', List.Forall₂ R l l' := by
  induction l with
  | nil => exact ⟨[], .nil⟩
  | cons a l ih =>
    obtain ⟨b, hb⟩ := h a List.mem_cons_self
    obtain ⟨l', hl'⟩ := ih fun x hx => h x (List.mem_cons_of_mem _ hx)
    exact ⟨b :: l', .cons hb hl'⟩

theorem exists_of_mem_right {α β : Type} {R : α → β → Prop} {l : List α} {l' : List β} (h : List.Forall₂ R l l') :
    ∀ b ∈ l', ∃ a ∈ l, R a b := by
  induction h with
  | nil => exact List.forall_mem_nil _
  | cons hab _ ih =>
    refine List.forall_mem_cons.mpr ⟨⟨_, List.mem_cons_self, hab⟩, fun b hb => ?_⟩
    obtain ⟨a, ha, hr⟩ := ih b hb
    exact ⟨a, List.mem_cons_of_mem _ ha, hr⟩

/-- What stands behind a line, as the relay reads it. -/
structure Reads (world : Client.World) (history : List Client.Effect) (line : Client.Outgoing × Bytes) (payload : Bytes)
    (frame : ClientFrame) : Prop where
  framed : framed payload = some line.2
  decoded : Decode.decode Decode.clientFrameOf payload = .ok frame
  hello : line.1 = .hello → frame = .hello protocolVersion world.room world.peer
  ping : line.1 = .ping → frame = .ping
  request : ∀ r, line.1 = .request r → ∃ call said, .issued r (Client.Call.kind call) call.token ∈ history ∧
    call.frame = .ok said ∧ heard said = frame
  clean : line.1 ≠ .hello → Minted history → Relay.Clean frame

theorem reads_of_line {history : List Client.Effect} {line : Client.Outgoing × Bytes}
    (h : Client.Line world history line.1 line.2) : ∃ read : Bytes × ClientFrame, Reads world history line read.1 read.2 := by
  obtain ⟨what, encoded⟩ := line
  have hread : ∀ frame : Client.ClientFrame, world.encodeFrame frame = .ok encoded → Sayable frame →
      framed frame.value.encode = some encoded ∧
        Decode.decode Decode.clientFrameOf frame.value.encode = .ok (heard frame) := by
    intro frame hencode hsayable
    obtain ⟨hle, hframed⟩ := framed_of_encodeFrame hencode
    exact ⟨hframed, decode_heard hsayable hle⟩
  cases what with
  | hello =>
    obtain ⟨protocol, hprotocol, hencode⟩ := h
    have hversion : protocol.val < 2 ^ 32 := by rw [hprotocol]; decide
    obtain ⟨hframed, hdecoded⟩ := hread (.hello protocol world.room world.peer) hencode hversion
    exact ⟨(_, _), hframed, hdecoded, fun _ => by simp only [hprotocol], Client.Outgoing.noConfusion, fun _ => Client.Outgoing.noConfusion,
      fun h => absurd rfl h⟩
  | ping =>
    obtain ⟨hframed, hdecoded⟩ := hread .ping h trivial
    exact ⟨(_, _), hframed, hdecoded, Client.Outgoing.noConfusion, fun _ => rfl, fun _ => Client.Outgoing.noConfusion,
      fun _ _ => trivial⟩
  | request r =>
    obtain ⟨call, frame, hissued, hframe, hencode⟩ := h
    obtain ⟨hframed, hdecoded⟩ := hread frame hencode (call_sayable hframe)
    refine ⟨(_, _), hframed, hdecoded, Client.Outgoing.noConfusion, Client.Outgoing.noConfusion, ?_, ?_⟩
    · intro r' hr
      cases hr
      exact ⟨call, frame, hissued, hframe, rfl⟩
    · intro _ hminted
      refine call_clean hframe fun hkind => ?_
      rw [hkind] at hissued
      exact hminted r call.token hissued

/-- What has arrived of a socket's bytes is the first lines that were written on it. -/
theorem scan_written_lines (hproper : Client.Proper world c) {input : Bytes} (h : input <+: Client.written s c.history) :
    (payloads.scan input).failure = none ∧ ∃ reads : List (Bytes × ClientFrame),
      List.Forall₂ (fun line read => Reads world c.history line read.1 read.2) ((Client.wroteOn s c.history).take reads.length)
        reads ∧ (payloads.scan input).values = reads.map (·.1) := by
  obtain ⟨reads, hreads⟩ := forall₂_of_forall fun line (hline : line ∈ Client.wroteOn s c.history) =>
    @reads_of_line world c.history line (hproper.spoken s line.1 line.2 (Client.mem_wroteOn.mp hline))
  have hitems : List.Forall₂ (fun item payload => ∀ rest, payloads.next (item ++ rest) = .item payload rest)
      ((Client.wroteOn s c.history).map (·.2)) (reads.map (·.1)) := by
    rw [List.forall₂_map_left_iff, List.forall₂_map_right_iff]
    exact hreads.imp fun line read hread rest => nextPayload_framed hread.framed rest
  have hscan := payloads.scan_written hitems
  obtain ⟨hfailure, hvalues⟩ := payloads.scan_prefix h (by rw [Client.written, hscan])
  rw [Client.written, hscan] at hvalues
  have hlength : (payloads.scan input).values.length ≤ reads.length := by simpa using hvalues.length_le
  refine ⟨hfailure, reads.take (payloads.scan input).values.length, ?_, ?_⟩
  · rw [List.length_take, Nat.min_eq_left hlength]
    exact List.forall₂_take _ hreads
  · rw [List.map_take]
    exact List.prefix_iff_eq_take.mp hvalues

theorem the_relay_takes_what_the_client_says {printable : Char → Bool} {idleDebug : String} {blobs : Bool}
    (hr : Reach (Client.step world) {} Client.Orderly c) (hproject : validateIdentifier world.room.project = .ok ())
    (htask : validateIdentifier world.room.task = .ok ()) (hpeer : validateIdentifier world.peer = .ok ())
    (hminted : Minted c.history) {chunks : List Bytes} (hchunks : chunks.flatten <+: Client.written s c.history) :
    (framedRead chunks).error = none ∧ ∃ frames : List ClientFrame,
      (framedRead chunks).payloads.map (Decode.decode Decode.clientFrameOf) = frames.map .ok ∧
      (frames = [] ∨ ∃ rest, frames = .hello protocolVersion world.room world.peer :: rest ∧
        Relay.admitted (Relay.wireEnv printable idleDebug blobs) (.hello protocolVersion world.room world.peer) =
          .ok ⟨world.room, world.peer⟩ ∧
        ∀ frame ∈ rest, ∀ connectionId, Relay.Unobjecting (Relay.wireEnv printable idleDebug blobs)
          (Relay.handleFrame (Relay.wireEnv printable idleDebug blobs) ⟨world.room, world.peer, connectionId⟩ frame)) := by
  obtain ⟨hpayloads, herror, -⟩ := framedRead_scan chunks
  obtain ⟨hfailure, reads, hreads, hvalues⟩ := scan_written_lines (Client.conversing_of_reach hr).proper hchunks
  refine ⟨herror.trans hfailure, reads.map (·.2), ?_, ?_⟩
  · rw [hpayloads, hvalues, List.map_map, List.map_map]
    refine List.map_congr_left fun read hread => ?_
    obtain ⟨line, -, hline⟩ := exists_of_mem_right hreads read hread
    exact hline.decoded
  · rcases Client.greets_first hr s with hnone | ⟨encoded, rest, hlines, hrest⟩
    · rw [hnone, List.take_nil] at hreads
      cases hreads
      exact .inl rfl
    cases reads with
    | nil => exact .inl rfl
    | cons first reads =>
      rw [hlines, List.length_cons, List.take_succ_cons] at hreads
      obtain ⟨hfirst, hothers⟩ := List.forall₂_cons.mp hreads
      refine .inr ⟨reads.map (·.2), ?_, Extension.admitted_of_valid _ hproject htask hpeer, ?_⟩
      · rw [List.map_cons, hfirst.hello rfl]
      · intro frame hframe connectionId
        obtain ⟨read, hread, rfl⟩ := List.mem_map.mp hframe
        obtain ⟨line, hline, hread⟩ := exists_of_mem_right hothers read hread
        exact Relay.handleFrame_clean hpeer (hread.clean (hrest line (List.mem_of_mem_take hline)) hminted)

end

/-! ## A roster that is asked for -/

section
open Client

def issuesReserve : Effect → Bool
  | .issued _ kind _ => decide (kind = .reserve)
  | _ => false

def beforeHello : RelayClient := (run (Client.step quietWorld) {} [.start, .fired 0, .call (.list "roster")]).getD {}

theorem afterFlush_orderly : Reach (Client.step quietWorld) {} Orderly afterFlush := by
  have hbefore : Reach (Client.step quietWorld) {} Orderly beforeHello :=
    .step (.call (.list "roster")) (.step (.fired 0) (.step .start .init trivial rfl) trivial rfl) trivial rfl
  have hungreeted : ¬ Greeted beforeHello.history 0 := by
    intro h
    obtain ⟨encoded, h⟩ := h
    have hhistory : beforeHello.history.map (fun e => e.wroteOn 0) = beforeHello.history.map fun _ => none := rfl
    have hnone := List.map_inj_left.mp hhistory _ h
    cases hnone
  have hcall : Reach (Client.step quietWorld) {} Orderly afterCall := .step (.connected 0) hbefore hungreeted rfl
  have hgreeted : Greeted afterCall.history 0 := ⟨_, List.mem_cons_self⟩
  exact .step (.data 0 readyWire) hcall (fun _ => hgreeted) (step_told rfl rfl rfl nextFrame_ready)

/-- The greeting and the request, cut in the middle. -/
def rosterChunks : List Bytes := [(written 0 afterFlush.history).take 50, (written 0 afterFlush.history).drop 50]

theorem the_relay_takes_a_roster_request :
    Reach (Client.step quietWorld) {} Orderly afterFlush ∧ rosterChunks.flatten <+: written 0 afterFlush.history ∧
      (framedRead rosterChunks).error = none ∧ ∃ frames : List OmpRelayd.ClientFrame,
        (framedRead rosterChunks).payloads.map (Decode.decode Decode.clientFrameOf) = frames.map .ok ∧
        (frames = [] ∨ ∃ rest, frames = .hello protocolVersion quietWorld.room quietWorld.peer :: rest ∧
          Relay.admitted Relay.plainEnv (.hello protocolVersion quietWorld.room quietWorld.peer) =
            .ok ⟨quietWorld.room, quietWorld.peer⟩ ∧
          ∀ frame ∈ rest, ∀ connectionId, Relay.Unobjecting Relay.plainEnv
            (Relay.handleFrame Relay.plainEnv ⟨quietWorld.room, quietWorld.peer, connectionId⟩ frame)) := by
  have hminted : Minted afterFlush.history := by
    intro r token h
    have hnone : afterFlush.history.any issuesReserve = false := rfl
    exact absurd rfl (List.any_eq_false.mp hnone _ h)
  have hchunks : rosterChunks.flatten <+: written 0 afterFlush.history := by simp [rosterChunks]
  exact ⟨afterFlush_orderly, hchunks,
    the_relay_takes_what_the_client_says afterFlush_orderly rfl rfl rfl hminted hchunks⟩

end

end OmpRelayd
