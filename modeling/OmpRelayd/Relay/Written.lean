/-
  OmpRelayd.Relay.Written — what the relay can ever write to a connection.

  A reply is made of what the frame it answers said, once that passed its check or was
  clamped, and of what the handler was told: the room's roster, the store's answer to a
  reservation (`Told`). A delivery is made of a submission that passed every check, under the
  sender's name. `Sound` and `Delivers` say so of one frame and one payload, and `writeRules`
  is what a handler may put into a channel.

  Proved: every branch of the reader keeps to those rules (`readerTurn_writes`), and so
  everything a connection has been sent, or has coming, is such a frame (`written_inv`),
  whatever is known of the frames read and of what handlers were told.
-/

import OmpRelayd.Relay.Conns
import OmpRelayd.Wire

namespace OmpRelayd.Relay

/-- A relay that writes MessagePack. -/
def wireEnv (printable : Char → Bool) (idleDebug : String) (blobs : Bool) : Env :=
  ⟨fun frame => some (OmpRelayd.encode frame), debugChar printable, idleDebug, blobs⟩

/-! ## What a handler is told -/

structure Told where
  roster : List String := []
  granted : Option (Except Blob.Refusal Blob.Grant) := none

def Told.next (told : Told) : (call : Call) → call.Answer → Told
  | .listPeers _, roster => { told with roster := roster }
  | .reserve _ _ _, granted => { told with granted := some granted }
  | _, _ => told

/-! ## What it may write -/

def Correlates (id : String) : Prop := validateCorrelationId id = .ok ()

/-- The texts a frame came with. -/
def ClientFrame.texts : ClientFrame → List String
  | .hello _ room peer => [room.project, room.task, peer]
  | .list requestId => [requestId]
  | .send id target body replyTo attachment => id :: target :: body :: (replyTo.toList ++ attachment.toList)
  | .announce id body replyTo attachment => id :: body :: (replyTo.toList ++ attachment.toList)
  | .reserve requestId digest _ => [requestId, digest]
  | .ping => []
  | .unsupported => []

/-- The reason one of the frame's texts is rejected for. -/
def Reason (env : Env) (frame : ClientFrame) (reason : String) : Prop :=
  ∃ text ∈ ClientFrame.texts frame,
    (∃ error, validateCorrelationId text = .error error ∧ reason = error.text env.debugChar) ∨
      ∃ error, validateDigest text = .error error ∧ reason = error.text env.debugChar

inductive Sound (env : Env) (frame : ClientFrame) (told : Told) : ServerFrame → Prop
  | pong : Sound env frame told .pong
  | peers (requestId : String) : Correlates requestId → Sound env frame told (.peers requestId told.roster)
  | receipt (id target : String) (status : ReceiptStatus) : Correlates id → target.utf8ByteSize ≤ maxIdentifierBytes →
      Sound env frame told (.receipt id target status)
  | accepted (id : String) (delivered shed : Nat) : Correlates id → Sound env frame told (.accepted id delivered shed)
  | reserved (requestId : String) (granted : Except Blob.Refusal Blob.Grant) : Correlates requestId →
      told.granted = some granted → Sound env frame told (reservedFrame requestId granted)
  | rejected (field reason : String) (requestId : Option String) : field.utf8ByteSize ≤ maxIdentifierBytes →
      Reason env frame reason → (∀ id ∈ requestId, Correlates id) →
      Sound env frame told (.error .invalidIdentifier (some (field ++ " " ++ reason)) requestId)
  | unsupported (text : String) (requestId : Option String) : text.utf8ByteSize ≤ maxIdentifierBytes →
      (∀ id ∈ requestId, Correlates id) → Sound env frame told (.error .unsupportedFrame (some text) requestId)
  | diagnosed (code : ErrorCode) (text : String) : Sound env frame told (.error code (some (capDiagnostic text)) none)

/-- The payload of a submission that passed, of either kind; `none` for one that cannot be written. -/
def Delivers (env : Env) (sender : String) (payload : Option Bytes) : Prop :=
  ∃ submitted : Submission, Correlates submitted.id ∧ submitted.passes = true ∧
    (encodeDelivery env (submitted.message sender) = payload ∨ encodeDelivery env (submitted.notice sender) = payload)

section
variable (env : Env) (registered : RegisteredPeer) (frame : ClientFrame)

def mayWrite (told : Told) : Call → Prop
  | .trySend reply => Sound env frame told reply
  | .permitSend reply => Sound env frame told reply
  | .enqueue _ payload => Delivers env registered.peer (some payload)
  | .permitDrop => Delivers env registered.peer none
  | _ => True

def writeRules : Prog.Rules Call Call.Answer Told := ⟨mayWrite env registered frame, Told.next⟩

/-- The handler may do no more than that. -/
def Writes (told : Told) (p : Handler ControlFlow) : Prop :=
  p.Obeys (writeRules env registered frame) (fun _ _ => True) told

end

/-! ## The handlers keep to it -/

section
variable {env : Env} {registered : RegisteredPeer} {frame : ClientFrame} {told : Told}

theorem writes_call {call : Call} {fin : Told → call.Answer → Prop} (hm : mayWrite env registered frame told call)
    (hf : ∀ answer, fin (told.next call answer) answer) :
    (ask call).Obeys (writeRules env registered frame) fin told := ⟨hm, hf⟩

theorem queueDiagnostic_writes (code : ErrorCode) (text : String) {fin : Told → Unit → Prop} (hf : fin told ()) :
    (queueDiagnostic code text).Obeys (writeRules env registered frame) fin told := by
  unfold queueDiagnostic
  rw [Prog.obeys_bind]
  exact writes_call (.diagnosed code text) fun _ => hf

theorem enqueueReply_writes {reply : ServerFrame} (h : Sound env frame told reply) :
    Writes env registered frame told (enqueueReply reply) := by
  unfold Writes enqueueReply
  rw [Prog.obeys_bind]
  refine writes_call trivial fun free => ?_
  split
  · exact trivial
  · rw [Prog.obeys_bind]
    refine writes_call h fun queued => ?_
    split <;> exact trivial

theorem claimAcknowledgement_writes (what : String) {fin : Told → Bool → Prop} (hf : ∀ slot, fin told slot) :
    (claimAcknowledgement what).Obeys (writeRules env registered frame) fin told := by
  apply claimAcknowledgement_under what trivial
  · intro free text _
    exact queueDiagnostic_writes _ _ (hf false)
  · intro free _
    trivial
  · intro free
    exact hf true
  · intro free text
    exact queueDiagnostic_writes _ _ (hf false)

theorem refuseUnwritable_writes (produced : String) : Writes env registered frame told (refuseUnwritable produced) := by
  unfold Writes refuseUnwritable
  rw [Prog.obeys_bind]
  exact queueDiagnostic_writes _ _ trivial

/-- An answer that names no request. -/
theorem correlates_none : ∀ id ∈ (none : Option String), Correlates id := by
  intro id h
  cases h

/-- A rejection over one of the frame's texts. -/
theorem rejectField_writes {field reason : String} {requestId : Option String}
    (hfield : field.utf8ByteSize ≤ maxIdentifierBytes) (hreason : Reason env frame reason)
    (hid : ∀ id ∈ requestId, Correlates id) :
    Writes env registered frame told (rejectField field reason requestId) :=
  enqueueReply_writes (.rejected field reason requestId hfield hreason hid)

theorem Reason.correlation {text : String} {error : IdentifierError} (ht : text ∈ ClientFrame.texts frame)
    (h : validateCorrelationId text = .error error) : Reason env frame (error.text env.debugChar) :=
  ⟨text, ht, .inl ⟨error, h, rfl⟩⟩

theorem Reason.digest {text : String} {error : DigestError} (ht : text ∈ ClientFrame.texts frame)
    (h : validateDigest text = .error error) : Reason env frame (error.text env.debugChar) :=
  ⟨text, ht, .inr ⟨error, h, rfl⟩⟩

theorem optionalError_some {ε : Type} {validate : String → Except ε Unit} {value : Option String} {error : ε}
    (h : optionalError validate value = some error) : ∃ v, value = some v ∧ validate v = .error error := by
  obtain ⟨v, rfl, hv⟩ := Option.bind_eq_some_iff.mp h
  refine ⟨v, rfl, ?_⟩
  split at hv
  · rename_i hve; cases hv; exact hve
  · cases hv

theorem checkSubmission_writes {name field : String} {submitted : Submission} {accept : Handler ControlFlow}
    (hname : name.utf8ByteSize ≤ 32) (hid : Correlates submitted.id)
    (htexts : ∀ text ∈ submitted.replyTo.toList ++ submitted.attachment.toList, text ∈ ClientFrame.texts frame)
    (h : submitted.passes = true → Writes env registered frame told accept) :
    Writes env registered frame told (checkSubmission env name field submitted accept) := by
  have hsize : ∀ {suffix : String}, suffix.utf8ByteSize ≤ 32 → (name ++ suffix).utf8ByteSize ≤ maxIdentifierBytes := by
    intro suffix hs
    rw [String.utf8ByteSize_append]
    exact Nat.add_le_add hname hs
  have hsome : ∀ id ∈ some submitted.id, Correlates id := by rintro id ⟨⟩; exact hid
  apply checkSubmission_cases (P := Writes env registered frame told)
  · intro error hreply
    obtain ⟨v, hv, herror⟩ := optionalError_some hreply
    exact rejectField_writes (hsize (by decide)) (.correlation (htexts v (by simp [hv])) herror) hsome
  · intro error hattachment
    obtain ⟨v, hv, herror⟩ := optionalError_some hattachment
    exact rejectField_writes (hsize (by decide)) (.digest (htexts v (by simp [hv])) herror) hsome
  · intro bodyBytes
    unfold Writes refuseOverBudget
    rw [Prog.obeys_bind]
    exact queueDiagnostic_writes _ _ trivial
  · exact h

theorem fanoutTo_writes {payload : Bytes} (hp : Delivers env registered.peer (some payload)) (todo : List Nat)
    (counts : Fanout) {fin : Told → Fanout → Prop} (hf : ∀ counts, fin told counts) :
    (fanoutTo payload todo counts).Obeys (writeRules env registered frame) fin told := by
  induction todo generalizing counts with
  | nil => exact hf counts
  | cons outbound rest ih =>
    unfold fanoutTo
    rw [Prog.obeys_bind]
    refine writes_call hp fun status => ?_
    split <;> exact ih _

end

section
variable (env : Env) (registered : RegisteredPeer)

theorem handleSend_writes (target : String) (submitted : Submission) {frame : ClientFrame}
    (hframe : frame = .send submitted.id target submitted.body submitted.replyTo submitted.attachment) (told : Told) :
    Writes env registered frame told (handleSend env registered target submitted) := by
  have htext : ∀ text, text ∈ submitted.id :: target :: submitted.body ::
      (submitted.replyTo.toList ++ submitted.attachment.toList) → text ∈ ClientFrame.texts frame := by
    subst hframe; exact fun _ h => h
  unfold handleSend
  split
  · rename_i error hid
    exact rejectField_writes (by decide) (.correlation (htext _ List.mem_cons_self) hid) correlates_none
  · rename_i hid
    split
    · exact enqueueReply_writes (.receipt _ _ _ hid (truncateBytes_le _ _))
    · rename_i htarget
      refine checkSubmission_writes (by decide) hid (fun text ht => htext text (by simp at ht ⊢; tauto)) fun hpass => ?_
      unfold Writes
      rw [Prog.obeys_bind]
      refine claimAcknowledgement_writes _ fun slot => ?_
      cases slot with
      | false => exact trivial
      | true =>
        simp only [if_true, Prog.obeys_bind]
        unfold route
        simp only [Prog.obeys_bind]
        refine writes_call trivial fun outbound => ?_
        have hreceipt : ∀ status, Sound env frame told (.receipt submitted.id target status) := fun status =>
          .receipt _ _ status hid (validateIdentifier_ok htarget).2
        cases outbound with
        | none =>
          simp only [Prog.obeys_pure, Prog.obeys_bind]
          exact writes_call (hreceipt _) fun _ => trivial
        | some outbound =>
          simp only
          split
          · rename_i hnone
            simp only [Prog.obeys_pure, Prog.obeys_bind]
            exact writes_call ⟨submitted, hid, hpass, .inl hnone⟩ fun _ => refuseUnwritable_writes _
          · rename_i payload hsome
            simp only [Prog.obeys_bind, Prog.obeys_pure]
            exact writes_call ⟨submitted, hid, hpass, .inl hsome⟩ fun status => writes_call (hreceipt status) fun _ => trivial

theorem handleAnnounce_writes (submitted : Submission) {frame : ClientFrame}
    (hframe : frame = .announce submitted.id submitted.body submitted.replyTo submitted.attachment) (told : Told) :
    Writes env registered frame told (handleAnnounce env registered submitted) := by
  have htext : ∀ text, text ∈ submitted.id :: submitted.body ::
      (submitted.replyTo.toList ++ submitted.attachment.toList) → text ∈ ClientFrame.texts frame := by
    subst hframe; exact fun _ h => h
  unfold handleAnnounce
  split
  · rename_i error hid
    exact rejectField_writes (by decide) (.correlation (htext _ List.mem_cons_self) hid) correlates_none
  · rename_i hid
    refine checkSubmission_writes (by decide) hid (fun text ht => htext text (by simp at ht ⊢; tauto)) fun hpass => ?_
    unfold Writes
    rw [Prog.obeys_bind]
    refine claimAcknowledgement_writes _ fun slot => ?_
    cases slot with
    | false => exact trivial
    | true =>
      simp only [if_true]
      split
      · rename_i hnone
        simp only [Prog.obeys_bind]
        exact writes_call ⟨submitted, hid, hpass, .inr hnone⟩ fun _ => refuseUnwritable_writes _
      · rename_i payload hsome
        unfold fanout
        simp only [Prog.obeys_bind]
        refine writes_call trivial fun todo => ?_
        exact fanoutTo_writes ⟨submitted, hid, hpass, .inr hsome⟩ todo {} fun counts =>
          writes_call (.accepted _ _ _ hid) fun _ => trivial

theorem handleReserve_writes (requestId digest : String) (bytes : Nat) {frame : ClientFrame}
    (hframe : frame = .reserve requestId digest bytes) (told : Told) :
    Writes env registered frame told (handleReserve env registered requestId digest bytes) := by
  have htext : ∀ text, text ∈ [requestId, digest] → text ∈ ClientFrame.texts frame := by
    subst hframe; exact fun _ h => h
  unfold handleReserve
  split
  · rename_i error hid
    exact rejectField_writes (by decide) (.correlation (htext _ List.mem_cons_self) hid) correlates_none
  · rename_i hid
    have hsome : ∀ id ∈ some requestId, Correlates id := by rintro id ⟨⟩; exact hid
    split
    · rename_i error hdigest
      exact rejectField_writes (by decide) (.digest (htext digest (by simp)) hdigest) hsome
    · split
      · unfold Writes
        rw [Prog.obeys_bind]
        refine claimAcknowledgement_writes _ fun slot => ?_
        cases slot with
        | false => exact trivial
        | true =>
          simp only [if_true, Prog.obeys_bind]
          exact writes_call trivial fun granted => writes_call (.reserved requestId granted hid rfl) fun _ => trivial
      · exact enqueueReply_writes (.unsupported _ _ (by decide) hsome)

theorem handleFrame_writes (frame : ClientFrame) (told : Told) :
    Writes env registered frame told (handleFrame env registered frame) := by
  cases frame with
  | hello offered room peer =>
    simp only [handleFrame, Writes, Prog.obeys_bind]
    exact queueDiagnostic_writes _ _ trivial
  | list requestId =>
    simp only [handleFrame]
    split
    · rename_i error hid
      exact rejectField_writes (by decide) (.correlation List.mem_cons_self hid) correlates_none
    · rename_i hid
      unfold Writes
      rw [Prog.obeys_bind]
      exact writes_call trivial fun roster => enqueueReply_writes (.peers requestId hid)
  | send id target body replyTo attachment => exact handleSend_writes env registered target ⟨id, body, replyTo, attachment⟩ rfl told
  | announce id body replyTo attachment => exact handleAnnounce_writes env registered ⟨id, body, replyTo, attachment⟩ rfl told
  | reserve requestId digest bytes => exact handleReserve_writes env registered requestId digest bytes rfl told
  | ping => exact enqueueReply_writes .pong
  | unsupported => exact enqueueReply_writes (.unsupported _ _ (by decide) correlates_none)

theorem readerTurn_writes (branch : Branch) (told : Told) :
    Writes env registered branch.frame told (readerTurn env registered branch) := by
  cases branch with
  | shutdown => exact trivial
  | evicted => exact trivial
  | idle =>
    simp only [readerTurn, Writes, Prog.obeys_bind]
    exact queueDiagnostic_writes _ _ trivial
  | inbound read =>
    cases read with
    | ended => exact trivial
    | failed code error =>
      cases code with
      | none => exact trivial
      | some code =>
        simp only [readerTurn, handleInbound, Writes, Prog.obeys_bind]
        exact queueDiagnostic_writes _ _ trivial
    | undecodable error =>
      simp only [readerTurn, handleInbound, Writes, Prog.obeys_bind]
      exact queueDiagnostic_writes _ _ trivial
    | decoded frame => exact handleFrame_writes env registered frame told

end

/-! ## What a connection has been sent, and has coming -/

def Conn.items (conn : Conn) : List Item :=
  conn.sent ++ conn.buffer ++ conn.stage.writing ++ conn.replies.map .reply ++ conn.queue.map .delivery

section
variable (env : Env) (F : ClientFrame → Prop) (T : Told → Prop)

/-- `F` is known of the frames read, and `T` of what their handlers were told. -/
inductive Written : Item → Prop
  | reply (reply : Reply) (frame : ClientFrame) (told : Told) : F frame → T told → Sound env frame told reply.frame →
      Written (.reply reply)
  | delivery (payload : Bytes) (sender : String) : validateIdentifier sender = .ok () →
      Delivers env sender (some payload) → Written (.delivery payload)
  | ready : Written (.plain (.ready protocolVersion))
  | replaced : Written (.plain replacedDiagnostic)

/-- A busy reader is at some point of a handler that keeps to the rules. -/
def Conn.Handles (c : Nat) (conn : Conn) : Prop :=
  ∀ late turn rest writer, conn.stage = .pumping (.busy late turn rest) writer →
    F conn.current ∧ ∃ told, T told ∧ Writes env (registeredPeer c conn) conn.current told rest

structure WrittenInv (s : Sys) : Prop where
  names : ∀ c conn, s.conns.lookup c = some conn → validateIdentifier conn.name.peer = .ok ()
  handles : ∀ c conn, s.conns.lookup c = some conn → conn.Handles env F T c
  items : ∀ c conn, s.conns.lookup c = some conn → ∀ item ∈ conn.items, Written env F T item

end

/-- What the step tells a handler keeps `T`. -/
def Tells (T : Told → Prop) (s : Sys) (e : RelayEv) : Prop :=
  ∀ c now order conn late turn call rest writer answer t told, e = .act c now order → s.conns.lookup c = some conn →
    conn.stage = .pumping (.busy late turn (.call call rest)) writer → Answers s c conn now call answer t → T told →
    T (told.next call answer)

variable {env : Env} {F : ClientFrame → Prop} {T : Told → Prop} {s t : Sys} {c : Nat} {conn conn' : Conn}

theorem admitted_name {frame : ClientFrame} {name : Name} (h : admitted env frame = .ok name) :
    validateIdentifier name.peer = .ok () := by
  cases frame with
  | hello offered room peer =>
    simp only [admitted] at h
    split at h
    · cases h
    · cases hp : validateIdentifier room.project with
      | error e => simp [hp, Except.mapError, bind, Except.bind] at h
      | ok u =>
        cases ht : validateIdentifier room.task with
        | error e => simp [hp, ht, Except.mapError, bind, Except.bind] at h
        | ok u =>
          cases hn : validateIdentifier peer with
          | error e => simp [hp, ht, hn, Except.mapError, bind, Except.bind] at h
          | ok u =>
            simp only [hp, ht, hn, Except.mapError, bind, Except.bind, pure, Except.pure, Except.ok.injEq] at h
            subst h
            exact hn
  | _ => cases h

/-! ## It is kept -/

theorem Conn.Handles.of_idle (h : conn.stage.idle = true) : conn.Handles env F T c := by
  intro late turn rest writer hst
  rw [hst] at h; cases h

theorem Conn.Handles.congr (h : conn.Handles env F T c) (hname : conn'.name = conn.name) (hstage : conn'.stage = conn.stage)
    (hturns : conn'.turns = conn.turns) : conn'.Handles env F T c := by
  have hcurrent : conn'.current = conn.current := by simp only [Conn.current, Conn.frame, Conn.seq, hturns]
  have hpeer : registeredPeer c conn' = registeredPeer c conn := by simp only [registeredPeer, hname]
  intro late turn rest writer hst
  rw [hcurrent, hpeer]
  exact h late turn rest writer (hstage.symm.trans hst)

theorem WrittenInv.put (h : WrittenInv env F T s) (hname : validateIdentifier conn'.name.peer = .ok ())
    (hhandles : conn'.Handles env F T c) (hitems : ∀ item ∈ conn'.items, Written env F T item) :
    WrittenInv env F T (s.put c conn') := by
  refine ⟨fun j x hj => ?_, fun j x hj => ?_, fun j x hj => ?_⟩ <;>
    rcases Sys.lookup_put_some hj with ⟨rfl, rfl⟩ | ⟨-, hj⟩
  · exact hname
  · exact h.names j x hj
  · exact hhandles
  · exact h.handles j x hj
  · exact hitems
  · exact h.items j x hj

theorem WrittenInv.congr (h : WrittenInv env F T s) (hc : t.conns = s.conns) : WrittenInv env F T t :=
  ⟨fun j x hj => h.names j x (hc ▸ hj), fun j x hj => h.handles j x (hc ▸ hj), fun j x hj => h.items j x (hc ▸ hj)⟩

/-- A connection's own task only moves what it has, but for the greeting and the last word. -/
theorem Conn.Drives.items {flag : Bool} {e : RelayEv} (hd : conn.Drives c flag e conn') :
    ∀ item ∈ conn'.items, item ∈ conn.items ∨ item = .plain (.ready protocolVersion) ∨ item = .plain replacedDiagnostic := by
  have hclosed : ∀ item ∈ conn.close.items, item ∈ conn.items := by
    intro item hi
    simp only [Conn.items, Conn.close, Stage.writing, List.map_nil, List.append_nil] at hi
    simp only [Conn.items, List.append_assoc]
    exact List.mem_append_left _ hi
  intro item hi
  cases hd with
  | greeted hst => simp [Conn.items, Stage.writing, hst] at hi ⊢; grind
  | poll o reader writer writer' hst hb hitem =>
    have hnew : (Stage.pumping reader writer').writing = [] := by
      cases writer' with
      | writing item => exact absurd rfl (hitem item).2
      | _ => rfl
    simp only [Conn.items, hnew, List.append_nil] at hi
    simp only [Conn.items, List.mem_append] at hi ⊢
    grind
  | takeReply o reader reply rest hst hb hr =>
    simp [Conn.items, Stage.writing, hst, hr] at hi ⊢; grind
  | takeDelivery o reader payload rest hst hb hq =>
    simp [Conn.items, Stage.writing, hst, hq] at hi ⊢; grind
  | wrote reader item hst hb => simp [Conn.items, Stage.writing, hst] at hi ⊢; grind
  | cancelled reader item fed hst hb hf =>
    cases fed <;> simp [Conn.items, Stage.writing, hst] at hi ⊢ <;> grind
  | told reader hst hb =>
    simp [Conn.items, Conn.close, Stage.writing, hst] at hi ⊢; grind
  | _ => exact .inl (hclosed item hi)

/-- A call adds to a connection at most the reply or the payload it carries. -/
theorem Answers.items {now : Nat} {call : Call} {answer : call.Answer} (ha : Answers s c conn now call answer t)
    (hc : s.conns.lookup c = some conn) {j : Nat} {x' : Conn} (hj : t.conns.lookup j = some x') :
    ∃ x, s.conns.lookup j = some x ∧ x'.name = x.name ∧ x'.stage = x.stage ∧ x'.turns = x.turns ∧
      ∀ item ∈ x'.items, item ∈ x.items ∨ (∃ reply, call.puts = some reply ∧ item = .reply ⟨reply, conn.seq⟩) ∨
        ∃ o payload, call = .enqueue o payload ∧ item = .delivery payload := by
  have hsame : s.conns.lookup j = some x' → ∃ x, s.conns.lookup j = some x ∧ x'.name = x.name ∧ x'.stage = x.stage ∧
      x'.turns = x.turns ∧ ∀ item ∈ x'.items, item ∈ x.items ∨ (∃ reply, call.puts = some reply ∧
        item = .reply ⟨reply, conn.seq⟩) ∨ ∃ o payload, call = .enqueue o payload ∧ item = .delivery payload :=
    fun h => ⟨x', h, rfl, rfl, rfl, fun _ hi => .inl hi⟩
  cases ha with
  | sent frame _ _ =>
    rcases Sys.lookup_put_some hj with ⟨rfl, rfl⟩ | ⟨-, hj⟩
    · refine ⟨conn, hc, rfl, rfl, rfl, fun item hi => ?_⟩
      simp [Conn.items, Call.puts] at hi ⊢; grind
    · exact hsame hj
  | permitSend frame =>
    rcases Sys.lookup_put_some hj with ⟨rfl, rfl⟩ | ⟨-, hj⟩
    · refine ⟨conn, hc, rfl, rfl, rfl, fun item hi => ?_⟩
      simp [Conn.items, Conn.permitSend, Call.puts] at hi ⊢; grind
    · exact hsame hj
  | enqueued outbound payload target ht =>
    rcases Sys.lookup_put_some hj with ⟨rfl, rfl⟩ | ⟨-, hj⟩
    · refine ⟨target, ht, rfl, rfl, rfl, fun item hi => ?_⟩
      simp [Conn.items] at hi ⊢; grind
    · exact hsame hj
  | refused outbound payload target status ht =>
    rcases Sys.lookup_put_some hj with ⟨rfl, rfl⟩ | ⟨-, hj⟩
    · exact ⟨x', ht, rfl, rfl, rfl, fun _ hi => .inl hi⟩
    · exact hsame hj
  | notSent frame error | notClaimed =>
    rcases Sys.lookup_put_some hj with ⟨rfl, rfl⟩ | ⟨-, hj⟩
    · exact hsame hc
    · exact hsame hj
  | claimed | permitDrop =>
    rcases Sys.lookup_put_some hj with ⟨rfl, rfl⟩ | ⟨-, hj⟩
    · exact ⟨conn, hc, rfl, rfl, rfl, fun _ hi => .inl hi⟩
    · exact hsame hj
  | _ => exact hsame hj

theorem WrittenInv.act (h : WrittenInv env F T s) {now : Nat} {order : List Nat} {late : Bool} {turn : Turn} {call : Call}
    {rest : call.Answer → Handler ControlFlow} {writer : Writer} {answer : call.Answer}
    (hc : s.conns.lookup c = some conn) (hst : conn.stage = .pumping (.busy late turn (.call call rest)) writer)
    (ha : Answers s c conn now call answer t) (hc' : t.conns.lookup c = some conn') (htell : Tells T s (.act c now order)) :
    WrittenInv env F T (t.put c { conn' with
      stage := .pumping (.of late (nextTurn conn.current turn call answer) (rest answer)) writer }) := by
  obtain ⟨hframe, told, htold, hwrites⟩ := h.handles c conn hc late turn _ writer hst
  obtain ⟨hmay, hnext⟩ := hwrites.answer answer
  have hadded : ∀ item, (∃ reply, call.puts = some reply ∧ item = .reply ⟨reply, conn.seq⟩) ∨
      (∃ o payload, call = .enqueue o payload ∧ item = .delivery payload) → Written env F T item := by
    rintro item (⟨reply, hput, rfl⟩ | ⟨o, payload, rfl, rfl⟩)
    · have hsound : Sound env conn.current told reply := by
        cases call with
        | trySend frame => cases hput; exact hmay
        | permitSend frame => cases hput; exact hmay
        | _ => cases hput
      exact .reply _ conn.current told hframe htold hsound
    · exact .delivery payload conn.name.peer (h.names c conn hc) hmay
  have hinv : WrittenInv env F T t := by
    refine ⟨fun j x hj => ?_, fun j x hj => ?_, fun j x hj item hi => ?_⟩ <;>
      obtain ⟨x₀, hx₀, hname, hstage, hturns, hitems⟩ := ha.items hc hj
    · rw [hname]; exact h.names j x₀ hx₀
    · exact (h.handles j x₀ hx₀).congr hname hstage hturns
    · rcases hitems item hi with hold | hnew
      · exact h.items j x₀ hx₀ item hold
      · exact hadded item hnew
  obtain ⟨x, hx, hname, hstage, hturns, -⟩ := ha.items hc hc'
  cases hc.symm.trans hx
  refine hinv.put (hinv.names c conn' hc') ?_ fun item hi => hinv.items c conn' hc' item ?_
  · have hhandles : ({ conn with
        stage := .pumping (.of late (nextTurn conn.current turn call answer) (rest answer)) writer } :
        Conn).Handles env F T c := by
      intro late' turn' rest' writer' hst'
      obtain ⟨hb, -⟩ := Stage.pumping.inj hst'
      obtain ⟨-, -, rfl⟩ := Reader.of_busy hb
      exact ⟨hframe, _, htell c now order conn late turn call rest writer answer t told rfl hc hst ha htold, hnext⟩
    exact hhandles.congr hname rfl hturns
  · have hwriting : (Stage.pumping (.of late (nextTurn conn.current turn call answer) (rest answer)) writer).writing =
        conn'.stage.writing := by
      rw [hstage, hst]; cases writer <;> rfl
    simpa only [Conn.items, hwriting] using hi

theorem Step.written {e : RelayEv} (hs : Step env s e t) (hread : ∀ c branch, e = .read c branch → F branch.frame)
    (hfresh : T {}) (htell : Tells T s e) (h : WrittenInv env F T s) : WrittenInv env F T t := by
  cases hs with
  | hello frame name hadm =>
    have hput : WrittenInv env F T (s.put s.registry.nextConnectionId { name := name }) :=
      h.put (admitted_name hadm) (.of_idle rfl) (by simp [Conn.items, Stage.writing])
    exact hput.congr rfl
  | insert c conn registry hc hreg =>
    have hput : WrittenInv env F T (s.put c { conn with stage := .greeting }) :=
      h.put (h.names c conn hc) (.of_idle rfl) fun item hi => h.items c conn hc item (by
        simp [Conn.items, Stage.writing] at hi ⊢; grind)
    exact hput.congr rfl
  | drive e c conn conn' hc hd =>
    refine h.put (hd.kept.name ▸ h.names c conn hc) (.of_idle hd.kept.idle) fun item hi => ?_
    rcases hd.items item hi with hold | rfl | rfl
    · exact h.items c conn hc item hold
    · exact .ready
    · exact .replaced
  | read c branch conn writer hc hst hb =>
    refine h.put (h.names c conn hc) (fun late turn rest writer' hst' => ?_) fun item hi => h.items c conn hc item ?_
    · obtain ⟨hbusy, -⟩ := Stage.pumping.inj hst'
      obtain ⟨-, -, rfl⟩ := Reader.of_busy hbusy
      rw [Conn.current_read]
      exact ⟨hread c branch rfl, {}, hfresh, readerTurn_writes env _ branch {}⟩
    · have hwriting : ∀ reader, (Stage.pumping reader writer).writing = conn.stage.writing := by
        intro reader; rw [hst]; cases writer <;> rfl
      simpa only [Conn.items, hwriting] using hi
  | act c now order conn conn' late turn call rest writer answer s' hc hst ha hc' =>
    exact h.act hc hst (answer_answers hc ha) hc' htell
  | drop c conn registry hc hst hreg =>
    have hidle : ∀ b : Bool, (if b then Stage.forgetting else .gone).idle = true := by intro b; cases b <;> rfl
    have hput : ∀ b : Bool, WrittenInv env F T (s.put c { conn with stage := if b then .forgetting else .gone }) := fun b =>
      h.put (h.names c conn hc) (.of_idle (hidle b)) fun item hi => h.items c conn hc item (by
        cases b <;> simp [Conn.items, Stage.writing] at hi ⊢ <;> grind)
    exact (hput _).congr rfl
  | forget c conn hc hst =>
    have hput : WrittenInv env F T (s.put c { conn with stage := .gone }) :=
      h.put (h.names c conn hc) (.of_idle rfl) fun item hi => h.items c conn hc item (by
        simp [Conn.items, Stage.writing] at hi ⊢; grind)
    exact hput.congr rfl
  | transfer e store => exact h.congr rfl
  | shutdown => exact h.congr rfl

theorem WrittenInv.init : WrittenInv env F T {} := by
  have hnone : ∀ {c : Nat} {x : Conn}, ({} : Sys).conns.lookup c ≠ some x := by simp
  exact ⟨fun _ _ h => (hnone h).elim, fun _ _ h => (hnone h).elim, fun _ _ h => (hnone h).elim⟩

end OmpRelayd.Relay
