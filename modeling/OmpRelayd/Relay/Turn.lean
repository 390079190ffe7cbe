/-
  OmpRelayd.Relay.Turn — what handling one frame amounts to.

  Whatever a reader reads, it either offers at most one reply that may be lost, or claims the
  slot of an acknowledgement, acts, and fills the slot with what came of it. `Turn` is how far
  it has got and `rules` what it may call there: an effect only under a claimed slot, aimed
  only at what the registry named, and followed by the one acknowledgement that is true of it.

  Proved: every branch of the reader keeps to these rules (`readerTurn_obeys`). The properties
  of the running relay rest on that and look into no handler again.
-/

import OmpRelayd.Relay.Handlers

namespace OmpRelayd.Relay

/-- The slot a reader finds free is more than the diagnostic's. -/
def slotFree (free : Option Nat) : Bool := free.any (diagnosticReserve < ·)

inductive Turn where
  /-- Nothing done. The reply channel was last found with `free` slots. -/
  | fresh (free : Option Nat)
  | claimed
  | routing (outbound : Nat)
  | fanning (todo : List Nat) (counts : Fanout)
  /-- The effect is over and this is due. -/
  | owing (acknowledgement : ServerFrame)
  | acknowledged
  /-- A reply that may be lost was offered. -/
  | replied
  /-- The diagnostic of a close was offered. -/
  | closing
  deriving DecidableEq, Repr

/-! ## What a frame asks for -/

def Submission.passes (submitted : Submission) : Bool :=
  (optionalError validateCorrelationId submitted.replyTo).isNone &&
    (optionalError validateDigest submitted.attachment).isNone && (bodyOverBudget submitted.body).isNone

/-- The frame asks for an effect and passes every check made before it. -/
def requests (env : Env) : ClientFrame → Bool
  | .send id target body replyTo attachment =>
    (validateCorrelationId id).isOk && (validateIdentifier target).isOk &&
      Submission.passes ⟨id, body, replyTo, attachment⟩
  | .announce id body replyTo attachment =>
    (validateCorrelationId id).isOk && Submission.passes ⟨id, body, replyTo, attachment⟩
  | .reserve requestId digest _ => (validateCorrelationId requestId).isOk && (validateDigest digest).isOk && env.blobs
  | _ => false

/-- What others are sent of the frame. -/
def deliveryFrame (sender : String) : ClientFrame → Option ServerFrame
  | .send id _ body replyTo attachment => some (.message id sender body replyTo attachment)
  | .announce id body replyTo attachment => some (.notice id sender body replyTo attachment)
  | _ => none

def delivery (env : Env) (sender : String) (frame : ClientFrame) : Option Bytes :=
  (deliveryFrame sender frame).bind (encodeDelivery env)

/-- The acknowledgement of a frame, under its token. -/
def Acknowledges : ClientFrame → ServerFrame → Prop
  | .send id target _ _ _, .receipt id' target' _ => id' = id ∧ target' = target
  | .announce id _ _ _, .accepted id' _ _ => id' = id
  | .reserve requestId _ _, .reserved requestId' _ _ => requestId' = requestId
  | _, _ => False

/-- A reply that claims nothing was done. -/
def Lossy : ServerFrame → Prop
  | .receipt _ _ status => status = .invalidTarget
  | .pong => True
  | .peers _ _ => True
  | .error _ _ _ => True
  | _ => False

/-- The frame a branch handles; one that has none asks for as little as an unsupported frame. -/
def Branch.frame : Branch → ClientFrame
  | .inbound (.decoded frame) => frame
  | _ => .unsupported

/-! ## The rules -/

def Fanout.count (counts : Fanout) (status : ReceiptStatus) : Fanout :=
  if status = .routed then { counts with delivered := counts.delivered + 1 }
  else { counts with shed := counts.shed + 1 }

/-- What is due for a `send` once its outcome is known. -/
def receiptOf (frame : ClientFrame) (status : ReceiptStatus) : ServerFrame :=
  match frame with
  | .send id target _ _ _ => .receipt id target status
  | _ => .pong

def acceptedOf (frame : ClientFrame) (counts : Fanout) : ServerFrame :=
  match frame with
  | .announce id _ _ _ => .accepted id counts.delivered counts.shed
  | _ => .pong

def reservedOf (frame : ClientFrame) (granted : Except Blob.Refusal Blob.Grant) : ServerFrame :=
  match frame with
  | .reserve requestId _ _ => reservedFrame requestId granted
  | _ => .pong

section
variable (env : Env) (registered : RegisteredPeer) (frame : ClientFrame)

def mayCall : Turn → Call → Prop
  | .fresh free, call =>
    match call with
    | .capacity => True
    | .listPeers room => room = registered.room
    | .trySend reply => Lossy reply
    | .tryReserve => requests env frame = true ∧ slotFree free = true
    | _ => False
  | .claimed, call =>
    match call with
    | .outboundOf room target =>
      room = registered.room ∧ ∃ id body replyTo attachment, frame = .send id target body replyTo attachment
    | .recipients room announcer =>
      (room = registered.room ∧ announcer = registered.peer) ∧ (delivery env registered.peer frame).isSome = true ∧
        ∃ id body replyTo attachment, frame = .announce id body replyTo attachment
    | .reserve room digest bytes => room = registered.room ∧ ∃ requestId, frame = .reserve requestId digest bytes
    | .permitDrop => True
    | _ => False
  | .routing target, call =>
    match call with
    | .enqueue outbound payload => outbound = target ∧ delivery env registered.peer frame = some payload
    | .permitDrop => True
    | _ => False
  | .fanning (target :: _) _, call =>
    match call with
    | .enqueue outbound payload => outbound = target ∧ delivery env registered.peer frame = some payload
    | _ => False
  | .fanning [] counts, call => call = .permitSend (acceptedOf frame counts)
  | .owing acknowledgement, call => call = .permitSend acknowledgement
  | _, _ => False

def nextTurn : Turn → (call : Call) → call.Answer → Turn
  | .fresh _, .capacity, free => .fresh (some free)
  | .fresh free, .trySend _, _ => if slotFree free then .replied else .closing
  | .fresh _, .tryReserve, slot => if slot then .claimed else .fresh none
  | .claimed, .outboundOf _ _, none => .owing (receiptOf frame .peerOffline)
  | .claimed, .outboundOf _ _, some outbound => .routing outbound
  | .claimed, .recipients _ _, todo => .fanning todo {}
  | .claimed, .reserve _ _ _, granted => .owing (reservedOf frame granted)
  | .claimed, .permitDrop, _ => .fresh none
  | .routing _, .permitDrop, _ => .fresh none
  | .routing _, .enqueue _ _, status => .owing (receiptOf frame status)
  | .fanning (_ :: todo) counts, .enqueue _ _, status => .fanning todo (counts.count status)
  | .fanning [] _, .permitSend _, _ => .acknowledged
  | .owing _, .permitSend _, _ => .acknowledged
  | turn, _, _ => turn

/-- What a reader may call while it handles `frame`. -/
def rules : Prog.Rules Call Call.Answer Turn := ⟨mayCall env registered frame, nextTurn frame⟩

end

/-- An acknowledged turn goes on, a diagnosed one closes, and no slot stays claimed. -/
def stops : Turn → ControlFlow → Prop
  | .fresh _, _ => True
  | .replied, _ => True
  | .closing, flow => flow = .breaks
  | .acknowledged, flow => flow = .continues
  | _, _ => False

/-- What the record knows of the frame once an effect is under way. -/
def Turn.Fits (frame : ClientFrame) : Turn → Prop
  | .routing _ => ∃ id target body replyTo attachment, frame = .send id target body replyTo attachment
  | .fanning _ _ => ∃ id body replyTo attachment, frame = .announce id body replyTo attachment
  | .owing acknowledgement => Acknowledges frame acknowledgement
  | _ => True

theorem Turn.Fits.next {env : Env} {registered : RegisteredPeer} {frame : ClientFrame} {turn : Turn} {call : Call}
    (h : turn.Fits frame) (hmay : mayCall env registered frame turn call) (answer : call.Answer) :
    (nextTurn frame turn call answer).Fits frame := by
  cases turn with
  | fresh free =>
    cases call with
    | capacity => trivial
    | listPeers room => trivial
    | trySend reply => simp only [nextTurn]; split <;> trivial
    | tryReserve => simp only [nextTurn]; split <;> trivial
    | _ => exact hmay.elim
  | claimed =>
    cases call with
    | outboundOf room target =>
      obtain ⟨-, id, body, replyTo, attachment, rfl⟩ := hmay
      cases answer with
      | none => exact ⟨rfl, rfl⟩
      | some outbound => exact ⟨id, target, body, replyTo, attachment, rfl⟩
    | recipients room announcer => exact hmay.2.2
    | reserve room digest bytes =>
      obtain ⟨-, requestId, rfl⟩ := hmay
      cases answer with
      | ok grant => rfl
      | error refusal => rfl
    | permitDrop => trivial
    | _ => exact hmay.elim
  | routing outbound =>
    cases call with
    | enqueue outbound payload =>
      obtain ⟨id, target, body, replyTo, attachment, rfl⟩ := h
      exact ⟨rfl, rfl⟩
    | permitDrop => trivial
    | _ => exact hmay.elim
  | fanning todo counts =>
    cases todo with
    | nil => cases hmay; trivial
    | cons target todo =>
      cases call with
      | enqueue outbound payload => exact h
      | _ => exact hmay.elim
  | owing acknowledgement => cases hmay; trivial
  | _ => exact hmay.elim

/-! ## Handlers under any rules -/

/-- The slot is claimed, or a diagnostic says that it could not be had. -/
theorem claimAcknowledgement_under {τ : Type} {R : Prog.Rules Call Call.Answer τ} {t : τ} (what : String)
    {fin : τ → Bool → Prop} (hcapacity : R.may t .capacity)
    (hfull : ∀ (free : Nat) (message : String), free ≤ diagnosticReserve →
      (queueDiagnostic .idleTimeout message).Obeys R (fun t _ => fin t false) (R.next t .capacity free))
    (hreserve : ∀ free : Nat, diagnosticReserve < free → R.may (R.next t .capacity free) .tryReserve)
    (hclaimed : ∀ free : Nat, fin (R.next (R.next t .capacity free) .tryReserve true) true)
    (hunclaimed : ∀ (free : Nat) (message : String),
      (queueDiagnostic .idleTimeout message).Obeys R (fun t _ => fin t false)
        (R.next (R.next t .capacity free) .tryReserve false)) :
    (claimAcknowledgement what).Obeys R fin t := by
  unfold claimAcknowledgement reserveAcknowledgement
  simp only [Prog.obeys_bind]
  refine Prog.obeys_ask.2 ⟨hcapacity, fun free => ?_⟩
  split
  · rename_i hle
    show Prog.Obeys R fin _ (queueDiagnostic .idleTimeout _ >>= fun _ => pure false)
    rw [Prog.obeys_bind]
    exact hfull free _ hle
  · rename_i hfree
    refine Prog.obeys_ask.2 ⟨hreserve free (Nat.lt_of_not_le hfree), fun slot => ?_⟩
    cases slot with
    | true => exact hclaimed free
    | false =>
      show Prog.Obeys R fin _ (queueDiagnostic .idleTimeout _ >>= fun _ => pure false)
      rw [Prog.obeys_bind]
      exact hunclaimed free _

/-- A submission is refused for its first fault, or accepted without one. -/
theorem checkSubmission_cases {P : Handler ControlFlow → Prop} {env : Env} {name field : String} {submitted : Submission}
    {accept : Handler ControlFlow}
    (hreply : ∀ error, optionalError validateCorrelationId submitted.replyTo = some error →
      P (rejectField (name ++ ".reply_to") (error.text env.debugChar) (some submitted.id)))
    (hattachment : ∀ error, optionalError validateDigest submitted.attachment = some error →
      P (rejectField (name ++ ".attachment") (error.text env.debugChar) (some submitted.id)))
    (hbody : ∀ bodyBytes, P (refuseOverBudget field bodyBytes)) (haccept : submitted.passes = true → P accept) :
    P (checkSubmission env name field submitted accept) := by
  unfold checkSubmission
  split
  · exact hreply _ ‹_›
  · rename_i hreplies
    split
    · exact hattachment _ ‹_›
    · rename_i hattaches
      split
      · exact hbody _
      · rename_i hfits
        exact haccept (by simp [Submission.passes, hreplies, hattaches, hfits])

/-! ## The handlers keep to them -/

section
variable {env : Env} {registered : RegisteredPeer} {frame : ClientFrame}

theorem obeys_call {call : Call} {turn : Turn} {fin : Turn → call.Answer → Prop}
    (hm : mayCall env registered frame turn call) (hf : ∀ answer, fin (nextTurn frame turn call answer) answer) :
    (ask call).Obeys (rules env registered frame) fin turn := ⟨hm, hf⟩

/-- A diagnostic is offered where no slot is known to be free, and closes the turn. -/
theorem queueDiagnostic_obeys {free : Option Nat} (hfree : slotFree free = false) (code : ErrorCode) (message : String)
    {fin : Turn → Unit → Prop} (hf : fin .closing ()) :
    (queueDiagnostic code message).Obeys (rules env registered frame) fin (.fresh free) := by
  unfold queueDiagnostic
  rw [Prog.obeys_bind]
  refine obeys_call trivial fun answer => ?_
  simp only [nextTurn, hfree, Bool.false_eq_true, if_false]
  exact hf

theorem enqueueReply_obeys {reply : ServerFrame} (hl : Lossy reply) (free : Option Nat) :
    (enqueueReply reply).Obeys (rules env registered frame) stops (.fresh free) := by
  unfold enqueueReply
  rw [Prog.obeys_bind]
  refine obeys_call trivial fun free => ?_
  split
  · exact trivial
  · rename_i hfree
    have hslot : slotFree (some free) = true := decide_eq_true (Nat.lt_of_not_le hfree)
    rw [Prog.obeys_bind]
    refine obeys_call hl fun queued => ?_
    simp only [nextTurn, hslot, if_true]
    split <;> exact trivial

/-- The slot is claimed, or the turn closes without it. -/
theorem claimAcknowledgement_obeys (hreq : requests env frame = true) (what : String) {fin : Turn → Bool → Prop}
    (ht : fin .claimed true) (hf : fin .closing false) (free : Option Nat) :
    (claimAcknowledgement what).Obeys (rules env registered frame) fin (.fresh free) := by
  -- a slot that could not be had is not known to be free
  apply claimAcknowledgement_under what trivial
  · intro found message hfull
    have hslot : slotFree (some found) = false := decide_eq_false (Nat.not_lt.mpr hfull)
    exact queueDiagnostic_obeys hslot _ _ hf
  · intro found hfree
    exact ⟨hreq, decide_eq_true hfree⟩
  · intro found
    exact ht
  · intro found message
    exact queueDiagnostic_obeys rfl _ _ hf

theorem refuseUnwritable_obeys (produced : String) :
    (refuseUnwritable produced).Obeys (rules env registered frame) stops (.fresh none) := by
  unfold refuseUnwritable
  rw [Prog.obeys_bind]
  exact queueDiagnostic_obeys rfl _ _ rfl

theorem rejectField_obeys (field reason : String) (requestId : Option String) :
    (rejectField field reason requestId).Obeys (rules env registered frame) stops (.fresh none) :=
  enqueueReply_obeys (by trivial) none

/-- Either a check fails and nothing comes of the frame, or it is accepted. -/
theorem checkSubmission_obeys (name field : String) (submitted : Submission) {accept : Handler ControlFlow}
    (h : submitted.passes = true → accept.Obeys (rules env registered frame) stops (.fresh none)) :
    (checkSubmission env name field submitted accept).Obeys (rules env registered frame) stops (.fresh none) := by
  apply checkSubmission_cases (P := fun p => p.Obeys (rules env registered frame) stops (.fresh none))
  · intro error _
    exact rejectField_obeys _ _ _
  · intro error _
    exact rejectField_obeys _ _ _
  · intro bodyBytes
    unfold refuseOverBudget
    rw [Prog.obeys_bind]
    exact queueDiagnostic_obeys rfl _ _ rfl
  · exact h

/-- The recipients are tried in turn, and counted. -/
theorem fanoutTo_obeys {payload : Bytes} (hp : delivery env registered.peer frame = some payload) (todo : List Nat)
    (counts : Fanout) {fin : Turn → Fanout → Prop} (hf : ∀ counts, fin (.fanning [] counts) counts) :
    (fanoutTo payload todo counts).Obeys (rules env registered frame) fin (.fanning todo counts) := by
  induction todo generalizing counts with
  | nil => exact hf counts
  | cons outbound rest ih =>
    unfold fanoutTo
    rw [Prog.obeys_bind]
    refine obeys_call ⟨rfl, hp⟩ fun status => ?_
    have hrest := ih (counts.count status)
    simp only [nextTurn]
    unfold Fanout.count at hrest ⊢
    split <;> rename_i hs <;> simp only [hs, if_true, if_false] at hrest ⊢ <;> exact hrest

end

section
variable (env : Env) (registered : RegisteredPeer)

theorem handleSend_obeys (target : String) (submitted : Submission) {frame : ClientFrame}
    (hframe : frame = .send submitted.id target submitted.body submitted.replyTo submitted.attachment) :
    (handleSend env registered target submitted).Obeys (rules env registered frame) stops (.fresh none) := by
  unfold handleSend
  split
  · exact rejectField_obeys _ _ _
  · rename_i hid
    split
    · exact enqueueReply_obeys (by trivial) none
    · rename_i htarget
      refine checkSubmission_obeys _ _ submitted fun hpass => ?_
      have hreq : requests env frame = true := by
        subst hframe; simp [requests, hid, htarget, Except.isOk, Except.toBool, hpass]
      rw [Prog.obeys_bind]
      refine claimAcknowledgement_obeys hreq _ ?_ rfl none
      simp only [if_true, Prog.obeys_bind]
      unfold route
      simp only [Prog.obeys_bind]
      refine obeys_call ⟨rfl, _, _, _, _, hframe⟩ fun outbound => ?_
      cases outbound with
      | none =>
        simp only [nextTurn, Prog.obeys_pure, Prog.obeys_bind]
        refine obeys_call ?_ fun _ => rfl
        subst hframe; rfl
      | some outbound =>
        simp only [nextTurn]
        split
        · simp only [Prog.obeys_pure, Prog.obeys_bind]
          exact obeys_call trivial fun _ => refuseUnwritable_obeys _
        · rename_i payload hpayload
          simp only [Prog.obeys_bind, Prog.obeys_pure]
          refine obeys_call ⟨rfl, ?_⟩ fun status => obeys_call ?_ fun _ => rfl
          · subst hframe; exact hpayload
          · subst hframe; rfl

theorem handleAnnounce_obeys (submitted : Submission) {frame : ClientFrame}
    (hframe : frame = .announce submitted.id submitted.body submitted.replyTo submitted.attachment) :
    (handleAnnounce env registered submitted).Obeys (rules env registered frame) stops (.fresh none) := by
  unfold handleAnnounce
  split
  · exact rejectField_obeys _ _ _
  · rename_i hid
    refine checkSubmission_obeys _ _ submitted fun hpass => ?_
    have hreq : requests env frame = true := by
      subst hframe; simp [requests, hid, Except.isOk, Except.toBool, hpass]
    rw [Prog.obeys_bind]
    refine claimAcknowledgement_obeys hreq _ ?_ rfl none
    simp only [if_true]
    split
    · simp only [Prog.obeys_bind]
      exact obeys_call trivial fun _ => refuseUnwritable_obeys _
    · rename_i payload hpayload
      unfold fanout
      simp only [Prog.obeys_bind]
      have hdelivery : delivery env registered.peer frame = some payload := by subst hframe; exact hpayload
      refine obeys_call ⟨⟨rfl, rfl⟩, by rw [hdelivery]; rfl, _, _, _, _, hframe⟩ fun todo => ?_
      refine fanoutTo_obeys hdelivery todo {} fun counts => obeys_call ?_ fun _ => rfl
      subst hframe; rfl

theorem handleReserve_obeys (requestId digest : String) (bytes : Nat) {frame : ClientFrame}
    (hframe : frame = .reserve requestId digest bytes) :
    (handleReserve env registered requestId digest bytes).Obeys (rules env registered frame) stops (.fresh none) := by
  unfold handleReserve
  split
  · exact rejectField_obeys _ _ _
  · rename_i hid
    split
    · exact rejectField_obeys _ _ _
    · rename_i hdigest
      split
      · rename_i hblobs
        have hreq : requests env frame = true := by
          subst hframe; simp [requests, hid, hdigest, Except.isOk, Except.toBool, hblobs]
        rw [Prog.obeys_bind]
        refine claimAcknowledgement_obeys hreq _ ?_ rfl none
        simp only [if_true, Prog.obeys_bind]
        refine obeys_call ⟨rfl, _, hframe⟩ fun granted => obeys_call ?_ fun _ => rfl
        subst hframe; rfl
      · exact enqueueReply_obeys (by trivial) none

theorem handleFrame_obeys (frame : ClientFrame) :
    (handleFrame env registered frame).Obeys (rules env registered frame) stops (.fresh none) := by
  cases frame with
  | hello offered room peer =>
    simp only [handleFrame, Prog.obeys_bind]
    exact queueDiagnostic_obeys rfl _ _ rfl
  | list requestId =>
    simp only [handleFrame]
    split
    · exact rejectField_obeys _ _ _
    · rw [Prog.obeys_bind]
      exact obeys_call rfl fun peers => enqueueReply_obeys (by trivial) none
  | send id target body replyTo attachment => exact handleSend_obeys env registered target _ rfl
  | announce id body replyTo attachment => exact handleAnnounce_obeys env registered _ rfl
  | reserve requestId digest bytes => exact handleReserve_obeys env registered requestId digest bytes rfl
  | ping => exact enqueueReply_obeys (by trivial) none
  | unsupported => exact enqueueReply_obeys (by trivial) none

/-- Whatever a reader's `select!` takes, handling it keeps to the rules. -/
theorem readerTurn_obeys (branch : Branch) :
    (readerTurn env registered branch).Obeys (rules env registered branch.frame) stops (.fresh none) := by
  cases branch with
  | shutdown => exact trivial
  | evicted => exact trivial
  | idle =>
    simp only [readerTurn, Prog.obeys_bind]
    exact queueDiagnostic_obeys rfl _ _ rfl
  | inbound read =>
    cases read with
    | ended => exact trivial
    | failed code error =>
      cases code with
      | none => exact trivial
      | some code =>
        simp only [readerTurn, handleInbound, Prog.obeys_bind]
        exact queueDiagnostic_obeys rfl _ _ rfl
    | undecodable error =>
      simp only [readerTurn, handleInbound, Prog.obeys_bind]
      exact queueDiagnostic_obeys rfl _ _ rfl
    | decoded frame => exact handleFrame_obeys env registered frame

end

end OmpRelayd.Relay
