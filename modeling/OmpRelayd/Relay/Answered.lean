/-
  OmpRelayd.Relay.Answered — does every send get its receipt?

  A send that is routed claims the slot of its receipt first, and one that cannot have the
  slot closes the connection. A send to a name that breaks the identifier rules takes another
  path: its receipt goes through `enqueue_reply`, which drops what it is given when the reply
  channel has no more than the diagnostic's slot, and goes on reading. Such a receipt is lost
  with the connection open (`a_misaddressed_send_loses_its_receipt`).

  Proved (`every_send_is_answered`): that is the only way. In every run in which no such send
  is read while the channel is that full (`losesReceipt` is false), each send whose id, reply
  token, attachment and body pass their checks has put exactly one reply into the channel once
  it has been handled and the connection goes on, and that reply is its receipt.

  The rules of `Relay.Turn` let a handler stop without a reply, so a send is held to stricter
  ones here (`answerRules`).
-/

import OmpRelayd.Relay.Conns

namespace OmpRelayd.Relay

/-! ## Sends -/

/-- The id of a send that is due a receipt. -/
def receipted : ClientFrame → Option String
  | .send id _ body replyTo attachment =>
    if (validateCorrelationId id).isOk && Submission.passes ⟨id, body, replyTo, attachment⟩ then some id else none
  | _ => none

/-- Its target breaks the identifier rules. -/
def misaddressed : ClientFrame → Bool
  | .send _ target _ _ _ => !(validateIdentifier target).isOk
  | _ => false

/-- A misaddressed send that is due a receipt is read, and the channel has no slot for it. -/
def losesReceipt (s : Sys) : RelayEv → Bool
  | .read c branch => (receipted branch.frame).isSome && misaddressed branch.frame &&
    (s.conns.lookup c).any fun conn => conn.capacity ≤ diagnosticReserve
  | _ => false

theorem receipted_some {frame : ClientFrame} {id : String} (h : receipted frame = some id) :
    ∃ target body replyTo attachment, frame = .send id target body replyTo attachment ∧
      validateCorrelationId id = .ok () ∧ Submission.passes ⟨id, body, replyTo, attachment⟩ = true := by
  cases frame with
  | send id' target body replyTo attachment =>
    simp only [receipted] at h
    split at h
    · rename_i hok
      cases h
      obtain ⟨hid, hpass⟩ := Bool.and_eq_true_iff.mp hok
      refine ⟨target, body, replyTo, attachment, rfl, ?_, hpass⟩
      cases hv : validateCorrelationId id with
      | ok u => rfl
      | error e => rw [hv] at hid; cases hid
    · cases h
  | _ => cases h

/-! ## The rules a send's handler keeps to -/

/-- The receipt a misaddressed send is offered. -/
def Misdirects : ClientFrame → ServerFrame → Prop
  | .send id target _ _ _, reply => reply = .receipt id (boundedTarget target) .invalidTarget
  | _, _ => False

section
variable (frame : ClientFrame)

/-- With a slot to be had, only a misaddressed send is offered a reply, and that is its receipt. -/
def mayAnswer : Turn → Call → Prop
  | .fresh free, .trySend reply => slotFree free = true → misaddressed frame = true ∧ Misdirects frame reply
  | _, _ => True

def answerRules : Prog.Rules Call Call.Answer Turn := ⟨mayAnswer frame, nextTurn frame⟩

/-- Only a misaddressed send may be let go, for want of a slot. -/
def answerStops : Turn → ControlFlow → Prop
  | .fresh free, _ => misaddressed frame = true ∧ free.isSome = true ∧ slotFree free = false
  | .replied, _ => True
  | .closing, flow => flow = .breaks
  | .acknowledged, flow => flow = .continues
  | _, _ => False

end

section
variable {frame : ClientFrame}

theorem answers_call {call : Call} {turn : Turn} {fin : Turn → call.Answer → Prop} (hm : mayAnswer frame turn call)
    (hf : ∀ answer, fin (nextTurn frame turn call answer) answer) : (ask call).Obeys (answerRules frame) fin turn := ⟨hm, hf⟩

theorem queueDiagnostic_answers {free : Option Nat} (hfree : slotFree free = false) (code : ErrorCode) (message : String)
    {fin : Turn → Unit → Prop} (hf : fin .closing ()) :
    (queueDiagnostic code message).Obeys (answerRules frame) fin (.fresh free) := by
  unfold queueDiagnostic
  rw [Prog.obeys_bind]
  refine answers_call (fun hs => ?_) fun answer => ?_
  · rw [hfree] at hs; cases hs
  · simp only [nextTurn, hfree, Bool.false_eq_true, if_false]
    exact hf

theorem claimAcknowledgement_answers (what : String) {fin : Turn → Bool → Prop} (ht : fin .claimed true)
    (hf : fin .closing false) : (claimAcknowledgement what).Obeys (answerRules frame) fin (.fresh none) := by
  apply claimAcknowledgement_under what trivial
  · intro free message hfull
    have hslot : slotFree (some free) = false := decide_eq_false (Nat.not_lt.mpr hfull)
    exact queueDiagnostic_answers hslot _ _ hf
  · intro free _
    trivial
  · intro free
    exact ht
  · intro free message
    exact queueDiagnostic_answers rfl _ _ hf

theorem refuseUnwritable_answers (produced : String) :
    (refuseUnwritable produced).Obeys (answerRules frame) (answerStops frame) (.fresh none) := by
  unfold refuseUnwritable
  rw [Prog.obeys_bind]
  exact queueDiagnostic_answers rfl _ _ rfl

/-- A check that passes leaves what comes after it. -/
theorem checkSubmission_of_passes (env : Env) (name field : String) {submitted : Submission} (h : submitted.passes = true)
    (accept : Handler ControlFlow) : checkSubmission env name field submitted accept = accept := by
  simp only [Submission.passes, Bool.and_eq_true, Option.isNone_iff_eq_none] at h
  simp only [checkSubmission, h.1.1, h.1.2, h.2]

theorem route_answers (env : Env) (room : RoomId) (target : String) (message : ServerFrame) {fin : Turn → Routed → Prop}
    (hrouted : ∀ ack status, fin (.owing ack) (.status status)) (hunwritable : ∀ o, fin (.routing o) .unwritable) :
    (route env room target message).Obeys (answerRules frame) fin .claimed := by
  unfold route
  simp only [Prog.obeys_bind]
  refine answers_call trivial fun outbound => ?_
  cases outbound with
  | none => exact hrouted _ _
  | some outbound =>
    simp only [nextTurn]
    split
    · exact hunwritable outbound
    · simp only [Prog.obeys_bind]
      exact answers_call trivial fun status => hrouted _ _

theorem handleSend_answers (env : Env) (registered : RegisteredPeer) {id target body : String}
    {replyTo attachment : Option String} (hframe : frame = .send id target body replyTo attachment)
    (hid : receipted frame = some id) :
    (handleSend env registered target ⟨id, body, replyTo, attachment⟩).Obeys (answerRules frame) (answerStops frame)
      (.fresh none) := by
  obtain ⟨_, _, _, _, heq, hvalid, hpass⟩ := receipted_some hid
  rw [hframe] at heq
  cases heq
  unfold handleSend
  simp only [hvalid]
  cases htarget : validateIdentifier target with
  | error error =>
    have hmis : misaddressed frame = true := by simp [hframe, misaddressed, htarget, Except.isOk, Except.toBool]
    simp only [enqueueReply, Prog.obeys_bind]
    refine answers_call trivial fun free => ?_
    split
    · rename_i hfull
      exact ⟨hmis, rfl, decide_eq_false (Nat.not_lt.mpr hfull)⟩
    · rename_i hfree
      have hslot : slotFree (some free) = true := decide_eq_true (Nat.lt_of_not_le hfree)
      simp only [Prog.obeys_bind]
      refine answers_call (fun _ => ⟨hmis, ?_⟩) fun queued => ?_
      · rw [hframe]; rfl
      · simp only [nextTurn, hslot, if_true]
        split <;> exact trivial
  | ok u =>
    rw [checkSubmission_of_passes env _ _ hpass, Prog.obeys_bind]
    refine claimAcknowledgement_answers _ ?_ rfl
    simp only [if_true, Prog.obeys_bind]
    refine route_answers env _ _ _ (fun ack status => ?_) fun o => ?_
    · simp only [Prog.obeys_bind]
      exact answers_call trivial fun _ => rfl
    · simp only [Prog.obeys_bind]
      exact answers_call trivial fun _ => refuseUnwritable_answers _

theorem readerTurn_answers (env : Env) (registered : RegisteredPeer) {branch : Branch} {id : String}
    (hid : receipted branch.frame = some id) :
    (readerTurn env registered branch).Obeys (answerRules branch.frame) (answerStops branch.frame) (.fresh none) := by
  obtain ⟨target, body, replyTo, attachment, hframe, _⟩ := receipted_some hid
  cases branch with
  | inbound read =>
    cases read with
    | decoded frame =>
      obtain rfl : frame = .send id target body replyTo attachment := hframe
      exact handleSend_answers env registered rfl hid
    | _ => cases hframe
  | _ => cases hframe

end

/-! ## What has been put into a reply channel -/

def Item.answer : Item → Option Reply
  | .reply r => some r
  | _ => none

/-- Every reply put into the channel, in order: those written, and those still in it. -/
def Conn.offered (conn : Conn) : List Reply :=
  (conn.sent ++ conn.buffer ++ conn.stage.writing).filterMap Item.answer ++ conn.replies

/-- Those put there for frame `n`. -/
def Conn.answersTo (conn : Conn) (n : Nat) : List Reply := conn.offered.filter (·.seq == n)

/-- There is one, and it is the receipt of `id`. -/
def Conn.Receipted (conn : Conn) (n : Nat) (id : String) : Prop :=
  ∃ target status, conn.answersTo n = [⟨.receipt id target status, n⟩]

/-- How far the frame being handled has got. -/
def Turn.Offers (conn : Conn) (id : String) : Turn → Prop
  | .acknowledged => conn.Receipted conn.seq id
  | .replied => conn.Receipted conn.seq id
  | .closing => True
  | _ => conn.answersTo conn.seq = []

/-- While a misaddressed send is handled there is a slot for its receipt. -/
def Turn.Spacious (conn : Conn) : Turn → Prop
  | .fresh free => diagnosticReserve < conn.capacity ∧ ∀ n, free = some n → diagnosticReserve < n
  | .replied => True
  | .closing => True
  | _ => False

/-- What is so of an open connection whose reader is `reader`. -/
structure Conn.Answered (conn : Conn) (reader : Reader) : Prop where
  bound : ∀ reply ∈ conn.offered, reply.seq ≤ conn.seq
  done : ∀ n frame id, 0 < n → conn.frame n = some frame → receipted frame = some id →
    n < conn.seq ∨ reader = .awaiting → conn.Receipted n id
  busy : ∀ late turn rest, reader = .busy late turn rest → ∀ id, receipted conn.current = some id →
    rest.Obeys (answerRules conn.current) (answerStops conn.current) turn ∧ turn.Offers conn id ∧
      (misaddressed conn.current = true → turn.Spacious conn)

/-- Every connection that is not being closed is so. -/
def AnswerInv (s : Sys) : Prop :=
  ∀ c conn reader writer, s.conns.lookup c = some conn → conn.stage = .pumping reader writer → writer ≠ .replaced →
    conn.Answered reader

variable {env : Env} {s t : Sys} {c : Nat} {conn conn' : Conn} {reader : Reader} {writer : Writer}

theorem Conn.Answered.congr (h : conn.Answered reader) (hoffered : conn'.offered = conn.offered)
    (hturns : conn'.turns = conn.turns) (hcapacity : reader.isBusy = true → conn'.capacity = conn.capacity) :
    conn'.Answered reader := by
  have hseq : conn'.seq = conn.seq := congrArg List.length hturns
  have hframe : conn'.frame = conn.frame := by funext n; simp only [Conn.frame, hturns]
  have hcurrent : conn'.current = conn.current := by simp only [Conn.current, hframe, hseq]
  have hanswers : conn'.answersTo = conn.answersTo := by funext n; simp only [Conn.answersTo, hoffered]
  have hreceipted : ∀ n id, conn.Receipted n id → conn'.Receipted n id := fun n id hr => by
    simpa only [Conn.Receipted, hanswers] using hr
  refine ⟨fun reply hr => ?_, fun n frame id hn hf hid hover => ?_, fun late turn rest hb id hid => ?_⟩
  · rw [hseq]; exact h.bound reply (hoffered ▸ hr)
  · rw [hframe] at hf
    rw [hseq] at hover
    exact hreceipted n id (h.done n frame id hn hf hid hover)
  · rw [hcurrent] at hid ⊢
    obtain ⟨hobeys, hoffers, hspace⟩ := h.busy late turn rest hb id hid
    have hcap := hcapacity (by rw [hb]; rfl)
    refine ⟨hobeys, ?_, fun hmis => ?_⟩
    · have heq : turn.Offers conn' id = turn.Offers conn id := by
        cases turn <;> simp only [Turn.Offers, Conn.Receipted, hanswers, hseq]
      exact heq ▸ hoffers
    · have heq : turn.Spacious conn' = turn.Spacious conn := by cases turn <;> simp only [Turn.Spacious, hcap]
      exact heq ▸ hspace hmis

/-! ## The connection's own task -/

/-- The writer moves replies along without changing which were put in, until it is told to stop. -/
theorem Conn.Drives.offered {flag : Bool} {e : RelayEv} (hd : conn.Drives c flag e conn')
    (hst : conn'.stage = .pumping reader writer) (hw : writer ≠ .replaced) :
    (∃ writer', conn.stage = .pumping reader writer' ∧ writer' ≠ .replaced ∧ reader.isBusy = false ∧
      conn'.offered = conn.offered) ∨ conn.stage = .greeting ∧ reader = .awaiting ∧ conn'.offered = conn.offered := by
  cases hd with
  | greeted hg => cases hst; exact .inr ⟨hg, rfl, by simp [Conn.offered, hg, Stage.writing, List.filterMap_cons, Item.answer]⟩
  | poll o r w w' hs hb hitem hr =>
    cases hst
    refine .inl ⟨w, hs, hr, hb, ?_⟩
    have h1 : (Stage.pumping reader w).writing = [] := by
      cases w with
      | writing item => exact absurd rfl (hitem item).1
      | _ => rfl
    have h2 : (Stage.pumping reader writer).writing = [] := by
      cases writer with
      | writing item => exact absurd rfl (hitem item).2
      | _ => rfl
    simp only [Conn.offered, hs, h1, h2]
  | takeReply o r reply rest hs hb hr =>
    cases hst
    refine .inl ⟨.polled, hs, nofun, hb, ?_⟩
    simp [Conn.offered, hs, Stage.writing, Item.answer, hr]
  | takeDelivery o r payload rest hs hb hq =>
    cases hst
    refine .inl ⟨.starved, hs, nofun, hb, ?_⟩
    simp [Conn.offered, hs, Stage.writing, Item.answer]
  | wrote r item hs hb =>
    cases hst
    refine .inl ⟨_, hs, nofun, hb, ?_⟩
    simp [Conn.offered, hs, Stage.writing]
  | cancelled r item fed hs hb hf => cases hst; exact absurd rfl hw
  | _ => cases hst

/-! ## The reader -/

theorem Conn.frame_le {n : Nat} {frame : ClientFrame} (h : conn.frame n = some frame) : n ≤ conn.seq := by
  obtain ⟨branch, hb, -⟩ := Option.map_eq_some_iff.mp h
  have := (List.getElem?_eq_some_iff.mp hb).1
  simp only [Conn.seq]
  omega

/-- What was read before is numbered as it was. -/
theorem Conn.frame_read {branch : Branch} {stage : Stage} {n : Nat} {frame : ClientFrame} (hn : 0 < n)
    (h : ({ conn with turns := conn.turns ++ [branch], stage := stage } : Conn).frame n = some frame) :
    conn.frame n = some frame ∨ n = conn.seq + 1 ∧ frame = branch.frame := by
  obtain ⟨b, hb, rfl⟩ := Option.map_eq_some_iff.mp h
  simp only at hb
  rcases Nat.lt_or_ge (n - 1) conn.turns.length with hlt | hge
  · rw [List.getElem?_append_left hlt] at hb
    exact .inl (by simp [Conn.frame, hb])
  · have hlt := (List.getElem?_eq_some_iff.mp hb).1
    simp only [List.length_append, List.length_singleton] at hlt
    have heq : n - 1 = conn.turns.length := by omega
    rw [heq] at hb
    simp only [List.getElem?_concat_length, Option.some.injEq] at hb
    exact .inr ⟨by simp only [Conn.seq]; omega, by rw [hb]⟩

theorem answersTo_nil {n : Nat} (h : ∀ reply ∈ conn.offered, reply.seq < n) : conn.answersTo n = [] := by
  refine List.filter_eq_nil_iff.mpr fun reply hr he => ?_
  have := h reply hr
  simp only [beq_iff_eq] at he
  omega

theorem Conn.Answered.read (h : conn.Answered .awaiting) (hst : conn.stage = .pumping .awaiting writer) (branch : Branch)
    (late : Bool) (hspace : ∀ id, receipted branch.frame = some id → misaddressed branch.frame = true →
      diagnosticReserve < conn.capacity) :
    ({ conn with
      turns := conn.turns ++ [branch]
      stage := .pumping (.of late (.fresh none) (readerTurn env (registeredPeer c conn) branch)) writer } : Conn).Answered
      (.of late (.fresh none) (readerTurn env (registeredPeer c conn) branch)) := by
  have hoffered : ({ conn with
      turns := conn.turns ++ [branch]
      stage := .pumping (.of late (.fresh none) (readerTurn env (registeredPeer c conn) branch)) writer } : Conn).offered =
      conn.offered := by
    cases writer <;> simp only [Conn.offered, hst, Stage.writing]
  have hnil : conn.answersTo (conn.seq + 1) = [] := answersTo_nil fun reply hr => Nat.lt_succ_of_le (h.bound reply hr)
  refine ⟨fun reply hr => ?_, fun n frame id hn hf hid hover => ?_, fun late' turn rest hb id hid => ?_⟩
  · rw [hoffered] at hr
    have := h.bound reply hr
    simp only [Conn.seq, List.length_append, List.length_singleton] at this ⊢
    omega
  · rcases Conn.frame_read hn hf with hold | ⟨rfl, rfl⟩
    · obtain ⟨target, status, heq⟩ := h.done n frame id hn hold hid (.inr rfl)
      exact ⟨target, status, by simp only [Conn.answersTo, hoffered]; exact heq⟩
    · -- the new frame's handler is not done before its first call
      exfalso
      rcases hover with hlt | hawait
      · simp only [Conn.seq, List.length_append, List.length_singleton] at hlt
        omega
      · have hobeys := readerTurn_answers env (registeredPeer c conn) hid
        cases hp : readerTurn env (registeredPeer c conn) branch with
        | done flow =>
          rw [hp] at hobeys
          exact Bool.false_ne_true hobeys.2.1
        | call op k => rw [hp] at hawait; cases hawait
  · obtain ⟨-, rfl, rfl⟩ := Reader.of_busy hb
    rw [Conn.current_read] at hid ⊢
    refine ⟨readerTurn_answers env _ hid, ?_, fun hmis => ⟨hspace id hid hmis, fun n hfree => ?_⟩⟩
    · simp only [Turn.Offers, Conn.answersTo, hoffered, Conn.seq, List.length_append, List.length_singleton]
      exact hnil
    · cases hfree

/-! ## Calls -/

section
variable {turn : Turn} {call : Call} {answer : call.Answer} {id : String} {stage : Stage}

/-- The replies put in after a call: those before, and the one it put in, for the frame being handled. -/
theorem Calls.offered (h : Calls conn call answer conn') (hstage : stage.writing = conn.stage.writing) :
    ({ conn' with stage := stage } : Conn).offered = conn.offered ∨
      ∃ reply, call.puts = some reply ∧
        ({ conn' with stage := stage } : Conn).offered = conn.offered ++ [⟨reply, conn.seq⟩] := by
  cases h with
  | sent frame => exact .inr ⟨frame, rfl, by simp [Conn.offered, hstage]⟩
  | permitSend frame => exact .inr ⟨frame, rfl, by simp [Conn.offered, hstage, Conn.permitSend]⟩
  | _ => exact .inl (by simp [Conn.offered, hstage, Conn.permitDrop])

theorem Conn.answersTo_same (h : conn'.offered = conn.offered) (n : Nat) : conn'.answersTo n = conn.answersTo n := by
  simp only [Conn.answersTo, h]

theorem Conn.answersTo_more {reply : Reply} (h : conn'.offered = conn.offered ++ [reply]) (n : Nat) :
    conn'.answersTo n = conn.answersTo n ++ if reply.seq = n then [reply] else [] := by
  simp only [Conn.answersTo, h, List.filter_append, List.filter_cons, List.filter_nil, beq_iff_eq]

theorem not_misaddressed {frame : ClientFrame} (h : requests env frame = true) : misaddressed frame = false := by
  cases frame with
  | send id target body replyTo attachment =>
    simp only [requests, Bool.and_eq_true] at h
    simp only [misaddressed, h.1.2, Bool.not_true]
  | _ => rfl

/-- Of the calls a send's handler may make, each moves the record on as the replies put in do. -/
theorem Calls.offers (h : Calls conn call answer conn') (hoffers : turn.Offers conn id)
    (hid : receipted conn.current = some id) (hfits : turn.Fits conn.current)
    (hmay : mayCall env (registeredPeer c conn) conn.current turn call) (hans : mayAnswer conn.current turn call)
    (hspace : misaddressed conn.current = true → turn.Spacious conn) (hstage : stage.writing = conn.stage.writing) :
    (nextTurn conn.current turn call answer).Offers { conn' with stage := stage } id := by
  obtain ⟨target, body, replyTo, attachment, hframe, -⟩ := receipted_some hid
  have hseq : ({ conn' with stage := stage } : Conn).seq = conn.seq := congrArg List.length h.kept.1
  -- a call that puts nothing in leaves the frame without a reply
  have hsilent : call.puts = none → conn.answersTo conn.seq = [] →
      ({ conn' with stage := stage } : Conn).answersTo ({ conn' with stage := stage } : Conn).seq = [] := by
    intro hnone hnil
    rcases h.offered hstage with heq | ⟨reply, hput, -⟩
    · rw [hseq, Conn.answersTo_same heq]; exact hnil
    · rw [hnone] at hput; cases hput
  -- the one reply it is given is its receipt
  have hreceipt : ∀ target' status, conn.answersTo conn.seq = [] → ({ conn' with stage := stage } : Conn).offered =
      conn.offered ++ [⟨.receipt id target' status, conn.seq⟩] →
      ({ conn' with stage := stage } : Conn).Receipted ({ conn' with stage := stage } : Conn).seq id := by
    intro target' status hnil heq
    refine ⟨target', status, ?_⟩
    rw [hseq, Conn.answersTo_more heq, hnil, if_pos rfl]
    rfl
  cases turn with
  | fresh free =>
    cases h with
    | capacity => exact hsilent rfl hoffers
    | sent reply _ =>
      simp only [nextTurn]
      split
      · rename_i hslot
        obtain ⟨-, hmis⟩ := hans hslot
        rw [hframe] at hmis
        obtain rfl : reply = .receipt id (boundedTarget target) .invalidTarget := hmis
        exact hreceipt (boundedTarget target) .invalidTarget hoffers (by simp [Conn.offered, hstage])
      · trivial
    | notSent reply error hfull =>
      simp only [nextTurn]
      split
      · -- a misaddressed send has its slot
        rename_i hslot
        have := (hspace (hans hslot).1).1
        omega
      · trivial
    | claimed => exact hsilent rfl hoffers
    | notClaimed => exact hsilent rfl hoffers
    | permitSend reply => exact hmay.elim
    | permitDrop => exact hmay.elim
    | other _ _ _ _ hoff =>
      cases call with
      | listPeers room => exact hsilent rfl hoffers
      | outboundOf room target => exact hmay.elim
      | recipients room announcer => exact hmay.elim
      | enqueue outbound payload => exact hmay.elim
      | reserve room digest bytes => exact hmay.elim
      | _ => cases hoff
  | claimed =>
    cases call with
    | outboundOf room target => cases answer <;> exact hsilent rfl hoffers
    | recipients room announcer => exact hsilent rfl hoffers
    | reserve room digest bytes => exact hsilent rfl hoffers
    | permitDrop => exact hsilent rfl hoffers
    | _ => exact hmay.elim
  | routing outbound =>
    cases call with
    | enqueue o payload => exact hsilent rfl hoffers
    | permitDrop => exact hsilent rfl hoffers
    | _ => exact hmay.elim
  | fanning todo counts =>
    -- no send is fanned out
    obtain ⟨_, _, _, _, hannounce⟩ := hfits
    rw [hannounce] at hframe; cases hframe
  | owing ack =>
    cases hmay
    have hack : Acknowledges conn.current ack := hfits
    rw [hframe] at hack
    cases ack with
    | receipt id' target' status =>
      obtain ⟨rfl, -⟩ := hack
      cases h with
      | permitSend _ => exact hreceipt target' status hoffers (by simp [Conn.offered, hstage, Conn.permitSend])
      | other _ _ _ _ hoff => cases hoff
    | _ => exact hack.elim
  | _ => exact hmay.elim

/-- A misaddressed send keeps its slot until its receipt takes it. -/
theorem Calls.spacious (h : Calls conn call answer conn') (hmis : misaddressed conn.current = true)
    (hspace : turn.Spacious conn) (hmay : mayCall env (registeredPeer c conn) conn.current turn call) :
    (nextTurn conn.current turn call answer).Spacious { conn' with stage := stage } := by
  cases turn with
  | fresh free =>
    cases h with
    | capacity => exact ⟨hspace.1, fun n hn => by cases hn; exact hspace.1⟩
    | sent reply _ => simp only [nextTurn]; split <;> trivial
    | notSent reply error _ => simp only [nextTurn]; split <;> trivial
    | claimed => rw [not_misaddressed hmay.1] at hmis; cases hmis
    | notClaimed => rw [not_misaddressed hmay.1] at hmis; cases hmis
    | permitSend reply => exact hmay.elim
    | permitDrop => exact hmay.elim
    | other _ _ _ _ hoff =>
      cases call with
      | listPeers room => exact hspace
      | outboundOf room target => exact hmay.elim
      | recipients room announcer => exact hmay.elim
      | enqueue outbound payload => exact hmay.elim
      | reserve room digest bytes => exact hmay.elim
      | _ => cases hoff
  | replied => exact hmay.elim
  | closing => exact hmay.elim
  | _ => exact hspace.elim

end

/-- A handler that stops and goes on has put the receipt in. -/
theorem Turn.Offers.stopped {turn : Turn} {id : String} (h : turn.Offers conn id)
    (hstop : answerStops conn.current turn .continues) (hspace : misaddressed conn.current = true → turn.Spacious conn) :
    conn.Receipted conn.seq id := by
  cases turn with
  | fresh free =>
    obtain ⟨hmis, hsome, hfull⟩ := hstop
    obtain ⟨n, rfl⟩ := Option.isSome_iff_exists.mp hsome
    have hfree := (hspace hmis).2 n rfl
    exact absurd (decide_eq_true hfree) (by rw [show decide (diagnosticReserve < n) = false from hfull]; simp)
  | replied => exact h
  | acknowledged => exact h
  | closing => cases hstop
  | _ => exact hstop.elim

theorem Conn.Answered.act {late : Bool} {turn : Turn} {call : Call} {rest : call.Answer → Handler ControlFlow}
    {answer : call.Answer} (h : conn.Answered (.busy late turn (.call call rest)))
    (hst : conn.stage = .pumping (.busy late turn (.call call rest)) writer) (hfits : turn.Fits conn.current)
    (hmay : mayCall env (registeredPeer c conn) conn.current turn call) (hcalls : Calls conn call answer conn') :
    ({ conn' with stage := .pumping (.of late (nextTurn conn.current turn call answer) (rest answer)) writer } :
      Conn).Answered (.of late (nextTurn conn.current turn call answer) (rest answer)) := by
  generalize hreader : Reader.of late (nextTurn conn.current turn call answer) (rest answer) = reader'
  have hstage : (Stage.pumping reader' writer).writing = conn.stage.writing := by rw [hst]; cases writer <;> rfl
  generalize hfinal : ({ conn' with stage := .pumping reader' writer } : Conn) = final
  have hturns : final.turns = conn.turns := by rw [← hfinal]; exact hcalls.kept.1
  have hseq : final.seq = conn.seq := congrArg List.length hturns
  have hframe : final.frame = conn.frame := by funext n; simp only [Conn.frame, hturns]
  have hcurrent : final.current = conn.current := by simp only [Conn.current, hframe, hseq]
  have hoffered := hcalls.offered hstage
  rw [hfinal] at hoffered
  -- the frames before this one keep their answers
  have hothers : ∀ n, n < conn.seq → final.answersTo n = conn.answersTo n := by
    intro n hn
    rcases hoffered with heq | ⟨reply, -, heq⟩
    · exact Conn.answersTo_same heq n
    · rw [Conn.answersTo_more heq, if_neg (by simp only; omega), List.append_nil]
  -- and this one is as far as its record says
  have hprogress : ∀ id, receipted final.current = some id →
      (rest answer).Obeys (answerRules final.current) (answerStops final.current) (nextTurn conn.current turn call answer) ∧
        (nextTurn conn.current turn call answer).Offers final id ∧
        (misaddressed final.current = true → (nextTurn conn.current turn call answer).Spacious final) := by
    intro id hid
    rw [hcurrent] at hid ⊢
    obtain ⟨hobeys, hoffers, hspace⟩ := h.busy late turn _ rfl id hid
    obtain ⟨hans, hrest⟩ := hobeys.answer answer
    refine ⟨hrest, ?_, fun hmis => ?_⟩
    · rw [← hfinal]; exact hcalls.offers hoffers hid hfits hmay hans hspace hstage
    · rw [← hfinal]; exact hcalls.spacious hmis (hspace hmis) hmay
  refine ⟨fun reply hr => ?_, fun n frame id hn hf hid hover => ?_, fun late' turn' rest' hb id hid => ?_⟩
  · rw [hseq]
    rcases hoffered with heq | ⟨reply', -, heq⟩ <;> rw [heq] at hr
    · exact h.bound reply hr
    · rcases List.mem_append.mp hr with hr | hr
      · exact h.bound reply hr
      · rw [List.mem_singleton.mp hr]
  · rw [hframe] at hf
    rcases Nat.lt_or_ge n conn.seq with hlt | hge
    · obtain ⟨target, status, heq⟩ := h.done n frame id hn hf hid (.inl hlt)
      exact ⟨target, status, (hothers n hlt).trans heq⟩
    · -- the frame just handled
      obtain rfl : n = conn.seq := Nat.le_antisymm (Conn.frame_le hf) hge
      have hawait : reader' = .awaiting := hover.resolve_left (by omega)
      have hcur : final.current = frame := by rw [hcurrent, Conn.current, hf]; rfl
      obtain ⟨hobeys, hoffers, hspace⟩ := hprogress id (hcur ▸ hid)
      rw [← hreader] at hawait
      cases hp : rest answer with
      | call op k => rw [hp] at hawait; cases hawait
      | done flow =>
        rw [hp] at hawait hobeys
        cases flow with
        | breaks => cases hawait
        | continues => rw [← hseq]; exact hoffers.stopped hobeys hspace
  · rw [← hreader] at hb
    obtain ⟨-, rfl, rfl⟩ := Reader.of_busy hb
    exact hprogress id hid

/-! ## Every step -/

/-- A connection put back so that it is answered, if it is open. -/
theorem AnswerInv.put (h : AnswerInv s) (hnew : ∀ reader writer, conn'.stage = .pumping reader writer → writer ≠ .replaced →
    conn'.Answered reader) : AnswerInv (s.put c conn') := by
  intro j x reader writer hj hst hw
  rcases Sys.lookup_put_some hj with ⟨rfl, rfl⟩ | ⟨-, hj⟩
  · exact hnew reader writer hst hw
  · exact h j x reader writer hj hst hw

theorem AnswerInv.congr (h : AnswerInv s) (hc : t.conns = s.conns) : AnswerInv t := fun j x reader writer hj =>
  h j x reader writer (hc ▸ hj)

theorem Conn.Answered.fresh (hturns : conn.turns = []) (hoffered : conn.offered = []) : conn.Answered .awaiting := by
  refine ⟨fun reply hr => ?_, fun n frame id _ hf => ?_, nofun⟩
  · rw [hoffered] at hr; cases hr
  · simp [Conn.frame, hturns] at hf

/-- Before it is pumped a connection has read and offered nothing. -/
def Unread (s : Sys) : Prop :=
  ∀ c conn, s.conns.lookup c = some conn → conn.stage = .admitted ∨ conn.stage = .greeting →
    conn.turns = [] ∧ conn.sent = [] ∧ conn.buffer = [] ∧ conn.replies = []

theorem Unread.put (h : Unread s) (hnew : conn'.stage = .admitted ∨ conn'.stage = .greeting →
    conn'.turns = [] ∧ conn'.sent = [] ∧ conn'.buffer = [] ∧ conn'.replies = []) : Unread (s.put c conn') := by
  intro j x hj hst
  rcases Sys.lookup_put_some hj with ⟨rfl, rfl⟩ | ⟨-, hj⟩
  · exact hnew hst
  · exact h j x hj hst

theorem Step.unread {e : RelayEv} (hs : Step env s e t) (hr : RelayInv env s) (h : Unread s) : Unread t := by
  cases hs with
  | hello frame name hadm => exact h.put fun _ => ⟨rfl, rfl, rfl, rfl⟩
  | insert c conn registry hc hreg =>
    obtain ⟨name, hd, -⟩ := Option.map_eq_some_iff.mp hreg
    obtain ⟨x, hx, -, hst⟩ := hr.drawn c name hd
    cases hc.symm.trans hx
    exact h.put fun _ => h c conn hc (.inl hst)
  | drive e c conn conn' hc hd =>
    refine h.put fun hst => ?_
    cases hd <;> rcases hst with hst | hst <;> cases hst
  | read c branch conn writer hc hst hb => exact h.put fun hst => by rcases hst with hst | hst <;> cases hst
  | act c now order conn conn' late turn call rest writer answer s' hc hst ha hc' =>
    have hanswers := answer_answers hc ha
    intro j x hj hst'
    rcases Sys.lookup_put_some hj with ⟨rfl, rfl⟩ | ⟨hne, hj⟩
    · rcases hst' with hst' | hst' <;> cases hst'
    · obtain ⟨x₀, hx₀, hsame⟩ := hanswers.others hne hj
      rcases hsame with rfl | ⟨d, rfl⟩
      · exact h j x hx₀ hst'
      · exact h j x₀ hx₀ hst'
  | drop c conn registry hc hst hreg =>
    refine h.put fun hst' => ?_
    simp only at hst'
    split at hst' <;> rcases hst' with hst' | hst' <;> cases hst'
  | forget c conn hc hst => exact h.put fun hst' => by rcases hst' with hst' | hst' <;> cases hst'
  | transfer e store => exact h
  | shutdown => exact h

theorem Step.answered {e : RelayEv} (hs : Step env s e t) (hr : RelayInv env s) (hu : Unread s)
    (hok : losesReceipt s e = false) (h : AnswerInv s) : AnswerInv t := by
  cases hs with
  | hello frame name hadm => exact h.put fun _ _ hst => by cases hst
  | insert c conn registry hc hreg => exact h.put fun _ _ hst => by cases hst
  | drive e c conn conn' hc hd =>
    refine h.put fun reader writer hst hw => ?_
    rcases hd.offered hst hw with ⟨writer', hst', hw', hidle, hoffered⟩ | ⟨hgreeting, rfl, hoffered⟩
    · exact (h c conn reader writer' hc hst' hw').congr hoffered hd.kept.turns fun hb => by
        rw [hidle] at hb; cases hb
    · obtain ⟨hturns, hsent, hbuffer, hreplies⟩ := hu c conn hc (.inr hgreeting)
      refine .fresh (hd.kept.turns.trans hturns) (hoffered.trans ?_)
      simp [Conn.offered, hsent, hbuffer, hreplies, hgreeting, Stage.writing]
  | read c branch conn writer hc hst hb =>
    refine h.put fun reader writer' hst' hw => ?_
    obtain ⟨rfl, rfl⟩ := Stage.pumping.inj hst'
    refine (h c conn .awaiting writer hc hst hw).read hst branch _ fun id hid hmis => ?_
    simp only [losesReceipt, hid, hmis, hc, Option.isSome_some, Bool.true_and, Option.any_some, decide_eq_false_iff_not,
      Nat.not_le] at hok
    exact hok
  | act c now order conn conn' late turn call rest writer answer s' hc hst ha hc' =>
    have hanswers := answer_answers hc ha
    obtain ⟨hobeys, hfits⟩ := hr.keeps c conn hc late turn _ writer hst
    intro j x reader writer' hj hst' hw
    rcases Sys.lookup_put_some hj with ⟨rfl, rfl⟩ | ⟨hne, hj⟩
    · obtain ⟨rfl, rfl⟩ := Stage.pumping.inj hst'
      refine (h j conn _ writer hc hst hw).act hst hfits hobeys.1 (hanswers.calls hc hc' ?_)
      rw [hst]; rfl
    · -- another connection was given a payload at most
      obtain ⟨x₀, hx₀, hsame⟩ := hanswers.others hne hj
      rcases hsame with rfl | ⟨d, rfl⟩
      · exact h j x reader writer' hx₀ hst' hw
      · exact (h j x₀ reader writer' hx₀ hst' hw).congr rfl rfl fun _ => rfl
  | drop c conn registry hc hst hreg =>
    refine h.put fun reader writer hst' => ?_
    simp only at hst'
    split at hst' <;> cases hst'
  | forget c conn hc hst => exact h.put fun _ _ hst' => by cases hst'
  | transfer e store => exact h.congr rfl
  | shutdown => exact h.congr rfl

theorem answer_inv (h : RelayReach env (fun s e => losesReceipt s e = false) s) : AnswerInv s := by
  have hnone : ∀ {c : Nat} {x : Conn}, ({} : Sys).conns.lookup c ≠ some x := by simp
  exact (h.inv (P := fun s => RelayInv env s ∧ Unread s ∧ AnswerInv s)
    ⟨.init, fun _ _ h => (hnone h).elim, fun _ _ _ _ h => (hnone h).elim⟩
    fun _ _ _ hi hok hs => ⟨(relayStep_step hs).relayInv hi.1, (relayStep_step hs).unread hi.1 hi.2.1,
      (relayStep_step hs).answered hi.1 hi.2.1 hok hi.2.2⟩).2.2

/-! ## One receipt for each -/

/-- In every run that meets the condition: while a connection is open and its writer has not been
    told to stop, each send it has handled and gone on from, and whose id, reply token, attachment
    and body pass, has put exactly one reply into the channel, its receipt. -/
theorem every_send_is_answered (h : RelayReach env (fun s e => losesReceipt s e = false) s)
    (hc : s.conns.lookup c = some conn) (hst : conn.stage = .pumping reader writer) (hopen : writer ≠ .replaced) {n : Nat}
    {frame : ClientFrame} {id : String} (hn : 0 < n) (hf : conn.frame n = some frame) (hid : receipted frame = some id)
    (hover : n < conn.seq ∨ reader = .awaiting) :
    ∃ target status, conn.answersTo n = [⟨.receipt id target status, n⟩] :=
  (answer_inv h c conn reader writer hc hst hopen).done n frame id hn hf hid hover

/-- A send to nobody's name, since no name holds a separator. -/
def misdirected : ClientFrame := .send "m-1" "bob@lobby" "hello" none none

/-- Alice sends to a name that breaks the rules, and then to bob. -/
def answeredRun : List RelayEv :=
  joining 1 ["alice", "bob"] ++ reads 1 misdirected :: acts 1 2 [] ++ reads 1 greeting :: acts 1 5 []

def answeredEnd : Sys := (runIf (relayStep oneByte) (fun s e => !losesReceipt s e) {} answeredRun).getD {}

theorem every_send_is_answered_sample :
    RelayReach oneByte (fun s e => losesReceipt s e = false) answeredEnd ∧ ∃ alice,
      answeredEnd.conns.lookup 1 = some alice ∧ alice.stage = .pumping .awaiting .top ∧ alice.frame 1 = some misdirected ∧
      ∃ target status, alice.answersTo 1 = [⟨.receipt "m-1" target status, 1⟩] := by
  have hr : RelayReach oneByte (fun s e => losesReceipt s e = false) answeredEnd :=
    .of_runIf (fun s e => !losesReceipt s e) (fun _ _ => (Bool.not_eq_true' _).mp) answeredRun .init rfl
  refine ⟨hr, _, rfl, rfl, rfl, ?_⟩
  exact every_send_is_answered (c := 1) hr rfl (show _ = Stage.pumping .awaiting .top from rfl) (by decide) Nat.one_pos
    (show _ = some misdirected from rfl) rfl (.inr rfl)

/-- Eight pongs fill the channel but for the diagnostic's slot, and the writer has not run. -/
def undrained : List RelayEv :=
  joining 1 ["alice"] ++ (List.replicate 8 (reads 1 .ping :: acts 1 2 [])).flatten ++ reads 1 misdirected :: acts 1 1 []

def undrainedEnd : Sys := (run (relayStep oneByte) {} undrained).getD {}

theorem a_misaddressed_send_loses_its_receipt :
    RelayReach oneByte Always undrainedEnd ∧ ∃ alice, undrainedEnd.conns.lookup 1 = some alice ∧
      alice.stage = .pumping .awaiting .top ∧ alice.frame 9 = some misdirected ∧ receipted misdirected = some "m-1" ∧
      alice.answersTo 9 = [] :=
  ⟨.of_run undrained .init rfl, _, rfl, rfl, rfl, rfl, rfl⟩

end OmpRelayd.Relay
