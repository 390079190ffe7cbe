/-
  OmpRelayd.Relay.Diagnostics — the slot kept for the frame that names a close
  (server/src/relay.rs: `REPLY_QUEUE_CAPACITY`, `DIAGNOSTIC_RESERVE`, `queue_diagnostic`).

  The reply channel has one slot more than its usable depth. A lossy reply and the claim of an
  acknowledgement both look at the capacity first and leave the last slot alone; a diagnostic
  does not look. Only the reader sends, and the writer only frees slots, so what was found free
  stays free until it is used. A handler that has called `queue_diagnostic` does nothing after
  it but end its reader.

  Proved (`the_diagnostic_has_its_slot`): in every run, until its reader ends no connection has
  more than the usable depth occupied, by queued replies and claimed slots together; a
  diagnostic always finds room; and once one has been queued none is queued again, nor any
  other reply.
-/

import OmpRelayd.Lib.Trace
import OmpRelayd.Relay.Conns

namespace OmpRelayd.Relay

/-! ## What a turn says -/

/-- How a turn stands with the reply channel. -/
inductive Standing where
  /-- It has offered nothing. It last found `free` slots, with no call since. -/
  | silent (free : Option Nat)
  /-- It has offered a frame, and will go this way. -/
  | spoken (flow : ControlFlow)
  deriving DecidableEq, Repr

/-- A lossy reply closes only with the channel. -/
def afterReply : Except TrySendError Unit → ControlFlow
  | .error .closed => .breaks
  | _ => .continues

/-- A frame offered in a slot that was looked for is a reply; one offered without is a diagnostic. -/
def Standing.next : Standing → (call : Call) → call.Answer → Standing
  | .silent _, .capacity, free => .silent (some free)
  | .silent free, .trySend _, queued => .spoken (if slotFree free then afterReply queued else .breaks)
  | .silent _, _, _ => .silent none
  | .spoken flow, _, _ => .spoken flow

def Standing.mayCall : Standing → Call → Prop
  | .silent _, _ => True
  | .spoken _, _ => False

def speechRules : Prog.Rules Call Call.Answer Standing := ⟨Standing.mayCall, Standing.next⟩

def Standing.stops : Standing → ControlFlow → Prop
  | .silent _, _ => True
  | .spoken flow, flow' => flow' = flow

/-- From here the handler offers one frame at most, and goes the way that frame says. -/
def Speaks (standing : Standing) (p : Handler ControlFlow) : Prop := p.Obeys speechRules Standing.stops standing

section
variable {free : Option Nat}

theorem speaks_call {call : Call} {fin : Standing → call.Answer → Prop}
    (h : ∀ answer, fin (Standing.next (.silent free) call answer) answer) :
    (ask call).Obeys speechRules fin (.silent free) := ⟨trivial, h⟩

theorem queueDiagnostic_speaks (hfree : slotFree free = false) (code : ErrorCode) (message : String)
    {fin : Standing → Unit → Prop} (hf : fin (.spoken .breaks) ()) :
    (queueDiagnostic code message).Obeys speechRules fin (.silent free) := by
  unfold queueDiagnostic
  rw [Prog.obeys_bind]
  refine speaks_call fun answer => ?_
  simp only [Standing.next, hfree, Bool.false_eq_true, if_false]
  exact hf

/-- A turn that names the close it ends in. -/
theorem diagnosed_speaks (code : ErrorCode) (message : String) :
    Speaks (.silent none) (do queueDiagnostic code message; pure .breaks) := by
  unfold Speaks
  rw [Prog.obeys_bind]
  exact queueDiagnostic_speaks rfl code message rfl

theorem enqueueReply_speaks (frame : ServerFrame) : Speaks (.silent free) (enqueueReply frame) := by
  unfold Speaks enqueueReply
  rw [Prog.obeys_bind]
  refine speaks_call fun free => ?_
  split
  · trivial
  · rename_i hfree
    have hslot : slotFree (some free) = true := decide_eq_true (Nat.lt_of_not_le hfree)
    rw [Prog.obeys_bind]
    refine speaks_call fun queued => ?_
    simp only [Standing.next, hslot, if_true]
    split <;> rfl

theorem claimAcknowledgement_speaks (what : String) {fin : Standing → Bool → Prop} (ht : fin (.silent none) true)
    (hf : fin (.spoken .breaks) false) : (claimAcknowledgement what).Obeys speechRules fin (.silent free) := by
  apply claimAcknowledgement_under what trivial
  · intro found message hfull
    have hslot : slotFree (some found) = false := decide_eq_false (Nat.not_lt.mpr hfull)
    exact queueDiagnostic_speaks hslot _ _ hf
  · intro found _
    trivial
  · intro found
    exact ht
  · intro found message
    exact queueDiagnostic_speaks rfl _ _ hf

theorem checkSubmission_speaks (env : Env) (name field : String) (submitted : Submission) {accept : Handler ControlFlow}
    (h : Speaks (.silent none) accept) : Speaks (.silent none) (checkSubmission env name field submitted accept) := by
  apply checkSubmission_cases (P := Speaks (.silent none))
  · intro error _
    exact enqueueReply_speaks _
  · intro error _
    exact enqueueReply_speaks _
  · intro bodyBytes
    exact diagnosed_speaks _ _
  · intro _
    exact h

theorem fanoutTo_speaks (payload : Bytes) (todo : List Nat) (counts : Fanout) {fin : Standing → Fanout → Prop}
    (hf : ∀ free counts, fin (.silent free) counts) :
    (fanoutTo payload todo counts).Obeys speechRules fin (.silent free) := by
  induction todo generalizing counts free with
  | nil => exact hf free counts
  | cons outbound rest ih =>
    unfold fanoutTo
    rw [Prog.obeys_bind]
    refine speaks_call fun status => ?_
    split <;> exact ih _

theorem route_speaks (env : Env) (room : RoomId) (target : String) (message : ServerFrame)
    {fin : Standing → Routed → Prop} (hf : ∀ outcome, fin (.silent none) outcome) :
    (route env room target message).Obeys speechRules fin (.silent free) := by
  unfold route
  rw [Prog.obeys_bind]
  refine speaks_call fun outbound => ?_
  cases outbound with
  | none => exact hf _
  | some outbound =>
    simp only
    split
    · exact hf _
    · rw [Prog.obeys_bind]
      exact speaks_call fun status => hf _

end

section
variable (env : Env) (registered : RegisteredPeer)

theorem handleSend_speaks (target : String) (submitted : Submission) :
    Speaks (.silent none) (handleSend env registered target submitted) := by
  unfold handleSend
  split
  · exact enqueueReply_speaks _
  · split
    · exact enqueueReply_speaks _
    · refine checkSubmission_speaks env _ _ submitted ?_
      unfold Speaks
      rw [Prog.obeys_bind]
      refine claimAcknowledgement_speaks _ ?_ rfl
      simp only [if_true, Prog.obeys_bind]
      refine route_speaks env _ _ _ fun outcome => ?_
      cases outcome with
      | unwritable =>
        simp only [Prog.obeys_bind]
        exact speaks_call fun _ => diagnosed_speaks _ _
      | status status =>
        simp only [Prog.obeys_bind]
        exact speaks_call fun _ => trivial

theorem handleAnnounce_speaks (submitted : Submission) :
    Speaks (.silent none) (handleAnnounce env registered submitted) := by
  unfold handleAnnounce
  split
  · exact enqueueReply_speaks _
  · refine checkSubmission_speaks env _ _ submitted ?_
    unfold Speaks
    rw [Prog.obeys_bind]
    refine claimAcknowledgement_speaks _ ?_ rfl
    simp only [if_true]
    split
    · simp only [Prog.obeys_bind]
      exact speaks_call fun _ => diagnosed_speaks _ _
    · unfold fanout
      simp only [Prog.obeys_bind]
      refine speaks_call fun todo => fanoutTo_speaks _ _ _ fun free counts => ?_
      exact speaks_call fun _ => trivial

theorem handleReserve_speaks (requestId digest : String) (bytes : Nat) :
    Speaks (.silent none) (handleReserve env registered requestId digest bytes) := by
  unfold handleReserve
  split
  · exact enqueueReply_speaks _
  · split
    · exact enqueueReply_speaks _
    · split
      · unfold Speaks
        rw [Prog.obeys_bind]
        refine claimAcknowledgement_speaks _ ?_ rfl
        simp only [if_true, Prog.obeys_bind]
        exact speaks_call fun granted => speaks_call fun _ => trivial
      · exact enqueueReply_speaks _

theorem handleFrame_speaks (frame : ClientFrame) : Speaks (.silent none) (handleFrame env registered frame) := by
  cases frame with
  | hello offered room peer => exact diagnosed_speaks _ _
  | list requestId =>
    simp only [handleFrame]
    split
    · exact enqueueReply_speaks _
    · unfold Speaks
      rw [Prog.obeys_bind]
      exact speaks_call fun peers => enqueueReply_speaks _
  | send id target body replyTo attachment => exact handleSend_speaks env registered target _
  | announce id body replyTo attachment => exact handleAnnounce_speaks env registered _
  | reserve requestId digest bytes => exact handleReserve_speaks env registered requestId digest bytes
  | ping => exact enqueueReply_speaks _
  | unsupported => exact enqueueReply_speaks _

theorem readerTurn_speaks (branch : Branch) : Speaks (.silent none) (readerTurn env registered branch) := by
  cases branch with
  | shutdown => trivial
  | evicted => trivial
  | idle => exact diagnosed_speaks _ _
  | inbound read =>
    cases read with
    | ended => trivial
    | failed code error =>
      cases code with
      | none => trivial
      | some code => exact diagnosed_speaks _ _
    | undecodable error => exact diagnosed_speaks _ _
    | decoded frame => exact handleFrame_speaks env registered frame

end

/-- Whatever a `queue_diagnostic` is followed by ends the reader. A reply may go on, so its answer
    matters; a diagnostic's does not, and so it was not offered in a slot that was looked for. -/
theorem Speaks.diagnosed {standing : Standing} {code : ErrorCode} {message : String} {rest : Unit → Handler ControlFlow}
    (h : Speaks standing (queueDiagnostic code message >>= rest)) : rest () = .done .breaks := by
  cases standing with
  | spoken flow => exact h.1.elim
  | silent free =>
    have hnext : ∀ queued, Speaks (.spoken (if slotFree free then afterReply queued else .breaks)) (rest ()) := h.2
    have hok := hnext (.ok ())
    have hclosed := hnext (.error .closed)
    cases hrest : rest () with
    | call op k => rw [hrest] at hok; exact hok.1.elim
    | done flow =>
      rw [hrest] at hok hclosed
      have hflow : flow = if slotFree free then .continues else .breaks := hok
      have hflow' : flow = if slotFree free then .breaks else .breaks := hclosed
      rw [ite_self] at hflow'
      rw [hflow']

/-! ## Slots -/

/-- The slots of the reply channel in use, by replies and by permits. -/
def Conn.occupied (conn : Conn) : Nat := conn.replies.length + conn.held

/-- The permits a handler holds. -/
def Turn.permits : Turn → Nat
  | .claimed => 1
  | .routing _ => 1
  | .fanning _ _ => 1
  | .owing _ => 1
  | _ => 0

structure Turn.Occupies (conn : Conn) (turn : Turn) : Prop where
  within : conn.occupied ≤ replyQueueCapacity
  held : conn.held = turn.permits
  found : ∀ n, turn = .fresh (some n) → n = conn.capacity
  unclosed : turn ≠ .closing

structure Conn.Slotted (conn : Conn) : Prop where
  unread : conn.stage = .admitted ∨ conn.stage = .greeting → conn.replies = [] ∧ conn.held = 0
  awaiting : ∀ writer, conn.stage = .pumping .awaiting writer → conn.occupied ≤ replyQueueCapacity ∧ conn.held = 0
  busy : ∀ late turn rest writer, conn.stage = .pumping (.busy late turn rest) writer →
    turn.Occupies conn ∧ ∃ standing, Speaks standing rest

section
variable {env : Env} {registered : RegisteredPeer} {frame : ClientFrame} {turn : Turn} {call : Call}

/-- A handler sends, looks and claims before it has done anything. -/
theorem fresh_of_mayCall (h : mayCall env registered frame turn call)
    (hc : call = .capacity ∨ call = .tryReserve ∨ ∃ reply, call = .trySend reply) : ∃ free, turn = .fresh free := by
  cases turn with
  | fresh free => exact ⟨free, rfl⟩
  | fanning todo counts =>
    cases todo with
    | nil => cases h; simp at hc
    | cons target todo => rcases hc with rfl | rfl | ⟨reply, rfl⟩ <;> exact h.elim
  | owing acknowledgement => cases h; simp at hc
  | _ => rcases hc with rfl | rfl | ⟨reply, rfl⟩ <;> exact h.elim

/-- A permit is used where one is held, and then none is. -/
theorem permitSend_permits {reply : ServerFrame} (h : mayCall env registered frame turn (.permitSend reply)) :
    turn.permits = 1 ∧ nextTurn frame turn (.permitSend reply) () = .acknowledged := by
  cases turn with
  | owing acknowledgement => exact ⟨rfl, rfl⟩
  | fanning todo counts =>
    cases todo with
    | nil => exact ⟨rfl, rfl⟩
    | cons target todo => exact h.elim
  | _ => exact h.elim

theorem permitDrop_permits (h : mayCall env registered frame turn .permitDrop) :
    turn.permits = 1 ∧ nextTurn frame turn .permitDrop () = .fresh none := by
  cases turn with
  | claimed => exact ⟨rfl, rfl⟩
  | routing outbound => exact ⟨rfl, rfl⟩
  | fanning todo counts =>
    cases todo with
    | nil => cases h
    | cons target todo => exact h.elim
  | owing acknowledgement => cases h
  | _ => exact h.elim

/-- What is called on anything else says nothing of the channel. -/
theorem other_permits (h : mayCall env registered frame turn call) (hc : call.onReplies = false) (answer : call.Answer) :
    nextTurn frame turn call answer = turn ∨ (nextTurn frame turn call answer).permits = turn.permits ∧
      (∀ free, nextTurn frame turn call answer ≠ .fresh free) ∧ nextTurn frame turn call answer ≠ .closing := by
  cases turn with
  | fresh free =>
    cases call with
    | listPeers room => exact .inl rfl
    | capacity => cases hc
    | trySend reply => cases hc
    | tryReserve => cases hc
    | _ => exact h.elim
  | claimed =>
    cases call with
    | outboundOf room target => cases answer <;> exact .inr ⟨rfl, by simp [nextTurn], by simp [nextTurn]⟩
    | recipients room announcer => exact .inr ⟨rfl, by simp [nextTurn], by simp [nextTurn]⟩
    | reserve room digest bytes => exact .inr ⟨rfl, by simp [nextTurn], by simp [nextTurn]⟩
    | permitDrop => cases hc
    | _ => exact h.elim
  | routing outbound =>
    cases call with
    | enqueue outbound payload => exact .inr ⟨rfl, by simp [nextTurn], by simp [nextTurn]⟩
    | permitDrop => cases hc
    | _ => exact h.elim
  | fanning todo counts =>
    cases todo with
    | nil => cases h; cases hc
    | cons target todo =>
      cases call with
      | enqueue outbound payload => exact .inr ⟨rfl, by simp [nextTurn], by simp [nextTurn]⟩
      | _ => exact h.elim
  | owing acknowledgement => cases h; cases hc
  | _ => exact h.elim

end

section
variable {env : Env} {c : Nat} {conn conn' : Conn} {turn : Turn} {call : Call} {answer : call.Answer}

theorem Conn.capacity_eq (conn : Conn) : conn.capacity = replyQueueCapacity + diagnosticReserve - conn.occupied := rfl

/-- A slot found free is one more than the diagnostic's. -/
theorem Turn.Occupies.room {free : Option Nat} (h : Turn.Occupies conn (.fresh free)) (hfree : slotFree free = true) :
    conn.occupied + 1 ≤ replyQueueCapacity := by
  obtain ⟨n, rfl⟩ : ∃ n, free = some n := by
    cases free with
    | none => cases hfree
    | some n => exact ⟨n, rfl⟩
  have hn : diagnosticReserve < n := of_decide_eq_true hfree
  have hcapacity := h.found n rfl
  rw [Conn.capacity_eq] at hcapacity
  omega

theorem Turn.Occupies.congr (h : turn.Occupies conn) (hreplies : conn'.replies = conn.replies)
    (hheld : conn'.held = conn.held) : turn.Occupies conn' := by
  have hoccupied : conn'.occupied = conn.occupied := by simp only [Conn.occupied, hreplies, hheld]
  refine ⟨hoccupied ▸ h.within, hheld.trans h.held, fun n hn => ?_, h.unclosed⟩
  rw [Conn.capacity_eq, hoccupied]
  exact h.found n hn

/-- Only a diagnostic takes the last slot. -/
theorem Calls.occupies (h : Calls conn call answer conn') (ho : turn.Occupies conn)
    (hmay : mayCall env (registeredPeer c conn) conn.current turn call) :
    nextTurn conn.current turn call answer = .closing ∨ (nextTurn conn.current turn call answer).Occupies conn' := by
  have hwithin := ho.within
  have hheld := ho.held
  cases h with
  | capacity =>
    obtain ⟨free, rfl⟩ := fresh_of_mayCall hmay (.inl rfl)
    exact .inr ⟨hwithin, hheld, fun n hn => by cases hn; rfl, by simp [nextTurn]⟩
  | sent frame _ =>
    obtain ⟨free, rfl⟩ := fresh_of_mayCall hmay (.inr (.inr ⟨frame, rfl⟩))
    simp only [nextTurn]
    by_cases hfree : slotFree free = true
    · have hroom := ho.room hfree
      rw [if_pos hfree]
      refine .inr ⟨?_, hheld, by simp, by simp⟩
      simp only [Conn.occupied, List.length_append, List.length_singleton] at hroom ⊢
      omega
    · rw [if_neg hfree]; exact .inl rfl
  | notSent frame error _ =>
    obtain ⟨free, rfl⟩ := fresh_of_mayCall hmay (.inr (.inr ⟨frame, rfl⟩))
    simp only [nextTurn]
    by_cases hfree : slotFree free = true
    · rw [if_pos hfree]; exact .inr ⟨hwithin, hheld, by simp, by simp⟩
    · rw [if_neg hfree]; exact .inl rfl
  | claimed _ =>
    obtain ⟨free, rfl⟩ := fresh_of_mayCall hmay (.inr (.inl rfl))
    have hroom := ho.room hmay.2
    refine .inr ⟨?_, ?_, by simp [nextTurn], by simp [nextTurn]⟩
    · simp only [Conn.occupied] at hroom ⊢
      omega
    · show conn.held + 1 = 1
      rw [hheld]; rfl
  | notClaimed =>
    obtain ⟨free, rfl⟩ := fresh_of_mayCall hmay (.inr (.inl rfl))
    exact .inr ⟨hwithin, hheld, by simp [nextTurn], by simp [nextTurn]⟩
  | permitSend frame =>
    obtain ⟨hone, hnext⟩ := permitSend_permits hmay
    rw [hone] at hheld
    rw [hnext]
    refine .inr ⟨?_, ?_, by simp, by simp⟩
    · simp only [Conn.occupied, Conn.permitSend, List.length_append, List.length_singleton] at hwithin ⊢
      omega
    · show conn.held - 1 = 0
      omega
  | permitDrop =>
    obtain ⟨hone, hnext⟩ := permitDrop_permits hmay
    rw [hone] at hheld
    rw [hnext]
    refine .inr ⟨?_, ?_, by simp, by simp⟩
    · simp only [Conn.occupied, Conn.permitDrop] at hwithin ⊢
      omega
    · show conn.held - 1 = 0
      omega
  | other _ _ queue log hoff =>
    rcases other_permits hmay hoff answer with hsame | ⟨hpermits, hfresh, hclosing⟩
    · rw [hsame]; exact .inr (ho.congr rfl rfl)
    · exact .inr ⟨hwithin, hheld.trans hpermits.symm, fun n hn => absurd hn (hfresh (some n)), hclosing⟩

/-- A turn that is over has used what it claimed. -/
theorem Turn.Occupies.stopped (h : turn.Occupies conn) {flow : ControlFlow} (hstop : stops turn flow) : conn.held = 0 := by
  rw [h.held]
  cases turn with
  | fresh free => rfl
  | replied => rfl
  | closing => rfl
  | acknowledged => rfl
  | _ => exact hstop.elim

/-- Its reader has ended. -/
def Stage.over : Stage → Bool
  | .admitted => false
  | .greeting => false
  | .pumping .ended _ => true
  | .pumping _ _ => false
  | _ => true

theorem Conn.Slotted.of_over (h : conn.stage.over = true) : conn.Slotted := by
  refine ⟨fun hst => ?_, fun writer hst => ?_, fun late turn rest writer hst => ?_⟩
  · rcases hst with hst | hst <;> rw [hst] at h <;> cases h
  · rw [hst] at h; cases h
  · rw [hst] at h; cases h

theorem Conn.Slotted.of_awaiting {writer : Writer} (hst : conn.stage = .pumping .awaiting writer)
    (hwithin : conn.occupied ≤ replyQueueCapacity) (hheld : conn.held = 0) : conn.Slotted := by
  refine ⟨fun h => ?_, fun _ _ => ⟨hwithin, hheld⟩, fun late turn rest writer h => ?_⟩
  · rcases h with h | h <;> rw [hst] at h <;> cases h
  · rw [hst] at h; cases h

/-- A reader put on the rest of its turn. -/
theorem Conn.Slotted.of_turn {registered : RegisteredPeer} {frame : ClientFrame} {late : Bool} {p : Handler ControlFlow}
    {writer : Writer} {standing : Standing} (hst : conn.stage = .pumping (.of late turn p) writer)
    (ho : turn = .closing ∨ turn.Occupies conn) (hobeys : p.Obeys (rules env registered frame) stops turn)
    (hs : Speaks standing p) : conn.Slotted := by
  cases p with
  | call op k =>
    have hbusy : conn.stage = .pumping (.busy late turn (.call op k)) writer := hst
    -- a closing turn makes no call
    have ho : turn.Occupies conn := by
      refine ho.resolve_left fun hclosing => ?_
      rw [hclosing] at hobeys
      exact hobeys.1
    refine ⟨fun h => ?_, fun w h => ?_, fun l u rest w h => ?_⟩
    · rw [hbusy] at h; rcases h with h | h <;> cases h
    · rw [hbusy] at h; cases h
    · rw [hbusy] at h; cases h
      exact ⟨ho, standing, hs⟩
  | done flow =>
    cases flow with
    | breaks => exact .of_over (by rw [hst]; rfl)
    | continues =>
      have hstop : stops turn .continues := hobeys
      have ho : turn.Occupies conn := by
        refine ho.resolve_left fun hclosing => ?_
        rw [hclosing] at hstop
        cases hstop
      exact .of_awaiting hst ho.within (ho.stopped hstop)

/-- The writer takes replies away and puts none in. -/
theorem Conn.Drives.slotted {flag : Bool} {e : RelayEv} (hd : conn.Drives c flag e conn') (h : conn.Slotted) :
    conn'.Slotted := by
  -- the reader is where it was, and no more is occupied
  have hkeep : ∀ {reader writer writer'}, conn.stage = .pumping reader writer → reader.isBusy = false →
      conn'.stage = .pumping reader writer' → conn'.replies.length ≤ conn.replies.length → conn'.held = conn.held →
      conn'.Slotted := by
    intro reader writer writer' hst hb hst' hreplies hheld
    cases reader with
    | awaiting =>
      obtain ⟨hwithin, hnone⟩ := h.awaiting writer hst
      refine .of_awaiting hst' ?_ (hheld.trans hnone)
      simp only [Conn.occupied] at hwithin ⊢
      omega
    | busy late turn rest => cases hb
    | ended => exact .of_over (by rw [hst']; rfl)
  cases hd with
  | greeted hst =>
    obtain ⟨hreplies, hheld⟩ := h.unread (.inr hst)
    refine .of_awaiting rfl ?_ hheld
    simp only [Conn.occupied, hreplies, hheld, List.length_nil]
    omega
  | poll o reader writer writer' hst hb | takeDelivery o reader payload rest hst hb | wrote reader item hst hb
  | cancelled reader item fed hst hb => exact hkeep hst hb rfl (Nat.le_refl _) rfl
  | takeReply o reader reply rest hst hb hr => exact hkeep hst hb rfl (by rw [hr]; exact Nat.le_succ _) rfl
  | _ => exact .of_over rfl

theorem Conn.Moves.slotted {e : RelayEv} (hm : conn.Moves env c e conn') (hk : conn.Keeps env c) (h : conn.Slotted) :
    conn'.Slotted := by
  cases hm with
  | still => exact h
  | given e d =>
    refine ⟨h.unread, h.awaiting, fun late turn rest writer hst => ?_⟩
    obtain ⟨ho, hs⟩ := h.busy late turn rest writer hst
    exact ⟨ho.congr rfl rfl, hs⟩
  | inserted hst =>
    refine ⟨fun _ => h.unread (.inl hst), fun writer h => ?_, fun late turn rest writer h => ?_⟩ <;> cases h
  | drives e flag conn' hd => exact hd.slotted h
  | read branch late writer hst =>
    obtain ⟨hwithin, hheld⟩ := h.awaiting writer hst
    exact .of_turn rfl (.inr ⟨hwithin, hheld, by simp, by simp⟩) (readerTurn_obeys env _ branch)
      (readerTurn_speaks env _ branch)
  | act now order conn' late turn call rest writer answer hst hcalls =>
    obtain ⟨ho, standing, hs⟩ := h.busy late turn _ writer hst
    obtain ⟨hobeys, -⟩ := hk late turn _ writer hst
    refine .of_turn rfl ?_ (hobeys.2 answer) (hs.2 answer)
    exact (hcalls.occupies ho hobeys.1).imp_right fun ho => ho.congr rfl rfl
  | retired e stage _ _ hstage => exact .of_over (by rcases hstage with rfl | rfl <;> rfl)

/-- A reader that has ended does not start again. -/
theorem Conn.Moves.over {e : RelayEv} (hm : conn.Moves env c e conn') (h : conn.stage.over = true) :
    conn'.stage.over = true := by
  have hended : ∀ {reader writer}, conn.stage = .pumping reader writer → reader = .ended := by
    intro reader writer hst
    rw [hst] at h
    cases reader with
    | ended => rfl
    | _ => cases h
  cases hm with
  | still => exact h
  | given => exact h
  | inserted hst => rw [hst] at h; cases h
  | drives e flag conn' hd =>
    cases hd with
    | greeted hst => rw [hst] at h; cases h
    | poll o reader writer writer' hst => cases hended hst; rfl
    | takeReply o reader reply rest hst => cases hended hst; rfl
    | takeDelivery o reader payload rest hst => cases hended hst; rfl
    | wrote reader item hst => cases hended hst; rfl
    | cancelled reader item fed hst => cases hended hst; rfl
    | _ => rfl
  | read branch late writer hst => cases hended hst
  | act now order conn' late turn call rest writer answer hst => cases hended hst
  | retired e stage _ _ hstage => rcases hstage with rfl | rfl <;> rfl

end

/-- Every connection's slots are so. -/
def SlotInv (s : Sys) : Prop := ∀ c conn, s.conns.lookup c = some conn → conn.Slotted

theorem Step.slotted {env : Env} {s t : Sys} {e : RelayEv} (hs : Step env s e t) (hr : RelayInv env s) (h : SlotInv s) :
    SlotInv t := by
  intro c conn' hc
  rcases hs.moves hr hc with ⟨-, name, rfl⟩ | ⟨conn, hconn, hm⟩
  · refine ⟨fun _ => ⟨rfl, rfl⟩, fun writer h => ?_, fun late turn rest writer h => ?_⟩ <;> cases h
  · exact hm.slotted (hr.keeps c conn hconn) (h c conn hconn)

/-! ## What is put into a channel -/

/-- The reader is at a call of `queue_diagnostic`, with this frame. -/
def Conn.Diagnoses (conn : Conn) (frame : ServerFrame) : Prop :=
  ∃ late turn code message rest writer,
    conn.stage = .pumping (.busy late turn (queueDiagnostic code message >>= rest)) writer ∧
      frame = .error code (some (capDiagnostic message)) none

/-- What the handler's next call puts into the reply channel. -/
def Conn.puts (conn : Conn) : Option ServerFrame :=
  match conn.stage with
  | .pumping (.busy _ _ (.call (.trySend frame) _)) _ =>
    match (conn.trySend frame).1 with
    | .ok () => some frame
    | .error _ => none
  | .pumping (.busy _ _ (.call (.permitSend frame) _)) _ => some frame
  | _ => none

/-- What a moment put into the reply channel of connection `c`. -/
def putsInto (c : Nat) (m : Moment Sys RelayEv) : Option ServerFrame :=
  match m.event with
  | .act c' _ _ => if c' = c then (m.before.conns.lookup c).bind Conn.puts else none
  | _ => none

/-- The moment is a call of `queue_diagnostic` by the reader of `c`. -/
def Diagnosed (c : Nat) (m : Moment Sys RelayEv) (frame : ServerFrame) : Prop :=
  (∃ now order, m.event = .act c now order) ∧ ∃ conn, m.before.conns.lookup c = some conn ∧ conn.Diagnoses frame

section
variable {env : Env} {s t : Sys} {c : Nat} {conn conn' : Conn} {frame : ServerFrame} {m : Moment Sys RelayEv}
  {past : List (Moment Sys RelayEv)}

theorem Conn.Diagnoses.not_over (h : conn.Diagnoses frame) : conn.stage.over = false := by
  obtain ⟨late, turn, code, message, rest, writer, hst, -⟩ := h
  rw [hst]; rfl

theorem Conn.not_over_of_puts (h : conn.puts = some frame) : conn.stage.over = false := by
  unfold Conn.puts at h
  split at h
  · rename_i hst; rw [hst]; rfl
  · rename_i hst; rw [hst]; rfl
  · cases h

theorem putsInto_other {e : RelayEv} (h : ∀ now order, e ≠ .act c now order) : putsInto c ⟨s, e⟩ = none := by
  cases e with
  | act c' now order =>
    have hne : c' ≠ c := by
      intro heq
      exact h now order (by rw [heq])
    simp only [putsInto, if_neg hne]
  | _ => rfl

theorem putsInto_act (hc : s.conns.lookup c = some conn) (now : Nat) (order : List Nat) :
    putsInto c ⟨s, .act c now order⟩ = conn.puts := by
  simp only [putsInto, if_true, hc, Option.bind_some]

/-- Only a reader that has not ended puts anything in. -/
theorem not_over_of_putsInto (h : putsInto c m = some frame) :
    ∃ conn, m.before.conns.lookup c = some conn ∧ conn.stage.over = false := by
  unfold putsInto at h
  split at h
  · split at h
    · obtain ⟨conn, hc, hp⟩ := Option.bind_eq_some_iff.mp h
      exact ⟨conn, hc, Conn.not_over_of_puts hp⟩
    · cases h
  · cases h

/-- With no more than the usable depth occupied, a diagnostic has its slot. -/
theorem Conn.Slotted.diagnoses (h : conn.Slotted) (hd : conn.Diagnoses frame) :
    (conn.trySend frame).1 = .ok () ∧ conn.puts = some frame := by
  obtain ⟨late, turn, code, message, rest, writer, hst, rfl⟩ := hd
  obtain ⟨ho, -⟩ := h.busy late turn _ writer hst
  have hwithin := ho.within
  have hroom : conn.capacity ≠ 0 := by
    rw [Conn.capacity_eq]
    simp only [diagnosticReserve]
    omega
  have hpumps : conn.stage.pumps = true := by rw [hst]; rfl
  have hsend : (conn.trySend (.error code (some (capDiagnostic message)) none)).1 = .ok () := by
    simp only [Conn.trySend, hpumps, hroom, Bool.not_true, Bool.false_eq_true, if_false]
  have hputs : conn.puts = match (conn.trySend (.error code (some (capDiagnostic message)) none)).1 with
      | .ok () => some (.error code (some (capDiagnostic message)) none)
      | .error _ => none := by
    unfold Conn.puts
    rw [hst]
    rfl
  rw [hsend] at hputs
  exact ⟨hsend, hputs⟩

/-- And its reader ends with it. -/
theorem Conn.Moves.diagnosed {now : Nat} {order : List Nat} (hm : conn.Moves env c (.act c now order) conn')
    (h : conn.Slotted) (hd : conn.Diagnoses frame) : conn'.stage.over = true := by
  obtain ⟨late, turn, code, message, rest, writer, hst, -⟩ := hd
  obtain ⟨-, standing, hs⟩ := h.busy late turn _ writer hst
  have hbreaks := hs.diagnosed
  cases hm with
  | still _ h => exact absurd rfl (h now order)
  | given _ _ h => exact absurd rfl (h now order)
  | drives _ _ _ hd => cases hd
  | act _ _ conn' late' turn' call rest' writer' answer hst' hcalls =>
    rw [hst] at hst'
    have hprog := (Reader.busy.inj (Stage.pumping.inj hst').1).2.2
    cases hprog
    show (Stage.pumping (.of late' _ (rest ())) writer').over = true
    rw [hbreaks]; rfl
  | retired _ _ h => exact absurd rfl (h now order)

/-- A call puts into the channel what it says, at its end. -/
theorem Calls.puts {late : Bool} {turn : Turn} {call : Call} {rest : call.Answer → Handler ControlFlow} {writer : Writer}
    {answer : call.Answer} (h : Calls conn call answer conn')
    (hst : conn.stage = .pumping (.busy late turn (.call call rest)) writer) :
    conn'.replies.map (·.frame) = conn.replies.map (·.frame) ++ conn.puts.toList := by
  have hpumps : conn.stage.pumps = true := by rw [hst]; rfl
  unfold Conn.puts
  rw [hst]
  cases h with
  | sent frame hfree =>
    simp only [Conn.trySend, hpumps, hfree, Bool.not_true, Bool.false_eq_true, if_false, List.map_append, List.map_cons,
      List.map_nil, Option.toList_some]
  | notSent frame error hfull =>
    simp only [Conn.trySend, hpumps, hfull, Bool.not_true, Bool.false_eq_true, if_false, if_true, Option.toList_none,
      List.append_nil]
  | permitSend frame =>
    simp only [Conn.permitSend, List.map_append, List.map_cons, List.map_nil, Option.toList_some]
  | other _ _ queue log hoff =>
    cases call with
    | trySend frame => cases hoff
    | permitSend frame => cases hoff
    | _ => exact (List.append_nil _).symm
  | _ => exact (List.append_nil _).symm

/-- What is in a channel is the last that was put in. -/
theorem Conn.Moves.channel {e : RelayEv} (hm : conn.Moves env c e conn') (hc : s.conns.lookup c = some conn)
    {puts : List ServerFrame} (h : conn.replies.map (·.frame) <:+ puts) :
    conn'.replies.map (·.frame) <:+ puts ++ (putsInto c ⟨s, e⟩).toList := by
  -- a step that is none of its handler's puts nothing in
  have hother : (∀ now order, e ≠ .act c now order) → conn'.replies <:+ conn.replies →
      conn'.replies.map (·.frame) <:+ puts ++ (putsInto c ⟨s, e⟩).toList := by
    intro he hsuffix
    rw [putsInto_other he, Option.toList_none, List.append_nil]
    exact (hsuffix.map _).trans h
  cases hm with
  | still _ he => exact hother he List.suffix_rfl
  | given _ d he => exact hother he List.suffix_rfl
  | inserted => exact hother (by simp) List.suffix_rfl
  | read => exact hother (by simp) List.suffix_rfl
  | drives _ flag _ hd =>
    refine hother (fun now order he => by subst he; cases hd) ?_
    cases hd with
    | takeReply o reader reply rest _ _ hr => rw [hr]; exact List.suffix_cons reply rest
    | greeted => exact List.suffix_rfl
    | poll => exact List.suffix_rfl
    | takeDelivery => exact List.suffix_rfl
    | wrote => exact List.suffix_rfl
    | cancelled => exact List.suffix_rfl
    | _ => exact List.nil_suffix
  | act now order conn' late turn call rest writer answer hst hcalls =>
    rw [putsInto_act hc]
    show conn'.replies.map (·.frame) <:+ _
    rw [hcalls.puts hst]
    obtain ⟨taken, rfl⟩ := h
    exact ⟨taken, by rw [List.append_assoc]⟩
  | retired _ _ he => exact hother he List.suffix_rfl

/-- What the history of one connection comes to. -/
structure Closings (c : Nat) (s : Sys) (past : List (Moment Sys RelayEv)) : Prop where
  ended : ∀ m ∈ past, ∀ frame, Diagnosed c m frame → ∃ conn, s.conns.lookup c = some conn ∧ conn.stage.over = true
  queued : ∀ m ∈ past, ∀ frame, Diagnosed c m frame → putsInto c m = some frame
  /-- After a diagnostic nothing is put in. -/
  last : Each (fun m older => ∀ n ∈ older, ∀ frame, Diagnosed c n frame →
    putsInto c m = none ∧ ∀ other, ¬ Diagnosed c m other) past
  channel : ∀ conn, s.conns.lookup c = some conn →
    conn.replies.map (·.frame) <:+ (past.filterMap (putsInto c)).reverse

theorem Closings.step {e : RelayEv} (h : Closings c s past) (hs : Step env s e t) (hr : RelayInv env s) (hslots : SlotInv s) :
    Closings c t (⟨s, e⟩ :: past) := by
  -- what a connection of `s` has become
  have hforth : ∀ {conn}, s.conns.lookup c = some conn → ∃ conn', t.conns.lookup c = some conn' ∧ conn.Moves env c e conn' := by
    intro conn hc
    obtain ⟨conn', hc'⟩ := Option.isSome_iff_exists.mp (hs.stays (Option.isSome_iff_exists.mpr ⟨conn, hc⟩))
    rcases hs.moves hr hc' with ⟨hnone, -⟩ | ⟨x, hx, hm⟩
    · rw [hc] at hnone; cases hnone
    · cases hc.symm.trans hx
      exact ⟨conn', hc', hm⟩
  refine ⟨fun m hm frame hd => ?_, fun m hm frame hd => ?_, h.last.cons fun n hn frame hd => ?_, fun conn' hc' => ?_⟩
  · rcases List.mem_cons.mp hm with rfl | hm
    · obtain ⟨⟨now, order, rfl⟩, conn, hc, hdiag⟩ := hd
      obtain ⟨conn', hc', hmoves⟩ := hforth hc
      exact ⟨conn', hc', hmoves.diagnosed (hslots c conn hc) hdiag⟩
    · obtain ⟨conn, hc, hover⟩ := h.ended m hm frame hd
      obtain ⟨conn', hc', hmoves⟩ := hforth hc
      exact ⟨conn', hc', hmoves.over hover⟩
  · rcases List.mem_cons.mp hm with rfl | hm
    · obtain ⟨⟨now, order, rfl⟩, conn, hc, hdiag⟩ := hd
      exact (putsInto_act hc now order).trans ((hslots c conn hc).diagnoses hdiag).2
    · exact h.queued m hm frame hd
  · -- the reader has ended, so this moment is none of its calls
    obtain ⟨conn, hc, hover⟩ := h.ended n hn frame hd
    have hended : ∀ x, s.conns.lookup c = some x → x.stage.over ≠ false := by
      intro x hx hnot
      cases hc.symm.trans hx
      rw [hover] at hnot; cases hnot
    refine ⟨Option.eq_none_iff_forall_ne_some.mpr fun other hput => ?_, fun other hdiag => ?_⟩
    · obtain ⟨x, hx, hnot⟩ := not_over_of_putsInto hput
      exact hended x hx hnot
    · obtain ⟨-, x, hx, hdiag⟩ := hdiag
      exact hended x hx hdiag.not_over
  · have hpast : ((⟨s, e⟩ :: past).filterMap (putsInto c)).reverse =
        (past.filterMap (putsInto c)).reverse ++ (putsInto c ⟨s, e⟩).toList := by
      rw [List.filterMap_cons]
      cases putsInto c ⟨s, e⟩ with
      | none => simp
      | some frame => simp
    rw [hpast]
    rcases hs.moves hr hc' with ⟨-, name, rfl⟩ | ⟨conn, hc, hm⟩
    · exact List.nil_suffix
    · exact hm.channel hc (h.channel conn hc)

/-- The relay with its history. -/
abbrev RelayHistory (env : Env) := Reach (traced (relayStep env)) ({}, []) Always

theorem history_inv (h : RelayHistory env (s, past)) : RelayInv env s ∧ SlotInv s ∧ ∀ c, Closings c s past := by
  have hnone : ∀ {c : Nat} {x : Conn}, ({} : Sys).conns.lookup c ≠ some x := by simp
  refine h.inv (P := fun s => RelayInv env s.1 ∧ SlotInv s.1 ∧ ∀ c, Closings c s.1 s.2)
    ⟨.init, fun _ _ hc => (hnone hc).elim, fun c => ⟨List.forall_mem_nil _, List.forall_mem_nil _, .nil,
      fun _ hc => (hnone hc).elim⟩⟩ ?_
  rintro ⟨s, past⟩ e ⟨t, past'⟩ ⟨hr, hslots, hclosings⟩ - hstep
  obtain ⟨hstep', hpast⟩ := traced_some hstep
  subst hpast
  have hs := relayStep_step hstep'
  exact ⟨hs.relayInv hr, hs.slotted hr hslots, fun c => (hclosings c).step hs hr hslots⟩

/-! ## The diagnostic's slot -/

/-- In every run and of every connection: until its reader ends, the replies queued and the slots
    claimed are within the usable depth; a `queue_diagnostic` finds a slot whenever it is called, and
    after one no frame is put into the channel again, by another or by any reply. What the channel
    holds are the last of the frames put in. -/
theorem the_diagnostic_has_its_slot (h : RelayHistory env (s, past)) (c : Nat) :
    (∀ conn, s.conns.lookup c = some conn →
      (∀ reader writer, conn.stage = .pumping reader writer → reader ≠ .ended → conn.occupied ≤ replyQueueCapacity) ∧
      (∀ frame, conn.Diagnoses frame → (conn.trySend frame).1 = .ok ()) ∧
      conn.replies.map (·.frame) <:+ (past.filterMap (putsInto c)).reverse) ∧
    ∀ newer m older frame, past = newer ++ m :: older → Diagnosed c m frame →
      putsInto c m = some frame ∧ ∀ n ∈ newer, putsInto c n = none ∧ ∀ other, ¬ Diagnosed c n other := by
  obtain ⟨-, hslots, hclosings⟩ := history_inv h
  constructor
  · intro conn hc
    have hslotted := hslots c conn hc
    refine ⟨fun reader writer hst hopen => ?_, fun frame hd => (hslotted.diagnoses hd).1, (hclosings c).channel conn hc⟩
    cases reader with
    | awaiting => exact (hslotted.awaiting writer hst).1
    | busy late turn rest => exact (hslotted.busy late turn rest writer hst).1.within
    | ended => exact absurd rfl hopen
  · intro newer m older frame hpast hd
    have hm : m ∈ past := by rw [hpast]; exact List.mem_append_right _ List.mem_cons_self
    refine ⟨(hclosings c).queued m hm frame hd, fun n hn => ?_⟩
    obtain ⟨newest, between, rfl⟩ := List.append_of_mem hn
    have hsplit : past = newest ++ n :: (between ++ m :: older) := by rw [hpast]; simp
    exact (hclosings c).last newest n _ hsplit m (List.mem_append_right _ List.mem_cons_self) frame hd

end

/-- Eight pongs fill the usable depth, and a send then cannot be acknowledged. -/
def saturating : List RelayEv :=
  joining 1 ["alice"] ++ (List.replicate 8 (reads 1 .ping :: acts 1 2 [])).flatten ++ reads 1 greeting :: acts 1 2 []

def saturated : Sys × List (Moment Sys RelayEv) := (run (traced (relayStep oneByte)) ({}, []) saturating).getD ({}, [])

def unacknowledged : String :=
  "replies are not being drained, so this send cannot be acknowledged; it was not performed"

theorem a_saturated_channel_takes_the_diagnostic :
    RelayHistory oneByte saturated ∧ (∃ alice, saturated.1.conns.lookup 1 = some alice ∧ alice.occupied = 9) ∧
      ∃ m older, saturated.2 = [] ++ m :: older ∧
        Diagnosed 1 m (.error .idleTimeout (some (capDiagnostic unacknowledged)) none) ∧
        putsInto 1 m = some (.error .idleTimeout (some (capDiagnostic unacknowledged)) none) := by
  have hr : RelayHistory oneByte saturated := .of_run saturating .init rfl
  refine ⟨hr, ⟨_, rfl, rfl⟩, _, _, rfl, ?hd, ((the_diagnostic_has_its_slot hr 1).2 [] _ _ _ rfl ?hd).1⟩
  exact ⟨⟨0, [], rfl⟩, _, rfl, false, .fresh (some 1), .idleTimeout, unacknowledged, fun _ => .done .breaks, .top, rfl, rfl⟩

end OmpRelayd.Relay
