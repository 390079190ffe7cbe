/-
  OmpRelayd.Relay.Receipts — what a missing receipt tells the sender.

  A handler claims the slot of a receipt before it routes, so a routed frame always has its
  receipt queued. From there it depends on the writer, and the writer may stop before it gets
  to it: eviction overtakes the replies, a write may fail or be cancelled, the drain after the
  reader's end is bounded, and the task may be dropped. Then the message was delivered and its
  receipt was not (`an_eviction_drops_a_receipt`).

  Proved (`a_missing_receipt_means_no_delivery`): if nothing of this happens while a receipt or
  an `accepted` is on its way to the socket, then a connection that has ended without the
  acknowledgement of a frame put nothing built from that frame into any queue.
-/

import OmpRelayd.Relay.Routing

namespace OmpRelayd.Relay

/-! ## The acknowledgements on their way -/

def isAcknowledgement : ServerFrame → Bool
  | .receipt _ _ _ => true
  | .accepted _ _ _ => true
  | _ => false

def Item.acknowledges : Item → Bool
  | .reply r => isAcknowledgement r.frame
  | _ => false

namespace Conn

def acksQueued (conn : Conn) : Bool := conn.replies.any fun reply => isAcknowledgement reply.frame

def acksBuffered (conn : Conn) : Bool := conn.buffer.any Item.acknowledges

def acksWriting (conn : Conn) : Bool :=
  match conn.stage with
  | .pumping _ (.writing item) => item.acknowledges
  | _ => false

end Conn

/-- The step gives up on an acknowledgement that has not reached the socket. -/
def cutsOff (s : Sys) : RelayEv → Bool
  | .write c outcome => (s.conns.lookup c).any fun conn =>
    match conn.stage, outcome with
    | .pumping _ .starved, .closed => conn.acksQueued
    | .pumping _ (.writing _), .failed => conn.acksWriting || conn.acksQueued
    | .pumping _ (.writing _), .replaced false => conn.acksWriting
    | .pumping _ .replaced, .ok => conn.acksQueued
    | .pumping _ .replaced, _ => conn.acksBuffered || conn.acksQueued
    | _, _ => false
  | .expire c => (s.conns.lookup c).any fun conn => conn.acksWriting || conn.acksBuffered || conn.acksQueued
  | .abort c => (s.conns.lookup c).any fun conn => conn.acksWriting || conn.acksBuffered || conn.acksQueued
  | _ => false

/-- Where the acknowledgement of frame `n` may be. -/
def Conn.Holds (conn : Conn) (reply : Reply) : Prop :=
  reply ∈ conn.replies ∨ (∃ reader, conn.stage = .pumping reader (.writing (.reply reply))) ∨
    .reply reply ∈ conn.buffer ∨ .reply reply ∈ conn.sent

def Conn.Acked (conn : Conn) (n : Nat) : Prop :=
  ∃ frame ack, conn.frame n = some frame ∧ Acknowledges frame ack ∧ isAcknowledgement ack = true ∧ conn.Holds ⟨ack, n⟩

def Turn.effecting : Turn → Bool
  | .fanning _ _ => true
  | .owing _ => true
  | _ => false

/-- The frame is being handled, and its acknowledgement is due. -/
def Conn.Underway (conn : Conn) (n : Nat) : Prop :=
  conn.seq = n ∧ ∃ late turn rest writer, conn.stage = .pumping (.busy late turn rest) writer ∧ turn.effecting = true

structure ReceiptInv (s : Sys) : Prop where
  answered : ∀ o r, s.conns.lookup o = some r → ∀ d ∈ r.log, ∀ conn, s.conns.lookup d.sender = some conn →
    conn.Underway d.seq ∨ conn.Acked d.seq
  /-- Only a cancelled write leaves something in the codec's buffer. -/
  buffers : ∀ c conn, s.conns.lookup c = some conn → conn.buffer = [] ∨ ∃ reader, conn.stage = .pumping reader .replaced
  replies : ∀ c conn, s.conns.lookup c = some conn → conn.stage.pumps = false → conn.replies = []

variable {env : Env} {s t : Sys} {c n : Nat} {conn conn' : Conn}

/-! ## The writer's steps -/

theorem Conn.Acked.of (h : conn.Acked n) (hturns : conn.turns <+: conn'.turns)
    (hholds : ∀ ack, isAcknowledgement ack = true → conn.Holds ⟨ack, n⟩ → conn'.Holds ⟨ack, n⟩) : conn'.Acked n := by
  obtain ⟨frame, ack, hframe, hack, his, hh⟩ := h
  exact ⟨frame, ack, Conn.frame_mono hturns hframe, hack, his, hholds ack his hh⟩

section
variable {ack : ServerFrame}

theorem not_mem_replies (h : conn.acksQueued = false) (hack : isAcknowledgement ack = true) (n : Nat) :
    ⟨ack, n⟩ ∉ conn.replies := by
  intro hmem
  have := List.any_eq_false.mp h _ hmem
  exact this hack

theorem not_mem_buffer (h : conn.acksBuffered = false) (hack : isAcknowledgement ack = true) (n : Nat) :
    .reply ⟨ack, n⟩ ∉ conn.buffer := by
  intro hmem
  have := List.any_eq_false.mp h _ hmem
  exact this hack

theorem not_writing (h : conn.acksWriting = false) (hack : isAcknowledgement ack = true) (n : Nat) (reader : Reader) :
    conn.stage ≠ .pumping reader (.writing (.reply ⟨ack, n⟩)) := by
  intro hst
  simp only [Conn.acksWriting, hst] at h
  exact Bool.false_ne_true (h.symm.trans hack)

/-- What a connection that ends still holds is what was sent. -/
theorem Conn.Holds.close {reply : Reply} (h : conn.Holds reply) (hr : reply ∉ conn.replies)
    (hw : ∀ reader, conn.stage ≠ .pumping reader (.writing (.reply reply))) (hb : .reply reply ∉ conn.buffer) :
    .reply reply ∈ conn.sent := by
  rcases h with h | ⟨reader, h⟩ | h | h
  · exact absurd h hr
  · exact absurd h (hw reader)
  · exact absurd h hb
  · exact h

theorem Conn.close_holds {reply : Reply} (h : .reply reply ∈ conn.sent) : conn.close.Holds reply := .inr (.inr (.inr h))

end

/-- Nothing on its way is lost by a step of the connection's own task that does not cut it off. -/
theorem Conn.Drives.holds {flag : Bool} {e : RelayEv} (hd : conn.Drives c flag e conn')
    (hc : s.conns.lookup c = some conn) (hok : cutsOff s e = false)
    (hbuffer : conn.buffer = [] ∨ ∃ reader, conn.stage = .pumping reader .replaced)
    (hreplies : conn.stage.pumps = false → conn.replies = []) {ack : ServerFrame} (hack : isAcknowledgement ack = true)
    (h : conn.Holds ⟨ack, n⟩) : conn'.Holds ⟨ack, n⟩ := by
  -- outside `replaced` the codec's buffer is empty
  have hnobuf : (∀ reader, conn.stage ≠ .pumping reader .replaced) → .reply ⟨ack, n⟩ ∉ conn.buffer := by
    intro hst hmem
    rcases hbuffer with hb | ⟨reader, hr⟩
    · rw [hb] at hmem; exact List.not_mem_nil hmem
    · exact hst reader hr
  cases hd with
  | greeted hst =>
    rcases h with h | ⟨reader, h⟩ | h | h
    · exact .inl h
    · rw [hst] at h; cases h
    · exact .inr (.inr (.inl h))
    · exact .inr (.inr (.inr (List.mem_append_left _ h)))
  | unready hst =>
    refine Conn.close_holds (h.close ?_ (fun reader => by rw [hst]; simp) (hnobuf fun reader => by rw [hst]; simp))
    rw [hreplies (by rw [hst]; rfl)]; exact List.not_mem_nil
  | poll o reader writer writer' hst hb hw =>
    rcases h with h | ⟨reader', h⟩ | h | h
    · exact .inl h
    · rw [hst] at h
      exact absurd (Stage.pumping.inj h).2 (hw _).1
    · exact .inr (.inr (.inl h))
    · exact .inr (.inr (.inr h))
  | takeReply o reader reply rest hst hb hr =>
    rcases h with h | ⟨reader', h⟩ | h | h
    · rw [hr] at h
      rcases List.mem_cons.mp h with rfl | h
      · exact .inr (.inl ⟨reader, rfl⟩)
      · exact .inl h
    · rw [hst] at h; cases h
    · exact .inr (.inr (.inl h))
    · exact .inr (.inr (.inr h))
  | takeDelivery o reader payload rest hst =>
    rcases h with h | ⟨reader', h⟩ | h | h
    · exact .inl h
    · rw [hst] at h; cases h
    · exact .inr (.inr (.inl h))
    · exact .inr (.inr (.inr h))
  | wrote reader item hst =>
    rcases h with h | ⟨reader', h⟩ | h | h
    · exact .inl h
    · rw [hst] at h
      cases (Stage.pumping.inj h).2
      exact .inr (.inr (.inr (List.mem_append_right _ (List.mem_singleton.mpr rfl))))
    · exact .inr (.inr (.inr (List.mem_append_left _ (List.mem_append_right _ h))))
    · exact .inr (.inr (.inr (List.mem_append_left _ (List.mem_append_left _ h))))
  | cancelled reader item fed hst =>
    rcases h with h | ⟨reader', h⟩ | h | h
    · exact .inl h
    · cases fed with
      | true =>
        rw [hst] at h
        cases (Stage.pumping.inj h).2
        exact .inr (.inr (.inl (List.mem_append_right _ (List.mem_singleton.mpr rfl))))
      | false =>
        simp only [cutsOff, hc, Option.any_some, hst] at hok
        exact absurd h (not_writing hok hack n reader')
    · refine .inr (.inr (.inl ?_))
      cases fed with
      | true => exact List.mem_append_left _ h
      | false => exact h
    · exact .inr (.inr (.inr h))
  | drained o hst hr =>
    refine Conn.close_holds (h.close ?_ (fun reader => by rw [hst]; simp) (hnobuf fun reader => by rw [hst]; simp))
    rw [hr]; exact List.not_mem_nil
  | unsent reader hst =>
    simp only [cutsOff, hc, Option.any_some, hst] at hok
    exact Conn.close_holds (h.close (not_mem_replies hok hack n) (fun reader => by rw [hst]; simp)
      (hnobuf fun reader => by rw [hst]; simp))
  | failed reader item hst =>
    simp only [cutsOff, hc, Option.any_some, hst, Bool.or_eq_false_iff] at hok
    exact Conn.close_holds (h.close (not_mem_replies hok.2 hack n) (not_writing hok.1 hack n)
      (hnobuf fun reader => by rw [hst]; simp))
  | told reader hst =>
    simp only [cutsOff, hc, Option.any_some, hst] at hok
    refine Conn.close_holds (List.mem_append_left _ ?_)
    rcases h with h | ⟨reader', h⟩ | h | h
    · exact absurd h (not_mem_replies hok hack n)
    · rw [hst] at h; cases h
    · exact List.mem_append_right _ h
    · exact List.mem_append_left _ h
  | untold o reader hst hb ho =>
    have hok : (conn.acksBuffered || conn.acksQueued) = false := by
      simp only [cutsOff, hc, Option.any_some, hst] at hok
      cases o with
      | ok => exact absurd rfl ho
      | _ => exact hok
    obtain ⟨hok₁, hok₂⟩ := Bool.or_eq_false_iff.mp hok
    exact Conn.close_holds (h.close (not_mem_replies hok₂ hack n) (fun reader => by rw [hst]; simp)
      (not_mem_buffer hok₁ hack n))
  | expired writer hst | aborted hst =>
    simp only [cutsOff, hc, Option.any_some, Bool.or_eq_false_iff] at hok
    exact Conn.close_holds (h.close (not_mem_replies hok.2 hack n) (not_writing hok.1.1 hack n)
      (not_mem_buffer hok.1.2 hack n))

/-! ## The reader's -/

theorem ReceiptInv.put (h : ReceiptInv s) (hc : s.conns.lookup c = some conn) (hlog : conn'.log = conn.log)
    (hanswered : ∀ n, conn.Underway n ∨ conn.Acked n → conn'.Underway n ∨ conn'.Acked n)
    (hbuffer : conn'.buffer = [] ∨ ∃ reader, conn'.stage = .pumping reader .replaced)
    (hreplies : conn'.stage.pumps = false → conn'.replies = []) : ReceiptInv (s.put c conn') := by
  refine ⟨fun o r ho d hd x hx => ?_, fun j x hj => ?_, fun j x hj => ?_⟩
  · have hold : ∃ r₀, s.conns.lookup o = some r₀ ∧ d ∈ r₀.log := by
      rcases Sys.lookup_put_some ho with ⟨rfl, rfl⟩ | ⟨-, ho⟩
      · exact ⟨conn, hc, hlog ▸ hd⟩
      · exact ⟨r, ho, hd⟩
    obtain ⟨r₀, hr₀, hd⟩ := hold
    rcases Sys.lookup_put_some hx with ⟨hs, rfl⟩ | ⟨-, hx⟩
    · exact hanswered d.seq (h.answered o r₀ hr₀ d hd conn (hs ▸ hc))
    · exact h.answered o r₀ hr₀ d hd x hx
  · rcases Sys.lookup_put_some hj with ⟨rfl, rfl⟩ | ⟨-, hj⟩
    · exact hbuffer
    · exact h.buffers j x hj
  · rcases Sys.lookup_put_some hj with ⟨rfl, rfl⟩ | ⟨-, hj⟩
    · exact hreplies
    · exact h.replies j x hj

/-- A connection that is not pumped goes from one stage to another. -/
theorem ReceiptInv.restage (h : ReceiptInv s) (hc : s.conns.lookup c = some conn) (hst : conn.stage.pumps = false)
    (stage : Stage) : ReceiptInv (s.put c { conn with stage := stage }) := by
  have hnot : ∀ reader writer, conn.stage ≠ .pumping reader writer := by
    intro reader writer hp
    rw [hp] at hst; cases hst
  refine h.put hc rfl (fun n hn => ?_) ?_ fun _ => h.replies c conn hc hst
  · rcases hn with ⟨-, late, turn, rest, writer, hp, -⟩ | hn
    · exact absurd hp (hnot _ _)
    · refine .inr (hn.of List.prefix_rfl fun ack hack hh => ?_)
      rcases hh with hh | ⟨reader, hh⟩ | hh | hh
      · exact .inl hh
      · exact absurd hh (hnot _ _)
      · exact .inr (.inr (.inl hh))
      · exact .inr (.inr (.inr hh))
  · rcases h.buffers c conn hc with hb | ⟨reader, hb⟩
    · exact .inl hb
    · exact absurd hb (hnot _ _)

theorem ReceiptInv.congr (h : ReceiptInv s) (hc : t.conns = s.conns) : ReceiptInv t := by
  cases s; cases t; cases hc
  exact ⟨h.answered, h.buffers, h.replies⟩

theorem ReceiptInv.drive (h : ReceiptInv s) (hc : s.conns.lookup c = some conn) {flag : Bool} {e : RelayEv}
    (hd : conn.Drives c flag e conn') (hok : cutsOff s e = false) : ReceiptInv (s.put c conn') := by
  refine h.put hc hd.kept.log (fun n hn => ?_) ?_ fun hp => ?_
  · rcases hn with ⟨-, late, turn, rest, writer, hst, -⟩ | hn
    · -- a handler is not interrupted by its own task
      have hidle := hd.idle
      rw [hst] at hidle; cases hidle
    · exact .inr (hn.of (hd.kept.turns ▸ List.prefix_rfl) fun ack hack =>
        hd.holds hc hok (h.buffers c conn hc) (h.replies c conn hc) hack)
  · have hb := h.buffers c conn hc
    have hempty : (∀ reader, conn.stage ≠ .pumping reader .replaced) → conn.buffer = [] := fun hst =>
      hb.resolve_right fun ⟨reader, hr⟩ => hst reader hr
    cases hd with
    | greeted hst | takeReply o reader reply rest hst | takeDelivery o reader payload rest hst =>
      exact .inl (hempty fun reader => by rw [hst]; simp)
    | poll o reader writer writer' hst _ _ hw =>
      refine .inl (hempty fun reader' hr => ?_)
      rw [hst] at hr
      exact hw (Stage.pumping.inj hr).2
    | wrote => exact .inl rfl
    | cancelled reader => exact .inr ⟨reader, rfl⟩
    | _ => exact .inl rfl
  · cases hd with
    | greeted => cases hp
    | poll => cases hp
    | takeReply => cases hp
    | takeDelivery => cases hp
    | wrote => cases hp
    | cancelled => cases hp
    | _ => rfl

theorem ReceiptInv.read (h : ReceiptInv s) (hc : s.conns.lookup c = some conn) {writer : Writer}
    (hst : conn.stage = .pumping .awaiting writer) (branch : Branch) (reader : Reader) :
    ReceiptInv (s.put c { conn with turns := conn.turns ++ [branch], stage := .pumping reader writer }) := by
  refine h.put hc rfl (fun n hn => ?_) ?_ fun hp => by cases hp
  · rcases hn with ⟨-, late, turn, rest, writer', hbusy, -⟩ | hn
    · rw [hst] at hbusy; cases hbusy
    · refine .inr (hn.of (List.prefix_append _ _) fun ack hack hh => ?_)
      rcases hh with hh | ⟨reader', hh⟩ | hh | hh
      · exact .inl hh
      · rw [hst] at hh
        exact .inr (.inl ⟨reader, by rw [(Stage.pumping.inj hh).2]⟩)
      · exact .inr (.inr (.inl hh))
      · exact .inr (.inr (.inr hh))
  · refine (h.buffers c conn hc).imp_right fun ⟨reader', hr⟩ => ⟨reader, ?_⟩
    rw [hst] at hr
    rw [(Stage.pumping.inj hr).2]

/-- While an acknowledgement is due, its handler is not done. -/
theorem Reader.of_effecting {R : Prog.Rules Call Call.Answer Turn} {turn : Turn} {p : Handler ControlFlow}
    (h : p.Obeys R stops turn) (heff : turn.effecting = true) (late : Bool) :
    Reader.of late turn p = .busy late turn p := by
  cases p with
  | call op k => rfl
  | done flow =>
    cases turn with
    | fanning todo counts => exact h.elim
    | owing ack => exact h.elim
    | _ => cases heff

theorem isAcknowledgement_of {peer : String} {frame : ClientFrame} {payload : Bytes} {ack : ServerFrame}
    (hp : delivery env peer frame = some payload) (h : Acknowledges frame ack) : isAcknowledgement ack = true := by
  rcases delivery_some hp with ⟨id, target, body, replyTo, attachment, rfl, -⟩ | ⟨id, body, replyTo, attachment, rfl, -⟩
  · cases ack with
    | receipt => rfl
    | _ => exact h.elim
  · cases ack with
    | accepted => rfl
    | _ => exact h.elim

section
variable {now : Nat} {turn : Turn} {call : Call} {answer : call.Answer}

/-- An effect that was under way and is no longer has just been acknowledged. -/
theorem Turn.effecting_over (heff : turn.effecting = true)
    (hmay : mayCall env (registeredPeer c conn) conn.current turn call) (hfits : turn.Fits conn.current)
    (hover : (nextTurn conn.current turn call answer).effecting = false) :
    ∃ ack, call = .permitSend ack ∧ Acknowledges conn.current ack := by
  cases turn with
  | owing ack => exact ⟨ack, hmay, hfits⟩
  | fanning todo counts =>
    cases todo with
    | nil =>
      obtain ⟨id, body, replyTo, attachment, hframe⟩ := hfits
      refine ⟨_, hmay, ?_⟩
      rw [hframe]; rfl
    | cons o todo =>
      cases call with
      | enqueue outbound payload => cases hover
      | _ => exact hmay.elim
  | _ => cases heff

/-- A payload is enqueued only where an acknowledgement is then due. -/
theorem Turn.enqueue_effecting {o : Nat} {payload : Bytes} {status : ReceiptStatus}
    (hmay : mayCall env (registeredPeer c conn) conn.current turn (.enqueue o payload)) :
    (nextTurn conn.current turn (.enqueue o payload) status).effecting = true := by
  cases turn with
  | routing target => rfl
  | fanning todo counts =>
    cases todo with
    | nil => cases hmay
    | cons target todo => rfl
  | owing ack => cases hmay
  | _ => exact hmay.elim

/-- A log entry found after a call was there before, or is the payload just enqueued. -/
theorem Answers.logged (ha : Answers s c conn now call answer t) (hc : s.conns.lookup c = some conn) {o : Nat} {r : Conn}
    (ho : t.conns.lookup o = some r) {d : Delivery} (hd : d ∈ r.log) :
    (∃ r₀, s.conns.lookup o = some r₀ ∧ d ∈ r₀.log) ∨
      ∃ payload, call = .enqueue o payload ∧ d = ⟨c, conn.seq, payload⟩ := by
  rcases ha.given_or_later hc with hl | ⟨o', payload, target, rfl, ho', rfl⟩
  · rcases hl.back o r ho with ⟨r₀, hr₀, hlater⟩ | ⟨hnil, -⟩
    · exact .inl ⟨r₀, hr₀, hlater.log ▸ hd⟩
    · rw [hnil] at hd; exact (List.not_mem_nil hd).elim
  · rcases mem_log_put_given ho' ho hd with ⟨rfl, rfl⟩ | hold
    · exact .inr ⟨payload, rfl, rfl⟩
    · exact .inl hold

/-- After a call, everything its own connection has in the logs is acknowledged or under way. -/
theorem ReceiptInv.own (h : ReceiptInv s) (hg : LogInv env s) (hc : s.conns.lookup c = some conn) {late : Bool}
    {rest : call.Answer → Handler ControlFlow} {writer : Writer}
    (hst : conn.stage = .pumping (.busy late turn (.call call rest)) writer)
    (hobeys : (Prog.call call rest : Handler ControlFlow).Obeys (rules env (registeredPeer c conn) conn.current) stops turn)
    (hfits : turn.Fits conn.current) (ha : Answers s c conn now call answer t) {final : Conn}
    (hturns : final.turns = conn.turns) (hkept : ∀ n, conn.Acked n → final.Acked n)
    (hstage : final.stage = .pumping (.of late (nextTurn conn.current turn call answer) (rest answer)) writer)
    (hsent : ∀ ack, call = .permitSend ack → ⟨ack, conn.seq⟩ ∈ final.replies) {o : Nat} {r : Conn}
    (ho : t.conns.lookup o = some r) {d : Delivery} (hd : d ∈ r.log) (hsender : d.sender = c) :
    final.Underway d.seq ∨ final.Acked d.seq := by
  obtain ⟨hmay, hnext⟩ := hobeys.answer answer
  have hseq : final.seq = conn.seq := congrArg List.length hturns
  -- what was there before is acknowledged, if it is not the frame being handled
  have hbefore : ∀ {r₀}, s.conns.lookup o = some r₀ → d ∈ r₀.log → (conn.seq ≠ d.seq ∨ turn.effecting = false) →
      final.Acked d.seq := by
    intro r₀ hr₀ hd₀ hnot
    rcases h.answered o r₀ hr₀ d hd₀ conn (hsender ▸ hc) with ⟨hn, late', turn', rest', writer', hst', heff⟩ | hacked
    · rw [hst] at hst'
      cases hst'
      rcases hnot with hnot | hnot
      · exact absurd hn hnot
      · rw [heff] at hnot; cases hnot
    · exact hkept d.seq hacked
  cases heff' : (nextTurn conn.current turn call answer).effecting with
  | true =>
    by_cases hn : conn.seq = d.seq
    · have hbusy := Reader.of_effecting hnext heff' late
      exact .inl ⟨hseq.trans hn, late, _, rest answer, writer, hstage.trans (congrArg (Stage.pumping · writer) hbusy), heff'⟩
    · rcases ha.logged hc ho hd with ⟨r₀, hr₀, hd₀⟩ | ⟨payload, -, rfl⟩
      · exact .inr (hbefore hr₀ hd₀ (.inl hn))
      · exact absurd rfl hn
  | false =>
    cases heff : turn.effecting with
    | false =>
      rcases ha.logged hc ho hd with ⟨r₀, hr₀, hd₀⟩ | ⟨payload, rfl, -⟩
      · exact .inr (hbefore hr₀ hd₀ (.inr heff))
      · rw [Turn.enqueue_effecting hmay] at heff'; cases heff'
    | true =>
      obtain ⟨ack, hcall, hack⟩ := Turn.effecting_over heff hmay hfits heff'
      rcases ha.logged hc ho hd with ⟨r₀, hr₀, hd₀⟩ | ⟨payload, hcall', -⟩
      · by_cases hn : conn.seq = d.seq
        · -- this is the acknowledgement that was due
          obtain ⟨sender, frame, hs, -, -, hframe, hpayload, -⟩ := hg.authentic o r₀ hr₀ d hd₀
          rw [hsender] at hs
          cases hc.symm.trans hs
          have hcurrent : conn.current = frame := by rw [Conn.current, hn, hframe]; rfl
          rw [hcurrent] at hack
          refine .inr ⟨frame, ack, ?_, hack, isAcknowledgement_of hpayload hack, .inl (hn ▸ hsent ack hcall)⟩
          exact Conn.frame_mono (hturns ▸ List.prefix_rfl) hframe
        · exact .inr (hbefore hr₀ hd₀ (.inl hn))
      · rw [hcall] at hcall'; cases hcall'

end

theorem ReceiptInv.act (h : ReceiptInv s) (hr : RelayInv env s) (hg : LogInv env s) (hc : s.conns.lookup c = some conn)
    {late : Bool} {turn : Turn} {now : Nat} {call : Call} {rest : call.Answer → Handler ControlFlow} {writer : Writer}
    (hst : conn.stage = .pumping (.busy late turn (.call call rest)) writer) {answer : call.Answer}
    (ha : Answers s c conn now call answer t) (hc' : t.conns.lookup c = some conn') :
    ReceiptInv (t.put c { conn' with
      stage := .pumping (.of late (nextTurn conn.current turn call answer) (rest answer)) writer }) := by
  obtain ⟨hobeys, hfits⟩ := hr.keeps c conn hc late turn _ writer hst
  obtain ⟨x, hx, -, -, hturns⟩ := ha.find hc hc'
  cases hc.symm.trans hx
  obtain ⟨⟨more, hmore⟩, hbuffer, hsent⟩ := ha.own hc hc'
  -- what was on its way is still on its way
  have hkept : ∀ n, conn.Acked n → ({ conn' with
      stage := .pumping (.of late (nextTurn conn.current turn call answer) (rest answer)) writer } : Conn).Acked n := by
    intro n hn
    refine hn.of (show conn.turns <+: conn'.turns from hturns ▸ List.prefix_rfl) fun ack hack hh => ?_
    rcases hh with hh | ⟨reader, hh⟩ | hh | hh
    · exact .inl (hmore ▸ List.mem_append_left _ hh)
    · rw [hst] at hh
      exact .inr (.inl ⟨_, by rw [(Stage.pumping.inj hh).2]⟩)
    · exact .inr (.inr (.inl (hbuffer ▸ hh)))
    · exact .inr (.inr (.inr (hsent ▸ hh)))
  have hnew : ∀ ack, call = .permitSend ack → ⟨ack, conn.seq⟩ ∈ conn'.replies := by
    rintro ack rfl
    cases ha
    rw [Sys.lookup_put, if_pos rfl] at hc'
    cases hc'
    exact List.mem_append_right _ (List.mem_singleton.mpr rfl)
  refine ⟨fun o r ho d hd y hy => ?_, fun j y hy => ?_, fun j y hy => ?_⟩
  · have ho' : ∃ r', t.conns.lookup o = some r' ∧ d ∈ r'.log := by
      rcases Sys.lookup_put_some ho with ⟨rfl, rfl⟩ | ⟨-, ho⟩
      · exact ⟨conn', hc', hd⟩
      · exact ⟨r, ho, hd⟩
    obtain ⟨r', ho', hd'⟩ := ho'
    rcases Sys.lookup_put_some hy with ⟨hs, rfl⟩ | ⟨hs, hy⟩
    · exact h.own hg hc hst hobeys hfits ha (by exact hturns) hkept rfl hnew ho' hd' hs
    · obtain ⟨y₀, hy₀, hsame⟩ := ha.others hs hy
      rcases ha.logged hc ho' hd' with ⟨r₀, hr₀, hd₀⟩ | ⟨payload, -, rfl⟩
      · have hold := h.answered o r₀ hr₀ d hd₀ y₀ hy₀
        rcases hsame with rfl | ⟨d', rfl⟩ <;> exact hold
      · exact absurd rfl hs
  · rcases Sys.lookup_put_some hy with ⟨rfl, rfl⟩ | ⟨hs, hy⟩
    · rcases h.buffers j conn hc with hb | ⟨reader, hb⟩
      · exact .inl (hbuffer.trans hb)
      · rw [hst] at hb
        cases (Stage.pumping.inj hb).2
        exact .inr ⟨_, rfl⟩
    · obtain ⟨y₀, hy₀, hsame⟩ := ha.others hs hy
      have hold := h.buffers j y₀ hy₀
      rcases hsame with rfl | ⟨d', rfl⟩ <;> exact hold
  · rcases Sys.lookup_put_some hy with ⟨rfl, rfl⟩ | ⟨hs, hy⟩
    · intro hp; cases hp
    · obtain ⟨y₀, hy₀, hsame⟩ := ha.others hs hy
      have hold := h.replies j y₀ hy₀
      rcases hsame with rfl | ⟨d', rfl⟩ <;> exact hold

theorem ReceiptInv.hello (h : ReceiptInv s) (hr : RelayInv env s) (hg : LogInv env s) (name : Name) :
    ReceiptInv (s.put s.registry.nextConnectionId { name := name }) := by
  refine ⟨fun o r ho d hd x hx => ?_, fun j x hj => ?_, fun j x hj => ?_⟩
  · rcases Sys.lookup_put_some ho with ⟨rfl, rfl⟩ | ⟨-, ho⟩
    · exact (List.not_mem_nil hd).elim
    · -- whoever is in a log was there before
      obtain ⟨sender, -, hs, -⟩ := hg.authentic o r ho d hd
      rw [Sys.lookup_put, if_neg (Nat.ne_of_lt (hr.below d.sender sender hs))] at hx
      exact h.answered o r ho d hd x hx
  · rcases Sys.lookup_put_some hj with ⟨rfl, rfl⟩ | ⟨-, hj⟩
    · exact .inl rfl
    · exact h.buffers j x hj
  · rcases Sys.lookup_put_some hj with ⟨rfl, rfl⟩ | ⟨-, hj⟩
    · exact fun _ => rfl
    · exact h.replies j x hj

theorem Step.receipts {e : RelayEv} (hs : Step env s e t) (hr : RelayInv env s) (hg : LogInv env s)
    (hok : cutsOff s e = false) (h : ReceiptInv s) : ReceiptInv t := by
  cases hs with
  | hello frame name hadm => exact (h.hello hr hg name).congr rfl
  | insert c conn registry hc hreg =>
    obtain ⟨name, hd, -⟩ := Option.map_eq_some_iff.mp hreg
    obtain ⟨x, hx, -, hst⟩ := hr.drawn c name hd
    cases hc.symm.trans hx
    exact (h.restage hc (by rw [hst]; rfl) .greeting).congr rfl
  | drive e c conn conn' hc hd => exact h.drive hc hd hok
  | read c branch conn writer hc hst hb => exact h.read hc hst branch _
  | act c now order conn conn' late turn call rest writer answer s' hc hst ha hc' =>
    exact h.act hr hg hc hst (answer_answers hc ha) hc'
  | drop c conn registry hc hst hreg => exact (h.restage hc (by rw [hst]; rfl) _).congr rfl
  | forget c conn hc hst => exact (h.restage hc (by rw [hst]; rfl) .gone).congr rfl
  | transfer e store => exact h.congr rfl
  | shutdown => exact h.congr rfl

theorem receipt_inv (h : RelayReach env (fun s e => cutsOff s e = false) s) : ReceiptInv s := by
  have hnone : ∀ {c : Nat} {x : Conn}, ({} : Sys).conns.lookup c ≠ some x := by simp
  exact (h.inv (P := fun s => RelayInv env s ∧ RoutingInv env s ∧ ReceiptInv s)
    ⟨.init, .init, fun _ _ h => (hnone h).elim, fun _ _ h => (hnone h).elim, fun _ _ h => (hnone h).elim⟩
    fun _ _ _ hi hok hs => ⟨(relayStep_step hs).relayInv hi.1, (relayStep_step hs).routing hi.1 hi.2.1,
      (relayStep_step hs).receipts hi.1 hi.2.1.log hok hi.2.2⟩).2.2

theorem a_missing_receipt_means_no_delivery {env : Env} {s : Sys} (h : RelayReach env (fun s e => cutsOff s e = false) s)
    {c n : Nat} {conn : Conn} {frame : ClientFrame} (hc : s.conns.lookup c = some conn)
    (hended : conn.stage.receives = false) (hframe : conn.frame n = some frame)
    (hmissing : ∀ ack, Acknowledges frame ack → .reply ⟨ack, n⟩ ∉ conn.sent) :
    ∀ o r, s.conns.lookup o = some r → ∀ d ∈ r.log, ¬ (d.sender = c ∧ d.seq = n) := by
  rintro o r ho d hd ⟨rfl, rfl⟩
  have hi := receipt_inv h
  have hnot : ∀ reader writer, conn.stage ≠ .pumping reader writer := by
    intro reader writer hst
    rw [hst] at hended; cases hended
  have hbuffer : conn.buffer = [] :=
    (hi.buffers d.sender conn hc).resolve_right fun ⟨reader, hst⟩ => hnot reader .replaced hst
  have hreplies : conn.replies = [] := by
    refine hi.replies d.sender conn hc ?_
    cases hst : conn.stage with
    | pumping reader writer => exact absurd hst (hnot reader writer)
    | _ => rfl
  rcases hi.answered o r ho d hd conn hc with ⟨-, late, turn, rest, writer, hst, -⟩ | ⟨frame', ack, hf, hack, -, hh⟩
  · exact hnot _ _ hst
  · cases hframe.symm.trans hf
    refine hmissing ack hack (hh.close ?_ (fun reader => hnot _ _) ?_)
    · rw [hreplies]; exact List.not_mem_nil
    · rw [hbuffer]; exact List.not_mem_nil

/-! ## When it is cut off -/

/-- Alice's greeting is routed and its receipt queued; another connection takes her name, and
    the writer sees that first. -/
def overtaken : List RelayEv :=
  joining 1 ["alice", "bob"] ++ reads 1 greeting :: acts 1 5 [] ++ joining 3 ["alice"] ++
    [.write 1 .ok, .write 1 .ok]

def overtakenEnd : Sys := (run (relayStep oneByte) {} overtaken).getD {}

theorem an_eviction_drops_a_receipt :
    RelayReach oneByte Always overtakenEnd ∧ ∃ alice bob, overtakenEnd.conns.lookup 1 = some alice ∧
      overtakenEnd.conns.lookup 2 = some bob ∧ alice.stage.receives = false ∧ alice.frame 1 = some greeting ∧
      (∀ ack, Acknowledges greeting ack → .reply ⟨ack, 1⟩ ∉ alice.sent) ∧ bob.log = [⟨1, 1, [0]⟩] := by
  refine ⟨.of_run overtaken .init rfl, _, _, rfl, rfl, rfl, rfl, fun ack hack hmem => ?_, rfl⟩
  -- the socket got `ready` and the reason it was closed for
  have hsent : (Item.reply ⟨ack, 1⟩) ∈ [Item.plain (.ready protocolVersion), Item.plain replacedDiagnostic] := hmem
  simp at hsent

/-- The receipt is written, another frame is refused for its id, and alice hangs up. -/
def drained : List RelayEv :=
  joining 1 ["alice", "bob"] ++ reads 1 greeting :: acts 1 5 [] ++ List.replicate 3 (.write 1 .ok) ++
    reads 1 (.send "" "bob" "again" none none) :: acts 1 2 [] ++ List.replicate 3 (.write 1 .ok) ++
    [.read 1 (.inbound .ended), .write 1 .ok, .write 1 .ok]

def drainedEnd : Sys := (run (relayStep oneByte) {} drained).getD {}

theorem a_missing_receipt_means_no_delivery_sample :
    RelayReach oneByte (fun s e => cutsOff s e = false) drainedEnd ∧ ∃ alice bob, drainedEnd.conns.lookup 1 = some alice ∧
      drainedEnd.conns.lookup 2 = some bob ∧ alice.stage.receives = false ∧
      Item.reply ⟨.receipt "m-1" "bob" .routed, 1⟩ ∈ alice.sent ∧ bob.log = [⟨1, 1, [0]⟩] ∧
      ∀ d ∈ bob.log, ¬ (d.sender = 1 ∧ d.seq = 2) := by
  have hr : RelayReach oneByte (fun s e => cutsOff s e = false) drainedEnd :=
    .of_runIf (fun s e => !cutsOff s e) (fun _ _ => (Bool.not_eq_true' _).mp) drained .init rfl
  refine ⟨hr, _, _, rfl, rfl, rfl, List.mem_cons_of_mem _ (List.mem_cons_self ..), rfl, ?_⟩
  refine a_missing_receipt_means_no_delivery (c := 1) (n := 2) hr rfl rfl rfl ?_ 2 _ rfl
  -- the second frame was answered with an error
  intro ack hack hmem
  have hsent : Item.reply ⟨ack, 2⟩ ∈ [Item.plain (.ready protocolVersion), .reply ⟨.receipt "m-1" "bob" .routed, 1⟩,
    .reply ⟨.error .invalidIdentifier (some _) none, 2⟩] := hmem
  simp only [List.mem_cons, List.not_mem_nil, reduceCtorEq, Item.reply.injEq, Reply.mk.injEq, or_false, false_or] at hsent
  rcases hsent with ⟨-, hn⟩ | ⟨rfl, -⟩
  · cases hn
  · exact hack.elim

end OmpRelayd.Relay
