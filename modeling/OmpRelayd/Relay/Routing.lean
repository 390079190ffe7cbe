/-
  OmpRelayd.Relay.Routing — who gets what, from whom, and in which order.

  A handler looks handles up under the registry lock and enqueues after releasing it, one
  queue at a time, while other connections register, leave and send. What carries the
  property across that gap is the record of the turn: the handles it still holds are
  connections of the sender's room, each once, and none of them has been given this frame yet
  (`Aimed`); with it, everything ever put into a queue is what it should be (`LogInv`).

  Proved (`routing_is_faithful`): in every run, each payload put into a queue is the encoding
  of a message or notice from a connection of the same room, under the name that connection
  was admitted with; a `send` is put into one queue at most, an announcement into no queue of
  the announcer's name; and what one connection puts into one queue comes in the order it was
  read, at most once for each frame.
-/

import OmpRelayd.Relay.Conns

namespace OmpRelayd.Relay

def isSend : ClientFrame → Bool
  | .send _ _ _ _ _ => true
  | _ => false

def isAnnounce : ClientFrame → Bool
  | .announce _ _ _ _ => true
  | _ => false

/-! ## What was put into the queues -/

/-- A delivery to `r` comes from a frame that a connection of the same room has read. -/
def Authentic (env : Env) (s : Sys) (r : Conn) (d : Delivery) : Prop :=
  ∃ sender frame, s.conns.lookup d.sender = some sender ∧ sender.name.room = r.name.room ∧ d.seq ≤ sender.seq ∧
    sender.frame d.seq = some frame ∧ delivery env sender.name.peer frame = some d.payload ∧
    (isAnnounce frame = true → r.name.peer ≠ sender.name.peer)

structure LogInv (env : Env) (s : Sys) : Prop where
  authentic : ∀ o r, s.conns.lookup o = some r → ∀ d ∈ r.log, Authentic env s r d
  ordered : ∀ o r, s.conns.lookup o = some r → r.log.Pairwise fun a b => a.sender = b.sender → a.seq < b.seq
  /-- The copies of a `send` are all in one log. -/
  single : ∀ o r o' r', s.conns.lookup o = some r → s.conns.lookup o' = some r' → ∀ d ∈ r.log, ∀ d' ∈ r'.log,
    d.sender = d'.sender → d.seq = d'.seq → ∀ sender frame, s.conns.lookup d.sender = some sender →
      sender.frame d.seq = some frame → isSend frame = true → o = o'
  queued : ∀ o r, s.conns.lookup o = some r → r.queue <:+ r.log.map (·.payload)

/-- The frame numbered `n` of connection `c` was never put into the queue of `o`. -/
def Unlogged (s : Sys) (c n o : Nat) : Prop := ∀ r, s.conns.lookup o = some r → ∀ d ∈ r.log, d.sender = c → d.seq ≠ n

/-- What the record of a turn holds in hand for the frame being handled. -/
def Aimed (s : Sys) (c : Nat) (conn : Conn) : Turn → Prop
  | .fresh _ => ∀ o, Unlogged s c conn.seq o
  | .claimed => ∀ o, Unlogged s c conn.seq o
  | .routing o => (∃ r, s.conns.lookup o = some r ∧ r.name.room = conn.name.room) ∧ ∀ o, Unlogged s c conn.seq o
  | .fanning todo _ => todo.Nodup ∧ ∀ o ∈ todo, Unlogged s c conn.seq o ∧
      ∃ r, s.conns.lookup o = some r ∧ r.name.room = conn.name.room ∧ r.name.peer ≠ conn.name.peer
  | _ => True

structure RoutingInv (env : Env) (s : Sys) : Prop where
  log : LogInv env s
  aimed : ∀ c conn late turn rest writer, s.conns.lookup c = some conn →
    conn.stage = .pumping (.busy late turn rest) writer → Aimed s c conn turn

variable {env : Env} {s t : Sys} {c : Nat} {conn conn' : Conn}

/-! ## Steps that enqueue nothing -/

/-- What such a step leaves of a connection: it may have read more, and its queue is drained from the front. -/
structure Conn.Later (conn conn' : Conn) : Prop where
  name : conn'.name = conn.name
  log : conn'.log = conn.log
  turns : conn.turns <+: conn'.turns
  queue : conn'.queue <:+ conn.queue

theorem Conn.Later.refl (conn : Conn) : conn.Later conn := ⟨rfl, rfl, List.prefix_rfl, List.suffix_rfl⟩

theorem Conn.Kept.later (h : conn.Kept conn') : conn.Later conn' :=
  ⟨h.name, h.log, h.turns ▸ List.prefix_rfl, h.queue⟩

theorem Conn.Later.seq_le (h : conn.Later conn') : conn.seq ≤ conn'.seq := h.turns.length_le

/-- Every connection of `t` is one of `s` a little later, or new. -/
structure Later (s t : Sys) : Prop where
  forth : ∀ j x, s.conns.lookup j = some x → ∃ x', t.conns.lookup j = some x' ∧ x.Later x'
  back : ∀ j x', t.conns.lookup j = some x' →
    (∃ x, s.conns.lookup j = some x ∧ x.Later x') ∨ x'.log = [] ∧ x'.queue = []

theorem Later.put (hc : s.conns.lookup c = some conn) (h : conn.Later conn') : Later s (s.put c conn') := by
  constructor
  · intro j x hj
    rw [Sys.lookup_put]
    by_cases e : j = c
    · subst e
      cases hc.symm.trans hj
      exact ⟨conn', if_pos rfl, h⟩
    · exact ⟨x, (if_neg e).trans hj, .refl x⟩
  · intro j x' hj
    rcases Sys.lookup_put_some hj with ⟨rfl, rfl⟩ | ⟨-, hj⟩
    · exact .inl ⟨conn, hc, h⟩
    · exact .inl ⟨x', hj, .refl x'⟩

theorem Authentic.later (h : Later s t) {r r' : Conn} {d : Delivery} (ha : Authentic env s r d)
    (hname : r'.name = r.name) : Authentic env t r' d := by
  obtain ⟨sender, frame, hs, hroom, hseq, hframe, hpayload, hpeer⟩ := ha
  obtain ⟨sender', hs', hl⟩ := h.forth d.sender sender hs
  refine ⟨sender', frame, hs', ?_, Nat.le_trans hseq hl.seq_le, Conn.frame_mono hl.turns hframe, ?_, fun hann => ?_⟩
  · rw [hl.name, hname]; exact hroom
  · rw [hl.name]; exact hpayload
  · rw [hl.name, hname]; exact hpeer hann

theorem LogInv.later (h : LogInv env s) (hl : Later s t) : LogInv env t := by
  -- an entry found after was there before, in the same log
  have hold : ∀ {o r'}, t.conns.lookup o = some r' → ∀ {d}, d ∈ r'.log →
      ∃ r, s.conns.lookup o = some r ∧ r.Later r' ∧ d ∈ r.log := by
    intro o r' ho d hd
    rcases hl.back o r' ho with ⟨r, hr, hlater⟩ | ⟨hnil, -⟩
    · exact ⟨r, hr, hlater, hlater.log ▸ hd⟩
    · rw [hnil] at hd; exact (List.not_mem_nil hd).elim
  refine ⟨fun o r' ho d hd => ?_, fun o r' ho => ?_, fun o r₁ o' r₂ ho ho' d hd d' hd' hs hn sender' frame' hsender
    hframe hsend => ?_, fun o r' ho => ?_⟩
  · obtain ⟨r, hr, hlater, hd⟩ := hold ho hd
    exact (h.authentic o r hr d hd).later hl hlater.name
  · rcases hl.back o r' ho with ⟨r, hr, hlater⟩ | ⟨hnil, -⟩
    · rw [hlater.log]; exact h.ordered o r hr
    · rw [hnil]; exact .nil
  · obtain ⟨r, hr, -, hd⟩ := hold ho hd
    obtain ⟨r', hr', -, hd'⟩ := hold ho' hd'
    obtain ⟨sender, frame, hsd, -, -, hf, -⟩ := h.authentic o r hr d hd
    obtain ⟨x, hx, hlater⟩ := hl.forth d.sender sender hsd
    cases hx.symm.trans hsender
    cases (Conn.frame_mono hlater.turns hf).symm.trans hframe
    exact h.single o r o' r' hr hr' d hd d' hd' hs hn sender _ hsd hf hsend
  · rcases hl.back o r' ho with ⟨r, hr, hlater⟩ | ⟨hnil, hq⟩
    · rw [hlater.log]; exact hlater.queue.trans (h.queued o r hr)
    · rw [hnil, hq]; exact List.suffix_rfl

/-! ## One payload is enqueued -/

theorem authentic_put_given {target r r' : Conn} {o : Nat} (ho : s.conns.lookup o = some target) (d₀ : Delivery)
    {d : Delivery} (h : Authentic env s r d) (hname : r'.name = r.name) :
    Authentic env (s.put o (target.given d₀)) r' d := by
  obtain ⟨sender, frame, hs, hroom, hseq, hframe, hpayload, hpeer⟩ := h
  rw [← hname] at hroom hpeer
  by_cases e : d.sender = o
  · rw [e] at hs
    cases ho.symm.trans hs
    exact ⟨target.given d₀, frame, by rw [Sys.lookup_put, if_pos e], hroom, hseq, hframe, hpayload, hpeer⟩
  · exact ⟨sender, frame, by rw [Sys.lookup_put, if_neg e]; exact hs, hroom, hseq, hframe, hpayload, hpeer⟩

theorem mem_log_put_given {target r' : Conn} {o j : Nat} {d₀ d : Delivery} (ho : s.conns.lookup o = some target)
    (hj : (s.put o (target.given d₀)).conns.lookup j = some r') (hd : d ∈ r'.log) :
    (j = o ∧ d = d₀) ∨ ∃ r, s.conns.lookup j = some r ∧ d ∈ r.log := by
  rcases Sys.lookup_put_some hj with ⟨rfl, rfl⟩ | ⟨-, hj⟩
  · rcases List.mem_append.mp hd with hd | hd
    · exact .inr ⟨target, ho, hd⟩
    · exact .inl ⟨rfl, List.mem_singleton.mp hd⟩
  · exact .inr ⟨r', hj, hd⟩

/-- The frame is new to the queue, and if it is a `send`, to every queue. -/
theorem LogInv.given (h : LogInv env s) {o : Nat} {target : Conn} (ho : s.conns.lookup o = some target) {d : Delivery}
    (hauth : Authentic env s target d) (hnew : ∀ d' ∈ target.log, d'.sender = d.sender → d'.seq < d.seq)
    (hsend : ∀ sender frame, s.conns.lookup d.sender = some sender → sender.frame d.seq = some frame →
      isSend frame = true → ∀ j, Unlogged s d.sender d.seq j) : LogInv env (s.put o (target.given d)) := by
  -- a sender is found with the frames it had
  have hback : ∀ {j x'}, (s.put o (target.given d)).conns.lookup j = some x' →
      ∃ x, s.conns.lookup j = some x ∧ x'.name = x.name ∧ x'.turns = x.turns := by
    intro j x' hj
    rcases Sys.lookup_put_some hj with ⟨rfl, rfl⟩ | ⟨-, hj⟩
    · exact ⟨target, ho, rfl, rfl⟩
    · exact ⟨x', hj, rfl, rfl⟩
  refine ⟨fun j r' hj d' hd' => ?_, fun j r' hj => ?_, fun j r₁ j' r₂ hj hj' d₁ hd₁ d₂ hd₂ hs hn sender' frame hsender
    hframe hsnd => ?_, fun j r' hj => ?_⟩
  · obtain ⟨r, hr, hname, -⟩ := hback hj
    rcases mem_log_put_given ho hj hd' with ⟨rfl, rfl⟩ | ⟨r₀, hr₀, hd'⟩
    · cases ho.symm.trans hr
      exact authentic_put_given ho d' hauth hname
    · cases hr.symm.trans hr₀
      exact authentic_put_given ho d (h.authentic j r hr d' hd') hname
  · rcases Sys.lookup_put_some hj with ⟨rfl, rfl⟩ | ⟨-, hj⟩
    · refine List.pairwise_append.mpr ⟨h.ordered j target ho, List.pairwise_singleton _ _, fun a ha b hb => ?_⟩
      rw [List.mem_singleton.mp hb]
      exact hnew a ha
    · exact h.ordered j r' hj
  · obtain ⟨sender, hsd, -, hturns⟩ := hback hsender
    have hfr : sender.frame d₁.seq = some frame := by
      simp only [Conn.frame, ← hturns]; exact hframe
    rcases mem_log_put_given ho hj hd₁ with ⟨rfl, rfl⟩ | ⟨r, hr, hd₁⟩
    · rcases mem_log_put_given ho hj' hd₂ with ⟨rfl, -⟩ | ⟨r', hr', hd₂⟩
      · rfl
      · exact absurd hn.symm (hsend sender frame hsd hfr hsnd j' r' hr' d₂ hd₂ hs.symm)
    · rcases mem_log_put_given ho hj' hd₂ with ⟨rfl, rfl⟩ | ⟨r', hr', hd₂⟩
      · rw [hs] at hsd; rw [hn] at hfr
        exact absurd hn (hsend sender frame hsd hfr hsnd j r hr d₁ hd₁ hs)
      · exact h.single j r j' r' hr hr' d₁ hd₁ d₂ hd₂ hs hn sender frame hsd hfr hsnd
  · rcases Sys.lookup_put_some hj with ⟨rfl, rfl⟩ | ⟨-, hj⟩
    · obtain ⟨taken, htaken⟩ := h.queued j target ho
      refine ⟨taken, ?_⟩
      simp only [Conn.given, List.map_append, ← htaken, List.append_assoc, List.map_cons, List.map_nil]
    · exact h.queued j r' hj

/-! ## What a handler holds in hand -/

/-- Nothing more of connection `c` is in the logs, and every connection is still there under its name. -/
structure Calm (c : Nat) (s t : Sys) : Prop where
  names : ∀ o r, s.conns.lookup o = some r → ∃ r', t.conns.lookup o = some r' ∧ r'.name = r.name
  logs : ∀ o r', t.conns.lookup o = some r' → ∀ d ∈ r'.log, d.sender = c → ∃ r, s.conns.lookup o = some r ∧ d ∈ r.log

theorem Later.calm (h : Later s t) (c : Nat) : Calm c s t := by
  constructor
  · intro o r ho
    obtain ⟨r', hr', hl⟩ := h.forth o r ho
    exact ⟨r', hr', hl.name⟩
  · intro o r' ho d hd _
    rcases h.back o r' ho with ⟨r, hr, hl⟩ | ⟨hnil, -⟩
    · exact ⟨r, hr, hl.log ▸ hd⟩
    · rw [hnil] at hd; exact (List.not_mem_nil hd).elim

/-- What another connection is given. -/
theorem Calm.given {o : Nat} {target : Conn} (ho : s.conns.lookup o = some target) {d : Delivery} (hd : d.sender ≠ c) :
    Calm c s (s.put o (target.given d)) := by
  constructor
  · intro j r hj
    rw [Sys.lookup_put]
    by_cases e : j = o
    · subst e
      cases ho.symm.trans hj
      exact ⟨_, if_pos rfl, rfl⟩
    · exact ⟨r, (if_neg e).trans hj, rfl⟩
  · intro j r' hj d' hd' hc
    rcases mem_log_put_given ho hj hd' with ⟨-, rfl⟩ | hold
    · exact absurd hc hd
    · exact hold

theorem Unlogged.calm {n o : Nat} (h : Unlogged s c n o) (hs : Calm c s t) : Unlogged t c n o := by
  intro r' ho d hd hc
  obtain ⟨r, hr, hd⟩ := hs.logs o r' ho d hd hc
  exact h r hr d hd hc

theorem Aimed.calm {turn : Turn} (h : Aimed s c conn turn) (hs : Calm c s t) (hname : conn'.name = conn.name)
    (hseq : conn'.seq = conn.seq) : Aimed t c conn' turn := by
  cases turn with
  | fresh free => exact fun o => hseq ▸ (h o).calm hs
  | claimed => exact fun o => hseq ▸ (h o).calm hs
  | routing o =>
    obtain ⟨⟨r, hr, hroom⟩, hun⟩ := h
    obtain ⟨r', hr', hn⟩ := hs.names o r hr
    refine ⟨⟨r', hr', ?_⟩, fun o => hseq ▸ (hun o).calm hs⟩
    rw [hn, hname]; exact hroom
  | fanning todo counts =>
    refine ⟨h.1, fun o ho => ?_⟩
    obtain ⟨hun, r, hr, hroom, hpeer⟩ := h.2 o ho
    obtain ⟨r', hr', hn⟩ := hs.names o r hr
    refine ⟨hseq ▸ hun.calm hs, r', hr', ?_⟩
    rw [hn, hname]; exact ⟨hroom, hpeer⟩
  | _ => trivial

/-- The call puts a payload into a queue, or nothing into any. -/
theorem Answers.given_or_later {now : Nat} {call : Call} {answer : call.Answer} (ha : Answers s c conn now call answer t)
    (hc : s.conns.lookup c = some conn) :
    Later s t ∨ ∃ o payload target, call = .enqueue o payload ∧
      s.conns.lookup o = some target ∧ t = s.put o (target.given ⟨c, conn.seq, payload⟩) := by
  have hsame : Later s s := ⟨fun j x hj => ⟨x, hj, .refl x⟩, fun j x hj => .inl ⟨x, hj, .refl x⟩⟩
  cases ha with
  | capacity => exact .inl hsame
  | listPeers room => exact .inl hsame
  | outboundOf room target => exact .inl hsame
  | recipients room announcer order hperm => exact .inl hsame
  | unknown outbound payload hnone => exact .inl hsame
  | reserve room digest bytes => exact .inl ⟨hsame.forth, hsame.back⟩
  | enqueued outbound payload target ht => exact .inr ⟨outbound, payload, target, rfl, ht, rfl⟩
  | refused outbound payload target status ht => exact .inl (.put ht (.refl target))
  | _ => exact .inl (.put hc ⟨rfl, rfl, List.prefix_rfl, List.suffix_rfl⟩)

section
variable {now : Nat} {call : Call} {answer : call.Answer}

/-- Handles come from the registry, so from the sender's room. -/
theorem Aimed.claimed (h : Aimed s c conn .claimed) (hr : RelayInv env s) (hc : s.conns.lookup c = some conn)
    (ha : Answers s c conn now call answer t) (hmay : mayCall env (registeredPeer c conn) conn.current .claimed call) :
    Aimed t c conn (nextTurn conn.current .claimed call answer) := by
  cases ha with
  | outboundOf room target =>
    obtain ⟨rfl, -⟩ := hmay
    cases ho : outboundOf s.registry.rooms (registeredPeer c conn).room target with
    | none => trivial
    | some o =>
      obtain ⟨r, hl, hname⟩ := hr.holder_conn (show holder s.registry.rooms ⟨conn.name.room, target⟩ = some o from ho)
      exact ⟨⟨r, hl, by rw [hname]⟩, h⟩
  | recipients room announcer order hperm =>
    obtain ⟨⟨rfl, rfl⟩, -⟩ := hmay
    refine ⟨hperm.nodup_iff.mpr (recipients_nodup (fun _ _ _ hn hm => hr.registry.holder_inj hn hm) _ _), fun o ho => ?_⟩
    obtain ⟨peer, hne, hh⟩ := mem_recipients.mp (hperm.mem_iff.mp ho)
    obtain ⟨r, hl, hname⟩ := hr.holder_conn hh
    exact ⟨h o, r, hl, by rw [hname]; rfl, by rw [hname]; exact hne⟩
  | reserve room digest bytes => trivial
  | permitDrop =>
    have hl : conn.Later conn.permitDrop := ⟨rfl, rfl, List.prefix_rfl, List.suffix_rfl⟩
    exact h.calm ((Later.put hc hl).calm c) rfl rfl
  | _ => exact hmay.elim

/-- The recipients still to come are others than the one just tried. -/
theorem Aimed.fanning {o : Nat} {todo : List Nat} {counts : Fanout} (h : Aimed s c conn (.fanning (o :: todo) counts))
    {payload : Bytes} {status : ReceiptStatus} (ha : Answers s c conn now (.enqueue o payload) status t) (counts' : Fanout) :
    Aimed t c conn (.fanning todo counts') := by
  obtain ⟨hnodup, hall⟩ := h
  obtain ⟨hnot, hnodup⟩ := List.nodup_cons.mp hnodup
  have hrest : ∀ {target'}, ∀ j ∈ todo, (s.put o target').conns.lookup j = s.conns.lookup j := by
    intro target' j hj
    rw [Sys.lookup_put, if_neg]
    rintro rfl
    exact hnot hj
  have hothers : ∀ {target'}, Aimed (s.put o target') c conn (.fanning todo counts') := by
    intro target'
    refine ⟨hnodup, fun j hj => ?_⟩
    obtain ⟨hun, r, hr, hroom⟩ := hall j (List.mem_cons_of_mem o hj)
    exact ⟨fun r' hr' => hun r' ((hrest j hj).symm.trans hr'), r, (hrest j hj).trans hr, hroom⟩
  cases ha with
  | enqueued outbound payload target => exact hothers
  | refused outbound payload target status => exact hothers
  | unknown outbound payload => exact ⟨hnodup, fun j hj => hall j (List.mem_cons_of_mem o hj)⟩

theorem Aimed.next {turn : Turn} (h : Aimed s c conn turn) (hr : RelayInv env s) (hc : s.conns.lookup c = some conn)
    (ha : Answers s c conn now call answer t) (hmay : mayCall env (registeredPeer c conn) conn.current turn call) :
    Aimed t c conn (nextTurn conn.current turn call answer) := by
  cases turn with
  | fresh free =>
    have hcalm : Calm c s t := by
      rcases ha.given_or_later hc with hl | ⟨o, payload, target, rfl, -⟩
      · exact hl.calm c
      · exact hmay.elim
    cases call with
    | capacity => exact h.calm hcalm rfl rfl
    | listPeers room => exact h.calm hcalm rfl rfl
    | trySend reply => simp only [nextTurn]; split <;> trivial
    | tryReserve => simp only [nextTurn]; split <;> exact h.calm hcalm rfl rfl
    | _ => exact hmay.elim
  | claimed => exact h.claimed hr hc ha hmay
  | routing o =>
    cases call with
    | enqueue outbound payload => trivial
    | permitDrop =>
      rcases ha.given_or_later hc with hl | ⟨o, payload, target, hcall, -⟩
      · exact fun o => (h.2 o).calm (hl.calm c)
      · cases hcall
    | _ => exact hmay.elim
  | fanning todo counts =>
    cases todo with
    | nil => cases hmay; trivial
    | cons o todo =>
      cases call with
      | enqueue outbound payload =>
        obtain ⟨rfl, -⟩ := hmay
        exact h.fanning ha _
      | _ => exact hmay.elim
  | owing acknowledgement => cases hmay; trivial
  | _ => exact hmay.elim

theorem Conn.frame_current {peer : String} {payload : Bytes} (h : delivery env peer conn.current = some payload) :
    conn.frame conn.seq = some conn.current := by
  unfold Conn.current at h ⊢
  cases hf : conn.frame conn.seq with
  | none => rw [hf] at h; cases h
  | some frame => rfl

/-- What a handler enqueues is new where it goes, and rightly addressed. -/
theorem LogInv.answered (h : LogInv env s) {turn : Turn} (haimed : Aimed s c conn turn) (hfits : turn.Fits conn.current)
    (hc : s.conns.lookup c = some conn) (ha : Answers s c conn now call answer t)
    (hmay : mayCall env (registeredPeer c conn) conn.current turn call) : LogInv env t := by
  rcases ha.given_or_later hc with hl | ⟨o, payload, target, rfl, ho, rfl⟩
  · exact h.later hl
  -- earlier frames only, since this one is not there
  have hnew : Unlogged s c conn.seq o → ∀ d ∈ target.log, d.sender = c → d.seq < conn.seq := by
    intro hun d hd hsender
    obtain ⟨sender, -, hs, -, hseq, -⟩ := h.authentic o target ho d hd
    rw [hsender] at hs
    cases hc.symm.trans hs
    exact Nat.lt_of_le_of_ne hseq (hun target ho d hd hsender)
  cases turn with
  | routing o' =>
    obtain ⟨rfl, hp⟩ := hmay
    obtain ⟨⟨r, hr, hroom⟩, hun⟩ := haimed
    obtain ⟨id, peer, body, replyTo, attachment, hsend⟩ := hfits
    cases ho.symm.trans hr
    refine h.given ho ⟨conn, conn.current, hc, hroom.symm, Nat.le_refl _, Conn.frame_current hp, hp, fun hann => ?_⟩
      (hnew (hun o)) fun _ _ _ _ _ => hun
    rw [hsend] at hann; cases hann
  | fanning todo counts =>
    cases todo with
    | nil => cases hmay
    | cons o' todo =>
      obtain ⟨rfl, hp⟩ := hmay
      obtain ⟨hun, r, hr, hroom, hpeer⟩ := haimed.2 o (List.mem_cons_self ..)
      obtain ⟨id, body, replyTo, attachment, hann⟩ := hfits
      cases ho.symm.trans hr
      refine h.given ho ⟨conn, conn.current, hc, hroom.symm, Nat.le_refl _, Conn.frame_current hp, hp, fun _ => hpeer⟩
        (hnew hun) fun sender frame hs hf hsend => ?_
      cases hc.symm.trans hs
      cases (Conn.frame_current hp).symm.trans hf
      rw [hann] at hsend; cases hsend
  | owing acknowledgement => cases hmay
  | _ => exact hmay.elim

end

/-! ## Every step -/

/-- What a step does to one connection outside its handlers. -/
theorem RoutingInv.put (h : RoutingInv env s) (hc : s.conns.lookup c = some conn) (hl : conn.Later conn')
    (haimed : ∀ late turn rest writer, conn'.stage = .pumping (.busy late turn rest) writer → Aimed s c conn' turn) :
    RoutingInv env (s.put c conn') := by
  have hlater := Later.put hc hl
  refine ⟨h.log.later hlater, fun j x late turn rest writer hj hst => ?_⟩
  rcases Sys.lookup_put_some hj with ⟨rfl, rfl⟩ | ⟨-, hj⟩
  · exact (haimed late turn rest writer hst).calm (hlater.calm j) rfl rfl
  · exact (h.aimed j x late turn rest writer hj hst).calm (hlater.calm j) rfl rfl

theorem RoutingInv.restage (h : RoutingInv env s) (hc : s.conns.lookup c = some conn) {stage : Stage}
    (hidle : stage.idle = true) : RoutingInv env (s.put c { conn with stage := stage }) := by
  refine h.put hc ⟨rfl, rfl, List.prefix_rfl, List.suffix_rfl⟩ fun late turn rest writer hst => ?_
  change stage = _ at hst
  rw [hst] at hidle; cases hidle

theorem RoutingInv.congr (h : RoutingInv env s) (hc : t.conns = s.conns) : RoutingInv env t := by
  cases s; cases t; cases hc
  exact ⟨⟨h.log.authentic, h.log.ordered, h.log.single, h.log.queued⟩, h.aimed⟩

theorem RoutingInv.hello (h : RoutingInv env s) (hr : RelayInv env s) (name : Name) :
    RoutingInv env (s.put s.registry.nextConnectionId { name := name }) := by
  have hfind : ∀ j x, s.conns.lookup j = some x →
      (s.put s.registry.nextConnectionId { name := name }).conns.lookup j = some x := fun j x hj => by
    rw [Sys.lookup_put, if_neg (Nat.ne_of_lt (hr.below j x hj))]; exact hj
  have hlater : Later s (s.put s.registry.nextConnectionId { name := name }) := by
    refine ⟨fun j x hj => ⟨x, hfind j x hj, .refl x⟩, fun j x hj => ?_⟩
    rcases Sys.lookup_put_some hj with ⟨rfl, rfl⟩ | ⟨-, hj⟩
    · exact .inr ⟨rfl, rfl⟩
    · exact .inl ⟨x, hj, .refl x⟩
  refine ⟨h.log.later hlater, fun j x late turn rest writer hj hst => ?_⟩
  rcases Sys.lookup_put_some hj with ⟨rfl, rfl⟩ | ⟨-, hj⟩
  · cases hst
  · exact (h.aimed j x late turn rest writer hj hst).calm (hlater.calm j) rfl rfl

theorem RoutingInv.act (h : RoutingInv env s) (hr : RelayInv env s) (hc : s.conns.lookup c = some conn) {late : Bool}
    {turn : Turn} {now : Nat} {call : Call} {rest : call.Answer → Handler ControlFlow} {writer : Writer}
    (hst : conn.stage = .pumping (.busy late turn (.call call rest)) writer) {answer : call.Answer}
    (ha : Answers s c conn now call answer t) (hc' : t.conns.lookup c = some conn') :
    RoutingInv env (t.put c { conn' with
      stage := .pumping (.of late (nextTurn conn.current turn call answer) (rest answer)) writer }) := by
  obtain ⟨hobeys, hfits⟩ := hr.keeps c conn hc late turn _ writer hst
  have hmay := (hobeys.answer answer).1
  have haimed := h.aimed c conn late turn _ writer hc hst
  obtain ⟨x, hx, hname, -, hturns⟩ := ha.find hc hc'
  cases hc.symm.trans hx
  have hlater : Later t (t.put c { conn' with
      stage := .pumping (.of late (nextTurn conn.current turn call answer) (rest answer)) writer }) :=
    .put hc' ⟨rfl, rfl, List.prefix_rfl, List.suffix_rfl⟩
  refine ⟨(h.log.answered haimed hfits hc ha hmay).later hlater, fun j y late' turn' rest' writer' hj hst' => ?_⟩
  rcases Sys.lookup_put_some hj with ⟨rfl, rfl⟩ | ⟨hne, hj⟩
  · obtain ⟨hb, -⟩ := Stage.pumping.inj hst'
    obtain ⟨-, rfl, rfl⟩ := Reader.of_busy hb
    exact (haimed.next hr hc ha hmay).calm (hlater.calm j) hname (congrArg List.length hturns)
  · -- another task's handler, with what it held before
    obtain ⟨y₀, hy₀, hname, hstage, hturns⟩ := ha.find hc hj
    have hcalm : Calm j s t := by
      rcases ha.given_or_later hc with hl | ⟨o, payload, target, rfl, ho, rfl⟩
      · exact hl.calm j
      · exact .given ho (Ne.symm hne)
    have hold := h.aimed j y₀ late' turn' rest' writer' hy₀ (hstage.symm.trans hst')
    exact (hold.calm hcalm hname (congrArg List.length hturns)).calm (hlater.calm j) rfl rfl

theorem Step.routing {e : RelayEv} (hs : Step env s e t) (hr : RelayInv env s) (h : RoutingInv env s) :
    RoutingInv env t := by
  cases hs with
  | hello frame name hadm => exact (h.hello hr name).congr rfl
  | insert c conn registry hc hreg => exact (h.restage hc rfl).congr rfl
  | drive e c conn conn' hc hd =>
    refine h.put hc hd.kept.later fun late turn rest writer hst => ?_
    have hidle := hd.kept.idle
    rw [hst] at hidle; cases hidle
  | read c branch conn writer hc hst hb =>
    refine h.put hc ⟨rfl, rfl, List.prefix_append _ _, List.suffix_rfl⟩ fun late turn rest writer' hst' => ?_
    obtain ⟨hbusy, -⟩ := Stage.pumping.inj hst'
    obtain ⟨-, rfl, -⟩ := Reader.of_busy hbusy
    -- the frame just read has a number of its own
    intro o r ho d hd hsender
    obtain ⟨sender, -, hs, -, hseq, -⟩ := h.log.authentic o r ho d hd
    rw [hsender] at hs
    cases hc.symm.trans hs
    have hlen : conn.seq < (conn.turns ++ [branch]).length := by simp [Conn.seq]
    exact Nat.ne_of_lt (Nat.lt_of_le_of_lt hseq hlen)
  | act c now order conn conn' late turn call rest writer answer s' hc hst ha hc' =>
    exact h.act hr hc hst (answer_answers hc ha) hc'
  | drop c conn registry hc hst hreg =>
    exact (h.restage hc (by split <;> rfl)).congr rfl
  | forget c conn hc hst => exact (h.restage hc rfl).congr rfl
  | transfer e store => exact h.congr rfl
  | shutdown => exact h.congr rfl

theorem RoutingInv.init : RoutingInv env {} := by
  have hnone : ∀ {c : Nat} {x : Conn}, ({} : Sys).conns.lookup c ≠ some x := by simp
  refine ⟨⟨fun o r h => (hnone h).elim, fun o r h => (hnone h).elim, fun o r o' r' h => (hnone h).elim,
    fun o r h => (hnone h).elim⟩, fun c x _ _ _ _ h => (hnone h).elim⟩

theorem routing_inv {ok : Sys → RelayEv → Prop} (h : RelayReach env ok s) : RoutingInv env s :=
  (h.inv (P := fun s => RelayInv env s ∧ RoutingInv env s) ⟨.init, .init⟩ fun _ _ _ hi _ hs =>
    ⟨(relayStep_step hs).relayInv hi.1, (relayStep_step hs).routing hi.1 hi.2⟩).2

theorem delivery_some {sender : String} {frame : ClientFrame} {payload : Bytes}
    (h : delivery env sender frame = some payload) :
    (∃ id target body replyTo attachment, frame = .send id target body replyTo attachment ∧
      env.encode (.message id sender body replyTo attachment) = some payload) ∨
    (∃ id body replyTo attachment, frame = .announce id body replyTo attachment ∧
      env.encode (.notice id sender body replyTo attachment) = some payload) := by
  have hencode : ∀ {out}, encodeDelivery env out = some payload → env.encode out = some payload := fun h =>
    (Option.filter_eq_some_iff.mp h).1
  cases frame with
  | send id target body replyTo attachment => exact .inl ⟨id, target, body, replyTo, attachment, rfl, hencode h⟩
  | announce id body replyTo attachment => exact .inr ⟨id, body, replyTo, attachment, rfl, hencode h⟩
  | _ => cases h

theorem routing_is_faithful {env : Env} {s : Sys} (h : RelayReach env Always s) :
    (∀ o r, s.conns.lookup o = some r → ∀ d ∈ r.log, ∃ sender frame, s.conns.lookup d.sender = some sender ∧
      sender.name.room = r.name.room ∧ sender.frame d.seq = some frame ∧
      ((∃ id target body replyTo attachment, frame = .send id target body replyTo attachment ∧
          env.encode (.message id sender.name.peer body replyTo attachment) = some d.payload) ∨
        (∃ id body replyTo attachment, frame = .announce id body replyTo attachment ∧ r.name.peer ≠ sender.name.peer ∧
          env.encode (.notice id sender.name.peer body replyTo attachment) = some d.payload))) ∧
    (∀ o r o' r', s.conns.lookup o = some r → s.conns.lookup o' = some r' → ∀ d ∈ r.log, ∀ d' ∈ r'.log,
      d.sender = d'.sender → d.seq = d'.seq → ∀ sender frame, s.conns.lookup d.sender = some sender →
        sender.frame d.seq = some frame → isSend frame = true → o = o') ∧
    ∀ o r, s.conns.lookup o = some r →
      (r.log.Pairwise fun a b => a.sender = b.sender → a.seq < b.seq) ∧ r.queue <:+ r.log.map (·.payload) := by
  have hlog := (routing_inv h).log
  refine ⟨fun o r ho d hd => ?_, hlog.single, fun o r ho => ⟨hlog.ordered o r ho, hlog.queued o r ho⟩⟩
  obtain ⟨sender, frame, hs, hroom, -, hframe, hpayload, hpeer⟩ := hlog.authentic o r ho d hd
  refine ⟨sender, frame, hs, hroom, hframe, ?_⟩
  rcases delivery_some hpayload with hsend | ⟨id, body, replyTo, attachment, rfl, hencode⟩
  · exact .inl hsend
  · exact .inr ⟨id, body, replyTo, attachment, rfl, hpeer rfl, hencode⟩

/-- Alice greets bob and announces. Between the lookup and the enqueue of the greeting, another
    connection takes bob's name: the greeting goes to the old one, the notice to the new. -/
def takenOver : List RelayEv :=
  joining 1 ["alice", "bob"] ++ reads 1 greeting :: acts 1 3 [] ++ joining 3 ["bob"] ++ acts 1 2 [] ++
    reads 1 (.announce "m-2" "hello all" none none) :: acts 1 5 [3]

def takenOverEnd : Sys := (run (relayStep oneByte) {} takenOver).getD {}

theorem routing_is_faithful_sample :
    RelayReach oneByte Always takenOverEnd ∧ ∃ old new, takenOverEnd.conns.lookup 2 = some old ∧
      takenOverEnd.conns.lookup 3 = some new ∧ old.log = [⟨1, 1, [0]⟩] ∧ new.log = [⟨1, 2, [0]⟩] ∧
      ∃ sender, takenOverEnd.conns.lookup 1 = some sender ∧ sender.name.room = old.name.room := by
  have hr : RelayReach oneByte Always takenOverEnd := .of_run takenOver .init rfl
  obtain ⟨sender, -, hs, hroom, -⟩ := (routing_is_faithful hr).1 2 _ rfl ⟨1, 1, [0]⟩ (List.mem_singleton.mpr rfl)
  exact ⟨hr, _, _, rfl, rfl, rfl, rfl, sender, hs, hroom⟩

end OmpRelayd.Relay
