/-
  OmpRelayd.Relay.Delivered — what leaves on a connection's socket.

  `outgoing` is what the writer has given to the socket so far, wholly or in part: what was sent,
  what the codec kept, and what is being written. Proved of every run: the deliveries in it are the
  first entries of the connection's log, in the log's order and each once (`delivered_inv`), and all
  that the queue does not still hold, as long as nobody took the connection's name; and a `send`
  that is in a log was addressed to the name of the connection whose log it is (`address_inv`).
-/

import OmpRelayd.Relay.Routing

namespace OmpRelayd.Relay

/-! ## Offered -/

def Item.delivered : Item → Option Bytes
  | .delivery payload => some payload
  | _ => none

@[simp] theorem delivered_plain (frame : ServerFrame) : [Item.plain frame].filterMap Item.delivered = [] := rfl

@[simp] theorem delivered_reply (reply : Reply) : [Item.reply reply].filterMap Item.delivered = [] := rfl

@[simp] theorem delivered_delivery (payload : Bytes) : [Item.delivery payload].filterMap Item.delivered = [payload] := rfl

/-- What is being written. -/
def Stage.offering : Stage → List Item
  | .greeting => [.plain (.ready protocolVersion)]
  | .pumping _ (.writing item) => [item]
  | .pumping _ .replaced => [.plain replacedDiagnostic]
  | _ => []

def Conn.outgoing (conn : Conn) : List Item := conn.sent ++ conn.buffer ++ conn.stage.offering

def Conn.deliveries (conn : Conn) : List Bytes := conn.outgoing.filterMap Item.delivered

/-- The writer may still take what is in the queue. -/
def Stage.takes : Stage → Bool
  | .admitted => true
  | .greeting => true
  | .pumping _ .replaced => false
  | .pumping _ _ => true
  | _ => false

structure Conn.Delivered (conn : Conn) : Prop where
  first : conn.deliveries <+: conn.log.map (·.payload)
  rest : conn.stage.takes = true → conn.deliveries ++ conn.queue = conn.log.map (·.payload)

variable {env : Env} {s t : Sys} {c : Nat} {conn conn' : Conn}

theorem Conn.Delivered.of_rest (h : conn.deliveries ++ conn.queue = conn.log.map (·.payload)) : conn.Delivered :=
  ⟨⟨conn.queue, h⟩, fun _ => h⟩

theorem Conn.Delivered.given (h : conn.Delivered) (d : Delivery) : (conn.given d).Delivered := by
  have hlog : (conn.given d).log.map (·.payload) = conn.log.map (·.payload) ++ [d.payload] := List.map_append
  refine ⟨?_, fun ht => ?_⟩
  · rw [hlog]
    exact h.first.trans (List.prefix_append ..)
  · rw [hlog, ← h.rest ht, List.append_assoc]
    rfl

/-- What is outgoing and the queue are as before, whatever else the step did. -/
theorem Conn.Delivered.same (h : conn.Delivered) (hd : conn'.deliveries = conn.deliveries) (hq : conn'.queue = conn.queue)
    (hl : conn'.log = conn.log) (ht : conn'.stage.takes = true → conn.stage.takes = true) : conn'.Delivered := by
  refine ⟨?_, fun ht' => ?_⟩
  · rw [hd, hl]
    exact h.first
  · rw [hd, hq, hl]
    exact h.rest (ht ht')

/-- Some of what was outgoing is given up, and nothing is taken any more. -/
theorem Conn.Delivered.less (h : conn.Delivered) (hd : conn'.deliveries <+: conn.deliveries) (hl : conn'.log = conn.log)
    (ht : conn'.stage.takes = false) : conn'.Delivered := by
  refine ⟨?_, fun ht' => ?_⟩
  · rw [hl]
    exact hd.trans h.first
  · rw [ht] at ht'
    cases ht'

theorem Conn.deliveries_eq (conn : Conn) : conn.deliveries = conn.sent.filterMap Item.delivered ++
    (conn.buffer.filterMap Item.delivered ++ conn.stage.offering.filterMap Item.delivered) := by
  simp [Conn.deliveries, Conn.outgoing]

theorem Conn.Delivered.close (h : conn.Delivered) : conn.close.Delivered := by
  refine h.less ?_ rfl rfl
  rw [Conn.deliveries_eq conn]
  simp [Conn.deliveries, Conn.outgoing, Conn.close, Stage.offering]

/-- Where the writer neither has a frame in hand nor is telling of a replacement. -/
theorem Stage.offering_pumping {reader : Reader} {writer : Writer} (h : ∀ item, writer ≠ .writing item) :
    (Stage.pumping reader writer).offering.filterMap Item.delivered = [] := by
  cases writer with
  | writing item => exact absurd rfl (h item)
  | _ => rfl

theorem Conn.Drives.delivered {flag : Bool} {e : RelayEv} (hd : conn.Drives c flag e conn') (h : conn.Delivered) :
    conn'.Delivered := by
  cases hd with
  | greeted hst | wrote reader item hst hb =>
    refine h.same ?_ rfl rfl fun _ => by rw [hst]; rfl
    rw [Conn.deliveries_eq, Conn.deliveries_eq, hst]
    simp [Stage.offering]
  | poll o reader writer writer' hst hb hw hr hflag =>
    refine h.same ?_ rfl rfl fun _ => ?_
    · rw [Conn.deliveries_eq, Conn.deliveries_eq, hst, Stage.offering_pumping fun item => (hw item).1,
        Stage.offering_pumping fun item => (hw item).2]
    · rw [hst]
      cases writer <;> first | rfl | exact absurd rfl hr
  | takeReply o reader reply rest hst hb hq =>
    refine h.same ?_ rfl rfl fun _ => by rw [hst]; rfl
    rw [Conn.deliveries_eq, Conn.deliveries_eq, hst]
    rfl
  | takeDelivery o reader payload rest hst hb hq =>
    have hrest := h.rest (by rw [hst]; rfl)
    refine .of_rest ?_
    rw [Conn.deliveries_eq, hst, hq] at hrest
    rw [Conn.deliveries_eq, ← hrest]
    simp [Stage.offering]
  | cancelled reader item fed hst hb hf =>
    refine h.less ?_ rfl rfl
    rw [Conn.deliveries_eq, Conn.deliveries_eq, hst]
    cases fed <;> simp [Stage.offering]
  | told reader hst hb =>
    refine h.less ?_ rfl rfl
    rw [Conn.deliveries_eq, Conn.deliveries_eq, hst]
    simp [Conn.close, Stage.offering]
  | _ => exact h.close

/-- A stage without a writer's step in it. -/
theorem Conn.Delivered.restage (h : conn.Delivered) {stage : Stage}
    (hoffers : stage.offering.filterMap Item.delivered = conn.stage.offering.filterMap Item.delivered)
    (ht : stage.takes = true → conn.stage.takes = true) : ({ conn with stage := stage } : Conn).Delivered := by
  refine h.same ?_ rfl rfl ht
  rw [Conn.deliveries_eq, Conn.deliveries_eq, hoffers]

/-- A call leaves the sockets alone, and at most gives one connection one payload. -/
theorem Answers.delivered {now : Nat} {call : Call} {answer : call.Answer} (ha : Answers s c conn now call answer t)
    (hc : s.conns.lookup c = some conn) (h : ∀ j x, s.conns.lookup j = some x → x.Delivered) :
    ∀ j x, t.conns.lookup j = some x → x.Delivered := by
  have hput : ∀ {o : Nat} {new : Conn}, new.Delivered → ∀ j x, (s.put o new).conns.lookup j = some x → x.Delivered := by
    intro o new hnew j x hj
    rcases Sys.lookup_put_some hj with ⟨-, rfl⟩ | ⟨-, hj⟩
    · exact hnew
    · exact h j x hj
  have hconn := h c conn hc
  cases ha with
  | enqueued outbound payload target ht => exact hput ((h outbound target ht).given ⟨c, conn.seq, payload⟩)
  | refused outbound payload target status ht => exact hput (h outbound target ht)
  | sent frame | claimed | permitSend frame | permitDrop => exact hput (hconn.same rfl rfl rfl id)
  | notSent frame error => exact hput hconn
  | notClaimed => exact hput hconn
  | _ => exact h

theorem Stage.offering_reader (reader reader' : Reader) (writer : Writer) :
    (Stage.pumping reader writer).offering = (Stage.pumping reader' writer).offering := by
  cases writer <;> rfl

theorem Stage.takes_reader (reader reader' : Reader) (writer : Writer) :
    (Stage.pumping reader writer).takes = (Stage.pumping reader' writer).takes := by
  cases writer <;> rfl

/-- The reader's side is nothing to the writer. -/
theorem Conn.Delivered.reader (h : conn.Delivered) {reader : Reader} {writer : Writer}
    (hst : conn.stage = .pumping reader writer) (reader' : Reader) :
    ({ conn with stage := .pumping reader' writer } : Conn).Delivered := by
  refine h.restage ?_ fun ht => ?_
  · rw [hst, Stage.offering_reader reader' reader]
  · rw [hst, Stage.takes_reader reader reader']
    exact ht

theorem Conn.Moves.delivered {e : RelayEv} (hm : conn.Moves env c e conn') (he : ∀ now order, e ≠ .act c now order)
    (h : conn.Delivered) : conn'.Delivered := by
  cases hm with
  | still => exact h
  | given e d => exact h.given d
  | inserted hst =>
    refine h.restage ?_ fun _ => ?_
    · rw [hst]
      rfl
    · rw [hst]
      rfl
  | drives e flag conn' hd => exact hd.delivered h
  | read branch late writer hst => exact (h.reader hst _).same rfl rfl rfl id
  | act now order => exact absurd rfl (he now order)
  | retired e stage _ hst hstage =>
    refine h.restage ?_ fun ht => ?_
    · rcases hst with hst | hst <;> rcases hstage with rfl | rfl <;> rw [hst] <;> rfl
    · rcases hstage with rfl | rfl <;> cases ht

theorem Step.delivered {e : RelayEv} (hs : Step env s e t) (hr : RelayInv env s)
    (h : ∀ j x, s.conns.lookup j = some x → x.Delivered) : ∀ j x, t.conns.lookup j = some x → x.Delivered := by
  by_cases hact : ∃ c now order, e = .act c now order
  · obtain ⟨c, now, order, rfl⟩ := hact
    cases hs with
    | drive e c conn conn' hc hd => cases hd
    | act c now order conn conn' late turn call rest writer answer s' hc hst ha hc' =>
      have hanswers := answer_answers hc ha
      have hs' := hanswers.delivered hc h
      obtain ⟨x, hx, -, hstage, -⟩ := hanswers.find hc hc'
      cases hc.symm.trans hx
      intro j y hj
      rcases Sys.lookup_put_some hj with ⟨-, rfl⟩ | ⟨-, hj⟩
      · exact (hs' c conn' hc').reader (hstage.trans hst) _
      · exact hs' j y hj
  · intro j x' hj
    rcases hs.moves hr hj with ⟨-, name, rfl⟩ | ⟨x, hx, hm⟩
    · exact .of_rest rfl
    · exact hm.delivered (fun now order he => hact ⟨j, now, order, he⟩) (h j x hx)

theorem delivered_inv {ok : Sys → RelayEv → Prop} (h : RelayReach env ok s) :
    ∀ c conn, s.conns.lookup c = some conn → conn.Delivered := by
  refine (h.inv (P := fun s => RelayInv env s ∧ ∀ j x, s.conns.lookup j = some x → x.Delivered)
    ⟨.init, fun j x hj => by cases hj⟩ fun s e t hi _ hstep => ?_).2
  exact ⟨(relayStep_step hstep).relayInv hi.1, (relayStep_step hstep).delivered hi.1 hi.2⟩

/-! ## To whom -/

def addressee : ClientFrame → Option String
  | .send _ target _ _ _ => some target
  | _ => none

/-- The frame a delivery comes from was addressed to nobody else by name. -/
def Addressed (s : Sys) (r : Conn) (d : Delivery) : Prop :=
  ∃ sender frame, s.conns.lookup d.sender = some sender ∧ sender.frame d.seq = some frame ∧
    ∀ target, addressee frame = some target → r.name.peer = target

structure AddressInv (s : Sys) : Prop where
  log : ∀ o r, s.conns.lookup o = some r → ∀ d ∈ r.log, Addressed s r d
  /-- A handle in hand was looked up under the name the frame gives. -/
  aim : ∀ c conn late o rest writer, s.conns.lookup c = some conn →
    conn.stage = .pumping (.busy late (.routing o) rest) writer →
      ∃ r, s.conns.lookup o = some r ∧ ∀ target, addressee conn.current = some target → r.name.peer = target

theorem Calls.name {call : Call} {answer : call.Answer} (h : Calls conn call answer conn') : conn'.name = conn.name := by
  cases h <;> rfl

theorem Conn.Moves.grows {e : RelayEv} (h : conn.Moves env c e conn') :
    conn'.name = conn.name ∧ conn.turns <+: conn'.turns := by
  cases h with
  | drives e flag conn' hd => exact ⟨hd.kept.name, hd.kept.turns ▸ List.prefix_rfl⟩
  | read branch late writer => exact ⟨rfl, List.prefix_append _ _⟩
  | act now order conn' late turn call rest writer answer _ hcalls =>
    exact ⟨hcalls.name, hcalls.kept.1 ▸ List.prefix_rfl⟩
  | _ => exact ⟨rfl, List.prefix_rfl⟩

/-- A connection stays, under its name and with all it has read. -/
theorem Step.grows {e : RelayEv} (hs : Step env s e t) (hr : RelayInv env s) {j : Nat} {x : Conn}
    (hj : s.conns.lookup j = some x) :
    ∃ x', t.conns.lookup j = some x' ∧ x'.name = x.name ∧ x.turns <+: x'.turns := by
  obtain ⟨x', hx'⟩ := Option.isSome_iff_exists.mp (hs.stays (by rw [hj]; rfl))
  rcases hs.moves hr hx' with ⟨hnone, -⟩ | ⟨y, hy, hm⟩
  · rw [hj] at hnone
    cases hnone
  · cases hj.symm.trans hy
    exact ⟨x', hx', hm.grows⟩

/-- What is in a log stays there. -/
theorem Step.keeps_log {e : RelayEv} (hs : Step env s e t) (hr : RelayInv env s) {j : Nat} {x x' : Conn}
    (hj : s.conns.lookup j = some x) (hj' : t.conns.lookup j = some x') : x.log <+: x'.log := by
  by_cases hact : ∃ c now order, e = .act c now order
  · obtain ⟨c, now, order, rfl⟩ := hact
    cases hs with
    | drive e c conn conn' hc hd => cases hd
    | act c now order conn conn' late turn call rest writer answer s' hc hst ha hc' =>
      have hs' : ∀ y, s'.conns.lookup j = some y → x.log <+: y.log := by
        intro y hy
        rcases (answer_answers hc ha).given_or_later hc with hl | ⟨o, payload, target, rfl, ho, rfl⟩
        · obtain ⟨z, hz, hlater⟩ := hl.forth j x hj
          cases hy.symm.trans hz
          rw [hlater.log]
        · rcases Sys.lookup_put_some hy with ⟨rfl, rfl⟩ | ⟨-, hy⟩
          · cases hj.symm.trans ho
            exact List.prefix_append _ _
          · cases hj.symm.trans hy
            exact List.prefix_rfl
      rcases Sys.lookup_put_some hj' with ⟨rfl, rfl⟩ | ⟨-, hj'⟩
      · exact hs' conn' hc'
      · exact hs' x' hj'
  · rcases hs.moves hr hj' with ⟨hnone, -⟩ | ⟨y, hy, hm⟩
    · rw [hj] at hnone
      cases hnone
    cases hj.symm.trans hy
    cases hm with
    | given e d => exact List.prefix_append _ _
    | drives e flag _ hd => rw [hd.kept.log]
    | act now order => exact absurd ⟨j, now, order, rfl⟩ hact
    | _ => exact List.prefix_rfl

/-- An entry of a log was there before the step, or a handler's call has just put it there. -/
theorem Step.logged {e : RelayEv} (hs : Step env s e t) {o : Nat} {r' : Conn} (ho : t.conns.lookup o = some r')
    {d : Delivery} (hd : d ∈ r'.log) :
    (∃ r, s.conns.lookup o = some r ∧ r'.name = r.name ∧ d ∈ r.log) ∨
      ∃ c conn late turn payload rest writer target, s.conns.lookup c = some conn ∧
        conn.stage = .pumping (.busy late turn (.call (.enqueue o payload) rest)) writer ∧
        s.conns.lookup o = some target ∧ r'.name = target.name ∧ d = ⟨c, conn.seq, payload⟩ := by
  have hput : ∀ {u : Sys} {c : Nat} {conn conn' : Conn}, u.conns.lookup c = some conn →
      (u.put c conn').conns.lookup o = some r' → conn'.name = conn.name → conn'.log = conn.log →
      ∃ r, u.conns.lookup o = some r ∧ r'.name = r.name ∧ r'.log = r.log := by
    intro u c conn conn' hc ho hname hlog
    rcases Sys.lookup_put_some ho with ⟨rfl, rfl⟩ | ⟨-, ho⟩
    · exact ⟨conn, hc, hname, hlog⟩
    · exact ⟨r', ho, rfl, rfl⟩
  have hsame : ∀ {c : Nat} {conn conn' : Conn}, s.conns.lookup c = some conn →
      (s.put c conn').conns.lookup o = some r' → conn'.name = conn.name → conn'.log = conn.log →
      ∃ r, s.conns.lookup o = some r ∧ r'.name = r.name ∧ d ∈ r.log := by
    intro c conn conn' hc ho hname hlog
    obtain ⟨r, hr, hname, hlog⟩ := hput hc ho hname hlog
    exact ⟨r, hr, hname, hlog ▸ hd⟩
  cases hs with
  | hello frame name =>
    rcases Sys.lookup_put_some ho with ⟨rfl, rfl⟩ | ⟨-, ho⟩
    · cases hd
    · exact .inl ⟨r', ho, rfl, hd⟩
  | insert c conn registry hc | read c branch conn writer hc | drop c conn registry hc | forget c conn hc =>
    exact .inl (hsame hc ho rfl rfl)
  | drive e c conn conn' hc hd => exact .inl (hsame hc ho hd.kept.name hd.kept.log)
  | act c now order conn conn' late turn call rest writer answer s' hc hst ha hc' =>
    have hanswers := answer_answers hc ha
    obtain ⟨r, hr, hname, hlog⟩ := hput hc' ho rfl rfl
    rcases hanswers.given_or_later hc with hl | ⟨o', payload, target, rfl, ho', rfl⟩
    · rcases hl.back o r hr with ⟨x, hx, hxl⟩ | ⟨hnil, -⟩
      · exact .inl ⟨x, hx, hname.trans hxl.name, hxl.log ▸ hlog ▸ hd⟩
      · rw [hlog, hnil] at hd
        cases hd
    · rw [hlog] at hd
      rcases Sys.lookup_put_some hr with ⟨rfl, rfl⟩ | ⟨-, hr⟩
      · rcases List.mem_append.mp hd with hd | hd
        · exact .inl ⟨target, ho', hname, hd⟩
        · exact .inr ⟨c, conn, late, turn, payload, rest, writer, target, hc, hst, ho', hname, List.mem_singleton.mp hd⟩
      · exact .inl ⟨r, hr, hname, hd⟩
  | transfer e store => exact .inl ⟨r', ho, rfl, hd⟩
  | shutdown => exact .inl ⟨r', ho, rfl, hd⟩

/-- What a handler puts into a queue goes to whom its frame names. -/
theorem AddressInv.enqueued (h : AddressInv s) (hr : RelayInv env s) (hc : s.conns.lookup c = some conn) {late : Bool}
    {turn : Turn} {o : Nat} {payload : Bytes} {rest : ReceiptStatus → Handler ControlFlow} {writer : Writer}
    (hst : conn.stage = .pumping (.busy late turn (.call (.enqueue o payload) rest)) writer) {target : Conn}
    (ho : s.conns.lookup o = some target) : Addressed s target ⟨c, conn.seq, payload⟩ := by
  obtain ⟨hobeys, hfits⟩ := hr.keeps c conn hc late turn _ writer hst
  have hmay := (hobeys.answer ReceiptStatus.routed).1
  cases turn with
  | routing o' =>
    obtain ⟨rfl, hp⟩ := hmay
    obtain ⟨r, hr', haim⟩ := h.aim c conn late o _ writer hc hst
    cases ho.symm.trans hr'
    exact ⟨conn, conn.current, hc, Conn.frame_current hp, haim⟩
  | fanning todo counts =>
    cases todo with
    | nil => cases hmay
    | cons o' todo =>
      obtain ⟨rfl, hp⟩ := hmay
      obtain ⟨id, body, replyTo, attachment, hann⟩ := hfits
      refine ⟨conn, conn.current, hc, Conn.frame_current hp, fun peer hpeer => ?_⟩
      rw [hann] at hpeer
      cases hpeer
  | owing acknowledgement => cases hmay
  | _ => exact hmay.elim

theorem nextTurn_routing {registered : RegisteredPeer} {frame : ClientFrame} {turn : Turn} {call : Call}
    {answer : call.Answer} {o : Nat} (hmay : mayCall env registered frame turn call)
    (h : nextTurn frame turn call answer = .routing o) :
    turn = .claimed ∧ ∃ room target, call = .outboundOf room target := by
  cases turn with
  | fresh free =>
    cases call with
    | capacity => cases h
    | listPeers room => cases h
    | trySend reply => simp only [nextTurn] at h; split at h <;> cases h
    | tryReserve => simp only [nextTurn] at h; split at h <;> cases h
    | _ => exact hmay.elim
  | claimed =>
    cases call with
    | outboundOf room target => exact ⟨rfl, room, target, rfl⟩
    | recipients room announcer => cases h
    | reserve room digest bytes => cases h
    | permitDrop => cases h
    | _ => exact hmay.elim
  | routing o' =>
    cases call with
    | enqueue outbound payload => cases h
    | permitDrop => cases h
    | _ => exact hmay.elim
  | fanning todo counts =>
    cases todo with
    | nil => cases hmay; cases h
    | cons o' todo =>
      cases call with
      | enqueue outbound payload => cases h
      | _ => exact hmay.elim
  | owing acknowledgement => cases hmay; cases h
  | _ => exact hmay.elim

/-- A handle is looked up under the name the frame gives, in the sender's room. -/
theorem looked_up (hr : RelayInv env s) {now : Nat} {turn : Turn} {call : Call} {answer : call.Answer}
    (ha : Answers s c conn now call answer t) (hmay : mayCall env (registeredPeer c conn) conn.current turn call)
    {o : Nat} (h : nextTurn conn.current turn call answer = .routing o) :
    ∃ r, s.conns.lookup o = some r ∧ ∀ target, addressee conn.current = some target → r.name.peer = target := by
  obtain ⟨rfl, room, target, rfl⟩ := nextTurn_routing hmay h
  cases ha with
  | outboundOf room target =>
    obtain ⟨rfl, id, body, replyTo, attachment, hcurrent⟩ := hmay
    cases hout : outboundOf s.registry.rooms (registeredPeer c conn).room target with
    | none =>
      rw [hout] at h
      cases h
    | some outbound =>
      rw [hout] at h
      cases h
      obtain ⟨r, hl, hname⟩ :=
        hr.holder_conn (show holder s.registry.rooms ⟨conn.name.room, target⟩ = some o from hout)
      refine ⟨r, hl, fun peer hpeer => ?_⟩
      rw [hcurrent] at hpeer
      cases hpeer
      rw [hname]

/-- A connection whose handler holds a handle held it before the step, or has just looked it up. -/
theorem AddressInv.aimed (h : AddressInv s) (hr : RelayInv env s) {e : RelayEv} (hs : Step env s e t) {late : Bool} {o : Nat}
    {rest : Handler ControlFlow} {writer : Writer} (hc : t.conns.lookup c = some conn')
    (hst : conn'.stage = .pumping (.busy late (.routing o) rest) writer) :
    ∃ r, s.conns.lookup o = some r ∧ ∀ target, addressee conn'.current = some target → r.name.peer = target := by
  have hcurrent : ∀ {x y : Conn}, y.turns = x.turns → y.current = x.current := by
    intro x y hturns
    simp only [Conn.current, Conn.frame, Conn.seq, hturns]
  by_cases hact : ∃ c now order, e = .act c now order
  · obtain ⟨c', now, order, rfl⟩ := hact
    cases hs with
    | drive e c conn conn' hc hd => cases hd
    | act c' now order x x' late' turn call rest' writer' answer s' hx hxst ha hx' =>
      have hanswers := answer_answers hx ha
      rcases Sys.lookup_put_some hc with ⟨rfl, rfl⟩ | ⟨-, hc⟩
      · obtain ⟨y, hy, -, -, hturns⟩ := hanswers.find hx hx'
        cases hx.symm.trans hy
        obtain ⟨hb, -⟩ := Stage.pumping.inj hst
        obtain ⟨-, hrouting, rfl⟩ := Reader.of_busy hb
        have hmay := ((hr.keeps c x hx late' turn _ writer' hxst).1.answer answer).1
        obtain ⟨r, ho, haim⟩ := looked_up hr hanswers hmay hrouting.symm
        refine ⟨r, ho, fun target htarget => haim target ?_⟩
        rw [← htarget]
        exact congrArg addressee (hcurrent hturns).symm
      · obtain ⟨y, hy, -, hstage, hturns⟩ := hanswers.find hx hc
        rw [hcurrent hturns]
        exact h.aim c y late o rest writer hy (hstage.symm.trans hst)
  · rcases hs.moves hr hc with ⟨-, name, rfl⟩ | ⟨x, hx, hm⟩
    · cases hst
    cases hm with
    | still => exact h.aim c _ late o rest writer hx hst
    | given e d => exact h.aim c x late o rest writer hx hst
    | inserted => cases hst
    | drives e flag _ hd =>
      have hidle := hd.kept.idle
      rw [hst] at hidle
      cases hidle
    | read branch late' writer' =>
      obtain ⟨hb, -⟩ := Stage.pumping.inj hst
      obtain ⟨-, hrouting, -⟩ := Reader.of_busy hb
      cases hrouting
    | act now order => exact absurd ⟨c, now, order, rfl⟩ hact
    | retired e stage _ _ hstage =>
      rcases hstage with rfl | rfl <;> cases hst

theorem Step.address {e : RelayEv} (hs : Step env s e t) (hr : RelayInv env s) (h : AddressInv s) : AddressInv t := by
  constructor
  · intro o r' ho d hd
    -- either way the entry was rightly addressed before the step, and nobody's name or reading is undone
    have hold : ∃ r, r'.name = r.name ∧ Addressed s r d := by
      rcases hs.logged ho hd with ⟨r, hr', hname, hd⟩ | ⟨c, conn, late, turn, payload, rest, writer, target, hc, hst, ho', hname, rfl⟩
      · exact ⟨r, hname, h.log o r hr' d hd⟩
      · exact ⟨target, hname, h.enqueued hr hc hst ho'⟩
    obtain ⟨r, hname, sender, frame, hsender, hframe, haddr⟩ := hold
    obtain ⟨sender', hsender', -, hturns⟩ := hs.grows hr hsender
    exact ⟨sender', frame, hsender', Conn.frame_mono hturns hframe, hname ▸ haddr⟩
  · intro c conn late o rest writer hc hst
    obtain ⟨r, ho, haim⟩ := h.aimed hr hs hc hst
    obtain ⟨r', ho', hname, -⟩ := hs.grows hr ho
    exact ⟨r', ho', hname ▸ haim⟩

theorem address_inv {ok : Sys → RelayEv → Prop} (h : RelayReach env ok s) : AddressInv s := by
  refine (h.inv (P := fun s => RelayInv env s ∧ AddressInv s) ⟨.init, ?_, ?_⟩ fun s e t hi _ hstep => ?_).2
  · intro o r ho
    cases ho
  · intro c conn late o rest writer hc
    cases hc
  · exact ⟨(relayStep_step hstep).relayInv hi.1, (relayStep_step hstep).address hi.1 hi.2⟩

end OmpRelayd.Relay
