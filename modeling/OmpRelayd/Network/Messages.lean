/-
  OmpRelayd.Network.Messages — a message on its whole way.

  On the client's side of a cable, what was dispatched is what the relay's items come to
  (`stream_frames`): every item the codec lets through is one frame, and a message or a notice is
  dispatched for each delivery and for nothing else. A delivery is an entry of the log of the
  connection behind the door (`Leaves`), and an entry comes from a frame that a connection of the
  same room has read. If that connection is behind a cable too, its frame is one that a call of the
  client at the other end asked for (`Said`).

  Proved (`every_message_was_sent`): in every run of the network, whatever messages and notices a
  client is handed on one of its sockets are, one for one and in order, the first entries of the log
  of its own connection; each was sent to it, or announced by somebody else, in its room, under the
  sender's own name, with the id, the reply and the attachment the sender gave, and with the body
  as the client reads it (`Client.readText`); those of one sender come in the order they were sent,
  and none comes twice. And when all that was written has arrived, they are all there
  (`nothing_is_missing_at_rest`).
-/

import OmpRelayd.Network.Cables

namespace OmpRelayd

open Relay (Env Doorman Door Item Conn Sys Delivery Name wireEnv)

/-! ## Deliveries on the wire -/

def Client.ServerFrame.delivers : Client.ServerFrame → Bool
  | .message _ _ _ _ _ => true
  | .notice _ _ _ _ _ => true
  | _ => false

theorem seen_delivers (frame : ServerFrame) : (Client.seen frame).delivers = frame.delivers := by
  cases frame <;> rfl

theorem readFrame_delivers (frame : ServerFrame) : (Client.readFrame frame).delivers = frame.delivers := by
  cases frame <;> rfl

theorem readBody_delivers (frame : ServerFrame) : (Client.readBody frame).delivers = frame.delivers := by
  cases frame <;> rfl

theorem decode_server {frame : ServerFrame} (htyped : frame.Typed) (hfits : frame.value.Fits) :
    Decode.decode Decode.serverFrameOf frame.value.encode = .ok frame := by
  refine (Decode.RoundTrips.of_carries (Decode.ServerType.keys_nodup _) (Decode.ServerType.type_notMem_keys _)
    (Decode.ServerFrame.laid frame) (Decode.ServerFrame.shallow frame) hfits ?_).decoded
  intro entries content htag hcarries
  rw [Decode.ServerFrame.typeName_eq] at htag
  simp only [Decode.serverFrameOf, htag, Decode.ServerType.identify_name, Option.bind_eq_bind, Option.bind_some,
    Option.join_some]
  exact Decode.serverVariant_carries htyped hcarries

/-- A delivery is the only one with its bytes. -/
theorem encode_delivery_inj {frame other : ServerFrame} (hframe : frame.delivers = true) (hother : other.delivers = true)
    (hlen : (encode frame).length ≤ maxFrameBytes) (h : encode frame = encode other) : frame = other := by
  have hdecode : ∀ f : ServerFrame, f.delivers = true → (encode f).length ≤ maxFrameBytes →
      Decode.decode Decode.serverFrameOf (encode f) = .ok f := by
    intro f hf hflen
    have hcarried : Client.Carried f.value :=
      Client.carried_named hflen (List.forall_mem_cons.mpr ⟨Client.plain_text _ _, Client.serverFields_plain f⟩)
    refine decode_server ?_ hcarried.1
    cases f <;> trivial
  have hsame := (hdecode frame hframe hlen).symm.trans (h ▸ hdecode other hother (h ▸ hlen))
  cases hsame
  rfl

/-- The client makes this frame of the payload of a delivery. -/
def Bears (payload : Bytes) (frame : Client.ServerFrame) : Prop :=
  ∃ sent : ServerFrame, sent.delivers = true ∧ (encode sent).length ≤ maxFrameBytes ∧ encode sent = payload ∧
    Client.seen (Client.readBody sent) = frame

section
variable {printable : Char → Bool} {idleDebug : String} {blobs : Bool} {world : Client.World} {item : Item}

theorem sound_delivers {env : Env} {frame : ClientFrame} {told : Relay.Told} {reply : ServerFrame}
    (h : Relay.Sound env frame told reply) : reply.delivers = false := by
  cases h with
  | reserved requestId granted => cases granted <;> rfl
  | _ => rfl

/-- What the client makes of an item that the codec lets through. -/
theorem utterance_understood (h : Utterance (wireEnv printable idleDebug blobs) item) (lossy : Bytes → String)
    (hlen : (Client.itemBytes item).length ≤ maxFrameBytes) :
    ∃ frame : ServerFrame, Client.Understood lossy (Client.itemBytes item) frame ∧
      (item.delivered = none ∧ frame.delivers = false ∨
        ∃ sent, sent.delivers = true ∧ frame = Client.readBody sent ∧ item.delivered = some (encode sent)) := by
  cases h with
  | refusal code message =>
    exact ⟨_, Client.understood_of_wellFormed lossy trivial hlen, .inl ⟨rfl, rfl⟩⟩
  | written _ hwritten =>
    cases hwritten with
    | reply reply frame told _ htold hsound =>
      exact ⟨_, Client.understood_of_wellFormed lossy (Client.wellFormed_of_sound htold hsound) hlen,
        .inl ⟨rfl, (readFrame_delivers _).trans (sound_delivers hsound)⟩⟩
    | delivery payload sender hsender hdelivers =>
      obtain ⟨sent, hsent, rfl, -, hwell, hread⟩ := Client.wellFormed_of_delivers hsender hdelivers
      exact ⟨_, Client.understood_of_wellFormed lossy hwell hlen, .inr ⟨sent, hsent, hread, rfl⟩⟩
    | ready => exact ⟨_, Client.understood_of_wellFormed lossy trivial hlen, .inl ⟨rfl, rfl⟩⟩
    | replaced => exact ⟨_, Client.understood_of_wellFormed lossy trivial hlen, .inl ⟨rfl, rfl⟩⟩

/-- Deliveries are never too long. -/
theorem utterance_fits (h : Utterance (wireEnv printable idleDebug blobs) item) {payload : Bytes}
    (hd : item.delivered = some payload) : (Client.itemBytes item).length ≤ maxFrameBytes := by
  cases h with
  | refusal code message => cases hd
  | written _ hwritten =>
    cases hwritten with
    | delivery payload sender hsender hdelivers =>
      obtain ⟨frame, -, rfl, hlen, -⟩ := Client.wellFormed_of_delivers hsender hdelivers
      exact hlen
    | _ => cases hd

theorem nextFrame_framed {V : Type} {decode : Bytes → Except String V} {payload wire : Bytes} {value : V}
    (h : framed payload = some wire) (hpos : payload ≠ []) (hdecode : decode payload = .ok value) (rest : Bytes) :
    Client.nextFrame decode (wire ++ rest) = .item value rest := by
  unfold framed at h
  by_cases hmax : maxFrameBytes < payload.length
  · simp [hmax] at h
  rw [if_neg hmax] at h
  cases h
  have hhead : (bigEndian headBytes payload.length).length = Client.lengthPrefixBytes := length_bigEndian _ _
  have hdeclared : Client.declaredLength (bigEndian headBytes payload.length ++ payload) = payload.length :=
    FrameReader.declared_pending (Nat.le_of_not_lt hmax) payload
  have hwhole : Client.nextFrame decode (bigEndian headBytes payload.length ++ payload) = .item value [] := by
    refine Client.nextFrame_whole ?_ ?_ ?_ ?_
    · rw [hdeclared]
      exact fun hzero => hpos (List.eq_nil_of_length_eq_zero hzero)
    · omega
    · rw [hdeclared, List.length_append, hhead]
    · rw [List.drop_left' hhead]
      exact hdecode
  rw [Client.nextFrame_append rest (by rw [hwhole]; intro h; cases h), hwhole]
  rfl

theorem itemBytes_delivered {payload : Bytes} (h : item.delivered = some payload) : Client.itemBytes item = payload := by
  cases item <;> cases h
  rfl

theorem understood_decodes {bytes : Bytes} {frame : ServerFrame} (h : Client.Understood world.lossy bytes frame) :
    bytes ≠ [] ∧ ∃ value, world.decode bytes = .ok value ∧ Client.validateServerFrame value = .frame (Client.seen frame) := by
  obtain ⟨value, hvalue, hvalid⟩ := h
  refine ⟨?_, Client.js world.lossy value, ?_, hvalid⟩
  · intro hempty
    rw [hempty] at hvalue
    cases hvalue
  · simp [Client.World.decode, Client.decodePayload, hvalue, Except.map]

/-- What a client reads where the relay wrote these items. -/
structure Streams (world : Client.World) (items : List Item) (values : List Client.Js) : Prop where
  scanned : List.Forall₂ (fun wire value => ∀ rest, (Client.frames world.decode).next (wire ++ rest) = .item value rest)
    (items.filterMap wireOf) values
  readable : Client.Readable values
  borne : List.Forall₂ Bears (items.filterMap Item.delivered) ((Client.accepted values).filter Client.ServerFrame.delivers)

theorem stream_frames (world : Client.World) {items : List Item}
    (h : ∀ item ∈ items, Utterance (wireEnv printable idleDebug blobs) item) : ∃ values, Streams world items values := by
  induction items with
  | nil => exact ⟨[], .nil, List.forall_mem_nil _, .nil⟩
  | cons item items ih =>
    obtain ⟨hitem, hitems⟩ := List.forall_mem_cons.mp h
    obtain ⟨values, hscanned, hreadable, hborne⟩ := ih hitems
    cases hf : wireOf item with
    | none =>
      -- the codec does not take it, so it is no delivery
      have hnone : item.delivered = none := by
        cases hd : item.delivered with
        | none => rfl
        | some payload =>
          have hlen := utterance_fits hitem hd
          simp [wireOf, framed, Nat.not_lt.mpr hlen] at hf
      refine ⟨values, ?_, hreadable, ?_⟩
      · rw [List.filterMap_cons_none hf]
        exact hscanned
      · rw [List.filterMap_cons_none hnone]
        exact hborne
    | some wire =>
      have hlen : (Client.itemBytes item).length ≤ maxFrameBytes := by
        by_contra hlong
        simp [wireOf, framed, Nat.lt_of_not_le hlong] at hf
      obtain ⟨frame, hunderstood, hkind⟩ := utterance_understood hitem world.lossy hlen
      obtain ⟨hpos, value, hdecode, hvalid⟩ := understood_decodes hunderstood
      have haccepted : Client.accepted (value :: values) = Client.seen frame :: Client.accepted values := by
        simp only [Client.accepted, hvalid]
      refine ⟨value :: values, ?_, ?_, ?_⟩
      · rw [List.filterMap_cons_some hf]
        exact .cons (nextFrame_framed hf hpos hdecode) hscanned
      · refine List.forall_mem_cons.mpr ⟨fun reason hinvalid => ?_, hreadable⟩
        cases hvalid.symm.trans hinvalid
      · rw [haccepted]
        rcases hkind with ⟨hnone, hframe⟩ | ⟨sent, hsent, rfl, hsome⟩
        · rw [List.filterMap_cons_none hnone, List.filter_cons_of_neg (by rw [seen_delivers, hframe]; exact Bool.false_ne_true)]
          exact hborne
        · rw [List.filterMap_cons_some hsome, List.filter_cons_of_pos (by rw [seen_delivers, readBody_delivers, hsent])]
          exact .cons ⟨sent, hsent, itemBytes_delivered hsome ▸ hlen, rfl, rfl⟩ hborne

/-- The messages and notices a client was handed on a socket. -/
def handedOn (s : Nat) (history : List Client.Effect) : List Client.ServerFrame :=
  (Client.dispatchedOn s history).filter Client.ServerFrame.delivers

variable {items : List Item} {values : List Client.Js} {s : Nat} {history : List Client.Effect}

theorem Streams.scan (h : Streams world items values) :
    ((Client.frames world.decode).scan (stream items)).failure = none ∧
      ((Client.frames world.decode).scan (stream items)).values = values := by
  rw [stream, Scanner.scan_written _ h.scanned]
  exact ⟨rfl, rfl⟩

theorem Streams.handed_all (h : Streams world items values) (hheard : (Client.heardOn s history).flatten = stream items)
    (hwhole : Client.dispatchedOn s history = Client.accepted (Client.received world.decode (Client.heardOn s history)).values) :
    List.Forall₂ Bears (items.filterMap Item.delivered) (handedOn s history) := by
  have hvalues : (Client.received world.decode (Client.heardOn s history)).values = values := by
    rw [Client.received_scan, hheard]
    exact h.scan.2
  rw [handedOn, hwhole, hvalues]
  exact h.borne

end

/-! ## The sender's end -/

/-- A call of the client asked for this frame, and it was written on the socket. -/
def Said (client : Client.RelayClient) (s : Nat) (frame : ClientFrame) : Prop :=
  ∃ r encoded call said, .wrote s (.request r) encoded ∈ client.history ∧
    .issued r (Client.Call.kind call) call.token ∈ client.history ∧ call.frame = .ok said ∧ heard said = frame

theorem admitted_hello {env : Env} {offered : Nat} {room : RoomId} {peer : String} {name : Name}
    (h : Relay.admitted env (.hello offered room peer) = .ok name) : name = ⟨room, peer⟩ := by
  simp only [Relay.admitted] at h
  split at h
  · cases h
  · obtain ⟨_, -, h⟩ := Extension.bind_ok h
    obtain ⟨_, -, h⟩ := Extension.bind_ok h
    obtain ⟨_, -, h⟩ := Extension.bind_ok h
    cases h
    rfl

/-- Who is served at the end of a cable, and what it is heard to say. -/
theorem served_is_client {world : Client.World} {client : Client.RelayClient} {env : Env} {doorman : Doorman} {s : Nat}
    {arrived left : Bytes} {taken : List Bytes} {conn : Conn} (hr : Reach (Client.step world) {} Client.Orderly client)
    (harrived : arrived <+: Client.written s client.history) (hserves : Relay.Serves env doorman arrived taken left conn) :
    conn.name = ⟨world.room, world.peer⟩ ∧ ∀ frame, .decoded frame ∈ conn.heard → frame = .ping ∨ Said client s frame := by
  obtain ⟨-, reads, hreads, hvalues⟩ := scan_written_lines (Client.conversing_of_reach hr).proper harrived
  obtain ⟨first, rest, hello, rfl, hdecode, hadmitted, hheard⟩ := hserves.greeted
  rw [hserves.parted.scan.1, List.cons_append] at hvalues
  cases reads with
  | nil => cases hvalues
  | cons read reads =>
    obtain ⟨rfl, hlater⟩ := List.cons.inj hvalues
    rcases Client.greets_first hr s with hnone | ⟨encoded, lines, hlines, hfollow⟩
    · rw [hnone, List.take_nil] at hreads
      cases hreads
    rw [hlines, List.length_cons, List.take_succ_cons] at hreads
    obtain ⟨hfirst, hothers⟩ := List.forall₂_cons.mp hreads
    constructor
    · have hgreets := hfirst.decoded
      rw [hdecode, hfirst.hello rfl] at hgreets
      cases hgreets
      exact admitted_hello hadmitted
    · intro frame hframe
      rw [hheard] at hframe
      obtain ⟨bytes, hbytes, hinbound⟩ := List.mem_map.mp hframe
      have hmem : bytes ∈ reads.map (·.1) := hlater ▸ List.mem_append_left _ hbytes
      obtain ⟨read, hread, rfl⟩ := List.mem_map.mp hmem
      obtain ⟨line, hline, hreads⟩ := exists_of_mem_right hothers read hread
      have hline := List.mem_of_mem_take hline
      have hsame : read.2 = frame := by
        simp only [Relay.inboundOf, hreads.decoded] at hinbound
        cases hinbound
        rfl
      obtain ⟨what, wrote⟩ := line
      cases what with
      | hello => exact absurd rfl (hfollow _ hline)
      | ping => exact .inl (hsame ▸ hreads.ping rfl)
      | request r =>
        obtain ⟨call, said, hissued, hcall, hsaid⟩ := hreads.request r rfl
        have hwrote : (Client.Outgoing.request r, wrote) ∈ Client.wroteOn s client.history := by
          rw [hlines]
          exact List.mem_cons_of_mem _ hline
        exact .inr ⟨r, wrote, call, said, Client.mem_wroteOn.mp hwrote, hissued, hcall, hsaid.trans hsame⟩

theorem heard_of_frame {conn : Conn} {seq : Nat} {frame : ClientFrame} (h : conn.frame seq = some frame)
    (hframe : frame ≠ .unsupported) : .decoded frame ∈ conn.heard := by
  obtain ⟨branch, hbranch, rfl⟩ := Option.map_eq_some_iff.mp h
  refine List.mem_filterMap.mpr ⟨branch, List.mem_of_getElem? hbranch, ?_⟩
  cases branch with
  | inbound read =>
    cases read with
    | decoded frame => rfl
    | _ => exact absurd rfl hframe
  | _ => exact absurd rfl hframe

/-! ## From one end to the other -/

/-- What a frame of the sender's becomes where it is delivered: a long body has lost its mark. -/
inductive Becomes (sender recipient : Name) : ClientFrame → Client.ServerFrame → Prop
  | message (id body : String) (replyTo attachment : Option String) :
    Becomes sender recipient (.send id recipient.peer body replyTo attachment)
      (.message id sender.peer (Client.readText body) replyTo attachment)
  | notice (id body : String) (replyTo attachment : Option String) : recipient.peer ≠ sender.peer →
    Becomes sender recipient (.announce id body replyTo attachment)
      (.notice id sender.peer (Client.readText body) replyTo attachment)

section
variable {ι : Type}

/-- Where a frame that a client was handed comes from: an entry of the log it was queued under. -/
structure Comes (worlds : ι → Client.World) (n : Network ι) (recipient : Name) (entry : Delivery) (frame : Client.ServerFrame)
    (sender : Conn) (said : ClientFrame) : Prop where
  known : n.port.sys.conns.lookup entry.sender = some sender
  read : sender.frame entry.seq = some said
  room : sender.name.room = recipient.room
  becomes : Becomes sender.name recipient said frame
  /-- And where the sender is one of the clients, it is that client's word. -/
  spoken : ∀ d cable door, n.cables.lookup d = some cable → n.port.doors.lookup d = some door →
    door.stage.serves = some entry.sender →
    sender.name = ⟨(worlds cable.client).room, (worlds cable.client).peer⟩ ∧ Said (n.clients cable.client) cable.socket said

/-- Whom the relay serves at a door. -/
def Network.connAt (n : Network ι) (d : Nat) : Option Conn :=
  (n.port.doors.lookup d).bind fun door => door.stage.serves.bind n.port.sys.conns.lookup

/-- The first entries of its log, as many as the client was handed. -/
def Network.entries (n : Network ι) (d : Nat) (cable : Cable ι) : List Delivery :=
  ((n.connAt d).map fun conn => conn.log.take (handedOn cable.socket (n.clients cable.client).history).length).getD []

variable {n : Network ι} {d : Nat} {cable : Cable ι} {conn : Conn}

theorem Network.connAt_iff : n.connAt d = some conn ↔ ∃ door c, n.port.doors.lookup d = some door ∧ door.stage.serves = some c ∧
    n.port.sys.conns.lookup c = some conn := by
  simp only [Network.connAt, Option.bind_eq_some_iff]
  constructor
  · intro h
    obtain ⟨door, hdoor, c, hserves, hconn⟩ := h
    exact ⟨door, c, hdoor, hserves, hconn⟩
  · intro h
    obtain ⟨door, c, hdoor, hserves, hconn⟩ := h
    exact ⟨door, hdoor, c, hserves, hconn⟩

variable [DecidableEq ι] {worlds : ι → Client.World} {env : Env} {doorman : Doorman} {door : Door} {c : Nat}

/-- The connection at the end of a cable is its client's. -/
theorem client_served (h : NetReach worlds env doorman n) (hcable : n.cables.lookup d = some cable)
    (hdoor : n.port.doors.lookup d = some door) (hserves : door.stage.serves = some c)
    (hconn : n.port.sys.conns.lookup c = some conn) :
    conn.name = ⟨(worlds cable.client).room, (worlds cable.client).peer⟩ ∧
      ∀ frame, .decoded frame ∈ conn.heard → frame = .ping ∨ Said (n.clients cable.client) cable.socket frame := by
  obtain ⟨same, hsame, harrived, -⟩ := ((net_inv h).cable d cable hcable).door
  cases hdoor.symm.trans hsame
  have hkept := (Relay.port_inv (port_of_reach h)).kept d door hdoor
  cases hstage : door.stage with
  | serving c' reader =>
    rw [hstage] at hserves hkept
    cases hserves
    obtain ⟨-, -, conn', hconn', hkept⟩ := hkept
    cases hconn.symm.trans hconn'
    exact served_is_client (client_of_reach h cable.client) harrived hkept
  | _ =>
    rw [hstage] at hserves
    cases hserves

variable {printable : Char → Bool} {idleDebug : String} {blobs : Bool}

theorem comes_of_bears (h : NetReach worlds (wireEnv printable idleDebug blobs) doorman n)
    (hconn : n.port.sys.conns.lookup c = some conn) {entry : Delivery} (hentry : entry ∈ conn.log) {frame : Client.ServerFrame}
    (hbears : Bears entry.payload frame) : ∃ sender said, Comes worlds n conn.name entry frame sender said := by
  have hrelay := Relay.relayReach (port_of_reach h)
  obtain ⟨sender, said, hsender, hroom, -, hsaid, hdelivery, hannounce⟩ :=
    (Relay.routing_inv hrelay).log.authentic c conn hconn entry hentry
  obtain ⟨sender', said', hsender', hsaid', haddressed⟩ := (Relay.address_inv hrelay).log c conn hconn entry hentry
  cases hsender.symm.trans hsender'
  cases hsaid.symm.trans hsaid'
  obtain ⟨sent, hdelivers, hlen, hencode, rfl⟩ := hbears
  -- the bytes tell the frame
  have hsent : ∀ out : ServerFrame, out.delivers = true → (wireEnv printable idleDebug blobs).encode out = some entry.payload →
      sent = out := fun out hout henc => encode_delivery_inj hdelivers hout hlen (hencode.trans (Option.some.inj henc).symm)
  have hspoken : said ≠ .unsupported → said ≠ .ping → ∀ d cable door, n.cables.lookup d = some cable →
      n.port.doors.lookup d = some door → door.stage.serves = some entry.sender →
      sender.name = ⟨(worlds cable.client).room, (worlds cable.client).peer⟩ ∧
        Said (n.clients cable.client) cable.socket said := by
    intro hsupported hping d cable door hcable hdoor hserves
    obtain ⟨hname, hwords⟩ := client_served h hcable hdoor hserves hsender
    exact ⟨hname, (hwords said (heard_of_frame hsaid hsupported)).resolve_left hping⟩
  rcases Relay.delivery_some hdelivery with ⟨id, target, body, replyTo, attachment, rfl, henc⟩ |
    ⟨id, body, replyTo, attachment, rfl, henc⟩
  · cases hsent _ rfl henc
    cases haddressed target rfl
    exact ⟨sender, _, hsender, hsaid, hroom, .message id body replyTo attachment, hspoken (by simp) (by simp)⟩
  · cases hsent _ rfl henc
    exact ⟨sender, _, hsender, hsaid, hroom, .notice id body replyTo attachment (hannounce rfl), hspoken (by simp) (by simp)⟩

theorem comes_of_borne (h : NetReach worlds (wireEnv printable idleDebug blobs) doorman n)
    (hconn : n.port.sys.conns.lookup c = some conn) {entries : List Delivery} (hentries : entries <+: conn.log)
    {frames : List Client.ServerFrame} (hborne : List.Forall₂ Bears (entries.map (·.payload)) frames) :
    List.Forall₂ (fun entry frame => ∃ sender said, Comes worlds n conn.name entry frame sender said) entries frames := by
  rw [List.forall₂_map_left_iff] at hborne
  refine ((List.forall₂_and_left _ _).mpr ⟨fun entry hentry => hentries.subset hentry, hborne⟩).imp ?_
  intro entry frame hboth
  exact comes_of_bears h hconn hboth.1 hboth.2

/-- When everything for the client has been written and has arrived, it was handed its whole log. -/
theorem nothing_is_missing_at_rest (h : NetReach worlds (wireEnv printable idleDebug blobs) doorman n)
    (hcable : n.cables.lookup d = some cable) (hcurrent : (n.clients cable.client).socket = some cable.socket)
    (hconn : n.connAt d = some conn) (htakes : conn.stage.takes = true) (hqueue : conn.queue = [])
    (hgiven : cable.given = stream conn.outgoing) :
    List.Forall₂ (fun entry frame => ∃ sender said,
        Comes worlds n ⟨(worlds cable.client).room, (worlds cable.client).peer⟩ entry frame sender said)
      conn.log (handedOn cable.socket (n.clients cable.client).history) := by
  obtain ⟨door, c, hdoor, hserves, hc⟩ := Network.connAt_iff.mp hconn
  have hrelay := Relay.relayReach (port_of_reach h)
  have hinv := (net_inv h).cable d cable hcable
  have hconversing := Client.conversing_of_reach (client_of_reach h cable.client)
  obtain ⟨values, hstreams⟩ := stream_frames (worlds cable.client) (utterance_outgoing hrelay hc)
  have hborne := hstreams.handed_all ((hinv.whole hcurrent).trans hgiven) (hconversing.current cable.socket hcurrent).whole
  have hlog : conn.outgoing.filterMap Item.delivered = conn.log.map (·.payload) := by
    rw [← (Relay.delivered_inv hrelay c conn hc).rest htakes, hqueue, List.append_nil]
    rfl
  rw [hlog] at hborne
  rw [← (client_served h hcable hdoor hserves hc).1]
  exact comes_of_borne h hc List.prefix_rfl hborne

end

/-! ## Alice says hello to bob -/

section
open Relay (plainEnv plainDoorman lobby)

def Client.greeted (history : List Client.Effect) (s : Nat) : Bool :=
  (Client.wroteOn s history).any fun line => decide (line.1 = .hello)

theorem Client.greeted_iff {history : List Client.Effect} {s : Nat} :
    Client.greeted history s = true ↔ Client.Greeted history s := by
  simp [Client.greeted, Client.Greeted, List.any_eq_true, Client.mem_wroteOn]

def Client.orderly (c : Client.RelayClient) : Client.Event → Bool
  | .connected s => !Client.greeted c.history s
  | .data s _ => decide (c.socket ≠ some s) || Client.greeted c.history s
  | _ => true

theorem Client.orderly_of {c : Client.RelayClient} {e : Client.Event} (h : Client.orderly c e = true) : Client.Orderly c e := by
  cases e with
  | connected s =>
    intro hgreeted
    simp [Client.orderly, Client.greeted_iff.mpr hgreeted] at h
  | data s chunk =>
    intro hs
    simpa [Client.orderly, hs, Client.greeted_iff] using h
  | _ => trivial

def lawful (env : Env) (doorman : Doorman) (n : Network Bool) (e : NetEv Bool) : Bool :=
  ((Network.portEvent e).bind (n.port.relays env doorman)).all Client.inTime &&
    (n.clientEvent e).all fun heard => Client.orderly (n.clients heard.1) heard.2

theorem lawful_of {env : Env} {doorman : Doorman} (n : Network Bool) (e : NetEv Bool) (h : lawful env doorman n e = true) :
    n.Lawful env doorman e := by
  obtain ⟨hport, hclient⟩ := Bool.and_eq_true_iff.mp h
  refine ⟨fun pe hpe r hr => ?_, fun i ce hce => ?_⟩
  · rw [hpe, Option.bind_some, hr] at hport
    exact hport
  · rw [hce] at hclient
    exact Client.orderly_of hclient

def pairWorld (bob : Bool) : Client.World :=
  { Client.quietWorld with room := lobby, peer := if bob then "bob" else "alice", connect := fun _ => none }

def clientWire (frame : ClientFrame) : Bytes := (framed frame.value.encode).getD []

def serverWire (frame : ServerFrame) : Bytes := (framed (encode frame)).getD []

/-- A client connects at a door, greets, is registered, and hears that it is. -/
def joins (bob : Bool) (d c : Nat) : List (NetEv Bool) :=
  let hello := clientWire (.hello protocolVersion lobby (pairWorld bob).peer)
  let ready := serverWire (.ready protocolVersion)
  [.client bob .start, .connect bob 0, .client bob (.connected 0), .carry d hello, .port (.door d .peek),
    .port (.door d (.fill hello.length)), .port (.door d .next), .port (.relay (.insert c)), .port (.relay (.ready c true)),
    .flush d ready, .give d ready]

def sendWire : Bytes := clientWire (.send "m-1" "bob" "hello" none none)

def messageWire : Bytes := serverWire (.message "m-1" "alice" "hello" none none)

/-- What the relay does about it: the calls of the handler, and bob's writer. -/
def routesHello : List Relay.RelayEv := Relay.acts 1 5 [] ++ List.replicate 4 (.write 2 .ok)

/-- The message goes to the relay, into bob's queue, and to bob in two pieces. -/
def saysHello : List (NetEv Bool) :=
  [NetEv.client false (.call (.send "m-1" "bob" "hello" none none)), .carry 0 sendWire,
    .port (.door 0 (.fill sendWire.length)), .port (.door 0 .next)] ++ routesHello.map (fun e => .port (.relay e)) ++
    [.flush 1 messageWire, .give 1 (messageWire.take 10), .give 1 (messageWire.drop 10)]

def helloSaid : Network Bool :=
  (runIf (Network.step pairWorld plainEnv plainDoorman) (lawful plainEnv plainDoorman) {}
    (joins false 0 1 ++ joins true 1 2 ++ saysHello)).getD {}

theorem helloSaid_reached : NetReach pairWorld plainEnv plainDoorman helloSaid := by
  have hsome : (runIf (Network.step pairWorld plainEnv plainDoorman) (lawful plainEnv plainDoorman) {}
    (joins false 0 1 ++ joins true 1 2 ++ saysHello)).isSome = true := by decide +kernel
  exact .of_runIf _ lawful_of _ .init (some_getD_of_isSome hsome _)

def bobsCable : Cable Bool :=
  ⟨true, 0, serverWire (.ready protocolVersion) ++ messageWire, serverWire (.ready protocolVersion) ++ messageWire⟩

theorem helloSaid_cable : helloSaid.cables.lookup 1 = some bobsCable := by decide +kernel

theorem helloSaid_handed :
    handedOn bobsCable.socket (helloSaid.clients bobsCable.client).history = [.message "m-1" "alice" "hello" none none] := by
  decide +kernel

/-- By then all that there was for bob has been written and has arrived. -/
theorem helloSaid_at_rest : ∃ conn, helloSaid.connAt 1 = some conn ∧ conn.stage.takes = true ∧ conn.queue = [] ∧
    bobsCable.given = stream conn.outgoing := by
  have hrest : ((helloSaid.connAt 1).any fun conn => conn.stage.takes && decide (conn.queue = []) &&
    decide (bobsCable.given = stream conn.outgoing)) = true := by decide +kernel
  cases hconn : helloSaid.connAt 1 with
  | none =>
    rw [hconn] at hrest
    cases hrest
  | some conn =>
    rw [hconn] at hrest
    simp only [Option.any_some, Bool.and_eq_true, decide_eq_true_eq] at hrest
    exact ⟨conn, rfl, hrest.1.1, hrest.1.2, hrest.2⟩

theorem bob_misses_nothing :
    ∃ conn, helloSaid.connAt 1 = some conn ∧ List.Forall₂ (fun entry frame => ∃ sender said,
        Comes pairWorld helloSaid ⟨lobby, "bob"⟩ entry frame sender said) conn.log [.message "m-1" "alice" "hello" none none] := by
  obtain ⟨conn, hconn, htakes, hqueue, hgiven⟩ := helloSaid_at_rest
  refine ⟨conn, hconn, ?_⟩
  have hall := nothing_is_missing_at_rest helloSaid_reached helloSaid_cable (by decide +kernel) hconn htakes hqueue hgiven
  rwa [helloSaid_handed] at hall

end

end OmpRelayd
